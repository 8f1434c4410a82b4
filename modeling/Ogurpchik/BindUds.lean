import Mathlib.Data.Fintype.EquivFin
import Mathlib.Data.Nat.Notation
import Mathlib.Logic.Function.Basic
import Mathlib.Logic.Relation
import Ogurpchik.Async
import Ogurpchik.Transition

/-!
# Binding a Unix Socket

`bind_uds` binds a path after removing a socket file there that nobody listens on. It looks at
the path, probes a socket it finds with a connection, unlinks it when the connection is refused,
and binds. These are separate operations of the file system, so other callers of the same path
can act between any two of them.

This module models `bind_uds` as the program of its operations, the path as the file on it and
the sockets that have a listener, and any number of calls on one path as a transition system. A
bind fails if the path exists, and a connection to a socket is refused exactly if no listener is
bound to it; apart from that every operation may fail with some other error.

A call that was refused by a stale socket unlinks whatever is on the path when it comes to it.
If another call has bound the path by then, that is a live socket.

## Main definitions

* `clearStaleSocket`, `bindUds`: the programs.
* `Answers`: what the operating system does with an operation.
* `Step`, `Reachable`: all interleavings of the calls.
* `BindsInWindow`: a call binds while another one stands between its refused probe and its
  unlink.

## Main results

* `Reachable.inv`: without such a bind, what a call is about to unlink is not live, and whoever
  has bound owns the path.
* `live_sockets_kept`: **without such a bind no live socket is unlinked**, and with one there is
  an unlink that does it.
* `stale_socket_race`: two calls over one stale socket.
-/

namespace Ogurpchik

namespace Uds

open Async Transition

/-! ### The program -/

/-- The device and inode of a file: what `FileIdentity` compares. -/
abbrev Identity := ℕ × ℕ

/-- A file, as `symlink_metadata` describes it: whether it is a socket, and its identity. -/
inductive File
  | socket (identity : Identity)
  | other (identity : Identity)
  deriving DecidableEq, Repr

/-- The identity of a file, of whatever kind it is. -/
def File.identity : File → Identity
  | socket identity | other identity => identity

/-- `is_socket_file`: only sockets may be removed. -/
def File.isSocketFile : File → Bool
  | socket _ => true
  | other _ => false

/-- The kinds of `std::io::Error` the code tells apart; all others are alike to it. -/
inductive IoKind
  | notFound
  | alreadyExists
  | addrInUse
  | connectionRefused
  | other (code : ℕ)
  deriving DecidableEq, Repr

/-- `std::io::Error`: one made by the code has a text of its own, and one of the system any text. -/
structure IoFailure where
  kind : IoKind
  text : String
  deriving DecidableEq, Repr

/-- A report over `TransportError::Bind`, with what was attached to it: the path. -/
structure BindReport where
  cause : IoFailure
  attached : String
  deriving DecidableEq, Repr

/-- `Listener::Uds`: the socket it listens on, its path, and the identity of the file it found
there after the bind. -/
structure UdsListener where
  listener : Identity
  path : String
  identity : Option Identity
  deriving DecidableEq, Repr

/-- The operations on the path, each of which is one call of the system: between two of them others
may act. -/
inductive FsOp
  | symlinkMetadata
  | connect
  | removeFile
  | bind
  | fileIdentity

/-- Their answers; `bind` answers with the socket it made, and the identity of a file that cannot be
read is none. -/
abbrev FsOp.Ans : FsOp → Type
  | symlinkMetadata => Except IoFailure File
  | connect => Except IoFailure Unit
  | removeFile => Except IoFailure Unit
  | bind => Except IoFailure Identity
  | fileIdentity => Option Identity

/-- Programs over one path: `async` functions up to the system calls they make. -/
abbrev FsProg := Prog FsOp FsOp.Ans

/-- What `bind_uds` is at some point of its run, between two system calls. -/
abbrev BindProg := FsProg (Except BindReport UdsListener)

/-- The failure of `clear_stale_socket` on a path that holds something else than a socket. -/
def notASocket : IoFailure :=
  ⟨.alreadyExists, "the path holds something other than a socket; not removing it"⟩

/-- The failure of `clear_stale_socket` on a socket that answers. -/
def serverListening : IoFailure := ⟨.addrInUse, "a server is listening on this socket"⟩

/-- The end of `clear_stale_socket`: probe the socket, and unlink it if nobody answers. -/
def probe : FsProg (Except IoFailure Unit) :=
  .await .connect fun
    | .ok () => .done (.error serverListening)
    | .error e =>
        if e.kind = .connectionRefused then .await .removeFile fun removed => .done removed
        else .done (.error e)

/-- `clear_stale_socket`: a path that holds nothing is clear, one that holds a socket is probed, and
one that holds anything else is refused. -/
def clearStaleSocket : FsProg (Except IoFailure Unit) :=
  .await .symlinkMetadata fun
    | .ok metadata => if metadata.isSocketFile then probe else .done (.error notASocket)
    | .error e => if e.kind = .notFound then .done (.ok ()) else .done (.error e)

/-- The report of a failed `bind_uds`: the failure, with the path it was about. -/
def bindReport (path : String) (e : IoFailure) : BindReport := ⟨e, "uds " ++ path⟩

/-- The end of `bind_uds`, with the socket that was bound: the listener remembers the identity of
its file, if it can be read. -/
def identify (path : String) (socket : Identity) : BindProg :=
  .await .fileIdentity fun identity => .done (.ok ⟨socket, path, identity⟩)

/-- `bind_uds` once the path is clear: the path may have been taken meanwhile, and then the bind
fails. -/
def bindClear (path : String) : BindProg :=
  .await .bind fun
    | .ok socket => identify path socket
    | .error e => .done (.error (bindReport path e))

/-- What `bind_uds` does with the result of `clear_stale_socket`: bind, or report the failure. -/
def afterClear (path : String) : Except IoFailure Unit → BindProg
  | .ok () => bindClear path
  | .error e => .done (.error (bindReport path e))

/-- `bind_uds`: clear the path of a stale socket, bind, and remember the identity of the socket. -/
def bindUds (path : String) : BindProg :=
  clearStaleSocket.bind (afterClear path)

/-! ### The operating system -/

/-- The file on the path, and the sockets a listener is bound to. A socket may be live without
standing on the path. -/
structure Fs where
  file : Option File
  live : List Identity

/-- The file on the path is a socket with a listener: what must not be unlinked. -/
def Fs.PathLive (fs : Fs) : Prop := ∃ socket, fs.file = some (.socket socket) ∧ socket ∈ fs.live

/-- What an operation answers and what it leaves. A new socket does not have the identity of one
with a listener. -/
inductive Answers : Fs → (op : FsOp) → op.Ans → Fs → Prop
  | metadata {fs : Fs} {file : File} : fs.file = some file →
      Answers fs .symlinkMetadata (.ok file) fs
  | noMetadata {fs : Fs} {e : IoFailure} : fs.file = none → e.kind = .notFound →
      Answers fs .symlinkMetadata (.error e) fs
  | metadataFails {fs : Fs} {e : IoFailure} : e.kind ≠ .notFound →
      Answers fs .symlinkMetadata (.error e) fs
  | connected {fs : Fs} : fs.PathLive → Answers fs .connect (.ok ()) fs
  | refused {fs : Fs} {e : IoFailure} : fs.file ≠ none → ¬fs.PathLive →
      e.kind = .connectionRefused → Answers fs .connect (.error e) fs
  | connectFails {fs : Fs} {e : IoFailure} : e.kind ≠ .connectionRefused →
      Answers fs .connect (.error e) fs
  | removed {fs : Fs} : fs.file ≠ none →
      Answers fs .removeFile (.ok ()) { fs with file := none }
  | removeFails {fs : Fs} (e : IoFailure) : Answers fs .removeFile (.error e) fs
  | bound {fs : Fs} {socket : Identity} : fs.file = none → socket ∉ fs.live →
      Answers fs .bind (.ok socket) ⟨some (.socket socket), socket :: fs.live⟩
  | bindFails {fs : Fs} (e : IoFailure) : Answers fs .bind (.error e) fs
  | identified {fs : Fs} : Answers fs .fileIdentity (fs.file.map File.identity) fs
  | notIdentified {fs : Fs} : Answers fs .fileIdentity none fs

/-- The path and the calls of `bind_uds` on it, by number. The calls may be of any number of
processes. -/
structure State where
  fs : Fs
  calls : ℕ → Option BindProg

/-- No call has been made, and the path holds what it holds. -/
def State.init (fs : Fs) : State := ⟨fs, fun _ => none⟩

/-- One step, of the call `n`: it begins, or one of its system calls is answered. -/
inductive Step (path : String) (n : ℕ) : State → State → Prop
  | call {s : State} : s.calls n = none →
      Step path n s { s with calls := Function.update s.calls n (some (bindUds path)) }
  | answer {s : State} {op : FsOp} {k : op.Ans → BindProg} {ans : op.Ans} {fs : Fs} :
      s.calls n = some (.await op k) → Answers s.fs op ans fs →
      Step path n s ⟨fs, Function.update s.calls n (some (k ans))⟩

/-- States that some interleaving reaches in which every step is `allowed`. What is allowed tells
how calls may overlap. -/
def Reachable (path : String) (allowed : State → ℕ → Prop) (fs : Fs) (s : State) : Prop :=
  Relation.ReflTransGen (fun s t => ∃ n, Step path n s t ∧ allowed s n) (.init fs) s

/-- The call `n` awaits `op`: the system call is next. -/
def State.Awaits (s : State) (n : ℕ) (op : FsOp) : Prop :=
  ∃ k, s.calls n = some (.await op k)

/-- The call `n` is about to bind the free path while another call, whose probe was refused, has
its unlink still before it. -/
def BindsInWindow (s : State) (n : ℕ) : Prop :=
  s.Awaits n .bind ∧ s.fs.file = none ∧ ∃ m, s.Awaits m .removeFile

/-- The step from `s` to `t` unlinks a socket with a listener: the race that the probe is meant to
exclude. -/
def UnlinksLive (s t : State) : Prop := s.fs.PathLive ∧ t.fs.file = none

/-- The call `n` has returned a listener, which its caller takes for the one on the path. -/
def State.ReturnsOk (s : State) (n : ℕ) (l : UdsListener) : Prop :=
  s.calls n = some (.done (.ok l))

/-! ### What one operation does -/

section Move

variable {path : String} {fs fs' : Fs}

/-- `bind_uds` once its probe was refused: it will unlink whatever stands on the path then. -/
def unlinkClear (path : String) : BindProg := .await .removeFile (afterClear path)

/-- The places where a call has not bound: before each of its first four operations, and behind
an error. -/
inductive Pending (path : String) : BindProg → Prop
  | metadata : Pending path (bindUds path)
  | probe : Pending path (probe.bind (afterClear path))
  | unlink : Pending path (unlinkClear path)
  | bind : Pending path (bindClear path)
  | failed (e : BindReport) : Pending path (.done (.error e))

/-- The places where a call has bound `socket`: it has yet to look up the identity, or has
returned. -/
inductive BoundTo (path : String) (socket : Identity) : BindProg → Prop
  | identify : BoundTo path socket (identify path socket)
  | returned (l : UdsListener) : l.listener = socket → BoundTo path socket (.done (.ok l))

/-- A call that has yet to bind has bound nothing: the two kinds of places do not overlap. -/
theorem Pending.not_boundTo {p : BindProg} {socket : Identity} (h : Pending path p) :
    ¬BoundTo path socket p := by
  intro hb
  generalize hq : p = q at hb
  cases hb with
  | identify =>
    cases h with
    | metadata | probe | unlink | bind =>
      change Prog.await _ _ = Prog.await _ _ at hq
      cases hq
    | failed e => cases hq
  | returned l _ => cases h <;> cases hq

/-- What is left of a call behind its bind determines the socket it has bound. -/
theorem identify_inj {socket socket' : Identity}
    (h : identify path socket = identify path socket') : socket = socket' := by
  injection h with _ hk
  injection congrFun hk none with hok
  injection hok with hl
  exact congrArg UdsListener.listener hl

/-- A call has bound one socket: what is left of it names the socket it will return. -/
theorem BoundTo.unique {p : BindProg} {socket socket' : Identity}
    (h : BoundTo path socket p) (h' : BoundTo path socket' p) : socket = socket' := by
  generalize hq : p = q at h'
  cases h with
  | identify =>
    cases h' with
    | identify => exact identify_inj hq
    | returned l _ => cases hq
  | returned l hl =>
    cases h' with
    | identify => cases hq
    | returned l' hl' =>
      cases hq
      exact hl.symm.trans hl'

/-- What an operation of a call can do: leave the path alone; unlink; bind; or find the identity
of what was bound. A call comes to its unlink only over a path that is not live. -/
inductive Move (path : String) : Fs → BindProg → Fs → BindProg → Prop
  | quiet {fs : Fs} {p q : BindProg} : Pending path q →
      (q = unlinkClear path → ¬fs.PathLive) → Move path fs p fs q
  | unlink {fs : Fs} :
      Move path fs (unlinkClear path) { fs with file := none } (bindClear path)
  | bind {fs : Fs} (socket : Identity) : fs.file = none →
      Move path fs (bindClear path) ⟨some (.socket socket), socket :: fs.live⟩
        (identify path socket)
  | identify {fs : Fs} (l : UdsListener) :
      Move path fs (identify path l.listener) fs (.done (.ok l))

/-- A failed operation leaves the path alone. -/
theorem Move.failed (fs : Fs) (p : BindProg) (e : BindReport) :
    Move path fs p fs (.done (.error e)) :=
  .quiet (.failed e) fun h => by cases h

/-- **One operation** of a call: from each place in `bind_uds`, what the answer leaves, and what
happened to the path. -/
theorem Pending.move {p : BindProg} {op : FsOp} {k : op.Ans → BindProg} {ans : op.Ans}
    (h : Pending path p) (hp : p = .await op k) (ha : Answers fs op ans fs') :
    Move path fs p fs' (k ans) := by
  cases h with
  | metadata =>
    change Prog.await _ _ = _ at hp
    cases hp
    cases ha with
    | @metadata file hfile =>
      cases file with
      | socket identity =>
        refine .quiet .probe fun h => ?_
        change Prog.await _ _ = Prog.await _ _ at h
        cases h
      | other identity => exact .failed _ _ _
    | noMetadata _ he =>
      simp only [he, if_true]
      exact .quiet .bind fun h => by cases h
    | metadataFails he =>
      simp only [he, if_false]
      exact .failed _ _ _
  | probe =>
    change Prog.await _ _ = _ at hp
    cases hp
    cases ha with
    | connected => exact .failed _ _ _
    | refused _ hlive he =>
      simp only [he, if_true]
      exact .quiet .unlink fun _ => hlive
    | connectFails he =>
      simp only [he, if_false]
      exact .failed _ _ _
  | unlink =>
    cases hp
    cases ha with
    | removed => exact .unlink
    | removeFails e => exact .failed _ _ _
  | bind =>
    cases hp
    cases ha with
    | bound hnone _ => exact .bind _ hnone
    | bindFails e => exact .failed _ _ _
  | failed e => cases hp

/-- A call that has bound only asks for the identity of its socket, and changes nothing any more. -/
theorem BoundTo.move {p : BindProg} {socket : Identity} {op : FsOp} {k : op.Ans → BindProg}
    {ans : op.Ans} (h : BoundTo path socket p) (hp : p = .await op k) (ha : Answers fs op ans fs') :
    Move path fs p fs' (k ans) := by
  cases h with
  | identify =>
    cases hp
    cases ha with
    | identified | notIdentified => exact .identify ⟨socket, path, _⟩
  | returned l _ => cases hp

end Move

/-! ### The invariant -/

section Invariant

variable {path : String} {fs : Fs} {s t : State} {n : ℕ}

/-- What a call is about to unlink is not live, and at most one call has bound, the one that
owns the path. -/
structure Inv (path : String) (s : State) : Prop where
  position : ∀ m p, s.calls m = some p → Pending path p ∨ ∃ socket, BoundTo path socket p
  unlink : ∀ m, s.calls m = some (unlinkClear path) → ¬s.fs.PathLive
  bound : ∀ m p socket, s.calls m = some p → BoundTo path socket p →
    s.fs.file = some (.socket socket) ∧ socket ∈ s.fs.live
  unique : ∀ m m' p p' socket socket', s.calls m = some p → s.calls m' = some p' →
    BoundTo path socket p → BoundTo path socket' p' → m = m'

/-- Nobody listens on a path that holds nothing. -/
theorem not_pathLive_of_none (h : fs.file = none) : ¬fs.PathLive := by
  rintro ⟨socket, hfile, -⟩
  rw [h] at hfile
  cases hfile

/-- Nobody has bound a path that is not live. -/
theorem Inv.not_boundTo (h : Inv path s) (hlive : ¬s.fs.PathLive) {m : ℕ}
    {p : BindProg} (hp : s.calls m = some p) (socket : Identity) :
    ¬BoundTo path socket p :=
  fun hb => hlive ⟨socket, h.bound m p socket hp hb⟩

/-- The call `n` goes on to a place where it has not bound. If it is about to unlink, then the path
is not live. -/
theorem Inv.quiet (h : Inv path s) {q : BindProg}
    (hq : Pending path q) (hunlink : q = unlinkClear path → ¬s.fs.PathLive) :
    Inv path { s with calls := Function.update s.calls n (some q) } where
  position m p hp := by
    rcases update_eq_some hp with ⟨-, rfl⟩ | ⟨-, hp⟩
    · exact .inl hq
    · exact h.position m p hp
  unlink m hp := by
    rcases update_eq_some hp with ⟨-, hq⟩ | ⟨-, hp⟩
    · exact hunlink hq.symm
    · exact h.unlink m hp
  bound m p socket hp hb := by
    rcases update_eq_some hp with ⟨-, rfl⟩ | ⟨-, hp⟩
    · exact absurd hb hq.not_boundTo
    · exact h.bound m p socket hp hb
  unique m m' p p' socket socket' hp hp' hb hb' := by
    rcases update_eq_some hp with ⟨-, rfl⟩ | ⟨-, hm⟩
    · exact absurd hb hq.not_boundTo
    · rcases update_eq_some hp' with ⟨-, rfl⟩ | ⟨-, hm'⟩
      · exact absurd hb' hq.not_boundTo
      · exact h.unique m m' p p' socket socket' hm hm' hb hb'

/-- The call `n` unlinks a path that is not live, so no socket of another call is lost. -/
theorem Inv.unlinked (h : Inv path s) (hlive : ¬s.fs.PathLive) :
    Inv path
      ⟨{ s.fs with file := none }, Function.update s.calls n (some (bindClear path))⟩ where
  position m p hp := by
    rcases update_eq_some hp with ⟨-, rfl⟩ | ⟨-, hp⟩
    · exact .inl .bind
    · exact h.position m p hp
  unlink _ _ := not_pathLive_of_none rfl
  bound m p socket hp hb := by
    rcases update_eq_some hp with ⟨-, rfl⟩ | ⟨-, hp⟩
    · exact absurd hb Pending.bind.not_boundTo
    · exact absurd hb (h.not_boundTo hlive hp socket)
  unique m m' p p' socket socket' hp _ hb _ := by
    rcases update_eq_some hp with ⟨-, rfl⟩ | ⟨-, hp⟩
    · exact absurd hb Pending.bind.not_boundTo
    · exact absurd hb (h.not_boundTo hlive hp socket)

/-- The call `n` has the path: it has just bound it, and no other call is before its unlink, or
it had bound it before. -/
theorem Inv.owned (h : Inv path s) {q : BindProg}
    {socket : Identity} (hq : BoundTo path socket q) (hfile : fs.file = some (.socket socket))
    (hlive : socket ∈ fs.live)
    (hunlink : ∀ m, m ≠ n → s.calls m ≠ some (unlinkClear path))
    (hothers : ∀ m p i, m ≠ n → s.calls m = some p → ¬BoundTo path i p) :
    Inv path ⟨fs, Function.update s.calls n (some q)⟩ where
  position m p hp := by
    rcases update_eq_some hp with ⟨-, rfl⟩ | ⟨-, hp⟩
    · exact .inr ⟨socket, hq⟩
    · exact h.position m p hp
  unlink m hp := by
    rcases update_eq_some hp with ⟨-, rfl⟩ | ⟨hm, hp⟩
    · exact absurd hq Pending.unlink.not_boundTo
    · exact absurd hp (hunlink m hm)
  bound m p i hp hb := by
    rcases update_eq_some hp with ⟨-, rfl⟩ | ⟨hm, hp⟩
    · obtain rfl := hq.unique hb
      exact ⟨hfile, hlive⟩
    · exact absurd hb (hothers m p i hm hp)
  unique m m' p p' i i' hp hp' hb hb' := by
    rcases update_eq_some hp with ⟨rfl, -⟩ | ⟨hm, hp⟩
    · rcases update_eq_some hp' with ⟨rfl, -⟩ | ⟨hm', hp'⟩
      · rfl
      · exact absurd hb' (hothers m' p' i' hm' hp')
    · exact absurd hb (hothers m p i hm hp)

/-- The next operation of a call does one of the moves. -/
theorem Inv.moves (h : Inv path s) {op : FsOp} {k : op.Ans → BindProg} {ans : op.Ans}
    (hn : s.calls n = some (.await op k)) (ha : Answers s.fs op ans fs) :
    Move path s.fs (.await op k) fs (k ans) := by
  rcases h.position n _ hn with hp | ⟨socket, hb⟩
  · exact hp.move rfl ha
  · exact hb.move rfl ha

/-- A step outside the window keeps the invariant: by the moves of `Pending.move`, one case for
each. -/
theorem Inv.step (h : Inv path s) (hs : Step path n s t) (hw : ¬BindsInWindow s n) :
    Inv path t := by
  cases hs with
  | call hn =>
    refine h.quiet .metadata fun hq => ?_
    change Prog.await _ _ = Prog.await _ _ at hq
    cases hq
  | @answer op k ans fs hn ha =>
    have hmove := h.moves hn ha
    generalize k ans = q at hmove
    generalize hp : Prog.await op k = p at hmove hn
    cases hmove with
    | quiet hq hunlink => exact h.quiet hq hunlink
    | unlink => exact h.unlinked (h.unlink n hn)
    | bind socket hnone =>
      -- the path was free, so nobody had bound it
      apply h.owned .identify rfl List.mem_cons_self
      · intro m _ hm
        exact hw ⟨⟨_, hn⟩, hnone, m, _, hm⟩
      · intro m p i _ hm
        exact h.not_boundTo (not_pathLive_of_none hnone) hm i
    | identify l =>
      obtain ⟨hfile, hlive⟩ := h.bound n _ _ hn .identify
      apply h.owned (.returned l rfl) hfile hlive
      · intro m _ hm
        exact h.unlink m hm ⟨_, hfile, hlive⟩
      · intro m p i hne hm hb
        exact hne (h.unique m n p _ i _ hm hn hb .identify)

/-- The invariant holds in every state reached outside the window, from any file system without
calls. -/
theorem Reachable.inv (h : Reachable path (fun s n => ¬BindsInWindow s n) fs s) :
    Inv path s := by
  induction h with
  | refl =>
    -- no call has been made
    refine ⟨?_, ?_, ?_, ?_⟩
    · intro m p hp
      cases hp
    · intro m hp
      cases hp
    · intro m p i hp
      cases hp
    · intro m m' p p' i i' hp
      cases hp
  | tail _ hs ih =>
    obtain ⟨n, hs, hw⟩ := hs
    exact ih.step hs hw

/-- Outside the window no step unlinks a live socket, since a call that is about to unlink has seen
a dead one. -/
theorem Inv.not_unlinksLive (h : Inv path s) (hs : Step path n s t) : ¬UnlinksLive s t := by
  rintro ⟨hlive, hnone⟩
  cases hs with
  | call => exact not_pathLive_of_none hnone hlive
  | @answer op k ans fs hn ha =>
    have hmove := h.moves hn ha
    generalize k ans = q at hmove
    generalize hp : Prog.await op k = p at hmove hn
    cases hmove with
    | quiet | identify => exact not_pathLive_of_none hnone hlive
    | unlink => exact h.unlink n hn hlive
    | bind socket => cases hnone

/-- A bind inside the window can be followed by an unlink of what was bound. -/
theorem BindsInWindow.unlinksLive (h : BindsInWindow s n) :
    ∃ m t u, Step path n s t ∧ Step path m t u ∧ UnlinksLive t u := by
  obtain ⟨⟨k, hn⟩, hnone, m, k', hm⟩ := h
  have hne : m ≠ n := by
    rintro rfl
    rw [hn] at hm
    cases hm
  obtain ⟨socket, hfresh⟩ := Infinite.exists_notMem_finset s.fs.live.toFinset
  rw [List.mem_toFinset] at hfresh
  have hm' : Function.update s.calls n (some (k (.ok socket))) m = some (.await .removeFile k') :=
    (Function.update_of_ne hne _ _).trans hm
  exact ⟨m, _, _, .answer hn (.bound hnone hfresh), .answer hm' (.removed (Option.some_ne_none _)),
    ⟨socket, rfl, List.mem_cons_self⟩, rfl⟩

end Invariant

/-! ### Two calls -/

/-- The calls `0` and `1`, for runs in which two of them overlap. -/
def two (p q : BindProg) : ℕ → Option BindProg :=
  Function.update (Function.update (fun _ => none) 0 (some p)) 1 (some q)

section Two

variable {path : String} {fs fs' : Fs} {op : FsOp} {ans : op.Ans}
  {k : op.Ans → BindProg}

/-- The first of two calls goes on. -/
theorem update_two_zero (p p' q : BindProg) :
    Function.update (two p q) 0 (some p') = two p' q := by
  rw [two, Function.update_comm one_ne_zero, Function.update_idem]
  rfl

/-- The second of two calls goes on. -/
theorem update_two_one (p q q' : BindProg) :
    Function.update (two p q) 1 (some q') = two p q' :=
  Function.update_idem _ _ _

/-- A step of the first of two calls, with an answer of the file system. -/
theorem step_first (q : BindProg) (h : Answers fs op ans fs') :
    Step path 0 ⟨fs, two (.await op k) q⟩ ⟨fs', two (k ans) q⟩ := by
  rw [← update_two_zero (.await op k) (k ans) q]
  exact .answer rfl h

/-- A step of the second of two calls, with an answer of the file system. -/
theorem step_second (p : BindProg) (h : Answers fs op ans fs') :
    Step path 1 ⟨fs, two p (.await op k)⟩ ⟨fs', two p (k ans)⟩ := by
  rw [← update_two_one p (.await op k) (k ans)]
  exact .answer rfl h

/-- A call of two does not bind in the window if the other has no unlink before it. -/
theorem not_bindsInWindow_two {n : ℕ} {p q : BindProg} (hp : ∀ k, p ≠ .await .removeFile k)
    (hq : ∀ k, q ≠ .await .removeFile k) : ¬BindsInWindow ⟨fs, two p q⟩ n := by
  rintro ⟨-, -, m, k, hm⟩
  rcases update_eq_some hm with ⟨-, hk⟩ | ⟨-, hm⟩
  · exact hq k hk.symm
  rcases update_eq_some hm with ⟨-, hk⟩ | ⟨-, hm⟩
  · exact hp k hk.symm
  · cases hm

end Two

/-- A path with a socket on it that nobody listens on, as a server that crashed leaves it. -/
def stale : Fs := ⟨some (.socket (1, 7)), []⟩

/-- A probe of the stale socket is refused. -/
theorem refused_stale : Answers stale .connect (.error ⟨.connectionRefused, ""⟩) stale := by
  refine .refused (Option.some_ne_none _) ?_ rfl
  rintro ⟨socket, -, hlive⟩
  cases hlive

/-- Two calls have both found the stale socket, and are about to probe it. -/
theorem both_probing {path : String} {allowed : State → ℕ → Prop}
    (hallowed : ∀ s n, s.fs.file ≠ none → allowed s n) :
    Reachable path allowed stale
      ⟨stale, two (probe.bind (afterClear path)) (probe.bind (afterClear path))⟩ := by
  have hsocket : Answers stale .symlinkMetadata (.ok (.socket (1, 7))) stale := .metadata rfl
  have hcalled : Reachable path allowed stale ⟨stale, two (bindUds path) (bindUds path)⟩ :=
    .tail (.tail .refl ⟨0, .call rfl, hallowed _ 0 (Option.some_ne_none _)⟩)
      ⟨1, .call rfl, hallowed _ 1 (Option.some_ne_none _)⟩
  exact .tail (.tail hcalled ⟨0, step_first _ hsocket, hallowed _ 0 (Option.some_ne_none _)⟩)
    ⟨1, step_second _ hsocket, hallowed _ 1 (Option.some_ne_none _)⟩

/-! ### Live sockets -/

/-- **Concurrent binds** on one path, whatever is on it: as long as no call binds the free path
while another one, whose probe was refused, has its unlink still before it, no step unlinks a
live socket, every call that returned a listener is reachable through the path, and there is at
most one of them. Once a call is about to do such a bind, the two can go on so that a live socket
is unlinked. -/
theorem live_sockets_kept {path : String} {fs : Fs} {s : State}
    (h : Reachable path (fun s n => ¬BindsInWindow s n) fs s) :
    (∀ n t, Step path n s t → ¬UnlinksLive s t) ∧
    (∀ n l, s.ReturnsOk n l →
      s.fs.file = some (.socket l.listener) ∧ l.listener ∈ s.fs.live) ∧
    (∀ n m l l', s.ReturnsOk n l → s.ReturnsOk m l' → n = m) ∧
    (∀ n, BindsInWindow s n → ∃ m t u, Step path n s t ∧ Step path m t u ∧ UnlinksLive t u) := by
  have hinv := h.inv
  refine ⟨?_, ?_, ?_, ?_⟩
  · intro n t hs
    exact hinv.not_unlinksLive hs
  · intro n l hl
    exact hinv.bound n _ _ hl (.returned l rfl)
  · intro n m l l' hl hl'
    exact hinv.unique n m _ _ _ _ hl hl' (.returned l rfl) (.returned l' rfl)
  · intro n hw
    exact hw.unlinksLive

/-- Two calls over a stale socket, inside the condition: both look at it, the first is refused by
it, unlinks it and binds before the second has probed, and the probe of the second is answered. The
second fails, and the first owns the path. -/
theorem live_sockets_kept_stale :
    ∃ s l, Reachable "agent.sock" (fun s n => ¬BindsInWindow s n) ⟨some (.socket (1, 7)), []⟩ s ∧
      s.ReturnsOk 0 l ∧
      s.calls 1 = some (.done (.error (bindReport "agent.sock" serverListening))) ∧
      s.fs.file = some (.socket l.listener) ∧ l.listener ∈ s.fs.live ∧
      ∀ n t, Step "agent.sock" n s t → ¬UnlinksLive s t := by
  let bound : Fs := ⟨some (.socket (1, 8)), [(1, 8)]⟩
  let probing : BindProg := probe.bind (afterClear "agent.sock")
  let l : UdsListener := ⟨(1, 8), "agent.sock", some (1, 8)⟩
  let R := Reachable "agent.sock" (fun s n => ¬BindsInWindow s n) stale
  have htaken (s : State) (n : ℕ) (h : s.fs.file ≠ none) : ¬BindsInWindow s n := fun hw =>
    h hw.2.1
  -- both have looked at the path; the first is refused and unlinks the stale socket
  have h1 : R ⟨stale, two (unlinkClear "agent.sock") probing⟩ :=
    .tail (both_probing htaken)
      ⟨0, step_first _ refused_stale, htaken _ 0 (Option.some_ne_none _)⟩
  have h2 : R ⟨⟨none, []⟩, two (bindClear "agent.sock") probing⟩ :=
    .tail h1 ⟨0, step_first _ (.removed (Option.some_ne_none _)),
      htaken _ 0 (Option.some_ne_none _)⟩
  -- it binds while the second still has its probe before it
  have h3 : R ⟨bound, two (identify "agent.sock" (1, 8)) probing⟩ := by
    refine .tail h2 ⟨0, step_first _ (.bound rfl List.not_mem_nil), not_bindsInWindow_two ?_ ?_⟩
    · intro k hk
      change Prog.await _ _ = Prog.await _ _ at hk
      cases hk
    · intro k hk
      change Prog.await _ _ = Prog.await _ _ at hk
      cases hk
  -- the probe of the second is answered, and the first returns
  have h4 : R ⟨bound, two (identify "agent.sock" (1, 8))
      (.done (.error (bindReport "agent.sock" serverListening)))⟩ :=
    .tail h3 ⟨1, step_second _ (.connected ⟨(1, 8), rfl, List.mem_cons_self⟩),
      htaken _ 1 (Option.some_ne_none _)⟩
  have h5 : R ⟨bound, two (.done (.ok l))
      (.done (.error (bindReport "agent.sock" serverListening)))⟩ :=
    .tail h4 ⟨0, step_first _ .identified, htaken _ 0 (Option.some_ne_none _)⟩
  obtain ⟨hkept, howned, -⟩ := live_sockets_kept h5
  obtain ⟨hfile, hlive⟩ := howned 0 l rfl
  exact ⟨_, l, h5, rfl, rfl, hfile, hlive, hkept⟩

/-- **Two calls over one stale socket.** Both are refused by it; the first unlinks it, binds and
returns; the second then unlinks the live socket of the first, binds and returns, and the first
is no longer reachable. -/
theorem stale_socket_race :
    ∃ s t u l l', Reachable "agent.sock" (fun _ _ => True) ⟨some (.socket (1, 7)), []⟩ s ∧
      Step "agent.sock" 1 s t ∧ UnlinksLive s t ∧
      Reachable "agent.sock" (fun _ _ => True) ⟨some (.socket (1, 7)), []⟩ u ∧
      u.ReturnsOk 0 l ∧ u.ReturnsOk 1 l' ∧ u.fs.file ≠ some (.socket l.listener) := by
  let l : UdsListener := ⟨(1, 8), "agent.sock", some (1, 8)⟩
  let l' : UdsListener := ⟨(1, 9), "agent.sock", some (1, 9)⟩
  let R := Reachable "agent.sock" (fun _ _ => True) stale
  -- both have looked at the path, and are refused
  have h1 : R ⟨stale, two (unlinkClear "agent.sock") (unlinkClear "agent.sock")⟩ :=
    .tail (.tail (both_probing fun _ _ _ => trivial) ⟨0, step_first _ refused_stale, trivial⟩)
      ⟨1, step_second _ refused_stale, trivial⟩
  -- the first goes on to its end
  have h2 : R ⟨⟨some (.socket (1, 8)), [(1, 8)]⟩,
      two (identify "agent.sock" (1, 8)) (unlinkClear "agent.sock")⟩ :=
    .tail (.tail h1 ⟨0, step_first _ (.removed (Option.some_ne_none _)), trivial⟩)
      ⟨0, step_first _ (.bound rfl List.not_mem_nil), trivial⟩
  have h3 : R ⟨⟨some (.socket (1, 8)), [(1, 8)]⟩,
      two (.done (.ok l)) (unlinkClear "agent.sock")⟩ :=
    .tail h2 ⟨0, step_first _ .identified, trivial⟩
  -- the second unlinks the socket of the first
  have h4 : Step "agent.sock" 1 ⟨⟨some (.socket (1, 8)), [(1, 8)]⟩,
      two (.done (.ok l)) (unlinkClear "agent.sock")⟩
      ⟨⟨none, [(1, 8)]⟩, two (.done (.ok l)) (bindClear "agent.sock")⟩ :=
    step_second _ (.removed (Option.some_ne_none _))
  have h5 : R ⟨⟨some (.socket (1, 9)), [(1, 9), (1, 8)]⟩,
      two (.done (.ok l)) (identify "agent.sock" (1, 9))⟩ :=
    .tail (.tail h3 ⟨1, h4, trivial⟩) ⟨1, step_second _ (.bound rfl (by decide)), trivial⟩
  have h6 : R ⟨⟨some (.socket (1, 9)), [(1, 9), (1, 8)]⟩, two (.done (.ok l)) (.done (.ok l'))⟩ :=
    .tail h5 ⟨1, step_second _ .identified, trivial⟩
  exact ⟨_, _, _, l, l', h3, h4, ⟨⟨(1, 8), rfl, List.mem_cons_self⟩, rfl⟩, h6, rfl, rfl, by decide⟩

end Uds

end Ogurpchik
