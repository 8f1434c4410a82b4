import Ogurpchik.BindUds

/-!
# Listeners and Their Socket Files

A listener on a Unix socket removes its file when it is dropped. The file may have been deleted or
replaced since, by another listener or by somebody else, so `bind_uds` records the device and inode
of what it bound and the drop compares them with what it finds. The pair is a name that the
operating system hands out again: that it tells the listener's own file is an argument about the
whole history of a run.

The module models the file system as the directory entries that paths lead to and the files the
entries hold. A file has, besides what `symlink_metadata` tells, a number of its own that is never
used again: it is what the results mean by *the same file*, and no operation sees it. Calls of
`bind_uds` and drops are carried out completely, one after the other, on any paths. Between them
outsiders may do to the entries and to the paths whatever they like: create, replace, delete, rename
or link files, and listen on sockets. The only limit is the assumption that the pair of a socket is
not given to another file while its listener is open.

`bindUds` is the program of `Ogurpchik.BindUds`, where calls on one path are interleaved.

## Main definitions

* `dropUds`: what a drop does.
* `State`, `Answers`: the file system, and what it does with an operation.
* `Step`, `Reachable`: all sequences of calls, drops and acts of outsiders.

## Main results

* `Reachable.inv`: a file with the pair of an open listener is that listener's socket.
* `runs_bindUds`, `runs_dropUds`: what a call and a drop can do.
* `listener_removes_only_own`: **a listener removes only its own socket.**
-/

namespace Ogurpchik

namespace Ownership

open Async Transition
open Uds (File Identity IoFailure IoKind BindReport UdsListener FsOp FsProg BindProg bindUds
  bindClear clearStaleSocket)

/-! ### The program -/

/-- `Drop for Listener`, on Unix, up to closing the listener: the path is unlinked only if it still
holds the socket of the listener. -/
def dropUds (l : UdsListener) : FsProg Unit :=
  if l.identity.isSome then
    .await .fileIdentity fun found =>
      if found = l.identity then .await .removeFile fun _ => .done ()
      else .done ()
  else .done ()

/-! ### The file system -/

/-- A file: a number no other file has or will have, and what `symlink_metadata` tells of it. -/
structure Inode where
  birth : ℕ
  file : File
  deriving DecidableEq, Repr

/-- The file system and the listeners. Listeners and their sockets have the number of the call that
made them. -/
structure State where
  /-- The directory entry a path leads to. -/
  entry : String → ℕ
  /-- The file an entry holds. -/
  files : ℕ → Option Inode
  /-- The sockets outsiders listen on. -/
  foreign : Inode → Prop
  /-- The sockets that were bound and are open. -/
  sockets : ℕ → Option Inode
  /-- The listeners that have not been dropped. -/
  listeners : ℕ → Option UdsListener
  /-- The number of the next file. -/
  born : ℕ

namespace State

variable (s : State)

/-- The file on a path. Two paths may be the same entry, by a link or another spelling. -/
def fileAt (path : String) : Option Inode := s.files (s.entry path)

/-- A listener is live on the socket: one of this library, or one of somebody else. -/
def Live (i : Inode) : Prop := s.foreign i ∨ ∃ n, s.sockets n = some i

/-- Neither a file nor an open socket has the identity: an inode is not reused while anything refers
to it. -/
def Fresh (identity : Identity) : Prop :=
  (∀ e i, s.files e = some i → i.file.identity ≠ identity) ∧
    ∀ n i, s.sockets n = some i → i.file.identity ≠ identity

/-- The path is unlinked: the entry is empty, and the socket that stood there stays open if it
was. -/
def unlink (path : String) : State :=
  { s with files := Function.update s.files (s.entry path) none }

/-- The call `n` binds a new socket to the path, which is a file that was not there before. -/
def bound (n : ℕ) (path : String) (identity : Identity) : State :=
  { s with
    files := Function.update s.files (s.entry path) (some ⟨s.born, .socket identity⟩)
    sockets := Function.update s.sockets n (some ⟨s.born, .socket identity⟩)
    born := s.born + 1 }

/-- The call `n` returns, with a listener that is then held, or with an error. -/
def returned (n : ℕ) : Except BindReport UdsListener → State
  | .ok l => { s with listeners := Function.update s.listeners n (some l) }
  | .error _ => s

/-- The listener `n` is closed, and its socket with it. -/
def close (n : ℕ) : State :=
  { s with
    sockets := Function.update s.sockets n none
    listeners := Function.update s.listeners n none }

end State

/-- What an operation on a path answers the call `n`, and what it leaves. `symlink_metadata` may
fail on any path, but says `NotFound` only of a free one. `file_identity` finds a file that is
there. A connection is refused only if nobody is live on the socket. An unlink may fail, but not of
a socket that one of the listeners could bind there. -/
inductive Answers (n : ℕ) (path : String) : State → (op : FsOp) → op.Ans → State → Prop
  | metadata {s : State} {i : Inode} : s.fileAt path = some i →
      Answers n path s .symlinkMetadata (.ok i.file) s
  | noMetadata {s : State} {e : IoFailure} : s.fileAt path = none → e.kind = .notFound →
      Answers n path s .symlinkMetadata (.error e) s
  | metadataFails {s : State} {e : IoFailure} : e.kind ≠ .notFound →
      Answers n path s .symlinkMetadata (.error e) s
  | connected {s : State} {i : Inode} : s.fileAt path = some i → s.Live i →
      Answers n path s .connect (.ok ()) s
  | refused {s : State} {i : Inode} {e : IoFailure} : s.fileAt path = some i → ¬s.Live i →
      e.kind = .connectionRefused → Answers n path s .connect (.error e) s
  | connectFails {s : State} {e : IoFailure} : e.kind ≠ .connectionRefused →
      Answers n path s .connect (.error e) s
  | removed {s : State} : s.fileAt path ≠ none →
      Answers n path s .removeFile (.ok ()) (s.unlink path)
  | removeFails {s : State} (e : IoFailure) :
      (∀ m i, s.sockets m = some i → s.fileAt path ≠ some i) →
      Answers n path s .removeFile (.error e) s
  | bound {s : State} {identity : Identity} : s.fileAt path = none → s.Fresh identity →
      Answers n path s .bind (.ok identity) (s.bound n path identity)
  | bindFails {s : State} (e : IoFailure) : Answers n path s .bind (.error e) s
  | identified {s : State} :
      Answers n path s .fileIdentity ((s.fileAt path).map (·.file.identity)) s

/-- A program is carried out to its end without interruption: calls that overlap are the subject of
`BindUds`. -/
inductive Runs (n : ℕ) (path : String) {α : Type} : FsProg α → State → State → α → Prop
  | done {s : State} (a : α) : Runs n path (.done a) s s a
  | await {op : FsOp} {k : op.Ans → FsProg α} {ans : op.Ans} {s s' t : State} {a : α} :
      Answers n path s op ans s' → Runs n path (k ans) s' t a → Runs n path (.await op k) s t a

/-- Outsiders change the paths, the files and what they listen on. A file with the identity of
an open listener's socket is that socket. -/
structure Outside (s t : State) : Prop where
  sockets : t.sockets = s.sockets
  listeners : t.listeners = s.listeners
  born : s.born ≤ t.born
  births : ∀ e i, t.files e = some i → i.birth < t.born
  kept : ∀ e i n j, t.files e = some i → t.sockets n = some j →
    i.file.identity = j.file.identity → i = j

/-- Who acts: a call of `bind_uds`, a drop of a listener, or somebody outside. -/
inductive Act
  | bind (n : ℕ) (path : String) (result : Except BindReport UdsListener)
  | drop (n : ℕ)
  | outside

/-- One complete call, one drop, or some acts of outsiders, which may replace files but not forge
identities that are in use. -/
inductive Step : State → Act → State → Prop
  | bind {s t : State} {n : ℕ} {path : String} {r : Except BindReport UdsListener} :
      s.listeners n = none → Runs n path (bindUds path) s t r →
      Step s (.bind n path r) (t.returned n r)
  | drop {s t : State} {n : ℕ} {l : UdsListener} : s.listeners n = some l →
      Runs n l.path (dropUds l) s t () → Step s (.drop n) (t.close n)
  | outside {s t : State} : Outside s t → Step s .outside t

/-- Nobody listens yet, and the files that are there were born before. -/
structure Init (s : State) : Prop where
  sockets : ∀ n, s.sockets n = none
  listeners : ∀ n, s.listeners n = none
  births : ∀ e i, s.files e = some i → i.birth < s.born

/-- States that some sequence of steps reaches, from one in which nobody listens. -/
def Reachable (s : State) : Prop :=
  ∃ s₀, Init s₀ ∧ Relation.ReflTransGen (fun s t => ∃ a, Step s a t) s₀ s

/-! ### What a call can do -/

section Runs

variable {n : ℕ} {path : String} {s t : State} {α β : Type}

/-- Code that has returned changes nothing more. -/
theorem Runs.done_inv {a b : α} (h : Runs n path (.done a) s t b) : t = s ∧ b = a := by
  cases h with
  | done => exact ⟨rfl, rfl⟩

/-- Code that asks is answered once, and goes on with the answer. -/
theorem Runs.await_inv {op : FsOp} {k : op.Ans → FsProg α} {a : α}
    (h : Runs n path (.await op k) s t a) :
    ∃ ans s', Answers n path s op ans s' ∧ Runs n path (k ans) s' t a := by
  cases h with
  | await hans hrun => exact ⟨_, _, hans, hrun⟩

/-- A sequence is carried out part by part: there is a state between the two. -/
theorem Runs.bind_inv {p : FsProg α} {f : α → FsProg β} {b : β}
    (h : Runs n path (p.bind f) s t b) :
    ∃ s' a, Runs n path p s s' a ∧ Runs n path (f a) s' t b := by
  induction p generalizing s with
  | done a => exact ⟨s, a, .done a, h⟩
  | await op k ih =>
    obtain ⟨ans, s₁, hans, hrun⟩ := h.await_inv
    obtain ⟨s', a, hp, hf⟩ := ih ans hrun
    exact ⟨s', a, .await hans hp, hf⟩

/-- The path is free, or it was freed of a socket that nobody listens on: the two ways past
`clear_stale_socket`. -/
inductive Clears (path : String) (s : State) : State → Prop
  | free : s.fileAt path = none → Clears path s s
  | stale {i : Inode} : s.fileAt path = some i → i.file.isSocketFile → ¬s.Live i →
      Clears path s (s.unlink path)

/-- `clear_stale_socket` leaves everything as it is and fails, or clears the path. -/
theorem runs_clearStaleSocket {r : Except IoFailure Unit}
    (h : Runs n path clearStaleSocket s t r) :
    (∃ e, r = .error e ∧ t = s) ∨ r = .ok () ∧ Clears path s t := by
  obtain ⟨ans, s₁, hans, h⟩ := h.await_inv
  cases hans with
  | noMetadata hnone he =>
    simp only [he, if_true] at h
    obtain ⟨rfl, rfl⟩ := h.done_inv
    exact .inr ⟨rfl, .free hnone⟩
  | metadataFails he =>
    simp only [he, if_false] at h
    obtain ⟨rfl, rfl⟩ := h.done_inv
    exact .inl ⟨_, rfl, rfl⟩
  | @metadata i hfile =>
    dsimp only at h
    split_ifs at h with hsocket
    · obtain ⟨ans, s₂, hans, h⟩ := h.await_inv
      cases hans with
      | connected =>
        obtain ⟨rfl, rfl⟩ := h.done_inv
        exact .inl ⟨_, rfl, rfl⟩
      | connectFails he =>
        simp only [he, if_false] at h
        obtain ⟨rfl, rfl⟩ := h.done_inv
        exact .inl ⟨_, rfl, rfl⟩
      | @refused j e hfile' hlive he =>
        simp only [he, if_true] at h
        obtain rfl : i = j := Option.some.inj (hfile.symm.trans hfile')
        obtain ⟨ans, s₃, hans, h⟩ := h.await_inv
        obtain ⟨rfl, rfl⟩ := h.done_inv
        cases hans with
        | removed => exact .inr ⟨rfl, .stale hfile hsocket hlive⟩
        | removeFails e => exact .inl ⟨e, rfl, rfl⟩
    · obtain ⟨rfl, rfl⟩ := h.done_inv
      exact .inl ⟨_, rfl, rfl⟩

/-- The bind itself fails, or makes a new socket and finds it on the path. -/
theorem runs_bindClear {r : Except BindReport UdsListener}
    (h : Runs n path (bindClear path) s t r) :
    (∃ e, r = .error e ∧ t = s) ∨ ∃ identity, s.Fresh identity ∧
      r = .ok ⟨identity, path, some identity⟩ ∧ t = s.bound n path identity := by
  obtain ⟨ans, s₁, hans, h⟩ := h.await_inv
  cases hans with
  | bindFails e =>
    obtain ⟨rfl, rfl⟩ := h.done_inv
    exact .inl ⟨_, rfl, rfl⟩
  | @bound identity hfree hfresh =>
    obtain ⟨ans, s₂, hans, h⟩ := h.await_inv
    obtain ⟨rfl, rfl⟩ := h.done_inv
    cases hans with
    | identified =>
      -- what is on the path is what was just bound
      have hfile : (s.bound n path identity).fileAt path = some ⟨s.born, .socket identity⟩ :=
        Function.update_self ..
      rw [hfile]
      exact .inr ⟨identity, hfresh, rfl, rfl⟩

/-- What a call can do: fail and leave everything as it is, clear the path and fail to bind it, or
clear and bind it. -/
inductive BindOutcome (n : ℕ) (path : String) (s : State) :
    State → Except BindReport UdsListener → Prop
  | refused (e : BindReport) : BindOutcome n path s s (.error e)
  | cleared {s' : State} (e : BindReport) : Clears path s s' → BindOutcome n path s s' (.error e)
  | bound {s' : State} {identity : Identity} : Clears path s s' → s'.Fresh identity →
      BindOutcome n path s (s'.bound n path identity) (.ok ⟨identity, path, some identity⟩)

/-- **A complete call.** It clears the path or fails; and if it binds, then a socket of a fresh
identity is on the path. -/
theorem runs_bindUds {r : Except BindReport UdsListener} (h : Runs n path (bindUds path) s t r) :
    BindOutcome n path s t r := by
  obtain ⟨s', result, hclear, hrest⟩ := Runs.bind_inv h
  rcases runs_clearStaleSocket hclear with ⟨e, rfl, rfl⟩ | ⟨rfl, hclears⟩
  · obtain ⟨rfl, rfl⟩ := hrest.done_inv
    exact .refused _
  · rcases runs_bindClear hrest with ⟨e, rfl, rfl⟩ | ⟨identity, hfresh, rfl, rfl⟩
    · exact .cleared e hclears
    · exact .bound hclears hfresh

end Runs

/-- An unlinked path holds nothing. -/
theorem files_unlink_self {s : State} {path : String} :
    (s.unlink path).files (s.entry path) = none :=
  Function.update_self ..

/-- Other entries are left alone. -/
theorem files_unlink_of_ne {s : State} {path : String} {e : ℕ} (h : e ≠ s.entry path) :
    (s.unlink path).files e = s.files e :=
  Function.update_of_ne h _ _

/-- Files that are left were there before. -/
theorem files_of_unlink {s : State} {path : String} {e : ℕ} {i : Inode}
    (h : (s.unlink path).files e = some i) : s.files e = some i := by
  have hne : e ≠ s.entry path := by
    rintro rfl
    rw [files_unlink_self] at h
    cases h
  rwa [files_unlink_of_ne hne] at h

/-- A bind does not change other entries either. -/
theorem files_bound_of_ne {s : State} {n : ℕ} {path : String} {identity : Identity} {e : ℕ}
    (h : e ≠ s.entry path) : (s.bound n path identity).files e = s.files e :=
  Function.update_of_ne h _ _

namespace Clears

variable {path : String} {s s' : State}

/-- Clearing a path changes neither paths nor sockets nor listeners, and leaves the path free. -/
theorem frame (h : Clears path s s') :
    s'.entry = s.entry ∧ s'.sockets = s.sockets ∧ s'.listeners = s.listeners ∧
      s'.fileAt path = none := by
  cases h with
  | free hnone => exact ⟨rfl, rfl, rfl, hnone⟩
  | stale => exact ⟨rfl, rfl, rfl, Function.update_self ..⟩

/-- Nothing goes but a socket on the path that nobody listens on: everything else is as it was. -/
theorem lost (h : Clears path s s') {e : ℕ} {i : Inode} (he : s.files e = some i)
    (he' : s'.files e ≠ some i) :
    e = s.entry path ∧ i.file.isSocketFile ∧ ¬s.Live i := by
  cases h with
  | free => exact absurd he he'
  | @stale j hfile hsocket hlive =>
    have heq : e = s.entry path := by
      by_contra hne
      rw [files_unlink_of_ne hne] at he'
      exact he' he
    subst heq
    obtain rfl : i = j := Option.some.inj (he.symm.trans hfile)
    exact ⟨rfl, hsocket, hlive⟩

end Clears

/-- A call never removes anything but a socket on its path that nobody listens on. -/
theorem BindOutcome.lost {n : ℕ} {path : String} {s t : State}
    {r : Except BindReport UdsListener} (h : BindOutcome n path s t r) {e : ℕ} {i : Inode}
    (he : s.files e = some i) (he' : t.files e ≠ some i) :
    e = s.entry path ∧ i.file.isSocketFile ∧ ¬s.Live i := by
  cases h with
  | refused => exact absurd he he'
  | cleared _ hclears => exact hclears.lost he he'
  | @bound s' identity hclears _ =>
    refine hclears.lost he fun hs' => he' ?_
    obtain ⟨hentry, -, -, hfree⟩ := hclears.frame
    have hne : e ≠ s'.entry path := by
      rintro rfl
      rw [State.fileAt, hs'] at hfree
      cases hfree
    rw [files_bound_of_ne hne, hs']

/-- A call on a path with a file that is no socket or that somebody listens on is refused, and
leaves everything as it is. -/
theorem BindOutcome.refused_of {n : ℕ} {path : String} {s t : State}
    {r : Except BindReport UdsListener} (h : BindOutcome n path s t r) {i : Inode}
    (hfile : s.fileAt path = some i) (hkeep : ¬i.file.isSocketFile ∨ s.Live i) :
    (∃ e, r = .error e) ∧ t = s := by
  have hno : ∀ s', ¬Clears path s s' := by
    intro s' hclears
    cases hclears with
    | free hnone =>
      rw [hfile] at hnone
      cases hnone
    | @stale j hfile' hsocket hlive =>
      obtain rfl : i = j := Option.some.inj (hfile.symm.trans hfile')
      exact hkeep.elim (fun h => h hsocket) hlive
  cases h with
  | refused e => exact ⟨⟨e, rfl⟩, rfl⟩
  | cleared _ hclears => exact absurd hclears (hno _)
  | bound hclears => exact absurd hclears (hno _)

/-! ### The invariant -/

/-- Every listener has its socket and has recorded its identity, and the identity of an open socket
is that of no other socket and no other file. -/
structure Inv (s : State) : Prop where
  closed : ∀ n, s.listeners n = none → s.sockets n = none
  recorded : ∀ n l, s.listeners n = some l →
    ∃ i, s.sockets n = some i ∧ l.identity = some i.file.identity
  distinct : ∀ n m i j, s.sockets n = some i → s.sockets m = some j →
    i.file.identity = j.file.identity → n = m
  kept : ∀ e i n j, s.files e = some i → s.sockets n = some j →
    i.file.identity = j.file.identity → i = j

/-- **A drop** unlinks the path when it holds the listener's own socket, and does nothing else. -/
theorem runs_dropUds {s t : State} {n : ℕ} {l : UdsListener} {i : Inode} (h : Inv s)
    (hsocket : s.sockets n = some i) (hidentity : l.identity = some i.file.identity)
    (hrun : Runs n l.path (dropUds l) s t ()) :
    (s.fileAt l.path = some i ∧ t = s.unlink l.path) ∨ (s.fileAt l.path ≠ some i ∧ t = s) := by
  rw [dropUds, hidentity, Option.isSome_some, if_pos rfl] at hrun
  obtain ⟨found, s₁, hans, hrest⟩ := hrun.await_inv
  cases hans with
  | identified =>
    by_cases hfound : (s.fileAt l.path).map (·.file.identity) = some i.file.identity
    · -- the identities agree, so it is the listener's own file
      rw [if_pos hfound] at hrest
      obtain ⟨j, hfile, hj⟩ := Option.map_eq_some_iff.mp hfound
      obtain rfl : j = i := h.kept _ j n i hfile hsocket hj
      obtain ⟨ans, s₂, hans, hdone⟩ := hrest.await_inv
      obtain ⟨rfl, -⟩ := hdone.done_inv
      cases hans with
      | removed => exact .inl ⟨hfile, rfl⟩
      | removeFails e hnot => exact absurd hfile (hnot n j hsocket)
    · rw [if_neg hfound] at hrest
      obtain ⟨rfl, -⟩ := hrest.done_inv
      refine .inr ⟨fun hfile => hfound ?_, rfl⟩
      rw [hfile, Option.map_some]

namespace Inv

variable {s t : State} {n : ℕ} {path : String}

/-- Before the first call there are no listeners to account for. -/
theorem of_init (h : Init s) : Inv s := by
  refine ⟨fun n _ => h.sockets n, ?_, ?_, ?_⟩
  · intro n l hl
    rw [h.listeners] at hl
    cases hl
  · intro n m i j hi
    rw [h.sockets] at hi
    cases hi
  · intro e i n j _ hj
    rw [h.sockets] at hj
    cases hj

/-- Files may go. The invariant is about those that are there, and listeners do not depend on
theirs. -/
theorem mono (h : Inv s) (hsockets : t.sockets = s.sockets) (hlisteners : t.listeners = s.listeners)
    (hfiles : ∀ e i, t.files e = some i → s.files e = some i) : Inv t := by
  refine ⟨?_, ?_, ?_, ?_⟩
  · rw [hsockets, hlisteners]
    exact h.closed
  · rw [hsockets, hlisteners]
    exact h.recorded
  · rw [hsockets]
    exact h.distinct
  · intro e i m j he hj hij
    rw [hsockets] at hj
    exact h.kept e i m j (hfiles e i he) hj hij

/-- A file may go: the invariant is about which file a listener owns, not about its being there. -/
theorem unlink (h : Inv s) : Inv (s.unlink path) :=
  h.mono rfl rfl fun _ _ => files_of_unlink

/-- Clearing a path keeps the invariant. -/
protected theorem clears (h : Inv s) (hclears : Clears path s t) : Inv t := by
  cases hclears with
  | free => exact h
  | stale => exact h.unlink

/-- A new listener: its identity is fresh, so it is confused with no other file. -/
theorem bound (h : Inv s) (hn : s.listeners n = none) {identity : Identity}
    (hfresh : s.Fresh identity) :
    Inv ((s.bound n path identity).returned n (.ok ⟨identity, path, some identity⟩)) where
  closed m hm := by
    have hne : m ≠ n := by
      rintro rfl
      cases (Function.update_self ..).symm.trans hm
    refine (Function.update_of_ne hne _ _).trans (h.closed m ?_)
    exact (Function.update_of_ne hne _ _).symm.trans hm
  recorded m l hm := by
    rcases update_eq_some hm with ⟨rfl, rfl⟩ | ⟨hne, hm⟩
    · exact ⟨⟨s.born, .socket identity⟩, Function.update_self .., rfl⟩
    · obtain ⟨i, hi, hl⟩ := h.recorded m l hm
      exact ⟨i, (Function.update_of_ne hne _ _).trans hi, hl⟩
  distinct m m' i j hi hj hij := by
    rcases update_eq_some hi with ⟨rfl, rfl⟩ | ⟨-, hi'⟩
    · rcases update_eq_some hj with ⟨rfl, -⟩ | ⟨-, hj'⟩
      · rfl
      · exact absurd hij.symm (hfresh.2 m' j hj')
    · rcases update_eq_some hj with ⟨-, rfl⟩ | ⟨-, hj'⟩
      · exact absurd hij (hfresh.2 m i hi')
      · exact h.distinct m m' i j hi' hj' hij
  kept e i m j he hj hij := by
    rcases update_eq_some he with ⟨-, rfl⟩ | ⟨-, he⟩
    · rcases update_eq_some hj with ⟨-, rfl⟩ | ⟨-, hj⟩
      · rfl
      · exact absurd hij.symm (hfresh.2 m j hj)
    · rcases update_eq_some hj with ⟨-, rfl⟩ | ⟨-, hj⟩
      · exact absurd hij (hfresh.1 e i he)
      · exact h.kept e i m j he hj hij

/-- A listener that is closed leaves the others as they are, with their sockets and their files. -/
theorem close (h : Inv s) (n : ℕ) : Inv (s.close n) := by
  -- an entry that is still there is that of another listener
  have hother {α : Type} {table : ℕ → Option α} {m : ℕ} {a : α}
      (hm : Function.update table n none m = some a) : m ≠ n ∧ table m = some a := by
    have hne : m ≠ n := by
      rintro rfl
      cases (Function.update_self ..).symm.trans hm
    exact ⟨hne, (Function.update_of_ne hne _ _).symm.trans hm⟩
  refine ⟨?_, ?_, ?_, ?_⟩
  · intro m hm
    by_cases hne : m = n
    · subst hne
      exact Function.update_self ..
    · exact (Function.update_of_ne hne _ _).trans
        (h.closed m ((Function.update_of_ne hne _ _).symm.trans hm))
  · intro m l hm
    obtain ⟨hne, hm⟩ := hother hm
    obtain ⟨i, hi, hl⟩ := h.recorded m l hm
    exact ⟨i, (Function.update_of_ne hne _ _).trans hi, hl⟩
  · intro m m' i j hi hj hij
    exact h.distinct m m' i j (hother hi).2 (hother hj).2 hij
  · intro e i m j he hj hij
    exact h.kept e i m j he (hother hj).2 hij

/-- Every step keeps the invariant: calls, drops, and whatever outsiders do in between. -/
theorem step (h : Inv s) {a : Act} (hs : Step s a t) : Inv t := by
  cases hs with
  | @bind u n path r hn hrun =>
    have houtcome := runs_bindUds hrun
    cases houtcome with
    | refused => exact h
    | cleared _ hclears => exact h.clears hclears
    | bound hclears hfresh =>
      refine (h.clears hclears).bound ?_ hfresh
      rw [hclears.frame.2.2.1]
      exact hn
  | @drop u n l hl hrun =>
    obtain ⟨i, hi, hidentity⟩ := h.recorded n l hl
    rcases runs_dropUds h hi hidentity hrun with ⟨hfile, rfl⟩ | ⟨-, rfl⟩
    · exact h.unlink.close n
    · exact h.close n
  | outside ho =>
    refine ⟨?_, ?_, ?_, ho.kept⟩
    · rw [ho.sockets, ho.listeners]
      exact h.closed
    · rw [ho.sockets, ho.listeners]
      exact h.recorded
    · rw [ho.sockets]
      exact h.distinct

end Inv

/-- The invariant holds in every reachable state. -/
theorem Reachable.inv {s : State} (h : Reachable s) : Inv s := by
  obtain ⟨s₀, hinit, hsteps⟩ := h
  induction hsteps with
  | refl => exact .of_init hinit
  | tail _ hs ih =>
    obtain ⟨a, hs⟩ := hs
    exact ih.step hs

/-! ### Ownership -/

/-- The file on an entry is deleted in this step, by whatever path it was reached. -/
def Deletes (s t : State) (e : ℕ) : Prop := s.files e ≠ none ∧ t.files e = none

/-- The listener `n` owns an entry: its path leads there, and the file there is its socket. -/
def State.Owns (s : State) (n e : ℕ) : Prop :=
  ∃ l i, s.listeners n = some l ∧ s.sockets n = some i ∧ s.entry l.path = e ∧ s.files e = some i

section Results

variable {s t : State} {n : ℕ}

/-- A drop deletes the file on its path exactly when it is the listener's own. -/
theorem Inv.drop_deletes_iff (h : Inv s) {l : UdsListener} (hl : s.listeners n = some l)
    (hs : Step s (.drop n) t) :
    ∃ i, s.sockets n = some i ∧ (Deletes s t (s.entry l.path) ↔ s.fileAt l.path = some i) ∧
      (s.fileAt l.path ≠ some i → t.files = s.files) ∧
      ∀ e, e ≠ s.entry l.path → t.files e = s.files e := by
  cases hs with
  | @drop u _ l' hl' hrun =>
    obtain rfl : l = l' := Option.some.inj (hl.symm.trans hl')
    obtain ⟨i, hi, hidentity⟩ := h.recorded n l hl
    rcases runs_dropUds h hi hidentity hrun with ⟨hfile, rfl⟩ | ⟨hfile, rfl⟩
    · refine ⟨i, hi, ⟨fun _ => hfile, fun _ => ⟨?_, files_unlink_self⟩⟩, fun hne => ?_, ?_⟩
      · change s.fileAt l.path ≠ none
        rw [hfile]
        exact Option.some_ne_none i
      · exact absurd hfile hne
      · intro e hne
        exact files_unlink_of_ne hne
    · refine ⟨i, hi, ⟨fun hdeletes => ?_, fun hown => absurd hown hfile⟩, fun _ => rfl,
        fun _ _ => rfl⟩
      exact absurd hdeletes.2 hdeletes.1

/-- A call that returns a listener has made it the owner of its path. -/
theorem BindOutcome.owns {path : String} {l : UdsListener} (h : BindOutcome n path s t (.ok l)) :
    (t.returned n (.ok l)).Owns n (s.entry path) := by
  cases h with
  | @bound s' identity hclears _ =>
    rw [← hclears.frame.1]
    exact ⟨_, _, Function.update_self .., Function.update_self .., rfl, Function.update_self ..⟩

/-- Two owners of one entry have the same socket. -/
theorem Inv.owner_unique (h : Inv s) {m e : ℕ} (hn : s.Owns n e) (hm : s.Owns m e) : n = m := by
  obtain ⟨l, i, -, hi, -, hfile⟩ := hn
  obtain ⟨l', j, -, hj, -, hfile'⟩ := hm
  obtain rfl : i = j := Option.some.inj (hfile.symm.trans hfile')
  exact h.distinct n m i i hi hj rfl

/-- The socket file of an open listener goes only by its own drop or by an outsider. -/
theorem Inv.removed_by (h : Inv s) {a : Act} (hs : Step s a t) {i : Inode} {e : ℕ}
    (hi : s.sockets n = some i) (he : s.files e = some i) (he' : t.files e ≠ some i) :
    a = .drop n ∨ a = .outside := by
  cases hs with
  | @bind u m path r hm hrun =>
    have hfiles : (u.returned m r).files = u.files := by cases r <;> rfl
    rw [hfiles] at he'
    obtain ⟨-, -, hlive⟩ := (runs_bindUds hrun).lost he he'
    exact absurd (.inr ⟨n, hi⟩) hlive
  | @drop u m l hl hrun =>
    obtain ⟨j, hj, hidentity⟩ := h.recorded m l hl
    rcases runs_dropUds h hj hidentity hrun with ⟨hfile, rfl⟩ | ⟨-, rfl⟩
    · have heq : e = s.entry l.path := by
        by_contra hne
        exact he' ((files_unlink_of_ne hne).trans he)
      subst heq
      -- what was unlinked is the socket of the dropped listener
      obtain rfl : i = j := Option.some.inj (he.symm.trans hfile)
      rw [h.distinct n m i i hi hj rfl]
      exact .inl rfl
    · exact absurd he he'
  | outside => exact .inr rfl

end Results

/-- **A listener removes only its own socket.** After any sequence of complete calls of `bind_uds`,
drops and acts of outsiders, on any paths: a drop deletes the file on its path exactly when it is
the socket its own call bound, and touches no other entry. A call deletes nothing but a socket on
its path that no listener is live on; a call on anything else that exists is refused and leaves
everything as it is, and one that returns a listener makes it the owner of its path. No two
listeners own one entry, and the socket file of an open listener goes only by its own drop or by an
outsider. -/
theorem listener_removes_only_own {s t : State} {a : Act} (h : Reachable s) (hs : Step s a t) :
    (∀ n l, a = .drop n → s.listeners n = some l → ∃ i, s.sockets n = some i ∧
      (Deletes s t (s.entry l.path) ↔ s.fileAt l.path = some i) ∧
      (s.fileAt l.path ≠ some i → t.files = s.files) ∧
      ∀ e, e ≠ s.entry l.path → t.files e = s.files e) ∧
    (∀ n path r, a = .bind n path r →
      (∀ e i, s.files e = some i → t.files e ≠ some i →
        e = s.entry path ∧ i.file.isSocketFile ∧ ¬s.Live i) ∧
      (∀ i, s.fileAt path = some i → ¬i.file.isSocketFile ∨ s.Live i →
        (∃ e, r = .error e) ∧ t = s) ∧
      ∀ l, r = .ok l → t.Owns n (s.entry path)) ∧
    (∀ n m e, t.Owns n e → t.Owns m e → n = m) ∧
    ∀ n i e, s.sockets n = some i → s.files e = some i → t.files e ≠ some i →
      a = .drop n ∨ a = .outside := by
  have hinv := h.inv
  refine ⟨?_, ?_, ?_, ?_⟩
  · rintro n l rfl hl
    exact hinv.drop_deletes_iff hl hs
  · rintro n path r rfl
    cases hs with
    | @bind u _ _ _ hn hrun =>
      have houtcome := runs_bindUds hrun
      have hfiles : (u.returned n r).files = u.files := by cases r <;> rfl
      refine ⟨?_, ?_, ?_⟩
      · intro e i he he'
        rw [hfiles] at he'
        exact houtcome.lost he he'
      · intro i hfile hkeep
        obtain ⟨⟨e, rfl⟩, rfl⟩ := houtcome.refused_of hfile hkeep
        exact ⟨⟨e, rfl⟩, rfl⟩
      · rintro l rfl
        exact houtcome.owns
  · intro n m e hn hm
    exact (hinv.step hs).owner_unique hn hm
  · intro n i e hi he he'
    exact hinv.removed_by hs hi he he'

/-- An empty file system, in which all paths are one entry. -/
def emptyState : State :=
  ⟨fun _ => 0, fun _ => none, fun _ => False, fun _ => none, fun _ => none, 0⟩

/-- A path is bound and dropped again, and the drop deletes the socket it had bound. -/
theorem listener_removes_own_socket :
    ∃ s t l, Reachable s ∧ Step s (.drop 0) t ∧ s.listeners 0 = some l ∧
      Deletes s t (s.entry l.path) := by
  let l : UdsListener := ⟨(1, 8), "agent.sock", some (1, 8)⟩
  let u := emptyState.bound 0 "agent.sock" (1, 8)
  let s := u.returned 0 (.ok l)
  have hfresh : emptyState.Fresh (1, 8) := by
    refine ⟨?_, ?_⟩
    · intro e i he
      cases he
    · intro n i hi
      cases hi
  have hbind : Runs 0 "agent.sock" (bindUds "agent.sock") emptyState u (.ok l) :=
    .await (.noMetadata (e := ⟨.notFound, ""⟩) rfl rfl) (.await (.bound rfl hfresh)
      (.await .identified (.done _)))
  have hreach : Reachable s := by
    refine ⟨emptyState, ⟨fun _ => rfl, fun _ => rfl, fun e i he => by cases he⟩, ?_⟩
    exact .tail .refl ⟨_, .bind rfl hbind⟩
  have hdrop : Runs 0 l.path (dropUds l) s (s.unlink l.path) () :=
    .await .identified (.await (.removed (Option.some_ne_none _)) (.done ()))
  have hstep : Step s (.drop 0) ((s.unlink l.path).close 0) := .drop rfl hdrop
  obtain ⟨i, hi, hdeletes, -⟩ := (listener_removes_only_own hreach hstep).1 0 l rfl rfl
  cases hi
  exact ⟨s, _, l, hreach, hstep, rfl, hdeletes.mpr rfl⟩

end Ownership

end Ogurpchik
