import Ogurpchik.Inbound
import Ogurpchik.Transition

/-!
# Receiving

All `Connection` handles of a network share one slot that holds the connection and its decoder.
`receive_incoming_message` takes them out of the slot before it returns its promise, and the
promise puts them back behind a message or the end of the stream. A promise that fails or is
dropped never puts them back, so a decoder that may stand inside a message is never used again.

This module models the slot and the promises as a transition system. Calls on any handle, the
reads of the promise in progress, I/O errors and dropped promises interleave in every order. A
read that fails or is dropped in flight may have taken any number of bytes off the stream.

## Main definitions

* `receiveIncomingMessage`: a call.
* `Step`, `Reachable`: all interleavings of calls, reads, errors and drops.
* `Quiet`: the steps that leave the handles alone.

## Main results

* `Inbound.next_failsFast`: `next` gives up at the first I/O error.
* `Reachable.inv`: while the slot is full, or its holder has seen no error, the decoder stands
  behind the messages received.
* `exists_received`: the message that stands next in the stream can be received.
* `receive_in_sync`: **no receive resumes out of sync.**
-/

namespace Ogurpchik

open Async

/-! ### I/O errors -/

/-- Reading code that fails at its first I/O error, without another read. So a promise that met an
error is about to fail. -/
def FailsFast {α : Type} (x : ReadM α) : Prop :=
  Prog.StopsAfter (fun _ ans => ∃ e, ans = .error e) (fun r => ∃ fault, r = .error fault) x.run

section FailsFast

variable {α β : Type}

/-- Returning a value meets no I/O error. -/
theorem failsFast_pure (a : α) : FailsFast (pure a) := trivial

/-- Code that has failed reads nothing more. -/
theorem failsFast_throw (fault : Fault) : FailsFast (throw fault : ReadM α) := trivial

/-- The rule of sequence: an error in the first part ends the whole, and otherwise the second part
is the one to fail. -/
theorem FailsFast.bind {x : ReadM α} {f : α → ReadM β} (hx : FailsFast x)
    (hf : ∀ a, FailsFast (f a)) : FailsFast (x >>= f) := by
  rw [FailsFast, ExceptT.run_bind]
  refine Prog.StopsAfter.bind hx (fun r => ?_) ?_
  · cases r with
    | ok a => exact hf a
    | error fault => exact failsFast_throw fault
  · rintro r ⟨fault, rfl⟩
    exact ⟨.error fault, ⟨fault, rfl⟩, rfl⟩

/-- Computing an index meets no I/O error. -/
theorem failsFast_usize (n : ℕ) : FailsFast (usize n) := by
  rw [usize]
  split_ifs
  · exact failsFast_pure _
  · exact failsFast_throw _

/-- Neither does a slice. -/
theorem failsFast_slice (bytes : List UInt8) (lo hi : ℕ) : FailsFast (slice bytes lo hi) := by
  rw [slice]
  split_ifs
  · exact failsFast_pure _
  · exact failsFast_throw _

/-- An appending read fails with the error it meets. -/
theorem failsFast_appendTo (buf : Vec) : FailsFast (appendTo buf) := by
  intro ans
  cases ans with
  | ok bs =>
    refine ⟨?_, trivial⟩
    rintro ⟨e, he⟩
    cases he
  | error e => exact ⟨fun _ => ⟨_, ⟨_, rfl⟩, rfl⟩, trivial⟩

/-- The loop of `read_exact` ends with the first error, by induction on what is still missing. -/
theorem stopsAfter_readExactFrom (n : ℕ) (got : List UInt8) :
    (readExactFrom n got).StopsAfter (fun _ ans => ∃ e, ans = .error e)
      (fun r => ∃ e, r = .error e) := by
  induction hm : n - got.length using Nat.strong_induction_on generalizing got with
  | _ m ih =>
      rw [readExactFrom]
      split_ifs with hlt
      · intro ans
        cases ans with
        | error e => exact ⟨fun _ => ⟨_, ⟨e, rfl⟩, rfl⟩, trivial⟩
        | ok bs =>
            constructor
            · rintro ⟨e, he⟩
              cases he
            · dsimp only
              split_ifs with hnil
              · trivial
              · have hpos := List.length_pos_iff.mpr hnil
                exact ih _ (by rw [List.length_append]; omega) (got ++ bs.val) rfl
      · trivial

/-- So the direct read of a body fails with the error it meets. -/
theorem failsFast_readExactly (n : ℕ) : FailsFast (readExactly n) := by
  refine (stopsAfter_readExactFrom n []).bind (fun r => ?_) ?_
  · cases r <;> trivial
  · rintro r ⟨e, rfl⟩
    exact ⟨_, ⟨_, rfl⟩, rfl⟩

namespace Inbound

/-- So does `fill`, by induction along its loop: each round is one read. -/
theorem fill_failsFast (al : Alloc) (inb : Inbound) (needed : ℕ) (eofOk : Bool) :
    FailsFast (inb.fill al needed eofOk) := by
  fun_induction fill al inb needed eofOk with
  | case1 => exact failsFast_throw _
  | case2 inb hv hlt ih =>
      refine (failsFast_appendTo _).bind fun bytes => ?_
      split_ifs with hnil heof
      · exact failsFast_pure _
      · exact failsFast_throw _
      · exact ih bytes hnil
  | case3 => exact failsFast_pure _

/-- A word of the table is taken from the buffer. -/
theorem wordAt_failsFast (inb : Inbound) (index : ℕ) : FailsFast (inb.wordAt index) :=
  (failsFast_slice _ _ _).bind fun _ => failsFast_pure _

/-- So are the sizes of all segments, which are read off the buffer. -/
theorem pushLengths_failsFast (inb : Inbound) (remaining index : ℕ) (b : SegmentLengths) :
    FailsFast (inb.pushLengths remaining index b) := by
  induction remaining generalizing index b with
  | zero => exact failsFast_pure _
  | succ remaining ih =>
      refine (inb.wordAt_failsFast _).bind fun word => ?_
      refine FailsFast.bind ?_ fun b => ih _ b
      rw [SegmentLengths.tryPushSegment]
      split_ifs
      · exact failsFast_pure _
      · exact failsFast_throw _

/-- A body fails with the error it meets, whether it is staged or read directly. -/
theorem body_failsFast (al : Alloc) (inb : Inbound) (bodyLen : ℕ) :
    FailsFast (inb.body al bodyLen) := by
  rw [body, stagedBody, directBody]
  split_ifs
  · exact (inb.fill_failsFast al _ _).bind fun _ =>
      (failsFast_slice _ _ _).bind fun _ => failsFast_pure _
  · exact failsFast_throw _
  · exact (failsFast_slice _ _ _).bind fun _ =>
      (failsFast_readExactly _).bind fun _ => failsFast_pure _

/-- So does a message: its table and its body are read one after the other. -/
theorem message_failsFast (al : Alloc) (inb : Inbound) (count : ℕ) :
    FailsFast (inb.message al count) := by
  refine (inb.fill_failsFast al _ _).bind fun (_, inb) => ?_
  refine (inb.pushLengths_failsFast _ _ _).bind fun lengths => ?_
  dsimp only
  split_ifs
  · exact failsFast_throw _
  · exact (failsFast_usize _).bind fun bodyLen =>
      (body_failsFast al _ bodyLen).bind fun _ => failsFast_pure _

/-- **`next` gives up at the first I/O error**, and the promise of a receive resolves with that. -/
theorem next_failsFast (al : Alloc) (inb : Inbound) : FailsFast (inb.next al) := by
  refine (inb.fill_failsFast al _ _).bind fun (more, inb) => ?_
  dsimp only
  split_ifs
  · exact failsFast_pure _
  · refine (inb.wordAt_failsFast 0).bind fun word => ?_
    split_ifs
    · exact failsFast_throw _
    · exact inb.message_failsFast al _

end Inbound

end FailsFast

/-! ### The slot and the promises -/

namespace Receive

open Transition

/-- What a call of `receive_incoming_message` came to: refused, a message or the end of the
stream, an error, or a promise that was dropped. -/
inductive Outcome
  | refused (error : Error)
  | received (message : Option Segments)
  | failed (fault : Fault)
  | dropped

/-- The message a call came to, if it came to one: the end of the stream is received, too, but is
none. -/
def Outcome.message? : Outcome → Option Segments
  | received message => message
  | _ => none

/-- The call held the input and did not put it back: only a call that succeeds does. -/
def Outcome.LosesInput : Outcome → Prop
  | failed _ | dropped => True
  | _ => False

/-- The error of a call that finds the slot empty, whether a receive is in progress or has lost the
input. -/
def alreadyInProgress : Error := ⟨.failed, "a receive is already in progress on this connection"⟩

/-- A call, named by its number, and what it came to. The source keeps no such record: the theorem
is about it. -/
structure Resolved where
  call : ℕ
  outcome : Outcome

/-- The handles of a network, the slot they share, the promises in progress by the number of
their call, the bytes of the stream nobody has read, the number of calls made and what came of
them. -/
structure State where
  handles : List ℕ
  slot : Option Inbound
  receives : ℕ → Option (ReadM (Option Segments × Inbound))
  stream : List UInt8
  calls : ℕ
  resolved : List Resolved

namespace State

/-- A new network: its only handle is the one `accept` hands out, and the decoder is in its slot. -/
def init (al : Alloc) (limit : Option ℕ) (capacity : ℕ) (stream : List UInt8) : State :=
  ⟨[0], some (.new al limit capacity), fun _ => none, stream, 0, []⟩

/-- The call that is made now is refused, and is resolved at once. -/
def refuse (s : State) : State :=
  { s with
    calls := s.calls + 1
    resolved := s.resolved ++ [⟨s.calls, .refused alreadyInProgress⟩] }

/-- The promise of `call` resolves, or is dropped, and is no longer polled. -/
def resolve (s : State) (call : ℕ) (outcome : Outcome) : State :=
  { s with
    receives := Function.update s.receives call none
    resolved := s.resolved ++ [⟨call, outcome⟩] }

/-- The messages received, in the order in which their promises resolved. -/
def received (s : State) : List Segments := s.resolved.filterMap (·.outcome.message?)

/-- Some call has lost the input: it failed, or its promise was dropped. -/
def InputLost (s : State) : Prop := ∃ r ∈ s.resolved, r.outcome.LosesInput

end State

/-- `receive_incoming_message`: take the input out of the slot, or refuse. The promise puts it back
when it has succeeded. -/
def receiveIncomingMessage (al : Alloc) (s : State) : State :=
  match s.slot with
  | none => s.refuse
  | some inb =>
      { s with
        slot := none
        receives := Function.update s.receives s.calls (some (inb.next al))
        calls := s.calls + 1 }

/-- One step. `connect` makes another handle as long as there is one, and a handle can be
dropped at any time; a promise in progress does not need it. -/
inductive Step : State → State → Prop
  | connect {s : State} (handle : ℕ) : s.handles ≠ [] → handle ∉ s.handles →
      Step s { s with handles := handle :: s.handles }
  | disconnect {s : State} (handle : ℕ) : Step s { s with handles := s.handles.erase handle }
  | call {s : State} (al : Alloc) (handle : ℕ) : handle ∈ s.handles →
      Step s (receiveIncomingMessage al s)
  -- a read returns nothing only without room or at the end of the stream
  | read {s : State} {call : ℕ} {op : ReadOp} {k : op.Ans → ReadM (Option Segments × Inbound)}
      {front rest : List UInt8} (hroom : front.length ≤ op.room) :
      s.receives call = some (.await op k) → s.stream = front ++ rest →
      (front = [] → op.room = 0 ∨ rest = []) →
      Step s { s with
        receives := Function.update s.receives call (some (k (.ok ⟨front, hroom⟩)))
        stream := rest }
  | ioError {s : State} {call : ℕ} {op : ReadOp}
      {k : op.Ans → ReadM (Option Segments × Inbound)} (e : IoError) (taken : ℕ) :
      s.receives call = some (.await op k) →
      Step s { s with
        receives := Function.update s.receives call (some (k (.error e)))
        stream := s.stream.drop taken }
  | putBack {s : State} {call : ℕ} {message : Option Segments} {inb : Inbound} :
      s.receives call = some (.done (.ok (message, inb))) →
      Step s { s.resolve call (.received message) with slot := some inb }
  | fail {s : State} {call : ℕ} {fault : Fault} :
      s.receives call = some (.done (.error fault)) → Step s (s.resolve call (.failed fault))
  | drop {s : State} {call : ℕ} {p : ReadM (Option Segments × Inbound)} (taken : ℕ) :
      s.receives call = some p →
      Step s { s.resolve call .dropped with stream := s.stream.drop taken }

/-- States that some interleaving reaches, of handles that are made and dropped, calls, reads,
errors and promises that are dropped. -/
def Reachable (al : Alloc) (limit : Option ℕ) (capacity : ℕ) (stream : List UInt8)
    (s : State) : Prop :=
  Relation.ReflTransGen Step (.init al limit capacity stream) s

/-! ### The invariant -/

section Invariant

variable {limit : Option ℕ} {capacity : ℕ} {stream : List UInt8} {s t : State}

/-- `base` is what the messages received leave of the stream: a plain decoder makes of the stream
what was received and then what it makes of `base`. -/
def Behind (limit : Option ℕ) (stream : List UInt8) (s : State) (base : List UInt8) : Prop :=
  stock limit stream = (s.received ++ (stock limit base).1, (stock limit base).2)

/-- A promise in progress: in whatever pieces the stream arrives, it does what the plain decoder
does with the bytes behind the messages received. -/
structure Reading (limit : Option ℕ) (capacity : ℕ) (stream : List UInt8) (s : State)
    (p : ReadM (Option Segments × Inbound)) : Prop where
  failsFast : FailsFast p
  refines : ∃ base, Behind limit stream s base ∧ ∀ cuts,
    Inbound.Refines p ⟨s.stream, cuts⟩ capacity limit base (tryReadMessage limit base)

/-- The promise `p` of `call` holds the input. A promise that was told of an I/O error is about
to fail. -/
structure Holding (limit : Option ℕ) (capacity : ℕ) (stream : List UInt8) (s : State) (call : ℕ)
    (p : ReadM (Option Segments × Inbound)) : Prop where
  slot : s.slot = none
  receives : s.receives = Function.update (fun _ => none) call (some p)
  notLost : ¬s.InputLost
  received : s.received <+: (stock limit stream).1
  reading : Reading limit capacity stream s p ∨ ∃ fault, p = .done (.error fault)

/-- Where the input is: in the slot, with one promise, or lost. In each case what was received is a
front of what a plain decoder makes of the stream. -/
inductive Inv (limit : Option ℕ) (capacity : ℕ) (stream : List UInt8) (s : State) : Prop
  | idle (inb : Inbound) (base : List UInt8) : s.slot = some inb → s.receives = (fun _ => none) →
      ¬s.InputLost → Behind limit stream s base →
      (∀ cuts, Inbound.At inb ⟨s.stream, cuts⟩ capacity limit base) → Inv limit capacity stream s
  | busy {call : ℕ} {p : ReadM (Option Segments × Inbound)} :
      Holding limit capacity stream s call p → Inv limit capacity stream s
  | lost : s.slot = none → s.receives = (fun _ => none) →
      s.received <+: (stock limit stream).1 → Inv limit capacity stream s

/-- What has been received is a front of what a plain decoder makes of the stream. -/
theorem Behind.isPrefix {base : List UInt8} (h : Behind limit stream s base) :
    s.received <+: (stock limit stream).1 := by
  rw [Behind] at h
  rw [h]
  exact List.prefix_append _ _

/-- Where a receive stands depends only on the messages received. -/
theorem Behind.congr {base : List UInt8} (h : Behind limit stream s base)
    (hreceived : t.received = s.received) : Behind limit stream t base := by
  rwa [Behind, hreceived]

/-! ### What a call leaves in the record -/

/-- A refused call receives nothing. -/
@[simp] theorem received_refuse (s : State) : s.refuse.received = s.received := by
  simp [State.received, State.refuse, Outcome.message?]

/-- A call that ends receives the message it ends with, if there is one. -/
@[simp] theorem received_resolve (s : State) (call : ℕ) (outcome : Outcome) :
    (s.resolve call outcome).received = s.received ++ outcome.message?.toList := by
  cases h : outcome.message? <;> simp [State.received, State.resolve, h]

/-- A refused call does not lose the input. -/
@[simp] theorem inputLost_refuse (s : State) : s.refuse.InputLost ↔ s.InputLost := by
  simp [State.InputLost, State.refuse, or_and_right, exists_or, Outcome.LosesInput]

/-- The input is lost with a call that fails or is dropped. -/
@[simp] theorem inputLost_resolve (s : State) (call : ℕ) (outcome : Outcome) :
    (s.resolve call outcome).InputLost ↔ s.InputLost ∨ outcome.LosesInput := by
  simp [State.InputLost, State.resolve, or_and_right, exists_or]

/-! ### Steps -/

/-- Whoever is in progress holds the input, so there is one promise at most. -/
theorem Inv.holding (h : Inv limit capacity stream s) {call : ℕ}
    {p : ReadM (Option Segments × Inbound)} (hp : s.receives call = some p) :
    Holding limit capacity stream s call p := by
  cases h with
  | idle _ _ _ hreceives | lost _ hreceives =>
    rw [hreceives] at hp
    cases hp
  | @busy call' p' hold =>
    rw [hold.receives] at hp
    rcases update_eq_some hp with ⟨rfl, rfl⟩ | ⟨-, hnone⟩
    · exact hold
    · cases hnone

/-- A promise whose read returned bytes, or the end of the stream, goes on with what is left of the
stream. -/
theorem Holding.read {call : ℕ} {op : ReadOp} {k : op.Ans → ReadM (Option Segments × Inbound)}
    {front rest : List UInt8} (h : Holding limit capacity stream s call (.await op k))
    (hroom : front.length ≤ op.room) (hstream : s.stream = front ++ rest)
    (hnil : front = [] → op.room = 0 ∨ rest = []) :
    Holding limit capacity stream
      { s with
        receives := Function.update s.receives call (some (k (.ok ⟨front, hroom⟩)))
        stream := rest }
      call (k (.ok ⟨front, hroom⟩)) := by
  refine ⟨h.slot, ?_, h.notLost, h.received, .inl ?_⟩
  · dsimp only
    rw [h.receives, Function.update_idem]
  · rcases h.reading with hread | ⟨fault, hfault⟩
    · obtain ⟨base, hbehind, href⟩ := hread.refines
      rw [hstream] at href
      exact ⟨(hread.failsFast _).2, base, hbehind, Inbound.Refines.read hroom hnil href⟩
    · cases hfault

/-- A promise whose read failed is at its end, and bytes may have been taken from the stream. -/
theorem Holding.ioError {call : ℕ} {op : ReadOp} {k : op.Ans → ReadM (Option Segments × Inbound)}
    (h : Holding limit capacity stream s call (.await op k)) (e : IoError) (taken : ℕ) :
    Holding limit capacity stream
      { s with
        receives := Function.update s.receives call (some (k (.error e)))
        stream := s.stream.drop taken }
      call (k (.error e)) := by
  refine ⟨h.slot, ?_, h.notLost, h.received, .inr ?_⟩
  · dsimp only
    rw [h.receives, Function.update_idem]
  · rcases h.reading with hread | ⟨fault, hfault⟩
    · obtain ⟨r, ⟨fault, rfl⟩, hk⟩ := (hread.failsFast (.error e)).1 ⟨e, rfl⟩
      exact ⟨fault, hk⟩
    · cases hfault

/-- A resolved promise leaves none in progress. -/
theorem Holding.receives_resolve {call : ℕ} {p : ReadM (Option Segments × Inbound)}
    (h : Holding limit capacity stream s call p) (outcome : Outcome) :
    (s.resolve call outcome).receives = fun _ => none := by
  simp only [State.resolve]
  rw [h.receives, Function.update_idem]
  exact Function.update_eq_self call _

/-- A promise that returns puts the input back, behind what it returns. -/
theorem Holding.putBack {call : ℕ} {message : Option Segments} {inb : Inbound}
    (h : Holding limit capacity stream s call (.done (.ok (message, inb)))) :
    Inv limit capacity stream
      { s.resolve call (.received message) with slot := some inb } := by
  have hreceives := h.receives_resolve (.received message)
  have hlost : ¬(s.resolve call (.received message)).InputLost := by
    rw [inputLost_resolve]
    exact fun hl => hl.elim h.notLost id
  rcases h.reading with hread | ⟨fault, hfault⟩
  · obtain ⟨base, hbehind, href⟩ := hread.refines
    cases message with
    | none =>
      refine .idle inb base rfl hreceives hlost ?_ fun cuts => (href cuts).of_end.2
      exact hbehind.congr ((received_resolve s call _).trans (List.append_nil _))
    | some segments =>
      obtain ⟨rest, hp, -⟩ := (href (Stream'.const 0)).of_message
      refine .idle inb rest rfl hreceives hlost ?_ fun cuts => ?_
      · change stock limit stream = ((s.resolve call (.received (some segments))).received ++ _, _)
        rw [Behind, stock_of_message hp] at hbehind
        rw [received_resolve, hbehind]
        simp [Outcome.message?]
      · obtain ⟨rest', hp', hat⟩ := (href cuts).of_message
        rw [hp] at hp'
        cases hp'
        exact hat
  · cases hfault

/-- A promise that fails or is dropped takes the input with it. -/
theorem Holding.lose {call : ℕ} {p : ReadM (Option Segments × Inbound)}
    (h : Holding limit capacity stream s call p) (outcome : Outcome)
    (hnone : outcome.message? = none) (left : List UInt8) :
    Inv limit capacity stream { s.resolve call outcome with stream := left } := by
  refine .lost h.slot (h.receives_resolve outcome) ?_
  change (s.resolve call outcome).received <+: _
  rw [received_resolve, hnone, Option.toList_none, List.append_nil]
  exact h.received

/-- A call takes the input, or is refused and changes nothing but the list of what was resolved. -/
theorem Inv.call (h : Inv limit capacity stream s) (al : Alloc) :
    Inv limit capacity stream (receiveIncomingMessage al s) := by
  rw [receiveIncomingMessage]
  cases h with
  | idle inb base hslot hreceives hlost hbehind hat =>
    rw [hslot, hreceives]
    exact .busy ⟨rfl, rfl, hlost, hbehind.isPrefix, .inl ⟨inb.next_failsFast al, base, hbehind,
      fun cuts => Inbound.next_refines al (hat cuts)⟩⟩
  | busy hold =>
    rw [hold.slot]
    refine .busy ⟨hold.slot, hold.receives, ?_, ?_, ?_⟩
    · rw [inputLost_refuse]
      exact hold.notLost
    · rw [received_refuse]
      exact hold.received
    · refine hold.reading.imp_left fun hread => ⟨hread.failsFast, ?_⟩
      obtain ⟨base, hbehind, href⟩ := hread.refines
      exact ⟨base, hbehind.congr (received_refuse s), href⟩
  | lost hslot hreceives hgot =>
    rw [hslot]
    refine .lost hslot hreceives ?_
    rwa [received_refuse]

/-- The handles do not matter: the input is shared by all of them. -/
theorem Inv.handles (h : Inv limit capacity stream s) (handles : List ℕ) :
    Inv limit capacity stream { s with handles := handles } := by
  cases h with
  | idle inb base hslot hreceives hlost hbehind hat =>
    exact .idle inb base hslot hreceives hlost hbehind hat
  | busy hold =>
    exact .busy ⟨hold.slot, hold.receives, hold.notLost, hold.received,
      hold.reading.imp_left fun hread => ⟨hread.failsFast, hread.refines⟩⟩
  | lost hslot hreceives hgot => exact .lost hslot hreceives hgot

/-- Every step keeps the invariant: calls are made, reads answered, promises resolved and
dropped. -/
theorem Inv.step (h : Inv limit capacity stream s) (hs : Step s t) :
    Inv limit capacity stream t := by
  cases hs with
  | connect handle _ _ => exact h.handles _
  | disconnect handle => exact h.handles _
  | call al handle _ => exact h.call al
  | read hroom hp hstream hnil => exact .busy ((h.holding hp).read hroom hstream hnil)
  | ioError e taken hp => exact .busy ((h.holding hp).ioError e taken)
  | putBack hp => exact (h.holding hp).putBack
  | @fail call fault hp => exact (h.holding hp).lose (.failed fault) rfl s.stream
  | drop taken hp => exact (h.holding hp).lose .dropped rfl _

/-- The invariant holds in every reachable state, from a new connection on. -/
theorem Reachable.inv {al : Alloc} (h : Reachable al limit capacity stream s) :
    Inv limit capacity stream s := by
  induction h with
  | refl =>
    refine .idle (.new al limit capacity) stream rfl rfl ?_ rfl fun cuts => ?_
    · rintro ⟨r, hr, -⟩
      cases hr
    · exact Inbound.at_new al limit capacity ⟨stream, cuts⟩
  | tail _ hs ih => exact ih.step hs

/-- The messages received are the first ones of the stream. -/
theorem Inv.received (h : Inv limit capacity stream s) :
    s.received <+: (stock limit stream).1 := by
  cases h with
  | idle _ _ _ _ _ hbehind => exact hbehind.isPrefix
  | busy hold => exact hold.received
  | lost _ _ hgot => exact hgot

/-! ### After the input is lost -/

/-- Nobody has the input: neither the slot nor a promise. -/
def Gone (s : State) : Prop := s.slot = none ∧ s.receives = fun _ => none

/-- Lost input is nowhere: neither in the slot nor with a promise. -/
theorem Inv.gone (h : Inv limit capacity stream s) (hlost : s.InputLost) : Gone s := by
  cases h with
  | idle _ _ _ _ hnot => exact absurd hlost hnot
  | busy hold => exact absurd hlost hold.notLost
  | lost hslot hreceives => exact ⟨hslot, hreceives⟩

/-- A call without the input is refused at once. -/
theorem Gone.call (h : Gone s) (al : Alloc) : receiveIncomingMessage al s = s.refuse := by
  rw [receiveIncomingMessage, h.1]

/-- Without the input a step resolves nothing but a refused call, and the input does not come
back. -/
theorem Gone.step (h : Gone s) (hs : Step s t) :
    Gone t ∧ (t.resolved = s.resolved ∨
      t.resolved = s.resolved ++ [⟨s.calls, .refused alreadyInProgress⟩]) := by
  have hnone : ∀ {call : ℕ} {p : ReadM (Option Segments × Inbound)},
      s.receives call ≠ some p := by
    intro call p hp
    rw [h.2] at hp
    cases hp
  cases hs with
  | connect | disconnect => exact ⟨h, .inl rfl⟩
  | call al handle _ =>
    rw [h.call al]
    exact ⟨h, .inr rfl⟩
  | read _ hp | ioError _ _ hp | putBack hp | fail hp | drop _ hp => exact absurd hp hnone

/-- Without the input every later call is refused, and says that a receive is in progress. -/
theorem Gone.run (h : Gone s) (hrun : Relation.ReflTransGen Step s t) :
    Gone t ∧ ∃ later, t.resolved = s.resolved ++ later ∧
      ∀ r ∈ later, r.outcome = .refused alreadyInProgress := by
  induction hrun with
  | refl => exact ⟨h, [], (List.append_nil _).symm, fun r hr => absurd hr List.not_mem_nil⟩
  | tail _ hs ih =>
    obtain ⟨hgone, later, hlater, hrefused⟩ := ih
    obtain ⟨hgone', hsame | hmore⟩ := hgone.step hs
    · exact ⟨hgone', later, hsame.trans hlater, hrefused⟩
    · refine ⟨hgone', later ++ [_], by rw [hmore, hlater, List.append_assoc], fun r hr => ?_⟩
      rcases List.mem_append.mp hr with hr | hr
      · exact hrefused r hr
      · rw [List.mem_singleton.mp hr]

end Invariant

/-! ### A receive that comes to its end -/

section Quiet

/-- A step that makes and drops no handle: what a receive does between its call and its result. -/
def Quiet (s t : State) : Prop := Step s t ∧ t.handles = s.handles

/-- Quiet steps are steps, and the handles stay as they were. -/
theorem quiet_run {s t : State} (h : Relation.ReflTransGen Quiet s t) :
    Relation.ReflTransGen Step s t ∧ t.handles = s.handles := by
  induction h with
  | refl => exact ⟨.refl, rfl⟩
  | tail _ hstep ih => exact ⟨ih.1.tail hstep.1, hstep.2.trans ih.2⟩

/-- The promise of `call` is `p`, and this is what nobody has read of the stream. -/
def State.withReceive (s : State) (call : ℕ) (p : ReadM (Option Segments × Inbound))
    (stream : List UInt8) : State :=
  { s with receives := Function.update s.receives call (some p), stream := stream }

/-- A call on a full slot takes the decoder out and starts its `next`. -/
theorem receiveIncomingMessage_of_slot {s : State} {inb : Inbound} (h : s.slot = some inb)
    (al : Alloc) :
    receiveIncomingMessage al s =
      { s with slot := none, calls := s.calls + 1 }.withReceive s.calls (inb.next al) s.stream := by
  rw [receiveIncomingMessage, h]
  rfl

/-- One read of a promise in progress, with as many bytes as the wire likes to give. -/
theorem quiet_read (s : State) (call : ℕ) {op : ReadOp}
    {k : op.Ans → ReadM (Option Segments × Inbound)} (w : Wire) :
    Quiet (s.withReceive call (.await op k) w.data)
      (s.withReceive call (k (Wire.handle w op).1) (Wire.handle w op).2.data) := by
  have hnil : (w.read op.room).1.val = [] → op.room = 0 ∨ (w.read op.room).2.data = [] := by
    intro hval
    rcases Nat.eq_zero_or_pos op.room with hzero | hpos
    · exact .inl hzero
    · have hdata := w.read_append_data op.room
      rw [hval, List.nil_append] at hdata
      exact .inr (hdata.trans ((w.read_eq_nil_iff hpos).mp hval))
  have hread := @Step.read (s.withReceive call (.await op k) w.data) call op k _ _
    (w.read op.room).1.property (Function.update_self _ _ _) (w.read_append_data _).symm hnil
  simp only [State.withReceive, Function.update_idem] at hread
  exact ⟨hread, rfl⟩

/-- A promise in progress can be given the bytes of the stream, in the pieces of the wire, until it
has its result: that of its run on the wire. -/
theorem run_reads (s : State) (call : ℕ) (p : ReadM (Option Segments × Inbound)) (w : Wire) :
    Relation.ReflTransGen Quiet (s.withReceive call p w.data)
      (s.withReceive call (.done (Prog.run Wire.handle p w).1)
        (Prog.run Wire.handle p w).2.data) := by
  induction p generalizing w with
  | done r => exact .refl
  | await op k ih => exact (ih _ _).head (quiet_read s call w)

/-- **The next message can be received.** If the decoder is in the slot, a call and enough reads
resolve with the message that stands next, and put the decoder back. -/
theorem exists_received {capacity : ℕ} {limit : Option ℕ} {s : State} {inb : Inbound}
    {cuts : Stream' ℕ} {base rest : List UInt8} {segments : Segments} {handle : ℕ}
    (hslot : s.slot = some inb) (hat : Inbound.At inb ⟨s.stream, cuts⟩ capacity limit base)
    (hparse : tryReadMessage limit base = .message segments rest) (al : Alloc)
    (hmem : handle ∈ s.handles) :
    ∃ inb' t, Relation.ReflTransGen Quiet s t ∧ t.slot = some inb' ∧
      t.received = s.received ++ [segments] := by
  have hnext := Inbound.next_refines al hat
  rw [hparse] at hnext
  obtain ⟨inb', w', hyields, -⟩ := hnext
  -- the call, the reads, and the decoder back in the slot
  have hcall := Step.call al handle hmem
  rw [receiveIncomingMessage_of_slot hslot] at hcall
  have hreads := run_reads { s with slot := none, calls := s.calls + 1 } s.calls (inb.next al)
    ⟨s.stream, cuts⟩
  rw [show Prog.run Wire.handle (inb.next al) ⟨s.stream, cuts⟩ = _ from hyields] at hreads
  have hput := hreads.tail ⟨.putBack (Function.update_self _ _ _), rfl⟩
  exact ⟨inb', _, hput.head ⟨hcall, rfl⟩, rfl, received_resolve _ _ _⟩

end Quiet

/-- **No receive resumes out of sync.** Whatever the stream, its split into reads, the calls on
all handles, the I/O errors and the promises dropped: the messages received are, in order, the
first ones the plain decoder finds in the stream; at most one promise holds the input, and while
one does a call is refused and changes nothing else; and once a promise that held the input has
failed or was dropped, every later call is refused. -/
theorem receive_in_sync {al : Alloc} {limit : Option ℕ} {capacity : ℕ} {stream : List UInt8}
    {s : State} (h : Reachable al limit capacity stream s) :
    s.received <+: (stock limit stream).1 ∧
    (∀ i j, (s.receives i).isSome → (s.receives j).isSome → i = j ∧ s.slot = none) ∧
    (∀ i, (s.receives i).isSome → ∀ al', receiveIncomingMessage al' s = s.refuse) ∧
    (s.InputLost → ∀ t, Relation.ReflTransGen Step s t →
      (∀ al', receiveIncomingMessage al' t = t.refuse) ∧
      ∃ later, t.resolved = s.resolved ++ later ∧
        ∀ r ∈ later, r.outcome = .refused alreadyInProgress) := by
  have hinv := h.inv
  refine ⟨hinv.received, ?_, ?_, ?_⟩
  · intro i j hi hj
    obtain ⟨p, hp⟩ := Option.isSome_iff_exists.mp hi
    obtain ⟨q, hq⟩ := Option.isSome_iff_exists.mp hj
    have hold := hinv.holding hp
    refine ⟨?_, hold.slot⟩
    by_contra hne
    rw [hold.receives, Function.update_of_ne (Ne.symm hne)] at hq
    cases hq
  · intro i hi al'
    obtain ⟨p, hp⟩ := Option.isSome_iff_exists.mp hi
    rw [receiveIncomingMessage, (hinv.holding hp).slot]
  · intro hlost t hrun
    obtain ⟨hgone, hlater⟩ := (hinv.gone hlost).run hrun
    exact ⟨hgone.call, hlater⟩

/-- The first message of the stream is received, and the receive behind it is dropped: what was
received stays, and every later call is refused. -/
theorem receive_in_sync_dropped :
    ∃ s, Reachable .exact none 8 (serialize [List.replicate 8 1]) s ∧
      s.received = [[List.replicate 8 1]] ∧ s.InputLost ∧
      ∀ al, receiveIncomingMessage al s = s.refuse := by
  have hparse : tryReadMessage none (serialize [List.replicate 8 1]) =
      .message [List.replicate 8 1] [] := by decide
  obtain ⟨inb, t, hrun, hslot, hreceived⟩ :=
    @exists_received 8 none (.init .exact none 8 _) _ (Stream'.const 3) _ _ _ 0 rfl
      (Inbound.at_new .exact none 8 _) hparse .exact (List.mem_singleton_self 0)
  obtain ⟨hsteps, hhandles⟩ := quiet_run hrun
  have hcall : Step t _ := .call .exact 0 (hhandles ▸ List.mem_singleton_self 0)
  rw [receiveIncomingMessage_of_slot hslot] at hcall
  have hdrop : Reachable .exact none 8 (serialize [List.replicate 8 1]) _ :=
    (hsteps.tail hcall).tail (.drop 5 (Function.update_self _ _ _))
  refine ⟨_, hdrop, ?_, ?lost, ((receive_in_sync hdrop).2.2.2 ?lost _ .refl).1⟩
  · exact (received_resolve _ _ .dropped).trans ((List.append_nil _).trans hreceived)
  · exact (inputLost_resolve _ _ _).mpr (.inr trivial)

end Receive

end Ogurpchik
