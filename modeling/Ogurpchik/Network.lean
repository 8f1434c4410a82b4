import Ogurpchik.Receive
import Ogurpchik.WriterProgress

/-!
# The Vat Network

A `VatNetwork` runs capnp-rpc over one connection. Its state is shared by reference counting: every
`Connection` handle keeps it alive, the network itself only looks at it through a weak reference,
and each message under construction holds a sender of the writer's queue of its own. When the last
handle goes, the state is dropped and signals `on_disconnect`; when the last sender goes, the queue
is closed. The driver awaits the writer and then the signal.

This module puts the writer and the receiver together under these lifetimes. Handles come and go,
messages are built, sent or discarded, receives are made and dropped, and the writer and the driver
step, in every order.

## Main definitions

* `State`: the network, the holders of its state and of its queue, the writer, the receiver and the
  driver.
* `Step`, `Reachable`: all interleavings.

## Main results

* `Inv.step`, `Reachable.inv`: the queue is open exactly while a sender is held, and both halves of
  the network run as they do on their own.
* `handles_keep_network`: what is possible as long as somebody holds a handle or a message.
* `driver_resolves_last`: **the driver resolves after everything else**, with the writer's result.
* `shutdown_responds`, `driver_responds`: the writer returns and the driver resolves, within a
  bound.
-/

namespace Ogurpchik

namespace Network

open Transition WriteLoop

/-- `Side`: which end of the connection a network is. Only the other one can be connected to. -/
inductive Side
  | server
  | client
  deriving DecidableEq, Repr

/-- `STAGING_CAPACITY`: the bytes the decoder of a network stages. -/
def STAGING_CAPACITY : ℕ := 64 * 1024

/-- What the driver awaits: the writer, then the signal that the state was dropped. -/
inductive Driver
  | writing
  | waiting (written : Except Error Unit)
  | resolved (written : Except Error Unit)

/-- The network. `present` says whether the `VatNetwork` itself is still there, `connection` is the
handle it keeps for `accept`, `outgoing` are the messages under construction, and the handles of
the receiver, `connection` among them, are those that keep the state alive. -/
structure State where
  side : Side
  present : Bool
  connection : Option ℕ
  outgoing : List ℕ
  next : ℕ
  writer : WriteLoop.State
  input : Receive.State
  driver : Driver

/-- What a call of `connect` comes to: nothing for the own side, a panic, or a handle. -/
inductive Connected
  | refused
  | panicked
  | connected (handle : ℕ) (s : State)

namespace State

/-- `VatNetwork::new`: the network keeps the first handle until it is accepted, and the driver runs
the writer. -/
def new (al : Alloc) (limit : Option ℕ) (side : Side) (stream : List UInt8) : State where
  side := side
  present := true
  connection := some 0
  outgoing := []
  next := 1
  writer := .init
  input := .init al limit STAGING_CAPACITY stream
  driver := .writing

/-- The handles that keep the state alive: clones of the `Rc` in the source, which the driver waits
to see gone. -/
abbrev handles (s : State) : List ℕ := s.input.handles

/-- Replace the handles, which are kept with the input. -/
def withHandles (s : State) (handles : List ℕ) : State :=
  { s with input := { s.input with handles := handles } }

/-- A sender of the queue is held: the state has one, and so has every message that was made and not
yet sent. -/
def HasSender (s : State) : Prop := s.handles ≠ [] ∨ s.outgoing ≠ []

instance (s : State) : Decidable s.HasSender := instDecidableOr

/-- The last sender closes the queue, which is how the writer learns that nothing more will come. -/
def closeQueue (s : State) : State :=
  if s.HasSender then s else { s with writer := { s.writer with alive := false } }

/-- Closing the queue drops no handle. -/
@[simp] theorem closeQueue_handles (s : State) : s.closeQueue.handles = s.handles := by
  rw [closeQueue]
  split_ifs <;> rfl

/-- Closing the queue does not change the side. -/
@[simp] theorem closeQueue_side (s : State) : s.closeQueue.side = s.side := by
  rw [closeQueue]
  split_ifs <;> rfl

/-- Closing the queue does not change which handle the network keeps for `accept`. -/
@[simp] theorem closeQueue_connection (s : State) :
    s.closeQueue.connection = s.connection := by
  rw [closeQueue]
  split_ifs <;> rfl

/-- Closing the queue does not wake the driver; the writer that sees it does, later. -/
@[simp] theorem closeQueue_driver (s : State) : s.closeQueue.driver = s.driver := by
  rw [closeQueue]
  split_ifs <;> rfl

/-- `VatNetwork::connect`: the weak reference is upgraded, or the call panics, as the `expect` of
the source does. -/
def connect (s : State) (host : Side) : Connected :=
  if host = s.side then .refused
  else if s.handles = [] then .panicked
  else .connected s.next { s.withHandles (s.next :: s.handles) with next := s.next + 1 }

/-- `VatNetwork::accept`: the handle that was kept, once; then the promise never resolves. -/
def accept (s : State) : Option (ℕ × State) :=
  s.connection.map fun handle => (handle, { s with connection := none })

/-- `Connection::new_outgoing_message`: a message with a clone of the sender, which keeps the
queue open. -/
def newOutgoingMessage (s : State) : State :=
  { s with outgoing := s.next :: s.outgoing, next := s.next + 1 }

/-- `Outgoing::send`: the message is enqueued and its sender dropped, which may be the last one. -/
def send (s : State) (number : ℕ) (message : OutMessage) : State :=
  { s with
    writer := s.writer.enqueue (.message message s.writer.enqueued.length)
    outgoing := s.outgoing.erase number }.closeQueue

/-- A message that is dropped, or given back by `Outgoing::take`: its sender goes, and nothing is
enqueued. -/
def discard (s : State) (number : ℕ) : State :=
  { s with outgoing := s.outgoing.erase number }.closeQueue

/-- `Connection::shutdown`: a `Done` is enqueued behind everything that was sent, with the result
the writer is to return. -/
def shutdown (s : State) (result : Except Error Unit) : State :=
  { s with writer := s.writer.enqueue (.done result s.writer.enqueued.length) }

/-- A handle is dropped; with the last one the state goes, and the sender in it. -/
def disconnect (s : State) (handle : ℕ) : State :=
  (s.withHandles (s.handles.erase handle)).closeQueue

/-- The `VatNetwork` is dropped, with the handle it still keeps, if that was not accepted. -/
def dropNetwork (s : State) : State :=
  match s.connection with
  | some handle => { s with present := false, connection := none }.disconnect handle
  | none => { s with present := false }

/-- Somebody other than the network holds the handle: it was accepted, or made by `connect`. -/
def Held (s : State) (handle : ℕ) : Prop := handle ∈ s.handles ∧ s.connection ≠ some handle

end State

/-- One step of the writer that is its own, and not one of a sender. -/
inductive WriterStep : State → State → Prop
  | own {s : State} {writer : WriteLoop.State} : Own s.writer writer →
      WriterStep s { s with writer := writer }

/-- One step of the driver: the writer has returned, and then the state is gone. -/
inductive DriverStep : State → State → Prop
  | written {s : State} {result : Except Error Unit} : s.driver = .writing →
      s.writer.pc = .returned result → DriverStep s { s with driver := .waiting result }
  | disconnected {s : State} {result : Except Error Unit} : s.driver = .waiting result →
      s.handles = [] → DriverStep s { s with driver := .resolved result }

/-- One step: of whoever holds the network, a handle or a message, of a receive, of the writer, or
of the driver. -/
inductive Step : State → State → Prop
  | connect {s t : State} {host : Side} {handle : ℕ} : s.present = true →
      s.connect host = .connected handle t → Step s t
  | accept {s t : State} {handle : ℕ} : s.present = true → s.accept = some (handle, t) → Step s t
  | dropNetwork {s : State} : s.present = true → Step s s.dropNetwork
  | newOutgoingMessage {s : State} {handle : ℕ} : s.Held handle → Step s s.newOutgoingMessage
  | send {s : State} {number : ℕ} (message : OutMessage) : number ∈ s.outgoing →
      Step s (s.send number message)
  | discard {s : State} {number : ℕ} : number ∈ s.outgoing → Step s (s.discard number)
  | shutdown {s : State} {handle : ℕ} (result : Except Error Unit) : s.Held handle →
      Step s (s.shutdown result)
  | disconnect {s : State} {handle : ℕ} : s.Held handle → Step s (s.disconnect handle)
  | receive {s : State} {input : Receive.State} : Receive.Step s.input input →
      input.handles = s.handles → Step s { s with input := input }
  | writer {s t : State} : WriterStep s t → Step s t
  | driver {s t : State} : DriverStep s t → Step s t

/-- States that some interleaving reaches, from a new network on. -/
def Reachable (al : Alloc) (limit : Option ℕ) (side : Side) (stream : List UInt8)
    (s : State) : Prop :=
  Relation.ReflTransGen Step (.new al limit side stream) s

/-! ### The invariant -/

section Invariant

variable {al : Alloc} {limit : Option ℕ} {side : Side} {stream : List UInt8} {s t : State}

/-- What the driver has awaited has happened, and does not come undone. -/
def DriverInv (s : State) : Prop :=
  match s.driver with
  | .writing => True
  | .waiting result => s.writer.pc = .returned result
  | .resolved result => s.writer.pc = .returned result ∧ s.handles = []

/-- Only where the driver and the writer stand matters, and that no handle comes back. -/
theorem DriverInv.congr (h : DriverInv s) (hdriver : t.driver = s.driver)
    (hpc : t.writer.pc = s.writer.pc) (hhandles : s.handles = [] → t.handles = []) :
    DriverInv t := by
  rw [DriverInv] at h ⊢
  rw [hdriver, hpc]
  cases hd : s.driver with
  | writing => trivial
  | waiting result =>
    rw [hd] at h
    exact h
  | resolved result =>
    rw [hd] at h
    exact ⟨h.1, hhandles h.2⟩

/-- What holds of the network whether or not its queue was closed in time: handles are fresh, the
one that is kept is held, and writer and input are in states of their own runs. -/
structure Core (al : Alloc) (limit : Option ℕ) (side : Side) (stream : List UInt8)
    (s : State) : Prop where
  side_eq : s.side = side
  fresh : ∀ handle ∈ s.handles, handle < s.next
  kept : ∀ handle, s.connection = some handle → handle ∈ s.handles ∧ s.present = true
  writer : WriteLoop.Reachable s.writer
  input : Receive.Reachable al limit STAGING_CAPACITY stream s.input
  driver : DriverInv s

/-- The invariant of the network: besides, its queue is open exactly while a sender is held. -/
structure Inv (al : Alloc) (limit : Option ℕ) (side : Side) (stream : List UInt8)
    (s : State) : Prop extends Core al limit side stream s where
  alive_iff : s.writer.alive = true ↔ s.HasSender

/-- Closing the queue in time. -/
theorem Core.closeQueue (h : Core al limit side stream s) (halive : s.writer.alive = true) :
    Inv al limit side stream s.closeQueue := by
  rw [State.closeQueue]
  split_ifs with hsender
  · exact ⟨h, ⟨fun _ => hsender, fun _ => halive⟩⟩
  · refine ⟨⟨h.side_eq, h.fresh, h.kept, h.writer.tail .dropSenders, h.input, h.driver⟩, ?_⟩
    exact ⟨fun hfalse => absurd hfalse Bool.false_ne_true, fun hs => absurd hs hsender⟩

/-- One handle less. It is not the one that is kept for `accept`. -/
theorem Core.erase (h : Core al limit side stream s) {handle : ℕ}
    (hkept : s.connection ≠ some handle) :
    Core al limit side stream (s.withHandles (s.handles.erase handle)) := by
  refine ⟨h.side_eq, fun other ho => h.fresh other (List.mem_of_mem_erase ho),
    fun other ho => ⟨?_, (h.kept other ho).2⟩, h.writer, h.input.tail (.disconnect handle),
    h.driver.congr rfl rfl fun hnil => ?_⟩
  · refine (List.mem_erase_of_ne ?_).2 (h.kept other ho).1
    rintro rfl
    exact hkept ho
  · change s.handles.erase handle = []
    rw [hnil]
    rfl

/-- A handle keeps the queue open. -/
theorem Inv.alive_of_handle (h : Inv al limit side stream s) {handle : ℕ}
    (hmem : handle ∈ s.handles) : s.writer.alive = true :=
  h.alive_iff.2 (.inl (List.ne_nil_of_mem hmem))

/-- A message that is being built keeps the queue open, also when all handles are gone. -/
theorem Inv.alive_of_outgoing (h : Inv al limit side stream s) {number : ℕ}
    (hmem : number ∈ s.outgoing) : s.writer.alive = true :=
  h.alive_iff.2 (.inr (List.ne_nil_of_mem hmem))

/-- The last handle is dropped, or another one. -/
theorem Inv.disconnect (h : Inv al limit side stream s) {handle : ℕ} (hmem : handle ∈ s.handles)
    (hkept : s.connection ≠ some handle) : Inv al limit side stream (s.disconnect handle) :=
  (h.erase hkept).closeQueue (h.alive_of_handle hmem)

/-- A handle that is made from the weak reference is a new one, and there was another to make it
from. -/
theorem Inv.connect (h : Inv al limit side stream s) {host : Side} {handle : ℕ}
    (hc : s.connect host = .connected handle t) : Inv al limit side stream t := by
  rw [State.connect] at hc
  split_ifs at hc with hside hnil
  cases hc
  have hfresh : s.next ∉ s.handles := fun hmem => absurd (h.fresh _ hmem) (lt_irrefl _)
  refine ⟨⟨h.side_eq, fun other ho => ?_, fun other ho => ⟨?_, (h.kept other ho).2⟩, h.writer,
    h.input.tail (.connect s.next hnil hfresh), h.driver.congr rfl rfl fun hn => absurd hn hnil⟩,
    ?_⟩
  · rcases List.mem_cons.1 ho with rfl | ho
    · exact Nat.lt_succ_self _
    · exact Nat.lt_succ_of_lt (h.fresh other ho)
  · exact List.mem_cons_of_mem _ (h.kept other ho).1
  · exact h.alive_iff.trans ⟨fun _ => .inl (List.cons_ne_nil _ _), fun _ => .inl hnil⟩

/-- Dropping the network drops the connection it has kept for `accept`, if that was not taken. -/
theorem Inv.dropNetwork (h : Inv al limit side stream s) :
    Inv al limit side stream s.dropNetwork := by
  rw [State.dropNetwork]
  cases hconn : s.connection with
  | none =>
    refine ⟨⟨h.side_eq, h.fresh, fun other ho => ?_, h.writer, h.input, h.driver⟩, h.alive_iff⟩
    cases ho
  | some handle =>
    have hcore : Core al limit side stream { s with present := false, connection := none } := by
      refine ⟨h.side_eq, h.fresh, fun other ho => ?_, h.writer, h.input, h.driver⟩
      cases ho
    refine (hcore.erase ?_).closeQueue (h.alive_of_handle (h.kept handle hconn).1)
    exact (Option.some_ne_none handle).symm

/-- **Every step** keeps the invariant: one lemma for each way handles and senders come and go. -/
theorem Inv.step (h : Inv al limit side stream s) (hs : Step s t) :
    Inv al limit side stream t := by
  cases hs with
  | connect _ hc => exact h.connect hc
  | accept _ ha =>
    obtain ⟨handle, -, heq⟩ := Option.map_eq_some_iff.1 ha
    cases heq
    refine ⟨⟨h.side_eq, h.fresh, fun other ho => ?_, h.writer, h.input, h.driver⟩, h.alive_iff⟩
    cases ho
  | dropNetwork _ => exact h.dropNetwork
  | newOutgoingMessage hheld =>
    refine ⟨⟨h.side_eq, fun other ho => Nat.lt_succ_of_lt (h.fresh other ho), h.kept, h.writer,
      h.input, h.driver⟩, h.alive_iff.trans ⟨fun _ => ?_, fun _ => ?_⟩⟩
    · exact .inr (List.cons_ne_nil _ _)
    · exact .inl (List.ne_nil_of_mem hheld.1)
  | @send number message hmem =>
    have halive := h.alive_of_outgoing hmem
    refine Core.closeQueue ⟨h.side_eq, h.fresh, h.kept, h.writer.tail (.send message halive),
      h.input, h.driver.congr rfl (WriteLoop.State.pc_enqueue _ _) id⟩ ?_
    exact (WriteLoop.State.alive_enqueue _ _).trans halive
  | discard hmem =>
    exact Core.closeQueue ⟨h.side_eq, h.fresh, h.kept, h.writer, h.input, h.driver⟩
      (h.alive_of_outgoing hmem)
  | shutdown result hheld =>
    have halive := h.alive_of_handle hheld.1
    refine ⟨⟨h.side_eq, h.fresh, h.kept, h.writer.tail (.shutdown result halive), h.input,
      h.driver.congr rfl (WriteLoop.State.pc_enqueue _ _) id⟩, ?_⟩
    rw [State.shutdown, WriteLoop.State.alive_enqueue]
    exact h.alive_iff
  | disconnect hheld => exact h.disconnect hheld.1 hheld.2
  | @receive input hstep hsame =>
    refine ⟨⟨h.side_eq, ?_, ?_, h.writer, h.input.tail hstep,
      h.driver.congr rfl rfl hsame.trans⟩, ?_⟩
    · intro other ho
      rw [State.handles, hsame] at ho
      exact h.fresh other ho
    · intro other ho
      rw [State.handles, hsame]
      exact h.kept other ho
    · rw [State.HasSender, State.handles, hsame]
      exact h.alive_iff
  | writer hw =>
    obtain ⟨hown⟩ := hw
    refine ⟨⟨h.side_eq, h.fresh, h.kept, h.writer.tail hown.1, h.input, ?_⟩, ?_⟩
    · have hd := h.driver
      rw [DriverInv] at hd ⊢
      cases hdriver : s.driver with
      | writing => trivial
      | waiting result =>
        rw [hdriver] at hd
        exact absurd hd (hown.not_returned h.writer.inv result)
      | resolved result =>
        rw [hdriver] at hd
        exact absurd hd.1 (hown.not_returned h.writer.inv result)
    · rw [hown.2.2.1]
      exact h.alive_iff
  | driver hd =>
    cases hd with
    | written _ hpc => exact ⟨⟨h.side_eq, h.fresh, h.kept, h.writer, h.input, hpc⟩, h.alive_iff⟩
    | disconnected hdriver hnil =>
      have hd := h.driver
      rw [DriverInv, hdriver] at hd
      exact ⟨⟨h.side_eq, h.fresh, h.kept, h.writer, h.input, hd, hnil⟩, h.alive_iff⟩

/-- The invariant holds in every reachable state, from a new network on. -/
theorem Reachable.inv (h : Reachable al limit side stream s) : Inv al limit side stream s := by
  induction h with
  | refl =>
    refine ⟨⟨rfl, ?_, ?_, .refl, .refl, trivial⟩, ?_⟩
    · rintro handle hmem
      rw [List.mem_singleton.1 hmem]
      exact Nat.one_pos
    · rintro handle hkept
      cases hkept
      exact ⟨List.mem_singleton_self 0, rfl⟩
    · exact ⟨fun _ => .inl (List.cons_ne_nil _ _), fun _ => rfl⟩
  | tail _ hs ih => exact ih.step hs

end Invariant

/-! ### What a step leaves -/

section Kept

variable {al : Alloc} {limit : Option ℕ} {side : Side} {stream : List UInt8} {s t : State}

/-- Closing the queue is a step of the writer's senders. -/
theorem run_closeQueue {w : WriteLoop.State} (hw : s.writer = w) :
    Relation.ReflTransGen WriteLoop.Step w s.closeQueue.writer := by
  rw [State.closeQueue, ← hw]
  split_ifs
  · exact .refl
  · exact .single .dropSenders

/-- To the writer, a step of the network is some of its own: none, one, or an item and the end of
the queue. -/
theorem Inv.writer_run (h : Inv al limit side stream s) (hs : Step s t) :
    Relation.ReflTransGen WriteLoop.Step s.writer t.writer := by
  cases hs with
  | connect _ hc =>
    rw [State.connect] at hc
    split_ifs at hc
    cases hc
    exact .refl
  | accept _ ha =>
    obtain ⟨handle, -, heq⟩ := Option.map_eq_some_iff.1 ha
    cases heq
    exact .refl
  | dropNetwork _ =>
    rw [State.dropNetwork]
    split
    · exact run_closeQueue rfl
    · exact .refl
  | newOutgoingMessage _ | receive _ _ => exact .refl
  | send message hmem =>
    exact .trans (.single (.send message (h.alive_of_outgoing hmem))) (run_closeQueue rfl)
  | discard _ => exact run_closeQueue rfl
  | shutdown result hheld => exact .single (.shutdown result (h.alive_of_handle hheld.1))
  | disconnect _ => exact run_closeQueue rfl
  | writer hw =>
    obtain ⟨hown⟩ := hw
    exact .single hown.1
  | driver hd => cases hd <;> exact .refl

/-- A state without handles is gone for good: the weak reference cannot be upgraded any more. -/
theorem Step.handles_nil (hs : Step s t) (hnil : s.handles = []) : t.handles = [] := by
  cases hs with
  | connect _ hc =>
    rw [State.connect, if_pos hnil] at hc
    split_ifs at hc
  | accept _ ha =>
    obtain ⟨handle, -, heq⟩ := Option.map_eq_some_iff.1 ha
    cases heq
    exact hnil
  | dropNetwork _ =>
    rw [State.dropNetwork]
    split
    · rw [State.disconnect, State.closeQueue_handles]
      simp [State.withHandles, State.handles, hnil]
    · exact hnil
  | newOutgoingMessage _ | shutdown _ _ => exact hnil
  | send _ _ | discard _ => exact (State.closeQueue_handles _).trans hnil
  | disconnect hheld => exact absurd hheld.1 (by simp [hnil])
  | receive _ hsame => exact hsame.trans hnil
  | writer hw =>
    obtain ⟨-⟩ := hw
    exact hnil
  | driver hd => cases hd <;> exact hnil

/-- What the network is for stays; what `accept` has handed out is not kept again; a driver that
has resolved stays so. -/
theorem Step.kept (hs : Step s t) :
    t.side = s.side ∧ (s.connection = none → t.connection = none) ∧
      ∀ result, s.driver = .resolved result → t.driver = .resolved result := by
  cases hs with
  | connect _ hc =>
    rw [State.connect] at hc
    split_ifs at hc
    cases hc
    exact ⟨rfl, id, fun _ => id⟩
  | accept _ ha =>
    obtain ⟨handle, -, heq⟩ := Option.map_eq_some_iff.1 ha
    cases heq
    exact ⟨rfl, fun _ => rfl, fun _ => id⟩
  | dropNetwork _ =>
    rw [State.dropNetwork]
    split <;> simp_all [State.disconnect, State.withHandles]
  | newOutgoingMessage _ | receive _ _ | shutdown _ _ => exact ⟨rfl, id, fun _ => id⟩
  | send _ _ | discard _ | disconnect _ =>
    simp [State.send, State.discard, State.disconnect, State.withHandles]
  | writer hw =>
    obtain ⟨-⟩ := hw
    exact ⟨rfl, id, fun _ => id⟩
  | driver hd =>
    cases hd with
    | written hdriver _ | disconnected hdriver _ =>
      refine ⟨rfl, id, fun result hr => ?_⟩
      rw [hdriver] at hr
      cases hr

/-- What steps keep, runs keep: the side, that the kept handle is gone, that all are gone, and that
the driver is done. -/
theorem kept_run (hrun : Relation.ReflTransGen Step s t) :
    t.side = s.side ∧ (s.connection = none → t.connection = none) ∧
      (s.handles = [] → t.handles = []) ∧
      ∀ result, s.driver = .resolved result → t.driver = .resolved result := by
  induction hrun with
  | refl => exact ⟨rfl, id, id, fun _ => id⟩
  | tail _ hs ih =>
    obtain ⟨hside, hconnection, hdriver⟩ := hs.kept
    obtain ⟨ihside, ihconnection, ihhandles, ihdriver⟩ := ih
    exact ⟨hside.trans ihside, hconnection ∘ ihconnection, fun h => hs.handles_nil (ihhandles h),
      fun result h => hdriver result (ihdriver result h)⟩

/-- To the writer, a run of the network is one of its own. -/
theorem Reachable.writer_run (h : Reachable al limit side stream s)
    (hrun : Relation.ReflTransGen Step s t) :
    Relation.ReflTransGen WriteLoop.Step s.writer t.writer := by
  induction hrun with
  | refl => exact .refl
  | tail hpre hs ih => exact ih.trans ((Reachable.inv (h.trans hpre)).writer_run hs)

/-- Without a handle, only a call that asks for the own side does not panic. -/
theorem connect_of_nil {host : Side} (hnil : s.handles = []) (hhost : host ≠ s.side) :
    s.connect host = .panicked := by
  rw [State.connect, if_neg hhost, if_pos hnil]

end Kept

/-! ### Lifetimes -/

section Lifetimes

variable {al : Alloc} {limit : Option ℕ} {side : Side} {stream : List UInt8} {s : State}

/-- **The handles keep the network.** Under every interleaving, the writer and the receiver of a
network are in states that they can reach on their own, so what was proved of them there holds
here. The queue is closed exactly when no handle and no message
under construction is left, and a writer that neither failed nor was shut down returns only then.
As long as `accept` has not handed out the handle it keeps, `connect` to the other side does not
panic; what it has handed out it never hands out again; and once the last handle is gone, none ever
comes back and every later `connect` to the other side panics. -/
theorem handles_keep_network (h : Reachable al limit side stream s) :
    (WriteLoop.Reachable s.writer ∧
      Receive.Reachable al limit STAGING_CAPACITY stream s.input) ∧
    (s.writer.alive = false ↔ s.handles = [] ∧ s.outgoing = []) ∧
    (∀ result, s.writer.pc = .returned result → s.writer.failure = none →
      firstDone s.writer.enqueued = none → s.handles = [] ∧ s.outgoing = []) ∧
    (s.connection.isSome → ∀ host, host ≠ side → ∃ handle t, s.connect host = .connected handle t) ∧
    ∀ t, Relation.ReflTransGen Step s t →
      (s.connection = none → t.accept = none) ∧
      (s.handles = [] → t.handles = [] ∧ ∀ host, host ≠ side → t.connect host = .panicked) := by
  have hinv := h.inv
  have hclosed : s.writer.alive = false ↔ s.handles = [] ∧ s.outgoing = [] := by
    rw [← Bool.not_eq_true, hinv.alive_iff, State.HasSender, not_or, not_not, not_not]
  refine ⟨⟨hinv.writer, hinv.input⟩, hclosed, ?_, ?_, ?_⟩
  · intro result hpc hfailure hdone
    exact hclosed.1 (hinv.writer.inv.closed_of_returned hpc hfailure hdone)
  · intro hsome host hhost
    obtain ⟨kept, hkept⟩ := Option.isSome_iff_exists.1 hsome
    have hne : s.handles ≠ [] := List.ne_nil_of_mem (hinv.kept kept hkept).1
    rw [State.connect, if_neg (hinv.side_eq ▸ hhost), if_neg hne]
    exact ⟨_, _, rfl⟩
  · intro t hrun
    obtain ⟨hside, hconnection, hhandles, -⟩ := kept_run hrun
    refine ⟨fun hnone => ?_, fun hnil => ⟨hhandles hnil, fun host hhost => ?_⟩⟩
    · rw [State.accept, hconnection hnone]
      rfl
    · exact connect_of_nil (hhandles hnil) (by rwa [hside, hinv.side_eq])

/-- What the writer does by itself it can do in the network. -/
theorem Reachable.work (h : Reachable al limit side stream s) {writer : WriteLoop.State}
    (hrun : Relation.ReflTransGen Own s.writer writer) :
    Reachable al limit side stream { s with writer := writer } := by
  induction hrun with
  | refl => exact h
  | tail _ hown ih => exact ih.tail (.writer (.own hown))

/-- What a receive does by itself it can do in the network. -/
theorem Reachable.receive (h : Reachable al limit side stream s) {input : Receive.State}
    (hrun : Relation.ReflTransGen Receive.Quiet s.input input) :
    Reachable al limit side stream { s with input := input } := by
  induction hrun with
  | refl => exact h
  | tail hpre hquiet ih =>
    exact ih.tail (.receive hquiet.1 (hquiet.2.trans rfl))

/-- The queue of the writer after a message and a shutdown, with every sender gone and nothing
written yet. -/
def usedWriter : WriteLoop.State :=
  { WriteLoop.State.init with
    queue := [.message .sample 0, .done (.ok ()) 1]
    enqueued := [.message .sample 0, .done (.ok ()) 1]
    alive := false }

/-- The stream of a network whose other side sends one message and nothing else. -/
def usedStream : List UInt8 := serialize OutMessage.sample.segments

/-- The handle of a new network is accepted, another one is made, and the message of the other side
is received. -/
theorem exists_inUse :
    ∃ input : Receive.State, input.received = [OutMessage.sample.segments] ∧
      input.handles = [1, 0] ∧
      Reachable .exact none .client usedStream
        { State.new .exact none .client usedStream with
          connection := none, next := 2, input := input } := by
  have haccept : Reachable .exact none .client usedStream _ := .tail .refl (.accept rfl rfl)
  have hconnect : Reachable .exact none .client usedStream _ :=
    haccept.tail (@Step.connect _ _ .server _ rfl rfl)
  have hparse : tryReadMessage none usedStream = .message OutMessage.sample.segments [] := by
    have hserialize := tryReadMessage_serialize none .sample []
    rwa [List.append_nil] at hserialize
  obtain ⟨inb, input, hquiet, -, hreceived⟩ :=
    @Receive.exists_received STAGING_CAPACITY none
      { Receive.State.init .exact none STAGING_CAPACITY usedStream with handles := [1, 0] } _
      (Stream'.const 3) _ _ _ 0 rfl (Inbound.at_new .exact none STAGING_CAPACITY _) hparse .exact
      (by decide)
  exact ⟨input, hreceived, (Receive.quiet_run hquiet).2, hconnect.receive hquiet⟩

/-- A network that was used and left: behind what it received a message was sent and a shutdown
asked for, and then both handles were dropped. -/
theorem exists_used :
    ∃ s, Reachable .exact none .client usedStream s ∧
      s.input.received = [OutMessage.sample.segments] ∧ s.writer = usedWriter ∧
      s.driver = .writing ∧ s.connection = none ∧ s.handles = [] ∧ s.outgoing = [] := by
  obtain ⟨⟨handles, slot, receives, stream, calls, resolved⟩, hreceived, hhandles, hinUse⟩ :=
    exists_inUse
  cases hhandles
  have hfirst : 1 ∈ [1, 0] := by decide
  have hmessage : Reachable .exact none .client usedStream _ :=
    hinUse.tail (@Step.newOutgoingMessage _ 1 ⟨hfirst, by rintro ⟨⟩⟩)
  have hsend : Reachable .exact none .client usedStream _ :=
    hmessage.tail (@Step.send _ 2 .sample List.mem_cons_self)
  have hshutdown : Reachable .exact none .client usedStream _ :=
    hsend.tail (@Step.shutdown _ 1 (.ok ()) ⟨hfirst, by rintro ⟨⟩⟩)
  have hdrop : Reachable .exact none .client usedStream _ :=
    hshutdown.tail (@Step.disconnect _ 1 ⟨hfirst, by rintro ⟨⟩⟩)
  have hleft : Reachable .exact none .client usedStream _ :=
    hdrop.tail (@Step.disconnect _ 0 ⟨List.mem_singleton_self 0, by rintro ⟨⟩⟩)
  exact ⟨_, hleft, hreceived, rfl, rfl, rfl, rfl, rfl⟩

/-- A network that was used and left: nothing is handed out any more. -/
theorem handles_keep_network_used :
    ∃ s, Reachable .exact none .client usedStream s ∧
      s.input.received = [OutMessage.sample.segments] ∧
      messagesOf s.writer.enqueued = [.sample] ∧ s.writer.alive = false ∧
      ∀ t, Relation.ReflTransGen Step s t → t.accept = none ∧ t.connect .server = .panicked := by
  obtain ⟨s, hs, hreceived, hwriter, -, hconnection, hhandles, houtgoing⟩ := exists_used
  obtain ⟨-, hclosed, -, -, hlater⟩ := handles_keep_network hs
  refine ⟨s, hs, hreceived, by rw [hwriter]; rfl, hclosed.2 ⟨hhandles, houtgoing⟩, ?_⟩
  intro t hrun
  obtain ⟨haccept, hconnect⟩ := hlater t hrun
  exact ⟨haccept hconnection, (hconnect hhandles).2 .server (by decide)⟩

/-- **The driver resolves last.** When it resolves, the writer has returned, with the result the
driver resolves to: the I/O error that ended it, or else what the first `Done` carries, or else
`Ok`. Every promise of a send or a shutdown has been resolved, no handle is left, and from then on
nothing is written, no handle comes back, and the result stays. -/
theorem driver_resolves_last (h : Reachable al limit side stream s) {result : Except Error Unit}
    (hdriver : s.driver = .resolved result) :
    s.writer.pc = .returned result ∧ result = resultOf s.writer ∧
    s.writer.resolutions.map Prod.fst = List.range s.writer.enqueued.length ∧
    s.handles = [] ∧
    ∀ t, Relation.ReflTransGen Step s t → t.driver = .resolved result ∧ t.handles = [] ∧
      t.writer.wire = s.writer.wire ∧
      t.writer.resolutions.map Prod.fst = List.range t.writer.enqueued.length := by
  have hresolved : ∀ {s : State}, Reachable al limit side stream s →
      s.driver = .resolved result → s.writer.pc = .returned result ∧ s.handles = [] := by
    intro s h hdriver
    have hd := h.inv.driver
    rwa [DriverInv, hdriver] at hd
  obtain ⟨hpc, hnil⟩ := hresolved h hdriver
  obtain ⟨hall, hresult⟩ := h.inv.writer.inv.returned_spec hpc
  refine ⟨hpc, hresult, hall, hnil, fun t hrun => ?_⟩
  have ht : Reachable al limit side stream t := h.trans hrun
  have hdriver' := (kept_run hrun).2.2.2 result hdriver
  obtain ⟨hpc', hnil'⟩ := hresolved ht hdriver'
  refine ⟨hdriver', hnil', ?_, (ht.inv.writer.inv.returned_spec hpc').1⟩
  exact Finished.run ⟨result, .inr hpc⟩ (h.writer_run hrun)

/-- The writer of the used network dequeues both items, writes and flushes the message in one piece,
answers the message and then the shutdown, and returns. -/
theorem usedWriter_returns :
    ∃ w, Relation.ReflTransGen Own usedWriter w ∧ w.pc = .returned (.ok ()) ∧
      w.resolutions = [(0, .ok ()), (1, .ok ())] := by
  have hdequeued : Relation.ReflTransGen Own usedWriter _ :=
    .tail (.single (own_handle .exact rfl (.recv .exact rfl rfl)))
      (own_handle .exact rfl (.tryRecv .exact rfl rfl))
  have hflushed : Relation.ReflTransGen Own usedWriter _ := hdequeued.trans (run_flush_batch rfl)
  have hanswered : Relation.ReflTransGen Own usedWriter _ :=
    (hflushed.trans (run_own (.signal rfl rfl) ⟨rfl, rfl⟩)).trans
      (run_own (.signalled rfl rfl) ⟨rfl, rfl⟩)
  exact ⟨_, hanswered.trans (run_own (.returnDone rfl) ⟨rfl, rfl⟩), rfl, rfl⟩

/-- The used network winds up: its message and its shutdown have been answered. -/
theorem driver_resolves_last_used :
    ∃ s, Reachable .exact none .client usedStream s ∧ s.driver = .resolved (.ok ()) ∧
      s.writer.resolutions = [(0, .ok ()), (1, .ok ())] ∧ s.writer.pc = .returned (.ok ()) ∧
      s.handles = [] := by
  obtain ⟨s, hs, -, hwriter, hdriver, -, hhandles, -⟩ := exists_used
  obtain ⟨w, hrun, hpc, hresolutions⟩ := usedWriter_returns
  rw [← hwriter] at hrun
  have hresolved : Reachable .exact none .client usedStream _ :=
    ((hs.work hrun).tail (.driver (.written hdriver hpc))).tail
      (.driver (.disconnected rfl hhandles))
  obtain ⟨hreturned, -, -, hnil, -⟩ := driver_resolves_last hresolved rfl
  exact ⟨_, hresolved, rfl, hresolutions, hreturned, hnil⟩

end Lifetimes

/-! ### Responses -/

section Responses

variable {al : Alloc} {limit : Option ℕ} {side : Side} {stream : List UInt8} {s t : State}

/-- **A shutdown is answered.** From the moment a `Done` is enqueued, the writer returns within a
bounded number of its own steps, whatever the holders of handles and messages do in the meantime. -/
theorem shutdown_responds (h : Reachable al limit side stream s)
    (hdone : firstDone s.writer.enqueued ≠ none) :
    RespondsWithin WriterStep Step (fun t => t.writer.hasReturned = true) s.writer.ahead s := by
  refine RespondsWithin.comap State.writer (Reachable al limit side stream) ?_ ?_ ?_ h
    (h.inv.writer.responds hdone)
  · rintro s t hs hw
    refine ⟨hs.tail (.writer hw), ?_⟩
    obtain ⟨hown⟩ := hw
    exact hown
  · rintro s t hs hstep
    exact ⟨hs.tail hstep, hs.inv.writer_run hstep⟩
  · rintro s w - hown
    exact ⟨_, .own hown⟩

/-- A shutdown right after `accept`. -/
theorem shutdown_responds_accepted :
    ∃ s, Reachable .exact none .client [] s ∧
      RespondsWithin WriterStep Step (fun t => t.writer.hasReturned = true) 6 s := by
  have haccept : Reachable .exact none .client [] _ := .tail .refl (.accept rfl rfl)
  have hshutdown : Reachable .exact none .client [] _ :=
    haccept.tail (@Step.shutdown _ 0 (.ok ()) ⟨List.mem_singleton_self 0, by simp⟩)
  exact ⟨_, hshutdown, shutdown_responds hshutdown (Option.some_ne_none _)⟩

/-- The steps the driver has left: to see the writer return, and to see the state gone. -/
def Driver.ahead : Driver → ℕ
  | writing => 2
  | waiting _ => 1
  | resolved _ => 0

/-- Nobody holds the state or the queue: no handle is left, and no message that could be sent. -/
def Abandoned (s : State) : Prop := s.handles = [] ∧ s.outgoing = []

/-- An abandoned network stays so, and only the writer and the driver have something to do. -/
theorem Inv.abandoned_step (h : Inv al limit side stream s) (hab : Abandoned s) (hs : Step s t) :
    Abandoned t ∧ (WriterStep s t ∨ DriverStep s t ∨
      (t.writer = s.writer ∧ t.driver = s.driver)) := by
  have hhandle : ∀ handle, handle ∉ s.handles := List.eq_nil_iff_forall_not_mem.1 hab.1
  have hnumber : ∀ number, number ∉ s.outgoing := List.eq_nil_iff_forall_not_mem.1 hab.2
  have hnone : s.connection = none := by
    rw [Option.eq_none_iff_forall_ne_some]
    intro handle hkept
    exact hhandle handle (h.kept handle hkept).1
  cases hs with
  | connect _ hc =>
    rw [State.connect, if_pos hab.1] at hc
    split_ifs at hc
  | accept _ ha =>
    rw [State.accept, hnone] at ha
    cases ha
  | dropNetwork _ =>
    rw [State.dropNetwork, hnone]
    exact ⟨hab, .inr (.inr ⟨rfl, rfl⟩)⟩
  | newOutgoingMessage hheld | shutdown _ hheld | disconnect hheld =>
    exact absurd hheld.1 (hhandle _)
  | send _ hmem | discard hmem => exact absurd hmem (hnumber _)
  | receive _ hsame => exact ⟨⟨hsame.trans hab.1, hab.2⟩, .inr (.inr ⟨rfl, rfl⟩)⟩
  | writer hw =>
    refine ⟨?_, .inl hw⟩
    obtain ⟨-⟩ := hw
    exact hab
  | driver hd =>
    refine ⟨?_, .inr (.inl hd)⟩
    cases hd <;> exact hab

/-- The writer and the driver lower what they have left, so together they come to an end. -/
theorem Inv.ahead_lt (h : Inv al limit side stream s) (hs : WriterStep s t ∨ DriverStep s t) :
    t.writer.ahead + t.driver.ahead < s.writer.ahead + s.driver.ahead := by
  rcases hs with hw | hd
  · obtain ⟨hown⟩ := hw
    exact Nat.add_lt_add_right (hown.ahead_lt h.writer.inv) _
  · cases hd with
    | written hdriver _ | disconnected hdriver _ =>
      rw [hdriver]
      exact Nat.lt_succ_self _

/-- The writer or the driver of an abandoned network can step until the driver has resolved. -/
theorem Inv.canStep (h : Inv al limit side stream s) (hab : Abandoned s) :
    (∃ result, s.driver = .resolved result) ∨ ∃ t, WriterStep s t ∨ DriverStep s t := by
  cases hdriver : s.driver with
  | resolved result => exact .inl ⟨result, rfl⟩
  | waiting result => exact .inr ⟨_, .inr (.disconnected hdriver hab.1)⟩
  | writing =>
    have hclosed : s.writer.alive = false := by
      rw [← Bool.not_eq_true, h.alive_iff]
      exact fun hsender => hsender.elim (absurd hab.1) (absurd hab.2)
    rcases h.writer.inv.canStep (.inr hclosed) with hreturned | ⟨w, hown⟩
    · obtain ⟨result, hpc⟩ := State.hasReturned_iff.1 hreturned
      exact .inr ⟨_, .inr (.written hdriver hpc)⟩
    · exact .inr ⟨_, .inl (.own hown)⟩

/-- **An abandoned network winds up.** Once no handle and no message under construction is left,
the driver resolves within a bounded number of steps of the writer and the driver, wherever the
writer stood and whatever the receives in progress do. -/
theorem driver_responds (h : Reachable al limit side stream s) (hab : Abandoned s) :
    RespondsWithin (fun s t => WriterStep s t ∨ DriverStep s t) Step
      (fun t => ∃ result, t.driver = .resolved result) (s.writer.ahead + s.driver.ahead) s := by
  refine RespondsWithin.of_measure (fun s => s.writer.ahead + s.driver.ahead)
    (fun s => Reachable al limit side stream s ∧ Abandoned s) ?_ ?_ ?_ ⟨h, hab⟩
  · rintro s ⟨hs, hab⟩
    exact hs.inv.canStep hab
  · rintro s t ⟨hs, hab⟩ hown
    have hstep : Step s t := hown.elim .writer .driver
    exact ⟨⟨hs.tail hstep, (hs.inv.abandoned_step hab hstep).1⟩, hs.inv.ahead_lt hown⟩
  · rintro s t ⟨hs, hab⟩ hstep
    obtain ⟨hab', hkind⟩ := hs.inv.abandoned_step hab hstep
    refine ⟨⟨hs.tail hstep, hab'⟩, ?_⟩
    rcases hkind with hw | hd | ⟨hwriter, hdriver⟩
    · exact (hs.inv.ahead_lt (.inl hw)).le
    · exact (hs.inv.ahead_lt (.inr hd)).le
    · rw [hwriter, hdriver]

/-- The used network, with a message and a shutdown still in the queue of its writer. -/
theorem driver_responds_used :
    ∃ s, Reachable .exact none .client usedStream s ∧ s.writer.queue.length = 2 ∧
      RespondsWithin (fun s t => WriterStep s t ∨ DriverStep s t) Step
        (fun t => ∃ result, t.driver = .resolved result) 54 s := by
  obtain ⟨s, hs, -, hwriter, hdriver, -, hhandles, houtgoing⟩ := exists_used
  have hresponds := driver_responds hs ⟨hhandles, houtgoing⟩
  rw [hdriver, hwriter] at hresponds
  exact ⟨s, hs, by rw [hwriter]; rfl, hresponds⟩

end Responses

end Network

end Ogurpchik
