import Mathlib.Logic.Relation
import Ogurpchik.Batch

/-!
# The Writer

`write_loop` takes items off an unbounded queue, collects messages into a batch until a
threshold is reached, the queue is found empty or a `Done` arrives, writes and flushes the
batch, and only then signals the messages in it. This module models the loop as a transition
system: the writer between two awaited operations is a `Pc`, the pure code in between is a
function on `State`, and `Step` interleaves the writer with the senders in every order.

The signals are the promises that `send` and `shutdown` return. A promise is named by the
position of its item among everything ever enqueued; it resolves with `Ok` when its sender is
used and with the disconnected error when its sender is dropped.

## Main definitions

* `State.handle`, `State.dispatch`, `State.finish`, `State.exit`: the code of the loop between
  two waits.
* `Step`, `Reachable`: all interleavings of senders and writer, with writes that make progress
  in any pieces and writes and flushes that may fail at any point.

## Main results

* `beforeDone_messageItems`, `firstDone_messageItems`: what the dequeued items say of everything
  enqueued.
-/

namespace Ogurpchik

/-- What a dropped promise resolves to: the error that the sender of an item gets when the writer is
gone. -/
def writerStopped : Error := ⟨.disconnected, "the connection's writer has stopped"⟩

/-- `INLINE_LIMIT`: segments up to this length are copied into a batch, and longer ones referred
to. -/
def INLINE_LIMIT : ℕ := 4 * 1024

/-- `BATCH_CHUNKS`: a batch of this many chunks is written, whatever else is in the queue. -/
def BATCH_CHUNKS : ℕ := 64

/-- `BATCH_BYTES`: a batch of this many bytes is written, whatever else is in the queue. -/
def BATCH_BYTES : ℕ := 1024 * 1024

/-- The position of an item among all items enqueued, which is a name for its promise. -/
abbrev PromiseId := ℕ

/-- A queued item with the promise it resolves: a message, or the `Done` of a shutdown with the
result to return. -/
inductive Item
  | message (message : OutMessage) (promise : PromiseId)
  | done (result : Except Error Unit) (promise : PromiseId)

/-- The promise of an item, of either kind. -/
def Item.promise : Item → PromiseId
  | message _ promise => promise
  | done _ promise => promise

/-- A `Done` the writer has dequeued and not yet answered: the batch in front of it is written
first. -/
abbrev Pending := Option (Except Error Unit × PromiseId)

namespace WriteLoop

/-- Where the writer waits: for the first item of a batch, between two items of a batch, for
the rest of a vectored write, for a flush, between two signals; or it has answered the `Done`
it is about to return the result of; or it has returned. -/
inductive Pc
  | next
  | tryRecv
  | writing (chunks : List Chunk) (rest : List UInt8) (done : Pending)
  | flushing (done : Pending)
  | signalling (done : Pending)
  | answered (result : Except Error Unit)
  | returned (result : Except Error Unit)

/-- The batch in the making, the bytes on the wire and how many of them the last flush
covered. -/
structure Output where
  batch : Batch
  wire : List UInt8
  flushed : ℕ

/-- The output, the queue, whether a sender is alive, the rest of the writer's locals, and the
history: all items enqueued, the resolutions in order and the I/O error that ended the
writer. -/
structure State extends Output where
  queue : List Item
  alive : Bool
  pc : Pc
  written : List PromiseId
  enqueued : List Item
  resolutions : List (PromiseId × Except Error Unit)
  failure : Option IoError

namespace State

/-- A new connection: the writer waits for its first item. -/
def init : State where
  batch := Batch.new INLINE_LIMIT
  wire := []
  flushed := 0
  queue := []
  alive := true
  pc := .next
  written := []
  enqueued := []
  resolutions := []
  failure := none

/-- Resolve promises, in the order in which they were made. -/
def resolve (s : State) (promises : List PromiseId) (result : Except Error Unit) : State :=
  { s with resolutions := s.resolutions ++ promises.map fun p => (p, result) }

/-- Return from the loop: the signals still held, the pending `Done` and the queue are
dropped. -/
def exit (s : State) (done : Pending) (result : Except Error Unit) : State :=
  { s.resolve (s.written ++ (done.toList.map Prod.snd) ++ s.queue.map Item.promise)
      (.error writerStopped) with
    queue := []
    written := []
    pc := .returned result }

/-- The end of an iteration: answer a pending `Done`, or wait for the next item. -/
def finish (s : State) (done : Pending) : State :=
  match done with
  | some (result, promise) => { s.resolve [promise] (.ok ()) with pc := .answered result }
  | none => { s with pc := .next }

/-- The batch is complete: write it, unless there is nothing to write, and then go on with the
`Done`, if one was dequeued. -/
def dispatch (s : State) (done : Pending) : State :=
  if s.batch.isEmpty then s.finish done
  else
    { s with
      batch := s.batch.take.2
      pc := .writing s.batch.take.1 (Chunk.concat s.batch.take.1) done }

/-- The body of the inner loop for one item: a message joins the batch, which is written when it is
full, and a `Done` ends the collecting. -/
def handle (al : Alloc) (s : State) : Item → State
  | .message message promise =>
      let s := { s with
        batch := s.batch.push al message
        written := s.written ++ [promise] }
      if BATCH_CHUNKS ≤ s.batch.chunkCount ∨ BATCH_BYTES ≤ s.batch.byteCount then s.dispatch none
      else { s with pc := .tryRecv }
  | .done result promise => s.dispatch (some (result, promise))

/-- Whether the writer has returned and dropped the receiver of the queue, with everything in it. -/
def hasReturned (s : State) : Bool :=
  match s.pc with
  | .returned _ => true
  | _ => false

/-- A writer that has returned has done so with a result. -/
theorem hasReturned_iff {s : State} :
    s.hasReturned = true ↔ ∃ result, s.pc = .returned result := by
  constructor
  · intro h
    cases hpc : s.pc with
    | returned result => exact ⟨result, rfl⟩
    | next | tryRecv | writing | flushing | signalling | answered =>
      simp [hasReturned, hpc] at h
  · rintro ⟨result, hpc⟩
    rw [hasReturned, hpc]

/-- `unbounded_send`: a send on a closed queue drops the item, and with it its promise, which is an
error for whoever waits. -/
def enqueue (s : State) (item : Item) : State :=
  let s := { s with enqueued := s.enqueued ++ [item] }
  if s.hasReturned then s.resolve [item.promise] (.error writerStopped)
  else { s with queue := s.queue ++ [item] }

/-- While the writer runs, what is sent joins the queue. -/
theorem enqueue_of_running {s : State} (h : s.hasReturned = false) (item : Item) :
    s.enqueue item = { s with enqueued := s.enqueued ++ [item], queue := s.queue ++ [item] } :=
  if_neg (ne_true_of_eq_false h)

/-- A sender does not move the writer. -/
theorem pc_enqueue (s : State) (item : Item) : (s.enqueue item).pc = s.pc := by
  simp only [enqueue]
  split <;> rfl

/-- A sender does not touch the batch. -/
theorem batch_enqueue (s : State) (item : Item) : (s.enqueue item).batch = s.batch := by
  simp only [enqueue]
  split <;> rfl

end State

/-- One step of the senders or the writer: items are enqueued and senders dropped at any time, and
the writer goes from one await to the next. A write may be partial, and may fail. -/
inductive Step : State → State → Prop
  | send {s : State} (m : OutMessage) : s.alive = true →
      Step s (s.enqueue (.message m s.enqueued.length))
  | shutdown {s : State} (result : Except Error Unit) : s.alive = true →
      Step s (s.enqueue (.done result s.enqueued.length))
  | dropSenders {s : State} : Step s { s with alive := false }
  | recv {s : State} {item : Item} {rest : List Item} (al : Alloc) :
      s.pc = .next → s.queue = item :: rest → Step s ({ s with queue := rest }.handle al item)
  | recvClosed {s : State} : s.pc = .next → s.queue = [] → s.alive = false →
      Step s (s.exit none (.ok ()))
  | tryRecv {s : State} {item : Item} {rest : List Item} (al : Alloc) :
      s.pc = .tryRecv → s.queue = item :: rest → Step s ({ s with queue := rest }.handle al item)
  | tryRecvEmpty {s : State} : s.pc = .tryRecv → Step s (s.dispatch none)
  | write {s : State} {chunks : List Chunk} {sent rest : List UInt8} {done : Pending} :
      s.pc = .writing chunks (sent ++ rest) done →
      Step s { s with wire := s.wire ++ sent, pc := .writing chunks rest done }
  | writeDone {s : State} {chunks : List Chunk} {done : Pending} :
      s.pc = .writing chunks [] done →
      Step s { s with batch := s.batch.recycle chunks, pc := .flushing done }
  | writeFail {s : State} {chunks : List Chunk} {rest : List UInt8} {done : Pending}
      (e : IoError) : s.pc = .writing chunks rest done →
      Step s ({ s with failure := some e, batch := s.batch.recycle chunks }.exit done
        (.error (.ofIo e)))
  | flush {s : State} {done : Pending} : s.pc = .flushing done →
      Step s { s with flushed := s.wire.length, pc := .signalling done }
  | flushFail {s : State} {done : Pending} (e : IoError) : s.pc = .flushing done →
      Step s ({ s with failure := some e }.exit done (.error (.ofIo e)))
  | signal {s : State} {promise : PromiseId} {rest : List PromiseId} {done : Pending} :
      s.pc = .signalling done → s.written = promise :: rest →
      Step s { s.resolve [promise] (.ok ()) with written := rest }
  | signalled {s : State} {done : Pending} : s.pc = .signalling done → s.written = [] →
      Step s (s.finish done)
  | returnDone {s : State} {result : Except Error Unit} : s.pc = .answered result →
      Step s (s.exit none result)

/-- States that some interleaving reaches, from a new connection on. -/
def Reachable (s : State) : Prop := Relation.ReflTransGen Step State.init s

/-! ### What was enqueued -/

/-- The messages among some items, in order. -/
def messagesOf (items : List Item) : List OutMessage :=
  items.filterMap fun
    | .message m _ => some m
    | .done _ _ => none

/-- The messages in front of the first `Done`: those the writer is to write. -/
def beforeDone : List Item → List OutMessage
  | [] => []
  | .message m _ :: rest => m :: beforeDone rest
  | .done _ _ :: _ => []

/-- The result the first `Done` carries, if there is one: what the writer is to return. -/
def firstDone : List Item → Option (Except Error Unit)
  | [] => none
  | .message _ _ :: rest => firstDone rest
  | .done result _ :: _ => some result

/-- The serialization of some messages: what is to be on the wire once they are written. -/
def bytesOf (ms : List OutMessage) : List UInt8 := serializeAll (segmentsOf ms)

/-- Messages as the first items enqueued, with their positions for promises. -/
def messageItems (ms : List OutMessage) : List Item := ms.mapIdx fun i m => .message m i

/-- The item of a pending `Done`, if one is pending. -/
def doneItems (done : Pending) : List Item := done.toList.map fun d => .done d.1 d.2

/-- No messages are no bytes. -/
@[simp] theorem bytesOf_nil : bytesOf [] = [] := rfl

/-- Messages are written one behind the other. -/
@[simp] theorem bytesOf_append (ms ns : List OutMessage) :
    bytesOf (ms ++ ns) = bytesOf ms ++ bytesOf ns := by
  simp [bytesOf, segmentsOf, serializeAll]

/-- One message is its stream form. -/
theorem bytesOf_singleton (m : OutMessage) : bytesOf [m] = serialize m.segments := by
  simp [bytesOf, segmentsOf, serializeAll]

/-- Bytes may be cut at a message: what was answered, and what was not. -/
theorem bytesOf_take_append_drop (ms : List OutMessage) (a : ℕ) :
    bytesOf (ms.take a) ++ bytesOf (ms.drop a) = bytesOf ms := by
  rw [← bytesOf_append, List.take_append_drop]

/-- The first messages are the first bytes. -/
theorem bytesOf_isPrefix {ms ns : List OutMessage} (h : ms <+: ns) : bytesOf ms <+: bytesOf ns := by
  obtain ⟨rest, rfl⟩ := h
  exact ⟨bytesOf rest, (bytesOf_append ms rest).symm⟩

/-- A message is never empty on the wire, since it has a table. -/
theorem bytesOf_eq_nil_iff (ms : List OutMessage) : bytesOf ms = [] ↔ ms = [] :=
  Batch.serializeAll_eq_nil_iff ms

/-- Each message is one item. -/
@[simp] theorem length_messageItems (ms : List OutMessage) :
    (messageItems ms).length = ms.length := by
  simp [messageItems]

/-- The next message has the next number. -/
theorem messageItems_concat (ms : List OutMessage) (m : OutMessage) :
    messageItems (ms ++ [m]) = messageItems ms ++ [.message m ms.length] := by
  simp [messageItems, List.mapIdx_append]

/-- The first items are the first messages. -/
theorem take_messageItems (ms : List OutMessage) (n : ℕ) :
    (messageItems ms).take n = messageItems (ms.take n) := by
  apply List.ext_getElem?
  intro i
  simp only [messageItems, List.getElem?_take, List.getElem?_mapIdx]
  split <;> simp

/-- The messages among items of messages are these. -/
@[simp] theorem messagesOf_messageItems (ms : List OutMessage) :
    messagesOf (messageItems ms) = ms := by
  induction ms using List.reverseRecOn with
  | nil => rfl
  | append_singleton ms m ih =>
    rw [messageItems_concat, messagesOf, List.filterMap_append]
    exact congrArg (· ++ [m]) ih

/-- The promises of messages are their positions. -/
@[simp] theorem promise_messageItems (ms : List OutMessage) :
    (messageItems ms).map Item.promise = List.range ms.length := by
  induction ms using List.reverseRecOn with
  | nil => rfl
  | append_singleton ms m ih => simp [messageItems_concat, ih, Item.promise, List.range_succ]

/-- The promise of a pending `Done` is the one it carries. -/
@[simp] theorem promise_doneItems (done : Pending) :
    (doneItems done).map Item.promise = done.toList.map Prod.snd := by
  cases done <;> rfl

/-- Messages do not end what counts. -/
theorem beforeDone_messageItems (ms : List OutMessage) (rest : List Item) :
    beforeDone (messageItems ms ++ rest) = ms ++ beforeDone rest := by
  induction ms using List.reverseRecOn generalizing rest with
  | nil => rfl
  | append_singleton ms m ih =>
    rw [messageItems_concat, List.append_assoc, ih]
    simp [beforeDone]

/-- Messages carry no result. -/
theorem firstDone_messageItems (ms : List OutMessage) (rest : List Item) :
    firstDone (messageItems ms ++ rest) = firstDone rest := by
  induction ms using List.reverseRecOn generalizing rest with
  | nil => rfl
  | append_singleton ms m ih =>
    rw [messageItems_concat, List.append_assoc, ih]
    rfl

/-- Nothing behind the first `Done` counts, neither for the result nor for what is written. -/
theorem firstDone_append {xs : List Item} (ys : List Item) (h : firstDone xs ≠ none) :
    firstDone (xs ++ ys) = firstDone xs ∧ beforeDone (xs ++ ys) = beforeDone xs := by
  induction xs with
  | nil => exact absurd rfl h
  | cons x xs ih =>
    cases x with
    | done => exact ⟨rfl, rfl⟩
    | message m p =>
      obtain ⟨hf, hb⟩ := ih h
      exact ⟨hf, congrArg (m :: ·) hb⟩

/-- Promises are positions, so a promise names one item. -/
def Numbered (items : List Item) : Prop := items.map Item.promise = List.range items.length

/-- An item that is enqueued gets the next position. -/
theorem Numbered.concat {items : List Item} {item : Item} (h : Numbered items)
    (hi : item.promise = items.length) : Numbered (items ++ [item]) := by
  rw [Numbered, List.map_append, h, List.length_append, List.map_singleton, hi]
  exact List.range_succ.symm

/-- An item stands where its promise points to. -/
theorem Numbered.promise_eq {xs ys : List Item} {item : Item}
    (h : Numbered (xs ++ item :: ys)) : item.promise = xs.length := by
  have := congrArg (·[xs.length]?) h
  simpa using this

end WriteLoop

end Ogurpchik
