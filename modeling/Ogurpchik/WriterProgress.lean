import Ogurpchik.Completion
import Ogurpchik.Transition

/-!
# Progress of the Writer

`write_loop` shares its queue with senders that never have to stop. This module bounds the steps
the writer itself has left once the end of its work is settled: a `Done` is enqueued, or no sender
is left. What is enqueued behind the `Done` does not count, since the writer never gets to it.

The bound is a measure, `State.ahead`: the bytes still to be written, a constant for each item
still to be dequeued and each signal still to be sent, and what the phase of the iteration leaves
to do. A step of the writer lowers it, and a step of a sender does not raise it.

## Main results

* `Own.ahead_lt`, `Step.ahead_le`: what a step does to the measure.
* `Inv.canStep`: the writer can step until it has returned.
* `Reachable.responds`: **the writer returns within `ahead` steps of its own.**
-/

namespace Ogurpchik

namespace WriteLoop

open Transition

/-- A step of the writer that does something: nothing is enqueued, no sender goes, and a write
takes a byte. -/
def Own (s t : State) : Prop :=
  Step s t ∧ t.enqueued = s.enqueued ∧ t.alive = s.alive ∧ t ≠ s

section Kept

variable {s t : State}

/-- The code of an iteration does not touch the senders' side or the queue. -/
theorem kept_dispatch (s : State) (done : Pending) :
    (s.dispatch done).enqueued = s.enqueued ∧ (s.dispatch done).alive = s.alive ∧
      (s.dispatch done).queue = s.queue := by
  rw [State.dispatch]
  split
  · cases done <;> exact ⟨rfl, rfl, rfl⟩
  · exact ⟨rfl, rfl, rfl⟩

/-- Taking an item does not touch them either, apart from the item that was taken. -/
theorem kept_handle (al : Alloc) (s : State) (item : Item) :
    (s.handle al item).enqueued = s.enqueued ∧ (s.handle al item).alive = s.alive ∧
      (s.handle al item).queue = s.queue := by
  cases item with
  | done r p => exact kept_dispatch s _
  | message m p =>
    rw [State.handle]
    dsimp only
    split
    · exact kept_dispatch
        { s with batch := s.batch.push al m, written := s.written ++ [p] } none
    · exact ⟨rfl, rfl, rfl⟩

/-- What is enqueued is recorded, also when the writer is gone. -/
theorem State.enqueued_enqueue (s : State) (item : Item) :
    (s.enqueue item).enqueued = s.enqueued ++ [item] := by
  rw [State.enqueue]
  dsimp only
  split <;> rfl

/-- An enqueue does not close the queue. -/
theorem State.alive_enqueue (s : State) (item : Item) : (s.enqueue item).alive = s.alive := by
  rw [State.enqueue]
  dsimp only
  split <;> rfl

/-- A step is the writer's, or a sender's, or does nothing, as an empty write does. -/
theorem Step.own_or (hs : Step s t) :
    Own s t ∨ t = s ∨ (∃ item, t = s.enqueue item) ∨ t = { s with alive := false } := by
  by_cases hsame : t = s
  · exact .inr (.inl hsame)
  have hwriter {queue : List Item}
      (hkept : t.enqueued = s.enqueued ∧ t.alive = s.alive ∧ t.queue = queue) :
      Own s t ∨ t = s ∨ (∃ item, t = s.enqueue item) ∨ t = { s with alive := false } :=
    .inl ⟨hs, hkept.1, hkept.2.1, hsame⟩
  cases hs with
  | send m _ | shutdown r _ => exact .inr (.inr (.inl ⟨_, rfl⟩))
  | dropSenders => exact .inr (.inr (.inr rfl))
  | @recv item rest al _ _ => exact hwriter (kept_handle al { s with queue := rest } item)
  | @tryRecv item rest al _ _ => exact hwriter (kept_handle al { s with queue := rest } item)
  | tryRecvEmpty _ => exact hwriter (kept_dispatch s none)
  | @signalled done _ _ => cases done <;> exact hwriter ⟨rfl, rfl, rfl⟩
  | recvClosed _ _ _ | write _ | writeDone _ | writeFail _ _ | flush _ | flushFail _ _
  | signal _ _ | returnDone _ => exact hwriter ⟨rfl, rfl, rfl⟩

end Kept

/-! ### The measure -/

/-- The work in front of the writer in a queue, up to the first `Done`: a step for each byte, and a
few for each item. -/
def frontCost : List Item → ℕ
  | [] => 0
  | .message m _ :: rest => (serialize m.segments).length + 6 + frontCost rest
  | .done _ _ :: _ => 5

/-- With a `Done` dequeued, the queue does not count: the writer returns without coming to it. -/
def queueCost (queue : List Item) : Pending → ℕ
  | none => frontCost queue
  | some _ => 0

/-- The steps the writer has left, at most, if nothing more is enqueued: a measure that each of its
steps lowers. -/
def State.ahead (s : State) : ℕ :=
  match s.pc with
  | .next => frontCost s.queue + 1
  | .tryRecv => frontCost s.queue + (Chunk.concat s.batch.chunks).length + s.written.length + 5
  | .writing _ rest done => queueCost s.queue done + rest.length + s.written.length + 4
  | .flushing done => queueCost s.queue done + s.written.length + 3
  | .signalling done => queueCost s.queue done + s.written.length + 2
  | .answered _ => 1
  | .returned _ => 0

/-- What is enqueued behind a `Done` is no work: the writer does not come to it. -/
theorem frontCost_append {queue : List Item} (rest : List Item) (h : firstDone queue ≠ none) :
    frontCost (queue ++ rest) = frontCost queue := by
  induction queue with
  | nil => exact absurd rfl h
  | cons item queue ih =>
    cases item with
    | message m p => exact congrArg (_ + ·) (ih h)
    | done r p => rfl

section Ahead

variable {s t : State} {done : Pending}

/-- A writer that has returned has nothing ahead. -/
theorem ahead_exit (s : State) (done : Pending) (result : Except Error Unit) :
    (s.exit done result).ahead = 0 := rfl

/-- Behind the end of an iteration there is the queue, or the return. -/
theorem ahead_finish (s : State) (done : Pending) :
    (s.finish done).ahead ≤ queueCost s.queue done + 1 := by
  cases done with
  | none => exact le_rfl
  | some d => exact Nat.le_add_left _ _

/-- A write has as many steps ahead as bytes and promises, at most, and a few of its own. -/
theorem ahead_dispatch (s : State) (done : Pending) :
    (s.dispatch done).ahead ≤
      queueCost s.queue done + (Chunk.concat s.batch.chunks).length + s.written.length + 4 := by
  rw [State.dispatch]
  split
  · have := ahead_finish s done
    omega
  · exact le_rfl

/-- An item that joins a batch lowers the measure: its bytes are counted before and after, and
dequeuing it is one step. -/
theorem ahead_handle {bytes : List UInt8} (hholds : Batch.Holds INLINE_LIMIT s.batch bytes)
    (al : Alloc) (item : Item) (rest : List Item) :
    ({ s with queue := rest }.handle al item).ahead ≤
      frontCost (item :: rest) + bytes.length + s.written.length := by
  have hlen : (Chunk.concat s.batch.chunks).length = bytes.length := by rw [hholds.concat_eq]
  cases item with
  | done r p =>
    have := ahead_dispatch { s with queue := rest } (some (r, p))
    simp only [State.handle, frontCost, queueCost] at this ⊢
    omega
  | message m p =>
    have hpush : (Chunk.concat (s.batch.push al m).chunks).length =
        bytes.length + (serialize m.segments).length := by
      rw [(hholds.push al m).concat_eq, List.length_append]
    rw [State.handle, frontCost]
    dsimp only
    split
    · have := ahead_dispatch
        { s with queue := rest, batch := s.batch.push al m, written := s.written ++ [p] } none
      simp only [queueCost, List.length_append, List.length_singleton] at this
      omega
    · simp only [State.ahead, List.length_append, List.length_singleton]
      omega

/-- Between two batches nothing is collected. -/
theorem Inv.idle_at_next (h : Inv s) (hpc : s.pc = .next) :
    Batch.Holds INLINE_LIMIT s.batch [] ∧ s.written = [] := by
  obtain ⟨ms, hl, hc⟩ := h.at_next hpc
  refine ⟨hc.flushed.holds, ?_⟩
  rw [hl.written_eq, Nat.sub_self, List.range'_zero]

/-- A sender's step with a `Done` enqueued, or none, leaves the measure. -/
theorem Inv.ahead_enqueue (h : Inv s) (hdone : firstDone s.enqueued ≠ none) (item : Item) :
    (s.enqueue item).ahead = s.ahead := by
  cases h with
  | ended ms a done result hpc _ _ =>
    simp only [State.ahead, State.pc_enqueue, hpc]
  | live ms a done hl hp =>
    have he := State.enqueue_of_running hp.hasReturned item
    -- the `Done` is dequeued, or it is in the queue and what follows does not count
    have hqueue : ∀ d, d = done → queueCost (s.queue ++ [item]) d = queueCost s.queue d := by
      rintro d rfl
      cases d with
      | some d => rfl
      | none =>
        rw [hl.enqueued_eq, doneItems, Option.toList_none, List.map_nil, List.append_nil,
          firstDone_messageItems] at hdone
        exact frontCost_append [item] hdone
    rw [he, State.ahead, State.ahead]
    rw [Phase] at hp
    cases hpc : s.pc with
    | next => simpa [hpc, queueCost] using hqueue none (by simp_all)
    | tryRecv => simpa [hpc, queueCost] using hqueue none (by simp_all)
    | writing chunks rest d => simp [hqueue d (by simp_all)]
    | flushing d => simp [hqueue d (by simp_all)]
    | signalling d => simp [hqueue d (by simp_all)]
    | answered r => rfl
    | returned r => rfl

/-- **A step of the writer** lowers the measure: one case for each phase of an iteration. -/
theorem Own.ahead_lt (hs : Own s t) (h : Inv s) : t.ahead < s.ahead := by
  obtain ⟨hstep, henq, halive, hne⟩ := hs
  cases hstep with
  | send m _ | shutdown r _ =>
    rw [State.enqueued_enqueue] at henq
    exact absurd (congrArg List.length henq) (by simp)
  | dropSenders =>
    refine absurd ?_ hne
    cases s
    cases halive
    rfl
  | @recv item rest al hpc hq =>
    obtain ⟨hholds, hwritten⟩ := h.idle_at_next hpc
    have hle := ahead_handle hholds al item rest
    have hs : s.ahead = frontCost s.queue + 1 := by rw [State.ahead, hpc]
    rw [hs, hq]
    exact Nat.lt_succ_of_le (hle.trans_eq (by rw [hwritten]; rfl))
  | recvClosed hpc hq ha =>
    have hs : s.ahead = frontCost s.queue + 1 := by rw [State.ahead, hpc]
    rw [ahead_exit, hs]
    exact Nat.succ_pos _
  | @tryRecv item rest al hpc hq =>
    obtain ⟨ms, a, hl, hc⟩ := h.at_tryRecv hpc
    have hle := ahead_handle hc.holds al item rest
    have hs : s.ahead = frontCost s.queue + (Chunk.concat s.batch.chunks).length +
        s.written.length + 5 := by rw [State.ahead, hpc]
    rw [hs, hq, hc.holds.concat_eq]
    omega
  | tryRecvEmpty hpc =>
    have hle := ahead_dispatch s none
    have hs : s.ahead = frontCost s.queue + (Chunk.concat s.batch.chunks).length +
        s.written.length + 5 := by rw [State.ahead, hpc]
    rw [queueCost] at hle
    omega
  | @write chunks sent rest done hpc =>
    have hs : s.ahead = queueCost s.queue done + (sent ++ rest).length + s.written.length + 4 := by
      rw [State.ahead, hpc]
    have hsent : sent ≠ [] := by
      rintro rfl
      refine hne ?_
      cases s
      cases hpc
      simp
    have := List.length_pos_iff.2 hsent
    rw [hs, List.length_append]
    simp only [State.ahead]
    omega
  | writeDone hpc =>
    rw [State.ahead, State.ahead, hpc]
    simp
  | writeFail e hpc =>
    rw [ahead_exit, State.ahead, hpc]
    exact Nat.succ_pos _
  | flush hpc =>
    rw [State.ahead, State.ahead, hpc]
    simp
  | flushFail e hpc =>
    rw [ahead_exit, State.ahead, hpc]
    exact Nat.succ_pos _
  | signal hpc hw =>
    simp [State.ahead, State.resolve, hpc, hw]
  | @signalled done hpc hw =>
    have hs : s.ahead = queueCost s.queue done + s.written.length + 2 := by rw [State.ahead, hpc]
    have hle := ahead_finish s done
    omega
  | returnDone hpc =>
    rw [ahead_exit, State.ahead, hpc]
    exact Nat.one_pos

/-- **No step** raises the measure once a `Done` is enqueued. -/
theorem Step.ahead_le (h : Inv s) (hdone : firstDone s.enqueued ≠ none) (hs : Step s t) :
    t.ahead ≤ s.ahead := by
  rcases hs.own_or with hown | rfl | ⟨item, rfl⟩ | rfl
  · exact (hown.ahead_lt h).le
  · exact le_rfl
  · exact (h.ahead_enqueue hdone item).le
  · exact le_rfl

/-- A writer that has returned makes no step. -/
theorem Own.not_returned (hs : Own s t) (h : Inv s) (result : Except Error Unit) :
    s.pc ≠ .returned result := by
  intro hpc
  have hzero : s.ahead = 0 := by rw [State.ahead, hpc]
  exact absurd (hs.ahead_lt h) (by rw [hzero]; exact Nat.not_lt_zero _)

/-- A writer that neither failed nor was shut down returns when the queue is closed. -/
theorem Inv.closed_of_returned (h : Inv s) {result : Except Error Unit}
    (hpc : s.pc = .returned result) (hfailure : s.failure = none)
    (hdone : firstDone s.enqueued = none) : s.alive = false := by
  cases h with
  | live ms a done hl hp => simp only [Phase, hpc] at hp
  | ended ms a done r _ _ he => exact he.closed hfailure hdone

end Ahead

/-! ### Progress -/

section Progress

variable {s t : State}

/-- A step that leaves the senders' side and changes where the writer waits. -/
theorem own_of_pc (hs : Step s t) (hkept : t.enqueued = s.enqueued ∧ t.alive = s.alive)
    (hpc : t.pc ≠ s.pc) : Own s t := by
  refine ⟨hs, hkept.1, hkept.2, ?_⟩
  rintro rfl
  exact hpc rfl

/-- A step that leaves the senders' side is the writer's own, or does nothing. -/
theorem run_own (hs : Step s t) (hkept : t.enqueued = s.enqueued ∧ t.alive = s.alive) :
    Relation.ReflTransGen Own s t := by
  by_cases hsame : t = s
  · rw [hsame]
  · exact .single ⟨hs, hkept.1, hkept.2, hsame⟩

/-- The writer can write a batch under way in one piece and flush it. -/
theorem run_flush_batch {chunks : List Chunk} {rest : List UInt8} {done : Pending}
    (hpc : s.pc = .writing chunks rest done) :
    Relation.ReflTransGen Own s
      { s with
        batch := s.batch.recycle chunks
        wire := s.wire ++ rest
        flushed := (s.wire ++ rest).length
        pc := .signalling done } := by
  have hwrite := run_own (.write (hpc.trans (by rw [List.append_nil rest]))) ⟨rfl, rfl⟩
  have hdone := hwrite.trans (run_own (.writeDone rfl) ⟨rfl, rfl⟩)
  exact hdone.trans (run_own (.flush rfl) ⟨rfl, rfl⟩)

/-- The start of a write leaves the place where items are looked for. -/
theorem pc_dispatch_none (s : State) (h : s.pc = .tryRecv) : (s.dispatch none).pc ≠ s.pc := by
  rw [State.dispatch, h]
  split <;> simp [State.finish]

/-- The end of an iteration leaves the place where promises are answered. -/
theorem pc_finish {done : Pending} (h : s.pc = .signalling done) : (s.finish done).pc ≠ s.pc := by
  rw [h]
  cases done <;> simp [State.finish]

/-- An item dequeued leaves a shorter queue. -/
theorem own_handle {item : Item} {rest : List Item} (al : Alloc) (hq : s.queue = item :: rest)
    (hs : Step s ({ s with queue := rest }.handle al item)) :
    Own s ({ s with queue := rest }.handle al item) := by
  obtain ⟨henq, halive, hqueue⟩ := kept_handle al { s with queue := rest } item
  refine ⟨hs, henq, halive, fun heq => ?_⟩
  rw [heq, hq] at hqueue
  exact absurd (congrArg List.length hqueue) (Nat.succ_ne_self _)

/-- **The writer can step** until it has returned, once a `Done` is enqueued or no sender is
left. -/
theorem Inv.canStep (h : Inv s) (hend : firstDone s.enqueued ≠ none ∨ s.alive = false) :
    s.hasReturned = true ∨ ∃ t, Own s t := by
  cases hpc : s.pc with
  | returned r => exact .inl (State.hasReturned_iff.2 ⟨r, hpc⟩)
  | answered r =>
    exact .inr ⟨_, own_of_pc (.returnDone hpc) ⟨rfl, rfl⟩ (by simp [State.exit, hpc])⟩
  | flushing done => exact .inr ⟨_, own_of_pc (.flush hpc) ⟨rfl, rfl⟩ (by simp [hpc])⟩
  | tryRecv =>
    obtain ⟨henq, halive, -⟩ := kept_dispatch s none
    exact .inr ⟨_, own_of_pc (.tryRecvEmpty hpc) ⟨henq, halive⟩ (pc_dispatch_none s hpc)⟩
  | writing chunks rest done =>
    by_cases hrest : rest = []
    · subst hrest
      exact .inr ⟨_, own_of_pc (.writeDone hpc) ⟨rfl, rfl⟩ (by simp [hpc])⟩
    · refine .inr ⟨_, own_of_pc (.write (hpc.trans (by rw [List.append_nil rest]))) ⟨rfl, rfl⟩ ?_⟩
      simpa [hpc] using Ne.symm hrest
  | signalling done =>
    cases hw : s.written with
    | nil =>
      refine .inr ⟨_, own_of_pc (.signalled hpc hw) ?_ (pc_finish hpc)⟩
      cases done <;> exact ⟨rfl, rfl⟩
    | cons promise rest =>
      refine .inr ⟨_, .signal hpc hw, rfl, rfl, fun heq => ?_⟩
      have := congrArg (List.length ∘ State.written) heq
      simp [hw] at this
  | next =>
    cases hq : s.queue with
    | cons item rest => exact .inr ⟨_, own_handle .exact hq (.recv .exact hpc hq)⟩
    | nil =>
      -- everything enqueued is dequeued, and none of it is a `Done`
      obtain ⟨ms, hl, -⟩ := h.at_next hpc
      have hnone : firstDone s.enqueued = none := by
        rw [hl.enqueued_eq, hq, List.append_nil, firstDone_messageItems]
        rfl
      have halive := hend.resolve_left fun hsome => hsome hnone
      exact .inr ⟨_, own_of_pc (.recvClosed hpc hq halive) ⟨rfl, rfl⟩ (by simp [State.exit, hpc])⟩

/-- A `Done` stays enqueued. -/
theorem Step.firstDone_ne (hs : Step s t) (h : firstDone s.enqueued ≠ none) :
    firstDone t.enqueued ≠ none := by
  rcases hs.own_or with ⟨-, henq, -⟩ | rfl | ⟨item, rfl⟩ | rfl
  · rwa [henq]
  · exact h
  · rw [State.enqueued_enqueue, (firstDone_append [item] h).1]
    exact h
  · exact h

/-- **A shutdown is answered.** Once a `Done` is enqueued, the writer returns within `ahead` steps
of its own, whatever is enqueued in the meantime. -/
theorem Reachable.responds (h : Reachable s) (hdone : firstDone s.enqueued ≠ none) :
    RespondsWithin Own Step (fun t => t.hasReturned = true) s.ahead s := by
  refine RespondsWithin.of_measure State.ahead
    (fun s => Reachable s ∧ firstDone s.enqueued ≠ none) ?_ ?_ ?_ ⟨h, hdone⟩
  · rintro s ⟨hs, hd⟩
    exact hs.inv.canStep (.inl hd)
  · rintro s t ⟨hs, hd⟩ hown
    exact ⟨⟨hs.tail hown.1, hown.1.firstDone_ne hd⟩, hown.ahead_lt hs.inv⟩
  · rintro s t ⟨hs, hd⟩ hstep
    exact ⟨⟨hs.tail hstep, hstep.firstDone_ne hd⟩, hstep.ahead_le hs.inv hd⟩

end Progress

end WriteLoop

end Ogurpchik
