import Mathlib.Data.List.Infix
import Ogurpchik.WriteLoop

/-!
# Completion Signals

A send promise that resolves with `Ok` says that the message left the process; a shutdown
promise that resolves with `Ok` says it of every message in front of the `Done`. This module
shows that both are truthful over every run of the writer, whatever fails and whenever.

The invariant keeps a ledger: the items dequeued are some messages and possibly a `Done` behind
them, the first `a` of them are resolved with `Ok` in order, and the signals of the remaining
messages are exactly those in `written`. When the writer returns, the signals it drops are
therefore exactly the unresolved ones.

## Main definitions

* `Ledger`, `Phase`: the invariant of a running writer, the second by where it waits.
* `Record`: what the ledger says about the wire and the signals in every state.
* `Ended`: the invariant of a writer that has returned.

## Main results

* `Reachable.inv`: the invariant holds in every reachable state.
* `completion_truthful`: what a resolved promise says has happened, and what a returned writer
  leaves behind.
-/

namespace Ogurpchik

namespace WriteLoop

/-- Of the items enqueued, the messages `ms` and then `done` are dequeued; the first `a` are
answered. -/
structure Ledger (s : State) (ms : List OutMessage) (a : ℕ) (done : Pending) : Prop where
  enqueued_eq : s.enqueued = messageItems ms ++ doneItems done ++ s.queue
  numbered : Numbered s.enqueued
  written_eq : s.written = List.range' a (ms.length - a)
  resolutions_eq : s.resolutions = (List.range a).map fun p => (p, .ok ())
  failure_eq : s.failure = none

/-- The unanswered messages are in the batch, and the answered ones on the wire and flushed. -/
structure Collecting (o : Output) (ms : List OutMessage) (a : ℕ) : Prop where
  le : a ≤ ms.length
  holds : Batch.Holds INLINE_LIMIT o.batch (bytesOf (ms.drop a))
  wire_eq : o.wire = bytesOf (ms.take a)
  flushed_eq : o.flushed = o.wire.length

/-- The unanswered messages are partly on the wire; `rest` is still to be written. -/
structure Writing (o : Output) (ms : List OutMessage) (a : ℕ) (rest : List UInt8) : Prop where
  le : a ≤ ms.length
  holds : Batch.Holds INLINE_LIMIT o.batch []
  wire_eq : o.wire ++ rest = bytesOf ms
  answered : bytesOf (ms.take a) <+: o.wire.take o.flushed

/-- All dequeued messages are written and flushed, and the batch is empty. -/
structure Flushed (o : Output) (ms : List OutMessage) : Prop where
  holds : Batch.Holds INLINE_LIMIT o.batch []
  wire_eq : o.wire = bytesOf ms
  flushed_eq : o.flushed = o.wire.length

/-- What holds of the bytes where the writer waits: one case for each of its places, with the
messages dequeued, how many of them are answered, and a `Done` that was dequeued behind them. -/
def Phase (s : State) (ms : List OutMessage) (a : ℕ) (done : Pending) : Prop :=
  match s.pc with
  | .next => done = none ∧ a = ms.length ∧ Collecting s.toOutput ms a
  | .tryRecv => done = none ∧ Collecting s.toOutput ms a
  | .writing _ rest d => d = done ∧ Writing s.toOutput ms a rest
  | .flushing d => d = done ∧ Writing s.toOutput ms a []
  | .signalling d => d = done ∧ a ≤ ms.length ∧ Flushed s.toOutput ms
  | .answered result => done.map Prod.fst = some result ∧ a = ms.length + 1 ∧ Flushed s.toOutput ms
  | .returned _ => False

/-- What the ledger says about the wire and the signals: what was dequeued is a front of what was
enqueued, what is answered is flushed, and errors are those of a writer that has stopped. -/
structure Record (s : State) (ms : List OutMessage) (a : ℕ) (done : Pending) : Prop where
  dequeued : messageItems ms ++ doneItems done <+: s.enqueued
  numbered : Numbered s.enqueued
  le : a ≤ (messageItems ms ++ doneItems done).length
  wire_isPrefix : s.wire <+: bytesOf ms
  answered : bytesOf (ms.take a) <+: s.wire.take s.flushed
  lt_of_ok : ∀ p : ℕ, (p, .ok ()) ∈ s.resolutions → p < a
  eq_of_error : ∀ p e, (p, .error e) ∈ s.resolutions → e = writerStopped

/-- The writer's result: the I/O error, or else what the first `Done` carries, or else `Ok`. -/
def resultOf (s : State) : Except Error Unit :=
  match s.failure with
  | some e => .error (.ofIo e)
  | none => (firstDone s.enqueued).getD (.ok ())

/-- The writer has returned: every promise is resolved, and without a failure everything in
front of the first `Done` is on the wire. -/
structure Ended (s : State) (result : Except Error Unit) (ms : List OutMessage) : Prop where
  resolved : s.resolutions.map Prod.fst = List.range s.enqueued.length
  result_eq : result = resultOf s
  complete : s.failure = none → beforeDone s.enqueued = ms ∧ s.wire = bytesOf ms
  closed : s.failure = none → firstDone s.enqueued = none → s.alive = false

/-- The invariant of the writer: it runs, with its ledger and what its place demands, or it has
returned, and everything is settled. -/
inductive Inv (s : State) : Prop
  | live (ms : List OutMessage) (a : ℕ) (done : Pending) :
      Ledger s ms a done → Phase s ms a done → Inv s
  | ended (ms : List OutMessage) (a : ℕ) (done : Pending) (result : Except Error Unit) :
      s.pc = .returned result → Record s ms a done → Ended s result ms → Inv s

section Ledger

variable {s : State} {ms : List OutMessage} {a : ℕ} {done : Pending} {rest : List UInt8}

/-- A writer that collects, with everything answered, has everything flushed. -/
theorem Collecting.flushed (h : Collecting s.toOutput ms ms.length) : Flushed s.toOutput ms where
  holds := by simpa using h.holds
  wire_eq := by simpa using h.wire_eq
  flushed_eq := h.flushed_eq

/-- Conversely a writer that has flushed everything may begin the next batch. -/
theorem Flushed.collecting (h : Flushed s.toOutput ms) : Collecting s.toOutput ms ms.length where
  le := le_rfl
  holds := by simpa using h.holds
  wire_eq := by simpa using h.wire_eq
  flushed_eq := h.flushed_eq

/-- The record of a running writer, given what its phase says of the wire. -/
theorem Ledger.record (h : Ledger s ms a done)
    (hle : a ≤ (messageItems ms ++ doneItems done).length)
    (hw : s.wire <+: bytesOf ms) (ha : bytesOf (ms.take a) <+: s.wire.take s.flushed) :
    Record s ms a done where
  dequeued := ⟨s.queue, h.enqueued_eq.symm⟩
  numbered := h.numbered
  le := hle
  wire_isPrefix := hw
  answered := ha
  lt_of_ok := by simp [h.resolutions_eq]
  eq_of_error := by simp [h.resolutions_eq]

/-- Answered messages are among the items that were taken from the queue. -/
theorem le_items (ha : a ≤ ms.length) (done : Pending) :
    a ≤ (messageItems ms ++ doneItems done).length := by
  rw [List.length_append, length_messageItems]
  omega

/-- The record of a writer that collects: what is on the wire is what was answered. -/
theorem Collecting.record (h : Collecting s.toOutput ms a) (hl : Ledger s ms a done) :
    Record s ms a done := by
  refine hl.record (le_items h.le done) ?_ ?_
  · rw [h.wire_eq]
    exact bytesOf_isPrefix (List.take_prefix a ms)
  · rw [h.flushed_eq, List.take_length, ← h.wire_eq]

/-- The record of a writer in the middle of a batch: the wire holds a front of the batch, and the
rest is still to be written. -/
theorem Writing.record (h : Writing s.toOutput ms a rest) (hl : Ledger s ms a done) :
    Record s ms a done :=
  hl.record (le_items h.le done) ⟨rest, h.wire_eq⟩ h.answered

/-- The record of a writer that has flushed its batch, before or behind the answer to its `Done`. -/
theorem Flushed.record (h : Flushed s.toOutput ms) (hl : Ledger s ms a done)
    (hle : a ≤ (messageItems ms ++ doneItems done).length) : Record s ms a done := by
  refine hl.record hle (h.wire_eq ▸ List.prefix_rfl) ?_
  rw [h.flushed_eq, List.take_length, h.wire_eq]
  exact bytesOf_isPrefix (List.take_prefix a ms)

/-- The record holds wherever a running writer waits: one case for each place. -/
theorem Ledger.record_of_phase (hl : Ledger s ms a done) (h : Phase s ms a done) :
    Record s ms a done := by
  rw [Phase] at h
  split at h
  · exact h.2.2.record hl
  · exact h.2.record hl
  · exact h.2.record hl
  · exact h.2.record hl
  · exact h.2.2.record hl (le_items h.2.1 done)
  · obtain ⟨hd, rfl, hf⟩ := h
    refine hf.record hl ?_
    cases done with
    | none => simp at hd
    | some d => simp [doneItems]
  · exact h.elim

/-- Every reachable state has a record. -/
theorem Inv.record (h : Inv s) : ∃ ms a done, Record s ms a done := by
  cases h with
  | live ms a done hl hp => exact ⟨ms, a, done, hl.record_of_phase hp⟩
  | ended ms a done _ _ hr _ => exact ⟨ms, a, done, hr⟩

/-- The signals a running writer holds are those of the unresolved promises. -/
theorem Ledger.unresolved (h : Ledger s ms a done) (ha : a ≤ ms.length) :
    s.resolutions.map Prod.fst ++
        (s.written ++ done.toList.map Prod.snd ++ s.queue.map Item.promise) =
      List.range s.enqueued.length := by
  have hmsgs : List.range a ++ List.range' a (ms.length - a) = List.range ms.length := by
    obtain ⟨n, hn⟩ := Nat.le.dest ha
    rw [← hn, Nat.add_sub_cancel_left, List.range_eq_range', List.range_eq_range']
    simpa using @List.range'_append_1 0 a n
  rw [← h.numbered, h.enqueued_eq, h.resolutions_eq, h.written_eq]
  simp [← hmsgs, Function.comp_def]

/-- Behind an answered `Done`, only the queue is unresolved: every promise is resolved, to be
signalled, or queued. -/
theorem Ledger.unresolved_answered {d : Except Error Unit × PromiseId}
    (h : Ledger s ms (ms.length + 1) (some d)) :
    s.resolutions.map Prod.fst ++ (s.written ++ s.queue.map Item.promise) =
      List.range s.enqueued.length := by
  have hd : d.2 = ms.length := by
    have hn := h.numbered
    rw [h.enqueued_eq, List.append_assoc] at hn
    exact (Numbered.promise_eq hn).trans (length_messageItems ms)
  rw [← h.numbered, h.enqueued_eq, h.resolutions_eq, h.written_eq]
  simp [Function.comp_def, List.range_succ, hd]

end Ledger

/-! ### One step -/

section Step

variable {s s' : State} {ms : List OutMessage} {a : ℕ} {done : Pending}
  {result : Except Error Unit}

/-- Returning resolves what is unresolved: the signals not yet sent, the `Done` if it is pending,
and the queue, all with an error. -/
theorem Inv.exit {d : Pending} (hr : Record s ms a done)
    (hids : s.resolutions.map Prod.fst ++
        (s.written ++ d.toList.map Prod.snd ++ s.queue.map Item.promise) =
      List.range s.enqueued.length)
    (hres : result = resultOf s)
    (hc : s.failure = none → beforeDone s.enqueued = ms ∧ s.wire = bytesOf ms)
    (hcl : s.failure = none → firstDone s.enqueued = none → s.alive = false) :
    Inv (s.exit d result) := by
  refine .ended ms a done result rfl
    ⟨hr.dequeued, hr.numbered, hr.le, hr.wire_isPrefix, hr.answered, ?_, ?_⟩ ⟨?_, hres, hc, hcl⟩
  · intro p hp
    refine hr.lt_of_ok p ?_
    simpa [State.exit, State.resolve] using hp
  · intro p e hp
    simp only [State.exit, State.resolve, List.mem_append, List.mem_map] at hp
    rcases hp with hp | ⟨q, -, hq⟩
    · exact hr.eq_of_error p e hp
    · cases hq
      rfl
  · refine Eq.trans ?_ hids
    simp [State.exit, State.resolve, Function.comp_def]

/-- A failed write or flush ends the writer. -/
theorem Inv.exit_failure (hl : Ledger s ms a done) (ha : a ≤ ms.length) (hr : Record s ms a done)
    (e : IoError) (b : Batch) :
    Inv ({ s with failure := some e, batch := b }.exit done (.error (.ofIo e))) := by
  have hr' : Record { s with failure := some e, batch := b } ms a done :=
    ⟨hr.dequeued, hr.numbered, hr.le, hr.wire_isPrefix, hr.answered, hr.lt_of_ok, hr.eq_of_error⟩
  exact Inv.exit hr' (hl.unresolved ha) rfl nofun nofun

/-- The end of an iteration in which everything is written, flushed and signalled. -/
theorem Inv.finish (hl : Ledger s ms ms.length done) (hf : Flushed s.toOutput ms) :
    Inv (s.finish done) := by
  cases done with
  | none =>
    exact .live ms ms.length none ⟨hl.enqueued_eq, hl.numbered,
      hl.written_eq, hl.resolutions_eq, hl.failure_eq⟩ ⟨rfl, rfl, hf.collecting⟩
  | some d =>
    -- the promise of the `Done` is the next number
    have hd : d.2 = ms.length := by
      have hn := hl.numbered
      rw [hl.enqueued_eq, List.append_assoc] at hn
      exact (Numbered.promise_eq hn).trans (length_messageItems ms)
    refine .live ms (ms.length + 1) (some d) ⟨hl.enqueued_eq, hl.numbered,
      ?_, ?_, hl.failure_eq⟩ ⟨rfl, rfl, hf⟩
    · simpa [State.finish, State.resolve] using hl.written_eq
    · simp [State.finish, State.resolve, hl.resolutions_eq, List.range_succ, hd]

/-- The batch is complete. Either there is nothing to write, and then every message was answered, or
the chunks are handed to the write. -/
theorem Inv.dispatch (hl : Ledger s ms a done) (hc : Collecting s.toOutput ms a) :
    Inv (s.dispatch done) := by
  rw [State.dispatch]
  split
  case isTrue hempty =>
    -- nothing to write: every dequeued message is answered
    have hdrop : ms.drop a = [] := by
      rw [Batch.isEmpty, List.isEmpty_iff, hc.holds.chunks_eq_nil_iff] at hempty
      exact (bytesOf_eq_nil_iff _).1 hempty
    have ha : a = ms.length := le_antisymm hc.le (List.drop_eq_nil_iff.1 hdrop)
    subst ha
    exact Inv.finish hl hc.flushed
  case isFalse =>
    refine .live ms a done ⟨hl.enqueued_eq, hl.numbered,
      hl.written_eq, hl.resolutions_eq, hl.failure_eq⟩ ⟨rfl, hc.le, hc.holds.take.2, ?_, ?_⟩
    · change s.wire ++ Chunk.concat s.batch.chunks = _
      rw [hc.wire_eq, hc.holds.concat_eq, bytesOf_take_append_drop]
    · change _ <+: s.wire.take s.flushed
      rw [hc.flushed_eq, List.take_length, ← hc.wire_eq]

/-- The next item of a batch: a message joins it, and a `Done` completes it. -/
theorem Inv.handle {item : Item} {rest : List Item} (al : Alloc) (hl : Ledger s ms a none)
    (hc : Collecting s.toOutput ms a) (hq : s.queue = item :: rest) :
    Inv ({ s with queue := rest }.handle al item) := by
  have hp : item.promise = ms.length := by
    have hn := hl.numbered
    rw [hl.enqueued_eq, hq, doneItems, Option.toList_none, List.map_nil, List.append_nil] at hn
    exact (Numbered.promise_eq hn).trans (length_messageItems ms)
  cases item with
  | done result promise =>
    cases hp
    have hl' : Ledger { s with queue := rest } ms a (some (result, ms.length)) := by
      refine ⟨?_, hl.numbered, hl.written_eq, hl.resolutions_eq, hl.failure_eq⟩
      rw [hl.enqueued_eq, hq]
      simp [doneItems]
    exact Inv.dispatch hl' hc
  | message m promise =>
    cases hp
    have hl' : Ledger { s with
        queue := rest
        batch := s.batch.push al m
        written := s.written ++ [ms.length] } (ms ++ [m]) a none := by
      refine ⟨?_, hl.numbered, ?_, hl.resolutions_eq, hl.failure_eq⟩
      · rw [hl.enqueued_eq, hq, messageItems_concat]
        simp [doneItems]
      · rw [hl.written_eq, List.length_append, List.length_singleton,
          Nat.sub_add_comm hc.le, List.range'_1_concat, Nat.add_sub_cancel' hc.le]
    have hc' : Collecting { s.toOutput with batch := s.batch.push al m } (ms ++ [m]) a := by
      refine ⟨?_, ?_, ?_, hc.flushed_eq⟩
      · rw [List.length_append]
        exact hc.le.trans (Nat.le_add_right _ _)
      · rw [List.drop_append_of_le_length hc.le, bytesOf_append, bytesOf_singleton]
        exact hc.holds.push al m
      · rw [List.take_append_of_le_length hc.le]
        exact hc.wire_eq
    rw [State.handle]
    dsimp only
    split
    · exact Inv.dispatch hl' hc'
    · exact .live (ms ++ [m]) a none ⟨hl'.enqueued_eq, hl'.numbered,
        hl'.written_eq, hl'.resolutions_eq, hl'.failure_eq⟩
        ⟨rfl, hc'⟩

/-- In each of the phases the writer runs. -/
theorem Phase.hasReturned (hp : Phase s ms a done) : s.hasReturned = false := by
  rw [Bool.eq_false_iff, Ne, State.hasReturned_iff]
  rintro ⟨result, hpc⟩
  simp only [Phase, hpc] at hp

/-- A send or a shutdown while the writer runs. -/
theorem Inv.enqueue_live {item : Item} (hl : Ledger s ms a done) (hp : Phase s ms a done)
    (hi : item.promise = s.enqueued.length) : Inv (s.enqueue item) := by
  rw [State.enqueue_of_running hp.hasReturned]
  refine .live ms a done ⟨?_, hl.numbered.concat hi, hl.written_eq, hl.resolutions_eq,
    hl.failure_eq⟩ hp
  rw [hl.enqueued_eq, List.append_assoc]

/-- A send or a shutdown after the writer has returned: its promise is resolved at once, with an
error. -/
theorem Inv.enqueue_ended {item : Item} (hpc : s.pc = .returned result)
    (hr : Record s ms a done) (h : Ended s result ms) (halive : s.alive = true)
    (hi : item.promise = s.enqueued.length) : Inv (s.enqueue item) := by
  have hret : s.hasReturned = true := State.hasReturned_iff.2 ⟨result, hpc⟩
  have he : s.enqueue item =
      { s with
        enqueued := s.enqueued ++ [item]
        resolutions := s.resolutions ++ [(item.promise, .error writerStopped)] } :=
    if_pos hret
  -- a sender is alive, so a writer that did not fail returned because of a `Done`
  have hdone : s.failure = none → firstDone s.enqueued ≠ none := by
    intro hf hn
    exact absurd halive (by simp [h.closed hf hn])
  rw [he]
  refine .ended ms a done result hpc ⟨hr.dequeued.trans (List.prefix_append _ _),
    hr.numbered.concat hi, hr.le, hr.wire_isPrefix, hr.answered, ?_, ?_⟩ ⟨?_, ?_, ?_, ?_⟩
  · intro p hp
    exact hr.lt_of_ok p (by simpa using hp)
  · intro p e hp
    simp only [List.mem_append, List.mem_singleton, Prod.mk.injEq, Except.error.injEq] at hp
    rcases hp with hp | ⟨-, rfl⟩
    · exact hr.eq_of_error p e hp
    · rfl
  · simp [h.resolved, hi, List.range_succ]
  · rw [h.result_eq, resultOf, resultOf]
    cases hf : s.failure with
    | some e => rfl
    | none => simp only [(firstDone_append [item] (hdone hf)).1]
  · intro hf
    rw [(firstDone_append [item] (hdone hf)).2]
    exact h.complete hf
  · intro hf hn
    rw [(firstDone_append [item] (hdone hf)).1] at hn
    exact absurd hn (hdone hf)

/-- A new item goes to the back of the queue of a running writer, and is answered at once by one
that has returned. -/
theorem Inv.enqueue {item : Item} (h : Inv s) (halive : s.alive = true)
    (hi : item.promise = s.enqueued.length) : Inv (s.enqueue item) := by
  cases h with
  | live ms a done hl hp => exact Inv.enqueue_live hl hp hi
  | ended ms a done result hpc hr he => exact Inv.enqueue_ended hpc hr he halive hi

/-- The invariant of a state whose writer has not returned. -/
theorem Inv.running (h : Inv s) (hpc : ∀ result, s.pc ≠ .returned result) :
    ∃ ms a done, Ledger s ms a done ∧ Phase s ms a done := by
  cases h with
  | live ms a done hl hp => exact ⟨ms, a, done, hl, hp⟩
  | ended ms a done result he _ _ => exact absurd he (hpc result)

/-- Where the writer waits for the first item of a batch: everything it has taken is written,
flushed and answered. -/
theorem Inv.at_next (h : Inv s) (hpc : s.pc = .next) :
    ∃ ms : List OutMessage, Ledger s ms ms.length none ∧ Collecting s.toOutput ms ms.length := by
  obtain ⟨ms, a, d, hl, hp⟩ := h.running (by simp [hpc])
  simp only [Phase, hpc] at hp
  obtain ⟨rfl, rfl, hc⟩ := hp
  exact ⟨ms, hl, hc⟩

/-- Where the writer looks for further items of its batch: no `Done` was taken yet. -/
theorem Inv.at_tryRecv (h : Inv s) (hpc : s.pc = .tryRecv) :
    ∃ ms a, Ledger s ms a none ∧ Collecting s.toOutput ms a := by
  obtain ⟨ms, a, d, hl, hp⟩ := h.running (by simp [hpc])
  simp only [Phase, hpc] at hp
  obtain ⟨rfl, hc⟩ := hp
  exact ⟨ms, a, hl, hc⟩

/-- In the middle of a write: what is left of the batch is known to the last byte. -/
theorem Inv.at_writing {chunks : List Chunk} {rest : List UInt8} (h : Inv s)
    (hpc : s.pc = .writing chunks rest done) :
    ∃ ms a, Ledger s ms a done ∧ Writing s.toOutput ms a rest := by
  obtain ⟨ms, a, d, hl, hp⟩ := h.running (by simp [hpc])
  simp only [Phase, hpc] at hp
  obtain ⟨rfl, hw⟩ := hp
  exact ⟨ms, a, hl, hw⟩

/-- Before the flush: the batch is on the wire, and not known to be flushed. -/
theorem Inv.at_flushing (h : Inv s) (hpc : s.pc = .flushing done) :
    ∃ ms a, Ledger s ms a done ∧ Writing s.toOutput ms a [] := by
  obtain ⟨ms, a, d, hl, hp⟩ := h.running (by simp [hpc])
  simp only [Phase, hpc] at hp
  obtain ⟨rfl, hw⟩ := hp
  exact ⟨ms, a, hl, hw⟩

/-- While promises are answered: the batch is on the wire and flushed. -/
theorem Inv.at_signalling (h : Inv s) (hpc : s.pc = .signalling done) :
    ∃ ms a, Ledger s ms a done ∧ a ≤ ms.length ∧ Flushed s.toOutput ms := by
  obtain ⟨ms, a, d, hl, hp⟩ := h.running (by simp [hpc])
  simp only [Phase, hpc] at hp
  obtain ⟨rfl, ha, hf⟩ := hp
  exact ⟨ms, a, hl, ha, hf⟩

/-- Behind the answer to a `Done`: it has been answered as the last of the items taken. -/
theorem Inv.at_answered (h : Inv s) (hpc : s.pc = .answered result) :
    ∃ ms p, Ledger s ms (ms.length + 1) (some (result, p)) ∧ Flushed s.toOutput ms := by
  obtain ⟨ms, a, d, hl, hp⟩ := h.running (by simp [hpc])
  simp only [Phase, hpc] at hp
  obtain ⟨hd, rfl, hf⟩ := hp
  obtain ⟨⟨r, p⟩, rfl, rfl⟩ := Option.map_eq_some_iff.1 hd
  exact ⟨ms, p, hl, hf⟩

/-- The queue is closed and empty. The writer returns, with nothing left to write. -/
theorem Inv.closed (h : Inv s) (hpc : s.pc = .next) (hq : s.queue = []) (halive : s.alive = false) :
    Inv (s.exit none (.ok ())) := by
  obtain ⟨ms, hl, hc⟩ := h.at_next hpc
  have henq : s.enqueued = messageItems ms ++ [] := by simpa [hq, doneItems] using hl.enqueued_eq
  refine Inv.exit (hc.record hl) (hl.unresolved le_rfl) ?_ (fun _ => ?_) (fun _ _ => halive)
  · rw [resultOf, hl.failure_eq, henq, firstDone_messageItems]
    rfl
  · rw [henq, beforeDone_messageItems]
    exact ⟨List.append_nil ms, hc.flushed.wire_eq⟩

/-- A piece of a write. -/
theorem Inv.write {chunks : List Chunk} {sent rest : List UInt8} (h : Inv s)
    (hpc : s.pc = .writing chunks (sent ++ rest) done) :
    Inv { s with wire := s.wire ++ sent, pc := .writing chunks rest done } := by
  obtain ⟨ms, a, hl, hw⟩ := h.at_writing hpc
  refine .live ms a done ⟨hl.1, hl.2, hl.3, hl.4, hl.5⟩ ⟨rfl, hw.le, hw.holds, ?_, ?_⟩
  · rw [List.append_assoc]
    exact hw.wire_eq
  · exact hw.answered.trans (List.IsPrefix.take (List.prefix_append s.wire sent) s.flushed)

/-- One signal: the promise of a message that was written and flushed is resolved. -/
theorem Inv.signal {promise : PromiseId} {rest : List PromiseId} (h : Inv s)
    (hpc : s.pc = .signalling done) (hw : s.written = promise :: rest) :
    Inv { s.resolve [promise] (.ok ()) with written := rest } := by
  obtain ⟨ms, a, hl, ha, hf⟩ := h.at_signalling hpc
  have hlt : a < ms.length := by
    by_contra hge
    have hnil := hl.written_eq
    rw [Nat.sub_eq_zero_of_le (not_lt.1 hge), List.range'_zero, hw] at hnil
    exact absurd hnil (List.cons_ne_nil _ _)
  have hcons : promise = a ∧ rest = List.range' (a + 1) (ms.length - (a + 1)) := by
    have hsucc : ms.length - a = ms.length - (a + 1) + 1 := by omega
    have hw' := hl.written_eq
    rw [hw, hsucc, List.range'_succ] at hw'
    exact List.cons.inj hw'
  obtain ⟨rfl, rfl⟩ := hcons
  refine .live ms (promise + 1) done ⟨hl.enqueued_eq, hl.numbered, rfl, ?_, hl.failure_eq⟩ ?_
  · simp [State.resolve, hl.resolutions_eq, List.range_succ]
  · simp only [Phase, State.resolve, hpc]
    exact ⟨trivial, hlt, hf⟩

/-- The last signal was sent. -/
theorem Inv.signalled (h : Inv s) (hpc : s.pc = .signalling done) (hw : s.written = []) :
    Inv (s.finish done) := by
  obtain ⟨ms, a, hl, ha, hf⟩ := h.at_signalling hpc
  obtain rfl : a = ms.length := by
    have := congrArg List.length hl.written_eq
    rw [hw, List.length_nil, List.length_range'] at this
    omega
  exact Inv.finish hl hf

/-- The writer returns what the `Done` carries, after everything in front of it was written. -/
theorem Inv.returnDone (h : Inv s) (hpc : s.pc = .answered result) : Inv (s.exit none result) := by
  obtain ⟨ms, p, hl, hf⟩ := h.at_answered hpc
  have henq : s.enqueued = messageItems ms ++ .done result p :: s.queue := by
    rw [hl.enqueued_eq, List.append_assoc]
    rfl
  have hfirst : firstDone s.enqueued = some result := by rw [henq, firstDone_messageItems]; rfl
  refine Inv.exit (hf.record hl (by simp [doneItems])) ?_ ?_ (fun _ => ⟨?_, hf.wire_eq⟩) ?_
  · simpa using hl.unresolved_answered
  · rw [resultOf, hl.failure_eq, hfirst]
    rfl
  · rw [henq, beforeDone_messageItems]
    exact List.append_nil ms
  · intro _ hn
    rw [hfirst] at hn
    exact absurd hn (Option.some_ne_none result)

/-- **Every step** keeps the invariant: one lemma for each phase of an iteration, and one for each
thing a sender does. -/
theorem Inv.step (h : Inv s) (hs : Step s s') : Inv s' := by
  cases hs with
  | send m halive => exact h.enqueue halive rfl
  | shutdown result halive => exact h.enqueue halive rfl
  | dropSenders =>
    cases h with
    | live ms a done hl hp => exact .live ms a done ⟨hl.1, hl.2, hl.3, hl.4, hl.5⟩ hp
    | ended ms a done result hpc hr he =>
      exact .ended ms a done result hpc ⟨hr.1, hr.2, hr.3, hr.4, hr.5, hr.6, hr.7⟩
        ⟨he.1, he.2, he.3, fun _ _ => rfl⟩
  | recv al hpc hq =>
    obtain ⟨ms, hl, hc⟩ := h.at_next hpc
    exact Inv.handle al hl hc hq
  | recvClosed hpc hq halive => exact h.closed hpc hq halive
  | tryRecv al hpc hq =>
    obtain ⟨ms, a, hl, hc⟩ := h.at_tryRecv hpc
    exact Inv.handle al hl hc hq
  | tryRecvEmpty hpc =>
    obtain ⟨ms, a, hl, hc⟩ := h.at_tryRecv hpc
    exact Inv.dispatch hl hc
  | write hpc => exact h.write hpc
  | @writeDone chunks done hpc =>
    obtain ⟨ms, a, hl, hw⟩ := h.at_writing hpc
    exact .live ms a done ⟨hl.1, hl.2, hl.3, hl.4, hl.5⟩
      ⟨rfl, hw.le, hw.holds.recycle chunks, hw.wire_eq, hw.answered⟩
  | @writeFail chunks rest done e hpc =>
    obtain ⟨ms, a, hl, hw⟩ := h.at_writing hpc
    exact Inv.exit_failure hl hw.le (hw.record hl) e (s.batch.recycle chunks)
  | @flush done hpc =>
    obtain ⟨ms, a, hl, hw⟩ := h.at_flushing hpc
    refine .live ms a done ⟨hl.1, hl.2, hl.3, hl.4, hl.5⟩ ⟨rfl, hw.le, hw.holds, ?_, rfl⟩
    simpa using hw.wire_eq
  | @flushFail done e hpc =>
    obtain ⟨ms, a, hl, hw⟩ := h.at_flushing hpc
    exact Inv.exit_failure hl hw.le (hw.record hl) e s.batch
  | signal hpc hw => exact h.signal hpc hw
  | signalled hpc hw => exact h.signalled hpc hw
  | returnDone hpc => exact h.returnDone hpc

end Step

/-- The invariant holds in the initial state. -/
theorem Inv.init : Inv State.init :=
  .live [] 0 none ⟨rfl, rfl, rfl, rfl, rfl⟩
    ⟨rfl, rfl, le_rfl, ⟨rfl, rfl, rfl, .nil _, nofun⟩, rfl, rfl⟩

/-- The invariant holds in every reachable state. -/
theorem Reachable.inv {s : State} (h : Reachable s) : Inv s := by
  induction h with
  | refl => exact Inv.init
  | tail _ hs ih => exact ih.step hs

/-- A batch under way can be written in one piece and flushed, in three steps. -/
theorem Reachable.flush_batch {s : State} {chunks : List Chunk} {rest : List UInt8} {done : Pending}
    (h : Reachable s) (hpc : s.pc = .writing chunks rest done) :
    Reachable { s with
      batch := s.batch.recycle chunks
      wire := s.wire ++ rest
      flushed := (s.wire ++ rest).length
      pc := .signalling done } := by
  have hwrite := Relation.ReflTransGen.tail h
    (Step.write (hpc.trans (by rw [List.append_nil rest])))
  exact (hwrite.tail (.writeDone rfl)).tail (.flush rfl)

/-! ### What the promises say -/

section Promises

variable {s s' : State} {ms : List OutMessage} {a : ℕ} {done : Pending} {p : ℕ}

/-- Of the items enqueued, those up to a dequeued message are messages. -/
theorem Record.take_enqueued (h : Record s ms a done) {n : ℕ} (hn : n ≤ ms.length) :
    s.enqueued.take n = messageItems (ms.take n) := by
  obtain ⟨rest, hrest⟩ := h.dequeued
  rw [← hrest, List.append_assoc, List.take_append_of_le_length (by simpa using hn),
    take_messageItems]

/-- An answered message is among the dequeued ones: its position is below their number. -/
theorem Record.lt_of_message (h : Record s ms a done) {m : OutMessage}
    (hm : s.enqueued[p]? = some (.message m p)) (hok : (p, .ok ()) ∈ s.resolutions) :
    p < ms.length := by
  by_contra hge
  have hlt := (h.lt_of_ok p hok).trans_le h.le
  obtain ⟨rest, hrest⟩ := h.dequeued
  rw [← hrest, List.getElem?_append_left hlt,
    List.getElem?_append_right (by simpa using hge)] at hm
  -- what is dequeued behind the messages is a `Done`
  obtain ⟨d, -, hd⟩ := List.mem_map.1 (List.mem_of_getElem? hm)
  exact Item.noConfusion hd

/-- An answered `Done` is the item behind the dequeued messages, and all of those are answered. -/
theorem Record.eq_of_done (h : Record s ms a done) {r : Except Error Unit}
    (hd : s.enqueued[p]? = some (.done r p)) (hok : (p, .ok ()) ∈ s.resolutions) :
    p = ms.length ∧ a = ms.length + 1 := by
  have hlt := h.lt_of_ok p hok
  have hle := h.le
  have hdone : (doneItems done).length ≤ 1 := by cases done <;> simp [doneItems]
  have hge : ms.length ≤ p := by
    by_contra hge
    have htake := congrArg (·[p]?) (h.take_enqueued le_rfl)
    simp only [List.getElem?_take, List.take_length, messageItems, List.getElem?_mapIdx,
      not_le.1 hge, if_true, hd] at htake
    obtain ⟨m, -, hm⟩ := Option.map_eq_some_iff.1 htake.symm
    exact Item.noConfusion hm
  rw [List.length_append, length_messageItems] at hle
  omega

/-- A message whose send promise resolved with `Ok` is written and flushed, as is every message
in front of it. -/
theorem Record.message_flushed (h : Record s ms a done) {m : OutMessage}
    (hm : s.enqueued[p]? = some (.message m p)) (hok : (p, .ok ()) ∈ s.resolutions) :
    bytesOf (messagesOf (s.enqueued.take (p + 1))) <+: s.wire.take s.flushed := by
  have hp : p + 1 ≤ a := h.lt_of_ok p hok
  rw [h.take_enqueued (h.lt_of_message hm hok), messagesOf_messageItems]
  exact (bytesOf_isPrefix (List.take_prefix_take_left hp)).trans h.answered

/-- When a shutdown promise resolves with `Ok`, every message in front of the `Done` is written
and flushed. -/
theorem Record.done_flushed (h : Record s ms a done) {r : Except Error Unit}
    (hd : s.enqueued[p]? = some (.done r p)) (hok : (p, .ok ()) ∈ s.resolutions) :
    bytesOf (messagesOf (s.enqueued.take p)) <+: s.wire.take s.flushed := by
  obtain ⟨rfl, rfl⟩ := h.eq_of_done hd hok
  have hans := h.answered
  rw [List.take_of_length_le (Nat.le_succ _)] at hans
  rwa [h.take_enqueued le_rfl, messagesOf_messageItems, List.take_length]

/-- The writer has answered its `Done` or returned: in both cases it will write nothing more. -/
def Finished (s : State) : Prop := ∃ result, s.pc = .answered result ∨ s.pc = .returned result

/-- A writer that has returned is finished. -/
theorem Finished.of_hasReturned (h : s.hasReturned = true) : Finished s := by
  obtain ⟨result, hpc⟩ := State.hasReturned_iff.1 h
  exact ⟨result, .inr hpc⟩

/-- A finished writer writes nothing more. Senders may still send, but nothing goes on the wire. -/
theorem Finished.step (h : Finished s) (hs : Step s s') : Finished s' ∧ s'.wire = s.wire := by
  obtain ⟨result, h⟩ := h
  cases hs with
  | send m _ | shutdown r _ =>
    rw [State.enqueue]
    dsimp only
    split <;> exact ⟨⟨result, h⟩, rfl⟩
  | dropSenders => exact ⟨⟨result, h⟩, rfl⟩
  | returnDone hpc => exact ⟨⟨_, .inr rfl⟩, rfl⟩
  | recv _ hpc | recvClosed hpc | tryRecv _ hpc | tryRecvEmpty hpc | write hpc | writeDone hpc
  | writeFail _ hpc | flush hpc | flushFail _ hpc | signal hpc | signalled hpc =>
    simp [hpc] at h

/-- A finished writer writes nothing more, in however many steps of the system. -/
theorem Finished.run (h : Finished s) (hs : Relation.ReflTransGen Step s s') :
    s'.wire = s.wire := by
  have hall : Finished s' ∧ s'.wire = s.wire := by
    induction hs with
    | refl => exact ⟨h, rfl⟩
    | tail _ hstep ih =>
      obtain ⟨hf, hw⟩ := ih.1.step hstep
      exact ⟨hf, hw.trans ih.2⟩
  exact hall.2

/-- After a `Done` is answered the writer is finished: nothing behind it is written. -/
theorem Inv.finished_of_done (h : Inv s) {r : Except Error Unit}
    (hd : s.enqueued[p]? = some (.done r p)) (hok : (p, .ok ()) ∈ s.resolutions) :
    Finished s := by
  cases h with
  | ended ms a done result hpc hr he => exact ⟨result, .inr hpc⟩
  | live ms a done hl hp =>
    have ha := ((hl.record_of_phase hp).eq_of_done hd hok).2
    rw [Phase] at hp
    split at hp
    case h_6 result hpc => exact ⟨result, .inl hpc⟩
    case h_1 => omega
    case h_2 => exact absurd hp.2.le (by omega)
    case h_3 => exact absurd hp.2.le (by omega)
    case h_4 => exact absurd hp.2.le (by omega)
    case h_5 => exact absurd hp.2.1 (by omega)
    case h_7 => exact hp.elim

/-- The end of an iteration resolves at most the `Done` and does not return yet. -/
theorem finish_spec (s : State) (done : Pending) :
    s.resolutions <+: (s.finish done).resolutions ∧ (s.finish done).hasReturned = false := by
  cases done with
  | none => exact ⟨List.prefix_rfl, rfl⟩
  | some d => exact ⟨List.prefix_append _ _, rfl⟩

/-- So does starting a write, which is the end of the iteration at once if the batch is empty. -/
theorem dispatch_spec (s : State) (done : Pending) :
    s.resolutions <+: (s.dispatch done).resolutions ∧ (s.dispatch done).hasReturned = false := by
  rw [State.dispatch]
  split
  · exact finish_spec s done
  · exact ⟨List.prefix_rfl, rfl⟩

/-- So does taking an item into the batch: no resolution is taken back, and the writer does not
return. -/
theorem handle_spec (al : Alloc) (s : State) (item : Item) :
    s.resolutions <+: (s.handle al item).resolutions ∧
      (s.handle al item).hasReturned = false := by
  cases item with
  | done result promise => exact dispatch_spec s _
  | message m promise =>
    rw [State.handle]
    dsimp only
    split
    · exact dispatch_spec
        { s with batch := s.batch.push al m, written := s.written ++ [promise] } none
    · exact ⟨List.prefix_rfl, rfl⟩

/-- A step adds resolutions; one that ends in a returned writer adds only the disconnected
error. -/
theorem Step.resolutions_spec (hs : Step s s') :
    s.resolutions <+: s'.resolutions ∧
      (s'.hasReturned = true →
        ∀ x ∈ s'.resolutions, x ∈ s.resolutions ∨ x.2 = .error writerStopped) := by
  have hexit (t : State) (d : Pending) (r : Except Error Unit) :
      t.resolutions <+: (t.exit d r).resolutions ∧
        ((t.exit d r).hasReturned = true →
          ∀ x ∈ (t.exit d r).resolutions, x ∈ t.resolutions ∨ x.2 = .error writerStopped) := by
    refine ⟨List.prefix_append _ _, fun _ x hx => ?_⟩
    refine (List.mem_append.1 hx).imp_right fun h => ?_
    obtain ⟨q, -, rfl⟩ := List.mem_map.1 h
    rfl
  have hrun {t : State} (h : s.resolutions <+: t.resolutions ∧ t.hasReturned = false) :
      s.resolutions <+: t.resolutions ∧ (t.hasReturned = true →
        ∀ x ∈ t.resolutions, x ∈ s.resolutions ∨ x.2 = .error writerStopped) :=
    ⟨h.1, fun hr => absurd hr (ne_true_of_eq_false h.2)⟩
  cases hs with
  | send m _ | shutdown r _ =>
    rw [State.enqueue]
    dsimp only
    split
    · refine ⟨List.prefix_append _ _, fun _ x hx => ?_⟩
      refine (List.mem_append.1 hx).imp_right fun h => ?_
      rw [List.mem_singleton.1 h]
    · exact ⟨List.prefix_rfl, fun _ x hx => .inl hx⟩
  | dropSenders => exact ⟨List.prefix_rfl, fun _ x hx => .inl hx⟩
  | @recv item rest al _ _ => exact hrun (handle_spec al { s with queue := rest } item)
  | recvClosed _ _ _ => exact hexit s _ _
  | @tryRecv item rest al _ _ => exact hrun (handle_spec al { s with queue := rest } item)
  | tryRecvEmpty _ => exact hrun (dispatch_spec s none)
  | write _ | writeDone _ | flush _ => exact hrun ⟨List.prefix_rfl, rfl⟩
  | @writeFail chunks rest done e _ =>
    exact hexit { s with failure := some e, batch := s.batch.recycle chunks } done _
  | @flushFail done e _ => exact hexit { s with failure := some e } done _
  | signal hpc _ =>
    refine hrun ⟨List.prefix_append _ _, ?_⟩
    simp only [State.hasReturned, State.resolve, hpc]
  | signalled _ _ => exact hrun (finish_spec s _)
  | returnDone _ => exact hexit s _ _

/-- Resolutions are final. -/
theorem Step.resolutions_run (hs : Relation.ReflTransGen Step s s') :
    s.resolutions <+: s'.resolutions := by
  induction hs with
  | refl => exact List.prefix_rfl
  | tail _ hstep ih => exact ih.trans hstep.resolutions_spec.1

/-- Collecting items puts nothing on the wire. -/
theorem wire_dispatch (s : State) (done : Pending) : (s.dispatch done).wire = s.wire := by
  rw [State.dispatch]
  split
  · cases done <;> rfl
  · rfl

/-- Taking an item into the batch puts nothing on the wire: bytes go out in `write` steps only. -/
theorem wire_handle (al : Alloc) (s : State) (item : Item) :
    (s.handle al item).wire = s.wire := by
  cases item with
  | done result promise => exact wire_dispatch s _
  | message m promise =>
    simp only [State.handle]
    split
    · exact wire_dispatch
        { s with batch := s.batch.push al m, written := s.written ++ [promise] } none
    · rfl

/-- The wire only grows: what was written is not taken back. -/
theorem Step.wire_isPrefix (hs : Step s s') : s.wire <+: s'.wire := by
  cases hs with
  | send m _ | shutdown r _ =>
    simp only [State.enqueue]
    split <;> exact List.prefix_rfl
  | recv al _ _ | tryRecv al _ _ => rw [wire_handle]
  | tryRecvEmpty _ => rw [wire_dispatch]
  | write _ => exact List.prefix_append _ _
  | @signalled done _ _ => cases done <;> exact List.prefix_rfl
  | dropSenders | recvClosed _ _ _ | writeDone _ | writeFail _ _ | flush _ | flushFail _ _
  | signal _ _ | returnDone _ => exact List.prefix_rfl

/-- Resolved promises are distinct, and each is resolved with `Ok` or the disconnected error. -/
theorem Inv.resolutions_spec (h : Inv s) :
    (s.resolutions.map Prod.fst).Nodup ∧
      ∀ p v, (p, v) ∈ s.resolutions → v = .ok () ∨ v = .error writerStopped := by
  refine ⟨?_, ?_⟩
  · cases h with
    | live ms a done hl hp =>
      rw [hl.resolutions_eq, List.map_map]
      simpa [Function.comp_def] using List.nodup_range
    | ended ms a done result hpc hr he =>
      rw [he.resolved]
      exact List.nodup_range
  · obtain ⟨ms, a, done, hr⟩ := h.record
    intro p v hv
    cases v with
    | ok u => exact .inl rfl
    | error e => exact .inr (congrArg Except.error (hr.eq_of_error p e hv))

/-- A returned writer has resolved every promise and returned its result. -/
theorem Inv.returned_spec (h : Inv s) {result : Except Error Unit}
    (hpc : s.pc = .returned result) :
    s.resolutions.map Prod.fst = List.range s.enqueued.length ∧ result = resultOf s := by
  cases h with
  | live ms a done hl hp =>
    simp only [Phase, hpc] at hp
  | ended ms a done r hpc' hr he =>
    cases hpc.symm.trans hpc'
    exact ⟨he.resolved, he.result_eq⟩

end Promises

/-- The completion signals of the writer are truthful, in every reachable state. A send promise
that resolved with `Ok` has its message, and all in front of it, written and flushed. A shutdown
promise that resolved with `Ok` has every message in front of its `Done` written and flushed, and
nothing is written after it. A promise is resolved once and for all; a returned writer has
resolved all of them, and those that were not resolved when it returned, or came later, are
resolved with the disconnected error. The result is the failing I/O error, or else what the first
`Done` carries, or else `Ok`. -/
theorem completion_truthful {s : State} (h : Reachable s) :
    (∀ (p : ℕ) (m : OutMessage), s.enqueued[p]? = some (.message m p) →
      (p, .ok ()) ∈ s.resolutions →
      bytesOf (messagesOf (s.enqueued.take (p + 1))) <+: s.wire.take s.flushed) ∧
    (∀ (p : ℕ) (r : Except Error Unit), s.enqueued[p]? = some (.done r p) →
      (p, .ok ()) ∈ s.resolutions →
      bytesOf (messagesOf (s.enqueued.take p)) <+: s.wire.take s.flushed ∧
        ∀ s', Relation.ReflTransGen Step s s' → s'.wire = s.wire) ∧
    ((s.resolutions.map Prod.fst).Nodup ∧
      (∀ p v, (p, v) ∈ s.resolutions → v = .ok () ∨ v = .error writerStopped) ∧
      (∀ s', Relation.ReflTransGen Step s s' → s.resolutions <+: s'.resolutions) ∧
      (∀ s' r, Step s s' → s'.pc = .returned r →
        s'.resolutions.map Prod.fst = List.range s'.enqueued.length ∧
        ∀ p < s'.enqueued.length, p ∉ s.resolutions.map Prod.fst →
          (p, .error writerStopped) ∈ s'.resolutions)) ∧
    (∀ r, s.pc = .returned r →
      r = match s.failure with
        | some e => .error (.ofIo e)
        | none => (firstDone s.enqueued).getD (.ok ())) := by
  have hinv := h.inv
  obtain ⟨ms, a, done, hr⟩ := hinv.record
  refine ⟨fun p m hm hok => hr.message_flushed hm hok, fun p r hd hok => ⟨hr.done_flushed hd hok,
    fun s' hs => (hinv.finished_of_done hd hok).run hs⟩, ⟨hinv.resolutions_spec.1,
    hinv.resolutions_spec.2, fun s' hs => Step.resolutions_run hs, ?_⟩,
    fun r hpc => (hinv.returned_spec hpc).2⟩
  intro s' r hs hpc
  have hall := ((hinv.step hs).returned_spec hpc).1
  refine ⟨hall, fun p hp hnew => ?_⟩
  have hmem : p ∈ s'.resolutions.map Prod.fst := by
    rw [hall]
    exact List.mem_range.2 hp
  obtain ⟨⟨q, v⟩, hv, rfl⟩ := List.mem_map.1 hmem
  have hret : s'.hasReturned = true := State.hasReturned_iff.2 ⟨r, hpc⟩
  rcases hs.resolutions_spec.2 hret _ hv with hold | hv'
  · exact absurd (List.mem_map_of_mem hold) hnew
  · cases hv'
    exact hv

/-- A message is sent, written, flushed and signalled. -/
theorem completion_truthful_sample :
    ∃ s, Reachable s ∧ (0, .ok ()) ∈ s.resolutions ∧
      bytesOf [OutMessage.sample] <+: s.wire.take s.flushed := by
  have h1 : Reachable _ := .tail .refl (.send .sample rfl)
  have h2 : Reachable _ := .tail h1 (.recv .exact rfl rfl)
  have h3 : Reachable _ := .tail h2 (.tryRecvEmpty rfl)
  have h4 : Reachable _ := .tail (h3.flush_batch rfl) (.signal rfl rfl)
  exact ⟨_, h4, List.mem_cons_self, (completion_truthful h4).1 0 .sample rfl List.mem_cons_self⟩

end WriteLoop

end Ogurpchik
