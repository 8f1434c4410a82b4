import Ogurpchik.Completion

/-!
# The Size of a Write

The writer tests its two thresholds after each message it has pushed, so a batch may exceed them by
the last message in it and by nothing more. This module bounds every vectored write by that message,
over every interleaving of the senders and the writer.

How many chunks a message adds depends on what is at the end of the batch: its table goes into an
inline chunk that may be there already, small segments join the chunk in front of them, and a large
one takes a chunk of its own. It is never more than one for the table and one for each segment
(`Batch.length_push_le`).

## Main definitions

* `State.LastPushed`: the message that was pushed last.
* `Room`, `Within`: a batch under both thresholds, and one that a last message took past them.
* `Bounded`: the invariant, by where the writer waits.

## Main results

* `Batch.length_push_le`: what one message adds.
* `vectored_write_bounded`: **every vectored write** is bounded by one message past the thresholds.
-/

namespace Ogurpchik

/-! ### What one message adds -/

namespace Batch

/-- At most one chunk is opened for bytes that are copied. -/
theorem length_inlineTail_le (b : Batch) : b.inlineTail.chunks.length ≤ b.chunks.length + 1 := by
  rw [inlineTail]
  split
  · exact Nat.le_succ _
  · split <;> simp

/-- Copied bytes go into the chunk that is open, so there are as many chunks as before. -/
@[simp] theorem length_extendTail (al : Alloc) (bytes : List UInt8) (b : Batch) :
    (b.extendTail al bytes).chunks.length = b.chunks.length := by
  rw [extendTail]
  split
  case h_1 tail hlast =>
    have hpos : 0 < b.chunks.length := by
      rw [List.length_pos_iff]
      rintro hnil
      rw [hnil] at hlast
      cases hlast
    simp only [List.length_append, List.length_dropLast, List.length_singleton]
    omega
  case h_2 => rfl

/-- The entries of the table go into the chunk that is open. -/
theorem length_extendEntries (al : Alloc) (segments : Segments) (b : Batch) :
    (segments.foldl (fun b s => b.extendTail al (LittleEndian.leBytes 4 (s.length / WORD)))
      b).chunks.length = b.chunks.length := by
  induction segments generalizing b with
  | nil => rfl
  | cons s segments ih => rw [List.foldl_cons, ih, length_extendTail]

/-- The table of a message takes one more chunk at most: the first of its bytes may open one. -/
theorem length_pushTable_le (al : Alloc) (segments : Segments) (b : Batch) :
    (b.pushTable al segments).chunks.length ≤ b.chunks.length + 1 := by
  have htail := length_inlineTail_le b
  rw [pushTable]
  dsimp only
  split_ifs
  · rw [length_extendTail, length_extendEntries, length_extendTail]
    exact htail
  · rw [length_extendEntries, length_extendTail]
    exact htail

/-- A segment takes one more chunk at most, copied or referred to. -/
theorem length_pushSegment_le (al : Alloc) (b : Batch) (segment : List UInt8) :
    (b.pushSegment al segment).chunks.length ≤ b.chunks.length + 1 := by
  have htail := length_inlineTail_le b
  rw [pushSegment]
  split_ifs
  · exact Nat.le_succ _
  · rw [length_extendTail]
    exact htail
  · simp

/-- **One message** adds at most a chunk for its table and one for each segment. -/
theorem length_push_le (al : Alloc) (b : Batch) (m : OutMessage) :
    (b.push al m).chunks.length ≤ b.chunks.length + 1 + m.segments.length := by
  have hfold : ∀ (segments : Segments) (b : Batch),
      (segments.foldl (pushSegment al) b).chunks.length ≤ b.chunks.length + segments.length := by
    intro segments
    induction segments with
    | nil => exact fun b => Nat.le_refl _
    | cons s segments ih =>
      intro b
      have hstep := length_pushSegment_le al b s
      have hrest := ih (b.pushSegment al s)
      rw [List.foldl_cons, List.length_cons]
      omega
  have htable := length_pushTable_le al m.segments b
  have hsegments := hfold m.segments (b.pushTable al m.segments)
  rw [push]
  omega

end Batch

namespace WriteLoop

/-! ### The invariant -/

/-- `m` is the message that was pushed last of those whose signals the writer holds. -/
def State.LastPushed (s : State) (m : OutMessage) : Prop :=
  ∃ earlier p, s.written = earlier ++ [p] ∧ s.enqueued[p]? = some (.message m p)

/-- A batch that no threshold stops: the writer looks for more items. -/
structure Room (b : Batch) : Prop where
  chunks_lt : b.chunkCount < BATCH_CHUNKS
  bytes_lt : b.byteCount < BATCH_BYTES

/-- Chunks that are past the thresholds by one message at most: the one that made the batch full. -/
structure Within (chunks : List Chunk) (m : OutMessage) : Prop where
  chunks_le : chunks.length ≤ BATCH_CHUNKS + m.segments.length
  bytes_lt : (Chunk.concat chunks).length < BATCH_BYTES + (serialize m.segments).length

/-- What holds of the batch where the writer waits: below the thresholds while it collects, and past
them by one message while it writes. -/
def Bounded (s : State) : Prop :=
  match s.pc with
  | .tryRecv => Room s.batch ∧ ∃ m, s.LastPushed m
  | .writing chunks _ _ => chunks ≠ [] ∧ ∃ m, s.LastPushed m ∧ Within chunks m
  | _ => True

section Bounded

variable {s t : State} {b : Batch} {bytes : List UInt8} {ms : List OutMessage} {a : ℕ}
  {done : Pending}

/-- An empty batch is below both thresholds. -/
theorem Room.of_empty (h : Batch.Holds INLINE_LIMIT b []) : Room b := by
  have hchunks : b.chunks = [] := h.chunks_eq_nil_iff.mpr rfl
  refine ⟨?_, ?_⟩
  · rw [Batch.chunkCount, hchunks]
    decide
  · rw [Batch.byteCount, h.bytes_eq]
    decide

/-- A batch with room is within the bound of any message. -/
theorem Room.within (h : Room b) (hb : Batch.Holds INLINE_LIMIT b bytes) (m : OutMessage) :
    Within b.chunks m := by
  have hchunks : b.chunks.length < BATCH_CHUNKS := h.chunks_lt
  have hbytes : b.bytes < BATCH_BYTES := h.bytes_lt
  refine ⟨by omega, ?_⟩
  rw [hb.concat_eq, ← hb.bytes_eq]
  omega

/-- A message takes a batch with room past the thresholds by its own size at most. -/
theorem Room.push (h : Room b) (hb : Batch.Holds INLINE_LIMIT b bytes) (al : Alloc)
    (m : OutMessage) : Within (b.push al m).chunks m := by
  have hchunks : b.chunks.length < BATCH_CHUNKS := h.chunks_lt
  have hbytes : b.bytes < BATCH_BYTES := h.bytes_lt
  have hpush := b.length_push_le al m
  refine ⟨by omega, ?_⟩
  rw [(hb.push al m).concat_eq, List.length_append, ← hb.bytes_eq]
  omega

/-- What was enqueued stays enqueued. -/
theorem State.LastPushed.mono {m : OutMessage} (h : s.LastPushed m)
    (hwritten : t.written = s.written) (henqueued : s.enqueued <+: t.enqueued) :
    t.LastPushed m := by
  obtain ⟨earlier, p, hw, hp⟩ := h
  obtain ⟨later, hlater⟩ := henqueued
  refine ⟨earlier, p, hwritten.trans hw, ?_⟩
  rw [← hlater, List.getElem?_append_left (List.getElem?_eq_some_iff.mp hp).1]
  exact hp

/-- The end of an iteration says nothing of the batch. -/
theorem bounded_finish (s : State) (done : Pending) : Bounded (s.finish done) := by
  cases done with
  | none => trivial
  | some d => trivial

/-- A batch that is written is the one that was collected, up to the message that filled it. -/
theorem bounded_dispatch (done : Pending)
    (h : s.batch.chunks ≠ [] → ∃ m, s.LastPushed m ∧ Within s.batch.chunks m) :
    Bounded (s.dispatch done) := by
  rw [State.dispatch]
  split
  case isTrue => exact bounded_finish s done
  case isFalse hempty =>
    have hne : s.batch.chunks ≠ [] := by
      rwa [Batch.isEmpty, List.isEmpty_iff] at hempty
    exact ⟨hne, h hne⟩

/-- The next item of a batch with room: it leaves room, or is the message the batch is past its
thresholds by. -/
theorem bounded_handle {item : Item} {rest : List Item} (al : Alloc) (hl : Ledger s ms a none)
    (hc : Collecting s.toOutput ms a) (hroom : Room s.batch)
    (hlast : s.batch.chunks ≠ [] → ∃ m, s.LastPushed m) (hq : s.queue = item :: rest) :
    Bounded ({ s with queue := rest }.handle al item) := by
  cases item with
  | done result promise =>
    refine bounded_dispatch _ fun hne => ?_
    obtain ⟨m, hm⟩ := hlast hne
    exact ⟨m, hm, hroom.within hc.holds m⟩
  | message m promise =>
    have henqueued : s.enqueued = messageItems ms ++ .message m promise :: rest := by
      rw [hl.enqueued_eq, hq, doneItems, Option.toList_none, List.map_nil, List.append_nil]
    have hpromise : promise = ms.length := by
      have hnumbered := hl.numbered
      rw [henqueued] at hnumbered
      exact hnumbered.promise_eq.trans (length_messageItems ms)
    have hpushed : State.LastPushed { s with
        queue := rest
        batch := s.batch.push al m
        written := s.written ++ [promise] } m := by
      refine ⟨s.written, promise, rfl, ?_⟩
      rw [henqueued, hpromise, ← length_messageItems ms, List.getElem?_append_right le_rfl,
        Nat.sub_self, List.getElem?_cons_zero]
    rw [State.handle]
    dsimp only
    split
    · exact bounded_dispatch none fun _ => ⟨m, hpushed, hroom.push hc.holds al m⟩
    · next hopen =>
      rw [not_or, not_le, not_le] at hopen
      exact ⟨⟨hopen.1, hopen.2⟩, m, hpushed⟩

/-- An item that enters the queue does not change the batch. -/
theorem bounded_enqueue (h : Bounded s) (item : Item) : Bounded (s.enqueue item) := by
  have hlast {m : OutMessage} (hm : s.LastPushed m) : (s.enqueue item).LastPushed m := by
    refine hm.mono ?_ ⟨[item], ?_⟩
    · simp only [State.enqueue]
      split <;> rfl
    · simp only [State.enqueue]
      split <;> rfl
  rw [Bounded, s.pc_enqueue, s.batch_enqueue]
  rw [Bounded] at h
  split
  · next hwait =>
    simp only [hwait] at h
    obtain ⟨hroom, m, hm⟩ := h
    exact ⟨hroom, m, hlast hm⟩
  · next chunks _ _ hwait =>
    simp only [hwait] at h
    obtain ⟨hne, m, hm, hwithin⟩ := h
    exact ⟨hne, m, hlast hm, hwithin⟩
  · trivial

/-- Where the writer looks for more, its batch is below the thresholds. -/
theorem Bounded.at_tryRecv (h : Bounded s) (hpc : s.pc = .tryRecv) :
    Room s.batch ∧ ∃ m, s.LastPushed m := by
  rwa [Bounded, hpc] at h

/-- What a write is given is a batch below the thresholds and one message. -/
theorem Bounded.at_writing {chunks : List Chunk} {rest : List UInt8} (h : Bounded s)
    (hpc : s.pc = .writing chunks rest done) :
    chunks ≠ [] ∧ ∃ m, s.LastPushed m ∧ Within chunks m := by
  rwa [Bounded, hpc] at h

/-- **Every step** keeps the bound: a batch is added to only while it has room. -/
theorem Bounded.step (hinv : Inv s) (h : Bounded s) (hs : Step s t) : Bounded t := by
  cases hs with
  | send m _ | shutdown result _ => exact bounded_enqueue h _
  | dropSenders => exact h
  | recv al hpc hq =>
    -- the batch is empty here
    obtain ⟨ms, hl, hc⟩ := hinv.at_next hpc
    have hempty := hc.flushed.holds
    refine bounded_handle al hl hc (.of_empty hempty) (fun hne => ?_) hq
    exact absurd (hempty.chunks_eq_nil_iff.mpr rfl) hne
  | tryRecv al hpc hq =>
    obtain ⟨ms, a, hl, hc⟩ := hinv.at_tryRecv hpc
    obtain ⟨hroom, hlast⟩ := h.at_tryRecv hpc
    exact bounded_handle al hl hc hroom (fun _ => hlast) hq
  | tryRecvEmpty hpc =>
    obtain ⟨ms, a, hl, hc⟩ := hinv.at_tryRecv hpc
    obtain ⟨hroom, m, hm⟩ := h.at_tryRecv hpc
    exact bounded_dispatch none fun _ => ⟨m, hm, hroom.within hc.holds m⟩
  | write hpc =>
    obtain ⟨hne, m, hm, hwithin⟩ := h.at_writing hpc
    exact ⟨hne, m, hm, hwithin⟩
  | signal hpc _ =>
    rw [Bounded]
    simp only [State.resolve, hpc]
  | signalled _ _ => exact bounded_finish s _
  | recvClosed _ _ _ | writeDone _ | writeFail _ _ | flush _ | flushFail _ _ | returnDone _ =>
    trivial

/-- The bound along every interleaving of senders and writer. -/
theorem Reachable.bounded (h : Reachable s) : Bounded s := by
  induction h with
  | refl => trivial
  | tail hreach hs ih => exact ih.step (Reachable.inv hreach) hs

end Bounded

/-- **Every vectored write** is bounded by one message past the thresholds. Whatever is enqueued and
whenever it arrives, the chunks of a write are not empty, and with `m` the last message pushed into
the batch they are at most 64 more than its segments and have less than 1048576 bytes more than its
stream form. While no message has more than 511 segments, no write has more than 575 chunks. -/
theorem vectored_write_bounded {s : State} {chunks : List Chunk} {rest : List UInt8}
    {done : Pending} (h : Reachable s) (hpc : s.pc = .writing chunks rest done) :
    chunks ≠ [] ∧
    (∃ earlier p m, s.written = earlier ++ [p] ∧ s.enqueued[p]? = some (.message m p) ∧
      chunks.length ≤ 64 + m.segments.length ∧
      (Chunk.concat chunks).length < 1048576 + (serialize m.segments).length) ∧
    ((∀ m p, .message m p ∈ s.enqueued → m.segments.length ≤ 511) → chunks.length ≤ 575) := by
  obtain ⟨hne, m, ⟨earlier, p, hwritten, hp⟩, hwithin⟩ := h.bounded.at_writing hpc
  have hchunks : chunks.length ≤ 64 + m.segments.length := hwithin.chunks_le
  refine ⟨hne, ⟨earlier, p, m, hwritten, hp, hchunks, hwithin.bytes_lt⟩, fun hsegments => ?_⟩
  have hm := hsegments m p (List.mem_of_getElem? hp)
  omega

/-- A message is sent and its batch is being written, within the bound for its segments. -/
theorem vectored_write_bounded_sample :
    ∃ s chunks rest done, Reachable s ∧ s.pc = .writing chunks rest done ∧ chunks.length ≤ 575 := by
  have h1 : Reachable _ := .tail .refl (.send .sample rfl)
  have h2 : Reachable _ := .tail h1 (.recv .exact rfl rfl)
  have h3 : Reachable _ := .tail h2 (.tryRecvEmpty rfl)
  refine ⟨_, _, _, _, h3, rfl, (vectored_write_bounded h3 rfl).2.2 ?_⟩
  intro m p hm
  obtain ⟨rfl, -⟩ := Item.message.inj (List.mem_singleton.mp hm)
  decide

end WriteLoop

end Ogurpchik
