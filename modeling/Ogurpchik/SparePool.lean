import Mathlib.Data.List.Count
import Mathlib.Data.List.Perm.Basic
import Ogurpchik.Transition
import Ogurpchik.WriteLoop

/-!
# The Spare Buffers of a Batch

A batch keeps the buffers of written inline chunks for later rounds and counts their capacities.
The counter goes up in `recycle`, by what a buffer has grown to by then, and down in `inline_tail`,
by what the buffer has when it is reused. If the two amounts differed for one buffer, the counter
would drift from round to round until a subtraction went below zero.

`Batch` does not tell one buffer from another of the same contents. Here the batch is written once
more with names for the buffers, `Vec::new` taking the next unused one, and with a result only where
the source does not panic. Without the names every operation is the one of `Batch`. A `World` is
such a batch together with the chunks that its users hold: those it has handed out, and others. They
may change the buffers in any way before they give chunks back, in any order and any selection.

## Main definitions

* `Buffer`, `Batch`: buffers with names, and the batch over them.
* `World`, `Step`, `Reachable`: a batch and its users.
* `Accounted`: what holds of a batch whose users hold certain buffers.

## Main results

* `refines_push`: a push does not panic, and without the names it is `Batch.push`.
* `Reachable.accounted`: every reachable batch is accounted for.
* `Carried.step`: the writer uses its batch as the users of a `World` do.
* `spare_pool_accounted`: **the pool over every sequence of operations**, and of a connection.
-/

namespace Ogurpchik

namespace SparePool

open LittleEndian Transition

/-! ### Batches over named buffers -/

/-- A buffer with its name. Growing does not change the name, and moving a buffer from the pool to a
chunk does not either: it is the same allocation of the user. -/
structure Buffer where
  id : ℕ
  vec : Vec

/-- A chunk over a named buffer, so that it can be told whether a buffer is in two places. -/
inductive Chunk
  | inline (buf : Buffer)
  | segment (bytes : List UInt8)

namespace Chunk

/-- The chunk without the name: a chunk of the batch that is modelled in `Batch`. -/
def erase : Chunk → Ogurpchik.Chunk
  | inline buf => .inline buf.vec
  | segment bytes => .segment bytes

/-- The name of the buffer of a chunk; a segment that is referred to has none. -/
def ids : Chunk → List ℕ
  | inline buf => [buf.id]
  | segment _ => []

/-- The chunk after its buffer has changed: whoever holds a chunk may do that, and the name
stays. -/
def alter (f : Buffer → Vec) : Chunk → Chunk
  | inline buf => .inline ⟨buf.id, f buf⟩
  | segment bytes => .segment bytes

/-- A buffer keeps its name when it changes. -/
@[simp] theorem ids_alter (f : Buffer → Vec) (c : Chunk) : (c.alter f).ids = c.ids := by
  cases c <;> rfl

end Chunk

/-- The names of the buffers of some chunks, in order. -/
def idsOf (chunks : List Chunk) : List ℕ := chunks.flatMap Chunk.ids

/-- No chunks have no buffers. -/
@[simp] theorem idsOf_nil : idsOf [] = [] := rfl

/-- The names of the first chunk stand first. -/
@[simp] theorem idsOf_cons (c : Chunk) (cs : List Chunk) :
    idsOf (c :: cs) = c.ids ++ idsOf cs := rfl

/-- The names of two batches of chunks are those of the one and those of the other. -/
@[simp] theorem idsOf_append (cs ds : List Chunk) : idsOf (cs ++ ds) = idsOf cs ++ idsOf ds :=
  List.flatMap_append

/-- The buffers of chunks keep their names when they change. -/
@[simp] theorem idsOf_alter (f : Buffer → Vec) (cs : List Chunk) :
    idsOf (cs.map (.alter f)) = idsOf cs := by
  rw [idsOf, List.flatMap_map]
  simp only [Chunk.ids_alter]
  rfl

/-- The fields of the source, and the next unused name. -/
structure Batch where
  chunks : List Chunk
  spare : List Buffer
  spareBytes : ℕ
  inlineLimit : ℕ
  bytes : ℕ
  fresh : ℕ

namespace Batch

/-- An empty batch. -/
def new (inlineLimit : ℕ) : Batch := ⟨[], [], 0, inlineLimit, 0, 0⟩

/-- The batch without the names, to compare with the batch of `Batch`. -/
def erase (b : Batch) : Ogurpchik.Batch where
  chunks := b.chunks.map Chunk.erase
  spare := b.spare.map Buffer.vec
  spareBytes := b.spareBytes
  inlineLimit := b.inlineLimit
  bytes := b.bytes

/-- The names of the buffers in a batch, in its pool and in its chunks. -/
def ids (b : Batch) : List ℕ := b.spare.map Buffer.id ++ idsOf b.chunks

/-- `matches!(self.chunks.last(), Some(Chunk::Inline(_)))`. -/
def endsInline (b : Batch) : Bool :=
  match b.chunks.getLast? with
  | some (.inline _) => true
  | _ => false

/-- `inline_tail`, with the subtraction checked: where the counter would go below zero the code
panics, and here the result is none. -/
def inlineTail (b : Batch) : Option Batch :=
  if b.endsInline then some b
  else
    match b.spare.getLast? with
    | some buf =>
        if buf.vec.cap ≤ b.spareBytes then
          some { b with
            chunks := b.chunks ++ [.inline buf]
            spare := b.spare.dropLast
            spareBytes := b.spareBytes - buf.vec.cap }
        else none
    | none =>
        some { b with
          chunks := b.chunks ++ [.inline ⟨b.fresh, Vec.new⟩]
          fresh := b.fresh + 1 }

/-- `extend_from_slice` through the reference that `inlineTail` returned; it is `unreachable!` that
there is none. -/
def extendTail (al : Alloc) (bytes : List UInt8) (b : Batch) : Option Batch :=
  match b.chunks.getLast? with
  | some (.inline tail) =>
      some { b with
        chunks := b.chunks.dropLast ++ [.inline ⟨tail.id, tail.vec.extendFromSlice al bytes⟩] }
  | _ => none

/-- Write the segment table of a message behind what is there, with the buffers named and the
subtraction checked. -/
def pushTable (al : Alloc) (segments : Segments) (b : Batch) : Option Batch := do
  let b ← b.inlineTail
  let b ← b.extendTail al (leBytes 4 (Batch.countField segments))
  let b ← segments.foldlM (fun b s => b.extendTail al (leBytes 4 (s.length / WORD))) b
  let b ← (if segments.length % 2 = 0 then b.extendTail al [0, 0, 0, 0] else some b : Option Batch)
  some { b with bytes := b.bytes + tableLen segments.length }

/-- Add one segment, copied or referred to, with the buffers named and the subtraction checked. -/
def pushSegment (al : Alloc) (b : Batch) (segment : List UInt8) : Option Batch :=
  if segment = [] then some b
  else do
    let b ←
      if segment.length ≤ b.inlineLimit then b.inlineTail.bind (extendTail al segment)
      else some { b with chunks := b.chunks ++ [.segment segment] }
    some { b with bytes := b.bytes + segment.length }

/-- `push`: add a message, its table and its segments, or panic on the way. -/
def push (al : Alloc) (b : Batch) (message : OutMessage) : Option Batch := do
  let b ← b.pushTable al message.segments
  message.segments.foldlM (pushSegment al) b

/-- `take`: hand the chunks out and start over, with the pool as it was. -/
def take (b : Batch) : List Chunk × Batch := (b.chunks, { b with chunks := [], bytes := 0 })

/-- Keep the buffer of one written chunk if the budget allows, cleared and under its own name. -/
def recycleChunk (b : Batch) : Chunk → Batch
  | .inline buf =>
      if b.spareBytes + buf.vec.cap ≤ SPARE_BUDGET then
        { b with
          spare := b.spare ++ [⟨buf.id, buf.vec.clear⟩]
          spareBytes := b.spareBytes + buf.vec.cap }
      else b
  | .segment _ => b

/-- `recycle`: take written chunks back, and drop those that the batch had collected meanwhile. -/
def recycle (b : Batch) (chunks : List Chunk) : Batch :=
  { chunks.foldl recycleChunk b with chunks := [] }

/-! ### Without the names -/

/-- Without names a new batch is a new batch. -/
theorem erase_new (inlineLimit : ℕ) : (new inlineLimit).erase = .new inlineLimit := rfl

/-- Without names, `take` is `take`. -/
theorem erase_take (b : Batch) :
    b.take.2.erase = b.erase.take.2 ∧ b.take.1.map Chunk.erase = b.erase.take.1 :=
  ⟨rfl, rfl⟩

/-- Without names, a chunk is recycled as it was. -/
theorem erase_recycleChunk (b : Batch) (c : Chunk) :
    (b.recycleChunk c).erase = b.erase.recycleChunk c.erase := by
  cases c with
  | segment bytes => rfl
  | inline buf =>
    by_cases hbudget : b.spareBytes + buf.vec.cap ≤ SPARE_BUDGET
    · simp [recycleChunk, Ogurpchik.Batch.recycleChunk, Chunk.erase, erase, hbudget]
    · simp [recycleChunk, Ogurpchik.Batch.recycleChunk, Chunk.erase, erase, hbudget]

/-- So are several, by induction on how many are left. -/
theorem erase_recycle (b : Batch) (cs : List Chunk) :
    (b.recycle cs).erase = b.erase.recycle (cs.map Chunk.erase) := by
  have hfold : (cs.foldl recycleChunk b).erase =
      (cs.map Chunk.erase).foldl Ogurpchik.Batch.recycleChunk b.erase := by
    induction cs generalizing b with
    | nil => rfl
    | cons c cs ih => rw [List.foldl_cons, ih, erase_recycleChunk, List.map_cons, List.foldl_cons]
  rw [Ogurpchik.Batch.recycle, ← hfold]
  rfl

end Batch

/-! ### The accounts of a batch -/

/-- Names that are all different and all used: no buffer is in two places, and the next name is
new. -/
structure Named (ids : List ℕ) (fresh : ℕ) : Prop where
  nodup : ids.Nodup
  lt : ∀ id ∈ ids, id < fresh

section Named

variable {ids ids' : List ℕ} {fresh : ℕ}

/-- The order of names does not matter. -/
theorem Named.perm (h : Named ids fresh) (hp : ids'.Perm ids) : Named ids' fresh :=
  ⟨hp.nodup_iff.mpr h.nodup, fun id hid => h.lt id (hp.mem_iff.mp hid)⟩

/-- Names may be dropped. -/
theorem Named.sublist (h : Named ids fresh) (hs : ids'.Sublist ids) : Named ids' fresh :=
  ⟨hs.nodup h.nodup, fun id hid => h.lt id (hs.subset hid)⟩

/-- The next name is unused. -/
theorem Named.cons (h : Named ids fresh) : Named (fresh :: ids) (fresh + 1) := by
  refine ⟨List.nodup_cons.mpr ⟨fun hmem => lt_irrefl _ (h.lt fresh hmem), h.nodup⟩, ?_⟩
  intro id hid
  rcases List.mem_cons.mp hid with rfl | hid
  · exact Nat.lt_succ_self _
  · exact Nat.lt_succ_of_lt (h.lt id hid)

end Named

/-- The counter is the capacity of the spare buffers and within the budget, these are empty, and no
buffer is there twice, in the batch or among those that the users hold. -/
structure Accounted (held : List ℕ) (b : Batch) : Prop where
  sum_eq : (b.spare.map fun buf => buf.vec.cap).sum = b.spareBytes
  le_budget : b.spareBytes ≤ SPARE_BUDGET
  empty : ∀ buf ∈ b.spare, buf.vec.data = []
  named : Named (b.ids ++ held) b.fresh

/-- The last chunk is an inline one, so that copied bytes need no new chunk. -/
def EndsInline (b : Batch) : Prop := ∃ cs buf, b.chunks = cs ++ [.inline buf]

section Accounted

variable {held : List ℕ} {b : Batch}

/-- A spare buffer is reused: the counter covers it, so the subtraction does not go below zero. -/
theorem Accounted.reuse (h : Accounted held b) {spare : List Buffer} {buf : Buffer}
    (hs : b.spare = spare ++ [buf]) :
    buf.vec.cap ≤ b.spareBytes ∧ Accounted held { b with
      chunks := b.chunks ++ [.inline buf]
      spare := spare
      spareBytes := b.spareBytes - buf.vec.cap } := by
  have hsum := h.sum_eq
  have hbudget := h.le_budget
  rw [hs, List.map_append, List.sum_append, List.map_singleton, List.sum_singleton] at hsum
  refine ⟨by omega, ?_, ?_, ?_, h.named.perm ?_⟩
  · exact (Nat.sub_eq_of_eq_add hsum.symm).symm
  · exact (Nat.sub_le _ _).trans hbudget
  · intro u hu
    exact h.empty u (hs ▸ List.mem_append_left _ hu)
  · refine List.perm_iff_count.mpr fun id => ?_
    simp only [Batch.ids, hs, idsOf_append, idsOf_cons, idsOf_nil, Chunk.ids, List.map_append,
      List.map_cons, List.map_nil, List.append_nil, List.count_append]
    omega

/-- `Vec::new` takes the next name. -/
theorem Accounted.create (h : Accounted held b) : Accounted held { b with
    chunks := b.chunks ++ [.inline ⟨b.fresh, Vec.new⟩]
    fresh := b.fresh + 1 } := by
  refine ⟨h.sum_eq, h.le_budget, h.empty, h.named.cons.perm (List.perm_iff_count.mpr fun id => ?_)⟩
  simp only [Batch.ids, idsOf_append, idsOf_cons, idsOf_nil, Chunk.ids, List.append_nil,
    List.count_append, List.count_cons, List.count_nil]
  omega

/-- The accounts do not depend on what is in the chunks. -/
theorem Accounted.chunks (h : Accounted held b) {cs : List Chunk} {n : ℕ}
    (hids : idsOf cs = idsOf b.chunks) : Accounted held { b with chunks := cs, bytes := n } := by
  refine ⟨h.sum_eq, h.le_budget, h.empty, ?_⟩
  have hnamed := h.named
  rw [Batch.ids, ← hids] at hnamed
  exact hnamed

/-- The chunks that are taken are held from then on, and the pool is as it was. -/
theorem Accounted.take (h : Accounted held b) : Accounted (held ++ idsOf b.take.1) b.take.2 := by
  refine ⟨h.sum_eq, h.le_budget, h.empty, h.named.perm (List.perm_iff_count.mpr fun id => ?_)⟩
  simp only [Batch.ids, Batch.take, idsOf_nil, List.append_nil, List.count_append]
  omega

/-- A buffer that comes back raises the counter by its capacity, or is dropped. -/
theorem Accounted.recycleChunk {c : Chunk} (h : Accounted (c.ids ++ held) b) :
    Accounted held (b.recycleChunk c) := by
  cases c with
  | segment bytes => exact h
  | inline buf =>
    rw [Batch.recycleChunk]
    split_ifs with hbudget
    · refine ⟨?_, hbudget, ?_, h.named.perm (List.perm_iff_count.mpr fun id => ?_)⟩
      · rw [List.map_append, List.sum_append, h.sum_eq, List.map_singleton, List.sum_singleton]
        rfl
      · intro u hu
        rcases List.mem_append.mp hu with hu | hu
        · exact h.empty u hu
        · rw [List.mem_singleton.mp hu]
          rfl
      · simp only [Batch.ids, Chunk.ids, List.map_append, List.map_cons, List.map_nil,
          List.count_append]
        omega
    · refine ⟨h.sum_eq, h.le_budget, h.empty, h.named.sublist ?_⟩
      exact (List.sublist_append_right _ _).append_left _

/-- The loop of `recycle`, and the chunks that were in the batch are dropped. -/
theorem Accounted.recycle {cs : List Chunk} (h : Accounted (idsOf cs ++ held) b) :
    Accounted held (b.recycle cs) := by
  have hfold : Accounted held (cs.foldl Batch.recycleChunk b) := by
    induction cs generalizing b with
    | nil => exact h
    | cons c cs ih =>
      rw [idsOf_cons, List.append_assoc] at h
      exact ih h.recycleChunk
  refine ⟨hfold.sum_eq, hfold.le_budget, hfold.empty, hfold.named.sublist ?_⟩
  rw [Batch.ids, Batch.ids, List.append_assoc, List.append_assoc]
  exact (List.sublist_append_right _ _).append_left _

/-! ### Pushing a message -/

/-- The test of the source for an open chunk at the end is the test for one. -/
theorem endsInline_iff : b.endsInline = true ↔ EndsInline b := by
  rw [Batch.endsInline, EndsInline]
  rcases List.eq_nil_or_concat b.chunks with hnil | ⟨cs, c, hcs⟩
  · simp [hnil]
  · cases c <;> simp [hcs]

/-- Without names the open chunk is the open chunk. -/
theorem chunks_erase {cs : List Chunk} {buf : Buffer} (h : b.chunks = cs ++ [.inline buf]) :
    b.erase.chunks = cs.map Chunk.erase ++ [.inline buf.vec] := by
  rw [Batch.erase, h, List.map_append]
  rfl

/-- Without names, a batch with no open chunk has none. -/
theorem closed_erase (h : ¬ EndsInline b) : Batch.Closed b.erase.chunks := by
  rcases Batch.closed_or_concat b.erase.chunks with hclosed | ⟨cs, v, hcs⟩
  · exact hclosed
  · obtain ⟨ds, es, hb, -, hes⟩ := List.map_eq_append_iff.mp hcs
    obtain ⟨c, rfl, hc⟩ := List.map_eq_singleton_iff.mp hes
    cases c with
    | inline buf => exact absurd ⟨ds, buf, hb⟩ h
    | segment bytes => exact absurd hc (by simp [Chunk.erase])

/-- **`inline_tail`** does not go below zero, and without the names it is that of `Batch`. -/
theorem refines_inlineTail (h : Accounted held b) :
    Refines Batch.erase (fun b => Accounted held b ∧ EndsInline b) b.inlineTail
      b.erase.inlineTail := by
  rw [Batch.inlineTail]
  by_cases hlast : EndsInline b
  · rw [if_pos (endsInline_iff.mpr hlast)]
    obtain ⟨cs, buf, hcs⟩ := hlast
    rw [Batch.inlineTail_of_concat (chunks_erase hcs)]
    exact refines_some rfl ⟨h, cs, buf, hcs⟩
  · have hclosed := closed_erase hlast
    rw [if_neg (mt endsInline_iff.mp hlast)]
    rcases List.eq_nil_or_concat b.spare with hnil | ⟨spare, buf, hspare⟩
    · have hnil' : b.erase.spare = [] := by rw [Batch.erase, hnil, List.map_nil]
      have hlast : b.spare.getLast? = none := by rw [hnil, List.getLast?_nil]
      rw [Batch.inlineTail_of_nil hclosed hnil', hlast]
      refine refines_some ?_ ⟨h.create, b.chunks, _, rfl⟩
      simp [Batch.erase, Chunk.erase]
    · rw [List.concat_eq_append] at hspare
      obtain ⟨hle, hreuse⟩ := h.reuse hspare
      have hspare' : b.erase.spare = spare.map Buffer.vec ++ [buf.vec] := by
        rw [Batch.erase, hspare, List.map_append, List.map_singleton]
      rw [Batch.inlineTail_of_spare hclosed hspare', hspare, List.getLast?_concat,
        List.dropLast_concat]
      dsimp only
      rw [if_pos hle]
      refine refines_some ?_ ⟨hreuse, b.chunks, buf, rfl⟩
      simp [Batch.erase, Chunk.erase]

/-- The chunk that `inline_tail` has opened grows, so the `unreachable!` of the source is not
reached. -/
theorem refines_extendTail (al : Alloc) (bs : List UInt8) (h : Accounted held b ∧ EndsInline b) :
    Refines Batch.erase (fun b => Accounted held b ∧ EndsInline b) (b.extendTail al bs)
      (b.erase.extendTail al bs) := by
  obtain ⟨h, cs, buf, hcs⟩ := h
  rw [Batch.extendTail_of_concat (chunks_erase hcs), Batch.extendTail, hcs, List.getLast?_concat,
    List.dropLast_concat]
  refine refines_some ?_ ⟨h.chunks ?_, cs, _, rfl⟩
  · simp [Batch.erase, Chunk.erase]
  · rw [hcs, idsOf_append, idsOf_append]
    rfl

/-- **`push`, its table**: the accounts hold and the bytes are those of the batch without names. -/
theorem refines_pushTable (al : Alloc) (segments : Segments) (h : Accounted held b) :
    Refines Batch.erase (Accounted held) (b.pushTable al segments)
      (b.erase.pushTable al segments) := by
  obtain ⟨b₁, hb₁, he₁, h₁⟩ := refines_inlineTail h
  obtain ⟨b₂, hb₂, he₂, h₂⟩ :=
    refines_extendTail al (leBytes 4 (Batch.countField segments)) h₁
  obtain ⟨b₃, hb₃, he₃, h₃⟩ : Refines Batch.erase (fun b => Accounted held b ∧ EndsInline b)
      (segments.foldlM (fun b s => b.extendTail al (leBytes 4 (s.length / WORD))) b₂)
      (segments.foldl (fun b s => b.extendTail al (leBytes 4 (s.length / WORD))) b₂.erase) :=
    Refines.foldlM (fun b s hb => refines_extendTail al _ hb) segments h₂
  obtain ⟨b₄, hb₄, he₄, h₄⟩ : Refines Batch.erase (fun b => Accounted held b ∧ EndsInline b)
      (if segments.length % 2 = 0 then b₃.extendTail al [0, 0, 0, 0] else some b₃)
      (if segments.length % 2 = 0 then b₃.erase.extendTail al [0, 0, 0, 0] else b₃.erase) := by
    split_ifs
    · exact refines_extendTail al _ h₃
    · exact refines_some rfl h₃
  refine ⟨{ b₄ with bytes := b₄.bytes + tableLen segments.length }, ?_, ?_, h₄.1.chunks rfl⟩
  · simp only [Batch.pushTable, hb₁, hb₂, hb₃, hb₄, Option.bind_eq_bind, Option.bind_some]
  · rw [Ogurpchik.Batch.pushTable, ← he₁, ← he₂, ← he₃, ← he₄]
    rfl

/-- **`push`, a segment**: whether it is copied or referred to. -/
theorem refines_pushSegment (al : Alloc) (segment : List UInt8) (h : Accounted held b) :
    Refines Batch.erase (Accounted held) (b.pushSegment al segment)
      (b.erase.pushSegment al segment) := by
  rw [Batch.pushSegment, Ogurpchik.Batch.pushSegment]
  by_cases hnil : segment = []
  · rw [if_pos hnil, if_pos hnil]
    exact refines_some rfl h
  · rw [if_neg hnil, if_neg hnil]
    by_cases hlimit : segment.length ≤ b.inlineLimit
    · obtain ⟨b₁, hb₁, he₁, h₁⟩ := refines_inlineTail h
      obtain ⟨b₂, hb₂, he₂, h₂⟩ := refines_extendTail al segment h₁
      rw [if_pos hlimit, if_pos (show segment.length ≤ b.erase.inlineLimit from hlimit), hb₁, ← he₁,
        ← he₂]
      refine ⟨{ b₂ with bytes := b₂.bytes + segment.length }, ?_, rfl, h₂.1.chunks rfl⟩
      simp only [Option.bind_some, hb₂, Option.bind_eq_bind]
    · rw [if_neg hlimit, if_neg (show ¬ segment.length ≤ b.erase.inlineLimit from hlimit)]
      refine refines_some ?_ (h.chunks ?_)
      · simp [Batch.erase, Chunk.erase]
      · simp [Chunk.ids]

/-- **A push does not panic**, and without the names it is the push of `Batch`. -/
theorem refines_push (al : Alloc) (m : OutMessage) (h : Accounted held b) :
    Refines Batch.erase (Accounted held) (b.push al m) (b.erase.push al m) := by
  obtain ⟨b₁, hb₁, he₁, h₁⟩ := refines_pushTable al m.segments h
  rw [Batch.push, hb₁, Ogurpchik.Batch.push, ← he₁]
  exact Refines.foldlM (fun b s hb => refines_pushSegment al s hb) m.segments h₁

end Accounted

/-! ### A batch and its users -/

/-- A batch, and the chunks that its users hold: taken, and not yet given back. -/
structure World where
  batch : Batch
  out : List Chunk

/-- A new batch, of which nobody holds a chunk. -/
def World.init (inlineLimit : ℕ) : World := ⟨.new inlineLimit, []⟩

/-- A message is pushed; the chunks are taken; some of the chunks in use are recycled, in any order;
chunks come up that the batch has not made; the buffers in use change. -/
inductive Step : World → World → Prop
  | push {w : World} {b : Batch} (al : Alloc) (m : OutMessage) : w.batch.push al m = some b →
      Step w { w with batch := b }
  | take {w : World} : Step w ⟨w.batch.take.2, w.out ++ w.batch.take.1⟩
  | recycle {w : World} (cs : List Chunk) {rest : List Chunk} : w.out.Perm (cs ++ rest) →
      Step w ⟨w.batch.recycle cs, rest⟩
  | inline {w : World} (vec : Vec) :
      Step w ⟨{ w.batch with fresh := w.batch.fresh + 1 },
        .inline ⟨w.batch.fresh, vec⟩ :: w.out⟩
  | segment {w : World} (bytes : List UInt8) : Step w ⟨w.batch, .segment bytes :: w.out⟩
  | alter {w : World} (f : Buffer → Vec) :
      Step w ⟨{ w.batch with chunks := w.batch.chunks.map (.alter f) }, w.out.map (.alter f)⟩

/-- What the users of a new batch can get to, in any order of pushes, takes and recycling. -/
def Reachable (inlineLimit : ℕ) (w : World) : Prop :=
  Relation.ReflTransGen Step (.init inlineLimit) w

/-- Every step keeps the accounts: of a push, a take, a recycling, and of what users do to their
chunks. -/
theorem Accounted.step {w w' : World} (h : Accounted (idsOf w.out) w.batch) (hs : Step w w') :
    Accounted (idsOf w'.out) w'.batch := by
  cases hs with
  | push al m hpush =>
    obtain ⟨b, hb, -, haccounted⟩ := refines_push al m h
    obtain rfl := Option.some.inj (hpush.symm.trans hb)
    exact haccounted
  | take =>
    rw [idsOf_append]
    exact h.take
  | recycle cs hperm =>
    refine Accounted.recycle ⟨h.sum_eq, h.le_budget, h.empty, h.named.perm ?_⟩
    rw [← idsOf_append]
    exact (hperm.symm.flatMap_right _).append_left _
  | inline vec =>
    refine ⟨h.sum_eq, h.le_budget, h.empty, h.named.cons.perm ?_⟩
    exact List.perm_middle
  | segment bytes => exact h
  | alter f =>
    rw [idsOf_alter]
    exact h.chunks (idsOf_alter f _)

/-- **Every reachable batch is accounted for.** -/
theorem Reachable.accounted {inlineLimit : ℕ} {w : World} (h : Reachable inlineLimit w) :
    Accounted (idsOf w.out) w.batch := by
  induction h with
  | refl =>
    refine ⟨rfl, Nat.zero_le _, ?_, List.nodup_nil, ?_⟩
    · rintro buf ⟨⟩
    · rintro id ⟨⟩
  | tail _ hs ih => exact ih.step hs

/-! ### The batch of a connection -/

/-- The chunks that the writer has handed to a write, and will get back from it. -/
def inFlight : WriteLoop.Pc → List Ogurpchik.Chunk
  | .writing chunks _ _ => chunks
  | _ => []

/-- Some users have made the batch and hold the chunks: the batch of the writer is one of a run of
the pool. -/
def Carried (b : Ogurpchik.Batch) (chunks : List Ogurpchik.Chunk) : Prop :=
  ∃ w cs rest, Reachable INLINE_LIMIT w ∧ w.batch.erase = b ∧ w.out.Perm (cs ++ rest) ∧
    cs.map Chunk.erase = chunks

section Carried

variable {b : Ogurpchik.Batch} {chunks : List Ogurpchik.Chunk} {s t : WriteLoop.State}

/-- The writer pushes as a user of the pool does. -/
theorem Carried.push (h : Carried b chunks) (al : Alloc) (m : OutMessage) :
    Carried (b.push al m) chunks := by
  obtain ⟨w, cs, rest, hw, rfl, hperm, rfl⟩ := h
  obtain ⟨b, hpush, herase, -⟩ := refines_push al m hw.accounted
  exact ⟨_, cs, rest, hw.tail (.push al m hpush), herase, hperm, rfl⟩

/-- The writer takes its batch as a user does, and holds the chunks while it writes. -/
theorem Carried.take (h : Carried b []) : Carried b.take.2 b.take.1 := by
  obtain ⟨w, -, -, hw, rfl, -⟩ := h
  exact ⟨_, w.batch.take.1, w.out, hw.tail .take, w.batch.erase_take.1, List.perm_append_comm,
    w.batch.erase_take.2⟩

/-- The writer gives back the chunks it holds. -/
theorem Carried.recycle (h : Carried b chunks) : Carried (b.recycle chunks) [] := by
  obtain ⟨w, cs, rest, hw, rfl, hperm, rfl⟩ := h
  exact ⟨_, [], rest, hw.tail (.recycle cs hperm), w.batch.erase_recycle cs, .refl _, rfl⟩

/-- What is in flight may be lost. -/
theorem Carried.idle (h : Carried b chunks) : Carried b [] := by
  obtain ⟨w, -, -, hw, hbatch, -⟩ := h
  exact ⟨w, [], w.out, hw, hbatch, .refl _, rfl⟩

/-- The end of an iteration does not touch the batch. -/
theorem carried_finish (h : Carried s.batch []) (done : Pending) :
    Carried (s.finish done).batch (inFlight (s.finish done).pc) := by
  cases done with
  | none => exact h
  | some d => exact h

/-- The start of a write takes the batch, unless there is nothing in it. -/
theorem carried_dispatch (h : Carried s.batch []) (done : Pending) :
    Carried (s.dispatch done).batch (inFlight (s.dispatch done).pc) := by
  rw [WriteLoop.State.dispatch]
  split_ifs
  · exact carried_finish h done
  · exact h.take

/-- An item that is taken from the queue is pushed, and the batch perhaps taken. -/
theorem carried_handle (h : Carried s.batch []) (al : Alloc) (item : Item) :
    Carried (s.handle al item).batch (inFlight (s.handle al item).pc) := by
  cases item with
  | message m promise =>
    rw [WriteLoop.State.handle]
    dsimp only
    split_ifs
    · exact carried_dispatch (h.push al m) none
    · exact h.push al m
  | done result promise => exact carried_dispatch h _

/-- An item that enters the queue does not touch the batch. -/
theorem carried_enqueue (h : Carried s.batch (inFlight s.pc)) (item : Item) :
    Carried (s.enqueue item).batch (inFlight (s.enqueue item).pc) := by
  rw [s.pc_enqueue, s.batch_enqueue]
  exact h

/-- The writer uses its batch as users do: it pushes, takes, and recycles what it took. -/
theorem Carried.step (h : Carried s.batch (inFlight s.pc)) (hs : WriteLoop.Step s t) :
    Carried t.batch (inFlight t.pc) := by
  cases hs with
  | send m _ => exact carried_enqueue h _
  | shutdown result _ => exact carried_enqueue h _
  | dropSenders => exact h
  | @recv item rest al _ _ => exact carried_handle (s := { s with queue := rest }) h.idle al item
  | recvClosed _ _ _ => exact h.idle
  | @tryRecv item rest al _ _ => exact carried_handle (s := { s with queue := rest }) h.idle al item
  | tryRecvEmpty _ => exact carried_dispatch h.idle none
  | write hpc =>
    rw [hpc] at h
    exact h
  | writeDone hpc =>
    rw [hpc] at h
    exact h.recycle
  | writeFail e hpc =>
    rw [hpc] at h
    exact h.recycle
  | flush _ => exact h.idle
  | flushFail e _ => exact h.idle
  | signal _ _ => exact h
  | signalled _ _ => exact carried_finish h.idle _
  | returnDone _ => exact h.idle

/-- So along every run of a writer its batch is one of a user of the pool. -/
theorem carried_of_reachable (h : WriteLoop.Reachable s) : Carried s.batch (inFlight s.pc) := by
  induction h with
  | refl => exact ⟨_, [], [], .refl, Batch.erase_new INLINE_LIMIT, .refl _, rfl⟩
  | tail _ hs ih => exact ih.step hs

end Carried

/-- **The pool is accounted exactly.** Whatever is pushed, taken and recycled, and however the
buffers in use change: the counter is the total capacity of the spare buffers and within the budget;
no push panics, so the subtraction in `inline_tail` does not go below zero, and without the names it
is the push of `Batch`; the spare buffers are empty; and no buffer is there twice, in the pool,
among the chunks or with the users. The batch of a connection keeps at most 2 MiB, however long the
connection runs. -/
theorem spare_pool_accounted {inlineLimit : ℕ} {w : World} {s : WriteLoop.State}
    (h : Reachable inlineLimit w) (hs : WriteLoop.Reachable s) :
    (w.batch.spare.map fun buf => buf.vec.cap).sum = w.batch.spareBytes ∧
    w.batch.spareBytes ≤ SPARE_BUDGET ∧
    (∀ al m, ∃ b, w.batch.push al m = some b ∧ b.erase = w.batch.erase.push al m) ∧
    (∀ buf ∈ w.batch.spare, buf.vec.data = []) ∧
    (w.batch.spare.map Buffer.id ++ idsOf w.batch.chunks ++ idsOf w.out).Nodup ∧
    (s.batch.spare.map Vec.cap).sum ≤ 2 * 1024 * 1024 := by
  have haccounted := h.accounted
  refine ⟨haccounted.sum_eq, haccounted.le_budget, ?_, haccounted.empty,
    haccounted.named.nodup, ?_⟩
  · intro al m
    obtain ⟨b, hpush, herase, -⟩ := refines_push al m haccounted
    exact ⟨b, hpush, herase⟩
  · obtain ⟨v, -, -, hv, hbatch, -⟩ := carried_of_reachable hs
    calc (s.batch.spare.map Vec.cap).sum
        = (v.batch.spare.map fun buf => buf.vec.cap).sum := by
          rw [← hbatch, Batch.erase, List.map_map]
          rfl
      _ = v.batch.spareBytes := hv.accounted.sum_eq
      _ ≤ 2 * 1024 * 1024 := hv.accounted.le_budget

/-- A message was pushed, taken and recycled: the buffer of its table and its small segment is
spare. -/
theorem spare_pool_accounted_sample :
    ∃ w, Reachable 8 w ∧ w.batch.spare.map (fun buf => (buf.id, buf.vec.cap)) = [(0, 24)] ∧
      w.batch.spareBytes = 24 ∧
      (w.batch.spare.map fun buf => buf.vec.cap).sum = w.batch.spareBytes := by
  have h1 : Reachable 8 _ := .tail .refl (.push .exact .sample rfl)
  have h2 : Reachable 8 _ := .tail h1 .take
  have h3 : Reachable 8 _ := .tail h2 (.recycle _ (.of_eq (List.append_nil _).symm))
  exact ⟨_, h3, rfl, rfl, (spare_pool_accounted h3 .refl).1⟩

end SparePool

end Ogurpchik
