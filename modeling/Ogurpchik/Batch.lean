import Mathlib.Data.List.Chain
import Ogurpchik.Capnp

/-!
# The Outgoing Batch

`Batch` collects the stream forms of messages as a list of chunks for one vectored write.
Segment tables and segments up to an inline limit are copied into inline chunks, larger
segments are passed by reference. `take` hands the chunks out, and `recycle` keeps the buffers
of written inline chunks in a spare pool for later rounds.

## Main results

* `Batch.Holds.push`: pushing a message appends exactly its stream form.
* `Batch.Run.holds`: over every run of `push`, `take` and `recycle` the chunks hold the stream
  forms of the messages pushed since the last `take`, with nothing of an earlier round.
* `batch_eq_serializer`: the whole statement about runs, with the byte counter and the shape of
  the chunk list.
-/

namespace Ogurpchik

open LittleEndian

/-- `SPARE_BUDGET`: the idle capacity a batch may keep in buffers that were written and cleared. -/
def SPARE_BUDGET : ℕ := 2 * 1024 * 1024

/-- A piece of a vectored write: bytes copied into a buffer, or a segment of a message that is
kept alive and referred to. -/
inductive Chunk
  | inline (bytes : Vec)
  | segment (bytes : List UInt8)

namespace Chunk

/-- `as_init`: the bytes of a chunk, copied or referred to. -/
def asInit : Chunk → List UInt8
  | inline bytes => bytes.data
  | segment bytes => bytes

/-- Whether the chunk is an inline one, into which further bytes may be copied. -/
def IsInline : Chunk → Prop
  | inline _ => True
  | segment _ => False

/-- The bytes of several chunks, in order: what a vectored write of them puts on the wire. -/
def concat (chunks : List Chunk) : List UInt8 := chunks.flatMap asInit

/-- No chunks hold no bytes. -/
@[simp] theorem concat_nil : concat [] = [] := rfl

/-- The bytes of chunks stand one behind the other, so a batch can be looked at in two parts. -/
@[simp] theorem concat_append (cs ds : List Chunk) : concat (cs ++ ds) = concat cs ++ concat ds :=
  List.flatMap_append

/-- An inline chunk holds copied bytes. -/
@[simp] theorem concat_inline (v : Vec) : concat [inline v] = v.data := by
  simp [concat, asInit]

/-- A segment chunk holds the bytes of the segment it refers to. -/
@[simp] theorem concat_segment (s : List UInt8) : concat [segment s] = s := by
  simp [concat, asInit]

end Chunk

/-- Chunks being collected, buffers to reuse and their total capacity, the inline limit and the
number of bytes collected. -/
structure Batch where
  chunks : List Chunk
  spare : List Vec
  spareBytes : ℕ
  inlineLimit : ℕ
  bytes : ℕ

namespace Batch

/-- `Batch::new`: an empty batch, without buffers to reuse. -/
def new (inlineLimit : ℕ) : Batch := ⟨[], [], 0, inlineLimit, 0⟩

/-- `inline_tail`: make the last chunk an inline one, with a spare buffer if there is one, whose
capacity is not idle any more. -/
def inlineTail (b : Batch) : Batch :=
  match b.chunks.getLast? with
  | some (.inline _) => b
  | _ =>
      match b.spare.getLast? with
      | some bytes =>
          { b with
            chunks := b.chunks ++ [.inline bytes]
            spare := b.spare.dropLast
            spareBytes := b.spareBytes - bytes.cap }
      | none => { b with chunks := b.chunks ++ [.inline Vec.new] }

/-- `extend_from_slice` through the reference that `inlineTail` returned, so always into an inline
chunk at the end. -/
def extendTail (al : Alloc) (bytes : List UInt8) (b : Batch) : Batch :=
  match b.chunks.getLast? with
  | some (.inline tail) =>
      { b with chunks := b.chunks.dropLast ++ [.inline (tail.extendFromSlice al bytes)] }
  | _ => b

/-- The number of segments less one, as the `u32` arithmetic of the source computes it. -/
def countField (segments : Segments) : ℕ := (UInt32.ofNat segments.length - 1).toNat

/-- Write the segment table of a message behind what is there, entry by entry, and count its
bytes. -/
def pushTable (al : Alloc) (segments : Segments) (b : Batch) : Batch :=
  let b := b.inlineTail.extendTail al (leBytes 4 (countField segments))
  let b := segments.foldl (fun b s => b.extendTail al (leBytes 4 (s.length / WORD))) b
  let b := if segments.length % 2 = 0 then b.extendTail al [0, 0, 0, 0] else b
  { b with bytes := b.bytes + tableLen segments.length }

/-- Add one segment: nothing for an empty one, a copy up to the inline limit, else a
reference. -/
def pushSegment (al : Alloc) (b : Batch) (segment : List UInt8) : Batch :=
  if segment = [] then b
  else
    let b :=
      if segment.length ≤ b.inlineLimit then b.inlineTail.extendTail al segment
      else { b with chunks := b.chunks ++ [.segment segment] }
    { b with bytes := b.bytes + segment.length }

/-- `push`: add a message, its table first and then its segments. Small segments are copied and
large ones referred to. -/
def push (al : Alloc) (b : Batch) (message : OutMessage) : Batch :=
  message.segments.foldl (pushSegment al) (b.pushTable al message.segments)

/-- `is_empty`: whether nothing was collected, in which case nothing is written. -/
def isEmpty (b : Batch) : Bool := b.chunks.isEmpty

/-- `chunk_count`: the number of chunks collected, one of the two thresholds of a write. -/
def chunkCount (b : Batch) : ℕ := b.chunks.length

/-- `byte_count`: the number of bytes collected, the other threshold. It is counted along and not
summed up. -/
def byteCount (b : Batch) : ℕ := b.bytes

/-- `take`: hand the chunks out and start over. The spare buffers stay with the batch. -/
def take (b : Batch) : List Chunk × Batch := (b.chunks, { b with chunks := [], bytes := 0 })

/-- Keep the buffer of one written chunk if the budget allows; it is cleared, and its capacity
counts as idle. -/
def recycleChunk (b : Batch) : Chunk → Batch
  | .inline bytes =>
      if b.spareBytes + bytes.cap ≤ SPARE_BUDGET then
        { b with spare := b.spare ++ [bytes.clear], spareBytes := b.spareBytes + bytes.cap }
      else b
  | .segment _ => b

/-- Take written chunks back; what the batch had collected is replaced by the drained list. -/
def recycle (b : Batch) (chunks : List Chunk) : Batch :=
  { chunks.foldl recycleChunk b with chunks := [] }

/-! ### The shape of a chunk list -/

/-- No chunk is empty, no two inline chunks are adjacent, and only segments above the limit are
referred to. -/
structure Shape (limit : ℕ) (chunks : List Chunk) : Prop where
  nonempty : ∀ c ∈ chunks, c.asInit ≠ []
  alternate : chunks.IsChain fun c d => ¬ (c.IsInline ∧ d.IsInline)
  large : ∀ s, .segment s ∈ chunks → limit < s.length

/-- A cleared batch has the shape of a batch, whatever its limit. -/
theorem Shape.nil (limit : ℕ) : Shape limit [] :=
  ⟨by simp, List.IsChain.nil, by simp⟩

/-- The last chunk is not an inline one, so that the next bytes to be copied need a new chunk. -/
def Closed (chunks : List Chunk) : Prop := ∀ c ∈ chunks.getLast?, ¬ c.IsInline

/-- A chunk may follow a list if it has bytes, does not meet another inline chunk and, as a
segment, is large. -/
theorem Shape.snoc {limit : ℕ} {cs : List Chunk} (h : Shape limit cs) {c : Chunk}
    (hc : c.asInit ≠ []) (hclosed : c.IsInline → Closed cs)
    (hlarge : ∀ s, .segment s = c → limit < s.length) : Shape limit (cs ++ [c]) where
  nonempty := by
    intro d hmem
    rcases List.mem_append.mp hmem with hmem | hmem
    · exact h.nonempty d hmem
    · rw [List.mem_singleton.mp hmem]
      exact hc
  alternate := by
    refine List.isChain_append.mpr ⟨h.alternate, List.IsChain.singleton _, ?_⟩
    rintro d hlast e hhead ⟨hd, he⟩
    obtain rfl : c = e := by simpa using hhead
    exact hclosed he d hlast hd
  large := by
    intro s hmem
    rcases List.mem_append.mp hmem with hmem | hmem
    · exact h.large s hmem
    · exact hlarge s (List.mem_singleton.mp hmem)

/-- An inline chunk with bytes may follow a closed list. -/
theorem Shape.snoc_inline {limit : ℕ} {cs : List Chunk} (h : Shape limit cs) (hc : Closed cs)
    {v : Vec} (hv : v.data ≠ []) : Shape limit (cs ++ [.inline v]) := by
  refine h.snoc hv (fun _ => hc) ?_
  rintro s ⟨⟩

/-- A large segment may follow any list. -/
theorem Shape.snoc_segment {limit : ℕ} {cs : List Chunk} (h : Shape limit cs) {s : List UInt8}
    (hs : limit < s.length) : Shape limit (cs ++ [.segment s]) := by
  refine h.snoc (List.length_pos_iff.mp (Nat.zero_lt_of_lt hs)) False.elim ?_
  rintro t ⟨⟩
  exact hs

/-- A list that ends in an inline chunk continues a closed list. -/
theorem Shape.init {limit : ℕ} {cs : List Chunk} {v : Vec}
    (h : Shape limit (cs ++ [.inline v])) : Shape limit cs ∧ Closed cs := by
  obtain ⟨hchain, -, hlast⟩ := List.isChain_append.mp h.alternate
  refine ⟨⟨fun c hc => h.nonempty c (List.mem_append_left _ hc), hchain,
    fun s hs => h.large s (List.mem_append_left _ hs)⟩, ?_⟩
  intro c hc hinline
  exact hlast c hc (.inline v) (by simp) ⟨hinline, trivial⟩

/-! ### Pushing a message -/

/-- The batch holds exactly `bytes`: in its chunks and in its counter. Spare buffers hold
nothing. -/
structure Holds (limit : ℕ) (b : Batch) (bytes : List UInt8) : Prop where
  concat_eq : Chunk.concat b.chunks = bytes
  bytes_eq : b.bytes = bytes.length
  limit_eq : b.inlineLimit = limit
  shape : Shape limit b.chunks
  spare_empty : ∀ v ∈ b.spare, v.data = []

/-- The batch ends in the inline chunk `v`, which may still be empty, behind a closed list. -/
structure Tail (limit count : ℕ) (b : Batch) (cs : List Chunk) (v : Vec) : Prop where
  chunks_eq : b.chunks = cs ++ [.inline v]
  bytes_eq : b.bytes = count
  limit_eq : b.inlineLimit = limit
  shape : Shape limit cs
  closed : Closed cs
  spare_empty : ∀ u ∈ b.spare, u.data = []

section Push

variable {limit count : ℕ} {b : Batch} {bytes : List UInt8} {cs : List Chunk} {v : Vec}

/-- An inline chunk at the end stays. -/
theorem inlineTail_of_concat (h : b.chunks = cs ++ [.inline v]) : b.inlineTail = b := by
  simp [inlineTail, h]

/-- A closed list gets a new buffer if there is no spare one. -/
theorem inlineTail_of_nil (hc : Closed b.chunks) (hs : b.spare = []) :
    b.inlineTail = { b with chunks := b.chunks ++ [.inline Vec.new] } := by
  rw [inlineTail]
  split
  · next u hu => exact absurd trivial (hc _ hu)
  · simp [hs]

/-- A closed list gets the last spare buffer. -/
theorem inlineTail_of_spare {spare : List Vec} (hc : Closed b.chunks)
    (hs : b.spare = spare ++ [v]) : b.inlineTail =
      ⟨b.chunks ++ [.inline v], spare, b.spareBytes - v.cap, b.inlineLimit, b.bytes⟩ := by
  rw [inlineTail]
  split
  · next u hu => exact absurd trivial (hc _ hu)
  · simp [hs]

/-- A list that does not end in an inline chunk is closed. -/
theorem closed_or_concat (chunks : List Chunk) :
    Closed chunks ∨ ∃ cs v, chunks = cs ++ [.inline v] := by
  rcases List.eq_nil_or_concat chunks with rfl | ⟨cs, c, rfl⟩
  · exact .inl (by simp [Closed])
  · rw [List.concat_eq_append]
    cases c with
    | inline v => exact .inr ⟨cs, v, rfl⟩
    | segment s => exact .inl (by simp [Closed, Chunk.IsInline])

/-- `inlineTail` opens an inline chunk at the end without adding bytes. -/
theorem Holds.inlineTail (h : Holds limit b bytes) :
    ∃ cs v, Tail limit bytes.length b.inlineTail cs v ∧ Chunk.concat cs ++ v.data = bytes := by
  have hconcat := h.concat_eq
  have hshape := h.shape
  rcases closed_or_concat b.chunks with hclosed | ⟨cs, v, hcs⟩
  · rcases List.eq_nil_or_concat b.spare with hnil | ⟨spare, u, hspare⟩
    · rw [inlineTail_of_nil hclosed hnil]
      exact ⟨b.chunks, Vec.new, ⟨rfl, h.bytes_eq, h.limit_eq, hshape, hclosed, h.spare_empty⟩,
        by rw [Vec.data_new, List.append_nil, hconcat]⟩
    · rw [List.concat_eq_append] at hspare
      have hempty := h.spare_empty
      rw [hspare] at hempty
      rw [inlineTail_of_spare hclosed hspare]
      exact ⟨b.chunks, u, ⟨rfl, h.bytes_eq, h.limit_eq, hshape, hclosed,
        fun t ht => hempty t (List.mem_append_left _ ht)⟩,
        by rw [hempty u (by simp), List.append_nil, hconcat]⟩
  · rw [hcs] at hshape hconcat
    rw [inlineTail_of_concat hcs]
    refine ⟨cs, v, ⟨hcs, h.bytes_eq, h.limit_eq, hshape.init.1, hshape.init.2, h.spare_empty⟩, ?_⟩
    rw [← hconcat, Chunk.concat_append, Chunk.concat_inline]

/-- Extending changes the open chunk at the end and no other. -/
theorem extendTail_of_concat (h : b.chunks = cs ++ [.inline v]) (al : Alloc) (bs : List UInt8) :
    b.extendTail al bs = { b with chunks := cs ++ [.inline (v.extendFromSlice al bs)] } := by
  simp [extendTail, h]

/-- Extending the open chunk changes only its bytes. -/
theorem Tail.extendTail (h : Tail limit count b cs v) (al : Alloc) (bs : List UInt8) :
    Tail limit count (b.extendTail al bs) cs (v.extendFromSlice al bs) := by
  rw [extendTail_of_concat h.chunks_eq]
  exact ⟨rfl, h.bytes_eq, h.limit_eq, h.shape, h.closed, h.spare_empty⟩

/-- Extending by the table entries of several segments: they all go to the last chunk, in order. -/
theorem Tail.extendEntries (h : Tail limit count b cs v) (al : Alloc) (segments : Segments) :
    ∃ v', Tail limit count
        (segments.foldl (fun b s => b.extendTail al (leBytes 4 (s.length / WORD))) b) cs v' ∧
      v'.data = v.data ++ segments.flatMap fun s => leBytes 4 (s.length / WORD) := by
  induction segments generalizing b v with
  | nil => exact ⟨v, h, by simp⟩
  | cons s segments ih =>
      obtain ⟨v', ht, hv⟩ := ih (h.extendTail al (leBytes 4 (s.length / WORD)))
      exact ⟨v', ht, by simp [hv]⟩

/-- Once the open chunk has bytes, the batch holds them. -/
theorem Tail.holds (h : Tail limit bytes.length b cs v) (hv : v.data ≠ [])
    (hb : Chunk.concat cs ++ v.data = bytes) : Holds limit b bytes where
  concat_eq := by rw [h.chunks_eq, Chunk.concat_append, Chunk.concat_inline, hb]
  bytes_eq := h.bytes_eq
  limit_eq := h.limit_eq
  shape := h.chunks_eq ▸ h.shape.snoc_inline h.closed hv
  spare_empty := h.spare_empty

/-- The `u32` arithmetic of the count field does not wrap on a message. -/
theorem countField_eq (m : OutMessage) : countField m.segments = m.segments.length - 1 := by
  have hpos := List.length_pos_iff.mpr m.ne_nil
  have hle := m.count_le
  rw [countField]
  rw [UInt32.toNat_sub, UInt32.toNat_ofNat']
  simp only [UInt32.toNat_one]
  omega

/-- Pushing the table appends exactly the table: the count, the lengths, and the padding. -/
theorem Holds.pushTable (h : Holds limit b bytes) (al : Alloc) (m : OutMessage) :
    Holds limit (b.pushTable al m.segments) (bytes ++ segmentTable m.segments) := by
  obtain ⟨cs, v, ht, hv⟩ := h.inlineTail
  have ht₁ := ht.extendTail al (leBytes 4 (countField m.segments))
  obtain ⟨v₂, ht₂, hv₂⟩ := ht₁.extendEntries al m.segments
  have hpad : ∃ v₃, Tail limit bytes.length (if m.segments.length % 2 = 0 then
      (m.segments.foldl (fun b s => b.extendTail al (leBytes 4 (s.length / WORD)))
        (b.inlineTail.extendTail al (leBytes 4 (countField m.segments)))).extendTail al
          [0, 0, 0, 0]
      else m.segments.foldl (fun b s => b.extendTail al (leBytes 4 (s.length / WORD)))
        (b.inlineTail.extendTail al (leBytes 4 (countField m.segments)))) cs v₃ ∧
      v₃.data = v₂.data ++ tablePadding m.segments.length := by
    rw [tablePadding]
    split_ifs with heven
    · exact ⟨_, ht₂.extendTail al _, rfl⟩
    · exact ⟨v₂, ht₂, by simp⟩
  obtain ⟨v₃, ht₃, hv₃⟩ := hpad
  have hdata : v₃.data = v.data ++ segmentTable m.segments := by
    rw [hv₃, hv₂, Vec.data_extendFromSlice, countField_eq]
    simp only [segmentTable, List.append_assoc]
  have hlen : (bytes ++ segmentTable m.segments).length =
      bytes.length + tableLen m.segments.length := by
    rw [List.length_append, length_segmentTable]
  have hne : v₃.data ≠ [] := by
    rw [hdata]
    apply List.append_ne_nil_of_right_ne_nil
    apply List.length_pos_iff.mp
    rw [length_segmentTable]
    have := word_le_tableLen m.segments.length (List.length_pos_iff.mpr m.ne_nil)
    rw [WORD] at this
    omega
  have ht₄ : Tail limit (bytes ++ segmentTable m.segments).length
      (b.pushTable al m.segments) cs v₃ := by
    refine ⟨ht₃.chunks_eq, ?_, ht₃.limit_eq, ht₃.shape, ht₃.closed, ht₃.spare_empty⟩
    rw [hlen, ← ht₃.bytes_eq]
    rfl
  exact ht₄.holds hne (by rw [hdata, ← List.append_assoc, hv])

/-- Pushing a segment appends exactly its bytes, whether they are copied or referred to. -/
theorem Holds.pushSegment (h : Holds limit b bytes) (al : Alloc) (s : List UInt8) :
    Holds limit (b.pushSegment al s) (bytes ++ s) := by
  rw [Batch.pushSegment]
  by_cases hnil : s = []
  · rw [if_pos hnil, hnil, List.append_nil]
    exact h
  · rw [if_neg hnil]
    simp only
    by_cases hle : s.length ≤ b.inlineLimit
    · simp only [if_pos hle]
      obtain ⟨cs, v, ht, hv⟩ := h.inlineTail
      have ht₁ := ht.extendTail al s
      have ht₂ : Tail limit (bytes ++ s).length
          { b.inlineTail.extendTail al s with
            bytes := (b.inlineTail.extendTail al s).bytes + s.length }
          cs (v.extendFromSlice al s) := by
        refine ⟨ht₁.chunks_eq, ?_, ht₁.limit_eq, ht₁.shape, ht₁.closed, ht₁.spare_empty⟩
        rw [List.length_append, ← ht₁.bytes_eq]
      refine ht₂.holds ?_ ?_
      · rw [Vec.data_extendFromSlice]
        exact List.append_ne_nil_of_right_ne_nil _ hnil
      · rw [Vec.data_extendFromSlice, ← List.append_assoc, hv]
    · simp only [if_neg hle]
      rw [h.limit_eq] at hle
      exact ⟨by simp [h.concat_eq], by simp [h.bytes_eq], h.limit_eq,
        h.shape.snoc_segment (not_le.mp hle), h.spare_empty⟩

/-- **Pushing a message** appends exactly its stream form: the table, and then one segment after the
other. -/
theorem Holds.push (h : Holds limit b bytes) (al : Alloc) (m : OutMessage) :
    Holds limit (b.push al m) (bytes ++ serialize m.segments) := by
  have hfold : ∀ (segments : Segments) {b : Batch} {bytes : List UInt8}, Holds limit b bytes →
      Holds limit (segments.foldl (Batch.pushSegment al) b) (bytes ++ segments.flatten) := by
    intro segments
    induction segments with
    | nil => intro b bytes hb; simpa using hb
    | cons s segments ih =>
        intro b bytes hb
        have := ih (hb.pushSegment al s)
        rwa [List.append_assoc] at this
  have := hfold m.segments (h.pushTable al m)
  rwa [List.append_assoc] at this

end Push

/-! ### Runs -/

/-- Taking the chunks leaves an empty batch. -/
theorem Holds.take {limit : ℕ} {b : Batch} {bytes : List UInt8} (h : Holds limit b bytes) :
    Chunk.concat b.take.1 = bytes ∧ Holds limit b.take.2 [] :=
  ⟨h.concat_eq, ⟨rfl, rfl, h.limit_eq, Shape.nil limit, h.spare_empty⟩⟩

/-- Recycling keeps only cleared buffers, so an empty batch stays empty. -/
theorem Holds.recycle {limit : ℕ} {b : Batch} (h : Holds limit b []) (chunks : List Chunk) :
    Holds limit (b.recycle chunks) [] := by
  have hfold : ∀ (cs : List Chunk) {b : Batch}, Holds limit b [] →
      Holds limit (cs.foldl recycleChunk b) [] := by
    intro cs
    induction cs with
    | nil => intro b hb; exact hb
    | cons c cs ih =>
        intro b hb
        refine ih ?_
        cases c with
        | segment s => exact hb
        | inline v =>
            unfold recycleChunk
            simp only
            split_ifs
            · refine ⟨hb.concat_eq, hb.bytes_eq, hb.limit_eq, hb.shape, ?_⟩
              intro u hu
              rcases List.mem_append.mp hu with hu | hu
              · exact hb.spare_empty u hu
              · rw [List.mem_singleton.mp hu]
                rfl
            · exact hb
  have hf := hfold chunks h
  exact ⟨rfl, hf.bytes_eq, hf.limit_eq, Shape.nil limit, hf.spare_empty⟩

/-- The batches that `push`, `take` and `recycle` make from a new one, with the messages pushed
since the last `take`. Each operation meets its own allocator, and `recycle` is called, with
any chunks, only on a batch that `take` emptied. -/
inductive Run (limit : ℕ) : Batch → List OutMessage → Prop
  | new : Run limit (new limit) []
  | push {b : Batch} {ms : List OutMessage} (al : Alloc) (m : OutMessage) :
      Run limit b ms → Run limit (b.push al m) (ms ++ [m])
  | take {b : Batch} {ms : List OutMessage} : Run limit b ms → Run limit b.take.2 []
  | recycle {b : Batch} (chunks : List Chunk) : Run limit b [] → Run limit (b.recycle chunks) []

/-- **Runs of a batch** hold the stream forms of the messages pushed since the last `take`. -/
theorem Run.holds {limit : ℕ} {b : Batch} {ms : List OutMessage} (h : Run limit b ms) :
    Holds limit b (serializeAll (segmentsOf ms)) := by
  induction h with
  | new => exact ⟨rfl, rfl, rfl, Shape.nil limit, by simp [Batch.new]⟩
  | push al m _ ih =>
      have := ih.push al m
      simpa [serializeAll, segmentsOf] using this
  | take _ ih => exact ih.take.2
  | recycle chunks _ ih => exact ih.recycle chunks

/-- The stream form of a message has at least one byte. -/
theorem serialize_ne_nil (m : OutMessage) : serialize m.segments ≠ [] := by
  apply List.length_pos_iff.mp
  have := word_le_tableLen m.segments.length (List.length_pos_iff.mpr m.ne_nil)
  rw [serialize, List.length_append, length_segmentTable]
  rw [WORD] at this
  omega

/-- A batch is empty exactly when it holds no byte, since no chunk of it is empty. -/
theorem Holds.chunks_eq_nil_iff {limit : ℕ} {b : Batch} {bytes : List UInt8}
    (h : Holds limit b bytes) : b.chunks = [] ↔ bytes = [] := by
  constructor
  · intro hc
    rw [← h.concat_eq, hc, Chunk.concat_nil]
  · intro hb
    rw [List.eq_nil_iff_forall_not_mem]
    intro c hc
    have hall := h.concat_eq.trans hb
    rw [Chunk.concat, List.flatMap_eq_nil_iff] at hall
    exact h.shape.nonempty c hc (hall c hc)

/-- Messages have no bytes exactly when there are none of them: each has a table. -/
theorem serializeAll_eq_nil_iff (ms : List OutMessage) :
    serializeAll (segmentsOf ms) = [] ↔ ms = [] := by
  cases ms with
  | nil => simp [serializeAll, segmentsOf]
  | cons m ms =>
      simp only [serializeAll, segmentsOf, List.map_cons, List.flatMap_cons,
        List.append_eq_nil_iff, reduceCtorEq, iff_false, not_and]
      intro h
      exact absurd h (serialize_ne_nil m)

end Batch

/-- **A batch is the plain serializer over whole runs**: at every moment its chunks are the
stream forms of the messages pushed since the last `take`, its counter is their length, and its
chunk list has no empty chunk, no adjacent inline chunks and only large segments by
reference. -/
theorem batch_eq_serializer {limit : ℕ} {b : Batch} {ms : List OutMessage}
    (h : Batch.Run limit b ms) :
    Chunk.concat b.chunks = serializeAll (segmentsOf ms) ∧
      b.byteCount = (serializeAll (segmentsOf ms)).length ∧
      (b.isEmpty = true ↔ ms = []) ∧
      (∀ c ∈ b.chunks, c.asInit ≠ []) ∧
      (b.chunks.IsChain fun c d => ¬ (c.IsInline ∧ d.IsInline)) ∧
      (∀ s, .segment s ∈ b.chunks → limit < s.length) := by
  have hh := h.holds
  refine ⟨hh.concat_eq, hh.bytes_eq, ?_, hh.shape.nonempty, hh.shape.alternate,
    hh.shape.large⟩
  rw [Batch.isEmpty, List.isEmpty_iff, hh.chunks_eq_nil_iff, Batch.serializeAll_eq_nil_iff]

/-- A message of a small, an empty and a large segment: one that is copied, one that is left out and
one that is referred to, at a suitable limit. -/
def OutMessage.sample : OutMessage :=
  ⟨[List.replicate 8 1, [], List.replicate 16 2], by decide, by decide, by decide, by decide⟩

/-- A second round through a recycled buffer: what was pushed, taken and recycled before leaves
no trace. -/
theorem batch_eq_serializer_second_round :
    Chunk.concat ((((Batch.new 8).push .exact .sample).take.2.recycle
        ((Batch.new 8).push .exact .sample).take.1).push .exact .sample).chunks =
      serializeAll (segmentsOf [.sample]) :=
  (batch_eq_serializer (.push .exact .sample
    (.recycle _ (.take (.push .exact .sample .new))))).1

end Ogurpchik
