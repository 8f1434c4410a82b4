import Ogurpchik.Capnp

/-!
# The Streaming Decoder

`Inbound` reads messages from a connection through one staging buffer. `fill` makes a number
of unread bytes available in the buffer, compacting and growing it as needed; `next` reads a
segment table through `fill` and then the body, through the buffer when the body fits its
nominal capacity and directly into the message otherwise.

The definitions follow the source statement by statement. Every slice and every subtraction
that could leave its bounds, and every product that could leave 64 bits, is guarded by
`Fault.panic`, so that a result other than `panic` says that none of them did.

## Main results

* `fill_spec`: `fill` neither loses nor invents bytes, and ends early only at the end of the
  stream.
* `next_refines`: one call of `next` does what the one-shot decoder does with the unread bytes.
* `ours_eq_stock`: **reading a stream to its end through `Inbound` is the plain decoder run on
  the whole byte string**, for every split, staging capacity and traversal limit.
-/

namespace Ogurpchik

open Async LittleEndian

/-- Why a call does not return a value: an error it reports, or a panic. Arithmetic and slices of
the source panic where they are out of bounds, and so do those of the model. -/
inductive Fault
  | error (kind : ErrorKind)
  | panic
  deriving DecidableEq, Repr

/-- Reading code that may fail, so that `do` reads as the source with its `?`. -/
abbrev ReadM := ExceptT Fault ReadProg

/-! ### Checked operations -/

/-- A product or sum of `usize` values; outside 64 bits it panics, as the source does where overflow
is checked. -/
def usize (n : ℕ) : ReadM ℕ :=
  if n < 2 ^ 64 then pure n else throw .panic

/-- `bytes[lo..hi]`; out of bounds it panics, as indexing does in the source. -/
def slice (bytes : List UInt8) (lo hi : ℕ) : ReadM (List UInt8) :=
  if lo ≤ hi ∧ hi ≤ bytes.length then pure ((bytes.take hi).drop lo) else throw .panic

/-- `reader.append(buf).await`, with an I/O error reported as the error it converts to. -/
def appendTo (buf : Vec) : ReadM { bs : List UInt8 // bs.length ≤ buf.room } :=
  ExceptT.mk (.await (.append buf) fun
    | .ok bs => .done (.ok bs)
    | .error e => .done (.error (.error (.ofIo e))))

/-- `reader.read_exact(..).await` into `n` bytes, with an I/O error reported as the error it
converts to. -/
def readExactly (n : ℕ) : ReadM (List UInt8) :=
  ExceptT.mk ((readExact n).bind fun
    | .ok bs => .done (.ok bs)
    | .error e => .done (.error (.error (.ofIo e))))

/-! ### Segment lengths -/

/-- `SegmentLengthsBuilder`: the lengths pushed so far and their sum, which is kept along with
them. -/
structure SegmentLengths where
  lengths : List ℕ
  totalWords : ℕ
  total_eq : totalWords = lengths.sum

namespace SegmentLengths

/-- The builder without segments, before the table is read. -/
def empty : SegmentLengths := ⟨[], 0, rfl⟩

/-- The builder with one more segment, and the sum that much larger. -/
def push (b : SegmentLengths) (words : ℕ) : SegmentLengths :=
  ⟨b.lengths ++ [words], b.totalWords + words, by simp [b.total_eq]⟩

/-- `try_push_segment`: refused when the total leaves 64 bits, with an error and not with a
panic. -/
def tryPushSegment (b : SegmentLengths) (words : ℕ) : ReadM SegmentLengths :=
  if b.totalWords + words < 2 ^ 64 then pure (b.push words)
  else throw (.error .messageSizeOverflow)

end SegmentLengths

/-! ### The decoder -/

/-- The state of the decoder: the staging buffer, the offset of its first unread byte, the
nominal capacity and the traversal limit of the reader options. -/
structure Inbound where
  staging : Vec
  pos : ℕ
  capacity : ℕ
  limit : Option ℕ

namespace Inbound

/-- `Inbound::new`: a decoder that has read nothing, with a staging buffer of its capacity. -/
def new (al : Alloc) (limit : Option ℕ) (capacity : ℕ) : Inbound :=
  ⟨Vec.withCapacity al capacity, 0, capacity, limit⟩

/-- Drop the bytes before `pos`, so that the unread ones stand at the front of the buffer. -/
def compact (inb : Inbound) : Inbound :=
  if 0 < inb.pos then { inb with staging := inb.staging.drain inb.pos, pos := 0 } else inb

/-- Make the buffer able to hold `needed` bytes, and at least the nominal capacity. The
capacity of a buffer is never below its length, so the difference is one of naturals. -/
def grow (al : Alloc) (inb : Inbound) (needed : ℕ) : Inbound :=
  let wanted := max inb.capacity needed
  if inb.staging.cap < wanted then
    { inb with staging := inb.staging.reserveExact al (wanted - inb.staging.len) }
  else inb

/-- The unread bytes in the staging buffer: what was read from the stream and not used yet. -/
def unread (inb : Inbound) : List UInt8 := inb.staging.data.drop inb.pos

/-- As many bytes are unread as stand behind the offset. -/
theorem length_unread (inb : Inbound) : inb.unread.length = inb.staging.len - inb.pos := by
  rw [unread, List.length_drop, Vec.len]

/-- An offset behind unread bytes is one into the buffer. -/
theorem offset_le {inb : Inbound} (hpos : inb.pos ≤ inb.staging.len) {n : ℕ}
    (hn : n ≤ inb.unread.length) : inb.pos + n ≤ inb.staging.data.length := by
  rw [length_unread, Vec.len] at hn
  rw [Vec.len] at hpos
  omega

/-- Draining moves the unread bytes to the front of the buffer and loses none of them. -/
theorem unread_compact (inb : Inbound) : inb.compact.staging.data = inb.unread ∧
    inb.compact.pos = 0 := by
  rw [compact, unread]
  split_ifs with h
  · exact ⟨rfl, rfl⟩
  · have h0 : inb.pos = 0 := by omega
    simp [h0]

/-- Growing the buffer does not change its bytes. -/
@[simp] theorem data_grow (al : Alloc) (inb : Inbound) (needed : ℕ) :
    (inb.grow al needed).staging.data = inb.staging.data := by
  unfold grow
  simp only
  split_ifs <;> rfl

/-- Growing the buffer does not change the offset. -/
@[simp] theorem pos_grow (al : Alloc) (inb : Inbound) (needed : ℕ) :
    (inb.grow al needed).pos = inb.pos := by
  unfold grow
  simp only
  split_ifs <;> rfl

/-- The decoder with the buffer as a read left it: the bytes of the read stand behind those that
were there. -/
def refill (inb : Inbound) (bytes : { bs : List UInt8 // bs.length ≤ inb.staging.room }) :
    Inbound :=
  { inb with staging := inb.staging.filled bytes }

/-- The buffer as `fill` hands it to a read, with its unread bytes at the front. -/
def ready (al : Alloc) (inb : Inbound) (needed : ℕ) : Inbound := inb.compact.grow al needed

/-- The buffer that is handed to a read holds the unread bytes and no others. -/
theorem data_ready (al : Alloc) (inb : Inbound) (needed : ℕ) :
    (inb.ready al needed).staging.data = inb.unread := by
  rw [ready, data_grow, inb.unread_compact.1]

/-- Nothing in front of them is left. -/
theorem pos_ready (al : Alloc) (inb : Inbound) (needed : ℕ) : (inb.ready al needed).pos = 0 := by
  rw [ready, pos_grow, inb.unread_compact.2]

/-- Behind a read the buffer holds the unread bytes and those of the read. -/
theorem data_refill_ready (al : Alloc) (inb : Inbound) (needed : ℕ)
    (bytes : { bs : List UInt8 // bs.length ≤ (inb.ready al needed).staging.room }) :
    ((inb.ready al needed).refill bytes).staging.data = inb.unread ++ bytes.val := by
  rw [refill, Vec.data_filled, data_ready]

/-- The offset is zero behind a read. -/
theorem pos_refill_ready (al : Alloc) (inb : Inbound) (needed : ℕ)
    (bytes : { bs : List UInt8 // bs.length ≤ (inb.ready al needed).staging.room }) :
    ((inb.ready al needed).refill bytes).pos = 0 :=
  inb.pos_ready al needed

/-- So what was unread and what was read are the unread bytes now, in this order. -/
theorem unread_refill_ready (al : Alloc) (inb : Inbound) (needed : ℕ)
    (bytes : { bs : List UInt8 // bs.length ≤ (inb.ready al needed).staging.room }) :
    ((inb.ready al needed).refill bytes).unread = inb.unread ++ bytes.val := by
  rw [unread, pos_refill_ready, List.drop_zero, data_refill_ready]

/-- A read that returned something leaves less to fill, so `fill` comes to an end. -/
theorem fill_decreases (al : Alloc) {inb : Inbound} {needed : ℕ}
    {bytes : { bs : List UInt8 // bs.length ≤ (inb.ready al needed).staging.room }}
    (hlt : inb.staging.len - inb.pos < needed) (hne : bytes.val ≠ []) :
    needed - (((inb.ready al needed).refill bytes).staging.len -
      ((inb.ready al needed).refill bytes).pos) < needed - (inb.staging.len - inb.pos) := by
  have hb := List.length_pos_iff.mpr hne
  have hdata := congrArg List.length (inb.data_refill_ready al needed bytes)
  rw [List.length_append, inb.length_unread] at hdata
  rw [inb.pos_refill_ready, Vec.len]
  omega

/-- Make `needed` unread bytes available. `false` stands for a stream that ended before the
first of them, where that is allowed. -/
def fill (al : Alloc) (inb : Inbound) (needed : ℕ) (eofOk : Bool) : ReadM (Bool × Inbound) :=
  if inb.staging.len < inb.pos then throw .panic
  else if inb.staging.len - inb.pos < needed then do
    let bytes ← appendTo (inb.ready al needed).staging
    if bytes.val = [] then
      if eofOk && ((inb.ready al needed).refill bytes).staging.data.isEmpty then
        pure (false, (inb.ready al needed).refill bytes)
      else throw (.error .prematureEndOfFile)
    else fill al ((inb.ready al needed).refill bytes) needed eofOk
  else pure (true, inb)
termination_by needed - (inb.staging.len - inb.pos)
decreasing_by
  exact fill_decreases al ‹_› ‹_›

/-- Induction along the loop of `fill`: what holds of a decoder if it holds behind every read that
returned something holds of every decoder. -/
@[elab_as_elim]
theorem fill_induction (al : Alloc) (needed : ℕ) {motive : Inbound → Prop}
    (step : ∀ inb : Inbound,
      (∀ bytes : { bs : List UInt8 // bs.length ≤ (inb.ready al needed).staging.room },
        inb.staging.len - inb.pos < needed → bytes.val ≠ [] →
        motive ((inb.ready al needed).refill bytes)) → motive inb)
    (inb : Inbound) : motive inb := by
  induction hm : needed - (inb.staging.len - inb.pos) using Nat.strong_induction_on
    generalizing inb with
  | _ m ih => exact step inb fun bytes hlt hne => ih _ (hm ▸ fill_decreases al hlt hne) _ rfl

/-- `word_at`: the `index`-th 32-bit word behind `pos`. It panics if the buffer does not hold it. -/
def wordAt (inb : Inbound) (index : ℕ) : ReadM UInt32 := do
  let word ← slice inb.staging.data (inb.pos + index * 4) (inb.pos + index * 4 + 4)
  pure (UInt32.ofNat (leNat word))

/-- The loop over the table entries: push the lengths of `remaining` segments from entry
`index` on. -/
def pushLengths (inb : Inbound) : ℕ → ℕ → SegmentLengths → ReadM SegmentLengths
  | 0, _, lengths => pure lengths
  | remaining + 1, index, lengths => do
      let word ← inb.wordAt (index + 1)
      let lengths ← lengths.tryPushSegment word.toNat
      inb.pushLengths remaining (index + 1) lengths

/-- The decoder `n` bytes further: they count as used, and stay in the buffer until the next
`fill`. -/
def advance (inb : Inbound) (n : ℕ) : Inbound := { inb with pos := inb.pos + n }

/-- Advancing uses up unread bytes from the front. -/
theorem unread_advance (inb : Inbound) (n : ℕ) : (inb.advance n).unread = inb.unread.drop n := by
  simp only [unread, advance, List.drop_drop]

/-- The body through the staging buffer: it is filled until it holds the body, which is then copied
out. -/
def stagedBody (al : Alloc) (inb : Inbound) (bodyLen : ℕ) : ReadM (List UInt8 × Inbound) := do
  let (_, inb) ← inb.fill al bodyLen false
  let body ← slice inb.staging.data inb.pos (inb.pos + bodyLen)
  pure (body, inb.advance bodyLen)

/-- The body read directly: first what the staging buffer holds of it, then the rest from the
connection. -/
def directBody (inb : Inbound) (bodyLen : ℕ) : ReadM (List UInt8 × Inbound) :=
  if inb.staging.len < inb.pos then throw .panic
  else do
    let buffered := min (inb.staging.len - inb.pos) bodyLen
    let front ← slice inb.staging.data inb.pos (inb.pos + buffered)
    let rest ← readExactly (bodyLen - buffered)
    pure (front ++ rest, inb.advance buffered)

/-- The body of a message whose table was read: a small one through the staging buffer, and one that
does not fit read directly into its own. -/
def body (al : Alloc) (inb : Inbound) (bodyLen : ℕ) : ReadM (List UInt8 × Inbound) :=
  if bodyLen ≤ inb.capacity then inb.stagedBody al bodyLen else inb.directBody bodyLen

/-- The part of `next` behind the segment count: the table, the size check and the body. -/
def message (al : Alloc) (inb : Inbound) (count : ℕ) : ReadM (Option Segments × Inbound) := do
  let (_, inb) ← inb.fill al (tableLen count) false
  let lengths ← inb.pushLengths count 0 .empty
  if exceeds inb.limit lengths.totalWords then
    throw (.error (.messageTooLarge lengths.totalWords))
  else
    let bodyLen ← usize (lengths.totalWords * WORD)
    let (bytes, inb) ← (inb.advance (tableLen count)).body al bodyLen
    pure (some (splitSegments lengths.lengths bytes), inb)

/-- `Inbound::next`: the next message, or `none` at the end of the stream. The end is clean only
before the first byte of a message. -/
def next (al : Alloc) (inb : Inbound) : ReadM (Option Segments × Inbound) := do
  let (more, inb) ← inb.fill al WORD true
  if more = false then pure (none, inb)
  else
    let word ← inb.wordAt 0
    let count := (word + 1).toNat
    if count = 0 ∨ SEGMENTS_COUNT_LIMIT ≤ count then
      throw (.error (.invalidNumberOfSegments count))
    else inb.message al count

end Inbound

/-! ### Runs of reading code -/

/-- `Yields x w r w'`: run against the stream `w`, the code `x` ends with `r` and leaves
`w'`. -/
abbrev Yields {α : Type} (x : ReadM α) (w : Wire) (r : Except Fault α) (w' : Wire) : Prop :=
  Prog.Returns Wire.handle x w r w'

section Yields

variable {w : Wire}

/-- An index that fits a machine word is computed without a panic. -/
theorem yields_usize {n : ℕ} (h : n < 2 ^ 64) (w : Wire) : Yields (usize n) w (.ok n) w := by
  rw [usize]
  rw [if_pos h]
  exact Prog.returns_pure n w

/-- On a wire an appending read brings the next piece of the stream. -/
theorem yields_appendTo (buf : Vec) (w : Wire) :
    Yields (appendTo buf) w (.ok (w.read buf.room).1) (w.read buf.room).2 := rfl

/-- A direct read of bytes the stream still has. -/
theorem yields_readExactly {xs rest : List UInt8} {cuts : Stream' ℕ} :
    ∃ cuts', Yields (readExactly xs.length) ⟨xs ++ rest, cuts⟩ (.ok xs) ⟨rest, cuts'⟩ := by
  obtain ⟨cuts', h⟩ := @run_readExactFrom_of_append xs.length [] xs rest cuts (by simp)
  refine ⟨cuts', ?_⟩
  simp only [Prog.Returns, readExactly]
  rw [ExceptT.run_mk, Prog.run_bind, readExact, h]
  rfl

/-- A direct read past the end of the stream. -/
theorem yields_readExactly_eof {n : ℕ} {w : Wire} (h : w.data.length < n) :
    ∃ w', Yields (readExactly n) w (.error (.error .prematureEndOfFile)) w' := by
  obtain ⟨cuts, hrun⟩ := run_readExactFrom_of_lt
    (show ([] : List UInt8).length + w.data.length < n by simpa using h)
  refine ⟨⟨[], cuts⟩, ?_⟩
  simp only [Prog.Returns, readExactly]
  rw [ExceptT.run_mk, Prog.run_bind, readExact, hrun]
  rfl

end Yields

namespace Inbound

/-! ### Filling the staging buffer -/

/-- The decoder `inb` on the connection `w` stands before `bytes`: its offset lies within the
staging buffer, and `bytes` are the unread ones in the buffer followed by those on the wire.
The configuration never changes and is recorded along. -/
structure At (inb : Inbound) (w : Wire) (capacity : ℕ) (limit : Option ℕ)
    (bytes : List UInt8) : Prop where
  pos_le : inb.pos ≤ inb.staging.len
  bytes_eq : inb.unread ++ w.data = bytes
  capacity_eq : inb.capacity = capacity
  limit_eq : inb.limit = limit

section Spec

variable {capacity : ℕ} {limit : Option ℕ} {bytes : List UInt8} {inb : Inbound} {w : Wire}

/-- A new decoder stands before the whole stream. -/
theorem at_new (al : Alloc) (limit : Option ℕ) (capacity : ℕ) (w : Wire) :
    At (new al limit capacity) w capacity limit w.data :=
  ⟨Nat.zero_le _, rfl, rfl, rfl⟩

/-- The buffer handed to a read has room for at least one byte: it can hold `needed` bytes
and holds fewer. -/
theorem room_ready_pos (al : Alloc) {inb : Inbound} {needed : ℕ}
    (h : inb.unread.length < needed) : 0 < (inb.ready al needed).staging.room := by
  have hdata := inb.data_ready al needed
  have hcap : needed ≤ (inb.ready al needed).staging.cap := by
    unfold ready grow
    simp only
    split_ifs with hlt
    · refine le_trans ?_ (Vec.le_grown _ _ _)
      rw [Vec.len]
      omega
    · omega
  rw [Vec.room]
  rw [hdata]
  omega

/-- Making the buffer ready does not touch the configuration of the decoder. -/
theorem config_ready (al : Alloc) (inb : Inbound) (needed : ℕ) :
    (inb.ready al needed).capacity = inb.capacity ∧
      (inb.ready al needed).limit = inb.limit := by
  unfold ready grow compact
  simp only
  split_ifs <;> exact ⟨rfl, rfl⟩

/-- One read on behalf of `fill` moves bytes from the wire into the buffer. -/
theorem At.refill (al : Alloc) (needed : ℕ) (h : At inb w capacity limit bytes) :
    At ((inb.ready al needed).refill (w.read (inb.ready al needed).staging.room).1)
      (w.read (inb.ready al needed).staging.room).2 capacity limit bytes where
  pos_le := by
    rw [pos_refill_ready]
    exact Nat.zero_le _
  bytes_eq := by
    rw [unread_refill_ready, List.append_assoc, Wire.read_append_data, h.bytes_eq]
  capacity_eq := (inb.config_ready al needed).1.trans h.capacity_eq
  limit_eq := (inb.config_ready al needed).2.trans h.limit_eq

/-- `fill` returns at once when enough bytes are there. -/
theorem fill_of_le (al : Alloc) (hv : inb.pos ≤ inb.staging.len) {needed : ℕ} (eofOk : Bool)
    (h : needed ≤ inb.unread.length) (w : Wire) :
    Yields (inb.fill al needed eofOk) w (.ok (true, inb)) w := by
  rw [length_unread] at h
  rw [fill, if_neg (not_lt.mpr hv), if_neg (not_lt.mpr h)]
  exact Prog.returns_pure _ _

/-- `fill` with too few bytes is one read, and then the test for the end of the stream or
`fill` again. -/
theorem fill_of_lt (al : Alloc) (hv : inb.pos ≤ inb.staging.len) {needed : ℕ} (eofOk : Bool)
    (h : inb.unread.length < needed) :
    inb.fill al needed eofOk = (do
      let bytes ← appendTo (inb.ready al needed).staging
      if bytes.val = [] then
        if eofOk && ((inb.ready al needed).refill bytes).staging.data.isEmpty then
          pure (false, (inb.ready al needed).refill bytes)
        else throw (.error .prematureEndOfFile)
      else fill al ((inb.ready al needed).refill bytes) needed eofOk) := by
  rw [length_unread] at h
  rw [fill, if_neg (not_lt.mpr hv), if_pos h]

/-- One round of `fill` while the stream lasts: the wire gets shorter. -/
theorem fill_round (al : Alloc) (ha : At inb w capacity limit bytes) {needed : ℕ}
    (eofOk : Bool) (h : inb.unread.length < needed) (hd : w.data ≠ []) :
    ∃ inb' w', At inb' w' capacity limit bytes ∧ w'.data.length < w.data.length ∧
      ∀ {r w''}, Yields (inb'.fill al needed eofOk) w' r w'' →
        Yields (inb.fill al needed eofOk) w r w'' := by
  have hroom := room_ready_pos al h
  have hne : (w.read (inb.ready al needed).staging.room).1.val ≠ [] :=
    fun h0 => hd ((w.read_eq_nil_iff hroom).mp h0)
  refine ⟨_, _, ha.refill al needed, ?_, ?_⟩
  · have hsum := congrArg List.length (w.read_append_data (inb.ready al needed).staging.room)
    have hpos := List.length_pos_iff.mpr hne
    rw [List.length_append] at hsum
    omega
  · intro r w'' hr
    rw [fill_of_lt al ha.pos_le eofOk h]
    refine (yields_appendTo _ w).bind ?_
    rw [if_neg hne]
    exact hr

/-- The last round of `fill` at the end of the stream: a clean end if nothing is there and it is
allowed, and an error otherwise. -/
theorem fill_eof (al : Alloc) (ha : At inb w capacity limit bytes) {needed : ℕ}
    (eofOk : Bool) (h : inb.unread.length < needed) (hd : w.data = []) :
    ∃ inb' w', At inb' w' capacity limit bytes ∧
      Yields (inb.fill al needed eofOk) w
        (if eofOk && bytes.isEmpty then .ok (false, inb')
          else .error (.error .prematureEndOfFile)) w' := by
  have hroom := room_ready_pos al h
  have hnil : (w.read (inb.ready al needed).staging.room).1.val = [] :=
    (w.read_eq_nil_iff hroom).mpr hd
  have hbytes : inb.unread = bytes := by
    rw [← ha.bytes_eq, hd, List.append_nil]
  refine ⟨_, _, ha.refill al needed, ?_⟩
  rw [fill_of_lt al ha.pos_le eofOk h]
  refine (yields_appendTo _ w).bind ?_
  rw [if_pos hnil, data_refill_ready, hnil, List.append_nil, hbytes]
  split_ifs
  · exact Prog.returns_pure _ _
  · exact Prog.returns_throw _ _

/-- **`fill` neither loses nor invents bytes.** It makes `needed` bytes available when the
buffer and the stream have them together, and otherwise reports the end of the stream: as a
clean one only where that is allowed and no byte is left over. -/
theorem fill_spec (al : Alloc) (ha : At inb w capacity limit bytes) (needed : ℕ)
    (eofOk : Bool) :
    ∃ inb' w', At inb' w' capacity limit bytes ∧
      (needed ≤ bytes.length → needed ≤ inb'.unread.length ∧
        Yields (inb.fill al needed eofOk) w (.ok (true, inb')) w') ∧
      (bytes.length < needed → Yields (inb.fill al needed eofOk) w
        (if eofOk && bytes.isEmpty then .ok (false, inb')
          else .error (.error .prematureEndOfFile)) w') := by
  -- each round takes at least one byte off the wire
  induction hm : w.data.length using Nat.strong_induction_on generalizing inb w with
  | _ m ih =>
      have hlen := congrArg List.length ha.bytes_eq
      rw [List.length_append] at hlen
      by_cases hle : needed ≤ inb.unread.length
      · exact ⟨inb, w, ha, fun _ => ⟨hle, fill_of_le al ha.pos_le eofOk hle w⟩,
          fun hlt => by omega⟩
      · by_cases hd : w.data = []
        · obtain ⟨inb', w', ha', hy⟩ := fill_eof al ha eofOk (not_le.mp hle) hd
          rw [hd, List.length_nil] at hlen
          exact ⟨inb', w', ha', fun h => by omega, fun _ => hy⟩
        · obtain ⟨inb', w', ha', hlt, hround⟩ := fill_round al ha eofOk (not_le.mp hle) hd
          obtain ⟨inb'', w'', ha'', henough, hshort⟩ := ih _ (hm ▸ hlt) ha' rfl
          exact ⟨inb'', w'', ha'', fun h => ⟨(henough h).1, hround (henough h).2⟩,
            fun h => hround (hshort h)⟩

/-! ### Reading the table -/

/-- The bytes a slice from `pos` on returns, in terms of the unread bytes. -/
theorem slice_unread (inb : Inbound) (lo n : ℕ) :
    (inb.staging.data.take (inb.pos + lo + n)).drop (inb.pos + lo) =
      (inb.unread.drop lo).take n := by
  rw [unread, List.drop_drop, List.drop_take]
  congr 1
  omega

/-- A table word in the buffer is read without waiting. -/
theorem wordAt_eq (hpos : inb.pos ≤ inb.staging.len) {index : ℕ}
    (h : index * 4 + 4 ≤ inb.unread.length) :
    inb.wordAt index =
      pure (UInt32.ofNat (leNat ((inb.unread.drop (index * 4)).take 4))) := by
  have hle := offset_le hpos h
  rw [← Nat.add_assoc] at hle
  rw [wordAt, slice, if_pos ⟨Nat.le_add_right _ _, hle⟩, slice_unread]
  rfl

/-- A slice of unread bytes is read without waiting. -/
theorem slice_eq (hpos : inb.pos ≤ inb.staging.len) {n : ℕ} (hn : n ≤ inb.unread.length) :
    slice inb.staging.data inb.pos (inb.pos + n) = pure (inb.unread.take n) := by
  have hslice := inb.slice_unread 0 n
  rw [Nat.add_zero, List.drop_zero] at hslice
  rw [slice, if_pos ⟨Nat.le_add_right _ _, offset_le hpos hn⟩, hslice]

/-- A 32-bit word read from four bytes. -/
theorem toNat_word (bs : List UInt8) :
    (UInt32.ofNat (leNat (bs.take 4))).toNat = leNat (bs.take 4) := by
  have hlt := leNat_lt (bs.take 4)
  have hle : 256 ^ (bs.take 4).length ≤ 256 ^ 4 :=
    Nat.pow_le_pow_right (by omega) (by simp)
  rw [UInt32.toNat_ofNat']
  exact Nat.mod_eq_of_lt (by omega)

/-- The number of segments, one more than the first word. -/
theorem toNat_word_succ (bs : List UInt8) :
    (UInt32.ofNat (leNat (bs.take 4)) + 1).toNat = (leNat (bs.take 4) + 1) % 2 ^ 32 := by
  rw [UInt32.toNat_add, toNat_word]
  rfl

/-- The loop over the table entries reads the words of the table in order. -/
theorem pushLengths_eq (hpos : inb.pos ≤ inb.staging.len) (remaining index : ℕ)
    (b : SegmentLengths) (hlen : (index + remaining) * 4 + 4 ≤ inb.unread.length)
    (hsum : b.totalWords + remaining * 2 ^ 32 < 2 ^ 64) :
    ∃ b', inb.pushLengths remaining index b = pure b' ∧
      b'.lengths = b.lengths ++ tableWords remaining (inb.unread.drop ((index + 1) * 4)) ∧
      b'.totalWords ≤ b.totalWords + remaining * 2 ^ 32 := by
  induction remaining generalizing index b with
  | zero => exact ⟨b, rfl, by simp [tableWords], by omega⟩
  | succ remaining ih =>
      have hword := wordAt_eq hpos (show (index + 1) * 4 + 4 ≤ inb.unread.length by omega)
      set word := UInt32.ofNat (leNat ((inb.unread.drop ((index + 1) * 4)).take 4)) with hw
      have hval : word.toNat = leNat ((inb.unread.drop ((index + 1) * 4)).take 4) := toNat_word _
      have hlt : word.toNat < 2 ^ 32 := word.toNat_lt
      obtain ⟨b', hy, hl, ht⟩ := ih (index + 1) (b.push word.toNat) (by omega) (by
        simp only [SegmentLengths.push]
        omega)
      refine ⟨b', ?_, ?_, ?_⟩
      · rw [pushLengths, hword, pure_bind, SegmentLengths.tryPushSegment, if_pos (by omega),
          pure_bind, hy]
      · rw [hl, tableWords, List.drop_drop, ← hval]
        simp only [SegmentLengths.push, List.append_assoc, List.singleton_append]
        congr 4
        omega
      · simp only [SegmentLengths.push] at ht
        omega

/-- What the buffer holds of a table is what the stream has there. -/
theorem At.tableWords_eq (ha : At inb w capacity limit bytes) {count : ℕ}
    (h : 4 * (count + 1) ≤ inb.unread.length) :
    tableWords count (bytes.drop 4) = tableWords count (inb.unread.drop 4) := by
  rw [← ha.bytes_eq, List.drop_append_of_le_length (by omega)]
  exact tableWords_append (by rw [List.length_drop]; omega) w.data

/-- What the buffer holds of the stream is the front of it. -/
theorem At.take_eq (ha : At inb w capacity limit bytes) {n : ℕ} (h : n ≤ inb.unread.length) :
    bytes.take n = inb.unread.take n := by
  rw [← ha.bytes_eq, List.take_append_of_le_length h]

/-! ### Reading the body -/

/-- Advancing past buffered bytes moves the decoder forward in the stream. -/
theorem At.advance (ha : At inb w capacity limit bytes) {n : ℕ} (h : n ≤ inb.unread.length) :
    At (inb.advance n) w capacity limit (bytes.drop n) where
  pos_le := offset_le ha.pos_le h
  bytes_eq := by rw [← ha.bytes_eq, List.drop_append_of_le_length h, unread_advance]
  capacity_eq := ha.capacity_eq
  limit_eq := ha.limit_eq

/-- The body through the staging buffer: it is cut from the front of the bytes, or the stream ends
too early. -/
theorem stagedBody_spec (al : Alloc) (ha : At inb w capacity limit bytes) (n : ℕ) :
    ∃ inb' w', (n ≤ bytes.length → At inb' w' capacity limit (bytes.drop n) ∧
        Yields (inb.stagedBody al n) w (.ok (bytes.take n, inb')) w') ∧
      (bytes.length < n →
        Yields (inb.stagedBody al n) w (.error (.error .prematureEndOfFile)) w') := by
  obtain ⟨inb', w', ha', henough, hshort⟩ := fill_spec al ha n false
  refine ⟨inb'.advance n, w', fun hle => ?_, fun hlt => ?_⟩
  · obtain ⟨hn, hy⟩ := henough hle
    refine ⟨ha'.advance hn, hy.bind ?_⟩
    dsimp only
    rw [slice_eq ha'.pos_le hn, pure_bind, ← ha'.bytes_eq, List.take_append_of_le_length hn]
    exact Prog.returns_pure _ _
  · exact (hshort hlt).bind_error _

/-- The body read directly from the connection, behind what is staged of it: the same bytes, or the
same error. -/
theorem directBody_spec (ha : At inb w capacity limit bytes) (n : ℕ) :
    ∃ inb' w', (n ≤ bytes.length → At inb' w' capacity limit (bytes.drop n) ∧
        Yields (inb.directBody n) w (.ok (bytes.take n, inb')) w') ∧
      (bytes.length < n →
        Yields (inb.directBody n) w (.error (.error .prematureEndOfFile)) w') := by
  have hpos := ha.pos_le
  have hlen := congrArg List.length ha.bytes_eq
  rw [List.length_append] at hlen
  set buffered := min (inb.staging.len - inb.pos) n with hbuf
  rw [← length_unread] at hbuf
  have hfront : Yields (slice inb.staging.data inb.pos (inb.pos + buffered)) w
      (.ok (inb.unread.take buffered)) w := by
    rw [slice_eq hpos (hbuf.trans_le (min_le_left _ _))]
    exact Prog.returns_pure _ _
  rw [directBody]
  simp only [if_neg (not_lt.mpr hpos), ← hbuf, ← length_unread]
  -- what is missing is what the buffer does not hold, in whichever way the minimum falls
  have hmissing : n - buffered = n - inb.unread.length := by omega
  have htake : inb.unread.take buffered = inb.unread.take n := by
    rw [hbuf, ← List.take_take, List.take_of_length_le (List.length_take_le' n inb.unread)]
  have hdrop : inb.unread.drop buffered = inb.unread.drop n := by
    rcases le_total n inb.unread.length with hc | hc
    · rw [hbuf, min_eq_right hc]
    · rw [hbuf, min_eq_left hc, List.drop_of_length_le hc, List.drop_length]
  by_cases hn : n ≤ bytes.length
  · obtain ⟨cuts', hread⟩ := @yields_readExactly (w.data.take (n - inb.unread.length))
      (w.data.drop (n - inb.unread.length)) w.cuts
    rw [List.take_append_drop, List.length_take_of_le (by omega), ← hmissing] at hread
    refine ⟨inb.advance buffered, ⟨w.data.drop (n - buffered), cuts'⟩, fun _ => ⟨?_, ?_⟩,
      fun h => by omega⟩
    · refine ⟨(ha.advance (by omega)).pos_le, ?_, ha.capacity_eq, ha.limit_eq⟩
      rw [← ha.bytes_eq, List.drop_append, ← hmissing, ← hdrop, unread_advance]
    · refine hfront.bind (hread.bind ?_)
      rw [← ha.bytes_eq, List.take_append, ← hmissing, htake]
      exact Prog.returns_pure _ _
  · obtain ⟨w', hread⟩ := yields_readExactly_eof (show w.data.length < n - buffered by omega)
    exact ⟨inb, w', fun h => absurd h hn, fun _ => hfront.bind (hread.bind_error _)⟩

/-- Either way the body is the next `n` bytes of the stream, or the stream is too short. -/
theorem body_spec (al : Alloc) (ha : At inb w capacity limit bytes) (n : ℕ) :
    ∃ inb' w', (n ≤ bytes.length → At inb' w' capacity limit (bytes.drop n) ∧
        Yields (inb.body al n) w (.ok (bytes.take n, inb')) w') ∧
      (bytes.length < n →
        Yields (inb.body al n) w (.error (.error .prematureEndOfFile)) w') := by
  rw [body]
  split_ifs
  · exact stagedBody_spec al ha n
  · exact directBody_spec ha n

/-! ### One message -/

/-- Bytes behind the segments do not change how a body is cut. -/
theorem splitSegments_take (ns : List ℕ) (body : List UInt8) :
    splitSegments ns (body.take (WORD * ns.sum)) = splitSegments ns body := by
  induction ns generalizing body with
  | nil => rfl
  | cons n ns ih =>
      rw [splitSegments, splitSegments, List.sum_cons, Nat.mul_add, List.take_take,
        min_eq_left (Nat.le_add_right _ _), List.drop_take, Nat.add_sub_cancel_left, ih]

/-- The simulation of one parse: the code yields what the one-shot decoder returns and, where
that is no error, leaves the decoder before the remaining bytes. -/
def Refines (x : ReadM (Option Segments × Inbound)) (w : Wire) (capacity : ℕ)
    (limit : Option ℕ) (bytes : List UInt8) (parsed : Parsed) : Prop :=
  ∃ inb' w', match parsed with
    | .clean => Yields x w (.ok (none, inb')) w' ∧ At inb' w' capacity limit bytes
    | .fail kind => Yields x w (.error (.error kind)) w'
    | .message segments rest =>
        Yields x w (.ok (some segments, inb')) w' ∧ At inb' w' capacity limit rest

/-- Only the run matters. -/
theorem Refines.congr {x y : ReadM (Option Segments × Inbound)} {w w' : Wire} {parsed : Parsed}
    (hx : Refines x w capacity limit bytes parsed)
    (h : Prog.run Wire.handle x.run w = Prog.run Wire.handle y.run w') :
    Refines y w' capacity limit bytes parsed := by
  obtain ⟨inb', w'', hx⟩ := hx
  refine ⟨inb', w'', ?_⟩
  cases parsed <;> simpa only [Prog.Returns, h] using hx

/-- **One read** of a call that is right for every split: it is right for every split of what
the read leaves. A read returns nothing only without room or at the end of the stream. -/
theorem Refines.read {op : ReadOp} {k : op.Ans → ReadM (Option Segments × Inbound)}
    {front rest : List UInt8} {parsed : Parsed} (hroom : front.length ≤ op.room)
    (hnil : front = [] → op.room = 0 ∨ rest = [])
    (h : ∀ cuts, Refines (.await op k) ⟨front ++ rest, cuts⟩ capacity limit bytes parsed)
    (cuts : Stream' ℕ) :
    Refines (k (.ok ⟨front, hroom⟩)) ⟨rest, cuts⟩ capacity limit bytes parsed := by
  -- the read is the first of a split whose head is its length
  have hhandle : Wire.handle ⟨front ++ rest, Stream'.cons front.length cuts⟩ op =
      (.ok ⟨front, hroom⟩, ⟨rest, cuts⟩) := by
    by_cases hfront : front = []
    · subst hfront
      rcases hnil rfl with h0 | rfl
      · simp [Wire.handle, Wire.read, Wire.readLen, h0]
      · simp [Wire.handle, Wire.read]
    · obtain ⟨hval, hleft⟩ := Wire.read_cons (front ++ rest) front.length cuts
        (List.length_pos_iff.mpr hfront) hroom
      rw [List.take_left] at hval
      rw [List.drop_left] at hleft
      rw [Wire.handle, hleft]
      exact Prod.ext (congrArg Except.ok (Subtype.ext hval)) rfl
  refine (h (Stream'.cons front.length cuts)).congr ?_
  refine (Prog.run_await Wire.handle op k _).trans ?_
  rw [hhandle]
  rfl

/-- A call that returned a message parsed it, and the decoder stands behind it. -/
theorem Refines.of_message {segments : Segments} {parsed : Parsed}
    (h : Refines (.done (.ok (some segments, inb))) w capacity limit bytes parsed) :
    ∃ rest, parsed = .message segments rest ∧ At inb w capacity limit rest := by
  obtain ⟨inb', w', h⟩ := h
  cases parsed with
  | clean => cases h.1
  | fail kind => cases h
  | message segments' rest =>
      obtain ⟨hy, hat⟩ := h
      cases hy
      exact ⟨rest, rfl, hat⟩

/-- A call that returned the end of the stream found it, and the decoder stays where it was. -/
theorem Refines.of_end {parsed : Parsed}
    (h : Refines (.done (.ok (none, inb))) w capacity limit bytes parsed) :
    parsed = .clean ∧ At inb w capacity limit bytes := by
  obtain ⟨inb', w', h⟩ := h
  cases parsed with
  | clean =>
      obtain ⟨hy, hat⟩ := h
      cases hy
      exact ⟨rfl, hat⟩
  | fail kind => cases h
  | message segments rest => cases h.1

/-- A call that failed reports the error of the parse: no other fault is possible. -/
theorem Refines.of_error {fault : Fault} {parsed : Parsed}
    (h : Refines (.done (.error fault)) w capacity limit bytes parsed) :
    ∃ kind, fault = .error kind ∧ parsed = .fail kind := by
  obtain ⟨inb', w', h⟩ := h
  cases parsed with
  | clean => cases h.1
  | fail kind =>
      cases h
      exact ⟨kind, rfl, rfl⟩
  | message segments rest => cases h.1

/-- The table and the body are read as the one-shot decoder reads them. -/
theorem message_refines (al : Alloc) (ha : At inb w capacity limit bytes) {count : ℕ}
    (hcount : count < SEGMENTS_COUNT_LIMIT) :
    Refines (inb.message al count) w capacity limit bytes (readSegments limit count bytes) := by
  have hlimit : SEGMENTS_COUNT_LIMIT = 512 := rfl
  rw [readSegments]
  obtain ⟨inb₁, w₁, ha₁, henough, htrunc⟩ := fill_spec al ha (tableLen count) false
  by_cases htable : bytes.length < tableLen count
  · rw [if_pos htable]
    exact ⟨inb₁, w₁, (htrunc htable).bind_error _⟩
  rw [if_neg htable]
  obtain ⟨hlen, hfill⟩ := henough (not_lt.mp htable)
  have hfour := four_mul_le_tableLen count
  obtain ⟨b, hpure, hlengths, htotal⟩ := pushLengths_eq ha₁.pos_le count 0 .empty (by omega) (by
    simp only [SegmentLengths.empty]
    omega)
  have hpush : Yields (inb₁.pushLengths count 0 .empty) w₁ (.ok b) w₁ :=
    hpure ▸ Prog.returns_pure b w₁
  have hb : b.lengths = tableWords count (bytes.drop 4) := by
    rw [ha₁.tableWords_eq (by omega)]
    simpa [SegmentLengths.empty] using hlengths
  simp only [← hb, ← b.total_eq]
  by_cases hlarge : exceeds limit b.totalWords
  · rw [if_pos hlarge]
    refine ⟨inb₁, w₁, hfill.bind (hpush.bind ?_)⟩
    simp only [ha₁.limit_eq, hlarge, if_true]
    exact Prog.returns_throw _ _
  rw [if_neg hlarge]
  have husize : b.totalWords * WORD < 2 ^ 64 := by
    simp only [SegmentLengths.empty] at htotal
    rw [WORD]
    omega
  have hmul : WORD * b.totalWords = b.totalWords * WORD := Nat.mul_comm _ _
  obtain ⟨inb₂, w₂, hbody, hcut⟩ := body_spec al (ha₁.advance hlen) (b.totalWords * WORD)
  rw [List.length_drop] at hbody hcut
  by_cases hshort : bytes.length < tableLen count + WORD * b.totalWords
  · rw [if_pos hshort]
    refine ⟨inb₂, w₂, hfill.bind (hpush.bind ?_)⟩
    simp only [ha₁.limit_eq, hlarge]
    exact (yields_usize husize _).bind ((hcut (by omega)).bind_error _)
  rw [if_neg hshort]
  obtain ⟨ha₂, hy⟩ := hbody (by omega)
  rw [List.drop_drop, Nat.mul_comm] at ha₂
  refine ⟨inb₂, w₂, hfill.bind (hpush.bind ?_), ha₂⟩
  have hsplit := splitSegments_take b.lengths (bytes.drop (tableLen count))
  rw [← b.total_eq, Nat.mul_comm] at hsplit
  simp only [ha₁.limit_eq, hlarge]
  refine (yields_usize husize _).bind (hy.bind ?_)
  simp only [hsplit]
  exact Prog.returns_pure _ _

/-- **One call of `next`** does what the one-shot decoder does with the bytes the decoder
stands before, and leaves the decoder behind the message. -/
theorem next_refines (al : Alloc) (ha : At inb w capacity limit bytes) :
    Refines (inb.next al) w capacity limit bytes (tryReadMessage limit bytes) := by
  have hWORD : WORD = 8 := rfl
  rw [tryReadMessage]
  obtain ⟨inb₁, w₁, ha₁, henough, htrunc⟩ := fill_spec al ha WORD true
  by_cases hnil : bytes = []
  · rw [if_pos hnil]
    have hy := htrunc (by rw [hnil]; decide)
    rw [if_pos (by simp [hnil])] at hy
    exact ⟨inb₁, w₁, hy.bind (Prog.returns_pure _ _), ha₁⟩
  rw [if_neg hnil]
  by_cases hword : bytes.length < WORD
  · rw [if_pos hword]
    have hy := htrunc hword
    rw [if_neg (by simpa using hnil)] at hy
    exact ⟨inb₁, w₁, hy.bind_error _⟩
  rw [if_neg hword]
  obtain ⟨hlen, hfill⟩ := henough (not_lt.mp hword)
  have hfirst : Yields (inb₁.wordAt 0) w₁ (.ok (UInt32.ofNat (leNat (bytes.take 4)))) w₁ := by
    rw [wordAt_eq ha₁.pos_le (show 0 * 4 + 4 ≤ inb₁.unread.length by omega), Nat.zero_mul,
      List.drop_zero, ha₁.take_eq (by omega)]
    exact Prog.returns_pure _ _
  -- the count is known, so the rest of the call is `message` or the refusal
  have hhead : ∀ {r w'}, Yields (if (leNat (bytes.take 4) + 1) % 2 ^ 32 = 0 ∨
        SEGMENTS_COUNT_LIMIT ≤ (leNat (bytes.take 4) + 1) % 2 ^ 32 then
      throw (.error (.invalidNumberOfSegments ((leNat (bytes.take 4) + 1) % 2 ^ 32)))
      else inb₁.message al ((leNat (bytes.take 4) + 1) % 2 ^ 32)) w₁ r w' →
      Yields (inb.next al) w r w' := by
    intro r w' hr
    rw [← toNat_word_succ] at hr
    exact hfill.bind (hfirst.bind hr)
  simp only
  generalize (leNat (bytes.take 4) + 1) % 2 ^ 32 = count at hhead ⊢
  by_cases hbad : count = 0 ∨ SEGMENTS_COUNT_LIMIT ≤ count
  · rw [if_pos hbad] at hhead ⊢
    exact ⟨inb₁, w₁, hhead (Prog.returns_throw _ _)⟩
  · rw [if_neg hbad] at hhead ⊢
    obtain ⟨inb₂, w₂, hmsg⟩ := message_refines al ha₁ (not_le.mp fun h => hbad (.inr h))
    refine ⟨inb₂, w₂, ?_⟩
    cases hparse : readSegments limit count bytes with
    | clean =>
        rw [hparse] at hmsg
        exact ⟨hhead hmsg.1, hmsg.2⟩
    | fail kind =>
        rw [hparse] at hmsg
        exact hhead hmsg
    | message segments rest =>
        rw [hparse] at hmsg
        exact ⟨hhead hmsg.1, hmsg.2⟩

end Spec

/-! ### Whole streams -/

/-- Call `next` until it returns `none` or an error, at most `calls` times. `none` stands for
a panic and for a stream that takes more calls. -/
def readAll (al : Alloc) : ℕ → Inbound → Wire → Option Outcome
  | 0, _, _ => none
  | calls + 1, inb, w =>
      match Prog.run Wire.handle (inb.next al).run w with
      | (.ok (some segments, inb'), w') =>
          (readAll al calls inb' w').map fun o => (segments :: o.1, o.2)
      | (.ok (none, _), _) => some ([], .ok ())
      | (.error (.error kind), _) => some ([], .error kind)
      | (.error .panic, _) => none

/-- From any position in a stream, enough calls read what the plain decoder reads. -/
theorem readAll_eq_stock (al : Alloc) {capacity : ℕ} {limit : Option ℕ} {bytes : List UInt8}
    {inb : Inbound} {w : Wire} (ha : At inb w capacity limit bytes) {calls : ℕ}
    (h : bytes.length < calls) : readAll al calls inb w = some (stock limit bytes) := by
  induction calls generalizing inb w bytes with
  | zero => omega
  | succ calls ih =>
      obtain ⟨inb', w', hnext⟩ := next_refines al ha
      cases hparse : tryReadMessage limit bytes with
      | clean =>
          rw [hparse] at hnext
          have hy : Prog.run Wire.handle (inb.next al).run w = _ := hnext.1
          rw [readAll, hy, stock_of_clean hparse]
      | fail kind =>
          rw [hparse] at hnext
          have hy : Prog.run Wire.handle (inb.next al).run w = _ := hnext
          rw [readAll, hy, stock_of_fail hparse]
      | message segments rest =>
          rw [hparse] at hnext
          have hy : Prog.run Wire.handle (inb.next al).run w = _ := hnext.1
          have hlt := length_lt_of_tryReadMessage hparse
          rw [readAll, hy, stock_of_message hparse]
          simp only [ih hnext.2 (show rest.length < calls by omega), Option.map_some]

end Inbound

/-- Read a whole stream through a new decoder. Every call but the last takes a message off the
stream, so one call more than there are bytes is enough. -/
def ours (al : Alloc) (stream : List UInt8) (cuts : Stream' ℕ) (capacity : ℕ)
    (limit : Option ℕ) : Option Outcome :=
  Inbound.readAll al (stream.length + 1) (Inbound.new al limit capacity) ⟨stream, cuts⟩

/-- **The streaming decoder refines the plain one.** For every byte stream, every split into
reads, every staging capacity and every traversal limit, the messages and the final result are
those of the one-shot decoder on the whole byte string. -/
theorem ours_eq_stock (al : Alloc) (stream : List UInt8) (cuts : Stream' ℕ) (capacity : ℕ)
    (limit : Option ℕ) : ours al stream cuts capacity limit = some (stock limit stream) :=
  Inbound.readAll_eq_stock al (Inbound.at_new al limit capacity ⟨stream, cuts⟩)
    (Nat.lt_succ_self _)

/-- A one-segment message and a truncated second one, read a byte at a time through a staging
buffer of no capacity. -/
example : ours .exact
    ([0, 0, 0, 0, 1, 0, 0, 0] ++ [1, 2, 3, 4, 5, 6, 7, 8] ++ [0, 0, 0]) (Stream'.const 1) 0
      (some 1) =
    some ([[[1, 2, 3, 4, 5, 6, 7, 8]]], .error .prematureEndOfFile) := by
  decide +kernel

end Ogurpchik
