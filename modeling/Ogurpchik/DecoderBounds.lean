import Ogurpchik.DecoderActions

/-!
# Indices and Lengths of the Decoder

The staging buffer of `Inbound` is drained, grown and refilled while an offset into it moves, and
the sizes it is asked to hold come from the peer. A slice outside the buffer or a difference below
zero would panic, and a read into a full buffer would return nothing and be taken for the end of the
stream.

`Ogurpchik.DecoderActions` shows these operations one by one. Here every action of a call gets its
bound (`Guard`), and each function of the decoder keeps to them, whatever the reads return
(`keeps_fill` to `keeps_next`). What one call keeps every session keeps (`Inv`). The bounds also say
what is read and allocated for a message that is larger than the limit; `Ogurpchik.Buffering` uses
them for that.

## Main definitions

* `Bounds`: the parameters of a decoder, and the largest capacity its buffer may be granted.
* `Guard`, `Keeps`: the bounds of an action, and code that keeps to them.
* `Inv`: what holds in every session.

## Main results

* `keeps_next`: every action of one call is within its bounds.
* `Inv.step`, `inv_of_reachable`: so is every action of a session.
* `decoder_in_bounds`: **no panic, no lost byte, no read too many**, over every session.
-/

namespace Ogurpchik

/-- An allocator whose capacities are `usize` values of 64 bits, if what it is asked for is one. -/
structure Alloc64 extends Alloc where
  grant_lt : ∀ cap need, need < 2 ^ 64 → grant cap need < 2 ^ 64

/-- The allocator that grants exactly what it is asked for, on a machine of 64 bits. -/
def Alloc64.exact : Alloc64 := ⟨.exact, fun _ _ h => h⟩

namespace Decoder

open Async LittleEndian

/-! ### The bounds of an action -/

/-- The staging capacity and the traversal limit of a decoder, and a bound for the capacity of its
staging buffer. The buffer has to hold a segment table of up to 511 segments, whatever the staging
capacity is. -/
structure Bounds where
  capacity : ℕ
  limit : Option ℕ
  cap : ℕ
  capacity_le : capacity ≤ cap
  table_le : 2048 ≤ cap

/-- The allocator does not go beyond the bound if it is not asked to: what is granted beyond need is
part of the bound. -/
def Bounds.Allows (b : Bounds) (al : Alloc) : Prop :=
  ∀ cap need, need ≤ b.cap → al.grant cap need ≤ b.cap

/-- A decoder within the bounds: its offset is not behind its bytes, its buffer not too large, and
it is the decoder it was made as. -/
structure Stored (b : Bounds) (inb : Inbound) : Prop where
  pos_le : inb.pos ≤ inb.staging.len
  cap_le : inb.staging.cap ≤ b.cap
  capacity_eq : inb.capacity = b.capacity
  limit_eq : inb.limit = b.limit

section Stored

variable {b : Bounds} {al : Alloc} {inb : Inbound} {needed n : ℕ}

/-- A new decoder has a buffer of its staging capacity. -/
theorem stored_new (hal : b.Allows al) : Stored b (.new al b.limit b.capacity) :=
  ⟨Nat.zero_le _, hal _ _ b.capacity_le, rfl, rfl⟩

/-- Draining the used bytes keeps the bounds and sets the offset to zero. -/
theorem Stored.compact (h : Stored b inb) : Stored b inb.compact := by
  rw [Inbound.compact]
  split_ifs
  · exact ⟨Nat.zero_le _, h.cap_le, h.capacity_eq, h.limit_eq⟩
  · exact h

/-- What `grow` asks the allocator for at most. -/
theorem Stored.wanted_le (h : Stored b inb) (hneeded : needed ≤ b.cap) :
    max inb.capacity needed ≤ b.cap :=
  max_le (h.capacity_eq.trans_le b.capacity_le) hneeded

/-- The buffer grows to the nominal capacity, or to what is needed, and so not beyond what the
decoder may ever need. -/
theorem Stored.grow (h : Stored b inb) (hal : b.Allows al) (hneeded : needed ≤ b.cap) :
    Stored b (inb.grow al needed) := by
  have hwanted := h.wanted_le hneeded
  have hle := inb.staging.le_cap
  rw [Inbound.grow]
  split_ifs with hlt
  · refine ⟨h.pos_le, ?_, h.capacity_eq, h.limit_eq⟩
    change inb.staging.grown al _ ≤ _
    rw [Vec.grown]
    split_ifs
    · exact h.cap_le
    · exact hal _ _ (by rw [Vec.len]; omega)
  · exact h

/-- So does making the buffer ready for a read. -/
theorem Stored.ready (h : Stored b inb) (hal : b.Allows al) (hneeded : needed ≤ b.cap) :
    Stored b (inb.ready al needed) :=
  h.compact.grow hal hneeded

/-- The decoder while its buffer is away. -/
theorem Stored.away (h : Stored b inb) (hpos : inb.pos = 0) :
    Stored b { inb with staging := .new } :=
  ⟨hpos.le, Nat.zero_le _, h.capacity_eq, h.limit_eq⟩

/-- A read does not change the capacity of its buffer. -/
theorem Stored.refill (h : Stored b inb) (hpos : inb.pos = 0)
    (bytes : { bs : List UInt8 // bs.length ≤ inb.staging.room }) : Stored b (inb.refill bytes) :=
  ⟨hpos.trans_le (Nat.zero_le _), h.cap_le, h.capacity_eq, h.limit_eq⟩

/-- An offset within the unread bytes is an index into the buffer. -/
theorem Stored.offset_le (h : Stored b inb) (hn : n ≤ inb.unread.length) :
    inb.pos + n ≤ inb.staging.data.length :=
  Inbound.offset_le h.pos_le hn

/-- Offsets are `usize` values if capacities are. -/
theorem Stored.offset_lt (h : Stored b inb) (hcap : b.cap < 2 ^ 64)
    (hn : n ≤ inb.unread.length) : inb.pos + n < 2 ^ 64 :=
  (((h.offset_le hn).trans inb.staging.le_cap).trans h.cap_le).trans_lt hcap

/-- The offset moves on over unread bytes only. -/
theorem Stored.advance (h : Stored b inb) (hn : n ≤ inb.unread.length) :
    Stored b (inb.advance n) :=
  ⟨h.offset_le hn, h.cap_le, h.capacity_eq, h.limit_eq⟩

end Stored

/-- The bounds of an action. A read on behalf of `fill` offers room in a buffer that is not too
large, and there have been fewer reads than bytes that are needed; a direct read asks for what is
missing of the message. Neither is made once a message beyond the limit is declared, and a buffer is
allocated for a message within the limit only. The operations of the source stay within 64 bits as
far as the capacities do. -/
def Guard (b : Bounds) (r : Record) : Act → Prop
  | .read (.append buf) =>
      (0 < buf.room ∧ buf.cap ≤ b.cap ∧ r.reads < r.needed) ∧ Within b.limit r.bytes
  | .read (.read room) =>
      (0 < room ∧ r.bytes.length + room = messageLen r.bytes) ∧ Within b.limit r.bytes
  | .store inb => Stored b inb
  | .check c => b.cap < 2 ^ 64 → c.Holds
  | .fill _ => True
  | .allocate n => ∃ total, Declares r.bytes total ∧ ¬ exceeds b.limit total ∧ n = WORD * total

/-- A failure is not a panic, and a message beyond the limit is refused for that. -/
def Refused (limit : Option ℕ) (r : Record) (fault : Fault) : Prop :=
  fault ≠ .panic ∧ ∀ total, Declares r.bytes total → exceeds limit total →
    fault = .error (.messageTooLarge total)

/-- An error before anything beyond the limit was declared. -/
theorem refused_of_within {limit : Option ℕ} {r : Record} {kind : ErrorKind}
    (h : Within limit r.bytes) : Refused limit r (.error kind) := by
  refine ⟨by rintro ⟨⟩, fun total hdeclares hlarge => ?_⟩
  exact absurd hlarge (h total hdeclares)

/-- Every action of `x` is within its bounds, a failure is the right one, and a returned value
satisfies `post`. -/
def Keeps {α : Type} (b : Bounds) (post : Record → α → Prop) (x : ActM α) (r : Record) : Prop :=
  Prog.SafeT (Guard b) Record.next (Refused b.limit) post x r

/-! ### The bounds over one call -/

section Keeps

variable {α β : Type} {b : Bounds} {al : Alloc} {post : Record → β → Prop} {r : Record}
  {inb : Inbound} {needed : ℕ} {front : List UInt8}

/-- The rule of sequence: bounds hold of a sequence if they hold of its parts. -/
theorem Keeps.bind {x : ActM α} {f : α → ActM β}
    (h : Keeps b (fun r a => Keeps b post (f a) r) x r) : Keeps b post (x >>= f) r :=
  Prog.SafeT.bind h

/-- Returning a value is no action. -/
theorem keeps_pure {a : β} (h : post r a) : Keeps b post (pure a) r := h

/-- A failure has to be the right one, and no panic. -/
theorem keeps_throw {fault : Fault} (h : Refused b.limit r fault) :
    Keeps b post (throw fault : ActM β) r := h

/-- An operation has to be within its bounds where it is mentioned. -/
theorem keeps_check {c : Check} {f : Unit → ActM β} (hc : b.cap < 2 ^ 64 → c.Holds)
    (h : Keeps b post (f ()) r) : Keeps b post (check c >>= f) r :=
  ⟨hc, fun _ => h⟩

/-- An assignment has to keep the decoder within the bounds. -/
theorem keeps_store {post : Record → Unit → Prop} (hstored : Stored b inb)
    (h : post { r with inb := inb } ()) : Keeps b post (store inb) r :=
  ⟨hstored, fun _ => h⟩

/-- A buffer has to be as large as the message declared, which has to be within the limit. -/
theorem keeps_allocate {post : Record → Unit → Prop} {n total : ℕ}
    (hdeclares : Declares r.bytes total) (hle : ¬ exceeds b.limit total) (hn : n = WORD * total)
    (h : post { r with buffers := r.buffers ++ [n] } ()) : Keeps b post (allocate n) r :=
  ⟨⟨total, hdeclares, hle, hn⟩, fun _ => h⟩

/-- A slice within its bounds is what it is of the list. -/
theorem keeps_slice {post : Record → List UInt8 → Prop} {bytes : List UInt8} {lo hi : ℕ}
    (hlo : lo ≤ hi) (hhi : hi ≤ bytes.length) (h : post r ((bytes.take hi).drop lo)) :
    Keeps b post (slice bytes lo hi) r := by
  refine keeps_check (fun _ => ⟨hlo, hhi⟩) ?_
  rw [Ogurpchik.slice, if_pos ⟨hlo, hhi⟩]
  exact h

/-- The bytes that were used are drained from the front of the buffer. -/
theorem keeps_compact {post : Record → Unit → Prop} (h : Stored b inb)
    (hpost : post { r with inb := inb.compact } ()) : Keeps b post (compact inb) r := by
  rw [compact]
  split_ifs
  · exact keeps_check (fun _ => ⟨Nat.zero_le _, h.pos_le⟩) (keeps_store h.compact hpost)
  · exact keeps_store h.compact hpost

/-- The buffer is grown if it is too small: then it is shorter than what is wanted. -/
theorem keeps_grow {post : Record → Unit → Prop} (hal : b.Allows al) (h : Stored b inb)
    (hneeded : needed ≤ b.cap) (hpost : post { r with inb := inb.grow al needed } ()) :
    Keeps b post (grow al inb needed) r := by
  have hstore := keeps_store (h.grow hal hneeded) hpost
  rw [grow]
  dsimp only
  split_ifs with hlt
  · have hle : inb.staging.len ≤ max inb.capacity needed := inb.staging.le_cap.trans hlt.le
    refine keeps_check (fun _ => hle) (keeps_check (fun hcap => ?_) hstore)
    rw [Check.Holds, Nat.add_sub_cancel' hle]
    exact (h.wanted_le hneeded).trans_lt hcap
  · exact hstore

/-- The buffer is away during the read and back behind it. In between the decoder is stored without
it. -/
theorem keeps_appendTo {post : Record → { bs : List UInt8 // bs.length ≤ inb.staging.room } → Prop}
    (h : Stored b inb) (hpos : inb.pos = 0) (hroom : 0 < inb.staging.room)
    (hreads : r.reads < r.needed) (hwithin : Within b.limit r.bytes)
    (hpost : ∀ bytes, post
      ⟨inb.refill bytes, r.bytes ++ bytes.val, r.needed, r.reads + 1, r.buffers⟩ bytes) :
    Keeps b post (appendTo inb) r := by
  refine ⟨h.away hpos, fun _ => ⟨⟨⟨hroom, h.cap_le, hreads⟩, hwithin⟩, ?_⟩⟩
  rintro (e | bytes)
  · exact ⟨h, fun _ => refused_of_within hwithin⟩
  · exact ⟨h.refill hpos bytes, fun _ => hpost bytes⟩

/-- The decoder as it was stored last, before the bytes of the call it has not used yet. -/
structure Stands (b : Bounds) (front : List UInt8) (r : Record) (inb : Inbound) : Prop where
  stored : Stored b inb
  inb_eq : r.inb = inb
  bytes_eq : r.bytes = front ++ inb.unread

/-- The loop of `fill`. Every read so far has brought a byte, and as long as bytes are missing
nothing beyond the limit is declared. -/
theorem keeps_fillLoop {post : Record → Bool × Inbound → Prop} {eofOk : Bool} (hal : b.Allows al)
    (h : Stands b front r inb) (hneeded : needed ≤ b.cap) (hrec : r.needed = needed)
    (hreads : r.reads ≤ inb.unread.length)
    (hshort : ∀ more, (inb.unread ++ more).length < needed →
      Within b.limit (front ++ (inb.unread ++ more)))
    (htrue : ∀ r' inb' more, Stands b front r' inb' → inb'.unread = inb.unread ++ more →
      needed ≤ inb'.unread.length → post r' (true, inb'))
    (hfalse : eofOk = true → ∀ r' inb', Stands b front r' inb' → Within b.limit r'.bytes →
      post r' (false, inb')) :
    Keeps b post (fillLoop al inb needed eofOk) r := by
  induction inb using Inbound.fill_induction al needed generalizing r with
  | step inb ih =>
    rw [fillLoop]
    refine keeps_check (fun _ => h.stored.pos_le) ?_
    rw [if_neg (not_lt.mpr h.stored.pos_le)]
    split_ifs with hlt
    · have hmissing : inb.unread.length < needed := by rwa [inb.length_unread]
      have hpos := inb.pos_ready al needed
      have hready := h.stored.ready hal hneeded
      have hwithin : Within b.limit r.bytes := by
        have := hshort [] (by rwa [List.append_nil])
        rwa [List.append_nil, ← h.bytes_eq] at this
      refine Keeps.bind (keeps_compact h.stored ?_)
      refine Keeps.bind (keeps_grow hal h.stored.compact hneeded ?_)
      have hroom := Inbound.room_ready_pos al hmissing
      refine Keeps.bind (keeps_appendTo hready hpos hroom ?_ hwithin ?_)
      · exact hreads.trans_lt (hmissing.trans_eq hrec.symm)
      intro bytes
      have hunread := inb.unread_refill_ready al needed bytes
      have hstands : Stands b front ⟨(inb.ready al needed).refill bytes, r.bytes ++ bytes.val,
          r.needed, r.reads + 1, r.buffers⟩ ((inb.ready al needed).refill bytes) :=
        ⟨hready.refill hpos bytes, rfl, by rw [hunread, h.bytes_eq, List.append_assoc]⟩
      by_cases hnil : bytes.val = []
      · have hsame : Within b.limit (r.bytes ++ bytes.val) := by rwa [hnil, List.append_nil]
        rw [if_pos hnil]
        split_ifs with hend
        · exact keeps_pure (hfalse ((Bool.and_eq_true _ _).mp hend).1 _ _ hstands hsame)
        · exact keeps_throw (refused_of_within hsame)
      · rw [if_neg hnil]
        refine ih bytes hlt hnil hstands hrec ?_ ?_ ?_
        · have hbytes := List.length_pos_iff.mpr hnil
          rw [hunread, List.length_append]
          change r.reads + 1 ≤ _
          omega
        · intro more hmore
          rw [hunread, List.append_assoc] at hmore ⊢
          exact hshort _ hmore
        · intro r' inb' more hr' hmore
          rw [hunread, List.append_assoc] at hmore
          exact htrue r' inb' _ hr' hmore
    · rw [← inb.length_unread, not_lt] at hlt
      exact keeps_pure (htrue r inb [] h (List.append_nil _).symm hlt)

/-- **`fill`** reads only while bytes are missing, into room that is there. -/
theorem keeps_fill {post : Record → Bool × Inbound → Prop} {eofOk : Bool} (hal : b.Allows al)
    (h : Stands b front r inb) (hneeded : needed ≤ b.cap)
    (hshort : ∀ more, (inb.unread ++ more).length < needed →
      Within b.limit (front ++ (inb.unread ++ more)))
    (htrue : ∀ r' inb' more, Stands b front r' inb' → inb'.unread = inb.unread ++ more →
      needed ≤ inb'.unread.length → post r' (true, inb'))
    (hfalse : eofOk = true → ∀ r' inb', Stands b front r' inb' → Within b.limit r'.bytes →
      post r' (false, inb')) :
    Keeps b post (fill al inb needed eofOk) r := by
  refine Keeps.bind ⟨trivial, fun _ => ?_⟩
  exact keeps_fillLoop hal ⟨h.stored, h.inb_eq, h.bytes_eq⟩ hneeded rfl (Nat.zero_le _) hshort
    htrue hfalse

/-- A word of the table is four unread bytes: the slice is in bounds, and the copy has the right
length. -/
theorem keeps_wordAt {post : Record → UInt32 → Prop} (h : Stored b inb) {index : ℕ}
    (hlen : index * 4 + 4 ≤ inb.unread.length)
    (hpost : post r (UInt32.ofNat (leNat ((inb.unread.drop (index * 4)).take 4)))) :
    Keeps b post (wordAt inb index) r := by
  have hle := h.offset_le hlen
  have hword := inb.slice_unread (index * 4) 4
  rw [← Nat.add_assoc] at hle
  -- the three sums are offsets into the buffer
  have hlt : b.cap < 2 ^ 64 → inb.pos + index * 4 + 4 < 2 ^ 64 := by
    intro hcap
    have := h.offset_lt hcap hlen
    omega
  refine keeps_check (fun hcap => ?_) (keeps_check (fun hcap => ?_) (keeps_check hlt ?_))
  · have := hlt hcap
    show index * 4 < _
    omega
  · have := hlt hcap
    show inb.pos + index * 4 < _
    omega
  refine Keeps.bind (keeps_slice (Nat.le_add_right _ _) hle ?_)
  rw [hword]
  refine keeps_check (fun _ => ?_) (keeps_pure hpost)
  change 4 = _
  rw [List.length_take, List.length_drop]
  omega

/-- The loop over the table entries reads the words of the table in order. -/
theorem keeps_pushLengths {post : Record → SegmentLengths → Prop} (h : Stored b inb)
    (remaining index : ℕ) (lengths : SegmentLengths)
    (hlen : (index + remaining) * 4 + 4 ≤ inb.unread.length)
    (hsum : lengths.totalWords + remaining * 2 ^ 32 < 2 ^ 64)
    (hpost : ∀ lengths', lengths'.lengths =
        lengths.lengths ++ tableWords remaining (inb.unread.drop ((index + 1) * 4)) →
      lengths'.totalWords ≤ lengths.totalWords + remaining * 2 ^ 32 → post r lengths') :
    Keeps b post (pushLengths inb remaining index lengths) r := by
  induction remaining generalizing index lengths with
  | zero => exact keeps_pure (hpost lengths (by simp [tableWords]) (by omega))
  | succ remaining ih =>
    have hindex : (index + 1) * 4 + 4 ≤ inb.unread.length := by omega
    refine keeps_check (fun hcap => ?_) ?_
    · have := h.offset_lt hcap hindex
      show index + 1 < _
      omega
    refine Keeps.bind (keeps_wordAt h hindex ?_)
    set word := UInt32.ofNat (leNat ((inb.unread.drop ((index + 1) * 4)).take 4)) with hw
    have hval : word.toNat = leNat ((inb.unread.drop ((index + 1) * 4)).take 4) :=
      Inbound.toNat_word _
    have hword : word.toNat < 2 ^ 32 := word.toNat_lt
    refine keeps_check (fun _ => show lengths.totalWords + word.toNat < _ by omega) ?_
    rw [SegmentLengths.tryPushSegment, if_pos (by omega), reading_pure, pure_bind]
    refine ih (index + 1) (lengths.push word.toNat) (by omega) ?_ ?_
    · simp only [SegmentLengths.push]
      omega
    · intro lengths' hlengths htotal
      simp only [SegmentLengths.push] at hlengths htotal
      refine hpost lengths' ?_ (by omega)
      rw [hlengths, tableWords, List.drop_drop, ← hval, List.append_assoc, List.singleton_append]
      congr 4
      omega

/-- `advance` is one assignment, behind a sum that does not leave the buffer. -/
theorem keeps_advance {post : Record → Inbound → Prop} (h : Stands b front r inb) {n : ℕ}
    (hn : n ≤ inb.unread.length)
    (hpost : ∀ r', r'.bytes = r.bytes → Stands b (front ++ inb.unread.take n) r' (inb.advance n) →
      post r' (inb.advance n)) : Keeps b post (advance inb n) r := by
  refine keeps_check (fun hcap => h.stored.offset_lt hcap hn) ?_
  refine Keeps.bind (keeps_store (h.stored.advance hn) (keeps_pure (hpost _ rfl ?_)))
  refine ⟨h.stored.advance hn, rfl, ?_⟩
  rw [inb.unread_advance, List.append_assoc, List.take_append_drop]
  exact h.bytes_eq

/-- A slice of `n` unread bytes has `n` bytes. -/
theorem keeps_slice_pos {post : Record → List UInt8 → Prop} (h : Stored b inb) {n : ℕ}
    (hn : n ≤ inb.unread.length) (hpost : ∀ bytes, bytes.length = n → post r bytes) :
    Keeps b post (slice inb.staging.data inb.pos (inb.pos + n)) r := by
  have hle := h.offset_le hn
  refine keeps_slice (Nat.le_add_right _ _) hle (hpost _ ?_)
  rw [List.length_drop, List.length_take]
  omega

/-- The direct read asks for the part of the message that the call has not seen, behind a table
within the limit. -/
theorem safe_readBody {m bodyLen buffered : ℕ} {got : List UInt8} (hfits : Fits b.limit r.bytes)
    (hm : ∀ more, messageLen (r.bytes ++ more) = m) (hle : buffered + got.length ≤ bodyLen)
    (hmissing : got.length < bodyLen - buffered →
      r.bytes.length + (bodyLen - buffered - got.length) = m) :
    (readBody bodyLen buffered got).Safe (Guard b) Record.next
      (fun r' _ => r'.inb = r.inb ∧ Fits b.limit r'.bytes) r := by
  induction hn : bodyLen - buffered - got.length using Nat.strong_induction_on
    generalizing got r with
  | _ n ih =>
    rw [readBody]
    split_ifs with hlt
    · have hself : messageLen r.bytes = m := by simpa using hm []
      refine ⟨fun _ => ⟨Nat.zero_le _, hle⟩, fun _ => ⟨fun _ => ⟨hle, le_rfl⟩,
        fun _ => ⟨⟨⟨?_, ?_⟩, hfits.within⟩, ?_⟩⟩⟩
      · exact Nat.sub_pos_of_lt hlt
      · exact (hmissing hlt).trans hself.symm
      rintro (e | bs)
      · exact ⟨rfl, hfits⟩
      · dsimp only
        split_ifs with hnil
        · exact ⟨rfl, hfits.append _⟩
        · have hpos := List.length_pos_iff.mpr hnil
          have hbs := bs.property
          have hrest := hmissing hlt
          simp only [ReadOp.room] at hbs
          refine @ih (bodyLen - buffered - (got ++ bs.val).length) ?_
            { r with bytes := r.bytes ++ bs.val } _ (hfits.append _) ?_ ?_ ?_ rfl
          · rw [List.length_append]
            omega
          · intro more
            change messageLen (r.bytes ++ bs.val ++ more) = m
            rw [List.append_assoc]
            exact hm _
          · rw [List.length_append]
            omega
          · intro _
            change (r.bytes ++ bs.val).length + _ = m
            rw [List.length_append, List.length_append]
            omega
    · exact ⟨rfl, hfits⟩

/-- **The body** of a message within the limit, behind its table `front`. -/
theorem keeps_body {post : Record → List UInt8 × Inbound → Prop} (hal : b.Allows al)
    (h : Stands b front r inb) (hfits : Fits b.limit r.bytes) {bodyLen : ℕ}
    (hm : ∀ more, messageLen (r.bytes ++ more) = front.length + bodyLen)
    (hpost : ∀ r' bytes inb', r'.inb = inb' → Fits b.limit r'.bytes → post r' (bytes, inb')) :
    Keeps b post (body al inb bodyLen) r := by
  rw [body]
  split_ifs with hstaged
  · have hmore : ∀ more, Fits b.limit (front ++ (inb.unread ++ more)) := by
      intro more
      rw [← List.append_assoc, ← h.bytes_eq]
      exact hfits.append more
    rw [h.stored.capacity_eq] at hstaged
    refine Keeps.bind (keeps_fill hal h (hstaged.trans b.capacity_le) ?_ ?_ ?_)
    · exact fun more _ => (hmore more).within
    · intro r' inb' more h' hunread hlen
      refine keeps_check (fun hcap => h'.stored.offset_lt hcap hlen) ?_
      refine Keeps.bind (keeps_slice_pos h'.stored hlen fun bytes hbytes => ?_)
      refine keeps_check (fun _ => hbytes.symm) ?_
      refine Keeps.bind (keeps_advance h' hlen fun r'' hr'' h'' => ?_)
      refine keeps_pure (hpost r'' _ _ h''.inb_eq ?_)
      rw [hr'', h'.bytes_eq, hunread]
      exact hmore more
    · rintro ⟨⟩
  · have hlen : min (inb.staging.len - inb.pos) bodyLen ≤ inb.unread.length := by
      rw [inb.length_unread]
      exact min_le_left _ _
    have hlength := congrArg List.length h.bytes_eq
    rw [List.length_append, inb.length_unread] at hlength
    rw [directBody]
    refine keeps_check (fun _ => h.stored.pos_le) ?_
    rw [if_neg (not_lt.mpr h.stored.pos_le)]
    dsimp only
    refine keeps_check (fun _ => ⟨Nat.zero_le _, min_le_right _ _⟩) ?_
    refine keeps_check (fun hcap => h.stored.offset_lt hcap hlen) ?_
    refine Keeps.bind (keeps_slice_pos h.stored hlen fun bytes hbytes => ?_)
    refine keeps_check (fun _ => hbytes.symm) ?_
    refine Keeps.bind (keeps_advance h hlen fun r' hr' h' => ?_)
    have hread := @safe_readBody b r' _ bodyLen (min (inb.staging.len - inb.pos) bodyLen) []
      (hr' ▸ hfits) (hr' ▸ hm) (min_le_right _ _) (by
        rw [hr', List.length_nil]
        omega)
    refine Keeps.bind (Prog.Safe.bind (hread.mono fun r'' res hr'' => ?_))
    cases res with
    | ok rest => exact hpost r'' _ _ (hr''.1.trans h'.inb_eq) hr''.2
    | error e => exact refused_of_within hr''.2.within

/-- What a call leaves: the decoder as it was stored last, and nothing beyond the limit seen. -/
def Returned (b : Bounds) (r : Record) (result : Option Segments × Inbound) : Prop :=
  r.inb = result.2 ∧ Within b.limit r.bytes

/-- **The table and the body.** A message beyond the limit is refused behind the table. -/
theorem keeps_message (hal : b.Allows al) (h : Stands b [] r inb)
    (hpos : 0 < declaredCount inb.unread)
    (hlimit : declaredCount inb.unread < SEGMENTS_COUNT_LIMIT) (hword : WORD ≤ inb.unread.length) :
    Keeps b (Returned b) (message al inb (declaredCount inb.unread)) r := by
  have hWORD : WORD = 8 := rfl
  have hLIMIT : SEGMENTS_COUNT_LIMIT = 512 := rfl
  have hcount := fun more => @declaredCount_append inb.unread (by omega) more
  generalize declaredCount inb.unread = count at *
  have hfour := four_mul_le_tableLen count
  have htable := tableLen_le hlimit
  refine keeps_check (fun _ => show count + 1 < _ by omega) ?_
  refine keeps_check (fun _ => show 4 * (count + 1) < _ by omega) ?_
  refine keeps_check (fun _ => show tableLen count < _ by omega) ?_
  refine Keeps.bind (keeps_fill hal h (htable.trans b.table_le) ?_ ?_ ?_)
  · intro more hmore
    refine within_of_lt_tableLen ?_
    rwa [List.nil_append, hcount]
  · intro r' inb' more h' hunread hlen
    have hbytes : r'.bytes = inb'.unread := by rw [h'.bytes_eq, List.nil_append]
    have hcount' : declaredCount r'.bytes = count := by rw [hbytes, hunread, hcount]
    dsimp only
    refine Keeps.bind (keeps_pushLengths h'.stored count 0 .empty (by omega) ?_ ?_)
    · simp only [SegmentLengths.empty]
      omega
    intro lengths hlengths htotal
    simp only [SegmentLengths.empty] at htotal
    have hwords : lengths.totalWords = declaredWords r'.bytes := by
      rw [declaredWords, hcount', hbytes, lengths.total_eq, hlengths]
      rfl
    have hdeclares : Declares r'.bytes lengths.totalWords := by
      refine ⟨by rwa [hcount'], by rwa [hcount'], ?_, hwords⟩
      rwa [hcount', hbytes]
    rw [h'.stored.limit_eq]
    by_cases hlarge : exceeds b.limit lengths.totalWords
    · rw [if_pos hlarge]
      refine keeps_throw ⟨by rintro ⟨⟩, fun total htotal _ => ?_⟩
      rw [htotal.unique hdeclares]
    · have hbody : lengths.totalWords * WORD < 2 ^ 64 := by
        rw [hWORD]
        omega
      rw [if_neg hlarge]
      refine Keeps.bind (keeps_advance h' hlen fun r'' hr'' h'' => ?_)
      refine keeps_check (fun _ => hbody) ?_
      rw [usize, if_pos hbody, reading_pure, pure_bind]
      refine Keeps.bind (keeps_allocate (hr'' ▸ hdeclares) hlarge (Nat.mul_comm _ _) ?_)
      have hstands : Stands b ([] ++ inb'.unread.take (tableLen count))
          { r'' with buffers := r''.buffers ++ [lengths.totalWords * WORD] }
          (inb'.advance (tableLen count)) := ⟨h''.stored, h''.inb_eq, h''.bytes_eq⟩
      have hfits : Fits b.limit r''.bytes := ⟨_, hr'' ▸ hdeclares, hlarge⟩
      refine Keeps.bind (keeps_body hal hstands hfits ?_ ?_)
      · intro more
        change messageLen (r''.bytes ++ more) = _
        rw [hr'', messageLen_append hdeclares.2.2.1, messageLen, hcount', ← hwords,
          List.nil_append, List.length_take, min_eq_left hlen, Nat.mul_comm]
      · intro rEnd bytes inbEnd hinb hfits'
        exact keeps_pure ⟨hinb, hfits'.within⟩
  · rintro ⟨⟩

/-- **One call** stays within the bounds, from one message to the next: its own rules are composed
as the code is. -/
theorem keeps_next (hal : b.Allows al) (h : Stands b [] r inb) :
    Keeps b (Returned b) (next al inb) r := by
  have hWORD : WORD = 8 := rfl
  refine Keeps.bind (keeps_fill hal h (le_trans (by decide) b.table_le) ?_ ?_ ?_)
  · exact fun more hmore => within_of_lt_word hmore
  · intro r' inb' more h' _ hlen
    dsimp only
    rw [if_neg (by simp)]
    refine Keeps.bind (keeps_wordAt h'.stored (by omega) ?_)
    rw [Nat.zero_mul, List.drop_zero, Inbound.toNat_word_succ]
    change Keeps b (Returned b) (if declaredCount inb'.unread = 0 ∨
      SEGMENTS_COUNT_LIMIT ≤ declaredCount inb'.unread then _ else _) r'
    split_ifs with hbad
    · -- no table declares anything with so many segments
      refine keeps_throw (refused_of_within ?_)
      rintro total ⟨hpos, hlimit, -⟩
      rw [h'.bytes_eq, List.nil_append] at hpos hlimit
      omega
    · rw [not_or, not_le] at hbad
      exact keeps_message hal h' (Nat.pos_of_ne_zero hbad.1) hbad.2 hlen
  · intro _ r' inb' h' hwithin
    exact keeps_pure ⟨h'.inb_eq, hwithin⟩

end Keeps

/-! ### The bounds over sessions -/

section Session

variable {b : Bounds} {allowed : Alloc → Prop} {s t : Session}

/-- The decoder is within the bounds, `fill` has not read more often than it needs bytes, buffers
were allocated for a message within the limit only, and the rest of the call stays within the
bounds. -/
structure Inv (b : Bounds) (s : Session) : Prop where
  stored : Stored b s.inb
  reads : s.reads ≤ s.needed
  buffers : s.buffers ≠ [] → Fits b.limit s.bytes
  call : ∀ p, s.call = some p → Keeps b (Returned b) (ExceptT.mk p) s.toRecord

/-- An action within the bounds leaves the record within them: the decoder that is stored, the reads
of a fill, and the buffers allocated. -/
theorem Inv.record (h : Inv b s) {act : Act} (hguard : Guard b s.toRecord act) (ans : act.Ans) :
    Stored b (s.toRecord.next act ans).inb ∧
      (s.toRecord.next act ans).reads ≤ (s.toRecord.next act ans).needed ∧
      ((s.toRecord.next act ans).buffers ≠ [] →
        Fits b.limit (s.toRecord.next act ans).bytes) := by
  cases act with
  | read op =>
    cases op with
    | append buf =>
      cases ans with
      | error e => exact ⟨h.stored, hguard.1.2.2, h.buffers⟩
      | ok bs => exact ⟨h.stored, hguard.1.2.2, fun hne => (h.buffers hne).append _⟩
    | read room =>
      cases ans with
      | error e => exact ⟨h.stored, h.reads, h.buffers⟩
      | ok bs => exact ⟨h.stored, h.reads, fun hne => (h.buffers hne).append _⟩
  | store inb => exact ⟨hguard, h.reads, h.buffers⟩
  | check c => exact ⟨h.stored, h.reads, h.buffers⟩
  | fill needed => exact ⟨h.stored, Nat.zero_le _, h.buffers⟩
  | allocate n =>
    obtain ⟨total, hdeclares, hle, -⟩ := hguard
    exact ⟨h.stored, h.reads, fun _ => ⟨total, hdeclares, hle⟩⟩

/-- **Every step** keeps the invariant: calls are made, answered and dropped at any point. -/
theorem Inv.step (hallowed : ∀ al, allowed al → b.Allows al) (h : Inv b s)
    (hs : Step allowed s t) : Inv b t := by
  cases hs with
  | call hal hcall =>
    refine ⟨h.stored, h.reads, fun hne => absurd rfl hne, ?_⟩
    rintro p ⟨⟩
    exact keeps_next (hallowed _ hal) ⟨h.stored, rfl, rfl⟩
  | @act act k ans hcall =>
    obtain ⟨hguard, hrest⟩ := h.call _ hcall
    obtain ⟨hstored, hreads, hbuffers⟩ := h.record hguard ans
    refine ⟨hstored, hreads, hbuffers, ?_⟩
    rintro p ⟨⟩
    exact hrest ans
  | ended hcall =>
    refine ⟨h.stored, h.reads, h.buffers, ?_⟩
    rintro p ⟨⟩

/-- **Every session** keeps the invariant, with allocators that stay within the bound. -/
theorem inv_of_reachable (hallowed : ∀ al, allowed al → b.Allows al)
    (h : Reachable allowed b.limit b.capacity s) : Inv b s := by
  obtain ⟨al, hal, hrun⟩ := h
  induction hrun with
  | refl =>
    refine ⟨stored_new (hallowed al hal), le_rfl, fun hne => absurd rfl hne, ?_⟩
    rintro p ⟨⟩
  | tail _ hs ih => exact ih.step hallowed hs

end Session

/-- A decoder without a staging capacity: every read is for exactly what is needed. -/
def unbuffered (limit : Option ℕ) : Inbound := .new .exact limit 0

/-- What the first call on it does before it awaits a read. -/
theorem next_unbuffered (limit : Option ℕ) : ∃ k, (next .exact (unbuffered limit)).run.Reaches
    [⟨.fill 8, ()⟩, ⟨.check (.sub 0 0), ()⟩, ⟨.store (unbuffered limit), ()⟩,
      ⟨.check (.sub 8 0), ()⟩, ⟨.check (.usize 8), ()⟩,
      ⟨.store ((unbuffered limit).ready .exact 8), ()⟩,
      ⟨.store { (unbuffered limit).ready .exact 8 with staging := .new }, ()⟩]
    (.await (.read (.append ((unbuffered limit).ready .exact 8).staging)) k) := by
  rw [next, fill, fillLoop]
  exact ⟨_, .cons (.cons (.cons (.cons (.cons (.cons (.cons (.nil _)))))))⟩

/-- So a session comes to a read into a buffer of a word, though the capacity it was given is
zero. -/
theorem reachable_unbuffered {allowed : Alloc → Prop} (limit : Option ℕ)
    (hallowed : allowed .exact) :
    ∃ k, Reachable allowed limit 0
      ⟨⟨{ (unbuffered limit).ready .exact 8 with staging := .new }, [], 8, 0, []⟩,
        some (.await (.read (.append ((unbuffered limit).ready .exact 8).staging)) k)⟩ := by
  obtain ⟨k, hr⟩ := next_unbuffered limit
  have hcall : Reachable allowed limit 0
      ⟨⟨unbuffered limit, [], 0, 0, []⟩, some (next .exact (unbuffered limit)).run⟩ :=
    ⟨.exact, hallowed, .tail .refl (.call hallowed rfl)⟩
  exact ⟨k, hcall.reaches hr rfl⟩

end Decoder

namespace DecoderBounds

open Decoder

/-- The states of a decoder whose staging capacity is a `usize`, with allocators that grant `usize`
capacities, also more than they are asked for. -/
def Reachable (capacity : UInt64) (limit : Option ℕ) (s : Session) : Prop :=
  Decoder.Reachable (fun al => ∃ al64 : Alloc64, al64.toAlloc = al) limit capacity.toNat s

/-- The bounds of a decoder on a 64-bit platform: the capacities are `usize` values. -/
def bounds64 (capacity : UInt64) (limit : Option ℕ) : Bounds where
  capacity := capacity.toNat
  limit := limit
  cap := 2 ^ 64 - 1
  capacity_le := Nat.le_sub_one_of_lt capacity.toNat_lt
  table_le := by decide

/-- The invariant of the decoder on a machine of 64 bits, for any capacity that fits one. -/
theorem Reachable.inv {capacity : UInt64} {limit : Option ℕ} {s : Session}
    (h : Reachable capacity limit s) : Inv (bounds64 capacity limit) s := by
  refine inv_of_reachable ?_ h
  rintro al ⟨al64, rfl⟩ cap need hneed
  exact Nat.le_sub_one_of_lt (al64.grant_lt cap need (Nat.lt_of_le_sub_one (by decide) hneed))

/-- **The decoder stays within its bounds.** Over any number of calls on one decoder with any
staging capacity and traversal limit, whatever the reads return and wherever a call is dropped: the
offset lies within the staging buffer; every slice and every copy is within bounds, no difference
goes below zero, and no sum or product leaves 64 bits; no call panics; a read on behalf of `fill`
offers room for a byte; a direct read asks for exactly what the message is longer than the bytes
seen; and `fill` does not read more often than it needs bytes. -/
theorem decoder_in_bounds {capacity : UInt64} {limit : Option ℕ} {s : Session}
    (h : Reachable capacity limit s) :
    s.inb.pos ≤ s.inb.staging.len ∧
    (∀ c k, s.call = some (.await (.check c) k) → c.Holds) ∧
    (∀ r, s.call = some (.done r) → r ≠ .error .panic) ∧
    (∀ buf k, s.call = some (.await (.read (.append buf)) k) → 0 < buf.room) ∧
    (∀ room k, s.call = some (.await (.read (.read room)) k) →
      0 < room ∧ s.bytes.length + room = messageLen s.bytes) ∧
    s.reads ≤ s.needed := by
  have hinv := h.inv
  have hcap : (bounds64 capacity limit).cap < 2 ^ 64 := by
    change 2 ^ 64 - 1 < 2 ^ 64
    decide
  refine ⟨hinv.stored.pos_le, ?_, ?_, ?_, ?_, hinv.reads⟩
  · intro c k hcall
    exact (hinv.call _ hcall).1 hcap
  · rintro r hcall rfl
    exact (hinv.call _ hcall).1 rfl
  · intro buf k hcall
    exact (hinv.call _ hcall).1.1.1
  · intro room k hcall
    exact (hinv.call _ hcall).1.1

/-- The first read of a decoder without a staging capacity is offered room. -/
theorem decoder_in_bounds_unbuffered :
    ∃ s k, Reachable 0 none s ∧
      s.call = some (.await (.read (.append ((unbuffered none).ready .exact 8).staging)) k) ∧
      0 < ((unbuffered none).ready .exact 8).staging.room := by
  obtain ⟨k, hread⟩ : ∃ k, Reachable 0 none _ :=
    @reachable_unbuffered (fun al => ∃ al64 : Alloc64, al64.toAlloc = al) none ⟨.exact, rfl⟩
  exact ⟨_, k, hread, rfl, (decoder_in_bounds hread).2.2.2.1 _ k rfl⟩

end DecoderBounds

end Ogurpchik
