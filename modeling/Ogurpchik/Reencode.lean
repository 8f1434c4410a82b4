import Ogurpchik.Batch
import Ogurpchik.Inbound

/-!
# Decoding and Encoding Again

A segment table of an odd number of entries is followed by four bytes of padding, which the decoder
does not look at and the encoder writes as zeros. Apart from them a message has one stream form:
what the decoder reads messages from is what a batch makes of the same messages again.

## Main definitions

* `serializeWith`: the stream form of a message with given bytes for the padding.
* `Encodes`: bytes that are the stream forms of messages, with any padding.
* `IsPadding`: the positions of the padding.
* `Inbound.nextN`: several calls of `next`.

## Main results

* `tryReadMessage_sound`: a message that was read occupied its stream form.
* `Encodes.eqUpToPadding`: two encodings of the same messages differ in the padding only.
* `reencode`: **decoding is injective up to padding**, for the streaming decoder and a batch.
-/

namespace Ogurpchik

open Async LittleEndian

/-! ### Stream forms with any padding -/

/-- The segment table of a message up to its padding, which is all of it that carries
information. -/
def tableEntries (segments : Segments) : List UInt8 :=
  leBytes 4 (segments.length - 1) ++ segments.flatMap fun s => leBytes 4 (s.length / WORD)

/-- The stream form of a message with the given padding, which a reader does not look at. -/
def serializeWith (padding : List UInt8) (segments : Segments) : List UInt8 :=
  tableEntries segments ++ padding ++ segments.flatten

/-- The serializer pads with zeros. -/
theorem serialize_eq_serializeWith (segments : Segments) :
    serialize segments = serializeWith (tablePadding segments.length) segments := rfl

/-- A table has a word for the number of segments and one for each of them. -/
theorem length_tableEntries (segments : Segments) :
    (tableEntries segments).length = 4 * (segments.length + 1) := by
  rw [tableEntries, List.length_append, length_leBytes, List.length_flatMap]
  simp [List.map_const', Nat.mul_comm]
  omega

/-- Bytes that are the stream forms of messages, one behind the other, with any padding. -/
inductive Encodes : List Segments → List UInt8 → Prop
  | nil : Encodes [] []
  | cons {segments : Segments} {messages : List Segments} {padding bytes : List UInt8}
      (hpadding : padding.length = (tablePadding segments.length).length)
      (h : Encodes messages bytes) :
      Encodes (segments :: messages) (serializeWith padding segments ++ bytes)

/-- What the serializer writes is one of the stream forms. -/
theorem encodes_serializeAll (messages : List Segments) :
    Encodes messages (serializeAll messages) := by
  induction messages with
  | nil => exact .nil
  | cons segments messages ih => exact .cons rfl ih

/-! ### What was read -/

/-- The words of a table, written again, are the bytes they were read from. -/
theorem flatMap_tableWords {count : ℕ} {bytes : List UInt8} (h : 4 * count ≤ bytes.length) :
    (tableWords count bytes).flatMap (leBytes 4) = bytes.take (4 * count) := by
  induction count generalizing bytes with
  | zero => rfl
  | succ count ih =>
    have hrest : 4 * count ≤ (bytes.drop 4).length := by
      rw [List.length_drop]
      omega
    have hword : leBytes 4 (leNat (bytes.take 4)) = bytes.take 4 :=
      leBytes_leNat_of_length (by rw [List.length_take]; omega)
    rw [tableWords, List.flatMap_cons, hword, ih hrest, Nat.mul_succ, Nat.add_comm, List.take_add]

/-- As many sizes are read as are asked for. -/
theorem length_tableWords (count : ℕ) (bytes : List UInt8) :
    (tableWords count bytes).length = count := by
  induction count generalizing bytes with
  | zero => rfl
  | succ count ih => rw [tableWords, List.length_cons, ih]

/-- A size is a number of four bytes, so it can be written again. -/
theorem tableWords_lt {count : ℕ} {bytes : List UInt8} :
    ∀ n ∈ tableWords count bytes, n < 2 ^ 32 := by
  induction count generalizing bytes with
  | zero => simp [tableWords]
  | succ count ih =>
    intro n hn
    rcases List.mem_cons.mp hn with rfl | hn
    · have hlt := leNat_lt (bytes.take 4)
      have hle : 256 ^ (bytes.take 4).length ≤ 256 ^ 4 :=
        Nat.pow_le_pow_right (by omega) (by simp)
      omega
    · exact ih n hn

/-- A body that was cut: the segments have the lengths of the table, and are the body together. -/
theorem splitSegments_spec {lengths : List ℕ} {bytes : List UInt8}
    (h : WORD * lengths.sum ≤ bytes.length) :
    (splitSegments lengths bytes).map (fun s => s.length / WORD) = lengths ∧
      (∀ s ∈ splitSegments lengths bytes, s.length % WORD = 0) ∧
      (splitSegments lengths bytes).flatten = bytes.take (WORD * lengths.sum) := by
  induction lengths generalizing bytes with
  | nil => simp [splitSegments]
  | cons n lengths ih =>
    rw [List.sum_cons, Nat.mul_add] at h ⊢
    obtain ⟨hlengths, haligned, hflatten⟩ := @ih (bytes.drop (WORD * n)) (by
      rw [List.length_drop]
      omega)
    have hlen : (bytes.take (WORD * n)).length = WORD * n := by
      rw [List.length_take]
      omega
    refine ⟨?_, ?_, ?_⟩
    · rw [splitSegments, List.map_cons, hlengths, hlen, Nat.mul_div_cancel_left n (by decide)]
    · intro s hs
      rcases List.mem_cons.mp hs with rfl | hs
      · rw [hlen, Nat.mul_mod_right]
      · exact haligned s hs
    · rw [splitSegments, List.flatten_cons, hflatten, List.take_add]

/-- **A message that was read occupied its stream form**, with some padding, and could have come out
of a builder. -/
theorem tryReadMessage_sound {limit : Option ℕ} {bytes rest : List UInt8} {segments : Segments}
    (h : tryReadMessage limit bytes = .message segments rest) :
    (∃ m : OutMessage, m.segments = segments) ∧
      ∃ padding, padding.length = (tablePadding segments.length).length ∧
        bytes = serializeWith padding segments ++ rest := by
  have hWORD : WORD = 8 := rfl
  rw [tryReadMessage] at h
  split_ifs at h with hnil hword
  simp only [readSegments] at h
  set count := (leNat (bytes.take 4) + 1) % 2 ^ 32 with hcount
  split_ifs at h with hbad htable hlarge hshort
  rw [SEGMENTS_COUNT_LIMIT] at hbad
  obtain ⟨rfl, rfl⟩ := Parsed.message.inj h
  set lengths := tableWords count (bytes.drop 4) with hlengths
  have htl := tableLen_eq count
  have hlen : lengths.length = count := length_tableWords _ _
  obtain ⟨hwords, haligned, hflatten⟩ :=
    @splitSegments_spec lengths (bytes.drop (tableLen count)) (by
      rw [List.length_drop]
      omega)
  set segments := splitSegments lengths (bytes.drop (tableLen count)) with hsegments
  have hnum : segments.length = count := by
    rw [← hlen, ← hwords, List.length_map]
  have hwordsLt : ∀ s ∈ segments, s.length / WORD < 2 ^ 32 := by
    intro s hs
    have hmem : s.length / WORD ∈ lengths := hwords ▸ List.mem_map_of_mem hs
    exact tableWords_lt _ hmem
  refine ⟨⟨⟨segments, ?_, by omega, haligned, hwordsLt⟩, rfl⟩,
    (bytes.drop (4 * (count + 1))).take (tablePadding count).length, ?_, ?_⟩
  · rintro hempty
    rw [hempty, List.length_nil] at hnum
    omega
  · rw [hnum, List.length_take, List.length_drop]
    omega
  · have hentries : tableEntries segments = bytes.take (4 * (count + 1)) := by
      have hfirst : leBytes 4 (count - 1) = bytes.take 4 := by
        have hfour : (bytes.take 4).length = 4 := by
          rw [List.length_take]
          omega
        have hlt := leNat_lt (bytes.take 4)
        rw [hfour] at hlt
        rw [show count - 1 = leNat (bytes.take 4) by omega, leBytes_leNat_of_length hfour]
      have hmap : segments.flatMap (fun s => leBytes 4 (s.length / WORD)) =
          lengths.flatMap (leBytes 4) := by
        rw [← hwords, List.flatMap_map]
      rw [tableEntries, hnum, hfirst, hmap, flatMap_tableWords (by rw [List.length_drop]; omega),
        ← List.take_add, Nat.mul_succ, Nat.add_comm]
    rw [serializeWith, hentries, ← List.take_add, ← htl, hflatten, ← List.take_add,
      List.take_append_drop]

/-! ### Positions of the padding -/

/-- The positions of padding bytes in the stream forms of messages: four bytes behind a table with
an odd number of entries. -/
def IsPadding : List Segments → ℕ → Prop
  | [], _ => False
  | segments :: messages, i =>
      if i < (serialize segments).length then
        segments.length % 2 = 0 ∧ 4 * (segments.length + 1) ≤ i ∧ i < 4 * (segments.length + 1) + 4
      else IsPadding messages (i - (serialize segments).length)

/-- Two byte strings are equal but for the padding of the messages, and have the same length. -/
def EqUpToPadding (messages : List Segments) (xs ys : List UInt8) : Prop :=
  xs.length = ys.length ∧ ∀ i, ¬ IsPadding messages i → xs[i]? = ys[i]?

section Padding

variable {segments : Segments} {messages : List Segments} {padding padding' xs ys : List UInt8}

/-- The padding does not change the length of a message. -/
theorem length_serializeWith (h : padding.length = (tablePadding segments.length).length) :
    (serializeWith padding segments).length = (serialize segments).length := by
  rw [serialize_eq_serializeWith, serializeWith, serializeWith]
  simp only [List.length_append, h]

/-- Two stream forms of a message are equal in front of the padding and behind it. -/
theorem getElem?_serializeWith (h : padding.length = (tablePadding segments.length).length)
    (h' : padding'.length = (tablePadding segments.length).length) {i : ℕ}
    (hi : ¬ (segments.length % 2 = 0 ∧ 4 * (segments.length + 1) ≤ i ∧
      i < 4 * (segments.length + 1) + 4)) :
    (serializeWith padding segments)[i]? = (serializeWith padding' segments)[i]? := by
  have hentries := length_tableEntries segments
  have hpad : (tablePadding segments.length).length = if segments.length % 2 = 0 then 4 else 0 := by
    rw [tablePadding]
    split_ifs <;> rfl
  rw [serializeWith, serializeWith, List.append_assoc, List.append_assoc]
  by_cases hfront : i < (tableEntries segments).length
  · rw [List.getElem?_append_left hfront, List.getElem?_append_left hfront]
  · have hbehind : (tablePadding segments.length).length ≤ i - (tableEntries segments).length := by
      rw [hpad]
      split_ifs <;> omega
    rw [List.getElem?_append_right (by omega), List.getElem?_append_right (by omega),
      List.getElem?_append_right (by omega), List.getElem?_append_right (by omega), h, h']

/-- **Two encodings of the same messages differ in the padding only.** -/
theorem Encodes.eqUpToPadding (hx : Encodes messages xs) (hy : Encodes messages ys) :
    EqUpToPadding messages xs ys := by
  induction hx generalizing ys with
  | nil =>
    cases hy
    exact ⟨rfl, fun _ _ => rfl⟩
  | @cons segments messages padding xs hpadding _ ih =>
    cases hy with
    | @cons _ _ padding' ys hpadding' hy =>
      obtain ⟨hlength, hrest⟩ := ih hy
      have hlen := length_serializeWith hpadding
      have hlen' := length_serializeWith hpadding'
      refine ⟨by rw [List.length_append, List.length_append, hlen, hlen', hlength], fun i hi => ?_⟩
      rw [IsPadding] at hi
      by_cases hfirst : i < (serialize segments).length
      · rw [if_pos hfirst] at hi
        rw [List.getElem?_append_left (by omega), List.getElem?_append_left (by omega)]
        exact getElem?_serializeWith hpadding hpadding' hi
      · rw [if_neg hfirst] at hi
        rw [List.getElem?_append_right (by omega), List.getElem?_append_right (by omega), hlen,
          hlen']
        exact hrest _ hi

/-- The encoder writes zeros for the padding, wherever there is any. -/
theorem getElem?_serializeAll {i : ℕ} (h : IsPadding messages i) :
    (serializeAll messages)[i]? = some 0 := by
  induction messages generalizing i with
  | nil => cases h
  | cons segments messages ih =>
    rw [IsPadding] at h
    rw [serializeAll, List.flatMap_cons]
    by_cases hfirst : i < (serialize segments).length
    · rw [if_pos hfirst] at h
      obtain ⟨heven, hle, hlt⟩ := h
      have hentries := length_tableEntries segments
      have hpad : tablePadding segments.length = List.replicate 4 0 := if_pos heven
      rw [List.getElem?_append_left hfirst, serialize_eq_serializeWith, serializeWith, hpad,
        List.append_assoc, List.getElem?_append_right (by omega),
        List.getElem?_append_left (by rw [List.length_replicate]; omega),
        List.getElem?_replicate, if_pos (by omega)]
    · rw [if_neg hfirst] at h
      rw [List.getElem?_append_right (by omega)]
      exact ih h

end Padding

/-! ### Whole streams -/

namespace Inbound

/-- Call `next` so many times, for a message each time: the messages, with the decoder and the wire
as they are then. -/
def nextN (al : Alloc) : ℕ → Inbound → Wire → Option (List Segments × Inbound × Wire)
  | 0, inb, w => some ([], inb, w)
  | calls + 1, inb, w =>
      match Prog.run Wire.handle (inb.next al).run w with
      | (.ok (some segments, inb'), w') =>
          (nextN al calls inb' w').map fun r => (segments :: r.1, r.2)
      | _ => none

/-- One call that yields a message takes its stream form off the front. -/
theorem next_encodes {al : Alloc} {capacity : ℕ} {limit : Option ℕ} {bytes : List UInt8}
    {inb inb' : Inbound} {w w' : Wire} {segments : Segments}
    (ha : At inb w capacity limit bytes)
    (h : Prog.run Wire.handle (inb.next al).run w = (.ok (some segments, inb'), w')) :
    ∃ rest, tryReadMessage limit bytes = .message segments rest ∧
      At inb' w' capacity limit rest := by
  obtain ⟨inb₁, w₁, hnext⟩ := next_refines al ha
  cases hparse : tryReadMessage limit bytes with
  | clean =>
    rw [hparse] at hnext
    cases h.symm.trans hnext.1
  | fail kind =>
    rw [hparse] at hnext
    cases h.symm.trans hnext
  | message segments₁ rest =>
    rw [hparse] at hnext
    cases h.symm.trans hnext.1
    exact ⟨rest, rfl, hnext.2⟩

/-- **What the messages were read from**: the bytes in front of those the decoder now stands before
are the messages' stream forms. -/
theorem nextN_encodes {al : Alloc} {capacity : ℕ} {limit : Option ℕ} {bytes : List UInt8}
    {inb inb' : Inbound} {w w' : Wire} {n : ℕ} {messages : List Segments}
    (ha : At inb w capacity limit bytes)
    (h : nextN al n inb w = some (messages, inb', w')) :
    (∃ outs, segmentsOf outs = messages) ∧ messages.length = n ∧
      ∃ occupied, Encodes messages occupied ∧ bytes = occupied ++ (inb'.unread ++ w'.data) := by
  induction n generalizing inb w bytes messages with
  | zero =>
    cases h
    exact ⟨⟨[], rfl⟩, rfl, [], .nil, ha.bytes_eq.symm⟩
  | succ n ih =>
    rw [nextN] at h
    split at h
    · next segments inb₁ w₁ hrun =>
      obtain ⟨⟨more, r⟩, hmore, hr⟩ := Option.map_eq_some_iff.mp h
      cases hr
      obtain ⟨rest, hparse, ha₁⟩ := next_encodes ha hrun
      obtain ⟨⟨outs, houts⟩, hlen, occupied, henc, hrest⟩ := ih ha₁ hmore
      obtain ⟨⟨m, rfl⟩, padding, hpadding, hbytes⟩ := tryReadMessage_sound hparse
      refine ⟨⟨m :: outs, by rw [← houts]; rfl⟩, by rw [List.length_cons, hlen], _,
        .cons hpadding henc, ?_⟩
      rw [hbytes, hrest, List.append_assoc]
    · cases h

end Inbound

/-- A stream ends cleanly only where nothing is left. -/
theorem eq_nil_of_clean {limit : Option ℕ} {bytes : List UInt8}
    (h : tryReadMessage limit bytes = .clean) : bytes = [] := by
  rw [tryReadMessage] at h
  split_ifs at h with hnil
  · exact hnil
  · simp only [readSegments] at h
    split_ifs at h

/-- The messages a clean stream is read as occupy all of it, with some padding in each table. -/
theorem stock_encodes {limit : Option ℕ} {bytes : List UInt8} {messages : List Segments}
    (h : stock limit bytes = (messages, .ok ())) : Encodes messages bytes := by
  induction bytes using stream_induction limit generalizing messages with
  | clean bytes hparse =>
    rw [stock_of_clean hparse] at h
    cases h
    rw [eq_nil_of_clean hparse]
    exact .nil
  | fail bytes kind hparse =>
    rw [stock_of_fail hparse] at h
    cases h
  | message bytes segments rest hparse ih =>
    rw [stock_of_message hparse] at h
    obtain ⟨rfl, hend⟩ := Prod.ext_iff.mp h
    obtain ⟨-, padding, hpadding, hbytes⟩ := tryReadMessage_sound hparse
    rw [hbytes]
    exact .cons hpadding (ih (Prod.ext rfl hend))

/-- **Decoding is injective up to padding.** Whatever a stream, its split into reads, the staging
capacity and the traversal limit are: if `n` calls of `next` yield messages, the same messages can
be pushed into a batch, and its chunks are as long as the part of the stream the messages occupied,
and equal to it but for the padding, which is zero in the chunks. So two streams that decode to the
same messages and end cleanly are equal but for the padding. -/
theorem reencode (al : Alloc) (stream : List UInt8) (cuts : Stream' ℕ) (capacity : ℕ)
    (limit : Option ℕ) :
    (∀ n messages inb w,
      Inbound.nextN al n (.new al limit capacity) ⟨stream, cuts⟩ = some (messages, inb, w) →
      messages.length = n ∧ (∃ outs, segmentsOf outs = messages) ∧
      ∃ occupied, stream = occupied ++ (inb.unread ++ w.data) ∧
        ∀ outs, segmentsOf outs = messages → ∀ inlineLimit b, Batch.Run inlineLimit b outs →
          (Chunk.concat b.take.1).length = occupied.length ∧
          EqUpToPadding messages occupied (Chunk.concat b.take.1) ∧
          ∀ i, IsPadding messages i → (Chunk.concat b.take.1)[i]? = some 0) ∧
    ∀ al' stream' cuts' capacity' limit' messages,
      ours al stream cuts capacity limit = some (messages, .ok ()) →
      ours al' stream' cuts' capacity' limit' = some (messages, .ok ()) →
      EqUpToPadding messages stream stream' := by
  constructor
  · intro n messages inb w h
    obtain ⟨houts, hlen, occupied, henc, hstream⟩ :=
      Inbound.nextN_encodes (Inbound.at_new al limit capacity ⟨stream, cuts⟩) h
    refine ⟨hlen, houts, occupied, hstream, ?_⟩
    rintro outs rfl inlineLimit b hrun
    have hconcat : Chunk.concat b.take.1 = serializeAll (segmentsOf outs) := hrun.holds.concat_eq
    have heq := henc.eqUpToPadding (encodes_serializeAll (segmentsOf outs))
    rw [hconcat]
    exact ⟨heq.1.symm, heq, fun i hi => getElem?_serializeAll hi⟩
  · intro al' stream' cuts' capacity' limit' messages h h'
    rw [ours_eq_stock, Option.some.injEq] at h h'
    exact (stock_encodes h).eqUpToPadding (stock_encodes h')

/-- A message of two segments, one word and none, with the given padding, which need not be
zeros. -/
def paddedSample (padding : List UInt8) : List UInt8 :=
  [1, 0, 0, 0, 1, 0, 0, 0, 0, 0, 0, 0] ++ padding ++ [1, 2, 3, 4, 5, 6, 7, 8]

/-- Two streams with the same message and different padding, read with different settings, are equal
but for the padding. -/
theorem reencode_paddedSample :
    EqUpToPadding [[[1, 2, 3, 4, 5, 6, 7, 8], []]] (paddedSample [9, 9, 9, 9])
      (paddedSample [0, 7, 0, 7]) :=
  (reencode .exact (paddedSample [9, 9, 9, 9]) (Stream'.const 3) 16 none).2 .exact
    (paddedSample [0, 7, 0, 7]) (Stream'.const 5) 0 (some 1) _ (by decide +kernel)
    (by decide +kernel)

end Ogurpchik
