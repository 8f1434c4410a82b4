import Ogurpchik.Reencode

/-!
# Streams That Were Cut Off

A stream may end at any byte. What the decoder makes of the part that arrived is compared here with
what it would have made of the whole: the messages come in the same order, an error that is not
the end of the stream stands, and the end is a clean one exactly between two messages.

The one-shot decoder carries the argument. If a message is there once more bytes have arrived, then
without them it is missing altogether, cut, or there (`tryReadMessage_of_append`); a stream is cut
behind a number of messages by taking them off one at a time (`stock_split`).

## Main results

* `stock_append_of_error`: an error other than the end of the stream stands.
* `stock_eq_ok_iff`: the clean ends are the boundaries between messages.
* `stock_inside`: a cut inside a message is a premature end behind the messages before it.
* `decoding_prefix_stable`: all of it for the streaming decoder, with different splits, staging
  capacities and allocators on the two sides.
-/

namespace Ogurpchik

open LittleEndian

variable {limit : Option ℕ} {bytes more : List UInt8}

/-! ### One message -/

/-- The bytes a message occupies. -/
theorem length_of_tryReadMessage {rest : List UInt8} {segments : Segments}
    (h : tryReadMessage limit bytes = .message segments rest) :
    bytes.length = (serialize segments).length + rest.length := by
  obtain ⟨-, padding, hpadding, rfl⟩ := tryReadMessage_sound h
  rw [List.length_append, length_serializeWith hpadding]

/-- A message that could not be read and can be once more bytes have arrived was cut, and takes some
of them. Any other failure stands. -/
theorem tryReadMessage_append_of_fail {kind : ErrorKind}
    (h : tryReadMessage limit bytes = .fail kind) (more : List UInt8) :
    tryReadMessage limit (bytes ++ more) = .fail kind ∨ kind = .prematureEndOfFile ∧
      ∀ segments rest, tryReadMessage limit (bytes ++ more) = .message segments rest →
        rest.length < more.length := by
  have hWORD : WORD = 8 := rfl
  have hlen : (bytes ++ more).length = bytes.length + more.length := List.length_append
  rw [tryReadMessage] at h
  split_ifs at h with hnil hword
  · -- not even the first word
    refine .inr ⟨(Parsed.fail.inj h).symm, fun segments rest hmsg => ?_⟩
    obtain ⟨⟨m, rfl⟩, -⟩ := tryReadMessage_sound hmsg
    have hsize := length_of_tryReadMessage hmsg
    have htable := word_le_tableLen m.segments.length (List.length_pos_iff.mpr m.ne_nil)
    rw [hlen, serialize, List.length_append, length_segmentTable] at hsize
    omega
  · rw [tryReadMessage, if_neg (by simp [hnil]), if_neg (by omega),
      List.take_append_of_le_length (show 4 ≤ bytes.length by omega)]
    simp only [readSegments] at h ⊢
    generalize (leNat (bytes.take 4) + 1) % 2 ^ 32 = count at h ⊢
    have hfour := four_mul_le_tableLen count
    split_ifs at h with hcount htable hlarge hshort
    · rw [if_pos hcount]
      exact .inl h
    · -- the table was cut
      rw [if_neg hcount]
      refine .inr ⟨(Parsed.fail.inj h).symm, fun segments rest hmsg => ?_⟩
      split_ifs at hmsg
      obtain ⟨-, rfl⟩ := Parsed.message.inj hmsg
      rw [List.length_drop]
      omega
    all_goals
      rw [if_neg hcount, if_neg (by omega), tableWords_drop_append (not_lt.mp htable)]
    · rw [if_pos hlarge]
      exact .inl h
    · -- the body was cut
      rw [if_neg hlarge]
      refine .inr ⟨(Parsed.fail.inj h).symm, fun segments rest hmsg => ?_⟩
      split_ifs at hmsg
      obtain ⟨-, rfl⟩ := Parsed.message.inj hmsg
      rw [List.length_drop]
      omega

/-- **A message before all of it has arrived**: there is nothing, a part, or the whole. -/
theorem tryReadMessage_of_append {rest : List UInt8} {segments : Segments}
    (h : tryReadMessage limit (bytes ++ more) = .message segments rest) :
    tryReadMessage limit bytes =
      if bytes = [] then .clean
      else if bytes.length < (serialize segments).length then .fail .prematureEndOfFile
      else .message segments (bytes.drop (serialize segments).length) := by
  have hsize := length_of_tryReadMessage h
  rw [List.length_append] at hsize
  cases hparse : tryReadMessage limit bytes with
  | clean => rw [if_pos (eq_nil_of_clean hparse)]
  | fail kind =>
    have hnil : bytes ≠ [] := by
      rintro rfl
      cases hparse
    rcases tryReadMessage_append_of_fail hparse more with hfail | ⟨rfl, htakes⟩
    · rw [h] at hfail
      cases hfail
    · have hlt := htakes segments rest h
      rw [if_neg hnil, if_pos (by omega)]
  | message segments' rest' =>
    have hsame := tryReadMessage_append hparse more
    rw [h] at hsame
    obtain ⟨rfl, rfl⟩ := Parsed.message.inj hsame
    obtain ⟨-, padding, hpadding, hbytes⟩ := tryReadMessage_sound hparse
    have hlt := length_lt_of_tryReadMessage hparse
    have hlen := length_of_tryReadMessage hparse
    have hdrop : bytes.drop (serialize segments).length = rest' := by
      rw [hbytes, List.drop_left' (length_serializeWith hpadding)]
    rw [if_neg (List.length_pos_iff.mp (by omega)), if_neg (by omega), hdrop]

/-! ### Whole streams -/

/-- An error other than the end of the stream stands, and so does all that came before it. -/
theorem stock_append_of_error {kind : ErrorKind} (hkind : kind ≠ .prematureEndOfFile)
    (h : (stock limit bytes).2 = .error kind) (more : List UInt8) :
    stock limit (bytes ++ more) = stock limit bytes := by
  induction bytes using stream_induction limit with
  | clean bytes hparse =>
    rw [stock_of_clean hparse] at h
    cases h
  | fail bytes kind' hparse =>
    rw [stock_of_fail hparse] at h ⊢
    cases h
    rcases tryReadMessage_append_of_fail hparse more with hfail | ⟨heof, -⟩
    · exact stock_of_fail hfail
    · exact absurd heof hkind
  | message bytes segments rest hparse ih =>
    rw [stock_of_message hparse] at h ⊢
    rw [stock_of_message (tryReadMessage_append hparse more), ih h]

/-- A stream that yields a message starts with it, and goes on with the rest of what it yields. -/
theorem tryReadMessage_of_stock {segments : Segments} {messages : List Segments}
    (h : (stock limit bytes).1 = segments :: messages) :
    ∃ rest, tryReadMessage limit bytes = .message segments rest ∧
      stock limit rest = (messages, (stock limit bytes).2) := by
  cases hparse : tryReadMessage limit bytes with
  | clean =>
    rw [stock_of_clean hparse] at h
    cases h
  | fail kind =>
    rw [stock_of_fail hparse] at h
    cases h
  | message segments' rest =>
    rw [stock_of_message hparse] at h ⊢
    obtain ⟨rfl, hrest⟩ := List.cons.inj h
    exact ⟨rest, rfl, Prod.ext hrest rfl⟩

/-- Messages stand one behind the other, so their lengths add up. -/
theorem length_serializeAll_cons (segments : Segments) (messages : List Segments) :
    (serializeAll (segments :: messages)).length =
      (serialize segments).length + (serializeAll messages).length := by
  rw [serializeAll, List.flatMap_cons, List.length_append, serializeAll]

/-- **Cutting a stream behind its first messages.** What arrived starts with them, and the rest of
it is to the rest of the stream as it was to the whole. -/
theorem stock_split {ms ns : List Segments} {result : Except ErrorKind Unit}
    (h : stock limit (bytes ++ more) = (ms ++ ns, result))
    (hlen : (serializeAll ms).length ≤ bytes.length) :
    ∃ rest, bytes.length = (serializeAll ms).length + rest.length ∧
      stock limit bytes = (ms ++ (stock limit rest).1, (stock limit rest).2) ∧
      stock limit (rest ++ more) = (ns, result) := by
  induction ms generalizing bytes with
  | nil => exact ⟨bytes, (Nat.zero_add _).symm, rfl, h⟩
  | cons segments ms ih =>
    rw [length_serializeAll_cons] at hlen ⊢
    obtain ⟨tail, hparse, htail⟩ := tryReadMessage_of_stock (congrArg Prod.fst h)
    have hsize := length_of_tryReadMessage hparse
    have hcut := tryReadMessage_of_append hparse
    obtain ⟨⟨m, rfl⟩, -⟩ := tryReadMessage_sound hparse
    have hpos := List.length_pos_iff.mpr (Batch.serialize_ne_nil m)
    rw [if_neg (List.length_pos_iff.mp (by omega)), if_neg (by omega)] at hcut
    have happend := tryReadMessage_append hcut more
    rw [hparse] at happend
    obtain ⟨-, rfl⟩ := Parsed.message.inj happend
    rw [h] at htail
    obtain ⟨rest, hrest, hstock, hmore⟩ := ih htail (by rw [List.length_drop]; omega)
    rw [List.length_drop] at hrest
    refine ⟨rest, by omega, ?_, hmore⟩
    rw [stock_of_message hcut, hstock, List.cons_append]

/-- **The clean ends** are the boundaries between messages, of whatever the stream goes on with. -/
theorem stock_eq_ok_iff (limit : Option ℕ) (bytes more : List UInt8) :
    (stock limit bytes).2 = .ok () ↔
      ∃ k ≤ (stock limit (bytes ++ more)).1.length,
        bytes.length = (serializeAll ((stock limit (bytes ++ more)).1.take k)).length := by
  constructor
  · intro h
    have henc : Encodes (stock limit bytes).1 bytes := stock_encodes (Prod.ext rfl h)
    have hpre := stock_append_isPrefix limit bytes more
    refine ⟨_, hpre.length_le, ?_⟩
    rw [← List.prefix_iff_eq_take.mp hpre]
    exact (henc.eqUpToPadding (encodes_serializeAll _)).1
  · rintro ⟨k, hk, hlen⟩
    obtain ⟨rest, hrest, hstock, -⟩ := @stock_split limit bytes more _ _ _
      (Prod.ext (List.take_append_drop k _).symm rfl) hlen.ge
    obtain rfl : rest = [] := List.length_eq_zero_iff.mp (by omega)
    rw [hstock, stock_of_clean (show tryReadMessage limit [] = .clean from rfl)]

/-- **A cut inside a message** is a premature end, behind the messages before it. -/
theorem stock_inside {k : ℕ} (hk : k < (stock limit (bytes ++ more)).1.length)
    (hlo : (serializeAll ((stock limit (bytes ++ more)).1.take k)).length < bytes.length)
    (hhi : bytes.length < (serializeAll ((stock limit (bytes ++ more)).1.take (k + 1))).length) :
    stock limit bytes =
      ((stock limit (bytes ++ more)).1.take k, .error .prematureEndOfFile) := by
  obtain ⟨rest, hrest, hstock, hmore⟩ := @stock_split limit bytes more _ _ _
    (Prod.ext (List.take_append_drop k _).symm rfl) hlo.le
  rw [List.drop_eq_getElem_cons hk] at hmore
  obtain ⟨tail, hparse, -⟩ := tryReadMessage_of_stock (congrArg Prod.fst hmore)
  have hcut := tryReadMessage_of_append hparse
  have htake : (serializeAll ((stock limit (bytes ++ more)).1.take (k + 1))).length =
      (serializeAll ((stock limit (bytes ++ more)).1.take k)).length +
        (serialize (stock limit (bytes ++ more)).1[k]).length := by
    rw [List.take_succ_eq_append_getElem hk, serializeAll, List.flatMap_append, List.length_append,
      List.flatMap_singleton, serializeAll]
  rw [if_neg (List.length_pos_iff.mp (by omega)), if_pos (by omega)] at hcut
  rw [hstock, stock_of_fail hcut, List.append_nil]

/-- **Prefix stability of decoding.** A stream is read as it arrived and with more bytes behind it,
through any two splits, staging capacities and allocators and one traversal limit. The first
messages are the same, an error other than the end of the stream stands, the end is clean exactly
where the first `k` messages of the longer stream end, and a stream that ends strictly inside its
`k`-th message ends prematurely behind the `k` messages before it. -/
theorem decoding_prefix_stable (al al' : Alloc) (bytes more : List UInt8) (cuts cuts' : Stream' ℕ)
    (capacity capacity' : ℕ) (limit : Option ℕ) :
    ∃ part whole, ours al bytes cuts capacity limit = some part ∧
      ours al' (bytes ++ more) cuts' capacity' limit = some whole ∧
      part.1 <+: whole.1 ∧
      (∀ kind, kind ≠ .prematureEndOfFile → part.2 = .error kind → whole = part) ∧
      (part.2 = .ok () ↔
        ∃ k ≤ whole.1.length, bytes.length = (serializeAll (whole.1.take k)).length) ∧
      ∀ k < whole.1.length, (serializeAll (whole.1.take k)).length < bytes.length →
        bytes.length < (serializeAll (whole.1.take (k + 1))).length →
        part = (whole.1.take k, .error .prematureEndOfFile) := by
  refine ⟨_, _, ours_eq_stock al bytes cuts capacity limit,
    ours_eq_stock al' (bytes ++ more) cuts' capacity' limit, stock_append_isPrefix limit bytes more,
    ?_, stock_eq_ok_iff limit bytes more, ?_⟩
  · intro kind hkind herror
    exact stock_append_of_error hkind herror more
  · intro k hk hlo hhi
    exact stock_inside hk hlo hhi

end Ogurpchik
