import Mathlib.Data.List.TakeWhile
import Ogurpchik.Packet

/-!
# Texts and Their Bytes

Texts cross as UTF-8, and are read back in two ways: with replacement characters for what is not
UTF-8, where a reason is read from a packet, and strictly, where a file is looked at for whether it
is a text. The two readers share the sequences a text is cut into, so one fact about the encoding of
a character serves both.

## Main definitions

* `fromUtf8`: the strict reader.
* `IsSequence`: the bytes of one character.

## Main results

* `exists_isSequence`: the encoding of a character is a sequence that stands for it.
* `IsSequence.utf8EncodeChar`: a sequence is the encoding of the character it stands for.
* `fromUtf8Lossy_utf8`, `fromUtf8_utf8`: a text is read back as it was written.
* `utf8_of_fromUtf8`: the strict reader takes nothing but texts.
-/

namespace Ogurpchik

/-- `str::from_utf8`: characters from the front, each with all the bytes its leading byte announces.
Overlong forms and surrogates are refused with the second byte. -/
def fromUtf8 : List UInt8 → Option (List Char)
  | [] => some []
  | lead :: rest =>
      if sequenceLen lead = sequenceTail lead rest + 1 then
        (fromUtf8 (rest.drop (sequenceTail lead rest))).map fun text =>
          sequenceChar lead (rest.take (sequenceTail lead rest)) :: text
      else none
termination_by bytes => bytes.length
decreasing_by
  rw [List.length_drop, List.length_cons]
  omega

/-! ### Sequences -/

/-- Continuation bytes by their number, for arithmetic. -/
theorem isContinuation_iff (b : UInt8) : isContinuation b ↔ 128 ≤ b.toNat ∧ b.toNat ≤ 191 := by
  simp [isContinuation, UInt8.le_iff_toNat_le]

/-- A byte behind the leading one carries six bits. -/
theorem toNat_continuation (n : ℕ) : (UInt8.ofNat (n % 64 + 128)).toNat = n % 64 + 128 :=
  UInt8.toNat_ofNat_of_lt' (show n % 64 + 128 < 256 by omega)

/-- Six bits with the mark of a continuation are one, which is how the encoder makes them. -/
theorem isContinuation_ofNat (n : ℕ) : isContinuation (UInt8.ofNat (n % 64 + 128)) := by
  rw [isContinuation_iff, toNat_continuation]
  omega

/-- The second byte of a sequence by its number: besides being a continuation, it rules out overlong
forms, surrogates and numbers beyond the last character. -/
theorem isSecond_iff (lead b : UInt8) :
    isSecond lead b ↔ (128 ≤ b.toNat ∧ b.toNat ≤ 191) ∧ (lead.toNat = 224 → 160 ≤ b.toNat) ∧
      (lead.toNat = 237 → b.toNat ≤ 159) ∧ (lead.toNat = 240 → 144 ≤ b.toNat) ∧
      (lead.toNat = 244 → b.toNat ≤ 143) := by
  simp [isSecond, isContinuation_iff, UInt8.le_iff_toNat_le, ← UInt8.toNat_inj, imp_iff_not_or]

/-- The length of a sequence by the number of its first byte, for arithmetic. -/
theorem sequenceLen_eq (lead : UInt8) : sequenceLen lead =
    if lead.toNat ≤ 127 then 1
    else if 194 ≤ lead.toNat ∧ lead.toNat ≤ 223 then 2
    else if 224 ≤ lead.toNat ∧ lead.toNat ≤ 239 then 3
    else if 240 ≤ lead.toNat ∧ lead.toNat ≤ 244 then 4
    else 0 := by
  simp [sequenceLen, UInt8.le_iff_toNat_le]

/-- A sequence of two bytes carries five bits and six. -/
theorem sequenceChar_two (lead b : UInt8) :
    sequenceChar lead [b] = Char.ofNat (lead.toNat % 32 * 64 + b.toNat % 64) := rfl

/-- A sequence of three bytes carries four bits and twice six. -/
theorem sequenceChar_three (lead b b' : UInt8) :
    sequenceChar lead [b, b'] =
      Char.ofNat ((lead.toNat % 16 * 64 + b.toNat % 64) * 64 + b'.toNat % 64) := rfl

/-- A sequence of four bytes carries three bits and three times six. -/
theorem sequenceChar_four (lead b b' b'' : UInt8) :
    sequenceChar lead [b, b', b''] = Char.ofNat
      (((lead.toNat % 8 * 64 + b.toNat % 64) * 64 + b'.toNat % 64) * 64 + b''.toNat % 64) := rfl

/-- A leading byte with all the bytes it announces: the second one within the bounds that the
leading byte sets, the others any continuation bytes. -/
structure IsSequence (lead : UInt8) (tail : List UInt8) : Prop where
  length_eq : sequenceLen lead = tail.length + 1
  second : ∀ b ∈ tail.head?, isSecond lead b
  continuation : ∀ b ∈ tail.tail, isContinuation b

/-- A sequence is found whole, whatever follows it: its length is told by its leading byte. -/
theorem IsSequence.sequenceTail_append {lead : UInt8} {tail : List UInt8}
    (h : IsSequence lead tail) (rest : List UInt8) :
    sequenceTail lead (tail ++ rest) = tail.length := by
  have hlen := h.length_eq
  cases tail with
  | nil =>
    cases rest with
    | nil => rfl
    | cons b rest => simp [sequenceTail, hlen]
  | cons b more =>
    have hmore : more.takeWhile isContinuation = more :=
      List.takeWhile_eq_self_iff.mpr (by simpa using h.continuation)
    simp only [List.length_cons] at hlen
    have hb : isSecond lead b := h.second b (by simp)
    rw [List.cons_append, sequenceTail, if_pos ⟨by omega, hb⟩, hlen, List.take_left' (by omega),
      hmore, List.length_cons, Nat.add_comm]

/-- **The encoding of a character** is a sequence that stands for it. -/
theorem exists_isSequence (c : Char) :
    ∃ lead tail, String.utf8EncodeChar c = lead :: tail ∧ IsSequence lead tail ∧
      sequenceChar lead tail = c := by
  have hc : Char.ofNat c.val.toNat = c := Char.ofNat_toNat c
  have hvalid : c.val.toNat < 0xd800 ∨ 0xdfff < c.val.toNat ∧ c.val.toNat < 0x110000 := c.valid
  have hbyte : ∀ n, n < 256 → (UInt8.ofNat n).toNat = n := fun n h => UInt8.toNat_ofNat_of_lt' h
  simp only [String.utf8EncodeChar]
  generalize c.val.toNat = v at hc hvalid ⊢
  -- one case for each length of the encoding; the bytes are in range by arithmetic
  split_ifs with h1 h2 h3
  · have hlead := hbyte v (by omega)
    refine ⟨_, _, rfl, ⟨?_, by simp, by simp⟩, ?_⟩
    · rw [sequenceLen_eq, hlead, if_pos h1]
      rfl
    · simp [sequenceChar, hlead, hc]
  · have hlead := hbyte (v / 64 % 32 + 192) (by omega)
    have hb := toNat_continuation v
    have hv : (v / 64 % 32 + 192) % 32 * 64 + (v % 64 + 128) % 64 = v := by omega
    refine ⟨_, _, rfl, ⟨?_, ?_, by simp⟩, ?_⟩
    · rw [sequenceLen_eq, hlead, if_neg (by omega), if_pos (by omega)]
      rfl
    · rintro _ ⟨⟩
      rw [isSecond_iff, hlead, hb]
      omega
    · rw [sequenceChar_two, hlead, hb, hv, hc]
  · have hlead := hbyte (v / 4096 % 16 + 224) (by omega)
    have hb := toNat_continuation (v / 64)
    have hb' := toNat_continuation v
    have hv : ((v / 4096 % 16 + 224) % 16 * 64 + (v / 64 % 64 + 128) % 64) * 64 +
        (v % 64 + 128) % 64 = v := by omega
    refine ⟨_, _, rfl, ⟨?_, ?_, ?_⟩, ?_⟩
    · rw [sequenceLen_eq, hlead, if_neg (by omega), if_neg (by omega), if_pos (by omega)]
      rfl
    · rintro _ ⟨⟩
      rw [isSecond_iff, hlead, hb]
      omega
    · rintro _ (_ | ⟨_, ⟨⟩⟩)
      exact isContinuation_ofNat v
    · rw [sequenceChar_three, hlead, hb, hb', hv, hc]
  · have hlead := hbyte (v / 262144 % 8 + 240) (by omega)
    have hb := toNat_continuation (v / 4096)
    have hb' := toNat_continuation (v / 64)
    have hb'' := toNat_continuation v
    have hv : (((v / 262144 % 8 + 240) % 8 * 64 + (v / 4096 % 64 + 128) % 64) * 64 +
        (v / 64 % 64 + 128) % 64) * 64 + (v % 64 + 128) % 64 = v := by omega
    refine ⟨_, _, rfl, ⟨?_, ?_, ?_⟩, ?_⟩
    · rw [sequenceLen_eq, hlead, if_neg (by omega), if_neg (by omega), if_neg (by omega),
        if_pos (by omega)]
      rfl
    · rintro _ ⟨⟩
      rw [isSecond_iff, hlead, hb]
      omega
    · rintro _ (_ | ⟨_, _ | ⟨_, ⟨⟩⟩⟩)
      · exact isContinuation_ofNat (v / 64)
      · exact isContinuation_ofNat v
    · rw [sequenceChar_four, hlead, hb, hb', hb'', hv, hc]

/-- What is found whole is a sequence: each of its bytes was looked at. -/
theorem isSequence_take {lead : UInt8} {rest : List UInt8}
    (h : sequenceLen lead = sequenceTail lead rest + 1) :
    IsSequence lead (rest.take (sequenceTail lead rest)) := by
  cases rest with
  | nil => exact ⟨h, by simp [sequenceTail], by simp [sequenceTail]⟩
  | cons second more =>
    by_cases hsecond : 2 ≤ sequenceLen lead ∧ isSecond lead second
    · rw [sequenceTail, if_pos hsecond] at h ⊢
      -- all the bytes that were announced are there, and all of them continue the sequence
      have hle := (List.takeWhile_prefix isContinuation (l := more.take (sequenceLen lead - 2)))
      have hall : (more.take (sequenceLen lead - 2)).takeWhile isContinuation =
          more.take (sequenceLen lead - 2) := by
        refine hle.eq_of_length_le ?_
        rw [List.length_take]
        omega
      have hlen : (more.take (sequenceLen lead - 2)).length = sequenceLen lead - 2 := by
        rw [hall] at h
        omega
      have htake : (second :: more).take (1 + ((more.take (sequenceLen lead - 2)).takeWhile
          isContinuation).length) = second :: more.take (sequenceLen lead - 2) := by
        rw [hall, hlen, Nat.add_comm, List.take_succ_cons]
      rw [htake]
      refine ⟨?_, ?_, ?_⟩
      · rw [List.length_cons, hlen]
        omega
      · rintro _ ⟨⟩
        exact hsecond.2
      · exact List.takeWhile_eq_self_iff.1 hall
    · rw [sequenceTail, if_neg hsecond] at h ⊢
      exact ⟨h, by simp, by simp⟩

/-- **A sequence is the encoding of the character it stands for.** One case for each length. -/
theorem IsSequence.utf8EncodeChar {lead : UInt8} {tail : List UInt8} (h : IsSequence lead tail) :
    String.utf8EncodeChar (sequenceChar lead tail) = lead :: tail := by
  have hval : ∀ n, n < 0xd800 ∨ 0xdfff < n ∧ n < 0x110000 → (Char.ofNat n).val.toNat = n := by
    intro n hn
    rw [Char.ofNat, dif_pos hn]
    rfl
  have hof : ∀ (b : UInt8) n, n = b.toNat → UInt8.ofNat n = b := by
    rintro b _ rfl
    exact UInt8.ofNat_toNat
  have hlen := h.length_eq
  rw [sequenceLen_eq] at hlen
  -- one case for each length of the sequence; the leading byte announces the length
  rcases tail with _ | ⟨b, _ | ⟨b', _ | ⟨b'', _ | ⟨b₃, rest⟩⟩⟩⟩
  · have hlead : lead.toNat ≤ 127 := by
      simp only [List.length_nil] at hlen
      split_ifs at hlen
      all_goals omega
    have hchar : (sequenceChar lead []).val.toNat = lead.toNat := by
      refine (congrArg (fun c : Char => c.val.toNat) ?_).trans (hval lead.toNat (by omega))
      simp [sequenceChar]
    simp only [String.utf8EncodeChar, hchar]
    rw [if_pos hlead, hof lead _ rfl]
  · have hlead : 194 ≤ lead.toNat ∧ lead.toNat ≤ 223 := by
      simp only [List.length_cons, List.length_nil] at hlen
      split_ifs at hlen
      all_goals omega
    have hb := (isSecond_iff lead b).1 (h.second b rfl)
    rw [sequenceChar_two, String.utf8EncodeChar]
    simp only [hval (lead.toNat % 32 * 64 + b.toNat % 64) (by omega)]
    rw [if_neg (by omega), if_pos (by omega), hof lead _ (by omega), hof b _ (by omega)]
  · have hlead : 224 ≤ lead.toNat ∧ lead.toNat ≤ 239 := by
      simp only [List.length_cons, List.length_nil] at hlen
      split_ifs at hlen
      all_goals omega
    have hb := (isSecond_iff lead b).1 (h.second b rfl)
    have hb' := (isContinuation_iff b').1 (h.continuation b' (by simp))
    rw [sequenceChar_three, String.utf8EncodeChar]
    simp only [hval ((lead.toNat % 16 * 64 + b.toNat % 64) * 64 + b'.toNat % 64) (by omega)]
    rw [if_neg (by omega), if_neg (by omega), if_pos (by omega), hof lead _ (by omega),
      hof b _ (by omega), hof b' _ (by omega)]
  · have hlead : 240 ≤ lead.toNat ∧ lead.toNat ≤ 244 := by
      simp only [List.length_cons, List.length_nil] at hlen
      split_ifs at hlen
      all_goals omega
    have hb := (isSecond_iff lead b).1 (h.second b rfl)
    have hb' := (isContinuation_iff b').1 (h.continuation b' (by simp))
    have hb'' := (isContinuation_iff b'').1 (h.continuation b'' (by simp))
    rw [sequenceChar_four, String.utf8EncodeChar]
    simp only [hval (((lead.toNat % 8 * 64 + b.toNat % 64) * 64 + b'.toNat % 64) * 64 +
      b''.toNat % 64) (by omega)]
    rw [if_neg (by omega), if_neg (by omega), if_neg (by omega), hof lead _ (by omega),
      hof b _ (by omega), hof b' _ (by omega), hof b'' _ (by omega)]
  · simp only [List.length_cons] at hlen
    split_ifs at hlen
    all_goals omega

/-! ### Reading back -/

/-- An encoded character, in front of anything, decodes to itself. -/
theorem fromUtf8Lossy_utf8EncodeChar (c : Char) (rest : List UInt8) :
    fromUtf8Lossy (String.utf8EncodeChar c ++ rest) = c :: fromUtf8Lossy rest := by
  obtain ⟨lead, tail, hbytes, hseq, hchar⟩ := exists_isSequence c
  rw [hbytes, List.cons_append, fromUtf8Lossy, hseq.sequenceTail_append, if_pos hseq.length_eq,
    List.take_left, List.drop_left, hchar]

/-- The decoder takes one encoded character off the front, whatever stands behind it. -/
theorem fromUtf8_utf8EncodeChar (c : Char) (rest : List UInt8) :
    fromUtf8 (String.utf8EncodeChar c ++ rest) = (fromUtf8 rest).map (c :: ·) := by
  obtain ⟨lead, tail, hbytes, hseq, hchar⟩ := exists_isSequence c
  rw [hbytes, List.cons_append, fromUtf8, hseq.sequenceTail_append, if_pos hseq.length_eq,
    List.take_left, List.drop_left, hchar]

/-- **A text is read back as it was sent.** -/
theorem fromUtf8Lossy_utf8 (text : String) : fromUtf8Lossy (utf8 text) = text.toList := by
  rw [utf8]
  induction text.toList with
  | nil => rw [List.flatMap_nil, fromUtf8Lossy]
  | cons c cs ih => rw [List.flatMap_cons, fromUtf8Lossy_utf8EncodeChar, ih]

/-- Encoding a text and decoding the bytes gives the text: strict decoding loses nothing. -/
theorem fromUtf8_utf8 (text : String) : fromUtf8 (utf8 text) = some text.toList := by
  rw [utf8]
  induction text.toList with
  | nil => rw [List.flatMap_nil, fromUtf8]
  | cons c cs ih => rw [List.flatMap_cons, fromUtf8_utf8EncodeChar, ih, Option.map_some]

/-- **The strict reader takes nothing but texts**: what it has read, written again, is what it was
given. -/
theorem utf8_of_fromUtf8 {bytes : List UInt8} {text : List Char}
    (h : fromUtf8 bytes = some text) : utf8 (.ofList text) = bytes := by
  rw [utf8, String.toList_ofList]
  fun_induction fromUtf8 bytes generalizing text with
  | case1 =>
    cases h
    rfl
  | case2 lead rest hlen ih =>
    obtain ⟨text', htext', rfl⟩ := Option.map_eq_some_iff.mp h
    rw [List.flatMap_cons, (isSequence_take hlen).utf8EncodeChar, ih htext', List.cons_append,
      List.take_append_drop]
  | case3 => cases h

/-- There are no more characters than bytes. -/
theorem length_fromUtf8Lossy_le (bytes : List UInt8) :
    (fromUtf8Lossy bytes).length ≤ bytes.length := by
  fun_induction fromUtf8Lossy bytes with
  | case1 => exact le_rfl
  | case2 lead rest ih =>
    rw [List.length_drop] at ih
    simp only [List.length_cons]
    omega

/-- A text has no more characters than bytes, since each takes at least one. -/
theorem length_fromUtf8_le {bytes : List UInt8} {text : List Char}
    (h : fromUtf8 bytes = some text) : text.length ≤ bytes.length := by
  fun_induction fromUtf8 bytes generalizing text with
  | case1 =>
    cases h
    exact le_rfl
  | case2 lead rest _ ih =>
    obtain ⟨text', htext', rfl⟩ := Option.map_eq_some_iff.mp h
    have hlen := ih htext'
    rw [List.length_drop] at hlen
    simp only [List.length_cons]
    omega
  | case3 => cases h

/-- Texts are encoded one after the other, with nothing between them. -/
theorem utf8_append (s t : String) : utf8 (s ++ t) = utf8 s ++ utf8 t := by
  rw [utf8, String.toList_append, List.flatMap_append, utf8, utf8]

/-- Different texts have different bytes, so a text can be told by its encoding. -/
theorem utf8_inj {s t : String} (h : utf8 s = utf8 t) : s = t := by
  have hread := congrArg fromUtf8 h
  rw [fromUtf8_utf8, fromUtf8_utf8, Option.some.injEq] at hread
  exact String.toList_inj.mp hread

/-- A character takes four bytes at most. -/
theorem length_utf8_le (text : String) : (utf8 text).length ≤ 4 * text.toList.length := by
  rw [utf8]
  induction text.toList with
  | nil => exact le_rfl
  | cons c cs ih =>
    have hc := c.utf8Size_le_four
    rw [List.flatMap_cons, List.length_append, String.length_utf8EncodeChar, List.length_cons]
    omega

end Ogurpchik
