import Mathlib.Data.Nat.Notation
import Mathlib.Tactic.Common

/-!
# Base64

The standard alphabet with required padding: three bytes are four symbols of six bits, and a rest of
one or two bytes is filled up to four characters with `=`. The decoder takes nothing but what the
encoder writes: padding only in the last four characters, and no bits behind the last byte.

## Main results

* `decode_encode`: what was encoded is decoded.
* `encode_of_decode`: nothing else is decoded.
* `length_decode`: four characters make at most three bytes.
* `mem_encode`: what an encoded text consists of.
-/

namespace Base64

/-! ### Symbols -/

/-- The symbol of six bits in the standard alphabet: capitals, small letters, digits, `+` and
`/`. -/
def symbol (n : ℕ) : Char :=
  if n < 26 then Char.ofNat (65 + n)
  else if n < 52 then Char.ofNat (71 + n)
  else if n < 62 then Char.ofNat (n - 4)
  else if n = 62 then '+'
  else '/'

/-- The six bits of a symbol, or nothing for a character outside the alphabet. Padding is none of
the symbols. -/
def value (c : Char) : Option ℕ :=
  if 'A' ≤ c ∧ c ≤ 'Z' then some (c.toNat - 65)
  else if 'a' ≤ c ∧ c ≤ 'z' then some (c.toNat - 71)
  else if '0' ≤ c ∧ c ≤ '9' then some (c.toNat + 4)
  else if c = '+' then some 62
  else if c = '/' then some 63
  else none

/-- The character in place of missing bytes: one for each byte that the last group is short of
three. -/
def pad : Char := '='

/-- Every six-bit value is read back from its symbol: the alphabet has no symbol twice. -/
theorem value_symbol {n : ℕ} (h : n < 64) : value (symbol n) = some n := by
  have hall : ∀ n : Fin 64, value (symbol n) = some n.val := by decide
  exact hall ⟨n, h⟩

/-- The padding is not a symbol of the alphabet, so it can be told from data. -/
theorem symbol_ne_pad {n : ℕ} (h : n < 64) : symbol n ≠ pad := by
  have hall : ∀ n : Fin 64, symbol n ≠ pad := by decide
  exact hall ⟨n, h⟩

/-- Six bits have one symbol, and a symbol stands for six bits: each of the five ranges of the
alphabet is a case. -/
theorem symbol_of_value {c : Char} {n : ℕ} (h : value c = some n) : n < 64 ∧ symbol n = c := by
  have hc : Char.ofNat c.toNat = c := Char.ofNat_toNat c
  simp only [value, Char.le_def, UInt32.le_iff_toNat_le] at h
  -- one case for each range of the alphabet
  split_ifs at h with hupper hlower hdigit hplus hslash
  · obtain ⟨hlow, hhigh⟩ := hupper
    change 65 ≤ c.toNat at hlow
    change c.toNat ≤ 90 at hhigh
    cases h
    rw [symbol, if_pos (by omega), show 65 + (c.toNat - 65) = c.toNat by omega]
    exact ⟨by omega, hc⟩
  · obtain ⟨hlow, hhigh⟩ := hlower
    change 97 ≤ c.toNat at hlow
    change c.toNat ≤ 122 at hhigh
    cases h
    rw [symbol, if_neg (by omega), if_pos (by omega), show 71 + (c.toNat - 71) = c.toNat by omega]
    exact ⟨by omega, hc⟩
  · obtain ⟨hlow, hhigh⟩ := hdigit
    change 48 ≤ c.toNat at hlow
    change c.toNat ≤ 57 at hhigh
    cases h
    rw [symbol, if_neg (by omega), if_neg (by omega), if_pos (by omega),
      show c.toNat + 4 - 4 = c.toNat by omega]
    exact ⟨by omega, hc⟩
  · cases h
    exact ⟨by omega, hplus.symm⟩
  · cases h
    exact ⟨by omega, hslash.symm⟩

/-! ### Encoding and decoding -/

/-- Three bytes become four symbols; what is left at the end is filled up with padding. -/
def encode : List UInt8 → List Char
  | [] => []
  | [x] => [symbol (x.toNat / 4), symbol (x.toNat % 4 * 16), pad, pad]
  | [x, y] =>
      [symbol (x.toNat / 4), symbol (x.toNat % 4 * 16 + y.toNat / 16), symbol (y.toNat % 16 * 4),
        pad]
  | x :: y :: z :: rest =>
      symbol (x.toNat / 4) :: symbol (x.toNat % 4 * 16 + y.toNat / 16) ::
        symbol (y.toNat % 16 * 4 + z.toNat / 64) :: symbol (z.toNat % 64) :: encode rest

/-- Four symbols are three bytes, with no bits to spare. -/
def decodeQuad (a b c d : Char) : Option (List UInt8) := do
  let p ← value a
  let q ← value b
  let r ← value c
  let s ← value d
  return [.ofNat (p * 4 + q / 16), .ofNat (q % 16 * 16 + r / 4), .ofNat (r % 4 * 64 + s)]

/-- Three symbols and one character of padding are two bytes; the two bits to spare have to be zero,
so that a text has one reading and a byte string one text. -/
def decodeTriple (a b c : Char) : Option (List UInt8) := do
  let p ← value a
  let q ← value b
  let r ← value c
  if r % 4 = 0 then return [.ofNat (p * 4 + q / 16), .ofNat (q % 16 * 16 + r / 4)] else none

/-- Two symbols and two characters of padding are one byte; the four bits to spare have to be
zero. -/
def decodePair (a b : Char) : Option (List UInt8) := do
  let p ← value a
  let q ← value b
  if q % 16 = 0 then return [.ofNat (p * 4 + q / 16)] else none

/-- The last four characters, which alone may have padding. It stands at the end of them, since a
symbol behind padding does not decode. -/
def decodeLast (a b c d : Char) : Option (List UInt8) :=
  if d = pad then if c = pad then decodePair a b else decodeTriple a b c
  else decodeQuad a b c d

/-- The strict decoder: groups of four symbols, padding in the last one only, and no bits set that
encode nothing. -/
def decode : List Char → Option (List UInt8)
  | [] => some []
  | [a, b, c, d] => decodeLast a b c d
  | a :: b :: c :: d :: rest => do return (← decodeQuad a b c d) ++ (← decode rest)
  | _ => none

/-! ### What was encoded is decoded -/

section

variable (x y z : UInt8)

/-- A full group of four symbols is read as the three bytes it was made of. -/
theorem decodeQuad_symbol :
    decodeQuad (symbol (x.toNat / 4)) (symbol (x.toNat % 4 * 16 + y.toNat / 16))
      (symbol (y.toNat % 16 * 4 + z.toNat / 64)) (symbol (z.toNat % 64)) = some [x, y, z] := by
  have hx := x.toNat_lt
  have hy := y.toNat_lt
  have hz := z.toNat_lt
  have hx' : x.toNat / 4 * 4 + (x.toNat % 4 * 16 + y.toNat / 16) / 16 = x.toNat := by omega
  have hy' : (x.toNat % 4 * 16 + y.toNat / 16) % 16 * 16 + (y.toNat % 16 * 4 + z.toNat / 64) / 4 =
      y.toNat := by omega
  have hz' : (y.toNat % 16 * 4 + z.toNat / 64) % 4 * 64 + z.toNat % 64 = z.toNat := by omega
  rw [decodeQuad, value_symbol (by omega), value_symbol (by omega), value_symbol (by omega),
    value_symbol (by omega)]
  simp only [Option.bind_eq_bind, Option.bind_some, Option.pure_def, hx', hy', hz',
    UInt8.ofNat_toNat]

/-- A group with one symbol of padding is read as the two bytes it was made of. -/
theorem decodeTriple_symbol :
    decodeTriple (symbol (x.toNat / 4)) (symbol (x.toNat % 4 * 16 + y.toNat / 16))
      (symbol (y.toNat % 16 * 4)) = some [x, y] := by
  have hx := x.toNat_lt
  have hy := y.toNat_lt
  have hx' : x.toNat / 4 * 4 + (x.toNat % 4 * 16 + y.toNat / 16) / 16 = x.toNat := by omega
  have hy' : (x.toNat % 4 * 16 + y.toNat / 16) % 16 * 16 + y.toNat % 16 * 4 / 4 = y.toNat := by
    omega
  have hrest : y.toNat % 16 * 4 % 4 = 0 := by omega
  rw [decodeTriple, value_symbol (by omega), value_symbol (by omega), value_symbol (by omega)]
  simp only [Option.bind_eq_bind, Option.bind_some, Option.pure_def, hx', hy', hrest, if_true,
    UInt8.ofNat_toNat]

/-- A group with two symbols of padding is read as the one byte it was made of. -/
theorem decodePair_symbol :
    decodePair (symbol (x.toNat / 4)) (symbol (x.toNat % 4 * 16)) = some [x] := by
  have hx := x.toNat_lt
  have hx' : x.toNat / 4 * 4 + x.toNat % 4 * 16 / 16 = x.toNat := by omega
  have hrest : x.toNat % 4 * 16 % 16 = 0 := by omega
  rw [decodePair, value_symbol (by omega), value_symbol (by omega)]
  simp only [Option.bind_eq_bind, Option.bind_some, Option.pure_def, hx', hrest, if_true,
    UInt8.ofNat_toNat]

end

/-- Four characters that do not end in padding are four symbols, wherever they stand. -/
theorem decode_cons {d : Char} (hd : d ≠ pad) (a b c : Char) (rest : List Char) :
    decode (a :: b :: c :: d :: rest) = do return (← decodeQuad a b c d) ++ (← decode rest) := by
  cases rest with
  | nil =>
    change decodeLast a b c d = _
    rw [decodeLast, if_neg hd]
    cases decodeQuad a b c d <;> simp [decode]
  | cons e rest => rfl

/-- **What was encoded is decoded.** Induction over groups of three bytes, with the last group
padded. -/
theorem decode_encode (bytes : List UInt8) : decode (encode bytes) = some bytes := by
  induction bytes using encode.induct with
  | case1 => rfl
  | case2 x =>
    rw [encode, decode, decodeLast, if_pos rfl, if_pos rfl, decodePair_symbol]
  | case3 x y =>
    have hy := y.toNat_lt
    rw [encode, decode, decodeLast, if_pos rfl, if_neg (symbol_ne_pad (by omega)),
      decodeTriple_symbol]
  | case4 x y z rest ih =>
    have hz := z.toNat_lt
    rw [encode, decode_cons (symbol_ne_pad (by omega)), decodeQuad_symbol, ih]
    rfl

/-! ### Nothing else is decoded -/

/-- The bytes of four symbols have these symbols: a full group is decoded to three bytes without a
bit left over. -/
theorem encode_of_decodeQuad {a b c d : Char} {bytes : List UInt8}
    (h : decodeQuad a b c d = some bytes) (rest : List UInt8) :
    encode (bytes ++ rest) = a :: b :: c :: d :: encode rest := by
  simp only [decodeQuad, Option.bind_eq_bind, Option.pure_def, Option.bind_eq_some_iff,
    Option.some.injEq] at h
  obtain ⟨p, hp, q, hq, r, hr, s, hs, rfl⟩ := h
  obtain ⟨hp, rfl⟩ := symbol_of_value hp
  obtain ⟨hq, rfl⟩ := symbol_of_value hq
  obtain ⟨hr, rfl⟩ := symbol_of_value hr
  obtain ⟨hs, rfl⟩ := symbol_of_value hs
  have hbyte : ∀ n, n < 256 → (UInt8.ofNat n).toNat = n := fun n h => UInt8.toNat_ofNat_of_lt' h
  simp only [List.cons_append, List.nil_append, encode, List.cons.injEq, and_true]
  rw [hbyte _ (by omega), hbyte _ (by omega), hbyte _ (by omega)]
  refine ⟨congrArg symbol ?_, congrArg symbol ?_, congrArg symbol ?_, congrArg symbol ?_⟩
  all_goals omega

/-- A last group that is accepted is the encoding of what it is read as: stray bits were refused. -/
theorem encode_of_decodeLast {a b c d : Char} {bytes : List UInt8}
    (h : decodeLast a b c d = some bytes) : encode bytes = [a, b, c, d] := by
  have hbyte : ∀ n, n < 256 → (UInt8.ofNat n).toNat = n := fun n h => UInt8.toNat_ofNat_of_lt' h
  rw [decodeLast] at h
  split_ifs at h with hd hc
  · subst hd hc
    simp only [decodePair, Option.bind_eq_bind, Option.pure_def, Option.bind_eq_some_iff] at h
    obtain ⟨p, hp, q, hq, h⟩ := h
    obtain ⟨hp, rfl⟩ := symbol_of_value hp
    obtain ⟨hq, rfl⟩ := symbol_of_value hq
    split_ifs at h
    cases h
    simp only [encode, List.cons.injEq, and_true]
    rw [hbyte _ (by omega)]
    refine ⟨congrArg symbol ?_, congrArg symbol ?_⟩
    all_goals omega
  · subst hd
    simp only [decodeTriple, Option.bind_eq_bind, Option.pure_def, Option.bind_eq_some_iff] at h
    obtain ⟨p, hp, q, hq, r, hr, h⟩ := h
    obtain ⟨hp, rfl⟩ := symbol_of_value hp
    obtain ⟨hq, rfl⟩ := symbol_of_value hq
    obtain ⟨hr, rfl⟩ := symbol_of_value hr
    split_ifs at h
    cases h
    simp only [encode, List.cons.injEq, and_true]
    rw [hbyte _ (by omega), hbyte _ (by omega)]
    refine ⟨congrArg symbol ?_, congrArg symbol ?_, congrArg symbol ?_⟩
    all_goals omega
  · simpa [encode] using encode_of_decodeQuad h []

/-- **Nothing but encoded texts is decoded.** Padding has to be canonical, and bits that are left
over have to be zero. -/
theorem encode_of_decode {text : List Char} {bytes : List UInt8} (h : decode text = some bytes) :
    encode bytes = text := by
  induction text using decode.induct generalizing bytes with
  | case1 =>
    cases h
    rfl
  | case2 a b c d => exact encode_of_decodeLast h
  | case3 a b c d rest hrest ih =>
    rw [decode] at h
    · simp only [Option.bind_eq_bind, Option.pure_def, Option.bind_eq_some_iff,
        Option.some.injEq] at h
      obtain ⟨quad, hquad, tail, htail, rfl⟩ := h
      rw [encode_of_decodeQuad hquad, ih htail]
    · exact hrest
  | case4 text h₁ h₂ h₃ =>
    rw [decode] at h
    · cases h
    all_goals assumption

/-! ### What is decoded -/

/-- A group without padding is three bytes. -/
theorem length_decodeQuad {a b c d : Char} {bytes : List UInt8}
    (h : decodeQuad a b c d = some bytes) : bytes.length = 3 := by
  simp only [decodeQuad, Option.bind_eq_bind, Option.pure_def, Option.bind_eq_some_iff,
    Option.some.injEq] at h
  obtain ⟨p, -, q, -, r, -, s, -, rfl⟩ := h
  rfl

/-- The last group is at most three bytes, whatever its padding. -/
theorem length_decodeLast {a b c d : Char} {bytes : List UInt8}
    (h : decodeLast a b c d = some bytes) : bytes.length ≤ 3 := by
  rw [decodeLast] at h
  split_ifs at h
  · simp only [decodePair, Option.bind_eq_bind, Option.pure_def, Option.bind_eq_some_iff] at h
    obtain ⟨p, -, q, -, h⟩ := h
    split_ifs at h
    cases h
    simp
  · simp only [decodeTriple, Option.bind_eq_bind, Option.pure_def, Option.bind_eq_some_iff] at h
    obtain ⟨p, -, q, -, r, -, h⟩ := h
    split_ifs at h
    cases h
    simp
  · exact Nat.le_of_eq (length_decodeQuad h)

/-- **Four characters make at most three bytes.** So the length of what is decoded is bounded by
that of the text. -/
theorem length_decode {text : List Char} {bytes : List UInt8} (h : decode text = some bytes) :
    4 * bytes.length ≤ 3 * text.length := by
  induction text using decode.induct generalizing bytes with
  | case1 =>
    cases h
    exact Nat.le_refl _
  | case2 a b c d =>
    have hlast := length_decodeLast h
    simp only [List.length_cons, List.length_nil]
    omega
  | case3 a b c d rest hrest ih =>
    rw [decode] at h
    · simp only [Option.bind_eq_bind, Option.pure_def, Option.bind_eq_some_iff,
        Option.some.injEq] at h
      obtain ⟨quad, hquad, tail, htail, rfl⟩ := h
      have hlen := length_decodeQuad hquad
      have hih := ih htail
      simp only [List.length_append, List.length_cons]
      omega
    · exact hrest
  | case4 text h₁ h₂ h₃ =>
    rw [decode] at h
    · cases h
    all_goals assumption

/-- An encoded text consists of symbols and padding, and so contains no white space. -/
theorem mem_encode {bytes : List UInt8} {c : Char} (h : c ∈ encode bytes) :
    c = pad ∨ ∃ n < 64, c = symbol n := by
  induction bytes using encode.induct with
  | case1 => cases h
  | case2 x =>
    have hx := x.toNat_lt
    simp only [encode, List.mem_cons, List.not_mem_nil, or_false] at h
    rcases h with rfl | rfl | rfl | rfl
    · exact .inr ⟨_, by omega, rfl⟩
    · exact .inr ⟨_, by omega, rfl⟩
    · exact .inl rfl
    · exact .inl rfl
  | case3 x y =>
    have hx := x.toNat_lt
    have hy := y.toNat_lt
    simp only [encode, List.mem_cons, List.not_mem_nil, or_false] at h
    rcases h with rfl | rfl | rfl | rfl
    · exact .inr ⟨_, by omega, rfl⟩
    · exact .inr ⟨_, by omega, rfl⟩
    · exact .inr ⟨_, by omega, rfl⟩
    · exact .inl rfl
  | case4 x y z rest ih =>
    have hx := x.toNat_lt
    have hy := y.toNat_lt
    have hz := z.toNat_lt
    simp only [encode, List.mem_cons] at h
    rcases h with rfl | rfl | rfl | rfl | h
    · exact .inr ⟨_, by omega, rfl⟩
    · exact .inr ⟨_, by omega, rfl⟩
    · exact .inr ⟨_, by omega, rfl⟩
    · exact .inr ⟨_, by omega, rfl⟩
    · exact ih h

end Base64
