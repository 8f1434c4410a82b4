import Ogurpchik.Signature

/-!
# Keys and Signatures of Images

A server that accepts signed processes is configured with a public key, which may be given as its
32 bytes or as base64 text, and finds the signature of an image in a file beside it, in one of the
same two forms. Both readers decode before they look at what they have. This module says which
byte strings they take: what they accept is exactly a key, or a signature, in one of its forms.

The two readers resolve the ambiguity of the forms in opposite directions. Whatever has 32 bytes is
a raw key, and no base64 text of a key is that short, so every form of a key is read as what it is.
Whatever can be decoded is an encoded signature, so a raw signature is read only if it cannot.

## Main definitions

* `Ed25519`: keys, and what they verify.
* `parseVerifyingKey`: the reader of keys.
* `IsEncoded`: base64 text with white space around it.
* `KeyForm`, `SignatureForm`: the forms of a key and of a signature.

## Main results

* `isEncoded_iff`: decoding takes exactly what is encoded.
* `parseVerifyingKey_eq_ok_iff`: the keys that are read.
* `readSignature_eq_some_iff`: the signatures that are read.
-/

namespace Ogurpchik

/-! ### Encoded bytes -/

/-- The base64 text of some bytes, with white space around it: the form in which keys and signatures
are written to files. -/
def IsEncoded (bytes raw : List UInt8) : Prop :=
  ∃ before after : List Char, (∀ c ∈ before, isWhitespace c) ∧ (∀ c ∈ after, isWhitespace c) ∧
    bytes = utf8 (.ofList (before ++ Base64.encode raw ++ after))

/-- What is trimmed off is white space. -/
theorem exists_trim (text : List Char) :
    ∃ before after : List Char, (∀ c ∈ before, isWhitespace c) ∧ (∀ c ∈ after, isWhitespace c) ∧
      text = before ++ trim text ++ after := by
  refine ⟨text.takeWhile isWhitespace, (text.dropWhile isWhitespace).rtakeWhile isWhitespace,
    fun c => List.mem_takeWhile_imp, fun c => List.mem_rtakeWhile_imp, ?_⟩
  rw [trim, List.append_assoc, List.rdropWhile_append_rtakeWhile, List.takeWhile_append_dropWhile]

/-- **Decoding takes exactly what is encoded**: UTF-8 with base64 in it, and white space around
that. -/
theorem isEncoded_iff {bytes raw : List UInt8} :
    IsEncoded bytes raw ↔
      ∃ text, fromUtf8 bytes = some text ∧ Base64.decode (trim text) = some raw := by
  constructor
  · rintro ⟨before, after, hbefore, hafter, rfl⟩
    refine ⟨_, fromUtf8_utf8 _, ?_⟩
    rw [String.toList_ofList,
      trim_append hbefore hafter fun c => not_isWhitespace_of_mem_encode, Base64.decode_encode]
  · rintro ⟨text, htext, hdecode⟩
    obtain ⟨before, after, hbefore, hafter, htrim⟩ := exists_trim text
    refine ⟨before, after, hbefore, hafter, ?_⟩
    rw [Base64.encode_of_decode hdecode, ← htrim, utf8_of_fromUtf8 htext]

/-- The text is longer than what it stands for, by a third. -/
theorem IsEncoded.length_le {bytes raw : List UInt8} (h : IsEncoded bytes raw) :
    4 * raw.length ≤ 3 * bytes.length := by
  obtain ⟨text, htext, hdecode⟩ := isEncoded_iff.1 h
  have hdecoded := Base64.length_decode hdecode
  have htrim := length_trim_le text
  have hchars := length_fromUtf8_le htext
  omega

/-! ### Keys -/

/-- `ed25519_dalek`: keys from 32 bytes, not all of which are a key, and the check of a signature,
which fails with a text. -/
structure Ed25519 where
  VerifyingKey : Type
  fromBytes : { bytes : List UInt8 // bytes.length = 32 } → Option VerifyingKey
  verify : VerifyingKey → List UInt8 → Signature → Except String Unit

/-- The report of a failed verification, with a text that tells what failed. -/
def verificationFailed (text : String) : Report :=
  (Report.new .signedProcessVerificationFailed).attach text

/-- The bytes of a key that is given raw or encoded. A key of 32 bytes is raw, also if it is
text. -/
def keyBytes (publicKey : List UInt8) : Except Report (List UInt8) :=
  if publicKey.length = 32 then .ok publicKey
  else
    match fromUtf8 publicKey with
    | none => .error (verificationFailed "public key must be raw 32 bytes or base64 text")
    | some encoded =>
        match Base64.decode (trim encoded) with
        | none => .error (verificationFailed "failed to decode base64 public key")
        | some decoded => .ok decoded

/-- `parse_verifying_key`: the bytes of the key have to be 32, and a point of the curve. -/
def parseVerifyingKey (ed : Ed25519) (publicKey : List UInt8) : Except Report ed.VerifyingKey := do
  let decoded ← keyBytes publicKey
  if h : decoded.length = 32 then
    match ed.fromBytes ⟨decoded, h⟩ with
    | some key => .ok key
    | none => .error (.new .signedProcessVerificationFailed)
  else .error (verificationFailed "ed25519 public key must be 32 bytes")

/-- The forms of a key: its bytes, or their base64 text. The two do not overlap, since such a text
is longer. -/
def KeyForm (publicKey raw : List UInt8) : Prop := publicKey = raw ∨ IsEncoded publicKey raw

/-- The bytes of a key are found in each of its forms, and nowhere else. -/
theorem keyBytes_eq_ok_iff {publicKey raw : List UInt8} (hraw : raw.length = 32) :
    keyBytes publicKey = .ok raw ↔ KeyForm publicKey raw := by
  rw [keyBytes, KeyForm, isEncoded_iff]
  split_ifs with hlen
  · constructor
    · rintro ⟨⟩
      exact .inl rfl
    · rintro (rfl | hencoded)
      · rfl
      -- the text of a key is longer than a key
      · have hle := (isEncoded_iff.2 hencoded).length_le
        omega
  · have hne : publicKey ≠ raw := by
      rintro rfl
      exact hlen hraw
    cases htext : fromUtf8 publicKey with
    | none => simp [hne]
    | some text =>
      cases hdecode : Base64.decode (trim text) with
      | none => simp [hne, hdecode]
      | some decoded => simp [hne, hdecode]

/-- **The keys that are read**: in one of their two forms, and no others. -/
theorem parseVerifyingKey_eq_ok_iff {ed : Ed25519} {publicKey : List UInt8}
    {key : ed.VerifyingKey} :
    parseVerifyingKey ed publicKey = .ok key ↔
      ∃ raw, KeyForm publicKey raw.val ∧ ed.fromBytes raw = some key := by
  constructor
  · intro h
    rw [parseVerifyingKey] at h
    cases hbytes : keyBytes publicKey with
    | error report =>
      rw [hbytes] at h
      cases h
    | ok decoded =>
      rw [hbytes] at h
      change (if h : decoded.length = 32 then _ else _) = _ at h
      split_ifs at h with hlen
      cases hkey : ed.fromBytes ⟨decoded, hlen⟩ with
      | none =>
        rw [hkey] at h
        cases h
      | some key' =>
        rw [hkey] at h
        cases h
        exact ⟨_, (keyBytes_eq_ok_iff hlen).1 hbytes, hkey⟩
  · rintro ⟨⟨raw, hraw⟩, hform, hkey⟩
    rw [parseVerifyingKey, (keyBytes_eq_ok_iff hraw).2 hform]
    change (if h : raw.length = 32 then _ else _) = _
    rw [dif_pos hraw, hkey]

/-! ### Signatures -/

/-- The forms of a signature: its base64 text, or its bytes where they are no base64 text. -/
def SignatureForm (bytes : List UInt8) (signature : Signature) : Prop :=
  IsEncoded bytes signature.val ∨ bytes = signature.val ∧ ∀ raw, ¬ IsEncoded bytes raw

/-- A file is taken for base64 exactly if it is the text of some bytes. -/
theorem looksEncoded_iff {bytes : List UInt8} :
    LooksEncoded bytes ↔ ∃ raw, IsEncoded bytes raw := by
  simp only [isEncoded_iff]
  exact exists_comm

/-- **The signatures that are read**: 64 bytes as they are, if they cannot be decoded, or
encoded. -/
theorem readSignature_eq_some_iff {path : String} {bytes : List UInt8} {signature : Signature} :
    readSignature path (.ok bytes) = .ok (some signature) ↔ SignatureForm bytes signature := by
  have hread : readSignature path (.ok bytes) = .ok (some signature) ↔
      signatureBytes bytes = signature.val := by
    refine ⟨fun h => ?_, readSignature_of_bytes⟩
    simp only [readSignature, Signature.fromSlice] at h
    split_ifs at h with hlen
    cases h
    rfl
  rw [hread, SignatureForm]
  by_cases h : LooksEncoded bytes
  · obtain ⟨raw, hraw⟩ := looksEncoded_iff.1 h
    obtain ⟨text, htext, hdecode⟩ := isEncoded_iff.1 hraw
    simp [signatureBytes, isEncoded_iff, htext, hdecode]
  · rw [signatureBytes_of_raw h]
    have hnone : ∀ raw, ¬ IsEncoded bytes raw := fun raw hraw => h (looksEncoded_iff.2 ⟨raw, hraw⟩)
    simp [hnone]

/-- A file that is there is never taken for a missing one, and any other error of reading is none
either. -/
theorem readSignature_eq_none_iff {path : String} {file : Except FileError (List UInt8)} :
    readSignature path file = .ok none ↔ file = .error .notFound := by
  constructor
  · intro h
    rcases file with (_ | e) | bytes
    · rfl
    · cases h
    · simp only [readSignature, Signature.fromSlice] at h
      split_ifs at h
      cases h
  · rintro rfl
    rfl

end Ogurpchik
