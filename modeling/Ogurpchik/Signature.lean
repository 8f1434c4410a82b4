import Mathlib.Data.List.DropRight
import Ogurpchik.Base64
import Ogurpchik.Utf8

/-!
# Signature Files

The signature of an image is in a file beside it, either as base64 text or as its 64 bytes. The
reader is not told which: it takes the file for base64 if it can be read that way, and for the bytes
of the signature otherwise. Whether a file of 64 bytes is read as what it is depends then on those
bytes. Most are no UTF-8 at all, but some are a text of base64, and such a text of at most 64
characters stands for at most 48 bytes, which are no signature.

## Main definitions

* `readSignature`: the reader.
* `trim`: a text without the white space around it.
* `LooksEncoded`: a file that is taken for base64.

## Main results

* `signature_reads_back`: **the base64 form is always read back**, and the raw form exactly when it
  does not look encoded.
* `unlucky_signature_refused`: a signature whose raw form is refused.
-/

namespace Ogurpchik

/-! ### The reader -/

/-- `char::is_whitespace`: the characters with the property `White_Space`, which are more than those
of ASCII. -/
def isWhitespace (c : Char) : Bool :=
  (9 ≤ c.toNat ∧ c.toNat ≤ 13) ∨ c.toNat = 0x20 ∨ c.toNat = 0x85 ∨ c.toNat = 0xa0 ∨
    c.toNat = 0x1680 ∨ (0x2000 ≤ c.toNat ∧ c.toNat ≤ 0x200a) ∨ c.toNat = 0x2028 ∨
    c.toNat = 0x2029 ∨ c.toNat = 0x202f ∨ c.toNat = 0x205f ∨ c.toNat = 0x3000

/-- `str::trim`: white space goes at both ends, and stays between. -/
def trim (text : List Char) : List Char := (text.dropWhile isWhitespace).rdropWhile isWhitespace

/-- `ed25519_dalek::Signature`: 64 bytes, none of which is looked at here. -/
abbrev Signature := { bytes : List UInt8 // bytes.length = 64 }

/-- `Signature::from_slice`: only the length is checked. -/
def Signature.fromSlice (bytes : List UInt8) : Option Signature :=
  if h : bytes.length = 64 then some ⟨bytes, h⟩ else none

/-- What `fs::read` may fail with: there is no such file, or something else, given by its text. -/
inductive FileError
  | notFound
  | other (text : String)

/-- The bytes a file stands for: those it decodes to if it is the text of some, and its own if not.
The order of the two makes the case of `unluckySignature`. -/
def signatureBytes (bytes : List UInt8) : List UInt8 :=
  ((fromUtf8 bytes).bind fun text => Base64.decode (trim text)).getD bytes

/-- `read_signature`, with what reading the file gave: a file that is missing is no error here. -/
def readSignature (path : String) : Except FileError (List UInt8) → Except Report (Option Signature)
  | .error .notFound => .ok none
  | .error (.other e) =>
      .error ((Report.new .signedProcessVerificationFailed).attach
        ("failed to read signature " ++ path ++ ": " ++ e))
  | .ok bytes =>
      match Signature.fromSlice (signatureBytes bytes) with
      | some signature => .ok (some signature)
      | none => .error (.new .signedProcessVerificationFailed)

/-- A file that is taken for base64: text that decodes once white space is trimmed. -/
def LooksEncoded (bytes : List UInt8) : Prop :=
  ∃ text decoded, fromUtf8 bytes = some text ∧ Base64.decode (trim text) = some decoded

/-! ### White space -/

/-- Trimming does not lengthen a text. -/
theorem length_trim_le (text : List Char) : (trim text).length ≤ text.length :=
  (List.rdropWhile_prefix _ _).length_le.trans (List.dropWhile_suffix _).length_le

/-- White space goes, up to the first and the last character that is none. -/
theorem trim_append {before text after : List Char} (hbefore : ∀ c ∈ before, isWhitespace c)
    (hafter : ∀ c ∈ after, isWhitespace c) (htext : ∀ c ∈ text, ¬ isWhitespace c) :
    trim (before ++ text ++ after) = text := by
  rw [trim, List.append_assoc, List.dropWhile_append_of_pos hbefore]
  cases text with
  | nil =>
    rw [List.nil_append, List.dropWhile_eq_nil_iff.mpr hafter, List.rdropWhile_nil]
  | cons c cs =>
    have hback : (after.reverse ++ (c :: cs).reverse).dropWhile isWhitespace =
        (c :: cs).reverse.dropWhile isWhitespace :=
      List.dropWhile_append_of_pos fun a ha => hafter a (List.mem_reverse.mp ha)
    rw [List.cons_append, List.dropWhile_cons_of_neg (htext c List.mem_cons_self),
      ← List.cons_append, List.rdropWhile, List.reverse_append, hback, ← List.rdropWhile,
      List.rdropWhile_eq_self_iff]
    exact fun hne => htext _ (List.getLast_mem hne)

/-- Base64 text has no white space, so trimming finds its two ends. -/
theorem not_isWhitespace_of_mem_encode {bytes : List UInt8} {c : Char}
    (h : c ∈ Base64.encode bytes) : ¬ isWhitespace c := by
  rcases Base64.mem_encode h with rfl | ⟨n, hn, rfl⟩
  · decide
  · have hall : ∀ n : Fin 64, ¬ isWhitespace (Base64.symbol n) := by decide
    exact hall ⟨n, hn⟩

/-! ### The two forms -/

/-- A file with the bytes of a signature, in either form, is read as that signature. -/
theorem readSignature_of_bytes {path : String} {bytes : List UInt8} {signature : Signature}
    (h : signatureBytes bytes = signature.val) :
    readSignature path (.ok bytes) = .ok (some signature) := by
  simp only [readSignature, h, Signature.fromSlice, dif_pos signature.property]

/-- A text that decodes stands for what it decodes to. -/
theorem signatureBytes_of_text {text : List Char} {decoded : List UInt8}
    (h : Base64.decode (trim text) = some decoded) :
    signatureBytes (utf8 (.ofList text)) = decoded := by
  rw [signatureBytes, fromUtf8_utf8, String.toList_ofList, Option.bind_some, h, Option.getD_some]

/-- A file that does not look encoded stands for its own bytes: it is no text, or no base64. -/
theorem signatureBytes_of_raw {bytes : List UInt8} (h : ¬ LooksEncoded bytes) :
    signatureBytes bytes = bytes := by
  rw [signatureBytes]
  cases htext : fromUtf8 bytes with
  | none => rfl
  | some text =>
    cases hdecoded : Base64.decode (trim text) with
    | none => rw [Option.bind_some, hdecoded, Option.getD_none]
    | some decoded => exact absurd ⟨text, decoded, htext, hdecoded⟩ h

/-- A file of 64 bytes that looks encoded stands for at most 48, so it is refused. -/
theorem readSignature_of_looksEncoded {path : String} {bytes : List UInt8}
    (hlen : bytes.length = 64) (h : LooksEncoded bytes) :
    readSignature path (.ok bytes) = .error (.new .signedProcessVerificationFailed) := by
  obtain ⟨text, decoded, htext, hdecoded⟩ := h
  have hbytes : signatureBytes bytes = decoded := by
    rw [signatureBytes, htext, Option.bind_some, hdecoded, Option.getD_some]
  have hshort : decoded.length ≠ 64 := by
    have hdecode := Base64.length_decode hdecoded
    have htrim := length_trim_le text
    have hchars := length_fromUtf8_le htext
    omega
  simp only [readSignature, hbytes, Signature.fromSlice, dif_neg hshort]

/-- **Both forms of a signature file.** The base64 text of a signature is read back as that
signature, with any white space around it. The 64 bytes of a signature are read back exactly when
they do not look encoded: when they are not a text that without the white space around it is
base64. -/
theorem signature_reads_back (path : String) (signature : Signature) :
    (∀ before after : List Char, (∀ c ∈ before, isWhitespace c) → (∀ c ∈ after, isWhitespace c) →
      readSignature path
        (.ok (utf8 (.ofList (before ++ Base64.encode signature.val ++ after)))) =
          .ok (some signature)) ∧
    (readSignature path (.ok signature.val) = .ok (some signature) ↔
      ¬ LooksEncoded signature.val) := by
  refine ⟨?_, ?_, ?_⟩
  · intro before after hbefore hafter
    refine readSignature_of_bytes (signatureBytes_of_text ?_)
    rw [trim_append hbefore hafter fun c => not_isWhitespace_of_mem_encode, Base64.decode_encode]
  · intro hread hencoded
    cases (readSignature_of_looksEncoded signature.property hencoded).symm.trans hread
  · intro hraw
    exact readSignature_of_bytes (signatureBytes_of_raw hraw)

/-- Sixty letters `A` and four line feeds: 64 bytes, which are a text that decodes. -/
def unluckyText : List Char := List.replicate 60 'A' ++ List.replicate 4 '\n'

/-- A signature whose bytes are that text, so that its raw file is not read as itself. -/
def unluckySignature : Signature :=
  ⟨List.replicate 60 0x41 ++ List.replicate 4 0x0a, by decide⟩

/-- **A raw signature that is refused**: it is taken for the base64 text of 45 bytes. -/
theorem unlucky_signature_refused :
    readSignature "agent.exe.sig" (.ok unluckySignature.val) =
      .error (.new .signedProcessVerificationFailed) := by
  have hbytes : utf8 (.ofList unluckyText) = unluckySignature.val := by
    rw [utf8, String.toList_ofList]
    decide
  have htext : fromUtf8 unluckySignature.val = some unluckyText := by
    rw [← hbytes, fromUtf8_utf8, String.toList_ofList]
  have hdecoded : Base64.decode (trim unluckyText) = some (List.replicate 45 0) := by decide
  exact readSignature_of_looksEncoded unluckySignature.property
    ⟨unluckyText, List.replicate 45 0, htext, hdecoded⟩

end Ogurpchik
