import Ogurpchik.LittleEndian

/-!
# Exact Byte Formats

A format couples a reader that takes a value off the front of a byte string with a writer, and
carries the proof that the reader is *exact*: it returns a value and a rest precisely when the
bytes are the image of a valid value followed by that rest. Formats compose by pairing, by a
change of representation and by a length field in front of a byte string, and exactness composes
with them.

## Main definitions

* `Format`: a reader and a writer with the exactness law.
* `Format.le`, `Format.pair`, `Format.map`, `Format.counted`: fixed-width integers, records and
  length-prefixed byte strings.
* `Format.decode`: reading a whole byte string with nothing left over.

## Main results

* `Format.decode_eq_some_iff`: what decodes to a value is exactly the image of that value.
-/

namespace ByteFormat

open LittleEndian

/-- A reader and a writer of values; `Valid` tells the values a reader can return. -/
structure Format (α : Type) where
  read : List UInt8 → Option (α × List UInt8)
  write : α → List UInt8
  Valid : α → Prop
  read_eq_some_iff : ∀ {bytes : List UInt8} {a : α} {rest : List UInt8},
    read bytes = some (a, rest) ↔ Valid a ∧ bytes = write a ++ rest

namespace Format

variable {α β : Type}

/-- Little-endian integers of `w` bytes, of any type that has as many values. Every value is valid,
and the two conversions are inverse to each other. -/
def le (w : ℕ) (ofNat : ℕ → α) (toNat : α → ℕ) (hof : ∀ a, ofNat (toNat a) = a)
    (hto : ∀ n < 256 ^ w, toNat (ofNat n) = n) (hlt : ∀ a, toNat a < 256 ^ w) : Format α where
  read bytes :=
    if w ≤ bytes.length then some (ofNat (leNat (bytes.take w)), bytes.drop w) else none
  write a := leBytes w (toNat a)
  Valid _ := True
  read_eq_some_iff := by
    intro bytes a rest
    constructor
    · intro h
      split_ifs at h with hw
      obtain ⟨rfl, rfl⟩ := Prod.mk.inj (Option.some.inj h)
      have hlen : (bytes.take w).length = w := by simp [hw]
      have hnat := leNat_lt (bytes.take w)
      rw [hlen] at hnat
      rw [hto _ hnat, leBytes_leNat_of_length hlen, List.take_append_drop]
      exact ⟨trivial, rfl⟩
    · rintro ⟨-, rfl⟩
      rw [if_pos (by simp), List.take_left' (length_leBytes w _),
        List.drop_left' (length_leBytes w _), leNat_leBytes_of_lt (hlt a), hof]

/-- One value behind another: what the first format leaves is read by the second, and a pair is
valid if its parts are. -/
def pair (f : Format α) (g : Format β) : Format (α × β) where
  read bytes := do
    let (a, rest) ← f.read bytes
    let (b, rest) ← g.read rest
    some ((a, b), rest)
  write p := f.write p.1 ++ g.write p.2
  Valid p := f.Valid p.1 ∧ g.Valid p.2
  read_eq_some_iff := by
    rintro bytes ⟨a, b⟩ rest
    constructor
    · intro h
      simp only [Option.bind_eq_bind, Option.bind_eq_some_iff, Prod.exists, Option.some.injEq,
        Prod.mk.injEq] at h
      obtain ⟨a, mid, ha, b, rest, hb, ⟨rfl, rfl⟩, rfl⟩ := h
      obtain ⟨hva, rfl⟩ := f.read_eq_some_iff.1 ha
      obtain ⟨hvb, rfl⟩ := g.read_eq_some_iff.1 hb
      exact ⟨⟨hva, hvb⟩, (List.append_assoc _ _ _).symm⟩
    · rintro ⟨⟨hva, hvb⟩, rfl⟩
      have ha : f.read (f.write a ++ (g.write b ++ rest)) = some (a, g.write b ++ rest) :=
        f.read_eq_some_iff.2 ⟨hva, rfl⟩
      have hb : g.read (g.write b ++ rest) = some (b, rest) := g.read_eq_some_iff.2 ⟨hvb, rfl⟩
      simp [ha, hb]

/-- A change of representation along a bijection: the fields of a packet one behind the other, as
the packet itself. -/
def map (f : Format α) (mk : α → β) (get : β → α) (hmk : ∀ b, mk (get b) = b)
    (hget : ∀ a, get (mk a) = a) : Format β where
  read bytes := (f.read bytes).map fun p => (mk p.1, p.2)
  write b := f.write (get b)
  Valid b := f.Valid (get b)
  read_eq_some_iff := by
    intro bytes b rest
    constructor
    · intro h
      obtain ⟨⟨a, mid⟩, ha, hab⟩ := Option.map_eq_some_iff.1 h
      obtain ⟨rfl, rfl⟩ := Prod.mk.inj hab
      rw [hget]
      exact f.read_eq_some_iff.1 ha
    · intro h
      rw [f.read_eq_some_iff.2 h, Option.map_some, hmk]

/-- A length field and as many bytes as it says. The writer writes the field as it is given. -/
def counted (f : Format α) (toNat : α → ℕ) : Format (α × List UInt8) where
  read bytes := do
    let (n, rest) ← f.read bytes
    if toNat n ≤ rest.length then some ((n, rest.take (toNat n)), rest.drop (toNat n)) else none
  write p := f.write p.1 ++ p.2
  Valid p := f.Valid p.1 ∧ p.2.length = toNat p.1
  read_eq_some_iff := by
    rintro bytes ⟨n, payload⟩ rest
    constructor
    · intro h
      simp only [Option.bind_eq_bind, Option.bind_eq_some_iff, Prod.exists] at h
      obtain ⟨n, mid, hn, h⟩ := h
      split_ifs at h with hle
      obtain ⟨hp, rfl⟩ := Prod.mk.inj (Option.some.inj h)
      obtain ⟨rfl, rfl⟩ := Prod.mk.inj hp
      obtain ⟨hv, rfl⟩ := f.read_eq_some_iff.1 hn
      refine ⟨⟨hv, by simp [hle]⟩, ?_⟩
      rw [List.append_assoc, List.take_append_drop]
    · rintro ⟨⟨hv, hlen⟩, rfl⟩
      have hn : f.read (f.write n ++ (payload ++ rest)) = some (n, payload ++ rest) :=
        f.read_eq_some_iff.2 ⟨hv, rfl⟩
      have hlen : toNat n = payload.length := hlen.symm
      simp [hn, hlen]

/-- Read a value that takes up the whole byte string: a decoder that refuses trailing bytes. -/
def decode (f : Format α) (bytes : List UInt8) : Option α :=
  match f.read bytes with
  | some (a, []) => some a
  | _ => none

/-- **A byte string decodes to a value** exactly when it is the image of that value. -/
theorem decode_eq_some_iff (f : Format α) {bytes : List UInt8} {a : α} :
    f.decode bytes = some a ↔ f.Valid a ∧ bytes = f.write a := by
  have h : f.decode bytes = some a ↔ f.read bytes = some (a, []) := by
    rw [decode]
    split
    · simp_all
    · rename_i hne
      constructor
      · simp
      · exact fun h => absurd h (hne a)
  rw [h, f.read_eq_some_iff, List.append_nil]

end Format

/-- Bytes: the smallest of the integer formats, in which every byte is a value. -/
def u8 : Format UInt8 :=
  .le 1 UInt8.ofNat UInt8.toNat (fun _ => UInt8.ofNat_toNat)
    (fun n hn => by simpa using Nat.mod_eq_of_lt hn) UInt8.toNat_lt

/-- 16-bit integers in little-endian order; two bytes are always a value. -/
def u16 : Format UInt16 :=
  .le 2 UInt16.ofNat UInt16.toNat (fun _ => UInt16.ofNat_toNat)
    (fun n hn => by simpa using Nat.mod_eq_of_lt hn) UInt16.toNat_lt

/-- 32-bit integers in little-endian order; four bytes are always a value. -/
def u32 : Format UInt32 :=
  .le 4 UInt32.ofNat UInt32.toNat (fun _ => UInt32.ofNat_toNat)
    (fun n hn => by simpa using Nat.mod_eq_of_lt hn) UInt32.toNat_lt

/-- 64-bit integers in little-endian order; eight bytes are always a value. -/
def u64 : Format UInt64 :=
  .le 8 UInt64.ofNat UInt64.toNat (fun _ => UInt64.ofNat_toNat)
    (fun n hn => by simpa using Nat.mod_eq_of_lt hn) UInt64.toNat_lt

end ByteFormat
