import Mathlib.Algebra.Order.Ring.Nat
import Mathlib.Tactic.Ring

/-!
# Little-Endian Byte Strings

Fixed-width unsigned integers as byte strings, least significant byte first. `leBytes w n`
is the `w`-byte image of `n` (what a cast to the `8 * w`-bit type followed by
`to_le_bytes` gives) and `leNat` reads a byte string back. `beBytes` and `beNat` are the same with
the most significant byte first.

## Main results

* `leNat_leBytes`: reading back an image reduces modulo `256 ^ w`.
* `leBytes_leNat`: writing back what was read restores the bytes.
* `leNat_lt`: a `w`-byte string denotes a number below `256 ^ w`.
-/

namespace LittleEndian

/-- The `w` low-order bytes of `n`, least significant first. Higher bytes are cut off, as a cast to
a narrower type does. -/
def leBytes : ℕ → ℕ → List UInt8
  | 0, _ => []
  | w + 1, n => UInt8.ofNat n :: leBytes w (n / 256)

/-- The number denoted by a byte string, least significant byte first, for strings of any length. -/
def leNat : List UInt8 → ℕ
  | [] => 0
  | b :: bs => b.toNat + 256 * leNat bs

/-- No bytes are the number zero. -/
@[simp] theorem leNat_nil : leNat [] = 0 := rfl

/-- The first byte is the least significant one. -/
@[simp] theorem leNat_cons (b : UInt8) (bs : List UInt8) :
    leNat (b :: bs) = b.toNat + 256 * leNat bs := rfl

/-- An image has exactly the requested width. -/
@[simp] theorem length_leBytes (w n : ℕ) : (leBytes w n).length = w := by
  induction w generalizing n with
  | zero => rfl
  | succ w ih =>
      rw [leBytes, List.length_cons, ih]

/-- A byte string of length `w` denotes a number below `256 ^ w`. -/
theorem leNat_lt (bs : List UInt8) : leNat bs < 256 ^ bs.length := by
  induction bs with
  | nil => simp
  | cons b bs ih =>
      have hb : b.toNat < 256 := b.toNat_lt
      rw [leNat_cons, List.length_cons, pow_succ]
      omega

/-- **Reading back an image** keeps what fits the width. -/
theorem leNat_leBytes (w n : ℕ) : leNat (leBytes w n) = n % 256 ^ w := by
  induction w generalizing n with
  | zero => simp [leBytes, Nat.mod_one]
  | succ w ih =>
      have hb : (UInt8.ofNat n).toNat = n % 256 := by simp
      rw [leBytes, leNat_cons, ih, hb, pow_succ', Nat.mod_mul]

/-- A number that fits the width survives the round trip. -/
theorem leNat_leBytes_of_lt {w n : ℕ} (h : n < 256 ^ w) : leNat (leBytes w n) = n := by
  rw [leNat_leBytes, Nat.mod_eq_of_lt h]

/-- **Writing back what was read** restores the byte string, at its own length. -/
theorem leBytes_leNat (bs : List UInt8) : leBytes bs.length (leNat bs) = bs := by
  induction bs with
  | nil => rfl
  | cons b bs ih =>
      have hb : b.toNat < 256 := b.toNat_lt
      have hhead : UInt8.ofNat (b.toNat + 256 * leNat bs) = b := by
        apply UInt8.toNat_inj.mp
        rw [UInt8.toNat_ofNat']
        omega
      have htail : (b.toNat + 256 * leNat bs) / 256 = leNat bs := by omega
      rw [List.length_cons, leNat_cons, leBytes, hhead, htail, ih]

/-- The image of a number read from a string of the given width. -/
theorem leBytes_leNat_of_length {w : ℕ} {bs : List UInt8} (h : bs.length = w) :
    leBytes w (leNat bs) = bs := by
  rw [← h, leBytes_leNat]

/-! ### Most significant byte first -/

/-- The `w` low-order bytes of `n`, most significant first: `leBytes` the other way round. -/
def beBytes (w n : ℕ) : List UInt8 := (leBytes w n).reverse

/-- The number denoted by a byte string, most significant byte first: `leNat` the other way
round. -/
def beNat (bs : List UInt8) : ℕ := leNat bs.reverse

/-- The width is fixed: a number is padded with zeros in front, or loses what does not fit. -/
@[simp] theorem length_beBytes (w n : ℕ) : (beBytes w n).length = w := by
  rw [beBytes, List.length_reverse, length_leBytes]

/-- As many bytes as a width has cannot hold more than numbers of that width. -/
theorem beNat_lt (bs : List UInt8) : beNat bs < 256 ^ bs.length := by
  rw [beNat, ← List.length_reverse]
  exact leNat_lt _

/-- Bytes are determined by their number and how many they are, so a field can be compared by its
value. -/
theorem beBytes_beNat_of_length {w : ℕ} {bs : List UInt8} (h : bs.length = w) :
    beBytes w (beNat bs) = bs := by
  rw [beBytes, beNat, leBytes_leNat_of_length (by rw [List.length_reverse, h]),
    List.reverse_reverse]

/-- The bytes behind count for as much more as there are bytes in front of them. -/
theorem leNat_append (bs cs : List UInt8) :
    leNat (bs ++ cs) = leNat bs + 256 ^ bs.length * leNat cs := by
  induction bs with
  | nil => simp
  | cons b bs ih =>
      rw [List.cons_append, leNat_cons, ih, leNat_cons, List.length_cons, pow_succ]
      ring

/-- The bytes in front count for more. -/
theorem beNat_append (bs cs : List UInt8) :
    beNat (bs ++ cs) = 256 ^ cs.length * beNat bs + beNat cs := by
  rw [beNat, List.reverse_append, leNat_append, List.length_reverse, ← beNat, ← beNat,
    Nat.add_comm]

end LittleEndian
