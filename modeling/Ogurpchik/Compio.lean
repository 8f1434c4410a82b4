import Mathlib.Data.Stream.Init
import Mathlib.Algebra.Order.Ring.Nat
import Ogurpchik.Async

/-!
# The Transport Seen by the Code

What the connection code uses of its runtime: growable byte buffers whose capacity the
allocator chooses, reads that hand back at most the room they were offered, and `readExact`,
the loop that reads until a buffer of a given size is full.

A read is an awaited operation (`ReadOp`) that carries the buffer it owns while it is in
flight, so its answer cannot be longer than the room (`ReadOp.Ans`). `Wire` is a transport
that delivers a fixed byte string and then ends; its `cuts` decide how many bytes each read
returns, so a statement about every `Wire` is a statement about every split of the stream
into reads.

## Main results

* `Wire.read_cons`: every admissible length of the next read is some choice of `cuts`.
* `run_readExactFrom_of_append`, `run_readExactFrom_of_lt`: `readExact` takes exactly the bytes it
  was asked for, however they are split, and fails exactly when the stream is too short.
-/

namespace Ogurpchik

open Async

/-- The I/O errors a transport reports; a closed stream in the middle of `readExact` is the
one the code tells apart. -/
inductive IoError
  | unexpectedEof
  | writeZero
  | other (code : ℕ)
  deriving DecidableEq, Repr

/-! ### Byte buffers -/

/-- An allocator: asked to replace a buffer of capacity `cap` by one for `need` bytes, it
grants at least that. -/
structure Alloc where
  grant : ℕ → ℕ → ℕ
  le_grant : ∀ cap need, need ≤ grant cap need

/-- The allocator that grants exactly what it is asked for, which is the least an allocator may
do. -/
def Alloc.exact : Alloc := ⟨fun _ need => need, fun _ _ => le_rfl⟩

/-- A byte buffer: its initialised bytes and its capacity, which is never below their number. -/
structure Vec where
  data : List UInt8
  cap : ℕ
  le_cap : data.length ≤ cap
  deriving DecidableEq

namespace Vec

/-- The initialised length, which is what `Vec::len` returns. -/
def len (v : Vec) : ℕ := v.data.length

/-- The spare capacity behind the initialised bytes: a read may fill it. -/
def room (v : Vec) : ℕ := v.cap - v.data.length

/-- `Vec::new`: no bytes and no allocation. -/
def new : Vec := ⟨[], 0, le_rfl⟩

/-- `Vec::with_capacity`: no bytes, and an allocation of at least that size. -/
def withCapacity (al : Alloc) (n : ℕ) : Vec := ⟨[], al.grant 0 n, Nat.zero_le _⟩

/-- `Vec::drain(..n)`: forget the first `n` bytes and keep the allocation, so that there is room
behind the rest. -/
def drain (v : Vec) (n : ℕ) : Vec :=
  ⟨v.data.drop n, v.cap, le_trans (by simp) v.le_cap⟩

/-- `Vec::clear`: forget all bytes and keep the allocation, which is how buffers are reused. -/
def clear (v : Vec) : Vec := ⟨[], v.cap, Nat.zero_le _⟩

/-- The capacity after room for `additional` more bytes was asked for. The allocator is asked only
if there is not enough, and may grant more. -/
def grown (al : Alloc) (v : Vec) (additional : ℕ) : ℕ :=
  if v.data.length + additional ≤ v.cap then v.cap
  else al.grant v.cap (v.data.length + additional)

/-- There is room for what was asked for, however much more the allocator grants. -/
theorem le_grown (al : Alloc) (v : Vec) (additional : ℕ) :
    v.data.length + additional ≤ v.grown al additional := by
  rw [grown]
  split
  · assumption
  · exact al.le_grant _ _

/-- `Vec::reserve_exact`: the same bytes, with room for so many more behind them. -/
def reserveExact (al : Alloc) (v : Vec) (additional : ℕ) : Vec :=
  ⟨v.data, v.grown al additional, le_trans (Nat.le_add_right _ _) (v.le_grown al additional)⟩

/-- `Vec::extend_from_slice`: the bytes are copied behind those that are there, and the buffer grows
if it has to. -/
def extendFromSlice (al : Alloc) (v : Vec) (bytes : List UInt8) : Vec :=
  ⟨v.data ++ bytes, v.grown al bytes.length, by
    rw [List.length_append]; exact v.le_grown al _⟩

/-- What a read leaves in the buffer it was given: its bytes stand behind the old ones. -/
def filled (v : Vec) (bytes : { bs : List UInt8 // bs.length ≤ v.room }) : Vec :=
  ⟨v.data ++ bytes.val, v.cap, by
    have hb := bytes.property
    have hc := v.le_cap
    simp only [room] at hb
    rw [List.length_append]
    omega⟩

/-- A new vector is empty. -/
@[simp] theorem data_new : new.data = [] := rfl

/-- So is one that was made with a capacity. -/
@[simp] theorem data_withCapacity (al : Alloc) (n : ℕ) : (withCapacity al n).data = [] := rfl

/-- Draining forgets bytes at the front and keeps those behind them. -/
@[simp] theorem data_drain (v : Vec) (n : ℕ) : (v.drain n).data = v.data.drop n := rfl

/-- A cleared vector is empty; what is kept is its allocation. -/
@[simp] theorem data_clear (v : Vec) : v.clear.data = [] := rfl

/-- Reserving room does not change the bytes. -/
@[simp] theorem data_reserveExact (al : Alloc) (v : Vec) (n : ℕ) :
    (v.reserveExact al n).data = v.data := rfl

/-- The new bytes stand behind the old ones. -/
@[simp] theorem data_extendFromSlice (al : Alloc) (v : Vec) (bytes : List UInt8) :
    (v.extendFromSlice al bytes).data = v.data ++ bytes := rfl

/-- The bytes of a read stand behind the old ones. -/
@[simp] theorem data_filled (v : Vec) (bytes : { bs : List UInt8 // bs.length ≤ v.room }) :
    (v.filled bytes).data = v.data ++ bytes.val := rfl

end Vec

/-! ### Reads -/

/-- The reads a program may await: `append` owns a buffer and fills its spare capacity,
`read` fills `room` bytes of a buffer the caller keeps. -/
inductive ReadOp
  | append (buf : Vec)
  | read (room : ℕ)

/-- The number of bytes a read may return at most: the room of the buffer it was given. -/
def ReadOp.room : ReadOp → ℕ
  | append buf => buf.room
  | read room => room

/-- The answer of a read: an error, or bytes that fit the room. No bytes mean the end of the
stream. -/
abbrev ReadOp.Ans (op : ReadOp) : Type :=
  Except IoError { bs : List UInt8 // bs.length ≤ op.room }

/-- Programs that only read: `async` functions over a reader, up to the reads they await. -/
abbrev ReadProg := Prog ReadOp ReadOp.Ans

/-- The loop of `AsyncReadExt::read_exact` for a buffer of `n` bytes of which `got` are
there. -/
def readExactFrom (n : ℕ) (got : List UInt8) : ReadProg (Except IoError (List UInt8)) :=
  if got.length < n then
    .await (.read (n - got.length)) fun
      | .error e => .done (.error e)
      | .ok bs =>
          if bs.val = [] then .done (.error .unexpectedEof)
          else readExactFrom n (got ++ bs.val)
  else .done (.ok got)
termination_by n - got.length
decreasing_by
  rename_i hlt hne
  have hpos := List.length_pos_iff.mpr hne
  rw [List.length_append]
  omega

/-- `AsyncReadExt::read_exact` on a fresh buffer of `n` bytes: reads until it is full, and the end
of the stream before that is an error. -/
def readExact (n : ℕ) : ReadProg (Except IoError (List UInt8)) :=
  readExactFrom n []

/-! ### A finite stream -/

/-- A transport that still delivers `data` and then ends. The head of `cuts` is the length the
next read would like to return. -/
structure Wire where
  data : List UInt8
  cuts : Stream' ℕ

namespace Wire

/-- The length of the next read into `room` bytes: at least one byte while room and data
last. -/
def readLen (w : Wire) (room : ℕ) : ℕ := min (max 1 w.cuts.head) room

/-- One read into `room` bytes: a front of the stream, whose length the environment chooses. -/
def read (w : Wire) (room : ℕ) : { bs : List UInt8 // bs.length ≤ room } × Wire :=
  (⟨w.data.take (w.readLen room), by simp [readLen]⟩,
    ⟨w.data.drop (w.readLen room), w.cuts.tail⟩)

/-- Answers reads from the wire; this transport reports no errors, and an empty answer means that
the stream has ended. -/
def handle (w : Wire) (op : ReadOp) : op.Ans × Wire :=
  (.ok (w.read op.room).1, (w.read op.room).2)

/-- A read into a buffer with room asks for a byte at least, so it makes progress until the stream
ends. -/
theorem readLen_pos (w : Wire) {room : ℕ} (h : 0 < room) : 0 < w.readLen room := by
  rw [readLen]
  omega

/-- A read takes its bytes from the front of the stream. -/
theorem read_append_data (w : Wire) (room : ℕ) :
    (w.read room).1.val ++ (w.read room).2.data = w.data :=
  List.take_append_drop _ _

/-- A read into some room returns nothing only at the end of the stream. -/
theorem read_eq_nil_iff (w : Wire) {room : ℕ} (h : 0 < room) :
    (w.read room).1.val = [] ↔ w.data = [] := by
  have hpos := w.readLen_pos h
  simp only [read, List.take_eq_nil_iff]
  constructor
  · rintro (h0 | h0)
    · omega
    · exact h0
  · exact Or.inr

/-- A read while data remains: some nonempty front of the data that fits the room. -/
theorem read_spec (w : Wire) {room : ℕ} (h : 0 < room) (hd : w.data ≠ []) :
    ∃ ys zs, w.data = ys ++ zs ∧ ys ≠ [] ∧ ys.length ≤ room ∧
      (w.read room).1.val = ys ∧ (w.read room).2 = ⟨zs, w.cuts.tail⟩ :=
  ⟨(w.read room).1.val, (w.read room).2.data, (w.read_append_data room).symm,
    fun h0 => hd ((w.read_eq_nil_iff h).mp h0), (w.read room).1.property, rfl, rfl⟩

/-- **Every split is covered**: a read may return any admissible number of bytes. -/
theorem read_cons (data : List UInt8) (n : ℕ) (cuts : Stream' ℕ) {room : ℕ} (hn : 0 < n)
    (hr : n ≤ room) :
    (((⟨data, Stream'.cons n cuts⟩ : Wire).read room).1.val = data.take n) ∧
      ((⟨data, Stream'.cons n cuts⟩ : Wire).read room).2 = ⟨data.drop n, cuts⟩ := by
  have hlen : (⟨data, Stream'.cons n cuts⟩ : Wire).readLen room = n := by
    simp only [readLen, Stream'.head_cons]
    omega
  simp [read, hlen]

end Wire

/-- **`readExact` on a long enough stream** returns the missing bytes and leaves the rest,
whatever the split. -/
theorem run_readExactFrom_of_append {n : ℕ} {got xs rest : List UInt8} {cuts : Stream' ℕ}
    (h : got.length + xs.length = n) :
    ∃ cuts', (readExactFrom n got).run Wire.handle ⟨xs ++ rest, cuts⟩ =
      (.ok (got ++ xs), ⟨rest, cuts'⟩) := by
  induction hm : xs.length using Nat.strong_induction_on generalizing got xs cuts with
  | _ m ih =>
      rw [readExactFrom]
      by_cases hlt : got.length < n
      · have hdata : xs ++ rest ≠ [] := by
          intro h0
          have := congrArg List.length h0
          rw [List.length_append, List.length_nil] at this
          omega
        obtain ⟨ys, zs, hsplit, hne, hle, hval, hwire⟩ :=
          Wire.read_spec ⟨xs ++ rest, cuts⟩ (show 0 < n - got.length by omega) hdata
        -- the read stays inside `xs`, so what is left of `xs` is `zs` without `rest`
        obtain ⟨us, rfl, rfl⟩ : ∃ us, xs = ys ++ us ∧ zs = us ++ rest := by
          rcases List.append_eq_append_iff.mp hsplit with ⟨us, rfl, rfl⟩ | ⟨us, rfl, rfl⟩
          · have hus : us = [] := by
              rw [List.length_append] at hle
              exact List.length_eq_zero_iff.mp (by omega)
            exact ⟨[], by simp [hus], by simp [hus]⟩
          · exact ⟨us, rfl, rfl⟩
        have hpos := List.length_pos_iff.mpr hne
        rw [List.length_append] at h hm
        obtain ⟨cuts', hcuts⟩ := @ih us.length (by omega) (got ++ ys) us cuts.tail
          (by rw [List.length_append]; omega) rfl
        refine ⟨cuts', ?_⟩
        rw [if_pos hlt, Prog.run_await]
        simp only [Wire.handle, ReadOp.room, hval, hwire, if_neg hne]
        rw [hcuts, List.append_assoc]
      · have hnil : xs = [] := List.length_eq_zero_iff.mp (by omega)
        exact ⟨cuts, by rw [if_neg hlt, Prog.run_done, hnil]; simp⟩

/-- **`readExact` on a stream that is too short** reads it to its end and reports
`unexpectedEof`. -/
theorem run_readExactFrom_of_lt {n : ℕ} {got : List UInt8} {w : Wire}
    (h : got.length + w.data.length < n) :
    ∃ cuts, (readExactFrom n got).run Wire.handle w =
      (.error .unexpectedEof, ⟨[], cuts⟩) := by
  induction hm : w.data.length using Nat.strong_induction_on generalizing got w with
  | _ m ih =>
      have hroom : 0 < n - got.length := by omega
      rw [readExactFrom, if_pos (by omega), Prog.run_await]
      by_cases hnil : w.data = []
      · refine ⟨w.cuts.tail, ?_⟩
        have hval : (w.read (n - got.length)).1.val = [] := (w.read_eq_nil_iff hroom).mpr hnil
        simp only [Wire.handle, ReadOp.room, if_pos hval, Prog.run_done]
        simp [Wire.read, hnil]
      · have hval : (w.read (n - got.length)).1.val ≠ [] :=
          fun h0 => hnil ((w.read_eq_nil_iff hroom).mp h0)
        have hsum := congrArg List.length (w.read_append_data (n - got.length))
        have hpos := List.length_pos_iff.mpr hval
        rw [List.length_append] at hsum
        simp only [Wire.handle, ReadOp.room, if_neg hval]
        exact ih (w.read (n - got.length)).2.data.length (by omega)
          (by rw [List.length_append]; omega) rfl

end Ogurpchik
