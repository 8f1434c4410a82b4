import Ogurpchik.DecoderBounds

/-!
# What the Decoder Keeps in Memory

The peer chooses the bytes a decoder reads, among them the number of segments and the size of a
message. This module bounds what they can make the decoder keep: the staging buffer, and the
buffers for the messages.

The actions of the decoder and their bounds are those of `Ogurpchik.DecoderActions` and
`Ogurpchik.DecoderBounds`. What is added here is the allocator, which grants what it is asked for,
so that the bound of the staging buffer is its nominal capacity or the largest segment table; and
what becomes of a call that has seen too large a message declared.

## Main definitions

* `Reachable`: sessions with a staging capacity and a traversal limit.
* `Refuses`: a call that ends in an error without another read or allocation.

## Main results

* `refuses_of_keeps`: a call that has seen a table beyond the limit refuses it.
* `buffering_bounded`: **the bounds over every session.**
-/

namespace Ogurpchik

namespace Buffering

open Async Decoder

/-- States of a decoder with staging capacity `c` and traversal limit `w`, whose buffers have the
capacity that was asked for. -/
def Reachable (c w : ℕ) (s : Session) : Prop := Decoder.Reachable (· = .exact) (some w) c s

/-- The action neither reads nor allocates: it works on what the decoder has. -/
def Quiet : Act → Prop
  | .read _ | .allocate _ => False
  | .store _ | .check _ | .fill _ => True

/-- The call ends in the error, without another read or allocation, whatever it is answered. -/
inductive Refuses (kind : ErrorKind) : CallProg → Prop
  | refused : Refuses kind (.done (.error (.error kind)))
  | quiet {act : Act} {k : act.Ans → CallProg} (hquiet : Quiet act)
      (h : ∀ ans, Refuses kind (k ans)) : Refuses kind (.await act k)

/-- The bounds of such a decoder: its staging buffer holds its capacity, or a table of the largest
number of segments. -/
def bounds (c w : ℕ) : Bounds where
  capacity := c
  limit := some w
  cap := max c 2048
  capacity_le := le_max_left _ _
  table_le := le_max_right _ _

/-- A traversal limit is exceeded by more words than it allows, not by as many. -/
theorem exceeds_some_iff {w total : ℕ} : exceeds (some w) total ↔ w < total :=
  decide_eq_true_iff

/-- The invariant of the decoder at the bounds of this module: an allocator that grants exactly what
it is asked for does not go beyond them. -/
theorem Reachable.inv {c w : ℕ} {s : Session} (h : Reachable c w s) : Inv (bounds c w) s := by
  refine inv_of_reachable ?_ h
  rintro al rfl cap need hneed
  exact hneed

/-- A call that has seen a table beyond the limit does not read or allocate any more, and ends in
the error: a read is awaited only while nothing beyond the limit is declared, and a buffer is
allocated only for a message within it. -/
theorem refuses_of_keeps {b : Bounds} {p : CallProg} {r : Record} {total : ℕ}
    (h : Keeps b (Returned b) (ExceptT.mk p) r) (hdeclares : Declares r.bytes total)
    (hlarge : exceeds b.limit total) : Refuses (.messageTooLarge total) p := by
  induction p generalizing r with
  | done res =>
    cases res with
    | ok a => exact absurd hlarge (h.2 total hdeclares)
    | error fault =>
      obtain rfl : fault = .error (.messageTooLarge total) := h.2 total hdeclares hlarge
      exact .refused
  | await act k ih =>
    obtain ⟨hguard, hrest⟩ := h
    cases act with
    | read op => cases op with
      | append _ | read _ => exact absurd hlarge (hguard.2 total hdeclares)
    | allocate n =>
      obtain ⟨total', hdeclares', hle, -⟩ := hguard
      exact absurd (hdeclares.unique hdeclares' ▸ hlarge) hle
    | store _ | check _ | fill _ => exact .quiet trivial fun ans => ih ans (hrest ans) hdeclares

/-- **Bounded buffering.** Over any number of calls on one decoder with staging capacity `c` and
traversal limit `w`, whatever the reads return and wherever a call is dropped: the staging buffer
never has room for more than `max c 2048` bytes, also while a read fills it; no message buffer of
more than `8 * w` bytes is allocated; and as soon as a call has seen a complete table that declares
more than `w` words, it has allocated nothing and ends in the error without another read or
allocation. -/
theorem buffering_bounded {c w : ℕ} {s : Session} (h : Reachable c w s) :
    s.inb.staging.len ≤ max c 2048 ∧
    (∀ buf k, s.call = some (.await (.read (.append buf)) k) → buf.cap ≤ max c 2048) ∧
    (∀ n k, s.call = some (.await (.allocate n) k) → n ≤ 8 * w) ∧
    ∀ p total, s.call = some p → Declares s.bytes total → w < total →
      s.buffers = [] ∧ Refuses (.messageTooLarge total) p := by
  have hinv := h.inv
  refine ⟨s.inb.staging.le_cap.trans hinv.stored.cap_le, ?_, ?_, ?_⟩
  · intro buf k hcall
    exact (hinv.call _ hcall).1.1.2.1
  · intro n k hcall
    obtain ⟨total, -, hle, rfl⟩ := (hinv.call _ hcall).1
    exact Nat.mul_le_mul_left 8 (not_lt.mp (mt exceeds_some_iff.mpr hle))
  · intro p total hcall hdeclares hlt
    have hlarge : exceeds (some w) total := exceeds_some_iff.mpr hlt
    refine ⟨?_, refuses_of_keeps (hinv.call p hcall) hdeclares hlarge⟩
    by_contra hne
    exact absurd hlarge ((hinv.buffers hne).within total hdeclares)

/-- The first read returns a table that declares one word, with a limit of none. -/
theorem buffering_bounded_oversized :
    ∃ s p, Reachable 0 0 s ∧ s.call = some p ∧ s.bytes = [0, 0, 0, 0, 1, 0, 0, 0] ∧
      s.buffers = [] ∧ Refuses (.messageTooLarge 1) p := by
  obtain ⟨k, al, hal, hread⟩ := @reachable_unbuffered (· = .exact) (some 0) rfl
  have htable : Reachable 0 0 _ :=
    ⟨al, hal, hread.tail (@Step.act _ _ (.read (.append _)) k
      (.ok ⟨[0, 0, 0, 0, 1, 0, 0, 0], by decide⟩) rfl)⟩
  have hdeclares : Declares [0, 0, 0, 0, 1, 0, 0, 0] 1 := by decide
  obtain ⟨hbuffers, hrefuses⟩ := (buffering_bounded htable).2.2.2 _ 1 rfl hdeclares (by decide)
  exact ⟨_, _, htable, rfl, rfl, hbuffers, hrefuses⟩

end Buffering

end Ogurpchik
