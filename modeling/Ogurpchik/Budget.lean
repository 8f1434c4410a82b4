import Mathlib.Algebra.Order.Group.Nat
import Ogurpchik.Async

/-!
# Budgets

What the operations of a program cost may depend on their answers. `Spends` says that a program gets
by with a budget whatever it is answered, and what is left of it when the program returns: a value
may be returned with more left than a failure. `Within` leaves the rest aside; it bounds the cost of
every history.

## Main results

* `Spends.bind`: what the first part leaves is the budget of the second.
* `within_iff`: a budget bounds the cost of every history.
* `Within.interpret`: a program is carried out within the sum of what its operations are carried
  out within.
-/

namespace Async

namespace Prog

variable {Op Op' : Type} {Ans : Op → Type} {Ans' : Op' → Type} {α β ε : Type}

/-- What a history costs: the sum over its operations, where the price of an operation may depend on
its answer. -/
def total (cost : (op : Op) → Ans op → ℕ) : List (Event Op Ans) → ℕ
  | [] => 0
  | e :: h => cost e.op e.ans + total cost h

/-- A history in which nothing was done has cost nothing. -/
@[simp] theorem total_nil (cost : (op : Op) → Ans op → ℕ) : total cost [] = 0 := rfl

/-- The cost of a history is that of its first operation and that of the rest. -/
@[simp] theorem total_cons (cost : (op : Op) → Ans op → ℕ) (op : Op) (ans : Ans op)
    (h : List (Event Op Ans)) : total cost (⟨op, ans⟩ :: h) = cost op ans + total cost h := rfl

/-- Where every operation costs one, a history costs its length. -/
theorem total_one (h : List (Event Op Ans)) : total (fun _ _ => 1) h = h.length := by
  induction h with
  | nil => rfl
  | cons e h ih => rw [total, ih, List.length_cons, Nat.add_comm]

/-- What costs no more at each operation costs no more in all. -/
theorem total_le_total {cost cost' : (op : Op) → Ans op → ℕ} {h : List (Event Op Ans)}
    (hle : ∀ e ∈ h, cost' e.op e.ans ≤ cost e.op e.ans) : total cost' h ≤ total cost h := by
  induction h with
  | nil => exact Nat.le_refl 0
  | cons e h ih =>
    exact Nat.add_le_add (hle e List.mem_cons_self)
      (ih fun e' he => hle e' (List.mem_cons_of_mem e he))

/-- Whatever the answers, the operations cost no more than the budget, and of what is left `left`
holds, with the returned value. -/
def Spends (cost : (op : Op) → Ans op → ℕ) (left : α → ℕ → Prop) : Prog Op Ans α → ℕ → Prop
  | done a, n => left a n
  | await op k, n => ∀ ans, cost op ans ≤ n ∧ (k ans).Spends cost left (n - cost op ans)

/-- Whatever the answers, the operations cost no more than the budget, at any point of the run. -/
def Within (cost : (op : Op) → Ans op → ℕ) (n : ℕ) (p : Prog Op Ans α) : Prop :=
  p.Spends cost (fun _ _ => True) n

section

variable {cost : (op : Op) → Ans op → ℕ} {n : ℕ} {p q : Prog Op Ans α}

/-- What is known of the budget that is left may be weakened. -/
theorem Spends.mono {left left' : α → ℕ → Prop} (hleft : ∀ a m, left a m → left' a m)
    (h : p.Spends cost left n) : p.Spends cost left' n := by
  induction p generalizing n with
  | done a => exact hleft a n h
  | await op k ih => exact fun ans => ⟨(h ans).1, ih ans (h ans).2⟩

/-- What the first part leaves is the budget of the second. -/
theorem Spends.bind {left : β → ℕ → Prop} {f : α → Prog Op Ans β}
    (h : p.Spends cost (fun a m => (f a).Spends cost left m) n) :
    (p.bind f).Spends cost left n := by
  induction p generalizing n with
  | done a => exact h
  | await op k ih => exact fun ans => ⟨(h ans).1, ih ans (h ans).2⟩

/-- A larger budget does as well. -/
theorem Spends.le {left : α → ℕ → Prop} (hleft : ∀ a m m', m ≤ m' → left a m → left a m')
    (h : p.Spends cost left n) {n' : ℕ} (hle : n ≤ n') : p.Spends cost left n' := by
  induction p generalizing n n' with
  | done a => exact hleft a n n' hle h
  | await op k ih =>
    exact fun ans => ⟨(h ans).1.trans hle, ih ans (h ans).2 (Nat.sub_le_sub_right hle _)⟩

/-- A larger budget is enough if a smaller one is. -/
theorem Within.mono {m : ℕ} (h : p.Within cost n) (hle : n ≤ m) : p.Within cost m :=
  Spends.le (fun _ _ _ _ h => h) h hle

/-- More than is needed is left over: a budget can be stretched by any amount, which the program
does not touch. -/
theorem Within.add (h : p.Within cost n) (m : ℕ) :
    p.Spends cost (fun _ rest => m ≤ rest) (n + m) := by
  induction p generalizing n with
  | done a => exact Nat.le_add_left m n
  | await op k ih =>
    intro ans
    obtain ⟨hcost, hrest⟩ := h ans
    refine ⟨by omega, ?_⟩
    rw [Nat.sub_add_comm hcost]
    exact ih ans hrest

/-- The rule of sequence: two parts cost no more than their budgets together, whatever the first one
returns. -/
theorem Within.bind {m : ℕ} {f : α → Prog Op Ans β} (h : p.Within cost n)
    (hf : ∀ a, (f a).Within cost m) : (p.bind f).Within cost (n + m) :=
  Spends.bind ((h.add m).mono fun a _ hle => (hf a).mono hle)

/-- What follows costs nothing. -/
theorem Within.bind_free {f : α → Prog Op Ans β} (h : p.Within cost n)
    (hf : ∀ a, (f a).Within cost 0) : (p.bind f).Within cost n :=
  h.bind hf

/-- **A budget bounds the cost** of every history, and there is a budget wherever there is a
bound. -/
theorem within_iff : p.Within cost n ↔ ∀ h q, p.Reaches h q → total cost h ≤ n := by
  constructor
  · intro hp h q hreaches
    induction hreaches generalizing n with
    | nil p => exact Nat.zero_le n
    | cons _ ih =>
      obtain ⟨hcost, hrest⟩ := hp _
      have hle := ih hrest
      rw [total_cons]
      omega
  · intro hp
    induction p generalizing n with
    | done a => trivial
    | await op k ih =>
      intro ans
      have hfirst := hp [⟨op, ans⟩] (k ans) (.cons (.nil _))
      rw [total_cons, total_nil, Nat.add_zero] at hfirst
      refine ⟨hfirst, ih ans fun h q hreaches => ?_⟩
      have hall := hp (⟨op, ans⟩ :: h) q (.cons hreaches)
      rw [total_cons] at hall
      omega

/-- A program is carried out within the sum of what its operations are carried out within. -/
theorem Within.interpret [∀ op, Nonempty (Ans op)] {c : Op → ℕ} {cost' : (op : Op') → Ans' op → ℕ}
    {impl : (op : Op) → Prog Op' Ans' (Ans op)} (himpl : ∀ op, (impl op).Within cost' (c op))
    (h : p.Within (fun op _ => c op) n) : (p.interpret impl).Within cost' n := by
  induction p generalizing n with
  | done a => trivial
  | await op k ih =>
    have hop : c op ≤ n := (h (Classical.arbitrary _)).1
    have hrest := (himpl op).bind fun ans => ih ans (h ans).2
    rwa [Nat.add_sub_cancel' hop] at hrest

/-- An operation that was answered was awaited, by what an earlier part of the history had left. -/
theorem Reaches.awaited {h : List (Event Op Ans)} (hreaches : p.Reaches h q)
    {e : Event Op Ans} (he : e ∈ h) : ∃ h' k, p.Reaches h' (await e.op k) := by
  induction hreaches with
  | nil p => cases he
  | @cons op k ans h q hrest ih =>
    rcases List.mem_cons.1 he with rfl | he
    · exact ⟨[], k, .nil _⟩
    · obtain ⟨h', k', hreaches'⟩ := ih he
      exact ⟨_, k', .cons hreaches'⟩

/-- The operations that are awaited cost no more than was reckoned. -/
theorem Within.of_awaited {cost' : (op : Op) → Ans op → ℕ} (hp : p.Within cost n)
    (hle : ∀ h op k, p.Reaches h (await op k) → ∀ ans, cost' op ans ≤ cost op ans) :
    p.Within cost' n := by
  refine within_iff.2 fun h q hreaches => ?_
  refine Nat.le_trans (total_le_total fun e he => ?_) (within_iff.1 hp h q hreaches)
  obtain ⟨h', k, hawaited⟩ := hreaches.awaited he
  exact hle h' e.op k hawaited e.ans

end

/-! ### Programs that may fail -/

/-- With `m` at hand the program gets by, and if it returns a value, `n` is left. -/
def Leaves (cost : (op : Op) → Ans op → ℕ) (m n : ℕ) (x : ExceptT ε (Prog Op Ans) α) : Prop :=
  x.run.Spends cost (fun r rest => ∀ a, r = .ok a → n ≤ rest) m

section Leaves

variable {cost : (op : Op) → Ans op → ℕ} {m n : ℕ}

/-- Returning a value costs nothing, so what was there is left. -/
theorem leaves_pure (a : α) (h : n ≤ m) :
    Leaves cost m n (pure a : ExceptT ε (Prog Op Ans) α) :=
  fun _ _ => h

/-- A failure ends the program, so nothing has to be left behind it. -/
theorem leaves_throw (e : ε) : Leaves cost m n (throw e : ExceptT ε (Prog Op Ans) α) :=
  fun _ h => by cases h

/-- The rule of sequence for code that may fail: the second part starts from what the first one
leaves. -/
theorem Leaves.bind {k : ℕ} {x : ExceptT ε (Prog Op Ans) α} {f : α → ExceptT ε (Prog Op Ans) β}
    (hx : Leaves cost m n x) (hf : ∀ a, Leaves cost n k (f a)) : Leaves cost m k (x >>= f) := by
  refine Spends.bind (Spends.mono (fun r rest hr => ?_) hx)
  cases r with
  | ok a => exact Spends.le (fun r m m' hle h a ha => (h a ha).trans hle) (hf a) (hr a rfl)
  | error e =>
    intro b hb
    cases hb

/-- Code that leaves something of a budget stays within it. -/
theorem Leaves.within {x : ExceptT ε (Prog Op Ans) α} (h : Leaves cost m n x) :
    x.run.Within cost m :=
  Spends.mono (fun _ _ _ => trivial) h

end Leaves

end Prog

end Async
