import Mathlib.Logic.Function.Basic
import Mathlib.Logic.Relation
import Mathlib.Order.WellFounded

/-!
# Transition Systems

For a transition relation on states, `Inevitable step goal s` says that every maximal sequence
of steps from `s` passes through the goal: no choice of steps avoids it, gets stuck before it or
goes on forever without it. It is proved from an invariant under which a step is always possible
before the goal and a measure that every step lowers.

A system of many parties keeps them in a table; a step of one replaces its entry.

A step that may fail is compared along an abstraction with one that cannot: `Refines` says that it
succeeds, with a result that abstracts to the one of the other.

A party that shares its states with others cannot keep them from moving. `RespondsWithin` bounds
the steps that are its own: whatever the others do in between, it has only so many to make, and
until the goal is reached it can make one.

## Main results

* `Inevitable.of_wellFounded`: the measure rule.
* `Refines.foldlM`: refinement of loops.
* `RespondsWithin.of_measure`: the measure rule for one party among others.
* `RespondsWithin.comap`: a response of a component is one of the system it is part of.
-/

namespace Transition

variable {σ ρ : Type}

/-- Every maximal sequence of steps reaches the goal: a state that has not reached it can move, and
every move leads on. No fairness is assumed, so a state with a useless loop does not count. -/
inductive Inevitable (step : σ → σ → Prop) (goal : σ → Prop) : σ → Prop
  | now {s : σ} : goal s → Inevitable step goal s
  | later {s : σ} : (∃ t, step s t) → (∀ t, step s t → Inevitable step goal t) →
      Inevitable step goal s

variable {step : σ → σ → Prop} {goal : σ → Prop}

/-- **The measure rule.** An invariant under which the goal holds or a step is possible, and
which every step keeps while it lowers a well-founded measure, makes the goal inevitable. -/
theorem Inevitable.of_wellFounded {r : ρ → ρ → Prop} (hwf : WellFounded r) (μ : σ → ρ)
    (inv : σ → Prop) (hprogress : ∀ s, inv s → goal s ∨ ∃ t, step s t)
    (hstep : ∀ s t, inv s → step s t → inv t ∧ r (μ t) (μ s)) {s : σ} (hs : inv s) :
    Inevitable step goal s := by
  induction hm : μ s using hwf.induction generalizing s with
  | _ m ih =>
    subst hm
    rcases hprogress s hs with hgoal | hnext
    · exact .now hgoal
    · refine .later hnext fun t ht => ?_
      obtain ⟨hinv, hlt⟩ := hstep s t hs ht
      exact ih (μ t) hlt hinv rfl

/-- An entry of a table of parties of which one was replaced: it is the new one, or an old one of
another party. -/
theorem update_eq_some {ι α : Type} [DecidableEq ι] {table : ι → Option α} {i j : ι} {a b : α}
    (h : Function.update table i (some a) j = some b) :
    (j = i ∧ b = a) ∨ (j ≠ i ∧ table j = some b) := by
  by_cases hj : j = i
  · subst hj
    rw [Function.update_self] at h
    exact .inl ⟨rfl, (Option.some.inj h).symm⟩
  · rw [Function.update_of_ne hj] at h
    exact .inr ⟨hj, h⟩

/-! ### Steps that may fail -/

/-- The step `x` succeeds, and its result satisfies `post` and abstracts to `a`. -/
def Refines {τ : Type} (abs : σ → τ) (post : σ → Prop) (x : Option σ) (a : τ) : Prop :=
  ∃ s, x = some s ∧ abs s = a ∧ post s

section Refines

variable {τ α : Type} {abs : σ → τ} {post : σ → Prop}

/-- A step that succeeds refines the one its result abstracts to. -/
theorem refines_some {s : σ} {a : τ} (ha : abs s = a) (h : post s) :
    Refines abs post (some s) a :=
  ⟨s, rfl, ha, h⟩

/-- A step for every element of a list: if each step refines, so does the fold. -/
theorem Refines.foldlM {f : σ → α → Option σ} {g : τ → α → τ}
    (hf : ∀ s a, post s → Refines abs post (f s a) (g (abs s) a)) (as : List α) {s : σ}
    (h : post s) : Refines abs post (as.foldlM f s) (as.foldl g (abs s)) := by
  induction as generalizing s with
  | nil => exact refines_some rfl h
  | cons a as ih =>
    obtain ⟨t, ht, habs, hpost⟩ := hf s a h
    rw [List.foldlM_cons, ht, List.foldl_cons, ← habs]
    exact ih hpost

end Refines

/-! ### Bounded response -/

/-- `Interleaved own other s n t`: some run leads from `s` to `t` with `n` steps of `own` and any
number of steps of `other`. -/
inductive Interleaved (own other : σ → σ → Prop) (s : σ) : ℕ → σ → Prop
  | refl : Interleaved own other s 0 s
  | own {n : ℕ} {t u : σ} :
      Interleaved own other s n t → own t u → Interleaved own other s (n + 1) u
  | other {n : ℕ} {t u : σ} :
      Interleaved own other s n t → other t u → Interleaved own other s n u

/-- At most `n` steps of `own` are left, and before the goal one of them is possible, whatever
`other` does in between. -/
def RespondsWithin (own other : σ → σ → Prop) (goal : σ → Prop) (n : ℕ) (s : σ) : Prop :=
  ∀ k t, Interleaved own other s k t → k ≤ n ∧ (goal t ∨ ∃ u, own t u)

section RespondsWithin

variable {own other : σ → σ → Prop}

/-- Steps of `other` in a row. -/
theorem Interleaved.others {n : ℕ} {s t u : σ} (h : Interleaved own other s n t)
    (hrun : Relation.ReflTransGen other t u) : Interleaved own other s n u := by
  induction hrun with
  | refl => exact h
  | tail _ hstep ih => exact .other ih hstep

/-- **The measure rule for one party.** Its own steps lower the measure and the others' do not
raise it. -/
theorem RespondsWithin.of_measure (μ : σ → ℕ) (inv : σ → Prop)
    (hprogress : ∀ s, inv s → goal s ∨ ∃ t, own s t)
    (hown : ∀ s t, inv s → own s t → inv t ∧ μ t < μ s)
    (hother : ∀ s t, inv s → other s t → inv t ∧ μ t ≤ μ s) {s : σ} (hs : inv s) :
    RespondsWithin own other goal (μ s) s := by
  intro k t hrun
  have hbound : inv t ∧ k + μ t ≤ μ s := by
    induction hrun with
    | refl => exact ⟨hs, (Nat.zero_add _).le⟩
    | own _ hstep ih =>
      obtain ⟨hinv, hlt⟩ := hown _ _ ih.1 hstep
      exact ⟨hinv, by omega⟩
    | other _ hstep ih =>
      obtain ⟨hinv, hle⟩ := hother _ _ ih.1 hstep
      exact ⟨hinv, by omega⟩
  exact ⟨(Nat.le_add_right _ _).trans hbound.2, hprogress t hbound.1⟩

/-- **A response of a component.** A system whose steps, under an invariant, do to a component what
can be done to it, responds as the component does. -/
theorem RespondsWithin.comap {own' other' : ρ → ρ → Prop} {goal' : ρ → Prop} (f : σ → ρ)
    (inv : σ → Prop) (hown : ∀ s t, inv s → own s t → inv t ∧ own' (f s) (f t))
    (hother : ∀ s t, inv s → other s t → inv t ∧ Relation.ReflTransGen other' (f s) (f t))
    (hlift : ∀ s r, inv s → own' (f s) r → ∃ t, own s t) {n : ℕ} {s : σ} (hs : inv s)
    (h : RespondsWithin own' other' goal' n (f s)) :
    RespondsWithin own other (fun s => goal' (f s)) n s := by
  intro k t hrun
  have hrun' : inv t ∧ Interleaved own' other' (f s) k (f t) := by
    induction hrun with
    | refl => exact ⟨hs, .refl⟩
    | own _ hstep ih =>
      obtain ⟨hinv, hstep'⟩ := hown _ _ ih.1 hstep
      exact ⟨hinv, .own ih.2 hstep'⟩
    | other _ hstep ih =>
      obtain ⟨hinv, hsteps⟩ := hother _ _ ih.1 hstep
      exact ⟨hinv, ih.2.others hsteps⟩
  obtain ⟨hle, hgoal | ⟨r, hr⟩⟩ := h k (f t) hrun'.2
  · exact ⟨hle, .inl hgoal⟩
  · exact ⟨hle, .inr (hlift t r hrun'.1 hr)⟩

end RespondsWithin

end Transition
