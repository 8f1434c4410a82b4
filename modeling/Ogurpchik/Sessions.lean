import Mathlib.Logic.Function.Basic
import Mathlib.Logic.Relation
import Ogurpchik.Async

/-!
# Many Sessions in One Environment

Any number of programs run side by side, and an environment answers their operations in any
order. The environment may be restricted in what it answers, by what has happened in all
sessions so far.

## Main results

* `Reachable.reaches`: each session has got to where its own answers lead.
* `Reachable.allowed_of_mem`: a restriction that is never lost holds of every answer, looking back.
-/

namespace Sessions

open Async Relation

variable {ι Op α : Type} {Ans : Op → Type}

/-- A program with the answers it was given: where it stands, and how it has come there. -/
structure Session (Op : Type) (Ans : Op → Type) (α : Type) where
  node : Prog Op Ans α
  trace : List (Prog.Event Op Ans)

/-- The sessions, of which there may be any number, named by an index. They share nothing but what
the environment makes of their traces. -/
abbrev World (ι Op : Type) (Ans : Op → Type) (α : Type) : Type := ι → Session Op Ans α

section

variable [DecidableEq ι] (start : ι → Prog Op Ans α)
  (allowed : World ι Op Ans α → Prog.Event Op Ans → Prop)

/-- Nothing has been answered: every session stands at its beginning with an empty trace. -/
def init : World ι Op Ans α := fun i => ⟨start i, []⟩

/-- The environment answers an operation of one session, with an answer that is allowed in view of
all of them. Which session that is, is up to the environment. -/
inductive Step : World ι Op Ans α → World ι Op Ans α → Prop
  | answer {w : World ι Op Ans α} (i : ι) {op : Op} {k : Ans op → Prog Op Ans α} (ans : Ans op)
      (hnode : (w i).node = .await op k) (hans : allowed w ⟨op, ans⟩) :
      Step w (Function.update w i ⟨k ans, (w i).trace ++ [⟨op, ans⟩]⟩)

/-- The worlds that come about when the sessions begin and the environment answers as it is allowed
to. -/
def Reachable (w : World ι Op Ans α) : Prop := ReflTransGen (Step allowed) (init start) w

variable {start allowed} {w w' : World ι Op Ans α}

/-- Each session has got to where its own answers lead, whatever the others did in between. -/
theorem Reachable.reaches (h : Reachable start allowed w) (i : ι) :
    (start i).Reaches (w i).trace (w i).node := by
  induction h with
  | refl => exact .nil _
  | tail _ hstep ih =>
    cases hstep with
    | answer j ans hnode hans =>
      by_cases hij : i = j
      · subst hij
        rw [hnode] at ih
        rw [Function.update_self]
        exact ih.snoc ans
      · rwa [Function.update_of_ne hij]

/-- An allowed answer leads on. -/
theorem Reachable.answer (h : Reachable start allowed w) {i : ι} {op : Op}
    {k : Ans op → Prog Op Ans α} (hnode : (w i).node = .await op k) (ans : Ans op)
    (hans : allowed w ⟨op, ans⟩) :
    ∃ w', Reachable start allowed w' ∧ w' i = ⟨k ans, (w i).trace ++ [⟨op, ans⟩]⟩ ∧
      ∀ j, j ≠ i → w' j = w j :=
  ⟨_, h.tail (.answer i ans hnode hans), Function.update_self _ _ _,
    fun _ hj => Function.update_of_ne hj _ _⟩

/-- A step adds to what was answered, and takes nothing away. -/
theorem Step.mem_trace (h : Step allowed w w') {i : ι} {e : Prog.Event Op Ans}
    (he : e ∈ (w i).trace) : e ∈ (w' i).trace := by
  cases h with
  | answer j ans hnode hans =>
    by_cases hij : i = j
    · subst hij
      rw [Function.update_self]
      exact List.mem_append_left _ he
    · rwa [Function.update_of_ne hij]

/-- An operation that is awaited stays awaited or is answered, and then its answer is in the
trace. -/
theorem Step.awaits (h : Step allowed w w') {i : ι} {op : Op} {k : Ans op → Prog Op Ans α}
    (hnode : (w i).node = .await op k) :
    (∃ k', (w' i).node = .await op k') ∨ ∃ ans, ⟨op, ans⟩ ∈ (w' i).trace := by
  cases h with
  | @answer j op' k' ans hnode' hans =>
    by_cases hij : i = j
    · subst hij
      cases hnode.symm.trans hnode'
      refine .inr ⟨ans, ?_⟩
      rw [Function.update_self]
      exact List.mem_append_right _ (List.mem_singleton_self _)
    · refine .inl ⟨k, ?_⟩
      rwa [Function.update_of_ne hij]

/-- **Looking back.** A restriction that steps do not take away holds of every answer given. -/
theorem Reachable.allowed_of_mem
    (hmono : ∀ w w' e, Step allowed w w' → allowed w e → allowed w' e)
    (h : Reachable start allowed w) {i : ι} {e : Prog.Event Op Ans} (he : e ∈ (w i).trace) :
    allowed w e := by
  induction h with
  | refl => cases he
  | tail _ hstep ih =>
    refine hmono _ _ e hstep ?_
    cases hstep with
    | answer j ans hnode hans =>
      by_cases hij : i = j
      · subst hij
        rw [Function.update_self, List.mem_append, List.mem_singleton] at he
        rcases he with he | rfl
        · exact ih he
        · exact hans
      · rw [Function.update_of_ne hij] at he
        exact ih he

end

end Sessions
