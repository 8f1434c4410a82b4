import Mathlib.Init

/-!
# Suspended Programs

An asynchronous function is a sequence of computations separated by the operations it
awaits. `Prog Op Ans α` is that function as a tree: a leaf is a returned value, and an inner
node is an awaited operation together with what the function does with each answer the
environment may give. Between two nodes the function runs without interruption, and dropping
the future is forgetting the tree.

Three readings of a tree are provided:

* `Prog.run` answers every operation from a handler with a state: one complete run against a
  deterministic environment. Trees are well founded, so every run returns.
* `Prog.Reaches` follows one history of answers to the node where it leaves the function: the
  reading for environments that interleave the function with others.
* `Prog.Ensures` takes in every run at once: a predicate that every returned value satisfies.

`Prog.wp` refines the last one by a record of the answers given so far, `Prog.Safe` adds to it a
condition on every operation the program awaits, and `Prog.StopsAfter` says of a program that it
gives up at the first answer of a certain kind. `Prog.Against` runs a program against an environment
that has a state of its own. `Prog.interpret` carries out every operation as a
program of other operations. Programs that may fail have `Prog.interpretT` and `Prog.SafeT`.

## Main results

* `Prog.run_bind`: a run of a sequence is the run of its parts.
* `Prog.run_interpret`: carrying out each operation as its handler answers it simulates the run.
* `Prog.child_wf`: no program can be answered forever.
* `Prog.Reaches.snoc`: one more answer extends a history.
* `Prog.reaches_interpret_done_iff`: the histories of an interpreted program carry out those of the
  program.
* `Prog.Ensures.interpret`: what a program returns does not depend on how its operations are
  carried out.
-/

namespace Async

/-- A program that awaits operations `op : Op`, each answered in `Ans op`, and returns an
`α`. -/
inductive Prog (Op : Type) (Ans : Op → Type) (α : Type) : Type
  | done (a : α)
  | await (op : Op) (k : Ans op → Prog Op Ans α)

namespace Prog

variable {Op : Type} {Ans : Op → Type} {α β γ σ : Type}

/-- Sequencing, as `?` and `.await` do it in an `async` function: the operations of the first part
are awaited first, and each value it returns is continued with `f`. -/
def bind : Prog Op Ans α → (α → Prog Op Ans β) → Prog Op Ans β
  | done a, f => f a
  | await op k, f => await op fun ans => (k ans).bind f

instance : Monad (Prog Op Ans) where
  pure := done
  bind := bind

/-- A program that awaits nothing is the leaf `done`; the simp set speaks of the tree, not of the
monad. -/
@[simp] theorem pure_eq (a : α) : (pure a : Prog Op Ans α) = done a := rfl

/-- Sequencing in a `do` block is `Prog.bind`; with `pure_eq` every program is brought to the form
of its tree. -/
@[simp] theorem bind_eq (p : Prog Op Ans α) (f : α → Prog Op Ans β) :
    (p >>= f) = p.bind f := rfl

/-- What follows a finished program is run on its result. -/
@[simp] theorem done_bind (a : α) (f : α → Prog Op Ans β) : (done a).bind f = f a := rfl

/-- What follows a program that waits is put behind each of the answers it may get. -/
@[simp] theorem await_bind (op : Op) (k : Ans op → Prog Op Ans α) (f : α → Prog Op Ans β) :
    (await op k).bind f = await op fun ans => (k ans).bind f := rfl

/-- Sequences can be regrouped: only the order of the operations counts. -/
@[simp] theorem bind_assoc (p : Prog Op Ans α) (f : α → Prog Op Ans β)
    (g : β → Prog Op Ans γ) : (p.bind f).bind g = p.bind fun a => (f a).bind g := by
  induction p with
  | done a => rfl
  | await op k ih => simp [ih]

/-- Nothing is changed by returning the result once more. -/
theorem bind_done (p : Prog Op Ans α) : p.bind done = p := by
  induction p with
  | done a => rfl
  | await op k ih => simp [ih]

instance : LawfulMonad (Prog Op Ans) :=
  LawfulMonad.mk' (Prog Op Ans) bind_done (fun _ _ => rfl) bind_assoc

/-! ### Complete runs -/

/-- Run a program against a handler that answers each operation and updates its own
state. -/
def run (handle : σ → (op : Op) → Ans op × σ) : Prog Op Ans α → σ → α × σ
  | done a, s => (a, s)
  | await op k, s => (k (handle s op).1).run handle (handle s op).2

variable (handle : σ → (op : Op) → Ans op × σ)

/-- A finished program asks nothing of its handler and leaves the state as it is. -/
@[simp] theorem run_done (a : α) (s : σ) : (done a : Prog Op Ans α).run handle s = (a, s) := rfl

/-- A program that waits goes on with the answer of the handler, in the state the handler left. -/
@[simp] theorem run_await (op : Op) (k : Ans op → Prog Op Ans α) (s : σ) :
    (await op k).run handle s = (k (handle s op).1).run handle (handle s op).2 := rfl

/-- **A run of a sequence** runs the first part and continues from the state it left. -/
@[simp] theorem run_bind (p : Prog Op Ans α) (f : α → Prog Op Ans β) (s : σ) :
    (p.bind f).run handle s = (f (p.run handle s).1).run handle (p.run handle s).2 := by
  induction p generalizing s with
  | done a => rfl
  | await op k ih => simp [ih]

/-! ### Programs that may fail -/

/-- `Returns handle x s r s'`: run from `s`, the program `x` ends with `r` and leaves `s'`. -/
def Returns {ε : Type} (x : ExceptT ε (Prog Op Ans) α) (s : σ) (r : Except ε α) (s' : σ) : Prop :=
  run handle x.run s = (r, s')

section Returns

variable {handle} {ε : Type} {s s' s'' : σ}

/-- A handler answers in one way only, so a run has one result and leaves one state. -/
theorem Returns.unique {x : ExceptT ε (Prog Op Ans) α} {r r' : Except ε α}
    (h : Returns handle x s r s') (h' : Returns handle x s r' s'') : r = r' ∧ s' = s'' :=
  Prod.mk.injEq r s' r' s'' ▸ (h.symm.trans h' : (r, s') = (r', s''))

/-- A value that is returned at once costs no operation and leaves the state as it is. -/
theorem returns_pure (a : α) (s : σ) :
    Returns handle (pure a : ExceptT ε (Prog Op Ans) α) s (.ok a) s := rfl

/-- A failure at once leaves the state as it is, too. -/
theorem returns_throw (e : ε) (s : σ) :
    Returns handle (throw e : ExceptT ε (Prog Op Ans) α) s (.error e) s := rfl

/-- Sequencing after a returned value. -/
theorem Returns.bind {x : ExceptT ε (Prog Op Ans) α} {f : α → ExceptT ε (Prog Op Ans) β} {a : α}
    {r : Except ε β} (hx : Returns handle x s (.ok a) s') (hf : Returns handle (f a) s' r s'') :
    Returns handle (x >>= f) s r s'' := by
  rw [Returns] at *
  rw [ExceptT.run_bind, bind_eq, run_bind, hx]
  exact hf

/-- Sequencing after a failure. -/
theorem Returns.bind_error {x : ExceptT ε (Prog Op Ans) α} {e : ε}
    (hx : Returns handle x s (.error e) s') (f : α → ExceptT ε (Prog Op Ans) β) :
    Returns handle (x >>= f) s (.error e) s' := by
  rw [Returns] at *
  rw [ExceptT.run_bind, bind_eq, run_bind, hx]
  rfl

end Returns

/-! ### Interpretation -/

/-- Replace each awaited operation by a program that carries it out. This is how code over packets
becomes code over reads and writes, and how code is run against a model of its surroundings. -/
def interpret {Op' : Type} {Ans' : Op' → Type} (impl : (op : Op) → Prog Op' Ans' (Ans op)) :
    Prog Op Ans α → Prog Op' Ans' α
  | done a => done a
  | await op k => (impl op).bind fun ans => (k ans).interpret impl

/-- Replacing operations by programs goes through sequencing: the rule by which code is translated
statement by statement. -/
theorem interpret_bind {Op' : Type} {Ans' : Op' → Type}
    (impl : (op : Op) → Prog Op' Ans' (Ans op)) (p : Prog Op Ans α) (f : α → Prog Op Ans β) :
    (p.bind f).interpret impl = (p.interpret impl).bind fun a => (f a).interpret impl := by
  induction p with
  | done a => rfl
  | await op k ih => simp [interpret, ih]

/-- **A run of an interpreted program** does what the program does, when each operation is
carried out as the handler of the program answers it, up to a relation of the two states. -/
theorem run_interpret {Op' τ : Type} {Ans' : Op' → Type}
    {impl : (op : Op) → Prog Op' Ans' (Ans op)} {low : τ → (op : Op') → Ans' op × τ}
    {rel : τ → σ → Prop}
    (himpl : ∀ op t s, rel t s → ((impl op).run low t).1 = (handle s op).1 ∧
      rel ((impl op).run low t).2 (handle s op).2)
    (p : Prog Op Ans α) {t : τ} {s : σ} (h : rel t s) :
    ((p.interpret impl).run low t).1 = (p.run handle s).1 ∧
      rel ((p.interpret impl).run low t).2 (p.run handle s).2 := by
  induction p generalizing t s with
  | done a => exact ⟨rfl, h⟩
  | await op k ih =>
      obtain ⟨hans, hrel⟩ := himpl op t s h
      rw [interpret, run_bind, run_await, hans]
      exact ih _ hrel

/-- Operations that are carried out as they are leave the program as it is. -/
theorem interpret_await_done (p : Prog Op Ans α) :
    p.interpret (fun op => await op done) = p := by
  induction p with
  | done a => rfl
  | await op k ih => exact congrArg (await op) (funext ih)

/-- Two replacements, one after the other, are one: layers of a model can be collapsed. -/
theorem interpret_interpret {Op' Op'' : Type} {Ans' : Op' → Type} {Ans'' : Op'' → Type}
    (impl : (op : Op) → Prog Op' Ans' (Ans op)) (impl' : (op : Op') → Prog Op'' Ans'' (Ans' op))
    (p : Prog Op Ans α) :
    (p.interpret impl).interpret impl' = p.interpret fun op => (impl op).interpret impl' := by
  induction p with
  | done a => rfl
  | await op k ih => simp [interpret, interpret_bind, ih]

/-- `interpret` for a program that may fail: failures pass through, and an operation cannot add one
of its own. -/
def interpretT {Op' : Type} {Ans' : Op' → Type} {ε : Type}
    (impl : (op : Op) → Prog Op' Ans' (Ans op)) (x : ExceptT ε (Prog Op Ans) α) :
    ExceptT ε (Prog Op' Ans') α :=
  ExceptT.mk (x.run.interpret impl)

section InterpretT

variable {Op' : Type} {Ans' : Op' → Type} {ε : Type}
  {impl : (op : Op) → Prog Op' Ans' (Ans op)}

/-- Replacing the operations of code that has none changes nothing, here for code that may fail. -/
theorem interpretT_pure (a : α) :
    interpretT impl (pure a : ExceptT ε (Prog Op Ans) α) = pure a := rfl

/-- A failure needs no operation, so it is kept as it is. -/
theorem interpretT_throw (e : ε) :
    interpretT impl (throw e : ExceptT ε (Prog Op Ans) α) = throw e := rfl

/-- Replacing operations goes through `do` blocks of code that may fail. -/
theorem interpretT_bind (x : ExceptT ε (Prog Op Ans) α) (f : α → ExceptT ε (Prog Op Ans) β) :
    interpretT impl (x >>= f) = interpretT impl x >>= fun a => interpretT impl (f a) := by
  refine (interpret_bind impl x.run _).trans ?_
  refine congrArg (Prog.bind (x.run.interpret impl)) (funext fun r => ?_)
  cases r with
  | ok a => rfl
  | error e => rfl

/-- Replacing operations goes into both branches of a choice. -/
theorem interpretT_ite {p : Prop} [Decidable p] (x y : ExceptT ε (Prog Op Ans) α) :
    interpretT impl (if p then x else y) = if p then interpretT impl x else interpretT impl y :=
  apply_ite _ _ _ _

end InterpretT

/-! ### Continuations -/

/-- `q` is what an answer to the operation `p` awaits leaves. The relation is well-founded, so a
program comes to its end however it is answered. -/
inductive Child : Prog Op Ans α → Prog Op Ans α → Prop
  | intro {op : Op} {k : Ans op → Prog Op Ans α} (ans : Ans op) : Child (k ans) (await op k)

/-- No program can be answered forever: by recursion on the tree, whatever the answers are. -/
theorem child_wf : WellFounded (Child : Prog Op Ans α → Prog Op Ans α → Prop) := by
  constructor
  intro p
  induction p with
  | done a =>
      constructor
      rintro q ⟨⟩
  | await op k ih =>
      constructor
      rintro q ⟨ans⟩
      exact ih ans

/-! ### Histories -/

/-- An operation with the answer it was given: one entry of the history of a run, in the order of
the answers. -/
structure Event (Op : Type) (Ans : Op → Type) where
  op : Op
  ans : Ans op

/-- `p.Reaches h q`: answering the operations of `p` as in the history `h` leaves the program
at `q`. -/
inductive Reaches : Prog Op Ans α → List (Event Op Ans) → Prog Op Ans α → Prop
  | nil (p : Prog Op Ans α) : Reaches p [] p
  | cons {op : Op} {k : Ans op → Prog Op Ans α} {ans : Ans op} {h : List (Event Op Ans)}
      {q : Prog Op Ans α} : Reaches (k ans) h q → Reaches (await op k) (⟨op, ans⟩ :: h) q

/-- A returned program reaches only itself, with no further event. -/
theorem reaches_done_iff {a : α} {h : List (Event Op Ans)} {q : Prog Op Ans α} :
    Reaches (done a) h q ↔ h = [] ∧ q = done a := by
  constructor
  · intro hr
    cases hr with
    | nil => exact ⟨rfl, rfl⟩
  · rintro ⟨rfl, rfl⟩
    exact Reaches.nil _

/-- The first event of a suspended program answers the operation it awaits. -/
theorem reaches_await_iff {op : Op} {k : Ans op → Prog Op Ans α} {h : List (Event Op Ans)}
    {q : Prog Op Ans α} :
    Reaches (await op k) h q ↔
      (h = [] ∧ q = await op k) ∨ ∃ ans h', h = ⟨op, ans⟩ :: h' ∧ Reaches (k ans) h' q := by
  constructor
  · intro hr
    cases hr with
    | nil => exact .inl ⟨rfl, rfl⟩
    | cons hk => exact .inr ⟨_, _, rfl, hk⟩
  · rintro (⟨rfl, rfl⟩ | ⟨ans, h', rfl, hk⟩)
    · exact Reaches.nil _
    · exact Reaches.cons hk

/-- A suspended program returns behind an answer to what it awaits. -/
theorem reaches_await_done_iff {op : Op} {k : Ans op → Prog Op Ans α} {h : List (Event Op Ans)}
    {a : α} :
    Reaches (await op k) h (done a) ↔
      ∃ ans h', h = ⟨op, ans⟩ :: h' ∧ Reaches (k ans) h' (done a) := by
  rw [reaches_await_iff, or_iff_right]
  rintro ⟨-, ⟨⟩⟩

/-- Histories compose. -/
theorem Reaches.append {p q r : Prog Op Ans α} {h₁ h₂ : List (Event Op Ans)}
    (hpq : Reaches p h₁ q) (hqr : Reaches q h₂ r) : Reaches p (h₁ ++ h₂) r := by
  induction hpq with
  | nil p => exact hqr
  | cons _ ih => exact Reaches.cons (ih hqr)

/-- **One more answer** extends a history that ends in a suspended program. -/
theorem Reaches.snoc {p : Prog Op Ans α} {op : Op} {k : Ans op → Prog Op Ans α}
    {h : List (Event Op Ans)} (hp : Reaches p h (await op k)) (ans : Ans op) :
    Reaches p (h ++ [⟨op, ans⟩]) (k ans) :=
  hp.append (Reaches.cons (Reaches.nil _))

/-- A complete run is a history. -/
theorem exists_reaches_run (handle : σ → (op : Op) → Ans op × σ) (p : Prog Op Ans α) (s : σ) :
    ∃ h, Reaches p h (done (p.run handle s).1) := by
  induction p generalizing s with
  | done a => exact ⟨[], Reaches.nil _⟩
  | await op k ih =>
      obtain ⟨h, hr⟩ := ih (handle s op).1 (handle s op).2
      exact ⟨_, Reaches.cons hr⟩

/-- **A history of a sequence** that returns is one of its first part and one of what follows. -/
theorem reaches_bind_done_iff {p : Prog Op Ans α} {f : α → Prog Op Ans β}
    {h : List (Event Op Ans)} {b : β} :
    Reaches (p.bind f) h (done b) ↔
      ∃ a h₁ h₂, h = h₁ ++ h₂ ∧ Reaches p h₁ (done a) ∧ Reaches (f a) h₂ (done b) := by
  induction p generalizing h with
  | done a =>
      constructor
      · intro hr
        exact ⟨a, [], h, rfl, Reaches.nil _, hr⟩
      · rintro ⟨a', h₁, h₂, rfl, hp, hf⟩
        obtain ⟨rfl, ⟨⟩⟩ := reaches_done_iff.1 hp
        exact hf
  | await op k ih =>
      constructor
      · intro hr
        obtain ⟨ans, h', rfl, hk⟩ := reaches_await_done_iff.1 hr
        obtain ⟨a, h₁, h₂, rfl, hp, hf⟩ := (ih ans).1 hk
        exact ⟨a, ⟨op, ans⟩ :: h₁, h₂, rfl, Reaches.cons hp, hf⟩
      · rintro ⟨a, h₁, h₂, rfl, hp, hf⟩
        obtain ⟨ans, h', rfl, hk⟩ := reaches_await_done_iff.1 hp
        exact Reaches.cons ((ih ans).2 ⟨a, h', h₂, rfl, hk, hf⟩)

/-- A program that may fail returns a value through the values of its parts. -/
theorem reaches_bind_ok_iff {ε : Type} {x : ExceptT ε (Prog Op Ans) α}
    {f : α → ExceptT ε (Prog Op Ans) β} {h : List (Event Op Ans)} {b : β} :
    Reaches (x >>= f).run h (done (.ok b)) ↔
      ∃ a h₁ h₂, h = h₁ ++ h₂ ∧ Reaches x.run h₁ (done (.ok a)) ∧
        Reaches (f a).run h₂ (done (.ok b)) := by
  refine reaches_bind_done_iff.trans ?_
  constructor
  · rintro ⟨r, h₁, h₂, rfl, hx, hf⟩
    cases r with
    | ok a => exact ⟨a, h₁, h₂, rfl, hx, hf⟩
    | error e => cases (reaches_done_iff.1 hf).2
  · rintro ⟨a, h₁, h₂, rfl, hx, hf⟩
    exact ⟨.ok a, h₁, h₂, rfl, hx, hf⟩

/-- `Carries impl h l`: the history `l` carries out the operations of the history `h`, one behind
the other, each with the answer it has there. -/
inductive Carries {Op' : Type} {Ans' : Op' → Type} (impl : (op : Op) → Prog Op' Ans' (Ans op)) :
    List (Event Op Ans) → List (Event Op' Ans') → Prop
  | nil : Carries impl [] []
  | cons {op : Op} {ans : Ans op} {h : List (Event Op Ans)} {l l' : List (Event Op' Ans')} :
      Reaches (impl op) l (done ans) → Carries impl h l' → Carries impl (⟨op, ans⟩ :: h) (l ++ l')

section Carries

variable {Op' : Type} {Ans' : Op' → Type} {impl : (op : Op) → Prog Op' Ans' (Ans op)}

/-- A history without operations is carried out by doing nothing. -/
theorem carries_nil_iff {l : List (Event Op' Ans')} : Carries impl [] l ↔ l = [] := by
  constructor
  · rintro ⟨⟩
    rfl
  · rintro rfl
    exact .nil

/-- The first operation of a history is carried out by a run of its program, and the rest by what
follows it. -/
theorem carries_cons_iff {op : Op} {ans : Ans op} {h : List (Event Op Ans)}
    {l : List (Event Op' Ans')} :
    Carries impl (⟨op, ans⟩ :: h) l ↔
      ∃ l₁ l₂, l = l₁ ++ l₂ ∧ Reaches (impl op) l₁ (done ans) ∧ Carries impl h l₂ := by
  constructor
  · intro hc
    cases hc with
    | cons hop hrest => exact ⟨_, _, rfl, hop, hrest⟩
  · rintro ⟨l₁, l₂, rfl, hop, hrest⟩
    exact .cons hop hrest

/-- **A history of an interpreted program** carries out a history of the program. -/
theorem reaches_interpret_done_iff {p : Prog Op Ans α} {l : List (Event Op' Ans')} {a : α} :
    Reaches (p.interpret impl) l (done a) ↔
      ∃ h, Reaches p h (done a) ∧ Carries impl h l := by
  induction p generalizing l with
  | done b =>
      constructor
      · intro hr
        obtain ⟨rfl, ⟨⟩⟩ := reaches_done_iff.1 hr
        exact ⟨[], Reaches.nil _, .nil⟩
      · rintro ⟨h, hr, hc⟩
        obtain ⟨rfl, ⟨⟩⟩ := reaches_done_iff.1 hr
        rw [carries_nil_iff.1 hc]
        exact Reaches.nil _
  | await op k ih =>
      refine reaches_bind_done_iff.trans ?_
      constructor
      · rintro ⟨ans, l₁, l₂, rfl, hop, hk⟩
        obtain ⟨h, hr, hc⟩ := (ih ans).1 hk
        exact ⟨⟨op, ans⟩ :: h, Reaches.cons hr, .cons hop hc⟩
      · rintro ⟨h, hr, hc⟩
        obtain ⟨ans, h', rfl, hk⟩ := reaches_await_done_iff.1 hr
        obtain ⟨l₁, l₂, rfl, hop, hrest⟩ := carries_cons_iff.1 hc
        exact ⟨ans, l₁, l₂, rfl, hop, (ih ans).2 ⟨h', hk, hrest⟩⟩

end Carries

/-! ### What every run returns -/

/-- Whatever the answers, `p` returns a value with `post`. This is a total statement: a program has
no infinite branch, so it does return. -/
def Ensures (post : α → Prop) : Prog Op Ans α → Prop
  | done a => post a
  | await _ k => ∀ ans, (k ans).Ensures post

/-- The rule of sequence for what is ensured: the second part may rely on what the first one
ensures. -/
theorem Ensures.bind {pre : α → Prop} {post : β → Prop} {p : Prog Op Ans α}
    {f : α → Prog Op Ans β} (hp : p.Ensures pre) (hf : ∀ a, pre a → (f a).Ensures post) :
    (p.bind f).Ensures post := by
  induction p with
  | done a => exact hf a hp
  | await op k ih => exact fun ans => ih ans (hp ans)

/-- Every program ensures the trivial condition, so a step whose result does not matter can be
passed over. -/
theorem ensures_true (p : Prog Op Ans α) : p.Ensures fun _ => True := by
  induction p with
  | done a => trivial
  | await op k ih => exact ih

/-- An interpreted program returns what the program may return. -/
theorem Ensures.interpret {Op' : Type} {Ans' : Op' → Type} {post : α → Prop} {p : Prog Op Ans α}
    (h : p.Ensures post) (impl : (op : Op) → Prog Op' Ans' (Ans op)) :
    (p.interpret impl).Ensures post := by
  induction p with
  | done a => exact h
  | await op k ih => exact (ensures_true _).bind fun ans _ => ih ans (h ans)

/-- What is ensured holds of the result of every history, whatever was answered in it. -/
theorem Ensures.of_reaches {post : α → Prop} {p : Prog Op Ans α} {h : List (Event Op Ans)} {a : α}
    (hp : p.Ensures post) (hr : Reaches p h (done a)) : post a := by
  generalize hq : done a = q at hr
  induction hr with
  | nil p =>
      subst hq
      exact hp
  | cons _ ih => exact ih (hp _) hq

/-! ### Histories as a state -/

/-- The weakest precondition of `p` for `post`, where `next` records every answer in a state:
whatever the answers, the returned value and the record then satisfy `post`. -/
def wp (next : σ → (op : Op) → Ans op → σ) (post : σ → α → Prop) : Prog Op Ans α → σ → Prop
  | done a, s => post s a
  | await op k, s => ∀ ans, (k ans).wp next post (next s op ans)

/-- The weakest precondition of a sequence is that of its first part for what the second one
needs. -/
theorem wp_bind {next : σ → (op : Op) → Ans op → σ} {post : σ → β → Prop} {p : Prog Op Ans α}
    {f : α → Prog Op Ans β} {s : σ} (h : p.wp next (fun s a => (f a).wp next post s) s) :
    (p.bind f).wp next post s := by
  induction p generalizing s with
  | done a => exact h
  | await op k ih => exact fun ans => ih ans (h ans)

/-- A weaker postcondition has a weaker precondition. -/
theorem wp_mono {next : σ → (op : Op) → Ans op → σ} {post post' : σ → α → Prop}
    {p : Prog Op Ans α} {s : σ} (hpost : ∀ s a, post s a → post' s a) (h : p.wp next post s) :
    p.wp next post' s := by
  induction p generalizing s with
  | done a => exact hpost s a h
  | await op k ih => exact fun ans => ih ans (h ans)

/-- The weakest precondition for `post` where, besides, every operation the program awaits meets
`guard` in the state recorded by then. -/
def Safe (guard : σ → Op → Prop) (next : σ → (op : Op) → Ans op → σ) (post : σ → α → Prop) :
    Prog Op Ans α → σ → Prop
  | done a, s => post s a
  | await op k, s => guard s op ∧ ∀ ans, (k ans).Safe guard next post (next s op ans)

section Safe

variable {guard : σ → Op → Prop} {next : σ → (op : Op) → Ans op → σ} {s : σ}

/-- The rule of sequence for guarded programs: the first part has to leave a state from which the
second is safe. -/
theorem Safe.bind {post : σ → β → Prop} {p : Prog Op Ans α} {f : α → Prog Op Ans β}
    (h : p.Safe guard next (fun s a => (f a).Safe guard next post s) s) :
    (p.bind f).Safe guard next post s := by
  induction p generalizing s with
  | done a => exact h
  | await op k ih => exact ⟨h.1, fun ans => ih ans (h.2 ans)⟩

/-- The postcondition of a safe program may be weakened. -/
theorem Safe.mono {post post' : σ → α → Prop} {p : Prog Op Ans α}
    (hpost : ∀ s a, post s a → post' s a) (h : p.Safe guard next post s) :
    p.Safe guard next post' s := by
  induction p generalizing s with
  | done a => exact hpost s a h
  | await op k ih => exact ⟨h.1, fun ans => ih ans (h.2 ans)⟩

/-- What every operation keeps while it is carried out, the whole program keeps. -/
theorem Safe.interpret {Op' : Type} {Ans' : Op' → Type} {guard : σ → Op' → Prop}
    {next : σ → (op : Op') → Ans' op → σ} {impl : (op : Op) → Prog Op' Ans' (Ans op)}
    {inv : σ → Prop} (himpl : ∀ op s, inv s → (impl op).Safe guard next (fun s _ => inv s) s)
    (p : Prog Op Ans α) {s : σ} (h : inv s) :
    (p.interpret impl).Safe guard next (fun s _ => inv s) s := by
  induction p generalizing s with
  | done a => exact h
  | await op k ih => exact Safe.bind (Safe.mono (fun s ans hs => ih ans hs) (himpl op s h))

/-- `Safe` for a program that may fail: the operations are guarded, a value that is returned
satisfies `post`, and a failure satisfies `fail`, each in the state the answers so far have led
to. -/
def SafeT {ε : Type} (guard : σ → Op → Prop) (next : σ → (op : Op) → Ans op → σ)
    (fail : σ → ε → Prop) (post : σ → α → Prop) (x : ExceptT ε (Prog Op Ans) α) (s : σ) : Prop :=
  x.run.Safe guard next
    (fun s r => match r with
      | .ok a => post s a
      | .error e => fail s e) s

/-- The rule of sequence for guarded code that may fail: a failure of the first part is one of the
whole. -/
theorem SafeT.bind {ε : Type} {fail : σ → ε → Prop} {post : σ → β → Prop}
    {x : ExceptT ε (Prog Op Ans) α} {f : α → ExceptT ε (Prog Op Ans) β}
    (h : SafeT guard next fail (fun s a => SafeT guard next fail post (f a) s) x s) :
    SafeT guard next fail post (x >>= f) s := by
  refine Safe.bind (Safe.mono (fun s r hr => ?_) h)
  cases r with
  | ok a => exact hr
  | error e => exact hr

/-- Every history leaves a safe program, from the record of its answers on. -/
theorem Safe.of_reaches {post : σ → α → Prop} {p q : Prog Op Ans α} {h : List (Event Op Ans)}
    (hp : p.Safe guard next post s) (hr : Reaches p h q) :
    q.Safe guard next post (h.foldl (fun s event => next s event.op event.ans) s) := by
  induction hr generalizing s with
  | nil p => exact hp
  | cons _ ih => exact ih (hp.2 _)

end Safe

/-! ### Environments with a state -/

/-- Whatever an environment answers that follows `answers`, its state keeps `inv` while it answers
the program, and `post` holds of the state and the returned value. -/
def Against (answers : σ → (op : Op) → Ans op → σ → Prop) (inv : σ → Prop) (post : σ → α → Prop) :
    Prog Op Ans α → σ → Prop
  | done a, s => inv s ∧ post s a
  | await op k, s => inv s ∧ ∀ ans s', answers s op ans s' → (k ans).Against answers inv post s'

section Against

variable {answers : σ → (op : Op) → Ans op → σ → Prop} {inv : σ → Prop} {s : σ}

/-- A program that is played against an environment starts where the invariant holds. -/
theorem Against.holds {post : σ → α → Prop} {p : Prog Op Ans α} (h : p.Against answers inv post s) :
    inv s := by
  cases p with
  | done a => exact h.1
  | await op k => exact h.1

/-- The rule of sequence against an environment: the second part starts wherever the first one
may end. -/
theorem Against.bind {post : σ → α → Prop} {post' : σ → β → Prop} {p : Prog Op Ans α}
    {f : α → Prog Op Ans β} (h : p.Against answers inv post s)
    (hf : ∀ s a, inv s → post s a → (f a).Against answers inv post' s) :
    (p.bind f).Against answers inv post' s := by
  induction p generalizing s with
  | done a => exact hf s a h.1 h.2
  | await op k ih => exact ⟨h.1, fun ans s' ha => ih ans (h.2 ans s' ha)⟩

/-- Where every operation is carried out with the effect `answers` gives it, so is the program. -/
theorem Against.interpret {Op' : Type} {Ans' : Op' → Type}
    {impl : (op : Op) → Prog Op' Ans' (Ans op)} {low : σ → (op : Op') → Ans' op → σ → Prop}
    {post : σ → α → Prop} {p : Prog Op Ans α}
    (himpl : ∀ op s, inv s → (impl op).Against low inv (fun s' ans => answers s op ans s') s)
    (h : p.Against answers inv post s) : (p.interpret impl).Against low inv post s := by
  induction p generalizing s with
  | done a => exact h
  | await op k ih => exact (himpl op s h.1).bind fun s' ans _ ha => ih ans (h.2 ans s' ha)

/-- An environment that only records the answers leaves its record behind a history. -/
theorem Against.of_reaches {next : σ → (op : Op) → Ans op → σ} {post : σ → α → Prop}
    {p q : Prog Op Ans α} {h : List (Event Op Ans)}
    (hp : p.Against (fun s op ans s' => s' = next s op ans) inv post s) (hr : Reaches p h q) :
    q.Against (fun s op ans s' => s' = next s op ans) inv post
      (h.foldl (fun s event => next s event.op event.ans) s) := by
  induction hr generalizing s with
  | nil p => exact hp
  | cons _ ih => exact ih (hp.2 _ _ rfl)

end Against

/-! ### Programs that stop -/

/-- An answer in `bad` is the last one `p` takes: the program then returns a value with `post`
at once. -/
def StopsAfter (bad : (op : Op) → Ans op → Prop) (post : α → Prop) : Prog Op Ans α → Prop
  | done _ => True
  | await op k => ∀ ans, (bad op ans → ∃ a, post a ∧ k ans = done a) ∧
      (k ans).StopsAfter bad post

/-- A sequence stops at once behind a bad answer if each part does, and the second one passes on how
the first has ended. -/
theorem StopsAfter.bind {bad : (op : Op) → Ans op → Prop} {post : α → Prop} {post' : β → Prop}
    {p : Prog Op Ans α} {f : α → Prog Op Ans β} (hp : p.StopsAfter bad post)
    (hf : ∀ a, (f a).StopsAfter bad post') (hpost : ∀ a, post a → ∃ b, post' b ∧ f a = done b) :
    (p.bind f).StopsAfter bad post' := by
  induction p with
  | done a => exact hf a
  | await op k ih =>
      intro ans
      refine ⟨fun hbad => ?_, ih ans (hp ans).2⟩
      obtain ⟨a, ha, hk⟩ := (hp ans).1 hbad
      dsimp only
      rw [hk]
      exact hpost a ha

end Prog

end Async
