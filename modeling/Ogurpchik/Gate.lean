import Mathlib.Data.List.Count
import Mathlib.Data.List.Nodup
import Mathlib.Logic.Function.Basic
import Mathlib.Logic.Relation

/-!
# The Connection Gate

A `ConnectionGate` says whether one more connection may be taken on. Clones of a gate share one
flag, and so do the leases that any of them has given out; a lease clears the flag when it is
dropped, if it is the one that has set it. Gates are made, cloned and dropped, leases acquired and
dropped, in any order, and a gate need not outlive its leases.

What a gate of mode `OneToOne` is for is mutual exclusion. `Lock` says so without flags: an
acquisition is granted when nothing is held and refused when something is, and only what is held
can be released. The gates that share one flag form a family. The log of a family is compared with
`Lock`.

## Main definitions

* `ConnectionGate.tryAcquire`, `ConnectionLease.drop`: the gate and its leases.
* `State`, `Step`, `Reachable`: gates and leases of a program, with a log for each family.
* `Lock.run`: the logs of a mutual exclusion.
* `Follows`: what the log, the flag and the leases of one family have to do with each other.

## Main results

* `Inv.step`: one step keeps the invariant.
* `gate_admits`: **every family behaves as its mode says**, along every run.
-/

namespace Ogurpchik

namespace Gate

/-- `ConnectionMode`: whether a server takes on one connection at a time or any number. -/
inductive ConnectionMode
  | oneToOne
  | oneToMany
  deriving DecidableEq

/-- The shared flags, by number: what `Rc<Cell<bool>>` points to in the source. -/
abbrev Cells := ℕ → Bool

/-- `ConnectionGate`: a gate and the flag it shares with its clones and with the leases taken from
them. -/
structure ConnectionGate where
  mode : ConnectionMode
  active : ℕ

/-- `ConnectionLease`: the permission to hold a connection. One that is not tracked leaves the flag
alone when it is dropped. -/
structure ConnectionLease where
  active : ℕ
  tracked : Bool

/-- `try_acquire`, with the flags as it leaves them: a gate for one connection refuses while its
flag is set. -/
def ConnectionGate.tryAcquire (gate : ConnectionGate) (cells : Cells) :
    Option ConnectionLease × Cells :=
  match gate.mode with
  | .oneToMany => (some ⟨gate.active, false⟩, cells)
  | .oneToOne =>
      if !cells gate.active then
        (some ⟨gate.active, true⟩, Function.update cells gate.active true)
      else (none, cells)

/-- The flags after a lease was dropped: a tracked one clears the flag it was taken with. -/
def ConnectionLease.drop (lease : ConnectionLease) (cells : Cells) : Cells :=
  if lease.tracked then Function.update cells lease.active false else cells

/-! ### Runs -/

/-- What happens to a family, which is a gate with its clones: a lease is taken, refused or given
back. -/
inductive Event
  | acquired
  | refused
  | released
  deriving DecidableEq

/-- The gates and leases of a program. A family is the number of its flag; `modes` lists the modes
of the families, and `log` what happened to each. -/
structure State where
  modes : List ConnectionMode
  cells : Cells
  gates : List ConnectionGate
  leases : List ConnectionLease
  log : ℕ → List Event

namespace State

/-- No gate was made yet, so there are no families. -/
def init : State := ⟨[], fun _ => false, [], [], fun _ => []⟩

/-- `ConnectionGate::new`: a gate with a flag of its own, the first of its family. -/
def new (s : State) (mode : ConnectionMode) : State :=
  { s with
    modes := s.modes ++ [mode]
    cells := Function.update s.cells s.modes.length false
    gates := s.gates ++ [⟨mode, s.modes.length⟩] }

/-- An event of a family is entered in its log. The source keeps none: the theorem is about it. -/
def record (s : State) (cell : ℕ) (e : Event) : State :=
  { s with log := Function.update s.log cell (s.log cell ++ [e]) }

/-- `try_acquire` of a gate, with the lease it returns among those that are held. -/
def tryAcquire (s : State) (gate : ConnectionGate) : State :=
  match gate.tryAcquire s.cells with
  | (some lease, cells) =>
      { s.record gate.active .acquired with cells := cells, leases := s.leases ++ [lease] }
  | (none, cells) => { s.record gate.active .refused with cells := cells }

/-- A lease is dropped, and these are left; any of them may be the next one. -/
def dropLease (s : State) (lease : ConnectionLease) (leases : List ConnectionLease) : State :=
  { s.record lease.active .released with cells := lease.drop s.cells, leases := leases }

/-- The number of leases of a family, tracked or not. -/
def held (s : State) (cell : ℕ) : ℕ := s.leases.countP (·.active = cell)

end State

/-- What a program can do with its gates and leases: make, clone and drop gates, take leases and
drop them, in any order. -/
inductive Step : State → State → Prop
  | new {s : State} (mode : ConnectionMode) : Step s (s.new mode)
  | clone {s : State} {gate : ConnectionGate} (h : gate ∈ s.gates) :
      Step s { s with gates := s.gates ++ [gate] }
  | dropGate {s : State} {l r : List ConnectionGate} {gate : ConnectionGate}
      (h : s.gates = l ++ gate :: r) : Step s { s with gates := l ++ r }
  | tryAcquire {s : State} {gate : ConnectionGate} (h : gate ∈ s.gates) :
      Step s (s.tryAcquire gate)
  | dropLease {s : State} {l r : List ConnectionLease} {lease : ConnectionLease}
      (h : s.leases = l ++ lease :: r) : Step s (s.dropLease lease (l ++ r))

/-- The states of a run, from a program without gates on. -/
def Reachable (s : State) : Prop := Relation.ReflTransGen Step .init s

/-! ### Mutual exclusion -/

/-- What may happen while the lock is free or held, and how it is left: a lock is taken when it is
free, refused when it is held, and given back by the one who holds it. -/
def Lock.next : Bool → Event → Option Bool
  | false, .acquired => some true
  | true, .refused => some true
  | true, .released => some false
  | _, _ => none

/-- The lock after a log, if a lock can have that log: this is what a gate for one connection is to
be. -/
def Lock.run (log : List Event) : Option Bool := log.foldlM Lock.next false

/-- The lock after one more event. -/
theorem Lock.run_snoc {log : List Event} {b b' : Bool} {e : Event} (h : Lock.run log = some b)
    (hnext : Lock.next b e = some b') : Lock.run (log ++ [e]) = some b' := by
  rw [Lock.run] at h ⊢
  rw [List.foldlM_append, h]
  simpa using hnext

/-- The log, the flag and the number of leases of a family. One-to-one, the log is that of a lock
and the flag says whether the one lease exists; one-to-many, nothing is refused, the flag is not
used, and the leases are those acquired and not released. -/
def Follows (log : List Event) (cell : Bool) (held : ℕ) : ConnectionMode → Prop
  | .oneToOne => Lock.run log = some cell ∧ held = cell.toNat
  | .oneToMany =>
      Event.refused ∉ log ∧ cell = false ∧
        log.count .acquired = log.count .released + held

/-- What always holds: gates and leases are of the mode of their family, and its log is one that a
lock, or an open door, can have. -/
structure Inv (s : State) : Prop where
  gates_mode : ∀ gate ∈ s.gates, s.modes[gate.active]? = some gate.mode
  leases_mode : ∀ lease ∈ s.leases, s.modes[lease.active]? =
    some (if lease.tracked then .oneToOne else .oneToMany)
  fresh : ∀ cell, s.modes.length ≤ cell → s.log cell = []
  follows : ∀ cell mode, s.modes[cell]? = some mode →
    Follows (s.log cell) (s.cells cell) (s.held cell) mode

section

variable {s s' : State} {gate : ConnectionGate} {lease : ConnectionLease}

/-- Before the first gate is made there are no flags, no leases and no logs to account for. -/
theorem inv_init : Inv .init := by
  refine ⟨?_, ?_, fun _ _ => rfl, ?_⟩
  · intro gate hgate
    cases hgate
  · intro lease hlease
    cases hlease
  · intro cell mode hmode
    cases hmode

/-- A family that was not made has no lease. -/
theorem Inv.held_fresh (h : Inv s) {cell : ℕ} (hcell : s.modes.length ≤ cell) :
    s.held cell = 0 := by
  refine List.countP_eq_zero.2 fun lease hlease hactive => ?_
  have hmode := h.leases_mode lease hlease
  rw [of_decide_eq_true hactive, List.getElem?_eq_none hcell] at hmode
  cases hmode

/-- A new family has no events and no leases, and the others are left alone. -/
theorem Inv.new (h : Inv s) (mode : ConnectionMode) : Inv (s.new mode) := by
  have hold {cell : ℕ} {m : ConnectionMode} (hm : s.modes[cell]? = some m) :
      (s.modes ++ [mode])[cell]? = some m := by
    rw [List.getElem?_append_left (List.getElem?_eq_some_iff.1 hm).1, hm]
  refine ⟨?_, fun lease hlease => hold (h.leases_mode lease hlease), ?_, ?_⟩
  · intro gate hgate
    rcases List.mem_append.1 hgate with hgate | hgate
    · exact hold (h.gates_mode gate hgate)
    · obtain rfl := List.mem_singleton.1 hgate
      exact List.getElem?_concat_length
  · intro cell hcell
    refine h.fresh cell (Nat.le_of_succ_le ?_)
    simpa [State.new] using hcell
  · intro cell m hm
    change Follows (s.log cell) (Function.update s.cells s.modes.length false cell) (s.held cell) m
    by_cases hcell : cell = s.modes.length
    · subst hcell
      rw [Function.update_self, h.fresh _ (Nat.le_refl _), h.held_fresh (Nat.le_refl _)]
      cases m with
      | oneToOne => exact ⟨rfl, rfl⟩
      | oneToMany => exact ⟨List.not_mem_nil, rfl, rfl⟩
    · rw [Function.update_of_ne hcell]
      refine h.follows cell m ?_
      have hlt : cell < s.modes.length := by
        have := (List.getElem?_eq_some_iff.1 hm).1
        simp only [State.new, List.length_append, List.length_singleton] at this
        omega
      rwa [State.new, List.getElem?_append_left hlt] at hm

/-- An event of one family leaves the others alone, so it keeps the invariant if it does so for
its own family. -/
theorem Inv.event (h : Inv s) {cell : ℕ} {mode : ConnectionMode}
    (hmode : s.modes[cell]? = some mode) {e : Event} {cells : Cells}
    {leases : List ConnectionLease} (hcells : ∀ c, c ≠ cell → cells c = s.cells c)
    (hheld : ∀ c, c ≠ cell → leases.countP (·.active = c) = s.held c)
    (hleases : ∀ lease ∈ leases, s.modes[lease.active]? =
      some (if lease.tracked then .oneToOne else .oneToMany))
    (hfollows : Follows (s.log cell ++ [e]) (cells cell) (leases.countP (·.active = cell)) mode) :
    Inv { s.record cell e with cells := cells, leases := leases } := by
  refine ⟨h.gates_mode, hleases, fun c (hc : s.modes.length ≤ c) => ?_, fun c m hm => ?_⟩
  · have hne : c ≠ cell := by
      rintro rfl
      rw [List.getElem?_eq_none hc] at hmode
      cases hmode
    exact (Function.update_of_ne hne _ _).trans (h.fresh c hc)
  · change Follows (Function.update s.log cell (s.log cell ++ [e]) c) (cells c)
      (leases.countP (·.active = c)) m
    by_cases hne : c = cell
    · subst hne
      rw [Function.update_self]
      obtain rfl : m = mode := Option.some.inj (hm.symm.trans hmode)
      exact hfollows
    · rw [Function.update_of_ne hne, hcells c hne, hheld c hne]
      exact h.follows c m hm

/-- A gate grants a lease or refuses one, as its family's leases demand. -/
theorem Inv.tryAcquire (h : Inv s) (hgate : gate ∈ s.gates) : Inv (s.tryAcquire gate) := by
  have hmode := h.gates_mode gate hgate
  have hfollows := h.follows _ _ hmode
  obtain ⟨mode, cell⟩ := gate
  -- One more lease of this family is none of another.
  have hheld (tracked : Bool) (c : ℕ) :
      (s.leases ++ [(⟨cell, tracked⟩ : ConnectionLease)]).countP (·.active = c) =
        s.held c + if cell = c then 1 else 0 := by
    simp [State.held, List.countP_append, List.countP_singleton]
  have hleases (tracked : Bool) (hm : mode = if tracked then .oneToOne else .oneToMany) :
      ∀ lease ∈ s.leases ++ [⟨cell, tracked⟩], s.modes[lease.active]? =
        some (if lease.tracked then .oneToOne else .oneToMany) := by
    intro lease hlease
    rcases List.mem_append.1 hlease with hlease | hlease
    · exact h.leases_mode lease hlease
    · obtain rfl := List.mem_singleton.1 hlease
      rw [← hm]
      exact hmode
  cases mode with
  | oneToMany =>
    obtain ⟨hrefused, hcell, hcount⟩ := hfollows
    refine h.event hmode (fun _ _ => rfl) (fun c hc => ?_) (hleases false rfl) ⟨?_, hcell, ?_⟩
    · rw [hheld, if_neg (Ne.symm hc), Nat.add_zero]
    · simpa using hrefused
    · rw [hheld, if_pos rfl, List.count_append, List.count_append, hcount]
      simp
      omega
  | oneToOne =>
    obtain ⟨hrun, hone⟩ := hfollows
    simp only [State.tryAcquire, ConnectionGate.tryAcquire]
    cases hcell : s.cells cell with
    | false =>
      rw [hcell] at hrun hone
      refine h.event hmode (fun c hc => Function.update_of_ne hc _ _) (fun c hc => ?_)
        (hleases true rfl) ?_
      · rw [hheld, if_neg (Ne.symm hc), Nat.add_zero]
      · rw [Function.update_self, hheld, if_pos rfl]
        exact ⟨Lock.run_snoc hrun rfl, congrArg (· + 1) hone⟩
    | true =>
      rw [hcell] at hrun hone
      refine h.event hmode (fun _ _ => rfl) (fun _ _ => rfl) h.leases_mode ?_
      change Follows _ (s.cells cell) (s.held cell) .oneToOne
      rw [hcell]
      exact ⟨Lock.run_snoc hrun rfl, hone⟩

/-- A dropped lease is released, and clears the flag if it has set it. -/
theorem Inv.dropLease (h : Inv s) {l r : List ConnectionLease}
    (hl : s.leases = l ++ lease :: r) : Inv (s.dropLease lease (l ++ r)) := by
  have hmem : lease ∈ s.leases := hl ▸ List.mem_append_right _ List.mem_cons_self
  have hmode := h.leases_mode lease hmem
  have hfollows := h.follows _ _ hmode
  have hheld (c : ℕ) :
      s.held c = (l ++ r).countP (·.active = c) + if lease.active = c then 1 else 0 := by
    rw [State.held, hl, List.countP_append, List.countP_append, List.countP_cons]
    simp only [decide_eq_true_eq]
    omega
  have hother (c : ℕ) (hc : c ≠ lease.active) : (l ++ r).countP (·.active = c) = s.held c := by
    rw [hheld, if_neg (Ne.symm hc), Nat.add_zero]
  have hleases : ∀ x ∈ l ++ r, s.modes[x.active]? =
      some (if x.tracked then .oneToOne else .oneToMany) := fun x hx =>
    h.leases_mode x (hl ▸ ((List.Sublist.refl l).append (List.sublist_cons_self _ r)).subset hx)
  have hself := hheld lease.active
  rw [if_pos rfl] at hself
  rw [hself] at hfollows
  obtain ⟨cell, tracked⟩ := lease
  cases tracked with
  | false =>
    obtain ⟨hrefused, hcell, hcount⟩ := hfollows
    refine h.event hmode (fun _ _ => rfl) hother hleases ⟨?_, hcell, ?_⟩
    · simpa using hrefused
    · rw [List.count_append, List.count_append, hcount]
      simp
      omega
  | true =>
    obtain ⟨hrun, hone⟩ := hfollows
    refine h.event hmode (fun c hc => Function.update_of_ne hc _ _) hother hleases ?_
    change Follows _ (Function.update s.cells cell false cell) _ .oneToOne
    rw [Function.update_self]
    -- The lease is there, so the flag is set and there is no other.
    cases hcell : s.cells cell with
    | false =>
      rw [hcell] at hone
      simp at hone
    | true =>
      rw [hcell] at hrun hone
      exact ⟨Lock.run_snoc hrun rfl, Nat.succ.inj hone⟩

/-- **One step** keeps the invariant: gates are made, cloned and dropped, and leases acquired and
dropped. -/
theorem Inv.step (h : Inv s) (hstep : Step s s') : Inv s' := by
  cases hstep with
  | new mode => exact h.new mode
  | clone hgate =>
    refine ⟨fun x hx => ?_, h.leases_mode, h.fresh, h.follows⟩
    rcases List.mem_append.1 hx with hx | hx
    · exact h.gates_mode x hx
    · obtain rfl := List.mem_singleton.1 hx
      exact h.gates_mode _ hgate
  | @dropGate l r _ hg =>
    refine ⟨fun gate hmem => h.gates_mode gate ?_, h.leases_mode, h.fresh, h.follows⟩
    rw [hg]
    exact ((List.Sublist.refl l).append (List.sublist_cons_self _ r)).subset hmem
  | tryAcquire hgate => exact h.tryAcquire hgate
  | dropLease hl => exact h.dropLease hl

/-- The invariant along every run: gates are made, cloned and dropped, and leases are taken and
given back, in any order. -/
theorem Reachable.inv (h : Reachable s) : Inv s := by
  induction h with
  | refl => exact inv_init
  | tail _ hstep ih => exact ih.step hstep

/-- A gate refuses when its family is one-to-one and has a lease, and in no other case. -/
theorem Inv.tryAcquire_eq_none (h : Inv s) (hgate : gate ∈ s.gates) :
    (gate.tryAcquire s.cells).1 = none ↔ gate.mode = .oneToOne ∧ 0 < s.held gate.active := by
  have hfollows := h.follows _ _ (h.gates_mode gate hgate)
  obtain ⟨mode, cell⟩ := gate
  cases mode with
  | oneToMany => simp [ConnectionGate.tryAcquire]
  | oneToOne =>
    have hone : s.held cell = (s.cells cell).toNat := hfollows.2
    cases hcell : s.cells cell with
    | false => simp [ConnectionGate.tryAcquire, hone, hcell]
    | true => simp [ConnectionGate.tryAcquire, hone, hcell]

/-- **What a gate admits.** In every run, whatever is cloned, dropped, acquired and released in
whatever order: a family keeps the mode it was made with; one-to-one, its log is that of a lock,
which is held as long as the one lease exists; one-to-many, nothing is refused and the leases are
those acquired and not released; and a gate refuses a lease exactly when its family is one-to-one
and has one. -/
theorem gate_admits (h : Reachable s) :
    (∀ gate ∈ s.gates, s.modes[gate.active]? = some gate.mode) ∧
    (∀ cell mode, s.modes[cell]? = some mode →
      Follows (s.log cell) (s.cells cell) (s.held cell) mode) ∧
    ∀ gate ∈ s.gates, (gate.tryAcquire s.cells).1 = none ↔
      gate.mode = .oneToOne ∧ 0 < s.held gate.active :=
  ⟨h.inv.gates_mode, h.inv.follows, fun _ hgate => h.inv.tryAcquire_eq_none hgate⟩

end

/-- A clone of a one-to-one gate is refused while the gate's lease exists, and admitted after the
lease was dropped, even though the gate is gone by then. -/
theorem gate_admits_clone :
    ∃ s, Reachable s ∧ s.log 0 = [.acquired, .refused, .released, .acquired] ∧
      s.gates.length = 1 ∧ Follows (s.log 0) (s.cells 0) (s.held 0) .oneToOne := by
  obtain ⟨s, hs, hmodes, hlog, hgates⟩ : ∃ s, Reachable s ∧ s.modes = [.oneToOne] ∧
      s.log 0 = [.acquired, .refused, .released, .acquired] ∧ s.gates.length = 1 := by
    have h₀ : Reachable _ := .tail .refl (.new .oneToOne)
    have h₁ := (h₀.tail (@Step.clone _ ⟨.oneToOne, 0⟩ List.mem_cons_self)).tail
      (@Step.tryAcquire _ ⟨.oneToOne, 0⟩ List.mem_cons_self)
    have h₂ := (h₁.tail (@Step.tryAcquire _ ⟨.oneToOne, 0⟩ List.mem_cons_self)).tail
      (.dropGate (l := []) rfl)
    have h₃ := (h₂.tail (.dropLease (l := []) rfl)).tail
      (@Step.tryAcquire _ ⟨.oneToOne, 0⟩ List.mem_cons_self)
    exact ⟨_, h₃, rfl, rfl, rfl⟩
  exact ⟨s, hs, hlog, hgates, (gate_admits hs).2.1 0 .oneToOne (by rw [hmodes]; rfl)⟩

end Gate

end Ogurpchik
