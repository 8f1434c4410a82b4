import Mathlib.Data.List.Nodup
import Mathlib.Data.List.Range
import Mathlib.Data.Option.Basic
import Mathlib.Logic.Relation

/-!
# The Named-Pipe Acceptor

A named pipe has one instance per connection. The acceptor keeps the instance it listens on and
a spare one, so that a second client finds an instance while the first is being handed out.
`accept` takes the lock, creates the spare if there is none, waits until the listening instance
has a client, and puts the spare in its place.

This module models the acceptor with its two instances, any number of `accept` calls and the
clients as a transition system. A call may be dropped at either of its waits, the creation of
the spare may fail, and a client connects at any time to the oldest instance without a client or
is refused. Instances and clients are numbered as they come up, so that an order of arrival is
an order of numbers.

The invariant is two equations: the instances handed out followed by those held are all
instances created, in order, and the same for the clients.

## Main definitions

* `State.enter`, `State.complete`: the code of `accept` between two waits.
* `Step`, `Reachable`: all interleavings of calls, drops, creation failures and clients.

## Main results

* `Reachable.inv`: the invariant holds in every reachable state.
* `accept_loses_no_client`: **`accept` loses no client and no instance.**
-/

namespace Ogurpchik

namespace Npipe

/-- An instance of the pipe, by the number of its creation, and the client on it. -/
structure Instance where
  id : ℕ
  client : Option ℕ
  deriving DecidableEq, Repr

/-- The instances of an acceptor: the one clients are waited for on, and a spare that was created
before it is handed out. -/
structure Instances where
  listening : Instance
  spare : Option Instance
  deriving DecidableEq, Repr

/-- A call of `accept`: not made yet, at one of its two waits, or over. A call that is dropped
releases the lock and keeps nothing. -/
inductive Accept
  | notCalled
  | lock
  | connect
  | returned (stream : Instance)
  | failed
  | dropped
  | panicked
  deriving DecidableEq, Repr

/-- Let `client` connect to the instance `id`, if this is the one. -/
def Instance.give (i : Instance) (id client : ℕ) : Instance :=
  if i.id = id then { i with client := some client } else i

namespace Instances

/-- The instances the acceptor holds, the listening one first: both of them may have a client. -/
def held (i : Instances) : List Instance := i.listening :: i.spare.toList

/-- The clients on them: connected, and not yet handed out. -/
def heldClients (i : Instances) : List ℕ := i.held.filterMap Instance.client

/-- Let `client` connect to the instance `id`, whichever of the two that is. -/
def give (i : Instances) (id client : ℕ) : Instances :=
  ⟨i.listening.give id client, i.spare.map (·.give id client)⟩

/-- The instance a client connects to: of those without a client the oldest, as the system hands
them out. -/
def OldestFree (i : Instances) (x : Instance) : Prop :=
  x ∈ i.held ∧ x.client = none ∧ ∀ y ∈ i.held, y.client = none → x.id ≤ y.id

end Instances

/-- An acceptor: its instances and the call that holds their lock; the calls by number; how many
instances were created and how many clients have connected; and what was handed out to which
call, in order. -/
structure State where
  instances : Instances
  holder : Option ℕ
  accept : ℕ → Accept
  created : ℕ
  connected : ℕ
  handedOut : List (ℕ × Instance)

namespace State

/-- `bind`: one instance is created and listens, and there is no spare yet. -/
def init : State := ⟨⟨⟨0, none⟩, none⟩, none, fun _ => .notCalled, 1, 0, []⟩

/-- `accept` once it has the lock: create the spare if there is none, which succeeds if
`creates`, and wait for a client. A call that fails releases the lock. -/
def enter (s : State) (n : ℕ) (creates : Bool) : State :=
  match s.instances.spare, creates with
  | some _, _ => { s with holder := some n, accept := Function.update s.accept n .connect }
  | none, true =>
      { s with
        instances := ⟨s.instances.listening, some ⟨s.created, none⟩⟩
        holder := some n
        accept := Function.update s.accept n .connect
        created := s.created + 1 }
  | none, false => { s with accept := Function.update s.accept n .failed }

/-- `accept` once the listening instance has a client: take the spare, put it in the place of
the listening instance and return that. -/
def complete (s : State) (n : ℕ) : State :=
  match s.instances.spare with
  | some spare =>
      { s with
        instances := ⟨spare, none⟩
        holder := none
        accept := Function.update s.accept n (.returned s.instances.listening)
        handedOut := s.handedOut ++ [(n, s.instances.listening)] }
  | none => { s with holder := none, accept := Function.update s.accept n .panicked }

section Equations

variable {s : State} {n : ℕ} {spare : Instance}

/-- With a spare at hand, left by a call that was dropped, no instance is created. -/
theorem enter_of_spare {creates : Bool} (h : s.instances.spare = some spare) :
    s.enter n creates =
      { s with holder := some n, accept := Function.update s.accept n .connect } := by
  simp only [enter, h]

/-- Without one the next instance is created, and numbered. -/
theorem enter_creates (h : s.instances.spare = none) :
    s.enter n true =
      { s with
        instances := ⟨s.instances.listening, some ⟨s.created, none⟩⟩
        holder := some n
        accept := Function.update s.accept n .connect
        created := s.created + 1 } := by
  simp only [enter, h]

/-- A creation that fails changes nothing but the call. -/
theorem enter_fails (h : s.instances.spare = none) :
    s.enter n false = { s with accept := Function.update s.accept n .failed } := by
  simp only [enter, h]

/-- The spare takes the place of the instance that is handed out, so a client always has one to
connect to. -/
theorem complete_of_spare (h : s.instances.spare = some spare) :
    s.complete n =
      { s with
        instances := ⟨spare, none⟩
        holder := none
        accept := Function.update s.accept n (.returned s.instances.listening)
        handedOut := s.handedOut ++ [(n, s.instances.listening)] } := by
  simp only [complete, h]

end Equations

end State

/-- One step. Waiting for a client ends when the listening instance has one; before that it may
fail. -/
inductive Step : State → State → Prop
  | call {s : State} (n : ℕ) : s.accept n = .notCalled →
      Step s { s with accept := Function.update s.accept n .lock }
  | enter {s : State} (n : ℕ) (creates : Bool) : s.accept n = .lock → s.holder = none →
      Step s (s.enter n creates)
  | complete {s : State} (n : ℕ) : s.accept n = .connect →
      s.instances.listening.client ≠ none → Step s (s.complete n)
  | connectFails {s : State} (n : ℕ) : s.accept n = .connect →
      s.instances.listening.client = none →
      Step s { s with holder := none, accept := Function.update s.accept n .failed }
  | dropWaiting {s : State} (n : ℕ) : s.accept n = .lock →
      Step s { s with accept := Function.update s.accept n .dropped }
  | dropHolding {s : State} (n : ℕ) : s.accept n = .connect →
      Step s { s with holder := none, accept := Function.update s.accept n .dropped }
  | client {s : State} {x : Instance} : s.instances.OldestFree x →
      Step s { s with
        instances := s.instances.give x.id s.connected
        connected := s.connected + 1 }
  | refused {s : State} : (∀ x ∈ s.instances.held, x.client ≠ none) → Step s s

/-- States that some interleaving reaches, of clients that connect and calls that are made, dropped
and completed. -/
def Reachable (s : State) : Prop := Relation.ReflTransGen Step .init s

/-! ### The invariant -/

/-- Where the instances and the clients are: handed out, in order, or still held. -/
structure Ledger (s : State) : Prop where
  /-- Every instance created is handed out or held, in the order of creation. -/
  ids : s.handedOut.map (·.2.id) ++ s.instances.held.map (·.id) = List.range s.created
  /-- Every client is handed out or held, in the order of connection. -/
  clients : s.handedOut.map (·.2.client) ++ s.instances.heldClients.map some =
    (List.range s.connected).map some
  /-- The spare has a client only if the listening instance has one. -/
  spare_client : ∀ spare, s.instances.spare = some spare →
    s.instances.listening.client = none → spare.client = none

/-- Where the calls are: a call that has returned has what was handed out, one at a time holds the
lock, and whoever holds it has a spare. -/
structure Calls (s : State) : Prop where
  returned : ∀ n x, s.accept n = .returned x ↔ (n, x) ∈ s.handedOut
  holder : ∀ n, s.accept n = .connect ↔ s.holder = some n
  spare : s.holder ≠ none → s.instances.spare ≠ none
  panicked : ∀ n, s.accept n ≠ .panicked

/-- The invariant of an acceptor: its ledger, and where its calls are. -/
structure Inv (s : State) : Prop where
  ledger : Ledger s
  calls : Calls s

section Ledger

variable {s : State}

/-- The calls do not matter. -/
theorem Ledger.calls (h : Ledger s) (holder : Option ℕ) (accept : ℕ → Accept) :
    Ledger { s with holder := holder, accept := accept } :=
  ⟨h.ids, h.clients, h.spare_client⟩

/-- The listening instance is older than the spare. -/
theorem Ledger.listening_lt (h : Ledger s) {spare : Instance}
    (hspare : s.instances.spare = some spare) : s.instances.listening.id < spare.id := by
  have hsorted := List.pairwise_lt_range (n := s.created)
  rw [← h.ids, List.pairwise_append] at hsorted
  simpa [Instances.held, hspare] using hsorted.2.1

/-- A client connects to the listening instance, or to the spare behind a client on that. -/
theorem Ledger.oldestFree (h : Ledger s) {x : Instance} (hx : s.instances.OldestFree x) :
    (x = s.instances.listening ∧ ∀ spare, s.instances.spare = some spare → spare.client = none) ∨
      (s.instances.spare = some x ∧ s.instances.listening.client ≠ none) := by
  obtain ⟨hmem, hfree, hold⟩ := hx
  rcases List.mem_cons.mp hmem with rfl | hmem
  · exact .inl ⟨rfl, fun spare hspare => h.spare_client spare hspare hfree⟩
  · have hspare : s.instances.spare = some x := Option.mem_toList.mp hmem
    refine .inr ⟨hspare, fun hnone => ?_⟩
    have hle := hold s.instances.listening List.mem_cons_self hnone
    exact absurd hle (not_le.mpr (h.listening_lt hspare))

/-- The instance a client connects to is the one it is given to. -/
theorem give_self (x : Instance) (client : ℕ) : x.give x.id client = ⟨x.id, some client⟩ :=
  if_pos rfl

/-- No other instance changes. -/
theorem give_of_ne {x : Instance} {id : ℕ} (h : x.id ≠ id) (client : ℕ) :
    x.give id client = x :=
  if_neg h

/-- A client does not change the name of an instance. -/
theorem id_give (x : Instance) (id client : ℕ) : (x.give id client).id = x.id := by
  rw [Instance.give]
  split_ifs <;> rfl

/-- A client that connects changes no instance but the client on it. -/
theorem map_id_give (i : Instances) (id client : ℕ) :
    (i.give id client).held.map (·.id) = i.held.map (·.id) := by
  rcases i with ⟨listening, _ | spare⟩ <;> simp [Instances.give, Instances.held, id_give]

/-- A client that connects is the last one held: the listening instance is older than the spare, and
gets its client first. -/
theorem Ledger.heldClients_give (h : Ledger s) {x : Instance} (hx : s.instances.OldestFree x)
    (client : ℕ) :
    (s.instances.give x.id client).heldClients = s.instances.heldClients ++ [client] := by
  have hfree := hx.2.1
  rcases h.oldestFree hx with ⟨rfl, hspare⟩ | ⟨hspare, hclient⟩
  · cases hs : s.instances.spare with
    | none => simp [Instances.heldClients, Instances.give, Instances.held, hs, give_self, hfree]
    | some spare =>
      have hne := (h.listening_lt hs).ne'
      simp [Instances.heldClients, Instances.give, Instances.held, hs, give_self,
        give_of_ne hne, hfree, hspare spare hs]
  · have hne := (h.listening_lt hspare).ne
    obtain ⟨c, hc⟩ := Option.ne_none_iff_exists'.mp hclient
    simp [Instances.heldClients, Instances.give, Instances.held, hspare, give_self,
      give_of_ne hne, hfree, hc]

/-- A client that connects is entered as the last one held, with the next number. -/
theorem Ledger.client (h : Ledger s) {x : Instance} (hx : s.instances.OldestFree x) :
    Ledger { s with
      instances := s.instances.give x.id s.connected
      connected := s.connected + 1 } where
  ids := by
    dsimp only
    rw [map_id_give, h.ids]
  clients := by
    dsimp only
    rw [h.heldClients_give hx, List.map_append, ← List.append_assoc, h.clients, List.range_succ,
      List.map_append]
  spare_client := by
    intro spare hspare hnone
    dsimp only [Instances.give] at hspare hnone
    obtain ⟨spare, hs, rfl⟩ := Option.map_eq_some_iff.mp hspare
    rcases h.oldestFree hx with ⟨rfl, -⟩ | ⟨hx', hclient⟩
    · rw [give_self] at hnone
      cases hnone
    · rw [give_of_ne (h.listening_lt hx').ne] at hnone
      exact absurd hnone hclient

/-- A spare is created, as the youngest of the instances, and without a client. -/
theorem Ledger.create (h : Ledger s) (hspare : s.instances.spare = none) (n : ℕ) :
    Ledger { s with
      instances := ⟨s.instances.listening, some ⟨s.created, none⟩⟩
      holder := some n
      accept := Function.update s.accept n .connect
      created := s.created + 1 } where
  ids := by
    have hids := h.ids
    simp only [Instances.held, hspare] at hids
    rw [List.range_succ, ← hids]
    simp [Instances.held]
  clients := by
    have hclients := h.clients
    simp only [Instances.heldClients, Instances.held, hspare] at hclients
    rw [← hclients]
    cases hc : s.instances.listening.client <;>
      simp [Instances.heldClients, Instances.held, hc]
  spare_client := by
    intro spare hs _
    cases hs
    rfl

/-- The listening instance is handed out and the spare takes its place. -/
theorem Ledger.complete (h : Ledger s) {spare : Instance} (n : ℕ)
    (hspare : s.instances.spare = some spare) (hclient : s.instances.listening.client ≠ none) :
    Ledger { s with
      instances := ⟨spare, none⟩
      holder := none
      accept := Function.update s.accept n (.returned s.instances.listening)
      handedOut := s.handedOut ++ [(n, s.instances.listening)] } where
  ids := by
    rw [← h.ids]
    simp [Instances.held, hspare]
  clients := by
    obtain ⟨c, hc⟩ := Option.ne_none_iff_exists'.mp hclient
    rw [← h.clients]
    cases hs : spare.client <;>
      simp [Instances.heldClients, Instances.held, hspare, hc, hs]
  spare_client := by
    intro spare' hs
    cases hs

end Ledger

section Calls

variable {s t : State} {n : ℕ}

/-- The call `n` moves to `phase`; what the others have and hold stays. -/
theorem Calls.move (h : Calls s) {phase : Accept}
    (haccept : t.accept = Function.update s.accept n phase) (hpanicked : phase ≠ .panicked)
    (hreturned : ∀ m x, (m, x) ∈ t.handedOut ↔
      (if m = n then phase = .returned x else (m, x) ∈ s.handedOut))
    (hholder : ∀ m, t.holder = some m ↔ if m = n then phase = .connect else s.holder = some m)
    (hspare : t.holder ≠ none → t.instances.spare ≠ none) : Calls t where
  returned m x := by
    rw [haccept, hreturned]
    by_cases hm : m = n
    · rw [if_pos hm, hm, Function.update_self]
    · rw [if_neg hm, Function.update_of_ne hm]
      exact h.returned m x
  holder m := by
    rw [haccept, hholder]
    by_cases hm : m = n
    · rw [if_pos hm, hm, Function.update_self]
    · rw [if_neg hm, Function.update_of_ne hm]
      exact h.holder m
  spare := hspare
  panicked m := by
    rw [haccept]
    by_cases hm : m = n
    · rw [hm, Function.update_self]
      exact hpanicked
    · rw [Function.update_of_ne hm]
      exact h.panicked m

/-- A call that has not returned was not handed anything. -/
theorem Calls.notMem (h : Calls s) (hn : ∀ x, s.accept n ≠ .returned x) (x : Instance) :
    (n, x) ∉ s.handedOut :=
  fun hmem => hn x ((h.returned n x).mpr hmem)

/-- A call moves to a phase in which it does not hold the lock, and releases the lock if it did
hold it. -/
theorem Calls.release (h : Calls s) {phase : Accept} (holder : Option ℕ)
    (hphase : phase = .lock ∨ phase = .failed ∨ phase = .dropped)
    (hn : (s.accept n = .notCalled ∨ s.accept n = .lock) ∧ holder = s.holder ∨
      s.accept n = .connect ∧ holder = none) :
    Calls { s with holder := holder, accept := Function.update s.accept n phase } := by
  have hnot : ∀ x, (n, x) ∉ s.handedOut := by
    apply h.notMem
    intro x hx
    rw [hx] at hn
    simp at hn
  have hheld := h.holder n
  apply h.move rfl
  · rcases hphase with rfl | rfl | rfl <;> simp
  · intro m x
    split_ifs with hm
    · subst hm
      rcases hphase with rfl | rfl | rfl <;> simp [hnot]
    · rfl
  · intro m
    split_ifs with hm
    · subst hm
      rcases hphase with rfl | rfl | rfl <;> rcases hn with ⟨hn | hn, rfl⟩ | ⟨hn, rfl⟩ <;> simp_all
    · rcases hn with ⟨-, rfl⟩ | ⟨hn, rfl⟩
      · rfl
      · simp [hheld.mp hn, Ne.symm hm]
  · rcases hn with ⟨-, rfl⟩ | ⟨-, rfl⟩
    · exact h.spare
    · exact fun hne => absurd rfl hne

/-- A call that has the lock and a spare waits for a client, and holds the lock meanwhile. -/
theorem Calls.enter (h : Calls s) (hlock : s.accept n = .lock) (hfree : s.holder = none)
    {instances : Instances} (hspare : instances.spare ≠ none) (created : ℕ) :
    Calls { s with
      instances := instances
      holder := some n
      accept := Function.update s.accept n .connect
      created := created } := by
  have hnot : ∀ x, (n, x) ∉ s.handedOut := by
    apply h.notMem
    simp [hlock]
  apply h.move rfl
  · simp
  · intro m x
    split_ifs with hm
    · simp [hm, hnot]
    · rfl
  · intro m
    split_ifs with hm
    · simp [hm]
    · simp [hfree, Ne.symm hm]
  · exact fun _ => hspare

/-- A call returns the listening instance and gives up the lock. -/
theorem Calls.complete (h : Calls s) (hconnect : s.accept n = .connect) (spare : Instance) :
    Calls { s with
      instances := ⟨spare, none⟩
      holder := none
      accept := Function.update s.accept n (.returned s.instances.listening)
      handedOut := s.handedOut ++ [(n, s.instances.listening)] } := by
  have hnot : ∀ x, (n, x) ∉ s.handedOut := by
    apply h.notMem
    simp [hconnect]
  apply h.move rfl
  · simp
  · intro m x
    split_ifs with hm
    · simp [hm, hnot, eq_comm]
    · simp [hm]
  · intro m
    split_ifs with hm
    · simp
    · simp [(h.holder n).mp hconnect, Ne.symm hm]
  · exact fun hne => absurd rfl hne

/-- A client that connects does not change where the calls are. -/
theorem Calls.client (h : Calls s) (id client : ℕ) :
    Calls { s with instances := s.instances.give id client, connected := s.connected + 1 } where
  returned := h.returned
  holder := h.holder
  spare hne := by
    simpa [Instances.give] using h.spare hne
  panicked := h.panicked

end Calls

/-! ### Steps and runs -/

section Step

variable {s t : State} {n : ℕ}

/-- What `accept` does once it has the lock: it waits with a spare, or fails for want of one. -/
theorem Inv.enter (h : Inv s) (hlock : s.accept n = .lock) (hfree : s.holder = none)
    (creates : Bool) : Inv (s.enter n creates) := by
  cases hspare : s.instances.spare with
  | some spare =>
    rw [State.enter_of_spare hspare]
    have hne : s.instances.spare ≠ none := by
      rw [hspare]
      exact Option.some_ne_none spare
    exact ⟨h.ledger.calls _ _, h.calls.enter hlock hfree hne s.created⟩
  | none =>
    cases creates with
    | true =>
      rw [State.enter_creates hspare]
      exact ⟨h.ledger.create hspare n, h.calls.enter hlock hfree (Option.some_ne_none _) _⟩
    | false =>
      rw [State.enter_fails hspare]
      exact ⟨h.ledger.calls _ _,
        h.calls.release s.holder (.inr (.inl rfl)) (.inl ⟨.inr hlock, rfl⟩)⟩

/-- A call that waits for a client has a spare to put in the place of the listening instance. -/
theorem Inv.complete_eq (h : Inv s) (hconnect : s.accept n = .connect) :
    ∃ spare, s.instances.spare = some spare ∧
      s.complete n = { s with
        instances := ⟨spare, none⟩
        holder := none
        accept := Function.update s.accept n (.returned s.instances.listening)
        handedOut := s.handedOut ++ [(n, s.instances.listening)] } := by
  have hholder : s.holder ≠ none := by
    rw [(h.calls.holder n).mp hconnect]
    exact Option.some_ne_none n
  obtain ⟨spare, hspare⟩ := Option.ne_none_iff_exists'.mp (h.calls.spare hholder)
  exact ⟨spare, hspare, State.complete_of_spare hspare⟩

/-- Every step keeps the invariant: calls begin, go on, fail and are dropped, and clients
connect. -/
theorem Inv.step (h : Inv s) (hs : Step s t) : Inv t := by
  cases hs with
  | call n hn =>
    exact ⟨h.ledger.calls _ _, h.calls.release s.holder (.inl rfl) (.inl ⟨.inl hn, rfl⟩)⟩
  | enter n creates hn hfree => exact h.enter hn hfree creates
  | complete n hn hclient =>
    obtain ⟨spare, hspare, heq⟩ := h.complete_eq hn
    rw [heq]
    exact ⟨h.ledger.complete n hspare hclient, h.calls.complete hn spare⟩
  | connectFails n hn _ =>
    exact ⟨h.ledger.calls _ _, h.calls.release none (.inr (.inl rfl)) (.inr ⟨hn, rfl⟩)⟩
  | dropWaiting n hn =>
    exact ⟨h.ledger.calls _ _, h.calls.release s.holder (.inr (.inr rfl)) (.inl ⟨.inr hn, rfl⟩)⟩
  | dropHolding n hn =>
    exact ⟨h.ledger.calls _ _, h.calls.release none (.inr (.inr rfl)) (.inr ⟨hn, rfl⟩)⟩
  | client hx => exact ⟨h.ledger.client hx, h.calls.client _ _⟩
  | refused => exact h

/-- The invariant holds in every reachable state. -/
theorem Reachable.inv (h : Reachable s) : Inv s := by
  induction h with
  | refl =>
    refine ⟨⟨rfl, rfl, fun spare hspare => ?_⟩, ⟨fun n x => ?_, fun n => ?_, ?_, fun n => ?_⟩⟩
    · cases hspare
    all_goals simp [State.init]
  | tail _ hs ih => exact ih.step hs

/-! ### What becomes of a client -/

/-- The call `n` has returned an instance with `client` on it, so the client is served by the
caller. -/
def State.HandsOut (s : State) (n client : ℕ) : Prop :=
  ∃ x, s.accept n = .returned x ∧ x.client = some client

/-- The clients handed out and those held are different ones. -/
theorem Inv.nodup_clients (h : Inv s) :
    (s.handedOut.map (·.2.client) ++ s.instances.heldClients.map some).Nodup := by
  rw [h.ledger.clients]
  exact List.nodup_range.map (Option.some_injective ℕ)

/-- No client is handed out to two calls. -/
theorem Inv.handsOut_unique (h : Inv s) {m c : ℕ} (hn : s.HandsOut n c) (hm : s.HandsOut m c) :
    n = m := by
  obtain ⟨x, hx, hxc⟩ := hn
  obtain ⟨y, hy, hyc⟩ := hm
  have hnodup := (List.nodup_append.mp h.nodup_clients).1
  have heq := List.inj_on_of_nodup_map hnodup ((h.calls.returned n x).mp hx)
    ((h.calls.returned m y).mp hy) (hxc.trans hyc.symm)
  exact congrArg Prod.fst heq

/-- The clients that were handed out are those in the ledger. -/
theorem Inv.handsOut_iff (h : Inv s) {c : ℕ} :
    (∃ n, s.HandsOut n c) ↔ some c ∈ s.handedOut.map (·.2.client) := by
  simp only [State.HandsOut, h.calls.returned, List.mem_map, Prod.exists]

/-- **A client** that has connected is either handed out to exactly one call or still held. -/
theorem Inv.client_cases (h : Inv s) {c : ℕ} (hc : c < s.connected) :
    ((∃! n, s.HandsOut n c) ∧ c ∉ s.instances.heldClients) ∨
      (c ∈ s.instances.heldClients ∧ ∀ n, ¬s.HandsOut n c) := by
  have hmem : some c ∈ s.handedOut.map (·.2.client) ++ s.instances.heldClients.map some := by
    rw [h.ledger.clients]
    exact List.mem_map_of_mem (List.mem_range.mpr hc)
  have hdisjoint := List.disjoint_of_nodup_append h.nodup_clients
  rcases List.mem_append.mp hmem with hout | hheld
  · obtain ⟨n, hn⟩ := h.handsOut_iff.mpr hout
    exact .inl ⟨⟨n, hn, fun m hm => h.handsOut_unique hm hn⟩,
      fun hin => hdisjoint hout (List.mem_map_of_mem hin)⟩
  · have hin : c ∈ s.instances.heldClients := by simpa using hheld
    exact .inr ⟨hin, fun n hn => hdisjoint (h.handsOut_iff.mp ⟨n, hn⟩) hheld⟩

/-- What was handed out is not the listening instance: the spare has taken its place. -/
theorem Inv.id_ne_listening (h : Inv s) {x : Instance} (hx : s.accept n = .returned x) :
    x.id ≠ s.instances.listening.id := by
  have hnodup := @List.nodup_range s.created
  rw [← h.ledger.ids] at hnodup
  have hout : x.id ∈ s.handedOut.map (·.2.id) :=
    List.mem_map_of_mem (f := fun p => p.2.id) ((h.calls.returned n x).mp hx)
  intro heq
  rw [heq] at hout
  exact List.disjoint_of_nodup_append hnodup hout
    (List.mem_map_of_mem (f := Instance.id) List.mem_cons_self)

/-- What was handed out has a client, since a call returns only then. -/
theorem Inv.client_of_returned (h : Inv s) {x : Instance} (hx : s.accept n = .returned x) :
    x.client ≠ none := by
  have hout : x.client ∈ s.handedOut.map (·.2.client) ++ s.instances.heldClients.map some :=
    List.mem_append_left _
      (List.mem_map_of_mem (f := fun p => p.2.client) ((h.calls.returned n x).mp hx))
  rw [h.ledger.clients] at hout
  obtain ⟨c, -, hc⟩ := List.mem_map.mp hout
  rw [← hc]
  exact Option.some_ne_none c

/-! ### What a step does to a call -/

/-- A call that moved is the one the step is about. -/
theorem update_of_moved {accept : ℕ → Accept} {m : ℕ} {phase : Accept}
    (hmoved : Function.update accept m phase n ≠ accept n) :
    n = m ∧ Function.update accept m phase n = phase := by
  by_cases hnm : n = m
  · subst hnm
    exact ⟨rfl, Function.update_self _ _ _⟩
  · exact absurd (Function.update_of_ne hnm _ _) hmoved

/-- A call that is dropped or fails leaves the instances as they are. -/
theorem Inv.instances_eq (h : Inv s) (hs : Step s t) (hmoved : t.accept n ≠ s.accept n)
    (hn : t.accept n = .dropped ∨ t.accept n = .failed) : t.instances = s.instances := by
  cases hs with
  | call | connectFails | dropWaiting | dropHolding | refused => rfl
  | client => exact absurd rfl hmoved
  | enter m creates hm _ =>
    cases hspare : s.instances.spare with
    | some spare => rw [State.enter_of_spare hspare]
    | none =>
      cases creates with
      | false => rw [State.enter_fails hspare]
      | true =>
        rw [State.enter_creates hspare] at hmoved hn
        dsimp only at hmoved hn
        rw [(update_of_moved hmoved).2] at hn
        exact absurd hn (by simp)
  | complete m hm _ =>
    obtain ⟨spare, -, heq⟩ := h.complete_eq hm
    rw [heq] at hmoved hn
    dsimp only at hmoved hn
    rw [(update_of_moved hmoved).2] at hn
    exact absurd hn (by simp)

/-- A call that waits while a client is held can only be dropped or return. -/
theorem Inv.step_of_connect (h : Inv s) (hs : Step s t) (hn : s.accept n = .connect)
    (hclient : s.instances.listening.client ≠ none) (hmoved : t.accept n ≠ s.accept n) :
    t.accept n = .dropped ∨ t = s.complete n := by
  cases hs with
  | call m hm =>
    obtain ⟨rfl, -⟩ := update_of_moved hmoved
    rw [hn] at hm
    cases hm
  | enter m creates hm hfree =>
    rw [(h.calls.holder n).mp hn] at hfree
    cases hfree
  | complete m hm _ =>
    -- both hold the lock
    have hm' := (h.calls.holder m).mp hm
    rw [(h.calls.holder n).mp hn] at hm'
    cases hm'
    exact .inr rfl
  | connectFails m _ hnone => exact absurd hnone hclient
  | dropWaiting m _ => exact .inl (update_of_moved hmoved).2
  | dropHolding m _ => exact .inl (update_of_moved hmoved).2
  | client | refused => exact absurd rfl hmoved

/-- While a client is held the listening instance has the one that connected first. -/
theorem Inv.first_client (h : Inv s) (hheld : s.instances.heldClients ≠ []) :
    ∃ first, s.instances.listening.client = some first ∧
      first ∈ s.instances.heldClients ∧ ∀ c ∈ s.instances.heldClients, first ≤ c := by
  have hsorted : s.instances.heldClients.Pairwise (· < ·) := by
    have hrange := congrArg (List.filterMap id) h.ledger.clients
    simp only [List.filterMap_append, List.filterMap_map, Function.id_comp,
      List.filterMap_some] at hrange
    have hlt := List.pairwise_lt_range (n := s.connected)
    rw [← hrange] at hlt
    exact (List.pairwise_append.mp hlt).2.1
  cases hc : s.instances.listening.client with
  | none =>
    -- then the spare has none either
    refine absurd ?_ hheld
    cases hspare : s.instances.spare with
    | none => simp [Instances.heldClients, Instances.held, hc, hspare]
    | some spare =>
      have hfree := h.ledger.spare_client spare hspare hc
      simp [Instances.heldClients, Instances.held, hc, hspare, hfree]
  | some first =>
    have heq : s.instances.heldClients =
        first :: s.instances.spare.toList.filterMap Instance.client := by
      simp [Instances.heldClients, Instances.held, hc]
    rw [heq] at hsorted ⊢
    refine ⟨first, rfl, List.mem_cons_self, fun c hmem => ?_⟩
    rcases List.mem_cons.mp hmem with rfl | hmem
    · exact le_rfl
    · exact (List.rel_of_pairwise_cons hsorted hmem).le

end Step

/-- **`accept` loses no client.** In every interleaving of calls, drops, creation failures
and clients: no call was handed the listening instance; the spare has a client only if the
listening instance has one; every client that has connected is either handed out to exactly
one call or still held, clients and instances are handed out in order and none is lost; a
call that returned has an instance with a client; a call that is dropped or fails leaves the
instances as they are; and while a client is held, a call that has the lock and a spare can
return, with the client that connected first of those held, and does so unless it is
dropped. -/
theorem accept_loses_no_client {s : State} (h : Reachable s) :
    (∀ n x, s.accept n = .returned x → x.id ≠ s.instances.listening.id) ∧
    (∀ spare, s.instances.spare = some spare → spare.client ≠ none →
      s.instances.listening.client ≠ none) ∧
    (∀ c < s.connected, ((∃! n, s.HandsOut n c) ∧ c ∉ s.instances.heldClients) ∨
      (c ∈ s.instances.heldClients ∧ ∀ n, ¬s.HandsOut n c)) ∧
    ((∀ n x, s.accept n = .returned x ↔ (n, x) ∈ s.handedOut) ∧
      s.handedOut.map (·.2.client) <+: (List.range s.connected).map some ∧
      s.handedOut.map (·.2.id) ++ s.instances.held.map (·.id) = List.range s.created) ∧
    (∀ n x, s.accept n = .returned x → x.client ≠ none) ∧
    (∀ t n, Step s t → t.accept n ≠ s.accept n → t.accept n = .dropped ∨ t.accept n = .failed →
      t.instances = s.instances) ∧
    (∀ n, s.accept n = .connect → s.instances.heldClients ≠ [] →
      ∃ first ∈ s.instances.heldClients, (∀ c ∈ s.instances.heldClients, first ≤ c) ∧
        Step s (s.complete n) ∧ (s.complete n).HandsOut n first ∧
        ∀ t, Step s t → t.accept n ≠ s.accept n → t.accept n = .dropped ∨ t = s.complete n) := by
  have hinv := h.inv
  refine ⟨?_, ?_, ?_, ⟨hinv.calls.returned, ?_, hinv.ledger.ids⟩, ?_, ?_, ?_⟩
  · intro n x hx
    exact hinv.id_ne_listening hx
  · intro spare hspare hclient hnone
    exact hclient (hinv.ledger.spare_client spare hspare hnone)
  · intro c hc
    exact hinv.client_cases hc
  · rw [← hinv.ledger.clients]
    exact List.prefix_append _ _
  · intro n x hx
    exact hinv.client_of_returned hx
  · intro t n hs hmoved hn
    exact hinv.instances_eq hs hmoved hn
  · intro n hn hheld
    obtain ⟨first, hfirst, hmem, hle⟩ := hinv.first_client hheld
    have hclient : s.instances.listening.client ≠ none := by
      rw [hfirst]
      exact Option.some_ne_none first
    refine ⟨first, hmem, hle, .complete n hn hclient, ?_, fun t hs hmoved =>
      hinv.step_of_connect hs hn hclient hmoved⟩
    obtain ⟨spare, -, heq⟩ := hinv.complete_eq hn
    rw [heq]
    exact ⟨s.instances.listening, Function.update_self _ _ _, hfirst⟩

/-- Two clients connect while a call waits; it returns with the first and the second is held. -/
theorem accept_loses_no_client_two :
    ∃ s, Reachable s ∧ s.connected = 2 ∧ s.HandsOut 0 0 ∧ 1 ∈ s.instances.heldClients ∧
      ∃! n, s.HandsOut n 0 := by
  have h1 : Reachable _ := .tail .refl (.call 0 rfl)
  have h2 : Reachable _ := h1.tail (.enter 0 true rfl rfl)
  have h3 : Reachable _ := h2.tail (.client (x := ⟨0, none⟩) (by
    refine ⟨List.mem_cons_self, rfl, fun y _ _ => Nat.zero_le _⟩))
  have h4 : Reachable _ := h3.tail (.client (x := ⟨1, none⟩) (by
    refine ⟨by decide, rfl, ?_⟩
    decide))
  have h5 : Reachable _ := h4.tail (.complete 0 rfl (by decide))
  refine ⟨_, h5, rfl, ?out, by decide, ?_⟩
  · exact ⟨⟨0, some 0⟩, rfl, rfl⟩
  · rcases (accept_loses_no_client h5).2.2.1 0 (by decide) with hc | hc
    · exact hc.1
    · exact absurd ?out (hc.2 0)

end Npipe

end Ogurpchik
