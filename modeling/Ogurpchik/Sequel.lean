import Ogurpchik.Dialogue

/-!
# What Follows a Dialogue

Two parties that talk over a channel often go on using it: a party that has come to the end of its
part of the dialogue, and stays, sends further symbols and takes symbols off the channel, while the
other one may still be in the middle of its own part. Nothing on the channel marks where the
dialogue ends.

This module shows that for parties that play dual scripts nothing has to. The symbols in flight to
a party are always those of the dialogue and behind them those of the sequel; a party still in the
dialogue takes none of the latter; and a party that is through finds exactly what the other one has
sent behind the dialogue.

## Main definitions

* `Side`, `Move`: parties with what they send and take behind the dialogue.
* `Apart`: the two parts of what is in flight.

## Main results

* `Apart.move`: one step keeps the parts apart.
* `Apart.exact`: **the sequel arrives as it was sent.**
* `Apart.progress`: symbols of the sequel do not hold up the dialogue.
-/

namespace Dialogue

open Async Transition

variable {β Q E σ α : Type} {R : Q → Type}

/-! ### A party that waits for one that is through -/

section Matched

variable {cl cr : Prop} {l r : List (Act β)}

/-- What a party has still to receive from one that sends no more is in flight. -/
theorem Dual.length_le_of_ended {xs ys : List β} (hr : r = [] ∨ r = [.lost])
    (h : Dual cl cr (xs.map .inp ++ l) (ys.map .out ++ r)) : xs.length ≤ ys.length := by
  induction ys generalizing xs with
  | nil =>
    cases xs with
    | nil => exact le_rfl
    | cons x xs => exact absurd h (Dual.not_inp_of_left hr)
  | cons y ys ih =>
    cases xs with
    | nil => exact Nat.zero_le _
    | cons x xs =>
      cases h with
      | outR _ h => exact Nat.succ_le_succ (ih h)

variable {answer : σ → (q : Q) → R q × σ} {closes : α → Prop} {a b : Peer β R E σ α} {ra rb : α}

/-- Nothing of the dialogue is in flight to a party that has come to its end. -/
theorem Matched.inbox_of_done (h : Matched answer closes ra rb a b) {c : α}
    (hc : a.prog = .done c) : a.inbox = [] := by
  obtain ⟨l, r, hl, -, hdual⟩ := h
  rw [hc] at hl
  exact hdual.symm.nil_of_left hl.done_inv.2

/-- A party that waits for one that is through and stays has everything it waits for in flight. -/
theorem Matched.room_le {room : ℕ} {k : { xs : List β // xs.length ≤ room } → Party β R E α}
    {env : σ} {inbox : List β} {c : α}
    (h : Matched answer closes ra rb ⟨.await (.recv room) k, env, inbox⟩ b)
    (hc : b.prog = .done c) (hstays : ¬ closes c) : room ≤ inbox.length := by
  obtain rfl : c = rb := h.symm.result hc
  have hb : b.inbox = [] := h.symm.inbox_of_done hc
  obtain ⟨l, r, hl, hr, hdual⟩ := h
  rw [hc] at hr
  have hend := hr.done_inv.2
  rw [hb, List.map_nil, List.nil_append] at hdual
  cases hl with
  | recv hroom hlen _ => exact hlen.trans (hdual.length_le_of_ended hend)
  | eof hroom _ =>
    -- the end of the stream is received only from a party that leaves
    cases inbox with
    | nil =>
      rcases hend with rfl | rfl
      · cases hdual with
        | eofL hcr _ => exact absurd hcr hstays
      · cases hdual
    | cons x xs => cases hdual

end Matched

end Dialogue

namespace Sequel

open Async Dialogue

variable {β Q E σ α : Type} {R : Q → Type}

/-- A party with what it has sent and taken behind its part of the dialogue. Both are recorded, so
that what follows the dialogue can be told from what belongs to it. -/
structure Side (β : Type) {Q : Type} (R : Q → Type) (E σ α : Type) where
  peer : Peer β R E σ α
  emitted : List β
  taken : List β

/-- A party at the beginning: nothing was sent or taken behind its part, since it is not through
with it. -/
def Side.start (peer : Peer β R E σ α) : Side β R E σ α := ⟨peer, [], []⟩

section Moves

variable (answer : σ → (q : Q) → R q × σ) (closes : α → Prop)

/-- The party has come to the end of its part and stays, so that it may go on to what follows. -/
def Side.Through (a : Side β R E σ α) : Prop := ∃ c, a.peer.prog = .done c ∧ ¬ closes c

/-- One party moves: in the dialogue, or, once it is through, behind it. The two may be at different
points: what one sends behind its part may arrive while the other is still in the dialogue. -/
inductive Move : Side β R E σ α → Side β R E σ α → Side β R E σ α → Side β R E σ α → Prop
  | dialogue {a b : Side β R E σ α} {a' b' : Peer β R E σ α} :
      Dialogue.Move answer closes a.peer b.peer a' b' →
      Move a b { a with peer := a' } { b with peer := b' }
  | emit {a b : Side β R E σ α} (xs : List β) : a.Through closes →
      Move a b { a with emitted := a.emitted ++ xs }
        { b with peer := { b.peer with inbox := b.peer.inbox ++ xs } }
  | take {a b : Side β R E σ α} (xs rest : List β) : a.Through closes →
      a.peer.inbox = xs ++ rest →
      Move a b { a with peer := { a.peer with inbox := rest }, taken := a.taken ++ xs } b

end Moves

/-! ### The two parts of what is in flight -/

section Apart

variable {answer : σ → (q : Q) → R q × σ} {closes : α → Prop} {ra rb : α}
  {a b a' b' : Side β R E σ α}

/-- What is in flight to `a` is `talk` of the dialogue and behind it `rest` of what `b` has sent
since. -/
structure InFlight (closes : α → Prop) (a b : Side β R E σ α) (talk rest : List β) : Prop where
  inbox_eq : a.peer.inbox = talk ++ rest
  emitted_eq : b.emitted = a.taken ++ rest
  through : b.emitted ≠ [] → b.Through closes

/-- The two parties play dual scripts with what is in flight of the dialogue. What stands behind
that on the way to a party was sent behind the dialogue, to the last symbol. -/
def Apart (answer : σ → (q : Q) → R q × σ) (closes : α → Prop) (ra rb : α)
    (a b : Side β R E σ α) : Prop :=
  ∃ talkA talkB restA restB, InFlight closes a b talkA restA ∧ InFlight closes b a talkB restB ∧
    Matched answer closes ra rb { a.peer with inbox := talkA } { b.peer with inbox := talkB }

/-- Which of the two parties comes first does not matter. -/
theorem Apart.symm (h : Apart answer closes ra rb a b) : Apart answer closes rb ra b a := by
  obtain ⟨talkA, talkB, restA, restB, hA, hB, hm⟩ := h
  exact ⟨talkB, talkA, restB, restA, hB, hA, hm.symm⟩

/-- A dialogue that begins. -/
theorem Apart.start {p q : Peer β R E σ α} (h : Matched answer closes ra rb p q) :
    Apart answer closes ra rb (.start p) (.start q) :=
  ⟨p.inbox, q.inbox, [], [], ⟨(List.append_nil _).symm, rfl, fun hne => absurd rfl hne⟩,
    ⟨(List.append_nil _).symm, rfl, fun hne => absurd rfl hne⟩, h⟩

/-- A party in the middle of the dialogue has sent nothing behind it. -/
theorem InFlight.emitted_nil {talk rest : List β} (h : InFlight closes b a talk rest)
    (hop : ∀ c, a.peer.prog ≠ .done c) : a.emitted = [] := by
  by_contra hne
  obtain ⟨c, hc, -⟩ := h.through hne
  exact hop c hc

/-- Nor is anything of the kind in flight from it. -/
theorem InFlight.rest_nil {talk rest : List β} (h : InFlight closes b a talk rest)
    (hnil : a.emitted = []) : rest = [] :=
  (List.append_eq_nil_iff.1 (h.emitted_eq.symm.trans hnil)).2

/-- A party in the middle of the dialogue takes only what belongs to it. -/
theorem InFlight.length_le {room : ℕ} {k : { xs : List β // xs.length ≤ room } → Party β R E α}
    {env : σ} {talk talkB rest more : List β} (xs : { xs : List β // xs.length ≤ room })
    (h : InFlight closes a b talk rest) (hinbox : a.peer.inbox = xs.val ++ more)
    (hm : Matched answer closes ra rb ⟨.await (.recv room) k, env, talk⟩
      { b.peer with inbox := talkB }) :
    xs.val.length ≤ talk.length := by
  by_cases hnil : rest = []
  · have hlen := congrArg List.length (hinbox.symm.trans h.inbox_eq)
    rw [hnil, List.append_nil, List.length_append] at hlen
    omega
  · obtain ⟨c, hc, hstays⟩ := h.through (by simp [h.emitted_eq, hnil])
    exact xs.property.trans (hm.room_le hc hstays)

/-- **The dialogue goes on** in front of the sequel: symbols of the sequel stay behind those of the
dialogue. -/
theorem Apart.dialogue {p q : Peer β R E σ α} (h : Apart answer closes ra rb a b)
    (hmove : Dialogue.Move answer closes a.peer b.peer p q) :
    Apart answer closes ra rb { a with peer := p } { b with peer := q } := by
  obtain ⟨talkA, talkB, restA, restB, hA, hB, hm⟩ := h
  obtain ⟨peerA, emittedA, takenA⟩ := a
  obtain ⟨peerB, emittedB, takenB⟩ := b
  dsimp only at hmove hm
  -- a party that moves in the dialogue has nothing of the sequel on the channel
  have hsent : (∀ c, peerA.prog ≠ .done c) → emittedA = [] ∧ restB = [] := fun hop =>
    ⟨hB.emitted_nil hop, hB.rest_nil (hB.emitted_nil hop)⟩
  cases hmove with
  | ask =>
    obtain ⟨rfl, rfl⟩ := hsent fun c hc => by cases hc
    exact ⟨talkA, talkB, restA, [], ⟨hA.inbox_eq, hA.emitted_eq, hA.through⟩,
      ⟨hB.inbox_eq, hB.emitted_eq, fun hne => absurd rfl hne⟩, hm.move .ask⟩
  | @recv room k env _ xs rest hxs =>
    obtain ⟨rfl, rfl⟩ := hsent fun c hc => by cases hc
    have hle := hA.length_le xs rfl hm
    have hinbox : xs.val ++ rest = talkA ++ restA := hA.inbox_eq
    obtain ⟨more, rfl⟩ := List.prefix_of_prefix_length_le (List.prefix_append xs.val rest)
      (hinbox ▸ List.prefix_append talkA restA) hle
    rw [List.append_assoc, List.append_cancel_left_eq] at hinbox
    exact ⟨more, talkB, restA, [], ⟨hinbox, hA.emitted_eq, hA.through⟩,
      ⟨hB.inbox_eq, hB.emitted_eq, fun hne => absurd rfl hne⟩, hm.recv hxs⟩
  | eof hleft =>
    obtain ⟨rfl, rfl⟩ := hsent fun c hc => by cases hc
    obtain ⟨rfl, rfl⟩ := List.append_eq_nil_iff.1 hA.inbox_eq.symm
    exact ⟨[], talkB, [], [], ⟨rfl, hA.emitted_eq, hA.through⟩,
      ⟨hB.inbox_eq, hB.emitted_eq, fun hne => absurd rfl hne⟩, hm.eof hleft⟩
  | @send xs k env inbox _ n hn hleft =>
    obtain ⟨rfl, rfl⟩ := hsent fun c hc => by cases hc
    have hin := hB.inbox_eq
    rw [List.append_nil] at hin
    have hstays : ¬ ({ peerB with inbox := talkB } : Peer β R E σ α).HasLeft closes := hleft
    refine ⟨talkA, talkB ++ xs.take n.val, restA, [], ⟨hA.inbox_eq, hA.emitted_eq, hA.through⟩,
      ⟨?_, hB.emitted_eq, fun hne => absurd rfl hne⟩, hm.send hn hstays⟩
    rw [List.append_nil]
    exact congrArg (· ++ xs.take n.val) hin
  | lost ans hleft =>
    obtain ⟨rfl, rfl⟩ := hsent fun c hc => by cases hc
    exact ⟨talkA, talkB, restA, [], ⟨hA.inbox_eq, hA.emitted_eq, hA.through⟩,
      ⟨hB.inbox_eq, hB.emitted_eq, fun hne => absurd rfl hne⟩, hm.lost ans hleft⟩

/-- A party that is through has taken and in flight what the other one has sent since. -/
theorem Apart.exact (h : Apart answer closes ra rb a b) {c : α} (hc : a.peer.prog = .done c) :
    b.emitted = a.taken ++ a.peer.inbox := by
  obtain ⟨talkA, talkB, restA, restB, hA, -, hm⟩ := h
  obtain rfl : talkA = [] := hm.inbox_of_done hc
  rw [hA.inbox_eq]
  exact hA.emitted_eq

/-- A party that has come to its end has the result of its script. -/
theorem Apart.result (h : Apart answer closes ra rb a b) {c : α} (hc : a.peer.prog = .done c) :
    c = ra := by
  obtain ⟨talkA, talkB, restA, restB, -, -, hm⟩ := h
  exact hm.result hc

/-- Sending behind the dialogue. -/
theorem Apart.emit (h : Apart answer closes ra rb a b) (ha : a.Through closes) (xs : List β) :
    Apart answer closes ra rb { a with emitted := a.emitted ++ xs }
      { b with peer := { b.peer with inbox := b.peer.inbox ++ xs } } := by
  obtain ⟨talkA, talkB, restA, restB, hA, hB, hm⟩ := h
  refine ⟨talkA, talkB, restA, restB ++ xs, ⟨hA.inbox_eq, hA.emitted_eq, hA.through⟩,
    ⟨?_, ?_, fun _ => ha⟩, hm⟩
  · rw [← List.append_assoc, ← hB.inbox_eq]
  · rw [← List.append_assoc, ← hB.emitted_eq]

/-- Taking behind the dialogue: what a party takes then is of the sequel. -/
theorem Apart.take {xs rest : List β} (h : Apart answer closes ra rb a b)
    (ha : a.Through closes) (hinbox : a.peer.inbox = xs ++ rest) :
    Apart answer closes ra rb
      { a with peer := { a.peer with inbox := rest }, taken := a.taken ++ xs } b := by
  obtain ⟨c, hc, -⟩ := ha
  have hexact := h.exact hc
  obtain ⟨talkA, talkB, restA, restB, hA, hB, hm⟩ := h
  obtain rfl : talkA = [] := hm.inbox_of_done hc
  refine ⟨[], talkB, rest, restB, ⟨rfl, ?_, hA.through⟩, ⟨hB.inbox_eq, hB.emitted_eq, hB.through⟩,
    hm⟩
  rw [List.append_assoc, ← hinbox]
  exact hexact

/-- **One step** keeps the parts apart. -/
theorem Apart.move (h : Apart answer closes ra rb a b) (hmove : Move answer closes a b a' b') :
    Apart answer closes ra rb a' b' := by
  cases hmove with
  | dialogue hmove => exact h.dialogue hmove
  | emit xs ha => exact h.emit ha xs
  | take xs rest ha hinbox => exact h.take ha hinbox

/-- Symbols of the sequel do not hold up a party: it can move whenever it could without them. -/
theorem Apart.canMove {talkA talkB restA : List β} (hA : InFlight closes a b talkA restA)
    (h : CanMove answer closes { a.peer with inbox := talkA } { b.peer with inbox := talkB }) :
    CanMove answer closes a.peer b.peer := by
  obtain ⟨p, q, hmove⟩ := h
  obtain ⟨⟨prog, env, inbox⟩, emitted, taken⟩ := a
  obtain rfl : inbox = talkA ++ restA := hA.inbox_eq
  dsimp only at hmove ⊢
  generalize hb : ({ b.peer with inbox := talkB } : Peer β R E σ α) = you at hmove
  cases hmove with
  | ask => exact ⟨_, _, .ask⟩
  | recv xs rest hxs =>
    rw [List.append_assoc]
    exact ⟨_, _, .recv xs _ hxs⟩
  | eof hleft =>
    subst hb
    -- a party that has left has sent nothing behind the dialogue
    have hnil : restA = [] := by
      by_contra hne
      obtain ⟨c, hc, hstays⟩ := hA.through (by simp [hA.emitted_eq, hne])
      obtain ⟨c', hc', hcloses⟩ := hleft
      cases hc.symm.trans hc'
      exact hstays hcloses
    subst hnil
    exact ⟨_, _, .eof hleft⟩
  | send n hn hleft => exact ⟨_, _, .send n hn (by subst hb; exact hleft)⟩
  | lost ans hleft => exact ⟨_, _, .lost ans (by subst hb; exact hleft)⟩

/-- **Progress**: both parties have come to their ends, or one of them can move in the dialogue. -/
theorem Apart.progress (h : Apart answer closes ra rb a b) :
    (a.peer.prog = .done ra ∧ b.peer.prog = .done rb) ∨ CanMove answer closes a.peer b.peer ∨
      CanMove answer closes b.peer a.peer := by
  obtain ⟨talkA, talkB, restA, restB, hA, hB, hm⟩ := h
  rcases hm.progress with hdone | hmove | hmove
  · exact .inl hdone
  · exact .inr (.inl (Apart.canMove hA hmove))
  · exact .inr (.inr (Apart.canMove hB hmove))

end Apart

end Sequel
