import Mathlib.Order.GameAdd
import Ogurpchik.Async
import Ogurpchik.Transition

/-!
# Two Parties and a Channel

Two programs talk over a reliable channel in each direction: symbols arrive in order, in any
pieces, and none is lost while the receiver is there. A party whose result closes its end leaves:
the other one reads what was sent before and then the end of the stream, and what it still sends
may be lost or refused.

What a party does with a given conversation is written as a *script*, the sequence of symbols it
sends and receives. A party `Plays` a script if it follows it however the symbols are cut into
pieces. Two scripts are `Dual` when they are the two sides of one conversation. Parties that play
dual scripts never wait for each other, and each run of them ends with the results the scripts
lead to, under every interleaving.

## Main definitions

* `Op`, `Party`: programs that receive, send and ask their own environment.
* `Peer`, `Move`, `Step`: the two parties with what is in flight.
* `Act`, `Plays`, `Dual`: scripts, parties that follow them, and matching scripts.

## Main results

* `Plays.bind`: scripts of a sequence.
* `Matched.step`, `Matched.progress`: one step keeps the parties matched, and one can move.
* `Matched.inevitable`: **dual scripts are played to their end**, under every interleaving.
-/

namespace Dialogue

open Async Transition

/-! ### The parties -/

/-- What a party awaits: symbols, the sending of symbols, an answer of its own environment. -/
inductive Op (β Q : Type)
  | recv (room : ℕ)
  | send (xs : List β)
  | ask (q : Q)

/-- The answers. No symbols received mean the end of the stream; sending takes some of the
symbols. -/
abbrev Op.Ans {β Q : Type} (R : Q → Type) (E : Type) : Op β Q → Type
  | recv room => { xs : List β // xs.length ≤ room }
  | send xs => Except E { n : ℕ // n ≤ xs.length }
  | ask q => R q

variable {β Q E σ α γ : Type} {R : Q → Type}

/-- A program that takes part in a dialogue: it sends symbols to its peer, receives them in pieces,
and asks its own surroundings. -/
abbrev Party (β : Type) {Q : Type} (R : Q → Type) (E α : Type) : Type :=
  Prog (Op β Q) (Op.Ans R E) α

/-- A party with its environment and the symbols in flight to it. What it has sent is with its peer,
in the order it was sent. -/
structure Peer (β : Type) {Q : Type} (R : Q → Type) (E σ α : Type) where
  prog : Party β R E α
  env : σ
  inbox : List β

section Steps

variable (answer : σ → (q : Q) → R q × σ) (closes : α → Prop)

/-- The party has returned a result that closes its end: nothing more will be sent, and what is sent
to it is lost. -/
def Peer.HasLeft (p : Peer β R E σ α) : Prop := ∃ a, p.prog = .done a ∧ closes a

/-- `Move answer closes me you me' you'`: one operation of `me` is answered. A receive takes any
piece of what is in flight, or the end of the stream once the peer has left and nothing is in
flight; a send may be cut short by a peer that has left. -/
inductive Move : Peer β R E σ α → Peer β R E σ α → Peer β R E σ α → Peer β R E σ α → Prop
  | ask {q : Q} {k : R q → Party β R E α} {env : σ} {inbox : List β} {you : Peer β R E σ α} :
      Move ⟨.await (.ask q) k, env, inbox⟩ you ⟨k (answer env q).1, (answer env q).2, inbox⟩ you
  | recv {room : ℕ} {k : { xs : List β // xs.length ≤ room } → Party β R E α} {env : σ}
      {you : Peer β R E σ α} (xs : { xs : List β // xs.length ≤ room }) (rest : List β)
      (h : xs.val ≠ [] ∨ room = 0) :
      Move ⟨.await (.recv room) k, env, xs.val ++ rest⟩ you ⟨k xs, env, rest⟩ you
  | eof {room : ℕ} {k : { xs : List β // xs.length ≤ room } → Party β R E α} {env : σ}
      {you : Peer β R E σ α} (h : you.HasLeft closes) :
      Move ⟨.await (.recv room) k, env, []⟩ you ⟨k ⟨[], Nat.zero_le _⟩, env, []⟩ you
  | send {xs : List β} {k : Except E { n : ℕ // n ≤ xs.length } → Party β R E α} {env : σ}
      {inbox : List β} {you : Peer β R E σ α} (n : { n : ℕ // n ≤ xs.length })
      (hn : 0 < n.val ∨ xs = []) (h : ¬ you.HasLeft closes) :
      Move ⟨.await (.send xs) k, env, inbox⟩ you ⟨k (.ok n), env, inbox⟩
        { you with inbox := you.inbox ++ xs.take n.val }
  | lost {xs : List β} {k : Except E { n : ℕ // n ≤ xs.length } → Party β R E α} {env : σ}
      {inbox : List β} {you : Peer β R E σ α} (ans : Except E { n : ℕ // n ≤ xs.length })
      (h : you.HasLeft closes) :
      Move ⟨.await (.send xs) k, env, inbox⟩ you ⟨k ans, env, inbox⟩ you

/-- One party moves. The two take turns in any order, and nothing is assumed about how often each
comes to move. -/
inductive Step : Peer β R E σ α × Peer β R E σ α → Peer β R E σ α × Peer β R E σ α → Prop
  | left {a b a' b' : Peer β R E σ α} : Move answer closes a b a' b' → Step (a, b) (a', b')
  | right {a b a' b' : Peer β R E σ α} : Move answer closes b a b' a' → Step (a, b) (a', b')

end Steps

/-! ### Scripts -/

/-- What a party does next: send a symbol, receive one, receive the end of the stream, ask its
environment. After `lost` the other party has left, and what is sent may be lost. -/
inductive Act (β : Type)
  | out (b : β)
  | inp (b : β)
  | eof
  | ask
  | lost
  deriving DecidableEq

/-- `Plays answer p s script post`: the party `p` in the environment `s` follows the script,
however its symbols are cut into pieces, and returns with a result, an environment and a rest of
the script that satisfy `post`. -/
inductive Plays (answer : σ → (q : Q) → R q × σ) :
    Party β R E α → σ → List (Act β) → (α → σ → List (Act β) → Prop) → Prop
  | done {a : α} {s : σ} {script : List (Act β)} {post : α → σ → List (Act β) → Prop}
      (h : post a s script) : Plays answer (.done a) s script post
  | ask {q : Q} {k : R q → Party β R E α} {s : σ} {script : List (Act β)}
      {post : α → σ → List (Act β) → Prop}
      (h : Plays answer (k (answer s q).1) (answer s q).2 script post) :
      Plays answer (.await (.ask q) k) s (.ask :: script) post
  | recv {room : ℕ} {k : { xs : List β // xs.length ≤ room } → Party β R E α} {s : σ}
      {xs : List β} {script : List (Act β)} {post : α → σ → List (Act β) → Prop}
      (hroom : 0 < room) (hxs : room ≤ xs.length)
      (h : ∀ (ys : { ys : List β // ys.length ≤ room }) (rest : List β), ys.val ≠ [] →
        xs = ys.val ++ rest → Plays answer (k ys) s (rest.map .inp ++ script) post) :
      Plays answer (.await (.recv room) k) s (xs.map .inp ++ script) post
  | eof {room : ℕ} {k : { xs : List β // xs.length ≤ room } → Party β R E α} {s : σ}
      {script : List (Act β)} {post : α → σ → List (Act β) → Prop} (hroom : 0 < room)
      (h : Plays answer (k ⟨[], Nat.zero_le _⟩) s script post) :
      Plays answer (.await (.recv room) k) s (.eof :: script) post
  | send {xs : List β} {k : Except E { n : ℕ // n ≤ xs.length } → Party β R E α} {s : σ}
      {script : List (Act β)} {post : α → σ → List (Act β) → Prop} (hxs : xs ≠ [])
      (h : ∀ n : { n : ℕ // n ≤ xs.length }, 0 < n.val →
        Plays answer (k (.ok n)) s ((xs.drop n.val).map .out ++ script) post) :
      Plays answer (.await (.send xs) k) s (xs.map .out ++ script) post
  | lost {xs : List β} {k : Except E { n : ℕ // n ≤ xs.length } → Party β R E α} {s : σ}
      {post : α → σ → List (Act β) → Prop}
      (h : ∀ ans, Plays answer (k ans) s [.lost] post) :
      Plays answer (.await (.send xs) k) s [.lost] post

/-- The party has come to the end of its script with the result `a`. What is left of the script can
only be the loss of what was sent to a peer that has left. -/
def Ends (a : α) (b : α) (_ : σ) (script : List (Act β)) : Prop :=
  b = a ∧ (script = [] ∨ script = [.lost])

section Plays

variable {answer : σ → (q : Q) → R q × σ} {s : σ} {script : List (Act β)}

/-- **Scripts of a sequence**: what follows plays the rest of the script. -/
theorem Plays.bind {p : Party β R E α} {f : α → Party β R E γ}
    {post : γ → σ → List (Act β) → Prop}
    (h : Plays answer p s script fun a s' rest => Plays answer (f a) s' rest post) :
    Plays answer (p.bind f) s script post := by
  generalize hpost : (fun a s' rest => Plays answer (f a) s' rest post) = mid at h
  induction h with
  | done h =>
    subst hpost
    exact h
  | ask _ ih => exact .ask (ih hpost)
  | recv hroom hxs _ ih => exact .recv hroom hxs fun ys rest hne heq => ih ys rest hne heq hpost
  | eof hroom _ ih => exact .eof hroom (ih hpost)
  | send hxs _ ih => exact .send hxs fun n hn => ih n hn hpost
  | lost _ ih => exact .lost fun ans => ih ans hpost

/-- What a party is known to end with may be weakened. Induction on the script that is played. -/
theorem Plays.mono {p : Party β R E α} {post post' : α → σ → List (Act β) → Prop}
    (h : Plays answer p s script post) (himp : ∀ a s rest, post a s rest → post' a s rest) :
    Plays answer p s script post' := by
  induction h with
  | done h => exact .done (himp _ _ _ h)
  | ask _ ih => exact .ask (ih himp)
  | recv hroom hxs _ ih => exact .recv hroom hxs fun ys rest hne heq => ih ys rest hne heq himp
  | eof hroom _ ih => exact .eof hroom (ih himp)
  | send hxs _ ih => exact .send hxs fun n hn => ih n hn himp
  | lost _ ih => exact .lost fun ans => ih ans himp

/-- Only a party that has returned plays the empty script: every operation has to be in it. -/
theorem Plays.eq_done {p : Party β R E α} {a : α} (h : Plays answer p s [] (Ends a)) :
    p = .done a := by
  generalize hscript : ([] : List (Act β)) = script' at h
  cases h with
  | done h => rw [h.1]
  | ask _ | eof _ _ | lost _ => cases hscript
  | recv hroom hxs _ =>
    have := congrArg List.length hscript
    simp at this
    omega
  | send hxs _ =>
    rw [eq_comm, List.append_eq_nil_iff, List.map_eq_nil_iff] at hscript
    exact absurd hscript.1 hxs

/-- The end of the script of a party that has returned. -/
theorem Plays.done_inv {a b : α} (h : Plays answer (.done b : Party β R E α) s script (Ends a)) :
    b = a ∧ (script = [] ∨ script = [.lost]) := by
  cases h with
  | done h => exact h

end Plays

/-! ### Matching scripts -/

/-- `Dual cl cr l r`: the scripts `l` and `r` are the two sides of one conversation, where `cl`
and `cr` say that the left and the right party leave at their end. A party may expect the other
one to have left only once it has received the last of what that one sends: `lost` stands behind
something received. -/
inductive Dual (cl cr : Prop) : List (Act β) → List (Act β) → Prop
  | nil : Dual cl cr [] []
  | outL {b : β} {l r : List (Act β)} (hl : l ≠ [.lost]) :
      Dual cl cr l r → Dual cl cr (.out b :: l) (.inp b :: r)
  | outR {b : β} {l r : List (Act β)} (hr : r ≠ [.lost]) :
      Dual cl cr l r → Dual cl cr (.inp b :: l) (.out b :: r)
  | askL {l r : List (Act β)} (hl : l ≠ [.lost]) (hr : r ≠ [.lost]) :
      Dual cl cr l r → Dual cl cr (.ask :: l) r
  | askR {l r : List (Act β)} (hl : l ≠ [.lost]) (hr : r ≠ [.lost]) :
      Dual cl cr l r → Dual cl cr l (.ask :: r)
  | eofL {l : List (Act β)} (hcr : cr) : Dual cl cr l [] → Dual cl cr (.eof :: l) []
  | eofR {r : List (Act β)} (hcl : cl) : Dual cl cr [] r → Dual cl cr [] (.eof :: r)
  | lostL (hcr : cr) : Dual cl cr [.lost] []
  | lostR (hcl : cl) : Dual cl cr [] [.lost]

namespace Dual

variable {cl cr : Prop} {l r : List (Act β)}

/-- Which of two dual scripts is called the left one does not matter. -/
theorem symm (h : Dual cl cr l r) : Dual cr cl r l := by
  induction h with
  | nil => exact .nil
  | outL hl _ ih => exact .outR hl ih
  | outR hr _ ih => exact .outL hr ih
  | askL hl hr _ ih => exact .askR hr hl ih
  | askR hl hr _ ih => exact .askL hr hl ih
  | eofL hcr _ ih => exact .eofR hcr ih
  | eofR hcl _ ih => exact .eofL hcl ih
  | lostL hcr => exact .lostR hcr
  | lostR hcl => exact .lostL hcl

/-- Something sent is received next, but for questions. -/
theorem out_inv {b : β} (h : Dual cl cr (.out b :: l) r) :
    ∃ r', r = .inp b :: r' ∨ r = .ask :: r' := by
  cases h with
  | outL _ _ => exact ⟨_, .inl rfl⟩
  | askR _ _ _ => exact ⟨_, .inr rfl⟩

/-- Symbols in flight in one direction exclude symbols in flight in the other. -/
theorem nil_of_in_flight {xs ys : List β} (hys : ys ≠ [])
    (h : Dual cl cr (xs.map .out ++ l) (ys.map .out ++ r)) : xs = [] := by
  cases xs with
  | nil => rfl
  | cons x xs =>
    obtain ⟨y, ys, rfl⟩ := List.exists_cons_of_ne_nil hys
    obtain ⟨r', h | h⟩ := h.out_inv <;> cases h

/-- Nothing is in flight to a party that has left: its script is empty, and has no place for a
symbol. -/
theorem nil_of_left {xs ys : List β} (hr : r = [] ∨ r = [.lost])
    (h : Dual cl cr (xs.map .out ++ l) (ys.map .out ++ r)) : xs = [] := by
  cases ys with
  | cons y ys => exact h.nil_of_in_flight (List.cons_ne_nil _ _)
  | nil =>
    cases xs with
    | nil => rfl
    | cons x xs =>
      obtain ⟨r', h | h⟩ := h.out_inv <;> rcases hr with rfl | rfl <;> cases h

/-- Symbols in flight do not make a script `lost`. -/
theorem out_append_ne_lost (xs : List β) (hl : l ≠ [.lost]) : xs.map .out ++ l ≠ [.lost] := by
  cases xs with
  | nil => exact hl
  | cons x xs => exact nofun

/-- A question behind symbols in flight can be answered first, since the other party does not see
it. -/
theorem ask_behind {xs : List β} (h : Dual cl cr (xs.map .out ++ .ask :: l) r) :
    Dual cl cr (xs.map .out ++ l) r ∧ l ≠ [.lost] := by
  generalize hl' : xs.map .out ++ .ask :: l = l' at h
  induction h generalizing xs with
  | nil | eofL _ _ _ | eofR _ _ _ | lostL _ | lostR _ | outR _ _ _ => cases xs <;> cases hl'
  | outL _ _ ih =>
    cases xs with
    | nil => cases hl'
    | cons x xs =>
      cases hl'
      obtain ⟨hdual, hl⟩ := ih rfl
      exact ⟨.outL (out_append_ne_lost xs hl) hdual, hl⟩
  | askL hl _ hdual _ =>
    cases xs with
    | nil =>
      cases hl'
      exact ⟨hdual, hl⟩
    | cons x xs => cases hl'
  | askR _ hr _ ih =>
    obtain ⟨hdual, hl⟩ := ih hl'
    exact ⟨.askR (out_append_ne_lost xs hl) hr hdual, hl⟩

/-- A party that waits for symbols gets those the script has, in order and as many as have been
sent. -/
theorem recv_inv {xs ys : List β} (hlen : ys.length ≤ xs.length)
    (h : Dual cl cr (xs.map .inp ++ l) (ys.map .out ++ r)) :
    ∃ rest, xs = ys ++ rest ∧ Dual cl cr (rest.map .inp ++ l) r := by
  induction ys generalizing xs with
  | nil => exact ⟨xs, rfl, h⟩
  | cons y ys ih =>
    cases xs with
    | nil => simp at hlen
    | cons x xs =>
      cases h with
      | outR _ h =>
        obtain ⟨rest, rfl, hrest⟩ := ih (Nat.le_of_succ_le_succ hlen) h
        exact ⟨rest, rfl, hrest⟩

/-- With nothing in flight to it, a party whose script is `lost` faces one that has left. -/
theorem lost_inv {xs : List β} (h : Dual cl cr (xs.map .out ++ [.lost]) r) :
    xs = [] ∧ r = [] ∧ cr := by
  generalize hl' : xs.map Act.out ++ [Act.lost] = l' at h
  induction h generalizing xs with
  | nil | eofL _ _ _ | eofR _ _ _ | lostR _ | outR _ _ _ | askL _ _ _ _ => cases xs <;> cases hl'
  | lostL hcr =>
    cases xs with
    | nil => exact ⟨rfl, rfl, hcr⟩
    | cons x xs => simp at hl'
  | outL hl _ ih =>
    cases xs with
    | nil => cases hl'
    | cons x xs =>
      cases hl'
      obtain ⟨rfl, -⟩ := ih rfl
      exact absurd rfl hl
  | askR hl _ _ ih =>
    obtain ⟨rfl, -⟩ := ih hl'
    exact absurd hl'.symm hl

/-- A party that has left is not waited for in vain: its symbols were received. -/
theorem not_inp_of_left {x : β} (hr : r = [] ∨ r = [.lost]) : ¬ Dual cl cr (.inp x :: l) r := by
  intro h
  rcases hr with rfl | rfl <;> cases h

/-- The end of the stream is received from a party that has left. -/
theorem eof_inv (hr : r = [] ∨ r = [.lost]) (h : Dual cl cr (.eof :: l) r) :
    r = [] ∧ Dual cl cr l [] := by
  rcases hr with rfl | rfl
  · cases h with
    | eofL _ h => exact ⟨rfl, h⟩
  · cases h

/-- Questions match whatever the other party does, unless one of the two was left by the other. -/
theorem asks (n : ℕ) (hl : l ≠ [.lost]) (hr : r ≠ [.lost]) (h : Dual cl cr l r) :
    Dual cl cr (List.replicate n .ask ++ l) r := by
  induction n with
  | zero => exact h
  | succ n ih =>
    rw [List.replicate_succ]
    refine .askL ?_ hr ih
    cases n with
    | zero => exact hl
    | succ n => exact nofun

/-- What the left party sends, the right one receives. -/
theorem outs (xs : List β) (hl : l ≠ [.lost]) (h : Dual cl cr l r) :
    Dual cl cr (xs.map .out ++ l) (xs.map .inp ++ r) := by
  induction xs with
  | nil => exact h
  | cons x xs ih => exact .outL (out_append_ne_lost xs hl) ih

/-- What the right party sends, the left one receives. -/
theorem inps (xs : List β) (hr : r ≠ [.lost]) (h : Dual cl cr l r) :
    Dual cl cr (xs.map .inp ++ l) (xs.map .out ++ r) :=
  (outs xs hr h.symm).symm

end Dual

/-! ### Parties that play dual scripts -/

section Matched

variable {answer : σ → (q : Q) → R q × σ} {closes : α → Prop} {a b a' b' : Peer β R E σ α}
  {ra rb : α}

/-- The two parties play dual scripts that lead to the results `ra` and `rb`. What a party has
sent and the other one has not received yet counts as still to be sent. -/
def Matched (answer : σ → (q : Q) → R q × σ) (closes : α → Prop) (ra rb : α)
    (a b : Peer β R E σ α) : Prop :=
  ∃ l r, Plays answer a.prog a.env l (Ends ra) ∧ Plays answer b.prog b.env r (Ends rb) ∧
    Dual (closes ra) (closes rb) (b.inbox.map .out ++ l) (a.inbox.map .out ++ r)

/-- Nor does it matter which of two parties at matching points comes first. -/
theorem Matched.symm (h : Matched answer closes ra rb a b) : Matched answer closes rb ra b a := by
  obtain ⟨l, r, hl, hr, hdual⟩ := h
  exact ⟨r, l, hr, hl, hdual.symm⟩

/-- The script of a party that has left. -/
theorem Peer.HasLeft.script {script : List (Act β)} (h : b.HasLeft closes)
    (hplays : Plays answer b.prog b.env script (Ends rb)) : script = [] ∨ script = [.lost] := by
  obtain ⟨c, hc, -⟩ := h
  rw [hc] at hplays
  exact hplays.done_inv.2

/-- Receiving symbols keeps the parties matched: they are taken off the script and off the
channel. -/
theorem Matched.recv {room : ℕ} {k : { xs : List β // xs.length ≤ room } → Party β R E α} {env : σ}
    {xs : { xs : List β // xs.length ≤ room }} {rest : List β} (hxs : xs.val ≠ [] ∨ room = 0)
    (h : Matched answer closes ra rb ⟨.await (.recv room) k, env, xs.val ++ rest⟩ b) :
    Matched answer closes ra rb ⟨k xs, env, rest⟩ b := by
  obtain ⟨l, r, hl, hr, hdual⟩ := h
  cases hl with
  | recv hroom hlen hl =>
    have hne : xs.val ≠ [] := hxs.resolve_right hroom.ne'
    have hinbox : b.inbox = [] := hdual.nil_of_in_flight (by simp [hne])
    rw [hinbox, List.map_nil, List.nil_append, List.map_append, List.append_assoc] at hdual
    obtain ⟨more, heq, hdual⟩ := hdual.recv_inv (xs.property.trans hlen)
    refine ⟨_, r, hl xs more hne heq, hr, ?_⟩
    rw [hinbox]
    exact hdual
  | eof hroom hl =>
    -- nothing is received once the other party has left
    have hne : xs.val ≠ [] := hxs.resolve_right hroom.ne'
    have hinbox : b.inbox = [] := hdual.nil_of_in_flight (by simp [hne])
    obtain ⟨x, ys, hcons⟩ := List.exists_cons_of_ne_nil hne
    rw [hinbox, hcons] at hdual
    cases hdual

/-- Receiving the end of the stream keeps the parties matched: the script has it next. -/
theorem Matched.eof {room : ℕ} {k : { xs : List β // xs.length ≤ room } → Party β R E α} {env : σ}
    (hleft : b.HasLeft closes)
    (h : Matched answer closes ra rb ⟨.await (.recv room) k, env, []⟩ b) :
    Matched answer closes ra rb ⟨k ⟨[], Nat.zero_le _⟩, env, []⟩ b := by
  obtain ⟨l, r, hl, hr, hdual⟩ := h
  have hscript := hleft.script hr
  have hinbox : b.inbox = [] := hdual.nil_of_left hscript
  rw [hinbox] at hdual
  cases hl with
  | @recv _ _ _ xs _ _ hroom hlen hl =>
    -- the symbols of the script would still have to be sent
    obtain ⟨x, xs, rfl⟩ := List.exists_cons_of_length_pos (hroom.trans_le hlen)
    exact absurd hdual (Dual.not_inp_of_left hscript)
  | eof hroom hl =>
    obtain ⟨rfl, hrest⟩ := hdual.eof_inv hscript
    refine ⟨_, [], hl, hr, ?_⟩
    rw [hinbox]
    exact hrest

/-- Sending keeps the parties matched: what was sent is now in flight, and no longer to be sent. -/
theorem Matched.send {xs : List β} {k : Except E { n : ℕ // n ≤ xs.length } → Party β R E α}
    {env : σ} {inbox : List β} {n : { n : ℕ // n ≤ xs.length }} (hn : 0 < n.val ∨ xs = [])
    (hleft : ¬ b.HasLeft closes)
    (h : Matched answer closes ra rb ⟨.await (.send xs) k, env, inbox⟩ b) :
    Matched answer closes ra rb ⟨k (.ok n), env, inbox⟩
      { b with inbox := b.inbox ++ xs.take n.val } := by
  obtain ⟨l, r, hl, hr, hdual⟩ := h
  cases hl with
  | send hxs hl =>
    refine ⟨_, r, hl n (hn.resolve_right hxs), hr, ?_⟩
    rw [List.map_append, List.append_assoc, ← List.append_assoc (List.map _ (xs.take _)),
      ← List.map_append, List.take_append_drop]
    exact hdual
  | lost hl =>
    -- the other party has left, so nothing is sent to it
    obtain ⟨-, hnil, hcloses⟩ := hdual.lost_inv
    obtain ⟨-, rfl⟩ := List.append_eq_nil_iff.1 hnil
    exact absurd ⟨rb, hr.eq_done, hcloses⟩ hleft

/-- Sending to a party that has left keeps the parties matched, whatever the answer is. -/
theorem Matched.lost {xs : List β} {k : Except E { n : ℕ // n ≤ xs.length } → Party β R E α}
    {env : σ} {inbox : List β} (ans : Except E { n : ℕ // n ≤ xs.length })
    (hleft : b.HasLeft closes)
    (h : Matched answer closes ra rb ⟨.await (.send xs) k, env, inbox⟩ b) :
    Matched answer closes ra rb ⟨k ans, env, inbox⟩ b := by
  obtain ⟨l, r, hl, hr, hdual⟩ := h
  have hscript := hleft.script hr
  cases hl with
  | send hxs hl =>
    rw [← List.append_assoc, ← List.map_append] at hdual
    exact absurd (List.append_eq_nil_iff.1 (hdual.nil_of_left hscript)).2 hxs
  | lost hl => exact ⟨_, r, hl ans, hr, hdual⟩

/-- **One step** keeps the parties matched: one case for each operation and each answer to it. -/
theorem Matched.move (h : Matched answer closes ra rb a b) (hmove : Move answer closes a b a' b') :
    Matched answer closes ra rb a' b' := by
  cases hmove with
  | ask =>
    obtain ⟨l, r, hl, hr, hdual⟩ := h
    cases hl with
    | ask hl => exact ⟨_, r, hl, hr, hdual.ask_behind.1⟩
  | recv xs rest hxs => exact h.recv hxs
  | eof hleft => exact h.eof hleft
  | send n hn hleft => exact h.send hn hleft
  | lost ans hleft => exact h.lost ans hleft

/-- A move of either party keeps the two at matching points; with it the invariant holds along a
dialogue. -/
theorem Matched.step {s t : Peer β R E σ α × Peer β R E σ α}
    (h : Matched answer closes ra rb s.1 s.2) (hstep : Step answer closes s t) :
    Matched answer closes ra rb t.1 t.2 := by
  cases hstep with
  | left hmove => exact h.move hmove
  | right hmove => exact (h.symm.move hmove).symm

/-! ### Progress -/

/-- A party can move: it is not waiting for symbols that have not been sent yet. -/
def CanMove (answer : σ → (q : Q) → R q × σ) (closes : α → Prop) (a b : Peer β R E σ α) : Prop :=
  ∃ a' b', Move answer closes a b a' b'

/-- A party whose script asks its environment next can move: the environment always answers. -/
theorem canMove_of_ask {l : List (Act β)} (h : Plays answer a.prog a.env (.ask :: l) (Ends ra)) :
    CanMove answer closes a b := by
  obtain ⟨prog, env, inbox⟩ := a
  generalize hscript : Act.ask :: l = script at h
  cases h with
  | done h => rcases h with ⟨-, rfl | rfl⟩ <;> cases hscript
  | ask _ => exact ⟨_, _, .ask⟩
  | recv hroom hlen _ =>
    obtain ⟨x, xs, rfl⟩ := List.exists_cons_of_length_pos (hroom.trans_le hlen)
    cases hscript
  | eof _ _ | lost _ => cases hscript
  | send hxs _ =>
    obtain ⟨x, xs, rfl⟩ := List.exists_cons_of_ne_nil hxs
    cases hscript

/-- A party at a send can move: the other one takes a symbol or has left. -/
theorem canMove_of_send {xs : List β} {k : Except E { n : ℕ // n ≤ xs.length } → Party β R E α}
    {env : σ} {inbox : List β} (hxs : xs ≠ []) :
    CanMove answer closes ⟨.await (.send xs) k, env, inbox⟩ b := by
  have hpos := List.length_pos_iff.mpr hxs
  by_cases hleft : b.HasLeft closes
  · exact ⟨_, _, .lost (.ok ⟨0, Nat.zero_le _⟩) hleft⟩
  · exact ⟨_, _, .send ⟨1, hpos⟩ (.inl Nat.one_pos) hleft⟩

/-- A party whose script sends next can move: a write takes as many bytes as it likes. -/
theorem canMove_of_out {x : β} {l : List (Act β)}
    (h : Plays answer a.prog a.env (.out x :: l) (Ends ra)) : CanMove answer closes a b := by
  obtain ⟨prog, env, inbox⟩ := a
  generalize hscript : Act.out x :: l = script at h
  cases h with
  | done h => rcases h with ⟨-, rfl | rfl⟩ <;> cases hscript
  | ask _ | eof _ _ | lost _ => cases hscript
  | recv hroom hlen _ =>
    obtain ⟨y, ys, rfl⟩ := List.exists_cons_of_length_pos (hroom.trans_le hlen)
    cases hscript
  | send hxs _ => exact canMove_of_send hxs

/-- A party whose script goes on with something received waits for it. -/
theorem exists_recv {l : List (Act β)} {p : Party β R E α} {env : σ}
    (h : Plays answer p env l (Ends ra)) (hl : (∃ x l', l = .inp x :: l') ∨ ∃ l', l = .eof :: l') :
    ∃ room k, p = .await (.recv room) k ∧ 0 < room := by
  cases h with
  | done h => rcases h with ⟨-, rfl | rfl⟩ <;> simp at hl
  | ask _ | lost _ => simp at hl
  | recv hroom _ _ | eof hroom _ => exact ⟨_, _, rfl, hroom⟩
  | send hxs _ =>
    obtain ⟨y, ys, rfl⟩ := List.exists_cons_of_ne_nil hxs
    simp at hl

/-- A party whose script receives next can move if something has arrived. -/
theorem canMove_of_inp {x : β} {l : List (Act β)}
    (h : Plays answer a.prog a.env (.inp x :: l) (Ends ra)) (hinbox : a.inbox ≠ []) :
    CanMove answer closes a b := by
  obtain ⟨prog, env, inbox⟩ := a
  obtain ⟨room, k, rfl, hroom⟩ := exists_recv h (.inl ⟨x, l, rfl⟩)
  obtain ⟨y, ys, rfl⟩ := List.exists_cons_of_ne_nil hinbox
  exact ⟨_, _, .recv ⟨[y], hroom⟩ ys (.inl (List.cons_ne_nil _ _))⟩

/-- A party whose script meets the end of the stream can move once the other one has left and
nothing is under way. -/
theorem canMove_of_eof {l : List (Act β)}
    (h : Plays answer a.prog a.env (.eof :: l) (Ends ra)) (hinbox : a.inbox = [])
    (hleft : b.HasLeft closes) : CanMove answer closes a b := by
  obtain ⟨prog, env, inbox⟩ := a
  obtain ⟨room, k, rfl, hroom⟩ := exists_recv h (.inr ⟨l, rfl⟩)
  obtain rfl : inbox = [] := hinbox
  exact ⟨_, _, .eof hleft⟩

/-- A party that faces one that has left has returned or can move: it is told the end of the stream,
or that its symbols are lost. -/
theorem canMove_of_lost (h : Plays answer a.prog a.env [.lost] (Ends ra))
    (hleft : b.HasLeft closes) : a.prog = .done ra ∨ CanMove answer closes a b := by
  obtain ⟨prog, env, inbox⟩ := a
  generalize hscript : [Act.lost] = script at h
  cases h with
  | done h => exact .inl (by rw [h.1])
  | ask _ | eof _ _ => cases hscript
  | recv hroom hlen _ =>
    obtain ⟨y, ys, rfl⟩ := List.exists_cons_of_length_pos (hroom.trans_le hlen)
    cases hscript
  | send hxs _ => exact .inr (canMove_of_send hxs)
  | lost _ => exact .inr ⟨_, _, .lost (.ok ⟨0, Nat.zero_le _⟩) hleft⟩

/-- With symbols in flight to it, a party can move: it receives them, or does first what its script
has before them. -/
theorem Matched.canMove_of_inbox (h : Matched answer closes ra rb a b) (hinbox : b.inbox ≠ []) :
    CanMove answer closes b a := by
  obtain ⟨l, r, hl, hr, hdual⟩ := h
  have hnil : a.inbox = [] := hdual.symm.nil_of_in_flight hinbox
  obtain ⟨x, xs, hcons⟩ := List.exists_cons_of_ne_nil hinbox
  rw [hnil, hcons] at hdual
  obtain ⟨r', rfl | rfl⟩ := hdual.out_inv
  · exact canMove_of_inp hr hinbox
  · exact canMove_of_ask hr

/-- **Progress**: both parties have returned, or one of them can move. -/
theorem Matched.progress (h : Matched answer closes ra rb a b) :
    (a.prog = .done ra ∧ b.prog = .done rb) ∨ CanMove answer closes a b ∨
      CanMove answer closes b a := by
  by_cases hb : b.inbox = []
  swap
  · exact .inr (.inr (h.canMove_of_inbox hb))
  by_cases ha : a.inbox = []
  swap
  · exact .inr (.inl (h.symm.canMove_of_inbox ha))
  obtain ⟨l, r, hl, hr, hdual⟩ := h
  rw [ha, hb] at hdual
  cases hdual with
  | nil => exact .inl ⟨hl.eq_done, hr.eq_done⟩
  | outL _ _ => exact .inr (.inl (canMove_of_out hl))
  | outR _ _ => exact .inr (.inr (canMove_of_out hr))
  | askL _ _ _ => exact .inr (.inl (canMove_of_ask hl))
  | askR _ _ _ => exact .inr (.inr (canMove_of_ask hr))
  | eofL hcr _ => exact .inr (.inl (canMove_of_eof hl ha ⟨rb, hr.eq_done, hcr⟩))
  | eofR hcl _ => exact .inr (.inr (canMove_of_eof hr hb ⟨ra, hl.eq_done, hcl⟩))
  | lostL hcr =>
    rcases canMove_of_lost hl ⟨rb, hr.eq_done, hcr⟩ with hdone | hmove
    · exact .inl ⟨hdone, hr.eq_done⟩
    · exact .inr (.inl hmove)
  | lostR hcl =>
    rcases canMove_of_lost hr ⟨ra, hl.eq_done, hcl⟩ with hdone | hmove
    · exact .inl ⟨hl.eq_done, hdone⟩
    · exact .inr (.inr hmove)

/-- What a program does behind an answer is a part of it, which is what bounds a dialogue. -/
theorem child_await (op : Op β Q) (k : op.Ans R E → Party β R E α) (ans : op.Ans R E) :
    Prog.Child (k ans) (.await op k) := .intro ans

/-- A move goes one step down the program of the party that makes it, and leaves the other program
alone. -/
theorem Move.child (h : Move answer closes a b a' b') :
    Prog.Child a'.prog a.prog ∧ b'.prog = b.prog := by
  cases h with
  | @ask q k => exact ⟨child_await (Op.ask q) k _, rfl⟩
  | @recv room k | @eof room k => exact ⟨child_await (Op.recv room) k _, rfl⟩
  | @send xs k | @lost xs k => exact ⟨child_await (Op.send xs) k _, rfl⟩

/-- **Dual scripts are played to their end**: every run of matched parties ends, and both parties
have then returned the results of their scripts. -/
theorem Matched.inevitable (h : Matched answer closes ra rb a b) :
    Inevitable (Step answer closes)
      (fun s => s.1.prog = .done ra ∧ s.2.prog = .done rb) (a, b) := by
  have hchild : WellFounded (Prog.Child : Party β R E α → Party β R E α → Prop) := Prog.child_wf
  refine Inevitable.of_wellFounded (hchild.prod_gameAdd hchild) (fun s => (s.1.prog, s.2.prog))
    (fun s => Matched answer closes ra rb s.1 s.2) ?_ ?_ h
  · rintro ⟨a, b⟩ h
    rcases h.progress with hdone | ⟨a', b', hmove⟩ | ⟨b', a', hmove⟩
    · exact .inl hdone
    · exact .inr ⟨_, .left hmove⟩
    · exact .inr ⟨_, .right hmove⟩
  · rintro s t h hstep
    refine ⟨h.step hstep, ?_⟩
    cases hstep with
    | left hmove =>
      obtain ⟨hchild, hsame⟩ := hmove.child
      dsimp only
      rw [hsame]
      exact .fst hchild
    | right hmove =>
      obtain ⟨hchild, hsame⟩ := hmove.child
      dsimp only
      rw [hsame]
      exact .snd hchild

/-- A party that has returned in a run of matched parties has returned the result of its
script. -/
theorem Matched.result {c : α} (h : Matched answer closes ra rb a b) (hc : a.prog = .done c) :
    c = ra := by
  obtain ⟨l, r, hl, -, -⟩ := h
  rw [hc] at hl
  exact hl.done_inv.1

end Matched

end Dialogue
