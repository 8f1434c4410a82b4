import Mathlib.Data.List.Perm.Basic
import Mathlib.Data.List.Nodup
import Mathlib.Logic.Relation
import Ogurpchik.Handshake

/-!
# The Session Acceptor

`SessionAcceptor::next` waits for one of two things at a time: the accept in progress, or any of
the handshakes under way. Both are kept in the acceptor across calls, so a call that is dropped
while it waits loses neither. The module models the body of the loop as a function of what the
wait brings, and runs of the acceptor as a transition system: calls are made and dropped, the
listener delivers connections and errors, handshakes advance and settle, in any order.

Connections are numbered in the order the listener delivers them. A ledger beside the acceptor
records what became of each. The limit is set before the first call, any number of times; the
deadline is not modelled as a duration, since it may pass at any time.

## Main definitions

* `SessionAcceptor`, `SessionAcceptor.react`: the acceptor and the body of its loop.
* `State`, `Move`: the acceptor with a call in progress or not, and what can happen.
* `Inv`: what always holds.

## Main results

* `Inv.move`: one step keeps the invariant.
* `connections_conserved`: **no connection is lost or handed out twice**, the limit holds, and what
  is handed out has passed its handshake.
-/

namespace Ogurpchik

namespace Acceptor

open Async

/-- What a handshake returns: the version of the peer, or nothing where it is disabled, or its
fault. -/
abbrev HandshakeResult := Except HandshakeFault (Option Version)

/-- `TransportError`: the errors of a transport. An accept that fails is passed on by `next` as it
is. -/
inductive TransportError
  | bind
  | connect
  | accept
  | io

/-- The error of `next`: `RpcError::Setup`, over the error of the listener. A handshake that fails
is no error of `next`. -/
structure SetupReport where
  cause : TransportError

/-- A handshake under way on a connection: the connection, by its number, and what is left of the
code. -/
structure Handshake where
  conn : ℕ
  node : ConnProg HandshakeResult

/-- A session that was handed out: the connection, and the version of the protocol its peer
speaks. -/
structure RpcSession where
  conn : ℕ
  peerVersion : Option Version

/-- `DEFAULT_MAX_PENDING`: handshakes that may run at once, unless set otherwise. -/
def DEFAULT_MAX_PENDING : ℕ := 64

/-- The acceptor: whether an accept is in progress, and the handshakes under way. -/
structure SessionAcceptor where
  mode : HandshakeMode
  protocol : Protocol
  maxPending : ℕ
  accepting : Bool
  pending : List Handshake

/-- What the wait of `next` brings: the listener has delivered a connection or failed, or a
handshake has settled, with a session or without. -/
inductive Settlement
  | accepted (accepted : Except TransportError ℕ)
  | settled (settled : Option (ℕ × Option Version))

/-- How the loop goes on: it waits again, perhaps after dropping a connection, or it returns. -/
inductive Flow
  | again (a : SessionAcceptor)
  | dropping (a : SessionAcceptor) (conn : ℕ)
  | returned (a : SessionAcceptor) (r : Except SetupReport RpcSession)

namespace SessionAcceptor

variable (mac : Mac) (transport : Transport)

/-- `SessionAcceptor::new`: the default limit, no accept pending, and no handshake under way. -/
def new (mode : HandshakeMode) (protocol : Protocol) : SessionAcceptor :=
  ⟨mode, protocol, DEFAULT_MAX_PENDING, false, []⟩

/-- `max_pending`: the limit that is asked for, and at least one, so that the acceptor never refuses
everybody. -/
def setMaxPending (a : SessionAcceptor) (maxPending : ℕ) : SessionAcceptor :=
  { a with maxPending := max maxPending 1 }

/-- `authenticate_server` on a new connection, in the mode and with the protocol of the acceptor. -/
def handshake (a : SessionAcceptor) (conn : ℕ) : Handshake :=
  ⟨conn, onConn (authenticateServer mac transport a.mode a.protocol)⟩

/-- The beginning of a round: an accept is in progress, a new one or that of an earlier call which
was dropped. -/
def wait (a : SessionAcceptor) : SessionAcceptor := { a with accepting := true }

/-- The rest of a round. A connection that finds the acceptor full is dropped without a word, and a
handshake that comes to nothing ends neither the call nor the others. -/
def react (a : SessionAcceptor) : Settlement → Flow
  | .accepted (.error e) => .returned { a with accepting := false } (.error ⟨e⟩)
  | .accepted (.ok conn) =>
      if a.maxPending ≤ a.pending.length then .dropping { a with accepting := false } conn
      else
        .again { a with
          accepting := false
          pending := a.pending ++ [a.handshake mac transport conn] }
  | .settled (some (conn, peerVersion)) => .returned a (.ok ⟨conn, peerVersion⟩)
  | .settled none => .again a

end SessionAcceptor

/-- What the future of a handshake comes to, `none` being a deadline that has passed. -/
def Handshake.output (conn : ℕ) : Option HandshakeResult → Option (ℕ × Option Version)
  | some (.ok peerVersion) => some (conn, peerVersion)
  | some (.error _) => none
  | none => none

/-- The future of a handshake can settle: it has returned, or the deadline has passed, which it
may at any time. A panic would unwind through `next` instead; by `Stands.error` there is none. -/
def Handshake.Settles (h : Handshake) : Option HandshakeResult → Prop
  | some r => h.node = .done r
  | none => True

/-! ### Runs -/

/-- A connection that found the acceptor full, with the number of handshakes under way then. -/
structure FullDrop where
  conn : ℕ
  underWay : ℕ

/-- A connection whose handshake failed, or ran into its deadline; in the latter case there is no
result. -/
structure FailedDrop where
  conn : ℕ
  outcome : Option HandshakeResult

/-- What became of the connections, and what happened on each. The source keeps no such record: it
is there to state what does not get lost. -/
structure Ledger where
  delivered : ℕ
  traces : ℕ → List (Prog.Event ConnOp ConnOp.Ans)
  handed : List RpcSession
  full : List FullDrop
  failed : List FailedDrop

/-- The acceptor, whether a call of `next` is waiting, and the ledger. Between calls the acceptor
keeps its handshakes. -/
structure State where
  acceptor : SessionAcceptor
  calling : Bool
  ledger : Ledger

namespace State

/-- A new acceptor, set up but not called yet. The limit may have been set several times. -/
def init (mode : HandshakeMode) (protocol : Protocol) (settings : List ℕ) : State where
  acceptor := settings.foldl SessionAcceptor.setMaxPending (.new mode protocol)
  calling := false
  ledger := ⟨0, fun _ => [], [], [], []⟩

/-- The call goes on: with another round, after dropping a connection, or back to its caller with a
session or an error. -/
def resume (s : State) : Flow → State
  | .again a => { s with acceptor := a.wait }
  | .dropping a conn =>
      { s with
        acceptor := a.wait
        ledger := { s.ledger with full := s.ledger.full ++ [⟨conn, s.acceptor.pending.length⟩] } }
  | .returned a (.ok session) =>
      { s with
        acceptor := a
        calling := false
        ledger := { s.ledger with handed := s.ledger.handed ++ [session] } }
  | .returned a (.error _) => { s with acceptor := a, calling := false }

/-- The listener has delivered a connection, which gets the next number. -/
def deliver (s : State) : State :=
  { s with ledger := { s.ledger with delivered := s.ledger.delivered + 1 } }

/-- The handshakes under way are these: one of them has moved, or settled and left. -/
def setPending (s : State) (pending : List Handshake) : State :=
  { s with acceptor := { s.acceptor with pending := pending } }

/-- An operation of the handshake on a connection was answered, and the answer is entered in the
ledger. -/
def record (s : State) (conn : ℕ) (e : Prog.Event ConnOp ConnOp.Ans) : State :=
  { s with
    ledger := { s.ledger with
      traces := Function.update s.ledger.traces conn (s.ledger.traces conn ++ [e]) } }

/-- A handshake has come to nothing, and its connection is dropped; with a deadline that has passed
there is no outcome. -/
def fail (s : State) (conn : ℕ) (outcome : Option HandshakeResult) : State :=
  { s with ledger := { s.ledger with failed := s.ledger.failed ++ [⟨conn, outcome⟩] } }

/-- A handshake has settled: only one that has not passed drops its connection, since `next` hands
out the other. -/
def settle (s : State) (conn : ℕ) (outcome : Option HandshakeResult) : State :=
  match Handshake.output conn outcome with
  | some _ => s
  | none => s.fail conn outcome

end State

/-- What can happen: calls, calls that are dropped, and what the listener and the peers do.
Handshakes advance and settle only while a call waits, because only then are they polled. -/
inductive Move (mac : Mac) (transport : Transport) : State → State → Prop
  | call {s : State} (h : s.calling = false) :
      Move mac transport s { s with calling := true, acceptor := s.acceptor.wait }
  | cancel {s : State} (h : s.calling = true) : Move mac transport s { s with calling := false }
  | listenerError {s : State} (h : s.calling = true) (ha : s.acceptor.accepting = true)
      (e : TransportError) :
      Move mac transport s (s.resume (s.acceptor.react mac transport (.accepted (.error e))))
  | deliver {s : State} (h : s.calling = true) (ha : s.acceptor.accepting = true) :
      Move mac transport s (s.deliver.resume
        (s.acceptor.react mac transport (.accepted (.ok s.ledger.delivered))))
  | advance {s : State} (h : s.calling = true) {l r : List Handshake} {conn : ℕ} {op : ConnOp}
      {k : op.Ans → ConnProg HandshakeResult} (ans : op.Ans)
      (hp : s.acceptor.pending = l ++ ⟨conn, .await op k⟩ :: r) :
      Move mac transport s ((s.setPending (l ++ ⟨conn, k ans⟩ :: r)).record conn ⟨op, ans⟩)
  | settle {s : State} (h : s.calling = true) {l r : List Handshake} {hs : Handshake}
      (hp : s.acceptor.pending = l ++ hs :: r) (outcome : Option HandshakeResult)
      (ho : hs.Settles outcome) :
      Move mac transport s (((s.setPending (l ++ r)).settle hs.conn outcome).resume
        ((s.setPending (l ++ r)).acceptor.react mac transport
          (.settled (Handshake.output hs.conn outcome))))

/-- The states of a run, from a new acceptor on, whatever callers, listener and peers do. -/
def Reachable (mac : Mac) (transport : Transport) (mode : HandshakeMode) (protocol : Protocol)
    (settings : List ℕ) (s : State) : Prop :=
  Relation.ReflTransGen (Move mac transport) (State.init mode protocol settings) s

/-! ### The invariant -/

section

variable {mac : Mac} {transport : Transport} {mode : HandshakeMode} {protocol : Protocol}
  {maxPending : ℕ} {s s' : State}

/-- Where a delivered connection is: handed out, dropped by a full acceptor, dropped with its
handshake, or in its handshake. -/
inductive Place
  | handed
  | full
  | failed
  | pending

/-- The connections at a place: handed out, found the acceptor full, failed, or under way. -/
def State.at (s : State) : Place → List ℕ
  | .handed => s.ledger.handed.map RpcSession.conn
  | .full => s.ledger.full.map FullDrop.conn
  | .failed => s.ledger.failed.map FailedDrop.conn
  | .pending => s.acceptor.pending.map Handshake.conn

/-- Everything that was delivered, by what became of it. That this is a permutation of what was
delivered is the invariant. -/
def State.account (s : State) : List ℕ :=
  s.at .handed ++ s.at .full ++ s.at .failed ++ s.at .pending

/-- The handshake of a connection has got to `node`, by the answers that the ledger has for that
connection. -/
def Stands (mac : Mac) (transport : Transport) (mode : HandshakeMode) (protocol : Protocol)
    (ledger : Ledger) (conn : ℕ) (node : ConnProg HandshakeResult) : Prop :=
  (onConn (authenticateServer mac transport mode protocol)).Reaches (ledger.traces conn) node

/-- A handshake that fails has a report: it does not panic. -/
theorem Stands.error {ledger : Ledger} {conn : ℕ} {fault : HandshakeFault}
    (h : Stands mac transport mode protocol ledger conn (.done (.error fault))) :
    ∃ report, fault = .report report :=
  ((sound_authenticateServer mac transport mode protocol).interpret perform).of_reaches h

/-- What always holds: the settings do not change, the limit is kept, every connection is in one
place, and each handshake stands where its answers have brought it. -/
structure Inv (mac : Mac) (transport : Transport) (mode : HandshakeMode) (protocol : Protocol)
    (maxPending : ℕ) (s : State) : Prop where
  mode_eq : s.acceptor.mode = mode
  protocol_eq : s.acceptor.protocol = protocol
  maxPending_eq : s.acceptor.maxPending = maxPending
  pending_le : s.acceptor.pending.length ≤ maxPending
  account_perm : s.account.Perm (List.range s.ledger.delivered)
  fresh : ∀ conn, s.ledger.delivered ≤ conn → s.ledger.traces conn = []
  running : ∀ h ∈ s.acceptor.pending,
    Stands mac transport mode protocol s.ledger h.conn h.node
  passed : ∀ x ∈ s.ledger.handed,
    Stands mac transport mode protocol s.ledger x.conn (.done (.ok x.peerVersion))
  full_eq : ∀ x ∈ s.ledger.full, x.underWay = maxPending
  failed_spec : ∀ x ∈ s.ledger.failed, ∀ r, x.outcome = some r →
    Stands mac transport mode protocol s.ledger x.conn (.done r) ∧
      ∃ report, r = .error (.report report)

/-- No connection is accounted for twice: it is pending, handed out, refused or failed, and only one
of these. -/
theorem Inv.nodup (h : Inv mac transport mode protocol maxPending s) : s.account.Nodup :=
  h.account_perm.nodup_iff.2 List.nodup_range

/-- Only connections that the listener delivered are accounted for. -/
theorem Inv.lt_delivered (h : Inv mac transport mode protocol maxPending s) {conn : ℕ}
    (hconn : conn ∈ s.account) : conn < s.ledger.delivered :=
  List.mem_range.1 (h.account_perm.mem_iff.1 hconn)

/-- The limit is at least one. -/
theorem one_le_maxPending (settings : List ℕ) :
    1 ≤ (State.init mode protocol settings).acceptor.maxPending := by
  have hpos : ∀ a : SessionAcceptor, 1 ≤ a.maxPending →
      1 ≤ (settings.foldl SessionAcceptor.setMaxPending a).maxPending := by
    induction settings with
    | nil => exact fun a ha => ha
    | cons n settings ih => exact fun a _ => ih _ (Nat.le_max_right _ _)
  exact hpos _ (show 1 ≤ 64 by decide)

/-- A new acceptor has delivered nothing, whatever its limit was set to. -/
theorem inv_init (settings : List ℕ) :
    Inv mac transport mode protocol (State.init mode protocol settings).acceptor.maxPending
      (State.init mode protocol settings) := by
  have hsame : ∀ a : SessionAcceptor, a.mode = mode → a.protocol = protocol → a.pending = [] →
      (settings.foldl SessionAcceptor.setMaxPending a).mode = mode ∧
      (settings.foldl SessionAcceptor.setMaxPending a).protocol = protocol ∧
      (settings.foldl SessionAcceptor.setMaxPending a).pending = [] := by
    induction settings with
    | nil => exact fun a h1 h2 h3 => ⟨h1, h2, h3⟩
    | cons n settings ih => exact fun a h1 h2 h3 => ih _ h1 h2 h3
  obtain ⟨hmode, hprotocol, hpending⟩ := hsame (.new mode protocol) rfl rfl rfl
  have hnil : (State.init mode protocol settings).acceptor.pending = [] := hpending
  refine ⟨hmode, hprotocol, rfl, ?_, ?_, fun _ _ => rfl, ?_, nofun, nofun, nofun⟩
  · rw [hnil]
    exact Nat.zero_le _
  · simp only [State.account, State.at, hnil]
    exact .refl _
  · rw [hnil]
    exact nofun

/-- How often a connection is accounted for. -/
theorem State.count_account (s : State) (conn : ℕ) :
    s.account.count conn =
      (s.ledger.handed.map RpcSession.conn).count conn +
        (s.ledger.full.map FullDrop.conn).count conn +
        (s.ledger.failed.map FailedDrop.conn).count conn +
        (s.acceptor.pending.map Handshake.conn).count conn := by
  simp only [State.account, State.at, List.count_append]

/-- The account balances when it lists every delivered connection once. -/
theorem State.account_perm_iff {s : State} {n : ℕ} :
    s.account.Perm (List.range n) ↔ ∀ conn,
      (s.ledger.handed.map RpcSession.conn).count conn +
        (s.ledger.full.map FullDrop.conn).count conn +
        (s.ledger.failed.map FailedDrop.conn).count conn +
        (s.acceptor.pending.map Handshake.conn).count conn = (List.range n).count conn := by
  simp only [List.perm_iff_count, State.count_account]

/-- A handshake under way is the only entry of its connection: it was not handed out, it has not
failed, and no other handshake is on it. -/
theorem Inv.unique (h : Inv mac transport mode protocol maxPending s) {l r : List Handshake}
    {hs : Handshake} (hp : s.acceptor.pending = l ++ hs :: r) :
    (∀ x ∈ s.ledger.handed, x.conn ≠ hs.conn) ∧ (∀ x ∈ s.ledger.failed, x.conn ≠ hs.conn) ∧
      ∀ x ∈ l ++ r, x.conn ≠ hs.conn := by
  have hone := List.nodup_iff_count_le_one.1 h.nodup hs.conn
  rw [State.count_account, hp, List.map_append, List.map_cons, List.count_append,
    List.count_cons_self] at hone
  refine ⟨fun x hx heq => ?_, fun x hx heq => ?_, fun x hx heq => ?_⟩
  · have := List.count_pos_iff.2 (heq ▸ List.mem_map_of_mem hx :
      hs.conn ∈ s.ledger.handed.map RpcSession.conn)
    omega
  · have := List.count_pos_iff.2 (heq ▸ List.mem_map_of_mem hx :
      hs.conn ∈ s.ledger.failed.map FailedDrop.conn)
    omega
  · have := List.count_pos_iff.2 (heq ▸ List.mem_map_of_mem hx :
      hs.conn ∈ (l ++ r).map Handshake.conn)
    rw [List.map_append, List.count_append] at this
    omega

/-- A delivered connection is dropped by a full acceptor and taken on by any other. -/
theorem Inv.deliver (h : Inv mac transport mode protocol maxPending s) :
    Inv mac transport mode protocol maxPending (s.deliver.resume
      (s.acceptor.react mac transport (.accepted (.ok s.ledger.delivered)))) := by
  have hcount := State.account_perm_iff.1 h.account_perm
  rw [SessionAcceptor.react]
  split_ifs with hfull
  · refine ⟨h.mode_eq, h.protocol_eq, h.maxPending_eq, h.pending_le, ?_, ?_, h.running, h.passed,
      ?_, h.failed_spec⟩
    · refine State.account_perm_iff.2 fun conn => ?_
      have := hcount conn
      simp only [State.resume, State.deliver, SessionAcceptor.wait, List.map_append, List.map_cons,
        List.map_nil, List.count_append, List.range_succ] at this ⊢
      omega
    · exact fun conn hconn => h.fresh conn (Nat.le_of_succ_le hconn)
    · intro x hx
      rcases List.mem_append.1 hx with hx | hx
      · exact h.full_eq x hx
      · obtain rfl := List.mem_singleton.1 hx
        exact le_antisymm h.pending_le (h.maxPending_eq ▸ hfull)
  · refine ⟨h.mode_eq, h.protocol_eq, h.maxPending_eq, ?_, ?_, ?_, ?_, h.passed, h.full_eq,
      h.failed_spec⟩
    · have hlt := not_le.1 hfull
      rw [h.maxPending_eq] at hlt
      change (s.acceptor.pending ++ [_]).length ≤ maxPending
      rw [List.length_append]
      exact hlt
    · refine State.account_perm_iff.2 fun conn => ?_
      have := hcount conn
      simp only [State.resume, State.deliver, SessionAcceptor.wait, SessionAcceptor.handshake,
        List.map_append, List.map_cons, List.map_nil, List.count_append, List.range_succ] at this ⊢
      omega
    · exact fun conn hconn => h.fresh conn (Nat.le_of_succ_le hconn)
    · intro hs hhs
      rcases List.mem_append.1 hhs with hhs | hhs
      · exact h.running hs hhs
      · obtain rfl := List.mem_singleton.1 hhs
        change Stands mac transport mode protocol s.ledger s.ledger.delivered
          (onConn (authenticateServer mac transport s.acceptor.mode s.acceptor.protocol))
        rw [Stands, h.fresh _ le_rfl, h.mode_eq, h.protocol_eq]
        exact .nil _

/-- What happens on one connection leaves the handshakes of the others. -/
theorem Stands.record {conn conn' : ℕ} {node : ConnProg HandshakeResult}
    {e : Prog.Event ConnOp ConnOp.Ans} (h : Stands mac transport mode protocol s.ledger conn' node)
    (hne : conn' ≠ conn) :
    Stands mac transport mode protocol (s.record conn e).ledger conn' node := by
  rw [Stands] at h ⊢
  simp only [State.record]
  rwa [Function.update_of_ne hne]

/-- A handshake that advances stays under way: only its own trace grows, by the operation that was
answered. -/
theorem Inv.advance (h : Inv mac transport mode protocol maxPending s) {l r : List Handshake}
    {conn : ℕ} {op : ConnOp} {k : op.Ans → ConnProg HandshakeResult} (ans : op.Ans)
    (hp : s.acceptor.pending = l ++ ⟨conn, .await op k⟩ :: r) :
    Inv mac transport mode protocol maxPending
      ((s.setPending (l ++ ⟨conn, k ans⟩ :: r)).record conn ⟨op, ans⟩) := by
  obtain ⟨hhanded, hfailed, hothers⟩ := h.unique hp
  have hmem : (⟨conn, .await op k⟩ : Handshake) ∈ s.acceptor.pending := by
    rw [hp]
    exact List.mem_append_right _ List.mem_cons_self
  have hdelivered : conn < s.ledger.delivered :=
    h.lt_delivered (List.mem_append_right _ (List.mem_map_of_mem hmem))
  refine ⟨h.mode_eq, h.protocol_eq, h.maxPending_eq, ?_, ?_, ?_, ?_, ?_, h.full_eq, ?_⟩
  · have hle := h.pending_le
    rw [hp] at hle
    simpa [State.record, State.setPending] using hle
  · have hperm := h.account_perm
    simp only [State.account, State.at, hp] at hperm
    simpa [State.account, State.at, State.record, State.setPending] using hperm
  · intro conn' hconn'
    simp only [State.record]
    rw [Function.update_of_ne (by simp only [State.record, State.setPending] at hconn'; omega)]
    exact h.fresh conn' hconn'
  · intro hs hhs
    replace hhs : hs ∈ l ++ ⟨conn, k ans⟩ :: r := hhs
    by_cases hother : hs ∈ l ++ r
    · refine (h.running hs ?_).record (hothers hs hother)
      rw [hp]
      exact ((List.Sublist.refl l).append (List.sublist_cons_self _ r)).subset hother
    · obtain rfl : hs = ⟨conn, k ans⟩ := by
        simp only [List.mem_append, List.mem_cons] at hhs hother
        tauto
      have hstands := (h.running _ hmem).snoc ans
      rw [Stands]
      simp only [State.record]
      rw [Function.update_self]
      exact hstands
  · exact fun x hx => (h.passed x hx).record (hhanded x hx)
  · intro x hx result hresult
    obtain ⟨hstands, hfault⟩ := h.failed_spec x hx result hresult
    exact ⟨hstands.record (hfailed x hx), hfault⟩

/-- A handshake that settles leaves the others under way, and its connection has to go into
another part of the account. -/
theorem Inv.removed (h : Inv mac transport mode protocol maxPending s) {l r : List Handshake}
    {hs : Handshake} (hp : s.acceptor.pending = l ++ hs :: r) :
    (l ++ r).length ≤ maxPending ∧
      (∀ x ∈ l ++ r, Stands mac transport mode protocol s.ledger x.conn x.node) ∧
      Stands mac transport mode protocol s.ledger hs.conn hs.node ∧
      ∀ conn, (s.ledger.handed.map RpcSession.conn).count conn +
          (s.ledger.full.map FullDrop.conn).count conn +
          (s.ledger.failed.map FailedDrop.conn).count conn +
          ((l ++ r).map Handshake.conn).count conn + [hs.conn].count conn =
        (List.range s.ledger.delivered).count conn := by
  have hle := h.pending_le
  have hrunning := h.running
  rw [hp] at hle hrunning
  refine ⟨?_, fun x hx => ?_, ?_, fun conn => ?_⟩
  · simp only [List.length_append, List.length_cons] at hle ⊢
    omega
  · exact hrunning x (((List.Sublist.refl l).append (List.sublist_cons_self _ r)).subset hx)
  · exact hrunning hs (List.mem_append_right _ List.mem_cons_self)
  · rw [← State.account_perm_iff.1 h.account_perm conn, hp]
    simp only [List.map_append, List.map_cons, List.count_append, List.count_cons, List.count_nil]
    omega

/-- A handshake that has passed is handed out: its connection leaves the handshakes under way and
joins the sessions. -/
theorem Inv.handOut (h : Inv mac transport mode protocol maxPending s) {l r : List Handshake}
    {hs : Handshake} (hp : s.acceptor.pending = l ++ hs :: r) {v : Option Version}
    (hnode : hs.node = .done (.ok v)) :
    Inv mac transport mode protocol maxPending ((s.setPending (l ++ r)).resume
      (.returned (s.setPending (l ++ r)).acceptor (.ok ⟨hs.conn, v⟩))) := by
  obtain ⟨hle, hrunning, hstands, hcount⟩ := h.removed hp
  rw [hnode] at hstands
  refine ⟨h.mode_eq, h.protocol_eq, h.maxPending_eq, hle, ?_, h.fresh, hrunning, ?_, h.full_eq,
    h.failed_spec⟩
  · refine State.account_perm_iff.2 fun conn => ?_
    have := hcount conn
    simp only [State.setPending, State.resume, List.map_append, List.map_cons, List.map_nil,
      List.count_append] at this ⊢
    omega
  · intro x hx
    rcases List.mem_append.1 hx with hx | hx
    · exact h.passed x hx
    · obtain rfl := List.mem_singleton.1 hx
      exact hstands

/-- A handshake that has not passed drops its connection: it ran into its deadline, or returned an
error. -/
theorem Inv.drop (h : Inv mac transport mode protocol maxPending s) {l r : List Handshake}
    {hs : Handshake} (hp : s.acceptor.pending = l ++ hs :: r) {outcome : Option HandshakeResult}
    (houtcome : ∀ result, outcome = some result →
      hs.node = .done result ∧ ∃ fault, result = .error fault) :
    Inv mac transport mode protocol maxPending
      (((s.setPending (l ++ r)).fail hs.conn outcome).resume
        (.again (s.setPending (l ++ r)).acceptor)) := by
  obtain ⟨hle, hrunning, hstands, hcount⟩ := h.removed hp
  refine ⟨h.mode_eq, h.protocol_eq, h.maxPending_eq, hle, ?_, h.fresh, hrunning, h.passed,
    h.full_eq, ?_⟩
  · refine State.account_perm_iff.2 fun conn => ?_
    have := hcount conn
    simp only [State.setPending, State.resume, State.fail, SessionAcceptor.wait, List.map_append,
      List.map_cons, List.map_nil, List.count_append] at this ⊢
    omega
  · intro x hx result hresult
    rcases List.mem_append.1 hx with hx | hx
    · exact h.failed_spec x hx result hresult
    · obtain rfl := List.mem_singleton.1 hx
      obtain ⟨hnode, fault, rfl⟩ := houtcome result hresult
      rw [hnode] at hstands
      obtain ⟨report, rfl⟩ := hstands.error
      exact ⟨hstands, report, rfl⟩

/-- A handshake that settles is handed out or dropped, by what it returned. -/
theorem Inv.settle (h : Inv mac transport mode protocol maxPending s) {l r : List Handshake}
    {hs : Handshake} (hp : s.acceptor.pending = l ++ hs :: r) (outcome : Option HandshakeResult)
    (ho : hs.Settles outcome) :
    Inv mac transport mode protocol maxPending
      (((s.setPending (l ++ r)).settle hs.conn outcome).resume
        ((s.setPending (l ++ r)).acceptor.react mac transport
          (.settled (Handshake.output hs.conn outcome)))) := by
  rcases outcome with _ | (fault | v)
  · exact h.drop hp nofun
  · refine h.drop hp fun result hresult => ?_
    cases hresult
    exact ⟨ho, fault, rfl⟩
  · exact h.handOut hp ho

/-- **One step** keeps the invariant: one case for each thing that callers, listener and peers can
do. -/
theorem Inv.move (h : Inv mac transport mode protocol maxPending s)
    (hmove : Move mac transport s s') : Inv mac transport mode protocol maxPending s' := by
  cases hmove with
  | call hc | cancel hc | listenerError hc ha e =>
    exact ⟨h.mode_eq, h.protocol_eq, h.maxPending_eq, h.pending_le, h.account_perm, h.fresh,
      h.running, h.passed, h.full_eq, h.failed_spec⟩
  | deliver hc ha => exact h.deliver
  | advance hc ans hp => exact h.advance ans hp
  | settle hc hp outcome ho => exact h.settle hp outcome ho

/-- The invariant of a whole run, with the limit the acceptor was set up with. -/
theorem Reachable.inv {settings : List ℕ} (h : Reachable mac transport mode protocol settings s) :
    Inv mac transport mode protocol (State.init mode protocol settings).acceptor.maxPending s := by
  induction h with
  | refl => exact inv_init settings
  | tail _ hmove ih => exact ih.move hmove

/-! ### Conservation -/

/-- A delivered connection is at one place. The four places together hold every number up to
`delivered` once. -/
theorem Inv.place (h : Inv mac transport mode protocol maxPending s) {conn : ℕ}
    (hconn : conn < s.ledger.delivered) : ∃! place, conn ∈ s.at place := by
  have hone : s.account.count conn = 1 := by
    rw [List.perm_iff_count.1 h.account_perm conn]
    exact List.count_eq_one_of_mem List.nodup_range (List.mem_range.2 hconn)
  simp only [State.account, List.count_append] at hone
  -- A place holds the connection when its count is the positive one.
  simp only [ExistsUnique, ← List.count_pos_iff]
  rcases (by omega : 0 < (s.at .handed).count conn ∨ 0 < (s.at .full).count conn ∨
    0 < (s.at .failed).count conn ∨ 0 < (s.at .pending).count conn) with hp | hp | hp | hp
  all_goals
    refine ⟨_, hp, fun place hplace => ?_⟩
    cases place <;> first | rfl | omega

/-- A place holds connections that were delivered, each of them once. -/
theorem Inv.at_place (h : Inv mac transport mode protocol maxPending s) (place : Place) :
    (s.at place).Nodup ∧ ∀ conn ∈ s.at place, conn < s.ledger.delivered := by
  have hle (conn : ℕ) : (s.at place).count conn ≤ s.account.count conn := by
    simp only [State.account, List.count_append]
    cases place <;> omega
  constructor
  · exact List.nodup_iff_count_le_one.2 fun conn =>
      (hle conn).trans (List.nodup_iff_count_le_one.1 h.nodup conn)
  · intro conn hconn
    exact h.lt_delivered (List.count_pos_iff.1 ((List.count_pos_iff.2 hconn).trans_le (hle conn)))

/-- **Conservation of connections.** In every run, whatever the setting of the limit and the order
of events: the handshakes under way stay within the limit; every connection that was delivered is
at one place, where it is listed once, a full acceptor being the reason of every drop on arrival
and a deadline or a report of its own handshake that of every other; and a connection that was
handed out has its handshake behind it, with the version that handshake returned. -/
theorem connections_conserved (mac : Mac) (transport : Transport) (mode : HandshakeMode)
    (protocol : Protocol) (settings : List ℕ)
    (h : Reachable mac transport mode protocol settings s) :
    (s.acceptor.maxPending = (State.init mode protocol settings).acceptor.maxPending ∧
      1 ≤ s.acceptor.maxPending ∧ s.acceptor.pending.length ≤ s.acceptor.maxPending) ∧
    ((∀ conn < s.ledger.delivered, ∃! place, conn ∈ s.at place) ∧
      (∀ place, (s.at place).Nodup ∧ ∀ conn ∈ s.at place, conn < s.ledger.delivered) ∧
      (∀ x ∈ s.ledger.full, x.underWay = s.acceptor.maxPending) ∧
      ∀ x ∈ s.ledger.failed, ∀ r, x.outcome = some r →
        (onConn (authenticateServer mac transport mode protocol)).Reaches
          (s.ledger.traces x.conn) (.done r) ∧ ∃ report, r = .error (.report report)) ∧
    ∀ x ∈ s.ledger.handed, (onConn (authenticateServer mac transport mode protocol)).Reaches
      (s.ledger.traces x.conn) (.done (.ok x.peerVersion)) := by
  have hinv := h.inv
  have hmax := hinv.maxPending_eq
  refine ⟨⟨hmax, ?_, ?_⟩, ⟨fun _ => hinv.place, hinv.at_place, ?_, hinv.failed_spec⟩, hinv.passed⟩
  · rw [hmax]
    exact one_le_maxPending settings
  · rw [hmax]
    exact hinv.pending_le
  · rw [hmax]
    exact hinv.full_eq

end

/-- With a limit of one and no authentication: the first connection is handed out, the second finds
the acceptor full, the third runs into its deadline, and the fourth is pending when the call is
dropped. -/
theorem connections_conserved_sample :
    ∃ s, Reachable .sample .tcp .disabled ⟨7, 1, 3, 1⟩ [0] s ∧ s.acceptor.maxPending = 1 ∧
      s.at .handed = [0] ∧ s.at .full = [1] ∧ s.at .failed = [2] ∧ s.at .pending = [3] ∧
      ∃! place, 3 ∈ s.at place := by
  obtain ⟨s, hs, hd, hplaces⟩ : ∃ s, Reachable .sample .tcp .disabled ⟨7, 1, 3, 1⟩ [0] s ∧
      s.ledger.delivered = 4 ∧ s.acceptor.maxPending = 1 ∧ s.at .handed = [0] ∧ s.at .full = [1] ∧
      s.at .failed = [2] ∧ s.at .pending = [3] := by
    have h₀ : Reachable .sample .tcp .disabled ⟨7, 1, 3, 1⟩ [0] _ := .refl
    have h₁ := (((h₀.tail (.call rfl)).tail (.deliver rfl rfl)).tail (.deliver rfl rfl)).tail
      (.settle rfl (l := []) (r := []) rfl (some (.ok none)) (by exact rfl))
    have h₂ := (((h₁.tail (.call rfl)).tail (.deliver rfl rfl)).tail
      (.settle rfl (l := []) (r := []) rfl none trivial)).tail (.deliver rfl rfl)
    exact ⟨_, h₂.tail (.cancel rfl), rfl, rfl, rfl, rfl, rfl, rfl⟩
  obtain ⟨hmax, hhanded, hfull, hfailed, hpending⟩ := hplaces
  exact ⟨s, hs, hmax, hhanded, hfull, hfailed, hpending,
    (connections_conserved .sample .tcp .disabled ⟨7, 1, 3, 1⟩ [0] hs).2.1.1 3 (hd ▸ by decide)⟩

end Acceptor

end Ogurpchik
