import Ogurpchik.Dialogue
import Ogurpchik.HandshakeClient

/-!
# The Handshake as a Dialogue

The two halves of the handshake as parties that talk over a reliable channel: no timeout elapses
and no read fails, but bytes arrive in any pieces. For each half the module says which script it
plays, by rules that follow the shape of the code.

## Main definitions

* `overChannel`, `party`: a half as a party.
* `Speaks`: the scripts of a program of packet operations.

## Main results

* `speaks_writePacket`, `speaks_readPacket`: a packet is the bytes of its frame.
* `Speaks.bind`: scripts of a sequence.
-/

namespace Ogurpchik

open Async Dialogue LittleEndian

/-! ### The halves as parties -/

/-- Programs that talk over a channel: parties of a dialogue whose symbols are bytes and whose
questions go to the operating system. -/
abbrev Talk := Party UInt8 HostOp.Ans IoError

/-- The operations of a half on a reliable channel, without timeouts: a read receives some of what
is in flight, and a write hands its bytes over. -/
def overChannel : (op : ConnOp) → Talk op.Ans
  | .timed op => .await (.recv op.room) fun bytes => .done (some (.ok bytes))
  | .write bytes => .await (.send bytes) .done
  | .host op => .await (.ask op) .done

/-- A half as a party: its packets are carried out by reads and writes, and those by the channel. -/
def party {α : Type} (x : HandshakeM α) : Talk (Except HandshakeFault α) :=
  (onConn x).interpret overChannel

/-- The answers of an operating system that counts its questions, as the environment of a party. -/
def hostAnswer (s : Host × ℕ) (op : HostOp) : op.Ans × (Host × ℕ) :=
  ((s.1.answer s.2 op).1, (s.1, (s.1.answer s.2 op).2))

/-- A half that returns an error closes its end: the connection is dropped with it. -/
def closesEnd {α : Type} (r : Except HandshakeFault α) : Prop := ∃ fault, r = .error fault

/-! ### Bytes -/

section Bytes

variable {s : Host × ℕ} {rest : List (Act UInt8)}

/-- Writing plays the bytes, in whatever pieces they are taken. Induction on what is left to
write. -/
theorem plays_writeAll (bytes : List UInt8)
    {post : Except IoError Unit → Host × ℕ → List (Act UInt8) → Prop}
    (hpost : post (.ok ()) s rest) :
    Plays hostAnswer ((writeAll bytes).interpret overChannel) s (bytes.map .out ++ rest) post := by
  induction bytes using writeAll_induction with
  | nil =>
    rw [writeAll, if_pos rfl]
    exact .done hpost
  | more bytes hnil ih =>
    rw [writeAll, if_neg hnil]
    refine .send hnil fun n hn => ?_
    simp only [Prog.done_bind, if_neg hn.ne']
    exact ih _ hn.ne'

/-- Writing to a party that has left ends one way or another: it fails, or all bytes are taken and
lost. -/
theorem plays_writeAll_lost (bytes : List UInt8)
    {post : Except IoError Unit → Host × ℕ → List (Act UInt8) → Prop}
    (hpost : ∀ r, post r s [.lost]) :
    Plays hostAnswer ((writeAll bytes).interpret overChannel) s [.lost] post := by
  induction bytes using writeAll_induction with
  | nil =>
    rw [writeAll, if_pos rfl]
    exact .done (hpost _)
  | more bytes hnil ih =>
    rw [writeAll, if_neg hnil]
    refine .lost fun ans => ?_
    simp only [Prog.done_bind]
    cases ans with
    | error e => exact .done (hpost _)
    | ok n =>
      by_cases hn : n.val = 0
      · simp only [if_pos hn]
        exact .done (hpost _)
      · simp only [if_neg hn]
        exact ih _ hn

/-- Reading code under a timeout that does not elapse, as a party of the dialogue. -/
def reading {α : Type} (p : ReadProg α) : Talk (Option α) := (underTimeout p).interpret overChannel

/-- A read is a request for as many bytes as there is room for. -/
theorem reading_await {α : Type} (op : ReadOp) (k : op.Ans → ReadProg α) :
    reading (.await op k) = .await (.recv op.room) fun bytes => reading (k (.ok bytes)) := by
  simp only [reading, underTimeout, Prog.interpret, overChannel, Prog.await_bind, Prog.done_bind]

/-- Reading code is translated part by part; at the end of the stream nothing of the rest is
done. -/
theorem reading_bind {α β : Type} (p : ReadProg α) (f : α → ReadProg β) :
    reading (p.bind f) = (reading p).bind fun
      | some a => reading (f a)
      | none => .done none := by
  induction p with
  | done a => rfl
  | await op k ih =>
    rw [Prog.await_bind, reading_await, reading_await, Prog.await_bind]
    congr 1
    funext bytes
    exact ih _

/-- `read_exact` plays the bytes that are missing, in whatever pieces they come. -/
theorem plays_readExactFrom {n : ℕ} (got bytes : List UInt8) (hlen : got.length + bytes.length = n)
    {post : Option (Except IoError (List UInt8)) → Host × ℕ → List (Act UInt8) → Prop}
    (hpost : post (some (.ok (got ++ bytes))) s rest) :
    Plays hostAnswer (reading (readExactFrom n got)) s (bytes.map .inp ++ rest) post := by
  induction hm : bytes.length using Nat.strong_induction_on generalizing got bytes with
  | _ m ih =>
    rw [readExactFrom]
    by_cases hlt : got.length < n
    · have hroom : n - got.length ≤ bytes.length := by omega
      rw [if_pos hlt, reading_await]
      refine .recv (show 0 < n - got.length by omega) hroom ?_
      rintro ys more hne rfl
      simp only [if_neg hne]
      have hpos := List.length_pos_iff.mpr hne
      rw [List.length_append] at hlen hm
      refine ih more.length (by omega) (got ++ ys.val) more ?_ ?_ rfl
      · rw [List.length_append]
        omega
      · rwa [List.append_assoc]
    · obtain rfl : bytes = [] := List.eq_nil_of_length_eq_zero (by omega)
      rw [if_neg hlt]
      rw [List.append_nil] at hpost
      exact .done hpost

/-- At the end of the stream `read_exact` fails. -/
theorem plays_readExactFrom_eof {n : ℕ} (got : List UInt8) (hlt : got.length < n)
    {post : Option (Except IoError (List UInt8)) → Host × ℕ → List (Act UInt8) → Prop}
    (hpost : post (some (.error .unexpectedEof)) s rest) :
    Plays hostAnswer (reading (readExactFrom n got)) s (.eof :: rest) post := by
  rw [readExactFrom, if_pos hlt, reading_await]
  refine .eof (show 0 < n - got.length by omega) ?_
  exact .done hpost

end Bytes

/-! ### Packets -/

/-- `Speaks x s script post`: on a channel the program `x` follows the script, whatever pieces its
peer's bytes arrive in, and then `post` holds of its result and of what is left of the script. -/
abbrev Speaks {α : Type} (x : HandshakeM α) (s : Host × ℕ) (script : List (Act UInt8))
    (post : Except HandshakeFault α → Host × ℕ → List (Act UInt8) → Prop) : Prop :=
  Plays hostAnswer (party x) s script post

section Packets

variable {α β : Type} {s : Host × ℕ} {script rest : List (Act UInt8)}
  {post : Except HandshakeFault α → Host × ℕ → List (Act UInt8) → Prop}

/-- A program as the party that carries out its first operation and goes on. -/
theorem party_mk_await (op : PacketOp) (k : op.Ans → PacketProg (Except HandshakeFault α)) :
    party (ExceptT.mk (.await op k)) =
      ((perform op).interpret overChannel).bind fun ans => party (ExceptT.mk (k ans)) := by
  simp only [party, onConn, ExceptT.run_mk, Prog.interpret, Prog.interpret_bind]

/-- Code that returns says nothing more. -/
theorem speaks_pure {a : α} (h : post (.ok a) s script) :
    Speaks (pure a) s script post := .done h

/-- Code that fails says nothing more. -/
theorem speaks_throw {fault : HandshakeFault} (h : post (.error fault) s script) :
    Speaks (throw fault) s script post := .done h

/-- A sequence of the handshake becomes a sequence of the party that plays it. -/
theorem party_bind (x : HandshakeM α) (f : α → HandshakeM β) :
    party (x >>= f) = (party x).bind fun
      | .ok a => party (f a)
      | .error fault => .done (.error fault) := by
  simp only [party, onConn, ExceptT.run_bind, Prog.bind_eq, Prog.interpret_bind]
  congr 1
  funext r
  cases r <;> rfl

/-- **Scripts of a sequence.** The first part plays the front of the script, and the second part
what it leaves. -/
theorem Speaks.bind {x : HandshakeM β} {f : β → HandshakeM α}
    (h : Speaks x s script fun r s' rest =>
      match r with
      | .ok a => Speaks (f a) s' rest post
      | .error fault => post (.error fault) s' rest) :
    Speaks (x >>= f) s script post := by
  rw [Speaks, party_bind]
  refine Plays.bind (Plays.mono h ?_)
  rintro (fault | a) s' rest h
  · exact .done h
  · exact h

/-- Carrying out a write plays the frame. -/
theorem plays_perform_write (body : List UInt8)
    {post : Except Report Unit → Host × ℕ → List (Act UInt8) → Prop} (h : post (.ok ()) s rest) :
    Plays hostAnswer ((perform (.writePacket body)).interpret overChannel) s
      ((frame body).map .out ++ rest) post := by
  rw [perform, Prog.interpret_bind]
  exact Plays.bind (plays_writeAll _ (.done h))

/-- Carrying out a read plays the frame: the four bytes of the length, and then the body. -/
theorem plays_perform_read {body : List UInt8} (hlen : body.length ≤ MAX_PACKET_LEN)
    {post : Except Report (List UInt8) → Host × ℕ → List (Act UInt8) → Prop}
    (h : post (.ok body) s rest) :
    Plays hostAnswer ((perform .readPacketWithTimeout).interpret overChannel) s
      ((frame body).map .inp ++ rest) post := by
  have hmax : MAX_PACKET_LEN = 4096 := rfl
  have hread : leNat (leBytes 4 body.length) = body.length := leNat_leBytes_of_lt (by omega)
  rw [perform, Prog.interpret_bind]
  refine Plays.bind ?_
  change Plays hostAnswer (reading readPacket) s _ _
  rw [readPacket, reading_bind, frame, List.map_append, List.append_assoc]
  refine Plays.bind (plays_readExactFrom [] _ (by simp [length_leBytes]) ?_)
  simp only [List.nil_append, hread, if_neg (Nat.not_lt.2 hlen), reading_bind]
  refine Plays.bind (plays_readExactFrom [] body (by simp) ?_)
  exact .done (.done h)

/-- Carrying out a read at the end of the stream fails, with the report of an I/O error. -/
theorem plays_perform_read_eof
    {post : Except Report (List UInt8) → Host × ℕ → List (Act UInt8) → Prop}
    (h : post (.error (.new .io)) s rest) :
    Plays hostAnswer ((perform .readPacketWithTimeout).interpret overChannel) s
      (.eof :: rest) post := by
  rw [perform, Prog.interpret_bind]
  refine Plays.bind ?_
  change Plays hostAnswer (reading readPacket) s _ _
  rw [readPacket, reading_bind]
  refine Plays.bind (plays_readExactFrom_eof [] (by decide) ?_)
  exact .done (.done h)

/-- A packet that is written is said byte by byte. -/
theorem speaks_writePacket {post : Except HandshakeFault Unit → Host × ℕ → List (Act UInt8) → Prop}
    {body : List UInt8} (h : post (.ok ()) s rest) :
    Speaks (writePacket body) s ((frame body).map .out ++ rest) post := by
  rw [Speaks, writePacket, party_mk_await]
  exact Plays.bind (plays_perform_write body (.done h))

/-- A packet that fits is heard byte by byte, and no byte behind it is taken. -/
theorem speaks_readPacket
    {post : Except HandshakeFault (List UInt8) → Host × ℕ → List (Act UInt8) → Prop}
    {body : List UInt8} (hlen : body.length ≤ MAX_PACKET_LEN) (h : post (.ok body) s rest) :
    Speaks readPacketWithTimeout s ((frame body).map .inp ++ rest) post := by
  rw [Speaks, readPacketWithTimeout, party_mk_await]
  exact Plays.bind (plays_perform_read hlen (.done h))

/-- A peer that leaves instead of sending a packet is an I/O error. -/
theorem speaks_readPacket_eof
    {post : Except HandshakeFault (List UInt8) → Host × ℕ → List (Act UInt8) → Prop}
    (h : post (.error (.report (.new .io))) s rest) :
    Speaks readPacketWithTimeout s (.eof :: rest) post := by
  rw [Speaks, readPacketWithTimeout, party_mk_await]
  exact Plays.bind (plays_perform_read_eof (.done h))

/-- A refusal is said as its ack, and ends the script. -/
theorem speaks_reject {reason : List UInt8} {report : Report}
    (h : post (.error (.report report)) s rest) :
    Speaks (reject reason report) s
      ((frame (encodeAck ACK_REJECTED reason)).map .out ++ rest) post := by
  rw [Speaks, reject, party_mk_await]
  exact Plays.bind (plays_perform_write _ (.done h))

/-- A refusal for a client that has left: whether it can be written makes no difference. -/
theorem speaks_reject_lost {reason : List UInt8} {report : Report}
    (h : post (.error (.report report)) s [.lost]) :
    Speaks (reject reason report) s [.lost] post := by
  rw [Speaks, reject, party_mk_await, perform, Prog.interpret_bind]
  refine Plays.bind (Plays.bind (plays_writeAll_lost _ ?_))
  rintro (e | ⟨⟩)
  · exact .done (.done h)
  · exact .done (.done h)

/-- Turning a result into a failure says nothing. -/
theorem speaks_orReport {x : Except Report α}
    (h : post (x.mapError .report) s rest) : Speaks (orReport x) s rest post := by
  cases x with
  | ok a => exact .done h
  | error report => exact .done h

end Packets

/-! ### Questions -/

/-- The program only asks the operating system: it neither sends nor receives, whatever it is
answered. -/
inductive OnlyAsks {α : Type} : PacketProg α → Prop
  | done (a : α) : OnlyAsks (.done a)
  | ask {op : HostOp} {k : op.Ans → PacketProg α} (h : ∀ ans, OnlyAsks (k ans)) :
      OnlyAsks (.await (.host op) k)

/-- The rule of sequence for code that only asks the system. -/
theorem OnlyAsks.bind {α β : Type} {p : PacketProg α} {f : α → PacketProg β} (hp : OnlyAsks p)
    (hf : ∀ a, OnlyAsks (f a)) : OnlyAsks (p.bind f) := by
  induction hp with
  | done a => exact hf a
  | ask _ ih => exact .ask ih

/-- `Asks x s r s'`: the program `x` plays some questions and ends with `r`, with any script behind
them. -/
def Asks {α : Type} (x : HandshakeM α) (s : Host × ℕ) (r : Except HandshakeFault α)
    (s' : Host × ℕ) : Prop :=
  ∃ n, ∀ (rest : List (Act UInt8)) (post : Except HandshakeFault α → Host × ℕ →
    List (Act UInt8) → Prop), post r s' rest → Speaks x s (List.replicate n .ask ++ rest) post

/-- A run of a program that only asks is its script: it has as many questions as were asked. -/
theorem asks_of_runs {α : Type} {host : Host} {x : HandshakeM α} {env env' : PacketEnv}
    {r : Except HandshakeFault α} (hx : OnlyAsks x.run) (hrun : Runs host x env r env') :
    Asks x (host, env.asked) r (host, env'.asked) := by
  have hrun : Prog.run (PacketEnv.handle host) x.run env = (r, env') := hrun
  suffices h : ∀ p : PacketProg (Except HandshakeFault α), OnlyAsks p → ∀ env,
      Prog.run (PacketEnv.handle host) p env = (r, env') →
        Asks (ExceptT.mk p) (host, env.asked) r (host, env'.asked) from h x.run hx env hrun
  intro p hp
  induction hp with
  | done a =>
    intro env hrun
    cases hrun
    exact ⟨0, fun rest post h => .done h⟩
  | @ask op k _ ih =>
    intro env hrun
    obtain ⟨n, hn⟩ := ih _ _ hrun
    refine ⟨n + 1, fun rest post h => ?_⟩
    rw [Speaks, party_mk_await, List.replicate_succ]
    exact Plays.bind (.ask (.done (hn rest post h)))

/-! ### The server -/

section Server

variable {mac : Mac} {transport : Transport} {host : Host} {asked : ℕ} {mode : HandshakeMode}
  {ours : Protocol} {attestedPid : Option UInt32} {nonce body proof : List UInt8}

/-- Finding out who the peer is goes to the system alone. -/
theorem onlyAsks_attestPid : OnlyAsks (attestPid transport mode).run := by
  cases mode with
  | signedProcess publicKey =>
    refine .ask fun ans => ?_
    cases ans with
    | pid pid => exact .done _
    | unknown => exact .done _
  | disabled | versionOnly | hmacSha256 _ => exact .done _

/-- So does drawing the nonce. -/
theorem onlyAsks_freshNonce : OnlyAsks freshNonce.run := by
  refine .ask fun ans => ?_
  cases ans with
  | ok nonce => exact .done _
  | error e => exact .done _

/-- So does the check of the image of a process, which goes to the system alone. -/
theorem onlyAsks_verifySignedProcess (pid : UInt32) (publicKey : List UInt8) :
    OnlyAsks (verifySignedProcess pid publicKey) := by
  refine .ask fun before => ?_
  cases before with
  | error report => exact .done _
  | ok before =>
    refine .ask fun image => ?_
    cases image with
    | error report => exact .done _
    | ok _ =>
      refine .ask fun after => ?_
      cases after with
      | error report => exact .done _
      | ok after =>
        dsimp only
        split_ifs
        · exact .done _
        · exact .done _

/-- The script of a check: questions, and one short refusal if it fails. The length of the reason is
bounded so that the refusal fits into a packet. -/
def ChecksBy (x : HandshakeM Unit) (s : Host × ℕ) (ok : Prop) : Prop :=
  ∃ n s', (ok ∧ ∀ (rest : List (Act UInt8)) post, post (.ok ()) s' rest →
      Speaks x s (List.replicate n .ask ++ rest) post) ∨
    (¬ ok ∧ ∃ report reason, reason.length ≤ 64 ∧
      ∀ (rest : List (Act UInt8)) post, post (.error (.report report)) s' rest →
        Speaks x s (List.replicate n .ask ++
          ((frame (encodeAck ACK_REJECTED reason)).map .out ++ rest)) post)

/-- A comparison that refuses with a short reason is a check, as a script. -/
theorem checksBy_ite {s : Host × ℕ} {reason : List UInt8} {report : Report} (ok : Prop)
    [Decidable ok] (hlen : reason.length ≤ 64) :
    ChecksBy (if ¬ ok then reject reason report else pure ()) s ok := by
  by_cases hok : ok
  · refine ⟨0, s, .inl ⟨hok, fun rest post h => ?_⟩⟩
    rw [if_neg (not_not.2 hok)]
    exact speaks_pure h
  · refine ⟨0, s, .inr ⟨hok, report, reason, hlen, fun rest post h => ?_⟩⟩
    rw [if_pos hok]
    exact speaks_reject h

/-- The script of the mode's check: some questions to the host, and then a verdict that is
`ProofOk`. -/
theorem checkProof_script (hpid : ∀ publicKey, mode = .signedProcess publicKey → attestedPid ≠ none)
    (nonce proof : List UInt8) :
    ChecksBy (checkProof mac attestedPid nonce proof mode) (host, asked)
      (ProofOk mac host asked attestedPid nonce proof mode) := by
  cases mode with
  | disabled | versionOnly => exact checksBy_ite (proof = []) (by decide)
  | hmacSha256 secret => exact checksBy_ite (proof = hmacWithNonce mac secret nonce) (by decide)
  | signedProcess publicKey =>
    obtain ⟨pid, rfl⟩ := Option.ne_none_iff_exists'.1 (hpid publicKey rfl)
    obtain ⟨r, asked', hrun, hr⟩ := runs_verifySignedProcess host ⟨[], [], asked⟩ pid publicKey
    have hasks : OnlyAsks (ExceptT.lift (verifySignedProcess pid publicKey) :
        HandshakeM (Except Report Unit)).run :=
      (onlyAsks_verifySignedProcess pid publicKey).bind fun _ => .done _
    obtain ⟨n, hn⟩ := asks_of_runs hasks hrun
    have hok : ProofOk mac host asked (some pid) nonce proof (.signedProcess publicKey) ↔
        r = .ok () := by
      rw [hr]
      simp [ProofOk]
    rw [hok]
    cases r with
    | ok _ =>
        exact ⟨n, (host, asked'), .inl ⟨rfl, fun rest post h => (hn _ _ (speaks_pure h)).bind⟩⟩
    | error report =>
      exact ⟨n, (host, asked'), .inr ⟨by simp, report, _, by decide, fun rest post h =>
        (hn _ _ (speaks_reject h)).bind⟩⟩

/-- The script of a server that cannot go on to its hello: it asks its host, and leaves with a
report. -/
theorem server_unprepared_script (hmode : mode ≠ .disabled)
    (h : ∀ nonce attestedPid, host.random = .ok nonce → host.attested mode ≠ some attestedPid) :
    ∃ n report, Speaks (authenticateServer mac transport mode ours) (host, 0)
      (List.replicate n .ask) (Ends (.error (.report report))) := by
  rw [authenticateServer_eq hmode]
  rcases Host.unprepared_cases h with hatt | ⟨attestedPid, e, hatt, hrandom⟩
  · obtain ⟨n, hn⟩ := asks_of_runs onlyAsks_attestPid
      (@runs_attestPid_error transport host ⟨[], [], 0⟩ mode hatt)
    refine ⟨n, unattestable transport, ?_⟩
    rw [← List.append_nil (List.replicate n _)]
    exact (hn _ _ ⟨rfl, .inl rfl⟩).bind
  · obtain ⟨m, hm⟩ := asks_of_runs onlyAsks_attestPid
      (@runs_attestPid transport host ⟨[], [], 0⟩ mode attestedPid hatt)
    obtain ⟨n, hn⟩ := asks_of_runs onlyAsks_freshNonce
      (@runs_freshNonce_error host ⟨[], [], 0⟩ e hrandom)
    refine ⟨m + n, nonceFailure e, ?_⟩
    rw [List.replicate_add, ← List.append_nil (List.replicate n _)]
    exact (hm _ _ (hn _ _ ⟨rfl, .inl rfl⟩).bind).bind

/-- A server that has its nonce plays its hello and goes on to the client's packet. -/
theorem server_prepared_script {nonce : { nonce : List UInt8 // nonce.length = NONCE_LEN }}
    (hmode : mode ≠ .disabled) (hrandom : host.random = .ok nonce)
    (hatt : host.attested mode = some attestedPid) :
    ∃ n, ∀ (rest : List (Act UInt8)) post,
      Speaks (do
        let body ← readPacketWithTimeout
        answerAuth mac mode ours attestedPid nonce body) (host, 0) rest post →
      Speaks (authenticateServer mac transport mode ours) (host, 0)
        (List.replicate n .ask ++
          ((frame (encodeHello mode.schemeId ours nonce)).map .out ++ rest)) post := by
  obtain ⟨m, hm⟩ := asks_of_runs onlyAsks_attestPid
    (@runs_attestPid transport host ⟨[], [], 0⟩ mode attestedPid hatt)
  obtain ⟨n, hn⟩ :=
    asks_of_runs onlyAsks_freshNonce (@runs_freshNonce host ⟨[], [], 0⟩ nonce hrandom)
  refine ⟨m + n, fun rest post h => ?_⟩
  rw [authenticateServer_eq hmode, List.replicate_add, List.append_assoc]
  exact (hm _ _ (hn _ _ (speaks_writePacket h).bind).bind).bind

/-- What a client auth decodes to. -/
theorem decode_encodeClientAuth (scheme : UInt8) (peer : Protocol) {proof : List UInt8}
    (hlen : proof.length < 2 ^ 16) :
    foreignVersion (encodeClientAuth scheme peer proof) = none ∧
      decodeClientAuth (encodeClientAuth scheme peer proof) = .ok (scheme, peer, proof) := by
  rw [encodeClientAuth, encodeAuth_eq hlen]
  exact ⟨foreignVersion_authBody _ _ _ _, decodeAuth_eq_ok_iff.2 ⟨_, hlen, rfl⟩⟩

/-- The answer to a client of another protocol, which has left: the refusal is lost, and the report
is the server's own. -/
theorem answerAuth_incompatible_script {peer : Protocol} {error : HandshakeError} {reason : String}
    {s : Host × ℕ} (hlen : proof.length < 2 ^ 16)
    (hcompat : incompatibility ours peer = some (error, reason)) :
    Speaks (answerAuth mac mode ours attestedPid nonce
        (encodeClientAuth mode.schemeId peer proof)) s [.lost]
      (Ends (.error (.report ((Report.new error).attach reason)))) := by
  obtain ⟨hversion, hdecode⟩ := decode_encodeClientAuth mode.schemeId peer hlen
  rw [answerAuth_of_incompatible hversion hdecode hcompat]
  exact speaks_reject_lost ⟨rfl, .inr rfl⟩

/-- The answer to a client of the same protocol: an ack that says whether its proof was
accepted. -/
theorem answerAuth_compatible_script {peer : Protocol}
    (hpid : ∀ publicKey, mode = .signedProcess publicKey → attestedPid ≠ none)
    (hlen : proof.length < 2 ^ 16) (hcompat : incompatibility ours peer = none) :
    ∃ n, (ProofOk mac host asked attestedPid nonce proof mode ∧
        Speaks (answerAuth mac mode ours attestedPid nonce
            (encodeClientAuth mode.schemeId peer proof)) (host, asked)
          (List.replicate n .ask ++ (frame (encodeAck ACK_OK [])).map .out)
          (Ends (.ok (some peer.version)))) ∨
      (¬ ProofOk mac host asked attestedPid nonce proof mode ∧ ∃ report reason,
        reason.length ≤ 64 ∧
        Speaks (answerAuth mac mode ours attestedPid nonce
            (encodeClientAuth mode.schemeId peer proof)) (host, asked)
          (List.replicate n .ask ++ (frame (encodeAck ACK_REJECTED reason)).map .out)
          (Ends (.error (.report report)))) := by
  obtain ⟨hversion, hdecode⟩ := decode_encodeClientAuth mode.schemeId peer hlen
  rw [answerAuth_of_compatible hversion hdecode hcompat]
  obtain ⟨n, s', hchecks⟩ := @checkProof_script mac host asked mode attestedPid hpid nonce proof
  rcases hchecks with ⟨hok, hplays⟩ | ⟨hno, report, reason, hreason, hplays⟩
  · refine ⟨n, .inl ⟨hok, ?_⟩⟩
    rw [← List.append_nil (List.map _ _)]
    refine (hplays _ _ (Speaks.bind (speaks_writePacket ?_))).bind
    exact speaks_pure ⟨rfl, .inl rfl⟩
  · refine ⟨n, .inr ⟨hno, report, reason, hreason, ?_⟩⟩
    rw [← List.append_nil (List.map _ _)]
    exact (hplays _ _ ⟨rfl, .inl rfl⟩).bind

end Server

/-! ### The client -/

section Client

variable {mac : Mac} {s : Host × ℕ} {mode : HandshakeMode} {ours peer : Protocol}
  {nonce : List UInt8} {rest : List (Act UInt8)}

/-- A client without a hello. -/
theorem client_eof_script (hmode : mode ≠ .disabled) :
    Speaks (authenticateClient mac mode ours) s [.eof]
      (Ends (.error (.report (.new .io)))) := by
  rw [authenticateClient_eq hmode]
  exact (speaks_readPacket_eof ⟨rfl, .inl rfl⟩).bind

/-- A client with a hello goes on to answer it. -/
theorem client_hello_script {body : List UInt8}
    {post : Except HandshakeFault (Option Version) → Host × ℕ → List (Act UInt8) → Prop}
    (hmode : mode ≠ .disabled) (hlen : body.length ≤ MAX_PACKET_LEN)
    (h : Speaks (answerHello mac mode ours body) s rest post) :
    Speaks (authenticateClient mac mode ours) s ((frame body).map .inp ++ rest) post := by
  rw [authenticateClient_eq hmode]
  exact (speaks_readPacket hlen h).bind

/-- A hello with another scheme is not answered: the client leaves at once. -/
theorem answerHello_scheme_script {scheme : UInt8} (hlen : nonce.length < 2 ^ 16)
    (hscheme : scheme ≠ mode.schemeId) :
    ∃ report, Speaks (answerHello mac mode ours (encodeHello scheme peer nonce)) s []
      (Ends (.error (.report report))) := by
  rw [encodeHello, encodeAuth_eq hlen]
  have hdecode : decodeHello (authBody TAG_HELLO HANDSHAKE_VERSION scheme peer nonce) =
      .ok (scheme, peer, nonce) := decodeAuth_eq_ok_iff.2 ⟨_, hlen, rfl⟩
  have hversion : foreignVersion (authBody TAG_HELLO HANDSHAKE_VERSION scheme peer nonce) =
      none := foreignVersion_authBody _ _ _ _
  have hhead : (authBody TAG_HELLO HANDSHAKE_VERSION scheme peer nonce).head? ≠ some TAG_ACK := by
    simp [authBody, TAG_HELLO, TAG_ACK]
  obtain ⟨text, heq⟩ := @answerHello_of_scheme mac mode ours _ _ _ _ hhead hversion hdecode hscheme
  rw [heq]
  exact ⟨_, speaks_throw ⟨rfl, .inl rfl⟩⟩

/-- A hello with the client's scheme is answered with its packet, and then the ack is awaited. -/
theorem answerHello_script
    {post : Except HandshakeFault (Option Version) → Host × ℕ → List (Act UInt8) → Prop}
    (hlen : nonce.length < 2 ^ 16) (h : Speaks (awaitAck ours peer) s rest post) :
    Speaks (answerHello mac mode ours (encodeHello mode.schemeId peer nonce)) s
      ((frame (encodeClientAuth mode.schemeId ours (proofFor mac nonce mode))).map .out ++ rest)
      post := by
  have hhello : IsHello mode (encodeHello mode.schemeId peer nonce) peer nonce :=
    ⟨hlen, encodeAuth_eq hlen _ _ _⟩
  obtain ⟨hhead, hversion, hdecode⟩ := hhello.decode
  rw [answerHello_of_hello hhead hversion hdecode]
  exact (speaks_writePacket h).bind

/-- A client that finds the server incompatible leaves without waiting for the ack. -/
theorem awaitAck_incompatible_script {error : HandshakeError} {reason : String}
    (hcompat : incompatibility ours peer = some (error, reason)) :
    Speaks (awaitAck ours peer) s []
      (Ends (.error (.report ((Report.new error).attach reason)))) := by
  rw [awaitAck, hcompat]
  exact speaks_throw ⟨rfl, .inl rfl⟩

/-- A client that hears the accepting ack has the version of the server. -/
theorem awaitAck_ok_script (hcompat : incompatibility ours peer = none) :
    Speaks (awaitAck ours peer) s ((frame (encodeAck ACK_OK [])).map .inp)
      (Ends (.ok (some peer.version))) := by
  rw [awaitAck, hcompat, ← List.append_nil (List.map _ _)]
  refine Speaks.bind (speaks_readPacket length_encodeAckOk (Speaks.bind (speaks_orReport ?_)))
  have hdecode : decodeAck (encodeAck ACK_OK []) = .ok () :=
    decodeAck_eq_ok_iff.2 ⟨[], by decide, encodeAck_eq (by decide) _⟩
  rw [hdecode]
  exact speaks_pure ⟨rfl, .inl rfl⟩

/-- A client that hears a refusal fails with a report, once it has read all of it. -/
theorem awaitAck_rejected_script {reason : List UInt8}
    (hcompat : incompatibility ours peer = none) (hlen : reason.length ≤ 64) :
    ∃ report, Speaks (awaitAck ours peer) s
      ((frame (encodeAck ACK_REJECTED reason)).map .inp) (Ends (.error (.report report))) := by
  have hmax : MAX_PACKET_LEN = 4096 := rfl
  rw [awaitAck, hcompat, encodeAck_eq (by omega), ← List.append_nil (List.map _ _)]
  refine ⟨(Report.new .rejected).attach (String.ofList (fromUtf8Lossy reason)), Speaks.bind
    (speaks_readPacket ?_ (Speaks.bind (speaks_orReport ?_)))⟩
  · rw [length_ackBody, hmax]
    omega
  · rw [decodeAck_of_rejected (by omega) (by decide)]
    exact ⟨rfl, .inl rfl⟩

end Client

end Ogurpchik
