import Ogurpchik.HandshakeClient
import Ogurpchik.Utf8

/-!
# Turning a Connection Away

`reject_connection` sends a refusal in place of a hello: an ack with a reason, framed like every
packet. The client takes the first packet for the server's hello or its refusal, and reports the
reason. Nothing on the sending side bounds the reason, while the client refuses packets of more than
`MAX_PACKET_LEN` bytes, so a refusal arrives as one exactly while the reason is short enough.

The reason crosses as UTF-8 and is read back with replacement characters for what is not; nothing
needs replacing (`fromUtf8Lossy_utf8`).

## Main definitions

* `rejectConnection`: the server's side.
* `ReportsRejection`: what the client should come to.

## Main results

* `rejection_arrives_iff`: **a rejection arrives as one** exactly when its packet fits.
-/

namespace Ogurpchik

open Async ByteFormat LittleEndian

/-! ### The client's side -/

section Client

variable {mac : Mac} {host : Host} {mode : HandshakeMode} {ours : Protocol}
  {stream rest : List UInt8} {text : String}

/-- What a client makes of a packet it cannot read. -/
theorem parsePacket_eq_error {report : Report} (h : parsePacket stream = (.error report, rest)) :
    report.context ≠ .rejected := by
  rw [parsePacket] at h
  dsimp only at h
  split_ifs at h <;> cases h <;> simp [Report.new, oversized, Report.attach]

/-- Waiting for the ack sends nothing, whatever is read and whatever it comes to. -/
theorem runs_awaitAck (host : Host) (ours peer : Protocol) (env : PacketEnv) :
    ∃ r rest, Runs host (awaitAck ours peer) env r { env with data := rest } := by
  by_cases hok : ∃ ack rest, incompatibility ours peer = none ∧
      parsePacket env.data = (.ok ack, rest) ∧ IsAckOk ack
  · obtain ⟨ack, rest, hcompat, hparse, hack⟩ := hok
    exact ⟨_, rest, runs_awaitAck_ok hcompat hparse hack⟩
  · obtain ⟨report, rest, hrun⟩ := @runs_awaitAck_error host env ours peer
      fun ack rest hcompat hparse hack => hok ⟨ack, rest, hcompat, hparse, hack⟩
    exact ⟨_, rest, hrun⟩

/-- The first packet of a stream on which the client reports a rejection, and sends nothing, is a
refusal with that reason. -/
theorem refusal_of_rejected {env : PacketEnv} (hmode : mode ≠ .disabled)
    (h : Runs host (authenticateClient mac mode ours) ⟨stream, [], 0⟩
      (.error (.report ⟨.rejected, [text]⟩)) env) (hsent : env.sent = []) :
    ∃ status reason, 4 + reason.length ≤ MAX_PACKET_LEN ∧
      (∃ rest, stream = frame (ackBody status reason) ++ rest) ∧
      text = String.ofList (fromUtf8Lossy reason) := by
  rw [authenticateClient_eq hmode] at h
  rcases hparse : parsePacket stream with ⟨result, tail⟩
  have hread := @runs_readPacket host ⟨stream, [], 0⟩ _ _ hparse
  cases result with
  | error report =>
    obtain ⟨heq, -⟩ := h.unique (hread.bind_error _)
    cases heq
    exact absurd rfl (parsePacket_eq_error hparse)
  | ok body =>
    obtain ⟨hlen, hstream⟩ := parsePacket_eq_ok_iff.1 hparse
    rcases answerHello_spec mac ours mode body with
      ⟨peer, nonce, -, heq⟩ | ⟨-, report, heq, hreport⟩
    · -- a hello is answered, so something was sent
      obtain ⟨r, rest', hwait⟩ := runs_awaitAck host ours peer
        ⟨tail, [encodeClientAuth mode.schemeId ours (proofFor mac nonce mode)], 0⟩
      have hrun : Runs host (answerHello mac mode ours body) ⟨tail, [], 0⟩ r _ :=
        heq ▸ (runs_writePacket _).bind hwait
      obtain ⟨-, rfl⟩ := h.unique (hread.bind hrun)
      cases hsent
    · have hrun : Runs host (answerHello mac mode ours body) ⟨tail, [], 0⟩
          (.error (.report report)) ⟨tail, [], 0⟩ := heq ▸ Prog.returns_throw _ _
      obtain ⟨hsame, -⟩ := h.unique (hread.bind hrun)
      cases hsame
      obtain ⟨status, reason, rfl, hreason⟩ := hreport.2 rfl
      cases hreason
      exact ⟨status, reason, by simpa using hlen, ⟨tail, hstream⟩, rfl⟩

end Client

/-! ### Rejections -/

/-- `reject_connection`: a refusal without a handshake, in place of the hello. -/
def rejectConnection (reason : String) : HandshakeM Unit :=
  writePacket (encodeAck ACK_REJECTED (utf8 reason))

/-- An ack is four bytes longer than its reason, also when the length field is cut. -/
theorem length_encodeAck (status : UInt8) (reason : List UInt8) :
    (encodeAck status reason).length = 4 + reason.length := by
  rw [encodeAck]
  change (u8.write _ ++ (u8.write _ ++ (leBytes 2 _ ++ reason))).length = _
  simp only [write_u8, List.length_append, length_leBytes, List.length_singleton]
  omega

/-- What `reject_connection` puts on a connection, in whatever pieces. -/
theorem run_rejectConnection (host : Host) (reason : String) (wire : Wire) (outCuts : Stream' ℕ)
    (asked : ℕ) :
    ((onConn (rejectConnection reason)).run (ConnEnv.handle host)
      ⟨wire, outCuts, [], asked⟩).2.sent = frame (encodeAck ACK_REJECTED (utf8 reason)) := by
  obtain ⟨-, hshows⟩ := @run_onConn _ host (rejectConnection reason) ⟨wire, outCuts, [], asked⟩
    ⟨wire.data, [], asked⟩ ⟨rfl, rfl, rfl⟩
  rw [hshows.sent_eq]
  exact List.append_nil _

/-- A reason whose packet fits is reported, word for word, and nothing is sent in answer. -/
theorem runs_of_fits {mac : Mac} {host : Host} {mode : HandshakeMode} {ours : Protocol}
    {reason : String} (hmode : mode ≠ .disabled) (hfits : (utf8 reason).length ≤ 4092)
    (later : List UInt8) :
    Runs host (authenticateClient mac mode ours)
      ⟨frame (encodeAck ACK_REJECTED (utf8 reason)) ++ later, [], 0⟩
      (.error (.report ⟨.rejected, [reason]⟩)) ⟨later, [], 0⟩ := by
  have hlen : (utf8 reason).length < 2 ^ 16 := by omega
  rw [authenticateClient_eq hmode, encodeAck_eq hlen]
  have hdecode := @decodeAck_of_rejected ACK_REJECTED _ hlen (by decide)
  rw [fromUtf8Lossy_utf8, String.ofList_toList] at hdecode
  have hparse : parsePacket (frame (ackBody ACK_REJECTED (utf8 reason)) ++ later) =
      (.ok (ackBody ACK_REJECTED (utf8 reason)), later) :=
    parsePacket_eq_ok_iff.2 ⟨by rw [length_ackBody, MAX_PACKET_LEN]; omega, rfl⟩
  refine (@runs_readPacket host ⟨_, [], 0⟩ _ _ hparse).bind ?_
  rw [answerHello_of_ack rfl hdecode]
  exact Prog.returns_throw _ _

/-- A reason that is reported had a packet that fits: a longer one is refused by its length. -/
theorem fits_of_runs {mac : Mac} {host : Host} {mode : HandshakeMode} {ours : Protocol}
    {reason : String} {later : List UInt8} {env : PacketEnv} (hmode : mode ≠ .disabled)
    (h : Runs host (authenticateClient mac mode ours)
      ⟨frame (encodeAck ACK_REJECTED (utf8 reason)) ++ later, [], 0⟩
      (.error (.report ⟨.rejected, [reason]⟩)) env) (hsent : env.sent = []) :
    (utf8 reason).length ≤ 4092 := by
  obtain ⟨status, bytes, hlen, ⟨rest, hstream⟩, htext⟩ := refusal_of_rejected hmode h hsent
  -- the reason has at most as many characters as the client read bytes of it, so its length is
  -- far from where the length of a frame wraps around
  have hshort : (utf8 reason).length ≤ 4 * bytes.length := by
    have hchars := length_fromUtf8Lossy_le bytes
    have hbytes := length_utf8_le reason
    have hsame : reason.toList = fromUtf8Lossy bytes := by rw [htext, String.toList_ofList]
    rw [hsame] at hbytes
    omega
  have hhead := congrArg (fun data => leNat (data.take 4)) hstream
  simp only [frame, List.append_assoc, List.take_left' (length_leBytes 4 _), length_ackBody,
    length_encodeAck] at hhead
  rw [MAX_PACKET_LEN] at hlen
  rw [leNat_leBytes_of_lt (by omega), leNat_leBytes_of_lt (by omega)] at hhead
  omega

/-- The client has reported the rejection with its reason, and has sent nothing. -/
def ReportsRejection (reason : String)
    (outcome : Except HandshakeFault (Option Version) × ConnEnv) : Prop :=
  outcome.1 = .error (.report ⟨.rejected, [reason]⟩) ∧ outcome.2.sent = []

/-- Every packet puts bytes on the connection, so a client that has sent no byte has sent no
packet. -/
theorem flatMap_frame_eq_nil_iff {packets : List (List UInt8)} :
    packets.flatMap frame = [] ↔ packets = [] := by
  cases packets with
  | nil => simp
  | cons packet packets => simp [frame, leBytes]

/-- The two ends on the level of packets: however reads and writes are cut, the report is that of
the packet. -/
theorem reportsRejection_iff_runs (mac : Mac) (server client : Host) (mode : HandshakeMode)
    (ours : Protocol) (reason : String) (wire : Wire) (serverCuts cuts clientCuts : Stream' ℕ)
    (later : List UInt8) :
    ReportsRejection reason ((onConn (authenticateClient mac mode ours)).run
      (ConnEnv.handle client) ⟨⟨((onConn (rejectConnection reason)).run (ConnEnv.handle server)
        ⟨wire, serverCuts, [], 0⟩).2.sent ++ later, cuts⟩, clientCuts, [], 0⟩) ↔
      ∃ env, Runs client (authenticateClient mac mode ours)
        ⟨frame (encodeAck ACK_REJECTED (utf8 reason)) ++ later, [], 0⟩
        (.error (.report ⟨.rejected, [reason]⟩)) env ∧ env.sent = [] := by
  rw [run_rejectConnection]
  obtain ⟨hresult, hshows⟩ := @run_onConn _ client (authenticateClient mac mode ours)
    ⟨⟨frame (encodeAck ACK_REJECTED (utf8 reason)) ++ later, cuts⟩, clientCuts, [], 0⟩
    ⟨frame (encodeAck ACK_REJECTED (utf8 reason)) ++ later, [], 0⟩ ⟨rfl, rfl, rfl⟩
  rw [ReportsRejection, hresult, hshows.sent_eq, flatMap_frame_eq_nil_iff]
  constructor
  · rintro ⟨hrejected, hnothing⟩
    exact ⟨_, Prod.ext hrejected rfl, hnothing⟩
  · rintro ⟨env, hruns, hnothing⟩
    rw [Runs, Prog.Returns] at hruns
    rw [hruns]
    exact ⟨rfl, hnothing⟩

/-- **A rejection arrives as one exactly when its packet fits.** The client on the other end reports
`Rejected` with the reason, having sent nothing, exactly when the reason has at most 4092 bytes,
whatever the pieces in which the bytes are written and read and whatever follows them. -/
theorem rejection_arrives_iff (mac : Mac) (server client : Host) {mode : HandshakeMode}
    (hmode : mode ≠ .disabled) (ours : Protocol) (reason : String) (wire : Wire)
    (serverCuts cuts clientCuts : Stream' ℕ) (later : List UInt8) :
    let sent := ((onConn (rejectConnection reason)).run (ConnEnv.handle server)
      ⟨wire, serverCuts, [], 0⟩).2.sent
    ReportsRejection reason ((onConn (authenticateClient mac mode ours)).run
      (ConnEnv.handle client) ⟨⟨sent ++ later, cuts⟩, clientCuts, [], 0⟩) ↔
        (utf8 reason).length ≤ 4092 := by
  intro sent
  rw [reportsRejection_iff_runs]
  constructor
  · rintro ⟨env, hruns, hnothing⟩
    exact fits_of_runs hmode hruns hnothing
  · intro hfits
    exact ⟨_, runs_of_fits hmode hfits later, rfl⟩

/-- The reason that a server for one connection gives is short enough. -/
theorem rejection_arrives_busy :
    ReportsRejection "one-to-one server is busy"
      ((onConn (authenticateClient .sample .versionOnly ⟨7, 1, 0, 0⟩)).run
        (ConnEnv.handle .sample) ⟨⟨((onConn (rejectConnection "one-to-one server is busy")).run
          (ConnEnv.handle .sample) ⟨⟨[], Stream'.const 1⟩, Stream'.const 1, [], 0⟩).2.sent ++ [],
          Stream'.const 1⟩, Stream'.const 1, [], 0⟩) :=
  (rejection_arrives_iff .sample .sample .sample (fun h => by cases h) ⟨7, 1, 0, 0⟩
    "one-to-one server is busy" ⟨[], Stream'.const 1⟩ (Stream'.const 1) (Stream'.const 1)
    (Stream'.const 1) []).mpr (by decide)

/-- A text of ASCII characters is as long as its encoding. -/
theorem length_utf8_replicate (n : ℕ) :
    (utf8 (String.ofList (List.replicate n 'x'))).length = n := by
  rw [utf8, String.toList_ofList]
  induction n with
  | zero => rfl
  | succ n ih =>
    rw [List.replicate_succ, List.flatMap_cons, List.length_append, ih, Nat.add_comm]
    rfl

/-- A reason of 4093 letters does not arrive: its packet is one byte longer than the longest. -/
theorem long_rejection_is_lost :
    ¬ ReportsRejection (String.ofList (List.replicate 4093 'x'))
      ((onConn (authenticateClient .sample .versionOnly ⟨7, 1, 0, 0⟩)).run
        (ConnEnv.handle .sample)
        ⟨⟨((onConn (rejectConnection (String.ofList (List.replicate 4093 'x')))).run
          (ConnEnv.handle .sample) ⟨⟨[], Stream'.const 1⟩, Stream'.const 1, [], 0⟩).2.sent ++ [],
          Stream'.const 1⟩, Stream'.const 1, [], 0⟩) := by
  rw [reportsRejection_iff_runs]
  rintro ⟨env, hruns, hnothing⟩
  have hfits := fits_of_runs (fun h => by cases h) hruns hnothing
  rw [length_utf8_replicate] at hfits
  exact absurd hfits (by decide)

end Ogurpchik
