import Ogurpchik.Compio
import Ogurpchik.Packet

/-!
# The Handshake

`authenticate_server` and `authenticate_client` exchange packets over a connection before any
RPC traffic. The module models them in two layers. The upper layer is the two functions as
programs that await whole packets and ask the operating system for facts about the peer. The
lower layer carries out a packet operation on the connection: a packet is written as a frame of
a length and a body, possibly in several writes, and read by two `read_exact` calls under a
timeout that may elapse at any wait. `onConn` puts the two together.

HMAC-SHA256 and the operating system are not modelled: the first is a parameter `Mac`, the
second answers the operations `HostOp`.

## Main definitions

* `authenticateServer`, `authenticateClient`: the two halves.
* `perform`: the packet operations on a connection.
* `onConn`: a program of packet operations as the code that runs on a connection.

## Main results

* `sound_authenticateServer`: the server half never panics.
-/

namespace Ogurpchik

open Async LittleEndian

/-! ### The environment -/

/-- A keyed MAC with tags of 32 bytes; HMAC-SHA256 in the source. Nothing else is assumed of it
here: what cannot be forged is a matter of `Attacker`. -/
structure Mac where
  tag : List UInt8 → List UInt8 → List UInt8
  length_tag : ∀ key message, (tag key message).length = 32

/-- A MAC for samples: the key and the message, cut to the length of a tag. It is good enough to
evaluate runs with. -/
def Mac.sample : Mac where
  tag key message := (key ++ message ++ List.replicate 32 0).take 32
  length_tag key message := by
    simp only [List.length_take, List.length_append, List.length_replicate]
    omega

/-- `PeerIdentity`: who the operating system says is on the other end of a connection, if it can
tell. -/
inductive PeerIdentity
  | pid (pid : UInt32)
  | unknown

/-- The transports of a connection. They matter to the handshake only in the text of one report. -/
inductive Transport
  | tcp
  | uds
  | npipe
  | vsock

/-- `Conn::kind`: the name of a transport in the text of a report. -/
def Transport.kind : Transport → String
  | tcp => "tcp"
  | uds => "uds"
  | npipe => "npipe"
  | vsock => "vsock"

/-- What the handshake asks the operating system: who is on the other end, random bytes, and twice
the creation time of a process around the check of its image. -/
inductive HostOp
  | peerIdentity
  | fillRandom
  | processCreationTime (pid : UInt32)
  | verifyProcessImage (pid : UInt32) (publicKey : List UInt8)

/-- The answers; a failure of the random number generator is given by its text, and a nonce that was
filled has its full length. -/
abbrev HostOp.Ans : HostOp → Type
  | peerIdentity => PeerIdentity
  | fillRandom => Except String { nonce : List UInt8 // nonce.length = NONCE_LEN }
  | processCreationTime _ => Except Report UInt64
  | verifyProcessImage _ _ => Except Report Unit

/-! ### The two halves -/

/-- The operations of the two halves: whole packets, and questions to the operating system. How
packets are read and written is below, in `perform`. -/
inductive PacketOp
  | writePacket (body : List UInt8)
  | readPacketWithTimeout
  | host (op : HostOp)

/-- The answers to the operations of the two halves: a packet is written or read, or the report says
why not. -/
abbrev PacketOp.Ans : PacketOp → Type
  | writePacket _ => Except Report Unit
  | readPacketWithTimeout => Except Report (List UInt8)
  | host op => op.Ans

/-- Why a half does not return a value: a report, as the `Err` of the source, or a panic, as its
`expect`. That there is no panic is to be proved. -/
inductive HandshakeFault
  | report (report : Report)
  | panic
  deriving DecidableEq, Repr

/-- Programs of packet operations: `async` functions over a connection, up to the operations they
await. -/
abbrev PacketProg := Prog PacketOp PacketOp.Ans

/-- Programs of packet operations that may fail, so that `do` reads as the source with its `?`. -/
abbrev HandshakeM := ExceptT HandshakeFault PacketProg

/-- The `?` operator on a result that is there at once: a value goes on, and a report ends the
function. -/
def orReport {α : Type} : Except Report α → HandshakeM α
  | .ok a => pure a
  | .error report => throw (.report report)

/-- `write_packet(..).await?`: the packet is written, or the function ends with the report of the
failure. -/
def writePacket (body : List UInt8) : HandshakeM Unit :=
  ExceptT.mk (.await (.writePacket body) orReport)

/-- `read_packet_with_timeout(..).await?`: the body of the next packet, or the function ends with
the report. -/
def readPacketWithTimeout : HandshakeM (List UInt8) :=
  ExceptT.mk (.await .readPacketWithTimeout orReport)

/-- Ask the operating system, and go on with its answer, whatever that is. -/
def askHost (op : HostOp) : HandshakeM op.Ans :=
  ExceptT.mk (.await (.host op) fun ans => .done (.ok ans))

/-- Send a refusal, whether or not it can be written, and return the error: the source ignores the
result of this write. -/
def reject {α : Type} (reason : List UInt8) (report : Report) : HandshakeM α :=
  ExceptT.mk (.await (.writePacket (encodeAck ACK_REJECTED reason)) fun _ =>
    .done (.error (.report report)))

/-- `hmac_with_nonce`: the MAC of the label, the version of the handshake and the nonce, under the
shared secret. -/
def hmacWithNonce (mac : Mac) (secret nonce : List UInt8) : List UInt8 :=
  mac.tag secret (HMAC_LABEL ++ leBytes 2 HANDSHAKE_VERSION.toNat ++ nonce)

/-- The report of a transport that cannot tell who the peer is, in the mode that has to know. -/
def unattestable (transport : Transport) : Report :=
  (Report.new .peerAttestationUnavailable).attach ("transport: " ++ transport.kind)

/-- The pid of the peer, where the mode needs one; a transport that cannot tell it is refused
before anything is sent. -/
def attestPid (transport : Transport) : HandshakeMode → HandshakeM (Option UInt32)
  | .signedProcess _ => do
      match ← askHost .peerIdentity with
      | .pid pid => pure (some pid)
      | .unknown => throw (.report (unattestable transport))
  | _ => pure none

/-- The report of a failure of the random number generator, with its text. -/
def nonceFailure (e : String) : Report :=
  (Report.new .io).attach ("failed to generate nonce: " ++ e)

/-- A fresh nonce, drawn before anything is sent: without randomness there is no handshake. -/
def freshNonce : HandshakeM (List UInt8) := do
  match ← askHost .fillRandom with
  | .ok nonce => pure nonce.val
  | .error e => throw (.report (nonceFailure e))

/-- `verify_signed_process`: verify the image of a process that has to be the same one before and
after, by its creation time, so that a pid that goes to another process meanwhile does not pass. -/
def verifySignedProcess (pid : UInt32) (publicKey : List UInt8) :
    PacketProg (Except Report Unit) :=
  .await (.host (.processCreationTime pid)) fun
    | .error report => .done (.error report)
    | .ok createdBefore =>
        .await (.host (.verifyProcessImage pid publicKey)) fun
          | .error report => .done (.error report)
          | .ok () =>
              .await (.host (.processCreationTime pid)) fun
                | .error report => .done (.error report)
                | .ok createdAfter =>
                    if createdAfter ≠ createdBefore then
                      .done (.error ((Report.new .signedProcessVerificationFailed).attach
                        ("pid " ++ Nat.repr pid.toNat ++ " was reused during verification")))
                    else .done (.ok ())

/-- The `match mode` at the end of the server half: the check of the proof, or of the process in
place of a proof; the other modes take no proof at all. -/
def checkProof (mac : Mac) (attestedPid : Option UInt32) (nonce proof : List UInt8) :
    HandshakeMode → HandshakeM Unit
  | .hmacSha256 secret =>
      if proof ≠ hmacWithNonce mac secret nonce then
        reject (utf8 "invalid handshake proof") (.new .invalidProof)
      else pure ()
  | .signedProcess publicKey =>
      match attestedPid with
      | none => throw .panic
      | some pid => do
          match ← ExceptT.lift (verifySignedProcess pid publicKey) with
          | .ok () => pure ()
          | .error report => reject (utf8 "signed-process verification failed") report
  | _ =>
      if proof ≠ [] then
        reject (utf8 "unexpected auth proof") ((Report.new .invalidProof).attach
          "mode carries no proof, but the client sent one")
      else pure ()

/-- The version field of a body, if it has one and it is not the supported one. It is looked at
before the body is decoded, so that another version is reported as such. -/
def foreignVersion (body : List UInt8) : Option UInt16 :=
  (packetVersion body).filter fun version => version ≠ HANDSHAKE_VERSION

/-- The answer of the server to the body of the packet of the client, in the order of the source:
the version, the layout, the scheme, the protocol, the proof, and only then the ack. -/
def answerAuth (mac : Mac) (mode : HandshakeMode) (protocol : Protocol)
    (attestedPid : Option UInt32) (nonce body : List UInt8) : HandshakeM (Option Version) :=
  match foreignVersion body with
  | some clientVersion =>
      let reason := "unsupported handshake version: client=" ++
        Nat.repr clientVersion.toNat ++ " server=" ++ Nat.repr HANDSHAKE_VERSION.toNat
      reject (utf8 reason) ((Report.new .unsupportedVersion).attach reason)
  | none => do
      let (scheme, clientProtocol, proof) ← orReport (decodeClientAuth body)
      if scheme ≠ mode.schemeId then
        let reason := "handshake auth mismatch: client=" ++ Nat.repr scheme.toNat ++
          " server=" ++ Nat.repr mode.schemeId.toNat
        reject (utf8 reason) ((Report.new .schemeMismatch).attach reason)
      else
        match incompatibility protocol clientProtocol with
        | some (error, reason) => reject (utf8 reason) ((Report.new error).attach reason)
        | none => do
            checkProof mac attestedPid nonce proof mode
            writePacket (encodeAck ACK_OK [])
            pure (some clientProtocol.version)

section AnswerAuth

variable {mac : Mac} {mode : HandshakeMode} {ours peer : Protocol} {attestedPid : Option UInt32}
  {nonce body proof : List UInt8}

/-- A packet of another handshake version is refused for its version, before anything else of it is
looked at. -/
theorem answerAuth_of_foreign {version : UInt16} (h : foreignVersion body = some version) :
    ∃ reason, answerAuth mac mode ours attestedPid nonce body =
      reject (utf8 reason) ((Report.new .unsupportedVersion).attach reason) := by
  rw [answerAuth, h]
  exact ⟨_, rfl⟩

/-- A packet that is not of the layout ends the handshake without an ack. -/
theorem answerAuth_of_malformed {report : Report} (hversion : foreignVersion body = none)
    (h : decodeClientAuth body = .error report) :
    answerAuth mac mode ours attestedPid nonce body = throw (.report report) := by
  rw [answerAuth, hversion]
  dsimp only
  rw [h]
  rfl

/-- A client of another scheme is refused before its proof is looked at. -/
theorem answerAuth_of_scheme {scheme : UInt8} (hversion : foreignVersion body = none)
    (h : decodeClientAuth body = .ok (scheme, peer, proof)) (hscheme : scheme ≠ mode.schemeId) :
    ∃ reason, answerAuth mac mode ours attestedPid nonce body =
      reject (utf8 reason) ((Report.new .schemeMismatch).attach reason) := by
  rw [answerAuth, hversion]
  dsimp only
  rw [h]
  exact ⟨_, if_pos hscheme⟩

/-- A client of another protocol, or of another major version, is refused with a reason that names
both sides. -/
theorem answerAuth_of_incompatible {error : HandshakeError} {reason : String}
    (hversion : foreignVersion body = none)
    (h : decodeClientAuth body = .ok (mode.schemeId, peer, proof))
    (hcompat : incompatibility ours peer = some (error, reason)) :
    answerAuth mac mode ours attestedPid nonce body =
      reject (utf8 reason) ((Report.new error).attach reason) := by
  rw [answerAuth, hversion]
  dsimp only
  rw [h]
  refine (if_neg (not_not.2 rfl)).trans ?_
  rw [hcompat]

/-- What is left of the server for a compatible client: to check the proof, to ack, and to return
the version. -/
theorem answerAuth_of_compatible (hversion : foreignVersion body = none)
    (h : decodeClientAuth body = .ok (mode.schemeId, peer, proof))
    (hcompat : incompatibility ours peer = none) :
    answerAuth mac mode ours attestedPid nonce body = (do
      checkProof mac attestedPid nonce proof mode
      writePacket (encodeAck ACK_OK [])
      pure (some peer.version)) := by
  rw [answerAuth, hversion]
  dsimp only
  rw [h]
  refine (if_neg (not_not.2 rfl)).trans ?_
  rw [hcompat]

end AnswerAuth

/-- `authenticate_server`: the server half. It returns the version of the protocol the client
speaks, or nothing where the handshake is disabled. -/
def authenticateServer (mac : Mac) (transport : Transport) (mode : HandshakeMode)
    (protocol : Protocol) : HandshakeM (Option Version) :=
  match mode with
  | .disabled => pure none
  | mode => do
      let attestedPid ← attestPid transport mode
      let nonce ← freshNonce
      writePacket (encodeHello mode.schemeId protocol nonce)
      let body ← readPacketWithTimeout
      answerAuth mac mode protocol attestedPid nonce body

/-- Beyond the disabled mode the server runs its five steps: attest the peer, draw a nonce, greet,
read, and answer. -/
theorem authenticateServer_eq {mac : Mac} {transport : Transport} {mode : HandshakeMode}
    {ours : Protocol} (hmode : mode ≠ .disabled) :
    authenticateServer mac transport mode ours = (do
      let attestedPid ← attestPid transport mode
      let nonce ← freshNonce
      writePacket (encodeHello mode.schemeId ours nonce)
      let body ← readPacketWithTimeout
      answerAuth mac mode ours attestedPid nonce body) := by
  cases mode with
  | disabled => exact absurd rfl hmode
  | versionOnly | hmacSha256 _ | signedProcess _ => rfl

/-- The proof of the client for a nonce: the MAC where there is a secret, and nothing in the other
modes. -/
def proofFor (mac : Mac) (nonce : List UInt8) : HandshakeMode → List UInt8
  | .hmacSha256 secret => hmacWithNonce mac secret nonce
  | _ => []

/-- What the client does behind its own packet: an incompatible server is left at once, and from a
compatible one the ack is awaited. -/
def awaitAck (ours peer : Protocol) : HandshakeM (Option Version) :=
  match incompatibility ours peer with
  | some (error, reason) => throw (.report ((Report.new error).attach reason))
  | none => do
      let body ← readPacketWithTimeout
      orReport (decodeAck body)
      pure (some peer.version)

/-- The client's answer to the body of the server's first packet, which may be a refusal. -/
def answerHello (mac : Mac) (mode : HandshakeMode) (protocol : Protocol) (body : List UInt8) :
    HandshakeM (Option Version) :=
  if body.head? = some TAG_ACK then do
    orReport (decodeAck body)
    throw (.report (malformed "hello"))
  else
    match foreignVersion body with
    | some serverVersion =>
        throw (.report ((Report.new .unsupportedVersion).attach
          ("server=" ++ Nat.repr serverVersion.toNat ++ " client=" ++
            Nat.repr HANDSHAKE_VERSION.toNat)))
    | none => do
        let (scheme, serverProtocol, nonce) ← orReport (decodeHello body)
        if scheme ≠ mode.schemeId then
          throw (.report ((Report.new .schemeMismatch).attach
            ("server=" ++ Nat.repr scheme.toNat ++ " client=" ++ Nat.repr mode.schemeId.toNat)))
        else do
          writePacket (encodeClientAuth scheme protocol (proofFor mac nonce mode))
          awaitAck protocol serverProtocol

section AnswerHello

variable {mac : Mac} {mode : HandshakeMode} {ours peer : Protocol} {nonce body : List UInt8}

/-- A server that refuses at once is believed: its reason becomes the error of the client. -/
theorem answerHello_of_ack {report : Report} (h : body.head? = some TAG_ACK)
    (hack : decodeAck body = .error report) :
    answerHello mac mode ours body = throw (.report report) := by
  rw [answerHello, if_pos h, hack]
  rfl

/-- A server that accepts before it has said hello is not believed. -/
theorem answerHello_of_ack_ok (h : body.head? = some TAG_ACK) (hack : decodeAck body = .ok ()) :
    answerHello mac mode ours body = throw (.report (malformed "hello")) := by
  rw [answerHello, if_pos h, hack]
  rfl

/-- A hello of another handshake version ends the handshake; nothing is sent to such a server. -/
theorem answerHello_of_foreign {version : UInt16} (h : body.head? ≠ some TAG_ACK)
    (hversion : foreignVersion body = some version) :
    ∃ text, answerHello mac mode ours body =
      throw (.report ((Report.new .unsupportedVersion).attach text)) := by
  rw [answerHello, if_neg h, hversion]
  exact ⟨_, rfl⟩

/-- A hello that is not of the layout ends the handshake. -/
theorem answerHello_of_malformed {report : Report} (h : body.head? ≠ some TAG_ACK)
    (hversion : foreignVersion body = none) (hdecode : decodeHello body = .error report) :
    answerHello mac mode ours body = throw (.report report) := by
  rw [answerHello, if_neg h, hversion]
  dsimp only
  rw [hdecode]
  rfl

/-- A server of another scheme is not sent a proof: the client fails with a scheme mismatch. -/
theorem answerHello_of_scheme {scheme : UInt8} (h : body.head? ≠ some TAG_ACK)
    (hversion : foreignVersion body = none)
    (hdecode : decodeHello body = .ok (scheme, peer, nonce)) (hscheme : scheme ≠ mode.schemeId) :
    ∃ text, answerHello mac mode ours body =
      throw (.report ((Report.new .schemeMismatch).attach text)) := by
  rw [answerHello, if_neg h, hversion]
  dsimp only
  rw [hdecode]
  exact ⟨_, if_pos hscheme⟩

/-- What is left of the client for a hello of its scheme: to send the proof for the nonce, and to
wait for the ack. -/
theorem answerHello_of_hello (h : body.head? ≠ some TAG_ACK)
    (hversion : foreignVersion body = none)
    (hdecode : decodeHello body = .ok (mode.schemeId, peer, nonce)) :
    answerHello mac mode ours body = (do
      writePacket (encodeClientAuth mode.schemeId ours (proofFor mac nonce mode))
      awaitAck ours peer) := by
  rw [answerHello, if_neg h, hversion]
  dsimp only
  rw [hdecode]
  exact if_neg (not_not.2 rfl)

end AnswerHello

/-- `authenticate_client`: the client half. It returns the version of the protocol the server
speaks, or nothing where the handshake is disabled. -/
def authenticateClient (mac : Mac) (mode : HandshakeMode) (protocol : Protocol) :
    HandshakeM (Option Version) :=
  match mode with
  | .disabled => pure none
  | mode => do
      let body ← readPacketWithTimeout
      answerHello mac mode protocol body

/-! ### On a connection -/

/-- The operations on a connection: a read under a timeout, a write, a question to the operating
system. -/
inductive ConnOp
  | timed (op : ReadOp)
  | write (bytes : List UInt8)
  | host (op : HostOp)

/-- The answers: a read may find the timeout elapsed, a write takes some of the bytes. -/
abbrev ConnOp.Ans : ConnOp → Type
  | timed op => Option op.Ans
  | write bytes => Except IoError { n : ℕ // n ≤ bytes.length }
  | host op => op.Ans

/-- Programs on a connection: what is left of the two halves when packets are carried out by reads
and writes. -/
abbrev ConnProg := Prog ConnOp ConnOp.Ans

/-- `AsyncWriteExt::write_all`: writes may be partial, and one that takes nothing is the error
`WriteZero`. -/
def writeAll (bytes : List UInt8) : ConnProg (Except IoError Unit) :=
  if bytes = [] then .done (.ok ())
  else
    .await (.write bytes) fun
      | .error e => .done (.error e)
      | .ok n =>
          if n.val = 0 then .done (.error .writeZero)
          else writeAll (bytes.drop n.val)
termination_by bytes.length
decreasing_by
  rw [List.length_drop]
  have := List.length_pos_iff.mpr ‹bytes ≠ []›
  omega

/-- Induction along `writeAll`: what is left to write gets shorter with every piece. -/
@[elab_as_elim]
theorem writeAll_induction {motive : List UInt8 → Prop} (nil : motive [])
    (more : ∀ bytes, bytes ≠ [] → (∀ n, n ≠ 0 → motive (bytes.drop n)) → motive bytes)
    (bytes : List UInt8) : motive bytes := by
  induction hm : bytes.length using Nat.strong_induction_on generalizing bytes with
  | _ m ih =>
      by_cases hnil : bytes = []
      · rw [hnil]
        exact nil
      · have hpos := List.length_pos_iff.mpr hnil
        refine more bytes hnil fun n hn => ih _ ?_ _ rfl
        rw [List.length_drop]
        omega

/-- `compio::time::timeout`: the timer may win at every wait, and then the read is dropped with what
it had. -/
def underTimeout {α : Type} : ReadProg α → ConnProg (Option α)
  | .done a => .done (some a)
  | .await op k =>
      .await (.timed op) fun
        | none => .done none
        | some ans => underTimeout (k ans)

/-- A packet on the wire: the length of the body in four bytes, and the body. -/
def frame (body : List UInt8) : List UInt8 := leBytes 4 body.length ++ body

/-- The report of a declared length past the maximum; nothing of the body is read then. -/
def oversized (len : ℕ) : Report :=
  (Report.new .malformedPacket).attach
    ("declared packet length " ++ Nat.repr len ++ " exceeds " ++ Nat.repr MAX_PACKET_LEN)

/-- `read_packet`: four bytes of length, and then a body of that length unless it is past the
maximum. -/
def readPacket : ReadProg (Except Report (List UInt8)) :=
  (readExact 4).bind fun
    | .error _ => .done (.error (.new .io))
    | .ok header =>
        if MAX_PACKET_LEN < leNat header then .done (.error (oversized (leNat header)))
        else
          (readExact (leNat header)).bind fun
            | .error _ => .done (.error (.new .io))
            | .ok body => .done (.ok body)

/-- The packet operations on a connection: `write_packet`, `read_packet_with_timeout`, and the
questions, which have nothing to do with the connection. -/
def perform : (op : PacketOp) → ConnProg op.Ans
  | .writePacket body =>
      (writeAll (frame body)).bind fun
        | .ok () => .done (.ok ())
        | .error _ => .done (.error (.new .io))
  | .readPacketWithTimeout =>
      (underTimeout readPacket).bind fun
        | some result => .done result
        | none => .done (.error (.new .timeout))
  | .host op => .await (.host op) .done

/-- A program of packet operations on a connection: every operation is replaced by the reads and
writes that carry it out. -/
def onConn {α : Type} (p : HandshakeM α) : ConnProg (Except HandshakeFault α) :=
  p.run.interpret perform

/-! ### The server half does not panic -/

/-- Every run of `x` fails with a report or returns a value with `post`; in particular no run
panics, whatever the peer and the system answer. -/
def Sound {α : Type} (post : α → Prop) (x : HandshakeM α) : Prop :=
  x.run.Ensures fun
    | .ok a => post a
    | .error fault => ∃ report, fault = .report report

section Sound

variable {α β : Type} {pre : α → Prop} {post : β → Prop}

/-- The rule of sequence: no panic in a sequence if there is none in its parts. -/
theorem Sound.bind {x : HandshakeM α} {f : α → HandshakeM β} (hx : Sound pre x)
    (hf : ∀ a, pre a → Sound post (f a)) : Sound post (x >>= f) := by
  refine Prog.Ensures.bind hx fun r hr => ?_
  cases r with
  | error fault => exact hr
  | ok a => exact hf a hr

/-- Returning a value is no panic. -/
theorem sound_pure {b : β} (h : post b) : Sound post (pure b) := h

/-- A reported failure is no panic. -/
theorem sound_throw (report : Report) : Sound post (throw (.report report) : HandshakeM β) :=
  ⟨report, rfl⟩

/-- A refusal is a packet and a reported failure. -/
theorem sound_reject (reason : List UInt8) (report : Report) :
    Sound post (reject reason report) :=
  fun _ => ⟨report, rfl⟩

/-- An error that is turned into a failure is a reported one. -/
theorem sound_orReport (r : Except Report α) : Sound (fun _ => True) (orReport r) := by
  cases r with
  | error report => exact sound_throw report
  | ok a => exact sound_pure trivial

/-- Writing a packet fails with a report only. -/
theorem sound_writePacket (body : List UInt8) : Sound (fun _ => True) (writePacket body) :=
  sound_orReport

/-- Reading a packet fails with a report only, whatever the peer sends. -/
theorem sound_readPacketWithTimeout : Sound (fun _ => True) readPacketWithTimeout :=
  sound_orReport

/-- In the mode that needs a pid, there is one: without it the attestation has failed. -/
theorem sound_attestPid (transport : Transport) (mode : HandshakeMode) :
    Sound (fun pid => ∀ key, mode = .signedProcess key → pid ≠ none)
      (attestPid transport mode) := by
  cases mode with
  | signedProcess key =>
      rintro (pid | _)
      · exact fun _ _ => nofun
      · exact sound_throw _
  | _ => exact sound_pure nofun

/-- A system without randomness is a reported failure. -/
theorem sound_freshNonce : Sound (fun _ => True) freshNonce := by
  rintro (e | nonce)
  · exact sound_throw _
  · exact sound_pure trivial

/-- Code that cannot fail does not. -/
theorem sound_lift (p : PacketProg α) : Sound (fun _ => True) (ExceptT.lift p) :=
  (Prog.ensures_true p).bind fun _ _ => trivial

/-- The `expect` on the attested pid does not panic: in the one mode that needs a pid, one was found
before. -/
theorem sound_checkProof (mac : Mac) {pid : Option UInt32} (nonce proof : List UInt8)
    {mode : HandshakeMode} (hpid : ∀ key, mode = .signedProcess key → pid ≠ none) :
    Sound (fun _ => True) (checkProof mac pid nonce proof mode) := by
  cases mode with
  | signedProcess key =>
      obtain ⟨pid, rfl⟩ := Option.ne_none_iff_exists'.1 (hpid key rfl)
      refine (sound_lift (verifySignedProcess pid key)).bind fun r _ => ?_
      cases r with
      | error report => exact sound_reject _ _
      | ok u => exact sound_pure trivial
  | _ =>
      simp only [checkProof]
      split_ifs
      · exact sound_reject _ _
      · exact sound_pure trivial

/-- So no packet of a client makes the server panic: the `expect` of a pid is reached only where
there is one. -/
theorem sound_answerAuth (mac : Mac) (protocol : Protocol) {pid : Option UInt32}
    (nonce body : List UInt8) {mode : HandshakeMode}
    (hpid : ∀ key, mode = .signedProcess key → pid ≠ none) :
    Sound (fun _ => True) (answerAuth mac mode protocol pid nonce body) := by
  rw [answerAuth]
  split
  · exact sound_reject _ _
  refine (sound_orReport _).bind fun decoded _ => ?_
  dsimp only
  split_ifs
  · exact sound_reject _ _
  split
  · exact sound_reject _ _
  · exact (sound_checkProof mac nonce _ hpid).bind fun _ _ =>
      (sound_writePacket _).bind fun _ _ => sound_pure trivial

/-- **The server half returns a value or a report**: the pid it expects to have is there. -/
theorem sound_authenticateServer (mac : Mac) (transport : Transport) (mode : HandshakeMode)
    (protocol : Protocol) :
    Sound (fun _ => True) (authenticateServer mac transport mode protocol) := by
  by_cases hmode : mode = .disabled
  · subst hmode
    exact sound_pure trivial
  · rw [authenticateServer_eq hmode]
    exact (sound_attestPid transport mode).bind fun pid hpid =>
      sound_freshNonce.bind fun nonce _ => (sound_writePacket _).bind fun _ _ =>
        sound_readPacketWithTimeout.bind fun body _ => sound_answerAuth mac protocol nonce body hpid

end Sound

end Ogurpchik
