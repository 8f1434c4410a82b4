import Mathlib.Data.Nat.Digits.Defs
import Ogurpchik.Format

/-!
# Handshake Packets

The data of the handshake: protocols and their versions, the modes, the errors with the texts
attached to them, and the three packets with their encoders and decoders. A hello and a client
auth have one layout, so they share one record and one format; an ack has its own.

## Main results

* `decodeAuth_eq_ok_iff`, `decodeAck_eq_ok_iff`: a body decodes exactly when it has the layout of
  the packet, byte for byte.
* `decodeAck_of_rejected`: a refusal decodes to its reason.
-/

namespace Ogurpchik

open ByteFormat LittleEndian

/-! ### Errors -/

/-- `HandshakeError`: what went wrong in a handshake, as the context of a report. -/
inductive HandshakeError
  | unsupportedVersion
  | schemeMismatch
  | protocolMismatch
  | incompatibleVersion
  | invalidProof
  | rejected
  | timeout
  | malformedPacket
  | peerAttestationUnavailable
  | signedProcessVerificationFailed
  | connectionLimitReached
  | io
  deriving DecidableEq, Repr

/-- `error_stack::Report`: the current context and the texts attached to it, the oldest first. -/
structure Report where
  context : HandshakeError
  attached : List String
  deriving DecidableEq, Repr

/-- `Report::new`: a report without texts. -/
def Report.new (context : HandshakeError) : Report := ⟨context, []⟩

/-- `Report::attach`: a report with one more text behind the others. -/
def Report.attach (report : Report) (text : String) : Report :=
  { report with attached := report.attached ++ [text] }

/-! ### Texts -/

/-- The UTF-8 bytes of a text: in the source strings are their bytes, and in the model they are
characters. -/
def utf8 (text : String) : List UInt8 := text.toList.flatMap String.utf8EncodeChar

/-- The length of the UTF-8 sequence a leading byte announces; 0 for no leading byte. -/
def sequenceLen (lead : UInt8) : ℕ :=
  if lead ≤ 0x7f then 1
  else if 0xc2 ≤ lead ∧ lead ≤ 0xdf then 2
  else if 0xe0 ≤ lead ∧ lead ≤ 0xef then 3
  else if 0xf0 ≤ lead ∧ lead ≤ 0xf4 then 4
  else 0

/-- A byte that continues a sequence: any of those that begin with the bits `10`. -/
def isContinuation (b : UInt8) : Bool := 0x80 ≤ b ∧ b ≤ 0xbf

/-- A byte that may come second: overlong forms, surrogates and values past the last character
are excluded here. -/
def isSecond (lead b : UInt8) : Bool :=
  isContinuation b ∧ (lead = 0xe0 → 0xa0 ≤ b) ∧ (lead = 0xed → b ≤ 0x9f) ∧
    (lead = 0xf0 → 0x90 ≤ b) ∧ (lead = 0xf4 → b ≤ 0x8f)

/-- How many of the bytes behind a leading byte belong to its sequence. A byte that does not fit
begins something new, as in the repair of invalid text. -/
def sequenceTail (lead : UInt8) : List UInt8 → ℕ
  | [] => 0
  | second :: rest =>
      if 2 ≤ sequenceLen lead ∧ isSecond lead second then
        1 + ((rest.take (sequenceLen lead - 2)).takeWhile isContinuation).length
      else 0

/-- The character of a complete sequence: the low bits of the leading byte, and six bits of each
other one. -/
def sequenceChar (lead : UInt8) (tail : List UInt8) : Char :=
  Char.ofNat (tail.foldl (fun n b => n * 64 + b.toNat % 64)
    (if tail = [] then lead.toNat else lead.toNat % 2 ^ (6 - tail.length)))

/-- `String::from_utf8_lossy`: each maximal piece of an incomplete sequence becomes one
replacement character. -/
def fromUtf8Lossy : List UInt8 → List Char
  | [] => []
  | lead :: rest =>
      (if sequenceLen lead = sequenceTail lead rest + 1 then
        sequenceChar lead (rest.take (sequenceTail lead rest))
      else Char.ofNat 0xfffd) :: fromUtf8Lossy (rest.drop (sequenceTail lead rest))
termination_by bytes => bytes.length
decreasing_by
  rw [List.length_drop, List.length_cons]
  omega

/-- The `width` low-order hexadecimal digits of a number, with zeros in front. -/
def hexDigits : ℕ → ℕ → List Char
  | 0, _ => []
  | width + 1, n => hexDigits width (n / 16) ++ [Nat.digitChar (n % 16)]

/-! ### Protocols -/

/-- `Version`: the semantic version of a protocol. Only the major part has to agree. -/
structure Version where
  major : UInt32
  minor : UInt32
  patch : UInt32
  deriving DecidableEq, Repr

/-- `Protocol`: the application protocol one side speaks, an identifier and a version. -/
structure Protocol where
  id : UInt64
  version : Version
  deriving DecidableEq, Repr

/-- `impl Display for Version`: the three numbers with dots between them. -/
def Version.display (v : Version) : String :=
  Nat.repr v.major.toNat ++ "." ++ Nat.repr v.minor.toNat ++ "." ++ Nat.repr v.patch.toNat

/-- `impl Display for Protocol`: the identifier in sixteen hexadecimal digits, and the version. -/
def Protocol.display (p : Protocol) : String :=
  String.ofList (hexDigits 16 p.id.toNat) ++ " v" ++ p.version.display

/-- `incompatibility`: why two protocols do not go together, if they do not. The identifiers and the
major versions have to be equal; a major version of zero is no exception. -/
def incompatibility (ours peer : Protocol) : Option (HandshakeError × String) :=
  if peer.id ≠ ours.id then
    some (.protocolMismatch,
      "peer speaks protocol " ++ peer.display ++ ", this side " ++ ours.display)
  else if peer.version.major ≠ ours.version.major then
    some (.incompatibleVersion,
      "peer speaks v" ++ peer.version.display ++ ", this side v" ++ ours.version.display)
  else none

/-- Two protocols go together exactly when they are the same at the same major version. -/
theorem incompatibility_eq_none_iff (ours peer : Protocol) :
    incompatibility ours peer = none ↔
      peer.id = ours.id ∧ peer.version.major = ours.version.major := by
  rw [incompatibility]
  split_ifs with hid hmajor
  · simp [hid]
  · simp [hmajor]
  · simp only [ne_eq, not_not] at hid hmajor
    simp [hid, hmajor]

/-! ### Modes -/

/-- `HandshakeMode`: how a peer is authenticated. Both sides have to be in modes of the same
scheme. -/
inductive HandshakeMode
  | disabled
  | versionOnly
  | hmacSha256 (secret : List UInt8)
  | signedProcess (publicKey : List UInt8)

/-- `scheme_id`: the id of a mode on the wire. A disabled handshake has no packets, and the id is
that of a mode without a proof. -/
def HandshakeMode.schemeId : HandshakeMode → UInt8
  | disabled | versionOnly => 0
  | hmacSha256 _ => 1
  | signedProcess _ => 2

/-! ### Packets -/

/-- The version of the handshake itself, the first field behind the tag of a hello and of an
answer. -/
def HANDSHAKE_VERSION : UInt16 := 3
/-- The bytes of a nonce: as many as a MAC has. -/
def NONCE_LEN : ℕ := 32
/-- What the MAC of a nonce covers in front of it, so that it is no MAC of anything else. -/
def HMAC_LABEL : List UInt8 := utf8 "ogurpchik/handshake/v1"
/-- Longest body of a packet; a longer one is refused by its length field, before any of it is
read. -/
def MAX_PACKET_LEN : ℕ := 4096
/-- The tag of the first packet of the server, which carries the nonce. -/
def TAG_HELLO : UInt8 := 1
/-- The tag of the one packet of the client, which carries the proof. -/
def TAG_CLIENT_AUTH : UInt8 := 2
/-- The tag of the last packet of the server; a server that refuses at once sends nothing else. -/
def TAG_ACK : UInt8 := 3
/-- The status of an ack that accepts the client. -/
def ACK_OK : UInt8 := 0
/-- The status of an ack that refuses the client, with a reason behind it; any other status but
`ACK_OK` refuses too. -/
def ACK_REJECTED : UInt8 := 1

/-- `WireProtocol`: a protocol as four fields, the identifier in front of the three numbers of the
version. -/
def wireProtocol : Format Protocol :=
  (u64.pair (u32.pair (u32.pair u32))).map (fun p => ⟨p.1, p.2.1, p.2.2.1, p.2.2.2⟩)
    (fun p => (p.id, p.version.major, p.version.minor, p.version.patch))
    (fun _ => rfl) (fun _ => rfl)

/-- `HelloPacket` and `ClientAuthPacket`: the payload is the nonce of a hello and the proof of a
client auth. -/
structure AuthPacket where
  tag : UInt8
  version : UInt16
  scheme : UInt8
  protocol : Protocol
  payloadLen : UInt16
  payload : List UInt8

/-- The layout of a hello and of a client auth: tag, version, scheme, protocol, and a payload behind
its length. -/
def AuthPacket.format : Format AuthPacket :=
  (u8.pair (u16.pair (u8.pair (wireProtocol.pair (u16.counted UInt16.toNat))))).map
    (fun p => ⟨p.1, p.2.1, p.2.2.1, p.2.2.2.1, p.2.2.2.2.1, p.2.2.2.2.2⟩)
    (fun p => (p.tag, p.version, p.scheme, p.protocol, p.payloadLen, p.payload))
    (fun _ => rfl) (fun _ => rfl)

/-- `AckPacket`: a status, and a reason behind its length. An ack has no version field. -/
structure AckPacket where
  tag : UInt8
  status : UInt8
  reasonLen : UInt16
  reason : List UInt8

/-- The layout of an ack: tag, status, and a reason behind its length. -/
def AckPacket.format : Format AckPacket :=
  (u8.pair (u8.pair (u16.counted UInt16.toNat))).map
    (fun p => ⟨p.1, p.2.1, p.2.2.1, p.2.2.2⟩)
    (fun p => (p.tag, p.status, p.reasonLen, p.reason)) (fun _ => rfl) (fun _ => rfl)

/-- `malformed`: the report of a packet that does not have its layout, with the name of the
packet. -/
def malformed (what : String) : Report :=
  (Report.new .malformedPacket).attach ("invalid " ++ what ++ " packet")

/-- `read_body`: decode a body that has to be used up; bytes behind the packet make it malformed. -/
def readBody {α : Type} (format : Format α) (body : List UInt8) (what : String) :
    Except Report α :=
  match format.decode body with
  | some packet => .ok packet
  | none => .error (malformed what)

/-- `packet_version`: the two bytes behind the tag, wherever a body has them, whether or not the
body is of a layout with a version. -/
def packetVersion : List UInt8 → Option UInt16
  | _ :: lo :: hi :: _ => some (UInt16.ofNat (leNat [lo, hi]))
  | _ => none

/-- Encode a hello or a client auth. The length of the payload is cast to two bytes without a
check. -/
def encodeAuth (tag scheme : UInt8) (protocol : Protocol) (payload : List UInt8) : List UInt8 :=
  AuthPacket.format.write
    ⟨tag, HANDSHAKE_VERSION, scheme, protocol, UInt16.ofNat payload.length, payload⟩

/-- Decode a hello or a client auth: a body of the layout with another tag is as malformed as one
that is not. -/
def decodeAuth (tag : UInt8) (what : String) (body : List UInt8) :
    Except Report (UInt8 × Protocol × List UInt8) := do
  let packet ← readBody AuthPacket.format body what
  if packet.tag ≠ tag then throw (malformed what)
  return (packet.scheme, packet.protocol, packet.payload)

/-- `encode_hello`: a hello is laid out as an answer is, with the nonce as its payload. -/
def encodeHello (scheme : UInt8) (protocol : Protocol) (nonce : List UInt8) : List UInt8 :=
  encodeAuth TAG_HELLO scheme protocol nonce

/-- `decode_hello`: the scheme, the protocol and the nonce of a hello. -/
def decodeHello (body : List UInt8) : Except Report (UInt8 × Protocol × List UInt8) :=
  decodeAuth TAG_HELLO "hello" body

/-- `encode_client_auth`: the answer of a client, with the proof as its payload. -/
def encodeClientAuth (scheme : UInt8) (protocol : Protocol) (proof : List UInt8) : List UInt8 :=
  encodeAuth TAG_CLIENT_AUTH scheme protocol proof

/-- `decode_client_auth`: the scheme, the protocol and the proof of an answer. -/
def decodeClientAuth (body : List UInt8) : Except Report (UInt8 × Protocol × List UInt8) :=
  decodeAuth TAG_CLIENT_AUTH "client auth" body

/-- `encode_ack`: a status and a reason, whose length is cut to the two bytes of its field. -/
def encodeAck (status : UInt8) (reason : List UInt8) : List UInt8 :=
  AckPacket.format.write ⟨TAG_ACK, status, UInt16.ofNat reason.length, reason⟩

/-- `decode_ack`: nothing for an accepting ack, or the report of a refusal with its reason. -/
def decodeAck (body : List UInt8) : Except Report Unit := do
  let packet ← readBody AckPacket.format body "ack"
  if packet.tag ≠ TAG_ACK then throw (malformed "ack")
  if packet.status = ACK_OK then return ()
  throw ((Report.new .rejected).attach (String.ofList (fromUtf8Lossy packet.reason)))

/-! ### Layouts -/

/-- The bytes of a hello or a client auth, written out: what the layout comes to when its length
field is right. -/
def authBody (tag : UInt8) (version : UInt16) (scheme : UInt8) (protocol : Protocol)
    (payload : List UInt8) : List UInt8 :=
  tag :: leBytes 2 version.toNat ++ scheme :: leBytes 8 protocol.id.toNat ++
    leBytes 4 protocol.version.major.toNat ++ leBytes 4 protocol.version.minor.toNat ++
    leBytes 4 protocol.version.patch.toNat ++ leBytes 2 payload.length ++ payload

/-- The bytes of an ack, written out: what the layout comes to when its length field is right. -/
def ackBody (status : UInt8) (reason : List UInt8) : List UInt8 :=
  TAG_ACK :: status :: leBytes 2 reason.length ++ reason

/-- The layout of a hello or a client auth, field by field. -/
theorem authBody_eq (tag : UInt8) (version : UInt16) (scheme : UInt8) (protocol : Protocol)
    (payload : List UInt8) :
    authBody tag version scheme protocol payload =
      [tag] ++ leBytes 2 version.toNat ++ [scheme] ++ leBytes 8 protocol.id.toNat ++
        leBytes 4 protocol.version.major.toNat ++ leBytes 4 protocol.version.minor.toNat ++
        leBytes 4 protocol.version.patch.toNat ++ leBytes 2 payload.length ++ payload := by
  simp only [authBody, List.append_assoc, List.cons_append, List.nil_append]

/-- The fields in front of the payload take 26 bytes. -/
@[simp] theorem length_authBody (tag : UInt8) (version : UInt16) (scheme : UInt8)
    (protocol : Protocol) (payload : List UInt8) :
    (authBody tag version scheme protocol payload).length = 26 + payload.length := by
  rw [authBody]
  simp only [List.length_append, List.length_cons, length_leBytes]

/-- The fields in front of the reason take 4 bytes. -/
@[simp] theorem length_ackBody (status : UInt8) (reason : List UInt8) :
    (ackBody status reason).length = 4 + reason.length := by
  rw [ackBody]
  simp only [List.length_append, List.length_cons, length_leBytes]

/-- A byte is written as itself. -/
theorem write_u8 (b : UInt8) : u8.write b = [b] := by
  change leBytes 1 b.toNat = [b]
  rw [leBytes, leBytes, UInt8.ofNat_toNat]

/-- A packet whose length field is right is written as the layout says, field by field. -/
theorem write_auth (p : AuthPacket) (h : p.payload.length = p.payloadLen.toNat) :
    AuthPacket.format.write p = authBody p.tag p.version p.scheme p.protocol p.payload := by
  change u8.write p.tag ++ (leBytes 2 _ ++ (u8.write p.scheme ++ ((leBytes 8 _ ++ (leBytes 4 _ ++
    (leBytes 4 _ ++ leBytes 4 _))) ++ (leBytes 2 _ ++ p.payload)))) = _
  simp only [write_u8, authBody, h, List.append_assoc, List.cons_append, List.nil_append]

/-- So is an ack. -/
theorem write_ack (p : AckPacket) (h : p.reason.length = p.reasonLen.toNat)
    (htag : p.tag = TAG_ACK) : AckPacket.format.write p = ackBody p.status p.reason := by
  change u8.write p.tag ++ (u8.write p.status ++ (leBytes 2 _ ++ p.reason)) = _
  simp only [write_u8, ackBody, h, htag, List.cons_append, List.nil_append]

/-- A length below 65536 survives its field of two bytes. -/
theorem toNat_ofNat_length {xs : List UInt8} (h : xs.length < 2 ^ 16) :
    xs.length = (UInt16.ofNat xs.length).toNat := by
  rw [UInt16.toNat_ofNat', Nat.mod_eq_of_lt h]

/-- The encoder writes the layout, as long as the payload fits its length field. -/
theorem encodeAuth_eq {payload : List UInt8} (h : payload.length < 2 ^ 16) (tag scheme : UInt8)
    (protocol : Protocol) : encodeAuth tag scheme protocol payload =
      authBody tag HANDSHAKE_VERSION scheme protocol payload :=
  write_auth _ (toNat_ofNat_length h)

/-- The encoder of acks writes the layout, as long as the reason fits its length field. -/
theorem encodeAck_eq {reason : List UInt8} (h : reason.length < 2 ^ 16) (status : UInt8) :
    encodeAck status reason = ackBody status reason :=
  write_ack _ (toNat_ofNat_length h) rfl

/-- The version field of a hello or a client auth is where `packet_version` looks for it. -/
theorem packetVersion_authBody (tag : UInt8) (version : UInt16) (scheme : UInt8)
    (protocol : Protocol) (payload : List UInt8) :
    packetVersion (authBody tag version scheme protocol payload) = some version := by
  have hlt : version.toNat < 256 ^ 2 := version.toNat_lt
  have hread := leNat_leBytes_of_lt hlt
  have hbytes : leBytes 2 version.toNat =
      [UInt8.ofNat version.toNat, UInt8.ofNat (version.toNat / 256)] := rfl
  rw [hbytes] at hread
  simp only [authBody, hbytes, List.cons_append, packetVersion, hread, UInt16.ofNat_toNat]

/-- A body is read as a packet exactly if it is what is written for that packet, without a byte
behind it. -/
theorem readBody_eq_ok_iff {α : Type} {format : Format α} {body : List UInt8} {what : String}
    {packet : α} :
    readBody format body what = .ok packet ↔
      format.Valid packet ∧ body = format.write packet := by
  rw [← format.decode_eq_some_iff, readBody]
  cases format.decode body <;> simp

/-- A body that is not read is reported as malformed, and nothing else. -/
theorem readBody_eq_error {α : Type} {format : Format α} {body : List UInt8} {what : String}
    {report : Report} (h : readBody format body what = .error report) :
    report = malformed what := by
  rw [readBody] at h
  split at h <;> cases h
  rfl

/-- **A hello or a client auth decodes** exactly when the body has its layout, at any version. -/
theorem decodeAuth_eq_ok_iff {tag : UInt8} {what : String} {body : List UInt8} {scheme : UInt8}
    {protocol : Protocol} {payload : List UInt8} :
    decodeAuth tag what body = .ok (scheme, protocol, payload) ↔
      ∃ version, payload.length < 2 ^ 16 ∧
        body = authBody tag version scheme protocol payload := by
  constructor
  · intro h
    simp only [decodeAuth, bind, Except.bind] at h
    cases hread : readBody AuthPacket.format body what with
    | error report => simp [hread] at h
    | ok packet =>
        obtain ⟨hvalid, rfl⟩ := readBody_eq_ok_iff.1 hread
        have hlen : packet.payload.length = packet.payloadLen.toNat := hvalid.2.2.2.2.2
        simp only [hread] at h
        by_cases htag : packet.tag = tag
        · simp only [htag, ne_eq, not_true, if_false, pure, Except.pure, Except.ok.injEq,
            Prod.mk.injEq] at h
          obtain ⟨rfl, rfl, rfl⟩ := h
          refine ⟨packet.version, ?_, ?_⟩
          · rw [hlen]
            exact packet.payloadLen.toNat_lt
          · rw [write_auth packet hlen, htag]
        · simp [htag, throw, throwThe, MonadExceptOf.throw] at h
  · rintro ⟨version, hlen, rfl⟩
    have hlen' := toNat_ofNat_length hlen
    have hread : readBody AuthPacket.format (authBody tag version scheme protocol payload) what =
        .ok ⟨tag, version, scheme, protocol, UInt16.ofNat payload.length, payload⟩ :=
      readBody_eq_ok_iff.2
        ⟨⟨trivial, trivial, trivial, ⟨trivial, trivial, trivial, trivial⟩, trivial, hlen'⟩,
          (write_auth ⟨tag, version, scheme, protocol, _, payload⟩ hlen').symm⟩
    simp [decodeAuth, hread, bind, Except.bind, pure, Except.pure]

/-- Any other body is malformed, and the report names the packet it was to be. -/
theorem decodeAuth_eq_error {tag : UInt8} {what : String} {body : List UInt8} {report : Report}
    (h : decodeAuth tag what body = .error report) : report = malformed what := by
  simp only [decodeAuth, bind, Except.bind] at h
  cases hread : readBody AuthPacket.format body what with
  | error r =>
      simp only [hread, Except.error.injEq] at h
      rw [← h]
      exact readBody_eq_error hread
  | ok packet =>
      simp only [hread] at h
      by_cases htag : packet.tag = tag
      · simp [htag, pure, Except.pure] at h
      · simp only [htag, ne_eq, not_false_eq_true, if_true, throw, throwThe, MonadExceptOf.throw,
          Except.error.injEq] at h
        exact h.symm

/-- A body of the layout of an ack is read as that ack. -/
theorem readBody_ackBody {status : UInt8} {reason : List UInt8} (h : reason.length < 2 ^ 16) :
    readBody AckPacket.format (ackBody status reason) "ack" =
      .ok ⟨TAG_ACK, status, UInt16.ofNat reason.length, reason⟩ :=
  readBody_eq_ok_iff.2 ⟨⟨trivial, trivial, trivial, toNat_ofNat_length h⟩,
    (write_ack ⟨TAG_ACK, status, _, reason⟩ (toNat_ofNat_length h) rfl).symm⟩

/-- **An ack decodes** exactly when the body has its layout and the status is OK. -/
theorem decodeAck_eq_ok_iff {body : List UInt8} :
    decodeAck body = .ok () ↔
      ∃ reason, reason.length < 2 ^ 16 ∧ body = ackBody ACK_OK reason := by
  constructor
  · intro h
    simp only [decodeAck, bind, Except.bind] at h
    cases hread : readBody AckPacket.format body "ack" with
    | error report => simp [hread] at h
    | ok packet =>
        obtain ⟨hvalid, rfl⟩ := readBody_eq_ok_iff.1 hread
        have hlen : packet.reason.length = packet.reasonLen.toNat := hvalid.2.2.2
        simp only [hread] at h
        by_cases htag : packet.tag = TAG_ACK
        · by_cases hstatus : packet.status = ACK_OK
          · refine ⟨packet.reason, ?_, ?_⟩
            · rw [hlen]
              exact packet.reasonLen.toNat_lt
            · rw [write_ack packet hlen htag, hstatus]
          · simp [htag, hstatus, throw, throwThe, MonadExceptOf.throw] at h
        · simp [htag, throw, throwThe, MonadExceptOf.throw] at h
  · rintro ⟨reason, hlen, rfl⟩
    simp [decodeAck, readBody_ackBody hlen, bind, Except.bind, pure, Except.pure]

/-- An ack with another status is the peer's refusal, with its reason. -/
theorem decodeAck_of_rejected {status : UInt8} {reason : List UInt8} (h : reason.length < 2 ^ 16)
    (hstatus : status ≠ ACK_OK) :
    decodeAck (ackBody status reason) =
      .error ((Report.new .rejected).attach (String.ofList (fromUtf8Lossy reason))) := by
  simp [decodeAck, readBody_ackBody h, hstatus, bind, Except.bind, throw, throwThe,
    MonadExceptOf.throw]

/-- An ack that is not taken for an OK is a refusal with its reason, or malformed. -/
theorem decodeAck_eq_error {body : List UInt8} {report : Report}
    (h : decodeAck body = .error report) :
    report = malformed "ack" ∨ ∃ status reason, reason.length < 2 ^ 16 ∧
      body = ackBody status reason ∧
      report = (Report.new .rejected).attach (String.ofList (fromUtf8Lossy reason)) := by
  simp only [decodeAck, bind, Except.bind] at h
  cases hread : readBody AckPacket.format body "ack" with
  | error r =>
    simp only [hread, Except.error.injEq] at h
    exact .inl (h ▸ readBody_eq_error hread)
  | ok packet =>
    obtain ⟨hvalid, rfl⟩ := readBody_eq_ok_iff.1 hread
    simp only [hread] at h
    by_cases htag : packet.tag = TAG_ACK
    · by_cases hstatus : packet.status = ACK_OK
      · simp [htag, hstatus, pure, Except.pure] at h
      · simp only [htag, hstatus, ne_eq, not_true, if_false, throw, throwThe,
          MonadExceptOf.throw, Except.error.injEq] at h
        have hlen : packet.reason.length = packet.reasonLen.toNat := hvalid.2.2.2
        exact .inr ⟨packet.status, packet.reason, hlen ▸ packet.reasonLen.toNat_lt,
          write_ack packet hlen htag, h.symm⟩
    · simp only [htag, ne_eq, not_false_eq_true, if_true, throw, throwThe, MonadExceptOf.throw,
        Except.error.injEq] at h
      exact .inl h.symm

end Ogurpchik
