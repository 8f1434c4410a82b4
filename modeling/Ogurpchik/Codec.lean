import Ogurpchik.Rejection

/-!
# The Handshake's Codecs

What the three decoders of the handshake accept, as one set of laws: a decoder accepts a body
exactly when the body is its own layout to the last byte, so that what was encoded decodes to
itself, what was decoded encodes to itself, and no body is accepted by two decoders. The length
field of a packet has two bytes and the writer of a packet casts to them without a check, so the
laws of the encoders hold up to 65535 bytes of payload.

The readers of a packet refuse one of more than `MAX_PACKET_LEN` bytes, and nothing on the writing
side asks for that limit. The second part shows that the two halves keep to it on their own: along
every run, whatever the peer and the operating system answer. The longest packet is a refusal that
quotes two protocols.

## Main definitions

* `Accepts`: what a decoder returns is not a malformed packet.
* `HasAuthLayout`, `HasAckLayout`: the layouts.
* `SendsShort`: every packet a program sends fits the limit.

## Main results

* `accepts_decodeAuth_iff`, `accepts_decodeAck_iff`: acceptance is the layout.
* `sendsShort_authenticateServer`, `sendsShort_authenticateClient`: the limit along every run.
* `handshake_codecs_exact`: the laws together.
-/

namespace Ogurpchik

open Async

/-! ### What is accepted -/

/-- A decoder accepts a body: it returns anything but a malformed packet. A refusal is accepted as
an ack. -/
def Accepts {α : Type} (decode : List UInt8 → Except Report α) (body : List UInt8) : Prop :=
  ∀ report, decode body = .error report → report.context ≠ .malformedPacket

/-- The layout of a hello or a client auth, at any version and with any payload that its length
field can count. -/
def HasAuthLayout (tag : UInt8) (body : List UInt8) : Prop :=
  ∃ version scheme protocol payload, payload.length < 2 ^ 16 ∧
    body = authBody tag version scheme protocol payload

/-- The layout of an ack, with any status and any reason that its length field can count; a reason
need not be UTF-8. -/
def HasAckLayout (body : List UInt8) : Prop :=
  ∃ status reason, reason.length < 2 ^ 16 ∧ body = ackBody status reason

/-- A hello and an answer begin with their tag, which is how the two sides tell packets apart. -/
theorem HasAuthLayout.head {tag : UInt8} {body : List UInt8} (h : HasAuthLayout tag body) :
    body.head? = some tag := by
  obtain ⟨version, scheme, protocol, payload, -, rfl⟩ := h
  rw [authBody_eq]
  rfl

/-- An ack begins with its tag, so it is never taken for a hello or an answer. -/
theorem HasAckLayout.head {body : List UInt8} (h : HasAckLayout body) :
    body.head? = some TAG_ACK := by
  obtain ⟨status, reason, -, rfl⟩ := h
  rfl

/-- **A hello or a client auth is accepted** exactly when it has the layout. -/
theorem accepts_decodeAuth_iff (tag : UInt8) (what : String) (body : List UInt8) :
    Accepts (decodeAuth tag what) body ↔ HasAuthLayout tag body := by
  constructor
  · intro h
    cases hdecode : decodeAuth tag what body with
    | error report =>
      obtain rfl := decodeAuth_eq_error hdecode
      exact absurd rfl (h _ hdecode)
    | ok decoded =>
      obtain ⟨scheme, protocol, payload⟩ := decoded
      obtain ⟨version, hlen, hbody⟩ := decodeAuth_eq_ok_iff.mp hdecode
      exact ⟨version, scheme, protocol, payload, hlen, hbody⟩
  · rintro ⟨version, scheme, protocol, payload, hlen, rfl⟩ report hdecode
    cases (decodeAuth_eq_ok_iff.mpr ⟨version, hlen, rfl⟩).symm.trans hdecode

/-- **An ack is accepted** exactly when it has the layout, with the reason filling the rest of the
body. -/
theorem accepts_decodeAck_iff (body : List UInt8) :
    Accepts decodeAck body ↔ HasAckLayout body := by
  constructor
  · intro h
    cases hdecode : decodeAck body with
    | error report =>
      rcases decodeAck_eq_error hdecode with rfl | ⟨status, reason, hlen, hbody, -⟩
      · exact absurd rfl (h _ hdecode)
      · exact ⟨status, reason, hlen, hbody⟩
    | ok _ =>
      obtain ⟨reason, hlen, hbody⟩ := decodeAck_eq_ok_iff.mp hdecode
      exact ⟨ACK_OK, reason, hlen, hbody⟩
  · rintro ⟨status, reason, hlen, rfl⟩ report hdecode
    by_cases hstatus : status = ACK_OK
    · subst hstatus
      cases (decodeAck_eq_ok_iff.mpr ⟨reason, hlen, rfl⟩).symm.trans hdecode
    · cases (decodeAck_of_rejected hlen hstatus).symm.trans hdecode
      simp [Report.new, Report.attach]

/-- What was encoded decodes to itself. -/
theorem decodeAuth_encodeAuth {payload : List UInt8} (h : payload.length < 2 ^ 16)
    (tag scheme : UInt8) (what : String) (protocol : Protocol) :
    decodeAuth tag what (encodeAuth tag scheme protocol payload) =
      .ok (scheme, protocol, payload) :=
  decodeAuth_eq_ok_iff.mpr ⟨HANDSHAKE_VERSION, h, encodeAuth_eq h tag scheme protocol⟩

/-- What was decoded encodes to itself, at the version of the encoder. -/
theorem encodeAuth_of_decodeAuth {tag scheme : UInt8} {what : String} {body payload : List UInt8}
    {protocol : Protocol} (hversion : packetVersion body = some HANDSHAKE_VERSION)
    (h : decodeAuth tag what body = .ok (scheme, protocol, payload)) :
    encodeAuth tag scheme protocol payload = body := by
  obtain ⟨version, hlen, rfl⟩ := decodeAuth_eq_ok_iff.mp h
  rw [packetVersion_authBody, Option.some.injEq] at hversion
  rw [encodeAuth_eq hlen, hversion]

/-! ### What the two halves send -/

/-- A packet that is sent is one the peer reads: `read_packet` refuses longer ones by their length
field. -/
def FitsPacket : PacketOp → Prop
  | .writePacket body => body.length ≤ MAX_PACKET_LEN
  | _ => True

/-- Every packet `x` sends fits, along every run, and a value it returns has `post`. -/
def SendsShort {α : Type} (post : α → Prop) (x : HandshakeM α) : Prop :=
  x.run.Safe (fun _ op => FitsPacket op) (fun _ _ _ => ()) (fun _ r => ∀ a, r = .ok a → post a) ()

section SendsShort

variable {α β : Type} {pre : α → Prop} {post : β → Prop}

/-- The rule of sequence: code sends only short packets if both of its parts do. -/
theorem SendsShort.bind {x : HandshakeM α} {f : α → HandshakeM β} (hx : SendsShort pre x)
    (hf : ∀ a, pre a → SendsShort post (f a)) : SendsShort post (x >>= f) := by
  refine Prog.Safe.bind (Prog.Safe.mono ?_ hx)
  intro s r hr
  cases r with
  | error fault => exact fun a h => by cases h
  | ok a => exact hf a (hr a rfl)

/-- Returning a value sends nothing. -/
theorem sendsShort_pure {b : β} (h : post b) : SendsShort post (pure b) := by
  rintro a ⟨⟩
  exact h

/-- A failure sends nothing either; a refusal is sent before it (`sendsShort_reject`). -/
theorem sendsShort_throw (fault : HandshakeFault) :
    SendsShort post (throw fault : HandshakeM β) := by
  rintro a ⟨⟩

/-- Turning a result into a failure sends nothing. -/
theorem sendsShort_orReport (r : Except Report α) : SendsShort (fun _ => True) (orReport r) := by
  cases r with
  | error report => exact sendsShort_throw _
  | ok a => exact sendsShort_pure trivial

/-- What is written is short if its body is: the one place where a packet goes out. -/
theorem sendsShort_writePacket {body : List UInt8} (h : body.length ≤ MAX_PACKET_LEN) :
    SendsShort (fun _ => True) (writePacket body) :=
  ⟨h, sendsShort_orReport⟩

/-- Reading a packet sends nothing. -/
theorem sendsShort_readPacketWithTimeout : SendsShort (fun _ => True) readPacketWithTimeout :=
  ⟨trivial, sendsShort_orReport⟩

/-- Asking the operating system sends nothing. -/
theorem sendsShort_askHost (op : HostOp) : SendsShort (fun _ => True) (askHost op) :=
  ⟨trivial, fun _ _ _ => trivial⟩

/-- A refusal fits into a packet if its reason is not too long; a character takes four bytes at
most. -/
theorem sendsShort_reject {text : String} (h : text.length ≤ 1023) (report : Report) :
    SendsShort post (reject (utf8 text) report) := by
  have hbytes := length_utf8_le text
  rw [String.length_toList] at hbytes
  refine ⟨?_, ?_⟩
  · change (encodeAck _ _).length ≤ 4096
    rw [length_encodeAck]
    omega
  · rintro ans a ⟨⟩

end SendsShort

/-! ### The reasons -/

/-- A byte prints as three digits at most. -/
theorem length_repr_uint8 (n : UInt8) : (Nat.repr n.toNat).length ≤ 3 :=
  Nat.repr_length _ 3 (by decide) (n.toNat_lt.trans (by decide))

/-- A field of two bytes prints as five digits at most. -/
theorem length_repr_uint16 (n : UInt16) : (Nat.repr n.toNat).length ≤ 5 :=
  Nat.repr_length _ 5 (by decide) (n.toNat_lt.trans (by decide))

/-- A field of four bytes prints as ten digits at most. -/
theorem length_repr_uint32 (n : UInt32) : (Nat.repr n.toNat).length ≤ 10 :=
  Nat.repr_length _ 10 (by decide) (n.toNat_lt.trans (by decide))

/-- The identifier of a protocol is printed at a fixed width. -/
@[simp] theorem length_hexDigits (width n : ℕ) : (hexDigits width n).length = width := by
  induction width generalizing n with
  | zero => rfl
  | succ width ih => rw [hexDigits, List.length_append, ih, List.length_singleton]

/-- A version is three numbers of four bytes, so its text is short whatever the peer claims. -/
theorem length_version_display (v : Version) : v.display.length ≤ 32 := by
  have hmajor := length_repr_uint32 v.major
  have hminor := length_repr_uint32 v.minor
  have hpatch := length_repr_uint32 v.patch
  have hdot : ".".length = 1 := by decide
  simp only [Version.display, String.length_append, hdot]
  omega

/-- So is the text of a protocol: an identifier of fixed width and a version. -/
theorem length_protocol_display (p : Protocol) : p.display.length ≤ 50 := by
  have hversion := length_version_display p.version
  have hv : " v".length = 2 := by decide
  simp only [Protocol.display, String.length_append, String.length_ofList, length_hexDigits, hv]
  omega

/-- The reason given to an incompatible client holds both protocols, or both versions, and still
fits. -/
theorem length_incompatibility {ours peer : Protocol} {error : HandshakeError} {reason : String}
    (h : incompatibility ours peer = some (error, reason)) : reason.length ≤ 1023 := by
  rw [incompatibility] at h
  split_ifs at h
  · cases h
    have hpeer := length_protocol_display peer
    have hours := length_protocol_display ours
    have hspeaks : "peer speaks protocol ".length = 21 := by decide
    have hside : ", this side ".length = 12 := by decide
    simp only [String.length_append, hspeaks, hside]
    omega
  · cases h
    have hpeer := length_version_display peer.version
    have hours := length_version_display ours.version
    have hspeaks : "peer speaks v".length = 13 := by decide
    have hside : ", this side v".length = 13 := by decide
    simp only [String.length_append, hspeaks, hside]
    omega

/-- The reason given to a client of another handshake version fits, however long the two numbers
are. -/
theorem length_version_reason (client : UInt16) :
    ("unsupported handshake version: client=" ++ Nat.repr client.toNat ++ " server=" ++
      Nat.repr HANDSHAKE_VERSION.toNat).length ≤ 1023 := by
  have hclient := length_repr_uint16 client
  have hserver := length_repr_uint16 HANDSHAKE_VERSION
  have hversion : "unsupported handshake version: client=".length = 38 := by decide
  have hside : " server=".length = 8 := by decide
  simp only [String.length_append, hversion, hside]
  omega

/-- The reason given to a client with another scheme fits, however long the two numbers are. -/
theorem length_scheme_reason (client server : UInt8) :
    ("handshake auth mismatch: client=" ++ Nat.repr client.toNat ++ " server=" ++
      Nat.repr server.toNat).length ≤ 1023 := by
  have hclient := length_repr_uint8 client
  have hserver := length_repr_uint8 server
  have hmismatch : "handshake auth mismatch: client=".length = 32 := by decide
  have hside : " server=".length = 8 := by decide
  simp only [String.length_append, hmismatch, hside]
  omega

/-! ### The two halves -/

section Halves

variable (mac : Mac) (transport : Transport) (mode : HandshakeMode) (protocol : Protocol)

/-- Finding out about the peer process sends nothing: where it fails, the handshake ends without a
word. -/
theorem sendsShort_attestPid :
    SendsShort (fun _ => True) (attestPid transport mode) := by
  cases mode with
  | signedProcess key =>
    refine (sendsShort_askHost .peerIdentity).bind fun identity _ => ?_
    cases identity with
    | pid pid => exact sendsShort_pure trivial
    | unknown => exact sendsShort_throw _
  | disabled | versionOnly | hmacSha256 _ => exact sendsShort_pure trivial

/-- A nonce is as long as the operating system was asked for. -/
theorem sendsShort_freshNonce :
    SendsShort (fun nonce => nonce.length = NONCE_LEN) freshNonce := by
  refine (sendsShort_askHost .fillRandom).bind fun answer _ => ?_
  cases answer with
  | error e => exact sendsShort_throw _
  | ok nonce => exact sendsShort_pure nonce.property

/-- Looking at a process sends nothing: the three questions go to the system. -/
theorem sendsShort_verifySignedProcess (pid : UInt32) (key : List UInt8) :
    SendsShort (fun _ => True) (ExceptT.lift (verifySignedProcess pid key)) := by
  refine ⟨trivial, fun before => ?_⟩
  rcases before with report | before
  · exact fun _ _ => trivial
  refine ⟨trivial, fun image => ?_⟩
  rcases image with report | image
  · exact fun _ _ => trivial
  refine ⟨trivial, fun after => ?_⟩
  rcases after with report | after
  · exact fun _ _ => trivial
  dsimp only
  split_ifs
  · exact fun _ _ => trivial
  · exact fun _ _ => trivial

/-- Checking a proof sends nothing unless it fails, and then one of the fixed reasons. -/
theorem sendsShort_checkProof (attestedPid : Option UInt32) (nonce proof : List UInt8) :
    SendsShort (fun _ => True) (checkProof mac attestedPid nonce proof mode) := by
  cases mode with
  | signedProcess key =>
    cases attestedPid with
    | none => exact sendsShort_throw _
    | some pid =>
      refine (sendsShort_verifySignedProcess pid key).bind fun result _ => ?_
      cases result with
      | error report => exact sendsShort_reject (by decide) _
      | ok _ => exact sendsShort_pure trivial
  | disabled | versionOnly | hmacSha256 _ =>
    simp only [checkProof]
    split_ifs
    · exact sendsShort_reject (by decide) _
    · exact sendsShort_pure trivial

/-- The answer to a client is an ack, accepting or refusing; all reasons are bounded above. -/
theorem sendsShort_answerAuth (attestedPid : Option UInt32) (nonce body : List UInt8) :
    SendsShort (fun _ => True) (answerAuth mac mode protocol attestedPid nonce body) := by
  rw [answerAuth]
  split
  · exact sendsShort_reject (length_version_reason _) _
  refine (sendsShort_orReport _).bind fun decoded _ => ?_
  dsimp only
  split_ifs
  · exact sendsShort_reject (length_scheme_reason _ _) _
  split
  · next error reason hcompat => exact sendsShort_reject (length_incompatibility hcompat) _
  · exact (sendsShort_checkProof mac mode attestedPid nonce _).bind fun _ _ =>
      (sendsShort_writePacket length_encodeAckOk).bind fun _ _ => sendsShort_pure trivial

/-- Every packet the server half sends fits: the hello, and the ack with any of the reasons it
gives. -/
theorem sendsShort_authenticateServer :
    SendsShort (fun _ => True) (authenticateServer mac transport mode protocol) := by
  by_cases hmode : mode = .disabled
  · subst hmode
    exact sendsShort_pure trivial
  rw [authenticateServer_eq hmode]
  refine (sendsShort_attestPid transport mode).bind fun attestedPid _ => ?_
  refine sendsShort_freshNonce.bind fun nonce hnonce => ?_
  have hhello := length_encodeAuth_le hnonce.le TAG_HELLO mode.schemeId protocol
  refine (sendsShort_writePacket hhello).bind fun _ _ => ?_
  exact sendsShort_readPacketWithTimeout.bind fun body _ =>
    sendsShort_answerAuth mac mode protocol attestedPid nonce body

/-- Behind its proof the client only reads. -/
theorem sendsShort_awaitAck (peer : Protocol) :
    SendsShort (fun _ => True) (awaitAck protocol peer) := by
  rw [awaitAck]
  split
  · exact sendsShort_throw _
  · exact sendsShort_readPacketWithTimeout.bind fun _ _ =>
      (sendsShort_orReport _).bind fun _ _ => sendsShort_pure trivial

/-- The client answers a hello with one packet, whose proof has a fixed length. -/
theorem sendsShort_answerHello (body : List UInt8) :
    SendsShort (fun _ => True) (answerHello mac mode protocol body) := by
  rw [answerHello]
  split_ifs
  · exact (sendsShort_orReport _).bind fun _ _ => sendsShort_throw _
  split
  · exact sendsShort_throw _
  refine (sendsShort_orReport _).bind fun decoded _ => ?_
  dsimp only
  split_ifs
  · exact sendsShort_throw _
  have hauth := length_encodeAuth_le (length_proofFor_le mac decoded.2.2 mode) TAG_CLIENT_AUTH
    decoded.1 protocol
  exact (sendsShort_writePacket hauth).bind fun _ _ => sendsShort_awaitAck protocol decoded.2.1

/-- Every packet the client half sends fits. -/
theorem sendsShort_authenticateClient :
    SendsShort (fun _ => True) (authenticateClient mac mode protocol) := by
  by_cases hmode : mode = .disabled
  · subst hmode
    exact sendsShort_pure trivial
  rw [authenticateClient_eq hmode]
  exact sendsShort_readPacketWithTimeout.bind fun body _ =>
    sendsShort_answerHello mac mode protocol body

end Halves

/-- A packet that is sent anywhere along a run fits. -/
theorem SendsShort.of_reaches {α : Type} {post : α → Prop} {x : HandshakeM α}
    (hx : SendsShort post x) {history : List (Prog.Event PacketOp PacketOp.Ans)}
    {body : List UInt8} {k : PacketOp.Ans (.writePacket body) → PacketProg _}
    (h : x.run.Reaches history (.await (.writePacket body) k)) : body.length ≤ MAX_PACKET_LEN :=
  (Prog.Safe.of_reaches hx h).1

/-- **The codecs accept exactly their layouts.** Each decoder accepts a body exactly when it has the
layout with the decoder's own tag, an ack of another status than OK being a refusal. A payload of at
most 65535 bytes is decoded with its scheme and protocol as it was encoded, and what was decoded
from a body of the current version is encoded as that body. No body is accepted by two decoders.
Every packet that the server half or the client half sends, whatever it was answered before, has at
most `MAX_PACKET_LEN` bytes. -/
theorem handshake_codecs_exact :
    (∀ body, (Accepts decodeHello body ↔ HasAuthLayout TAG_HELLO body) ∧
      (Accepts decodeClientAuth body ↔ HasAuthLayout TAG_CLIENT_AUTH body) ∧
      (Accepts decodeAck body ↔ HasAckLayout body)) ∧
    (∀ status reason, reason.length ≤ 65535 → status ≠ ACK_OK →
      decodeAck (ackBody status reason) =
        .error ((Report.new .rejected).attach (String.ofList (fromUtf8Lossy reason)))) ∧
    (∀ scheme protocol payload, payload.length ≤ 65535 →
      decodeHello (encodeHello scheme protocol payload) = .ok (scheme, protocol, payload) ∧
      decodeClientAuth (encodeClientAuth scheme protocol payload) =
        .ok (scheme, protocol, payload)) ∧
    (∀ body scheme protocol payload, packetVersion body = some HANDSHAKE_VERSION →
      (decodeHello body = .ok (scheme, protocol, payload) →
        encodeHello scheme protocol payload = body) ∧
      (decodeClientAuth body = .ok (scheme, protocol, payload) →
        encodeClientAuth scheme protocol payload = body)) ∧
    (∀ body, ¬ (Accepts decodeHello body ∧ Accepts decodeClientAuth body) ∧
      ¬ (Accepts decodeHello body ∧ Accepts decodeAck body) ∧
      ¬ (Accepts decodeClientAuth body ∧ Accepts decodeAck body)) ∧
    ∀ mac transport mode protocol history body k,
      ((authenticateServer mac transport mode protocol).run.Reaches history
        (.await (.writePacket body) k) → body.length ≤ MAX_PACKET_LEN) ∧
      ((authenticateClient mac mode protocol).run.Reaches history
        (.await (.writePacket body) k) → body.length ≤ MAX_PACKET_LEN) := by
  have hhello := accepts_decodeAuth_iff TAG_HELLO "hello"
  have hauth := accepts_decodeAuth_iff TAG_CLIENT_AUTH "client auth"
  refine ⟨fun body => ⟨hhello body, hauth body, accepts_decodeAck_iff body⟩, ?_, ?_, ?_, ?_, ?_⟩
  · intro status reason hlen hstatus
    exact decodeAck_of_rejected (by omega) hstatus
  · intro scheme protocol payload hlen
    exact ⟨decodeAuth_encodeAuth (by omega) _ _ _ _, decodeAuth_encodeAuth (by omega) _ _ _ _⟩
  · intro body scheme protocol payload hversion
    exact ⟨encodeAuth_of_decodeAuth hversion, encodeAuth_of_decodeAuth hversion⟩
  · intro body
    -- an accepted body starts with the decoder's tag
    refine ⟨?_, ?_, ?_⟩
    · rintro ⟨h₁, h₂⟩
      have htag := ((hhello body).mp h₁).head.symm.trans ((hauth body).mp h₂).head
      exact absurd htag (by decide)
    · rintro ⟨h₁, h₂⟩
      have htag := ((hhello body).mp h₁).head.symm.trans ((accepts_decodeAck_iff body).mp h₂).head
      exact absurd htag (by decide)
    · rintro ⟨h₁, h₂⟩
      have htag := ((hauth body).mp h₁).head.symm.trans ((accepts_decodeAck_iff body).mp h₂).head
      exact absurd htag (by decide)
  · intro mac transport mode protocol history body k
    exact ⟨(sendsShort_authenticateServer mac transport mode protocol).of_reaches,
      (sendsShort_authenticateClient mac mode protocol).of_reaches⟩

end Ogurpchik
