import Ogurpchik.HandshakeServer

/-!
# The Client Half

What `authenticate_client` accepts and what it discloses, over every byte stream a server may
send. The first packet decides whether the client sends anything: only a hello of version 3 with
the client's own scheme is answered.

## Main definitions

* `IsHello`: the bodies a client answers.

## Main results

* `answerHello_spec`: the client's answer to the first body.
* `client_accepts_iff`: **acceptance is exact**, and the client sends one packet at most, with a
  proof for the nonce of the hello it has read.
-/

namespace Ogurpchik

open Async LittleEndian

/-! ### The conditions -/

/-- A hello of the supported version with the scheme of the mode, for the client; its nonce may have
any length that the field can count. -/
def IsHello (mode : HandshakeMode) (body : List UInt8) (peer : Protocol) (nonce : List UInt8) :
    Prop :=
  nonce.length < 2 ^ 16 ∧
    body = authBody TAG_HELLO HANDSHAKE_VERSION mode.schemeId peer nonce

/-- An ack with status OK. Its reason is not looked at, and need not be empty. -/
def IsAckOk (body : List UInt8) : Prop :=
  ∃ reason, reason.length < 2 ^ 16 ∧ body = ackBody ACK_OK reason

section Parts

variable {mac : Mac} {host : Host} {env : PacketEnv} {mode : HandshakeMode}
  {ours peer : Protocol} {body nonce : List UInt8}

/-- What a hello decodes to. -/
theorem IsHello.decode (h : IsHello mode body peer nonce) :
    body.head? ≠ some TAG_ACK ∧ foreignVersion body = none ∧
      decodeHello body = .ok (mode.schemeId, peer, nonce) := by
  obtain ⟨hlen, rfl⟩ := h
  refine ⟨?_, foreignVersion_authBody _ _ _ _, decodeAuth_eq_ok_iff.2 ⟨_, hlen, rfl⟩⟩
  simp [authBody, TAG_HELLO, TAG_ACK]

/-- What the client decodes as a hello of its scheme is one, byte for byte. -/
theorem isHello_of_decode (hversion : foreignVersion body = none)
    (hdecode : decodeHello body = .ok (mode.schemeId, peer, nonce)) :
    IsHello mode body peer nonce := by
  obtain ⟨version, hlen, rfl⟩ := decodeAuth_eq_ok_iff.1 hdecode
  rw [foreignVersion_eq_none_iff, packetVersion_authBody] at hversion
  exact ⟨hlen, by rw [hversion version rfl]⟩

/-- A hello has one reading. -/
theorem IsHello.unique {peer' : Protocol} {nonce' : List UInt8}
    (h : IsHello mode body peer nonce) (h' : IsHello mode body peer' nonce') :
    peer = peer' ∧ nonce = nonce' := by
  cases h.decode.2.2.symm.trans h'.decode.2.2
  exact ⟨rfl, rfl⟩

/-- The report a client makes of a body it does not answer: a rejection, with the reason, for the
refusals and for them only. -/
def ReportsBody (body : List UInt8) (report : Report) : Prop :=
  (∀ status reason, reason.length < 2 ^ 16 → status ≠ ACK_OK → body = ackBody status reason →
    report.context = .rejected) ∧
  (report.context = .rejected → ∃ status reason, body = ackBody status reason ∧
    report = (Report.new .rejected).attach (String.ofList (fromUtf8Lossy reason)))

/-- A body that is no ack is reported as something else. -/
theorem reportsBody_of_no_ack {report : Report} (hhead : body.head? ≠ some TAG_ACK)
    (hcontext : report.context ≠ .rejected) : ReportsBody body report := by
  refine ⟨?_, fun h => absurd h hcontext⟩
  rintro status reason - - rfl
  exact absurd rfl hhead

/-- **The client's answer to the first body**: its own packet and the wait for the ack, when the
body is a hello for it; otherwise an error. -/
theorem answerHello_spec (mac : Mac) (ours : Protocol) (mode : HandshakeMode)
    (body : List UInt8) :
    (∃ peer nonce, IsHello mode body peer nonce ∧
      answerHello mac mode ours body = (do
        writePacket (encodeClientAuth mode.schemeId ours (proofFor mac nonce mode))
        awaitAck ours peer)) ∨
    ((∀ peer nonce, ¬ IsHello mode body peer nonce) ∧
      ∃ report, answerHello mac mode ours body = throw (.report report) ∧
        ReportsBody body report) := by
  by_cases hhead : body.head? = some TAG_ACK
  · -- an ack in place of the hello
    have hno : ∀ peer nonce, ¬ IsHello mode body peer nonce := fun _ _ h => h.decode.1 hhead
    cases hack : decodeAck body with
    | error report =>
      refine .inr ⟨hno, report, answerHello_of_ack hhead hack, ?_, fun hrejected => ?_⟩
      · rintro status reason hlen hstatus rfl
        cases (decodeAck_of_rejected hlen hstatus).symm.trans hack
        rfl
      · rcases decodeAck_eq_error hack with rfl | ⟨status, reason, -, hrefusal⟩
        · cases hrejected
        · exact ⟨status, reason, hrefusal⟩
    | ok _ =>
      refine .inr ⟨hno, _, answerHello_of_ack_ok hhead hack, ?_, fun h => by cases h⟩
      rintro status reason hlen hstatus rfl
      exact nomatch (decodeAck_of_rejected hlen hstatus).symm.trans hack
  · have hother {report : Report} : report.context ≠ .rejected → ReportsBody body report :=
      reportsBody_of_no_ack hhead
    cases hversion : foreignVersion body with
    | some version =>
      obtain ⟨text, heq⟩ := @answerHello_of_foreign mac mode ours body version hhead hversion
      refine .inr ⟨fun peer nonce h => ?_, _, heq, hother (by simp [Report.new, Report.attach])⟩
      exact nomatch h.decode.2.1.symm.trans hversion
    | none =>
      cases hdecode : decodeHello body with
      | error report =>
        obtain rfl := decodeAuth_eq_error hdecode
        refine .inr ⟨fun peer nonce h => ?_, _,
          answerHello_of_malformed hhead hversion hdecode, hother (by decide)⟩
        exact nomatch h.decode.2.2.symm.trans hdecode
      | ok decoded =>
        obtain ⟨scheme, peer, nonce⟩ := decoded
        by_cases hscheme : scheme = mode.schemeId
        · subst hscheme
          exact .inl ⟨peer, nonce, isHello_of_decode hversion hdecode,
            answerHello_of_hello hhead hversion hdecode⟩
        · obtain ⟨text, heq⟩ :=
            @answerHello_of_scheme mac mode ours peer nonce body scheme hhead hversion hdecode
              hscheme
          refine .inr ⟨fun peer' nonce' h => ?_, _, heq,
            hother (by simp [Report.new, Report.attach])⟩
          cases hdecode.symm.trans h.decode.2.2
          exact hscheme rfl

/-- Behind its packet the client waits for an `ACK_OK`, when the protocols are compatible. -/
theorem runs_awaitAck_ok {ack rest : List UInt8} (hcompat : incompatibility ours peer = none)
    (hparse : parsePacket env.data = (.ok ack, rest)) (hack : IsAckOk ack) :
    Runs host (awaitAck ours peer) env (.ok (some peer.version)) { env with data := rest } := by
  rw [awaitAck, hcompat]
  have hdecode : decodeAck ack = .ok () := decodeAck_eq_ok_iff.2 hack
  exact (runs_readPacket hparse).bind ((runs_orReport_ok hdecode).bind (Prog.returns_pure _ _))

/-- In every other case it fails without sending anything: the protocols do not go together, there
is no packet, or it is no `ACK_OK`. -/
theorem runs_awaitAck_error
    (h : ∀ ack rest, incompatibility ours peer = none → parsePacket env.data = (.ok ack, rest) →
      ¬ IsAckOk ack) :
    ∃ report rest, Runs host (awaitAck ours peer) env (.error (.report report))
      { env with data := rest } := by
  rw [awaitAck]
  cases hcompat : incompatibility ours peer with
  | some problem => exact ⟨_, env.data, Prog.returns_throw _ _⟩
  | none =>
    rcases hparse : parsePacket env.data with ⟨result, rest⟩
    cases result with
    | error report => exact ⟨report, rest, (runs_readPacket hparse).bind_error _⟩
    | ok ack =>
      cases hack : decodeAck ack with
      | ok _ => exact absurd (decodeAck_eq_ok_iff.1 hack) (h ack rest hcompat hparse)
      | error report =>
        exact ⟨report, rest,
          (runs_readPacket hparse).bind ((runs_orReport_error hack).bind_error _)⟩

end Parts

/-! ### The packets of the two halves fit -/

/-- A proof is a MAC of 32 bytes, or nothing. -/
theorem length_proofFor_le (mac : Mac) (nonce : List UInt8) (mode : HandshakeMode) :
    (proofFor mac nonce mode).length ≤ 32 := by
  cases mode with
  | hmacSha256 secret => exact (mac.length_tag _ _).le
  | disabled | versionOnly | signedProcess _ => exact Nat.zero_le 32

/-- A packet with a short payload fits, whatever its other fields. -/
theorem length_encodeAuth_le {payload : List UInt8} (h : payload.length ≤ 32) (tag scheme : UInt8)
    (protocol : Protocol) :
    (encodeAuth tag scheme protocol payload).length ≤ MAX_PACKET_LEN := by
  rw [encodeAuth_eq (by omega), length_authBody, MAX_PACKET_LEN]
  omega

/-- The hello of a server fits into a packet: the peer reads all of it. -/
theorem length_encodeHello (scheme : UInt8) (ours : Protocol)
    (nonce : { nonce : List UInt8 // nonce.length = NONCE_LEN }) :
    (encodeHello scheme ours nonce).length ≤ MAX_PACKET_LEN :=
  length_encodeAuth_le nonce.property.le TAG_HELLO scheme ours

/-- The answer of a client fits into a packet. -/
theorem length_encodeClientAuth (mac : Mac) (mode : HandshakeMode) (ours : Protocol)
    (nonce : List UInt8) :
    (encodeClientAuth mode.schemeId ours (proofFor mac nonce mode)).length ≤ MAX_PACKET_LEN :=
  length_encodeAuth_le (length_proofFor_le mac nonce mode) TAG_CLIENT_AUTH mode.schemeId ours

/-- An accepting ack fits into a packet. -/
theorem length_encodeAckOk : (encodeAck ACK_OK []).length ≤ MAX_PACKET_LEN := by
  decide

/-! ### The whole half -/

/-- Beyond the disabled mode the client reads a packet and answers it. -/
theorem authenticateClient_eq {mac : Mac} {mode : HandshakeMode} {ours : Protocol}
    (hmode : mode ≠ .disabled) :
    authenticateClient mac mode ours = (do
      let body ← readPacketWithTimeout
      answerHello mac mode ours body) := by
  cases mode with
  | disabled => exact absurd rfl hmode
  | versionOnly | hmacSha256 _ | signedProcess _ => rfl

/-- The stream starts with a hello for the client, which carries the nonce, in one packet that is
not too long. -/
def StartsWithHello (mode : HandshakeMode) (stream : List UInt8) (peer : Protocol)
    (nonce rest : List UInt8) : Prop :=
  ∃ body, body.length ≤ MAX_PACKET_LEN ∧ stream = frame body ++ rest ∧
    IsHello mode body peer nonce

/-- The streams a client accepts, with the version it returns and the bytes behind the ack. -/
def AcceptsReply (mode : HandshakeMode) (ours : Protocol) (stream : List UInt8) (v : Version)
    (rest : List UInt8) : Prop :=
  ∃ peer nonce ack rest', StartsWithHello mode stream peer nonce rest' ∧
    ack.length ≤ MAX_PACKET_LEN ∧ rest' = frame ack ++ rest ∧ IsAckOk ack ∧
    peer.id = ours.id ∧ peer.version.major = ours.version.major ∧ v = peer.version

/-- What a client may have sent: nothing, or a proof for the nonce of the hello it was sent. -/
def Discloses (mac : Mac) (mode : HandshakeMode) (ours : Protocol) (stream : List UInt8)
    (sent : List (List UInt8)) : Prop :=
  sent = [] ∨ ∃ peer nonce rest, StartsWithHello mode stream peer nonce rest ∧
    sent = [encodeClientAuth mode.schemeId ours (proofFor mac nonce mode)]

/-- The report and the packets of a client whose first packet is a refusal: it reports that it was
refused, and has sent nothing. -/
def ReportsRefusal (stream : List UInt8) (report : Report) (sent : List (List UInt8)) : Prop :=
  ∀ status reason rest, reason.length < 2 ^ 16 → status ≠ ACK_OK →
    parsePacket stream = (.ok (ackBody status reason), rest) →
    report.context = .rejected ∧ sent = []

section Whole

variable {mac : Mac} {mode : HandshakeMode} {ours peer : Protocol} {stream nonce rest : List UInt8}

/-- A stream that starts with a hello is read as that hello, up to what stands behind it. -/
theorem StartsWithHello.parse (h : StartsWithHello mode stream peer nonce rest) :
    ∃ body, parsePacket stream = (.ok body, rest) ∧ IsHello mode body peer nonce := by
  obtain ⟨body, hlen, hstream, hhello⟩ := h
  exact ⟨body, parsePacket_eq_ok_iff.2 ⟨hlen, hstream⟩, hhello⟩

/-- The acceptance condition in terms of the packets that are read: a hello of a server that fits,
and an `ACK_OK` behind it. -/
theorem acceptsReply_iff_parse {v : Version} :
    AcceptsReply mode ours stream v rest ↔ ∃ body tail peer nonce ack,
      parsePacket stream = (.ok body, tail) ∧ IsHello mode body peer nonce ∧
      incompatibility ours peer = none ∧ parsePacket tail = (.ok ack, rest) ∧ IsAckOk ack ∧
      v = peer.version := by
  constructor
  · rintro ⟨peer, nonce, ack, tail, hstart, hlen, htail, hack, hid, hmajor, hv⟩
    obtain ⟨body, hparse, hhello⟩ := hstart.parse
    have hcompat := (incompatibility_eq_none_iff ours peer).2 ⟨hid, hmajor⟩
    have hparse' := parsePacket_eq_ok_iff.2 ⟨hlen, htail⟩
    exact ⟨body, tail, peer, nonce, ack, hparse, hhello, hcompat, hparse', hack, hv⟩
  · rintro ⟨body, tail, peer, nonce, ack, hparse, hhello, hcompat, hparse', hack, hv⟩
    obtain ⟨hlen, hstream⟩ := parsePacket_eq_ok_iff.1 hparse
    obtain ⟨hlen', htail⟩ := parsePacket_eq_ok_iff.1 hparse'
    obtain ⟨hid, hmajor⟩ := (incompatibility_eq_none_iff ours peer).1 hcompat
    have hstart : StartsWithHello mode stream peer nonce tail := ⟨body, hlen, hstream, hhello⟩
    exact ⟨peer, nonce, ack, tail, hstart, hlen', htail, hack, hid, hmajor, hv⟩

/-- The version and the rest are determined by the stream of the server, as they are by that of the
client. -/
theorem AcceptsReply.unique {rest' : List UInt8} {v v' : Version}
    (h : AcceptsReply mode ours stream v rest) (h' : AcceptsReply mode ours stream v' rest') :
    v = v' ∧ rest = rest' := by
  obtain ⟨_, _, peer, nonce, ack, hparse, hhello, -, hack, -, rfl⟩ := acceptsReply_iff_parse.1 h
  obtain ⟨_, _, peer', nonce', ack', hparse', hhello', -, hack', -, rfl⟩ :=
    acceptsReply_iff_parse.1 h'
  cases hparse.symm.trans hparse'
  obtain ⟨rfl, -⟩ := hhello.unique hhello'
  cases hack.symm.trans hack'
  exact ⟨rfl, rfl⟩

/-- What a run of the client comes to: acceptance of a stream that is acceptable, or an error on one
that is not; in both cases it has disclosed no more than it may. -/
def ClientSettles (mac : Mac) (host : Host) (mode : HandshakeMode) (ours : Protocol)
    (stream : List UInt8) : Prop :=
  (∃ v rest sent, AcceptsReply mode ours stream v rest ∧
    Discloses mac mode ours stream sent ∧ sent ≠ [] ∧
    Runs host (authenticateClient mac mode ours) ⟨stream, [], 0⟩ (.ok (some v)) ⟨rest, sent, 0⟩) ∨
  ((∀ v rest, ¬ AcceptsReply mode ours stream v rest) ∧
    ∃ report sent rest, Discloses mac mode ours stream sent ∧
      ReportsRefusal stream report sent ∧
      Runs host (authenticateClient mac mode ours) ⟨stream, [], 0⟩ (.error (.report report))
        ⟨rest, sent, 0⟩)

/-- The client was sent a hello: it answers, and the ack decides. -/
theorem client_outcome_hello {host : Host} {body tail : List UInt8} (hmode : mode ≠ .disabled)
    (hparse : parsePacket stream = (.ok body, tail)) (hhello : IsHello mode body peer nonce)
    (heq : answerHello mac mode ours body = (do
      writePacket (encodeClientAuth mode.schemeId ours (proofFor mac nonce mode))
      awaitAck ours peer)) :
    ClientSettles mac host mode ours stream := by
  rw [ClientSettles, authenticateClient_eq hmode]
  have hread := @runs_readPacket host ⟨stream, [], 0⟩ _ _ hparse
  have hsent : Discloses mac mode ours stream
      [encodeClientAuth mode.schemeId ours (proofFor mac nonce mode)] := by
    obtain ⟨hlen, hstream⟩ := parsePacket_eq_ok_iff.1 hparse
    exact .inr ⟨peer, nonce, tail, ⟨body, hlen, hstream, hhello⟩, rfl⟩
  by_cases hok : ∃ ack rest, incompatibility ours peer = none ∧
      parsePacket tail = (.ok ack, rest) ∧ IsAckOk ack
  · obtain ⟨ack, rest, hcompat, hparse', hack⟩ := hok
    have haccept : AcceptsReply mode ours stream peer.version rest := acceptsReply_iff_parse.2
      ⟨body, tail, peer, nonce, ack, hparse, hhello, hcompat, hparse', hack, rfl⟩
    refine .inl ⟨_, rest, _, haccept, hsent, List.cons_ne_nil _ _, hread.bind ?_⟩
    rw [heq]
    exact (runs_writePacket _).bind
      (@runs_awaitAck_ok host ⟨tail, [_], 0⟩ _ _ _ _ hcompat hparse' hack)
  · obtain ⟨report, rest, hrun⟩ := @runs_awaitAck_error host
      ⟨tail, [encodeClientAuth mode.schemeId ours (proofFor mac nonce mode)], 0⟩ ours peer
      (fun ack rest hcompat hparse' hack => hok ⟨ack, rest, hcompat, hparse', hack⟩)
    refine .inr ⟨fun v rest haccept => ?_, report, _, rest, hsent, ?_, hread.bind ?_⟩
    · obtain ⟨_, _, peer', nonce', ack, hparse', hhello', hcompat, hread', hack, -⟩ :=
        acceptsReply_iff_parse.1 haccept
      cases hparse.symm.trans hparse'
      obtain ⟨rfl, -⟩ := hhello.unique hhello'
      exact hok ⟨ack, rest, hcompat, hread', hack⟩
    · intro status reason rest _ _ hack
      cases hparse.symm.trans hack
      exact absurd rfl hhello.decode.1
    · rw [heq]
      exact (runs_writePacket _).bind hrun

/-- **What a run of the client comes to**, by its first packet: there is none, or it is not
answered, or it is a hello that fits. -/
theorem client_outcome (mac : Mac) (host : Host) (hmode : mode ≠ .disabled) (ours : Protocol)
    (stream : List UInt8) : ClientSettles mac host mode ours stream := by
  rcases hparse : parsePacket stream with ⟨result, tail⟩
  have hread := @runs_readPacket host ⟨stream, [], 0⟩ _ _ hparse
  cases result with
  | error report =>
    rw [ClientSettles, authenticateClient_eq hmode]
    refine .inr ⟨fun v rest haccept => ?_, report, [], tail, .inl rfl, ?_, hread.bind_error _⟩
    · obtain ⟨_, _, _, _, _, hok, -⟩ := acceptsReply_iff_parse.1 haccept
      exact nomatch hok.symm.trans hparse
    · intro status reason rest _ _ hok
      exact nomatch hok.symm.trans hparse
  | ok body =>
    rcases answerHello_spec mac ours mode body with
      ⟨peer, nonce, hhello, heq⟩ | ⟨hno, report, heq, hrefused⟩
    · exact client_outcome_hello hmode hparse hhello heq
    · rw [ClientSettles, authenticateClient_eq hmode]
      refine .inr ⟨fun v rest haccept => ?_, report, [], tail, .inl rfl, ?_, hread.bind ?_⟩
      · obtain ⟨_, _, peer, nonce, _, hparse', hhello, -⟩ := acceptsReply_iff_parse.1 haccept
        cases hparse.symm.trans hparse'
        exact hno peer nonce hhello
      · intro status reason rest hlen hstatus hack
        cases hparse.symm.trans hack
        exact ⟨hrefused.1 status reason hlen hstatus rfl, rfl⟩
      · rw [heq]
        exact Prog.returns_throw _ _

end Whole

/-- A hello at the start of a stream, byte for byte, with the length in front of it. -/
theorem startsWithHello_iff {mode : HandshakeMode} {stream nonce rest : List UInt8}
    {peer : Protocol} :
    StartsWithHello mode stream peer nonce rest ↔
      ∃ hello : List UInt8, hello.length ≤ 4096 ∧
        stream = leBytes 4 hello.length ++ hello ++ rest ∧
        hello = [1] ++ leBytes 2 3 ++ [mode.schemeId] ++ leBytes 8 peer.id.toNat ++
          leBytes 4 peer.version.major.toNat ++ leBytes 4 peer.version.minor.toNat ++
          leBytes 4 peer.version.patch.toNat ++ leBytes 2 nonce.length ++ nonce := by
  constructor
  · rintro ⟨body, hlen, hstream, -, hbody⟩
    exact ⟨body, hlen, hstream, hbody.trans (authBody_eq _ _ _ _ _)⟩
  · rintro ⟨hello, hlen, hstream, hhello⟩
    replace hhello := hhello.trans (authBody_eq TAG_HELLO HANDSHAKE_VERSION _ _ _).symm
    refine ⟨hello, hlen, hstream, ?_, hhello⟩
    rw [hhello, length_authBody] at hlen
    omega

/-- An `ACK_OK` that fits a packet, byte for byte: its reason may be anything. -/
theorem isAckOk_iff {ack : List UInt8} (hlen : ack.length ≤ MAX_PACKET_LEN) :
    IsAckOk ack ↔ ∃ reason : List UInt8, ack = [3, 0] ++ leBytes 2 reason.length ++ reason := by
  constructor
  · rintro ⟨reason, -, rfl⟩
    exact ⟨reason, rfl⟩
  · rintro ⟨reason, rfl⟩
    refine ⟨reason, ?_, rfl⟩
    change (ackBody ACK_OK reason).length ≤ 4096 at hlen
    rw [length_ackBody] at hlen
    omega

/-- The acceptance condition, byte for byte: the two packets one behind the other, with all of their
fields. -/
theorem acceptsReply_iff {mode : HandshakeMode} {ours : Protocol} {stream : List UInt8}
    {v : Version} :
    (∃ rest, AcceptsReply mode ours stream v rest) ↔
      ∃ peer : Protocol, ∃ nonce hello reason ack rest : List UInt8,
        stream = leBytes 4 hello.length ++ hello ++ (leBytes 4 ack.length ++ ack ++ rest) ∧
        hello.length ≤ 4096 ∧ ack.length ≤ 4096 ∧
        hello = [1] ++ leBytes 2 3 ++ [mode.schemeId] ++ leBytes 8 peer.id.toNat ++
          leBytes 4 peer.version.major.toNat ++ leBytes 4 peer.version.minor.toNat ++
          leBytes 4 peer.version.patch.toNat ++ leBytes 2 nonce.length ++ nonce ∧
        peer.id = ours.id ∧ peer.version.major = ours.version.major ∧ v = peer.version ∧
        ack = [3, 0] ++ leBytes 2 reason.length ++ reason := by
  simp only [AcceptsReply, startsWithHello_iff]
  constructor
  · rintro ⟨rest, peer, nonce, ack, _, ⟨hello, hlen, hstream, hhello⟩, hack, rfl, hok, hpeer⟩
    obtain ⟨reason, hreason⟩ := (isAckOk_iff hack).1 hok
    exact ⟨peer, nonce, hello, reason, ack, rest, hstream, hlen, hack, hhello, hpeer.1, hpeer.2.1,
      hpeer.2.2, hreason⟩
  · rintro ⟨peer, nonce, hello, reason, ack, rest, hstream, hlen, hack, hhello, hid, hmajor, hv,
      hreason⟩
    exact ⟨rest, peer, nonce, ack, _, ⟨hello, hlen, hstream, hhello⟩, hack, rfl,
      (isAckOk_iff hack).2 ⟨reason, hreason⟩, hid, hmajor, hv⟩

/-- The client's packet: its proof is the MAC of the nonce, or empty. -/
theorem encodeClientAuth_proofFor (mac : Mac) (mode : HandshakeMode) (ours : Protocol)
    (nonce : List UInt8) :
    ∃ proof, encodeClientAuth mode.schemeId ours (proofFor mac nonce mode) =
        authBody TAG_CLIENT_AUTH HANDSHAKE_VERSION mode.schemeId ours proof ∧
      (∀ secret, mode = .hmacSha256 secret → proof = hmacWithNonce mac secret nonce) ∧
      ((∀ secret, mode ≠ .hmacSha256 secret) → proof = []) := by
  have hlen := length_proofFor_le mac nonce mode
  refine ⟨proofFor mac nonce mode, encodeAuth_eq (by omega) _ _ _, ?_, ?_⟩
  · rintro secret rfl
    rfl
  · intro h
    cases mode with
    | hmacSha256 secret => exact absurd rfl (h secret)
    | disabled | versionOnly | signedProcess _ => rfl

/-- The packets a client may have sent, byte for byte: at most one, and only in answer to a hello
that fits. -/
theorem Discloses.spec {mac : Mac} {mode : HandshakeMode} {ours : Protocol}
    {stream : List UInt8} {sent : List (List UInt8)} (h : Discloses mac mode ours stream sent) :
    sent.length ≤ 1 ∧ ∀ packet ∈ sent,
      ∃ peer : Protocol, ∃ nonce hello rest proof : List UInt8, hello.length ≤ 4096 ∧
        stream = leBytes 4 hello.length ++ hello ++ rest ∧
        hello = [1] ++ leBytes 2 3 ++ [mode.schemeId] ++ leBytes 8 peer.id.toNat ++
          leBytes 4 peer.version.major.toNat ++ leBytes 4 peer.version.minor.toNat ++
          leBytes 4 peer.version.patch.toNat ++ leBytes 2 nonce.length ++ nonce ∧
        packet = authBody TAG_CLIENT_AUTH HANDSHAKE_VERSION mode.schemeId ours proof ∧
        (∀ secret, mode = .hmacSha256 secret → proof = hmacWithNonce mac secret nonce) ∧
        ((∀ secret, mode ≠ .hmacSha256 secret) → proof = []) := by
  rcases h with rfl | ⟨peer, nonce, rest, hstart, rfl⟩
  · exact ⟨Nat.zero_le 1, nofun⟩
  · refine ⟨le_rfl, fun packet hpacket => ?_⟩
    obtain rfl := List.mem_singleton.1 hpacket
    obtain ⟨hello, hlen, hstream, hhello⟩ := startsWithHello_iff.1 hstart
    obtain ⟨proof, hproof⟩ := encodeClientAuth_proofFor mac mode ours nonce
    exact ⟨peer, nonce, hello, rest, proof, hlen, hstream, hhello, hproof⟩

/-- **Client acceptance is exact and nothing is disclosed early.** For every mode but the disabled
one, every byte stream and every split of it, the client returns a version exactly when the stream
starts with two packets of at most 4096 bytes: a hello of version 3 with the mode's scheme and a
compatible protocol of that version, and an ack with status 0. It sends one packet at most, and
one only for a hello of version 3 with its own scheme: its proof is then the MAC of that hello's
nonce in the HMAC mode, and empty in the others. A stream that starts with a refusal is answered
with `Rejected`, and nothing is sent. -/
theorem client_accepts_iff (mac : Mac) (host : Host) {mode : HandshakeMode}
    (hmode : mode ≠ .disabled) (ours : Protocol) (stream : List UInt8)
    (cuts outCuts : Stream' ℕ) :
    let run := (onConn (authenticateClient mac mode ours)).run (ConnEnv.handle host)
      ⟨⟨stream, cuts⟩, outCuts, [], 0⟩
    (∀ v, run.1 = .ok (some v) ↔
      ∃ peer : Protocol, ∃ nonce hello reason ack rest : List UInt8,
        stream = leBytes 4 hello.length ++ hello ++ (leBytes 4 ack.length ++ ack ++ rest) ∧
        hello.length ≤ 4096 ∧ ack.length ≤ 4096 ∧
        hello = [1] ++ leBytes 2 3 ++ [mode.schemeId] ++ leBytes 8 peer.id.toNat ++
          leBytes 4 peer.version.major.toNat ++ leBytes 4 peer.version.minor.toNat ++
          leBytes 4 peer.version.patch.toNat ++ leBytes 2 nonce.length ++ nonce ∧
        peer.id = ours.id ∧ peer.version.major = ours.version.major ∧ v = peer.version ∧
        ack = [3, 0] ++ leBytes 2 reason.length ++ reason) ∧
    (∃ sent : List (List UInt8), run.2.sent = sent.flatMap frame ∧ sent.length ≤ 1 ∧
      ∀ packet ∈ sent, ∃ peer : Protocol, ∃ nonce hello rest proof : List UInt8,
        hello.length ≤ 4096 ∧
        stream = leBytes 4 hello.length ++ hello ++ rest ∧
        hello = [1] ++ leBytes 2 3 ++ [mode.schemeId] ++ leBytes 8 peer.id.toNat ++
          leBytes 4 peer.version.major.toNat ++ leBytes 4 peer.version.minor.toNat ++
          leBytes 4 peer.version.patch.toNat ++ leBytes 2 nonce.length ++ nonce ∧
        packet = authBody TAG_CLIENT_AUTH HANDSHAKE_VERSION mode.schemeId ours proof ∧
        (∀ secret, mode = .hmacSha256 secret → proof = hmacWithNonce mac secret nonce) ∧
        ((∀ secret, mode ≠ .hmacSha256 secret) → proof = [])) ∧
    (∀ body rest reason : List UInt8, ∀ status : UInt8,
      stream = leBytes 4 body.length ++ body ++ rest → body.length ≤ 4096 →
      body = [3, status] ++ leBytes 2 reason.length ++ reason → status ≠ 0 →
      (∃ report, run.1 = .error (.report report) ∧ report.context = .rejected) ∧
        run.2.sent = []) := by
  intro run
  obtain ⟨hresult, hshows⟩ := @run_onConn _ host (authenticateClient mac mode ours)
    ⟨⟨stream, cuts⟩, outCuts, [], 0⟩ ⟨stream, [], 0⟩ ⟨rfl, rfl, rfl⟩
  have hsent := hshows.sent_eq
  simp only [← acceptsReply_iff]
  rcases client_outcome mac host hmode ours stream with
    ⟨v, rest, sent, haccept, hdiscloses, -, hrun⟩ | ⟨hno, report, sent, rest, hdiscloses, hrefusal,
      hrun⟩
  · rw [hrun] at hresult hsent
    refine ⟨fun v' => ?_, ⟨sent, hsent, hdiscloses.spec⟩, ?_⟩
    · rw [hresult]
      constructor
      · intro h
        cases h
        exact ⟨rest, haccept⟩
      · rintro ⟨rest', haccept'⟩
        rw [(haccept.unique haccept').1]
    · intro body rest' reason status hstream hlen hbody _
      -- the first packet of an accepted stream is a hello
      obtain ⟨peer, nonce, ack, tail, hstart, -⟩ := haccept
      obtain ⟨body', hparse, hhello⟩ := hstart.parse
      cases hparse.symm.trans (parsePacket_eq_ok_iff.2 ⟨hlen, hstream⟩)
      exact absurd (by rw [hbody]; rfl) hhello.decode.1
  · rw [hrun] at hresult hsent
    refine ⟨fun v => ?_, ⟨sent, hsent, hdiscloses.spec⟩, ?_⟩
    · rw [hresult]
      exact ⟨nofun, fun ⟨rest, haccept⟩ => absurd haccept (hno v rest)⟩
    · intro body rest' reason status hstream hlen hbody hstatus
      have hack : body = ackBody status reason := hbody
      have hparse := parsePacket_eq_ok_iff.2 ⟨hlen, hstream⟩
      rw [hack, length_ackBody] at hlen
      rw [hack] at hparse
      obtain ⟨hcontext, hnil⟩ := hrefusal status reason rest' (by omega) hstatus hparse
      refine ⟨⟨report, hresult, hcontext⟩, ?_⟩
      rw [hsent, hnil]
      rfl

/-- A server with another minor version is accepted, with a nonce of any length. -/
theorem client_accepts_hmac :
    ((onConn (authenticateClient .sample (.hmacSha256 [1, 2]) ⟨7, 1, 3, 1⟩)).run
      (ConnEnv.handle .sample)
      ⟨⟨frame (authBody 1 3 1 ⟨7, 1, 0, 4⟩ [5, 6]) ++ (frame (ackBody 0 []) ++ [9]),
        Stream'.const 5⟩, Stream'.const 1, [], 0⟩).1 = .ok (some ⟨1, 0, 4⟩) :=
  ((@client_accepts_iff .sample .sample (.hmacSha256 [1, 2]) nofun ⟨7, 1, 3, 1⟩ _ _ _).1
    ⟨1, 0, 4⟩).2 ⟨⟨7, 1, 0, 4⟩, [5, 6], _, [], _, [9], rfl, by decide, by decide, rfl, rfl, rfl,
      rfl, rfl⟩

end Ogurpchik
