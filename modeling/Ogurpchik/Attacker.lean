import Ogurpchik.HandshakeClient
import Ogurpchik.Sessions

/-!
# The HMAC Handshake Against an Active Attacker

Any number of honest servers and clients share one secret and run the handshake, each session on
a channel of its own. The attacker controls every channel: it sees every packet, and answers every
operation of every session as it likes, in any order. Only two things are beyond it. It does not
choose the nonces of the servers, and it cannot make a MAC under the secret: a proof it sends in a
client auth is no such MAC, or an honest party has sent it in one before.

## Main definitions

* `Role`, `start`: the sessions.
* `Exposed`, `Unforged`: the proofs the attacker has seen, and the packets it can make.
* `ServerAt`, `ClientAt`: the states of a session, with what has happened to it.

## Main results

* `serverAt_of_reaches`, `clientAt_of_reaches`: a session is in one of these states.
* `hmac_sound`: **each accepting server has a client of its own** that has answered its nonce.
-/

namespace Ogurpchik

namespace Attacker

open Async ByteFormat Sessions

/-! ### The sessions -/

/-- What an honest session is for: a server on some transport, or a client. All of them share one
secret, and there may be any number of each. -/
inductive Role
  | server (transport : Transport) (protocol : Protocol)
  | client (protocol : Protocol)

/-- The result of a session, once it has returned: a version, or why there is none. -/
abbrev Result := Except HandshakeFault (Option Version)

/-- The code of a session: the two halves of the source, in the mode with a shared secret. -/
def start (mac : Mac) (secret : List UInt8) : Role → PacketProg Result
  | .server transport protocol =>
      (authenticateServer mac transport (.hmacSha256 secret) protocol).run
  | .client protocol => (authenticateClient mac (.hmacSha256 secret) protocol).run

/-- What happened to a session: an operation and the answer the attacker gave to it. -/
abbrev PacketEvent := Prog.Event PacketOp PacketOp.Ans

/-- A session with what happened to it, on the level of packets. -/
abbrev PacketSession := Session PacketOp PacketOp.Ans Result

/-- A packet was read: the attacker has delivered this body, whoever made it. -/
def received (body : List UInt8) : PacketEvent := ⟨.readPacketWithTimeout, .ok body⟩

/-- A nonce was drawn by an honest server. -/
def drew (nonce : { nonce : List UInt8 // nonce.length = NONCE_LEN }) : PacketEvent :=
  ⟨.host .fillRandom, .ok nonce⟩

/-- A write was answered: the packet was sent, whether or not the session was told so. -/
def wrote (body : List UInt8) (ans : Except Report Unit) : PacketEvent := ⟨.writePacket body, ans⟩

/-- A session has begun to send a packet, which the attacker then sees, also before the write is
answered. -/
def Sends (s : PacketSession) (body : List UInt8) : Prop :=
  (∃ ans, wrote body ans ∈ s.trace) ∨ ∃ k, s.node = .await (.writePacket body) k

variable {ι : Type}

/-- The proofs that honest sessions have sent: those the attacker can replay. -/
def Exposed (w : ι → PacketSession) (proof : List UInt8) : Prop :=
  ∃ i body scheme peer, Sends (w i) body ∧ decodeClientAuth body = .ok (scheme, peer, proof)

/-- The packets the attacker can make: without the secret it has no MAC but those it has seen. -/
def Unforged (mac : Mac) (secret : List UInt8) (w : ι → PacketSession) (body : List UInt8) : Prop :=
  ∀ scheme peer proof nonce, decodeClientAuth body = .ok (scheme, peer, proof) →
    proof = hmacWithNonce mac secret nonce → Exposed w proof

/-- The answers the attacker can give: any, but for packets it cannot make. It may drop, delay,
reorder, replay and invent everything else. -/
def Allowed (mac : Mac) (secret : List UInt8) (w : ι → PacketSession) (e : PacketEvent) : Prop :=
  ∀ body, e = received body → Unforged mac secret w body

/-- The worlds the attacker can bring about, with sessions in any number and in any order. -/
def Reachable [DecidableEq ι] (mac : Mac) (secret : List UInt8) (role : ι → Role)
    (w : ι → PacketSession) : Prop :=
  Sessions.Reachable (fun i => start mac secret (role i)) (Allowed mac secret) w

/-! ### The states of a session -/

section States

variable {mac : Mac} {secret : List UInt8} {transport : Transport} {ours : Protocol}

/-- The scheme of the HMAC mode, which does not depend on the secret. -/
abbrev scheme : UInt8 := HandshakeMode.schemeId (.hmacSha256 [])

/-- The states of a server that has read a packet, with what happened since. An accepting one has
seen the MAC of its nonce in the packet. -/
inductive AnswerAt (mac : Mac) (secret nonce body : List UInt8) :
    List PacketEvent → PacketProg Result → Prop
  | failed (report : Report) : AnswerAt mac secret nonce body [] (.done (.error (.report report)))
  | refusing (reason : List UInt8) (report : Report) :
      AnswerAt mac secret nonce body [] (reject reason report).run
  | refused (reason : List UInt8) (ans : Except Report Unit) (report : Report) :
      AnswerAt mac secret nonce body [wrote (encodeAck ACK_REJECTED reason) ans]
        (.done (.error (.report report)))
  | accepting (peer : Protocol) (k : Except Report Unit → PacketProg Result)
      (h : decodeClientAuth body = .ok (scheme, peer, hmacWithNonce mac secret nonce)) :
      AnswerAt mac secret nonce body [] (.await (.writePacket (encodeAck ACK_OK [])) k)
  | accepted (peer : Protocol) (ans : Except Report Unit) (r : Result)
      (h : decodeClientAuth body = .ok (scheme, peer, hmacWithNonce mac secret nonce)) :
      AnswerAt mac secret nonce body [wrote (encodeAck ACK_OK []) ans] (.done r)

/-- The states of a server, with what has happened to it: one constructor for each place where its
code can stand. -/
inductive ServerAt (mac : Mac) (secret : List UInt8) (ours : Protocol) :
    List PacketEvent → PacketProg Result → Prop
  | drawing (k : HostOp.fillRandom.Ans → PacketProg Result) :
      ServerAt mac secret ours [] (.await (.host .fillRandom) k)
  | undrawn (e : String) (report : Report) :
      ServerAt mac secret ours [⟨.host .fillRandom, .error e⟩] (.done (.error (.report report)))
  | greeting (nonce : { nonce : List UInt8 // nonce.length = NONCE_LEN })
      (k : Except Report Unit → PacketProg Result) :
      ServerAt mac secret ours [drew nonce]
        (.await (.writePacket (encodeHello scheme ours nonce)) k)
  | ungreeted (nonce : { nonce : List UInt8 // nonce.length = NONCE_LEN }) (report : Report) :
      ServerAt mac secret ours [drew nonce, wrote (encodeHello scheme ours nonce) (.error report)]
        (.done (.error (.report report)))
  | waiting (nonce : { nonce : List UInt8 // nonce.length = NONCE_LEN })
      (k : Except Report (List UInt8) → PacketProg Result) :
      ServerAt mac secret ours [drew nonce, wrote (encodeHello scheme ours nonce) (.ok ())]
        (.await .readPacketWithTimeout k)
  | unanswered (nonce : { nonce : List UInt8 // nonce.length = NONCE_LEN }) (report : Report) :
      ServerAt mac secret ours
        [drew nonce, wrote (encodeHello scheme ours nonce) (.ok ()),
          ⟨.readPacketWithTimeout, .error report⟩]
        (.done (.error (.report report)))
  | answering (nonce : { nonce : List UInt8 // nonce.length = NONCE_LEN }) (body : List UInt8)
      {trace : List PacketEvent} {node : PacketProg Result}
      (h : AnswerAt mac secret nonce body trace node) :
      ServerAt mac secret ours
        ([drew nonce, wrote (encodeHello scheme ours nonce) (.ok ()), received body] ++ trace) node

/-- The states of a client, with what has happened to it: it answers a hello at most once, and with
the MAC of the nonce in that hello. -/
inductive ClientAt (mac : Mac) (secret : List UInt8) (ours : Protocol) :
    List PacketEvent → PacketProg Result → Prop
  | waiting (k : Except Report (List UInt8) → PacketProg Result) :
      ClientAt mac secret ours [] (.await .readPacketWithTimeout k)
  | ungreeted (report : Report) :
      ClientAt mac secret ours [⟨.readPacketWithTimeout, .error report⟩]
        (.done (.error (.report report)))
  | refused (hello : List UInt8) (report : Report) :
      ClientAt mac secret ours [received hello] (.done (.error (.report report)))
  | answering (hello : List UInt8) (peer : Protocol) (nonce : List UInt8)
      (k : Except Report Unit → PacketProg Result)
      (h : decodeHello hello = .ok (scheme, peer, nonce)) :
      ClientAt mac secret ours [received hello]
        (.await (.writePacket (encodeClientAuth scheme ours (hmacWithNonce mac secret nonce))) k)
  | left (hello : List UInt8) (peer : Protocol) (nonce : List UInt8) (ans : Except Report Unit)
      (report : Report) (h : decodeHello hello = .ok (scheme, peer, nonce)) :
      ClientAt mac secret ours
        [received hello, wrote (encodeClientAuth scheme ours (hmacWithNonce mac secret nonce)) ans]
        (.done (.error (.report report)))
  | answered (hello : List UInt8) (peer : Protocol) (nonce : List UInt8)
      (k : Except Report (List UInt8) → PacketProg Result)
      (h : decodeHello hello = .ok (scheme, peer, nonce)) :
      ClientAt mac secret ours
        [received hello,
          wrote (encodeClientAuth scheme ours (hmacWithNonce mac secret nonce)) (.ok ())]
        (.await .readPacketWithTimeout k)
  | ended (hello : List UInt8) (peer : Protocol) (nonce : List UInt8)
      (ans : Except Report (List UInt8)) (r : Result)
      (h : decodeHello hello = .ok (scheme, peer, nonce)) :
      ClientAt mac secret ours
        [received hello,
          wrote (encodeClientAuth scheme ours (hmacWithNonce mac secret nonce)) (.ok ()),
          ⟨.readPacketWithTimeout, ans⟩]
        (.done r)

/-- What a server makes of a packet in the HMAC mode: it fails, refuses, or accepts, and it accepts
only a client auth with the MAC of its own nonce. -/
theorem answerAuth_cases (nonce body : List UInt8) :
    (∃ report, answerAuth mac (.hmacSha256 secret) ours none nonce body =
      throw (.report report)) ∨
    (∃ reason report, answerAuth mac (.hmacSha256 secret) ours none nonce body =
      reject reason report) ∨
    ∃ peer, decodeClientAuth body = .ok (scheme, peer, hmacWithNonce mac secret nonce) ∧
      answerAuth mac (.hmacSha256 secret) ours none nonce body = (do
        writePacket (encodeAck ACK_OK [])
        pure (some peer.version)) := by
  cases hversion : foreignVersion body with
  | some version =>
    obtain ⟨reason, heq⟩ := @answerAuth_of_foreign mac (.hmacSha256 secret) ours none nonce body
      version hversion
    exact .inr (.inl ⟨_, _, heq⟩)
  | none =>
    cases hdecode : decodeClientAuth body with
    | error report => exact .inl ⟨report, answerAuth_of_malformed hversion hdecode⟩
    | ok decoded =>
      obtain ⟨scheme', peer, proof⟩ := decoded
      by_cases hscheme : scheme' = scheme
      swap
      · obtain ⟨reason, heq⟩ := @answerAuth_of_scheme mac (.hmacSha256 secret) ours peer none nonce
          body proof scheme' hversion hdecode hscheme
        exact .inr (.inl ⟨_, _, heq⟩)
      subst hscheme
      cases hcompat : incompatibility ours peer with
      | some problem =>
        exact .inr (.inl ⟨_, _, answerAuth_of_incompatible hversion hdecode hcompat⟩)
      | none =>
        have heq := @answerAuth_of_compatible mac (.hmacSha256 secret) ours peer none nonce body
          proof hversion hdecode hcompat
        rw [heq, checkProof]
        by_cases hproof : proof = hmacWithNonce mac secret nonce
        · subst hproof
          rw [if_neg (not_not.2 rfl)]
          exact .inr (.inr ⟨peer, rfl, rfl⟩)
        · rw [if_pos hproof]
          exact .inr (.inl ⟨_, _, rfl⟩)

/-- A server that has read a packet is in one of the states for it. The cases are those of
`answerAuth_cases`. -/
theorem answerAt_of_reaches {nonce body : List UInt8} {trace : List PacketEvent}
    {node : PacketProg Result}
    (h : (answerAuth mac (.hmacSha256 secret) ours none nonce body).run.Reaches trace node) :
    AnswerAt mac secret nonce body trace node := by
  rcases answerAuth_cases nonce body with ⟨report, heq⟩ | ⟨reason, report, heq⟩ | ⟨peer, hok, heq⟩
  · rw [heq] at h
    obtain ⟨rfl, rfl⟩ := Prog.reaches_done_iff.1 h
    exact .failed report
  · rw [heq] at h
    rcases Prog.reaches_await_iff.1 h with ⟨rfl, rfl⟩ | ⟨ans, rest, rfl, hrest⟩
    · exact .refusing reason report
    · obtain ⟨rfl, rfl⟩ := Prog.reaches_done_iff.1 hrest
      exact .refused reason ans report
  · rw [heq] at h
    rcases Prog.reaches_await_iff.1 h with ⟨rfl, rfl⟩ | ⟨ans, rest, rfl, hrest⟩
    · exact .accepting peer _ hok
    · cases ans with
      | ok _ | error _ =>
        obtain ⟨rfl, rfl⟩ := Prog.reaches_done_iff.1 hrest
        exact .accepted peer _ _ hok

/-- **A server is in one of its states.** The server half is followed operation by operation, with a
failure at each of them. -/
theorem serverAt_of_reaches {trace : List PacketEvent} {node : PacketProg Result}
    (h : (start mac secret (.server transport ours)).Reaches trace node) :
    ServerAt mac secret ours trace node := by
  rcases Prog.reaches_await_iff.1 h with ⟨rfl, rfl⟩ | ⟨drawn, rest, rfl, hdrawn⟩
  · exact .drawing _
  cases drawn with
  | error e =>
    obtain ⟨rfl, rfl⟩ := Prog.reaches_done_iff.1 hdrawn
    exact .undrawn e _
  | ok nonce =>
    rcases Prog.reaches_await_iff.1 hdrawn with ⟨rfl, rfl⟩ | ⟨sent, rest, rfl, hsent⟩
    · exact .greeting nonce _
    cases sent with
    | error report =>
      obtain ⟨rfl, rfl⟩ := Prog.reaches_done_iff.1 hsent
      exact .ungreeted nonce report
    | ok _ =>
      rcases Prog.reaches_await_iff.1 hsent with ⟨rfl, rfl⟩ | ⟨read, rest, rfl, hread⟩
      · exact .waiting nonce _
      cases read with
      | error report =>
        obtain ⟨rfl, rfl⟩ := Prog.reaches_done_iff.1 hread
        exact .unanswered nonce report
      | ok body => exact .answering nonce body (answerAt_of_reaches hread)

/-- **A client is in one of its states.** The client half is followed operation by operation, with a
failure at each of them. -/
theorem clientAt_of_reaches {trace : List PacketEvent} {node : PacketProg Result}
    (h : (start mac secret (.client ours)).Reaches trace node) :
    ClientAt mac secret ours trace node := by
  rcases Prog.reaches_await_iff.1 h with ⟨rfl, rfl⟩ | ⟨read, rest, rfl, hread⟩
  · exact .waiting _
  cases read with
  | error report =>
    obtain ⟨rfl, rfl⟩ := Prog.reaches_done_iff.1 hread
    exact .ungreeted report
  | ok hello =>
    replace hread : (answerHello mac (.hmacSha256 secret) ours hello).run.Reaches rest node := hread
    rcases answerHello_spec mac ours (.hmacSha256 secret) hello with
      ⟨peer, nonce, hhello, heq⟩ | ⟨-, report, heq, -⟩
    swap
    · rw [heq] at hread
      obtain ⟨rfl, rfl⟩ := Prog.reaches_done_iff.1 hread
      exact .refused hello report
    have hdecode := hhello.decode.2.2
    rw [heq] at hread
    rcases Prog.reaches_await_iff.1 hread with ⟨rfl, rfl⟩ | ⟨sent, rest, rfl, hsent⟩
    · exact .answering hello peer nonce _ hdecode
    cases sent with
    | error report =>
      obtain ⟨rfl, rfl⟩ := Prog.reaches_done_iff.1 hsent
      exact .left hello peer nonce _ report hdecode
    | ok _ =>
      replace hsent : (awaitAck ours peer).run.Reaches rest node := hsent
      rw [awaitAck] at hsent
      cases hcompat : incompatibility ours peer with
      | some problem =>
        rw [hcompat] at hsent
        obtain ⟨rfl, rfl⟩ := Prog.reaches_done_iff.1 hsent
        exact .left hello peer nonce _ _ hdecode
      | none =>
        rw [hcompat] at hsent
        rcases Prog.reaches_await_iff.1 hsent with ⟨rfl, rfl⟩ | ⟨ack, rest, rfl, hack⟩
        · exact .answered hello peer nonce _ hdecode
        cases ack with
        | error report =>
          obtain ⟨rfl, rfl⟩ := Prog.reaches_done_iff.1 hack
          exact .ended hello peer nonce _ _ hdecode
        | ok body =>
          replace hack : ((do
            orReport (decodeAck body)
            pure (some peer.version) : HandshakeM (Option Version)).run).Reaches rest node := hack
          cases hbody : decodeAck body with
          | ok _ | error _ =>
            rw [hbody] at hack
            obtain ⟨rfl, rfl⟩ := Prog.reaches_done_iff.1 hack
            exact .ended hello peer nonce _ _ hdecode

/-! ### What the states say -/

variable {trace : List PacketEvent} {node : PacketProg Result}

/-- Only packets with the tag of an answer are decoded as one: a server cannot be made to check its
own hello. -/
theorem head_of_decodeClientAuth {body proof : List UInt8} {scheme' : UInt8} {peer : Protocol}
    (h : decodeClientAuth body = .ok (scheme', peer, proof)) :
    body.head? = some TAG_CLIENT_AUTH := by
  obtain ⟨version, -, rfl⟩ := decodeAuth_eq_ok_iff.1 h
  rfl

/-- An ack begins with its tag, whatever it says. -/
theorem head_encodeAck (status : UInt8) (reason : List UInt8) :
    (encodeAck status reason).head? = some TAG_ACK := by
  change ((u8.write TAG_ACK ++ _) : List UInt8).head? = _
  rw [write_u8]
  rfl

/-- A hello begins with its tag, whatever it says. -/
theorem head_encodeHello (scheme' : UInt8) (peer : Protocol)
    (nonce : { nonce : List UInt8 // nonce.length = NONCE_LEN }) :
    (encodeHello scheme' peer nonce).head? = some TAG_HELLO := by
  have hnonce : nonce.val.length < 2 ^ 16 := nonce.property.trans_lt (by decide)
  rw [encodeHello, encodeAuth_eq hnonce]
  rfl

/-- A nonce that is drawn is no packet that is sent. -/
@[simp] theorem drew_ne_wrote {nonce : { nonce : List UInt8 // nonce.length = NONCE_LEN }}
    {body : List UInt8} {ans : Except Report Unit} : drew nonce ≠ wrote body ans := by
  simp [drew, wrote]

/-- A packet that is received is no packet that is sent, even if the two have the same bytes. -/
@[simp] theorem received_ne_wrote {body body' : List UInt8} {ans : Except Report Unit} :
    received body ≠ wrote body' ans := by
  simp [received, wrote]

/-- A nonce that is drawn is no packet that is received. -/
@[simp] theorem drew_ne_received {nonce : { nonce : List UInt8 // nonce.length = NONCE_LEN }}
    {body : List UInt8} : drew nonce ≠ received body := by
  simp [drew, received]

/-- A draw determines its nonce. -/
@[simp] theorem drew_inj {n n' : { nonce : List UInt8 // nonce.length = NONCE_LEN }} :
    drew n = drew n' ↔ n = n' := by
  simp [drew]

/-- A receipt determines its packet. -/
@[simp] theorem received_inj {body body' : List UInt8} :
    received body = received body' ↔ body = body' := by
  simp [received]

/-- A write determines its packet, also if it fails. -/
theorem wrote_inj {body body' : List UInt8} {ans ans' : Except Report Unit}
    (h : wrote body ans = wrote body' ans') : body = body' := by
  simp only [wrote, Prog.Event.mk.injEq, PacketOp.writePacket.injEq] at h
  exact h.1

/-- Behind the client's packet a server writes acks. -/
theorem AnswerAt.wrote_ack {nonce body : List UInt8} (h : AnswerAt mac secret nonce body trace node)
    {e : PacketEvent} (he : e ∈ trace) :
    ∃ ack ans, e = wrote ack ans ∧ ack.head? = some TAG_ACK := by
  cases h with
  | failed | refusing | accepting => cases he
  | refused | accepted =>
    obtain rfl := List.mem_singleton.1 he
    exact ⟨_, _, rfl, head_encodeAck _ _⟩

/-- What a server is about to send behind the packet of the client is an ack. -/
theorem AnswerAt.awaits_ack {nonce body ack : List UInt8}
    {k : Except Report Unit → PacketProg Result}
    (h : AnswerAt mac secret nonce body trace node) (hnode : node = .await (.writePacket ack) k) :
    ack.head? = some TAG_ACK := by
  cases h with
  | failed | refused | accepted => cases hnode
  | refusing | accepting =>
    cases hnode
    exact head_encodeAck _ _

/-- A server sends hellos and acks, so no server puts a proof on a channel. -/
theorem ServerAt.sends {body : List UInt8} (h : ServerAt mac secret ours trace node)
    (hsends : Sends ⟨node, trace⟩ body) :
    body.head? = some TAG_HELLO ∨ body.head? = some TAG_ACK := by
  rcases hsends with ⟨ans, hmem⟩ | ⟨k, hnode⟩
  · cases h with
    | drawing | undrawn | greeting => simp [wrote, drew] at hmem
    | ungreeted nonce | waiting nonce | unanswered nonce =>
      have hbody : body = encodeHello scheme ours nonce := by
        simp [wrote, drew] at hmem
        exact hmem.1
      rw [hbody]
      exact .inl (head_encodeHello _ _ _)
    | answering nonce packet h =>
      rcases List.mem_append.1 hmem with hmem | hmem
      · have hbody : body = encodeHello scheme ours nonce := by
          simp [wrote, drew, received] at hmem
          exact hmem.1
        rw [hbody]
        exact .inl (head_encodeHello _ _ _)
      · obtain ⟨ack, ans', heq, hack⟩ := h.wrote_ack hmem
        rw [wrote_inj heq]
        exact .inr hack
  · dsimp only at hnode
    cases h with
    | undrawn | ungreeted | unanswered | drawing | waiting => cases hnode
    | greeting nonce _ =>
      cases hnode
      exact .inl (head_encodeHello _ _ _)
    | answering nonce body h =>
      exact .inr (h.awaits_ack hnode)

/-- A server that returns a version has read a proof for the nonce it has drawn. -/
theorem ServerAt.accepts {v : Option Version} (h : ServerAt mac secret ours trace (.done (.ok v))) :
    ∃ nonce body peer, drew nonce ∈ trace ∧ received body ∈ trace ∧
      decodeClientAuth body = .ok (scheme, peer, hmacWithNonce mac secret nonce) := by
  generalize hnode : (Prog.done (Except.ok v) : PacketProg Result) = node at h
  cases h with
  | drawing | undrawn | greeting | ungreeted | waiting | unanswered => cases hnode
  | answering nonce body h =>
    cases h with
    | failed | refusing | refused | accepting => cases hnode
    | accepted peer ans r hok => exact ⟨nonce, body, peer, by simp, by simp, hok⟩

/-- A server draws one nonce and reads one packet, so both can be read off its trace. -/
theorem ServerAt.events (h : ServerAt mac secret ours trace node) :
    (∀ n n', drew n ∈ trace → drew n' ∈ trace → n = n') ∧
      ∀ b b', received b ∈ trace → received b' ∈ trace → b = b' := by
  cases h with
  | answering nonce body h =>
    have hdrew : ∀ n, drew n ∉ (_ : List PacketEvent) := fun n hn => by
      obtain ⟨_, _, heq, -⟩ := h.wrote_ack hn
      exact absurd heq drew_ne_wrote
    have hreceived : ∀ b, received b ∉ (_ : List PacketEvent) := fun b hb => by
      obtain ⟨_, _, heq, -⟩ := h.wrote_ack hb
      exact absurd heq received_ne_wrote
    simp [hdrew, hreceived, drew_ne_received.symm]
  | _ => simp [drew, wrote, received]

/-- The client has answered a hello with this nonce: it has received the hello, and begun to send
the proof. -/
def Answers (mac : Mac) (secret : List UInt8) (ours : Protocol) (s : PacketSession)
    (nonce : List UInt8) : Prop :=
  ∃ hello peer rest, s.trace = received hello :: rest ∧
    decodeHello hello = .ok (scheme, peer, nonce) ∧
    Sends s (encodeClientAuth scheme ours (hmacWithNonce mac secret nonce))

/-- A client answers one nonce: that of the only packet it has read before it answers. -/
theorem Answers.unique {s : PacketSession} {nonce nonce' : List UInt8}
    (h : Answers mac secret ours s nonce) (h' : Answers mac secret ours s nonce') :
    nonce = nonce' := by
  obtain ⟨hello, peer, rest, htrace, hdecode, -⟩ := h
  obtain ⟨hello', peer', rest', htrace', hdecode', -⟩ := h'
  obtain ⟨hhello, -⟩ := List.cons.inj (htrace.symm.trans htrace')
  cases received_inj.1 hhello
  cases hdecode.symm.trans hdecode'
  rfl

/-- A client sends the proof for the nonce of its first packet, and nothing else. -/
theorem ClientAt.sends {body : List UInt8} (h : ClientAt mac secret ours trace node)
    (hsends : Sends ⟨node, trace⟩ body) :
    ∃ nonce, Answers mac secret ours ⟨node, trace⟩ nonce ∧
      body = encodeClientAuth scheme ours (hmacWithNonce mac secret nonce) := by
  cases h with
  | waiting | ungreeted | refused =>
    rcases hsends with ⟨ans, hmem⟩ | ⟨k, hnode⟩
    · simp [wrote, received] at hmem
    · cases hnode
  | answering hello peer nonce k hdecode =>
    refine ⟨nonce, ⟨hello, peer, [], rfl, hdecode, .inr ⟨k, rfl⟩⟩, ?_⟩
    rcases hsends with ⟨ans, hmem⟩ | ⟨k, hnode⟩
    · simp [wrote, received] at hmem
    · cases hnode
      rfl
  | left hello peer nonce _ _ hdecode | answered hello peer nonce _ hdecode
  | ended hello peer nonce _ _ hdecode =>
    refine ⟨nonce, ⟨hello, peer, _, rfl, hdecode,
      .inl ⟨_, List.mem_cons_of_mem _ List.mem_cons_self⟩⟩, ?_⟩
    rcases hsends with ⟨ans, hmem⟩ | ⟨k, hnode⟩
    · simp [wrote, received] at hmem
      exact hmem.1
    · cases hnode

end States

/-! ### Soundness -/

section Soundness

variable [DecidableEq ι] {mac : Mac} {secret : List UInt8} {role : ι → Role}
  {w w' : ι → PacketSession}

/-- What a session has begun to send stays sent. -/
theorem Sends.step (hstep : Sessions.Step (Allowed mac secret) w w') {i : ι} {body : List UInt8}
    (h : Sends (w i) body) : Sends (w' i) body := by
  rcases h with ⟨ans, hmem⟩ | ⟨k, hnode⟩
  · exact .inl ⟨ans, hstep.mem_trace hmem⟩
  · rcases hstep.awaits hnode with hawaits | hanswered
    · exact .inr hawaits
    · exact .inl hanswered

/-- What the attacker can make, it can make later. -/
theorem Allowed.step (hstep : Sessions.Step (Allowed mac secret) w w') {e : PacketEvent}
    (h : Allowed mac secret w e) : Allowed mac secret w' e := by
  intro body he scheme' peer proof nonce hdecode hproof
  obtain ⟨i, sent, scheme'', peer', hsends, hsent⟩ :=
    h body he scheme' peer proof nonce hdecode hproof
  exact ⟨i, sent, scheme'', peer', hsends.step hstep, hsent⟩

/-- A server run whose `authenticate_server` has returned `Ok`: it takes its peer for one that knows
the secret. -/
def Accepted (role : ι → Role) (w : ι → PacketSession) (i : ι) : Prop :=
  (∃ transport protocol, role i = .server transport protocol) ∧ ∃ v, (w i).node = .done (.ok v)

/-- The nonces of the servers are pairwise distinct, as random ones are but for a negligible
chance. -/
def DistinctNonces (w : ι → PacketSession) : Prop :=
  ∀ i i' nonce, drew nonce ∈ (w i).trace → drew nonce ∈ (w i').trace → i = i'

/-- A client run that has answered a hello with the nonce: an honest session stands behind the
proof. -/
def AnsweredBy (mac : Mac) (secret : List UInt8) (role : ι → Role) (w : ι → PacketSession) (j : ι)
    (nonce : List UInt8) : Prop :=
  ∃ protocol, role j = .client protocol ∧ Answers mac secret protocol (w j) nonce

/-- No nonce that a client has answered has the MAC of another one that a server has drawn. -/
def CollisionFree (mac : Mac) (secret : List UInt8) (role : ι → Role) (w : ι → PacketSession) :
    Prop :=
  ∀ i j nonce answered, drew nonce ∈ (w i).trace → AnsweredBy mac secret role w j answered →
    hmacWithNonce mac secret answered = hmacWithNonce mac secret nonce → answered = nonce

/-- A proof an honest session has sent is a client's answer to the nonce it was given, since servers
send none. -/
theorem answeredBy_of_exposed (hw : Reachable mac secret role w) {proof : List UInt8}
    (h : Exposed w proof) :
    ∃ j nonce, AnsweredBy mac secret role w j nonce ∧ proof = hmacWithNonce mac secret nonce := by
  obtain ⟨j, body, scheme', peer, hsends, hdecode⟩ := h
  have hreaches := hw.reaches j
  have hhead := head_of_decodeClientAuth hdecode
  cases hrole : role j with
  | server transport protocol =>
    rw [hrole] at hreaches
    rcases (serverAt_of_reaches hreaches).sends hsends with h | h
    · exact absurd (hhead.symm.trans h) (by decide)
    · exact absurd (hhead.symm.trans h) (by decide)
  | client protocol =>
    rw [hrole] at hreaches
    obtain ⟨nonce, hanswers, rfl⟩ := (clientAt_of_reaches hreaches).sends hsends
    refine ⟨j, nonce, ⟨protocol, hrole, hanswers⟩, ?_⟩
    have hlen : (hmacWithNonce mac secret nonce).length < 2 ^ 16 :=
      (mac.length_tag _ _).trans_lt (by decide)
    rw [encodeClientAuth, encodeAuth_eq hlen] at hdecode
    have hok : decodeClientAuth (authBody TAG_CLIENT_AUTH HANDSHAKE_VERSION scheme protocol
        (hmacWithNonce mac secret nonce)) =
          .ok (scheme, protocol, hmacWithNonce mac secret nonce) :=
      decodeAuth_eq_ok_iff.2 ⟨_, hlen, rfl⟩
    cases hdecode.symm.trans hok
    rfl

/-- A server draws one nonce and reads one packet. -/
theorem once_of_server (hw : Reachable mac secret role w) {i : ι}
    (hi : ∃ transport protocol, role i = .server transport protocol) :
    (∀ n n', drew n ∈ (w i).trace → drew n' ∈ (w i).trace → n = n') ∧
      ∀ b b', received b ∈ (w i).trace → received b' ∈ (w i).trace → b = b' := by
  obtain ⟨transport, protocol, hrole⟩ := hi
  have hreaches := hw.reaches i
  rw [hrole] at hreaches
  exact (serverAt_of_reaches hreaches).events

/-- **The answer behind an acceptance.** The proof was read, so it is one the attacker could send;
it is the right MAC, so an honest party had sent it; and without collisions it was for this
nonce. -/
theorem exists_answeredBy (hw : Reachable mac secret role w)
    (hcollision : CollisionFree mac secret role w) {i : ι} (h : Accepted role w i) :
    ∃ nonce body peer j, drew nonce ∈ (w i).trace ∧ received body ∈ (w i).trace ∧
      decodeClientAuth body = .ok (scheme, peer, hmacWithNonce mac secret nonce) ∧
      AnsweredBy mac secret role w j nonce := by
  obtain ⟨⟨transport, protocol, hrole⟩, v, hnode⟩ := h
  have hreaches := hw.reaches i
  rw [hrole] at hreaches
  have hat := serverAt_of_reaches hreaches
  rw [hnode] at hat
  obtain ⟨nonce, body, peer, hdrew, hreceived, hdecode⟩ := hat.accepts
  have hallowed := hw.allowed_of_mem (fun _ _ _ hstep h => h.step hstep) hreceived
  obtain ⟨j, answered, hanswered, hproof⟩ := answeredBy_of_exposed hw
    (hallowed body rfl _ _ _ _ hdecode rfl)
  have heq := hcollision i j nonce answered hdrew hanswered hproof.symm
  exact ⟨nonce, body, peer, j, hdrew, hreceived, hdecode, heq ▸ hanswered⟩

/-- **The HMAC handshake is sound.** In every world the attacker can bring about, as long as the
servers draw distinct nonces and no nonce a client answers has the MAC of another one: each server
run that has returned `Ok` has a partner, an honest client run that has received a hello with
exactly the nonce of the server and has sent the proof for it, and different server runs have
different partners. A client auth that was accepted in one run is refused by every other run that
reads it. -/
theorem hmac_sound (mac : Mac) (secret : List UInt8) (role : ι → Role) {w : ι → PacketSession}
    (hw : Reachable mac secret role w) (hdistinct : DistinctNonces w)
    (hcollision : CollisionFree mac secret role w) :
    (∃ partner : ι → ι,
      (∀ i, Accepted role w i → ∃ nonce, (∀ n, drew n ∈ (w i).trace ↔ n = nonce) ∧
        AnsweredBy mac secret role w (partner i) nonce) ∧
      ∀ i i', Accepted role w i → Accepted role w i' → partner i = partner i' → i = i') ∧
    ∀ i i' body, i ≠ i' → Accepted role w i → received body ∈ (w i).trace →
      received body ∈ (w i').trace → (∃ transport protocol, role i' = .server transport protocol) →
      ∀ r, (w i').node = .done r → ∃ fault, r = .error fault := by
  have hpartner : ∀ i, ∃ j, Accepted role w i →
      ∃ nonce, (∀ n, drew n ∈ (w i).trace ↔ n = nonce) ∧ AnsweredBy mac secret role w j nonce := by
    intro i
    by_cases h : Accepted role w i
    · obtain ⟨nonce, _, _, j, hdrew, -, -, hanswered⟩ := exists_answeredBy hw hcollision h
      refine ⟨j, fun _ => ⟨nonce, fun n => ⟨fun hn => ?_, fun hn => hn ▸ hdrew⟩, hanswered⟩⟩
      exact (once_of_server hw h.1).1 n nonce hn hdrew
    · exact ⟨i, fun h' => absurd h' h⟩
  choose partner hpartner using hpartner
  refine ⟨⟨partner, hpartner, fun i i' hi hi' heq => ?_⟩, ?_⟩
  · obtain ⟨nonce, hdrew, protocol, hrole, hanswers⟩ := hpartner i hi
    obtain ⟨nonce', hdrew', protocol', hrole', hanswers'⟩ := hpartner i' hi'
    rw [← heq] at hrole' hanswers'
    cases hrole.symm.trans hrole'
    have hnonce := Subtype.ext (hanswers.unique hanswers')
    exact hdistinct i i' nonce ((hdrew nonce).2 rfl) ((hdrew' nonce).2 hnonce)
  · rintro i i' body hne hi hbody hbody' hserver (fault | v) hnode
    · exact ⟨fault, rfl⟩
    -- both runs have accepted the same proof, so they have drawn the same nonce
    have hi' : Accepted role w i' := ⟨hserver, v, hnode⟩
    obtain ⟨nonce, b, peer, j, hdrew, hb, hdecode, hanswered⟩ := exists_answeredBy hw hcollision hi
    obtain ⟨nonce', b', peer', j', hdrew', hb', hdecode', hanswered'⟩ :=
      exists_answeredBy hw hcollision hi'
    obtain rfl := (once_of_server hw hi.1).2 b body hb hbody
    obtain rfl := (once_of_server hw hserver).2 b' b hb' hbody'
    have hproof : hmacWithNonce mac secret nonce = hmacWithNonce mac secret nonce' := by
      have hok := hdecode.symm.trans hdecode'
      simp only [Except.ok.injEq, Prod.mk.injEq] at hok
      exact hok.2.2
    have hnonce := Subtype.ext (hcollision i' j nonce' nonce hdrew' hanswered hproof)
    exact absurd (hdistinct i i' nonce hdrew (hnonce ▸ hdrew')) hne

end Soundness

/-- A server and a client of compatible protocols, for a run that goes through. -/
def sampleRole : Bool → Role
  | false => .server .tcp ⟨7, 1, 0, 4⟩
  | true => .client ⟨7, 1, 3, 1⟩

/-- The nonce the server of the sample draws. -/
def sampleNonce : { nonce : List UInt8 // nonce.length = NONCE_LEN } := ⟨List.replicate 32 7, rfl⟩

/-- The packet the server of the sample sends, with that nonce. -/
def sampleHello : List UInt8 := encodeHello scheme ⟨7, 1, 0, 4⟩ sampleNonce

/-- The answer of the client of the sample, with the proof for that nonce. -/
def sampleAuth : List UInt8 :=
  encodeClientAuth scheme ⟨7, 1, 3, 1⟩ (hmacWithNonce .sample [1, 2] sampleNonce)

/-- The attacker passes the packets of one client and one server on, and the server accepts. -/
theorem sample_reachable : ∃ w, Reachable .sample [1, 2] sampleRole w ∧
    w false = ⟨.done (.ok (some ⟨1, 3, 1⟩)), [drew sampleNonce, wrote sampleHello (.ok ()),
      received sampleAuth, wrote (encodeAck ACK_OK []) (.ok ())]⟩ ∧
    (w true).trace = [received sampleHello, wrote sampleAuth (.ok ())] := by
  have h0 : Reachable .sample [1, 2] sampleRole
      (Sessions.init fun i => start .sample [1, 2] (sampleRole i)) := .refl
  have hother : ∀ (w : Bool → PacketSession) (e : PacketEvent), (∀ body, e ≠ received body) →
      Allowed .sample [1, 2] w e := fun w e hne body he => absurd he (hne body)
  obtain ⟨w1, h1, hs1, hc1⟩ := h0.answer (i := false) rfl (.ok sampleNonce)
    (hother _ _ (by simp [received]))
  obtain ⟨w2, h2, hs2, hc2⟩ := h1.answer (congrArg Session.node hs1) (.ok ())
    (hother _ _ (by simp [received]))
  obtain ⟨w3, h3, hc3, hs3⟩ := h2.answer
    (congrArg Session.node ((hc2 true nofun).trans (hc1 true nofun))) (.ok sampleHello) (by
      intro body he scheme' peer proof nonce hdecode
      obtain rfl := received_inj.1 he
      exact absurd (head_of_decodeClientAuth hdecode) (by decide +kernel))
  obtain ⟨w4, h4, hc4, hs4⟩ := h3.answer (congrArg Session.node hc3) (.ok ())
    (hother _ _ (by simp [received]))
  obtain ⟨w5, h5, hs5, hc5⟩ := h4.answer
    (congrArg Session.node ((hs4 false nofun).trans ((hs3 false nofun).trans hs2)))
    (.ok sampleAuth) (by
      intro body he scheme' peer proof nonce hdecode _
      obtain rfl := received_inj.1 he
      refine ⟨true, sampleAuth, scheme', peer, .inl ⟨.ok (), ?_⟩, hdecode⟩
      rw [hc4]
      exact List.mem_append_right _ (List.mem_singleton_self _))
  obtain ⟨w6, h6, hs6, hc6⟩ := h5.answer (congrArg Session.node hs5) (.ok ())
    (hother _ _ (by simp [received]))
  refine ⟨w6, h6, ?_, ?_⟩
  · rw [hs6, hs5, hs4 false nofun, hs3 false nofun, hs2, hs1]
    rfl
  · rw [hc6 true nofun, hc5 true nofun, hc4, hc3, hc2 true nofun, hc1 true nofun]
    rfl

/-- A world in which the server has accepted, and the client it owes this to. -/
theorem hmac_sound_sample : ∃ w, Reachable .sample [1, 2] sampleRole w ∧
    Accepted sampleRole w false ∧
    ∃ partner : Bool → Bool, ∃ nonce, (∀ n, drew n ∈ (w false).trace ↔ n = nonce) ∧
      AnsweredBy .sample [1, 2] sampleRole w (partner false) nonce := by
  obtain ⟨w, hw, hserver, hclient⟩ := sample_reachable
  have haccepted : Accepted sampleRole w false := by
    refine ⟨⟨_, _, rfl⟩, some ⟨1, 3, 1⟩, ?_⟩
    rw [hserver]
  have hdrew : ∀ i nonce, drew nonce ∈ (w i).trace → i = false ∧ nonce = sampleNonce := by
    rintro (_ | _) nonce h
    · rw [hserver] at h
      simpa using h
    · rw [hclient] at h
      simp at h
  have hdistinct : DistinctNonces w := fun i i' nonce h h' =>
    (hdrew i nonce h).1.trans (hdrew i' nonce h').1.symm
  have hcollision : CollisionFree .sample [1, 2] sampleRole w := by
    rintro i (_ | _) nonce answered h ⟨protocol, hrole, hello, peer, rest, htrace, hdecode, -⟩ -
    · cases hrole
    · obtain ⟨-, rfl⟩ := hdrew i nonce h
      rw [hclient] at htrace
      obtain rfl := received_inj.1 (List.cons.inj htrace).1
      have hnonce : sampleNonce.val.length < 2 ^ 16 := by decide
      have hok : decodeHello sampleHello = .ok (scheme, ⟨7, 1, 0, 4⟩, sampleNonce.val) :=
        decodeAuth_eq_ok_iff.2 ⟨_, hnonce, encodeAuth_eq hnonce _ _ _⟩
      cases hdecode.symm.trans hok
      rfl
  obtain ⟨⟨partner, hpartner, -⟩, -⟩ := hmac_sound .sample [1, 2] sampleRole hw hdistinct hcollision
  exact ⟨w, hw, haccepted, partner, hpartner false haccepted⟩

end Attacker

end Ogurpchik
