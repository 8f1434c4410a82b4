import Ogurpchik.AcceptorClock
import Ogurpchik.HandshakeClient

/-!
# Transcripts

What has gone over a connection is a matter of the answers its operations were given: which bytes
the reads brought, how many bytes the writes took, and which nonces were drawn. This module reads
the transcript of a connection off the history of its handshake, and says what it is where the
handshake passes. However reads and writes were cut, it is made up of whole packets, and they are
the ones the two halves exchange: there is nothing more and nothing less on the wire.

The acceptor runs many handshakes at a time and may be left and called again in between. Whatever it
hands out has such a transcript, and what it turns away for want of a slot has not been touched.

## Main definitions

* `Transcript`, `transcript`: what has gone over a connection.
* `Effect`: what an operation of the two halves does to a transcript.
* `ServerTranscript`, `ClientTranscript`: the transcripts of handshakes that pass.

## Main results

* `perform_effect`: the operations of the two halves put whole packets on the wire.
* `session_transcripts`: **the transcripts of sessions**.
-/

namespace Ogurpchik

open Async LittleEndian

/-- The nonces that were drawn on a connection, and the bytes that were sent and received. -/
structure Transcript where
  drawn : List (List UInt8)
  sent : List UInt8
  got : List UInt8

namespace Transcript

/-- One more answer: bytes that were read, bytes that were written, and nonces that were drawn are
recorded. -/
def next (t : Transcript) : (op : ConnOp) → op.Ans → Transcript
  | .timed _, some (.ok bytes) => { t with got := t.got ++ bytes.val }
  | .write bytes, .ok n => { t with sent := t.sent ++ bytes.take n.val }
  | .host .fillRandom, .ok nonce => { t with drawn := t.drawn ++ [nonce.val] }
  | _, _ => t

/-- A packet more was sent, with its length in front of it. -/
def write (t : Transcript) (body : List UInt8) : Transcript :=
  { t with sent := t.sent ++ frame body }

/-- A packet more was received, with its length in front of it. -/
def read (t : Transcript) (body : List UInt8) : Transcript :=
  { t with got := t.got ++ frame body }

/-- A nonce more was drawn; it is not on the connection until it is sent. -/
def draw (t : Transcript) (nonce : List UInt8) : Transcript :=
  { t with drawn := t.drawn ++ [nonce] }

end Transcript

/-- The transcript of a history, from its beginning. -/
def transcript (h : List (Prog.Event ConnOp ConnOp.Ans)) : Transcript :=
  h.foldl (fun t event => t.next event.op event.ans) ⟨[], [], []⟩

/-- What an operation of the two halves does to a transcript: a packet goes over the connection as a
whole, or the operation fails with anything in between. -/
inductive Effect (t : Transcript) : (op : PacketOp) → op.Ans → Transcript → Prop
  | wrote (body : List UInt8) : Effect t (.writePacket body) (.ok ()) (t.write body)
  | notWritten (body : List UInt8) (report : Report) (t' : Transcript) :
      Effect t (.writePacket body) (.error report) t'
  | read (body : List UInt8) : Effect t .readPacketWithTimeout (.ok body) (t.read body)
  | notRead (report : Report) (t' : Transcript) :
      Effect t .readPacketWithTimeout (.error report) t'
  | drew (nonce : { nonce : List UInt8 // nonce.length = NONCE_LEN }) :
      Effect t (.host .fillRandom) (.ok nonce) (t.draw nonce.val)
  | notDrawn (e : String) : Effect t (.host .fillRandom) (.error e) t
  | identity (r : PeerIdentity) : Effect t (.host .peerIdentity) r t
  | time (pid : UInt32) (r : Except Report UInt64) :
      Effect t (.host (.processCreationTime pid)) r t
  | image (pid : UInt32) (publicKey : List UInt8) (r : Except Report Unit) :
      Effect t (.host (.verifyProcessImage pid publicKey)) r t

/-! ### Packets on the wire -/

/-- A program is run, and its answers are recorded; at its end `post` holds of the transcript and
the value. -/
abbrev Records {α : Type} (post : Transcript → α → Prop) (p : ConnProg α) (t : Transcript) : Prop :=
  p.Against (fun t op ans t' => t' = t.next op ans) (fun _ => True) post t

/-- The same for reads, of which only the bytes are recorded, behind those that were read before. -/
abbrev RecordsReads {α : Type} (post : List UInt8 → α → Prop) (p : ReadProg α)
    (got : List UInt8) : Prop :=
  p.Against (fun got op (ans : op.Ans) got' => got' = got ++ (ans.toOption.elim [] Subtype.val))
    (fun _ => True) post got

/-- The loop of `read_exact` takes exactly the bytes it returns, in however many reads: by induction
on what is missing. -/
theorem recordsReads_readExactFrom {n : ℕ} {before got : List UInt8} (hle : got.length ≤ n) :
    RecordsReads (fun all r => ∀ bytes, r = .ok bytes → all = before ++ bytes ∧ bytes.length = n)
      (readExactFrom n got) (before ++ got) := by
  induction hm : n - got.length using Nat.strong_induction_on generalizing got with
  | _ m ih =>
    rw [readExactFrom]
    split_ifs with hlt
    · refine ⟨trivial, ?_⟩
      rintro (e | bs) _ rfl
      · exact ⟨trivial, by rintro _ ⟨⟩⟩
      · have hroom : bs.val.length ≤ n - got.length := bs.property
        dsimp only
        split_ifs with hnil
        · exact ⟨trivial, by rintro _ ⟨⟩⟩
        · have hpos := List.length_pos_iff.2 hnil
          change RecordsReads _ _ (before ++ got ++ bs.val)
          rw [List.append_assoc]
          refine ih _ ?_ ?_ rfl
          · rw [List.length_append]
            omega
          · rw [List.length_append]
            omega
    · refine ⟨trivial, ?_⟩
      rintro _ ⟨⟩
      exact ⟨rfl, by omega⟩

/-- So `read_exact` does, and nothing behind them. -/
theorem recordsReads_readExact (n : ℕ) (before : List UInt8) :
    RecordsReads (fun all r => ∀ bytes, r = .ok bytes → all = before ++ bytes ∧ bytes.length = n)
      (readExact n) before := by
  have h := @recordsReads_readExactFrom n before [] (Nat.zero_le n)
  rwa [List.append_nil] at h

/-- A packet is read with its length in front of it, and nothing behind it is read. -/
theorem recordsReads_readPacket (got : List UInt8) :
    RecordsReads (fun all r => ∀ body, r = .ok body → all = got ++ frame body) readPacket got := by
  refine (recordsReads_readExact 4 got).bind ?_
  rintro all (e | header) - hread
  · exact ⟨trivial, by rintro _ ⟨⟩⟩
  obtain ⟨rfl, hlen⟩ := hread header rfl
  dsimp only
  split_ifs
  · exact ⟨trivial, by rintro _ ⟨⟩⟩
  refine (recordsReads_readExact (leNat header) (got ++ header)).bind ?_
  rintro all (e | body) - hread'
  · exact ⟨trivial, by rintro _ ⟨⟩⟩
  obtain ⟨rfl, hbodyLen⟩ := hread' body rfl
  refine ⟨trivial, ?_⟩
  rintro _ ⟨⟩
  rw [frame, hbodyLen, leBytes_leNat_of_length hlen, List.append_assoc]

/-- The timer adds nothing to the transcript: if it does not win, the bytes are those of the
read. -/
theorem records_underTimeout {α : Type} {post : List UInt8 → α → Prop} {p : ReadProg α}
    {t : Transcript} (h : RecordsReads post p t.got) :
    Records (fun t' r => ∀ a, r = some a → ∃ got, t' = { t with got := got } ∧ post got a)
      (underTimeout p) t := by
  induction p generalizing t with
  | done a =>
    refine ⟨trivial, ?_⟩
    rintro _ ⟨⟩
    exact ⟨t.got, rfl, h.2⟩
  | await op k ih =>
    rw [underTimeout]
    refine ⟨trivial, ?_⟩
    rintro (_ | ans) _ rfl
    · exact ⟨trivial, by rintro _ ⟨⟩⟩
    · have hnext := h.2 ans _ rfl
      cases ans with
      | error e =>
        rw [Except.toOption, Option.elim_none, List.append_nil] at hnext
        exact ih _ hnext
      | ok bytes => exact ih _ (t := { t with got := t.got ++ bytes.val }) hnext

/-- A write that succeeds has sent all of its bytes, in however many pieces. -/
theorem records_writeAll {t : Transcript} (bytes : List UInt8) :
    Records (fun t' r => r = .ok () → t' = { t with sent := t.sent ++ bytes }) (writeAll bytes)
      t := by
  induction bytes using writeAll_induction generalizing t with
  | nil =>
    rw [writeAll, if_pos rfl]
    refine ⟨trivial, fun _ => ?_⟩
    rw [List.append_nil]
  | more bytes hne ih =>
    rw [writeAll, if_neg hne]
    refine ⟨trivial, ?_⟩
    rintro (e | n) _ rfl
    · exact ⟨trivial, by rintro ⟨⟩⟩
    · dsimp only
      split_ifs with hzero
      · exact ⟨trivial, by rintro ⟨⟩⟩
      · have hrest := ih n.val hzero (t := { t with sent := t.sent ++ bytes.take n.val })
        simp only [List.append_assoc, List.take_append_drop] at hrest
        exact hrest

/-- **Packets go over the connection as a whole**, if they do: the operation has one effect, however
it was cut. -/
theorem perform_effect (op : PacketOp) (t : Transcript) :
    Records (fun t' ans => Effect t op ans t') (perform op) t := by
  cases op with
  | writePacket body =>
    refine (records_writeAll (frame body)).bind ?_
    rintro t' (e | _) - hwritten
    · exact ⟨trivial, .notWritten _ _ _⟩
    · rw [hwritten rfl]
      exact ⟨trivial, .wrote body⟩
  | readPacketWithTimeout =>
    refine (records_underTimeout (recordsReads_readPacket t.got)).bind ?_
    rintro t' (_ | result) - hread
    · exact ⟨trivial, .notRead _ _⟩
    · obtain ⟨got, rfl, hbody⟩ := hread result rfl
      cases result with
      | error report => exact ⟨trivial, .notRead _ _⟩
      | ok body =>
        rw [hbody body rfl]
        exact ⟨trivial, .read body⟩
  | host op =>
    refine ⟨trivial, ?_⟩
    rintro ans _ rfl
    refine ⟨trivial, ?_⟩
    cases op with
    | peerIdentity => exact .identity ans
    | fillRandom =>
      cases ans with
      | error e => exact .notDrawn e
      | ok nonce => exact .drew nonce
    | processCreationTime pid => exact .time pid ans
    | verifyProcessImage pid publicKey => exact .image pid publicKey ans

/-! ### What the two halves say -/

/-- If the half passes, its value and the transcript then satisfy `post`. Of a half that fails
nothing is told. -/
def Tells {α : Type} (post : Transcript → α → Prop) (x : HandshakeM α) (t : Transcript) : Prop :=
  x.run.Against Effect (fun _ => True) (fun t r => ∀ a, r = .ok a → post t a) t

section Tells

variable {α β : Type} {post : Transcript → α → Prop} {t : Transcript}

/-- The rule of sequence: a transcript goes on where it was. -/
theorem Tells.bind {post' : Transcript → β → Prop} {x : HandshakeM α} {f : α → HandshakeM β}
    (h : Tells post x t) (hf : ∀ t a, post t a → Tells post' (f a) t) :
    Tells post' (x >>= f) t := by
  refine Prog.Against.bind h fun t r _ hr => ?_
  cases r with
  | ok a => exact hf t a (hr a rfl)
  | error e => exact ⟨trivial, by rintro _ ⟨⟩⟩

/-- Returning a value leaves no trace. -/
theorem tells_pure {a : α} (h : post t a) : Tells post (pure a) t := by
  refine ⟨trivial, ?_⟩
  rintro _ ⟨⟩
  exact h

/-- A half that fails has nothing to tell. -/
theorem tells_throw (fault : HandshakeFault) : Tells post (throw fault) t :=
  ⟨trivial, by rintro _ ⟨⟩⟩

/-- Turning a result into a failure leaves no trace. -/
theorem tells_orReport (x : Except Report α) :
    Tells (fun t' a => t' = t ∧ x = .ok a) (orReport x) t := by
  cases x with
  | error report => exact tells_throw _
  | ok a => exact tells_pure ⟨rfl, rfl⟩

/-- A half that refuses its peer does not pass. -/
theorem tells_reject (reason : List UInt8) (report : Report) :
    Tells post (reject reason report) t :=
  ⟨trivial, fun _ _ _ => ⟨trivial, by rintro _ ⟨⟩⟩⟩

/-- A packet that is written is in the transcript, framed. -/
theorem tells_writePacket (body : List UInt8) :
    Tells (fun t' _ => t' = t.write body) (writePacket body) t := by
  refine ⟨trivial, fun ans t' h => ?_⟩
  cases h with
  | wrote => exact tells_pure rfl
  | notWritten => exact tells_throw _

/-- So is a packet that is read. -/
theorem tells_readPacketWithTimeout :
    Tells (fun t' body => t' = t.read body) readPacketWithTimeout t := by
  refine ⟨trivial, fun ans t' h => ?_⟩
  cases h with
  | read body => exact tells_pure rfl
  | notRead => exact tells_throw _

end Tells

/-- The proof a mode asks for: the MAC of the nonce, none, or whatever where the process is checked
in place of a proof. -/
def ProofFits (mac : Mac) (nonce proof : List UInt8) : HandshakeMode → Prop
  | .hmacSha256 secret => proof = hmacWithNonce mac secret nonce
  | .signedProcess _ => True
  | _ => proof = []

/-- The transcript of a server that has accepted: a nonce was drawn, a hello with it and an
acknowledgement were sent, and one packet was received, with a proof for that nonce. -/
def ServerTranscript (mac : Mac) (mode : HandshakeMode) (ours : Protocol) (t : Transcript)
    (version : Option Version) : Prop :=
  ∃ nonce peer proof,
    t = ⟨[nonce],
      frame (encodeHello mode.schemeId ours nonce) ++ frame (encodeAck ACK_OK []),
      frame (encodeClientAuth mode.schemeId peer proof)⟩ ∧
    ProofFits mac nonce proof mode ∧ incompatibility ours peer = none ∧
    version = some peer.version

/-- The transcript of a client that was accepted: a hello and an acknowledgement were received, and
one packet was sent, with the proof for the nonce of the hello. -/
def ClientTranscript (mac : Mac) (mode : HandshakeMode) (ours : Protocol) (t : Transcript)
    (version : Option Version) : Prop :=
  ∃ nonce peer reason,
    t = ⟨[],
      frame (encodeClientAuth mode.schemeId ours (proofFor mac nonce mode)),
      frame (encodeHello mode.schemeId peer nonce) ++ frame (encodeAck ACK_OK reason)⟩ ∧
    incompatibility ours peer = none ∧ version = some peer.version

section Halves

variable {mac : Mac} {transport : Transport} {mode : HandshakeMode} {ours : Protocol}
  {t : Transcript}

/-- Finding out who the peer is leaves no trace on the connection. -/
theorem tells_attestPid : Tells (fun t' _ => t' = t) (attestPid transport mode) t := by
  cases mode with
  | signedProcess publicKey =>
    refine ⟨trivial, fun ans t' h => ?_⟩
    cases h
    cases ans with
    | pid pid => exact tells_pure rfl
    | unknown => exact tells_throw _
  | disabled | versionOnly | hmacSha256 _ => exact tells_pure rfl

/-- Drawing a nonce puts it among the drawn ones, and nothing on the connection. -/
theorem tells_freshNonce : Tells (fun t' nonce => t' = t.draw nonce) freshNonce t := by
  refine ⟨trivial, fun ans t' h => ?_⟩
  cases h with
  | drew nonce => exact tells_pure rfl
  | notDrawn e => exact tells_throw _

/-- The questions about a process leave no trace on the connection. -/
theorem tells_verifySignedProcess (pid : UInt32) (publicKey : List UInt8) :
    Tells (fun t' _ => t' = t) (ExceptT.lift (verifySignedProcess pid publicKey)) t := by
  refine ⟨trivial, fun before t' h => ?_⟩
  cases h
  rcases before with report | before
  · exact ⟨trivial, fun _ _ => rfl⟩
  refine ⟨trivial, fun image t' h => ?_⟩
  cases h
  rcases image with report | image
  · exact ⟨trivial, fun _ _ => rfl⟩
  refine ⟨trivial, fun after t' h => ?_⟩
  cases h
  rcases after with report | after
  · exact ⟨trivial, fun _ _ => rfl⟩
  dsimp only
  split_ifs
  · exact ⟨trivial, fun _ _ => rfl⟩
  · exact ⟨trivial, fun _ _ => rfl⟩

/-- Past the check, the proof fits the nonce that was drawn, and the connection is as it was. -/
theorem tells_checkProof (attestedPid : Option UInt32) (nonce proof : List UInt8) :
    Tells (fun t' _ => t' = t ∧ ProofFits mac nonce proof mode)
      (checkProof mac attestedPid nonce proof mode) t := by
  cases mode with
  | signedProcess publicKey =>
    cases attestedPid with
    | none => exact tells_throw _
    | some pid =>
      refine (tells_verifySignedProcess pid publicKey).bind ?_
      rintro t' result rfl
      cases result with
      | error report => exact tells_reject _ _
      | ok _ => exact tells_pure ⟨rfl, trivial⟩
  | disabled | versionOnly | hmacSha256 _ =>
    simp only [checkProof]
    split_ifs with hproof
    · exact tells_reject _ _
    · exact tells_pure ⟨rfl, not_not.1 hproof⟩

/-- A packet of the version of the handshake is the encoding of what it decodes to. -/
theorem eq_encodeAuth {tag scheme : UInt8} {what : String} {body payload : List UInt8}
    {peer : Protocol} (hversion : foreignVersion body = none)
    (hdecode : decodeAuth tag what body = .ok (scheme, peer, payload)) :
    body = encodeAuth tag scheme peer payload := by
  obtain ⟨version, hlen, rfl⟩ := decodeAuth_eq_ok_iff.1 hdecode
  rw [foreignVersion_eq_none_iff, packetVersion_authBody] at hversion
  rw [encodeAuth_eq hlen, hversion version rfl]

/-- Past the answer, the packet of the client was one with such a proof, of a protocol that goes
with the own one. -/
theorem tells_answerAuth {post : Transcript → Option Version → Prop}
    (attestedPid : Option UInt32) {nonce body : List UInt8}
    (h : ∀ peer proof, body = encodeClientAuth mode.schemeId peer proof →
      ProofFits mac nonce proof mode → incompatibility ours peer = none →
      post (t.write (encodeAck ACK_OK [])) (some peer.version)) :
    Tells post (answerAuth mac mode ours attestedPid nonce body) t := by
  rw [answerAuth]
  cases hversion : foreignVersion body with
  | some version => exact tells_reject _ _
  | none =>
    refine (tells_orReport _).bind ?_
    rintro t' ⟨scheme, peer, proof⟩ ⟨rfl, hdecode⟩
    dsimp only
    split_ifs with hscheme
    · exact tells_reject _ _
    obtain rfl := not_not.1 hscheme
    cases hcompat : incompatibility ours peer with
    | some refusal => exact tells_reject _ _
    | none =>
      refine (tells_checkProof attestedPid nonce proof).bind ?_
      rintro t' _ ⟨rfl, hproof⟩
      refine (tells_writePacket _).bind ?_
      rintro t' _ rfl
      exact tells_pure (h peer proof (eq_encodeAuth hversion hdecode) hproof hcompat)

/-- **A server that passes** has one transcript up to its nonce, the peer and the proof. -/
theorem tells_authenticateServer (hmode : mode ≠ .disabled) :
    Tells (ServerTranscript mac mode ours) (authenticateServer mac transport mode ours)
      ⟨[], [], []⟩ := by
  rw [authenticateServer_eq hmode]
  refine tells_attestPid.bind ?_
  rintro t attestedPid rfl
  refine tells_freshNonce.bind ?_
  rintro t nonce rfl
  refine (tells_writePacket _).bind ?_
  rintro t _ rfl
  refine tells_readPacketWithTimeout.bind ?_
  rintro t body rfl
  refine tells_answerAuth attestedPid ?_
  rintro peer proof rfl hproof hcompat
  exact ⟨nonce, peer, proof, rfl, hproof, hcompat, rfl⟩

/-- **A client that passes** has one up to the nonce, the peer and the text in the ack. -/
theorem tells_authenticateClient (hmode : mode ≠ .disabled) :
    Tells (ClientTranscript mac mode ours) (authenticateClient mac mode ours) ⟨[], [], []⟩ := by
  rw [authenticateClient_eq hmode]
  refine tells_readPacketWithTimeout.bind ?_
  rintro t body rfl
  rw [answerHello]
  split_ifs with hack
  · exact (tells_orReport _).bind fun _ _ _ => tells_throw _
  cases hversion : foreignVersion body with
  | some version => exact tells_throw _
  | none =>
    refine (tells_orReport _).bind ?_
    rintro t' ⟨scheme, peer, nonce⟩ ⟨rfl, hdecode⟩
    dsimp only
    split_ifs with hscheme
    · exact tells_throw _
    obtain rfl := not_not.1 hscheme
    refine (tells_writePacket _).bind ?_
    rintro t' _ rfl
    rw [awaitAck]
    cases hcompat : incompatibility ours peer with
    | some refusal => exact tells_throw _
    | none =>
      refine tells_readPacketWithTimeout.bind ?_
      rintro t' ack rfl
      refine (tells_orReport _).bind ?_
      rintro t' _ ⟨rfl, hok⟩
      obtain ⟨reason, hlen, rfl⟩ := decodeAck_eq_ok_iff.1 hok
      refine tells_pure ⟨nonce, peer, reason, ?_, hcompat, rfl⟩
      rw [eq_encodeAuth hversion hdecode, ← encodeAck_eq hlen]
      rfl

end Halves

/-- What a half tells about the packets holds of the bytes on the connection. -/
theorem Tells.transcript {α : Type} {post : Transcript → α → Prop} {x : HandshakeM α}
    (h : Tells post x ⟨[], [], []⟩) {history : List (Prog.Event ConnOp ConnOp.Ans)} {a : α}
    (hr : (onConn x).Reaches history (.done (.ok a))) : post (transcript history) a := by
  have hconn : Records (fun t r => ∀ a, r = .ok a → post t a) (onConn x) ⟨[], [], []⟩ :=
    Prog.Against.interpret (fun op t _ => perform_effect op t) h
  exact (hconn.of_reaches hr).2 a rfl

/-! ### At the acceptor -/

namespace Acceptor

section

variable {mac : Mac} {transport : Transport} {mode : HandshakeMode} {protocol : Protocol}
  {maxPending : ℕ} {s s' : State}

/-- A connection that found the acceptor full was not touched: nothing was read from it, and nothing
was sent. -/
def Untouched (s : State) : Prop := ∀ x ∈ s.ledger.full, s.ledger.traces x.conn = []

/-- A connection in its handshake did not find the acceptor full. -/
theorem Inv.ne_of_full (h : Inv mac transport mode protocol maxPending s) {x : FullDrop}
    (hx : x ∈ s.ledger.full) {hs : Handshake} (hhs : hs ∈ s.acceptor.pending) :
    x.conn ≠ hs.conn := by
  intro heq
  have hfull : hs.conn ∈ s.at .full := heq ▸ List.mem_map_of_mem hx
  have hpending : hs.conn ∈ s.at .pending := List.mem_map_of_mem hhs
  have hlt := (h.at_place .full).2 _ hfull
  cases (h.place hlt).unique hfull hpending

/-- A connection that found the acceptor full is dropped where it was delivered, and no later step
is about it. -/
theorem Untouched.move (h : Inv mac transport mode protocol maxPending s) (hu : Untouched s)
    (hmove : Move mac transport s s') : Untouched s' := by
  cases hmove with
  | call | cancel | listenerError => exact hu
  | deliver hc ha =>
    rw [SessionAcceptor.react]
    split_ifs with hfull
    · intro x hx
      rcases List.mem_append.1 hx with hx | hx
      · exact hu x hx
      · obtain rfl := List.mem_singleton.1 hx
        exact h.fresh _ le_rfl
    · exact hu
  | advance hc ans hp =>
    intro x hx
    have hne := h.ne_of_full hx (hp ▸ List.mem_append_right _ List.mem_cons_self)
    exact (Function.update_of_ne hne _ _).trans (hu x hx)
  | settle hc hp outcome ho =>
    rcases outcome with _ | (fault | v)
    · exact hu
    · exact hu
    · exact hu

/-- So over a whole run nothing was sent to such a client. -/
theorem Reachable.untouched {settings : List ℕ}
    (h : Reachable mac transport mode protocol settings s) : Untouched s := by
  induction h with
  | refl => exact fun x hx => absurd hx List.not_mem_nil
  | tail hrun hmove ih => exact Untouched.move (Reachable.inv hrun) ih hmove

end

end Acceptor

/-- **The transcripts of sessions.** In every run of the acceptor, whatever the clients do, however
the reads and writes on their connections are cut and whenever calls are dropped: where a session is
handed out, a nonce was drawn for its connection, exactly a hello with that nonce and an
acknowledgement were sent on it, and exactly one packet was received, of the scheme of the server,
with a compatible protocol, whose version the session has, and with the proof the mode asks for,
which is for that very nonce; and on a connection that found the acceptor full nothing has happened.
On the other end, where the handshake passes, exactly a hello and an acknowledgement were received,
and exactly one packet was sent, with the proof for the nonce of the hello. -/
theorem session_transcripts (mac : Mac) (transport : Transport) {mode : HandshakeMode}
    (hmode : mode ≠ .disabled) (ours : Protocol) :
    (∀ settings s, Acceptor.Reachable mac transport mode ours settings s →
      (∀ x ∈ s.ledger.handed,
        ServerTranscript mac mode ours (transcript (s.ledger.traces x.conn)) x.peerVersion) ∧
      ∀ x ∈ s.ledger.full, s.ledger.traces x.conn = []) ∧
    ∀ history version,
      (onConn (authenticateClient mac mode ours)).Reaches history (.done (.ok version)) →
      ClientTranscript mac mode ours (transcript history) version := by
  refine ⟨fun settings s h => ⟨fun x hx => ?_, Acceptor.Reachable.untouched h⟩,
    fun history version h => (tells_authenticateClient hmode).transcript h⟩
  exact (tells_authenticateServer hmode).transcript ((Acceptor.Reachable.inv h).passed x hx)

/-- The only client of an acceptor, with the shared secret, gets its session, and the proof was for
the nonce that was drawn for it. -/
theorem session_transcripts_hmac :
    ∃ s v, Acceptor.Reachable .sample .tcp (.hmacSha256 [1, 2]) ⟨7, 1, 3, 1⟩ [] s ∧
      s.ledger.handed = [⟨0, some v⟩] ∧
      ServerTranscript .sample (.hmacSha256 [1, 2]) ⟨7, 1, 3, 1⟩ (transcript (s.ledger.traces 0))
        (some v) := by
  obtain ⟨history, hpassed⟩ := exists_passed_hmac
  have hcalled : Acceptor.Timed.Reachable .sample .tcp ⟨2, 1⟩ (.hmacSha256 [1, 2]) ⟨7, 1, 3, 1⟩ []
      _ := .single (.call rfl)
  obtain ⟨t, hrun, -, hhanded, -⟩ := hcalled.inv.exists_served rfl (by decide) hpassed
  have hreachable := Acceptor.Timed.Reachable.state (hcalled.trans hrun)
  have hsession := ((session_transcripts .sample .tcp (by simp) ⟨7, 1, 3, 1⟩).1 [] t.state
    hreachable).1 ⟨0, some ⟨1, 0, 4⟩⟩ (hhanded ▸ List.mem_cons_self)
  exact ⟨t.state, ⟨1, 0, 4⟩, hreachable, hhanded, hsession⟩

end Ogurpchik
