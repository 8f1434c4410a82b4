import Ogurpchik.HandshakeScript

/-!
# Agreement of the Two Halves

An honest server and an honest client run against each other. For every pair of modes and
protocols the two play dual scripts: one of a server that cannot begin, a client that leaves at
the hello, a client that leaves behind its own packet, a refusal, and a success. So both finish
under every interleaving, and the results are those of the scripts.

## Main definitions

* `peers`: the two halves at the start.
* `Agrees`: the conditions for success.

## Main results

* `playsOut`: the two halves play dual scripts.
* `handshake_agreement`: **both halves finish**, with success on both sides or on neither.
-/

namespace Ogurpchik

open Async Dialogue Transition

/-- A half of the handshake with its operating system and the bytes in flight to it. -/
abbrev HalfPeer := Peer UInt8 HostOp.Ans IoError (Host × ℕ) (Except HandshakeFault (Option Version))

/-- The two halves at the start of a connection: nothing was asked yet, and nothing is in flight. -/
def peers (mac : Mac) (transport : Transport) (serverHost clientHost : Host)
    (serverMode clientMode : HandshakeMode) (serverProtocol clientProtocol : Protocol) :
    HalfPeer × HalfPeer :=
  (⟨party (authenticateServer mac transport serverMode serverProtocol), (serverHost, 0), []⟩,
    ⟨party (authenticateClient mac clientMode clientProtocol), (clientHost, 0), []⟩)

/-- The server has attested its peer, where it has to, and drawn a nonce: it gets as far as its
hello. -/
def Prepared (host : Host) (mode : HandshakeMode) : Prop :=
  ∃ nonce attestedPid, host.random = .ok nonce ∧ host.attested mode = some attestedPid

/-- The two modes go together: the MACs of the nonce are the same where the mode has one, and the
process is verified where the mode asks for it. -/
def ModesAgree (mac : Mac) (host : Host) (nonce : List UInt8)
    (serverMode clientMode : HandshakeMode) : Prop :=
  serverMode.schemeId = clientMode.schemeId ∧
    (∀ serverSecret clientSecret, serverMode = .hmacSha256 serverSecret →
      clientMode = .hmacSha256 clientSecret →
      hmacWithNonce mac serverSecret nonce = hmacWithNonce mac clientSecret nonce) ∧
    (∀ publicKey, serverMode = .signedProcess publicKey →
      ∃ pid, host.identity = .pid pid ∧ Verified host 0 pid publicKey)

/-- The conditions for success: the modes go together for the nonce that is drawn, and so do the
protocols. -/
def Agrees (mac : Mac) (host : Host) (serverMode clientMode : HandshakeMode)
    (serverProtocol clientProtocol : Protocol) : Prop :=
  (∃ nonce, host.random = .ok nonce ∧ ModesAgree mac host nonce serverMode clientMode) ∧
    serverProtocol.id = clientProtocol.id ∧
    serverProtocol.version.major = clientProtocol.version.major

section

variable {mac : Mac} {host : Host} {serverMode clientMode : HandshakeMode}
  {serverProtocol clientProtocol : Protocol} {nonce : List UInt8} {attestedPid : Option UInt32}

/-- For modes of one scheme, the server's check of the client's proof is their agreement. -/
theorem proofOk_iff (hatt : host.attested serverMode = some attestedPid)
    (hserver : serverMode ≠ .disabled) (hscheme : serverMode.schemeId = clientMode.schemeId) :
    ProofOk mac host 0 attestedPid nonce (proofFor mac nonce clientMode) serverMode ↔
      ModesAgree mac host nonce serverMode clientMode := by
  rw [ModesAgree]
  cases serverMode with
  | disabled => exact absurd rfl hserver
  | versionOnly =>
    cases clientMode with
    | disabled | versionOnly => simp [ProofOk, proofFor, HandshakeMode.schemeId]
    | hmacSha256 _ | signedProcess _ => simp [HandshakeMode.schemeId] at hscheme
  | hmacSha256 serverSecret =>
    cases clientMode with
    | hmacSha256 clientSecret => simp [ProofOk, proofFor, HandshakeMode.schemeId, eq_comm]
    | disabled | versionOnly | signedProcess _ => simp [HandshakeMode.schemeId] at hscheme
  | signedProcess publicKey =>
    have hpid : ∀ pid, attestedPid = some pid ↔ host.identity = .pid pid := by
      intro pid
      rw [Host.attested] at hatt
      cases hid : host.identity with
      | pid attested =>
        rw [hid] at hatt
        cases hatt
        simp
      | unknown =>
        rw [hid] at hatt
        cases hatt
    simp [ProofOk, hscheme, hpid]

/-- A server is prepared if its system has randomness and, where the mode needs one, a pid for the
peer. -/
theorem prepared_of_attested {nonce : { nonce : List UInt8 // nonce.length = NONCE_LEN }}
    (hrandom : host.random = .ok nonce)
    (hpid : ∀ publicKey, serverMode = .signedProcess publicKey → ∃ pid, host.identity = .pid pid) :
    Prepared host serverMode := by
  cases serverMode with
  | signedProcess publicKey =>
    obtain ⟨pid, hpid⟩ := hpid publicKey rfl
    exact ⟨nonce, some pid, hrandom, by rw [Host.attested, hpid]⟩
  | disabled | versionOnly | hmacSha256 _ => exact ⟨nonce, none, hrandom, rfl⟩

/-- A server that cannot begin does not agree. -/
theorem Agrees.prepared (h : Agrees mac host serverMode clientMode serverProtocol clientProtocol) :
    Prepared host serverMode := by
  obtain ⟨⟨nonce, hrandom, -, -, hsigned⟩, -⟩ := h
  refine prepared_of_attested hrandom fun publicKey hmode => ?_
  obtain ⟨pid, hpid, -⟩ := hsigned publicKey hmode
  exact ⟨pid, hpid⟩

/-- Incompatible protocols are incompatible for both sides, and for the same reason. -/
theorem incompatibility_context {ours peer : Protocol} {error : HandshakeError} {reason : String}
    (h : incompatibility ours peer = some (error, reason)) :
    error = if ours.id = peer.id then .incompatibleVersion else .protocolMismatch := by
  rw [incompatibility] at h
  split_ifs at h with hid hmajor
  · cases h
    rw [if_neg (Ne.symm hid)]
  · cases h
    rw [if_pos (not_not.1 hid).symm]

end

/-! ### The scripts of the two halves -/

/-- What the results say: success on both sides under the conditions, and otherwise an error on
both sides, which names what is wrong with the protocols if that is all that is wrong. -/
def Settles (mac : Mac) (host : Host) (serverMode clientMode : HandshakeMode)
    (serverProtocol clientProtocol : Protocol)
    (serverResult clientResult : Except HandshakeFault (Option Version)) : Prop :=
  (Agrees mac host serverMode clientMode serverProtocol clientProtocol ∧
    serverResult = .ok (some clientProtocol.version) ∧
    clientResult = .ok (some serverProtocol.version)) ∨
  (¬ Agrees mac host serverMode clientMode serverProtocol clientProtocol ∧
    ∃ serverReport clientReport, serverResult = .error (.report serverReport) ∧
      clientResult = .error (.report clientReport) ∧
      (Prepared host serverMode → serverMode.schemeId = clientMode.schemeId →
        incompatibility serverProtocol clientProtocol ≠ none →
        let context := if serverProtocol.id = clientProtocol.id then
          HandshakeError.incompatibleVersion else .protocolMismatch
        serverReport.context = context ∧ clientReport.context = context))

section Scripts

variable {mac : Mac} {transport : Transport} {serverHost clientHost : Host}
  {serverMode clientMode : HandshakeMode} {serverProtocol clientProtocol : Protocol}
  {attestedPid : Option UInt32} {nonce : { nonce : List UInt8 // nonce.length = NONCE_LEN }}

/-- The two halves play dual scripts, and the results settle the handshake: both succeed under the
conditions, and both fail otherwise. -/
def PlaysOut (mac : Mac) (transport : Transport) (serverHost clientHost : Host)
    (serverMode clientMode : HandshakeMode) (serverProtocol clientProtocol : Protocol) : Prop :=
  ∃ serverResult clientResult l r,
    Speaks (authenticateServer mac transport serverMode serverProtocol) (serverHost, 0) l
      (Ends serverResult) ∧
    Speaks (authenticateClient mac clientMode clientProtocol) (clientHost, 0) r
      (Ends clientResult) ∧
    Dual (closesEnd serverResult) (closesEnd clientResult) l r ∧
    Settles mac serverHost serverMode clientMode serverProtocol clientProtocol serverResult
      clientResult

/-- A server that cannot begin leaves, and the client finds the end of the stream. -/
theorem playsOut_unprepared (hserver : serverMode ≠ .disabled) (hclient : clientMode ≠ .disabled)
    (h : ¬ Prepared serverHost serverMode) :
    PlaysOut mac transport serverHost clientHost serverMode clientMode serverProtocol
      clientProtocol := by
  obtain ⟨n, report, hl⟩ := @server_unprepared_script mac transport serverHost serverMode
    serverProtocol hserver fun nonce attestedPid hrandom hatt =>
      h ⟨nonce, attestedPid, hrandom, hatt⟩
  refine ⟨_, _, _, _, hl, client_eof_script hclient, ?_, .inr ⟨?_, _, _, rfl, rfl, ?_⟩⟩
  · rw [← List.append_nil (List.replicate n _)]
    exact .asks n nofun nofun (.eofR ⟨_, rfl⟩ .nil)
  · exact fun hagrees => h hagrees.prepared
  · exact fun hprepared => absurd hprepared h

/-- With another scheme the client leaves at the hello, and the server finds the end of the
stream. -/
theorem playsOut_scheme (hserver : serverMode ≠ .disabled) (hclient : clientMode ≠ .disabled)
    (hrandom : serverHost.random = .ok nonce)
    (hatt : serverHost.attested serverMode = some attestedPid)
    (hscheme : serverMode.schemeId ≠ clientMode.schemeId) :
    PlaysOut mac transport serverHost clientHost serverMode clientMode serverProtocol
      clientProtocol := by
  have hnonce : nonce.val.length < 2 ^ 16 := nonce.property.trans_lt (by decide)
  obtain ⟨n, hl⟩ := @server_prepared_script mac transport serverHost serverMode serverProtocol
    attestedPid nonce hserver hrandom hatt
  obtain ⟨report, hr⟩ := @answerHello_scheme_script mac (clientHost, 0) clientMode clientProtocol
    serverProtocol nonce serverMode.schemeId hnonce hscheme
  refine ⟨.error (.report (.new .io)), _, _, _,
    hl [.eof] _ (Speaks.bind (speaks_readPacket_eof ⟨rfl, .inl rfl⟩)),
    client_hello_script hclient (length_encodeHello _ _ _) hr, ?_, .inr ⟨?_, _, _, rfl, rfl, ?_⟩⟩
  · exact .asks n (Dual.out_append_ne_lost _ nofun) nofun (.outs _ nofun (.eofL ⟨_, rfl⟩ .nil))
  · rintro ⟨⟨_, -, hsame, -⟩, -⟩
    exact hscheme hsame
  · exact fun _ hsame => absurd hsame hscheme

/-- With one scheme the halves get to the client's packet, and go on from there. -/
theorem playsOut_answered (hserver : serverMode ≠ .disabled) (hclient : clientMode ≠ .disabled)
    (hrandom : serverHost.random = .ok nonce)
    (hatt : serverHost.attested serverMode = some attestedPid)
    (hscheme : serverMode.schemeId = clientMode.schemeId)
    {serverResult clientResult : Except HandshakeFault (Option Version)} {l r : List (Act UInt8)}
    (hl : Speaks (answerAuth mac serverMode serverProtocol attestedPid nonce
      (encodeClientAuth serverMode.schemeId clientProtocol (proofFor mac nonce clientMode)))
      (serverHost, 0) l (Ends serverResult))
    (hr : Speaks (awaitAck clientProtocol serverProtocol) (clientHost, 0) r (Ends clientResult))
    (hne : r ≠ [.lost])
    (hdual : Dual (closesEnd serverResult) (closesEnd clientResult) l r)
    (hsettles : Settles mac serverHost serverMode clientMode serverProtocol clientProtocol
      serverResult clientResult) :
    PlaysOut mac transport serverHost clientHost serverMode clientMode serverProtocol
      clientProtocol := by
  have hnonce : nonce.val.length < 2 ^ 16 := nonce.property.trans_lt (by decide)
  obtain ⟨n, hserverPlays⟩ := @server_prepared_script mac transport serverHost serverMode
    serverProtocol attestedPid nonce hserver hrandom hatt
  have hclientPlays := @answerHello_script mac (clientHost, 0) clientMode clientProtocol
    serverProtocol nonce r _ hnonce hr
  rw [hscheme] at hl hserverPlays
  have hauth := length_encodeClientAuth mac clientMode clientProtocol nonce
  refine ⟨_, _, _, _, hserverPlays _ _ (Speaks.bind (speaks_readPacket hauth hl)),
    client_hello_script hclient (length_encodeHello _ _ _) hclientPlays, ?_, hsettles⟩
  exact .asks n nofun nofun (.outs _ nofun (.inps _ hne hdual))

/-- With another protocol the client leaves behind its packet, and the refusal of the server is lost
on it. Both report the incompatibility themselves. -/
theorem playsOut_incompatible (hserver : serverMode ≠ .disabled) (hclient : clientMode ≠ .disabled)
    (hrandom : serverHost.random = .ok nonce)
    (hatt : serverHost.attested serverMode = some attestedPid)
    (hscheme : serverMode.schemeId = clientMode.schemeId)
    (hcompat : incompatibility serverProtocol clientProtocol ≠ none) :
    PlaysOut mac transport serverHost clientHost serverMode clientMode serverProtocol
      clientProtocol := by
  have hproof := length_proofFor_le mac nonce clientMode
  obtain ⟨⟨error, reason⟩, hs⟩ := Option.ne_none_iff_exists'.1 hcompat
  have hcompat' : incompatibility clientProtocol serverProtocol ≠ none := by
    rw [Ne, incompatibility_eq_none_iff] at hcompat ⊢
    rwa [eq_comm, @eq_comm _ serverProtocol.version.major]
  obtain ⟨⟨error', reason'⟩, hc⟩ := Option.ne_none_iff_exists'.1 hcompat'
  refine playsOut_answered hserver hclient hrandom hatt hscheme
    (answerAuth_incompatible_script (by omega) hs) (awaitAck_incompatible_script hc) nofun
    (.lostL ⟨_, rfl⟩) (.inr ⟨?_, _, _, rfl, rfl, fun _ _ _ => ⟨incompatibility_context hs, ?_⟩⟩)
  · rintro ⟨-, hid, hmajor⟩
    exact hcompat ((incompatibility_eq_none_iff _ _).2 ⟨hid.symm, hmajor.symm⟩)
  · exact (incompatibility_context hc).trans (if_congr eq_comm rfl rfl)

/-- The ack at the end of both scripts. -/
theorem dual_ack {cl cr : Prop} (n : ℕ) (body : List UInt8) :
    Dual cl cr (List.replicate n .ask ++ (frame body).map .out) ((frame body).map .inp) := by
  have hnil : ([] : List (Act UInt8)) ≠ [.lost] := nofun
  have h := Dual.outs (frame body) hnil (Dual.nil : Dual cl cr [] [])
  rw [List.append_nil, List.append_nil] at h
  exact h.asks n nofun nofun

/-- With one protocol the ack decides: both succeed if the proof fits, and otherwise the server
refuses and the client reads the refusal. -/
theorem playsOut_compatible (hserver : serverMode ≠ .disabled) (hclient : clientMode ≠ .disabled)
    (hrandom : serverHost.random = .ok nonce)
    (hatt : serverHost.attested serverMode = some attestedPid)
    (hscheme : serverMode.schemeId = clientMode.schemeId)
    (hcompat : incompatibility serverProtocol clientProtocol = none) :
    PlaysOut mac transport serverHost clientHost serverMode clientMode serverProtocol
      clientProtocol := by
  have hproof := length_proofFor_le mac nonce clientMode
  obtain ⟨hid, hmajor⟩ := (incompatibility_eq_none_iff _ _).1 hcompat
  have hcompat' : incompatibility clientProtocol serverProtocol = none :=
    (incompatibility_eq_none_iff _ _).2 ⟨hid.symm, hmajor.symm⟩
  obtain ⟨n, hanswer⟩ := @answerAuth_compatible_script mac serverHost 0 serverMode serverProtocol
    attestedPid nonce (proofFor mac nonce clientMode) clientProtocol (Host.attested_ne_none hatt)
    (by omega) hcompat
  rcases hanswer with ⟨hok, hl⟩ | ⟨hno, report, reason, hreason, hl⟩
  · refine playsOut_answered hserver hclient hrandom hatt hscheme hl (awaitAck_ok_script hcompat')
      nofun (dual_ack n _) (.inl ⟨⟨⟨nonce, hrandom, (proofOk_iff hatt hserver hscheme).1 hok⟩,
        hid.symm, hmajor.symm⟩, rfl, rfl⟩)
  · obtain ⟨report', hr⟩ := @awaitAck_rejected_script (clientHost, 0) clientProtocol serverProtocol
      reason hcompat' hreason
    refine playsOut_answered hserver hclient hrandom hatt hscheme hl hr nofun (dual_ack n _)
      (.inr ⟨?_, _, _, rfl, rfl, fun _ _ hne => absurd hcompat hne⟩)
    rintro ⟨⟨nonce', hrandom', hagree⟩, -⟩
    cases hrandom.symm.trans hrandom'
    exact hno ((proofOk_iff hatt hserver hscheme).2 hagree)

/-- **The scripts of the two halves are dual**, for every pair of modes and protocols. -/
theorem playsOut (mac : Mac) (transport : Transport) (serverHost clientHost : Host)
    (hserver : serverMode ≠ .disabled) (hclient : clientMode ≠ .disabled)
    (serverProtocol clientProtocol : Protocol) :
    PlaysOut mac transport serverHost clientHost serverMode clientMode serverProtocol
      clientProtocol := by
  by_cases hprepared : Prepared serverHost serverMode
  swap
  · exact playsOut_unprepared hserver hclient hprepared
  obtain ⟨nonce, attestedPid, hrandom, hatt⟩ := hprepared
  by_cases hscheme : serverMode.schemeId = clientMode.schemeId
  swap
  · exact playsOut_scheme hserver hclient hrandom hatt hscheme
  by_cases hcompat : incompatibility serverProtocol clientProtocol = none
  · exact playsOut_compatible hserver hclient hrandom hatt hscheme hcompat
  · exact playsOut_incompatible hserver hclient hrandom hatt hscheme hcompat

end Scripts

/-- **Honest peers agree.** An honest server and an honest client in any modes but the disabled
one, run against each other over a reliable channel: under every interleaving and every cut of
the bytes into pieces both return, and always the same results. The server succeeds exactly when
the client does, and exactly when the schemes are the same, the protocols are the same at the same
major version, the MACs of the nonce are the same (HMAC) and the attested process is verified
(signed process). On success each side gets the version of the other. When only the protocols do
not go together, both sides report what is wrong with them. -/
theorem handshake_agreement (mac : Mac) (transport : Transport) (serverHost clientHost : Host)
    {serverMode clientMode : HandshakeMode} (hserver : serverMode ≠ .disabled)
    (hclient : clientMode ≠ .disabled) (serverProtocol clientProtocol : Protocol) :
    let start := peers mac transport serverHost clientHost serverMode clientMode serverProtocol
      clientProtocol
    ∃ serverResult clientResult,
      Inevitable (Step hostAnswer closesEnd)
        (fun s => s.1.prog = .done serverResult ∧ s.2.prog = .done clientResult) start ∧
      (∀ s, Relation.ReflTransGen (Step hostAnswer closesEnd) start s →
        (∀ r, s.1.prog = .done r → r = serverResult) ∧
        (∀ r, s.2.prog = .done r → r = clientResult)) ∧
      ((∃ v, serverResult = .ok v) ↔ ∃ v, clientResult = .ok v) ∧
      ((∃ v, serverResult = .ok v) ↔
        (∃ nonce, serverHost.random = .ok nonce ∧
          serverMode.schemeId = clientMode.schemeId ∧
          (∀ serverSecret clientSecret, serverMode = .hmacSha256 serverSecret →
            clientMode = .hmacSha256 clientSecret →
            hmacWithNonce mac serverSecret nonce = hmacWithNonce mac clientSecret nonce) ∧
          (∀ publicKey, serverMode = .signedProcess publicKey →
            ∃ pid, serverHost.identity = .pid pid ∧ Verified serverHost 0 pid publicKey)) ∧
        serverProtocol.id = clientProtocol.id ∧
        serverProtocol.version.major = clientProtocol.version.major) ∧
      ((∃ v, serverResult = .ok v) → serverResult = .ok (some clientProtocol.version) ∧
        clientResult = .ok (some serverProtocol.version)) ∧
      ((∃ nonce, serverHost.random = .ok nonce) →
        (∀ publicKey, serverMode = .signedProcess publicKey →
          ∃ pid, serverHost.identity = .pid pid) →
        serverMode.schemeId = clientMode.schemeId →
        ¬ (serverProtocol.id = clientProtocol.id ∧
          serverProtocol.version.major = clientProtocol.version.major) →
        ∃ serverReport clientReport, serverResult = .error (.report serverReport) ∧
          clientResult = .error (.report clientReport) ∧
          let context := if serverProtocol.id = clientProtocol.id then
            HandshakeError.incompatibleVersion else .protocolMismatch
          serverReport.context = context ∧ clientReport.context = context) := by
  intro start
  obtain ⟨serverResult, clientResult, l, r, hl, hr, hdual, hsettles⟩ :=
    playsOut mac transport serverHost clientHost hserver hclient serverProtocol clientProtocol
  have hmatched : Matched hostAnswer closesEnd serverResult clientResult start.1 start.2 :=
    ⟨l, r, hl, hr, hdual⟩
  refine ⟨serverResult, clientResult, hmatched.inevitable, fun s hs => ?_, ?_⟩
  · have hs : Matched hostAnswer closesEnd serverResult clientResult s.1 s.2 := by
      induction hs with
      | refl => exact hmatched
      | tail _ hstep ih => exact ih.step hstep
    exact ⟨fun r hr => hs.result hr, fun r hr => hs.symm.result hr⟩
  · rcases hsettles with ⟨hagrees, rfl, rfl⟩ | ⟨hno, serverReport, clientReport, rfl, rfl, hcontext⟩
    · refine ⟨⟨fun _ => ⟨_, rfl⟩, fun _ => ⟨_, rfl⟩⟩, ⟨fun _ => hagrees, fun _ => ⟨_, rfl⟩⟩,
        fun _ => ⟨rfl, rfl⟩, ?_⟩
      intro _ _ _ hne
      exact absurd hagrees.2 hne
    · refine ⟨⟨nofun, nofun⟩, ⟨nofun, fun hagrees => absurd hagrees hno⟩, nofun, ?_⟩
      rintro ⟨nonce, hrandom⟩ hpid hscheme hne
      refine ⟨serverReport, clientReport, rfl, rfl, hcontext ?_ hscheme ?_⟩
      · exact prepared_of_attested hrandom hpid
      · rw [Ne, incompatibility_eq_none_iff]
        rwa [eq_comm, @eq_comm _ clientProtocol.version.major]

/-- Two peers with one secret and different minor versions: both finish, each with the version of
the other. -/
theorem handshake_agreement_sample :
    Inevitable (Step hostAnswer closesEnd)
      (fun s => s.1.prog = .done (.ok (some ⟨1, 3, 1⟩)) ∧ s.2.prog = .done (.ok (some ⟨1, 0, 4⟩)))
      (peers .sample .tcp .sample .sample (.hmacSha256 [1, 2]) (.hmacSha256 [1, 2]) ⟨7, 1, 0, 4⟩
        ⟨7, 1, 3, 1⟩) := by
  obtain ⟨_, _, hrun, -, -, hiff, hok, -⟩ := @handshake_agreement .sample .tcp .sample .sample
    (.hmacSha256 [1, 2]) (.hmacSha256 [1, 2]) nofun nofun ⟨7, 1, 0, 4⟩ ⟨7, 1, 3, 1⟩
  have hsecret : ∀ serverSecret clientSecret,
      HandshakeMode.hmacSha256 [1, 2] = .hmacSha256 serverSecret →
      HandshakeMode.hmacSha256 [1, 2] = .hmacSha256 clientSecret →
      hmacWithNonce .sample serverSecret (List.replicate 32 7) =
        hmacWithNonce .sample clientSecret (List.replicate 32 7) := by
    rintro _ _ ⟨⟩ ⟨⟩
    rfl
  obtain ⟨rfl, rfl⟩ := hok (hiff.2 ⟨⟨_, rfl, rfl, hsecret, nofun⟩, rfl, rfl⟩)
  exact hrun

end Ogurpchik
