import Ogurpchik.HandshakeRun

/-!
# The Server Half

What `authenticate_server` accepts, over every byte stream a client may send. The specification
of each part says in which case it succeeds, what it has sent by then, and that it fails in every
other case; the parts compose to the acceptance condition of the whole.

## Main definitions

* `Verified`, `ProofOk`: the mode's check, as a condition on the answers of the operating system.
* `AcceptsAuth`: the bodies a server accepts.

## Main results

* `answerAuth_spec`: the server's answer to a body.
* `server_accepts_iff`: **acceptance is exact**, an `ACK_OK` is sent exactly when it holds, and at
  most one ack is sent.
-/

namespace Ogurpchik

open Async ByteFormat LittleEndian

/-! ### The conditions -/

/-- The process is the same before and after its image was verified, as far as its creation time
tells. -/
def Verified (host : Host) (asked : ℕ) (pid : UInt32) (publicKey : List UInt8) : Prop :=
  ∃ created, host.creationTime asked pid = .ok created ∧ host.image pid publicKey = .ok () ∧
    host.creationTime (asked + 1) pid = .ok created

/-- The check of the mode succeeds: the proof is the MAC of the nonce, the attested process is
verified, or there is no proof. -/
def ProofOk (mac : Mac) (host : Host) (asked : ℕ) (attestedPid : Option UInt32)
    (nonce proof : List UInt8) : HandshakeMode → Prop
  | .hmacSha256 secret => proof = hmacWithNonce mac secret nonce
  | .signedProcess publicKey => ∃ pid, attestedPid = some pid ∧ Verified host asked pid publicKey
  | _ => proof = []

/-- The bodies a server accepts, with the version it then returns: byte for byte of the layout, of
its handshake version, its scheme, its protocol and its major version, and with a proof that is
good. -/
def AcceptsAuth (mac : Mac) (host : Host) (asked : ℕ) (mode : HandshakeMode) (ours : Protocol)
    (attestedPid : Option UInt32) (nonce body : List UInt8) (v : Version) : Prop :=
  ∃ peer proof, proof.length < 2 ^ 16 ∧
    body = authBody TAG_CLIENT_AUTH HANDSHAKE_VERSION mode.schemeId peer proof ∧
    peer.id = ours.id ∧ peer.version.major = ours.version.major ∧ v = peer.version ∧
    ProofOk mac host asked attestedPid nonce proof mode

/-- What a refusing server sends: nothing, or one ack that is not OK. It never sends an ack that is
OK and fails then. -/
def Refusal (acks : List (List UInt8)) : Prop :=
  acks = [] ∨ ∃ reason, acks = [encodeAck ACK_REJECTED reason]

/-! ### The parts -/

section Parts

variable {mac : Mac} {host : Host} {env : PacketEnv}

/-- Verifying a process succeeds exactly when the answers say so; it sends nothing. -/
theorem run_verifySignedProcess (host : Host) (env : PacketEnv) (pid : UInt32)
    (publicKey : List UInt8) :
    ∃ r asked, (verifySignedProcess pid publicKey).run (PacketEnv.handle host) env =
      (r, { env with asked := asked }) ∧
      (r = .ok () ↔ Verified host env.asked pid publicKey) := by
  simp only [verifySignedProcess, Prog.run_await, PacketEnv.handle, Host.answer, Verified]
  cases hbefore : host.creationTime env.asked pid with
  | error report => exact ⟨.error report, env.asked + 1, rfl, by simp⟩
  | ok before =>
    simp only [Prog.run_await, PacketEnv.handle, Host.answer]
    cases himage : host.image pid publicKey with
    | error report => exact ⟨.error report, env.asked + 1, rfl, by simp⟩
    | ok _ =>
      simp only [Prog.run_await, PacketEnv.handle, Host.answer]
      cases hafter : host.creationTime (env.asked + 1) pid with
      | error report => exact ⟨.error report, env.asked + 2, rfl, by simp⟩
      | ok after =>
        by_cases hsame : after = before
        · refine ⟨.ok (), env.asked + 2, ?_, by simp [hsame]⟩
          simp only [hsame, ne_eq, not_true, if_false, Prog.run_done]
        · simp only [ne_eq, hsame, not_false_eq_true, if_true, Prog.run_done]
          refine ⟨_, _, rfl, fun h => absurd h (by simp), ?_⟩
          rintro ⟨created, hcreated, -, hcreated'⟩
          cases hcreated
          cases hcreated'
          exact absurd rfl hsame

/-- The check of a process comes to an end, and succeeds exactly if the image verifies between two
equal creation times. -/
theorem runs_verifySignedProcess (host : Host) (env : PacketEnv) (pid : UInt32)
    (publicKey : List UInt8) :
    ∃ r asked, Runs host (ExceptT.lift (verifySignedProcess pid publicKey)) env (.ok r)
      { env with asked := asked } ∧ (r = .ok () ↔ Verified host env.asked pid publicKey) := by
  obtain ⟨r, asked, hrun, hr⟩ := run_verifySignedProcess host env pid publicKey
  refine ⟨r, asked, ?_, hr⟩
  change Prog.run _ ((verifySignedProcess pid publicKey).bind _) env = _
  rw [Prog.run_bind, hrun]
  rfl

/-- A check that succeeds exactly when `ok` holds and then sends nothing, and otherwise sends one
refusal. -/
def Checks (host : Host) (x : HandshakeM Unit) (env : PacketEnv) (ok : Prop) : Prop :=
  (ok ∧ ∃ asked, Runs host x env (.ok ()) { env with asked := asked }) ∨
  (¬ ok ∧ ∃ report reason asked, Runs host x env (.error (.report report))
    { env with asked := asked, sent := env.sent ++ [encodeAck ACK_REJECTED reason] })

/-- A comparison that refuses when it fails is a check of what it compares. -/
theorem checks_ite (reason : List UInt8) (report : Report) (ok : Prop) [Decidable ok] :
    Checks host (if ¬ ok then reject reason report else pure ()) env ok := by
  by_cases h : ok
  · rw [if_neg (not_not.2 h)]
    exact .inl ⟨h, env.asked, Prog.returns_pure _ _⟩
  · rw [if_pos h]
    exact .inr ⟨h, report, reason, env.asked, runs_reject _ _⟩

/-- The mode's check: it passes exactly if the proof is in order, and otherwise gives a reason. It
reads nothing and sends nothing. -/
theorem checkProof_spec {mode : HandshakeMode} {attestedPid : Option UInt32}
    (hpid : ∀ publicKey, mode = .signedProcess publicKey → attestedPid ≠ none)
    (nonce proof : List UInt8) :
    Checks host (checkProof mac attestedPid nonce proof mode) env
      (ProofOk mac host env.asked attestedPid nonce proof mode) := by
  cases mode with
  | disabled | versionOnly => exact checks_ite _ _ (proof = [])
  | hmacSha256 secret => exact checks_ite _ _ (proof = hmacWithNonce mac secret nonce)
  | signedProcess publicKey =>
    obtain ⟨pid, rfl⟩ := Option.ne_none_iff_exists'.1 (hpid publicKey rfl)
    obtain ⟨r, asked, hlift, hr⟩ := runs_verifySignedProcess host env pid publicKey
    have hok : ProofOk mac host env.asked (some pid) nonce proof (.signedProcess publicKey) ↔
        r = .ok () := by
      rw [hr]
      simp [ProofOk]
    rw [hok]
    cases r with
    | ok _ => exact .inl ⟨rfl, asked, hlift.bind (Prog.returns_pure _ _)⟩
    | error report =>
      exact .inr ⟨by simp, report, utf8 "signed-process verification failed", asked,
        hlift.bind (runs_reject _ _)⟩

/-- The bodies without a foreign version field. -/
theorem foreignVersion_eq_none_iff {body : List UInt8} :
    foreignVersion body = none ↔ ∀ version ∈ packetVersion body, version = HANDSHAKE_VERSION := by
  rw [foreignVersion, Option.filter_eq_none_iff]
  simp

/-- A packet of the supported version. -/
theorem foreignVersion_authBody (tag scheme : UInt8) (protocol : Protocol) (payload : List UInt8) :
    foreignVersion (authBody tag HANDSHAKE_VERSION scheme protocol payload) = none := by
  rw [foreignVersion_eq_none_iff, packetVersion_authBody]
  intro version hversion
  exact (Option.mem_some_iff.1 hversion).symm

/-- What an accepted body decodes to: the scheme of the server, a protocol that goes with its own,
and a proof that is in order. -/
theorem AcceptsAuth.decode {asked : ℕ} {mode : HandshakeMode} {ours : Protocol}
    {attestedPid : Option UInt32} {nonce body : List UInt8} {v : Version}
    (h : AcceptsAuth mac host asked mode ours attestedPid nonce body v) :
    foreignVersion body = none ∧ ∃ peer proof,
      decodeClientAuth body = .ok (mode.schemeId, peer, proof) ∧
      incompatibility ours peer = none ∧ v = peer.version ∧
      ProofOk mac host asked attestedPid nonce proof mode := by
  obtain ⟨peer, proof, hlen, rfl, hid, hmajor, rfl, hok⟩ := h
  exact ⟨foreignVersion_authBody _ _ _ _, peer, proof, decodeAuth_eq_ok_iff.2 ⟨_, hlen, rfl⟩,
    (incompatibility_eq_none_iff ours peer).2 ⟨hid, hmajor⟩, rfl, hok⟩

/-- A body that passes every check is accepted, with the version of the peer. -/
theorem acceptsAuth_of_decode {asked : ℕ} {mode : HandshakeMode} {ours peer : Protocol}
    {attestedPid : Option UInt32} {nonce body proof : List UInt8}
    (hversion : foreignVersion body = none)
    (hdecode : decodeClientAuth body = .ok (mode.schemeId, peer, proof))
    (hcompat : incompatibility ours peer = none)
    (hok : ProofOk mac host asked attestedPid nonce proof mode) :
    AcceptsAuth mac host asked mode ours attestedPid nonce body peer.version := by
  obtain ⟨version, hlen, rfl⟩ := decodeAuth_eq_ok_iff.1 hdecode
  rw [foreignVersion_eq_none_iff, packetVersion_authBody] at hversion
  obtain ⟨hid, hmajor⟩ := (incompatibility_eq_none_iff ours peer).1 hcompat
  exact ⟨peer, proof, hlen, by rw [hversion version rfl], hid, hmajor, rfl, hok⟩

/-- **The server's answer to a body**: acceptance with an `ACK_OK`, or a refusal. -/
theorem answerAuth_spec {mode : HandshakeMode} {attestedPid : Option UInt32}
    (hpid : ∀ publicKey, mode = .signedProcess publicKey → attestedPid ≠ none)
    (ours : Protocol) (nonce body : List UInt8) :
    (∃ v asked, AcceptsAuth mac host env.asked mode ours attestedPid nonce body v ∧
      Runs host (answerAuth mac mode ours attestedPid nonce body) env (.ok (some v))
        { env with asked := asked, sent := env.sent ++ [encodeAck ACK_OK []] }) ∨
    ((∀ v, ¬ AcceptsAuth mac host env.asked mode ours attestedPid nonce body v) ∧
      ∃ report acks asked, Refusal acks ∧
        (foreignVersion body ≠ none → report.context = .unsupportedVersion) ∧
        Runs host (answerAuth mac mode ours attestedPid nonce body) env
          (.error (.report report)) { env with asked := asked, sent := env.sent ++ acks }) := by
  cases hversion : foreignVersion body with
  | some version =>
    obtain ⟨reason, heq⟩ := answerAuth_of_foreign hversion
    refine .inr ⟨fun v h => ?_, _, _, env.asked, .inr ⟨_, rfl⟩, fun _ => rfl,
      heq ▸ runs_reject _ _⟩
    exact nomatch h.decode.1.symm.trans hversion
  | none =>
    cases hdecode : decodeClientAuth body with
    | error report =>
      refine .inr ⟨fun v h => ?_, report, [], env.asked, .inl rfl, fun h => absurd rfl h, ?_⟩
      · obtain ⟨-, peer, proof, hok, -⟩ := h.decode
        exact nomatch hdecode.symm.trans hok
      · rw [answerAuth_of_malformed hversion hdecode, List.append_nil]
        exact Prog.returns_throw _ _
    | ok decoded =>
      obtain ⟨scheme, peer, proof⟩ := decoded
      -- an accepted body is decoded to these fields
      have hfields : ∀ v, AcceptsAuth mac host env.asked mode ours attestedPid nonce body v →
          scheme = mode.schemeId ∧ incompatibility ours peer = none ∧
            ProofOk mac host env.asked attestedPid nonce proof mode := by
        intro v h
        obtain ⟨-, peer', proof', hdecode', hcompat, -, hok⟩ := h.decode
        cases hdecode.symm.trans hdecode'
        exact ⟨rfl, hcompat, hok⟩
      by_cases hscheme : scheme = mode.schemeId
      · subst hscheme
        cases hcompat : incompatibility ours peer with
        | some problem =>
          refine .inr ⟨fun v h => ?_, _, _, env.asked, .inr ⟨_, rfl⟩, fun h => absurd rfl h,
            answerAuth_of_incompatible hversion hdecode hcompat ▸ runs_reject _ _⟩
          exact nomatch hcompat.symm.trans (hfields v h).2.1
        | none =>
          rw [answerAuth_of_compatible hversion hdecode hcompat]
          rcases checkProof_spec hpid nonce proof with ⟨hok, asked, hrun⟩ | ⟨hno, hrun⟩
          · exact .inl ⟨peer.version, asked, acceptsAuth_of_decode hversion hdecode hcompat hok,
              hrun.bind ((runs_writePacket _).bind (Prog.returns_pure _ _))⟩
          · obtain ⟨report, reason, asked, hrun⟩ := hrun
            exact .inr ⟨fun v h => hno (hfields v h).2.2, report, _, asked, .inr ⟨reason, rfl⟩,
              fun h => absurd rfl h, hrun.bind_error _⟩
      · obtain ⟨reason, heq⟩ := answerAuth_of_scheme hversion hdecode hscheme
        exact .inr ⟨fun v h => hscheme (hfields v h).1, _, _, env.asked, .inr ⟨_, rfl⟩,
          fun h => absurd rfl h, heq ▸ runs_reject _ _⟩

end Parts

/-! ### The whole half -/

/-- The pid the server relies on: the attested one in the mode that needs it, which is not there
on a transport that cannot attest. -/
def Host.attested (host : Host) : HandshakeMode → Option (Option UInt32)
  | .signedProcess _ =>
      match host.identity with
      | .pid pid => some (some pid)
      | .unknown => none
  | _ => some none

section Whole

variable {mac : Mac} {transport : Transport} {host : Host} {env env' : PacketEnv}
  {mode : HandshakeMode} {ours : Protocol} {attestedPid : Option UInt32}
  {nonce : { nonce : List UInt8 // nonce.length = NONCE_LEN }}

/-- Where the mode needs a pid, a server that got past its attestation has one. -/
theorem Host.attested_ne_none (h : host.attested mode = some attestedPid) (publicKey : List UInt8)
    (hmode : mode = .signedProcess publicKey) : attestedPid ≠ none := by
  subst hmode
  rw [Host.attested] at h
  split at h <;> cases h
  exact Option.some_ne_none _

/-- The attestation of a peer that the system knows enough of. No packet is exchanged for it. -/
theorem runs_attestPid (h : host.attested mode = some attestedPid) :
    Runs host (attestPid transport mode) env (.ok attestedPid) env := by
  cases mode with
  | signedProcess publicKey =>
    rw [Host.attested] at h
    rw [attestPid]
    refine (runs_askHost _).bind ?_
    simp only [Host.answer]
    split at h <;> cases h
    rename_i hid
    rw [hid]
    exact Prog.returns_pure _ _
  | disabled | versionOnly | hmacSha256 _ =>
    cases h
    exact Prog.returns_pure _ _

/-- The attestation of a peer that the system knows too little of fails before a packet is sent. -/
theorem runs_attestPid_error (h : host.attested mode = none) :
    Runs host (attestPid transport mode) env (.error (.report (unattestable transport))) env := by
  cases mode with
  | signedProcess publicKey =>
    rw [Host.attested] at h
    rw [attestPid]
    refine (runs_askHost _).bind ?_
    simp only [Host.answer]
    split at h
    · cases h
    · rename_i hid
      rw [hid]
      exact Prog.returns_throw _ _
  | disabled | versionOnly | hmacSha256 _ => cases h

/-- The nonce is the one the system gives. -/
theorem runs_freshNonce (h : host.random = .ok nonce) :
    Runs host freshNonce env (.ok nonce.val) env := by
  refine (runs_askHost _).bind ?_
  simp only [Host.answer, h]
  exact Prog.returns_pure _ _

/-- Without randomness there is no hello. -/
theorem runs_freshNonce_error {e : String} (h : host.random = .error e) :
    Runs host freshNonce env (.error (.report (nonceFailure e))) env := by
  refine (runs_askHost _).bind ?_
  simp only [Host.answer, h]
  exact Prog.returns_throw _ _

/-- Why a server cannot go on to its hello: the peer is not attested, or there is no nonce to be
had. -/
theorem Host.unprepared_cases
    (h : ∀ nonce attestedPid, host.random = .ok nonce → host.attested mode ≠ some attestedPid) :
    host.attested mode = none ∨
      ∃ attestedPid e, host.attested mode = some attestedPid ∧ host.random = .error e := by
  cases hatt : host.attested mode with
  | none => exact .inl rfl
  | some attestedPid =>
    cases hrandom : host.random with
    | ok nonce => exact absurd hatt (h nonce attestedPid hrandom)
    | error e => exact .inr ⟨attestedPid, e, rfl, rfl⟩

/-- A server that cannot attest its peer, or has no nonce, sends nothing. -/
theorem runs_server_unprepared (hmode : mode ≠ .disabled)
    (h : ∀ nonce attestedPid, host.random = .ok nonce → host.attested mode ≠ some attestedPid) :
    ∃ report, Runs host (authenticateServer mac transport mode ours) env
      (.error (.report report)) env := by
  rw [authenticateServer_eq hmode]
  rcases Host.unprepared_cases h with hatt | ⟨attestedPid, e, hatt, hrandom⟩
  · exact ⟨_, (runs_attestPid_error hatt).bind_error _⟩
  · exact ⟨_, (runs_attestPid hatt).bind ((runs_freshNonce_error hrandom).bind_error _)⟩

/-- A server that has its nonce sends its hello and goes on to the client's packet. -/
theorem runs_server_prepared {r : Except HandshakeFault (Option Version)}
    (hmode : mode ≠ .disabled) (hrandom : host.random = .ok nonce)
    (hatt : host.attested mode = some attestedPid)
    (h : Runs host (do
        let body ← readPacketWithTimeout
        answerAuth mac mode ours attestedPid nonce body)
      { env with sent := env.sent ++ [encodeHello mode.schemeId ours nonce] } r env') :
    Runs host (authenticateServer mac transport mode ours) env r env' := by
  rw [authenticateServer_eq hmode]
  exact (runs_attestPid hatt).bind ((runs_freshNonce hrandom).bind ((runs_writePacket _).bind h))

/-- A server that gets no packet has sent its hello. -/
theorem runs_server_unanswered {report : Report} {rest : List UInt8} (hmode : mode ≠ .disabled)
    (hrandom : host.random = .ok nonce) (hatt : host.attested mode = some attestedPid)
    (hparse : parsePacket env.data = (.error report, rest)) :
    Runs host (authenticateServer mac transport mode ours) env (.error (.report report))
      { env with data := rest, sent := env.sent ++ [encodeHello mode.schemeId ours nonce] } := by
  have hread := @runs_readPacket host
    { env with sent := env.sent ++ [encodeHello mode.schemeId ours nonce] } _ _ hparse
  exact runs_server_prepared hmode hrandom hatt (hread.bind_error _)

/-- A server that gets a packet answers it: the hello is sent before, and what the answer comes to
is its result. -/
theorem runs_server_answered {body rest : List UInt8}
    {r : Except HandshakeFault (Option Version)} (hmode : mode ≠ .disabled)
    (hrandom : host.random = .ok nonce) (hatt : host.attested mode = some attestedPid)
    (hparse : parsePacket env.data = (.ok body, rest))
    (h : Runs host (answerAuth mac mode ours attestedPid nonce body)
      { env with data := rest, sent := env.sent ++ [encodeHello mode.schemeId ours nonce] }
      r env') :
    Runs host (authenticateServer mac transport mode ours) env r env' := by
  have hread := @runs_readPacket host
    { env with sent := env.sent ++ [encodeHello mode.schemeId ours nonce] } _ _ hparse
  exact runs_server_prepared hmode hrandom hatt (hread.bind h)

end Whole

/-- The streams a server accepts, with the version it returns and the bytes behind its packet. -/
def AcceptsStream (mac : Mac) (host : Host) (mode : HandshakeMode) (ours : Protocol)
    (stream : List UInt8) (v : Version) (rest : List UInt8) : Prop :=
  ∃ nonce attestedPid body, host.random = .ok nonce ∧ host.attested mode = some attestedPid ∧
    body.length ≤ MAX_PACKET_LEN ∧ stream = frame body ++ rest ∧
    AcceptsAuth mac host 0 mode ours attestedPid nonce body v

/-- The acceptance condition, byte for byte: the packet of the client with all of its fields, and
the proof of its mode. -/
theorem acceptsStream_iff {mac : Mac} {host : Host} {mode : HandshakeMode} {ours : Protocol}
    {stream : List UInt8} {v : Version} :
    (∃ rest, AcceptsStream mac host mode ours stream v rest) ↔
      ∃ nonce attestedPid, ∃ peer : Protocol, ∃ proof body rest : List UInt8,
        host.random = .ok nonce ∧ host.attested mode = some attestedPid ∧
        stream = leBytes 4 body.length ++ body ++ rest ∧ body.length ≤ 4096 ∧
        body = [2] ++ leBytes 2 3 ++ [mode.schemeId] ++ leBytes 8 peer.id.toNat ++
          leBytes 4 peer.version.major.toNat ++ leBytes 4 peer.version.minor.toNat ++
          leBytes 4 peer.version.patch.toNat ++ leBytes 2 proof.length ++ proof ∧
        peer.id = ours.id ∧ peer.version.major = ours.version.major ∧ v = peer.version ∧
        ProofOk mac host 0 attestedPid nonce proof mode := by
  constructor
  · rintro ⟨rest, nonce, pid, body, hrandom, hatt, hlen, hstream, peer, proof, -, hbody, hrest⟩
    exact ⟨nonce, pid, peer, proof, body, rest, hrandom, hatt, hstream, hlen,
      hbody.trans (authBody_eq _ _ _ _ _), hrest⟩
  · rintro ⟨nonce, pid, peer, proof, body, rest, hrandom, hatt, hstream, hlen, hbody, hrest⟩
    replace hbody := hbody.trans (authBody_eq TAG_CLIENT_AUTH HANDSHAKE_VERSION _ _ _).symm
    have hproof : proof.length < 2 ^ 16 := by
      rw [hbody, length_authBody] at hlen
      omega
    exact ⟨rest, nonce, pid, body, hrandom, hatt, hlen, hstream, peer, proof, hproof, hbody, hrest⟩

/-- The version and the rest are determined by the stream. -/
theorem AcceptsStream.unique {mac : Mac} {host : Host} {mode : HandshakeMode} {ours : Protocol}
    {stream rest rest' : List UInt8} {v v' : Version}
    (h : AcceptsStream mac host mode ours stream v rest)
    (h' : AcceptsStream mac host mode ours stream v' rest') : v = v' ∧ rest = rest' := by
  obtain ⟨nonce, pid, body, -, -, hlen, hstream, haccept⟩ := h
  obtain ⟨nonce', pid', body', -, -, hlen', hstream', haccept'⟩ := h'
  have hparse := parsePacket_eq_ok_iff.2 ⟨hlen, hstream⟩
  cases hparse.symm.trans (parsePacket_eq_ok_iff.2 ⟨hlen', hstream'⟩)
  obtain ⟨-, peer, proof, hdecode, -, rfl, -⟩ := haccept.decode
  obtain ⟨-, peer', proof', hdecode', -, rfl, -⟩ := haccept'.decode
  cases hdecode.symm.trans hdecode'
  exact ⟨rfl, rfl⟩

/-- A version field that is not the supported one is found in every body that has one. -/
theorem foreignVersion_ne_none {body : List UInt8} (hlen : 3 ≤ body.length)
    (h : leNat ((body.drop 1).take 2) ≠ 3) : foreignVersion body ≠ none := by
  match body, hlen with
  | tag :: lo :: hi :: rest, _ =>
    rw [Ne, foreignVersion_eq_none_iff]
    intro hall
    have hversion := congrArg UInt16.toNat (hall _ rfl)
    have hlt : leNat [lo, hi] < 2 ^ 16 := (leNat_lt [lo, hi]).trans_eq (by simp)
    rw [UInt16.toNat_ofNat', Nat.mod_eq_of_lt hlt] at hversion
    exact h hversion

/-- The report of a body that was read and carries a foreign version field is about the version,
whatever else is wrong with the body. -/
def ReportsVersion (host : Host) (mode : HandshakeMode) (stream : List UInt8)
    (report : Report) : Prop :=
  ∀ body rest nonce attestedPid, host.random = .ok nonce → host.attested mode = some attestedPid →
    parsePacket stream = (.ok body, rest) → foreignVersion body ≠ none →
    report.context = .unsupportedVersion

/-- **What a run of the server comes to**: acceptance, or a refusal, by the first packet of the
stream. -/
theorem server_outcome (mac : Mac) (transport : Transport) (host : Host) {mode : HandshakeMode}
    (hmode : mode ≠ .disabled) (ours : Protocol) (stream : List UInt8) :
    (∃ v rest nonce asked, host.random = .ok nonce ∧
      AcceptsStream mac host mode ours stream v rest ∧
      Runs host (authenticateServer mac transport mode ours) ⟨stream, [], 0⟩ (.ok (some v))
        ⟨rest, [encodeHello mode.schemeId ours nonce, encodeAck ACK_OK []], asked⟩) ∨
    ((∀ v rest, ¬ AcceptsStream mac host mode ours stream v rest) ∧
      ∃ report hello acks rest asked, ReportsVersion host mode stream report ∧ Refusal acks ∧
        (hello = [] ∨ ∃ nonce, hello = [encodeHello mode.schemeId ours nonce]) ∧
        Runs host (authenticateServer mac transport mode ours) ⟨stream, [], 0⟩
          (.error (.report report)) ⟨rest, hello ++ acks, asked⟩) := by
  by_cases hready : ∃ nonce attestedPid, host.random = .ok nonce ∧
      host.attested mode = some attestedPid
  · obtain ⟨nonce, attestedPid, hrandom, hatt⟩ := hready
    cases hparse : parsePacket stream with
    | mk result rest =>
      cases result with
      | error report =>
        refine .inr ⟨?_, report, [_], [], rest, 0, ?_, .inl rfl, .inr ⟨_, rfl⟩,
          runs_server_unanswered hmode hrandom hatt hparse⟩
        · rintro v rest' ⟨nonce', pid', body, -, -, hlen, hstream, -⟩
          exact nomatch (parsePacket_eq_ok_iff.2 ⟨hlen, hstream⟩).symm.trans hparse
        · intro body rest' nonce' pid' _ _ hok
          exact nomatch hok.symm.trans hparse
      | ok body =>
        have hrun := @answerAuth_spec mac host ⟨rest, [encodeHello mode.schemeId ours nonce], 0⟩
          mode attestedPid (Host.attested_ne_none hatt) ours nonce body
        rcases hrun with ⟨v, asked, haccept, hrun⟩ | ⟨hno, hrun⟩
        · obtain ⟨hlen, hstream⟩ := parsePacket_eq_ok_iff.1 hparse
          exact .inl ⟨v, rest, nonce, asked, hrandom,
            ⟨nonce, attestedPid, body, hrandom, hatt, hlen, hstream, haccept⟩,
            runs_server_answered hmode hrandom hatt hparse hrun⟩
        · obtain ⟨report, acks, asked, hrefusal, hforeign, hrun⟩ := hrun
          refine .inr ⟨?_, report, [_], acks, rest, asked, ?_, hrefusal, .inr ⟨_, rfl⟩,
            runs_server_answered hmode hrandom hatt hparse hrun⟩
          · rintro v rest' ⟨nonce', pid', body', hrandom', hatt', hlen, hstream, haccept⟩
            cases hrandom.symm.trans hrandom'
            cases hatt.symm.trans hatt'
            cases hparse.symm.trans (parsePacket_eq_ok_iff.2 ⟨hlen, hstream⟩)
            exact hno v haccept
          · intro body' rest' nonce' pid' _ _ hok
            cases hparse.symm.trans hok
            exact hforeign
  · obtain ⟨report, hrun⟩ := @runs_server_unprepared mac transport host ⟨stream, [], 0⟩ mode ours
      hmode (fun nonce pid hrandom hatt => hready ⟨nonce, pid, hrandom, hatt⟩)
    refine .inr ⟨?_, report, [], [], stream, 0, ?_, .inl rfl, .inl rfl, hrun⟩
    · rintro v rest ⟨nonce, pid, body, hrandom, hatt, -⟩
      exact hready ⟨nonce, pid, hrandom, hatt⟩
    · intro body rest nonce pid hrandom hatt
      exact absurd ⟨nonce, pid, hrandom, hatt⟩ hready

/-- A stream that is accepted makes the handshake of some connection pass: the history is that of
its reads and writes, a byte at a time. -/
theorem exists_passed {mac : Mac} {transport : Transport} {host : Host} {mode : HandshakeMode}
    (hmode : mode ≠ .disabled) {ours : Protocol} {stream rest : List UInt8} {v : Version}
    (h : AcceptsStream mac host mode ours stream v rest) :
    ∃ history, (onConn (authenticateServer mac transport mode ours)).Reaches history
      (.done (.ok (some v))) := by
  rcases server_outcome mac transport host hmode ours stream with
    ⟨v', rest', nonce, asked, -, haccept, hrun⟩ | ⟨hno, -⟩
  · have hresult := (@run_onConn _ host (authenticateServer mac transport mode ours)
      ⟨⟨stream, Stream'.const 1⟩, Stream'.const 1, [], 0⟩ ⟨stream, [], 0⟩ ⟨rfl, rfl, rfl⟩).1
    rw [hrun] at hresult
    obtain ⟨history, hr⟩ := Prog.exists_reaches_run (ConnEnv.handle host)
      (onConn (authenticateServer mac transport mode ours))
      ⟨⟨stream, Stream'.const 1⟩, Stream'.const 1, [], 0⟩
    rw [hresult, (haccept.unique h).1] at hr
    exact ⟨history, hr⟩
  · exact absurd h (hno v rest)

/-- A refusal is one ack at most. -/
theorem Refusal.spec {acks : List (List UInt8)} (h : Refusal acks) :
    acks.length ≤ 1 ∧ ∀ ack ∈ acks, ∃ reason, ack = encodeAck ACK_REJECTED reason := by
  rcases h with rfl | ⟨reason, rfl⟩
  · exact ⟨Nat.zero_le 1, nofun⟩
  · exact ⟨le_rfl, fun ack hack => ⟨reason, List.mem_singleton.1 hack⟩⟩

/-- A refusal is not an `ACK_OK`. -/
theorem encodeAck_rejected_ne (reason : List UInt8) :
    encodeAck ACK_REJECTED reason ≠ encodeAck ACK_OK [] := by
  intro h
  have hstatus := congrArg (·[1]?) h
  change ((u8.write _ ++ (u8.write ACK_REJECTED ++ _)) : List UInt8)[1]? =
    ((u8.write _ ++ (u8.write ACK_OK ++ _)) : List UInt8)[1]? at hstatus
  rw [write_u8, write_u8, write_u8] at hstatus
  exact absurd hstatus (by simp [ACK_REJECTED, ACK_OK])

/-- **Server acceptance is exact.** For every mode but the disabled one, every byte stream, every
split of it and every answer of the operating system, the server returns a version exactly when
the stream starts with a packet of at most 4096 bytes that is a client auth of version 3 with the
mode's scheme, a compatible protocol of that version and a proof that satisfies the mode. It sends
an `ACK_OK` exactly then, and at most one ack in all. A body with another version field is
answered with `UnsupportedVersion`, whatever else it holds. -/
theorem server_accepts_iff (mac : Mac) (transport : Transport) (host : Host)
    {mode : HandshakeMode} (hmode : mode ≠ .disabled) (ours : Protocol) (stream : List UInt8)
    (cuts outCuts : Stream' ℕ) :
    let run := (onConn (authenticateServer mac transport mode ours)).run (ConnEnv.handle host)
      ⟨⟨stream, cuts⟩, outCuts, [], 0⟩
    (∀ v, run.1 = .ok (some v) ↔
      ∃ nonce attestedPid, ∃ peer : Protocol, ∃ proof body rest : List UInt8,
        host.random = .ok nonce ∧ host.attested mode = some attestedPid ∧
        stream = leBytes 4 body.length ++ body ++ rest ∧ body.length ≤ 4096 ∧
        body = [2] ++ leBytes 2 3 ++ [mode.schemeId] ++ leBytes 8 peer.id.toNat ++
          leBytes 4 peer.version.major.toNat ++ leBytes 4 peer.version.minor.toNat ++
          leBytes 4 peer.version.patch.toNat ++ leBytes 2 proof.length ++ proof ∧
        peer.id = ours.id ∧ peer.version.major = ours.version.major ∧ v = peer.version ∧
        ProofOk mac host 0 attestedPid nonce proof mode) ∧
    (∃ hello acks, run.2.sent = (hello ++ acks).flatMap frame ∧
      (hello = [] ∨ ∃ nonce, hello = [encodeHello mode.schemeId ours nonce]) ∧
      acks.length ≤ 1 ∧
      (∀ ack ∈ acks, ack = encodeAck ACK_OK [] ∨ ∃ reason, ack = encodeAck ACK_REJECTED reason) ∧
      (encodeAck ACK_OK [] ∈ acks ↔ ∃ v, run.1 = .ok (some v))) ∧
    (∀ body rest nonce attestedPid, host.random = .ok nonce →
      host.attested mode = some attestedPid → stream = leBytes 4 body.length ++ body ++ rest →
      body.length ≤ 4096 → 3 ≤ body.length → leNat ((body.drop 1).take 2) ≠ 3 →
      ∃ report, run.1 = .error (.report report) ∧ report.context = .unsupportedVersion) := by
  intro run
  obtain ⟨hresult, hshows⟩ := @run_onConn _ host (authenticateServer mac transport mode ours)
    ⟨⟨stream, cuts⟩, outCuts, [], 0⟩ ⟨stream, [], 0⟩ ⟨rfl, rfl, rfl⟩
  have hsent := hshows.sent_eq
  simp only [← acceptsStream_iff]
  rcases server_outcome mac transport host hmode ours stream with
    ⟨v, rest, nonce, asked, -, haccept, hrun⟩ | ⟨hno, hrun⟩
  · rw [hrun] at hresult hsent
    refine ⟨fun v' => ?_, ?_, ?_⟩
    · rw [hresult]
      constructor
      · intro h
        cases h
        exact ⟨rest, haccept⟩
      · rintro ⟨rest', haccept'⟩
        rw [(haccept.unique haccept').1]
    · refine ⟨[_], [_], hsent, .inr ⟨nonce, rfl⟩, le_rfl, ?_, ?_⟩
      · exact fun ack hack => .inl (List.mem_singleton.1 hack)
      · exact ⟨fun _ => ⟨v, hresult⟩, fun _ => List.mem_singleton_self _⟩
    · intro body rest' nonce' pid' _ _ hstream hlen hbody hversion
      obtain ⟨nonce, pid, body', -, -, hlen', hstream', haccept⟩ := haccept
      cases (parsePacket_eq_ok_iff.2 ⟨hlen, hstream⟩).symm.trans
        (parsePacket_eq_ok_iff.2 ⟨hlen', hstream'⟩)
      exact absurd haccept.decode.1 (foreignVersion_ne_none hbody hversion)
  · obtain ⟨report, hello, acks, rest, asked, hforeign, hrefusal, hhello, hrun⟩ := hrun
    rw [hrun] at hresult hsent
    obtain ⟨hone, hrejected⟩ := hrefusal.spec
    refine ⟨fun v => ?_, ⟨hello, acks, hsent, hhello, hone,
      fun ack hack => .inr (hrejected ack hack), ?_⟩, ?_⟩
    · rw [hresult]
      exact ⟨nofun, fun ⟨rest, haccept⟩ => absurd haccept (hno v rest)⟩
    · constructor
      · intro hack
        obtain ⟨reason, heq⟩ := hrejected _ hack
        exact absurd heq.symm (encodeAck_rejected_ne reason)
      · rintro ⟨v, hv⟩
        exact nomatch hresult.symm.trans hv
    · intro body rest' nonce pid hrandom hatt hstream hlen hbody hversion
      exact ⟨report, hresult, hforeign body rest' nonce pid hrandom hatt
        (parsePacket_eq_ok_iff.2 ⟨hlen, hstream⟩) (foreignVersion_ne_none hbody hversion)⟩

/-- An operating system that attests nothing and draws a fixed nonce, to evaluate runs with. -/
def Host.sample : Host where
  identity := .unknown
  random := .ok ⟨List.replicate 32 7, by decide⟩
  creationTime _ _ := .error (.new .signedProcessVerificationFailed)
  image _ _ := .error (.new .signedProcessVerificationFailed)

/-- A client with the shared secret and another minor version is accepted. -/
theorem server_accepts_hmac :
    ((onConn (authenticateServer .sample .tcp (.hmacSha256 [1, 2]) ⟨7, 1, 3, 1⟩)).run
      (ConnEnv.handle .sample)
      ⟨⟨frame (authBody 2 3 1 ⟨7, 1, 0, 4⟩
        (hmacWithNonce .sample [1, 2] (List.replicate 32 7))) ++ [0, 0], Stream'.const 5⟩,
        Stream'.const 1, [], 0⟩).1 = .ok (some ⟨1, 0, 4⟩) :=
  ((@server_accepts_iff .sample .tcp .sample (.hmacSha256 [1, 2]) nofun ⟨7, 1, 3, 1⟩ _ _ _).1
    ⟨1, 0, 4⟩).2 ⟨_, none, ⟨7, 1, 0, 4⟩, hmacWithNonce .sample [1, 2] (List.replicate 32 7), _,
      [0, 0], rfl, rfl, rfl, by decide, rfl, rfl, rfl, rfl, rfl⟩

/-- The handshake of a connection on which the client proves the shared secret passes. -/
theorem exists_passed_hmac :
    ∃ history, (onConn (authenticateServer .sample .tcp (.hmacSha256 [1, 2]) ⟨7, 1, 3, 1⟩)).Reaches
      history (.done (.ok (some ⟨1, 0, 4⟩))) := by
  have haccept : AcceptsStream .sample .sample (.hmacSha256 [1, 2]) ⟨7, 1, 3, 1⟩
      (frame (authBody 2 3 1 ⟨7, 1, 0, 4⟩
        (hmacWithNonce .sample [1, 2] (List.replicate 32 7)))) ⟨1, 0, 4⟩ [] :=
    ⟨⟨List.replicate 32 7, by decide⟩, none, _, rfl, rfl, by decide, (List.append_nil _).symm,
      ⟨7, 1, 0, 4⟩, _, by decide, rfl, rfl, rfl, rfl, rfl⟩
  exact exists_passed (by simp) haccept

end Ogurpchik
