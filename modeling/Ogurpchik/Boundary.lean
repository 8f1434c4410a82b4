import Ogurpchik.HandshakeClient
import Ogurpchik.Inbound

/-!
# The End of the Handshake

Handshake packets and capnp frames follow each other on one connection without a separator. This
module shows that a handshake that succeeds takes exactly its own bytes off the connection: what
the peer sent behind its last packet is there, as a whole, for the decoder of the session.

Two runs belong together when each reads what the other has sent, followed by whatever the other
sends behind its handshake.

## Main results

* `server_on_conn`, `client_on_conn`: what an accepting run has sent and what it leaves unread.
* `handshake_boundary`: **the unread part of each direction is what was sent behind the
  handshake**, and a session decodes exactly that.
-/

namespace Ogurpchik

open Async

/-- A run of the server on a connection, with reads and writes cut as the environment likes. -/
def serverRun (mac : Mac) (transport : Transport) (host : Host) (mode : HandshakeMode)
    (ours : Protocol) (wire : Wire) (outCuts : Stream' ℕ) :
    Except HandshakeFault (Option Version) × ConnEnv :=
  (onConn (authenticateServer mac transport mode ours)).run (ConnEnv.handle host)
    ⟨wire, outCuts, [], 0⟩

/-- A run of the client on a connection, with reads and writes cut as the environment likes. -/
def clientRun (mac : Mac) (host : Host) (mode : HandshakeMode) (ours : Protocol) (wire : Wire)
    (outCuts : Stream' ℕ) : Except HandshakeFault (Option Version) × ConnEnv :=
  (onConn (authenticateClient mac mode ours)).run (ConnEnv.handle host) ⟨wire, outCuts, [], 0⟩

section Accepting

variable {mac : Mac} {transport : Transport} {host : Host} {mode : HandshakeMode} {ours : Protocol}
  {stream : List UInt8} {cuts outCuts : Stream' ℕ}

/-- An accepting server has sent a hello and an `ACK_OK`, and leaves the bytes behind the client's
packet. -/
theorem server_on_conn (hmode : mode ≠ .disabled) {r : Option Version}
    (hok : (serverRun mac transport host mode ours ⟨stream, cuts⟩ outCuts).1 = .ok r) :
    ∃ v rest nonce, r = some v ∧ AcceptsStream mac host mode ours stream v rest ∧
      host.random = .ok nonce ∧
      (serverRun mac transport host mode ours ⟨stream, cuts⟩ outCuts).2.wire.data = rest ∧
      (serverRun mac transport host mode ours ⟨stream, cuts⟩ outCuts).2.sent =
          frame (encodeHello mode.schemeId ours nonce) ++ frame (encodeAck ACK_OK []) := by
  obtain ⟨hresult, hshows⟩ := @run_onConn _ host (authenticateServer mac transport mode ours)
    ⟨⟨stream, cuts⟩, outCuts, [], 0⟩ ⟨stream, [], 0⟩ ⟨rfl, rfl, rfl⟩
  rw [serverRun] at hok ⊢
  rcases server_outcome mac transport host hmode ours stream with
    ⟨v, rest, nonce, asked, hrandom, haccept, hrun⟩ |
      ⟨-, report, hello, acks, rest, asked, -, -, -, hrun⟩
  · rw [hrun] at hresult hshows
    cases hok.symm.trans hresult
    refine ⟨v, rest, nonce, rfl, haccept, hrandom, hshows.data_eq, hshows.sent_eq.trans ?_⟩
    simp
  · rw [hrun] at hresult
    exact nomatch hok.symm.trans hresult

/-- An accepting client has sent one packet and leaves the bytes behind the ack. -/
theorem client_on_conn (hmode : mode ≠ .disabled) {r : Option Version}
    (hok : (clientRun mac host mode ours ⟨stream, cuts⟩ outCuts).1 = .ok r) :
    ∃ v rest nonce, r = some v ∧ AcceptsReply mode ours stream v rest ∧
      (clientRun mac host mode ours ⟨stream, cuts⟩ outCuts).2.wire.data = rest ∧
      (clientRun mac host mode ours ⟨stream, cuts⟩ outCuts).2.sent =
          frame (encodeClientAuth mode.schemeId ours (proofFor mac nonce mode)) := by
  obtain ⟨hresult, hshows⟩ := @run_onConn _ host (authenticateClient mac mode ours)
    ⟨⟨stream, cuts⟩, outCuts, [], 0⟩ ⟨stream, [], 0⟩ ⟨rfl, rfl, rfl⟩
  rw [clientRun] at hok ⊢
  rcases client_outcome mac host hmode ours stream with
    ⟨v, rest, sent, haccept, hdiscloses, hne, hrun⟩ | ⟨-, report, sent, rest, -, -, hrun⟩
  · rw [hrun] at hresult hshows
    cases hok.symm.trans hresult
    rcases hdiscloses with rfl | ⟨peer, nonce, tail, -, rfl⟩
    · exact absurd rfl hne
    · refine ⟨v, rest, nonce, rfl, haccept, hshows.data_eq, hshows.sent_eq.trans ?_⟩
      simp
  · rw [hrun] at hresult
    exact nomatch hok.symm.trans hresult

end Accepting

/-- The frame at the start of a stream is determined. -/
theorem frame_append_inj {body body' rest rest' : List UInt8} (hlen : body.length ≤ MAX_PACKET_LEN)
    (hlen' : body'.length ≤ MAX_PACKET_LEN) (h : frame body ++ rest = frame body' ++ rest') :
    body = body' ∧ rest = rest' := by
  cases (parsePacket_eq_ok_iff.2 ⟨hlen, rfl⟩).symm.trans (parsePacket_eq_ok_iff.2 ⟨hlen', h⟩)
  exact ⟨rfl, rfl⟩

/-- **The handshake takes exactly its own bytes.** Whenever two runs that read each other's
packets both succeed, for every split of both directions and whatever bytes follow the packets,
each run leaves exactly the bytes that follow, and the decoder of a session on the connection
reads what the one-shot decoder reads off them: all messages, when they are serialized messages
within the limits. -/
theorem handshake_boundary (mac : Mac) (transport : Transport) (serverHost clientHost : Host)
    {serverMode clientMode : HandshakeMode} (hserver : serverMode ≠ .disabled)
    (hclient : clientMode ≠ .disabled) (serverProtocol clientProtocol : Protocol)
    (toServer toClient : Wire) (serverCuts clientCuts : Stream' ℕ)
    (behindAuth behindAck : List UInt8) (serverVersion clientVersion : Option Version)
    (hto : toServer.data =
      (clientRun mac clientHost clientMode clientProtocol toClient clientCuts).2.sent ++ behindAuth)
    (hfrom : toClient.data =
      (serverRun mac transport serverHost serverMode serverProtocol toServer serverCuts).2.sent ++
        behindAck)
    (hserverOk : (serverRun mac transport serverHost serverMode serverProtocol toServer
      serverCuts).1 = .ok clientVersion)
    (hclientOk : (clientRun mac clientHost clientMode clientProtocol toClient clientCuts).1 =
      .ok serverVersion) :
    let serverWire := (serverRun mac transport serverHost serverMode serverProtocol toServer
      serverCuts).2.wire
    let clientWire := (clientRun mac clientHost clientMode clientProtocol toClient
      clientCuts).2.wire
    (serverWire.data = behindAuth ∧ clientWire.data = behindAck) ∧
    (∀ al capacity limit,
      ours al serverWire.data serverWire.cuts capacity limit = some (stock limit behindAuth) ∧
      ours al clientWire.data clientWire.cuts capacity limit = some (stock limit behindAck)) ∧
    (∀ al capacity limit requests replies, (∀ m ∈ requests, Acceptable limit m) →
      (∀ m ∈ replies, Acceptable limit m) → behindAuth = serializeAll (segmentsOf requests) →
      behindAck = serializeAll (segmentsOf replies) →
      ours al serverWire.data serverWire.cuts capacity limit = some (segmentsOf requests, .ok ()) ∧
      ours al clientWire.data clientWire.cuts capacity limit =
        some (segmentsOf replies, .ok ())) := by
  intro serverWire clientWire
  obtain ⟨v, rest, nonce, -, haccept, -, hdata, hsent⟩ := server_on_conn hserver hserverOk
  obtain ⟨v', rest', nonce', -, haccept', hdata', hsent'⟩ := client_on_conn hclient hclientOk
  have hunread : serverWire.data = behindAuth := by
    obtain ⟨_, _, body, -, -, hlen, hstream, -⟩ := haccept
    rw [hto, hsent'] at hstream
    exact hdata.trans
      (frame_append_inj (length_encodeClientAuth _ _ _ _) hlen hstream).2.symm
  have hunread' : clientWire.data = behindAck := by
    obtain ⟨_, _, ack, _, ⟨hello, hlen, hstream, -⟩, hack, rfl, -⟩ := haccept'
    rw [hfrom, hsent, List.append_assoc] at hstream
    obtain ⟨-, htail⟩ := frame_append_inj (length_encodeHello _ _ _) hlen hstream
    exact hdata'.trans (frame_append_inj length_encodeAckOk hack htail).2.symm
  have hread : ∀ al capacity limit (wire : Wire),
      ours al wire.data wire.cuts capacity limit = some (stock limit wire.data) :=
    fun al capacity limit wire =>
      Inbound.readAll_eq_stock al (Inbound.at_new al limit capacity wire) (Nat.lt_succ_self _)
  refine ⟨⟨hunread, hunread'⟩, fun al capacity limit => ?_, ?_⟩
  · rw [hread, hread, hunread, hunread']
    exact ⟨rfl, rfl⟩
  · rintro al capacity limit requests replies hrequests hreplies hbehind hbehind'
    rw [hread, hread, hunread, hunread', hbehind, hbehind', stock_serializeAll hrequests,
      stock_serializeAll hreplies]
    exact ⟨rfl, rfl⟩

/-- A client auth with the first bytes of a frame behind it, which are for the session. -/
def sampleToServer : Wire :=
  ⟨frame (encodeClientAuth 1 ⟨7, 1, 3, 1⟩
    (hmacWithNonce .sample [1, 2] (List.replicate 32 7))) ++ [0, 0, 0, 0, 1, 0], Stream'.const 5⟩

/-- A hello and an ack with the first bytes of a frame behind them, which are for the session. -/
def sampleToClient : Wire :=
  ⟨frame (encodeHello 1 ⟨7, 1, 0, 4⟩ (List.replicate 32 7)) ++ frame (encodeAck ACK_OK []) ++
    [1, 0], Stream'.const 9⟩

/-- Two peers with different minor versions and bytes behind both handshakes. -/
theorem handshake_boundary_sample :
    (serverRun .sample .tcp .sample (.hmacSha256 [1, 2]) ⟨7, 1, 0, 4⟩ sampleToServer
      (Stream'.const 3)).2.wire.data = [0, 0, 0, 0, 1, 0] ∧
    (clientRun .sample .sample (.hmacSha256 [1, 2]) ⟨7, 1, 3, 1⟩ sampleToClient
      (Stream'.const 2)).2.wire.data = [1, 0] :=
  (@handshake_boundary .sample .tcp .sample .sample (.hmacSha256 [1, 2]) (.hmacSha256 [1, 2])
    nofun nofun ⟨7, 1, 0, 4⟩ ⟨7, 1, 3, 1⟩ sampleToServer
    sampleToClient (Stream'.const 3) (Stream'.const 2) _ _ (some ⟨1, 0, 4⟩) (some ⟨1, 3, 1⟩)
    (by decide +kernel) (by decide +kernel) (by decide +kernel) (by decide +kernel)).1

end Ogurpchik
