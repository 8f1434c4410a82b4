import Ogurpchik.Handshake

/-!
# Runs of the Handshake

A half of the handshake run by itself: its input is a byte string, delivered in any pieces and
then ended, its writes succeed in any pieces, no timeout elapses and the operating system gives
some answers. On the level of packets such a run takes frames off the front of the input; this
module defines both levels and shows that they agree, whatever the pieces.

## Main definitions

* `ConnEnv`, `ConnEnv.handle`: the connection a half runs on.
* `parsePacket`: what reading a packet makes of the input.
* `PacketEnv`, `PacketEnv.handle`: the same environment by whole packets.

## Main results

* `run_onConn`: a run on a connection is the run by whole packets.
-/

namespace Ogurpchik

open Async LittleEndian

/-- The answers of the operating system. Only the creation time of a process is asked for more
than once, and the answers may differ. -/
structure Host where
  identity : PeerIdentity
  random : Except String { nonce : List UInt8 // nonce.length = NONCE_LEN }
  creationTime : ℕ → UInt32 → Except Report UInt64
  image : UInt32 → List UInt8 → Except Report Unit

/-- Answer a question, given how often a creation time was asked for before: it is the one answer
that may change while a half runs. -/
def Host.answer (host : Host) (asked : ℕ) : (op : HostOp) → op.Ans × ℕ
  | .peerIdentity => (host.identity, asked)
  | .fillRandom => (host.random, asked)
  | .processCreationTime pid => (host.creationTime asked pid, asked + 1)
  | .verifyProcessImage pid publicKey => (host.image pid publicKey, asked)

/-! ### The connection -/

/-- A connection: the input, the lengths the next writes would like to take, the bytes sent and
how often a creation time was asked for. -/
structure ConnEnv where
  wire : Wire
  outCuts : Stream' ℕ
  sent : List UInt8
  asked : ℕ

namespace ConnEnv

/-- The length of the next write: at least one byte while there are any, and otherwise as the
environment likes. -/
def writeLen (env : ConnEnv) (bytes : List UInt8) : ℕ :=
  min (max 1 env.outCuts.head) bytes.length

/-- Answer an operation: reads are cut as the environment likes, no timeout elapses and no write
fails. Those are the runs of which a result is claimed. -/
def handle (host : Host) (env : ConnEnv) : (op : ConnOp) → op.Ans × ConnEnv
  | .timed op => (some (env.wire.handle op).1, { env with wire := (env.wire.handle op).2 })
  | .write bytes =>
      (.ok ⟨env.writeLen bytes, min_le_right _ _⟩,
        { env with
          outCuts := env.outCuts.tail
          sent := env.sent ++ bytes.take (env.writeLen bytes) })
  | .host op => ((host.answer env.asked op).1, { env with asked := (host.answer env.asked op).2 })

end ConnEnv

/-! ### Whole packets -/

/-- Read a packet off a byte string: the result, and the bytes left. This is what the reads of a
packet come to, however they are cut. -/
def parsePacket (data : List UInt8) : Except Report (List UInt8) × List UInt8 :=
  if data.length < 4 then (.error (.new .io), [])
  else
    let len := leNat (data.take 4)
    if MAX_PACKET_LEN < len then (.error (oversized len), data.drop 4)
    else if data.length < 4 + len then (.error (.new .io), [])
    else (.ok ((data.drop 4).take len), data.drop (4 + len))

/-- The environment by whole packets: the bytes not yet read, the bodies sent and how often a
creation time was asked for. -/
structure PacketEnv where
  data : List UInt8
  sent : List (List UInt8)
  asked : ℕ

/-- Answer an operation by whole packets: the environment on the level above reads and writes. -/
def PacketEnv.handle (host : Host) (env : PacketEnv) : (op : PacketOp) → op.Ans × PacketEnv
  | .writePacket body => (.ok (), { env with sent := env.sent ++ [body] })
  | .readPacketWithTimeout =>
      ((parsePacket env.data).1, { env with data := (parsePacket env.data).2 })
  | .host op => ((host.answer env.asked op).1, { env with asked := (host.answer env.asked op).2 })

/-! ### Agreement of the two levels -/

/-- The two environments show the same: the same bytes to read, the packets sent as bytes, and the
same questions asked. -/
structure Shows (env : ConnEnv) (penv : PacketEnv) : Prop where
  data_eq : env.wire.data = penv.data
  sent_eq : env.sent = penv.sent.flatMap frame
  asked_eq : env.asked = penv.asked

/-- `writeAll` sends all bytes, in whatever pieces. Only the cuts that are left differ behind it. -/
theorem run_writeAll (host : Host) (bytes : List UInt8) (env : ConnEnv) :
    ∃ cuts, (writeAll bytes).run (ConnEnv.handle host) env =
      (.ok (), { env with outCuts := cuts, sent := env.sent ++ bytes }) := by
  induction bytes using writeAll_induction generalizing env with
  | nil =>
      refine ⟨env.outCuts, ?_⟩
      rw [writeAll, if_pos rfl, Prog.run_done, List.append_nil]
  | more bytes hnil ih =>
      have hpos := List.length_pos_iff.mpr hnil
      have hlen : env.writeLen bytes ≠ 0 := by
        rw [ConnEnv.writeLen]
        omega
      obtain ⟨cuts, hrun⟩ := ih (env.writeLen bytes) hlen
        { env with
          outCuts := env.outCuts.tail
          sent := env.sent ++ bytes.take (env.writeLen bytes) }
      refine ⟨cuts, ?_⟩
      rw [writeAll, if_neg hnil, Prog.run_await]
      simp only [ConnEnv.handle, if_neg hlen]
      rw [hrun, List.append_assoc, List.take_append_drop]

/-- Without a timeout, reading code runs as it does on the wire alone. -/
theorem run_underTimeout {α : Type} (host : Host) (p : ReadProg α) (env : ConnEnv) :
    (underTimeout p).run (ConnEnv.handle host) env =
      (some (p.run Wire.handle env.wire).1,
        { env with wire := (p.run Wire.handle env.wire).2 }) := by
  induction p generalizing env with
  | done a => rfl
  | await op k ih =>
      rw [underTimeout, Prog.run_await, Prog.run_await]
      exact ih (env.wire.handle op).1 { env with wire := (env.wire.handle op).2 }

/-- Reading a packet takes it off the front of the input, whatever the pieces. -/
theorem run_readPacket (w : Wire) :
    ∃ cuts, readPacket.run Wire.handle w =
      ((parsePacket w.data).1, ⟨(parsePacket w.data).2, cuts⟩) := by
  rw [readPacket, parsePacket]
  simp only [Prog.run_bind]
  by_cases hshort : w.data.length < 4
  · obtain ⟨cuts, hrun⟩ := @run_readExactFrom_of_lt 4 [] w (by simpa using hshort)
    refine ⟨cuts, ?_⟩
    rw [if_pos hshort, readExact, hrun]
    rfl
  rw [if_neg hshort]
  obtain ⟨cuts₁, hheader⟩ := @run_readExactFrom_of_append 4 [] (w.data.take 4) (w.data.drop 4)
    w.cuts (by simp; omega)
  rw [List.take_append_drop, List.nil_append] at hheader
  change Prog.run Wire.handle (readExact 4) w = _ at hheader
  rw [hheader]
  dsimp only
  generalize leNat (w.data.take 4) = len
  by_cases hlarge : MAX_PACKET_LEN < len
  · refine ⟨cuts₁, ?_⟩
    simp only [if_pos hlarge, Prog.run_done]
  simp only [if_neg hlarge, Prog.run_bind]
  by_cases hcut : w.data.length < 4 + len
  · obtain ⟨cuts, hrun⟩ := @run_readExactFrom_of_lt len [] ⟨w.data.drop 4, cuts₁⟩ (by
      rw [List.length_nil, List.length_drop]
      omega)
    refine ⟨cuts, ?_⟩
    rw [if_pos hcut, readExact, hrun]
    rfl
  · obtain ⟨cuts, hrun⟩ := @run_readExactFrom_of_append len [] ((w.data.drop 4).take len)
      ((w.data.drop 4).drop len) cuts₁ (by
        rw [List.length_nil, List.length_take, List.length_drop]
        omega)
    rw [List.take_append_drop, List.nil_append, List.drop_drop] at hrun
    refine ⟨cuts, ?_⟩
    rw [if_neg hcut, readExact, hrun]
    rfl

/-- Each packet operation does on a connection what it does by whole packets. -/
theorem run_perform (host : Host) (op : PacketOp) (env : ConnEnv) (penv : PacketEnv)
    (h : Shows env penv) :
    ((perform op).run (ConnEnv.handle host) env).1 = (penv.handle host op).1 ∧
      Shows ((perform op).run (ConnEnv.handle host) env).2 (penv.handle host op).2 := by
  cases op with
  | writePacket body =>
      obtain ⟨cuts, hrun⟩ := run_writeAll host (frame body) env
      simp only [perform, Prog.run_bind, hrun, Prog.run_done]
      refine ⟨rfl, h.data_eq, ?_, h.asked_eq⟩
      simp [PacketEnv.handle, h.sent_eq]
  | readPacketWithTimeout =>
      obtain ⟨cuts, hread⟩ := run_readPacket env.wire
      simp only [perform, Prog.run_bind, run_underTimeout, hread, Prog.run_done]
      rw [h.data_eq]
      exact ⟨rfl, rfl, h.sent_eq, h.asked_eq⟩
  | host op =>
      simp only [perform, Prog.run_await, Prog.run_done, ConnEnv.handle, PacketEnv.handle]
      rw [h.asked_eq]
      exact ⟨rfl, h.data_eq, h.sent_eq, rfl⟩

/-- **A run on a connection is the run by whole packets**, whatever the pieces. -/
theorem run_onConn {α : Type} (host : Host) (p : HandshakeM α) {env : ConnEnv}
    {penv : PacketEnv} (h : Shows env penv) :
    ((onConn p).run (ConnEnv.handle host) env).1 = (p.run.run (PacketEnv.handle host) penv).1 ∧
      Shows ((onConn p).run (ConnEnv.handle host) env).2
        (p.run.run (PacketEnv.handle host) penv).2 :=
  Prog.run_interpret (PacketEnv.handle host) (run_perform host) p.run h

/-! ### The operations by whole packets -/

/-- `Runs host x env r env'`: by whole packets, the program `x` ends with `r` and leaves
`env'`. -/
abbrev Runs {α : Type} (host : Host) (x : HandshakeM α) (env : PacketEnv)
    (r : Except HandshakeFault α) (env' : PacketEnv) : Prop :=
  Prog.Returns (PacketEnv.handle host) x env r env'

section Runs

variable {α : Type} {host : Host} {env : PacketEnv}

/-- A packet that is written is one more packet sent. -/
theorem runs_writePacket (body : List UInt8) :
    Runs host (writePacket body) env (.ok ()) { env with sent := env.sent ++ [body] } := rfl

/-- A refusal sends its ack and fails with its report. -/
theorem runs_reject (reason : List UInt8) (report : Report) :
    Runs host (reject reason report : HandshakeM α) env (.error (.report report))
      { env with sent := env.sent ++ [encodeAck ACK_REJECTED reason] } := rfl

/-- A question is answered by the host, which keeps count of what it was asked. -/
theorem runs_askHost (op : HostOp) :
    Runs host (askHost op) env (.ok (host.answer env.asked op).1)
      { env with asked := (host.answer env.asked op).2 } := rfl

/-- A result that is there goes on as a value. -/
theorem runs_orReport_ok {x : Except Report α} {a : α} (h : x = .ok a) :
    Runs host (orReport x) env (.ok a) env := by
  rw [h]
  exact Prog.returns_pure a env

/-- A result that is an error ends the handshake with its report. -/
theorem runs_orReport_error {x : Except Report α} {report : Report} (h : x = .error report) :
    Runs host (orReport x) env (.error (.report report)) env := by
  rw [h]
  exact Prog.returns_throw _ env

/-- A packet is read as `parsePacket` reads it off the bytes that are there, however they are cut
into reads. -/
theorem runs_readPacket {r : Except Report (List UInt8)} {rest : List UInt8}
    (h : parsePacket env.data = (r, rest)) :
    Runs host readPacketWithTimeout env (r.mapError .report) { env with data := rest } := by
  have hrun : Runs host readPacketWithTimeout env ((parsePacket env.data).1.mapError .report)
      { env with data := (parsePacket env.data).2 } := by
    simp only [Runs, Prog.Returns, readPacketWithTimeout, ExceptT.run_mk, Prog.run_await,
      PacketEnv.handle]
    cases (parsePacket env.data).1 <;> rfl
  rwa [h] at hrun

end Runs

/-- **A packet is read** exactly when the input starts with a frame of at most the maximum
length. -/
theorem parsePacket_eq_ok_iff {data body rest : List UInt8} :
    parsePacket data = (.ok body, rest) ↔
      body.length ≤ MAX_PACKET_LEN ∧ data = frame body ++ rest := by
  have hmax : MAX_PACKET_LEN = 4096 := rfl
  constructor
  · intro h
    rw [parsePacket] at h
    dsimp only at h
    split_ifs at h with hshort hlarge hcut
    all_goals
      simp only [Prod.mk.injEq, reduceCtorEq, false_and, Except.ok.injEq] at h
    obtain ⟨rfl, rfl⟩ := h
    have hlen : ((data.drop 4).take (leNat (data.take 4))).length = leNat (data.take 4) := by
      rw [List.length_take, List.length_drop]
      omega
    refine ⟨by omega, ?_⟩
    rw [frame, hlen, leBytes_leNat_of_length (by simp; omega), ← List.drop_drop,
      List.append_assoc, List.take_append_drop, List.take_append_drop]
  · rintro ⟨hle, rfl⟩
    have hlen : body.length < 256 ^ 4 := by omega
    have htake : (frame body ++ rest).take 4 = leBytes 4 body.length := by
      rw [frame, List.append_assoc, List.take_left' (length_leBytes 4 _)]
    have hdrop : (frame body ++ rest).drop 4 = body ++ rest := by
      rw [frame, List.append_assoc, List.drop_left' (length_leBytes 4 _)]
    have htotal : (frame body ++ rest).length = 4 + body.length + rest.length := by
      simp [frame, length_leBytes, Nat.add_assoc]
    rw [parsePacket, htake, hdrop, leNat_leBytes_of_lt hlen]
    dsimp only
    rw [if_neg (by omega), if_neg (by omega), if_neg (by omega), ← List.drop_drop, hdrop,
      List.take_left, List.drop_left]

end Ogurpchik
