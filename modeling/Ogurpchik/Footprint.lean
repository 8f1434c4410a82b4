import Ogurpchik.Budget
import Ogurpchik.Codec

/-!
# What a Handshake Costs

Until its handshake has passed, a client is anyone. This module bounds what it can make the server
do by then: how many bytes it makes it read and write, how many operations it keeps it busy with,
and how long it lets it wait. The same bounds are drawn for the client, which does not know its
server either.

One count of the operations of the two halves serves all of them. An operation of a half is carried
out on the connection in as many pieces as the peer likes, but every piece but the last one brings
at least one byte, and the length that a packet declares is checked before its body is read.

## Main definitions

* `bytesRead`, `bytesWritten`, `operations`: what is counted.
* `PacketOp.price`: a price for each kind of operation.

## Main results

* `leaves_authenticateServer`, `leaves_authenticateClient`: the operations of the two halves.
* `handshake_footprint`: **the cost of a handshake is bounded**, whatever the peer does.
-/

namespace Ogurpchik

open Async Prog LittleEndian

/-! ### The two halves -/

/-- A price for a write, a read and a question to the operating system, whatever is written or
answered. -/
def PacketOp.price (write read host : ℕ) : PacketOp → ℕ
  | .writePacket _ => write
  | .readPacketWithTimeout => read
  | .host _ => host

section Halves

variable {w r g n : ℕ}

/-- The prices as costs: on the level of packets the answers do not matter. -/
abbrev priced (w r g : ℕ) (op : PacketOp) (_ : op.Ans) : ℕ := op.price w r g

/-- A result that is turned into a failure costs nothing. -/
theorem leaves_orReport {α : Type} (result : Except Report α) :
    Leaves (priced w r g) n n (orReport result) := by
  cases result with
  | ok a => exact leaves_pure a le_rfl
  | error report => exact leaves_throw _

/-- A packet that is written costs the price of a write, whatever is in it. -/
theorem leaves_writePacket (body : List UInt8) :
    Leaves (priced w r g) (w + n) n (writePacket body) := by
  intro ans
  refine ⟨Nat.le_add_right w n, ?_⟩
  rw [priced, PacketOp.price, Nat.add_sub_cancel_left]
  exact leaves_orReport ans

/-- A packet that is read costs the price of a read, also if the read fails or times out. -/
theorem leaves_readPacketWithTimeout :
    Leaves (priced w r g) (r + n) n readPacketWithTimeout := by
  intro ans
  refine ⟨Nat.le_add_right r n, ?_⟩
  rw [priced, PacketOp.price, Nat.add_sub_cancel_left]
  exact leaves_orReport ans

/-- A question to the operating system costs the price of a question, whatever it is. -/
theorem leaves_askHost (op : HostOp) : Leaves (priced w r g) (g + n) n (askHost op) := by
  intro ans
  refine ⟨Nat.le_add_right g n, ?_⟩
  rw [priced, PacketOp.price, Nat.add_sub_cancel_left]
  exact fun _ _ => le_rfl

/-- A refusal is the last thing a half does. -/
theorem leaves_reject {α : Type} {m : ℕ} (h : w ≤ m) (reason : List UInt8) (report : Report) :
    Leaves (priced w r g) m n (reject reason report : HandshakeM α) := by
  intro ans
  refine ⟨h, fun a ha => ?_⟩
  cases ha

/-- Attesting the peer is one question at most: who it is. -/
theorem leaves_attestPid (transport : Transport) (mode : HandshakeMode) :
    Leaves (priced w r g) (g + n) n (attestPid transport mode) := by
  cases mode with
  | signedProcess key =>
    refine (leaves_askHost .peerIdentity).bind fun identity => ?_
    cases identity with
    | pid pid => exact leaves_pure _ le_rfl
    | unknown => exact leaves_throw _
  | disabled | versionOnly | hmacSha256 _ => exact leaves_pure _ (Nat.le_add_left n g)

/-- The nonce is one question. -/
theorem leaves_freshNonce : Leaves (priced w r g) (g + n) n freshNonce := by
  refine (leaves_askHost .fillRandom).bind fun answer => ?_
  cases answer with
  | ok nonce => exact leaves_pure _ le_rfl
  | error e => exact leaves_throw _

/-- Three questions verify a process: its creation time, its image, and its creation time again. -/
theorem leaves_verifySignedProcess (pid : UInt32) (key : List UInt8) :
    Leaves (priced w r g) (g + (g + (g + n))) n
      (ExceptT.lift (verifySignedProcess pid key) : HandshakeM (Except Report Unit)) := by
  intro before
  refine ⟨Nat.le_add_right g _, ?_⟩
  rw [priced, PacketOp.price, Nat.add_sub_cancel_left]
  rcases before with report | before
  · exact fun _ _ => by omega
  intro image
  refine ⟨Nat.le_add_right g _, ?_⟩
  rw [priced, PacketOp.price, Nat.add_sub_cancel_left]
  rcases image with report | image
  · exact fun _ _ => by omega
  intro after
  refine ⟨Nat.le_add_right g _, ?_⟩
  rw [priced, PacketOp.price, Nat.add_sub_cancel_left]
  rcases after with report | after
  · exact fun _ _ => le_rfl
  dsimp only
  split_ifs
  · exact fun _ _ => le_rfl
  · exact fun _ _ => le_rfl

/-- The check of a proof leaves what the acknowledgement needs, or sends a refusal in its place. -/
theorem leaves_checkProof (mac : Mac) (attestedPid : Option UInt32) (nonce proof : List UInt8)
    (mode : HandshakeMode) :
    Leaves (priced w r g) (g + (g + (g + (w + n)))) (w + n)
      (checkProof mac attestedPid nonce proof mode) := by
  cases mode with
  | signedProcess key =>
    cases attestedPid with
    | none => exact leaves_throw _
    | some pid =>
      refine (leaves_verifySignedProcess pid key).bind fun result => ?_
      cases result with
      | error report => exact leaves_reject (Nat.le_add_right w n) _ _
      | ok _ => exact leaves_pure _ le_rfl
  | disabled | versionOnly | hmacSha256 _ =>
    simp only [checkProof]
    split_ifs
    · exact leaves_reject (by omega) _ _
    · exact leaves_pure _ (by omega)

/-- The most a packet of the client can cost the server: the three questions of a check of the
image, and the ack. -/
theorem leaves_answerAuth (mac : Mac) (mode : HandshakeMode) (protocol : Protocol)
    (attestedPid : Option UInt32) (nonce body : List UInt8) :
    Leaves (priced w r g) (g + (g + (g + (w + n)))) n
      (answerAuth mac mode protocol attestedPid nonce body) := by
  have hreject (reason : List UInt8) (report : Report) : Leaves (priced w r g)
      (g + (g + (g + (w + n)))) n (reject reason report : HandshakeM (Option Version)) :=
    leaves_reject (by omega) reason report
  rw [answerAuth]
  split
  · exact hreject _ _
  refine (leaves_orReport _).bind fun decoded => ?_
  dsimp only
  split_ifs
  · exact hreject _ _
  split
  · exact hreject _ _
  · exact (leaves_checkProof mac attestedPid nonce _ mode).bind fun _ =>
      (leaves_writePacket _).bind fun _ => leaves_pure _ le_rfl

/-- The server half: at most five questions, two writes and a read between them. -/
theorem leaves_authenticateServer (mac : Mac) (transport : Transport) (mode : HandshakeMode)
    (protocol : Protocol) :
    Leaves (priced w r g) (g + (g + (w + (r + (g + (g + (g + (w + n)))))))) n
      (authenticateServer mac transport mode protocol) := by
  by_cases hmode : mode = .disabled
  · subst hmode
    exact leaves_pure _ (by omega)
  rw [authenticateServer_eq hmode]
  exact (leaves_attestPid transport mode).bind fun attestedPid =>
    leaves_freshNonce.bind fun nonce => (leaves_writePacket _).bind fun _ =>
      leaves_readPacketWithTimeout.bind fun body =>
        leaves_answerAuth mac mode protocol attestedPid nonce body

/-- The client half: at most two reads and a write between them. It asks its host nothing. -/
theorem leaves_authenticateClient (mac : Mac) (mode : HandshakeMode) (protocol : Protocol) :
    Leaves (priced w r g) (r + (w + (r + n))) n (authenticateClient mac mode protocol) := by
  by_cases hmode : mode = .disabled
  · subst hmode
    exact leaves_pure _ (by omega)
  rw [authenticateClient_eq hmode]
  refine leaves_readPacketWithTimeout.bind fun body => ?_
  rw [answerHello]
  split_ifs
  · exact (leaves_orReport _).bind fun _ => leaves_throw _
  split
  · exact leaves_throw _
  refine (leaves_orReport _).bind fun decoded => ?_
  dsimp only
  split_ifs
  · exact leaves_throw _
  refine (leaves_writePacket _).bind fun _ => ?_
  rw [awaitAck]
  split
  · exact leaves_throw _
  · exact leaves_readPacketWithTimeout.bind fun _ => (leaves_orReport _).bind fun _ =>
      leaves_pure _ le_rfl

end Halves

/-! ### On a connection -/

/-- The bytes a read brings: none at the end of the stream and none with an error. -/
def ReadOp.bytesRead (op : ReadOp) : op.Ans → ℕ
  | .ok bytes => bytes.val.length
  | .error _ => 0

/-- The bytes an operation on a connection brings from the peer; a read whose time is up brings
none. -/
def bytesRead : (op : ConnOp) → op.Ans → ℕ
  | .timed op, some ans => op.bytesRead ans
  | .timed _, none => 0
  | .write _, _ => 0
  | .host _, _ => 0

/-- The bytes an operation on a connection hands over to the peer, which may be fewer than it was
given. -/
def bytesWritten : (op : ConnOp) → op.Ans → ℕ
  | .write _, .ok n => n.val
  | .write _, .error _ => 0
  | .timed _, _ => 0
  | .host _, _ => 0

/-- Every operation counts for one, so that the total over a history is its length. -/
def operations (op : ConnOp) (_ : op.Ans) : ℕ := 1

/-- A rate for each byte that is read and each that is written, an operation that moves none
counting for one, and a price for a question to the operating system. -/
def meter (x y z : ℕ) : (op : ConnOp) → op.Ans → ℕ
  | .timed op, some ans => x * max 1 (op.bytesRead ans)
  | .timed _, none => x
  | .write _, .ok n => y * max 1 n.val
  | .write _, .error _ => y
  | .host _, _ => z

section Meter

variable {x y z : ℕ}

/-- The rates of `meter` for reads that are not under a timeout. -/
abbrev readMeter (x : ℕ) (op : ReadOp) (ans : op.Ans) : ℕ := x * max 1 (op.bytesRead ans)

/-- Reading on until there are `n` bytes costs as much as the missing ones. -/
theorem within_readExactFrom (n : ℕ) (got : List UInt8) :
    (readExactFrom n got).Within (readMeter x) (x * (n - got.length)) := by
  induction hm : n - got.length using Nat.strong_induction_on generalizing got with
  | _ m ih =>
    rw [readExactFrom]
    split_ifs with hlt
    · intro ans
      cases ans with
      | error e =>
        exact ⟨Nat.mul_le_mul_left x (by simp only [ReadOp.bytesRead]; omega), trivial⟩
      | ok bs =>
        have hroom : bs.val.length ≤ n - got.length := bs.property
        by_cases hnil : bs.val = []
        · refine ⟨Nat.mul_le_mul_left x (by simp only [ReadOp.bytesRead]; omega), ?_⟩
          dsimp only
          rw [if_pos hnil]
          trivial
        · have hpos := List.length_pos_iff.2 hnil
          refine ⟨Nat.mul_le_mul_left x (by simp only [ReadOp.bytesRead]; omega), ?_⟩
          dsimp only
          rw [if_neg hnil]
          have hrest : n - (got ++ bs.val).length = m - max 1 bs.val.length := by
            rw [List.length_append]
            omega
          have hnext := ih (m - max 1 bs.val.length) (by omega) (got ++ bs.val) hrest
          rwa [Nat.mul_sub] at hnext
    · trivial

/-- Writing on costs as much as the bytes that are left, in however many pieces they go. -/
theorem within_writeAll (bytes : List UInt8) :
    (writeAll bytes).Within (meter x y z) (y * bytes.length) := by
  induction bytes using writeAll_induction with
  | nil =>
    rw [writeAll, if_pos rfl]
    trivial
  | more bytes hne ih =>
    have hpos := List.length_pos_iff.2 hne
    rw [writeAll, if_neg hne]
    intro ans
    cases ans with
    | error e => exact ⟨Nat.le_mul_of_pos_right y hpos, trivial⟩
    | ok n =>
      have hle := n.property
      refine ⟨Nat.mul_le_mul_left y (by omega), ?_⟩
      dsimp only
      by_cases hzero : n.val = 0
      · rw [if_pos hzero]
        trivial
      · rw [if_neg hzero]
        refine (ih n.val hzero).mono ?_
        rw [List.length_drop, meter, ← Nat.mul_sub]
        exact Nat.mul_le_mul_left y (by omega)

/-- The timer makes nothing dearer: where it wins, the read is dropped and what it had read was paid
for. -/
theorem within_underTimeout {α : Type} {p : ReadProg α} {n : ℕ} (h : p.Within (readMeter x) n) :
    (underTimeout p).Within (meter x y z) n := by
  induction p generalizing n with
  | done a => trivial
  | await op k ih =>
    rw [underTimeout]
    intro ans
    cases ans with
    | none =>
      have hone : x * 1 ≤ n := (h (.error .unexpectedEof)).1
      rw [Nat.mul_one] at hone
      exact ⟨hone, trivial⟩
    | some ans => exact ⟨(h ans).1, ih ans (h ans).2⟩

/-- A packet costs no more bytes than its length field and the longest body, since a longer one is
refused unread. -/
theorem within_readPacket : readPacket.Within (readMeter x) (x * (4 + MAX_PACKET_LEN)) := by
  rw [readPacket, Nat.mul_add]
  refine (within_readExactFrom 4 []).bind fun header => ?_
  cases header with
  | error e => trivial
  | ok header =>
    dsimp only
    split_ifs with hlen
    · trivial
    · have hbody : (readExact (leNat header)).Within (readMeter x) (x * MAX_PACKET_LEN) := by
        refine (within_readExactFrom _ []).mono (Nat.mul_le_mul_left x ?_)
        rw [List.length_nil]
        omega
      refine hbody.bind_free fun body => ?_
      cases body with
      | error _ | ok _ => trivial

/-- What carrying out an operation of the two halves costs at most: a packet that is written has a
length, and one that is read has the longest. -/
def PacketOp.metered (x y z : ℕ) : PacketOp → ℕ
  | .writePacket body => y * (4 + body.length)
  | .readPacketWithTimeout => x * (4 + MAX_PACKET_LEN)
  | .host _ => z

/-- Carrying out an operation on packets costs no more than it is metered at. -/
theorem within_perform (op : PacketOp) :
    (perform op).Within (meter x y z) (op.metered x y z) := by
  cases op with
  | writePacket body =>
    have hframe : (frame body).length = 4 + body.length := by
      rw [frame, List.length_append, length_leBytes]
    have hwrite := within_writeAll (x := x) (y := y) (z := z) (frame body)
    rw [hframe] at hwrite
    refine hwrite.bind_free fun written => ?_
    cases written with
    | error _ | ok _ => trivial
  | readPacketWithTimeout =>
    refine (within_underTimeout within_readPacket).bind_free fun result => ?_
    cases result with
    | none | some _ => trivial
  | host op => exact fun _ => ⟨le_rfl, trivial⟩

instance (op : PacketOp) : Nonempty op.Ans := by
  cases op with
  | writePacket _ | readPacketWithTimeout => exact ⟨.error (.new .io)⟩
  | host op =>
    cases op with
    | peerIdentity => exact ⟨.unknown⟩
    | fillRandom => exact ⟨.error ""⟩
    | processCreationTime _ | verifyProcessImage _ _ => exact ⟨.error (.new .io)⟩

/-- A half whose packets fit is carried out within its prices: one frame of bytes for each packet,
whoever declares its length. -/
theorem within_onConn {α : Type} {post : α → Prop} {half : HandshakeM α} {n : ℕ}
    (hshort : SendsShort post half)
    (h : half.run.Within
      (priced (y * (4 + MAX_PACKET_LEN)) (x * (4 + MAX_PACKET_LEN)) z) n) :
    (onConn half).Within (meter x y z) n := by
  refine Within.interpret within_perform (h.of_awaited fun history op k hreaches ans => ?_)
  cases op with
  | writePacket body =>
    have hfits := hshort.of_reaches hreaches
    exact Nat.mul_le_mul_left y (by omega)
  | readPacketWithTimeout => exact le_rfl
  | host op => exact le_rfl

/-- What the server reads, writes and asks for, with prices for each: two packets out, one in and
five questions. -/
theorem within_server (mac : Mac) (transport : Transport) (mode : HandshakeMode)
    (protocol : Protocol) :
    (onConn (authenticateServer mac transport mode protocol)).Within (meter x y z)
      (2 * (y * (4 + MAX_PACKET_LEN)) + x * (4 + MAX_PACKET_LEN) + 5 * z) :=
  within_onConn (sendsShort_authenticateServer mac transport mode protocol)
    ((leaves_authenticateServer (n := 0) mac transport mode protocol).within.mono (by omega))

/-- What the client reads and writes, with prices for each: one packet out and two in. -/
theorem within_client (mac : Mac) (mode : HandshakeMode) (protocol : Protocol) :
    (onConn (authenticateClient mac mode protocol)).Within (meter x y z)
      (y * (4 + MAX_PACKET_LEN) + 2 * (x * (4 + MAX_PACKET_LEN))) :=
  within_onConn (sendsShort_authenticateClient mac mode protocol)
    ((leaves_authenticateClient (n := 0) mac mode protocol).within.mono (by omega))

end Meter

/-- With reads at a price of one and the rest free, the meter is at least the number of bytes
read. -/
theorem bytesRead_le_meter (op : ConnOp) (ans : op.Ans) :
    bytesRead op ans ≤ meter 1 0 0 op ans := by
  cases op with
  | timed op =>
    cases ans with
    | none => exact Nat.zero_le _
    | some ans =>
      rw [bytesRead, meter, Nat.one_mul]
      exact Nat.le_max_right _ _
  | write _ | host _ => exact Nat.zero_le _

/-- With writes at a price of one and the rest free, the meter is at least the number of bytes
written. -/
theorem bytesWritten_le_meter (op : ConnOp) (ans : op.Ans) :
    bytesWritten op ans ≤ meter 0 1 0 op ans := by
  cases op with
  | write bytes =>
    cases ans with
    | error _ => exact Nat.zero_le _
    | ok n =>
      rw [bytesWritten, meter, Nat.one_mul]
      exact Nat.le_max_right _ _
  | timed _ | host _ => exact Nat.zero_le _

/-- With everything at a price of one, the meter is at least the number of operations, since one
that moves no byte counts for one too. -/
theorem operations_le_meter (op : ConnOp) (ans : op.Ans) :
    operations op ans ≤ meter 1 1 1 op ans := by
  cases op with
  | timed op =>
    cases ans with
    | none => exact le_rfl
    | some ans =>
      rw [meter, Nat.one_mul]
      exact Nat.le_max_left _ _
  | write bytes =>
    cases ans with
    | error _ => exact le_rfl
    | ok n =>
      rw [meter, Nat.one_mul]
      exact Nat.le_max_left _ _
  | host _ => exact le_rfl

/-- What a connection is used for within three budgets: the bytes read, the bytes written, and the
operations. -/
theorem footprint_of_within {α : Type} {p q : ConnProg α} {i j k : ℕ}
    (hread : p.Within (meter 1 0 0) i) (hwritten : p.Within (meter 0 1 0) j)
    (hoperations : p.Within (meter 1 1 1) k) {h : List (Event ConnOp ConnOp.Ans)}
    (hreaches : p.Reaches h q) :
    total bytesRead h ≤ i ∧ total bytesWritten h ≤ j ∧ h.length ≤ k := by
  refine ⟨?_, ?_, ?_⟩
  · exact within_iff.1 (hread.of_awaited fun _ op _ _ => bytesRead_le_meter op) h q hreaches
  · exact within_iff.1 (hwritten.of_awaited fun _ op _ _ => bytesWritten_le_meter op) h q hreaches
  · have hle := within_iff.1 (hoperations.of_awaited fun _ op _ _ => operations_le_meter op) h q
      hreaches
    exact Nat.le_trans (Nat.le_of_eq (total_one h).symm) hle

/-- `STEP_TIMEOUT`: longest a read of a packet may take, in seconds. Writes are not under it. -/
def STEP_TIMEOUT : ℕ := 5

/-- The longest an operation waits for the peer to say something. Only reads of packets are bounded,
by `STEP_TIMEOUT`; `write_packet` has no timeout of its own, and a write is priced at nothing here,
however long the peer leaves the connection full. -/
abbrev patience : (op : PacketOp) → op.Ans → ℕ := priced 0 STEP_TIMEOUT 0

/-- **The cost of a handshake.** Whatever the peer sends and however it splits it, and whatever the
operating system answers: at every point of its handshake the server has read the bytes of one
packet at most and written those of two, in a bounded number of operations, and the client has read
those of two and written those of one. The reads of packets together take the server no longer than
one timeout, and the client no longer than two; this says nothing about the time its writes take,
which have no timeout. -/
theorem handshake_footprint (mac : Mac) (transport : Transport) (mode : HandshakeMode)
    (protocol : Protocol) :
    (∀ h node, (onConn (authenticateServer mac transport mode protocol)).Reaches h node →
      total bytesRead h ≤ 4 + MAX_PACKET_LEN ∧
      total bytesWritten h ≤ 2 * (4 + MAX_PACKET_LEN) ∧
      h.length ≤ 3 * (4 + MAX_PACKET_LEN) + 5) ∧
    (∀ h node, (onConn (authenticateClient mac mode protocol)).Reaches h node →
      total bytesRead h ≤ 2 * (4 + MAX_PACKET_LEN) ∧
      total bytesWritten h ≤ 4 + MAX_PACKET_LEN ∧
      h.length ≤ 3 * (4 + MAX_PACKET_LEN)) ∧
    (∀ h node, (authenticateServer mac transport mode protocol).run.Reaches h node →
      total patience h ≤ STEP_TIMEOUT) ∧
    ∀ h node, (authenticateClient mac mode protocol).run.Reaches h node →
      total patience h ≤ 2 * STEP_TIMEOUT := by
  refine ⟨fun h node hreaches => ?_, fun h node hreaches => ?_, fun h node hreaches => ?_,
    fun h node hreaches => ?_⟩
  · have hserver {x y z : ℕ} := @within_server x y z mac transport mode protocol
    exact footprint_of_within (hserver.mono (by omega)) (hserver.mono (by omega))
      (hserver.mono (by omega)) hreaches
  · have hclient {x y z : ℕ} := @within_client x y z mac mode protocol
    exact footprint_of_within (hclient.mono (by omega)) (hclient.mono (by omega))
      (hclient.mono (by omega)) hreaches
  · have hserver := leaves_authenticateServer (w := 0) (r := STEP_TIMEOUT) (g := 0) (n := 0) mac
      transport mode protocol
    exact within_iff.1 (hserver.within.mono (by omega)) h node hreaches
  · have hclient := leaves_authenticateClient (w := 0) (r := STEP_TIMEOUT) (g := 0) (n := 0) mac
      mode protocol
    exact within_iff.1 (hclient.within.mono (by omega)) h node hreaches

end Ogurpchik
