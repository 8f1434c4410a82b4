import Ogurpchik.Completion
import Ogurpchik.Inbound
import Ogurpchik.Transition

/-!
# Delivery

One side runs the writer, the other reads the connection message by message. This module joins
the two over a reliable channel: the bytes on the wire that the reader has not consumed are
there to be read, in any pieces, and the stream ends when the writer has returned and everything
is read.

The reader is a call of `Inbound::next` in progress. Its invariant looks into the future: for
every continuation of the wire and every split of it into reads, finishing the call and decoding
on gives what the plain decoder makes of the whole wire. A step of the writer fixes a part of the
continuation and a read fixes the head of the split, so both keep the invariant by instantiating
it.

## Main results

* `Reachable.inv`: the invariant holds in every reachable state.
* `delivery`: the messages obtained are a prefix of those sent, and after a writer that ended
  without a failure a reader inevitably obtains all of them and the end of the stream.
-/

namespace Ogurpchik

namespace Delivery

open Async Transition WriteLoop

/-- The reader: in a call of `next`, or past the last one with its result. It calls again after each
message. -/
inductive Reader
  | running (call : ReadM (Option Segments × Inbound))
  | ended (result : Except Fault Unit)

/-- A writer, a reader, the number of bytes the reader has consumed and the messages it has
obtained. -/
structure System where
  writer : WriteLoop.State
  reader : Reader
  consumed : ℕ
  got : List Segments

namespace System

/-- The bytes on their way: written, and not yet read. Nothing on the way is lost or reordered. -/
def channel (s : System) : List UInt8 := s.writer.wire.drop s.consumed

/-- A new connection: nothing is enqueued, and the reader is in its first call. -/
def init (al : Alloc) (limit : Option ℕ) (capacity : ℕ) : System :=
  ⟨.init, .running ((Inbound.new al limit capacity).next al), 0, []⟩

end System

/-- One step of the reader. A read returns some bytes while there are any, unless it has no room
for them, and none when the writer has returned and everything is read. -/
inductive ReaderStep : System → System → Prop
  | read {s : System} {op : ReadOp} {k : op.Ans → ReadM (Option Segments × Inbound)} (n : ℕ)
      (hroom : n ≤ op.room) : s.reader = .running (.await op k) → n ≤ s.channel.length →
      0 < n ∨ op.room = 0 →
      ReaderStep s { s with
        reader := .running (k (.ok ⟨s.channel.take n, (List.length_take_le _ _).trans hroom⟩))
        consumed := s.consumed + n }
  | eof {s : System} {op : ReadOp} {k : op.Ans → ReadM (Option Segments × Inbound)} :
      s.reader = .running (.await op k) → s.channel = [] → s.writer.hasReturned = true →
      ReaderStep s { s with reader := .running (k (.ok ⟨[], Nat.zero_le _⟩)) }
  | message {s : System} {segments : Segments} {inb : Inbound} (al : Alloc) :
      s.reader = .running (.done (.ok (some segments, inb))) →
      ReaderStep s { s with reader := .running (inb.next al), got := s.got ++ [segments] }
  | finish {s : System} {inb : Inbound} :
      s.reader = .running (.done (.ok (none, inb))) →
      ReaderStep s { s with reader := .ended (.ok ()) }
  | fail {s : System} {fault : Fault} : s.reader = .running (.done (.error fault)) →
      ReaderStep s { s with reader := .ended (.error fault) }

/-- One step of the system: of the writer with its senders, or of the reader, in any order. -/
inductive Step : System → System → Prop
  | writer {s : System} {w : WriteLoop.State} :
      WriteLoop.Step s.writer w → Step s { s with writer := w }
  | reader {s t : System} : ReaderStep s t → Step s t

/-- States that some interleaving reaches, from a new connection on. -/
def Reachable (al : Alloc) (limit : Option ℕ) (capacity : ℕ) (s : System) : Prop :=
  Relation.ReflTransGen Step (.init al limit capacity) s

/-! ### The invariant -/

/-- `more` can still arrive behind the wire: anything while the writer runs, and nothing once it is
finished. -/
def Possible (w : WriteLoop.State) (more : List UInt8) : Prop := Finished w → more = []

/-- A call in progress: whatever arrives, in whatever pieces, the call does what the plain
decoder does with the bytes from `base` on, and `base` is what the messages obtained leave of
the wire. -/
structure Reading (limit : Option ℕ) (capacity : ℕ) (s : System)
    (call : ReadM (Option Segments × Inbound)) (base : List UInt8) : Prop where
  refines : ∀ more, Possible s.writer more → ∀ cuts,
    Inbound.Refines call ⟨s.channel ++ more, cuts⟩ capacity limit (base ++ more)
      (tryReadMessage limit (base ++ more))
  stock_eq : ∀ more, Possible s.writer more → stock limit (s.writer.wire ++ more) =
    (s.got ++ (stock limit (base ++ more)).1, (stock limit (base ++ more)).2)

/-- Where the reader stands: in a call it does what a plain decoder does with the bytes behind the
messages it has got, and past the last call it has got what a plain decoder makes of the whole
stream. -/
def ReaderInv (limit : Option ℕ) (capacity : ℕ) (s : System) : Prop :=
  match s.reader with
  | .running call => ∃ base, Reading limit capacity s call base
  | .ended result => ∀ more, Possible s.writer more → ∃ r : Except ErrorKind Unit,
      result = r.mapError .error ∧ stock limit (s.writer.wire ++ more) = (s.got, r)

/-- The invariant of the system: that of the writer, that of the reader, and no byte is read before
it is written. -/
structure Inv (limit : Option ℕ) (capacity : ℕ) (s : System) : Prop where
  writer : WriteLoop.Reachable s.writer
  consumed_le : s.consumed ≤ s.writer.wire.length
  reader : ReaderInv limit capacity s

section Step

variable {limit : Option ℕ} {capacity : ℕ} {s t : System}

/-- The wire may always stay as it is. -/
theorem Possible.nil (w : WriteLoop.State) : Possible w [] := fun _ => rfl

/-- A step of the writer decides how the wire goes on: what can arrive after the step could arrive
before it, behind what the step wrote. -/
theorem Possible.step {w w' : WriteLoop.State} (hs : WriteLoop.Step w w') :
    ∃ ext, w'.wire = w.wire ++ ext ∧
      ∀ more, Possible w' more → Possible w (ext ++ more) := by
  obtain ⟨ext, hext⟩ := hs.wire_isPrefix
  refine ⟨ext, hext.symm, fun more hmore hfin => ?_⟩
  obtain ⟨hfin', hwire⟩ := hfin.step hs
  have hnil : ext = [] := by
    rw [← hext] at hwire
    exact List.append_right_eq_self.mp hwire
  rw [hnil, hmore hfin', List.append_nil]

/-- A step of the writer does not disturb the reader: what it read is in front of what is
written. -/
theorem Inv.writer_step {w : WriteLoop.State} (h : Inv limit capacity s)
    (hs : WriteLoop.Step s.writer w) : Inv limit capacity { s with writer := w } := by
  obtain ⟨ext, hwire, hpossible⟩ := Possible.step hs
  have hle : s.consumed ≤ w.wire.length := by
    rw [hwire, List.length_append]
    exact h.consumed_le.trans (Nat.le_add_right _ _)
  have hchannel : w.wire.drop s.consumed = s.channel ++ ext := by
    rw [hwire, List.drop_append_of_le_length h.consumed_le]
    rfl
  refine ⟨h.writer.tail hs, hle, ?_⟩
  have hreader := h.reader
  rw [ReaderInv] at hreader
  cases hr : s.reader with
  | running call =>
    rw [hr] at hreader
    obtain ⟨base, hread⟩ := hreader
    simp only [ReaderInv]
    refine ⟨base ++ ext, fun more hmore cuts => ?_, fun more hmore => ?_⟩
    · have := hread.refines (ext ++ more) (hpossible more hmore) cuts
      simpa only [System.channel, hchannel, List.append_assoc] using this
    · have := hread.stock_eq (ext ++ more) (hpossible more hmore)
      simpa only [hwire, List.append_assoc] using this
  | ended result =>
    rw [hr] at hreader
    simp only [ReaderInv]
    intro more hmore
    have := hreader (ext ++ more) (hpossible more hmore)
    simpa only [hwire, List.append_assoc] using this

/-- The call a running reader is in. -/
theorem Inv.reading (h : Inv limit capacity s) {call : ReadM (Option Segments × Inbound)}
    (hr : s.reader = .running call) : ∃ base, Reading limit capacity s call base := by
  have hreader := h.reader
  rwa [ReaderInv, hr] at hreader

/-- What a reader that ended has obtained. -/
theorem Inv.ended (h : Inv limit capacity s) {result : Except Fault Unit}
    (hr : s.reader = .ended result) : ∃ r : Except ErrorKind Unit,
      result = r.mapError .error ∧ stock limit s.writer.wire = (s.got, r) := by
  have hreader := h.reader
  rw [ReaderInv, hr] at hreader
  obtain ⟨r, hresult, hstock⟩ := hreader [] (.nil _)
  rw [List.append_nil] at hstock
  exact ⟨r, hresult, hstock⟩

/-- A call that was given `n` bytes of the channel goes on, with the channel that much shorter. -/
theorem Reading.read {op : ReadOp} {k : op.Ans → ReadM (Option Segments × Inbound)}
    {base : List UInt8} {n : ℕ} (h : Reading limit capacity s (.await op k) base)
    (hroom : n ≤ op.room) (hn : n ≤ s.channel.length) (hpos : 0 < n ∨ op.room = 0) :
    Reading limit capacity
      { s with
        reader := .running (k (.ok ⟨s.channel.take n, (List.length_take_le _ _).trans hroom⟩))
        consumed := s.consumed + n }
      (k (.ok ⟨s.channel.take n, (List.length_take_le _ _).trans hroom⟩)) base := by
  refine ⟨fun more hmore cuts => ?_, h.stock_eq⟩
  have hchannel : s.writer.wire.drop (s.consumed + n) = s.channel.drop n := List.drop_drop.symm
  change Inbound.Refines _ ⟨s.writer.wire.drop (s.consumed + n) ++ more, cuts⟩ _ _ _ _
  rw [hchannel]
  refine Inbound.Refines.read _ (fun hnil => .inl ?_) (fun cuts => ?_) cuts
  · have := congrArg List.length hnil
    rw [List.length_take_of_le hn, List.length_nil] at this
    omega
  · rw [← List.append_assoc, List.take_append_drop]
    exact h.refines more hmore cuts

/-- A call that was told the end of the stream goes on. Nothing more can arrive, so the end is what
a plain decoder would see as well. -/
theorem Reading.eof {op : ReadOp} {k : op.Ans → ReadM (Option Segments × Inbound)}
    {base : List UInt8} (h : Reading limit capacity s (.await op k) base)
    (hnil : s.channel = []) (hret : s.writer.hasReturned = true) :
    Reading limit capacity { s with reader := .running (k (.ok ⟨[], Nat.zero_le _⟩)) }
      (k (.ok ⟨[], Nat.zero_le _⟩)) base := by
  refine ⟨fun more hmore cuts => ?_, h.stock_eq⟩
  -- a returned writer adds nothing, so the stream is at its end
  obtain rfl : more = [] := hmore (Finished.of_hasReturned hret)
  rw [System.channel] at hnil
  change Inbound.Refines _ ⟨s.writer.wire.drop s.consumed ++ [], cuts⟩ _ _ _ _
  rw [hnil]
  refine Inbound.Refines.read (Nat.zero_le _) (fun _ => .inr rfl) (fun cuts => ?_) cuts
  have := h.refines [] hmore cuts
  rwa [System.channel, hnil] at this

/-- A call that returned a message: the decoder stands before the next one. -/
theorem Reading.message {segments : Segments} {inb : Inbound} {base : List UInt8}
    (h : Reading limit capacity s (.done (.ok (some segments, inb))) base) (al : Alloc) :
    Reading limit capacity
      { s with reader := .running (inb.next al), got := s.got ++ [segments] }
      (inb.next al) (inb.unread ++ s.channel) := by
  -- for every continuation the decoder parsed this message and left this much
  have hparse : ∀ more, Possible s.writer more → ∀ cuts,
      tryReadMessage limit (base ++ more) =
          .message segments (inb.unread ++ s.channel ++ more) ∧
        Inbound.At inb ⟨s.channel ++ more, cuts⟩ capacity limit
          (inb.unread ++ s.channel ++ more) := by
    intro more hmore cuts
    obtain ⟨rest, hp, hat⟩ := (h.refines more hmore cuts).of_message
    have hrest : inb.unread ++ s.channel ++ more = rest := by
      rw [List.append_assoc]
      exact hat.bytes_eq
    rw [hrest]
    exact ⟨hp, hat⟩
  refine ⟨fun more hmore cuts => Inbound.next_refines al (hparse more hmore cuts).2,
    fun more hmore => ?_⟩
  have hstock := h.stock_eq more hmore
  rw [stock_of_message (hparse more hmore (Stream'.const 0)).1] at hstock
  rw [hstock, List.append_assoc s.got]
  rfl

/-- A call that returned the end of the stream or an error: the reader has ended with what a plain
decoder ends with. -/
theorem Reading.ended {base : List UInt8} {result : Except Fault Unit}
    {call : ReadM (Option Segments × Inbound)} (h : Reading limit capacity s call base)
    (hcall : (∃ inb, call = .done (.ok (none, inb)) ∧ result = .ok ()) ∨
      ∃ fault, call = .done (.error fault) ∧ result = .error fault) :
    ReaderInv limit capacity { s with reader := .ended result } := by
  intro more hmore
  have href := h.refines more hmore (Stream'.const 0)
  have hstock := h.stock_eq more hmore
  rcases hcall with ⟨inb, rfl, rfl⟩ | ⟨fault, rfl, rfl⟩
  · rw [stock_of_clean href.of_end.1, List.append_nil] at hstock
    exact ⟨.ok (), rfl, hstock⟩
  · obtain ⟨kind, rfl, hp⟩ := href.of_error
    rw [stock_of_fail hp, List.append_nil] at hstock
    exact ⟨.error kind, rfl, hstock⟩

/-- Every step of the reader keeps the invariant: one case for each way a call can go on. -/
theorem Inv.reader_step (h : Inv limit capacity s) (hs : ReaderStep s t) :
    Inv limit capacity t := by
  cases hs with
  | read n hroom hr hn hpos =>
    obtain ⟨base, hread⟩ := h.reading hr
    refine ⟨h.writer, ?_, base, hread.read hroom hn hpos⟩
    rw [System.channel, List.length_drop] at hn
    have := h.consumed_le
    dsimp only
    omega
  | eof hr hnil hret =>
    obtain ⟨base, hread⟩ := h.reading hr
    exact ⟨h.writer, h.consumed_le, base, hread.eof hnil hret⟩
  | @message segments inb al hr =>
    obtain ⟨base, hread⟩ := h.reading hr
    exact ⟨h.writer, h.consumed_le, inb.unread ++ s.channel, hread.message al⟩
  | @finish inb hr =>
    obtain ⟨base, hread⟩ := h.reading hr
    exact ⟨h.writer, h.consumed_le, hread.ended (.inl ⟨inb, rfl, rfl⟩)⟩
  | @fail fault hr =>
    obtain ⟨base, hread⟩ := h.reading hr
    exact ⟨h.writer, h.consumed_le, hread.ended (.inr ⟨fault, rfl, rfl⟩)⟩

end Step

/-- The invariant holds in every reachable state. Steps of the writer keep it by `Possible.step`. -/
theorem Reachable.inv {al : Alloc} {limit : Option ℕ} {capacity : ℕ} {s : System}
    (h : Reachable al limit capacity s) : Inv limit capacity s := by
  induction h with
  | refl =>
    refine ⟨.refl, le_rfl, [], fun more _ cuts => ?_, fun more _ => rfl⟩
    exact Inbound.next_refines al (Inbound.at_new al limit capacity ⟨more, cuts⟩)
  | tail _ hs ih =>
    cases hs with
    | writer hw => exact ih.writer_step hw
    | reader hr => exact ih.reader_step hr

/-- A run of the writer alone is a run of the system. -/
theorem Reachable.writer_run (al : Alloc) (limit : Option ℕ) (capacity : ℕ)
    {w : WriteLoop.State} (h : WriteLoop.Reachable w) :
    Reachable al limit capacity { System.init al limit capacity with writer := w } := by
  induction h with
  | refl => exact .refl
  | tail _ hs ih => exact ih.tail (.writer hs)

/-! ### What arrives -/

section Arrival

variable {limit : Option ℕ} {capacity : ℕ} {s t : System}

/-- The messages obtained are among those the plain decoder finds on the wire. -/
theorem Inv.got_isPrefix (h : Inv limit capacity s) :
    s.got <+: (stock limit s.writer.wire).1 := by
  cases hr : s.reader with
  | running call =>
    obtain ⟨base, hread⟩ := h.reading hr
    have hstock := hread.stock_eq [] (.nil _)
    rw [List.append_nil] at hstock
    rw [hstock]
    exact List.prefix_append _ _
  | ended result =>
    obtain ⟨r, -, hstock⟩ := h.ended hr
    rw [hstock]

/-- The wire carries a front of the messages enqueued before the first `Done`. -/
theorem wire_isPrefix {w : WriteLoop.State} (h : WriteLoop.Reachable w) :
    w.wire <+: bytesOf (beforeDone w.enqueued) := by
  obtain ⟨ms, a, done, hr⟩ := h.inv.record
  obtain ⟨rest, hrest⟩ := hr.dequeued
  rw [← hrest, List.append_assoc, beforeDone_messageItems]
  exact hr.wire_isPrefix.trans (bytesOf_isPrefix (List.prefix_append _ _))

/-- The messages obtained are a front of those enqueued before the first `Done`. -/
theorem Inv.got_isPrefix_sent (h : Inv limit capacity s) :
    s.got <+: segmentsOf (beforeDone s.writer.enqueued) := by
  obtain ⟨rest, hrest⟩ := wire_isPrefix h.writer
  calc s.got
    _ <+: (stock limit s.writer.wire).1 := h.got_isPrefix
    _ <+: (stock limit (s.writer.wire ++ rest)).1 := stock_append_isPrefix limit _ _
    _ = (stock limit (serializeAll (segmentsOf (beforeDone s.writer.enqueued)))).1 := by
      rw [hrest, bytesOf]
    _ <+: segmentsOf (beforeDone s.writer.enqueued) := stock_serializeAll_isPrefix limit _

/-- What a writer that ended without a failure leaves on the wire: a stream that a plain decoder
reads to a clean end, message by message. -/
theorem stock_of_ended {w : WriteLoop.State} (h : WriteLoop.Reachable w)
    (hret : w.hasReturned = true) (hok : w.failure = none)
    (hacc : ∀ m ∈ beforeDone w.enqueued, Acceptable limit m) :
    stock limit w.wire = (segmentsOf (beforeDone w.enqueued), .ok ()) := by
  cases h.inv with
  | live ms a done hl hp => exact absurd hret (ne_true_of_eq_false hp.hasReturned)
  | ended ms a done result hpc hr he =>
    obtain ⟨hms, hwire⟩ := he.complete hok
    rw [hwire, ← hms]
    exact stock_serializeAll hacc

/-- Before the reader has ended it can always step, once the writer has returned. -/
theorem reader_progress (hret : s.writer.hasReturned = true)
    {call : ReadM (Option Segments × Inbound)} (hr : s.reader = .running call) :
    ∃ t, ReaderStep s t := by
  cases call with
  | done a =>
    match a with
    | .ok (some segments, inb) => exact ⟨_, .message .exact hr⟩
    | .ok (none, inb) => exact ⟨_, .finish hr⟩
    | .error fault => exact ⟨_, .fail hr⟩
  | await op k =>
    by_cases hroom : op.room = 0
    · exact ⟨_, .read 0 (Nat.zero_le _) hr (Nat.zero_le _) (.inr hroom)⟩
    by_cases hnil : s.channel = []
    · exact ⟨_, .eof hr hnil hret⟩
    · exact ⟨_, .read 1 (Nat.pos_of_ne_zero hroom) hr (List.length_pos_iff.mpr hnil)
        (.inl Nat.one_pos)⟩

/-- The reader's measure: the messages it has still to obtain, then the call it is in. -/
def measure (limit : Option ℕ) (s : System) :
    ℕ × ReadProg (Except Fault (Option Segments × Inbound)) :=
  match s.reader with
  | .running call => ((stock limit s.writer.wire).1.length - s.got.length + 1, call)
  | .ended _ => (0, .done (.error .panic))

/-- Every step of the reader lowers its measure: a call goes on with less of its tree, and a new
call has fewer messages in front of it. -/
theorem measure_lt (h : Inv limit capacity s) (hs : ReaderStep s t) :
    Prod.Lex (· < ·) Prog.Child (measure limit t) (measure limit s) := by
  have hlen := (h.reader_step hs).got_isPrefix.length_le
  cases hs with
  | read n hroom hr hn hpos =>
    simp only [measure, hr]
    exact .right _ (.intro _)
  | eof hr hnil hret =>
    simp only [measure, hr]
    exact .right _ (.intro _)
  | message al hr =>
    simp only [measure, hr, List.length_append, List.length_singleton] at hlen ⊢
    exact .left _ _ (by omega)
  | finish hr | fail hr =>
    simp only [measure, hr]
    exact .left _ _ (Nat.succ_pos _)

/-- The reader has no influence on the writer. -/
theorem ReaderStep.writer_eq (hs : ReaderStep s t) : t.writer = s.writer := by
  cases hs <;> rfl

end Arrival

/-- **End-to-end delivery.** In every reachable state of a writer and a reader the messages
obtained are a front of the messages enqueued before the first `Done`, in order and unaltered.
Once the writer has returned without a failure, and if the reader's limits admit all of these
messages, the reader inevitably obtains all of them and then the end of the stream. -/
theorem delivery {al : Alloc} {limit : Option ℕ} {capacity : ℕ} {s : System}
    (h : Reachable al limit capacity s) :
    s.got <+: segmentsOf (beforeDone s.writer.enqueued) ∧
    (s.writer.hasReturned = true → s.writer.failure = none →
      (∀ m ∈ beforeDone s.writer.enqueued, Acceptable limit m) →
      Inevitable ReaderStep
        (fun t => t.reader = .ended (.ok ()) ∧
          t.got = segmentsOf (beforeDone s.writer.enqueued)) s) := by
  refine ⟨h.inv.got_isPrefix_sent, fun hret hok hacc => ?_⟩
  have hstock := stock_of_ended h.inv.writer hret hok hacc
  -- the writer stays as it is while the reader goes on
  refine .of_wellFounded (WellFounded.prod_lex Nat.lt_wfRel.wf Prog.child_wf) (measure limit)
    (fun t => Inv limit capacity t ∧ t.writer = s.writer) ?_ ?_ ⟨h.inv, rfl⟩
  · rintro t ⟨hinv, hw⟩
    cases hr : t.reader with
    | running call => exact .inr (reader_progress (hw ▸ hret) hr)
    | ended result =>
      obtain ⟨r, rfl, hgot⟩ := hinv.ended hr
      rw [hw, hstock] at hgot
      obtain ⟨hall, rfl⟩ := Prod.mk.inj hgot
      exact .inl ⟨rfl, hall.symm⟩
  · rintro t u ⟨hinv, hw⟩ hs
    exact ⟨⟨hinv.reader_step hs, hs.writer_eq.trans hw⟩, measure_lt hinv hs⟩

/-- A writer that was sent a message and a `Done`, and has written, flushed and answered both. -/
theorem exists_returned :
    ∃ w, WriteLoop.Reachable w ∧ w.hasReturned = true ∧ w.failure = none ∧
      beforeDone w.enqueued = [.sample] := by
  have h1 : WriteLoop.Reachable _ :=
    .tail (.tail .refl (.send .sample rfl)) (.shutdown (.ok ()) rfl)
  have h2 : WriteLoop.Reachable _ :=
    .tail (.tail h1 (.recv .exact rfl rfl)) (.tryRecv .exact rfl rfl)
  have h3 : WriteLoop.Reachable _ := .tail (h2.flush_batch rfl) (.signal rfl rfl)
  exact ⟨_, .tail (.tail h3 (.signalled rfl rfl)) (.returnDone rfl), rfl, rfl, rfl⟩

/-- The writer has sent a message and returned; the reader has not begun. -/
theorem delivery_sample :
    ∃ s, Reachable .exact (some 3) 0 s ∧ Inevitable ReaderStep
      (fun t => t.reader = .ended (.ok ()) ∧ t.got = segmentsOf [.sample]) s := by
  obtain ⟨w, hw, hret, hok, hsent⟩ := exists_returned
  have hs := Reachable.writer_run .exact (some 3) 0 hw
  have harrives := (delivery hs).2 hret hok
  simp only [hsent, List.forall_mem_singleton] at harrives
  exact ⟨_, hs, harrives ⟨by decide, by decide⟩⟩

end Delivery

end Ogurpchik
