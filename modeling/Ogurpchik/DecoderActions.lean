import Mathlib.Logic.Relation
import Ogurpchik.Inbound

/-!
# What the Decoder Does

`Inbound.next` shows the reads it awaits and what it returns. What a peer can make it do on the way
does not show: how far the staging buffer grows, which buffers are allocated for messages, and
whether a slice or a difference stays within its bounds, since a panic is only one more result.

The decoder is therefore written once more so that all of this is an action of its own. Every slice,
copy, difference, sum and product of the source is one, before it is carried out (`Check`); so is
every assignment to the decoder, also the one that takes the staging buffer away while a read is in
flight, every call of `fill`, and the allocation of a message buffer. Leaving the further actions
out gives `Inbound.next` again (`forget_next`), so what is proved of the actions is proved of the
decoder.

A `Session` makes any number of calls on one decoder, also behind errors, with any answers to the
reads; a call may be dropped at any point. `Ogurpchik.DecoderBounds` proves that every action of a
session is within its bounds, and `Ogurpchik.Buffering` what follows for the memory a peer can make
the decoder use.

## Main definitions

* `Check`, `Check.Holds`: operations that have bounds.
* `Act`, `next`: the decoder with all its actions.
* `Declares`, `messageLen`: what a table announces.
* `Session`, `Step`, `Reachable`: calls on one decoder, action by action.

## Main results

* `forget_next`: the decoder without the further actions is `Inbound.next`.
-/

namespace Ogurpchik

namespace Decoder

open Async LittleEndian

/-! ### The decoder with its actions -/

/-- An operation of the source that has bounds. Out of them it panics; a sum or a product would wrap
around without a trace in a release build. -/
inductive Check
  /-- `bytes[lo..hi]`, for `len` bytes. -/
  | slice (len lo hi : ℕ)
  /-- `target.copy_from_slice(source)`, for the two lengths. -/
  | copy (target source : ℕ)
  /-- `a - b`. -/
  | sub (a b : ℕ)
  /-- A sum or a product with the value `n`. -/
  | usize (n : ℕ)
  deriving DecidableEq, Repr

/-- The operation stays within its bounds: where it does not, the source panics, or wraps around in
a release build. -/
def Check.Holds : Check → Prop
  | slice len lo hi => lo ≤ hi ∧ hi ≤ len
  | copy target source => target = source
  | sub a b => b ≤ a
  | usize n => n < 2 ^ 64

/-- What a call does: it awaits a read, assigns the fields of the decoder, comes to an operation
that has bounds, calls `fill`, allocates the buffer of a message. -/
inductive Act
  | read (op : ReadOp)
  | store (inb : Inbound)
  | check (c : Check)
  | fill (needed : ℕ)
  | allocate (bytes : ℕ)

/-- The answers; only reads have one to speak of, and the other actions are there to be observed. -/
abbrev Act.Ans : Act → Type
  | read op => op.Ans
  | store _ => Unit
  | check _ => Unit
  | fill _ => Unit
  | allocate _ => Unit

/-- Programs of actions: the decoder, up to everything it does that has a bound. -/
abbrev ActProg := Prog Act Act.Ans

/-- Programs of actions that may fail, so that `do` reads as the source with its `?`. -/
abbrev ActM := ExceptT Fault ActProg

/-- Code that only reads, as code of actions: each of its reads is the action of reading. -/
def reading {α : Type} (x : ReadM α) : ActM α :=
  Prog.interpretT (fun op => .await (.read op) .done) x

/-- Returning a value reads nothing. -/
theorem reading_pure {α : Type} (a : α) : reading (pure a) = pure a := rfl

/-- `self` is assigned: from here on this is the decoder that a dropped call leaves behind. -/
def store (inb : Inbound) : ActM Unit := ExceptT.mk (.await (.store inb) fun _ => .done (.ok ()))

/-- An operation with bounds is next. That it holds is not assumed but proved, in
`DecoderBounds`. -/
def check (c : Check) : ActM Unit := ExceptT.mk (.await (.check c) fun _ => .done (.ok ()))

/-- `fill` is called, and the reads on its behalf are counted from here. -/
def enter (needed : ℕ) : ActM Unit := ExceptT.mk (.await (.fill needed) fun _ => .done (.ok ()))

/-- `into_owned_segments` allocates the buffer of a message, of as many bytes as the table has
announced. -/
def allocate (bytes : ℕ) : ActM Unit :=
  ExceptT.mk (.await (.allocate bytes) fun _ => .done (.ok ()))

/-- `bytes[lo..hi]`, with its bounds mentioned before it is taken. -/
def slice (bytes : List UInt8) (lo hi : ℕ) : ActM (List UInt8) := do
  check (.slice bytes.length lo hi)
  reading (Ogurpchik.slice bytes lo hi)

/-- `self.staging.drain(..self.pos)`, which is a slice of the buffer and has the bounds of one. -/
def compact (inb : Inbound) : ActM Unit := do
  if 0 < inb.pos then check (.slice inb.staging.len 0 inb.pos)
  store inb.compact

/-- `self.staging.reserve_exact(wanted - self.staging.len())`, which adds the two again. -/
def grow (al : Alloc) (inb : Inbound) (needed : ℕ) : ActM Unit := do
  let wanted := max inb.capacity needed
  if inb.staging.cap < wanted then
    check (.sub wanted inb.staging.len)
    check (.usize (inb.staging.len + (wanted - inb.staging.len)))
  store (inb.grow al needed)

/-- `reader.append(std::mem::take(&mut self.staging)).await`: the buffer is away during the read,
and back behind it, also when the read failed. -/
def appendTo (inb : Inbound) : ActM { bs : List UInt8 // bs.length ≤ inb.staging.room } :=
  ExceptT.mk (.await (.store { inb with staging := .new }) fun _ =>
    .await (.read (.append inb.staging)) fun
      | .ok bs => .await (.store (inb.refill bs)) fun _ => .done (.ok bs)
      | .error e => .await (.store inb) fun _ => .done (.error (.error (.ofIo e))))

/-- The loop of `fill`, with the difference that it computes in each round, its two assignments and
its read. -/
def fillLoop (al : Alloc) (inb : Inbound) (needed : ℕ) (eofOk : Bool) : ActM (Bool × Inbound) := do
  check (.sub inb.staging.len inb.pos)
  if inb.staging.len < inb.pos then throw .panic
  else if inb.staging.len - inb.pos < needed then
    compact inb
    grow al inb.compact needed
    let bytes ← appendTo (inb.ready al needed)
    if bytes.val = [] then
      if eofOk && ((inb.ready al needed).refill bytes).staging.data.isEmpty then
        pure (false, (inb.ready al needed).refill bytes)
      else throw (.error .prematureEndOfFile)
    else fillLoop al ((inb.ready al needed).refill bytes) needed eofOk
  else pure (true, inb)
termination_by needed - (inb.staging.len - inb.pos)
decreasing_by
  exact Inbound.fill_decreases al ‹_› ‹_›

/-- `fill`, with its call mentioned, so that its reads can be counted. -/
def fill (al : Alloc) (inb : Inbound) (needed : ℕ) (eofOk : Bool) : ActM (Bool × Inbound) := do
  enter needed
  fillLoop al inb needed eofOk

/-- `word_at`, with its index arithmetic, the slice, and the copy into an array of four bytes. -/
def wordAt (inb : Inbound) (index : ℕ) : ActM UInt32 := do
  check (.usize (index * 4))
  check (.usize (inb.pos + index * 4))
  check (.usize (inb.pos + index * 4 + 4))
  let word ← slice inb.staging.data (inb.pos + index * 4) (inb.pos + index * 4 + 4)
  check (.copy 4 word.length)
  pure (UInt32.ofNat (leNat word))

/-- The loop over the table entries, with the sum inside `try_push_segment`, which fails and does
not wrap around. -/
def pushLengths (inb : Inbound) : ℕ → ℕ → SegmentLengths → ActM SegmentLengths
  | 0, _, lengths => pure lengths
  | remaining + 1, index, lengths => do
      check (.usize (index + 1))
      let word ← wordAt inb (index + 1)
      check (.usize (lengths.totalWords + word.toNat))
      let lengths ← reading (lengths.tryPushSegment word.toNat)
      pushLengths inb remaining (index + 1) lengths

/-- `self.pos += n`, with its sum, and the decoder assigned. -/
def advance (inb : Inbound) (n : ℕ) : ActM Inbound := do
  check (.usize (inb.pos + n))
  store (inb.advance n)
  pure (inb.advance n)

/-- The body through the staging buffer: filled, sliced, copied out and used up, each with its
bounds. -/
def stagedBody (al : Alloc) (inb : Inbound) (bodyLen : ℕ) : ActM (List UInt8 × Inbound) := do
  let (_, inb) ← fill al inb bodyLen false
  check (.usize (inb.pos + bodyLen))
  let body ← slice inb.staging.data inb.pos (inb.pos + bodyLen)
  check (.copy bodyLen body.length)
  let inb ← advance inb bodyLen
  pure (body, inb)

/-- `read_exact` into a `Body` of `bodyLen` bytes from `buffered` on, of which `got` are there. The
initialised part of the body and the part that is offered are slices of the segments. -/
def readBody (bodyLen buffered : ℕ) (got : List UInt8) : ActProg (Except IoError (List UInt8)) :=
  if got.length < bodyLen - buffered then
    .await (.check (.slice bodyLen 0 (buffered + got.length))) fun _ =>
      .await (.check (.slice bodyLen (buffered + got.length) bodyLen)) fun _ =>
        .await (.read (.read (bodyLen - buffered - got.length))) fun
          | .error e => .done (.error e)
          | .ok bs =>
              if bs.val = [] then .done (.error .unexpectedEof)
              else readBody bodyLen buffered (got ++ bs.val)
  else .done (.ok got)
termination_by bodyLen - buffered - got.length
decreasing_by
  rename_i hlt hne
  have hpos := List.length_pos_iff.mpr hne
  rw [List.length_append]
  omega

/-- The direct read, with an I/O error reported as the error it converts to, as `?` does it. -/
def readDirect (bodyLen buffered : ℕ) : ActM (List UInt8) :=
  ExceptT.mk ((readBody bodyLen buffered []).bind fun
    | .ok bs => .done (.ok bs)
    | .error e => .done (.error (.error (.ofIo e))))

/-- The body read directly into its own buffer: what is staged of it is copied, and the rest is read
behind that. -/
def directBody (inb : Inbound) (bodyLen : ℕ) : ActM (List UInt8 × Inbound) := do
  check (.sub inb.staging.len inb.pos)
  if inb.staging.len < inb.pos then throw .panic
  else
    let buffered := min (inb.staging.len - inb.pos) bodyLen
    check (.slice bodyLen 0 buffered)
    check (.usize (inb.pos + buffered))
    let front ← slice inb.staging.data inb.pos (inb.pos + buffered)
    check (.copy buffered front.length)
    let inb ← advance inb buffered
    let rest ← readDirect bodyLen buffered
    pure (front ++ rest, inb)

/-- The body of a message whose table was read, through the staging buffer or directly, by its
size. -/
def body (al : Alloc) (inb : Inbound) (bodyLen : ℕ) : ActM (List UInt8 × Inbound) :=
  if bodyLen ≤ inb.capacity then stagedBody al inb bodyLen else directBody inb bodyLen

/-- The part of `next` behind the segment count: the table, the limit, the buffer, the body. The
buffer is allocated only behind the check of the limit. -/
def message (al : Alloc) (inb : Inbound) (count : ℕ) : ActM (Option Segments × Inbound) := do
  check (.usize (count + 1))
  check (.usize (4 * (count + 1)))
  check (.usize (tableLen count))
  let (_, inb) ← fill al inb (tableLen count) false
  let lengths ← pushLengths inb count 0 .empty
  if exceeds inb.limit lengths.totalWords then
    throw (.error (.messageTooLarge lengths.totalWords))
  else
    let inb ← advance inb (tableLen count)
    check (.usize (lengths.totalWords * WORD))
    let bodyLen ← reading (usize (lengths.totalWords * WORD))
    allocate bodyLen
    let (bytes, inb) ← body al inb bodyLen
    pure (some (splitSegments lengths.lengths bytes), inb)

/-- `next`, with everything that has a bound mentioned where the source does it. -/
def next (al : Alloc) (inb : Inbound) : ActM (Option Segments × Inbound) := do
  let (more, inb) ← fill al inb WORD true
  if more = false then pure (none, inb)
  else
    let word ← wordAt inb 0
    let count := (word + 1).toNat
    if count = 0 ∨ SEGMENTS_COUNT_LIMIT ≤ count then
      throw (.error (.invalidNumberOfSegments count))
    else message al inb count

/-! ### Without the further actions -/

/-- Carry out reads and skip everything else, which is how the decoder of actions is compared with
that of `Inbound`. -/
def skip : (act : Act) → ReadProg act.Ans
  | .read op => .await op .done
  | .store _ => .done ()
  | .check _ => .done ()
  | .fill _ => .done ()
  | .allocate _ => .done ()

/-- Code without its further actions: what is left is code that reads. -/
def forget {α : Type} (x : ActM α) : ReadM α := Prog.interpretT skip x

section Forget

variable {α β : Type}

/-- Returning a value has no further action to skip. -/
@[simp] theorem forget_pure (a : α) : forget (pure a) = pure a := Prog.interpretT_pure a

/-- A failure stays the failure it is. -/
@[simp] theorem forget_throw (e : Fault) : forget (throw e : ActM α) = throw e :=
  Prog.interpretT_throw e

/-- The further actions of a sequence are skipped part by part. -/
@[simp] theorem forget_bind (x : ActM α) (f : α → ActM β) :
    forget (x >>= f) = forget x >>= fun a => forget (f a) :=
  Prog.interpretT_bind x f

/-- A result may be changed before or behind the skipping. -/
@[simp] theorem forget_map (f : α → β) (x : ActM α) : forget (f <$> x) = f <$> forget x := by
  rw [map_eq_pure_bind, map_eq_pure_bind, forget_bind]
  rfl

/-- A branch is taken before its further actions are skipped. -/
@[simp] theorem forget_ite {p : Prop} [Decidable p] (x y : ActM α) :
    forget (if p then x else y) = if p then forget x else forget y :=
  Prog.interpretT_ite x y

/-- An assignment is skipped: the decoder of the model is passed on as a value. -/
@[simp] theorem forget_store (inb : Inbound) : forget (store inb) = pure () := rfl

/-- The mention of an operation that has bounds is skipped; the operation itself is not. -/
@[simp] theorem forget_check (c : Check) : forget (check c) = pure () := rfl

/-- So is the mention of a call of `fill`. -/
@[simp] theorem forget_enter (needed : ℕ) : forget (enter needed) = pure () := rfl

/-- So is the mention of an allocation. -/
@[simp] theorem forget_allocate (bytes : ℕ) : forget (allocate bytes) = pure () := rfl

/-- Code that only reads is left as it is. -/
@[simp] theorem forget_reading (x : ReadM α) : forget (reading x) = x :=
  (Prog.interpret_interpret _ skip x.run).trans (Prog.interpret_await_done x.run)

/-- A slice is the slice of the decoder, panics included. -/
@[simp] theorem forget_slice (bytes : List UInt8) (lo hi : ℕ) :
    forget (slice bytes lo hi) = Ogurpchik.slice bytes lo hi := by
  simp [slice]

/-- Draining the buffer only checks and assigns. -/
@[simp] theorem forget_compact (inb : Inbound) : forget (compact inb) = pure () := by
  simp [compact]

/-- Growing the buffer only checks and assigns. -/
@[simp] theorem forget_grow (al : Alloc) (inb : Inbound) (needed : ℕ) :
    forget (grow al inb needed) = pure () := by
  simp [grow]

/-- An appending read is the read of the decoder, whether it fails or not. -/
@[simp] theorem forget_appendTo (inb : Inbound) :
    forget (appendTo inb) = Ogurpchik.appendTo inb.staging := by
  refine congrArg (Prog.await (ReadOp.append inb.staging)) (funext fun ans => ?_)
  cases ans with
  | ok bs => rfl
  | error e => rfl

/-- `fill` is `fill`: the induction is along its loop, and the two agree read by read. -/
@[simp] theorem forget_fill (al : Alloc) (inb : Inbound) (needed : ℕ) (eofOk : Bool) :
    forget (fill al inb needed eofOk) = inb.fill al needed eofOk := by
  have hloop : forget (fillLoop al inb needed eofOk) = inb.fill al needed eofOk := by
    induction inb using Inbound.fill_induction al needed with
    | step inb ih =>
      rw [fillLoop, Inbound.fill]
      simp only [forget_bind, forget_check, pure_bind, forget_ite, forget_throw, forget_compact,
        forget_grow, forget_appendTo, forget_pure]
      split_ifs with hpanic hlt
      · rfl
      · congr 1
        funext bytes
        split_ifs with hnil
        · rfl
        · rfl
        · exact ih bytes hlt hnil
      · rfl
  simp [fill, hloop]

/-- A word of the table is the word of the decoder. -/
@[simp] theorem forget_wordAt (inb : Inbound) (index : ℕ) :
    forget (wordAt inb index) = inb.wordAt index := by
  simp [wordAt, Inbound.wordAt]

/-- So are the sizes of the segments, by induction on how many are left. -/
@[simp] theorem forget_pushLengths (inb : Inbound) (remaining index : ℕ)
    (lengths : SegmentLengths) :
    forget (pushLengths inb remaining index lengths) =
      inb.pushLengths remaining index lengths := by
  induction remaining generalizing index lengths with
  | zero => rfl
  | succ remaining ih => simp [pushLengths, Inbound.pushLengths, ih]

/-- The offset moves on as in the decoder. -/
@[simp] theorem forget_advance (inb : Inbound) (n : ℕ) :
    forget (advance inb n) = pure (inb.advance n) := by
  simp [advance]

/-- The loop of the direct read is that of `read_exact` on what is missing of the body. -/
theorem interpret_readBody (bodyLen buffered : ℕ) (got : List UInt8) :
    (readBody bodyLen buffered got).interpret skip =
      readExactFrom (bodyLen - buffered) got := by
  induction hm : bodyLen - buffered - got.length using Nat.strong_induction_on
    generalizing got with
  | _ m ih =>
    rw [readBody, readExactFrom]
    split_ifs with hlt
    · refine congrArg (Prog.await _) (funext fun ans => ?_)
      cases ans with
      | error e => rfl
      | ok bs =>
        dsimp only [Prog.bind]
        split_ifs with hnil
        · rfl
        · have hpos := List.length_pos_iff.mpr hnil
          refine ih _ ?_ _ rfl
          rw [List.length_append]
          omega
    · rfl

/-- So the direct read is the direct read of the decoder. -/
@[simp] theorem forget_readDirect (bodyLen buffered : ℕ) :
    forget (readDirect bodyLen buffered) = readExactly (bodyLen - buffered) := by
  refine (Prog.interpret_bind skip _ _).trans ?_
  rw [interpret_readBody]
  refine congrArg (Prog.bind _) (funext fun r => ?_)
  cases r with
  | ok bs => rfl
  | error e => rfl

/-- A body comes from the buffer or from a direct read, as in the decoder. -/
@[simp] theorem forget_body (al : Alloc) (inb : Inbound) (bodyLen : ℕ) :
    forget (body al inb bodyLen) = inb.body al bodyLen := by
  simp [body, Inbound.body, stagedBody, Inbound.stagedBody, directBody, Inbound.directBody]

/-- So does a message. -/
@[simp] theorem forget_message (al : Alloc) (inb : Inbound) (count : ℕ) :
    forget (message al inb count) = inb.message al count := by
  simp [message, Inbound.message]

/-- **The decoder without the further actions is `Inbound.next`.** -/
theorem forget_next (al : Alloc) (inb : Inbound) : forget (next al inb) = inb.next al := by
  simp [next, Inbound.next]

end Forget

/-! ### What a table announces -/

/-- The number of segments according to the first word, as the decoder computes it. -/
def declaredCount (bytes : List UInt8) : ℕ := (leNat (bytes.take 4) + 1) % 2 ^ 32

/-- The number of words in the segments, by the sizes in the table, whether or not they have
arrived. -/
def declaredWords (bytes : List UInt8) : ℕ :=
  (tableWords (declaredCount bytes) (bytes.drop 4)).sum

/-- The length of a message that starts with `bytes`: of its table, and of the segments with the
sizes in the table. -/
def messageLen (bytes : List UInt8) : ℕ :=
  tableLen (declaredCount bytes) + WORD * declaredWords bytes

/-- The table at the front of `bytes` is complete, has an admissible number of segments and
announces `total` words. -/
def Declares (bytes : List UInt8) (total : ℕ) : Prop :=
  0 < declaredCount bytes ∧ declaredCount bytes < SEGMENTS_COUNT_LIMIT ∧
    tableLen (declaredCount bytes) ≤ bytes.length ∧ total = declaredWords bytes

instance (bytes : List UInt8) (total : ℕ) : Decidable (Declares bytes total) :=
  inferInstanceAs (Decidable (_ ∧ _ ∧ _ ∧ _))

/-- What the bytes declare, if anything, is within the limit; bytes without a complete table declare
nothing. -/
def Within (limit : Option ℕ) (bytes : List UInt8) : Prop :=
  ∀ total, Declares bytes total → ¬ exceeds limit total

/-- The bytes declare a message within the limit, so that its buffer may be allocated. -/
def Fits (limit : Option ℕ) (bytes : List UInt8) : Prop :=
  ∃ total, Declares bytes total ∧ ¬ exceeds limit total

section Declares

variable {limit : Option ℕ} {total total' : ℕ} {bytes : List UInt8}

/-- The first word is settled once it is there. -/
theorem declaredCount_append (h : 4 ≤ bytes.length) (more : List UInt8) :
    declaredCount (bytes ++ more) = declaredCount bytes := by
  rw [declaredCount, declaredCount, List.take_append_of_le_length h]

/-- The sizes are settled once the table is there. -/
theorem declaredWords_append (h : tableLen (declaredCount bytes) ≤ bytes.length)
    (more : List UInt8) : declaredWords (bytes ++ more) = declaredWords bytes := by
  have hfour := four_mul_le_tableLen (declaredCount bytes)
  rw [declaredWords, declaredCount_append (by omega), tableWords_drop_append h, declaredWords]

/-- A complete table settles the length. -/
theorem messageLen_append (h : tableLen (declaredCount bytes) ≤ bytes.length) (more : List UInt8) :
    messageLen (bytes ++ more) = messageLen bytes := by
  have hfour := four_mul_le_tableLen (declaredCount bytes)
  rw [messageLen, declaredCount_append (by omega), declaredWords_append h, messageLen]

/-- Bytes declare one size at most. -/
theorem Declares.unique (h : Declares bytes total) (h' : Declares bytes total') : total = total' :=
  h.2.2.2.trans h'.2.2.2.symm

/-- A table stays what it is when more bytes arrive. -/
theorem Declares.append (h : Declares bytes total) (more : List UInt8) :
    Declares (bytes ++ more) total := by
  obtain ⟨hpos, hlimit, htable, htotal⟩ := h
  have hfour := four_mul_le_tableLen (declaredCount bytes)
  have hcount := @declaredCount_append bytes (by omega) more
  refine ⟨hcount ▸ hpos, hcount ▸ hlimit, ?_, htotal.trans (declaredWords_append htable more).symm⟩
  rw [hcount, List.length_append]
  omega

/-- A message within the limit stays within it when more bytes arrive. -/
theorem Fits.append (h : Fits limit bytes) (more : List UInt8) : Fits limit (bytes ++ more) :=
  h.imp fun _ h => h.imp_left fun h => h.append more

/-- If the message that is declared is within the limit, all that is declared is. -/
theorem Fits.within (h : Fits limit bytes) : Within limit bytes := by
  obtain ⟨total, hdeclares, hle⟩ := h
  intro total' h'
  rwa [h'.unique hdeclares]

/-- Before the first word is there, nothing is declared. -/
theorem within_of_lt_word (h : bytes.length < WORD) : Within limit bytes := by
  rintro total ⟨hpos, -, htable, -⟩
  have := word_le_tableLen _ hpos
  omega

/-- Before the table is there, nothing is declared. -/
theorem within_of_lt_tableLen (h : bytes.length < tableLen (declaredCount bytes)) :
    Within limit bytes := by
  rintro total ⟨-, -, htable, -⟩
  omega

end Declares

/-! ### Sessions -/

/-- What has happened: the decoder as it was stored last; the bytes the current call has to do
with, those it found in the staging buffer and those it has read; how many bytes `fill` was called
for last, and the reads it has made since; and the buffers the call has allocated. -/
structure Record where
  inb : Inbound
  bytes : List UInt8
  needed : ℕ
  reads : ℕ
  buffers : List ℕ

/-- Record an action: the bytes that were read, the decoder that was assigned, how many reads `fill`
has made, and the buffers that were allocated. -/
def Record.next (r : Record) : (act : Act) → act.Ans → Record
  | .read (.append _), .ok bs => { r with bytes := r.bytes ++ bs.val, reads := r.reads + 1 }
  | .read (.append _), .error _ => { r with reads := r.reads + 1 }
  | .read (.read _), .ok bs => { r with bytes := r.bytes ++ bs.val }
  | .read (.read _), .error _ => r
  | .store inb, _ => { r with inb := inb }
  | .check _, _ => r
  | .fill needed, _ => { r with needed := needed, reads := 0 }
  | .allocate n, _ => { r with buffers := r.buffers ++ [n] }

/-- What a call is at some point of its run, between two actions. -/
abbrev CallProg := ActProg (Except Fault (Option Segments × Inbound))

/-- A decoder, and the call that is being made on it, if one is. A call may be dropped at any of its
reads. -/
structure Session extends Record where
  call : Option CallProg

/-- A new decoder, on which no call was made. -/
def Session.init (al : Alloc) (limit : Option ℕ) (capacity : ℕ) : Session :=
  ⟨⟨.new al limit capacity, [], 0, 0, []⟩, none⟩

/-- A call is made, takes an action with any answer, or is over: it has returned, or it was dropped
before. Every call may meet another of the allowed allocators, so no call depends on what was
granted to others. -/
inductive Step (allowed : Alloc → Prop) : Session → Session → Prop
  | call {s : Session} {al : Alloc} (hal : allowed al) : s.call = none →
      Step allowed s
        ⟨{ s.toRecord with bytes := s.inb.unread, buffers := [] }, some (next al s.inb).run⟩
  | act {s : Session} {act : Act} {k : act.Ans → CallProg} (ans : act.Ans) :
      s.call = some (.await act k) → Step allowed s ⟨s.toRecord.next act ans, some (k ans)⟩
  | ended {s : Session} {p : CallProg} : s.call = some p → Step allowed s { s with call := none }

/-- States of a decoder with a staging capacity and a traversal limit, over calls that return, fail
or are dropped. -/
def Reachable (allowed : Alloc → Prop) (limit : Option ℕ) (capacity : ℕ) (s : Session) : Prop :=
  ∃ al, allowed al ∧ Relation.ReflTransGen (Step allowed) (.init al limit capacity) s

/-- A call goes on with any answers, and its record follows them one by one. -/
theorem Reachable.reaches {allowed : Alloc → Prop} {limit : Option ℕ} {capacity : ℕ} {s : Session}
    {p q : CallProg} {h : List (Prog.Event Act Act.Ans)} (hs : Reachable allowed limit capacity s)
    (hr : p.Reaches h q) (hcall : s.call = some p) :
    Reachable allowed limit capacity
      ⟨h.foldl (fun r event => r.next event.op event.ans) s.toRecord, some q⟩ := by
  induction hr generalizing s with
  | nil p =>
    rw [← hcall]
    exact hs
  | @cons act k ans h q _ ih =>
    obtain ⟨al, hal, hs⟩ := hs
    exact ih ⟨al, hal, hs.tail (.act ans hcall)⟩ rfl

end Decoder

end Ogurpchik
