import Ogurpchik.Compio
import Ogurpchik.LittleEndian

/-!
# The Cap'n Proto Stream Format

A message is a list of segments, each a whole number of 8-byte words. On a stream it is a
segment table — the little-endian `u32` number of segments less one, the `u32` length of each
segment in words, padded to a whole word — followed by the segments. This module fixes the
format twice, as a serializer and as a one-shot decoder of a whole byte string, and relates the
two. The decoder of a stream that arrives in pieces is `Ogurpchik.Inbound`.

## Main results

* `tryReadMessage_serialize`: the decoder reads one serialized message back and stops exactly
  behind it, or refuses it for its segment count or its size.
* `stock_serializeAll_isPrefix`: on the serializations of any messages the decoder obtains a
  prefix of them, unaltered.
* `stock_serializeAll`: it obtains all of them and ends cleanly when each is within the limits.
-/

namespace Ogurpchik

open LittleEndian

/-- The error kinds of the `capnp` crate that the code produces or inspects; `io` stands for
whatever kind an I/O error is converted to. -/
inductive ErrorKind
  | failed
  | overloaded
  | disconnected
  | unimplemented
  | prematureEndOfFile
  | invalidNumberOfSegments (count : ℕ)
  | messageTooLarge (words : ℕ)
  | messageSizeOverflow
  | io (e : IoError)
  deriving DecidableEq, Repr

/-- The conversion of an I/O error; only a premature end of file has a kind of its own. -/
def ErrorKind.ofIo : IoError → ErrorKind
  | .unexpectedEof => prematureEndOfFile
  | e => io e

/-- `capnp::Error`: a kind, and a text that tells more. The text is what crosses the wire of an
exception. -/
structure Error where
  kind : ErrorKind
  extra : String
  deriving DecidableEq, Repr

/-- An I/O error as the `capnp` error it converts to. Its text is not looked at by anyone. -/
def Error.ofIo (e : IoError) : Error := ⟨.ofIo e, ""⟩

/-- Bytes in a word: the unit in which segments are counted. -/
def WORD : ℕ := 8

/-- `SEGMENTS_COUNT_LIMIT` of the `capnp` crate: the first refused segment count. -/
def SEGMENTS_COUNT_LIMIT : ℕ := 512

/-- `usize::next_multiple_of`: the table of a message is padded to whole words with it. -/
def nextMultipleOf (n k : ℕ) : ℕ := (n + k - 1) / k * k

/-- The length of a segment table for `count` segments: a number of segments and their sizes, padded
to whole words. -/
def tableLen (count : ℕ) : ℕ := nextMultipleOf (4 * (count + 1)) WORD

/-- The segments of a message, as byte strings. Their lengths are whole words, which is a field of
`OutMessage`. -/
abbrev Segments := List (List UInt8)

/-- A message as a `capnp` builder produces it: at least one segment, segment numbers that fit
the `u32` segment ids, and each segment a whole number of words whose count fits a `u32`. -/
structure OutMessage where
  segments : Segments
  ne_nil : segments ≠ []
  count_le : segments.length ≤ 2 ^ 32
  aligned : ∀ s ∈ segments, s.length % WORD = 0
  words_lt : ∀ s ∈ segments, s.length / WORD < 2 ^ 32

/-- The number of words in the segments of a message: what the traversal limit is compared with. -/
def totalWords (segments : Segments) : ℕ := (segments.map fun s => s.length / WORD).sum

/-! ### The serializer -/

/-- The zero bytes behind an odd number of table entries: with an even number of segments the count
makes them odd. -/
def tablePadding (count : ℕ) : List UInt8 := if count % 2 = 0 then [0, 0, 0, 0] else []

/-- The segment table of a message: one less than the number of segments, their sizes in words, and
padding. -/
def segmentTable (segments : Segments) : List UInt8 :=
  leBytes 4 (segments.length - 1) ++
    (segments.flatMap fun s => leBytes 4 (s.length / WORD)) ++ tablePadding segments.length

/-- The stream form of one message, as `capnp::serialize` writes it: its table, and its segments. -/
def serialize (segments : Segments) : List UInt8 := segmentTable segments ++ segments.flatten

/-- The stream form of several messages, one behind the other. -/
def serializeAll (messages : List Segments) : List UInt8 := messages.flatMap serialize

/-! ### The one-shot decoder -/

/-- `count` little-endian 32-bit numbers from the front of a byte string: the sizes in a table. -/
def tableWords : ℕ → List UInt8 → List ℕ
  | 0, _ => []
  | count + 1, bytes => leNat (bytes.take 4) :: tableWords count (bytes.drop 4)

/-- Cut a body into segments of the given lengths in words, as `into_owned_segments` refers to them
in one buffer. -/
def splitSegments : List ℕ → List UInt8 → Segments
  | [], _ => []
  | n :: ns, bytes => bytes.take (WORD * n) :: splitSegments ns (bytes.drop (WORD * n))

/-- What the front of a byte string is: the clean end of the stream, a refused or truncated
message, or a message with the bytes behind it. -/
inductive Parsed
  | clean
  | fail (kind : ErrorKind)
  | message (segments : Segments) (rest : List UInt8)
  deriving DecidableEq

/-- Whether a message of `words` words exceeds the traversal limit; without a limit none does. -/
def exceeds (limit : Option ℕ) (words : ℕ) : Bool :=
  match limit with
  | some limit => limit < words
  | none => false

/-- The message at the front of a byte string whose table announces `count` segments. -/
def readSegments (limit : Option ℕ) (count : ℕ) (bytes : List UInt8) : Parsed :=
  if bytes.length < tableLen count then .fail .prematureEndOfFile
  else
    let lengths := tableWords count (bytes.drop 4)
    if exceeds limit lengths.sum then .fail (.messageTooLarge lengths.sum)
    else if bytes.length < tableLen count + WORD * lengths.sum then .fail .prematureEndOfFile
    else .message (splitSegments lengths (bytes.drop (tableLen count)))
      (bytes.drop (tableLen count + WORD * lengths.sum))

/-- `capnp::serialize::try_read_message` on a byte string that is there as a whole. -/
def tryReadMessage (limit : Option ℕ) (bytes : List UInt8) : Parsed :=
  if bytes = [] then .clean
  else if bytes.length < WORD then .fail .prematureEndOfFile
  else
    let count := (leNat (bytes.take 4) + 1) % 2 ^ 32
    if count = 0 ∨ SEGMENTS_COUNT_LIMIT ≤ count then .fail (.invalidNumberOfSegments count)
    else readSegments limit count bytes

/-- The outcome of decoding a stream to its end: the messages, and how it ended. -/
abbrev Outcome := List Segments × Except ErrorKind Unit

/-- The padding is what is missing to whole words. -/
theorem tableLen_eq (count : ℕ) :
    tableLen count = 4 * (count + 1) + (tablePadding count).length := by
  rw [tablePadding, tableLen, nextMultipleOf, WORD]
  split_ifs with heven
  · simp only [List.length_cons, List.length_nil]
    omega
  · simp only [List.length_nil]
    omega

/-- A table has room for its entries. -/
theorem four_mul_le_tableLen (count : ℕ) : 4 * (count + 1) ≤ tableLen count := by
  rw [tableLen_eq]
  exact Nat.le_add_right _ _

/-- A table is at least one word long. -/
theorem word_le_tableLen (count : ℕ) (h : 0 < count) : WORD ≤ tableLen count := by
  rw [tableLen, nextMultipleOf, WORD]
  omega

/-- The largest table that is read. -/
theorem tableLen_le {count : ℕ} (h : count < SEGMENTS_COUNT_LIMIT) : tableLen count ≤ 2048 := by
  rw [SEGMENTS_COUNT_LIMIT] at h
  rw [tableLen, nextMultipleOf, WORD]
  omega

/-- A message leaves less than it was cut from, so reading messages one after the other comes to an
end. -/
theorem length_lt_of_tryReadMessage {limit : Option ℕ} {bytes rest : List UInt8}
    {segments : Segments} (h : tryReadMessage limit bytes = .message segments rest) :
    rest.length < bytes.length := by
  rw [tryReadMessage] at h
  split_ifs at h with h1 h2
  simp only at h
  split_ifs at h with h3
  rw [readSegments] at h
  simp only at h
  split_ifs at h
  obtain ⟨-, rfl⟩ := Parsed.message.inj h
  have hne := List.length_pos_iff.mpr h1
  have hw : WORD = 8 := rfl
  have ht := word_le_tableLen ((leNat (bytes.take 4) + 1) % 2 ^ 32) (by omega)
  rw [List.length_drop]
  omega

/-- The plain decoder: read messages from a byte string until it ends or one is refused. -/
def stock (limit : Option ℕ) (bytes : List UInt8) : Outcome :=
  match h : tryReadMessage limit bytes with
  | .clean => ([], .ok ())
  | .fail kind => ([], .error kind)
  | .message segments rest =>
      have : rest.length < bytes.length := length_lt_of_tryReadMessage h
      let outcome := stock limit rest
      (segments :: outcome.1, outcome.2)
termination_by bytes.length

/-- The plain decoder at the clean end of a stream. -/
theorem stock_of_clean {limit : Option ℕ} {bytes : List UInt8}
    (h : tryReadMessage limit bytes = .clean) : stock limit bytes = ([], .ok ()) := by
  rw [stock]
  split <;> simp_all

/-- The plain decoder at a refused or truncated message. -/
theorem stock_of_fail {limit : Option ℕ} {bytes : List UInt8} {kind : ErrorKind}
    (h : tryReadMessage limit bytes = .fail kind) : stock limit bytes = ([], .error kind) := by
  rw [stock]
  split <;> simp_all

/-- The plain decoder at a message. -/
theorem stock_of_message {limit : Option ℕ} {bytes rest : List UInt8} {segments : Segments}
    (h : tryReadMessage limit bytes = .message segments rest) :
    stock limit bytes = (segments :: (stock limit rest).1, (stock limit rest).2) := by
  rw [stock]
  split <;> simp_all

/-- **Induction along a stream**, the way the plain decoder goes through it: up to its clean end, up
to what is refused or cut off, or a message at a time. -/
@[elab_as_elim]
theorem stream_induction (limit : Option ℕ) {motive : List UInt8 → Prop}
    (clean : ∀ bytes, tryReadMessage limit bytes = .clean → motive bytes)
    (fail : ∀ bytes kind, tryReadMessage limit bytes = .fail kind → motive bytes)
    (message : ∀ bytes segments rest, tryReadMessage limit bytes = .message segments rest →
      motive rest → motive bytes) (bytes : List UInt8) : motive bytes := by
  induction hm : bytes.length using Nat.strong_induction_on generalizing bytes with
  | _ m ih =>
      cases hparse : tryReadMessage limit bytes with
      | clean => exact clean bytes hparse
      | fail kind => exact fail bytes kind hparse
      | message segments rest =>
          have hlt := length_lt_of_tryReadMessage hparse
          exact message bytes segments rest hparse (ih rest.length (by omega) rest rfl)

/-! ### Longer streams -/

/-- The sizes in a complete table do not depend on the bytes behind it. -/
theorem tableWords_append {count : ℕ} {bytes : List UInt8} (h : 4 * count ≤ bytes.length)
    (more : List UInt8) : tableWords count (bytes ++ more) = tableWords count bytes := by
  induction count generalizing bytes with
  | zero => rfl
  | succ count ih =>
      rw [tableWords, tableWords, List.take_append_of_le_length (by omega),
        List.drop_append_of_le_length (by omega), ih (by rw [List.length_drop]; omega)]

/-- The segments of a complete body do not depend on the bytes behind it. -/
theorem splitSegments_append {lengths : List ℕ} {bytes : List UInt8}
    (h : WORD * lengths.sum ≤ bytes.length) (more : List UInt8) :
    splitSegments lengths (bytes ++ more) = splitSegments lengths bytes := by
  induction lengths generalizing bytes with
  | nil => rfl
  | cons n lengths ih =>
      rw [List.sum_cons, Nat.mul_add] at h
      rw [splitSegments, splitSegments, List.take_append_of_le_length (by omega),
        List.drop_append_of_le_length (by omega), ih (by rw [List.length_drop]; omega)]

/-- A table that is there as a whole stays what it is when more bytes arrive behind it. -/
theorem tableWords_drop_append {count : ℕ} {bytes : List UInt8} (h : tableLen count ≤ bytes.length)
    (more : List UInt8) :
    tableWords count ((bytes ++ more).drop 4) = tableWords count (bytes.drop 4) := by
  have hfour := four_mul_le_tableLen count
  rw [List.drop_append_of_le_length (by omega)]
  exact tableWords_append (by rw [List.length_drop]; omega) more

/-- A message that is there as a whole stays there when more bytes arrive behind it. -/
theorem tryReadMessage_append {limit : Option ℕ} {bytes rest : List UInt8} {segments : Segments}
    (h : tryReadMessage limit bytes = .message segments rest) (more : List UInt8) :
    tryReadMessage limit (bytes ++ more) = .message segments (rest ++ more) := by
  have hWORD : WORD = 8 := rfl
  rw [tryReadMessage] at h ⊢
  split_ifs at h with hnil hword
  simp only [readSegments] at h ⊢
  rw [List.take_append_of_le_length (show 4 ≤ bytes.length by omega)]
  rw [if_neg (by simp [hnil]), if_neg (by rw [List.length_append]; omega)]
  generalize (leNat (bytes.take 4) + 1) % 2 ^ 32 = count at h ⊢
  split_ifs at h with hcount htable hlarge hshort
  obtain ⟨hsegments, hrest⟩ := Parsed.message.inj h
  have hfour := four_mul_le_tableLen count
  have hlengths := tableWords_drop_append (not_lt.mp htable) more
  have hlen : (bytes ++ more).length = bytes.length + more.length := List.length_append
  rw [if_neg hcount, if_neg (by omega), hlengths, if_neg hlarge, if_neg (by omega)]
  rw [List.drop_append_of_le_length (show tableLen count ≤ bytes.length by omega),
    List.drop_append_of_le_length (by omega),
    splitSegments_append (by rw [List.length_drop]; omega), hsegments, hrest]

/-- **Decoding is monotone**: what is decoded from a stream that was cut off is what comes first
when it goes on. -/
theorem stock_append_isPrefix (limit : Option ℕ) (bytes more : List UInt8) :
    (stock limit bytes).1 <+: (stock limit (bytes ++ more)).1 := by
  induction bytes using stream_induction limit with
  | clean bytes hparse =>
      rw [stock_of_clean hparse]
      exact List.nil_prefix
  | fail bytes kind hparse =>
      rw [stock_of_fail hparse]
      exact List.nil_prefix
  | message bytes segments rest hparse ih =>
      rw [stock_of_message hparse, stock_of_message (tryReadMessage_append hparse more)]
      exact List.cons_prefix_cons.mpr ⟨rfl, ih⟩

/-! ### Reading back what was serialized -/

/-- A segment table has the length the decoder computes from its count. -/
@[simp] theorem length_segmentTable {segments : Segments} :
    (segmentTable segments).length = tableLen segments.length := by
  have hentries : (segments.flatMap fun s => leBytes 4 (s.length / WORD)).length =
      4 * segments.length := by
    rw [List.length_flatMap]
    simp [List.map_const', Nat.mul_comm]
  rw [segmentTable, List.length_append, List.length_append, hentries, length_leBytes, tableLen_eq]
  omega

/-- The table entries are the segment lengths in words, if each of them fits its entry. -/
theorem tableWords_entries {segments : Segments} {tail : List UInt8}
    (h : ∀ s ∈ segments, s.length / WORD < 2 ^ 32) :
    tableWords segments.length
        ((segments.flatMap fun s => leBytes 4 (s.length / WORD)) ++ tail) =
      segments.map fun s => s.length / WORD := by
  induction segments with
  | nil => rfl
  | cons s segments ih =>
      have hs : s.length / WORD < 256 ^ 4 := by
        have := h s List.mem_cons_self
        omega
      rw [List.length_cons, List.flatMap_cons, List.append_assoc, tableWords, List.map_cons,
        List.take_left' (length_leBytes _ _), List.drop_left' (length_leBytes _ _),
        leNat_leBytes_of_lt hs, ih fun t ht => h t (List.mem_cons_of_mem _ ht)]

/-- A body cut at the segment lengths is the segments again, if they are whole words. -/
theorem splitSegments_flatten {segments : Segments} {tail : List UInt8}
    (h : ∀ s ∈ segments, s.length % WORD = 0) :
    splitSegments (segments.map fun s => s.length / WORD) (segments.flatten ++ tail) =
      segments := by
  induction segments with
  | nil => rfl
  | cons s segments ih =>
      have hlen : s.length = WORD * (s.length / WORD) :=
        (Nat.mul_div_cancel' (Nat.dvd_of_mod_eq_zero (h s List.mem_cons_self))).symm
      rw [List.map_cons, List.flatten_cons, List.append_assoc, splitSegments,
        List.take_left' hlen, List.drop_left' hlen,
        ih fun t ht => h t (List.mem_cons_of_mem _ ht)]

/-- The body of a message is its total number of words, if the segments are whole words. -/
theorem length_flatten {segments : Segments} (h : ∀ s ∈ segments, s.length % WORD = 0) :
    segments.flatten.length = WORD * totalWords segments := by
  induction segments with
  | nil => rfl
  | cons s segments ih =>
      have hlen : WORD * (s.length / WORD) = s.length :=
        Nat.mul_div_cancel' (Nat.dvd_of_mod_eq_zero (h s List.mem_cons_self))
      have hrest := ih fun t ht => h t (List.mem_cons_of_mem _ ht)
      simp only [totalWords, List.flatten_cons, List.length_append, List.map_cons,
        List.sum_cons] at hrest ⊢
      rw [hrest, Nat.mul_add, hlen]

/-- The count field of a table holds the number of segments less one, reduced to 32 bits. -/
theorem count_serialize (m : OutMessage) (rest : List UInt8) :
    (leNat ((serialize m.segments ++ rest).take 4) + 1) % 2 ^ 32 =
      m.segments.length % 2 ^ 32 := by
  have hpos := List.length_pos_iff.mpr m.ne_nil
  have htake : (serialize m.segments ++ rest).take 4 = leBytes 4 (m.segments.length - 1) := by
    simp only [serialize, segmentTable, List.append_assoc]
    exact List.take_left' (length_leBytes _ _)
  rw [htake, leNat_leBytes]
  omega

/-- **Reading one message back.** The decoder refuses a serialized message for its segment
count or its size, or returns exactly its segments and the bytes behind it. -/
theorem tryReadMessage_serialize (limit : Option ℕ) (m : OutMessage) (rest : List UInt8) :
    tryReadMessage limit (serialize m.segments ++ rest) =
      if SEGMENTS_COUNT_LIMIT ≤ m.segments.length then
        .fail (.invalidNumberOfSegments (m.segments.length % 2 ^ 32))
      else if exceeds limit (totalWords m.segments) then
        .fail (.messageTooLarge (totalWords m.segments))
      else .message m.segments rest := by
  have hpos := List.length_pos_iff.mpr m.ne_nil
  have hle := m.count_le
  have hflat := length_flatten m.aligned
  have htable := word_le_tableLen m.segments.length hpos
  have hlen : (serialize m.segments ++ rest).length =
      tableLen m.segments.length + WORD * totalWords m.segments + rest.length := by
    rw [List.length_append, serialize, List.length_append, length_segmentTable, hflat]
  have hword : WORD = 8 := rfl
  have hne : serialize m.segments ++ rest ≠ [] := by
    intro h0
    rw [h0, List.length_nil] at hlen
    omega
  have hnotlt : ¬ (serialize m.segments ++ rest).length < WORD := by omega
  rw [tryReadMessage]
  rw [if_neg hne, if_neg hnotlt]
  simp only [count_serialize]
  by_cases hcount : SEGMENTS_COUNT_LIMIT ≤ m.segments.length
  · have hlimit : SEGMENTS_COUNT_LIMIT = 512 := rfl
    rw [if_pos hcount, if_pos (by omega)]
  · have hlimit : SEGMENTS_COUNT_LIMIT = 512 := rfl
    have hmod : m.segments.length % 2 ^ 32 = m.segments.length := Nat.mod_eq_of_lt (by omega)
    have hwords : tableWords m.segments.length ((serialize m.segments ++ rest).drop 4) =
        m.segments.map fun s => s.length / WORD := by
      simp only [serialize, segmentTable, List.append_assoc]
      rw [List.drop_left' (length_leBytes _ _)]
      exact tableWords_entries m.words_lt
    have hsum : (m.segments.map fun s => s.length / WORD).sum = totalWords m.segments := rfl
    have hbody : (serialize m.segments ++ rest).drop (tableLen m.segments.length) =
        m.segments.flatten ++ rest := by
      rw [serialize, List.append_assoc]
      exact List.drop_left' length_segmentTable
    have hrest : (serialize m.segments ++ rest).drop
        (tableLen m.segments.length + WORD * totalWords m.segments) = rest := by
      rw [← List.drop_drop, hbody]
      exact List.drop_left' hflat
    rw [hmod, if_neg (by omega), readSegments, if_neg (by omega), if_neg hcount]
    simp only [hwords, hsum, hbody, hrest, splitSegments_flatten m.aligned]
    rw [if_neg (show ¬ (serialize m.segments ++ rest).length <
      tableLen m.segments.length + WORD * totalWords m.segments by omega)]

/-- Whether a peer with this traversal limit accepts a message: it has not too many segments and not
too many words. -/
def Acceptable (limit : Option ℕ) (m : OutMessage) : Prop :=
  m.segments.length < SEGMENTS_COUNT_LIMIT ∧ exceeds limit (totalWords m.segments) = false

/-- The segments of several messages: what the reader is to get of what was sent. -/
def segmentsOf (messages : List OutMessage) : List Segments := messages.map OutMessage.segments

/-- **Decoding stays a prefix.** On the serializations of any messages, within the limits or
not, the decoder obtains the leading messages unaltered. -/
theorem stock_serializeAll_isPrefix (limit : Option ℕ) (messages : List OutMessage) :
    (stock limit (serializeAll (segmentsOf messages))).1 <+: segmentsOf messages := by
  induction messages with
  | nil =>
      rw [stock_of_clean (show tryReadMessage limit (serializeAll (segmentsOf [])) = .clean
        from rfl)]
      exact List.nil_prefix
  | cons m messages ih =>
      have hparse := tryReadMessage_serialize limit m (serializeAll (segmentsOf messages))
      have happend : serializeAll (segmentsOf (m :: messages)) =
          serialize m.segments ++ serializeAll (segmentsOf messages) := by
        simp [serializeAll, segmentsOf]
      rw [← happend] at hparse
      split_ifs at hparse
      · rw [stock_of_fail hparse]
        exact List.nil_prefix
      · rw [stock_of_fail hparse]
        exact List.nil_prefix
      · rw [stock_of_message hparse]
        exact List.cons_prefix_cons.mpr ⟨rfl, ih⟩

/-- **Decoding is complete within the limits**: every message arrives and the stream ends
cleanly. -/
theorem stock_serializeAll {limit : Option ℕ} {messages : List OutMessage}
    (h : ∀ m ∈ messages, Acceptable limit m) :
    stock limit (serializeAll (segmentsOf messages)) = (segmentsOf messages, .ok ()) := by
  induction messages with
  | nil => exact stock_of_clean rfl
  | cons m messages ih =>
      obtain ⟨hcount, hsize⟩ := h m List.mem_cons_self
      have hparse := tryReadMessage_serialize limit m (serializeAll (segmentsOf messages))
      rw [if_neg (not_le.mpr hcount), hsize, if_neg Bool.false_ne_true] at hparse
      have happend : serializeAll (segmentsOf (m :: messages)) =
          serialize m.segments ++ serializeAll (segmentsOf messages) := by
        simp [serializeAll, segmentsOf]
      rw [happend, stock_of_message hparse, ih fun t ht => h t (List.mem_cons_of_mem _ ht)]
      rfl

end Ogurpchik
