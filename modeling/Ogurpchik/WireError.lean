import Mathlib.Data.List.Basic
import Ogurpchik.Capnp

/-!
# Errors on the Wire

A local error is a report: a stack of contexts and attachments. Only two attachments are meant for
the peer, a code and a message, and both travel in the text of a `capnp` exception: a code is put in
front of the message as `[ogurpchik:<code>] `. The module models the two projections, of a report
onto an exception and of an exception into a report, with the texts they send and read.

A frame of a report is found by its type, the most recent first. The types the code asks for are
constructors of `Frame`; all others are numbered.

## Main definitions

* `WireCode`, `RpcError`: the codes and the errors, with their texts.
* `encodeWireText`, `decodeWireText`: the text of an exception.
* `Report`, `toCapnpException`, `fromCapnpException`: reports and the two projections.
* `LooksCoded`: a text that would be read as a coded one.

## Main results

* `decodeWireText_eq_none_iff`: a text is read as plain exactly when it does not look coded.
* `uncoded_crosses_iff`: a report without a code is received without one exactly when its text does
  not look coded.
* `decodeWireText_coded`: a coded text is read up to the first closing bracket.
* `coded_errors_cross`: a code and a message cross together, whatever the message.
-/

namespace Ogurpchik

namespace Rpc

/-! ### Codes and errors -/

/-- `WIRE_PREFIX`: what stands in front of a code in the text of an exception. -/
def WIRE_PREFIX : String := "[ogurpchik:"

/-- `WireCode`: the codes that cross the wire, with one for those of a later version. -/
inductive WireCode
  | unauthenticated
  | permissionDenied
  | invalidArgument
  | notFound
  | unavailable
  | limitExceeded
  | internal
  | unknown
  deriving DecidableEq, Repr

namespace WireCode

/-- `as_str`: what stands for a code on the wire, in the text of an exception. -/
def asStr : WireCode → String
  | unauthenticated => "unauthenticated"
  | permissionDenied => "permission-denied"
  | invalidArgument => "invalid-argument"
  | notFound => "not-found"
  | unavailable => "unavailable"
  | limitExceeded => "limit-exceeded"
  | internal => "internal"
  | unknown => "unknown"

/-- `from_slug`: a slug that is none of these, also one of a later version, is unknown. -/
def fromSlug (slug : String) : WireCode :=
  match slug with
  | "unauthenticated" => unauthenticated
  | "permission-denied" => permissionDenied
  | "invalid-argument" => invalidArgument
  | "not-found" => notFound
  | "unavailable" => unavailable
  | "limit-exceeded" => limitExceeded
  | "internal" => internal
  | _ => unknown

/-- `capnp_kind`: only an unavailable service asks for another try, by the kind that means
overload. -/
def capnpKind : WireCode → ErrorKind
  | unavailable => .overloaded
  | _ => .failed

end WireCode

/-- `RemoteErrorKind`: the class of an exception of the peer, as it is reported. -/
inductive RemoteErrorKind
  | failed
  | overloaded
  | disconnected
  | unimplemented
  | other
  deriving DecidableEq, Repr

/-- A kind under `{:?}`, as it is printed in the text of an error. -/
def RemoteErrorKind.debug : RemoteErrorKind → String
  | failed => "Failed"
  | overloaded => "Overloaded"
  | disconnected => "Disconnected"
  | unimplemented => "Unimplemented"
  | other => "Other"

/-- `RpcError`: the errors of the library. One that is received has the class and the code of what
the peer sent. -/
inductive RpcError
  | setup
  | remote (kind : RemoteErrorKind) (code : Option WireCode)
  | handler
  | unimplemented
  | limitExceeded
  deriving DecidableEq, Repr

/-- `impl Display for RpcError`: the text of an error, which is sent where there is no message for
the peer. -/
def RpcError.display : RpcError → String
  | setup => "failed to establish rpc connection"
  | remote kind (some code) => "remote rpc error (" ++ kind.debug ++ ", " ++ code.asStr ++ ")"
  | remote kind none => "remote rpc error (" ++ kind.debug ++ ")"
  | handler => "local handler failed"
  | unimplemented => "method not implemented"
  | limitExceeded => "message exceeded configured limits"

/-! ### The text of an exception -/

/-- `encode_wire_text`: a code goes in brackets in front of the message, and without a code the
message is all. -/
def encodeWireText (code : Option WireCode) (message : String) : String :=
  match code with
  | some code => WIRE_PREFIX ++ code.asStr ++ "] " ++ message
  | none => message

/-- Text without the blank it may start with: the encoder puts one behind the bracket. -/
def stripBlank : List Char → List Char
  | ' ' :: text => text
  | text => text

/-- `decode_wire_text`: what looks like a code in front is taken for one, and a blank behind it is
not part of the message. -/
def decodeWireText (extra : String) : Option WireCode × String :=
  match WIRE_PREFIX.toList.isPrefixOf? extra.toList with
  | none => (none, extra)
  | some rest =>
      match rest.idxOf? ']' with
      | none => (none, extra)
      | some stop =>
          (some (.fromSlug (String.ofList (rest.take stop))),
            String.ofList (stripBlank (rest.drop (stop + 1))))

/-- `WireCode::exception`: an exception with a code, for a handler that has no report. -/
def WireCode.exception (code : WireCode) (message : String) : Error :=
  ⟨code.capnpKind, encodeWireText (some code) message⟩

/-! ### Reports -/

/-- A context or an attachment of a report, as far as the two conversions look at it; all others are
alike. -/
inductive Frame
  | wireCode (code : WireCode)
  | wireMessage (text : String)
  | remoteMessage (text : String)
  | rpcError (error : RpcError)
  | other (type : ℕ) (display : String)
  deriving DecidableEq, Repr

/-- The type of the current context of a report, by which its text is found. -/
inductive ContextType
  | rpcError
  | other (type : ℕ)
  deriving DecidableEq, Repr

namespace Frame

/-- The code of a frame that is one: what a downcast of the frame gives. -/
def wireCode? : Frame → Option WireCode
  | wireCode code => some code
  | _ => none

/-- The message for the peer of a frame that is one: what a downcast gives. -/
def wireMessage? : Frame → Option String
  | wireMessage text => some text
  | _ => none

/-- The message of the peer of a frame that is one: what a downcast gives. -/
def remoteMessage? : Frame → Option String
  | remoteMessage text => some text
  | _ => none

/-- The error of a frame that is one: what a downcast gives. -/
def rpcError? : Frame → Option RpcError
  | rpcError error => some error
  | _ => none

/-- The text of a frame, if it is of the given type, and not of another that prints alike. -/
def display? : ContextType → Frame → Option String
  | .rpcError, rpcError error => some error.display
  | .other type, other type' display => if type' = type then some display else none
  | _, _ => none

end Frame

/-- `Report<C>`: its frames, the most recent first, with the type `C` of the current context, of
which there is one among them. -/
structure Report where
  contextType : ContextType
  frames : List Frame
  hasContext : (frames.findSome? (Frame.display? contextType)).isSome

namespace Report

variable (r : Report)

/-- `downcast_ref::<WireCode>`: the most recent code that was attached. -/
def wireCode? : Option WireCode := r.frames.findSome? Frame.wireCode?

/-- `downcast_ref::<WireMessage>`: the most recent message for the peer. -/
def wireMessage? : Option String := r.frames.findSome? Frame.wireMessage?

/-- `downcast_ref::<RemoteMessage>`: the most recent message of the peer. -/
def remoteMessage? : Option String := r.frames.findSome? Frame.remoteMessage?

/-- `downcast_ref::<RpcError>`: the most recent error of the library, also beneath another
context. -/
def rpcError? : Option RpcError := r.frames.findSome? Frame.rpcError?

/-- `current_context().to_string()`: the text of the context, which a report always has. -/
def currentContext : String := (r.frames.findSome? (Frame.display? r.contextType)).get r.hasContext

/-- `Report::new(error).attach(RemoteMessage(text))`: what is made of an exception. -/
def ofRemote (error : RpcError) (text : String) : Report :=
  ⟨.rpcError, [.remoteMessage text, .rpcError error], rfl⟩

/-- The text that is sent for a report: the message for the peer, or else the text of its
context. -/
def message : String := r.wireMessage?.getD r.currentContext

end Report

/-- The class of an exception, as `from_capnp_exception` tells it apart: the four kinds of an
exception on the wire, and one for everything the library adds to them. -/
def errorClass : ErrorKind → RemoteErrorKind
  | .failed => .failed
  | .overloaded => .overloaded
  | .disconnected => .disconnected
  | .unimplemented => .unimplemented
  | _ => .other

/-- `from_capnp_exception`: the report of an error of the peer, with the code and the message that
its text is read as. -/
def fromCapnpException (err : Error) : Report :=
  let kind := errorClass err.kind
  let decoded := decodeWireText err.extra
  .ofRemote (.remote kind decoded.1) decoded.2

/-- `to_capnp_exception`: the kind goes by the code, or else by the error, and a received error is
sent on as a lost connection. -/
def toCapnpException (report : Report) : Error :=
  let code := report.wireCode?
  let extra := encodeWireText code report.message
  let kind : ErrorKind :=
    match code, report.rpcError? with
    | some code, _ => code.capnpKind
    | none, some .unimplemented => .unimplemented
    | none, some (.remote _ _) => .disconnected
    | none, _ => .failed
  ⟨kind, extra⟩

/-! ### Plain texts -/

/-- A text that starts as a coded one does, with a closing bracket somewhere behind. -/
def LooksCoded (text : String) : Prop :=
  ∃ rest, WIRE_PREFIX.toList ++ rest = text.toList ∧ ']' ∈ rest

/-- A text that does not look coded is read as it is: there is no prefix, or no bracket behind
it. -/
theorem decodeWireText_of_not_looksCoded {text : String} (h : ¬ LooksCoded text) :
    decodeWireText text = (none, text) := by
  rw [decodeWireText]
  split
  · rfl
  · next rest hrest =>
    have hbracket : ']' ∉ rest := fun hmem =>
      h ⟨rest, List.isPrefixOf?_eq_some_iff_append_eq.mp hrest, hmem⟩
    rw [List.idxOf?_eq_none_iff.mpr hbracket]

/-- How a coded text is read: up to the first closing bracket, and then the rest. -/
theorem decodeWireText_of_append {text : String} {rest : List Char} {stop : ℕ}
    (hrest : WIRE_PREFIX.toList ++ rest = text.toList) (hstop : rest.idxOf? ']' = some stop) :
    decodeWireText text = (some (.fromSlug (String.ofList (rest.take stop))),
      String.ofList (stripBlank (rest.drop (stop + 1)))) := by
  simp only [decodeWireText, List.isPrefixOf?_eq_some_iff_append_eq.mpr hrest, hstop]

/-- A text that looks coded is read with a code, whatever stands in the brackets. -/
theorem decodeWireText_of_looksCoded {text : String} (h : LooksCoded text) :
    ∃ code message, decodeWireText text = (some code, message) := by
  obtain ⟨rest, hrest, hbracket⟩ := h
  obtain ⟨stop, hstop⟩ := Option.isSome_iff_exists.mp (List.isSome_idxOf?.mpr hbracket)
  exact ⟨_, _, decodeWireText_of_append hrest hstop⟩

/-- **A text is read as plain exactly when it does not look coded.** -/
theorem decodeWireText_eq_none_iff (text : String) :
    decodeWireText text = (none, text) ↔ ¬ LooksCoded text := by
  refine ⟨fun h hcoded => ?_, decodeWireText_of_not_looksCoded⟩
  obtain ⟨code, message, hdecode⟩ := decodeWireText_of_looksCoded hcoded
  rw [hdecode] at h
  cases h

/-! ### Reports without a code -/

/-- A report is received with no code and with the text that was sent, to the letter. -/
def ReceivedPlain (sent received : Report) : Prop :=
  (∃ kind, received.rpcError? = some (.remote kind none)) ∧
    received.remoteMessage? = some sent.message

/-- A report without a code is sent as its text. -/
theorem toCapnpException_extra {r : Report} (h : r.wireCode? = none) :
    (toCapnpException r).extra = r.message := by
  simp only [toCapnpException, h, encodeWireText]

/-- What is received is reported as an error of the peer, with the code its text is read as. -/
theorem fromCapnpException_rpcError (err : Error) :
    ∃ kind, (fromCapnpException err).rpcError? =
      some (.remote kind (decodeWireText err.extra).1) :=
  ⟨_, rfl⟩

/-- The message of the peer is what its text is read as, without the code. -/
@[simp] theorem fromCapnpException_remoteMessage (err : Error) :
    (fromCapnpException err).remoteMessage? = some (decodeWireText err.extra).2 :=
  rfl

/-- **A report without a code is received without one exactly when its text does not look coded.**
Then the text is received as it was sent. -/
theorem uncoded_crosses_iff (r : Report) (h : r.wireCode? = none) :
    ReceivedPlain r (fromCapnpException (toCapnpException r)) ↔ ¬ LooksCoded r.message := by
  obtain ⟨kind, hkind⟩ := fromCapnpException_rpcError (toCapnpException r)
  rw [ReceivedPlain, hkind, fromCapnpException_remoteMessage, toCapnpException_extra h,
    ← decodeWireText_eq_none_iff, Prod.ext_iff]
  simp

/-- The error of a handler with no code and no message, which is the plainest of reports. -/
def handlerReport : Report := ⟨.rpcError, [.rpcError .handler], rfl⟩

/-- The plain text of a handler error crosses as it is. -/
theorem uncoded_crosses_handlerReport :
    handlerReport.wireCode? = none ∧
      ReceivedPlain handlerReport (fromCapnpException (toCapnpException handlerReport)) :=
  ⟨rfl, (uncoded_crosses_iff handlerReport rfl).mpr ((decodeWireText_eq_none_iff _).mp rfl)⟩

/-- The error of a handler with no code, and a message that quotes a coded text, as one of another
service would. -/
def quotingReport : Report :=
  ⟨.rpcError, [.wireMessage "[ogurpchik:not-found] was the reply", .rpcError .handler], rfl⟩

/-- The message is read as the code it quotes, though no code was sent. -/
theorem quotingReport_received_coded :
    quotingReport.wireCode? = none ∧
      ¬ ReceivedPlain quotingReport (fromCapnpException (toCapnpException quotingReport)) := by
  refine ⟨rfl, fun h => ?_⟩
  obtain ⟨⟨kind, hkind⟩, -⟩ := h
  have hcode : (fromCapnpException (toCapnpException quotingReport)).rpcError? =
      some (.remote .failed (some .notFound)) := by decide
  rw [hcode] at hkind
  cases hkind

/-! ### Reports with a code -/

/-- The first closing bracket is found where a slug without one ends. -/
theorem idxOf?_append_cons {x : Char} {xs : List Char} (h : x ∉ xs) (ys : List Char) :
    (xs ++ x :: ys).idxOf? x = some xs.length := by
  induction xs with
  | nil => simp [List.idxOf?_cons]
  | cons y xs ih =>
    rw [List.mem_cons, not_or] at h
    rw [List.cons_append, List.idxOf?_cons, ih h.2, if_neg (by simpa using Ne.symm h.1)]
    rfl

/-- **A coded text** is read up to the first closing bracket, whatever stands in front of it. -/
theorem decodeWireText_coded {text : String} {slug tail : List Char}
    (htext : WIRE_PREFIX.toList ++ (slug ++ ']' :: tail) = text.toList) (hslug : ']' ∉ slug) :
    decodeWireText text =
      (some (.fromSlug (String.ofList slug)), String.ofList (stripBlank tail)) := by
  rw [decodeWireText_of_append htext (idxOf?_append_cons hslug tail), List.take_left,
    ← List.drop_drop, List.drop_left, List.drop_one, List.tail_cons]

/-- One blank is taken off, if there is one. -/
theorem stripBlank_spec (tail : List Char) :
    tail = ' ' :: stripBlank tail ∨ tail = stripBlank tail ∧ tail.head? ≠ some ' ' := by
  cases tail with
  | nil => exact .inr ⟨rfl, by simp⟩
  | cons c tail =>
    by_cases hc : c = ' '
    · subst hc
      exact .inl rfl
    · refine .inr ⟨?_, by simpa using hc⟩
      rw [stripBlank]
      intro text heq
      exact hc (List.cons.inj heq).1

namespace WireCode

/-- A code is recognised by its own text. -/
theorem fromSlug_asStr (code : WireCode) : fromSlug code.asStr = code := by
  cases code <;> rfl

/-- No text but the slug of a code stands for one: every other is unknown. -/
theorem fromSlug_of_ne {slug : String} (h : ∀ code : WireCode, slug ≠ code.asStr) :
    fromSlug slug = unknown := by
  unfold fromSlug
  split
  · exact absurd rfl (h unauthenticated)
  · exact absurd rfl (h permissionDenied)
  · exact absurd rfl (h invalidArgument)
  · exact absurd rfl (h notFound)
  · exact absurd rfl (h unavailable)
  · exact absurd rfl (h limitExceeded)
  · exact absurd rfl (h internal)
  · rfl

/-- The text of a code does not end the brackets. -/
theorem bracket_notMem_asStr (code : WireCode) : ']' ∉ code.asStr.toList := by
  cases code <;> decide

end WireCode

/-- A coded text is read as it was written. -/
theorem decodeWireText_encodeWireText (code : WireCode) (message : String) :
    decodeWireText (encodeWireText (some code) message) = (some code, message) := by
  have htext : WIRE_PREFIX.toList ++ (code.asStr.toList ++ ']' :: ' ' :: message.toList) =
      (encodeWireText (some code) message).toList := by
    simp [encodeWireText]
  rw [decodeWireText_coded htext code.bracket_notMem_asStr, String.ofList_toList,
    code.fromSlug_asStr, stripBlank, String.ofList_toList]

/-- The two ways to send a code make one exception. -/
theorem toCapnpException_coded {r : Report} {code : WireCode} {message : String}
    (hcode : r.wireCode? = some code) (hmessage : r.wireMessage? = some message) :
    toCapnpException r = code.exception message := by
  have htext : r.message = message := by rw [Report.message, hmessage, Option.getD_some]
  simp only [toCapnpException, hcode, htext, WireCode.exception]

/-- **Coded errors cross intact.** A report with a code and a message, and the exception built from
the two directly, are sent as the same exception, and it is received with the code, the kind that
belongs to it and the message. Any text that looks coded is read with the code in its brackets, an
unknown one if it is no code's text, and what stands behind them less at most one blank. Every other
text is read without a code, as it is. -/
theorem coded_errors_cross (code : WireCode) (message : String) :
    (∀ r : Report, r.wireCode? = some code → r.wireMessage? = some message →
      toCapnpException r = code.exception message) ∧
    (fromCapnpException (code.exception message)).rpcError? =
      some (.remote (if code = .unavailable then .overloaded else .failed) (some code)) ∧
    (fromCapnpException (code.exception message)).remoteMessage? = some message ∧
    (∀ text, LooksCoded text → ∃ slug tail received,
      text = WIRE_PREFIX ++ slug ++ "]" ++ tail ∧ ']' ∉ slug.toList ∧
      decodeWireText text = (some (.fromSlug slug), received) ∧
      (tail = " " ++ received ∨ tail = received ∧ tail.toList.head? ≠ some ' ')) ∧
    (∀ slug, (∀ c : WireCode, slug ≠ c.asStr) → WireCode.fromSlug slug = .unknown) ∧
    ∀ text, ¬LooksCoded text → decodeWireText text = (none, text) := by
  have hdecode : decodeWireText (code.exception message).extra = (some code, message) :=
    decodeWireText_encodeWireText code message
  refine ⟨fun r => toCapnpException_coded, ?_, ?_, ?_, fun slug => WireCode.fromSlug_of_ne,
    fun text => decodeWireText_of_not_looksCoded⟩
  · change some (RpcError.remote _ (decodeWireText (code.exception message).extra).1) = _
    rw [hdecode]
    cases code <;> rfl
  · rw [fromCapnpException_remoteMessage, hdecode]
  · rintro text ⟨rest, hrest, hbracket⟩
    obtain ⟨slug, tail, rfl, hslug⟩ := List.eq_append_cons_of_mem hbracket
    refine ⟨.ofList slug, .ofList tail, .ofList (stripBlank tail), ?_, ?_,
      decodeWireText_coded hrest hslug, ?_⟩
    · rw [← String.toList_inj, ← hrest]
      simp
    · rwa [String.toList_ofList]
    · rcases stripBlank_spec tail with hblank | ⟨hsame, hhead⟩
      · refine .inl (String.toList_inj.mp ?_)
        simpa using hblank
      · right
        rw [← hsame, String.toList_ofList]
        exact ⟨rfl, hhead⟩

end Rpc

end Ogurpchik
