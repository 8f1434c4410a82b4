import Ogurpchik.WireError

/-!
# Relaying an Error

A process between two peers may answer one of them with the error it got from the other. The report
it builds from the exception it received may be given attachments on the way, and is then sent as a
new exception. This module proves that nothing the first peer chose is in it: the new exception is
determined by the class of the received one and the code it was read with, of which there are
finitely many, and it carries no code. A peer therefore neither speaks through a relay nor passes
for one.

The statement compares two runs, but it needs no relation between them. A report that stands for a
received error is sent as an exception that is computed from the error alone
(`toCapnpException_of_standsFor`), so two runs with the same error end in the same exception.

## Main definitions

* `Attachment`, `Report.attach`: what may be attached without changing what is sent.
* `relay`, `relayThrough`: one hop, and any number of them.
* `Report.StandsFor`: a report that was built for an error and has no code and no message.

## Main results

* `relay_eq`: what is sent on, for every exception and every attachment.
* `attachments_stay_local`: what is attached to a report for local use is not in what is sent.
* `relay_discloses_nothing`: what is sent on is of kind `disconnected`, has no code, and is the same
  for any two exceptions of one class that are read with one code. So it is after further hops.
-/

namespace Ogurpchik

namespace Rpc

/-! ### One hop -/

/-- What is attached to a report for local use: neither a code nor a message for the peer, nor an
error. -/
inductive Attachment
  | remoteMessage (text : String)
  | other (type : ℕ) (display : String)
  deriving DecidableEq, Repr

/-- The frame an attachment becomes when it is put on top of a report. -/
def Attachment.frame : Attachment → Frame
  | remoteMessage text => .remoteMessage text
  | other type display => .other type display

namespace Report

/-- `Report::attach`: the new frame is the most recent one, and the context stays what it was. -/
def attach (r : Report) (a : Attachment) : Report where
  contextType := r.contextType
  frames := a.frame :: r.frames
  hasContext := by
    rw [List.findSome?_cons]
    split
    · rfl
    · exact r.hasContext

/-- Attachments in the order they are made. -/
def attachAll (r : Report) (attached : List Attachment) : Report := attached.foldl attach r

end Report

/-- The error an exception is received as: its class, and the code its text is read as. -/
def receivedError (e : Error) : RpcError := .remote (errorClass e.kind) (decodeWireText e.extra).1

/-- An exception is received, attached to and sent on: one hop of a process between two others. -/
def relay (attached : List Attachment) (e : Error) : Error :=
  toCapnpException ((fromCapnpException e).attachAll attached)

/-- An exception is sent on again and again, with the attachments of each hop, of which there may be
any number. -/
def relayThrough (hops : List (List Attachment)) (e : Error) : Error :=
  hops.foldl (fun e attached => relay attached e) e

/-! ### What a relayed report stands for -/

/-- A report was built for an error: it is the current context, and nothing was attached that is
sent with it. -/
structure Report.StandsFor (r : Report) (error : RpcError) : Prop where
  contextType : r.contextType = .rpcError
  wireCode : r.wireCode? = none
  wireMessage : r.wireMessage? = none
  rpcError : r.rpcError? = some error
  display : r.frames.findSome? (Frame.display? .rpcError) = some error.display

/-- A received exception is reported as the error it stands for. -/
theorem standsFor_fromCapnpException (e : Error) :
    (fromCapnpException e).StandsFor (receivedError e) :=
  ⟨rfl, rfl, rfl, rfl, rfl⟩

namespace Report.StandsFor

variable {r : Report} {error : RpcError}

/-- An attachment is of none of the types that are looked for. -/
protected theorem attach (h : r.StandsFor error) (a : Attachment) :
    (r.attach a).StandsFor error where
  contextType := h.contextType
  wireCode := by cases a <;> exact h.wireCode
  wireMessage := by cases a <;> exact h.wireMessage
  rpcError := by cases a <;> exact h.rpcError
  display := by cases a <;> exact h.display

/-- So are several attachments, by induction along the list. -/
protected theorem attachAll (h : r.StandsFor error) (attached : List Attachment) :
    (r.attachAll attached).StandsFor error := by
  induction attached generalizing r with
  | nil => exact h
  | cons a attached ih => exact ih (h.attach a)

/-- The text that is sent is the error's own. -/
theorem message_eq (h : r.StandsFor error) : r.message = error.display := by
  have hcontext : r.currentContext = error.display := by
    simp only [Report.currentContext, h.contextType, h.display, Option.get_some]
  rw [Report.message, h.wireMessage, Option.getD_none, hcontext]

end Report.StandsFor

/-- A received error is sent as a lost connection, with a text that is computed from it alone. -/
theorem toCapnpException_of_standsFor {r : Report} {kind : RemoteErrorKind}
    {code : Option WireCode} (h : r.StandsFor (.remote kind code)) :
    toCapnpException r = ⟨.disconnected, (RpcError.remote kind code).display⟩ := by
  simp only [toCapnpException, h.wireCode, h.rpcError, h.message_eq, encodeWireText]

/-- **What is sent on**, for every exception and every attachment. -/
theorem relay_eq (attached : List Attachment) (e : Error) :
    relay attached e = ⟨.disconnected, (receivedError e).display⟩ :=
  toCapnpException_of_standsFor ((standsFor_fromCapnpException e).attachAll attached)

/-! ### What the next peer reads -/

/-- The text of a received error, whatever its kind and code, begins like this. -/
theorem display_remote (kind : RemoteErrorKind) (code : Option WireCode) :
    ∃ rest, (RpcError.remote kind code).display = "remote rpc error (" ++ rest := by
  unfold RpcError.display
  cases code with
  | none => exact ⟨kind.debug ++ ")", String.append_assoc⟩
  | some code =>
    refine ⟨kind.debug ++ (", " ++ (code.asStr ++ ")")), ?_⟩
    simp only [String.append_assoc]

/-- The text of a received error starts with a letter, so it is not read as a coded one. -/
theorem not_looksCoded_remote (kind : RemoteErrorKind) (code : Option WireCode) :
    ¬ LooksCoded (RpcError.remote kind code).display := by
  rintro ⟨rest, hrest, -⟩
  obtain ⟨rest', hdisplay⟩ := display_remote kind code
  have hbracket : WIRE_PREFIX.toList = '[' :: WIRE_PREFIX.toList.tail := by decide
  have hletter : "remote rpc error (".toList = 'r' :: "remote rpc error (".toList.tail := by decide
  rw [hdisplay, String.toList_append, hbracket, hletter, List.cons_append,
    List.cons_append] at hrest
  exact absurd (List.cons.inj hrest).1 (by decide)

/-- The code of an exception does not survive a relay: the text that is sent on carries none. -/
theorem decodeWireText_relay (attached : List Attachment) (e : Error) :
    (decodeWireText (relay attached e).extra).1 = none := by
  rw [relay_eq, receivedError, decodeWireText_of_not_looksCoded (not_looksCoded_remote _ _)]

/-- One more hop: whatever was sent on so far, it is a lost connection without a code. -/
theorem relayThrough_relay (hops : List (List Attachment)) (attached : List Attachment)
    (e : Error) : ∃ last e', relayThrough hops (relay attached e) = relay last e' := by
  induction hops generalizing attached e with
  | nil => exact ⟨attached, e, rfl⟩
  | cons next hops ih => exact ih next (relay attached e)

/-- **Relaying discloses and forges nothing.** Whatever exception comes in, and whatever is attached
to the report of it, the exception that is sent on is a lost connection, is received without a code,
and is the same for every exception of the class that is read with the same code. Sent on through
any number of hops it is again a lost connection that is received without a code. -/
theorem relay_discloses_nothing (e : Error) (attached : List Attachment)
    (hops : List (List Attachment)) :
    (relay attached e).kind = .disconnected ∧
    (fromCapnpException (relay attached e)).rpcError? = some (.remote .disconnected none) ∧
    (∀ (e' : Error) (attached' : List Attachment), errorClass e'.kind = errorClass e.kind →
      (decodeWireText e'.extra).1 = (decodeWireText e.extra).1 →
      relay attached' e' = relay attached e) ∧
    (relayThrough hops (relay attached e)).kind = .disconnected ∧
    (fromCapnpException (relayThrough hops (relay attached e))).rpcError? =
      some (.remote .disconnected none) := by
  have hkind : ∀ attached e, (relay attached e).kind = .disconnected := by
    intro attached e
    rw [relay_eq]
  have hreceived : ∀ attached e, (fromCapnpException (relay attached e)).rpcError? =
      some (.remote .disconnected none) := by
    intro attached e
    rw [(standsFor_fromCapnpException _).rpcError, receivedError, hkind, decodeWireText_relay,
      errorClass]
  obtain ⟨last, e', hlast⟩ := relayThrough_relay hops attached e
  refine ⟨hkind attached e, hreceived attached e, ?_, ?_, ?_⟩
  · intro e' attached' hclass hcode
    rw [relay_eq, relay_eq, receivedError, receivedError, hclass, hcode]
  · rw [hlast, hkind]
  · rw [hlast, hreceived]

/-! ### What stays local -/

/-- A frame that is looked at for what is sent: a code, a message for the peer, an error, or one of
the type of the current context. -/
def Frame.crosses (contextType : ContextType) (frame : Frame) : Bool :=
  frame.wireCode?.isSome || frame.wireMessage?.isSome || frame.rpcError?.isSome ||
    (frame.display? contextType).isSome

/-- A search finds the same when what it never finds is left out: the frames that do not cross are
none it looks for. -/
theorem findSome?_filter_of_isSome {α β : Type} {f : α → Option β} {p : α → Bool}
    (h : ∀ a, (f a).isSome → p a) (l : List α) : (l.filter p).findSome? f = l.findSome? f := by
  induction l with
  | nil => rfl
  | cons a l ih =>
    by_cases hp : p a
    · rw [List.filter_cons_of_pos hp, List.findSome?_cons, List.findSome?_cons, ih]
    · have hnone : f a = none := by
        by_contra hne
        exact hp (h a (Option.isSome_iff_ne_none.2 hne))
      rw [List.filter_cons_of_neg hp, List.findSome?_cons, hnone, ih]

namespace Report

variable {r r' : Report}

/-- Two reports that have the same frames, but for those that are not looked at. -/
structure SameView (r r' : Report) : Prop where
  contextType : r.contextType = r'.contextType
  frames : r.frames.filter (Frame.crosses r.contextType) =
    r'.frames.filter (Frame.crosses r'.contextType)

/-- What is found among the frames that are looked at is the same in both. -/
theorem SameView.findSome? {β : Type} {f : Frame → Option β} (h : SameView r r')
    (hf : ∀ frame, (f frame).isSome → frame.crosses r.contextType) :
    r.frames.findSome? f = r'.frames.findSome? f := by
  have hf' : ∀ frame, (f frame).isSome → frame.crosses r'.contextType := h.contextType ▸ hf
  rw [← findSome?_filter_of_isSome hf, h.frames, findSome?_filter_of_isSome hf']

/-- Frames that are not looked at do not change the text that is sent. -/
theorem SameView.message_eq (h : SameView r r') : r.message = r'.message := by
  have hmessage : r.wireMessage? = r'.wireMessage? := h.findSome? fun frame hframe => by
    simp [Frame.crosses, hframe]
  have hcontext : r.frames.findSome? (Frame.display? r.contextType) =
      r'.frames.findSome? (Frame.display? r'.contextType) := by
    rw [← h.contextType]
    exact h.findSome? fun frame hframe => by simp [Frame.crosses, hframe]
  rw [Report.message, Report.message, hmessage, currentContext, currentContext]
  simp only [hcontext]

end Report

/-- **What is attached stays local.** Two reports that differ only in frames that are neither a
code, nor a message for the peer, nor an error, nor of the type of the current context, wherever
those stand and however many there are, are sent as the same exception. -/
theorem attachments_stay_local {r r' : Report} (h : r.SameView r') :
    toCapnpException r = toCapnpException r' := by
  have hcode : r.wireCode? = r'.wireCode? := h.findSome? fun frame hframe => by
    simp [Frame.crosses, hframe]
  have herror : r.rpcError? = r'.rpcError? := h.findSome? fun frame hframe => by
    simp [Frame.crosses, hframe]
  simp only [toCapnpException, hcode, herror, h.message_eq]

/-- A path below the error and a peer's text above it are not in what is sent. -/
theorem attachments_stay_local_handlerReport :
    toCapnpException ⟨.rpcError, [.remoteMessage "denied", .rpcError .handler,
      .other 0 "/home/user/key"], rfl⟩ = toCapnpException handlerReport :=
  attachments_stay_local ⟨rfl, by decide⟩

end Rpc

end Ogurpchik
