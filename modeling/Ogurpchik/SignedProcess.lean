import Ogurpchik.Handshake
import Ogurpchik.SignedFile

/-!
# Signed Processes

What the handshake asks about a process is answered on Windows by opening the process, reading its
times or the path of its image, and reading two files: the image and the signature beside it. The
handle is closed when it goes out of scope, on every path. On other systems every question is
answered with an error.

Here these answers are programs of system calls, and the server half is run with its questions
carried out by them. A history of the whole is then a list of system calls and packets, and says
what the server has really looked at before it accepts a client. Between two system calls anything
may happen to the processes and the files: the answers of a history are arbitrary.

## Main definitions

* `WinOp`: system calls and packets.
* `verifySignedFile`, `processCreationTime`, `verifyProcessImage`: the answers on Windows.
* `windowsHost`, `stubHost`: how questions are carried out on Windows and elsewhere.
* `Genuine`: an image and what was found beside it, under a public key.
* `held`: the handles that are open behind a history.

## Main results

* `accepted_peer_iff`: **the histories in which a server in signed-process mode accepts.**
* `handles_released`: no handle is open while the handshake waits for a packet, or when it is over.
* `stub_never_accepts`: outside Windows no client is accepted.
-/

namespace Ogurpchik

namespace SignedProcess

open Async

/-! ### System calls -/

/-- A path as Windows has it: units of UTF-16 that need not be well-formed. -/
abbrev WidePath := List UInt16

/-- A handle of a process, given by its number. -/
abbrev Handle := ℕ

/-- `FILETIME`: a time in two halves of 32 bits. -/
structure FileTime where
  low : UInt32
  high : UInt32
  deriving DecidableEq, Repr

/-- The system calls of the checks, and the packets and questions of the handshake that are not
about processes. -/
inductive WinOp
  | openProcess (pid : UInt32)
  | getProcessTimes (handle : Handle)
  | queryFullProcessImageName (handle : Handle)
  | closeHandle (handle : Handle)
  | read (path : WidePath)
  | packet (op : PacketOp)

/-- The answers: no handle is the null handle, and the other calls fail without a value. Of the
times only the one of the creation is looked at. -/
abbrev WinOp.Ans : WinOp → Type
  | openProcess _ => Option Handle
  | getProcessTimes _ => Option FileTime
  | queryFullProcessImageName _ => Option WidePath
  | closeHandle _ => Unit
  | read _ => Except FileError (List UInt8)
  | packet op => op.Ans

/-- Programs of system calls and packets: the server half on Windows, with its questions carried
out. -/
abbrev WinProg := Prog WinOp WinOp.Ans

/-- What has happened: packets and system calls with their answers, in order. -/
abbrev History := List (Prog.Event WinOp WinOp.Ans)

/-! ### Files -/

/-- A unit of UTF-16 by itself: a surrogate without its other half is shown as the replacement
character. -/
def unitChar (u : UInt16) : Char :=
  if 0xd800 ≤ u ∧ u ≤ 0xdfff then Char.ofNat 0xfffd else Char.ofNat u.toNat

/-- The characters of a path, with replacement characters for what is not UTF-16. -/
def wideChars : List UInt16 → List Char
  | [] => []
  | [u] => [unitChar u]
  | u :: v :: rest =>
      if 0xd800 ≤ u ∧ u ≤ 0xdbff ∧ 0xdc00 ≤ v ∧ v ≤ 0xdfff then
        Char.ofNat (0x10000 + (u.toNat - 0xd800) * 0x400 + (v.toNat - 0xdc00)) :: wideChars rest
      else unitChar u :: wideChars (v :: rest)

/-- `Path::display`, in the texts of reports: surrogates that do not pair are replaced. -/
def display (path : WidePath) : String := .ofList (wideChars path)

/-- `signature_path_for`: the path of the image with `.sig` behind it. -/
def signaturePathFor (imagePath : WidePath) : WidePath := imagePath ++ [0x2e, 0x73, 0x69, 0x67]

/-- `on_missing_signature`, in a build with debug assertions, which lets the image pass, or
without. -/
def onMissingSignature (debug : Bool) (imagePath signaturePath : WidePath) : Except Report Unit :=
  if debug then .ok ()
  else
    .error ((verificationFailed ("no signature at " ++ display signaturePath)).attach
      ("for image " ++ display imagePath))

/-- What the signature that was read tells about an image: it is verified with the key, or it is
missing. -/
def checkSignature (ed : Ed25519) (debug : Bool) (imagePath : WidePath) (key : ed.VerifyingKey)
    (image : List UInt8) : Except Report (Option Signature) → Except Report Unit
  | .error report => .error report
  | .ok none => onMissingSignature debug imagePath (signaturePathFor imagePath)
  | .ok (some signature) =>
      match ed.verify key image signature with
      | .ok () => .ok ()
      | .error e => .error (verificationFailed ("signature verification failed: " ++ e))

/-- `verify_signed_file`: the key is parsed first, so that a bad one is reported before any file is
read; then the image and its signature are read. -/
def verifySignedFile (ed : Ed25519) (debug : Bool) (imagePath : WidePath)
    (publicKey : List UInt8) : WinProg (Except Report Unit) :=
  match parseVerifyingKey ed publicKey with
  | .error report => .done (.error report)
  | .ok key =>
      .await (.read imagePath) fun
        | .error _ =>
            .done (.error (verificationFailed ("failed to read signed image " ++
              display imagePath)))
        | .ok image =>
            .await (.read (signaturePathFor imagePath)) fun file =>
              .done (checkSignature ed debug imagePath key image
                (readSignature (display (signaturePathFor imagePath)) file))

/-! ### Processes -/

/-- `ProcessHandle::open`, with what is done with the handle before it is dropped. -/
def withProcess {α : Type} (pid : UInt32) (body : Handle → WinProg (Except Report α)) :
    WinProg (Except Report α) :=
  .await (.openProcess pid) fun
    | none => .done (.error (verificationFailed ("failed to open process " ++
        Nat.repr pid.toNat)))
    | some handle => (body handle).bind fun r => .await (.closeHandle handle) fun _ => .done r

/-- A creation time as one number: the high half shifted above the low one. -/
def FileTime.toUInt64 (time : FileTime) : UInt64 :=
  (time.high.toUInt64 <<< 32) ||| time.low.toUInt64

/-- `process_creation_time`: the process is opened, asked for its times, and closed. -/
def processCreationTime (pid : UInt32) : WinProg (Except Report UInt64) :=
  withProcess pid fun handle => .await (.getProcessTimes handle) fun
    | none => .done (.error (verificationFailed "failed to query process times"))
    | some time => .done (.ok time.toUInt64)

/-- `verify_process_image`: the process is opened and asked for the path of its image, and kept open
while the file is verified. -/
def verifyProcessImage (ed : Ed25519) (debug : Bool) (pid : UInt32) (publicKey : List UInt8) :
    WinProg (Except Report Unit) :=
  withProcess pid fun handle => .await (.queryFullProcessImageName handle) fun
    | none => .done (.error (verificationFailed "failed to query process image path"))
    | some imagePath => verifySignedFile ed debug imagePath publicKey

/-- What is not about processes is left as it is: packets, the identity of the peer and random
bytes. -/
def onPacket (op : PacketOp) : WinProg op.Ans := .await (.packet op) .done

/-- The questions of the handshake on Windows, each carried out by the system calls of the
source. -/
def windowsHost (ed : Ed25519) (debug : Bool) : (op : PacketOp) → WinProg op.Ans
  | .host (.processCreationTime pid) => processCreationTime pid
  | .host (.verifyProcessImage pid publicKey) => verifyProcessImage ed debug pid publicKey
  | .host .peerIdentity => onPacket (.host .peerIdentity)
  | .host .fillRandom => onPacket (.host .fillRandom)
  | .writePacket body => onPacket (.writePacket body)
  | .readPacketWithTimeout => onPacket .readPacketWithTimeout

/-- `unsupported`: the report of a system on which processes cannot be verified. -/
def unsupported : Report :=
  verificationFailed "signed-process attestation is only supported on Windows"

/-- The questions of the handshake on other systems: those about processes fail at once. -/
def stubHost : (op : PacketOp) → WinProg op.Ans
  | .host (.processCreationTime _) => .done (.error unsupported)
  | .host (.verifyProcessImage _ _) => .done (.error unsupported)
  | .host .peerIdentity => onPacket (.host .peerIdentity)
  | .host .fillRandom => onPacket (.host .fillRandom)
  | .writePacket body => onPacket (.writePacket body)
  | .readPacketWithTimeout => onPacket .readPacketWithTimeout

/-! ### What makes up a signed image -/

/-- An image, and what was found in place of its signature, under a public key: the signature is
there, in one of its forms, and the key verifies it; or, in a debug build only, there is none. -/
def Genuine (ed : Ed25519) (debug : Bool) (publicKey image : List UInt8)
    (file : Except FileError (List UInt8)) : Prop :=
  ∃ raw key, KeyForm publicKey raw.val ∧ ed.fromBytes raw = some key ∧
    ((∃ bytes signature, file = .ok bytes ∧ SignatureForm bytes signature ∧
        ed.verify key image signature = .ok ()) ∨
      debug = true ∧ file = .error .notFound)

section File

variable {ed : Ed25519} {debug : Bool} {imagePath : WidePath} {publicKey image : List UInt8}

/-- **The check of a signature** is passed by one that verifies, and by a missing one in a debug
build. -/
theorem checkSignature_eq_ok_iff {key : ed.VerifyingKey} {text : String}
    {file : Except FileError (List UInt8)} :
    checkSignature ed debug imagePath key image (readSignature text file) = .ok () ↔
      (∃ bytes signature, file = .ok bytes ∧ SignatureForm bytes signature ∧
          ed.verify key image signature = .ok ()) ∨
        debug = true ∧ file = .error .notFound := by
  constructor
  · intro h
    cases hread : readSignature text file with
    | error report =>
      rw [hread] at h
      cases h
    | ok found =>
      rw [hread] at h
      cases found with
      | none =>
        rw [checkSignature, onMissingSignature] at h
        split_ifs at h with hdebug
        exact .inr ⟨hdebug, readSignature_eq_none_iff.1 hread⟩
      | some signature =>
        cases hverify : ed.verify key image signature with
        | error e =>
          rw [checkSignature, hverify] at h
          cases h
        | ok _ =>
          rcases file with (_ | e) | bytes
          · cases hread
          · cases hread
          · exact .inl ⟨bytes, signature, rfl, readSignature_eq_some_iff.1 hread, hverify⟩
  · rintro (⟨bytes, signature, rfl, hform, hverify⟩ | ⟨rfl, rfl⟩)
    · rw [readSignature_eq_some_iff.2 hform, checkSignature, hverify]
    · rfl

/-- The histories in which a file is accepted: the image is read, then what is beside it, and the
two go together under the key. -/
theorem reaches_verifySignedFile_iff {h : History} :
    Prog.Reaches (verifySignedFile ed debug imagePath publicKey) h (.done (.ok ())) ↔
      ∃ image file, h = [⟨.read imagePath, .ok image⟩, ⟨.read (signaturePathFor imagePath), file⟩] ∧
        Genuine ed debug publicKey image file := by
  rw [verifySignedFile]
  constructor
  · intro hr
    cases hkey : parseVerifyingKey ed publicKey with
    | error report =>
      rw [hkey] at hr
      cases (Prog.reaches_done_iff.1 hr).2
    | ok key =>
      rw [hkey] at hr
      obtain ⟨raw, hform, hraw⟩ := parseVerifyingKey_eq_ok_iff.1 hkey
      obtain ⟨image, h', rfl, hfile⟩ := Prog.reaches_await_done_iff.1 hr
      cases image with
      | error e => cases (Prog.reaches_done_iff.1 hfile).2
      | ok image =>
        obtain ⟨file, h'', rfl, hend⟩ := Prog.reaches_await_done_iff.1 hfile
        obtain ⟨rfl, hcheck⟩ := Prog.reaches_done_iff.1 hend
        rw [Prog.done.injEq] at hcheck
        exact ⟨image, file, rfl, raw, key, hform, hraw, checkSignature_eq_ok_iff.1 hcheck.symm⟩
  · rintro ⟨image, file, rfl, raw, key, hform, hraw, hcheck⟩
    rw [parseVerifyingKey_eq_ok_iff.2 ⟨raw, hform, hraw⟩]
    refine .cons (.cons ?_)
    rw [checkSignature_eq_ok_iff.2 hcheck]
    exact .nil _

end File

/-! ### Processes under a handle -/

section Process

variable {α : Type} {pid : UInt32} {h : History}

/-- What is done with a process stands between the opening and the closing of its handle. -/
theorem reaches_withProcess_iff {body : Handle → WinProg (Except Report α)} {a : α} :
    Prog.Reaches (withProcess pid body) h (.done (.ok a)) ↔
      ∃ handle h', h = ⟨.openProcess pid, some handle⟩ :: h' ++ [⟨.closeHandle handle, ()⟩] ∧
        Prog.Reaches (body handle) h' (.done (.ok a)) := by
  rw [withProcess]
  constructor
  · intro hr
    obtain ⟨opened, h₁, rfl, hbody⟩ := Prog.reaches_await_done_iff.1 hr
    cases opened with
    | none => cases (Prog.reaches_done_iff.1 hbody).2
    | some handle =>
      obtain ⟨r, h₂, h₃, rfl, hrun, hclose⟩ := Prog.reaches_bind_done_iff.1 hbody
      obtain ⟨⟨⟩, h₄, rfl, hend⟩ := Prog.reaches_await_done_iff.1 hclose
      obtain ⟨rfl, ⟨⟩⟩ := Prog.reaches_done_iff.1 hend
      exact ⟨handle, h₂, rfl, hrun⟩
  · rintro ⟨handle, h', rfl, hrun⟩
    exact .cons (Prog.reaches_bind_done_iff.2 ⟨_, h', _, rfl, hrun, .cons (.nil _)⟩)

/-- The two halves of a time do not overlap, so the shift and the or of the source are a sum. -/
theorem FileTime.toNat_toUInt64 (time : FileTime) :
    time.toUInt64.toNat = time.high.toNat * 2 ^ 32 + time.low.toNat := by
  have hhigh := time.high.toNat_lt
  have hlow := time.low.toNat_lt
  have hshift : time.high.toNat <<< 32 < 2 ^ 64 := by
    rw [Nat.shiftLeft_eq]
    omega
  rw [FileTime.toUInt64, UInt64.toNat_or, UInt64.toNat_shiftLeft, UInt32.toNat_toUInt64,
    UInt32.toNat_toUInt64]
  change time.high.toNat <<< 32 % 2 ^ 64 ||| time.low.toNat = _
  rw [Nat.mod_eq_of_lt hshift, ← Nat.shiftLeft_add_eq_or_of_lt hlow, Nat.shiftLeft_eq]

/-- The two halves of a time are found in it again, so equal numbers are equal times. -/
theorem FileTime.toUInt64_injective : Function.Injective FileTime.toUInt64 := by
  intro time time' h
  have hnat := congrArg UInt64.toNat h
  rw [FileTime.toNat_toUInt64, FileTime.toNat_toUInt64] at hnat
  have hlow := time.low.toNat_lt
  have hlow' := time'.low.toNat_lt
  have hboth : time.low = time'.low ∧ time.high = time'.high := by
    rw [← UInt32.toNat_inj, ← UInt32.toNat_inj]
    omega
  cases time
  cases time'
  rw [FileTime.mk.injEq]
  exact hboth

/-- The system calls of a creation time that was found: open, ask, close. -/
def timeCalls (pid : UInt32) (handle : Handle) (time : FileTime) : History :=
  [⟨.openProcess pid, some handle⟩, ⟨.getProcessTimes handle, some time⟩,
    ⟨.closeHandle handle, ()⟩]

/-- The system calls of the check of an image: both files are read between opening and closing the
process. -/
def imageCalls (pid : UInt32) (handle : Handle) (path : WidePath) (image : List UInt8)
    (file : Except FileError (List UInt8)) : History :=
  [⟨.openProcess pid, some handle⟩, ⟨.queryFullProcessImageName handle, some path⟩,
    ⟨.read path, .ok image⟩, ⟨.read (signaturePathFor path), file⟩, ⟨.closeHandle handle, ()⟩]

/-- The ways to a creation time: the process is opened, asked and closed, and there is no other. -/
theorem reaches_processCreationTime_iff {created : UInt64} :
    Prog.Reaches (processCreationTime pid) h (.done (.ok created)) ↔
      ∃ handle time, h = timeCalls pid handle time ∧ created = time.toUInt64 := by
  rw [processCreationTime, reaches_withProcess_iff]
  constructor
  · rintro ⟨handle, h', rfl, hr⟩
    obtain ⟨time, h'', rfl, hend⟩ := Prog.reaches_await_done_iff.1 hr
    cases time with
    | none => cases (Prog.reaches_done_iff.1 hend).2
    | some time =>
      obtain ⟨rfl, ⟨⟩⟩ := Prog.reaches_done_iff.1 hend
      exact ⟨handle, time, rfl, rfl⟩
  · rintro ⟨handle, time, rfl, rfl⟩
    exact ⟨handle, [_], rfl, .cons (.nil _)⟩

/-- The ways to a verified image: both files are read while the process is open, and the signature
is good. -/
theorem reaches_verifyProcessImage_iff {ed : Ed25519} {debug : Bool} {publicKey : List UInt8} :
    Prog.Reaches (verifyProcessImage ed debug pid publicKey) h (.done (.ok ())) ↔
      ∃ handle path image file, h = imageCalls pid handle path image file ∧
        Genuine ed debug publicKey image file := by
  rw [verifyProcessImage, reaches_withProcess_iff]
  constructor
  · rintro ⟨handle, h', rfl, hr⟩
    obtain ⟨path, h'', rfl, hfile⟩ := Prog.reaches_await_done_iff.1 hr
    cases path with
    | none => cases (Prog.reaches_done_iff.1 hfile).2
    | some path =>
      obtain ⟨image, file, rfl, hgenuine⟩ := reaches_verifySignedFile_iff.1 hfile
      exact ⟨handle, path, image, file, rfl, hgenuine⟩
  · rintro ⟨handle, path, image, file, rfl, hgenuine⟩
    refine ⟨handle, [_, _, _], rfl, .cons (reaches_verifySignedFile_iff.2 ?_)⟩
    exact ⟨image, file, rfl, hgenuine⟩

end Process

/-! ### The server half -/

section Server

variable {h : List (Prog.Event PacketOp PacketOp.Ans)} {mac : Mac} {transport : Transport}
  {protocol : Protocol} {publicKey : List UInt8}

/-- A result goes on as a value in one way only: it is one, and nothing is awaited. -/
theorem reaches_orReport_iff {α : Type} {r : Except Report α} {a : α} :
    Prog.Reaches (orReport r).run h (.done (.ok a)) ↔ h = [] ∧ r = .ok a := by
  cases r with
  | ok b =>
    refine Prog.reaches_done_iff.trans (and_congr_right fun _ => ?_)
    rw [Prog.done.injEq, Except.ok.injEq, Except.ok.injEq, eq_comm]
  | error report =>
    refine Prog.reaches_done_iff.trans (and_congr_right fun _ => ?_)
    simp

/-- The ways past a question to the operating system: one for each answer. -/
theorem reaches_askHost_iff {op : HostOp} {ans : op.Ans} :
    Prog.Reaches (askHost op).run h (.done (.ok ans)) ↔ h = [⟨.host op, ans⟩] := by
  constructor
  · intro hr
    obtain ⟨ans', h', rfl, hend⟩ := Prog.reaches_await_done_iff.1 hr
    obtain ⟨rfl, ⟨⟩⟩ := Prog.reaches_done_iff.1 hend
    rfl
  · rintro rfl
    exact .cons (.nil _)

/-- The one way past a write: the packet is sent. -/
theorem reaches_writePacket_iff {body : List UInt8} :
    Prog.Reaches (writePacket body).run h (.done (.ok ())) ↔ h = [⟨.writePacket body, .ok ()⟩] := by
  constructor
  · intro hr
    obtain ⟨ans, h', rfl, hend⟩ := Prog.reaches_await_done_iff.1 hr
    obtain ⟨rfl, rfl⟩ := reaches_orReport_iff.1 hend
    rfl
  · rintro rfl
    exact .cons (.nil _)

/-- The ways past a read: one for each packet. -/
theorem reaches_readPacket_iff {body : List UInt8} :
    Prog.Reaches readPacketWithTimeout.run h (.done (.ok body)) ↔
      h = [⟨.readPacketWithTimeout, .ok body⟩] := by
  constructor
  · intro hr
    obtain ⟨ans, h', rfl, hend⟩ := Prog.reaches_await_done_iff.1 hr
    obtain ⟨rfl, rfl⟩ := reaches_orReport_iff.1 hend
    rfl
  · rintro rfl
    exact .cons (.nil _)

/-- There is no way past a refusal. -/
theorem not_reaches_reject {α : Type} {reason : List UInt8} {report : Report} {a : α} :
    ¬ Prog.Reaches (reject reason report).run h (.done (.ok a)) := by
  intro hr
  obtain ⟨ans, h', rfl, hend⟩ := Prog.reaches_await_done_iff.1 hr
  cases (Prog.reaches_done_iff.1 hend).2

/-- The ways past the attestation: the system has told the pid, and it is the one that is looked at
later. -/
theorem reaches_attestPid_iff {attested : Option UInt32} :
    Prog.Reaches (attestPid transport (.signedProcess publicKey)).run h (.done (.ok attested)) ↔
      ∃ pid, h = [⟨.host .peerIdentity, .pid pid⟩] ∧ attested = some pid := by
  refine Prog.reaches_bind_ok_iff.trans ?_
  constructor
  · rintro ⟨identity, h₁, h₂, rfl, hask, hend⟩
    rw [reaches_askHost_iff.1 hask]
    cases identity with
    | pid pid =>
      obtain ⟨rfl, ⟨⟩⟩ := Prog.reaches_done_iff.1 hend
      exact ⟨pid, rfl, rfl⟩
    | unknown => cases (Prog.reaches_done_iff.1 hend).2
  · rintro ⟨pid, rfl, rfl⟩
    exact ⟨.pid pid, _, [], rfl, reaches_askHost_iff.2 rfl, .nil _⟩

/-- The ways past the nonce: the system has drawn it, and it is used as it is. -/
theorem reaches_freshNonce_iff {nonce : List UInt8} :
    Prog.Reaches freshNonce.run h (.done (.ok nonce)) ↔
      ∃ drawn, h = [⟨.host .fillRandom, .ok drawn⟩] ∧ nonce = drawn.val := by
  refine Prog.reaches_bind_ok_iff.trans ?_
  constructor
  · rintro ⟨drawn, h₁, h₂, rfl, hask, hend⟩
    rw [reaches_askHost_iff.1 hask]
    cases drawn with
    | ok drawn =>
      obtain ⟨rfl, ⟨⟩⟩ := Prog.reaches_done_iff.1 hend
      exact ⟨drawn, rfl, rfl⟩
    | error e => cases (Prog.reaches_done_iff.1 hend).2
  · rintro ⟨drawn, rfl, rfl⟩
    exact ⟨.ok drawn, _, [], rfl, reaches_askHost_iff.2 rfl, .nil _⟩

/-- The three checks, with the same creation time around the image: what a server that accepts has
been answered. -/
def checks (pid : UInt32) (publicKey : List UInt8) (created : UInt64) :
    List (Prog.Event PacketOp PacketOp.Ans) :=
  [⟨.host (.processCreationTime pid), .ok created⟩,
    ⟨.host (.verifyProcessImage pid publicKey), .ok ()⟩,
    ⟨.host (.processCreationTime pid), .ok created⟩]

/-- The ways past the three checks: the second creation time is the first. -/
theorem reaches_verifySignedProcess_iff {pid : UInt32} :
    Prog.Reaches (verifySignedProcess pid publicKey) h (.done (.ok ())) ↔
      ∃ created, h = checks pid publicKey created := by
  constructor
  · intro hr
    obtain ⟨before, h₁, rfl, himage⟩ := Prog.reaches_await_done_iff.1 hr
    cases before with
    | error report => cases (Prog.reaches_done_iff.1 himage).2
    | ok before =>
      obtain ⟨verdict, h₂, rfl, hafter⟩ := Prog.reaches_await_done_iff.1 himage
      cases verdict with
      | error report => cases (Prog.reaches_done_iff.1 hafter).2
      | ok verdict =>
        obtain ⟨after, h₃, rfl, hend⟩ := Prog.reaches_await_done_iff.1 hafter
        cases after with
        | error report => cases (Prog.reaches_done_iff.1 hend).2
        | ok after =>
          dsimp only at hend
          split_ifs at hend with hsame
          · cases (Prog.reaches_done_iff.1 hend).2
          · obtain ⟨rfl, -⟩ := Prog.reaches_done_iff.1 hend
            exact ⟨before, by rw [checks, not_not.1 hsame]⟩
  · rintro ⟨created, rfl⟩
    refine .cons (.cons (.cons ?_))
    dsimp only
    rw [if_neg (not_not.2 rfl)]
    exact .nil _

/-- The body of a packet that the server takes for the version it returns: of the scheme and the
version of the handshake, with a protocol that goes with the server's. Whatever is in place of a
proof is not looked at. -/
def Welcome (mode : HandshakeMode) (protocol : Protocol) (body : List UInt8)
    (version : Option Version) : Prop :=
  ∃ peer proof, foreignVersion body = none ∧
    decodeClientAuth body = .ok (mode.schemeId, peer, proof) ∧
    incompatibility protocol peer = none ∧ version = some peer.version

/-- In this mode the check of the proof is that of the process, and the proof itself is not looked
at. -/
theorem reaches_checkProof_iff {pid : UInt32} {nonce proof : List UInt8} :
    Prog.Reaches (checkProof mac (some pid) nonce proof (.signedProcess publicKey)).run h
        (.done (.ok ())) ↔
      ∃ created, h = checks pid publicKey created := by
  rw [← reaches_verifySignedProcess_iff]
  refine Prog.reaches_bind_ok_iff.trans ?_
  constructor
  · rintro ⟨r, h₁, h₂, rfl, hchecks, hend⟩
    obtain ⟨r', h₃, h₄, rfl, hverify, hlift⟩ := Prog.reaches_bind_done_iff.1 hchecks
    obtain ⟨rfl, ⟨⟩⟩ := Prog.reaches_done_iff.1 hlift
    cases r with
    | error report => exact absurd hend not_reaches_reject
    | ok _ =>
      obtain ⟨rfl, -⟩ := Prog.reaches_done_iff.1 hend
      rw [List.append_nil, List.append_nil]
      exact hverify
  · intro hverify
    refine ⟨.ok (), h, [], (List.append_nil h).symm, ?_, .nil _⟩
    exact Prog.reaches_bind_done_iff.2
      ⟨_, h, [], (List.append_nil h).symm, hverify, .nil _⟩

/-- What follows on a welcome packet: the three questions, two of them with the same answer, and the
ack. -/
theorem reaches_accept_iff {pid : UInt32} {nonce proof : List UInt8} {peer : Protocol}
    {version : Option Version} :
    Prog.Reaches (do
        checkProof mac (some pid) nonce proof (.signedProcess publicKey)
        writePacket (encodeAck ACK_OK [])
        pure (some peer.version) : HandshakeM (Option Version)).run h (.done (.ok version)) ↔
      (∃ created, h = checks pid publicKey created ++
        [⟨.writePacket (encodeAck ACK_OK []), .ok ()⟩]) ∧ version = some peer.version := by
  refine Prog.reaches_bind_ok_iff.trans ?_
  constructor
  · rintro ⟨⟨⟩, h₁, h₂, rfl, hcheck, hwrite⟩
    obtain ⟨created, rfl⟩ := reaches_checkProof_iff.1 hcheck
    obtain ⟨⟨⟩, h₃, h₄, rfl, hack, hend⟩ := Prog.reaches_bind_ok_iff.1 hwrite
    obtain ⟨rfl, ⟨⟩⟩ := Prog.reaches_done_iff.1 hend
    rw [reaches_writePacket_iff.1 hack]
    exact ⟨⟨created, rfl⟩, rfl⟩
  · rintro ⟨⟨created, rfl⟩, rfl⟩
    refine ⟨(), _, _, rfl, reaches_checkProof_iff.2 ⟨created, rfl⟩, ?_⟩
    exact Prog.reaches_bind_ok_iff.2 ⟨(), _, [], rfl, reaches_writePacket_iff.2 rfl, .nil _⟩

/-- The server's answer to a packet is a value behind the three checks, if the packet is welcome. -/
theorem reaches_answerAuth_iff {pid : UInt32} {nonce body : List UInt8}
    {version : Option Version} :
    Prog.Reaches (answerAuth mac (.signedProcess publicKey) protocol (some pid) nonce body).run h
        (.done (.ok version)) ↔
      (∃ created, h = checks pid publicKey created ++
          [⟨.writePacket (encodeAck ACK_OK []), .ok ()⟩]) ∧
        Welcome (.signedProcess publicKey) protocol body version := by
  constructor
  · intro hr
    cases hversion : foreignVersion body with
    | some foreign =>
      obtain ⟨reason, heq⟩ := @answerAuth_of_foreign mac (.signedProcess publicKey) protocol
        (some pid) nonce _ _ hversion
      rw [heq] at hr
      exact absurd hr not_reaches_reject
    | none =>
      cases hdecode : decodeClientAuth body with
      | error report =>
        rw [answerAuth_of_malformed hversion hdecode] at hr
        cases (Prog.reaches_done_iff.1 hr).2
      | ok decoded =>
        obtain ⟨scheme, peer, proof⟩ := decoded
        by_cases hscheme : scheme = (HandshakeMode.signedProcess publicKey).schemeId
        · subst hscheme
          cases hcompat : incompatibility protocol peer with
          | some refusal =>
            rw [answerAuth_of_incompatible hversion hdecode hcompat] at hr
            exact absurd hr not_reaches_reject
          | none =>
            rw [answerAuth_of_compatible hversion hdecode hcompat] at hr
            obtain ⟨hcalls, heq⟩ := reaches_accept_iff.1 hr
            exact ⟨hcalls, peer, proof, hversion, hdecode, hcompat, heq⟩
        · obtain ⟨reason, heq⟩ := @answerAuth_of_scheme mac (.signedProcess publicKey) protocol
            peer (some pid) nonce _ _ _ hversion hdecode hscheme
          rw [heq] at hr
          exact absurd hr not_reaches_reject
  · rintro ⟨hcalls, peer, proof, hversion, hdecode, hcompat, heq⟩
    rw [answerAuth_of_compatible hversion hdecode hcompat]
    exact reaches_accept_iff.2 ⟨hcalls, heq⟩

/-- The packets before the checks: the peer has a pid, the nonce is sent, and a packet comes. -/
def opening (publicKey : List UInt8) (protocol : Protocol) (pid : UInt32)
    (nonce : { nonce : List UInt8 // nonce.length = NONCE_LEN }) (body : List UInt8) :
    List (Prog.Event PacketOp PacketOp.Ans) :=
  [⟨.host .peerIdentity, .pid pid⟩, ⟨.host .fillRandom, .ok nonce⟩,
    ⟨.writePacket (encodeHello (HandshakeMode.signedProcess publicKey).schemeId protocol nonce.val),
      .ok ()⟩,
    ⟨.readPacketWithTimeout, .ok body⟩]

/-- The histories in which the server half returns a value: the opening, a packet that is welcome,
the checks, and the ack. -/
theorem reaches_authenticateServer_iff {version : Option Version} :
    Prog.Reaches (authenticateServer mac transport (.signedProcess publicKey) protocol).run h
        (.done (.ok version)) ↔
      ∃ pid nonce body created, Welcome (.signedProcess publicKey) protocol body version ∧
        h = opening publicKey protocol pid nonce body ++ checks pid publicKey created ++
          [⟨.writePacket (encodeAck ACK_OK []), .ok ()⟩] := by
  rw [authenticateServer_eq (by simp)]
  refine Prog.reaches_bind_ok_iff.trans ?_
  constructor
  · rintro ⟨attested, h₁, h₂, rfl, hpid, hr⟩
    obtain ⟨pid, rfl, rfl⟩ := reaches_attestPid_iff.1 hpid
    obtain ⟨nonce, h₃, h₄, rfl, hnonce, hr'⟩ := Prog.reaches_bind_ok_iff.1 hr
    obtain ⟨drawn, rfl, rfl⟩ := reaches_freshNonce_iff.1 hnonce
    obtain ⟨⟨⟩, h₅, h₆, rfl, hwrite, hr''⟩ := Prog.reaches_bind_ok_iff.1 hr'
    obtain ⟨body, h₇, h₈, rfl, hread, hanswer⟩ := Prog.reaches_bind_ok_iff.1 hr''
    obtain ⟨⟨created, rfl⟩, hwelcome⟩ := reaches_answerAuth_iff.1 hanswer
    rw [reaches_writePacket_iff.1 hwrite, reaches_readPacket_iff.1 hread]
    exact ⟨pid, drawn, body, created, hwelcome, rfl⟩
  · rintro ⟨pid, nonce, body, created, hwelcome, rfl⟩
    refine ⟨some pid, [_], _, rfl, reaches_attestPid_iff.2 ⟨pid, rfl, rfl⟩, ?_⟩
    refine Prog.reaches_bind_ok_iff.2
      ⟨nonce.val, [_], _, rfl, reaches_freshNonce_iff.2 ⟨nonce, rfl, rfl⟩, ?_⟩
    refine Prog.reaches_bind_ok_iff.2 ⟨(), [_], _, rfl, reaches_writePacket_iff.2 rfl, ?_⟩
    refine Prog.reaches_bind_ok_iff.2 ⟨body, [_], _, rfl, reaches_readPacket_iff.2 rfl, ?_⟩
    exact reaches_answerAuth_iff.2 ⟨⟨created, rfl⟩, hwelcome⟩

end Server

/-! ### What the server has looked at -/

section Host

variable {ed : Ed25519} {debug : Bool}

/-- An operation on packets is handed on as it is, and its answer as well. -/
theorem reaches_onPacket_iff {op : PacketOp} {ans : op.Ans} {l : History} :
    Prog.Reaches (onPacket op) l (.done ans) ↔ l = [⟨.packet op, ans⟩] := by
  constructor
  · intro hr
    obtain ⟨ans', h', rfl, hend⟩ := Prog.reaches_await_done_iff.1 hr
    obtain ⟨rfl, ⟨⟩⟩ := Prog.reaches_done_iff.1 hend
    rfl
  · rintro rfl
    exact .cons (.nil _)

/-- What happens to the connection, as a part of a history that has system calls in it too. -/
def packets (h : List (Prog.Event PacketOp PacketOp.Ans)) : History :=
  h.map fun event => ⟨.packet event.op, event.ans⟩

/-- Operations that are left as they are come first, one by one, and the rest is carried out behind
them. -/
theorem carries_packets_iff {impl : (op : PacketOp) → WinProg op.Ans}
    {h h' : List (Prog.Event PacketOp PacketOp.Ans)} {l : History}
    (hplain : ∀ event ∈ h, impl event.op = onPacket event.op) :
    Prog.Carries impl (h ++ h') l ↔ ∃ l', l = packets h ++ l' ∧ Prog.Carries impl h' l' := by
  induction h generalizing l with
  | nil => simp [packets]
  | cons event h ih =>
    have hevent := hplain event List.mem_cons_self
    have hrest := fun l => @ih l fun event' hmem => hplain event' (List.mem_cons_of_mem _ hmem)
    rw [List.cons_append, Prog.carries_cons_iff]
    constructor
    · rintro ⟨l₁, l₂, rfl, hop, hcarries⟩
      rw [hevent] at hop
      obtain ⟨l', rfl, hcarries'⟩ := (hrest l₂).1 hcarries
      exact ⟨l', by rw [reaches_onPacket_iff.1 hop]; rfl, hcarries'⟩
    · rintro ⟨l', rfl, hcarries⟩
      refine ⟨[_], packets h ++ l', rfl, ?_, (hrest _).2 ⟨l', rfl, hcarries⟩⟩
      rw [hevent]
      exact reaches_onPacket_iff.2 rfl

/-- The packets before the checks are carried out as they are, where packets are. -/
theorem carries_opening_iff (impl : (op : PacketOp) → WinProg op.Ans) {publicKey : List UInt8}
    {protocol : Protocol} {pid : UInt32}
    {nonce : { nonce : List UInt8 // nonce.length = NONCE_LEN }} {body : List UInt8}
    {h : List (Prog.Event PacketOp PacketOp.Ans)} {l : History}
    (hidentity : impl (.host .peerIdentity) = onPacket (.host .peerIdentity))
    (hrandom : impl (.host .fillRandom) = onPacket (.host .fillRandom))
    (hwrite : ∀ body, impl (.writePacket body) = onPacket (.writePacket body))
    (hread : impl .readPacketWithTimeout = onPacket .readPacketWithTimeout) :
    Prog.Carries impl (opening publicKey protocol pid nonce body ++ h) l ↔
      ∃ l', l = packets (opening publicKey protocol pid nonce body) ++ l' ∧
        Prog.Carries impl h l' := by
  refine carries_packets_iff fun event hmem => ?_
  simp only [opening, List.mem_cons, List.not_mem_nil, or_false] at hmem
  rcases hmem with rfl | rfl | rfl | rfl
  · exact hidentity
  · exact hrandom
  · exact hwrite _
  · exact hread

/-- **The three checks** are carried out on three handles of the pid. -/
theorem carries_checks_iff {pid : UInt32} {publicKey : List UInt8} {created : UInt64}
    {h : List (Prog.Event PacketOp PacketOp.Ans)} {l : History} :
    Prog.Carries (windowsHost ed debug) (checks pid publicKey created ++ h) l ↔
      ∃ a b c time path image file l', created = time.toUInt64 ∧
        Genuine ed debug publicKey image file ∧ l = timeCalls pid a time ++
          imageCalls pid b path image file ++ timeCalls pid c time ++ l' ∧
        Prog.Carries (windowsHost ed debug) h l' := by
  rw [checks, List.cons_append, Prog.carries_cons_iff]
  constructor
  · rintro ⟨l₁, l₂, rfl, hbefore, hcarries⟩
    obtain ⟨a, time, rfl, rfl⟩ := reaches_processCreationTime_iff.1 hbefore
    obtain ⟨l₃, l₄, rfl, himage, hcarries'⟩ := Prog.carries_cons_iff.1 hcarries
    obtain ⟨b, path, image, file, rfl, hgenuine⟩ := reaches_verifyProcessImage_iff.1 himage
    obtain ⟨l₅, l₆, rfl, hafter, hcarries''⟩ := Prog.carries_cons_iff.1 hcarries'
    obtain ⟨c, time', rfl, heq⟩ := reaches_processCreationTime_iff.1 hafter
    cases FileTime.toUInt64_injective heq
    exact ⟨a, b, c, time, path, image, file, l₆, rfl, hgenuine, by simp, hcarries''⟩
  · rintro ⟨a, b, c, time, path, image, file, l', rfl, hgenuine, rfl, hcarries⟩
    refine ⟨timeCalls pid a time, _, by rw [List.append_assoc, List.append_assoc],
      reaches_processCreationTime_iff.2 ⟨a, time, rfl, rfl⟩, ?_⟩
    refine Prog.carries_cons_iff.2 ⟨_, _, rfl, reaches_verifyProcessImage_iff.2
      ⟨b, path, image, file, rfl, hgenuine⟩, ?_⟩
    exact Prog.carries_cons_iff.2
      ⟨_, l', rfl, reaches_processCreationTime_iff.2 ⟨c, time, rfl, rfl⟩, hcarries⟩

/-- **The histories in which a server in signed-process mode accepts a client**, on Windows. The
peer has a pid; a nonce is sent and a welcome packet comes; the process of the pid is opened for its
creation time, then for its image, then for the same creation time again; the image is read at the
path the process has, what is beside it is read, and the two are genuine under the public key; the
acknowledgement is sent. In every such history the server accepts, and in no other. -/
theorem accepted_peer_iff (ed : Ed25519) (debug : Bool) (mac : Mac) (transport : Transport)
    (publicKey : List UInt8) (protocol : Protocol) (history : History)
    (version : Option Version) :
    Prog.Reaches
        ((authenticateServer mac transport (.signedProcess publicKey) protocol).run.interpret
          (windowsHost ed debug)) history (.done (.ok version)) ↔
      ∃ pid nonce body a b c time path image file,
        Welcome (.signedProcess publicKey) protocol body version ∧
        Genuine ed debug publicKey image file ∧
        history = packets (opening publicKey protocol pid nonce body) ++
          (timeCalls pid a time ++ imageCalls pid b path image file ++ timeCalls pid c time) ++
          packets [⟨.writePacket (encodeAck ACK_OK []), .ok ()⟩] := by
  rw [Prog.reaches_interpret_done_iff]
  constructor
  · rintro ⟨h, hr, hcarries⟩
    obtain ⟨pid, nonce, body, created, hwelcome, rfl⟩ := reaches_authenticateServer_iff.1 hr
    rw [List.append_assoc, carries_opening_iff (windowsHost ed debug) rfl rfl (fun _ => rfl) rfl]
      at hcarries
    obtain ⟨l, rfl, hchecks⟩ := hcarries
    obtain ⟨a, b, c, time, path, image, file, l', -, hgenuine, rfl, hack⟩ :=
      carries_checks_iff.1 hchecks
    rw [← List.append_nil [_], carries_packets_iff (by simp [windowsHost])] at hack
    obtain ⟨l'', rfl, hnil⟩ := hack
    rw [Prog.carries_nil_iff.1 hnil]
    exact ⟨pid, nonce, body, a, b, c, time, path, image, file, hwelcome, hgenuine, by simp⟩
  · rintro ⟨pid, nonce, body, a, b, c, time, path, image, file, hwelcome, hgenuine, rfl⟩
    refine ⟨_, reaches_authenticateServer_iff.2
      ⟨pid, nonce, body, time.toUInt64, hwelcome, rfl⟩, ?_⟩
    rw [List.append_assoc, carries_opening_iff (windowsHost ed debug) rfl rfl (fun _ => rfl) rfl]
    refine ⟨_, List.append_assoc _ _ _, carries_checks_iff.2
      ⟨a, b, c, time, path, image, file, _, rfl, hgenuine, rfl, ?_⟩⟩
    rw [← List.append_nil [_], carries_packets_iff (by simp [windowsHost])]
    exact ⟨[], (List.append_nil _).symm, .nil⟩

/-- **Outside Windows a server in signed-process mode accepts nobody**, whatever the connection and
the system answer. -/
theorem stub_never_accepts (mac : Mac) (transport : Transport) (publicKey : List UInt8)
    (protocol : Protocol) (history : History) (version : Option Version) :
    ¬ Prog.Reaches
      ((authenticateServer mac transport (.signedProcess publicKey) protocol).run.interpret
        stubHost) history (.done (.ok version)) := by
  rw [Prog.reaches_interpret_done_iff]
  rintro ⟨h, hr, hcarries⟩
  obtain ⟨pid, nonce, body, created, -, rfl⟩ := reaches_authenticateServer_iff.1 hr
  rw [List.append_assoc, carries_opening_iff stubHost rfl rfl (fun _ => rfl) rfl] at hcarries
  obtain ⟨l, rfl, hchecks⟩ := hcarries
  -- the first creation time is never told
  obtain ⟨l₁, l₂, rfl, hbefore, -⟩ := Prog.carries_cons_iff.1 hchecks
  cases (Prog.reaches_done_iff.1 hbefore).2

end Host

/-! ### Handles -/

/-- The open handles behind one more call: opening adds one, and closing takes it away. -/
def nextHeld (held : List Handle) : (op : WinOp) → op.Ans → List Handle
  | .openProcess _, some handle => handle :: held
  | .closeHandle handle, _ => held.erase handle
  | _, _ => held

/-- The open handles behind a history that began with none. -/
def held (h : History) : List Handle :=
  h.foldl (fun handles event => nextHeld handles event.op event.ans) []

/-- A call that is given a handle, which has to be open. -/
inductive WinOp.Uses : WinOp → Handle → Prop
  | getProcessTimes (handle : Handle) : Uses (.getProcessTimes handle) handle
  | queryFullProcessImageName (handle : Handle) : Uses (.queryFullProcessImageName handle) handle
  | closeHandle (handle : Handle) : Uses (.closeHandle handle) handle

/-- What a call needs: at most one handle is open, the one it is given is, and none is where the
handshake waits. -/
structure Guarded (handles : List Handle) (op : WinOp) : Prop where
  single : handles.length ≤ 1
  uses : ∀ handle, op.Uses handle → handle ∈ handles
  waits : ∀ packet, op = .packet packet → handles = []

section Handles

variable {ed : Ed25519} {debug : Bool} {handle : Handle}

/-- What uses the one open handle may be called, and so may what uses none. -/
theorem guarded_of_open {op : WinOp} (huses : ∀ handle', op.Uses handle' → handle' = handle)
    (hpacket : ∀ packet, op ≠ .packet packet) : Guarded [handle] op where
  single := Nat.le_refl 1
  uses handle' h := by
    rw [huses handle' h]
    exact List.mem_cons_self
  waits packet h := absurd h (hpacket packet)

/-- The two files are read with the handle of the process open, and the handle is left open. -/
theorem safe_verifySignedFile (imagePath : WidePath) (publicKey : List UInt8) :
    (verifySignedFile ed debug imagePath publicKey).Safe Guarded nextHeld
      (fun handles _ => handles = [handle]) [handle] := by
  have hread : ∀ path, Guarded [handle] (.read path) := fun path =>
    guarded_of_open (by rintro _ ⟨⟩) (by rintro _ ⟨⟩)
  rw [verifySignedFile]
  cases parseVerifyingKey ed publicKey with
  | error report => rfl
  | ok key =>
    refine ⟨hread imagePath, ?_⟩
    rintro (e | image)
    · rfl
    · exact ⟨hread _, fun _ => rfl⟩

/-- The handle of a process is open for what is done with it, and not any longer. -/
theorem safe_withProcess {α : Type} (pid : UInt32) {body : Handle → WinProg (Except Report α)}
    (hbody : ∀ handle, (body handle).Safe Guarded nextHeld
      (fun handles _ => handles = [handle]) [handle]) :
    (withProcess pid body).Safe Guarded nextHeld (fun handles _ => handles = []) [] := by
  refine ⟨⟨Nat.zero_le 1, by rintro _ ⟨⟩, fun _ _ => rfl⟩, ?_⟩
  rintro (_ | handle)
  · rfl
  · refine Prog.Safe.bind (Prog.Safe.mono ?_ (hbody handle))
    rintro _ r rfl
    refine ⟨guarded_of_open ?_ (by rintro _ ⟨⟩), fun _ => List.erase_cons_head handle []⟩
    rintro _ ⟨⟩
    rfl

/-- Every question leaves as many handles as it found: none. It closes what it has opened, also
where it fails. -/
theorem safe_windowsHost (op : PacketOp) (handles : List Handle) (h : handles = []) :
    (windowsHost ed debug op).Safe Guarded nextHeld (fun handles _ => handles = []) handles := by
  subst h
  have hpacket : ∀ op : PacketOp, Guarded [] (.packet op) := fun op =>
    ⟨Nat.zero_le 1, by rintro _ ⟨⟩, fun _ _ => rfl⟩
  rcases op with body | _ | _ | _ | pid | ⟨pid, publicKey⟩
  · exact ⟨hpacket _, fun _ => rfl⟩
  · exact ⟨hpacket _, fun _ => rfl⟩
  · exact ⟨hpacket _, fun _ => rfl⟩
  · exact ⟨hpacket _, fun _ => rfl⟩
  · refine safe_withProcess pid fun handle => ⟨guarded_of_open ?_ (by rintro _ ⟨⟩), ?_⟩
    · rintro _ ⟨⟩
      rfl
    · rintro (_ | time)
      · rfl
      · rfl
  · refine safe_withProcess pid fun handle => ⟨guarded_of_open ?_ (by rintro _ ⟨⟩), ?_⟩
    · rintro _ ⟨⟩
      rfl
    · rintro (_ | path)
      · rfl
      · exact safe_verifySignedFile path publicKey

end Handles

/-- **Handles are released.** Whatever program asks about processes, at every point of every history
at most one handle is open, a call that is given a handle is given an open one, so that none is
closed twice, and no handle is open where the program waits for a packet, where it may be dropped,
or when it is over. -/
theorem handles_released (ed : Ed25519) (debug : Bool) {α : Type} (p : PacketProg α)
    {history : History} {q : WinProg α}
    (h : Prog.Reaches (p.interpret (windowsHost ed debug)) history q) :
    (held history).length ≤ 1 ∧
    (∀ op k, q = .await op k → ∀ handle, op.Uses handle → handle ∈ held history) ∧
    (∀ op k, q = .await (.packet op) k → held history = []) ∧
    (∀ a, q = .done a → held history = []) := by
  have hsafe := Prog.Safe.of_reaches (Prog.Safe.interpret safe_windowsHost p rfl) h
  change q.Safe Guarded nextHeld _ (held history) at hsafe
  cases q with
  | done a =>
    have hnil : held history = [] := hsafe
    rw [hnil]
    exact ⟨Nat.zero_le 1, by rintro _ _ ⟨⟩, by rintro _ _ ⟨⟩, fun _ _ => rfl⟩
  | await op k =>
    have hguard : Guarded (held history) op := hsafe.1
    refine ⟨hguard.single, ?_, ?_, by rintro _ ⟨⟩⟩
    · rintro _ _ ⟨⟩ handle huses
      exact hguard.uses handle huses
    · rintro packet _ ⟨⟩
      exact hguard.waits packet rfl

/-- A question for a creation time, to evaluate a run with. -/
def sampleQuestion : PacketProg (Except Report UInt64) :=
  .await (.host (.processCreationTime 7)) .done

/-- No key at all: every public key is refused, which is enough for a sample that fails. -/
def noKeys : Ed25519 := ⟨Empty, fun _ => none, fun key _ _ => key.elim⟩

/-- While the creation time of a process is read, its handle is open. -/
theorem handles_released_sample :
    ∃ k, Prog.Reaches (sampleQuestion.interpret (windowsHost noKeys false))
        [⟨.openProcess 7, some 3⟩] (.await (.getProcessTimes 3) k) ∧
      3 ∈ held [⟨.openProcess 7, some 3⟩] := by
  have hr : Prog.Reaches (sampleQuestion.interpret (windowsHost noKeys false))
      [⟨.openProcess 7, some 3⟩] _ := .cons (.nil _)
  exact ⟨_, hr, (handles_released noKeys false sampleQuestion hr).2.1 _ _ rfl 3
    (.getProcessTimes 3)⟩

end SignedProcess

end Ogurpchik
