import Ogurpchik.Handshake
import Ogurpchik.Transition

/-!
# Attestation of the Peer Process

In signed-process mode the server accepts a client for the image its process was started from.
The operating system names the process by its pid. `verify_signed_process` reads the creation
time of the pid, verifies the image of the pid and reads the creation time again, and fails if
the two times differ.

A pid is free when its process has exited, and can then be given to another one. This module
runs the server half next to an operating system whose processes start and exit at any time. A
connection remembers the pid of the process that opened it, and two processes that had one pid
have different creation times.

The two creation times bracket the verification, so the image that was verified is that of the
process the first of them belongs to. Nothing ties that process to the connection: the pid was
remembered when the connection was opened, and the client decides how long the server waits for
its packet.

## Main definitions

* `World`: the processes.
* `Seen`: what the answers to the server's questions have established so far.
* `Step`, `Reachable`: all interleavings of the server with starts and exits.
* `ReusedBeforeCheck`: the server is about to read the creation time of another process than
  the one that opened the connection.

## Main results

* `tracks_authenticateServer`: the server half returns a value only behind the three checks.
* `accepted_opener_verifies`: **unless the pid was given away before the first check, the
  process that opened the connection is the one that was verified.**
* `reused_pid_accepted`: a process that is not signed opens a connection and is accepted.
-/

namespace Ogurpchik

namespace Attestation

open Async Transition

/-! ### What the server has established -/

/-- How far the checks of a pid have come: a creation time, the image behind it, and the same
creation time again. -/
inductive Stage
  | start
  | created (pid : UInt32) (time : UInt64)
  | imaged (pid : UInt32) (time : UInt64)
  | verified (pid : UInt32)

/-- The pid the peer was said to have, and how far the checks have come: what the server has
established by its questions. -/
structure Seen where
  attested : Option UInt32
  stage : Stage

/-- Record the answer to a question for a creation time: the first one, or the same again behind
a verified image. -/
def Stage.creationTime (pid : UInt32) : Stage → Except Report UInt64 → Stage
  | start, .ok time => created pid time
  | imaged pid' time', .ok time => if pid = pid' ∧ time = time' then verified pid else start
  | stage, _ => stage

/-- Record the answer to a question for an image, which counts only behind a creation time of the
same pid and for the right key. -/
def Stage.image (publicKey : List UInt8) (pid : UInt32) (publicKey' : List UInt8) :
    Stage → Except Report Unit → Stage
  | created pid' time, .ok () =>
      if pid = pid' ∧ publicKey' = publicKey then imaged pid time else start
  | stage, _ => stage

/-- Record an answer: only those about the peer count, and packets establish nothing. -/
def Seen.next (publicKey : List UInt8) (seen : Seen) : (op : PacketOp) → op.Ans → Seen
  | .host .peerIdentity, .pid pid => { seen with attested := some pid }
  | .host .peerIdentity, .unknown | .host .fillRandom, _ => seen
  | .host (.processCreationTime pid), ans =>
      { seen with stage := seen.stage.creationTime pid ans }
  | .host (.verifyProcessImage pid publicKey'), ans =>
      { seen with stage := seen.stage.image publicKey pid publicKey' ans }
  | .writePacket _, _ | .readPacketWithTimeout, _ => seen

/-- What the server half is at some point of its run, between two answers. -/
abbrev ServerProg := PacketProg (Except HandshakeFault (Option Version))

/-- If `x` returns a value, that value and what was established satisfy `post`, whatever the answers
were. -/
def Tracks {α : Type} (publicKey : List UInt8) (post : Seen → α → Prop) (x : HandshakeM α)
    (seen : Seen) : Prop :=
  x.run.wp (Seen.next publicKey) (fun seen r => ∀ a, r = .ok a → post seen a) seen

section Tracks

variable {α β : Type} {publicKey : List UInt8} {post : Seen → β → Prop} {seen : Seen}

/-- The rule of sequence: what is established in front carries over to what follows. -/
theorem Tracks.bind {x : HandshakeM α} {f : α → HandshakeM β}
    (h : Tracks publicKey (fun seen a => Tracks publicKey post (f a) seen) x seen) :
    Tracks publicKey post (x >>= f) seen := by
  refine Prog.wp_bind (Prog.wp_mono (fun seen r hr => ?_) h)
  cases r with
  | ok a => exact hr a rfl
  | error fault => exact fun b hb => by cases hb

/-- Returning a value establishes nothing new. -/
theorem tracks_pure {b : β} (h : post seen b) : Tracks publicKey post (pure b) seen :=
  fun _ hb => by
    cases hb
    exact h

/-- Nothing needs to be established for a failure. -/
theorem tracks_throw (fault : HandshakeFault) :
    Tracks publicKey post (throw fault : HandshakeM β) seen :=
  fun _ hb => by cases hb

/-- Nothing needs to be established for a refusal. -/
theorem tracks_reject (reason : List UInt8) (report : Report) :
    Tracks publicKey post (reject reason report) seen :=
  fun _ _ hb => by cases hb

/-- Turning a result into a failure establishes nothing new. -/
theorem tracks_orReport {r : Except Report β} (h : ∀ b, r = .ok b → post seen b) :
    Tracks publicKey post (orReport r) seen := by
  cases r with
  | ok b => exact tracks_pure (h b rfl)
  | error report => exact tracks_throw _

/-- Writing a packet establishes nothing about the peer. -/
theorem tracks_writePacket {post : Seen → Unit → Prop} (body : List UInt8) (h : post seen ()) :
    Tracks publicKey post (writePacket body) seen :=
  fun _ => tracks_orReport fun _ _ => h

/-- Reading a packet establishes nothing about the peer, whatever is in it. -/
theorem tracks_readPacket {post : Seen → List UInt8 → Prop} (h : ∀ body, post seen body) :
    Tracks publicKey post readPacketWithTimeout seen :=
  fun _ => tracks_orReport fun body _ => h body

/-- Drawing a nonce establishes nothing about the peer. -/
theorem tracks_freshNonce {post : Seen → List UInt8 → Prop} (h : ∀ nonce, post seen nonce) :
    Tracks publicKey post freshNonce seen := by
  rintro (e | nonce)
  · exact tracks_throw _
  · exact tracks_pure (h _)

/-- The pid the server goes on with is the one it was told. -/
theorem tracks_attestPid {post : Seen → Option UInt32 → Prop} (transport : Transport)
    (publicKey' : List UInt8) (stage : Stage)
    (h : ∀ pid, post ⟨some pid, stage⟩ (some pid)) :
    Tracks publicKey post (attestPid transport (.signedProcess publicKey')) ⟨none, stage⟩ := by
  rintro (pid | _)
  · exact tracks_pure (h pid)
  · exact tracks_throw _

/-- **The three checks** succeed only with the same creation time around the image. -/
theorem wp_verifySignedProcess {attested : Option UInt32} (pid : UInt32) :
    (verifySignedProcess pid publicKey).wp (Seen.next publicKey)
      (fun seen r => r = .ok () → seen = ⟨attested, .verified pid⟩) ⟨attested, .start⟩ := by
  rintro (report | before)
  · exact fun h => by cases h
  rintro (report | _)
  · exact fun h => by cases h
  rintro (report | after)
  · exact fun h => by cases h
  by_cases hsame : after = before
  · subst hsame
    simp [Prog.wp, Seen.next, Stage.creationTime, Stage.image]
  · simp [Prog.wp, hsame]

/-- In this mode the check of a proof is the check of the attested process, and passes only once
that is verified. -/
theorem tracks_checkProof {post : Seen → Unit → Prop} (mac : Mac) {pid : UInt32}
    (nonce proof : List UInt8) (h : post ⟨some pid, .verified pid⟩ ()) :
    Tracks publicKey post (checkProof mac (some pid) nonce proof (.signedProcess publicKey))
      ⟨some pid, .start⟩ := by
  refine Tracks.bind (Prog.wp_bind (Prog.wp_mono (fun seen r hr => ?_)
    (wp_verifySignedProcess pid)))
  rintro r' hr'
  cases hr'
  cases r with
  | ok =>
    rw [hr rfl]
    exact tracks_pure h
  | error report => exact tracks_reject _ _

/-- **The server half** returns a value only if the pid it was told has passed the three
checks. -/
theorem tracks_authenticateServer (mac : Mac) (transport : Transport) (protocol : Protocol) :
    Tracks publicKey
      (fun seen _ => ∃ pid, seen = ⟨some pid, .verified pid⟩)
      (authenticateServer mac transport (.signedProcess publicKey) protocol)
      ⟨none, .start⟩ := by
  refine Tracks.bind (tracks_attestPid transport publicKey .start fun pid => ?_)
  refine Tracks.bind (tracks_freshNonce fun nonce => ?_)
  refine Tracks.bind (tracks_writePacket _ ?_)
  refine Tracks.bind (tracks_readPacket fun body => ?_)
  rw [answerAuth]
  split
  · exact tracks_reject _ _
  refine Tracks.bind (tracks_orReport fun decoded _ => ?_)
  dsimp only
  split_ifs
  · exact tracks_reject _ _
  split
  · exact tracks_reject _ _
  · exact Tracks.bind (tracks_checkProof mac nonce _
      (Tracks.bind (tracks_writePacket _ (tracks_pure ⟨pid, rfl⟩))))

end Tracks

/-! ### The operating system -/

/-- A process: its pid, when it was created, and the image it runs. The pid and the creation time
together name it. -/
structure Process (Image : Type) where
  pid : UInt32
  created : UInt64
  image : Image

/-- The processes that run, by pid, and all that were ever started. Two processes that had one
pid have different creation times. -/
structure World (Image : Type) where
  running : UInt32 → Option (Process Image)
  started : List (Process Image)
  running_spec : ∀ pid p, running pid = some p → p.pid = pid ∧ p ∈ started
  created_inj : ∀ p ∈ started, ∀ q ∈ started, p.pid = q.pid → p.created = q.created → p = q

namespace World

variable {Image : Type}

/-- A process starts, under a pid that may have been in use before but with a creation time that was
not used with it. -/
def start (w : World Image) (p : Process Image)
    (hnew : ∀ q ∈ w.started, q.pid = p.pid → q.created ≠ p.created) : World Image where
  running := Function.update w.running p.pid (some p)
  started := p :: w.started
  running_spec pid q hq := by
    rcases update_eq_some hq with ⟨rfl, rfl⟩ | ⟨-, hq⟩
    · exact ⟨rfl, List.mem_cons_self⟩
    · exact (w.running_spec pid q hq).imp_right (List.mem_cons_of_mem p)
  created_inj q hq r hr hpid hcreated := by
    rcases List.mem_cons.mp hq with rfl | hq' <;> rcases List.mem_cons.mp hr with rfl | hr'
    · rfl
    · exact absurd hcreated.symm (hnew r hr' hpid.symm)
    · exact absurd hcreated (hnew q hq' hpid)
    · exact w.created_inj q hq' r hr' hpid hcreated

/-- The process that holds `pid`, if any, exits, and the pid is free again. -/
def exit (w : World Image) (pid : UInt32) : World Image where
  running := Function.update w.running pid none
  started := w.started
  running_spec pid' p hp := by
    by_cases h : pid' = pid
    · subst h
      rw [Function.update_self] at hp
      cases hp
    · rw [Function.update_of_ne h] at hp
      exact w.running_spec pid' p hp
  created_inj := w.created_inj

end World

section System

variable {Image : Type}

/-- A process starts under a free pid, or one exits: all that the operating system does on its own
here. -/
inductive OsStep : World Image → World Image → Prop
  | start {w : World Image} (p : Process Image)
      (hnew : ∀ q ∈ w.started, q.pid = p.pid → q.created ≠ p.created) :
      w.running p.pid = none → OsStep w (w.start p hnew)
  | exit {w : World Image} (pid : UInt32) : OsStep w (w.exit pid)

/-- What the server may be told over a connection that `opener` has opened. A question about a
pid is about the process that holds it now, and fails if there is none; every question may fail.
Packets are whatever the other side sends. -/
inductive Answers (verifies : Image → List UInt8 → Prop) (w : World Image)
    (opener : Process Image) : (op : PacketOp) → op.Ans → Prop
  | peer : Answers verifies w opener (.host .peerIdentity) (.pid opener.pid)
  | unknownPeer : Answers verifies w opener (.host .peerIdentity) .unknown
  | random (r : HostOp.Ans .fillRandom) : Answers verifies w opener (.host .fillRandom) r
  | created {pid : UInt32} {p : Process Image} : w.running pid = some p →
      Answers verifies w opener (.host (.processCreationTime pid)) (.ok p.created)
  | notCreated {pid : UInt32} (report : Report) :
      Answers verifies w opener (.host (.processCreationTime pid)) (.error report)
  | image {pid : UInt32} {publicKey : List UInt8} {p : Process Image} :
      w.running pid = some p → verifies p.image publicKey →
      Answers verifies w opener (.host (.verifyProcessImage pid publicKey)) (.ok ())
  | notImage {pid : UInt32} {publicKey : List UInt8} (report : Report) :
      Answers verifies w opener (.host (.verifyProcessImage pid publicKey)) (.error report)
  | write (body : List UInt8) (r : Except Report Unit) :
      Answers verifies w opener (.writePacket body) r
  | read (r : Except Report (List UInt8)) :
      Answers verifies w opener .readPacketWithTimeout r

/-- The processes, and where the server stands with what it has established about them. -/
structure State (Image : Type) where
  world : World Image
  seen : Seen
  node : ServerProg

/-- Who takes a step, so that a restriction can be put on the server alone. -/
inductive Actor
  | os
  | server

/-- One step: of the operating system, at any time, or of the server, which is answered by the
processes that run then. -/
inductive Step (verifies : Image → List UInt8 → Prop) (publicKey : List UInt8)
    (opener : Process Image) : Actor → State Image → State Image → Prop
  | os {s : State Image} {w : World Image} : OsStep s.world w →
      Step verifies publicKey opener .os s { s with world := w }
  | server {s : State Image} {op : PacketOp} {k : op.Ans → ServerProg} {ans : op.Ans} :
      s.node = .await op k → Answers verifies s.world opener op ans →
      Step verifies publicKey opener .server s
        { s with node := k ans, seen := s.seen.next publicKey op ans }

/-- One step that is `allowed`, which is how a window for a reused pid is left open or closed. -/
def Moves (verifies : Image → List UInt8 → Prop) (publicKey : List UInt8)
    (opener : Process Image) (allowed : Actor → State Image → Prop) (s t : State Image) : Prop :=
  ∃ a, Step verifies publicKey opener a s t ∧ allowed a s

/-- States that some interleaving of allowed steps reaches, from the moment `opener` has opened
the connection. -/
def Reachable (verifies : Image → List UInt8 → Prop) (publicKey : List UInt8)
    (opener : Process Image) (allowed : Actor → State Image → Prop) (mac : Mac)
    (transport : Transport) (protocol : Protocol) (w : World Image) (s : State Image) : Prop :=
  Relation.ReflTransGen (Moves verifies publicKey opener allowed)
    ⟨w, ⟨none, .start⟩, authenticateServer mac transport (.signedProcess publicKey) protocol⟩ s

/-- The server is about to read the creation time for the first time, and the pid of the process
that opened the connection is held by another one. -/
def ReusedBeforeCheck (opener : Process Image) (s : State Image) : Prop :=
  s.seen.stage = .start ∧ (∃ pid k, s.node = .await (.host (.processCreationTime pid)) k) ∧
    ∃ p, s.world.running opener.pid = some p ∧ p ≠ opener

/-! ### The invariant -/

variable {verifies : Image → List UInt8 → Prop} {publicKey : List UInt8} {opener : Process Image}

/-- What the server has established about the process that opened the connection. Between the
image and the second creation time that depends on whether the process still runs. -/
def Established (verifies : Image → List UInt8 → Prop) (publicKey : List UInt8)
    (opener : Process Image) (w : World Image) : Stage → Prop
  | .start => True
  | .created pid time => pid = opener.pid → time = opener.created
  | .imaged pid time => pid = opener.pid → time = opener.created ∧
      (w.running opener.pid = some opener → verifies opener.image publicKey)
  | .verified pid => pid = opener.pid → verifies opener.image publicKey

/-- The invariant of a server and an operating system: what was established is true of the process
that opened the connection, and the code has still to establish the rest. -/
structure Inv (verifies : Image → List UInt8 → Prop) (publicKey : List UInt8)
    (opener : Process Image) (s : State Image) : Prop where
  started : opener ∈ s.world.started
  attested : ∀ pid, s.seen.attested = some pid → pid = opener.pid
  established : Established verifies publicKey opener s.world s.seen.stage
  tracks : Tracks publicKey (fun seen _ => ∃ pid, seen = ⟨some pid, .verified pid⟩) s.node s.seen

/-- A process that has started is not forgotten, also when it has exited. -/
theorem OsStep.started {w w' : World Image} (h : OsStep w w') (hp : opener ∈ w.started) :
    opener ∈ w'.started := by
  cases h with
  | start p hnew _ => exact List.mem_cons_of_mem p hp
  | exit pid => exact hp

/-- A process that runs has run before: its pid does not come back to it. -/
theorem OsStep.running {w w' : World Image} (h : OsStep w w') (hp : opener ∈ w.started)
    (hrun : w'.running opener.pid = some opener) : w.running opener.pid = some opener := by
  cases h with
  | start p hnew _ =>
    rcases update_eq_some hrun with ⟨-, rfl⟩ | ⟨-, hrun⟩
    · exact absurd rfl (hnew opener hp rfl)
    · exact hrun
  | exit pid =>
    by_cases hpid : opener.pid = pid
    · subst hpid
      have hnone : (w.exit opener.pid).running opener.pid = none := by simp [World.exit]
      rw [hrun] at hnone
      cases hnone
    · exact (Function.update_of_ne hpid _ _).symm.trans hrun

/-- What is established of the opener survives what the operating system does meanwhile: the pid may
go to another process, but the creation time does not. -/
theorem Established.os {w w' : World Image} {stage : Stage}
    (h : Established verifies publicKey opener w stage) (hp : opener ∈ w.started)
    (hs : OsStep w w') : Established verifies publicKey opener w' stage := by
  cases stage with
  | start | created | verified => exact h
  | imaged pid time =>
    exact fun hpid => (h hpid).imp_right fun hverifies hrun => hverifies (hs.running hp hrun)

/-- A creation time: before the image it is that of the process that opened the connection, and
behind the image it is only if that process still runs. -/
theorem Established.creationTime {w : World Image} {stage : Stage} {p : Process Image}
    {pid : UInt32} (h : Established verifies publicKey opener w stage)
    (hp : opener ∈ w.started) (hrun : w.running pid = some p)
    (hfirst : stage = .start → w.running opener.pid = some p → p = opener) :
    Established verifies publicKey opener w (stage.creationTime pid (.ok p.created)) := by
  cases stage with
  | start =>
    intro hpid
    subst hpid
    rw [hfirst rfl hrun]
  | created pid' time => exact h
  | verified pid' => exact h
  | imaged pid' time =>
    simp only [Stage.creationTime]
    split_ifs with hsame
    · obtain ⟨rfl, rfl⟩ := hsame
      intro hpid
      obtain ⟨hcreated, hverifies⟩ := h hpid
      obtain ⟨hppid, hstarted⟩ := w.running_spec pid p hrun
      obtain rfl : p = opener := w.created_inj p hstarted opener hp (hppid.trans hpid) hcreated
      rw [← hpid] at hverifies
      exact hverifies hrun
    · trivial

/-- A verified image, of the process that holds the pid now. If that is the opener, its image
verifies. -/
theorem Established.image {w : World Image} {stage : Stage} {p : Process Image} {pid : UInt32}
    {publicKey' : List UInt8} (h : Established verifies publicKey opener w stage)
    (hrun : w.running pid = some p) (hverifies : verifies p.image publicKey') :
    Established verifies publicKey opener w (stage.image publicKey pid publicKey' (.ok ())) := by
  cases stage with
  | start | imaged | verified => exact h
  | created pid' time =>
    simp only [Stage.image]
    split_ifs with hsame
    · obtain ⟨rfl, rfl⟩ := hsame
      refine fun hpid => ⟨h hpid, fun hopener => ?_⟩
      rw [← hpid, hrun] at hopener
      cases hopener
      exact hverifies
    · trivial

/-- A creation time that could not be read establishes nothing. -/
theorem Stage.creationTime_error (stage : Stage) (pid : UInt32) (report : Report) :
    stage.creationTime pid (.error report) = stage := by
  cases stage <;> rfl

/-- An image that did not verify establishes nothing. -/
theorem Stage.image_error (stage : Stage) (pid : UInt32) (publicKey' : List UInt8)
    (report : Report) : stage.image publicKey pid publicKey' (.error report) = stage := by
  cases stage <;> rfl

/-- Every allowed step keeps the invariant: processes may start and exit at any time, but the server
does not look at a pid that was reused before. -/
theorem Inv.step {s t : State Image} {a : Actor} (h : Inv verifies publicKey opener s)
    (hs : Step verifies publicKey opener a s t)
    (hallowed : a = .server → ¬ReusedBeforeCheck opener s) :
    Inv verifies publicKey opener t := by
  cases hs with
  | os hos =>
    exact ⟨hos.started h.started, h.attested, h.established.os h.started hos, h.tracks⟩
  | @server _ op k ans hnode hans =>
    have htracks := h.tracks
    rw [hnode] at htracks
    refine ⟨h.started, ?_, ?_, htracks ans⟩
    · cases hans with
      | peer =>
        intro pid hpid
        cases hpid
        rfl
      | unknownPeer | random | created | notCreated | image | notImage | write | read =>
        exact h.attested
    · cases hans with
      | peer | unknownPeer | random | write | read => exact h.established
      | created hrun =>
        refine h.established.creationTime h.started hrun fun hstart hother => ?_
        by_contra hne
        exact hallowed rfl ⟨hstart, ⟨_, _, hnode⟩, _, hother, hne⟩
      | notCreated report =>
        simp only [Seen.next, Stage.creationTime_error]
        exact h.established
      | image hrun hverifies => exact h.established.image hrun hverifies
      | notImage report =>
        simp only [Seen.next, Stage.image_error]
        exact h.established

/-- The invariant holds in every state that allowed steps reach, from a world in which the opener
runs. -/
theorem Reachable.inv {mac : Mac} {transport : Transport} {protocol : Protocol}
    {w : World Image} {s : State Image} (hopener : w.running opener.pid = some opener)
    (h : Reachable verifies publicKey opener
      (fun a s => a = .server → ¬ReusedBeforeCheck opener s) mac transport protocol w s) :
    Inv verifies publicKey opener s := by
  induction h with
  | refl =>
    refine ⟨(w.running_spec _ _ hopener).2, fun pid hpid => ?_, trivial, ?_⟩
    · cases hpid
    · exact tracks_authenticateServer mac transport protocol
  | tail _ hs ih =>
    obtain ⟨a, hs, hallowed⟩ := hs
    exact ih.step hs hallowed

end System

/-- **The process that opened the connection is the one that was verified**, in every
interleaving of the server half with starting and exiting processes, if the pid of that process
is not held by another one when its creation time is first read. -/
theorem accepted_opener_verifies {Image : Type} {verifies : Image → List UInt8 → Prop}
    {publicKey : List UInt8} {opener : Process Image} {mac : Mac} {transport : Transport}
    {protocol : Protocol} {w : World Image} {s : State Image}
    (hopener : w.running opener.pid = some opener)
    (h : Reachable verifies publicKey opener
      (fun a s => a = .server → ¬ReusedBeforeCheck opener s) mac transport protocol w s)
    {version : Option Version} (hok : s.node = .done (.ok version)) :
    verifies opener.image publicKey := by
  have hinv := h.inv hopener
  have htracks := hinv.tracks
  rw [hok] at htracks
  obtain ⟨pid, hseen⟩ := htracks version rfl
  have hestablished := hinv.established
  rw [hseen] at hestablished
  exact hestablished (hinv.attested pid (by rw [hseen]))

/-! ### Two runs -/

section Sample

variable {Image : Type} {verifies : Image → List UInt8 → Prop} {opener : Process Image}
  {allowed : Actor → State Image → Prop} {w : World Image}

/-- What is left of the server half of a sample handshake once the client's packet is read and
found compatible. -/
def sampleChecks : HandshakeM (Option Version) := do
  checkProof .sample (some 7) (List.replicate 32 7) [] (.signedProcess [9])
  writePacket (encodeAck ACK_OK [])
  pure (some ⟨1, 0, 4⟩)

/-- The packet of the sample client leads to the checks of the process. -/
theorem answerAuth_sample :
    answerAuth .sample (.signedProcess [9]) ⟨7, 1, 3, 1⟩ (some 7) (List.replicate 32 7)
      (authBody 2 3 2 ⟨7, 1, 0, 4⟩ []) = sampleChecks :=
  @answerAuth_of_compatible _ _ _ ⟨7, 1, 0, 4⟩ _ _ _ _ rfl rfl rfl

/-- The server goes on with an answer. -/
theorem Moves.server {publicKey : List UInt8} {seen seen' : Seen} {node node' : ServerProg}
    {op : PacketOp} {k : op.Ans → ServerProg} {ans : op.Ans}
    (hans : Answers verifies w opener op ans) (hnode : node = .await op k)
    (hallowed : allowed .server ⟨w, seen, node⟩) (hseen : seen.next publicKey op ans = seen')
    (hnode' : k ans = node') :
    Moves verifies publicKey opener allowed ⟨w, seen, node⟩ ⟨w, seen', node'⟩ := by
  subst hseen hnode'
  exact ⟨.server, .server hnode hans, hallowed⟩

/-- The server half comes to the checks of the process: the packets before them are exchanged, and
nothing was looked at yet. -/
theorem reaches_sampleChecks (hpid : opener.pid = 7)
    (hallowed : ∀ seen node, allowed .server ⟨w, seen, node⟩) :
    Reachable verifies [9] opener allowed .sample .npipe ⟨7, 1, 3, 1⟩ w
      ⟨w, ⟨some 7, .start⟩, sampleChecks⟩ := by
  let nonce : HostOp.Ans .fillRandom := .ok ⟨List.replicate 32 7, by decide⟩
  let packet := authBody 2 3 2 ⟨7, 1, 0, 4⟩ []
  have hpeer : Answers verifies w opener (.host .peerIdentity) (.pid 7) := hpid ▸ .peer
  have hstart : Relation.ReflTransGen (Moves verifies [9] opener allowed)
      ⟨w, ⟨none, .start⟩, authenticateServer .sample .npipe (.signedProcess [9]) ⟨7, 1, 3, 1⟩⟩ _ :=
    .refl
  have h := (((hstart.tail (.server hpeer rfl (hallowed _ _) rfl rfl)).tail
    (.server (.random nonce) rfl (hallowed _ _) rfl rfl)).tail
    (.server (.write _ (.ok ())) rfl (hallowed _ _) rfl rfl)).tail
    (.server (.read (.ok packet)) rfl (hallowed _ _) rfl answerAuth_sample)
  exact h

/-- The checks succeed on a process that holds the pid throughout, and the server accepts. -/
theorem sampleChecks_accept {p : Process Image} (hrun : w.running 7 = some p)
    (hverifies : verifies p.image [9])
    (hallowed : ∀ seen node, allowed .server ⟨w, seen, node⟩) :
    Relation.ReflTransGen (Moves verifies [9] opener allowed)
      ⟨w, ⟨some 7, .start⟩, sampleChecks⟩
      ⟨w, ⟨some 7, .verified 7⟩, .done (.ok (some ⟨1, 0, 4⟩))⟩ := by
  have hstart : Relation.ReflTransGen (Moves verifies [9] opener allowed)
      ⟨w, ⟨some 7, .start⟩, sampleChecks⟩ _ := .refl
  have hbefore := (hstart.tail (.server (.created hrun) rfl (hallowed _ _) rfl rfl)).tail
    (.server (.image hrun hverifies) rfl (hallowed _ _) rfl rfl)
  have hafter := hbefore.tail (.server (.created hrun) rfl (hallowed _ _)
    (show _ = (⟨some 7, .verified 7⟩ : Seen) by
      simp [Seen.next, Stage.creationTime, Stage.image])
    (show _ = (do writePacket (encodeAck ACK_OK []); pure (some ⟨1, 0, 4⟩) :
        HandshakeM (Option Version)) by
      simp
      rfl))
  exact hafter.tail (.server (.write _ (.ok ())) rfl (hallowed _ _) rfl rfl)

/-- One process runs, and no other has ever started. -/
def World.single (p : Process Image) : World Image where
  running := Function.update (fun _ => none) p.pid (some p)
  started := [p]
  running_spec pid q hq := by
    rcases update_eq_some hq with ⟨rfl, rfl⟩ | ⟨-, hq⟩
    · exact ⟨rfl, List.mem_singleton_self _⟩
    · cases hq
  created_inj q hq r hr _ _ := (List.mem_singleton.mp hq).trans (List.mem_singleton.mp hr).symm

/-- The one process runs under its pid. -/
theorem World.running_single (p : Process Image) : (World.single p).running p.pid = some p := by
  simp [World.single]

end Sample

/-- A signed process that stays is accepted, by a run in which no pid is reused. -/
theorem accepted_opener_verifies_signed :
    ∃ s, Reachable (fun image _ => image = true) [9] ⟨7, 100, true⟩
        (fun a s => a = .server → ¬ReusedBeforeCheck ⟨7, 100, true⟩ s) .sample .npipe ⟨7, 1, 3, 1⟩
        (.single ⟨7, 100, true⟩) s ∧
      s.node = .done (.ok (some ⟨1, 0, 4⟩)) ∧ (⟨7, 100, true⟩ : Process Bool).image = true := by
  let opener : Process Bool := ⟨7, 100, true⟩
  have hrun := World.running_single opener
  let allowed (a : Actor) (s : State Bool) := a = .server → ¬ReusedBeforeCheck opener s
  have hallowed : ∀ seen node, allowed .server ⟨.single opener, seen, node⟩ := by
    rintro seen node - ⟨-, -, p, hp, hne⟩
    exact hne (Option.some.inj (hp.symm.trans hrun))
  have h := (@reaches_sampleChecks Bool (fun image _ => image = true) opener allowed _ rfl
    hallowed).trans (sampleChecks_accept hrun rfl hallowed)
  exact ⟨_, h, rfl, accepted_opener_verifies hrun h rfl⟩

/-- **A process that is not signed opens the connection and exits** before the server reads its
creation time; a signed process gets its pid, and the connection is accepted. -/
theorem reused_pid_accepted :
    ∃ s, Reachable (fun image _ => image = true) [9] ⟨7, 100, false⟩ (fun _ _ => True) .sample
        .npipe ⟨7, 1, 3, 1⟩ (.single ⟨7, 100, false⟩) s ∧
      s.node = .done (.ok (some ⟨1, 0, 4⟩)) ∧ (⟨7, 100, false⟩ : Process Bool).image ≠ true := by
  let opener : Process Bool := ⟨7, 100, false⟩
  let signed : Process Bool := ⟨7, 200, true⟩
  have hnew : ∀ q ∈ ((World.single opener).exit 7).started, q.pid = signed.pid →
      q.created ≠ signed.created := by
    intro q hq _
    rw [List.mem_singleton.mp hq]
    decide
  have hexit : Reachable (fun image _ => image = true) [9] opener (fun _ _ => True) .sample .npipe
      ⟨7, 1, 3, 1⟩ (.single opener)
      ⟨(World.single opener).exit 7, ⟨some 7, .start⟩, sampleChecks⟩ :=
    (reaches_sampleChecks rfl fun _ _ => trivial).tail ⟨.os, .os (.exit 7), trivial⟩
  have hstart : Reachable (fun image _ => image = true) [9] opener (fun _ _ => True) .sample .npipe
      ⟨7, 1, 3, 1⟩ (.single opener)
      ⟨((World.single opener).exit 7).start signed hnew, ⟨some 7, .start⟩, sampleChecks⟩ :=
    hexit.tail ⟨.os, .os (.start signed hnew rfl), trivial⟩
  have hrun : (((World.single opener).exit 7).start signed hnew).running 7 = some signed := rfl
  have h := hstart.trans (sampleChecks_accept hrun rfl fun _ _ => trivial)
  exact ⟨_, h, rfl, by decide⟩

end Attestation

end Ogurpchik
