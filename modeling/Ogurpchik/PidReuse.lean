import Ogurpchik.Attestation

/-!
# A Pid Between Two Checks

`verify_signed_process` asks three questions about a pid: its creation time, its image, and its
creation time again. Each question opens the pid anew, so each may be about another process, and
only the answers to the outer two are compared. This module shows that the comparison also settles
the question in the middle, and every moment between: a process does not get its pid back, so one
that is found at the end with the creation time of the beginning has held the pid throughout.

`Ogurpchik.Attestation` interleaves the whole server half with the operating system. Here it is
`verify_signed_process` alone, with the list of moments of the run: the processes before each step,
and the question that was put.

## Main definitions

* `Moment`, `Interleaves`: a complete run next to starting and exiting processes.
* `Between`: the moments from one question to another.

## Main results

* `Idle.held`: a process that runs at the end of some steps of the operating system, and had started
  before them, ran throughout.
* `verification_pins_process`: **the process whose image was verified held the pid all the time.**
-/

namespace Ogurpchik

namespace Attestation

open Async

section Runs

variable {Image : Type} {α : Type}

/-- The processes at one moment of a run, and the question that is put to the operating system, if
it is not the processes that change. -/
structure Moment (Image : Type) where
  world : World Image
  asked : Option PacketOp

/-- A complete run of a program next to starting and exiting processes, with its moments and what it
returns. -/
inductive Interleaves (verifies : Image → List UInt8 → Prop) :
    World Image → PacketProg α → List (Moment Image) → α → Prop
  | done {w : World Image} (a : α) : Interleaves verifies w (.done a) [] a
  | os {w w' : World Image} {p : PacketProg α} {moments : List (Moment Image)} {a : α} :
      OsStep w w' → Interleaves verifies w' p moments a →
      Interleaves verifies w p (⟨w, none⟩ :: moments) a
  | ask {w : World Image} {op : PacketOp} {k : op.Ans → PacketProg α} {ans : op.Ans}
      {moments : List (Moment Image)} {a : α} (opener : Process Image) :
      Answers verifies w opener op ans → Interleaves verifies w (k ans) moments a →
      Interleaves verifies w (.await op k) (⟨w, some op⟩ :: moments) a

/-- Some steps of the operating system alone, with the moments at which they were taken. -/
inductive Idle : World Image → List (Moment Image) → World Image → Prop
  | nil {w : World Image} : Idle w [] w
  | cons {w w' w'' : World Image} {moments : List (Moment Image)} :
      OsStep w w' → Idle w' moments w'' → Idle w (⟨w, none⟩ :: moments) w''

variable {verifies : Image → List UInt8 → Prop} {w w' : World Image}
  {moments : List (Moment Image)}

/-- Code that has returned asks nothing more, whatever the operating system goes on to do. -/
theorem Interleaves.done_inv {a b : α} (h : Interleaves verifies w (.done a) moments b) :
    b = a ∧ ∀ m ∈ moments, m.asked = none := by
  generalize hp : (Prog.done a : PacketProg α) = p at h
  induction h with
  | done b =>
    cases hp
    exact ⟨rfl, fun m hm => by cases hm⟩
  | os _ _ ih =>
    obtain ⟨hb, hasked⟩ := ih hp
    exact ⟨hb, List.forall_mem_cons.mpr ⟨rfl, hasked⟩⟩
  | ask => cases hp

/-- A suspended program lets the operating system act for a while, and then asks. -/
theorem Interleaves.await_inv {op : PacketOp} {k : op.Ans → PacketProg α} {a : α}
    (h : Interleaves verifies w (.await op k) moments a) :
    ∃ idle w' opener ans rest, Idle w idle w' ∧ Answers verifies w' opener op ans ∧
      Interleaves verifies w' (k ans) rest a ∧ moments = idle ++ ⟨w', some op⟩ :: rest := by
  generalize hp : Prog.await op k = p at h
  induction h with
  | done b => cases hp
  | @os w w' p moments a hos _ ih =>
    obtain ⟨idle, w'', opener, ans, rest, hidle, hans, hrest, rfl⟩ := ih hp
    exact ⟨_, w'', opener, ans, rest, .cons hos hidle, hans, hrest, rfl⟩
  | @ask w op' k' ans moments a opener hans hrest =>
    cases hp
    exact ⟨[], w, opener, ans, moments, .nil, hans, hrest, rfl⟩

/-- In the steps of the operating system the code asks nothing. -/
theorem Idle.asked (h : Idle w moments w') : ∀ m ∈ moments, m.asked = none := by
  induction h with
  | nil => exact fun m hm => by cases hm
  | cons _ _ ih => exact List.forall_mem_cons.mpr ⟨rfl, ih⟩

/-- A process that has started is not forgotten in them. -/
theorem Idle.started {p : Process Image} (h : Idle w moments w') (hp : p ∈ w.started) :
    p ∈ w'.started := by
  induction h with
  | nil => exact hp
  | cons hos _ ih => exact ih (hos.started hp)

/-- **A process that runs at the end** and had started before ran throughout. -/
theorem Idle.held {p : Process Image} (h : Idle w moments w') (hp : p ∈ w.started)
    (hrun : w'.running p.pid = some p) :
    w.running p.pid = some p ∧ ∀ m ∈ moments, m.world.running p.pid = some p := by
  induction h with
  | nil => exact ⟨hrun, fun m hm => by cases hm⟩
  | cons hos _ ih =>
    obtain ⟨hnext, hmoments⟩ := ih (hos.started hp) hrun
    have hnow := hos.running hp hnext
    exact ⟨hnow, List.forall_mem_cons.mpr ⟨hnow, hmoments⟩⟩

/-! ### The three questions -/

/-- A creation time is that of the process that holds the pid. -/
theorem Answers.created_inv {opener : Process Image} {pid : UInt32} {time : UInt64}
    (h : Answers verifies w opener (.host (.processCreationTime pid)) (.ok time)) :
    ∃ p, w.running pid = some p ∧ p.created = time := by
  cases h with
  | created hrun => exact ⟨_, hrun, rfl⟩

/-- An image is that of the process that holds the pid. -/
theorem Answers.image_inv {opener : Process Image} {pid : UInt32} {publicKey : List UInt8}
    (h : Answers verifies w opener (.host (.verifyProcessImage pid publicKey)) (.ok ())) :
    ∃ p, w.running pid = some p ∧ verifies p.image publicKey := by
  cases h with
  | image hrun hverifies => exact ⟨_, hrun, hverifies⟩

/-- Of the process found first, found again with its creation time after two pauses. -/
theorem held_throughout {w₁ w₂ w₃ : World Image} {idle₁ idle₂ : List (Moment Image)}
    {pid : UInt32} {p q : Process Image} (h₁ : Idle w₁ idle₁ w₂) (h₂ : Idle w₂ idle₂ w₃)
    (hp : w₁.running pid = some p) (hq : w₃.running pid = some q)
    (hcreated : q.created = p.created) :
    q = p ∧ w₂.running pid = some p ∧ (∀ m ∈ idle₁, m.world.running pid = some p) ∧
      ∀ m ∈ idle₂, m.world.running pid = some p := by
  obtain ⟨hpid, hstarted⟩ := w₁.running_spec pid p hp
  obtain ⟨hqpid, hqstarted⟩ := w₃.running_spec pid q hq
  have hstarted₂ := h₁.started hstarted
  -- one pid and one creation time make one process
  obtain rfl : q = p :=
    w₃.created_inj q hqstarted p (h₂.started hstarted₂) (hqpid.trans hpid.symm) hcreated
  subst hpid
  obtain ⟨hmiddle, hidle₂⟩ := h₂.held hstarted₂ hq
  exact ⟨rfl, hmiddle, (h₁.held hstarted hmiddle).2, hidle₂⟩

/-- What a run that returns `Ok` looks like: three questions with pauses around them, and one
process that holds the pid from the first to the last. -/
theorem verifySignedProcess_ok {pid : UInt32} {publicKey : List UInt8}
    (h : Interleaves verifies w (verifySignedProcess pid publicKey) moments (.ok ())) :
    ∃ idle w₁ idle₁ w₂ idle₂ w₃ rest p,
      moments = idle ++ ((Moment.mk w₁ (some (.host (.processCreationTime pid))) :: (idle₁ ++
        Moment.mk w₂ (some (.host (.verifyProcessImage pid publicKey))) :: (idle₂ ++
        [Moment.mk w₃ (some (.host (.processCreationTime pid)))]))) ++ rest) ∧
      (∀ m ∈ idle, m.asked = none) ∧ (∀ m ∈ idle₁, m.asked = none) ∧
      (∀ m ∈ idle₂, m.asked = none) ∧ (∀ m ∈ rest, m.asked = none) ∧
      verifies p.image publicKey ∧ w₁.running pid = some p ∧ w₂.running pid = some p ∧
      w₃.running pid = some p ∧ (∀ m ∈ idle₁, m.world.running pid = some p) ∧
      ∀ m ∈ idle₂, m.world.running pid = some p := by
  obtain ⟨idle, w₁, _, before, moments₁, hidle, hbefore, h₁, rfl⟩ := h.await_inv
  rcases before with report | before
  · cases h₁.done_inv.1
  obtain ⟨idle₁, w₂, _, image, moments₂, hidle₁, himage, h₂, rfl⟩ := h₁.await_inv
  rcases image with report | ⟨⟩
  · cases h₂.done_inv.1
  obtain ⟨idle₂, w₃, _, after, rest, hidle₂, hafter, h₃, rfl⟩ := h₂.await_inv
  rcases after with report | after
  · cases h₃.done_inv.1
  dsimp only at h₃
  split_ifs at h₃ with hsame
  · cases h₃.done_inv.1
  · obtain ⟨p, hp, rfl⟩ := hbefore.created_inv
    obtain ⟨p', hp', hverifies⟩ := himage.image_inv
    obtain ⟨q, hq, rfl⟩ := hafter.created_inv
    obtain ⟨rfl, hmiddle, hheld₁, hheld₂⟩ :=
      held_throughout hidle₁ hidle₂ hp hq (not_not.mp hsame)
    obtain rfl : p' = q := Option.some.inj (hp'.symm.trans hmiddle)
    refine ⟨idle, w₁, idle₁, w₂, idle₂, w₃, rest, p', ?_, hidle.asked, hidle₁.asked, hidle₂.asked,
      h₃.done_inv.2, hverifies, hp, hp', hq, hheld₁, hheld₂⟩
    simp only [List.cons_append, List.append_assoc, List.nil_append]

/-! ### Between the questions -/

/-- The moment is that of a question, or lies between those of two questions: while the server was
checking, and neither before nor behind that. -/
def Between (moments : List (Moment Image)) (m : Moment Image) : Prop :=
  ∃ (i j k : ℕ) (a b : Moment Image), i ≤ j ∧ j ≤ k ∧
    moments[i]? = some a ∧ a.asked ≠ none ∧ moments[j]? = some m ∧
    moments[k]? = some b ∧ b.asked ≠ none

/-- Nothing lies between the questions that lies before the first or after the last. -/
theorem Between.mem {before span after : List (Moment Image)} {m : Moment Image}
    (h : Between (before ++ (span ++ after)) m) (hbefore : ∀ a ∈ before, a.asked = none)
    (hafter : ∀ a ∈ after, a.asked = none) : m ∈ span := by
  obtain ⟨i, j, k, a, b, hij, hjk, ha, hasked, hm, hb, hasked'⟩ := h
  have hi : before.length ≤ i := by
    by_contra hlt
    rw [List.getElem?_append_left (not_le.mp hlt)] at ha
    exact hasked (hbefore a (List.mem_of_getElem? ha))
  have hk : k - before.length < span.length := by
    by_contra hge
    rw [List.getElem?_append_right (hi.trans (hij.trans hjk)),
      List.getElem?_append_right (not_lt.mp hge)] at hb
    exact hasked' (hafter b (List.mem_of_getElem? hb))
  rw [List.getElem?_append_right (hi.trans hij), List.getElem?_append_left (by omega)] at hm
  exact List.mem_of_getElem? hm

end Runs

/-- **The process whose image was verified held the pid all the time.** If `verify_signed_process`
returns `Ok`, in whatever interleaving with starting and exiting processes, it has asked its three
questions, and one process, whose image was verified, held the pid at each of them and at every
moment between the first and the last. If the pid is free at a moment between two of the questions,
or held by different processes at two such moments, it returns an error. -/
theorem verification_pins_process {Image : Type} {verifies : Image → List UInt8 → Prop}
    {w : World Image} {pid : UInt32} {publicKey : List UInt8} {moments : List (Moment Image)}
    {r : Except Report Unit}
    (h : Interleaves verifies w (verifySignedProcess pid publicKey) moments r) :
    (r = .ok () →
      moments.filterMap Moment.asked = [.host (.processCreationTime pid),
        .host (.verifyProcessImage pid publicKey), .host (.processCreationTime pid)] ∧
      ∃ p, verifies p.image publicKey ∧
        (∃ m ∈ moments, m.asked = some (.host (.verifyProcessImage pid publicKey)) ∧
          m.world.running pid = some p) ∧
        ∀ m, Between moments m → m.world.running pid = some p) ∧
    ((∃ m, Between moments m ∧ m.world.running pid = none) ∨
      (∃ m m', Between moments m ∧ Between moments m' ∧
        m.world.running pid ≠ m'.world.running pid) →
      ∃ report, r = .error report) := by
  have hok (hr : r = .ok ()) : ∃ p, verifies p.image publicKey ∧
      (∃ m ∈ moments, m.asked = some (.host (.verifyProcessImage pid publicKey)) ∧
        m.world.running pid = some p) ∧
      ∀ m, Between moments m → m.world.running pid = some p := by
    subst hr
    obtain ⟨idle, w₁, idle₁, w₂, idle₂, w₃, rest, p, rfl, hidle, -, -, hrest, hverifies, hp₁, hp₂,
      hp₃, hheld₁, hheld₂⟩ := verifySignedProcess_ok h
    refine ⟨p, hverifies, ⟨⟨w₂, _⟩, ?_, rfl, hp₂⟩, ?_⟩
    · simp
    · intro m hm
      have hspan := hm.mem hidle hrest
      simp only [List.mem_cons, List.mem_append, List.not_mem_nil, or_false] at hspan
      rcases hspan with rfl | hmem | rfl | hmem | rfl
      · exact hp₁
      · exact hheld₁ m hmem
      · exact hp₂
      · exact hheld₂ m hmem
      · exact hp₃
  refine ⟨fun hr => ⟨?_, hok hr⟩, fun hchange => ?_⟩
  · subst hr
    obtain ⟨idle, w₁, idle₁, w₂, idle₂, w₃, rest, p, rfl, hidle, hidle₁, hidle₂, hrest, -⟩ :=
      verifySignedProcess_ok h
    have hnone {ms : List (Moment Image)} (hms : ∀ m ∈ ms, m.asked = none) :
        ms.filterMap Moment.asked = [] := List.filterMap_eq_nil_iff.mpr hms
    simp [hnone hidle, hnone hidle₁, hnone hidle₂, hnone hrest]
  · cases r with
    | error report => exact ⟨report, rfl⟩
    | ok =>
      obtain ⟨p, -, -, hheld⟩ := hok rfl
      rcases hchange with ⟨m, hm, hfree⟩ | ⟨m, m', hm, hm', hne⟩
      · rw [hheld m hm] at hfree
        cases hfree
      · exact absurd ((hheld m hm).trans (hheld m' hm').symm) hne

/-- A signed process is verified while another one starts and exits, under another pid. -/
theorem verification_pins_process_signed :
    ∃ moments : List (Moment Bool),
      Interleaves (fun image _ => image = true) (.single ⟨7, 100, true⟩)
        (verifySignedProcess 7 [9]) moments (.ok ()) ∧
      ∀ m, Between moments m → ∃ p, m.world.running 7 = some p ∧ p.image = true := by
  let signed : Process Bool := ⟨7, 100, true⟩
  let other : Process Bool := ⟨8, 100, false⟩
  let w := World.single signed
  have hnew : ∀ q ∈ w.started, q.pid = other.pid → q.created ≠ other.created := by
    intro q hq hpid
    rw [List.mem_singleton.mp hq] at hpid
    cases hpid
  have hrun : w.running 7 = some signed := World.running_single signed
  have hrun' : (w.start other hnew).running 7 = some signed := rfl
  have h : Interleaves (fun image _ => image = true) w (verifySignedProcess 7 [9]) _ (.ok ()) :=
    .ask signed (.created hrun) (.os (.start other hnew rfl) (.ask signed (.image hrun' rfl)
      (.os (.exit 8) (.ask signed (.created hrun') (.done _)))))
  refine ⟨_, h, fun m hm => ?_⟩
  obtain ⟨-, p, hverifies, -, hheld⟩ := (verification_pins_process h).1 rfl
  exact ⟨p, hheld m hm, hverifies⟩

end Attestation

end Ogurpchik
