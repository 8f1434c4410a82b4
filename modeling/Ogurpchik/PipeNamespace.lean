import Ogurpchik.PipeAcceptor
import Ogurpchik.PipeSecurity

/-!
# The Name of a Pipe

The instances of a pipe need not all belong to one process: whoever is granted it by the descriptor
may add an instance to a pipe that exists, and a client that opens the name gets the oldest instance
that is free, whoever it belongs to. The acceptor insists on creating the first instance, and then
replaces the descriptor of the pipe.

Pipes have the rights of files, under other names: what appends to a file creates an instance of a
pipe. `FW`, which the descriptor gives every authenticated user together with `FR`, contains it, and
so does what a client asks for when it opens a pipe for reading and writing. Whoever can connect to
the server can therefore stand in for it.

This module runs `bind` and the acceptor among other processes on one name. The acceptor runs as it
does alone; nobody is there before it; and from every state on every eligible process can get hold
of a client.

## Main definitions

* `Answers`: what the system does with the calls of `bind`.
* `World`, `Step`: the server, other processes and clients on one name.
* `Eligible`: who is granted an instance.

## Main results

* `grants_iff`: **who may add an instance** to the pipe of a server.
* `Reachable.inv`: the invariant holds in every reachable state.
* `clients_can_be_intercepted`: what `bind` establishes, and what it does not.
-/

namespace Ogurpchik

namespace PipeNamespace

open Async AccessControl PipeSecurity

/-! ### Rights -/

/-- The generic rights of files and pipes: what reading, writing, executing and everything stand
for. -/
def fileMapping : Mapping := ⟨0x00120089#32, 0x00120116#32, 0x001200a0#32, 0x001f01ff#32⟩

/-- The right to create an instance of a pipe, which is the one to append to a file. -/
def FILE_CREATE_PIPE_INSTANCE : Mask := 0x4#32

/-- What a client asks for that opens a pipe for reading and writing, as the client of the source
does. -/
def clientAccess : Mask := GENERIC_READ ||| GENERIC_WRITE

/-- What is asked for with a further instance for both directions: the right to create one, beside
reading and writing. -/
def instanceAccess : Mask := GENERIC_READ ||| GENERIC_WRITE ||| FILE_CREATE_PIPE_INSTANCE

/-- Processes of at least medium integrity of the system, of administrators, of the account of the
server or of any authenticated user. -/
def Eligible (sid : SidText) (token : Token Account) : Prop :=
  0x2000 ≤ token.level ∧ (Account.localSystem ∈ token.sids ∨ Account.administrators ∈ token.sids ∨
    Account.sid sid.text ∈ token.sids ∨ Account.authenticatedUsers ∈ token.sids)

/-- The rights that generic reading and writing and a further instance come to for a pipe. -/
theorem specific_instanceAccess : fileMapping.specific instanceAccess = 0x0012019f#32 := by decide

/-- A client asks for what a further instance asks for. -/
theorem specific_clientAccess :
    fileMapping.specific clientAccess = fileMapping.specific instanceAccess := by decide

/-- Whoever may connect to a pipe may add an instance to it, whatever guards the pipe. -/
theorem grants_client_iff (d : Descriptor Account) (token : Token Account) :
    d.Grants fileMapping token clientAccess ↔ d.Grants fileMapping token instanceAccess := by
  rw [Descriptor.Grants, Descriptor.Grants, specific_clientAccess]

/-- **Who may add an instance.** The entries of the descriptor are gone through in order, and the
label stands in the way of low integrity. -/
theorem grants_iff (sid : SidText) (token : Token Account) :
    (pipeDescriptor sid).Grants fileMapping token instanceAccess ↔ Eligible sid token := by
  rw [Descriptor.Grants, specific_instanceAccess, Eligible]
  refine and_congr ?_ ?_
  · refine or_iff_left ?_
    decide
  · have hcovers : ∀ ace ∈ (pipeDescriptor sid).dacl,
        0x0012019f#32 &&& ace.mask = 0x0012019f#32 := by
      have hfull : 0x0012019f#32 &&& 0x001f01ff#32 = 0x0012019f#32 := by decide
      intro ace hace
      simp only [pipeDescriptor, List.mem_cons, List.not_mem_nil, or_false] at hace
      rcases hace with rfl | rfl | rfl | rfl
      · exact hfull
      · exact hfull
      · exact hfull
      · exact BitVec.and_self
    rw [check_iff_exists (by simp [pipeDescriptor]) hcovers (by decide)]
    simp [pipeDescriptor]

/-! ### The server and the others -/

/-- A system: the account of the server, what guards a pipe it creates, and the tokens of the server
and of all processes. -/
structure Machine where
  sid : SidText
  initial : Descriptor Account
  server : Token Account
  token : ℕ → Token Account

/-- An instance of another process: how many instances of the server are older, and the process that
has connected to it. -/
structure Foreign where
  process : ℕ
  after : ℕ
  client : Option ℕ
  deriving DecidableEq

/-- A name: what is left of `bind`; what guards the pipe, once the server has created it; the
instances and calls of the server; and the instances of others, the oldest first. -/
structure World where
  binding : PipeProg (Except PipeError Handle)
  guard : Option (Descriptor Account)
  acceptor : Npipe.State
  foreign : List Foreign

/-- The units of a text that has no surrogates, each character being one. -/
def units (text : List Char) : List UInt16 := text.map fun c => UInt16.ofNat c.toNat

section

variable (m : Machine)

/-- What the system answers to the calls of `bind`, and what then guards the pipe. The token is that
of the account, and a text is converted to what it stands for. Every call may fail. -/
inductive Answers :
    Option (Descriptor Account) → (op : PipeOp) → op.Ans → Option (Descriptor Account) → Prop
  | created {path : List Char} {options : ServerOptions} (pipe : Handle) :
      Answers none (.createNamedPipe path options) (.ok pipe) (some m.initial)
  | notCreated {guard : Option (Descriptor Account)} {path : List Char} {options : ServerOptions}
      (code : UInt32) : Answers guard (.createNamedPipe path options) (.error code) guard
  | closed {guard : Option (Descriptor Account)} {pipe : Handle} :
      Answers guard (.closePipe pipe) () none
  | token {guard : Option (Descriptor Account)} (r : Except String Handle) :
      Answers guard .openProcessToken r guard
  | tokenClosed {guard : Option (Descriptor Account)} {token : Handle} :
      Answers guard (.closeHandle token) () guard
  | size {guard : Option (Descriptor Account)} {token : Handle} (len : UInt32) :
      Answers guard (.tokenUserSize token) len guard
  | user {guard : Option (Descriptor Account)} {token : Handle} {len : UInt32}
      (r : Except String (List UInt8)) : Answers guard (.tokenUser token len) r guard
  | sidText {guard : Option (Descriptor Account)} {sid : List UInt8} (raw : Address) :
      Answers guard (.convertSidToStringSid sid) (.ok (raw, units m.sid.text)) guard
  | noSidText {guard : Option (Descriptor Account)} {sid : List UInt8} (e : String) :
      Answers guard (.convertSidToStringSid sid) (.error e) guard
  | converted {guard : Option (Descriptor Account)} {sddl : List Char} {d : Descriptor Account}
      (address : Address) (h : parse sddl = some d) :
      Answers guard (.convertStringSecurityDescriptor sddl) (.ok ⟨address, d⟩) guard
  | notConverted {guard : Option (Descriptor Account)} {sddl : List Char} (e : String) :
      Answers guard (.convertStringSecurityDescriptor sddl) (.error e) guard
  | freed {guard : Option (Descriptor Account)} {address : Address} :
      Answers guard (.localFree address) () guard
  | dacl {guard : Option (Descriptor Account)} {allocated : Allocated} :
      Answers guard (.getDacl allocated) (.ok allocated.descriptor.dacl) guard
  | noDacl {guard : Option (Descriptor Account)} {allocated : Allocated} (e : String) :
      Answers guard (.getDacl allocated) (.error e) guard
  | label {guard : Option (Descriptor Account)} {allocated : Allocated} :
      Answers guard (.getSacl allocated) (.ok allocated.descriptor.label) guard
  | noLabel {guard : Option (Descriptor Account)} {allocated : Allocated} (e : String) :
      Answers guard (.getSacl allocated) (.error e) guard
  | daclSet {d : Descriptor Account} {pipe : Handle} {dacl : List (Ace Account)} :
      Answers (some d) (.setDacl pipe dacl) 0 (some { d with dacl := dacl })
  | daclNotSet {guard : Option (Descriptor Account)} {pipe : Handle} {dacl : List (Ace Account)}
      {status : UInt32} (h : status ≠ 0) : Answers guard (.setDacl pipe dacl) status guard
  | labelSet {d : Descriptor Account} {pipe : Handle} {label : Level} :
      Answers (some d) (.setLabel pipe label) 0 (some { d with label := label })
  | labelNotSet {guard : Option (Descriptor Account)} {pipe : Handle} {label : Level}
      {status : UInt32} (h : status ≠ 0) : Answers guard (.setLabel pipe label) status guard

/-- The process is granted the access by what guards the pipe; it is not held up where the server
has no pipe. -/
def World.Granted (w : World) (p : ℕ) (access : Mask) : Prop :=
  ∀ d, w.guard = some d → d.Grants fileMapping (m.token p) access

/-- How many instances the server has created; before the first there is no pipe of the server. -/
def World.created (w : World) : ℕ :=
  match w.guard with
  | none => 0
  | some _ => w.acceptor.created

/-- Who does something: the server, another process that adds instances, or a client. -/
inductive Actor
  | server
  | process (p : ℕ)
  | client (p : ℕ)

/-- One step: of `bind`, which creates the first instance only if the name is free; of the acceptor,
which is granted its further instances; of a process that adds an instance or closes one; and of a
client that opens the name and gets the oldest instance that is free, one of the server or
another. -/
inductive Step : Actor → World → World → Prop
  | bind {w : World} {op : PipeOp} {k : op.Ans → PipeProg (Except PipeError Handle)} {ans : op.Ans}
      {guard : Option (Descriptor Account)} (hop : w.binding = .await op k)
      (ha : Answers m w.guard op ans guard)
      (hfree : w.guard = none → guard ≠ none → w.foreign = []) :
      Step .server w { w with binding := k ans, guard := guard }
  | accept {w : World} {pipe : Handle} {d : Descriptor Account} {a : Npipe.State}
      (hbound : w.binding = .done (.ok pipe)) (hguard : w.guard = some d)
      (ha : Npipe.Step w.acceptor a) (hclient : a.connected = w.acceptor.connected)
      (hgranted : a.created = w.acceptor.created ∨ d.Grants fileMapping m.server instanceAccess) :
      Step .server w { w with acceptor := a }
  | join {w : World} (p : ℕ) (hgranted : w.Granted m p instanceAccess) :
      Step (.process p) w { w with foreign := w.foreign ++ [⟨p, w.created, none⟩] }
  | leave {w : World} {f : Foreign} {l r : List Foreign} (hf : w.foreign = l ++ f :: r) :
      Step (.process f.process) w { w with foreign := l ++ r }
  | served {w : World} {d : Descriptor Account} {x : Npipe.Instance} (p : ℕ)
      (hguard : w.guard = some d) (hgranted : w.Granted m p clientAccess)
      (hx : w.acceptor.instances.OldestFree x)
      (hage : ∀ f ∈ w.foreign, f.client = none → x.id < f.after) :
      Step (.client p) w { w with
        acceptor := { w.acceptor with
          instances := w.acceptor.instances.give x.id w.acceptor.connected
          connected := w.acceptor.connected + 1 } }
  | lured {w : World} {f : Foreign} {l r : List Foreign} (p : ℕ)
      (hgranted : w.Granted m p clientAccess) (hf : w.foreign = l ++ f :: r)
      (hfree : f.client = none) (hbusy : ∀ g ∈ l, g.client ≠ none)
      (hage : w.guard ≠ none →
        ∀ x ∈ w.acceptor.instances.held, x.client = none → f.after ≤ x.id) :
      Step (.client p) w { w with foreign := l ++ { f with client := some p } :: r }

/-- The states that come about when nobody has the name and the server binds it. -/
def Reachable (message : UInt32 → String) (path : List Char) (w : World) : Prop :=
  Relation.ReflTransGen (fun w w' => ∃ actor, Step m actor w w')
    ⟨PipeSecurity.bind message path, none, .init, []⟩ w

/-- What can come about by the doing of some, while the others stand by. -/
def Run (actors : Actor → Prop) : World → World → Prop :=
  Relation.ReflTransGen fun w w' => ∃ actor, actors actor ∧ Step m actor w w'

end

/-- What some can do, more can do. -/
theorem Run.mono {m : Machine} {actors actors' : Actor → Prop} {w w' : World}
    (h : Run m actors w w') (hle : ∀ actor, actors actor → actors' actor) : Run m actors' w w' := by
  induction h with
  | refl => exact .refl
  | tail _ hs ih =>
    obtain ⟨actor, hactor, hs⟩ := hs
    exact ih.tail ⟨actor, hle actor hactor, hs⟩

/-! ### What guards the pipe -/

/-- The descriptors a pipe of the server has one after the other: that of its creation, then with
its list set, then with its label too. -/
def stages (m : Machine) : List (Descriptor Account) :=
  [m.initial, { m.initial with dacl := (pipeDescriptor m.sid).dacl }, pipeDescriptor m.sid]

/-- The pipe is not there, or guarded by one of its descriptors: never by anything else. -/
def Staged (m : Machine) (guard : Option (Descriptor Account)) : Prop :=
  ∀ d, guard = some d → d ∈ stages m

/-- Behind `bind` the last of them guards the pipe, or there is none because `bind` has failed and
closed it. -/
def Bound (m : Machine) (guard : Option (Descriptor Account)) (r : Except PipeError Handle) :
    Prop :=
  guard = r.toOption.map fun _ => pipeDescriptor m.sid

section Bind

variable {m : Machine} {message : UInt32 → String}

/-- Text without surrogates survives the way over UTF-16, one unit for each character. -/
theorem fromUtf16_units {text : List Char} (h : ∀ c ∈ text, c.toNat < 0xd800) :
    fromUtf16 (units text) = some text := by
  induction text with
  | nil => rfl
  | cons c text ih =>
    have hc := h c List.mem_cons_self
    have hnat : (UInt16.ofNat c.toNat).toNat = c.toNat :=
      UInt16.toNat_ofNat_of_lt' (hc.trans (by decide))
    have hlow : ¬ 0xd800 ≤ UInt16.ofNat c.toNat := by
      rw [UInt16.le_iff_toNat_le, hnat]
      exact not_le.2 hc
    have hchar : Char.ofNat (UInt16.ofNat c.toNat).toNat = c := by
      rw [hnat, Char.ofNat_toNat]
    have htail := ih fun c hmem => h c (List.mem_cons_of_mem _ hmem)
    cases text with
    | nil =>
      change fromUtf16 [UInt16.ofNat c.toNat] = _
      rw [fromUtf16, if_neg fun hu => hlow hu.1, hchar]
    | cons d text =>
      change fromUtf16 (UInt16.ofNat c.toNat :: UInt16.ofNat d.toNat :: units text) = _
      rw [fromUtf16, if_neg fun hu => hlow hu.1, if_neg fun hu => hlow hu.1]
      change (fromUtf16 (units (d :: text))).map _ = _
      rw [htail, hchar, Option.map_some]

/-- The identifier of an account does: it is ASCII, and so it has no surrogates. -/
theorem fromUtf16_sid (sid : SidText) : fromUtf16 (units sid.text) = some sid.text := by
  refine fromUtf16_units fun c hc => ?_
  by_contra hlarge
  refine absurd hc (sid.notMem ?_ ?_)
  · rintro (hdigit | rfl)
    · rw [Char.isDigit, Bool.and_eq_true, decide_eq_true_iff, decide_eq_true_iff] at hdigit
      have hle : c.toNat ≤ 57 := UInt32.le_iff_toNat_le.1 hdigit.2
      omega
    · exact hlarge (by decide)
  · rintro rfl
    exact hlarge (by decide)

/-- While the server asks who it runs as nothing changes, and what it learns is true. -/
theorem against_currentUserSid {guard : Option (Descriptor Account)} (h : Staged m guard) :
    currentUserSid.Against (Answers m) (Staged m)
      (fun g r => g = guard ∧ ∀ text, r = .ok text → text = m.sid.text) guard := by
  have hfail (e : PipeError) : Staged m guard ∧ guard = guard ∧
      ∀ text, (.error e : Except PipeError (List Char)) = .ok text → text = m.sid.text :=
    ⟨h, rfl, by rintro _ ⟨⟩⟩
  refine ⟨h, ?_⟩
  rintro (e | token) _ ⟨⟩
  · exact hfail _
  have hsid : (tokenUserSid token).Against (Answers m) (Staged m)
      (fun g r => g = guard ∧ ∀ text, r = .ok text → text = m.sid.text) guard := by
    refine ⟨h, ?_⟩
    rintro len _ ⟨⟩
    dsimp only
    split_ifs
    · exact hfail _
    refine ⟨h, ?_⟩
    rintro (e | sid) _ ⟨⟩
    · exact hfail _
    refine ⟨h, ?_⟩
    rintro _ _ (_ | _)
    · dsimp only
      rw [fromUtf16_sid]
      refine ⟨h, ?_⟩
      rintro _ _ ⟨⟩
      exact ⟨h, rfl, by rintro _ ⟨⟩; rfl⟩
    · exact hfail _
  refine hsid.bind ?_
  rintro _ r - ⟨rfl, hr⟩
  refine ⟨h, ?_⟩
  rintro _ _ ⟨⟩
  exact ⟨h, rfl, hr⟩

/-- The two parts of the descriptor are set one after the other, so the pipe has one of three
descriptors on the way. -/
theorem against_setSecurityInfo (server : Handle) (address : Address) :
    (setSecurityInfo message server ⟨address, pipeDescriptor m.sid⟩).Against (Answers m)
      (Staged m) (fun g r => r = .ok () → g = some (pipeDescriptor m.sid)) (some m.initial) := by
  have hinitial : Staged m (some m.initial) := by
    rintro _ ⟨⟩
    exact List.mem_cons_self
  have hhalf : Staged m (some { m.initial with dacl := (pipeDescriptor m.sid).dacl }) := by
    rintro _ ⟨⟩
    exact List.mem_cons_of_mem _ List.mem_cons_self
  have hlast : Staged m (some (pipeDescriptor m.sid)) := by
    rintro _ ⟨⟩
    exact List.mem_cons_of_mem _ (List.mem_cons_of_mem _ List.mem_cons_self)
  have hfail {guard : Option (Descriptor Account)} (h : Staged m guard) (e : PipeError) :
      Staged m guard ∧ ((.error e : Except PipeError Unit) = .ok () →
        guard = some (pipeDescriptor m.sid)) :=
    ⟨h, by rintro ⟨⟩⟩
  refine ⟨hinitial, fun dacl guard hdacl => ?_⟩
  cases hdacl with
  | noDacl e => exact hfail hinitial _
  | dacl =>
    refine ⟨hinitial, fun label guard hlabel => ?_⟩
    cases hlabel with
    | noLabel e => exact hfail hinitial _
    | label =>
      refine ⟨hinitial, fun status guard hset => ?_⟩
      cases hset with
      | daclNotSet hne =>
        dsimp only
        rw [if_pos hne]
        exact hfail hinitial _
      | daclSet =>
        refine ⟨hhalf, fun status guard hset => ?_⟩
        cases hset with
        | labelNotSet hne =>
          dsimp only
          rw [if_pos hne]
          exact hfail hhalf _
        | labelSet => exact ⟨hlast, fun _ => rfl⟩

/-- While the descriptor is applied the pipe is guarded by one of the three, and behind it by the
last. -/
theorem against_applyPipeSecurity (server : Handle) :
    (applyPipeSecurity message server).Against (Answers m) (Staged m)
      (fun g r => r = .ok () → g = some (pipeDescriptor m.sid)) (some m.initial) := by
  have hinitial : Staged m (some m.initial) := by
    rintro _ ⟨⟩
    exact List.mem_cons_self
  refine (against_currentUserSid hinitial).bind ?_
  rintro _ (e | text) hstaged ⟨rfl, htext⟩
  · exact ⟨hstaged, by rintro ⟨⟩⟩
  rw [htext text rfl]
  refine ⟨hstaged, fun ans guard ha => ?_⟩
  cases ha with
  | notConverted e => exact ⟨hstaged, by rintro ⟨⟩⟩
  | converted address hparse =>
    cases (parse_pipeSddl m.sid).symm.trans hparse
    refine (against_setSecurityInfo server address).bind ?_
    rintro guard r hguard hr
    refine ⟨hguard, ?_⟩
    rintro _ _ ⟨⟩
    exact ⟨hguard, hr⟩

/-- **What `bind` establishes**, whatever the system answers: if it succeeds, the pipe has the
descriptor of the acceptor. -/
theorem against_bind (path : List Char) :
    (PipeSecurity.bind message path).Against (Answers m) (Staged m) (Bound m) none := by
  have hnone : Staged m none := by rintro _ ⟨⟩
  refine ⟨hnone, fun ans guard ha => ?_⟩
  cases ha with
  | notCreated code => exact ⟨hnone, rfl⟩
  | created pipe =>
    refine (against_applyPipeSecurity pipe).bind ?_
    rintro guard (e | _) hguard hr
    · refine ⟨hguard, ?_⟩
      rintro _ _ ⟨⟩
      exact ⟨hnone, rfl⟩
    · exact ⟨hguard, hr rfl⟩

end Bind

/-! ### The invariant -/

/-- An instance of another process, next to so many of the server: it is not older than the pipe of
the server, and was granted by a descriptor the pipe had. -/
structure Admitted (m : Machine) (created : ℕ) (f : Foreign) : Prop where
  first : 1 ≤ f.after
  last : f.after ≤ created
  granted : ∃ d ∈ stages m, d.Grants fileMapping (m.token f.process) instanceAccess

/-- The instances of others are in order of age, each of them admitted by a descriptor the pipe
had. -/
structure Orderly (m : Machine) (created : ℕ) (foreign : List Foreign) : Prop where
  admitted : ∀ f ∈ foreign, Admitted m created f
  sorted : foreign.Pairwise fun f g => f.after ≤ g.after

/-- The invariant of a name: the binding is on its way, the acceptor is in a state of its own runs,
and the instances of others are in order. -/
structure Inv (m : Machine) (w : World) : Prop where
  binding : w.binding.Against (Answers m) (Staged m) (Bound m) w.guard
  acceptor : Npipe.Reachable w.acceptor
  others : w.guard ≠ none → Orderly m w.acceptor.created w.foreign

section Orderly

variable {m : Machine} {created : ℕ} {f : Foreign} {l r : List Foreign}

/-- Instances that were in order stay so when the server creates more. -/
theorem Orderly.mono {created' : ℕ} (h : Orderly m created l) (hle : created ≤ created') :
    Orderly m created' l where
  admitted f hf :=
    ⟨(h.admitted f hf).first, (h.admitted f hf).last.trans hle, (h.admitted f hf).granted⟩
  sorted := h.sorted

/-- Some of the instances are closed. -/
theorem Orderly.sublist (h : Orderly m created l) (hsub : r.Sublist l) : Orderly m created r where
  admitted f hf := h.admitted f (hsub.subset hf)
  sorted := h.sorted.sublist hsub

/-- A new instance is younger than all, and was granted by a descriptor that the pipe has had. -/
theorem Orderly.join (h : Orderly m created l) {p : ℕ} (hfirst : 1 ≤ created)
    (hgranted : ∃ d ∈ stages m, d.Grants fileMapping (m.token p) instanceAccess) :
    Orderly m created (l ++ [⟨p, created, none⟩]) where
  admitted := by
    refine List.forall_mem_append.2 ⟨h.admitted, fun f hf => ?_⟩
    rw [List.mem_singleton.1 hf]
    exact ⟨hfirst, le_rfl, hgranted⟩
  sorted := by
    refine List.pairwise_append.2 ⟨h.sorted, List.pairwise_singleton _ _, fun f hf g hg => ?_⟩
    rw [List.mem_singleton.1 hg]
    exact (h.admitted f hf).last

/-- An instance gets a client. Its age and its owner stay. -/
theorem Orderly.connect (h : Orderly m created (l ++ f :: r)) (client : Option ℕ) :
    Orderly m created (l ++ { f with client := client } :: r) where
  admitted := by
    obtain ⟨hl, hfr⟩ := List.forall_mem_append.1 h.admitted
    obtain ⟨hf, hr⟩ := List.forall_mem_cons.1 hfr
    refine List.forall_mem_append.2 ⟨hl, List.forall_mem_cons.2 ⟨?_, hr⟩⟩
    exact ⟨hf.first, hf.last, hf.granted⟩
  sorted := by
    obtain ⟨hl, hfr, hbetween⟩ := List.pairwise_append.1 h.sorted
    refine List.pairwise_append.2 ⟨hl, List.pairwise_cons.2 (List.pairwise_cons.1 hfr), ?_⟩
    exact fun g hg => List.forall_mem_cons.2 (List.forall_mem_cons.1 (hbetween g hg))

end Orderly

section Inv

variable {m : Machine} {w w' : World} {actor : Actor}

/-- The listening instance was created. -/
theorem one_le_created {a : Npipe.State} (h : Npipe.Reachable a) : 1 ≤ a.created := by
  have hids := congrArg List.length h.inv.ledger.ids
  rw [List.length_range, List.length_append, List.length_map, List.length_map,
    Npipe.Instances.held, List.length_cons] at hids
  omega

/-- Instances are only ever added: the acceptor counts those it has created. -/
theorem created_le {a b : Npipe.State} (h : Npipe.Step a b) : a.created ≤ b.created := by
  cases h with
  | enter n creates _ _ =>
    cases hspare : a.instances.spare with
    | some spare => rw [Npipe.State.enter_of_spare hspare]
    | none =>
      cases creates with
      | true =>
        rw [Npipe.State.enter_creates hspare]
        exact Nat.le_succ _
      | false => rw [Npipe.State.enter_fails hspare]
  | complete n _ _ =>
    rw [Npipe.State.complete]
    split
    · exact le_rfl
    · exact le_rfl
  | call | connectFails | dropWaiting | dropHolding | client | refused => exact le_rfl

/-- Every step keeps the invariant: of the server, of other processes, and of clients. -/
theorem Inv.step (h : Inv m w) (hs : Step m actor w w') : Inv m w' := by
  cases hs with
  | bind hop ha hfree =>
    have hbinding := h.binding
    rw [hop] at hbinding
    refine ⟨hbinding.2 _ _ ha, h.acceptor, fun hguard => ?_⟩
    by_cases hnone : w.guard = none
    · dsimp only
      rw [hfree hnone hguard]
      exact ⟨fun f hf => absurd hf List.not_mem_nil, .nil⟩
    · exact h.others hnone
  | accept _ _ ha _ _ =>
    exact ⟨h.binding, h.acceptor.tail ha, fun hguard => (h.others hguard).mono (created_le ha)⟩
  | join p hgranted =>
    refine ⟨h.binding, h.acceptor, fun hguard => ?_⟩
    obtain ⟨d, hd⟩ := Option.ne_none_iff_exists'.1 hguard
    have hcreated : w.created = w.acceptor.created := by rw [World.created, hd]
    dsimp only
    rw [hcreated]
    exact (h.others hguard).join (one_le_created h.acceptor)
      ⟨d, h.binding.holds d hd, hgranted d hd⟩
  | leave hf =>
    refine ⟨h.binding, h.acceptor, fun hguard => (h.others hguard).sublist ?_⟩
    rw [hf]
    exact (List.sublist_cons_self _ _).append_left _
  | served p _ _ hx _ => exact ⟨h.binding, h.acceptor.tail (.client hx), h.others⟩
  | lured p _ hf _ _ _ =>
    refine ⟨h.binding, h.acceptor, fun hguard => ?_⟩
    have hothers := h.others hguard
    rw [hf] at hothers
    exact hothers.connect (some p)

/-- The invariant holds in every reachable state. -/
theorem Reachable.inv {message : UInt32 → String} {path : List Char}
    (h : Reachable m message path w) : Inv m w := by
  induction h with
  | refl => exact ⟨against_bind path, .refl, fun hguard => absurd rfl hguard⟩
  | tail _ hs ih =>
    obtain ⟨actor, hs⟩ := hs
    exact ih.step hs

end Inv

/-! ### Clients -/

/-- How many instances a client can still get, those of the server and those of others. -/
def World.free (w : World) : ℕ :=
  w.acceptor.instances.held.length - w.acceptor.instances.heldClients.length +
    w.foreign.countP fun f => f.client = none

section Clients

variable {m : Machine} {w : World} {q : ℕ}

/-- Of the instances of the server that are free one is the oldest: the listening one, or else the
spare. -/
theorem exists_oldestFree {a : Npipe.State} (h : Npipe.Reachable a) {x : Npipe.Instance}
    (hx : x ∈ a.instances.held) (hfree : x.client = none) :
    ∃ y, a.instances.OldestFree y := by
  by_cases hlistening : a.instances.listening.client = none
  · refine ⟨a.instances.listening, List.mem_cons_self, hlistening, fun y hy _ => ?_⟩
    rcases List.mem_cons.1 hy with rfl | hy
    · exact le_rfl
    · exact (h.inv.ledger.listening_lt (Option.mem_toList.1 hy)).le
  · refine ⟨x, hx, hfree, fun y hy hyfree => ?_⟩
    -- both are the spare
    rcases List.mem_cons.1 hx with rfl | hx
    · exact absurd hfree hlistening
    rcases List.mem_cons.1 hy with rfl | hy
    · exact absurd hyfree hlistening
    cases (Option.mem_toList.1 hx).symm.trans (Option.mem_toList.1 hy)
    exact le_rfl

/-- A client takes one instance of the server, so that one fewer is free. -/
theorem heldFree_give {a : Npipe.State} (h : Npipe.Reachable a) {x : Npipe.Instance}
    (hx : a.instances.OldestFree x) (client : ℕ) :
    (a.instances.give x.id client).held.length -
        (a.instances.give x.id client).heldClients.length <
      a.instances.held.length - a.instances.heldClients.length := by
  have hheld := congrArg List.length (Npipe.map_id_give a.instances x.id client)
  have hclients := congrArg List.length (h.inv.ledger.heldClients_give hx client)
  have hle := List.length_filterMap_le Npipe.Instance.client (a.instances.give x.id client).held
  rw [← Npipe.Instances.heldClients] at hle
  rw [List.length_map, List.length_map] at hheld
  rw [List.length_append, List.length_singleton] at hclients
  omega

/-- While an instance of another process is free, a client that connects gets an instance of that
process, or one more instance is taken. -/
theorem Inv.client_step (h : Inv m w) {d : Descriptor Account} (hguard : w.guard = some d)
    (hgranted : w.Granted m q clientAccess) {f : Foreign} (hf : f ∈ w.foreign)
    (hfree : f.client = none) :
    ∃ w', Step m (.client q) w w' ∧ w'.guard = w.guard ∧
      ((∃ g ∈ w'.foreign, g.process = f.process ∧ g.client = some q) ∨
        f ∈ w'.foreign ∧ w'.free < w.free) := by
  have hsome : w.guard ≠ none := by
    rw [hguard]
    exact Option.some_ne_none d
  have hfind : (w.foreign.find? fun f => f.client = none).isSome :=
    List.find?_isSome.2 ⟨f, hf, decide_eq_true hfree⟩
  obtain ⟨g, hg⟩ := Option.isSome_iff_exists.1 hfind
  obtain ⟨hgfree, l, r, heq, hbusy⟩ := List.find?_eq_some_iff_append.1 hg
  rw [decide_eq_true_iff] at hgfree
  have hbusy' : ∀ g ∈ l, g.client ≠ none := fun g hmem hnone => by
    simpa [hnone] using hbusy g hmem
  by_cases hown : ∃ x ∈ w.acceptor.instances.held, x.client = none ∧ x.id < g.after
  · -- one of the server is older
    obtain ⟨x, hx, hxfree, hlt⟩ := hown
    obtain ⟨y, hy⟩ := exists_oldestFree h.acceptor hx hxfree
    have hage : ∀ f ∈ w.foreign, f.client = none → y.id < f.after := by
      intro f' hf' hfree'
      have hyx := hy.2.2 x hx hxfree
      have hsorted := (h.others hsome).sorted
      rw [heq] at hf' hsorted
      rcases List.mem_append.1 hf' with hl | hr
      · exact absurd hfree' (hbusy' f' hl)
      rcases List.mem_cons.1 hr with rfl | hr
      · omega
      · have hle := List.rel_of_pairwise_cons (List.pairwise_append.1 hsorted).2.1 hr
        omega
    refine ⟨_, .served q hguard hgranted hy hage, rfl, .inr ⟨hf, ?_⟩⟩
    exact Nat.add_lt_add_right (heldFree_give h.acceptor hy _) _
  · have hage : w.guard ≠ none →
        ∀ x ∈ w.acceptor.instances.held, x.client = none → g.after ≤ x.id := by
      intro _ x hx hxfree
      by_contra hlt
      exact hown ⟨x, hx, hxfree, not_le.1 hlt⟩
    refine ⟨_, .lured q hgranted heq hgfree hbusy' hage, rfl, ?_⟩
    by_cases hsame : f = g
    · subst hsame
      exact .inl ⟨_, List.mem_append_right _ List.mem_cons_self, rfl, rfl⟩
    · refine .inr ⟨?_, ?_⟩
      · rw [heq] at hf
        rcases List.mem_append.1 hf with hl | hr
        · exact List.mem_append_left _ hl
        rcases List.mem_cons.1 hr with hr | hr
        · exact absurd hr hsame
        · exact List.mem_append_right _ (List.mem_cons_of_mem _ hr)
      · simp [World.free, heq, List.countP_append, hgfree]

/-- **Clients that connect one after the other** come to an instance of another process that is
free. -/
theorem Inv.intercept (h : Inv m w) {d : Descriptor Account} (hguard : w.guard = some d)
    (hgranted : w.Granted m q clientAccess) {f : Foreign} (hf : f ∈ w.foreign)
    (hfree : f.client = none) :
    ∃ w', Run m (· = .client q) w w' ∧
      ∃ g ∈ w'.foreign, g.process = f.process ∧ g.client = some q := by
  induction hn : w.free using Nat.strong_induction_on generalizing w with
  | _ n ih =>
    obtain ⟨w', hs, hsame, hcases⟩ := h.client_step hguard hgranted hf hfree
    have hrun : Run m (· = .client q) w w' := .single ⟨_, rfl, hs⟩
    rcases hcases with hdone | ⟨hf', hless⟩
    · exact ⟨w', hrun, hdone⟩
    · have hgranted' : w'.Granted m q clientAccess := by
        rw [World.Granted, hsame]
        exact hgranted
      obtain ⟨w'', hrun', hdone⟩ :=
        ih w'.free (hn ▸ hless) (h.step hs) (hsame.trans hguard) hgranted' hf' rfl
      exact ⟨w'', hrun.trans hrun', hdone⟩

end Clients

/-- **What `bind` establishes, and what it does not.** In every run in which `bind` has returned
an acceptor, whatever other processes, clients and calls of `accept` do in between: the pipe is
guarded by the descriptor of `apply_pipe_security`; the acceptor is as it may be without other
processes on the name, so that it loses no client that it gets; no instance of another process is
older than the first of the server, and each was granted by a descriptor the pipe had by then.
But a further instance is granted to every process of medium integrity that belongs to an
authenticated user; and if such a process adds one, then a client that connects again and again
gets to it, without the server doing anything. -/
theorem clients_can_be_intercepted (m : Machine) (message : UInt32 → String) (path : List Char)
    {w : World} {pipe : Handle} (h : Reachable m message path w)
    (hbound : w.binding = .done (.ok pipe)) :
    w.guard = some (pipeDescriptor m.sid) ∧ Npipe.Reachable w.acceptor ∧
    (∀ f ∈ w.foreign, 1 ≤ f.after ∧
      ∃ d ∈ stages m, d.Grants fileMapping (m.token f.process) instanceAccess) ∧
    (∀ p, w.Granted m p instanceAccess ↔ Eligible m.sid (m.token p)) ∧
    ∀ p q, Eligible m.sid (m.token p) → Eligible m.sid (m.token q) →
      ∃ w', Run m (fun actor => actor = .process p ∨ actor = .client q) w w' ∧
        ∃ f ∈ w'.foreign, f.process = p ∧ f.client = some q := by
  have hinv := h.inv
  have hguard : w.guard = some (pipeDescriptor m.sid) := by
    have hbinding := hinv.binding
    rw [hbound] at hbinding
    exact hbinding.2
  have hgranted (p : ℕ) : w.Granted m p instanceAccess ↔ Eligible m.sid (m.token p) := by
    rw [← grants_iff, World.Granted, hguard]
    exact ⟨fun hd => hd _ rfl, fun hd _ heq => Option.some.inj heq ▸ hd⟩
  refine ⟨hguard, hinv.acceptor, fun f hf => ?_, hgranted, fun p q hp hq => ?_⟩
  · have hadmitted := (hinv.others (by rw [hguard]; exact Option.some_ne_none _)).admitted f hf
    exact ⟨hadmitted.first, hadmitted.granted⟩
  · have hjoin : Step m (.process p) w _ := .join p ((hgranted p).2 hp)
    have hclient : World.Granted m { w with foreign := w.foreign ++ [⟨p, w.created, none⟩] } q
        clientAccess := by
      intro d hd
      rw [grants_client_iff]
      exact (hgranted q).2 hq d hd
    obtain ⟨w', hrun, f, hf, hprocess, hfclient⟩ := (hinv.step hjoin).intercept hguard hclient
      (List.mem_append_right _ List.mem_cons_self) rfl
    exact ⟨w', .head ⟨_, .inl rfl, hjoin⟩ (hrun.mono fun _ => .inr), f, hf, hprocess, hfclient⟩

/-- A server of an account, among processes of authenticated users of medium integrity. -/
def sampleMachine : Machine where
  sid := ⟨['1', '-', '5'], by simp⟩
  initial := ⟨[], 0x2000⟩
  server := ⟨[.sid ['S', '-', '1', '-', '5']], 0x2000⟩
  token _ := ⟨[.authenticatedUsers], 0x2000⟩

/-- Nothing fails, and `bind` returns: then process 1 can get hold of a client of process 2. -/
theorem clients_can_be_intercepted_sample :
    ∃ w, Reachable sampleMachine (fun _ => "") ['p'] w ∧ w.binding = .done (.ok 1) ∧
      ∃ w', Run sampleMachine (fun actor => actor = .process 1 ∨ actor = .client 2) w w' ∧
        ∃ f ∈ w'.foreign, f.process = 1 ∧ f.client = some 2 := by
  have heligible (p : ℕ) : Eligible sampleMachine.sid (sampleMachine.token p) :=
    ⟨le_rfl, .inr (.inr (.inr List.mem_cons_self))⟩
  let R := Reachable sampleMachine (fun _ => "") ['p']
  have h1 : R _ := .single ⟨.server, .bind rfl (.created 1) fun _ _ => rfl⟩
  have h2 : R _ := h1.tail ⟨.server, .bind rfl (.token (.ok 2)) (by simp)⟩
  have h3 : R _ := h2.tail ⟨.server, .bind rfl (.size 44) (by simp)⟩
  have h4 : R _ := h3.tail ⟨.server, .bind rfl (.user (.ok [])) (by simp)⟩
  have h5 : R _ := h4.tail ⟨.server, .bind rfl (.sidText 7) (by simp)⟩
  have h6 : R _ := h5.tail ⟨.server, .bind rfl .freed (by simp)⟩
  have h7 : R _ := h6.tail ⟨.server, .bind rfl .tokenClosed (by simp)⟩
  have h8 : R _ := h7.tail ⟨.server, .bind rfl (.converted 8 (parse_pipeSddl sampleMachine.sid))
    (by simp)⟩
  have h9 : R _ := h8.tail ⟨.server, .bind rfl .dacl (by simp)⟩
  have h10 : R _ := h9.tail ⟨.server, .bind rfl .label (by simp)⟩
  have h11 : R _ := h10.tail ⟨.server, .bind rfl .daclSet (by simp)⟩
  have h12 : R _ := h11.tail ⟨.server, .bind rfl .labelSet (by simp)⟩
  have h13 : R _ := h12.tail ⟨.server, .bind rfl .freed (by simp)⟩
  exact ⟨_, h13, rfl, (clients_can_be_intercepted sampleMachine _ _ h13 rfl).2.2.2.2 1 2
    (heligible 1) (heligible 2)⟩

end PipeNamespace

end Ogurpchik
