import Mathlib.Data.List.Perm.Basic

/-!
# Finding the WSL Virtual Machine

`Endpoint::vsock_to_wsl` asks the host compute service for the running virtual machines and takes
the first that WSL owns. The query needs elevation; refused, the lookup reads the registry instead,
which lists the machines by id and does not name their owners, and takes the machine there if it is
the only one. The module models both paths over one set of machines.

Parsing a UUID is the `uuid` crate's, and so is a parameter; the listing of the compute service is
taken after it has been read.

## Main definitions

* `wslVm`, `theOnlyVm`, `wslVmid`, `vsockToWsl`: the lookup.
* `Lists`: what the registry shows of the machines.
* `NeverSettles`: the lookup returns WSL's machine, or says there is none.
* `RegistryTellsWsl`: the sets of machines for which the registry is enough.

## Main results

* `theOnlyVm_eq_wslVm_iff`: when the two paths agree.
* `never_settles_iff`: **the lookup never settles for another machine** exactly when the compute
  service answers, or the registry is enough.
-/

namespace Ogurpchik

namespace Wsl

/-! ### The lookup -/

/-- The kinds of `std::io::Error` the lookup tells apart; all others end it. -/
inductive IoErrorKind
  | notFound
  | permissionDenied
  | other
  deriving DecidableEq, Repr

/-- A compute system as the host compute service lists it, as far as it is looked at. -/
structure ComputeSystem where
  id : String
  owner : String
  runtimeId : String
  deriving DecidableEq, Repr

/-- A key of the registry's list: its name and the value `ComputeSystemType`, if the key can be
opened and has one. -/
structure RegistryKey where
  name : String
  computeSystemType : Option ℕ
  deriving DecidableEq, Repr

/-- `WslLookupError`: several machines that cannot be told apart, or an error of the system. -/
inductive WslLookupError
  | ambiguous (count : ℕ)
  | io (kind : IoErrorKind)
  deriving DecidableEq, Repr

/-- `EndpointError`, as far as the lookup produces it. -/
inductive EndpointError
  | invalidVsockTarget
  | wslNotRunning
  | wslVmAmbiguous
  deriving DecidableEq, Repr

/-- A report over an `EndpointError`, with the texts attached to it. -/
structure EndpointReport where
  context : EndpointError
  attached : List String
  deriving DecidableEq, Repr

/-- `Endpoint::Vsock` with a machine for a target, and a port. -/
structure VsockEndpoint (Uuid : Type) where
  guid : Uuid
  port : UInt32
  deriving DecidableEq, Repr

section Lookup

variable {Uuid : Type} (parse : String → Option Uuid)

/-- `ComputeSystem::vm_id`: the runtime id, or else the id, if one of them can be parsed. -/
def ComputeSystem.vmId (vm : ComputeSystem) : Option Uuid :=
  (parse vm.runtimeId).or (parse vm.id)

/-- The first machine of WSL that can be addressed, in the order in which they are listed. -/
def wslVm (vms : List ComputeSystem) : Option Uuid :=
  (vms.filter (·.owner = "WSL")).findSome? (ComputeSystem.vmId parse)

/-- `get_wsl_vmid_by_hcs`, on what the query of the compute service comes to. -/
def getWslVmidByHcs (query : Except IoErrorKind (List ComputeSystem)) :
    Except IoErrorKind (Option Uuid) :=
  query.map (wslVm parse)

/-- The loop of `virtual_machines_in_registry`: a key that cannot be enumerated ends it. -/
def collectVms : List (Except IoErrorKind RegistryKey) → Except IoErrorKind (List Uuid)
  | [] => .ok []
  | .error e :: _ => .error e
  | .ok key :: keys =>
      match key.computeSystemType, parse key.name with
      | some 2, some id => (collectVms keys).map (id :: ·)
      | _, _ => collectVms keys

/-- `virtual_machines_in_registry`: a registry without the key lists no machines. -/
def virtualMachinesInRegistry
    (list : Except IoErrorKind (List (Except IoErrorKind RegistryKey))) :
    Except IoErrorKind (List Uuid) :=
  match list with
  | .ok keys => collectVms parse keys
  | .error .notFound => .ok []
  | .error e => .error e

/-- `the_only_vm`: several machines cannot be told apart without the compute service. -/
def theOnlyVm : List Uuid → Except WslLookupError (Option Uuid)
  | [] => .ok none
  | [only] => .ok (some only)
  | several => .error (.ambiguous several.length)

/-- `wsl_vmid_by_reg`: the registry does not tell whose a machine is, so a single one is taken for
that of WSL. -/
def wslVmidByReg (list : Except IoErrorKind (List (Except IoErrorKind RegistryKey))) :
    Except WslLookupError (Option Uuid) :=
  match virtualMachinesInRegistry parse list with
  | .ok vms => theOnlyVm vms
  | .error e => .error (.io e)

/-- `wsl_vmid`: the registry is asked only where the compute service refuses for lack of rights. -/
def wslVmid (query : Except IoErrorKind (List ComputeSystem))
    (list : Except IoErrorKind (List (Except IoErrorKind RegistryKey))) :
    Except WslLookupError (Option Uuid) :=
  match getWslVmidByHcs parse query with
  | .ok v => .ok v
  | .error .permissionDenied => wslVmidByReg parse list
  | .error e => .error (.io e)

/-- What `vsock_to_wsl` makes of the lookup: an endpoint, or a report that tells apart why there is
none. -/
def toEndpoint (port : UInt32) :
    Except WslLookupError (Option Uuid) → Except EndpointReport (VsockEndpoint Uuid)
  | .error (.ambiguous count) =>
      .error ⟨.wslVmAmbiguous,
        [toString count ++ " VMs are running; run elevated to tell WSL's apart"]⟩
  | .error (.io _) => .error ⟨.invalidVsockTarget, []⟩
  | .ok none => .error ⟨.wslNotRunning, []⟩
  | .ok (some vm) => .ok ⟨vm, port⟩

/-- `Endpoint::vsock_to_wsl`: the machine of WSL, or an error that tells why there is none. Where
the compute service refuses, the only machine in the registry is taken for it. -/
def vsockToWsl (query : Except IoErrorKind (List ComputeSystem))
    (list : Except IoErrorKind (List (Except IoErrorKind RegistryKey))) (port : UInt32) :
    Except EndpointReport (VsockEndpoint Uuid) :=
  toEndpoint port (wslVmid parse query list)

/-! ### One set of machines -/

/-- Whether the compute service answers the query or refuses it, as it does to a process without the
rights. -/
inductive Path
  | answered
  | refused
  deriving DecidableEq, Repr

/-- What the query comes to on each of the two paths. -/
def Path.query (machines : List ComputeSystem) : Path → Except IoErrorKind (List ComputeSystem)
  | answered => .ok machines
  | refused => .error .permissionDenied

/-- The registry lists the machines by id, as compute systems of type 2, in any order. -/
def Lists (keys : List RegistryKey) (machines : List ComputeSystem) : Prop :=
  ((keys.filter (·.computeSystemType = some 2)).map RegistryKey.name).Perm
    (machines.map ComputeSystem.id)

/-- `vsock_to_wsl` on a set of machines, with the keys that the registry has for them. -/
def lookup (machines : List ComputeSystem) (keys : List RegistryKey) (port : UInt32)
    (path : Path) : Except EndpointReport (VsockEndpoint Uuid) :=
  vsockToWsl parse (path.query machines) (.ok (keys.map .ok)) port

/-- The lookup could not tell the machines apart, and reports so. -/
def IsAmbiguous (result : Except EndpointReport (VsockEndpoint Uuid)) : Prop :=
  ∃ texts, result = .error ⟨.wslVmAmbiguous, texts⟩

/-- The lookup returns a machine of WSL's, or says there is none, and does not depend on which of
the two paths is taken. -/
structure NeverSettles (machines : List ComputeSystem) (keys : List RegistryKey) (port : UInt32)
    (path : Path) : Prop where
  owned : ∀ endpoint, lookup parse machines keys port path = .ok endpoint →
    ∃ vm ∈ machines, vm.owner = "WSL" ∧
      (parse vm.runtimeId = some endpoint.guid ∨ parse vm.id = some endpoint.guid)
  notRunning : (∀ vm ∈ machines, vm.owner ≠ "WSL") →
    ¬ IsAmbiguous (lookup parse machines keys port path) →
    lookup parse machines keys port path = .error ⟨.wslNotRunning, []⟩
  sameAnswer : ¬ IsAmbiguous (lookup parse machines keys port path) →
    lookup parse machines keys port path = lookup parse machines keys port .answered

/-- The machines that can be told from the registry, by their ids. -/
def listed (machines : List ComputeSystem) : List Uuid :=
  (machines.map ComputeSystem.id).filterMap parse

/-- The registry is enough: several machines are listed, so that the lookup is ambiguous; or none
is, and WSL has none that could be addressed; or one is, and it is the first of WSL's. -/
def RegistryTellsWsl (machines : List ComputeSystem) : Prop :=
  match listed parse machines with
  | [] => ∀ vm ∈ machines, vm.owner = "WSL" → vm.vmId parse = none
  | [only] => ∃ before vm after, machines = before ++ vm :: after ∧ vm.owner = "WSL" ∧
      vm.vmId parse = some only ∧ ∀ vm' ∈ before, vm'.owner = "WSL" → vm'.vmId parse = none
  | _ :: _ :: _ => True

/-! ### The two paths -/

section Paths

variable {parse} {machines : List ComputeSystem} {keys : List RegistryKey} {port : UInt32}

/-- With all keys readable the loop collects the ids of the virtual machines, by induction along the
list. -/
theorem collectVms_map_ok (keys : List RegistryKey) :
    collectVms parse (keys.map .ok) =
      .ok (((keys.filter (·.computeSystemType = some 2)).map RegistryKey.name).filterMap
        parse) := by
  induction keys with
  | nil => rfl
  | cons key keys ih =>
    rw [List.map_cons, collectVms, ih]
    by_cases htype : key.computeSystemType = some 2
    · cases hname : parse key.name <;> simp [htype, hname, Except.map]
    · simp only [List.filter_cons, htype, decide_false]
      split
      · simp_all
      · rfl

/-- No machine is no error. -/
theorem theOnlyVm_nil : theOnlyVm ([] : List Uuid) = .ok none := rfl

/-- One machine is the one. -/
theorem theOnlyVm_singleton (only : Uuid) : theOnlyVm [only] = .ok (some only) := rfl

/-- Two or more are ambiguous, and the error tells how many there are. -/
theorem theOnlyVm_several (a b : Uuid) (vms : List Uuid) :
    theOnlyVm (a :: b :: vms) = .error (.ambiguous (a :: b :: vms).length) := rfl

/-- The order in which the registry lists machines does not matter: one machine has one order. -/
theorem theOnlyVm_perm {vms vms' : List Uuid} (h : vms.Perm vms') :
    theOnlyVm vms = theOnlyVm vms' := by
  match vms, vms', h with
  | [], vms', h => rw [List.nil_perm.mp h]
  | [only], vms', h => rw [List.singleton_perm.mp h]
  | a :: b :: vms, vms', h =>
    have hlen := h.length_eq
    match vms', hlen with
    | a' :: b' :: vms', hlen => rw [theOnlyVm_several, theOnlyVm_several, hlen]

/-- Refused, the lookup is about what the registry lists, and does not see whose the machines
are. -/
theorem lookup_refused (h : Lists keys machines) (port : UInt32) :
    lookup parse machines keys port .refused =
      toEndpoint port (theOnlyVm (listed parse machines)) := by
  have hperm := h.filterMap parse
  change toEndpoint port (match virtualMachinesInRegistry parse (.ok (keys.map .ok)) with
    | .ok vms => theOnlyVm vms
    | .error e => .error (.io e)) = _
  rw [virtualMachinesInRegistry, collectVms_map_ok]
  exact congrArg (toEndpoint port) (theOnlyVm_perm hperm)

/-- Answered, the lookup is about the machines of WSL, and the registry is not asked. -/
theorem lookup_answered (keys : List RegistryKey) (port : UInt32) :
    lookup parse machines keys port .answered = toEndpoint port (.ok (wslVm parse machines)) := rfl

/-- The first of WSL's machines that can be addressed, in one pass. -/
theorem wslVm_eq_findSome? (machines : List ComputeSystem) :
    wslVm parse machines =
      machines.findSome? fun vm => if vm.owner = "WSL" then vm.vmId parse else none := by
  induction machines with
  | nil => rfl
  | cons vm machines ih =>
    rw [wslVm] at ih ⊢
    by_cases howner : vm.owner = "WSL"
    · simp only [List.filter_cons, howner, decide_true, if_true, List.findSome?_cons, ih]
    · simp only [List.filter_cons, howner, decide_false, if_false, List.findSome?_cons, ih,
        Bool.false_eq_true]

/-- No machine is found exactly if none of WSL can be addressed. -/
theorem wslVm_eq_none_iff :
    wslVm parse machines = none ↔ ∀ vm ∈ machines, vm.owner = "WSL" → vm.vmId parse = none := by
  simp [wslVm_eq_findSome?]

/-- A machine is found exactly if it is the first of WSL that can be addressed. -/
theorem wslVm_eq_some_iff {only : Uuid} :
    wslVm parse machines = some only ↔ ∃ before vm after, machines = before ++ vm :: after ∧
      vm.owner = "WSL" ∧ vm.vmId parse = some only ∧
      ∀ vm' ∈ before, vm'.owner = "WSL" → vm'.vmId parse = none := by
  simp [wslVm_eq_findSome?, List.findSome?_eq_some_iff, and_assoc]

/-- Endpoints tell machines apart. -/
theorem toEndpoint_ok_inj {vm vm' : Option Uuid} :
    toEndpoint port (.ok vm) = toEndpoint port (.ok vm') ↔ vm = vm' := by
  cases vm <;> cases vm' <;> simp [toEndpoint]

/-- A lookup that came to a result is not ambiguous. -/
theorem not_isAmbiguous_toEndpoint_ok (vm : Option Uuid) :
    ¬ IsAmbiguous (toEndpoint port (.ok vm)) := by
  rintro ⟨texts, h⟩
  cases vm <;> simp [toEndpoint] at h

/-- The two paths agree, or the lookup is ambiguous, exactly when the registry is enough. -/
theorem theOnlyVm_eq_wslVm_iff :
    (¬ IsAmbiguous (toEndpoint port (theOnlyVm (listed parse machines))) →
      toEndpoint port (theOnlyVm (listed parse machines)) =
        toEndpoint port (.ok (wslVm parse machines))) ↔ RegistryTellsWsl parse machines := by
  rw [RegistryTellsWsl]
  rcases listed parse machines with _ | ⟨only, _ | ⟨second, more⟩⟩
  · rw [theOnlyVm_nil, toEndpoint_ok_inj, forall_prop_of_true (not_isAmbiguous_toEndpoint_ok _)]
    exact eq_comm.trans wslVm_eq_none_iff
  · rw [theOnlyVm_singleton, toEndpoint_ok_inj,
      forall_prop_of_true (not_isAmbiguous_toEndpoint_ok _)]
    exact eq_comm.trans wslVm_eq_some_iff
  · rw [theOnlyVm_several]
    exact iff_of_true (fun h => absurd ⟨_, rfl⟩ h) trivial

/-- What the compute service answers is WSL's machine, or that there is none. -/
theorem neverSettles_answered (machines : List ComputeSystem) (keys : List RegistryKey)
    (port : UInt32) : NeverSettles parse machines keys port .answered where
  owned := by
    intro endpoint h
    rw [lookup_answered] at h
    cases hvm : wslVm parse machines with
    | none =>
      rw [hvm] at h
      cases h
    | some guid =>
      rw [hvm] at h
      cases h
      obtain ⟨before, vm, after, rfl, howner, hid, -⟩ := wslVm_eq_some_iff.mp hvm
      refine ⟨vm, by simp, howner, ?_⟩
      rw [ComputeSystem.vmId, Option.or_eq_some_iff] at hid
      exact hid.imp_right And.right
  notRunning := by
    intro hnone _
    rw [lookup_answered, wslVm_eq_none_iff.mpr fun vm hvm howner => absurd howner (hnone vm hvm)]
    rfl
  sameAnswer _ := rfl

/-- Whatever answer the compute service would have given, if the registry gives the same. -/
theorem NeverSettles.of_sameAnswer {path : Path}
    (h : ¬ IsAmbiguous (lookup parse machines keys port path) →
      lookup parse machines keys port path = lookup parse machines keys port .answered) :
    NeverSettles parse machines keys port path where
  owned endpoint hok := by
    have hclear : ¬ IsAmbiguous (lookup parse machines keys port path) := by
      rintro ⟨texts, herr⟩
      cases herr.symm.trans hok
    exact (neverSettles_answered machines keys port).owned endpoint (h hclear ▸ hok)
  notRunning hnone hclear := by
    have hsame := h hclear
    rw [hsame] at hclear ⊢
    exact (neverSettles_answered machines keys port).notRunning hnone hclear
  sameAnswer := h

end Paths

/-- **The lookup never settles for another machine exactly when the compute service answers or the
registry is enough**: with the query refused, several machines are listed in the registry, or it
lists one and this is the address of the first of WSL's machines that has one, or it lists none and
no machine of WSL's has an address. -/
theorem never_settles_iff {machines : List ComputeSystem} {keys : List RegistryKey}
    (hlists : Lists keys machines) (port : UInt32) (path : Path) :
    NeverSettles parse machines keys port path ↔
      path = .answered ∨ RegistryTellsWsl parse machines := by
  cases path with
  | answered => exact iff_of_true (neverSettles_answered machines keys port) (.inl rfl)
  | refused =>
    rw [← @theOnlyVm_eq_wslVm_iff _ parse machines port, ← lookup_refused hlists port,
      ← lookup_answered keys port]
    constructor
    · exact fun h => .inr h.sameAnswer
    · rintro (h | h)
      · cases h
      · exact .of_sameAnswer h

end Lookup

/-! ### Two single machines -/

/-- A hexadecimal digit, in either case. -/
def hexDigit (c : Char) : Option ℕ :=
  if '0' ≤ c ∧ c ≤ '9' then some (c.toNat - '0'.toNat)
  else if 'a' ≤ c ∧ c ≤ 'f' then some (c.toNat - 'a'.toNat + 10)
  else if 'A' ≤ c ∧ c ≤ 'F' then some (c.toNat - 'A'.toNat + 10)
  else none

/-- A UUID in its hyphenated form, as a number: a parser to evaluate samples with. -/
def parseHyphenated (text : String) : Option ℕ :=
  let groups := text.toList.splitOn '-'
  if groups.map List.length = [8, 4, 4, 4, 12] then
    groups.flatten.foldlM (fun n c => (hexDigit c).map (n * 16 + ·)) 0
  else none

/-- The machine of WSL, running by itself. -/
def wslAlone : ComputeSystem :=
  ⟨"c6de7088-6992-4adf-8038-5984755d5412", "WSL", "c6de7088-6992-4adf-8038-5984755d5412"⟩

/-- Where the machine of WSL runs alone, a caller that the compute service refuses does not settle
for another one either. -/
theorem never_settles_wslAlone :
    Lists [⟨wslAlone.id, some 2⟩] [wslAlone] ∧
      NeverSettles parseHyphenated [wslAlone] [⟨wslAlone.id, some 2⟩] 1024 .refused := by
  have hlists : Lists [⟨wslAlone.id, some 2⟩] [wslAlone] := .refl _
  have htells : RegistryTellsWsl parseHyphenated [wslAlone] :=
    ⟨[], wslAlone, [], rfl, rfl, rfl, by simp⟩
  exact ⟨hlists, (never_settles_iff parseHyphenated hlists 1024 .refused).mpr (.inr htells)⟩

/-- A machine of the Hyper-V manager, running by itself. -/
def hyperVAlone : ComputeSystem :=
  ⟨"ed4d837e-aa16-57c4-9c8a-d1027b76533a", "VMMS", "ed4d837e-aa16-57c4-9c8a-d1027b76533a"⟩

/-- Refused by the compute service, the lookup takes it for WSL's. -/
theorem settles_for_hyperVAlone :
    Lists [⟨hyperVAlone.id, some 2⟩] [hyperVAlone] ∧
      ¬ NeverSettles parseHyphenated [hyperVAlone] [⟨hyperVAlone.id, some 2⟩] 1024 .refused := by
  refine ⟨.refl _, fun h => ?_⟩
  obtain ⟨vm, hvm, howner, -⟩ := h.owned _ rfl
  rw [List.mem_singleton.mp hvm] at howner
  exact absurd howner (by decide)

end Wsl

end Ogurpchik
