import Ogurpchik.LittleEndian
import Ogurpchik.WslLookup

/-!
# Addresses of Virtual Machines

On Windows an end of a virtual socket is addressed by two GUIDs, one for the machine and one for the
service, and a GUID is laid out with its first three fields in the byte order of the processor and
the rest as bytes. A target is a context id, of which a few stand for a place and all others for any
child, or a UUID, which has its fields the other way round. This module follows a target to the
bytes that are handed to the system, and says which ends have the same ones.

It also models the older of the two lookups of a machine, which takes any machine if WSL has none,
and goes through a GUID on its way.

## Main definitions

* `uuidToGuid`, `guidToUuid`: the two forms of an id.
* `End`, `End.address`: an end of a virtual socket and its address.
* `End.machine`: the machine of an end, as a number.
* `vsockToBestVm`: the older lookup.

## Main results

* `guidToUuid_uuidToGuid`: an id survives the way through a GUID.
* `hv_addresses_meet_iff`: **which ends have the same address.**
* `best_vm_extends_wsl`: **the older lookup** agrees with the newer one where that finds a machine.
-/

namespace Ogurpchik

namespace Vsock

open LittleEndian

/-! ### The two forms of an id -/

/-- `uuid::Uuid`: sixteen bytes, in the order in which they are written. -/
abbrev Uuid := { bytes : List UInt8 // bytes.length = 16 }

/-- `windows::core::GUID`: the same in four fields, three of which are numbers. -/
structure Guid where
  data1 : UInt32
  data2 : UInt16
  data3 : UInt16
  data4 : { bytes : List UInt8 // bytes.length = 8 }
  deriving DecidableEq

/-- `Uuid::from_u128`: the bytes of the number, the most significant first. -/
def Uuid.fromU128 (v : ℕ) : Uuid := ⟨beBytes 16 v, length_beBytes 16 v⟩

/-- `Uuid::as_fields`, made a GUID: the fields are numbers in big-endian order, and in memory they
are turned round. -/
def uuidToGuid (u : Uuid) : Guid where
  data1 := .ofNat (beNat (u.val.take 4))
  data2 := .ofNat (beNat ((u.val.drop 4).take 2))
  data3 := .ofNat (beNat ((u.val.drop 6).take 2))
  data4 := ⟨u.val.drop 8, by rw [List.length_drop, u.property]⟩

/-- `GUID::from_u128`: the fields of the number, the most significant first. -/
def Guid.fromU128 (v : ℕ) : Guid where
  data1 := .ofNat (v / 2 ^ 96)
  data2 := .ofNat (v / 2 ^ 80)
  data3 := .ofNat (v / 2 ^ 64)
  data4 := ⟨beBytes 8 v, length_beBytes 8 v⟩

/-- `GUID::to_u128`: the fields put together again. -/
def Guid.toU128 (g : Guid) : ℕ :=
  g.data1.toNat * 2 ^ 96 + g.data2.toNat * 2 ^ 80 + g.data3.toNat * 2 ^ 64 + beNat g.data4.val

/-- `guid_to_uuid`: the way back goes over the number of 128 bits. -/
def guidToUuid (g : Guid) : Uuid := .fromU128 g.toU128

/-- An id as its four fields. -/
theorem Uuid.split (u : Uuid) :
    u.val = u.val.take 4 ++ ((u.val.drop 4).take 2 ++ ((u.val.drop 6).take 2 ++ u.val.drop 8)) := by
  have htail : (u.val.drop 6).take 2 ++ u.val.drop 8 = u.val.drop 6 := by
    rw [show u.val.drop 8 = (u.val.drop 6).drop 2 by rw [List.drop_drop], List.take_append_drop]
  have hrest : (u.val.drop 4).take 2 ++ u.val.drop 6 = u.val.drop 4 := by
    rw [show u.val.drop 6 = (u.val.drop 4).drop 2 by rw [List.drop_drop], List.take_append_drop]
  rw [htail, hrest, List.take_append_drop]

/-- The number of an id, read off its fields, is the one its bytes make up. -/
theorem toU128_uuidToGuid (u : Uuid) : (uuidToGuid u).toU128 = beNat u.val := by
  have hlen := u.property
  have hlen₁ : (u.val.take 4).length = 4 := by simp [hlen]
  have hlen₂ : ((u.val.drop 4).take 2).length = 2 := by simp [hlen]
  have hlen₃ : ((u.val.drop 6).take 2).length = 2 := by simp [hlen]
  have hlen₄ : (u.val.drop 8).length = 8 := by simp [hlen]
  have h₁ := beNat_lt (u.val.take 4)
  have h₂ := beNat_lt ((u.val.drop 4).take 2)
  have h₃ := beNat_lt ((u.val.drop 6).take 2)
  rw [hlen₁] at h₁
  rw [hlen₂] at h₂
  rw [hlen₃] at h₃
  have hnat : beNat u.val = 256 ^ 12 * beNat (u.val.take 4) +
      (256 ^ 10 * beNat ((u.val.drop 4).take 2) +
        (256 ^ 8 * beNat ((u.val.drop 6).take 2) + beNat (u.val.drop 8))) := by
    conv_lhs => rw [u.split, beNat_append, beNat_append, beNat_append]
    simp only [List.length_append, hlen₂, hlen₃, hlen₄]
  rw [hnat, Guid.toU128]
  simp only [uuidToGuid]
  rw [UInt32.toNat_ofNat_of_lt' (show _ < 2 ^ 32 by omega),
    UInt16.toNat_ofNat_of_lt' (show _ < 2 ^ 16 by omega),
    UInt16.toNat_ofNat_of_lt' (show _ < 2 ^ 16 by omega)]
  omega

/-- **An id survives the way through a GUID.** -/
theorem guidToUuid_uuidToGuid (u : Uuid) : guidToUuid (uuidToGuid u) = u := by
  apply Subtype.ext
  rw [guidToUuid, toU128_uuidToGuid]
  exact beBytes_beNat_of_length u.property

/-- A GUID is determined by its number: the fields do not overlap in it. -/
theorem toU128_inj {g g' : Guid} : g.toU128 = g'.toU128 ↔ g = g' := by
  refine ⟨fun h => ?_, fun h => h ▸ rfl⟩
  have h₄ := beNat_lt g.data4.val
  have h₄' := beNat_lt g'.data4.val
  rw [g.data4.property] at h₄
  rw [g'.data4.property] at h₄'
  have h₂ := g.data2.toNat_lt
  have h₂' := g'.data2.toNat_lt
  have h₃ := g.data3.toNat_lt
  have h₃' := g'.data3.toNat_lt
  rw [Guid.toU128, Guid.toU128] at h
  have hfields : g.data1.toNat = g'.data1.toNat ∧ g.data2.toNat = g'.data2.toNat ∧
      g.data3.toNat = g'.data3.toNat ∧ beNat g.data4.val = beNat g'.data4.val := by
    omega
  obtain ⟨hdata₁, hdata₂, hdata₃, hdata₄⟩ := hfields
  have hbytes : g.data4 = g'.data4 := by
    apply Subtype.ext
    rw [← beBytes_beNat_of_length g.data4.property, hdata₄,
      beBytes_beNat_of_length g'.data4.property]
  cases g
  cases g'
  rw [Guid.mk.injEq]
  exact ⟨UInt32.toNat_inj.1 hdata₁, UInt16.toNat_inj.1 hdata₂, UInt16.toNat_inj.1 hdata₃, hbytes⟩

/-! ### Addresses -/

/-- `VsockTarget`: a context id, as on Linux, or a machine by its UUID. -/
inductive VsockTarget
  | cid (cid : UInt32)
  | guid (uuid : Uuid)
  deriving DecidableEq

/-- `HV_GUID_CHILDREN`: the machines this one is the host of, as one address. -/
def HV_GUID_CHILDREN : Guid := .fromU128 0x90db8b890d354f798ce949ea0ac8b7cd

/-- `HV_GUID_LOOPBACK`: this machine itself, as an address to connect to. -/
def HV_GUID_LOOPBACK : Guid := .fromU128 0xe0e16197dd564a1091955ee7a155a838

/-- `HV_GUID_PARENT`: the host of this machine, as an address to connect to. -/
def HV_GUID_PARENT : Guid := .fromU128 0xa42e7cdad03f480c9cc2a4de20abb878

/-- `HV_GUID_VSOCK_TEMPLATE`: the service of a port, with the port in place of the first field. -/
def HV_GUID_VSOCK_TEMPLATE : Guid := .fromU128 0x00000000facb11e6bd5864006a7986d3

/-- The family of such addresses, in their first two bytes. -/
def AF_HYPERV : ℕ := 34

/-- A GUID in memory, with the first three fields in the byte order of the processor. -/
def Guid.layout (g : Guid) : List UInt8 :=
  leBytes 4 g.data1.toNat ++ (leBytes 2 g.data2.toNat ++ (leBytes 2 g.data3.toNat ++ g.data4.val))

/-- `create_hv_sockaddr`, as the bytes of a `SOCKADDR_HV`: the family, two reserved bytes, the
machine and the service. -/
def createHvSockaddr (vmGuid serviceId : Guid) : List UInt8 :=
  leBytes 2 AF_HYPERV ++ (leBytes 2 0 ++ (vmGuid.layout ++ serviceId.layout))

/-- `ToServiceId::to_guid`: the template of a service with the port in its first field. -/
def toServiceId (port : UInt32) : Guid := { HV_GUID_VSOCK_TEMPLATE with data1 := port }

/-- The machine `VStream::connect` addresses: a few context ids stand for places, and all others for
the children. -/
def connectVm : VsockTarget → Guid
  | .cid cid =>
      if cid = 0xffffffff then HV_GUID_CHILDREN
      else if cid = 0 ∨ cid = 1 then HV_GUID_LOOPBACK
      else if cid = 2 then HV_GUID_PARENT
      else HV_GUID_CHILDREN
  | .guid u => uuidToGuid u

/-- The machine `HvListener::bind` addresses: every context id is bound for the children. -/
def bindVm : VsockTarget → Guid
  | .cid _ => HV_GUID_CHILDREN
  | .guid u => uuidToGuid u

/-- Which of the two addresses an end has: the source computes them differently for a context id. -/
inductive Role
  | bind
  | connect
  deriving DecidableEq

/-- An end of a virtual socket: what it is for, what it was given for a target, and the port. -/
structure End where
  role : Role
  target : VsockTarget
  port : UInt32

/-- The machine in the address of an end, to be bound or connected to. -/
def End.vm (e : End) : Guid :=
  match e.role with
  | .bind => bindVm e.target
  | .connect => connectVm e.target

/-- The bytes handed to `bind` and to `connect`. How the system brings two ends together is not
modelled. -/
def End.address (e : End) : List UInt8 := createHvSockaddr e.vm (toServiceId e.port)

/-- The places the system has a number for, besides the machines. -/
inductive Place
  | children
  | loopback
  | parent
  deriving DecidableEq

/-- The number of a place, as the system documents it. -/
def Place.number : Place → ℕ
  | children => 0x90db8b890d354f798ce949ea0ac8b7cd
  | loopback => 0xe0e16197dd564a1091955ee7a155a838
  | parent => 0xa42e7cdad03f480c9cc2a4de20abb878

/-- The place a context id stands for: when binding, the children; when connecting, this machine for
0 and 1, its parent for 2, and the children for every other one. -/
def Role.place (role : Role) (cid : UInt32) : Place :=
  if role = .bind then .children
  else if cid = 0 ∨ cid = 1 then .loopback
  else if cid = 2 then .parent
  else .children

/-- The machine or the place of an end, as one number: of a UUID, its own. With the port it
determines the address. -/
def End.machine (e : End) : ℕ :=
  match e.target with
  | .cid cid => (e.role.place cid).number
  | .guid u => beNat u.val

/-- A number that fits its field can be read off it. -/
theorem leBytes_inj {w m n : ℕ} (hm : m < 256 ^ w) (hn : n < 256 ^ w)
    (h : leBytes w m = leBytes w n) : m = n := by
  rw [← leNat_leBytes_of_lt hm, h, leNat_leBytes_of_lt hn]

/-- A GUID takes 16 bytes, so the fields of an address do not run into each other. -/
theorem length_layout (g : Guid) : g.layout.length = 16 := by
  simp [Guid.layout, g.data4.property]

/-- A GUID can be read off its layout, since each field has its own bytes. -/
theorem layout_injective : Function.Injective Guid.layout := by
  intro g g' h
  rw [Guid.layout, Guid.layout] at h
  obtain ⟨h₁, h⟩ := List.append_inj h (by simp)
  obtain ⟨h₂, h⟩ := List.append_inj h (by simp)
  obtain ⟨h₃, h₄⟩ := List.append_inj h (by simp)
  have hdata₁ := leBytes_inj g.data1.toNat_lt g'.data1.toNat_lt h₁
  have hdata₂ := leBytes_inj g.data2.toNat_lt g'.data2.toNat_lt h₂
  have hdata₃ := leBytes_inj g.data3.toNat_lt g'.data3.toNat_lt h₃
  cases g
  cases g'
  rw [Guid.mk.injEq]
  exact ⟨UInt32.toNat_inj.1 hdata₁, UInt16.toNat_inj.1 hdata₂, UInt16.toNat_inj.1 hdata₃,
    Subtype.ext h₄⟩

/-- An address determines the machine and the service, and nothing else is in it. -/
theorem createHvSockaddr_inj {vm vm' service service' : Guid} :
    createHvSockaddr vm service = createHvSockaddr vm' service' ↔
      vm = vm' ∧ service = service' := by
  constructor
  · intro h
    have hrest := List.append_cancel_left (List.append_cancel_left h)
    obtain ⟨hvm, hservice⟩ := List.append_inj hrest (by rw [length_layout, length_layout])
    exact ⟨layout_injective hvm, layout_injective hservice⟩
  · rintro ⟨rfl, rfl⟩
    rfl

/-- A service determines its port. -/
theorem toServiceId_inj {port port' : UInt32} :
    toServiceId port = toServiceId port' ↔ port = port' := by
  rw [toServiceId, toServiceId, Guid.mk.injEq]
  exact ⟨fun h => h.1, fun h => ⟨h, rfl, rfl, rfl⟩⟩

/-- The number of the machine in an address, by the cases of the source for context ids. -/
theorem End.toU128_vm (e : End) : e.vm.toU128 = e.machine := by
  have hchildren : HV_GUID_CHILDREN.toU128 = Place.children.number := by decide
  have hloopback : HV_GUID_LOOPBACK.toU128 = Place.loopback.number := by decide
  have hparent : HV_GUID_PARENT.toU128 = Place.parent.number := by decide
  obtain ⟨role, target, port⟩ := e
  cases target with
  | guid u =>
    cases role with
    | bind => exact toU128_uuidToGuid u
    | connect => exact toU128_uuidToGuid u
  | cid cid =>
    cases role with
    | bind => exact hchildren
    | connect =>
      simp only [End.vm, connectVm, End.machine, Role.place, reduceCtorEq, if_false]
      by_cases hmax : cid = 0xffffffff
      · subst hmax
        exact hchildren
      rw [if_neg hmax]
      split_ifs
      · exact hloopback
      · exact hparent
      · exact hchildren

/-- **Which ends have the same address.** Two ends, each to be bound or connected to, have the same
address exactly if they have the same port and the same machine: the context ids 0 and 1 are one
machine to connect to, 2 is another, all the rest are one more and the same as every context id to
bind; a UUID is a machine of its own, unless it is that of one of these places. -/
theorem hv_addresses_meet_iff (e e' : End) :
    e.address = e'.address ↔ e.port = e'.port ∧ e.machine = e'.machine := by
  rw [End.address, End.address, createHvSockaddr_inj, toServiceId_inj, ← toU128_inj,
    End.toU128_vm, End.toU128_vm, and_comm]

/-! ### The older lookup -/

open Wsl

section Lookup

variable (parse : String → Option Uuid)

/-- `best_vm`: machines of WSL come first, and then all of them in the order of the list. -/
def bestVm (vms : List ComputeSystem) : Option Uuid :=
  (vms.filter (·.owner = "WSL") ++ vms).findSome? (ComputeSystem.vmId parse)

/-- The kind of the `std::io::Error` a failed lookup is turned into: an ambiguous one has no kind of
its own. -/
def lookupErrorKind : WslLookupError → IoErrorKind
  | .ambiguous _ => .other
  | .io kind => kind

/-- `get_wsl_vmid_by_reg`: the lookup in the registry, with its error turned into one of
`std::io`. -/
def getWslVmidByReg (list : Except IoErrorKind (List (Except IoErrorKind RegistryKey))) :
    Except IoErrorKind (Option Uuid) :=
  (wslVmidByReg parse list).mapError lookupErrorKind

/-- A machine, as a GUID, or the error that there is none. -/
def orNotFound : Option Uuid → Except IoErrorKind Guid
  | some u => .ok (uuidToGuid u)
  | none => .error .notFound

/-- `get_best_vmid`: the compute service is asked, and the registry where that refuses. -/
def getBestVmid (query : Except IoErrorKind (List ComputeSystem))
    (list : Except IoErrorKind (List (Except IoErrorKind RegistryKey))) : Except IoErrorKind Guid :=
  match query with
  | .ok vms => orNotFound (bestVm parse vms)
  | .error .permissionDenied => getWslVmidByReg parse list >>= orNotFound
  | .error e => .error e

/-- What `vsock_to_best_vm` makes of the lookup: the machine goes over a GUID, and every error
becomes the same report. -/
def toBestEndpoint (port : UInt32) :
    Except IoErrorKind Guid → Except EndpointReport (VsockEndpoint Uuid)
  | .ok guid => .ok ⟨guidToUuid guid, port⟩
  | .error _ => .error ⟨.invalidVsockTarget, []⟩

/-- `Endpoint::vsock_to_best_vm`: the older lookup, which settles for any machine. -/
def vsockToBestVm (query : Except IoErrorKind (List ComputeSystem))
    (list : Except IoErrorKind (List (Except IoErrorKind RegistryKey))) (port : UInt32) :
    Except EndpointReport (VsockEndpoint Uuid) :=
  toBestEndpoint port (getBestVmid parse query list)

/-- WSL's machine is the best one, and without one it is the first that can be addressed. -/
theorem bestVm_eq (vms : List ComputeSystem) :
    bestVm parse vms = (wslVm parse vms).or (vms.findSome? (ComputeSystem.vmId parse)) := by
  rw [bestVm, List.findSome?_append, wslVm]

variable {parse} {query : Except IoErrorKind (List ComputeSystem)}
  {list : Except IoErrorKind (List (Except IoErrorKind RegistryKey))} {port : UInt32}
  {endpoint : VsockEndpoint Uuid}

/-- An endpoint comes of a machine that was found, and of nothing else. -/
theorem toEndpoint_eq_ok_iff {found : Except WslLookupError (Option Uuid)} :
    toEndpoint port found = .ok endpoint ↔
      found = .ok (some endpoint.guid) ∧ endpoint.port = port := by
  obtain ⟨guid, port'⟩ := endpoint
  rcases found with (count | kind) | (_ | vm)
  · simp [toEndpoint]
  · simp [toEndpoint]
  · simp [toEndpoint]
  · simp [toEndpoint, eq_comm]

/-- The machine in the endpoint is the one that was found: its id survives the GUID. -/
theorem toBestEndpoint_eq_ok_iff {found : Except IoErrorKind (Option Uuid)} :
    toBestEndpoint port (found >>= orNotFound) = .ok endpoint ↔
      found = .ok (some endpoint.guid) ∧ endpoint.port = port := by
  obtain ⟨guid, port'⟩ := endpoint
  rcases found with kind | (_ | vm)
  · constructor
    · rintro ⟨⟩
    · rintro ⟨⟨⟩, -⟩
  · constructor
    · rintro ⟨⟩
    · rintro ⟨⟨⟩, -⟩
  · change Except.ok (⟨guidToUuid (uuidToGuid vm), port⟩ : VsockEndpoint Uuid) = _ ↔ _
    rw [guidToUuid_uuidToGuid]
    simp [eq_comm]

/-- Turning one error into another does not change what was found. -/
theorem mapError_eq_ok_iff {found : Except WslLookupError (Option Uuid)} {vm : Option Uuid} :
    found.mapError lookupErrorKind = .ok vm ↔ found = .ok vm := by
  cases found with
  | error e => simp [Except.mapError]
  | ok v => simp [Except.mapError]

/-- **The older lookup agrees with the newer one wherever that finds a machine**, and finds another
one exactly if the compute service answers and lists no machine of WSL's that can be addressed: then
it is the first machine in the list that can be. -/
theorem best_vm_extends_wsl (parse : String → Option Uuid)
    (query : Except IoErrorKind (List ComputeSystem))
    (list : Except IoErrorKind (List (Except IoErrorKind RegistryKey))) (port : UInt32)
    (endpoint : VsockEndpoint Uuid) :
    vsockToBestVm parse query list port = .ok endpoint ↔
      vsockToWsl parse query list port = .ok endpoint ∨
        ∃ vms, query = .ok vms ∧ wslVm parse vms = none ∧
          vms.findSome? (ComputeSystem.vmId parse) = some endpoint.guid ∧
          endpoint.port = port := by
  rw [vsockToWsl, toEndpoint_eq_ok_iff, vsockToBestVm]
  rcases query with (_ | _ | _) | vms
  · -- a query that fails for another reason fails both lookups
    simp [getBestVmid, toBestEndpoint, wslVmid, getWslVmidByHcs, Except.map]
  · -- refused, both ask the registry
    change toBestEndpoint port (getWslVmidByReg parse list >>= orNotFound) = _ ↔
      wslVmidByReg parse list = _ ∧ _ ∨ _
    rw [toBestEndpoint_eq_ok_iff, getWslVmidByReg, mapError_eq_ok_iff]
    simp
  · simp [getBestVmid, toBestEndpoint, wslVmid, getWslVmidByHcs, Except.map]
  · change toBestEndpoint port (Except.ok (bestVm parse vms) >>= orNotFound) = _ ↔
      Except.ok (wslVm parse vms) = _ ∧ _ ∨ _
    rw [toBestEndpoint_eq_ok_iff, bestVm_eq]
    cases hwsl : wslVm parse vms with
    | none => simp [hwsl]
    | some vm => simp [hwsl]

end Lookup

end Vsock

end Ogurpchik
