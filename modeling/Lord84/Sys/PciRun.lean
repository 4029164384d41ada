import Lord84.Sys.Pci
import Mathlib.Data.List.ProdSigma
import Mathlib.Data.List.Nodup

/-!
# What the PCI enumeration finds

`enumerate_conf_space` visits the buses below the end bus of the last MCFG entry, all 32
devices of each, and registers what answers.  This module computes the registry that it
leaves, and compares it with the devices that the MCFG table describes.
-/

namespace Lord84

open Theory

section Enumeration

variable (hhdmoffset kernelPageMap : Word) (configSpace : ConfigSpace)

/-- The bus and device numbers that the loops visit, in their order. -/
def positions (buses : Nat) : List (Nat × Nat) :=
  List.range buses ×ˢ List.range 32

/-- An 8-bit number of buses has at most as many positions as the registry has slots. -/
theorem length_positions_le (buses : BitVec 8) :
    (positions buses.toNat).length ≤ pciDeviceBus := by
  have bound := buses.isLt
  rw [positions, List.length_product, List.length_range, List.length_range, pciDeviceBus]
  omega

/-- The headers mapped at one position. -/
def headersAt (base : Word) (position : Nat × Nat) : List Word :=
  deviceHeaders hhdmoffset configSpace base (BitVec.ofNat 64 position.1)
    (BitVec.ofNat 64 position.2)

/-- The structure registered for one position. -/
def foundAt (base : Word) (position : Nat × Nat) : Option PciStructure :=
  let ret := deviceReport hhdmoffset configSpace base (BitVec.ofNat 64 position.1)
    (BitVec.ofNat 64 position.2)
  if ret.funcAddr 0 ≠ 0 then
    some
      { segment := 1
        bus := BitVec.ofNat 8 position.1
        device := BitVec.ofNat 8 position.2
        funcAddr := ret.funcAddr }
  else
    none

variable {hhdmoffset kernelPageMap configSpace}

theorem funcAddr_of_foundAt {base : Word} {position : Nat × Nat} {device : PciStructure}
    (found : foundAt hhdmoffset configSpace base position = some device) :
    device.funcAddr 0 ≠ 0 := by
  simp only [foundAt] at found
  split at found
  next used =>
    cases found
    exact used
  next => cases found

/-- One iteration maps the headers of its device and registers what it finds. -/
theorem enumerateDevice_filled {devices : List PciStructure}
    (room : devices.length < pciDeviceBus) (used : ∀ device ∈ devices, device.funcAddr 0 ≠ 0)
    (s : PciState) (mm : MmState) (position : Nat × Nat) :
    enumerateDevice hhdmoffset kernelPageMap configSpace position.1 position.2
        (s.filled devices mm) =
      (mapHeaders hhdmoffset kernelPageMap
        (headersAt hhdmoffset configSpace s.configSpaceBaseAddr position) mm >>= fun next =>
          .done (s.filled
            (devices ++
              (foundAt hhdmoffset configSpace s.configSpaceBaseAddr position).toList) next)) := by
  have base : (s.filled devices mm).configSpaceBaseAddr = s.configSpaceBaseAddr := rfl
  simp only [enumerateDevice, checkDevice_eq, bind_assoc, Outcome.done_bind, foundAt, headersAt,
    base]
  congr 1
  funext next
  split
  next answers => exact pciAddDevice_filled room used s
  next silent =>
    rw [Option.toList_none, List.append_nil]
    rfl

/-- The enumeration of a list of positions. -/
theorem enumeratePositions_filled (visited : List (Nat × Nat)) {devices : List PciStructure}
    (room : devices.length + visited.length ≤ pciDeviceBus)
    (used : ∀ device ∈ devices, device.funcAddr 0 ≠ 0) (s : PciState) (mm : MmState) :
    forEach visited (fun position =>
        enumerateDevice hhdmoffset kernelPageMap configSpace position.1 position.2)
        (s.filled devices mm) =
      (mapHeaders hhdmoffset kernelPageMap
        (visited.flatMap (headersAt hhdmoffset configSpace s.configSpaceBaseAddr)) mm >>=
          fun final => .done (s.filled
            (devices ++
              visited.filterMap
                (foundAt hhdmoffset configSpace s.configSpaceBaseAddr)) final)) := by
  induction visited generalizing devices mm with
  | nil => simp [mapHeaders]
  | cons position visited ih =>
      rw [List.length_cons] at room
      rw [forEach_cons, enumerateDevice_filled (by omega) used, List.flatMap_cons,
        mapHeaders_append, bind_assoc, bind_assoc]
      congr 1
      funext next
      rw [Outcome.done_bind]
      cases found : foundAt hhdmoffset configSpace s.configSpaceBaseAddr position with
      | none =>
          rw [List.filterMap_cons_none found, Option.toList_none, List.append_nil,
            ih (by omega) used]
      | some device =>
          have nowUsed : ∀ other ∈ devices ++ [device], other.funcAddr 0 ≠ 0 := by
            intro other member
            rcases List.mem_append.mp member with old | new
            · exact used other old
            · rw [List.mem_singleton.mp new]
              exact funcAddr_of_foundAt found
          rw [List.filterMap_cons_some found, Option.toList_some,
            ih (by rw [List.length_append, List.length_singleton]; omega) nowUsed,
            List.append_assoc, List.singleton_append]

/-- The devices that the enumeration finds below `base`. -/
def foundDevices (hhdmoffset : Word) (configSpace : ConfigSpace) (base : Word) (buses : Nat) :
    List PciStructure :=
  (positions buses).filterMap (foundAt hhdmoffset configSpace base)

theorem length_foundDevices_le (base : Word) (buses : BitVec 8) :
    (foundDevices hhdmoffset configSpace base buses.toNat).length ≤ pciDeviceBus :=
  Nat.le_trans (List.length_filterMap_le _ _) (length_positions_le buses)

/-- The two loops of `enumerate_conf_space` are one loop over the positions. -/
theorem enumerateConfSpace_eq_forEach (s : PciState) :
    enumerateConfSpace hhdmoffset kernelPageMap configSpace s =
      forEach (positions s.endPciNum.toNat) (fun position =>
        enumerateDevice hhdmoffset kernelPageMap configSpace position.1 position.2) s := by
  simp only [enumerateConfSpace, forRange_eq_forEach, positions, SProd.sprod, List.product,
    forEach_flatMap, ← List.range_eq_range', Nat.sub_zero]
  rfl

/-- On a zeroed array, `enumerate_conf_space` returns exactly when its mappings do, and then
the array holds the devices found, in the order of the loops. -/
theorem enumerateConfSpace_eq {s : PciState}
    (zeroed : ∀ i < pciDeviceBus, s.pciArray i = .zero) (unlocked : s.pciArrayLock = false) :
    enumerateConfSpace hhdmoffset kernelPageMap configSpace s =
      (mapHeaders hhdmoffset kernelPageMap
        ((positions s.endPciNum.toNat).flatMap
          (headersAt hhdmoffset configSpace s.configSpaceBaseAddr)) s.mm >>= fun mm =>
        .done (s.filled
          (foundDevices hhdmoffset configSpace s.configSpaceBaseAddr s.endPciNum.toNat) mm)) := by
  have length := length_positions_le s.endPciNum
  have loop := @enumeratePositions_filled hhdmoffset kernelPageMap configSpace
    (positions s.endPciNum.toNat) [] (by rw [List.length_nil]; omega)
    (fun _ member => absurd member List.not_mem_nil) s s.mm
  rw [PciState.filled_nil zeroed unlocked, List.nil_append] at loop
  rw [enumerateConfSpace_eq_forEach, loop]
  rfl

/-- `discover` returns exactly when its mappings do, and then the registry holds what the
space of the last entry shows below its end bus. -/
theorem discover_eq (mcfg : Mcfg) (mm : MmState) :
    discover hhdmoffset kernelPageMap configSpace mcfg mm =
      let s := (PciState.zeroed mm).useLast hhdmoffset mcfg.confSpaces
      mapHeaders hhdmoffset kernelPageMap
        ((positions s.endPciNum.toNat).flatMap
          (headersAt hhdmoffset configSpace s.configSpaceBaseAddr)) mm >>= fun next =>
        .done (s.holding
          (foundDevices hhdmoffset configSpace s.configSpaceBaseAddr s.endPciNum.toNat) next) := by
  let s := (PciState.zeroed mm).useLast hhdmoffset mcfg.confSpaces
  obtain ⟨array, lock, memory⟩ :
      s.pciArray = (fun _ => .zero) ∧ s.pciArrayLock = false ∧ s.mm = mm := by
    simp only [s, PciState.useLast]
    split <;> exact ⟨rfl, rfl, rfl⟩
  have behind : ∀ next, s.filled
      (foundDevices hhdmoffset configSpace s.configSpaceBaseAddr s.endPciNum.toNat) next =
      s.holding
        (foundDevices hhdmoffset configSpace s.configSpaceBaseAddr s.endPciNum.toNat) next :=
    fun next => PciState.filled_eq_holding array (length_foundDevices_le _ _) next
  rw [discover, parseConfSpace_eq, Outcome.done_bind,
    enumerateConfSpace_eq (fun i _ => congrFun array i) lock, memory]
  exact congrArg _ (funext fun next => congrArg Outcome.done (behind next))

/-! ## The registered devices -/

/-- What identifies a device. -/
def PciStructure.key (device : PciStructure) : BitVec 16 × BitVec 8 × BitVec 8 :=
  (device.segment, device.bus, device.device)

/-- The slot belongs to the array and holds a device. -/
def InUse (pciArray : Nat → PciStructure) (i : Nat) : Prop :=
  i < pciDeviceBus ∧ (pciArray i).funcAddr 0 ≠ 0

/-- A device answers at this bus and device number of the space at `base`, and the address
of its header is not zero. -/
def Answers (hhdmoffset : Word) (configSpace : ConfigSpace) (base : Word)
    (bus device : BitVec 8) : Prop :=
  let header := getHeader base (bus.setWidth 64) (device.setWidth 64) 0
  (headerAt hhdmoffset configSpace header).unimplemented = false ∧ header ≠ 0

theorem inUse_placed {devices : List PciStructure} (room : devices.length ≤ pciDeviceBus)
    (used : ∀ device ∈ devices, device.funcAddr 0 ≠ 0) (i : Nat) :
    InUse (placed devices) i ↔ i < devices.length := by
  constructor
  · rintro ⟨-, taken⟩
    by_contra outside
    rw [placed, List.getD_eq_default _ _ (by omega)] at taken
    exact taken rfl
  · intro inside
    refine ⟨by omega, ?_⟩
    rw [placed, List.getD_eq_getElem _ _ inside]
    exact used _ (List.getElem_mem inside)

/-- `check_device` reports an address for function 0 exactly when the device answers. -/
theorem funcAddr_ne_zero_iff (base : Word) (bus device : BitVec 8) :
    (deviceReport hhdmoffset configSpace base (bus.setWidth 64) (device.setWidth 64)).funcAddr 0
        ≠ 0 ↔
      Answers hhdmoffset configSpace base bus device := by
  simp only [deviceReport, Answers]
  split
  next absent =>
    simp only [absent, PciFunctionReturn.zero, ne_eq, not_true_eq_false, Bool.true_eq_false,
      false_and]
  next present =>
    rw [Bool.not_eq_true] at present
    simp only [present, true_and, Function.update_self]

theorem foundAt_eq_some_iff {base : Word} {bus device : BitVec 8} {found : PciStructure} :
    foundAt hhdmoffset configSpace base (bus.toNat, device.toNat) = some found ↔
      Answers hhdmoffset configSpace base bus device ∧
        { segment := 1
          bus
          device
          funcAddr := (deviceReport hhdmoffset configSpace base (bus.setWidth 64)
            (device.setWidth 64)).funcAddr } = found := by
  simp only [foundAt, BitVec.ofNat_toNat, BitVec.setWidth_eq, ← funcAddr_ne_zero_iff]
  split
  next answers => rw [Option.some.injEq, and_iff_right answers]
  next silent => simp only [silent, false_and, reduceCtorEq]

/-- The positions of the enumeration, as numbers of the source's types. -/
theorem mem_positions {buses : BitVec 8} {position : Nat × Nat} :
    position ∈ positions buses.toNat ↔
      ∃ bus device : BitVec 8, bus < buses ∧ device < 32 ∧
        (bus.toNat, device.toNat) = position := by
  obtain ⟨i, j⟩ := position
  rw [positions, List.mem_product, List.mem_range, List.mem_range]
  constructor
  · rintro ⟨busBound, deviceBound⟩
    have limit := buses.isLt
    refine ⟨BitVec.ofNat 8 i, BitVec.ofNat 8 j, ?_, ?_, ?_⟩
    · rw [BitVec.lt_def, BitVec.toNat_ofNat, Nat.mod_eq_of_lt (by omega)]
      exact busBound
    · rw [BitVec.lt_def, BitVec.toNat_ofNat, Nat.mod_eq_of_lt (by omega)]
      exact deviceBound
    · rw [BitVec.toNat_ofNat, BitVec.toNat_ofNat, Nat.mod_eq_of_lt (by omega),
        Nat.mod_eq_of_lt (by omega)]
  · rintro ⟨bus, device, busBound, deviceBound, same⟩
    cases same
    exact ⟨busBound, deviceBound⟩

/-- Every registered device is in segment 1, was visited, and answers. -/
theorem of_mem_foundDevices {base : Word} {buses : BitVec 8} {found : PciStructure}
    (member : found ∈ foundDevices hhdmoffset configSpace base buses.toNat) :
    found.segment = 1 ∧ found.bus < buses ∧ found.device < 32 ∧
      Answers hhdmoffset configSpace base found.bus found.device := by
  obtain ⟨position, visited, isFound⟩ := List.mem_filterMap.mp member
  obtain ⟨bus, device, busBound, deviceBound, rfl⟩ := mem_positions.mp visited
  obtain ⟨answers, rfl⟩ := foundAt_eq_some_iff.mp isFound
  exact ⟨rfl, busBound, deviceBound, answers⟩

/-- Every visited device that answers is registered in segment 1. -/
theorem exists_mem_foundDevices {base : Word} {buses bus device : BitVec 8}
    (busBound : bus < buses) (deviceBound : device < 32)
    (answers : Answers hhdmoffset configSpace base bus device) :
    ∃ found ∈ foundDevices hhdmoffset configSpace base buses.toNat,
      found.key = (1, bus, device) := by
  refine ⟨_, List.mem_filterMap.mpr ⟨(bus.toNat, device.toNat), ?_,
    foundAt_eq_some_iff.mpr ⟨answers, rfl⟩⟩, rfl⟩
  exact mem_positions.mpr ⟨bus, device, busBound, deviceBound, rfl⟩

theorem used_of_mem_foundDevices {base : Word} {buses : Nat} :
    ∀ device ∈ foundDevices hhdmoffset configSpace base buses, device.funcAddr 0 ≠ 0 := by
  intro device member
  obtain ⟨position, -, found⟩ := List.mem_filterMap.mp member
  exact funcAddr_of_foundAt found

/-- No two registered devices have the same key. -/
theorem pairwise_key_foundDevices (base : Word) (buses : BitVec 8) :
    (foundDevices hhdmoffset configSpace base buses.toNat).Pairwise
      fun left right => left.key ≠ right.key := by
  rw [foundDevices, List.pairwise_filterMap]
  have nodup : (positions buses.toNat).Nodup := List.nodup_range.product List.nodup_range
  refine nodup.imp_of_mem ?_
  intro leftPosition rightPosition leftMember rightMember distinct left leftFound right
    rightFound same
  obtain ⟨leftBus, leftDevice, -, -, rfl⟩ := mem_positions.mp leftMember
  obtain ⟨rightBus, rightDevice, -, -, rfl⟩ := mem_positions.mp rightMember
  obtain ⟨-, rfl⟩ := foundAt_eq_some_iff.mp leftFound
  obtain ⟨-, rfl⟩ := foundAt_eq_some_iff.mp rightFound
  simp only [PciStructure.key, Prod.mk.injEq, true_and] at same
  rw [same.1, same.2] at distinct
  exact distinct rfl

/-- Slots and devices: a property holds in every used slot if and only if it holds of
every device. -/
theorem forall_inUse_placed {devices : List PciStructure} (room : devices.length ≤ pciDeviceBus)
    (used : ∀ device ∈ devices, device.funcAddr 0 ≠ 0) {property : PciStructure → Prop} :
    (∀ i, InUse (placed devices) i → property (placed devices i)) ↔
      ∀ device ∈ devices, property device := by
  simp only [inUse_placed room used]
  rw [List.forall_mem_iff_getElem]
  refine forall_congr' fun i => forall_congr' fun inside => ?_
  rw [placed, List.getD_eq_getElem _ _ inside]

/-- A key that is registered is registered in exactly one slot. -/
theorem existsUnique_inUse_iff {devices : List PciStructure}
    (room : devices.length ≤ pciDeviceBus) (used : ∀ device ∈ devices, device.funcAddr 0 ≠ 0)
    (distinct : devices.Pairwise fun left right => left.key ≠ right.key)
    {key : BitVec 16 × BitVec 8 × BitVec 8} :
    (∃! i, InUse (placed devices) i ∧ (placed devices i).key = key) ↔
      ∃ device ∈ devices, device.key = key := by
  simp only [inUse_placed room used]
  constructor
  · rintro ⟨i, ⟨inside, here⟩, -⟩
    rw [placed, List.getD_eq_getElem _ _ inside] at here
    exact ⟨_, List.getElem_mem inside, here⟩
  · rintro ⟨device, member, here⟩
    obtain ⟨i, inside, rfl⟩ := List.getElem_of_mem member
    refine ⟨i, ⟨inside, ?_⟩, ?_⟩
    · rw [placed, List.getD_eq_getElem _ _ inside, here]
    · rintro other ⟨otherInside, otherHere⟩
      rw [placed, List.getD_eq_getElem _ _ otherInside, ← here] at otherHere
      have apart := List.pairwise_iff_getElem.mp distinct
      rcases Nat.lt_trichotomy other i with before | same | after
      · exact absurd otherHere (apart _ _ otherInside inside before)
      · exact same
      · exact absurd otherHere.symm (apart _ _ inside otherInside after)

end Enumeration

/-! ## The devices of the MCFG table -/

/-- The entry describes a device: its bus is in the entry's range, ends included, and its
function 0 answers in the entry's region of physical memory. -/
structure ConfSpace.Describes (entry : ConfSpace) (configSpace : ConfigSpace)
    (bus device : BitVec 8) : Prop where
  startBus : entry.startPciNum ≤ bus
  endBus : bus ≤ entry.endPciNum
  deviceNumber : device < 32
  vendor : (configSpace (getHeader entry.baseEcm (bus.setWidth 64) (device.setWidth 64) 0)).vendorId
    ≠ 0xffff

/-- The registry holds exactly the devices of the table, each in one slot. -/
structure DiscoveryComplete (configSpace : ConfigSpace) (mcfg : Mcfg)
    (pciArray : Nat → PciStructure) : Prop where
  found : ∀ entry ∈ mcfg.confSpaces, ∀ bus device, entry.Describes configSpace bus device →
    ∃! i, InUse pciArray i ∧ (pciArray i).key = (entry.pciSegGroup, bus, device)
  nothingElse : ∀ i, InUse pciArray i → ∃ entry ∈ mcfg.confSpaces,
    (pciArray i).segment = entry.pciSegGroup ∧
      entry.Describes configSpace (pciArray i).bus (pciArray i).device

/-- The enumeration sees a device: it is on a bus below the end bus of the last entry,
function 0 answers in the region of the last entry, and the header's address in the direct
map is not zero. -/
structure Mcfg.Sees (mcfg : Mcfg) (hhdmoffset : Word) (configSpace : ConfigSpace)
    (bus device : BitVec 8) (last : ConfSpace) : Prop where
  isLast : mcfg.confSpaces.getLast? = some last
  busNumber : bus < last.endPciNum
  deviceNumber : device < 32
  vendor : (configSpace (getHeader last.baseEcm (bus.setWidth 64) (device.setWidth 64) 0)).vendorId
    ≠ 0xffff
  address : getHeader (last.baseEcm + hhdmoffset) (bus.setWidth 64) (device.setWidth 64) 0 ≠ 0

/-- All described devices are in segment 1 and seen, and all devices seen are described in
segment 1. -/
structure Mcfg.SeesAll (mcfg : Mcfg) (hhdmoffset : Word) (configSpace : ConfigSpace) : Prop where
  seen : ∀ entry ∈ mcfg.confSpaces, ∀ bus device, entry.Describes configSpace bus device →
    entry.pciSegGroup = 1 ∧ ∃ last, mcfg.Sees hhdmoffset configSpace bus device last
  described : ∀ bus device last, mcfg.Sees hhdmoffset configSpace bus device last →
    ∃ entry ∈ mcfg.confSpaces, entry.pciSegGroup = 1 ∧ entry.Describes configSpace bus device

section Complete

variable {hhdmoffset kernelPageMap : Word} {configSpace : ConfigSpace}

/-- The header of function 0 through the direct map, for the space of an entry. -/
theorem answers_iff {base : Word} {bus device : BitVec 8} :
    Answers hhdmoffset configSpace (base + hhdmoffset) bus device ↔
      (configSpace (getHeader base (bus.setWidth 64) (device.setWidth 64) 0)).vendorId ≠ 0xffff ∧
        getHeader (base + hhdmoffset) (bus.setWidth 64) (device.setWidth 64) 0 ≠ 0 := by
  have direct :
      getHeader (base + hhdmoffset) (bus.setWidth 64) (device.setWidth 64) 0 - hhdmoffset =
        getHeader base (bus.setWidth 64) (device.setWidth 64) 0 := by
    rw [getHeader, add_right_comm, add_sub_cancel_right, getHeader]
  simp only [Answers, headerAt, direct, PciHeader.unimplemented, beq_eq_false_iff_ne]

/-- What the enumeration visits after `parse_conf_space`. -/
theorem exists_sees_iff {mcfg : Mcfg} {mm : MmState} {bus device : BitVec 8} :
    let s := (PciState.zeroed mm).useLast hhdmoffset mcfg.confSpaces
    (bus < s.endPciNum ∧ device < 32 ∧
        Answers hhdmoffset configSpace s.configSpaceBaseAddr bus device) ↔
      ∃ last, mcfg.Sees hhdmoffset configSpace bus device last := by
  intro s
  constructor
  · rintro ⟨busNumber, deviceNumber, answers⟩
    cases isLast : mcfg.confSpaces.getLast? with
    | none =>
        have unset : s.endPciNum = 0 := by
          simp only [s, PciState.useLast, isLast, PciState.zeroed]
        rw [unset] at busNumber
        exact absurd busNumber BitVec.not_lt_zero
    | some last =>
        have set : s = (PciState.zeroed mm).useConfSpace hhdmoffset last := by
          simp only [s, PciState.useLast, isLast]
        rw [set] at busNumber answers
        obtain ⟨vendor, address⟩ := answers_iff.mp answers
        exact ⟨last, isLast, busNumber, deviceNumber, vendor, address⟩
  · rintro ⟨last, isLast, busNumber, deviceNumber, vendor, address⟩
    have set : s = (PciState.zeroed mm).useConfSpace hhdmoffset last := by
      simp only [s, PciState.useLast, isLast]
    rw [set]
    exact ⟨busNumber, deviceNumber, answers_iff.mpr ⟨vendor, address⟩⟩

/-- The registry is complete exactly when the devices found below `base` are those of the
table. -/
theorem discoveryComplete_placed_iff {mcfg : Mcfg} {base : Word} {buses : BitVec 8} :
    DiscoveryComplete configSpace mcfg
        (placed (foundDevices hhdmoffset configSpace base buses.toNat)) ↔
      (∀ entry ∈ mcfg.confSpaces, ∀ bus device, entry.Describes configSpace bus device →
        entry.pciSegGroup = 1 ∧ bus < buses ∧ device < 32 ∧
          Answers hhdmoffset configSpace base bus device) ∧
      ∀ bus device, bus < buses → device < 32 → Answers hhdmoffset configSpace base bus device →
        ∃ entry ∈ mcfg.confSpaces, entry.pciSegGroup = 1 ∧
          entry.Describes configSpace bus device := by
  have room := @length_foundDevices_le hhdmoffset configSpace base buses
  have used := @used_of_mem_foundDevices hhdmoffset configSpace base buses.toNat
  have distinct := @pairwise_key_foundDevices hhdmoffset configSpace base buses
  have slots := @forall_inUse_placed _ room used fun registered => ∃ entry ∈ mcfg.confSpaces,
    registered.segment = entry.pciSegGroup ∧
      entry.Describes configSpace registered.bus registered.device
  constructor
  · rintro ⟨found, nothingElse⟩
    constructor
    · intro entry member bus device describes
      obtain ⟨registered, isFound, key⟩ := (existsUnique_inUse_iff room used distinct).mp
        (found entry member bus device describes)
      obtain ⟨segment, busNumber, deviceNumber, answers⟩ := of_mem_foundDevices isFound
      simp only [PciStructure.key, Prod.mk.injEq] at key
      obtain ⟨sameSegment, rfl, rfl⟩ := key
      exact ⟨sameSegment.symm.trans segment, busNumber, deviceNumber, answers⟩
    · intro bus device busNumber deviceNumber answers
      obtain ⟨registered, isFound, key⟩ :=
        exists_mem_foundDevices busNumber deviceNumber answers
      obtain ⟨entry, member, segment, describes⟩ := slots.mp nothingElse registered isFound
      simp only [PciStructure.key, Prod.mk.injEq] at key
      obtain ⟨isOne, rfl, rfl⟩ := key
      exact ⟨entry, member, segment ▸ isOne, describes⟩
  · rintro ⟨seen, described⟩
    constructor
    · intro entry member bus device describes
      obtain ⟨segment, busNumber, deviceNumber, answers⟩ := seen entry member bus device describes
      rw [segment]
      exact (existsUnique_inUse_iff room used distinct).mpr
        (exists_mem_foundDevices busNumber deviceNumber answers)
    · apply slots.mpr
      intro registered isFound
      obtain ⟨segment, busNumber, deviceNumber, answers⟩ := of_mem_foundDevices isFound
      obtain ⟨entry, member, isOne, describes⟩ :=
        described _ _ busNumber deviceNumber answers
      exact ⟨entry, member, segment.trans isOne.symm, describes⟩

end Complete

/-- PCI discovery finds the devices of the MCFG table exactly when the table's last entry
shows all of them below its end bus, in segment 1, and shows nothing else there. -/
theorem discovery_complete_iff {hhdmoffset kernelPageMap : Word} {configSpace : ConfigSpace}
    {mcfg : Mcfg} {mm : MmState} {final : PciState}
    (finished : discover hhdmoffset kernelPageMap configSpace mcfg mm = .done final) :
    DiscoveryComplete configSpace mcfg final.pciArray ↔ mcfg.SeesAll hhdmoffset configSpace := by
  rw [discover_eq] at finished
  obtain ⟨next, -, returned⟩ := Outcome.bind_eq_done.mp finished
  cases returned
  refine discoveryComplete_placed_iff.trans ?_
  constructor
  · rintro ⟨seen, described⟩
    constructor
    · intro entry member bus device describes
      obtain ⟨segment, visited⟩ := seen entry member bus device describes
      exact ⟨segment, exists_sees_iff.mp visited⟩
    · intro bus device last sees
      obtain ⟨busNumber, deviceNumber, answers⟩ := exists_sees_iff.mpr ⟨last, sees⟩
      exact described bus device busNumber deviceNumber answers
  · rintro ⟨seen, described⟩
    constructor
    · intro entry member bus device describes
      obtain ⟨segment, sees⟩ := seen entry member bus device describes
      exact ⟨segment, exists_sees_iff.mpr sees⟩
    · intro bus device busNumber deviceNumber answers
      obtain ⟨last, sees⟩ := exists_sees_iff.mp ⟨busNumber, deviceNumber, answers⟩
      exact described bus device last sees

/-- An MCFG table with one entry, for a region at `0xb0000000`. -/
def singleMcfg (segment : BitVec 16) (endBus : BitVec 8) : Mcfg where
  length := 60
  confSpaces := [⟨0xb0000000, segment, 0, endBus⟩]
  length_eq := rfl

/-- A configuration space in which only device 0 of bus 0 answers. -/
def hostBridge : ConfigSpace := fun address =>
  if address = 0xb0000000 then ⟨0x8086, 0, 6, 0⟩ else ⟨0xffff, 0xff, 0xff, 0xff⟩

theorem hostBridge_answers {bus device : BitVec 8} (deviceNumber : device < 32) :
    (hostBridge (getHeader 0xb0000000 (bus.setWidth 64) (device.setWidth 64) 0)).vendorId ≠ 0xffff ↔
      bus = 0 ∧ device = 0 := by
  have here : getHeader 0xb0000000 (bus.setWidth 64) (device.setWidth 64) 0 = 0xb0000000 ↔
      bus = 0 ∧ device = 0 := by
    rw [getHeader, pcieConfSpaceWidth, add_eq_left]
    bv_omega
  rw [hostBridge]
  split
  next same => simp [here.mp same]
  next other => simpa using mt here.mpr other

/-- All headers of the first bus share one page table. -/
theorem hostBridge_headers :
    ∀ header ∈ (positions 1).flatMap (headersAt 0xffff800000000000 hostBridge 0xffff8000b0000000),
      tablePath header = tablePath 0xffff8000b0000000 := by
  have all : ((positions 1).flatMap
      (headersAt 0xffff800000000000 hostBridge 0xffff8000b0000000)).all
        (fun header => tablePath header = tablePath 0xffff8000b0000000) = true := by
    decide +kernel
  simpa only [List.all_eq_true, decide_eq_true_eq] using all

/-- A zeroed root page at `0x1000` and three free frames. -/
def threeFrames : MmState :=
  [0x2000, 0x3000, 0x4000].foldl (pushPage 0xffff800000000000) (.boot fun _ => 0)

/-- Three free frames are enough to map headers that share a page table with the first
one. -/
theorem firstHeaders_mapped {headers : List Word}
    (shared : ∀ header ∈ headers, tablePath header = tablePath 0xffff8000b0000000) :
    ∃ mapped, mapHeaders 0xffff800000000000 (0x1000 + 0xffff800000000000) headers threeFrames =
      .done mapped := by
  obtain ⟨start, pages, noNull⟩ : VmmStart 0xffff800000000000 0x1000 threeFrames ∧
      freePages 0xffff800000000000 threeFrames = [0x4000, 0x3000, 0x2000] ∧
      NoNull 0xffff800000000000 0x1000 threeFrames := threeFrames_start
  have room : 3 * [tablePath 0xffff8000b0000000].length ≤
      threeFrames.pmmFreePageCount.toNat := by
    rw [← @length_freePages 0xffff800000000000, pages]
    decide
  exact mapHeaders_returns _ start.implements.wf noNull rfl
    (fun header listed => List.mem_singleton.mpr (shared header listed)) room

/-- Three frames are enough to map all headers of the first bus. -/
theorem hostBridge_mapped :
    ∃ mapped, mapHeaders 0xffff800000000000 (0x1000 + 0xffff800000000000)
      ((positions 1).flatMap (headersAt 0xffff800000000000 hostBridge 0xffff8000b0000000))
      threeFrames = .done mapped :=
  firstHeaders_mapped hostBridge_headers

/-- In segment 1, with nothing on its last bus, the table is discovered completely. -/
theorem discovery_complete_segment_one :
    let mm := [0x2000, 0x3000, 0x4000].foldl (pushPage 0xffff800000000000) (.boot fun _ => 0)
    ∃ final, discover 0xffff800000000000 (0x1000 + 0xffff800000000000) hostBridge
        (singleMcfg 1 1) mm = .done final ∧
      DiscoveryComplete hostBridge (singleMcfg 1 1) final.pciArray := by
  intro mm
  obtain ⟨mapped, returned⟩ := hostBridge_mapped
  have finished : ∃ final, discover 0xffff800000000000 (0x1000 + 0xffff800000000000) hostBridge
      (singleMcfg 1 1) mm = .done final := by
    rw [discover_eq]
    exact ⟨_, Outcome.bind_eq_done.mpr ⟨mapped, returned, rfl⟩⟩
  obtain ⟨final, discovered⟩ := finished
  refine ⟨final, discovered, (discovery_complete_iff discovered).mpr ?_⟩
  constructor
  · intro entry member bus device describes
    cases List.mem_singleton.mp member
    obtain ⟨rfl, rfl⟩ := (hostBridge_answers describes.deviceNumber).mp describes.vendor
    exact ⟨rfl, _, rfl, by decide, by decide, describes.vendor, by decide⟩
  · intro bus device last sees
    cases sees.isLast
    obtain ⟨rfl, rfl⟩ := (hostBridge_answers sees.deviceNumber).mp sees.vendor
    exact ⟨_, List.mem_cons_self, rfl, by decide, by decide, by decide, sees.vendor⟩

/-- A machine with a single bus: the device on it is not found. -/
theorem single_bus_not_discovered :
    ∃ final, discover 0xffff800000000000 0xffff800000001000 hostBridge (singleMcfg 0 0)
        (.boot fun _ => 0) = .done final ∧
      ¬ DiscoveryComplete hostBridge (singleMcfg 0 0) final.pciArray := by
  refine ⟨_, discover_eq _ _, ?_⟩
  rintro ⟨found, -⟩
  have describes : (⟨0xb0000000, 0, 0, 0⟩ : ConfSpace).Describes hostBridge 0 0 :=
    ⟨by decide, by decide, by decide, (hostBridge_answers (by decide)).mpr ⟨rfl, rfl⟩⟩
  obtain ⟨i, ⟨⟨-, used⟩, -⟩, -⟩ := found _ List.mem_cons_self 0 0 describes
  exact used rfl

end Lord84
