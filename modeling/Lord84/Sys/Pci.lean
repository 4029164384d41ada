import Lord84.Mm.VmmInit
import Mathlib.Data.List.GetD

/-!
# PCI devices

A model of `src/sys/pci.c`.  The MCFG table of the firmware names regions of physical
memory through which the configuration headers of PCI functions are read.  The kernel maps
a header into the direct map before it reads it, so what it reads at the virtual address
`header` is what the device shows at the physical address `header - hhdmoffset`.  Mapping
may need page tables and so may fail; whether it does never depends on the devices found
so far.
-/

namespace Lord84

open Theory

/-- `PCIE_CONF_SPACE_WIDTH` -/
def pcieConfSpaceWidth : Word := 4096

/-- `PCI_HEADER_TYPE_MULTI` -/
def pciHeaderTypeMulti : BitVec 8 := 0x80

/-- `PCI_FUNCTION_MAX` -/
def pciFunctionMax : Nat := 8

/-- There is a function 0. -/
instance : NeZero pciFunctionMax := ⟨by decide⟩

/-- `PCI_DEVICE_BUS` -/
def pciDeviceBus : Nat := 8192

/-- `conf_space_t`: one allocation entry of the MCFG table. -/
structure ConfSpace where
  baseEcm : Word
  pciSegGroup : BitVec 16
  startPciNum : BitVec 8
  endPciNum : BitVec 8
  deriving DecidableEq, Repr

/-- `mcfg_t`: a header of 36 bytes, 8 reserved bytes, and the entries, 16 bytes each. -/
structure Mcfg where
  length : BitVec 32
  confSpaces : List ConfSpace
  length_eq : length.toNat = 44 + 16 * confSpaces.length

/-- The fields of `pci_header_t` that the kernel reads. -/
structure PciHeader where
  vendorId : BitVec 16
  subclass : BitVec 8
  classCode : BitVec 8
  headerType : BitVec 8
  deriving DecidableEq, Repr

/-- `header->vendor_id == 0xffff`: nothing answers at this address. -/
def PciHeader.unimplemented (header : PciHeader) : Bool :=
  header.vendorId == 0xffff

/-- `(header->header_type & PCI_HEADER_TYPE_MULTI) != 0` -/
def PciHeader.isMulti (header : PciHeader) : Bool :=
  header.headerType &&& pciHeaderTypeMulti != 0

/-- Stable content of the configuration space: the header at each physical address. -/
abbrev ConfigSpace := Word → PciHeader

/-- `l84_pci_function_return` -/
structure PciFunctionReturn where
  multi : Bool
  funcAddr : Fin pciFunctionMax → Word

/-- `{0}` -/
def PciFunctionReturn.zero : PciFunctionReturn where
  multi := false
  funcAddr _ := 0

/-- `pci_structure` -/
structure PciStructure where
  segment : BitVec 16
  bus : BitVec 8
  device : BitVec 8
  funcAddr : Fin pciFunctionMax → Word

/-- A slot of a zeroed array. -/
def PciStructure.zero : PciStructure where
  segment := 0
  bus := 0
  device := 0
  funcAddr _ := 0

/-- Globals of `pci.c`, with the memory its mappings change. -/
structure PciState where
  configSpaceBaseAddr : Word
  startPciNum : BitVec 8
  endPciNum : BitVec 8
  pciArray : Nat → PciStructure
  pciArrayLock : Bool
  mm : MmState

/-- The globals when `pci_init` begins, and the array as `kmalloc` returns it. -/
def PciState.zeroed (mm : MmState) : PciState where
  configSpaceBaseAddr := 0
  startPciNum := 0
  endPciNum := 0
  pciArray _ := .zero
  pciArrayLock := false
  mm

/-! ## The registry -/

/-- The loop of `pci_add_device`: the first slot whose first function address is zero.  The
slot behind the array is read as well; if it is in use, the machine stops. -/
def firstUnused (pciArray : Nat → PciStructure) : Outcome Nat :=
  match (List.range (pciDeviceBus + 1)).find? fun i => (pciArray i).funcAddr 0 = 0 with
  | none => .killed
  | some i => .done i

/-- What `pci_add_device` stores in a slot: only non-zero addresses are copied. -/
def PciStructure.overwrite (old added : PciStructure) : PciStructure where
  segment := added.segment
  bus := added.bus
  device := added.device
  funcAddr j := if added.funcAddr j ≠ 0 then added.funcAddr j else old.funcAddr j

/-- `pci_add_device` -/
def pciAddDevice (added : PciStructure) (s : PciState) : Outcome PciState := do
  let lock ← acquireLock s.pciArrayLock
  let s := { s with pciArrayLock := lock }
  let i ← firstUnused s.pciArray
  let s := { s with
    pciArray := Function.update s.pciArray i ((s.pciArray i).overwrite added) }
  return { s with pciArrayLock := freeLock s.pciArrayLock }

/-- The comparison of `pci_get_device`. -/
def PciStructure.sameKey (left right : PciStructure) : Bool :=
  left.segment == right.segment && left.bus == right.bus && left.device == right.device

/-- The loop of `pci_get_device`: the first slot of the array with the key of the query. -/
def lookup (pciArray : Nat → PciStructure) (query : PciStructure) : Option Nat :=
  (List.range pciDeviceBus).find? fun i => query.sameKey (pciArray i)

/-- `pci_get_device`; the first component is the index of the slot that the returned pointer
points to.  In the branch of a hit, `free_lock` stands behind the `return`. -/
def pciGetDevice (query : PciStructure) (s : PciState) : Outcome (Option Nat × PciState) := do
  let lock ← acquireLock s.pciArrayLock
  let s := { s with pciArrayLock := lock }
  match lookup s.pciArray query with
  | some i => return (some i, s)
  | none => return (none, { s with pciArrayLock := freeLock s.pciArrayLock })

/-! ## The MCFG table -/

section Discovery

variable (hhdmoffset kernelPageMap : Word) (configSpace : ConfigSpace)

/-- `num` of `parse_conf_space`.  The eight reserved bytes are counted among the entries,
and the division drops them again. -/
def Mcfg.num (mcfg : Mcfg) : Word :=
  (mcfg.length.setWidth 64 - 36) / 16

/-- What one iteration of `parse_conf_space` stores. -/
def PciState.useConfSpace (s : PciState) (header : ConfSpace) : PciState :=
  { s with
    configSpaceBaseAddr := header.baseEcm + hhdmoffset
    startPciNum := header.startPciNum
    endPciNum := header.endPciNum }

/-- `parse_conf_space` -/
def parseConfSpace (mcfg : Mcfg) (s : PciState) : Outcome PciState :=
  forRange 0 mcfg.num.toNat (fun i s =>
    match mcfg.confSpaces[i]? with
    | none => .fault
    | some header => .done (s.useConfSpace hhdmoffset header)) s

/-! ## Looking at a device -/

/-- `get_header` -/
def getHeader (base bus device function : Word) : Word :=
  base + (bus * 256 + device * 8 + function) * pcieConfSpaceWidth

/-- The address that `check_device` computes for a function. -/
def functionAddress (base bus device : Word) (function : Fin pciFunctionMax) : Word :=
  base + (bus <<< 20 ||| device <<< 15 ||| BitVec.ofNat 64 function <<< 12)

/-- The arguments with which `check_device` maps a header. -/
def headerMapping (header : Word) : Mapping where
  virtAddr := header
  physAddr := header - hhdmoffset
  flags := pteBitPresent ||| pteBitRw ||| pteBitNx

/-- Map the page of a header. -/
def mapHeader (header : Word) (s : PciState) : Outcome PciState := do
  let mm ← (headerMapping hhdmoffset header).execute hhdmoffset kernelPageMap s.mm
  return { s with mm }

/-- The header behind a pointer into the direct map, once its page is mapped. -/
def headerAt (header : Word) : PciHeader :=
  configSpace (header - hhdmoffset)

/-- An iteration of the function loop of `check_device`. -/
def checkFunction (bus device : Word) (function : Fin pciFunctionMax)
    (state : PciFunctionReturn × PciState) : Outcome (PciFunctionReturn × PciState) := do
  let (ret, s) := state
  let func := functionAddress s.configSpaceBaseAddr bus device function
  let s ← mapHeader hhdmoffset kernelPageMap func s
  if !(headerAt hhdmoffset configSpace func).unimplemented then
    return ({ ret with funcAddr := Function.update ret.funcAddr function func }, s)
  return (ret, s)

/-- `check_device` -/
def checkDevice (bus device : Word) (s : PciState) :
    Outcome (PciFunctionReturn × PciState) := do
  let header := getHeader s.configSpaceBaseAddr bus device 0
  let s ← mapHeader hhdmoffset kernelPageMap header s
  if (headerAt hhdmoffset configSpace header).unimplemented then
    return (.zero, s)
  let (ret, s) ←
    if (headerAt hhdmoffset configSpace header).isMulti then
      forEach (List.finRange pciFunctionMax)
        (checkFunction hhdmoffset kernelPageMap configSpace bus device)
        ({ PciFunctionReturn.zero with multi := true }, s)
    else
      .done (.zero, s)
  return ({ multi := false, funcAddr := Function.update ret.funcAddr 0 header }, s)

/-- The body of the loops of `enumerate_conf_space`. -/
def enumerateDevice (i j : Nat) (s : PciState) : Outcome PciState := do
  let (ret, s) ← checkDevice hhdmoffset kernelPageMap configSpace (BitVec.ofNat 64 i)
    (BitVec.ofNat 64 j) s
  if ret.funcAddr 0 ≠ 0 then
    pciAddDevice
      { segment := 1
        bus := BitVec.ofNat 8 i
        device := BitVec.ofNat 8 j
        funcAddr := ret.funcAddr } s
  else
    return s

/-- `enumerate_conf_space` -/
def enumerateConfSpace (s : PciState) : Outcome PciState :=
  forRange 0 s.endPciNum.toNat (fun i =>
    forRange 0 32 fun j => enumerateDevice hhdmoffset kernelPageMap configSpace i j) s

/-- The comparison of `pci_find_device` with the header of function 0.  The class code is
compared as a 64-bit number and the subclass as an `int`; -1 stands for any subclass. -/
def PciHeader.matches (header : PciHeader) (classCode : Word) (subclass : BitVec 32) : Bool :=
  header.classCode.setWidth 64 == classCode &&
    (subclass == -1 || subclass == header.subclass.setWidth 32)

/-- The body of the loops of `pci_find_device`.  The first component is the header that the
function returns there, if it does. -/
def findDevice (classCode : Word) (subclass : BitVec 32) (i j : Nat) (s : PciState) :
    Outcome (Option Word × PciState) := do
  let (ret, s) ← checkDevice hhdmoffset kernelPageMap configSpace (BitVec.ofNat 64 i)
    (BitVec.ofNat 64 j) s
  if ret.funcAddr 0 = 0 then
    return (none, s)
  if (headerAt hhdmoffset configSpace (ret.funcAddr 0)).matches classCode subclass then
    return (some (ret.funcAddr 0), s)
  return (none, s)

/-- `pci_find_device`; the result 0 is `NULL`. -/
def pciFindDevice (classCode : Word) (subclass : BitVec 32) (s : PciState) :
    Outcome (Word × PciState) := do
  let (found, s) ← searchRange 0 s.endPciNum.toNat (fun i => searchRange 0 32 fun j =>
    findDevice hhdmoffset kernelPageMap configSpace classCode subclass i j) s
  return (found.getD 0, s)

/-- The part of `pci_init` that finds devices: `parse_conf_space`, then
`enumerate_conf_space` on a zeroed array. -/
def discover (mcfg : Mcfg) (mm : MmState) : Outcome PciState := do
  let s ← parseConfSpace hhdmoffset mcfg (.zeroed mm)
  enumerateConfSpace hhdmoffset kernelPageMap configSpace s

/-! ## What the functions compute -/

/-- The globals after a loop over entries: only the last entry is left. -/
def PciState.useLast (s : PciState) (confSpaces : List ConfSpace) : PciState :=
  match confSpaces.getLast? with
  | none => s
  | some header => s.useConfSpace hhdmoffset header

/-- `parse_conf_space` counts the entries of the table. -/
theorem Mcfg.toNat_num (mcfg : Mcfg) : mcfg.num.toNat = mcfg.confSpaces.length := by
  have total := mcfg.length_eq
  have bound := mcfg.length.isLt
  have header : (36 : Word).toNat = 36 := rfl
  have entry : (16 : Word).toNat = 16 := rfl
  rw [Mcfg.num, BitVec.toNat_udiv, BitVec.toNat_sub, BitVec.toNat_setWidth, header, entry]
  omega

/-- `parse_conf_space` keeps the last entry of the table. -/
theorem parseConfSpace_eq (mcfg : Mcfg) (s : PciState) :
    parseConfSpace hhdmoffset mcfg s = .done (s.useLast hhdmoffset mcfg.confSpaces) := by
  let states (count : Nat) : PciState :=
    s.useLast hhdmoffset (mcfg.confSpaces.take count)
  have parsed : parseConfSpace hhdmoffset mcfg s = .done (states mcfg.confSpaces.length) := by
    rw [parseConfSpace, mcfg.toNat_num]
    apply @forRange_eq_done _ states
    · exact Nat.zero_le _
    · intro i _ bound
      have overwritten : ∀ header : ConfSpace,
          (states i).useConfSpace hhdmoffset header = s.useConfSpace hhdmoffset header := by
        intro header
        simp only [states, PciState.useLast]
        split <;> rfl
      have last : (mcfg.confSpaces.take (i + 1)).getLast? = some mcfg.confSpaces[i] := by
        rw [List.take_succ_eq_append_getElem bound, List.getLast?_concat]
      simp only [List.getElem?_eq_getElem bound, overwritten]
      simp only [states, PciState.useLast, last]
  simp only [parsed, states, List.take_length]

/-- The addresses that the function loop of `check_device` records on top of `funcAddr`. -/
def recordFunctions (base bus device : Word) (functions : List (Fin pciFunctionMax))
    (funcAddr : Fin pciFunctionMax → Word) (k : Fin pciFunctionMax) : Word :=
  let func := functionAddress base bus device k
  if k ∈ functions ∧ !(headerAt hhdmoffset configSpace func).unimplemented then func
  else funcAddr k

/-- What `check_device` returns. -/
def deviceReport (base bus device : Word) : PciFunctionReturn :=
  let header := getHeader base bus device 0
  let functions :=
    if (headerAt hhdmoffset configSpace header).isMulti then List.finRange pciFunctionMax else []
  if (headerAt hhdmoffset configSpace header).unimplemented then
    .zero
  else
    { multi := false
      funcAddr := Function.update
        (recordFunctions hhdmoffset configSpace base bus device functions fun _ => 0) 0 header }

/-- The headers that `check_device` maps. -/
def deviceHeaders (base bus device : Word) : List Word :=
  let header := getHeader base bus device 0
  if (headerAt hhdmoffset configSpace header).unimplemented then
    [header]
  else if (headerAt hhdmoffset configSpace header).isMulti then
    header :: (List.finRange pciFunctionMax).map (functionAddress base bus device)
  else
    [header]

/-- Map a list of headers. -/
def mapHeaders (headers : List Word) (mm : MmState) : Outcome MmState :=
  forEach (headers.map (headerMapping hhdmoffset)) (Mapping.execute hhdmoffset kernelPageMap) mm

theorem headerMapping_present (header : Word) :
    (headerMapping hhdmoffset header).flags &&& presentBit ≠ 0 :=
  show (pteBitPresent ||| pteBitRw ||| pteBitNx) &&& presentBit ≠ 0 by decide

/-- A mapped header is reached through the direct map: the processor finds the frame at
`header - hhdmoffset`. -/
theorem mapHeader_translates {root header : Word} {s next : PciState}
    (wf : TablesWF hhdmoffset root s.mm)
    (finished : mapHeader hhdmoffset (root + hhdmoffset) header s = .done next) :
    TablesWF hhdmoffset root next.mm ∧
      translate next.mm.memory root header =
        some ((header - hhdmoffset) ||| (pteBitPresent ||| pteBitRw ||| pteBitNx)) := by
  obtain ⟨mm, mapped, returned⟩ := Outcome.bind_eq_done.mp finished
  cases returned
  have result := wf.vmmMapPage (headerMapping_present hhdmoffset header) mapped
  exact ⟨result.wf, (result.translate header).trans (if_pos rfl)⟩

theorem mapHeaders_cons (header : Word) (headers : List Word) (mm : MmState) :
    mapHeaders hhdmoffset kernelPageMap (header :: headers) mm =
      ((headerMapping hhdmoffset header).execute hhdmoffset kernelPageMap mm >>=
        mapHeaders hhdmoffset kernelPageMap headers) := by
  rw [mapHeaders, List.map_cons, forEach_cons]
  rfl

theorem mapHeaders_append (left right : List Word) (mm : MmState) :
    mapHeaders hhdmoffset kernelPageMap (left ++ right) mm =
      (mapHeaders hhdmoffset kernelPageMap left mm >>=
        mapHeaders hhdmoffset kernelPageMap right) := by
  rw [mapHeaders, List.map_append, forEach_append]
  rfl

theorem headerMappings_present (headers : List Word) :
    ∀ mapping ∈ headers.map (headerMapping hhdmoffset), mapping.flags &&& presentBit ≠ 0 := by
  intro mapping member
  obtain ⟨header, -, rfl⟩ := List.mem_map.mp member
  exact headerMapping_present hhdmoffset header

/-- Headers can be mapped while the allocator has three pages for each of their page
tables. -/
theorem mapHeaders_returns {root : Word} {mm : MmState} (wf : TablesWF hhdmoffset root mm)
    (noNull : NoNull hhdmoffset root mm) (unlocked : mm.pageTableLock = false)
    {headers : List Word} {paths : List (List (BitVec 9))}
    (covered : ∀ header ∈ headers, tablePath header ∈ paths)
    (room : 3 * paths.length ≤ mm.pmmFreePageCount.toNat) :
    ∃ mapped, mapHeaders hhdmoffset (root + hhdmoffset) headers mm = .done mapped := by
  have listed : ∀ mapping ∈ headers.map (headerMapping hhdmoffset),
      tablePath mapping.virtAddr ∈ paths ∨
        ∃ table, tableAt mm.memory root (tablePath mapping.virtAddr) = some table := by
    intro mapping member
    obtain ⟨header, here, rfl⟩ := List.mem_map.mp member
    exact Or.inl (covered header here)
  obtain ⟨mapped, returned, -⟩ := wf.mapAll_returns noNull unlocked
    (headerMappings_present hhdmoffset headers) listed room
  exact ⟨mapped, returned⟩

theorem recordFunctions_nil (base bus device : Word) (funcAddr : Fin pciFunctionMax → Word) :
    recordFunctions hhdmoffset configSpace base bus device [] funcAddr = funcAddr := by
  funext k
  simp [recordFunctions]

/-- Recording one more function first. -/
theorem recordFunctions_cons (base bus device : Word) (function : Fin pciFunctionMax)
    (functions : List (Fin pciFunctionMax)) (funcAddr : Fin pciFunctionMax → Word) :
    recordFunctions hhdmoffset configSpace base bus device (function :: functions) funcAddr =
      recordFunctions hhdmoffset configSpace base bus device functions
        (recordFunctions hhdmoffset configSpace base bus device [function] funcAddr) := by
  funext k
  simp only [recordFunctions, List.mem_cons, List.not_mem_nil, or_false]
  grind

theorem checkFunction_eq (bus device : Word) (function : Fin pciFunctionMax)
    (ret : PciFunctionReturn) (s : PciState) :
    checkFunction hhdmoffset kernelPageMap configSpace bus device function (ret, s) =
      ((headerMapping hhdmoffset
          (functionAddress s.configSpaceBaseAddr bus device function)).execute
            hhdmoffset kernelPageMap s.mm >>= fun mm =>
          .done ({ ret with
              funcAddr := recordFunctions hhdmoffset configSpace s.configSpaceBaseAddr bus device
                [function] ret.funcAddr },
            { s with mm })) := by
  simp only [checkFunction, mapHeader, bind_assoc, Outcome.pure_eq_done, Outcome.done_bind]
  congr 1
  funext mm
  split
  next present =>
    congr 3
    funext k
    by_cases same : k = function
    · subst same
      simp [recordFunctions, present]
    · simp [recordFunctions, same]
  next absent =>
    congr 2
    have kept : recordFunctions hhdmoffset configSpace s.configSpaceBaseAddr bus device
        [function] ret.funcAddr = ret.funcAddr := by
      funext k
      by_cases same : k = function
      · subst same
        simp [recordFunctions, absent]
      · simp [recordFunctions, same]
    rw [kept]

/-- The function loop maps all functions and records those that answer. -/
theorem checkFunctions_eq (functions : List (Fin pciFunctionMax)) (bus device : Word)
    (ret : PciFunctionReturn) (s : PciState) :
    forEach functions (checkFunction hhdmoffset kernelPageMap configSpace bus device) (ret, s) =
      (mapHeaders hhdmoffset kernelPageMap
        (functions.map (functionAddress s.configSpaceBaseAddr bus device)) s.mm >>= fun mm =>
          .done ({ ret with
              funcAddr := recordFunctions hhdmoffset configSpace s.configSpaceBaseAddr bus device
                functions ret.funcAddr },
            { s with mm })) := by
  induction functions generalizing ret s with
  | nil => simp [mapHeaders, recordFunctions_nil]
  | cons function functions ih =>
      simp only [forEach_cons, checkFunction_eq, List.map_cons, mapHeaders_cons, bind_assoc,
        Outcome.done_bind, ih]
      rw [← recordFunctions_cons]

/-- `check_device` maps the headers it reads and reports the functions it finds. -/
theorem checkDevice_eq (bus device : Word) (s : PciState) :
    checkDevice hhdmoffset kernelPageMap configSpace bus device s =
      (mapHeaders hhdmoffset kernelPageMap
        (deviceHeaders hhdmoffset configSpace s.configSpaceBaseAddr bus device) s.mm >>= fun mm =>
          .done (deviceReport hhdmoffset configSpace s.configSpaceBaseAddr bus device,
            { s with mm })) := by
  simp only [checkDevice, deviceHeaders, deviceReport, mapHeader, bind_assoc,
    Outcome.pure_eq_done, Outcome.done_bind, checkFunctions_eq]
  split
  next absent => simp [mapHeaders]
  next present =>
    split
    next multi => simp [mapHeaders_cons, PciFunctionReturn.zero]
    next single => simp [mapHeaders, recordFunctions_nil, PciFunctionReturn.zero]

/-- The registry holding a list of devices, one in each slot from the first one on. -/
def placed (devices : List PciStructure) (i : Nat) : PciStructure :=
  devices.getD i .zero

/-- The state in which the registry holds `devices` and its lock is free. -/
def PciState.holding (s : PciState) (devices : List PciStructure) (mm : MmState) : PciState :=
  { s with
    pciArray := placed devices
    pciArrayLock := false
    mm }

/-- The state in which the array holds `devices` and its lock is free.  What lies behind the
array is as in `s`. -/
def PciState.filled (s : PciState) (devices : List PciStructure) (mm : MmState) : PciState :=
  { s with
    pciArray := fun i => if i < pciDeviceBus then placed devices i else s.pciArray i
    pciArrayLock := false
    mm }

/-- A zeroed array holds nothing. -/
theorem PciState.filled_nil {s : PciState} (zeroed : ∀ i < pciDeviceBus, s.pciArray i = .zero)
    (unlocked : s.pciArrayLock = false) : s.filled [] s.mm = s := by
  have array : (fun i => if i < pciDeviceBus then placed [] i else s.pciArray i) =
      s.pciArray := by
    funext i
    split
    next inside => exact (zeroed i inside).symm
    next => rfl
  rw [PciState.filled, array, ← unlocked]

theorem placed_of_lt {devices : List PciStructure} {i : Nat} (inside : i < devices.length) :
    placed devices i = devices[i] :=
  List.getD_eq_getElem _ _ inside

theorem placed_of_le {devices : List PciStructure} {i : Nat} (outside : devices.length ≤ i) :
    placed devices i = .zero :=
  List.getD_eq_default _ _ outside

/-- Where nothing but zeroes lies behind the array, the registry holds the devices alone. -/
theorem PciState.filled_eq_holding {s : PciState} {devices : List PciStructure}
    (zero : s.pciArray = fun _ => .zero) (room : devices.length ≤ pciDeviceBus) (mm : MmState) :
    s.filled devices mm = s.holding devices mm := by
  have array : (fun i => if i < pciDeviceBus then placed devices i else s.pciArray i) =
      placed devices := by
    funext i
    split
    next => rfl
    next behind => rw [placed_of_le (by omega), zero]
  rw [PciState.filled, PciState.holding, array]

/-- The search of `pci_add_device` ends at the first unused slot of the array, if there is
one. -/
theorem firstUnused_eq_done {pciArray : Nat → PciStructure} {i : Nat}
    (inside : i < pciDeviceBus) (unused : (pciArray i).funcAddr 0 = 0)
    (first : ∀ j < i, (pciArray j).funcAddr 0 ≠ 0) : firstUnused pciArray = .done i := by
  have found : (List.range (pciDeviceBus + 1)).find?
      (fun i => (pciArray i).funcAddr 0 = 0) = some i := by
    rw [List.find?_range_eq_some]
    refine ⟨by simpa using unused, List.mem_range.mpr (by omega), ?_⟩
    intro j before
    simpa using first j before
  unfold firstUnused
  rw [found]

theorem PciState.filled_of_lt {s : PciState} {devices : List PciStructure} {mm : MmState} {i : Nat}
    (room : devices.length ≤ pciDeviceBus) (inside : i < devices.length) :
    (s.filled devices mm).pciArray i = devices[i] := by
  simp only [PciState.filled, if_pos (Nat.lt_of_lt_of_le inside room)]
  exact placed_of_lt inside

theorem PciState.filled_of_le {s : PciState} {devices : List PciStructure} {mm : MmState} {i : Nat}
    (slot : i < pciDeviceBus) (outside : devices.length ≤ i) :
    (s.filled devices mm).pciArray i = .zero := by
  simp only [PciState.filled, if_pos slot]
  exact placed_of_le outside

/-- The search of `pci_add_device` ends at the first slot behind the devices. -/
theorem firstUnused_filled {devices : List PciStructure} (room : devices.length < pciDeviceBus)
    (used : ∀ device ∈ devices, device.funcAddr 0 ≠ 0) (s : PciState) (mm : MmState) :
    firstUnused (s.filled devices mm).pciArray = .done devices.length := by
  apply firstUnused_eq_done room
  · rw [PciState.filled_of_le room (Nat.le_refl _)]
    rfl
  · intro j before
    rw [PciState.filled_of_lt (Nat.le_of_lt room) before]
    exact used _ (List.getElem_mem before)

theorem update_placed (devices : List PciStructure) (added : PciStructure) :
    Function.update (placed devices) devices.length added = placed (devices ++ [added]) := by
  funext i
  by_cases last : i = devices.length
  · subst last
    simp [placed]
  · rw [Function.update_of_ne last]
    by_cases before : i < devices.length
    · rw [placed, placed, List.getD_append _ _ _ _ before]
    · rw [placed_of_le (by omega), placed_of_le (by simp; omega)]

/-- Writing the slot behind the devices of the array appends to them. -/
theorem PciState.update_filled {devices : List PciStructure}
    (room : devices.length < pciDeviceBus) (s : PciState) (mm : MmState) (added : PciStructure) :
    Function.update (s.filled devices mm).pciArray devices.length added =
      (s.filled (devices ++ [added]) mm).pciArray := by
  funext i
  simp only [PciState.filled, ← update_placed, Function.update_apply]
  by_cases last : i = devices.length
  · rw [if_pos last, if_pos (last ▸ room), if_pos last]
  · rw [if_neg last, if_neg last]

/-- In a zeroed slot `pci_add_device` stores the structure unchanged. -/
theorem PciStructure.overwrite_zero (added : PciStructure) :
    PciStructure.zero.overwrite added = added := by
  have copied : ∀ j, (if added.funcAddr j ≠ 0 then added.funcAddr j else 0) =
      added.funcAddr j := by
    intro j
    split
    next => rfl
    next zero => exact (not_not.mp zero).symm
  simp only [PciStructure.overwrite, PciStructure.zero, copied]

/-- Adding a device to the registry appends it. -/
theorem pciAddDevice_filled {devices : List PciStructure} {added : PciStructure} {mm : MmState}
    (room : devices.length < pciDeviceBus) (used : ∀ device ∈ devices, device.funcAddr 0 ≠ 0)
    (s : PciState) :
    pciAddDevice added (s.filled devices mm) = .done (s.filled (devices ++ [added]) mm) := by
  have slot : (s.filled devices mm).pciArray devices.length = .zero :=
    PciState.filled_of_le room (Nat.le_refl _)
  have unlocked : (s.filled devices mm).pciArrayLock = false := rfl
  simp only [pciAddDevice, unlocked, acquireLock_false, Outcome.done_bind,
    firstUnused_filled room used s mm, slot, PciStructure.overwrite_zero,
    PciState.update_filled room, freeLock_eq, Outcome.pure_eq_done]
  rfl

end Discovery

end Lord84
