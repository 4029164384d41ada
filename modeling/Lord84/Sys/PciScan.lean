import Lord84.Sys.PciRun

/-!
# The order of the PCI registry

`enumerate_conf_space` rescans the array from its first slot for every device that it
registers.  This module shows that the rescan always ends inside the array, that the devices
stand in the array in the order of the loops, and that `pci_find_device`, which looks at the
configuration space again, finds the first device of the array that matches.
-/

namespace Lord84

open Theory

/-- The order of the loops of `enumerate_conf_space`. -/
def PciStructure.Before (left right : PciStructure) : Prop :=
  left.bus < right.bus ∨ left.bus = right.bus ∧ left.device < right.device

/-- No header of function 0 that the enumeration looks at lies at address 0. -/
def PciState.NonzeroHeaders (s : PciState) : Prop :=
  ∀ bus device : BitVec 8, bus < s.endPciNum → device < 32 →
    getHeader s.configSpaceBaseAddr (bus.setWidth 64) (device.setWidth 64) 0 ≠ 0

section Scan

variable (hhdmoffset kernelPageMap : Word) (configSpace : ConfigSpace)

/-- Function 0 of this bus and device number answers. -/
def PciState.Present (s : PciState) (bus device : BitVec 8) : Prop :=
  (headerAt hhdmoffset configSpace
    (getHeader s.configSpaceBaseAddr (bus.setWidth 64) (device.setWidth 64) 0)).vendorId ≠ 0xffff

/-- The first `count` slots of the array hold the devices that answer, in the order of the
loops, with the addresses that `check_device` reports; the other slots are empty. -/
structure ListsDevices (s : PciState) (pciArray : Nat → PciStructure) (count : Nat) : Prop where
  room : count ≤ pciDeviceBus
  occupied : ∀ i < pciDeviceBus, (pciArray i).funcAddr 0 ≠ 0 ↔ i < count
  ordered : ∀ i j, i < j → j < count → (pciArray i).Before (pciArray j)
  listed : ∀ i < count, (pciArray i).segment = 1 ∧ (pciArray i).bus < s.endPciNum ∧
    (pciArray i).device < 32 ∧
    s.Present hhdmoffset configSpace (pciArray i).bus (pciArray i).device
  complete : ∀ bus device, bus < s.endPciNum → device < 32 →
    s.Present hhdmoffset configSpace bus device →
    ∃ i < count, (pciArray i).bus = bus ∧ (pciArray i).device = device
  checked : ∀ i < count, ∀ state ret next,
    state.configSpaceBaseAddr = s.configSpaceBaseAddr →
    checkDevice hhdmoffset kernelPageMap configSpace ((pciArray i).bus.setWidth 64)
      ((pciArray i).device.setWidth 64) state = .done (ret, next) →
    (pciArray i).funcAddr = ret.funcAddr
  behind : ∀ i, pciDeviceBus ≤ i → pciArray i = s.pciArray i

/-- The headers that an enumeration maps. -/
def PciState.headers (s : PciState) : List Word :=
  (positions s.endPciNum.toNat).flatMap (headersAt hhdmoffset configSpace s.configSpaceBaseAddr)

/-- The devices that an enumeration registers. -/
def PciState.found (s : PciState) : List PciStructure :=
  foundDevices hhdmoffset configSpace s.configSpaceBaseAddr s.endPciNum.toNat

variable {hhdmoffset kernelPageMap configSpace} {s : PciState}

theorem positions_ordered (buses : Nat) :
    (positions buses).Pairwise fun left right =>
      left.1 < right.1 ∨ left.1 = right.1 ∧ left.2 < right.2 := by
  simp only [positions, SProd.sprod, List.product]
  rw [List.pairwise_flatMap]
  constructor
  · intro bus _
    rw [List.pairwise_map]
    exact List.pairwise_lt_range.imp fun lower => Or.inr ⟨rfl, lower⟩
  · apply List.pairwise_lt_range.imp
    intro left right lower first firstMember second secondMember
    obtain ⟨_, -, rfl⟩ := List.mem_map.mp firstMember
    obtain ⟨_, -, rfl⟩ := List.mem_map.mp secondMember
    exact Or.inl lower

/-- The devices are found in the order of the loops. -/
theorem foundDevices_ordered (base : Word) (buses : BitVec 8) :
    (foundDevices hhdmoffset configSpace base buses.toNat).Pairwise PciStructure.Before := by
  rw [foundDevices, List.pairwise_filterMap]
  refine (positions_ordered buses.toNat).imp_of_mem ?_
  intro leftPosition rightPosition leftMember rightMember ordered left leftFound right rightFound
  obtain ⟨leftBus, leftDevice, -, -, rfl⟩ := mem_positions.mp leftMember
  obtain ⟨rightBus, rightDevice, -, -, rfl⟩ := mem_positions.mp rightMember
  obtain ⟨-, rfl⟩ := foundAt_eq_some_iff.mp leftFound
  obtain ⟨-, rfl⟩ := foundAt_eq_some_iff.mp rightFound
  rcases ordered with lower | ⟨same, lower⟩
  · exact Or.inl lower
  · exact Or.inr ⟨BitVec.eq_of_toNat_eq same, lower⟩

/-- Where headers do not lie at address 0, a device answers as soon as its vendor does. -/
theorem PciState.NonzeroHeaders.answers_iff (nonzero : s.NonzeroHeaders) {bus device : BitVec 8}
    (busNumber : bus < s.endPciNum) (deviceNumber : device < 32) :
    Answers hhdmoffset configSpace s.configSpaceBaseAddr bus device ↔
      s.Present hhdmoffset configSpace bus device := by
  simp only [Answers, PciState.Present, PciHeader.unimplemented, beq_eq_false_iff_ne]
  exact and_iff_left (nonzero bus device busNumber deviceNumber)

/-- What is registered of a device is what `check_device` reports. -/
theorem funcAddr_of_mem_foundDevices {base : Word} {buses : BitVec 8} {device : PciStructure}
    (member : device ∈ foundDevices hhdmoffset configSpace base buses.toNat) :
    device.funcAddr = (deviceReport hhdmoffset configSpace base (device.bus.setWidth 64)
      (device.device.setWidth 64)).funcAddr := by
  obtain ⟨position, visited, isFound⟩ := List.mem_filterMap.mp member
  obtain ⟨bus, number, -, -, rfl⟩ := mem_positions.mp visited
  obtain ⟨-, rfl⟩ := foundAt_eq_some_iff.mp isFound
  rfl

/-- The registry after an enumeration. -/
theorem listsDevices_filled (nonzero : s.NonzeroHeaders) (mm : MmState) :
    ListsDevices hhdmoffset kernelPageMap configSpace s
      (s.filled (s.found hhdmoffset configSpace) mm).pciArray
      (s.found hhdmoffset configSpace).length := by
  have room : (s.found hhdmoffset configSpace).length ≤ pciDeviceBus :=
    length_foundDevices_le _ _
  have member : ∀ i (inside : i < (s.found hhdmoffset configSpace).length),
      (s.found hhdmoffset configSpace)[i] ∈ s.found hhdmoffset configSpace :=
    fun i inside => List.getElem_mem inside
  constructor
  case room => exact room
  case occupied =>
    intro i slot
    by_cases inside : i < (s.found hhdmoffset configSpace).length
    · rw [PciState.filled_of_lt room inside]
      exact iff_of_true (used_of_mem_foundDevices _ (member i inside)) inside
    · rw [PciState.filled_of_le slot (by omega)]
      exact iff_of_false (fun used => used rfl) inside
  case ordered =>
    intro i j lower inside
    have earlier := Nat.lt_trans lower inside
    rw [PciState.filled_of_lt room inside, PciState.filled_of_lt room earlier]
    exact List.pairwise_iff_getElem.mp (foundDevices_ordered _ _) i j earlier inside lower
  case listed =>
    intro i inside
    rw [PciState.filled_of_lt room inside]
    obtain ⟨segment, busNumber, deviceNumber, answers⟩ := of_mem_foundDevices (member i inside)
    exact ⟨segment, busNumber, deviceNumber,
      (nonzero.answers_iff busNumber deviceNumber).mp answers⟩
  case complete =>
    intro bus device busNumber deviceNumber present
    obtain ⟨registered, isFound, key⟩ := exists_mem_foundDevices busNumber deviceNumber
      ((nonzero.answers_iff busNumber deviceNumber).mpr present)
    obtain ⟨i, inside, rfl⟩ := List.getElem_of_mem isFound
    simp only [PciStructure.key, Prod.mk.injEq] at key
    refine ⟨i, inside, ?_⟩
    rw [PciState.filled_of_lt room inside]
    exact key.2
  case checked =>
    intro i inside state ret next sameBase returned
    rw [PciState.filled_of_lt room inside] at returned ⊢
    rw [checkDevice_eq, sameBase] at returned
    obtain ⟨mapped, -, done⟩ := Outcome.bind_eq_done.mp returned
    cases done
    exact funcAddr_of_mem_foundDevices (member i inside)
  case behind =>
    intro i outside
    simp only [PciState.filled, if_neg (Nat.not_lt.mpr outside)]

/-- After the enumeration of some positions, the next search for an unused slot ends inside
the array. -/
theorem firstUnused_inside (zeroed : ∀ i < pciDeviceBus, s.pciArray i = .zero)
    (unlocked : s.pciArrayLock = false) {before after : List (Nat × Nat)} {position : Nat × Nat}
    (split : positions s.endPciNum.toNat = before ++ position :: after) {state : PciState}
    (reached : forEach before (fun position =>
      enumerateDevice hhdmoffset kernelPageMap configSpace position.1 position.2) s =
        .done state) :
    ∃ i < pciDeviceBus, firstUnused state.pciArray = .done i := by
  have length := length_positions_le s.endPciNum
  rw [split, List.length_append, List.length_cons] at length
  have loop := @enumeratePositions_filled hhdmoffset kernelPageMap configSpace before []
    (by rw [List.length_nil]; omega) (fun _ member => absurd member List.not_mem_nil) s s.mm
  rw [PciState.filled_nil zeroed unlocked, List.nil_append, reached] at loop
  obtain ⟨mm, -, done⟩ := Outcome.bind_eq_done.mp loop.symm
  cases done
  have count := List.length_filterMap_le
    (foundAt hhdmoffset configSpace s.configSpaceBaseAddr) before
  refine ⟨_, ?_, firstUnused_filled ?_ ?_ s mm⟩
  · omega
  · omega
  · intro device member
    obtain ⟨position, -, found⟩ := List.mem_filterMap.mp member
    exact funcAddr_of_foundAt found

/-- Enumeration of a zeroed array: every search for an unused slot ends inside the array,
and the enumeration returns when its mappings do, with the devices that answer listed in the
order of the loops. -/
theorem enumeration_lists_devices (zeroed : ∀ i < pciDeviceBus, s.pciArray i = .zero)
    (unlocked : s.pciArrayLock = false) (nonzero : s.NonzeroHeaders) :
    (∀ before position after,
      positions s.endPciNum.toNat = before ++ position :: after → ∀ state ret checked,
      forEach before (fun position =>
        enumerateDevice hhdmoffset kernelPageMap configSpace position.1 position.2) s =
          .done state →
      checkDevice hhdmoffset kernelPageMap configSpace (BitVec.ofNat 64 position.1)
        (BitVec.ofNat 64 position.2) state = .done (ret, checked) →
      ∃ i < pciDeviceBus, firstUnused checked.pciArray = .done i) ∧
    ∃ pciArray count,
      ListsDevices hhdmoffset kernelPageMap configSpace s pciArray count ∧
      enumerateConfSpace hhdmoffset kernelPageMap configSpace s =
        (mapHeaders hhdmoffset kernelPageMap (s.headers hhdmoffset configSpace) s.mm >>= fun mm =>
          .done { s with pciArray, mm }) := by
  constructor
  · intro before position after split state ret checked reached returned
    have inside := firstUnused_inside zeroed unlocked split reached
    rw [checkDevice_eq] at returned
    obtain ⟨mm, -, done⟩ := Outcome.bind_eq_done.mp returned
    cases done
    exact inside
  · refine ⟨_, _, listsDevices_filled nonzero s.mm, ?_⟩
    rw [enumerateConfSpace_eq zeroed unlocked]
    simp only [PciState.filled, unlocked]
    rfl

/-! ## The rescan -/

section Rescan

variable (hhdmoffset configSpace) (classCode : Word) (subclass : BitVec 32)

/-- The header of function 0 of a registered device matches. -/
def deviceMatches (device : PciStructure) : Bool :=
  (headerAt hhdmoffset configSpace (device.funcAddr 0)).matches classCode subclass

/-- The answer is the address of function 0 of the first slot in use that matches, and
`NULL` exactly if there is none. -/
structure FirstMatch (pciArray : Nat → PciStructure) (answer : Word) : Prop where
  first : ∀ i, InUse pciArray i →
    deviceMatches hhdmoffset configSpace classCode subclass (pciArray i) = true →
    (∀ j < i, InUse pciArray j →
      deviceMatches hhdmoffset configSpace classCode subclass (pciArray j) = false) →
    answer = (pciArray i).funcAddr 0
  null : answer = 0 ↔ ∀ i, InUse pciArray i →
    deviceMatches hhdmoffset configSpace classCode subclass (pciArray i) = false

/-- What a search of a list of devices returns. -/
def findMatch (devices : List PciStructure) : Option Word :=
  (devices.find? (deviceMatches hhdmoffset configSpace classCode subclass)).map
    fun device => device.funcAddr 0

/-- The headers that a search of positions maps: it ends at the first match. -/
def searchedHeaders (base : Word) : List (Nat × Nat) → List Word
  | [] => []
  | position :: visited =>
      headersAt hhdmoffset configSpace base position ++
        match findMatch hhdmoffset configSpace classCode subclass
          (foundAt hhdmoffset configSpace base position).toList with
        | some _ => []
        | none => searchedHeaders base visited

variable {hhdmoffset configSpace}

theorem searchedHeaders_isInitial (base : Word) (visited : List (Nat × Nat)) :
    searchedHeaders hhdmoffset configSpace classCode subclass base visited <+:
      visited.flatMap (headersAt hhdmoffset configSpace base) := by
  induction visited with
  | nil => exact List.nil_prefix
  | cons position visited ih =>
      rw [searchedHeaders, List.flatMap_cons, List.prefix_append_right_inj]
      split
      next => exact List.nil_prefix
      next => exact ih

variable {classCode subclass}

theorem findMatch_append (left right : List PciStructure) :
    findMatch hhdmoffset configSpace classCode subclass (left ++ right) =
      (findMatch hhdmoffset configSpace classCode subclass left).or
        (findMatch hhdmoffset configSpace classCode subclass right) := by
  rw [findMatch, List.find?_append, Option.map_or]
  rfl

/-- The body of the search maps the headers of one position and looks at what answers
there. -/
theorem findDevice_eq (position : Nat × Nat) (s : PciState) :
    findDevice hhdmoffset kernelPageMap configSpace classCode subclass position.1 position.2 s =
      (mapHeaders hhdmoffset kernelPageMap
        (headersAt hhdmoffset configSpace s.configSpaceBaseAddr position) s.mm >>= fun mm =>
          .done (findMatch hhdmoffset configSpace classCode subclass
            (foundAt hhdmoffset configSpace s.configSpaceBaseAddr position).toList,
            { s with mm })) := by
  simp only [findDevice, checkDevice_eq, bind_assoc, Outcome.done_bind, headersAt, foundAt]
  congr 1
  funext mm
  by_cases silent : (deviceReport hhdmoffset configSpace s.configSpaceBaseAddr
      (BitVec.ofNat 64 position.1) (BitVec.ofNat 64 position.2)).funcAddr 0 = 0
  · simp only [silent, if_pos, ne_eq, not_true_eq_false, if_false]
    rfl
  · simp only [silent, if_false, ne_eq, not_false_eq_true, if_true, Option.toList_some, findMatch,
      List.find?_singleton, deviceMatches]
    split
    next matched => simp only [matched, if_true, Option.map_some, Outcome.pure_eq_done]
    next other =>
      simp only [other, if_false, Bool.false_eq_true, Option.map_none, Outcome.pure_eq_done]

/-- A search of positions returns the first match among the devices found there. -/
theorem findPositions_eq (visited : List (Nat × Nat)) (s : PciState) :
    searchEach visited (fun position =>
        findDevice hhdmoffset kernelPageMap configSpace classCode subclass position.1
          position.2) s =
      (mapHeaders hhdmoffset kernelPageMap
        (searchedHeaders hhdmoffset configSpace classCode subclass s.configSpaceBaseAddr visited)
        s.mm >>= fun mm =>
          .done (findMatch hhdmoffset configSpace classCode subclass
            (visited.filterMap (foundAt hhdmoffset configSpace s.configSpaceBaseAddr)),
            { s with mm })) := by
  induction visited generalizing s with
  | nil => rfl
  | cons position visited ih =>
      have split : (position :: visited).filterMap
          (foundAt hhdmoffset configSpace s.configSpaceBaseAddr) =
          (foundAt hhdmoffset configSpace s.configSpaceBaseAddr position).toList ++
            visited.filterMap (foundAt hhdmoffset configSpace s.configSpaceBaseAddr) := by
        rw [List.filterMap_cons]
        cases foundAt hhdmoffset configSpace s.configSpaceBaseAddr position <;> rfl
      rw [searchEach, findDevice_eq, searchedHeaders, mapHeaders_append, bind_assoc, bind_assoc,
        split, findMatch_append]
      congr 1
      funext next
      rw [Outcome.done_bind]
      cases findMatch hhdmoffset configSpace classCode subclass
          (foundAt hhdmoffset configSpace s.configSpaceBaseAddr position).toList with
      | some header => rfl
      | none => exact ih { s with mm := next }

/-- `pci_find_device` returns when its mappings do, with the first match among the devices
that an enumeration finds. -/
theorem pciFindDevice_eq (s : PciState) :
    pciFindDevice hhdmoffset kernelPageMap configSpace classCode subclass s =
      (mapHeaders hhdmoffset kernelPageMap
        (searchedHeaders hhdmoffset configSpace classCode subclass s.configSpaceBaseAddr
          (positions s.endPciNum.toNat)) s.mm >>= fun mm =>
        .done ((findMatch hhdmoffset configSpace classCode subclass
          (s.found hhdmoffset configSpace)).getD 0, { s with mm })) := by
  have flattened : searchRange 0 s.endPciNum.toNat (fun i => searchRange 0 32 fun j =>
      findDevice hhdmoffset kernelPageMap configSpace classCode subclass i j) s =
      searchEach (positions s.endPciNum.toNat) (fun position =>
        findDevice hhdmoffset kernelPageMap configSpace classCode subclass position.1 position.2)
        s := by
    simp only [searchRange, positions, SProd.sprod, List.product, searchEach_flatMap,
      ← List.range_eq_range', Nat.sub_zero]
    rfl
  rw [pciFindDevice, flattened, findPositions_eq, bind_assoc]
  rfl

theorem inUse_filled {devices : List PciStructure} (room : devices.length ≤ pciDeviceBus)
    (used : ∀ device ∈ devices, device.funcAddr 0 ≠ 0) (mm : MmState) (i : Nat) :
    InUse (s.filled devices mm).pciArray i ↔ i < devices.length := by
  constructor
  · rintro ⟨slot, taken⟩
    by_contra outside
    rw [PciState.filled_of_le slot (by omega)] at taken
    exact taken rfl
  · intro inside
    refine ⟨by omega, ?_⟩
    rw [PciState.filled_of_lt room inside]
    exact used _ (List.getElem_mem inside)

/-- The first match of a list of devices is the first match of the array that holds them. -/
theorem firstMatch_filled {devices : List PciStructure} (room : devices.length ≤ pciDeviceBus)
    (used : ∀ device ∈ devices, device.funcAddr 0 ≠ 0) (mm : MmState) :
    FirstMatch hhdmoffset configSpace classCode subclass (s.filled devices mm).pciArray
      ((findMatch hhdmoffset configSpace classCode subclass devices).getD 0) := by
  cases isFound : devices.find? (deviceMatches hhdmoffset configSpace classCode subclass) with
  | none =>
      have nowhere : ∀ i, InUse (s.filled devices mm).pciArray i →
          deviceMatches hhdmoffset configSpace classCode subclass
            ((s.filled devices mm).pciArray i) = false := by
        intro i inUse
        have inside := (inUse_filled room used mm i).mp inUse
        rw [PciState.filled_of_lt room inside]
        exact Bool.eq_false_of_not_eq_true
          (List.find?_eq_none.mp isFound _ (List.getElem_mem inside))
      rw [findMatch, isFound]
      constructor
      · intro i inUse isMatch _
        rw [nowhere i inUse] at isMatch
        cases isMatch
      · exact iff_of_true rfl nowhere
  | some device =>
      obtain ⟨isMatch, k, inside, rfl, earlier⟩ := List.find?_eq_some_iff_getElem.mp isFound
      have here : InUse (s.filled devices mm).pciArray k := (inUse_filled room used mm k).mpr inside
      have slot := @PciState.filled_of_lt s devices mm k room inside
      rw [findMatch, isFound, Option.map_some, Option.getD_some]
      constructor
      · intro i inUse alsoMatch first
        have within := (inUse_filled room used mm i).mp inUse
        rcases Nat.lt_trichotomy i k with lower | same | higher
        · rw [PciState.filled_of_lt room within] at alsoMatch
          have missed := earlier i lower
          rw [alsoMatch] at missed
          cases missed
        · subst same
          rw [slot]
        · have missed := first k higher here
          rw [slot, isMatch] at missed
          cases missed
      · apply iff_of_false (used _ (List.getElem_mem inside))
        intro nowhere
        have missed := nowhere k here
        rw [slot, isMatch] at missed
        cases missed

/-- Headers that were mapped once can be mapped again. -/
theorem mapHeaders_again {root : Word} {mm final : MmState} {headers again : List Word}
    (wf : TablesWF hhdmoffset root mm) (noNull : NoNull hhdmoffset root mm)
    (unlocked : mm.pageTableLock = false) (subset : again ⊆ headers)
    (mapped : mapHeaders hhdmoffset (root + hhdmoffset) headers mm = .done final) :
    ∃ next, mapHeaders hhdmoffset (root + hhdmoffset) again final = .done next := by
  have present := headerMappings_present hhdmoffset
  have all := wf.mapAll (present headers) mapped
  obtain ⟨stillUnlocked, -, reached⟩ := wf.mapAll_reached unlocked (present headers) mapped
  have covered : ∀ mapping ∈ again.map (headerMapping hhdmoffset),
      tablePath mapping.virtAddr ∈ ([] : List (List (BitVec 9))) ∨
        ∃ table, tableAt final.memory root (tablePath mapping.virtAddr) = some table := by
    intro mapping member
    obtain ⟨header, listed, rfl⟩ := List.mem_map.mp member
    exact Or.inr (reached _ (List.mem_map_of_mem (subset listed)))
  obtain ⟨next, returned, -⟩ := all.wf.mapAll_returns
    (fun page known => noNull page ((all.pages page).mp known)) stillUnlocked (present again)
    covered (Nat.zero_le _)
  exact ⟨next, returned⟩

end Rescan

/-- `pci_find_device` agrees with the registry that the enumeration built: it returns when
its mappings do, always if the page tables are in good order, and its answer is the first
match of the array. -/
theorem rescan_agrees_with_registry {final : PciState}
    (zeroed : ∀ i < pciDeviceBus, s.pciArray i = .zero) (unlocked : s.pciArrayLock = false)
    (enumerated : enumerateConfSpace hhdmoffset kernelPageMap configSpace s = .done final)
    (classCode : Word) (subclass : BitVec 32) :
    ∃ answer, FirstMatch hhdmoffset configSpace classCode subclass final.pciArray answer ∧
      (∀ later : PciState, later.configSpaceBaseAddr = final.configSpaceBaseAddr →
        later.endPciNum = final.endPciNum →
        ∃ headers, headers <+: s.headers hhdmoffset configSpace ∧
        pciFindDevice hhdmoffset kernelPageMap configSpace classCode subclass later =
          (mapHeaders hhdmoffset kernelPageMap headers later.mm >>= fun mm =>
            .done (answer, { later with mm }))) ∧
      ∀ root, kernelPageMap = root + hhdmoffset → TablesWF hhdmoffset root s.mm →
        NoNull hhdmoffset root s.mm → s.mm.pageTableLock = false →
        ∃ next, pciFindDevice hhdmoffset kernelPageMap configSpace classCode subclass final =
          .done (answer, next) := by
  rw [enumerateConfSpace_eq zeroed unlocked] at enumerated
  obtain ⟨mm, mapped, returned⟩ := Outcome.bind_eq_done.mp enumerated
  cases returned
  refine ⟨_, firstMatch_filled (length_foundDevices_le _ _) used_of_mem_foundDevices mm, ?_, ?_⟩
  · intro later sameBase sameEnd
    refine ⟨_, searchedHeaders_isInitial classCode subclass _ _, ?_⟩
    rw [pciFindDevice_eq, PciState.found, sameBase, sameEnd]
    rfl
  · rintro root rfl wf noNull tablesUnlocked
    obtain ⟨next, again⟩ := mapHeaders_again wf noNull tablesUnlocked
      (searchedHeaders_isInitial classCode subclass _ _).subset mapped
    exact ⟨_, (pciFindDevice_eq _).trans (Outcome.bind_eq_done.mpr ⟨next, again, rfl⟩)⟩

end Scan

/-- The globals for the region of the bridge, with nothing registered. -/
def hostBridgeState (mm : MmState) : PciState :=
  (PciState.zeroed mm).useConfSpace 0xffff800000000000 ⟨0xb0000000, 1, 0, 1⟩

theorem hostBridge_nonzero (mm : MmState) : (hostBridgeState mm).NonzeroHeaders := by
  intro bus device busNumber deviceNumber
  have base : (hostBridgeState mm).configSpaceBaseAddr = 0xffff8000b0000000 := rfl
  have last : (hostBridgeState mm).endPciNum = 1 := rfl
  rw [last] at busNumber
  rw [base, getHeader, pcieConfSpaceWidth]
  bv_omega

theorem hostBridge_enumerated :
    ∃ final, enumerateConfSpace 0xffff800000000000 (0x1000 + 0xffff800000000000) hostBridge
      (hostBridgeState threeFrames) = .done final := by
  obtain ⟨mapped, finished⟩ := hostBridge_mapped
  rw [enumerateConfSpace_eq (fun _ _ => rfl) rfl]
  exact ⟨_, Outcome.bind_eq_done.mpr ⟨mapped, finished, rfl⟩⟩

/-- On three free frames the enumeration of one bus returns, and lists the bridge. -/
theorem enumeration_lists_host_bridge :
    ∃ final count,
      enumerateConfSpace 0xffff800000000000 (0x1000 + 0xffff800000000000) hostBridge
        (hostBridgeState threeFrames) = .done final ∧
      ListsDevices 0xffff800000000000 (0x1000 + 0xffff800000000000) hostBridge
        (hostBridgeState threeFrames) final.pciArray count := by
  obtain ⟨-, pciArray, count, lists, returns⟩ :=
    @enumeration_lists_devices 0xffff800000000000 (0x1000 + 0xffff800000000000) hostBridge
      (hostBridgeState threeFrames) (fun _ _ => rfl) rfl (hostBridge_nonzero _)
  obtain ⟨final, finished⟩ := hostBridge_enumerated
  obtain ⟨mm, -, done⟩ := Outcome.bind_eq_done.mp (returns.symm.trans finished)
  cases done
  exact ⟨_, count, finished, lists⟩

/-- A search for bridges after that enumeration returns the header of the bridge. -/
theorem rescan_finds_host_bridge :
    ∃ final next,
      enumerateConfSpace 0xffff800000000000 (0x1000 + 0xffff800000000000) hostBridge
        (hostBridgeState threeFrames) = .done final ∧
      pciFindDevice 0xffff800000000000 (0x1000 + 0xffff800000000000) hostBridge 6 (-1) final =
        .done (0xffff8000b0000000, next) := by
  obtain ⟨start, -, noNull⟩ : VmmStart 0xffff800000000000 0x1000 threeFrames ∧
      freePages 0xffff800000000000 threeFrames = [0x4000, 0x3000, 0x2000] ∧
      NoNull 0xffff800000000000 0x1000 threeFrames := threeFrames_start
  obtain ⟨final, finished⟩ := hostBridge_enumerated
  obtain ⟨answer, -, -, returns⟩ := @rescan_agrees_with_registry 0xffff800000000000
    (0x1000 + 0xffff800000000000) hostBridge (hostBridgeState threeFrames) final (fun _ _ => rfl)
    rfl finished 6 (-1)
  obtain ⟨next, found⟩ := returns 0x1000 rfl start.implements.wf noNull rfl
  have bridge : findMatch 0xffff800000000000 hostBridge 6 (-1)
      (foundDevices 0xffff800000000000 hostBridge 0xffff8000b0000000 1) =
        some 0xffff8000b0000000 := by
    decide +kernel
  have registered := finished
  rw [enumerateConfSpace_eq (fun _ _ => rfl) rfl] at registered
  obtain ⟨mm, -, done⟩ := Outcome.bind_eq_done.mp registered
  cases done
  have answered := found
  rw [pciFindDevice_eq] at answered
  obtain ⟨mapped, -, done⟩ := Outcome.bind_eq_done.mp answered
  have same : answer = 0xffff8000b0000000 := by
    rw [← (Prod.mk.inj (Outcome.done.inj done)).1]
    exact congrArg (Option.getD · 0) bridge
  exact ⟨_, next, finished, same ▸ found⟩

end Lord84
