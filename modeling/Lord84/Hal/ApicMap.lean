import Lord84.Hal.ApicInit
import Lord84.Mm.RootTable

/-!
# The controllers behind the page tables

`apic_init` runs on the page tables of the bootloader and keeps the addresses it finds in
globals.  Then `vmm_init` switches to tables of its own.  This module follows the addresses into
these tables, of which it is known that they hold the last mapping of every page.
-/

namespace Lord84

open Theory

namespace BootInfo

variable (info : BootInfo)

/-- The direct map lies in the upper half and has room for 46 bits of physical address.  These
are enough for the memory map, the local APIC and the root table, and the kernel image lies
behind them. -/
structure DirectLayout : Prop where
  aligned : PageAligned info.hhdmoffset
  canonical : 2 ^ 64 - 2 ^ 47 ≤ info.hhdmoffset.toNat
  room : info.hhdmoffset.toNat + 2 ^ 46 ≤ 2 ^ 64
  entries : ∀ entry ∈ info.memmap.entries, entry.base.toNat + entry.length.toNat ≤ 2 ^ 46
  image : ∀ mapping ∈ info.textMappings ++ (info.rodataMappings ++ info.dataMappings),
    info.hhdmoffset.toNat + 2 ^ 46 ≤ mapping.virtAddr.toNat
  lapic : (info.lapicAddress - info.hhdmoffset).toNat < 2 ^ 46
  acpi : ∀ table ∈ info.acpiTable,
    (table.address - info.hhdmoffset).toNat + table.length.toNat < 2 ^ 46

/-- A page of the root table. -/
def OnRootTable (physAddr : Word) : Prop :=
  ∃ table ∈ info.acpiTable, ∃ i ≤ table.length.toNat / blockSize,
    ((table.address - info.hhdmoffset).toNat + i * blockSize) / blockSize =
      physAddr.toNat / blockSize

/-- A page that `vmm_init` maps into the direct map: one of a memory map entry of the right
type, that of the local APIC, or one of the root table. -/
def Shown (physAddr : Word) : Prop :=
  (∃ entry ∈ info.memmap.entries, entryFlags entry.type ≠ none ∧
    ∃ number, number * blockSize < entry.length.toNat ∧
      (entry.base.toNat + number * blockSize) / blockSize = physAddr.toNat / blockSize) ∨
  (info.lapicAddress - info.hhdmoffset).toNat / blockSize = physAddr.toNat / blockSize ∨
  info.OnRootTable physAddr

variable {info} {memory : Memory} {final : MmState} {mapping : Mapping}

/-- The calls of the last loop. -/
theorem mem_acpiMappings (member : mapping ∈ info.acpiMappings) :
    ∃ table ∈ info.acpiTable, ∃ i ≤ table.length.toNat / blockSize,
      mapping = info.tableMapping table i := by
  cases found : info.acpiTable with
  | none =>
      rw [acpiMappings, found] at member
      cases member
  | some table =>
      rw [acpiMappings_eq found] at member
      obtain ⟨i, counted, rfl⟩ := List.mem_map.mp member
      exact ⟨table, rfl, i, Nat.le_of_lt_succ (List.mem_range.mp counted), rfl⟩

/-- The loop maps every page of the table at its place in the direct map. -/
theorem tableMapping_direct (table : AcpiTable) (i : Nat) :
    (info.tableMapping table i).virtAddr =
      info.hhdmoffset + (info.tableMapping table i).physAddr := by
  rw [tableMapping_virtAddr, tableMapping_physAddr, ← BitVec.add_assoc,
    BitVec.add_comm info.hhdmoffset, BitVec.sub_add_cancel]

/-- So does the call for the local APIC. -/
theorem lapicMapping_direct :
    info.lapicMapping.virtAddr = info.hhdmoffset + info.lapicMapping.physAddr := by
  rw [lapicMapping, BitVec.add_comm, BitVec.sub_add_cancel]

/-- The pages of the root table are within the direct map. -/
theorem DirectLayout.tableMapping (layout : info.DirectLayout) {table : AcpiTable}
    (found : table ∈ info.acpiTable) {i : Nat} (pages : i ≤ table.length.toNat / blockSize) :
    (info.tableMapping table i).physAddr.toNat =
        (table.address - info.hhdmoffset).toNat + i * blockSize ∧
      (info.tableMapping table i).physAddr.toNat < 2 ^ 46 := by
  have below := layout.acpi table found
  have address := @toNat_physAddr info table (by omega) i (tablePages_le pages)
  refine ⟨address, ?_⟩
  rw [address]
  simp only [blockSize] at pages ⊢
  omega

/-- What `vmm_init` maps lies at its place in the direct map or in the image. -/
theorem DirectLayout.mapping_cases (layout : info.DirectLayout)
    (member : mapping ∈ info.mappings) :
    (mapping.virtAddr.toNat = info.hhdmoffset.toNat + mapping.physAddr.toNat ∧
        mapping.physAddr.toNat < 2 ^ 46 ∧ info.Shown mapping.physAddr) ∨
      info.hhdmoffset.toNat + 2 ^ 46 ≤ mapping.virtAddr.toNat := by
  have room := layout.room
  have direct : ∀ physAddr : Word, physAddr.toNat < 2 ^ 46 →
      (info.hhdmoffset + physAddr).toNat = info.hhdmoffset.toNat + physAddr.toNat := by
    intro physAddr small
    rw [BitVec.toNat_add]
    omega
  simp only [mappings, kernelMappings, List.mem_append, List.mem_cons, List.mem_flatMap]
    at member
  rcases member with ⟨entry, listed, found⟩ | text | rodata | data | rfl | acpi
  · left
    have below := layout.entries entry listed
    obtain ⟨number, inside, address, virtual, flags⟩ := mem_entryMappings (by omega) found
    have small : mapping.physAddr.toNat < 2 ^ 46 := by omega
    refine ⟨by rw [virtual, direct _ small], small, Or.inl ⟨entry, listed, ?_, number, inside, ?_⟩⟩
    · rw [flags]
      exact Option.some_ne_none _
    · rw [address]
  · exact Or.inr (layout.image mapping (List.mem_append_left _ text))
  · exact Or.inr (layout.image mapping
      (List.mem_append_right _ (List.mem_append_left _ rodata)))
  · exact Or.inr (layout.image mapping
      (List.mem_append_right _ (List.mem_append_right _ data)))
  · left
    refine ⟨?_, layout.lapic, Or.inr (Or.inl rfl)⟩
    rw [lapicMapping_direct]
    exact direct _ layout.lapic
  · left
    obtain ⟨table, found, i, pages, rfl⟩ := mem_acpiMappings acpi
    obtain ⟨address, small⟩ := layout.tableMapping found pages
    refine ⟨?_, small, Or.inr (Or.inr ⟨table, found, i, pages, by rw [address]⟩)⟩
    rw [tableMapping_direct]
    exact direct _ small

/-- Addresses on one physical page are on one page of the direct map. -/
theorem virtualPage_congr {hhdmoffset left right : Word} (aligned : PageAligned hhdmoffset)
    (same : left.toNat / blockSize = right.toNat / blockSize) :
    virtualPage (hhdmoffset + left) = virtualPage (hhdmoffset + right) := by
  apply BitVec.eq_of_toNat_eq
  simp only [virtualPage, BitVec.extractLsb'_toNat, BitVec.toNat_add, Nat.shiftRight_eq_div_pow]
  simp only [PageAligned, blockSize] at aligned same
  omega

/-- Every page that is to be shown is mapped. -/
theorem DirectLayout.exists_mapping (layout : info.DirectLayout) {physAddr : Word}
    (shown : info.Shown physAddr) :
    ∃ mapping ∈ info.mappings,
      virtualPage mapping.virtAddr = virtualPage (info.hhdmoffset + physAddr) := by
  have direct : ∀ mapping ∈ info.mappings,
      mapping.virtAddr = info.hhdmoffset + mapping.physAddr →
      mapping.physAddr.toNat / blockSize = physAddr.toNat / blockSize →
      ∃ mapping ∈ info.mappings,
        virtualPage mapping.virtAddr = virtualPage (info.hhdmoffset + physAddr) := by
    intro mapping member virtual same
    exact ⟨mapping, member, virtual ▸ virtualPage_congr layout.aligned same⟩
  rcases shown with
    ⟨entry, listed, used, number, inside, same⟩ | same | ⟨table, found, i, pages, same⟩
  · obtain ⟨flags, chosen⟩ := Option.ne_none_iff_exists'.mp used
    have below := layout.entries entry listed
    have address : (entry.base + (0 + BitVec.ofNat 64 (number * blockSize))).toNat =
        entry.base.toNat + number * blockSize := by
      rw [show (0 : Word) = 0#64 from rfl, BitVec.zero_add, BitVec.toNat_add, BitVec.toNat_ofNat]
      omega
    have visited : 0 + BitVec.ofNat 64 (number * blockSize) ∈ pageRange 0 entry.length :=
      mem_pageRange.mpr ⟨number, (Nat.zero_add _).symm ▸ inside, rfl⟩
    have member : Mapping.mk (entry.base + (0 + BitVec.ofNat 64 (number * blockSize)) +
        info.hhdmoffset) (entry.base + (0 + BitVec.ofNat 64 (number * blockSize))) flags ∈
        info.entryMappings entry := by
      rw [entryMappings, chosen]
      exact List.mem_map_of_mem visited
    refine direct _ (List.mem_append_left _ (List.mem_flatMap.mpr ⟨entry, listed, member⟩))
      (BitVec.add_comm _ _) ?_
    rw [address]
    exact same
  · exact direct info.lapicMapping (by simp [mappings, kernelMappings]) lapicMapping_direct same
  · have member : info.tableMapping table i ∈ info.mappings := by
      rw [mappings_eq, acpiMappings_eq found]
      exact List.mem_append_right _
        (List.mem_map_of_mem (List.mem_range.mpr (Nat.lt_succ_of_le pages)))
    refine direct _ member (tableMapping_direct table i) ?_
    rw [(layout.tableMapping found pages).1]
    exact same

/-- The page map shows a page if it is to be shown, and nothing in the lower half. -/
theorem DirectLayout.translate_ne_none (layout : info.DirectLayout) (booted : info.Booted final) :
    (∀ virtAddr : Word, virtAddr.toNat < 2 ^ 47 →
      Lord84.translate final.memory (info.root final) virtAddr = none) ∧
    ∀ physAddr : Word, physAddr.toNat < 2 ^ 46 →
      (Lord84.translate final.memory (info.root final) (info.hhdmoffset + physAddr) ≠ none ↔
        info.Shown physAddr) := by
  have canonical := layout.canonical
  have room := layout.room
  have aligned := layout.aligned
  simp only [PageAligned, blockSize] at aligned
  have pages : ∀ left right : Word, virtualPage left = virtualPage right →
      left.toNat / blockSize % 2 ^ 36 = right.toNat / blockSize % 2 ^ 36 := by
    intro left right same
    have sameNat := congrArg BitVec.toNat same
    simp only [virtualPage, BitVec.extractLsb'_toNat, Nat.shiftRight_eq_div_pow] at sameNat
    exact sameNat
  constructor
  · intro virtAddr lower
    rw [booted.translate]
    cases isLast : lastMapping info.mappings (virtualPage virtAddr) with
    | none => rfl
    | some last =>
        obtain ⟨member, here⟩ := lastMapping_eq_some isLast
        have same := pages _ _ here
        have bound := last.virtAddr.isLt
        have upper : info.hhdmoffset.toNat ≤ last.virtAddr.toNat := by
          rcases layout.mapping_cases member with ⟨virtual, -, -⟩ | image
          · omega
          · omega
        simp only [blockSize] at same
        omega
  · intro physAddr small
    have here : (info.hhdmoffset + physAddr).toNat =
        info.hhdmoffset.toNat + physAddr.toNat := by
      rw [BitVec.toNat_add]
      omega
    rw [booted.translate]
    constructor
    · intro mapped
      cases isLast : lastMapping info.mappings (virtualPage (info.hhdmoffset + physAddr)) with
      | none =>
          rw [isLast] at mapped
          exact absurd rfl mapped
      | some last =>
          obtain ⟨member, samePage⟩ := lastMapping_eq_some isLast
          have same := pages _ _ samePage
          have bound := last.virtAddr.isLt
          simp only [here, blockSize] at same
          rcases layout.mapping_cases member with ⟨virtual, below, shown⟩ | image
          · have equal : last.physAddr.toNat / blockSize = physAddr.toNat / blockSize := by
              simp only [blockSize]
              omega
            simpa only [Shown, OnRootTable, equal] using shown
          · omega
    · intro shown
      obtain ⟨mapping, member, there⟩ := layout.exists_mapping shown
      obtain ⟨last, isLast⟩ := exists_lastMapping member
      rw [← there, isLast]
      exact Option.some_ne_none _

/-- Unless the root table is on the same page, the registers of the local APIC are found where
`apic_init` has found them. -/
theorem DirectLayout.translatesTo_lapic (layout : info.DirectLayout) (booted : info.Booted final)
    (aligned : PageAligned info.lapicAddress)
    (apart : ¬ info.OnRootTable (info.lapicAddress - info.hhdmoffset)) {k : Nat}
    (inside : k < blockSize) :
    TranslatesTo final.memory (info.root final) (info.lapicAddress + BitVec.ofNat 64 k)
      (info.lapicAddress + BitVec.ofNat 64 k - info.hhdmoffset) := by
  have hhdmAligned := layout.aligned
  have below := layout.lapic
  have samePage : info.lapicAddress.toNat / blockSize =
      (info.lapicAddress + BitVec.ofNat 64 k).toNat / blockSize := by
    rw [BitVec.toNat_add, BitVec.toNat_ofNat]
    have bound := info.lapicAddress.isLt
    simp only [PageAligned, blockSize] at aligned inside ⊢
    omega
  have page : virtualPage (info.lapicAddress + BitVec.ofNat 64 k) =
      virtualPage info.lapicMapping.virtAddr := by
    apply BitVec.eq_of_toNat_eq
    simp only [virtualPage, BitVec.extractLsb'_toNat, Nat.shiftRight_eq_div_pow, lapicMapping]
    exact congrArg (· % 2 ^ 36) samePage.symm
  have later : lastMapping info.acpiMappings (virtualPage info.lapicMapping.virtAddr) = none := by
    cases isLast : lastMapping info.acpiMappings (virtualPage info.lapicMapping.virtAddr) with
    | none => rfl
    | some last =>
        obtain ⟨member, here⟩ := lastMapping_eq_some isLast
        obtain ⟨table, found, i, pages, rfl⟩ := mem_acpiMappings member
        obtain ⟨address, small⟩ := layout.tableMapping found pages
        refine absurd ⟨table, found, i, pages, ?_⟩ apart
        rw [← address]
        apply virtualPage_direct hhdmAligned
        · omega
        · omega
        · rw [← tableMapping_direct, here]
          exact congrArg virtualPage lapicMapping_direct
  have shown : translate final.memory (info.root final)
      (info.lapicAddress + BitVec.ofNat 64 k) = some info.lapicMapping.entry := by
    rw [booted.translate, page, mappings_eq, lastMapping_append, later, Option.none_or,
      earlierMappings]
    simp only [← List.append_assoc]
    rw [lastMapping_concat]
    rfl
  have frame : info.lapicMapping.entry &&& addressMask =
      (info.lapicAddress - info.hhdmoffset) &&& addressMask := by
    have noAddress : info.lapicMapping.flags &&& addressMask = 0 :=
      (by decide : (pteBitPresent ||| pteBitRw ||| pteBitNx) &&& addressMask = 0)
    rw [Mapping.entry, BitVec.and_or_distrib_right, noAddress]
    exact BitVec.or_zero
  have offset : info.lapicAddress &&& 0xfff = (info.lapicAddress - info.hhdmoffset) &&& 0xfff := by
    apply BitVec.eq_of_toNat_eq
    rw [toNat_and_offset, toNat_and_offset, BitVec.toNat_sub]
    simp only [PageAligned, blockSize] at hhdmAligned ⊢
    omega
  refine ⟨_, shown, offset_of_samePage samePage ?_⟩
  rw [frame, offset, frame_add_offset (by omega)]

end BootInfo

/-- `ioapic_address` points into the direct map of the first 4 GiB. -/
theorem apicInit_ioapicAddress {hhdmoffset : Word} {memory : Memory} {acpi : AcpiGlobals}
    {facp : Word} {reads : TimerReads} {fuel : Nat} {controllers : Controllers}
    (ran : apicInit hhdmoffset memory acpi facp reads fuel = some (.done controllers)) :
    ∃ address : BitVec 32, controllers.ioapicAddress = address.setWidth 64 + hhdmoffset := by
  rw [apicInit] at ran
  obtain ⟨lapic, -, ran⟩ := Option.bind_eq_some_iff.mp ran
  obtain ⟨ioapic, found, ran⟩ := Option.bind_eq_some_iff.mp ran
  rw [ioapicInit] at found
  obtain ⟨header, -, found⟩ := Option.bind_eq_some_iff.mp found
  split at found
  · cases found
    cases ran
  · cases found
    refine ⟨memory.read32 (header + 4), ?_⟩
    cases timed : timerInit hhdmoffset memory acpi facp with
    | done timers =>
        rw [timed] at ran
        obtain ⟨delay, -, ran⟩ := Option.bind_eq_some_iff.mp ran
        cases ran
        rfl
    | killed =>
        rw [timed] at ran
        cases ran
    | spinning =>
        rw [timed] at ran
        cases ran
    | fault =>
        rw [timed] at ran
        cases ran

/-- What becomes of the addresses that `apic_init` has found when `vmm_init` switches to its own
page tables.  The registers of the local APIC stay where they are.  Nothing in the lower half is
mapped any more, so `find_ics` and `find_iso`, which go through the MADT at its physical address,
fault on its first byte.  The registers of the I/O APIC are mapped only if the memory map happens
to show their page, or it is that of the local APIC or of the root table. -/
theorem vmm_init_keeps_controllers {info : BootInfo} {firmware memory : Memory}
    {final : MmState} {acpi : AcpiGlobals} {facp : Word} {reads : TimerReads} {fuel : Nat}
    {controllers : Controllers}
    (ran : apicInit info.hhdmoffset firmware acpi facp reads fuel = some (.done controllers))
    (lapic : info.lapicAddress = controllers.lapicAddress)
    (layout : info.DirectLayout) (finished : info.boot memory = .done final) :
    (PageAligned controllers.lapicAddress →
      ¬ info.OnRootTable (controllers.lapicAddress - info.hhdmoffset) → ∀ k < blockSize,
        TranslatesTo final.memory (info.root final)
          (controllers.lapicAddress + BitVec.ofNat 64 k)
          (controllers.lapicAddress + BitVec.ofNat 64 k - info.hhdmoffset)) ∧
    (∀ virtAddr : Word, virtAddr.toNat < 2 ^ 47 →
      translate final.memory (info.root final) virtAddr = none) ∧
    ∃ address : BitVec 32, controllers.ioapicAddress = address.setWidth 64 + info.hhdmoffset ∧
      (translate final.memory (info.root final) controllers.ioapicAddress ≠ none ↔
        info.Shown (address.setWidth 64)) := by
  have booted : info.Booted final := by
    apply BootInfo.boot_spec _ finished
    intro entry member _
    have below := layout.entries entry member
    omega
  obtain ⟨lower, direct⟩ := layout.translate_ne_none booted
  obtain ⟨address, ioapic⟩ := apicInit_ioapicAddress ran
  refine ⟨?_, lower, address, ioapic, ?_⟩
  · rw [← lapic]
    exact fun aligned apart k inside => layout.translatesTo_lapic booted aligned apart inside
  · rw [ioapic, BitVec.add_comm]
    apply direct
    have bound := address.isLt
    rw [BitVec.toNat_setWidth]
    omega

/-- The MADT and the RSDT of `smallFirmware`, with the FADT in a direct map at
`0xffff800000000000`. -/
def directFirmware : Memory :=
  [(0x1004, 4, 40), (0x1024, 4, 0x3000), (0xffff800000003000, 4, 0x50434146),
    (0xffff80000000304c, 4, 0x608), (0xffff80000000305b, 1, 4), (0x4004, 4, 0x50434146),
    (0x5004, 4, 56), (0x5024, 4, 0xfee00000), (0x502c, 2, 0x0c01), (0x5030, 4, 0xfec00000)].foldl
      (fun memory (write : Word × Nat × Nat) => memory.writeLE write.1 write.2.1 write.2.2)
      fun _ => 0

/-- On the small machine the I/O APIC is out of reach, the local APIC is not. -/
theorem vmm_init_keeps_controllers_higherHalf : ∃ final,
    let info := smallMachine 0xffffffff80000000 ⟨0x200000, 0xffffffff80000000⟩
    info.boot (fun _ => 0) = .done final ∧
      TranslatesTo final.memory (info.root final) 0xffff8000fee00020 0xfee00020 ∧
      translate final.memory (info.root final) 0x5000 = none ∧
      translate final.memory (info.root final) 0xffff8000fec00000 = none := by
  obtain ⟨final, finished⟩ := higherHalf_boots
  have ran : apicInit 0xffff800000000000 directFirmware ⟨0, 0x1000, 0x5000⟩ 0x4004
      ⟨fun n _ => if n = 0 then 0 else 0xffff, fun _ _ => 0⟩ 3 =
      some (.done ⟨0xffff8000fee00000, 0xffff8000fec00000,
        ⟨0xffff800000003000, false, calibrationPmt⟩⟩) := by
    decide +kernel
  have layout : (smallMachine 0xffffffff80000000
      ⟨0x200000, 0xffffffff80000000⟩).DirectLayout := by
    constructor
    · decide +kernel
    · decide +kernel
    · decide +kernel
    · decide +kernel
    · decide +kernel
    · decide +kernel
    · rintro table ⟨⟩
      decide +kernel
  obtain ⟨registers, lower, address, ioapic, shown⟩ :=
    @vmm_init_keeps_controllers (smallMachine 0xffffffff80000000 ⟨0x200000, 0xffffffff80000000⟩)
      directFirmware (fun _ => 0) final _ _ _ _ _ ran rfl layout finished
  have same : address.setWidth 64 = (0xfec00000 : Word) :=
    add_right_cancel (ioapic.symm.trans (by decide))
  have rootTable : ∀ physAddr : Word, physAddr.toNat / blockSize ≠ 0x10b →
      ¬ (smallMachine 0xffffffff80000000 ⟨0x200000, 0xffffffff80000000⟩).OnRootTable physAddr := by
    rintro physAddr elsewhere ⟨table, ⟨⟩, i, pages, here⟩
    have only : i = 0 := Nat.le_zero.mp pages
    rw [only] at here
    exact elsewhere here.symm
  refine ⟨final, finished, ?_, lower 0x5000 (by decide), ?_⟩
  · exact registers (by decide) (rootTable _ (by decide)) 0x20 (by decide)
  · refine Classical.byContradiction fun mapped => ?_
    have visible := shown.mp mapped
    rw [same] at visible
    rcases visible with ⟨entry, listed, -, number, inside, here⟩ | here | onTable
    · rcases List.mem_pair.mp listed with rfl | rfl
      · simp only [blockSize, BitVec.ofNat_eq_ofNat, BitVec.toNat_ofNat] at inside here
        omega
      · simp only [blockSize, BitVec.ofNat_eq_ofNat, BitVec.toNat_ofNat] at inside here
        omega
    · exact absurd here (by decide)
    · exact rootTable _ (by decide) onTable

end Lord84
