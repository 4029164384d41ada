import Lord84.Mm.VmmInit
import Lord84.Mm.VmmUnmap

/-!
# Mapping ranges of pages

A model of the loops of `src/mm/vmm.c` around `vmm_map_page`: `vmm_map_continous_pages`,
which advances the virtual address only, and `kernel_map_pages`, which advances both.  Each
of them is a list of mappings, and the tables hold the last mapping of every page.
-/

namespace Lord84

open Theory

/-- The processor finds the byte of a virtual address at this physical one. -/
def TranslatesTo (memory : Memory) (root virtAddr physAddr : Word) : Prop :=
  ∃ entry, translate memory root virtAddr = some entry ∧
    (entry &&& addressMask) + (virtAddr &&& 0xfff) = physAddr

section Source

variable (hhdmoffset : Word)

/-- `vmm_map_continous_pages`, which always returns 0. -/
def vmmMapContinousPages (s : MmState) (pageMap virtAddr physAddr size flags : Word) :
    Outcome MmState :=
  forRange 0 size.toNat
    (fun i s => vmmMapPage hhdmoffset s pageMap (virtAddr + BitVec.ofNat 64 i * pageSize)
      physAddr flags) s

/-- `kernel_map_pages` -/
def kernelMapPages (s : MmState) (physAddr size flags : Word) : Outcome MmState :=
  forRange 0 size.toNat
    (fun i s => vmmMapPage hhdmoffset s s.kernelPageMap
      (physAddr + hhdmoffset + BitVec.ofNat 64 i * pageSize)
      (physAddr + BitVec.ofNat 64 i * pageSize) (pteBitPresent ||| flags)) s

end Source

/-! ## The loops as lists of mappings -/

/-- The calls of `vmm_map_continous_pages`. -/
def continousMappings (virtAddr physAddr size flags : Word) : List Mapping :=
  (List.range size.toNat).map fun i =>
    { virtAddr := virtAddr + BitVec.ofNat 64 i * pageSize
      physAddr
      flags }

/-- The calls of `kernel_map_pages`. -/
def rangeMappings (hhdmoffset physAddr size flags : Word) : List Mapping :=
  (List.range size.toNat).map fun i =>
    { virtAddr := physAddr + hhdmoffset + BitVec.ofNat 64 i * pageSize
      physAddr := physAddr + BitVec.ofNat 64 i * pageSize
      flags := pteBitPresent ||| flags }

section Loops

variable {hhdmoffset root : Word} {s next : MmState}

/-- A page all of whose mappings write the same entry is translated to it. -/
theorem MappedAll.translate_of_mem {mappings : List Mapping} {mapping : Mapping} {query : Word}
    (all : MappedAll hhdmoffset root s next mappings) (member : mapping ∈ mappings)
    (here : virtualPage mapping.virtAddr = virtualPage query)
    (same : ∀ other ∈ mappings, virtualPage other.virtAddr = virtualPage query →
      other.entry = mapping.entry) :
    Lord84.translate next.memory root query = some mapping.entry := by
  obtain ⟨last, isLast⟩ := exists_lastMapping member
  rw [here] at isLast
  obtain ⟨listed, there⟩ := lastMapping_eq_some isLast
  rw [all.translate, isLast, ← same last listed there]

/-- No descent moves `kernel_page_map`. -/
theorem kernelPageMap_lowestTable {pageMap virtAddr pointer : Word}
    (returned : lowestTable hhdmoffset s pageMap virtAddr = .done (pointer, next)) :
    next.kernelPageMap = s.kernelPageMap := by
  refine @lowestTable_invariant hhdmoffset s next
    (fun _ _ current => current.kernelPageMap = s.kernelPageMap)
    ?_ virtAddr pageMap pointer rfl returned
  intro path pointer current index lower next _ same stepped
  rw [show pointer = pointer - hhdmoffset + hhdmoffset from (sub_add_cancel _ _).symm] at stepped
  obtain ⟨-, ⟨_, -, -, rfl⟩ | ⟨-, -, -, -, -, rfl⟩⟩ := getLowerTable_cases stepped
  · exact same
  · exact same

theorem kernelPageMap_vmmMapPage {pageMap virtAddr physAddr flags : Word}
    (returned : vmmMapPage hhdmoffset s pageMap virtAddr physAddr flags = .done next) :
    next.kernelPageMap = s.kernelPageMap := by
  rw [show pageMap = pageMap - hhdmoffset + hhdmoffset from (sub_add_cancel _ _).symm] at returned
  obtain ⟨lock, table, middle, descended, rfl⟩ := vmmMapPage_cases returned
  have same := kernelPageMap_lowestTable descended
  exact same

theorem vmmMapContinousPages_eq (pageMap virtAddr physAddr size flags : Word) :
    vmmMapContinousPages hhdmoffset s pageMap virtAddr physAddr size flags =
      forEach (continousMappings virtAddr physAddr size flags)
        (Mapping.execute hhdmoffset pageMap) s := by
  rw [vmmMapContinousPages, continousMappings, forRange_eq_forEach, forEach_map,
    List.range_eq_range', Nat.sub_zero]
  rfl

theorem kernelMapPages_eq (physAddr size flags : Word) :
    kernelMapPages hhdmoffset s physAddr size flags =
      forEach (rangeMappings hhdmoffset physAddr size flags)
        (Mapping.execute hhdmoffset s.kernelPageMap) s := by
  rw [kernelMapPages, rangeMappings, forRange_eq_forEach, forEach_map, List.range_eq_range',
    Nat.sub_zero]
  refine @forEach_congr _ _ (fun current => current.kernelPageMap = s.kernelPageMap) _ _ _
    ?_ ?_ s rfl
  · intro i _ current same
    rw [Mapping.execute, same]
  · intro i _ current next same stepped
    exact (kernelPageMap_vmmMapPage stepped).trans same

end Loops

/-! ## Agreement of the two loops -/

/-- Every page of the range is mapped to the frame it shows, with the flags and as present, and
all other pages are translated as before. -/
structure MapsRange (hhdmoffset root physAddr size flags : Word) (s next : MmState) : Prop where
  mapped : ∀ i < size.toNat, ∃ entry,
    translate next.memory root (physAddr + hhdmoffset + BitVec.ofNat 64 i * pageSize) =
      some entry ∧
    entry &&& addressMask = physAddr + BitVec.ofNat 64 i * pageSize ∧
    entry = (physAddr + BitVec.ofNat 64 i * pageSize) ||| (pteBitPresent ||| flags)
  kept : ∀ query, (∀ i < size.toNat,
      virtualPage query ≠
        virtualPage (physAddr + hhdmoffset + BitVec.ofNat 64 i * pageSize)) →
    translate next.memory root query = translate s.memory root query

/-- Both loops leave the same translations, and map the range. -/
structure RangeMappersAgree (hhdmoffset root physAddr size flags : Word)
    (s continous range : MmState) : Prop where
  same : ∀ query, translate continous.memory root query = translate range.memory root query
  maps : MapsRange hhdmoffset root physAddr size flags s range

section Agreement

variable {hhdmoffset root physAddr size flags : Word} {s continous range : MmState}

theorem present_rangeFlags (flags : Word) : (pteBitPresent ||| flags) &&& presentBit ≠ 0 := by
  rw [BitVec.or_comm]
  exact present_or (by decide) flags

/-- All entries that `vmm_map_continous_pages` writes are the same. -/
theorem translate_continous (wf : TablesWF hhdmoffset root s) {virtAddr : Word}
    (present : flags &&& presentBit ≠ 0)
    (returned : vmmMapContinousPages hhdmoffset s (root + hhdmoffset) virtAddr physAddr size
      flags = .done continous) {i : Nat} (inside : i < size.toNat) :
    translate continous.memory root (virtAddr + BitVec.ofNat 64 i * pageSize) =
      some (physAddr ||| flags) := by
  rw [vmmMapContinousPages_eq] at returned
  have all := wf.mapAll (by
    intro mapping member
    obtain ⟨_, -, rfl⟩ := List.mem_map.mp member
    exact present) returned
  have member : (⟨virtAddr + BitVec.ofNat 64 i * pageSize, physAddr, flags⟩ : Mapping) ∈
      continousMappings virtAddr physAddr size flags :=
    List.mem_map.mpr ⟨i, List.mem_range.mpr inside, rfl⟩
  have entry : ∀ mapping ∈ continousMappings virtAddr physAddr size flags,
      mapping.entry = physAddr ||| flags := by
    intro mapping listed
    obtain ⟨_, -, rfl⟩ := List.mem_map.mp listed
    rfl
  have translated := all.translate_of_mem member rfl fun other listed _ =>
    (entry other listed).trans (entry _ member).symm
  rw [entry _ member] at translated
  exact translated

theorem present_and_addressMask (physAddr flags : Word) :
    (physAddr ||| (pteBitPresent ||| flags)) &&& addressMask =
      (physAddr ||| flags) &&& addressMask := by
  simp only [BitVec.and_or_distrib_right, show pteBitPresent &&& addressMask = 0#64 by decide,
    BitVec.zero_or]

/-- The loops agree on an empty range. -/
theorem rangeMappersAgree_zero (hhdmoffset root physAddr flags : Word) (s : MmState) :
    RangeMappersAgree hhdmoffset root physAddr 0 flags s s s where
  same _ := rfl
  maps := ⟨fun _ inside => absurd inside (Nat.not_lt_zero _), fun _ _ => rfl⟩

/-- On a single page both loops make the same call. -/
theorem vmmMapContinousPages_one (pageMap virtAddr physAddr flags : Word) :
    vmmMapContinousPages hhdmoffset s pageMap virtAddr physAddr 1 flags =
      vmmMapPage hhdmoffset s pageMap virtAddr physAddr flags := by
  have single : continousMappings virtAddr physAddr 1 flags = [⟨virtAddr, physAddr, flags⟩] := by
    simp [continousMappings]
  rw [vmmMapContinousPages_eq, single, forEach_cons]
  exact bind_pure _

theorem kernelMapPages_one (physAddr flags : Word) :
    kernelMapPages hhdmoffset s physAddr 1 flags =
      vmmMapPage hhdmoffset s s.kernelPageMap (physAddr + hhdmoffset) physAddr
        (pteBitPresent ||| flags) := by
  have single : rangeMappings hhdmoffset physAddr 1 flags =
      [⟨physAddr + hhdmoffset, physAddr, pteBitPresent ||| flags⟩] := by
    simp [rangeMappings]
  rw [kernelMapPages_eq, single, forEach_cons]
  exact bind_pure _

/-- What that call does to the range. -/
theorem mapsRange_one (wf : TablesWF hhdmoffset root s) {next : MmState}
    (frame : (physAddr ||| flags) &&& addressMask = physAddr)
    (returned : vmmMapPage hhdmoffset s (root + hhdmoffset) (physAddr + hhdmoffset) physAddr
      (pteBitPresent ||| flags) = .done next) :
    MapsRange hhdmoffset root physAddr 1 flags s next := by
  have mapped := wf.vmmMapPage (present_rangeFlags flags) returned
  have first : ∀ address : Word, ∀ i < (1 : Word).toNat,
      address + BitVec.ofNat 64 i * pageSize = address := by
    intro address i inside
    rw [Nat.lt_one_iff.mp inside]
    exact BitVec.add_zero address
  constructor
  · intro i inside
    rw [first _ i inside, first _ i inside]
    refine ⟨_, ?_, ?_, rfl⟩
    · rw [mapped.translate, if_pos rfl]
    · rw [present_and_addressMask, frame]
  · intro query elsewhere
    have different := elsewhere 0 (by decide)
    rw [first _ 0 (by decide)] at different
    rw [mapped.translate, if_neg different]

end Agreement

/-- The two loops map a range alike exactly if it is empty, or if it is one page in the physical
address space and the flags do not reach into its address. -/
theorem range_mappers_agree_iff {hhdmoffset root physAddr size flags : Word}
    {s continous range : MmState} (wf : TablesWF hhdmoffset root s)
    (pageMap : s.kernelPageMap = root + hhdmoffset)
    (continousReturned : vmmMapContinousPages hhdmoffset s s.kernelPageMap
      (physAddr + hhdmoffset) physAddr size (pteBitPresent ||| flags) = .done continous)
    (rangeReturned : kernelMapPages hhdmoffset s physAddr size flags = .done range) :
    RangeMappersAgree hhdmoffset root physAddr size flags s continous range ↔
      size = 0 ∨ size = 1 ∧ (physAddr ||| flags) &&& addressMask = physAddr := by
  rw [pageMap] at continousReturned
  constructor
  · intro agree
    have frame : ∀ i < size.toNat, (physAddr ||| flags) &&& addressMask =
        physAddr + BitVec.ofNat 64 i * pageSize := by
      intro i inside
      obtain ⟨entry, mapped, isFrame, -⟩ := agree.maps.mapped i inside
      rw [← agree.same, translate_continous wf (present_rangeFlags flags) continousReturned inside,
        Option.some.injEq] at mapped
      rw [← isFrame, ← mapped, present_and_addressMask]
    obtain zero | one | more : size.toNat = 0 ∨ size.toNat = 1 ∨ 2 ≤ size.toNat := by omega
    · exact Or.inl (BitVec.eq_of_toNat_eq zero)
    · refine Or.inr ⟨BitVec.eq_of_toNat_eq one, ?_⟩
      rw [frame 0 (by omega)]
      exact BitVec.add_zero physAddr
    · -- the first two pages have the same entry and so the same frame
      have apart := (frame 0 (by omega)).symm.trans (frame 1 (by omega))
      rw [BitVec.add_right_inj] at apart
      exact absurd apart (by decide)
  · rintro (rfl | ⟨rfl, frame⟩)
    · cases continousReturned
      cases rangeReturned
      exact rangeMappersAgree_zero hhdmoffset root physAddr flags s
    · rw [vmmMapContinousPages_one] at continousReturned
      rw [kernelMapPages_one, pageMap] at rangeReturned
      cases continousReturned.symm.trans rangeReturned
      exact ⟨fun _ => rfl, mapsRange_one wf frame rangeReturned⟩

/-- Three frames are enough for mappings that share their tables. -/
theorem freshTables_mapAll {mappings : List Mapping} {path : List (BitVec 9)}
    (present : ∀ mapping ∈ mappings, mapping.flags &&& presentBit ≠ 0)
    (shared : ∀ mapping ∈ mappings, tablePath mapping.virtAddr = path) :
    ∃ final, forEach mappings (Mapping.execute 0xffff800000000000 freshTables.kernelPageMap)
      freshTables = .done final := by
  obtain ⟨-, -, noNull⟩ := threeFrames_start
  have covered : ∀ mapping ∈ mappings, tablePath mapping.virtAddr ∈ [path] ∨
      ∃ table, tableAt freshTables.memory 0x1000 (tablePath mapping.virtAddr) = some table :=
    fun mapping member => Or.inl (List.mem_singleton.mpr (shared mapping member))
  have room : 3 * 1 ≤ freshTables.pmmFreePageCount.toNat := by decide
  obtain ⟨final, finished, -⟩ := freshTables_start.implements.wf.mapAll_returns noNull rfl present
    covered room
  exact ⟨final, finished⟩

/-- Both loops return on up to two pages at `0x9000`. -/
theorem freshTables_ranges {size : Word} (short : size = 1 ∨ size = 2) :
    ∃ continous range,
      vmmMapContinousPages 0xffff800000000000 freshTables freshTables.kernelPageMap
        (0x9000 + 0xffff800000000000) 0x9000 size (pteBitPresent ||| pteBitRw) =
          .done continous ∧
      kernelMapPages 0xffff800000000000 freshTables 0x9000 size pteBitRw = .done range := by
  rw [vmmMapContinousPages_eq, kernelMapPages_eq]
  obtain ⟨continous, continousReturned⟩ := @freshTables_mapAll
    (continousMappings (0x9000 + 0xffff800000000000) 0x9000 size (pteBitPresent ||| pteBitRw))
    (tablePath 0xffff800000009000) (by obtain rfl | rfl := short <;> decide)
    (by obtain rfl | rfl := short <;> decide)
  obtain ⟨range, rangeReturned⟩ := @freshTables_mapAll
    (rangeMappings 0xffff800000000000 0x9000 size pteBitRw)
    (tablePath 0xffff800000009000) (by obtain rfl | rfl := short <;> decide)
    (by obtain rfl | rfl := short <;> decide)
  exact ⟨continous, range, continousReturned, rangeReturned⟩

/-- On one page the loops agree. -/
theorem range_mappers_agree_one : ∃ continous range,
    RangeMappersAgree 0xffff800000000000 0x1000 0x9000 1 pteBitRw freshTables continous range := by
  obtain ⟨continous, range, continousReturned, rangeReturned⟩ :=
    @freshTables_ranges 1 (Or.inl rfl)
  exact ⟨continous, range, (range_mappers_agree_iff freshTables_start.implements.wf rfl
    continousReturned rangeReturned).mpr (Or.inr ⟨rfl, by decide⟩)⟩

/-- On two pages, `vmm_map_continous_pages` maps both to the first frame. -/
theorem range_mappers_differ :
    ¬ ∀ (hhdmoffset root physAddr size flags : Word) (s continous range : MmState),
      TablesWF hhdmoffset root s → s.kernelPageMap = root + hhdmoffset → PageAligned physAddr →
      vmmMapContinousPages hhdmoffset s s.kernelPageMap (physAddr + hhdmoffset) physAddr size
        (pteBitPresent ||| flags) = .done continous →
      kernelMapPages hhdmoffset s physAddr size flags = .done range →
      RangeMappersAgree hhdmoffset root physAddr size flags s continous range := by
  intro claimed
  obtain ⟨continous, range, continousReturned, rangeReturned⟩ :=
    @freshTables_ranges 2 (Or.inr rfl)
  have wf := freshTables_start.implements.wf
  have agree := claimed 0xffff800000000000 0x1000 0x9000 2 pteBitRw freshTables continous range wf
    rfl (by decide) continousReturned rangeReturned
  obtain ⟨entry, mapped, frame, -⟩ := agree.maps.mapped 1 (by decide)
  rw [← agree.same, translate_continous wf (by decide) continousReturned (by decide),
    Option.some.injEq] at mapped
  rw [← mapped] at frame
  exact absurd frame (by decide)

end Lord84
