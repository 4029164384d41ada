import Lord84.Mm.VmmRun

/-!
# Building the kernel page map

A model of `vmm_init` of `src/mm/vmm.c`.  The function takes a page for the root table
and then calls `vmm_map_page` in a fixed order of loops: the memory map, the three
sections of the kernel image, the local APIC and the root table of ACPI.  When it
returns, it has executed a list of mappings that depends on the boot information only,
and the translation of a page is the last mapping of the list on that page.
-/

namespace Lord84

open Theory

/-- `struct limine_kernel_address_response`. -/
structure KernelAddress where
  physicalBase : Word
  virtualBase : Word
  deriving DecidableEq, Repr

/-- A root table of ACPI, by its address in the direct map and the `length` of its
header.  The tables belong to the firmware, and nobody writes to them. -/
structure AcpiTable where
  address : Word
  length : BitVec 32
  deriving DecidableEq, Repr

/-- What `vmm_init` finds in globals of other files and in linker symbols.  A missing
response or table is `none`. -/
structure BootInfo where
  memmap : LimineMemmap
  hhdmoffset : Word
  kernelAddress : Option KernelAddress
  textStartAddr : Word
  textEndAddr : Word
  rodataStartAddr : Word
  rodataEndAddr : Word
  dataStartAddr : Word
  dataEndAddr : Word
  lapicAddress : Word
  xsdt : Option AcpiTable
  rsdt : Option AcpiTable

/-- `ALIGN_DOWN` with the page size. -/
def alignDown (address : Word) : Word :=
  address &&& ~~~(pageSize - 1)

/-- `ALIGN_UP` with the page size. -/
def alignUp (address : Word) : Word :=
  (address + (pageSize - 1)) &&& ~~~(pageSize - 1)

/-- Number of iterations of `for (addr = start; addr < stop; addr += PAGE_SIZE)`. -/
def pageCount (start stop : Word) : Nat :=
  (stop.toNat - start.toNat + (blockSize - 1)) / blockSize

/-- The values that the loop variable takes. -/
def pageRange (start stop : Word) : List Word :=
  (List.range (pageCount start stop)).map fun k => start + BitVec.ofNat 64 (k * blockSize)

/-- The loop visits every page of the range. -/
theorem mem_pageRange {start stop address : Word} :
    address ∈ pageRange start stop ↔
      ∃ number, start.toNat + number * blockSize < stop.toNat ∧
        address = start + BitVec.ofNat 64 (number * blockSize) := by
  simp only [pageRange, pageCount, blockSize, List.mem_map, List.mem_range]
  constructor
  · rintro ⟨number, counted, rfl⟩
    exact ⟨number, by omega, rfl⟩
  · rintro ⟨number, inside, rfl⟩
    exact ⟨number, by omega, rfl⟩

/-- The loop variable reaches the bound before it wraps around. -/
def LoopExits (start stop : Word) : Prop :=
  start.toNat + pageCount start stop * blockSize < 2 ^ 64

instance (start stop : Word) : Decidable (LoopExits start stop) :=
  inferInstanceAs (Decidable (_ < _))

/-- `for (addr = start; addr < stop; addr += PAGE_SIZE)`.  If the variable wraps around
below a bound in the last page of the address space, then the loop never ends. -/
def forPages (start stop : Word) (body : Word → MmState → Outcome MmState) (s : MmState) :
    Outcome MmState :=
  if LoopExits start stop then forEach (pageRange start stop) body s else .spinning

/-- Flags with which `vmm_init` maps the pages of a memory map entry. -/
def entryFlags : MemmapType → Option Word
  | .usable => some (pteBitPresent ||| pteBitRw)
  | .framebuffer => some (pteBitPresent ||| pteBitRw ||| pteBitNx)
  | .bootloaderReclaimable => some (pteBitPresent ||| pteBitRw)
  | .acpiReclaimable => some (pteBitPresent ||| pteBitRw)
  | _ => none

namespace BootInfo

variable (info : BootInfo)

def textStart : Word := alignDown info.textStartAddr
def textEnd : Word := alignUp info.textEndAddr
def rodataStart : Word := alignDown info.rodataStartAddr
def rodataEnd : Word := alignUp info.rodataEndAddr
def dataStart : Word := alignDown info.dataStartAddr
def dataEnd : Word := alignUp info.dataEndAddr

/-- One iteration of the loop over the memory map. -/
def mapEntry (pageMap : Word) (entry : MemmapEntry) (s : MmState) : Outcome MmState :=
  match entryFlags entry.type with
  | none => return s
  | some flags =>
      forPages 0 entry.length
        (fun j s => vmmMapPage info.hhdmoffset s pageMap (entry.base + j + info.hhdmoffset)
          (entry.base + j) flags) s

/-- The loop over one section of the kernel image.  Without Limine's answer, which
`vmm_init` only complains about, the first iteration reads through a null pointer. -/
def mapSection (pageMap start stop flags : Word) (s : MmState) : Outcome MmState :=
  forPages start stop
    (fun address s =>
      match info.kernelAddress with
      | none => .fault
      | some kernel =>
          vmmMapPage info.hhdmoffset s pageMap address
            (address - kernel.virtualBase + kernel.physicalBase) flags) s

/-- The loop over the pages of a root table of ACPI. -/
def mapAcpiTable (pageMap : Word) (table : AcpiTable) (s : MmState) : Outcome MmState :=
  forRange 0 (table.length.toNat / blockSize + 1)
    (fun i s =>
      vmmMapPage info.hhdmoffset s pageMap (table.address + BitVec.ofNat 64 i * pageSize)
        (table.address - info.hhdmoffset + BitVec.ofNat 64 i * pageSize)
        (pteBitPresent ||| pteBitRw ||| pteBitNx)) s

/-- The table that `vmm_init` maps: the RSDT only if there is no XSDT. -/
def acpiTable : Option AcpiTable :=
  if info.xsdt.isNone && info.rsdt.isSome then info.rsdt else info.xsdt

/-- The last branch of `vmm_init`.  Without any table it reads `xsdt` through a null
pointer. -/
def mapAcpi (pageMap : Word) (s : MmState) : Outcome MmState :=
  match info.acpiTable with
  | none => .fault
  | some table => info.mapAcpiTable pageMap table s

/-- `vmm_init`.  A failed allocation of the root is not noticed, since the pointer into the
direct map is not null. -/
def vmmInit (s : MmState) : Outcome MmState := do
  let (page, s) ← pmmAlloc info.hhdmoffset s
  let pageMap := page + info.hhdmoffset
  let s := { s with kernelPageMap := pageMap }
  let s := { s with memory := memset s.memory (pageMap - info.hhdmoffset) 0 pageSize }
  let s ← forEach info.memmap.entries (info.mapEntry pageMap) s
  let s ← info.mapSection pageMap info.textStart info.textEnd pteBitPresent s
  let s ← info.mapSection pageMap info.rodataStart info.rodataEnd
    (pteBitPresent ||| pteBitNx) s
  let s ← info.mapSection pageMap info.dataStart info.dataEnd
    (pteBitPresent ||| pteBitRw ||| pteBitNx) s
  let s ← vmmMapPage info.hhdmoffset s pageMap info.lapicAddress
    (info.lapicAddress - info.hhdmoffset) (pteBitPresent ||| pteBitRw ||| pteBitNx)
  info.mapAcpi pageMap s

end BootInfo

/-! ## Lists of mappings -/

/-- The arguments of one call of `vmm_map_page`. -/
structure Mapping where
  virtAddr : Word
  physAddr : Word
  flags : Word
  deriving DecidableEq, Repr

/-- The leaf entry that the call writes. -/
def Mapping.entry (mapping : Mapping) : Word :=
  mapping.physAddr ||| mapping.flags

/-- Execute one call on the tables below `pageMap`. -/
def Mapping.execute (hhdmoffset pageMap : Word) (mapping : Mapping) (s : MmState) :
    Outcome MmState :=
  vmmMapPage hhdmoffset s pageMap mapping.virtAddr mapping.physAddr mapping.flags

/-- The last mapping of a virtual page. -/
def lastMapping (mappings : List Mapping) (page : BitVec 36) : Option Mapping :=
  mappings.reverse.find? fun mapping => virtualPage mapping.virtAddr = page

theorem lastMapping_cons (mapping : Mapping) (mappings : List Mapping) (page : BitVec 36) :
    lastMapping (mapping :: mappings) page =
      (lastMapping mappings page).or
        (if virtualPage mapping.virtAddr = page then some mapping else none) := by
  rw [lastMapping, List.reverse_cons, List.find?_append, lastMapping, List.find?_singleton]
  simp only [decide_eq_true_eq]

theorem lastMapping_eq_some {mappings : List Mapping} {page : BitVec 36} {mapping : Mapping}
    (last : lastMapping mappings page = some mapping) :
    mapping ∈ mappings ∧ virtualPage mapping.virtAddr = page := by
  constructor
  · exact List.mem_reverse.mp (List.mem_of_find?_eq_some last)
  · simpa using List.find?_some last

theorem lastMapping_concat (mappings : List Mapping) (mapping : Mapping) :
    lastMapping (mappings ++ [mapping]) (virtualPage mapping.virtAddr) = some mapping := by
  simp [lastMapping]

/-- A page that has a mapping has a last one. -/
theorem exists_lastMapping {mappings : List Mapping} {mapping : Mapping}
    (member : mapping ∈ mappings) :
    ∃ last, lastMapping mappings (virtualPage mapping.virtAddr) = some last := by
  rw [← Option.isSome_iff_exists, lastMapping, List.find?_isSome]
  exact ⟨mapping, List.mem_reverse.mpr member, by simp⟩

/-- The second part of a list comes before the first. -/
theorem lastMapping_append (earlier later : List Mapping) (page : BitVec 36) :
    lastMapping (earlier ++ later) page =
      (lastMapping later page).or (lastMapping earlier page) := by
  rw [lastMapping, List.reverse_append, List.find?_append, lastMapping, lastMapping]

/-- A mapping in the second part of a list hides the first part. -/
theorem lastMapping_append_right {earlier later : List Mapping} {mapping last : Mapping}
    (member : mapping ∈ later) {page : BitVec 36} (here : virtualPage mapping.virtAddr = page)
    (isLast : lastMapping (earlier ++ later) page = some last) : last ∈ later := by
  subst here
  obtain ⟨found, isFound⟩ := exists_lastMapping member
  rw [lastMapping_append, isFound, Option.some_or, Option.some.injEq] at isLast
  rw [← isLast]
  exact (lastMapping_eq_some isFound).1

section Lists

variable {hhdmoffset root : Word} {s final : MmState}

/-- Effect of a list of mappings. -/
structure MappedAll (hhdmoffset root : Word) (s final : MmState) (mappings : List Mapping) :
    Prop where
  wf : TablesWF hhdmoffset root final
  translate : ∀ query, translate final.memory root query =
    match lastMapping mappings (virtualPage query) with
    | some mapping => some mapping.entry
    | none => translate s.memory root query
  pages : ∀ page, (page ∈ freePages hhdmoffset final ∨ IsTable final.memory root page) ↔
    (page ∈ freePages hhdmoffset s ∨ IsTable s.memory root page)
  free : freePages hhdmoffset final <:+ freePages hhdmoffset s
  pageMap : final.kernelPageMap = s.kernelPageMap

/-- The tables after a list of mappings hold the last mapping of every page. -/
theorem TablesWF.mapAll {mappings : List Mapping} (wf : TablesWF hhdmoffset root s)
    (present : ∀ mapping ∈ mappings, mapping.flags &&& presentBit ≠ 0)
    (finished : forEach mappings (Mapping.execute hhdmoffset (root + hhdmoffset)) s =
      .done final) :
    MappedAll hhdmoffset root s final mappings := by
  induction mappings generalizing s with
  | nil =>
      cases finished
      exact ⟨wf, fun _ => rfl, fun _ => Iff.rfl, List.suffix_refl _, rfl⟩
  | cons mapping mappings ih =>
      rw [forEach_cons, Outcome.bind_eq_done] at finished
      obtain ⟨next, stepped, rest⟩ := finished
      have mapped := wf.vmmMapPage (present mapping List.mem_cons_self) stepped
      have all := ih mapped.wf
        (fun other member => present other (List.mem_cons_of_mem _ member)) rest
      refine ⟨all.wf, ?_, fun page => (all.pages page).trans (mapped.pages page),
        all.free.trans mapped.free, all.pageMap.trans mapped.pageMap⟩
      intro query
      rw [all.translate query, lastMapping_cons]
      cases later : lastMapping mappings (virtualPage query) with
      | some last => rfl
      | none =>
          rw [Option.none_or]
          by_cases here : virtualPage mapping.virtAddr = virtualPage query
          · rw [if_pos here]
            exact (mapped.translate query).trans (if_pos here.symm)
          · rw [if_neg here]
            exact (mapped.translate query).trans (if_neg fun equal => here equal.symm)

/-- A list of mappings keeps the page tables there are, and leaves one for each of them. -/
theorem TablesWF.mapAll_reached {mappings : List Mapping} (wf : TablesWF hhdmoffset root s)
    (unlocked : s.pageTableLock = false)
    (present : ∀ mapping ∈ mappings, mapping.flags &&& presentBit ≠ 0)
    (finished : forEach mappings (Mapping.execute hhdmoffset (root + hhdmoffset)) s =
      .done final) :
    final.pageTableLock = false ∧
      (∀ path table, path.length ≤ 3 → tableAt s.memory root path = some table →
        tableAt final.memory root path = some table) ∧
      ∀ mapping ∈ mappings,
        ∃ table, tableAt final.memory root (tablePath mapping.virtAddr) = some table := by
  induction mappings generalizing s with
  | nil =>
      cases finished
      exact ⟨unlocked, fun _ _ _ found => found, fun _ member => absurd member List.not_mem_nil⟩
  | cons mapping mappings ih =>
      rw [forEach_cons, Outcome.bind_eq_done] at finished
      obtain ⟨next, stepped, rest⟩ := finished
      have mapped := wf.vmmMapPage (present mapping List.mem_cons_self) stepped
      obtain ⟨stillUnlocked, kept, reached⟩ := ih mapped.wf mapped.unlocked
        (fun other member => present other (List.mem_cons_of_mem _ member)) rest
      refine ⟨stillUnlocked,
        fun path table short found => kept path table short (mapped.tables path table short found),
        ?_⟩
      intro other member
      rcases List.mem_cons.mp member with rfl | later
      · obtain ⟨table, found⟩ := mapped.reached
        exact ⟨table, kept _ table (Nat.le_of_eq (length_tablePath _)) found⟩
      · exact reached other later

/-- A list of mappings is executed to its end when the allocator has three pages for
every page table that is still missing, and takes no more pages than that. -/
theorem TablesWF.mapAll_returns {mappings : List Mapping} {paths : List (List (BitVec 9))}
    (wf : TablesWF hhdmoffset root s) (noNull : NoNull hhdmoffset root s)
    (unlocked : s.pageTableLock = false)
    (present : ∀ mapping ∈ mappings, mapping.flags &&& presentBit ≠ 0)
    (covered : ∀ mapping ∈ mappings, tablePath mapping.virtAddr ∈ paths ∨
      ∃ table, tableAt s.memory root (tablePath mapping.virtAddr) = some table)
    (room : 3 * paths.length ≤ s.pmmFreePageCount.toNat) :
    ∃ final, forEach mappings (Mapping.execute hhdmoffset (root + hhdmoffset)) s =
        .done final ∧
      s.pmmFreePageCount.toNat ≤ final.pmmFreePageCount.toNat + 3 * paths.length := by
  induction mappings generalizing s paths with
  | nil => exact ⟨s, rfl, Nat.le_add_right _ _⟩
  | cons mapping mappings ih =>
      have stepPresent := present mapping List.mem_cons_self
      -- After the first mapping its page table exists, and its path is paid for.
      have continued : ∀ (next : MmState) (remaining : List (List (BitVec 9))),
          mapping.execute hhdmoffset (root + hhdmoffset) s = .done next →
          s.pmmFreePageCount.toNat + 3 * remaining.length ≤
            next.pmmFreePageCount.toNat + 3 * paths.length →
          (∀ path ∈ paths, path = tablePath mapping.virtAddr ∨ path ∈ remaining) →
          ∃ final, forEach (mapping :: mappings)
              (Mapping.execute hhdmoffset (root + hhdmoffset)) s = .done final ∧
            s.pmmFreePageCount.toNat ≤ final.pmmFreePageCount.toNat + 3 * paths.length := by
        intro next remaining stepped spent kept
        have mapped := wf.vmmMapPage stepPresent stepped
        obtain ⟨final, finished, used⟩ := @ih next remaining mapped.wf (mapped.noNull noNull)
          mapped.unlocked (fun other member => present other (List.mem_cons_of_mem _ member))
          (by
            intro other member
            rcases covered other (List.mem_cons_of_mem _ member) with listed | ⟨table, found⟩
            · rcases kept _ listed with same | later
              · rw [same]
                exact Or.inr mapped.reached
              · exact Or.inl later
            · exact Or.inr
                ⟨table, mapped.tables _ table (Nat.le_of_eq (length_tablePath _)) found⟩)
          (by omega)
        exact ⟨final, by rw [forEach_cons, stepped, Outcome.done_bind, finished], by omega⟩
      rcases covered mapping List.mem_cons_self with listed | ⟨table, found⟩
      · have positive : 1 ≤ paths.length := List.length_pos_of_mem listed
        obtain ⟨next, stepped, count⟩ := wf.vmmMapPage_returns noNull unlocked (by omega)
          mapping.virtAddr mapping.physAddr mapping.flags
        refine continued next (paths.erase (tablePath mapping.virtAddr)) stepped ?_ ?_
        · rw [List.length_erase_of_mem listed]
          omega
        · intro path member
          by_cases same : path = tablePath mapping.virtAddr
          · exact Or.inl same
          · exact Or.inr ((List.mem_erase_of_ne same).mpr member)
      · exact continued _ paths
          (vmmMapPage_of_found (fun _ => noNull.tables) unlocked found mapping.physAddr
            mapping.flags)
          (Nat.le_refl _) (fun path member => Or.inr member)

end Lists

/-! ## The mappings of `vmm_init` -/

namespace BootInfo

variable (info : BootInfo)

def entryMappings (entry : MemmapEntry) : List Mapping :=
  match entryFlags entry.type with
  | none => []
  | some flags => (pageRange 0 entry.length).map fun j =>
      { virtAddr := entry.base + j + info.hhdmoffset, physAddr := entry.base + j, flags }

/-- Mappings of a section; without kernel addresses there are none to speak of. -/
def sectionMappings (start stop flags : Word) : List Mapping :=
  match info.kernelAddress with
  | none => []
  | some kernel => (pageRange start stop).map fun address =>
      { virtAddr := address, physAddr := address - kernel.virtualBase + kernel.physicalBase,
        flags }

def textMappings : List Mapping :=
  info.sectionMappings info.textStart info.textEnd pteBitPresent

def rodataMappings : List Mapping :=
  info.sectionMappings info.rodataStart info.rodataEnd (pteBitPresent ||| pteBitNx)

def dataMappings : List Mapping :=
  info.sectionMappings info.dataStart info.dataEnd (pteBitPresent ||| pteBitRw ||| pteBitNx)

def lapicMapping : Mapping where
  virtAddr := info.lapicAddress
  physAddr := info.lapicAddress - info.hhdmoffset
  flags := pteBitPresent ||| pteBitRw ||| pteBitNx

def acpiMappings : List Mapping :=
  match info.acpiTable with
  | none => []
  | some table => (List.range (table.length.toNat / blockSize + 1)).map fun i =>
      { virtAddr := table.address + BitVec.ofNat 64 i * pageSize
        physAddr := table.address - info.hhdmoffset + BitVec.ofNat 64 i * pageSize
        flags := pteBitPresent ||| pteBitRw ||| pteBitNx }

/-- The mappings after the loop over the memory map. -/
def kernelMappings : List Mapping :=
  info.textMappings ++ (info.rodataMappings ++
    (info.dataMappings ++ (info.lapicMapping :: info.acpiMappings)))

/-- All calls of `vmm_map_page` that `vmm_init` makes, in order. -/
def mappings : List Mapping :=
  info.memmap.entries.flatMap info.entryMappings ++ info.kernelMappings

/-- The loop over a section ends, and it does not read through a null pointer. -/
def SectionProceeds (start stop : Word) : Prop :=
  LoopExits start stop ∧ (info.kernelAddress = none → pageRange start stop = [])

/-- Nothing but a failing `vmm_map_page` can keep `vmm_init` from returning. -/
structure Proceeds : Prop where
  entries : ∀ entry ∈ info.memmap.entries, entryFlags entry.type ≠ none → LoopExits 0 entry.length
  text : info.SectionProceeds info.textStart info.textEnd
  rodata : info.SectionProceeds info.rodataStart info.rodataEnd
  data : info.SectionProceeds info.dataStart info.dataEnd
  acpi : info.acpiTable ≠ none

/-- The state in which `vmm_init` starts to map: the page for the root has been zeroed. -/
def zeroedRoot (s : MmState) (page : Word) : MmState :=
  { s with
    kernelPageMap := page + info.hhdmoffset
    memory := s.memory.fill page 0 blockSize }

variable {info} {pageMap : Word} {s final : MmState}

theorem forPages_eq_done {start stop : Word} {body : Word → MmState → Outcome MmState} :
    forPages start stop body s = .done final ↔
      LoopExits start stop ∧ forEach (pageRange start stop) body s = .done final := by
  rw [forPages]
  split
  next exits => exact (and_iff_right exits).symm
  next endless => exact iff_of_false (by simp) (fun both => endless both.1)

theorem mapEntry_eq_done (entry : MemmapEntry) (s final : MmState) :
    info.mapEntry pageMap entry s = .done final ↔
      (entryFlags entry.type ≠ none → LoopExits 0 entry.length) ∧
        forEach (info.entryMappings entry) (Mapping.execute info.hhdmoffset pageMap) s =
          .done final := by
  rw [mapEntry, entryMappings]
  cases entryFlags entry.type with
  | none => simp
  | some flags =>
      simp only [forPages_eq_done, forEach_map, ne_eq, reduceCtorEq, not_false_eq_true,
        forall_const]
      rfl

theorem mapSection_eq_done {start stop flags : Word} :
    info.mapSection pageMap start stop flags s = .done final ↔
      info.SectionProceeds start stop ∧
        forEach (info.sectionMappings start stop flags)
          (Mapping.execute info.hhdmoffset pageMap) s = .done final := by
  rw [mapSection, forPages_eq_done, sectionMappings, SectionProceeds]
  cases info.kernelAddress with
  | none =>
      cases pageRange start stop <;> simp
  | some kernel =>
      simp only [forEach_map, reduceCtorEq, false_implies, and_true]
      rfl

theorem mapAcpiTable_eq (table : AcpiTable) (found : info.acpiTable = some table) :
    info.mapAcpiTable pageMap table s =
      forEach info.acpiMappings (Mapping.execute info.hhdmoffset pageMap) s := by
  rw [mapAcpiTable, acpiMappings, found, forRange_eq_forEach]
  simp only [forEach_map, List.range_eq_range', Nat.sub_zero]
  rfl

/-- The table of ACPI is mapped only if there is one. -/
theorem mapAcpi_eq_done :
    info.mapAcpi pageMap s = .done final ↔
      info.acpiTable ≠ none ∧
        forEach info.acpiMappings (Mapping.execute info.hhdmoffset pageMap) s =
          .done final := by
  rw [mapAcpi]
  cases found : info.acpiTable with
  | none => simp
  | some table =>
      simp only [mapAcpiTable_eq table found, ne_eq, reduceCtorEq, not_false_eq_true,
        true_and]

/-- `vmm_init` returns exactly when it can proceed and its list of mappings is executed
to the end on a zeroed root. -/
theorem vmmInit_eq_done :
    info.vmmInit s = .done final ↔
      info.Proceeds ∧ ∃ page next, pmmAlloc info.hhdmoffset s = .done (page, next) ∧
        forEach info.mappings (Mapping.execute info.hhdmoffset (page + info.hhdmoffset))
          (info.zeroedRoot next page) = .done final := by
  have zeroed : ∀ (next : MmState) (page : Word),
      ({ next with
        kernelPageMap := page + info.hhdmoffset
        memory := memset next.memory (page + info.hhdmoffset - info.hhdmoffset) 0 pageSize } :
        MmState) = info.zeroedRoot next page := by
    intro next page
    rw [BitVec.add_sub_cancel, memset_eq_fill]
    rfl
  simp only [vmmInit, mappings, kernelMappings, textMappings, rodataMappings, dataMappings,
    Outcome.bind_eq_done, forEach_append, forEach_cons, mapSection_eq_done, mapAcpi_eq_done,
    forEach_flatMap_eq_done mapEntry_eq_done, zeroed]
  constructor
  · rintro ⟨⟨page, next⟩, allocated, first, ⟨entries, entriesDone⟩, second, ⟨text, textDone⟩,
      third, ⟨rodata, rodataDone⟩, fourth, ⟨data, dataDone⟩, fifth, lapicDone, acpi, acpiDone⟩
    exact ⟨⟨entries, text, rodata, data, acpi⟩, page, next, allocated, first, entriesDone,
      second, textDone, third, rodataDone, fourth, dataDone, fifth, lapicDone, acpiDone⟩
  · rintro ⟨⟨entries, text, rodata, data, acpi⟩, page, next, allocated, first, entriesDone,
      second, textDone, third, rodataDone, fourth, dataDone, fifth, lapicDone, acpiDone⟩
    exact ⟨⟨page, next⟩, allocated, first, ⟨entries, entriesDone⟩, second, ⟨text, textDone⟩,
      third, ⟨rodata, rodataDone⟩, fourth, ⟨data, dataDone⟩, fifth, lapicDone, acpi, acpiDone⟩

end BootInfo

/-! ## The start of `vmm_init` -/

section Start

variable {hhdmoffset : Word} {s : MmState}

/-- Zeroing a page that is not on the list leaves the list alone. -/
theorem PmmWF.freePages_fill (wf : PmmWF hhdmoffset s) {page : Word}
    (aligned : PageAligned page) (used : page ∉ freePages hhdmoffset s) {next : MmState}
    (memory : next.memory = s.memory.fill page 0 blockSize)
    (head : next.freeList = s.freeList) (count : next.pmmFreePageCount = s.pmmFreePageCount) :
    freePages hhdmoffset next = freePages hhdmoffset s := by
  refine freePages_congr head count ?_
  intro other listed
  rw [memory, read64_eq_entryAt, read64_eq_entryAt]
  apply entryAt_fill_of_ne _ _ _ aligned (wf.aligned other listed)
  rintro rfl
  exact used listed

/-- The root page of `vmm_init`, zeroed, beside the rest of the free list. -/
theorem BootInfo.vmmStart {info : BootInfo} (wf : PmmWF info.hhdmoffset s)
    (small : ∀ page ∈ freePages info.hhdmoffset s, page.toNat < 2 ^ 52)
    (available : s.pmmFreePageCount ≠ 0) :
    VmmStart info.hhdmoffset (s.freeList - info.hhdmoffset)
        (info.zeroedRoot (popPage info.hhdmoffset s) (s.freeList - info.hhdmoffset)) ∧
      freePages info.hhdmoffset s = (s.freeList - info.hhdmoffset) ::
        freePages info.hhdmoffset
          (info.zeroedRoot (popPage info.hhdmoffset s) (s.freeList - info.hhdmoffset)) := by
  have first : freePages info.hhdmoffset s = _ := freePages_popPage available
  have listed : s.freeList - info.hhdmoffset ∈ freePages info.hhdmoffset s :=
    freeList_mem available
  have aligned := wf.aligned _ listed
  have nodup := wf.nodup
  rw [first] at nodup
  obtain ⟨used, restNodup⟩ := List.nodup_cons.mp nodup
  have popped := wf.popPage available
  have rest : freePages info.hhdmoffset
      (info.zeroedRoot (popPage info.hhdmoffset s) (s.freeList - info.hhdmoffset)) =
      freePages info.hhdmoffset (popPage info.hhdmoffset s) :=
    popped.freePages_fill aligned used rfl rfl rfl
  refine ⟨?_, by rw [first, rest]⟩
  constructor
  · exact wf.unlocked
  · rw [rest]
    exact restNodup
  · intro page member
    rw [rest] at member
    refine ⟨popped.aligned page member, small page ?_⟩
    rw [first]
    exact List.mem_cons_of_mem _ member
  · exact aligned
  · rw [rest]
    exact used
  · intro index
    exact entryAt_fill_self _ index aligned

/-- While the lock of the allocator is held, no mapping on a blank root returns. -/
theorem Mapping.execute_ne_done {root : Word} (mapping : Mapping) (final : MmState)
    (locked : s.pmmLock = true)
    (blank : ∀ index, child (entryAt s.memory root index) = none) :
    mapping.execute hhdmoffset (root + hhdmoffset) s ≠ .done final := by
  intro finished
  rw [Mapping.execute, vmmMapPage] at finished
  obtain ⟨lock, -, finished⟩ := Outcome.bind_eq_done.mp finished
  obtain ⟨result, descended, -⟩ := Outcome.bind_eq_done.mp finished
  simp only [lowestTable, offset_eq_digit] at descended
  rw [getLowerTable_spinning (s := { s with pageTableLock := lock }) (blank _) locked]
    at descended
  cases descended

end Start

/-! ## Both initialisations -/

namespace BootInfo

variable (info : BootInfo)

/-- `pmm_init` followed by `vmm_init`, as in `_start`. -/
def boot (memory : Memory) : Outcome MmState := do
  let s ← pmmInit info.hhdmoffset (some info.memmap.entries) (.boot memory)
  info.vmmInit s

/-- Physical address of `kernel_page_map`. -/
def root (s : MmState) : Word :=
  s.kernelPageMap - info.hhdmoffset

/-- The usable entries lie in the physical address space of the processor. -/
def UsableBelow (bound : Nat) : Prop :=
  ∀ entry ∈ info.memmap.entries, entry.type = .usable →
    entry.base.toNat + entry.length.toNat ≤ bound

/-- The kernel page map after `vmm_init` has been called in the state `s`. -/
structure Initialised (s final : MmState) : Prop where
  wf : TablesWF info.hhdmoffset (info.root final) final
  translate : ∀ virtAddr, translate final.memory (info.root final) virtAddr =
    (lastMapping info.mappings (virtualPage virtAddr)).map Mapping.entry
  pages : ∀ page, (page ∈ freePages info.hhdmoffset final ∨
      IsTable final.memory (info.root final) page) ↔ page ∈ freePages info.hhdmoffset s
  free : freePages info.hhdmoffset final <:+ freePages info.hhdmoffset s
  unlocked : final.pageTableLock = false
  reached : ∀ mapping ∈ info.mappings,
    ∃ table, tableAt final.memory (info.root final) (tablePath mapping.virtAddr) = some table

/-- The kernel page map after both initialisations. -/
structure Booted (final : MmState) : Prop where
  wf : TablesWF info.hhdmoffset (info.root final) final
  translate : ∀ virtAddr, translate final.memory (info.root final) virtAddr =
    (lastMapping info.mappings (virtualPage virtAddr)).map Mapping.entry
  pages : ∀ page, (page ∈ freePages info.hhdmoffset final ∨
      IsTable final.memory (info.root final) page) ↔
    page ∈ publishedPages info.memmap.entries true

variable {info} {memory : Memory} {final : MmState}

/-- Flags of the calls that `vmm_init` makes. -/
def usedFlags : List Word :=
  [pteBitPresent ||| pteBitRw, pteBitPresent ||| pteBitRw ||| pteBitNx, pteBitPresent,
    pteBitPresent ||| pteBitNx]

theorem mem_sectionMappings {start stop flags : Word} {mapping : Mapping}
    (member : mapping ∈ info.sectionMappings start stop flags) :
    ∃ kernel ∈ info.kernelAddress, mapping.virtAddr ∈ pageRange start stop ∧
      mapping.physAddr = mapping.virtAddr - kernel.virtualBase + kernel.physicalBase ∧
      mapping.flags = flags := by
  rw [sectionMappings] at member
  split at member
  · cases member
  next kernel found =>
    obtain ⟨address, listed, rfl⟩ := List.mem_map.mp member
    exact ⟨kernel, found, listed, rfl, rfl⟩

theorem flags_mem {mapping : Mapping} (member : mapping ∈ info.mappings) :
    mapping.flags ∈ usedFlags := by
  have sectionFlags : ∀ start stop flags, mapping ∈ info.sectionMappings start stop flags →
      mapping.flags = flags := by
    intro start stop flags listed
    obtain ⟨_, -, -, -, used⟩ := mem_sectionMappings listed
    exact used
  simp only [mappings, kernelMappings, List.mem_append, List.mem_cons, List.mem_flatMap]
    at member
  rcases member with ⟨entry, -, listed⟩ | text | rodata | data | rfl | acpi
  · rw [entryMappings] at listed
    split at listed
    · cases listed
    next flags chosen =>
      obtain ⟨_, -, rfl⟩ := List.mem_map.mp listed
      cases type : entry.type <;> rw [type] at chosen <;> cases chosen <;> simp [usedFlags]
  · simp [sectionFlags _ _ _ text, usedFlags]
  · simp [sectionFlags _ _ _ rodata, usedFlags]
  · simp [sectionFlags _ _ _ data, usedFlags]
  · simp [lapicMapping, usedFlags]
  · rw [acpiMappings] at acpi
    split at acpi
    · cases acpi
    · obtain ⟨_, -, rfl⟩ := List.mem_map.mp acpi
      simp [usedFlags]

/-- Every call of `vmm_init` passes the present bit. -/
theorem flags_present {mapping : Mapping} (member : mapping ∈ info.mappings) :
    mapping.flags &&& presentBit ≠ 0 := by
  have all : ∀ flags ∈ usedFlags, flags &&& presentBit ≠ 0 := by
    simp only [usedFlags, List.forall_mem_cons]
    exact ⟨by decide, by decide, by decide, by decide, by simp⟩
  exact all _ (flags_mem member)

/-- No call of `vmm_init` passes flags that reach into the address. -/
theorem flags_and_addressMask {mapping : Mapping} (member : mapping ∈ info.mappings) :
    mapping.flags &&& addressMask = 0 := by
  have all : ∀ flags ∈ usedFlags, flags &&& addressMask = 0 := by
    simp only [usedFlags, List.forall_mem_cons]
    exact ⟨by decide, by decide, by decide, by decide, by simp⟩
  exact all _ (flags_mem member)

theorem published_lt {bound : Nat} (small : info.UsableBelow bound) {page : Word}
    (published : page ∈ publishedPages info.memmap.entries true) : page.toNat < bound := by
  obtain ⟨⟨entry, member, usable, -, inside⟩, -⟩ :=
    info.memmap.publishedPages_inUsable published
  have below := small entry member usable
  simp only [blockSize] at inside
  omega

theorem freePages_lt {bound : Nat} (small : info.UsableBelow bound) {s : MmState}
    (published : freePages info.hhdmoffset s =
      (publishedPages info.memmap.entries true).reverse) :
    ∀ page ∈ freePages info.hhdmoffset s, page.toNat < bound := by
  intro page listed
  rw [published, List.mem_reverse] at listed
  exact published_lt small listed

/-- Without a page for the root, `vmm_init` does not return: its first mapping waits for the
lock. -/
theorem vmmInit_available {s : MmState} (finished : info.vmmInit s = .done final) :
    s.pmmFreePageCount ≠ 0 := by
  rw [vmmInit_eq_done] at finished
  obtain ⟨-, page, next, allocated, mapped⟩ := finished
  obtain ⟨-, ⟨-, rfl, rfl⟩ | ⟨available, -⟩⟩ := pmmAlloc_cases allocated
  · have blank : ∀ index, child (entryAt (info.zeroedRoot { s with pmmLock := true } 0).memory
        0 index) = none := by
      intro index
      rw [zeroedRoot, entryAt_fill_self _ index (by decide), child_zero]
    cases calls : info.mappings with
    | nil => simp [mappings, kernelMappings] at calls
    | cons mapping mappings =>
        rw [calls, forEach_cons, Outcome.bind_eq_done] at mapped
        obtain ⟨reached, stepped, -⟩ := mapped
        exact absurd stepped (mapping.execute_ne_done reached rfl blank)
  · exact available

/-- When `vmm_init` returns, the kernel page map holds the last mapping of every page, and
its tables and the free list are made of the pages that were free. -/
theorem vmmInit_spec {s : MmState} (wf : PmmWF info.hhdmoffset s)
    (small : ∀ page ∈ freePages info.hhdmoffset s, page.toNat < 2 ^ 52)
    (unlocked : s.pageTableLock = false) (finished : info.vmmInit s = .done final) :
    info.Initialised s final := by
  have available := vmmInit_available finished
  rw [vmmInit_eq_done] at finished
  obtain ⟨-, page, next, allocated, mapped⟩ := finished
  rw [pmmAlloc_eq wf.unlocked available] at allocated
  cases allocated
  obtain ⟨start, pages⟩ := vmmStart wf small available
  have all := start.implements.wf.mapAll (fun _ => flags_present) mapped
  obtain ⟨stillUnlocked, -, reached⟩ :=
    start.implements.wf.mapAll_reached unlocked (fun _ => flags_present) mapped
  have rootEq : info.root final = s.freeList - info.hhdmoffset := by
    rw [root, all.pageMap]
    exact BitVec.add_sub_cancel _ _
  constructor
  · rw [rootEq]
    exact all.wf
  · intro virtAddr
    rw [rootEq, all.translate virtAddr, start.implements.translate virtAddr]
    cases lastMapping info.mappings (virtualPage virtAddr) <;> rfl
  · intro page
    rw [rootEq, all.pages, start.isTable_iff, or_comm, ← List.mem_cons, ← pages]
  · rw [pages]
    exact all.free.trans (List.suffix_cons _ _)
  · exact stillUnlocked
  · rw [rootEq]
    exact reached

/-- When both initialisations return, the tables of the kernel page map and the free list
are made of the pages that `pmm_init` published. -/
theorem boot_spec (small : info.UsableBelow (2 ^ 52)) (finished : info.boot memory = .done final) :
    info.Booted final := by
  obtain ⟨s, initialised, wf, published, unlocked⟩ :=
    @pmmInit_spec info.hhdmoffset info.memmap memory
  rw [boot, initialised, Outcome.done_bind] at finished
  have mapped := vmmInit_spec wf (freePages_lt small published) unlocked finished
  refine ⟨mapped.wf, mapped.translate, ?_⟩
  intro page
  rw [mapped.pages, published, List.mem_reverse]

/-- The initialisations take the pages of their tables from the free list in its order. -/
theorem freePages_of_boot (small : info.UsableBelow (2 ^ 52))
    (finished : info.boot memory = .done final) :
    freePages info.hhdmoffset final <:+ (publishedPages info.memmap.entries true).reverse := by
  obtain ⟨s, initialised, wf, published, unlocked⟩ :=
    @pmmInit_spec info.hhdmoffset info.memmap memory
  rw [boot, initialised, Outcome.done_bind] at finished
  exact published ▸ (vmmInit_spec wf (freePages_lt small published) unlocked finished).free

theorem proceeds_of_boot (finished : info.boot memory = .done final) : info.Proceeds := by
  obtain ⟨s, initialised, -⟩ := @pmmInit_spec info.hhdmoffset info.memmap memory
  rw [boot, initialised, Outcome.done_bind, vmmInit_eq_done] at finished
  exact finished.1

/-- Both initialisations return when nothing keeps them from proceeding and the free list
has three pages for every page table, beside the root; the other pages stay free. -/
theorem boot_returns {paths : List (List (BitVec 9))} (small : info.UsableBelow (2 ^ 52))
    (proceeds : info.Proceeds)
    (noNull : ∀ page ∈ publishedPages info.memmap.entries true,
      page ≠ 0 ∧ page + info.hhdmoffset ≠ 0)
    (covered : ∀ mapping ∈ info.mappings, tablePath mapping.virtAddr ∈ paths)
    (room : 3 * paths.length < (publishedPages info.memmap.entries true).length) :
    ∃ final, info.boot memory = .done final ∧
      (publishedPages info.memmap.entries true).length ≤
        final.pmmFreePageCount.toNat + (3 * paths.length + 1) := by
  obtain ⟨s, initialised, wf, published, unlocked⟩ :=
    @pmmInit_spec info.hhdmoffset info.memmap memory
  have count : s.pmmFreePageCount.toNat = (publishedPages info.memmap.entries true).length := by
    rw [← @length_freePages info.hhdmoffset s, published, List.length_reverse]
  have available : s.pmmFreePageCount ≠ 0 := by
    intro zero
    rw [zero] at count
    have positive : 0 < (0 : Word).toNat := by
      rw [count]
      omega
    exact absurd positive (by decide)
  obtain ⟨start, pages⟩ := vmmStart wf (freePages_lt small published) available
  have startNoNull : NoNull info.hhdmoffset (s.freeList - info.hhdmoffset)
      (info.zeroedRoot (popPage info.hhdmoffset s) (s.freeList - info.hhdmoffset)) := by
    intro page known
    apply noNull
    rw [← List.mem_reverse, ← published, pages, List.mem_cons]
    rw [start.isTable_iff] at known
    exact known.symm
  have length := congrArg List.length pages
  rw [length_freePages, List.length_cons, length_freePages] at length
  obtain ⟨final, mapped, used⟩ := start.implements.wf.mapAll_returns startNoNull unlocked
    (fun _ => flags_present) (fun mapping member => Or.inl (covered mapping member)) (by omega)
  refine ⟨final, ?_, by omega⟩
  rw [boot, initialised, Outcome.done_bind, vmmInit_eq_done]
  exact ⟨proceeds, _, _, pmmAlloc_eq wf.unlocked available, mapped⟩

end BootInfo

end Lord84
