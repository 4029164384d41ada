import Lord84.Mm.VmmRun

/-!
# Unmapping what is not mapped

`vmm_free_page` reuses the descent of `vmm_map_page`, so it allocates the tables that are
missing, and it frees the frame of the leaf entry without a look at the present bit.  For an
address without a translation the entry is zero, and physical page 0 goes to the free list.

The states are those that `pmm_alloc`, `pmm_free`, writes to memory, `vmm_map_page` and
`vmm_free_page` can reach.  An allocation may have failed in them; it leaves the allocator
locked, and `MmReady` therefore speaks about the tables apart from the lock.
-/

namespace Lord84

open Theory

/-- `kernel_unmap_pages` -/
def kernelUnmapPages (hhdmoffset : Word) (s : MmState) (addr size : Word) : Outcome MmState :=
  forRange 0 size.toNat
    (fun i s => vmmFreePage hhdmoffset s s.kernelPageMap (addr + BitVec.ofNat 64 i * pageSize)) s

/-! ## Runs of the allocator and the tables -/

/-- What the kernel does with physical memory and the tables of one root. -/
inductive MmOp where
  | alloc
  | free (page : Word)
  | write (address : Word) (value : Byte)
  | map (virtAddr physAddr flags : Word)
  | unmap (virtAddr : Word)
  deriving DecidableEq, Repr

/-- Execute one operation. -/
def mmStep (hhdmoffset root : Word) (s : MmState) : MmOp → Outcome MmState
  | .alloc => do
      let (_, s) ← pmmAlloc hhdmoffset s
      return s
  | .free page => pmmFree hhdmoffset s page
  | .write address value => .done { s with memory := s.memory.write8 address value }
  | .map virtAddr physAddr flags =>
      vmmMapPage hhdmoffset s (root + hhdmoffset) virtAddr physAddr flags
  | .unmap virtAddr => vmmFreePage hhdmoffset s (root + hhdmoffset) virtAddr

/-- A frame that may be given to the allocator: it is in use, it is no table, and the direct
map does not show it at `NULL`. -/
structure Spare (hhdmoffset root : Word) (s : MmState) (page : Word) : Prop where
  frame : IsFrame page
  nonNull : page + hhdmoffset ≠ 0
  notFree : page ∉ freePages hhdmoffset s
  notTable : ¬ IsTable s.memory root page

/-- The rules: only spare frames are freed, free pages and tables are not written, pages are
mapped as present, and only what is mapped to a spare frame is unmapped. -/
def MmAllowed (hhdmoffset root : Word) (s : MmState) : MmOp → Prop
  | .alloc => True
  | .free page => Spare hhdmoffset root s page
  | .write address _ => ∃ page, PageAligned page ∧ InPage page address ∧
      page ∉ freePages hhdmoffset s ∧ ¬ IsTable s.memory root page
  | .map _ _ flags => flags &&& pteBitPresent ≠ 0
  | .unmap virtAddr => ∃ entry, translate s.memory root virtAddr = some entry ∧
      Spare hhdmoffset root s (entry &&& addressMask)

/-- A zeroed root page that `pmm_alloc` has returned, in a direct map without a page at
`NULL`. -/
structure MmStart (hhdmoffset root : Word) (s : MmState) : Prop extends
    VmmStart hhdmoffset root s where
  rootNonNull : root ≠ 0 ∧ root + hhdmoffset ≠ 0
  freeNonNull : ∀ page ∈ freePages hhdmoffset s, page + hhdmoffset ≠ 0
  pageMap : s.kernelPageMap = root + hhdmoffset

/-! ## The invariant -/

/-- No table is at `NULL`, and a leaf entry that is not present is zero. -/
structure CleanTables (hhdmoffset root : Word) (memory : Memory) : Prop where
  aligned : ∀ page, IsTable memory root page → PageAligned page
  nonNull : ∀ page, IsTable memory root page → page ≠ 0 ∧ page + hhdmoffset ≠ 0
  leaf : ∀ path table index, path.length = 3 → tableAt memory root path = some table →
    child (entryAt memory table index) = none → entryAt memory table index = 0

/-- The tables and the free list are in order, but the allocator may be locked: then no page
is left. -/
structure MmReady (hhdmoffset root : Word) (s : MmState) : Prop where
  wf : TablesWF hhdmoffset root { s with pmmLock := false }
  clean : CleanTables hhdmoffset root s.memory
  freeNonNull : ∀ page ∈ freePages hhdmoffset s, page + hhdmoffset ≠ 0
  locked : s.pmmLock = true → s.pmmFreePageCount = 0
  pageMap : s.kernelPageMap = root + hhdmoffset

section Clean

variable {hhdmoffset root : Word} {s next : MmState} {before after : Memory}
variable {path : List (BitVec 9)} {table : Word} {index : BitVec 9}

theorem CleanTables.of_sameEntries (clean : CleanTables hhdmoffset root before)
    (same : SameEntries root before after) : CleanTables hhdmoffset root after where
  aligned page isTable := clean.aligned page ((same.isTable page).mp isTable)
  nonNull page isTable := clean.nonNull page ((same.isTable page).mp isTable)
  leaf path table index lowest found absent := by
    rw [same.tableAt (Nat.le_of_eq lowest)] at found
    have entry := same table ⟨path, Nat.le_of_eq lowest, found⟩ index
    rw [entry] at absent ⊢
    exact clean.leaf path table index lowest found absent

/-- The pointers to the tables pass the check for `NULL`. -/
theorem CleanTables.virtual (clean : CleanTables hhdmoffset root before) (page : Word)
    (isTable : IsTable before root page) : page + hhdmoffset ≠ 0 :=
  (clean.nonNull page isTable).2

/-- A new table is empty and lies at the bottom or above it. -/
theorem CleanTables.attachTable (clean : CleanTables hhdmoffset root s.memory)
    (wf : TablesWF hhdmoffset root s) (short : path.length < 3)
    (found : tableAt s.memory root path = some table)
    (vacant : child (entryAt s.memory table index) = none)
    (available : s.pmmFreePageCount ≠ 0) (physical : s.freeList - hhdmoffset ≠ 0)
    (virtual : s.freeList - hhdmoffset + hhdmoffset ≠ 0) :
    CleanTables hhdmoffset root (attachTable hhdmoffset s table index).memory where
  aligned := (wf.attachTable short found vacant available).tableAligned
  nonNull page isTable := by
    rcases (wf.isTable_attachTable short found vacant available page).mp isTable with rfl | old
    · exact ⟨physical, virtual⟩
    · exact clean.nonNull page old
  leaf query other position lowest reached absent := by
    have graft := wf.graft short found vacant available
    rw [tableAt, graft.node (Nat.le_of_eq lowest)] at reached
    split at reached
    · cases reached
      exact wf.entryAt_attachTable_fresh ⟨path, Nat.le_of_lt short, found⟩ available position
    next =>
      have different : (other, position) ≠ (table, index) := by
        intro equal
        rw [(Prod.mk.inj equal).1] at reached
        have same := wf.separated query path table (Nat.le_of_eq lowest) (Nat.le_of_lt short)
          reached found
        rw [same] at lowest
        omega
      rw [graft.elsewhere query other position (Nat.le_of_eq lowest) reached different]
        at absent ⊢
      exact clean.leaf query other position lowest reached absent

/-- Leaf entries may be written with present entries and with zero. -/
theorem CleanTables.writeEntry (clean : CleanTables hhdmoffset root s.memory)
    (wf : TablesWF hhdmoffset root s) (lowest : path.length = 3)
    (found : tableAt s.memory root path = some table) (index : BitVec 9) {value : Word}
    (proper : child value = none → value = 0) :
    CleanTables hhdmoffset root (writeEntry s table index value).memory := by
  have isTable : IsTable s.memory root table := ⟨path, Nat.le_of_eq lowest, found⟩
  have sameTables := wf.isTable_writeEntry lowest found index value
  constructor
  · exact fun page member => clean.aligned page ((sameTables page).mp member)
  · exact fun page member => clean.nonNull page ((sameTables page).mp member)
  · intro query other position bottom reached absent
    rw [wf.tableAt_writeEntry lowest found index value (Nat.le_of_eq bottom)] at reached
    by_cases here : (other, position) = (table, index)
    · obtain ⟨rfl, rfl⟩ := Prod.mk.inj here
      rw [Lord84.writeEntry, entryAt_write_self] at absent ⊢
      exact proper absent
    · have otherAligned := clean.aligned other ⟨query, Nat.le_of_eq bottom, reached⟩
      rw [wf.entryAt_writeEntry isTable value otherAligned here] at absent ⊢
      exact clean.leaf query other position bottom reached absent

end Clean

/-- The state after the frame `page` has been freed and entry `index` of `table` cleared. -/
def clearEntry (hhdmoffset : Word) (s : MmState) (page table : Word) (index : BitVec 9) :
    MmState :=
  writeEntry (pushPage hhdmoffset s page) table index 0

section Ready

variable {hhdmoffset root : Word} {s next : MmState}

theorem TablesWF.unlock (wf : TablesWF hhdmoffset root s) :
    TablesWF hhdmoffset root { s with pmmLock := false } :=
  ⟨⟨rfl, wf.pmm.nodup, wf.pmm.aligned⟩, wf.freeFrame, wf.tableAligned, wf.tableUsed,
    wf.separated, wf.interior⟩

/-- With the lock free, nothing is set apart. -/
theorem MmReady.tablesWF (ready : MmReady hhdmoffset root s) (unlocked : s.pmmLock = false) :
    TablesWF hhdmoffset root s :=
  ⟨⟨unlocked, ready.wf.pmm.nodup, ready.wf.pmm.aligned⟩, ready.wf.freeFrame,
    ready.wf.tableAligned, ready.wf.tableUsed, ready.wf.separated, ready.wf.interior⟩

theorem MmReady.of_unlocked (wf : TablesWF hhdmoffset root s)
    (clean : CleanTables hhdmoffset root s.memory)
    (freeNonNull : ∀ page ∈ freePages hhdmoffset s, page + hhdmoffset ≠ 0)
    (pageMap : s.kernelPageMap = root + hhdmoffset) : MmReady hhdmoffset root s where
  wf := wf.unlock
  clean
  freeNonNull
  locked held := by
    rw [wf.pmm.unlocked] at held
    cases held
  pageMap

theorem MmReady.setPageTableLock (ready : MmReady hhdmoffset root s) (lock : Bool) :
    MmReady hhdmoffset root { s with pageTableLock := lock } :=
  ⟨ready.wf.setPageTableLock lock, ready.clean, ready.freeNonNull, ready.locked, ready.pageMap⟩

theorem MmStart.ready (start : MmStart hhdmoffset root s) : MmReady hhdmoffset root s := by
  have wf := start.implements.wf
  have rootOnly := start.isTable_iff
  apply MmReady.of_unlocked wf _ start.freeNonNull start.pageMap
  constructor
  · exact wf.tableAligned
  · intro page isTable
    rw [(rootOnly page).mp isTable]
    exact start.rootNonNull
  · intro path table index lowest found _
    rw [(rootOnly table).mp ⟨path, Nat.le_of_eq lowest, found⟩, start.rootZero]

theorem MmReady.pushPage (ready : MmReady hhdmoffset root s) (unlocked : s.pmmLock = false)
    {page : Word} (spare : Spare hhdmoffset root s page) :
    MmReady hhdmoffset root (pushPage hhdmoffset s page) := by
  have wf := ready.tablesWF unlocked
  have same := wf.sameEntries_pushPage spare.frame spare.notTable
  apply MmReady.of_unlocked (wf.pushPage spare.frame spare.notTable spare.notFree)
    (ready.clean.of_sameEntries same) _ ready.pageMap
  intro other listed
  rw [wf.pmm.freePages_pushPage spare.frame.pageAligned spare.notFree, List.mem_cons] at listed
  rcases listed with rfl | old
  · exact spare.nonNull
  · exact ready.freeNonNull other old

theorem MmReady.writeEntry (ready : MmReady hhdmoffset root s) {path : List (BitVec 9)}
    {table : Word} (lowest : path.length = 3) (found : tableAt s.memory root path = some table)
    (index : BitVec 9) {value : Word} (proper : child value = none → value = 0) :
    MmReady hhdmoffset root (writeEntry s table index value) := by
  have isTable : IsTable s.memory root table := ⟨path, Nat.le_of_eq lowest, found⟩
  have sameFree := ready.wf.freePages_writeEntry isTable index value
  have clean := CleanTables.writeEntry (s := { s with pmmLock := false }) ready.clean ready.wf
    lowest found index proper
  refine ⟨ready.wf.writeEntry lowest found index value, clean, ?_, ready.locked, ready.pageMap⟩
  intro page listed
  exact ready.freeNonNull page (sameFree ▸ listed)

theorem MmReady.alloc (ready : MmReady hhdmoffset root s) {page : Word}
    (returned : pmmAlloc hhdmoffset s = .done (page, next)) : MmReady hhdmoffset root next := by
  obtain ⟨unlocked, ⟨empty, -, rfl⟩ | ⟨available, -, rfl⟩⟩ := pmmAlloc_cases returned
  · exact ⟨ready.wf, ready.clean, ready.freeNonNull, fun _ => empty, ready.pageMap⟩
  · apply MmReady.of_unlocked ((ready.tablesWF unlocked).popPage available) ready.clean _
      ready.pageMap
    intro other rest
    apply ready.freeNonNull
    rw [freePages_popPage available]
    exact List.mem_cons_of_mem _ rest

theorem MmReady.write (ready : MmReady hhdmoffset root s) {address : Word} (value : Byte)
    (allowed : MmAllowed hhdmoffset root s (.write address value)) :
    MmReady hhdmoffset root { s with memory := s.memory.write8 address value } := by
  obtain ⟨page, aligned, inside, notFree, notTable⟩ := allowed
  obtain ⟨wf, same, sameFree⟩ := @TablesWF.write8 _ _ _
    { s with memory := s.memory.write8 address value, pmmLock := false } ready.wf page address
    value aligned notFree notTable inside rfl rfl rfl rfl
  refine ⟨wf, ready.clean.of_sameEntries same, ?_, ready.locked, ready.pageMap⟩
  intro other listed
  exact ready.freeNonNull other (sameFree ▸ listed)

/-- One descent; it takes a page only if the lock is free. -/
theorem MmReady.getLowerTable (ready : MmReady hhdmoffset root s) {path : List (BitVec 9)}
    {table pointer : Word} {index : BitVec 9} (short : path.length < 3)
    (found : tableAt s.memory root path = some table)
    (returned : (getLowerTable hhdmoffset s (table + hhdmoffset) (index.setWidth 64) >>=
      killIfNull) = .done (pointer, next)) :
    ∃ lower, pointer = lower + hhdmoffset ∧
      tableAt next.memory root (path ++ [index]) = some lower ∧
      MmReady hhdmoffset root next ∧ SameMap hhdmoffset root s next := by
  obtain ⟨nonNull, ⟨lower, below, rfl, rfl⟩ |
    ⟨vacant, unlocked, available, physical, rfl, rfl⟩⟩ := getLowerTable_cases returned
  · exact ⟨lower, rfl, tableAt_concat found below, ready, SameMap.refl next⟩
  · have wf := ready.tablesWF unlocked
    obtain ⟨lower, pointer, reached, nextWF, same⟩ := wf.getLowerTable short found returned
    refine ⟨lower, pointer, reached, ?_, same⟩
    apply MmReady.of_unlocked nextWF _ _ ready.pageMap
    · exact ready.clean.attachTable wf short found vacant available physical nonNull
    · exact fun page listed => ready.freeNonNull page (same.free.subset listed)

/-- The descent to the page table of a virtual address. -/
theorem MmReady.lowestTable (ready : MmReady hhdmoffset root s) {virtAddr pointer : Word}
    (returned : lowestTable hhdmoffset s (root + hhdmoffset) virtAddr = .done (pointer, next)) :
    ∃ table, pointer = table + hhdmoffset ∧
      tableAt next.memory root (tablePath virtAddr) = some table ∧
      MmReady hhdmoffset root next ∧ SameMap hhdmoffset root s next := by
  refine @lowestTable_invariant hhdmoffset s next
    (fun path pointer current => ∃ table, pointer = table + hhdmoffset ∧
      tableAt current.memory root path = some table ∧
      MmReady hhdmoffset root current ∧ SameMap hhdmoffset root s current)
    ?_ virtAddr _ pointer ⟨root, rfl, rfl, ready, SameMap.refl s⟩ returned
  rintro path _ current index _ next short ⟨table, rfl, found, currentReady, same⟩ stepped
  obtain ⟨lower, rfl, lowerFound, nextReady, nextSame⟩ :=
    currentReady.getLowerTable short found stepped
  exact ⟨lower, rfl, lowerFound, nextReady, same.trans nextSame⟩

/-- A mapped page has a page table, and unmapping it allocates nothing. -/
theorem MmReady.vmmFreePage_mapped (ready : MmReady hhdmoffset root s) {virtAddr entry : Word}
    (mapped : translate s.memory root virtAddr = some entry)
    (returned : vmmFreePage hhdmoffset s (root + hhdmoffset) virtAddr = .done next) :
    ∃ table, tableAt s.memory root (tablePath virtAddr) = some table ∧ s.pmmLock = false ∧
      next = clearEntry hhdmoffset s (entry &&& addressMask) table (tableIndex virtAddr) := by
  obtain ⟨table, middle, descended, unlocked, rfl⟩ := vmmFreePage_cases returned
  have exists_table := mapped
  rw [translate_eq_lookup, RadixTree.lookup, Option.bind_eq_some_iff] at exists_table
  obtain ⟨page, found, -⟩ := exists_table
  rw [lowestTable_of_found ready.clean.virtual found] at descended
  obtain ⟨pointer, rfl⟩ := Prod.mk.inj (Outcome.done.inj descended)
  cases add_right_cancel pointer
  rw [entryAt_of_translate mapped found]
  exact ⟨table, found, unlocked, rfl⟩

/-- Every permitted operation that returns keeps the tables and the free list in order. -/
theorem MmReady.step (ready : MmReady hhdmoffset root s) {op : MmOp}
    (allowed : MmAllowed hhdmoffset root s op)
    (stepped : mmStep hhdmoffset root s op = .done next) : MmReady hhdmoffset root next := by
  cases op with
  | alloc =>
      obtain ⟨⟨page, state⟩, returned, done⟩ := Outcome.bind_eq_done.mp stepped
      cases done
      exact ready.alloc returned
  | free page =>
      obtain ⟨unlocked, rfl⟩ := pmmFree_cases stepped
      exact ready.pushPage unlocked allowed
  | write address value =>
      cases stepped
      exact ready.write value allowed
  | map virtAddr physAddr flags =>
      obtain ⟨lock, page, middle, descended, rfl⟩ := vmmMapPage_cases stepped
      obtain ⟨table, pointer, found, middleReady, -⟩ :=
        (ready.setPageTableLock lock).lowestTable descended
      cases add_right_cancel pointer
      apply MmReady.setPageTableLock
      apply middleReady.writeEntry (length_tablePath virtAddr) found
      intro absent
      exact absurd (child_eq_none_iff.mp absent) (present_or allowed physAddr)
  | unmap virtAddr =>
      obtain ⟨entry, mapped, spare⟩ := allowed
      obtain ⟨table, found, unlocked, rfl⟩ := ready.vmmFreePage_mapped mapped stepped
      have pushed := ready.pushPage unlocked spare
      apply pushed.writeEntry (length_tablePath virtAddr)
      · rw [((ready.tablesWF unlocked).sameEntries_pushPage spare.frame spare.notTable).tableAt
          (Nat.le_of_eq (length_tablePath virtAddr)), found]
      · exact fun _ => rfl

end Ready

/-! ## The free list after `vmm_free_page` -/

section FreeList

variable {hhdmoffset root : Word} {s next : MmState} {path : List (BitVec 9)}
variable {table page : Word} {index : BitVec 9}

/-- Two words change: the link of the frame and the entry. -/
theorem entryAt_clearEntry (frame : IsFrame page) (tableAligned : PageAligned table)
    {other : Word} {position : BitVec 9} (otherAligned : PageAligned other)
    (notLink : (other, position) ≠ (page, 0)) (notEntry : (other, position) ≠ (table, index)) :
    entryAt (clearEntry hhdmoffset s page table index).memory other position =
      entryAt s.memory other position := by
  have first : page = entryAddress page 0 := by
    simp [entryAddress]
  rw [clearEntry, writeEntry, entryAt_write_of_ne _ _ tableAligned otherAligned notEntry]
  simp only [pushPage]
  rw [first, entryAt_write_of_ne _ _ frame.pageAligned otherAligned notLink]

/-- The freed frame is linked to the old free list, unless its link is the entry that is
cleared. -/
theorem link_clearEntry (frame : IsFrame page) (tableAligned : PageAligned table) :
    (clearEntry hhdmoffset s page table index).memory.read64 page =
      if (page, 0) = (table, index) then 0 else s.freeList := by
  rw [read64_eq_entryAt, clearEntry, writeEntry]
  by_cases here : (page, 0) = (table, index)
  · obtain ⟨rfl, rfl⟩ := Prod.mk.inj here
    rw [entryAt_write_self, if_pos rfl]
  · rw [entryAt_write_of_ne _ _ tableAligned frame.pageAligned here, if_neg here,
      ← read64_eq_entryAt]
    exact Memory.read64_write64 _ _ _

/-- No page but the freed frame comes onto the free list. -/
theorem TablesWF.mem_freePages_clearEntry (wf : TablesWF hhdmoffset root s)
    (isTable : IsTable s.memory root table) (frame : IsFrame page)
    (linked : (page, 0) = (table, index) → s.pmmFreePageCount = 0) {other : Word}
    (listed : other ∈ freePages hhdmoffset (clearEntry hhdmoffset s page table index)) :
    other = page ∨ other ∈ freePages hhdmoffset s := by
  have bound := wf.pmm.count_lt
  have tableAligned := wf.tableAligned table isTable
  have count : (s.pmmFreePageCount + 1).toNat = s.pmmFreePageCount.toNat + 1 := by
    bv_omega
  have direct : page + hhdmoffset - hhdmoffset = page := add_sub_cancel_right _ _
  obtain ⟨pointer, visited, rfl⟩ := List.mem_map.mp listed
  have visited : pointer ∈ List.iterate
      (load64 hhdmoffset (clearEntry hhdmoffset s page table index).memory) (page + hhdmoffset)
      (s.pmmFreePageCount.toNat + 1) := by
    rw [← count]
    exact visited
  have follows : s.pmmFreePageCount.toNat ≠ 0 →
      load64 hhdmoffset (clearEntry hhdmoffset s page table index).memory (page + hhdmoffset) =
        s.freeList := by
    intro nonempty
    rw [load64, direct, link_clearEntry frame tableAligned, if_neg]
    intro here
    exact nonempty (congrArg BitVec.toNat (linked here))
  have agree : ∀ other ∈ List.iterate (load64 hhdmoffset s.memory) s.freeList
        s.pmmFreePageCount.toNat, other ≠ page + hhdmoffset →
      load64 hhdmoffset (clearEntry hhdmoffset s page table index).memory other =
        load64 hhdmoffset s.memory other := by
    intro other visited different
    have old : other - hhdmoffset ∈ freePages hhdmoffset s := List.mem_map_of_mem visited
    rw [load64, load64, read64_eq_entryAt, read64_eq_entryAt]
    apply entryAt_clearEntry frame tableAligned (wf.pmm.aligned _ old)
    · intro equal
      apply different
      rw [← (Prod.mk.inj equal).1, sub_add_cancel]
    · intro equal
      exact wf.tableUsed table isTable ((Prod.mk.inj equal).1 ▸ old)
  rcases mem_iterate_push follows agree visited with rfl | old
  · exact Or.inl direct
  · exact Or.inr (List.mem_map_of_mem old)

/-- If the link of the freed frame is the entry that is cleared, then the free list goes on
at `NULL`. -/
theorem TablesWF.null_mem_freePages_clearEntry (wf : TablesWF hhdmoffset root s)
    (isTable : IsTable s.memory root table) (frame : IsFrame table)
    (available : s.pmmFreePageCount ≠ 0) :
    0 - hhdmoffset ∈ freePages hhdmoffset (clearEntry hhdmoffset s table table 0) := by
  have bound := wf.pmm.count_lt
  have direct : table + hhdmoffset - hhdmoffset = table := add_sub_cancel_right _ _
  have link : load64 hhdmoffset (clearEntry hhdmoffset s table table 0).memory
      (table + hhdmoffset) = 0 := by
    rw [load64, direct, link_clearEntry frame (wf.tableAligned table isTable), if_pos rfl]
  refine List.mem_map.mpr ⟨0, List.mem_iterate.mpr ⟨1, ?_, link.symm⟩, rfl⟩
  simp only [clearEntry, Lord84.writeEntry, Lord84.pushPage]
  bv_omega

end FreeList

/-! ## One call -/

/-- No translation, no page of the free list and not the number of free pages changed. -/
structure Unchanged (hhdmoffset root : Word) (s next : MmState) : Prop where
  translate : ∀ virtAddr, translate next.memory root virtAddr = translate s.memory root virtAddr
  free : ∀ page, page ∈ freePages hhdmoffset next ↔ page ∈ freePages hhdmoffset s
  count : next.pmmFreePageCount = s.pmmFreePageCount

/-- The call returns and leaves everything as it was. -/
def Harmless (hhdmoffset root : Word) (s : MmState) (result : Outcome MmState) : Prop :=
  ∃ next, result = .done next ∧ Unchanged hhdmoffset root s next

/-- Only the page to which `virtAddr` was mapped comes onto the free list. -/
def FreesTargetOnly (hhdmoffset root : Word) (s : MmState) (virtAddr : Word)
    (result : Outcome MmState) : Prop :=
  ∀ next, result = .done next → ∀ page ∈ freePages hhdmoffset next,
    page ∈ freePages hhdmoffset s ∨
      ∃ entry, translate s.memory root virtAddr = some entry ∧ page = entry &&& addressMask

/-- What `vmm_free_page` should do: nothing for an address that is not mapped, and in no case
free anything but the target. -/
def VmmFreePageSound (hhdmoffset root : Word) (s : MmState) (virtAddr : Word) : Prop :=
  (translate s.memory root virtAddr = none →
    Harmless hhdmoffset root s (vmmFreePage hhdmoffset s (root + hhdmoffset) virtAddr)) ∧
  FreesTargetOnly hhdmoffset root s virtAddr
    (vmmFreePage hhdmoffset s (root + hhdmoffset) virtAddr)

/-- The address is mapped, but not to the page table in which its own entry is the first,
with further pages on the free list. -/
def MappedElsewhere (root : Word) (s : MmState) (virtAddr : Word) : Prop :=
  ∃ entry, translate s.memory root virtAddr = some entry ∧
    ¬ (tableAt s.memory root (tablePath virtAddr) = some (entry &&& addressMask) ∧
      tableIndex virtAddr = 0 ∧ s.pmmFreePageCount ≠ 0)

/-- The state after `calls` calls of `vmm_free_page` for addresses without a translation.
Page 0 is the first page of the free list, and either no call found a table missing, so that
each has counted one page, or a page was lost to the tables. -/
structure Poisoned (hhdmoffset root : Word) (s : MmState) (calls : Nat) (next : MmState) :
    Prop where
  head : next.freeList = hhdmoffset
  clean : CleanTables hhdmoffset root next.memory
  translate : ∀ virtAddr, translate next.memory root virtAddr = translate s.memory root virtAddr
  pageMap : next.kernelPageMap = root + hhdmoffset
  harm : next.pmmFreePageCount = s.pmmFreePageCount + BitVec.ofNat 64 calls ∨
    ∃ page ∈ freePages hhdmoffset s, page ≠ 0 ∧ page ∉ freePages hhdmoffset next

section OneCall

variable {hhdmoffset root : Word} {s next : MmState} {table virtAddr : Word}

theorem isFrame_zero : IsFrame 0 := by
  decide

/-- The leaf entry of an address without a translation is zero. -/
theorem CleanTables.entry_eq_zero {memory : Memory}
    (clean : CleanTables hhdmoffset root memory)
    (found : tableAt memory root (tablePath virtAddr) = some table)
    (unmapped : Lord84.translate memory root virtAddr = none) :
    entryAt memory table (tableIndex virtAddr) = 0 := by
  apply clean.leaf _ _ _ (length_tablePath virtAddr) found
  rw [translate_eq_lookup, RadixTree.lookup] at unmapped
  rw [tableAt] at found
  rw [found, Option.bind_some, Option.map_eq_none_iff] at unmapped
  exact unmapped

/-- Freeing page 0 and clearing an entry that is zero leave all tables alone. -/
theorem CleanTables.sameEntries_clearEntry (clean : CleanTables hhdmoffset root s.memory)
    (isTable : IsTable s.memory root table) {index : BitVec 9}
    (zero : entryAt s.memory table index = 0) :
    SameEntries root s.memory (clearEntry hhdmoffset s 0 table index).memory := by
  intro other isOther position
  by_cases here : (other, position) = (table, index)
  · obtain ⟨rfl, rfl⟩ := Prod.mk.inj here
    rw [clearEntry, Lord84.writeEntry, entryAt_write_self, zero]
  · refine entryAt_clearEntry isFrame_zero (clean.aligned table isTable)
      (clean.aligned other isOther) ?_ here
    intro equal
    exact (clean.nonNull other isOther).1 (Prod.mk.inj equal).1

/-- A page table that was missing has been taken from the free list. -/
theorem SameMap.mem_freePages_of_missing {middle : MmState}
    (same : SameMap hhdmoffset root s middle) (wf : TablesWF hhdmoffset root middle)
    (missing : tableAt s.memory root (tablePath virtAddr) = none)
    (found : tableAt middle.memory root (tablePath virtAddr) = some table) :
    table ∈ freePages hhdmoffset s := by
  have lowest := Nat.le_of_eq (length_tablePath virtAddr)
  rcases (same.pages table).mp (Or.inr ⟨_, lowest, found⟩) with listed | ⟨path, short, old⟩
  · exact listed
  · have path_eq := wf.separated path _ table short lowest (same.tables path table short old) found
    rw [path_eq, missing] at old
    cases old

/-- A call that frees page 0 and clears an entry that is zero. -/
theorem CleanTables.poisoned {calls : Nat} {middle : MmState}
    (clean : CleanTables hhdmoffset root middle.memory)
    (isTable : IsTable middle.memory root table) {index : BitVec 9}
    (zero : entryAt middle.memory table index = 0)
    (same : ∀ query, translate middle.memory root query = translate s.memory root query)
    (pageMap : middle.kernelPageMap = root + hhdmoffset)
    (harm : middle.pmmFreePageCount + 1 = s.pmmFreePageCount + BitVec.ofNat 64 calls ∨
      ∃ page ∈ freePages hhdmoffset s, page ≠ 0 ∧
        page ∉ freePages hhdmoffset (clearEntry hhdmoffset middle 0 table index)) :
    Poisoned hhdmoffset root s calls
      (clearEntry hhdmoffset middle (entryAt middle.memory table index &&& addressMask) table
        index) := by
  have kept := clean.sameEntries_clearEntry isTable zero
  rw [zero, show (0 : Word) &&& addressMask = 0 by decide]
  constructor
  · exact zero_add hhdmoffset
  · exact clean.of_sameEntries kept
  · exact fun query => (kept.translate query).trans (same query)
  · exact pageMap
  · exact harm

/-- The first call for an address without a translation. -/
theorem MmReady.poisoned (ready : MmReady hhdmoffset root s)
    (unmapped : translate s.memory root virtAddr = none)
    (returned : vmmFreePage hhdmoffset s (root + hhdmoffset) virtAddr = .done next) :
    Poisoned hhdmoffset root s 1 next := by
  obtain ⟨page, middle, descended, unlocked, rfl⟩ := vmmFreePage_cases returned
  obtain ⟨table, pointer, found, middleReady, same⟩ := ready.lowestTable descended
  cases add_right_cancel pointer
  have isTable := isTable_of_found found
  have nonNull := (middleReady.clean.nonNull page isTable).1
  have zero := middleReady.clean.entry_eq_zero found ((same.translate virtAddr).trans unmapped)
  have wf := middleReady.tablesWF unlocked
  apply middleReady.clean.poisoned isTable zero same.translate middleReady.pageMap
  cases known : tableAt s.memory root (tablePath virtAddr) with
  | some old =>
      rw [lowestTable_of_found ready.clean.virtual known] at descended
      cases (Prod.mk.inj (Outcome.done.inj descended)).2
      exact Or.inl rfl
  | none =>
      refine Or.inr ⟨page, same.mem_freePages_of_missing wf known found, nonNull, ?_⟩
      intro listed
      rcases wf.mem_freePages_clearEntry isTable isFrame_zero
        (fun here => absurd (Prod.mk.inj here).1.symm nonNull) listed with isNull | free
      · exact nonNull isNull
      · exact wf.tableUsed page isTable free

/-- With page 0 at its head, the free list is of no use for a table: a descent that returns
has found all of them. -/
theorem lowestTable_of_nullHead {pointer : Word} (head : s.freeList = hhdmoffset)
    (returned : lowestTable hhdmoffset s (root + hhdmoffset) virtAddr = .done (pointer, next)) :
    next = s ∧ ∃ table, pointer = table + hhdmoffset ∧
      tableAt s.memory root (tablePath virtAddr) = some table := by
  refine @lowestTable_invariant hhdmoffset s next
    (fun path pointer current => current = s ∧ ∃ table, pointer = table + hhdmoffset ∧
      tableAt s.memory root path = some table)
    ?_ virtAddr _ pointer ⟨rfl, root, rfl, rfl⟩ returned
  rintro path _ current index lower next - ⟨rfl, table, rfl, found⟩ stepped
  obtain ⟨lower, below, rfl, rfl⟩ | ⟨-, -, -, physical, -⟩ := (getLowerTable_cases stepped).2
  · exact ⟨rfl, lower, rfl, tableAt_concat found below⟩
  · rw [head, sub_self] at physical
    exact absurd rfl physical

/-- A second free of page 0 links it to itself. -/
theorem CleanTables.eq_zero_of_mem_clearEntry (clean : CleanTables hhdmoffset root s.memory)
    (isTable : IsTable s.memory root table) {index : BitVec 9} {page : Word}
    (head : s.freeList = hhdmoffset)
    (listed : page ∈ freePages hhdmoffset (clearEntry hhdmoffset s 0 table index)) :
    page = 0 := by
  have nonNull := (clean.nonNull table isTable).1
  have circle : load64 hhdmoffset (clearEntry hhdmoffset s 0 table index).memory
      (0 + hhdmoffset) = 0 + hhdmoffset := by
    rw [load64, add_sub_cancel_right, link_clearEntry isFrame_zero (clean.aligned table isTable),
      if_neg (fun here => nonNull (Prod.mk.inj here).1.symm), head, zero_add]
  obtain ⟨pointer, visited, rfl⟩ := List.mem_map.mp listed
  rw [eq_of_mem_iterate_fixed circle visited, add_sub_cancel_right]

/-- Every further call. -/
theorem Poisoned.step {calls : Nat} {middle : MmState}
    (poisoned : Poisoned hhdmoffset root s calls middle)
    (unmapped : Lord84.translate s.memory root virtAddr = none)
    (returned : vmmFreePage hhdmoffset middle (root + hhdmoffset) virtAddr = .done next) :
    Poisoned hhdmoffset root s (calls + 1) next := by
  obtain ⟨page, same, descended, -, rfl⟩ := vmmFreePage_cases returned
  obtain ⟨rfl, table, pointer, found⟩ := lowestTable_of_nullHead poisoned.head descended
  cases add_right_cancel pointer
  have isTable := isTable_of_found found
  have zero := poisoned.clean.entry_eq_zero found ((poisoned.translate virtAddr).trans unmapped)
  apply poisoned.clean.poisoned isTable zero poisoned.translate poisoned.pageMap
  rcases poisoned.harm with count | ⟨lost, listed, nonNull, -⟩
  · refine Or.inl ?_
    rw [count, BitVec.ofNat_add, add_assoc]
    rfl
  · refine Or.inr ⟨lost, listed, nonNull, ?_⟩
    intro again
    exact nonNull (poisoned.clean.eq_zero_of_mem_clearEntry isTable poisoned.head again)

theorem Poisoned.not_unchanged {calls : Nat} (poisoned : Poisoned hhdmoffset root s calls next)
    (positive : 0 < calls) (small : calls < 2 ^ 64) : ¬ Unchanged hhdmoffset root s next := by
  intro unchanged
  rcases poisoned.harm with count | ⟨lost, listed, -, gone⟩
  · rw [unchanged.count] at count
    have noCalls : BitVec.ofNat 64 calls = 0 := left_eq_add.mp count
    have zero := congrArg BitVec.toNat noCalls
    rw [BitVec.toNat_ofNat, Nat.mod_eq_of_lt small] at zero
    exact Nat.ne_of_gt positive zero
  · exact gone ((unchanged.free lost).mpr listed)

/-- `vmm_free_page` is never harmless for an address without a translation. -/
theorem MmReady.not_harmless (ready : MmReady hhdmoffset root s)
    (unmapped : translate s.memory root virtAddr = none) :
    ¬ Harmless hhdmoffset root s (vmmFreePage hhdmoffset s (root + hhdmoffset) virtAddr) := by
  rintro ⟨next, returned, unchanged⟩
  exact (ready.poisoned unmapped returned).not_unchanged (by decide) (by decide) unchanged

/-- With the page table in place, `vmm_free_page` frees the frame of the entry and clears
it. -/
theorem vmmFreePage_of_found
    (nonNull : ∀ page, IsTable s.memory root page → page + hhdmoffset ≠ 0)
    (unlocked : s.pmmLock = false)
    (found : tableAt s.memory root (tablePath virtAddr) = some table) :
    vmmFreePage hhdmoffset s (root + hhdmoffset) virtAddr =
      .done (clearEntry hhdmoffset s
        (entryAt s.memory table (tableIndex virtAddr) &&& addressMask) table
        (tableIndex virtAddr)) := by
  rw [vmmFreePage, lowestTable_of_found nonNull found, Outcome.done_bind, offset_eq_digit]
  simp only [load64_entry, store64_entry]
  rw [pmmFree_eq unlocked, Outcome.done_bind]
  rfl

/-- `vmm_free_page` does what it should exactly for addresses that are mapped elsewhere than
to the table whose first entry maps them. -/
theorem MmReady.vmmFreePageSound_iff (ready : MmReady hhdmoffset root s) (virtAddr : Word) :
    VmmFreePageSound hhdmoffset root s virtAddr ↔ MappedElsewhere root s virtAddr := by
  cases mapped : translate s.memory root virtAddr with
  | none =>
      constructor
      · intro sound
        exact absurd (sound.1 mapped) (ready.not_harmless mapped)
      · rintro ⟨entry, alsoMapped, -⟩
        rw [mapped] at alsoMapped
        cases alsoMapped
  | some entry =>
      have frame := isFrame_and_addressMask entry
      constructor
      · intro sound
        refine ⟨entry, mapped, ?_⟩
        rintro ⟨own, first, available⟩
        have isTable := isTable_of_found own
        have unlocked : s.pmmLock = false :=
          Bool.eq_false_iff.mpr fun held => available (ready.locked held)
        have returned := vmmFreePage_of_found ready.clean.virtual unlocked own
        rw [entryAt_of_translate mapped own, first] at returned
        have null := (ready.tablesWF unlocked).null_mem_freePages_clearEntry isTable frame available
        rcases sound.2 _ returned _ null with listed | ⟨target, alsoMapped, equal⟩
        · exact ready.freeNonNull _ listed (sub_add_cancel 0 hhdmoffset)
        · cases mapped.symm.trans alsoMapped
          apply (ready.clean.nonNull _ isTable).2
          rw [← equal, sub_add_cancel]
      · rintro ⟨target, alsoMapped, elsewhere⟩
        cases mapped.symm.trans alsoMapped
        refine ⟨fun unmapped => absurd (mapped.symm.trans unmapped) (Option.some_ne_none _), ?_⟩
        intro next returned page listed
        obtain ⟨table, found, unlocked, rfl⟩ := ready.vmmFreePage_mapped mapped returned
        have isTable := isTable_of_found found
        have linked : (entry &&& addressMask, (0 : BitVec 9)) = (table, tableIndex virtAddr) →
            s.pmmFreePageCount = 0 := by
          intro here
          obtain ⟨own, first⟩ := Prod.mk.inj here
          by_contra available
          exact elsewhere ⟨own ▸ found, first.symm, available⟩
        rcases (ready.tablesWF unlocked).mem_freePages_clearEntry isTable frame linked listed
          with isTarget | old
        · exact Or.inr ⟨entry, mapped, isTarget⟩
        · exact Or.inl old

/-- `kernel_unmap_pages` over addresses without a translation is harmless exactly if the
range is empty. -/
theorem MmReady.kernelUnmapPages_harmless_iff (ready : MmReady hhdmoffset root s)
    {addr size : Word} (unmapped : ∀ i < size.toNat,
      translate s.memory root (addr + BitVec.ofNat 64 i * pageSize) = none) :
    Harmless hhdmoffset root s (kernelUnmapPages hhdmoffset s addr size) ↔ size = 0 := by
  constructor
  · rintro ⟨final, finished, unchanged⟩
    by_contra nonzero
    have positive : 0 < size.toNat := by
      apply Nat.pos_of_ne_zero
      exact fun zero => nonzero (BitVec.eq_of_toNat_eq zero)
    have reached : (size.toNat = 0 ∧ final = s) ∨
        (0 < size.toNat ∧ Poisoned hhdmoffset root s size.toNat final) := by
      refine @forRange_invariant _
        (fun i current => (i = 0 ∧ current = s) ∨ (0 < i ∧ Poisoned hhdmoffset root s i current))
        _ _ _ ?_ _ _ (Nat.zero_le _) (Or.inl ⟨rfl, rfl⟩) finished
      intro i current next _ below before stepped
      refine Or.inr ⟨Nat.succ_pos i, ?_⟩
      rcases before with ⟨rfl, rfl⟩ | ⟨-, poisoned⟩
      · rw [ready.pageMap] at stepped
        exact ready.poisoned (unmapped 0 below) stepped
      · rw [poisoned.pageMap] at stepped
        exact poisoned.step (unmapped i below) stepped
    rcases reached with ⟨zero, -⟩ | ⟨-, poisoned⟩
    · exact Nat.ne_of_gt positive zero
    · exact poisoned.not_unchanged positive size.isLt unchanged
  · rintro rfl
    exact ⟨s, rfl, fun _ => rfl, fun _ => Iff.rfl, rfl⟩

end OneCall

/-! ## Reachable states -/

/-- In every reachable state, `vmm_free_page` does what it should exactly for addresses that
are mapped elsewhere than to the table whose first entry maps them, and `kernel_unmap_pages`
over addresses without a translation is harmless exactly if the range is empty. -/
theorem vmm_free_page_sound_iff {hhdmoffset root : Word} {initial s : MmState} {ops : List MmOp}
    (start : MmStart hhdmoffset root initial)
    (permitted : Along (mmStep hhdmoffset root) (MmAllowed hhdmoffset root) initial ops)
    (reached : run (mmStep hhdmoffset root) initial ops = .done s) :
    (∀ virtAddr, VmmFreePageSound hhdmoffset root s virtAddr ↔ MappedElsewhere root s virtAddr) ∧
    ∀ addr size,
      (∀ i < size.toNat,
        translate s.memory root (addr + BitVec.ofNat 64 i * pageSize) = none) →
      (Harmless hhdmoffset root s (kernelUnmapPages hhdmoffset s addr size) ↔ size = 0) := by
  have ready : MmReady hhdmoffset root s :=
    run_invariant (fun _ _ _ kept allowed stepped => kept.step allowed stepped) start.ready
      permitted reached
  exact ⟨ready.vmmFreePageSound_iff, fun _ _ => ready.kernelUnmapPages_harmless_iff⟩

/-- A zeroed root page at `0x1000`, which is the kernel's page map, and three free frames
behind it. -/
def freshTables : MmState :=
  { [0x2000, 0x3000, 0x4000].foldl (pushPage 0xffff800000000000) (.boot fun _ => 0) with
    kernelPageMap := 0xffff800000001000 }

theorem freshTables_start : MmStart 0xffff800000000000 0x1000 freshTables := by
  obtain ⟨start, pages, noNull⟩ := threeFrames_start
  refine ⟨⟨start.unlocked, start.nodup, start.frames, start.rootAligned, start.rootUsed,
    start.rootZero⟩, by decide, ?_, by decide⟩
  exact fun page listed => (noNull page (Or.inl listed)).2

/-- One page is mapped, and its neighbour is not. -/
theorem freshTables_map : ∃ s table,
    run (mmStep 0xffff800000000000 0x1000) freshTables [.map 0x401000 0x9000 0x3] = .done s ∧
    MmReady 0xffff800000000000 0x1000 s ∧ s.pmmLock = false ∧
    translate s.memory 0x1000 0x401000 = some 0x9003 ∧
    translate s.memory 0x1000 0x402000 = none ∧
    tableAt s.memory 0x1000 (tablePath 0x402000) = some table := by
  have start := freshTables_start
  have wf := start.implements.wf
  obtain ⟨-, -, noNull⟩ := threeFrames_start
  have room : 3 ≤ freshTables.pmmFreePageCount.toNat := by decide
  obtain ⟨s, stepped, -⟩ := wf.vmmMapPage_returns noNull rfl room 0x401000 0x9000 0x3
  have mapped := wf.vmmMapPage (by decide) stepped
  obtain ⟨table, found⟩ := mapped.reached
  have present : (0x3 : Word) &&& pteBitPresent ≠ 0 := by decide
  have ready := @MmReady.step _ _ _ _ start.ready (.map 0x401000 0x9000 0x3) present stepped
  refine ⟨s, table, ?_, ready, mapped.wf.pmm.unlocked, ?_, ?_, found⟩
  · rw [run_cons, mmStep, stepped]
    rfl
  · rw [mapped.translate, if_pos rfl]
    rfl
  · rw [mapped.translate, if_neg (by decide), start.implements.translate]

/-- Unmapping the page that is mapped frees its frame and nothing else. -/
theorem vmm_free_page_sound_mapped : ∃ s,
    run (mmStep 0xffff800000000000 0x1000) freshTables [.map 0x401000 0x9000 0x3] = .done s ∧
    VmmFreePageSound 0xffff800000000000 0x1000 s 0x401000 := by
  obtain ⟨s, table, reached, -, -, mapped, -⟩ := freshTables_map
  have present : (0x3 : Word) &&& pteBitPresent ≠ 0 := by decide
  have permitted : Along (mmStep 0xffff800000000000 0x1000) (MmAllowed 0xffff800000000000 0x1000)
      freshTables [.map 0x401000 0x9000 0x3] := ⟨present, fun _ _ => trivial⟩
  have sound := (vmm_free_page_sound_iff freshTables_start permitted reached).1
  refine ⟨s, reached, (sound 0x401000).mpr ⟨_, mapped, ?_⟩⟩
  rintro ⟨-, first, -⟩
  exact absurd first (by decide)

/-- Unmapping its neighbour puts page 0 on the free list. -/
theorem vmm_free_page_frees_null : ∃ s next,
    run (mmStep 0xffff800000000000 0x1000) freshTables [.map 0x401000 0x9000 0x3] = .done s ∧
    translate s.memory 0x1000 0x402000 = none ∧
    vmmFreePage 0xffff800000000000 s (0x1000 + 0xffff800000000000) 0x402000 = .done next ∧
    next.freeList = 0 + 0xffff800000000000 ∧
    next.pmmFreePageCount = s.pmmFreePageCount + 1 ∧
    ¬ VmmFreePageSound 0xffff800000000000 0x1000 s 0x402000 := by
  obtain ⟨s, table, reached, ready, unlocked, -, unmapped, found⟩ := freshTables_map
  have returned := vmmFreePage_of_found ready.clean.virtual unlocked found
  rw [ready.clean.entry_eq_zero found unmapped] at returned
  refine ⟨s, _, reached, unmapped, returned, rfl, rfl, ?_⟩
  intro sound
  exact ready.not_harmless unmapped (sound.1 unmapped)

end Lord84
