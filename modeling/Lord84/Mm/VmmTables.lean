import Lord84.Mm.Vmm

/-!
# The shape of the page tables

`TablesWF` is the invariant of the tables below one root: they form a tree, they are
pages, none of them is on the free list, and every entry above the lowest level is
one that `get_lower_table` wrote.  Each operation of `vmm.c` is shown to keep the
invariant, and its effect on the translations is stated once.
-/

namespace Lord84

open Theory

/-- The page is one of the tables below `root`. -/
def IsTable (memory : Memory) (root page : Word) : Prop :=
  ∃ path, path.length ≤ 3 ∧ tableAt memory root path = some page

/-- Well-formed page tables next to a well-formed allocator. -/
structure TablesWF (hhdmoffset root : Word) (s : MmState) : Prop where
  pmm : PmmWF hhdmoffset s
  freeFrame : ∀ page ∈ freePages hhdmoffset s, IsFrame page
  tableAligned : ∀ page, IsTable s.memory root page → PageAligned page
  tableUsed : ∀ page, IsTable s.memory root page → page ∉ freePages hhdmoffset s
  separated : RadixTree.Separated child (entryAt s.memory) root 3
  interior : ∀ path table index next, path.length < 3 →
    tableAt s.memory root path = some table →
    child (entryAt s.memory table index) = some next →
    entryAt s.memory table index = tableEntry next

/-- `next` has the translations of `s`, and its tables and free pages are made of the
same pages; pages of the free list may have become tables. -/
structure SameMap (hhdmoffset root : Word) (s next : MmState) : Prop where
  translate : ∀ virtAddr, translate next.memory root virtAddr = translate s.memory root virtAddr
  tables : ∀ path table, path.length ≤ 3 →
    tableAt s.memory root path = some table → tableAt next.memory root path = some table
  pages : ∀ page, (page ∈ freePages hhdmoffset next ∨ IsTable next.memory root page) ↔
    (page ∈ freePages hhdmoffset s ∨ IsTable s.memory root page)
  free : freePages hhdmoffset next <:+ freePages hhdmoffset s
  lock : next.pageTableLock = s.pageTableLock
  pageMap : next.kernelPageMap = s.kernelPageMap

section Tables

variable {hhdmoffset root : Word} {s next : MmState}

theorem SameMap.refl (s : MmState) : SameMap hhdmoffset root s s where
  translate _ := rfl
  tables _ _ _ found := found
  pages _ := Iff.rfl
  free := List.suffix_refl _
  lock := rfl
  pageMap := rfl

theorem SameMap.trans {final : MmState} (first : SameMap hhdmoffset root s next)
    (second : SameMap hhdmoffset root next final) : SameMap hhdmoffset root s final where
  translate virtAddr := (second.translate virtAddr).trans (first.translate virtAddr)
  tables path table short found :=
    second.tables path table short (first.tables path table short found)
  pages page := (second.pages page).trans (first.pages page)
  free := second.free.trans first.free
  lock := second.lock.trans first.lock
  pageMap := second.pageMap.trans first.pageMap

theorem isTable_root (memory : Memory) (root : Word) : IsTable memory root root :=
  ⟨[], by simp, rfl⟩

theorem isTable_of_found {memory : Memory} {virtAddr table : Word}
    (found : tableAt memory root (tablePath virtAddr) = some table) :
    IsTable memory root table :=
  ⟨_, Nat.le_of_eq (length_tablePath virtAddr), found⟩

theorem tableAt_concat {memory : Memory} {path : List (BitVec 9)} {table lower : Word}
    {index : BitVec 9} (found : tableAt memory root path = some table)
    (below : child (entryAt memory table index) = some lower) :
    tableAt memory root (path ++ [index]) = some lower := by
  rw [tableAt] at found
  rw [tableAt, RadixTree.node_concat, found]
  exact below

/-- The entry of a new table leads to that table. -/
theorem child_tableEntry {table : Word} (frame : IsFrame table) :
    child (tableEntry table) = some table := by
  rw [child_eq_some_iff]
  constructor
  · intro absent
    have bit := congrArg (fun entry => entry.getLsbD 0) absent
    simp [tableEntry, presentBit, pteBitPresent, pteBitRw, pteBitUs] at bit
  · rw [tableEntry]
    simp only [BitVec.and_or_distrib_right]
    rw [frame, show pteBitPresent &&& addressMask = 0#64 by decide,
      show pteBitRw &&& addressMask = 0#64 by decide,
      show pteBitUs &&& addressMask = 0#64 by decide]
    simp

/-! ## Attaching a table -/

section Attach

variable {path : List (BitVec 9)} {table : Word} {index : BitVec 9}

theorem freeList_mem (available : s.pmmFreePageCount ≠ 0) :
    s.freeList - hhdmoffset ∈ freePages hhdmoffset s := by
  rw [freePages_popPage available]
  exact List.mem_cons_self

/-- A new table is empty. -/
theorem TablesWF.entryAt_attachTable_fresh (wf : TablesWF hhdmoffset root s)
    (isTable : IsTable s.memory root table) (available : s.pmmFreePageCount ≠ 0)
    (position : BitVec 9) :
    entryAt (attachTable hhdmoffset s table index).memory (s.freeList - hhdmoffset) position =
      0 := by
  have listed : s.freeList - hhdmoffset ∈ freePages hhdmoffset s := freeList_mem available
  have freshStart := (wf.freeFrame _ listed).pageAligned
  have elsewhere : (s.freeList - hhdmoffset, position) ≠ (table, index) := by
    intro equal
    exact wf.tableUsed table isTable ((Prod.mk.inj equal).1 ▸ listed)
  simp only [attachTable, entryAt_write_of_ne _ _ (wf.tableAligned table isTable) freshStart
    elsewhere, entryAt_fill_self _ _ freshStart]

/-- `get_lower_table` grafts a page of the free list onto the tree. -/
theorem TablesWF.graft (wf : TablesWF hhdmoffset root s) (short : path.length < 3)
    (found : tableAt s.memory root path = some table)
    (vacant : child (entryAt s.memory table index) = none)
    (available : s.pmmFreePageCount ≠ 0) :
    RadixTree.Graft child (entryAt s.memory)
      (entryAt (attachTable hhdmoffset s table index).memory) root 3 path index table
      (s.freeList - hhdmoffset) := by
  have listed : s.freeList - hhdmoffset ∈ freePages hhdmoffset s := freeList_mem available
  have freshStart := (wf.freeFrame _ listed).pageAligned
  have tableStart := wf.tableAligned table ⟨path, Nat.le_of_lt short, found⟩
  have unused : ∀ other, IsTable s.memory root other → other ≠ s.freeList - hhdmoffset := by
    rintro other isTable rfl
    exact wf.tableUsed _ isTable listed
  constructor
  · exact wf.separated
  · exact short
  · exact found
  · exact vacant
  · intro query queryShort reached
    exact unused _ ⟨query, queryShort, reached⟩ rfl
  · simp only [attachTable, entryAt_write_self]
    exact child_tableEntry (wf.freeFrame _ listed)
  · intro position
    rw [wf.entryAt_attachTable_fresh ⟨path, Nat.le_of_lt short, found⟩ available, child_zero]
  · intro query other position queryShort reached different
    have isTable : IsTable s.memory root other := ⟨query, queryShort, reached⟩
    have otherStart := wf.tableAligned other isTable
    simp only [attachTable, entryAt_write_of_ne _ _ tableStart otherStart different,
      entryAt_fill_of_ne _ _ _ freshStart otherStart (unused other isTable)]

theorem TablesWF.freePages_attachTable (wf : TablesWF hhdmoffset root s) (index : BitVec 9)
    (isTable : IsTable s.memory root table) (available : s.pmmFreePageCount ≠ 0) :
    freePages hhdmoffset s =
      (s.freeList - hhdmoffset) :: freePages hhdmoffset (attachTable hhdmoffset s table index) := by
  have popped : freePages hhdmoffset s = _ := freePages_popPage available
  have listed : s.freeList - hhdmoffset ∈ freePages hhdmoffset s := freeList_mem available
  have nodup := wf.pmm.nodup
  rw [popped] at nodup
  rw [popped]
  congr 1
  symm
  refine freePages_congr (s := popPage hhdmoffset s) rfl rfl ?_
  intro page rest
  have old : page ∈ freePages hhdmoffset s := by
    rw [popped]
    exact List.mem_cons_of_mem _ rest
  have different : page ≠ s.freeList - hhdmoffset := by
    rintro rfl
    exact (List.nodup_cons.mp nodup).1 rest
  have notTable : page ≠ table := by
    rintro rfl
    exact wf.tableUsed _ isTable old
  have tableStart := wf.tableAligned table isTable
  have freshStart := (wf.freeFrame _ listed).pageAligned
  have pageStart := (wf.freeFrame page old).pageAligned
  rw [read64_eq_entryAt, read64_eq_entryAt]
  simp only [attachTable]
  rw [entryAt_write_of_ne _ _ tableStart pageStart
      (fun equal => notTable (Prod.mk.inj equal).1),
    entryAt_fill_of_ne _ _ _ freshStart pageStart different]
  rfl

/-- The pages of the tree after a table has been attached. -/
theorem TablesWF.isTable_attachTable (wf : TablesWF hhdmoffset root s)
    (short : path.length < 3) (found : tableAt s.memory root path = some table)
    (vacant : child (entryAt s.memory table index) = none)
    (available : s.pmmFreePageCount ≠ 0) (page : Word) :
    IsTable (attachTable hhdmoffset s table index).memory root page ↔
      page = s.freeList - hhdmoffset ∨ IsTable s.memory root page := by
  have graft := wf.graft short found vacant available
  constructor
  · rintro ⟨query, queryShort, reached⟩
    rw [tableAt, graft.node queryShort] at reached
    split at reached
    · exact Or.inl (Option.some.inj reached).symm
    · exact Or.inr ⟨query, queryShort, reached⟩
  · rintro (rfl | ⟨query, queryShort, reached⟩)
    · refine ⟨path ++ [index], ?_, ?_⟩
      · rw [List.length_append, List.length_singleton]
        exact short
      · rw [tableAt, graft.node (by rw [List.length_append, List.length_singleton]; exact short),
          if_pos rfl]
    · exact ⟨query, queryShort, graft.node_of_old queryShort reached⟩

theorem TablesWF.attachTable (wf : TablesWF hhdmoffset root s) (short : path.length < 3)
    (found : tableAt s.memory root path = some table)
    (vacant : child (entryAt s.memory table index) = none)
    (available : s.pmmFreePageCount ≠ 0) :
    TablesWF hhdmoffset root (attachTable hhdmoffset s table index) := by
  have graft := wf.graft short found vacant available
  have isTable : IsTable s.memory root table := ⟨path, Nat.le_of_lt short, found⟩
  have popped := wf.freePages_attachTable index isTable available
  have listed : s.freeList - hhdmoffset ∈ freePages hhdmoffset s := freeList_mem available
  have nodup := wf.pmm.nodup
  rw [popped] at nodup
  have older : ∀ page ∈ freePages hhdmoffset (Lord84.attachTable hhdmoffset s table index),
      page ∈ freePages hhdmoffset s := by
    intro page rest
    rw [popped]
    exact List.mem_cons_of_mem _ rest
  constructor
  · exact ⟨wf.pmm.unlocked, (List.nodup_cons.mp nodup).2,
      fun page rest => wf.pmm.aligned page (older page rest)⟩
  · exact fun page rest => wf.freeFrame page (older page rest)
  · intro page member
    rcases (wf.isTable_attachTable short found vacant available page).mp member with rfl | old
    · exact (wf.freeFrame _ listed).pageAligned
    · exact wf.tableAligned page old
  · intro page member rest
    rcases (wf.isTable_attachTable short found vacant available page).mp member with rfl | old
    · exact (List.nodup_cons.mp nodup).1 rest
    · exact wf.tableUsed page old (older page rest)
  · exact graft.separated_after
  · intro query other position lower queryShort reached below
    rw [tableAt, graft.node (Nat.le_of_lt queryShort)] at reached
    split at reached
    · cases reached
      rw [graft.blank] at below
      cases below
    next =>
      by_cases edge : (other, position) = (table, index)
      · obtain ⟨rfl, rfl⟩ := Prod.mk.inj edge
        simp only [Lord84.attachTable, entryAt_write_self] at below ⊢
        rw [child_tableEntry (wf.freeFrame _ listed)] at below
        rw [Option.some.inj below]
      · have same := graft.elsewhere query other position (Nat.le_of_lt queryShort) reached edge
        rw [same] at below ⊢
        exact wf.interior query other position lower queryShort reached below

theorem TablesWF.sameMap_attachTable (wf : TablesWF hhdmoffset root s)
    (short : path.length < 3) (found : tableAt s.memory root path = some table)
    (vacant : child (entryAt s.memory table index) = none)
    (available : s.pmmFreePageCount ≠ 0) :
    SameMap hhdmoffset root s (Lord84.attachTable hhdmoffset s table index) := by
  have graft := wf.graft short found vacant available
  have isTable : IsTable s.memory root table := ⟨path, Nat.le_of_lt short, found⟩
  have popped := wf.freePages_attachTable index isTable available
  constructor
  · intro virtAddr
    rw [translate_eq_lookup, translate_eq_lookup]
    exact graft.lookup _ (length_tablePath virtAddr)
  · intro query other queryShort reached
    exact graft.node_of_old queryShort reached
  · intro page
    rw [wf.isTable_attachTable short found vacant available page, popped, List.mem_cons]
    tauto
  · rw [popped]
    exact List.suffix_cons _ _
  · rfl
  · rfl

/-- One descent that returns: the next table exists, or a page of the free list becomes it. -/
theorem getLowerTable_cases {table pointer : Word} {index : BitVec 9}
    (returned : (getLowerTable hhdmoffset s (table + hhdmoffset) (index.setWidth 64) >>=
      killIfNull) = .done (pointer, next)) :
    pointer ≠ 0 ∧
      ((∃ lower, child (entryAt s.memory table index) = some lower ∧
          pointer = lower + hhdmoffset ∧ next = s) ∨
        (child (entryAt s.memory table index) = none ∧ s.pmmLock = false ∧
          s.pmmFreePageCount ≠ 0 ∧ s.freeList - hhdmoffset ≠ 0 ∧
          pointer = s.freeList - hhdmoffset + hhdmoffset ∧
          next = attachTable hhdmoffset s table index)) := by
  cases vacant : child (entryAt s.memory table index) with
  | some lower =>
      rw [getLowerTable_present vacant, Outcome.done_bind, killIfNull] at returned
      split at returned
      · cases returned
      next nonNull =>
        cases returned
        exact ⟨nonNull, Or.inl ⟨lower, rfl, rfl, rfl⟩⟩
  | none =>
      cases locked : s.pmmLock with
      | true =>
          rw [getLowerTable_spinning vacant locked] at returned
          cases returned
      | false =>
          by_cases empty : s.pmmFreePageCount = 0
          · rw [getLowerTable_exhausted vacant locked empty] at returned
            cases returned
          · rw [getLowerTable_absent vacant locked empty] at returned
            split at returned
            · cases returned
            next physical =>
              rw [Outcome.done_bind, killIfNull] at returned
              split at returned
              · cases returned
              next nonNull =>
                cases returned
                exact ⟨nonNull, Or.inr ⟨rfl, rfl, empty, physical, rfl, rfl⟩⟩

/-- One descent: the next table exists afterwards, and no translation has changed. -/
theorem TablesWF.getLowerTable (wf : TablesWF hhdmoffset root s) (short : path.length < 3)
    (found : tableAt s.memory root path = some table) {pointer : Word}
    (returned : (getLowerTable hhdmoffset s (table + hhdmoffset) (index.setWidth 64) >>=
      killIfNull) = .done (pointer, next)) :
    ∃ lower, pointer = lower + hhdmoffset ∧
      tableAt next.memory root (path ++ [index]) = some lower ∧
      TablesWF hhdmoffset root next ∧ SameMap hhdmoffset root s next := by
  obtain ⟨lower, below, rfl, rfl⟩ | ⟨vacant, -, available, -, rfl, rfl⟩ :=
    (getLowerTable_cases returned).2
  · exact ⟨lower, rfl, tableAt_concat found below, wf, SameMap.refl next⟩
  · refine ⟨s.freeList - hhdmoffset, rfl, ?_, wf.attachTable short found vacant available,
      wf.sameMap_attachTable short found vacant available⟩
    have graft := wf.graft short found vacant available
    rw [tableAt, graft.node, if_pos rfl]
    rw [List.length_append, List.length_singleton]
    exact short

end Attach

/-- Rule for the descent to a page table: what each of its three steps hands on to the next
one holds at the end. -/
theorem lowestTable_invariant {invariant : List (BitVec 9) → Word → MmState → Prop}
    (keep : ∀ path pointer current index lower next, path.length < 3 →
      invariant path pointer current →
      (getLowerTable hhdmoffset current pointer (index.setWidth 64) >>= killIfNull) =
        .done (lower, next) →
      invariant (path ++ [index]) lower next)
    {virtAddr pageMap pointer : Word} (initial : invariant [] pageMap s)
    (returned : lowestTable hhdmoffset s pageMap virtAddr = .done (pointer, next)) :
    invariant (tablePath virtAddr) pointer next := by
  simp only [Lord84.lowestTable, offset_eq_digit] at returned
  obtain ⟨⟨pdp, first⟩, pml4Step, returned⟩ := Outcome.bind_eq_done.mp returned
  obtain ⟨⟨pd, second⟩, pdpStep, pdStep⟩ := Outcome.bind_eq_done.mp returned
  have atPdp := keep _ _ _ _ _ _ (by simp) initial pml4Step
  have atPd := keep _ _ _ _ _ _ (by simp) atPdp pdpStep
  exact keep _ _ _ _ _ _ (by simp) atPd pdStep

/-- The descent to the page table of a virtual address. -/
theorem TablesWF.lowestTable (wf : TablesWF hhdmoffset root s) {virtAddr pointer : Word}
    (returned : lowestTable hhdmoffset s (root + hhdmoffset) virtAddr = .done (pointer, next)) :
    ∃ table, pointer = table + hhdmoffset ∧
      tableAt next.memory root (tablePath virtAddr) = some table ∧
      TablesWF hhdmoffset root next ∧ SameMap hhdmoffset root s next := by
  refine @lowestTable_invariant hhdmoffset s next
    (fun path pointer current => ∃ table, pointer = table + hhdmoffset ∧
      tableAt current.memory root path = some table ∧
      TablesWF hhdmoffset root current ∧ SameMap hhdmoffset root s current)
    ?_ virtAddr _ pointer ⟨root, rfl, rfl, wf, SameMap.refl s⟩ returned
  rintro path _ current index _ next short ⟨table, rfl, found, currentWF, same⟩ stepped
  obtain ⟨lower, rfl, lowerFound, nextWF, nextSame⟩ :=
    currentWF.getLowerTable short found stepped
  exact ⟨lower, rfl, lowerFound, nextWF, same.trans nextSame⟩

/-! ## Writing an entry of the lowest level -/

/-- The state after entry `index` of the table at `table` has been written. -/
def writeEntry (s : MmState) (table : Word) (index : BitVec 9) (value : Word) : MmState :=
  { s with memory := s.memory.write64 (entryAddress table index) value }

section WriteEntry

variable {path : List (BitVec 9)} {table : Word} {index : BitVec 9}

theorem TablesWF.entryAt_writeEntry (wf : TablesWF hhdmoffset root s)
    (isTable : IsTable s.memory root table) (value : Word) {other : Word}
    {position : BitVec 9} (otherAligned : PageAligned other)
    (different : (other, position) ≠ (table, index)) :
    entryAt (writeEntry s table index value).memory other position =
      entryAt s.memory other position :=
  entryAt_write_of_ne _ _ (wf.tableAligned table isTable) otherAligned
    different

theorem TablesWF.freePages_writeEntry (wf : TablesWF hhdmoffset root s)
    (isTable : IsTable s.memory root table) (index : BitVec 9) (value : Word) :
    freePages hhdmoffset (writeEntry s table index value) = freePages hhdmoffset s := by
  refine freePages_congr (s := s) rfl rfl ?_
  intro page listed
  rw [read64_eq_entryAt, read64_eq_entryAt]
  apply wf.entryAt_writeEntry isTable value (wf.freeFrame page listed).pageAligned
  intro equal
  exact wf.tableUsed table isTable ((Prod.mk.inj equal).1 ▸ listed)

/-- Writing an entry of the lowest level moves no table. -/
theorem TablesWF.tableAt_writeEntry (wf : TablesWF hhdmoffset root s)
    (lowest : path.length = 3) (found : tableAt s.memory root path = some table)
    (index : BitVec 9) (value : Word) {query : List (BitVec 9)} (short : query.length ≤ 3) :
    tableAt (writeEntry s table index value).memory root query =
      tableAt s.memory root query := by
  have isTable : IsTable s.memory root table := ⟨path, Nat.le_of_eq lowest, found⟩
  apply RadixTree.node_leaf_update wf.separated lowest found _ short
  intro reached other position reachedShort otherFound different
  apply wf.entryAt_writeEntry isTable value
    (wf.tableAligned other ⟨reached, reachedShort, otherFound⟩)
  exact fun equal => different (Prod.mk.inj equal).1

theorem TablesWF.isTable_writeEntry (wf : TablesWF hhdmoffset root s) (lowest : path.length = 3)
    (found : tableAt s.memory root path = some table) (index : BitVec 9) (value page : Word) :
    IsTable (Lord84.writeEntry s table index value).memory root page ↔
      IsTable s.memory root page := by
  constructor
  · rintro ⟨query, short, reached⟩
    rw [wf.tableAt_writeEntry lowest found index value short] at reached
    exact ⟨query, short, reached⟩
  · rintro ⟨query, short, reached⟩
    exact ⟨query, short, by rw [wf.tableAt_writeEntry lowest found index value short, reached]⟩

theorem TablesWF.writeEntry (wf : TablesWF hhdmoffset root s) (lowest : path.length = 3)
    (found : tableAt s.memory root path = some table) (index : BitVec 9) (value : Word) :
    TablesWF hhdmoffset root (writeEntry s table index value) := by
  have isTable : IsTable s.memory root table := ⟨path, Nat.le_of_eq lowest, found⟩
  have sameFree := wf.freePages_writeEntry isTable index value
  have sameTables := wf.isTable_writeEntry lowest found index value
  constructor
  · exact ⟨wf.pmm.unlocked, sameFree ▸ wf.pmm.nodup, sameFree ▸ wf.pmm.aligned⟩
  · exact sameFree ▸ wf.freeFrame
  · exact fun page member => wf.tableAligned page ((sameTables page).mp member)
  · intro page member
    rw [sameFree]
    exact wf.tableUsed page ((sameTables page).mp member)
  · intro left right other leftShort rightShort leftFound rightFound
    have leftSame := wf.tableAt_writeEntry lowest found index value leftShort
    have rightSame := wf.tableAt_writeEntry lowest found index value rightShort
    exact wf.separated left right other leftShort rightShort (leftSame.symm.trans leftFound)
      (rightSame.symm.trans rightFound)
  · intro query other position lower short reached below
    rw [wf.tableAt_writeEntry lowest found index value (Nat.le_of_lt short)] at reached
    have different : other ≠ table := by
      rintro rfl
      have same := wf.separated query path other (Nat.le_of_lt short) (Nat.le_of_eq lowest)
        reached found
      rw [same] at short
      omega
    have same : entryAt (Lord84.writeEntry s table index value).memory other position =
        entryAt s.memory other position := by
      apply wf.entryAt_writeEntry isTable value
        (wf.tableAligned other ⟨query, Nat.le_of_lt short, reached⟩)
      exact fun equal => different (Prod.mk.inj equal).1
    rw [same] at below ⊢
    exact wf.interior query other position lower short reached below

/-- Writing an entry of the lowest level changes the translation of one page. -/
theorem TablesWF.translate_writeEntry (wf : TablesWF hhdmoffset root s) {virtAddr : Word}
    (found : tableAt s.memory root (tablePath virtAddr) = some table) (value query : Word) :
    translate (Lord84.writeEntry s table (tableIndex virtAddr) value).memory root query =
      if virtualPage query = virtualPage virtAddr then (child value).map fun _ => value
      else translate s.memory root query := by
  have isTable := isTable_of_found found
  have elsewhere : ∀ reached other position, reached.length ≤ 3 →
      RadixTree.node child (entryAt s.memory) root reached = some other →
      (other, position) ≠ (table, tableIndex virtAddr) →
      entryAt (Lord84.writeEntry s table (tableIndex virtAddr) value).memory other position =
        entryAt s.memory other position := by
    intro reached other position short otherFound different
    exact wf.entryAt_writeEntry isTable value
      (wf.tableAligned other ⟨reached, short, otherFound⟩) different
  rw [translate_eq_lookup, translate_eq_lookup,
    RadixTree.lookup_leaf_update wf.separated (length_tablePath virtAddr) found elsewhere _
      (length_tablePath query)]
  simp only [← virtualPage_eq_iff, Lord84.writeEntry, entryAt_write_self]

end WriteEntry

/-! ## Writes outside the tables -/

/-- No entry of a table below `root` differs between the two memories. -/
def SameEntries (root : Word) (before after : Memory) : Prop :=
  ∀ table, IsTable before root table →
    ∀ index, entryAt after table index = entryAt before table index

section Outside

variable {before after : Memory}

theorem SameEntries.tableAt (same : SameEntries root before after) {path : List (BitVec 9)}
    (short : path.length ≤ 3) : tableAt after root path = Lord84.tableAt before root path := by
  apply RadixTree.node_congr _ short
  intro reached table digit shorter found
  rw [same table ⟨reached, Nat.le_of_lt shorter, found⟩]

theorem SameEntries.isTable (same : SameEntries root before after) (page : Word) :
    IsTable after root page ↔ IsTable before root page := by
  constructor
  · rintro ⟨path, short, reached⟩
    rw [same.tableAt short] at reached
    exact ⟨path, short, reached⟩
  · rintro ⟨path, short, reached⟩
    exact ⟨path, short, by rw [same.tableAt short, reached]⟩

theorem SameEntries.translate (same : SameEntries root before after) (virtAddr : Word) :
    translate after root virtAddr = Lord84.translate before root virtAddr := by
  rw [translate_eq_lookup, translate_eq_lookup]
  apply RadixTree.lookup_congr _ _ (Nat.le_of_eq (length_tablePath virtAddr))
  intro path table position short reached
  exact same table ⟨path, short, reached⟩ position

/-- The tables stay well-formed while their entries are kept and only frames outside them
enter the free list. -/
theorem TablesWF.of_sameEntries (wf : TablesWF hhdmoffset root s)
    (same : SameEntries root s.memory next.memory) (pmm : PmmWF hhdmoffset next)
    (free : ∀ page ∈ freePages hhdmoffset next, page ∈ freePages hhdmoffset s ∨
      IsFrame page ∧ ¬ IsTable s.memory root page) :
    TablesWF hhdmoffset root next := by
  constructor
  · exact pmm
  · intro page listed
    rcases free page listed with old | ⟨frame, -⟩
    · exact wf.freeFrame page old
    · exact frame
  · exact fun page member => wf.tableAligned page ((same.isTable page).mp member)
  · intro page member listed
    have old := (same.isTable page).mp member
    rcases free page listed with stillFree | ⟨-, notTable⟩
    · exact wf.tableUsed page old stillFree
    · exact notTable old
  · intro left right table leftShort rightShort leftFound rightFound
    exact wf.separated left right table leftShort rightShort
      ((same.tableAt leftShort).symm.trans leftFound)
      ((same.tableAt rightShort).symm.trans rightFound)
  · intro path table index lower short reached below
    rw [same.tableAt (Nat.le_of_lt short)] at reached
    rw [same table ⟨path, Nat.le_of_lt short, reached⟩] at below ⊢
    exact wf.interior path table index lower short reached below

end Outside

/-- Taking a page off the free list does not touch the tables. -/
theorem TablesWF.popPage (wf : TablesWF hhdmoffset root s) (available : s.pmmFreePageCount ≠ 0) :
    TablesWF hhdmoffset root (popPage hhdmoffset s) := by
  refine wf.of_sameEntries (fun _ _ _ => rfl) (wf.pmm.popPage available) ?_
  intro page rest
  rw [freePages_popPage available]
  exact Or.inl (List.mem_cons_of_mem _ rest)

/-- A byte of a page that is neither free nor a table may be written. -/
theorem TablesWF.write8 (wf : TablesWF hhdmoffset root s) {page address : Word} (value : Byte)
    (aligned : PageAligned page) (notFree : page ∉ freePages hhdmoffset s)
    (notTable : ¬ IsTable s.memory root page) (inside : InPage page address)
    (memory : next.memory = s.memory.write8 address value) (head : next.freeList = s.freeList)
    (count : next.pmmFreePageCount = s.pmmFreePageCount) (lock : next.pmmLock = s.pmmLock) :
    TablesWF hhdmoffset root next ∧ SameEntries root s.memory next.memory ∧
      freePages hhdmoffset next = freePages hhdmoffset s := by
  have elsewhere : ∀ other index, PageAligned other → other ≠ page →
      entryAt next.memory other index = entryAt s.memory other index := by
    intro other index otherAligned different
    rw [memory]
    exact entryAt_write8_of_ne _ index value aligned otherAligned different inside
  have same : SameEntries root s.memory next.memory := by
    intro table isTable index
    apply elsewhere table index (wf.tableAligned table isTable)
    rintro rfl
    exact notTable isTable
  have sameFree : freePages hhdmoffset next = freePages hhdmoffset s := by
    refine freePages_congr head count ?_
    intro other listed
    rw [read64_eq_entryAt, read64_eq_entryAt]
    apply elsewhere other 0 (wf.pmm.aligned other listed)
    rintro rfl
    exact notFree listed
  have pmm : PmmWF hhdmoffset next :=
    ⟨lock.trans wf.pmm.unlocked, sameFree ▸ wf.pmm.nodup, sameFree ▸ wf.pmm.aligned⟩
  exact ⟨wf.of_sameEntries same pmm fun other listed => Or.inl (sameFree ▸ listed), same, sameFree⟩

/-! ## Giving a frame back to the allocator -/

section Push

variable {page : Word}

/-- The link word of a page outside the tree is not an entry of a table. -/
theorem TablesWF.sameEntries_pushPage (wf : TablesWF hhdmoffset root s) (frame : IsFrame page)
    (notTable : ¬ IsTable s.memory root page) :
    SameEntries root s.memory (Lord84.pushPage hhdmoffset s page).memory := by
  intro table isTable index
  have first : page = entryAddress page 0 := by
    simp [entryAddress]
  simp only [Lord84.pushPage]
  rw [first]
  apply entryAt_write_of_ne _ _ frame.pageAligned (wf.tableAligned table isTable)
  intro equal
  exact notTable ((Prod.mk.inj equal).1 ▸ isTable)

theorem TablesWF.pushPage (wf : TablesWF hhdmoffset root s) (frame : IsFrame page)
    (notTable : ¬ IsTable s.memory root page) (notFree : page ∉ freePages hhdmoffset s) :
    TablesWF hhdmoffset root (Lord84.pushPage hhdmoffset s page) := by
  refine wf.of_sameEntries (wf.sameEntries_pushPage frame notTable)
    (wf.pmm.pushPage frame.pageAligned notFree) ?_
  intro other listed
  rw [wf.pmm.freePages_pushPage frame.pageAligned notFree, List.mem_cons] at listed
  rcases listed with rfl | old
  · exact Or.inr ⟨frame, notTable⟩
  · exact Or.inl old

end Push

end Tables

end Lord84
