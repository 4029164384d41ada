import Lord84.Mm.VmmTables

/-!
# Page tables refine a map

`vmm_map_page` and `vmm_free_page` are specified by their effect on the translation
of every virtual page.  Over whole runs the tables then implement a map from virtual
pages to leaf entries, whatever tables were allocated on the way.
-/

namespace Lord84

open Theory

section Operations

variable {hhdmoffset root : Word} {s next : MmState}

theorem TablesWF.setPageTableLock (wf : TablesWF hhdmoffset root s) (lock : Bool) :
    TablesWF hhdmoffset root { s with pageTableLock := lock } :=
  ⟨⟨wf.pmm.unlocked, wf.pmm.nodup, wf.pmm.aligned⟩, wf.freeFrame, wf.tableAligned,
    wf.tableUsed, wf.separated, wf.interior⟩

/-- Effect of a successful `vmm_map_page`. -/
structure Mapped (hhdmoffset root : Word) (s next : MmState) (virtAddr entry : Word) :
    Prop where
  wf : TablesWF hhdmoffset root next
  translate : ∀ query, translate next.memory root query =
    if virtualPage query = virtualPage virtAddr then some entry
    else translate s.memory root query
  tables : ∀ path table, path.length ≤ 3 →
    tableAt s.memory root path = some table → tableAt next.memory root path = some table
  pages : ∀ page, (page ∈ freePages hhdmoffset next ∨ IsTable next.memory root page) ↔
    (page ∈ freePages hhdmoffset s ∨ IsTable s.memory root page)
  free : freePages hhdmoffset next <:+ freePages hhdmoffset s
  reached : ∃ table, tableAt next.memory root (tablePath virtAddr) = some table
  unlocked : next.pageTableLock = false
  pageMap : next.kernelPageMap = s.kernelPageMap

theorem present_or {flags : Word} (present : flags &&& presentBit ≠ 0) (physAddr : Word) :
    (physAddr ||| flags) &&& presentBit ≠ 0 := by
  rw [BitVec.and_or_distrib_right]
  intro zero
  exact present (BitVec.or_eq_zero_iff.mp zero).2

/-- What a `vmm_map_page` that returns has done. -/
theorem vmmMapPage_cases {virtAddr physAddr flags : Word}
    (returned : vmmMapPage hhdmoffset s (root + hhdmoffset) virtAddr physAddr flags =
      .done next) :
    ∃ lock table middle,
      lowestTable hhdmoffset { s with pageTableLock := lock } (root + hhdmoffset) virtAddr =
        .done (table + hhdmoffset, middle) ∧
      next = { writeEntry middle table (tableIndex virtAddr) (physAddr ||| flags) with
        pageTableLock := false } := by
  rw [vmmMapPage] at returned
  obtain ⟨lock, -, returned⟩ := Outcome.bind_eq_done.mp returned
  obtain ⟨⟨pointer, middle⟩, descended, returned⟩ := Outcome.bind_eq_done.mp returned
  have direct : pointer = pointer - hhdmoffset + hhdmoffset := (sub_add_cancel _ _).symm
  rw [direct] at descended
  rw [offset_eq_digit, direct] at returned
  simp only [store64_entry, freeLock_eq] at returned
  cases returned
  exact ⟨lock, _, middle, descended, rfl⟩

/-- `vmm_map_page` sets the translation of one page and keeps all others. -/
theorem TablesWF.vmmMapPage (wf : TablesWF hhdmoffset root s)
    {virtAddr physAddr flags : Word} (present : flags &&& presentBit ≠ 0)
    (returned : vmmMapPage hhdmoffset s (root + hhdmoffset) virtAddr physAddr flags =
      .done next) :
    Mapped hhdmoffset root s next virtAddr (physAddr ||| flags) := by
  obtain ⟨lock, table, middle, descended, rfl⟩ := vmmMapPage_cases returned
  obtain ⟨page, pointer, found, middleWF, same⟩ :=
    (wf.setPageTableLock lock).lowestTable descended
  cases add_right_cancel pointer
  have isTable := isTable_of_found found
  have written := middleWF.writeEntry (length_tablePath virtAddr) found
    (tableIndex virtAddr) (physAddr ||| flags)
  have sameFree := middleWF.freePages_writeEntry isTable (tableIndex virtAddr)
    (physAddr ||| flags)
  have sameTables : ∀ path, path.length ≤ 3 →
      tableAt (Lord84.writeEntry middle table (tableIndex virtAddr) (physAddr ||| flags)).memory
        root path = tableAt middle.memory root path := fun path short =>
    middleWF.tableAt_writeEntry (length_tablePath virtAddr) found _ _ short
  constructor
  · exact written.setPageTableLock false
  · intro query
    have effect := middleWF.translate_writeEntry found (physAddr ||| flags) query
    rw [child_eq_some_iff.mpr ⟨present_or present physAddr, rfl⟩] at effect
    refine effect.trans ?_
    rw [same.translate query]
    rfl
  · intro path other short old
    exact (sameTables path short).trans (same.tables path other short old)
  · intro page
    refine Iff.trans (or_congr ?_ ?_) (same.pages page)
    · exact Iff.of_eq (congrArg (page ∈ ·) sameFree)
    · exact middleWF.isTable_writeEntry (length_tablePath virtAddr) found _ _ page
  · exact (Iff.of_eq (congrArg (· <:+ freePages hhdmoffset s) sameFree)).mpr same.free
  · exact ⟨table, (sameTables _ (Nat.le_of_eq (length_tablePath _))).trans found⟩
  · rfl
  · exact same.pageMap

/-- Effect of a successful `vmm_free_page` on a mapped page. -/
structure Unmapped (hhdmoffset root : Word) (s next : MmState) (virtAddr : Word) :
    Prop where
  wf : TablesWF hhdmoffset root next
  translate : ∀ query, translate next.memory root query =
    if virtualPage query = virtualPage virtAddr then none
    else translate s.memory root query
  lock : next.pageTableLock = s.pageTableLock

/-- The leaf entry of a translation is read from the page table of its path. -/
theorem entryAt_of_translate {memory : Memory} {virtAddr entry table : Word}
    (mapped : translate memory root virtAddr = some entry)
    (found : tableAt memory root (tablePath virtAddr) = some table) :
    entryAt memory table (tableIndex virtAddr) = entry := by
  rw [tableAt] at found
  rw [translate_eq_lookup, RadixTree.lookup, found, Option.bind_some,
    Option.map_eq_some_iff] at mapped
  obtain ⟨_, -, equal⟩ := mapped
  exact equal

/-- What a `vmm_free_page` that returns has done. -/
theorem vmmFreePage_cases {virtAddr : Word}
    (returned : vmmFreePage hhdmoffset s (root + hhdmoffset) virtAddr = .done next) :
    ∃ table middle,
      lowestTable hhdmoffset s (root + hhdmoffset) virtAddr = .done (table + hhdmoffset, middle) ∧
      middle.pmmLock = false ∧
      next = writeEntry
        (pushPage hhdmoffset middle
          (entryAt middle.memory table (tableIndex virtAddr) &&& addressMask))
        table (tableIndex virtAddr) 0 := by
  rw [vmmFreePage] at returned
  obtain ⟨⟨pointer, middle⟩, descended, returned⟩ := Outcome.bind_eq_done.mp returned
  have direct : pointer = pointer - hhdmoffset + hhdmoffset := (sub_add_cancel _ _).symm
  rw [direct] at descended
  rw [offset_eq_digit, direct] at returned
  simp only [load64_entry, store64_entry] at returned
  obtain ⟨pushed, freed, returned⟩ := Outcome.bind_eq_done.mp returned
  obtain ⟨unlocked, rfl⟩ := pmmFree_cases freed
  cases returned
  exact ⟨_, middle, descended, unlocked, rfl⟩

/-- `vmm_free_page` removes the translation of one page, keeps all others and gives
the frame back to the allocator. -/
theorem TablesWF.vmmFreePage (wf : TablesWF hhdmoffset root s) {virtAddr entry : Word}
    (mapped : translate s.memory root virtAddr = some entry)
    (notTable : ¬ IsTable s.memory root (entry &&& addressMask))
    (notFree : entry &&& addressMask ∉ freePages hhdmoffset s)
    (returned : vmmFreePage hhdmoffset s (root + hhdmoffset) virtAddr = .done next) :
    Unmapped hhdmoffset root s next virtAddr := by
  obtain ⟨page, middle, descended, -, rfl⟩ := vmmFreePage_cases returned
  obtain ⟨table, pointer, found, middleWF, same⟩ := wf.lowestTable descended
  cases add_right_cancel pointer
  have leaf : entryAt middle.memory page (tableIndex virtAddr) = entry :=
    entryAt_of_translate ((same.translate virtAddr).trans mapped) found
  have unused : ¬ (entry &&& addressMask ∈ freePages hhdmoffset middle ∨
      IsTable middle.memory root (entry &&& addressMask)) := by
    rw [same.pages]
    exact not_or.mpr ⟨notFree, notTable⟩
  have frame := isFrame_and_addressMask entry
  have stillNoTable := (not_or.mp unused).2
  have pushedWF := middleWF.pushPage frame stillNoTable (not_or.mp unused).1
  have pushedFound : tableAt (Lord84.pushPage hhdmoffset middle (entry &&& addressMask)).memory root
      (tablePath virtAddr) = some page :=
    ((middleWF.sameEntries_pushPage frame stillNoTable).tableAt
      (Nat.le_of_eq (length_tablePath _))).trans found
  rw [leaf]
  constructor
  · exact pushedWF.writeEntry (length_tablePath virtAddr) pushedFound _ 0
  · intro query
    refine (pushedWF.translate_writeEntry pushedFound 0 query).trans ?_
    rw [(middleWF.sameEntries_pushPage frame stillNoTable).translate, same.translate query]
    rfl
  · exact same.lock

end Operations

/-! ## Progress -/

section Progress

variable {hhdmoffset root : Word} {s next : MmState}

/-- No table and no free page lies at physical or virtual address 0. -/
def NoNull (hhdmoffset root : Word) (s : MmState) : Prop :=
  ∀ page, page ∈ freePages hhdmoffset s ∨ IsTable s.memory root page →
    page ≠ 0 ∧ page + hhdmoffset ≠ 0

/-- The part of `NoNull` on which descents through existing tables depend. -/
theorem NoNull.tables (noNull : NoNull hhdmoffset root s) {page : Word}
    (isTable : IsTable s.memory root page) : page + hhdmoffset ≠ 0 :=
  (noNull page (Or.inr isTable)).2

theorem SameMap.noNull (same : SameMap hhdmoffset root s next)
    (noNull : NoNull hhdmoffset root s) : NoNull hhdmoffset root next :=
  fun page known => noNull page ((same.pages page).mp known)

/-- A descent into an existing table changes nothing. -/
theorem getLowerTable_of_found {table lower : Word} {index : BitVec 9}
    (found : child (entryAt s.memory table index) = some lower)
    (nonNull : lower + hhdmoffset ≠ 0) :
    (getLowerTable hhdmoffset s (table + hhdmoffset) (index.setWidth 64) >>= killIfNull) =
      .done (lower + hhdmoffset, s) := by
  rw [getLowerTable_present found, Outcome.done_bind, killIfNull, if_neg nonNull]

/-- A descent returns while a page is left, and takes at most one. -/
theorem TablesWF.getLowerTable_returns (wf : TablesWF hhdmoffset root s)
    (noNull : NoNull hhdmoffset root s) {path : List (BitVec 9)} {table : Word}
    (index : BitVec 9) (short : path.length < 3)
    (found : tableAt s.memory root path = some table) (available : s.pmmFreePageCount ≠ 0) :
    ∃ pointer next,
      (Lord84.getLowerTable hhdmoffset s (table + hhdmoffset) (index.setWidth 64) >>=
        killIfNull) = .done (pointer, next) ∧
      s.pmmFreePageCount.toNat ≤ next.pmmFreePageCount.toNat + 1 := by
  cases vacant : child (entryAt s.memory table index) with
  | some lower =>
      have isTable : IsTable s.memory root lower :=
        ⟨path ++ [index], by rw [List.length_append]; exact short, tableAt_concat found vacant⟩
      exact ⟨_, s, getLowerTable_of_found vacant (noNull.tables isTable), Nat.le_succ _⟩
  | none =>
      have listed : s.freeList - hhdmoffset ∈ freePages hhdmoffset s := freeList_mem available
      obtain ⟨physical, virtual⟩ := noNull _ (Or.inl listed)
      refine ⟨s.freeList - hhdmoffset + hhdmoffset,
        Lord84.attachTable hhdmoffset s table index, ?_, ?_⟩
      · rw [getLowerTable_absent vacant wf.pmm.unlocked available, if_neg physical,
          Outcome.done_bind, killIfNull, if_neg virtual]
      · simp only [Lord84.attachTable, Lord84.popPage]
        bv_omega

/-- The descent through existing tables changes nothing. -/
theorem lowestTable_of_found
    (nonNull : ∀ page, IsTable s.memory root page → page + hhdmoffset ≠ 0)
    {virtAddr table : Word}
    (found : tableAt s.memory root (tablePath virtAddr) = some table) :
    lowestTable hhdmoffset s (root + hhdmoffset) virtAddr = .done (table + hhdmoffset, s) := by
  have descended := found
  rw [tableAt, tablePath, RadixTree.node, Option.bind_eq_some_iff] at descended
  obtain ⟨pdp, pdpFound, descended⟩ := descended
  rw [RadixTree.node, Option.bind_eq_some_iff] at descended
  obtain ⟨pd, pdFound, descended⟩ := descended
  rw [RadixTree.node, Option.bind_eq_some_iff] at descended
  obtain ⟨pt, ptFound, reached⟩ := descended
  cases reached
  have pdpNonNull := nonNull pdp ⟨[virtAddr.extractLsb' 39 9], by simp,
    by simp [tableAt, RadixTree.node, pdpFound]⟩
  have pdNonNull := nonNull pd ⟨[virtAddr.extractLsb' 39 9, virtAddr.extractLsb' 30 9], by simp,
    by simp [tableAt, RadixTree.node, pdpFound, pdFound]⟩
  have ptNonNull := nonNull table (isTable_of_found found)
  simp only [lowestTable, offset_eq_digit]
  rw [getLowerTable_of_found pdpFound pdpNonNull, Outcome.done_bind]
  simp only
  rw [getLowerTable_of_found pdFound pdNonNull, Outcome.done_bind]
  simp only
  rw [getLowerTable_of_found ptFound ptNonNull]

/-- The descent returns while three pages are left. -/
theorem TablesWF.lowestTable_returns (wf : TablesWF hhdmoffset root s)
    (noNull : NoNull hhdmoffset root s) (virtAddr : Word)
    (room : 3 ≤ s.pmmFreePageCount.toNat) :
    ∃ pointer next,
      Lord84.lowestTable hhdmoffset s (root + hhdmoffset) virtAddr = .done (pointer, next) ∧
      s.pmmFreePageCount.toNat ≤ next.pmmFreePageCount.toNat + 3 := by
  have nonzero : ∀ count : Word, 0 < count.toNat → count ≠ 0 := by
    rintro count positive rfl
    exact Nat.lt_irrefl 0 positive
  simp only [Lord84.lowestTable, offset_eq_digit]
  obtain ⟨pdpPointer, first, firstReturned, firstCount⟩ :=
    wf.getLowerTable_returns noNull (virtAddr.extractLsb' 39 9) (by simp)
      (show tableAt s.memory root [] = some root from rfl) (nonzero _ (by omega))
  obtain ⟨pdp, rfl, pdpFound, firstWF, firstSame⟩ :=
    wf.getLowerTable (by simp) (show tableAt s.memory root [] = some root from rfl)
      firstReturned
  obtain ⟨pdPointer, second, secondReturned, secondCount⟩ :=
    firstWF.getLowerTable_returns (firstSame.noNull noNull) (virtAddr.extractLsb' 30 9)
      (by simp) pdpFound (nonzero _ (by omega))
  obtain ⟨pd, rfl, pdFound, secondWF, secondSame⟩ :=
    firstWF.getLowerTable (by simp) pdpFound secondReturned
  obtain ⟨ptPointer, third, thirdReturned, thirdCount⟩ :=
    secondWF.getLowerTable_returns ((firstSame.trans secondSame).noNull noNull)
      (virtAddr.extractLsb' 21 9) (by simp) pdFound (nonzero _ (by omega))
  refine ⟨ptPointer, third, ?_, by omega⟩
  rw [firstReturned, Outcome.done_bind]
  simp only
  rw [secondReturned, Outcome.done_bind]
  exact thirdReturned

/-- When the page table exists already, `vmm_map_page` only writes the entry. -/
theorem vmmMapPage_of_found
    (nonNull : ∀ page, IsTable s.memory root page → page + hhdmoffset ≠ 0)
    (unlocked : s.pageTableLock = false) {virtAddr table : Word}
    (found : tableAt s.memory root (tablePath virtAddr) = some table) (physAddr flags : Word) :
    vmmMapPage hhdmoffset s (root + hhdmoffset) virtAddr physAddr flags =
      .done (writeEntry s table (tableIndex virtAddr) (physAddr ||| flags)) := by
  have descended := lowestTable_of_found (s := { s with pageTableLock := true }) nonNull found
  rw [vmmMapPage, unlocked, acquireLock_false, Outcome.done_bind]
  simp only
  rw [descended, Outcome.done_bind, offset_eq_digit]
  simp only [store64_entry, freeLock_eq, ← unlocked]
  rfl

/-- `vmm_map_page` returns while three pages are left. -/
theorem TablesWF.vmmMapPage_returns (wf : TablesWF hhdmoffset root s)
    (noNull : NoNull hhdmoffset root s) (unlocked : s.pageTableLock = false)
    (room : 3 ≤ s.pmmFreePageCount.toNat) (virtAddr physAddr flags : Word) :
    ∃ next,
      Lord84.vmmMapPage hhdmoffset s (root + hhdmoffset) virtAddr physAddr flags =
        .done next ∧
      s.pmmFreePageCount.toNat ≤ next.pmmFreePageCount.toNat + 3 := by
  obtain ⟨pointer, middle, descended, count⟩ :=
    (wf.setPageTableLock true).lowestTable_returns (s := { s with pageTableLock := true })
      noNull virtAddr room
  rw [Lord84.vmmMapPage, unlocked, acquireLock_false, Outcome.done_bind]
  simp only
  rw [descended, Outcome.done_bind]
  exact ⟨_, rfl, count⟩

theorem Mapped.noNull {virtAddr entry : Word}
    (mapped : Mapped hhdmoffset root s next virtAddr entry)
    (noNull : NoNull hhdmoffset root s) : NoNull hhdmoffset root next :=
  fun page known => noNull page ((mapped.pages page).mp known)

/-- `vmm_free_page` returns on every mapped page. -/
theorem TablesWF.vmmFreePage_returns (wf : TablesWF hhdmoffset root s)
    (noNull : NoNull hhdmoffset root s) {virtAddr entry : Word}
    (mapped : translate s.memory root virtAddr = some entry) :
    ∃ next, Lord84.vmmFreePage hhdmoffset s (root + hhdmoffset) virtAddr = .done next := by
  rw [translate_eq_lookup, RadixTree.lookup, Option.bind_eq_some_iff] at mapped
  obtain ⟨table, found, -⟩ := mapped
  rw [Lord84.vmmFreePage, lowestTable_of_found (fun _ => noNull.tables) found,
    Outcome.done_bind]
  simp only
  rw [pmmFree_eq wf.pmm.unlocked, Outcome.done_bind]
  exact ⟨_, rfl⟩

end Progress

/-! ## Runs -/

/-- An operation on the tables of one root. -/
inductive VmmOp where
  | map (virtAddr physAddr flags : Word)
  | unmap (virtAddr : Word)
  deriving DecidableEq, Repr

/-- Execute one operation. -/
def vmmStep (hhdmoffset root : Word) (s : MmState) : VmmOp → Outcome MmState
  | .map virtAddr physAddr flags =>
      vmmMapPage hhdmoffset s (root + hhdmoffset) virtAddr physAddr flags
  | .unmap virtAddr => vmmFreePage hhdmoffset s (root + hhdmoffset) virtAddr

/-- The rules of the callers: frames are mapped as present with clean flags, and a page
is unmapped only while it is mapped to a frame that is neither a table nor free. -/
def VmmAllowed (hhdmoffset root : Word) (s : MmState) : VmmOp → Prop
  | .map _ physAddr flags =>
      PageAligned physAddr ∧ physAddr.toNat < 2 ^ 52 ∧
        flags &&& pteBitPresent ≠ 0 ∧ flags &&& addressMask = 0
  | .unmap virtAddr => ∃ entry, translate s.memory root virtAddr = some entry ∧
      ¬ IsTable s.memory root (entry &&& addressMask) ∧
      entry &&& addressMask ∉ freePages hhdmoffset s

/-- Abstract page tables: the leaf entry of every virtual page. -/
abbrev PageMap := BitVec 36 → Option Word

/-- Effect of an operation on the abstract tables. -/
def PageMap.apply (map : PageMap) : VmmOp → PageMap
  | .map virtAddr physAddr flags =>
      Function.update map (virtualPage virtAddr) (some (physAddr ||| flags))
  | .unmap virtAddr => Function.update map (virtualPage virtAddr) none

/-- The last mapping of each page that has not been freed since. -/
def mappedBy (ops : List VmmOp) : PageMap :=
  ops.foldl PageMap.apply fun _ => none

/-- A zeroed root page next to an allocator that holds distinct frames, none of them
the root. -/
structure VmmStart (hhdmoffset root : Word) (s : MmState) : Prop where
  unlocked : s.pmmLock = false
  nodup : (freePages hhdmoffset s).Nodup
  frames : ∀ page ∈ freePages hhdmoffset s, PageAligned page ∧ page.toNat < 2 ^ 52
  rootAligned : PageAligned root
  rootUsed : root ∉ freePages hhdmoffset s
  rootZero : ∀ index, entryAt s.memory root index = 0

/-- The tables below `root` implement the map. -/
structure Implements (hhdmoffset root : Word) (s : MmState) (map : PageMap) : Prop where
  wf : TablesWF hhdmoffset root s
  translate : ∀ virtAddr, translate s.memory root virtAddr = map (virtualPage virtAddr)

section Runs

variable {hhdmoffset root : Word} {s next : MmState} {map : PageMap}

/-- A zeroed root has no table below it. -/
theorem VmmStart.isTable_iff (start : VmmStart hhdmoffset root s) (page : Word) :
    IsTable s.memory root page ↔ page = root := by
  constructor
  · rintro ⟨path, -, found⟩
    have blank : ∀ index, child (entryAt s.memory root index) = none := by
      intro index
      rw [start.rootZero index, child_zero]
    have empty := RadixTree.node_of_blank blank found
    rw [empty] at found
    exact (Option.some.inj found).symm
  · rintro rfl
    exact isTable_root s.memory page

theorem VmmStart.implements (start : VmmStart hhdmoffset root s) :
    Implements hhdmoffset root s fun _ => none := by
  have blank : ∀ index, child (entryAt s.memory root index) = none := by
    intro index
    rw [start.rootZero index, child_zero]
  constructor
  · constructor
    · exact ⟨start.unlocked, start.nodup, fun page listed => (start.frames page listed).1⟩
    · intro page listed
      exact isFrame_of_pageAligned (start.frames page listed).1 (start.frames page listed).2
    · intro page isTable
      rw [(start.isTable_iff page).mp isTable]
      exact start.rootAligned
    · intro page isTable
      rw [(start.isTable_iff page).mp isTable]
      exact start.rootUsed
    · intro left right table _ _ leftFound rightFound
      rw [RadixTree.node_of_blank blank leftFound, RadixTree.node_of_blank blank rightFound]
    · intro path table index lower _ found below
      have empty := RadixTree.node_of_blank blank found
      rw [empty] at found
      cases found
      rw [blank index] at below
      cases below
  · intro virtAddr
    rw [translate_eq_lookup, RadixTree.lookup, tablePath, RadixTree.node, blank]
    rfl

/-- Freeing further frames keeps a start state one. -/
theorem VmmStart.pushPage (start : VmmStart hhdmoffset root s) {page : Word}
    (aligned : PageAligned page) (small : page.toNat < 2 ^ 52) (other : page ≠ root)
    (fresh : page ∉ freePages hhdmoffset s) :
    VmmStart hhdmoffset root (Lord84.pushPage hhdmoffset s page) := by
  have pmm := start.implements.wf.pmm
  have pushed := pmm.freePages_pushPage aligned fresh
  have notTable : ¬ IsTable s.memory root page :=
    fun isTable => other ((start.isTable_iff page).mp isTable)
  constructor
  · exact start.unlocked
  · rw [pushed]
    exact List.nodup_cons.mpr ⟨fresh, start.nodup⟩
  · intro listed member
    rw [pushed, List.mem_cons] at member
    rcases member with rfl | old
    · exact ⟨aligned, small⟩
    · exact start.frames listed old
  · exact start.rootAligned
  · rw [pushed, List.mem_cons]
    rintro (rfl | old)
    · exact other rfl
    · exact start.rootUsed old
  · intro index
    rw [start.implements.wf.sameEntries_pushPage (isFrame_of_pageAligned aligned small) notTable
      root (isTable_root s.memory root), start.rootZero index]

/-- The state after a list of frames has been freed, one after the other. -/
theorem VmmStart.pushPages {pages : List Word} (start : VmmStart hhdmoffset root s)
    (nodup : pages.Nodup) (frames : ∀ page ∈ pages, PageAligned page ∧ page.toNat < 2 ^ 52)
    (others : root ∉ pages) (fresh : ∀ page ∈ pages, page ∉ freePages hhdmoffset s) :
    VmmStart hhdmoffset root (pages.foldl (Lord84.pushPage hhdmoffset) s) ∧
      freePages hhdmoffset (pages.foldl (Lord84.pushPage hhdmoffset) s) =
        pages.reverse ++ freePages hhdmoffset s := by
  induction pages generalizing s with
  | nil => exact ⟨start, rfl⟩
  | cons page pages ih =>
      obtain ⟨notLater, restNodup⟩ := List.nodup_cons.mp nodup
      obtain ⟨aligned, small⟩ := frames page List.mem_cons_self
      have pageFresh := fresh page List.mem_cons_self
      have pushed := start.implements.wf.pmm.freePages_pushPage aligned pageFresh
      have next := start.pushPage aligned small
        (fun equal => others (equal ▸ List.mem_cons_self)) pageFresh
      obtain ⟨final, listed⟩ := ih next restNodup
        (fun other member => frames other (List.mem_cons_of_mem _ member))
        (fun member => others (List.mem_cons_of_mem _ member))
        (by
          intro other member
          rw [pushed, List.mem_cons]
          rintro (rfl | old)
          · exact notLater member
          · exact fresh other (List.mem_cons_of_mem _ member) old)
      refine ⟨final, ?_⟩
      rw [List.foldl_cons, listed, pushed, List.reverse_cons, List.append_assoc]
      rfl

/-- One permitted operation changes the tables as it changes the map. -/
theorem Implements.step (implements : Implements hhdmoffset root s map) {op : VmmOp}
    (allowed : VmmAllowed hhdmoffset root s op)
    (stepped : vmmStep hhdmoffset root s op = .done next) :
    Implements hhdmoffset root next (map.apply op) := by
  cases op with
  | map virtAddr physAddr flags =>
      have mapped := implements.wf.vmmMapPage allowed.2.2.1 stepped
      refine ⟨mapped.wf, ?_⟩
      intro query
      rw [mapped.translate query, implements.translate query, PageMap.apply,
        Function.update_apply]
  | unmap virtAddr =>
      obtain ⟨entry, found, notTable, notFree⟩ := allowed
      have unmapped := implements.wf.vmmFreePage found notTable notFree stepped
      refine ⟨unmapped.wf, ?_⟩
      intro query
      rw [unmapped.translate query, implements.translate query, PageMap.apply,
        Function.update_apply]

theorem Implements.run {ops : List VmmOp} {final : MmState}
    (implements : Implements hhdmoffset root s map)
    (permitted : Along (vmmStep hhdmoffset root) (VmmAllowed hhdmoffset root) s ops)
    (finished : Theory.run (vmmStep hhdmoffset root) s ops = .done final) :
    Implements hhdmoffset root final (ops.foldl PageMap.apply map) := by
  induction ops generalizing s map with
  | nil =>
      cases finished
      exact implements
  | cons op ops ih =>
      rw [run_cons, Outcome.bind_eq_done] at finished
      obtain ⟨next, stepped, rest⟩ := finished
      exact ih (implements.step permitted.1 stepped) (permitted.2 next stepped) rest

end Runs

/-- Page tables refine a map.  Whatever is mapped and unmapped by the rules, the
processor finds for every virtual page the entry of its last mapping that has not been
freed, and nothing for all other pages; no table is on the free list, and no two paths
share a table. -/
theorem vmm_run_refines_map {hhdmoffset root : Word} {s final : MmState} {ops : List VmmOp}
    (start : VmmStart hhdmoffset root s)
    (permitted : Along (vmmStep hhdmoffset root) (VmmAllowed hhdmoffset root) s ops)
    (finished : run (vmmStep hhdmoffset root) s ops = .done final) :
    (∀ virtAddr, translate final.memory root virtAddr =
      mappedBy ops (virtualPage virtAddr)) ∧
    (∀ page, IsTable final.memory root page → page ∉ freePages hhdmoffset final) ∧
    (∀ left right table, left.length ≤ 3 → right.length ≤ 3 →
      tableAt final.memory root left = some table →
      tableAt final.memory root right = some table → left = right) := by
  have implements := start.implements.run permitted finished
  exact ⟨implements.translate, implements.wf.tableUsed, implements.wf.separated⟩

/-- A zeroed root page at `0x1000` and three free frames behind it. -/
theorem threeFrames_start :
    let s := [0x2000, 0x3000, 0x4000].foldl (pushPage 0xffff800000000000) (.boot fun _ => 0)
    VmmStart 0xffff800000000000 0x1000 s ∧
      freePages 0xffff800000000000 s = [0x4000, 0x3000, 0x2000] ∧
      NoNull 0xffff800000000000 0x1000 s := by
  intro s
  have empty : VmmStart 0xffff800000000000 0x1000 (.boot fun _ => 0) := by
    refine ⟨rfl, List.nodup_nil, by simp [freePages, MmState.boot], by decide, ?_, ?_⟩
    · simp [freePages, MmState.boot]
    · intro index
      exact Memory.read64_of_zero fun _ _ => rfl
  obtain ⟨start, pages⟩ : VmmStart 0xffff800000000000 0x1000 s ∧
      freePages 0xffff800000000000 s = [0x4000, 0x3000, 0x2000] :=
    empty.pushPages (by decide) (by simp [PageAligned, blockSize]) (by decide)
      (by simp [freePages, MmState.boot])
  refine ⟨start, pages, ?_⟩
  intro page known
  rw [pages, start.isTable_iff] at known
  simp only [List.mem_cons, List.not_mem_nil, or_false] at known
  rcases known with (rfl | rfl | rfl) | rfl <;> decide

/-- Three frames for tables beside a zeroed root: two pages are mapped, and the first of
them is unmapped again. -/
theorem vmm_run_map_map_unmap :
    let s := [0x2000, 0x3000, 0x4000].foldl (pushPage 0xffff800000000000) (.boot fun _ => 0)
    let ops : List VmmOp :=
      [.map 0x400000 0x9000 0x3, .map 0x401000 0xa000 0x1, .unmap 0x400000]
    ∃ final, run (vmmStep 0xffff800000000000 0x1000) s ops = .done final ∧
      translate final.memory 0x1000 0x400000 = none ∧
      translate final.memory 0x1000 0x401abc = some 0xa001 := by
  intro s ops
  obtain ⟨start, pages, noNull⟩ : VmmStart 0xffff800000000000 0x1000 s ∧
      freePages 0xffff800000000000 s = [0x4000, 0x3000, 0x2000] ∧
      NoNull 0xffff800000000000 0x1000 s := threeFrames_start
  obtain ⟨first, firstStep, -⟩ := start.implements.wf.vmmMapPage_returns noNull rfl
    (by rw [← @length_freePages 0xffff800000000000, pages]; decide) 0x400000 0x9000 0x3
  have firstMapped := start.implements.wf.vmmMapPage (by decide) firstStep
  obtain ⟨table, reached⟩ := firstMapped.reached
  have sameTable : tableAt first.memory 0x1000 (tablePath 0x401000) = some table := reached
  obtain ⟨second, secondStep⟩ : ∃ second, vmmMapPage _ first _ 0x401000 0xa000 0x1 =
      .done second :=
    ⟨_, vmmMapPage_of_found (fun _ => (firstMapped.noNull noNull).tables)
      firstMapped.unlocked sameTable 0xa000 0x1⟩
  have secondMapped := firstMapped.wf.vmmMapPage (by decide) secondStep
  have mapped : translate second.memory 0x1000 0x400000 = some 0x9003 := by
    rw [secondMapped.translate, if_neg (by decide), firstMapped.translate, if_pos rfl]
    rfl
  have apart : ¬ (0x9000 ∈ freePages 0xffff800000000000 second ∨
      IsTable second.memory 0x1000 0x9000) := by
    rw [secondMapped.pages, firstMapped.pages, pages, start.isTable_iff]
    decide
  obtain ⟨final, finalStep⟩ := secondMapped.wf.vmmFreePage_returns
    (secondMapped.noNull (firstMapped.noNull noNull)) mapped
  have finished : run (vmmStep 0xffff800000000000 0x1000) s ops = .done final := by
    simp only [ops, run_cons, vmmStep, firstStep, secondStep, finalStep, Outcome.done_bind,
      run_nil]
  have permitted : Along (vmmStep 0xffff800000000000 0x1000)
      (VmmAllowed 0xffff800000000000 0x1000) s ops := by
    refine ⟨⟨by decide, by decide, by decide, by decide⟩, ?_⟩
    intro next stepped
    cases firstStep.symm.trans stepped
    refine ⟨⟨by decide, by decide, by decide, by decide⟩, ?_⟩
    intro next stepped
    cases secondStep.symm.trans stepped
    refine ⟨⟨_, mapped, (not_or.mp apart).2, (not_or.mp apart).1⟩, ?_⟩
    exact fun _ _ => trivial
  obtain ⟨refined, -⟩ := vmm_run_refines_map start permitted finished
  exact ⟨final, finished, refined 0x400000, refined 0x401abc⟩

end Lord84
