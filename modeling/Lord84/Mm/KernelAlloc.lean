import Lord84.Mm.KernelMap
import Lord84.Mm.PmmRun

/-!
# Memory for the kernel

A model of `kernel_allocate_memory` of `src/mm/vmm.c`.  The function takes pages one by
one, maps each of them at its place in the direct map and returns the address of the last
one.  The result is a range of the requested size only if the free list happens to yield
consecutive pages and to end with the lowest of them.
-/

namespace Lord84

open Theory

section Allocate

variable (hhdmoffset : Word)

/-- The loop of `kernel_allocate_memory`; `ret` is the page of the previous iteration.
Every iteration takes a page off the free list, so one unit of `fuel` more than there are
free pages is never used up, not even if `i` wraps around. -/
def allocatePages (size flags : Word) : Nat → Word → Word → MmState → Outcome (Word × MmState)
  | 0, _, _, _ => .spinning
  | fuel + 1, i, ret, s =>
      if i < size then do
        let (ret, s) ← pmmAlloc hhdmoffset s
        if ret = 0 then
          return (0, s)
        let s ← vmmMapPage hhdmoffset s s.kernelPageMap (ret + hhdmoffset) ret
          (pteBitPresent ||| flags)
        allocatePages size flags fuel (i + pageSize) ret s
      else
        return (ret + hhdmoffset, s)

/-- `kernel_allocate_memory`; the first component is the returned pointer. -/
def kernelAllocateMemory (size flags : Word) (s : MmState) : Outcome (Word × MmState) :=
  if size = 0 then
    return (0, s)
  else
    allocatePages hhdmoffset size flags (s.pmmFreePageCount.toNat + 1) 0 0 s

/-- The tables reach every page of `pages`, the memory of the allocator, at its place in
the direct map. -/
structure DirectMapped (root : Word) (pages : List Word) (s : MmState) : Prop where
  wf : TablesWF hhdmoffset root s
  unlocked : s.pageTableLock = false
  pageMap : s.kernelPageMap = root + hhdmoffset
  owned : ∀ page, page ∈ freePages hhdmoffset s ∨ IsTable s.memory root page → page ∈ pages
  reached : ∀ page ∈ pages,
    ∃ table, tableAt s.memory root (tablePath (page + hhdmoffset)) = some table

/-- The pages are frames, and their direct map has no page at address 0 and none at two
places. -/
structure DirectMappable (pages : List Word) : Prop where
  frame : ∀ page ∈ pages, IsFrame page
  nonNull : ∀ page ∈ pages, page + hhdmoffset ≠ 0
  injective : ∀ left ∈ pages, ∀ right ∈ pages,
    virtualPage (left + hhdmoffset) = virtualPage (right + hhdmoffset) → left = right

/-- Effect of the iterations that take the pages `taken` and leave `rest`. -/
structure Allocated (root : Word) (pages : List Word) (flags : Word) (taken rest : List Word)
    (s next : MmState) : Prop where
  direct : DirectMapped hhdmoffset root pages next
  free : freePages hhdmoffset next = rest
  isTable : ∀ page, IsTable next.memory root page ↔ IsTable s.memory root page
  mapped : ∀ page ∈ taken, translate next.memory root (page + hhdmoffset) =
    some (page ||| (pteBitPresent ||| flags))
  kept : ∀ query, (∀ page ∈ taken, virtualPage query ≠ virtualPage (page + hhdmoffset)) →
    translate next.memory root query = translate s.memory root query

end Allocate

section Loop

variable {hhdmoffset root flags size : Word} {pages : List Word} {s next : MmState}

theorem present_flags (flags : Word) : (pteBitPresent ||| flags) &&& presentBit ≠ 0 := by
  rw [BitVec.or_comm]
  exact present_or (by decide) flags

/-- The direct map stays in order while the entries of the tables are kept. -/
theorem DirectMapped.of_sameEntries (direct : DirectMapped hhdmoffset root pages s)
    (same : SameEntries root s.memory next.memory) (wf : TablesWF hhdmoffset root next)
    (lock : next.pageTableLock = s.pageTableLock) (pageMap : next.kernelPageMap = s.kernelPageMap)
    (free : ∀ page ∈ freePages hhdmoffset next, page ∈ pages) :
    DirectMapped hhdmoffset root pages next where
  wf := wf
  unlocked := lock.trans direct.unlocked
  pageMap := pageMap.trans direct.pageMap
  owned page known := by
    rcases known with listed | isTable
    · exact free page listed
    · exact direct.owned page (Or.inr ((same.isTable page).mp isTable))
  reached page member := by
    obtain ⟨table, found⟩ := direct.reached page member
    exact ⟨table, (same.tableAt (Nat.le_of_eq (length_tablePath _))).trans found⟩

theorem DirectMapped.popPage (direct : DirectMapped hhdmoffset root pages s)
    (available : s.pmmFreePageCount ≠ 0) :
    DirectMapped hhdmoffset root pages (popPage hhdmoffset s) := by
  have same : SameEntries root s.memory (Lord84.popPage hhdmoffset s).memory := fun _ _ _ => rfl
  apply direct.of_sameEntries same (direct.wf.popPage available) rfl rfl
  intro page rest
  apply direct.owned page (Or.inl ?_)
  rw [freePages_popPage available]
  exact List.mem_cons_of_mem _ rest

/-- Mapping a page at its place in the direct map changes the entry of that page only. -/
theorem DirectMapped.mapPage (direct : DirectMapped hhdmoffset root pages s)
    (mappable : DirectMappable hhdmoffset pages) {page : Word} (known : page ∈ pages)
    (flags : Word) :
    ∃ next, vmmMapPage hhdmoffset s s.kernelPageMap (page + hhdmoffset) page
        (pteBitPresent ||| flags) = .done next ∧
      Allocated hhdmoffset root pages flags [page] (freePages hhdmoffset s) s next := by
  obtain ⟨table, found⟩ := direct.reached page known
  have isTable := isTable_of_found found
  let entry := page ||| (pteBitPresent ||| flags)
  let next := writeEntry s table (tableIndex (page + hhdmoffset)) entry
  have stepped : vmmMapPage hhdmoffset s (root + hhdmoffset) (page + hhdmoffset) page
      (pteBitPresent ||| flags) = .done next :=
    vmmMapPage_of_found
      (fun other isTable => mappable.nonNull other (direct.owned other (Or.inr isTable)))
      direct.unlocked found page (pteBitPresent ||| flags)
  have mapped := direct.wf.vmmMapPage (present_flags flags) stepped
  have sameFree : freePages hhdmoffset next = freePages hhdmoffset s :=
    direct.wf.freePages_writeEntry isTable _ entry
  have sameTables : ∀ path, path.length ≤ 3 →
      tableAt next.memory root path = tableAt s.memory root path := fun path short =>
    direct.wf.tableAt_writeEntry (length_tablePath _) found _ entry short
  have sameIsTable : ∀ other, IsTable next.memory root other ↔ IsTable s.memory root other := by
    intro other
    exact exists_congr fun path => and_congr_right fun short => by rw [sameTables path short]
  refine ⟨next, direct.pageMap ▸ stepped, ?_⟩
  constructor
  · constructor
    · exact mapped.wf
    · exact mapped.unlocked
    · exact mapped.pageMap.trans direct.pageMap
    · intro other owned
      rw [sameFree, sameIsTable] at owned
      exact direct.owned other owned
    · intro other member
      obtain ⟨lower, reached⟩ := direct.reached other member
      exact ⟨lower, by rw [sameTables _ (Nat.le_of_eq (length_tablePath _)), reached]⟩
  · exact sameFree
  · exact sameIsTable
  · intro other member
    rw [List.mem_singleton.mp member, mapped.translate, if_pos rfl]
  · intro query elsewhere
    rw [mapped.translate, if_neg (elsewhere page List.mem_cons_self)]

/-- One iteration that finds a page other than the one at address 0. -/
theorem DirectMapped.iterate (direct : DirectMapped hhdmoffset root pages s)
    (mappable : DirectMappable hhdmoffset pages) {page : Word} {rest : List Word}
    (free : freePages hhdmoffset s = page :: rest) (nonzero : page ≠ 0) {i : Word}
    (more : i < size) (fuel : Nat) (ret : Word) :
    ∃ next, allocatePages hhdmoffset size flags (fuel + 1) i ret s =
        allocatePages hhdmoffset size flags fuel (i + pageSize) page next ∧
      Allocated hhdmoffset root pages flags [page] rest s next := by
  obtain ⟨available, first, restFree⟩ := pop_of_freePages_cons free
  have known : page ∈ pages := direct.owned page (Or.inl (free ▸ List.mem_cons_self))
  obtain ⟨next, stepped, allocated⟩ := (direct.popPage available).mapPage mappable known flags
  refine ⟨next, ?_, ?_⟩
  · rw [allocatePages, if_pos more, pmmAlloc_eq direct.wf.pmm.unlocked available,
      Outcome.done_bind, first]
    simp only [if_neg nonzero]
    rw [stepped, Outcome.done_bind]
  · rw [restFree] at allocated
    exact ⟨allocated.direct, allocated.free, allocated.isTable, allocated.mapped, allocated.kept⟩

theorem DirectMapped.nil (direct : DirectMapped hhdmoffset root pages s) (flags : Word) :
    Allocated hhdmoffset root pages flags [] (freePages hhdmoffset s) s s where
  direct := direct
  free := rfl
  isTable _ := Iff.rfl
  mapped _ member := absurd member List.not_mem_nil
  kept _ _ := rfl

/-- An iteration followed by others that take different pages. -/
theorem Allocated.cons {page : Word} {taken middle rest : List Word} {reached next : MmState}
    (first : Allocated hhdmoffset root pages flags [page] middle s reached)
    (later : Allocated hhdmoffset root pages flags taken rest reached next)
    (different : ∀ other ∈ taken,
      virtualPage (page + hhdmoffset) ≠ virtualPage (other + hhdmoffset)) :
    Allocated hhdmoffset root pages flags (page :: taken) rest s next where
  direct := later.direct
  free := later.free
  isTable other := (later.isTable other).trans (first.isTable other)
  mapped other member := by
    rcases List.mem_cons.mp member with rfl | rest
    · rw [later.kept _ different]
      exact first.mapped other List.mem_cons_self
    · exact later.mapped other rest
  kept query elsewhere := by
    rw [later.kept query fun other member => elsewhere other (List.mem_cons_of_mem _ member)]
    apply first.kept
    intro other member
    rw [List.mem_singleton.mp member]
    exact elsewhere page List.mem_cons_self

theorem lt_pageCount_iff (number : Nat) (size : Word) :
    number < pageCount 0 size ↔ number * blockSize < size.toNat := by
  simp only [pageCount, blockSize, show (0 : Word).toNat = 0 from rfl]
  omega

/-- The loop counter after `number` iterations is below the size while pages are missing. -/
theorem counter_lt_iff {number : Nat} (fits : number * blockSize < 2 ^ 64) :
    BitVec.ofNat 64 (number * blockSize) < size ↔ number < pageCount 0 size := by
  rw [BitVec.lt_def, BitVec.toNat_ofNat, Nat.mod_eq_of_lt fits, lt_pageCount_iff]

/-- The first iterations take the first pages of the free list. -/
theorem DirectMapped.allocatePages {taken rest : List Word}
    (direct : DirectMapped hhdmoffset root pages s)
    (mappable : DirectMappable hhdmoffset pages)
    (free : freePages hhdmoffset s = taken ++ rest) (nonzero : 0 ∉ taken) {number : Nat}
    (within : number + taken.length ≤ pageCount 0 size)
    (fits : pageCount 0 size * blockSize < 2 ^ 64) (fuel : Nat) (ret : Word) :
    ∃ next, allocatePages hhdmoffset size flags (fuel + taken.length)
          (BitVec.ofNat 64 (number * blockSize)) ret s =
        Lord84.allocatePages hhdmoffset size flags fuel
          (BitVec.ofNat 64 ((number + taken.length) * blockSize)) (taken.getLastD ret) next ∧
      Allocated hhdmoffset root pages flags taken rest s next := by
  induction taken generalizing s number ret with
  | nil =>
      refine ⟨s, rfl, ?_⟩
      rw [List.nil_append] at free
      exact free ▸ direct.nil flags
  | cons page taken ih =>
      rw [List.length_cons] at within
      rw [List.mem_cons, not_or] at nonzero
      obtain ⟨pageNonzero, restNonzero⟩ := nonzero
      have more : BitVec.ofNat 64 (number * blockSize) < size := by
        have counted : number * blockSize < 2 ^ 64 :=
          Nat.lt_of_le_of_lt (Nat.mul_le_mul_right _ (by omega)) fits
        exact (counter_lt_iff counted).mpr (by omega)
      obtain ⟨reached, stepped, first⟩ := @DirectMapped.iterate _ _ flags size _ _ direct mappable
        _ _ free (Ne.symm pageNonzero) _ more (fuel + taken.length) ret
      obtain ⟨next, finished, later⟩ := @ih reached first.direct first.free restNonzero
        (number + 1) (by omega) page
      refine ⟨next, ?_, first.cons later ?_⟩
      · have counter : BitVec.ofNat 64 (number * blockSize) + pageSize =
            BitVec.ofNat 64 ((number + 1) * blockSize) := by
          rw [Nat.succ_mul, BitVec.ofNat_add]
          rfl
        rw [List.length_cons, ← Nat.add_assoc, stepped, counter, finished, Nat.add_right_comm,
          Nat.add_assoc number, List.getLastD_cons]
      · intro other member same
        have nodup := direct.wf.pmm.nodup
        rw [free, List.cons_append, List.nodup_cons, List.mem_append, not_or] at nodup
        have owned : ∀ known ∈ page :: taken, known ∈ pages := by
          intro known listed
          apply direct.owned known (Or.inl ?_)
          rw [free]
          exact List.mem_append_left _ listed
        have equal := mappable.injective page (owned page List.mem_cons_self) other
          (owned other (List.mem_cons_of_mem _ member)) same
        exact nodup.1.1 (equal ▸ member)

/-- The root is not on the free list, so the list does not fill the address space and the
loop counter cannot wrap around. -/
theorem DirectMapped.fits (direct : DirectMapped hhdmoffset root pages s)
    (enough : pageCount 0 size ≤ s.pmmFreePageCount.toNat) :
    pageCount 0 size * blockSize < 2 ^ 64 := by
  have isTable := isTable_root s.memory root
  have nodup : (root :: freePages hhdmoffset s).Nodup :=
    List.nodup_cons.mpr ⟨direct.wf.tableUsed root isTable, direct.wf.pmm.nodup⟩
  have aligned : ∀ page ∈ root :: freePages hhdmoffset s, PageAligned page :=
    List.forall_mem_cons.mpr ⟨direct.wf.tableAligned root isTable, direct.wf.pmm.aligned⟩
  have bound := length_le_of_pageAligned nodup aligned
  rw [List.length_cons, length_freePages] at bound
  simp only [blockSize]
  omega

/-- With enough pages on the list, none of them at address 0, the call takes as many as it
needs and returns the place of the last one. -/
theorem DirectMapped.kernelAllocateMemory {taken rest : List Word}
    (direct : DirectMapped hhdmoffset root pages s) (mappable : DirectMappable hhdmoffset pages)
    (positive : size ≠ 0) (free : freePages hhdmoffset s = taken ++ rest)
    (all : taken.length = pageCount 0 size) (nonzero : 0 ∉ taken) (flags : Word) :
    ∃ next, kernelAllocateMemory hhdmoffset size flags s =
        .done (taken.getLastD 0 + hhdmoffset, next) ∧
      Allocated hhdmoffset root pages flags taken rest s next := by
  have count : s.pmmFreePageCount.toNat = taken.length + rest.length := by
    rw [← @length_freePages hhdmoffset, free, List.length_append]
  have fits : pageCount 0 size * blockSize < 2 ^ 64 := direct.fits (by omega)
  obtain ⟨next, finished, allocated⟩ := @DirectMapped.allocatePages _ _ flags size _ _ _ rest
    direct mappable free nonzero 0 (by omega) fits (rest.length + 1) 0
  refine ⟨next, ?_, allocated⟩
  have fuel : s.pmmFreePageCount.toNat + 1 = rest.length + 1 + taken.length := by
    omega
  rw [Lord84.kernelAllocateMemory, if_neg positive, fuel]
  refine finished.trans ?_
  rw [Nat.zero_add, all, Lord84.allocatePages, if_neg]
  · rfl
  · rw [counter_lt_iff fits]
    exact Nat.lt_irrefl _

/-- The page at address 0 is taken for a failure of the allocator. -/
theorem DirectMapped.kernelAllocateMemory_null {taken rest : List Word}
    (direct : DirectMapped hhdmoffset root pages s) (mappable : DirectMappable hhdmoffset pages)
    (positive : size ≠ 0) (enough : pageCount 0 size ≤ s.pmmFreePageCount.toNat)
    (free : freePages hhdmoffset s = taken ++ 0 :: rest)
    (before : taken.length < pageCount 0 size) (nonzero : 0 ∉ taken) (flags : Word) :
    ∃ next, Lord84.kernelAllocateMemory hhdmoffset size flags s = .done (0, next) := by
  have count : s.pmmFreePageCount.toNat = taken.length + (rest.length + 1) := by
    rw [← @length_freePages hhdmoffset, free, List.length_append, List.length_cons]
  have fits := direct.fits enough
  obtain ⟨next, finished, allocated⟩ := @DirectMapped.allocatePages _ _ flags size _ _ _
    (0 :: rest) direct mappable free nonzero 0 (by omega) fits (rest.length + 2) 0
  obtain ⟨available, first, -⟩ := pop_of_freePages_cons allocated.free
  have counted : taken.length * blockSize < 2 ^ 64 :=
    Nat.lt_of_le_of_lt (Nat.mul_le_mul_right _ (Nat.le_of_lt before)) fits
  refine ⟨Lord84.popPage hhdmoffset next, ?_⟩
  have fuel : s.pmmFreePageCount.toNat + 1 = rest.length + 2 + taken.length := by
    omega
  rw [Lord84.kernelAllocateMemory, if_neg positive, fuel]
  refine finished.trans ?_
  rw [Nat.zero_add, Lord84.allocatePages, if_pos ((counter_lt_iff counted).mpr before),
    pmmAlloc_eq allocated.direct.wf.pmm.unlocked available, Outcome.done_bind, first]
  rfl

end Loop

/-! ## The returned range -/

section Range

variable (hhdmoffset root : Word)

/-- The page left the free list between the two states, and it did not become a table. -/
def Took (s next : MmState) (page : Word) : Prop :=
  page ∈ freePages hhdmoffset s ∧ page ∉ freePages hhdmoffset next ∧
    ¬ IsTable next.memory root page

/-- What a caller of `kernel_allocate_memory` relies on: all bytes of the range lie in pages
that this call took, each of these is mapped to itself with the flags of the caller, and no
byte lies in a page of another owner. -/
structure KernelRange (outstanding : List Word) (s next : MmState) (address size flags : Word) :
    Prop where
  nonNull : address ≠ 0
  inside : ∀ offset < size.toNat, ∃ page, Took hhdmoffset root s next page ∧
    InPage page (address + BitVec.ofNat 64 offset - hhdmoffset)
  mapped : ∀ page, Took hhdmoffset root s next page →
    ∃ result, walk next.memory root (page + hhdmoffset) = some result ∧
      result.frame = page ∧ result.pte = page ||| (pteBitPresent ||| flags)
  apart : ∀ offset < size.toNat, ∀ owner,
    owner ∈ outstanding ∨ owner ∈ freePages hhdmoffset next ∨ IsTable next.memory root owner →
    ¬ InPage owner (address + BitVec.ofNat 64 offset - hhdmoffset)

/-- The pages are consecutive, the last one on the list is the lowest, none of them is the
page at address 0, and the flags do not reach into their addresses. -/
structure Consecutive (pages : List Word) (flags : Word) : Prop where
  nonzero : 0 ∉ pages
  upward : ∀ number < pages.length,
    pages.getLastD 0 + BitVec.ofNat 64 (number * blockSize) ∈ pages
  clean : ∀ page ∈ pages, page ||| (flags &&& addressMask) = page

variable {hhdmoffset root}

theorem PageAligned.add_pages {page : Word} (aligned : PageAligned page) (number : Nat) :
    PageAligned (page + BitVec.ofNat 64 (number * blockSize)) := by
  simp only [PageAligned, blockSize, BitVec.toNat_add, BitVec.toNat_ofNat] at *
  omega

/-- The frame of a leaf entry for a page, with any flags. -/
theorem IsFrame.frame_eq_iff {page : Word} (frame : IsFrame page) (flags : Word) :
    (page ||| (pteBitPresent ||| flags)) &&& addressMask = page ↔
      page ||| (flags &&& addressMask) = page := by
  simp only [BitVec.and_or_distrib_right]
  rw [show page &&& addressMask = page from frame,
    show pteBitPresent &&& addressMask = 0#64 by decide, BitVec.zero_or]

section Allocated

variable {flags size : Word} {pages taken rest : List Word} {s next : MmState}

theorem mem_freePages_of_taken (free : freePages hhdmoffset s = taken ++ rest) :
    ∀ page ∈ taken, page ∈ freePages hhdmoffset s := by
  intro page member
  rw [free]
  exact List.mem_append_left _ member

/-- The pages that the call took are those of the loop. -/
theorem Allocated.took_iff (allocated : Allocated hhdmoffset root pages flags taken rest s next)
    (wf : TablesWF hhdmoffset root s) (free : freePages hhdmoffset s = taken ++ rest)
    (page : Word) : Took hhdmoffset root s next page ↔ page ∈ taken := by
  have nodup := wf.pmm.nodup
  rw [free] at nodup
  rw [Took, free, allocated.free, allocated.isTable, List.mem_append]
  constructor
  · rintro ⟨known, used, -⟩
    exact known.resolve_right used
  · intro member
    refine ⟨Or.inl member, ?_, ?_⟩
    · intro left
      exact (List.nodup_append.mp nodup).2.2 page member page left rfl
    · intro isTable
      exact wf.tableUsed page isTable (mem_freePages_of_taken free page member)

/-- The physical address of a byte of the range that starts at the page `last`. -/
theorem range_byte (last offset : Word) :
    last + hhdmoffset + offset - hhdmoffset = last + offset := by
  rw [add_right_comm, add_sub_cancel_right]

/-- The last page that a call of a positive size takes. -/
theorem getLastD_mem (positive : size ≠ 0) (all : taken.length = pageCount 0 size) :
    taken.getLastD 0 ∈ taken := by
  have some : 0 < taken.length := by
    rw [all, lt_pageCount_iff, Nat.zero_mul]
    bv_omega
  rw [List.getLastD_eq_getLast?, List.getLast?_eq_some_getLast (List.ne_nil_of_length_pos some)]
  exact List.getLast_mem _

theorem Allocated.consecutive (allocated : Allocated hhdmoffset root pages flags taken rest s next)
    (wf : TablesWF hhdmoffset root s) (free : freePages hhdmoffset s = taken ++ rest)
    (positive : size ≠ 0) (all : taken.length = pageCount 0 size) (nonzero : 0 ∉ taken)
    {outstanding : List Word}
    (range : KernelRange hhdmoffset root outstanding s next (taken.getLastD 0 + hhdmoffset) size
      flags) : Consecutive taken flags := by
  have listed := mem_freePages_of_taken free
  constructor
  · exact nonzero
  · intro number counted
    rw [all, lt_pageCount_iff] at counted
    obtain ⟨page, took, here⟩ := range.inside _ counted
    have member := (allocated.took_iff wf free page).mp took
    have lastAligned := wf.pmm.aligned _ (listed _ (getLastD_mem positive all))
    rw [range_byte] at here
    have start : InPage (taken.getLastD 0 + BitVec.ofNat 64 (number * blockSize))
        (taken.getLastD 0 + BitVec.ofNat 64 (number * blockSize)) := by
      simp [InPage, blockSize]
    rw [start.unique (lastAligned.add_pages number) (wf.pmm.aligned page (listed page member)) here]
    exact member
  · intro page member
    obtain ⟨result, -, frame, entry⟩ :=
      range.mapped page ((allocated.took_iff wf free page).mpr member)
    rw [← (wf.freeFrame page (listed page member)).frame_eq_iff, ← entry]
    exact frame

/-- Consecutive pages cover the range that starts at the last of them. -/
theorem Consecutive.covers (consecutive : Consecutive taken flags)
    (aligned : ∀ page ∈ taken, PageAligned page) (all : taken.length = pageCount 0 size)
    {offset : Nat} (within : offset < size.toNat) :
    ∃ page ∈ taken, InPage page (taken.getLastD 0 + BitVec.ofNat 64 offset) := by
  have counted : offset / blockSize < taken.length := by
    rw [all, lt_pageCount_iff]
    exact Nat.lt_of_le_of_lt (Nat.div_mul_le_self _ _) within
  have member := consecutive.upward _ counted
  have split : taken.getLastD 0 + BitVec.ofNat 64 offset =
      taken.getLastD 0 + BitVec.ofNat 64 (offset / blockSize * blockSize) +
        BitVec.ofNat 64 (offset % blockSize) := by
    rw [BitVec.add_assoc, ← BitVec.ofNat_add, Nat.div_add_mod']
  refine ⟨_, member, ?_⟩
  rw [split]
  exact (aligned _ member).inPage (Nat.mod_lt _ (by decide))

theorem Allocated.kernelRange (allocated : Allocated hhdmoffset root pages flags taken rest s next)
    (mappable : DirectMappable hhdmoffset pages) (direct : DirectMapped hhdmoffset root pages s)
    (free : freePages hhdmoffset s = taken ++ rest) (positive : size ≠ 0)
    (all : taken.length = pageCount 0 size) {outstanding : List Word}
    (held : ∀ owner ∈ outstanding, PageAligned owner ∧ owner ∉ freePages hhdmoffset s)
    (consecutive : Consecutive taken flags) :
    KernelRange hhdmoffset root outstanding s next (taken.getLastD 0 + hhdmoffset) size flags := by
  have listed := mem_freePages_of_taken free
  have took := allocated.took_iff direct.wf free
  have aligned : ∀ page ∈ taken, PageAligned page :=
    fun page member => direct.wf.pmm.aligned page (listed page member)
  constructor
  · exact mappable.nonNull _
      (direct.owned _ (Or.inl (listed _ (getLastD_mem positive all))))
  · intro offset within
    obtain ⟨page, member, here⟩ := consecutive.covers aligned all within
    exact ⟨page, (took page).mpr member, by rw [range_byte]; exact here⟩
  · intro page isTaken
    have member := (took page).mp isTaken
    have mapped := allocated.mapped page member
    rw [translate, Option.map_eq_some_iff] at mapped
    obtain ⟨result, walked, entry⟩ := mapped
    refine ⟨result, walked, ?_, entry⟩
    rw [PageWalk.frame, entry, (direct.wf.freeFrame page (listed page member)).frame_eq_iff]
    exact consecutive.clean page member
  · intro offset within owner owns there
    obtain ⟨page, member, here⟩ := consecutive.covers aligned all within
    obtain ⟨-, used, notTable⟩ := (took page).mpr member
    rw [range_byte] at there
    have ownerAligned : PageAligned owner := by
      rcases owns with kept | unused | isTable
      · exact (held owner kept).1
      · exact allocated.direct.wf.pmm.aligned owner unused
      · exact allocated.direct.wf.tableAligned owner isTable
    have same := there.unique ownerAligned (aligned page member) here
    subst same
    rcases owns with kept | unused | isTable
    · exact (held owner kept).2 (listed owner member)
    · exact used unused
    · exact notTable isTable

end Allocated

/-- From a state in which the memory of the allocator is mapped, a call for which enough
pages are left returns a good range exactly when the pages it takes are consecutive. -/
theorem DirectMapped.kernelRange_iff {pages outstanding : List Word} {s : MmState}
    (direct : DirectMapped hhdmoffset root pages s) (mappable : DirectMappable hhdmoffset pages)
    (held : ∀ owner ∈ outstanding, PageAligned owner ∧ owner ∉ freePages hhdmoffset s)
    {size : Word} (positive : size ≠ 0)
    (enough : pageCount 0 size ≤ s.pmmFreePageCount.toNat) (flags : Word) :
    (∃ address next, Lord84.kernelAllocateMemory hhdmoffset size flags s = .done (address, next) ∧
        KernelRange hhdmoffset root outstanding s next address size flags) ↔
      Consecutive ((freePages hhdmoffset s).take (pageCount 0 size)) flags := by
  have free := (List.take_append_drop (pageCount 0 size) (freePages hhdmoffset s)).symm
  have all : ((freePages hhdmoffset s).take (pageCount 0 size)).length = pageCount 0 size := by
    rw [List.length_take, length_freePages, Nat.min_eq_left enough]
  by_cases nonzero : 0 ∈ (freePages hhdmoffset s).take (pageCount 0 size)
  · apply iff_of_false
    · rintro ⟨address, next, returned, range⟩
      obtain ⟨before, after, split, fresh⟩ := List.eq_append_cons_of_mem nonzero
      rw [split, List.append_assoc, List.cons_append] at free
      have shorter : before.length < pageCount 0 size := by
        rw [← all, split, List.length_append, List.length_cons]
        omega
      obtain ⟨other, failed⟩ :=
        direct.kernelAllocateMemory_null mappable positive enough free shorter fresh flags
      cases failed.symm.trans returned
      exact range.nonNull rfl
    · exact fun consecutive => consecutive.nonzero nonzero
  · obtain ⟨next, returned, allocated⟩ :=
      direct.kernelAllocateMemory mappable positive free all nonzero flags
    constructor
    · rintro ⟨address, other, alsoReturned, range⟩
      cases returned.symm.trans alsoReturned
      exact allocated.consecutive direct.wf free positive all nonzero range
    · intro consecutive
      exact ⟨_, next, returned,
        allocated.kernelRange mappable direct free positive all held consecutive⟩

end Range

end Lord84
