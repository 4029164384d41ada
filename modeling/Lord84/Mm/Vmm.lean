import Lord84.Mm.Paging
import Mathlib.Algebra.Group.Basic

/-!
# Mapping and unmapping pages

A model of `get_lower_table`, `vmm_map_page` and `vmm_free_page` of `src/mm/vmm.c`.
Tables are pages of the physical allocator; they are allocated on the way down and
reached, like everything else in physical memory, through the direct map.
-/

namespace Lord84

open Theory

/-- `PTE_BIT_PRESENT` -/
def pteBitPresent : Word := 0x1

/-- `PTE_BIT_RW` -/
def pteBitRw : Word := 0x2

/-- `PTE_BIT_US` -/
def pteBitUs : Word := 0x4

/-- `PTE_BIT_NX`, with the value of `vmm.h`. -/
def pteBitNx : Word := 0x4000000000000000

/-- `PAGE_SIZE` -/
def pageSize : Word := 4096

section Vmm

variable (hhdmoffset : Word)

/-- `get_lower_table`; the first component is the returned pointer. -/
def getLowerTable (s : MmState) (pageMap offset : Word) : Outcome (Word × MmState) := do
  let entryPointer := pageMap + offset * 8#64
  let entry := load64 hhdmoffset s.memory entryPointer
  if entry &&& pteBitPresent ≠ 0 then
    return ((entry &&& 0x000ffffffffff000) + hhdmoffset, s)
  let (ret, s) ← pmmAlloc hhdmoffset s
  if ret = 0 then
    return (0, s)
  let s := { s with memory := memset s.memory (ret + hhdmoffset - hhdmoffset) 0 pageSize }
  let newEntry := ret ||| pteBitPresent ||| pteBitRw ||| pteBitUs
  let s := { s with memory := store64 hhdmoffset s.memory entryPointer newEntry }
  return (ret + hhdmoffset, s)

/-- `if(!table){ klog(...); kkill(); }` after a call of `get_lower_table`. -/
def killIfNull (result : Word × MmState) : Outcome (Word × MmState) :=
  if result.1 = 0 then .killed else .done result

/-- The three descents at the start of `vmm_map_page` and `vmm_free_page`: the page
table for a virtual address, with the missing tables allocated. -/
def lowestTable (s : MmState) (pageMap virtAddr : Word) : Outcome (Word × MmState) := do
  let pml4Offset := (virtAddr >>> 39) &&& 0x1ff
  let pdpOffset := (virtAddr >>> 30) &&& 0x1ff
  let pdOffset := (virtAddr >>> 21) &&& 0x1ff
  let (pdp, s) ← getLowerTable hhdmoffset s pageMap pml4Offset >>= killIfNull
  let (pd, s) ← getLowerTable hhdmoffset s pdp pdpOffset >>= killIfNull
  getLowerTable hhdmoffset s pd pdOffset >>= killIfNull

/-- `vmm_map_page`.  Reloading `cr3` flushes the TLB and changes no memory. -/
def vmmMapPage (s : MmState) (pageMap virtAddr physAddr flags : Word) : Outcome MmState := do
  let lock ← acquireLock s.pageTableLock
  let s := { s with pageTableLock := lock }
  let ptOffset := (virtAddr >>> 12) &&& 0x1ff
  let (pt, s) ← lowestTable hhdmoffset s pageMap virtAddr
  let s := { s with
    memory := store64 hhdmoffset s.memory (pt + ptOffset * 8#64) (physAddr ||| flags) }
  return { s with pageTableLock := freeLock s.pageTableLock }

/-- `vmm_free_page`, which takes no lock of its own. -/
def vmmFreePage (s : MmState) (pageMap virtAddr : Word) : Outcome MmState := do
  let ptOffset := (virtAddr >>> 12) &&& 0x1ff
  let (pt, s) ← lowestTable hhdmoffset s pageMap virtAddr
  let entry := load64 hhdmoffset s.memory (pt + ptOffset * 8#64)
  let s ← pmmFree hhdmoffset s (entry &&& 0x000ffffffffff000)
  return { s with memory := store64 hhdmoffset s.memory (pt + ptOffset * 8#64) 0 }

/-! ## Descending one level -/

/-- Entry that `get_lower_table` writes for a new table. -/
def tableEntry (table : Word) : Word :=
  table ||| pteBitPresent ||| pteBitRw ||| pteBitUs

/-- The state after `get_lower_table` has attached a new page at entry `index` of
`table`. -/
def attachTable (s : MmState) (table : Word) (index : BitVec 9) : MmState :=
  let page := s.freeList - hhdmoffset
  { popPage hhdmoffset s with
    memory := (s.memory.fill page 0 blockSize).write64 (entryAddress table index)
      (tableEntry page) }

variable {hhdmoffset} {s : MmState}

/-- A pointer into the direct map reaches the entry at its physical address. -/
theorem entry_pointer (hhdmoffset table : Word) (index : BitVec 9) :
    table + hhdmoffset + index.setWidth 64 * 8#64 - hhdmoffset = entryAddress table index := by
  rw [add_right_comm, add_sub_cancel_right, entryAddress]

theorem load64_entry (hhdmoffset : Word) (memory : Memory) (table : Word) (index : BitVec 9) :
    load64 hhdmoffset memory (table + hhdmoffset + index.setWidth 64 * 8#64) =
      entryAt memory table index := by
  rw [load64, entry_pointer, entryAt]

theorem store64_entry (hhdmoffset : Word) (memory : Memory) (table : Word) (index : BitVec 9)
    (value : Word) :
    store64 hhdmoffset memory (table + hhdmoffset + index.setWidth 64 * 8#64) value =
      memory.write64 (entryAddress table index) value := by
  rw [store64, entry_pointer]

theorem getLowerTable_present {table next : Word} {index : BitVec 9}
    (found : child (entryAt s.memory table index) = some next) :
    getLowerTable hhdmoffset s (table + hhdmoffset) (index.setWidth 64) =
      .done (next + hhdmoffset, s) := by
  obtain ⟨present, rfl⟩ := child_eq_some_iff.mp found
  have present : entryAt s.memory table index &&& pteBitPresent ≠ 0 := present
  simp only [getLowerTable, load64_entry]
  rw [if_pos present]
  rfl

/-- A missing table is allocated.  A page at physical address 0 counts as failure. -/
theorem getLowerTable_absent {table : Word} {index : BitVec 9}
    (vacant : child (entryAt s.memory table index) = none)
    (unlocked : s.pmmLock = false) (available : s.pmmFreePageCount ≠ 0) :
    getLowerTable hhdmoffset s (table + hhdmoffset) (index.setWidth 64) =
      if s.freeList - hhdmoffset = 0 then .done (0, popPage hhdmoffset s)
      else .done (s.freeList - hhdmoffset + hhdmoffset,
        attachTable hhdmoffset s table index) := by
  have absent : ¬ entryAt s.memory table index &&& pteBitPresent ≠ 0 :=
    not_not.mpr (child_eq_none_iff.mp vacant)
  simp only [getLowerTable, load64_entry]
  rw [if_neg absent]
  simp only [pmmAlloc_eq unlocked available, Outcome.done_bind]
  split
  next => rfl
  next =>
    simp only [store64_entry, attachTable, tableEntry, memset_eq_fill,
      add_sub_cancel_right, Outcome.pure_eq_done]
    rfl

theorem getLowerTable_exhausted {table : Word} {index : BitVec 9}
    (vacant : child (entryAt s.memory table index) = none)
    (unlocked : s.pmmLock = false) (empty : s.pmmFreePageCount = 0) :
    getLowerTable hhdmoffset s (table + hhdmoffset) (index.setWidth 64) =
      .done (0, { s with pmmLock := true }) := by
  have absent : ¬ entryAt s.memory table index &&& pteBitPresent ≠ 0 :=
    not_not.mpr (child_eq_none_iff.mp vacant)
  simp only [getLowerTable, load64_entry]
  rw [if_neg absent]
  simp only [pmmAlloc_exhausted unlocked empty, Outcome.done_bind]
  rfl

theorem getLowerTable_spinning {table : Word} {index : BitVec 9}
    (vacant : child (entryAt s.memory table index) = none) (locked : s.pmmLock = true) :
    getLowerTable hhdmoffset s (table + hhdmoffset) (index.setWidth 64) = .spinning := by
  have absent : ¬ entryAt s.memory table index &&& pteBitPresent ≠ 0 :=
    not_not.mpr (child_eq_none_iff.mp vacant)
  simp only [getLowerTable, load64_entry]
  rw [if_neg absent, pmmAlloc_spinning locked]
  rfl

/-- The offset expressions of the source select the digits of the virtual page. -/
theorem offset_eq_digit (virtAddr : Word) (shift : Nat) :
    (virtAddr >>> shift) &&& 0x1ff = (virtAddr.extractLsb' shift 9).setWidth 64 := by
  apply BitVec.eq_of_toNat_eq
  rw [BitVec.toNat_and, BitVec.toNat_ushiftRight, BitVec.toNat_setWidth,
    BitVec.extractLsb'_toNat, show (0x1ff : Word).toNat = 2 ^ 9 - 1 by decide,
    Nat.and_two_pow_sub_one_eq_mod]
  omega

end Vmm

end Lord84
