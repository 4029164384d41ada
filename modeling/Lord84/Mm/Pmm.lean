import Lord84.Theory.FreeList
import Lord84.Lib.Support

/-!
# The physical page allocator

A model of `src/mm/pmm.c`.  Physical memory is one `Memory`; the kernel reaches it
through the direct map, so an access at the virtual address `pointer` touches the
physical address `pointer - hhdmoffset`.  Free pages form a list that is threaded
through their own first words.  The list has no terminator: the page that
`pmm_init` puts at its bottom is never given a link, and only the counter keeps
`pmm_alloc` from following it.
-/

namespace Lord84

open Theory

/-- Globals of `pmm.c` and `vmm.c`, with the physical memory they manage. -/
structure MmState where
  memory : Memory
  freeList : Word
  pmmFreePageCount : Word
  pmmPageCount : Word
  memSize : Word
  pmmLock : Bool
  pageTableLock : Bool
  kernelPageMap : Word

/-- The globals before any initialisation; memory holds anything. -/
def MmState.boot (memory : Memory) : MmState where
  memory
  freeList := 0
  pmmFreePageCount := 0
  pmmPageCount := 0
  memSize := 0
  pmmLock := false
  pageTableLock := false
  kernelPageMap := 0

/-- `BLOCK_SIZE` of `pmm.h`, also `PAGE_SIZE` of `vmm.h`. -/
def blockSize : Nat := 4096

/-- Types of memory map entries, in the order of their Limine numbers. -/
inductive MemmapType where
  | usable
  | reserved
  | acpiReclaimable
  | acpiNvs
  | badMemory
  | bootloaderReclaimable
  | kernelAndModules
  | framebuffer
  deriving DecidableEq, Repr

/-- `struct limine_memmap_entry`. -/
structure MemmapEntry where
  base : Word
  length : Word
  type : MemmapType
  deriving DecidableEq, Repr

section Pmm

variable (hhdmoffset : Word)

/-- `*pointer` for a pointer into the direct map. -/
def load64 (memory : Memory) (pointer : Word) : Word :=
  memory.read64 (pointer - hhdmoffset)

/-- `*pointer = value` for a pointer into the direct map. -/
def store64 (memory : Memory) (pointer value : Word) : Memory :=
  memory.write64 (pointer - hhdmoffset) value

/-- `pmm_free` -/
def pmmFree (s : MmState) (addr : Word) : Outcome MmState := do
  let lock ← acquireLock s.pmmLock
  let s := { s with pmmLock := lock }
  let virtAddr := addr + hhdmoffset
  let s := { s with memory := store64 hhdmoffset s.memory virtAddr s.freeList }
  let s := { s with freeList := virtAddr }
  let s := { s with pmmFreePageCount := s.pmmFreePageCount + 1 }
  return { s with pmmLock := freeLock s.pmmLock }

/-- `pmm_alloc`; the first component is the returned pointer, `0` standing for `NULL`. -/
def pmmAlloc (s : MmState) : Outcome (Word × MmState) := do
  let lock ← acquireLock s.pmmLock
  let s := { s with pmmLock := lock }
  -- The counter is unsigned, so `<= 0` means zero.  This return keeps the lock.
  if s.pmmFreePageCount ≤ 0 then
    return (0, s)
  let addr := s.freeList - hhdmoffset
  let s := { s with freeList := load64 hhdmoffset s.memory s.freeList }
  let s := { s with pmmFreePageCount := s.pmmFreePageCount - 1 }
  return (addr, { s with pmmLock := freeLock s.pmmLock })

/-- Body of the publishing loop of `pmm_init`: free one page and count it. -/
def publishPage (addr : Word) (s : MmState) : Outcome MmState := do
  let s ← pmmFree hhdmoffset s addr
  return { s with pmmPageCount := s.pmmPageCount + 1 }

/-- One iteration of the second loop of `pmm_init`.  The Boolean is `first_entry`. -/
def publishEntry (current : MmState × Bool) (entry : MemmapEntry) :
    Outcome (MmState × Bool) :=
  match entry.type with
  | .usable => do
      let (s, firstEntry) := current
      let (s, j) :=
        if firstEntry then ({ s with freeList := entry.base + hhdmoffset }, 1) else (s, 0)
      let s ← forRange j (entry.length.toNat / blockSize)
        (fun j => publishPage hhdmoffset (entry.base + BitVec.ofNat 64 (j * blockSize))) s
      return (s, false)
  | _ => return current

/-- First loop of `pmm_init`: the total size of the usable entries. -/
def usableSize (entries : List MemmapEntry) (size : Word) : Word :=
  entries.foldl
    (fun total entry => if entry.type = .usable then total + entry.length else total) size

/-- `pmm_init`; `none` is a missing Limine response. -/
def pmmInit (response : Option (List MemmapEntry)) (s : MmState) : Outcome MmState :=
  match response with
  | none => .killed
  | some entries => do
      let s := { s with memSize := usableSize entries s.memSize }
      let (s, _) ← entries.foldlM (publishEntry hhdmoffset) (s, true)
      return s

/-! ## The free list as a list of pages -/

/-- The pages met by following the links from `free_list` for
`pmm_free_page_count` steps. -/
def freePages (s : MmState) : List Word :=
  (List.iterate (load64 hhdmoffset s.memory) s.freeList s.pmmFreePageCount.toNat).map
    (· - hhdmoffset)

/-- The state after `pmm_free` has returned. -/
def pushPage (s : MmState) (page : Word) : MmState :=
  { s with
    memory := s.memory.write64 page s.freeList
    freeList := page + hhdmoffset
    pmmFreePageCount := s.pmmFreePageCount + 1 }

/-- The state after a `pmm_alloc` that found a page. -/
def popPage (s : MmState) : MmState :=
  { s with
    freeList := s.memory.read64 (s.freeList - hhdmoffset)
    pmmFreePageCount := s.pmmFreePageCount - 1 }

variable {hhdmoffset} {s : MmState}

theorem pmmFree_eq (unlocked : s.pmmLock = false) (page : Word) :
    pmmFree hhdmoffset s page = .done (pushPage hhdmoffset s page) := by
  have direct : page + hhdmoffset - hhdmoffset = page := BitVec.add_sub_cancel _ _
  simp [pmmFree, pushPage, unlocked, store64, direct]

theorem pmmAlloc_eq (unlocked : s.pmmLock = false) (available : s.pmmFreePageCount ≠ 0) :
    pmmAlloc hhdmoffset s = .done (s.freeList - hhdmoffset, popPage hhdmoffset s) := by
  have more : ¬ s.pmmFreePageCount ≤ 0 := by
    intro zero
    exact available (by bv_omega)
  simp only [pmmAlloc, popPage, unlocked, load64, acquireLock_false, Outcome.done_bind,
    if_neg more, freeLock_eq, Outcome.pure_eq_done]

/-- The early return of `pmm_alloc` leaves the lock held. -/
theorem pmmAlloc_exhausted (unlocked : s.pmmLock = false) (empty : s.pmmFreePageCount = 0) :
    pmmAlloc hhdmoffset s = .done (0, { s with pmmLock := true }) := by
  simp [pmmAlloc, unlocked, empty]

theorem pmmAlloc_spinning (locked : s.pmmLock = true) :
    pmmAlloc hhdmoffset s = .spinning := by
  simp [pmmAlloc, locked]

/-- A call of `pmm_free` that returns has found the lock free. -/
theorem pmmFree_cases {page : Word} {next : MmState}
    (returned : pmmFree hhdmoffset s page = .done next) :
    s.pmmLock = false ∧ next = pushPage hhdmoffset s page := by
  cases locked : s.pmmLock with
  | true =>
      rw [pmmFree, locked] at returned
      cases returned
  | false =>
      rw [pmmFree_eq locked] at returned
      cases returned
      exact ⟨rfl, rfl⟩

/-- A call of `pmm_alloc` that returns has found the lock free.  It has taken a page, or it has
failed and kept the lock. -/
theorem pmmAlloc_cases {page : Word} {next : MmState}
    (returned : pmmAlloc hhdmoffset s = .done (page, next)) :
    s.pmmLock = false ∧
      (s.pmmFreePageCount = 0 ∧ page = 0 ∧ next = { s with pmmLock := true } ∨
        s.pmmFreePageCount ≠ 0 ∧ page = s.freeList - hhdmoffset ∧
          next = popPage hhdmoffset s) := by
  cases locked : s.pmmLock with
  | true =>
      rw [pmmAlloc_spinning locked] at returned
      cases returned
  | false =>
      by_cases empty : s.pmmFreePageCount = 0
      · rw [pmmAlloc_exhausted locked empty] at returned
        cases returned
        exact ⟨rfl, Or.inl ⟨empty, rfl, rfl⟩⟩
      · rw [pmmAlloc_eq locked empty] at returned
        cases returned
        exact ⟨rfl, Or.inr ⟨empty, rfl, rfl⟩⟩

@[simp] theorem length_freePages (s : MmState) :
    (freePages hhdmoffset s).length = s.pmmFreePageCount.toNat := by
  simp [freePages]

/-- The free list is known by its head, its count and the first words of its pages. -/
theorem freePages_congr {s t : MmState} (sameHead : t.freeList = s.freeList)
    (sameCount : t.pmmFreePageCount = s.pmmFreePageCount)
    (sameLinks : ∀ page ∈ freePages hhdmoffset s,
      t.memory.read64 page = s.memory.read64 page) :
    freePages hhdmoffset t = freePages hhdmoffset s := by
  have cells : List.iterate (load64 hhdmoffset t.memory) s.freeList
      s.pmmFreePageCount.toNat =
      List.iterate (load64 hhdmoffset s.memory) s.freeList s.pmmFreePageCount.toNat := by
    apply iterate_congr
    intro cell visited
    exact sameLinks _ (List.mem_map_of_mem visited)
  rw [freePages, freePages, sameHead, sameCount, cells]

/-- `pmm_alloc` returns the first page of the list and leaves the others. -/
theorem freePages_popPage (available : s.pmmFreePageCount ≠ 0) :
    freePages hhdmoffset s =
      (s.freeList - hhdmoffset) :: freePages hhdmoffset (popPage hhdmoffset s) := by
  have count : (s.pmmFreePageCount - 1).toNat + 1 = s.pmmFreePageCount.toNat := by
    bv_omega
  rw [freePages, ← count, List.iterate, List.map_cons]
  simp only [freePages, popPage, load64]

/-- What a non-empty list says about the next `pmm_alloc`. -/
theorem pop_of_freePages_cons {page : Word} {rest : List Word}
    (free : freePages hhdmoffset s = page :: rest) :
    s.pmmFreePageCount ≠ 0 ∧ s.freeList - hhdmoffset = page ∧
      freePages hhdmoffset (popPage hhdmoffset s) = rest := by
  have available : s.pmmFreePageCount ≠ 0 := by
    intro zero
    have length := congrArg List.length free
    rw [length_freePages, zero] at length
    cases length
  rw [freePages_popPage available] at free
  exact ⟨available, List.cons.inj free⟩

/-- `pmm_free` puts a page in front, provided that the page is not on the list and
that the counter does not wrap around. -/
theorem freePages_pushPage {page : Word}
    (bounded : s.pmmFreePageCount.toNat + 1 < 2 ^ 64)
    (pageAligned : page.toNat % 8 = 0)
    (aligned : ∀ other ∈ freePages hhdmoffset s, other.toNat % 8 = 0)
    (fresh : page ∉ freePages hhdmoffset s) :
    freePages hhdmoffset (pushPage hhdmoffset s page) = page :: freePages hhdmoffset s := by
  have direct : page + hhdmoffset - hhdmoffset = page := BitVec.add_sub_cancel _ _
  have count : (s.pmmFreePageCount + 1).toNat = s.pmmFreePageCount.toNat + 1 := by
    bv_omega
  have pushed : List.iterate (load64 hhdmoffset (pushPage hhdmoffset s page).memory)
      (page + hhdmoffset) (s.pmmFreePageCount.toNat + 1) =
      (page + hhdmoffset) ::
        List.iterate (load64 hhdmoffset s.memory) s.freeList s.pmmFreePageCount.toNat := by
    apply iterate_push
    · simp [load64, pushPage, direct]
    · intro cell visited
      have listed : cell - hhdmoffset ∈ freePages hhdmoffset s := List.mem_map_of_mem visited
      apply Memory.read64_write64_of_ne _ _ pageAligned (aligned _ listed)
      intro equal
      exact fresh (equal ▸ listed)
  simp only [pushPage] at pushed
  simp only [freePages, pushPage, count, pushed, List.map_cons, direct]

end Pmm

end Lord84
