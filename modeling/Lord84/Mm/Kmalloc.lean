import Lord84.Lib.Support
import Mathlib.Logic.Function.Basic

/-!
# The kernel heap

A model of `src/mm/kmalloc.c`.  The heap is one range of memory, and a table of 512
blocks says which parts of it are in use.  `memory` is what the kernel sees at its virtual
addresses.  The table lies outside the range of the heap, and it is kept beside the memory
here, where neither the calls nor the clients write to it.  This is the code as long as no
request is larger than the heap: `KmallocTable` has the table in memory, shows that the two
agree on such requests, and shows how a larger block wipes the table that lies behind the
heap.

The search for an unused block in `kmalloc` stops at the first entry that is *used*.
The first entry is never unused, so the search never gets further, and the whole table
collapses to its first entry.  `KHeap.WF` says so, and everything about the heap follows
from it.
-/

namespace Lord84

open Theory

/-- `KERNEL_MAX_BLOCK` -/
def kernelMaxBlock : Nat := 512

/-- `KERNEL_HEAP_SIZE` -/
def kernelHeapSize : Word := 0x10000000

/-- `block_t` -/
structure Block where
  addr : Word
  size : BitVec 32
  free : Bool
  deriving DecidableEq, Repr

/-- The globals of `kmalloc.c`, with the table `base` apart from the memory.  Indices from
`KERNEL_MAX_BLOCK` on read what lies behind the table. -/
structure KHeap where
  base : Nat → Block
  heapAddr : Word
  memory : Memory

/-- `kernel_heap_init`, given the two pointers that `kernel_allocate_memory` returned. -/
def kernelHeapInit (base heapAddr : Word) (behind : Nat → Block) (memory : Memory) :
    Outcome KHeap :=
  if base = 0 then .killed
  else if heapAddr = 0 then .killed
  else
    let table := fun i => if i < kernelMaxBlock then ⟨0, 0, false⟩ else behind i
    .done { base := Function.update table 0 { table 0 with free := true }, heapAddr, memory }

namespace KHeap

variable (s : KHeap)

/-- `base[i] = block` -/
def setBlock (i : Nat) (block : Block) : KHeap :=
  { s with base := Function.update s.base i block }

/-- First loop of `kmalloc`: a free block that is large enough. -/
def firstFit (size : Word) : Option Nat :=
  (List.range kernelMaxBlock).find? fun i =>
    (s.base i).addr ≠ 0 ∧ (s.base i).free = true ∧ size ≤ (s.base i).size.setWidth 64

/-- The `while` loop of `kmalloc`.  It runs over entries that are neither free nor in use
and gives up behind index `KERNEL_MAX_BLOCK`. -/
def nextBlock (base : Nat → Block) : Nat → Nat → Option Nat
  | 0, _ => none
  | fuel + 1, i =>
      if (base i).free = false ∧ (base i).addr = 0 then
        if kernelMaxBlock < i then none else nextBlock base fuel (i + 1)
      else some i

/-- Last loop of `kmalloc`: the address behind the first `i` blocks. -/
def blockAddress (i : Nat) : Option Word :=
  (List.range i).foldlM
    (fun addr j =>
      if s.heapAddr + kernelHeapSize < addr then none
      else some (addr + (s.base j).size.setWidth 64)) s.heapAddr

/-- `kmalloc`; the first component is the returned pointer. -/
def kmalloc (size : Word) : Word × KHeap :=
  match s.firstFit size with
  | some i => ((s.base i).addr, s.setBlock i { s.base i with free := false })
  | none =>
      -- The loop reads at most the entries 0 to `KERNEL_MAX_BLOCK + 1`.
      match nextBlock s.base (kernelMaxBlock + 2) 0 with
      | none => (0, s)
      | some i =>
          match s.blockAddress i with
          | none => (0, s)
          | some addr =>
              let s := { s with memory := memset s.memory addr 0 size }
              (addr, s.setBlock i { addr, size := size.setWidth 32, free := false })

/-- The loop over the table at the start of `kfree` and `krealloc`. -/
def findBlock (addr : Word) : Option Nat :=
  (List.range kernelMaxBlock).find? fun i => (s.base i).addr = addr

/-- `kfree` -/
def kfree (addr : Word) : Outcome KHeap :=
  match s.findBlock addr with
  | none => .killed
  | some i =>
      let s := s.setBlock i { s.base i with free := true }
      .done { s with memory := memset s.memory (s.base i).addr 0 ((s.base i).size.setWidth 64) }

/-- `is_last` of `krealloc`: no entry behind `i` has an address. -/
def isLast (i : Nat) : Bool :=
  (List.range' (i + 1) (kernelMaxBlock - (i + 1))).all fun j => (s.base j).addr = 0

/-- The condition under which `krealloc` expands a block in place.  The differences are
unsigned. -/
def growsInPlace (i : Nat) (size : Word) : Bool :=
  let oldSize := (s.base i).size.setWidth 64
  let currentEnd := (s.base i).addr + (s.base i).size.setWidth 64
  let heapEnd := s.heapAddr + kernelHeapSize
  s.isLast i && decide (size - oldSize ≤ heapEnd - currentEnd)

/-- `krealloc` -/
def krealloc (addr size : Word) : Outcome (Word × KHeap) :=
  if addr = 0 then return s.kmalloc size
  else if size = 0 then do
    let s ← s.kfree addr
    return (0, s)
  else
    match s.findBlock addr with
    | none => .killed
    | some i =>
        let oldSize := (s.base i).size.setWidth 64
        if size ≤ oldSize then return (addr, s)
        else if s.growsInPlace i size then
          return (addr, s.setBlock i { s.base i with size := size.setWidth 32 })
        else
          match s.kmalloc size with
          | (newPtr, s) =>
              if newPtr = 0 then return (0, s)
              else do
                let s := { s with memory := memcpy s.memory newPtr addr oldSize }
                let s ← s.kfree addr
                return (newPtr, s)

/-! ## The collapsed table -/

/-- In every reachable state only the first block is in use, and it starts the heap. -/
structure WF : Prop where
  nonNull : s.heapAddr ≠ 0
  head : (s.base 0).addr = 0 ∧ (s.base 0).free = true ∨ (s.base 0).addr = s.heapAddr
  rest : ∀ i, 0 < i → i < kernelMaxBlock → (s.base i).addr = 0

/-- The first block can be used again for a request of `size` bytes. -/
def Reusable (size : Word) : Prop :=
  (s.base 0).addr ≠ 0 ∧ (s.base 0).free = true ∧ size ≤ (s.base 0).size.setWidth 64

instance (size : Word) : Decidable (s.Reusable size) :=
  inferInstanceAs (Decidable (_ ∧ _ ∧ _))

/-- The heap after `kmalloc` in a well-formed state. -/
def taken (size : Word) : KHeap :=
  if s.Reusable size then s.setBlock 0 { s.base 0 with free := false }
  else
    { s with
      memory := memset s.memory s.heapAddr 0 size
      base := Function.update s.base 0
        { addr := s.heapAddr, size := size.setWidth 32, free := false } }

/-- The heap after `kfree` in a well-formed state with a block. -/
def released : KHeap :=
  { s with
    memory := memset s.memory s.heapAddr 0 ((s.base 0).size.setWidth 64)
    base := Function.update s.base 0 { s.base 0 with free := true } }

end KHeap

/-- A search of the table that only the first entry can satisfy. -/
theorem find?_range_head {condition : Nat → Bool}
    (rest : ∀ i, 0 < i → i < kernelMaxBlock → condition i = false) :
    (List.range kernelMaxBlock).find? condition = if condition 0 then some 0 else none := by
  rw [show kernelMaxBlock = 511 + 1 from rfl, List.range_succ_eq_map, List.find?_cons]
  cases first : condition 0 with
  | true => rfl
  | false =>
      simp only [Bool.false_eq_true, if_false, List.find?_eq_none, List.mem_map, List.mem_range,
        forall_exists_index, and_imp]
      rintro _ j small rfl
      rw [rest (j + 1) (Nat.succ_pos j) (Nat.succ_lt_succ small)]
      exact Bool.false_ne_true

namespace KHeap

variable {s : KHeap}

theorem WF.addr_head (wf : s.WF) (used : (s.base 0).addr ≠ 0) :
    (s.base 0).addr = s.heapAddr := by
  rcases wf.head with ⟨unused, -⟩ | isHeap
  · exact absurd unused used
  · exact isHeap

/-- Only the first entry can have an address. -/
theorem WF.eq_zero_of_addr (wf : s.WF) {i : Nat} (inside : i < kernelMaxBlock)
    (used : (s.base i).addr ≠ 0) : i = 0 := by
  by_contra later
  exact used (wf.rest i (Nat.pos_of_ne_zero later) inside)

theorem WF.firstFit_eq (wf : s.WF) (size : Word) :
    s.firstFit size = if s.Reusable size then some 0 else none := by
  rw [firstFit, find?_range_head]
  · simp only [decide_eq_true_eq]
    rfl
  · intro i positive small
    simp [wf.rest i positive small]

/-- The first entry is free or in use. -/
theorem WF.head_used (wf : s.WF) : ¬ ((s.base 0).free = false ∧ (s.base 0).addr = 0) := by
  rintro ⟨notFree, noAddr⟩
  rcases wf.head with ⟨-, isFree⟩ | isHeap
  · rw [notFree] at isFree
    cases isFree
  · exact wf.nonNull (isHeap.symm.trans noAddr)

/-- The search for an unused block stops at once. -/
theorem WF.nextBlock_eq (wf : s.WF) : nextBlock s.base (kernelMaxBlock + 2) 0 = some 0 := by
  rw [nextBlock, if_neg wf.head_used]

/-- `kmalloc` always returns the start of the heap. -/
theorem WF.kmalloc_eq (wf : s.WF) (size : Word) :
    s.kmalloc size = (s.heapAddr, s.taken size) := by
  unfold kmalloc
  rw [wf.firstFit_eq, taken]
  by_cases reusable : s.Reusable size
  · simp only [if_pos reusable, wf.addr_head reusable.1]
  · simp only [if_neg reusable, wf.nextBlock_eq]
    rfl

theorem findBlock_lt {addr : Word} {i : Nat} (found : s.findBlock addr = some i) :
    i < kernelMaxBlock := by
  rw [findBlock] at found
  exact List.mem_range.mp (List.mem_of_find?_eq_some found)

theorem WF.findBlock_eq (wf : s.WF) (used : (s.base 0).addr = s.heapAddr) :
    s.findBlock s.heapAddr = some 0 := by
  rw [findBlock, find?_range_head]
  · simp [used]
  · intro i positive small
    rw [wf.rest i positive small]
    exact decide_eq_false wf.nonNull.symm

theorem WF.kfree_eq (wf : s.WF) (used : (s.base 0).addr = s.heapAddr) {addr : Word}
    (start : addr = s.heapAddr) : s.kfree addr = .done s.released := by
  subst start
  unfold kfree
  rw [wf.findBlock_eq used]
  simp only [setBlock, Function.update_self, released, used]

theorem WF.taken (wf : s.WF) (size : Word) : (s.taken size).WF := by
  rw [KHeap.taken]
  by_cases reusable : s.Reusable size
  · rw [if_pos reusable]
    refine ⟨wf.nonNull, Or.inr (wf.addr_head reusable.1), ?_⟩
    intro i positive small
    simp only [setBlock, Function.update_of_ne (Nat.pos_iff_ne_zero.mp positive)]
    exact wf.rest i positive small
  · rw [if_neg reusable]
    refine ⟨wf.nonNull, Or.inr rfl, ?_⟩
    intro i positive small
    simp only [Function.update_of_ne (Nat.pos_iff_ne_zero.mp positive)]
    exact wf.rest i positive small

theorem WF.setMemory (wf : s.WF) (memory : Memory) : { s with memory }.WF :=
  ⟨wf.nonNull, wf.head, wf.rest⟩

@[simp] theorem taken_heapAddr (s : KHeap) (size : Word) :
    (s.taken size).heapAddr = s.heapAddr := by
  rw [KHeap.taken]
  split <;> rfl

theorem WF.taken_addr (wf : s.WF) (size : Word) :
    ((s.taken size).base 0).addr = s.heapAddr := by
  rw [KHeap.taken]
  split
  next reusable => exact wf.addr_head reusable.1
  next => rfl

/-- Bytes outside the request are not written. -/
theorem taken_memory (s : KHeap) (size : Word) {target : Word}
    (outside : size.toNat ≤ (target - s.heapAddr).toNat) :
    (s.taken size).memory target = s.memory target := by
  rw [KHeap.taken]
  split
  next => rfl
  next =>
    simp only [memset_eq_fill, Memory.fill_apply]
    rw [if_neg (Nat.not_lt.mpr outside)]

theorem size_setWidth (block : Block) : (block.size.setWidth 64).toNat = block.size.toNat := by
  rw [BitVec.toNat_setWidth]
  exact Nat.mod_eq_of_lt (Nat.lt_trans block.size.isLt (by decide))

theorem WF.isLast_zero (wf : s.WF) : s.isLast 0 = true := by
  rw [isLast, List.all_eq_true]
  intro j member
  obtain ⟨later, small⟩ := List.mem_range'_1.mp member
  exact decide_eq_true (wf.rest j later (by omega))

/-- A block that is too small grows in place exactly if the heap is large enough, or if it
already reaches over the end of the heap. -/
theorem WF.growsInPlace_iff (wf : s.WF) (used : (s.base 0).addr = s.heapAddr) {size : Word}
    (larger : (s.base 0).size.toNat < size.toNat) :
    s.growsInPlace 0 size = true ↔
      size.toNat ≤ kernelHeapSize.toNat ∨ kernelHeapSize.toNat < (s.base 0).size.toNat := by
  have available : s.heapAddr + kernelHeapSize - (s.heapAddr + (s.base 0).size.setWidth 64) =
      kernelHeapSize - (s.base 0).size.setWidth 64 :=
    add_sub_add_left_eq_sub _ _ _
  have heap : kernelHeapSize.toNat = 0x10000000 := by decide
  have narrow := (s.base 0).size.isLt
  have bound := size.isLt
  rw [growsInPlace, wf.isLast_zero, Bool.true_and, decide_eq_true_eq, used, available,
    BitVec.le_def, BitVec.toNat_sub, BitVec.toNat_sub, size_setWidth, heap]
  omega

theorem WF.released (wf : s.WF) (used : (s.base 0).addr = s.heapAddr) : s.released.WF := by
  refine ⟨wf.nonNull, Or.inr used, ?_⟩
  intro i positive small
  simp only [KHeap.released, Function.update_of_ne (Nat.pos_iff_ne_zero.mp positive)]
  exact wf.rest i positive small

end KHeap

end Lord84
