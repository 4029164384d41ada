import Lord84.Mm.KmallocRealloc
import Mathlib.Data.List.Find

/-!
# The block table in memory

The kernel heap once more, one level further down: the table is a part of the memory that the
heap clears and copies.  `kernel_heap_init` asks for the table before it asks for the heap, and
the pages come from the same list in falling order, so the table lies behind the heap.

As long as no request is larger than the heap, the calls do not reach the table, and `view` shows
what `KHeap` computes.  A larger block may cover the table.  Then `kfree` wipes it.
-/

namespace Lord84

open Theory

/-- The globals of `kmalloc.c` over the memory that holds the heap and the table. -/
structure HeapTable where
  base : Word
  heapAddr : Word
  memory : Memory

/-- `KERNEL_MAX_BLOCK * sizeof(block_t)` -/
def tableSize : Nat := 8192

namespace HeapTable

/-- The members of `base[i]` as offsets from `base`. -/
def addrOffset (i : Nat) : Nat := 16 * i
def sizeOffset (i : Nat) : Nat := 16 * i + 8
def freeOffset (i : Nat) : Nat := 16 * i + 12

section Source

variable (s : HeapTable)

/-- Load a value of `count` bytes from the table. -/
def load (offset count : Nat) : Nat :=
  s.memory.readLE (s.base + BitVec.ofNat 64 offset) count

/-- Store a value of `count` bytes in the table. -/
def store (offset count value : Nat) : HeapTable :=
  { s with memory := s.memory.writeLE (s.base + BitVec.ofNat 64 offset) count value }

/-- `base[i]` -/
def block (i : Nat) : Block where
  addr := BitVec.ofNat 64 (s.load (addrOffset i) 8)
  size := BitVec.ofNat 32 (s.load (sizeOffset i) 4)
  free := s.load (freeOffset i) 1 != 0

/-- `base[i].addr = addr` -/
def setAddr (i : Nat) (addr : Word) : HeapTable :=
  s.store (addrOffset i) 8 addr.toNat

/-- `base[i].size = size` -/
def setSize (i : Nat) (size : BitVec 32) : HeapTable :=
  s.store (sizeOffset i) 4 size.toNat

/-- `base[i].free = free` -/
def setFree (i : Nat) (free : Bool) : HeapTable :=
  s.store (freeOffset i) 1 free.toNat

/-- The blocks as the loops over the table read them; these write nothing. -/
def blocks : KHeap where
  base := s.block
  heapAddr := s.heapAddr
  memory := s.memory

/-- `kernel_heap_init`, given the two pointers that `kernel_allocate_memory` returned. -/
def kernelHeapInit (base heapAddr : Word) (memory : Memory) : Outcome HeapTable :=
  if base = 0 then .killed
  else
    let memory := memset memory base 0 (BitVec.ofNat 64 tableSize)
    if heapAddr = 0 then .killed
    else .done (HeapTable.setFree ⟨base, heapAddr, memory⟩ 0 true)

/-- `kmalloc`; the first component is the returned pointer. -/
def kmalloc (size : Word) : Word × HeapTable :=
  match s.blocks.firstFit size with
  | some i =>
      let s := s.setFree i false
      ((s.block i).addr, s)
  | none =>
      match KHeap.nextBlock s.block (kernelMaxBlock + 2) 0 with
      | none => (0, s)
      | some i =>
          match s.blocks.blockAddress i with
          | none => (0, s)
          | some addr =>
              let s := { s with memory := memset s.memory addr 0 size }
              let s := s.setAddr i addr
              let s := s.setFree i false
              (addr, s.setSize i (size.setWidth 32))

/-- `kfree` -/
def kfree (addr : Word) : Outcome HeapTable :=
  match s.blocks.findBlock addr with
  | none => .killed
  | some i =>
      let s := s.setFree i true
      .done { s with
        memory := memset s.memory (s.block i).addr 0 ((s.block i).size.setWidth 64) }

/-- `krealloc` -/
def krealloc (addr size : Word) : Outcome (Word × HeapTable) :=
  if addr = 0 then return s.kmalloc size
  else if size = 0 then do
    let s ← s.kfree addr
    return (0, s)
  else
    match s.blocks.findBlock addr with
    | none => .killed
    | some i =>
        let oldSize := (s.block i).size.setWidth 64
        if size ≤ oldSize then return (addr, s)
        else if s.blocks.growsInPlace i size then
          return (addr, s.setSize i (size.setWidth 32))
        else
          match s.kmalloc size with
          | (newPtr, s) =>
              if newPtr = 0 then return (0, s)
              else do
                let s := { s with memory := memcpy s.memory newPtr addr oldSize }
                let s ← s.kfree addr
                return (newPtr, s)

/-- Execute a call or a write. -/
def use : HeapUse → Outcome HeapTable
  | .malloc size => .done (s.kmalloc size).2
  | .free pointer => s.kfree pointer
  | .realloc pointer size => do
      let (_, s) ← s.krealloc pointer size
      return s
  | .write target value => .done { s with memory := s.memory.write8 target value }

end Source

/-! ## What `KHeap` shows of it -/

section View

variable (s : HeapTable)

/-- The byte belongs to the table. -/
def InTable (target : Word) : Prop :=
  (target - s.base).toNat < tableSize

instance (target : Word) : Decidable (s.InTable target) :=
  inferInstanceAs (Decidable (_ < _))

/-- The table beside the memory, which does not show the bytes of the table. -/
def view : KHeap where
  base i := if i < kernelMaxBlock then s.block i else ⟨0, 0, false⟩
  heapAddr := s.heapAddr
  memory target := if s.InTable target then 0 else s.memory target

/-- The table lies outside the range of the heap. -/
def Apart : Prop :=
  ∀ target, (target - s.heapAddr).toNat < kernelHeapSize.toNat → ¬ s.InTable target

end View

variable {s next : HeapTable} {i j : Nat}

theorem view_block (inside : i < kernelMaxBlock) : s.view.base i = s.block i :=
  if_pos inside

/-- The byte `k` of a value at `offset` -/
theorem inTable_offset {offset k : Nat} (small : offset + k < tableSize) :
    s.InTable (s.base + BitVec.ofNat 64 offset + BitVec.ofNat 64 k) := by
  simp only [tableSize] at small
  rw [InTable, BitVec.add_assoc, ← BitVec.ofNat_add, Memory.offset_sub _ (by omega), tableSize]
  exact small

theorem load_store_self {offset count : Nat} (value : Nat) (small : count < 2 ^ 64) :
    (s.store offset count value).load offset count = value % 256 ^ count :=
  Memory.readLE_writeLE _ _ _ small

theorem load_store {offset count position size : Nat} (value : Nat)
    (small : offset + count ≤ tableSize) (inside : position + size ≤ tableSize)
    (outside : position + size ≤ offset ∨ offset + count ≤ position) :
    (s.store offset count value).load position size = s.load position size := by
  simp only [tableSize] at small inside
  exact Memory.readLE_writeLE_offset _ _ _ (by omega) (by omega) outside

theorem store_of_not_inTable {offset count : Nat} (value : Nat) (small : offset + count ≤ tableSize)
    {target : Word} (outside : ¬ s.InTable target) :
    (s.store offset count value).memory target = s.memory target := by
  simp only [InTable, tableSize] at small outside
  simp only [store, Memory.writeLE_apply]
  refine if_neg ?_
  have bound := target.isLt
  have start := s.base.isLt
  rw [BitVec.toNat_sub] at outside ⊢
  rw [BitVec.toNat_add, BitVec.toNat_ofNat]
  omega

/-- A store to one block changes no other. -/
theorem block_store {offset count value : Nat} {b : Block} (first : i < kernelMaxBlock)
    (second : j < kernelMaxBlock) (start : 16 * i ≤ offset) (stop : offset + count ≤ 16 * i + 16)
    (written : (s.store offset count value).block i = b) :
    (s.store offset count value).block j = if j = i then b else s.block j := by
  simp only [kernelMaxBlock] at first second
  split
  next same => rw [same, written]
  next other =>
    have small : offset + count ≤ tableSize := by simp only [tableSize]; omega
    simp only [block, addrOffset, sizeOffset, freeOffset]
    rw [load_store value small (by simp only [tableSize]; omega) (by omega),
      load_store value small (by simp only [tableSize]; omega) (by omega),
      load_store value small (by simp only [tableSize]; omega) (by omega)]

theorem block_setAddr (first : i < kernelMaxBlock) (second : j < kernelMaxBlock) (addr : Word) :
    (s.setAddr i addr).block j = if j = i then { s.block i with addr } else s.block j := by
  refine block_store first second (Nat.le_refl _) (Nat.add_le_add_left (by decide) _) ?_
  have stored : (s.store (addrOffset i) 8 addr.toNat).load (addrOffset i) 8 = addr.toNat := by
    rw [load_store_self _ (by decide)]
    exact Nat.mod_eq_of_lt addr.isLt
  simp only [kernelMaxBlock] at first
  simp only [block, stored, BitVec.ofNat_toNat, BitVec.setWidth_eq]
  simp only [addrOffset, sizeOffset, freeOffset]
  rw [load_store _ (by simp only [tableSize]; omega) (by simp only [tableSize]; omega) (by omega),
    load_store _ (by simp only [tableSize]; omega) (by simp only [tableSize]; omega) (by omega)]

theorem block_setSize (first : i < kernelMaxBlock) (second : j < kernelMaxBlock)
    (size : BitVec 32) :
    (s.setSize i size).block j = if j = i then { s.block i with size } else s.block j := by
  refine block_store first second (Nat.le_add_right _ _) (by rw [sizeOffset]; omega) ?_
  have stored : (s.store (sizeOffset i) 4 size.toNat).load (sizeOffset i) 4 = size.toNat := by
    rw [load_store_self _ (by decide)]
    exact Nat.mod_eq_of_lt size.isLt
  simp only [kernelMaxBlock] at first
  simp only [block, stored, BitVec.ofNat_toNat, BitVec.setWidth_eq]
  simp only [addrOffset, sizeOffset, freeOffset]
  rw [load_store _ (by simp only [tableSize]; omega) (by simp only [tableSize]; omega) (by omega),
    load_store _ (by simp only [tableSize]; omega) (by simp only [tableSize]; omega) (by omega)]

theorem block_setFree (first : i < kernelMaxBlock) (second : j < kernelMaxBlock) (free : Bool) :
    (s.setFree i free).block j = if j = i then { s.block i with free } else s.block j := by
  refine block_store first second (Nat.le_add_right _ _) (by rw [freeOffset]; omega) ?_
  have stored : ((s.store (freeOffset i) 1 free.toNat).load (freeOffset i) 1 != 0) = free := by
    rw [load_store_self _ (by decide)]
    cases free <;> rfl
  simp only [kernelMaxBlock] at first
  simp only [block, stored]
  simp only [addrOffset, sizeOffset, freeOffset]
  rw [load_store _ (by simp only [tableSize]; omega) (by simp only [tableSize]; omega) (by omega),
    load_store _ (by simp only [tableSize]; omega) (by simp only [tableSize]; omega) (by omega)]

/-- A store to one block is all that the view shows. -/
theorem view_store {offset count value : Nat} {b : Block} (inside : i < kernelMaxBlock)
    (small : offset + count ≤ tableSize)
    (blocks : ∀ j < kernelMaxBlock,
      (s.store offset count value).block j = if j = i then b else s.block j) :
    (s.store offset count value).view = s.view.setBlock i b := by
  have table : (s.store offset count value).view.base = (s.view.setBlock i b).base := by
    funext j
    simp only [view, KHeap.setBlock, Function.update_apply]
    by_cases small : j < kernelMaxBlock
    · rw [if_pos small, if_pos small, blocks j small]
    · have other : j ≠ i := fun same => small (same ▸ inside)
      rw [if_neg small, if_neg small, if_neg other]
  have bytes : (s.store offset count value).view.memory = s.view.memory := by
    funext target
    by_cases within : s.InTable target
    · exact (if_pos within).trans (if_pos within).symm
    · exact (if_neg within).trans
        ((store_of_not_inTable value small within).trans (if_neg within).symm)
  calc (s.store offset count value).view
    _ = ⟨(s.store offset count value).view.base, s.heapAddr,
          (s.store offset count value).view.memory⟩ := rfl
    _ = s.view.setBlock i b := by rw [table, bytes]; rfl

theorem view_setAddr (inside : i < kernelMaxBlock) (addr : Word) :
    (s.setAddr i addr).view = s.view.setBlock i { s.view.base i with addr } := by
  rw [view_block inside]
  refine view_store inside ?_ fun j small => block_setAddr inside small addr
  simp only [kernelMaxBlock, addrOffset, tableSize] at inside ⊢
  omega

theorem view_setSize (inside : i < kernelMaxBlock) (size : BitVec 32) :
    (s.setSize i size).view = s.view.setBlock i { s.view.base i with size } := by
  rw [view_block inside]
  refine view_store inside ?_ fun j small => block_setSize inside small size
  simp only [kernelMaxBlock, sizeOffset, tableSize] at inside ⊢
  omega

theorem view_setFree (inside : i < kernelMaxBlock) (free : Bool) :
    (s.setFree i free).view = s.view.setBlock i { s.view.base i with free } := by
  rw [view_block inside]
  refine view_store inside ?_ fun j small => block_setFree inside small free
  simp only [kernelMaxBlock, freeOffset, tableSize] at inside ⊢
  omega

/-- A block is read from the bytes of the table. -/
theorem block_congr (inside : i < kernelMaxBlock) (base : next.base = s.base)
    (table : ∀ target, s.InTable target → next.memory target = s.memory target) :
    next.block i = s.block i := by
  simp only [kernelMaxBlock] at inside
  have same : ∀ offset count, offset + count ≤ tableSize →
      next.load offset count = s.load offset count := by
    intro offset count small
    rw [load, load, base]
    apply Memory.readLE_congr
    intro k within
    exact table _ (inTable_offset (by omega))
  simp only [block]
  rw [same _ _ (by simp only [addrOffset, tableSize]; omega),
    same _ _ (by simp only [sizeOffset, tableSize]; omega),
    same _ _ (by simp only [freeOffset, tableSize]; omega)]

/-- Memory that agrees with the old one on the table. -/
theorem view_setMemory {memory : Memory}
    (table : ∀ target, s.InTable target → memory target = s.memory target) :
    { s with memory }.view =
      { s.view with memory := fun target => if s.InTable target then 0 else memory target } := by
  have blocks : { s with memory }.view.base = s.view.base := by
    funext j
    by_cases small : j < kernelMaxBlock
    · rw [view_block small, view_block small]
      exact block_congr small rfl table
    · exact (if_neg small).trans (if_neg small).symm
  calc { s with memory }.view
    _ = ⟨{ s with memory }.view.base, s.heapAddr,
          fun target => if s.InTable target then 0 else memory target⟩ := rfl
    _ = _ := by rw [blocks]; rfl

/-- Bytes beside the table are cleared. -/
theorem view_memset {dest size : Word}
    (outside : ∀ target, (target - dest).toNat < size.toNat → ¬ s.InTable target) :
    { s with memory := memset s.memory dest 0 size }.view =
      { s.view with memory := memset s.view.memory dest 0 size } := by
  have shown : (fun target => if s.InTable target then 0 else memset s.memory dest 0 size target) =
      memset s.view.memory dest 0 size := by
    funext target
    simp only [memset_eq_fill, Memory.fill_apply, view]
    by_cases inside : s.InTable target
    · have apart : ¬ (target - dest).toNat < size.toNat := fun here => outside target here inside
      rw [if_pos inside, if_neg apart, if_pos inside]
    · rw [if_neg inside, if_neg inside]
  rw [view_setMemory, shown]
  intro target inside
  rw [memset_eq_fill, Memory.fill_apply, if_neg fun here => outside target here inside]

end HeapTable

/-! ## Tidy tables -/

namespace KHeap

/-- Besides, an entry without an address has no size. -/
structure Tidy (s : KHeap) : Prop extends s.Small where
  unused : ∀ i < kernelMaxBlock, (s.base i).addr = 0 → (s.base i).size = 0

variable {s next : KHeap}

/-- Calls that leave the first block in use change no other block. -/
theorem Tidy.of_head (tidy : s.Tidy) (small : next.Small) (used : (next.base 0).addr ≠ 0)
    (rest : ∀ i ≠ 0, next.base i = s.base i) : next.Tidy := by
  refine ⟨small, ?_⟩
  intro i inside unused
  by_cases first : i = 0
  · rw [first] at unused
    exact absurd unused used
  · rw [rest i first] at unused ⊢
    exact tidy.unused i inside unused

theorem taken_base (s : KHeap) (size : Word) {i : Nat} (later : i ≠ 0) :
    (s.taken size).base i = s.base i := by
  rw [taken]
  split
  next => exact Function.update_of_ne later _ _
  next => exact Function.update_of_ne later _ _

theorem resized_base (s : KHeap) (size : Word) {i : Nat} (later : i ≠ 0) :
    (s.resized size).base i = s.base i := by
  rw [resized]
  split
  next => rfl
  next =>
    split
    next => exact Function.update_of_ne later _ _
    next => exact (Function.update_of_ne later _ _).trans (taken_base s size later)

theorem Tidy.of_kmalloc (tidy : s.Tidy) {size : Word} (fits : size ≤ kernelHeapSize) :
    (s.taken size).Tidy := by
  refine tidy.of_head (tidy.toSmall.taken fits) ?_ fun i later => taken_base s size later
  rw [tidy.wf.taken_addr]
  exact tidy.wf.nonNull

theorem Tidy.of_kfree (tidy : s.Tidy) {pointer : Word} (freed : s.kfree pointer = .done next) :
    next.Tidy := by
  refine ⟨tidy.toSmall.of_kfree freed, ?_⟩
  unfold kfree at freed
  cases found : s.findBlock pointer with
  | none =>
      rw [found] at freed
      cases freed
  | some i =>
      rw [found] at freed
      cases freed
      intro j inside
      simp only [setBlock, Function.update_apply]
      split
      next same => exact same ▸ tidy.unused j inside
      next other => exact tidy.unused j inside

theorem Tidy.of_krealloc (tidy : s.Tidy) {pointer size result : Word}
    (fits : size ≤ kernelHeapSize) (resized : s.krealloc pointer size = .done (result, next)) :
    next.Tidy := by
  have small := tidy.toSmall.of_krealloc fits resized
  by_cases null : pointer = 0
  · rw [krealloc, if_pos null, tidy.wf.kmalloc_eq] at resized
    cases resized
    exact tidy.of_kmalloc fits
  · by_cases zero : size = 0
    · rw [krealloc, if_neg null, if_pos zero] at resized
      obtain ⟨freed, done, returned⟩ := Outcome.bind_eq_done.mp resized
      cases returned
      exact tidy.of_kfree done
    · cases found : s.findBlock pointer with
      | none =>
          rw [krealloc, if_neg null, if_neg zero, found] at resized
          cases resized
      | some i =>
          obtain ⟨rfl, start⟩ := tidy.wf.eq_of_findBlock null found
          obtain ⟨_, same, -, -, used, -⟩ := tidy.wf.krealloc_spec start zero
          cases resized.symm.trans same
          cases same.symm.trans (tidy.wf.krealloc_eq start zero)
          exact tidy.of_head small (used ▸ null) fun i later => resized_base s size later

/-- Whatever pointers a client passes, the table stays tidy. -/
theorem Tidy.use (tidy : s.Tidy) {op : HeapUse} (fits : s.SmallUse op)
    (used : s.use op = .done next) : next.Tidy := by
  cases op with
  | malloc size =>
      rw [KHeap.use, tidy.wf.kmalloc_eq] at used
      cases used
      exact tidy.of_kmalloc fits
  | free pointer =>
      rw [KHeap.use] at used
      exact tidy.of_kfree used
  | realloc pointer size =>
      obtain ⟨⟨result, resized⟩, done, returned⟩ := Outcome.bind_eq_done.mp used
      cases returned
      exact tidy.of_krealloc fits done
  | write target value =>
      cases used
      exact ⟨tidy.toSmall.use fits rfl, tidy.unused⟩

end KHeap

namespace HeapTable

variable {s next : HeapTable} {i : Nat}

/-! ## The calls -/

theorem firstFit_blocks (s : HeapTable) (size : Word) :
    s.blocks.firstFit size = s.view.firstFit size := by
  rw [KHeap.firstFit, KHeap.firstFit]
  apply List.find?_congr
  intro i member
  rw [view_block (List.mem_range.mp member)]
  rfl

theorem findBlock_blocks (s : HeapTable) (addr : Word) :
    s.blocks.findBlock addr = s.view.findBlock addr := by
  rw [KHeap.findBlock, KHeap.findBlock]
  apply List.find?_congr
  intro i member
  rw [view_block (List.mem_range.mp member)]
  rfl

theorem growsInPlace_blocks (inside : i < kernelMaxBlock) (size : Word) :
    s.blocks.growsInPlace i size = s.view.growsInPlace i size := by
  have last : s.blocks.isLast i = s.view.isLast i := by
    rw [KHeap.isLast, KHeap.isLast, Bool.eq_iff_iff, List.all_eq_true, List.all_eq_true]
    refine forall₂_congr fun j member => ?_
    have small : j < kernelMaxBlock := by
      have bounds := List.mem_range'_1.mp member
      omega
    rw [view_block small]
    rfl
  rw [KHeap.growsInPlace, KHeap.growsInPlace, last, view_block inside]
  rfl

/-- `kmalloc` of at most the heap does not reach the table. -/
theorem view_kmalloc (apart : s.Apart) (wf : s.view.WF) {size : Word}
    (fits : size ≤ kernelHeapSize) :
    (s.kmalloc size).1 = s.heapAddr ∧ (s.kmalloc size).2.view = s.view.taken size := by
  have first : 0 < kernelMaxBlock := by decide
  unfold kmalloc
  rw [firstFit_blocks, wf.firstFit_eq, KHeap.taken]
  by_cases reusable : s.view.Reusable size
  · simp only [if_pos reusable]
    refine ⟨?_, view_setFree first false⟩
    rw [block_setFree first first, if_pos rfl, ← view_block first]
    exact wf.addr_head reusable.1
  · have next : KHeap.nextBlock s.block (kernelMaxBlock + 2) 0 = some 0 := by
      rw [KHeap.nextBlock, ← view_block first, if_neg wf.head_used]
    have outside : ∀ target, (target - s.heapAddr).toNat < size.toNat → ¬ s.InTable target :=
      fun target within => apart target (Nat.lt_of_lt_of_le within (BitVec.le_def.mp fits))
    have start : s.blocks.blockAddress 0 = some s.heapAddr := rfl
    simp only [if_neg reusable, next, start]
    refine ⟨trivial, ?_⟩
    rw [view_setSize first, view_setFree first, view_setAddr first, view_memset outside]
    simp only [KHeap.setBlock, Function.update_self, Function.update_idem]
    rfl

/-- The bytes of a block are not bytes of the table. -/
theorem block_outside (apart : s.Apart) (tidy : s.view.Tidy) (inside : i < kernelMaxBlock)
    {target : Word}
    (within : (target - (s.view.base i).addr).toNat < (s.view.base i).size.toNat) :
    ¬ s.InTable target := by
  by_cases unused : (s.view.base i).addr = 0
  · rw [tidy.unused i inside unused] at within
    exact absurd within (Nat.not_lt_zero _)
  · have first := tidy.wf.eq_zero_of_addr inside unused
    subst first
    rw [tidy.wf.addr_head unused] at within
    exact apart target (Nat.lt_of_lt_of_le within tidy.recorded)

theorem view_kfree (apart : s.Apart) (tidy : s.view.Tidy) (addr : Word) :
    view <$> s.kfree addr = s.view.kfree addr := by
  unfold kfree KHeap.kfree
  rw [findBlock_blocks]
  cases found : s.view.findBlock addr with
  | none => rfl
  | some i =>
      have inside := KHeap.findBlock_lt found
      have marked := @view_setFree s i inside true
      have block : (s.setFree i true).block i = { s.view.base i with free := true } := by
        rw [block_setFree inside inside, if_pos rfl, view_block inside]
      have outside : ∀ target, (target - (s.view.base i).addr).toNat <
          ((s.view.base i).size.setWidth 64).toNat → ¬ (s.setFree i true).InTable target := by
        intro target within
        rw [KHeap.size_setWidth] at within
        exact block_outside apart tidy inside within
      simp only [Outcome.map_done, block, KHeap.setBlock, Function.update_self]
      rw [view_memset outside, marked]
      rfl

theorem view_krealloc (apart : s.Apart) (tidy : s.view.Tidy) (addr : Word) {size : Word}
    (fits : size ≤ kernelHeapSize) :
    (fun result : Word × HeapTable => (result.1, result.2.view)) <$> s.krealloc addr size =
      s.view.krealloc addr size := by
  unfold krealloc KHeap.krealloc
  by_cases null : addr = 0
  · obtain ⟨pointer, shown⟩ := view_kmalloc apart tidy.wf fits
    rw [if_pos null, if_pos null, tidy.wf.kmalloc_eq, ← shown]
    simp only [Outcome.pure_eq_done, Outcome.map_done, pointer]
    rfl
  · rw [if_neg null, if_neg null]
    by_cases zero : size = 0
    · rw [if_pos zero, if_pos zero, ← view_kfree apart tidy]
      cases s.kfree addr <;> rfl
    · rw [if_neg zero, if_neg zero, findBlock_blocks]
      cases found : s.view.findBlock addr with
      | none => rfl
      | some i =>
          have inside := KHeap.findBlock_lt found
          simp only [← view_block inside, growsInPlace_blocks inside]
          by_cases enough : size ≤ (s.view.base i).size.setWidth 64
          · rw [if_pos enough, if_pos enough]
            rfl
          · -- A block that is too small finds room behind it.
            have grows : s.view.growsInPlace i size = true := by
              obtain ⟨rfl, used⟩ := tidy.wf.eq_of_findBlock null found
              rw [tidy.wf.findBlock_eq used, Option.some.injEq] at found
              subst found
              rw [BitVec.le_def, KHeap.size_setWidth, Nat.not_le] at enough
              exact (tidy.wf.growsInPlace_iff used enough).mpr (Or.inl (BitVec.le_def.mp fits))
            rw [if_neg enough, if_neg enough, if_pos grows, if_pos grows]
            simp only [Outcome.pure_eq_done, Outcome.map_done, view_setSize inside]

/-! ## One operation -/

/-- Requests are at most as large as the heap, and the table is not written. -/
def Fits (s : HeapTable) : HeapUse → Prop
  | .malloc size => size ≤ kernelHeapSize
  | .free _ => True
  | .realloc _ size => size ≤ kernelHeapSize
  | .write target _ => ¬ s.InTable target

/-- The view of the heap after an operation. -/
theorem view_use (apart : s.Apart) (tidy : s.view.Tidy) {op : HeapUse} (fits : s.Fits op) :
    view <$> s.use op = s.view.use op := by
  cases op with
  | malloc size =>
      obtain ⟨-, shown⟩ := view_kmalloc apart tidy.wf fits
      rw [use, KHeap.use, tidy.wf.kmalloc_eq, ← shown]
      rfl
  | free pointer => exact view_kfree apart tidy pointer
  | realloc pointer size =>
      rw [use, KHeap.use, ← view_krealloc apart tidy pointer fits]
      cases s.krealloc pointer size <;> rfl
  | write target value =>
      have shown : (fun query => if s.InTable query then 0
          else s.memory.write8 target value query) = s.view.memory.write8 target value := by
        funext query
        simp only [Memory.write8, view]
        by_cases inside : s.InTable query
        · have other : query ≠ target := fun same => fits (same ▸ inside)
          rw [if_pos inside, if_neg other, if_pos inside]
        · rw [if_neg inside, if_neg inside]
      rw [use, Outcome.map_done, view_setMemory, shown]
      · rfl
      · intro query inside
        refine if_neg ?_
        rintro rfl
        exact fits inside

/-- No call moves the heap or the table. -/
theorem kmalloc_placed (s : HeapTable) (size : Word) :
    (s.kmalloc size).2.base = s.base ∧ (s.kmalloc size).2.heapAddr = s.heapAddr := by
  unfold kmalloc
  split
  next => exact ⟨rfl, rfl⟩
  next =>
    split
    next => exact ⟨rfl, rfl⟩
    next => split <;> exact ⟨rfl, rfl⟩

theorem kfree_placed {addr : Word} (freed : s.kfree addr = .done next) :
    next.base = s.base ∧ next.heapAddr = s.heapAddr := by
  unfold kfree at freed
  split at freed
  next => cases freed
  next =>
    cases freed
    exact ⟨rfl, rfl⟩

theorem krealloc_placed {addr size result : Word}
    (resized : s.krealloc addr size = .done (result, next)) :
    next.base = s.base ∧ next.heapAddr = s.heapAddr := by
  unfold krealloc at resized
  split at resized
  next =>
    rw [Outcome.pure_eq_done, Outcome.done.injEq] at resized
    have moved := kmalloc_placed s size
    rwa [resized] at moved
  next =>
    split at resized
    next =>
      obtain ⟨after, freed, returned⟩ := Outcome.bind_eq_done.mp resized
      cases returned
      exact kfree_placed freed
    next =>
      split at resized
      next => cases resized
      next =>
        dsimp only at resized
        split at resized
        next =>
          cases resized
          exact ⟨rfl, rfl⟩
        next =>
          split at resized
          next =>
            cases resized
            exact ⟨rfl, rfl⟩
          next =>
            have moved := kmalloc_placed s size
            generalize s.kmalloc size = allocated at resized moved
            obtain ⟨newPtr, after⟩ := allocated
            dsimp only at resized moved
            split at resized
            next =>
              cases resized
              exact moved
            next =>
              obtain ⟨last, freed, returned⟩ := Outcome.bind_eq_done.mp resized
              cases returned
              obtain ⟨base, heapAddr⟩ := kfree_placed freed
              exact ⟨base.trans moved.1, heapAddr.trans moved.2⟩

theorem use_placed {op : HeapUse} (used : s.use op = .done next) :
    next.base = s.base ∧ next.heapAddr = s.heapAddr := by
  cases op with
  | malloc size =>
      rw [use, Outcome.done.injEq] at used
      exact used ▸ kmalloc_placed s size
  | free pointer =>
      rw [use] at used
      exact kfree_placed used
  | realloc pointer size =>
      rw [use, Outcome.bind_eq_done] at used
      obtain ⟨⟨result, after⟩, resized, returned⟩ := used
      cases returned
      exact krealloc_placed resized
  | write target value =>
      rw [use, Outcome.done.injEq] at used
      exact used ▸ ⟨rfl, rfl⟩

/-- The table lies beside the heap, and it is tidy. -/
structure Separate (s : HeapTable) : Prop where
  apart : s.Apart
  tidy : s.view.Tidy

theorem Separate.use (separate : s.Separate) {op : HeapUse} (fits : s.Fits op)
    (used : s.use op = .done next) : next.Separate := by
  obtain ⟨base, heapAddr⟩ := use_placed used
  have shown := view_use separate.apart separate.tidy fits
  rw [used, Outcome.map_done] at shown
  constructor
  · intro target
    rw [heapAddr, InTable, base]
    exact separate.apart target
  · apply separate.tidy.use ?_ shown.symm
    cases op with
    | malloc size => exact fits
    | free pointer => trivial
    | realloc pointer size => exact fits
    | write target value => trivial

end HeapTable

/-! ## Clients -/

/-- The heap with its table in memory, and the allocations its clients hold. -/
structure TableClient where
  heap : HeapTable
  live : List Allocation

namespace TableClient

/-- Execute one operation and keep track of the live allocations. -/
def step (client : TableClient) : HeapOp → Outcome TableClient
  | .malloc size =>
      match client.heap.kmalloc size with
      | (pointer, heap) =>
          if pointer = 0 then return ⟨heap, client.live⟩
          else return ⟨heap, client.live ++ [⟨pointer, size⟩]⟩
  | .free index =>
      match client.live[index]? with
      | none => .fault
      | some allocation => do
          let heap ← client.heap.kfree allocation.address
          return ⟨heap, client.live.eraseIdx index⟩
  | .realloc index size =>
      match client.live[index]? with
      | none => .fault
      | some allocation => do
          let (pointer, heap) ← client.heap.krealloc allocation.address size
          if size = 0 then return ⟨heap, client.live.eraseIdx index⟩
          else if pointer = 0 then return ⟨heap, client.live⟩
          else return ⟨heap, client.live.set index ⟨pointer, size⟩⟩

/-- The client with the table beside the memory. -/
def view (client : TableClient) : HeapClient :=
  ⟨client.heap.view, client.live⟩

/-- The operation asks for no more than the whole heap. -/
def SmallRequest (_client : TableClient) (op : HeapOp) : Prop :=
  ∀ size ∈ op.request, size ≤ kernelHeapSize

variable {client next : TableClient}

/-- The view of a client after a step. -/
theorem view_step (separate : client.heap.Separate) {op : HeapOp} (small : client.SmallRequest op) :
    view <$> client.step op = client.view.step op := by
  cases op with
  | malloc size =>
      obtain ⟨pointer, shown⟩ :=
        HeapTable.view_kmalloc separate.apart separate.tidy.wf (small size rfl)
      have call := separate.tidy.wf.kmalloc_eq size
      have nonNull : client.heap.heapAddr ≠ 0 := separate.tidy.wf.nonNull
      rw [← shown] at call
      rw [step, HeapClient.step]
      generalize client.heap.kmalloc size = allocated at pointer call
      obtain ⟨result, heap⟩ := allocated
      cases pointer
      simp only [view, call]
      rw [if_neg nonNull, if_neg (show client.heap.view.heapAddr ≠ 0 from nonNull)]
      rfl
  | free index =>
      rw [step, HeapClient.step]
      cases found : client.live[index]? with
      | none => simp only [view, found, Outcome.map_fault]
      | some allocation =>
          simp only [view, found]
          rw [← HeapTable.view_kfree separate.apart separate.tidy]
          cases client.heap.kfree allocation.address <;> rfl
  | realloc index size =>
      rw [step, HeapClient.step]
      cases found : client.live[index]? with
      | none => simp only [view, found, Outcome.map_fault]
      | some allocation =>
          simp only [view, found]
          rw [← HeapTable.view_krealloc separate.apart separate.tidy _ (small size rfl)]
          cases client.heap.krealloc allocation.address size with
          | done result =>
              simp only [Outcome.map_done, Outcome.done_bind]
              split
              next => rfl
              next => split <;> rfl
          | killed => rfl
          | spinning => rfl
          | fault => rfl

/-- A step keeps the table beside the heap. -/
theorem separate_step (separate : client.heap.Separate) {op : HeapOp}
    (small : client.SmallRequest op) (stepped : client.step op = .done next) :
    next.heap.Separate := by
  rw [step.eq_def] at stepped
  cases op with
  | malloc size =>
      have fits : client.heap.Fits (.malloc size) := small size rfl
      have kept : (client.heap.kmalloc size).2.Separate := separate.use fits (by rw [HeapTable.use])
      dsimp only at stepped
      generalize client.heap.kmalloc size = allocated at kept stepped
      split at stepped
      next =>
        cases stepped
        exact kept
      next =>
        cases stepped
        exact kept
  | free index =>
      dsimp only at stepped
      split at stepped
      next => cases stepped
      next allocation found =>
        obtain ⟨heap, freed, returned⟩ := Outcome.bind_eq_done.mp stepped
        cases returned
        have fits : client.heap.Fits (.free allocation.address) := trivial
        exact separate.use fits (by rw [HeapTable.use, freed])
  | realloc index size =>
      dsimp only at stepped
      split at stepped
      next => cases stepped
      next allocation found =>
        obtain ⟨⟨pointer, heap⟩, resized, returned⟩ := Outcome.bind_eq_done.mp stepped
        have fits : client.heap.Fits (.realloc allocation.address size) := small size rfl
        have kept : heap.Separate :=
          separate.use fits (by rw [HeapTable.use, resized]; rfl)
        dsimp only at returned
        split at returned
        next =>
          cases returned
          exact kept
        next =>
          split at returned
          next =>
            cases returned
            exact kept
          next =>
            cases returned
            exact kept

end TableClient

/-! ## Runs -/

namespace HeapTable

variable {s : HeapTable}

/-- Bytes of zero are a table of unused blocks. -/
theorem block_of_zero (zero : ∀ target, s.InTable target → s.memory target = 0) {i : Nat}
    (inside : i < kernelMaxBlock) : s.block i = ⟨0, 0, false⟩ := by
  have empty : ∀ offset count, offset + count ≤ tableSize → s.load offset count = 0 := by
    intro offset count small
    have none := @Memory.readLE_of_digits s.memory (s.base + BitVec.ofNat 64 offset) count 0 ?_
    · rw [load, none, Nat.zero_mod]
    · intro k within
      rw [zero _ (inTable_offset (by omega)), Nat.zero_div]
      rfl
  simp only [kernelMaxBlock] at inside
  simp only [block, addrOffset, sizeOffset, freeOffset]
  rw [empty _ _ (by simp only [tableSize]; omega), empty _ _ (by simp only [tableSize]; omega),
    empty _ _ (by simp only [tableSize]; omega)]
  rfl

/-- What `kernel_heap_init` leaves behind. -/
structure Initial (s : HeapTable) : Prop where
  nonNull : s.heapAddr ≠ 0
  head : s.block 0 = ⟨0, 0, true⟩
  rest : ∀ i < kernelMaxBlock, i ≠ 0 → s.block i = ⟨0, 0, false⟩

theorem initial_of_booted {base heapAddr : Word} {memory : Memory}
    (booted : kernelHeapInit base heapAddr memory = .done s) :
    s.base = base ∧ s.heapAddr = heapAddr ∧ s.Initial := by
  have first : 0 < kernelMaxBlock := by decide
  unfold kernelHeapInit at booted
  split at booted
  next => cases booted
  next =>
    dsimp only at booted
    split at booted
    next => cases booted
    next nonNull =>
      cases booted
      have zero : ∀ i < kernelMaxBlock, block ⟨base, heapAddr,
          memset memory base 0 (BitVec.ofNat 64 tableSize)⟩ i = ⟨0, 0, false⟩ := by
        intro i inside
        apply block_of_zero _ inside
        intro target within
        simp only [memset_eq_fill, Memory.fill_apply]
        exact if_pos within
      refine ⟨rfl, rfl, nonNull, ?_, ?_⟩
      · rw [block_setFree first first, if_pos rfl, zero 0 first]
      · intro i inside later
        rw [block_setFree first inside, if_neg later, zero i inside]

theorem Initial.unused (initial : s.Initial) {i : Nat} (inside : i < kernelMaxBlock) :
    (s.block i).addr = 0 ∧ (s.block i).size = 0 := by
  by_cases first : i = 0
  · rw [first, initial.head]
    exact ⟨rfl, rfl⟩
  · rw [initial.rest i inside first]
    exact ⟨rfl, rfl⟩

/-- The view of the heap that `kernel_heap_init` leaves behind is that of `KHeap`. -/
theorem Initial.view_booted (initial : s.Initial) (nonNull : s.base ≠ 0) :
    Lord84.kernelHeapInit s.base s.heapAddr (fun _ => ⟨0, 0, false⟩) s.view.memory =
      .done s.view := by
  have table : Function.update (fun i => if i < kernelMaxBlock then (⟨0, 0, false⟩ : Block)
      else ⟨0, 0, false⟩) 0 ⟨0, 0, true⟩ = s.view.base := by
    funext i
    rw [Function.update_apply, ite_self]
    by_cases inside : i < kernelMaxBlock
    · rw [view_block inside]
      split
      next first => rw [first, initial.head]
      next later => rw [initial.rest i inside later]
    · have later : i ≠ 0 := by
        rintro rfl
        exact inside (by decide)
      exact (if_neg later).trans (if_neg inside).symm
  rw [Lord84.kernelHeapInit, if_neg nonNull, if_neg initial.nonNull]
  exact congrArg (fun base => Outcome.done (KHeap.mk base s.heapAddr s.view.memory)) table

theorem Initial.separate (initial : s.Initial) (nonNull : s.base ≠ 0) (apart : s.Apart) :
    s.Separate := by
  refine ⟨apart, KHeap.small_initial (initial.view_booted nonNull), ?_⟩
  intro i inside _
  rw [view_block inside]
  exact (initial.unused inside).2

end HeapTable

/-- As long as no request is larger than the heap, and no client writes to the table, the heap
with its table in memory does what `KHeap` does: for calls with any pointers and for clients that
hold on to their allocations. -/
theorem heap_table_refines {base heapAddr : Word} {memory : Memory} {s : HeapTable}
    (booted : HeapTable.kernelHeapInit base heapAddr memory = .done s) (apart : s.Apart) :
    kernelHeapInit base heapAddr (fun _ => ⟨0, 0, false⟩) s.view.memory = .done s.view ∧
    (∀ ops, Along HeapTable.use HeapTable.Fits s ops →
      HeapTable.view <$> run HeapTable.use s ops = run KHeap.use s.view ops) ∧
    ∀ ops, Along TableClient.step TableClient.SmallRequest ⟨s, []⟩ ops →
      TableClient.view <$> run TableClient.step ⟨s, []⟩ ops =
        run HeapClient.step ⟨s.view, []⟩ ops := by
  have nonNull : base ≠ 0 := by
    rintro rfl
    cases booted
  obtain ⟨rfl, rfl, initial⟩ := HeapTable.initial_of_booted booted
  have separate := initial.separate nonNull apart
  refine ⟨initial.view_booted nonNull, ?_, ?_⟩
  · intro ops fits
    exact run_refines HeapTable.view
      (fun _ _ kept fits => HeapTable.view_use kept.apart kept.tidy fits)
      (fun _ _ _ kept fits used => kept.use fits used) separate fits
  · intro ops small
    exact @run_refines _ _ _ TableClient.SmallRequest (fun client => client.heap.Separate) _ _
      TableClient.view (fun _ _ kept small => TableClient.view_step kept small)
      (fun _ _ _ kept small stepped => TableClient.separate_step kept small stepped)
      ⟨s, []⟩ ops separate small

namespace HeapTable

variable {s : HeapTable}

/-- A table right behind the heap lies outside of it. -/
theorem apart_of_behind (behind : s.base = s.heapAddr + kernelHeapSize) : s.Apart := by
  intro target within listed
  rw [InTable, behind] at listed
  simp only [tableSize, kernelHeapSize] at within listed
  bv_omega

end HeapTable

/-- A block is allocated, written, extended and freed beside its table. -/
theorem heap_table_refines_behind :
    ∃ s : HeapTable, HeapTable.kernelHeapInit 0x10100000 0x100000 (fun _ => 7) = .done s ∧
      HeapTable.view <$> run HeapTable.use s
          [.malloc 16, .write 0x100004 1, .realloc 0x100000 32, .free 0x100000] =
        run KHeap.use s.view
          [.malloc 16, .write 0x100004 1, .realloc 0x100000 32, .free 0x100000] ∧
      TableClient.view <$> run TableClient.step ⟨s, []⟩ [.malloc 16, .realloc 0 32, .free 0] =
        run HeapClient.step ⟨s.view, []⟩ [.malloc 16, .realloc 0 32, .free 0] := by
  have booted : HeapTable.kernelHeapInit 0x10100000 0x100000 (fun _ => 7) = .done _ := rfl
  have small : ∀ size : Word, size = 16 ∨ size = 32 → size ≤ kernelHeapSize := by
    rintro size (rfl | rfl) <;> decide
  obtain ⟨-, uses, clients⟩ := heap_table_refines booted (HeapTable.apart_of_behind rfl)
  refine ⟨_, booted, uses _ ?_, clients _ ?_⟩
  · refine ⟨small 16 (Or.inl rfl), fun after used => ⟨?_, fun _ _ =>
      ⟨small 32 (Or.inr rfl), fun _ _ => ⟨trivial, fun _ _ => trivial⟩⟩⟩⟩
    -- The byte that is written is one of the heap.
    obtain ⟨base, -⟩ := HeapTable.use_placed used
    rw [HeapTable.Fits, HeapTable.InTable, base]
    decide
  · refine ⟨?_, fun _ _ => ⟨?_, fun _ _ => ⟨?_, fun _ _ => trivial⟩⟩⟩
    · rintro size ⟨⟩
      exact small 16 (Or.inl rfl)
    · rintro size ⟨⟩
      exact small 32 (Or.inr rfl)
    · rintro size ⟨⟩

/-! ## A block that covers the table -/

namespace HeapTable

variable {s : HeapTable} {i k : Nat}

/-- Nothing is left of the table. -/
def Blank (s : HeapTable) : Prop :=
  ∀ target, s.InTable target → s.memory target = 0

theorem nextBlock_spec {base : Nat → Block} {fuel : Nat} (start : i ≤ kernelMaxBlock + 1)
    (found : KHeap.nextBlock base fuel i = some k) :
    k ≤ kernelMaxBlock + 1 ∧ ¬ ((base k).free = false ∧ (base k).addr = 0) := by
  induction fuel generalizing i with
  | zero => cases found
  | succ fuel ih =>
      rw [KHeap.nextBlock] at found
      split at found
      next =>
        split at found
        next => cases found
        next inside => exact ih (by omega) found
      next used =>
        cases found
        exact ⟨start, used⟩

/-- A store behind the table. -/
theorem Blank.store (blank : s.Blank) {offset count : Nat} (value : Nat)
    (behind : tableSize ≤ offset) (small : offset + count < 2 ^ 62) :
    (s.store offset count value).Blank := by
  intro target listed
  have zero : s.memory target = 0 := blank target listed
  change s.memory.writeLE _ count value target = 0
  rw [Memory.writeLE_apply, if_neg, zero]
  simp only [InTable, HeapTable.store, tableSize] at listed behind
  bv_omega

theorem Blank.memset (blank : s.Blank) (dest size : Word) :
    Blank { s with memory := memset s.memory dest 0 size } := by
  intro target listed
  simp only [memset_eq_fill, Memory.fill_apply]
  split
  next => rfl
  next => exact blank target listed

theorem Blank.findBlock (blank : s.Blank) {pointer : Word} (nonNull : pointer ≠ 0) :
    s.blocks.findBlock pointer = none := by
  rw [KHeap.findBlock, List.find?_eq_none]
  intro i member
  rw [show s.blocks.base i = s.block i from rfl,
    block_of_zero blank (List.mem_range.mp member), decide_eq_true_eq]
  exact nonNull.symm

/-- A search for a free block passes over blocks without an address. -/
theorem firstFit_of_unused (unused : ∀ i < kernelMaxBlock, (s.block i).addr = 0) (size : Word) :
    s.blocks.firstFit size = none := by
  rw [KHeap.firstFit, List.find?_eq_none]
  intro i member fits
  rw [decide_eq_true_eq] at fits
  exact fits.1 (unused i (List.mem_range.mp member))

/-- In a blank table no block is found, so `kmalloc` goes on behind it. -/
theorem Blank.kmalloc (blank : s.Blank) (size : Word) : (s.kmalloc size).2.Blank := by
  have unused : ∀ i < kernelMaxBlock, (s.block i).addr = 0 := by
    intro i inside
    rw [block_of_zero blank inside]
  unfold HeapTable.kmalloc
  rw [firstFit_of_unused unused]
  dsimp only
  split
  next => exact blank
  next i found =>
    obtain ⟨bound, used⟩ := nextBlock_spec (Nat.zero_le _) found
    have behind : kernelMaxBlock ≤ i := by
      by_contra inside
      rw [block_of_zero blank (Nat.lt_of_not_le inside)] at used
      exact used ⟨rfl, rfl⟩
    simp only [kernelMaxBlock] at bound behind
    split
    next => exact blank
    next addr _ =>
      refine (((blank.memset addr size).store _ ?_ ?_).store _ ?_ ?_).store _ ?_ ?_
      all_goals simp only [addrOffset, sizeOffset, freeOffset, tableSize]; omega

theorem kfree_of_not_found {pointer : Word} (missing : s.blocks.findBlock pointer = none) :
    s.kfree pointer = .killed := by
  unfold kfree
  rw [missing]

/-- Once the table is blank, no pointer can be freed any more, whatever is allocated. -/
theorem Blank.kfree_killed (blank : s.Blank) (requests : List Word) {pointer : Word}
    (nonNull : pointer ≠ 0) :
    (requests.foldl (fun heap size => (heap.kmalloc size).2) s).kfree pointer = .killed := by
  induction requests generalizing s with
  | nil => exact kfree_of_not_found (blank.findBlock nonNull)
  | cons size requests ih =>
      rw [List.foldl_cons]
      exact ih (blank.kmalloc size)

/-- The first `kmalloc` takes the first block, which the `memset` may have cleared. -/
theorem Initial.kmalloc_eq (initial : s.Initial) (size : Word) :
    s.kmalloc size = (s.heapAddr,
      ((HeapTable.setAddr { s with memory := memset s.memory s.heapAddr 0 size } 0
        s.heapAddr).setFree 0 false).setSize 0 (size.setWidth 32)) := by
  have next : KHeap.nextBlock s.block (kernelMaxBlock + 2) 0 = some 0 := by
    rw [KHeap.nextBlock, initial.head, if_neg]
    rintro ⟨⟨⟩, -⟩
  have start : s.blocks.blockAddress 0 = some s.heapAddr := rfl
  unfold HeapTable.kmalloc
  rw [firstFit_of_unused fun i inside => (initial.unused inside).1, next]
  simp only [start]

/-- The block that the first `kmalloc` fills in, and the rest of a table that it covers. -/
theorem Initial.kmalloc_block (initial : s.Initial) {size : Word}
    (covers : ∀ target, s.InTable target → (target - s.heapAddr).toNat < size.toNat)
    {i : Nat} (inside : i < kernelMaxBlock) :
    (s.kmalloc size).2.block i =
      if i = 0 then ⟨s.heapAddr, size.setWidth 32, false⟩ else ⟨0, 0, false⟩ := by
  have first : 0 < kernelMaxBlock := by decide
  have cleared : Blank { s with memory := memset s.memory s.heapAddr 0 size } := by
    intro target listed
    simp only [memset_eq_fill, Memory.fill_apply]
    exact if_pos (covers target listed)
  rw [initial.kmalloc_eq]
  generalize ({ s with memory := memset s.memory s.heapAddr 0 size } : HeapTable) = s' at cleared
  simp only [block_setSize first inside, block_setFree first first, block_setFree first inside,
    block_setAddr first first, block_setAddr first inside, block_of_zero cleared inside,
    block_of_zero cleared first, if_pos]
  split <;> rfl

/-- `kfree` of a block that covers the table. -/
theorem blank_of_kfree {addr : Word} {size : BitVec 32}
    (first : s.block 0 = ⟨addr, size, false⟩)
    (rest : ∀ i < kernelMaxBlock, i ≠ 0 → (s.block i).addr ≠ addr)
    (covers : ∀ target, s.InTable target → (target - addr).toNat < size.toNat) :
    ∃ after, s.kfree addr = .done after ∧ after.Blank := by
  have inside : 0 < kernelMaxBlock := by decide
  have found : s.blocks.findBlock addr = some 0 := by
    rw [KHeap.findBlock, find?_range_head, if_pos]
    · rw [decide_eq_true_eq]
      exact congrArg Block.addr first
    · intro i later inside
      rw [decide_eq_false_iff_not]
      exact rest i inside (Nat.ne_of_gt later)
  have marked : (s.setFree 0 true).block 0 = ⟨addr, size, true⟩ := by
    rw [block_setFree inside inside, if_pos rfl, first]
  unfold kfree
  rw [found]
  simp only [marked]
  have recorded : (size.setWidth 64).toNat = size.toNat := BitVec.toNat_setWidth_of_le (by decide)
  refine ⟨_, rfl, ?_⟩
  intro target listed
  simp only [memset_eq_fill, Memory.fill_apply, recorded]
  exact if_pos (covers target listed)

end HeapTable

/-- A block that covers its table: the second `memset` of the same range leaves nothing of the
table, and nothing that is allocated later can be freed. -/
theorem kfree_wipes_table {base heapAddr size : Word} {memory : Memory} {s : HeapTable}
    (booted : HeapTable.kernelHeapInit base heapAddr memory = .done s)
    (behind : base = heapAddr + kernelHeapSize)
    (covers : kernelHeapSize.toNat + tableSize ≤ size.toNat) (short : size.toNat < 2 ^ 32) :
    (s.kmalloc size).1 = heapAddr ∧
      ∃ after, (s.kmalloc size).2.kfree heapAddr = .done after ∧
        (∀ i < kernelMaxBlock, after.block i = ⟨0, 0, false⟩) ∧
        ∀ (requests : List Word) (pointer : Word), pointer ≠ 0 →
          (requests.foldl (fun heap size => (heap.kmalloc size).2) after).kfree pointer =
            .killed := by
  obtain ⟨rfl, rfl, initial⟩ := HeapTable.initial_of_booted booted
  have covered : ∀ target, s.InTable target → (target - s.heapAddr).toNat < size.toNat := by
    intro target listed
    rw [HeapTable.InTable, behind] at listed
    simp only [tableSize, kernelHeapSize] at listed covers
    bv_omega
  have recorded : (size.setWidth 32).toNat = size.toNat := by bv_omega
  have taken : ∀ i < kernelMaxBlock, (s.kmalloc size).2.block i =
      if i = 0 then ⟨s.heapAddr, size.setWidth 32, false⟩ else ⟨0, 0, false⟩ :=
    fun i inside => initial.kmalloc_block covered inside
  obtain ⟨after, freed, blank⟩ :
      ∃ after, (s.kmalloc size).2.kfree s.heapAddr = .done after ∧ after.Blank := by
    refine HeapTable.blank_of_kfree (taken 0 (by decide)) ?_ ?_
    · intro i inside later same
      rw [taken i inside, if_neg later] at same
      exact initial.nonNull same.symm
    · intro target listed
      rw [HeapTable.InTable, (HeapTable.kmalloc_placed s size).1] at listed
      rw [recorded]
      exact covered target listed
  refine ⟨congrArg Prod.fst (initial.kmalloc_eq size), after, freed,
    fun i inside => HeapTable.block_of_zero blank inside,
    fun requests pointer nonNull => blank.kfree_killed requests nonNull⟩

/-- A block of 8 KiB more than the heap. -/
theorem kfree_wipes_table_behind :
    ∃ s : HeapTable, HeapTable.kernelHeapInit 0x10100000 0x100000 (fun _ => 7) = .done s ∧
      (s.kmalloc 0x10002000).1 = 0x100000 ∧
      ∃ after, (s.kmalloc 0x10002000).2.kfree 0x100000 = .done after ∧
        (∀ i < kernelMaxBlock, after.block i = ⟨0, 0, false⟩) ∧
        ∀ (requests : List Word) (pointer : Word), pointer ≠ 0 →
          (requests.foldl (fun heap size => (heap.kmalloc size).2) after).kfree pointer =
            .killed := by
  have booted : HeapTable.kernelHeapInit 0x10100000 0x100000 (fun _ => 7) = .done _ := rfl
  exact ⟨_, booted, kfree_wipes_table booted rfl (by decide) (by decide)⟩

end Lord84
