import Lord84.Mm.KmallocRun

/-!
# Zeroed allocations

A block that `kmalloc` uses again is not cleared; it was cleared by `kfree`.  So the memory
that `kmalloc` returns is zero because every free block is, and this survives every call and
every write of a client outside the free blocks.

The clients write to the memory of the heap.  None of their writes reaches the block table, which
lies outside the heap and beside the memory of `KHeap`.
-/

namespace Lord84

open Theory

/-- What clients do: calls of the heap, and writes of single bytes. -/
inductive HeapUse where
  | malloc (size : Word)
  | free (pointer : Word)
  | realloc (pointer size : Word)
  | write (target : Word) (value : Byte)

namespace KHeap

/-- Execute one of them. -/
def use (s : KHeap) : HeapUse → Outcome KHeap
  | .malloc size => .done (s.kmalloc size).2
  | .free pointer => s.kfree pointer
  | .realloc pointer size => do
      let (_, s) ← s.krealloc pointer size
      return s
  | .write target value => .done { s with memory := s.memory.write8 target value }

/-- The table has an entry in use for the pointer. -/
def InUse (s : KHeap) (pointer : Word) : Prop :=
  pointer ≠ 0 ∧ ∃ i < kernelMaxBlock, (s.base i).addr = pointer ∧ (s.base i).free = false

/-- The byte belongs to a block whose entry is marked free. -/
def InFreeBlock (s : KHeap) (target : Word) : Prop :=
  ∃ i < kernelMaxBlock, (s.base i).free = true ∧
    (target - (s.base i).addr).toNat < (s.base i).size.toNat

/-- Only what is in use is freed or resized, requests are at most as large as the heap, and
free blocks are not written; nor is the block table, which `write` cannot name. -/
def Permits (s : KHeap) : HeapUse → Prop
  | .malloc size => size ≤ kernelHeapSize
  | .free pointer => s.InUse pointer
  | .realloc pointer size => s.InUse pointer ∧ size ≤ kernelHeapSize
  | .write target _ => ¬ s.InFreeBlock target

/-- `kmalloc(size)` returns `NULL` or `size` bytes of zeroes. -/
def KmallocZeroed (s : KHeap) (size : Word) : Prop :=
  (s.kmalloc size).1 ≠ 0 → ∀ offset < size.toNat,
    (s.kmalloc size).2.memory ((s.kmalloc size).1 + BitVec.ofNat 64 offset) = 0

/-- The calls of `kmalloc` that an operation makes return zeroes; for `krealloc` that is the
call that looks for a new place. -/
def CallsZeroed (s : KHeap) : HeapUse → Prop
  | .malloc size => s.KmallocZeroed size
  | .free _ => True
  | .realloc pointer size => size ≠ 0 → s.Moves pointer size → s.KmallocZeroed size
  | .write _ _ => True

/-! ## Free blocks -/

/-- The block of a collapsed heap holds zeroes while it is free. -/
structure Zeroed (s : KHeap) : Prop where
  wf : s.WF
  zero : (s.base 0).addr ≠ 0 → (s.base 0).free = true → ∀ target,
    (target - s.heapAddr).toNat < (s.base 0).size.toNat → s.memory target = 0

variable {s : KHeap}

/-- A heap whose block is in use has no free block. -/
theorem WF.zeroed_of_used (wf : s.WF) (used : (s.base 0).free = false) : s.Zeroed where
  wf
  zero := by
    intro _ free
    rw [used] at free
    cases free

/-- In a collapsed heap, a pointer in use is the start of the heap. -/
theorem WF.eq_of_inUse (wf : s.WF) {pointer : Word} (inUse : s.InUse pointer) :
    pointer = s.heapAddr ∧ (s.base 0).addr = s.heapAddr ∧ (s.base 0).free = false := by
  obtain ⟨nonNull, i, small, here, used⟩ := inUse
  have first := wf.eq_zero_of_addr small (here ▸ nonNull)
  subst first
  have start := wf.addr_head (here ▸ nonNull)
  exact ⟨here.symm.trans start, start, used⟩

/-- `kfree` clears the block. -/
theorem WF.zeroed_released (wf : s.WF) (used : (s.base 0).addr = s.heapAddr) :
    s.released.Zeroed where
  wf := wf.released used
  zero := by
    intro _ _ target inside
    have block : (target - s.heapAddr).toNat < ((s.base 0).size.setWidth 64).toNat := by
      rw [size_setWidth]
      exact inside
    simp only [KHeap.released, memset_eq_fill, Memory.fill_apply, if_pos block]
    rfl

theorem taken_used (s : KHeap) (size : Word) : ((s.taken size).base 0).free = false := by
  rw [KHeap.taken]
  split <;> rfl

/-- `kmalloc` returns zeroes: a block that it uses again is zero, and a new one is cleared. -/
theorem Zeroed.kmallocZeroed (zeroed : s.Zeroed) (size : Word) : s.KmallocZeroed size := by
  rw [KmallocZeroed, zeroed.wf.kmalloc_eq]
  intro _ offset small
  have bound : offset < 2 ^ 64 := Nat.lt_trans small size.isLt
  have position := Memory.offset_sub s.heapAddr bound
  simp only [KHeap.taken]
  split
  next reusable =>
    apply zeroed.zero reusable.1 reusable.2.1
    have fits := reusable.2.2
    rw [BitVec.le_def, size_setWidth] at fits
    rw [position]
    exact Nat.lt_of_lt_of_le small fits
  next =>
    have inside : (s.heapAddr + BitVec.ofNat 64 offset - s.heapAddr).toNat < size.toNat := by
      rw [position]
      exact small
    simp only [memset_eq_fill, Memory.fill_apply, if_pos inside]
    rfl

/-- `krealloc` of a block in use leaves it in use, or moves it and frees it. -/
theorem WF.zeroed_resized (wf : s.WF) (start : (s.base 0).addr = s.heapAddr)
    (used : (s.base 0).free = false) (size : Word) : (s.resized size).Zeroed := by
  rw [resized]
  split
  next => exact wf.zeroed_of_used used
  next =>
    split
    next =>
      refine WF.zeroed_of_used ⟨wf.nonNull, Or.inr start, ?_⟩ used
      intro i later small
      simp only [setBlock, Function.update_of_ne (Nat.pos_iff_ne_zero.mp later)]
      exact wf.rest i later small
    next =>
      apply WF.zeroed_released ((wf.taken size).setMemory _)
      exact (wf.taken_addr size).trans (taken_heapAddr s size).symm

/-- Every permitted use returns and keeps free blocks zero. -/
theorem Zeroed.use (zeroed : s.Zeroed) {op : HeapUse} (permitted : s.Permits op) :
    ∃ next, s.use op = .done next ∧ next.Zeroed := by
  cases op with
  | malloc size =>
      refine ⟨s.taken size, ?_, (zeroed.wf.taken size).zeroed_of_used (taken_used s size)⟩
      rw [KHeap.use, zeroed.wf.kmalloc_eq]
  | free pointer =>
      obtain ⟨start, block, -⟩ := zeroed.wf.eq_of_inUse permitted
      refine ⟨s.released, ?_, zeroed.wf.zeroed_released block⟩
      rw [KHeap.use, zeroed.wf.kfree_eq block start]
  | realloc pointer size =>
      obtain ⟨rfl, block, used⟩ := zeroed.wf.eq_of_inUse permitted.1
      by_cases zero : size = 0
      · subst zero
        refine ⟨s.released, ?_, zeroed.wf.zeroed_released block⟩
        simp only [KHeap.use, krealloc, if_neg zeroed.wf.nonNull, if_true,
          zeroed.wf.kfree_eq block rfl, Outcome.done_bind, Outcome.pure_eq_done]
      · refine ⟨s.resized size, ?_, zeroed.wf.zeroed_resized block used size⟩
        rw [KHeap.use, zeroed.wf.krealloc_eq block zero]
        rfl
  | write target value =>
      refine ⟨_, rfl, zeroed.wf.setMemory _, ?_⟩
      intro used free query inside
      have here : query ≠ target := by
        rintro rfl
        apply permitted
        refine ⟨0, by decide, free, ?_⟩
        rw [zeroed.wf.addr_head used]
        exact inside
      simp only [Memory.write8, if_neg here]
      exact zeroed.zero used free query inside

theorem Zeroed.callsZeroed (zeroed : s.Zeroed) (op : HeapUse) : s.CallsZeroed op := by
  cases op with
  | malloc size => exact zeroed.kmallocZeroed size
  | free pointer => trivial
  | realloc pointer size => exact fun _ _ => zeroed.kmallocZeroed size
  | write target value => trivial

/-- Runs keep free blocks zero, so all their calls of `kmalloc` return zeroes. -/
theorem Zeroed.run (zeroed : s.Zeroed) {ops : List HeapUse}
    (permitted : Along KHeap.use Permits s ops) :
    (∃ final, Theory.run KHeap.use s ops = .done final) ∧ Along KHeap.use CallsZeroed s ops := by
  induction ops generalizing s with
  | nil => exact ⟨⟨s, rfl⟩, trivial⟩
  | cons op ops ih =>
      obtain ⟨next, used, kept⟩ := zeroed.use permitted.1
      obtain ⟨⟨final, finished⟩, later⟩ := ih kept (permitted.2 next used)
      refine ⟨⟨final, by rw [run_cons, used, Outcome.done_bind, finished]⟩,
        zeroed.callsZeroed op, ?_⟩
      intro other alsoUsed
      cases used.symm.trans alsoUsed
      exact later

end KHeap

/-- In every permitted run after `kernel_heap_init`, whatever the heap held before, all calls
return and every `kmalloc` returns zeroed memory. -/
theorem heap_kmalloc_zeroed {base heapAddr : Word} {behind : Nat → Block} {memory : Memory}
    {initial : KHeap} {ops : List HeapUse}
    (booted : kernelHeapInit base heapAddr behind memory = .done initial)
    (permitted : Along KHeap.use KHeap.Permits initial ops) :
    (∃ final, run KHeap.use initial ops = .done final) ∧
      Along KHeap.use KHeap.CallsZeroed initial ops := by
  obtain ⟨collapsed, empty⟩ := HeapClient.collapsed_initial booted
  have zeroed : initial.Zeroed := by
    refine ⟨collapsed.wf, ?_⟩
    intro _ _ target inside
    simp only [empty] at inside
    exact absurd inside (Nat.not_lt_zero _)
  exact zeroed.run permitted

/-- A heap at `0x100000` whose bytes are not zero. -/
def dirtyHeap : KHeap where
  base i := if i = 0 then ⟨0, 0, true⟩ else ⟨0, 0, false⟩
  heapAddr := 0x100000
  memory _ := 7

theorem dirtyHeap_booted :
    kernelHeapInit 0x1000 0x100000 (fun _ => ⟨0, 0, false⟩) (fun _ => 7) = .done dirtyHeap := by
  have table : Function.update (fun i => if i < kernelMaxBlock then (⟨0, 0, false⟩ : Block)
      else ⟨0, 0, false⟩) 0 ⟨0, 0, true⟩ = dirtyHeap.base := by
    funext i
    simp only [ite_self, Function.update_apply]
    rfl
  exact congrArg (fun base => Outcome.done (KHeap.mk base 0x100000 fun _ => 7)) table

theorem dirtyHeap_wf : dirtyHeap.WF :=
  (HeapClient.collapsed_initial dirtyHeap_booted).1.wf

/-- After the first allocation no block is free. -/
theorem dirtyHeap_taken (target : Word) : ¬ (dirtyHeap.taken 16).InFreeBlock target := by
  rintro ⟨i, -, free, -⟩
  cases i with
  | zero =>
      rw [KHeap.taken_used] at free
      cases free
  | succ i => cases free

/-- A block is allocated, written, freed and allocated again. -/
theorem heap_kmalloc_zeroed_reuse :
    (∃ final, run KHeap.use dirtyHeap
        [.malloc 16, .write 0x100004 1, .free 0x100000, .malloc 8] = .done final) ∧
      Along KHeap.use KHeap.CallsZeroed dirtyHeap
        [.malloc 16, .write 0x100004 1, .free 0x100000, .malloc 8] := by
  have first : dirtyHeap.use (.malloc 16) = .done (dirtyHeap.taken 16) := by
    rw [KHeap.use, dirtyHeap_wf.kmalloc_eq]
  have small : ∀ size : Word, size = 16 ∨ size = 8 → size ≤ kernelHeapSize := by
    rintro size (rfl | rfl) <;> decide
  have used := KHeap.taken_used dirtyHeap 16
  apply heap_kmalloc_zeroed dirtyHeap_booted
  refine ⟨small 16 (Or.inl rfl), ?_⟩
  intro next stepped
  cases first.symm.trans stepped
  refine ⟨dirtyHeap_taken _, ?_⟩
  intro next stepped
  cases stepped
  refine ⟨⟨by decide, 0, by decide, dirtyHeap_wf.taken_addr 16, used⟩, ?_⟩
  exact fun _ _ => ⟨small 8 (Or.inr rfl), fun _ _ => trivial⟩

end Lord84
