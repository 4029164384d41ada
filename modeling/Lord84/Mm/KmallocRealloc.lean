import Lord84.Mm.KmallocZero

/-!
# Resizing

`krealloc` keeps a block that is large enough, lets the last block grow, and otherwise
moves it: it allocates, copies and frees.  In the collapsed table the block is always the
last one, and the move goes wrong.  The new place is the old one, so `kmalloc` clears the
bytes that are about to be copied, and `kfree` marks the block free that is returned.

So `krealloc` preserves data exactly if the request fits the heap.  This holds in all states
that calls and writes can reach, with no condition on which pointers the clients pass, as long
as no request before was larger than the heap: the kernel keeps its table behind the heap.
-/

namespace Lord84

open Theory

namespace KHeap

/-- The entry describes a live allocation. -/
def LiveBlock (s : KHeap) (i : Nat) : Prop :=
  i < kernelMaxBlock ∧ (s.base i).addr ≠ 0 ∧ (s.base i).free = false

/-- The `count` bytes at `source` before are the bytes at `target` afterwards. -/
def BytesKept (s next : KHeap) (source target : Word) (count : Nat) : Prop :=
  ∀ offset < count,
    next.memory (target + BitVec.ofNat 64 offset) = s.memory (source + BitVec.ofNat 64 offset)

/-- The call returned a live allocation of at least `size` bytes that starts with the
contents of entry `i`. -/
def Resizes (s next : KHeap) (i : Nat) (size result : Word) : Prop :=
  result ≠ 0 ∧
    (∃ j, next.LiveBlock j ∧ (next.base j).addr = result ∧
      size.toNat ≤ (next.base j).size.toNat) ∧
    BytesKept s next (s.base i).addr result (min (s.base i).size.toNat size.toNat)

/-- The call returned `NULL` and left entry `i` and its bytes alone. -/
def Refuses (s next : KHeap) (i : Nat) (result : Word) : Prop :=
  result = 0 ∧ next.base i = s.base i ∧
    BytesKept s next (s.base i).addr (s.base i).addr (s.base i).size.toNat

/-- `krealloc` of the allocation behind entry `i` preserves data or fails cleanly, and no
other live allocation changes. -/
def KreallocPreserves (s : KHeap) (i : Nat) (size : Word) : Prop :=
  ∃ result next, s.krealloc (s.base i).addr size = .done (result, next) ∧
    (Resizes s next i size result ∨ Refuses s next i result) ∧
    ∀ j, j ≠ i → s.LiveBlock j →
      BytesKept s next (s.base j).addr (s.base j).addr (s.base j).size.toNat

/-- The operation asks for no more than the whole heap. -/
def SmallUse (_s : KHeap) : HeapUse → Prop
  | .malloc size => size ≤ kernelHeapSize
  | .free _ => True
  | .realloc _ size => size ≤ kernelHeapSize
  | .write _ _ => True

/-- The table is collapsed, and its block is no larger than the heap. -/
structure Small (s : KHeap) : Prop where
  wf : s.WF
  recorded : (s.base 0).size.toNat ≤ kernelHeapSize.toNat

variable {s next : KHeap}

/-! ## Reachable states -/

/-- Marking an entry free keeps the table collapsed. -/
theorem WF.markFree (wf : s.WF) (i : Nat) : (s.setBlock i { s.base i with free := true }).WF := by
  have addr : ∀ j, ((s.setBlock i { s.base i with free := true }).base j).addr =
      (s.base j).addr := by
    intro j
    by_cases here : j = i
    · subst here
      simp only [setBlock, Function.update_self]
    · simp only [setBlock, Function.update_of_ne here]
  refine ⟨wf.nonNull, ?_, ?_⟩
  · rw [addr]
    rcases wf.head with ⟨unused, free⟩ | used
    · refine Or.inl ⟨unused, ?_⟩
      by_cases first : 0 = i
      · subst first
        simp only [setBlock, Function.update_self]
      · simp only [setBlock, Function.update_of_ne first]
        exact free
    · exact Or.inr used
  · intro j later small
    rw [addr]
    exact wf.rest j later small

theorem Small.of_kfree (small : s.Small) {pointer : Word}
    (freed : s.kfree pointer = .done next) : next.Small := by
  unfold kfree at freed
  cases found : s.findBlock pointer with
  | none =>
      rw [found] at freed
      cases freed
  | some i =>
      rw [found] at freed
      cases freed
      refine ⟨(small.wf.markFree i).setMemory _, ?_⟩
      by_cases first : 0 = i
      · subst first
        simp only [setBlock, Function.update_self]
        exact small.recorded
      · simp only [setBlock, Function.update_of_ne first]
        exact small.recorded

/-- A non-null pointer that the table knows is the start of the heap. -/
theorem WF.eq_of_findBlock (wf : s.WF) {pointer : Word} {i : Nat} (nonNull : pointer ≠ 0)
    (found : s.findBlock pointer = some i) :
    pointer = s.heapAddr ∧ (s.base 0).addr = s.heapAddr := by
  have small := findBlock_lt found
  rw [findBlock] at found
  have here : (s.base i).addr = pointer := by
    simpa using List.find?_some found
  have first := wf.eq_zero_of_addr small (here ▸ nonNull)
  subst first
  have start := wf.addr_head (here ▸ nonNull)
  exact ⟨here.symm.trans start, start⟩

/-- The block gets the size of a request, or it keeps its own. -/
theorem Small.of_recorded (small : s.Small) {size : Word} (fits : size ≤ kernelHeapSize)
    (wf : next.WF)
    (recorded : (next.base 0).size = (s.base 0).size ∨ (next.base 0).size = size.setWidth 32) :
    next.Small := by
  refine ⟨wf, ?_⟩
  rcases recorded with same | new
  · rw [same]
    exact small.recorded
  · rw [new, BitVec.toNat_setWidth]
    exact Nat.le_trans (Nat.mod_le _ _) (BitVec.le_def.mp fits)

theorem Small.taken (small : s.Small) {size : Word} (fits : size ≤ kernelHeapSize) :
    (s.taken size).Small := by
  refine small.of_recorded fits (small.wf.taken size) ?_
  rw [KHeap.taken]
  split
  next => exact Or.inl rfl
  next => exact Or.inr rfl

theorem Small.of_krealloc (small : s.Small) {pointer size result : Word}
    (fits : size ≤ kernelHeapSize)
    (resized : s.krealloc pointer size = .done (result, next)) : next.Small := by
  by_cases null : pointer = 0
  · rw [krealloc, if_pos null, small.wf.kmalloc_eq] at resized
    cases resized
    exact small.taken fits
  · by_cases zero : size = 0
    · rw [krealloc, if_neg null, if_pos zero] at resized
      obtain ⟨freed, done, returned⟩ := Outcome.bind_eq_done.mp resized
      cases returned
      exact small.of_kfree done
    · cases found : s.findBlock pointer with
      | none =>
          rw [krealloc, if_neg null, if_neg zero, found] at resized
          cases resized
      | some i =>
          obtain ⟨rfl, used⟩ := small.wf.eq_of_findBlock null found
          obtain ⟨other, same, kept, -, -, recorded, -⟩ := small.wf.krealloc_spec used zero
          rw [resized] at same
          cases same
          exact small.of_recorded fits kept recorded

/-- Whatever pointers a client passes, the table stays collapsed and its block small. -/
theorem Small.use (small : s.Small) {op : HeapUse} (fits : s.SmallUse op)
    (used : s.use op = .done next) : next.Small := by
  cases op with
  | malloc size =>
      rw [KHeap.use, small.wf.kmalloc_eq] at used
      cases used
      exact small.taken fits
  | free pointer =>
      rw [KHeap.use] at used
      exact small.of_kfree used
  | realloc pointer size =>
      obtain ⟨⟨result, resized⟩, done, returned⟩ := Outcome.bind_eq_done.mp used
      cases returned
      exact small.of_krealloc fits done
  | write target value =>
      cases used
      exact ⟨small.wf.setMemory _, small.recorded⟩

/-! ## One call -/

/-- A request that fits the heap leaves the block where it is, and makes it large enough. -/
theorem Small.resized_of_fits (small : s.Small) (used : (s.base 0).addr = s.heapAddr)
    {size : Word} (fits : size.toNat ≤ kernelHeapSize.toNat) :
    (s.resized size).memory = s.memory ∧
      ((s.resized size).base 0).addr = s.heapAddr ∧
      ((s.resized size).base 0).free = (s.base 0).free ∧
      size.toNat ≤ ((s.resized size).base 0).size.toNat := by
  have old := size_setWidth (s.base 0)
  rw [resized]
  by_cases enough : size ≤ (s.base 0).size.setWidth 64
  · rw [if_pos enough]
    rw [BitVec.le_def, old] at enough
    exact ⟨rfl, used, rfl, enough⟩
  · rw [if_neg enough]
    rw [BitVec.le_def, old, Nat.not_le] at enough
    have heap : kernelHeapSize.toNat < 2 ^ 32 := by decide
    rw [if_pos ((small.wf.growsInPlace_iff used enough).mpr (Or.inl fits))]
    refine ⟨rfl, used, rfl, ?_⟩
    simp only [setBlock, Function.update_self, BitVec.toNat_setWidth]
    rw [Nat.mod_eq_of_lt (Nat.lt_of_le_of_lt fits heap)]

/-- Without room in the heap, the block that `krealloc` returns is free. -/
theorem Small.fits_of_resized (small : s.Small) (used : (s.base 0).addr = s.heapAddr)
    {size : Word} (live : ((s.resized size).base 0).free = false) :
    size.toNat ≤ kernelHeapSize.toNat := by
  have old := size_setWidth (s.base 0)
  have recorded := small.recorded
  rw [resized] at live
  by_cases enough : size ≤ (s.base 0).size.setWidth 64
  · rw [BitVec.le_def, old] at enough
    exact Nat.le_trans enough recorded
  · rw [if_neg enough] at live
    rw [BitVec.le_def, old, Nat.not_le] at enough
    cases grows : s.growsInPlace 0 size with
    | true =>
        rcases (small.wf.growsInPlace_iff used enough).mp grows with fits | beyond
        · exact fits
        · exact absurd beyond (Nat.not_lt.mpr recorded)
    | false =>
        rw [if_neg (Bool.not_eq_true _ ▸ grows)] at live
        cases live

theorem Small.kreallocPreserves_iff (small : s.Small) {i : Nat} (live : s.LiveBlock i)
    {size : Word} (positive : size ≠ 0) : s.KreallocPreserves i size ↔ size ≤ kernelHeapSize := by
  have wf := small.wf
  have first := wf.eq_zero_of_addr live.1 live.2.1
  subst first
  have used := wf.addr_head live.2.1
  have call := wf.krealloc_eq used positive
  rw [BitVec.le_def]
  constructor
  · rintro ⟨result, next, returned, outcome, -⟩
    rw [used, call] at returned
    cases returned
    rcases outcome with ⟨-, ⟨j, nextLive, -, -⟩, -⟩ | ⟨null, -⟩
    · obtain ⟨other, same, nextWF, -⟩ := wf.krealloc_spec used positive
      rw [call] at same
      cases same
      have head := nextWF.eq_zero_of_addr nextLive.1 nextLive.2.1
      subst head
      exact small.fits_of_resized used nextLive.2.2
    · exact absurd null wf.nonNull
  · intro fits
    obtain ⟨memory, addr, free, large⟩ := small.resized_of_fits used fits
    have kept : ∀ source count, BytesKept s (s.resized size) source source count := by
      intro source count offset _
      rw [memory]
    refine ⟨s.heapAddr, s.resized size, by rw [used, call], Or.inl ⟨wf.nonNull, ?_, ?_⟩, ?_⟩
    · refine ⟨0, ⟨by decide, ?_, free.trans live.2.2⟩, addr, large⟩
      rw [addr]
      exact wf.nonNull
    · rw [used]
      exact kept _ _
    · exact fun j _ _ => kept _ _

/-- The heap right after `kernel_heap_init`. -/
theorem small_initial {base heapAddr : Word} {behind : Nat → Block} {memory : Memory}
    {initial : KHeap} (booted : kernelHeapInit base heapAddr behind memory = .done initial) :
    initial.Small := by
  have bounded := HeapClient.bounded_initial booted
  exact ⟨bounded.collapsed.wf, bounded.recorded⟩

end KHeap

/-- In every state that a run of calls and writes reaches after `kernel_heap_init` without a
request for more than the heap, `krealloc` of a live allocation preserves data or fails cleanly
exactly if it asks for no more than the heap either. -/
theorem krealloc_preserves_iff {base heapAddr : Word} {behind : Nat → Block} {memory : Memory}
    {initial s : KHeap} {ops : List HeapUse}
    (booted : kernelHeapInit base heapAddr behind memory = .done initial)
    (fits : Along KHeap.use KHeap.SmallUse initial ops)
    (reached : run KHeap.use initial ops = .done s) {i : Nat} (live : s.LiveBlock i)
    {size : Word} (positive : size ≠ 0) :
    s.KreallocPreserves i size ↔ size ≤ kernelHeapSize := by
  have small : s.Small :=
    run_invariant (fun _ _ _ kept fits stepped => KHeap.Small.use kept fits stepped)
      (KHeap.small_initial booted) fits reached
  exact small.kreallocPreserves_iff live positive

/-- The heap after one allocation of 16 bytes. -/
theorem dirtyHeap_malloc :
    run KHeap.use dirtyHeap [.malloc 16] = .done (dirtyHeap.taken 16) ∧
      (dirtyHeap.taken 16).LiveBlock 0 := by
  refine ⟨?_, ⟨by decide, ?_, KHeap.taken_used dirtyHeap 16⟩⟩
  · rw [run_cons, KHeap.use, dirtyHeap_wf.kmalloc_eq]
    rfl
  · rw [dirtyHeap_wf.taken_addr]
    decide

/-- A block of 16 bytes is extended to 32 bytes. -/
theorem krealloc_preserves_small :
    run KHeap.use dirtyHeap [.malloc 16] = .done (dirtyHeap.taken 16) ∧
      (dirtyHeap.taken 16).KreallocPreserves 0 32 := by
  obtain ⟨reached, live⟩ := dirtyHeap_malloc
  have positive : (32 : Word) ≠ 0 := by decide
  have fits : (16 : Word) ≤ kernelHeapSize := by decide
  have small : Along KHeap.use KHeap.SmallUse dirtyHeap [.malloc 16] := ⟨fits, fun _ _ => trivial⟩
  refine ⟨reached, (krealloc_preserves_iff dirtyHeap_booted small reached live positive).mpr ?_⟩
  decide

/-- A block of 16 bytes cannot be extended to one byte more than the heap, but `krealloc`
returns a pointer to it, and the block is free. -/
theorem krealloc_returns_free_block :
    run KHeap.use dirtyHeap [.malloc 16] = .done (dirtyHeap.taken 16) ∧
      (dirtyHeap.taken 16).LiveBlock 0 ∧
      ¬ (dirtyHeap.taken 16).KreallocPreserves 0 0x10000001 := by
  obtain ⟨reached, live⟩ := dirtyHeap_malloc
  have positive : (0x10000001 : Word) ≠ 0 := by decide
  have fits : (16 : Word) ≤ kernelHeapSize := by decide
  refine ⟨reached, live, ?_⟩
  rw [((KHeap.small_initial dirtyHeap_booted).taken fits).kreallocPreserves_iff live positive]
  decide

end Lord84
