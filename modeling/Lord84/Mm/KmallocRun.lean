import Lord84.Mm.Kmalloc

/-!
# Runs of the kernel heap

Clients of the heap allocate, free and resize.  Since the table collapses to one entry,
every allocation starts at the start of the heap.  This decides when the heap keeps its
promises: live allocations stay apart only as long as there is at most one of them, and
a request stays inside the heap only if it asks for no more than the whole heap.
-/

namespace Lord84

open Theory

/-- A live allocation: the pointer that was returned and the size that was requested. -/
structure Allocation where
  address : Word
  size : Word
  deriving DecidableEq, Repr

namespace Allocation

/-- The byte at `target` belongs to the allocation. -/
def Contains (allocation : Allocation) (target : Word) : Prop :=
  (target - allocation.address).toNat < allocation.size.toNat

/-- The byte ranges have no byte in common. -/
def Apart (left right : Allocation) : Prop :=
  ∀ target, ¬ (left.Contains target ∧ right.Contains target)

/-- Two allocations at one address overlap. -/
theorem not_apart {address leftSize rightSize : Word} (leftPositive : leftSize ≠ 0)
    (rightPositive : rightSize ≠ 0) : ¬ Apart ⟨address, leftSize⟩ ⟨address, rightSize⟩ := by
  intro apart
  apply apart address
  constructor <;> simp only [Contains, BitVec.sub_self] <;> bv_omega

end Allocation

/-- The heap with the allocations its clients hold. -/
structure HeapClient where
  heap : KHeap
  live : List Allocation

/-- What clients may do; `free` and `realloc` name a live allocation by its position. -/
inductive HeapOp where
  | malloc (size : Word)
  | free (index : Nat)
  | realloc (index : Nat) (size : Word)
  deriving DecidableEq, Repr

namespace HeapClient

/-- Execute one operation and keep track of the live allocations. -/
def step (client : HeapClient) : HeapOp → Outcome HeapClient
  | .malloc size =>
      match client.heap.kmalloc size with
      | (pointer, heap) =>
          if pointer = 0 then return ⟨heap, client.live⟩
          else return ⟨heap, client.live ++ [⟨pointer, size⟩]⟩
  | .free index =>
      match client.live[index]? with
      | none => .fault
      | some allocation => do
          let heap ← client.heap.kfree allocation.address
          return ⟨heap, client.live.eraseIdx index⟩
  | .realloc index size =>
      match client.live[index]? with
      | none => .fault
      | some allocation => do
          let (pointer, heap) ← client.heap.krealloc allocation.address size
          if size = 0 then return ⟨heap, client.live.eraseIdx index⟩
          else if pointer = 0 then return ⟨heap, client.live⟩
          else return ⟨heap, client.live.set index ⟨pointer, size⟩⟩

/-- Only live allocations are freed or resized. -/
def NamesLive (client : HeapClient) : HeapOp → Prop
  | .malloc _ => True
  | .free index => index < client.live.length
  | .realloc index _ => index < client.live.length

/-- In addition, no request of `kmalloc` is empty. -/
def Allowed (client : HeapClient) : HeapOp → Prop
  | .malloc size => size ≠ 0
  | .free index => index < client.live.length
  | .realloc index _ => index < client.live.length

theorem Allowed.namesLive {client : HeapClient} {op : HeapOp} (allowed : client.Allowed op) :
    client.NamesLive op := by
  cases op with
  | malloc size => trivial
  | free index => exact allowed
  | realloc index size => exact allowed

/-- All live allocations sit at the start of a collapsed heap. -/
structure Collapsed (client : HeapClient) : Prop where
  wf : client.heap.WF
  address : ∀ allocation ∈ client.live, allocation.address = client.heap.heapAddr
  used : client.live ≠ [] → (client.heap.base 0).addr = client.heap.heapAddr

end HeapClient

namespace KHeap

variable {s : KHeap}

/-- `krealloc` cannot keep the block where it is. -/
def Moves (s : KHeap) (addr size : Word) : Prop :=
  ∃ i, s.findBlock addr = some i ∧ ¬ size ≤ (s.base i).size.setWidth 64 ∧
    s.growsInPlace i size = false

/-- The heap after `krealloc` moved the block: the new place is the old one, and the block
counts as free. -/
def moved (s : KHeap) (size : Word) : KHeap :=
  KHeap.released { s.taken size with
    memory := memcpy (s.taken size).memory s.heapAddr s.heapAddr ((s.base 0).size.setWidth 64) }

/-- The heap after `krealloc` in a well-formed state with a block. -/
def resized (s : KHeap) (size : Word) : KHeap :=
  if size ≤ (s.base 0).size.setWidth 64 then s
  else if s.growsInPlace 0 size then s.setBlock 0 { s.base 0 with size := size.setWidth 32 }
  else s.moved size

/-- `krealloc` always returns the start of the heap. -/
theorem WF.krealloc_eq (wf : s.WF) (used : (s.base 0).addr = s.heapAddr) {size : Word}
    (positive : size ≠ 0) :
    s.krealloc s.heapAddr size = .done (s.heapAddr, s.resized size) := by
  unfold krealloc resized
  rw [if_neg wf.nonNull, if_neg positive, wf.findBlock_eq used]
  simp only
  by_cases enough : size ≤ (s.base 0).size.setWidth 64
  · rw [if_pos enough, if_pos enough]
    rfl
  · rw [if_neg enough, if_neg enough]
    cases grows : s.growsInPlace 0 size with
    | true =>
        rw [if_pos rfl, if_pos rfl]
        rfl
    | false =>
        rw [if_neg Bool.false_ne_true, if_neg Bool.false_ne_true, wf.kmalloc_eq]
        simp only
        rw [if_neg wf.nonNull]
        have copiedWF := (wf.taken size).setMemory (memcpy (s.taken size).memory s.heapAddr
          s.heapAddr ((s.base 0).size.setWidth 64))
        have copiedUsed : ((s.taken size).base 0).addr = (s.taken size).heapAddr := by
          rw [wf.taken_addr, taken_heapAddr]
        rw [copiedWF.kfree_eq copiedUsed (taken_heapAddr s size).symm]
        rfl

theorem WF.moved (wf : s.WF) (size : Word) : (s.moved size).WF := by
  apply ((wf.taken size).setMemory _).released
  exact (wf.taken_addr size).trans (taken_heapAddr s size).symm

/-- `krealloc` of the block returns it; after a move the block counts as free. -/
theorem WF.krealloc_spec (wf : s.WF) (used : (s.base 0).addr = s.heapAddr) {size : Word}
    (positive : size ≠ 0) :
    ∃ next, s.krealloc s.heapAddr size = .done (s.heapAddr, next) ∧ next.WF ∧
      next.heapAddr = s.heapAddr ∧ (next.base 0).addr = s.heapAddr ∧
      ((next.base 0).size = (s.base 0).size ∨ (next.base 0).size = size.setWidth 32) ∧
      (¬ s.Moves s.heapAddr size → (next.base 0).free = (s.base 0).free) := by
  refine ⟨_, wf.krealloc_eq used positive, ?_⟩
  rw [resized]
  by_cases enough : size ≤ (s.base 0).size.setWidth 64
  · rw [if_pos enough]
    exact ⟨wf, rfl, used, Or.inl rfl, fun _ => rfl⟩
  · rw [if_neg enough]
    cases grows : s.growsInPlace 0 size with
    | true =>
        rw [if_pos rfl]
        refine ⟨⟨wf.nonNull, Or.inr used, ?_⟩, rfl, used, Or.inr rfl, fun _ => rfl⟩
        intro i later small
        simp only [setBlock, Function.update_of_ne (Nat.pos_iff_ne_zero.mp later)]
        exact wf.rest i later small
    | false =>
        have moves : s.Moves s.heapAddr size := ⟨0, wf.findBlock_eq used, enough, grows⟩
        have tooSmall : ¬ s.Reusable size := fun reusable => enough reusable.2.2
        rw [if_neg Bool.false_ne_true]
        refine ⟨wf.moved size, taken_heapAddr s size, wf.taken_addr size, Or.inr ?_,
          fun stays => absurd moves stays⟩
        simp only [KHeap.moved, KHeap.taken, if_neg tooSmall, KHeap.released, Function.update_self]

end KHeap

/-- The size that an operation asks for. -/
def HeapOp.request : HeapOp → Option Word
  | .malloc size => some size
  | .free _ => none
  | .realloc _ size => some size

namespace HeapClient

variable {client : HeapClient}

theorem Collapsed.used_of_index (collapsed : client.Collapsed) {index : Nat}
    (inside : index < client.live.length) :
    (client.heap.base 0).addr = client.heap.heapAddr := by
  apply collapsed.used
  intro empty
  rw [empty] at inside
  cases inside

/-- Every new allocation starts at the start of the heap. -/
theorem Collapsed.step_malloc (collapsed : client.Collapsed) (size : Word) :
    client.step (.malloc size) = .done
      ⟨client.heap.taken size, client.live ++ [⟨client.heap.heapAddr, size⟩]⟩ := by
  simp only [step, collapsed.wf.kmalloc_eq, if_neg collapsed.wf.nonNull, Outcome.pure_eq_done]

theorem Collapsed.step_free (collapsed : client.Collapsed) {index : Nat}
    (inside : index < client.live.length) :
    client.step (.free index) = .done
      ⟨client.heap.released, client.live.eraseIdx index⟩ := by
  have start := collapsed.address _ (List.getElem_mem inside)
  have used := collapsed.used_of_index inside
  rw [step, List.getElem?_eq_getElem inside]
  simp only [collapsed.wf.kfree_eq used start, Outcome.done_bind, Outcome.pure_eq_done]

theorem Collapsed.step_realloc_zero (collapsed : client.Collapsed) {index : Nat}
    (inside : index < client.live.length) :
    client.step (.realloc index 0) = .done
      ⟨client.heap.released, client.live.eraseIdx index⟩ := by
  have start := collapsed.address _ (List.getElem_mem inside)
  have used := collapsed.used_of_index inside
  rw [step, List.getElem?_eq_getElem inside]
  simp only [KHeap.krealloc, start, if_neg collapsed.wf.nonNull, if_true,
    collapsed.wf.kfree_eq used rfl, Outcome.done_bind, Outcome.pure_eq_done]

theorem Collapsed.step_realloc (collapsed : client.Collapsed) {index : Nat} {size : Word}
    (inside : index < client.live.length) (positive : size ≠ 0) :
    ∃ heap, client.step (.realloc index size) = .done
        ⟨heap, client.live.set index ⟨client.heap.heapAddr, size⟩⟩ ∧ heap.WF ∧
      heap.heapAddr = client.heap.heapAddr ∧ (heap.base 0).addr = client.heap.heapAddr ∧
      ((heap.base 0).size = (client.heap.base 0).size ∨
        (heap.base 0).size = size.setWidth 32) ∧
      (¬ client.heap.Moves client.heap.heapAddr size →
        (heap.base 0).free = (client.heap.base 0).free) := by
  have start := collapsed.address _ (List.getElem_mem inside)
  have used := collapsed.used_of_index inside
  obtain ⟨heap, resized, spec⟩ := collapsed.wf.krealloc_spec used positive
  refine ⟨heap, ?_, spec⟩
  rw [step, List.getElem?_eq_getElem inside]
  simp only [start, resized, Outcome.done_bind, if_neg positive,
    if_neg collapsed.wf.nonNull, Outcome.pure_eq_done]

/-- A block that is handed out at the start of the heap keeps it collapsed. -/
theorem Collapsed.handOut (collapsed : client.Collapsed) {heap : KHeap} {live : List Allocation}
    {size : Word} (wf : heap.WF) (sameStart : heap.heapAddr = client.heap.heapAddr)
    (used : (heap.base 0).addr = client.heap.heapAddr)
    (known : ∀ allocation ∈ live, allocation ∈ client.live ∨
      allocation = ⟨client.heap.heapAddr, size⟩) :
    Collapsed ⟨heap, live⟩ := by
  constructor
  · exact wf
  · intro allocation member
    rw [sameStart]
    rcases known allocation member with old | rfl
    · exact collapsed.address allocation old
    · rfl
  · intro _
    rw [sameStart]
    exact used

/-- Taking a block back keeps the heap collapsed. -/
theorem Collapsed.takeBack (collapsed : client.Collapsed) {index : Nat}
    (inside : index < client.live.length) :
    Collapsed ⟨client.heap.released, client.live.eraseIdx index⟩ := by
  have used := collapsed.used_of_index inside
  constructor
  · exact collapsed.wf.released used
  · exact fun allocation member => collapsed.address _ (List.mem_of_mem_eraseIdx member)
  · exact fun _ => used

/-- Every operation on live allocations returns and keeps the heap collapsed.  The size in
the table changes only to the size of the request. -/
theorem Collapsed.step (collapsed : client.Collapsed) {op : HeapOp}
    (named : client.NamesLive op) :
    ∃ next, client.step op = .done next ∧ next.Collapsed ∧
      next.heap.heapAddr = client.heap.heapAddr ∧
      ((next.heap.base 0).size = (client.heap.base 0).size ∨
        ∃ size ∈ op.request, (next.heap.base 0).size = size.setWidth 32) := by
  cases op with
  | malloc size =>
      refine ⟨_, collapsed.step_malloc size, ?_, KHeap.taken_heapAddr _ size, ?_⟩
      · have known : ∀ allocation ∈ client.live ++ [⟨client.heap.heapAddr, size⟩],
            allocation ∈ client.live ∨ allocation = ⟨client.heap.heapAddr, size⟩ := by
          simp
        exact collapsed.handOut (collapsed.wf.taken size) (KHeap.taken_heapAddr _ size)
          (collapsed.wf.taken_addr size) known
      · rw [KHeap.taken]
        split
        next => exact Or.inl rfl
        next => exact Or.inr ⟨size, rfl, rfl⟩
  | free index =>
      exact ⟨_, collapsed.step_free named, collapsed.takeBack named, rfl, Or.inl rfl⟩
  | realloc index size =>
      by_cases zero : size = 0
      · subst zero
        exact ⟨_, collapsed.step_realloc_zero named, collapsed.takeBack named, rfl, Or.inl rfl⟩
      · obtain ⟨heap, stepped, wf, sameStart, used, recorded, -⟩ :=
          collapsed.step_realloc named zero
        refine ⟨_, stepped, ?_, sameStart, ?_⟩
        · exact collapsed.handOut wf sameStart used
            fun _ member => List.mem_or_eq_of_mem_set member
        · rcases recorded with same | new
          · exact Or.inl same
          · exact Or.inr ⟨size, rfl, new⟩

/-- The heap right after `kernel_heap_init`. -/
theorem collapsed_initial {base heapAddr : Word} {behind : Nat → Block} {memory : Memory}
    {initial : KHeap} (booted : kernelHeapInit base heapAddr behind memory = .done initial) :
    Collapsed ⟨initial, []⟩ ∧ (initial.base 0).size = 0 := by
  rw [kernelHeapInit] at booted
  split at booted
  · cases booted
  · split at booted
    · cases booted
    next nonNull =>
      cases booted
      refine ⟨⟨⟨nonNull, Or.inl ⟨rfl, rfl⟩, ?_⟩, ?_, ?_⟩, rfl⟩
      · intro i positive small
        simp only [Function.update_of_ne (Nat.pos_iff_ne_zero.mp positive), if_pos small]
      · exact fun _ member => absurd member List.not_mem_nil
      · exact fun nonempty => absurd rfl nonempty

/-- The operation asks for no more than the whole heap. -/
def SmallRequest (_client : HeapClient) (op : HeapOp) : Prop :=
  ∀ size ∈ op.request, size ≤ kernelHeapSize

/-- The heap is collapsed, and its block is no larger than the heap. -/
structure Bounded (client : HeapClient) : Prop where
  collapsed : client.Collapsed
  recorded : (client.heap.base 0).size.toNat ≤ kernelHeapSize.toNat

theorem Bounded.step (bounded : client.Bounded) {op : HeapOp} (named : client.NamesLive op)
    (small : client.SmallRequest op) :
    ∃ next, client.step op = .done next ∧ next.Bounded := by
  obtain ⟨next, returned, kept, -, recorded⟩ := bounded.collapsed.step named
  refine ⟨next, returned, kept, ?_⟩
  rcases recorded with same | ⟨size, asked, new⟩
  · rw [same]
    exact bounded.recorded
  · rw [new, BitVec.toNat_setWidth]
    exact Nat.le_trans (Nat.mod_le _ _) (BitVec.le_def.mp (small size asked))

theorem bounded_initial {base heapAddr : Word} {behind : Nat → Block} {memory : Memory}
    {initial : KHeap} (booted : kernelHeapInit base heapAddr behind memory = .done initial) :
    Bounded ⟨initial, []⟩ := by
  obtain ⟨collapsed, empty⟩ := collapsed_initial booted
  refine ⟨collapsed, ?_⟩
  rw [empty]
  exact Nat.zero_le _

/-- Every run with requests for no more than the heap returns. -/
theorem Bounded.run (bounded : client.Bounded) {ops : List HeapOp}
    (named : Along HeapClient.step NamesLive client ops)
    (small : Along HeapClient.step SmallRequest client ops) :
    ∃ final, Theory.run HeapClient.step client ops = .done final ∧ final.Bounded :=
  run_progress (fun _ _ reached condition => reached.step condition.1 condition.2) bounded
    (named.and small)

end HeapClient

/-! ## Containment -/

namespace KHeap

/-- The table of `next` has the allocation: with its exact size, or as a block that was
free and large enough. -/
def Records (s next : KHeap) (addr size : Word) : Prop :=
  ∃ i < kernelMaxBlock, (next.base i).addr = addr ∧ (next.base i).free = false ∧
    ((next.base i).size.toNat = size.toNat ∨
      (s.base i).addr = addr ∧ (s.base i).free = true ∧
        size.toNat ≤ (next.base i).size.toNat)

/-- `kmalloc(size)` returns a recorded range of the heap and writes only there, or it
returns `NULL` and changes nothing. -/
def KmallocContained (s : KHeap) (size : Word) : Prop :=
  s.heapAddr.toNat ≤ (s.kmalloc size).1.toNat ∧
      (s.kmalloc size).1.toNat + size.toNat ≤ s.heapAddr.toNat + kernelHeapSize.toNat ∧
      s.Records (s.kmalloc size).2 (s.kmalloc size).1 size ∧
      (∀ target, size.toNat ≤ (target - (s.kmalloc size).1).toNat →
        (s.kmalloc size).2.memory target = s.memory target) ∨
    (s.kmalloc size).1 = 0 ∧ (s.kmalloc size).2 = s

/-- All recorded blocks end inside the heap. -/
def EndsInside (s : KHeap) : Prop :=
  ∀ i < kernelMaxBlock, (s.base i).addr ≠ 0 →
    (s.base i).addr.toNat + (s.base i).size.toNat ≤
      s.heapAddr.toNat + kernelHeapSize.toNat

variable {s : KHeap}

/-- The first block is the record of every request that fits into 32 bits. -/
theorem WF.records_taken (wf : s.WF) {size : Word} (small : size.toNat < 2 ^ 32) :
    s.Records (s.taken size) s.heapAddr size := by
  refine ⟨0, by decide, wf.taken_addr size, ?_⟩
  rw [KHeap.taken]
  split
  next reusable =>
    refine ⟨rfl, Or.inr ⟨wf.addr_head reusable.1, reusable.2.1, ?_⟩⟩
    have fits := reusable.2.2
    rw [BitVec.le_def, BitVec.toNat_setWidth] at fits
    exact Nat.le_trans fits (Nat.mod_le _ _)
  next =>
    refine ⟨rfl, Or.inl ?_⟩
    simp only [Function.update_self, BitVec.toNat_setWidth]
    exact Nat.mod_eq_of_lt small

theorem WF.kmallocContained_iff (wf : s.WF) (size : Word) :
    s.KmallocContained size ↔ size ≤ kernelHeapSize := by
  rw [KmallocContained, wf.kmalloc_eq, BitVec.le_def]
  constructor
  · rintro (⟨-, inside, -, -⟩ | ⟨isNull, -⟩)
    · simp only at inside
      omega
    · exact absurd isNull wf.nonNull
  · intro small
    have bound : kernelHeapSize.toNat < 2 ^ 32 := by decide
    refine Or.inl ⟨Nat.le_refl _, Nat.add_le_add_left small _, ?_, ?_⟩
    · exact wf.records_taken (Nat.lt_of_le_of_lt small bound)
    · exact fun target outside => taken_memory s size outside

theorem WF.endsInside (wf : s.WF) (small : (s.base 0).size.toNat ≤ kernelHeapSize.toNat) :
    s.EndsInside := by
  intro i inside used
  cases wf.eq_zero_of_addr inside used
  rw [wf.addr_head used]
  exact Nat.add_le_add_left small _

end KHeap

/-- In every state that clients reach with requests for at most the size of the heap, all
blocks that `kmalloc` and `krealloc` have recorded end inside the heap, and `kmalloc` stays
inside the heap exactly for one more request of that kind. -/
theorem heap_contained_iff {base heapAddr : Word} {behind : Nat → Block} {memory : Memory}
    {initial : KHeap} {ops : List HeapOp}
    (booted : kernelHeapInit base heapAddr behind memory = .done initial)
    (named : Along HeapClient.step HeapClient.NamesLive ⟨initial, []⟩ ops)
    (small : Along HeapClient.step HeapClient.SmallRequest ⟨initial, []⟩ ops) :
    ∃ client, run HeapClient.step ⟨initial, []⟩ ops = .done client ∧
      client.heap.EndsInside ∧
      ∀ size, client.heap.KmallocContained size ↔ size ≤ kernelHeapSize := by
  obtain ⟨client, finished, bounded⟩ := (HeapClient.bounded_initial booted).run named small
  have wf := bounded.collapsed.wf
  exact ⟨client, finished, wf.endsInside bounded.recorded, wf.kmallocContained_iff⟩

theorem exists_smallHeap : ∃ initial,
    kernelHeapInit 0x1000 0x100000 (fun _ => ⟨0, 0, false⟩) (fun _ => 0) = .done initial ∧
      initial.heapAddr = 0x100000 :=
  ⟨_, rfl, rfl⟩

/-- After an allocation of 16 bytes, a request of 32 bytes is contained. -/
theorem heap_contained_after_malloc :
    ∃ initial client, kernelHeapInit 0x1000 0x100000 (fun _ => ⟨0, 0, false⟩) (fun _ => 0) =
        .done initial ∧
      run HeapClient.step ⟨initial, []⟩ [.malloc 16] = .done client ∧
      client.heap.EndsInside ∧ client.heap.KmallocContained 32 := by
  obtain ⟨initial, booted, -⟩ := exists_smallHeap
  have small : (16 : Word) ≤ kernelHeapSize := by decide
  obtain ⟨client, finished, inside, contained⟩ :=
    @heap_contained_iff _ _ _ _ _ [.malloc 16] booted ⟨trivial, fun _ _ => trivial⟩
      ⟨fun size asked => by cases asked; exact small, fun _ _ => trivial⟩
  exact ⟨initial, client, booted, finished, inside, (contained 32).mpr (by decide)⟩

/-- A request of one byte more than the heap is granted. -/
theorem kmalloc_beyond_heap :
    ∃ initial, kernelHeapInit 0x1000 0x100000 (fun _ => ⟨0, 0, false⟩) (fun _ => 0) =
        .done initial ∧
      (initial.kmalloc 0x10000001).1 = 0x100000 ∧
      ¬ initial.KmallocContained 0x10000001 := by
  obtain ⟨initial, booted, start⟩ := exists_smallHeap
  have wf := (HeapClient.collapsed_initial booted).1.wf
  refine ⟨initial, booted, ?_, ?_⟩
  · rw [wf.kmalloc_eq]
    exact start
  · rw [wf.kmallocContained_iff]
    decide

/-! ## Exclusive allocations -/

namespace HeapClient

/-- The live allocations do not overlap. -/
def LiveApart (client : HeapClient) : Prop :=
  client.live.Pairwise Allocation.Apart

/-- A call of `kmalloc` neither returns nor writes a byte of a live allocation. -/
def KmallocRespects (client : HeapClient) (size : Word) : Prop :=
  (client.heap.kmalloc size).1 ≠ 0 → ∀ allocation ∈ client.live,
    Allocation.Apart ⟨(client.heap.kmalloc size).1, size⟩ allocation ∧
    ∀ target, allocation.Contains target →
      (client.heap.kmalloc size).2.memory target = client.heap.memory target

/-- The calls of `kmalloc` that the operation makes respect the live allocations; for
`krealloc` that is the call that looks for a new place. -/
def CallsRespect (client : HeapClient) : HeapOp → Prop
  | .malloc size => client.KmallocRespects size
  | .free _ => True
  | .realloc index size => ∀ allocation ∈ client.live[index]?, size ≠ 0 →
      client.heap.Moves allocation.address size → client.KmallocRespects size

/-- What a heap is for: all calls return, live allocations never overlap, and `kmalloc`
never hands out or clears a byte that is in use. -/
structure Exclusive (client : HeapClient) (ops : List HeapOp) : Prop where
  completes : ∃ final, Theory.run step client ops = .done final
  apart : Always step LiveApart client ops
  calls : Along step CallsRespect client ops

/-- The client works around the collapsed table: it allocates only while nothing is live. -/
def Careful (client : HeapClient) : HeapOp → Prop
  | .malloc _ => client.live = []
  | .free _ => True
  | .realloc _ _ => True

variable {client next : HeapClient}

/-- With a live allocation, no call of `kmalloc` respects it. -/
theorem Collapsed.live_eq_nil (collapsed : client.Collapsed)
    (nonempty : ∀ allocation ∈ client.live, allocation.size ≠ 0) {size : Word}
    (positive : size ≠ 0) (respects : client.KmallocRespects size) : client.live = [] := by
  rw [List.eq_nil_iff_forall_not_mem]
  intro allocation member
  rw [KmallocRespects, collapsed.wf.kmalloc_eq] at respects
  have apart := (respects collapsed.wf.nonNull allocation member).1
  rw [← collapsed.address allocation member] at apart
  exact Allocation.not_apart positive (nonempty allocation member) apart

/-- A request that fits the heap finds room behind the block. -/
theorem Bounded.not_moves (bounded : client.Bounded) {index : Nat} {allocation : Allocation}
    (found : client.live[index]? = some allocation) {size : Word} (small : size ≤ kernelHeapSize) :
    ¬ client.heap.Moves allocation.address size := by
  obtain ⟨inside, here⟩ := List.getElem?_eq_some_iff.mp found
  have used := bounded.collapsed.used_of_index inside
  have start := bounded.collapsed.address allocation (here ▸ List.getElem_mem inside)
  rintro ⟨i, first, large, stays⟩
  rw [start, bounded.collapsed.wf.findBlock_eq used, Option.some.injEq] at first
  subst first
  rw [BitVec.le_def, KHeap.size_setWidth, Nat.not_le] at large
  rw [(bounded.collapsed.wf.growsInPlace_iff used large).mpr (Or.inl (BitVec.le_def.mp small))]
    at stays
  cases stays

theorem Bounded.callsRespect (bounded : client.Bounded) {op : HeapOp}
    (small : client.SmallRequest op) (careful : client.Careful op) : client.CallsRespect op := by
  cases op with
  | malloc size =>
      have empty : client.live = [] := careful
      intro _ allocation member
      rw [empty] at member
      cases member
  | free index => trivial
  | realloc index size =>
      intro allocation found _ moves
      exact absurd moves (bounded.not_moves found (small size rfl))

/-- No live allocation is empty. -/
structure Sized (client : HeapClient) : Prop where
  bounded : client.Bounded
  positive : ∀ allocation ∈ client.live, allocation.size ≠ 0

theorem Sized.careful (sized : client.Sized) {op : HeapOp} (allowed : client.Allowed op)
    (calls : client.CallsRespect op) : client.Careful op := by
  cases op with
  | malloc size => exact sized.bounded.collapsed.live_eq_nil sized.positive allowed calls
  | free index => trivial
  | realloc index size => trivial

theorem Sized.step (sized : client.Sized) {op : HeapOp} (allowed : client.Allowed op)
    (small : client.SmallRequest op) (stepped : client.step op = .done next) : next.Sized := by
  have collapsed := sized.bounded.collapsed
  obtain ⟨result, returned, kept⟩ := sized.bounded.step allowed.namesLive small
  rw [stepped] at returned
  cases returned
  have erased : ∀ index, ∀ allocation ∈ client.live.eraseIdx index, allocation.size ≠ 0 :=
    fun index allocation member => sized.positive _ (List.mem_of_mem_eraseIdx member)
  refine ⟨kept, ?_⟩
  cases op with
  | malloc size =>
      rw [collapsed.step_malloc size] at stepped
      cases stepped
      intro allocation member
      rcases List.mem_append.mp member with old | new
      · exact sized.positive allocation old
      · cases List.mem_singleton.mp new
        exact allowed
  | free index =>
      rw [collapsed.step_free allowed] at stepped
      cases stepped
      exact erased index
  | realloc index size =>
      by_cases zero : size = 0
      · subst zero
        rw [collapsed.step_realloc_zero allowed] at stepped
        cases stepped
        exact erased index
      · obtain ⟨heap, resized, -⟩ := collapsed.step_realloc allowed zero
        rw [resized] at stepped
        cases stepped
        intro allocation member
        rcases List.mem_or_eq_of_mem_set member with old | rfl
        · exact sized.positive allocation old
        · exact zero

/-- At most one allocation is live. -/
structure Single (client : HeapClient) : Prop where
  bounded : client.Bounded
  short : client.live.length ≤ 1

theorem Single.liveApart (single : client.Single) : client.LiveApart := by
  have short := single.short
  rw [LiveApart]
  match live : client.live with
  | [] => exact List.Pairwise.nil
  | [allocation] => exact List.pairwise_singleton _ _
  | _ :: _ :: rest =>
      rw [live] at short
      simp at short

theorem Single.step (single : client.Single) {op : HeapOp} (allowed : client.Allowed op)
    (small : client.SmallRequest op) (careful : client.Careful op)
    (stepped : client.step op = .done next) : next.Single := by
  have short := single.short
  have collapsed := single.bounded.collapsed
  obtain ⟨result, returned, kept⟩ := single.bounded.step allowed.namesLive small
  rw [stepped] at returned
  cases returned
  refine ⟨kept, ?_⟩
  have freed : ∀ index, (client.live.eraseIdx index).length ≤ 1 := fun index =>
    Nat.le_trans (List.length_eraseIdx_le _ _) short
  cases op with
  | malloc size =>
      rw [collapsed.step_malloc size] at stepped
      cases stepped
      have empty : client.live = [] := careful
      rw [empty]
      exact Nat.le_refl _
  | free index =>
      rw [collapsed.step_free allowed] at stepped
      cases stepped
      exact freed index
  | realloc index size =>
      by_cases zero : size = 0
      · subst zero
        rw [collapsed.step_realloc_zero allowed] at stepped
        cases stepped
        exact freed index
      · obtain ⟨heap, resized, -⟩ := collapsed.step_realloc allowed zero
        rw [resized] at stepped
        cases stepped
        rw [List.length_set]
        exact short

theorem Sized.along_careful {ops : List HeapOp} (sized : client.Sized)
    (permitted : Along HeapClient.step Allowed client ops)
    (small : Along HeapClient.step SmallRequest client ops)
    (calls : Along HeapClient.step CallsRespect client ops) :
    Along HeapClient.step Careful client ops := by
  induction ops generalizing client with
  | nil => trivial
  | cons op ops ih =>
      refine ⟨sized.careful permitted.1 calls.1, ?_⟩
      intro next stepped
      exact ih (sized.step permitted.1 small.1 stepped) (permitted.2 _ stepped)
        (small.2 _ stepped) (calls.2 _ stepped)

theorem Bounded.along_callsRespect {ops : List HeapOp} (bounded : client.Bounded)
    (named : Along HeapClient.step NamesLive client ops)
    (small : Along HeapClient.step SmallRequest client ops)
    (careful : Along HeapClient.step Careful client ops) :
    Along HeapClient.step CallsRespect client ops := by
  induction ops generalizing client with
  | nil => trivial
  | cons op ops ih =>
      refine ⟨bounded.callsRespect small.1 careful.1, ?_⟩
      intro next stepped
      obtain ⟨result, returned, kept⟩ := bounded.step named.1 small.1
      rw [stepped] at returned
      cases returned
      exact ih kept (named.2 _ stepped) (small.2 _ stepped) (careful.2 _ stepped)

end HeapClient

/-- As long as no request is larger than the heap, the heap keeps allocations apart exactly in
those runs in which the client never allocates beside a live allocation. -/
theorem heap_exclusive_iff_careful {base heapAddr : Word} {behind : Nat → Block}
    {memory : Memory} {initial : KHeap} {ops : List HeapOp}
    (booted : kernelHeapInit base heapAddr behind memory = .done initial)
    (permitted : Along HeapClient.step HeapClient.Allowed ⟨initial, []⟩ ops)
    (small : Along HeapClient.step HeapClient.SmallRequest ⟨initial, []⟩ ops) :
    HeapClient.Exclusive ⟨initial, []⟩ ops ↔
      Along HeapClient.step HeapClient.Careful ⟨initial, []⟩ ops := by
  have bounded := HeapClient.bounded_initial booted
  constructor
  · intro exclusive
    have sized : HeapClient.Sized ⟨initial, []⟩ :=
      ⟨bounded, fun _ member => absurd member List.not_mem_nil⟩
    exact sized.along_careful permitted small exclusive.calls
  · intro careful
    have single : HeapClient.Single ⟨initial, []⟩ := ⟨bounded, Nat.zero_le _⟩
    have named := permitted.imp fun _ _ => HeapClient.Allowed.namesLive
    obtain ⟨final, finished, -⟩ := bounded.run named small
    refine ⟨⟨final, finished⟩, ?_, bounded.along_callsRespect named small careful⟩
    refine always_of_invariant ?_ (fun _ reached => reached.liveApart) single
      (permitted.and (small.and careful))
    exact fun _ _ _ reached condition => reached.step condition.1 condition.2.1 condition.2.2

/-- One allocation after the other is fine. -/
theorem heap_exclusive_malloc_free_malloc :
    ∃ initial, kernelHeapInit 0x1000 0x100000 (fun _ => ⟨0, 0, false⟩) (fun _ => 0) =
        .done initial ∧
      HeapClient.Exclusive ⟨initial, []⟩ [.malloc 16, .free 0, .malloc 32] := by
  obtain ⟨initial, booted, -⟩ := exists_smallHeap
  obtain ⟨collapsed, -⟩ := HeapClient.collapsed_initial booted
  have positive : (16 : Word) ≠ 0 ∧ (32 : Word) ≠ 0 := by decide
  have fits : (16 : Word) ≤ kernelHeapSize ∧ (32 : Word) ≤ kernelHeapSize := by decide
  have first := collapsed.step_malloc 16
  obtain ⟨one, reached, oneCollapsed, -⟩ :=
    @HeapClient.Collapsed.step _ collapsed (.malloc 16) trivial
  rw [first] at reached
  cases reached
  have second := @HeapClient.Collapsed.step_free _ oneCollapsed 0 Nat.zero_lt_one
  have along : ∀ {rule : HeapClient → HeapOp → Prop},
      rule ⟨initial, []⟩ (.malloc 16) →
      rule ⟨initial.taken 16, [⟨initial.heapAddr, 16⟩]⟩ (.free 0) →
      rule ⟨(initial.taken 16).released, []⟩ (.malloc 32) →
      Along HeapClient.step rule ⟨initial, []⟩ [.malloc 16, .free 0, .malloc 32] := by
    intro rule start middle last
    refine ⟨start, fun next stepped => ?_⟩
    cases first.symm.trans stepped
    refine ⟨middle, fun next stepped => ?_⟩
    cases second.symm.trans stepped
    exact ⟨last, fun _ _ => trivial⟩
  have permitted : Along HeapClient.step HeapClient.Allowed ⟨initial, []⟩
      [.malloc 16, .free 0, .malloc 32] := along positive.1 Nat.zero_lt_one positive.2
  have small : Along HeapClient.step HeapClient.SmallRequest ⟨initial, []⟩
      [.malloc 16, .free 0, .malloc 32] := by
    refine along ?_ ?_ ?_
    · exact fun size asked => by cases asked; exact fits.1
    · exact fun size asked => by cases asked
    · exact fun size asked => by cases asked; exact fits.2
  refine ⟨initial, booted, (heap_exclusive_iff_careful booted permitted small).mpr ?_⟩
  exact along rfl trivial rfl

/-- Two allocations in a row get the same address. -/
theorem kmalloc_twice_overlaps :
    ∃ initial client, kernelHeapInit 0x1000 0x100000 (fun _ => ⟨0, 0, false⟩) (fun _ => 0) =
        .done initial ∧
      run HeapClient.step ⟨initial, []⟩ [.malloc 16, .malloc 16] = .done client ∧
      client.live = [⟨0x100000, 16⟩, ⟨0x100000, 16⟩] ∧
      ¬ HeapClient.Exclusive ⟨initial, []⟩ [.malloc 16, .malloc 16] := by
  obtain ⟨initial, booted, start⟩ := exists_smallHeap
  obtain ⟨collapsed, -⟩ := HeapClient.collapsed_initial booted
  have positive : (16 : Word) ≠ 0 := by decide
  have first := collapsed.step_malloc 16
  obtain ⟨one, reached, oneCollapsed, -⟩ :=
    @HeapClient.Collapsed.step _ collapsed (.malloc 16) trivial
  rw [first] at reached
  cases reached
  refine ⟨initial, ⟨(initial.taken 16).taken 16,
    [⟨initial.heapAddr, 16⟩, ⟨(initial.taken 16).heapAddr, 16⟩]⟩, booted, ?_, ?_, ?_⟩
  · rw [run_cons, first, Outcome.done_bind, run_cons, oneCollapsed.step_malloc 16]
    rfl
  · simp only [KHeap.taken_heapAddr, start]
  · intro exclusive
    have respects := (exclusive.calls.2 _ first).1
    have nonempty : ∀ allocation ∈ [(⟨initial.heapAddr, 16⟩ : Allocation)],
        allocation.size ≠ 0 := by
      intro allocation member
      cases List.mem_singleton.mp member
      exact positive
    have empty := oneCollapsed.live_eq_nil nonempty positive respects
    cases empty

end Lord84
