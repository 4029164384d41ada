import Lord84.Mm.KmallocRun
import Lord84.Theory.Threads

/-!
# The kernel heap on several processors

`kmalloc` takes no lock.  Here it runs access by access, so that the calls of several processors
may run into each other.  The table stays collapsed all the same, and every call returns the start
of the heap.
-/

namespace Lord84

open Theory

/-! ## The code -/

/-- The condition of the first loop of `kmalloc`. -/
def blockFitsCode (size : Word) (i : Nat) : Code KHeap Bool := do
  let addr ← Code.read fun s => (s.base i).addr
  if addr = 0 then return false
  else
    let free ← Code.read fun s => (s.base i).free
    if !free then return false
    else
      let blockSize ← Code.read fun s => (s.base i).size
      return decide (size ≤ blockSize.setWidth 64)

/-- The first loop of `kmalloc`: the address of a block that was taken. -/
def firstFitCode (size : Word) : List Nat → Code KHeap (Option Word)
  | [] => return none
  | i :: rest => do
      let fits ← blockFitsCode size i
      if fits then
        Code.write fun s => s.setBlock i { s.base i with free := false }
        let addr ← Code.read fun s => (s.base i).addr
        return some addr
      else firstFitCode size rest

/-- The `while` loop of `kmalloc`. -/
def nextBlockCode : Nat → Nat → Code KHeap (Option Nat)
  | 0, _ => return none
  | fuel + 1, i => do
      let free ← Code.read fun s => (s.base i).free
      if free then return some i
      else
        let addr ← Code.read fun s => (s.base i).addr
        if addr = 0 then
          if kernelMaxBlock < i then return none else nextBlockCode fuel (i + 1)
        else return some i

/-- The last loop of `kmalloc`. -/
def blockAddressCode : List Nat → Word → Code KHeap (Option Word)
  | [], addr => return some addr
  | j :: rest, addr => do
      let heapAddr ← Code.read fun s => s.heapAddr
      if heapAddr + kernelHeapSize < addr then return none
      else
        let size ← Code.read fun s => (s.base j).size
        blockAddressCode rest (addr + size.setWidth 64)

/-- `memset` of the bytes at these offsets -/
def memsetCode (dest : Word) (c : BitVec 32) : List Nat → Code KHeap Unit
  | [] => return ()
  | i :: rest => do
      Code.write fun s =>
        { s with memory := s.memory.write8 (dest + BitVec.ofNat 64 i) (c.setWidth 8) }
      memsetCode dest c rest

/-- `kmalloc` -/
def kmallocCode (size : Word) : Code KHeap Word := do
  let fit ← firstFitCode size (List.range kernelMaxBlock)
  match fit with
  | some addr => return addr
  | none =>
      let next ← nextBlockCode (kernelMaxBlock + 2) 0
      match next with
      | none => return 0
      | some i =>
          let heapAddr ← Code.read fun s => s.heapAddr
          let place ← blockAddressCode (List.range i) heapAddr
          match place with
          | none => return 0
          | some addr =>
              memsetCode addr 0 (List.range size.toNat)
              Code.write fun s => s.setBlock i { s.base i with addr := addr }
              Code.write fun s => s.setBlock i { s.base i with free := false }
              Code.write fun s => s.setBlock i { s.base i with size := size.setWidth 32 }
              return addr

/-! ## One processor -/

section Alone

variable (s : KHeap) (size : Word)

theorem blockFitsCode_run (i : Nat) :
    (blockFitsCode size i).run s =
      (decide ((s.base i).addr ≠ 0 ∧ (s.base i).free = true ∧
        size ≤ (s.base i).size.setWidth 64), s) := by
  rw [blockFitsCode, Code.read_bind, Code.run_step, id]
  by_cases unused : (s.base i).addr = 0
  · rw [if_pos unused, decide_eq_false fun fits => fits.1 unused]
    rfl
  · rw [if_neg unused, Code.read_bind, Code.run_step, id]
    cases free : (s.base i).free with
    | false =>
        rw [decide_eq_false fun fits => Bool.false_ne_true fits.2.1]
        rfl
    | true =>
        simp only [ne_eq, unused, not_false_eq_true, true_and]
        rfl

theorem firstFitCode_run (blocks : List Nat) :
    (firstFitCode size blocks).run s =
      match blocks.find? fun i => (s.base i).addr ≠ 0 ∧ (s.base i).free = true ∧
          size ≤ (s.base i).size.setWidth 64 with
      | some i => (some (s.base i).addr, s.setBlock i { s.base i with free := false })
      | none => (none, s) := by
  induction blocks with
  | nil => rfl
  | cons i rest ih =>
      rw [firstFitCode, Code.run_bind, blockFitsCode_run, List.find?_cons]
      by_cases fits : (s.base i).addr ≠ 0 ∧ (s.base i).free = true ∧
          size ≤ (s.base i).size.setWidth 64
      · rw [decide_eq_true fits]
        simp only [if_true, Code.write_bind, Code.read_bind, Code.run_step, id, KHeap.setBlock,
          Function.update_self]
        rfl
      · rw [decide_eq_false fits]
        exact ih

theorem nextBlockCode_run (fuel i : Nat) :
    (nextBlockCode fuel i).run s = (KHeap.nextBlock s.base fuel i, s) := by
  induction fuel generalizing i with
  | zero => rfl
  | succ fuel ih =>
      rw [nextBlockCode, Code.read_bind, Code.run_step, id, KHeap.nextBlock]
      cases free : (s.base i).free with
      | true =>
          rw [if_pos rfl, if_neg fun both => Bool.false_ne_true both.1.symm]
          rfl
      | false =>
          rw [if_neg Bool.false_ne_true, Code.read_bind, Code.run_step, id]
          by_cases unused : (s.base i).addr = 0
          · have both : false = false ∧ (s.base i).addr = 0 := ⟨rfl, unused⟩
            rw [if_pos unused, if_pos both]
            by_cases beyond : kernelMaxBlock < i
            · rw [if_pos beyond, if_pos beyond]
              rfl
            · rw [if_neg beyond, if_neg beyond, ih]
          · rw [if_neg unused, if_neg fun both => unused both.2]
            rfl

theorem blockAddressCode_run (blocks : List Nat) (addr : Word) :
    (blockAddressCode blocks addr).run s =
      (blocks.foldlM (fun addr j =>
        if s.heapAddr + kernelHeapSize < addr then none
        else some (addr + (s.base j).size.setWidth 64)) addr, s) := by
  induction blocks generalizing addr with
  | nil => rfl
  | cons j rest ih =>
      rw [blockAddressCode, Code.read_bind, Code.run_step, id, List.foldlM_cons]
      by_cases beyond : s.heapAddr + kernelHeapSize < addr
      · rw [if_pos beyond, if_pos beyond]
        rfl
      · rw [if_neg beyond, if_neg beyond, Code.read_bind, Code.run_step, id, ih]
        rfl

theorem memsetCode_run (dest : Word) (c : BitVec 32) (offsets : List Nat) :
    (memsetCode dest c offsets).run s =
      ((), { s with memory := offsets.foldl (fun current i =>
        current.write8 (dest + BitVec.ofNat 64 i) (c.setWidth 8)) s.memory }) := by
  induction offsets generalizing s with
  | nil => rfl
  | cons i rest ih =>
      rw [memsetCode, Code.run_bind, ih]
      rfl

/-- On a processor that is alone the code computes `kmalloc`. -/
theorem kmallocCode_run : (kmallocCode size).run s = s.kmalloc size := by
  unfold kmallocCode KHeap.kmalloc KHeap.firstFit
  -- what matters is that both go over the same blocks
  generalize List.range kernelMaxBlock = blocks
  generalize kernelMaxBlock + 2 = fuel
  simp only [Code.run_bind, firstFitCode_run]
  cases blocks.find? fun i => (s.base i).addr ≠ 0 ∧ (s.base i).free = true ∧
      size ≤ (s.base i).size.setWidth 64 with
  | some i => rfl
  | none =>
      simp only [Code.run_bind, nextBlockCode_run]
      cases KHeap.nextBlock s.base fuel 0 with
      | none => rfl
      | some i =>
          simp only [Code.read_bind, Code.run_step, id, Code.run_bind, blockAddressCode_run]
          rw [KHeap.blockAddress]
          cases (List.range i).foldlM (fun addr j =>
              if s.heapAddr + kernelHeapSize < addr then none
              else some (addr + (s.base j).size.setWidth 64)) s.heapAddr with
          | none => rfl
          | some addr =>
              simp only [Code.run_bind, memsetCode_run, Code.write_bind, Code.run_step,
                KHeap.setBlock, Function.update_self, Function.update_idem]
              rfl

end Alone

/-! ## Several processors -/

/-- What the calls of `kmalloc` rely on from each other: the table stays collapsed, and its first
block stays in use. -/
structure HeapMoves (before after : KHeap) : Prop where
  heapAddr : after.heapAddr = before.heapAddr
  wf : before.WF → after.WF
  used : (before.base 0).addr = before.heapAddr → (after.base 0).addr = after.heapAddr

namespace HeapMoves

variable {before between after : KHeap}

theorem refl (s : KHeap) : HeapMoves s s :=
  ⟨rfl, fun wf => wf, fun used => used⟩

theorem trans (first : HeapMoves before between) (second : HeapMoves between after) :
    HeapMoves before after :=
  ⟨second.heapAddr.trans first.heapAddr, fun wf => second.wf (first.wf wf),
    fun used => second.used (first.used used)⟩

/-- The first block may change as long as it starts the heap. -/
theorem setBlock_zero {s : KHeap} {block : Block} (start : block.addr = s.heapAddr) :
    HeapMoves s (s.setBlock 0 block) where
  heapAddr := rfl
  wf := fun wf => by
    refine ⟨wf.nonNull, Or.inr ?_, ?_⟩
    · simpa only [KHeap.setBlock, Function.update_self] using start
    · intro i later small
      simp only [KHeap.setBlock, Function.update_of_ne (Nat.pos_iff_ne_zero.mp later)]
      exact wf.rest i later small
  used := fun _ => by simpa only [KHeap.setBlock, Function.update_self] using start

theorem memory (s : KHeap) (memory : Memory) : HeapMoves s { s with memory } :=
  ⟨rfl, fun wf => ⟨wf.nonNull, wf.head, wf.rest⟩, fun used => used⟩

end HeapMoves

/-- A collapsed heap that starts at this address. -/
structure HeapAt (heapAddr : Word) (s : KHeap) : Prop where
  wf : s.WF
  start : s.heapAddr = heapAddr

/-- Its first block is in use. -/
structure HeapUsed (heapAddr : Word) (s : KHeap) : Prop extends HeapAt heapAddr s where
  used : (s.base 0).addr = heapAddr

section Smp

variable {heapAddr : Word} {before after : KHeap}

theorem HeapAt.moved (placed : HeapAt heapAddr before) (moves : HeapMoves before after) :
    HeapAt heapAddr after :=
  ⟨moves.wf placed.wf, moves.heapAddr.trans placed.start⟩

theorem HeapUsed.moved (used : HeapUsed heapAddr before) (moves : HeapMoves before after) :
    HeapUsed heapAddr after := by
  have still := used.toHeapAt.moved moves
  exact ⟨still, (moves.used (used.used.trans used.start.symm)).trans still.start⟩

/-- A block that has an address is the first one, and stays in use. -/
theorem HeapAt.of_addr (placed : HeapAt heapAddr before) {i : Nat} (inside : i < kernelMaxBlock)
    (used : (before.base i).addr ≠ 0) : i = 0 ∧ HeapUsed heapAddr before := by
  have first : i = 0 := placed.wf.eq_zero_of_addr inside used
  subst first
  exact ⟨rfl, placed, (placed.wf.addr_head used).trans placed.start⟩

/-- A first block that is not free is in use. -/
theorem HeapAt.of_free (placed : HeapAt heapAddr before) (free : (before.base 0).free = false) :
    HeapUsed heapAddr before := by
  obtain ⟨-, isFree⟩ | used := placed.wf.head
  · rw [free] at isFree
    cases isFree
  · exact ⟨placed, used.trans placed.start⟩

/-- What is relied on and guaranteed on the heap. -/
abbrev Code.OnHeap {α : Type} (post : α → KHeap → Prop) (code : Code KHeap α) (s : KHeap) : Prop :=
  code.Relies HeapMoves HeapMoves (fun _ => True) post s

theorem blockFitsCode_onHeap (size : Word) {i : Nat} (inside : i < kernelMaxBlock)
    (placed : HeapAt heapAddr before) :
    Code.OnHeap (fun fits s => HeapAt heapAddr s ∧ (fits = true → i = 0 ∧ HeapUsed heapAddr s))
      (blockFitsCode size i) before := by
  refine Code.Relies.read_bind fun s moves => ⟨trivial, .refl s, ?_⟩
  have here := placed.moved moves
  by_cases unused : (s.base i).addr = 0
  · rw [if_pos unused]
    exact fun later further => ⟨here.moved further, fun fits => absurd fits Bool.false_ne_true⟩
  · rw [if_neg unused]
    obtain ⟨first, used⟩ := here.of_addr inside unused
    refine Code.Relies.read_bind fun t moves => ⟨trivial, .refl t, ?_⟩
    have stillUsed := used.moved moves
    split
    · exact fun later further => ⟨(stillUsed.moved further).toHeapAt,
        fun fits => absurd fits Bool.false_ne_true⟩
    · refine Code.Relies.read_bind fun u moves => ⟨trivial, .refl u, ?_⟩
      have last := stillUsed.moved moves
      exact fun later further => ⟨(last.moved further).toHeapAt,
        fun _ => ⟨first, last.moved further⟩⟩

theorem firstFitCode_onHeap (size : Word) {blocks : List Nat}
    (inside : ∀ i ∈ blocks, i < kernelMaxBlock) (placed : HeapAt heapAddr before) :
    Code.OnHeap (fun result s => HeapAt heapAddr s ∧ ∀ addr ∈ result, addr = heapAddr)
      (firstFitCode size blocks) before := by
  induction blocks generalizing before with
  | nil =>
      exact fun later further => ⟨placed.moved further, fun addr member => by cases member⟩
  | cons i rest ih =>
      refine Code.Relies.bind HeapMoves.refl
        (blockFitsCode_onHeap size (inside i List.mem_cons_self) placed) fun fits s known => ?_
      cases fits with
      | false => exact ih (fun j member => inside j (List.mem_cons_of_mem i member)) known.1
      | true =>
          obtain ⟨rfl, used⟩ := known.2 rfl
          refine Code.Relies.write_bind fun t moves => ?_
          have here := used.moved moves
          have taken : HeapMoves t (t.setBlock 0 { t.base 0 with free := false }) :=
            .setBlock_zero (here.used.trans here.start.symm)
          refine ⟨trivial, taken, Code.Relies.read_bind fun u moves => ⟨trivial, .refl u, ?_⟩⟩
          have last := (here.moved taken).moved moves
          intro later further
          refine ⟨(last.moved further).toHeapAt, ?_⟩
          rintro addr ⟨⟩
          exact last.used

theorem nextBlockCode_onHeap (fuel : Nat) (placed : HeapAt heapAddr before) :
    Code.OnHeap (fun result s => HeapAt heapAddr s ∧ result = some 0)
      (nextBlockCode (fuel + 1) 0) before := by
  refine Code.Relies.read_bind fun s moves => ⟨trivial, .refl s, ?_⟩
  have here := placed.moved moves
  cases free : (s.base 0).free with
  | true => exact fun later further => ⟨here.moved further, rfl⟩
  | false =>
      -- since it is not free it is in use, and it stays so until the next access
      have used := here.of_free free
      refine Code.Relies.read_bind fun t moves => ⟨trivial, .refl t, ?_⟩
      have still := used.moved moves
      rw [if_neg]
      · exact fun later further => ⟨(still.moved further).toHeapAt, rfl⟩
      · rw [still.used, ← still.start]
        exact still.wf.nonNull

theorem memsetCode_onHeap (dest : Word) (c : BitVec 32) (offsets : List Nat)
    (placed : HeapAt heapAddr before) :
    Code.OnHeap (fun _ s => HeapAt heapAddr s) (memsetCode dest c offsets) before := by
  induction offsets generalizing before with
  | nil => exact fun later further => placed.moved further
  | cons i rest ih =>
      refine Code.Relies.write_bind fun s moves => ⟨trivial, .memory s _, ?_⟩
      exact ih ((placed.moved moves).moved (.memory s _))

/-- Among any other calls, and whatever these have done so far, `kmalloc` returns the start of the
heap. -/
theorem kmallocCode_onHeap (size : Word) (placed : HeapAt heapAddr before) :
    Code.OnHeap (fun result s => HeapAt heapAddr s ∧ result = heapAddr)
      (kmallocCode size) before := by
  have inside : ∀ i ∈ List.range kernelMaxBlock, i < kernelMaxBlock :=
    fun i member => List.mem_range.mp member
  unfold kmallocCode
  generalize List.range kernelMaxBlock = blocks at inside
  refine Code.Relies.bind HeapMoves.refl (firstFitCode_onHeap size inside placed)
    fun fit s known => ?_
  obtain ⟨here, found⟩ := known
  cases fit with
  | some addr => exact fun later further => ⟨here.moved further, found addr rfl⟩
  | none =>
      refine Code.Relies.bind HeapMoves.refl (nextBlockCode_onHeap (kernelMaxBlock + 1) here)
        fun next t known => ?_
      obtain ⟨here, rfl⟩ := known
      refine Code.Relies.read_bind fun u moves => ⟨trivial, .refl u, ?_⟩
      have start := here.moved moves
      rw [List.range_zero, blockAddressCode, Code.pure_bind, start.start]
      refine Code.Relies.bind HeapMoves.refl (memsetCode_onHeap _ 0 _ start) fun _ v here => ?_
      refine Code.Relies.write_bind fun w moves => ?_
      have before := here.moved moves
      have named : HeapMoves w (w.setBlock 0 { w.base 0 with addr := heapAddr }) :=
        .setBlock_zero before.start.symm
      have used : HeapUsed heapAddr (w.setBlock 0 { w.base 0 with addr := heapAddr }) :=
        ⟨before.moved named, by simp only [KHeap.setBlock, Function.update_self]⟩
      refine ⟨trivial, named, Code.Relies.write_bind fun x moves => ?_⟩
      have here := used.moved moves
      have taken : HeapMoves x (x.setBlock 0 { x.base 0 with free := false }) :=
        .setBlock_zero (here.used.trans here.start.symm)
      refine ⟨trivial, taken, Code.Relies.write_bind fun y moves => ?_⟩
      have here := (here.moved taken).moved moves
      have sized : HeapMoves y (y.setBlock 0 { y.base 0 with size := size.setWidth 32 }) :=
        .setBlock_zero (here.used.trans here.start.symm)
      exact ⟨trivial, sized, fun later further =>
        ⟨((here.moved sized).moved further).toHeapAt, rfl⟩⟩

-- From here on the lemmas say what there is to know of them.
attribute [irreducible] kmallocCode memsetCode

/-- Calls of `kmalloc` on one processor, with what they return. -/
def kmallocCalls : List Word → Code KHeap (List Word)
  | [] => return []
  | size :: rest => do
      let pointer ← kmallocCode size
      let pointers ← kmallocCalls rest
      return pointer :: pointers

theorem kmallocCalls_onHeap (sizes : List Word) (placed : HeapAt heapAddr before) :
    Code.OnHeap (fun pointers _ => pointers = List.replicate sizes.length heapAddr)
      (kmallocCalls sizes) before := by
  induction sizes generalizing before with
  | nil => exact fun later further => rfl
  | cons size rest ih =>
      refine Code.Relies.bind HeapMoves.refl (kmallocCode_onHeap size placed)
        fun pointer s known => ?_
      obtain ⟨here, rfl⟩ := known
      refine Code.Relies.bind HeapMoves.refl (ih here) fun pointers t same => ?_
      subst same
      exact fun later further => rfl

end Smp

/-- The heap right after `kernel_heap_init`. -/
theorem heapAt_initial {base heapAddr : Word} {behind : Nat → Block} {memory : Memory}
    {initial : KHeap} (booted : kernelHeapInit base heapAddr behind memory = .done initial) :
    HeapAt heapAddr initial := by
  refine ⟨(HeapClient.collapsed_initial booted).1.wf, ?_⟩
  rw [kernelHeapInit] at booted
  split at booted
  · cases booted
  · split at booted
    · cases booted
    · cases booted
      rfl

/-- A size for which `kmalloc` does not reach the table behind the heap. -/
abbrev HeapRequest := { size : Word // size ≤ kernelHeapSize }

/-- The processors right after `kernel_heap_init`, each with the sizes it is going to ask for. -/
def heapBooted {ι : Type} (initial : KHeap) (sizes : ι → List HeapRequest) :
    Threads ι KHeap (List Word) where
  shared := initial
  thread i := .runs (kmallocCalls ((sizes i).map Subtype.val))

theorem heapMoves_compatible (ι : Type) :
    Threads.Compatible (fun _ : ι => HeapMoves) (fun _ => HeapMoves) where
  refl _ := HeapMoves.refl
  trans _ _ _ _ := HeapMoves.trans
  others _ _ _ _ _ moves := moves

theorem HeapMoves.of_chain {ι : Type} {before after : KHeap}
    (chain : Relation.ReflTransGen (fun s t => ∃ _ : ι, HeapMoves s t) before after) :
    HeapMoves before after := by
  induction chain with
  | refl => exact .refl before
  | tail _ last ih =>
      obtain ⟨-, last⟩ := last
      exact ih.trans last

/-- Any number of processors call `kmalloc` any number of times, without a lock, each time for
no more than the heap.  In every interleaving of their accesses the table stays collapsed, every
processor can finish, and every pointer that any of them gets is the start of the heap. -/
theorem kmalloc_interleavings_collapse {ι : Type} [DecidableEq ι] (base heapAddr : Word)
    (behind : Nat → Block) (memory : Memory) (initial : KHeap)
    (booted : kernelHeapInit base heapAddr behind memory = .done initial)
    (sizes : ι → List HeapRequest) (m : Threads ι KHeap (List Word))
    (run : Threads.Steps (heapBooted initial sizes) m) :
    m.shared.WF ∧ m.shared.heapAddr = heapAddr ∧
    ∀ i, (∀ pointers, m.thread i = .runs (.ret pointers) →
        pointers = List.replicate (sizes i).length heapAddr) ∧
      ∃ later, Threads.Steps m later ∧
        later.thread i = .runs (.ret (List.replicate (sizes i).length heapAddr)) := by
  have start := heapAt_initial booted
  have calls : ∀ i, Code.OnHeap
      (fun pointers _ => pointers = List.replicate (sizes i).length heapAddr)
      (kmallocCalls ((sizes i).map Subtype.val)) initial := by
    intro i
    have onHeap := kmallocCalls_onHeap ((sizes i).map Subtype.val) start
    rwa [List.length_map] at onHeap
  have relies : Threads.Relies (fun _ : ι => HeapMoves) (fun _ => HeapMoves) (fun _ _ => True)
      (fun _ _ => True)
      (fun i pointers _ => pointers = List.replicate (sizes i).length heapAddr)
      (heapBooted initial sizes) := calls
  have compatible := heapMoves_compatible ι
  obtain ⟨still, moved⟩ := relies.steps compatible run
  have placed := start.moved (.of_chain moved)
  refine ⟨placed.wf, placed.start, fun i => ⟨fun pointers done => ?_, ?_⟩⟩
  · exact still.finished compatible done
  · obtain ⟨code, runs⟩ := run.runs (fun i => ⟨_, rfl⟩) i
    have complete := Threads.Steps.complete runs
    have done : (m.advance i (code.run m.shared).2
        (.runs (.ret (code.run m.shared).1))).thread i = .runs (.ret (code.run m.shared).1) :=
      Function.update_self ..
    have result := (still.steps compatible complete).1.finished compatible done
    exact ⟨_, complete, result ▸ done⟩

/-- Two processors ask for a page each, and both get the first one. -/
theorem kmalloc_interleavings_collapse_two :
    ∃ initial m, kernelHeapInit 0x1000 0x100000 (fun _ => ⟨0, 0, false⟩) (fun _ => 0) =
        .done initial ∧
      Threads.Steps (heapBooted initial fun _ : Bool => [⟨0x1000, by decide⟩]) m ∧
      m.thread true = .runs (.ret [0x100000]) ∧ m.thread false = .runs (.ret [0x100000]) := by
  let sizes : Bool → List HeapRequest := fun _ => [⟨0x1000, by decide⟩]
  obtain ⟨initial, booted⟩ : ∃ initial, kernelHeapInit 0x1000 0x100000
      (fun _ => ⟨0, 0, false⟩) (fun _ => 0) = .done initial := ⟨_, rfl⟩
  obtain ⟨-, -, first⟩ := kmalloc_interleavings_collapse 0x1000 0x100000 _ _ initial booted sizes
    (heapBooted initial sizes) .refl
  obtain ⟨between, run, done⟩ := (first true).2
  obtain ⟨-, -, second⟩ := kmalloc_interleavings_collapse 0x1000 0x100000 _ _ initial booted sizes
    between run
  obtain ⟨m, further, last⟩ := (second false).2
  exact ⟨initial, m, booted, run.trans further, further.finished done, last⟩

end Lord84
