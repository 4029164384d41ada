import Lord84.Mm.KmallocSmp
import Lord84.Scheduler.Sched
import Lord84.Theory.Loop

/-!
# The process table in memory

The functions of `src/scheduler/sched.c` once more, one level further down: the process table is
a part of the `cpu_state` in memory, and `kmalloc` writes to the same memory.  `Sched` is told
whether `kmalloc` clears the table.  Here the `cpu_state` is what `smp_init` has allocated, the
stack of a new process lies over it, and `kmalloc` does clear it.
-/

namespace Lord84

open Theory

/-- The kernel heap with `next_pid`; the `cpu_state` is in the memory of the heap. -/
structure SchedMemory where
  heap : KHeap
  nextPid : BitVec 32

namespace SchedMemory

/-- Offset of `process_list[i]` in `cpu_state` -/
def processOffset (i : Nat) : Nat := 12 + 96 * i

/-- Offset of `current_process` in `cpu_state` -/
def currentProcessOffset : Nat := processOffset procMax

/-- The members of `proc` that the functions use, as offsets in `cpu_state`.  `context` is packed,
so it starts right behind the pid. -/
def kstackOffset (i : Nat) : Nat := processOffset i + 8
def stateOffset (i : Nat) : Nat := processOffset i + 16
def pidOffset (i : Nat) : Nat := processOffset i + 20
def rspOffset (i : Nat) : Nat := processOffset i + 30
def ripOffset (i : Nat) : Nat := processOffset i + 78

section Source

variable (state : Word) (s : SchedMemory)

/-- Store a value of `count` bytes in the `cpu_state`. -/
def store (offset count value : Nat) : SchedMemory :=
  { s with heap.memory := s.heap.memory.writeLE (state + BitVec.ofNat 64 offset) count value }

/-- `proc_list[i].state` -/
def procState (i : Nat) : BitVec 32 :=
  s.heap.memory.read32 (state + BitVec.ofNat 64 (stateOffset i))

/-- What `alloc_process` writes to the slot `i` once it has a stack. -/
def initProcess (i : Nat) (kstack : Word) : SchedMemory :=
  let s := s.store state (kstackOffset i) 8 kstack.toNat
  let s := s.store state (pidOffset i) 2 s.nextPid.toNat
  let s := { s with nextPid := s.nextPid + 1 }
  let sp := s.heap.memory.readLE (state + BitVec.ofNat 64 (kstackOffset i)) 8 +
    initialStackSize.toNat
  let s := s.store state (ripOffset i) 8 0
  s.store state (rspOffset i) 8 sp

/-- `alloc_process`, on the processor with this `cpu_state` -/
def allocProcess : Option Nat × SchedMemory :=
  match (List.range procMax).find? fun i => s.procState state i = BitVec.ofNat 32
      ProcState.unused.value with
  | none => (none, s)
  | some i =>
      let s := s.store state (stateOffset i) 4 ProcState.ready.value
      let (kstack, heap) := s.heap.kmalloc initialStackSize
      (some i, { s with heap := heap }.initProcess state i kstack)

/-- `add_task` -/
def addTask (entry : Word) : Outcome SchedMemory :=
  match s.allocProcess state with
  | (none, _) => .killed
  | (some i, s) => .done (s.store state (ripOffset i) 8 entry.toNat)

/-- `proc_list[0] = idle`; the initialiser leaves `READY` in the pid. -/
def setIdle : SchedMemory :=
  let s := { s with
    heap.memory := s.heap.memory.fill (state + BitVec.ofNat 64 (processOffset 0)) 0 96 }
  s.store state (pidOffset 0) 2 ProcState.ready.value

/-- `scheduler_init` up to its loop -/
def setup (testTask : Word) : Outcome SchedMemory :=
  if s.heap.memory.readLE (state + BitVec.ofNat 64 currentProcessOffset) 8 ≠ 0 then .killed
  else (s.setIdle state).addTask state testTask

/-- One iteration of the loop of `scheduler_init`: on to the next slot, or out with the slot that
is dispatched. -/
def loopStep (i : Nat) : Nat ⊕ Nat :=
  if s.procState state i = BitVec.ofNat 32 ProcState.ready.value then .inr i
  else .inl ((i + 1) % procMax)

/-- The loop comes to dispatch this slot. -/
def Dispatches (i : Nat) : Prop :=
  Returns (s.loopStep state) 0 i

end Source

/-! ## What is left of the table -/

/-- The bytes of a slot that a new process has set: its stack, its pid, `rsp` and `rip`. -/
def TaskBytes (i offset : Nat) : Prop :=
  kstackOffset i ≤ offset ∧ offset < kstackOffset i + 8 ∨
    pidOffset i ≤ offset ∧ offset < pidOffset i + 2 ∨
    rspOffset i ≤ offset ∧ offset < rspOffset i + 8 ∨
    ripOffset i ≤ offset ∧ offset < ripOffset i + 8

/-- The first block of the heap, as long as the stack of a process, is zero but for some bytes. -/
def ZeroBut (state : Word) (bytes : Nat → Prop) (memory : Memory) : Prop :=
  ∀ offset < 65536, ¬ bytes offset → memory (state + BitVec.ofNat 64 offset) = 0

section Proofs

variable {state : Word} {s next : SchedMemory} {i : Nat}

/-- A store to these bytes leaves the others zero. -/
theorem ZeroBut.store {bytes : Nat → Prop} (zero : ZeroBut state bytes s.heap.memory)
    {offset count : Nat} (small : offset + count < 2 ^ 63)
    (covered : ∀ k, offset ≤ k → k < offset + count → bytes k) (value : Nat) :
    ZeroBut state bytes (s.store state offset count value).heap.memory := by
  intro k inside others
  have outside : k < offset ∨ offset + count ≤ k := by
    by_contra within
    exact others (covered k (by omega) (by omega))
  exact (Memory.writeLE_offset _ _ _ small (by omega) outside).trans (zero k inside others)

theorem readLE_store {offset count position size : Nat} (value : Nat)
    (small : offset + count < 2 ^ 62) (inside : position + size < 2 ^ 62)
    (outside : position + size ≤ offset ∨ offset + count ≤ position) :
    (s.store state offset count value).heap.memory.readLE (state + BitVec.ofNat 64 position) size =
      s.heap.memory.readLE (state + BitVec.ofNat 64 position) size :=
  Memory.readLE_writeLE_offset _ _ value small inside outside

/-- `kmalloc` of a stack wipes the `cpu_state`, unless it finds a free block for it. -/
theorem kmalloc_stack {heap : KHeap} (placed : HeapAt state heap)
    (busy : ¬ heap.Reusable initialStackSize) :
    ∃ after, heap.kmalloc initialStackSize = (state, after) ∧ HeapAt state after ∧
      ¬ after.Reusable initialStackSize ∧ ZeroBut state (fun _ => False) after.memory := by
  refine ⟨heap.taken initialStackSize, ?_, ?_, ?_, ?_⟩
  · rw [placed.wf.kmalloc_eq, placed.start]
  · exact ⟨placed.wf.taken _, (KHeap.taken_heapAddr heap _).trans placed.start⟩
  · rw [KHeap.taken, if_neg busy]
    rintro ⟨-, free, -⟩
    simp only [Function.update_self] at free
    cases free
  · intro offset inside _
    have size : initialStackSize.toNat = 65536 := rfl
    rw [KHeap.taken, if_neg busy, placed.start]
    simp only
    rw [memset_eq_fill, Memory.fill_apply, Memory.offset_sub state (by omega), size,
      if_pos inside]
    rfl

/-- After `alloc_process` has returned a slot, nothing is left of the `cpu_state` but what it has
written after its call of `kmalloc`. -/
structure Wiped (state : Word) (i : Nat) (s : SchedMemory) : Prop where
  inside : i < procMax
  placed : HeapAt state s.heap
  busy : ¬ s.heap.Reusable initialStackSize
  zero : ZeroBut state (TaskBytes i) s.heap.memory
  kstack : s.heap.memory.readLE (state + BitVec.ofNat 64 (kstackOffset i)) 8 = state.toNat

theorem Wiped.initProcess (inside : i < procMax) (placed : HeapAt state s.heap)
    (busy : ¬ s.heap.Reusable initialStackSize)
    (zero : ZeroBut state (fun _ => False) s.heap.memory) :
    Wiped state i (s.initProcess state i state) := by
  have bound : i < 512 := inside
  have task : ZeroBut state (TaskBytes i) s.heap.memory := fun k within _ => zero k within id
  let stacked := s.store state (kstackOffset i) 8 state.toNat
  let named := stacked.store state (pidOffset i) 2 s.nextPid.toNat
  let counted : SchedMemory := { named with nextPid := s.nextPid + 1 }
  have stackedZero : ZeroBut state (TaskBytes i) stacked.heap.memory :=
    task.store (by simp only [kstackOffset, processOffset]; omega)
      (fun k first last => Or.inl ⟨first, last⟩) _
  have countedZero : ZeroBut state (TaskBytes i) counted.heap.memory :=
    stackedZero.store (by simp only [pidOffset, processOffset]; omega)
      (fun k first last => Or.inr (Or.inl ⟨first, last⟩)) _
  have ripZero := countedZero.store (by simp only [ripOffset, processOffset]; omega)
    (fun k first last => Or.inr (Or.inr (Or.inr ⟨first, last⟩))) 0
  refine ⟨inside, ?_, busy, ?_, ?_⟩
  · exact (((placed.moved (.memory _ _)).moved (.memory _ _)).moved (.memory _ _)).moved
      (.memory _ _)
  · exact ripZero.store (by simp only [rspOffset, processOffset]; omega)
      (fun k first last => Or.inr (Or.inr (Or.inl ⟨first, last⟩))) _
  · have kept : ∀ (s : SchedMemory) offset count value, offset + count < 2 ^ 62 →
        kstackOffset i + 8 ≤ offset →
        (s.store state offset count value).heap.memory.readLE
            (state + BitVec.ofNat 64 (kstackOffset i)) 8 =
          s.heap.memory.readLE (state + BitVec.ofNat 64 (kstackOffset i)) 8 := by
      intro s offset count value small behind
      exact readLE_store value small (by simp only [kstackOffset, processOffset]; omega)
        (Or.inl behind)
    have stack : stacked.heap.memory.readLE (state + BitVec.ofNat 64 (kstackOffset i)) 8 =
        state.toNat := by
      refine (Memory.readLE_writeLE _ _ _ (by decide)).trans (Nat.mod_eq_of_lt ?_)
      exact state.isLt
    rw [SchedMemory.initProcess]
    simp only
    rw [kept _ _ _ _ (by simp only [rspOffset, processOffset]; omega)
        (by simp only [rspOffset, kstackOffset]; omega),
      kept _ _ _ _ (by simp only [ripOffset, processOffset]; omega)
        (by simp only [ripOffset, kstackOffset]; omega)]
    exact (kept _ _ _ _ (by simp only [pidOffset, processOffset]; omega)
      (by simp only [pidOffset, kstackOffset]; omega)).trans stack

theorem wiped_allocProcess (placed : HeapAt state s.heap)
    (busy : ¬ s.heap.Reusable initialStackSize)
    (returned : s.allocProcess state = (some i, next)) : Wiped state i next := by
  unfold allocProcess at returned
  cases found : (List.range procMax).find? fun i => s.procState state i = BitVec.ofNat 32
      ProcState.unused.value with
  | none =>
      rw [found] at returned
      cases returned
  | some slot =>
      have inside := List.mem_range.mp (List.mem_of_find?_eq_some found)
      have marked : HeapAt state (s.store state (stateOffset slot) 4 ProcState.ready.value).heap :=
        placed.moved (.memory _ _)
      obtain ⟨heap, allocated, after, stillBusy, zero⟩ := kmalloc_stack marked busy
      rw [found] at returned
      simp only [allocated, Prod.mk.injEq, Option.some.injEq] at returned
      obtain ⟨rfl, rfl⟩ := returned
      exact .initProcess inside after stillBusy zero

/-- `add_task` sets `rip` of the slot that `alloc_process` has wiped the table for. -/
theorem wiped_addTask {entry : Word} (placed : HeapAt state s.heap)
    (busy : ¬ s.heap.Reusable initialStackSize) (returned : s.addTask state entry = .done next) :
    ∃ i, Wiped state i next := by
  unfold addTask at returned
  cases allocated : s.allocProcess state with
  | mk slot after =>
      rw [allocated] at returned
      cases slot with
      | none => cases returned
      | some i =>
          cases returned
          have wiped := wiped_allocProcess placed busy allocated
          have bound : i < 512 := wiped.inside
          refine ⟨i, wiped.inside, wiped.placed.moved (.memory _ _), wiped.busy, ?_, ?_⟩
          · exact wiped.zero.store (by simp only [ripOffset, processOffset]; omega)
              (fun k first last => Or.inr (Or.inr (Or.inr ⟨first, last⟩))) _
          · rw [← wiped.kstack]
            apply readLE_store
            · simp only [ripOffset, processOffset]
              omega
            · simp only [kstackOffset, processOffset]
              omega
            · simp only [kstackOffset, ripOffset]
              omega

/-- No process is ready in a wiped table, the new one included. -/
theorem Wiped.procState (wiped : Wiped state i s) {j : Nat} (inside : j < procMax) :
    s.procState state j = 0 := by
  have bound : j < 512 := inside
  apply Memory.read32_of_zero
  intro k small
  rw [BitVec.add_assoc, ← BitVec.ofNat_add]
  apply wiped.zero
  · simp only [stateOffset, processOffset]
    omega
  · simp only [TaskBytes, kstackOffset, pidOffset, rspOffset, ripOffset, stateOffset,
      processOffset]
    omega

/-- If no process is ready, the loop of `scheduler_init` goes round forever. -/
theorem not_dispatches (none : ∀ j < procMax, s.procState state j = 0) (i : Nat) :
    ¬ s.Dispatches state i := by
  intro dispatched
  have stays : ∀ slot, slot < procMax → s.loopStep state slot = .inl ((slot + 1) % procMax) := by
    intro slot inside
    refine if_neg ?_
    rw [none slot inside]
    decide
  -- a slot that the loop leaves from would have to be outside the table
  have outside : ¬ 0 < procMax := by
    refine @Returns.induct _ _ _ _ _ (fun slot => ¬ slot < procMax) dispatched ?_ ?_
    · intro slot left inside
      rw [stays slot inside] at left
      cases left
    · intro slot following stepped beyond inside
      rw [stays slot inside] at stepped
      cases stepped
      exact beyond (Nat.mod_lt _ (by decide))
  exact outside (by decide)

/-- The first slot is always found, if it is unused. -/
theorem allocProcess_fst_zero (unused : s.procState state 0 = 0) :
    (s.allocProcess state).1 = some 0 := by
  have found : (List.range procMax).find? (fun i => s.procState state i = BitVec.ofNat 32
      ProcState.unused.value) = some 0 := by
    rw [List.find?_range_eq_some]
    exact ⟨decide_eq_true unused, List.mem_range.mpr (by decide), fun j before => by cases before⟩
  unfold allocProcess
  rw [found]

/-- `add_task` succeeds if the first slot is unused. -/
theorem addTask_done (unused : s.procState state 0 = 0) (entry : Word) :
    ∃ final, s.addTask state entry = .done final := by
  have slot := allocProcess_fst_zero unused
  unfold addTask
  cases allocated : s.allocProcess state with
  | mk found after =>
      rw [allocated] at slot
      cases slot
      exact ⟨_, rfl⟩

theorem procState_setIdle : (s.setIdle state).procState state 0 = 0 := by
  apply Memory.read32_of_zero
  intro k small
  rw [BitVec.add_assoc, ← BitVec.ofNat_add]
  refine (Memory.writeLE_offset _ _ _ (by decide) (by simp only [stateOffset, processOffset]; omega)
    (Or.inl (by simp only [stateOffset, pidOffset, processOffset]; omega))).trans ?_
  have inside : (state + BitVec.ofNat 64 (stateOffset 0 + k) -
      (state + BitVec.ofNat 64 (processOffset 0))).toNat < 96 := by
    rw [Memory.toNat_sub_offsets state (by decide)
      (by simp only [stateOffset, processOffset]; omega), if_pos]
    · simp only [stateOffset, processOffset]
      omega
    · simp only [stateOffset, processOffset]
      omega
  exact if_pos inside

end Proofs

end SchedMemory

/-- The scheduler on the `cpu_state` that `smp_init` has allocated, at the start of the heap.
Unless the block of the heap counts as free for a stack, every `alloc_process` that returns a slot
has wiped all of the `cpu_state` but four members of that slot, and the stack it gives the new
process lies over the `cpu_state`.  So after any number of calls of `add_task` no process is
ready, and the next one gets the slot 0; and `scheduler_init` enters its loop and never
dispatches. -/
theorem scheduler_never_dispatches (state : Word) (s : SchedMemory)
    (placed : HeapAt state s.heap) (busy : ¬ s.heap.Reusable initialStackSize) :
    (∀ i next, s.allocProcess state = (some i, next) →
      (∀ offset < 65536, ¬ SchedMemory.TaskBytes i offset →
        next.heap.memory (state + BitVec.ofNat 64 offset) = 0) ∧
      next.heap.memory.readLE (state + BitVec.ofNat 64 (SchedMemory.kstackOffset i)) 8 =
        state.toNat) ∧
    (∀ entry entries final,
      run (fun s entry => s.addTask state entry) s (entry :: entries) = .done final →
      (∀ i < procMax, final.procState state i = 0) ∧ (final.allocProcess state).1 = some 0) ∧
    (s.heap.memory.readLE (state + BitVec.ofNat 64 SchedMemory.currentProcessOffset) 8 = 0 →
      ∀ testTask, ∃ final, s.setup state testTask = .done final ∧
        ∀ i, ¬ final.Dispatches state i) := by
  refine ⟨?_, ?_, ?_⟩
  · intro i next returned
    have wiped := SchedMemory.wiped_allocProcess placed busy returned
    exact ⟨wiped.zero, wiped.kstack⟩
  · intro entry entries final finished
    have lost : ∃ i, SchedMemory.Wiped state i final := by
      rw [run_cons, Outcome.bind_eq_done] at finished
      obtain ⟨next, first, rest⟩ := finished
      have start : ∃ i, SchedMemory.Wiped state i next :=
        SchedMemory.wiped_addTask placed busy first
      refine @run_invariant _ _ _ (fun _ _ => True) (fun s => ∃ i, SchedMemory.Wiped state i s) ?_
        next final entries start (.of_forall (fun _ _ => trivial) _ _) rest
      rintro reached task after ⟨i, wiped⟩ - stepped
      exact SchedMemory.wiped_addTask wiped.placed wiped.busy stepped
    obtain ⟨i, wiped⟩ := lost
    exact ⟨fun j inside => wiped.procState inside,
      SchedMemory.allocProcess_fst_zero (wiped.procState (by decide))⟩
  · intro idle testTask
    have entered : s.setup state testTask = (s.setIdle state).addTask state testTask :=
      if_neg (not_not.mpr idle)
    obtain ⟨final, done⟩ := SchedMemory.addTask_done SchedMemory.procState_setIdle testTask
    rw [done] at entered
    have idlePlaced : HeapAt state (s.setIdle state).heap :=
      (placed.moved (.memory _ _)).moved (.memory _ _)
    obtain ⟨i, wiped⟩ := SchedMemory.wiped_addTask idlePlaced busy done
    exact ⟨final, entered, SchedMemory.not_dispatches fun j inside => wiped.procState inside⟩

/-- The heap as `smp_init` leaves it, in empty memory. -/
theorem scheduler_never_dispatches_booted :
    ∃ s final : SchedMemory, s.heap.heapAddr = 0x100000 ∧
      s.heap.base 0 = ⟨0x100000, 49246, false⟩ ∧
      s.setup 0x100000 0x2000 = .done final ∧ ∀ i, ¬ final.Dispatches 0x100000 i := by
  let heap : KHeap :=
    { base := fun i => if i = 0 then ⟨0x100000, 49246, false⟩ else ⟨0, 0, false⟩
      heapAddr := 0x100000
      memory := fun _ => 0 }
  have placed : HeapAt 0x100000 heap :=
    ⟨⟨by decide, Or.inr rfl, fun i later _ => by simp [heap, Nat.pos_iff_ne_zero.mp later]⟩, rfl⟩
  have busy : ¬ heap.Reusable initialStackSize := fun reusable => by cases reusable.2.1
  obtain ⟨final, done, never⟩ :=
    (scheduler_never_dispatches 0x100000 ⟨heap, 1⟩ placed busy).2.2 rfl 0x2000
  exact ⟨⟨heap, 1⟩, final, rfl, rfl, done, never⟩

end Lord84
