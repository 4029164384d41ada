import Lord84.Theory.Outcome
import Lord84.Theory.Memory
import Mathlib.Logic.Function.Basic

/-!
# The process table

A model of `src/scheduler/sched.c`.  Each CPU has a table of 512 process slots and a
pointer to the current process, here the index of its slot.  Whether a slot is taken is
encoded in its `state` only, and `UNUSED` has the number of `RUNNING`: the code cannot
tell a running process from an empty slot.

The table is in the `cpu_state` that `smp_init` has put at the start of the heap, where
`kmalloc` puts everything else as well.  So a call of `kmalloc` does two things here: it
returns a stack, and it may clear the table.
-/

namespace Lord84

open Theory

/-- The values of `proc_state`. -/
inductive ProcState where
  | running
  | ready
  | sleeping
  deriving DecidableEq, Repr

/-- `UNUSED = 0` is the value of `RUNNING`. -/
def ProcState.unused : ProcState := .running

/-- Number of a state. -/
def ProcState.value : ProcState → Nat
  | .running => 0
  | .ready => 1
  | .sleeping => 2

/-- `context` -/
structure Context where
  rbx : Word
  rsp : Word
  rbp : Word
  r12 : Word
  r13 : Word
  r14 : Word
  r15 : Word
  rip : Word
  rflags : Word
  deriving DecidableEq, Repr

def Context.zero : Context := ⟨0, 0, 0, 0, 0, 0, 0, 0, 0⟩

/-- `proc` -/
structure Proc where
  mem : Word
  kstack : Word
  state : ProcState
  pid : BitVec 16
  context : Context
  deriving DecidableEq, Repr

def Proc.zero : Proc := ⟨0, 0, .unused, 0, .zero⟩

/-- `PROC_MAX` -/
def procMax : Nat := 512

/-- `INITIAL_STACK_SIZE` -/
def initialStackSize : Word := 0x10000

/-- The scheduler's part of `cpu_state`, with the counter `next_pid`. -/
structure Sched where
  processList : Nat → Proc
  currentProcess : Option Nat
  nextPid : BitVec 32

/-- What `kmalloc(INITIAL_STACK_SIZE)` returns, and whether it clears the `cpu_state`: it does
if it clears the block that it returns, and the `cpu_state` lies there. -/
structure StackAlloc where
  result : Word
  clears : Bool
  deriving DecidableEq, Repr

namespace Sched

/-- A zeroed `cpu_state` before the first process. -/
def zeroed : Sched where
  processList _ := .zero
  currentProcess := none
  nextPid := 1

variable (s : Sched)

/-- `proc_list[i] = process` -/
def setProcess (i : Nat) (process : Proc) : Sched :=
  { s with processList := Function.update s.processList i process }

/-- The loop of `alloc_process`: the first slot whose state is `UNUSED`. -/
def findUnused : Option Nat :=
  (List.range procMax).find? fun i => (s.processList i).state = .unused

/-- The `cpu_state` after a call of `kmalloc`; `next_pid` is not a part of it. -/
def afterKmalloc (kmalloc : StackAlloc) : Sched :=
  if kmalloc.clears then { zeroed with nextPid := s.nextPid } else s

/-- `alloc_process`, given what its `kmalloc` does.  A failed `kmalloc` is only logged.
The first component is the returned slot. -/
def allocProcess (kmalloc : StackAlloc) : Option Nat × Sched :=
  match s.findUnused with
  | none => (none, s)
  | some i =>
      let s := s.setProcess i { s.processList i with state := .ready }
      let s := s.afterKmalloc kmalloc
      let process := { s.processList i with
        kstack := kmalloc.result
        pid := s.nextPid.setWidth 16
        context := { (s.processList i).context with
          rip := 0
          rsp := kmalloc.result + initialStackSize } }
      (some i, { s.setProcess i process with nextPid := s.nextPid + 1 })

/-- `add_task` -/
def addTask (entry : Word) (kmalloc : StackAlloc) : Outcome Sched :=
  match s.allocProcess kmalloc with
  | (none, _) => .killed
  | (some i, s) =>
      let process := s.processList i
      .done (s.setProcess i { process with context := { process.context with rip := entry } })

/-- `proc idle = {0, 0, 0, READY, {0, ...}}`.  The initialiser is positional: the state is
0, and `READY` is the pid. -/
def idle : Proc where
  mem := 0
  kstack := 0
  state := .running
  pid := BitVec.ofNat 16 ProcState.ready.value
  context := .zero

/-- The part of `scheduler_init` before its loop. -/
def setup (testTask : Word) (kmalloc : StackAlloc) : Outcome Sched :=
  if s.currentProcess ≠ none then .killed
  else (s.setProcess 0 idle).addTask testTask kmalloc

/-- The copy `old_state = state->current_process->context`.  `nullContext` is what a read
through the null pointer finds there, if the page is mapped. -/
def oldState (nullContext : Option Context) : Option Context :=
  match s.currentProcess with
  | none => nullContext
  | some current => some (s.processList current).context

/-- Body of the loop of `scheduler_init` for the slot `i`.  `switch_context` gets the local
copy of the old context and pushes the registers on the stack in use, so it writes no
slot of the table. -/
def visit (nullContext : Option Context) (i : Nat) : Outcome Sched :=
  if (s.processList i).state = .ready then
    match s.oldState nullContext with
    | none => .fault
    | some _ =>
        .done { s.setProcess i { s.processList i with state := .running } with
          currentProcess := some i }
  else .done s

/-! ## Allocation of slots -/

variable {s}

/-- The first unused slot. -/
theorem findUnused_eq_some {i : Nat} :
    s.findUnused = some i ↔
      i < procMax ∧ (s.processList i).state = .unused ∧
        ∀ j < i, (s.processList j).state ≠ .unused := by
  rw [findUnused, List.find?_range_eq_some]
  simp only [decide_eq_true_eq, List.mem_range, Bool.not_eq_true', decide_eq_false_iff_not, ne_eq]
  tauto

theorem findUnused_eq_none :
    s.findUnused = none ↔ ∀ i < procMax, (s.processList i).state ≠ .unused := by
  simp only [findUnused, List.find?_eq_none, List.mem_range, decide_eq_true_eq, ne_eq]

theorem allocProcess_fst (s : Sched) (kmalloc : StackAlloc) :
    (s.allocProcess kmalloc).1 = s.findUnused := by
  unfold allocProcess
  cases s.findUnused <;> rfl

/-- A process has been created in the slot `i`: what becomes of the other slots. -/
structure Created (s next : Sched) (i : Nat) (clears : Bool) : Prop where
  nextPid : next.nextPid = s.nextPid + 1
  pid : (next.processList i).pid = s.nextPid.setWidth 16
  others : ∀ j, j ≠ i → next.processList j = if clears then .zero else s.processList j

/-- What `alloc_process` leaves behind when it returns the slot `i`. -/
structure Allocated (s next : Sched) (i : Nat) (kmalloc : StackAlloc) : Prop
    extends Created s next i kmalloc.clears where
  kstack : (next.processList i).kstack = kmalloc.result
  rsp : (next.processList i).context.rsp = kmalloc.result + initialStackSize
  state : (next.processList i).state = if kmalloc.clears then .unused else .ready
  current : next.currentProcess = if kmalloc.clears then none else s.currentProcess

theorem allocated_allocProcess {i : Nat} (found : s.findUnused = some i) (kmalloc : StackAlloc) :
    Allocated s (s.allocProcess kmalloc).2 i kmalloc := by
  obtain ⟨result, clears⟩ := kmalloc
  unfold allocProcess afterKmalloc
  rw [found]
  cases clears with
  | true =>
      refine ⟨⟨rfl, ?_, ?_⟩, ?_, ?_, ?_, rfl⟩
      · simp only [setProcess, Function.update_self, if_true]
      · exact fun j other => Function.update_of_ne other _ _
      · simp only [setProcess, Function.update_self]
      · simp only [setProcess, Function.update_self]
      · simp only [setProcess, Function.update_self, if_true, zeroed, Proc.zero]
  | false =>
      simp only [Bool.false_eq_true, if_false]
      refine ⟨⟨rfl, ?_, ?_⟩, ?_, ?_, ?_, rfl⟩
      · simp only [setProcess, Function.update_self]
      · intro j other
        exact (Function.update_of_ne other _ _).trans (Function.update_of_ne other _ _)
      · simp only [setProcess, Function.update_self]
      · simp only [setProcess, Function.update_self]
      · simp only [setProcess, Function.update_self, Bool.false_eq_true, if_false]

/-- `add_task` creates the process that `alloc_process` creates. -/
theorem created_addTask {i : Nat} (found : s.findUnused = some i) {entry : Word}
    {kmalloc : StackAlloc} {next : Sched} (returned : s.addTask entry kmalloc = .done next) :
    Created s next i kmalloc.clears := by
  have created := (allocated_allocProcess found kmalloc).toCreated
  have slot : (s.allocProcess kmalloc).1 = some i := by
    rw [allocProcess_fst, found]
  unfold addTask at returned
  generalize s.allocProcess kmalloc = result at returned created slot
  obtain ⟨_, allocated⟩ := result
  cases slot
  cases returned
  constructor
  · exact created.nextPid
  · rw [← created.pid]
    simp only [setProcess, Function.update_self]
  · intro j other
    rw [← created.others j other]
    exact Function.update_of_ne other _ _

theorem addTask_killed (full : s.findUnused = none) (entry : Word) (kmalloc : StackAlloc) :
    s.addTask entry kmalloc = .killed := by
  unfold addTask allocProcess
  rw [full]

/-! ## All or nothing -/

/-- A process has the slot: it is not `UNUSED`, or it is the running one. -/
def InUse (s : Sched) (i : Nat) : Prop :=
  (s.processList i).state ≠ .unused ∨ s.currentProcess = some i

/-- A slot ready to be executed, with a stack and a pid of its own. -/
structure ReadySlot (s : Sched) (i : Nat) : Prop where
  ready : (s.processList i).state = .ready
  kstack : (s.processList i).kstack ≠ 0
  rsp : (s.processList i).context.rsp = (s.processList i).kstack + initialStackSize
  freshPid : ∀ j < procMax, j ≠ i → s.InUse j → (s.processList j).pid ≠ (s.processList i).pid

/-- `alloc_process` makes a process in one slot, or changes nothing and returns `NULL`. -/
def AllOrNothing (s : Sched) (kmalloc : StackAlloc) : Prop :=
  (∃ i, (s.allocProcess kmalloc).1 = some i ∧ ReadySlot (s.allocProcess kmalloc).2 i ∧
    ∀ j, j ≠ i → (s.allocProcess kmalloc).2.processList j = s.processList j) ∨
  s.allocProcess kmalloc = (none, s)

/-- The pid that the next process gets is not in use outside its slot. -/
def NextPidFree (s : Sched) : Prop :=
  ∀ j < procMax, s.InUse j → s.findUnused ≠ some j →
    (s.processList j).pid ≠ s.nextPid.setWidth 16

/-- The new slot lacks nothing but a stack or a free pid, unless the table was cleared. -/
theorem readySlot_allocProcess {i : Nat} (found : s.findUnused = some i) (kmalloc : StackAlloc) :
    ReadySlot (s.allocProcess kmalloc).2 i ↔
      kmalloc.result ≠ 0 ∧ kmalloc.clears = false ∧ s.NextPidFree := by
  have allocated := allocated_allocProcess found kmalloc
  cases clears : kmalloc.clears with
  | true =>
      refine iff_of_false ?_ (fun kept => absurd kept.2.1 (by simp))
      intro made
      have ready := made.ready
      rw [allocated.state, clears] at ready
      cases ready
  | false =>
      have others : ∀ j, j ≠ i →
          (s.allocProcess kmalloc).2.processList j = s.processList j := by
        intro j other
        rw [allocated.others j other, clears]
        rfl
      have used : ∀ j, j ≠ i → ((s.allocProcess kmalloc).2.InUse j ↔ s.InUse j) := by
        intro j other
        rw [InUse, InUse, others j other, allocated.current, clears]
        rfl
      constructor
      · intro made
        refine ⟨allocated.kstack ▸ made.kstack, rfl, ?_⟩
        intro j inside taken other
        rw [found, ne_eq, Option.some.injEq] at other
        have fresh := made.freshPid j inside (Ne.symm other) ((used j (Ne.symm other)).mpr taken)
        rwa [others j (Ne.symm other), allocated.pid] at fresh
      · rintro ⟨stack, -, free⟩
        constructor
        · rw [allocated.state, clears]
          rfl
        · rwa [allocated.kstack]
        · rw [allocated.rsp, allocated.kstack]
        · intro j inside other taken
          rw [others j other, allocated.pid]
          refine free j inside ((used j other).mp taken) ?_
          rw [found, ne_eq, Option.some.injEq]
          exact Ne.symm other

/-- `alloc_process` is all-or-nothing exactly if no slot is free, or there is a stack for the
new process, its pid is not in use, and `kmalloc` has left the table alone. -/
theorem alloc_process_all_or_nothing_iff (s : Sched) (kmalloc : StackAlloc) :
    s.AllOrNothing kmalloc ↔
      (∀ i < procMax, (s.processList i).state ≠ .unused) ∨
        kmalloc.result ≠ 0 ∧ kmalloc.clears = false ∧ s.NextPidFree := by
  rw [← findUnused_eq_none]
  cases found : s.findUnused with
  | none =>
      refine iff_of_true (Or.inr ?_) (Or.inl rfl)
      unfold allocProcess
      rw [found]
  | some i =>
      have returned : (s.allocProcess kmalloc).1 = some i := by
        rw [allocProcess_fst, found]
      rw [or_iff_right (Option.some_ne_none i), ← readySlot_allocProcess found kmalloc]
      constructor
      · rintro (⟨j, other, made, -⟩ | unchanged)
        · rw [returned, Option.some.injEq] at other
          exact other ▸ made
        · rw [unchanged] at returned
          cases returned
      · intro made
        have kept := ((readySlot_allocProcess found kmalloc).mp made).2.1
        refine Or.inl ⟨i, returned, made, fun j other => ?_⟩
        rw [(allocated_allocProcess found kmalloc).others j other, kept]
        rfl

theorem findUnused_zeroed : zeroed.findUnused = some 0 :=
  findUnused_eq_some.mpr ⟨by decide, rfl, fun j before => absurd before (Nat.not_lt_zero j)⟩

/-- Without memory for the stack, a slot is published that has none. -/
theorem alloc_process_without_stack : ¬ ∀ (s : Sched) (kmalloc : StackAlloc),
    s.AllOrNothing kmalloc := by
  intro claimed
  have returned := (allocProcess_fst zeroed ⟨0, false⟩).trans findUnused_zeroed
  obtain ⟨i, slot, made, -⟩ | unchanged := claimed zeroed ⟨0, false⟩
  · rw [returned, Option.some.injEq] at slot
    subst slot
    exact ((readySlot_allocProcess findUnused_zeroed ⟨0, false⟩).mp made).1 rfl
  · rw [unchanged] at returned
    cases returned

end Sched

end Lord84
