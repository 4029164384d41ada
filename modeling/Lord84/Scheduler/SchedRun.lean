import Lord84.Scheduler.Sched

/-!
# Runs of the scheduler

The first part follows the ownership of process slots through runs of setup, process
creation and dispatch.  The second part follows the dispatch loop alone, from the null
current process with which `scheduler_init` starts it.
-/

namespace Lord84

open Theory

/-! ## Ownership of slots -/

/-- A process that has been created: its slot and the pid it was given. -/
structure Process where
  slot : Nat
  pid : BitVec 16
  deriving DecidableEq, Repr

/-- The scheduler with all processes that exist; processes never end. -/
structure SchedSystem where
  sched : Sched
  existing : List Process

/-- A step of a run.  `visit` is one iteration of the dispatch loop; the other steps call
`kmalloc` for a stack. -/
inductive SchedOp where
  | setup (testTask : Word) (kmalloc : StackAlloc)
  | alloc (kmalloc : StackAlloc)
  | addTask (entry : Word) (kmalloc : StackAlloc)
  | visit (i : Fin procMax)
  deriving DecidableEq, Repr

namespace SchedSystem

variable (nullContext : Option Context)

/-- The processes after a slot of `sched` has been given out. -/
def create (existing : List Process) (slot : Option Nat) (sched : Sched) : List Process :=
  match slot with
  | none => existing
  | some i => existing ++ [⟨i, (sched.processList i).pid⟩]

/-- The idle process in its slot. -/
def idleProcess : Process := ⟨0, Sched.idle.pid⟩

/-- Execute one step and keep track of the processes. -/
def step (system : SchedSystem) : SchedOp → Outcome SchedSystem
  | .setup testTask kmalloc => do
      let sched ← system.sched.setup testTask kmalloc
      let slot := ((system.sched.setProcess 0 Sched.idle).allocProcess kmalloc).1
      return ⟨sched, create (system.existing ++ [idleProcess]) slot sched⟩
  | .alloc kmalloc =>
      match system.sched.allocProcess kmalloc with
      | (slot, sched) => return ⟨sched, create system.existing slot sched⟩
  | .addTask entry kmalloc => do
      let sched ← system.sched.addTask entry kmalloc
      return ⟨sched, create system.existing (system.sched.allocProcess kmalloc).1 sched⟩
  | .visit i => do
      let sched ← system.sched.visit nullContext i
      return ⟨sched, system.existing⟩

/-- The processes keep their stacks, pids and saved contexts. -/
def Kept (before after : Sched) (existing : List Process) : Prop :=
  ∀ process ∈ existing,
    (after.processList process.slot).kstack = (before.processList process.slot).kstack ∧
    (after.processList process.slot).pid = (before.processList process.slot).pid ∧
    (after.processList process.slot).context = (before.processList process.slot).context

/-- A call of `alloc_process` returns a slot without a process and keeps all processes. -/
def AllocRespects (sched : Sched) (existing : List Process) (kmalloc : StackAlloc) : Prop :=
  ∀ i, (sched.allocProcess kmalloc).1 = some i →
    (∀ process ∈ existing, process.slot ≠ i) ∧
      Kept sched (sched.allocProcess kmalloc).2 existing

/-- The step respects the existing processes when it creates one.  In `scheduler_init` the
idle process already exists when `add_task` is called. -/
def CallsRespect (system : SchedSystem) : SchedOp → Prop
  | .setup testTask kmalloc => ∀ next, system.sched.setup testTask kmalloc = .done next →
      AllocRespects (system.sched.setProcess 0 Sched.idle) (system.existing ++ [idleProcess])
        kmalloc ∧
      Kept system.sched next system.existing
  | .alloc kmalloc => AllocRespects system.sched system.existing kmalloc
  | .addTask entry kmalloc => AllocRespects system.sched system.existing kmalloc ∧
      ∀ next, system.sched.addTask entry kmalloc = .done next →
        Kept system.sched next system.existing
  | .visit _ => True

/-- The processes have different slots and different pids. -/
def Distinct (system : SchedSystem) : Prop :=
  (system.existing.map Process.slot).Nodup ∧ (system.existing.map Process.pid).Nodup

/-- Process slots are exclusive along a run. -/
structure Exclusive (system : SchedSystem) (ops : List SchedOp) : Prop where
  distinct : Always (step nullContext) Distinct system ops
  calls : Along (step nullContext) CallsRespect system ops

/-- No process is running, and if a stack is allocated, then the table is not cleared unless
there is no process yet. -/
structure CarefulAlloc (system : SchedSystem) (kmalloc : StackAlloc) : Prop where
  idle : ∀ process ∈ system.existing,
    (system.sched.processList process.slot).state ≠ .running
  keeps : kmalloc.clears = true → system.sched.findUnused = none ∨ system.existing = []

/-- Processes are created with care, and `scheduler_init` is not entered, or gives up because
it already was. -/
def Careful (system : SchedSystem) : SchedOp → Prop
  | .setup _ _ => system.sched.currentProcess ≠ none
  | .alloc kmalloc => system.CarefulAlloc kmalloc
  | .addTask _ kmalloc => system.CarefulAlloc kmalloc
  | .visit _ => True

/-- The first `count` slots have been given out in order, and the table has the pids. -/
structure Filled (system : SchedSystem) (count : Nat) : Prop where
  bounded : count ≤ procMax
  slots : system.existing.map Process.slot = List.range count
  pids : system.existing.map Process.pid =
    (List.range count).map fun i => BitVec.ofNat 16 (i + 1)
  next : system.sched.nextPid = BitVec.ofNat 32 (count + 1)
  stored : ∀ process ∈ system.existing,
    (system.sched.processList process.slot).pid = process.pid
  rest : ∀ i, count ≤ i → i < procMax → (system.sched.processList i).state = .unused

variable {nullContext} {system next : SchedSystem} {count : Nat}

theorem filled_zeroed : Filled ⟨.zeroed, []⟩ 0 where
  bounded := Nat.zero_le _
  slots := rfl
  pids := rfl
  next := rfl
  stored _ member := nomatch member
  rest _ _ _ := rfl

theorem Filled.distinct (filled : system.Filled count) : system.Distinct := by
  have bounded := filled.bounded
  constructor
  · rw [filled.slots]
    exact List.nodup_range
  · rw [filled.pids]
    apply List.Nodup.map_on _ List.nodup_range
    intro left leftMem right rightMem equal
    rw [List.mem_range] at leftMem rightMem
    have equalNat := congrArg BitVec.toNat equal
    simp only [BitVec.toNat_ofNat, procMax] at equalNat bounded
    omega

theorem Filled.mem_slots (filled : system.Filled count) {i : Nat} (small : i < count) :
    ∃ process ∈ system.existing, process.slot = i := by
  have listed : i ∈ system.existing.map Process.slot := by
    rw [filled.slots]
    exact List.mem_range.mpr small
  obtain ⟨process, member, here⟩ := List.mem_map.mp listed
  exact ⟨process, member, here⟩

theorem Filled.slot_lt (filled : system.Filled count) {process : Process}
    (member : process ∈ system.existing) : process.slot < count := by
  have listed : process.slot ∈ system.existing.map Process.slot := List.mem_map_of_mem member
  rw [filled.slots] at listed
  exact List.mem_range.mp listed

/-- If `alloc_process` respects the processes, then none of them is running. -/
theorem Filled.not_running (filled : system.Filled count) {kmalloc : StackAlloc}
    (respects : AllocRespects system.sched system.existing kmalloc) {process : Process}
    (member : process ∈ system.existing) :
    (system.sched.processList process.slot).state ≠ .running := by
  intro running
  have small := Nat.lt_of_lt_of_le (filled.slot_lt member) filled.bounded
  cases found : system.sched.findUnused with
  | none => exact Sched.findUnused_eq_none.mp found _ small running
  | some i =>
      -- The first unused slot is at most the running one, so it is taken as well.
      have first := (Sched.findUnused_eq_some.mp found).2.2
      have least : i ≤ process.slot := by
        by_contra later
        exact first process.slot (Nat.lt_of_not_le later) running
      obtain ⟨other, otherMem, here⟩ :=
        filled.mem_slots (Nat.lt_of_le_of_lt least (filled.slot_lt member))
      have returned : (system.sched.allocProcess kmalloc).1 = some i := by
        rw [Sched.allocProcess_fst, found]
      exact (respects i returned).1 other otherMem here

/-- If no process is running, the next slot in order is found. -/
theorem Filled.findUnused (filled : system.Filled count)
    (idle : ∀ process ∈ system.existing,
      (system.sched.processList process.slot).state ≠ .running) :
    system.sched.findUnused = if count < procMax then some count else none := by
  have taken : ∀ j < count, (system.sched.processList j).state ≠ .unused := by
    intro j small
    obtain ⟨process, member, here⟩ := filled.mem_slots small
    rw [← here]
    exact idle process member
  split
  next room =>
    have free := filled.rest count (Nat.le_refl _) room
    exact Sched.findUnused_eq_some.mpr ⟨room, free, taken⟩
  next full =>
    apply Sched.findUnused_eq_none.mpr
    intro i small
    exact taken i (Nat.lt_of_lt_of_le small (Nat.le_of_not_lt full))

/-- No process has the pid 0. -/
theorem Filled.pid_ne_zero (filled : system.Filled count) {process : Process}
    (member : process ∈ system.existing) : process.pid ≠ 0 := by
  have listed : process.pid ∈ system.existing.map Process.pid := List.mem_map_of_mem member
  rw [filled.pids] at listed
  obtain ⟨i, small, here⟩ := List.mem_map.mp listed
  have bounded := filled.bounded
  rw [List.mem_range] at small
  rw [procMax] at bounded
  rw [← here]
  intro zero
  have zeroNat := congrArg BitVec.toNat zero
  rw [BitVec.toNat_ofNat] at zeroNat
  change (i + 1) % 65536 = 0 at zeroNat
  omega

/-- Processes survive the creation of another one, if the table is not cleared. -/
theorem Filled.kept {next : Sched} {i : Nat} {clears : Bool} (filled : system.Filled count)
    (taken : count ≤ i) (created : Sched.Created system.sched next i clears)
    (keeps : clears = true → system.existing = []) : Kept system.sched next system.existing := by
  intro process member
  have different : process.slot ≠ i :=
    Nat.ne_of_lt (Nat.lt_of_lt_of_le (filled.slot_lt member) taken)
  have kept := created.others _ different
  cases clears with
  | true =>
      rw [keeps rfl] at member
      cases member
  | false =>
      rw [kept]
      exact ⟨rfl, rfl, rfl⟩

/-- If `alloc_process` respects the processes, then it does not clear the table. -/
theorem Filled.keeps (filled : system.Filled count) {kmalloc : StackAlloc}
    (respects : AllocRespects system.sched system.existing kmalloc)
    (clears : kmalloc.clears = true) :
    system.sched.findUnused = none ∨ system.existing = [] := by
  cases found : system.sched.findUnused with
  | none => exact Or.inl rfl
  | some i =>
      refine Or.inr (List.eq_nil_iff_forall_not_mem.mpr fun process member => ?_)
      have returned : (system.sched.allocProcess kmalloc).1 = some i := by
        rw [Sched.allocProcess_fst, found]
      obtain ⟨apart, kept⟩ := respects i returned
      have wiped := (Sched.allocated_allocProcess found kmalloc).others _ (apart process member)
      have pid := (kept process member).2.1
      rw [wiped, clears, filled.stored process member] at pid
      exact filled.pid_ne_zero member pid.symm

/-- A table that is cleared with care has no process. -/
theorem keeps_of_careful {kmalloc : StackAlloc} (careful : system.CarefulAlloc kmalloc)
    {i : Nat} (found : system.sched.findUnused = some i) (clears : kmalloc.clears = true) :
    system.existing = [] := by
  refine (careful.keeps clears).resolve_left ?_
  simp [found]

theorem Filled.allocRespects (filled : system.Filled count) {kmalloc : StackAlloc}
    (careful : system.CarefulAlloc kmalloc) :
    AllocRespects system.sched system.existing kmalloc := by
  intro i returned
  rw [Sched.allocProcess_fst] at returned
  have keeps := keeps_of_careful careful returned
  have created := (Sched.allocated_allocProcess returned kmalloc).toCreated
  have found := filled.findUnused careful.idle
  rw [returned] at found
  split at found
  · have here : i = count := Option.some.inj found
    constructor
    · intro process member
      rw [here]
      exact Nat.ne_of_lt (filled.slot_lt member)
    · exact filled.kept (Nat.le_of_eq here.symm) created keeps
  · cases found

/-- The slot of the idle process counts as unused. -/
theorem findUnused_idle (sched : Sched) :
    (sched.setProcess 0 Sched.idle).findUnused = some 0 := by
  refine Sched.findUnused_eq_some.mpr ⟨by decide, ?_, ?_⟩
  · simp [Sched.setProcess, Sched.idle, ProcState.unused]
  · exact fun j negative => absurd negative (Nat.not_lt_zero j)

/-- Setup gives the slot of the idle process away. -/
theorem not_allocRespects_idle (sched : Sched) (existing : List Process) (kmalloc : StackAlloc) :
    ¬ AllocRespects (sched.setProcess 0 Sched.idle) (existing ++ [idleProcess]) kmalloc := by
  intro respects
  have returned : ((sched.setProcess 0 Sched.idle).allocProcess kmalloc).1 = some 0 := by
    rw [Sched.allocProcess_fst, findUnused_idle]
  have member : idleProcess ∈ existing ++ [idleProcess] := by simp
  exact (respects 0 returned).1 idleProcess member rfl

/-- Setup on a CPU without a current process always comes to the loop. -/
theorem setup_done (sched : Sched) (testTask : Word) (kmalloc : StackAlloc)
    (fresh : sched.currentProcess = none) :
    ∃ next, sched.setup testTask kmalloc = .done next := by
  unfold Sched.setup Sched.addTask Sched.allocProcess
  rw [if_neg (by simp [fresh]), findUnused_idle]
  exact ⟨_, rfl⟩

/-- One more slot in order. -/
theorem Filled.create {next : Sched} {clears : Bool} (filled : system.Filled count)
    (room : count < procMax) (created : Sched.Created system.sched next count clears)
    (keeps : clears = true → system.existing = []) :
    Filled ⟨next, create system.existing (some count) next⟩ (count + 1) := by
  have number : (BitVec.ofNat 32 (count + 1)).setWidth 16 = BitVec.ofNat 16 (count + 1) := by
    apply BitVec.eq_of_toNat_eq
    simp only [BitVec.toNat_setWidth, BitVec.toNat_ofNat]
    omega
  constructor
  · exact room
  · rw [List.range_succ, ← filled.slots]
    simp only [SchedSystem.create, List.map_append, List.map_cons, List.map_nil]
  · rw [List.range_succ, List.map_append, ← filled.pids]
    simp only [SchedSystem.create, List.map_append, List.map_cons, List.map_nil]
    rw [created.pid, filled.next, number]
  · rw [created.nextPid, filled.next, BitVec.ofNat_add (count + 1) 1]
    rfl
  · intro process member
    simp only [SchedSystem.create, List.mem_append, List.mem_singleton] at member
    rcases member with old | rfl
    · exact (filled.kept (Nat.le_refl _) created keeps process old).2.1.trans
        (filled.stored process old)
    · rfl
  · intro i above small
    rw [created.others i (Nat.ne_of_gt above)]
    split
    · rfl
    · exact filled.rest i (Nat.le_of_succ_le above) small

/-- A dispatch step changes states and contexts only. -/
theorem Filled.visit (filled : system.Filled count) {i : Nat} {sched : Sched}
    (visited : system.sched.visit nullContext i = .done sched) :
    Filled ⟨sched, system.existing⟩ count := by
  rw [Sched.visit] at visited
  split at visited
  · split at visited
    · cases visited
    · cases visited
      refine ⟨filled.bounded, filled.slots, filled.pids, filled.next, ?_, ?_⟩
      · intro process member
        rw [← filled.stored process member]
        simp only [Sched.setProcess, Function.update_apply]
        split
        next here => rw [here]
        next => rfl
      · intro j above small
        simp only [Sched.setProcess, Function.update_apply]
        split
        · rfl
        · exact filled.rest j above small
  · cases visited
    exact filled

/-- A careful step keeps the slots filled in order. -/
theorem Filled.step (filled : system.Filled count) {op : SchedOp} (careful : system.Careful op)
    (stepped : system.step nullContext op = .done next) : ∃ count, next.Filled count := by
  cases op with
  | setup testTask kmalloc =>
      have entered : system.sched.currentProcess ≠ none := careful
      rw [SchedSystem.step, Sched.setup, if_pos entered] at stepped
      cases stepped
  | alloc kmalloc =>
      have found := filled.findUnused careful.idle
      have slot := Sched.allocProcess_fst system.sched kmalloc
      rw [SchedSystem.step] at stepped
      split at found
      next room =>
        have keeps := keeps_of_careful careful found
        have created := (Sched.allocated_allocProcess found kmalloc).toCreated
        rw [found] at slot
        generalize system.sched.allocProcess kmalloc = result at stepped created slot
        obtain ⟨_, allocated⟩ := result
        cases slot
        cases stepped
        exact ⟨count + 1, filled.create room created keeps⟩
      next full =>
        unfold Sched.allocProcess at stepped
        rw [found] at stepped
        cases stepped
        exact ⟨count, filled⟩
  | addTask entry kmalloc =>
      have found := filled.findUnused careful.idle
      rw [SchedSystem.step, Outcome.bind_eq_done] at stepped
      obtain ⟨sched, added, returned⟩ := stepped
      rw [Sched.allocProcess_fst] at returned
      split at found
      next room =>
        rw [found] at returned
        cases returned
        have keeps := keeps_of_careful careful found
        exact ⟨count + 1, filled.create room (Sched.created_addTask found added) keeps⟩
      next full =>
        rw [Sched.addTask_killed found] at added
        cases added
  | visit i =>
      rw [SchedSystem.step, Outcome.bind_eq_done] at stepped
      obtain ⟨sched, visited, returned⟩ := stepped
      cases returned
      exact ⟨count, filled.visit visited⟩

theorem Filled.careful (filled : system.Filled count) {op : SchedOp}
    (calls : system.CallsRespect op) : system.Careful op := by
  cases op with
  | setup testTask kmalloc =>
      intro fresh
      obtain ⟨next, returned⟩ := setup_done system.sched testTask kmalloc fresh
      exact not_allocRespects_idle _ _ _ (calls next returned).1
  | alloc kmalloc => exact ⟨fun _ => filled.not_running calls, filled.keeps calls⟩
  | addTask entry kmalloc => exact ⟨fun _ => filled.not_running calls.1, filled.keeps calls.1⟩
  | visit i => trivial

theorem Filled.callsRespect (filled : system.Filled count) {op : SchedOp}
    (careful : system.Careful op) : system.CallsRespect op := by
  cases op with
  | setup testTask kmalloc =>
      intro next returned
      have entered : system.sched.currentProcess ≠ none := careful
      rw [Sched.setup, if_pos entered] at returned
      cases returned
  | alloc kmalloc => exact filled.allocRespects careful
  | addTask entry kmalloc =>
      refine ⟨filled.allocRespects careful, ?_⟩
      intro next added
      have found := filled.findUnused careful.idle
      split at found
      · exact filled.kept (Nat.le_refl _) (Sched.created_addTask found added)
          (keeps_of_careful careful found)
      · rw [Sched.addTask_killed found] at added
        cases added
  | visit i => trivial

/-- Along a run whose slots have been filled in order so far. -/
theorem Filled.exclusive_iff (filled : system.Filled count) (ops : List SchedOp) :
    system.Exclusive nullContext ops ↔ Along (SchedSystem.step nullContext) Careful system ops := by
  induction ops generalizing system count with
  | nil => exact ⟨fun _ => trivial, fun _ => ⟨filled.distinct, trivial⟩⟩
  | cons op ops ih =>
      constructor
      · intro exclusive
        have careful := filled.careful exclusive.calls.1
        refine ⟨careful, ?_⟩
        intro next stepped
        obtain ⟨more, nextFilled⟩ := filled.step careful stepped
        exact (ih nextFilled).mp
          ⟨exclusive.distinct.2 next stepped, exclusive.calls.2 next stepped⟩
      · rintro ⟨careful, later⟩
        have rest : ∀ next, system.step nullContext op = .done next →
            next.Exclusive nullContext ops := by
          intro next stepped
          obtain ⟨more, nextFilled⟩ := filled.step careful stepped
          exact (ih nextFilled).mpr (later next stepped)
        exact ⟨⟨filled.distinct, fun next stepped => (rest next stepped).distinct⟩,
          ⟨filled.callsRespect careful, fun next stepped => (rest next stepped).calls⟩⟩

end SchedSystem

/-- Process slots are exclusive exactly in those runs that never create a process while one
is running, never clear the table for a stack once there is a process, and never complete the
setup of `scheduler_init`. -/
theorem slots_exclusive_iff_careful (nullContext : Option Context) (ops : List SchedOp) :
    SchedSystem.Exclusive nullContext ⟨.zeroed, []⟩ ops ↔
      Along (SchedSystem.step nullContext) SchedSystem.Careful ⟨.zeroed, []⟩ ops :=
  SchedSystem.filled_zeroed.exclusive_iff ops

/-- The setup of `scheduler_init` gives the slot of the idle process to the test task. -/
theorem setup_overwrites_idle :
    ∃ system, SchedSystem.step none ⟨.zeroed, []⟩ (.setup 0x400000 ⟨0x100000, true⟩) =
        .done system ∧
      system.existing.map Process.slot = [0, 0] ∧
      ¬ SchedSystem.Exclusive none ⟨.zeroed, []⟩ [.setup 0x400000 ⟨0x100000, true⟩] := by
  obtain ⟨sched, returned⟩ := SchedSystem.setup_done .zeroed 0x400000 ⟨0x100000, true⟩ rfl
  refine ⟨⟨sched, SchedSystem.create [SchedSystem.idleProcess] (some 0) sched⟩, ?_, ?_, ?_⟩
  · rw [SchedSystem.step, returned, Outcome.done_bind, Sched.allocProcess_fst,
      SchedSystem.findUnused_idle]
    rfl
  · rfl
  · intro exclusive
    exact SchedSystem.filled_zeroed.careful exclusive.calls.1 rfl

/-! ## The dispatch loop -/

/-- The loop of `scheduler_init`: the table and the slot that is looked at next. -/
structure SchedLoop where
  sched : Sched
  position : Nat

namespace SchedLoop

variable (nullContext : Option Context)

/-- The slot that the loop dispatches next, going round the table once. -/
def nextReady (loop : SchedLoop) : Option Nat :=
  (List.range' loop.position (procMax - loop.position) ++ List.range loop.position).find?
    fun i => (loop.sched.processList i).state = .ready

/-- One dispatch.  Without a ready process the loop goes round forever.  `_registers` is the
content of the registers that are switched out. -/
def step (loop : SchedLoop) (_registers : Context) : Outcome SchedLoop :=
  match loop.nextReady with
  | none => .spinning
  | some i => do
      let sched ← loop.sched.visit nullContext i
      return ⟨sched, i + 1⟩

/-- What a dispatch must do: exactly the current process is running, and the process that
was switched out has its registers saved and is ready again. -/
structure Switched (loop next : SchedLoop) (registers : Context) : Prop where
  running : ∃ current < procMax, next.sched.currentProcess = some current ∧
    ∀ i < procMax, (next.sched.processList i).state = .running ↔ i = current
  saved : ∀ old, loop.sched.currentProcess = some old →
    (loop.sched.processList old).state ≠ .running ∨
      (next.sched.processList old).context = registers ∧
        (next.sched.processList old).state = .ready

/-- A dispatch does not read through the null pointer, and it switches as it must. -/
def DispatchOk (loop : SchedLoop) (registers : Context) : Prop :=
  loop.nextReady ≠ none → loop.sched.currentProcess ≠ none ∧
    ∀ next, loop.step nullContext registers = .done next → Switched loop next registers

/-- Any number of dispatches is fine. -/
def DispatchInvariant (loop : SchedLoop) : Prop :=
  ∀ registers : List Context,
    Along (step nullContext) (DispatchOk nullContext) loop registers

end SchedLoop

/-- The dispatch loop keeps its invariant exactly on tables on which it never dispatches:
with a ready process, the first dispatch reads through the null pointer. -/
theorem dispatch_invariant_iff_none_ready (nullContext : Option Context)
    (processList : Nat → Proc) (nextPid : BitVec 32) :
    SchedLoop.DispatchInvariant nullContext ⟨⟨processList, none, nextPid⟩, 0⟩ ↔
      ∀ i < procMax, (processList i).state ≠ .ready := by
  have noneReady : SchedLoop.nextReady ⟨⟨processList, none, nextPid⟩, 0⟩ = none ↔
      ∀ i < procMax, (processList i).state ≠ .ready := by
    simp [SchedLoop.nextReady, List.find?_eq_none]
  rw [← noneReady]
  constructor
  · intro invariant
    by_contra ready
    obtain ⟨first, -⟩ := invariant [.zero]
    exact (first ready).1 rfl
  · intro idle registers
    cases registers with
    | nil => trivial
    | cons current later =>
        refine ⟨fun ready => absurd idle ready, ?_⟩
        intro next stepped
        rw [SchedLoop.step, idle] at stepped
        cases stepped

/-- A process is ready in the first slot, and no process is current. -/
def oneReady : Sched where
  processList i := if i = 0 then { Proc.zero with state := .ready, pid := 1 } else .zero
  currentProcess := none
  nextPid := 2

/-- The first dispatch of the loop faults on this table. -/
theorem first_dispatch_reads_null :
    SchedLoop.step none ⟨oneReady, 0⟩ .zero = .fault ∧
      ¬ SchedLoop.DispatchInvariant none ⟨oneReady, 0⟩ := by
  have found : SchedLoop.nextReady ⟨oneReady, 0⟩ = some 0 := rfl
  constructor
  · rw [SchedLoop.step, found]
    rfl
  · intro invariant
    obtain ⟨first, -⟩ := invariant [.zero]
    exact (first (by simp [found])).1 rfl

end Lord84
