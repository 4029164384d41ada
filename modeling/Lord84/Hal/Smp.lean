import Lord84.Mm.KmallocSmp

/-!
# Starting the other processors

A model of `src/hal/smp.c`.  `smp_init` hands `ap_init` to every processor and then sets up the
`cpu_state` of its own processor; meanwhile the others run `ap_init`, one at a time under
`ap_init_lock`.  Every processor allocates its `cpu_state` with `kmalloc`, the first one without
the lock.
-/

namespace Lord84

open Theory

/-- What `smp.c` sets on a processor. -/
structure SmpCpu where
  gdtLoaded : Bool
  idtLoaded : Bool
  cr3 : Word
  kernelGsbase : Word
  gsbase : Word
  timerStarted : Bool

/-- All processors, the kernel heap, and who holds `ap_init_lock`. -/
structure Smp (ι : Type) where
  heap : KHeap
  cpu : ι → SmpCpu
  gotoAddress : ι → Bool
  apInitLock : Option ι
  kernelKilled : Bool

/-- `sizeof(cpu_state)` -/
def cpuStateSize : Word := 49246

section Source

variable {ι : Type} [DecidableEq ι]

/-- A processor changes one of its registers. -/
def Smp.setCpu (s : Smp ι) (i : ι) (change : SmpCpu → SmpCpu) : Smp ι :=
  { s with cpu := Function.update s.cpu i (change (s.cpu i)) }

/-- Code that works on the heap only. -/
def Smp.onHeap {α : Type} (code : Code KHeap α) : Code (Smp ι) α :=
  code.within (fun s => s.heap) fun heap s => { s with heap := heap }

/-- `lapic_id` is the first member of the packed `cpu_state`. -/
def Smp.writeLapicId (s : Smp ι) (cpuStruct : Word) (lapicId : BitVec 32) : Smp ι :=
  { s with heap.memory := s.heap.memory.writeLE cpuStruct 4 lapicId.toNat }

/-- `wrmsr(KERNELGSBASE, ...)` and `wrmsr(GSBASE, ...)` -/
def wrmsrCode (i : ι) (cpuStruct : Word) : Code (Smp ι) Unit := do
  Code.write fun s => s.setCpu i fun cpu => { cpu with kernelGsbase := cpuStruct }
  Code.write fun s => s.setCpu i fun cpu => { cpu with gsbase := cpuStruct }

variable (hhdmoffset kernelPageMap : Word) (lapicId : ι → BitVec 32)

/-- `ap_init` from the acquisition of the lock to its release.  `ap_apic_init` is one write here:
the timer belongs to the processor itself, and it is assumed that the call returns, that is, that
`lapic_timer_flag` is free and that the counter of `pmt_delay` gets on. -/
def apInitCode (i : ι) : Code (Smp ι) Bool := do
  Code.write fun s => s.setCpu i fun cpu => { cpu with gdtLoaded := true }
  Code.write fun s => s.setCpu i fun cpu => { cpu with idtLoaded := true }
  Code.write fun s => s.setCpu i fun cpu => { cpu with cr3 := kernelPageMap - hhdmoffset }
  let cr3 ← Code.read fun s => (s.cpu i).cr3
  Code.write fun s => s.setCpu i fun cpu => { cpu with cr3 := cr3 }
  let cpuStruct ← Smp.onHeap (kmallocCode cpuStateSize)
  Smp.onHeap (memsetCode cpuStruct 0 (List.range cpuStateSize.toNat))
  Code.write fun s => s.writeLapicId cpuStruct (lapicId i)
  wrmsrCode i cpuStruct
  Code.write fun s => s.setCpu i fun cpu => { cpu with timerStarted := true }
  Code.write fun s => { s with apInitLock := none }
  return false

/-- `ap_init` -/
def apInit (i : ι) : Thread (Smp ι) Bool :=
  .await (fun s => s.apInitLock.isNone) (fun s => { s with apInitLock := some i }) <|
    .runs (apInitCode hhdmoffset kernelPageMap lapicId i)

/-- A processor that Limine lets go once its `goto_address` is set. -/
def parked (i : ι) : Thread (Smp ι) Bool :=
  .await (fun s => s.gotoAddress i) id (apInit hhdmoffset kernelPageMap lapicId i)

/-- `cpus[i]->goto_address = &ap_init` -/
def Smp.setGotoAddress (s : Smp ι) (i : ι) : Smp ι :=
  { s with gotoAddress := Function.update s.gotoAddress i true }

/-- The loop of `smp_init` -/
def startCode : List ι → Code (Smp ι) Unit
  | [] => return ()
  | i :: rest => do
      Code.write fun s => s.setGotoAddress i
      startCode rest

/-- `smp_init`, on the processor `bsp`; `first` is `cpus[0]`.  The result says whether the kernel
has been killed. -/
def smpInitCode (cpus : List ι) (bsp first : ι) : Code (Smp ι) Bool := do
  startCode cpus
  let cpuStruct ← Smp.onHeap (kmallocCode cpuStateSize)
  Code.write fun s => s.writeLapicId cpuStruct (lapicId first)
  wrmsrCode bsp cpuStruct
  Code.read fun s => s.kernelKilled

/-- The processors when the first one enters `smp_init`. -/
def smpBooted (cpus : List ι) (bsp first : ι) (initial : Smp ι) : Threads ι (Smp ι) Bool where
  shared := initial
  thread i :=
    if i = bsp then .runs (smpInitCode lapicId cpus bsp first)
    else parked hhdmoffset kernelPageMap lapicId i

end Source

/-! ## What the processors rely on -/

/-- The heap stays collapsed, nobody touches the registers of these processors or the lock while
they hold it, what is written to `GSBASE` is the start of the heap, and no start is taken back. -/
structure SmpKeeps {ι : Type} (kept : ι → Prop) (before after : Smp ι) : Prop where
  heap : HeapMoves before.heap after.heap
  cpu : ∀ i, kept i → after.cpu i = before.cpu i
  owner : ∀ i, kept i → (after.apInitLock = some i ↔ before.apInitLock = some i)
  gsbase : ∀ i, (after.cpu i).gsbase = (before.cpu i).gsbase ∨
    (after.cpu i).gsbase = before.heap.heapAddr
  gotoAddress : ∀ i, before.gotoAddress i = true → after.gotoAddress i = true

/-- All processors but the first one hold the lock while they run. -/
def SmpHeld {ι : Type} (bsp i : ι) (s : Smp ι) : Prop :=
  s.apInitLock = some i ↔ i ≠ bsp

/-- What a processor knows while it runs: its own registers, that it holds the lock unless it is
the first one, and which processors it has started. -/
structure SmpAt {ι : Type} (bsp : ι) (heapAddr : Word) (started : ι → Prop) (i : ι) (cpu : SmpCpu)
    (s : Smp ι) : Prop where
  heap : HeapAt heapAddr s.heap
  held : SmpHeld bsp i s
  cpu : s.cpu i = cpu
  gotoAddress : ∀ j, started j → s.gotoAddress j = true

section Proofs

variable {ι : Type} {bsp i : ι} {heapAddr : Word} {cpu : SmpCpu}
variable {kept started : ι → Prop} {before between after s : Smp ι}

theorem SmpKeeps.refl (kept : ι → Prop) (s : Smp ι) : SmpKeeps kept s s :=
  ⟨.refl _, fun _ _ => rfl, fun _ _ => Iff.rfl, fun _ => Or.inl rfl, fun _ set => set⟩

theorem SmpKeeps.trans (first : SmpKeeps kept before between)
    (second : SmpKeeps kept between after) : SmpKeeps kept before after where
  heap := first.heap.trans second.heap
  cpu i mine := (second.cpu i mine).trans (first.cpu i mine)
  owner i mine := (second.owner i mine).trans (first.owner i mine)
  gsbase i := by
    obtain same | start := second.gsbase i
    · rw [same]
      exact first.gsbase i
    · rw [start, first.heap.heapAddr]
      exact Or.inr rfl
  gotoAddress i set := second.gotoAddress i (first.gotoAddress i set)

/-- What holds of every access holds of a run. -/
theorem SmpKeeps.of_chain
    (chain : Relation.ReflTransGen (fun s t => ∃ i : ι, SmpKeeps (· ≠ i) s t) before after) :
    SmpKeeps (fun _ => False) before after := by
  induction chain with
  | refl => exact .refl _ _
  | tail _ last ih =>
      obtain ⟨i, last⟩ := last
      exact ih.trans ⟨last.heap, fun _ none => none.elim, fun _ none => none.elim, last.gsbase,
        last.gotoAddress⟩

theorem smpKeeps_compatible (ι : Type) :
    Threads.Compatible (fun i : ι => SmpKeeps (· = i)) (fun i => SmpKeeps (· ≠ i)) where
  refl _ := SmpKeeps.refl _
  trans _ _ _ _ := SmpKeeps.trans
  others _ _ _ _ different moves :=
    ⟨moves.heap, fun k same => moves.cpu k (same ▸ different.symm),
      fun k same => moves.owner k (same ▸ different.symm), moves.gsbase, moves.gotoAddress⟩

theorem SmpAt.moved (known : SmpAt bsp heapAddr started i cpu before)
    (moves : SmpKeeps (· = i) before after) : SmpAt bsp heapAddr started i cpu after where
  heap := known.heap.moved moves.heap
  held := (moves.owner i rfl).trans known.held
  cpu := (moves.cpu i rfl).trans known.cpu
  gotoAddress j set := moves.gotoAddress j (known.gotoAddress j set)

/-- Code of one processor among the others. -/
abbrev SmpRelies {α : Type} (bsp i : ι) (post : α → Smp ι → Prop) (code : Code (Smp ι) α)
    (s : Smp ι) : Prop :=
  code.Relies (SmpKeeps (· = i)) (SmpKeeps (· ≠ i)) (SmpHeld bsp i) post s

theorem SmpAt.onHeap {α : Type} {post : α → KHeap → Prop} {code : Code KHeap α}
    (known : SmpAt bsp heapAddr started i cpu s) (relies : Code.OnHeap post code s.heap) :
    SmpRelies bsp i (fun result s => SmpAt bsp heapAddr started i cpu s ∧ post result s.heap)
      (Smp.onHeap code) s := by
  refine Code.Relies.within (SmpAt bsp heapAddr started i cpu) relies ?_ ?_ ?_ ?_ known
  · exact fun before after here moves => ⟨here.moved moves, moves.heap⟩
  · exact fun state here _ => here.held
  · intro state next here _ moves
    exact ⟨⟨moves, fun _ _ => rfl, fun _ _ => Iff.rfl, fun _ => Or.inl rfl, fun _ set => set⟩,
      ⟨here.heap.moved moves, here.held, here.cpu, here.gotoAddress⟩, rfl⟩
  · exact fun result state here holds => ⟨here, holds⟩

theorem SmpAt.writeLapicId (known : SmpAt bsp heapAddr started i cpu s) (cpuStruct : Word)
    (lapicId : BitVec 32) :
    SmpKeeps (· ≠ i) s (s.writeLapicId cpuStruct lapicId) ∧
      SmpAt bsp heapAddr started i cpu (s.writeLapicId cpuStruct lapicId) :=
  ⟨⟨.memory _ _, fun _ _ => rfl, fun _ _ => Iff.rfl, fun _ => Or.inl rfl, fun _ set => set⟩,
    known.heap.moved (.memory _ _), known.held, known.cpu, known.gotoAddress⟩

variable [DecidableEq ι]

theorem SmpAt.setCpu (known : SmpAt bsp heapAddr started i cpu s) {change : SmpCpu → SmpCpu}
    (gsbase : (change cpu).gsbase = cpu.gsbase ∨ (change cpu).gsbase = heapAddr) :
    SmpKeeps (· ≠ i) s (s.setCpu i change) ∧
      SmpAt bsp heapAddr started i (change cpu) (s.setCpu i change) := by
  have mine : (s.setCpu i change).cpu i = change cpu := by
    rw [← known.cpu]
    exact Function.update_self ..
  have theirs : ∀ j, j ≠ i → (s.setCpu i change).cpu j = s.cpu j :=
    fun j other => Function.update_of_ne other ..
  refine ⟨⟨.refl _, theirs, fun _ _ => Iff.rfl, fun j => ?_, fun _ set => set⟩,
    known.heap, known.held, mine, known.gotoAddress⟩
  by_cases same : j = i
  · subst same
    rw [mine, known.cpu, known.heap.start]
    exact gsbase
  · rw [theirs j same]
    exact Or.inl rfl

/-- Code that goes on after a processor has changed a register of its own. -/
theorem SmpAt.setCpu_bind {α : Type} {post : α → Smp ι → Prop} {rest : Unit → Code (Smp ι) α}
    (known : SmpAt bsp heapAddr started i cpu s) {change : SmpCpu → SmpCpu}
    (gsbase : (change cpu).gsbase = cpu.gsbase ∨ (change cpu).gsbase = heapAddr)
    (continues : ∀ next, SmpAt bsp heapAddr started i (change cpu) next →
      SmpRelies bsp i post (rest ()) next) :
    SmpRelies bsp i post (Code.write (fun s => s.setCpu i change) >>= rest) s := by
  refine Code.Relies.write_bind fun moved moves => ?_
  have here := known.moved moves
  obtain ⟨allowed, next⟩ := here.setCpu gsbase
  exact ⟨here.held, allowed, continues _ next⟩

/-- After `wrmsrCode` the processor finds its `cpu_state` where it has been told. -/
theorem SmpAt.wrmsr (known : SmpAt bsp heapAddr started i cpu s) :
    SmpRelies bsp i (fun _ s =>
        SmpAt bsp heapAddr started i { cpu with kernelGsbase := heapAddr, gsbase := heapAddr } s)
      (wrmsrCode i heapAddr) s := by
  refine known.setCpu_bind (Or.inl rfl) fun next here => ?_
  refine here.setCpu_bind (Or.inr rfl) fun last here => ?_
  exact fun moved moves => here.moved moves

/-- The state of a processor that has come through `ap_init`. -/
def apInitialized (hhdmoffset kernelPageMap heapAddr : Word) : SmpCpu where
  gdtLoaded := true
  idtLoaded := true
  cr3 := kernelPageMap - hhdmoffset
  kernelGsbase := heapAddr
  gsbase := heapAddr
  timerStarted := true

variable (hhdmoffset kernelPageMap : Word) (lapicId : ι → BitVec 32)

theorem SmpAt.apInit (known : SmpAt bsp heapAddr started i cpu s) (other : i ≠ bsp) :
    SmpRelies bsp i (fun _ s => s.cpu i = apInitialized hhdmoffset kernelPageMap heapAddr ∧
        s.apInitLock ≠ some i)
      (apInitCode hhdmoffset kernelPageMap lapicId i) s := by
  refine known.setCpu_bind (Or.inl rfl) fun next here => ?_
  refine here.setCpu_bind (Or.inl rfl) fun next here => ?_
  refine here.setCpu_bind (Or.inl rfl) fun next here => ?_
  refine Code.Relies.read_bind fun next moves => ?_
  have here := here.moved moves
  refine ⟨here.held, .refl _ next, ?_⟩
  rw [here.cpu]
  refine here.setCpu_bind (Or.inl rfl) fun next here => ?_
  refine Code.Relies.bind (SmpKeeps.refl _)
    (here.onHeap (kmallocCode_onHeap cpuStateSize here.heap)) fun cpuStruct next known => ?_
  obtain ⟨here, -, rfl⟩ := known
  refine Code.Relies.bind (SmpKeeps.refl _)
    (here.onHeap (memsetCode_onHeap _ 0 _ here.heap)) fun _ next known => ?_
  have here := known.1
  refine Code.Relies.write_bind fun next moves => ?_
  have here := here.moved moves
  obtain ⟨allowed, named⟩ := here.writeLapicId cpuStruct (lapicId i)
  refine ⟨here.held, allowed, ?_⟩
  refine Code.Relies.bind (SmpKeeps.refl _) named.wrmsr fun _ next here => ?_
  refine here.setCpu_bind (Or.inl rfl) fun next here => ?_
  refine Code.Relies.write_bind fun next moves => ?_
  have here := here.moved moves
  refine ⟨here.held, ⟨.refl _, fun _ _ => rfl, fun j theirs => ?_, fun _ => Or.inl rfl,
    fun _ set => set⟩, ?_⟩
  · have mine := here.held.mpr other
    constructor
    · intro free
      cases free
    · intro taken
      rw [mine] at taken
      exact absurd (Option.some.inj taken).symm theirs
  · intro moved moves
    refine ⟨(moves.cpu i rfl).trans here.cpu, fun taken => ?_⟩
    cases (moves.owner i rfl).mp taken

theorem Smp.gotoAddress_setGotoAddress (s : Smp ι) (i j : ι) :
    (s.setGotoAddress i).gotoAddress j = true ↔ j = i ∨ s.gotoAddress j = true := by
  by_cases same : j = i
  · simp only [setGotoAddress, same, Function.update_self, true_or]
  · simp only [setGotoAddress, Function.update_of_ne same, same, false_or]

theorem SmpAt.start (known : SmpAt bsp heapAddr started bsp cpu s) (cpus : List ι) :
    SmpRelies bsp bsp (fun _ => SmpAt bsp heapAddr (fun i => i ∈ cpus ∨ started i) bsp cpu)
      (startCode cpus) s := by
  induction cpus generalizing s started with
  | nil =>
      intro moved moves
      have here := known.moved moves
      exact ⟨here.heap, here.held, here.cpu, fun j set => here.gotoAddress j (by simpa using set)⟩
  | cons i rest ih =>
      refine Code.Relies.write_bind fun next moves => ?_
      have here := known.moved moves
      refine ⟨here.held, ⟨.refl _, fun _ _ => rfl, fun _ _ => Iff.rfl, fun _ => Or.inl rfl,
        fun j set => ?_⟩, ?_⟩
      · exact (next.gotoAddress_setGotoAddress i j).mpr (Or.inr set)
      · have further : SmpAt bsp heapAddr (fun j => j = i ∨ started j) bsp cpu
            (next.setGotoAddress i) :=
          ⟨here.heap, here.held, here.cpu, fun j set =>
            (next.gotoAddress_setGotoAddress i j).mpr (set.imp_right (here.gotoAddress j))⟩
        have rests := ih further
        simp only [List.mem_cons, or_assoc]
        simpa only [or_left_comm] using rests

/-- What holds once a processor is done: its registers are set, the lock is free of it, and the
first one has started all others. -/
structure SmpDone (hhdmoffset kernelPageMap heapAddr : Word) (cpus : List ι) (bsp : ι)
    (initial : Smp ι) (i : ι) (s : Smp ι) : Prop where
  cpu : s.cpu i =
    if i = bsp then { initial.cpu bsp with kernelGsbase := heapAddr, gsbase := heapAddr }
    else apInitialized hhdmoffset kernelPageMap heapAddr
  released : s.apInitLock ≠ some i
  started : i = bsp → ∀ j ∈ cpus, s.gotoAddress j = true

theorem SmpAt.smpInit {initial : Smp ι}
    (known : SmpAt bsp heapAddr started bsp (initial.cpu bsp) s) (cpus : List ι) (first : ι) :
    SmpRelies bsp bsp
      (fun _ => SmpDone hhdmoffset kernelPageMap heapAddr cpus bsp initial bsp)
      (smpInitCode lapicId cpus bsp first) s := by
  refine Code.Relies.bind (SmpKeeps.refl _) (known.start cpus) fun _ next here => ?_
  refine Code.Relies.bind (SmpKeeps.refl _)
    (here.onHeap (kmallocCode_onHeap cpuStateSize here.heap)) fun cpuStruct next known => ?_
  obtain ⟨here, -, rfl⟩ := known
  refine Code.Relies.write_bind fun next moves => ?_
  have here := here.moved moves
  obtain ⟨allowed, named⟩ := here.writeLapicId cpuStruct (lapicId first)
  refine ⟨here.held, allowed, ?_⟩
  refine Code.Relies.bind (SmpKeeps.refl _) named.wrmsr fun _ next here => ?_
  refine fun next moves => ⟨(here.moved moves).held, .refl _ next, fun last further => ?_⟩
  have here := (here.moved moves).moved further
  exact ⟨by rw [if_pos rfl, here.cpu], fun taken => here.held.mp taken rfl,
    fun _ j member => here.gotoAddress j (Or.inl member)⟩

/-- Each processor does what the others rely on, from the start. -/
theorem smpBooted_relies (cpus : List ι) (bsp first : ι) (initial : Smp ι)
    (heap : HeapAt heapAddr initial.heap) (unlocked : initial.apInitLock = none) :
    Threads.Relies (fun i : ι => SmpKeeps (· = i)) (fun i => SmpKeeps (· ≠ i))
      (fun i s => s.apInitLock ≠ some i) (SmpHeld bsp)
      (fun i _ => SmpDone hhdmoffset kernelPageMap heapAddr cpus bsp initial i)
      (smpBooted hhdmoffset kernelPageMap lapicId cpus bsp first initial) := by
  intro i
  by_cases same : i = bsp
  · subst same
    have known : SmpAt i heapAddr (fun _ => False) i (initial.cpu i) initial :=
      ⟨heap, by simp [SmpHeld, unlocked], rfl, fun _ none => none.elim⟩
    simp only [smpBooted, if_true]
    exact known.smpInit hhdmoffset kernelPageMap lapicId cpus first
  · have free : initial.apInitLock ≠ some i := by
      rw [unlocked]
      exact nofun
    simp only [smpBooted, if_neg same]
    intro released moves
    have outside : released.apInitLock ≠ some i := fun taken => free ((moves.owner i rfl).mp taken)
    refine ⟨outside, fun _ => ⟨.refl _ released, fun entered further => ?_⟩⟩
    refine ⟨fun taken => outside ((further.owner i rfl).mp taken), fun ready => ?_⟩
    have lock : entered.apInitLock = none := by simpa using ready
    refine ⟨⟨.refl _, fun _ _ => rfl, fun j theirs => ?_, fun _ => Or.inl rfl, fun _ set => set⟩,
      ?_⟩
    · rw [lock]
      constructor
      · exact fun mine => absurd (Option.some.inj mine).symm theirs
      · intro none
        cases none
    · have known : SmpAt bsp heapAddr (fun _ => False) i (entered.cpu i)
          { entered with apInitLock := some i } :=
        ⟨(heap.moved moves.heap).moved further.heap, by simp [SmpHeld, same], rfl,
          fun _ none => none.elim⟩
      refine (known.apInit hhdmoffset kernelPageMap lapicId same).weaken ?_
      rintro result ended ⟨cpu, free⟩
      exact ⟨by rw [if_neg same, cpu], free, fun first => absurd first same⟩

/-! ## Getting through -/

/-- What a processor still has to do in a reached state. -/
def SmpShape (bsp i : ι) (thread : Thread (Smp ι) Bool) : Prop :=
  (∃ code, thread = .runs code) ∨ i ≠ bsp ∧
    (thread = apInit hhdmoffset kernelPageMap lapicId i ∨
      thread = parked hhdmoffset kernelPageMap lapicId i)

variable {hhdmoffset kernelPageMap lapicId} {m later : Threads ι (Smp ι) Bool}

theorem smpShape_steps (steps : Threads.Steps m later)
    (shape : ∀ i, SmpShape hhdmoffset kernelPageMap lapicId bsp i (m.thread i)) (i : ι) :
    SmpShape hhdmoffset kernelPageMap lapicId bsp i (later.thread i) := by
  induction steps generalizing i with
  | refl => exact shape i
  | tail before step ih =>
      cases step with
      | access j runs =>
          by_cases same : i = j
          · subst same
            exact Or.inl ⟨_, Function.update_self ..⟩
          · simpa only [Threads.advance, Function.update_of_ne same] using ih i
      | enter j waits =>
          by_cases same : i = j
          · subst same
            simp only [Threads.advance, Function.update_self]
            obtain ⟨code, runs⟩ | ⟨other, entering | starting⟩ := ih i
            · rw [runs] at waits
              cases waits
            · rw [entering] at waits
              cases waits
              exact Or.inl ⟨_, rfl⟩
            · rw [starting] at waits
              cases waits
              exact Or.inr ⟨other, Or.inl rfl⟩
          · simpa only [Threads.advance, Function.update_of_ne same] using ih i

/-- A reached state: everyone does what is relied on. -/
structure SmpReached (hhdmoffset kernelPageMap : Word) (lapicId : ι → BitVec 32) (heapAddr : Word)
    (cpus : List ι) (bsp : ι) (initial : Smp ι) (m : Threads ι (Smp ι) Bool) : Prop where
  relies : Threads.Relies (fun i : ι => SmpKeeps (· = i)) (fun i => SmpKeeps (· ≠ i))
    (fun i s => s.apInitLock ≠ some i) (SmpHeld bsp)
    (fun i _ => SmpDone hhdmoffset kernelPageMap heapAddr cpus bsp initial i) m
  shape : ∀ i, SmpShape hhdmoffset kernelPageMap lapicId bsp i (m.thread i)

/-- A processor has come to the end of its code. -/
def Finished (m : Threads ι (Smp ι) Bool) (i : ι) : Prop :=
  ∃ result, m.thread i = .runs (.ret result)

variable {cpus : List ι} {initial : Smp ι}

namespace SmpReached

theorem steps (reached : SmpReached hhdmoffset kernelPageMap lapicId heapAddr cpus bsp initial m)
    (steps : Threads.Steps m later) :
    SmpReached hhdmoffset kernelPageMap lapicId heapAddr cpus bsp initial later :=
  ⟨(reached.relies.steps (smpKeeps_compatible ι) steps).1, smpShape_steps steps reached.shape⟩

theorem done (reached : SmpReached hhdmoffset kernelPageMap lapicId heapAddr cpus bsp initial m)
    (finished : Finished m i) :
    SmpDone hhdmoffset kernelPageMap heapAddr cpus bsp initial i m.shared := by
  obtain ⟨result, ended⟩ := finished
  exact reached.relies.finished (smpKeeps_compatible ι) ended

/-- A running processor can finish, and then the lock is free. -/
theorem finish_running
    (reached : SmpReached hhdmoffset kernelPageMap lapicId heapAddr cpus bsp initial m)
    {code : Code (Smp ι) Bool} (runs : m.thread i = .runs code)
    (owner : ∀ j, m.shared.apInitLock = some j → j = i) :
    ∃ later, Threads.Steps m later ∧ Finished later i ∧ later.shared.apInitLock = none := by
  have complete := Threads.Steps.complete runs
  let later := m.advance i (code.run m.shared).2 (.runs (.ret (code.run m.shared).1))
  have finished : Finished later i := ⟨_, Function.update_self ..⟩
  refine ⟨later, complete, finished, ?_⟩
  have mine := reached.relies i
  rw [runs] at mine
  have moves : SmpKeeps (· ≠ i) m.shared later.shared :=
    mine.run (SmpKeeps.refl _) (SmpKeeps.refl _) fun _ _ _ => SmpKeeps.trans
  have released := ((reached.steps complete).done finished).released
  cases lock : later.shared.apInitLock with
  | none => rfl
  | some j =>
      have other : j ≠ i := by
        rintro rfl
        exact released lock
      exact absurd (owner j ((moves.owner j other).mp lock)) other

/-- The lock can always become free. -/
theorem release
    (reached : SmpReached hhdmoffset kernelPageMap lapicId heapAddr cpus bsp initial m) :
    ∃ later, Threads.Steps m later ∧ later.shared.apInitLock = none := by
  cases lock : m.shared.apInitLock with
  | none => exact ⟨m, .refl, lock⟩
  | some i =>
      have runs : ∃ code, m.thread i = .runs code := by
        cases thread : m.thread i with
        | runs code => exact ⟨code, rfl⟩
        | await ready effect next =>
            exact absurd lock (reached.relies.awaiting (smpKeeps_compatible ι) thread)
      obtain ⟨code, runs⟩ := runs
      obtain ⟨later, steps, -, free⟩ := reached.finish_running runs fun j owner =>
        Option.some.inj (owner.symm.trans lock)
      exact ⟨later, steps, free⟩

/-- A processor at the lock can finish. -/
theorem finish_entering
    (reached : SmpReached hhdmoffset kernelPageMap lapicId heapAddr cpus bsp initial m)
    (free : m.shared.apInitLock = none)
    (entering : m.thread i = apInit hhdmoffset kernelPageMap lapicId i) :
    ∃ later, Threads.Steps m later ∧ Finished later i := by
  let entered := m.advance i { m.shared with apInitLock := some i }
    (.runs (apInitCode hhdmoffset kernelPageMap lapicId i))
  have enter : Threads.Steps m entered := .single (.enter i entering (by rw [free]; rfl))
  obtain ⟨later, steps, finished, -⟩ := (reached.steps enter).finish_running
    (Function.update_self ..) fun j owner => (Option.some.inj owner).symm
  exact ⟨later, enter.trans steps, finished⟩

/-- Once the first processor is done, every processor it has started can finish. -/
theorem finish_started
    (reached : SmpReached hhdmoffset kernelPageMap lapicId heapAddr cpus bsp initial m)
    (started : Finished m bsp) (member : i ∈ cpus) :
    ∃ later, Threads.Steps m later ∧ Finished later i := by
  obtain ⟨released, steps, free⟩ := reached.release
  have still := reached.steps steps
  obtain ⟨code, runs⟩ | ⟨other, entering | waiting⟩ := still.shape i
  · obtain ⟨later, further, finished, -⟩ := still.finish_running runs fun j owner => by
      rw [free] at owner
      cases owner
    exact ⟨later, steps.trans further, finished⟩
  · obtain ⟨later, further, finished⟩ := still.finish_entering free entering
    exact ⟨later, steps.trans further, finished⟩
  · obtain ⟨result, ended⟩ := started
    have set := (still.done ⟨result, steps.finished ended⟩).started rfl i member
    let called := released.advance i released.shared
      (apInit hhdmoffset kernelPageMap lapicId i)
    have call : Threads.Steps released called := .single (.enter i waiting set)
    obtain ⟨later, further, finished⟩ := (still.steps call).finish_entering free
      (Function.update_self ..)
    exact ⟨later, (steps.trans call).trans further, finished⟩

/-- All processors can finish. -/
theorem finish_all
    (reached : SmpReached hhdmoffset kernelPageMap lapicId heapAddr cpus bsp initial m) :
    ∃ later, Threads.Steps m later ∧ Finished later bsp ∧ ∀ i ∈ cpus, Finished later i := by
  obtain ⟨code, runs⟩ | ⟨other, -⟩ := reached.shape bsp
  · have complete := Threads.Steps.complete runs
    have finished : Finished (m.advance bsp (code.run m.shared).2
        (.runs (.ret (code.run m.shared).1))) bsp := ⟨_, Function.update_self ..⟩
    have some : ∀ wanted : List ι, (∀ i ∈ wanted, i ∈ cpus) →
        ∃ later, Threads.Steps m later ∧ Finished later bsp ∧ ∀ i ∈ wanted, Finished later i := by
      intro wanted known
      induction wanted with
      | nil => exact ⟨_, complete, finished, nofun⟩
      | cons i rest ih =>
          obtain ⟨between, steps, ⟨result, ended⟩, others⟩ :=
            ih fun j member => known j (List.mem_cons_of_mem i member)
          obtain ⟨later, further, mine⟩ := (reached.steps steps).finish_started ⟨result, ended⟩
            (known i List.mem_cons_self)
          refine ⟨later, steps.trans further, ⟨result, further.finished ended⟩, ?_⟩
          intro j member
          obtain rfl | earlier := List.mem_cons.mp member
          · exact mine
          · obtain ⟨value, ended⟩ := others j earlier
            exact ⟨value, further.finished ended⟩
    exact some cpus fun i member => member
  · exact absurd rfl other

end SmpReached

end Proofs

/-- `smp_init` and `ap_init` on any number of processors, in any interleaving of their accesses.
No two processors are in `ap_init` at once, and all of them can always finish.  But `kmalloc`
gives each of them the start of the heap: whoever has finished finds its `cpu_state` there, so
that all processors share one. -/
theorem smp_cpu_structs_shared {ι : Type} [DecidableEq ι] (hhdmoffset kernelPageMap : Word)
    (lapicId : ι → BitVec 32) (base heapAddr : Word) (behind : Nat → Block) (memory : Memory)
    (cpus : List ι) (bsp first : ι) (initial : Smp ι)
    (booted : kernelHeapInit base heapAddr behind memory = .done initial.heap)
    (unlocked : initial.apInitLock = none) (m : Threads ι (Smp ι) Bool)
    (run : Threads.Steps (smpBooted hhdmoffset kernelPageMap lapicId cpus bsp first initial) m) :
    (∀ i j (code other : Code (Smp ι) Bool), i ≠ bsp → j ≠ bsp →
      m.thread i = .runs code → code.Running → m.thread j = .runs other → other.Running → i = j) ∧
    (∃ later, Threads.Steps m later ∧ Finished later bsp ∧ ∀ i ∈ cpus, Finished later i) ∧
    (∀ i, (m.shared.cpu i).gsbase = (initial.cpu i).gsbase ∨
      (m.shared.cpu i).gsbase = heapAddr) ∧
    (∀ i, Finished m i → m.shared.cpu i =
      if i = bsp then { initial.cpu bsp with kernelGsbase := heapAddr, gsbase := heapAddr }
      else apInitialized hhdmoffset kernelPageMap heapAddr) := by
  have placed := heapAt_initial booted
  have relies := smpBooted_relies hhdmoffset kernelPageMap lapicId cpus bsp first initial placed
    unlocked
  have start : SmpReached hhdmoffset kernelPageMap lapicId heapAddr cpus bsp initial
      (smpBooted hhdmoffset kernelPageMap lapicId cpus bsp first initial) := by
    refine ⟨relies, fun i => ?_⟩
    by_cases same : i = bsp
    · exact Or.inl ⟨_, if_pos same⟩
    · exact Or.inr ⟨same, Or.inr (if_neg same)⟩
  have compatible := smpKeeps_compatible ι
  have reached := start.steps run
  refine ⟨?_, reached.finish_all, ?_, fun i finished => (reached.done finished).cpu⟩
  · intro i j code other notFirst notFirst' runs running runs' running'
    have mine := (reached.relies.running compatible runs running).mpr notFirst
    have theirs := (reached.relies.running compatible runs' running').mpr notFirst'
    exact Option.some.inj (mine.symm.trans theirs)
  · intro i
    have moved := SmpKeeps.of_chain (relies.steps compatible run).2
    rw [← placed.start]
    exact moved.gsbase i

/-- Two processors, and one `cpu_state`. -/
theorem smp_cpu_structs_shared_two :
    ∃ (initial : Smp Bool) (m : Threads Bool (Smp Bool) Bool),
      Threads.Steps
        (smpBooted 0 0x2000 (fun i => if i then 0 else 1) [true, false] true true initial) m ∧
      Finished m true ∧ Finished m false ∧
      (m.shared.cpu true).gsbase = 0x100000 ∧ (m.shared.cpu false).gsbase = 0x100000 := by
  obtain ⟨heap, booted⟩ : ∃ heap, kernelHeapInit 0x1000 0x100000
      (fun _ => ⟨0, 0, false⟩) (fun _ => 0) = .done heap := ⟨_, rfl⟩
  let initial : Smp Bool :=
    ⟨heap, fun _ => ⟨false, false, 0, 0, 0, false⟩, fun _ => false, none, false⟩
  let lapicId : Bool → BitVec 32 := fun i => if i then 0 else 1
  obtain ⟨-, ⟨m, run, first, others⟩, -⟩ := smp_cpu_structs_shared 0 0x2000 lapicId 0x1000 0x100000
    _ _ [true, false] true true initial booted rfl _ .refl
  have second := others false (by decide)
  obtain ⟨-, -, -, done⟩ := smp_cpu_structs_shared 0 0x2000 lapicId 0x1000 0x100000
    _ _ [true, false] true true initial booted rfl m run
  refine ⟨initial, m, run, first, second, ?_, ?_⟩
  · rw [done true first]
    rfl
  · rw [done false second]
    rfl

end Lord84
