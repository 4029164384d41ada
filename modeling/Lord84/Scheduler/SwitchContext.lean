import Lord84.Theory.X86
import Lord84.Scheduler.Sched
import Mathlib.Tactic.LinearCombination

/-!
# Switching contexts

A model of `switch_context` in `src/scheduler/sched.asm`.  It should store the registers of
its caller in the first context and load those of the second one.  The code stores nothing in
the first context, loads the second one in the wrong order, goes on loading from a stack
that it finds on the way, and ends with a far return.
-/

namespace Lord84

open Theory

/-- `save_context`: the registers that it pushes. -/
def saveContext : List X86.Register :=
  [.rbx, .rsp, .rbp, .r12, .r13, .r14, .r15]

/-- `load_context`: the registers that it pops. -/
def loadContext : List X86.Register :=
  [.r15, .r14, .r13, .r12, .rbp, .rsp, .rbx]

/-- `switch_context` up to its far return. -/
def switchCode : List X86.Instruction :=
  saveContext.map .push ++ [.mov .rdi .rsp, .mov .rsp .rsi] ++ loadContext.map .pop

/-- `switch_context`; its arguments are in `rdi` and `rsi`.  `segment` is what the descriptor
table makes of the selectors. -/
def switchContext (segment : BitVec 16 → X86.CodeSegment) (m : X86.Machine) : X86.FarReturn :=
  X86.retfq segment (X86.execute switchCode m)

/-- `struct context` at an address. -/
def contextAt (memory : Memory) (address : Word) : Context :=
  let field (k : Nat) : Word := memory.read64 (address + BitVec.ofNat 64 (8 * k))
  { rbx := field 0, rsp := field 1, rbp := field 2, r12 := field 3, r13 := field 4,
    r14 := field 5, r15 := field 6, rip := field 7, rflags := field 8 }

/-! ## What a switch is for -/

/-- The callee-saved registers hold the fields of the context that have their names. -/
structure Loaded (context : Context) (registers : X86.Register → Word) : Prop where
  rbx : registers .rbx = context.rbx
  rsp : registers .rsp = context.rsp
  rbp : registers .rbp = context.rbp
  r12 : registers .r12 = context.r12
  r13 : registers .r13 = context.r13
  r14 : registers .r14 = context.r14
  r15 : registers .r15 = context.r15

/-- The context describes the caller of `switch_context`: its registers, its stack pointer with
or without the return address, and where it goes on. -/
structure Saved (context : Context) (caller : X86.Machine) : Prop where
  rbx : context.rbx = caller.registers .rbx
  rsp : context.rsp = caller.registers .rsp ∨ context.rsp = caller.registers .rsp + 8
  rbp : context.rbp = caller.registers .rbp
  r12 : context.r12 = caller.registers .r12
  r13 : context.r13 = caller.registers .r13
  r14 : context.r14 = caller.registers .r14
  r15 : context.r15 = caller.registers .r15
  rip : context.rip = caller.word 0

/-- The kernel goes on in the new context, and the old one describes the caller. -/
def Switches (caller : X86.Machine) (result : X86.FarReturn) : Prop :=
  let new := contextAt caller.memory (caller.registers .rsi)
  ∃ after, result = .sameLevel after new.rip ∧ Loaded new after.registers ∧
    Saved (contextAt after.memory (caller.registers .rdi)) caller

/-- The context lies outside the 56 bytes below the stack pointer, which belong to nobody. -/
def Apart (m : X86.Machine) (address : Word) : Prop :=
  ∀ i < 56, ∀ j < 72, m.registers .rsp - 56 + BitVec.ofNat 64 i ≠ address + BitVec.ofNat 64 j

/-! ## What the code does -/

section Code

variable (m : X86.Machine)

/-- The machine when `load_context` begins. -/
def beforeLoad : X86.Machine :=
  let saved := X86.execute (saveContext.map .push) m
  (saved.set .rdi (saved.registers .rsp)).set .rsp (saved.registers .rsi)

theorem beforeLoad_rsp : (beforeLoad m).registers .rsp = m.registers .rsi := by
  rw [beforeLoad, X86.Machine.set_self, X86.execute_pushes_of_ne m saveContext (by decide)]

theorem beforeLoad_memory {address : Word} (apart : Apart m address) {offset : Nat}
    (inside : offset < 72) :
    (beforeLoad m).memory (address + BitVec.ofNat 64 offset) =
      m.memory (address + BitVec.ofNat 64 offset) := by
  rw [beforeLoad, X86.Machine.set_memory, X86.Machine.set_memory]
  apply X86.execute_pushes_outside
  intro i below
  exact apart i below offset inside

/-- A context away from the stack is not changed. -/
theorem contextAt_beforeLoad {address : Word} (apart : Apart m address) :
    contextAt (beforeLoad m).memory address = contextAt m.memory address := by
  have field : ∀ k < 9, (beforeLoad m).memory.read64 (address + BitVec.ofNat 64 (8 * k)) =
      m.memory.read64 (address + BitVec.ofNat 64 (8 * k)) := by
    intro k small
    apply Memory.read64_congr
    intro offset inside
    rw [BitVec.add_assoc, ← BitVec.ofNat_add]
    exact beforeLoad_memory m apart (by omega)
  rw [contextAt, contextAt, Context.mk.injEq]
  exact ⟨field 0 (by decide), field 1 (by decide), field 2 (by decide), field 3 (by decide),
    field 4 (by decide), field 5 (by decide), field 6 (by decide), field 7 (by decide),
    field 8 (by decide)⟩

/-- The machine when `load_context` has loaded five registers from the new context. -/
theorem popped_beforeLoad :
    X86.Popped [.r15, .r14, .r13, .r12, .rbp] (beforeLoad m)
      (X86.execute ([.r15, .r14, .r13, .r12, .rbp].map .pop) (beforeLoad m)) :=
  X86.execute_pops _ (by decide) (by decide)

/-- What `switch_context` has loaded when it comes to its far return: the field `rsp` in `r14`,
and the stack pointer from the field `r14`. -/
structure BeforeReturn (new : Context) (before after : X86.Machine) : Prop where
  r14 : after.registers .r14 = new.rsp
  rsp : after.registers .rsp = new.r14 + 8
  memory : after.memory = before.memory

theorem beforeReturn :
    BeforeReturn (contextAt (beforeLoad m).memory (m.registers .rsi)) (beforeLoad m)
      (X86.execute switchCode m) := by
  have code : X86.execute switchCode m =
      X86.execute ([.r15, .r14, .r13, .r12, .rbp].map .pop ++ [.pop .rsp, .pop .rbx])
        (beforeLoad m) := by
    rw [switchCode, X86.execute_append, X86.execute_append, beforeLoad]
    generalize X86.execute (saveContext.map .push) m = saved
    rfl
  have popped := popped_beforeLoad m
  have start := beforeLoad_rsp m
  rw [code, X86.execute_append]
  generalize beforeLoad m = loading at popped start ⊢
  generalize X86.execute ([.r15, .r14, .r13, .r12, .rbp].map .pop) loading = loaded at popped ⊢
  have last : X86.execute [.pop .rsp, .pop .rbx] loaded =
      (((loaded.drop 1).set .rsp (loaded.word 0)).drop 1).set .rbx
        (((loaded.drop 1).set .rsp (loaded.word 0)).word 0) := rfl
  rw [last]
  constructor
  · have field : loaded.registers .r14 = loading.word 1 := popped.words 1 (by decide)
    rw [X86.Machine.set_of_ne _ (by decide), X86.Machine.drop_of_ne _ (by decide),
      X86.Machine.set_of_ne _ (by decide), X86.Machine.drop_of_ne _ (by decide), field,
      X86.Machine.word, start]
    rfl
  · have stack := popped.rsp
    rw [X86.Machine.set_of_ne _ (by decide), X86.Machine.drop_rsp, X86.Machine.set_self,
      X86.Machine.word, popped.memory, stack, start, BitVec.add_zero]
    rfl
  · exact popped.memory

/-- A far return changes no memory. -/
theorem memory_of_returned {segment : BitVec 16 → X86.CodeSegment} {after : X86.Machine}
    {rip : Word}
    (returned : switchContext segment m = .sameLevel after rip ∨
      switchContext segment m = .outerLevel after rip) :
    after.memory = (beforeLoad m).memory := by
  rcases returned with same | outer
  · rw [X86.eq_of_retfq_sameLevel same, X86.Machine.drop_memory, (beforeReturn m).memory]
  · rw [X86.eq_of_retfq_outerLevel outer, X86.Machine.set_memory, (beforeReturn m).memory]

end Code

/-- `switch_context` never switches, and it leaves the old context as it was. -/
theorem switch_context_never_switches (segment : BitVec 16 → X86.CodeSegment) (m : X86.Machine)
    (oldApart : Apart m (m.registers .rdi)) (newApart : Apart m (m.registers .rsi)) :
    ¬ Switches m (switchContext segment m) ∧
      ∀ after rip, (switchContext segment m = .sameLevel after rip ∨
          switchContext segment m = .outerLevel after rip) →
        contextAt after.memory (m.registers .rdi) = contextAt m.memory (m.registers .rdi) := by
  constructor
  · rintro ⟨after, returned, loaded, -⟩
    have before := beforeReturn m
    rw [contextAt_beforeLoad m newApart] at before
    have same := X86.eq_of_retfq_sameLevel returned
    have r14 := loaded.r14
    have rsp := loaded.rsp
    rw [same, X86.Machine.drop_of_ne _ (by decide), before.r14] at r14
    rw [same, X86.Machine.drop_rsp, before.rsp, r14] at rsp
    -- The stack pointer should be the value it was loaded from, and is 24 bytes above it.
    have two : BitVec.ofNat 64 (8 * 2) = (16 : Word) := rfl
    rw [two] at rsp
    have zero : (24 : Word) = 0 := by linear_combination rsp
    exact absurd zero (by decide)
  · intro after rip returned
    rw [memory_of_returned m returned, contextAt_beforeLoad m oldApart]

/-- The scheduler at `0x9000` switches from the context at `0xa000` to the one at `0xb000`,
which was saved with its stack at `0x8000`. -/
def schedulerCall : X86.Machine where
  registers
    | .rsp => 0x9000
    | .rdi => 0xa000
    | .rsi => 0xb000
    | _ => 7
  memory := [(0xb000, 1), (0xb008, 0x8000), (0xb010, 2), (0xb018, 3), (0xb020, 4),
    (0xb028, 0x8100), (0xb030, 5), (0xb038, 0x4000), (0x8110, 0x08)].foldl
      (fun memory (write : Word × Word) => memory.write64 write.1 write.2) fun _ => 0

theorem schedulerCall_apart {address : Word} (above : 0x9000 ≤ address) (below : address < 0xf000) :
    Apart schedulerCall address := by
  intro i inside j within equal
  have stack : schedulerCall.registers .rsp = 0x9000 := rfl
  rw [stack] at equal
  bv_omega

/-- The code segments that `set_gdt` installs, seen from the kernel. -/
def gdtSegment (selector : BitVec 16) : X86.CodeSegment :=
  if selector = 0x08 then .sameLevel
  else if selector = 0x1b then .outerLevel
  else .invalid

/-- The call of the scheduler does not switch, and does not save its own context. -/
theorem scheduler_call_not_saved :
    ¬ Switches schedulerCall (switchContext gdtSegment schedulerCall) ∧
      ∀ after rip, (switchContext gdtSegment schedulerCall = .sameLevel after rip ∨
          switchContext gdtSegment schedulerCall = .outerLevel after rip) →
        contextAt after.memory 0xa000 = .zero := by
  obtain ⟨never, kept⟩ := switch_context_never_switches gdtSegment schedulerCall
    (schedulerCall_apart (by decide) (by decide)) (schedulerCall_apart (by decide) (by decide))
  refine ⟨never, ?_⟩
  intro after rip returned
  have empty : contextAt schedulerCall.memory 0xa000 = .zero := by decide +kernel
  exact (kept after rip returned).trans empty

/-- It returns with the field `rbx` of the new context in `r15` and a stack above the one that
its field `r14` happens to point to. -/
theorem context_scrambled :
    ∃ after rip, switchContext gdtSegment schedulerCall = .sameLevel after rip ∧
      after.registers .r15 = 1 ∧ after.registers .rsp = 0x8118 ∧ rip = 0 ∧
      ¬ Switches schedulerCall (switchContext gdtSegment schedulerCall) := by
  let final := X86.execute switchCode schedulerCall
  have selected : gdtSegment ((final.word 1).setWidth 16) = .sameLevel := by decide +kernel
  have returned : switchContext gdtSegment schedulerCall =
      .sameLevel (final.drop 2) (final.word 0) := by
    rw [switchContext, X86.retfq, selected]
  refine ⟨_, _, returned, by decide +kernel, by decide +kernel, by decide +kernel, ?_⟩
  rintro ⟨after, same, loaded, -⟩
  rw [returned] at same
  have machines : final.drop 2 = after := (X86.FarReturn.sameLevel.inj same).1
  have r15 := loaded.r15
  rw [← machines] at r15
  exact absurd r15 (by decide +kernel)

end Lord84
