import Lord84.Theory.X86
import Lord84.Hal.Interrupts
import Mathlib.Tactic.IntervalCases
import Mathlib.Tactic.LinearCombination

/-!
# Interrupt stubs

A model of the stubs and of `isr_handler` in `src/hal/idt.asm`.  The processor pushes where
it was interrupted, and for some vectors an error code.  The stub of a vector makes up for a
missing error code and pushes the vector; `isr_handler` pushes the general registers, so that
the stack holds an `interrupt_frame`, and takes all of it down again after
`interrupt_handler` has returned.
-/

namespace Lord84

open Theory

/-! ## The code -/

/-- A stub that pushes a dummy error code. -/
def stubWithDummy (vector : BitVec 8) : BitVec 8 × List X86.Instruction :=
  (vector, [.pushImmediate 0, .pushImmediate (vector.setWidth 64)])

/-- A stub that relies on the error code of the processor. -/
def stubWithoutDummy (vector : BitVec 8) : BitVec 8 × List X86.Instruction :=
  (vector, [.pushImmediate (vector.setWidth 64)])

/-- `s_isr0` to `s_isr255`, up to their jump to `isr_handler`. -/
def isrStubs : List (BitVec 8 × List X86.Instruction) :=
  [stubWithDummy 0, stubWithDummy 1, stubWithDummy 2, stubWithDummy 3,
    stubWithDummy 4, stubWithDummy 5, stubWithDummy 6, stubWithDummy 7,
    stubWithoutDummy 8, stubWithDummy 9, stubWithoutDummy 10, stubWithoutDummy 11,
    stubWithoutDummy 12, stubWithoutDummy 13, stubWithoutDummy 14, stubWithDummy 15,
    stubWithDummy 16, stubWithDummy 17, stubWithDummy 18, stubWithDummy 19,
    stubWithDummy 20, stubWithDummy 21, stubWithDummy 22, stubWithDummy 23,
    stubWithDummy 24, stubWithDummy 25, stubWithDummy 26, stubWithDummy 27,
    stubWithDummy 28, stubWithDummy 29, stubWithDummy 30, stubWithDummy 31,
    stubWithDummy 44, stubWithDummy 69, stubWithDummy 70, stubWithDummy 255]

/-- The stub of a vector. -/
def sIsr (vector : BitVec 8) : List X86.Instruction :=
  (isrStubs.lookup vector).getD []

/-- `pushaq` -/
def pushaq : List X86.Register :=
  [.rax, .rbx, .rcx, .rdx, .rbp, .rsi, .rdi, .r8, .r9, .r10, .r11, .r12, .r13, .r14, .r15]

/-- `popaq` -/
def popaq : List X86.Register :=
  [.r15, .r14, .r13, .r12, .r11, .r10, .r9, .r8, .rdi, .rsi, .rbp, .rdx, .rcx, .rbx, .rax]

/-- `isr_handler` up to the call of `interrupt_handler`. -/
def isrEntry : List X86.Instruction :=
  pushaq.map .push ++ [.mov .rdi .rsp]

/-- `isr_handler` between that call and `iretq`. -/
def isrExit : List X86.Instruction :=
  popaq.map .pop ++ [.addImmediate .rsp 16]

/-- The fields of `interrupt_frame` in their order, numbered from 0. -/
def InterruptFrame.ofFields (field : Nat → Word) : InterruptFrame where
  r15 := field 0
  r14 := field 1
  r13 := field 2
  r12 := field 3
  r11 := field 4
  r10 := field 5
  r9 := field 6
  r8 := field 7
  rdi := field 8
  rsi := field 9
  rbp := field 10
  rdx := field 11
  rcx := field 12
  rbx := field 13
  rax := field 14
  intNo := field 15
  err := field 16
  rip := field 17
  cs := field 18
  rflags := field 19
  rsp := field 20
  ss := field 21

/-- `interrupt_frame` at an address. -/
def frameAt (memory : Memory) (address : Word) : InterruptFrame :=
  .ofFields fun k => memory.read64 (address + BitVec.ofNat 64 (8 * k))

/-! ## What the stubs are for -/

/-- The vectors for which the processor pushes an error code. -/
def hasErrorCode (vector : BitVec 8) : Bool :=
  [8, 10, 11, 12, 13, 14, 17, 21, 29, 30].contains vector

/-- The vectors whose stub `set_idt` installs. -/
def installedVectors : List (BitVec 8) :=
  (List.range 32).map (BitVec.ofNat 8) ++ [69, 70, 255]

/-- An interrupt comes while the code in `context` runs: the state in which
`interrupt_handler` is called. -/
def enterHandler (vector : BitVec 8) (context : X86.Context) (memory : Memory)
    (top code : Word) : X86.Machine :=
  X86.execute (sIsr vector ++ isrEntry)
    (context.interrupt memory top (if hasErrorCode vector then some code else none))

/-- `interrupt_handler` has returned and has not changed its frame.  Other memory and the
registers may hold anything, apart from the stack pointer. -/
structure KeepsFrame (before after : X86.Machine) : Prop where
  rsp : after.registers .rsp = before.registers .rsp
  frame : frameAt after.memory (before.registers .rdi) =
    frameAt before.memory (before.registers .rdi)

/-- The frame that describes the interrupted code. -/
def frameOf (context : X86.Context) (intNo err : Word) : InterruptFrame where
  r15 := context.registers .r15
  r14 := context.registers .r14
  r13 := context.registers .r13
  r12 := context.registers .r12
  r11 := context.registers .r11
  r10 := context.registers .r10
  r9 := context.registers .r9
  r8 := context.registers .r8
  rdi := context.registers .rdi
  rsi := context.registers .rsi
  rbp := context.registers .rbp
  rdx := context.registers .rdx
  rcx := context.registers .rcx
  rbx := context.registers .rbx
  rax := context.registers .rax
  intNo
  err
  rip := context.rip
  cs := context.cs
  rflags := context.rflags
  rsp := context.registers .rsp
  ss := context.ss

/-- The interrupt does not show: the handler gets the frame of the interrupted code, and when
it leaves that alone, `iretq` finds what the processor pushed from `top` on and restores
everything. -/
structure Transparent (vector : BitVec 8) (context : X86.Context) (memory : Memory)
    (top code : Word) : Prop where
  frame :
    let m := enterHandler vector context memory top code
    frameAt m.memory (m.registers .rdi) =
      frameOf context (vector.setWidth 64) (if hasErrorCode vector then code else 0)
  returns : ∀ after, KeepsFrame (enterHandler vector context memory top code) after →
    (X86.execute isrExit after).registers .rsp = top - 40 ∧
      X86.iretq (X86.execute isrExit after) = context

/-! ## `isr_handler` -/

section Handler

variable (m : X86.Machine)

theorem pushed_pushaq : X86.Pushed pushaq m (X86.execute (pushaq.map .push) m) :=
  X86.execute_pushes m (by decide) (by decide)

theorem popped_popaq : X86.Popped popaq m (X86.execute (popaq.map .pop) m) :=
  X86.execute_pops m (by decide) (by decide)

/-- The call of `interrupt_handler` gets the address of the saved registers. -/
theorem execute_isrEntry :
    X86.execute isrEntry m = (X86.execute (pushaq.map .push) m).set .rdi
      ((X86.execute (pushaq.map .push) m).registers .rsp) := by
  rw [isrEntry, X86.execute_append]
  generalize X86.execute (pushaq.map .push) m = saved
  rfl

theorem isrEntry_rsp : (X86.execute isrEntry m).registers .rsp = m.registers .rsp - 120 := by
  rw [execute_isrEntry, X86.Machine.set_of_ne _ (by decide), (pushed_pushaq m).rsp]
  rfl

theorem isrEntry_rdi :
    (X86.execute isrEntry m).registers .rdi = (X86.execute isrEntry m).registers .rsp := by
  rw [execute_isrEntry, X86.Machine.set_self, X86.Machine.set_of_ne _ (by decide)]

theorem isrEntry_word (k : Nat) :
    (X86.execute isrEntry m).word k = (X86.execute (pushaq.map .push) m).word k := by
  rw [execute_isrEntry, X86.Machine.word_set_of_ne _ (by decide)]

/-- A saved register is a word of the frame. -/
theorem isrEntry_saved (k : Nat) (inside : k < popaq.length) :
    (X86.execute isrEntry m).word k = m.registers popaq[k] := by
  rw [isrEntry_word, (pushed_pushaq m).words k inside]
  exact congrArg m.registers (List.getElem_reverse inside).symm

/-- Behind the registers the frame continues with what was on the stack. -/
theorem isrEntry_below (k : Nat) (small : k < 1000) :
    (X86.execute isrEntry m).word (15 + k) = m.word k := by
  rw [isrEntry_word]
  exact (pushed_pushaq m).below k (by rw [show pushaq.length = 15 from rfl]; omega)

/-- The frame on top of a stack. -/
theorem frameAt_rsp : frameAt m.memory (m.registers .rsp) = .ofFields m.word := rfl

/-- The frame consists of the general registers and what was on the stack. -/
theorem frameAt_isrEntry :
    frameAt (X86.execute isrEntry m).memory ((X86.execute isrEntry m).registers .rdi) =
      frameOf ⟨Function.update m.registers .rsp (m.word 5), m.word 2, m.word 3, m.word 4, m.word 6⟩
        (m.word 0) (m.word 1) := by
  rw [isrEntry_rdi, frameAt_rsp]
  have saved := isrEntry_saved m
  have below := isrEntry_below m
  rw [InterruptFrame.ofFields, frameOf, InterruptFrame.mk.injEq]
  refine ⟨saved 0 (by decide), saved 1 (by decide), saved 2 (by decide), saved 3 (by decide),
    saved 4 (by decide), saved 5 (by decide), saved 6 (by decide), saved 7 (by decide),
    saved 8 (by decide), saved 9 (by decide), saved 10 (by decide), saved 11 (by decide),
    saved 12 (by decide), saved 13 (by decide), saved 14 (by decide), below 0 (by decide),
    below 1 (by decide), below 2 (by decide), below 3 (by decide), below 4 (by decide),
    below 5 (by decide), below 6 (by decide)⟩

theorem execute_isrExit :
    X86.execute isrExit m = (X86.execute (popaq.map .pop) m).set .rsp
      ((X86.execute (popaq.map .pop) m).registers .rsp + 16) := by
  rw [isrExit, X86.execute_append]
  generalize X86.execute (popaq.map .pop) m = restored
  rfl

/-- The exit code takes 17 words from the stack. -/
theorem isrExit_rsp : (X86.execute isrExit m).registers .rsp = m.registers .rsp + 136 := by
  rw [execute_isrExit, X86.Machine.set_self, (popped_popaq m).rsp, BitVec.add_assoc]
  rfl

theorem isrExit_word (k : Nat) : (X86.execute isrExit m).word k = m.word (17 + k) := by
  have memory : (X86.execute isrExit m).memory = m.memory := by
    rw [execute_isrExit]
    exact (popped_popaq m).memory
  rw [X86.Machine.word, memory, isrExit_rsp, BitVec.add_assoc, X86.Machine.word, Nat.mul_add,
    BitVec.ofNat_add]
  rfl

theorem mem_popaq {register : X86.Register} (general : register ≠ .rsp) : register ∈ popaq := by
  cases register <;> first | decide | exact absurd rfl general

theorem isrExit_restored (k : Nat) (inside : k < popaq.length) :
    (X86.execute isrExit m).registers popaq[k] = m.word k := by
  have general : popaq[k] ≠ .rsp := by
    intro equal
    have absent : X86.Register.rsp ∉ popaq := by decide
    exact absent (equal ▸ List.getElem_mem inside)
  rw [execute_isrExit, X86.Machine.set_of_ne _ general, (popped_popaq m).words k inside]

variable {m}

theorem InterruptFrame.ofFields_inj {left right : Nat → Word}
    (same : InterruptFrame.ofFields left = .ofFields right) : ∀ k < 22, left k = right k := by
  rw [InterruptFrame.ofFields, InterruptFrame.ofFields, InterruptFrame.mk.injEq] at same
  obtain ⟨w0, w1, w2, w3, w4, w5, w6, w7, w8, w9, w10, w11, w12, w13, w14, w15, w16, w17, w18, w19,
    w20, w21⟩ := same
  intro k inside
  interval_cases k <;> assumption

/-- Leaving the frame alone leaves every word of it. -/
theorem KeepsFrame.word {before after : X86.Machine} (keeps : KeepsFrame before after)
    (argument : before.registers .rdi = before.registers .rsp) :
    ∀ k < 22, after.word k = before.word k := by
  have same := keeps.frame
  rw [argument, frameAt_rsp before, ← keeps.rsp, frameAt_rsp after] at same
  exact InterruptFrame.ofFields_inj same

/-- After an undisturbed call, the exit code restores the general registers and removes two
more words. -/
theorem isrExit_of_keepsFrame {after : X86.Machine}
    (keeps : KeepsFrame (X86.execute isrEntry m) after) :
    (X86.execute isrExit after).registers .rsp = m.registers .rsp + 16 ∧
      (∀ register, register ≠ .rsp →
        (X86.execute isrExit after).registers register = m.registers register) ∧
      ∀ k < 5, (X86.execute isrExit after).word k = m.word (2 + k) := by
  have words := keeps.word (isrEntry_rdi m)
  refine ⟨?_, ?_, ?_⟩
  · rw [isrExit_rsp, keeps.rsp, isrEntry_rsp]
    bv_omega
  · intro register general
    obtain ⟨k, inside, rfl⟩ := List.getElem_of_mem (mem_popaq general)
    have small : k < 15 := inside
    rw [isrExit_restored after k inside, words k (by omega), isrEntry_saved m k inside]
  · intro k small
    rw [isrExit_word, words (17 + k) (by omega), show 17 + k = 15 + (2 + k) by omega,
      isrEntry_below m (2 + k) (by omega)]

end Handler

/-! ## The stubs -/

/-- The stack that `isr_handler` expects: the vector and an error code over what the processor
pushed from `top` on. -/
structure StubDone (context : X86.Context) (top intNo err : Word) (m : X86.Machine) : Prop where
  rsp : m.registers .rsp = top - 56
  registers : ∀ register, register ≠ .rsp → m.registers register = context.registers register
  intNo : m.word 0 = intNo
  err : m.word 1 = err
  rip : m.word 2 = context.rip
  cs : m.word 3 = context.cs
  rflags : m.word 4 = context.rflags
  stack : m.word 5 = context.registers .rsp
  ss : m.word 6 = context.ss

section Stubs

variable {context : X86.Context} {top intNo err : Word} {m : X86.Machine}

/-- Two more words make the stack that `isr_handler` expects. -/
theorem stubDone_of_interrupted (interrupted : X86.Interrupted context top m) :
    StubDone context top intNo err ((m.push err).push intNo) := by
  have moved : ∀ k < 1000, ((m.push err).push intNo).word (k + 1 + 1) = m.word k := by
    intro k small
    rw [X86.Machine.word_push_succ _ _ (by omega), X86.Machine.word_push_succ _ _ (by omega)]
  constructor
  case rsp =>
    rw [X86.Machine.push_rsp, X86.Machine.push_rsp, interrupted.rsp]
    bv_omega
  case registers =>
    intro register general
    rw [X86.Machine.push_of_ne _ general, X86.Machine.push_of_ne _ general]
    exact interrupted.registers register general
  case intNo => exact X86.Machine.word_push_zero ..
  case err => rw [X86.Machine.word_push_succ _ _ (by decide), X86.Machine.word_push_zero]
  case rip => exact (moved 0 (by decide)).trans interrupted.rip
  case cs => exact (moved 1 (by decide)).trans interrupted.cs
  case rflags => exact (moved 2 (by decide)).trans interrupted.rflags
  case stack => exact (moved 3 (by decide)).trans interrupted.stack
  case ss => exact (moved 4 (by decide)).trans interrupted.ss

/-- On that stack `isr_handler` passes the frame of the interrupted code. -/
theorem StubDone.frame (done : StubDone context top intNo err m) :
    frameAt (X86.execute isrEntry m).memory ((X86.execute isrEntry m).registers .rdi) =
      frameOf context intNo err := by
  rw [frameAt_isrEntry, done.intNo, done.err, done.rip, done.cs, done.rflags, done.stack, done.ss]
  have registers : Function.update m.registers .rsp (context.registers .rsp) =
      context.registers := by
    funext register
    by_cases stack : register = .rsp
    · rw [stack, Function.update_self]
    · rw [Function.update_of_ne stack, done.registers register stack]
  rw [registers]

/-- And when the frame is left alone, `iretq` finds what the processor pushed. -/
theorem StubDone.interrupted (done : StubDone context top intNo err m) {after : X86.Machine}
    (keeps : KeepsFrame (X86.execute isrEntry m) after) :
    X86.Interrupted context top (X86.execute isrExit after) := by
  obtain ⟨rsp, registers, words⟩ := isrExit_of_keepsFrame keeps
  constructor
  case rsp =>
    rw [rsp, done.rsp]
    bv_omega
  case registers =>
    intro register general
    rw [registers register general, done.registers register general]
  case rip => exact (words 0 (by decide)).trans done.rip
  case cs => exact (words 1 (by decide)).trans done.cs
  case rflags => exact (words 2 (by decide)).trans done.rflags
  case stack => exact (words 3 (by decide)).trans done.stack
  case ss => exact (words 4 (by decide)).trans done.ss

end Stubs

/-- What the stubs of the installed vectors push. -/
theorem sIsr_installed {vector : BitVec 8} (installed : vector ∈ installedVectors) :
    sIsr vector =
      if [8, 10, 11, 12, 13, 14].contains vector then
        [.pushImmediate (vector.setWidth 64)]
      else
        [.pushImmediate 0, .pushImmediate (vector.setWidth 64)] := by
  have all : installedVectors.all (fun vector => sIsr vector =
      if [8, 10, 11, 12, 13, 14].contains vector then
        [.pushImmediate (vector.setWidth 64)]
      else
        [.pushImmediate 0, .pushImmediate (vector.setWidth 64)]) = true := by
    decide +kernel
  exact of_decide_eq_true (List.all_eq_true.mp all vector installed)

/-- The exceptions with an error code that the stubs do not know of. -/
def forgotten : List (BitVec 8) := [17, 21, 29, 30]

section Entry

variable (vector : BitVec 8) (context : X86.Context) (memory : Memory) (top code : Word)

theorem enterHandler_eq :
    enterHandler vector context memory top code =
      X86.execute isrEntry (X86.execute (sIsr vector)
        (context.interrupt memory top (if hasErrorCode vector then some code else none))) := by
  rw [enterHandler, X86.execute_append]

variable {vector}

theorem transparent_of_stubDone
    (done : StubDone context top (vector.setWidth 64) (if hasErrorCode vector then code else 0)
      (X86.execute (sIsr vector)
        (context.interrupt memory top (if hasErrorCode vector then some code else none)))) :
    Transparent vector context memory top code := by
  constructor
  · intro m
    simp only [m, enterHandler_eq]
    exact done.frame
  · intro after keeps
    rw [enterHandler_eq] at keeps
    have restored := done.interrupted keeps
    exact ⟨restored.rsp, restored.iretq⟩

/-- A stub that fits its vector. -/
theorem transparent_of_not_forgotten (installed : vector ∈ installedVectors)
    (known : vector ∉ forgotten) : Transparent vector context memory top code := by
  apply transparent_of_stubDone
  have agree : hasErrorCode vector = [8, 10, 11, 12, 13, 14].contains vector := by
    rw [forgotten] at known
    rw [hasErrorCode]
    simp only [List.contains_eq_mem, List.mem_cons, List.not_mem_nil, or_false] at known ⊢
    grind
  rw [sIsr_installed installed, ← agree]
  have interrupted := context.interrupted memory top
  cases hasErrorCode vector with
  | true => exact stubDone_of_interrupted interrupted
  | false => exact stubDone_of_interrupted interrupted

/-- A stub that pushes a dummy over the error code of the processor: `iretq` finds the error
code where it expects the instruction pointer. -/
theorem not_transparent_of_forgotten (missed : vector ∈ forgotten) :
    ¬ Transparent vector context memory top code := by
  have shifted : top - 40 - 8 - 8 - 8 - 120 + 136 ≠ top - 40 := by
    intro equal
    have zero : (8 : Word) = 0 := by linear_combination -equal
    exact absurd zero (by decide)
  have stub : hasErrorCode vector = true ∧
      sIsr vector = [.pushImmediate 0, .pushImmediate (vector.setWidth 64)] := by
    have all : forgotten.all (fun vector => hasErrorCode vector = true ∧
        sIsr vector = [.pushImmediate 0, .pushImmediate (vector.setWidth 64)]) = true := by
      decide +kernel
    exact of_decide_eq_true (List.all_eq_true.mp all vector missed)
  intro transparent
  have undisturbed : KeepsFrame (enterHandler vector context memory top code)
      (enterHandler vector context memory top code) := ⟨rfl, rfl⟩
  have found := (transparent.returns _ undisturbed).1
  rw [enterHandler_eq, isrExit_rsp, isrEntry_rsp, stub.1, stub.2, if_pos rfl,
    X86.Context.interrupt_some, X86.execute_pushImmediates, X86.Machine.push_rsp,
    X86.Machine.push_rsp, X86.Machine.push_rsp, (context.interrupted memory top).rsp] at found
  exact shifted found

end Entry

/-- Of the installed stubs, exactly those of the four forgotten exceptions show. -/
theorem interrupt_transparent_iff {vector : BitVec 8} (installed : vector ∈ installedVectors)
    (context : X86.Context) (memory : Memory) (top code : Word) :
    Transparent vector context memory top code ↔ vector ∉ forgotten := by
  constructor
  · intro transparent missed
    exact not_transparent_of_forgotten context memory top code missed transparent
  · exact transparent_of_not_forgotten context memory top code installed

/-- Kernel code that runs with interrupts enabled. -/
def kernelCode : X86.Context where
  registers register := if register = .rsp then 0x8000 else 7
  rip := 0x1000
  cs := 0x08
  rflags := 0x202
  ss := 0x10

/-- A page fault does not show. -/
theorem page_fault_transparent : Transparent 14 kernelCode (fun _ => 0) 0x9000 2 :=
  (interrupt_transparent_iff (by decide +kernel) kernelCode (fun _ => 0) 0x9000 2).mpr (by decide)

/-- An alignment check shows: in its frame the error code is 0 and stands in the field of the
instruction pointer. -/
theorem alignment_check_shows :
    let m := enterHandler 17 kernelCode (fun _ => 0) 0x9000 5
    (frameAt m.memory (m.registers .rdi)).err = 0 ∧
      (frameAt m.memory (m.registers .rdi)).rip = 5 ∧
      ¬ Transparent 17 kernelCode (fun _ => 0) 0x9000 5 := by
  intro m
  refine ⟨by decide +kernel, by decide +kernel, ?_⟩
  exact not_transparent_of_forgotten kernelCode (fun _ => 0) 0x9000 5 (by decide)

end Lord84
