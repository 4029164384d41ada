import Lord84.Theory.Memory
import Mathlib.Data.List.Basic

/-!
# A fragment of x86-64

Registers, the stack, and the instructions that save and restore registers.  The stack grows
downwards; `word k` is the `k`-th word from its top, so a push moves every word one place
down and a pop one place up.  Runs of pushes and pops are described by lists of registers.

Memory is total: that the addresses are mapped is the business of whoever runs the code.
-/

namespace Lord84.Theory.X86

/-- The general registers. -/
inductive Register where
  | rax | rbx | rcx | rdx | rsi | rdi | rbp | rsp
  | r8 | r9 | r10 | r11 | r12 | r13 | r14 | r15
  deriving DecidableEq, Repr

structure Machine where
  registers : Register → Word
  memory : Memory

namespace Machine

def set (m : Machine) (register : Register) (value : Word) : Machine :=
  { m with registers := Function.update m.registers register value }

/-- A word of the stack, counted from its top. -/
def word (m : Machine) (k : Nat) : Word :=
  m.memory.read64 (m.registers .rsp + BitVec.ofNat 64 (8 * k))

def push (m : Machine) (value : Word) : Machine where
  registers := Function.update m.registers .rsp (m.registers .rsp - 8)
  memory := m.memory.write64 (m.registers .rsp - 8) value

/-- Remove words from the stack. -/
def drop (m : Machine) (count : Nat) : Machine :=
  m.set .rsp (m.registers .rsp + BitVec.ofNat 64 (8 * count))

end Machine

inductive Instruction where
  | push (source : Register)
  | pushImmediate (value : Word)
  | pop (destination : Register)
  | mov (destination source : Register)
  | addImmediate (destination : Register) (value : Word)
  deriving DecidableEq, Repr

/-- `push rsp` stores the old stack pointer, and what `pop rsp` loads is not incremented. -/
def Instruction.execute : Instruction → Machine → Machine
  | .push source, m => m.push (m.registers source)
  | .pushImmediate value, m => m.push value
  | .pop destination, m => (m.drop 1).set destination (m.word 0)
  | .mov destination source, m => m.set destination (m.registers source)
  | .addImmediate destination value, m => m.set destination (m.registers destination + value)

/-- Execute straight-line code. -/
def execute (program : List Instruction) (m : Machine) : Machine :=
  program.foldl (fun m instruction => instruction.execute m) m

/-! ## Far returns -/

/-- What a selector means to a far return: a code segment of the current privilege level, one
of an outer level, or neither. -/
inductive CodeSegment where
  | sameLevel
  | outerLevel
  | invalid
  deriving DecidableEq, Repr

/-- How a far return ends. -/
inductive FarReturn where
  | sameLevel (m : Machine) (rip : Word)
  | outerLevel (m : Machine) (rip : Word)
  | fault

/-- `retfq`: the instruction pointer and the code segment come from the stack, and at an outer
level the stack pointer as well. -/
def retfq (segment : BitVec 16 → CodeSegment) (m : Machine) : FarReturn :=
  match segment ((m.word 1).setWidth 16) with
  | .sameLevel => .sameLevel (m.drop 2) (m.word 0)
  | .outerLevel => .outerLevel (m.set .rsp (m.word 2)) (m.word 0)
  | .invalid => .fault

/-! ## Interrupts -/

/-- What an interrupt saves and `iretq` restores, with the general registers. -/
structure Context where
  registers : Register → Word
  rip : Word
  cs : Word
  rflags : Word
  ss : Word

/-- The processor enters a handler: it goes to the stack `top` and pushes where it came from,
and an error code if the vector has one. -/
def Context.interrupt (context : Context) (memory : Memory) (top : Word)
    (errorCode : Option Word) : Machine :=
  let m : Machine := { registers := Function.update context.registers .rsp top, memory }
  let m := m.push context.ss
  let m := m.push (context.registers .rsp)
  let m := m.push context.rflags
  let m := m.push context.cs
  let m := m.push context.rip
  match errorCode with
  | some code => m.push code
  | none => m

/-- `iretq` -/
def iretq (m : Machine) : Context where
  registers := Function.update m.registers .rsp (m.word 3)
  rip := m.word 0
  cs := m.word 1
  rflags := m.word 2
  ss := m.word 4

/-! ## The stack -/

namespace Machine

variable (m : Machine)

@[simp] theorem set_self (register : Register) (value : Word) :
    (m.set register value).registers register = value :=
  Function.update_self ..

theorem set_of_ne {register other : Register} (different : other ≠ register) (value : Word) :
    (m.set register value).registers other = m.registers other :=
  Function.update_of_ne different ..

@[simp] theorem set_memory (register : Register) (value : Word) :
    (m.set register value).memory = m.memory := rfl

theorem word_set_of_ne {register : Register} (different : register ≠ .rsp) (value : Word)
    (k : Nat) :
    (m.set register value).word k = m.word k := by
  rw [word, set_of_ne m different.symm, set_memory, word]

@[simp] theorem push_rsp (value : Word) :
    (m.push value).registers .rsp = m.registers .rsp - 8 := by
  simp only [push, Function.update_self]

theorem push_of_ne {register : Register} (different : register ≠ .rsp) (value : Word) :
    (m.push value).registers register = m.registers register :=
  Function.update_of_ne different ..

@[simp] theorem word_push_zero (value : Word) : (m.push value).word 0 = value := by
  rw [word, push_rsp, Nat.mul_zero, BitVec.add_zero, push, Memory.read64_write64]

/-- A push leaves the words below. -/
theorem word_push_succ (value : Word) {k : Nat} (small : k < 2 ^ 60) :
    (m.push value).word (k + 1) = m.word k := by
  have same : m.registers .rsp - 8 + BitVec.ofNat 64 (8 * (k + 1)) =
      m.registers .rsp + BitVec.ofNat 64 (8 * k) := by
    bv_omega
  rw [word, push_rsp, same, word]
  apply Memory.read64_congr
  intro offset inside
  apply Memory.write64_outside
  bv_omega

@[simp] theorem drop_rsp (count : Nat) :
    (m.drop count).registers .rsp = m.registers .rsp + BitVec.ofNat 64 (8 * count) := by
  rw [drop, set_self]

theorem drop_of_ne {register : Register} (different : register ≠ .rsp) (count : Nat) :
    (m.drop count).registers register = m.registers register :=
  Function.update_of_ne different ..

@[simp] theorem drop_memory (count : Nat) : (m.drop count).memory = m.memory := rfl

theorem word_drop (count k : Nat) : (m.drop count).word k = m.word (count + k) := by
  rw [word, drop_rsp, BitVec.add_assoc, ← BitVec.ofNat_add, ← Nat.mul_add]
  rfl

end Machine

theorem eq_of_retfq_sameLevel {segment : BitVec 16 → CodeSegment} {m after : Machine} {rip : Word}
    (returned : retfq segment m = .sameLevel after rip) : after = m.drop 2 := by
  rw [retfq] at returned
  split at returned <;> cases returned
  rfl

theorem eq_of_retfq_outerLevel {segment : BitVec 16 → CodeSegment} {m after : Machine} {rip : Word}
    (returned : retfq segment m = .outerLevel after rip) : after = m.set .rsp (m.word 2) := by
  rw [retfq] at returned
  split at returned <;> cases returned
  rfl

/-- The machine stands on what an interrupt without an error code pushes. -/
structure Interrupted (context : Context) (top : Word) (m : Machine) : Prop where
  rsp : m.registers .rsp = top - 40
  registers : ∀ register, register ≠ .rsp → m.registers register = context.registers register
  rip : m.word 0 = context.rip
  cs : m.word 1 = context.cs
  rflags : m.word 2 = context.rflags
  stack : m.word 3 = context.registers .rsp
  ss : m.word 4 = context.ss

theorem Context.interrupted (context : Context) (memory : Memory) (top : Word) :
    Interrupted context top (context.interrupt memory top none) := by
  simp only [Context.interrupt]
  constructor
  case rsp =>
    simp only [Machine.push_rsp, Function.update_self]
    bv_omega
  case registers =>
    intro register general
    simp only [Machine.push_of_ne _ general, Function.update_of_ne general]
  all_goals simp [Machine.word_push_succ]

theorem Context.interrupt_some (context : Context) (memory : Memory) (top code : Word) :
    context.interrupt memory top (some code) = (context.interrupt memory top none).push code := rfl

/-- `iretq` undoes an interrupt. -/
theorem Interrupted.iretq {context : Context} {top : Word} {m : Machine}
    (interrupted : Interrupted context top m) : X86.iretq m = context := by
  have registers : Function.update m.registers .rsp (m.word 3) = context.registers := by
    funext register
    by_cases stack : register = .rsp
    · rw [stack, Function.update_self, interrupted.stack]
    · rw [Function.update_of_ne stack, interrupted.registers register stack]
  rw [X86.iretq, registers, interrupted.rip, interrupted.cs, interrupted.rflags, interrupted.ss]

theorem execute_append (left right : List Instruction) (m : Machine) :
    execute (left ++ right) m = execute right (execute left m) :=
  List.foldl_append

theorem execute_pushImmediates (first second : Word) (m : Machine) :
    execute [.pushImmediate first, .pushImmediate second] m = (m.push first).push second := rfl

/-! ## Runs of pushes and pops -/

/-- Pushes change no register but the stack pointer. -/
theorem execute_pushes_of_ne (m : Machine) (sources : List Register) {register : Register}
    (general : register ≠ .rsp) :
    (execute (sources.map .push) m).registers register = m.registers register := by
  induction sources generalizing m with
  | nil => rfl
  | cons source sources ih => exact (ih _).trans (m.push_of_ne general _)

/-- Pushing registers: they lie on the stack, the last one on top, over what was there. -/
structure Pushed (saved : List Register) (before after : Machine) : Prop where
  rsp : after.registers .rsp = before.registers .rsp - BitVec.ofNat 64 (8 * saved.length)
  others : ∀ register, register ≠ .rsp → after.registers register = before.registers register
  below : ∀ k, saved.length + k < 2 ^ 60 → after.word (saved.length + k) = before.word k
  words : ∀ k (inside : k < saved.length),
    after.word k = before.registers saved[saved.length - 1 - k]

theorem execute_pushes (m : Machine) {saved : List Register} (absent : .rsp ∉ saved)
    (short : saved.length < 2 ^ 60) :
    Pushed saved m (execute (saved.map .push) m) := by
  induction saved generalizing m with
  | nil =>
      refine ⟨(BitVec.sub_zero _).symm, fun _ _ => rfl, ?_, ?_⟩
      · intro k _
        rw [List.length_nil, Nat.zero_add]
        rfl
      · intro k inside
        exact absurd inside (Nat.not_lt_zero k)
  | cons register saved ih =>
      rw [List.mem_cons, not_or] at absent
      rw [List.length_cons] at short
      have rest := ih (m.push (m.registers register)) absent.2 (by omega)
      constructor
      · rw [List.map_cons, execute, List.foldl_cons]
        refine rest.rsp.trans ?_
        rw [Machine.push_rsp, List.length_cons]
        bv_omega
      · intro other general
        exact execute_pushes_of_ne m (register :: saved) general
      · intro k small
        rw [List.length_cons] at small ⊢
        have moved := rest.below (k + 1) (by omega)
        rw [m.word_push_succ _ (by omega)] at moved
        rw [Nat.add_right_comm]
        exact moved
      · intro k inside
        rw [List.length_cons] at inside
        by_cases last : k = saved.length
        · subst last
          have top := rest.below 0 (by omega)
          rw [Nat.add_zero, Machine.word_push_zero] at top
          have index : (register :: saved).length - 1 - saved.length = 0 := by
            rw [List.length_cons]
            omega
          simp only [index, List.getElem_cons_zero]
          exact top
        · have earlier : k < saved.length := by omega
          have index : (register :: saved).length - 1 - k = saved.length - 1 - k + 1 := by
            rw [List.length_cons]
            omega
          have saves := rest.words k earlier
          rw [m.push_of_ne] at saves
          · simp only [index, List.getElem_cons_succ]
            exact saves
          · intro equal
            exact absent.2 (equal ▸ List.getElem_mem _)

/-- Pushes change no memory but the bytes right below the stack pointer. -/
theorem execute_pushes_outside (m : Machine) {sources : List Register} {target : Word}
    (outside : ∀ i < 8 * sources.length,
      m.registers .rsp - BitVec.ofNat 64 (8 * sources.length) + BitVec.ofNat 64 i ≠ target) :
    (execute (sources.map .push) m).memory target = m.memory target := by
  induction sources generalizing m with
  | nil => rfl
  | cons source sources ih =>
      rw [List.length_cons] at outside
      have lower : m.registers .rsp - BitVec.ofNat 64 (8 * (sources.length + 1)) =
          m.registers .rsp - 8 - BitVec.ofNat 64 (8 * sources.length) := by
        bv_omega
      rw [lower] at outside
      have rest := ih (m.push (m.registers source)) (by
        intro i inside
        rw [Machine.push_rsp]
        exact outside i (by omega))
      refine rest.trans (Memory.write64_outside _ _ ?_)
      by_contra inside
      apply outside (8 * sources.length + (target - (m.registers .rsp - 8)).toNat) (by omega)
      rw [BitVec.ofNat_add, BitVec.ofNat_toNat, BitVec.setWidth_eq]
      bv_omega

/-- Popping registers: they are loaded from the stack, the first one from its top. -/
structure Popped (restored : List Register) (before after : Machine) : Prop where
  rsp : after.registers .rsp = before.registers .rsp + BitVec.ofNat 64 (8 * restored.length)
  words : ∀ k (inside : k < restored.length), after.registers restored[k] = before.word k
  others : ∀ register, register ≠ .rsp → register ∉ restored →
    after.registers register = before.registers register
  memory : after.memory = before.memory

theorem execute_pops (m : Machine) {restored : List Register} (absent : .rsp ∉ restored)
    (distinct : restored.Nodup) :
    Popped restored m (execute (restored.map .pop) m) := by
  induction restored generalizing m with
  | nil =>
      refine ⟨(BitVec.add_zero _).symm, ?_, fun _ _ _ => rfl, rfl⟩
      intro k inside
      exact absurd inside (Nat.not_lt_zero k)
  | cons register restored ih =>
      rw [List.mem_cons, not_or] at absent
      obtain ⟨notLater, restDistinct⟩ := List.nodup_cons.mp distinct
      have isGeneral : register ≠ .rsp := fun equal => absent.1 equal.symm
      have rest := ih ((m.drop 1).set register (m.word 0)) absent.2 restDistinct
      constructor
      · rw [List.map_cons, execute, List.foldl_cons]
        refine rest.rsp.trans ?_
        rw [Machine.set_of_ne _ absent.1, Machine.drop_rsp, List.length_cons]
        bv_omega
      · intro k inside
        cases k with
        | zero => exact (rest.others register isGeneral notLater).trans (Machine.set_self ..)
        | succ k =>
            rw [List.length_cons] at inside
            have loads := rest.words k (by omega)
            rw [Machine.word_set_of_ne _ isGeneral, Machine.word_drop, Nat.add_comm] at loads
            exact loads
      · intro other different notRestored
        rw [List.mem_cons, not_or] at notRestored
        have keeps := rest.others other different notRestored.2
        rw [Machine.set_of_ne _ notRestored.1, Machine.drop_of_ne _ different] at keeps
        exact keeps
      · exact rest.memory

end Lord84.Theory.X86
