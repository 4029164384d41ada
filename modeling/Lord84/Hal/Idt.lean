import Lord84.Lib.Support

/-!
# Interrupt vectors

A model of the tables of `src/hal/idt.c`.  `idt` holds the gates that the processor reads;
`irq_list` records which vectors are taken and by which handler.  `set_idt` installs the
gates of the kernel, and the two registration functions hand vectors out.  `s_load_idt`
only tells the processor where `idt` lies.
-/

namespace Lord84

open Theory

/-- `MAX_IRQ` -/
def maxIrq : Nat := 256

/-- `kstatus` -/
inductive KStatus where
  | success
  | error
  deriving DecidableEq, Repr

/-- `idt_descriptor` -/
structure IdtDescriptor where
  offsetLow : BitVec 16
  segmentSel : BitVec 16
  ist : BitVec 8
  attributes : BitVec 8
  offsetHigh : BitVec 16
  offsetHigher : BitVec 32
  reserved : BitVec 32
  deriving DecidableEq, Repr

/-- The handler address of a gate, as the processor puts it together. -/
def IdtDescriptor.offset (gate : IdtDescriptor) : Word :=
  gate.offsetHigher ++ (gate.offsetHigh ++ gate.offsetLow)

/-- `irq_t` -/
structure Irq where
  base : Word
  inUse : Bool
  deriving DecidableEq, Repr

/-- Globals of `idt.c`. -/
structure IdtState where
  idt : BitVec 8 → IdtDescriptor
  irqList : Nat → Irq
  irqRegisterLock : Bool

/-- The globals before `set_idt`. -/
def IdtState.zeroed : IdtState where
  idt _ := ⟨0, 0, 0, 0, 0, 0, 0⟩
  irqList _ := ⟨0, false⟩
  irqRegisterLock := false

/-- The gate that `set_idt_descriptor` writes. -/
def descriptor (base : Word) (flags : BitVec 8) : IdtDescriptor where
  offsetLow := (base &&& 0xffff).setWidth 16
  segmentSel := 0x08
  ist := 0
  attributes := flags
  offsetHigh := (base >>> 16 &&& 0xffff).setWidth 16
  offsetHigher := (base >>> 32 &&& 0xffffffff).setWidth 32
  reserved := 0

/-- `set_idt_descriptor` -/
def setIdtDescriptor (vector : BitVec 8) (base : Word) (flags : BitVec 8) (s : IdtState) :
    IdtState :=
  { s with idt := Function.update s.idt vector (descriptor base flags) }

/-- Store a handler in `irq_list` and mark its vector as used. -/
def setIrq (i : Nat) (base : Word) (s : IdtState) : IdtState :=
  { s with irqList := Function.update s.irqList i ⟨base, true⟩ }

/-- `register_irq_vector` -/
def registerIrqVector (vector : BitVec 8) (base : Word) (flags : BitVec 8) (s : IdtState) :
    Outcome (KStatus × IdtState) := do
  let lock ← acquireLock s.irqRegisterLock
  let s := { s with irqRegisterLock := lock }
  if !(s.irqList vector.toNat).inUse then
    return (.error, { s with irqRegisterLock := freeLock s.irqRegisterLock })
  let s := setIdtDescriptor vector base flags s
  let s := setIrq vector.toNat base s
  return (.success, { s with irqRegisterLock := freeLock s.irqRegisterLock })

/-- The loop of `register_irq`: the first vector that is not in use. -/
def firstUnusedIrq (irqList : Nat → Irq) : Option Nat :=
  (List.range maxIrq).find? fun i => !(irqList i).inUse

/-- `register_irq` -/
def registerIrq (base : Word) (flags : BitVec 8) (s : IdtState) : Outcome (Int × IdtState) := do
  let lock ← acquireLock s.irqRegisterLock
  let s := { s with irqRegisterLock := lock }
  match firstUnusedIrq s.irqList with
  | some i =>
      let s := setIdtDescriptor (BitVec.ofNat 8 i) base flags s
      let s := setIrq i base s
      return (i, { s with irqRegisterLock := freeLock s.irqRegisterLock })
  | none => return (-1, { s with irqRegisterLock := freeLock s.irqRegisterLock })

/-- The gates that `set_idt` installs, in its order; `isr v` is the address of `s_isr<v>`. -/
def kernelGates (isr : BitVec 8 → Word) : List (BitVec 8 × Word) :=
  ((List.range 32).map fun i => (BitVec.ofNat 8 i, isr (BitVec.ofNat 8 i))) ++
    [(44, 0), (69, isr 69), (70, isr 70), (255, isr 255)]

/-- Install a list of gates. -/
def setGates (flags : BitVec 8) (gates : List (BitVec 8 × Word)) (s : IdtState) : IdtState :=
  gates.foldl (fun s gate => setIdtDescriptor gate.1 gate.2 flags s) s

/-- `set_idt` -/
def setIdt (isr : BitVec 8 → Word) (s : IdtState) : IdtState :=
  let s := (List.range 32).foldl (fun s i => setIrq i 0 s) s
  setGates 0x8E (kernelGates isr) s

/-! ## Gates -/

/-- The three parts of an address are put together again. -/
theorem append_parts (base : Word) :
    (base >>> 32).setWidth 32 ++ ((base >>> 16).setWidth 16 ++ base.setWidth 16) = base := by
  apply BitVec.eq_of_getLsbD_eq
  intro i bound
  simp only [BitVec.getLsbD_append, BitVec.getLsbD_setWidth, BitVec.getLsbD_ushiftRight]
  by_cases low : i < 16
  · simp [low, show i < 32 by omega]
  · by_cases high : i < 32
    · simp [low, high, show i - 16 < 16 by omega, show 16 + (i - 16) = i by omega]
    · simp [high, show i - 32 < 32 by omega, show 32 + (i - 32) = i by omega]

/-- A gate leads to the handler it was set to. -/
@[simp] theorem offset_descriptor (base : Word) (flags : BitVec 8) :
    (descriptor base flags).offset = base := by
  have low : (0xffff : Word).setWidth 16 = BitVec.allOnes 16 := rfl
  have higher : (0xffffffff : Word).setWidth 32 = BitVec.allOnes 32 := rfl
  simp only [IdtDescriptor.offset, descriptor, BitVec.setWidth_and, low, higher,
    BitVec.and_allOnes]
  exact append_parts base

theorem setIdtDescriptor_idt (vector : BitVec 8) (base : Word) (flags : BitVec 8)
    (s : IdtState) : (setIdtDescriptor vector base flags s).idt =
      Function.update s.idt vector (descriptor base flags) := rfl

theorem setIrq_irqList (i : Nat) (base : Word) (s : IdtState) :
    (setIrq i base s).irqList = Function.update s.irqList i ⟨base, true⟩ := rfl

/-! ## The tables after `set_idt` -/

section Gates

variable (flags : BitVec 8)

@[simp] theorem setGates_irqList (gates : List (BitVec 8 × Word)) (s : IdtState) :
    (setGates flags gates s).irqList = s.irqList := by
  induction gates generalizing s with
  | nil => rfl
  | cons gate gates ih => exact ih _

@[simp] theorem setGates_lock (gates : List (BitVec 8 × Word)) (s : IdtState) :
    (setGates flags gates s).irqRegisterLock = s.irqRegisterLock := by
  induction gates generalizing s with
  | nil => rfl
  | cons gate gates ih => exact ih _

theorem setGates_of_not_mem {gates : List (BitVec 8 × Word)} {vector : BitVec 8}
    (absent : vector ∉ gates.map Prod.fst) (s : IdtState) :
    (setGates flags gates s).idt vector = s.idt vector := by
  induction gates generalizing s with
  | nil => rfl
  | cons gate gates ih =>
      rw [List.map_cons, List.mem_cons, not_or] at absent
      have kept := ih absent.2 (setIdtDescriptor gate.1 gate.2 flags s)
      rw [setIdtDescriptor_idt, Function.update_of_ne absent.1] at kept
      exact kept

/-- Of gates for different vectors, each is installed. -/
theorem setGates_of_mem {gates : List (BitVec 8 × Word)} {vector : BitVec 8} {base : Word}
    (distinct : (gates.map Prod.fst).Nodup) (member : (vector, base) ∈ gates) (s : IdtState) :
    (setGates flags gates s).idt vector = descriptor base flags := by
  induction gates generalizing s with
  | nil => exact absurd member List.not_mem_nil
  | cons gate gates ih =>
      rw [List.map_cons, List.nodup_cons] at distinct
      rcases List.mem_cons.mp member with rfl | later
      · have kept := setGates_of_not_mem flags distinct.1
          (setIdtDescriptor vector base flags s)
        rw [setIdtDescriptor_idt, Function.update_self] at kept
        exact kept
      · exact ih distinct.2 later _

end Gates

theorem kernelGates_distinct (isr : BitVec 8 → Word) :
    ((kernelGates isr).map Prod.fst).Nodup := by
  have vectors : (kernelGates isr).map Prod.fst =
      (List.range 32).map (BitVec.ofNat 8) ++ [44, 69, 70, 255] := by
    rw [kernelGates, List.map_append, List.map_map]
    rfl
  rw [vectors]
  decide

/-- The vectors with a handler of the kernel: exceptions, the timer of the APIC, the panic
vector and the spurious vector. -/
def IsKernelVector (vector : BitVec 8) : Prop :=
  vector < 32 ∨ vector = 69 ∨ vector = 70 ∨ vector = 255

/-- `set_idt` installs the handler of each kernel vector. -/
theorem setIdt_idt (isr : BitVec 8 → Word) (s : IdtState) {vector : BitVec 8}
    (kernel : IsKernelVector vector) :
    (setIdt isr s).idt vector = descriptor (isr vector) 0x8E := by
  apply setGates_of_mem 0x8E (kernelGates_distinct isr)
  rw [kernelGates, List.mem_append]
  rcases kernel with exception | rfl | rfl | rfl
  · left
    rw [List.mem_map]
    refine ⟨vector.toNat, List.mem_range.mpr exception, ?_⟩
    rw [BitVec.ofNat_toNat, BitVec.setWidth_eq]
  · right
    simp
  · right
    simp
  · right
    simp

/-- The marking loop of `set_idt`. -/
theorem markReserved_irqList (count : Nat) (s : IdtState) (i : Nat) :
    ((List.range count).foldl (fun s i => setIrq i 0 s) s).irqList i =
      if i < count then ⟨0, true⟩ else s.irqList i := by
  induction count with
  | zero => rfl
  | succ count ih =>
      rw [List.range_succ, List.foldl_append, List.foldl_cons, List.foldl_nil, setIrq_irqList,
        Function.update_apply, ih]
      by_cases last : i = count
      · rw [if_pos last, if_pos (by omega)]
      · rw [if_neg last]
        by_cases before : i < count
        · rw [if_pos before, if_pos (by omega)]
        · rw [if_neg before, if_neg (by omega)]

theorem setIdt_irqList (isr : BitVec 8 → Word) (s : IdtState) (i : Nat) :
    (setIdt isr s).irqList i = if i < 32 then ⟨0, true⟩ else s.irqList i := by
  rw [← markReserved_irqList 32 s i]
  exact congrFun (setGates_irqList 0x8E (kernelGates isr) _) i

theorem markReserved_lock (count : Nat) (s : IdtState) :
    ((List.range count).foldl (fun s i => setIrq i 0 s) s).irqRegisterLock =
      s.irqRegisterLock := by
  induction count with
  | zero => rfl
  | succ count ih =>
      rw [List.range_succ, List.foldl_append, ← ih]
      rfl

theorem setIdt_lock (isr : BitVec 8 → Word) (s : IdtState) :
    (setIdt isr s).irqRegisterLock = s.irqRegisterLock := by
  rw [← markReserved_lock 32 s]
  exact setGates_lock 0x8E (kernelGates isr) _

end Lord84
