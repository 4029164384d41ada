import Mathlib.Logic.Function.Basic
import Lord84.Hal.Idt

/-!
# Redirection entries of the IOAPIC

A model of `src/hal/ioapic.c`.  The registers of the IOAPIC are reached through a window of
two words: a write to `IOREGSEL` selects a register, and a write to `IOWIN` goes to the
register selected last.  The entry of a pin takes two registers, which `write_redir_entry`
writes one after the other.
-/

namespace Lord84

open Theory

/-- The device behind the window. -/
structure Ioapic where
  selected : BitVec 32
  registers : BitVec 8 → BitVec 32

/-- `IOREGSEL` -/
def ioregsel : Word := 0x0

/-- `IOWIN` -/
def iowin : Word := 0x10

/-- `IOREDTBL` -/
def ioredtbl (x : Nat) : Nat := 0x10 + x * 2

section Source

variable (ioapicAddress : Word)

/-- The device at `ioapicAddress` receives a word written by the processor. -/
def Ioapic.store (device : Ioapic) (address : Word) (data : BitVec 32) : Ioapic :=
  if address = ioapicAddress + ioregsel then
    { device with selected := data }
  else if address = ioapicAddress + iowin then
    { device with
      registers := Function.update device.registers (device.selected.setWidth 8) data }
  else
    device

/-- `ioapic_write_reg` -/
def ioapicWriteReg (device : Ioapic) (reg : BitVec 8) (data : BitVec 32) : Ioapic :=
  let device := device.store ioapicAddress (ioapicAddress + ioregsel) (reg.setWidth 32)
  device.store ioapicAddress (ioapicAddress + iowin) data

/-- `write_redir_entry` -/
def writeRedirEntry (device : Ioapic) (reg : BitVec 8) (data : Word) : Ioapic :=
  let device := ioapicWriteReg ioapicAddress device (BitVec.ofNat 8 (ioredtbl reg.toNat))
    ((data &&& 0xffffffff).setWidth 32)
  ioapicWriteReg ioapicAddress device (BitVec.ofNat 8 (ioredtbl reg.toNat + 1))
    ((data >>> 32).setWidth 32)

/-- The arguments of a call of `set_redir_entry`. -/
structure RedirCall where
  pin : BitVec 8
  vector : BitVec 8
  delivery : BitVec 8
  trigger : BitVec 8
  destinationField : BitVec 8
  destinationMode : BitVec 8
  deriving DecidableEq, Repr

/-- `data` of `set_redir_entry` -/
def RedirCall.data (call : RedirCall) : Word :=
  (call.destinationField.setWidth 64 <<< 56) ||| (call.trigger.setWidth 64 <<< 15) |||
    (call.destinationMode.setWidth 64 <<< 11) ||| (call.delivery.setWidth 64 <<< 8) |||
    call.vector.setWidth 64

/-- `set_redir_entry` -/
def setRedirEntry (device : Ioapic) (call : RedirCall) : KStatus × Ioapic :=
  (.success, writeRedirEntry ioapicAddress device call.pin call.data)

end Source

/-! ## The table as a map -/

/-- Arguments within the widths of the entry's fields. -/
structure RedirCall.Valid (call : RedirCall) : Prop where
  pin : call.pin < 24
  delivery : call.delivery < 8
  trigger : call.trigger < 2
  destinationMode : call.destinationMode < 2

/-- An entry that holds the arguments of a call, and nothing else. -/
structure Decodes (entry : Word) (call : RedirCall) : Prop where
  vector : entry.extractLsb' 0 8 = call.vector
  delivery : (entry.extractLsb' 8 3).setWidth 8 = call.delivery
  destinationMode : (entry.extractLsb' 11 1).setWidth 8 = call.destinationMode
  trigger : (entry.extractLsb' 15 1).setWidth 8 = call.trigger
  destination : entry.extractLsb' 56 8 = call.destinationField
  others : ∀ bit, 12 ≤ bit ∧ bit < 15 ∨ 16 ≤ bit ∧ bit < 56 → entry.getLsbD bit = false

/-- Register with the lower half of a pin's entry. -/
def lowRegister (pin : BitVec 8) : BitVec 8 := 0x10 + 2 * pin

/-- Register with the upper half of a pin's entry. -/
def highRegister (pin : BitVec 8) : BitVec 8 := 0x11 + 2 * pin

/-- The entry of a pin. -/
def Ioapic.entry (device : Ioapic) (pin : BitVec 8) : Word :=
  device.registers (highRegister pin) ++ device.registers (lowRegister pin)

/-- The last call for a pin. -/
def lastCall (calls : List RedirCall) (pin : BitVec 8) : Option RedirCall :=
  calls.reverse.find? fun call => call.pin = pin

/-- The device holds the entries of a table of calls over its initial registers. -/
structure HoldsTable (initial device : Ioapic) (table : BitVec 8 → Option RedirCall) : Prop where
  pins : ∀ pin call, table pin = some call → pin < 24
  entries : ∀ pin call, table pin = some call → Decodes (device.entry pin) call
  others : ∀ register, (∀ pin call, table pin = some call →
      register ≠ lowRegister pin ∧ register ≠ highRegister pin) →
    device.registers register = initial.registers register

section Proofs

variable {ioapicAddress : Word} {initial device : Ioapic} {call : RedirCall}
  {table : BitVec 8 → Option RedirCall}

/-- A write through the window changes the register asked for. -/
theorem registers_ioapicWriteReg (reg : BitVec 8) (data : BitVec 32) :
    (ioapicWriteReg ioapicAddress device reg data).registers =
      Function.update device.registers reg data := by
  have apart : ioapicAddress + iowin ≠ ioapicAddress + ioregsel := by
    rw [Ne, BitVec.add_right_inj]
    decide
  have index : (reg.setWidth 32).setWidth 8 = reg := by
    rw [BitVec.setWidth_setWidth_of_le reg (by decide), BitVec.setWidth_eq]
  simp only [ioapicWriteReg, Ioapic.store, if_true, if_neg apart, index]

/-- Both halves of an entry, one after the other. -/
theorem registers_writeRedirEntry (pin : BitVec 8) (data : Word) :
    (writeRedirEntry ioapicAddress device pin data).registers =
      Function.update (Function.update device.registers (lowRegister pin) (data.setWidth 32))
        (highRegister pin) ((data >>> 32).setWidth 32) := by
  have low : BitVec.ofNat 8 (ioredtbl pin.toNat) = lowRegister pin := by
    rw [ioredtbl, lowRegister, BitVec.ofNat_add, BitVec.ofNat_mul, BitVec.ofNat_toNat,
      BitVec.setWidth_eq, BitVec.mul_comm]
    rfl
  have high : BitVec.ofNat 8 (ioredtbl pin.toNat + 1) = highRegister pin := by
    rw [BitVec.ofNat_add, low, lowRegister, highRegister]
    bv_omega
  have lower : (data &&& 0xffffffff).setWidth 32 = data.setWidth 32 := by
    apply BitVec.eq_of_toNat_eq
    rw [BitVec.toNat_setWidth, BitVec.toNat_setWidth, BitVec.toNat_and]
    exact (congrArg (· % 2 ^ 32) (Nat.and_two_pow_sub_one_eq_mod data.toNat 32)).trans
      (Nat.mod_mod _ _)
  simp only [writeRedirEntry, registers_ioapicWriteReg, low, high, lower]

/-! ### Entries -/

/-- Bits beyond a bound on the value are clear. -/
theorem getLsbD_eq_false_of_lt {field : BitVec 8} {width bit : Nat}
    (bound : field.toNat < 2 ^ width) (beyond : width ≤ bit) : field.getLsbD bit = false :=
  Nat.testBit_lt_two_pow (bound.trans_le (Nat.pow_le_pow_right (by decide) beyond))

/-- A field is read back from its bits. -/
theorem setWidth_extractLsb'_eq {data : Word} {field : BitVec 8} {start width : Nat}
    (bound : field.toNat < 2 ^ width)
    (bits : ∀ bit < width, data.getLsbD (start + bit) = field.getLsbD bit) :
    (data.extractLsb' start width).setWidth 8 = field := by
  apply BitVec.eq_of_getLsbD_eq
  intro bit inside
  rw [BitVec.getLsbD_setWidth, BitVec.getLsbD_extractLsb', decide_eq_true inside,
    Bool.true_and]
  by_cases within : bit < width
  · rw [decide_eq_true within, Bool.true_and, bits bit within]
  · rw [decide_eq_false within, Bool.false_and,
      getLsbD_eq_false_of_lt bound (Nat.le_of_not_lt within)]

/-- The bits of an entry, field by field. -/
theorem RedirCall.Valid.getLsbD_data (valid : call.Valid) (bit : Nat) :
    call.data.getLsbD bit =
      if bit < 8 then call.vector.getLsbD bit
      else if bit < 11 then call.delivery.getLsbD (bit - 8)
      else if bit < 12 then call.destinationMode.getLsbD (bit - 11)
      else if bit = 15 then call.trigger.getLsbD 0
      else if 56 ≤ bit then call.destinationField.getLsbD (bit - 56)
      else false := by
  have vector := @getLsbD_eq_false_of_lt call.vector 8 bit call.vector.isLt
  have delivery := @getLsbD_eq_false_of_lt call.delivery 3 (bit - 8) valid.delivery
  have trigger := @getLsbD_eq_false_of_lt call.trigger 1 (bit - 15) valid.trigger
  have mode := @getLsbD_eq_false_of_lt call.destinationMode 1 (bit - 11) valid.destinationMode
  have destination :=
    @getLsbD_eq_false_of_lt call.destinationField 8 (bit - 56) call.destinationField.isLt
  simp only [RedirCall.data, BitVec.getLsbD_or, BitVec.getLsbD_shiftLeft,
    BitVec.getLsbD_setWidth]
  grind

/-- The packed word decodes to the arguments it was packed from. -/
theorem RedirCall.Valid.decodes_data (valid : call.Valid) : Decodes call.data call where
  vector := by
    rw [← BitVec.setWidth_eq (call.data.extractLsb' 0 8)]
    apply setWidth_extractLsb'_eq call.vector.isLt
    intro bit inside
    rw [valid.getLsbD_data]
    grind
  delivery := by
    apply setWidth_extractLsb'_eq valid.delivery
    intro bit inside
    rw [valid.getLsbD_data]
    grind
  destinationMode := by
    apply setWidth_extractLsb'_eq valid.destinationMode
    intro bit inside
    rw [valid.getLsbD_data]
    grind
  trigger := by
    apply setWidth_extractLsb'_eq valid.trigger
    intro bit inside
    rw [valid.getLsbD_data]
    grind
  destination := by
    rw [← BitVec.setWidth_eq (call.data.extractLsb' 56 8)]
    apply setWidth_extractLsb'_eq call.destinationField.isLt
    intro bit inside
    rw [valid.getLsbD_data]
    grind
  others := by
    intro bit between
    rw [valid.getLsbD_data]
    grind

/-- The registers of two pins are four different ones. -/
theorem registers_apart {pin other : BitVec 8} (inTable : pin < 24) (otherIn : other < 24) :
    lowRegister pin ≠ highRegister other ∧
      (pin ≠ other → lowRegister pin ≠ lowRegister other ∧
        highRegister pin ≠ highRegister other) := by
  simp only [lowRegister, highRegister]
  refine ⟨by bv_omega, fun different => ⟨by bv_omega, by bv_omega⟩⟩

/-- Registers 0 to 2 belong to no pin. -/
theorem register_ne_of_le {register pin : BitVec 8} (identity : register ≤ 2)
    (inTable : pin < 24) : register ≠ lowRegister pin ∧ register ≠ highRegister pin := by
  simp only [lowRegister, highRegister]
  exact ⟨by bv_omega, by bv_omega⟩

/-- The halves of a word make up the word. -/
theorem halves_append (data : Word) :
    (data >>> 32).setWidth 32 ++ data.setWidth 32 = data := by
  apply BitVec.eq_of_getLsbD_eq
  intro bit inside
  rw [BitVec.getLsbD_append, BitVec.getLsbD_setWidth, BitVec.getLsbD_setWidth,
    BitVec.getLsbD_ushiftRight]
  grind

/-- What a call leaves in the entries. -/
theorem entry_setRedirEntry (valid : call.Valid) {pin : BitVec 8} (inTable : pin < 24) :
    (setRedirEntry ioapicAddress device call).2.entry pin =
      if pin = call.pin then call.data else device.entry pin := by
  obtain ⟨crossed, apart⟩ := registers_apart inTable valid.pin
  obtain ⟨crossedBack, -⟩ := registers_apart valid.pin inTable
  simp only [setRedirEntry, Ioapic.entry, registers_writeRedirEntry]
  split
  · rename_i same
    subst same
    rw [Function.update_self, Function.update_of_ne crossed, Function.update_self, halves_append]
  · rename_i different
    obtain ⟨lows, highs⟩ := apart different
    rw [Function.update_of_ne highs, Function.update_of_ne crossedBack.symm,
      Function.update_of_ne crossed, Function.update_of_ne lows]

/-! ### Runs -/

theorem holdsTable_empty : HoldsTable initial initial fun _ => none where
  pins _ _ absent := by cases absent
  entries _ _ absent := by cases absent
  others _ _ := rfl

/-- A call updates the table at its pin. -/
theorem HoldsTable.setRedirEntry (holds : HoldsTable initial device table)
    (valid : call.Valid) :
    HoldsTable initial (setRedirEntry ioapicAddress device call).2
      (Function.update table call.pin (some call)) where
  pins := by
    intro pin other listed
    by_cases same : pin = call.pin
    · exact same ▸ valid.pin
    · rw [Function.update_of_ne same] at listed
      exact holds.pins pin other listed
  entries := by
    intro pin other listed
    by_cases same : pin = call.pin
    · rw [same, Function.update_self] at listed
      cases listed
      rw [entry_setRedirEntry valid (same ▸ valid.pin), if_pos same]
      exact valid.decodes_data
    · rw [Function.update_of_ne same] at listed
      rw [entry_setRedirEntry valid (holds.pins pin other listed), if_neg same]
      exact holds.entries pin other listed
  others := by
    intro register apart
    obtain ⟨low, high⟩ := apart call.pin call (Function.update_self ..)
    rw [Lord84.setRedirEntry, registers_writeRedirEntry, Function.update_of_ne high,
      Function.update_of_ne low]
    apply holds.others
    intro pin other listed
    by_cases same : pin = call.pin
    · rw [same]
      exact ⟨low, high⟩
    · exact apart pin other (by rw [Function.update_of_ne same, listed])

theorem lastCall_concat (calls : List RedirCall) (call : RedirCall) :
    lastCall (calls ++ [call]) = Function.update (lastCall calls) call.pin (some call) := by
  funext pin
  rw [lastCall, List.reverse_concat, List.find?_cons]
  by_cases same : pin = call.pin
  · rw [same, Function.update_self, decide_eq_true rfl]
  · rw [Function.update_of_ne same, decide_eq_false (Ne.symm same), lastCall]

/-- Any sequence of calls. -/
theorem holdsTable_run {calls : List RedirCall} (valid : ∀ call ∈ calls, call.Valid) :
    HoldsTable initial
      (calls.foldl (fun device call => (setRedirEntry ioapicAddress device call).2) initial)
      (lastCall calls) := by
  induction calls using List.reverseRecOn with
  | nil => exact holdsTable_empty
  | append_singleton calls call ih =>
      rw [List.foldl_concat, lastCall_concat]
      apply HoldsTable.setRedirEntry
      · exact ih fun earlier member => valid earlier (List.mem_append_left _ member)
      · exact valid call (List.mem_append_right _ (List.mem_singleton_self call))

end Proofs

/-- After any sequence of calls of `set_redir_entry`, the entry of a programmed pin decodes to
the arguments of its last call, and all registers of the other pins and registers 0 to 2 are
as they were. -/
theorem set_redir_entry_refines_map (ioapicAddress : Word) (initial : Ioapic)
    (calls : List RedirCall) (valid : ∀ call ∈ calls, call.Valid) :
    let device := calls.foldl
      (fun device call => (setRedirEntry ioapicAddress device call).2) initial
    (∀ pin call, lastCall calls pin = some call → Decodes (device.entry pin) call) ∧
      (∀ pin < 24, lastCall calls pin = none →
        device.registers (lowRegister pin) = initial.registers (lowRegister pin) ∧
        device.registers (highRegister pin) = initial.registers (highRegister pin)) ∧
      ∀ register ≤ 2, device.registers register = initial.registers register := by
  intro device
  have holds : HoldsTable initial device (lastCall calls) := holdsTable_run valid
  refine ⟨holds.entries, ?_, ?_⟩
  · intro pin inTable unprogrammed
    have apart : ∀ other call, lastCall calls other = some call →
        (lowRegister pin ≠ lowRegister other ∧ lowRegister pin ≠ highRegister other) ∧
        highRegister pin ≠ lowRegister other ∧ highRegister pin ≠ highRegister other := by
      intro other call listed
      have otherIn := holds.pins other call listed
      have different : pin ≠ other := by
        rintro rfl
        rw [unprogrammed] at listed
        cases listed
      obtain ⟨crossed, same⟩ := registers_apart inTable otherIn
      obtain ⟨crossedBack, -⟩ := registers_apart otherIn inTable
      exact ⟨⟨(same different).1, crossed⟩, crossedBack.symm, (same different).2⟩
    exact ⟨holds.others _ fun other call listed => (apart other call listed).1,
      holds.others _ fun other call listed => (apart other call listed).2⟩
  · intro register identity
    apply holds.others
    intro pin call listed
    exact register_ne_of_le identity (holds.pins pin call listed)

/-- Pin 4 is programmed twice and pin 9 once. -/
def threeCalls : List RedirCall :=
  [⟨4, 0x30, 1, 0, 0xff, 1⟩, ⟨9, 0x31, 0, 1, 0, 0⟩, ⟨4, 0x32, 7, 1, 3, 0⟩]

theorem set_redir_entry_three_calls :
    Decodes ((threeCalls.foldl
      (fun device call => (setRedirEntry 0xfec00000 device call).2) ⟨0, fun _ => 0xdead⟩).entry 4)
        ⟨4, 0x32, 7, 1, 3, 0⟩ := by
  have valid : ∀ call ∈ threeCalls, call.Valid := by
    intro call member
    simp only [threeCalls, List.mem_cons, List.not_mem_nil, or_false] at member
    obtain rfl | rfl | rfl := member
    · exact ⟨by decide, by decide, by decide, by decide⟩
    · exact ⟨by decide, by decide, by decide, by decide⟩
    · exact ⟨by decide, by decide, by decide, by decide⟩
  exact (set_redir_entry_refines_map 0xfec00000 ⟨0, fun _ => 0xdead⟩ threeCalls valid).1 4 _
    (by decide)

end Lord84
