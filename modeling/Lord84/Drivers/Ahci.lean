import Lord84.Theory.Loop
import Lord84.Lib.Support

/-!
# The AHCI handoff

A model of `ahci_init` of `src/drivers/ahci.c`.  What the function does is recorded as a list
of events; `responses` are the values that the controller gives to the reads of its
registers, one after the other.
-/

namespace Lord84

open Theory

/-- What `ahci_init` does outside its own variables. -/
inductive AhciEvent where
  | kkill
  | setCommand (command : BitVec 16)
  | kernelMapPages (physAddr : Word) (pageCount : Word) (flags : Word)
  | read (address : Word) (value : BitVec 32)
  | write (address : Word) (data : BitVec 32)
  | apicSleep (ms : Nat)
  deriving DecidableEq, Repr

/-- The fields of `pci_header_0_t` that `ahci_init` uses. -/
structure AhciHeader where
  command : BitVec 16
  bar5 : BitVec 32
  deriving DecidableEq, Repr

/-- `AHCI_GHC_REG` -/
def ahciGhcReg : BitVec 16 := 0x04

/-- `AHCI_BOHC_REG` -/
def ahciBohcReg : BitVec 16 := 0x28

/-- `ahci_base_address`, the number of reads so far, and all events. -/
structure AhciRun where
  ahciBaseAddress : Word
  reads : Nat
  events : List AhciEvent
  deriving DecidableEq, Repr

/-- The run goes on with an event. -/
def AhciRun.record (run : AhciRun) (event : AhciEvent) : AhciRun :=
  { run with events := run.events ++ [event] }

section Source

variable (responses : Nat → BitVec 32)

/-- `ahci_read_reg` -/
def ahciReadReg (reg : BitVec 16) (run : AhciRun) : BitVec 32 × AhciRun :=
  let value := responses run.reads
  (value, { run.record (.read (run.ahciBaseAddress + reg.setWidth 64) value) with
    reads := run.reads + 1 })

/-- `ahci_write_reg` -/
def ahciWriteReg (reg : BitVec 16) (data : BitVec 32) (run : AhciRun) : AhciRun :=
  run.record (.write (run.ahciBaseAddress + reg.setWidth 64) data)

/-- One turn of the loop that waits for the handoff; the state holds `bohc`. -/
def handoffStep : BitVec 32 × AhciRun → (BitVec 32 × AhciRun) ⊕ AhciRun
  | (bohc, run) =>
      if bohc &&& 0b01 ≠ 1 ∧ bohc &&& 0b1 ≠ 0 then
        .inl (ahciReadReg responses ahciBohcReg (run.record (.apicSleep 200)))
      else
        .inr run

/-- `ahci_init` with at most `fuel` tests of the loop condition; `none` if it is still
waiting.  `header` is the result of `pci_find_device`. -/
def ahciInit (hhdmoffset : Word) (header : Option AhciHeader) (fuel : Nat) : Option AhciRun :=
  match header with
  | none => some ⟨0, 0, [.kkill]⟩
  | some header =>
      let run : AhciRun := ⟨(header.bar5 &&& 0xfffff000).setWidth 64, 0, []⟩
      -- AHCI_MSE | AHCI_BME | AHCI_INT_ENABLED
      let run := run.record (.setCommand (header.command ||| (0x02 ||| 0x03 ||| 1 <<< 10)))
      -- PTE_BIT_RW | PTE_BIT_NX | PTE_BIT_UNCACHABLE
      let run := run.record (.kernelMapPages run.ahciBaseAddress 1
        (0x2 ||| 0x4000000000000000 ||| 1 <<< 4))
      let run := { run with ahciBaseAddress := run.ahciBaseAddress + hhdmoffset }
      let (bohc, run) := ahciReadReg responses ahciBohcReg run
      let run := ahciWriteReg ahciBohcReg (bohc ||| 0x2) run
      let waiting := ahciReadReg responses ahciBohcReg run
      (loopFor (handoffStep responses) fuel waiting).map (ahciWriteReg ahciGhcReg 1)

end Source

/-! ## The protocol -/

/-- The value of the most recent read of an address. -/
def lastRead (address : Word) (events : List AhciEvent) : Option (BitVec 32) :=
  events.reverse.findSome? fun
    | .read other value => if other = address then some value else none
    | _ => none

/-- The operating system has asked for the controller and has seen the BIOS release it. -/
structure HandoffComplete (base : Word) (events : List AhciEvent) : Prop where
  requested : ∃ value, .write (base + ahciBohcReg.setWidth 64) value ∈ events ∧
    value.getLsbD 1 = true
  released : ∃ value, lastRead (base + ahciBohcReg.setWidth 64) events = some value ∧
    value.getLsbD 0 = false

/-- The controller is reset after a complete handoff only. -/
def ResetAfterHandoff (run : AhciRun) : Prop :=
  ∀ before data after,
    run.events = before ++ .write (run.ahciBaseAddress + ahciGhcReg.setWidth 64) data :: after →
      HandoffComplete run.ahciBaseAddress before

/-- The loop never waits: bit 0 cannot be neither 0 nor 1. -/
theorem handoffStep_eq (responses : Nat → BitVec 32) (bohc : BitVec 32) (run : AhciRun) :
    handoffStep responses (bohc, run) = .inr run := by
  have bit : bohc &&& 1 = 1 ∨ bohc &&& 1 = 0 := by
    have small : (bohc &&& 1).toNat = bohc.toNat % 2 := by
      rw [BitVec.toNat_and]
      exact Nat.and_one_is_mod _
    bv_omega
  rw [handoffStep, if_neg]
  rintro ⟨notOne, notZero⟩
  exact bit.elim notOne notZero

/-- `ahci_base_address` when the registers are read. -/
def ahciBase (hhdmoffset : Word) (header : AhciHeader) : Word :=
  (header.bar5 &&& 0xfffff000).setWidth 64 + hhdmoffset

/-- The events before the reset. -/
def handoffEvents (responses : Nat → BitVec 32) (hhdmoffset : Word) (header : AhciHeader) :
    List AhciEvent :=
  [.setCommand (header.command ||| (0x02 ||| 0x03 ||| 1 <<< 10)),
    .kernelMapPages ((header.bar5 &&& 0xfffff000).setWidth 64) 1
      (0x2 ||| 0x4000000000000000 ||| 1 <<< 4),
    .read (ahciBase hhdmoffset header + ahciBohcReg.setWidth 64) (responses 0),
    .write (ahciBase hhdmoffset header + ahciBohcReg.setWidth 64) (responses 0 ||| 0x2),
    .read (ahciBase hhdmoffset header + ahciBohcReg.setWidth 64) (responses 1)]

section Proofs

variable {responses : Nat → BitVec 32} {hhdmoffset : Word} {header : AhciHeader}

/-- All that `ahci_init` does with a controller. -/
theorem ahciInit_some (fuel : Nat) :
    ahciInit responses hhdmoffset (some header) (fuel + 1) =
      some ⟨ahciBase hhdmoffset header, 2, handoffEvents responses hhdmoffset header ++
        [.write (ahciBase hhdmoffset header + ahciGhcReg.setWidth 64) 1]⟩ := by
  simp only [ahciInit, ahciReadReg, ahciWriteReg, AhciRun.record, loopFor, handoffStep_eq,
    Option.map_some, List.nil_append, List.cons_append, ahciBase, handoffEvents]

theorem lastRead_handoffEvents :
    lastRead (ahciBase hhdmoffset header + ahciBohcReg.setWidth 64)
      (handoffEvents responses hhdmoffset header) = some (responses 1) := by
  simp [lastRead, handoffEvents]

/-- The request comes before the reset whatever the controller answers. -/
theorem requested_handoffEvents :
    ∃ value, .write (ahciBase hhdmoffset header + ahciBohcReg.setWidth 64) value ∈
      handoffEvents responses hhdmoffset header ∧ value.getLsbD 1 = true := by
  refine ⟨responses 0 ||| 0x2, by simp [handoffEvents], ?_⟩
  rw [BitVec.getLsbD_or, show (0x2 : BitVec 32).getLsbD 1 = true by decide, Bool.or_true]

/-- The handoff is complete if the controller's second answer says so. -/
theorem handoffComplete_iff :
    HandoffComplete (ahciBase hhdmoffset header) (handoffEvents responses hhdmoffset header) ↔
      (responses 1).getLsbD 0 = false := by
  constructor
  · intro complete
    obtain ⟨value, read, clear⟩ := complete.released
    rw [lastRead_handoffEvents, Option.some.injEq] at read
    rw [read]
    exact clear
  · intro clear
    exact ⟨requested_handoffEvents, responses 1, lastRead_handoffEvents, clear⟩

/-- No write before the reset goes to the same register. -/
theorem reset_notMem_handoffEvents (data : BitVec 32) :
    .write (ahciBase hhdmoffset header + ahciGhcReg.setWidth 64) data ∉
      handoffEvents responses hhdmoffset header := by
  have apart : ahciGhcReg.setWidth 64 ≠ ahciBohcReg.setWidth 64 := by decide
  simp [handoffEvents, apart]

/-- An event that may only be the last one has all the others before it. -/
theorem before_of_last {events before after : List AhciEvent} {last event : AhciEvent}
    (fresh : event ∉ events) (split : events ++ [last] = before ++ event :: after) :
    before = events := by
  obtain ⟨rest, longer, shorter⟩ | ⟨rest, shorter, longer⟩ :=
    List.append_eq_append_iff.mp split
  · cases rest with
    | nil => rw [longer, List.append_nil]
    | cons first rest => simp at shorter
  · cases rest with
    | nil => rw [shorter, List.append_nil]
    | cons first rest =>
        rw [List.cons_append, List.cons.injEq] at longer
        rw [shorter, longer.1] at fresh
        simp at fresh

end Proofs

/-- `ahci_init` ends without waiting, and resets the controller after a complete handoff
exactly if there is no controller or the first value of `BOHC` it reads after its request has
the BIOS-owned bit clear. -/
theorem ahci_init_reset_iff (responses : Nat → BitVec 32) (hhdmoffset : Word)
    (header : Option AhciHeader) :
    ∃ run, (∀ fuel, ahciInit responses hhdmoffset header (fuel + 1) = some run) ∧
      (ResetAfterHandoff run ↔ header = none ∨ (responses 1).getLsbD 0 = false) := by
  cases header with
  | none =>
      refine ⟨⟨0, 0, [.kkill]⟩, fun fuel => rfl, iff_of_true ?_ (Or.inl rfl)⟩
      intro before data after split
      have member : .write (0 + ahciGhcReg.setWidth 64) data ∈ [AhciEvent.kkill] := by
        rw [show [AhciEvent.kkill] = _ from split]
        exact List.mem_append_right before List.mem_cons_self
      simp at member
  | some header =>
      refine ⟨_, ahciInit_some, ?_⟩
      rw [or_iff_right (Option.some_ne_none header), ← @handoffComplete_iff responses hhdmoffset]
      constructor
      · intro ordered
        exact ordered _ 1 [] rfl
      · intro complete before data after split
        rw [before_of_last (reset_notMem_handoffEvents data) split]
        exact complete

/-- A BIOS that does not release the controller has it reset all the same. -/
theorem ahci_init_resets_under_bios :
    ¬ ∀ (responses : Nat → BitVec 32) (hhdmoffset : Word) (header : Option AhciHeader)
      (fuel : Nat) (run : AhciRun), ahciInit responses hhdmoffset header fuel = some run →
        ResetAfterHandoff run := by
  intro claimed
  have ordered := claimed (fun _ => 1) 0 (some ⟨0, 0xfebf0000⟩) 1 _ (ahciInit_some 0)
  have clear := handoffComplete_iff.mp (ordered _ 1 [] rfl)
  exact absurd clear (by decide)

end Lord84
