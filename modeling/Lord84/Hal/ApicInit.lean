import Lord84.Drivers.Pmt
import Lord84.Sys.AcpiMadt

/-!
# From the firmware to the interrupt controllers

A model of `acpi_init` of `src/sys/acpi.c`, `apic_init` of `src/hal/apic.c` and what it calls:
`ioapic_init`, `timer_init` and `pmt_init`.  The root pointer leads to the root table, this to
the MADT and the FADT, and these to the registers of the local APIC, of the IOAPIC and of the
timer that calibrates the APIC's own.
-/

namespace Lord84

open Theory

/-! ## The functions -/

/-- The globals `xsdt`, `rsdt` and `madt`. -/
structure AcpiGlobals where
  xsdt : Word
  rsdt : Word
  madt : Word
  deriving DecidableEq, Repr

/-- The globals `fadt`, `use_ext` and `calibration_timer`. -/
structure TimerGlobals where
  fadt : Word
  useExt : Bool
  calibrationTimer : Int
  deriving DecidableEq, Repr

/-- What `apic_init` leaves behind: the globals `lapic_address` and `ioapic_address`, and those
of the timers. -/
structure Controllers where
  lapicAddress : Word
  ioapicAddress : Word
  timers : TimerGlobals
  deriving DecidableEq, Repr

/-- `PMT` of `enum USABLE_TIMERS` -/
def calibrationPmt : Int := 1

section Source

variable (hhdmoffset : Word) (memory : Memory)

/-- `xsdt` and `rsdt`, as `acpi_init` sets them. -/
def rootTables (rsdp : Word) : Word × Word :=
  if 2 ≤ memory (rsdp + 15) then
    (memory.read64 (rsdp + 24) + hhdmoffset, 0)
  else
    (0, (memory.read32 (rsdp + 16)).setWidth 64 + hhdmoffset)

/-- `acpi_init`, where the bootloader answers with the root pointer or not at all.  `apic` is
the string it looks for. -/
def acpiInit (response : Option Word) (apic : Word) : Outcome AcpiGlobals :=
  match response with
  | none => .killed
  | some rsdp =>
      let (xsdt, rsdt) := rootTables hhdmoffset memory rsdp
      let madt := findAcpiTable hhdmoffset memory xsdt rsdt apic
      if madt = 0 then .killed else .done ⟨xsdt, rsdt, madt⟩

/-- `X_PMT_TMR_BLOCK_OFFSET` -/
def xPmtTmrBlockOffset : BitVec 32 := 208

/-- The fields of the FADT that `pmt_delay` uses. -/
def fadtFields (fadt : Word) : Fadt where
  pmTimerBlock := memory.read32 (fadt + 76)
  xPmTimerBlock := ⟨memory (fadt + 208), memory.read64 (fadt + 212)⟩

/-- The test of `pmt_init` for the extended fields. -/
def usesExtended (fadt : Word) : Bool :=
  decide (2 ≤ memory (fadt + 8)) && (memory.read64 (fadt + 212) != 0) &&
    decide (xPmtTmrBlockOffset ≤ tableLength memory fadt)

variable (acpi : AcpiGlobals) (facp : Word)

/-- `pmt_init`, with the globals it sets.  `facp` is the string it looks for. -/
def pmtInit : Outcome (Int × Word × Bool) :=
  let fadt := findAcpiTable hhdmoffset memory acpi.xsdt acpi.rsdt facp
  if fadt = 0 then .killed
  else
    let fadt := fadt + hhdmoffset
    if memory (fadt + 91) = 0 then .done (-1, fadt, false)
    else .done (0, fadt, usesExtended memory fadt)

/-- `timer_init` -/
def timerInit : Outcome TimerGlobals := do
  let (found, fadt, useExt) ← pmtInit hhdmoffset memory acpi facp
  if found = -1 then
    return ⟨fadt, useExt, -1⟩
  else
    return ⟨fadt, useExt, calibrationPmt⟩

/-- `ioapic_init`, given up after `fuel` tests of the loop condition of `find_ics`. -/
def ioapicInit (fuel : Nat) : Option (Outcome Word) := do
  let ioapic ← findIcs memory acpi.madt 1 fuel
  if ioapic = 0 then
    return .killed
  else
    return .done ((memory.read32 (ioapic + 4)).setWidth 64 + hhdmoffset)

/-- `lapic_address`, as `apic_init` sets it, given up likewise. -/
def lapicAddress (fuel : Nat) : Option Word := do
  let base := (memory.read32 (acpi.madt + 36)).setWidth 64 + hhdmoffset
  let override ← findIcs memory acpi.madt 5 fuel
  if override = 0 then
    return base
  else if memory.read64 (override + 4) = 0 then
    return base
  else
    return memory.read64 (override + 4) + hhdmoffset

/-- `pmt_delay`, given up likewise. -/
def pmtDelay (reads : TimerReads) (useExt : Bool) (fadt : Fadt) (us : Word) (fuel : Nat) :
    Option Nat :=
  loopFor (pmtDelayStep reads useExt fadt us (pmtSample reads useExt fadt 0)) fuel (0, 0)

/-- `apic_init` up to the calibrating delay in `lapic_timer_init`. -/
def apicInit (reads : TimerReads) (fuel : Nat) : Option (Outcome Controllers) := do
  let lapic ← lapicAddress hhdmoffset memory acpi fuel
  let ioapic ← ioapicInit hhdmoffset memory acpi fuel
  let found : Outcome Controllers := do
    let ioapic ← ioapic
    let timers ← timerInit hhdmoffset memory acpi facp
    return ⟨lapic, ioapic, timers⟩
  match found with
  | .done controllers =>
      let timers := controllers.timers
      let _ ← pmtDelay reads timers.useExt (fadtFields memory timers.fadt) 10000 fuel
      return .done controllers
  | stopped => return stopped

end Source

/-! ## What the firmware says -/

/-- The root pointer leads to a root table that lists these tables. -/
def EncodesRoot (hhdmoffset : Word) (memory : Memory) (rsdp : Word) (addresses : List Word) :
    Prop :=
  let (xsdt, rsdt) := rootTables hhdmoffset memory rsdp
  if 2 ≤ memory (rsdp + 15) then
    xsdt ≠ 0 ∧ EncodesXsdt memory xsdt addresses
  else
    EncodesRsdt memory rsdt addresses

namespace Ics

/-- The bytes of a structure, as they stand in memory from address 0 on. -/
def contents (ics : Ics) : Memory :=
  fun offset => ics.bytes.getD offset.toNat 0

/-- `ioapic->ioapic_address` -/
def ioapicAddress (ics : Ics) : BitVec 32 :=
  ics.contents.read32 4

/-- `lapic_ao->lapic_address` -/
def lapicAddress (ics : Ics) : Word :=
  ics.contents.read64 4

/-- The structures that `apic_init` uses have all their fields. -/
def Whole (ics : Ics) : Prop :=
  (ics.type = 1 → 8 ≤ ics.bytes.length) ∧ (ics.type = 5 → 12 ≤ ics.bytes.length)

end Ics

/-- The physical address of the local APIC: the one that the MADT gives, unless its first
override gives another. -/
def lapicPhysical (base : BitVec 32) (structures : List Ics) : Word :=
  match structures.find? fun ics => ics.type = 5 with
  | some override =>
      if override.lapicAddress = 0 then base.setWidth 64 else override.lapicAddress
  | none => base.setWidth 64

/-- The globals of the timers, for the FADT at this address. -/
def timersOf (memory : Memory) (fadt : Word) : TimerGlobals :=
  if memory (fadt + 91) = 0 then ⟨fadt, false, -1⟩
  else ⟨fadt, usesExtended memory fadt, calibrationPmt⟩

section Correctness

variable {hhdmoffset : Word} {memory : Memory} {rsdp : Word} {addresses : List Word}
  {madt : Word} {structures before after : List Ics} {ics : Ics}

/-- The search goes through the tables of the root pointer, whichever root table it is. -/
theorem EncodesRoot.findAcpiTable (root : EncodesRoot hhdmoffset memory rsdp addresses)
    (signature : Word) :
    findAcpiTable hhdmoffset memory (rootTables hhdmoffset memory rsdp).1
        (rootTables hhdmoffset memory rsdp).2 signature =
      (addresses.find? fun address =>
        HasSignature hhdmoffset memory signature address).getD 0 := by
  rw [EncodesRoot] at root
  by_cases extended : 2 ≤ memory (rsdp + 15)
  · simp only [rootTables, if_pos extended] at root ⊢
    obtain ⟨used, encodes⟩ := root
    apply findAcpiTable_eq (encodes.rootEntries used)
    intro i inside
    rw [rootEntry, if_pos used]
    exact encodes.entries i inside
  · simp only [rootTables, if_neg extended] at root ⊢
    exact findAcpiTable_eq root.rootEntries root.entries

/-- A structure in the table reads like its own bytes. -/
theorem EncodesMadt.readLE_at (encodes : EncodesMadt memory madt structures)
    (split : structures = before ++ ics :: after) (offset : Word) (count : Nat)
    (inside : offset.toNat + count ≤ ics.bytes.length) :
    memory.readLE (icsAddress madt before + offset) count = ics.contents.readLE offset count := by
  have short := ics.short
  have length := ics.length_bytes
  apply Memory.readLE_congr
  intro k small
  have here : offset.toNat + k < ics.bytes.length := by omega
  have position : (offset + BitVec.ofNat 64 k).toNat = offset.toNat + k := by
    rw [BitVec.toNat_add, BitVec.toNat_ofNat]
    omega
  have address : icsAddress madt before + offset + BitVec.ofNat 64 k =
      icsAddress madt before + BitVec.ofNat 64 (offset.toNat + k) := by
    rw [BitVec.add_assoc, ← position, BitVec.ofNat_toNat, BitVec.setWidth_eq]
  rw [address, encodes.byte_at split here, Ics.contents, position, List.getD_eq_getElem _ _ here]

/-- The first structure of a type is the one that `find_ics` finds. -/
theorem EncodesMadt.findIcs_find (encodes : EncodesMadt memory madt structures) (type : Byte) :
    (∃ before ics after, structures = before ++ ics :: after ∧
      structures.find? (fun ics => ics.type = type) = some ics ∧
      ∃ enough, ∀ fuel ≥ enough,
        findIcs memory madt (type.setWidth 64) fuel = some (icsAddress madt before)) ∨
    structures.find? (fun ics => ics.type = type) = none ∧
      ∃ enough, ∀ fuel ≥ enough, findIcs memory madt (type.setWidth 64) fuel = some 0 := by
  have sameType : ∀ ics : Ics, ics.type.setWidth 64 = (type.setWidth 64 : Word) ↔
      ics.type = type := by
    intro ics
    constructor
    · intro same
      bv_omega
    · rintro rfl
      rfl
  rcases encodes.findIcs_returns (type.setWidth 64) with
    ⟨before, ics, after, first, returns⟩ | ⟨missing, returns⟩
  · left
    refine ⟨before, ics, after, first.split, ?_, returns.eventually⟩
    rw [List.find?_eq_some_iff_append]
    refine ⟨decide_eq_true ((sameType ics).mp first.selected), before, after, first.split, ?_⟩
    intro other passed
    simpa [sameType] using first.first other passed
  · right
    refine ⟨?_, returns.eventually⟩
    rw [List.find?_eq_none]
    intro other member
    simpa [sameType] using missing other member

theorem IsFirstTable.of_signed {signature head table : Word}
    (first : IsFirstTable hhdmoffset memory signature (head :: addresses) table)
    (signed : HasSignature hhdmoffset memory signature head) : table = head := by
  rcases first with ⟨before, after, split, -, passed⟩ | ⟨-, missing⟩
  · cases before with
    | nil => exact (List.cons.inj split).1.symm
    | cons other before =>
        obtain ⟨rfl, -⟩ := List.cons.inj split
        exact absurd signed (passed head List.mem_cons_self)
  · exact absurd signed (missing head List.mem_cons_self)

theorem IsFirstTable.of_unsigned {signature head table : Word}
    (first : IsFirstTable hhdmoffset memory signature (head :: addresses) table)
    (unsigned : ¬ HasSignature hhdmoffset memory signature head) :
    IsFirstTable hhdmoffset memory signature addresses table := by
  rcases first with ⟨before, after, split, here, passed⟩ | ⟨zero, missing⟩
  · cases before with
    | nil =>
        obtain ⟨rfl, -⟩ := List.cons.inj split
        exact absurd here unsigned
    | cons other before =>
        exact .inl ⟨before, after, (List.cons.inj split).2, here,
          fun address member => passed address (List.mem_cons_of_mem _ member)⟩
  · exact .inr ⟨zero, fun address member => missing address (List.mem_cons_of_mem _ member)⟩

variable {acpi : AcpiGlobals}

/-- `ioapic_init` comes to the first I/O APIC of the table. -/
theorem EncodesMadt.ioapicInit (encodes : EncodesMadt memory acpi.madt structures)
    (whole : ∀ ics ∈ structures, ics.Whole) :
    ∃ enough, ∀ fuel ≥ enough, ioapicInit hhdmoffset memory acpi fuel =
      some (match structures.find? fun ics => ics.type = 1 with
        | some ioapic => .done (ioapic.ioapicAddress.setWidth 64 + hhdmoffset)
        | none => .killed) := by
  rcases encodes.findIcs_find 1 with
    ⟨before, ioapic, after, split, found, enough, finds⟩ | ⟨none, enough, finds⟩
  · refine ⟨enough, fun fuel more => ?_⟩
    have here := finds fuel more
    have fields : 8 ≤ ioapic.bytes.length :=
      (whole ioapic (List.mem_of_find?_eq_some found)).1
        (by simpa using List.find?_some found)
    have address : memory.read32 (icsAddress acpi.madt before + 4) = ioapic.ioapicAddress := by
      rw [Ics.ioapicAddress, Memory.read32, Memory.read32, encodes.readLE_at split 4 4 fields]
    rw [Lord84.ioapicInit, show (1 : Word) = (1 : Byte).setWidth 64 from rfl, here, found]
    simp only [Option.bind_eq_bind, Option.bind_some]
    rw [if_neg (encodes.icsAddress_ne_zero split), address]
    rfl
  · refine ⟨enough, fun fuel more => ?_⟩
    rw [Lord84.ioapicInit, show (1 : Word) = (1 : Byte).setWidth 64 from rfl, finds fuel more, none]
    rfl

/-- `apic_init` takes the address of the local APIC from the first override, if there is one,
and else from the head of the table. -/
theorem EncodesMadt.lapicAddress (encodes : EncodesMadt memory acpi.madt structures)
    (whole : ∀ ics ∈ structures, ics.Whole) :
    ∃ enough, ∀ fuel ≥ enough, lapicAddress hhdmoffset memory acpi fuel =
      some (lapicPhysical (memory.read32 (acpi.madt + 36)) structures + hhdmoffset) := by
  rcases encodes.findIcs_find 5 with
    ⟨before, override, after, split, found, enough, finds⟩ | ⟨none, enough, finds⟩
  · refine ⟨enough, fun fuel more => ?_⟩
    have here := finds fuel more
    have fields : 12 ≤ override.bytes.length :=
      (whole override (List.mem_of_find?_eq_some found)).2
        (by simpa using List.find?_some found)
    have address : memory.read64 (icsAddress acpi.madt before + 4) = override.lapicAddress := by
      rw [Ics.lapicAddress, Memory.read64, Memory.read64, encodes.readLE_at split 4 8 fields]
    rw [Lord84.lapicAddress, show (5 : Word) = (5 : Byte).setWidth 64 from rfl, here,
      lapicPhysical, found]
    simp only [Option.bind_eq_bind, Option.bind_some]
    rw [if_neg (encodes.icsAddress_ne_zero split), address]
    split
    · rfl
    · rfl
  · refine ⟨enough, fun fuel more => ?_⟩
    rw [Lord84.lapicAddress, show (5 : Word) = (5 : Byte).setWidth 64 from rfl, finds fuel more,
      lapicPhysical, none]
    rfl

/-- `timer_init` uses the extended fields of the FADT only if the timer exists. -/
theorem timerInit_eq {facp fadt : Word}
    (found : findAcpiTable hhdmoffset memory acpi.xsdt acpi.rsdt facp = fadt) :
    timerInit hhdmoffset memory acpi facp =
      if fadt = 0 then .killed else .done (timersOf memory (fadt + hhdmoffset)) := by
  simp only [timerInit, pmtInit, found, timersOf]
  split
  · rfl
  · split
    · rfl
    · rfl

/-! ## The delay -/

/-- A counter in another address space reads as 0 for ever. -/
theorem pmtDelay_unreadable {reads : TimerReads} {useExt : Bool} {fadt : Fadt} {us : Word}
    (unreadable : ¬ Readable useExt fadt) (some : 0 < pmtTarget us) (fuel : Nat) :
    pmtDelay reads useExt fadt us fuel = none := by
  simp only [Readable, not_or, Bool.not_eq_false] at unreadable
  obtain ⟨rfl, notMemory, notPort⟩ := unreadable
  have zero : ∀ n, pmtSample reads true fadt n = 0 := by
    intro n
    rw [pmtSample, pmtReadReg, if_neg notMemory, if_neg notPort]
    rfl
  have stays : ∀ k, pmtDelayStep reads true fadt us 0 (0, k) = .inl (0, k + 1) := by
    intro k
    rw [pmtDelayStep, if_pos some, zero]
    rfl
  have forever : ∀ fuel k, loopFor (pmtDelayStep reads true fadt us 0) fuel (0, k) = none := by
    intro fuel
    induction fuel with
    | zero => intro k; rfl
    | succ fuel ih =>
        intro k
        rw [loopFor, stays]
        exact ih (k + 1)
  rw [pmtDelay, zero]
  exact forever fuel 0

/-- A counter that gets to the target ends the delay. -/
theorem CountsTicks.pmtDelay {reads : TimerReads} {useExt : Bool} {fadt : Fadt}
    {elapsed : Nat → Nat} (counts : CountsTicks reads useExt fadt elapsed) (us : Word)
    (reached : ∃ k, (pmtTarget us).toNat ≤ elapsed k % 2 ^ 24) :
    ∃ k enough, ∀ fuel ≥ enough, pmtDelay reads useExt fadt us fuel = some k := by
  classical
  have first : IsLeast {k | (pmtTarget us).toNat ≤ elapsed k % 2 ^ 24} (Nat.find reached) :=
    ⟨Nat.find_spec reached, fun k there => Nat.find_min' reached there⟩
  exact ⟨_, ((counts.pmtDelayReturns_iff us _).mpr first).eventually⟩

/-! ## All of `apic_init` -/

/-- More fuel changes nothing. -/
theorem ioapicInit_mono {fuel more : Nat} (enough : fuel ≤ more) {result : Outcome Word}
    (found : ioapicInit hhdmoffset memory acpi fuel = some result) :
    ioapicInit hhdmoffset memory acpi more = some result := by
  rw [ioapicInit] at found ⊢
  obtain ⟨ioapic, finds, rest⟩ := Option.bind_eq_some_iff.mp found
  have same : findIcs memory acpi.madt 1 more = some ioapic := loopFor_mono enough finds
  rw [same]
  exact rest

variable {reads : TimerReads} {facp lapic ioapic : Word} {timers : TimerGlobals} {fuel : Nat}

/-- When everything is found, the delay comes last. -/
theorem apicInit_eq_delay (lapicFound : lapicAddress hhdmoffset memory acpi fuel = some lapic)
    (ioapicFound : ioapicInit hhdmoffset memory acpi fuel = some (.done ioapic))
    (timersFound : timerInit hhdmoffset memory acpi facp = .done timers) :
    apicInit hhdmoffset memory acpi facp reads fuel =
      (pmtDelay reads timers.useExt (fadtFields memory timers.fadt) 10000 fuel).map
        fun _ => .done ⟨lapic, ioapic, timers⟩ := by
  rw [apicInit, lapicFound, ioapicFound, timersFound, Option.map_eq_bind]
  rfl

/-- Without an I/O APIC or a FADT the kernel gives up. -/
theorem apicInit_eq_killed (lapicFound : lapicAddress hhdmoffset memory acpi fuel = some lapic)
    {found : Outcome Word} (ioapicFound : ioapicInit hhdmoffset memory acpi fuel = some found)
    (missing : found = .killed ∨
      found = .done ioapic ∧ timerInit hhdmoffset memory acpi facp = .killed) :
    apicInit hhdmoffset memory acpi facp reads fuel = some .killed := by
  rw [apicInit, lapicFound, ioapicFound]
  rcases missing with rfl | ⟨rfl, timers⟩
  · rfl
  · rw [timers]
    rfl

/-- With an I/O APIC and a FADT `apic_init` ends only behind the delay. -/
theorem EncodesMadt.apicInit_cases (encodes : EncodesMadt memory acpi.madt structures)
    (whole : ∀ ics ∈ structures, ics.Whole) {fadt : Word}
    (found : findAcpiTable hhdmoffset memory acpi.xsdt acpi.rsdt facp = fadt)
    (first : structures.find? (fun ics => ics.type = 1) = some ics) (present : fadt ≠ 0)
    (reads : TimerReads) (fuel : Nat) :
    apicInit hhdmoffset memory acpi facp reads fuel = none ∨
      ∃ controllers : Controllers, controllers.timers = timersOf memory (fadt + hhdmoffset) ∧
        apicInit hhdmoffset memory acpi facp reads fuel =
          (pmtDelay reads controllers.timers.useExt
            (fadtFields memory controllers.timers.fadt) 10000 fuel).map
              fun _ => .done controllers := by
  have timers := timerInit_eq found
  rw [if_neg present] at timers
  cases lapic : Lord84.lapicAddress hhdmoffset memory acpi fuel with
  | none =>
      rw [Lord84.apicInit, lapic]
      exact Or.inl rfl
  | some address =>
      cases ioapic : Lord84.ioapicInit hhdmoffset memory acpi fuel with
      | none =>
          rw [Lord84.apicInit, lapic, ioapic]
          exact Or.inl rfl
      | some result =>
          obtain ⟨enough, returns⟩ := @EncodesMadt.ioapicInit hhdmoffset _ _ _ encodes whole
          have later := ioapicInit_mono (Nat.le_max_left fuel enough) ioapic
          rw [returns _ (Nat.le_max_right fuel enough), first] at later
          cases later
          exact Or.inr ⟨_, rfl, apicInit_eq_delay lapic ioapic timers⟩

/-- The ways in which `apic_init` can go on from a MADT.  It is killed exactly if the I/O APIC or
the FADT is missing, whatever the timer reads. -/
structure ApicInitSpec (hhdmoffset : Word) (memory : Memory) (acpi : AcpiGlobals)
    (facp fadt : Word) (structures : List Ics) : Prop where
  killed : structures.find? (fun ics => ics.type = 1) = none ∨ fadt = 0 →
    ∀ reads, ∃ enough, ∀ fuel ≥ enough,
      apicInit hhdmoffset memory acpi facp reads fuel = some .killed
  notKilled : ∀ ioapic, structures.find? (fun ics => ics.type = 1) = some ioapic → fadt ≠ 0 →
    ∀ reads fuel, apicInit hhdmoffset memory acpi facp reads fuel ≠ some .killed
  waits : ∀ ioapic, structures.find? (fun ics => ics.type = 1) = some ioapic → fadt ≠ 0 →
    let timers := timersOf memory (fadt + hhdmoffset)
    ¬ Readable timers.useExt (fadtFields memory timers.fadt) →
      ∀ reads fuel, apicInit hhdmoffset memory acpi facp reads fuel = none
  done : ∀ ioapic, structures.find? (fun ics => ics.type = 1) = some ioapic → fadt ≠ 0 →
    let timers := timersOf memory (fadt + hhdmoffset)
    Readable timers.useExt (fadtFields memory timers.fadt) → ∀ reads elapsed,
      CountsTicks reads timers.useExt (fadtFields memory timers.fadt) elapsed →
      (∃ k, 35795 ≤ elapsed k % 2 ^ 24) → ∃ enough, ∀ fuel ≥ enough,
        apicInit hhdmoffset memory acpi facp reads fuel = some (.done
          ⟨lapicPhysical (memory.read32 (acpi.madt + 36)) structures + hhdmoffset,
            ioapic.ioapicAddress.setWidth 64 + hhdmoffset, timers⟩)

theorem EncodesMadt.apicInit (encodes : EncodesMadt memory acpi.madt structures)
    (whole : ∀ ics ∈ structures, ics.Whole) {fadt : Word}
    (found : findAcpiTable hhdmoffset memory acpi.xsdt acpi.rsdt facp = fadt) :
    ApicInitSpec hhdmoffset memory acpi facp fadt structures := by
  obtain ⟨lapicEnough, lapicFound⟩ := @EncodesMadt.lapicAddress hhdmoffset _ _ _ encodes whole
  obtain ⟨ioapicEnough, ioapicFound⟩ := @EncodesMadt.ioapicInit hhdmoffset _ _ _ encodes whole
  have timers := timerInit_eq found
  constructor
  case killed =>
    intro missing reads
    refine ⟨max lapicEnough ioapicEnough, fun fuel more => ?_⟩
    have lapic := lapicFound fuel ((Nat.le_max_left _ _).trans more)
    have ioapic := ioapicFound fuel ((Nat.le_max_right _ _).trans more)
    cases first : structures.find? fun ics => ics.type = 1 with
    | none =>
        rw [first] at ioapic
        exact @apicInit_eq_killed _ _ _ _ _ _ 0 _ lapic _ ioapic (Or.inl rfl)
    | some ics =>
        rw [first] at ioapic missing
        rw [if_pos (missing.resolve_left (by simp))] at timers
        exact apicInit_eq_killed lapic ioapic (Or.inr ⟨rfl, timers⟩)
  case notKilled =>
    intro ics first present reads fuel
    rcases encodes.apicInit_cases whole found first present reads fuel with none | ⟨_, -, delay⟩
    · rw [none]
      exact Option.some_ne_none _ |>.symm
    · rw [delay]
      cases pmtDelay _ _ _ _ fuel with
      | none => exact Option.some_ne_none _ |>.symm
      | some count => simp
  case waits =>
    intro ics first present timer unreadable reads fuel
    rcases encodes.apicInit_cases whole found first present reads fuel with none | ⟨_, same, delay⟩
    · exact none
    · rw [delay, same, pmtDelay_unreadable unreadable (by decide)]
      rfl
  case done =>
    intro ics first present timer readable reads elapsed counts reached
    rw [if_neg present] at timers
    obtain ⟨k, delayEnough, delayed⟩ := counts.pmtDelay 10000 reached
    refine ⟨max delayEnough (max lapicEnough ioapicEnough), fun fuel more => ?_⟩
    have rest := (Nat.le_max_right _ _).trans more
    have lapic := lapicFound fuel ((Nat.le_max_left _ _).trans rest)
    have ioapic := ioapicFound fuel ((Nat.le_max_right _ _).trans rest)
    rw [first] at ioapic
    rw [apicInit_eq_delay lapic ioapic timers, delayed fuel ((Nat.le_max_left _ _).trans more)]
    rfl

end Correctness

/-- `acpi_init` and `apic_init` on every firmware with a root table of either kind and a MADT of
whole structures.  They find the first MADT and the first FADT of the root table, the local APIC
where the first override puts it and else where the MADT does, and the first I/O APIC; the kernel
gives up exactly if a table or the I/O APIC is missing.  Otherwise `apic_init` comes to its end
if the timer's counter gets on, and it never does if the FADT puts the counter into an address
space that `pmt_read_reg` does not know, for that is not what `pmt_init` tests. -/
theorem apic_init_reads_firmware {hhdmoffset : Word} {memory : Memory} {rsdp apic : Word}
    (facp : Word) {addresses : List Word} {structures : List Ics}
    (root : EncodesRoot hhdmoffset memory rsdp addresses)
    (nonzero : ∀ address ∈ addresses, address ≠ 0)
    (table : ∀ madt, IsFirstTable hhdmoffset memory apic addresses madt → madt ≠ 0 →
      EncodesMadt memory madt structures)
    (whole : ∀ ics ∈ structures, ics.Whole) :
    ∃ madt fadt,
      IsFirstTable hhdmoffset memory apic addresses madt ∧
      IsFirstTable hhdmoffset memory facp addresses fadt ∧
      (madt = 0 → acpiInit hhdmoffset memory (some rsdp) apic = .killed) ∧
      (madt ≠ 0 → ∃ acpi, acpi.madt = madt ∧
        acpiInit hhdmoffset memory (some rsdp) apic = .done acpi ∧
        ApicInitSpec hhdmoffset memory acpi facp fadt structures) := by
  have search := root.findAcpiTable
  obtain ⟨isMadt, -⟩ := isFirstTable_find nonzero (search apic).symm
  obtain ⟨isFadt, -⟩ := isFirstTable_find nonzero (search facp).symm
  refine ⟨_, _, isMadt, isFadt, ?_, ?_⟩
  · intro missing
    simp only [acpiInit, missing, if_true]
  · intro present
    refine ⟨_, rfl, by rw [acpiInit]; exact if_neg present, ?_⟩
    exact (table _ isMadt present).apicInit whole rfl

/-- A root pointer at address 0 and an RSDT at `0x1000` that lists a FADT at `0x3000` and a MADT
at `0x5000` with one I/O APIC.  The strings stand at `0x4000` and `0x4004`. -/
def smallFirmware : Memory :=
  [(0x0010, 4, 0x1000), (0x1004, 4, 44), (0x1024, 4, 0x3000), (0x1028, 4, 0x5000),
    (0x3000, 4, 0x50434146), (0x3004, 4, 116), (0x304c, 4, 0x608), (0x305b, 1, 4),
    (0x4000, 4, 0x43495041), (0x4004, 4, 0x50434146), (0x5000, 4, 0x43495041), (0x5004, 4, 56),
    (0x5024, 4, 0xfee00000), (0x502c, 2, 0x0c01), (0x5030, 4, 0xfec00000)].foldl
      (fun memory (write : Word × Nat × Nat) => memory.writeLE write.1 write.2.1 write.2.2)
      fun _ => 0

/-- Its I/O APIC. -/
def smallIoapic : Ics :=
  ⟨1, [0, 0, 0, 0, 0xc0, 0xfe, 0, 0, 0, 0], by decide, by decide⟩

/-- On it `apic_init` finds both controllers, with a counter that is sampled at every tick. -/
theorem apic_init_reads_firmware_small : ∃ enough, ∀ fuel ≥ enough,
    apicInit 0 smallFirmware ⟨0, 0x1000, 0x5000⟩ 0x4004 (everyTick 0) fuel =
      some (.done ⟨0xfee00000, 0xfec00000, ⟨0x3000, false, calibrationPmt⟩⟩) := by
  have encodes : EncodesMadt smallFirmware 0x5000 [smallIoapic] :=
    ⟨by decide +kernel, by decide +kernel, by decide +kernel⟩
  have isMadt : ∀ {table}, IsFirstTable 0 smallFirmware 0x4000 [0x3000, 0x5000] table →
      table = 0x5000 :=
    fun first => (first.of_unsigned (by decide +kernel)).of_signed (by decide +kernel)
  have isFadt : ∀ {table}, IsFirstTable 0 smallFirmware 0x4004 [0x3000, 0x5000] table →
      table = 0x3000 :=
    fun first => first.of_signed (by decide +kernel)
  have root : EncodesRoot 0 smallFirmware 0 [0x3000, 0x5000] :=
    ⟨by decide +kernel, by decide +kernel⟩
  obtain ⟨madt, fadt, madtFirst, fadtFirst, -, present⟩ :=
    @apic_init_reads_firmware 0 smallFirmware 0 0x4000 0x4004 [0x3000, 0x5000] [smallIoapic] root
      (by simp) (fun _ first _ => isMadt first ▸ encodes) (by simp [Ics.Whole, smallIoapic])
  cases isMadt madtFirst
  cases isFadt fadtFirst
  obtain ⟨acpi, -, booted, spec⟩ := present (by decide)
  have ran : acpiInit 0 smallFirmware (some 0) 0x4000 = .done ⟨0, 0x1000, 0x5000⟩ := by
    decide +kernel
  cases booted.symm.trans ran
  have timers : timersOf smallFirmware (0x3000 + 0) = ⟨0x3000, false, calibrationPmt⟩ := by
    decide +kernel
  have lapic : lapicPhysical (smallFirmware.read32 (0x5000 + 36)) [smallIoapic] = 0xfee00000 := by
    decide +kernel
  have ioapic : smallIoapic.ioapicAddress = 0xfec00000 := by
    decide +kernel
  have done := spec.done smallIoapic rfl (by decide)
  simp only [timers, lapic, ioapic] at done
  have counts := (show Readable false (fadtFields smallFirmware 0x3000) from
    Or.inl rfl).everyTick_counts (everyTick 0)
  exact done (Or.inl rfl) (everyTick 0) id counts.2 ⟨35795, by decide⟩

end Lord84
