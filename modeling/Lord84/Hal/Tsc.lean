import Lord84.Hal.Idt

/-!
# The time stamp counter

A model of `src/hal/tsc.c`.  `core_crystal_clock` is meant to be the number of ticks of the
counter in a millisecond.  `tsc_init` takes it from leaf `0x15` of `cpuid` or, where the
processor does not tell, from two reads of the counter a millisecond apart.
-/

namespace Lord84

open Theory

/-- Registers that `__get_cpuid` fills in. -/
structure CpuidRegisters where
  eax : BitVec 32
  ebx : BitVec 32
  ecx : BitVec 32
  edx : BitVec 32
  deriving DecidableEq, Repr

/-- The global of `tsc.c`, and the control register that it changes. -/
structure TscState where
  coreCrystalClock : BitVec 32
  cr4 : Word
  deriving DecidableEq, Repr

/-- `enable_tsc` -/
def enableTsc (s : TscState) : TscState :=
  { s with cr4 := s.cr4 ||| 0b10 }

/-- `disable_tsc` -/
def disableTsc (s : TscState) : TscState :=
  { s with cr4 := s.cr4 &&& 0xfffffffffffffffd }

/-- `read_tsc`; `rdtsc` leaves the halves of the counter in `edx` and `eax`. -/
def readTsc (counter : Word) : Word :=
  let eax : BitVec 32 := counter.setWidth 32
  let edx : BitVec 32 := (counter >>> 32).setWidth 32
  (edx.setWidth 64 <<< 32) ||| eax.setWidth 64

section Source

/- `cpuid` has no value at a leaf that the processor does not know, and `uninitialised` is what
stands in `edx` before.  `counter n` is the time stamp counter at the read number `n`. -/
variable (cpuid : BitVec 32 → Option CpuidRegisters) (uninitialised : BitVec 32)
  (counter : Nat → Word)

/-- `edx` of `tsc_init` -/
def powerManagementFlags : BitVec 32 :=
  match cpuid 0x80000007 with
  | some registers => registers.edx
  | none => uninitialised

/-- `tsc_init` -/
def tscInit (s : TscState) : KStatus × TscState :=
  if powerManagementFlags cpuid uninitialised &&& (1 <<< 8) = 0 then
    (.error, s)
  else
    let s := match cpuid 0x15 with
      | some registers => { s with coreCrystalClock := registers.ecx }
      | none => s
    if s.coreCrystalClock ≠ 0 then
      (.success, enableTsc { s with coreCrystalClock := s.coreCrystalClock * 1000 })
    else
      let s := enableTsc s
      let read1 : BitVec 32 := (readTsc (counter 0)).setWidth 32
      -- `pmt_delay(1000)`
      let read2 : BitVec 32 := (readTsc (counter 1)).setWidth 32
      let s := disableTsc s
      (.success, enableTsc { s with coreCrystalClock := read2 - read1 })

/-- `tsc_get_timestamp` at a value of the counter. -/
def tscGetTimestamp (tsc : Word) (s : TscState) : Word :=
  if s.coreCrystalClock = 0 then
    0
  else
    readTsc tsc / s.coreCrystalClock.setWidth 64

end Source

/-! ## Milliseconds -/

/-- The processor has an invariant counter. -/
def InvariantTsc (cpuid : BitVec 32 → Option CpuidRegisters) (uninitialised : BitVec 32) : Prop :=
  powerManagementFlags cpuid uninitialised &&& (1 <<< 8) ≠ 0

/-- `cpuid` tells the frequency. -/
def CpuidTells (cpuid : BitVec 32 → Option CpuidRegisters) (frequency : BitVec 32) : Prop :=
  ∃ registers, cpuid 0x15 = some registers ∧ registers.ecx = frequency

/-- `cpuid` does not tell the frequency: it does not know the leaf, or reports 0. -/
def CpuidSilent (cpuid : BitVec 32 → Option CpuidRegisters) : Prop :=
  ∀ registers, cpuid 0x15 = some registers → registers.ecx = 0

/-- The divisor is the number of ticks in a millisecond, and timestamps are milliseconds. -/
structure TicksMilliseconds (frequency : BitVec 32) (s : TscState) : Prop where
  divisor : s.coreCrystalClock.toNat = frequency.toNat / 1000
  timestamp : ∀ tsc : Word, (tscGetTimestamp tsc s).toNat = tsc.toNat / (frequency.toNat / 1000)

/-- The calibration with `cpuid` gives milliseconds. -/
def CpuidCalibrates (frequency : BitVec 32) : Prop :=
  ∀ cpuid uninitialised counter s, InvariantTsc cpuid uninitialised →
    s.coreCrystalClock = 0 → CpuidTells cpuid frequency →
      TicksMilliseconds frequency (tscInit cpuid uninitialised counter s).2

/-- The calibration with the timer gives milliseconds, if its two reads are one apart. -/
def PmtCalibrates (frequency : BitVec 32) : Prop :=
  ∀ cpuid uninitialised counter s, InvariantTsc cpuid uninitialised →
    s.coreCrystalClock = 0 → CpuidSilent cpuid →
    counter 1 = counter 0 + BitVec.ofNat 64 (frequency.toNat / 1000) →
      TicksMilliseconds frequency (tscInit cpuid uninitialised counter s).2

section Proofs

variable {cpuid : BitVec 32 → Option CpuidRegisters} {uninitialised : BitVec 32}
  {counter : Nat → Word} {s : TscState} {frequency : BitVec 32}

@[simp] theorem readTsc_eq (tsc : Word) : readTsc tsc = tsc := by
  apply BitVec.eq_of_getLsbD_eq
  intro bit inside
  simp only [readTsc, BitVec.getLsbD_or, BitVec.getLsbD_shiftLeft, BitVec.getLsbD_setWidth,
    BitVec.getLsbD_ushiftRight]
  grind

@[simp] theorem coreCrystalClock_enableTsc : (enableTsc s).coreCrystalClock = s.coreCrystalClock :=
  rfl

/-- The divisor alone decides. -/
theorem ticksMilliseconds_iff (slow : 1000 ≤ frequency.toNat) :
    TicksMilliseconds frequency s ↔ s.coreCrystalClock.toNat = frequency.toNat / 1000 := by
  refine ⟨TicksMilliseconds.divisor, fun divisor => ⟨divisor, fun tsc => ?_⟩⟩
  have nonzero : s.coreCrystalClock ≠ 0 := by
    intro zero
    rw [zero] at divisor
    have : 0 < frequency.toNat / 1000 := Nat.div_pos slow (by decide)
    exact absurd divisor.symm this.ne'
  rw [tscGetTimestamp, if_neg nonzero, readTsc_eq, BitVec.toNat_udiv, BitVec.toNat_setWidth,
    Nat.mod_eq_of_lt (s.coreCrystalClock.isLt.trans (by decide)), divisor]

/-- The divisor from `cpuid`: a product where a quotient is meant. -/
theorem tscInit_of_cpuid (invariant : InvariantTsc cpuid uninitialised)
    (tells : CpuidTells cpuid frequency) (nonzero : frequency ≠ 0) :
    (tscInit cpuid uninitialised counter s).1 = .success ∧
      (tscInit cpuid uninitialised counter s).2.coreCrystalClock = frequency * 1000 := by
  obtain ⟨registers, known, rfl⟩ := tells
  rw [tscInit, if_neg invariant, known]
  simp only [ne_eq, nonzero, not_false_eq_true, if_true, coreCrystalClock_enableTsc, and_self]

/-- The divisor from two reads. -/
theorem tscInit_of_pmt (invariant : InvariantTsc cpuid uninitialised)
    (silent : CpuidSilent cpuid) (unset : s.coreCrystalClock = 0) :
    (tscInit cpuid uninitialised counter s).1 = .success ∧
      (tscInit cpuid uninitialised counter s).2.coreCrystalClock =
        (counter 1).setWidth 32 - (counter 0).setWidth 32 := by
  rw [tscInit, if_neg invariant]
  cases known : cpuid 0x15 with
  | none => simp [unset]
  | some registers => simp [silent registers known]

/-- The only frequency in range whose product with 1000, cut to 32 bits, is its quotient. -/
theorem mul_eq_div_iff (slow : 1000 ≤ frequency.toNat) :
    (frequency * 1000).toNat = frequency.toNat / 1000 ↔ frequency.toNat = 3139624233 := by
  have candidates : ∀ k < 1000, k * 2 ^ 32 % 999999 % 1000 = 0 → k = 0 ∨ k = 731 := by
    decide +kernel
  have bound := frequency.isLt
  rw [BitVec.toNat_mul, show (1000 : BitVec 32).toNat = 1000 from rfl]
  constructor
  · intro same
    -- what is cut off is a multiple of 2^32, and 999999 times the quotient up to the remainder
    have cut : frequency.toNat * 1000 / 2 ^ 32 * 2 ^ 32 =
        1000 * (frequency.toNat % 1000) + 999999 * (frequency.toNat / 1000) := by
      omega
    have remainder : frequency.toNat * 1000 / 2 ^ 32 * 2 ^ 32 % 999999 =
        1000 * (frequency.toNat % 1000) := by
      rw [cut, Nat.add_mul_mod_self_left, Nat.mod_eq_of_lt (by omega)]
    have k := candidates (frequency.toNat * 1000 / 2 ^ 32) (by omega)
      (by rw [remainder, Nat.mul_mod_right])
    omega
  · intro here
    rw [here]

/-- A processor that tells its frequency. -/
def telling (frequency : BitVec 32) (leaf : BitVec 32) : Option CpuidRegisters :=
  if leaf = 0x15 then some ⟨1, 1, frequency, 0⟩ else some ⟨0, 0, 0, 1 <<< 8⟩

theorem telling_invariantTsc (frequency : BitVec 32) : InvariantTsc (telling frequency) 0 :=
  (by decide : (1 <<< 8 : BitVec 32) &&& (1 <<< 8) ≠ 0)

theorem telling_tells (frequency : BitVec 32) : CpuidTells (telling frequency) frequency :=
  ⟨⟨1, 1, frequency, 0⟩, rfl, rfl⟩

theorem cpuidCalibrates_iff (slow : 1000 ≤ frequency.toNat) :
    CpuidCalibrates frequency ↔ frequency.toNat = 3139624233 := by
  have nonzero : frequency ≠ 0 := by
    rintro rfl
    exact absurd slow (by decide)
  constructor
  · intro calibrates
    have invariant := telling_invariantTsc frequency
    have tells := telling_tells frequency
    have divisor := (calibrates _ 0 (fun _ => 0) ⟨0, 0⟩ invariant rfl tells).divisor
    rw [(tscInit_of_cpuid invariant tells nonzero).2] at divisor
    exact (mul_eq_div_iff slow).mp divisor
  · intro coincidence cpuid uninitialised counter s invariant _ tells
    rw [ticksMilliseconds_iff slow, (tscInit_of_cpuid invariant tells nonzero).2]
    exact (mul_eq_div_iff slow).mpr coincidence

theorem pmtCalibrates (slow : 1000 ≤ frequency.toNat) : PmtCalibrates frequency := by
  intro cpuid uninitialised counter s invariant unset silent apart
  rw [ticksMilliseconds_iff slow, (tscInit_of_pmt invariant silent unset).2, apart]
  have bound := frequency.isLt
  rw [BitVec.toNat_sub, BitVec.toNat_setWidth, BitVec.toNat_setWidth, BitVec.toNat_add,
    BitVec.toNat_ofNat]
  omega

end Proofs

/-- The calibration with the timer always gives milliseconds.  The one with `cpuid` never does
without an overflow, and with one only at a frequency where the product happens to wrap around
to the quotient. -/
theorem tsc_init_calibrates (frequency : BitVec 32) (slow : 1000 ≤ frequency.toNat) :
    ¬ (CpuidCalibrates frequency ∧ PmtCalibrates frequency ∧
      BitVec.umulOverflow frequency 1000 = false) ∧
    PmtCalibrates frequency ∧ (CpuidCalibrates frequency ↔ frequency.toNat = 3139624233) := by
  refine ⟨?_, pmtCalibrates slow, cpuidCalibrates_iff slow⟩
  rintro ⟨calibrates, -, fits⟩
  have wrapped := (cpuidCalibrates_iff slow).mp calibrates
  rw [BitVec.umulOverflow, wrapped] at fits
  exact absurd fits (by decide)

/-- A crystal of 24 MHz. -/
theorem tsc_init_24_mhz : ¬ CpuidCalibrates 24000000 := by
  have calibrated := tsc_init_calibrates 24000000 (by decide)
  exact fun calibrates => absurd (calibrated.2.2.mp calibrates) (by decide)

/-- On a crystal of 24 MHz the divisor is 2525163520 where 24000 ticks make a millisecond. -/
theorem tsc_init_scales_up :
    ¬ ∀ frequency : BitVec 32, 1000 ≤ frequency.toNat →
      CpuidCalibrates frequency ∧ PmtCalibrates frequency := by
  intro claimed
  have divisor := ((claimed 24000000 (by decide)).1 (telling 24000000) 0 (fun _ => 0) ⟨0, 0⟩
    (telling_invariantTsc _) rfl (telling_tells _)).divisor
  exact absurd divisor (by decide)

end Lord84
