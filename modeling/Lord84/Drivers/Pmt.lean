import Mathlib.Order.Monotone.Defs
import Lord84.Theory.Loop
import Lord84.Lib.Support

/-!
# The power management timer

A model of `src/drivers/pmt.c`.  The timer is a counter of 24 bits that never stops.
`pmt_delay` reads it until enough ticks have gone by, through an I/O port or, where the FADT
has extended fields, through the register that `X_PMTimerBlock` describes.
-/

namespace Lord84

open Theory

/-- The fields of `gas_t` that `pmt_read_reg` uses. -/
structure Gas where
  addressSpaceId : BitVec 8
  address : Word
  deriving DecidableEq, Repr

/-- The fields of `fadt_t` that `pmt_delay` uses. -/
structure Fadt where
  pmTimerBlock : BitVec 32
  xPmTimerBlock : Gas
  deriving DecidableEq, Repr

/-- What the processor reads, access after access. -/
structure TimerReads where
  port : Nat → BitVec 16 → BitVec 32
  load : Nat → Word → Word

/-- `PMT_TIMER_RATE` -/
def pmtTimerRate : Word := 3579545

section Source

variable (reads : TimerReads)

/-- `pmt_read_reg`, as the read number `n`. -/
def pmtReadReg (xPmTimerBlock : Gas) (n : Nat) : Word :=
  if xPmTimerBlock.addressSpaceId = 0x00 then
    reads.load n xPmTimerBlock.address
  else if xPmTimerBlock.addressSpaceId = 0x01 then
    (reads.port n (xPmTimerBlock.address.setWidth 16)).setWidth 64
  else
    0

variable (useExt : Bool) (fadt : Fadt)

/-- Read number `n` of the counter in `pmt_delay`. -/
def pmtSample (n : Nat) : Word :=
  if !useExt then
    (reads.port n (fadt.pmTimerBlock.setWidth 16)).setWidth 64
  else
    pmtReadReg reads fadt.xPmTimerBlock n

/-- `target` of `pmt_delay` -/
def pmtTarget (us : Word) : Word :=
  us * pmtTimerRate / 1000000

/-- One test of the loop condition of `pmt_delay`, with the next sample if it holds.  The
state is `current` and the number of samples after `count`. -/
def pmtDelayStep (us count : Word) : Word × Nat → (Word × Nat) ⊕ Nat
  | (current, k) =>
      if current < pmtTarget us then
        .inl ((pmtSample reads useExt fadt (k + 1) - count) &&& 0xffffff, k + 1)
      else
        .inr k

/-- `pmt_delay(us)` returns after this number of samples. -/
def PmtDelayReturns (us : Word) (k : Nat) : Prop :=
  Returns (pmtDelayStep reads useExt fadt us (pmtSample reads useExt fadt 0)) (0, 0) k

/-- The low bits of the samples count the ticks since the first one. -/
def CountsTicks (elapsed : Nat → Nat) : Prop :=
  ∀ k, (pmtSample reads useExt fadt k).toNat % 2 ^ 24 =
    ((pmtSample reads useExt fadt 0).toNat + elapsed k) % 2 ^ 24

end Source

/-- The counter can be read: by `PMTimerBlock`, or by `X_PMTimerBlock` in memory or at a port. -/
def Readable (useExt : Bool) (fadt : Fadt) : Prop :=
  useExt = false ∨ fadt.xPmTimerBlock.addressSpaceId = 0 ∨ fadt.xPmTimerBlock.addressSpaceId = 1

section Proofs

variable {reads : TimerReads} {useExt : Bool} {fadt : Fadt} {elapsed : Nat → Nat}

theorem toNat_pmtTarget (us : Word) :
    (pmtTarget us).toNat = us.toNat * 3579545 % 2 ^ 64 / 1000000 := by
  rw [pmtTarget, BitVec.toNat_udiv, BitVec.toNat_mul]
  rfl

/-- The masked difference of two samples is the number of ticks between them, modulo the
width of the counter. -/
theorem CountsTicks.toNat_current (counts : CountsTicks reads useExt fadt elapsed) (k : Nat) :
    ((pmtSample reads useExt fadt k - pmtSample reads useExt fadt 0) &&& 0xffffff).toNat =
      elapsed k % 2 ^ 24 := by
  have masked : ∀ word : Word, (word &&& 0xffffff).toNat = word.toNat % 2 ^ 24 := by
    intro word
    rw [BitVec.toNat_and]
    exact Nat.and_two_pow_sub_one_eq_mod word.toNat 24
  have low := counts k
  have bound := (pmtSample reads useExt fadt 0).isLt
  rw [masked, BitVec.toNat_sub]
  omega

/-- `pmt_delay` returns at the first sample with enough ticks. -/
theorem CountsTicks.pmtDelayReturns_iff (counts : CountsTicks reads useExt fadt elapsed)
    (us : Word) (k : Nat) :
    PmtDelayReturns reads useExt fadt us k ↔
      IsLeast {k | (pmtTarget us).toNat ≤ elapsed k % 2 ^ 24} k := by
  let states : Nat → Word × Nat := fun k =>
    ((pmtSample reads useExt fadt k - pmtSample reads useExt fadt 0) &&& 0xffffff, k)
  have start : states 0 = (0, 0) := by
    simp [states]
  have enough : ∀ k, (states k).1 < pmtTarget us ↔
      ¬ (pmtTarget us).toNat ≤ elapsed k % 2 ^ 24 := by
    intro k
    rw [BitVec.lt_def, counts.toNat_current, Nat.not_le]
  have waits : ∀ k, ¬ (pmtTarget us).toNat ≤ elapsed k % 2 ^ 24 →
      pmtDelayStep reads useExt fadt us (pmtSample reads useExt fadt 0) (states k) =
        .inl (states (k + 1)) := by
    intro k early
    exact if_pos ((enough k).mpr early)
  have leaves : ∀ k, (pmtTarget us).toNat ≤ elapsed k % 2 ^ 24 →
      pmtDelayStep reads useExt fadt us (pmtSample reads useExt fadt 0) (states k) = .inr k := by
    intro k passed
    exact if_neg fun early => (enough k).mp early passed
  rw [PmtDelayReturns, ← start, returns_iff_isLeast waits leaves]
  constructor
  · rintro ⟨first, least, rfl⟩
    exact least
  · intro least
    exact ⟨k, least, rfl⟩

/-- A sample is a read of a port or of a word in memory. -/
theorem Readable.pmtSample_cases (readable : Readable useExt fadt) :
    (∃ port, ∀ reads n, pmtSample reads useExt fadt n = (reads.port n port).setWidth 64) ∨
      ∃ address, ∀ reads n, pmtSample reads useExt fadt n = reads.load n address := by
  cases useExt with
  | false => exact Or.inl ⟨_, fun reads n => rfl⟩
  | true =>
      obtain absurd | memory | port := readable
      · cases absurd
      · exact Or.inr ⟨_, fun reads n => if_pos memory⟩
      · have io : ¬ fadt.xPmTimerBlock.addressSpaceId = 0 := by
          rw [port]
          decide
        refine Or.inl ⟨fadt.xPmTimerBlock.address.setWidth 16, fun reads n => ?_⟩
        rw [pmtSample, pmtReadReg, if_neg io, if_pos port]
        rfl

/-- A counter sampled at every tick from a given value on. -/
def everyTick (start : Word) : TimerReads where
  port n _ := start.setWidth 32 + BitVec.ofNat 32 n
  load n _ := start + BitVec.ofNat 64 n

/-- Its samples start with that value and count the ticks, on every path. -/
theorem Readable.everyTick_counts (readable : Readable useExt fadt) (reads : TimerReads) :
    let start := pmtSample reads useExt fadt 0
    pmtSample (everyTick start) useExt fadt 0 = start ∧
      CountsTicks (everyTick start) useExt fadt id := by
  obtain ⟨port, sampled⟩ | ⟨address, sampled⟩ := readable.pmtSample_cases
  · simp only [sampled, CountsTicks, everyTick, id]
    constructor
    · simp
    · intro k
      simp only [BitVec.toNat_setWidth, BitVec.toNat_add, BitVec.toNat_ofNat]
      omega
  · simp only [sampled, CountsTicks, everyTick, id]
    constructor
    · simp
    · intro k
      simp only [BitVec.toNat_add, BitVec.toNat_ofNat]
      omega

/-- If every tick is sampled, the target is the first sample that reaches it. -/
theorem isLeast_target {target : Nat} (inRange : target ≤ 0xffffff) :
    IsLeast {k | target ≤ id k % 2 ^ 24} target := by
  constructor
  · rw [Set.mem_ofPred_eq, id]
    omega
  · intro k passed
    rw [Set.mem_ofPred_eq, id] at passed
    omega

/-- A delay within the range of the counter ends if every tick is sampled. -/
theorem Readable.everyTick_returns (readable : Readable useExt fadt) (reads : TimerReads)
    {us : Word} (inRange : (pmtTarget us).toNat ≤ 0xffffff) :
    PmtDelayReturns (everyTick (pmtSample reads useExt fadt 0)) useExt fadt us
      (pmtTarget us).toNat := by
  rw [(readable.everyTick_counts reads).2.pmtDelayReturns_iff]
  exact isLeast_target inRange

end Proofs

/-- `pmt_delay` returns at the first sample at which the ticks gone by, modulo the 24 bits of
the counter, reach the target.  So it never returns early, and it can return exactly if the
target fits the counter. -/
theorem pmt_delay_returns_iff (reads : TimerReads) (useExt : Bool) (fadt : Fadt)
    (readable : Readable useExt fadt) (us : Word) (elapsed : Nat → Nat)
    (counts : CountsTicks reads useExt fadt elapsed) :
    let target := us.toNat * 3579545 % 2 ^ 64 / 1000000
    (∀ k, PmtDelayReturns reads useExt fadt us k ↔
      IsLeast {k | target ≤ elapsed k % 2 ^ 24} k) ∧
    (target = 0 → PmtDelayReturns reads useExt fadt us 0) ∧
    (∀ k, PmtDelayReturns reads useExt fadt us k → target ≤ elapsed k) ∧
    ((∃ (later : TimerReads) (ticks : Nat → Nat),
        pmtSample later useExt fadt 0 = pmtSample reads useExt fadt 0 ∧ ticks 0 = 0 ∧
        Monotone ticks ∧ CountsTicks later useExt fadt ticks ∧
        ∃ k, PmtDelayReturns later useExt fadt us k) ↔ target ≤ 0xffffff) := by
  intro target
  have first := counts.pmtDelayReturns_iff us
  rw [toNat_pmtTarget] at first
  refine ⟨first, ?_, ?_, ?_, ?_⟩
  · intro immediate
    rw [first]
    exact ⟨(le_of_eq immediate).trans (Nat.zero_le _), fun k _ => Nat.zero_le k⟩
  · intro k returns
    exact ((first k).mp returns).1.trans (Nat.mod_le _ _)
  · rintro ⟨later, ticks, -, -, -, counted, k, returns⟩
    have passed : (pmtTarget us).toNat ≤ ticks k % 2 ^ 24 :=
      ((counted.pmtDelayReturns_iff us k).mp returns).1
    rw [toNat_pmtTarget] at passed
    omega
  · intro inRange
    obtain ⟨start, counted⟩ := readable.everyTick_counts reads
    refine ⟨_, id, start, rfl, monotone_id, counted, _, readable.everyTick_returns reads ?_⟩
    rw [toNat_pmtTarget]
    exact inRange

/-- A delay of 2 us, 7 ticks, over a counter that starts at its last value and wraps. -/
theorem pmt_delay_across_wrap :
    PmtDelayReturns (everyTick 0xffffff) false ⟨0x608, ⟨0, 0⟩⟩ 2 7 := by
  have counts := (show Readable false ⟨0x608, ⟨0, 0⟩⟩ from Or.inl rfl).everyTick_counts
    (everyTick 0xffffff)
  have returns := (pmt_delay_returns_iff (everyTick 0xffffff) false ⟨0x608, ⟨0, 0⟩⟩ (Or.inl rfl) 2
    id counts.2).1 7
  rw [returns]
  exact isLeast_target (by decide)

end Lord84
