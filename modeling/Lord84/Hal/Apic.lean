import Mathlib.Logic.Function.Iterate
import Mathlib.Logic.Relation
import Lord84.Theory.Loop
import Lord84.Lib.Support

/-!
# The timer of the local APIC

A model of the timer in `src/hal/apic.c`.  `lapic_timer_init` lets the timer count down during a
delay of known length and makes the number of counts the period of its interrupts;
`apic_timer_handler` counts these, and `apic_sleep` waits until enough of them have come.  The
timer runs on by itself: any number of clocks passes between two accesses of the kernel.
-/

namespace Lord84

open Theory

/-! ## The device -/

/-- The timer, with the clocks it has seen and the vectors it has sent, the last one first.  The
mode with a deadline, which the kernel does not use, is left out. -/
structure LapicTimer where
  lvt : BitVec 32
  divider : BitVec 32
  initialCount : BitVec 32
  currentCount : BitVec 32
  clocks : Nat
  sent : List (BitVec 8)

namespace LapicTimer

variable (timer : LapicTimer)

/-- Bits 3, 1 and 0 of the divider register name a power of two. -/
def divisor : Nat :=
  let power := timer.divider.extractLsb' 3 1 ++ timer.divider.extractLsb' 0 2
  if power = 7 then 1 else 2 ^ (power.toNat + 1)

def masked : Bool :=
  timer.lvt.getLsbD 16

def periodic : Bool :=
  timer.lvt.getLsbD 17

/-- The count reaches zero. -/
def expire : LapicTimer :=
  { timer with
    currentCount := if timer.periodic then timer.initialCount else 0
    sent := if timer.masked then timer.sent else timer.lvt.setWidth 8 :: timer.sent }

/-- One count; a timer at zero is stopped. -/
def count : LapicTimer :=
  if timer.currentCount = 0 then timer
  else if timer.currentCount = 1 then timer.expire
  else { timer with currentCount := timer.currentCount - 1 }

/-- The same timer at another clock. -/
def atClock (clocks : Nat) : LapicTimer :=
  { timer with clocks := clocks }

/-- One clock, of which the divider passes on every so many. -/
def clock : LapicTimer :=
  let next := timer.atClock (timer.clocks + 1)
  if next.divisor ∣ next.clocks then next.count else next

end LapicTimer

/-- The local APIC, as far as the timer goes: whether its interrupt waits for the processor,
whether it has not been acknowledged yet, and how many came while another was waiting. -/
structure Lapic where
  timer : LapicTimer
  requested : Bool
  inService : Bool
  lost : Nat

/-- One clock of the timer. -/
def Lapic.clock (lapic : Lapic) : Lapic :=
  let timer := lapic.timer.clock
  if timer.sent = lapic.timer.sent then { lapic with timer := timer }
  else
    { lapic with
      timer := timer
      requested := true
      lost := lapic.lost + lapic.requested.toNat }

/-- So many clocks pass. -/
def Lapic.wait (lapic : Lapic) (clocks : Nat) : Lapic :=
  Lapic.clock^[clocks] lapic

/-! ## The driver -/

/-- `LAPIC_EOI_REG` -/
def lapicEoiReg : BitVec 32 := 0x0B0

/-- `LAPIC_LVT_TIMER_REG` -/
def lapicLvtTimerReg : BitVec 32 := 0x320

/-- `LAPIC_TIMER_INITIAL_CNT_REG` -/
def lapicTimerInitialCntReg : BitVec 32 := 0x380

/-- `LAPIC_TIMER_CURRENT_CNT_REG` -/
def lapicTimerCurrentCntReg : BitVec 32 := 0x390

/-- `LAPIC_TIMER_DIVIDER_REG` -/
def lapicTimerDividerReg : BitVec 32 := 0x3E0

/-- `LAPIC_TIMER_MASK` -/
def lapicTimerMask : BitVec 32 := 1 <<< 16

/-- `LAPIC_TIMER_PERIODIC` -/
def lapicTimerPeriodic : BitVec 32 := 1 <<< 17

/-- `LAPIC_TIMER_VECTOR` -/
def lapicTimerVector : BitVec 32 := 69

/-- `lapic_write_reg`, on the registers of the timer and the one that acknowledges. -/
def lapicWriteReg (lapic : Lapic) (reg data : BitVec 32) : Lapic :=
  if reg = lapicEoiReg then { lapic with inService := false }
  else if reg = lapicLvtTimerReg then { lapic with timer.lvt := data }
  else if reg = lapicTimerDividerReg then { lapic with timer.divider := data }
  else if reg = lapicTimerInitialCntReg then
    { lapic with timer.initialCount := data, timer.currentCount := data }
  else lapic

/-- `lapic_read_reg`, on the registers of the timer. -/
def lapicReadReg (lapic : Lapic) (reg : BitVec 32) : BitVec 32 :=
  if reg = lapicLvtTimerReg then lapic.timer.lvt
  else if reg = lapicTimerDividerReg then lapic.timer.divider
  else if reg = lapicTimerInitialCntReg then lapic.timer.initialCount
  else if reg = lapicTimerCurrentCntReg then lapic.timer.currentCount
  else 0

section TimerInit

variable (gap : Nat → Nat) (delay : Nat) (lapic : Lapic)

/-- `lapic_timer_init` up to the start of the calibration -/
def lapicTimerStart : Lapic :=
  let lapic := lapicWriteReg (lapic.wait (gap 0)) lapicTimerInitialCntReg 0
  let lapic := lapicWriteReg (lapic.wait (gap 1)) lapicTimerDividerReg 0b11
  lapicWriteReg (lapic.wait (gap 2)) lapicTimerInitialCntReg 0xffffffff

/-- `lapic_timer_init` up to the read of the counter -/
def lapicTimerMeasure : Lapic :=
  let lapic := lapic.wait delay
  let lapic := lapicWriteReg (lapic.wait (gap 3)) lapicLvtTimerReg lapicTimerMask
  lapic.wait (gap 4)

/-- `lapic_timer_init`, where `pmt_delay` takes `delay` clocks, and `gap n` clocks pass before
access number `n`.  Its lock `lapic_timer_flag` is left out: this is one processor, and a call
that waits for the lock has not begun. -/
def lapicTimerInit : Lapic :=
  let lapic := lapicTimerMeasure gap delay (lapicTimerStart gap lapic)
  let calibration := 0xffffffff - lapicReadReg lapic lapicTimerCurrentCntReg
  let lapic := lapicWriteReg (lapic.wait (gap 5)) lapicLvtTimerReg
    (lapicTimerVector ||| lapicTimerPeriodic)
  lapicWriteReg (lapic.wait (gap 6)) lapicTimerInitialCntReg calibration

end TimerInit

/-- A processor with its local APIC and its `cpu_state`; `handled` counts the interrupts of the
timer that it has taken. -/
structure ApicCpu where
  lapic : Lapic
  gsbase : Word
  lapicTimerTicks : Word
  handled : Nat

/-- `get_cpu_struct_initialized` -/
def getCpuStructInitialized (hhdmoffset : Word) (cpu : ApicCpu) : Bool :=
  !(cpu.gsbase < hhdmoffset)

/-- `apic_timer_handler` -/
def apicTimerHandler (hhdmoffset : Word) (cpu : ApicCpu) : ApicCpu :=
  let cpu := { cpu with lapic := lapicWriteReg cpu.lapic lapicEoiReg 0 }
  if getCpuStructInitialized hhdmoffset cpu then
    { cpu with lapicTimerTicks := cpu.lapicTimerTicks + 1 }
  else cpu

/-- The processor takes the interrupt. -/
def ApicCpu.accept (cpu : ApicCpu) : ApicCpu :=
  { cpu with
    lapic.requested := false
    lapic.inService := true
    handled := cpu.handled + 1 }

/-- What happens on a processor between two loads of `apic_sleep`. -/
inductive ApicMove (hhdmoffset : Word) : ApicCpu → ApicCpu → Prop where
  | clock (cpu : ApicCpu) : ApicMove hhdmoffset cpu { cpu with lapic := cpu.lapic.clock }
  | interrupt (cpu : ApicCpu) (requested : cpu.lapic.requested = true)
      (acknowledged : cpu.lapic.inService = false) :
      ApicMove hhdmoffset cpu (apicTimerHandler hhdmoffset cpu.accept)

/-- One test of the loop condition of `apic_sleep`, with the next load if it holds.  The state is
`lapic_timer_ticks` with the number of loads in the loop; `curcnt` is the load after the first. -/
def apicSleepStep (load : Nat → Word) (ms : Word) : Word × Nat → (Word × Nat) ⊕ Nat
  | (lapicTimerTicks, k) =>
      if lapicTimerTicks - load 1 < ms then .inl (load (k + 2), k + 1) else .inr k

/-- `apic_sleep(ms)` returns after this number of loads in its loop. -/
def ApicSleepReturns (load : Nat → Word) (ms : Word) (k : Nat) : Prop :=
  Returns (apicSleepStep load ms) (load 0, 0) k

/-! ## Counting down -/

namespace LapicTimer

variable {timer : LapicTimer}

theorem count_atClock (timer : LapicTimer) (clocks : Nat) :
    (timer.atClock clocks).count = timer.count.atClock clocks := by
  rw [count, count, apply_ite fun timer : LapicTimer => timer.atClock clocks,
    apply_ite fun timer : LapicTimer => timer.atClock clocks]
  rfl

@[simp] theorem count_divider (timer : LapicTimer) : timer.count.divider = timer.divider := by
  simp only [count]
  split
  · rfl
  · split
    · rfl
    · rfl

@[simp] theorem iterate_count_divisor (timer : LapicTimer) (counts : Nat) :
    (count^[counts] timer).divisor = timer.divisor := by
  induction counts with
  | zero => rfl
  | succ counts ih =>
      rw [Function.iterate_succ_apply', divisor, count_divider, ← divisor, ih]

/-- The counts that the divider passes on from one clock to another. -/
def counts (divisor start stop : Nat) : Nat :=
  stop / divisor - start / divisor

/-- After some clocks the timer has done the counts that the divider has passed on. -/
theorem iterate_clock (timer : LapicTimer) (clocks : Nat) :
    clock^[clocks] timer =
      (count^[counts timer.divisor timer.clocks (timer.clocks + clocks)] timer).atClock
        (timer.clocks + clocks) := by
  induction clocks with
  | zero =>
      rw [Nat.add_zero, counts, Nat.sub_self]
      rfl
  | succ clocks ih =>
      have later : timer.clocks / timer.divisor ≤ (timer.clocks + clocks) / timer.divisor :=
        Nat.div_le_div_right (Nat.le_add_right _ _)
      let done := count^[counts timer.divisor timer.clocks (timer.clocks + clocks)] timer
      have next : (done.atClock (timer.clocks + clocks)).clock =
          if timer.divisor ∣ timer.clocks + clocks + 1 then
            done.count.atClock (timer.clocks + clocks + 1)
          else done.atClock (timer.clocks + clocks + 1) := by
        have same : done.divisor = timer.divisor := iterate_count_divisor timer _
        rw [← same, ← count_atClock]
        rfl
      rw [Function.iterate_succ_apply', ih, next]
      by_cases passed : timer.divisor ∣ timer.clocks + clocks + 1
      · have further : counts timer.divisor timer.clocks (timer.clocks + clocks + 1) =
            counts timer.divisor timer.clocks (timer.clocks + clocks) + 1 := by
          rw [counts, counts, Nat.succ_div, if_pos passed, Nat.sub_add_comm later]
        rw [if_pos passed, ← Nat.add_assoc, further, Function.iterate_succ_apply']
      · have same : counts timer.divisor timer.clocks (timer.clocks + clocks + 1) =
            counts timer.divisor timer.clocks (timer.clocks + clocks) := by
          rw [counts, counts, Nat.succ_div, if_neg passed, Nat.add_zero]
        rw [if_neg passed, ← Nat.add_assoc, same]

/-- Before it reaches zero, the counter only counts. -/
theorem iterate_count_early (timer : LapicTimer) {counts : Nat}
    (early : counts < timer.currentCount.toNat) :
    count^[counts] timer =
      { timer with currentCount := timer.currentCount - BitVec.ofNat 32 counts } := by
  induction counts with
  | zero =>
      rw [Function.iterate_zero, id, BitVec.sub_zero]
  | succ counts ih =>
      rw [Function.iterate_succ_apply', ih (Nat.lt_of_succ_lt early), count, if_neg, if_neg]
      · congr 1
        bv_omega
      · bv_omega
      · bv_omega

/-- A timer at zero is stopped. -/
theorem iterate_count_stopped (timer : LapicTimer) (stopped : timer.currentCount = 0)
    (counts : Nat) : count^[counts] timer = timer := by
  have fixed : timer.count = timer := if_pos stopped
  exact Function.iterate_fixed fixed counts

/-- The timer sends `vector` whenever `interval` counts have gone by. -/
structure Periodic (vector : BitVec 8) (interval : Nat) (timer : LapicTimer) : Prop where
  unmasked : timer.masked = false
  periodic : timer.periodic = true
  vector : timer.lvt.setWidth 8 = vector
  initial : timer.initialCount.toNat = interval
  running : 0 < timer.currentCount.toNat
  within : timer.currentCount.toNat ≤ interval

/-- How many counts of the present interval are over. -/
def phase (interval : Nat) (timer : LapicTimer) : Nat :=
  interval - timer.currentCount.toNat

variable {vector : BitVec 8} {interval : Nat}

theorem Periodic.phase_lt (periodic : Periodic vector interval timer) :
    timer.phase interval < interval := by
  have running := periodic.running
  have within := periodic.within
  simp only [phase]
  omega

/-- One count moves the phase on, or starts the next interval and sends the vector. -/
theorem Periodic.count (periodic : Periodic vector interval timer) :
    Periodic vector interval timer.count ∧
      ((timer.count.sent = timer.sent ∧
          timer.count.phase interval = timer.phase interval + 1) ∨
        (timer.count.sent = vector :: timer.sent ∧ timer.count.phase interval = 0 ∧
          timer.phase interval + 1 = interval)) := by
  obtain ⟨unmasked, mode, names, initial, running, within⟩ := periodic
  have nonzero : ¬ timer.currentCount = 0 := by bv_omega
  by_cases last : timer.currentCount = 1
  · have expired : timer.count = timer.expire := by
      rw [LapicTimer.count, if_neg nonzero, if_pos last]
    have reloaded : timer.expire.currentCount = timer.initialCount := if_pos mode
    have sent : timer.expire.sent = vector :: timer.sent := by
      rw [← names]
      exact if_neg (by simp [unmasked])
    have one : timer.currentCount.toNat = 1 := by
      rw [last]
      rfl
    refine ⟨?_, Or.inr ⟨?_, ?_, ?_⟩⟩
    · rw [expired]
      exact ⟨unmasked, mode, names, initial, by rw [reloaded]; omega, by rw [reloaded]; omega⟩
    · rw [expired, sent]
    · rw [expired, phase, reloaded, initial, Nat.sub_self]
    · rw [phase]
      omega
  · have counted : timer.count = { timer with currentCount := timer.currentCount - 1 } := by
      rw [LapicTimer.count, if_neg nonzero, if_neg last]
    have less : (timer.currentCount - 1).toNat + 1 = timer.currentCount.toNat := by bv_omega
    have positive : 0 < (timer.currentCount - 1).toNat := by bv_omega
    have below : (timer.currentCount - 1).toNat ≤ interval := by omega
    rw [counted]
    refine ⟨⟨unmasked, mode, names, initial, positive, below⟩, Or.inl ⟨rfl, ?_⟩⟩
    simp only [phase]
    omega

/-- After any counts the timer has sent its vector once an interval. -/
theorem Periodic.iterate_count (periodic : Periodic vector interval timer) (counts : Nat) :
    Periodic vector interval (LapicTimer.count^[counts] timer) ∧
      ∃ expired,
        (LapicTimer.count^[counts] timer).sent =
          List.replicate expired vector ++ timer.sent ∧
        timer.phase interval + counts =
          expired * interval + (LapicTimer.count^[counts] timer).phase interval := by
  induction counts with
  | zero =>
      refine ⟨periodic, 0, rfl, ?_⟩
      rw [Nat.zero_mul, Nat.zero_add]
      rfl
  | succ counts ih =>
      obtain ⟨still, expired, sent, passed⟩ := ih
      rw [Function.iterate_succ_apply']
      refine ⟨still.count.1, ?_⟩
      obtain ⟨same, further⟩ | ⟨one, started, ended⟩ := still.count.2
      · refine ⟨expired, same.trans sent, ?_⟩
        rw [further]
        omega
      · refine ⟨expired + 1, ?_, ?_⟩
        · rw [one, sent, List.replicate_succ, List.cons_append]
        · rw [started, Nat.succ_mul]
          omega

theorem counts_add {divisor start middle stop : Nat} (first : start ≤ middle)
    (second : middle ≤ stop) :
    counts divisor start middle + counts divisor middle stop = counts divisor start stop := by
  have before : start / divisor ≤ middle / divisor := Nat.div_le_div_right first
  have after : middle / divisor ≤ stop / divisor := Nat.div_le_div_right second
  simp only [counts]
  omega

/-- While the counter is far from zero, time only moves it. -/
theorem iterate_clock_early (timer : LapicTimer) {clocks : Nat}
    (early : counts timer.divisor timer.clocks (timer.clocks + clocks) <
      timer.currentCount.toNat) :
    clock^[clocks] timer =
      { timer with
        currentCount := timer.currentCount -
          BitVec.ofNat 32 (counts timer.divisor timer.clocks (timer.clocks + clocks))
        clocks := timer.clocks + clocks } := by
  rw [iterate_clock, iterate_count_early timer early]
  rfl

theorem iterate_clock_stopped (timer : LapicTimer) (stopped : timer.currentCount = 0)
    (clocks : Nat) : clock^[clocks] timer = timer.atClock (timer.clocks + clocks) := by
  rw [iterate_clock, iterate_count_stopped timer stopped]

/-- A timer that calibrates, after `done` counts: it has no interrupt to send yet. -/
def calibrating (lvt : BitVec 32) (clocks done : Nat) (sent : List (BitVec 8)) : LapicTimer :=
  ⟨lvt, 0b11, 0xffffffff, 0xffffffff - BitVec.ofNat 32 done, clocks, sent⟩

theorem divisor_calibrating (lvt : BitVec 32) (clocks done : Nat) (sent : List (BitVec 8)) :
    (calibrating lvt clocks done sent).divisor = 16 := by
  have power : (0b11 : BitVec 32).extractLsb' 3 1 ++ (0b11 : BitVec 32).extractLsb' 0 2 = 3#3 := by
    decide
  simp only [divisor, calibrating, power]
  rfl

theorem iterate_clock_calibrating {lvt : BitVec 32} {start clocks more : Nat}
    {sent : List (BitVec 8)} (later : start ≤ clocks)
    (inTime : counts 16 start (clocks + more) < 0xffffffff) :
    clock^[more] (calibrating lvt clocks (counts 16 start clocks) sent) =
      calibrating lvt (clocks + more) (counts 16 start (clocks + more)) sent := by
  have sum := @counts_add 16 start clocks (clocks + more) later (Nat.le_add_right _ _)
  have divisor := divisor_calibrating lvt clocks (counts 16 start clocks) sent
  have early : counts 16 clocks (clocks + more) <
      (calibrating lvt clocks (counts 16 start clocks) sent).currentCount.toNat := by
    simp only [calibrating]
    bv_omega
  rw [iterate_clock_early _ (by rwa [divisor]), divisor, ← sum]
  simp only [calibrating, BitVec.sub_sub, ← BitVec.ofNat_add]

end LapicTimer

theorem Lapic.wait_timer (lapic : Lapic) (clocks : Nat) :
    (lapic.wait clocks).timer = LapicTimer.clock^[clocks] lapic.timer := by
  induction clocks with
  | zero => rfl
  | succ clocks ih =>
      rw [wait, Function.iterate_succ_apply', ← wait, clock, Function.iterate_succ_apply', ← ih]
      split
      · rfl
      · rfl

section TimerInit

variable (gap : Nat → Nat) (delay : Nat) (lapic : Lapic)

/-- The clock at which the calibration starts. -/
def calibrationStart : Nat :=
  lapic.timer.clocks + gap 0 + gap 1 + gap 2

/-- The clock at which `lapic_timer_init` reads the counter. -/
def calibrationEnd : Nat :=
  calibrationStart gap lapic + delay + gap 3 + gap 4

/-- The calibration starts with a full counter, and no interrupt comes before. -/
theorem lapicTimerStart_timer :
    ∃ lvt, (lapicTimerStart gap lapic).timer =
      .calibrating lvt (calibrationStart gap lapic) 0
        (LapicTimer.clock^[gap 0] lapic.timer).sent := by
  let first := LapicTimer.clock^[gap 0] lapic.timer
  let stopped : LapicTimer := { first with initialCount := 0, currentCount := 0 }
  let divided : LapicTimer :=
    { stopped.atClock (stopped.clocks + gap 1) with divider := 0b11 }
  have clocks : first.clocks = lapic.timer.clocks + gap 0 := by
    simp only [first, LapicTimer.iterate_clock]
    rfl
  refine ⟨first.lvt, ?_⟩
  have timer : (lapicTimerStart gap lapic).timer =
      { LapicTimer.clock^[gap 2] { LapicTimer.clock^[gap 1] stopped with divider := 0b11 } with
        initialCount := 0xffffffff
        currentCount := 0xffffffff } := by
    simp only [lapicTimerStart, lapicWriteReg, Lapic.wait_timer]
    rfl
  rw [timer, LapicTimer.iterate_clock_stopped stopped rfl,
    LapicTimer.iterate_clock_stopped divided rfl, calibrationStart, ← clocks]
  rfl

/-- The clock at which the calibrated timer starts. -/
def periodicStart : Nat :=
  calibrationEnd gap delay lapic + gap 5 + gap 6

/-- The counts that fit into the calibration. -/
def calibration : Nat :=
  LapicTimer.counts 16 (calibrationStart gap lapic) (calibrationEnd gap delay lapic)

/-- The calibration takes fewer counts than the counter has. -/
def CalibrationInTime : Prop :=
  LapicTimer.counts 16 (calibrationStart gap lapic) (periodicStart gap delay lapic) < 0xffffffff

variable {gap delay lapic}

theorem CalibrationInTime.before (inTime : CalibrationInTime gap delay lapic) {clock : Nat}
    (before : clock ≤ periodicStart gap delay lapic) :
    LapicTimer.counts 16 (calibrationStart gap lapic) clock < 0xffffffff := by
  have fewer : clock / 16 ≤ periodicStart gap delay lapic / 16 := Nat.div_le_div_right before
  simp only [CalibrationInTime, LapicTimer.counts] at inTime ⊢
  omega

/-- At the end of the calibration the timer is masked and has sent nothing. -/
theorem CalibrationInTime.measured (inTime : CalibrationInTime gap delay lapic) :
    (lapicTimerMeasure gap delay (lapicTimerStart gap lapic)).timer =
      .calibrating lapicTimerMask (calibrationEnd gap delay lapic) (calibration gap delay lapic)
        (LapicTimer.clock^[gap 0] lapic.timer).sent := by
  let start := calibrationStart gap lapic
  let sent := (LapicTimer.clock^[gap 0] lapic.timer).sent
  obtain ⟨lvt, started⟩ := lapicTimerStart_timer gap lapic
  have none : LapicTimer.counts 16 start start = 0 := Nat.sub_self _
  have timer : (lapicTimerMeasure gap delay (lapicTimerStart gap lapic)).timer =
      LapicTimer.clock^[gap 4]
        { LapicTimer.clock^[gap 3]
            (LapicTimer.clock^[delay] (lapicTimerStart gap lapic).timer) with
          lvt := lapicTimerMask } := by
    simp only [lapicTimerMeasure, Lapic.wait_timer]
    simp only [lapicWriteReg, Lapic.wait_timer]
    rfl
  have waited : LapicTimer.clock^[gap 3] (LapicTimer.clock^[delay]
      (.calibrating lvt start 0 sent)) =
      .calibrating lvt (start + delay + gap 3)
        (LapicTimer.counts 16 start (start + delay + gap 3)) sent := by
    rw [← none, LapicTimer.iterate_clock_calibrating (Nat.le_refl _),
      LapicTimer.iterate_clock_calibrating (Nat.le_add_right _ _)]
    · apply inTime.before
      simp only [periodicStart, calibrationEnd, start]
      omega
    · apply inTime.before
      simp only [periodicStart, calibrationEnd, start]
      omega
  have finished : LapicTimer.clock^[gap 4] (.calibrating lapicTimerMask (start + delay + gap 3)
      (LapicTimer.counts 16 start (start + delay + gap 3)) sent) =
      .calibrating lapicTimerMask (calibrationEnd gap delay lapic)
        (calibration gap delay lapic) sent := by
    apply LapicTimer.iterate_clock_calibrating
    · omega
    · apply inTime.before
      simp only [periodicStart, calibrationEnd, start]
      omega
  rw [timer, started, waited, ← finished]
  rfl

/-- `lapic_timer_init` starts the timer with the number of counts it has measured. -/
theorem CalibrationInTime.started (inTime : CalibrationInTime gap delay lapic) :
    (lapicTimerInit gap delay lapic).timer =
      ⟨lapicTimerVector ||| lapicTimerPeriodic, 0b11,
        BitVec.ofNat 32 (calibration gap delay lapic),
        BitVec.ofNat 32 (calibration gap delay lapic), periodicStart gap delay lapic,
        (LapicTimer.clock^[gap 0] lapic.timer).sent⟩ := by
  let measured := (lapicTimerMeasure gap delay (lapicTimerStart gap lapic)).timer
  let sent := (LapicTimer.clock^[gap 0] lapic.timer).sent
  let finish := calibrationEnd gap delay lapic
  have timer : (lapicTimerInit gap delay lapic).timer =
      { LapicTimer.clock^[gap 6] { LapicTimer.clock^[gap 5] measured with
          lvt := lapicTimerVector ||| lapicTimerPeriodic } with
        initialCount := 0xffffffff - measured.currentCount
        currentCount := 0xffffffff - measured.currentCount } := by
    simp only [lapicTimerInit, lapicWriteReg, Lapic.wait_timer]
    rfl
  have first : LapicTimer.clock^[gap 5] measured =
      .calibrating lapicTimerMask (finish + gap 5)
        (LapicTimer.counts 16 (calibrationStart gap lapic) (finish + gap 5)) sent := by
    rw [show measured = _ from inTime.measured]
    apply LapicTimer.iterate_clock_calibrating
    · simp only [calibrationEnd]
      omega
    · apply inTime.before
      simp only [periodicStart]
      omega
  have second : LapicTimer.clock^[gap 6] (.calibrating (lapicTimerVector ||| lapicTimerPeriodic)
      (finish + gap 5) (LapicTimer.counts 16 (calibrationStart gap lapic) (finish + gap 5)) sent) =
      .calibrating (lapicTimerVector ||| lapicTimerPeriodic) (periodicStart gap delay lapic)
        (LapicTimer.counts 16 (calibrationStart gap lapic) (periodicStart gap delay lapic))
        sent := by
    apply LapicTimer.iterate_clock_calibrating
    · simp only [finish, calibrationEnd]
      omega
    · exact inTime.before (Nat.le_refl _)
  have read : 0xffffffff - measured.currentCount =
      BitVec.ofNat 32 (calibration gap delay lapic) := by
    rw [show measured = _ from inTime.measured]
    simp only [LapicTimer.calibrating]
    bv_omega
  rw [timer, first, read]
  exact congrArg (fun timer : LapicTimer =>
    { timer with
      initialCount := BitVec.ofNat 32 (calibration gap delay lapic)
      currentCount := BitVec.ofNat 32 (calibration gap delay lapic) }) second

end TimerInit

/-- `lapic_timer_init` calibrates the timer.  If the counts of the calibration do not run through
the whole counter, the timer sends no interrupt from the first access on; then it sends vector 69
each time as many counts have gone by as between the start of the calibration and its end, which
is when `pmt_delay` returns and two registers have been accessed.  Where these fit no count at
all, the timer is stopped. -/
theorem lapic_timer_init_calibrates (gap : Nat → Nat) (delay : Nat) (lapic : Lapic)
    (inTime : CalibrationInTime gap delay lapic) :
    let timer := (lapicTimerInit gap delay lapic).timer
    let interval := calibration gap delay lapic
    let elapsed := delay + gap 3 + gap 4
    (0 < interval → ∀ clocks, (LapicTimer.clock^[clocks] timer).sent =
      List.replicate (LapicTimer.counts 16 timer.clocks (timer.clocks + clocks) / interval) 69 ++
        (LapicTimer.clock^[gap 0] lapic.timer).sent) ∧
    (interval = 0 → ∀ clocks, (LapicTimer.clock^[clocks] timer).sent =
      (LapicTimer.clock^[gap 0] lapic.timer).sent) ∧
    16 * interval < elapsed + 16 ∧ elapsed < 16 * interval + 16 := by
  intro timer interval elapsed
  have started := inTime.started
  have small : interval < 2 ^ 32 := by
    have fits := inTime.before (show calibrationEnd gap delay lapic ≤ _ by
      simp only [periodicStart]
      omega)
    exact fits.trans (by decide)
  have divisor : timer.divisor = 16 := by
    rw [show timer = _ from started]
    exact LapicTimer.divisor_calibrating 0 0 0 []
  refine ⟨?_, ?_, ?_, ?_⟩
  · intro runs clocks
    have count : timer.currentCount.toNat = interval := by
      rw [show timer = _ from started, BitVec.toNat_ofNat]
      exact Nat.mod_eq_of_lt small
    have periodic : timer.Periodic 69 interval := by
      have lvt : timer.lvt = lapicTimerVector ||| lapicTimerPeriodic := by
        rw [show timer = _ from started]
      refine ⟨?_, ?_, ?_, ?_, by rwa [count], le_of_eq count⟩
      · rw [LapicTimer.masked, lvt]
        decide
      · rw [LapicTimer.periodic, lvt]
        decide
      · rw [lvt]
        decide
      · rw [← count, show timer = _ from started]
    obtain ⟨still, expired, sent, passed⟩ := periodic.iterate_count
      (LapicTimer.counts 16 timer.clocks (timer.clocks + clocks))
    have zero : timer.phase interval = 0 := by
      rw [LapicTimer.phase, count, Nat.sub_self]
    have number : LapicTimer.counts 16 timer.clocks (timer.clocks + clocks) / interval =
        expired := by
      rw [zero, Nat.zero_add] at passed
      rw [passed, Nat.mul_comm, Nat.mul_add_div runs, Nat.div_eq_of_lt still.phase_lt,
        Nat.add_zero]
    have before : timer.sent = (LapicTimer.clock^[gap 0] lapic.timer).sent := by
      rw [show timer = _ from started]
    rw [LapicTimer.iterate_clock, divisor, number, ← before, ← sent]
    rfl
  · intro none clocks
    have stopped : timer.currentCount = 0 := by
      rw [show timer = _ from started]
      exact congrArg (BitVec.ofNat 32) none
    rw [LapicTimer.iterate_clock_stopped timer stopped, show timer = _ from started]
    rfl
  · simp only [interval, elapsed, calibration, calibrationEnd, LapicTimer.counts]
    omega
  · simp only [interval, elapsed, calibration, calibrationEnd, LapicTimer.counts]
    omega

/-- A delay of a million clocks: an interrupt every 62500 counts. -/
theorem lapic_timer_init_calibrates_million :
    let lapic : Lapic := ⟨⟨0x10000, 0, 0, 0, 0, []⟩, false, false, 0⟩
    let timer := (lapicTimerInit (fun _ => 1) 1000000 lapic).timer
    calibration (fun _ => 1) 1000000 lapic = 62500 ∧
      ∀ clocks, (LapicTimer.clock^[clocks] timer).sent =
        List.replicate (LapicTimer.counts 16 timer.clocks (timer.clocks + clocks) / 62500) 69 ++
          (LapicTimer.clock^[1] lapic.timer).sent := by
  intro lapic timer
  have interval : calibration (fun _ => 1) 1000000 lapic = 62500 := by decide
  have inTime : CalibrationInTime (fun _ => 1) 1000000 lapic := by
    rw [CalibrationInTime]
    decide
  have calibrated := lapic_timer_init_calibrates (fun _ => 1) 1000000 lapic inTime
  rw [interval] at calibrated
  exact ⟨interval, calibrated.1 (by decide)⟩

/-! ## Sleeping -/

/-- The invariant between two moments of a processor whose timer runs. -/
structure ApicElapsed (interval : Nat) (earlier later : ApicCpu) : Prop where
  periodic : later.lapic.timer.Periodic 69 interval
  divisor : later.lapic.timer.divisor = 16
  gsbase : later.gsbase = earlier.gsbase
  handled : earlier.handled ≤ later.handled
  ticks : later.lapicTimerTicks =
    earlier.lapicTimerTicks + BitVec.ofNat 64 (later.handled - earlier.handled)
  acknowledged : later.lapic.inService = false
  sent : ∃ expired,
    later.handled + later.lapic.lost + later.lapic.requested.toNat =
      earlier.handled + earlier.lapic.lost + earlier.lapic.requested.toNat + expired ∧
    earlier.lapic.timer.phase interval +
        LapicTimer.counts 16 earlier.lapic.timer.clocks later.lapic.timer.clocks =
      expired * interval + later.lapic.timer.phase interval
  clocks : earlier.lapic.timer.clocks ≤ later.lapic.timer.clocks
  lost : earlier.lapic.lost ≤ later.lapic.lost

/-- A processor on which the timer runs and no interrupt is being handled. -/
structure ApicRunning (hhdmoffset : Word) (interval : Nat) (cpu : ApicCpu) : Prop where
  periodic : cpu.lapic.timer.Periodic 69 interval
  divisor : cpu.lapic.timer.divisor = 16
  acknowledged : cpu.lapic.inService = false
  initialized : getCpuStructInitialized hhdmoffset cpu = true

section Proofs

variable {hhdmoffset : Word} {interval : Nat} {first middle last cpu next : ApicCpu}

theorem ApicElapsed.refl (running : ApicRunning hhdmoffset interval cpu) :
    ApicElapsed interval cpu cpu where
  periodic := running.periodic
  divisor := running.divisor
  gsbase := rfl
  handled := le_rfl
  ticks := by rw [Nat.sub_self, BitVec.add_zero]
  acknowledged := running.acknowledged
  sent := ⟨0, rfl, by rw [LapicTimer.counts, Nat.sub_self, Nat.zero_mul, Nat.zero_add]; rfl⟩
  clocks := le_rfl
  lost := le_rfl

theorem ApicElapsed.trans (before : ApicElapsed interval first middle)
    (after : ApicElapsed interval middle last) : ApicElapsed interval first last := by
  have handledBefore := before.handled
  have handledAfter := after.handled
  obtain ⟨expired, balance, position⟩ := before.sent
  obtain ⟨more, balanceAfter, positionAfter⟩ := after.sent
  have sum := @LapicTimer.counts_add 16 _ _ _ before.clocks after.clocks
  exact {
    periodic := after.periodic
    divisor := after.divisor
    gsbase := after.gsbase.trans before.gsbase
    handled := handledBefore.trans handledAfter
    ticks := by
      have split : last.handled - first.handled =
          (middle.handled - first.handled) + (last.handled - middle.handled) := by omega
      rw [after.ticks, before.ticks, split, BitVec.ofNat_add, BitVec.add_assoc]
    acknowledged := after.acknowledged
    sent := ⟨expired + more, by omega, by rw [Nat.add_mul]; omega⟩
    clocks := before.clocks.trans after.clocks
    lost := before.lost.trans after.lost }

/-- A clock is one count or none, and so at most one interrupt. -/
theorem LapicTimer.Periodic.clock {timer : LapicTimer} (periodic : timer.Periodic 69 interval)
    (divisor : timer.divisor = 16) :
    timer.clock.Periodic 69 interval ∧ timer.clock.divisor = 16 ∧
      ∃ expired, (timer.clock.sent = timer.sent ∧ expired = 0 ∨
          timer.clock.sent = 69 :: timer.sent ∧ expired = 1) ∧
        timer.phase interval + LapicTimer.counts 16 timer.clocks timer.clock.clocks =
          expired * interval + timer.clock.phase interval := by
  have once := LapicTimer.iterate_clock timer 1
  rw [Function.iterate_one, divisor] at once
  obtain ⟨still, expired, sent, position⟩ :=
    periodic.iterate_count (LapicTimer.counts 16 timer.clocks (timer.clocks + 1))
  rw [once]
  refine ⟨⟨still.1, still.2, still.3, still.4, still.5, still.6⟩,
    (LapicTimer.iterate_count_divisor timer _).trans divisor, expired, ?_, position⟩
  have counts : LapicTimer.counts 16 timer.clocks (timer.clocks + 1) ≤ 1 := by
    simp only [LapicTimer.counts]
    omega
  match expired with
  | 0 => exact Or.inl ⟨sent, rfl⟩
  | 1 => exact Or.inr ⟨sent, rfl⟩
  | more + 2 =>
      have phase := periodic.phase_lt
      rw [Nat.add_mul] at position
      omega

theorem ApicElapsed.clock (running : ApicRunning hhdmoffset interval cpu) :
    ApicElapsed interval cpu { cpu with lapic := cpu.lapic.clock } := by
  obtain ⟨periodic, divisor, expired, outcome, position⟩ :=
    running.periodic.clock running.divisor
  have clocks : cpu.lapic.timer.clocks ≤ cpu.lapic.timer.clock.clocks := by
    have once := LapicTimer.iterate_clock cpu.lapic.timer 1
    rw [Function.iterate_one] at once
    rw [once]
    exact Nat.le_add_right _ 1
  obtain ⟨same, none⟩ | ⟨sent, one⟩ := outcome
  · have lapic : cpu.lapic.clock = { cpu.lapic with timer := cpu.lapic.timer.clock } := if_pos same
    rw [lapic]
    exact {
      periodic := periodic
      divisor := divisor
      gsbase := rfl
      handled := le_rfl
      ticks := by rw [Nat.sub_self, BitVec.add_zero]
      acknowledged := running.acknowledged
      sent := ⟨expired, by rw [none]; rfl, position⟩
      clocks := clocks
      lost := le_rfl }
  · have differs : ¬ cpu.lapic.timer.clock.sent = cpu.lapic.timer.sent := by
      rw [sent]
      exact List.cons_ne_self _ _
    have lapic : cpu.lapic.clock =
        { cpu.lapic with
          timer := cpu.lapic.timer.clock
          requested := true
          lost := cpu.lapic.lost + cpu.lapic.requested.toNat } := if_neg differs
    rw [lapic]
    exact {
      periodic := periodic
      divisor := divisor
      gsbase := rfl
      handled := le_rfl
      ticks := by rw [Nat.sub_self, BitVec.add_zero]
      acknowledged := running.acknowledged
      sent := ⟨expired, by simp only [Bool.toNat_true, one]; omega, position⟩
      clocks := clocks
      lost := Nat.le_add_right _ _ }

theorem ApicElapsed.interrupt (running : ApicRunning hhdmoffset interval cpu)
    (requested : cpu.lapic.requested = true) :
    ApicElapsed interval cpu (apicTimerHandler hhdmoffset cpu.accept) := by
  have counted : apicTimerHandler hhdmoffset cpu.accept =
      { cpu with
        lapic.requested := false
        lapic.inService := false
        lapicTimerTicks := cpu.lapicTimerTicks + 1
        handled := cpu.handled + 1 } := if_pos running.initialized
  rw [counted]
  exact {
    periodic := running.periodic
    divisor := running.divisor
    gsbase := rfl
    handled := Nat.le_add_right _ _
    ticks := by
      rw [Nat.add_sub_cancel_left]
      rfl
    acknowledged := rfl
    sent := by
      refine ⟨0, ?_, ?_⟩
      · rw [requested]
        exact Nat.add_right_comm cpu.handled 1 cpu.lapic.lost
      · rw [LapicTimer.counts, Nat.sub_self, Nat.zero_mul, Nat.zero_add]
        rfl
    clocks := le_rfl
    lost := le_rfl }

theorem ApicElapsed.running (elapsed : ApicElapsed interval cpu next)
    (running : ApicRunning hhdmoffset interval cpu) : ApicRunning hhdmoffset interval next where
  periodic := elapsed.periodic
  divisor := elapsed.divisor
  acknowledged := elapsed.acknowledged
  initialized := by
    rw [getCpuStructInitialized, elapsed.gsbase]
    exact running.initialized

/-- Whatever happens between two moments keeps the invariant. -/
theorem ApicElapsed.moves (running : ApicRunning hhdmoffset interval cpu)
    (moves : Relation.ReflTransGen (ApicMove hhdmoffset) cpu next) :
    ApicElapsed interval cpu next := by
  induction moves with
  | refl => exact .refl running
  | tail before move ih =>
      refine ih.trans ?_
      have still := ih.running running
      cases move with
      | clock => exact .clock still
      | interrupt requested acknowledged => exact .interrupt still requested

/-- At least the intervals that lie between the interrupts handled have gone by. -/
theorem ApicElapsed.at_least (elapsed : ApicElapsed interval cpu next)
    (running : ApicRunning hhdmoffset interval cpu) {ms : Nat}
    (enough : ms ≤ next.handled - cpu.handled) :
    (ms - cpu.lapic.requested.toNat) * interval <
      LapicTimer.counts 16 cpu.lapic.timer.clocks next.lapic.timer.clocks + interval := by
  obtain ⟨expired, balance, position⟩ := elapsed.sent
  have lost := elapsed.lost
  have phase := running.periodic.phase_lt
  have fewer : (ms - cpu.lapic.requested.toNat) * interval ≤ expired * interval :=
    Nat.mul_le_mul_right _ (by omega)
  omega

/-- If no interrupt is lost, not many more intervals have gone by. -/
theorem ApicElapsed.at_most (elapsed : ApicElapsed interval cpu next)
    (prompt : next.lapic.lost = cpu.lapic.lost) {ms : Nat}
    (few : next.handled - cpu.handled < ms) :
    LapicTimer.counts 16 cpu.lapic.timer.clocks next.lapic.timer.clocks <
      (ms + 1) * interval := by
  obtain ⟨expired, balance, position⟩ := elapsed.sent
  have handled := elapsed.handled
  have phase := elapsed.periodic.phase_lt
  have pending := Bool.toNat_le next.lapic.requested
  have fewer : (expired + 1) * interval ≤ (ms + 1) * interval :=
    Nat.mul_le_mul_right _ (by omega)
  rw [Nat.add_mul] at fewer
  omega

/-- `apic_sleep` leaves its loop at the first test that fails. -/
theorem apicSleepReturns_iff (load : Nat → Word) (ms : Word) (k : Nat) :
    ApicSleepReturns load ms k ↔
      IsLeast {k | ¬ (if k = 0 then load 0 else load (k + 1)) - load 1 < ms} k := by
  let states : Nat → Word × Nat := fun k => (if k = 0 then load 0 else load (k + 1), k)
  have waits : ∀ k, ¬ ¬ (states k).1 - load 1 < ms →
      apicSleepStep load ms (states k) = .inl (states (k + 1)) :=
    fun k early => if_pos (not_not.mp early)
  have leaves : ∀ k, ¬ (states k).1 - load 1 < ms →
      apicSleepStep load ms (states k) = .inr k :=
    fun k enough => if_neg enough
  have start : states 0 = (load 0, 0) := rfl
  rw [ApicSleepReturns, ← start, returns_iff_isLeast waits leaves]
  constructor
  · rintro ⟨first, least, rfl⟩
    exact least
  · intro least
    exact ⟨k, least, rfl⟩

end Proofs

/-- `apic_sleep(ms)` on a processor whose timer runs and that takes the interrupts at any moments
between the loads.  If one is taken between the first two loads, `curcnt` is ahead of
`lapic_timer_ticks` and the sleep is over at once.  Otherwise it ends with the first load that
finds `ms` interrupts handled; the intervals gone by are then more than `ms - 1`, or `ms - 2` if
one interrupt was waiting.  As long as no interrupt is lost, no load in the loop before that comes
later than `ms + 1` intervals.  So the time is counted in intervals of the timer, not in ms. -/
theorem apic_sleep_duration (hhdmoffset : Word) (interval : Nat) (cpu : Nat → ApicCpu) (ms : Word)
    (running : ApicRunning hhdmoffset interval (cpu 0))
    (moves : ∀ n, Relation.ReflTransGen (ApicMove hhdmoffset) (cpu n) (cpu (n + 1))) :
    let load n := (cpu n).lapicTimerTicks
    let counts k := LapicTimer.counts 16 (cpu 1).lapic.timer.clocks (cpu k).lapic.timer.clocks
    let handled k := (cpu k).handled - (cpu 1).handled
    ((cpu 0).handled < (cpu 1).handled → (cpu 1).handled - (cpu 0).handled ≤ 2 ^ 64 - ms.toNat →
      ApicSleepReturns load ms 0) ∧
    ((cpu 1).handled = (cpu 0).handled → ∀ k,
      (ApicSleepReturns load ms k ↔ IsLeast {k | ms.toNat ≤ handled (k + 1) % 2 ^ 64} k) ∧
      (ApicSleepReturns load ms k →
        (ms.toNat - (cpu 1).lapic.requested.toNat) * interval < counts (k + 1) + interval ∧
        ∀ j < k, (cpu (j + 1)).lapic.lost = (cpu 1).lapic.lost → handled (j + 1) < 2 ^ 64 →
          counts (j + 1) < (ms.toNat + 1) * interval)) := by
  intro load counts handled
  have still : ∀ n, ApicRunning hhdmoffset interval (cpu n) := by
    intro n
    induction n with
    | zero => exact running
    | succ n ih => exact (ApicElapsed.moves ih (moves n)).running ih
  have elapsed : ∀ k, ApicElapsed interval (cpu 1) (cpu (k + 1)) := by
    intro k
    induction k with
    | zero => exact .refl (still 1)
    | succ k ih => exact ih.trans (.moves (still _) (moves _))
  have ticks : load 1 = load 0 + BitVec.ofNat 64 ((cpu 1).handled - (cpu 0).handled) :=
    (ApicElapsed.moves running (moves 0)).ticks
  constructor
  · intro interrupted few
    rw [apicSleepReturns_iff]
    refine ⟨?_, fun k _ => Nat.zero_le k⟩
    have small := ms.isLt
    have start := (load 0).isLt
    have behind : (load 0 - load 1).toNat =
        (2 ^ 64 - ((cpu 1).handled - (cpu 0).handled) % 2 ^ 64) % 2 ^ 64 := by
      rw [ticks, BitVec.toNat_sub, BitVec.toNat_add, BitVec.toNat_ofNat]
      omega
    simp only [Set.mem_ofPred_eq, if_true, BitVec.lt_def, behind]
    omega
  · intro undisturbed k
    have differences : ∀ k, ((if k = 0 then load 0 else load (k + 1)) - load 1).toNat =
        handled (k + 1) % 2 ^ 64 := by
      intro k
      have same : load 0 = load 1 := by
        rw [ticks, undisturbed, Nat.sub_self, BitVec.add_zero]
      have later : load (k + 1) = load 1 + BitVec.ofNat 64 (handled (k + 1)) := (elapsed k).ticks
      have current : (if k = 0 then load 0 else load (k + 1)) = load (k + 1) := by
        split
        · next zero => rw [zero, same]
        · rfl
      rw [current, later, BitVec.add_comm, BitVec.add_sub_cancel, BitVec.toNat_ofNat]
    have first : ApicSleepReturns load ms k ↔
        IsLeast {k | ms.toNat ≤ handled (k + 1) % 2 ^ 64} k := by
      rw [apicSleepReturns_iff]
      simp only [BitVec.lt_def, differences, Nat.not_lt]
    refine ⟨first, fun returns => ⟨?_, ?_⟩⟩
    · exact (elapsed k).at_least (still 1) ((first.mp returns).1.trans (Nat.mod_le _ _))
    · intro j before prompt unwrapped
      refine (elapsed j).at_most prompt (Nat.lt_of_not_le fun enough => ?_)
      have early : ms.toNat ≤ handled (j + 1) % 2 ^ 64 := by
        rwa [Nat.mod_eq_of_lt unwrapped]
      exact absurd ((first.mp returns).2 early) (Nat.not_le_of_lt before)

/-- A tick between the first two loads ends a sleep of a thousand ticks at once. -/
theorem apic_sleep_duration_none :
    let before : ApicCpu := ⟨⟨⟨0x20045, 0b11, 9, 5, 0, []⟩, true, false, 0⟩, 0, 7, 0⟩
    ApicMove 0 before (apicTimerHandler 0 before.accept) ∧
      ApicSleepReturns (fun n => if n = 0 then 7 else 8) 1000 0 := by
  intro before
  let after := apicTimerHandler 0 before.accept
  have running : ApicRunning 0 9 before :=
    ⟨⟨by decide, by decide, by decide, by decide, by decide, by decide⟩, by decide, rfl, by decide⟩
  have interrupted := (apic_sleep_duration 0 9 (fun n => if n = 0 then before else after) 1000
    running fun n => by
      cases n with
      | zero => exact .single (.interrupt before rfl rfl)
      | succ n => exact .refl).1 (by decide) (by decide)
  refine ⟨.interrupt before rfl rfl, ?_⟩
  convert interrupted using 2 with n
  cases n with
  | zero => rfl
  | succ n => rfl

end Lord84
