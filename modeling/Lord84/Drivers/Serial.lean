import Lord84.Lib.Stdio
import Lord84.Theory.SpinLock
import Mathlib.Logic.Function.Basic
import Mathlib.Logic.Relation

/-!
# The serial port

A model of `src/drivers/serial.c` with the UART it drives.  The driver sets up no FIFO, so the
UART holds one byte that waits for its turn and one that is on its way; it moves them on at any
time of its own.

`serial_write` waits until the holding register is empty and then writes to it.  This delivers
every byte when one processor prints.  Between the test and the write another processor may
have written, and then a byte is lost: nothing below `serial_kprintf` takes a lock.
-/

namespace Lord84

open Theory Function

/-! ## The device -/

/-- The UART behind `COM1`, without the registers that the driver never touches. -/
structure Uart where
  divisorLow : Byte
  divisorHigh : Byte
  interruptEnable : Byte
  lineControl : Byte
  modemControl : Byte
  received : Byte
  dataReady : Bool
  holding : Option Byte
  shifting : Option Byte
  wire : List Byte

/-- `LINE_CTRL_REG`, `LINE_STAT_REG`, `INT_ENABLE_REG`, `MDM_CTRL_REG` and the data register
at offset zero from `COM1`. -/
inductive UartRegister where
  | data
  | intEnable
  | lineCtrl
  | mdmCtrl
  | lineStat
  deriving DecidableEq, Repr

namespace Uart

/-- The divisor latch is mapped in place of the first two registers. -/
def dlab (uart : Uart) : Bool :=
  uart.lineControl.getLsbD 7

/-- What is sent comes back instead of going out. -/
def loopback (uart : Uart) : Bool :=
  uart.modemControl.getLsbD 4

/-- The line status register: data ready, holding register empty, transmitter empty. -/
def lineStatus (uart : Uart) : Byte :=
  BitVec.ofBool false ++ BitVec.ofBool (uart.holding.isNone && uart.shifting.isNone) ++
    BitVec.ofBool uart.holding.isNone ++ (0#4) ++ BitVec.ofBool uart.dataReady

/-- `outb` to a register. -/
def outb (uart : Uart) (register : UartRegister) (value : Byte) : Uart :=
  match register with
  | .data =>
      if uart.dlab then { uart with divisorLow := value }
      else { uart with holding := some value }
  | .intEnable =>
      if uart.dlab then { uart with divisorHigh := value }
      else { uart with interruptEnable := value }
  | .lineCtrl => { uart with lineControl := value }
  | .mdmCtrl => { uart with modemControl := value }
  | .lineStat => uart

/-- `inb` from a register: what is read. -/
def inb (uart : Uart) : UartRegister → Byte
  | .data => if uart.dlab then uart.divisorLow else uart.received
  | .intEnable => if uart.dlab then uart.divisorHigh else uart.interruptEnable
  | .lineCtrl => uart.lineControl
  | .mdmCtrl => uart.modemControl
  | .lineStat => uart.lineStatus

/-- Reading the receive buffer empties it. -/
def afterInb (uart : Uart) : UartRegister → Uart
  | .data => if uart.dlab then uart else { uart with dataReady := false }
  | _ => uart

/-- What the UART does of its own. -/
inductive Tick : Uart → Uart → Prop
  | load {uart : Uart} (c : Byte) (waits : uart.holding = some c) (idle : uart.shifting = none) :
      Tick uart { uart with holding := none, shifting := some c }
  | send {uart : Uart} (c : Byte) (sends : uart.shifting = some c)
      (connected : uart.loopback = false) :
      Tick uart { uart with shifting := none, wire := uart.wire ++ [c] }
  | loop {uart : Uart} (c : Byte) (sends : uart.shifting = some c) (closed : uart.loopback = true) :
      Tick uart { uart with shifting := none, received := c, dataReady := true }

/-- Any number of ticks. -/
def Ticks : Uart → Uart → Prop :=
  Relation.ReflTransGen Tick

/-- What has been sent or is going to be. -/
def accepted (uart : Uart) : List Byte :=
  uart.wire ++ uart.shifting.toList ++ uart.holding.toList

/-- The test of `serial_write`. -/
theorem lineStatus_ready (uart : Uart) :
    uart.lineStatus &&& (1#8 <<< 5) = 0 ↔ uart.holding.isSome := by
  cases holding : uart.holding <;> cases shifting : uart.shifting <;>
    cases ready : uart.dataReady <;> simp [lineStatus, holding, shifting, ready]

theorem accepted_outb {uart : Uart} (mapped : uart.dlab = false) (empty : uart.holding = none)
    (c : Byte) : (uart.outb .data c).accepted = uart.accepted ++ [c] := by
  simp [outb, mapped, accepted, empty]

/-- Whatever was waiting in the holding register is overwritten. -/
theorem accepted_outb_sublist {uart : Uart} (mapped : uart.dlab = false) (c : Byte) :
    (uart.outb .data c).accepted.Sublist (uart.accepted ++ [c]) := by
  simp only [outb, mapped, accepted, Bool.false_eq_true, if_false, Option.toList_some]
  exact (List.sublist_append_left _ _).append (List.Sublist.refl _)

/-- Without the loopback every tick moves a byte on. -/
theorem Tick.accepted {before after : Uart} (connected : before.loopback = false)
    (tick : Tick before after) : after.accepted = before.accepted := by
  cases tick with
  | load c waits idle => simp [Uart.accepted, waits, idle]
  | send c sends => simp [Uart.accepted, sends]
  | loop c sends closed => simp [connected] at closed

/-- A tick changes no register that the driver sets, and it never fills the holding register. -/
theorem Tick.registers {before after : Uart} (tick : Tick before after) :
    after.lineControl = before.lineControl ∧ after.modemControl = before.modemControl ∧
      (before.holding = none → after.holding = none) := by
  cases tick with
  | load => exact ⟨rfl, rfl, fun _ => rfl⟩
  | send => exact ⟨rfl, rfl, id⟩
  | loop => exact ⟨rfl, rfl, id⟩

end Uart

/-! ## Printing -/

/-- Where a processor is in `serial_print`: before the test of `serial_write` for the next
character, or behind it. -/
inductive SerialPc where
  | polling (str : List Byte)
  | writing (c : Byte) (str : List Byte)

/-- What the processor has still to write. -/
def SerialPc.pending : SerialPc → List Byte
  | .polling str => serialPrint str
  | .writing c str => c :: serialPrint str

/-- Processors that print to the serial port, with the bytes they have written so far. -/
structure SerialPort (ι : Type) where
  uart : Uart
  pc : ι → SerialPc
  sent : List (ι × Byte)

namespace SerialPort

variable {ι : Type} [DecidableEq ι]

/-- Every processor is about to print a string. -/
def start (uart : Uart) (str : ι → List Byte) : SerialPort ι where
  uart
  pc i := .polling (str i)
  sent := []

/-- One step of a processor, or of the UART. -/
inductive Step : SerialPort ι → SerialPort ι → Prop
  | poll {m : SerialPort ι} (i : ι) (c : Byte) (str : List Byte)
      (here : m.pc i = .polling (c :: str)) (more : c ≠ 0)
      (ready : m.uart.lineStatus &&& (1#8 <<< 5) ≠ 0) :
      Step m { m with pc := update m.pc i (.writing c str) }
  | spin {m : SerialPort ι} (i : ι) (c : Byte) (str : List Byte)
      (here : m.pc i = .polling (c :: str)) (more : c ≠ 0)
      (busy : m.uart.lineStatus &&& (1#8 <<< 5) = 0) : Step m m
  | write {m : SerialPort ι} (i : ι) (c : Byte) (str : List Byte) (here : m.pc i = .writing c str) :
      Step m ⟨m.uart.outb .data c, update m.pc i (.polling str), m.sent ++ [(i, c)]⟩
  | tick {m : SerialPort ι} (uart : Uart) (tick : Uart.Tick m.uart uart) :
      Step m { m with uart := uart }

/-- Any number of steps, in any order. -/
def Steps : SerialPort ι → SerialPort ι → Prop :=
  Relation.ReflTransGen Step

omit [DecidableEq ι] in
/-- A processor is between the test and the write. -/
def Writing (m : SerialPort ι) (i : ι) : Prop :=
  ∃ c str, m.pc i = .writing c str

/-- At most one processor is between the test and the write. -/
def Alone (m : SerialPort ι) : Prop :=
  ∀ i j, m.Writing i → m.Writing j → i = j

/-- A run in which this is so all the time. -/
def StepsAlone : SerialPort ι → SerialPort ι → Prop :=
  Relation.ReflTransGen fun before after => Step before after ∧ after.Alone

/-- What one processor has written. -/
def sentBy (sent : List (ι × Byte)) (i : ι) : List Byte :=
  (sent.filter (·.1 = i)).map Prod.snd

/-! ## What every step preserves -/

section Invariant

variable {uart : Uart} {str : ι → List Byte} {m m' : SerialPort ι}

theorem sentBy_append_singleton (sent : List (ι × Byte)) (i j : ι) (c : Byte) :
    sentBy (sent ++ [(i, c)]) j = if i = j then sentBy sent j ++ [c] else sentBy sent j := by
  split <;> simp [sentBy, *]

/-- Every processor writes its own string in order, and what the UART has accepted is a part of
what has been written, in the order of the writes. -/
structure Ordered (uart : Uart) (str : ι → List Byte) (m : SerialPort ι) : Prop where
  mapped : m.uart.dlab = false
  connected : m.uart.loopback = false
  written : ∀ i, sentBy m.sent i ++ (m.pc i).pending = serialPrint (str i)
  accepted : m.uart.accepted.Sublist (uart.accepted ++ m.sent.map Prod.snd)

theorem serialPrint_cons {c : Byte} (more : c ≠ 0) (rest : List Byte) :
    serialPrint (c :: rest) = c :: serialPrint rest :=
  List.takeWhile_cons_of_pos (decide_eq_true more)

omit [DecidableEq ι] in
theorem dlab_of_lineControl {before after : Uart}
    (same : after.lineControl = before.lineControl) : after.dlab = before.dlab := by
  rw [Uart.dlab, Uart.dlab, same]

omit [DecidableEq ι] in
theorem loopback_of_modemControl {before after : Uart}
    (same : after.modemControl = before.modemControl) : after.loopback = before.loopback := by
  rw [Uart.loopback, Uart.loopback, same]

omit [DecidableEq ι] in
theorem outb_data (mapped : m.uart.dlab = false) (c : Byte) :
    m.uart.outb .data c = { m.uart with holding := some c } := by
  simp [Uart.outb, mapped]

theorem Ordered.step (ordered : Ordered uart str m) (step : Step m m') : Ordered uart str m' := by
  cases step with
  | poll i c rest here more ready =>
      refine ⟨ordered.mapped, ordered.connected, ?_, ordered.accepted⟩
      intro j
      by_cases self : j = i
      · subst self
        have before := ordered.written j
        rw [here] at before
        simpa [SerialPc.pending, serialPrint_cons more] using before
      · simpa [self] using ordered.written j
  | spin => exact ordered
  | write i c rest here =>
      constructor
      · rw [outb_data ordered.mapped]
        exact ordered.mapped
      · rw [outb_data ordered.mapped]
        exact ordered.connected
      · intro j
        have before := ordered.written j
        rw [sentBy_append_singleton]
        by_cases self : j = i
        · subst self
          rw [here] at before
          simpa [SerialPc.pending] using before
        · simpa [self, Ne.symm self] using before
      · have kept := (Uart.accepted_outb_sublist ordered.mapped c).trans
          (ordered.accepted.append (List.Sublist.refl [c]))
        simpa using kept
  | tick next tick =>
      obtain ⟨line, modem, -⟩ := tick.registers
      refine ⟨(dlab_of_lineControl line).trans ordered.mapped,
        (loopback_of_modemControl modem).trans ordered.connected, ordered.written, ?_⟩
      rw [tick.accepted ordered.connected]
      exact ordered.accepted

theorem Ordered.start (mapped : uart.dlab = false) (connected : uart.loopback = false) :
    Ordered uart str (.start uart str) where
  mapped := mapped
  connected := connected
  written _ := rfl
  accepted := by simp [SerialPort.start]

theorem Ordered.steps (ordered : Ordered uart str m) (run : Steps m m') :
    Ordered uart str m' := by
  induction run with
  | refl => exact ordered
  | tail _ step ih => exact ih.step step

/-- Nothing has been overwritten, and whoever is about to write finds the holding register
empty. -/
structure Lossless (uart : Uart) (m : SerialPort ι) : Prop where
  accepted : m.uart.accepted = uart.accepted ++ m.sent.map Prod.snd
  empty : ∀ i, m.Writing i → m.uart.holding = none

theorem Lossless.step (ordered : Ordered uart str m) (lossless : Lossless uart m)
    (alone : m.Alone) (step : Step m m') : Lossless uart m' := by
  cases step with
  | poll i c rest here more ready =>
      refine ⟨lossless.accepted, fun _ _ => ?_⟩
      have notFull := mt (Uart.lineStatus_ready m.uart).mpr ready
      simpa using notFull
  | spin => exact lossless
  | write i c rest here =>
      have writing : m.Writing i := ⟨c, rest, here⟩
      constructor
      · simp only [Uart.accepted_outb ordered.mapped (lossless.empty i writing),
          lossless.accepted, List.map_append, List.map_singleton, List.append_assoc]
      · rintro j ⟨d, others, there⟩
        by_cases self : j = i
        · subst self
          simp at there
        · simp only [update_of_ne self] at there
          exact absurd (alone j i ⟨d, others, there⟩ writing) self
  | tick next tick =>
      refine ⟨(tick.accepted ordered.connected).trans lossless.accepted, ?_⟩
      exact fun i writing => tick.registers.2.2 (lossless.empty i writing)

end Invariant

/-! ## Whole runs -/

section Runs

variable {uart : Uart} {str : ι → List Byte} {m : SerialPort ι}

omit [DecidableEq ι] in
theorem not_writing_start (i : ι) : ¬ (start uart str).Writing i := by
  rintro ⟨c, rest, here⟩
  cases here

theorem Lossless.steps (mapped : uart.dlab = false) (connected : uart.loopback = false)
    (run : StepsAlone (start uart str) m) :
    Ordered uart str m ∧ Lossless uart m ∧ m.Alone := by
  induction run with
  | refl =>
      refine ⟨.start mapped connected, ⟨?_, ?_⟩, ?_⟩
      · simp [SerialPort.start]
      · exact fun i writing => absurd writing (not_writing_start i)
      · exact fun i j writing => absurd writing (not_writing_start i)
  | tail _ step ih =>
      obtain ⟨ordered, lossless, alone⟩ := ih
      exact ⟨ordered.step step.1, lossless.step ordered alone step.1, step.2⟩

/-- The UART empties its holding register, if one waits long enough. -/
theorem exists_ticks_empty (connected : m.uart.loopback = false) :
    ∃ next, Steps m { m with uart := next } ∧ next.holding = none ∧
      next.dlab = m.uart.dlab ∧ next.loopback = false := by
  cases holding : m.uart.holding with
  | none => exact ⟨m.uart, .refl, holding, rfl, connected⟩
  | some waits =>
      cases shifting : m.uart.shifting with
      | none =>
          exact ⟨_, .single (.tick _ (.load waits holding shifting)), rfl, rfl, connected⟩
      | some sends =>
          let after : SerialPort ι := { m with
            uart := { m.uart with shifting := none, wire := m.uart.wire ++ [sends] } }
          have sent : Step m after := .tick _ (.send sends shifting connected)
          have loaded : Step after _ := .tick _ (.load waits holding rfl)
          exact ⟨_, .head sent (.single loaded), rfl, rfl, connected⟩

/-- The next character gets written, once the UART is ready for it. -/
theorem exists_written (mapped : m.uart.dlab = false) (connected : m.uart.loopback = false)
    {i : ι} {c : Byte} {rest : List Byte} (more : c ≠ 0) (here : m.pc i = .polling (c :: rest)) :
    ∃ m', Steps m m' ∧ m'.pc i = .writing c rest ∧ m'.uart.dlab = false ∧
      m'.uart.loopback = false := by
  obtain ⟨next, ticks, empty, map, connect⟩ := exists_ticks_empty connected
  have ready : next.lineStatus &&& (1#8 <<< 5) ≠ 0 := by
    rw [Ne, Uart.lineStatus_ready, empty]
    simp
  have polled := Step.poll (m := { m with uart := next }) i c rest here more ready
  exact ⟨_, ticks.tail polled, update_self i _ m.pc, map.trans mapped, connect⟩

/-- A processor can always finish its string. -/
theorem exists_finished (mapped : m.uart.dlab = false) (connected : m.uart.loopback = false)
    (i : ι) : ∃ m', Steps m m' ∧ (m'.pc i).pending = [] := by
  have write : ∀ rest, (∀ m : SerialPort ι, m.pc i = .polling rest → m.uart.dlab = false →
      m.uart.loopback = false → ∃ m', Steps m m' ∧ (m'.pc i).pending = []) →
      ∀ c, ∀ m : SerialPort ι, m.pc i = .writing c rest → m.uart.dlab = false →
      m.uart.loopback = false → ∃ m', Steps m m' ∧ (m'.pc i).pending = [] := by
    intro rest poll c m here mapped connected
    let after : SerialPort ι :=
      ⟨m.uart.outb .data c, update m.pc i (.polling rest), m.sent ++ [(i, c)]⟩
    have written : Step m after := .write i c rest here
    have uart : after.uart = { m.uart with holding := some c } := outb_data mapped c
    obtain ⟨m', further, done⟩ := poll after (update_self i _ m.pc)
      (by rw [uart]; exact mapped) (by rw [uart]; exact connected)
    exact ⟨m', .head written further, done⟩
  have poll : ∀ text, ∀ m : SerialPort ι, m.pc i = .polling text → m.uart.dlab = false →
      m.uart.loopback = false → ∃ m', Steps m m' ∧ (m'.pc i).pending = [] := by
    intro text
    induction text with
    | nil => exact fun m here _ _ => ⟨m, .refl, by rw [here]; rfl⟩
    | cons c rest ih =>
        intro m here mapped connected
        by_cases ends : c = 0
        · refine ⟨m, .refl, ?_⟩
          rw [here, ends]
          rfl
        · obtain ⟨next, polled, reached, map, connect⟩ := exists_written mapped connected ends here
          obtain ⟨m', further, done⟩ := write rest ih c next reached map connect
          exact ⟨m', polled.trans further, done⟩
  cases here : m.pc i with
  | polling text => exact poll text m here mapped connected
  | writing c rest => exact write rest (poll rest) c m here mapped connected

theorem Ordered.printing (ordered : Ordered uart str m) {i : ι} (writing : m.Writing i) :
    serialPrint (str i) ≠ [] := by
  obtain ⟨c, rest, here⟩ := writing
  rw [← ordered.written i, here]
  simp [SerialPc.pending]

/-- A processor that prints alone is never disturbed between a test and a write. -/
theorem stepsAlone_of_one (mapped : uart.dlab = false) (connected : uart.loopback = false) {i : ι}
    (one : ∀ j ≠ i, serialPrint (str j) = []) (run : Steps (start uart str) m) :
    StepsAlone (start uart str) m := by
  induction run with
  | refl => exact .refl
  | @tail _ after before step ih =>
      have ordered := ((Ordered.start mapped connected).steps before).step step
      have only : ∀ j, after.Writing j → j = i := by
        intro j writing
        by_contra other
        exact ordered.printing writing (one j other)
      exact ih.tail ⟨step, fun j k first second => (only j first).trans (only k second).symm⟩

/-- Whatever the UART does meanwhile: each processor writes its string character by character,
every byte on the wire is one that was written, in the order of the writes, and a processor
that waits can always finish.  When only one processor prints, no byte is lost. -/
theorem serial_print_delivers (mapped : uart.dlab = false) (connected : uart.loopback = false)
    (run : Steps (start uart str) m) :
    (∀ i, sentBy m.sent i ++ (m.pc i).pending = serialPrint (str i)) ∧
    m.uart.accepted.Sublist (uart.accepted ++ m.sent.map Prod.snd) ∧
    (∀ i, ∃ m', Steps m m' ∧ sentBy m'.sent i = serialPrint (str i)) ∧
    ∀ i, (∀ j ≠ i, serialPrint (str j) = []) →
      m.uart.accepted = uart.accepted ++ m.sent.map Prod.snd := by
  have ordered : Ordered uart str m := (Ordered.start mapped connected).steps run
  refine ⟨ordered.written, ordered.accepted, ?_, ?_⟩
  · intro i
    obtain ⟨m', further, done⟩ := exists_finished ordered.mapped ordered.connected i
    refine ⟨m', further, ?_⟩
    have written := (ordered.steps further).written i
    rwa [done, List.append_nil] at written
  · intro i one
    have alone := stepsAlone_of_one mapped connected one run
    exact (Lossless.steps mapped connected alone).2.1.accepted

/-! ## Lost bytes -/

/-- Some byte that was written has been overwritten. -/
def Lost (uart : Uart) (m : SerialPort ι) : Prop :=
  m.uart.accepted.length < uart.accepted.length + m.sent.length

/-- A lost byte is lost for good. -/
theorem Lost.steps {m' : SerialPort ι} (ordered : Ordered uart str m) (lost : Lost uart m)
    (run : Steps m m') : Lost uart m' := by
  induction run with
  | refl => exact lost
  | tail before step ih =>
      have reached := ordered.steps before
      cases step with
      | poll => exact ih
      | spin => exact ih
      | write i c rest here =>
          have kept := (Uart.accepted_outb_sublist reached.mapped c).length_le
          simp only [Lost, List.length_append, List.length_singleton] at ih kept ⊢
          omega
      | tick next tick =>
          rw [Lost, tick.accepted reached.connected]
          exact ih

/-- Two writes in a row lose a byte. -/
theorem exists_lost (ordered : Ordered uart str m) {i j : ι} (different : i ≠ j)
    (first : m.Writing i) (second : m.Writing j) : ∃ m', Steps m m' ∧ Lost uart m' := by
  obtain ⟨c, rest, here⟩ := first
  obtain ⟨d, others, there⟩ := second
  let middle : SerialPort ι :=
    ⟨m.uart.outb .data c, update m.pc i (.polling rest), m.sent ++ [(i, c)]⟩
  have wrote : Step m middle := .write i c rest here
  have still : middle.pc j = .writing d others := (update_of_ne different.symm _ _).trans there
  have overwrote : Step middle _ := .write j d others still
  refine ⟨_, .head wrote (.single overwrote), ?_⟩
  have mapped := (ordered.step wrote).mapped
  have bound := (ordered.step wrote).accepted.length_le
  have full : middle.uart = { m.uart with holding := some c } := outb_data ordered.mapped c
  have overwritten : (middle.uart.outb .data d).accepted.length = middle.uart.accepted.length := by
    rw [outb_data mapped, full]
    simp [Uart.accepted]
  simp only [Lost, overwritten, List.length_append, List.length_singleton, List.length_map]
    at bound ⊢
  omega

/-- Nothing is lost in a run without two processors at the same time between the test of
`serial_write` and its write.  Wherever a run comes to two such processors, it can go on so
that a byte is lost, for good: no lock keeps the second one out. -/
theorem serial_loses_iff_two_writing (mapped : uart.dlab = false)
    (connected : uart.loopback = false) :
    (∀ m : SerialPort ι, StepsAlone (start uart str) m →
      m.uart.accepted = uart.accepted ++ m.sent.map Prod.snd) ∧
    ∀ m : SerialPort ι, Steps (start uart str) m →
      ∀ i j, i ≠ j → m.Writing i → m.Writing j →
        ∃ m', Steps m m' ∧ ∀ m'', Steps m' m'' → Lost uart m'' := by
  constructor
  · exact fun m alone => (Lossless.steps mapped connected alone).2.1.accepted
  · intro m run i j different first second
    have ordered : Ordered uart str m := (Ordered.start mapped connected).steps run
    obtain ⟨m', further, lost⟩ := exists_lost ordered different first second
    exact ⟨m', further, fun m'' => lost.steps (ordered.steps further)⟩

end Runs

/-- A UART that is set up and has nothing to do. -/
def quietUart : Uart where
  divisorLow := 12
  divisorHigh := 0
  interruptEnable := 0
  lineControl := 0b00000011
  modemControl := 0b00001111
  received := 0
  dataReady := false
  holding := none
  shifting := none
  wire := []

/-- One processor prints two characters. -/
theorem serial_print_delivers_one :
    ∃ m : SerialPort Unit, Steps (start quietUart fun _ => [byte 'A', byte 'B']) m ∧
      m.uart.accepted = [byte 'A', byte 'B'] := by
  obtain ⟨-, -, finish, -⟩ :=
    @serial_print_delivers Unit _ quietUart (fun _ => [byte 'A', byte 'B']) _ rfl rfl .refl
  obtain ⟨m, run, written⟩ := finish ()
  obtain ⟨-, -, -, lossless⟩ := serial_print_delivers rfl rfl run
  refine ⟨m, run, ?_⟩
  rw [lossless () (fun j other => absurd rfl other)]
  have all : sentBy m.sent () = m.sent.map Prod.snd := by simp [sentBy]
  rw [← all, written]
  rfl

/-- Two processors find the UART ready, and one of their bytes is lost. -/
theorem serial_loses_two : ∃ m : SerialPort Bool,
    Steps (start quietUart fun _ => [byte 'A']) m ∧ Lost quietUart m := by
  let both : Bool → List Byte := fun _ => [byte 'A']
  have ready : (start quietUart both).uart.lineStatus &&& (1#8 <<< 5) ≠ 0 := by decide
  have first := Step.poll (m := start quietUart both) false (byte 'A') [] rfl (by decide) ready
  have run := (Relation.ReflTransGen.single first).tail
    (.poll true (byte 'A') [] rfl (by decide) ready)
  obtain ⟨-, lose⟩ := @serial_loses_iff_two_writing Bool _ quietUart both rfl rfl
  obtain ⟨m, further, lost⟩ := lose _ run false true (by decide) ⟨_, _, rfl⟩ ⟨_, _, rfl⟩
  exact ⟨m, run.trans further, lost m .refl⟩

end SerialPort

/-! ## Initialisation -/

/-- `outb` as an access. -/
def outb (register : UartRegister) (value : Byte) : Code Uart Unit :=
  Code.write (·.outb register value)

/-- `inb` as an access. -/
def inb (register : UartRegister) : Code Uart Byte :=
  .step (·.afterInb register) fun uart => .ret (uart.inb register)

/-- `serial_init`; the result is `serial_enabled`. -/
def serialInit : Code Uart Bool := do
  outb .intEnable 0
  outb .lineCtrl (1#8 <<< 7)
  outb .intEnable 0
  outb .data 12
  outb .lineCtrl (0#8 <<< 7)
  outb .lineCtrl 0b00000011
  outb .mdmCtrl 0b00001101
  outb .mdmCtrl 0b00011110
  outb .data 0xAE
  let echo ← inb .data
  if echo ≠ 0xAE then
    return false
  else
    outb .mdmCtrl 0b00001111
    return true

namespace Uart

/-- The registers that only the driver changes. -/
structure Config where
  divisorLow : Byte
  divisorHigh : Byte
  interruptEnable : Byte
  lineControl : Byte
  modemControl : Byte

def config (uart : Uart) : Config where
  divisorLow := uart.divisorLow
  divisorHigh := uart.divisorHigh
  interruptEnable := uart.interruptEnable
  lineControl := uart.lineControl
  modemControl := uart.modemControl

/-- The transmitter has nothing to do. -/
structure Idle (uart : Uart) : Prop where
  holding : uart.holding = none
  shifting : uart.shifting = none

variable {before after : Uart}

theorem Ticks.config (ticks : Ticks before after) : after.config = before.config := by
  induction ticks with
  | refl => rfl
  | tail _ tick ih => cases tick <;> exact ih

theorem Ticks.eq_of_idle (ticks : Ticks before after) (idle : before.Idle) : after = before := by
  induction ticks with
  | refl => rfl
  | tail _ tick ih =>
      subst ih
      cases tick with
      | load c waits => simp [idle.holding] at waits
      | send c sends => simp [idle.shifting] at sends
      | loop c sends => simp [idle.shifting] at sends

/-- Under the loopback nothing reaches the wire. -/
theorem Ticks.wire_of_loopback (ticks : Ticks before after) (closed : before.loopback = true) :
    after.wire = before.wire ∧ after.loopback = true := by
  induction ticks with
  | refl => exact ⟨rfl, closed⟩
  | tail _ tick ih =>
      cases tick with
      | load => exact ih
      | send c sends connected => simp [ih.2] at connected
      | loop => exact ih

/-- `outb` on the registers alone. -/
def Config.outb (config : Config) (register : UartRegister) (value : Byte) : Config :=
  match register with
  | .data => if config.lineControl.getLsbD 7 then { config with divisorLow := value } else config
  | .intEnable =>
      if config.lineControl.getLsbD 7 then { config with divisorHigh := value }
      else { config with interruptEnable := value }
  | .lineCtrl => { config with lineControl := value }
  | .mdmCtrl => { config with modemControl := value }
  | .lineStat => config

@[simp] theorem config_outb (uart : Uart) (register : UartRegister) (value : Byte) :
    (uart.outb register value).config = uart.config.outb register value := by
  cases mapped : uart.lineControl.getLsbD 7 <;> cases register <;>
    simp only [outb, Config.outb, dlab, config, mapped, Bool.false_eq_true, if_false, if_true]

@[simp] theorem wire_outb (uart : Uart) (register : UartRegister) (value : Byte) :
    (uart.outb register value).wire = uart.wire := by
  cases register <;> simp only [outb]
  all_goals split <;> rfl

@[simp] theorem received_outb (uart : Uart) (register : UartRegister) (value : Byte) :
    (uart.outb register value).received = uart.received := by
  cases register <;> simp only [outb]
  all_goals split <;> rfl

theorem dlab_eq (uart : Uart) : uart.dlab = uart.config.lineControl.getLsbD 7 := rfl

theorem loopback_eq (uart : Uart) : uart.loopback = uart.config.modemControl.getLsbD 4 := rfl

/-- Only a write to the holding register gives the transmitter something to do. -/
theorem Idle.outb {uart : Uart} (idle : uart.Idle) (register : UartRegister) (value : Byte)
    (control : register ≠ .data ∨ uart.dlab = true) : (uart.outb register value).Idle := by
  cases register with
  | data =>
      have mapped : uart.dlab = true := control.resolve_left (not_not.mpr rfl)
      simp only [Uart.outb, mapped, if_true]
      exact ⟨idle.holding, idle.shifting⟩
  | intEnable =>
      simp only [Uart.outb]
      split <;> exact ⟨idle.holding, idle.shifting⟩
  | lineCtrl => exact ⟨idle.holding, idle.shifting⟩
  | mdmCtrl => exact ⟨idle.holding, idle.shifting⟩
  | lineStat => exact idle

/-- What can have become of a byte that was sent under the loopback. -/
inductive Echo (c : Byte) (before : Uart) : Uart → Prop
  | holding : Echo c before { before with holding := some c }
  | shifting : Echo c before { before with shifting := some c }
  | received : Echo c before { before with received := c, dataReady := true }

theorem Ticks.echo {uart : Uart} {c : Byte} (idle : uart.Idle) (closed : uart.loopback = true)
    (ticks : Ticks { uart with holding := some c } after) : Echo c uart after := by
  have holding := idle.holding
  have shifting := idle.shifting
  induction ticks with
  | refl => exact .holding
  | tail _ tick ih =>
      rcases ih with ⟨⟩ | ⟨⟩ | ⟨⟩
      · cases tick with
        | load d waits empty =>
            cases waits
            have moved : Echo c uart { uart with shifting := some c } := .shifting
            simpa only [holding] using moved
        | send d sends connected => simp [shifting] at sends
        | loop d sends looped => simp [shifting] at sends
      · cases tick with
        | load d waits empty => simp [holding] at waits
        | send d sends connected =>
            have connected : uart.loopback = false := connected
            rw [closed] at connected
            cases connected
        | loop d sends looped =>
            cases sends
            have moved : Echo c uart { uart with received := c, dataReady := true } := .received
            simpa only [shifting] using moved
      · cases tick with
        | load d waits empty => simp [holding] at waits
        | send d sends connected => simp [shifting] at sends
        | loop d sends looped => simp [shifting] at sends

end Uart

open Uart

/-- The registers after `serial_init`: the line settings, and the modem control register. -/
def serialConfig (interruptEnable modemControl : Byte) : Uart.Config where
  divisorLow := 12
  divisorHigh := 0
  interruptEnable
  lineControl := 0b00000011
  modemControl

section Init

variable {uart final : Uart} {enabled : Bool}

/-- `serial_init` up to its self-test, and what the test decides. -/
theorem serialInit_cases (run : Code.Runs Uart.Ticks serialInit uart enabled final) :
    ∃ sent echoed, Ticks sent echoed ∧
      sent.config = serialConfig (if uart.dlab then uart.interruptEnable else 0) 0x1E ∧
      (uart.Idle → ∃ quiet : Uart, quiet.Idle ∧ quiet.loopback = true ∧
        quiet.wire = uart.wire ∧ quiet.received = uart.received ∧
        sent = { quiet with holding := some 0xAE }) ∧
      (echoed.received ≠ 0xAE ∧ enabled = false ∧ final = { echoed with dataReady := false } ∨
        echoed.received = 0xAE ∧ enabled = true ∧
          ∃ last, Ticks { echoed with dataReady := false } last ∧
            final = last.outb .mdmCtrl 0x0F) := by
  simp only [serialInit, Lord84.outb, Lord84.inb, Code.write_bind, Code.step_bind, Code.ret_bind,
    Code.runs_step] at run
  obtain ⟨u₁, t₁, u₂, t₂, u₃, t₃, u₄, t₄, u₅, t₅, u₆, t₆, u₇, t₇, u₈, t₈, u₉, t₉, echoed, t, run⟩ :=
    run
  have config : (u₉.outb .data 0xAE).config =
      serialConfig (if uart.dlab then uart.interruptEnable else 0) 0x1E := by
    rw [config_outb, t₉.config, config_outb, t₈.config, config_outb, t₇.config, config_outb,
      t₆.config, config_outb, t₅.config, config_outb, t₄.config, config_outb, t₃.config,
      config_outb, t₂.config, config_outb, t₁.config]
    cases mapped : uart.lineControl[7] <;>
      simp [Uart.config, Config.outb, serialConfig, dlab, mapped]
  have mapped : echoed.dlab = false := by
    rw [dlab_eq, t.config, config]
    simp [serialConfig]
  refine ⟨_, echoed, t, config, ?_, ?_⟩
  · intro idle
    cases t₁.eq_of_idle idle
    have idle := idle.outb .intEnable 0 (Or.inl (by decide))
    cases t₂.eq_of_idle idle
    have idle := idle.outb .lineCtrl (1#8 <<< 7) (Or.inl (by decide))
    cases t₃.eq_of_idle idle
    have idle := idle.outb .intEnable 0 (Or.inl (by decide))
    cases t₄.eq_of_idle idle
    have idle := idle.outb .data 12 (Or.inr (by simp [dlab_eq, Config.outb]))
    cases t₅.eq_of_idle idle
    have idle := idle.outb .lineCtrl (0#8 <<< 7) (Or.inl (by decide))
    cases t₆.eq_of_idle idle
    have idle := idle.outb .lineCtrl 0b00000011 (Or.inl (by decide))
    cases t₇.eq_of_idle idle
    have idle := idle.outb .mdmCtrl 0b00001101 (Or.inl (by decide))
    cases t₈.eq_of_idle idle
    have idle := idle.outb .mdmCtrl 0b00011110 (Or.inl (by decide))
    cases t₉.eq_of_idle idle
    refine ⟨_, idle, by simp [loopback_eq, Config.outb], by simp, by simp, ?_⟩
    rw [Uart.outb]
    exact if_neg (by simp [dlab_eq, Config.outb])
  · simp only [Uart.inb, Uart.afterInb, mapped, Bool.false_eq_true, if_false] at run
    split at run
    next other =>
      obtain ⟨rfl, rfl⟩ := Code.runs_ret.mp run
      exact Or.inl ⟨other, rfl, rfl⟩
    next echo =>
      obtain ⟨last, ticks, run⟩ := Code.runs_step.mp run
      obtain ⟨rfl, rfl⟩ := Code.runs_ret.mp run
      exact Or.inr ⟨not_not.mp echo, rfl, last, ticks, rfl⟩

omit uart final enabled in
/-- Under the loopback nothing that is printed reaches the wire. -/
theorem wire_of_loopback {ι : Type} [DecidableEq ι] {m m' : SerialPort ι}
    (closed : m.uart.loopback = true) (run : SerialPort.Steps m m') :
    m'.uart.wire = m.uart.wire ∧ m'.uart.loopback = true := by
  induction run with
  | refl => exact ⟨rfl, closed⟩
  | tail _ step ih =>
      cases step with
      | poll => exact ih
      | spin => exact ih
      | write i c str here =>
          refine ⟨(wire_outb _ _ _).trans ih.1, ?_⟩
          rw [loopback_eq, config_outb, Config.outb]
          split <;> exact ih.2
      | tick next tick =>
          obtain ⟨wire, loop⟩ := Ticks.wire_of_loopback (.single tick) ih.2
          exact ⟨wire.trans ih.1, loop⟩

/-- After `serial_init` the port sends at the divisor 12 with eight data bits, no parity and one
stop bit.  Its interrupts are off unless the divisor latch was mapped before, since the first
write then goes to the divisor.  When the self-test fails, the loopback stays on, and nothing
reaches the wire any more; when it succeeds on a quiet port, the test byte has not got out. -/
theorem serial_init_result (run : Code.Runs Ticks serialInit uart enabled final) :
    final.config = serialConfig (if uart.dlab then uart.interruptEnable else 0)
      (if enabled then 0x0F else 0x1E) ∧
    (enabled = false → ∀ (ι : Type) [DecidableEq ι] (str : ι → List Byte) (m : SerialPort ι),
      SerialPort.Steps (.start final str) m → m.uart.wire = final.wire) ∧
    (uart.Idle → uart.received ≠ 0xAE → enabled = true →
      final.Idle ∧ final.wire = uart.wire) := by
  obtain ⟨sent, echoed, ticks, config, quiet, result⟩ := serialInit_cases run
  have echoedConfig := ticks.config.trans config
  have lasts : ({ echoed with dataReady := false } : Uart).config = echoed.config := rfl
  obtain ⟨missed, rfl, rfl⟩ | ⟨matched, rfl, last, further, rfl⟩ := result
  · refine ⟨lasts.trans echoedConfig, ?_, fun _ _ absurd => nomatch absurd⟩
    intro _ ι _ str m run
    refine (wire_of_loopback ?_ run).1
    simp [SerialPort.start, loopback_eq, lasts, echoedConfig, serialConfig]
  · refine ⟨?_, (nomatch ·), ?_⟩
    · rw [config_outb, further.config, lasts, echoedConfig]
      rfl
    · intro idle fresh _
      obtain ⟨before, still, closed, wire, received, rfl⟩ := quiet idle
      obtain ⟨⟩ | ⟨⟩ | ⟨⟩ := ticks.echo still closed
      · exact absurd (received.symm.trans matched) fresh
      · exact absurd (received.symm.trans matched) fresh
      · have done : ({ before with received := 0xAE, dataReady := false } : Uart).Idle :=
          ⟨still.holding, still.shifting⟩
        cases further.eq_of_idle done
        exact ⟨done.outb .mdmCtrl _ (Or.inl (by decide)), wire⟩

/-- The self-test does not wait for its byte to come back, so on a quiet port both results are
possible. -/
theorem exists_serialInit_runs (idle : uart.Idle) (fresh : uart.received ≠ 0xAE)
    (enabled : Bool) : ∃ final, Code.Runs Ticks serialInit uart enabled final := by
  let before := (((((((uart.outb .intEnable 0).outb .lineCtrl (1#8 <<< 7)).outb
    .intEnable 0).outb .data 12).outb .lineCtrl (0#8 <<< 7)).outb .lineCtrl 0b00000011).outb
    .mdmCtrl 0b00001101).outb .mdmCtrl 0b00011110
  have still : before.Idle :=
    (((((((idle.outb .intEnable 0 (Or.inl (by decide))).outb .lineCtrl _ (Or.inl (by decide))).outb
      .intEnable 0 (Or.inl (by decide))).outb .data 12
      (Or.inr (by simp [dlab_eq, Config.outb]))).outb .lineCtrl _ (Or.inl (by decide))).outb
      .lineCtrl _ (Or.inl (by decide))).outb .mdmCtrl _ (Or.inl (by decide))).outb
      .mdmCtrl _ (Or.inl (by decide))
  have mapped : before.dlab = false := by simp [before, dlab_eq, Config.outb]
  have closed : before.loopback = true := by simp [before, loopback_eq, Config.outb]
  have received : before.received = uart.received := by simp [before]
  have sent : before.outb .data 0xAE = { before with holding := some 0xAE } := by
    rw [Uart.outb]
    exact if_neg (by simp [mapped])
  have answer : ∀ echoed, Ticks (before.outb .data 0xAE) echoed → echoed.dlab = false →
      (echoed.received = 0xAE ↔ enabled = true) →
      ∃ final, Code.Runs Ticks serialInit uart enabled final := by
    intro echoed ticks unmapped result
    simp only [serialInit, Lord84.outb, Lord84.inb, Code.write_bind, Code.step_bind,
      Code.ret_bind, Code.runs_step]
    have tested : ∃ final, Code.Runs Ticks
        (if echoed.inb .data ≠ 0xAE then pure false
          else Code.step (·.outb .mdmCtrl 0b00001111) fun _ => pure true)
        (echoed.afterInb .data) enabled final := by
      simp only [Uart.inb, unmapped, Bool.false_eq_true, if_false]
      split
      next missed =>
        have fails : enabled = false := Bool.eq_false_iff.mpr fun yes => missed (result.mpr yes)
        exact ⟨_, Code.runs_ret.mpr ⟨fails, rfl⟩⟩
      next matched =>
        have succeeds : enabled = true := result.mp (not_not.mp matched)
        exact ⟨_, Code.runs_step.mpr ⟨_, .refl, Code.runs_ret.mpr ⟨succeeds, rfl⟩⟩⟩
    obtain ⟨final, tested⟩ := tested
    exact ⟨final, _, .refl, _, .refl, _, .refl, _, .refl, _, .refl, _, .refl, _, .refl, _, .refl,
      _, .refl, echoed, ticks, tested⟩
  rw [sent] at answer
  clear_value before
  cases enabled with
  | false =>
      exact answer _ .refl mapped ⟨fun same => absurd (received.symm.trans same) fresh, nofun⟩
  | true =>
      have loaded : Tick { before with holding := some 0xAE }
          { before with holding := none, shifting := some 0xAE } := .load 0xAE rfl still.shifting
      have looped : Tick { before with holding := none, shifting := some 0xAE }
          { before with
            holding := none, shifting := none, received := 0xAE, dataReady := true } :=
        .loop 0xAE rfl closed
      exact answer _ (.head loaded (.single looped)) mapped (by simp)

/-- A run whose self-test succeeds, and one whose self-test fails. -/
theorem serial_init_result_quiet :
    (∃ final, Code.Runs Ticks serialInit SerialPort.quietUart true final ∧
      final.config = serialConfig 0 0x0F ∧ final.wire = []) ∧
    ∃ final, Code.Runs Ticks serialInit SerialPort.quietUart false final ∧
      final.config = serialConfig 0 0x1E := by
  have idle : SerialPort.quietUart.Idle := ⟨rfl, rfl⟩
  have fresh : SerialPort.quietUart.received ≠ 0xAE := by decide
  obtain ⟨good, passed⟩ := exists_serialInit_runs idle fresh true
  obtain ⟨bad, failed⟩ := exists_serialInit_runs idle fresh false
  obtain ⟨goodConfig, -, quiet⟩ := serial_init_result passed
  exact ⟨⟨good, passed, goodConfig, (quiet idle fresh rfl).2⟩,
    bad, failed, (serial_init_result failed).1⟩

end Init

end Lord84
