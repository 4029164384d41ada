import Lord84.Hal.Interrupts
import Mathlib.Logic.Function.Iterate

/-!
# Deadlock of a printing handler

The lock is held by at most one activation, and an activation above the holder never asks
for it as long as no handler that prints is started while the lock is held.  Such runs never
deadlock, and every exception in them is reported; all other runs deadlock.
-/

namespace Lord84

open Theory

/-! ## Balanced code -/

/-- The code acquires and frees the lock in turn, and prints only while it holds it. -/
inductive Balanced : (holds : Bool) → List Action → Prop where
  | nil : Balanced false []
  | acquire {todo : List Action} : Balanced true todo → Balanced false (.acquire :: todo)
  | print {call : PrintCall} {current : Byte} {todo : List Action} :
      Balanced true todo → Balanced true (.print call current :: todo)
  | free {todo : List Action} : Balanced false todo → Balanced true (.free :: todo)
  | work {todo : List Action} : Balanced false todo → Balanced false (.work :: todo)
  | halt {todo : List Action} : Balanced false todo → Balanced false (.halt :: todo)

theorem Balanced.append {holds : Bool} {before after : List Action}
    (first : Balanced holds before) (second : Balanced false after) :
    Balanced holds (before ++ after) := by
  induction first with
  | nil => exact second
  | acquire _ ih => exact .acquire ih
  | print _ ih => exact .print ih
  | free _ ih => exact .free ih
  | work _ ih => exact .work ih
  | halt _ ih => exact .halt ih

theorem PrintCall.balanced_loop (call : PrintCall) (text : List Byte) :
    Balanced true (text.map (.print call) ++ [.free]) := by
  induction text with
  | nil => exact .free .nil
  | cons c text ih => exact .print ih

theorem PrintCall.balanced (call : PrintCall) : Balanced false call.actions :=
  .acquire (call.balanced_loop _)

theorem balanced_flatMap {α : Type} {items : List α} {actions : α → List Action}
    (each : ∀ item, Balanced false (actions item)) : Balanced false (items.flatMap actions) := by
  induction items with
  | nil => exact .nil
  | cons item items ih => exact (each item).append ih

theorem KernelOp.balanced (op : KernelOp) : Balanced false op.actions := by
  cases op with
  | kprintf call => exact call.balanced
  | work => exact .work .nil

/-- The vectors whose handler prints. -/
def InterruptFrame.Prints (r : InterruptFrame) : Prop :=
  r.intNo < 32 ∨ r.intNo = 255

theorem balanced_interruptHandler (exceptionMessages : Word → Word) (r : InterruptFrame) :
    Balanced false (interruptHandler exceptionMessages r) := by
  rw [interruptHandler]
  split
  next => exact (balanced_flatMap PrintCall.balanced).append (.halt .nil)
  next =>
    refine Balanced.append (Balanced.append ?_ ?_) ?_
    · split
      next => exact PrintCall.balanced _
      next => exact .nil
    · split
      next => exact .work .nil
      next => exact .nil
    · split
      next => exact .halt .nil
      next => exact .nil

/-- Code that never asks for the lock. -/
def Activation.Silent (activation : Activation) : Prop :=
  activation.holds = false ∧ Action.acquire ∉ activation.todo

/-- A handler that does not print never asks for the lock. -/
theorem silent_interruptHandler {exceptionMessages : Word → Word} {r : InterruptFrame}
    (quiet : ¬ r.Prints) : (Activation.of (interruptHandler exceptionMessages r)).Silent := by
  obtain ⟨notException, notSpurious⟩ := not_or.mp quiet
  refine ⟨rfl, ?_⟩
  simp only [Activation.of, interruptHandler, if_neg notException, if_neg notSpurious,
    List.nil_append, List.mem_append, not_or]
  constructor
  · split <;> simp
  · split <;> simp

/-- A handler that prints asks for the lock first. -/
theorem interruptHandler_of_prints {exceptionMessages : Word → Word} {r : InterruptFrame}
    (prints : r.Prints) :
    ∃ todo, interruptHandler exceptionMessages r = .acquire :: todo := by
  rw [interruptHandler]
  split
  next => exact ⟨_, rfl⟩
  next notException =>
    rw [if_pos (prints.resolve_left notException)]
    exact ⟨_, rfl⟩

/-! ## Holders of the lock -/

namespace Machine

/-- All code in progress, the latest first. -/
def stack (m : Machine) : List Activation :=
  m.current :: m.interrupted

/-- The CPU waits for a lock that is held by code which it has interrupted. -/
def SelfDeadlock (m : Machine) : Prop :=
  (∃ todo, m.current.todo = .acquire :: todo) ∧ m.printfLock = true ∧
    ∃ activation ∈ m.interrupted, activation.holds = true

/-- All code is balanced, the lock is taken when somebody holds it, and nobody above a holder
asks for it. -/
structure Inv (m : Machine) : Prop where
  balanced : ∀ activation ∈ m.stack, Balanced activation.holds activation.todo
  lock : m.printfLock = true ↔ ∃ activation ∈ m.stack, activation.holds = true
  quiet : m.stack.Pairwise fun above below => below.holds = true → above.Silent

variable {strings : Word → List Byte} {exceptionMessages : Word → Word} {m : Machine}

theorem inv_start (program : List KernelOp) : (start program).Inv where
  balanced := by
    intro activation member
    rw [List.mem_singleton.mp member]
    exact balanced_flatMap KernelOp.balanced
  lock := by simp [stack, start, Activation.of]
  quiet := List.pairwise_singleton _ _

theorem Inv.not_selfDeadlock (inv : m.Inv) : ¬ m.SelfDeadlock := by
  rintro ⟨⟨todo, asks⟩, -, holder, member, holds⟩
  have silent := List.rel_of_pairwise_cons inv.quiet member holds
  apply silent.2
  rw [asks]
  exact List.mem_cons_self

/-- Taking an interrupt keeps the invariant, unless its handler prints while the lock is
held. -/
theorem Inv.interrupt (inv : m.Inv) {r : InterruptFrame}
    (harmless : r.Prints → m.printfLock = false) :
    (m.next strings exceptionMessages (.interrupt r)).Inv where
  balanced := by
    intro activation member
    rcases List.mem_cons.mp member with rfl | below
    · exact balanced_interruptHandler exceptionMessages r
    · exact inv.balanced activation below
  lock := by
    refine inv.lock.trans ?_
    simp [stack, next, Activation.of]
  quiet := by
    refine List.pairwise_cons.mpr ⟨?_, inv.quiet⟩
    intro below member holds
    apply silent_interruptHandler
    intro prints
    have free := harmless prints
    rw [inv.lock.mpr ⟨below, member, holds⟩] at free
    cases free

theorem Inv.lock_iff (inv : m.Inv) :
    m.printfLock = true ↔
      m.current.holds = true ∨ ∃ activation ∈ m.interrupted, activation.holds = true := by
  simp only [inv.lock, stack, List.mem_cons, exists_eq_or_imp]

/-- While the current code holds the lock, nobody below does. -/
theorem Inv.only_holder (inv : m.Inv) (holds : m.current.holds = true) :
    ¬ ∃ activation ∈ m.interrupted, activation.holds = true := by
  rintro ⟨below, member, alsoHolds⟩
  have silent := List.rel_of_pairwise_cons inv.quiet member alsoHolds
  rw [silent.1] at holds
  cases holds

/-- A machine with the same interrupted code. -/
theorem Inv.replace (inv : m.Inv) {changed : Machine}
    (same : changed.interrupted = m.interrupted)
    (balanced : Balanced changed.current.holds changed.current.todo)
    (lock : changed.printfLock = true ↔ changed.current.holds = true ∨
      ∃ activation ∈ m.interrupted, activation.holds = true)
    (quiet : ∀ below ∈ m.interrupted, below.holds = true → changed.current.Silent) :
    changed.Inv where
  balanced := by
    intro activation member
    rcases List.mem_cons.mp member with rfl | below
    · exact balanced
    · rw [same] at below
      exact inv.balanced activation (List.mem_cons_of_mem _ below)
  lock := by simp only [lock, stack, List.mem_cons, exists_eq_or_imp, same]
  quiet := by
    rw [stack, same]
    exact List.pairwise_cons.mpr ⟨quiet, (List.pairwise_cons.mp inv.quiet).2⟩

/-- When code ends, the code that it interrupted goes on. -/
theorem Inv.resume (inv : m.Inv) (ended : m.current.todo = []) {resumed : Activation}
    {rest : List Activation} (interrupted : m.interrupted = resumed :: rest) :
    ({ m with current := resumed, interrupted := rest } : Machine).Inv := by
  have top := inv.balanced m.current List.mem_cons_self
  rw [ended] at top
  have free : m.current.holds = false := by
    cases holds : m.current.holds with
    | false => rfl
    | true =>
        rw [holds] at top
        cases top
  constructor
  · intro activation member
    exact inv.balanced activation (List.mem_cons_of_mem _ (interrupted ▸ member))
  · have lock := inv.lock_iff
    rw [free, interrupted] at lock
    simp only [Bool.false_eq_true, false_or] at lock
    exact lock
  · have below := (List.pairwise_cons.mp inv.quiet).2
    rw [interrupted] at below
    exact below

/-- Executing a step keeps the invariant. -/
theorem Inv.advance (inv : m.Inv) : (m.advance strings).Inv := by
  have top := inv.balanced m.current List.mem_cons_self
  have below := (List.pairwise_cons.mp inv.quiet).1
  rw [Machine.advance]
  cases todo : m.current.todo with
  | nil =>
      cases interrupted : m.interrupted with
      | nil => exact inv
      | cons resumed rest => exact inv.resume todo interrupted
  | cons action rest =>
      rw [todo] at top
      generalize holds : m.current.holds = held at top
      cases top with
      | acquire later =>
          cases lock : m.printfLock with
          | true => simpa only [lock, acquireLock_true] using inv
          | false =>
              have nobody : ¬ ∃ activation ∈ m.interrupted, activation.holds = true := by
                intro somebody
                have taken := inv.lock_iff.mpr (Or.inr somebody)
                rw [lock] at taken
                cases taken
              simp only [acquireLock_false]
              exact inv.replace rfl later (iff_of_true rfl (Or.inl rfl))
                (fun activation member alsoHolds => (nobody ⟨activation, member, alsoHolds⟩).elim)
      | print later =>
          have nobody := inv.only_holder holds
          refine inv.replace rfl ?_ inv.lock_iff
            (fun activation member alsoHolds => (nobody ⟨activation, member, alsoHolds⟩).elim)
          rw [holds]
          exact later
      | free later =>
          have nobody := inv.only_holder holds
          refine inv.replace rfl later ?_
            (fun activation member alsoHolds => (nobody ⟨activation, member, alsoHolds⟩).elim)
          exact iff_of_false Bool.false_ne_true (not_or.mpr ⟨Bool.false_ne_true, nobody⟩)
      | work later =>
          refine inv.replace rfl ?_ inv.lock_iff ?_
          · rw [holds]
            exact later
          · intro activation member alsoHolds
            have silent := below activation member alsoHolds
            refine ⟨silent.1, ?_⟩
            intro asks
            apply silent.2
            rw [todo]
            exact List.mem_cons_of_mem _ asks
      | halt later => exact inv

end Machine

/-! ## Reports -/

/-- What a call prints when nothing keeps it from running. -/
def PrintCall.output (strings : Word → List Byte) (call : PrintCall) : List Byte :=
  (interpret framebuffer strings call.args call.format).output

namespace Machine

variable {strings : Word → List Byte} {exceptionMessages : Word → Word}

/-- The machine after the current code has printed and freed the lock. -/
def printed (m : Machine) (output : List Byte) (todo : List Action) (printer : Printer) :
    Machine where
  current := { todo, printer, holds := false }
  interrupted := m.interrupted
  printfLock := false
  screen := m.screen ++ output

/-- The loop of `kprintf`, once the lock is taken. -/
theorem advance_loop {call : PrintCall} {rest : List Action} (text : List Byte) {m : Machine}
    (todo : m.current.todo = text.map (.print call) ++ .free :: rest) :
    ∃ printer, (advance strings)^[text.length + 1] m =
      m.printed (text.foldl (Printer.step framebuffer strings call.args)
        m.current.printer.cleared).output rest printer := by
  induction text generalizing m with
  | nil =>
      refine ⟨m.current.printer, ?_⟩
      rw [List.map_nil, List.nil_append] at todo
      rw [List.length_nil, Nat.zero_add, Function.iterate_one, advance, todo]
      simp [printed, Printer.cleared]
  | cons c text ih =>
      rw [List.map_cons, List.cons_append] at todo
      have stepped : m.advance strings =
          { m with
            screen := m.screen ++
              (m.current.printer.cleared.step framebuffer strings call.args c).output
            current := { m.current with
              todo := text.map (.print call) ++ .free :: rest
              printer := m.current.printer.cleared.step framebuffer strings call.args c } } := by
        rw [advance, todo]
      obtain ⟨printer, looped⟩ := @ih (m.advance strings) (by rw [stepped])
      refine ⟨printer, ?_⟩
      rw [List.length_cons, Function.iterate_succ_apply, looped, stepped, List.foldl_cons,
        Printer.foldl_output text (m.current.printer.cleared.step framebuffer strings call.args c)]
      simp only [printed, List.append_assoc]

/-- A call of `kprintf` runs to its end when the lock is free. -/
theorem advance_call {call : PrintCall} {rest : List Action} {m : Machine}
    (todo : m.current.todo = call.actions ++ rest) (free : m.printfLock = false) :
    ∃ n printer, (advance strings)^[n] m = m.printed (call.output strings) rest printer := by
  have stepped : m.advance strings =
      { m with
        printfLock := true
        current := {
          todo := (call.format.take (strlen call.format)).map (.print call) ++ .free :: rest
          printer := .start
          holds := true } } := by
    have shape : call.actions ++ rest = .acquire ::
        ((call.format.take (strlen call.format)).map (.print call) ++ .free :: rest) := by
      simp [PrintCall.actions]
    rw [advance, todo, shape]
    simp only [free, acquireLock_false]
  obtain ⟨printer, looped⟩ := @advance_loop strings call rest
    (call.format.take (strlen call.format)) (m.advance strings) (by rw [stepped])
  refine ⟨_, printer, (Function.iterate_succ_apply _ _ m).trans (looped.trans ?_)⟩
  rw [stepped]
  rfl

/-- Calls one after the other. -/
theorem advance_calls {rest : List Action} (calls : List PrintCall) {m : Machine}
    (todo : m.current.todo = calls.flatMap PrintCall.actions ++ rest)
    (free : m.printfLock = false) :
    ∃ n, ((advance strings)^[n] m).screen = m.screen ++ calls.flatMap (PrintCall.output strings) ∧
      ((advance strings)^[n] m).current.todo = rest := by
  induction calls generalizing m with
  | nil => exact ⟨0, (List.append_nil _).symm, todo⟩
  | cons call calls ih =>
      rw [List.flatMap_cons, List.append_assoc] at todo
      obtain ⟨first, printer, called⟩ := @advance_call strings _ _ m todo free
      obtain ⟨later, screen, finished⟩ := @ih (m.printed (call.output strings)
        (calls.flatMap PrintCall.actions ++ rest) printer) rfl rfl
      refine ⟨later + first, ?_, ?_⟩
      · rw [Function.iterate_add_apply, called, screen, printed, List.flatMap_cons,
          List.append_assoc]
      · rw [Function.iterate_add_apply, called, finished]

variable (strings exceptionMessages)

/-- The handler of an exception, when it runs undisturbed, prints its whole report and
stops the machine. -/
def ReportPrinted (m : Machine) (r : InterruptFrame) : Prop :=
  ∃ n, let final := (advance strings)^[n] (m.next strings exceptionMessages (.interrupt r))
    final.screen = m.screen ++
        (exceptionReport exceptionMessages r).flatMap (PrintCall.output strings) ∧
      final.current.todo = [.halt]

/-- In no state of the run does the CPU wait for itself, and every exception taken in the
run is reported. -/
structure PrintsSafely (m : Machine) (events : List Event) : Prop where
  noDeadlock : Always (step strings exceptionMessages) (fun m => ¬ m.SelfDeadlock) m events
  reported : Along (step strings exceptionMessages) (fun m event => ∀ r, event = .interrupt r →
    r.intNo < 32 → m.ReportPrinted strings exceptionMessages r) m events

/-- No interrupt whose handler prints is taken while the lock is held. -/
def Harmless (m : Machine) : Event → Prop
  | .run => True
  | .interrupt r => r.Prints → m.printfLock = false

variable {strings exceptionMessages}

theorem reportPrinted {m : Machine} {r : InterruptFrame} (exception : r.intNo < 32)
    (free : m.printfLock = false) : m.ReportPrinted strings exceptionMessages r := by
  apply advance_calls (exceptionReport exceptionMessages r)
  · simp only [next, Activation.of, interruptHandler, if_pos exception]
  · exact free

theorem Inv.next {m : Machine} (inv : m.Inv) {event : Event} (harmless : m.Harmless event) :
    (m.next strings exceptionMessages event).Inv := by
  cases event with
  | run => exact inv.advance
  | interrupt r => exact inv.interrupt harmless

/-- If the machine does not wait for itself after an event, the event was harmless. -/
theorem Inv.harmless {m : Machine} (inv : m.Inv) {event : Event}
    (safe : ¬ (m.next strings exceptionMessages event).SelfDeadlock) : m.Harmless event := by
  cases event with
  | run => trivial
  | interrupt r =>
      intro prints
      rw [← Bool.not_eq_true]
      intro taken
      exact safe ⟨interruptHandler_of_prints prints, taken, inv.lock.mp taken⟩

/-- Runs from a state in which nobody waits. -/
theorem Inv.printsSafely_iff {m : Machine} (inv : m.Inv) (events : List Event) :
    m.PrintsSafely strings exceptionMessages events ↔
      Along (step strings exceptionMessages) Harmless m events := by
  induction events generalizing m with
  | nil => exact ⟨fun _ => trivial, fun _ => ⟨inv.not_selfDeadlock, trivial⟩⟩
  | cons event events ih =>
      constructor
      · rintro ⟨⟨-, later⟩, -, reported⟩
        have harmless := inv.harmless (later _ rfl).here
        refine ⟨harmless, ?_⟩
        rintro next ⟨⟩
        exact (ih (inv.next harmless)).mp ⟨later _ rfl, reported _ rfl⟩
      · rintro ⟨harmless, later⟩
        have rest := (ih (inv.next harmless)).mpr (later _ rfl)
        refine ⟨⟨inv.not_selfDeadlock, ?_⟩, ?_, ?_⟩
        · rintro next ⟨⟩
          exact rest.noDeadlock
        · rintro r rfl exception
          exact reportPrinted exception (harmless (Or.inl exception))
        · rintro next ⟨⟩
          exact rest.reported

end Machine

/-- A run of kernel code that prints never waits for itself, and reports every exception,
exactly when no exception and no spurious interrupt is taken while `printf_lock` is held. -/
theorem printing_safe_iff_harmless (strings : Word → List Byte) (exceptionMessages : Word → Word)
    (program : List KernelOp) (events : List Event) :
    (Machine.start program).PrintsSafely strings exceptionMessages events ↔
      Along (Machine.step strings exceptionMessages) Machine.Harmless (.start program) events :=
  (Machine.inv_start program).printsSafely_iff events

/-- A frame that shows only the number of the interrupt. -/
def InterruptFrame.ofNumber (intNo : Word) : InterruptFrame where
  r15 := 0
  r14 := 0
  r13 := 0
  r12 := 0
  r11 := 0
  r10 := 0
  r9 := 0
  r8 := 0
  rdi := 0
  rsi := 0
  rbp := 0
  rdx := 0
  rcx := 0
  rbx := 0
  rax := 0
  intNo
  err := 0
  rip := 0
  cs := 0
  rflags := 0
  rsp := 0
  ss := 0

/-- A page fault in the middle of a call of `kprintf`: the handler waits forever. -/
theorem page_fault_deadlocks :
    ∃ final, run (Machine.step (fun _ => []) fun _ => 0)
        (.start [.kprintf (.of "hello" [])]) [.run, .interrupt (.ofNumber 14)] = .done final ∧
      final.SelfDeadlock ∧ (∀ n, (Machine.advance fun _ => [])^[n] final = final) ∧
      ¬ (Machine.start [.kprintf (.of "hello" [])]).PrintsSafely (fun _ => []) (fun _ => 0)
        [.run, .interrupt (.ofNumber 14)] := by
  let final := (((Machine.start [.kprintf (.of "hello" [])]).next (fun _ => []) (fun _ => 0)
    .run).next (fun _ => []) (fun _ => 0) (.interrupt (.ofNumber 14)))
  have prints : (InterruptFrame.ofNumber 14).Prints := Or.inl (by decide)
  obtain ⟨todo, asks⟩ := @interruptHandler_of_prints (fun _ => 0) _ prints
  have deadlock : final.SelfDeadlock := ⟨⟨todo, asks⟩, rfl, _, List.mem_cons_self, rfl⟩
  have stuck : final.advance (fun _ => []) = final := by
    have current : final.current.todo = .acquire :: todo := asks
    rw [Machine.advance, current]
    rfl
  refine ⟨final, rfl, deadlock, fun n => Function.iterate_fixed stuck n, ?_⟩
  rintro ⟨⟨-, later⟩, -⟩
  exact (later _ rfl).2 _ rfl deadlock

end Lord84
