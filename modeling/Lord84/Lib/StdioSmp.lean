import Lord84.Lib.Stdio
import Lord84.Theory.SpinLock

/-!
# Printing from several processors

`kprintf` takes `printf_lock`; `serial_kprintf` takes no lock, and neither do the functions of
`serial.c` below it.  Here `kprintf` prints byte by byte, and while one processor prints the
others may send bytes to the serial port.

On the framebuffer every call of `kprintf` leaves its output in one piece, in the order in which
the calls have got the lock.
-/

namespace Lord84

open Theory Function

/-- What the sinks have received so far, and `printf_lock`. -/
structure Console where
  framebuffer : List Byte
  serial : List Byte
  printfLock : Bool

/-- The arguments of a call of `kprintf`; `strings` is what its pointers lead to. -/
structure KprintfCall where
  strings : Word → List Byte
  args : Nat → Word
  format : List Byte

/-- What the call prints when it is alone. -/
def KprintfCall.output (call : KprintfCall) : List Byte :=
  (interpret framebuffer call.strings call.args call.format).output

/-- `kernel_framebuffer_print`, byte by byte. -/
def framebufferPrint : List Byte → Code Console Unit
  | [] => pure ()
  | c :: bytes => do
      Code.write fun console => { console with framebuffer := console.framebuffer ++ [c] }
      framebufferPrint bytes

/-- The loop of `kprintf`: what an iteration prints goes to the framebuffer at once. -/
def kprintfLoop (call : KprintfCall) : List Byte → Printer → Code Console Unit
  | [], _ => pure ()
  | current :: text, printer => do
      let printer := printer.step framebuffer call.strings call.args current
      framebufferPrint printer.output
      kprintfLoop call text printer.cleared

/-- `kprintf` between `acquire_lock` and its return. -/
def kprintfCode (call : KprintfCall) : Code Console Unit := do
  kprintfLoop call (call.format.take (strlen call.format)) .start
  Code.write fun console => { console with printfLock := false }

/-- `printf_lock`.  A processor knows the calls that have returned to it, the last one first;
without the lock it may send a byte to the serial port. -/
def kprintfProtocol : LockProtocol Console KprintfCall Unit (List KprintfCall) where
  locked console := console.printfLock
  acquire console := { console with printfLock := true }
  code := kprintfCode
  allowed _ _ := True
  finish call _ returned := call :: returned
  outside _ before after := ∃ c, after = { before with serial := before.serial ++ [c] }

/-! ## One call -/

theorem framebufferPrint_run (bytes : List Byte) (console : Console) :
    (framebufferPrint bytes).run console =
      ((), { console with framebuffer := console.framebuffer ++ bytes }) := by
  induction bytes generalizing console with
  | nil => simp [framebufferPrint]
  | cons c bytes ih => simp [framebufferPrint, ih]

theorem kprintfLoop_run (call : KprintfCall) (text : List Byte) {printer : Printer}
    (fresh : printer.output = []) (console : Console) :
    (kprintfLoop call text printer).run console =
      ((), { console with framebuffer := console.framebuffer ++
        (text.foldl (Printer.step framebuffer call.strings call.args) printer).output }) := by
  induction text generalizing printer console with
  | nil => simp [kprintfLoop, fresh]
  | cons current text ih =>
      rw [kprintfLoop, Code.run_bind, framebufferPrint_run, ih rfl, List.foldl_cons,
        Printer.foldl_output text (printer.step _ _ _ current), List.append_assoc]

/-- Alone, the code prints what `kprintf` prints, and it releases the lock. -/
theorem kprintfCode_run (call : KprintfCall) (console : Console) :
    (kprintfCode call).run { console with printfLock := true } =
      ((), { console with
        framebuffer := console.framebuffer ++ call.output
        printfLock := false }) := by
  rw [kprintfCode, Code.run_bind, kprintfLoop_run call _ rfl]
  rfl

section Disturbance

variable {ι : Type} {own : ι → List KprintfCall} {i : ι} {console : Console}

/-- A write that leaves the serial port alone. -/
theorem unnoticed_of_framebuffer {effect : Console → Console}
    (framebuffer : ∀ console serial,
      effect { console with serial := serial } = { effect console with serial := serial }) :
    Unnoticed (kprintfProtocol.Disturbs own i) effect := by
  apply LockProtocol.unnoticed_of_outside
  rintro j other before after ⟨c, rfl⟩
  have same : effect before = { effect before with serial := before.serial } :=
    framebuffer before before.serial
  have serial : (effect before).serial = before.serial := by rw [same]
  refine ⟨c, ?_⟩
  rw [framebuffer, serial]

/-- Nothing that happens without the lock reaches the framebuffer. -/
theorem kprintf_disturbs_framebuffer {before after : Console}
    (moved : kprintfProtocol.Disturbs own i before after) :
    after.framebuffer = before.framebuffer := by
  refine moved.same (fun console => console.framebuffer) ?_
  rintro j other before after ⟨c, rfl⟩
  rfl

theorem kprintf_held (locked : console.printfLock = true) (disturbed : Console)
    (moved : kprintfProtocol.Disturbs own i console disturbed) : disturbed.printfLock = true := by
  refine (moved.same (fun console => console.printfLock) ?_).trans locked
  rintro j other before after ⟨c, rfl⟩
  rfl

theorem framebufferPrint_insensitive {α : Type} {next : Unit → Code Console α} (bytes : List Byte)
    (locked : console.printfLock = true)
    (rest : ∀ after : Console, after.printfLock = true →
      Insensitive (fun console => console.printfLock) (kprintfProtocol.Disturbs own i)
        (next ()) after) :
    Insensitive (fun console => console.printfLock) (kprintfProtocol.Disturbs own i)
      (framebufferPrint bytes >>= next) console := by
  induction bytes generalizing console with
  | nil => exact rest console locked
  | cons c bytes ih =>
      rw [framebufferPrint, Code.bind_assoc]
      refine .write_bind (kprintf_held locked) (unnoticed_of_framebuffer fun _ _ => rfl) ?_
      exact ih locked

theorem kprintfLoop_insensitive {α : Type} {next : Unit → Code Console α} (call : KprintfCall)
    (text : List Byte) (printer : Printer) (locked : console.printfLock = true)
    (rest : ∀ after : Console, after.printfLock = true →
      Insensitive (fun console => console.printfLock) (kprintfProtocol.Disturbs own i)
        (next ()) after) :
    Insensitive (fun console => console.printfLock) (kprintfProtocol.Disturbs own i)
      (kprintfLoop call text printer >>= next) console := by
  induction text generalizing printer console with
  | nil => exact rest console locked
  | cons current text ih =>
      rw [kprintfLoop, Code.bind_assoc]
      exact framebufferPrint_insensitive _ locked fun after held => ih _ held

/-- `kprintf` notices nothing of what goes to the serial port. -/
theorem kprintfCode_insensitive (call : KprintfCall) (locked : console.printfLock = true) :
    Insensitive (fun console => console.printfLock) (kprintfProtocol.Disturbs own i)
      (kprintfCode call) console :=
  kprintfLoop_insensitive call _ _ locked fun _ held =>
    .write_bind (kprintf_held held) (unnoticed_of_framebuffer fun _ _ => rfl) trivial

end Disturbance

/-! ## All interleavings -/

section Interleavings

variable {ι : Type} [DecidableEq ι]

theorem kprintfProtocol_rules :
    kprintfProtocol.Rules fun w : Console × (ι → List KprintfCall) => w.1.printfLock = false where
  step {before after} unlocked step := by
    cases step with
    | @call console own i call free allowed =>
        exact congrArg (fun ended => ended.2.printfLock) (kprintfCode_run call console)
    | outside i acts =>
        obtain ⟨c, rfl⟩ := acts
        exact unlocked
  insensitive _ _ _ := kprintfCode_insensitive _ rfl
  locked_outside acts := by
    obtain ⟨c, rfl⟩ := acts
    rfl

/-- The calls of one processor among those of all. -/
def callsOf (i : ι) (calls : List (ι × KprintfCall)) : List KprintfCall :=
  (calls.filter (·.1 = i)).map Prod.snd

/-- What the calls print, one after the other. -/
def printedBy (calls : List (ι × KprintfCall)) : List Byte :=
  calls.flatMap fun call => call.2.output

theorem callsOf_append_singleton (i j : ι) (calls : List (ι × KprintfCall)) (call : KprintfCall) :
    callsOf j (calls ++ [(i, call)]) =
      if i = j then callsOf j calls ++ [call] else callsOf j calls := by
  split <;> simp [callsOf, *]

/-- After a serial run the framebuffer shows the calls that have returned. -/
theorem kprintf_serial {console : Console} {w : Console × (ι → List KprintfCall)}
    (serial : kprintfProtocol.Serial (console, fun _ => []) w) :
    ∃ calls, w.1.framebuffer = console.framebuffer ++ printedBy calls ∧
      ∀ i, callsOf i calls = (w.2 i).reverse := by
  induction serial with
  | refl => exact ⟨[], by simp [printedBy], fun i => rfl⟩
  | tail _ step ih =>
      obtain ⟨calls, shown, known⟩ := ih
      cases step with
      | @call reached own i call unlocked allowed =>
          have ran : ((kprintfProtocol.code call).run
              (kprintfProtocol.acquire reached)).2.framebuffer =
              reached.framebuffer ++ call.output :=
            congrArg (fun ended => ended.2.framebuffer) (kprintfCode_run call reached)
          have before : reached.framebuffer = console.framebuffer ++ printedBy calls := shown
          refine ⟨calls ++ [(i, call)], ?_, ?_⟩
          · rw [ran, before, List.append_assoc]
            simp [printedBy]
          · intro j
            rw [callsOf_append_singleton, known]
            split
            next self =>
              subst self
              simp only [update_self]
              exact (List.reverse_cons ..).symm
            next other => simp only [update_of_ne (Ne.symm other)]
      | outside i acts =>
          obtain ⟨c, rfl⟩ := acts
          exact ⟨calls, shown, known⟩

/-- The code of `kprintf` only adds to what the framebuffer shows. -/
theorem kprintfCode_each (call : KprintfCall) :
    (kprintfCode call).Each fun effect =>
      ∀ console, console.framebuffer <+: (effect console).framebuffer := by
  have print : ∀ bytes, (framebufferPrint bytes).Each fun effect =>
      ∀ console, console.framebuffer <+: (effect console).framebuffer := by
    intro bytes
    induction bytes with
    | nil => trivial
    | cons c bytes ih => exact ⟨fun console => List.prefix_append _ _, fun _ => ih⟩
  have loop : ∀ text printer, (kprintfLoop call text printer).Each fun effect =>
      ∀ console, console.framebuffer <+: (effect console).framebuffer := by
    intro text
    induction text with
    | nil => exact fun _ => trivial
    | cons current text ih => exact fun printer => (print _).bind fun _ => ih _
  exact (loop _ _).bind fun _ => ⟨fun _ => List.prefix_refl _, fun _ => trivial⟩

variable {console : Console} {m : Processors ι Console KprintfCall Unit (List KprintfCall)}

/-- However the processors interleave, and whatever goes to the serial port meanwhile: the
framebuffer shows the outputs of whole calls of `kprintf`, one behind the other.  The calls of each
processor appear once and in their order.  Only the last call may be incomplete, by an end of its
own output, namely while its processor has the lock. -/
theorem kprintf_interleavings_whole (unlocked : console.printfLock = false)
    (run : kprintfProtocol.Steps (.idle console fun _ => []) m) :
    ∃ calls unprinted,
      m.shared.framebuffer ++ unprinted = console.framebuffer ++ printedBy calls ∧
      (∀ i, ¬ m.Critical i → callsOf i calls = (kprintfProtocol.settled m i).reverse) ∧
      (∀ i call rest, m.activity i = .inside call rest → rest.Running →
        callsOf i calls = (kprintfProtocol.settled m i).reverse ++ [call] ∧
        (∃ earlier, calls = earlier ++ [(i, call)]) ∧ unprinted <:+ call.output) ∧
      ((∀ i, ¬ m.Critical i) → unprinted = []) := by
  have inv : kprintfProtocol.Inv (console, fun _ => []) m :=
    (LockProtocol.Inv.idle console _).steps kprintfProtocol_rules unlocked run
  by_cases quiet : ∀ i, ¬ m.Critical i
  · obtain ⟨calls, shown, known⟩ := kprintf_serial (inv.serial quiet)
    refine ⟨calls, [], by rw [List.append_nil, shown], fun i _ => known i, ?_, fun _ => rfl⟩
    intro i call rest inside running
    exact absurd ⟨call, rest, inside, running⟩ (quiet i)
  · simp only [not_forall, not_not] at quiet
    obtain ⟨i, call, rest, inside, running⟩ := quiet
    have critical : m.Critical i := ⟨call, rest, inside, running⟩
    obtain ⟨entry, entered, -, ended⟩ := inv.entered_critical running inside
    obtain ⟨earlier, shown, known⟩ := kprintf_serial entered.serial
    -- What the call has printed so far, and what it still has to print.
    obtain ⟨printed, before⟩ : entry.framebuffer <+: m.shared.framebuffer :=
      entered.progress.related (fun before after => before.framebuffer <+: after.framebuffer)
        (fun _ _ _ => List.IsPrefix.trans)
        (fun _ _ moved => by rw [kprintf_disturbs_framebuffer moved]) (kprintfCode_each call)
    obtain ⟨unprinted, after⟩ : m.shared.framebuffer <+: (rest.run m.shared).2.framebuffer :=
      (run.each kprintfCode_each inside).run
        (fun before after => before.framebuffer <+: after.framebuffer)
        (fun _ => List.prefix_refl _) (fun _ _ _ => List.IsPrefix.trans) m.shared
    have whole : (rest.run m.shared).2.framebuffer = entry.framebuffer ++ call.output :=
      (kprintf_disturbs_framebuffer ended).trans
        (congrArg (fun ended => ended.2.framebuffer) (kprintfCode_run call entry))
    have parts : printed ++ unprinted = call.output := by
      rw [← before, whole, List.append_assoc] at after
      exact List.append_cancel_left after
    refine ⟨earlier ++ [(i, call)], unprinted, ?_, ?_, ?_, fun none => absurd critical (none i)⟩
    · rw [after, whole, shown, List.append_assoc]
      simp [printedBy]
    · intro j outside
      have other : i ≠ j := fun same => outside (same ▸ critical)
      rw [callsOf_append_singleton, if_neg other, known]
    · intro j pending code activity still
      obtain ⟨rfl, -⟩ := inv.exclusion critical ⟨pending, code, activity, still⟩
      rw [inside] at activity
      cases activity
      refine ⟨?_, ⟨earlier, rfl⟩, ⟨printed, parts⟩⟩
      rw [callsOf_append_singleton, if_pos rfl, known]

end Interleavings

/-- Two processors print: one of them has the lock and the other one waits. -/
theorem kprintf_interleavings_whole_two :
    ∃ m : Processors Bool Console KprintfCall Unit (List KprintfCall),
      m.Critical false ∧ m.activity true = .waiting ⟨fun _ => [], fun _ => 0, [byte 'B']⟩ ∧
      ∃ unprinted, m.shared.framebuffer ++ unprinted = [byte 'A'] ∧
        unprinted <:+ [byte 'A'] := by
  let console : Console := ⟨[], [], false⟩
  let first : KprintfCall := ⟨fun _ => [], fun _ => 0, [byte 'A']⟩
  let second : KprintfCall := ⟨fun _ => [], fun _ => 0, [byte 'B']⟩
  let idle : Processors Bool Console KprintfCall Unit (List KprintfCall) :=
    .idle console fun _ => []
  let both := (idle.setActivity false (.waiting first)).setActivity true (.waiting second)
  have run : kprintfProtocol.Steps idle _ :=
    (Relation.ReflTransGen.single (.call false first rfl trivial)).tail
      (.call true second rfl trivial) |>.tail (@LockProtocol.Step.enter _ _ _ _ _
        kprintfProtocol _ both false first rfl rfl)
  have running : (kprintfProtocol.code first).Running := True.intro
  obtain ⟨calls, unprinted, shown, quiet, critical, -⟩ := kprintf_interleavings_whole rfl run
  obtain ⟨own, ⟨earlier, rfl⟩, rest⟩ := critical false first _ rfl running
  have one : callsOf false (earlier ++ [(false, first)]) = [first] := own
  have none : callsOf true (earlier ++ [(false, first)]) = [] :=
    quiet true (by rintro ⟨_, _, ⟨⟩, -⟩)
  cases earlier with
  | nil => exact ⟨_, ⟨first, _, rfl, running⟩, rfl, unprinted, shown, rest⟩
  | cons event earlier =>
      obtain ⟨i, call⟩ := event
      cases i with
      | false => simp [callsOf] at one
      | true => simp [callsOf] at none

end Lord84
