import Lord84.Lib.Stdio

/-!
# The two printing paths

`kprintf` and `serial_kprintf` differ only in the functions that print numbers: of these,
`print_int` and `print_hex` print a digit for zero and the others print nothing.  So the two
paths agree, and print every number, exactly when no number printed is zero.
-/

namespace Lord84

open Theory

/-! ## Reading a format -/

/-- The specifiers that take an argument. -/
def takesArgument (c : Byte) : Bool :=
  c ∈ [byte 'k', byte 'd', byte 'i', byte 's', byte 'c', byte 'x', byte 'b']

/-- The specifiers that print a number. -/
def isNumeric (c : Byte) : Bool :=
  c ∈ [byte 'd', byte 'i', byte 'x', byte 'b']

/-- The characters of a format that take an argument, in their order; `inside` says that the
text begins between braces. -/
def specifiers : (inside : Bool) → List Byte → List Byte
  | _, [] => []
  | false, c :: format => specifiers (c = byte '\x7b') format
  | true, c :: format =>
      if c = byte '\x7d' then specifiers false format
      else if takesArgument c then c :: specifiers true format
      else specifiers true format

theorem specifiers_nil (inside : Bool) : specifiers inside [] = [] := by
  cases inside <;> rfl

theorem specifiers_singleton (inside : Bool) (c : Byte) :
    specifiers inside [c] = if inside ∧ takesArgument c then [c] else [] := by
  cases inside with
  | false => simp [specifiers]
  | true =>
      rw [specifiers]
      split
      next closes =>
        have none : takesArgument (byte '\x7d') = false := by decide
        simp [closes, none, specifiers_nil]
      next => simp [specifiers_nil]

/-- No argument that is printed as a number is zero. -/
def NoZeroNumber (args : Nat → Word) (format : List Byte) : Prop :=
  ∀ k c, (specifiers false (format.takeWhile (· ≠ 0)))[k]? = some c → isNumeric c = true →
    args k ≠ 0

/-- Both paths print the same bytes and take the same arguments, and each prints at least one
digit for every specifier of a number. -/
structure PrintsAgree (strings : Word → List Byte) (args : Nat → Word) (format : List Byte) :
    Prop where
  same : kprintf strings args format false = .done (serialKprintf strings args format, false)
  digits : ∀ sink ∈ [framebuffer, serial], ∀ before current after,
    format.takeWhile (· ≠ 0) = before ++ current :: after →
    let printer := before.foldl (Printer.step sink strings args) .start
    printer.state = .formatSpecifier → isNumeric current = true →
    ∃ printed, (printer.step sink strings args current).output = printer.output ++ printed ∧
      ∃ digit ∈ printed, isDigit digit = true

/-! ## One character -/

section Step

variable {sink : Sink} {strings : Word → List Byte} {args : Nat → Word} {printer : Printer}

/-- The inner `switch` of the case `'l'` never finds its character. -/
def Sink.Plain (sink : Sink) : Prop :=
  sink.long (byte 'l' + 1) = false

theorem framebuffer_plain : framebuffer.Plain := rfl

theorem serial_plain : serial.Plain := rfl

/-- What is printed of the argument of a specifier. -/
def Sink.render (sink : Sink) (strings : Word → List Byte) (c : Byte) : Word → List Byte :=
  if c = byte 'k' ∨ c = byte 's' then fun arg => sink.printStr (strings arg)
  else if c = byte 'c' then fun arg => sink.printChar (arg.setWidth 8)
  else if c = byte 'x' then sink.printHex
  else if c = byte 'b' then sink.printBin
  else sink.printInt

/-- The interpreter is between braces. -/
def Printer.inside (printer : Printer) : Bool :=
  printer.state = .formatSpecifier

theorem Printer.step_normal (outside : printer.state = .normal) (c : Byte) :
    printer.step sink strings args c =
      if c = byte '\x7b' then { printer with state := .formatSpecifier }
      else printer.print (sink.printChar c) := by
  rw [Printer.step, outside]

/-- What a character between braces does. -/
theorem Printer.step_formatSpecifier (plain : sink.Plain)
    (specifier : printer.state = .formatSpecifier) (c : Byte) :
    printer.step sink strings args c =
      if c = byte '\x7d' then { printer with state := .normal }
      else if takesArgument c then printer.printArg args (sink.render strings c)
      else if c = byte 'n' then printer.print (sink.printStr [byte '\n'])
      else printer := by
  by_cases known : c ∈ [byte 'n', byte 'k', byte 'd', byte 'i', byte 's', byte 'c', byte 'x',
      byte 'b', byte 'l', byte '\x7d']
  · have inner : sink.long 109#8 = false := plain
    simp only [List.mem_cons, List.not_mem_nil, or_false] at known
    rcases known with rfl | rfl | rfl | rfl | rfl | rfl | rfl | rfl | rfl | rfl
    all_goals simp [Printer.step, specifier, Sink.render, takesArgument, inner, byte]
  · simp only [List.mem_cons, List.not_mem_nil, or_false, not_or] at known
    simp [Printer.step, specifier, takesArgument, known]

/-- A specifier takes the next argument. -/
theorem Printer.step_taken (plain : sink.Plain) (c : Byte) :
    (printer.step sink strings args c).taken =
      printer.taken + (specifiers printer.inside [c]).length := by
  cases state : printer.state with
  | normal =>
      rw [Printer.step_normal state]
      split <;> simp [Printer.inside, state, specifiers, Printer.print]
  | formatSpecifier =>
      rw [Printer.step_formatSpecifier plain state]
      simp only [Printer.inside, state, specifiers, decide_true]
      split
      next => rfl
      next =>
        split
        next => rfl
        next =>
          split
          next => rfl
          next => rfl

/-- Reading on behind a character. -/
theorem specifiers_step (plain : sink.Plain) (c : Byte) (format : List Byte) :
    specifiers printer.inside (c :: format) =
      specifiers printer.inside [c] ++
        specifiers (printer.step sink strings args c).inside format := by
  cases state : printer.state with
  | normal =>
      rw [Printer.step_normal state]
      split
      next opens => simp [Printer.inside, state, specifiers, opens]
      next other => simp [Printer.inside, state, specifiers, other, Printer.print]
  | formatSpecifier =>
      rw [Printer.step_formatSpecifier plain state]
      simp only [Printer.inside, state, specifiers, decide_true]
      split
      next => rfl
      next =>
        split
        next => simp [Printer.printArg, state]
        next =>
          split
          next => simp [Printer.print, state]
          next => simp [state]

/-- The loop over a part of the format takes one argument for each of its specifiers, and
the rest of the format is read from where it ends. -/
theorem Printer.foldl_taken (plain : sink.Plain) (before : List Byte) (printer : Printer) :
    (before.foldl (Printer.step sink strings args) printer).taken =
      printer.taken + (specifiers printer.inside before).length := by
  induction before generalizing printer with
  | nil => rw [specifiers_nil, List.foldl_nil, List.length_nil, Nat.add_zero]
  | cons c before ih =>
      rw [List.foldl_cons, ih, Printer.step_taken plain,
        @specifiers_step sink strings args printer plain c before, List.length_append,
        Nat.add_assoc]

theorem specifiers_append (plain : sink.Plain) (before after : List Byte) (printer : Printer) :
    specifiers printer.inside (before ++ after) =
      specifiers printer.inside before ++
        specifiers (before.foldl (Printer.step sink strings args) printer).inside after := by
  induction before generalizing printer with
  | nil => rw [specifiers_nil, List.nil_append, List.nil_append, List.foldl_nil]
  | cons c before ih =>
      rw [List.cons_append, List.foldl_cons,
        @specifiers_step sink strings args printer plain c (before ++ after), ih,
        @specifiers_step sink strings args printer plain c before, List.append_assoc]

/-- Every specifier of a format stands somewhere between braces. -/
theorem exists_split_of_specifiers (plain : sink.Plain) {format : List Byte} {printer : Printer}
    {k : Nat} {c : Byte} (member : (specifiers printer.inside format)[k]? = some c) :
    ∃ before after, format = before ++ c :: after ∧
      (before.foldl (Printer.step sink strings args) printer).state = .formatSpecifier ∧
      (before.foldl (Printer.step sink strings args) printer).taken = printer.taken + k := by
  induction format generalizing printer k with
  | nil =>
      rw [specifiers_nil] at member
      cases member
  | cons first format ih =>
      rw [@specifiers_step sink strings args printer plain first format, specifiers_singleton]
        at member
      have taken := @Printer.step_taken sink strings args printer plain first
      rw [specifiers_singleton] at taken
      split at member
      next here =>
        rw [if_pos here, List.length_singleton] at taken
        cases k with
        | zero =>
            cases member
            exact ⟨[], format, rfl, of_decide_eq_true here.1, rfl⟩
        | succ k =>
            obtain ⟨before, after, split, state, count⟩ := ih member
            refine ⟨first :: before, after, by rw [split, List.cons_append], state, ?_⟩
            rw [List.foldl_cons, count, taken]
            omega
      next elsewhere =>
        rw [if_neg elsewhere, List.length_nil, Nat.add_zero] at taken
        rw [List.nil_append] at member
        obtain ⟨before, after, split, state, count⟩ := ih member
        refine ⟨first :: before, after, by rw [split, List.cons_append], state, ?_⟩
        rw [List.foldl_cons, count, taken]

end Step

/-! ## Numbers -/

theorem isNumeric_iff {c : Byte} :
    isNumeric c = true ↔ c = byte 'd' ∨ c = byte 'i' ∨ c = byte 'x' ∨ c = byte 'b' := by
  simp [isNumeric]

theorem takesArgument_of_isNumeric {c : Byte} (numeric : isNumeric c = true) :
    takesArgument c = true := by
  rw [isNumeric_iff] at numeric
  rcases numeric with rfl | rfl | rfl | rfl
  all_goals decide

/-- A specifier of a number prints the next argument. -/
theorem Printer.step_numeric {sink : Sink} {strings : Word → List Byte} {args : Nat → Word}
    {printer : Printer} (plain : sink.Plain) (specifier : printer.state = .formatSpecifier)
    {c : Byte} (numeric : isNumeric c = true) :
    printer.step sink strings args c = printer.printArg args (sink.render strings c) := by
  have notClosing : c ≠ byte '\x7d' := by
    rintro rfl
    exact absurd numeric (by decide)
  rw [Printer.step_formatSpecifier plain specifier, if_neg notClosing,
    if_pos (takesArgument_of_isNumeric numeric)]

/-- The base in which a specifier prints numbers. -/
def specifierBase (c : Byte) : Word :=
  if c = byte 'x' then 16 else if c = byte 'b' then 2 else 10

theorem specifierBase_bounds (c : Byte) :
    1 < (specifierBase c).toNat ∧ (specifierBase c).toNat ≤ 16 := by
  rw [specifierBase]
  split
  next => decide
  next => split <;> decide

theorem serial_render {strings : Word → List Byte} {c : Byte} (numeric : isNumeric c = true)
    (num : Word) : serial.render strings c num = numeral (specifierBase c) num := by
  have bounds := specifierBase_bounds c
  rw [← printDigits_zeroBuffer bounds.1 bounds.2]
  rw [isNumeric_iff] at numeric
  rcases numeric with rfl | rfl | rfl | rfl
  all_goals rfl

theorem printStr_eq_serialPrint (str : List Byte) : printStr str = serialPrint str :=
  take_strlen str

theorem numberBuffer_of_ne_zero {num : Word} (nonzero : num ≠ 0) :
    numberBuffer num = zeroBuffer :=
  if_neg nonzero

/-- On numbers other than zero, the functions of the two paths print the same. -/
theorem render_eq {strings : Word → List Byte} {c : Byte} {num : Word}
    (takes : takesArgument c = true) (nonzero : isNumeric c = true → num ≠ 0) :
    framebuffer.render strings c num = serial.render strings c num := by
  have int (numeric : isNumeric c = true) : printInt num = serialPrintInt num := by
    rw [printInt, numberBuffer_of_ne_zero (nonzero numeric), serialPrintInt]
  have hex (numeric : isNumeric c = true) : printHex num = serialPrintHex num := by
    rw [printHex, numberBuffer_of_ne_zero (nonzero numeric), serialPrintHex]
  simp only [takesArgument, List.mem_cons, List.not_mem_nil, or_false, decide_eq_true_eq] at takes
  rcases takes with rfl | rfl | rfl | rfl | rfl | rfl | rfl
  · exact printStr_eq_serialPrint (strings num)
  · exact int (by decide)
  · exact int (by decide)
  · exact printStr_eq_serialPrint (strings num)
  · rfl
  · exact hex (by decide)
  · rfl

section Loop

variable {strings : Word → List Byte} {args : Nat → Word}

/-- A character does the same on both paths, unless it prints the number zero. -/
theorem Printer.step_eq {printer : Printer} {c : Byte}
    (nonzero : printer.state = .formatSpecifier → isNumeric c = true → args printer.taken ≠ 0) :
    printer.step framebuffer strings args c = printer.step serial strings args c := by
  cases state : printer.state with
  | normal =>
      rw [Printer.step_normal state, Printer.step_normal state]
      rfl
  | formatSpecifier =>
      rw [Printer.step_formatSpecifier framebuffer_plain state,
        Printer.step_formatSpecifier serial_plain state]
      by_cases takes : takesArgument c = true
      · have same : printer.printArg args (framebuffer.render strings c) =
            printer.printArg args (serial.render strings c) := by
          rw [Printer.printArg, render_eq takes (nonzero state), Printer.printArg]
        rw [same]
        rfl
      · simp only [takes]
        rfl

/-- Both paths agree on a format without zero numbers. -/
theorem foldl_eq {format : List Byte} {printer : Printer}
    (nonzero : ∀ k c, (specifiers printer.inside format)[k]? = some c → isNumeric c = true →
      args (printer.taken + k) ≠ 0) :
    format.foldl (Printer.step framebuffer strings args) printer =
      format.foldl (Printer.step serial strings args) printer := by
  induction format generalizing printer with
  | nil => rfl
  | cons c format ih =>
      have first : printer.step framebuffer strings args c =
          printer.step serial strings args c := by
        apply Printer.step_eq
        intro state numeric
        have here : printer.inside = true := decide_eq_true state
        apply nonzero 0 c _ numeric
        rw [@specifiers_step serial strings args printer serial_plain c format,
          specifiers_singleton, if_pos ⟨here, takesArgument_of_isNumeric numeric⟩]
        rfl
      rw [List.foldl_cons, List.foldl_cons, first]
      apply ih
      intro k other member numeric
      rw [Printer.step_taken serial_plain, Nat.add_assoc]
      apply nonzero _ other _ numeric
      rw [@specifiers_step serial strings args printer serial_plain c format,
        List.getElem?_append_right (Nat.le_add_right _ _), Nat.add_sub_cancel_left]
      exact member

end Loop

/-- A number other than zero is printed with at least one digit on both paths. -/
theorem exists_digit_of_ne_zero {sink : Sink} (member : sink ∈ [framebuffer, serial])
    {strings : Word → List Byte} {c : Byte} {num : Word} (numeric : isNumeric c = true)
    (nonzero : num ≠ 0) : ∃ digit ∈ sink.render strings c num, isDigit digit = true := by
  have same : sink.render strings c num = numeral (specifierBase c) num := by
    rcases List.mem_cons.mp member with rfl | later
    · rw [render_eq (takesArgument_of_isNumeric numeric) (fun _ => nonzero), serial_render numeric]
    · rw [List.mem_singleton.mp later, serial_render numeric]
  have bounds := specifierBase_bounds c
  obtain ⟨digit, printed⟩ := List.exists_mem_of_ne_nil _ (mt numeral_eq_nil_iff.mp nonzero)
  rw [same]
  exact ⟨digit, printed, isDigit_of_mem_numeral bounds.1 bounds.2 printed⟩

theorem plain_of_mem {sink : Sink} (member : sink ∈ [framebuffer, serial]) : sink.Plain := by
  rcases List.mem_cons.mp member with rfl | later
  · exact framebuffer_plain
  · rw [List.mem_singleton.mp later]
    exact serial_plain

/-- Framebuffer and serial port show the same, and show every number, exactly when no number
printed is zero. -/
theorem prints_agree_iff (strings : Word → List Byte) (args : Nat → Word) (format : List Byte) :
    PrintsAgree strings args format ↔ NoZeroNumber args format := by
  constructor
  · intro agree k c member numeric zero
    obtain ⟨before, after, split, state, taken⟩ :=
      @exists_split_of_specifiers serial strings args serial_plain _ .start k c member
    obtain ⟨printed, output, digit, isPrinted, -⟩ := agree.digits serial (by simp) before c after
      split state numeric
    rw [Printer.step_numeric serial_plain state numeric, Printer.printArg, taken,
      show Printer.start.taken + k = k from Nat.zero_add k, zero, serial_render numeric,
      numeral_eq_nil_iff.mpr rfl] at output
    rw [← List.append_cancel_left output] at isPrinted
    exact absurd isPrinted List.not_mem_nil
  · intro nonzero
    constructor
    · have same := @foldl_eq strings args (format.takeWhile (· ≠ 0)) .start (by
        intro k c member numeric
        rw [show Printer.start.taken + k = k from Nat.zero_add k]
        exact nonzero k c member numeric)
      simp only [kprintf, interpret, serialKprintf, acquireLock_false, Outcome.done_bind,
        freeLock_eq, Outcome.pure_eq_done, take_strlen, same]
    · intro sink isSink before current after split printer state numeric
      have plain := plain_of_mem isSink
      have taken : printer.taken = (specifiers false before).length :=
        (Printer.foldl_taken plain before .start).trans (Nat.zero_add _)
      have number : args printer.taken ≠ 0 := by
        apply nonzero _ current _ numeric
        have read : specifiers false (before ++ current :: after) =
            specifiers false before ++ specifiers printer.inside (current :: after) :=
          specifiers_append plain before (current :: after) .start
        have here : printer.inside = true := decide_eq_true state
        rw [split, read, List.getElem?_append_right (by rw [taken]), taken, Nat.sub_self,
          @specifiers_step sink strings args printer plain current after, specifiers_singleton,
          if_pos ⟨here, takesArgument_of_isNumeric numeric⟩]
        rfl
      refine ⟨sink.render strings current (args printer.taken), ?_,
        exists_digit_of_ne_zero isSink numeric number⟩
      rw [Printer.step_numeric plain state numeric]
      rfl

/-- A zero is printed to the framebuffer and not to the serial port. -/
theorem zero_lost_on_serial :
    (∃ printer, kprintf (fun _ => []) (fun _ => 0) [byte '\x7b', byte 'd', byte '\x7d'] false =
        .done (printer, false) ∧ printer.output = [byte '0']) ∧
      (serialKprintf (fun _ => []) (fun _ => 0) [byte '\x7b', byte 'd', byte '\x7d']).output = [] ∧
      ¬ PrintsAgree (fun _ => []) (fun _ => 0) [byte '\x7b', byte 'd', byte '\x7d'] := by
  have shown : kprintf (fun _ => []) (fun _ => 0) [byte '\x7b', byte 'd', byte '\x7d'] false =
      .done (⟨.normal, 1, [byte '0']⟩, false) := by
    decide
  have lost : serialKprintf (fun _ => []) (fun _ => 0) [byte '\x7b', byte 'd', byte '\x7d'] =
      ⟨.normal, 1, []⟩ := by
    decide
  refine ⟨⟨_, shown, rfl⟩, congrArg Printer.output lost, ?_⟩
  intro agree
  have same := agree.same
  rw [shown, lost] at same
  exact absurd same (by decide)

end Lord84
