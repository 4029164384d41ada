import Mathlib.Data.List.TakeWhile
import Lord84.Lib.StdioSinks

/-!
# The format language of `kprintf`

The interpreter of `kprintf` goes through a format character by character.  Here the format
is first split into literal characters and groups between braces, and what it prints is read
off this list.  The two agree, so what a format prints and takes is composed of what its
parts print and take.
-/

namespace Lord84

open Theory

/-- A part of a format. -/
inductive FormatItem where
  | literal (c : Byte)
  | group (body : List Byte) (closed : Bool)
  deriving DecidableEq, Repr

/-- A format split into characters outside braces and groups from an opening brace to the next
closing one, or to the end. -/
def formatItems : List Byte → List FormatItem
  | [] => []
  | c :: text =>
      if c = byte '\x7b' then
        .group (text.takeWhile (· ≠ byte '\x7d')) (byte '\x7d' ∈ text) ::
          formatItems (text.dropWhile (· ≠ byte '\x7d')).tail
      else
        .literal c :: formatItems text
  termination_by text => text.length
  decreasing_by
    · have shorter := (List.dropWhile_suffix (· ≠ byte '\x7d') (l := text)).length_le
      rw [List.length_tail, List.length_cons]
      omega
    · exact Nat.lt_succ_self _

/-- A group has its closing brace. -/
def FormatItem.isClosed : FormatItem → Bool
  | .literal _ => true
  | .group _ closed => closed

/-- Number of arguments that a part takes. -/
def FormatItem.arguments : FormatItem → Nat
  | .literal _ => 0
  | .group body _ => body.countP takesArgument

/-- The arguments behind the first `count`. -/
def remaining (args : Nat → Word) (count : Nat) : Nat → Word :=
  fun k => args (count + k)

/-- What the characters of a group print, one after the other. -/
def groupOutput (strings : Word → List Byte) : List Byte → (Nat → Word) → List Byte
  | [], _ => []
  | c :: body, args =>
      if takesArgument c then
        framebuffer.render strings c (args 0) ++ groupOutput strings body (remaining args 1)
      else if c = byte 'n' then
        byte '\n' :: groupOutput strings body args
      else
        groupOutput strings body args

/-- What the parts of a format print. -/
def formatOutput (strings : Word → List Byte) : List FormatItem → (Nat → Word) → List Byte
  | [], _ => []
  | .literal c :: items, args => c :: formatOutput strings items args
  | .group body closed :: items, args =>
      groupOutput strings body args ++
        formatOutput strings items (remaining args (FormatItem.group body closed).arguments)

/-- Number of arguments that a format takes. -/
def formatArguments (items : List FormatItem) : Nat :=
  (items.map FormatItem.arguments).sum

section Proofs

variable {strings : Word → List Byte} {args : Nat → Word} {printer : Printer}

theorem remaining_zero (args : Nat → Word) : remaining args 0 = args := by
  funext k
  rw [remaining, Nat.zero_add]

theorem remaining_remaining (args : Nat → Word) (first second : Nat) :
    remaining (remaining args first) second = remaining args (first + second) := by
  funext k
  rw [remaining, remaining, remaining, Nat.add_assoc]

/-- The state after the characters of a group. -/
theorem foldl_group (body : List Byte) (opened : byte '\x7d' ∉ body)
    (inside : printer.state = .formatSpecifier) :
    body.foldl (Printer.step framebuffer strings args) printer =
      { state := .formatSpecifier
        taken := printer.taken + body.countP takesArgument
        output := printer.output ++
          groupOutput strings body (remaining args printer.taken) } := by
  induction body generalizing printer with
  | nil =>
      rw [List.foldl_nil, List.countP_nil, groupOutput, List.append_nil, ← inside]
      rfl
  | cons c body ih =>
      rw [List.mem_cons, not_or] at opened
      rw [List.foldl_cons, Printer.step_formatSpecifier framebuffer_plain inside,
        if_neg (Ne.symm opened.1), groupOutput]
      by_cases letter : takesArgument c = true
      · rw [if_pos letter, if_pos letter, @ih (printer.printArg args _) opened.2 inside,
          List.countP_cons_of_pos letter, remaining_remaining]
        simp only [Printer.printArg, remaining, List.append_assoc, Nat.add_zero, Nat.add_assoc,
          Nat.add_comm 1]
      · rw [if_neg letter, if_neg letter, List.countP_cons_of_neg letter]
        split
        · rw [@ih (printer.print _) opened.2 inside]
          simp only [Printer.print, List.append_assoc]
          rfl
        · rw [ih opened.2 inside]

/-- The closing brace of a group, or the end of the format. -/
theorem dropWhile_group (text : List Byte) :
    text.dropWhile (· ≠ byte '\x7d') =
      if byte '\x7d' ∈ text then
        byte '\x7d' :: (text.dropWhile (· ≠ byte '\x7d')).tail
      else [] := by
  induction text with
  | nil => rfl
  | cons c text ih =>
      by_cases closes : c = byte '\x7d'
      · simp [closes]
      · simpa [closes, Ne.symm closes] using ih

theorem closing_notMem_group (text : List Byte) :
    byte '\x7d' ∉ text.takeWhile (· ≠ byte '\x7d') := by
  intro member
  simpa using List.mem_takeWhile_imp member

/-- The state after a format that begins outside braces. -/
theorem foldl_formatItems (text : List Byte) (outside : printer.state = .normal) :
    text.foldl (Printer.step framebuffer strings args) printer =
      { state := if (formatItems text).all FormatItem.isClosed then .normal else .formatSpecifier
        taken := printer.taken + formatArguments (formatItems text)
        output := printer.output ++
          formatOutput strings (formatItems text) (remaining args printer.taken) } := by
  induction text using formatItems.induct generalizing printer with
  | case1 =>
      rw [formatItems, List.foldl_nil, formatOutput, List.append_nil, ← outside]
      rfl
  | case2 text ih =>
      let inner : Printer := { printer with state := .formatSpecifier }
      let body := text.takeWhile (· ≠ byte '\x7d')
      have split : text = body ++ text.dropWhile (· ≠ byte '\x7d') :=
        List.takeWhile_append_dropWhile.symm
      have group := @foldl_group strings args inner body (closing_notMem_group text) rfl
      rw [List.foldl_cons, Printer.step_normal outside, if_pos rfl]
      conv_lhs => rw [split]
      rw [List.foldl_append, group, dropWhile_group, formatItems, if_pos rfl]
      by_cases closes : byte '\x7d' ∈ text
      · rw [if_pos closes, List.foldl_cons, Printer.step_formatSpecifier framebuffer_plain rfl,
          if_pos rfl, @ih ⟨.normal, _, _⟩ rfl]
        simp only [formatOutput, formatArguments, FormatItem.arguments, FormatItem.isClosed, closes,
          decide_true, List.all_cons, Bool.true_and, List.map_cons, List.sum_cons,
          remaining_remaining, List.append_assoc, Nat.add_assoc]
        rfl
      · have rest : text.dropWhile (· ≠ byte '\x7d') = [] := by
          rw [dropWhile_group, if_neg closes]
        rw [if_neg closes, List.foldl_nil, rest, List.tail_nil, formatItems]
        simp only [formatOutput, formatArguments, FormatItem.arguments, FormatItem.isClosed, closes,
          decide_false, List.all_cons, Bool.false_and, List.map_cons, List.sum_cons, List.map_nil,
          List.sum_nil, Nat.add_zero, List.append_nil]
        rfl
  | case3 c text other ih =>
      rw [List.foldl_cons, Printer.step_normal outside, if_neg other,
        @ih (printer.print _) outside, formatItems, if_neg other]
      simp only [Printer.print, formatOutput, List.append_assoc, formatArguments, List.map_cons,
        List.sum_cons, List.all_cons, FormatItem.isClosed, Bool.true_and, FormatItem.arguments,
        Nat.zero_add]
      rfl

end Proofs

/-! ## Format strings -/

/-- The characters of a string, without its terminator. -/
structure FormatString where
  chars : List Byte
  terminated : 0 ∉ chars

/-- One string behind another. -/
def FormatString.append (first second : FormatString) : FormatString where
  chars := first.chars ++ second.chars
  terminated := by
    rw [List.mem_append, not_or]
    exact ⟨first.terminated, second.terminated⟩

instance : Append FormatString := ⟨FormatString.append⟩

theorem FormatString.chars_append (first second : FormatString) :
    (first ++ second).chars = first.chars ++ second.chars := rfl

/-- Every group of a format has its closing brace. -/
def FormatString.GroupsClosed (format : FormatString) : Prop :=
  ∀ item ∈ formatItems format.chars, item.isClosed = true

instance (format : FormatString) : Decidable format.GroupsClosed :=
  inferInstanceAs (Decidable (∀ item ∈ formatItems format.chars, item.isClosed = true))

section Composition

variable {strings : Word → List Byte} {args : Nat → Word}

/-- `kprintf` is the loop over the characters of the string. -/
theorem kprintf_eq_foldl (format : FormatString) :
    kprintf strings args format.chars false =
      .done (format.chars.foldl (Printer.step framebuffer strings args) .start, false) := by
  have whole : format.chars.takeWhile (· ≠ 0) = format.chars := by
    rw [List.takeWhile_eq_self_iff]
    intro c member
    exact decide_eq_true fun zero => format.terminated (zero ▸ member)
  simp only [kprintf, interpret, acquireLock_false, Outcome.done_bind, freeLock_eq,
    Outcome.pure_eq_done, take_strlen, whole]

/-- What the loop leaves at the end of a format. -/
theorem foldl_start (text : List Byte) :
    text.foldl (Printer.step framebuffer strings args) .start =
      { state := if (formatItems text).all FormatItem.isClosed then .normal else .formatSpecifier
        taken := formatArguments (formatItems text)
        output := formatOutput strings (formatItems text) args } := by
  rw [foldl_formatItems text rfl, show Printer.start.taken = 0 from rfl, remaining_zero,
    Nat.zero_add]
  rfl

/-- A loop from the first argument of a list is a loop with the list that remains. -/
theorem foldl_remaining (text : List Byte) {printer : Printer} (outside : printer.state = .normal) :
    text.foldl (Printer.step framebuffer strings args) printer =
      let alone := text.foldl
        (Printer.step framebuffer strings (remaining args printer.taken)) .start
      { alone with
        taken := printer.taken + alone.taken
        output := printer.output ++ alone.output } := by
  rw [foldl_formatItems text outside, foldl_start]

end Composition

/-- `kprintf` prints what the parts of its format print and takes the arguments that they take.
So a format with another one behind its closed groups prints as the two do one after the
other. -/
theorem kprintf_format_language (strings : Word → List Byte) (args : Nat → Word) :
    (∀ format : FormatString, ∃ printer, kprintf strings args format.chars false =
      .done (printer, false) ∧
        printer.output = formatOutput strings (formatItems format.chars) args ∧
        printer.taken = formatArguments (formatItems format.chars)) ∧
    ∀ first second : FormatString, first.GroupsClosed →
      ∃ before after whole, kprintf strings args first.chars false = .done (before, false) ∧
        kprintf strings (remaining args before.taken) second.chars false = .done (after, false) ∧
        kprintf strings args (first ++ second).chars false = .done (whole, false) ∧
        whole.output = before.output ++ after.output ∧
        whole.taken = before.taken + after.taken := by
  constructor
  · intro format
    refine ⟨_, kprintf_eq_foldl format, ?_⟩
    rw [foldl_start]
    exact ⟨rfl, rfl⟩
  · intro first second closed
    refine ⟨_, _, _, kprintf_eq_foldl first, kprintf_eq_foldl second,
      kprintf_eq_foldl (first ++ second), ?_⟩
    have outside : (first.chars.foldl (Printer.step framebuffer strings args) .start).state =
        .normal := by
      rw [foldl_start]
      exact if_pos (List.all_eq_true.mpr closed)
    rw [FormatString.chars_append, List.foldl_append, foldl_remaining second.chars outside]
    exact ⟨rfl, rfl⟩

/-- `"{xn}a"`, and a number behind it. -/
theorem kprintf_two_numbers :
    ∃ before after whole : Printer,
      kprintf (fun _ => []) (fun k => BitVec.ofNat 64 (k + 10))
        [byte '\x7b', byte 'x', byte 'n', byte '\x7d', byte 'a'] false = .done (before, false) ∧
      kprintf (fun _ => []) (remaining (fun k => BitVec.ofNat 64 (k + 10)) before.taken)
        [byte '\x7b', byte 'd', byte '\x7d'] false = .done (after, false) ∧
      kprintf (fun _ => []) (fun k => BitVec.ofNat 64 (k + 10))
        [byte '\x7b', byte 'x', byte 'n', byte '\x7d', byte 'a',
          byte '\x7b', byte 'd', byte '\x7d'] false = .done (whole, false) ∧
      before.output = [byte 'A', byte '\n', byte 'a'] ∧ after.output = [byte '1', byte '1'] ∧
      whole.output = before.output ++ after.output := by
  obtain ⟨before, after, whole, first, second, both, output, -⟩ :=
    (kprintf_format_language (fun _ => []) fun k => BitVec.ofNat 64 (k + 10)).2
      ⟨[byte '\x7b', byte 'x', byte 'n', byte '\x7d', byte 'a'], by decide⟩
      ⟨[byte '\x7b', byte 'd', byte '\x7d'], by decide⟩ (by
        simp [FormatString.GroupsClosed, formatItems, FormatItem.isClosed, byte])
  have letter : kprintf (fun _ => []) (fun k => BitVec.ofNat 64 (k + 10))
      [byte '\x7b', byte 'x', byte 'n', byte '\x7d', byte 'a'] false =
      .done (⟨.normal, 1, [byte 'A', byte '\n', byte 'a']⟩, false) := by
    decide +kernel
  cases first.symm.trans letter
  have number : kprintf (fun _ => []) (remaining (fun k => BitVec.ofNat 64 (k + 10)) 1)
      [byte '\x7b', byte 'd', byte '\x7d'] false =
      .done (⟨.normal, 1, [byte '1', byte '1']⟩, false) := by
    decide +kernel
  cases second.symm.trans number
  exact ⟨_, _, whole, letter, number, both, rfl, rfl, output⟩

end Lord84
