import Lord84.Lib.Support
import Mathlib.Data.Nat.Digits.Lemmas

/-!
# Formatted printing

A model of `src/lib/stdio.c`.  `kprintf` prints to the framebuffer and `serial_kprintf` to
the serial port.  Both interpret the same format language, each with its own copy of the
interpreter and of the functions that print numbers.  What a function prints is the list of
bytes that reach its sink.  Arguments are the 64-bit slots that `va_arg` reads one after the
other; a pointer argument leads to the bytes at that address.
-/

namespace Lord84

open Theory

/-- A character constant of the source. -/
def byte (c : Char) : Byte :=
  BitVec.ofNat 8 c.toNat

/-! ## Strings and digits -/

/-- `strlen` -/
def strlen (str : List Byte) : Nat :=
  (str.takeWhile (· ≠ 0)).length

/-- `dtoc` -/
def dtoc (digit : Int) : Byte :=
  if digit > 15 then 0
  else if digit = 0 then byte '0'
  else if digit < 10 then byte '0' + BitVec.ofInt 8 digit
  else byte 'A' + BitVec.ofInt 8 digit - 10

/-- `MAX_INTERGER_SIZE` -/
def maxIntergerSize : Nat := 128

/-- The digit loop of the functions that print numbers.  `arr` are the digits stored so far
and `room` is `MAX_INTERGER_SIZE - j`; without room the function returns. -/
def digitLoop (base : Word) : (room : Nat) → (num : Word) → (arr : List Byte) → Option (List Byte)
  | 0, _, _ => none
  | room + 1, num, arr =>
      if num ≠ 0 then digitLoop base room (num / base) (arr ++ [dtoc (num % base).toNat])
      else some arr

/-- `char buffer[MAX_INTERGER_SIZE] = {0}` -/
def zeroBuffer : List Byte :=
  List.replicate maxIntergerSize 0

/-- The digit loop and what follows it: the digits are reversed into `buffer`, and the string
in it is printed. -/
def printDigits (base num : Word) (buffer : List Byte) : List Byte :=
  match digitLoop base maxIntergerSize num [] with
  | none => []
  | some arr =>
      let buffer := arr.reverse ++ buffer.drop arr.length
      buffer.take (strlen buffer)

/-- The buffer of `print_int` and `print_hex` before the digit loop. -/
def numberBuffer (num : Word) : List Byte :=
  if num = 0 then zeroBuffer.set 0 (byte '0') else zeroBuffer

/-- `print_int` -/
def printInt (num : Word) : List Byte :=
  printDigits 10 num (numberBuffer num)

/-- `print_hex` -/
def printHex (num : Word) : List Byte :=
  printDigits 16 num (numberBuffer num)

/-- `print_bin` -/
def printBin (num : Word) : List Byte :=
  printDigits 2 num zeroBuffer

/-- `serial_print_int` -/
def serialPrintInt (num : Word) : List Byte :=
  printDigits 10 num zeroBuffer

/-- `serial_print_hex` -/
def serialPrintHex (num : Word) : List Byte :=
  printDigits 16 num zeroBuffer

/-- `serial_print_bin` -/
def serialPrintBin (num : Word) : List Byte :=
  printDigits 2 num zeroBuffer

/-- `print_char` -/
def printChar (c : Byte) : List Byte := [c]

/-- `serial_print_char` -/
def serialPrintChar (c : Byte) : List Byte := [c]

/-- `print_str` -/
def printStr (str : List Byte) : List Byte :=
  str.take (strlen str)

/-- `serial_print`: a loop up to the terminator. -/
def serialPrint (str : List Byte) : List Byte :=
  str.takeWhile (· ≠ 0)

/-! ## The format interpreters -/

/-- `NORMAL` and `FORMAT_SPECIFIER` -/
inductive FormatState where
  | normal
  | formatSpecifier
  deriving DecidableEq, Repr

/-- Where the two interpreters differ: the functions that print, and the characters for
which the inner `switch` of the case `'l'` has a branch. -/
structure Sink where
  printChar : Byte → List Byte
  printStr : List Byte → List Byte
  printInt : Word → List Byte
  printHex : Word → List Byte
  printBin : Word → List Byte
  long : Byte → Bool

/-- The functions that `kprintf` calls. -/
def framebuffer : Sink where
  printChar := Lord84.printChar
  printStr := Lord84.printStr
  printInt := Lord84.printInt
  printHex := Lord84.printHex
  printBin := Lord84.printBin
  long c := c == byte 'd'

/-- The functions that `serial_kprintf` calls. -/
def serial : Sink where
  printChar := serialPrintChar
  printStr := serialPrint
  printInt := serialPrintInt
  printHex := serialPrintHex
  printBin := serialPrintBin
  long c := c == byte 'd' || c == byte 'i'

/-- Locals of an interpreter: its state and the number of arguments taken, with what was
printed so far. -/
structure Printer where
  state : FormatState
  taken : Nat
  output : List Byte
  deriving DecidableEq, Repr

/-- The locals before the loop. -/
def Printer.start : Printer where
  state := .normal
  taken := 0
  output := []

section Interpreter

variable (sink : Sink) (strings : Word → List Byte) (args : Nat → Word)

def Printer.print (printer : Printer) (bytes : List Byte) : Printer :=
  { printer with output := printer.output ++ bytes }

/-- Print the next argument, which `va_arg` takes from the list. -/
def Printer.printArg (printer : Printer) (render : Word → List Byte) : Printer :=
  { printer with
    taken := printer.taken + 1
    output := printer.output ++ render (args printer.taken) }

/-- An iteration of the loop of `kprintf` or `serial_kprintf`.  The character behind `'l'` is
not fetched from the string: `current++` turns `'l'` into `'m'`. -/
def Printer.step (printer : Printer) (current : Byte) : Printer :=
  match printer.state with
  | .normal =>
      if current = byte '\x7b' then { printer with state := .formatSpecifier }
      else printer.print (sink.printChar current)
  | .formatSpecifier =>
      if current = byte 'n' then printer.print (sink.printStr [byte '\n'])
      else if current = byte 'k' then printer.printArg args fun arg => sink.printStr (strings arg)
      else if current = byte 'd' ∨ current = byte 'i' then printer.printArg args sink.printInt
      else if current = byte 's' then printer.printArg args fun arg => sink.printStr (strings arg)
      else if current = byte 'c' then
        printer.printArg args fun arg => sink.printChar (arg.setWidth 8)
      else if current = byte 'x' then printer.printArg args sink.printHex
      else if current = byte 'b' then printer.printArg args sink.printBin
      else if current = byte 'l' then
        if sink.long (current + 1) then printer.printArg args sink.printInt else printer
      else if current = byte '\x7d' then { printer with state := .normal }
      else printer

/-- The loop of an interpreter. -/
def interpret (format : List Byte) : Printer :=
  (format.take (strlen format)).foldl (Printer.step sink strings args) .start

/-- `kprintf` -/
def kprintf (format : List Byte) (printfLock : Bool) : Outcome (Printer × Bool) := do
  let printfLock ← acquireLock printfLock
  let printer := interpret framebuffer strings args format
  return (printer, freeLock printfLock)

/-- `serial_kprintf` -/
def serialKprintf (format : List Byte) : Printer :=
  interpret serial strings args format

end Interpreter

section Output

variable {sink : Sink} {strings : Word → List Byte} {args : Nat → Word}

/-- The locals without what was printed so far. -/
def Printer.cleared (printer : Printer) : Printer :=
  { printer with output := [] }

/-- The same with something printed before. -/
def Printer.prepend (printer : Printer) (before : List Byte) : Printer :=
  { printer with output := before ++ printer.output }

theorem Printer.prepend_cleared (printer : Printer) :
    printer.cleared.prepend printer.output = printer := by
  simp only [Printer.prepend, Printer.cleared, List.append_nil]

theorem Printer.prepend_print (printer : Printer) (before bytes : List Byte) :
    (printer.print bytes).prepend before = (printer.prepend before).print bytes := by
  simp only [Printer.print, Printer.prepend, List.append_assoc]

theorem Printer.prepend_printArg (printer : Printer) (before : List Byte)
    (render : Word → List Byte) :
    (printer.printArg args render).prepend before =
      (printer.prepend before).printArg args render := by
  simp only [Printer.printArg, Printer.prepend, List.append_assoc]

/-- What a character prints does not depend on what was printed before. -/
theorem Printer.prepend_step (printer : Printer) (before : List Byte) (c : Byte) :
    (printer.step sink strings args c).prepend before =
      (printer.prepend before).step sink strings args c := by
  have state : (printer.prepend before).state = printer.state := rfl
  rw [Printer.step, Printer.step, state]
  cases printer.state with
  | normal =>
      simp only [apply_ite (Printer.prepend · before), Printer.prepend_print]
      rfl
  | formatSpecifier =>
      simp only [apply_ite (Printer.prepend · before), Printer.prepend_print,
        Printer.prepend_printArg]
      rfl

theorem Printer.prepend_foldl (text : List Byte) (printer : Printer) (before : List Byte) :
    (text.foldl (Printer.step sink strings args) printer).prepend before =
      text.foldl (Printer.step sink strings args) (printer.prepend before) := by
  induction text generalizing printer with
  | nil => rfl
  | cons c text ih => rw [List.foldl_cons, List.foldl_cons, ih, Printer.prepend_step]

/-- A loop prints behind what was printed before. -/
theorem Printer.foldl_output (text : List Byte) (printer : Printer) :
    (text.foldl (Printer.step sink strings args) printer).output =
      printer.output ++ (text.foldl (Printer.step sink strings args) printer.cleared).output := by
  have split := @Printer.prepend_foldl sink strings args text printer.cleared printer.output
  rw [Printer.prepend_cleared] at split
  rw [← split]
  rfl

end Output

/-! ## What is printed of a number -/

/-- The string in a buffer. -/
theorem take_strlen (str : List Byte) : str.take (strlen str) = str.takeWhile (· ≠ 0) :=
  (List.prefix_iff_eq_take.mp (List.takeWhile_prefix _)).symm

/-- The digits of a number in some base, most significant first. -/
def numeral (base num : Word) : List Byte :=
  ((Nat.digits base.toNat num.toNat).map fun digit : Nat => dtoc digit).reverse

/-- A digit of the bases that are printed. -/
def isDigit (c : Byte) : Bool :=
  (byte '0' ≤ c && c ≤ byte '9') || (byte 'A' ≤ c && c ≤ byte 'F')

theorem isDigit_dtoc : ∀ digit < 16, isDigit (dtoc (digit : Nat)) = true := by
  decide

theorem ne_zero_of_isDigit {c : Byte} (digit : isDigit c = true) : c ≠ 0 := by
  rintro rfl
  exact absurd digit (by decide)

theorem toNat_eq_zero_iff {num : Word} : num.toNat = 0 ↔ num = 0 :=
  BitVec.toNat_inj (x := num) (y := 0)

/-- With enough room the digit loop appends all digits of the number. -/
theorem digitLoop_eq {base : Word} (large : 1 < base.toNat) {room : Nat} {num : Word}
    (enough : (Nat.digits base.toNat num.toNat).length < room) (arr : List Byte) :
    digitLoop base room num arr =
      some (arr ++ (Nat.digits base.toNat num.toNat).map fun digit : Nat => dtoc digit) := by
  induction room generalizing num arr with
  | zero => exact absurd enough (Nat.not_lt_zero _)
  | succ room ih =>
      rw [digitLoop]
      by_cases zero : num = 0
      · subst zero
        have none : Nat.digits base.toNat (0 : Word).toNat = [] := Nat.digits_zero _
        rw [if_neg (not_not.mpr rfl), none, List.map_nil, List.append_nil]
      · have positive : 0 < num.toNat :=
          Nat.pos_of_ne_zero (mt toNat_eq_zero_iff.mp zero)
        have quotient : (num / base).toNat = num.toNat / base.toNat := BitVec.toNat_udiv
        rw [Nat.digits_def' large positive, List.length_cons, ← quotient] at enough
        rw [if_pos zero, ih (by omega), Nat.digits_def' large positive, List.map_cons, quotient,
          BitVec.toNat_umod, List.append_assoc, List.singleton_append]

/-- A number of 64 bits has fewer digits than the buffer has bytes. -/
theorem length_digits_lt {base : Word} (large : 1 < base.toNat) (num : Word) :
    (Nat.digits base.toNat num.toNat).length < maxIntergerSize := by
  have short : (Nat.digits base.toNat num.toNat).length ≤ 64 := by
    rw [Nat.digits_length_le_iff large]
    exact Nat.lt_of_lt_of_le num.isLt (Nat.pow_le_pow_left large 64)
  exact Nat.lt_of_le_of_lt short (by decide)

/-- The functions that print numbers print all digits, and what their buffer holds
behind them. -/
theorem printDigits_eq {base : Word} (large : 1 < base.toNat) (small : base.toNat ≤ 16)
    (num : Word) (buffer : List Byte) :
    printDigits base num buffer =
      numeral base num ++
        (buffer.drop (Nat.digits base.toNat num.toNat).length).takeWhile (· ≠ 0) := by
  rw [printDigits, digitLoop_eq large (length_digits_lt large num), List.nil_append]
  simp only [List.length_map]
  rw [take_strlen, List.takeWhile_append_of_pos]
  · rfl
  · intro c member
    obtain ⟨digit, digits, rfl⟩ := List.mem_map.mp (List.mem_reverse.mp member)
    have bound : digit < 16 := Nat.lt_of_lt_of_le (Nat.digits_lt_base large digits) small
    exact decide_eq_true (ne_zero_of_isDigit (isDigit_dtoc digit bound))

theorem takeWhile_drop_zeroBuffer (count : Nat) :
    (zeroBuffer.drop count).takeWhile (· ≠ 0) = [] := by
  rw [zeroBuffer, List.drop_replicate]
  cases maxIntergerSize - count <;> rfl

theorem printDigits_zeroBuffer {base : Word} (large : 1 < base.toNat) (small : base.toNat ≤ 16)
    (num : Word) : printDigits base num zeroBuffer = numeral base num := by
  rw [printDigits_eq large small, takeWhile_drop_zeroBuffer, List.append_nil]

theorem isDigit_of_mem_numeral {base num : Word} (large : 1 < base.toNat)
    (small : base.toNat ≤ 16) {c : Byte} (member : c ∈ numeral base num) : isDigit c = true := by
  obtain ⟨digit, digits, rfl⟩ := List.mem_map.mp (List.mem_reverse.mp member)
  exact isDigit_dtoc digit (Nat.lt_of_lt_of_le (Nat.digits_lt_base large digits) small)

theorem numeral_eq_nil_iff {base num : Word} : numeral base num = [] ↔ num = 0 := by
  rw [numeral, List.reverse_eq_nil_iff, List.map_eq_nil_iff, Nat.digits_eq_nil_iff_eq_zero]
  exact toNat_eq_zero_iff

end Lord84
