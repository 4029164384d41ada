import Lord84.Lib.Stdio
import Lord84.Theory.Reads
import Mathlib.Data.List.GetD

/-!
# Numbers read back

What `print_int`, `print_hex` and `print_bin` of `src/lib/stdio.c` print is a numeral of the
number: read as one, it gives the number back.  The functions work in two arrays of
`MAX_INTERGER_SIZE` elements; a second version of them records the index of every element
they use.
-/

namespace Lord84

open Theory

/-! ## Numerals -/

/-- The value of a digit; capital letters come behind the figures. -/
def digitValue (c : Byte) : Option Nat :=
  if byte '0' ≤ c ∧ c ≤ byte '9' then some (c - byte '0').toNat
  else if byte 'A' ≤ c ∧ c ≤ byte 'F' then some ((c - byte 'A').toNat + 10)
  else none

/-- Read another digit of a numeral. -/
def readDigit (base value : Nat) (c : Byte) : Option Nat := do
  let digit ← digitValue c
  if digit < base then some (value * base + digit) else none

/-- The number that a numeral stands for. -/
def decode (base : Nat) (text : List Byte) : Option Nat :=
  text.foldlM (readDigit base) 0

/-- A text is the numeral of a number: it consists of digits of the base, it has one, the first
is no zero unless the number is, and it is read as the number. -/
structure IsNumeral (base : Nat) (num : Word) (text : List Byte) : Prop where
  digits : ∀ c ∈ text, ∃ value < base, digitValue c = some value
  nonempty : text ≠ []
  leading : text.head? = some (byte '0') → num = 0
  decodes : decode base text = some num.toNat

section Numerals

variable {base : Word}

theorem digitValue_dtoc : ∀ digit < 16, digitValue (dtoc (digit : Nat)) = some digit := by
  decide

theorem dtoc_ne_zero : ∀ digit < 16, digit ≠ 0 → dtoc (digit : Nat) ≠ byte '0' := by
  decide

theorem readDigit_dtoc {base digit : Nat} (small : base ≤ 16) (below : digit < base)
    (value : Nat) : readDigit base value (dtoc digit) = some (value * base + digit) := by
  rw [readDigit, digitValue_dtoc digit (Nat.lt_of_lt_of_le below small)]
  exact if_pos below

/-- Digits, printed with the most significant one in front, are read back. -/
theorem decode_digits {base : Nat} (small : base ≤ 16) {digits : List Nat}
    (below : ∀ digit ∈ digits, digit < base) :
    decode base (digits.map fun digit : Nat => dtoc digit).reverse =
      some (Nat.ofDigits base digits) := by
  induction digits with
  | nil => rfl
  | cons digit digits ih =>
      rw [List.forall_mem_cons] at below
      have front := ih below.2
      rw [decode] at front
      rw [List.map_cons, List.reverse_cons, decode, List.foldlM_append, front,
        Nat.ofDigits_cons, Nat.add_comm, Nat.mul_comm]
      exact (congrArg (· >>= pure) (readDigit_dtoc small below.1 _)).trans rfl

/-- The numeral of a number that is not zero. -/
theorem isNumeral_numeral (large : 1 < base.toNat) (small : base.toNat ≤ 16) {num : Word}
    (positive : num ≠ 0) : IsNumeral base.toNat num (numeral base num) where
  digits c member := by
    obtain ⟨digit, listed, rfl⟩ := List.mem_map.mp (List.mem_reverse.mp member)
    have below := Nat.digits_lt_base large listed
    exact ⟨digit, below, digitValue_dtoc digit (Nat.lt_of_lt_of_le below small)⟩
  nonempty := mt numeral_eq_nil_iff.mp positive
  leading first := by
    have nonzero : num.toNat ≠ 0 := mt toNat_eq_zero_iff.mp positive
    have someDigit : Nat.digits base.toNat num.toNat ≠ [] :=
      Nat.digits_ne_nil_iff_ne_zero.mpr nonzero
    have last := List.getLast_mem someDigit
    rw [numeral, List.head?_reverse, List.getLast?_map, List.getLast?_eq_some_getLast someDigit,
      Option.map_some, Option.some.injEq] at first
    have below := Nat.lt_of_lt_of_le (Nat.digits_lt_base large last) small
    exact absurd first (dtoc_ne_zero _ below (Nat.getLast_digit_ne_zero base.toNat nonzero))
  decodes := by
    rw [numeral, decode_digits small fun digit listed => Nat.digits_lt_base large listed,
      Nat.ofDigits_digits]

end Numerals

/-- Zero is printed as a single digit. -/
theorem isNumeral_zero {base : Nat} (positive : 0 < base) : IsNumeral base 0 [byte '0'] where
  digits c member := by
    rw [List.mem_singleton.mp member]
    exact ⟨0, positive, by decide⟩
  nonempty := List.cons_ne_nil _ _
  leading _ := rfl
  decodes := by
    have digit : digitValue (byte '0') = some 0 := by decide
    have read : readDigit base 0 (byte '0') = some (0 * base + 0) := by
      rw [readDigit, digit]
      exact if_pos positive
    rw [decode, List.foldlM_cons, read]
    simp

/-! ## The arrays -/

/-- An access to an element of `arr` or `buffer`. -/
def element (i : Nat) : Traced Nat Unit where
  value := ()
  reads := [i]

/-- The digit loop. -/
def digitLoopTraced (base : Word) :
    (room : Nat) → (num : Word) → (arr : List Byte) → Traced Nat (Option (List Byte))
  | 0, _, _ => return none
  | room + 1, num, arr =>
      if num ≠ 0 then do
        element arr.length
        digitLoopTraced base room (num / base) (arr ++ [dtoc (num % base).toNat])
      else
        return some arr

/-- The loop that reverses the digits into `buffer`. -/
def reverseTraced (arr buffer : List Byte) : Traced Nat (List Byte) :=
  (List.range arr.length).foldlM (fun buffer i => do
    element (arr.length - i - 1)
    element i
    return buffer.set i (arr.getD (arr.length - i - 1) 0)) buffer

/-- `strlen`, from index `i` on. -/
def strlenTraced : (str : List Byte) → (i : Nat) → Traced Nat Nat
  | [], i => do
      element i
      return i
  | c :: str, i => do
      element i
      if c ≠ 0 then strlenTraced str (i + 1) else return i

/-- The digit loop and what follows it. -/
def printDigitsTraced (base num : Word) (buffer : List Byte) : Traced Nat (List Byte) := do
  match ← digitLoopTraced base maxIntergerSize num [] with
  | none => return []
  | some arr => do
      let buffer ← reverseTraced arr buffer
      let length ← strlenTraced buffer 0
      return buffer.take length

/-- The buffer of `print_int` and `print_hex`. -/
def numberBufferTraced (num : Word) : Traced Nat (List Byte) :=
  if num = 0 then do
    element 0
    return zeroBuffer.set 0 (byte '0')
  else
    return zeroBuffer

/-- `print_int` -/
def printIntTraced (num : Word) : Traced Nat (List Byte) := do
  let buffer ← numberBufferTraced num
  printDigitsTraced 10 num buffer

/-- `print_hex` -/
def printHexTraced (num : Word) : Traced Nat (List Byte) := do
  let buffer ← numberBufferTraced num
  printDigitsTraced 16 num buffer

/-- `print_bin` -/
def printBinTraced (num : Word) : Traced Nat (List Byte) :=
  printDigitsTraced 2 num zeroBuffer

section Arrays

variable {base num : Word} {arr buffer : List Byte}

theorem value_digitLoopTraced (room : Nat) (num : Word) (arr : List Byte) :
    (digitLoopTraced base room num arr).value = digitLoop base room num arr := by
  induction room generalizing num arr with
  | zero => rfl
  | succ room ih =>
      rw [digitLoopTraced, digitLoop]
      split
      · exact ih _ _
      · rfl

/-- The early return comes before an index that is out of range. -/
theorem reads_digitLoopTraced (room : Nat) (num : Word) (arr : List Byte) :
    ∀ i ∈ (digitLoopTraced base room num arr).reads, i < arr.length + room := by
  induction room generalizing num arr with
  | zero => exact List.forall_mem_nil _
  | succ room ih =>
      rw [digitLoopTraced]
      split
      · rw [Traced.reads_bind, List.forall_mem_append]
        refine ⟨?_, ?_⟩
        · intro i here
          rw [List.mem_singleton.mp here]
          omega
        · intro i later
          have bound := ih _ _ i later
          rw [List.length_append, List.length_singleton] at bound
          omega
      · exact List.forall_mem_nil _

/-- The loop copies the digits from the last one to the first. -/
theorem value_reverseTraced (short : arr.length ≤ buffer.length) :
    (reverseTraced arr buffer).value = arr.reverse ++ buffer.drop arr.length := by
  -- After `count` iterations the first `count` elements have been written.
  have written : ∀ count ≤ arr.length,
      (List.range count).foldl
        (fun buffer i => buffer.set i (arr.getD (arr.length - i - 1) 0)) buffer =
      arr.reverse.take count ++ buffer.drop count := by
    intro count bound
    induction count with
    | zero => rfl
    | succ count ih =>
        have inArr : count < arr.reverse.length := by
          rw [List.length_reverse]
          exact bound
        have inBuffer : count < buffer.length := Nat.lt_of_lt_of_le bound short
        have front : (arr.reverse.take count).length = count :=
          List.length_take_of_le (Nat.le_of_lt inArr)
        have digit : arr.getD (arr.length - count - 1) 0 = arr.reverse[count] := by
          rw [List.getElem_reverse, List.getD_eq_getElem _ _ (by omega)]
          simp only [Nat.sub_right_comm]
        rw [List.range_succ, List.foldl_append, ih (Nat.le_of_succ_le bound), List.foldl_cons,
          List.foldl_nil, List.set_append_right _ _ (Nat.le_of_eq front), front, Nat.sub_self,
          List.drop_eq_getElem_cons inBuffer, List.set_cons_zero, digit,
          List.take_succ_eq_append_getElem inArr, List.append_assoc, List.singleton_append]
  have all := written arr.length (Nat.le_refl _)
  rw [List.take_of_length_le (Nat.le_of_eq List.length_reverse)] at all
  rw [reverseTraced, Traced.value_foldlM, ← all]
  rfl

theorem reads_reverseTraced : ∀ i ∈ (reverseTraced arr buffer).reads, i < arr.length := by
  intro i listed
  obtain ⟨k, counted, used⟩ := (@Traced.mem_reads_foldlM_iff _ _ _ _
    (fun k => [arr.length - k - 1, k]) (fun _ _ => rfl) _ _ _).mp listed
  rw [List.mem_range] at counted
  rcases List.mem_pair.mp used with rfl | rfl
  · omega
  · exact counted

theorem value_strlenTraced (str : List Byte) (i : Nat) :
    (strlenTraced str i).value = i + strlen str := by
  induction str generalizing i with
  | nil => rfl
  | cons c str ih =>
      rw [strlenTraced, Traced.value_bind, strlen, List.takeWhile_cons]
      by_cases more : c ≠ 0
      · rw [if_pos more, ih, if_pos (decide_eq_true more), List.length_cons, strlen]
        omega
      · rw [if_neg more, if_neg (fun test => more (of_decide_eq_true test))]
        rfl

/-- `strlen` does not go behind the terminator. -/
theorem reads_strlenTraced (str : List Byte) (i : Nat) :
    ∀ j ∈ (strlenTraced str i).reads, j ≤ i + strlen str := by
  induction str generalizing i with
  | nil =>
      intro j here
      rw [List.mem_singleton.mp here]
      exact Nat.le_add_right i _
  | cons c str ih =>
      rw [strlenTraced, Traced.reads_bind, List.forall_mem_append]
      refine ⟨?_, ?_⟩
      · intro j here
        rw [List.mem_singleton.mp here]
        exact Nat.le_add_right i _
      · rw [strlen, List.takeWhile_cons]
        by_cases more : c ≠ 0
        · rw [if_pos more, if_pos (decide_eq_true more), List.length_cons, ← strlen]
          intro j later
          have bound := ih (i + 1) j later
          omega
        · rw [if_neg more]
          exact List.forall_mem_nil _

theorem strlen_concat_zero_le (text : List Byte) : strlen (text ++ [0]) ≤ text.length := by
  induction text with
  | nil => decide
  | cons c text ih =>
      rw [strlen, List.cons_append, List.takeWhile_cons]
      split
      · exact Nat.succ_le_succ ih
      · exact Nat.zero_le _

/-- A buffer whose last element is the terminator. -/
def Terminated (buffer : List Byte) : Prop :=
  ∃ front : List Byte, buffer = front ++ [0] ∧ front.length + 1 = maxIntergerSize

/-- The digit loop leaves room for the terminator. -/
theorem length_lt_of_digitLoop (large : 1 < base.toNat)
    (finished : digitLoop base maxIntergerSize num [] = some arr) :
    arr.length < maxIntergerSize := by
  rw [digitLoop_eq large (length_digits_lt large num), Option.some.injEq] at finished
  rw [← finished, List.nil_append, List.length_map]
  exact length_digits_lt large num

theorem value_printDigitsTraced (large : 1 < base.toNat) (terminated : Terminated buffer) :
    (printDigitsTraced base num buffer).value = printDigits base num buffer := by
  obtain ⟨front, rfl, size⟩ := terminated
  rw [printDigitsTraced, Traced.value_bind, value_digitLoopTraced, printDigits]
  cases finished : digitLoop base maxIntergerSize num [] with
  | none => rfl
  | some arr =>
      have short := length_lt_of_digitLoop large finished
      simp only [Traced.value_bind, Traced.value_pure, value_strlenTraced, Nat.zero_add]
      rw [value_reverseTraced]
      rw [List.length_append, List.length_singleton, size]
      exact Nat.le_of_lt short

/-- No index is out of range. -/
theorem reads_printDigitsTraced (large : 1 < base.toNat) (terminated : Terminated buffer) :
    ∀ i ∈ (printDigitsTraced base num buffer).reads, i < maxIntergerSize := by
  obtain ⟨front, rfl, size⟩ := terminated
  rw [printDigitsTraced, Traced.reads_bind, value_digitLoopTraced, List.forall_mem_append]
  refine ⟨?_, ?_⟩
  · intro i used
    have bound := reads_digitLoopTraced maxIntergerSize num [] i used
    rw [List.length_nil, Nat.zero_add] at bound
    exact bound
  · cases finished : digitLoop base maxIntergerSize num [] with
    | none => exact List.forall_mem_nil _
    | some arr =>
        have short := length_lt_of_digitLoop large finished
        simp only [Traced.reads_bind, Traced.reads_pure, List.append_nil]
        rw [List.forall_mem_append]
        refine ⟨?_, ?_⟩
        · exact fun i used => (reads_reverseTraced i used).trans short
        · rw [value_reverseTraced (by rw [List.length_append, List.length_singleton]; omega),
            List.drop_append_of_le_length (by omega), ← List.append_assoc]
          intro i used
          have bound := reads_strlenTraced _ 0 i used
          have ends := strlen_concat_zero_le (arr.reverse ++ front.drop arr.length)
          rw [List.length_append, List.length_reverse, List.length_drop] at ends
          omega

end Arrays

/-- The digit loop ends before the early return, and no index reaches the size of the arrays. -/
structure StaysInArrays (base num : Word) (output : List Byte)
    (traced : Traced Nat (List Byte)) : Prop where
  complete : digitLoop base maxIntergerSize num [] ≠ none
  same : traced.value = output
  indices : ∀ i ∈ traced.reads, i < maxIntergerSize

section Printers

variable {base num : Word}

theorem terminated_zeroBuffer : Terminated zeroBuffer :=
  ⟨List.replicate 127 0, rfl, rfl⟩

theorem terminated_numberBuffer (num : Word) : Terminated (numberBuffer num) := by
  rw [numberBuffer]
  split
  · exact ⟨byte '0' :: List.replicate 126 0, rfl, rfl⟩
  · exact terminated_zeroBuffer

/-- The functions with a buffer that is prepared for zero. -/
theorem isNumeral_numberBuffer (large : 1 < base.toNat) (small : base.toNat ≤ 16) (num : Word) :
    IsNumeral base.toNat num (printDigits base num (numberBuffer num)) := by
  by_cases zero : num = 0
  · subst zero
    have single : printDigits base 0 (numberBuffer 0) = [byte '0'] := rfl
    rw [single]
    exact isNumeral_zero (Nat.lt_of_succ_lt large)
  · rw [numberBuffer, if_neg zero, printDigits_zeroBuffer large small]
    exact isNumeral_numeral large small zero

theorem staysInArrays_printDigits (large : 1 < base.toNat) {buffer : List Byte}
    (terminated : Terminated buffer) :
    StaysInArrays base num (printDigits base num buffer)
      (printDigitsTraced base num buffer) where
  complete := by
    rw [digitLoop_eq large (length_digits_lt large num)]
    exact Option.some_ne_none _
  same := value_printDigitsTraced large terminated
  indices := reads_printDigitsTraced large terminated

/-- The element for zero is in the array. -/
theorem staysInArrays_numberBuffer (large : 1 < base.toNat) (num : Word) :
    StaysInArrays base num (printDigits base num (numberBuffer num))
      (numberBufferTraced num >>= printDigitsTraced base num) := by
  have inside := @staysInArrays_printDigits base num large _ (terminated_numberBuffer num)
  have buffer : (numberBufferTraced num).value = numberBuffer num := by
    rw [numberBufferTraced, numberBuffer]
    split <;> rfl
  refine ⟨inside.complete, ?_, ?_⟩
  · rw [Traced.value_bind, buffer]
    exact inside.same
  · rw [Traced.reads_bind, buffer, List.forall_mem_append]
    refine ⟨?_, inside.indices⟩
    intro i used
    rw [numberBufferTraced] at used
    split at used
    · rw [List.mem_singleton.mp used]
      decide
    · cases used

end Printers

/-- Every number is printed as its numeral in base 10 and 16, and in base 2 if it is not zero,
and the arrays are large enough for all of them. -/
theorem number_printing_round_trips (num : Word) :
    (IsNumeral 10 num (printInt num) ∧ IsNumeral 16 num (printHex num) ∧
      (0 < num → IsNumeral 2 num (printBin num))) ∧
    StaysInArrays 10 num (printInt num) (printIntTraced num) ∧
    StaysInArrays 16 num (printHex num) (printHexTraced num) ∧
    StaysInArrays 2 num (printBin num) (printBinTraced num) := by
  refine ⟨⟨?_, ?_, ?_⟩, ?_, ?_, ?_⟩
  · exact @isNumeral_numberBuffer 10 (by decide) (by decide) num
  · exact @isNumeral_numberBuffer 16 (by decide) (by decide) num
  · intro positive
    have nonzero : num ≠ 0 := by
      rintro rfl
      exact absurd positive (by decide)
    rw [printBin, printDigits_zeroBuffer (by decide) (by decide)]
    exact @isNumeral_numeral 2 (by decide) (by decide) num nonzero
  · exact staysInArrays_numberBuffer (by decide) num
  · exact staysInArrays_numberBuffer (by decide) num
  · exact staysInArrays_printDigits (by decide) terminated_zeroBuffer

/-- The same for 255. -/
theorem number_printing_round_trips_255 :
    IsNumeral 10 255 (printInt 255) ∧ IsNumeral 16 255 (printHex 255) ∧
      IsNumeral 2 255 (printBin 255) := by
  obtain ⟨⟨decimal, hexadecimal, binary⟩, -⟩ := number_printing_round_trips 255
  exact ⟨decimal, hexadecimal, binary (by decide)⟩

end Lord84
