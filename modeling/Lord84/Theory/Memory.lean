import Mathlib.Data.BitVec
import Mathlib.Tactic.Common

/-!
# Byte-addressed memory

Memory is a total function from 64-bit addresses to bytes.  Multi-byte values are
stored little-endian, and address arithmetic wraps around, as on the machine.
The lemmas say what a read returns after a write or a fill: the written value
where the two ranges coincide, and the old value where they are apart.
-/

namespace Lord84.Theory

abbrev Byte := BitVec 8
abbrev Word := BitVec 64

/-- Contents of a 64-bit address space. -/
abbrev Memory := Word → Byte

namespace Memory

/-- Little-endian value of the `count` bytes at `address`. -/
def readLE (memory : Memory) (address : Word) : Nat → Nat
  | 0 => 0
  | count + 1 => (memory address).toNat + 256 * readLE memory (address + 1) count

/-- Store the low `count` bytes of `value` at `address`, least significant first. -/
def writeLE (memory : Memory) (address : Word) (count value : Nat) : Memory :=
  fun target =>
    if (target - address).toNat < count then
      BitVec.ofNat 8 (value / 256 ^ (target - address).toNat)
    else memory target

/-- Store one byte. -/
def write8 (memory : Memory) (address : Word) (value : Byte) : Memory :=
  fun target => if target = address then value else memory target

/-- Set `count` bytes from `address` on to one value. -/
def fill (memory : Memory) (address : Word) (value : Byte) (count : Nat) : Memory :=
  fun target => if (target - address).toNat < count then value else memory target

def read64 (memory : Memory) (address : Word) : Word :=
  BitVec.ofNat 64 (memory.readLE address 8)

def read32 (memory : Memory) (address : Word) : BitVec 32 :=
  BitVec.ofNat 32 (memory.readLE address 4)

def write64 (memory : Memory) (address value : Word) : Memory :=
  memory.writeLE address 8 value.toNat

/-! ## Reads depend on the bytes they read -/

/-- The byte after `address` at offset `offset` is the byte at `offset + 1`. -/
theorem next_offset (address : Word) (offset : Nat) :
    address + 1 + BitVec.ofNat 64 offset = address + BitVec.ofNat 64 (offset + 1) := by
  rw [BitVec.ofNat_add, BitVec.add_assoc, BitVec.add_comm (1 : Word)]
  rfl

theorem readLE_congr {left right : Memory} {leftAddress rightAddress : Word} {count : Nat}
    (agree : ∀ offset < count, left (leftAddress + BitVec.ofNat 64 offset) =
      right (rightAddress + BitVec.ofNat 64 offset)) :
    left.readLE leftAddress count = right.readLE rightAddress count := by
  induction count generalizing leftAddress rightAddress with
  | zero => rfl
  | succ count ih =>
      have head : left leftAddress = right rightAddress := by
        simpa using agree 0 (by omega)
      have tail : left.readLE (leftAddress + 1) count =
          right.readLE (rightAddress + 1) count := by
        apply ih
        intro offset inside
        rw [next_offset, next_offset]
        exact agree (offset + 1) (by omega)
      simp only [readLE, head, tail]

theorem read64_congr {left right : Memory} {address : Word}
    (agree : ∀ offset < 8, left (address + BitVec.ofNat 64 offset) =
      right (address + BitVec.ofNat 64 offset)) :
    left.read64 address = right.read64 address := by
  rw [read64, read64, readLE_congr agree]

/-- Bytes that hold the little-endian digits of `value` read back as `value`. -/
theorem readLE_of_digits {memory : Memory} {address : Word} {count value : Nat}
    (digits : ∀ offset < count, memory (address + BitVec.ofNat 64 offset) =
      BitVec.ofNat 8 (value / 256 ^ offset)) :
    memory.readLE address count = value % 256 ^ count := by
  induction count generalizing address value with
  | zero => simp [readLE, Nat.mod_one]
  | succ count ih =>
      have head : memory address = BitVec.ofNat 8 value := by
        simpa using digits 0 (by omega)
      have tail : memory.readLE (address + 1) count = value / 256 % 256 ^ count := by
        apply ih
        intro offset inside
        rw [next_offset, Nat.div_div_eq_div_mul, ← Nat.pow_succ']
        exact digits (offset + 1) (by omega)
      have split : value % 256 ^ (count + 1) =
          value % 256 + 256 * (value / 256 % 256 ^ count) := by
        rw [Nat.pow_succ', Nat.mod_mul]
      rw [readLE, head, tail, BitVec.toNat_ofNat, split]

theorem toNat_append {high low : Nat} (left : BitVec high) (right : BitVec low) :
    (left ++ right).toNat = left.toNat * 2 ^ low + right.toNat := by
  rw [BitVec.toNat_append, ← Nat.shiftLeft_add_eq_or_of_lt right.isLt, Nat.shiftLeft_eq]

/-- A 32-bit value byte by byte, the last byte in front. -/
theorem read32_eq_append (memory : Memory) (address : Word) :
    memory.read32 address = memory (address + 3) ++ (memory (address + 2) ++
      (memory (address + 1) ++ memory address)) := by
  have second : address + 1 + 1 = address + 2 := by bv_omega
  have third : address + 2 + 1 = address + 3 := by bv_omega
  apply BitVec.eq_of_toNat_eq
  have first := (memory address).isLt
  have bytes := (memory (address + 1)).isLt
  have more := (memory (address + 2)).isLt
  have last := (memory (address + 3)).isLt
  simp only [read32, readLE, second, third, toNat_append, BitVec.toNat_ofNat]
  omega

/-! ## Writes -/

@[simp] theorem writeLE_apply (memory : Memory) (address target : Word) (count value : Nat) :
    memory.writeLE address count value target =
      if (target - address).toNat < count then
        BitVec.ofNat 8 (value / 256 ^ (target - address).toNat)
      else memory target := rfl

theorem offset_sub (address : Word) {offset : Nat} (small : offset < 2 ^ 64) :
    (address + BitVec.ofNat 64 offset - address).toNat = offset := by
  have cancel : address + BitVec.ofNat 64 offset - address = BitVec.ofNat 64 offset := by
    rw [BitVec.add_comm, BitVec.add_sub_cancel]
  rw [cancel, BitVec.toNat_ofNat, Nat.mod_eq_of_lt small]

@[simp] theorem read64_write64 (memory : Memory) (address value : Word) :
    (memory.write64 address value).read64 address = value := by
  have stored : (memory.write64 address value).readLE address 8 = value.toNat % 256 ^ 8 := by
    apply readLE_of_digits
    intro offset inside
    rw [write64, writeLE_apply, offset_sub address (by omega), if_pos inside]
  rw [read64, stored]
  apply BitVec.eq_of_toNat_eq
  have small : value.toNat < 2 ^ 64 := value.isLt
  simp only [BitVec.toNat_ofNat]
  omega

/-- A write changes nothing outside its eight bytes. -/
theorem write64_outside (memory : Memory) {address target : Word} (value : Word)
    (outside : 8 ≤ (target - address).toNat) :
    memory.write64 address value target = memory target := by
  rw [write64, writeLE_apply, if_neg (by omega)]

/-- Aligned words do not overlap: writing one leaves every other one as it was. -/
theorem read64_write64_of_ne (memory : Memory) {address other : Word} (value : Word)
    (aligned : address.toNat % 8 = 0) (otherAligned : other.toNat % 8 = 0)
    (different : other ≠ address) :
    (memory.write64 address value).read64 other = memory.read64 other := by
  apply read64_congr
  intro offset inside
  apply write64_outside
  have distinct : other.toNat ≠ address.toNat :=
    fun equal => different (BitVec.eq_of_toNat_eq equal)
  have leftBound := other.isLt
  have rightBound := address.isLt
  rw [BitVec.toNat_sub, BitVec.toNat_add, BitVec.toNat_ofNat]
  omega

/-- A read finds what was written there. -/
theorem readLE_writeLE (memory : Memory) (address : Word) {count : Nat} (value : Nat)
    (small : count < 2 ^ 64) :
    (memory.writeLE address count value).readLE address count = value % 256 ^ count := by
  apply readLE_of_digits
  intro offset inside
  rw [writeLE_apply, offset_sub address (by omega), if_pos inside]

/-- Two offsets from one address. -/
theorem toNat_sub_offsets (address : Word) {offset position : Nat} (small : offset < 2 ^ 63)
    (inside : position < 2 ^ 63) :
    (address + BitVec.ofNat 64 position - (address + BitVec.ofNat 64 offset)).toNat =
      if offset ≤ position then position - offset else 2 ^ 64 + position - offset := by
  have bound := address.isLt
  rw [BitVec.toNat_sub, BitVec.toNat_add, BitVec.toNat_add, BitVec.toNat_ofNat, BitVec.toNat_ofNat]
  split
  · omega
  · omega

/-- A write at an offset changes nothing at an offset outside. -/
theorem writeLE_offset (memory : Memory) (address : Word) {offset count position : Nat}
    (value : Nat) (small : offset + count < 2 ^ 63) (inside : position < 2 ^ 63)
    (outside : position < offset ∨ offset + count ≤ position) :
    memory.writeLE (address + BitVec.ofNat 64 offset) count value
        (address + BitVec.ofNat 64 position) =
      memory (address + BitVec.ofNat 64 position) := by
  rw [writeLE_apply, if_neg]
  rw [toNat_sub_offsets address (by omega) inside]
  split
  · omega
  · omega

/-- A write at an offset does not change what is read beside it. -/
theorem readLE_writeLE_offset (memory : Memory) (address : Word) {offset count position size : Nat}
    (value : Nat) (small : offset + count < 2 ^ 62) (inside : position + size < 2 ^ 62)
    (outside : position + size ≤ offset ∨ offset + count ≤ position) :
    (memory.writeLE (address + BitVec.ofNat 64 offset) count value).readLE
        (address + BitVec.ofNat 64 position) size =
      memory.readLE (address + BitVec.ofNat 64 position) size := by
  apply readLE_congr
  intro k within
  have sum : address + BitVec.ofNat 64 position + BitVec.ofNat 64 k =
      address + BitVec.ofNat 64 (position + k) := by
    rw [BitVec.add_assoc, BitVec.ofNat_add]
  rw [sum]
  exact writeLE_offset memory address value (by omega) (by omega) (by omega)

/-- A byte outside the eight written ones may be stored before or after. -/
theorem write8_write64_comm (memory : Memory) {address target : Word} (value : Word) (byte : Byte)
    (outside : 8 ≤ (target - address).toNat) :
    (memory.write64 address value).write8 target byte =
      (memory.write8 target byte).write64 address value := by
  funext other
  by_cases stored : other = target
  · rw [stored, write64_outside _ value outside, write8, write8, if_pos rfl, if_pos rfl]
  · simp only [write8, write64, writeLE_apply, if_neg stored]

/-! ## Fills -/

@[simp] theorem fill_apply (memory : Memory) (address target : Word) (value : Byte)
    (count : Nat) :
    memory.fill address value count target =
      if (target - address).toNat < count then value else memory target := rfl

/-- Filling one byte more is a fill followed by a store. -/
theorem fill_succ (memory : Memory) (address : Word) (value : Byte) {count : Nat}
    (small : count < 2 ^ 64) :
    (memory.fill address value count).write8 (address + BitVec.ofNat 64 count) value =
      memory.fill address value (count + 1) := by
  funext target
  have last : target = address + BitVec.ofNat 64 count ↔ (target - address).toNat = count := by
    constructor
    · intro equal
      rw [equal, offset_sub address small]
    · intro equal
      rw [← equal, BitVec.ofNat_toNat, BitVec.setWidth_eq, BitVec.add_comm,
        BitVec.sub_add_cancel]
  simp only [write8, fill_apply, last]
  rcases Nat.lt_trichotomy (target - address).toNat count with before | atEnd | after
  · rw [if_neg (by omega), if_pos before, if_pos (by omega)]
  · rw [if_pos atEnd, if_pos (by omega)]
  · rw [if_neg (by omega), if_neg (by omega), if_neg (by omega)]

/-- Eight zero bytes read as zero. -/
theorem read64_of_zero {memory : Memory} {target : Word}
    (zeroed : ∀ offset < 8, memory (target + BitVec.ofNat 64 offset) = 0) :
    memory.read64 target = 0 := by
  have zero : memory.readLE target 8 = 0 % 256 ^ 8 := by
    apply readLE_of_digits
    intro offset small
    rw [zeroed offset small]
    simp
  rw [read64, zero]
  rfl

theorem read32_of_zero {memory : Memory} {target : Word}
    (zeroed : ∀ offset < 4, memory (target + BitVec.ofNat 64 offset) = 0) :
    memory.read32 target = 0 := by
  have zero : memory.readLE target 4 = 0 % 256 ^ 4 := by
    apply readLE_of_digits
    intro offset small
    rw [zeroed offset small]
    simp
  rw [read32, zero]
  rfl

/-- A zeroed range reads as zero. -/
theorem read64_fill_zero (memory : Memory) {address target : Word} {count : Nat}
    (inside : ∀ offset < 8,
      (target + BitVec.ofNat 64 offset - address).toNat < count) :
    (memory.fill address 0 count).read64 target = 0 := by
  apply read64_of_zero
  intro offset small
  rw [fill_apply, if_pos (inside offset small)]

theorem read64_fill_outside (memory : Memory) {address target : Word} (value : Byte)
    {count : Nat}
    (outside : ∀ offset < 8,
      count ≤ (target + BitVec.ofNat 64 offset - address).toNat) :
    (memory.fill address value count).read64 target = memory.read64 target := by
  apply read64_congr
  intro offset small
  rw [fill_apply, if_neg (by have := outside offset small; omega)]

attribute [irreducible] read64 write64

end Memory

end Lord84.Theory
