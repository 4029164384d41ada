import Lord84.Theory.RadixTree
import Lord84.Mm.PmmInit

/-!
# Four-level paging

The translation that an x86-64 processor performs on page tables in physical
memory.  A table is a page of 512 entries; an entry is present when bit 0 is set,
and bits 12 to 51 hold the physical address of the next table or of the frame.  A
page is writable when bit 1 is set at all four levels, and not executable as soon
as bit 63 is set at one of them (with `EFER.NXE` on).

Seen as data, the tables of one root form a radix tree over the four nine-bit
digits of the virtual page number.
-/

namespace Lord84

open Theory

/-- Bits 12 to 51 of an entry. -/
def addressMask : Word := 0x000ffffffffff000

/-- Present bit of an entry, as the processor reads it. -/
def presentBit : Word := 0x1

/-- Writable bit of an entry, as the processor reads it. -/
def writableBit : Word := 0x2

/-- Execute-disable bit of an entry, as the processor reads it. -/
def executeDisableBit : Word := 0x8000000000000000

/-- Address in an entry, if the entry is present. -/
def child (entry : Word) : Option Word :=
  if entry &&& presentBit = 0 then none else some (entry &&& addressMask)

/-- Physical address of entry `index` of the table at `table`. -/
def entryAddress (table : Word) (index : BitVec 9) : Word :=
  table + index.setWidth 64 * 8#64

/-- Entry `index` of the table at `table`. -/
def entryAt (memory : Memory) (table : Word) (index : BitVec 9) : Word :=
  memory.read64 (entryAddress table index)

/-- The entries that a successful translation goes through. -/
structure PageWalk where
  pml4e : Word
  pdpte : Word
  pde : Word
  pte : Word
  deriving DecidableEq, Repr

/-- The processor's walk from the root table for the virtual address `virtAddr`. -/
def walk (memory : Memory) (root virtAddr : Word) : Option PageWalk := do
  let pml4e := entryAt memory root (virtAddr.extractLsb' 39 9)
  let pdp ← child pml4e
  let pdpte := entryAt memory pdp (virtAddr.extractLsb' 30 9)
  let pd ← child pdpte
  let pde := entryAt memory pd (virtAddr.extractLsb' 21 9)
  let pt ← child pde
  let pte := entryAt memory pt (virtAddr.extractLsb' 12 9)
  let _ ← child pte
  return { pml4e, pdpte, pde, pte }

namespace PageWalk

def entries (result : PageWalk) : List Word :=
  [result.pml4e, result.pdpte, result.pde, result.pte]

/-- The translated page may be written. -/
def Writable (result : PageWalk) : Prop :=
  ∀ entry ∈ result.entries, entry &&& writableBit ≠ 0

/-- Instructions may be fetched from the translated page. -/
def Executable (result : PageWalk) : Prop :=
  ∀ entry ∈ result.entries, entry &&& executeDisableBit = 0

/-- Physical address of the translated page. -/
def frame (result : PageWalk) : Word :=
  result.pte &&& addressMask

instance (result : PageWalk) : Decidable result.Writable :=
  inferInstanceAs (Decidable (∀ entry ∈ result.entries, _))

instance (result : PageWalk) : Decidable result.Executable :=
  inferInstanceAs (Decidable (∀ entry ∈ result.entries, _))

end PageWalk

/-- Leaf entry of the translation of `virtAddr`. -/
def translate (memory : Memory) (root virtAddr : Word) : Option Word :=
  (walk memory root virtAddr).map PageWalk.pte

/-! ## Virtual page numbers -/

/-- Bits 12 to 47 of a virtual address, the part that is translated. -/
def virtualPage (virtAddr : Word) : BitVec 36 :=
  virtAddr.extractLsb' 12 36

/-- Digits that select the page table. -/
def tablePath (virtAddr : Word) : List (BitVec 9) :=
  [virtAddr.extractLsb' 39 9, virtAddr.extractLsb' 30 9, virtAddr.extractLsb' 21 9]

/-- Digit that selects the entry of the page table. -/
def tableIndex (virtAddr : Word) : BitVec 9 :=
  virtAddr.extractLsb' 12 9

@[simp] theorem length_tablePath (virtAddr : Word) : (tablePath virtAddr).length = 3 := rfl

/-- The four digits determine the virtual page and are determined by it. -/
theorem virtualPage_eq_iff (left right : Word) :
    virtualPage left = virtualPage right ↔
      tablePath left = tablePath right ∧ tableIndex left = tableIndex right := by
  simp only [virtualPage, tablePath, tableIndex, List.cons.injEq, and_true,
    ← BitVec.toNat_inj, BitVec.extractLsb'_toNat, Nat.shiftRight_eq_div_pow]
  omega

/-- Table at the end of a path of digits. -/
def tableAt (memory : Memory) (root : Word) (path : List (BitVec 9)) : Option Word :=
  RadixTree.node child (entryAt memory) root path

/-- The processor's translation is the lookup in the radix tree of tables. -/
theorem translate_eq_lookup (memory : Memory) (root virtAddr : Word) :
    translate memory root virtAddr =
      RadixTree.lookup child (entryAt memory) root (tablePath virtAddr)
        (tableIndex virtAddr) := by
  simp only [translate, walk, RadixTree.lookup, tablePath, tableIndex, RadixTree.node]
  cases child (entryAt memory root (virtAddr.extractLsb' 39 9)) with
  | none => rfl
  | some pdp =>
      cases pdFound : child (entryAt memory pdp (virtAddr.extractLsb' 30 9)) with
      | none => simp [pdFound]
      | some pd =>
          cases ptFound : child (entryAt memory pd (virtAddr.extractLsb' 21 9)) with
          | none => simp [pdFound, ptFound]
          | some pt =>
              cases found : child (entryAt memory pt (virtAddr.extractLsb' 12 9)) <;>
                simp [pdFound, ptFound, found]

/-! ## Frames -/

/-- The word is the address of a physical page: aligned and below 2^52. -/
def IsFrame (address : Word) : Prop :=
  address &&& addressMask = address

instance (address : Word) : Decidable (IsFrame address) :=
  inferInstanceAs (Decidable (_ = _))

theorem isFrame_and_addressMask (entry : Word) : IsFrame (entry &&& addressMask) := by
  rw [IsFrame, BitVec.and_assoc, BitVec.and_self]

/-- The low bits of an address are its offset in the page. -/
theorem toNat_and_offset (address : Word) :
    (address &&& 0xfff).toNat = address.toNat % blockSize := by
  rw [BitVec.toNat_and, show (0xfff : Word).toNat = 2 ^ 12 - 1 by decide,
    Nat.and_two_pow_sub_one_eq_mod]
  rfl

theorem pageAligned_iff {address : Word} :
    PageAligned address ↔ address &&& 0xfff = 0 := by
  constructor
  · intro aligned
    apply BitVec.eq_of_toNat_eq
    rw [toNat_and_offset]
    exact aligned
  · intro zero
    rw [PageAligned, ← toNat_and_offset, zero]
    rfl

theorem IsFrame.pageAligned {address : Word} (frame : IsFrame address) :
    PageAligned address := by
  rw [pageAligned_iff, ← frame, BitVec.and_assoc,
    show addressMask &&& 0xfff = 0#64 by decide, BitVec.and_zero]
  rfl

/-- Aligned addresses below 2^52 are frames. -/
theorem isFrame_of_pageAligned {address : Word} (aligned : PageAligned address)
    (small : address.toNat < 2 ^ 52) : IsFrame address := by
  have mask : ∀ i : Fin 64,
      addressMask.getLsbD i = (decide (12 ≤ i.val) && decide (i.val < 52)) := by
    decide
  have zeroLow : ∀ i < 12, address.toNat.testBit i = false := by
    intro i low
    have bits := Nat.testBit_mod_two_pow address.toNat 12 i
    rw [show address.toNat % 2 ^ 12 = 0 from aligned] at bits
    simpa [low] using bits
  have zeroHigh : ∀ i ≥ 52, address.toNat.testBit i = false := by
    intro i high
    exact Nat.testBit_lt_two_pow (Nat.lt_of_lt_of_le small (Nat.pow_le_pow_right (by omega) high))
  apply BitVec.eq_of_getLsbD_eq
  intro i bound
  rw [BitVec.getLsbD_and, mask ⟨i, bound⟩]
  change (address.toNat.testBit i && _) = address.toNat.testBit i
  rcases Nat.lt_or_ge i 12 with low | notLow
  · rw [zeroLow i low, Bool.false_and]
  · rcases Nat.lt_or_ge i 52 with middle | high
    · simp [notLow, middle]
    · rw [zeroHigh i high, Bool.false_and]

/-! ## Entries and memory writes -/

theorem toNat_entryAddress {table : Word} (aligned : PageAligned table) (index : BitVec 9) :
    (entryAddress table index).toNat = table.toNat + index.toNat * 8 := by
  have tableBound := table.isLt
  have indexBound := index.isLt
  simp only [PageAligned, blockSize] at aligned
  simp only [entryAddress, BitVec.toNat_add, BitVec.toNat_mul, BitVec.toNat_setWidth,
    BitVec.toNat_ofNat]
  omega

theorem entryAddress_mod_eight {table : Word} (aligned : PageAligned table)
    (index : BitVec 9) : (entryAddress table index).toNat % 8 = 0 := by
  have base := aligned.mod_eight
  rw [toNat_entryAddress aligned]
  omega

/-- Different entries of page-aligned tables have different addresses. -/
theorem entryAddress_inj {table other : Word} {index position : BitVec 9}
    (aligned : PageAligned table) (otherAligned : PageAligned other)
    (equal : entryAddress other position = entryAddress table index) :
    (other, position) = (table, index) := by
  have equalNat := congrArg BitVec.toNat equal
  rw [toNat_entryAddress aligned, toNat_entryAddress otherAligned] at equalNat
  have indexBound := index.isLt
  have positionBound := position.isLt
  simp only [PageAligned, blockSize] at aligned otherAligned
  have sameTable : other = table := BitVec.eq_of_toNat_eq (by omega)
  have sameIndex : position = index := BitVec.eq_of_toNat_eq (by omega)
  rw [sameTable, sameIndex]

@[simp] theorem entryAt_write_self (memory : Memory) (table : Word) (index : BitVec 9)
    (value : Word) :
    entryAt (memory.write64 (entryAddress table index) value) table index = value := by
  rw [entryAt, Memory.read64_write64]

theorem entryAt_write_of_ne (memory : Memory) {table other : Word}
    {index position : BitVec 9} (value : Word) (aligned : PageAligned table)
    (otherAligned : PageAligned other) (different : (other, position) ≠ (table, index)) :
    entryAt (memory.write64 (entryAddress table index) value) other position =
      entryAt memory other position := by
  apply Memory.read64_write64_of_ne _ _ (entryAddress_mod_eight aligned index)
    (entryAddress_mod_eight otherAligned position)
  intro equal
  exact different (entryAddress_inj aligned otherAligned equal)

/-- All entries of a zeroed page are zero. -/
theorem entryAt_fill_self (memory : Memory) {table : Word} (index : BitVec 9)
    (aligned : PageAligned table) :
    entryAt (memory.fill table 0 blockSize) table index = 0 := by
  apply Memory.read64_fill_zero
  intro offset small
  have address := toNat_entryAddress aligned index
  have indexBound := index.isLt
  have tableBound := table.isLt
  rw [BitVec.toNat_sub, BitVec.toNat_add, BitVec.toNat_ofNat, address]
  simp only [PageAligned, blockSize] at aligned ⊢
  omega

theorem entryAt_fill_of_ne (memory : Memory) {table other : Word} (index : BitVec 9)
    (value : Byte) (aligned : PageAligned table) (otherAligned : PageAligned other)
    (different : other ≠ table) :
    entryAt (memory.fill table value blockSize) other index = entryAt memory other index := by
  apply Memory.read64_fill_outside
  intro offset small
  have address := toNat_entryAddress otherAligned index
  have indexBound := index.isLt
  have tableBound := table.isLt
  have otherBound := other.isLt
  have distinct : other.toNat ≠ table.toNat :=
    fun equal => different (BitVec.eq_of_toNat_eq equal)
  rw [BitVec.toNat_sub, BitVec.toNat_add, BitVec.toNat_ofNat, address]
  simp only [PageAligned, blockSize] at aligned otherAligned ⊢
  omega

/-- The bytes of an entry lie in the page of the table. -/
theorem inPage_entryAddress {table : Word} (aligned : PageAligned table) (index : BitVec 9)
    {offset : Nat} (small : offset < 8) :
    InPage table (entryAddress table index + BitVec.ofNat 64 offset) := by
  have entry := toNat_entryAddress aligned index
  have indexBound := index.isLt
  have tableBound := table.isLt
  rw [InPage, BitVec.toNat_add, BitVec.toNat_ofNat, entry]
  simp only [PageAligned, blockSize] at aligned ⊢
  omega

/-- A byte of one page is not part of an entry of another. -/
theorem entryAt_write8_of_ne (memory : Memory) {page other address : Word} (index : BitVec 9)
    (value : Byte) (aligned : PageAligned page) (otherAligned : PageAligned other)
    (different : other ≠ page) (inside : InPage page address) :
    entryAt (memory.write8 address value) other index = entryAt memory other index := by
  apply Memory.read64_congr
  intro offset small
  have inOther := inPage_entryAddress otherAligned index small
  refine if_neg ?_
  intro equal
  exact different ((equal ▸ inOther).unique otherAligned aligned inside)

/-- The first word of a page, which holds the link of a free page, is its entry 0. -/
theorem read64_eq_entryAt (memory : Memory) (page : Word) :
    memory.read64 page = entryAt memory page 0 := by
  rw [entryAt, entryAddress]
  congr 1
  simp

@[simp] theorem child_zero : child 0 = none := rfl

theorem child_eq_none_iff {entry : Word} :
    child entry = none ↔ entry &&& presentBit = 0 := by
  constructor
  · intro vacant
    by_contra present
    rw [child, if_neg present] at vacant
    cases vacant
  · intro absent
    rw [child, if_pos absent]

theorem child_eq_some_iff {entry address : Word} :
    child entry = some address ↔
      entry &&& presentBit ≠ 0 ∧ entry &&& addressMask = address := by
  constructor
  · intro found
    rw [child] at found
    split at found
    · cases found
    next present => exact ⟨present, Option.some.inj found⟩
  · rintro ⟨present, rfl⟩
    rw [child, if_neg present]

end Lord84
