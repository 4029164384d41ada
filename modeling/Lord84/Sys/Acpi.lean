import Lord84.Lib.Support

/-!
# ACPI tables

A model of `find_acpi_table` of `src/sys/acpi.c`.  The firmware lists the physical addresses
of its tables in a root table, the RSDT with entries of four bytes or the XSDT with entries
of eight.  Both begin with a description header of 36 bytes, in which the length of the
whole table stands at offset 4.  `memory` is what the kernel reads through its pointers.
-/

namespace Lord84

open Theory

/-- `sizeof(desc_header_t)` -/
def descHeaderSize : Word := 36

/-- `table->header.length` -/
def tableLength (memory : Memory) (table : Word) : BitVec 32 :=
  memory.read32 (table + 4)

section FindTable

variable (hhdmoffset : Word) (memory : Memory) (xsdt rsdt : Word)

/-- `entries` of `find_acpi_table`: the number of addresses in the root table. -/
def rootEntries : Word :=
  if xsdt ≠ 0 then
    ((tableLength memory xsdt).setWidth 64 - descHeaderSize) / 8
  else
    ((tableLength memory rsdt).setWidth 64 - descHeaderSize) / 4

/-- `header` of `find_acpi_table`: an address of the root table. -/
def rootEntry (i : Nat) : Word :=
  if xsdt ≠ 0 then
    memory.read64 (xsdt + descHeaderSize + BitVec.ofNat 64 (8 * i))
  else
    (memory.read32 (rsdt + descHeaderSize + BitVec.ofNat 64 (4 * i))).setWidth 64

/-- `find_acpi_table`; `xsdt` and `rsdt` are the globals, and 0 is `NULL`. -/
def findAcpiTable (signature : Word) : Word :=
  match (List.range (rootEntries memory xsdt rsdt).toNat).find? fun i =>
      memcmp memory (rootEntry memory xsdt rsdt i + hhdmoffset) signature 4 = 0 with
  | some i => rootEntry memory xsdt rsdt i
  | none => 0

/-! ## Root tables -/

/-- The table holds the list of addresses as an RSDT. -/
structure EncodesRsdt (addresses : List Word) : Prop where
  length : (tableLength memory rsdt).toNat = 36 + 4 * addresses.length
  entries : ∀ i (inside : i < addresses.length),
    (memory.read32 (rsdt + 36 + BitVec.ofNat 64 (4 * i))).setWidth 64 = addresses[i]

/-- The table holds the list of addresses as an XSDT. -/
structure EncodesXsdt (addresses : List Word) : Prop where
  length : (tableLength memory xsdt).toNat = 36 + 8 * addresses.length
  entries : ∀ i (inside : i < addresses.length),
    memory.read64 (xsdt + 36 + BitVec.ofNat 64 (8 * i)) = addresses[i]

/-- The table at this physical address starts with the signature. -/
def HasSignature (signature address : Word) : Prop :=
  ∀ k < 4, memory (address + hhdmoffset + BitVec.ofNat 64 k) =
    memory (signature + BitVec.ofNat 64 k)

instance (signature address : Word) :
    Decidable (HasSignature hhdmoffset memory signature address) :=
  inferInstanceAs (Decidable (∀ k < 4, _))

/-- The address of the first table with the signature, or 0 if there is none. -/
def IsFirstTable (signature : Word) (addresses : List Word) (table : Word) : Prop :=
  (∃ before after, addresses = before ++ table :: after ∧
    HasSignature hhdmoffset memory signature table ∧
    ∀ address ∈ before, ¬ HasSignature hhdmoffset memory signature address) ∨
  table = 0 ∧ ∀ address ∈ addresses, ¬ HasSignature hhdmoffset memory signature address

end FindTable

section Correctness

variable {hhdmoffset : Word} {memory : Memory} {xsdt rsdt signature : Word}
  {addresses : List Word}

/-- The length behind the fixed part of a table; it wraps around if the table is shorter. -/
theorem toNat_length_sub (length : BitVec 32) (fixed : Word) :
    (length.setWidth 64 - fixed).toNat = (2 ^ 64 - fixed.toNat + length.toNat) % 2 ^ 64 := by
  rw [BitVec.toNat_sub, BitVec.toNat_setWidth_of_le (by decide)]

/-- A whole table is as long as its header says. -/
theorem toNat_div_entries {length : BitVec 32} {count width : Nat} {entry : Word}
    (total : length.toNat = 36 + width * count) (size : entry.toNat = width)
    (positive : 0 < width) :
    ((length.setWidth 64 - descHeaderSize) / entry).toNat = count := by
  have bound := length.isLt
  have header : descHeaderSize.toNat = 36 := rfl
  have bytes : (length.setWidth 64 - descHeaderSize).toNat = width * count := by
    rw [toNat_length_sub, header]
    omega
  rw [BitVec.toNat_udiv, bytes, size, Nat.mul_div_cancel_left count positive]

theorem EncodesRsdt.rootEntries (encodes : EncodesRsdt memory rsdt addresses) :
    (rootEntries memory 0 rsdt).toNat = addresses.length :=
  toNat_div_entries encodes.length rfl (by decide)

theorem EncodesXsdt.rootEntries (encodes : EncodesXsdt memory xsdt addresses)
    (used : xsdt ≠ 0) : (rootEntries memory xsdt rsdt).toNat = addresses.length := by
  rw [Lord84.rootEntries, if_pos used]
  exact toNat_div_entries encodes.length rfl (by decide)

/-- `find_acpi_table` goes through the addresses of the root table. -/
theorem findAcpiTable_eq (count : (rootEntries memory xsdt rsdt).toNat = addresses.length)
    (entries : ∀ i (inside : i < addresses.length), rootEntry memory xsdt rsdt i = addresses[i]) :
    findAcpiTable hhdmoffset memory xsdt rsdt signature =
      (addresses.find? fun address =>
        HasSignature hhdmoffset memory signature address).getD 0 := by
  have listed : addresses = (List.range addresses.length).map (rootEntry memory xsdt rsdt) := by
    apply List.ext_getElem
    · rw [List.length_map, List.length_range]
    · intro i inside _
      rw [List.getElem_map, List.getElem_range, entries i inside]
  have compare : ∀ address, memcmp memory (address + hhdmoffset) signature 4 = 0 ↔
      HasSignature hhdmoffset memory signature address :=
    fun address => memcmp_eq_zero_iff ..
  have search : addresses.find? (fun address =>
      HasSignature hhdmoffset memory signature address) =
      ((List.range addresses.length).find? fun i =>
        HasSignature hhdmoffset memory signature (rootEntry memory xsdt rsdt i)).map
          (rootEntry memory xsdt rsdt) := by
    conv_lhs => rw [listed, List.find?_map]
    rfl
  simp only [findAcpiTable, count, compare, search]
  cases (List.range addresses.length).find? fun i =>
      HasSignature hhdmoffset memory signature (rootEntry memory xsdt rsdt i) with
  | none => rfl
  | some i => rfl

/-- What a search through the addresses finds. -/
theorem isFirstTable_find (nonzero : ∀ address ∈ addresses, address ≠ 0) {table : Word}
    (search : (addresses.find? fun address =>
      HasSignature hhdmoffset memory signature address).getD 0 = table) :
    IsFirstTable hhdmoffset memory signature addresses table ∧
      (table = 0 ↔ ∀ address ∈ addresses, ¬ HasSignature hhdmoffset memory signature address) := by
  cases found : addresses.find? fun address =>
      HasSignature hhdmoffset memory signature address with
  | none =>
      have missing : ∀ address ∈ addresses,
          ¬ HasSignature hhdmoffset memory signature address := by
        intro address member
        simpa using List.find?_eq_none.mp found address member
      have null : table = 0 := by
        rw [← search, found]
        rfl
      exact ⟨Or.inr ⟨null, missing⟩, iff_of_true null missing⟩
  | some first =>
      have same : first = table := by
        rw [← search, found]
        rfl
      subst same
      obtain ⟨here, before, after, split, earlier⟩ := List.find?_eq_some_iff_append.mp found
      have signed : HasSignature hhdmoffset memory signature first := of_decide_eq_true here
      have member : first ∈ addresses := List.mem_of_find?_eq_some found
      constructor
      · left
        refine ⟨before, after, split, signed, ?_⟩
        intro address passed
        simpa using earlier address passed
      · exact iff_of_false (nonzero first member) (fun missing => missing first member signed)

end Correctness

/-- `find_acpi_table` returns the first table with the signature, and the same one whichever
root table lists the addresses. -/
theorem find_acpi_table_first (hhdmoffset : Word) (memory : Memory) (signature : Word)
    {addresses : List Word} (nonzero : ∀ address ∈ addresses, address ≠ 0) :
    ∃ table,
      (∀ rsdt, EncodesRsdt memory rsdt addresses →
        findAcpiTable hhdmoffset memory 0 rsdt signature = table) ∧
      (∀ xsdt rsdt, xsdt ≠ 0 → EncodesXsdt memory xsdt addresses →
        findAcpiTable hhdmoffset memory xsdt rsdt signature = table) ∧
      IsFirstTable hhdmoffset memory signature addresses table ∧
      (table = 0 ↔ ∀ address ∈ addresses, ¬ HasSignature hhdmoffset memory signature address) := by
  refine ⟨_, ?_, ?_, isFirstTable_find nonzero rfl⟩
  · intro rsdt encodes
    exact findAcpiTable_eq encodes.rootEntries encodes.entries
  · intro xsdt rsdt used encodes
    apply findAcpiTable_eq (encodes.rootEntries used)
    intro i inside
    rw [rootEntry, if_pos used]
    exact encodes.entries i inside

/-- An RSDT at `0x1000` and an XSDT at `0x2000` that list the tables at `0x3000` and `0x5000`,
the second of which starts with the signature at `0x4000`. -/
def twoRootTables : Memory :=
  [(0x1004, 4, 44), (0x1024, 4, 0x3000), (0x1028, 4, 0x5000), (0x2004, 4, 52),
    (0x2024, 8, 0x3000), (0x202c, 8, 0x5000), (0x3000, 4, 0x50434146), (0x5000, 4, 0x43495041),
    (0x4000, 4, 0x43495041)].foldl
      (fun memory (write : Word × Nat × Nat) => memory.writeLE write.1 write.2.1 write.2.2)
      fun _ => 0

/-- Both root tables lead to the second table. -/
theorem find_acpi_table_second :
    findAcpiTable 0 twoRootTables 0 0x1000 0x4000 = 0x5000 ∧
      findAcpiTable 0 twoRootTables 0x2000 0 0x4000 = 0x5000 := by
  obtain ⟨table, inRsdt, inXsdt, -⟩ :=
    @find_acpi_table_first 0 twoRootTables 0x4000 [0x3000, 0x5000] (by simp)
  have rsdt : EncodesRsdt twoRootTables 0x1000 [0x3000, 0x5000] :=
    ⟨by decide +kernel, by decide +kernel⟩
  have xsdt : EncodesXsdt twoRootTables 0x2000 [0x3000, 0x5000] :=
    ⟨by decide +kernel, by decide +kernel⟩
  have found : findAcpiTable 0 twoRootTables 0 0x1000 0x4000 = 0x5000 := by decide +kernel
  have same : table = 0x5000 := (inRsdt 0x1000 rsdt).symm.trans found
  exact ⟨found, (inXsdt 0x2000 0 (by decide) xsdt).trans same⟩

end Lord84
