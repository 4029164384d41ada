import Lord84.Mm.KernelMap
import Lord84.Mm.VmmRange

/-!
# The pages of the root table of ACPI

The last loop of `vmm_init` maps `length / PAGE_SIZE + 1` pages from the address of the table
on, which need not be the start of a page, and it ors that address with the flags.  The loop
covers the table if the first page and the last one together hold no more than a page of it,
and its entries are clean if the address has no bits of its own among the flags.
-/

namespace Lord84

open Theory

namespace BootInfo

variable (info : BootInfo)

/-- The calls of `vmm_map_page` that `vmm_init` makes before the last loop. -/
def earlierMappings : List Mapping :=
  info.memmap.entries.flatMap info.entryMappings ++ (info.textMappings ++
    (info.rodataMappings ++ (info.dataMappings ++ [info.lapicMapping])))

/-- Call `i` of the last loop. -/
def tableMapping (table : AcpiTable) (i : Nat) : Mapping where
  virtAddr := table.address + BitVec.ofNat 64 i * pageSize
  physAddr := table.address - info.hhdmoffset + BitVec.ofNat 64 i * pageSize
  flags := pteBitPresent ||| pteBitRw ||| pteBitNx

/-- Every byte of the table is translated to its own physical address, and the entries that
the loop has written carry its flags and nothing else beside a frame. -/
structure RootTableMapped (table : AcpiTable) (final : MmState) : Prop where
  covered : ∀ k < table.length.toNat,
    TranslatesTo final.memory (info.root final) (table.address + BitVec.ofNat 64 k)
      (table.address + BitVec.ofNat 64 k - info.hhdmoffset)
  clean : ∀ i ≤ table.length.toNat / blockSize, ∃ entry,
    translate final.memory (info.root final) (table.address + BitVec.ofNat 64 i * pageSize) =
      some entry ∧
    entry &&& ~~~addressMask = pteBitPresent ||| pteBitRw ||| pteBitNx

/-- The calls before the last loop map the byte to its own physical address. -/
def MappedEarlier (virtAddr : Word) : Prop :=
  ∃ mapping, lastMapping info.earlierMappings (virtualPage virtAddr) = some mapping ∧
    (mapping.entry &&& addressMask) + (virtAddr &&& 0xfff) = virtAddr - info.hhdmoffset

/-- The pages of the loop are physical ones, the address has no bits but the two lowest in
its page, and the last byte is on a page of the loop or has been mapped before. -/
structure RootTableFits (table : AcpiTable) : Prop where
  physical : (table.address - info.hhdmoffset).toNat +
    table.length.toNat / blockSize * blockSize < 2 ^ 52
  low : (table.address - info.hhdmoffset).toNat % blockSize ≤ 3
  last : (table.address - info.hhdmoffset).toNat % blockSize +
      table.length.toNat % blockSize ≤ blockSize ∨
    info.MappedEarlier (table.address + BitVec.ofNat 64 (table.length.toNat - 1))

end BootInfo

/-! ## Bits of an entry -/

/-- An entry of the loop is clean exactly if its address is a physical one and has no bits but
the two lowest in its page. -/
theorem clean_entry_iff {physAddr : Word} (small : physAddr.toNat < 2 ^ 53) :
    (physAddr ||| (pteBitPresent ||| pteBitRw ||| pteBitNx)) &&& ~~~addressMask =
        pteBitPresent ||| pteBitRw ||| pteBitNx ↔
      physAddr.toNat < 2 ^ 52 ∧ physAddr.toNat % blockSize ≤ 3 := by
  have stray : ∀ i < 64, (2 ≤ i ∧ i < 12) ∨ i = 52 →
      (~~~addressMask).getLsbD i = true ∧
        (pteBitPresent ||| pteBitRw ||| pteBitNx).getLsbD i = false := by
    decide
  have kept : ∀ i < 64, i < 2 ∨ (12 ≤ i ∧ i < 52) →
      (~~~addressMask).getLsbD i = (pteBitPresent ||| pteBitRw ||| pteBitNx).getLsbD i := by
    decide
  have flags : (pteBitPresent ||| pteBitRw ||| pteBitNx) &&& ~~~addressMask =
      pteBitPresent ||| pteBitRw ||| pteBitNx := by
    decide
  have high : ∀ bits, physAddr.toNat < 2 ^ bits → ∀ i ≥ bits, physAddr.getLsbD i = false :=
    fun bits below i above =>
      Nat.testBit_lt_two_pow (Nat.lt_of_lt_of_le below (Nat.pow_le_pow_right (by decide) above))
  have low : ∀ i < 12, (physAddr.toNat % 2 ^ 12).testBit i = physAddr.getLsbD i := by
    intro i inside
    rw [Nat.testBit_mod_two_pow, decide_eq_true inside, Bool.true_and]
    rfl
  constructor
  · intro clean
    have zero : ∀ i < 64, (2 ≤ i ∧ i < 12) ∨ i = 52 → physAddr.getLsbD i = false := by
      intro i bound here
      obtain ⟨outside, unset⟩ := stray i bound here
      have bit := congrArg (fun word : Word => word.getLsbD i) clean
      simpa [outside, unset] using bit
    constructor
    · apply Nat.lt_pow_two_of_testBit
      intro i above
      rcases Nat.eq_or_lt_of_le above with here | above
      · exact zero i (by omega) (Or.inr here.symm)
      · exact high 53 small i above
    · have lowest : physAddr.toNat % 2 ^ 12 < 2 ^ 2 := by
        apply Nat.lt_pow_two_of_testBit
        intro i above
        by_cases inside : i < 12
        · rw [low i inside]
          exact zero i (by omega) (Or.inl ⟨above, inside⟩)
        · rw [Nat.testBit_mod_two_pow, decide_eq_false inside, Bool.false_and]
      simp only [blockSize]
      omega
  · rintro ⟨below, lowest⟩
    have lowest : physAddr.toNat % 2 ^ 12 < 2 ^ 2 := Nat.lt_succ_of_le lowest
    rw [BitVec.and_or_distrib_right, flags]
    apply BitVec.eq_of_getLsbD_eq
    intro i bound
    rw [BitVec.getLsbD_or, BitVec.getLsbD_and]
    by_cases here : i < 2 ∨ (12 ≤ i ∧ i < 52)
    · rw [kept i bound here]
      cases (pteBitPresent ||| pteBitRw ||| pteBitNx).getLsbD i
      · rw [Bool.and_false, Bool.false_or]
      · rw [Bool.or_true]
    · have absent : physAddr.getLsbD i = false := by
        by_cases inside : i < 12
        · rw [← low i inside]
          exact Nat.testBit_lt_two_pow
            (Nat.lt_of_lt_of_le lowest (Nat.pow_le_pow_right (by decide) (by omega)))
        · exact high 52 below i (by omega)
      rw [absent, Bool.false_and, Bool.false_or]

/-- Frame and offset make up a physical address. -/
theorem frame_add_offset {physAddr : Word} (small : physAddr.toNat < 2 ^ 52) :
    (physAddr &&& addressMask) + (physAddr &&& 0xfff) = physAddr := by
  have apart : (physAddr &&& addressMask) &&& (physAddr &&& 0xfff) = 0 := by
    rw [BitVec.and_comm physAddr 0xfff, BitVec.and_assoc, ← BitVec.and_assoc addressMask,
      show addressMask &&& 0xfff = 0 by decide]
    exact (congrArg (physAddr &&& ·) BitVec.zero_and).trans BitVec.and_zero
  rw [BitVec.add_eq_or_of_and_eq_zero _ _ apart, ← BitVec.and_or_distrib_left]
  apply BitVec.eq_of_toNat_eq
  rw [BitVec.toNat_and, show (addressMask ||| 0xfff).toNat = 2 ^ 52 - 1 by decide,
    Nat.and_two_pow_sub_one_eq_mod]
  exact Nat.mod_eq_of_lt small

/-- Only the number of its page matters for where an address is found. -/
theorem offset_of_samePage {frame hhdmoffset left right : Word}
    (samePage : left.toNat / blockSize = right.toNat / blockSize)
    (found : frame + (left &&& 0xfff) = left - hhdmoffset) :
    frame + (right &&& 0xfff) = right - hhdmoffset := by
  have base : left - (left &&& 0xfff) = right - (right &&& 0xfff) := by
    apply BitVec.eq_of_toNat_eq
    rw [BitVec.toNat_sub, BitVec.toNat_sub, toNat_and_offset, toNat_and_offset]
    simp only [blockSize] at samePage ⊢
    omega
  calc frame + (right &&& 0xfff)
      = left - (left &&& 0xfff) - hhdmoffset + (right &&& 0xfff) := by
        rw [eq_sub_of_add_eq found, sub_right_comm]
    _ = right - hhdmoffset := by
        rw [base, sub_right_comm, sub_add_cancel]

namespace BootInfo

variable {info : BootInfo} {table : AcpiTable} {memory : Memory} {final : MmState}

theorem mappings_eq : info.mappings = info.earlierMappings ++ info.acpiMappings := by
  simp only [mappings, kernelMappings, earlierMappings, List.append_assoc, List.cons_append,
    List.nil_append]

theorem acpiMappings_eq (found : info.acpiTable = some table) :
    info.acpiMappings =
      (List.range (table.length.toNat / blockSize + 1)).map (info.tableMapping table) := by
  rw [acpiMappings, found]
  rfl

/-! ## The pages of the loop -/

/-- The page of the loop on which byte `k` of the table is. -/
def pageOf (table : AcpiTable) (k : Nat) : Nat :=
  (table.address.toNat % blockSize + k) / blockSize

theorem pageOf_mono {i k : Nat} (before : i ≤ k) : pageOf table i ≤ pageOf table k :=
  Nat.div_le_div_right (Nat.add_le_add_left before _)

/-- The length has 32 bits. -/
theorem tablePages_le {i : Nat} (inside : i ≤ table.length.toNat / blockSize) : i ≤ 2 ^ 20 := by
  have length := table.length.isLt
  simp only [blockSize] at inside
  omega

theorem tableMapping_virtAddr (table : AcpiTable) (i : Nat) :
    (info.tableMapping table i).virtAddr = table.address + BitVec.ofNat 64 (i * blockSize) := by
  rw [tableMapping, BitVec.ofNat_mul]
  rfl

theorem tableMapping_physAddr (table : AcpiTable) (i : Nat) :
    (info.tableMapping table i).physAddr =
      table.address - info.hhdmoffset + BitVec.ofNat 64 (i * blockSize) := by
  rw [tableMapping, BitVec.ofNat_mul]
  rfl

/-- The calls of the loop are for different pages. -/
theorem virtualPage_tableMapping {i k : Nat} (pages : i ≤ 2 ^ 20) (bytes : k < 2 ^ 32) :
    virtualPage (info.tableMapping table i).virtAddr =
        virtualPage (table.address + BitVec.ofNat 64 k) ↔ i = pageOf table k := by
  have bound := table.address.isLt
  rw [tableMapping_virtAddr, ← BitVec.toNat_inj]
  simp only [virtualPage, pageOf, blockSize, BitVec.extractLsb'_toNat, BitVec.toNat_add,
    BitVec.toNat_ofNat, Nat.shiftRight_eq_div_pow]
  omega

/-- The last call for a byte of the table is the one of the loop, if there is one. -/
theorem lastMapping_table (found : info.acpiTable = some table) {k : Nat} (bytes : k < 2 ^ 32) :
    lastMapping info.mappings (virtualPage (table.address + BitVec.ofNat 64 k)) =
      if pageOf table k ≤ table.length.toNat / blockSize then
        some (info.tableMapping table (pageOf table k))
      else lastMapping info.earlierMappings
        (virtualPage (table.address + BitVec.ofNat 64 k)) := by
  rw [mappings_eq, lastMapping_append, acpiMappings_eq found]
  split
  next inside =>
    have member : info.tableMapping table (pageOf table k) ∈
        (List.range (table.length.toNat / blockSize + 1)).map (info.tableMapping table) :=
      List.mem_map_of_mem (List.mem_range.mpr (Nat.lt_succ_of_le inside))
    obtain ⟨last, isLast⟩ := exists_lastMapping member
    rw [(virtualPage_tableMapping (tablePages_le inside) bytes).mpr rfl] at isLast
    obtain ⟨listed, here⟩ := lastMapping_eq_some isLast
    obtain ⟨i, counted, rfl⟩ := List.mem_map.mp listed
    have visited := tablePages_le (Nat.le_of_lt_succ (List.mem_range.mp counted))
    rw [isLast, Option.some_or, (virtualPage_tableMapping visited bytes).mp here]
  next outside =>
    cases isLast : lastMapping ((List.range (table.length.toNat / blockSize + 1)).map
        (info.tableMapping table)) (virtualPage (table.address + BitVec.ofNat 64 k)) with
    | none => rw [Option.none_or]
    | some last =>
        obtain ⟨listed, here⟩ := lastMapping_eq_some isLast
        obtain ⟨i, counted, rfl⟩ := List.mem_map.mp listed
        have visited := Nat.le_of_lt_succ (List.mem_range.mp counted)
        rw [virtualPage_tableMapping (tablePages_le visited) bytes] at here
        exact absurd (here ▸ visited) outside

/-- The translation of a byte of the table when `vmm_init` has returned. -/
theorem Booted.translate_table (booted : info.Booted final) (found : info.acpiTable = some table)
    {k : Nat} (bytes : k < 2 ^ 32) :
    Lord84.translate final.memory (info.root final) (table.address + BitVec.ofNat 64 k) =
      if pageOf table k ≤ table.length.toNat / blockSize then
        some (info.tableMapping table (pageOf table k)).entry
      else (lastMapping info.earlierMappings
        (virtualPage (table.address + BitVec.ofNat 64 k))).map Mapping.entry := by
  rw [booted.translate, lastMapping_table found bytes]
  split
  · rfl
  · rfl

/-- The loop has written the entries at its addresses. -/
theorem Booted.translate_tableMapping (booted : info.Booted final)
    (found : info.acpiTable = some table) {i : Nat}
    (inside : i ≤ table.length.toNat / blockSize) :
    Lord84.translate final.memory (info.root final)
        (table.address + BitVec.ofNat 64 i * pageSize) =
      some (info.tableMapping table i).entry := by
  have length := table.length.isLt
  have small : i * blockSize < 2 ^ 32 := by
    simp only [blockSize] at inside ⊢
    omega
  have own : pageOf table (i * blockSize) = i := by
    simp only [pageOf, blockSize]
    omega
  have address : table.address + BitVec.ofNat 64 i * pageSize =
      table.address + BitVec.ofNat 64 (i * blockSize) := by
    rw [BitVec.ofNat_mul]
    rfl
  rw [address, booted.translate_table found small, own, if_pos inside]

/-- The direct map keeps the place of the table in its first page. -/
theorem offset_of_address (aligned : PageAligned info.hhdmoffset) :
    table.address.toNat % blockSize = (table.address - info.hhdmoffset).toNat % blockSize := by
  rw [BitVec.toNat_sub]
  simp only [PageAligned, blockSize] at aligned ⊢
  omega

/-- The frames of the loop follow one another. -/
theorem toNat_physAddr (physical : (table.address - info.hhdmoffset).toNat < 2 ^ 52) {i : Nat}
    (few : i ≤ 2 ^ 20) :
    (info.tableMapping table i).physAddr.toNat =
      (table.address - info.hhdmoffset).toNat + i * blockSize := by
  rw [tableMapping_physAddr, BitVec.toNat_add, BitVec.toNat_ofNat]
  simp only [blockSize]
  omega

/-- The entries of the loop are clean if the last one is. -/
theorem clean_tableMapping_iff (physical : (table.address - info.hhdmoffset).toNat < 2 ^ 52)
    {i : Nat} (few : i ≤ 2 ^ 20) :
    (info.tableMapping table i).entry &&& ~~~addressMask =
        pteBitPresent ||| pteBitRw ||| pteBitNx ↔
      (table.address - info.hhdmoffset).toNat + i * blockSize < 2 ^ 52 ∧
        (table.address - info.hhdmoffset).toNat % blockSize ≤ 3 := by
  have address := toNat_physAddr physical few
  have small : (info.tableMapping table i).physAddr.toNat < 2 ^ 53 := by
    simp only [blockSize] at address
    omega
  refine (clean_entry_iff small).trans ?_
  rw [address, Nat.add_mul_mod_self_right]

/-- A byte on a page of the loop is translated to its own physical address. -/
theorem tableMapping_translates (aligned : PageAligned info.hhdmoffset)
    (physical : (table.address - info.hhdmoffset).toNat < 2 ^ 52) {k : Nat}
    (few : pageOf table k ≤ 2 ^ 20)
    (below : (table.address - info.hhdmoffset).toNat + pageOf table k * blockSize < 2 ^ 52) :
    ((info.tableMapping table (pageOf table k)).entry &&& addressMask) +
        (table.address + BitVec.ofNat 64 k &&& 0xfff) =
      table.address + BitVec.ofNat 64 k - info.hhdmoffset := by
  have frame : (info.tableMapping table (pageOf table k)).entry &&& addressMask =
      (info.tableMapping table (pageOf table k)).physAddr &&& addressMask := by
    have noAddress : (info.tableMapping table (pageOf table k)).flags &&& addressMask = 0 := by
      exact (by decide : (pteBitPresent ||| pteBitRw ||| pteBitNx) &&& addressMask = 0)
    rw [Mapping.entry, BitVec.and_or_distrib_right, noAddress]
    exact BitVec.or_zero
  have shown : (info.tableMapping table (pageOf table k)).physAddr =
      (info.tableMapping table (pageOf table k)).virtAddr - info.hhdmoffset := by
    rw [tableMapping, sub_add_eq_add_sub]
  have sameOffset : (info.tableMapping table (pageOf table k)).virtAddr &&& 0xfff =
      (info.tableMapping table (pageOf table k)).physAddr &&& 0xfff := by
    apply BitVec.eq_of_toNat_eq
    rw [toNat_and_offset, toNat_and_offset, shown, BitVec.toNat_sub]
    simp only [PageAligned, blockSize] at aligned ⊢
    omega
  have small : (info.tableMapping table (pageOf table k)).physAddr.toNat < 2 ^ 52 := by
    rw [toNat_physAddr physical few]
    exact below
  rw [frame]
  refine @offset_of_samePage _ _ (info.tableMapping table (pageOf table k)).virtAddr _ ?_ ?_
  · have bound := table.address.isLt
    rw [tableMapping_virtAddr]
    simp only [pageOf, blockSize, BitVec.toNat_add, BitVec.toNat_ofNat]
    omega
  · rw [sameOffset, frame_add_offset small, shown]

/-- The length of the table decides whether the loop reaches its last byte. -/
theorem pageOf_last_iff (aligned : PageAligned info.hhdmoffset) :
    pageOf table (table.length.toNat - 1) ≤ table.length.toNat / blockSize ↔
      (table.address - info.hhdmoffset).toNat % blockSize +
        table.length.toNat % blockSize ≤ blockSize := by
  have offset := @offset_of_address info table aligned
  rw [pageOf, offset]
  simp only [blockSize]
  omega

/-- The bytes behind the loop are all on the page of the last one. -/
theorem samePage_of_outside {k : Nat} (inside : k < table.length.toNat)
    (outside : table.length.toNat / blockSize < pageOf table k) :
    (table.address + BitVec.ofNat 64 k).toNat / blockSize =
      (table.address + BitVec.ofNat 64 (table.length.toNat - 1)).toNat / blockSize := by
  have length := table.length.isLt
  have bound := table.address.isLt
  simp only [pageOf, blockSize] at outside
  simp only [blockSize, BitVec.toNat_add, BitVec.toNat_ofNat]
  omega

theorem MappedEarlier.of_samePage {left right : Word} (mapped : info.MappedEarlier left)
    (samePage : left.toNat / blockSize = right.toNat / blockSize) : info.MappedEarlier right := by
  obtain ⟨mapping, last, found⟩ := mapped
  have same : virtualPage left = virtualPage right := by
    apply BitVec.eq_of_toNat_eq
    simp only [virtualPage, BitVec.extractLsb'_toNat, Nat.shiftRight_eq_div_pow]
    simp only [blockSize] at samePage
    omega
  exact ⟨mapping, same ▸ last, offset_of_samePage samePage found⟩

/-- Behind the loop the earlier calls decide. -/
theorem Booted.translatesTo_outside_iff (booted : info.Booted final)
    (found : info.acpiTable = some table) {k : Nat} (bytes : k < 2 ^ 32)
    (outside : ¬ pageOf table k ≤ table.length.toNat / blockSize) :
    TranslatesTo final.memory (info.root final) (table.address + BitVec.ofNat 64 k)
        (table.address + BitVec.ofNat 64 k - info.hhdmoffset) ↔
      info.MappedEarlier (table.address + BitVec.ofNat 64 k) := by
  rw [TranslatesTo, booted.translate_table found bytes, if_neg outside, MappedEarlier]
  constructor
  · rintro ⟨entry, mapped, here⟩
    obtain ⟨mapping, last, rfl⟩ := Option.map_eq_some_iff.mp mapped
    exact ⟨mapping, last, here⟩
  · rintro ⟨mapping, last, here⟩
    exact ⟨mapping.entry, Option.map_eq_some_iff.mpr ⟨mapping, last, rfl⟩, here⟩

end BootInfo

/-- The last loop of `vmm_init` covers the table with clean entries exactly if its pages are
physical ones, the address has no bits but the two lowest in its page, and the last byte is on a
page of the loop or has been mapped before. -/
theorem root_table_mapped_iff {info : BootInfo} {table : AcpiTable} {memory : Memory}
    {final : MmState} (usableSmall : info.UsableBelow (2 ^ 52))
    (aligned : PageAligned info.hhdmoffset) (found : info.acpiTable = some table)
    (physical : (table.address - info.hhdmoffset).toNat < 2 ^ 52)
    (finished : info.boot memory = .done final) :
    info.RootTableMapped table final ↔ info.RootTableFits table := by
  have booted := BootInfo.boot_spec usableSmall finished
  have length := table.length.isLt
  constructor
  · intro mapped
    obtain ⟨entry, last, clean⟩ := mapped.clean _ le_rfl
    rw [booted.translate_tableMapping found le_rfl, Option.some.injEq] at last
    rw [← last, BootInfo.clean_tableMapping_iff physical (BootInfo.tablePages_le le_rfl)] at clean
    refine ⟨clean.1, clean.2, ?_⟩
    rw [← BootInfo.pageOf_last_iff aligned]
    by_cases inside : BootInfo.pageOf table (table.length.toNat - 1) ≤
        table.length.toNat / blockSize
    · exact Or.inl inside
    · have nonempty : table.length.toNat ≠ 0 := by
        intro empty
        simp only [BootInfo.pageOf, blockSize] at inside
        omega
      refine Or.inr ?_
      rw [← booted.translatesTo_outside_iff found (by omega) inside]
      exact mapped.covered _ (by omega)
  · intro fits
    constructor
    · intro k below
      by_cases inside : BootInfo.pageOf table k ≤ table.length.toNat / blockSize
      · refine ⟨(info.tableMapping table (BootInfo.pageOf table k)).entry, ?_, ?_⟩
        · rw [booted.translate_table found (by omega), if_pos inside]
        · have pages := Nat.mul_le_mul_right blockSize inside
          have reach := fits.physical
          exact BootInfo.tableMapping_translates aligned physical
            (BootInfo.tablePages_le inside) (by omega)
      · rw [booted.translatesTo_outside_iff found (by omega) inside]
        have samePage := BootInfo.samePage_of_outside below (Nat.lt_of_not_le inside)
        rcases fits.last with short | earlier
        · rw [← BootInfo.pageOf_last_iff aligned] at short
          exact absurd ((BootInfo.pageOf_mono (by omega)).trans short) inside
        · exact earlier.of_samePage samePage.symm
    · intro i inside
      refine ⟨_, booted.translate_tableMapping found inside, ?_⟩
      have pages := Nat.mul_le_mul_right blockSize inside
      have reach := fits.physical
      exact (BootInfo.clean_tableMapping_iff physical (BootInfo.tablePages_le inside)).mpr
        ⟨by omega, fits.low⟩

/-- The table of the small machine starts on a page. -/
theorem root_table_mapped_higherHalf : ∃ final,
    (smallMachine 0xffffffff80000000 ⟨0x200000, 0xffffffff80000000⟩).boot (fun _ => 0) =
      .done final ∧
    (smallMachine 0xffffffff80000000 ⟨0x200000, 0xffffffff80000000⟩).RootTableMapped
      ⟨0xffff80000010b000, 0x54⟩ final := by
  obtain ⟨final, finished⟩ := higherHalf_boots
  have fits : (smallMachine 0xffffffff80000000
      ⟨0x200000, 0xffffffff80000000⟩).RootTableFits ⟨0xffff80000010b000, 0x54⟩ := by
    refine ⟨?_, ?_, Or.inl ?_⟩ <;> simp [smallMachine, blockSize]
  exact ⟨final, finished, (root_table_mapped_iff (smallMachine_usableBelow _ (by decide))
    (by decide) rfl (by decide) finished).mpr fits⟩

/-- The same machine with the table 20 bytes behind the start of its page. -/
def offsetTableMachine : BootInfo :=
  { smallMachine 0xffffffff80000000 ⟨0x200000, 0xffffffff80000000⟩ with
    xsdt := some ⟨0xffff80000010b014, 0x54⟩ }

theorem offsetTableMachine_boots : ∃ final,
    offsetTableMachine.boot (fun _ => 0) = .done final := by
  refine @boots_of_smallMemmap offsetTableMachine (tablePath 0xffff800000100000)
    (tablePath 0xffffffff80000000) (tablePath 0xffff8000fee00000) rfl rfl _
    ⟨by decide +kernel, ?_⟩ ⟨by decide +kernel, ?_⟩ ⟨by decide +kernel, ?_⟩ ?_ (by decide +kernel)
  all_goals simp [offsetTableMachine, smallMachine, BootInfo.acpiTable]

/-- There the offset gets into the entry. -/
theorem root_table_entry_stray :
    ¬ ∀ (info : BootInfo) (table : AcpiTable) (memory : Memory) (final : MmState),
      info.UsableBelow (2 ^ 52) → PageAligned info.hhdmoffset → info.acpiTable = some table →
      (table.address - info.hhdmoffset).toNat < 2 ^ 52 → info.boot memory = .done final →
      info.RootTableMapped table final := by
  intro claimed
  obtain ⟨final, finished⟩ := offsetTableMachine_boots
  have small := @usableBelow_of_smallMemmap offsetTableMachine rfl (2 ^ 52) (by decide)
  have mapped := claimed offsetTableMachine ⟨0xffff80000010b014, 0x54⟩ _ final small (by decide)
    rfl (by decide) finished
  obtain ⟨entry, first, clean⟩ := mapped.clean 0 (Nat.zero_le _)
  rw [(BootInfo.boot_spec small finished).translate_tableMapping rfl (Nat.zero_le _),
    Option.some.injEq] at first
  rw [← first] at clean
  exact absurd clean (by decide)

end Lord84
