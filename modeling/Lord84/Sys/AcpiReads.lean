import Lord84.Sys.AcpiMadt
import Lord84.Sys.Pci
import Lord84.Theory.Reads

/-!
# What the scans of ACPI tables read

The functions that go through tables of the firmware, once more as programs that record the
bytes they read: `find_acpi_table`, `find_ics` and `find_iso` of `src/sys/acpi.c`, and
`parse_conf_space` of `src/sys/pci.c`.  A place is the offset of a byte from the start of the
table that is scanned; the strings that `find_acpi_table` compares are not part of it.
Without the record the functions are the ones that they are elsewhere.
-/

namespace Lord84

open Theory

/-- The places of the bytes from `offset` on. -/
def bytesFrom (offset : Word) (count : Nat) : List Word :=
  (List.range count).map fun k => offset + BitVec.ofNat 64 k

/-- A field of `width` bits in the table. -/
def tableField (width : Nat) (memory : Memory) (table offset : Word) :
    Traced Word (BitVec width) where
  value := BitVec.ofNat width (memory.readLE (table + offset) (width / 8))
  reads := bytesFrom offset (width / 8)

section RootTable

variable (hhdmoffset : Word) (memory : Memory) (xsdt rsdt : Word)

/-- The root table that `find_acpi_table` scans. -/
def rootTable : Word :=
  if xsdt ≠ 0 then xsdt else rsdt

/-- `entries` of `find_acpi_table` -/
def rootEntriesRead : Traced Word Word :=
  if xsdt ≠ 0 then do
    let length ← tableField 32 memory xsdt 4
    return (length.setWidth 64 - descHeaderSize) / 8
  else do
    let length ← tableField 32 memory rsdt 4
    return (length.setWidth 64 - descHeaderSize) / 4

/-- `header` of `find_acpi_table` -/
def rootEntryRead (i : Nat) : Traced Word Word :=
  if xsdt ≠ 0 then
    tableField 64 memory xsdt (descHeaderSize + BitVec.ofNat 64 (8 * i))
  else do
    let header ← tableField 32 memory rsdt (descHeaderSize + BitVec.ofNat 64 (4 * i))
    return header.setWidth 64

/-- `find_acpi_table` -/
def findAcpiTableRead (signature : Word) : Traced Word Word := do
  let entries ← rootEntriesRead memory xsdt rsdt
  let found ← (List.range entries.toNat).findSomeM? fun i => do
    let header ← rootEntryRead memory xsdt rsdt i
    return if memcmp memory (header + hhdmoffset) signature 4 = 0 then some header else none
  return found.getD 0

end RootTable

section Madt

variable (memory : Memory) (madt : Word)

/-- An iteration of `find_ics` and of `find_iso`; `found` is given the place of a structure. -/
def walkIcsRead {β : Type} (found : Word → Traced Word (Option β)) (missing : β)
    (length i : Word) : Traced Word (Word ⊕ β) :=
  if i < length then do
    match ← found (descHeaderSize + 8 + i) with
    | some result => return .inr result
    | none => do
        let size ← tableField 8 memory madt (descHeaderSize + 8 + i + 1)
        return .inl (i + size.setWidth 64)
  else
    return .inr missing

/-- What `find_ics` returns at a structure. -/
def matchIcsRead (type header : Word) : Traced Word (Option Word) := do
  let headerType ← tableField 8 memory madt header
  return if headerType.setWidth 64 = type then some (madt + header) else none

/-- `find_ics` -/
def findIcsRead (type : Word) (fuel : Nat) : Traced Word (Option Word) := do
  let length ← tableField 32 memory madt 4
  Traced.loop (walkIcsRead memory madt (matchIcsRead memory madt type) 0
    (length.setWidth 64 - descHeaderSize - 8)) fuel 0

/-- What `find_iso` returns at a structure. -/
def matchIsoRead (legacy : Byte) (header : Word) : Traced Word (Option (BitVec 32)) := do
  let headerType ← tableField 8 memory madt header
  if headerType = 2 then
    let source ← tableField 8 memory madt (header + 3)
    if legacy = source then
      let gsi ← tableField 32 memory madt (header + 4)
      return some gsi
    else
      return none
  else
    return none

/-- `find_iso` -/
def findIsoRead (legacy : Byte) (fuel : Nat) : Traced Word (Option (BitVec 32)) := do
  let length ← tableField 32 memory madt 4
  Traced.loop (walkIcsRead memory madt (matchIsoRead memory madt legacy) (legacy.setWidth 32)
    (length.setWidth 64 - descHeaderSize - 8)) fuel 0

end Madt

section Mcfg

variable (hhdmoffset : Word) (memory : Memory) (mcfg : Word)

/-- `mcfg->conf_spaces[i]`, copied as a whole. -/
def confSpaceRead (i : Nat) : Traced Word ConfSpace := do
  let entry := descHeaderSize + 8 + BitVec.ofNat 64 (16 * i)
  let baseEcm ← tableField 64 memory mcfg entry
  let pciSegGroup ← tableField 16 memory mcfg (entry + 8)
  let startPciNum ← tableField 8 memory mcfg (entry + 10)
  let endPciNum ← tableField 8 memory mcfg (entry + 11)
  let _ ← tableField 32 memory mcfg (entry + 12)
  return { baseEcm, pciSegGroup, startPciNum, endPciNum }

/-- `parse_conf_space` -/
def parseConfSpaceRead (s : PciState) : Traced Word PciState := do
  let length ← tableField 32 memory mcfg 4
  let num := (length.setWidth 64 - descHeaderSize) / 16
  (List.range num.toNat).foldlM (fun s i => do
    let header ← confSpaceRead memory mcfg i
    return s.useConfSpace hhdmoffset header) s

end Mcfg

/-! ## Without the record -/

section Values

variable {hhdmoffset : Word} {memory : Memory} {xsdt rsdt madt mcfg : Word}

@[simp] theorem value_tableField_byte (memory : Memory) (table offset : Word) :
    (tableField 8 memory table offset).value = memory (table + offset) := by
  simp [tableField, Memory.readLE]

@[simp] theorem value_tableField_word (memory : Memory) (table offset : Word) :
    (tableField 64 memory table offset).value = memory.read64 (table + offset) := by
  simp [tableField, Memory.read64]

@[simp] theorem value_tableField_double (memory : Memory) (table offset : Word) :
    (tableField 32 memory table offset).value = memory.read32 (table + offset) := by
  simp [tableField, Memory.read32]

theorem findSome?_ite {α β : Type} (select : α → Prop) [DecidablePred select] (image : α → β)
    (values : List α) :
    (values.findSome? fun value => if select value then some (image value) else none) =
      (values.find? fun value => select value).map image := by
  have guarded : (fun value => if select value then some (image value) else none) =
      Option.map image ∘ Option.guard fun value => select value := by
    funext value
    by_cases here : select value
    · simp [Option.guard, here]
    · simp [Option.guard, here]
  rw [guarded, ← List.map_findSome?, List.findSome?_guard]

theorem value_rootEntriesRead :
    (rootEntriesRead memory xsdt rsdt).value = rootEntries memory xsdt rsdt := by
  rw [rootEntriesRead, rootEntries]
  split <;> rfl

theorem value_rootEntryRead (i : Nat) :
    (rootEntryRead memory xsdt rsdt i).value = rootEntry memory xsdt rsdt i := by
  rw [rootEntryRead, rootEntry]
  split
  · rw [value_tableField_word, BitVec.add_assoc]
  · rw [Traced.value_bind, Traced.value_pure, value_tableField_double, BitVec.add_assoc]

theorem value_findAcpiTableRead (signature : Word) :
    (findAcpiTableRead hhdmoffset memory xsdt rsdt signature).value =
      findAcpiTable hhdmoffset memory xsdt rsdt signature := by
  rw [findAcpiTableRead, Traced.value_bind, Traced.value_bind, Traced.value_pure,
    Traced.value_findSomeM?, value_rootEntriesRead, findAcpiTable]
  simp only [Traced.value_bind, Traced.value_pure, value_rootEntryRead]
  rw [findSome?_ite]
  cases (List.range (rootEntries memory xsdt rsdt).toNat).find? fun i =>
      memcmp memory (rootEntry memory xsdt rsdt i + hhdmoffset) signature 4 = 0 with
  | none => rfl
  | some i => rfl

theorem add_place (madt i : Word) : madt + (descHeaderSize + 8 + i) = icsHeader madt i := by
  rw [icsHeader, BitVec.add_assoc, BitVec.add_assoc, BitVec.add_assoc]

/-- The iterations of the two walkers. -/
theorem value_walkIcsRead {β : Type} {found : Word → Traced Word (Option β)}
    {without : Word → Option β} (same : ∀ header, (found header).value = without (madt + header))
    (missing : β) (i : Word) :
    (walkIcsRead memory madt found missing (icsLength memory madt) i).value =
      walkIcs memory madt without missing i := by
  rw [walkIcsRead, walkIcs]
  split
  · rw [Traced.value_bind, same, add_place]
    cases without (icsHeader madt i) with
    | some result => rfl
    | none =>
        simp only [Traced.value_bind, Traced.value_pure, value_tableField_byte]
        rw [← BitVec.add_assoc, add_place]
  · rfl

theorem value_matchIcsRead (type header : Word) :
    (matchIcsRead memory madt type header).value = matchIcs memory type (madt + header) := by
  simp only [matchIcsRead, matchIcs, Traced.value_bind, Traced.value_pure, value_tableField_byte]

theorem value_matchIsoRead (legacy : Byte) (header : Word) :
    (matchIsoRead memory madt legacy header).value = matchIso memory legacy (madt + header) := by
  rw [matchIsoRead, matchIso, Traced.value_bind, value_tableField_byte]
  split
  · rw [Traced.value_bind, value_tableField_byte, BitVec.add_assoc]
    split
    · rw [BitVec.add_assoc]
      rfl
    · rfl
  · rfl

theorem value_findIcsRead (type : Word) (fuel : Nat) :
    (findIcsRead memory madt type fuel).value = findIcs memory madt type fuel := by
  rw [findIcsRead, Traced.value_bind, Traced.value_loop, findIcs]
  exact congrArg (loopFor · fuel 0) (funext (value_walkIcsRead (value_matchIcsRead type) 0))

theorem value_findIsoRead (legacy : Byte) (fuel : Nat) :
    (findIsoRead memory madt legacy fuel).value = findIso memory madt legacy fuel := by
  rw [findIsoRead, Traced.value_bind, Traced.value_loop, findIso]
  exact congrArg (loopFor · fuel 0)
    (funext (value_walkIcsRead (value_matchIsoRead legacy) (legacy.setWidth 32)))

/-- The table in memory, as the scan of its entries sees it. -/
structure EncodesMcfg (memory : Memory) (table : Word) (mcfg : Mcfg) : Prop where
  length : tableLength memory table = mcfg.length
  entries : ∀ i (inside : i < mcfg.confSpaces.length),
    (confSpaceRead memory table i).value = mcfg.confSpaces[i]

theorem EncodesMcfg.value_parseConfSpaceRead {table : Word} {mcfg : Mcfg}
    (encodes : EncodesMcfg memory table mcfg) (s : PciState) :
    parseConfSpace hhdmoffset mcfg s =
      .done (parseConfSpaceRead hhdmoffset memory table s).value := by
  let states (count : Nat) : PciState := (List.range count).foldl
    (fun s i => s.useConfSpace hhdmoffset (confSpaceRead memory table i).value) s
  have num : ((BitVec.ofNat 32 (memory.readLE (table + 4) (32 / 8))).setWidth 64 -
      descHeaderSize) / 16 = mcfg.num := by
    rw [Mcfg.num, ← encodes.length]
    rfl
  have scanned : (parseConfSpaceRead hhdmoffset memory table s).value =
      states mcfg.num.toNat := by
    rw [parseConfSpaceRead, Traced.value_bind, Traced.value_foldlM]
    simp only [tableField, num]
    rfl
  rw [scanned, parseConfSpace]
  apply @forRange_eq_done _ states
  · exact Nat.zero_le _
  · intro i _ bound
    rw [mcfg.toNat_num] at bound
    simp only [List.getElem?_eq_getElem bound, ← encodes.entries i bound]
    simp only [states, List.range_succ, List.foldl_concat]

end Values

/-! ## Places of a record -/

/-- Only places among the first `extent` bytes from `start` on. -/
def Within (places : List Word) (start : Word) (extent : Nat) : Prop :=
  ∀ place ∈ places, ∃ k < extent, place = start + BitVec.ofNat 64 k

/-- The same, and the last of these bytes is among them. -/
structure Spans (places : List Word) (start : Word) (extent : Nat) : Prop where
  positive : 0 < extent
  within : Within places start extent
  last : start + BitVec.ofNat 64 (extent - 1) ∈ places

/-- No place behind the description header is behind the end of the table. -/
def StaysInside (memory : Memory) (table : Word) (places : List Word) : Prop :=
  ∀ place ∈ places, descHeaderSize.toNat ≤ place.toNat →
    place.toNat < (tableLength memory table).toNat

section Places

variable {memory : Memory} {table start : Word} {left right : List Word} {extent : Nat}

theorem mem_bytesFrom {offset place : Word} {count : Nat} :
    place ∈ bytesFrom offset count ↔ ∃ k < count, offset + BitVec.ofNat 64 k = place := by
  simp only [bytesFrom, List.mem_map, List.mem_range]

theorem within_append :
    Within (left ++ right) start extent ↔ Within left start extent ∧ Within right start extent :=
  List.forall_mem_append

theorem Within.mono {more : Nat} (within : Within left start extent) (longer : extent ≤ more) :
    Within left start more := by
  intro place listed
  obtain ⟨k, inside, here⟩ := within place listed
  exact ⟨k, Nat.lt_of_lt_of_le inside longer, here⟩

theorem within_bytesFrom {skip count : Nat} (fits : skip + count ≤ extent) :
    Within (bytesFrom (start + BitVec.ofNat 64 skip) count) start extent := by
  intro place listed
  obtain ⟨k, inside, rfl⟩ := mem_bytesFrom.mp listed
  refine ⟨skip + k, by omega, ?_⟩
  rw [BitVec.ofNat_add, BitVec.add_assoc]

theorem last_mem_bytesFrom {skip count : Nat} (positive : 0 < count)
    (ends : skip + count = extent) :
    start + BitVec.ofNat 64 (extent - 1) ∈ bytesFrom (start + BitVec.ofNat 64 skip) count := by
  refine mem_bytesFrom.mpr ⟨count - 1, Nat.sub_lt positive Nat.one_pos, ?_⟩
  rw [BitVec.add_assoc, ← BitVec.ofNat_add, ← ends, Nat.add_sub_assoc positive]

/-- A single field spans itself. -/
theorem spans_bytesFrom (start : Word) {count : Nat} (positive : 0 < count) :
    Spans (bytesFrom start count) start count := by
  have here : start + BitVec.ofNat 64 0 = start := BitVec.add_zero start
  have within := @within_bytesFrom start count 0 count (Nat.le_of_eq (Nat.zero_add count))
  have last := @last_mem_bytesFrom start count 0 count positive (Nat.zero_add count)
  rw [here] at within last
  exact ⟨positive, within, last⟩

theorem staysInside_append :
    StaysInside memory table (left ++ right) ↔
      StaysInside memory table left ∧ StaysInside memory table right :=
  List.forall_mem_append

/-- A loop over a list stays inside if each of its iterations does. -/
theorem staysInside_foldlM_iff {σ α : Type} {body : σ → α → Traced Word σ}
    {here : α → List Word} (reads : ∀ state value, (body state value).reads = here value)
    {values : List α} {state : σ} :
    StaysInside memory table (values.foldlM body state).reads ↔
      ∀ value ∈ values, StaysInside memory table (here value) := by
  simp only [StaysInside, Traced.mem_reads_foldlM_iff reads]
  constructor
  · intro inside value member place listed
    exact inside place ⟨value, member, listed⟩
  · rintro inside place ⟨value, member, listed⟩
    exact inside value member place listed

/-- The length in the header is no place behind it. -/
theorem staysInside_length : StaysInside memory table (bytesFrom 4 (32 / 8)) := by
  intro place listed behind
  obtain ⟨k, inside, rfl⟩ := mem_bytesFrom.mp listed
  have small : k < 4 := inside
  rw [BitVec.toNat_add, BitVec.toNat_ofNat] at behind
  simp only [descHeaderSize, BitVec.ofNat_eq_ofNat, BitVec.toNat_ofNat] at behind
  omega

/-- A record behind the header stays inside the table exactly if it ends there. -/
theorem Spans.staysInside_iff (spans : Spans left start extent)
    (behind : descHeaderSize.toNat ≤ start.toNat) (bound : start.toNat + extent < 2 ^ 64) :
    StaysInside memory table left ↔ start.toNat + extent ≤ (tableLength memory table).toNat := by
  have place : ∀ k < extent, (start + BitVec.ofNat 64 k).toNat = start.toNat + k := by
    intro k inside
    rw [BitVec.toNat_add, BitVec.toNat_ofNat]
    omega
  have positive := spans.positive
  constructor
  · intro inside
    have last := inside _ spans.last
    rw [place _ (by omega)] at last
    omega
  · intro ends address listed _
    obtain ⟨k, inside, rfl⟩ := spans.within address listed
    rw [place k inside]
    omega

end Places

/-! ## Root tables -/

section RootTables

variable {hhdmoffset : Word} {memory : Memory} {xsdt rsdt table : Word}

theorem toNat_descHeaderSize : descHeaderSize.toNat = 36 := rfl

theorem reads_tableField (width : Nat) (memory : Memory) (table offset : Word) :
    (tableField width memory table offset).reads = bytesFrom offset (width / 8) := rfl

/-- A search through the entries of a root table stays inside it exactly if the table has a
whole header: otherwise the number of entries wraps around. -/
theorem staysInside_entries_iff {β : Type} {size : Nat} (sizes : size = 4 ∨ size = 8)
    {test : Nat → Traced Word (Option β)}
    (spans : ∀ i, Spans (test i).reads (descHeaderSize + BitVec.ofNat 64 (size * i)) size) :
    StaysInside memory table ((List.range (((tableLength memory table).setWidth 64 -
        descHeaderSize) / BitVec.ofNat 64 size).toNat).findSomeM? test).reads ↔
      36 ≤ (tableLength memory table).toNat := by
  have length := (tableLength memory table).isLt
  have count : (((tableLength memory table).setWidth 64 - descHeaderSize) /
      BitVec.ofNat 64 size).toNat =
      ((2 ^ 64 - 36 + (tableLength memory table).toNat) % 2 ^ 64) / size := by
    have entry : (BitVec.ofNat 64 size).toNat = size := by
      rcases sizes with rfl | rfl <;> rfl
    rw [BitVec.toNat_udiv, toNat_length_sub, entry, toNat_descHeaderSize]
  rw [count]
  constructor
  · intro inside
    by_contra short
    obtain ⟨more, entries⟩ : ∃ more,
        ((2 ^ 64 - 36 + (tableLength memory table).toNat) % 2 ^ 64) / size = more + 1 := by
      apply Nat.exists_eq_succ_of_ne_zero
      rcases sizes with rfl | rfl <;> omega
    rw [entries, List.range_succ_eq_map] at inside
    have first := inside _ (Traced.mem_reads_findSomeM?_cons (spans 0).last)
    have place : (descHeaderSize + BitVec.ofNat 64 (size * 0) +
        BitVec.ofNat 64 (size - 1)).toNat = 36 + (size - 1) := by
      rcases sizes with rfl | rfl <;> rfl
    rw [place, toNat_descHeaderSize] at first
    have below := first (Nat.le_add_right 36 (size - 1))
    omega
  · intro whole place listed behind
    obtain ⟨i, counted, read⟩ := Traced.exists_of_mem_reads_findSomeM? listed
    have inside := List.mem_range.mp counted
    have start : (descHeaderSize + BitVec.ofNat 64 (size * i)).toNat = 36 + size * i := by
      rw [BitVec.toNat_add, BitVec.toNat_ofNat, toNat_descHeaderSize]
      rcases sizes with rfl | rfl <;> omega
    refine ((spans i).staysInside_iff ?_ ?_).mpr ?_ place read behind
    · rw [start, toNat_descHeaderSize]
      omega
    · rw [start]
      rcases sizes with rfl | rfl <;> omega
    · rw [start]
      rcases sizes with rfl | rfl <;> omega

theorem reads_rootEntriesRead : (rootEntriesRead memory xsdt rsdt).reads = bytesFrom 4 4 := by
  rw [rootEntriesRead]
  split <;> rfl

theorem spans_rootEntryRead (i : Nat) :
    Spans (rootEntryRead memory xsdt rsdt i).reads
      (descHeaderSize + BitVec.ofNat 64 ((if xsdt ≠ 0 then 8 else 4) * i))
      (if xsdt ≠ 0 then 8 else 4) := by
  rw [rootEntryRead]
  split
  · exact spans_bytesFrom _ (by decide)
  · rw [Traced.reads_bind, Traced.reads_pure, List.append_nil]
    exact spans_bytesFrom _ (by decide)

theorem staysInside_findAcpiTableRead_iff (signature : Word) :
    StaysInside memory (rootTable xsdt rsdt)
        (findAcpiTableRead hhdmoffset memory xsdt rsdt signature).reads ↔
      36 ≤ (tableLength memory (rootTable xsdt rsdt)).toNat := by
  have entries : (rootEntriesRead memory xsdt rsdt).value =
      ((tableLength memory (rootTable xsdt rsdt)).setWidth 64 - descHeaderSize) /
        BitVec.ofNat 64 (if xsdt ≠ 0 then 8 else 4) := by
    rw [value_rootEntriesRead, rootEntries, rootTable]
    split <;> rfl
  rw [findAcpiTableRead, Traced.reads_bind, Traced.reads_bind, Traced.reads_pure, List.append_nil,
    staysInside_append, entries, reads_rootEntriesRead,
    staysInside_entries_iff (by split <;> simp)]
  · exact and_iff_right staysInside_length
  · intro i
    rw [Traced.reads_bind, Traced.reads_pure, List.append_nil]
    exact spans_rootEntryRead i

end RootTables

/-! ## The MCFG -/

section Mcfg

variable {hhdmoffset : Word} {memory : Memory} {mcfg : Word}

theorem spans_confSpaceRead (i : Nat) :
    Spans (confSpaceRead memory mcfg i).reads
      (descHeaderSize + 8 + BitVec.ofNat 64 (16 * i)) 16 := by
  have reads : (confSpaceRead memory mcfg i).reads =
      bytesFrom (descHeaderSize + 8 + BitVec.ofNat 64 (16 * i) + BitVec.ofNat 64 0) 8 ++
      (bytesFrom (descHeaderSize + 8 + BitVec.ofNat 64 (16 * i) + BitVec.ofNat 64 8) 2 ++
      (bytesFrom (descHeaderSize + 8 + BitVec.ofNat 64 (16 * i) + BitVec.ofNat 64 10) 1 ++
      (bytesFrom (descHeaderSize + 8 + BitVec.ofNat 64 (16 * i) + BitVec.ofNat 64 11) 1 ++
      bytesFrom (descHeaderSize + 8 + BitVec.ofNat 64 (16 * i) + BitVec.ofNat 64 12) 4))) := by
    simp only [confSpaceRead, Traced.reads_bind, Traced.reads_pure, List.append_nil,
      reads_tableField, BitVec.add_zero]
    rfl
  rw [reads]
  refine ⟨by decide, ?_, ?_⟩
  · simp only [within_append]
    exact ⟨within_bytesFrom (by decide), within_bytesFrom (by decide),
      within_bytesFrom (by decide), within_bytesFrom (by decide), within_bytesFrom (by decide)⟩
  · simp only [List.mem_append]
    exact Or.inr (Or.inr (Or.inr (Or.inr (last_mem_bytesFrom (by decide) (by decide)))))

/-- The eight reserved bytes are counted among the entries; the last entry ends inside the
table if the rest of the division leaves room for them. -/
theorem staysInside_parseConfSpaceRead_iff (s : PciState) :
    StaysInside memory mcfg (parseConfSpaceRead hhdmoffset memory mcfg s).reads ↔
      36 ≤ (tableLength memory mcfg).toNat ∧ ((tableLength memory mcfg).toNat < 52 ∨
        8 ≤ ((tableLength memory mcfg).toNat - 36) % 16) := by
  have length := (tableLength memory mcfg).isLt
  have num : (((tableLength memory mcfg).setWidth 64 - descHeaderSize) / 16).toNat =
      ((2 ^ 64 - 36 + (tableLength memory mcfg).toNat) % 2 ^ 64) / 16 := by
    rw [BitVec.toNat_udiv, toNat_length_sub, toNat_descHeaderSize]
    rfl
  have start : ∀ i < 2 ^ 32, (descHeaderSize + 8 + BitVec.ofNat 64 (16 * i)).toNat =
      44 + 16 * i := by
    intro i small
    rw [BitVec.toNat_add, BitVec.toNat_ofNat, show (descHeaderSize + 8).toNat = 44 from rfl]
    omega
  have entry : ∀ i < 2 ^ 32, (StaysInside memory mcfg (confSpaceRead memory mcfg i).reads ↔
      44 + 16 * i + 16 ≤ (tableLength memory mcfg).toNat) := by
    intro i small
    rw [← start i small]
    apply (spans_confSpaceRead i).staysInside_iff
    · rw [start i small, toNat_descHeaderSize]
      omega
    · rw [start i small]
      omega
  have copied : ∀ (s : PciState) i, (do
      let header ← confSpaceRead memory mcfg i
      return s.useConfSpace hhdmoffset header : Traced Word PciState).reads =
      (confSpaceRead memory mcfg i).reads := by
    intro s i
    rw [Traced.reads_bind, Traced.reads_pure, List.append_nil]
  rw [parseConfSpaceRead, Traced.reads_bind, staysInside_append, value_tableField_double,
    ← tableLength, staysInside_foldlM_iff copied, num]
  refine (and_iff_right staysInside_length).trans ?_
  simp only [List.mem_range]
  constructor
  · intro inside
    have whole : 36 ≤ (tableLength memory mcfg).toNat := by
      by_contra short
      have first := (entry 0 (by decide)).mp (inside 0 (by omega))
      omega
    refine ⟨whole, ?_⟩
    by_contra rest
    have last := (entry (((tableLength memory mcfg).toNat - 36) / 16 - 1) (by omega)).mp
      (inside _ (by omega))
    omega
  · rintro ⟨whole, rest⟩ i counted
    exact (entry i (by omega)).mpr (by omega)

end Mcfg

/-! ## The MADT -/

/-- The offsets at which a walk looks for a structure: from one at which it finds nothing it
goes on by the length byte there. -/
inductive Passed {β : Type} (memory : Memory) (madt : Word) (found : Word → Option β) :
    Word → Prop where
  | first : Passed memory madt found 0
  | next {i : Word} : Passed memory madt found i → i < icsLength memory madt →
      found (icsHeader madt i) = none →
      Passed memory madt found (i + (memory (icsHeader madt i + 1)).setWidth 64)

/-- The bytes of a structure that `find_ics` reads: the type, and the length if it goes on. -/
def icsExtent (memory : Memory) (type header : Word) : Nat :=
  if (memory header).setWidth 64 = type then 1 else 2

/-- The bytes of a structure that `find_iso` reads: of an override also the source, and the
wiring if it is the one it looks for. -/
def isoExtent (memory : Memory) (legacy : Byte) (header : Word) : Nat :=
  if memory header = 2 then
    if legacy = memory (header + 3) then 8 else 4
  else
    2

/-- The table has its fixed part, and what is read of each structure on the way ends inside
it. -/
def RecordsFit {β : Type} (memory : Memory) (madt : Word) (found : Word → Option β)
    (extent : Word → Nat) : Prop :=
  44 ≤ (tableLength memory madt).toNat ∧ ∀ i, Passed memory madt found i →
    i < icsLength memory madt →
    i.toNat + extent (icsHeader madt i) ≤ (icsLength memory madt).toNat

section Madt

variable {memory : Memory} {madt : Word} {β : Type}

theorem visits_walkIcs_iff {found : Word → Option β} {missing : β} {i : Word} :
    Visits (walkIcs memory madt found missing) 0 i ↔ Passed memory madt found i := by
  constructor
  · intro visited
    induction visited with
    | refl => exact .first
    | @tail i next _ stepped ih =>
        by_cases inside : i < icsLength memory madt
        · cases here : found (icsHeader madt i) with
          | some result =>
              rw [walkIcs, if_pos inside, here] at stepped
              cases stepped
          | none =>
              rw [walkIcs_inside inside here] at stepped
              cases stepped
              exact ih.next inside here
        · rw [walkIcs, if_neg inside] at stepped
          cases stepped
  · intro passed
    induction passed with
    | first => exact .refl
    | next _ inside here ih => exact ih.tail (walkIcs_inside inside here)

/-- A walk stays inside the table exactly if what it reads of each structure ends there. -/
theorem staysInside_walk_iff {read : Word → Traced Word (Option β)} {found : Word → Option β}
    {extent : Word → Nat} {missing : β}
    (same : ∀ header, (read header).value = found (madt + header))
    (small : ∀ header, extent header ≤ 8)
    (spans : ∀ i < icsLength memory madt,
      Spans (walkIcsRead memory madt read missing (icsLength memory madt) i).reads
        (descHeaderSize + 8 + i) (extent (icsHeader madt i))) :
    (∀ fuel, StaysInside memory madt (Traced.loop (walkIcsRead memory madt read missing
        (icsLength memory madt)) fuel 0).reads) ↔ RecordsFit memory madt found extent := by
  have length := (tableLength memory madt).isLt
  have visits : ∀ i, Visits (fun i => (walkIcsRead memory madt read missing
      (icsLength memory madt) i).value) 0 i ↔ Passed memory madt found i := by
    intro i
    rw [← visits_walkIcs_iff, ← funext (value_walkIcsRead same missing)]
  have all : (∀ fuel, StaysInside memory madt (Traced.loop (walkIcsRead memory madt read missing
      (icsLength memory madt)) fuel 0).reads) ↔
      ∀ i, Passed memory madt found i → StaysInside memory madt
        (walkIcsRead memory madt read missing (icsLength memory madt) i).reads := by
    constructor
    · intro inside i passed place listed
      obtain ⟨fuel, reached⟩ :=
        Traced.exists_mem_reads_loop_iff.mpr ⟨i, (visits i).mpr passed, listed⟩
      exact inside fuel place reached
    · intro inside fuel place listed
      obtain ⟨i, visited, reached⟩ := Traced.exists_mem_reads_loop_iff.mp ⟨fuel, listed⟩
      exact inside i ((visits i).mp visited) place reached
  have ends : ∀ i < icsLength memory madt, i.toNat < 2 ^ 32 →
      (StaysInside memory madt
          (walkIcsRead memory madt read missing (icsLength memory madt) i).reads ↔
        44 + i.toNat + extent (icsHeader madt i) ≤ (tableLength memory madt).toNat) := by
    intro i below near
    have few := small (icsHeader madt i)
    have start : (descHeaderSize + 8 + i).toNat = 44 + i.toNat := by
      rw [BitVec.toNat_add, show (descHeaderSize + 8).toNat = 44 from rfl]
      omega
    rw [← start]
    apply (spans i below).staysInside_iff
    · rw [start, toNat_descHeaderSize]
      omega
    · rw [start]
      omega
  have lengths := toNat_icsLength memory madt
  rw [all]
  constructor
  · intro inside
    have whole : 44 ≤ (tableLength memory madt).toNat := by
      by_contra short
      have wraps : 0 < icsLength memory madt := by
        rw [BitVec.lt_def, lengths]
        simp only [BitVec.ofNat_eq_ofNat, BitVec.toNat_ofNat]
        omega
      have first := (ends 0 wraps (by decide)).mp (inside 0 .first)
      omega
    refine ⟨whole, ?_⟩
    intro i passed below
    have bound := BitVec.lt_def.mp below
    have fits := (ends i below (by omega)).mp (inside i passed)
    omega
  · rintro ⟨whole, fits⟩ i passed
    by_cases below : i < icsLength memory madt
    · have bound := BitVec.lt_def.mp below
      have fit := fits i passed below
      exact (ends i below (by omega)).mpr (by omega)
    · rw [walkIcsRead, if_neg below]
      exact List.forall_mem_nil _

/-- The iterations of `find_ics`. -/
theorem spans_walk_matchIcs (type : Word) {i : Word} (below : i < icsLength memory madt) :
    Spans (walkIcsRead memory madt (matchIcsRead memory madt type) 0
        (icsLength memory madt) i).reads
      (descHeaderSize + 8 + i) (icsExtent memory type (icsHeader madt i)) := by
  have first := spans_bytesFrom (descHeaderSize + 8 + i) (by decide : 0 < 8 / 8)
  rw [walkIcsRead, if_pos below, Traced.reads_bind, value_matchIcsRead, matchIcs, add_place,
    icsExtent, matchIcsRead, Traced.reads_bind, Traced.reads_pure, List.append_nil,
    reads_tableField]
  by_cases here : (memory (icsHeader madt i)).setWidth 64 = type
  · rw [if_pos here, if_pos here, Traced.reads_pure, List.append_nil]
    exact first
  · rw [if_neg here, if_neg here, Traced.reads_bind, Traced.reads_pure, List.append_nil,
      reads_tableField]
    refine ⟨by decide, within_append.mpr ⟨first.within.mono (by decide), ?_⟩,
      List.mem_append_right _ ?_⟩
    · exact @within_bytesFrom _ _ 1 _ (by decide)
    · exact @last_mem_bytesFrom _ _ 1 _ (by decide) (by decide)

/-- The iterations of `find_iso`. -/
theorem spans_walk_matchIso (legacy : Byte) {i : Word} (below : i < icsLength memory madt) :
    Spans (walkIcsRead memory madt (matchIsoRead memory madt legacy) (legacy.setWidth 32)
        (icsLength memory madt) i).reads
      (descHeaderSize + 8 + i) (isoExtent memory legacy (icsHeader madt i)) := by
  have type := spans_bytesFrom (descHeaderSize + 8 + i) (by decide : 0 < 8 / 8)
  have size : Within (bytesFrom (descHeaderSize + 8 + i + 1) (8 / 8)) (descHeaderSize + 8 + i) 2 :=
    @within_bytesFrom _ _ 1 _ (by decide)
  have source : Within (bytesFrom (descHeaderSize + 8 + i + 3) (8 / 8))
      (descHeaderSize + 8 + i) 4 :=
    @within_bytesFrom _ _ 3 _ (by decide)
  rw [walkIcsRead, if_pos below, Traced.reads_bind, value_matchIsoRead, matchIso, add_place,
    isoExtent, matchIsoRead, Traced.reads_bind, value_tableField_byte, add_place, reads_tableField]
  by_cases isIso : memory (icsHeader madt i) = 2
  · have place : madt + (descHeaderSize + 8 + i + 3) = icsHeader madt i + 3 := by
      rw [← BitVec.add_assoc, add_place]
    rw [if_pos isIso, if_pos isIso, if_pos isIso, Traced.reads_bind, value_tableField_byte, place,
      reads_tableField]
    by_cases here : legacy = memory (icsHeader madt i + 3)
    · rw [if_pos here, if_pos here, if_pos here, Traced.reads_bind, Traced.reads_pure,
        Traced.reads_pure, reads_tableField, List.append_nil, List.append_nil]
      refine ⟨by decide, ?_, ?_⟩
      · rw [within_append, within_append]
        exact ⟨type.within.mono (by decide), source.mono (by decide),
          @within_bytesFrom _ _ 4 _ (by decide)⟩
      · exact List.mem_append_right _
          (List.mem_append_right _ (@last_mem_bytesFrom _ _ 4 _ (by decide) (by decide)))
    · rw [if_neg here, if_neg here, if_neg here, Traced.reads_bind, Traced.reads_pure,
        Traced.reads_pure, reads_tableField, List.append_nil, List.append_nil]
      refine ⟨by decide, ?_, ?_⟩
      · rw [within_append, within_append]
        exact ⟨⟨type.within.mono (by decide), source⟩, size.mono (by decide)⟩
      · exact List.mem_append_left _
          (List.mem_append_right _ (@last_mem_bytesFrom _ _ 3 _ (by decide) (by decide)))
  · rw [if_neg isIso, if_neg isIso, if_neg isIso, Traced.reads_bind, Traced.reads_pure,
      Traced.reads_pure, reads_tableField, List.append_nil, List.append_nil]
    refine ⟨by decide, within_append.mpr ⟨type.within.mono (by decide), size⟩, ?_⟩
    exact List.mem_append_right _ (@last_mem_bytesFrom _ _ 1 _ (by decide) (by decide))

theorem staysInside_findIcsRead_iff (type : Word) :
    (∀ fuel, StaysInside memory madt (findIcsRead memory madt type fuel).reads) ↔
      RecordsFit memory madt (matchIcs memory type) (icsExtent memory type) := by
  refine Iff.trans (forall_congr' fun fuel => ?_) (staysInside_walk_iff (value_matchIcsRead type)
    ?_ fun i => spans_walk_matchIcs type)
  · rw [findIcsRead, Traced.reads_bind, staysInside_append]
    exact and_iff_right staysInside_length
  · intro header
    rw [icsExtent]
    split <;> decide

theorem staysInside_findIsoRead_iff (legacy : Byte) :
    (∀ fuel, StaysInside memory madt (findIsoRead memory madt legacy fuel).reads) ↔
      RecordsFit memory madt (matchIso memory legacy) (isoExtent memory legacy) := by
  refine Iff.trans (forall_congr' fun fuel => ?_) (staysInside_walk_iff (value_matchIsoRead legacy)
    ?_ fun i => spans_walk_matchIso legacy)
  · rw [findIsoRead, Traced.reads_bind, staysInside_append]
    exact and_iff_right staysInside_length
  · intro header
    rw [isoExtent]
    split
    · split <;> decide
    · decide

end Madt

/-! ## All scans -/

/-- No scan of a table reads behind its end. -/
structure ScansInside (hhdmoffset : Word) (memory : Memory)
    (xsdt rsdt madt mcfg signature type : Word) (legacy : Byte) (s : PciState) : Prop where
  root : StaysInside memory (rootTable xsdt rsdt)
    (findAcpiTableRead hhdmoffset memory xsdt rsdt signature).reads
  ics : ∀ fuel, StaysInside memory madt (findIcsRead memory madt type fuel).reads
  iso : ∀ fuel, StaysInside memory madt (findIsoRead memory madt legacy fuel).reads
  mcfg : StaysInside memory mcfg (parseConfSpaceRead hhdmoffset memory mcfg s).reads

/-- The tables have their fixed parts, the structures of the MADT that are read end inside it,
and the entries of the MCFG leave room for its reserved bytes. -/
structure ScansFit (memory : Memory) (xsdt rsdt madt mcfg type : Word) (legacy : Byte) :
    Prop where
  root : 36 ≤ (tableLength memory (rootTable xsdt rsdt)).toNat
  ics : RecordsFit memory madt (matchIcs memory type) (icsExtent memory type)
  iso : RecordsFit memory madt (matchIso memory legacy) (isoExtent memory legacy)
  mcfg : 36 ≤ (tableLength memory mcfg).toNat ∧ ((tableLength memory mcfg).toNat < 52 ∨
    8 ≤ ((tableLength memory mcfg).toNat - 36) % 16)

/-- For every content of memory, the scans stay inside their tables exactly if the tables are
long enough for what the scans count in them. -/
theorem table_scans_inside_iff (hhdmoffset : Word) (memory : Memory)
    (xsdt rsdt madt mcfg signature type : Word) (legacy : Byte) (s : PciState) :
    ScansInside hhdmoffset memory xsdt rsdt madt mcfg signature type legacy s ↔
      ScansFit memory xsdt rsdt madt mcfg type legacy := by
  have root := @staysInside_findAcpiTableRead_iff hhdmoffset memory xsdt rsdt signature
  have ics := @staysInside_findIcsRead_iff memory madt type
  have iso := @staysInside_findIsoRead_iff memory madt legacy
  have conf := @staysInside_parseConfSpaceRead_iff hhdmoffset memory mcfg s
  constructor
  · intro inside
    exact ⟨root.mp inside.root, ics.mp inside.ics, iso.mp inside.iso, conf.mp inside.mcfg⟩
  · intro fit
    exact ⟨root.mpr fit.root, ics.mpr fit.ics, iso.mpr fit.iso, conf.mpr fit.mcfg⟩

/-- An MCFG of 52 bytes at `0x1000`: behind its header there is room for the reserved bytes
and half an entry. -/
def halfEntry : Memory := fun address =>
  if address = 0x1004 then 52 else 0

/-- Its half entry is counted as a whole one. -/
theorem half_entry_read :
    ¬ ∀ (hhdmoffset : Word) (memory : Memory) (xsdt rsdt madt mcfg signature type : Word)
      (legacy : Byte) (s : PciState),
      ScansInside hhdmoffset memory xsdt rsdt madt mcfg signature type legacy s := by
  intro claimed
  have inside := (claimed 0 halfEntry 0 0 0 0x1000 0 0 0 (.zeroed (.boot halfEntry))).mcfg
  have short : (tableLength halfEntry 0x1000).toNat = 52 := by decide +kernel
  rw [staysInside_parseConfSpaceRead_iff, short] at inside
  exact absurd inside (by decide)

end Lord84
