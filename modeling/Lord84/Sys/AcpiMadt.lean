import Lord84.Sys.Acpi
import Lord84.Theory.Loop
import Mathlib.Data.List.GetD

/-!
# Walking the MADT

A model of `find_ics` and `find_iso` of `src/sys/acpi.c`.  The MADT is a description header,
eight more bytes, and a sequence of interrupt controller structures.  Each of these begins
with its type and its length, and the next one follows behind it.  Both functions go from
structure to structure until they come to the end of the table.
-/

namespace Lord84

open Theory

/-! ## The two walkers -/

section Walk

variable (memory : Memory) (madt : Word)

/-- `length` of both functions.  The length in the header has 32 bits, the subtraction 64. -/
def icsLength : Word :=
  (tableLength memory madt).setWidth 64 - descHeaderSize - 8

/-- `header` of both functions: the structure at offset `i` from `madt->ics`. -/
def icsHeader (i : Word) : Word :=
  madt + descHeaderSize + 8 + i

/-- An iteration of both loops.  `found` is what the function returns at a structure, if it
returns there, and `missing` what it returns behind the last one. -/
def walkIcs {β : Type} (found : Word → Option β) (missing : β) (i : Word) : Word ⊕ β :=
  if i < icsLength memory madt then
    match found (icsHeader madt i) with
    | some result => .inr result
    | none => .inl (i + (memory (icsHeader madt i + 1)).setWidth 64)
  else
    .inr missing

/-- What `find_ics` returns at a structure of the type it looks for: its address. -/
def matchIcs (type : Word) (header : Word) : Option Word :=
  if (memory header).setWidth 64 = type then some header else none

/-- `find_ics`, given up after `fuel` tests of the loop condition; 0 is `NULL`. -/
def findIcs (type : Word) (fuel : Nat) : Option Word :=
  loopFor (walkIcs memory madt (matchIcs memory type) 0) fuel 0

/-- What `find_iso` returns at an override of the interrupt: the number it is wired to. -/
def matchIso (legacy : Byte) (header : Word) : Option (BitVec 32) :=
  if memory header = 2 then
    if legacy = memory (header + 3) then some (memory.read32 (header + 4)) else none
  else
    none

/-- `find_iso`, given up after `fuel` tests of the loop condition. -/
def findIso (legacy : Byte) (fuel : Nat) : Option (BitVec 32) :=
  loopFor (walkIcs memory madt (matchIso memory legacy) (legacy.setWidth 32)) fuel 0

end Walk

/-! ## Tables of structures -/

/-- An interrupt controller structure as it stands in the table: its type and what follows
the two bytes of `ics_t`. -/
structure Ics where
  type : Byte
  payload : List Byte
  short : payload.length + 2 < 256
  iso : type = 2 → 8 ≤ payload.length

namespace Ics

/-- The bytes of a structure; the second one is its length. -/
def bytes (ics : Ics) : List Byte :=
  ics.type :: BitVec.ofNat 8 (ics.payload.length + 2) :: ics.payload

/-- `iso->source` -/
def source (ics : Ics) : Byte :=
  ics.payload.getD 1 0

/-- `iso->gsi`, four bytes, the lowest one first. -/
def gsi (ics : Ics) : BitVec 32 :=
  ics.payload.getD 5 0 ++ (ics.payload.getD 4 0 ++ (ics.payload.getD 3 0 ++ ics.payload.getD 2 0))

/-- The bytes of a list of structures. -/
def serialise (structures : List Ics) : List Byte :=
  structures.flatMap bytes

end Ics

/-- The table at `madt` consists of these structures: its header gives the length of the
whole table, the structures stand behind the first 44 bytes, and all of it lies in the
address space. -/
structure EncodesMadt (memory : Memory) (madt : Word) (structures : List Ics) : Prop where
  length : (tableLength memory madt).toNat = 44 + (Ics.serialise structures).length
  bytes : ∀ k (inside : k < (Ics.serialise structures).length),
    memory (madt + 44 + BitVec.ofNat 64 k) = (Ics.serialise structures)[k]
  fits : madt.toNat + 44 + (Ics.serialise structures).length ≤ 2 ^ 64

/-- The address of the structure behind these. -/
def icsAddress (madt : Word) (before : List Ics) : Word :=
  madt + 44 + BitVec.ofNat 64 (Ics.serialise before).length

/-- `structure` is the first of the list that is selected, and the others stand around it. -/
structure IsFirst (selects : Ics → Prop) (structures before : List Ics) (ics : Ics)
    (after : List Ics) : Prop where
  split : structures = before ++ ics :: after
  selected : selects ics
  first : ∀ other ∈ before, ¬ selects other

namespace Ics

@[simp] theorem length_bytes (ics : Ics) : ics.bytes.length = ics.payload.length + 2 := rfl

theorem serialise_append (left right : List Ics) :
    serialise (left ++ right) = serialise left ++ serialise right :=
  List.flatMap_append

theorem length_serialise_concat (structures : List Ics) (ics : Ics) :
    (serialise (structures ++ [ics])).length =
      (serialise structures).length + (ics.payload.length + 2) := by
  simp [serialise]

theorem serialise_cons (ics : Ics) (rest : List Ics) :
    serialise (ics :: rest) = ics.bytes ++ serialise rest :=
  List.flatMap_cons

end Ics

section FirstMatch

variable {memory : Memory} {madt : Word} {structures before after : List Ics} {ics : Ics}

theorem toNat_icsLength (memory : Memory) (madt : Word) :
    (icsLength memory madt).toNat =
      (2 ^ 64 - 44 + (tableLength memory madt).toNat) % 2 ^ 64 := by
  rw [icsLength, BitVec.sub_sub, toNat_length_sub]
  rfl

theorem EncodesMadt.toNat_icsLength (encodes : EncodesMadt memory madt structures) :
    (icsLength memory madt).toNat = (Ics.serialise structures).length := by
  have total := encodes.length
  have bound := (tableLength memory madt).isLt
  rw [Lord84.toNat_icsLength]
  omega

theorem EncodesMadt.length_lt (encodes : EncodesMadt memory madt structures) :
    (Ics.serialise structures).length < 2 ^ 32 := by
  have total := encodes.length
  have bound := (tableLength memory madt).isLt
  omega

theorem icsHeader_eq (madt i : Word) : icsHeader madt i = madt + 44 + i := by
  rw [icsHeader, descHeaderSize]
  bv_omega

/-- The bytes of a structure stand at its address. -/
theorem EncodesMadt.byte_at (encodes : EncodesMadt memory madt structures)
    (split : structures = before ++ ics :: after) {k : Nat} (inside : k < ics.bytes.length) :
    memory (icsAddress madt before + BitVec.ofNat 64 k) = ics.bytes[k] := by
  have all : Ics.serialise structures =
      Ics.serialise before ++ (ics.bytes ++ Ics.serialise after) := by
    rw [split, Ics.serialise_append, Ics.serialise_cons]
  have here := encodes.bytes ((Ics.serialise before).length + k)
    (by rw [all, List.length_append, List.length_append]; omega)
  rw [BitVec.ofNat_add, ← BitVec.add_assoc] at here
  refine here.trans ?_
  simp only [all]
  rw [List.getElem_append_right (Nat.le_add_right _ _)]
  simp only [Nat.add_sub_cancel_left]
  exact List.getElem_append_left inside

theorem EncodesMadt.type_at (encodes : EncodesMadt memory madt structures)
    (split : structures = before ++ ics :: after) :
    memory (icsAddress madt before) = ics.type := by
  have here := encodes.byte_at split (show 0 < ics.bytes.length by simp)
  rw [BitVec.add_zero] at here
  exact here

/-- The length byte leads to the end of the structure. -/
theorem EncodesMadt.next_offset (encodes : EncodesMadt memory madt structures)
    (split : structures = before ++ ics :: after) :
    BitVec.ofNat 64 (Ics.serialise before).length +
        (memory (icsAddress madt before + 1)).setWidth 64 =
      BitVec.ofNat 64 (Ics.serialise (before ++ [ics])).length := by
  have here := encodes.byte_at split (show 1 < ics.bytes.length by simp)
  have length : memory (icsAddress madt before + 1) = BitVec.ofNat 8 (ics.payload.length + 2) :=
    here
  have short := ics.short
  rw [length, Ics.length_serialise_concat]
  apply BitVec.eq_of_toNat_eq
  simp only [BitVec.toNat_add, BitVec.toNat_setWidth, BitVec.toNat_ofNat]
  omega

/-- A structure lies before the end of the table. -/
theorem Ics.length_serialise_lt (split : structures = before ++ ics :: after) :
    (Ics.serialise before).length < (Ics.serialise structures).length := by
  rw [split, Ics.serialise_append, Ics.serialise_cons, List.length_append, List.length_append,
    Ics.length_bytes]
  omega

/-- An iteration at a structure. -/
theorem EncodesMadt.walkIcs_at {β : Type} (encodes : EncodesMadt memory madt structures)
    (split : structures = before ++ ics :: after) (found : Word → Option β) (missing : β) :
    walkIcs memory madt found missing (BitVec.ofNat 64 (Ics.serialise before).length) =
      match found (icsAddress madt before) with
      | some result => .inr result
      | none => .inl (BitVec.ofNat 64 (Ics.serialise (before ++ [ics])).length) := by
  have below := encodes.length_lt
  have longer := Ics.length_serialise_lt split
  have inside : BitVec.ofNat 64 (Ics.serialise before).length < icsLength memory madt := by
    rw [BitVec.lt_def, encodes.toNat_icsLength, BitVec.toNat_ofNat]
    omega
  have header : icsHeader madt (BitVec.ofNat 64 (Ics.serialise before).length) =
      icsAddress madt before :=
    icsHeader_eq madt _
  rw [walkIcs, if_pos inside, header, encodes.next_offset split]

/-- The last iteration. -/
theorem EncodesMadt.walkIcs_end {β : Type} {found : Word → Option β} {missing : β}
    (encodes : EncodesMadt memory madt structures) :
    walkIcs memory madt found missing (BitVec.ofNat 64 (Ics.serialise structures).length) =
      .inr missing := by
  have below := encodes.length_lt
  rw [walkIcs, if_neg]
  rw [BitVec.lt_def, encodes.toNat_icsLength, BitVec.toNat_ofNat]
  omega

/-- Both loops stop at the first structure they select, and behind the last one if there is
none. -/
theorem EncodesMadt.walk {β : Type} {found : Word → Option β} {missing : β}
    (encodes : EncodesMadt memory madt structures) (selects : Ics → Prop) (value : Word → β)
    (stops : ∀ before ics after, structures = before ++ ics :: after → selects ics →
      found (icsAddress madt before) = some (value (icsAddress madt before)))
    (passes : ∀ before ics after, structures = before ++ ics :: after → ¬ selects ics →
      found (icsAddress madt before) = none) :
    (∃ before ics after, IsFirst selects structures before ics after ∧
      Returns (walkIcs memory madt found missing) 0 (value (icsAddress madt before))) ∨
    (∀ ics ∈ structures, ¬ selects ics) ∧
      Returns (walkIcs memory madt found missing) 0 missing := by
  -- The induction is on the structures that are still ahead.
  have continued : ∀ ahead passed, structures = passed ++ ahead →
      (∀ ics ∈ passed, ¬ selects ics) →
      (∃ before ics after, IsFirst selects structures before ics after ∧
        Returns (walkIcs memory madt found missing)
          (BitVec.ofNat 64 (Ics.serialise passed).length) (value (icsAddress madt before))) ∨
      (∀ ics ∈ structures, ¬ selects ics) ∧
        Returns (walkIcs memory madt found missing)
          (BitVec.ofNat 64 (Ics.serialise passed).length) missing := by
    intro ahead
    induction ahead with
    | nil =>
        intro passed split rejected
        rw [List.append_nil] at split
        subst split
        exact Or.inr ⟨rejected, returns_of_inr encodes.walkIcs_end⟩
    | cons ics ahead ih =>
        intro passed split rejected
        have step := encodes.walkIcs_at split found missing
        by_cases selected : selects ics
        · rw [stops passed ics ahead split selected] at step
          exact Or.inl ⟨passed, ics, ahead, ⟨split, selected, rejected⟩, returns_of_inr step⟩
        · rw [passes passed ics ahead split selected] at step
          have later := ih (passed ++ [ics]) (by rw [split, List.append_assoc]; rfl)
            (by
              intro other member
              rcases List.mem_append.mp member with old | new
              · exact rejected other old
              · rw [List.mem_singleton.mp new]
                exact selected)
          simp only [returns_iff_of_inl step]
          exact later
  exact continued structures [] rfl (fun _ member => absurd member List.not_mem_nil)

/-! ## What the walkers return -/

theorem EncodesMadt.icsAddress_ne_zero (encodes : EncodesMadt memory madt structures)
    (split : structures = before ++ ics :: after) : icsAddress madt before ≠ 0 := by
  have fits := encodes.fits
  have longer := Ics.length_serialise_lt split
  intro null
  have zero := congrArg BitVec.toNat null
  simp only [icsAddress, BitVec.toNat_add, BitVec.toNat_ofNat, BitVec.ofNat_eq_ofNat] at zero
  omega

/-- The fields of an override in the table. -/
theorem EncodesMadt.iso_at (encodes : EncodesMadt memory madt structures)
    (split : structures = before ++ ics :: after) (isIso : ics.type = 2) :
    memory (icsAddress madt before + 3) = ics.source ∧
      memory.read32 (icsAddress madt before + 4) = ics.gsi := by
  have long := ics.iso isIso
  have field : ∀ k, k < 8 → memory (icsAddress madt before + BitVec.ofNat 64 (k + 2)) =
      ics.payload.getD k 0 := by
    intro k small
    rw [encodes.byte_at split (by rw [Ics.length_bytes]; omega),
      List.getD_eq_getElem _ _ (by omega)]
    rfl
  have offset : ∀ k, icsAddress madt before + 4 + BitVec.ofNat 64 k =
      icsAddress madt before + BitVec.ofNat 64 (k + 2 + 2) := by
    intro k
    rw [BitVec.add_assoc, BitVec.ofNat_add, BitVec.ofNat_add]
    bv_omega
  refine ⟨field 1 (by decide), ?_⟩
  rw [Memory.read32_eq_append, Ics.gsi, ← field 2 (by decide), ← field 3 (by decide),
    ← field 4 (by decide), ← field 5 (by decide)]
  simp only [← offset]
  rw [BitVec.add_zero]
  rfl

theorem EncodesMadt.findIcs_returns (encodes : EncodesMadt memory madt structures)
    (type : Word) :
    (∃ before ics after, IsFirst (·.type.setWidth 64 = type) structures before ics after ∧
      Returns (walkIcs memory madt (matchIcs memory type) 0) 0 (icsAddress madt before)) ∨
    (∀ ics ∈ structures, ics.type.setWidth 64 ≠ type) ∧
      Returns (walkIcs memory madt (matchIcs memory type) 0) 0 0 := by
  apply encodes.walk (fun ics => ics.type.setWidth 64 = type) id
  · intro before ics after split selected
    rw [matchIcs, encodes.type_at split, if_pos selected]
    rfl
  · intro before ics after split rejected
    rw [matchIcs, encodes.type_at split, if_neg rejected]

theorem EncodesMadt.findIso_returns (encodes : EncodesMadt memory madt structures)
    (legacy : Byte) :
    (∃ before ics after,
      IsFirst (fun ics => ics.type = 2 ∧ ics.source = legacy) structures before ics after ∧
      Returns (walkIcs memory madt (matchIso memory legacy) (legacy.setWidth 32)) 0 ics.gsi) ∨
    (∀ ics ∈ structures, ¬ (ics.type = 2 ∧ ics.source = legacy)) ∧
      Returns (walkIcs memory madt (matchIso memory legacy) (legacy.setWidth 32)) 0
        (legacy.setWidth 32) := by
  let selects (ics : Ics) : Prop := ics.type = 2 ∧ ics.source = legacy
  let value (header : Word) : BitVec 32 := memory.read32 (header + 4)
  have stops : ∀ before ics after, structures = before ++ ics :: after → selects ics →
      matchIso memory legacy (icsAddress madt before) = some (value (icsAddress madt before)) := by
    rintro before ics after parts ⟨isIso, source⟩
    rw [matchIso, encodes.type_at parts, if_pos isIso, (encodes.iso_at parts isIso).1,
      if_pos source.symm]
  have passes : ∀ before ics after, structures = before ++ ics :: after → ¬ selects ics →
      matchIso memory legacy (icsAddress madt before) = none := by
    intro before ics after parts rejected
    rw [matchIso, encodes.type_at parts]
    split
    next isIso =>
      rw [(encodes.iso_at parts isIso).1, if_neg]
      exact fun source => rejected ⟨isIso, source.symm⟩
    next => rfl
  rcases encodes.walk selects value stops passes with
    ⟨before, ics, after, first, returns⟩ | missing
  · left
    refine ⟨before, ics, after, first, ?_⟩
    rw [← (encodes.iso_at first.split first.selected.1).2]
    exact returns
  · exact Or.inr missing

end FirstMatch

/-- On every table of whole structures both functions return: `find_ics` the address of the
first structure of the type, and `NULL` exactly if there is none; `find_iso` the wiring of
the first override of the interrupt, and the interrupt itself if there is none. -/
theorem madt_walkers_first_match {memory : Memory} {madt : Word} {structures : List Ics}
    (encodes : EncodesMadt memory madt structures) :
    (∀ type : Word, ∃ result,
      (∃ enough, ∀ fuel ≥ enough, findIcs memory madt type fuel = some result) ∧
      ((∃ before ics after, IsFirst (·.type.setWidth 64 = type) structures before ics after ∧
          result = icsAddress madt before) ∨
        (∀ ics ∈ structures, ics.type.setWidth 64 ≠ type) ∧ result = 0) ∧
      (result = 0 ↔ ∀ ics ∈ structures, ics.type.setWidth 64 ≠ type)) ∧
    ∀ legacy : Byte, ∃ result,
      (∃ enough, ∀ fuel ≥ enough, findIso memory madt legacy fuel = some result) ∧
      ((∃ before ics after,
          IsFirst (fun ics => ics.type = 2 ∧ ics.source = legacy) structures before ics after ∧
          result = ics.gsi) ∨
        (∀ ics ∈ structures, ¬ (ics.type = 2 ∧ ics.source = legacy)) ∧
          result = legacy.setWidth 32) := by
  constructor
  · intro type
    rcases encodes.findIcs_returns type with
      ⟨before, ics, after, first, returns⟩ | ⟨missing, returns⟩
    · refine ⟨_, returns.eventually, Or.inl ⟨before, ics, after, first, rfl⟩, ?_⟩
      apply iff_of_false (encodes.icsAddress_ne_zero first.split)
      intro missing
      have member : ics ∈ structures :=
        first.split ▸ List.mem_append_right _ List.mem_cons_self
      exact missing ics member first.selected
    · exact ⟨_, returns.eventually, Or.inr ⟨missing, rfl⟩, iff_of_true rfl missing⟩
  · intro legacy
    rcases encodes.findIso_returns legacy with
      ⟨before, ics, after, first, returns⟩ | ⟨missing, returns⟩
    · exact ⟨_, returns.eventually, Or.inl ⟨before, ics, after, first, rfl⟩⟩
    · exact ⟨_, returns.eventually, Or.inr ⟨missing, rfl⟩⟩

/-- A local APIC, and an override that wires interrupt 0 to line 2. -/
def lapicAndOverride : List Ics :=
  [⟨0, [0, 0, 1, 0, 0, 0], by decide, by decide⟩,
    ⟨2, [0, 0, 2, 0, 0, 0, 0, 0], by decide, by decide⟩]

/-- A MADT at `0x1000` that consists of these two structures. -/
def smallMadt : Memory := fun address =>
  if address = 0x1004 then 62
  else (Ics.serialise lapicAndOverride).getD (address - 0x102c).toNat 0

theorem smallMadt_encodes : EncodesMadt smallMadt 0x1000 lapicAndOverride :=
  ⟨by decide +kernel, by decide +kernel, by decide +kernel⟩

/-- On it, the override is found for interrupt 0, and no structure of type 1. -/
theorem madt_walkers_first_match_small :
    (∃ enough, ∀ fuel ≥ enough, findIcs smallMadt 0x1000 1 fuel = some 0) ∧
      ∃ enough, ∀ fuel ≥ enough, findIso smallMadt 0x1000 0 fuel = some 2 := by
  obtain ⟨ofType, ofLegacy⟩ := madt_walkers_first_match smallMadt_encodes
  obtain ⟨address, found, -, null⟩ := ofType 1
  obtain ⟨gsi, wired, overridden | ⟨missing, -⟩⟩ := ofLegacy 0
  · have none : address = 0 := null.mpr (by simp [lapicAndOverride])
    obtain ⟨before, ics, after, first, rfl⟩ := overridden
    have member : ics ∈ lapicAndOverride :=
      first.split ▸ List.mem_append_right _ List.mem_cons_self
    have line : ics.gsi = 2 := by
      rcases List.mem_pair.mp member with rfl | rfl
      · exact absurd first.selected.1 (by decide)
      · rfl
    exact ⟨none ▸ found, line ▸ wired⟩
  · exact absurd ⟨rfl, rfl⟩ (missing _ (List.mem_cons_of_mem _ List.mem_cons_self))

/-! ## When the walkers return -/

/-- The offsets at which the walk looks for a structure.  It goes on from an offset inside the
table by the length byte it finds there. -/
inductive RecordStart (memory : Memory) (madt : Word) : Word → Prop where
  | first : RecordStart memory madt 0
  | next {i : Word} : RecordStart memory madt i → i < icsLength memory madt →
      RecordStart memory madt (i + (memory (icsHeader madt i + 1)).setWidth 64)

section Termination

variable {memory : Memory} {madt : Word} {β : Type} {found : Word → Option β} {missing : β}

theorem walkIcs_inside {i : Word} (inside : i < icsLength memory madt)
    (passed : found (icsHeader madt i) = none) :
    walkIcs memory madt found missing i =
      .inl (i + (memory (icsHeader madt i + 1)).setWidth 64) := by
  rw [walkIcs, if_pos inside, passed]

/-- A walk that comes to the end of the table returns, whatever it looks for. -/
theorem returns_of_end {last : Word} (start : RecordStart memory madt last)
    (outside : icsLength memory madt ≤ last) :
    ∃ result, Returns (walkIcs memory madt found missing) 0 result := by
  -- Going backwards from the end, the walk returns from every offset.
  have finish : ∃ result, Returns (walkIcs memory madt found missing) last result :=
    ⟨missing, returns_of_inr (by rw [walkIcs, if_neg (BitVec.not_lt.mpr outside)])⟩
  clear outside
  induction start with
  | first => exact finish
  | next start inside ih =>
      apply ih
      obtain ⟨result, returns⟩ := finish
      cases stopped : found (icsHeader madt _) with
      | some value =>
          exact ⟨value, returns_of_inr (by rw [walkIcs, if_pos inside, stopped])⟩
      | none =>
          exact ⟨result, (returns_iff_of_inl (walkIcs_inside inside stopped)).mpr returns⟩

/-- A walk that finds nothing returns at the end of the table only. -/
theorem end_of_returns {i : Word} {result : β} (start : RecordStart memory madt i)
    (nothing : ∀ header, found header = none)
    (returns : Returns (walkIcs memory madt found missing) i result) :
    ∃ last, RecordStart memory madt last ∧ icsLength memory madt ≤ last := by
  let reaches (i : Word) : Prop := RecordStart memory madt i →
    ∃ last, RecordStart memory madt last ∧ icsLength memory madt ≤ last
  refine @Returns.induct _ _ _ _ _ reaches returns ?_ ?_ start
  · intro last stopped start
    refine ⟨last, start, BitVec.not_lt.mp ?_⟩
    intro inside
    rw [walkIcs_inside inside (nothing _)] at stopped
    cases stopped
  · intro i next stepped later start
    by_cases inside : i < icsLength memory madt
    · rw [walkIcs_inside inside (nothing _)] at stepped
      cases stepped
      exact later (start.next inside)
    · exact ⟨i, start, BitVec.not_lt.mp inside⟩

/-- A walk that finds nothing returns from each of its offsets, if it returns at all. -/
theorem RecordStart.returns {i : Word} {result : β} (start : RecordStart memory madt i)
    (nothing : ∀ header, found header = none)
    (returns : Returns (walkIcs memory madt found missing) 0 result) :
    Returns (walkIcs memory madt found missing) i result := by
  induction start with
  | first => exact returns
  | next start inside ih =>
      exact (returns_iff_of_inl (walkIcs_inside inside (nothing _))).mp ih

/-- In a table that is at least as long as its fixed part, the walk comes to the end exactly
if no structure on its way has length 0. -/
theorem reaches_end_iff (whole : 44 ≤ (tableLength memory madt).toNat) :
    (∃ last, RecordStart memory madt last ∧ icsLength memory madt ≤ last) ↔
      ∀ i, RecordStart memory madt i → i < icsLength memory madt →
        memory (icsHeader madt i + 1) ≠ 0 := by
  let nothing (_ : Word) : Option Unit := none
  constructor
  · rintro ⟨last, finish, outside⟩ i start inside empty
    obtain ⟨result, returns⟩ := @returns_of_end memory madt Unit nothing () last finish outside
    have stuck : walkIcs memory madt nothing () i = .inl i := by
      rw [walkIcs_inside inside rfl, empty]
      exact congrArg Sum.inl (BitVec.add_zero i)
    exact not_returns_of_fixed stuck (start.returns (fun _ => rfl) returns)
  · intro advances
    have bound : (icsLength memory madt).toNat < 2 ^ 32 := by
      have limit := (tableLength memory madt).isLt
      rw [toNat_icsLength]
      omega
    obtain ⟨result, returns⟩ := @returns_of_measure _ _ (walkIcs memory madt nothing ()) 0
      (RecordStart memory madt) (fun i => (icsLength memory madt).toNat - i.toNat)
      (by
        intro i next start stepped
        by_cases inside : i < icsLength memory madt
        · have progress := advances i start inside
          rw [walkIcs_inside inside rfl] at stepped
          cases stepped
          refine ⟨start.next inside, ?_⟩
          bv_omega
        · rw [walkIcs, if_neg inside] at stepped
          cases stepped)
      .first
    exact end_of_returns .first (fun _ => rfl) returns

end Termination

/-- Both functions return for everything they may be asked for. -/
def WalkersReturn (memory : Memory) (madt : Word) : Prop :=
  (∀ type, ∃ fuel result, findIcs memory madt type fuel = some result) ∧
    ∀ legacy, ∃ fuel result, findIso memory madt legacy fuel = some result

/-- `find_ics` must come to the end of the table when it looks for a type that no byte
holds. -/
theorem walkersReturn_iff (memory : Memory) (madt : Word) :
    WalkersReturn memory madt ↔
      ∃ last, RecordStart memory madt last ∧ icsLength memory madt ≤ last := by
  constructor
  · rintro ⟨ofType, -⟩
    obtain ⟨fuel, result, finished⟩ := ofType 256
    have nothing : ∀ header, matchIcs memory 256 header = none := by
      intro header
      rw [matchIcs, if_neg]
      bv_omega
    exact end_of_returns .first nothing ⟨fuel, finished⟩
  · rintro ⟨last, start, outside⟩
    constructor
    · intro type
      obtain ⟨result, fuel, finished⟩ := returns_of_end start outside
      exact ⟨fuel, result, finished⟩
    · intro legacy
      obtain ⟨result, fuel, finished⟩ := returns_of_end start outside
      exact ⟨fuel, result, finished⟩

/-- Both functions return exactly if no structure on the way through the table has length 0.
The length of a table shorter than its fixed part wraps around; then the way through memory
must come to an offset behind that wrapped length. -/
theorem madt_walkers_return_iff (memory : Memory) (madt : Word) :
    WalkersReturn memory madt ↔
      if 44 ≤ (tableLength memory madt).toNat then
        ∀ i, RecordStart memory madt i → i < icsLength memory madt →
          memory (icsHeader madt i + 1) ≠ 0
      else
        ∃ last, RecordStart memory madt last ∧ icsLength memory madt ≤ last := by
  rw [walkersReturn_iff]
  split
  next whole => exact reaches_end_iff whole
  next => exact Iff.rfl

/-- A MADT at `0x1000` of 46 bytes, whose only structure has type 0 and length 0. -/
def emptyRecord : Memory := fun address =>
  if address = 0x1004 then 46 else 0

/-- On it `find_ics` looks for a structure of type 1 forever. -/
theorem empty_record_never_left :
    (∀ fuel, findIcs emptyRecord 0x1000 1 fuel = none) ∧ ¬ WalkersReturn emptyRecord 0x1000 := by
  have stuck : walkIcs emptyRecord 0x1000 (matchIcs emptyRecord 1) 0 0 = .inl 0 := by
    decide +kernel
  have forever : ∀ fuel, findIcs emptyRecord 0x1000 1 fuel = none := by
    intro fuel
    cases finished : findIcs emptyRecord 0x1000 1 fuel with
    | none => rfl
    | some result => exact absurd ⟨fuel, finished⟩ (not_returns_of_fixed stuck)
  refine ⟨forever, ?_⟩
  rintro ⟨ofType, -⟩
  obtain ⟨fuel, result, finished⟩ := ofType 1
  rw [forever fuel] at finished
  cases finished

end Lord84
