import Lord84.Mm.VmmInit
import Mathlib.Data.List.Pairwise
import Mathlib.Data.Nat.Bitwise

/-!
# What the kernel page map permits

After `pmm_init` and `vmm_init` the processor runs on the kernel page map.  The direct
map must still reach every page that the physical allocator owns, and the sections of
the kernel image are meant to be protected.  Both are questions about the permissions
that the four levels of a translation grant together.
-/

namespace Lord84

open Theory

/-! ## Permissions of a translation -/

section Permissions

variable {hhdmoffset root : Word} {s : MmState} {virtAddr entry : Word}

/-- Above the leaf, a translation only meets entries that `get_lower_table` wrote. -/
theorem TablesWF.walk_of_translate (wf : TablesWF hhdmoffset root s)
    (mapped : translate s.memory root virtAddr = some entry) :
    ∃ pdp pd pt, walk s.memory root virtAddr = some
      { pml4e := tableEntry (pdp &&& addressMask), pdpte := tableEntry (pd &&& addressMask),
        pde := tableEntry (pt &&& addressMask), pte := entry } := by
  have inner : ∀ path table index lower, path.length < 3 →
      tableAt s.memory root path = some table →
      child (entryAt s.memory table index) = some lower →
      entryAt s.memory table index = tableEntry (lower &&& addressMask) := by
    intro path table index lower short found below
    have framed : lower &&& addressMask = lower := by
      rw [← (child_eq_some_iff.mp below).2]
      exact isFrame_and_addressMask _
    rw [framed]
    exact wf.interior path table index lower short found below
  rw [translate, Option.map_eq_some_iff] at mapped
  obtain ⟨result, walked, leaf⟩ := mapped
  rw [walked]
  simp only [walk, Option.bind_eq_bind, Option.bind_eq_some_iff] at walked
  obtain ⟨pdp, pdpFound, pd, pdFound, pt, ptFound, frame, -, made⟩ := walked
  cases made
  refine ⟨pdp, pd, pt, ?_⟩
  simp only [Option.some.injEq, PageWalk.mk.injEq]
  refine ⟨?_, ?_, ?_, leaf⟩
  · exact inner [] root _ pdp (by simp) rfl pdpFound
  · exact inner [virtAddr.extractLsb' 39 9] pdp _ pd (by simp)
      (by simp [tableAt, RadixTree.node, pdpFound]) pdFound
  · exact inner [virtAddr.extractLsb' 39 9, virtAddr.extractLsb' 30 9] pd _ pt (by simp)
      (by simp [tableAt, RadixTree.node, pdpFound, pdFound]) ptFound

theorem tableEntry_writable (table : Word) : tableEntry table &&& writableBit ≠ 0 := by
  intro absent
  have bit := congrArg (fun entry => entry.getLsbD 1) absent
  simp [tableEntry, writableBit, pteBitPresent, pteBitRw, pteBitUs] at bit

theorem tableEntry_executable (entry : Word) :
    tableEntry (entry &&& addressMask) &&& executeDisableBit = 0 := by
  simp only [tableEntry, BitVec.and_or_distrib_right]
  rw [BitVec.and_assoc, show addressMask &&& executeDisableBit = 0#64 by decide,
    show pteBitPresent &&& executeDisableBit = 0#64 by decide,
    show pteBitRw &&& executeDisableBit = 0#64 by decide,
    show pteBitUs &&& executeDisableBit = 0#64 by decide]
  simp

/-- The entries above the leaf are permissive: the leaf alone decides. -/
theorem TablesWF.permissions (wf : TablesWF hhdmoffset root s)
    (mapped : translate s.memory root virtAddr = some entry) :
    ∃ result, walk s.memory root virtAddr = some result ∧
      result.frame = entry &&& addressMask ∧
      (result.Writable ↔ entry &&& writableBit ≠ 0) ∧
      (result.Executable ↔ entry &&& executeDisableBit = 0) := by
  obtain ⟨pdp, pd, pt, walked⟩ := wf.walk_of_translate mapped
  refine ⟨_, walked, rfl, ?_, ?_⟩
  · simp only [PageWalk.Writable, PageWalk.entries, List.forall_mem_cons, tableEntry_writable,
      ne_eq, not_false_eq_true, true_and, List.not_mem_nil, false_implies, implies_true,
      and_true]
  · simp only [PageWalk.Executable, PageWalk.entries, List.forall_mem_cons,
      tableEntry_executable, true_and, List.not_mem_nil, false_implies, implies_true, and_true]

end Permissions

/-! ## The direct map -/

/-- Two entries of the memory map do not overlap. -/
def MemmapEntry.Apart (left right : MemmapEntry) : Prop :=
  left.base.toNat + left.length.toNat ≤ right.base.toNat ∨
    right.base.toNat + right.length.toNat ≤ left.base.toNat

namespace BootInfo

variable (info : BootInfo)

/-- Boot information as the bootloader and the linker script deliver it: physical
addresses are below 2^46, no entry of the memory map overlaps a usable one, and the
direct map, the kernel image and the mapped devices and tables start on pages. -/
structure WellFormed : Prop where
  below : ∀ entry ∈ info.memmap.entries, entry.base.toNat + entry.length.toNat ≤ 2 ^ 46
  apart : info.memmap.entries.Pairwise fun left right =>
    left.type = .usable ∨ right.type = .usable → left.Apart right
  hhdm : PageAligned info.hhdmoffset
  kernel : ∀ kernel ∈ info.kernelAddress,
    PageAligned kernel.virtualBase ∧ PageAligned kernel.physicalBase
  lapic : PageAligned info.lapicAddress
  acpi : ∀ table ∈ info.acpiTable, PageAligned table.address

/-- The mappings of the image, the APIC and the tables fall on direct-map addresses of
usable pages at most as the identity. -/
def IdentityOnUsable : Prop :=
  ∀ mapping ∈ info.kernelMappings, ∀ page, PageAligned page →
    InUsable info.memmap.entries page →
    virtualPage mapping.virtAddr = virtualPage (info.hhdmoffset + page) →
    mapping.physAddr = page

/-- The calls of `vmm_map_page` for the three sections of the kernel. -/
def imageMappings : List Mapping :=
  info.textMappings ++ (info.rodataMappings ++ info.dataMappings)

/-- The kernel image is not in usable memory: the memory map has an entry of its own for it, and
no entry overlaps a usable one. -/
def ImageReserved : Prop :=
  ∀ mapping ∈ info.imageMappings, ¬ InUsable info.memmap.entries mapping.physAddr

/-- On direct-map addresses of usable pages there are only writable identities. -/
def WritableOnUsable : Prop :=
  ∀ mapping ∈ info.kernelMappings, ∀ page, PageAligned page →
    InUsable info.memmap.entries page →
    virtualPage mapping.virtAddr = virtualPage (info.hhdmoffset + page) →
    mapping.physAddr = page ∧ mapping.flags &&& pteBitRw ≠ 0

/-- The kernel page map reaches every page of the allocator, be it free or used for a
table, at its place in the direct map. -/
def DirectMapCovers (final : MmState) : Prop :=
  ∀ page, (page ∈ freePages info.hhdmoffset final ∨
      IsTable final.memory (info.root final) page) →
    ∃ result, walk final.memory (info.root final) (info.hhdmoffset + page) = some result ∧
      result.frame = page ∧ result.Writable

variable {info} {memory : Memory} {final : MmState}

/-- Where the image is not, an identity is one of the APIC or of the tables, and these are
writable. -/
theorem writableOnUsable (clean : info.IdentityOnUsable) (reserved : info.ImageReserved) :
    info.WritableOnUsable := by
  intro mapping member page aligned usable same
  have identity := clean mapping member page aligned usable same
  refine ⟨identity, ?_⟩
  have split : mapping ∈ info.imageMappings ∨ mapping ∈ info.lapicMapping :: info.acpiMappings := by
    rw [kernelMappings] at member
    rw [imageMappings]
    simp only [List.mem_append] at member ⊢
    tauto
  have device : (pteBitPresent ||| pteBitRw ||| pteBitNx) &&& pteBitRw ≠ 0 := by decide
  rcases split with image | later
  · exact absurd (identity ▸ usable) (reserved mapping image)
  · rcases List.mem_cons.mp later with rfl | table
    · exact device
    · rw [acpiMappings] at table
      split at table
      · cases table
      · obtain ⟨_, -, rfl⟩ := List.mem_map.mp table
        exact device

/-- Addresses of the direct map on the same page belong to the same physical page. -/
theorem virtualPage_direct {hhdmoffset left right : Word} (aligned : PageAligned hhdmoffset)
    (leftSmall : left.toNat < 2 ^ 48) (rightSmall : right.toNat < 2 ^ 48)
    (same : virtualPage (hhdmoffset + left) = virtualPage (hhdmoffset + right)) :
    left.toNat / blockSize = right.toNat / blockSize := by
  have sameNat := congrArg BitVec.toNat same
  simp only [virtualPage, BitVec.extractLsb'_toNat, BitVec.toNat_add,
    Nat.shiftRight_eq_div_pow] at sameNat
  simp only [PageAligned, blockSize] at aligned ⊢
  omega

/-- The loop over a memory map entry stays inside the entry. -/
theorem mem_entryMappings {entry : MemmapEntry} {mapping : Mapping}
    (bounded : entry.base.toNat + entry.length.toNat ≤ 2 ^ 64)
    (member : mapping ∈ info.entryMappings entry) :
    ∃ number, number * blockSize < entry.length.toNat ∧
      mapping.physAddr.toNat = entry.base.toNat + number * blockSize ∧
      mapping.virtAddr = info.hhdmoffset + mapping.physAddr ∧
      entryFlags entry.type = some mapping.flags := by
  rw [entryMappings] at member
  split at member
  · cases member
  next flags chosen =>
    obtain ⟨j, counted, rfl⟩ := List.mem_map.mp member
    obtain ⟨number, within, rfl⟩ := mem_pageRange.mp counted
    rw [show (0 : Word).toNat = 0 from rfl, Nat.zero_add] at within
    refine ⟨number, within, ?_, BitVec.add_comm _ _, chosen⟩
    rw [show (0 : Word) = 0#64 from rfl, BitVec.zero_add, BitVec.toNat_add, BitVec.toNat_ofNat]
    omega

/-- Every page of a usable entry is mapped by the loop over the memory map. -/
theorem exists_entryMapping {entry : MemmapEntry} {page : Word} (usable : entry.type = .usable)
    (baseAligned : PageAligned entry.base) (aligned : PageAligned page)
    (above : entry.base.toNat ≤ page.toNat)
    (inside : page.toNat + blockSize ≤ entry.base.toNat + entry.length.toNat) :
    ∃ mapping ∈ info.entryMappings entry, mapping.virtAddr = info.hhdmoffset + page := by
  rw [entryMappings, usable]
  simp only [PageAligned, blockSize] at baseAligned aligned inside
  refine ⟨_, List.mem_map_of_mem (a := page - entry.base) (mem_pageRange.mpr ?_), ?_⟩
  · rw [show (0 : Word) = 0#64 from rfl, BitVec.toNat_ofNat]
    refine ⟨(page.toNat - entry.base.toNat) / 4096, ?_, ?_⟩
    · simp only [blockSize]
      omega
    · apply BitVec.eq_of_toNat_eq
      rw [BitVec.zero_add, BitVec.toNat_ofNat, BitVec.toNat_sub]
      simp only [blockSize]
      omega
  · rw [BitVec.add_comm entry.base, BitVec.sub_add_cancel, BitVec.add_comm]

/-- The same, for all pages of the allocator at once. -/
theorem exists_mapping_of_published {page : Word}
    (published : page ∈ publishedPages info.memmap.entries true) :
    ∃ mapping ∈ info.mappings, mapping.virtAddr = info.hhdmoffset + page := by
  obtain ⟨⟨entry, member, usable, above, inside⟩, aligned⟩ :=
    info.memmap.publishedPages_inUsable published
  obtain ⟨mapping, listed, address⟩ := @exists_entryMapping info entry page usable
    (info.memmap.usable_aligned entry member usable).1 aligned above inside
  exact ⟨mapping, List.mem_append_left _ (List.mem_flatMap.mpr ⟨entry, member, listed⟩), address⟩

/-- All mappings on the direct-map address of a usable page are writable ones of that
page. -/
theorem mapping_of_usable (input : info.WellFormed) (clean : info.WritableOnUsable)
    {mapping : Mapping} (member : mapping ∈ info.mappings) {page : Word}
    (aligned : PageAligned page) (usable : InUsable info.memmap.entries page)
    (same : virtualPage mapping.virtAddr = virtualPage (info.hhdmoffset + page)) :
    mapping.physAddr = page ∧ mapping.flags &&& pteBitRw ≠ 0 := by
  rw [mappings, List.mem_append] at member
  rcases member with listed | later
  · obtain ⟨other, otherMem, found⟩ := List.mem_flatMap.mp listed
    have otherBelow := input.below other otherMem
    obtain ⟨number, within, address, virtual, chosen⟩ := mem_entryMappings (by omega) found
    obtain ⟨entry, entryMem, isUsable, above, inside⟩ := usable
    have entryBelow := input.below entry entryMem
    have entryAligned := info.memmap.usable_aligned entry entryMem isUsable
    simp only [PageAligned, blockSize] at *
    rw [virtual] at same
    have samePage := virtualPage_direct input.hhdm (by omega) (by omega) same
    simp only [blockSize] at samePage
    -- The mapped byte lies in the usable entry, so the two entries are the same.
    by_cases equal : entry = other
    · subst equal
      rw [isUsable] at chosen
      constructor
      · apply BitVec.eq_of_toNat_eq
        omega
      · rw [← Option.some.inj chosen]
        decide
    · have symmetric : Std.Symm fun left right : MemmapEntry =>
          left.type = .usable ∨ right.type = .usable → left.Apart right :=
        ⟨fun left right apart either => (apart either.symm).symm⟩
      have apart := input.apart.forall entryMem otherMem equal (Or.inl isUsable)
      rw [MemmapEntry.Apart] at apart
      omega
  · exact clean mapping later page aligned usable same

end BootInfo

/-- On every machine on which the image, the APIC and the tables fall on direct-map addresses of
usable pages at most as the identity, the direct map of the finished kernel page map covers all
pages of the allocator. -/
theorem direct_map_covers {info : BootInfo} {memory : Memory} {final : MmState}
    (input : info.WellFormed) (reserved : info.ImageReserved) (clean : info.IdentityOnUsable)
    (finished : info.boot memory = .done final) : info.DirectMapCovers final := by
  have writable := info.writableOnUsable clean reserved
  have booted : info.Booted final := by
    apply BootInfo.boot_spec _ finished
    intro entry member _
    have below := input.below entry member
    omega
  intro page owned
  have published := (booted.pages page).mp owned
  obtain ⟨usable, aligned⟩ := info.memmap.publishedPages_inUsable published
  have frame : IsFrame page := by
    obtain ⟨entry, member, -, -, inside⟩ := usable
    have below := input.below entry member
    apply isFrame_of_pageAligned aligned
    simp only [blockSize] at inside
    omega
  obtain ⟨mapping, called, address⟩ := BootInfo.exists_mapping_of_published published
  obtain ⟨last, isLast⟩ := exists_lastMapping called
  rw [address] at isLast
  obtain ⟨lastMem, lastPage⟩ := lastMapping_eq_some isLast
  obtain ⟨identity, writes⟩ :=
    BootInfo.mapping_of_usable input writable lastMem aligned usable lastPage
  have mapped : translate final.memory (info.root final) (info.hhdmoffset + page) =
      some last.entry := by
    rw [booted.translate, isLast]
    rfl
  obtain ⟨result, walked, sameFrame, isWritable, -⟩ := booted.wf.permissions mapped
  refine ⟨result, walked, ?_, isWritable.mpr ?_⟩
  · rw [sameFrame, Mapping.entry, identity, BitVec.and_or_distrib_right,
      BootInfo.flags_and_addressMask lastMem, frame]
    exact BitVec.or_zero
  · rw [Mapping.entry, BitVec.and_or_distrib_right]
    intro absent
    exact writes (BitVec.or_eq_zero_iff.mp absent).2

/-- Eleven usable pages and one page of ACPI tables behind them. -/
def smallMemmap : LimineMemmap where
  entries := [⟨0x100000, 0xb000, .usable⟩, ⟨0x10b000, 0x1000, .acpiReclaimable⟩]
  usable_aligned := by decide
  usable_bounded := by decide
  usable_disjoint := by decide

/-- A small machine with a kernel image of three pages at `image`. -/
def smallMachine (image : Word) (kernelAddress : KernelAddress) : BootInfo where
  memmap := smallMemmap
  hhdmoffset := 0xffff800000000000
  kernelAddress := some kernelAddress
  textStartAddr := image
  textEndAddr := image + 0x800
  rodataStartAddr := image + 0x2000
  rodataEndAddr := image + 0x2800
  dataStartAddr := image + 0x4000
  dataEndAddr := image + 0x4800
  lapicAddress := 0xffff8000fee00000
  xsdt := some ⟨0xffff80000010b000, 0x54⟩
  rsdt := none

section SmallMachine

variable {image : Word} {kernelAddress : KernelAddress}

theorem usableBelow_of_smallMemmap {info : BootInfo} (memmap : info.memmap = smallMemmap)
    (bound : Nat) (enough : 0x10b000 ≤ bound) : info.UsableBelow bound := by
  intro entry member usable
  simp only [memmap, smallMemmap, List.mem_cons, List.not_mem_nil, or_false] at member
  rcases member with rfl | rfl
  · exact enough
  · cases usable

theorem smallMachine_usableBelow (bound : Nat) (enough : 0x10b000 ≤ bound) :
    (smallMachine image kernelAddress).UsableBelow bound :=
  usableBelow_of_smallMemmap rfl bound enough

/-- A machine with this memory map has enough pages for tables in three places. -/
theorem boots_of_smallMemmap {info : BootInfo} {first second third : List (BitVec 9)}
    (memmap : info.memmap = smallMemmap) (direct : info.hhdmoffset = 0xffff800000000000)
    (memory : Memory) (text : info.SectionProceeds info.textStart info.textEnd)
    (rodata : info.SectionProceeds info.rodataStart info.rodataEnd)
    (data : info.SectionProceeds info.dataStart info.dataEnd) (acpi : info.acpiTable ≠ none)
    (covered : (info.mappings.all fun mapping =>
      [first, second, third].contains (tablePath mapping.virtAddr)) = true) :
    ∃ final, info.boot memory = .done final := by
  have entries : ∀ entry ∈ info.memmap.entries, entryFlags entry.type ≠ none →
      LoopExits 0 entry.length := by
    intro entry member _
    simp only [memmap, smallMemmap, List.mem_cons, List.not_mem_nil, or_false] at member
    rcases member with rfl | rfl <;> decide
  have noNull : ∀ page ∈ publishedPages info.memmap.entries true,
      page ≠ 0 ∧ page + info.hhdmoffset ≠ 0 := by
    have all : ((publishedPages smallMemmap.entries true).all
        fun page => page ≠ 0 ∧ page + 0xffff800000000000 ≠ 0) = true := by
      decide +kernel
    rw [memmap, direct]
    intro page published
    exact of_decide_eq_true (List.all_eq_true.mp all page published)
  have room : 3 * 3 < (publishedPages info.memmap.entries true).length := by
    rw [memmap]
    decide +kernel
  obtain ⟨final, finished, -⟩ := BootInfo.boot_returns
    (usableBelow_of_smallMemmap memmap _ (by decide)) ⟨entries, text, rodata, data, acpi⟩ noNull
    (fun mapping member => List.contains_iff_mem.mp (List.all_eq_true.mp covered mapping member))
    room
  exact ⟨final, finished⟩

/-- The small machine has enough pages for the tables, whatever memory holds. -/
theorem smallMachine_boots (memory : Memory)
    (text : LoopExits (smallMachine image kernelAddress).textStart
      (smallMachine image kernelAddress).textEnd)
    (rodata : LoopExits (smallMachine image kernelAddress).rodataStart
      (smallMachine image kernelAddress).rodataEnd)
    (data : LoopExits (smallMachine image kernelAddress).dataStart
      (smallMachine image kernelAddress).dataEnd)
    (covered : ((smallMachine image kernelAddress).mappings.all fun mapping =>
      [tablePath 0xffff800000100000, tablePath image, tablePath 0xffff8000fee00000].contains
        (tablePath mapping.virtAddr)) = true) :
    ∃ final, (smallMachine image kernelAddress).boot memory = .done final := by
  refine boots_of_smallMemmap rfl rfl memory ⟨text, ?_⟩ ⟨rodata, ?_⟩ ⟨data, ?_⟩ ?_ covered
  all_goals simp [smallMachine, BootInfo.acpiTable]

theorem smallMachine_wellFormed (virtual : PageAligned kernelAddress.virtualBase)
    (physical : PageAligned kernelAddress.physicalBase) :
    (smallMachine image kernelAddress).WellFormed := by
  constructor
  · intro entry member
    simp only [smallMachine, smallMemmap, List.mem_cons, List.not_mem_nil, or_false] at member
    rcases member with rfl | rfl <;> decide
  · simp [smallMachine, smallMemmap, MemmapEntry.Apart]
  · exact (by decide : PageAligned 0xffff800000000000)
  · intro kernel found
    cases found
    exact ⟨virtual, physical⟩
  · exact (by decide : PageAligned 0xffff8000fee00000)
  · intro table found
    cases found
    decide

theorem smallMemmap_usable {page : Word} (usable : InUsable smallMemmap.entries page) :
    0x100000 ≤ page.toNat ∧ page.toNat < 0x10b000 := by
  obtain ⟨entry, member, isUsable, above, inside⟩ := usable
  simp only [smallMemmap, List.mem_cons, List.not_mem_nil, or_false] at member
  rcases member with rfl | rfl
  · simp only [blockSize] at inside
    simp only [BitVec.ofNat_eq_ofNat, BitVec.toNat_ofNat] at above inside
    omega
  · cases isUsable

/-- The only virtual pages on which the direct map of the small machine has usable pages. -/
theorem smallMachine_usable {page virtAddr : Word} (aligned : PageAligned page)
    (usable : InUsable smallMemmap.entries page)
    (same : virtualPage virtAddr = virtualPage (0xffff800000000000 + page)) :
    virtAddr.toNat / 4096 % 2 ^ 36 = 0x800000000 + page.toNat / 4096 ∧
      0x100000 ≤ page.toNat ∧ page.toNat < 0x10b000 ∧ page.toNat % 4096 = 0 := by
  obtain ⟨above, below⟩ := smallMemmap_usable usable
  have sameNat := congrArg BitVec.toNat same
  simp only [virtualPage, BitVec.extractLsb'_toNat, BitVec.toNat_add,
    BitVec.ofNat_eq_ofNat, BitVec.toNat_ofNat, Nat.shiftRight_eq_div_pow] at sameNat
  simp only [PageAligned, blockSize] at aligned
  omega

end SmallMachine

/-- The kernel of the small machine in the higher half, away from the direct map. -/
theorem higherHalf_boots : ∃ final,
    (smallMachine 0xffffffff80000000 ⟨0x200000, 0xffffffff80000000⟩).boot (fun _ => 0) =
      .done final :=
  smallMachine_boots _ (by decide +kernel) (by decide +kernel) (by decide +kernel)
    (by decide +kernel)

/-- The higher-half kernel is away from the direct map of usable pages. -/
theorem direct_map_covers_higherHalf : ∃ final,
    (smallMachine 0xffffffff80000000 ⟨0x200000, 0xffffffff80000000⟩).boot (fun _ => 0) =
      .done final ∧
    (smallMachine 0xffffffff80000000 ⟨0x200000, 0xffffffff80000000⟩).DirectMapCovers final := by
  obtain ⟨final, finished⟩ := higherHalf_boots
  refine ⟨final, finished, direct_map_covers ?_ ?_ ?_ finished⟩
  · exact smallMachine_wellFormed (by decide) (by decide)
  · have frames : (smallMachine 0xffffffff80000000
        ⟨0x200000, 0xffffffff80000000⟩).imageMappings.map Mapping.physAddr =
        [0x200000, 0x202000, 0x204000] := by
      decide +kernel
    intro mapping member usable
    have frame := List.mem_map_of_mem (f := Mapping.physAddr) member
    rw [frames] at frame
    obtain ⟨-, bound⟩ := smallMemmap_usable usable
    simp only [List.mem_cons, List.not_mem_nil, or_false] at frame
    rcases frame with here | here | here <;> rw [here] at bound <;>
      simp only [BitVec.ofNat_eq_ofNat, BitVec.toNat_ofNat] at bound <;> omega
  · have listed : (smallMachine 0xffffffff80000000
        ⟨0x200000, 0xffffffff80000000⟩).kernelMappings.map Mapping.virtAddr =
        [0xffffffff80000000, 0xffffffff80002000, 0xffffffff80004000, 0xffff8000fee00000,
          0xffff80000010b000] := by
      decide +kernel
    intro mapping member page aligned usable same
    have address := List.mem_map_of_mem (f := Mapping.virtAddr) member
    rw [listed] at address
    have only := smallMachine_usable aligned usable same
    simp only [List.mem_cons, List.not_mem_nil, or_false] at address
    rcases address with here | here | here | here | here <;> rw [here] at only <;>
      simp only [BitVec.ofNat_eq_ofNat, BitVec.toNat_ofNat] at only <;> omega

/-! ## Protection of the kernel image -/

namespace BootInfo

variable (info : BootInfo)

/-- The protection that the flags of `vmm_init` ask for, as the processor sees it: text is
not writable, read-only data is neither writable nor executable, data is not executable,
and no page is executable whose last mapping passed `PTE_BIT_NX`. -/
structure ImageProtected (final : MmState) : Prop where
  text : ∀ virtAddr, info.textStart ≤ virtAddr → virtAddr < info.textEnd →
    ∀ result ∈ walk final.memory (info.root final) virtAddr, ¬ result.Writable
  rodata : ∀ virtAddr, info.rodataStart ≤ virtAddr → virtAddr < info.rodataEnd →
    ∀ result ∈ walk final.memory (info.root final) virtAddr,
      ¬ result.Writable ∧ ¬ result.Executable
  data : ∀ virtAddr, info.dataStart ≤ virtAddr → virtAddr < info.dataEnd →
    ∀ result ∈ walk final.memory (info.root final) virtAddr, ¬ result.Executable
  nx : ∀ virtAddr mapping, lastMapping info.mappings (virtualPage virtAddr) = some mapping →
    mapping.flags &&& pteBitNx ≠ 0 →
    ∀ result ∈ walk final.memory (info.root final) virtAddr, ¬ result.Executable

/-- The root table of ACPI lies in the physical address space of the processor. -/
def AcpiBelow (bound : Nat) : Prop :=
  ∀ table ∈ info.acpiTable,
    (table.address - info.hhdmoffset).toNat + table.length.toNat < bound

variable {info} {memory : Memory} {final : MmState}

/-- None of the flags that `vmm_init` uses has the execute-disable bit of the processor. -/
theorem flags_and_executeDisableBit {mapping : Mapping} (member : mapping ∈ info.mappings) :
    mapping.flags &&& executeDisableBit = 0 := by
  have all : ∀ flags ∈ usedFlags, flags &&& executeDisableBit = 0 := by
    simp only [usedFlags, List.forall_mem_cons]
    exact ⟨by decide, by decide, by decide, by decide, by simp⟩
  exact all _ (flags_mem member)

/-- Every page that the kernel page map translates to a physical address is executable,
whatever flags it was mapped with. -/
theorem Booted.executable (booted : info.Booted final) {virtAddr : Word} {mapping : Mapping}
    (last : lastMapping info.mappings (virtualPage virtAddr) = some mapping)
    (small : mapping.physAddr.toNat < 2 ^ 63) :
    ∃ result, walk final.memory (info.root final) virtAddr = some result ∧
      result.Executable := by
  have mapped : Lord84.translate final.memory (info.root final) virtAddr =
      some mapping.entry := by
    rw [booted.translate, last]
    rfl
  obtain ⟨result, walked, -, -, executable⟩ := booted.wf.permissions mapped
  refine ⟨result, walked, executable.mpr ?_⟩
  have clear : mapping.physAddr &&& executeDisableBit = 0 := by
    apply BitVec.eq_of_toNat_eq
    have bit : executeDisableBit.toNat = 2 ^ 63 := by decide
    rw [BitVec.toNat_and, bit, Nat.and_two_pow, Nat.testBit_lt_two_pow small]
    rfl
  rw [Mapping.entry, BitVec.and_or_distrib_right, clear,
    flags_and_executeDisableBit (lastMapping_eq_some last).1]
  rfl

/-- The last call of `vmm_init` passes `PTE_BIT_NX`. -/
theorem exists_nx_mapping (small : info.AcpiBelow (2 ^ 52)) (proceeds : info.Proceeds) :
    ∃ mapping, lastMapping info.mappings (virtualPage mapping.virtAddr) = some mapping ∧
      mapping.flags &&& pteBitNx ≠ 0 ∧ mapping.physAddr.toNat < 2 ^ 63 := by
  obtain ⟨table, found⟩ := Option.ne_none_iff_exists'.mp proceeds.acpi
  have tableSmall := small table found
  refine ⟨
    { virtAddr := table.address + BitVec.ofNat 64 (table.length.toNat / blockSize) * pageSize
      physAddr := table.address - info.hhdmoffset +
        BitVec.ofNat 64 (table.length.toNat / blockSize) * pageSize
      flags := pteBitPresent ||| pteBitRw ||| pteBitNx }, ?_, ?_, ?_⟩
  · rw [mappings, kernelMappings, acpiMappings, found]
    simp only [List.range_succ, List.map_append, List.map_cons, List.map_nil]
    rw [← List.cons_append, ← List.append_assoc, ← List.append_assoc, ← List.append_assoc,
      ← List.append_assoc]
    exact lastMapping_concat _ _
  · exact (by decide : (pteBitPresent ||| pteBitRw ||| pteBitNx) &&& pteBitNx ≠ 0)
  · have length := table.length.isLt
    simp only [blockSize, pageSize, BitVec.toNat_add, BitVec.toNat_mul, BitVec.ofNat_eq_ofNat,
      BitVec.toNat_ofNat]
    omega

end BootInfo

/-- `PTE_BIT_NX` is not the execute-disable bit, so the protection fails on every machine on
which `vmm_init` returns. -/
theorem image_never_protected {info : BootInfo} {memory : Memory} {final : MmState}
    (usableSmall : info.UsableBelow (2 ^ 52)) (acpiSmall : info.AcpiBelow (2 ^ 52))
    (finished : info.boot memory = .done final) : ¬ info.ImageProtected final := by
  intro isProtected
  have booted := BootInfo.boot_spec usableSmall finished
  obtain ⟨mapping, last, marked, small⟩ :=
    BootInfo.exists_nx_mapping acpiSmall (BootInfo.proceeds_of_boot finished)
  obtain ⟨result, walked, executable⟩ := booted.executable last small
  exact isProtected.nx _ mapping last marked result walked executable

theorem smallMachine_acpiBelow {image : Word} {kernelAddress : KernelAddress} :
    (smallMachine image kernelAddress).AcpiBelow (2 ^ 52) := by
  intro table found
  cases found
  exact (by decide : (0xffff80000010b000 - 0xffff800000000000 : Word).toNat +
    (0x54 : BitVec 32).toNat < 2 ^ 52)

theorem image_never_protected_higherHalf : ∃ final,
    (smallMachine 0xffffffff80000000 ⟨0x200000, 0xffffffff80000000⟩).boot (fun _ => 0) =
      .done final ∧
    ¬ (smallMachine 0xffffffff80000000 ⟨0x200000, 0xffffffff80000000⟩).ImageProtected
      final := by
  obtain ⟨final, finished⟩ := higherHalf_boots
  exact ⟨final, finished, image_never_protected (smallMachine_usableBelow _ (by decide))
    smallMachine_acpiBelow finished⟩

/-- The data section of the higher-half kernel is executable. -/
theorem higherHalf_data_executable :
    let info := smallMachine 0xffffffff80000000 ⟨0x200000, 0xffffffff80000000⟩
    ∃ final, info.boot (fun _ => 0) = .done final ∧
      info.dataStart ≤ 0xffffffff80004000 ∧ 0xffffffff80004000 < info.dataEnd ∧
      (∃ result, walk final.memory (info.root final) 0xffffffff80004000 = some result ∧
        result.Executable) ∧
      ¬ info.ImageProtected final := by
  intro info
  obtain ⟨final, finished⟩ := higherHalf_boots
  have booted : info.Booted final :=
    BootInfo.boot_spec (smallMachine_usableBelow _ (by decide)) finished
  have last : lastMapping info.mappings (virtualPage 0xffffffff80004000) =
      some ⟨0xffffffff80004000, 0x204000, 0x4000000000000003⟩ := by decide +kernel
  obtain ⟨result, walked, executable⟩ := booted.executable last (by decide)
  have above : info.dataStart ≤ 0xffffffff80004000 := by decide +kernel
  have below : 0xffffffff80004000 < info.dataEnd := by decide +kernel
  refine ⟨final, finished, above, below, ⟨result, walked, executable⟩, ?_⟩
  intro isProtected
  exact isProtected.data _ above below result walked executable

/-! ## What does hold: read-only sections -/

namespace BootInfo

variable {info : BootInfo} {final : MmState}

/-- No other mapping of the kernel falls on a page of a read-only section. -/
def SectionsApart (info : BootInfo) : Prop :=
  ∀ mapping ∈ info.kernelMappings, ∀ other ∈ info.textMappings ++ info.rodataMappings,
    virtualPage mapping.virtAddr = virtualPage other.virtAddr →
    mapping ∈ info.textMappings ++ info.rodataMappings

theorem pageAligned_alignDown (address : Word) : PageAligned (alignDown address) := by
  rw [pageAligned_iff, alignDown, BitVec.and_assoc,
    show ~~~(pageSize - 1) &&& 0xfff = 0#64 by decide, BitVec.and_zero]
  rfl

/-- Every address of a section lies on a page that the loop over the section maps. -/
theorem exists_sectionMapping {start stop virtAddr : Word} (flags : Word)
    (aligned : PageAligned start) (proceeds : info.SectionProceeds start stop)
    (above : start ≤ virtAddr) (below : virtAddr < stop) :
    ∃ mapping ∈ info.sectionMappings start stop flags,
      virtualPage mapping.virtAddr = virtualPage virtAddr := by
  have bound := virtAddr.isLt
  rw [BitVec.le_def] at above
  rw [BitVec.lt_def] at below
  simp only [PageAligned, blockSize] at aligned
  let number := (virtAddr.toNat - start.toNat) / blockSize
  have address : (start + BitVec.ofNat 64 (number * blockSize)).toNat =
      start.toNat + number * blockSize := by
    simp only [number, blockSize, BitVec.toNat_add, BitVec.toNat_ofNat]
    omega
  have listed : start + BitVec.ofNat 64 (number * blockSize) ∈ pageRange start stop := by
    refine mem_pageRange.mpr ⟨number, ?_, rfl⟩
    simp only [number, blockSize]
    omega
  have same : virtualPage (start + BitVec.ofNat 64 (number * blockSize)) =
      virtualPage virtAddr := by
    apply BitVec.eq_of_toNat_eq
    simp only [virtualPage, BitVec.extractLsb'_toNat, Nat.shiftRight_eq_div_pow, address]
    simp only [number, blockSize]
    omega
  cases found : info.kernelAddress with
  | none =>
      rw [proceeds.2 found] at listed
      cases listed
  | some kernel =>
      rw [sectionMappings, found]
      exact ⟨_, List.mem_map_of_mem listed, same⟩

/-- A read-only section is mapped without the writable bit. -/
theorem entry_of_readOnly {mapping : Mapping}
    (kernelAligned : ∀ kernel ∈ info.kernelAddress,
      PageAligned kernel.virtualBase ∧ PageAligned kernel.physicalBase)
    (member : mapping ∈ info.textMappings ++ info.rodataMappings) :
    mapping.entry &&& writableBit = 0 := by
  have readOnly : ∀ address stop flags, flags &&& writableBit = 0 →
      mapping ∈ info.sectionMappings (alignDown address) stop flags →
      mapping.entry &&& writableBit = 0 := by
    intro address stop flags clear listed
    obtain ⟨kernel, found, visited, physical, used⟩ := mem_sectionMappings listed
    obtain ⟨number, -, virtual⟩ := mem_pageRange.mp visited
    obtain ⟨virtualAligned, physicalAligned⟩ := kernelAligned kernel found
    have startAligned := pageAligned_alignDown address
    have frameAligned : PageAligned mapping.physAddr := by
      rw [physical, virtual]
      simp only [PageAligned, blockSize, BitVec.toNat_add, BitVec.toNat_sub,
        BitVec.toNat_ofNat] at *
      omega
    have frameClear : mapping.physAddr &&& writableBit = 0 := by
      rw [show writableBit = 0xfff &&& writableBit by decide, ← BitVec.and_assoc,
        pageAligned_iff.mp frameAligned]
      exact BitVec.zero_and
    rw [Mapping.entry, BitVec.and_or_distrib_right, frameClear, used, clear]
    rfl
  rcases List.mem_append.mp member with text | rodata
  · exact readOnly _ _ _ (by decide) text
  · exact readOnly _ _ _ (by decide) rodata

end BootInfo

/-- The write protection of text and read-only data does reach the processor. -/
theorem image_not_writable {info : BootInfo} {memory : Memory} {final : MmState}
    (usableSmall : info.UsableBelow (2 ^ 52)) (apart : info.SectionsApart)
    (kernelAligned : ∀ kernel ∈ info.kernelAddress,
      PageAligned kernel.virtualBase ∧ PageAligned kernel.physicalBase)
    (finished : info.boot memory = .done final) {virtAddr : Word}
    (inside : info.textStart ≤ virtAddr ∧ virtAddr < info.textEnd ∨
      info.rodataStart ≤ virtAddr ∧ virtAddr < info.rodataEnd) :
    ∃ result, walk final.memory (info.root final) virtAddr = some result ∧
      ¬ result.Writable := by
  have booted := BootInfo.boot_spec usableSmall finished
  have proceeds := BootInfo.proceeds_of_boot finished
  have mapped : ∃ mapping ∈ info.textMappings ++ info.rodataMappings,
      virtualPage mapping.virtAddr = virtualPage virtAddr := by
    rcases inside with ⟨above, below⟩ | ⟨above, below⟩
    · obtain ⟨mapping, member, here⟩ := BootInfo.exists_sectionMapping pteBitPresent
        (BootInfo.pageAligned_alignDown _) proceeds.text above below
      exact ⟨mapping, List.mem_append_left _ member, here⟩
    · obtain ⟨mapping, member, here⟩ := BootInfo.exists_sectionMapping
        (pteBitPresent ||| pteBitNx) (BootInfo.pageAligned_alignDown _) proceeds.rodata above
        below
      exact ⟨mapping, List.mem_append_right _ member, here⟩
  obtain ⟨mapping, member, here⟩ := mapped
  have kernelMember : mapping ∈ info.kernelMappings := by
    rw [BootInfo.kernelMappings, ← List.append_assoc]
    exact List.mem_append_left _ member
  obtain ⟨last, isLast⟩ := exists_lastMapping (List.mem_append_right _ kernelMember)
  rw [here] at isLast
  have lastKernel := lastMapping_append_right kernelMember here isLast
  have lastReadOnly := apart last lastKernel mapping member
    ((lastMapping_eq_some isLast).2.trans here.symm)
  have translated : translate final.memory (info.root final) virtAddr = some last.entry := by
    rw [booted.translate, BootInfo.mappings, isLast]
    rfl
  obtain ⟨result, walked, -, writable, -⟩ := booted.wf.permissions translated
  refine ⟨result, walked, ?_⟩
  rw [writable, not_not]
  exact BootInfo.entry_of_readOnly kernelAligned lastReadOnly

end Lord84
