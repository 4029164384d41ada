import Lord84.Mm.KernelAlloc

/-!
# Kernel memory in reachable states

The state in which `kernel_allocate_memory` is called comes about by `pmm_init`, calls of
clients, `vmm_init` and further calls of clients.  In every such state the direct map
reaches all memory of the allocator, whatever the clients did, and what the function
returns depends on the order of the free list alone.
-/

namespace Lord84

open Theory

/-- The direct map is in order, and the pages that clients hold are neither free nor
tables. -/
structure KernelReady (hhdmoffset root : Word) (pages : List Word) (client : PmmClient) :
    Prop where
  direct : DirectMapped hhdmoffset root pages client.state
  nodup : client.outstanding.Nodup
  held : ∀ page ∈ client.outstanding, page ∈ pages ∧
    page ∉ freePages hhdmoffset client.state ∧ ¬ IsTable client.state.memory root page

section Ready

variable {hhdmoffset root : Word} {pages : List Word} {client : PmmClient}

theorem KernelReady.after_alloc (ready : KernelReady hhdmoffset root pages client)
    (available : client.state.pmmFreePageCount ≠ 0) :
    KernelReady hhdmoffset root pages (PmmClient.after hhdmoffset client .alloc) := by
  have wf := ready.direct.wf
  have popped : freePages hhdmoffset client.state = _ := freePages_popPage available
  have listed : client.state.freeList - hhdmoffset ∈ freePages hhdmoffset client.state :=
    freeList_mem available
  have older : ∀ page ∈ freePages hhdmoffset (popPage hhdmoffset client.state),
      page ∈ freePages hhdmoffset client.state := by
    intro page rest
    rw [popped]
    exact List.mem_cons_of_mem _ rest
  have nodup := wf.pmm.nodup
  rw [popped, List.nodup_cons] at nodup
  constructor
  · exact ready.direct.popPage available
  · exact List.nodup_cons.mpr ⟨fun member => (ready.held _ member).2.1 listed, ready.nodup⟩
  · intro page member
    rcases List.mem_cons.mp member with rfl | old
    · exact ⟨ready.direct.owned _ (Or.inl listed), nodup.1,
        fun isTable => wf.tableUsed _ isTable listed⟩
    · obtain ⟨known, notFree, notTable⟩ := ready.held page old
      exact ⟨known, fun rest => notFree (older page rest), notTable⟩

theorem KernelReady.after_free (ready : KernelReady hhdmoffset root pages client)
    (mappable : DirectMappable hhdmoffset pages) {page : Word}
    (outstanding : page ∈ client.outstanding) :
    KernelReady hhdmoffset root pages (PmmClient.after hhdmoffset client (.free page)) := by
  have wf := ready.direct.wf
  obtain ⟨known, notFree, notTable⟩ := ready.held page outstanding
  have frame := mappable.frame page known
  have pushed := wf.pmm.freePages_pushPage frame.pageAligned notFree
  have same := wf.sameEntries_pushPage frame notTable
  constructor
  · apply ready.direct.of_sameEntries same (wf.pushPage frame notTable notFree) rfl rfl
    intro other listed
    rw [pushed, List.mem_cons] at listed
    rcases listed with rfl | old
    · exact known
    · exact ready.direct.owned other (Or.inl old)
  · exact ready.nodup.erase page
  · intro other member
    obtain ⟨different, old⟩ := (ready.nodup.mem_erase_iff).mp member
    obtain ⟨otherKnown, otherNotFree, otherNotTable⟩ := ready.held other old
    refine ⟨otherKnown, ?_, ?_⟩
    · simp only [PmmClient.after, pushed, List.mem_cons, not_or]
      exact ⟨different, otherNotFree⟩
    · exact fun isTable => otherNotTable ((same.isTable other).mp isTable)

theorem KernelReady.after_write (ready : KernelReady hhdmoffset root pages client)
    (mappable : DirectMappable hhdmoffset pages) {address : Word} (value : Byte)
    (permitted : ∃ page ∈ client.outstanding,
      page.toNat ≤ address.toNat ∧ address.toNat < page.toNat + blockSize) :
    KernelReady hhdmoffset root pages
      (PmmClient.after hhdmoffset client (.write address value)) := by
  obtain ⟨page, outstanding, inside⟩ := permitted
  obtain ⟨known, notFree, notTable⟩ := ready.held page outstanding
  have aligned := (mappable.frame page known).pageAligned
  obtain ⟨wf, same, sameFree⟩ := @TablesWF.write8 _ _ _
    (PmmClient.after hhdmoffset client (.write address value)).state ready.direct.wf page address
    value aligned notFree notTable inside rfl rfl rfl rfl
  constructor
  · apply ready.direct.of_sameEntries same wf rfl rfl
    intro other listed
    rw [sameFree] at listed
    exact ready.direct.owned other (Or.inl listed)
  · exact ready.nodup
  · intro other member
    obtain ⟨otherKnown, otherNotFree, otherNotTable⟩ := ready.held other member
    exact ⟨otherKnown, sameFree ▸ otherNotFree,
      fun isTable => otherNotTable ((same.isTable other).mp isTable)⟩

theorem KernelReady.step (ready : KernelReady hhdmoffset root pages client)
    (mappable : DirectMappable hhdmoffset pages) {op : PmmOp}
    (permitted : PmmClient.Allowed client op) :
    KernelReady hhdmoffset root pages (PmmClient.after hhdmoffset client op) := by
  cases op with
  | alloc => exact ready.after_alloc permitted
  | free page => exact ready.after_free mappable permitted
  | write address value => exact ready.after_write mappable value permitted

/-- A run that leaves pages keeps the direct map in order. -/
theorem KernelReady.run {ops : List PmmOp} {final : PmmClient}
    (ready : KernelReady hhdmoffset root pages client)
    (mappable : DirectMappable hhdmoffset pages)
    (owns : Along (PmmClient.step hhdmoffset) PmmClient.Owns client ops)
    (finished : Theory.run (PmmClient.step hhdmoffset) client ops = .done final)
    (left : final.state.pmmFreePageCount ≠ 0) :
    KernelReady hhdmoffset root pages final := by
  have permitted := PmmClient.along_allowed ready.direct.wf.pmm.unlocked owns finished left
  refine run_invariant ?_ ready permitted finished
  intro reached op next kept allowed stepped
  cases (PmmClient.step_eq kept.direct.wf.pmm.unlocked allowed).symm.trans stepped
  exact kept.step mappable allowed

/-- A call returns a good range exactly when the pages it takes are consecutive. -/
theorem KernelReady.kernelRange_iff (ready : KernelReady hhdmoffset root pages client)
    (mappable : DirectMappable hhdmoffset pages) {size : Word} (positive : 0 < size)
    (enough : pageCount 0 size ≤ client.state.pmmFreePageCount.toNat) (flags : Word) :
    (∃ address next,
        kernelAllocateMemory hhdmoffset size flags client.state = .done (address, next) ∧
        KernelRange hhdmoffset root client.outstanding client.state next address size flags) ↔
      Consecutive ((freePages hhdmoffset client.state).take (pageCount 0 size)) flags := by
  have nonzero : size ≠ 0 := by
    rintro rfl
    exact absurd positive (by decide)
  apply ready.direct.kernelRange_iff mappable _ nonzero enough flags
  intro owner member
  obtain ⟨known, notFree, -⟩ := ready.held owner member
  exact ⟨(mappable.frame owner known).pageAligned, notFree⟩

end Ready

/-! ## From boot to a call -/

namespace BootInfo

variable (info : BootInfo)

/-- The bootloader puts the direct map in the higher half, and all usable memory fits into
it. -/
structure HigherHalf : Prop where
  aligned : PageAligned info.hhdmoffset
  canonical : 2 ^ 64 - 2 ^ 47 ≤ info.hhdmoffset.toNat
  fits : ∀ entry ∈ info.memmap.entries, entry.type = .usable →
    info.hhdmoffset.toNat + (entry.base.toNat + entry.length.toNat) ≤ 2 ^ 64

/-- The state after `pmm_init`, the operations `before`, `vmm_init` and the operations
`later`.  The pages that `vmm_init` takes belong to the tables and not to the clients. -/
def Reaches (memory : Memory) (before later : List PmmOp) (client : PmmClient) : Prop :=
  ∃ initial early mapped,
    pmmInit info.hhdmoffset (some info.memmap.entries) (.boot memory) = .done initial ∧
    Along (PmmClient.step info.hhdmoffset) PmmClient.Owns ⟨initial, []⟩ before ∧
    run (PmmClient.step info.hhdmoffset) ⟨initial, []⟩ before = .done early ∧
    info.vmmInit early.state = .done mapped ∧
    Along (PmmClient.step info.hhdmoffset) PmmClient.Owns ⟨mapped, early.outstanding⟩ later ∧
    run (PmmClient.step info.hhdmoffset) ⟨mapped, early.outstanding⟩ later = .done client

variable {info} {memory : Memory} {before later : List PmmOp} {client : PmmClient}

theorem HigherHalf.usableBelow (higherHalf : info.HigherHalf) : info.UsableBelow (2 ^ 47) := by
  intro entry member usable
  have canonical := higherHalf.canonical
  have fits := higherHalf.fits entry member usable
  omega

theorem HigherHalf.mappable (higherHalf : info.HigherHalf) :
    DirectMappable info.hhdmoffset (publishedPages info.memmap.entries true) where
  frame page published := by
    have small := published_lt higherHalf.usableBelow published
    exact isFrame_of_pageAligned (info.memmap.publishedPages_inUsable published).2 (by omega)
  nonNull page published := by
    obtain ⟨⟨entry, member, usable, -, inside⟩, -⟩ :=
      info.memmap.publishedPages_inUsable published
    have canonical := higherHalf.canonical
    have fits := higherHalf.fits entry member usable
    simp only [blockSize] at inside
    bv_omega
  injective left leftPublished right rightPublished same := by
    have leftSmall := published_lt higherHalf.usableBelow leftPublished
    have rightSmall := published_lt higherHalf.usableBelow rightPublished
    have leftAligned := (info.memmap.publishedPages_inUsable leftPublished).2
    have rightAligned := (info.memmap.publishedPages_inUsable rightPublished).2
    rw [BitVec.add_comm left, BitVec.add_comm right] at same
    have samePage := virtualPage_direct higherHalf.aligned (by omega) (by omega) same
    apply BitVec.eq_of_toNat_eq
    simp only [PageAligned, blockSize] at leftAligned rightAligned samePage
    omega

/-- The clients before `vmm_init` only move pages between the two sides. -/
theorem holds_of_run {initial : MmState} {ops : List PmmOp} (wf : PmmWF info.hhdmoffset initial)
    (unlocked : initial.pageTableLock = false)
    (owns : Along (PmmClient.step info.hhdmoffset) PmmClient.Owns ⟨initial, []⟩ ops)
    (finished : run (PmmClient.step info.hhdmoffset) ⟨initial, []⟩ ops = .done client)
    (left : client.state.pmmFreePageCount ≠ 0) :
    PmmClient.Holds info.hhdmoffset (freePages info.hhdmoffset initial) client ∧
      client.state.pageTableLock = false := by
  have permitted := PmmClient.along_allowed wf.unlocked owns finished left
  have keep : ∀ reached op next,
      PmmClient.Holds info.hhdmoffset (freePages info.hhdmoffset initial) reached ∧
        reached.state.pageTableLock = false →
      PmmClient.Allowed reached op → PmmClient.step info.hhdmoffset reached op = .done next →
      PmmClient.Holds info.hhdmoffset (freePages info.hhdmoffset initial) next ∧
        next.state.pageTableLock = false := by
    rintro reached op next ⟨⟨pool, refines, kept⟩, free⟩ allowed stepped
    cases (PmmClient.step_eq refines.unlocked allowed).symm.trans stepped
    obtain ⟨nextPool, nextRefines, moved⟩ := refines.after allowed
    refine ⟨⟨nextPool, nextRefines, moved.trans kept⟩, ?_⟩
    cases op <;> exact free
  exact run_invariant keep ⟨PmmClient.holds_initial wf, unlocked⟩ permitted finished

/-- `vmm_init` leaves the direct map in order. -/
theorem ready_of_vmmInit {initial mapped : MmState} (higherHalf : info.HigherHalf)
    (published : ∀ page ∈ freePages info.hhdmoffset initial,
      page ∈ publishedPages info.memmap.entries true)
    (holds : PmmClient.Holds info.hhdmoffset (freePages info.hhdmoffset initial) client)
    (unlocked : client.state.pageTableLock = false)
    (finished : info.vmmInit client.state = .done mapped) :
    KernelReady info.hhdmoffset (info.root mapped) (publishedPages info.memmap.entries true)
      ⟨mapped, client.outstanding⟩ := by
  obtain ⟨pool, refines, kept⟩ := holds
  have known : ∀ page, page ∈ pool.free ∨ page ∈ pool.taken →
      page ∈ publishedPages info.memmap.entries true := by
    intro page member
    apply published
    rw [← kept.mem_iff, Pool.items, List.mem_append]
    exact member
  have small : ∀ page ∈ freePages info.hhdmoffset client.state, page.toNat < 2 ^ 52 := by
    intro page listed
    rw [refines.free] at listed
    have below := published_lt higherHalf.usableBelow (known page (Or.inl listed))
    omega
  have initialised := vmmInit_spec refines.wf small unlocked finished
  constructor
  · constructor
    · exact initialised.wf
    · exact initialised.unlocked
    · exact (BitVec.sub_add_cancel _ _).symm
    · intro page owned
      rw [initialised.pages, refines.free] at owned
      exact known page (Or.inl owned)
    · intro page isPublished
      obtain ⟨mapping, listed, address⟩ := exists_mapping_of_published isPublished
      rw [BitVec.add_comm, ← address]
      exact initialised.reached mapping listed
  · simp only [refines.taken]
    exact pool.taken_nodup
  · intro page member
    simp only [refines.taken] at member
    have used : page ∉ freePages info.hhdmoffset client.state := by
      rw [refines.free]
      exact fun unused => pool.not_taken_of_free unused member
    rw [← initialised.pages, not_or] at used
    exact ⟨known page (Or.inr member), used⟩

/-- Whenever pages are left, the direct map is in order. -/
theorem ready_of_reaches (higherHalf : info.HigherHalf)
    (reaches : info.Reaches memory before later client)
    (left : client.state.pmmFreePageCount ≠ 0) :
    KernelReady info.hhdmoffset (info.root client.state)
      (publishedPages info.memmap.entries true) client := by
  obtain ⟨initial, early, mapped, initialised, earlyOwns, earlyRun, vmmInitialised, owns,
    finished⟩ := reaches
  obtain ⟨other, again, wf, published, unlocked⟩ :=
    @pmmInit_spec info.hhdmoffset info.memmap memory
  cases again.symm.trans initialised
  obtain ⟨holds, stillUnlocked⟩ :=
    holds_of_run wf unlocked earlyOwns earlyRun (vmmInit_available vmmInitialised)
  have start := ready_of_vmmInit higherHalf
    (fun page listed => List.mem_reverse.mp (published ▸ listed)) holds stillUnlocked
    vmmInitialised
  have ready := start.run higherHalf.mappable owns finished left
  have rootEq : info.root client.state = info.root mapped := by
    rw [root, ready.direct.pageMap]
    exact BitVec.add_sub_cancel _ _
  rw [rootEq]
  exact ready

end BootInfo

/-- In every state that the physical allocator can reach, and whenever enough pages are left,
`kernel_allocate_memory` returns a range of its own pages exactly when the first pages of
the free list are consecutive and the last of them is the lowest. -/
theorem kernel_range_iff_consecutive {info : BootInfo} {memory : Memory}
    {before later : List PmmOp} {client : PmmClient} (higherHalf : info.HigherHalf)
    (reaches : info.Reaches memory before later client) {size : Word} (positive : 0 < size)
    (enough : pageCount 0 size ≤ client.state.pmmFreePageCount.toNat) (flags : Word) :
    (∃ address next,
        kernelAllocateMemory info.hhdmoffset size flags client.state = .done (address, next) ∧
        KernelRange info.hhdmoffset (info.root client.state) client.outstanding client.state next
          address size flags) ↔
      Consecutive ((freePages info.hhdmoffset client.state).take (pageCount 0 size)) flags := by
  have some : 0 < pageCount 0 size := by
    rw [lt_pageCount_iff, Nat.zero_mul]
    exact positive
  have left : client.state.pmmFreePageCount ≠ 0 := by
    intro empty
    rw [empty] at enough
    exact Nat.not_lt.mpr enough some
  exact (BootInfo.ready_of_reaches higherHalf reaches left).kernelRange_iff higherHalf.mappable
    positive enough flags

/-! ## Two machines -/

/-- The higher-half kernel on this memory map, with this root table. -/
def higherHalfOn (memmap : LimineMemmap) (table : AcpiTable) : BootInfo :=
  { smallMachine 0xffffffff80000000 ⟨0x200000, 0xffffffff80000000⟩ with
    memmap
    xsdt := some table }

section HigherHalfOn

variable {memmap : LimineMemmap} {table : AcpiTable}

theorem higherHalfOn_higherHalf (small : (memmap.entries.all fun entry =>
    0xffff800000000000 + (entry.base.toNat + entry.length.toNat) ≤ 2 ^ 64) = true) :
    (higherHalfOn memmap table).HigherHalf where
  aligned := (by decide : PageAligned 0xffff800000000000)
  canonical := (by decide : 2 ^ 64 - 2 ^ 47 ≤ (0xffff800000000000 : Word).toNat)
  fits := fun entry member _ => of_decide_eq_true (List.all_eq_true.mp small entry member)

/-- The initialisations return if the tables lie in three places; they take at most ten pages. -/
theorem higherHalfOn_boots (higherHalf : (higherHalfOn memmap table).HigherHalf)
    (loops : (memmap.entries.all fun entry => LoopExits 0 entry.length) = true)
    (noNull : ∀ page ∈ publishedPages memmap.entries true,
      page ≠ 0 ∧ page + 0xffff800000000000 ≠ 0)
    (covered : ((higherHalfOn memmap table).mappings.all fun mapping =>
      [tablePath 0xffff800000100000, tablePath 0xffffffff80000000,
        tablePath 0xffff8000fee00000].contains (tablePath mapping.virtAddr)) = true)
    (room : 9 < (publishedPages memmap.entries true).length) :
    ∃ final, (higherHalfOn memmap table).boot (fun _ => 0) = .done final ∧
      (publishedPages memmap.entries true).length ≤ final.pmmFreePageCount.toNat + 10 := by
  let image := smallMachine 0xffffffff80000000 ⟨0x200000, 0xffffffff80000000⟩
  have text : LoopExits image.textStart image.textEnd := by decide +kernel
  have rodata : LoopExits image.rodataStart image.rodataEnd := by decide +kernel
  have data : LoopExits image.dataStart image.dataEnd := by decide +kernel
  have proceeds : (higherHalfOn memmap table).Proceeds := by
    constructor
    · exact fun entry member _ => of_decide_eq_true (List.all_eq_true.mp loops entry member)
    · exact ⟨text, by simp [higherHalfOn, smallMachine]⟩
    · exact ⟨rodata, by simp [higherHalfOn, smallMachine]⟩
    · exact ⟨data, by simp [higherHalfOn, smallMachine]⟩
    · simp [higherHalfOn, smallMachine, BootInfo.acpiTable]
  have small : (higherHalfOn memmap table).UsableBelow (2 ^ 52) := by
    intro entry member usable
    have below := higherHalf.usableBelow entry member usable
    omega
  exact @BootInfo.boot_returns (higherHalfOn memmap table) (fun _ => 0)
    [tablePath 0xffff800000100000, tablePath 0xffffffff80000000, tablePath 0xffff8000fee00000]
    small proceeds noNull
    (fun mapping member => List.contains_iff_mem.mp (List.all_eq_true.mp covered mapping member))
    room

end HigherHalfOn

/-- The state after the initialisations, before any client has taken a page. -/
theorem BootInfo.reaches_of_boot {info : BootInfo} {memory : Memory} {final : MmState}
    (finished : info.boot memory = .done final) : info.Reaches memory [] [] ⟨final, []⟩ := by
  rw [boot, Outcome.bind_eq_done] at finished
  obtain ⟨initial, initialised, mapped⟩ := finished
  exact ⟨initial, ⟨initial, []⟩, final, initialised, trivial, rfl, mapped, trivial, rfl⟩

/-- Thirty-two usable pages in one block, and a page of ACPI tables behind them. -/
def blockMemmap : LimineMemmap where
  entries := [⟨0x100000, 0x20000, .usable⟩, ⟨0x120000, 0x1000, .acpiReclaimable⟩]
  usable_aligned := by decide
  usable_bounded := by decide
  usable_disjoint := by decide

/-- The higher-half kernel on a block of memory. -/
def blockMachine : BootInfo :=
  higherHalfOn blockMemmap ⟨0xffff800000120000, 0x54⟩

/-- Three pages of one block, popped from the highest to the lowest one. -/
theorem consecutive_block {page : Word} (nonzero : 0 ∉ [page + 0x2000, page + 0x1000, page]) :
    Consecutive [page + 0x2000, page + 0x1000, page] pteBitRw := by
  refine ⟨nonzero, ?_, ?_⟩
  · intro number counted
    have cases : number = 0 ∨ number = 1 ∨ number = 2 := by
      simp only [List.length_cons, List.length_nil] at counted
      omega
    rcases cases with rfl | rfl | rfl <;> simp [blockSize]
  · intro other _
    rw [show pteBitRw &&& addressMask = 0#64 by decide, BitVec.or_zero]

/-- The tables are made of the highest pages of the block, so three pages that are then left are
consecutive. -/
theorem blockMachine_free {final : MmState}
    (finished : blockMachine.boot (fun _ => 0) = .done final)
    (count : 3 ≤ final.pmmFreePageCount.toNat) :
    Consecutive ((freePages blockMachine.hhdmoffset final).take 3) pteBitRw := by
  have higherHalf : blockMachine.HigherHalf := higherHalfOn_higherHalf (by decide +kernel)
  have small : blockMachine.UsableBelow (2 ^ 52) := by
    intro entry member usable
    have below := higherHalf.usableBelow entry member usable
    omega
  have all : ((List.range 29).all fun taken =>
      let page := 0x11d000 - BitVec.ofNat 64 (taken * blockSize)
      0 ∉ [page + 0x2000, page + 0x1000, page] ∧
        ((publishedPages blockMemmap.entries true).reverse.drop taken).take 3 =
          [page + 0x2000, page + 0x1000, page]) = true := by
    decide +kernel
  have length : (publishedPages blockMemmap.entries true).reverse.length = 31 := by
    decide +kernel
  obtain ⟨taken, split⟩ := BootInfo.freePages_of_boot small finished
  have rest : freePages blockMachine.hhdmoffset final =
      (publishedPages blockMemmap.entries true).reverse.drop taken.length := by
    rw [show publishedPages blockMemmap.entries true =
      publishedPages blockMachine.memmap.entries true from rfl, ← split, List.drop_left]
  have few : taken.length < 29 := by
    rw [← @length_freePages blockMachine.hhdmoffset, rest, List.length_drop, length] at count
    omega
  obtain ⟨nonzero, pages⟩ :=
    of_decide_eq_true (List.all_eq_true.mp all taken.length (List.mem_range.mpr few))
  rw [rest, pages]
  exact consecutive_block nonzero

/-- On a block of memory three pages are consecutive, and the range is the caller's own. -/
theorem kernel_range_iff_consecutive_block :
    ∃ final, blockMachine.Reaches (fun _ => 0) [] [] ⟨final, []⟩ ∧
      ∃ address next, kernelAllocateMemory blockMachine.hhdmoffset 0x3000 pteBitRw final =
          .done (address, next) ∧
        KernelRange blockMachine.hhdmoffset (blockMachine.root final) [] final next
          address 0x3000 pteBitRw := by
  have higherHalf : blockMachine.HigherHalf := higherHalfOn_higherHalf (by decide +kernel)
  have noNull : ((publishedPages blockMemmap.entries true).all fun page =>
      page ≠ 0 ∧ page + 0xffff800000000000 ≠ 0) = true := by
    decide +kernel
  have published : (publishedPages blockMemmap.entries true).length = 31 := by
    decide +kernel
  obtain ⟨final, finished, count⟩ := higherHalfOn_boots higherHalf (by decide +kernel)
    (fun page member => of_decide_eq_true (List.all_eq_true.mp noNull page member))
    (by decide +kernel) (by rw [published]; decide)
  have reaches := BootInfo.reaches_of_boot finished
  have three : pageCount 0 0x3000 = 3 := by decide
  have enough : pageCount 0 0x3000 ≤ final.pmmFreePageCount.toNat := by
    rw [published] at count
    omega
  refine ⟨final, reaches, ?_⟩
  exact (kernel_range_iff_consecutive higherHalf reaches (by decide) enough pteBitRw).mpr
    (three ▸ blockMachine_free finished (three ▸ enough))

/-- Thirteen usable pages, no two of them next to each other, and a page of ACPI tables. -/
def scatteredMemmap : LimineMemmap where
  entries := (List.range 13).map
      (fun number => ⟨0x100000 + BitVec.ofNat 64 (number * 0x2000), 0x1000, .usable⟩) ++
    [⟨0x11a000, 0x1000, .acpiReclaimable⟩]
  usable_aligned := by decide
  usable_bounded := by decide
  usable_disjoint := by decide

/-- The higher-half kernel on scattered memory. -/
def scatteredMachine : BootInfo :=
  higherHalfOn scatteredMemmap ⟨0xffff80000011a000, 0x54⟩

theorem scatteredMachine_higherHalf : scatteredMachine.HigherHalf :=
  higherHalfOn_higherHalf (by decide +kernel)

/-- No two pages of the scattered machine are next to each other, and none is at address 0. -/
theorem scatteredMachine_published {page : Word}
    (published : page ∈ publishedPages scatteredMemmap.entries true) :
    page ≠ 0 ∧ page + 0xffff800000000000 ≠ 0 ∧
      page + 0x1000 ∉ publishedPages scatteredMemmap.entries true := by
  have all : ((publishedPages scatteredMemmap.entries true).all fun page =>
      page ≠ 0 ∧ page + 0xffff800000000000 ≠ 0 ∧
        (publishedPages scatteredMemmap.entries true).contains (page + 0x1000) = false) =
      true := by
    decide +kernel
  obtain ⟨physical, virtual, isolated⟩ :=
    of_decide_eq_true (List.all_eq_true.mp all page published)
  refine ⟨physical, virtual, ?_⟩
  intro member
  rw [List.contains_iff_mem.mpr member] at isolated
  cases isolated

/-- The tables take at most ten of the twelve pages that are published.  In fact the local APIC and
the usable memory share a table, and three pages are left. -/
theorem scatteredMachine_boots : ∃ final,
    scatteredMachine.boot (fun _ => 0) = .done final ∧ 2 ≤ final.pmmFreePageCount.toNat := by
  have published : (publishedPages scatteredMemmap.entries true).length = 12 := by
    decide +kernel
  obtain ⟨final, finished, count⟩ := higherHalfOn_boots scatteredMachine_higherHalf
    (by decide +kernel)
    (fun page member => ⟨(scatteredMachine_published member).1,
      (scatteredMachine_published member).2.1⟩)
    (by decide +kernel) (by rw [published]; decide)
  rw [published] at count
  exact ⟨final, finished, by omega⟩

/-- The free list of the scattered machine after the initialisations. -/
theorem scatteredMachine_ready {final : MmState}
    (finished : scatteredMachine.boot (fun _ => 0) = .done final)
    (count : 2 ≤ final.pmmFreePageCount.toNat) :
    KernelReady scatteredMachine.hhdmoffset (scatteredMachine.root final)
        (publishedPages scatteredMemmap.entries true) ⟨final, []⟩ ∧
      ∃ first second rest,
        freePages scatteredMachine.hhdmoffset final = first :: second :: rest := by
  constructor
  · apply BootInfo.ready_of_reaches scatteredMachine_higherHalf
      (BootInfo.reaches_of_boot finished)
    intro empty
    rw [empty] at count
    exact absurd count (by decide)
  · rw [← @length_freePages scatteredMachine.hhdmoffset] at count
    match pages : freePages scatteredMachine.hhdmoffset final, count with
    | first :: second :: rest, _ => exact ⟨first, second, rest, rfl⟩

/-- On scattered memory two pages are never consecutive: the second half of the returned
range lies in a page that was never free. -/
theorem scattered_range_not_own :
    scatteredMachine.HigherHalf ∧
      ∃ final, scatteredMachine.Reaches (fun _ => 0) [] [] ⟨final, []⟩ ∧
        pageCount 0 0x2000 ≤ final.pmmFreePageCount.toNat ∧
        ¬ ∃ address next,
          kernelAllocateMemory scatteredMachine.hhdmoffset 0x2000 pteBitRw final =
            .done (address, next) ∧
          KernelRange scatteredMachine.hhdmoffset (scatteredMachine.root final) [] final next
            address 0x2000 pteBitRw := by
  obtain ⟨final, finished, count⟩ := scatteredMachine_boots
  obtain ⟨ready, first, second, rest, pages⟩ := scatteredMachine_ready finished count
  have two : pageCount 0 0x2000 = 2 := by decide
  refine ⟨scatteredMachine_higherHalf, final, BootInfo.reaches_of_boot finished, two ▸ count, ?_⟩
  rw [ready.kernelRange_iff scatteredMachine_higherHalf.mappable (by decide) (two ▸ count), two,
    pages]
  intro consecutive
  have next : second + 0x1000 ∈ [first, second] := consecutive.upward 1 (by simp)
  have known : ∀ page ∈ [first, second], page ∈ publishedPages scatteredMemmap.entries true := by
    intro page member
    apply ready.direct.owned page (Or.inl ?_)
    rw [pages]
    exact List.mem_append_left rest member
  exact (scatteredMachine_published (known second (by simp))).2.2 (known _ next)

end Lord84
