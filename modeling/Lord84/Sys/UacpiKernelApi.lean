import Lord84.Mm.VmmRange

/-!
# Memory mappings for uACPI

A model of `uacpi_kernel_map` and `uacpi_kernel_unmap` of `src/uacpi_kernel_api.c`.  The first
maps at the direct map and returns the physical address; the second unmaps at the address
that it gets back.  No operation of the kernel maps a page at its own physical address, so the
two never meet.
-/

namespace Lord84

open Theory

section Source

variable (hhdmoffset : Word)

/-- `uacpi_kernel_map`; the first component is the returned pointer. -/
def uacpiKernelMap (s : MmState) (addr len : Word) : Outcome (Word × MmState) := do
  let s ← kernelMapPages hhdmoffset s addr len pteBitRw
  return (addr, s)

/-- `uacpi_kernel_unmap` -/
def uacpiKernelUnmap (s : MmState) (addr len : Word) : Outcome MmState :=
  kernelUnmapPages hhdmoffset s addr len

end Source

/-- What uACPI expects of a mapping in the state `s` that has returned `p` and led to `next`. -/
structure MappingContract (hhdmoffset root addr len : Word) (s : MmState) (p : Word)
    (next : MmState) : Prop where
  bytes : ∀ k < len.toNat,
    TranslatesTo next.memory root (p + BitVec.ofNat 64 k) (addr + BitVec.ofNat 64 k)
  unmap : ∃ final, uacpiKernelUnmap hhdmoffset next p len = .done final ∧
    (freePages hhdmoffset final).Nodup ∧
    (∀ page, page ∈ freePages hhdmoffset final ↔
      page ∈ freePages hhdmoffset s ∧ ¬ IsTable final.memory root page) ∧
    ∀ query, (∀ k < len.toNat, virtualPage query ≠ virtualPage (p + BitVec.ofNat 64 k)) →
      translate final.memory root query = translate next.memory root query

/-! ## Translations along a run -/

/-- The translations after an operation. -/
def MmOp.translations (before : Word → Option Word) : MmOp → Word → Option Word
  | .map virtAddr physAddr flags, query =>
      if virtualPage query = virtualPage virtAddr then some (physAddr ||| flags)
      else before query
  | .unmap virtAddr, query =>
      if virtualPage query = virtualPage virtAddr then none else before query
  | _, query => before query

/-- The operation maps no page to the frame with its own address. -/
def MmOp.MapsElsewhere : MmOp → Prop
  | .map virtAddr physAddr flags =>
      virtualPage ((physAddr ||| flags) &&& addressMask) ≠ virtualPage virtAddr
  | _ => True

/-- No page is translated to the frame with its own address. -/
def NoIdentity (root : Word) (memory : Memory) : Prop :=
  ∀ virtAddr entry, translate memory root virtAddr = some entry →
    virtualPage (entry &&& addressMask) ≠ virtualPage virtAddr

section Translations

variable {hhdmoffset root : Word} {s next : MmState}

/-- Mapping changes one translation, also while the allocator is locked. -/
theorem MmReady.translate_vmmMapPage (ready : MmReady hhdmoffset root s)
    {virtAddr physAddr flags : Word} (present : flags &&& presentBit ≠ 0)
    (returned : vmmMapPage hhdmoffset s (root + hhdmoffset) virtAddr physAddr flags = .done next)
    (query : Word) :
    translate next.memory root query =
      if virtualPage query = virtualPage virtAddr then some (physAddr ||| flags)
      else translate s.memory root query := by
  obtain ⟨lock, page, middle, descended, rfl⟩ := vmmMapPage_cases returned
  obtain ⟨table, pointer, found, middleReady, same⟩ :=
    (ready.setPageTableLock lock).lowestTable descended
  cases add_right_cancel pointer
  have effect := middleReady.wf.translate_writeEntry found (physAddr ||| flags) query
  rw [child_eq_some_iff.mpr ⟨present_or present physAddr, rfl⟩] at effect
  refine effect.trans ?_
  rw [same.translate query]
  rfl

/-- An allocation does not write to memory. -/
theorem memory_pmmAlloc {page : Word} (returned : pmmAlloc hhdmoffset s = .done (page, next)) :
    next.memory = s.memory := by
  obtain ⟨-, ⟨-, -, rfl⟩ | ⟨-, -, rfl⟩⟩ := pmmAlloc_cases returned
  · rfl
  · rfl

/-- What a permitted operation does to the translations. -/
theorem MmReady.translate_step (ready : MmReady hhdmoffset root s) {op : MmOp}
    (allowed : MmAllowed hhdmoffset root s op)
    (stepped : mmStep hhdmoffset root s op = .done next) (query : Word) :
    translate next.memory root query = op.translations (translate s.memory root) query := by
  cases op with
  | alloc =>
      obtain ⟨⟨page, state⟩, returned, done⟩ := Outcome.bind_eq_done.mp stepped
      cases done
      rw [memory_pmmAlloc returned]
      rfl
  | free page =>
      obtain ⟨unlocked, rfl⟩ := pmmFree_cases stepped
      have wf := ready.tablesWF unlocked
      exact (wf.sameEntries_pushPage allowed.frame allowed.notTable).translate query
  | write address value =>
      cases stepped
      obtain ⟨page, aligned, inside, notFree, notTable⟩ := allowed
      obtain ⟨-, same, -⟩ := @TablesWF.write8 _ _ _
        { s with memory := s.memory.write8 address value, pmmLock := false } ready.wf page address
        value aligned notFree notTable inside rfl rfl rfl rfl
      exact same.translate query
  | map virtAddr physAddr flags => exact ready.translate_vmmMapPage allowed stepped query
  | unmap virtAddr =>
      obtain ⟨entry, mapped, spare⟩ := allowed
      obtain ⟨-, -, unlocked, -⟩ := ready.vmmFreePage_mapped mapped stepped
      exact ((ready.tablesWF unlocked).vmmFreePage mapped spare.notTable spare.notFree
        stepped).translate query

/-- A permitted operation that maps elsewhere brings no page to its own address. -/
theorem NoIdentity.step (noIdentity : NoIdentity root s.memory)
    (ready : MmReady hhdmoffset root s) {op : MmOp} (allowed : MmAllowed hhdmoffset root s op)
    (elsewhere : op.MapsElsewhere) (stepped : mmStep hhdmoffset root s op = .done next) :
    NoIdentity root next.memory := by
  intro virtAddr entry mapped
  rw [ready.translate_step allowed stepped] at mapped
  cases op with
  | alloc => exact noIdentity virtAddr entry mapped
  | free page => exact noIdentity virtAddr entry mapped
  | write address value => exact noIdentity virtAddr entry mapped
  | map target physAddr flags =>
      rw [MmOp.translations] at mapped
      split at mapped
      next here =>
        cases mapped
        rw [here]
        exact elsewhere
      next => exact noIdentity virtAddr entry mapped
  | unmap target =>
      rw [MmOp.translations] at mapped
      split at mapped
      next => cases mapped
      next => exact noIdentity virtAddr entry mapped

/-- No run of such operations does. -/
theorem MmStart.noIdentity {ops : List MmOp} (start : MmStart hhdmoffset root s)
    (permitted : Along (mmStep hhdmoffset root)
      (fun s op => MmAllowed hhdmoffset root s op ∧ op.MapsElsewhere) s ops)
    (reached : run (mmStep hhdmoffset root) s ops = .done next) :
    MmReady hhdmoffset root next ∧ NoIdentity root next.memory := by
  refine @run_invariant _ _ _ _
    (fun current => MmReady hhdmoffset root current ∧ NoIdentity root current.memory)
    (fun current op after kept allowed stepped => ?_) _ _ _ ⟨start.ready, ?_⟩ permitted reached
  · exact ⟨kept.1.step allowed.1 stepped, kept.2.step kept.1 allowed.1 allowed.2 stepped⟩
  · intro virtAddr entry mapped
    rw [start.implements.translate] at mapped
    cases mapped

end Translations

/-! ## The direct map is elsewhere -/

/-- The frame of an entry has the page number of the address from which it was made. -/
theorem virtualPage_frame (physAddr : Word) :
    virtualPage ((physAddr ||| (pteBitPresent ||| pteBitRw)) &&& addressMask) =
      virtualPage physAddr := by
  rw [virtualPage, BitVec.extractLsb'_and, BitVec.extractLsb'_or,
    show (pteBitPresent ||| pteBitRw).extractLsb' 12 36 = 0 by decide,
    show addressMask.extractLsb' 12 36 = BitVec.allOnes 36 by decide, BitVec.and_allOnes]
  exact BitVec.or_zero

/-- No page of the direct map shows the frame with its own address. -/
theorem virtualPage_displaced {hhdmoffset : Word} (aligned : PageAligned hhdmoffset)
    (displaced : hhdmoffset.toNat % 2 ^ 48 ≠ 0) (physAddr : Word) :
    virtualPage physAddr ≠ virtualPage (physAddr + hhdmoffset) := by
  intro same
  have numbers := congrArg BitVec.toNat same
  simp only [virtualPage, BitVec.extractLsb'_toNat, BitVec.toNat_add, Nat.shiftRight_eq_div_pow]
    at numbers
  simp only [PageAligned, blockSize] at aligned
  omega

/-- The offset of an address does not move its page. -/
theorem virtualPage_add_offset {frame : Word} (aligned : PageAligned frame) (virtAddr : Word) :
    virtualPage (frame + (virtAddr &&& 0xfff)) = virtualPage frame := by
  apply BitVec.eq_of_toNat_eq
  simp only [virtualPage, BitVec.extractLsb'_toNat, BitVec.toNat_add, Nat.shiftRight_eq_div_pow,
    toNat_and_offset]
  simp only [PageAligned, blockSize] at aligned ⊢
  omega

section Contract

variable {hhdmoffset root addr len p : Word} {s next : MmState}

/-- `kernel_map_pages` maps every page in the direct map. -/
theorem NoIdentity.kernelMapPages (noIdentity : NoIdentity root s.memory)
    (ready : MmReady hhdmoffset root s) (aligned : PageAligned hhdmoffset)
    (displaced : hhdmoffset.toNat % 2 ^ 48 ≠ 0)
    (returned : kernelMapPages hhdmoffset s addr len pteBitRw = .done next) :
    MmReady hhdmoffset root next ∧ NoIdentity root next.memory := by
  refine @forRange_invariant _
    (fun _ current => MmReady hhdmoffset root current ∧ NoIdentity root current.memory)
    _ _ _ ?_ _ _ (Nat.zero_le _) ⟨ready, noIdentity⟩ returned
  rintro i current after - - ⟨currentReady, kept⟩ stepped
  rw [currentReady.pageMap, add_right_comm] at stepped
  have stepped : mmStep hhdmoffset root current
      (.map (addr + BitVec.ofNat 64 i * pageSize + hhdmoffset)
        (addr + BitVec.ofNat 64 i * pageSize) (pteBitPresent ||| pteBitRw)) = .done after :=
    stepped
  have present : MmAllowed hhdmoffset root current
      (.map (addr + BitVec.ofNat 64 i * pageSize + hhdmoffset)
        (addr + BitVec.ofNat 64 i * pageSize) (pteBitPresent ||| pteBitRw)) :=
    present_rangeFlags pteBitRw
  have elsewhere : (MmOp.map (addr + BitVec.ofNat 64 i * pageSize + hhdmoffset)
      (addr + BitVec.ofNat 64 i * pageSize) (pteBitPresent ||| pteBitRw)).MapsElsewhere := by
    rw [MmOp.MapsElsewhere, virtualPage_frame]
    exact virtualPage_displaced aligned displaced _
  exact ⟨currentReady.step present stepped, kept.step currentReady present elsewhere stepped⟩

/-- The first byte is not where the contract wants it. -/
theorem NoIdentity.not_mappingContract (noIdentity : NoIdentity root s.memory)
    (ready : MmReady hhdmoffset root s) (aligned : PageAligned hhdmoffset)
    (displaced : hhdmoffset.toNat % 2 ^ 48 ≠ 0) (nonempty : len ≠ 0)
    (returned : uacpiKernelMap hhdmoffset s addr len = .done (p, next)) :
    ¬ MappingContract hhdmoffset root addr len s p next := by
  intro contract
  obtain ⟨final, mapped, done⟩ := Outcome.bind_eq_done.mp returned
  cases done
  obtain ⟨-, kept⟩ := noIdentity.kernelMapPages ready aligned displaced mapped
  have positive : 0 < len.toNat :=
    Nat.pos_of_ne_zero fun zero => nonempty (BitVec.eq_of_toNat_eq zero)
  obtain ⟨entry, translated, here⟩ := contract.bytes 0 positive
  rw [show addr + BitVec.ofNat 64 0 = addr from BitVec.add_zero addr] at translated here
  apply kept addr entry translated
  rw [← virtualPage_add_offset (isFrame_and_addressMask entry).pageAligned addr, here]

end Contract

/-- In no reachable state does the pointer that `uacpi_kernel_map` returns lead to the memory
that it has mapped. -/
theorem uacpi_kernel_map_breaks_contract {hhdmoffset root addr len p : Word}
    {initial s next : MmState} {ops : List MmOp} (start : MmStart hhdmoffset root initial)
    (permitted : Along (mmStep hhdmoffset root)
      (fun s op => MmAllowed hhdmoffset root s op ∧ op.MapsElsewhere) initial ops)
    (reached : run (mmStep hhdmoffset root) initial ops = .done s)
    (aligned : PageAligned hhdmoffset) (displaced : hhdmoffset.toNat % 2 ^ 48 ≠ 0)
    (nonempty : len ≠ 0)
    (returned : uacpiKernelMap hhdmoffset s addr len = .done (p, next)) :
    ¬ MappingContract hhdmoffset root addr len s p next := by
  obtain ⟨ready, noIdentity⟩ := start.noIdentity permitted reached
  exact noIdentity.not_mappingContract ready aligned displaced nonempty returned

/-- A table header at `0x9000` can be mapped. -/
theorem freshTables_uacpiKernelMap : ∃ p next,
    uacpiKernelMap 0xffff800000000000 freshTables 0x9000 36 = .done (p, next) := by
  obtain ⟨next, returned⟩ := @freshTables_mapAll
    (rangeMappings 0xffff800000000000 0x9000 36 pteBitRw) (tablePath 0xffff800000009000)
    (by decide) (by decide)
  rw [← kernelMapPages_eq] at returned
  refine ⟨0x9000, next, ?_⟩
  rw [uacpiKernelMap, returned]
  rfl

/-- That mapping breaks the contract. -/
theorem uacpi_kernel_map_breaks_contract_header : ∃ p next,
    uacpiKernelMap 0xffff800000000000 freshTables 0x9000 36 = .done (p, next) ∧
    ¬ MappingContract 0xffff800000000000 0x1000 0x9000 36 freshTables p next := by
  obtain ⟨p, next, returned⟩ := freshTables_uacpiKernelMap
  refine ⟨p, next, returned, ?_⟩
  exact @uacpi_kernel_map_breaks_contract _ _ _ _ _ _ _ _ [] freshTables_start trivial rfl
    (by decide) (by decide) (by decide) returned

/-- Not every mapping keeps the contract. -/
theorem uacpi_kernel_map_leaves_header :
    ¬ ∀ (hhdmoffset root addr len p : Word) (initial s next : MmState) (ops : List MmOp),
      MmStart hhdmoffset root initial →
      Along (mmStep hhdmoffset root)
        (fun s op => MmAllowed hhdmoffset root s op ∧ op.MapsElsewhere) initial ops →
      run (mmStep hhdmoffset root) initial ops = .done s →
      PageAligned hhdmoffset → hhdmoffset.toNat % 2 ^ 48 ≠ 0 → len ≠ 0 →
      uacpiKernelMap hhdmoffset s addr len = .done (p, next) →
      MappingContract hhdmoffset root addr len s p next := by
  intro claimed
  obtain ⟨p, next, returned⟩ := freshTables_uacpiKernelMap
  have contract := claimed 0xffff800000000000 0x1000 0x9000 36 p freshTables freshTables next []
    freshTables_start trivial rfl (by decide) (by decide) (by decide) returned
  obtain ⟨ready, noIdentity⟩ :=
    @MmStart.noIdentity _ _ _ freshTables [] freshTables_start trivial rfl
  exact noIdentity.not_mappingContract ready (by decide) (by decide) (by decide) returned contract

end Lord84
