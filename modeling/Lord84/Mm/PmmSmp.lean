import Lord84.Mm.PmmRun
import Lord84.Theory.SpinLock

/-!
# The physical allocator on several processors

`smp_init` starts every processor, and all of them allocate from the one free list.  Here
`pmm_alloc` and `pmm_free` run access by access between `acquire_lock` and `free_lock`, while
the other processors write into the pages they hold.

Every interleaving comes to what some sequential run of the same calls comes to.  So no page is
in two hands and none is lost, and `pmm_lock` does what it is for, with one exception: an
allocation that finds no page never releases it.
-/

namespace Lord84

open Theory Function

section Code

variable (hhdmoffset : Word)

/-- `pmm_free` between `acquire_lock` and its return. -/
def pmmFreeCode (addr : Word) : Code MmState (Option Word) := do
  let virtAddr := addr + hhdmoffset
  let freeList ← Code.read (·.freeList)
  Code.write fun s => { s with memory := store64 hhdmoffset s.memory virtAddr freeList }
  Code.write fun s => { s with freeList := virtAddr }
  let count ← Code.read (·.pmmFreePageCount)
  Code.write fun s => { s with pmmFreePageCount := count + 1 }
  Code.write fun s => { s with pmmLock := false }
  return none

/-- `pmm_alloc` between `acquire_lock` and its return. -/
def pmmAllocCode : Code MmState (Option Word) := do
  let count ← Code.read (·.pmmFreePageCount)
  if count ≤ 0 then
    return some 0
  else
    let head ← Code.read (·.freeList)
    let addr := head - hhdmoffset
    let head ← Code.read (·.freeList)
    let next ← Code.read fun s => load64 hhdmoffset s.memory head
    Code.write fun s => { s with freeList := next }
    let count ← Code.read (·.pmmFreePageCount)
    Code.write fun s => { s with pmmFreePageCount := count - 1 }
    Code.write fun s => { s with pmmLock := false }
    return some addr

/-- What a processor knows of the allocator: the pages it holds, and what its calls have
returned so far, the last one first. -/
structure PmmOwn where
  pages : List Word
  returned : List (PmmCall × Option Word)

/-- Nothing is held yet. -/
def PmmOwn.empty : PmmOwn where
  pages := []
  returned := []

/-- A call returns to its processor; `NULL` is no page. -/
def PmmOwn.finish (own : PmmOwn) (call : PmmCall) (result : Option Word) : PmmOwn where
  pages :=
    match call, result with
    | .alloc, some page => if page = 0 then own.pages else page :: own.pages
    | .alloc, none => own.pages
    | .free page, _ => own.pages.erase page
  returned := (call, result) :: own.returned

/-- The bodies of the two functions. -/
def pmmCode : PmmCall → Code MmState (Option Word)
  | .alloc => pmmAllocCode hhdmoffset
  | .free addr => pmmFreeCode hhdmoffset addr

/-- `pmm_lock` and what it protects.  A processor frees what it holds, and it writes into what
it holds. -/
def pmmProtocol : LockProtocol MmState PmmCall (Option Word) PmmOwn where
  locked s := s.pmmLock
  acquire s := { s with pmmLock := true }
  code := pmmCode hhdmoffset
  allowed call own := ∀ page, call = .free page → page ∈ own.pages
  finish call result own := own.finish call result
  outside own before after := ∃ page ∈ own.pages, ∃ address value, InPage page address ∧
    after = { before with memory := before.memory.write8 address value }

/-- One call as a whole, with what it returns. -/
def pmmReturn (s : MmState) : PmmCall → Outcome (Option Word × MmState)
  | .alloc => do
      let (page, s) ← pmmAlloc hhdmoffset s
      return (some page, s)
  | .free addr => do
      let s ← pmmFree hhdmoffset s addr
      return (none, s)

variable {hhdmoffset} {s : MmState}

/-- A processor that is alone in the critical section computes what the sequential function
does. -/
theorem pmmCode_run (unlocked : s.pmmLock = false) (call : PmmCall) :
    pmmReturn hhdmoffset s call =
      .done ((pmmCode hhdmoffset call).run { s with pmmLock := true }) := by
  cases call with
  | alloc =>
      by_cases empty : s.pmmFreePageCount = 0
      · simp [pmmReturn, pmmAlloc_exhausted unlocked empty, pmmCode, pmmAllocCode, empty]
      · have more : ¬ s.pmmFreePageCount = 0#64 := empty
        simp [pmmReturn, pmmAlloc_eq unlocked empty, pmmCode, pmmAllocCode, popPage, load64,
          unlocked, more]
  | free addr =>
      have direct : addr + hhdmoffset - hhdmoffset = addr := BitVec.add_sub_cancel _ _
      simp [pmmReturn, pmmFree_eq unlocked, pmmCode, pmmFreeCode, pushPage, store64, unlocked,
        direct]

/-! ## What the processors hold -/

/-- The first word of a page is outside every other page. -/
theorem outside_of_inPage {page other address : Word} (aligned : PageAligned page)
    (otherAligned : PageAligned other) (inside : InPage other address)
    (different : other ≠ page) : 8 ≤ (address - page).toNat := by
  have distinct : other.toNat ≠ page.toNat := fun equal =>
    different (BitVec.eq_of_toNat_eq equal)
  have bound := page.isLt
  have otherBound := other.isLt
  simp only [PageAligned, InPage, blockSize] at aligned otherAligned inside
  rw [BitVec.toNat_sub]
  omega

theorem read64_write8_of_inPage (memory : Memory) {page other address : Word} (value : Byte)
    (aligned : PageAligned page) (otherAligned : PageAligned other)
    (inside : InPage other address) (different : other ≠ page) :
    (memory.write8 address value).read64 page = memory.read64 page := by
  have outside := outside_of_inPage aligned otherAligned inside different
  apply Memory.read64_congr
  intro offset small
  refine if_neg ?_
  rintro rfl
  rw [Memory.offset_sub page (by omega)] at outside
  omega

/-- The pages `items` are on the free list or held by one processor.  The page at address `0` is
none of them: to its processor it looks like a failure. -/
structure PmmShared {ι : Type} (hhdmoffset : Word) (items : List Word)
    (w : MmState × (ι → PmmOwn)) : Prop where
  free_nodup : (freePages hhdmoffset w.1).Nodup
  free_aligned : ∀ page ∈ freePages hhdmoffset w.1, PageAligned page
  held_nodup : ∀ i, (w.2 i).pages.Nodup
  held_aligned : ∀ i, ∀ page ∈ (w.2 i).pages, PageAligned page
  exclusive : ∀ i j, ∀ page ∈ (w.2 i).pages, page ∈ (w.2 j).pages → i = j
  unheld : ∀ page ∈ freePages hhdmoffset w.1, ∀ i, page ∉ (w.2 i).pages
  kept : ∀ page ≠ 0, page ∈ items ↔
    page ∈ freePages hhdmoffset w.1 ∨ ∃ i, page ∈ (w.2 i).pages

namespace PmmShared

variable {ι : Type} {items : List Word} {own : ι → PmmOwn}

/-- A processor writes into a page it holds. -/
theorem write (shared : PmmShared hhdmoffset items (s, own)) {i : ι} {page address : Word}
    (held : page ∈ (own i).pages) (inside : InPage page address) (value : Byte) :
    PmmShared hhdmoffset items
      ({ s with memory := s.memory.write8 address value }, own) := by
  have same : freePages hhdmoffset { s with memory := s.memory.write8 address value } =
      freePages hhdmoffset s := by
    refine freePages_congr rfl rfl ?_
    intro other listed
    refine read64_write8_of_inPage _ _ (shared.free_aligned other listed)
      (shared.held_aligned i page held) inside ?_
    rintro rfl
    exact shared.unheld page listed i held
  constructor <;> simp only [same]
  · exact shared.free_nodup
  · exact shared.free_aligned
  · exact shared.held_nodup
  · exact shared.held_aligned
  · exact shared.exclusive
  · exact shared.unheld
  · exact shared.kept

variable [DecidableEq ι]

/-- Nobody notices a call that leaves the list and the pages of its processor as they are. -/
theorem same (shared : PmmShared hhdmoffset items (s, own)) {i : ι} {t : MmState} {known : PmmOwn}
    (free : freePages hhdmoffset t = freePages hhdmoffset s)
    (pages : known.pages = (own i).pages) :
    PmmShared hhdmoffset items (t, update own i known) := by
  have held : ∀ j, (update own i known j).pages = (own j).pages := by
    intro j
    by_cases self : j = i
    · rw [self, update_self, pages]
    · rw [update_of_ne self]
  constructor <;> simp only [free, held]
  · exact shared.free_nodup
  · exact shared.free_aligned
  · exact shared.held_nodup
  · exact shared.held_aligned
  · exact shared.exclusive
  · exact shared.unheld
  · exact shared.kept

/-- A processor takes the first page of the list. -/
theorem take (shared : PmmShared hhdmoffset items (s, own)) {i : ι} {t : MmState}
    {known : PmmOwn} {page : Word}
    (first : freePages hhdmoffset s = page :: freePages hhdmoffset t)
    (pages : known.pages = if page = 0 then (own i).pages else page :: (own i).pages) :
    PmmShared hhdmoffset items (t, update own i known) := by
  have listed : ∀ other ∈ freePages hhdmoffset t, other ∈ freePages hhdmoffset s := by
    intro other member
    rw [first]
    exact List.mem_cons_of_mem _ member
  have head : page ∈ freePages hhdmoffset s := first ▸ List.mem_cons_self
  have distinct := shared.free_nodup
  rw [first, List.nodup_cons] at distinct
  have held : ∀ j, ∀ other, other ∈ (update own i known j).pages ↔
      other ∈ (own j).pages ∨ j = i ∧ other = page ∧ page ≠ 0 := by
    intro j other
    by_cases self : j = i
    · subst self
      rw [update_self, pages]
      by_cases null : page = 0
      · simp [null]
      · rw [if_neg null, List.mem_cons, or_comm]
        simp only [ne_eq, null, not_false_eq_true, and_true, true_and]
    · simp [self]
  constructor
  · exact distinct.2
  · exact fun other member => shared.free_aligned other (listed other member)
  · intro j
    by_cases self : j = i
    · subst self
      simp only [update_self, pages]
      split
      · exact shared.held_nodup j
      · exact List.nodup_cons.mpr ⟨shared.unheld page head j, shared.held_nodup j⟩
    · simp only [update_of_ne self]
      exact shared.held_nodup j
  · intro j other member
    rcases (held j other).mp member with old | ⟨-, rfl, -⟩
    · exact shared.held_aligned j other old
    · exact shared.free_aligned other head
  · intro j k other first second
    rcases (held j other).mp first with left | ⟨rfl, rfl, -⟩
    · rcases (held k other).mp second with right | ⟨rfl, rfl, -⟩
      · exact shared.exclusive j k other left right
      · exact absurd left (shared.unheld other head j)
    · rcases (held k other).mp second with right | ⟨rfl, -, -⟩
      · exact absurd right (shared.unheld other head k)
      · rfl
  · intro other member j holds
    rcases (held j other).mp holds with old | ⟨-, rfl, -⟩
    · exact shared.unheld other (listed other member) j old
    · exact distinct.1 member
  · intro other some
    rw [shared.kept other some]
    simp only [first, held, List.mem_cons]
    constructor
    · rintro ((rfl | member) | ⟨j, old⟩)
      · exact Or.inr ⟨i, Or.inr ⟨rfl, rfl, some⟩⟩
      · exact Or.inl member
      · exact Or.inr ⟨j, Or.inl old⟩
    · rintro (member | ⟨j, old | ⟨-, rfl, -⟩⟩)
      · exact Or.inl (Or.inr member)
      · exact Or.inr ⟨j, old⟩
      · exact Or.inl (Or.inl rfl)

/-- A processor gives a page back. -/
theorem give (shared : PmmShared hhdmoffset items (s, own)) {i : ι} {t : MmState}
    {known : PmmOwn} {page : Word} (holds : page ∈ (own i).pages)
    (first : freePages hhdmoffset t = page :: freePages hhdmoffset s)
    (pages : known.pages = (own i).pages.erase page) :
    PmmShared hhdmoffset items (t, update own i known) := by
  have fresh : page ∉ freePages hhdmoffset s := fun listed => shared.unheld page listed i holds
  have held : ∀ j, ∀ other, other ∈ (update own i known j).pages ↔
      other ∈ (own j).pages ∧ other ≠ page := by
    intro j other
    by_cases self : j = i
    · subst self
      rw [update_self, pages, (shared.held_nodup j).mem_erase_iff, and_comm]
    · have elsewhere : page ∉ (own j).pages := fun member =>
        self (shared.exclusive j i page member holds)
      rw [update_of_ne self]
      constructor
      · exact fun member => ⟨member, fun equal => elsewhere (equal ▸ member)⟩
      · exact And.left
  constructor
  · rw [first]
    exact List.nodup_cons.mpr ⟨fresh, shared.free_nodup⟩
  · rw [first]
    intro other member
    rcases List.mem_cons.mp member with rfl | old
    · exact shared.held_aligned i other holds
    · exact shared.free_aligned other old
  · intro j
    by_cases self : j = i
    · subst self
      simp only [update_self, pages]
      exact (shared.held_nodup j).erase page
    · simp only [update_of_ne self]
      exact shared.held_nodup j
  · exact fun j other member => shared.held_aligned j other ((held j other).mp member).1
  · exact fun j k other left right =>
      shared.exclusive j k other ((held j other).mp left).1 ((held k other).mp right).1
  · rw [first]
    intro other member j still
    obtain ⟨old, different⟩ := (held j other).mp still
    exact shared.unheld other ((List.mem_cons.mp member).resolve_left different) j old
  · intro other some
    rw [shared.kept other some]
    simp only [first, held, List.mem_cons]
    by_cases equal : other = page
    · subst equal
      simp only [true_or, iff_true]
      exact Or.inr ⟨i, holds⟩
    · simp [equal]

/-- One call of one processor. -/
theorem call (shared : PmmShared hhdmoffset items (s, own)) (unlocked : s.pmmLock = false) {i : ι}
    {call : PmmCall} (allowed : (pmmProtocol hhdmoffset).allowed call (own i))
    {result : Option Word} {t : MmState}
    (returned : pmmReturn hhdmoffset s call = .done (result, t)) :
    PmmShared hhdmoffset items (t, update own i ((own i).finish call result)) := by
  cases call with
  | alloc =>
      obtain ⟨⟨page, next⟩, found, done⟩ := Outcome.bind_eq_done.mp returned
      cases done
      obtain ⟨-, ⟨empty, rfl, rfl⟩ | ⟨available, rfl, rfl⟩⟩ := pmmAlloc_cases found
      · exact shared.same rfl rfl
      · exact shared.take (freePages_popPage available) rfl
  | free page =>
      obtain ⟨next, freed, done⟩ := Outcome.bind_eq_done.mp returned
      cases done
      obtain ⟨-, rfl⟩ := pmmFree_cases freed
      have holds := allowed page rfl
      have wf : PmmWF hhdmoffset s := ⟨unlocked, shared.free_nodup, shared.free_aligned⟩
      have fresh : page ∉ freePages hhdmoffset s := fun listed =>
        shared.unheld page listed i holds
      exact shared.give holds
        (wf.freePages_pushPage (shared.held_aligned i page holds) fresh) rfl

end PmmShared

/-! ## What the others do meanwhile -/

section Disturbance

variable {ι : Type} {own : ι → PmmOwn} {i : ι} {before after : MmState}

theorem PmmDisturbs.globals (moved : (pmmProtocol hhdmoffset).Disturbs own i before after) :
    after.pmmLock = before.pmmLock ∧ after.freeList = before.freeList ∧
      after.pmmFreePageCount = before.pmmFreePageCount := by
  have kept := moved.same (fun s => (s.pmmLock, s.freeList, s.pmmFreePageCount)) (by
    rintro j - before after ⟨page, held, address, value, inside, rfl⟩
    rfl)
  simpa using kept

/-- Nobody else writes into this page. -/
def Unshared (own : ι → PmmOwn) (i : ι) (page : Word) : Prop :=
  PageAligned page ∧ ∀ j ≠ i, ∀ other ∈ (own j).pages, PageAligned other ∧ other ≠ page

theorem PmmDisturbs.load (moved : (pmmProtocol hhdmoffset).Disturbs own i before after)
    {pointer : Word} (unshared : Unshared own i (pointer - hhdmoffset)) :
    load64 hhdmoffset after.memory pointer = load64 hhdmoffset before.memory pointer := by
  refine moved.same (fun s => load64 hhdmoffset s.memory pointer) ?_
  rintro j other before after ⟨page, held, address, value, inside, rfl⟩
  obtain ⟨aligned, different⟩ := unshared.2 j other page held
  exact read64_write8_of_inPage _ _ unshared.1 aligned inside different

theorem unnoticed_store64 {pointer : Word} (unshared : Unshared own i (pointer - hhdmoffset))
    (value : Word) :
    Unnoticed ((pmmProtocol hhdmoffset).Disturbs own i)
      fun s => { s with memory := store64 hhdmoffset s.memory pointer value } := by
  apply LockProtocol.unnoticed_of_outside
  rintro j other before after ⟨page, held, address, byte, inside, rfl⟩
  obtain ⟨aligned, different⟩ := unshared.2 j other page held
  refine ⟨page, held, address, byte, inside, ?_⟩
  simp only [store64, Memory.write8_write64_comm _ _ _
    (outside_of_inPage unshared.1 aligned inside different)]

/-- A write to the globals of the allocator. -/
theorem unnoticed_of_globals {effect : MmState → MmState}
    (globals : ∀ s memory,
      effect { s with memory := memory } = { effect s with memory := memory }) :
    Unnoticed ((pmmProtocol hhdmoffset).Disturbs own i) effect := by
  apply LockProtocol.unnoticed_of_outside
  rintro j other before after ⟨page, held, address, value, inside, rfl⟩
  have same : effect before = { effect before with memory := before.memory } :=
    globals before before.memory
  have memory : (effect before).memory = before.memory := by rw [same]
  refine ⟨page, held, address, value, inside, ?_⟩
  rw [globals, memory]

/-- `pmm_alloc` notices nothing of what the others do, as long as they leave the first page of
the list alone. -/
theorem pmmAllocCode_insensitive (locked : s.pmmLock = true)
    (unshared : s.pmmFreePageCount ≠ 0 → Unshared own i (s.freeList - hhdmoffset)) :
    Insensitive (fun s => s.pmmLock) ((pmmProtocol hhdmoffset).Disturbs own i)
      (pmmAllocCode hhdmoffset) s := by
  have held : ∀ start : MmState, start.pmmLock = true → ∀ disturbed,
      (pmmProtocol hhdmoffset).Disturbs own i start disturbed → disturbed.pmmLock = true :=
    fun start taken disturbed moved => (PmmDisturbs.globals moved).1.trans taken
  have freeList : ∀ start disturbed, (pmmProtocol hhdmoffset).Disturbs own i start disturbed →
      disturbed.freeList = start.freeList :=
    fun start disturbed moved => (PmmDisturbs.globals moved).2.1
  have count : ∀ start disturbed, (pmmProtocol hhdmoffset).Disturbs own i start disturbed →
      disturbed.pmmFreePageCount = start.pmmFreePageCount :=
    fun start disturbed moved => (PmmDisturbs.globals moved).2.2
  refine .read_bind (held s locked) (count s) ?_
  split
  · trivial
  · next more =>
      have available : s.pmmFreePageCount ≠ 0 := fun zero => more (by rw [zero]; decide)
      refine .read_bind (held s locked) (freeList s) ?_
      refine .read_bind (held s locked) (freeList s) ?_
      refine .read_bind (held s locked)
        (fun disturbed moved => PmmDisturbs.load moved (unshared available)) ?_
      refine .write_bind (held s locked) (unnoticed_of_globals fun _ _ => rfl) ?_
      refine .read_bind (held _ locked) (count _) ?_
      refine .write_bind (held _ locked) (unnoticed_of_globals fun _ _ => rfl) ?_
      exact .write_bind (held _ locked) (unnoticed_of_globals fun _ _ => rfl) trivial

/-- `pmm_free` notices nothing either, as long as the others leave its page alone. -/
theorem pmmFreeCode_insensitive {page : Word} (locked : s.pmmLock = true)
    (unshared : Unshared own i page) :
    Insensitive (fun s => s.pmmLock) ((pmmProtocol hhdmoffset).Disturbs own i)
      (pmmFreeCode hhdmoffset page) s := by
  have direct : page + hhdmoffset - hhdmoffset = page := BitVec.add_sub_cancel _ _
  have held : ∀ start : MmState, start.pmmLock = true → ∀ disturbed,
      (pmmProtocol hhdmoffset).Disturbs own i start disturbed → disturbed.pmmLock = true :=
    fun start taken disturbed moved => (PmmDisturbs.globals moved).1.trans taken
  refine .read_bind (held s locked) (fun _ moved => (PmmDisturbs.globals moved).2.1) ?_
  refine .write_bind (held s locked) (unnoticed_store64 (by rwa [direct]) _) ?_
  refine .write_bind (held _ locked) (unnoticed_of_globals fun _ _ => rfl) ?_
  refine .read_bind (held _ locked) (fun _ moved => (PmmDisturbs.globals moved).2.2) ?_
  refine .write_bind (held _ locked) (unnoticed_of_globals fun _ _ => rfl) ?_
  exact .write_bind (held _ locked) (unnoticed_of_globals fun _ _ => rfl) trivial

end Disturbance

variable {ι : Type} [DecidableEq ι] {items : List Word}

/-- While the processors hold disjoint pages, none of them notices the others. -/
theorem pmmProtocol_rules :
    (pmmProtocol hhdmoffset).Rules (@PmmShared ι hhdmoffset items) where
  step good step := by
    cases step with
    | call i call unlocked allowed =>
        exact PmmShared.call good unlocked allowed (pmmCode_run unlocked call)
    | outside i acts =>
        obtain ⟨page, held, address, value, inside, rfl⟩ := acts
        exact PmmShared.write good held inside value
  insensitive {i call s own} good unlocked allowed := by
    cases call with
    | alloc =>
        refine pmmAllocCode_insensitive rfl fun available => ?_
        have listed : s.freeList - hhdmoffset ∈ freePages hhdmoffset s := by
          rw [freePages_popPage (s := s) available]
          exact List.mem_cons_self
        refine ⟨good.free_aligned _ listed, ?_⟩
        intro j _ other held
        refine ⟨good.held_aligned j other held, ?_⟩
        rintro rfl
        exact good.unheld _ listed j held
    | free page =>
        have holds : page ∈ (own i).pages := allowed page rfl
        refine pmmFreeCode_insensitive rfl ⟨good.held_aligned i page holds, ?_⟩
        intro j different other held
        refine ⟨good.held_aligned j other held, ?_⟩
        rintro rfl
        exact different (good.exclusive j i other held holds)
  locked_outside acts := by
    obtain ⟨page, held, address, value, inside, rfl⟩ := acts
    rfl

end Code

/-! ## Sequential runs -/

/-- What happens in a sequential run: a processor calls the allocator, or it writes. -/
inductive PmmEvent (ι : Type) where
  | call (i : ι) (request : PmmCall)
  | write (i : ι) (address : Word) (value : Byte)

namespace PmmEvent

variable {ι : Type} [DecidableEq ι] (hhdmoffset : Word)

/-- The sequential allocator serves one call as a whole. -/
def step (w : MmState × (ι → PmmOwn)) : PmmEvent ι → Outcome (MmState × (ι → PmmOwn))
  | .call i request => do
      let (result, s) ← pmmReturn hhdmoffset w.1 request
      return (s, update w.2 i ((w.2 i).finish request result))
  | .write _ address value =>
      return ({ w.1 with memory := w.1.memory.write8 address value }, w.2)

/-- A processor frees what it holds, and it writes into what it holds. -/
def Allowed (w : MmState × (ι → PmmOwn)) : PmmEvent ι → Prop
  | .call i request => ∀ page, request = .free page → page ∈ (w.2 i).pages
  | .write i address _ => ∃ page ∈ (w.2 i).pages, InPage page address

variable {hhdmoffset} {start final : MmState × (ι → PmmOwn)}

theorem of_serialStep (step : (pmmProtocol hhdmoffset).SerialStep start final) :
    ∃ event, Allowed start event ∧ PmmEvent.step hhdmoffset start event = .done final := by
  cases step with
  | call i request unlocked allowed =>
      refine ⟨.call i request, allowed, ?_⟩
      rw [PmmEvent.step, pmmCode_run unlocked]
      rfl
  | outside i acts =>
      obtain ⟨page, held, address, value, inside, rfl⟩ := acts
      exact ⟨.write i address value, ⟨page, held, inside⟩, rfl⟩

theorem of_serial (serial : (pmmProtocol hhdmoffset).Serial start final) :
    ∃ events, Along (PmmEvent.step hhdmoffset) Allowed start events ∧
      run (PmmEvent.step hhdmoffset) start events = .done final := by
  induction serial using Relation.ReflTransGen.head_induction_on with
  | refl => exact ⟨[], trivial, rfl⟩
  | head step _ ih =>
      obtain ⟨event, allowed, stepped⟩ := of_serialStep step
      obtain ⟨events, along, finished⟩ := ih
      refine ⟨event :: events, ⟨allowed, ?_⟩, ?_⟩
      · intro next also
        cases stepped.symm.trans also
        exact along
      · rw [run_cons, stepped, Outcome.done_bind, finished]

end PmmEvent

/-! ## All interleavings -/

section Interleavings

variable {ι : Type} [DecidableEq ι]

/-- The processors, as far as the allocator is concerned. -/
abbrev PmmProcessors (ι : Type) :=
  Processors ι MmState PmmCall (Option Word) PmmOwn

/-- The processors when `pmm_init` has returned. -/
def pmmBooted (initial : MmState) : PmmProcessors ι :=
  .idle initial fun _ => .empty

omit [DecidableEq ι] in
theorem PmmShared.initial {hhdmoffset : Word} {s : MmState} (wf : PmmWF hhdmoffset s) :
    @PmmShared ι hhdmoffset (freePages hhdmoffset s) (s, fun _ => .empty) where
  free_nodup := wf.nodup
  free_aligned := wf.aligned
  held_nodup _ := List.nodup_nil
  held_aligned _ _ held := nomatch held
  exclusive _ _ _ held := nomatch held
  unheld _ _ _ held := nomatch held
  kept page _ := by simp [PmmOwn.empty]

variable {hhdmoffset : Word} {initial : MmState} {m : PmmProcessors ι}

theorem pmm_inv (wf : PmmWF hhdmoffset initial)
    (run : (pmmProtocol hhdmoffset).Steps (pmmBooted initial) m) :
    (pmmProtocol hhdmoffset).Inv (initial, fun _ => .empty) m :=
  (LockProtocol.Inv.idle initial _).steps pmmProtocol_rules (PmmShared.initial wf) run

/-- Whatever the memory map, however many processors there are, and in whatever order they take
their steps: one processor at a time is between `acquire_lock` and `free_lock`, and while none
is, memory, the free list and all that the calls have returned are those of a sequential run in
which every processor makes the same calls in the same order. -/
theorem pmm_interleavings_serializable (map : LimineMemmap) (memory : Memory)
    (hhdmoffset : Word) :
    ∃ initial, pmmInit hhdmoffset (some map.entries) (.boot memory) = .done initial ∧
      ∀ m : PmmProcessors ι, (pmmProtocol hhdmoffset).Steps (pmmBooted initial) m →
        (∀ i j, m.Critical i → m.Critical j → i = j ∧ m.shared.pmmLock = true) ∧
        ((∀ i, ¬ m.Critical i) → ∃ events,
          Along (PmmEvent.step hhdmoffset) PmmEvent.Allowed (initial, fun _ => .empty) events ∧
          run (PmmEvent.step hhdmoffset) (initial, fun _ => .empty) events =
            .done (m.shared, (pmmProtocol hhdmoffset).settled m)) := by
  obtain ⟨initial, booted, wf, -⟩ := @pmmInit_spec hhdmoffset map memory
  refine ⟨initial, booted, ?_⟩
  intro m run
  have inv := pmm_inv wf run
  exact ⟨fun i j => inv.exclusion, fun quiet => PmmEvent.of_serial (inv.serial quiet)⟩

/-- At no time two processors hold the same page, or one processor holds a page twice.  While
nobody is between lock and unlock, every page that `pmm_init` has published is on the free list
or held by a processor, never both.  Page `0` is the exception: an allocation that returns it
looks like one that has failed, and the page is gone. -/
theorem pmm_interleavings_conserve_pages (map : LimineMemmap) (memory : Memory)
    (hhdmoffset : Word) :
    ∃ initial, pmmInit hhdmoffset (some map.entries) (.boot memory) = .done initial ∧
      ∀ m : PmmProcessors ι, (pmmProtocol hhdmoffset).Steps (pmmBooted initial) m →
        let held i := ((pmmProtocol hhdmoffset).settled m i).pages
        (∀ i, (held i).Nodup) ∧
        (∀ i j, ∀ page ∈ held i, page ∈ held j → i = j) ∧
        ((∀ i, ¬ m.Critical i) →
          (freePages hhdmoffset m.shared).Nodup ∧
          (∀ page ∈ freePages hhdmoffset m.shared, ∀ i, page ∉ held i) ∧
          ∀ page ≠ 0, page ∈ freePages hhdmoffset initial ↔
            page ∈ freePages hhdmoffset m.shared ∨ ∃ i, page ∈ held i) := by
  obtain ⟨initial, booted, wf, -⟩ := @pmmInit_spec hhdmoffset map memory
  refine ⟨initial, booted, ?_⟩
  intro m run
  have inv := pmm_inv wf run
  have shared : ∀ {w}, (pmmProtocol hhdmoffset).Serial (initial, fun _ => .empty) w →
      @PmmShared ι hhdmoffset (freePages hhdmoffset initial) w :=
    pmmProtocol_rules.serial (PmmShared.initial wf)
  obtain ⟨entered, known⟩ := inv.holder.known
  refine ⟨(shared known).held_nodup, (shared known).exclusive, ?_⟩
  intro quiet
  have now := shared (inv.serial quiet)
  exact ⟨now.free_nodup, now.unheld, now.kept⟩

/-- A call keeps the lock when it finds the list empty, and only then. -/
theorem pmmReturn_locked {s t : MmState} {call : PmmCall} {result : Option Word}
    (returned : pmmReturn hhdmoffset s call = .done (result, t)) :
    t.pmmLock = true ↔ call = .alloc ∧ freePages hhdmoffset s = [] := by
  cases call with
  | alloc =>
      obtain ⟨⟨page, next⟩, found, done⟩ := Outcome.bind_eq_done.mp returned
      cases done
      have listed := @length_freePages hhdmoffset s
      obtain ⟨unlocked, ⟨empty, rfl, rfl⟩ | ⟨available, rfl, rfl⟩⟩ := pmmAlloc_cases found
      · rw [empty] at listed
        simpa using List.eq_nil_of_length_eq_zero listed
      · simp [popPage, unlocked, freePages_popPage available]
  | free page =>
      obtain ⟨next, freed, done⟩ := Outcome.bind_eq_done.mp returned
      cases done
      obtain ⟨unlocked, rfl⟩ := pmmFree_cases freed
      simp [pushPage, unlocked]

/-- Nobody starves as long as `pmm_lock` is released: a waiting processor can be served at once.
But a `pmm_alloc` on an empty list keeps the lock, and from then on no call of any processor
returns, `pmm_free` included. -/
theorem pmm_failed_alloc_stops_all (map : LimineMemmap) (memory : Memory) (hhdmoffset : Word) :
    ∃ initial, pmmInit hhdmoffset (some map.entries) (.boot memory) = .done initial ∧
      ∀ m : PmmProcessors ι, (pmmProtocol hhdmoffset).Steps (pmmBooted initial) m →
        (∀ i, ¬ m.Critical i) →
          (m.shared.pmmLock = false → ∀ i call, m.activity i = .waiting call →
            ∃ result m', (pmmProtocol hhdmoffset).Steps m m' ∧
              m'.activity i = .idle ∧ m'.own i = (m.own i).finish call result ∧
              (m'.shared.pmmLock = true ↔
                call = .alloc ∧ freePages hhdmoffset m.shared = [])) ∧
          (m.shared.pmmLock = true → ∀ m', (pmmProtocol hhdmoffset).Steps m m' →
            m'.shared.pmmLock = true ∧
            (pmmProtocol hhdmoffset).settled m' = (pmmProtocol hhdmoffset).settled m ∧
            ∀ i call, m.activity i = .waiting call → m'.activity i = .waiting call) := by
  obtain ⟨initial, booted, wf, -⟩ := @pmmInit_spec hhdmoffset map memory
  refine ⟨initial, booted, ?_⟩
  intro m run quiet
  constructor
  · intro unlocked i call waiting
    refine ⟨((pmmCode hhdmoffset call).run { m.shared with pmmLock := true }).1, _,
      LockProtocol.Steps.served waiting unlocked, ?_, ?_, ?_⟩
    · exact Processors.setActivity_self m i _
    · exact update_self i _ m.own
    · exact pmmReturn_locked (pmmCode_run unlocked call)
  · intro locked m' further
    obtain ⟨dead, same, waits⟩ := LockProtocol.Dead.steps
      (@pmmProtocol_rules hhdmoffset ι _ []) ⟨quiet, locked⟩ further
    exact ⟨dead.locked, same, waits⟩

end Interleavings

end Lord84
