import Lord84.Mm.PmmInit

/-!
# Runs of the physical allocator

Clients of the allocator take pages, write into the pages they hold and give them
back.  Together with its client the allocator refines a `Pool`: the free list is
the free side, the outstanding pages are the taken side, and no page is ever lost,
duplicated or handed out twice.

The last section follows the lock through runs in which memory is exhausted.
-/

namespace Lord84

open Theory

/-- The allocator with the pages its clients hold. -/
structure PmmClient where
  state : MmState
  outstanding : List Word

/-- What clients may do; a write goes to a physical address. -/
inductive PmmOp where
  | alloc
  | free (page : Word)
  | write (address : Word) (value : Byte)
  deriving DecidableEq, Repr

namespace PmmClient

variable (hhdmoffset : Word)

/-- Execute one operation and keep track of the outstanding pages. -/
def step (client : PmmClient) : PmmOp → Outcome PmmClient
  | .alloc => do
      let (page, state) ← pmmAlloc hhdmoffset client.state
      return ⟨state, page :: client.outstanding⟩
  | .free page => do
      let state ← pmmFree hhdmoffset client.state page
      return ⟨state, client.outstanding.erase page⟩
  | .write address value =>
      return ⟨{ client.state with memory := client.state.memory.write8 address value },
        client.outstanding⟩

/-- The rules clients follow: allocate only while pages are left, free only what is
outstanding, and write only into outstanding pages. -/
def Allowed (client : PmmClient) : PmmOp → Prop
  | .alloc => client.state.pmmFreePageCount ≠ 0
  | .free page => page ∈ client.outstanding
  | .write address _ => ∃ page ∈ client.outstanding,
      page.toNat ≤ address.toNat ∧ address.toNat < page.toNat + blockSize

/-- The effect of a permitted operation. -/
def after (client : PmmClient) : PmmOp → PmmClient
  | .alloc => ⟨popPage hhdmoffset client.state,
      (client.state.freeList - hhdmoffset) :: client.outstanding⟩
  | .free page => ⟨pushPage hhdmoffset client.state page, client.outstanding.erase page⟩
  | .write address value =>
      ⟨{ client.state with memory := client.state.memory.write8 address value },
        client.outstanding⟩

/-- The allocator and its clients represent a pool of pages. -/
structure Refines (client : PmmClient) (pool : Pool Word) : Prop where
  unlocked : client.state.pmmLock = false
  free : freePages hhdmoffset client.state = pool.free
  taken : client.outstanding = pool.taken
  aligned : ∀ page ∈ pool.items, PageAligned page

variable {hhdmoffset} {client : PmmClient} {pool : Pool Word}

theorem step_eq (unlocked : client.state.pmmLock = false) {op : PmmOp}
    (permitted : Allowed client op) :
    step hhdmoffset client op = .done (after hhdmoffset client op) := by
  cases op with
  | alloc =>
      rw [step, pmmAlloc_eq unlocked permitted]
      rfl
  | free page =>
      rw [step, pmmFree_eq unlocked]
      rfl
  | write address value => rfl

theorem after_unlocked (unlocked : client.state.pmmLock = false) (op : PmmOp) :
    (after hhdmoffset client op).state.pmmLock = false := by
  cases op <;> exact unlocked

theorem Refines.wf (refines : Refines hhdmoffset client pool) :
    PmmWF hhdmoffset client.state where
  unlocked := refines.unlocked
  nodup := refines.free ▸ pool.free_nodup
  aligned page listed := by
    rw [refines.free] at listed
    exact refines.aligned page (List.mem_append_left _ listed)

theorem Refines.after_alloc (refines : Refines hhdmoffset client pool)
    (available : client.state.pmmFreePageCount ≠ 0) :
    ∃ newPool, Refines hhdmoffset (after hhdmoffset client .alloc) newPool ∧
      newPool.items.Perm pool.items := by
  have first : freePages hhdmoffset client.state = _ := freePages_popPage available
  rw [refines.free] at first
  refine ⟨pool.take first, ?_, pool.take_items first⟩
  constructor
  · exact refines.unlocked
  · rfl
  · rw [after, refines.taken]
    rfl
  · intro page member
    exact refines.aligned page ((pool.take_items first).mem_iff.mp member)

theorem Refines.after_free (refines : Refines hhdmoffset client pool) {page : Word}
    (held : page ∈ client.outstanding) :
    ∃ newPool, Refines hhdmoffset (after hhdmoffset client (.free page)) newPool ∧
      newPool.items.Perm pool.items := by
  have taken : page ∈ pool.taken := refines.taken ▸ held
  have aligned : PageAligned page :=
    refines.aligned page (List.mem_append_right _ taken)
  have fresh : page ∉ freePages hhdmoffset client.state := by
    rw [refines.free]
    exact fun unused => pool.not_taken_of_free unused taken
  refine ⟨pool.give taken, ?_, pool.give_items taken⟩
  constructor
  · exact refines.unlocked
  · rw [after, refines.wf.freePages_pushPage aligned fresh, refines.free]
    rfl
  · rw [after, refines.taken]
    rfl
  · intro other member
    exact refines.aligned other ((pool.give_items taken).mem_iff.mp member)

theorem Refines.after_write (refines : Refines hhdmoffset client pool) {address : Word}
    (value : Byte) (permitted : ∃ page ∈ client.outstanding,
      page.toNat ≤ address.toNat ∧ address.toNat < page.toNat + blockSize) :
    ∃ newPool, Refines hhdmoffset (after hhdmoffset client (.write address value)) newPool ∧
      newPool.items.Perm pool.items := by
  obtain ⟨held, heldMem, inside⟩ := permitted
  have inHeld : InPage held address := inside
  have taken : held ∈ pool.taken := refines.taken ▸ heldMem
  have heldAligned := refines.aligned held (List.mem_append_right _ taken)
  refine ⟨pool, ?_, List.Perm.refl _⟩
  constructor
  · exact refines.unlocked
  · rw [← refines.free]
    refine freePages_congr (s := client.state) rfl rfl ?_
    intro page listed
    have unused : page ∈ pool.free := refines.free ▸ listed
    have aligned := refines.aligned page (List.mem_append_left _ unused)
    apply Memory.read64_congr
    intro offset small
    have inPage : InPage page (page + BitVec.ofNat 64 offset) :=
      aligned.inPage (Nat.lt_trans small (by decide))
    refine if_neg ?_
    intro equal
    have same := (equal ▸ inPage).unique aligned heldAligned inHeld
    exact pool.not_taken_of_free unused (same ▸ taken)
  · exact refines.taken
  · exact refines.aligned

/-- Every permitted operation moves pages between the two sides. -/
theorem Refines.after (refines : Refines hhdmoffset client pool) {op : PmmOp}
    (permitted : Allowed client op) :
    ∃ newPool, Refines hhdmoffset (PmmClient.after hhdmoffset client op) newPool ∧
      newPool.items.Perm pool.items := by
  cases op with
  | alloc => exact refines.after_alloc permitted
  | free page => exact refines.after_free permitted
  | write address value => exact refines.after_write value permitted

/-- The state represents a pool that consists of the pages `items`. -/
def Holds (hhdmoffset : Word) (items : List Word) (client : PmmClient) : Prop :=
  ∃ pool : Pool Word, Refines hhdmoffset client pool ∧ pool.items.Perm items

/-- Every permitted run returns and keeps all pages. -/
theorem Holds.run {items : List Word} (holds : Holds hhdmoffset items client)
    {ops : List PmmOp}
    (permitted : Along (PmmClient.step hhdmoffset) Allowed client ops) :
    ∃ final, Theory.run (PmmClient.step hhdmoffset) client ops = .done final ∧
      Holds hhdmoffset items final := by
  refine run_progress ?_ holds permitted
  rintro reached op ⟨pool, refines, kept⟩ allowed
  obtain ⟨nextPool, nextRefines, moved⟩ := refines.after allowed
  exact ⟨_, step_eq refines.unlocked allowed, nextPool, nextRefines, moved.trans kept⟩

/-- A freshly initialised allocator without clients. -/
theorem holds_initial {s : MmState} (wf : PmmWF hhdmoffset s) :
    Holds hhdmoffset (freePages hhdmoffset s) ⟨s, []⟩ := by
  refine ⟨⟨freePages hhdmoffset s, [], by simpa using wf.nodup⟩, ?_, ?_⟩
  · constructor
    · exact wf.unlocked
    · rfl
    · rfl
    · intro page member
      exact wf.aligned page (by simpa [Pool.items] using member)
  · simp [Pool.items]

/-! ### Runs that end with pages left -/

/-- The rules without a look at the free list: clients free what is outstanding and write
into outstanding pages, and they allocate as they like. -/
def Owns (client : PmmClient) (op : PmmOp) : Prop :=
  op = .alloc ∨ Allowed client op

/-- Once an allocation has failed, no page ever comes back. -/
theorem run_exhausted {ops : List PmmOp} {final : PmmClient}
    (locked : client.state.pmmLock = true) (empty : client.state.pmmFreePageCount = 0)
    (owns : Along (step hhdmoffset) Owns client ops)
    (finished : run (step hhdmoffset) client ops = .done final) :
    final.state.pmmFreePageCount = 0 := by
  have keep : ∀ reached op next,
      reached.state.pmmLock = true ∧ reached.state.pmmFreePageCount = 0 → Owns reached op →
      step hhdmoffset reached op = .done next →
      next.state.pmmLock = true ∧ next.state.pmmFreePageCount = 0 := by
    rintro reached op next ⟨held, none⟩ - stepped
    cases op with
    | alloc =>
        rw [step, pmmAlloc_spinning held] at stepped
        cases stepped
    | free page =>
        rw [step, pmmFree, held] at stepped
        cases stepped
    | write address value =>
        cases stepped
        exact ⟨held, none⟩
  exact (run_invariant keep ⟨locked, empty⟩ owns finished).2

/-- When pages are left at the end of a run, then every allocation of the run found one. -/
theorem along_allowed {ops : List PmmOp} {final : PmmClient}
    (unlocked : client.state.pmmLock = false)
    (owns : Along (step hhdmoffset) Owns client ops)
    (finished : run (step hhdmoffset) client ops = .done final)
    (left : final.state.pmmFreePageCount ≠ 0) :
    Along (step hhdmoffset) Allowed client ops := by
  induction ops generalizing client with
  | nil => trivial
  | cons op ops ih =>
      have found : Allowed client op := by
        rcases owns.1 with rfl | permitted
        · intro empty
          let locked : PmmClient :=
            ⟨{ client.state with pmmLock := true }, 0 :: client.outstanding⟩
          have failed : step hhdmoffset client .alloc = .done locked := by
            rw [step, pmmAlloc_exhausted unlocked empty]
            rfl
          rw [run_cons, failed, Outcome.done_bind] at finished
          exact left (@run_exhausted hhdmoffset locked _ _ rfl empty (owns.2 _ failed) finished)
        · exact permitted
      have stepped : step hhdmoffset client op = _ := step_eq unlocked found
      refine ⟨found, ?_⟩
      intro next alsoStepped
      cases stepped.symm.trans alsoStepped
      rw [run_cons, stepped, Outcome.done_bind] at finished
      exact ih (after_unlocked unlocked op) (owns.2 _ stepped) finished

end PmmClient

/-- Whatever the memory map, whatever memory held before and whatever the clients
do by the rules: the list always has distinct pages of usable entries, none of them
outstanding, no page is lost or duplicated, and every allocation returns a page
that nobody holds. -/
theorem pmm_run_conserves_pages (map : LimineMemmap) (memory : Memory) (hhdmoffset : Word) :
    ∃ initial, pmmInit hhdmoffset (some map.entries) (.boot memory) = .done initial ∧
      ∀ ops, Along (PmmClient.step hhdmoffset) PmmClient.Allowed ⟨initial, []⟩ ops →
        ∃ client, run (PmmClient.step hhdmoffset) ⟨initial, []⟩ ops = .done client ∧
          (freePages hhdmoffset client.state).Nodup ∧
          (∀ page ∈ freePages hhdmoffset client.state,
            InUsable map.entries page ∧ page ∉ client.outstanding) ∧
          (freePages hhdmoffset client.state ++ client.outstanding).Perm
            (freePages hhdmoffset initial) ∧
          (client.state.pmmFreePageCount ≠ 0 → ∃ page next,
            pmmAlloc hhdmoffset client.state = .done (page, next) ∧
              page ∉ client.outstanding) := by
  obtain ⟨initial, booted, wf, published, -⟩ := @pmmInit_spec hhdmoffset map memory
  refine ⟨initial, booted, ?_⟩
  intro ops permitted
  obtain ⟨client, finished, pool, refines, kept⟩ :=
    (PmmClient.holds_initial wf).run permitted
  have unheld : ∀ page ∈ freePages hhdmoffset client.state, page ∉ client.outstanding := by
    rw [refines.free, refines.taken]
    exact fun page unused => pool.not_taken_of_free unused
  refine ⟨client, finished, refines.wf.nodup, ?_, ?_, ?_⟩
  · intro page listed
    refine ⟨?_, unheld page listed⟩
    have item : page ∈ freePages hhdmoffset initial := by
      apply kept.mem_iff.mp
      rw [Pool.items, ← refines.free]
      exact List.mem_append_left _ listed
    rw [published, List.mem_reverse] at item
    exact (map.publishedPages_inUsable item).1
  · rw [refines.free, refines.taken]
    exact kept
  · intro available
    refine ⟨_, _, pmmAlloc_eq refines.unlocked available, ?_⟩
    apply unheld
    rw [freePages_popPage available]
    exact List.mem_cons_self

/-- Two pages on the list: one is taken, written to and given back. -/
theorem pmm_run_alloc_write_free :
    let map : LimineMemmap := ⟨[⟨0x1000, 0x3000, .usable⟩], by decide, by decide, by decide⟩
    ∃ initial client, pmmInit 0 (some map.entries) (.boot fun _ => 0) = .done initial ∧
      freePages 0 initial = [0x3000, 0x2000] ∧
      run (PmmClient.step 0) ⟨initial, []⟩ [.alloc, .write 0x3010 0xff, .free 0x3000] =
        .done client ∧
      (freePages 0 client.state ++ client.outstanding).Perm [0x3000, 0x2000] := by
  intro map
  obtain ⟨initial, booted, holds⟩ := pmm_run_conserves_pages map (fun _ => 0) 0
  obtain ⟨same, again, wf, published, -⟩ := @pmmInit_spec 0 map (fun _ => 0)
  cases booted.symm.trans again
  have pages : freePages 0 initial = [0x3000, 0x2000] := published.trans (by decide)
  obtain ⟨available, first, -⟩ := pop_of_freePages_cons pages
  have allocated := @pmmAlloc_eq 0 initial wf.unlocked available
  rw [first] at allocated
  have permitted : Along (PmmClient.step 0) PmmClient.Allowed ⟨initial, []⟩
      [.alloc, .write 0x3010 0xff, .free 0x3000] := by
    refine ⟨available, ?_⟩
    intro next stepped
    rw [PmmClient.step, allocated] at stepped
    cases stepped
    refine ⟨⟨0x3000, List.mem_cons_self, by decide, by decide⟩, ?_⟩
    intro next stepped
    cases stepped
    exact ⟨List.mem_cons_self, fun _ _ => trivial⟩
  obtain ⟨client, finished, -, -, kept, -⟩ := holds _ permitted
  exact ⟨initial, client, booted, pages, finished, pages ▸ kept⟩

/-! ## Exhausted memory -/

/-- A call of the allocator, with any argument. -/
inductive PmmCall where
  | alloc
  | free (addr : Word)
  deriving DecidableEq, Repr

/-- Execute one call; the returned page is not kept. -/
def pmmCall (hhdmoffset : Word) (s : MmState) : PmmCall → Outcome MmState
  | .alloc => do
      let (_, s) ← pmmAlloc hhdmoffset s
      return s
  | .free addr => pmmFree hhdmoffset s addr

/-- Running out of memory does no harm: all calls of the sequence return, an
allocation without free pages returns `NULL` and changes nothing, and an allocation
right after a `pmm_free` succeeds. -/
structure Recoverable (hhdmoffset : Word) (s : MmState) (calls : List PmmCall) : Prop where
  completes : ∃ final, run (pmmCall hhdmoffset) s calls = .done final
  failing : Along (pmmCall hhdmoffset)
    (fun s call => call = .alloc → s.pmmFreePageCount = 0 →
      pmmAlloc hhdmoffset s = .done (0, s)) s calls
  reuse : ∀ before addr after, calls = before ++ .free addr :: .alloc :: after →
    ∀ middle, run (pmmCall hhdmoffset) s before = .done middle →
      ∃ freed next, pmmFree hhdmoffset middle addr = .done freed ∧
        pmmAlloc hhdmoffset freed = .done (addr, next)

/-- Pages are left whenever `pmm_alloc` is called. -/
def PagesLeft (s : MmState) (call : PmmCall) : Prop :=
  call = .alloc → s.pmmFreePageCount ≠ 0

section Exhaustion

variable {hhdmoffset : Word} {s : MmState}

/-- A call that finds the lock free and, if it allocates, a page, returns with the
lock free again. -/
theorem pmmCall_unlocked {call : PmmCall} (unlocked : s.pmmLock = false)
    (left : PagesLeft s call) :
    ∃ next, pmmCall hhdmoffset s call = .done next ∧ next.pmmLock = false := by
  cases call with
  | alloc =>
      refine ⟨popPage hhdmoffset s, ?_, unlocked⟩
      rw [pmmCall, pmmAlloc_eq unlocked (left rfl)]
      rfl
  | free addr => exact ⟨pushPage hhdmoffset s addr, pmmFree_eq unlocked addr, unlocked⟩

theorem Recoverable.tail {call : PmmCall} {calls : List PmmCall} {next : MmState}
    (recoverable : Recoverable hhdmoffset s (call :: calls))
    (stepped : pmmCall hhdmoffset s call = .done next) :
    Recoverable hhdmoffset next calls where
  completes := by
    obtain ⟨final, finished⟩ := recoverable.completes
    rw [run_cons, stepped, Outcome.done_bind] at finished
    exact ⟨final, finished⟩
  failing := recoverable.failing.2 next stepped
  reuse before addr after split middle reached := by
    apply recoverable.reuse (call :: before) addr after (by rw [split]; rfl)
    rw [run_cons, stepped, Outcome.done_bind, reached]

/-- A failing allocation is never harmless: it returns with the lock held. -/
theorem Recoverable.pagesLeft {call : PmmCall} {calls : List PmmCall}
    (unlocked : s.pmmLock = false)
    (recoverable : Recoverable hhdmoffset s (call :: calls)) : PagesLeft s call := by
  intro isAlloc empty
  have harmless := recoverable.failing.1 isAlloc empty
  rw [pmmAlloc_exhausted unlocked empty] at harmless
  have same : ({ s with pmmLock := true } : MmState) = s :=
    congrArg Prod.snd (Outcome.done.inj harmless)
  have held : s.pmmLock = true := by
    rw [← same]
  rw [unlocked] at held
  cases held

theorem along_pagesLeft_of_recoverable {calls : List PmmCall} (unlocked : s.pmmLock = false)
    (recoverable : Recoverable hhdmoffset s calls) :
    Along (pmmCall hhdmoffset) PagesLeft s calls := by
  induction calls generalizing s with
  | nil => trivial
  | cons call calls ih =>
      have left := recoverable.pagesLeft unlocked
      refine ⟨left, ?_⟩
      intro next stepped
      obtain ⟨reached, returned, released⟩ :=
        @pmmCall_unlocked hhdmoffset s call unlocked left
      rw [stepped] at returned
      cases returned
      exact ih released (recoverable.tail stepped)

theorem recoverable_of_along_pagesLeft {calls : List PmmCall} (unlocked : s.pmmLock = false)
    (along : Along (pmmCall hhdmoffset) PagesLeft s calls) :
    Recoverable hhdmoffset s calls where
  completes := by
    obtain ⟨final, finished, -⟩ :=
      run_progress (fun _ _ free left => pmmCall_unlocked free left) unlocked along
    exact ⟨final, finished⟩
  failing := along.imp fun _ _ left isAlloc empty => absurd empty (left isAlloc)
  reuse before addr after split middle reached := by
    subst split
    obtain ⟨_, finished, released⟩ :=
      run_progress (fun _ _ free left => pmmCall_unlocked free left) unlocked along.take
    rw [reached] at finished
    cases finished
    have freed : pmmFree hhdmoffset middle addr = _ := pmmFree_eq released addr
    have available := ((along.drop reached).2 _ freed).1 rfl
    refine ⟨pushPage hhdmoffset middle addr,
      popPage hhdmoffset (pushPage hhdmoffset middle addr), freed, ?_⟩
    rw [pmmAlloc_eq (s := pushPage hhdmoffset middle addr) released available]
    simp only [pushPage, BitVec.add_sub_cancel]

theorem publishPage_unlocked (page : Word) (unlocked : s.pmmLock = false) :
    ∃ next, publishPage hhdmoffset page s = .done next ∧ next.pmmLock = false := by
  refine ⟨{ pushPage hhdmoffset s page with pmmPageCount := s.pmmPageCount + 1 }, ?_, unlocked⟩
  rw [publishPage, pmmFree_eq unlocked]
  rfl

theorem publishEntry_unlocked {current : MmState × Bool} (entry : MemmapEntry)
    (unlocked : current.1.pmmLock = false) :
    ∃ next, publishEntry hhdmoffset current entry = .done next ∧ next.1.pmmLock = false := by
  rcases current with ⟨state, firstEntry⟩
  have publish : ∀ start j, start.pmmLock = false →
      ∃ next, forRange j (entry.length.toNat / blockSize)
        (fun j => publishPage hhdmoffset (entry.base + BitVec.ofNat 64 (j * blockSize)))
        start = .done next ∧ next.pmmLock = false :=
    fun start j free => run_total (fun _ _ reached => publishPage_unlocked _ reached) _ free
  cases usable : entry.type
  case usable =>
    cases firstEntry with
    | true =>
        obtain ⟨next, published, released⟩ :=
          publish { state with freeList := entry.base + hhdmoffset } 1 unlocked
        exact ⟨(next, false), by simp [publishEntry, usable, published], released⟩
    | false =>
        obtain ⟨next, published, released⟩ := publish state 0 unlocked
        exact ⟨(next, false), by simp [publishEntry, usable, published], released⟩
  all_goals exact ⟨(state, firstEntry), by simp [publishEntry, usable], unlocked⟩

/-- `pmm_init` returns with the lock free on every memory map. -/
theorem pmmInit_unlocked (hhdmoffset : Word) (entries : List MemmapEntry) (memory : Memory) :
    ∃ initial, pmmInit hhdmoffset (some entries) (.boot memory) = .done initial ∧
      initial.pmmLock = false := by
  let start : MmState :=
    { MmState.boot memory with memSize := usableSize entries 0 }
  have total : ∃ final, run (publishEntry hhdmoffset) (start, true) entries = .done final ∧
      final.1.pmmLock = false :=
    run_total (fun _ entry free => publishEntry_unlocked entry free) entries rfl
  obtain ⟨⟨initial, flag⟩, finished, released⟩ := total
  refine ⟨initial, ?_, released⟩
  rw [run] at finished
  simp only [pmmInit]
  rw [show (MmState.boot memory).memSize = 0 from rfl, finished]
  rfl

end Exhaustion

/-- After `pmm_init` on any memory map, a sequence of calls survives the exhaustion
of memory exactly when it never exhausts memory: every `pmm_alloc` of the sequence
finds a page. -/
theorem pmm_recoverable_iff_pages_left (entries : List MemmapEntry) (memory : Memory)
    (hhdmoffset : Word) :
    ∃ initial, pmmInit hhdmoffset (some entries) (.boot memory) = .done initial ∧
      ∀ calls, Recoverable hhdmoffset initial calls ↔
        Along (pmmCall hhdmoffset) PagesLeft initial calls := by
  obtain ⟨initial, booted, unlocked⟩ := pmmInit_unlocked hhdmoffset entries memory
  refine ⟨initial, booted, ?_⟩
  intro calls
  exact ⟨along_pagesLeft_of_recoverable unlocked, recoverable_of_along_pagesLeft unlocked⟩

/-- A machine with one usable page: the first `pmm_alloc` fails, and a later
`pmm_free` waits forever for the lock. -/
theorem pmm_exhaustion_keeps_lock :
    ∃ initial, pmmInit 0 (some [⟨0x1000, 0x1000, .usable⟩]) (.boot fun _ => 0) =
        .done initial ∧
      run (pmmCall 0) initial [.alloc, .free 0x1000] = .spinning ∧
      ¬ Recoverable 0 initial [.alloc, .free 0x1000] := by
  refine ⟨_, rfl, rfl, ?_⟩
  intro recoverable
  exact recoverable.pagesLeft rfl rfl rfl

end Lord84
