import Lord84.Mm.PmmInit

/-!
# How much `pmm_init` publishes

All whole pages of the usable entries should come out of `pmm_alloc`, one after the other,
before it has nothing left.  `pmm_init` starts with the second page of the first usable
entry, so one page is missing unless that entry has no whole page at all.
-/

namespace Lord84

open Theory

/-- The whole pages of all usable entries, counted entry by entry. -/
def usablePageCount (entries : List MemmapEntry) : Nat :=
  ((entries.filter fun entry => entry.type = .usable).map
    fun entry => entry.length.toNat / blockSize).sum

/-- The entry at which `pmm_init` clears `first_entry`. -/
def firstUsable (entries : List MemmapEntry) : Option MemmapEntry :=
  entries.find? fun entry => entry.type = .usable

section Publish

variable (hhdmoffset : Word)

/-- Call `pmm_alloc` several times in a row and keep what it returns. -/
def pmmAllocs : Nat → MmState → Outcome (List Word × MmState)
  | 0, s => return ([], s)
  | count + 1, s => do
      let (page, s) ← pmmAlloc hhdmoffset s
      let (pages, s) ← pmmAllocs count s
      return (page :: pages, s)

/-- All usable memory can be allocated: every whole page of a usable entry comes out once,
nothing else does, and the counters say how many there are. -/
structure PublishesAll (entries : List MemmapEntry) (s : MmState) : Prop where
  allocates : ∃ pages last,
    pmmAllocs hhdmoffset (usablePageCount entries) s = .done (pages, last) ∧
      (∀ page ∈ pages, page ≠ 0) ∧ pages.Nodup ∧
      (∀ page, page ∈ pages ↔ PageAligned page ∧ InUsable entries page) ∧
      ∃ exhausted, pmmAlloc hhdmoffset last = .done (0, exhausted)
  pageCount : s.pmmPageCount.toNat = usablePageCount entries
  freePageCount : s.pmmFreePageCount.toNat = usablePageCount entries

end Publish

/-! ## The published pages -/

section Entries

variable {entry : MemmapEntry} {entries : List MemmapEntry}

theorem usablePageCount_cons_usable (usable : entry.type = .usable) :
    usablePageCount (entry :: entries) =
      entry.length.toNat / blockSize + usablePageCount entries := by
  simp [usablePageCount, usable]

theorem usablePageCount_cons_other (other : entry.type ≠ .usable) :
    usablePageCount (entry :: entries) = usablePageCount entries := by
  simp [usablePageCount, other]

theorem publishedPages_cons_usable (usable : entry.type = .usable) (firstEntry : Bool) :
    publishedPages (entry :: entries) firstEntry =
      entryPages entry (if firstEntry then 1 else 0) ++ publishedPages entries false := by
  rw [publishedPages, usable]

theorem publishedPages_cons_other (other : entry.type ≠ .usable) (firstEntry : Bool) :
    publishedPages (entry :: entries) firstEntry = publishedPages entries firstEntry := by
  rw [publishedPages]
  split
  next usable => exact absurd usable other
  next => rfl

@[simp] theorem length_entryPages (entry : MemmapEntry) (j : Nat) :
    (entryPages entry j).length = entry.length.toNat / blockSize - j := by
  simp [entryPages]

/-- Once `first_entry` is cleared, every page is published. -/
theorem length_publishedPages_false (entries : List MemmapEntry) :
    (publishedPages entries false).length = usablePageCount entries := by
  induction entries with
  | nil => rfl
  | cons entry entries ih =>
      by_cases usable : entry.type = .usable
      · rw [publishedPages_cons_usable usable, usablePageCount_cons_usable usable,
          List.length_append, length_entryPages, ih]
        rfl
      · rw [publishedPages_cons_other usable, usablePageCount_cons_other usable, ih]

/-- A first entry without a whole page has nothing to lose. -/
theorem publishedPages_of_short
    (short : ∀ first, firstUsable entries = some first → first.length.toNat < blockSize) :
    publishedPages entries true = publishedPages entries false := by
  induction entries with
  | nil => rfl
  | cons entry entries ih =>
      by_cases usable : entry.type = .usable
      · have none : entry.length.toNat / blockSize = 0 :=
          Nat.div_eq_of_lt (short entry (by simp [firstUsable, usable]))
        rw [publishedPages_cons_usable usable, publishedPages_cons_usable usable]
        simp [entryPages, none]
      · rw [publishedPages_cons_other usable, publishedPages_cons_other usable]
        apply ih
        intro first found
        exact short first (by simpa [firstUsable, usable] using found)

/-- Otherwise one page is missing. -/
theorem length_publishedPages_true {first : MemmapEntry}
    (found : firstUsable entries = some first) (page : blockSize ≤ first.length.toNat) :
    (publishedPages entries true).length + 1 = usablePageCount entries := by
  induction entries with
  | nil => cases found
  | cons entry entries ih =>
      by_cases usable : entry.type = .usable
      · have same : entry = first := by simpa [firstUsable, usable] using found
        have some : 0 < entry.length.toNat / blockSize :=
          Nat.div_pos (same ▸ page) (by decide)
        rw [publishedPages_cons_usable usable, usablePageCount_cons_usable usable,
          List.length_append, length_entryPages, length_publishedPages_false, if_pos rfl]
        omega
      · rw [publishedPages_cons_other usable, usablePageCount_cons_other usable]
        exact ih (by simpa [firstUsable, usable] using found)

/-- A page inside an entry has a number. -/
theorem mem_entryPages_of_inside {page : Word} (baseAligned : PageAligned entry.base)
    (pageAligned : PageAligned page) (above : entry.base.toNat ≤ page.toNat)
    (below : page.toNat + blockSize ≤ entry.base.toNat + entry.length.toNat) :
    page ∈ entryPages entry 0 := by
  have bound := page.isLt
  simp only [PageAligned, blockSize] at baseAligned pageAligned below
  rw [entryPages, List.mem_map]
  refine ⟨(page.toNat - entry.base.toNat) / blockSize, ?_, ?_⟩
  · rw [List.mem_range'_1]
    simp only [blockSize]
    omega
  · apply BitVec.eq_of_toNat_eq
    rw [BitVec.toNat_add, BitVec.toNat_ofNat]
    simp only [blockSize]
    omega

theorem UsableRanges.mem_publishedPages_iff (ranges : UsableRanges entries) {page : Word} :
    page ∈ publishedPages entries false ↔ PageAligned page ∧ InUsable entries page := by
  constructor
  · intro member
    exact (ranges.publishedPages_inUsable member).symm
  · rintro ⟨pageAligned, owner, ownerMem, usable, above, below⟩
    induction entries with
    | nil => exact absurd ownerMem List.not_mem_nil
    | cons entry entries ih =>
        rcases List.mem_cons.mp ownerMem with rfl | later
        · rw [publishedPages_cons_usable usable, List.mem_append]
          exact Or.inl (mem_entryPages_of_inside (ranges.aligned owner ownerMem usable)
            pageAligned above below)
        · have published := ih ranges.tail later
          by_cases first : entry.type = .usable
          · rw [publishedPages_cons_usable first, List.mem_append]
            exact Or.inr published
          · rw [publishedPages_cons_other first]
            exact published

end Entries

/-! ## Taking all pages -/

section Drain

variable {hhdmoffset : Word} {s : MmState}

/-- As many calls of `pmm_alloc` as the list has pages return the list. -/
theorem pmmAllocs_freePages {pages : List Word} (unlocked : s.pmmLock = false)
    (free : freePages hhdmoffset s = pages) :
    ∃ last, pmmAllocs hhdmoffset pages.length s = .done (pages, last) ∧
      last.pmmLock = false ∧ last.pmmFreePageCount = 0 := by
  induction pages generalizing s with
  | nil =>
      have count := congrArg List.length free
      rw [length_freePages] at count
      exact ⟨s, rfl, unlocked, BitVec.eq_of_toNat_eq count⟩
  | cons page pages ih =>
      obtain ⟨available, first, rest⟩ := pop_of_freePages_cons free
      obtain ⟨last, taken, lastUnlocked, empty⟩ :=
        @ih (popPage hhdmoffset s) unlocked rest
      refine ⟨last, ?_, lastUnlocked, empty⟩
      rw [List.length_cons, pmmAllocs, pmmAlloc_eq unlocked available, Outcome.done_bind]
      simp only [taken, first, Outcome.done_bind, Outcome.pure_eq_done]

end Drain

/-- `pmm_init` publishes all usable memory exactly when the first usable entry has no whole
page, and no entry has the page at address 0, which a caller of `pmm_alloc` takes for
`NULL`. -/
theorem pmm_init_publishes_all_iff (hhdmoffset : Word) {entries : List MemmapEntry}
    (ranges : UsableRanges entries) (memory : Memory) :
    ∃ s, pmmInit hhdmoffset (some entries) (.boot memory) = .done s ∧
      (PublishesAll hhdmoffset entries s ↔
        (∀ first, firstUsable entries = some first → first.length.toNat < blockSize) ∧
          ¬ InUsable entries 0) := by
  obtain ⟨s, initialised, wf, free, -, counted⟩ :=
    @pmmInit_of_ranges hhdmoffset entries ranges memory
  have count : s.pmmFreePageCount.toNat = (publishedPages entries true).length := by
    rw [← length_freePages, free, List.length_reverse]
  refine ⟨s, initialised, ?_, ?_⟩
  · intro publishes
    obtain ⟨pages, last, -, proper, -, complete, -⟩ := publishes.allocates
    constructor
    · intro first found
      by_contra long
      have missing := length_publishedPages_true found (Nat.le_of_not_lt long)
      have total := publishes.freePageCount
      omega
    · intro zero
      exact proper 0 ((complete 0).mpr ⟨rfl, zero⟩) rfl
  · rintro ⟨short, noNull⟩
    have all := publishedPages_of_short short
    have total : s.pmmFreePageCount.toNat = usablePageCount entries := by
      rw [count, all, length_publishedPages_false]
    obtain ⟨last, taken, unlocked, empty⟩ := pmmAllocs_freePages wf.unlocked rfl
    rw [length_freePages, total] at taken
    have listed : ∀ page, page ∈ freePages hhdmoffset s ↔
        PageAligned page ∧ InUsable entries page := by
      intro page
      rw [free, all, List.mem_reverse]
      exact ranges.mem_publishedPages_iff
    refine ⟨⟨_, last, taken, ?_, wf.nodup, listed, _, pmmAlloc_exhausted unlocked empty⟩, ?_,
      total⟩
    · rintro page member rfl
      exact noNull ((listed 0).mp member).2
    · rw [counted, total]

/-- An empty entry in front of two pages does no harm. -/
theorem pmm_init_publishes_all_iff_empty_first :
    ∃ s, pmmInit 0 (some [⟨0x100000, 0, .usable⟩, ⟨0x200000, 0x2000, .usable⟩])
        (.boot fun _ => 0) = .done s ∧
      PublishesAll 0 [⟨0x100000, 0, .usable⟩, ⟨0x200000, 0x2000, .usable⟩] s := by
  have ranges : UsableRanges [⟨0x100000, 0, .usable⟩, ⟨0x200000, 0x2000, .usable⟩] :=
    ⟨by simp [PageAligned, blockSize], by simp, by simp; omega⟩
  obtain ⟨s, initialised, publishes⟩ := pmm_init_publishes_all_iff 0 ranges fun _ => 0
  refine ⟨s, initialised, publishes.mpr ⟨?_, ?_⟩⟩
  · rintro first ⟨⟩
    decide
  · simp [InUsable]

/-- Of a single usable entry of two pages, only the second one is published. -/
theorem first_page_not_published :
    ∃ s, pmmInit 0 (some [⟨0x100000, 0x2000, .usable⟩]) (.boot fun _ => 0) = .done s ∧
      s.pmmPageCount = 1 ∧ s.pmmFreePageCount = 1 ∧
      usablePageCount [⟨0x100000, 0x2000, .usable⟩] = 2 ∧
      ¬ PublishesAll 0 [⟨0x100000, 0x2000, .usable⟩] s := by
  have ranges : UsableRanges [⟨0x100000, 0x2000, .usable⟩] :=
    ⟨by simp [PageAligned, blockSize], by simp, by simp⟩
  obtain ⟨s, initialised, -, free, -, counted⟩ :=
    @pmmInit_of_ranges 0 _ ranges fun _ => 0
  have one : s.pmmFreePageCount.toNat = 1 := by
    rw [← @length_freePages 0, free]
    rfl
  have freeCount : s.pmmFreePageCount = 1 := BitVec.eq_of_toNat_eq one
  refine ⟨s, initialised, counted.trans freeCount, freeCount, rfl, ?_⟩
  intro publishes
  have two := publishes.freePageCount
  rw [one] at two
  exact absurd two (by decide)

end Lord84
