import Lord84.Mm.Pmm
import Mathlib.Data.List.Perm.Subperm

/-!
# What `pmm_init` publishes

`pmm_init` walks the memory map and frees every page of every usable entry, except
for the very first page, which only becomes the bottom of the list.  On a memory
map as Limine delivers it, the free list afterwards consists of distinct whole
pages of usable entries.
-/

namespace Lord84

open Theory

/-- The address is the start of a page. -/
def PageAligned (address : Word) : Prop :=
  address.toNat % blockSize = 0

instance (address : Word) : Decidable (PageAligned address) :=
  inferInstanceAs (Decidable (_ = _))

theorem PageAligned.mod_eight {address : Word} (aligned : PageAligned address) :
    address.toNat % 8 = 0 := by
  simp only [PageAligned, blockSize] at aligned
  omega

/-- The physical address lies in the page. -/
def InPage (page address : Word) : Prop :=
  page.toNat ≤ address.toNat ∧ address.toNat < page.toNat + blockSize

/-- An address lies in one page only. -/
theorem InPage.unique {left right address : Word} (inLeft : InPage left address)
    (leftAligned : PageAligned left) (rightAligned : PageAligned right)
    (inRight : InPage right address) : left = right := by
  apply BitVec.eq_of_toNat_eq
  simp only [InPage, PageAligned, blockSize] at *
  omega

theorem PageAligned.inPage {page : Word} (aligned : PageAligned page) {offset : Nat}
    (small : offset < blockSize) : InPage page (page + BitVec.ofNat 64 offset) := by
  have bound := page.isLt
  simp only [InPage, PageAligned, blockSize, BitVec.toNat_add, BitVec.toNat_ofNat] at *
  omega

/-- Distinct pages are fewer than the counters can count. -/
theorem length_le_of_pageAligned {pages : List Word} (nodup : pages.Nodup)
    (aligned : ∀ page ∈ pages, PageAligned page) : pages.length ≤ 2 ^ 52 := by
  have injective : ∀ left ∈ pages, ∀ right ∈ pages,
      left.toNat / blockSize = right.toNat / blockSize → left = right := by
    intro left leftMem right rightMem equal
    have leftAligned := aligned left leftMem
    have rightAligned := aligned right rightMem
    simp only [PageAligned, blockSize] at leftAligned rightAligned equal
    apply BitVec.eq_of_toNat_eq
    omega
  have numbers : (pages.map fun page => page.toNat / blockSize).Nodup :=
    List.Nodup.map_on injective nodup
  have small : (pages.map fun page => page.toNat / blockSize) ⊆ List.range (2 ^ 52) := by
    intro number member
    obtain ⟨page, -, rfl⟩ := List.mem_map.mp member
    have bound := page.isLt
    rw [List.mem_range]
    simp only [blockSize]
    omega
  have bound := (List.subperm_of_subset numbers small).length_le
  rwa [List.length_map, List.length_range] at bound

/-- A memory map as Limine guarantees it: the usable entries are page-aligned
ranges of physical memory and do not overlap each other. -/
structure LimineMemmap where
  entries : List MemmapEntry
  usable_aligned : ∀ entry ∈ entries, entry.type = .usable →
    entry.base.toNat % blockSize = 0 ∧ entry.length.toNat % blockSize = 0
  usable_bounded : ∀ entry ∈ entries, entry.type = .usable →
    entry.base.toNat + entry.length.toNat ≤ 2 ^ 64
  usable_disjoint : entries.Pairwise fun left right =>
    left.type = .usable → right.type = .usable →
      left.base.toNat + left.length.toNat ≤ right.base.toNat ∨
        right.base.toNat + right.length.toNat ≤ left.base.toNat

/-- The page lies inside one usable entry. -/
def InUsable (entries : List MemmapEntry) (page : Word) : Prop :=
  ∃ entry ∈ entries, entry.type = .usable ∧ entry.base.toNat ≤ page.toNat ∧
    page.toNat + blockSize ≤ entry.base.toNat + entry.length.toNat

/-! ## The published pages -/

/-- Pages of one entry, from page number `j` on. -/
def entryPages (entry : MemmapEntry) (j : Nat) : List Word :=
  (List.range' j (entry.length.toNat / blockSize - j)).map
    fun j => entry.base + BitVec.ofNat 64 (j * blockSize)

/-- The pages that the second loop of `pmm_init` passes to `pmm_free`, in order. -/
def publishedPages : List MemmapEntry → Bool → List Word
  | [], _ => []
  | entry :: entries, firstEntry =>
      match entry.type with
      | .usable =>
          entryPages entry (if firstEntry then 1 else 0) ++ publishedPages entries false
      | _ => publishedPages entries firstEntry

/-- A published page of an entry is a whole page inside that entry. -/
theorem mem_entryPages {entry : MemmapEntry} {j : Nat} {page : Word}
    (bounded : entry.base.toNat + entry.length.toNat ≤ 2 ^ 64)
    (member : page ∈ entryPages entry j) :
    ∃ number, j ≤ number ∧ (number + 1) * blockSize ≤ entry.length.toNat ∧
      page.toNat = entry.base.toNat + number * blockSize := by
  simp only [entryPages, List.mem_map, List.mem_range'_1] at member
  obtain ⟨number, ⟨least, most⟩, rfl⟩ := member
  refine ⟨number, least, ?_, ?_⟩
  · simp only [blockSize] at most ⊢
    omega
  · simp only [blockSize] at most ⊢
    rw [BitVec.toNat_add, BitVec.toNat_ofNat]
    omega

theorem nodup_entryPages {entry : MemmapEntry} {j : Nat}
    (bounded : entry.base.toNat + entry.length.toNat ≤ 2 ^ 64) :
    (entryPages entry j).Nodup := by
  apply List.Nodup.map_on _ List.nodup_range'
  intro left leftMem right rightMem equal
  simp only [List.mem_range'_1, blockSize] at leftMem rightMem
  have equalNat := congrArg BitVec.toNat equal
  simp only [BitVec.toNat_add, BitVec.toNat_ofNat, blockSize] at equalNat
  omega

theorem mem_publishedPages {entries : List MemmapEntry} {firstEntry : Bool} {page : Word}
    (member : page ∈ publishedPages entries firstEntry) :
    ∃ entry ∈ entries, entry.type = .usable ∧ ∃ j, page ∈ entryPages entry j := by
  induction entries generalizing firstEntry with
  | nil => simp [publishedPages] at member
  | cons entry entries ih =>
      rw [publishedPages] at member
      split at member
      next usable =>
        rcases List.mem_append.mp member with here | later
        · exact ⟨entry, by simp, usable, _, here⟩
        · obtain ⟨other, otherMem, found⟩ := ih later
          exact ⟨other, by simp [otherMem], found⟩
      next =>
        obtain ⟨other, otherMem, found⟩ := ih member
        exact ⟨other, by simp [otherMem], found⟩

/-- What the allocator needs of a memory map: usable entries start at pages, end inside the
address space and have no address in common. -/
structure UsableRanges (entries : List MemmapEntry) : Prop where
  aligned : ∀ entry ∈ entries, entry.type = .usable → PageAligned entry.base
  bounded : ∀ entry ∈ entries, entry.type = .usable →
    entry.base.toNat + entry.length.toNat ≤ 2 ^ 64
  disjoint : entries.Pairwise fun left right =>
    left.type = .usable → right.type = .usable → ∀ address : Nat,
      ¬ ((left.base.toNat ≤ address ∧ address < left.base.toNat + left.length.toNat) ∧
        right.base.toNat ≤ address ∧ address < right.base.toNat + right.length.toNat)

namespace UsableRanges

variable {entries : List MemmapEntry}

theorem publishedPages_inUsable (ranges : UsableRanges entries) {firstEntry : Bool} {page : Word}
    (member : page ∈ publishedPages entries firstEntry) :
    InUsable entries page ∧ PageAligned page := by
  obtain ⟨entry, entryMem, usable, j, listed⟩ := mem_publishedPages member
  obtain ⟨number, -, most, address⟩ :=
    mem_entryPages (ranges.bounded entry entryMem usable) listed
  have aligned := ranges.aligned entry entryMem usable
  constructor
  · refine ⟨entry, entryMem, usable, ?_, ?_⟩
    · omega
    · simp only [blockSize] at *
      omega
  · simp only [PageAligned, blockSize] at *
    omega

theorem tail {entry : MemmapEntry} (ranges : UsableRanges (entry :: entries)) :
    UsableRanges entries where
  aligned other member := ranges.aligned other (by simp [member])
  bounded other member := ranges.bounded other (by simp [member])
  disjoint := (List.pairwise_cons.mp ranges.disjoint).2

/-- No page is published twice. -/
theorem nodup_publishedPages (ranges : UsableRanges entries) (firstEntry : Bool) :
    (publishedPages entries firstEntry).Nodup := by
  induction entries generalizing firstEntry with
  | nil => simp [publishedPages]
  | cons entry entries ih =>
      have apart := (List.pairwise_cons.mp ranges.disjoint).1
      rw [publishedPages]
      split
      next usable =>
        have entryBounded := ranges.bounded entry (by simp) usable
        refine List.nodup_append.mpr ⟨nodup_entryPages entryBounded, ih ranges.tail false, ?_⟩
        intro page here other later equal
        subst other
        obtain ⟨second, secondMem, secondUsable, j, listed⟩ := mem_publishedPages later
        obtain ⟨number, -, most, address⟩ := mem_entryPages entryBounded here
        obtain ⟨secondNumber, -, secondMost, secondAddress⟩ :=
          mem_entryPages (ranges.tail.bounded second secondMem secondUsable) listed
        apply apart second secondMem usable secondUsable page.toNat
        simp only [blockSize] at most secondMost address secondAddress
        omega
      next => exact ih ranges.tail firstEntry

end UsableRanges

namespace LimineMemmap

variable (map : LimineMemmap)

theorem usableRanges : UsableRanges map.entries where
  aligned entry member usable := (map.usable_aligned entry member usable).1
  bounded := map.usable_bounded
  disjoint := map.usable_disjoint.imp fun {left right} apart leftUsable rightUsable address both =>
    (apart leftUsable rightUsable).elim (by omega) (by omega)

theorem publishedPages_inUsable {firstEntry : Bool} {page : Word}
    (member : page ∈ publishedPages map.entries firstEntry) :
    InUsable map.entries page ∧ PageAligned page :=
  map.usableRanges.publishedPages_inUsable member

end LimineMemmap

/-! ## The free list after `pmm_init` -/

section Init

variable {hhdmoffset : Word} {s : MmState}

/-- What the allocator promises about its own state: the lock is free and the list
consists of distinct pages. -/
structure PmmWF (hhdmoffset : Word) (s : MmState) : Prop where
  unlocked : s.pmmLock = false
  nodup : (freePages hhdmoffset s).Nodup
  aligned : ∀ page ∈ freePages hhdmoffset s, PageAligned page

theorem PmmWF.count_lt (wf : PmmWF hhdmoffset s) : s.pmmFreePageCount.toNat ≤ 2 ^ 52 := by
  have bound := length_le_of_pageAligned wf.nodup wf.aligned
  rwa [length_freePages] at bound

/-- Freeing a page that is not on the list. -/
theorem PmmWF.freePages_pushPage (wf : PmmWF hhdmoffset s) {page : Word}
    (pageAligned : PageAligned page) (fresh : page ∉ freePages hhdmoffset s) :
    freePages hhdmoffset (pushPage hhdmoffset s page) = page :: freePages hhdmoffset s := by
  have bound := wf.count_lt
  exact Lord84.freePages_pushPage (by omega) pageAligned.mod_eight
    (fun other member => (wf.aligned other member).mod_eight) fresh

theorem PmmWF.pushPage (wf : PmmWF hhdmoffset s) {page : Word}
    (pageAligned : PageAligned page) (fresh : page ∉ freePages hhdmoffset s) :
    PmmWF hhdmoffset (pushPage hhdmoffset s page) where
  unlocked := wf.unlocked
  nodup := by
    rw [wf.freePages_pushPage pageAligned fresh]
    exact List.nodup_cons.mpr ⟨fresh, wf.nodup⟩
  aligned := by
    rw [wf.freePages_pushPage pageAligned fresh]
    intro other member
    rcases List.mem_cons.mp member with rfl | old
    · exact pageAligned
    · exact wf.aligned other old

theorem PmmWF.popPage (wf : PmmWF hhdmoffset s) (available : s.pmmFreePageCount ≠ 0) :
    PmmWF hhdmoffset (popPage hhdmoffset s) where
  unlocked := wf.unlocked
  nodup := by
    have nodup := wf.nodup
    rw [freePages_popPage available] at nodup
    exact (List.nodup_cons.mp nodup).2
  aligned := by
    intro page member
    apply wf.aligned
    rw [freePages_popPage available]
    exact List.mem_cons_of_mem _ member

/-- The pages that the two counters of the allocator say are in use. -/
def usedPages (s : MmState) : Word :=
  s.pmmPageCount - s.pmmFreePageCount

/-- Publishing a list of new pages puts them on the list, the last one in front. -/
theorem forEach_publishPage {pages : List Word} (wf : PmmWF hhdmoffset s)
    (nodup : pages.Nodup) (fresh : ∀ page ∈ pages, page ∉ freePages hhdmoffset s)
    (aligned : ∀ page ∈ pages, PageAligned page) :
    ∃ next, forEach pages (publishPage hhdmoffset) s = .done next ∧ PmmWF hhdmoffset next ∧
      freePages hhdmoffset next = pages.reverse ++ freePages hhdmoffset s ∧
      next.pageTableLock = s.pageTableLock ∧ usedPages next = usedPages s := by
  induction pages generalizing s with
  | nil => exact ⟨s, rfl, wf, rfl, rfl, rfl⟩
  | cons page pages ih =>
      obtain ⟨notLater, restNodup⟩ := List.nodup_cons.mp nodup
      have pageFresh := fresh page (by simp)
      have pageAligned := aligned page (by simp)
      let pushed : MmState :=
        { pushPage hhdmoffset s page with pmmPageCount := s.pmmPageCount + 1 }
      have published : publishPage hhdmoffset page s = .done pushed := by
        rw [publishPage, pmmFree_eq wf.unlocked]
        rfl
      have listed : freePages hhdmoffset pushed = page :: freePages hhdmoffset s :=
        wf.freePages_pushPage pageAligned pageFresh
      have pushedWF := wf.pushPage pageAligned pageFresh
      have keep : PmmWF hhdmoffset pushed :=
        ⟨pushedWF.unlocked, pushedWF.nodup, pushedWF.aligned⟩
      have counted : usedPages pushed = usedPages s := by
        simp only [usedPages, pushed, pushPage]
        bv_omega
      obtain ⟨next, finished, nextWF, nextPages, sameLock, sameUsed⟩ := ih keep restNodup
        (by
          intro other member
          rw [listed, List.mem_cons]
          rintro (rfl | old)
          · exact notLater member
          · exact fresh other (by simp [member]) old)
        (fun other member => aligned other (by simp [member]))
      refine ⟨next, ?_, nextWF, ?_, sameLock, sameUsed.trans counted⟩
      · rw [forEach_cons, published, Outcome.done_bind, finished]
      · rw [nextPages, listed]
        simp

/-- One usable entry of the second loop of `pmm_init`. -/
theorem publishEntry_usable {entry : MemmapEntry} {firstEntry : Bool}
    (usable : entry.type = .usable) (wf : PmmWF hhdmoffset s)
    (empty : firstEntry = true → s.pmmFreePageCount = 0)
    (nodup : (entryPages entry (if firstEntry then 1 else 0)).Nodup)
    (fresh : ∀ page ∈ entryPages entry (if firstEntry then 1 else 0),
      page ∉ freePages hhdmoffset s)
    (aligned : ∀ page ∈ entryPages entry (if firstEntry then 1 else 0), PageAligned page) :
    ∃ next, publishEntry hhdmoffset (s, firstEntry) entry = .done (next, false) ∧
      PmmWF hhdmoffset next ∧
      freePages hhdmoffset next =
        (entryPages entry (if firstEntry then 1 else 0)).reverse ++ freePages hhdmoffset s ∧
      next.pageTableLock = s.pageTableLock ∧ usedPages next = usedPages s := by
  -- Setting the bottom of an empty list does not put a page on it.
  let start : MmState :=
    if firstEntry then { s with freeList := entry.base + hhdmoffset } else s
  have startPages : freePages hhdmoffset start = freePages hhdmoffset s := by
    cases firstEntry with
    | false => rfl
    | true => simp [start, freePages, empty rfl]
  have startWF : PmmWF hhdmoffset start := by
    refine ⟨?_, startPages ▸ wf.nodup, startPages ▸ wf.aligned⟩
    have unlocked := wf.unlocked
    cases firstEntry <;> exact unlocked
  have startLock : start.pageTableLock = s.pageTableLock := by
    cases firstEntry <;> rfl
  have startUsed : usedPages start = usedPages s := by
    cases firstEntry <;> rfl
  obtain ⟨next, published, nextWF, nextPages, nextLock, nextUsed⟩ :=
    forEach_publishPage startWF nodup (fun page member => startPages ▸ fresh page member) aligned
  refine ⟨next, ?_, nextWF, startPages ▸ nextPages, nextLock.trans startLock,
    nextUsed.trans startUsed⟩
  rw [entryPages, forEach_map, ← forRange_eq_forEach] at published
  cases firstEntry <;>
    simpa [publishEntry, usable, start, Outcome.bind_eq_done] using published

/-- The second loop of `pmm_init`, started with an empty list or after its first
usable entry. -/
theorem foldlM_publishEntry {entries : List MemmapEntry} {firstEntry : Bool}
    (wf : PmmWF hhdmoffset s) (empty : firstEntry = true → s.pmmFreePageCount = 0)
    (nodup : (publishedPages entries firstEntry).Nodup)
    (fresh : ∀ page ∈ publishedPages entries firstEntry, page ∉ freePages hhdmoffset s)
    (aligned : ∀ page ∈ publishedPages entries firstEntry, PageAligned page) :
    ∃ next flag,
      entries.foldlM (publishEntry hhdmoffset) (s, firstEntry) = .done (next, flag) ∧
      PmmWF hhdmoffset next ∧
      freePages hhdmoffset next =
        (publishedPages entries firstEntry).reverse ++ freePages hhdmoffset s ∧
      next.pageTableLock = s.pageTableLock ∧ usedPages next = usedPages s := by
  induction entries generalizing s firstEntry with
  | nil => exact ⟨s, firstEntry, rfl, wf, rfl, rfl, rfl⟩
  | cons entry entries ih =>
      rw [List.foldlM_cons]
      cases usable : entry.type
      case usable =>
        simp only [publishedPages, usable] at nodup fresh aligned ⊢
        obtain ⟨hereNodup, laterNodup, apart⟩ := List.nodup_append.mp nodup
        obtain ⟨middle, step, middleWF, middlePages, middleLock, middleUsed⟩ :=
          publishEntry_usable usable wf empty hereNodup
            (fun page member => fresh page (by simp [member]))
            (fun page member => aligned page (by simp [member]))
        obtain ⟨next, flag, finished, nextWF, nextPages, nextLock, nextUsed⟩ :=
          @ih middle false middleWF (by simp) laterNodup
            (by
              intro page member
              rw [middlePages, List.mem_append, List.mem_reverse]
              rintro (here | old)
              · exact apart page here page member rfl
              · exact fresh page (by simp [member]) old)
            (fun page member => aligned page (by simp [member]))
        refine ⟨next, flag, ?_, nextWF, ?_, nextLock.trans middleLock,
          nextUsed.trans middleUsed⟩
        · rw [step, Outcome.done_bind, finished]
        · rw [nextPages, middlePages]
          simp
      all_goals
        have step : publishEntry hhdmoffset (s, firstEntry) entry = .done (s, firstEntry) := by
          simp [publishEntry, usable]
        simp only [publishedPages, usable] at nodup fresh aligned ⊢
        rw [step, Outcome.done_bind]
        exact ih wf empty nodup fresh aligned

/-- `pmm_init` always returns, and the free list then holds the published pages, each of
them counted. -/
theorem pmmInit_of_ranges {entries : List MemmapEntry} (ranges : UsableRanges entries)
    (memory : Memory) :
    ∃ s, pmmInit hhdmoffset (some entries) (.boot memory) = .done s ∧ PmmWF hhdmoffset s ∧
      freePages hhdmoffset s = (publishedPages entries true).reverse ∧
      s.pageTableLock = false ∧ s.pmmPageCount = s.pmmFreePageCount := by
  let start : MmState :=
    { MmState.boot memory with memSize := usableSize entries 0 }
  have empty : freePages hhdmoffset start = [] := rfl
  obtain ⟨s, flag, finished, wf, pages, lock, used⟩ :=
    @foldlM_publishEntry hhdmoffset start entries true
      ⟨rfl, by rw [empty]; exact List.nodup_nil, by rw [empty]; simp⟩ (fun _ => rfl)
      (ranges.nodup_publishedPages true) (by rw [empty]; simp)
      (fun page member => (ranges.publishedPages_inUsable member).2)
  refine ⟨s, ?_, wf, ?_, lock, ?_⟩
  · simp only [pmmInit]
    rw [show (MmState.boot memory).memSize = 0 from rfl, finished]
    rfl
  · rw [pages, empty, List.append_nil]
  · simp only [usedPages, start, MmState.boot] at used
    bv_omega

theorem pmmInit_spec (map : LimineMemmap) (memory : Memory) :
    ∃ s, pmmInit hhdmoffset (some map.entries) (.boot memory) = .done s ∧
      PmmWF hhdmoffset s ∧
      freePages hhdmoffset s = (publishedPages map.entries true).reverse ∧
      s.pageTableLock = false := by
  obtain ⟨s, initialised, wf, pages, lock, -⟩ :=
    @pmmInit_of_ranges hhdmoffset map.entries map.usableRanges memory
  exact ⟨s, initialised, wf, pages, lock⟩

end Init

end Lord84
