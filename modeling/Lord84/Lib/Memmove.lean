import Lord84.Lib.Support
import Lord84.Theory.Copy

/-!
# Copying overlapping ranges

A model of `memmove` of `src/lib/string.c`, which copies upwards or downwards depending on
the order of its pointers, and what it has in common with `memcpy`, which always copies
upwards: no byte is overwritten that is still to be read.
-/

namespace Lord84

open Theory

/-- `memmove`: towards lower addresses `src[i]` is copied to `dest[i]` for increasing `i`,
towards higher ones `src[i - 1]` to `dest[i - 1]` for decreasing `i`. -/
def memmove (memory : Memory) (dest src n : Word) : Memory :=
  if src > dest then
    (List.range n.toNat).foldl
      (fun current i => current.write8 (dest + BitVec.ofNat 64 i)
        (current (src + BitVec.ofNat 64 i))) memory
  else if src < dest then
    (List.range' 1 n.toNat).reverse.foldl
      (fun current i => current.write8 (dest + BitVec.ofNat 64 (i - 1))
        (current (src + BitVec.ofNat 64 (i - 1)))) memory
  else
    memory

/-- The bytes of the range at `dest` are those that were at `src` before, and all others are
unchanged. -/
structure Copied (before after : Memory) (dest src n : Word) : Prop where
  copied : ∀ i < n.toNat, after (dest + BitVec.ofNat 64 i) = before (src + BitVec.ofNat 64 i)
  kept : ∀ address : Word,
    address.toNat < dest.toNat ∨ dest.toNat + n.toNat ≤ address.toNat →
      after address = before address

/-- The ranges have no byte in common. -/
def RangesDisjoint (dest src n : Word) : Prop :=
  src.toNat + n.toNat ≤ dest.toNat ∨ dest.toNat + n.toNat ≤ src.toNat

section Copies

variable {memory : Memory} {dest src n : Word}

theorem write8_eq_update (memory : Memory) (address : Word) (value : Byte) :
    memory.write8 address value = Function.update memory address value := by
  funext target
  rw [Memory.write8, Function.update_apply]

/-- Byte `i` of a range that does not wrap around. -/
theorem toNat_add_offset {start : Word} {count i : Nat} (fits : start.toNat + count ≤ 2 ^ 64)
    (inside : i < count) : (start + BitVec.ofNat 64 i).toNat = start.toNat + i := by
  rw [BitVec.toNat_add, BitVec.toNat_ofNat]
  omega

/-- A copy of the bytes of the range, each once and in a safe order, is right. -/
theorem copied_copyEach {order : List Nat} {offset : Nat → Nat}
    (destFits : dest.toNat + n.toNat ≤ 2 ^ 64)
    (safe : SafeOrder (fun i => src + BitVec.ofNat 64 (offset i))
      (fun i => dest + BitVec.ofNat 64 (offset i)) order)
    (inside : ∀ i ∈ order, offset i < n.toNat) (all : ∀ k < n.toNat, ∃ i ∈ order, offset i = k) :
    Copied memory (copyEach (fun i => src + BitVec.ofNat 64 (offset i))
      (fun i => dest + BitVec.ofNat 64 (offset i)) order memory) dest src n where
  copied k below := by
    obtain ⟨i, member, rfl⟩ := all k below
    exact copyEach_target safe member
  kept address outside := by
    apply copyEach_of_forall_ne
    rintro i member rfl
    have place := toNat_add_offset destFits (inside i member)
    have below := inside i member
    omega

/-- The loop upwards. -/
theorem memcpy_eq_copyEach (memory : Memory) (dest src n : Word) :
    memcpy memory dest src n = copyEach (fun i => src + BitVec.ofNat 64 i)
      (fun i => dest + BitVec.ofNat 64 i) (List.range n.toNat) memory := by
  simp only [memcpy, copyEach, write8_eq_update]

/-- Upwards a byte is read before it is overwritten, if the target is not behind the source or
behind all of it. -/
theorem copied_memcpy (srcFits : src.toNat + n.toNat ≤ 2 ^ 64)
    (destFits : dest.toNat + n.toNat ≤ 2 ^ 64) (apart : RangesDisjoint dest src n ∨ dest ≤ src) :
    Copied memory (memcpy memory dest src n) dest src n := by
  rw [memcpy_eq_copyEach]
  apply @copied_copyEach _ _ _ _ (List.range n.toNat) id destFits
  · refine List.Pairwise.imp_of_mem ?_ List.pairwise_lt_range
    intro i j first later before
    rw [List.mem_range] at first later
    rw [RangesDisjoint, BitVec.le_def] at apart
    simp only [id_eq, ne_eq, ← BitVec.toNat_inj, toNat_add_offset srcFits later,
      toNat_add_offset destFits first, toNat_add_offset destFits later]
    omega
  · exact fun i member => List.mem_range.mp member
  · exact fun k below => ⟨k, List.mem_range.mpr below, rfl⟩

/-- Downwards it is, if the target is behind the source. -/
theorem copied_downwards (srcFits : src.toNat + n.toNat ≤ 2 ^ 64)
    (destFits : dest.toNat + n.toNat ≤ 2 ^ 64) (behind : src < dest) :
    Copied memory ((List.range' 1 n.toNat).reverse.foldl
      (fun current i => current.write8 (dest + BitVec.ofNat 64 (i - 1))
        (current (src + BitVec.ofNat 64 (i - 1)))) memory) dest src n := by
  simp only [write8_eq_update]
  have listed : ∀ i ∈ (List.range' 1 n.toNat).reverse, 1 ≤ i ∧ i - 1 < n.toNat := by
    intro i member
    rw [List.mem_reverse, List.mem_range'_1] at member
    omega
  apply @copied_copyEach _ _ _ _ (List.range' 1 n.toNat).reverse (· - 1) destFits
  · refine List.Pairwise.imp_of_mem ?_ (List.pairwise_reverse.mpr List.pairwise_lt_range')
    intro i j first later before
    obtain ⟨_, first⟩ := listed i first
    obtain ⟨_, later⟩ := listed j later
    rw [BitVec.lt_def] at behind
    simp only [ne_eq, ← BitVec.toNat_inj, toNat_add_offset srcFits later,
      toNat_add_offset destFits first, toNat_add_offset destFits later]
    omega
  · exact fun i member => (listed i member).2
  · intro k below
    refine ⟨k + 1, ?_, rfl⟩
    rw [List.mem_reverse, List.mem_range'_1]
    omega

/-- `memmove` chooses the direction in which this holds. -/
theorem copied_memmove (srcFits : src.toNat + n.toNat ≤ 2 ^ 64)
    (destFits : dest.toNat + n.toNat ≤ 2 ^ 64) :
    Copied memory (memmove memory dest src n) dest src n := by
  rw [memmove]
  split
  next before => exact copied_memcpy srcFits destFits (Or.inr (BitVec.le_of_lt before))
  next notBefore =>
    split
    next behind => exact copied_downwards srcFits destFits behind
    next notBehind =>
      have same : src = dest := BitVec.le_antisymm (BitVec.not_lt.mp notBefore)
        (BitVec.not_lt.mp notBehind)
      rw [same]
      exact ⟨fun _ _ => rfl, fun _ _ => rfl⟩

end Copies

/-- `memmove` copies any range to any other, and `memcpy` does if the ranges are disjoint or the
target does not begin behind the source. -/
theorem memmove_copies {memory : Memory} {dest src n : Word}
    (srcFits : src.toNat + n.toNat ≤ 2 ^ 64) (destFits : dest.toNat + n.toNat ≤ 2 ^ 64) :
    Copied memory (memmove memory dest src n) dest src n ∧
      (RangesDisjoint dest src n ∨ dest ≤ src →
        Copied memory (memcpy memory dest src n) dest src n) :=
  ⟨copied_memmove srcFits destFits, copied_memcpy srcFits destFits⟩

/-- Eight bytes are moved up by one, over seven of their own, and down again. -/
theorem memmove_copies_overlap :
    Copied (fun address => address.setWidth 8)
      (memmove (fun address => address.setWidth 8) 0x1001 0x1000 8) 0x1001 0x1000 8 ∧
    Copied (fun address => address.setWidth 8)
      (memcpy (fun address => address.setWidth 8) 0x1000 0x1001 8) 0x1000 0x1001 8 :=
  ⟨(memmove_copies (by decide) (by decide)).1,
    (memmove_copies (by decide) (by decide)).2 (Or.inr (by decide))⟩

end Lord84
