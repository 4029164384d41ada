import Lord84.Theory.Outcome
import Lord84.Theory.Memory

/-!
# Spinlocks and memory routines

`src/lib/spinlock.c` and the byte loops of `src/lib/string.c` that the memory
managers rely on.  A lock is its flag.  The model follows one CPU: when the flag is
already set nobody is left to clear it, so `acquire_lock` never returns.
-/

namespace Lord84

open Theory

/-- `acquire_lock`: test-and-set the flag until it was clear. -/
def acquireLock (lock : Bool) : Outcome Bool :=
  if lock then .spinning else .done true

/-- `free_lock`: clear the flag. -/
def freeLock (_lock : Bool) : Bool :=
  false

@[simp] theorem acquireLock_false : acquireLock false = .done true := rfl

@[simp] theorem acquireLock_true : acquireLock true = .spinning := rfl

@[simp] theorem freeLock_eq (lock : Bool) : freeLock lock = false := rfl

/-- `memset`: store the low byte of `c` at `dest[0]`, ..., `dest[n - 1]`. -/
def memset (memory : Memory) (dest : Word) (c : BitVec 32) (n : Word) : Memory :=
  (List.range n.toNat).foldl
    (fun current i => current.write8 (dest + BitVec.ofNat 64 i) (c.setWidth 8)) memory

/-- `memcpy`: copy `src[i]` to `dest[i]` for increasing `i`. -/
def memcpy (memory : Memory) (dest src n : Word) : Memory :=
  (List.range n.toNat).foldl
    (fun current i => current.write8 (dest + BitVec.ofNat 64 i)
      (current (src + BitVec.ofNat 64 i))) memory

/-- `memcmp`: the sign of the first difference among `n` bytes. -/
def memcmp (memory : Memory) (s1 s2 n : Word) : Int :=
  match (List.range n.toNat).find? fun i =>
      memory (s1 + BitVec.ofNat 64 i) ≠ memory (s2 + BitVec.ofNat 64 i) with
  | some i =>
      if memory (s1 + BitVec.ofNat 64 i) < memory (s2 + BitVec.ofNat 64 i) then -1 else 1
  | none => 0

/-- `memcmp` returns zero on equal bytes only. -/
theorem memcmp_eq_zero_iff (memory : Memory) (s1 s2 n : Word) :
    memcmp memory s1 s2 n = 0 ↔ ∀ i < n.toNat,
      memory (s1 + BitVec.ofNat 64 i) = memory (s2 + BitVec.ofNat 64 i) := by
  rw [memcmp]
  split
  next i found =>
    have difference := List.find?_some found
    have inside := List.mem_range.mp (List.mem_of_find?_eq_some found)
    apply iff_of_false
    · split <;> decide
    · intro equal
      exact of_decide_eq_true difference (equal i inside)
  next missing =>
    apply iff_of_true rfl
    intro i inside
    by_contra different
    exact List.find?_eq_none.mp missing i (List.mem_range.mpr inside) (decide_eq_true different)

/-- The byte loop of `memset` sets exactly the bytes of its range. -/
theorem memset_eq_fill (memory : Memory) (dest : Word) (c : BitVec 32) (n : Word) :
    memset memory dest c n = memory.fill dest (c.setWidth 8) n.toNat := by
  have partialFill : ∀ count ≤ n.toNat,
      (List.range count).foldl
        (fun current i => current.write8 (dest + BitVec.ofNat 64 i) (c.setWidth 8)) memory =
      memory.fill dest (c.setWidth 8) count := by
    intro count bound
    induction count with
    | zero =>
        funext target
        simp
    | succ count ih =>
        rw [List.range_succ, List.foldl_append, ih (by omega)]
        exact Memory.fill_succ memory dest _ (by have := n.isLt; omega)
  exact partialFill n.toNat (Nat.le_refl _)

end Lord84
