import Mathlib.Data.List.Iterate
import Mathlib.Data.List.Perm.Basic
import Mathlib.Data.List.Nodup

/-!
# Free lists

A free list that is threaded through the free cells themselves is known only by
its head, a link function and a count: `List.iterate link head count` is the list
of cells met by following the links that many times.  The link of the last cell
is never followed, so it may be anything.

`Pool` is what such a list is for.  It splits a fixed collection of resources into
the free and the taken ones, each resource standing on exactly one side, once.
-/

namespace Lord84.Theory

universe u

section Links

variable {α : Type u} {link changed : α → α} {head : α} {count : Nat}

/-- Only the links of the visited cells matter. -/
theorem iterate_congr
    (agree : ∀ cell ∈ List.iterate link head count, changed cell = link cell) :
    List.iterate changed head count = List.iterate link head count := by
  induction count generalizing head with
  | zero => rfl
  | succ count ih =>
      have first : changed head = link head := agree head (by simp [List.iterate])
      simp only [List.iterate, first, List.cons.injEq, true_and]
      apply ih
      intro cell visited
      exact agree cell (by simp [List.iterate, visited])

/-- Pushing a cell: it becomes the head, and its link is the old head. -/
theorem iterate_push {cell : α} (linked : changed cell = head)
    (agree : ∀ other ∈ List.iterate link head count, changed other = link other) :
    List.iterate changed cell (count + 1) = cell :: List.iterate link head count := by
  rw [List.iterate, linked, iterate_congr agree]

/-- Pushing a cell that may be on the list already.  Then the links run in a circle, but
they still meet no other cells. -/
theorem mem_iterate_push {cell other : α} (linked : count ≠ 0 → changed cell = head)
    (agree : ∀ other ∈ List.iterate link head count, other ≠ cell → changed other = link other)
    (visited : other ∈ List.iterate changed cell (count + 1)) :
    other = cell ∨ other ∈ List.iterate link head count := by
  -- From a cell of the list, the new links lead on along the list or back to its head.
  have onward : ∀ steps start, start + steps ≤ count →
      ∀ other ∈ List.iterate changed (link^[start] head) steps,
        other ∈ List.iterate link head count := by
    intro steps
    induction steps with
    | zero =>
        intro start _ other visited
        cases visited
    | succ steps ih =>
        intro start bound other visited
        have listed : link^[start] head ∈ List.iterate link head count :=
          List.mem_iterate.mpr ⟨start, by omega, rfl⟩
        rcases List.mem_cons.mp visited with rfl | later
        · exact listed
        · by_cases pushed : link^[start] head = cell
          · rw [pushed, linked (by omega)] at later
            exact ih 0 (by omega) other later
          · rw [agree _ listed pushed, ← Function.iterate_succ_apply' link start head] at later
            exact ih (start + 1) (by omega) other later
  rcases List.mem_cons.mp visited with rfl | later
  · exact Or.inl rfl
  · by_cases empty : count = 0
    · subst empty
      cases later
    · rw [linked empty] at later
      exact Or.inr (onward count 0 (by omega) other later)

/-- A cell that is linked to itself is the only one the links meet. -/
theorem eq_of_mem_iterate_fixed {cell other : α} (fixed : link cell = cell)
    (visited : other ∈ List.iterate link cell count) : other = cell := by
  obtain ⟨steps, -, rfl⟩ := List.mem_iterate.mp visited
  exact Function.iterate_fixed fixed steps

end Links

/-- A fixed collection of resources, split into free and taken ones. -/
structure Pool (α : Type u) where
  free : List α
  taken : List α
  nodup : (free ++ taken).Nodup

namespace Pool

variable {α : Type u}

/-- All resources of the pool. -/
def items (pool : Pool α) : List α :=
  pool.free ++ pool.taken

/-- Take the first free resource. -/
def take (pool : Pool α) {item : α} {rest : List α} (first : pool.free = item :: rest) :
    Pool α where
  free := rest
  taken := item :: pool.taken
  nodup := by
    have nodup := pool.nodup
    rw [first] at nodup
    exact (List.perm_middle.nodup_iff).mpr nodup

/-- Give a taken resource back; it becomes the first free one. -/
def give [DecidableEq α] (pool : Pool α) {item : α} (held : item ∈ pool.taken) : Pool α where
  free := item :: pool.free
  taken := pool.taken.erase item
  nodup := by
    have moved : (pool.free ++ pool.taken).Perm (item :: pool.free ++ pool.taken.erase item) :=
      ((List.perm_cons_erase held).append_left pool.free).trans List.perm_middle
    exact moved.nodup_iff.mp pool.nodup

theorem take_items (pool : Pool α) {item : α} {rest : List α}
    (first : pool.free = item :: rest) : (pool.take first).items.Perm pool.items := by
  simp only [items, take, first]
  exact List.perm_middle

theorem give_items [DecidableEq α] (pool : Pool α) {item : α} (held : item ∈ pool.taken) :
    (pool.give held).items.Perm pool.items := by
  simp only [items, give]
  exact (((List.perm_cons_erase held).append_left pool.free).trans List.perm_middle).symm

theorem free_nodup (pool : Pool α) : pool.free.Nodup :=
  (List.nodup_append.mp pool.nodup).1

theorem taken_nodup (pool : Pool α) : pool.taken.Nodup :=
  (List.nodup_append.mp pool.nodup).2.1

/-- A free resource is not taken. -/
theorem not_taken_of_free (pool : Pool α) {item : α} (unused : item ∈ pool.free) :
    item ∉ pool.taken := by
  intro held
  exact (List.nodup_append.mp pool.nodup).2.2 item unused item held rfl

end Pool

end Lord84.Theory
