import Mathlib.Logic.Function.Basic
import Mathlib.Data.List.Basic

/-!
# Copying in place

A loop that copies within one memory, place by place, reads what its earlier iterations have
written.  It copies the original content if no target is a source or a target of a later
iteration, in whatever order the iterations come.
-/

namespace Lord84.Theory

universe u v w

variable {ι : Type u} {α : Type v} {β : Type w} [DecidableEq α]

/-- Copy the content of `source i` to `target i`, for one index after the other. -/
def copyEach (source target : ι → α) (order : List ι) (memory : α → β) : α → β :=
  order.foldl (fun current i => Function.update current (target i) (current (source i))) memory

/-- No target is a source or a target of a later index. -/
def SafeOrder (source target : ι → α) (order : List ι) : Prop :=
  order.Pairwise fun i j => target i ≠ source j ∧ target i ≠ target j

variable {source target : ι → α} {order : List ι} {memory : α → β}

theorem copyEach_cons (i : ι) (order : List ι) :
    copyEach source target (i :: order) memory =
      copyEach source target order
        (Function.update memory (target i) (memory (source i))) := rfl

/-- What is no target keeps its content. -/
theorem copyEach_of_forall_ne {place : α} (outside : ∀ i ∈ order, place ≠ target i) :
    copyEach source target order memory place = memory place := by
  induction order generalizing memory with
  | nil => rfl
  | cons i order ih =>
      rw [List.forall_mem_cons] at outside
      rw [copyEach_cons, ih outside.2, Function.update_of_ne outside.1]

/-- In a safe order every target gets the original content of its source. -/
theorem copyEach_target (safe : SafeOrder source target order) {i : ι} (member : i ∈ order) :
    copyEach source target order memory (target i) = memory (source i) := by
  induction order generalizing memory with
  | nil => cases member
  | cons first order ih =>
      rw [SafeOrder, List.pairwise_cons] at safe
      rw [copyEach_cons]
      rcases List.mem_cons.mp member with rfl | later
      · rw [copyEach_of_forall_ne fun j after => (safe.1 j after).2, Function.update_self]
      · rw [ih safe.2 later, Function.update_of_ne (safe.1 i later).1.symm]

end Lord84.Theory
