import Mathlib.Tactic.Common
import Mathlib.Logic.Relation
import Mathlib.Order.Bounds.Defs

/-!
# Loops without a bound of their own

A `while` loop is one step that either goes on with another state or leaves the loop with a
result.  `loopFor` executes so many steps of it, and `Returns` says that some number of
steps is enough.  A loop that returns is analysed by induction on its steps; that it
returns follows from a measure, and that it does not from a state it comes back to.  A loop
that waits for a condition leaves at the first state where the condition holds.
-/

namespace Lord84.Theory

universe u v

variable {σ : Type u} {β : Type v}

/-- At most `fuel` steps of a loop; `none` if it is still going on after them. -/
def loopFor (step : σ → σ ⊕ β) : Nat → σ → Option β
  | 0, _ => none
  | fuel + 1, state =>
      match step state with
      | .inl next => loopFor step fuel next
      | .inr result => some result

/-- The loop comes from one state to the other. -/
def Visits (step : σ → σ ⊕ β) : σ → σ → Prop :=
  Relation.ReflTransGen fun state next => step state = .inl next

/-- The loop ends with this result. -/
def Returns (step : σ → σ ⊕ β) (state : σ) (result : β) : Prop :=
  ∃ fuel, loopFor step fuel state = some result

variable {step : σ → σ ⊕ β} {state next : σ} {result : β}

/-- More steps do not change a result. -/
theorem loopFor_mono {fuel more : Nat} (enough : fuel ≤ more)
    (finished : loopFor step fuel state = some result) :
    loopFor step more state = some result := by
  induction fuel generalizing more state with
  | zero => cases finished
  | succ fuel ih =>
      cases more with
      | zero => exact absurd enough (Nat.not_succ_le_zero fuel)
      | succ more =>
          rw [loopFor] at finished ⊢
          cases stepped : step state with
          | inl next =>
              simp only [stepped] at finished ⊢
              exact ih (Nat.le_of_succ_le_succ enough) finished
          | inr value =>
              simp only [stepped] at finished ⊢
              exact finished

theorem Returns.eventually (returns : Returns step state result) :
    ∃ enough, ∀ fuel ≥ enough, loopFor step fuel state = some result := by
  obtain ⟨enough, finished⟩ := returns
  exact ⟨enough, fun fuel more => loopFor_mono more finished⟩

theorem returns_of_inr (stepped : step state = .inr result) : Returns step state result :=
  ⟨1, by rw [loopFor, stepped]⟩

/-- A step leads to a state with the same result. -/
theorem returns_iff_of_inl (stepped : step state = .inl next) :
    Returns step state result ↔ Returns step next result := by
  constructor
  · rintro ⟨fuel, finished⟩
    cases fuel with
    | zero => cases finished
    | succ fuel =>
        rw [loopFor, stepped] at finished
        exact ⟨fuel, finished⟩
  · rintro ⟨fuel, finished⟩
    exact ⟨fuel + 1, by rw [loopFor, stepped]; exact finished⟩

/-- Induction on the steps of a loop that returns, from its last step backwards. -/
theorem Returns.induct {property : σ → Prop} (returns : Returns step state result)
    (last : ∀ state, step state = .inr result → property state)
    (before : ∀ state next, step state = .inl next → property next → property state) :
    property state := by
  obtain ⟨fuel, finished⟩ := returns
  induction fuel generalizing state with
  | zero => cases finished
  | succ fuel ih =>
      rw [loopFor] at finished
      cases stepped : step state with
      | inl next =>
          simp only [stepped] at finished
          exact before state next stepped (ih finished)
      | inr value =>
          simp only [stepped, Option.some.injEq] at finished
          exact last state (finished ▸ stepped)

/-- A state that leads to itself is never left. -/
theorem not_returns_of_fixed (stuck : step state = .inl state) : ¬ Returns step state result := by
  rintro ⟨fuel, finished⟩
  induction fuel with
  | zero => cases finished
  | succ fuel ih =>
      rw [loopFor, stuck] at finished
      exact ih finished

/-- A loop with a decreasing measure returns. -/
theorem returns_of_measure {inv : σ → Prop} (measure : σ → Nat)
    (decreases : ∀ state next, inv state → step state = .inl next →
      inv next ∧ measure next < measure state) (start : inv state) :
    ∃ result, Returns step state result := by
  have bounded : ∀ bound state, inv state → measure state < bound →
      ∃ result, Returns step state result := by
    intro bound
    induction bound with
    | zero => exact fun _ _ below => absurd below (Nat.not_lt_zero _)
    | succ bound ih =>
        intro state holds below
        cases stepped : step state with
        | inl next =>
            obtain ⟨kept, smaller⟩ := decreases state next holds stepped
            obtain ⟨result, returns⟩ := ih next kept
              (Nat.lt_of_lt_of_le smaller (Nat.le_of_lt_succ below))
            exact ⟨result, (returns_iff_of_inl stepped).mpr returns⟩
        | inr result => exact ⟨result, returns_of_inr stepped⟩
  exact bounded (measure state + 1) state start (Nat.lt_succ_self _)

/-- A loop through a sequence of states, left as soon as a condition holds, returns from the
first state where it does. -/
theorem returns_iff_isLeast {states : Nat → σ} {results : Nat → β} {holds : Nat → Prop}
    (waits : ∀ k, ¬ holds k → step (states k) = .inl (states (k + 1)))
    (leaves : ∀ k, holds k → step (states k) = .inr (results k)) :
    Returns step (states 0) result ↔ ∃ k, IsLeast {k | holds k} k ∧ results k = result := by
  constructor
  · rintro ⟨fuel, finished⟩
    -- no earlier state has the condition
    have found : ∀ fuel k, (∀ j < k, ¬ holds j) →
        loopFor step fuel (states k) = some result →
        ∃ k, IsLeast {k | holds k} k ∧ results k = result := by
      intro fuel
      induction fuel with
      | zero =>
          intro k earlier finished
          cases finished
      | succ fuel ih =>
          intro k earlier finished
          by_cases here : holds k
          · rw [loopFor, leaves k here] at finished
            have least : ∀ j, holds j → k ≤ j := fun j there =>
              Nat.le_of_not_lt fun before => earlier j before there
            exact ⟨k, ⟨here, least⟩, Option.some.inj finished⟩
          · rw [loopFor, waits k here] at finished
            refine ih (k + 1) ?_ finished
            intro j before
            obtain earlierOne | rfl := Nat.lt_succ_iff_lt_or_eq.mp before
            · exact earlier j earlierOne
            · exact here
    exact found fuel 0 (fun j before => absurd before (Nat.not_lt_zero j)) finished
  · rintro ⟨k, ⟨here, least⟩, rfl⟩
    -- the states before it lead to it
    have reached : ∀ j ≤ k, (Returns step (states 0) (results k) ↔
        Returns step (states j) (results k)) := by
      intro j before
      induction j with
      | zero => exact Iff.rfl
      | succ j ih =>
          rw [ih (Nat.le_of_succ_le before)]
          exact returns_iff_of_inl
            (waits j fun there => absurd (least there) (Nat.not_le_of_lt before))
    rw [reached k (Nat.le_refl k)]
    exact returns_of_inr (leaves k here)

end Lord84.Theory
