import Lord84.Theory.Loop

/-!
# Programs that record what they read

A program that reads from somewhere yields a value and the places it has read on the way,
one behind the other.  The value of such a program is that of the program without the
record, and what it reads is known from what its parts read: a search through a list reads
what it reads at the elements it looks at, and a loop what it reads in the states it visits.
-/

namespace Lord84.Theory

/-- A value, and the places that were read to compute it. -/
structure Traced (ι α : Type) where
  value : α
  reads : List ι

namespace Traced

variable {ι α β σ : Type}

instance : Monad (Traced ι) where
  pure value := ⟨value, []⟩
  bind first rest := ⟨(rest first.value).value, first.reads ++ (rest first.value).reads⟩

@[simp] theorem value_pure (value : α) : (pure value : Traced ι α).value = value := rfl

@[simp] theorem reads_pure (value : α) : (pure value : Traced ι α).reads = [] := rfl

@[simp] theorem value_bind (first : Traced ι α) (rest : α → Traced ι β) :
    (first >>= rest).value = (rest first.value).value := rfl

@[simp] theorem reads_bind (first : Traced ι α) (rest : α → Traced ι β) :
    (first >>= rest).reads = first.reads ++ (rest first.value).reads := rfl

/-! ## Lists -/

/-- A loop over a list, without its record. -/
theorem value_foldlM (body : σ → α → Traced ι σ) (values : List α) (state : σ) :
    (values.foldlM body state).value =
      values.foldl (fun state value => (body state value).value) state := by
  induction values generalizing state with
  | nil => rfl
  | cons value values ih =>
      rw [List.foldlM_cons, value_bind, ih, List.foldl_cons]

/-- If the state does not matter for what is read, then neither does the order of the
iterations. -/
theorem mem_reads_foldlM_iff {body : σ → α → Traced ι σ} {here : α → List ι}
    (reads : ∀ state value, (body state value).reads = here value) {values : List α} {state : σ}
    {place : ι} :
    place ∈ (values.foldlM body state).reads ↔ ∃ value ∈ values, place ∈ here value := by
  induction values generalizing state with
  | nil => simp
  | cons value values ih =>
      rw [List.foldlM_cons, reads_bind, List.mem_append, ih, reads]
      simp only [List.mem_cons, exists_eq_or_imp]

/-- A search through a list, without its record. -/
theorem value_findSomeM? (test : α → Traced ι (Option β)) (values : List α) :
    (values.findSomeM? test).value = values.findSome? fun value => (test value).value := by
  induction values with
  | nil => rfl
  | cons value values ih =>
      rw [List.findSomeM?_cons, value_bind, List.findSome?_cons]
      cases (test value).value with
      | none => exact ih
      | some found => rfl

/-- A search reads at the elements of the list only. -/
theorem exists_of_mem_reads_findSomeM? {test : α → Traced ι (Option β)} {values : List α}
    {place : ι} (read : place ∈ (values.findSomeM? test).reads) :
    ∃ value ∈ values, place ∈ (test value).reads := by
  induction values with
  | nil => cases read
  | cons value values ih =>
      rw [List.findSomeM?_cons, reads_bind, List.mem_append] at read
      rcases read with first | later
      · exact ⟨value, List.mem_cons_self, first⟩
      · cases found : (test value).value with
        | none =>
            rw [found] at later
            obtain ⟨other, member, there⟩ := ih later
            exact ⟨other, List.mem_cons_of_mem value member, there⟩
        | some result =>
            rw [found] at later
            cases later

/-- It does look at the first one. -/
theorem mem_reads_findSomeM?_cons {test : α → Traced ι (Option β)} {value : α} {values : List α}
    {place : ι} (read : place ∈ (test value).reads) :
    place ∈ ((value :: values).findSomeM? test).reads := by
  rw [List.findSomeM?_cons, reads_bind]
  exact List.mem_append_left _ read

/-! ## Loops -/

/-- At most `fuel` steps of a loop that records what it reads. -/
def loop (step : σ → Traced ι (σ ⊕ β)) : Nat → σ → Traced ι (Option β)
  | 0, _ => pure none
  | fuel + 1, state => do
      match ← step state with
      | .inl next => loop step fuel next
      | .inr result => return some result

/-- A loop without its record. -/
theorem value_loop (step : σ → Traced ι (σ ⊕ β)) (fuel : Nat) (state : σ) :
    (loop step fuel state).value = loopFor (fun state => (step state).value) fuel state := by
  induction fuel generalizing state with
  | zero => rfl
  | succ fuel ih =>
      rw [loop, value_bind, loopFor]
      cases (step state).value with
      | inl next => exact ih next
      | inr result => rfl

/-- A loop reads, in so many steps as it may take, what it reads in the states it visits. -/
theorem exists_mem_reads_loop_iff {step : σ → Traced ι (σ ⊕ β)} {start : σ} {place : ι} :
    (∃ fuel, place ∈ (loop step fuel start).reads) ↔
      ∃ state, Visits (fun state => (step state).value) start state ∧
        place ∈ (step state).reads := by
  constructor
  · rintro ⟨fuel, read⟩
    induction fuel generalizing start with
    | zero => cases read
    | succ fuel ih =>
        rw [loop, reads_bind, List.mem_append] at read
        rcases read with first | later
        · exact ⟨start, .refl, first⟩
        · cases stepped : (step start).value with
          | inl next =>
              rw [stepped] at later
              obtain ⟨state, visited, there⟩ := ih later
              exact ⟨state, .head stepped visited, there⟩
          | inr result =>
              rw [stepped] at later
              cases later
  · rintro ⟨state, visited, there⟩
    induction visited using Relation.ReflTransGen.head_induction_on with
    | refl =>
        refine ⟨1, ?_⟩
        rw [loop, reads_bind]
        exact List.mem_append_left _ there
    | @head state next stepped _ ih =>
        obtain ⟨fuel, read⟩ := ih
        have stepped : (step state).value = .inl next := stepped
        refine ⟨fuel + 1, ?_⟩
        rw [loop, reads_bind, stepped]
        exact List.mem_append_right _ read

end Traced

end Lord84.Theory
