import Mathlib.Data.List.Basic
import Mathlib.Data.List.Range

/-!
# Outcomes and runs of imperative code

Bare-metal code does not always return.  `Outcome` records the four ways in which
a call can end: it returns a value, it stops the machine on purpose, it waits for
a lock that nobody will release, or it accesses memory it must not access.

A client drives such code by a list of operations.  `run` executes the list, and
`Along` and `Always` speak about every step taken and every state visited.  The
two run rules at the end reduce a property of whole runs to one step.
-/

namespace Lord84.Theory

universe u v

/-- The result of executing a piece of imperative code. -/
inductive Outcome (α : Type u) where
  | done (value : α)
  | killed
  | spinning
  | fault
  deriving DecidableEq, Repr

namespace Outcome

variable {α β γ : Type u}

/-- Continue with the returned value; every other outcome is final. -/
protected def bind : Outcome α → (α → Outcome β) → Outcome β
  | .done value, next => next value
  | .killed, _ => .killed
  | .spinning, _ => .spinning
  | .fault, _ => .fault

instance : Monad Outcome where
  pure := .done
  bind := Outcome.bind

@[simp] theorem pure_eq_done (value : α) : (pure value : Outcome α) = .done value := rfl

@[simp] theorem done_bind (value : α) (next : α → Outcome β) :
    (Outcome.done value >>= next) = next value := rfl

@[simp] theorem killed_bind (next : α → Outcome β) :
    ((Outcome.killed : Outcome α) >>= next) = .killed := rfl

@[simp] theorem spinning_bind (next : α → Outcome β) :
    ((Outcome.spinning : Outcome α) >>= next) = .spinning := rfl

@[simp] theorem fault_bind (next : α → Outcome β) :
    ((Outcome.fault : Outcome α) >>= next) = .fault := rfl

@[simp] theorem map_done (f : α → β) (value : α) :
    f <$> Outcome.done value = .done (f value) := rfl

@[simp] theorem map_killed (f : α → β) : f <$> (Outcome.killed : Outcome α) = .killed := rfl

@[simp] theorem map_fault (f : α → β) : f <$> (Outcome.fault : Outcome α) = .fault := rfl

instance : LawfulMonad Outcome :=
  LawfulMonad.mk' Outcome
    (by intro α x; cases x <;> rfl)
    (by intros; rfl)
    (by intro α β γ x f g; cases x <;> rfl)

/-- A sequence of two steps returns exactly when both of them return. -/
theorem bind_eq_done {x : Outcome α} {next : α → Outcome β} {result : β} :
    (x >>= next) = .done result ↔ ∃ value, x = .done value ∧ next value = .done result := by
  cases x <;> simp

end Outcome

section Loops

variable {σ : Type u}

/-- The counting loop `for (i = start; i < stop; i++)`. -/
def forRange (start stop : Nat) (body : Nat → σ → Outcome σ) (state : σ) : Outcome σ :=
  (List.range' start (stop - start)).foldlM (fun current i => body i current) state

/-- Executing a list of calls one after the other, each on the state the previous
one left. -/
def forEach {α : Type v} (items : List α) (body : α → σ → Outcome σ) (state : σ) :
    Outcome σ :=
  items.foldlM (fun current item => body item current) state

/-- Executing a list of calls one after the other until one of them has a result. -/
def searchEach {α : Type v} {β : Type u} (items : List α)
    (body : α → σ → Outcome (Option β × σ)) (state : σ) : Outcome (Option β × σ) :=
  match items with
  | [] => .done (none, state)
  | item :: items => do
      match ← body item state with
      | (some result, next) => .done (some result, next)
      | (none, next) => searchEach items body next

/-- The counting loop `for (i = start; i < stop; i++)` with a `return` in its body. -/
def searchRange {β : Type u} (start stop : Nat) (body : Nat → σ → Outcome (Option β × σ))
    (state : σ) : Outcome (Option β × σ) :=
  searchEach (List.range' start (stop - start)) body state

@[simp] theorem forEach_nil {α : Type v} (body : α → σ → Outcome σ) (state : σ) :
    forEach [] body state = .done state := rfl

@[simp] theorem forEach_cons {α : Type v} (item : α) (items : List α)
    (body : α → σ → Outcome σ) (state : σ) :
    forEach (item :: items) body state = (body item state >>= forEach items body) := by
  simp only [forEach, List.foldlM_cons]
  rfl

theorem forEach_append {α : Type v} (left right : List α)
    (body : α → σ → Outcome σ) (state : σ) :
    forEach (left ++ right) body state = (forEach left body state >>= forEach right body) := by
  simp only [forEach, List.foldlM_append]
  rfl

/-- A loop whose iterations are themselves loops over lists is one loop over the
concatenated list.  The iterations may also fail, unless their item is `permitted`. -/
theorem forEach_flatMap_eq_done {α : Type v} {β : Type v} {permitted : α → Prop}
    {expand : α → List β} {outer : α → σ → Outcome σ} {inner : β → σ → Outcome σ}
    (iteration : ∀ item state next, outer item state = .done next ↔
      permitted item ∧ forEach (expand item) inner state = .done next)
    {items : List α} {state final : σ} :
    forEach items outer state = .done final ↔
      (∀ item ∈ items, permitted item) ∧
        forEach (items.flatMap expand) inner state = .done final := by
  induction items generalizing state with
  | nil => simp
  | cons item items ih =>
      rw [forEach_cons, List.flatMap_cons, forEach_append, List.forall_mem_cons,
        Outcome.bind_eq_done, Outcome.bind_eq_done]
      constructor
      · rintro ⟨next, first, rest⟩
        obtain ⟨here, expanded⟩ := (iteration item state next).mp first
        obtain ⟨later, finished⟩ := ih.mp rest
        exact ⟨⟨here, later⟩, next, expanded, finished⟩
      · rintro ⟨⟨here, later⟩, next, expanded, finished⟩
        exact ⟨next, (iteration item state next).mpr ⟨here, expanded⟩,
          ih.mpr ⟨later, finished⟩⟩

/-- A counting loop executes its body once for each number of the range. -/
theorem forRange_eq_forEach (start stop : Nat) (body : Nat → σ → Outcome σ) (state : σ) :
    forRange start stop body state =
      forEach (List.range' start (stop - start)) body state := rfl

/-- Loop rule: a counting loop whose iterations lead from each state of a sequence to
the next one leads from the first to the last. -/
theorem forRange_eq_done {states : Nat → σ} {start stop : Nat} {body : Nat → σ → Outcome σ}
    (ordered : start ≤ stop)
    (iteration : ∀ i, start ≤ i → i < stop → body i (states i) = .done (states (i + 1))) :
    forRange start stop body (states start) = .done (states stop) := by
  induction stop, ordered using Nat.le_induction with
  | base => simp [forRange_eq_forEach]
  | succ stop ordered ih =>
      rw [forRange_eq_forEach, Nat.succ_sub ordered, List.range'_1_concat, forEach_append,
        ← forRange_eq_forEach, ih (fun i low high => iteration i low (by omega)),
        Outcome.done_bind, Nat.add_sub_cancel' ordered, forEach_cons,
        iteration stop ordered (Nat.lt_succ_self stop)]
      rfl

/-- Loop rule for safety: what every iteration that returns hands on to the next one holds
at the end of a counting loop that returns. -/
theorem forRange_invariant {invariant : Nat → σ → Prop} {start stop : Nat}
    {body : Nat → σ → Outcome σ}
    (keep : ∀ i current next, start ≤ i → i < stop → invariant i current →
      body i current = .done next → invariant (i + 1) next)
    {state final : σ} (ordered : start ≤ stop) (initial : invariant start state)
    (finished : forRange start stop body state = .done final) : invariant stop final := by
  induction stop, ordered using Nat.le_induction generalizing final with
  | base =>
      rw [forRange_eq_forEach, Nat.sub_self] at finished
      cases finished
      exact initial
  | succ stop ordered ih =>
      rw [forRange_eq_forEach, Nat.succ_sub ordered, List.range'_1_concat, forEach_append,
        ← forRange_eq_forEach, Outcome.bind_eq_done, Nat.add_sub_cancel' ordered] at finished
      obtain ⟨current, before, last⟩ := finished
      rw [forEach_cons, Outcome.bind_eq_done] at last
      obtain ⟨next, stepped, ended⟩ := last
      cases ended
      refine keep stop current final ordered (Nat.lt_succ_self stop) ?_ stepped
      exact ih (fun i current next low high => keep i current next low (by omega)) before

/-- Nested list loops are one loop over the concatenated list. -/
theorem forEach_flatMap {α : Type v} {β : Type v} (items : List α) (expand : α → List β)
    (body : β → σ → Outcome σ) (state : σ) :
    forEach (items.flatMap expand) body state =
      forEach items (fun item => forEach (expand item) body) state := by
  induction items generalizing state with
  | nil => rfl
  | cons item items ih =>
      rw [List.flatMap_cons, forEach_append, forEach_cons]
      congr 1
      funext next
      exact ih next

@[simp] theorem searchEach_nil {α : Type v} {β : Type u}
    (body : α → σ → Outcome (Option β × σ)) (state : σ) :
    searchEach [] body state = .done (none, state) := rfl

/-- A search of a concatenated list goes on in the second part after a failure in the
first. -/
theorem searchEach_append {α : Type v} {β : Type u} (left right : List α)
    (body : α → σ → Outcome (Option β × σ)) (state : σ) :
    searchEach (left ++ right) body state =
      (searchEach left body state >>= fun outcome =>
        match outcome with
        | (some result, next) => .done (some result, next)
        | (none, next) => searchEach right body next) := by
  induction left generalizing state with
  | nil => rfl
  | cons item left ih =>
      rw [List.cons_append, searchEach, searchEach, bind_assoc]
      congr 1
      funext outcome
      obtain ⟨_ | result, next⟩ := outcome
      · exact ih next
      · rfl

/-- Nested searches are one search of the concatenated list. -/
theorem searchEach_flatMap {α : Type v} {γ : Type v} {β : Type u} (items : List α)
    (expand : α → List γ) (body : γ → σ → Outcome (Option β × σ)) (state : σ) :
    searchEach (items.flatMap expand) body state =
      searchEach items (fun item => searchEach (expand item) body) state := by
  induction items generalizing state with
  | nil => rfl
  | cons item items ih =>
      rw [List.flatMap_cons, searchEach_append, searchEach]
      congr 1
      funext outcome
      obtain ⟨_ | result, next⟩ := outcome
      · exact ih next
      · rfl

/-- Two loops over one list are the same if their bodies agree in the states of an invariant
that the first one keeps. -/
theorem forEach_congr {α : Type v} {invariant : σ → Prop} {items : List α}
    {body other : α → σ → Outcome σ}
    (same : ∀ item ∈ items, ∀ state, invariant state → body item state = other item state)
    (keep : ∀ item ∈ items, ∀ state next, invariant state → body item state = .done next →
      invariant next)
    {state : σ} (initial : invariant state) :
    forEach items body state = forEach items other state := by
  induction items generalizing state with
  | nil => rfl
  | cons item items ih =>
      rw [forEach_cons, forEach_cons, ← same item List.mem_cons_self state initial]
      cases stepped : body item state with
      | done next =>
          simp only [Outcome.done_bind]
          exact ih (fun item member => same item (List.mem_cons_of_mem _ member))
            (fun item member => keep item (List.mem_cons_of_mem _ member))
            (keep item List.mem_cons_self state next initial stepped)
      | killed => rfl
      | spinning => rfl
      | fault => rfl

/-- Renaming the loop variable of a list loop. -/
theorem forEach_map {α : Type v} {β : Type v} (items : List α) (image : α → β)
    (body : β → σ → Outcome σ) (state : σ) :
    forEach (items.map image) body state =
      forEach items (fun item => body (image item)) state := by
  simp only [forEach, List.foldlM_map]

end Loops

/-! ## Runs of a client -/

section Runs

variable {σ : Type u} {α : Type v} (step : σ → α → Outcome σ)

/-- Execute a list of operations. -/
def run (state : σ) (ops : List α) : Outcome σ :=
  ops.foldlM step state

@[simp] theorem run_nil (state : σ) : run step state [] = .done state := rfl

@[simp] theorem run_cons (state : σ) (op : α) (ops : List α) :
    run step state (op :: ops) = (step state op >>= fun next => run step next ops) := by
  simp only [run, List.foldlM_cons]

theorem run_append (state : σ) (before after : List α) :
    run step state (before ++ after) =
      (run step state before >>= fun middle => run step middle after) :=
  List.foldlM_append

/-- Every step of the run meets `condition` in the state it is taken from. -/
def Along (condition : σ → α → Prop) : σ → List α → Prop
  | _, [] => True
  | state, op :: ops =>
      condition state op ∧ ∀ next, step state op = .done next → Along condition next ops

/-- Every state the run visits, first and last included, satisfies `property`. -/
def Always (property : σ → Prop) : σ → List α → Prop
  | state, [] => property state
  | state, op :: ops =>
      property state ∧ ∀ next, step state op = .done next → Always property next ops

variable {step} {condition : σ → α → Prop} {property invariant : σ → Prop}

theorem Along.imp {other : σ → α → Prop}
    (weaker : ∀ state op, condition state op → other state op) {state : σ} {ops : List α}
    (along : Along step condition state ops) : Along step other state ops := by
  induction ops generalizing state with
  | nil => trivial
  | cons op ops ih =>
      exact ⟨weaker state op along.1, fun next stepped => ih (along.2 next stepped)⟩

theorem Along.and {other : σ → α → Prop} {state : σ} {ops : List α}
    (left : Along step condition state ops) (right : Along step other state ops) :
    Along step (fun state op => condition state op ∧ other state op) state ops := by
  induction ops generalizing state with
  | nil => trivial
  | cons op ops ih =>
      exact ⟨⟨left.1, right.1⟩, fun next stepped => ih (left.2 next stepped) (right.2 next stepped)⟩

/-- A condition that all operations meet in all states. -/
theorem Along.of_forall (always : ∀ state op, condition state op) (state : σ) (ops : List α) :
    Along step condition state ops := by
  induction ops generalizing state with
  | nil => trivial
  | cons op ops ih => exact ⟨always state op, fun next _ => ih next⟩

/-- A condition on all steps of a run is a condition on the steps of its second half. -/
theorem Along.drop {state middle : σ} {before after : List α}
    (along : Along step condition state (before ++ after))
    (reached : run step state before = .done middle) : Along step condition middle after := by
  induction before generalizing state with
  | nil =>
      cases reached
      exact along
  | cons op before ih =>
      rw [run_cons, Outcome.bind_eq_done] at reached
      obtain ⟨next, stepped, rest⟩ := reached
      exact ih (along.2 next stepped) rest

/-- The condition on the steps before a point of the run. -/
theorem Along.take {state : σ} {before after : List α}
    (along : Along step condition state (before ++ after)) :
    Along step condition state before := by
  induction before generalizing state with
  | nil => trivial
  | cons op before ih =>
      exact ⟨along.1, fun next stepped => ih (along.2 next stepped)⟩

/-- Run rule for safety: an invariant kept by every permitted step holds at the
end of every permitted run. -/
theorem run_invariant
    (keep : ∀ state op next, invariant state → condition state op →
      step state op = .done next → invariant next)
    {state final : σ} {ops : List α} (initial : invariant state)
    (permitted : Along step condition state ops)
    (finished : run step state ops = .done final) : invariant final := by
  induction ops generalizing state with
  | nil =>
      cases finished
      exact initial
  | cons op ops ih =>
      rw [run_cons, Outcome.bind_eq_done] at finished
      obtain ⟨next, stepped, rest⟩ := finished
      exact ih (keep state op next initial permitted.1 stepped)
        (permitted.2 next stepped) rest

/-- Run rule for progress: if the invariant lets every permitted step return, then
every permitted run returns. -/
theorem run_progress
    (keep : ∀ state op, invariant state → condition state op →
      ∃ next, step state op = .done next ∧ invariant next)
    {state : σ} {ops : List α} (initial : invariant state)
    (permitted : Along step condition state ops) :
    ∃ final, run step state ops = .done final ∧ invariant final := by
  induction ops generalizing state with
  | nil => exact ⟨state, rfl, initial⟩
  | cons op ops ih =>
      obtain ⟨next, stepped, kept⟩ := keep state op initial permitted.1
      obtain ⟨final, finished, holds⟩ := ih kept (permitted.2 next stepped)
      exact ⟨final, by rw [run_cons, stepped, Outcome.done_bind, finished], holds⟩

/-- Progress without conditions on the operations. -/
theorem run_total
    (keep : ∀ state op, invariant state → ∃ next, step state op = .done next ∧ invariant next)
    {state : σ} (ops : List α) (initial : invariant state) :
    ∃ final, run step state ops = .done final ∧ invariant final := by
  induction ops generalizing state with
  | nil => exact ⟨state, rfl, initial⟩
  | cons op ops ih =>
      obtain ⟨next, stepped, kept⟩ := keep state op initial
      obtain ⟨final, finished, holds⟩ := ih kept
      exact ⟨final, by rw [run_cons, stepped, Outcome.done_bind, finished], holds⟩

/-- Run rule for refinement: if every permitted step from the invariant keeps it and is a step
of another machine on what `view` shows of the state, then permitted runs are runs of that
machine. -/
theorem run_refines {τ : Type u} {abstractStep : τ → α → Outcome τ} (view : σ → τ)
    (refines : ∀ state op, invariant state → condition state op →
      view <$> step state op = abstractStep (view state) op)
    (keep : ∀ state op next, invariant state → condition state op →
      step state op = .done next → invariant next)
    {state : σ} {ops : List α} (initial : invariant state)
    (permitted : Along step condition state ops) :
    view <$> run step state ops = run abstractStep (view state) ops := by
  induction ops generalizing state with
  | nil => rfl
  | cons op ops ih =>
      rw [run_cons, run_cons, ← refines state op initial permitted.1, map_bind, bind_map_left]
      cases stepped : step state op with
      | done next =>
          simp only [Outcome.done_bind]
          exact ih (keep state op next initial permitted.1 stepped) (permitted.2 next stepped)
      | killed => rfl
      | spinning => rfl
      | fault => rfl

/-- Run rule for pointwise properties: what the invariant implies holds in every
state the run visits. -/
theorem always_of_invariant
    (keep : ∀ state op next, invariant state → condition state op →
      step state op = .done next → invariant next)
    (holds : ∀ state, invariant state → property state)
    {state : σ} {ops : List α} (initial : invariant state)
    (permitted : Along step condition state ops) :
    Always step property state ops := by
  induction ops generalizing state with
  | nil => exact holds state initial
  | cons op ops ih =>
      refine ⟨holds state initial, ?_⟩
      intro next stepped
      exact ih (keep state op next initial permitted.1 stepped)
        (permitted.2 next stepped)

theorem Always.here {state : σ} {ops : List α} (always : Always step property state ops) :
    property state := by
  cases ops with
  | nil => exact always
  | cons op ops => exact always.1

/-- Run rule for exact conditions: if a permitted step returns to the invariant exactly
when it meets `condition`, then a permitted run returns and keeps the invariant exactly
when all its steps meet it. -/
theorem run_always_iff {permitted : σ → α → Prop}
    (exact : ∀ state op, invariant state → permitted state op →
      ((∃ next, step state op = .done next ∧ invariant next) ↔ condition state op))
    {state : σ} {ops : List α} (initial : invariant state)
    (along : Along step permitted state ops) :
    ((∃ final, run step state ops = .done final) ∧ Always step invariant state ops) ↔
      Along step condition state ops := by
  induction ops generalizing state with
  | nil => exact ⟨fun _ => trivial, fun _ => ⟨⟨state, rfl⟩, initial⟩⟩
  | cons op ops ih =>
      have first := exact state op initial along.1
      constructor
      · rintro ⟨⟨final, finished⟩, -, later⟩
        rw [run_cons, Outcome.bind_eq_done] at finished
        obtain ⟨next, stepped, rest⟩ := finished
        refine ⟨first.mp ⟨next, stepped, (later next stepped).here⟩, ?_⟩
        intro other alsoStepped
        cases stepped.symm.trans alsoStepped
        exact (ih (later next stepped).here (along.2 next stepped)).mp
          ⟨⟨final, rest⟩, later next stepped⟩
      · rintro ⟨meets, later⟩
        obtain ⟨next, stepped, kept⟩ := first.mpr meets
        obtain ⟨⟨final, finished⟩, always⟩ :=
          (ih kept (along.2 next stepped)).mpr (later next stepped)
        refine ⟨⟨final, by rw [run_cons, stepped, Outcome.done_bind, finished]⟩, initial, ?_⟩
        intro other alsoStepped
        cases stepped.symm.trans alsoStepped
        exact always

end Runs

end Lord84.Theory
