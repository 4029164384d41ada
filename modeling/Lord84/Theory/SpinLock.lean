import Mathlib.Logic.Function.Basic
import Mathlib.Logic.Relation

/-!
# Critical sections under a spin lock

Processors share a state.  A call of theirs waits until the lock is free, takes it, and then
accesses the state step by step, while the others go on with whatever they do without the lock.
A call need not release the lock.

When no call notices what the others do meanwhile, then every interleaving comes to what some
serial run of the same calls comes to.  `Insensitive` is the condition on a single call, and it
need not be checked against interleavings.
-/

namespace Lord84.Theory

/-! ## Code -/

/-- The code of one processor.  A step is one access to the shared state: `effect` is what it
writes, and the code that follows depends on what it reads. -/
inductive Code (σ α : Type) where
  | ret (result : α)
  | step (effect : σ → σ) (next : σ → Code σ α)

namespace Code

variable {σ α β : Type}

/-- Two pieces of code, one after the other. -/
protected def bind : Code σ α → (α → Code σ β) → Code σ β
  | ret result, rest => rest result
  | step effect next, rest => step effect fun state => (next state).bind rest

instance : Monad (Code σ) where
  pure := ret
  bind := Code.bind

@[simp] theorem pure_bind (result : α) (rest : α → Code σ β) :
    ((pure result : Code σ α) >>= rest) = rest result := rfl

@[simp] theorem ret_bind (result : α) (rest : α → Code σ β) :
    ((ret result : Code σ α) >>= rest) = rest result := rfl

@[simp] theorem step_bind (effect : σ → σ) (next : σ → Code σ α) (rest : α → Code σ β) :
    (step effect next >>= rest) = step effect fun state => next state >>= rest := rfl

/-- Read a part of the state. -/
def read (part : σ → α) : Code σ α :=
  step id fun state => ret (part state)

/-- Write to the state. -/
def write (effect : σ → σ) : Code σ Unit :=
  step effect fun _ => ret ()

@[simp] theorem read_bind (part : σ → α) (rest : α → Code σ β) :
    (read part >>= rest) = step id fun state => rest (part state) := rfl

@[simp] theorem write_bind (effect : σ → σ) (rest : Unit → Code σ β) :
    (write effect >>= rest) = step effect fun _ => rest () := rfl

/-- Run the code alone. -/
def run : Code σ α → σ → α × σ
  | ret result, state => (result, state)
  | step effect next, state => (next state).run (effect state)

@[simp] theorem run_ret (result : α) (state : σ) : (ret result).run state = (result, state) := rfl

@[simp] theorem run_pure (result : α) (state : σ) :
    (pure result : Code σ α).run state = (result, state) := rfl

@[simp] theorem run_step (effect : σ → σ) (next : σ → Code σ α) (state : σ) :
    (step effect next).run state = (next state).run (effect state) := rfl

@[simp] theorem run_read (part : σ → α) (state : σ) :
    (read part).run state = (part state, state) := rfl

@[simp] theorem run_write (effect : σ → σ) (state : σ) :
    (write effect).run state = ((), effect state) := rfl

theorem run_bind (code : Code σ α) (rest : α → Code σ β) (state : σ) :
    (code >>= rest).run state = (rest (code.run state).1).run (code.run state).2 := by
  induction code generalizing state with
  | ret result => rfl
  | step effect next ih => exact ih state (effect state)

protected theorem bind_assoc {ε : Type} (code : Code σ α) (rest : α → Code σ β)
    (last : β → Code σ ε) :
    code >>= rest >>= last = code >>= fun result => rest result >>= last := by
  induction code with
  | ret result => rfl
  | step effect next ih => exact congrArg (step effect) (funext ih)

/-- Every write of the code is fine. -/
def Each (fine : (σ → σ) → Prop) : Code σ α → Prop
  | ret _ => True
  | step effect next => fine effect ∧ ∀ state, (next state).Each fine

theorem Each.bind {fine : (σ → σ) → Prop} {code : Code σ α} {rest : α → Code σ β}
    (first : code.Each fine) (second : ∀ result, (rest result).Each fine) :
    (code >>= rest).Each fine := by
  induction code with
  | ret result => exact second result
  | step effect next ih => exact ⟨first.1, fun state => ih state (first.2 state)⟩

/-- What every write preserves, the code preserves. -/
theorem Each.run (related : σ → σ → Prop) (refl : ∀ state, related state state)
    (trans : ∀ first second third, related first second → related second third →
      related first third)
    {code : Code σ α} (each : code.Each fun effect => ∀ state, related state (effect state))
    (state : σ) : related state (code.run state).2 := by
  induction code generalizing state with
  | ret result => exact refl state
  | step effect next ih =>
      exact trans _ _ _ (each.1 state) (ih state (each.2 state) (effect state))

/-- Some access is still to come. -/
def Running : Code σ α → Prop
  | ret _ => False
  | step _ _ => True

end Code

/-! ## Disturbed code -/

section Disturbance

variable {σ α : Type} (locked : σ → Bool) (disturb : σ → σ → Prop)

/-- Before each of its steps the code may be disturbed.  Until it ends the lock is held, and
then `post` holds of its result. -/
def Robust (post : α → σ → Prop) : Code σ α → σ → Prop
  | .ret result, state => post result state
  | .step effect next, state => ∀ disturbed, disturb state disturbed →
      locked disturbed = true ∧ Robust post (next disturbed) (effect disturbed)

/-- The code runs alone, and at each of its steps it would do the same after a disturbance. -/
def Insensitive : Code σ α → σ → Prop
  | .ret _, _ => True
  | .step effect next, state =>
      (∀ disturbed, disturb state disturbed →
        locked disturbed = true ∧ next disturbed = next state ∧
          disturb (effect state) (effect disturbed)) ∧
        Insensitive (next state) (effect state)

/-- The code runs alone, and it has the lock at each of its steps. -/
def HoldsLock : Code σ α → σ → Prop
  | .ret _, _ => True
  | .step effect next, state => locked state = true ∧ HoldsLock (next state) (effect state)

/-- A run of the code in which the state may change before each step. -/
inductive Code.Runs : Code σ α → σ → α → σ → Prop
  | ret (result : α) (state : σ) : Runs (.ret result) state result state
  | step {effect : σ → σ} {next : σ → Code σ α} {state disturbed : σ} {result : α} {final : σ}
      (moved : disturb state disturbed)
      (rest : Runs (next disturbed) (effect disturbed) result final) :
      Runs (.step effect next) state result final

/-- Code on its way to what is left of it, with a change of the state before each step and at the
end. -/
inductive Code.Progress : Code σ α → σ → Code σ α → σ → Prop
  | refl {code : Code σ α} {state disturbed : σ} (moved : disturb state disturbed) :
      Progress code state code disturbed
  | step {effect : σ → σ} {next : σ → Code σ α} {state disturbed : σ} {rest : Code σ α} {final : σ}
      (moved : disturb state disturbed)
      (further : Progress (next disturbed) (effect disturbed) rest final) :
      Progress (.step effect next) state rest final

variable {locked disturb} {post : α → σ → Prop} {code rest : Code σ α} {state final : σ}

/-- One more step. -/
theorem Code.Progress.tail {effect : σ → σ} {next : σ → Code σ α}
    (progress : Code.Progress disturb code state (.step effect next) final)
    (refl : ∀ state, disturb state state) :
    Code.Progress disturb code state (next final) (effect final) := by
  generalize reached : Code.step effect next = rest at progress
  induction progress with
  | refl moved =>
      subst reached
      exact .step moved (.refl (refl _))
  | step moved further ih => exact .step moved (ih reached)

/-- One more change of the state. -/
theorem Code.Progress.disturbed (progress : Code.Progress disturb code state rest final)
    (trans : ∀ first second third, disturb first second → disturb second third →
      disturb first third)
    {after : σ} (moved : disturb final after) : Code.Progress disturb code state rest after := by
  induction progress with
  | refl before => exact .refl (trans _ _ _ before moved)
  | step before further ih => exact .step before (ih moved)

/-- What every write and every disturbance preserves, code on its way preserves. -/
theorem Code.Progress.related (related : σ → σ → Prop)
    (trans : ∀ first second third, related first second → related second third →
      related first third)
    (kept : ∀ before after, disturb before after → related before after)
    (progress : Code.Progress disturb code state rest final)
    (each : code.Each fun effect => ∀ state, related state (effect state)) :
    related state final := by
  induction progress with
  | refl moved => exact kept _ _ moved
  | step moved further ih =>
      exact trans _ _ _ (kept _ _ moved) (trans _ _ _ (each.1 _) (ih (each.2 _)))

theorem Code.runs_ret {result value : α} {final : σ} :
    Code.Runs disturb (.ret result) state value final ↔ value = result ∧ final = state := by
  constructor
  · rintro ⟨⟩
    exact ⟨rfl, rfl⟩
  · rintro ⟨rfl, rfl⟩
    exact .ret value final

theorem Code.runs_step {effect : σ → σ} {next : σ → Code σ α} {result : α} {final : σ} :
    Code.Runs disturb (.step effect next) state result final ↔
      ∃ disturbed, disturb state disturbed ∧
        Code.Runs disturb (next disturbed) (effect disturbed) result final := by
  constructor
  · rintro ⟨⟩
    next disturbed moved rest => exact ⟨disturbed, moved, rest⟩
  · rintro ⟨disturbed, moved, rest⟩
    exact .step moved rest

/-- Code that notices no disturbance is right if it is right alone, up to a disturbance. -/
theorem Insensitive.robust (insensitive : Insensitive locked disturb code state)
    (right : ∀ disturbed, disturb (code.run state).2 disturbed →
      post (code.run state).1 disturbed)
    (trans : ∀ first second third, disturb first second → disturb second third →
      disturb first third)
    {disturbed : σ} (moved : disturb state disturbed) :
    Robust locked disturb post code disturbed := by
  induction code generalizing state disturbed with
  | ret result => exact right disturbed moved
  | step effect next ih =>
      intro later further
      obtain ⟨held, same, kept⟩ := insensitive.1 later (trans _ _ _ moved further)
      refine ⟨held, ?_⟩
      rw [same]
      exact ih state insensitive.2 right kept

/-- A write that may as well come before a disturbance as after it. -/
def Unnoticed (disturb : σ → σ → Prop) (effect : σ → σ) : Prop :=
  ∀ before after, disturb before after → disturb (effect before) (effect after)

theorem Insensitive.read_bind {β : Type} {part : σ → β} {next : β → Code σ α}
    (held : ∀ disturbed, disturb state disturbed → locked disturbed = true)
    (same : ∀ disturbed, disturb state disturbed → part disturbed = part state)
    (rest : Insensitive locked disturb (next (part state)) state) :
    Insensitive locked disturb (Code.read part >>= next) state :=
  ⟨fun disturbed moved => ⟨held disturbed moved, congrArg next (same disturbed moved), moved⟩,
    rest⟩

theorem Insensitive.write_bind {effect : σ → σ} {next : Unit → Code σ α}
    (held : ∀ disturbed, disturb state disturbed → locked disturbed = true)
    (unnoticed : Unnoticed disturb effect)
    (rest : Insensitive locked disturb (next ()) (effect state)) :
    Insensitive locked disturb (Code.write effect >>= next) state :=
  ⟨fun disturbed moved => ⟨held disturbed moved, rfl, unnoticed state disturbed moved⟩, rest⟩

theorem HoldsLock.bind {β : Type} {rest : α → Code σ β} (first : HoldsLock locked code state)
    (second : HoldsLock locked (rest (code.run state).1) (code.run state).2) :
    HoldsLock locked (code >>= rest) state := by
  induction code generalizing state with
  | ret result => exact second
  | step effect next ih => exact ⟨first.1, ih state first.2 second⟩

/-- Where nothing happens without the lock, code need only hold it. -/
theorem HoldsLock.insensitive (holds : HoldsLock locked code state)
    (still : ∀ before after, disturb before after → after = before)
    (refl : ∀ state, disturb state state) : Insensitive locked disturb code state := by
  induction code generalizing state with
  | ret result => trivial
  | step effect next ih =>
      refine ⟨?_, ih state holds.2⟩
      intro disturbed moved
      cases still _ _ moved
      exact ⟨holds.1, rfl, refl _⟩

/-- Running code stays robust when it is disturbed. -/
theorem Robust.disturbed (robust : Robust locked disturb post code state)
    (running : code.Running)
    (trans : ∀ first second third, disturb first second → disturb second third →
      disturb first third)
    {after : σ} (moved : disturb state after) : Robust locked disturb post code after := by
  cases code with
  | ret result => cases running
  | step effect next => exact fun later further => robust later (trans _ _ _ moved further)

/-- Without a disturbance the code comes to its result. -/
theorem Robust.run (robust : Robust locked disturb post code state)
    (refl : ∀ state, disturb state state) : post (code.run state).1 (code.run state).2 := by
  induction code generalizing state with
  | ret result => exact robust
  | step effect next ih => exact ih state (robust state (refl state)).2

theorem Robust.held (robust : Robust locked disturb post code state) (running : code.Running)
    (refl : ∀ state, disturb state state) : locked state = true := by
  cases code with
  | ret result => cases running
  | step effect next => exact (robust state (refl state)).1

end Disturbance

/-! ## Processors -/

/-- A lock and the calls that take it.  A processor knows what its calls have returned; while
it is idle it may change the shared state without the lock. -/
structure LockProtocol (σ κ ρ γ : Type) where
  locked : σ → Bool
  acquire : σ → σ
  code : κ → Code σ ρ
  allowed : κ → γ → Prop
  finish : κ → ρ → γ → γ
  outside : γ → σ → σ → Prop

/-- What a processor is doing. -/
inductive Activity (σ κ ρ : Type) where
  | idle
  | waiting (call : κ)
  | inside (call : κ) (rest : Code σ ρ)

/-- Processors that share a state. -/
structure Processors (ι σ κ ρ γ : Type) where
  shared : σ
  own : ι → γ
  activity : ι → Activity σ κ ρ

namespace Processors

open Function

variable {ι σ κ ρ γ : Type}

/-- All processors are idle. -/
def idle (shared : σ) (own : ι → γ) : Processors ι σ κ ρ γ where
  shared
  own
  activity _ := .idle

/-- A processor is in its critical section. -/
def Critical (m : Processors ι σ κ ρ γ) (i : ι) : Prop :=
  ∃ call rest, m.activity i = .inside call rest ∧ rest.Running

variable [DecidableEq ι]

/-- Another activity of a processor. -/
def setActivity (m : Processors ι σ κ ρ γ) (i : ι) (activity : Activity σ κ ρ) :
    Processors ι σ κ ρ γ :=
  { m with activity := update m.activity i activity }

@[simp] theorem setActivity_self (m : Processors ι σ κ ρ γ) (i : ι)
    (activity : Activity σ κ ρ) : (m.setActivity i activity).activity i = activity := by
  simp [setActivity]

@[simp] theorem setActivity_of_ne (m : Processors ι σ κ ρ γ) {i j : ι} (other : j ≠ i)
    (activity : Activity σ κ ρ) : (m.setActivity i activity).activity j = m.activity j := by
  simp [setActivity, other]

theorem waiting_of_setActivity {m : Processors ι σ κ ρ γ} {i j : ι} {activity : Activity σ κ ρ}
    {call : κ} (acts : ∀ call, activity ≠ .waiting call)
    (waits : (m.setActivity i activity).activity j = .waiting call) :
    j ≠ i ∧ m.activity j = .waiting call := by
  by_cases self : j = i
  · rw [self, setActivity_self] at waits
    exact absurd waits (acts call)
  · rw [setActivity_of_ne m self] at waits
    exact ⟨self, waits⟩

theorem critical_of_setActivity {m : Processors ι σ κ ρ γ} {i j : ι} {activity : Activity σ κ ρ}
    (other : j ≠ i) (critical : (m.setActivity i activity).Critical j) : m.Critical j := by
  rwa [Critical, setActivity_of_ne m other] at critical

end Processors

namespace LockProtocol

open Function

variable {ι σ κ ρ γ : Type} (p : LockProtocol σ κ ρ γ)

/-- What a processor knows once its call has returned. -/
def settled (m : Processors ι σ κ ρ γ) (i : ι) : γ :=
  match m.activity i with
  | .inside call (.ret result) => p.finish call result (m.own i)
  | _ => m.own i

/-- What may happen while `i` has the lock. -/
def Disturbs (own : ι → γ) (i : ι) : σ → σ → Prop :=
  Relation.ReflTransGen fun before after => ∃ j ≠ i, p.outside (own j) before after

variable {p} in
/-- A part of the state that nobody else writes. -/
theorem Disturbs.same {α : Type} {own : ι → γ} {i : ι} (part : σ → α)
    (kept : ∀ j ≠ i, ∀ before after, p.outside (own j) before after → part after = part before)
    {before after : σ} (moved : p.Disturbs own i before after) : part after = part before := by
  induction moved with
  | refl => rfl
  | tail _ step ih =>
      obtain ⟨j, other, acts⟩ := step
      exact (kept j other _ _ acts).trans ih

variable {p} in
theorem unnoticed_of_outside {own : ι → γ} {i : ι} {effect : σ → σ}
    (commutes : ∀ j ≠ i, Unnoticed (p.outside (own j)) effect) :
    Unnoticed (p.Disturbs own i) effect := by
  intro before after moved
  refine moved.lift effect ?_
  rintro before after ⟨j, other, acts⟩
  exact ⟨j, other, commutes j other _ _ acts⟩

variable [DecidableEq ι]

/-- One step of one processor.  A processor that finds the lock taken tests it again. -/
inductive Step : Processors ι σ κ ρ γ → Processors ι σ κ ρ γ → Prop
  | call {m : Processors ι σ κ ρ γ} (i : ι) (call : κ) (idle : m.activity i = .idle)
      (allowed : p.allowed call (m.own i)) : Step m (m.setActivity i (.waiting call))
  | spin {m : Processors ι σ κ ρ γ} (i : ι) (call : κ) (waiting : m.activity i = .waiting call)
      (taken : p.locked m.shared = true) : Step m m
  | enter {m : Processors ι σ κ ρ γ} (i : ι) (call : κ) (waiting : m.activity i = .waiting call)
      (unlocked : p.locked m.shared = false) :
      Step m { m.setActivity i (.inside call (p.code call)) with shared := p.acquire m.shared }
  | work {m : Processors ι σ κ ρ γ} (i : ι) (call : κ) (effect : σ → σ) (next : σ → Code σ ρ)
      (inside : m.activity i = .inside call (.step effect next)) :
      Step m { m.setActivity i (.inside call (next m.shared)) with shared := effect m.shared }
  | leave {m : Processors ι σ κ ρ γ} (i : ι) (call : κ) (result : ρ)
      (inside : m.activity i = .inside call (.ret result)) :
      Step m { m.setActivity i .idle with
        own := update m.own i (p.finish call result (m.own i)) }
  | outside {m : Processors ι σ κ ρ γ} (i : ι) (shared : σ) (idle : m.activity i = .idle)
      (acts : p.outside (m.own i) m.shared shared) : Step m { m with shared := shared }

/-- Any number of steps, in any order. -/
def Steps : Processors ι σ κ ρ γ → Processors ι σ κ ρ γ → Prop :=
  Relation.ReflTransGen p.Step

/-! ## One call after the other -/

/-- One call from its lock to its end, or one action without the lock. -/
inductive SerialStep : σ × (ι → γ) → σ × (ι → γ) → Prop
  | call {shared : σ} {own : ι → γ} (i : ι) (call : κ) (unlocked : p.locked shared = false)
      (allowed : p.allowed call (own i)) :
      SerialStep (shared, own) (((p.code call).run (p.acquire shared)).2,
        update own i (p.finish call ((p.code call).run (p.acquire shared)).1 (own i)))
  | outside {before after : σ} {own : ι → γ} (i : ι) (acts : p.outside (own i) before after) :
      SerialStep (before, own) (after, own)

/-- A serial run. -/
def Serial : σ × (ι → γ) → σ × (ι → γ) → Prop :=
  Relation.ReflTransGen p.SerialStep

/-- What makes interleavings serializable: an invariant of the serial runs under which no call
notices what the others do without the lock. -/
structure Rules (good : σ × (ι → γ) → Prop) : Prop where
  step : ∀ {before after}, good before → p.SerialStep before after → good after
  insensitive : ∀ {i call shared own}, good (shared, own) → p.locked shared = false →
    p.allowed call (own i) →
      Insensitive p.locked (p.Disturbs own i) (p.code call) (p.acquire shared)
  locked_outside : ∀ {known before after}, p.outside known before after →
    p.locked after = p.locked before

variable {p} {good : σ × (ι → γ) → Prop} {start : σ × (ι → γ)}

theorem Rules.serial (rules : p.Rules good) (holds : good start) {reached : σ × (ι → γ)}
    (run : p.Serial start reached) : good reached := by
  induction run with
  | refl => exact holds
  | tail _ step ih => exact rules.step ih step

/-- A disturbance may as well come after the call has returned. -/
theorem Disturbs.serial {own : ι → γ} {i : ι} {before after : σ}
    (moved : p.Disturbs own i before after) (known : γ) :
    p.Serial (before, update own i known) (after, update own i known) := by
  induction moved with
  | refl => exact .refl
  | tail _ step ih =>
      obtain ⟨j, other, acts⟩ := step
      refine ih.tail (.outside j ?_)
      rwa [update_of_ne other]

/-! ## The invariant of all interleavings -/

variable (p) in
/-- A call is on its way: the calls before it are serial up to the state in which it has got the
lock. -/
structure Entered (start : σ × (ι → γ)) (own : ι → γ) (i : ι) (call : κ) (entry : σ)
    (rest : Code σ ρ) (shared : σ) : Prop where
  serial : p.Serial start (entry, own)
  unlocked : p.locked entry = false
  allowed : p.allowed call (own i)
  progress : Code.Progress (p.Disturbs own i) (p.code call) (p.acquire entry) rest shared

variable (p) in
/-- What a call must establish: that it ends as if it had been alone. -/
def Ends (own : ι → γ) (i : ι) (call : κ) (entry : σ) (result : ρ) (shared : σ) : Prop :=
  result = ((p.code call).run (p.acquire entry)).1 ∧
    p.Disturbs own i ((p.code call).run (p.acquire entry)).2 shared

theorem Entered.ends {own : ι → γ} {i : ι} {call : κ} {entry shared final : σ} {rest : Code σ ρ}
    {result : ρ} (entered : p.Entered start own i call entry rest shared)
    (ended : p.Ends own i call entry result final) :
    p.Serial start (final, update own i (p.finish call result (own i))) := by
  obtain ⟨rfl, moved⟩ := ended
  exact (entered.serial.tail (.call i call entered.unlocked entered.allowed)).trans (moved.serial _)

variable (p) in
/-- The lock is held by nobody, or by the one processor that is in its critical section. -/
inductive Holder (start : σ × (ι → γ)) (m : Processors ι σ κ ρ γ) : Prop
  | nobody (quiet : ∀ i, ¬ m.Critical i) (reached : p.Serial start (m.shared, p.settled m))
  | processor (i : ι) (call : κ) (entry : σ) (rest : Code σ ρ) (running : rest.Running)
      (inside : m.activity i = .inside call rest) (alone : ∀ j ≠ i, ¬ m.Critical j)
      (entered : p.Entered start (p.settled m) i call entry rest m.shared)
      (robust : Robust p.locked (p.Disturbs (p.settled m) i)
        (p.Ends (p.settled m) i call entry) rest m.shared)

variable (p) in
structure Inv (start : σ × (ι → γ)) (m : Processors ι σ κ ρ γ) : Prop where
  waiting : ∀ i call, m.activity i = .waiting call → p.allowed call (m.own i)
  holder : p.Holder start m

section Steps

variable {m m' : Processors ι σ κ ρ γ} {i : ι} {call : κ}

section Settled

omit [DecidableEq ι]

theorem settled_congr (activity : m'.activity i = m.activity i) (own : m'.own i = m.own i) :
    p.settled m' i = p.settled m i := by
  rw [settled, settled, activity, own]

theorem settled_eq_own (quiet : ∀ call rest, m.activity i ≠ .inside call rest) :
    p.settled m i = m.own i := by
  rw [settled]
  split
  · rename_i call result inside
    exact absurd inside (quiet call _)
  · rfl

theorem settled_of_running {rest : Code σ ρ} (running : rest.Running)
    (inside : m.activity i = .inside call rest) : p.settled m i = m.own i := by
  cases rest with
  | ret result => cases running
  | step effect next => rw [settled, inside]

end Settled

theorem settled_call (idle : m.activity i = .idle) :
    p.settled (m.setActivity i (.waiting call)) = p.settled m := by
  funext j
  by_cases self : j = i
  · subst self
    rw [settled_eq_own (by simp), settled_eq_own (by simp [idle])]
    rfl
  · exact settled_congr (Processors.setActivity_of_ne m self _) rfl

theorem settled_leave {result : ρ} (inside : m.activity i = .inside call (.ret result)) :
    p.settled { m.setActivity i .idle with
      own := update m.own i (p.finish call result (m.own i)) } = p.settled m := by
  funext j
  by_cases self : j = i
  · subst self
    rw [settled_eq_own (by simp), settled, inside]
    exact update_self j _ m.own
  · exact settled_congr (Processors.setActivity_of_ne m self _) (update_of_ne self _ m.own)

/-- A processor is given the code of a call: it is in its critical section, or at its end. -/
theorem Holder.install {rest : Code σ ρ} {own : ι → γ} (inside : m.activity i = .inside call rest)
    (alone : ∀ j ≠ i, ¬ m.Critical j) (others : ∀ j ≠ i, p.settled m j = own j)
    (same : m.own i = own i) {entry : σ} (entered : p.Entered start own i call entry rest m.shared)
    (robust : Robust p.locked (p.Disturbs own i) (p.Ends own i call entry) rest m.shared) :
    p.Holder start m := by
  have settles : p.settled m = update own i (p.settled m i) := by
    funext j
    by_cases self : j = i
    · rw [self, update_self]
    · rw [update_of_ne self, others j self]
  cases rest with
  | ret result =>
      refine .nobody ?_ ?_
      · intro j critical
        by_cases self : j = i
        · obtain ⟨_, _, activity, running⟩ := critical
          rw [self, inside] at activity
          cases activity
          exact running
        · exact alone j self critical
      · have ended : p.settled m i = p.finish call result (own i) := by
          rw [settled, inside, same]
        rw [settles, ended]
        exact entered.ends robust
  | step effect next =>
      have running : (Code.step effect next).Running := trivial
      have unsettled : p.settled m = own := by
        rw [settles, settled_of_running running inside, same, update_eq_self]
      refine .processor i call entry _ running inside alone ?_ ?_
      · rw [unsettled]
        exact entered
      · rw [unsettled]
        exact robust

theorem Holder.locked (holder : p.Holder start m) (critical : m.Critical i) :
    p.locked m.shared = true ∧ ∀ j ≠ i, ¬ m.Critical j := by
  cases holder with
  | nobody quiet reached => exact absurd critical (quiet i)
  | processor j call entry rest running inside alone entered robust =>
      have same : i = j := by
        by_contra other
        exact alone i other critical
      rw [same]
      exact ⟨robust.held running fun _ => .refl, alone⟩

/-- While the lock is free nobody is in a critical section, and the calls so far are serial. -/
theorem Holder.serial (holder : p.Holder start m) (unlocked : p.locked m.shared = false) :
    (∀ i, ¬ m.Critical i) ∧ p.Serial start (m.shared, p.settled m) := by
  cases holder with
  | nobody quiet reached => exact ⟨quiet, reached⟩
  | processor i call entry rest running inside alone entered robust =>
      have held := robust.held running fun _ => .refl
      rw [unlocked] at held
      cases held

theorem Holder.known (holder : p.Holder start m) :
    ∃ shared, p.Serial start (shared, p.settled m) := by
  cases holder with
  | nobody quiet reached => exact ⟨m.shared, reached⟩
  | processor i call entry rest running inside alone entered robust => exact ⟨entry, entered.serial⟩

/-- A step that changes neither the shared state nor what the processors know. -/
theorem Holder.congr (holder : p.Holder start m) (shared : m'.shared = m.shared)
    (settled : p.settled m' = p.settled m)
    (inside : ∀ j call rest, rest.Running →
      (m'.activity j = .inside call rest ↔ m.activity j = .inside call rest)) :
    p.Holder start m' := by
  have critical : ∀ j, m'.Critical j → m.Critical j := by
    rintro j ⟨call, rest, activity, running⟩
    exact ⟨call, rest, (inside j call rest running).mp activity, running⟩
  cases holder with
  | nobody quiet reached =>
      refine .nobody (fun j within => quiet j (critical j within)) ?_
      rw [shared, settled]
      exact reached
  | processor i call entry rest running activity alone entered robust =>
      refine .processor i call entry rest running ((inside i call rest running).mpr activity)
        (fun j other within => alone j other (critical j within)) ?_ ?_
      · rw [shared, settled]
        exact entered
      · rw [shared, settled]
        exact robust

/-- A processor without the lock acts. -/
theorem Holder.outside (holder : p.Holder start m) (idle : m.activity i = .idle) {shared : σ}
    (acts : p.outside (m.own i) m.shared shared) :
    p.Holder start { m with shared := shared } := by
  have before : p.settled m i = m.own i := settled_eq_own (by simp [idle])
  have settles : p.settled { m with shared := shared } = p.settled m := rfl
  rw [← before] at acts
  cases holder with
  | nobody quiet reached => exact .nobody quiet (reached.tail (.outside i acts))
  | processor j call entry rest running inside alone entered robust =>
      have other : i ≠ j := by
        rintro rfl
        rw [idle] at inside
        cases inside
      have moved : p.Disturbs (p.settled m) j m.shared shared := .single ⟨i, other, acts⟩
      refine .processor j call entry rest running inside alone ?_ ?_
      · exact { entered with progress := entered.progress.disturbed (fun _ _ _ => .trans) moved }
      · exact robust.disturbed running (fun _ _ _ => .trans) moved

/-- What one step preserves. -/
theorem Inv.step (rules : p.Rules good) (holds : good start) (inv : p.Inv start m)
    (step : p.Step m m') : p.Inv start m' := by
  cases step with
  | call i call idle allowed =>
      constructor
      · intro j pending waits
        by_cases self : j = i
        · subst self
          rw [Processors.setActivity_self, Activity.waiting.injEq] at waits
          exact waits ▸ allowed
        · rw [Processors.setActivity_of_ne m self] at waits
          exact inv.waiting j pending waits
      · refine inv.holder.congr rfl (settled_call idle) ?_
        intro j pending rest running
        by_cases self : j = i
        · subst self
          simp [idle]
        · rw [Processors.setActivity_of_ne m self]
  | spin i call waiting taken => exact inv
  | enter i call waiting unlocked =>
      obtain ⟨quiet, reached⟩ := inv.holder.serial unlocked
      have own : p.settled m i = m.own i := settled_eq_own (by simp [waiting])
      have allowed : p.allowed call (p.settled m i) := own ▸ inv.waiting i call waiting
      constructor
      · intro j pending waits
        obtain ⟨-, waits⟩ := Processors.waiting_of_setActivity (by simp) waits
        exact inv.waiting j pending waits
      · refine Holder.install (Processors.setActivity_self m i _) ?_ ?_ own.symm
          ⟨reached, unlocked, allowed, .refl .refl⟩ ?_
        · exact fun j other critical =>
            quiet j (Processors.critical_of_setActivity other critical)
        · exact fun j other => settled_congr (Processors.setActivity_of_ne m other _) rfl
        · have insensitive := rules.insensitive (rules.serial holds reached) unlocked allowed
          exact insensitive.robust (fun _ moved => ⟨rfl, moved⟩) (fun _ _ _ => .trans) .refl
  | work i call effect next inside =>
      have running : (Code.step effect next).Running := trivial
      have critical : m.Critical i := ⟨call, _, inside, running⟩
      have alone := (inv.holder.locked critical).2
      have own : p.settled m i = m.own i := settled_of_running running inside
      constructor
      · intro j pending waits
        obtain ⟨-, waits⟩ := Processors.waiting_of_setActivity (by simp) waits
        exact inv.waiting j pending waits
      · cases inv.holder with
        | nobody quiet reached => exact absurd critical (quiet i)
        | processor j pending entry rest _ activity others entered robust =>
            have same : i = j := by
              by_contra other
              exact others i other critical
            subst same
            rw [inside] at activity
            cases activity
            refine Holder.install (Processors.setActivity_self m i _) ?_ ?_ own.symm
              { entered with progress := entered.progress.tail fun _ => .refl } (robust _ .refl).2
            · exact fun j other critical =>
                alone j other (Processors.critical_of_setActivity other critical)
            · exact fun j other => settled_congr (Processors.setActivity_of_ne m other _) rfl
  | leave i call result inside =>
      constructor
      · intro j pending waits
        obtain ⟨other, waits⟩ := Processors.waiting_of_setActivity (by simp) waits
        simp only [update_of_ne other]
        exact inv.waiting j pending waits
      · refine inv.holder.congr rfl (settled_leave inside) ?_
        intro j pending rest running
        by_cases self : j = i
        · subst self
          rw [inside]
          constructor
          · simp
          · rintro ⟨⟩
            cases running
        · exact Iff.of_eq (congrArg (· = _) (Processors.setActivity_of_ne m self .idle))
  | outside i shared idle acts => exact ⟨inv.waiting, inv.holder.outside idle acts⟩

/-! ## Runs -/

/-- Nobody has called yet. -/
theorem Inv.idle (shared : σ) (own : ι → γ) : p.Inv (shared, own) (.idle shared own) where
  waiting _ _ waits := nomatch waits
  holder := by
    refine .nobody ?_ .refl
    rintro i ⟨call, rest, inside, -⟩
    cases inside

/-- What a run preserves. -/
theorem Inv.steps (rules : p.Rules good) (holds : good start) (inv : p.Inv start m)
    (run : p.Steps m m') : p.Inv start m' := by
  induction run with
  | refl => exact inv
  | tail _ step ih => exact ih.step rules holds step

/-- What a processor has still to do is a part of the code of its call. -/
theorem Steps.each {fine : (σ → σ) → Prop} (each : ∀ call, (p.code call).Each fine)
    {shared : σ} {own : ι → γ} (run : p.Steps (.idle shared own) m) {rest : Code σ ρ}
    (inside : m.activity i = .inside call rest) : rest.Each fine := by
  induction run generalizing i call rest with
  | refl => cases inside
  | @tail middle after _ step ih =>
      cases step with
      | call j pending idle allowed =>
          by_cases self : i = j
          · rw [self, Processors.setActivity_self] at inside
            cases inside
          · rw [Processors.setActivity_of_ne middle self] at inside
            exact ih inside
      | spin => exact ih inside
      | enter j pending waiting unlocked =>
          by_cases self : i = j
          · simp only [self, Processors.setActivity_self, Activity.inside.injEq] at inside
            exact inside.2 ▸ each pending
          · simp only [Processors.setActivity_of_ne middle self] at inside
            exact ih inside
      | work j pending effect next before =>
          by_cases self : i = j
          · simp only [self, Processors.setActivity_self, Activity.inside.injEq] at inside
            exact inside.2 ▸ (ih before).2 middle.shared
          · simp only [Processors.setActivity_of_ne middle self] at inside
            exact ih inside
      | leave j pending result before =>
          by_cases self : i = j
          · simp [self] at inside
          · simp only [Processors.setActivity_of_ne middle self] at inside
            exact ih inside
      | outside => exact ih inside

/-- At most one processor is in its critical section, and it has the lock. -/
theorem Inv.exclusion (inv : p.Inv start m) {j : ι} (first : m.Critical i)
    (second : m.Critical j) : i = j ∧ p.locked m.shared = true := by
  obtain ⟨held, alone⟩ := inv.holder.locked first
  refine ⟨?_, held⟩
  by_contra other
  exact alone j (Ne.symm other) second

/-- While nobody is in a critical section, the calls so far are serial. -/
theorem Inv.serial (inv : p.Inv start m) (quiet : ∀ i, ¬ m.Critical i) :
    p.Serial start (m.shared, p.settled m) := by
  cases inv.holder with
  | nobody _ reached => exact reached
  | processor i call entry rest running inside alone entered robust =>
      exact absurd ⟨call, rest, inside, running⟩ (quiet i)

/-- When a processor is in its critical section, then the calls are serial up to its own, which
it completes as if it were alone. -/
theorem Inv.entered_critical (inv : p.Inv start m) {rest : Code σ ρ} (running : rest.Running)
    (inside : m.activity i = .inside call rest) :
    ∃ entry, p.Entered start (p.settled m) i call entry rest m.shared ∧
      p.Ends (p.settled m) i call entry (rest.run m.shared).1 (rest.run m.shared).2 := by
  have critical : m.Critical i := ⟨call, rest, inside, running⟩
  cases inv.holder with
  | nobody quiet reached => exact absurd critical (quiet i)
  | processor j pending entry code _ activity alone entered robust =>
      have same : i = j := by
        by_contra other
        exact alone i other critical
      subst same
      rw [inside] at activity
      cases activity
      exact ⟨entry, entered, robust.run fun _ => .refl⟩

/-! ## Progress -/

/-- A processor runs the code of its call to its end. -/
theorem Steps.complete {rest : Code σ ρ} (inside : m.activity i = .inside call rest) :
    p.Steps m { m.setActivity i (.inside call (.ret (rest.run m.shared).1)) with
      shared := (rest.run m.shared).2 } := by
  induction rest generalizing m with
  | ret result =>
      have same : m.setActivity i (.inside call (.ret result)) = m := by
        rw [Processors.setActivity, ← inside, update_eq_self]
      simp only [Code.run_ret, same]
      exact .refl
  | step effect next ih =>
      have first := Step.work (p := p) i call effect next inside
      have rest := @ih m.shared
        { m.setActivity i (.inside call (next m.shared)) with shared := effect m.shared }
        (Processors.setActivity_self m i _)
      refine .head first ?_
      simpa [Processors.setActivity, Steps] using rest

/-- A waiting processor can have its call served while the lock is free. -/
theorem Steps.served (waiting : m.activity i = .waiting call)
    (unlocked : p.locked m.shared = false) :
    p.Steps m { m.setActivity i .idle with
      shared := ((p.code call).run (p.acquire m.shared)).2
      own := update m.own i
        (p.finish call ((p.code call).run (p.acquire m.shared)).1 (m.own i)) } := by
  have entered := Step.enter (p := p) i call waiting unlocked
  have completed := Steps.complete (p := p)
    (m := { m.setActivity i (.inside call (p.code call)) with shared := p.acquire m.shared })
    (Processors.setActivity_self m i _)
  refine .trans (.head entered completed) (.single ?_)
  have left := Step.leave (p := p) i call _ (Processors.setActivity_self
    { m.setActivity i (.inside call (p.code call)) with
      shared := ((p.code call).run (p.acquire m.shared)).2 } i
    (.inside call (.ret ((p.code call).run (p.acquire m.shared)).1)))
  simpa [Processors.setActivity] using left

/-- Nobody is in a critical section, and yet the lock is taken. -/
structure Dead (p : LockProtocol σ κ ρ γ) (m : Processors ι σ κ ρ γ) : Prop where
  quiet : ∀ i, ¬ m.Critical i
  locked : p.locked m.shared = true

/-- A lock that a call has kept is never released, and nobody learns anything any more. -/
theorem Dead.step (rules : p.Rules good) (dead : p.Dead m) (step : p.Step m m') :
    p.Dead m' ∧ p.settled m' = p.settled m ∧
      ∀ i call, m.activity i = .waiting call → m'.activity i = .waiting call := by
  cases step with
  | call i call idle allowed =>
      refine ⟨⟨?_, dead.locked⟩, settled_call idle, ?_⟩
      · intro j critical
        by_cases self : j = i
        · obtain ⟨_, _, inside, -⟩ := critical
          rw [self, Processors.setActivity_self] at inside
          cases inside
        · exact dead.quiet j (Processors.critical_of_setActivity self critical)
      · intro j pending waits
        have other : j ≠ i := by
          rintro rfl
          rw [idle] at waits
          cases waits
        rwa [Processors.setActivity_of_ne m other]
  | spin i call waiting taken => exact ⟨dead, rfl, fun _ _ waits => waits⟩
  | enter i call waiting unlocked => exact absurd dead.locked (by rw [unlocked]; simp)
  | work i call effect next inside =>
      exact absurd ⟨call, _, inside, trivial⟩ (dead.quiet i)
  | leave i call result inside =>
      refine ⟨⟨?_, dead.locked⟩, settled_leave inside, ?_⟩
      · intro j critical
        by_cases self : j = i
        · obtain ⟨_, _, activity, -⟩ := critical
          simp [self] at activity
        · exact dead.quiet j (Processors.critical_of_setActivity self critical)
      · intro j pending waits
        have other : j ≠ i := by
          rintro rfl
          rw [inside] at waits
          cases waits
        simpa [other] using waits
  | outside i shared idle acts =>
      exact ⟨⟨dead.quiet, (rules.locked_outside acts).trans dead.locked⟩, rfl,
        fun _ _ waits => waits⟩

theorem Dead.steps (rules : p.Rules good) (dead : p.Dead m) (run : p.Steps m m') :
    p.Dead m' ∧ p.settled m' = p.settled m ∧
      ∀ i call, m.activity i = .waiting call → m'.activity i = .waiting call := by
  induction run with
  | refl => exact ⟨dead, rfl, fun _ _ waits => waits⟩
  | tail _ step ih =>
      obtain ⟨middle, same, waits⟩ := ih
      obtain ⟨next, alsoSame, further⟩ := middle.step rules step
      exact ⟨next, alsoSame.trans same,
        fun i call pending => further i call (waits i call pending)⟩

end Steps

end LockProtocol

end Lord84.Theory
