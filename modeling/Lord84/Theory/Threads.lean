import Lord84.Theory.SpinLock

/-!
# Threads that rely on each other

Threads work on a shared state, one access after the other and in any order.  A thread is checked
by itself: under whatever the others may do before each of its accesses, its own accesses are such
as the others allow for.  Then all of this holds in every interleaving.
-/

namespace Lord84.Theory

variable {ι σ τ α β : Type}

/-! ## One thread -/

/-- A thread waits for one condition after the other, each time with an effect when it goes on,
and then runs its code. -/
inductive Thread (σ α : Type) where
  | runs (code : Code σ α)
  | await (ready : σ → Bool) (effect : σ → σ) (next : Thread σ α)

/-- Code for a part of a larger state. -/
def Code.within (part : τ → σ) (put : σ → τ → τ) : Code σ α → Code τ α
  | .ret result => .ret result
  | .step effect next =>
      .step (fun state => put (effect (part state)) state) fun state =>
        (next (part state)).within part put

section Relies

variable (rely guarantee : σ → σ → Prop) (waiting during : σ → Prop) (post : α → σ → Prop)

/-- The others may move the state before each access.  Then `during` holds, the access is one the
code guarantees, and at the end `post` holds and stays so. -/
def Code.Relies : Code σ α → σ → Prop
  | .ret result, state => ∀ moved, rely state moved → post result moved
  | .step effect next, state => ∀ moved, rely state moved →
      during moved ∧ guarantee moved (effect moved) ∧ (next moved).Relies (effect moved)

/-- The same for a thread; `waiting` holds as long as it waits. -/
def Thread.Relies : Thread σ α → σ → Prop
  | .runs code, state => code.Relies rely guarantee during post state
  | .await ready effect next, state => ∀ moved, rely state moved →
      waiting moved ∧ (ready moved = true →
        guarantee moved (effect moved) ∧ next.Relies (effect moved))

variable {rely guarantee waiting during post} {code : Code σ α} {state reached : σ}
variable (refl : ∀ state, rely state state)
variable (trans : ∀ first second third, rely first second → rely second third → rely first third)

include trans

theorem Code.Relies.moved (relies : code.Relies rely guarantee during post state)
    (moves : rely state reached) : code.Relies rely guarantee during post reached := by
  cases code with
  | ret result => exact fun later further => relies later (trans _ _ _ moves further)
  | step effect next => exact fun later further => relies later (trans _ _ _ moves further)

theorem Thread.Relies.moved {thread : Thread σ α}
    (relies : thread.Relies rely guarantee waiting during post state)
    (moves : rely state reached) :
    thread.Relies rely guarantee waiting during post reached := by
  cases thread with
  | runs code => exact Code.Relies.moved trans relies moves
  | await ready effect next => exact fun later further => relies later (trans _ _ _ moves further)

omit trans

theorem Code.Relies.weaken {weaker : α → σ → Prop}
    (relies : code.Relies rely guarantee during post state)
    (implies : ∀ result ended, post result ended → weaker result ended) :
    code.Relies rely guarantee during weaker state := by
  induction code generalizing state with
  | ret result => exact fun moved moves => implies result moved (relies moved moves)
  | step effect next ih =>
      intro moved moves
      obtain ⟨holds, allowed, after⟩ := relies moved moves
      exact ⟨holds, allowed, ih moved after⟩

include refl

/-- Alone the code stays within what it guarantees. -/
theorem Code.Relies.run (relies : code.Relies rely guarantee during post state)
    (same : ∀ state, guarantee state state)
    (chain : ∀ first second third, guarantee first second → guarantee second third →
      guarantee first third) : guarantee state (code.run state).2 := by
  induction code generalizing state with
  | ret result => exact same state
  | step effect next ih =>
      obtain ⟨-, allowed, after⟩ := relies state (refl state)
      exact chain _ _ _ allowed (ih state after)

/-- Two pieces of code, one after the other. -/
theorem Code.Relies.bind {between : β → σ → Prop} {first : Code σ β} {rest : β → Code σ α}
    (relies : first.Relies rely guarantee during between state)
    (continues : ∀ result ended, between result ended →
      (rest result).Relies rely guarantee during post ended) :
    (first >>= rest).Relies rely guarantee during post state := by
  induction first generalizing state with
  | ret result => exact continues result state (relies state (refl state))
  | step effect next ih =>
      intro moved moves
      obtain ⟨holds, allowed, after⟩ := relies moved moves
      exact ⟨holds, allowed, ih moved after⟩

omit refl

theorem Code.Relies.read_bind {part : σ → β} {rest : β → Code σ α}
    (each : ∀ moved, rely state moved → during moved ∧ guarantee moved moved ∧
      (rest (part moved)).Relies rely guarantee during post moved) :
    (Code.read part >>= rest).Relies rely guarantee during post state :=
  each

theorem Code.Relies.write_bind {effect : σ → σ} {rest : Unit → Code σ α}
    (each : ∀ moved, rely state moved → during moved ∧ guarantee moved (effect moved) ∧
      (rest ()).Relies rely guarantee during post (effect moved)) :
    (Code.write effect >>= rest).Relies rely guarantee during post state :=
  each

/-- What holds of code for a part of the state holds of it within the whole. -/
theorem Code.Relies.within {part : τ → σ} {put : σ → τ → τ} {whole : τ}
    {relyAll guaranteeAll : τ → τ → Prop} {duringAll : τ → Prop} {postAll : α → τ → Prop}
    (known : τ → Prop)
    (relies : code.Relies rely guarantee during post (part whole))
    (keeps : ∀ before after, known before → relyAll before after →
      known after ∧ rely (part before) (part after))
    (inside : ∀ state, known state → during (part state) → duringAll state)
    (puts : ∀ state next, known state → duringAll state → guarantee (part state) next →
      guaranteeAll state (put next state) ∧ known (put next state) ∧ part (put next state) = next)
    (ends : ∀ result state, known state → post result (part state) → postAll result state)
    (holds : known whole) :
    (code.within part put).Relies relyAll guaranteeAll duringAll postAll whole := by
  induction code generalizing whole with
  | ret result =>
      intro moved moves
      obtain ⟨still, related⟩ := keeps whole moved holds moves
      exact ends result moved still (relies (part moved) related)
  | step effect next ih =>
      intro moved moves
      obtain ⟨still, related⟩ := keeps whole moved holds moves
      obtain ⟨held, allowed, after⟩ := relies (part moved) related
      have duringMoved := inside moved still held
      obtain ⟨allowedAll, knownNext, same⟩ := puts moved _ still duringMoved allowed
      exact ⟨duringMoved, allowedAll, ih (part moved) (by rwa [same]) knownNext⟩

end Relies

/-! ## All threads -/

/-- The shared state and what each thread has still to do. -/
structure Threads (ι σ α : Type) where
  shared : σ
  thread : ι → Thread σ α

namespace Threads

variable [DecidableEq ι]

/-- A thread has made one access. -/
def advance (m : Threads ι σ α) (i : ι) (shared : σ) (thread : Thread σ α) : Threads ι σ α where
  shared := shared
  thread := Function.update m.thread i thread

/-- One access of one thread. -/
inductive Step : Threads ι σ α → Threads ι σ α → Prop
  | access {m : Threads ι σ α} (i : ι) {effect : σ → σ} {next : σ → Code σ α}
      (runs : m.thread i = .runs (.step effect next)) :
      Step m (m.advance i (effect m.shared) (.runs (next m.shared)))
  | enter {m : Threads ι σ α} (i : ι) {ready : σ → Bool} {effect : σ → σ} {next : Thread σ α}
      (waits : m.thread i = .await ready effect next) (holds : ready m.shared = true) :
      Step m (m.advance i (effect m.shared) next)

/-- Any interleaving. -/
def Steps : Threads ι σ α → Threads ι σ α → Prop :=
  Relation.ReflTransGen Step

/-- What each thread guarantees is what the others rely on. -/
structure Compatible (rely guarantee : ι → σ → σ → Prop) : Prop where
  refl : ∀ i state, rely i state state
  trans : ∀ i first second third, rely i first second → rely i second third → rely i first third
  others : ∀ i j before after, i ≠ j → guarantee i before after → rely j before after

variable {rely guarantee : ι → σ → σ → Prop} {waiting during : ι → σ → Prop}
variable {post : ι → α → σ → Prop} {m m' : Threads ι σ α}

/-- Every thread does what is relied on. -/
def Relies (rely guarantee : ι → σ → σ → Prop) (waiting during : ι → σ → Prop)
    (post : ι → α → σ → Prop) (m : Threads ι σ α) : Prop :=
  ∀ i, (m.thread i).Relies (rely i) (guarantee i) (waiting i) (during i) (post i) m.shared

theorem Relies.advance (compatible : Compatible rely guarantee)
    (relies : m.Relies rely guarantee waiting during post)
    {i : ι} {shared : σ} {thread : Thread σ α}
    (allowed : guarantee i m.shared shared)
    (next : thread.Relies (rely i) (guarantee i) (waiting i) (during i) (post i) shared) :
    (m.advance i shared thread).Relies rely guarantee waiting during post := by
  intro j
  by_cases same : j = i
  · subst same
    simpa only [Threads.advance, Function.update_self] using next
  · simp only [Threads.advance, Function.update_of_ne same]
    exact (relies j).moved (compatible.trans j) (compatible.others i j _ _ (Ne.symm same) allowed)

theorem Relies.step (compatible : Compatible rely guarantee)
    (relies : m.Relies rely guarantee waiting during post) (step : Step m m') :
    m'.Relies rely guarantee waiting during post ∧ ∃ i, guarantee i m.shared m'.shared := by
  cases step with
  | access i runs =>
      have mine := relies i
      rw [runs] at mine
      obtain ⟨-, allowed, next⟩ := mine m.shared (compatible.refl i _)
      exact ⟨relies.advance compatible allowed next, i, allowed⟩
  | enter i waits holds =>
      have mine := relies i
      rw [waits] at mine
      obtain ⟨allowed, next⟩ := (mine m.shared (compatible.refl i _)).2 holds
      exact ⟨relies.advance compatible allowed next, i, allowed⟩

/-- In every interleaving the threads stay within what they guarantee. -/
theorem Relies.steps (compatible : Compatible rely guarantee)
    (relies : m.Relies rely guarantee waiting during post) (steps : Steps m m') :
    m'.Relies rely guarantee waiting during post ∧
      Relation.ReflTransGen (fun before after => ∃ i, guarantee i before after)
        m.shared m'.shared := by
  induction steps with
  | refl => exact ⟨relies, .refl⟩
  | tail before step ih =>
      obtain ⟨next, allowed⟩ := ih.1.step compatible step
      exact ⟨next, ih.2.tail allowed⟩

omit [DecidableEq ι] in
theorem Relies.finished (compatible : Compatible rely guarantee)
    (relies : m.Relies rely guarantee waiting during post) {i : ι} {result : α}
    (done : m.thread i = .runs (.ret result)) : post i result m.shared := by
  have mine := relies i
  rw [done] at mine
  exact mine m.shared (compatible.refl i _)

omit [DecidableEq ι] in
theorem Relies.running (compatible : Compatible rely guarantee)
    (relies : m.Relies rely guarantee waiting during post) {i : ι} {code : Code σ α}
    (runs : m.thread i = .runs code) (running : code.Running) : during i m.shared := by
  have mine := relies i
  rw [runs] at mine
  cases code with
  | ret result => cases running
  | step effect next => exact (mine m.shared (compatible.refl i _)).1

omit [DecidableEq ι] in
theorem Relies.awaiting (compatible : Compatible rely guarantee)
    (relies : m.Relies rely guarantee waiting during post) {i : ι} {ready : σ → Bool}
    {effect : σ → σ} {next : Thread σ α} (waits : m.thread i = .await ready effect next) :
    waiting i m.shared := by
  have mine := relies i
  rw [waits] at mine
  exact (mine m.shared (compatible.refl i _)).1

/-- Threads that have nothing to wait for never wait. -/
theorem Steps.runs (steps : Steps m m') (all : ∀ i, ∃ code, m.thread i = .runs code) (i : ι) :
    ∃ code, m'.thread i = .runs code := by
  induction steps generalizing i with
  | refl => exact all i
  | tail before step ih =>
      cases step with
      | access j runs =>
          by_cases same : i = j
          · subst same
            exact ⟨_, Function.update_self ..⟩
          · simpa only [advance, Function.update_of_ne same] using ih i
      | enter j waits =>
          obtain ⟨code, runs⟩ := ih j
          rw [runs] at waits
          cases waits

/-- A thread that has finished keeps its result. -/
theorem Steps.finished (steps : Steps m m') {i : ι} {result : α}
    (done : m.thread i = .runs (.ret result)) : m'.thread i = .runs (.ret result) := by
  induction steps with
  | refl => exact done
  | tail before step ih =>
      cases step with
      | access j runs =>
          have other : i ≠ j := by
            rintro rfl
            rw [ih] at runs
            cases runs
          simpa only [advance, Function.update_of_ne other] using ih
      | enter j waits =>
          have other : i ≠ j := by
            rintro rfl
            rw [ih] at waits
            cases waits
          simpa only [advance, Function.update_of_ne other] using ih

/-- A thread that has nothing to wait for can finish alone. -/
theorem Steps.complete {i : ι} {code : Code σ α} (runs : m.thread i = .runs code) :
    Steps m (m.advance i (code.run m.shared).2 (.runs (.ret (code.run m.shared).1))) := by
  induction code generalizing m with
  | ret result =>
      have same : m.advance i m.shared (.runs (.ret result)) = m := by
        rw [advance, ← runs, Function.update_eq_self]
      rw [Code.run_ret, same]
      exact .refl
  | step effect next ih =>
      have rest := ih m.shared
        (m := m.advance i (effect m.shared) (.runs (next m.shared))) (Function.update_self ..)
      simp only [advance, Function.update_idem] at rest
      exact .head (.access i runs) rest

end Threads

end Lord84.Theory
