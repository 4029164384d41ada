import Lord84.Hal.IdtRun
import Lord84.Theory.SpinLock

/-!
# Registering interrupt handlers on several processors

The IDT and `irq_list` are one for all processors.  Here `register_irq` and
`register_irq_vector` run access by access between `acquire_lock` and `free_lock`: the search
reads one flag after the other, and a gate is written field by field.  `s_load_idt`, which one
function calls before `free_lock` and the other behind it, concerns its own processor only.
-/

namespace Lord84

open Theory Function

/-! ## The code -/

/-- Write a field of a gate. -/
def writeGate (vector : BitVec 8) (field : IdtDescriptor → IdtDescriptor) : Code IdtState Unit :=
  Code.write fun s => { s with idt := update s.idt vector (field (s.idt vector)) }

/-- Write a field of an entry of `irq_list`. -/
def writeIrq (i : Nat) (field : Irq → Irq) : Code IdtState Unit :=
  Code.write fun s => { s with irqList := update s.irqList i (field (s.irqList i)) }

/-- `free_lock(&irq_register_lock)` -/
def freeIrqLock : Code IdtState Unit :=
  Code.write fun s => { s with irqRegisterLock := false }

/-- `set_idt_descriptor` -/
def setIdtDescriptorCode (vector : BitVec 8) (base : Word) (flags : BitVec 8) :
    Code IdtState Unit := do
  writeGate vector fun gate => { gate with offsetLow := (base &&& 0xffff).setWidth 16 }
  writeGate vector fun gate => { gate with segmentSel := 0x08 }
  writeGate vector fun gate => { gate with ist := 0 }
  writeGate vector fun gate => { gate with attributes := flags }
  writeGate vector fun gate => { gate with offsetHigh := (base >>> 16 &&& 0xffff).setWidth 16 }
  writeGate vector fun gate =>
    { gate with offsetHigher := (base >>> 32 &&& 0xffffffff).setWidth 32 }
  writeGate vector fun gate => { gate with reserved := 0 }

/-- The loop of `register_irq`, from some vector on. -/
def firstUnusedIrqCode : List Nat → Code IdtState (Option Nat)
  | [] => return none
  | i :: rest => do
      let inUse ← Code.read fun s => (s.irqList i).inUse
      if !inUse then
        return some i
      else
        firstUnusedIrqCode rest

/-- Both functions at the entry they have chosen. -/
def installIrqCode (i : Nat) (base : Word) (flags : BitVec 8) : Code IdtState Unit := do
  setIdtDescriptorCode (BitVec.ofNat 8 i) base flags
  writeIrq i fun irq => { irq with base := base }
  writeIrq i fun irq => { irq with inUse := true }
  freeIrqLock

/-- What the functions return. -/
inductive IrqResult where
  | vector (number : Int)
  | status (status : KStatus)

/-- `register_irq` between `acquire_lock` and its return. -/
def registerIrqCode (base : Word) (flags : BitVec 8) : Code IdtState IrqResult := do
  match ← firstUnusedIrqCode (List.range maxIrq) with
  | some i => do
      installIrqCode i base flags
      return .vector i
  | none => do
      freeIrqLock
      return .vector (-1)

/-- `register_irq_vector` between `acquire_lock` and its return. -/
def registerIrqVectorCode (vector : BitVec 8) (base : Word) (flags : BitVec 8) :
    Code IdtState IrqResult := do
  let inUse ← Code.read fun s => (s.irqList vector.toNat).inUse
  if !inUse then
    freeIrqLock
    return .status .error
  else
    installIrqCode vector.toNat base flags
    return .status .success

/-- The bodies of the two functions. -/
def irqCode : IrqCall → Code IdtState IrqResult
  | .register base flags => registerIrqCode base flags
  | .registerVector vector base flags => registerIrqVectorCode vector base flags

/-- `irq_register_lock` and what it protects.  A processor knows what its calls have returned,
the last one first, and nobody writes to the tables without the lock. -/
def irqProtocol : LockProtocol IdtState IrqCall IrqResult (List (IrqCall × IrqResult)) where
  locked s := s.irqRegisterLock
  acquire s := { s with irqRegisterLock := true }
  code := irqCode
  allowed _ _ := True
  finish call result returned := (call, result) :: returned
  outside _ _ _ := False

section Alone

variable {s : IdtState}

/-! ## A processor alone -/

theorem firstUnusedIrqCode_run (vectors : List Nat) (s : IdtState) :
    (firstUnusedIrqCode vectors).run s =
      (vectors.find? fun i => !(s.irqList i).inUse, s) := by
  induction vectors with
  | nil => rfl
  | cons i vectors ih =>
      rw [firstUnusedIrqCode, Code.read_bind, Code.run_step, List.find?_cons]
      cases (s.irqList i).inUse with
      | false => rfl
      | true => exact ih

theorem setIdtDescriptorCode_run (vector : BitVec 8) (base : Word) (flags : BitVec 8) :
    (setIdtDescriptorCode vector base flags).run s =
      ((), setIdtDescriptor vector base flags s) := by
  simp [setIdtDescriptorCode, writeGate, setIdtDescriptor, descriptor]

theorem installIrqCode_run (i : Nat) (base : Word) (flags : BitVec 8) :
    (installIrqCode i base flags).run s =
      ((), IrqClient.handedOut s i base flags) := by
  rw [installIrqCode, Code.run_bind, setIdtDescriptorCode_run]
  simp [writeIrq, freeIrqLock, IrqClient.handedOut, setIdtDescriptor]

/-- `register_irq` of a processor that is alone with the tables. -/
theorem registerIrqCode_run (unlocked : s.irqRegisterLock = false) (base : Word)
    (flags : BitVec 8) :
    ∃ vector tables, registerIrq base flags s = .done (vector, tables) ∧
      (registerIrqCode base flags).run { s with irqRegisterLock := true } =
        (.vector vector, tables) := by
  rw [registerIrqCode, Code.run_bind, firstUnusedIrqCode_run, registerIrq, unlocked,
    acquireLock_false, Outcome.done_bind]
  dsimp only [firstUnusedIrq]
  cases (List.range maxIrq).find? fun i => !(s.irqList i).inUse with
  | some i =>
      refine ⟨_, _, rfl, ?_⟩
      simp only [Code.run_bind, installIrqCode_run]
      rfl
  | none => exact ⟨_, _, rfl, rfl⟩

/-- `register_irq_vector` of a processor that is alone with the tables. -/
theorem registerIrqVectorCode_run (unlocked : s.irqRegisterLock = false) (vector : BitVec 8)
    (base : Word) (flags : BitVec 8) :
    ∃ status tables, registerIrqVector vector base flags s = .done (status, tables) ∧
      (registerIrqVectorCode vector base flags).run { s with irqRegisterLock := true } =
        (.status status, tables) := by
  cases inUse : (s.irqList vector.toNat).inUse with
  | false =>
      refine ⟨_, _, IrqClient.registerIrqVector_of_free unlocked inUse base flags, ?_⟩
      simp [registerIrqVectorCode, inUse, freeIrqLock, ← unlocked]
  | true =>
      refine ⟨_, _, IrqClient.registerIrqVector_of_inUse unlocked inUse base flags, ?_⟩
      simp only [registerIrqVectorCode, Code.read_bind, Code.run_step, inUse, Bool.not_true,
        Bool.false_eq_true, if_false, Code.run_bind, installIrqCode_run]
      rfl

/-! ## The lock is held -/

theorem firstUnusedIrqCode_holds (vectors : List Nat) (locked : s.irqRegisterLock = true) :
    HoldsLock (fun s => s.irqRegisterLock) (firstUnusedIrqCode vectors) s := by
  induction vectors with
  | nil => trivial
  | cons i vectors ih =>
      refine ⟨locked, ?_⟩
      change HoldsLock _ (if !(s.irqList i).inUse then _ else _) _
      cases (s.irqList i).inUse with
      | false => trivial
      | true => exact ih

theorem installIrqCode_holds (i : Nat) (base : Word) (flags : BitVec 8)
    (locked : s.irqRegisterLock = true) :
    HoldsLock (fun s => s.irqRegisterLock) (installIrqCode i base flags) s :=
  ⟨locked, locked, locked, locked, locked, locked, locked, locked, locked, locked, trivial⟩

/-- Both functions release the lock with their last access. -/
theorem irqCode_holds (call : IrqCall) (locked : s.irqRegisterLock = true) :
    HoldsLock (fun s => s.irqRegisterLock) (irqCode call) s := by
  cases call with
  | register base flags =>
      refine HoldsLock.bind (firstUnusedIrqCode_holds _ locked) ?_
      rw [firstUnusedIrqCode_run]
      cases (List.range maxIrq).find? fun i => !(s.irqList i).inUse with
      | some i => exact HoldsLock.bind (installIrqCode_holds i base flags locked) trivial
      | none => exact ⟨locked, trivial⟩
  | registerVector vector base flags =>
      refine ⟨locked, ?_⟩
      change HoldsLock _ (if !(s.irqList vector.toNat).inUse then _ else _) _
      cases (s.irqList vector.toNat).inUse with
      | false => exact ⟨locked, trivial⟩
      | true =>
          exact HoldsLock.bind (installIrqCode_holds vector.toNat base flags locked) trivial

end Alone

/-! ## One call after the other -/

/-- The vector that a call of `register_irq` has handed out. -/
def IrqResult.handed : IrqResult → Option Int
  | .vector number => if number = -1 then none else some number
  | .status _ => none

/-- The vectors that a processor was handed, the last one first. -/
def handedVectors (returned : List (IrqCall × IrqResult)) : List Int :=
  returned.filterMap fun answer => answer.2.handed

/-- A call as a whole. -/
def IrqCall.execute (s : IdtState) : IrqCall → Outcome (IrqResult × IdtState)
  | .register base flags => do
      let (vector, s) ← registerIrq base flags s
      return (.vector vector, s)
  | .registerVector vector base flags => do
      let (status, s) ← registerIrqVector vector base flags s
      return (.status status, s)

/-- A call of a processor. -/
structure IrqEvent (ι : Type) where
  processor : ι
  call : IrqCall

/-- The sequential functions serve one call as a whole. -/
def IrqEvent.step {ι : Type} [DecidableEq ι]
    (w : IdtState × (ι → List (IrqCall × IrqResult))) (event : IrqEvent ι) :
    Outcome (IdtState × (ι → List (IrqCall × IrqResult))) := do
  let (result, s) ← event.call.execute w.1
  return (s, update w.2 event.processor ((event.call, result) :: w.2 event.processor))

/-- The code of a call does what the sequential function does. -/
theorem irqCode_run {s : IdtState} (unlocked : s.irqRegisterLock = false) (call : IrqCall) :
    call.execute s = .done ((irqCode call).run { s with irqRegisterLock := true }) := by
  cases call with
  | register base flags =>
      obtain ⟨vector, tables, returned, alone⟩ := registerIrqCode_run unlocked base flags
      rw [IrqCall.execute, returned, irqCode, alone]
      rfl
  | registerVector vector base flags =>
      obtain ⟨status, tables, returned, alone⟩ :=
        registerIrqVectorCode_run unlocked vector base flags
      rw [IrqCall.execute, returned, irqCode, alone]
      rfl

/-- `register_irq` on a processor alone, while there is a vector left. -/
theorem IrqClient.Inv.registerIrqCode_room {client : IrqClient} (inv : client.Inv)
    (room : client.returned.length < 224) (base : Word) (flags : BitVec 8) :
    (registerIrqCode base flags).run { client.tables with irqRegisterLock := true } =
      (.vector (32 + client.returned.length : Nat),
        handedOut client.tables (32 + client.returned.length) base flags) := by
  have executed := irqCode_run inv.unlocked (.register base flags)
  rw [IrqCall.execute, inv.registerIrq_room room] at executed
  exact (Outcome.done.inj executed).symm

theorem IrqResult.handed_eq_some {result : IrqResult} {vector : Int} :
    result.handed = some vector ↔ result = .vector vector ∧ vector ≠ -1 := by
  cases result with
  | status status => simp [handed]
  | vector number =>
      rw [handed, Option.ite_none_left_eq_some, Option.some.injEq, IrqResult.vector.injEq]
      constructor
      · rintro ⟨success, rfl⟩
        exact ⟨rfl, success⟩
      · rintro ⟨rfl, success⟩
        exact ⟨success, rfl⟩

/-- A vector that a call hands out was not handed out before. -/
theorem IrqClient.Inv.execute {client : IrqClient} (inv : client.Inv) {call : IrqCall}
    {result : IrqResult} {s : IdtState}
    (executed : call.execute client.tables = .done (result, s)) :
    ∃ next, client.step call = .done next ∧ next.Inv ∧ next.tables = s ∧
      (∀ vector ∈ client.returned, vector ∈ next.returned) ∧
      ∀ vector, result.handed = some vector →
        vector ∈ next.returned ∧ vector ∉ client.returned := by
  obtain ⟨next, stepped, kept⟩ := inv.step call
  refine ⟨next, stepped, kept, ?_⟩
  cases call with
  | register base flags =>
      rw [IrqCall.execute, Outcome.bind_eq_done] at executed
      obtain ⟨⟨number, tables⟩, returned, rest⟩ := executed
      cases rest
      rw [IrqClient.step, returned] at stepped
      cases stepped
      refine ⟨rfl, fun _ => List.mem_append_left _, ?_⟩
      intro vector handed
      obtain ⟨same, success⟩ := IrqResult.handed_eq_some.mp handed
      cases same
      refine ⟨List.mem_append_right _ List.mem_cons_self, ?_⟩
      intro before
      have distinct := kept.sound.distinct
      rw [List.filter_append, List.nodup_append] at distinct
      exact distinct.2.2 number (by simp [before, success]) number (by simp [success]) rfl
  | registerVector vector base flags =>
      rw [IrqCall.execute, Outcome.bind_eq_done] at executed
      obtain ⟨⟨status, tables⟩, returned, rest⟩ := executed
      cases rest
      rw [IrqClient.step, returned] at stepped
      cases stepped
      refine ⟨rfl, fun _ => id, ?_⟩
      intro vector handed
      cases handed

/-! ## All interleavings -/

section Interleavings

variable {ι : Type}

/-- The processors, as far as the registrations are concerned. -/
abbrev IrqProcessors (ι : Type) :=
  Processors ι IdtState IrqCall IrqResult (List (IrqCall × IrqResult))

/-- The processors when `set_idt` has returned. -/
def irqBooted (isr : BitVec 8 → Word) : IrqProcessors ι :=
  .idle (setIdt isr .zeroed) fun _ => []

/-- No vector was handed out twice. -/
structure HandedOnce (client : IrqClient) (returned : ι → List (IrqCall × IrqResult)) :
    Prop where
  mem : ∀ i, ∀ vector ∈ handedVectors (returned i), vector ∈ client.returned ∧ vector ≠ -1
  nodup : ∀ i, (handedVectors (returned i)).Nodup
  apart : ∀ i j, ∀ vector ∈ handedVectors (returned i), vector ∈ handedVectors (returned j) →
    i = j

variable [DecidableEq ι] {isr : BitVec 8 → Word}

theorem handedVectors_cons (answer : IrqCall × IrqResult)
    (returned : List (IrqCall × IrqResult)) :
    handedVectors (answer :: returned) = answer.2.handed.toList ++ handedVectors returned := by
  rw [handedVectors, List.filterMap_cons]
  cases answer.2.handed with
  | none => rfl
  | some vector => rfl

theorem handedVectors_update (returned : ι → List (IrqCall × IrqResult)) (i j : ι)
    (answer : IrqCall × IrqResult) :
    handedVectors (update returned i (answer :: returned i) j) =
      (if j = i then answer.2.handed.toList else []) ++ handedVectors (returned j) := by
  by_cases self : j = i
  · subst self
    rw [update_self, handedVectors_cons, if_pos rfl]
  · rw [update_of_ne self, if_neg self, List.nil_append]

theorem mem_handedVectors_update {returned : ι → List (IrqCall × IrqResult)} {i j : ι}
    {answer : IrqCall × IrqResult} {vector : Int} :
    vector ∈ handedVectors (update returned i (answer :: returned i) j) ↔
      (j = i ∧ answer.2.handed = some vector) ∨ vector ∈ handedVectors (returned j) := by
  rw [handedVectors_update, List.mem_append]
  by_cases self : j = i
  · simp [self]
  · simp [self]

theorem HandedOnce.answer {client next : IrqClient}
    {returned : ι → List (IrqCall × IrqResult)} (once : HandedOnce client returned)
    (kept : ∀ vector ∈ client.returned, vector ∈ next.returned) {answer : IrqCall × IrqResult}
    (fresh : ∀ vector, answer.2.handed = some vector →
      vector ∈ next.returned ∧ vector ∉ client.returned) (i : ι) :
    HandedOnce next (update returned i (answer :: returned i)) where
  mem := by
    intro j vector member
    rcases mem_handedVectors_update.mp member with ⟨rfl, handed⟩ | before
    · exact ⟨(fresh vector handed).1, (IrqResult.handed_eq_some.mp handed).2⟩
    · exact ⟨kept vector (once.mem j vector before).1, (once.mem j vector before).2⟩
  nodup := by
    intro j
    rw [handedVectors_update]
    by_cases self : j = i
    · rw [if_pos self]
      cases handed : answer.2.handed with
      | none => exact once.nodup j
      | some vector =>
          refine List.nodup_cons.mpr ⟨?_, once.nodup j⟩
          exact fun before => (fresh vector handed).2 (once.mem j vector before).1
    · rw [if_neg self]
      exact once.nodup j
  apart := by
    intro j k vector left right
    rcases mem_handedVectors_update.mp left with ⟨rfl, handed⟩ | before
    · rcases mem_handedVectors_update.mp right with ⟨rfl, -⟩ | also
      · rfl
      · exact absurd (once.mem k vector also).1 (fresh vector handed).2
    · rcases mem_handedVectors_update.mp right with ⟨rfl, handed⟩ | also
      · exact absurd (once.mem j vector before).1 (fresh vector handed).2
      · exact once.apart j k vector before also

/-- What the serial runs have in common. -/
def IrqServed (isr : BitVec 8 → Word) (w : IdtState × (ι → List (IrqCall × IrqResult))) :
    Prop :=
  ∃ events client, run IrqEvent.step (setIdt isr .zeroed, fun _ => []) events = .done w ∧
    run IrqClient.step (.start isr) (events.map IrqEvent.call) = .done client ∧
    client.tables = w.1 ∧ client.Inv ∧ HandedOnce client w.2

theorem irqServed_start : @IrqServed ι _ isr (setIdt isr .zeroed, fun _ => []) := by
  refine ⟨[], .start isr, rfl, rfl, rfl, IrqClient.inv_start isr, ?_, ?_, ?_⟩
  · exact fun _ _ member => nomatch member
  · exact fun _ => .nil
  · exact fun _ _ _ member => nomatch member

theorem irqProtocol_rules : irqProtocol.Rules (@IrqServed ι _ isr) where
  step served step := by
    obtain ⟨events, client, finished, alone, tables, inv, once⟩ := served
    cases step with
    | @call s own i call unlocked allowed =>
        have executed := irqCode_run unlocked call
        cases tables
        obtain ⟨next, stepped, kept, tables, more, fresh⟩ := inv.execute executed
        refine ⟨events ++ [⟨i, call⟩], next, ?_, ?_, tables, kept, once.answer more fresh i⟩
        · rw [run_append, finished, Outcome.done_bind, run_cons, IrqEvent.step, executed]
          rfl
        · rw [List.map_append, run_append, alone, Outcome.done_bind, List.map_singleton, run_cons,
            stepped]
          rfl
    | outside i acts => cases acts
  insensitive _ _ _ := by
    refine (irqCode_holds _ rfl).insensitive ?_ fun _ => .refl
    intro before after moved
    refine LockProtocol.Disturbs.same id ?_ moved
    rintro _ _ _ _ ⟨⟩
  locked_outside acts := acts.elim

theorem irq_inv {m : IrqProcessors ι} (run : irqProtocol.Steps (irqBooted isr) m) :
    irqProtocol.Inv (setIdt isr .zeroed, fun _ => []) m :=
  (LockProtocol.Inv.idle _ _).steps irqProtocol_rules irqServed_start run

/-- However the registrations of any number of processors interleave after `set_idt`, one
processor at a time is between `acquire_lock` and `free_lock`, and `register_irq` hands out
different vectors from 32 to 255, also to different processors.  While nobody is between lock
and unlock the lock is free, and the tables and all that the calls have returned are those of
a sequential run of the same calls, which hands vectors out rightly. -/
theorem irq_interleavings_serializable (m : IrqProcessors ι)
    (reached : irqProtocol.Steps (irqBooted isr) m) :
    let handed i := handedVectors (irqProtocol.settled m i)
    (∀ i j, m.Critical i → m.Critical j → i = j ∧ m.shared.irqRegisterLock = true) ∧
      (∀ i, (handed i).Nodup) ∧
      (∀ i j, ∀ vector ∈ handed i, vector ∈ handed j → i = j) ∧
      (∀ i, ∀ vector ∈ handed i, 32 ≤ vector ∧ vector ≤ 255) ∧
      ((∀ i, ¬ m.Critical i) → m.shared.irqRegisterLock = false ∧ ∃ events client,
        run IrqEvent.step (setIdt isr .zeroed, fun _ => []) events =
          .done (m.shared, irqProtocol.settled m) ∧
        run IrqClient.step (.start isr) (events.map IrqEvent.call) = .done client ∧
        client.tables = m.shared ∧ client.Sound) := by
  have inv := irq_inv reached
  obtain ⟨shared, serial⟩ := inv.holder.known
  obtain ⟨_, client, -, -, -, kept, once⟩ := irqProtocol_rules.serial irqServed_start serial
  refine ⟨fun i j => inv.exclusion, once.nodup, once.apart, ?_, ?_⟩
  · intro i vector member
    obtain ⟨returned, success⟩ := once.mem i vector member
    exact kept.sound.range vector returned success
  · intro quiet
    obtain ⟨events, client, finished, alone, tables, kept, -⟩ :=
      irqProtocol_rules.serial irqServed_start (inv.serial quiet)
    have unlocked := kept.unlocked
    rw [tables] at unlocked
    exact ⟨unlocked, events, client, finished, alone, tables, kept.sound⟩

/-- Two processors register a handler each at the same time. -/
theorem irq_interleavings_serializable_two :
    ∃ m : IrqProcessors Bool, irqProtocol.Steps (irqBooted fun _ => 0x1000) m ∧
      handedVectors (irqProtocol.settled m false) = [32] ∧
      handedVectors (irqProtocol.settled m true) = [33] ∧ m.shared.irqRegisterLock = false := by
  let call : IrqCall := .register 0x2000 0x8E
  let asked : IrqProcessors Bool := .setActivity (irqBooted fun _ => 0x1000) false (.waiting call)
  let both := asked.setActivity true (.waiting call)
  have called : irqProtocol.Steps (irqBooted fun _ => 0x1000) both :=
    .tail (.single (.call false call rfl trivial)) (.call true call rfl trivial)
  -- The first one is served while the other waits.
  have inv := IrqClient.inv_start fun _ => 0x1000
  have first := LockProtocol.Steps.served (p := irqProtocol) (m := both) (i := false) rfl
    inv.unlocked
  have handed : (irqProtocol.code call).run (irqProtocol.acquire both.shared) =
      (.vector 32, _) := inv.registerIrqCode_room (by decide) 0x2000 0x8E
  rw [handed] at first
  obtain ⟨next, stepped, kept, -⟩ := inv.register 0x2000 0x8E
  rw [IrqClient.step, inv.registerIrq_room (by decide)] at stepped
  cases stepped
  let between : IrqProcessors Bool := { both.setActivity false .idle with
    shared := IrqClient.handedOut both.shared 32 0x2000 0x8E
    own := update both.own false [(call, .vector 32)] }
  have waiting : between.activity true = .waiting call := rfl
  have second := LockProtocol.Steps.served (p := irqProtocol) waiting kept.unlocked
  have handed : (irqProtocol.code call).run (irqProtocol.acquire between.shared) =
      (.vector 33, _) := kept.registerIrqCode_room (by decide) 0x2000 0x8E
  rw [handed] at second
  have reached := (called.trans first).trans second
  obtain ⟨-, -, -, -, served⟩ := irq_interleavings_serializable _ reached
  refine ⟨_, reached, rfl, rfl, (served ?_).1⟩
  rintro (_ | _) ⟨call, rest, inside, -⟩
  · cases inside
  · cases inside

end Interleavings

end Lord84
