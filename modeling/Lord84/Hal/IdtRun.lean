import Lord84.Hal.Idt
import Mathlib.Data.List.Nodup

/-!
# Registering interrupt handlers

Drivers call `register_irq` and `register_irq_vector` in any order.  The second function
succeeds only on vectors that are in use already, so the vectors in use always form an
initial segment, and the first function hands out 32, 33, 34 and so on.  The bookkeeping
knows nothing of the gates that `set_idt` installs above vector 31.
-/

namespace Lord84

open Theory

/-- A call of a driver. -/
inductive IrqCall where
  | register (base : Word) (flags : BitVec 8)
  | registerVector (vector : BitVec 8) (base : Word) (flags : BitVec 8)

/-- The tables, what `register_irq` has returned so far, and the handler last registered
with success on each vector. -/
structure IrqClient where
  tables : IdtState
  returned : List Int
  handlers : Nat → Option Word

namespace IrqClient

/-- Execute a call and record its result. -/
def step (client : IrqClient) : IrqCall → Outcome IrqClient
  | .register base flags => do
      let (vector, tables) ← registerIrq base flags client.tables
      return {
        tables
        returned := client.returned ++ [vector]
        handlers :=
          if vector = -1 then client.handlers
          else Function.update client.handlers vector.toNat (some base) }
  | .registerVector vector base flags => do
      let (status, tables) ← registerIrqVector vector base flags client.tables
      return { client with
        tables
        handlers :=
          match status with
          | .success => Function.update client.handlers vector.toNat (some base)
          | .error => client.handlers }

/-- After `set_idt`. -/
def start (isr : BitVec 8 → Word) : IrqClient where
  tables := setIdt isr .zeroed
  returned := []
  handlers _ := none

/-- The gate of every vector in use above 31 leads to its handler in `irq_list`, which is the
one last registered on it. -/
def GatesMatch (tables : IdtState) (handlers : Nat → Option Word) : Prop :=
  ∀ vector : BitVec 8, 32 ≤ vector → (tables.irqList vector.toNat).inUse = true →
    (tables.idt vector).offset = (tables.irqList vector.toNat).base ∧
      handlers vector.toNat = some (tables.irqList vector.toNat).base

/-- Vectors are handed out rightly: the successful results of `register_irq` are different
vectors from 32 to 255, the first 224 calls succeed and later ones change nothing, and the
gates match the handlers. -/
structure Sound (client : IrqClient) : Prop where
  distinct : (client.returned.filter (· ≠ -1)).Nodup
  range : ∀ vector ∈ client.returned, vector ≠ -1 → 32 ≤ vector ∧ vector ≤ 255
  first : ∀ k (inside : k < client.returned.length), client.returned[k] ≠ -1 ↔ k < 224
  exhausted : 224 ≤ client.returned.length → ∀ base flags,
    registerIrq base flags client.tables = .done (-1, client.tables)
  gates : GatesMatch client.tables client.handlers

/-! ## The invariant -/

/-- What the `k`-th call of `register_irq` returns. -/
def resultOf (k : Nat) : Int :=
  if k < 224 then 32 + k else -1

/-- The vectors in use are those below 32 and those handed out. -/
structure Inv (client : IrqClient) : Prop where
  unlocked : client.tables.irqRegisterLock = false
  inUse : ∀ i < maxIrq,
    (client.tables.irqList i).inUse = true ↔ i < 32 + client.returned.length
  results : client.returned = (List.range client.returned.length).map resultOf
  gates : GatesMatch client.tables client.handlers

theorem inv_start (isr : BitVec 8 → Word) : (start isr).Inv where
  unlocked := setIdt_lock isr .zeroed
  inUse := by
    intro i _
    simp only [start, setIdt_irqList, List.length_nil, Nat.add_zero]
    split
    next reserved => exact iff_of_true rfl reserved
    next free => exact iff_of_false Bool.false_ne_true free
  results := rfl
  gates := by
    intro vector high inUse
    simp only [start, setIdt_irqList] at inUse
    split at inUse
    next low => exact absurd low (Nat.not_lt.mpr high)
    next => cases inUse

variable {client : IrqClient}

/-- While fewer than 224 vectors are handed out, the search of `register_irq` finds the
next one. -/
theorem Inv.firstUnusedIrq_some (inv : client.Inv) (room : client.returned.length < 224) :
    firstUnusedIrq client.tables.irqList = some (32 + client.returned.length) := by
  have bound : 32 + client.returned.length < maxIrq := by
    rw [maxIrq]
    omega
  unfold firstUnusedIrq
  rw [List.find?_range_eq_some]
  refine ⟨?_, List.mem_range.mpr bound, ?_⟩
  · rw [Bool.not_eq_true', ← Bool.not_eq_true, inv.inUse _ bound]
    omega
  · intro j before
    rw [Bool.not_not, inv.inUse j (by omega)]
    exact before

theorem Inv.firstUnusedIrq_none (inv : client.Inv) (full : 224 ≤ client.returned.length) :
    firstUnusedIrq client.tables.irqList = none := by
  unfold firstUnusedIrq
  rw [List.find?_range_eq_none]
  intro i bound
  rw [Bool.not_not, inv.inUse i bound]
  rw [maxIrq] at bound
  omega

/-- The tables after a vector was handed out. -/
def handedOut (tables : IdtState) (i : Nat) (base : Word) (flags : BitVec 8) : IdtState where
  idt := Function.update tables.idt (BitVec.ofNat 8 i) (descriptor base flags)
  irqList := Function.update tables.irqList i ⟨base, true⟩
  irqRegisterLock := false

theorem Inv.registerIrq_room (inv : client.Inv) (room : client.returned.length < 224)
    (base : Word) (flags : BitVec 8) :
    registerIrq base flags client.tables =
      .done ((32 + client.returned.length : Nat),
        handedOut client.tables (32 + client.returned.length) base flags) := by
  simp only [registerIrq, inv.unlocked, acquireLock_false, Outcome.done_bind,
    inv.firstUnusedIrq_some room]
  rfl

theorem Inv.registerIrq_full (inv : client.Inv) (full : 224 ≤ client.returned.length)
    (base : Word) (flags : BitVec 8) :
    registerIrq base flags client.tables = .done (-1, client.tables) := by
  simp only [registerIrq, inv.unlocked, acquireLock_false, Outcome.done_bind,
    inv.firstUnusedIrq_none full, freeLock_eq, Outcome.pure_eq_done]
  rw [← inv.unlocked]

/-- `register_irq_vector` refuses the vectors that nobody uses. -/
theorem registerIrqVector_of_free {tables : IdtState} {vector : BitVec 8}
    (unlocked : tables.irqRegisterLock = false)
    (free : (tables.irqList vector.toNat).inUse = false) (base : Word) (flags : BitVec 8) :
    registerIrqVector vector base flags tables = .done (.error, tables) := by
  simp only [registerIrqVector, unlocked, acquireLock_false, Outcome.done_bind, free,
    Bool.not_false, if_true, freeLock_eq, Outcome.pure_eq_done]
  rw [← unlocked]

/-- `register_irq_vector` replaces the handlers of the vectors in use. -/
theorem registerIrqVector_of_inUse {tables : IdtState} {vector : BitVec 8}
    (unlocked : tables.irqRegisterLock = false)
    (inUse : (tables.irqList vector.toNat).inUse = true) (base : Word) (flags : BitVec 8) :
    registerIrqVector vector base flags tables =
      .done (.success, handedOut tables vector.toNat base flags) := by
  simp only [registerIrqVector, unlocked, acquireLock_false, Outcome.done_bind, inUse,
    Bool.not_true, Bool.false_eq_true, if_false, freeLock_eq, Outcome.pure_eq_done,
    handedOut, BitVec.ofNat_toNat, BitVec.setWidth_eq]
  rfl

theorem GatesMatch.handedOut {tables : IdtState} {handlers : Nat → Option Word}
    (gatesMatch : GatesMatch tables handlers) {i : Nat} (bound : i < maxIrq) (base : Word)
    (flags : BitVec 8) :
    GatesMatch (handedOut tables i base flags) (Function.update handlers i (some base)) := by
  intro vector high inUse
  by_cases here : vector.toNat = i
  · have same : BitVec.ofNat 8 i = vector := by
      rw [← here, BitVec.ofNat_toNat, BitVec.setWidth_eq]
    simp only [IrqClient.handedOut, same, here, Function.update_self, offset_descriptor,
      and_self]
  · have other : vector ≠ BitVec.ofNat 8 i := by
      intro same
      apply here
      rw [same, BitVec.toNat_ofNat]
      exact Nat.mod_eq_of_lt bound
    simp only [IrqClient.handedOut, Function.update_of_ne here] at inUse
    simp only [IrqClient.handedOut, Function.update_of_ne here, Function.update_of_ne other]
    exact gatesMatch vector high inUse

theorem results_concat {returned : List Int} {result : Int}
    (results : returned = (List.range returned.length).map resultOf)
    (next : result = resultOf returned.length) :
    returned ++ [result] = (List.range (returned ++ [result]).length).map resultOf := by
  rw [List.length_append, List.length_singleton, List.range_succ, List.map_append, ← results, next]
  rfl

/-- `register_irq` keeps the invariant, and hands out the next vector if there is one. -/
theorem Inv.register (inv : client.Inv) (base : Word) (flags : BitVec 8) :
    ∃ next, client.step (.register base flags) = .done next ∧ next.Inv ∧
      next.returned.length = client.returned.length + 1 ∧
      next.tables.idt =
        if client.returned.length < 224 then
          Function.update client.tables.idt (BitVec.ofNat 8 (32 + client.returned.length))
            (descriptor base flags)
        else client.tables.idt := by
  by_cases room : client.returned.length < 224
  · have handed := inv.registerIrq_room room base flags
    have result : ((32 + client.returned.length : Nat) : Int) =
        resultOf client.returned.length := by
      rw [resultOf, if_pos room, Nat.cast_add]
      rfl
    have bound : 32 + client.returned.length < maxIrq := by
      rw [maxIrq]
      omega
    simp only [step, handed, Outcome.done_bind, Outcome.pure_eq_done]
    refine ⟨_, rfl, ⟨rfl, ?_, results_concat inv.results result, ?_⟩, ?_, ?_⟩
    · intro i slot
      simp only [handedOut, List.length_append, List.length_singleton, Function.update_apply]
      by_cases here : i = 32 + client.returned.length
      · rw [if_pos here]
        exact iff_of_true rfl (by omega)
      · rw [if_neg here, inv.inUse i slot]
        omega
    · have success : ((32 + client.returned.length : Nat) : Int) ≠ -1 := by omega
      rw [if_neg success, Int.toNat_natCast]
      exact inv.gates.handedOut bound base flags
    · rw [List.length_append, List.length_singleton]
    · rw [if_pos room]
      rfl
  · have exhausted := inv.registerIrq_full (by omega) base flags
    have result : (-1 : Int) = resultOf client.returned.length := by
      rw [resultOf, if_neg room]
    simp only [step, exhausted, Outcome.done_bind, Outcome.pure_eq_done, if_true]
    refine ⟨_, rfl, ⟨inv.unlocked, ?_, results_concat inv.results result, inv.gates⟩, ?_, ?_⟩
    · intro i slot
      rw [List.length_append, List.length_singleton, inv.inUse i slot]
      rw [maxIrq] at slot
      omega
    · rw [List.length_append, List.length_singleton]
    · rw [if_neg room]

/-- `register_irq_vector` keeps the invariant: it replaces handlers, but takes no vector. -/
theorem Inv.registerVector (inv : client.Inv) (vector : BitVec 8) (base : Word)
    (flags : BitVec 8) :
    ∃ next, client.step (.registerVector vector base flags) = .done next ∧ next.Inv := by
  cases inUse : (client.tables.irqList vector.toNat).inUse with
  | false =>
      refine ⟨client, ?_, inv⟩
      rw [step, registerIrqVector_of_free inv.unlocked inUse]
      rfl
  | true =>
      rw [step, registerIrqVector_of_inUse inv.unlocked inUse]
      refine ⟨_, rfl, rfl, ?_, inv.results, inv.gates.handedOut vector.isLt base flags⟩
      intro i slot
      rw [← inv.inUse i slot]
      simp only [handedOut, Function.update_apply]
      split
      next here => rw [here, inUse]
      next => rfl

theorem resultOf_ne_iff (k : Nat) : resultOf k ≠ -1 ↔ k < 224 := by
  rw [resultOf]
  split <;> omega

theorem Inv.getElem_returned (inv : client.Inv) {k : Nat} (inside : k < client.returned.length) :
    client.returned[k] = resultOf k := by
  have here : client.returned[k]? = some (resultOf k) := by
    rw [inv.results, List.getElem?_map, List.getElem?_range inside]
    rfl
  exact Option.some.inj ((List.getElem?_eq_getElem inside).symm.trans here)

theorem Inv.mem_returned (inv : client.Inv) {vector : Int} :
    vector ∈ client.returned ↔ ∃ k < client.returned.length, resultOf k = vector := by
  constructor
  · intro member
    obtain ⟨k, inside, rfl⟩ := List.getElem_of_mem member
    exact ⟨k, inside, (inv.getElem_returned inside).symm⟩
  · rintro ⟨k, inside, rfl⟩
    rw [← inv.getElem_returned inside]
    exact List.getElem_mem inside

/-- The invariant gives what is promised of the vectors. -/
theorem Inv.sound (inv : client.Inv) : client.Sound where
  distinct := by
    rw [List.Nodup, List.pairwise_filter, inv.results, List.pairwise_map]
    refine List.pairwise_lt_range.imp ?_
    intro left right lower leftSuccess rightSuccess
    rw [decide_eq_true_eq, resultOf_ne_iff] at leftSuccess rightSuccess
    rw [resultOf, resultOf, if_pos leftSuccess, if_pos rightSuccess]
    omega
  range := by
    intro vector member success
    obtain ⟨k, -, rfl⟩ := inv.mem_returned.mp member
    rw [resultOf_ne_iff] at success
    rw [resultOf, if_pos success]
    omega
  first := by
    intro k inside
    rw [inv.getElem_returned inside]
    exact resultOf_ne_iff k
  exhausted := inv.registerIrq_full
  gates := inv.gates

theorem Inv.step (inv : client.Inv) (call : IrqCall) :
    ∃ next, client.step call = .done next ∧ next.Inv := by
  cases call with
  | register base flags =>
      obtain ⟨next, stepped, kept, -⟩ := inv.register base flags
      exact ⟨next, stepped, kept⟩
  | registerVector vector base flags => exact inv.registerVector vector base flags

end IrqClient

/-- Every sequence of registrations after `set_idt` returns, and hands vectors out
rightly. -/
theorem irq_vectors_sound (isr : BitVec 8 → Word) (calls : List IrqCall) :
    ∃ final, run IrqClient.step (.start isr) calls = .done final ∧ final.Sound := by
  obtain ⟨final, finished, inv⟩ := run_total (fun _ call inv => IrqClient.Inv.step inv call)
    calls (IrqClient.inv_start isr)
  exact ⟨final, finished, inv.sound⟩

/-! ## The vectors of the kernel -/

namespace IrqClient

/-- The gates of the kernel's vectors are those of `set_idt`, and `register_irq` returned
none of these vectors. -/
structure KernelVectorsKept (isr : BitVec 8 → Word) (client : IrqClient) : Prop where
  gates : ∀ vector, IsKernelVector vector → (client.tables.idt vector).offset = isr vector
  notReturned : ∀ vector, IsKernelVector vector → (vector.toNat : Int) ∉ client.returned

/-- A call of `register_irq` alone. -/
def register (client : IrqClient) (call : Word × BitVec 8) : Outcome IrqClient :=
  client.step (.register call.1 call.2)

/-- The gates of vectors that were not handed out are those of `set_idt`. -/
def Untouched (isr : BitVec 8 → Word) (client : IrqClient) : Prop :=
  ∀ vector : BitVec 8, vector < 32 ∨ 32 + client.returned.length ≤ vector.toNat →
    client.tables.idt vector = (setIdt isr .zeroed).idt vector

theorem Untouched.register {isr : BitVec 8 → Word} {client next : IrqClient}
    (untouched : client.Untouched isr) {base : Word} {flags : BitVec 8}
    (count : next.returned.length = client.returned.length + 1)
    (gates : next.tables.idt =
      if client.returned.length < 224 then
        Function.update client.tables.idt (BitVec.ofNat 8 (32 + client.returned.length))
          (descriptor base flags)
      else client.tables.idt) : next.Untouched isr := by
  intro vector notTaken
  rw [count] at notTaken
  have before : client.tables.idt vector = (setIdt isr .zeroed).idt vector :=
    untouched vector (notTaken.imp_right (by omega))
  rw [gates]
  split
  next room =>
    have other : vector ≠ BitVec.ofNat 8 (32 + client.returned.length) := by
      rintro rfl
      rw [BitVec.lt_def, BitVec.toNat_ofNat, Nat.mod_eq_of_lt (by omega)] at notTaken
      have limit : (32 : BitVec 8).toNat = 32 := rfl
      omega
    rw [Function.update_of_ne other, before]
  next => exact before

/-- Runs of `register_irq` hand out one vector after the other. -/
theorem register_run (isr : BitVec 8 → Word) (calls : List (Word × BitVec 8))
    {client : IrqClient} (inv : client.Inv) (untouched : client.Untouched isr) :
    ∃ final, run register client calls = .done final ∧ final.Inv ∧ final.Untouched isr ∧
      final.returned.length = client.returned.length + calls.length := by
  induction calls generalizing client with
  | nil => exact ⟨client, rfl, inv, untouched, rfl⟩
  | cons call calls ih =>
      obtain ⟨next, stepped, kept, count, gates⟩ := inv.register call.1 call.2
      obtain ⟨final, finished, finalInv, finalUntouched, total⟩ :=
        ih kept (untouched.register count gates)
      refine ⟨final, ?_, finalInv, finalUntouched, ?_⟩
      · rw [run_cons, IrqClient.register, stepped, Outcome.done_bind, finished]
      · rw [total, count, List.length_cons]
        omega

/-- The kernel keeps its vectors until 37 vectors were handed out. -/
theorem kernelVectorsKept_iff {isr : BitVec 8 → Word} {client : IrqClient} (inv : client.Inv)
    (untouched : client.Untouched isr) :
    client.KernelVectorsKept isr ↔ client.returned.length ≤ 37 := by
  constructor
  · intro kept
    by_contra many
    apply kept.notReturned 69 (Or.inr (Or.inl rfl))
    exact inv.mem_returned.mpr ⟨37, by omega, rfl⟩
  · intro few
    constructor
    · intro vector kernel
      have free : vector < 32 ∨ 32 + client.returned.length ≤ vector.toNat := by
        rcases kernel with exception | rfl | rfl | rfl
        · exact Or.inl exception
        all_goals
          right
          simp only [BitVec.reduceToNat]
          omega
      rw [untouched vector free, setIdt_idt isr _ kernel, offset_descriptor]
    · intro vector kernel member
      obtain ⟨k, inside, here⟩ := inv.mem_returned.mp member
      rw [resultOf, if_pos (by omega)] at here
      rcases kernel with exception | rfl | rfl | rfl
      · rw [BitVec.lt_def] at exception
        have limit : (32 : BitVec 8).toNat = 32 := rfl
        omega
      all_goals
        simp only [BitVec.reduceToNat] at here
        omega

end IrqClient

/-- `register_irq` leaves the kernel its vectors exactly as long as it is called at most 37
times. -/
theorem kernel_vectors_kept_iff (isr : BitVec 8 → Word) (calls : List (Word × BitVec 8)) :
    ∃ final, run IrqClient.register (.start isr) calls = .done final ∧
      (final.KernelVectorsKept isr ↔ calls.length ≤ 37) := by
  obtain ⟨final, finished, inv, untouched, total⟩ := IrqClient.register_run isr calls
    (IrqClient.inv_start isr) (fun _ _ => rfl)
  refine ⟨final, finished, (IrqClient.kernelVectorsKept_iff inv untouched).trans ?_⟩
  have none : (IrqClient.start isr).returned.length = 0 := rfl
  rw [total, none, Nat.zero_add]

/-- The 38th call of `register_irq` returns the vector of the timer, and its gate no longer
leads to the timer. -/
theorem register_takes_timer :
    ∃ final, run IrqClient.register (.start fun _ => 0x1000)
        (List.replicate 38 (0x2000, 0x8E)) = .done final ∧
      69 ∈ final.returned ∧ (final.tables.idt 69).offset = 0x2000 ∧
      ¬ final.KernelVectorsKept fun _ => 0x1000 := by
  obtain ⟨middle, before, inv, untouched, total⟩ := IrqClient.register_run (fun _ => 0x1000)
    (List.replicate 37 (0x2000, 0x8E)) (IrqClient.inv_start fun _ => 0x1000) (fun _ _ => rfl)
  have taken : middle.returned.length = 37 := total
  obtain ⟨final, stepped, finalInv, count, gates⟩ := inv.register 0x2000 0x8E
  have member : (69 : Int) ∈ final.returned :=
    finalInv.mem_returned.mpr ⟨37, by omega, rfl⟩
  refine ⟨final, ?_, member, ?_, fun kept => kept.notReturned 69 (Or.inr (Or.inl rfl)) member⟩
  · rw [List.replicate_succ', run_append, before, Outcome.done_bind, run_cons, IrqClient.register,
      stepped]
    rfl
  · rw [gates, taken, if_pos (by decide)]
    exact offset_descriptor 0x2000 0x8E

/-! ## Vectors asked for by number -/

/-- What a driver that asks for a vector by its number relies on: it gets the vector when
nobody uses it, and nothing happens otherwise. -/
structure ClaimsFreeVector (vector : BitVec 8) (base : Word) (before : IdtState)
    (status : KStatus) (after : IdtState) : Prop where
  success_iff : status = .success ↔ (before.irqList vector.toNat).inUse = false
  claimed : status = .success →
    (after.irqList vector.toNat).inUse = true ∧ (after.idt vector).offset = base ∧
      ∀ other ≠ vector, after.idt other = before.idt other ∧
        after.irqList other.toNat = before.irqList other.toNat
  refused : status ≠ .success →
    status = .error ∧ after.idt = before.idt ∧ after.irqList = before.irqList

theorem IrqClient.Inv.not_claimsFreeVector {client : IrqClient} (inv : client.Inv)
    (vector : BitVec 8) (base : Word) (flags : BitVec 8) :
    ∃ status after, registerIrqVector vector base flags client.tables = .done (status, after) ∧
      ¬ ClaimsFreeVector vector base client.tables status after := by
  cases inUse : (client.tables.irqList vector.toNat).inUse with
  | false =>
      refine ⟨_, _, IrqClient.registerIrqVector_of_free inv.unlocked inUse base flags, ?_⟩
      intro claims
      exact nomatch claims.success_iff.mpr inUse
  | true =>
      refine ⟨_, _, IrqClient.registerIrqVector_of_inUse inv.unlocked inUse base flags, ?_⟩
      intro claims
      rw [claims.success_iff.mp rfl] at inUse
      cases inUse

/-- In no reachable state and for no vector does `register_irq_vector` claim free vectors
only: its test of `in_use` is the wrong way round. -/
theorem register_irq_vector_claims_no_free_vector (isr : BitVec 8 → Word)
    (calls : List IrqCall) :
    ∃ client, run IrqClient.step (.start isr) calls = .done client ∧
      ∀ vector base flags, ∃ status after,
        registerIrqVector vector base flags client.tables = .done (status, after) ∧
          ¬ ClaimsFreeVector vector base client.tables status after := by
  obtain ⟨client, finished, inv⟩ := run_total (fun _ call inv => IrqClient.Inv.step inv call)
    calls (IrqClient.inv_start isr)
  exact ⟨client, finished, inv.not_claimsFreeVector⟩

/-- Right after `set_idt` a driver that asks for vector 14 replaces the handler of page
faults. -/
theorem page_fault_handler_replaced :
    ∃ after, registerIrqVector 14 0x2000 0x8E (IrqClient.start fun _ => 0x1000).tables =
        .done (.success, after) ∧
      ((IrqClient.start fun _ => 0x1000).tables.idt 14).offset = 0x1000 ∧
      (after.idt 14).offset = 0x2000 ∧
      ¬ ClaimsFreeVector 14 0x2000 (IrqClient.start fun _ => 0x1000).tables .success after := by
  have inUse : ((IrqClient.start fun _ => 0x1000).tables.irqList 14).inUse = true := by
    rw [IrqClient.start, setIdt_irqList, if_pos (by decide)]
  have replaced := @IrqClient.registerIrqVector_of_inUse _ 14
    (IrqClient.inv_start fun _ => 0x1000).unlocked inUse 0x2000 0x8E
  refine ⟨_, replaced, ?_, ?_, ?_⟩
  · rw [IrqClient.start, setIdt_idt (fun _ => 0x1000) _ (Or.inl (by decide)), offset_descriptor]
  · exact offset_descriptor 0x2000 0x8E
  · intro claims
    exact nomatch inUse.symm.trans (claims.success_iff.mp rfl)

end Lord84
