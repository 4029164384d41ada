import Lord84.Sys.PciRun

/-!
# Lookups in the PCI registry

`pci_add_device` takes a slot to be empty when its first function address is zero, while
`pci_get_device` compares keys only, so a zeroed slot answers for the key of segment 0,
bus 0, device 0.  A lookup that finds its key also returns without `free_lock`.  This module
says which lookups are answered rightly, and which sequences of calls leave the lock free.
-/

namespace Lord84

open Theory

theorem PciStructure.sameKey_iff {left right : PciStructure} :
    left.sameKey right = true ↔ left.key = right.key := by
  simp only [PciStructure.sameKey, PciStructure.key, Bool.and_eq_true, beq_iff_eq, Prod.mk.injEq,
    and_assoc]

/-! ## Answers -/

theorem lookup_eq_some_iff {pciArray : Nat → PciStructure} {query : PciStructure} {i : Nat} :
    lookup pciArray query = some i ↔
      i < pciDeviceBus ∧ query.key = (pciArray i).key ∧
        ∀ j < i, query.key ≠ (pciArray j).key := by
  rw [lookup, List.find?_range_eq_some, List.mem_range]
  simp only [Bool.not_eq_true', ← Bool.not_eq_true, PciStructure.sameKey_iff]
  exact and_left_comm

theorem lookup_eq_none_iff {pciArray : Nat → PciStructure} {query : PciStructure} :
    lookup pciArray query = none ↔ ∀ i < pciDeviceBus, query.key ≠ (pciArray i).key := by
  rw [lookup, List.find?_range_eq_none]
  simp only [Bool.not_eq_true', ← Bool.not_eq_true, PciStructure.sameKey_iff]

/-- Without contention, `pci_get_device` answers with the first slot of the key, and holds
the lock afterwards if there is one. -/
theorem pciGetDevice_eq {s : PciState} (unlocked : s.pciArrayLock = false)
    (query : PciStructure) :
    pciGetDevice query s =
      .done (lookup s.pciArray query,
        { s with pciArrayLock := (lookup s.pciArray query).isSome }) := by
  simp only [pciGetDevice, unlocked, acquireLock_false, Outcome.done_bind]
  cases lookup s.pciArray query with
  | none => rfl
  | some i => rfl

/-- `pci_get_device` answers a query rightly: with the one slot that holds the device added
under the key, or with `NULL` if no device was added under it. -/
structure LookupCorrect (added : List PciStructure) (s : PciState) (query : PciStructure) :
    Prop where
  hit : ∀ device ∈ added, device.key = query.key → ∃ i next,
    pciGetDevice query s = .done (some i, next) ∧ i < pciDeviceBus ∧ s.pciArray i = device ∧
      ∀ j < pciDeviceBus, s.pciArray j = device → j = i
  miss : (∀ device ∈ added, device.key ≠ query.key) →
    ∃ next, pciGetDevice query s = .done (none, next)

/-- The devices of a registry: no two of them have the same key, and each shows an address
for function 0. -/
structure Registrable (added : List PciStructure) : Prop where
  room : added.length ≤ pciDeviceBus
  distinct : added.Pairwise fun left right => left.key ≠ right.key
  used : ∀ device ∈ added, device.funcAddr 0 ≠ 0

/-- The key of a zeroed slot. -/
def zeroKey : BitVec 16 × BitVec 8 × BitVec 8 :=
  PciStructure.zero.key

/-- Adding devices one after the other fills the array from its first slot on. -/
theorem pciAddDevices_filled (added : List PciStructure) {devices : List PciStructure}
    (room : devices.length + added.length ≤ pciDeviceBus)
    (used : ∀ device ∈ devices ++ added, device.funcAddr 0 ≠ 0) (s : PciState) (mm : MmState) :
    forEach added pciAddDevice (s.filled devices mm) = .done (s.filled (devices ++ added) mm) := by
  induction added generalizing devices with
  | nil => rw [forEach_nil, List.append_nil]
  | cons device added ih =>
      rw [List.length_cons] at room
      have before : ∀ other ∈ devices, other.funcAddr 0 ≠ 0 :=
        fun other member => used other (List.mem_append_left _ member)
      rw [forEach_cons, pciAddDevice_filled (by omega) before, Outcome.done_bind,
        ih (by rw [List.length_append, List.length_singleton]; omega)]
      · rw [List.append_assoc, List.singleton_append]
      · rwa [List.append_assoc, List.singleton_append]

section Filled

variable {added : List PciStructure} {s : PciState} {mm : MmState} {query : PciStructure}

/-- A key under which a device was added is found in the slot of that device. -/
theorem Registrable.lookup_hit (registrable : Registrable added) {i : Nat}
    (inside : i < added.length) (here : added[i].key = query.key) :
    lookup (s.filled added mm).pciArray query = some i := by
  rw [lookup_eq_some_iff, PciState.filled_of_lt registrable.room inside]
  refine ⟨Nat.lt_of_lt_of_le inside registrable.room, here.symm, ?_⟩
  intro j before
  rw [PciState.filled_of_lt registrable.room (by omega), ← here]
  exact (List.pairwise_iff_getElem.mp registrable.distinct j i (by omega) inside before).symm

/-- Any other key is found only if it is that of the zeroed slots and there are some. -/
theorem Registrable.lookup_miss_iff (registrable : Registrable added)
    (absent : ∀ device ∈ added, device.key ≠ query.key) :
    lookup (s.filled added mm).pciArray query = none ↔
      query.key ≠ zeroKey ∨ added.length = pciDeviceBus := by
  rw [lookup_eq_none_iff]
  constructor
  · intro missed
    by_contra neither
    obtain ⟨zero, notFull⟩ := not_or.mp neither
    have slot : added.length < pciDeviceBus :=
      Nat.lt_of_le_of_ne registrable.room notFull
    apply missed added.length slot
    rw [PciState.filled_of_le slot (Nat.le_refl _)]
    exact not_not.mp zero
  · intro condition i slot
    by_cases inside : i < added.length
    · rw [PciState.filled_of_lt registrable.room inside]
      exact (absent _ (List.getElem_mem inside)).symm
    · rw [PciState.filled_of_le slot (by omega)]
      exact condition.resolve_right (by omega)

/-- The slot of a device holds it alone. -/
theorem Registrable.slot_unique (registrable : Registrable added) {i j : Nat}
    (inside : i < added.length) (slot : j < pciDeviceBus)
    (here : (s.filled added mm).pciArray j = added[i]) : j = i := by
  by_cases before : j < added.length
  · rw [PciState.filled_of_lt registrable.room before] at here
    have apart := List.pairwise_iff_getElem.mp registrable.distinct
    rcases Nat.lt_trichotomy j i with lower | same | higher
    · exact absurd (congrArg PciStructure.key here) (apart _ _ before inside lower)
    · exact same
    · exact absurd (congrArg PciStructure.key here).symm (apart _ _ inside before higher)
  · rw [PciState.filled_of_le slot (by omega)] at here
    exact absurd (congrArg (fun device => device.funcAddr 0) here).symm
      (registrable.used _ (List.getElem_mem inside))

theorem Registrable.lookupCorrect_iff (registrable : Registrable added) :
    LookupCorrect added (s.filled added mm) query ↔
      query.key ≠ zeroKey ∨ (∃ device ∈ added, device.key = query.key) ∨
        added.length = pciDeviceBus := by
  have answer : pciGetDevice query (s.filled added mm) = _ := pciGetDevice_eq rfl query
  constructor
  · intro correct
    by_cases present : ∃ device ∈ added, device.key = query.key
    · exact Or.inr (Or.inl present)
    · have absent : ∀ device ∈ added, device.key ≠ query.key :=
        fun device member same => present ⟨device, member, same⟩
      obtain ⟨next, missed⟩ := correct.miss absent
      rw [answer, Outcome.done.injEq, Prod.mk.injEq] at missed
      rcases (registrable.lookup_miss_iff absent).mp missed.1 with other | full
      · exact Or.inl other
      · exact Or.inr (Or.inr full)
  · intro condition
    constructor
    · intro device member same
      obtain ⟨i, inside, rfl⟩ := List.getElem_of_mem member
      rw [answer, registrable.lookup_hit inside same]
      exact ⟨i, _, rfl, Nat.lt_of_lt_of_le inside registrable.room,
        PciState.filled_of_lt registrable.room inside,
        fun j slot here => registrable.slot_unique inside slot here⟩
    · intro absent
      have missed : lookup (s.filled added mm).pciArray query = none := by
        rw [registrable.lookup_miss_iff absent]
        rcases condition with other | ⟨device, member, same⟩ | full
        · exact Or.inl other
        · exact absurd same (absent device member)
        · exact Or.inr full
      rw [answer, missed]
      exact ⟨_, rfl⟩

end Filled

/-- After devices were added to a zeroed array, a lookup is answered rightly exactly when
its key is not that of a zeroed slot, or was added, or the array has no zeroed slot left. -/
theorem registry_lookup_correct_iff {s : PciState} {added : List PciStructure}
    (zeroed : ∀ i < pciDeviceBus, s.pciArray i = .zero) (unlocked : s.pciArrayLock = false)
    (registrable : Registrable added) :
    ∃ final, forEach added pciAddDevice s = .done final ∧
      ∀ query, LookupCorrect added final query ↔
        query.key ≠ (0, 0, 0) ∨ (∃ device ∈ added, device.key = query.key) ∨
          added.length = pciDeviceBus := by
  have filled := @pciAddDevices_filled added [] (by
    rw [List.length_nil, Nat.zero_add]
    exact registrable.room) registrable.used s s.mm
  rw [PciState.filled_nil zeroed unlocked, List.nil_append] at filled
  exact ⟨_, filled, fun query => registrable.lookupCorrect_iff⟩

/-- A bridge registered by the enumeration. -/
def bridgeStructure : PciStructure where
  segment := 1
  bus := 0
  device := 0
  funcAddr j := if j = 0 then 0xffff8000b0000000 else 0

theorem bridge_registrable : Registrable [bridgeStructure] where
  room := by decide
  distinct := List.pairwise_singleton _ _
  used := by
    intro device member
    cases List.mem_singleton.mp member
    decide

/-- The registry that holds the bridge alone. -/
def bridgeState : PciState :=
  (PciState.zeroed (.boot fun _ => 0)).filled [bridgeStructure] (.boot fun _ => 0)

theorem bridge_added :
    pciAddDevice bridgeStructure (.zeroed (.boot fun _ => 0)) = .done bridgeState := by
  have empty : (PciState.zeroed (.boot fun _ => 0)).filled [] (.boot fun _ => 0) =
      .zeroed (.boot fun _ => 0) := PciState.filled_nil (fun _ _ => rfl) rfl
  have added := @pciAddDevice_filled [] bridgeStructure (.boot fun _ => 0) (by decide)
    (fun _ member => absurd member List.not_mem_nil) (.zeroed (.boot fun _ => 0))
  rwa [empty] at added

/-- In a registry with the bridge, all lookups but that of the zero key are answered
rightly. -/
theorem registry_lookup_correct_bridge :
    ∃ final, forEach [bridgeStructure] pciAddDevice (.zeroed (.boot fun _ => 0)) = .done final ∧
      ∀ query, LookupCorrect [bridgeStructure] final query ↔
        query.key ≠ (0, 0, 0) ∨ (∃ device ∈ [bridgeStructure], device.key = query.key) ∨
          [bridgeStructure].length = pciDeviceBus :=
  registry_lookup_correct_iff (fun _ _ => rfl) rfl bridge_registrable

/-- A device at segment 0, bus 0, device 0 was never added, and the lookup returns the
slot behind the bridge. -/
theorem lookup_finds_zeroed_slot :
    ∃ final, forEach [bridgeStructure] pciAddDevice (.zeroed (.boot fun _ => 0)) = .done final ∧
      (∃ next, pciGetDevice .zero final = .done (some 1, next)) ∧
      ¬ LookupCorrect [bridgeStructure] final .zero := by
  have filled : forEach [bridgeStructure] pciAddDevice (.zeroed (.boot fun _ => 0)) =
      .done bridgeState := by
    rw [forEach_cons, bridge_added, Outcome.done_bind, forEach_nil]
  refine ⟨_, filled, ?_, ?_⟩
  · rw [pciGetDevice_eq rfl]
    have second : lookup bridgeState.pciArray .zero = some 1 := by
      rw [lookup_eq_some_iff, bridgeState, PciState.filled_of_le (by decide) (by decide)]
      refine ⟨by decide, rfl, ?_⟩
      intro j before
      rw [PciState.filled_of_lt bridge_registrable.room before]
      cases Nat.lt_one_iff.mp before
      change zeroKey ≠ bridgeStructure.key
      decide
    rw [second]
    exact ⟨_, rfl⟩
  · rw [bridgeState, bridge_registrable.lookupCorrect_iff]
    rintro (other | ⟨device, member, same⟩ | full)
    · exact other rfl
    · cases List.mem_singleton.mp member
      exact absurd same (by decide)
    · exact absurd full (by decide)

/-! ## The lock -/

/-- A call to the registry. -/
inductive RegistryCall where
  | add (device : PciStructure)
  | get (query : PciStructure)

/-- Execute a call; the result of a lookup does not matter for the lock. -/
def registryStep (s : PciState) : RegistryCall → Outcome PciState
  | .add device => pciAddDevice device s
  | .get query => do
      let (_, s) ← pciGetDevice query s
      return s

/-- The array has an unused slot for a device that is added. -/
def NotFull (s : PciState) : RegistryCall → Prop
  | .add _ => ∃ i < pciDeviceBus, (s.pciArray i).funcAddr 0 = 0
  | .get _ => True

/-- A lookup finds no slot with its key. -/
def Misses (s : PciState) : RegistryCall → Prop
  | .add _ => True
  | .get query => ∀ i < pciDeviceBus, query.key ≠ (s.pciArray i).key

/-- The lock of the registry is free. -/
def PciState.Unlocked (s : PciState) : Prop :=
  s.pciArrayLock = false

/-- All calls of a sequence return, and the lock is free after each of them. -/
def LockBalanced (s : PciState) (calls : List RegistryCall) : Prop :=
  (∃ final, run registryStep s calls = .done final) ∧
    Always registryStep PciState.Unlocked s calls

/-- If the array has an unused slot, the search of `pci_add_device` ends in the array. -/
theorem firstUnused_returns {pciArray : Nat → PciStructure}
    (room : ∃ i < pciDeviceBus, (pciArray i).funcAddr 0 = 0) :
    ∃ i < pciDeviceBus, firstUnused pciArray = .done i := by
  classical
  have least := Nat.find_spec room
  refine ⟨Nat.find room, least.1, firstUnused_eq_done least.1 least.2 ?_⟩
  intro j before used
  exact Nat.find_min room before ⟨Nat.lt_trans before least.1, used⟩

/-- `pci_add_device` returns with the lock free. -/
theorem pciAddDevice_unlocked {s : PciState} (unlocked : s.Unlocked)
    (room : ∃ i < pciDeviceBus, (s.pciArray i).funcAddr 0 = 0) (device : PciStructure) :
    ∃ next, pciAddDevice device s = .done next ∧ next.Unlocked := by
  obtain ⟨i, -, found⟩ := firstUnused_returns room
  simp only [PciState.Unlocked] at unlocked
  simp only [pciAddDevice, unlocked, acquireLock_false, Outcome.done_bind, found]
  exact ⟨_, rfl, rfl⟩

/-- A call on a free lock leaves it free, unless it is a lookup that finds its key. -/
theorem registryStep_unlocked_iff (s : PciState) (call : RegistryCall) (unlocked : s.Unlocked)
    (room : NotFull s call) :
    (∃ next, registryStep s call = .done next ∧ next.Unlocked) ↔ Misses s call := by
  cases call with
  | add device => exact iff_of_true (pciAddDevice_unlocked unlocked room device) trivial
  | get query =>
      simp only [registryStep, pciGetDevice_eq unlocked, Outcome.done_bind, Misses,
        ← lookup_eq_none_iff, Outcome.pure_eq_done, Outcome.done.injEq, exists_eq_left',
        PciState.Unlocked, Option.isSome_eq_false_iff, Option.isNone_iff_eq_none]

/-- The lock of the registry is released by every call of a sequence exactly when no
lookup of the sequence finds its key. -/
theorem registry_lock_balanced_iff {s : PciState} {calls : List RegistryCall}
    (unlocked : s.Unlocked) (room : Along registryStep NotFull s calls) :
    LockBalanced s calls ↔ Along registryStep Misses s calls :=
  run_always_iff registryStep_unlocked_iff unlocked room

/-- A key that nobody has. -/
def strangerQuery : PciStructure :=
  { PciStructure.zero with segment := 2 }

theorem stranger_missed : ∀ i < pciDeviceBus, strangerQuery.key ≠ (bridgeState.pciArray i).key := by
  rw [← lookup_eq_none_iff, bridgeState, bridge_registrable.lookup_miss_iff]
  · exact Or.inl (by decide)
  · intro device member
    cases List.mem_singleton.mp member
    decide

/-- Adding a device and looking for another one. -/
theorem registry_lock_balanced_miss :
    LockBalanced (.zeroed (.boot fun _ => 0)) [.add bridgeStructure, .get strangerQuery] := by
  have room : Along registryStep NotFull (.zeroed (.boot fun _ => 0))
      [.add bridgeStructure, .get strangerQuery] :=
    ⟨⟨0, by decide, rfl⟩, fun _ _ => ⟨trivial, fun _ _ => trivial⟩⟩
  have unlocked : (PciState.zeroed (.boot fun _ => 0)).Unlocked := rfl
  refine (registry_lock_balanced_iff unlocked room).mpr ⟨trivial, ?_⟩
  intro next added
  cases bridge_added.symm.trans added
  exact ⟨stranger_missed, fun _ _ => trivial⟩

/-- A lookup that finds the bridge keeps the lock, and the next call waits for it forever. -/
theorem registry_hit_keeps_lock :
    Along registryStep NotFull (.zeroed (.boot fun _ => 0))
        [.add bridgeStructure, .get bridgeStructure, .get strangerQuery] ∧
      run registryStep (.zeroed (.boot fun _ => 0))
        [.add bridgeStructure, .get bridgeStructure, .get strangerQuery] = .spinning ∧
      ¬ LockBalanced (.zeroed (.boot fun _ => 0))
        [.add bridgeStructure, .get bridgeStructure, .get strangerQuery] := by
  have found : lookup bridgeState.pciArray bridgeStructure = some 0 :=
    bridge_registrable.lookup_hit (by decide) rfl
  have spins : run registryStep (.zeroed (.boot fun _ => 0))
      [.add bridgeStructure, .get bridgeStructure, .get strangerQuery] = .spinning := by
    rw [run_cons, registryStep, bridge_added, Outcome.done_bind, run_cons, registryStep,
      pciGetDevice_eq rfl, found]
    rfl
  refine ⟨⟨⟨0, by decide, rfl⟩, fun _ _ => ⟨trivial, fun _ _ => ⟨trivial, fun _ _ => trivial⟩⟩⟩,
    spins, ?_⟩
  rintro ⟨⟨final, finished⟩, -⟩
  cases spins.symm.trans finished

end Lord84
