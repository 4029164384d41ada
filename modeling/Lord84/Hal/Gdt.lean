import Lord84.Hal.Idt
import Lord84.Scheduler.SwitchContext

/-!
# The global descriptor table

A model of `src/hal/gdt.c` and `gdt.asm`.  `gdt_set_entry` scatters a base and a limit over the
fields of a descriptor; the processor gathers them from the eight bytes in memory.  `set_gdt`
fills the table and `s_load_gdt` makes it take effect, with a far return into the new code
segment.
-/

namespace Lord84

open Theory Function

/-- `gdt_descriptor` -/
structure GdtDescriptor where
  limitLow : BitVec 16
  baseLow : BitVec 16
  baseMiddle : BitVec 8
  access : BitVec 8
  granularity : BitVec 8
  baseHigh : BitVec 8
  deriving DecidableEq, Repr

/-- `gdt` -/
abbrev Gdt := Fin 5 → GdtDescriptor

/-- What `gdt_set_entry` writes to an entry. -/
def gdtEntry (base limit : Word) (access granularity : BitVec 8) : GdtDescriptor where
  baseLow := (base &&& 0xFFFF).setWidth 16
  baseMiddle := (base >>> 16 &&& 0xFF).setWidth 8
  baseHigh := (base >>> 24 &&& 0xFF).setWidth 8
  limitLow := (limit &&& 0xFFFF).setWidth 16
  granularity := (limit >>> 16 &&& 0x0F).setWidth 8 ||| (granularity &&& 0xF) <<< 4
  access := access

/-- `gdt_set_entry` -/
def gdtSetEntry (gdt : Gdt) (num : Fin 5) (base limit : Word) (access granularity : BitVec 8) :
    Gdt :=
  update gdt num (gdtEntry base limit access granularity)

/-- `set_gdt` up to the call of `s_load_gdt` -/
def setGdt (gdt : Gdt) : Gdt :=
  let gdt := gdtSetEntry gdt 0 0 0 0 0
  let gdt := gdtSetEntry gdt 1 0 0xFFFFF 0x9A 0xA
  let gdt := gdtSetEntry gdt 2 0 0xFFFFF 0x92 0xA
  let gdt := gdtSetEntry gdt 3 0 0xFFFFF 0xFA 0xA
  gdtSetEntry gdt 4 0 0xFFFFF 0xF2 0xA

/-- `limit` of `gdtr` -/
def gdtrLimit : Nat := 8 * 5 - 1

/-! ## What the processor reads -/

/-- The eight bytes of a packed descriptor, as a little-endian word. -/
def GdtDescriptor.word (descriptor : GdtDescriptor) : Word :=
  descriptor.baseHigh ++ (descriptor.granularity ++ (descriptor.access ++
    (descriptor.baseMiddle ++ (descriptor.baseLow ++ descriptor.limitLow))))

/-- A segment as the processor understands a descriptor. -/
structure Segment where
  base : BitVec 32
  limit : BitVec 20
  access : BitVec 8
  flags : BitVec 4
  deriving DecidableEq, Repr

/-- The processor decodes a descriptor. -/
def Segment.decode (word : Word) : Segment where
  base := word.extractLsb' 56 8 ++ word.extractLsb' 16 24
  limit := word.extractLsb' 48 4 ++ word.extractLsb' 0 16
  access := word.extractLsb' 40 8
  flags := word.extractLsb' 52 4

/-- The segment that a call of `gdt_set_entry` asks for. -/
def Segment.requested (base limit : Word) (access granularity : BitVec 8) : Segment where
  base := base.setWidth 32
  limit := limit.setWidth 20
  access := access
  flags := granularity.setWidth 4

/-- A mask of low bits is a remainder. -/
theorem toNat_and_mask {w : Nat} (x : BitVec w) (k : Nat) (fits : k ≤ w) :
    (x &&& BitVec.ofNat w (2 ^ k - 1)).toNat = x.toNat % 2 ^ k := by
  have small : 2 ^ k - 1 < 2 ^ w := by
    have power := Nat.pow_le_pow_right (Nat.zero_lt_two) fits
    have positive := Nat.two_pow_pos k
    omega
  rw [BitVec.toNat_and, BitVec.toNat_ofNat, Nat.mod_eq_of_lt small,
    Nat.and_two_pow_sub_one_eq_mod]

/-- The granularity byte: the flags, and the high bits of the limit. -/
theorem granularity_gdtEntry (base limit : Word) (access granularity : BitVec 8) :
    (gdtEntry base limit access granularity).granularity =
      granularity.setWidth 4 ++ (limit >>> 16).setWidth 4 := by
  have low : ((limit >>> 16 &&& 0x0F).setWidth 8).toNat = limit.toNat / 2 ^ 16 % 2 ^ 4 := by
    have masked := toNat_and_mask (limit >>> 16) 4 (by decide)
    have mask : (0x0F : Word) = BitVec.ofNat 64 (2 ^ 4 - 1) := rfl
    rw [BitVec.toNat_ushiftRight, Nat.shiftRight_eq_div_pow] at masked
    rw [BitVec.toNat_setWidth, mask, masked]
    omega
  have high : ((granularity &&& 0xF) <<< 4).toNat = (granularity.toNat % 2 ^ 4) <<< 4 := by
    have masked := toNat_and_mask granularity 4 (by decide)
    have mask : (0xF : BitVec 8) = BitVec.ofNat 8 (2 ^ 4 - 1) := rfl
    rw [BitVec.toNat_shiftLeft, mask, masked, Nat.shiftLeft_eq]
    omega
  apply BitVec.eq_of_toNat_eq
  rw [gdtEntry, BitVec.toNat_or, low, high, Nat.or_comm,
    ← Nat.shiftLeft_add_eq_or_of_lt (Nat.mod_lt _ (by decide)), Memory.toNat_append,
    BitVec.toNat_setWidth, BitVec.toNat_setWidth, BitVec.toNat_ushiftRight,
    Nat.shiftRight_eq_div_pow, Nat.shiftLeft_eq]

/-- The processor gathers the parts of a base and of a limit. -/
theorem decode_parts (baseHigh access baseMiddle : BitVec 8) (flags limitHigh : BitVec 4)
    (baseLow limitLow : BitVec 16) :
    Segment.decode (baseHigh ++ ((flags ++ limitHigh) ++ (access ++
      (baseMiddle ++ (baseLow ++ limitLow))))) =
      ⟨baseHigh ++ (baseMiddle ++ baseLow), limitHigh ++ limitLow, access, flags⟩ := by
  simp only [Segment.decode, Segment.mk.injEq]
  refine ⟨?_, ?_, ?_, ?_⟩
  all_goals
    apply BitVec.eq_of_toNat_eq
    simp only [BitVec.extractLsb'_toNat, Memory.toNat_append, Nat.shiftRight_eq_div_pow]
    omega

/-- The processor finds what `gdt_set_entry` was called with. -/
theorem decode_gdtEntry (base limit : Word) (access granularity : BitVec 8) :
    Segment.decode (gdtEntry base limit access granularity).word =
      .requested base limit access granularity := by
  have short : (0xFFFF : Word).setWidth 16 = BitVec.allOnes 16 := rfl
  have byte : (0xFF : Word).setWidth 8 = BitVec.allOnes 8 := rfl
  rw [GdtDescriptor.word, granularity_gdtEntry, decode_parts, Segment.requested]
  simp only [gdtEntry, BitVec.setWidth_and, short, byte, BitVec.and_allOnes, Segment.mk.injEq,
    and_true]
  constructor
  all_goals
    apply BitVec.eq_of_toNat_eq
    simp only [Memory.toNat_append, BitVec.toNat_setWidth, BitVec.toNat_ushiftRight,
      Nat.shiftRight_eq_div_pow]
    omega

/-- The arguments of a call of `gdt_set_entry`. -/
structure GdtCall where
  num : Fin 5
  base : Word
  limit : Word
  access : BitVec 8
  granularity : BitVec 8

/-- The calls, one after the other. -/
def gdtRun (gdt : Gdt) (calls : List GdtCall) : Gdt :=
  calls.foldl (fun gdt call =>
    gdtSetEntry gdt call.num call.base call.limit call.access call.granularity) gdt

/-- After any calls the processor finds in each entry what the last call for it has asked for;
an entry without a call is as it was. -/
theorem gdt_run_decodes (gdt : Gdt) (calls : List GdtCall) (i : Fin 5) :
    Segment.decode (gdtRun gdt calls i).word =
      match calls.findRev? (·.num = i) with
      | some call => .requested call.base call.limit call.access call.granularity
      | none => Segment.decode (gdt i).word := by
  induction calls generalizing gdt with
  | nil => rfl
  | cons call calls ih =>
      rw [gdtRun, List.foldl_cons, ← gdtRun, ih, List.findRev?]
      cases later : calls.findRev? (·.num = i) with
      | some last => rfl
      | none =>
          by_cases same : call.num = i
          · subst same
            simp only [gdtSetEntry, update_self, decide_true, if_true, decode_gdtEntry]
          · simp only [gdtSetEntry, update_of_ne (Ne.symm same), same, decide_false,
              Bool.false_eq_true, if_false]

/-! ## Selectors -/

namespace Segment

variable (segment : Segment)

def present : Bool :=
  segment.access.getLsbD 7

/-- The privilege level of the descriptor. -/
def level : BitVec 2 :=
  segment.access.extractLsb' 5 2

/-- A code or data segment, and no system segment. -/
def user : Bool :=
  segment.access.getLsbD 4

def executable : Bool :=
  segment.access.getLsbD 3

/-- Conforming, for a code segment. -/
def conforming : Bool :=
  segment.access.getLsbD 2

/-- Readable or writable, for a code or a data segment. -/
def accessible : Bool :=
  segment.access.getLsbD 1

/-- A 64-bit code segment must not have the bit of a 32-bit one. -/
def mixed : Bool :=
  segment.flags.getLsbD 1 && segment.flags.getLsbD 2

end Segment

/-- The privilege level that a selector requests. -/
def requestedLevel (selector : BitVec 16) : BitVec 2 :=
  selector.extractLsb' 0 2

/-- The segment that a selector names.  There is no local table, and the first entry of the
global one is not used. -/
def selected (gdt : Gdt) (selector : BitVec 16) : Option Segment :=
  let index := selector.toNat / 8
  if selector.getLsbD 2 ∨ index = 0 then none
  else if inside : 8 * index + 7 ≤ gdtrLimit then
    some (Segment.decode (gdt ⟨index, by simp only [gdtrLimit] at inside; omega⟩).word)
  else none

/-- What a far return from the kernel makes of a selector. -/
def farReturnSegment (gdt : Gdt) (selector : BitVec 16) : X86.CodeSegment :=
  match selected gdt selector with
  | none => .invalid
  | some segment =>
      let level := requestedLevel selector
      let permitted := if segment.conforming then segment.level ≤ level else segment.level = level
      if segment.user ∧ segment.executable ∧ segment.present ∧ ¬ segment.mixed ∧ permitted then
        if level = 0 then .sameLevel else .outerLevel
      else .invalid

/-- The kernel may load the selector into `ds` or `es`. -/
def loadsData (gdt : Gdt) (selector : BitVec 16) : Bool :=
  match selected gdt selector with
  | none => selector.toNat / 4 = 0
  | some segment =>
      segment.user && (!segment.executable || segment.accessible) && segment.present &&
        requestedLevel selector ≤ segment.level

/-- The kernel may load the selector into `ss`. -/
def loadsStack (gdt : Gdt) (selector : BitVec 16) : Bool :=
  match selected gdt selector with
  | none => selector = 0
  | some segment =>
      segment.user && !segment.executable && segment.accessible && segment.present &&
        segment.level = 0 && requestedLevel selector = 0

/-- The segment registers that `s_load_gdt` sets. -/
structure SegmentRegisters where
  ds : BitVec 16
  es : BitVec 16
  ss : BitVec 16
  fs : BitVec 16
  gs : BitVec 16
  deriving DecidableEq, Repr

/-- `s_load_gdt`, called on a machine with its return address on the stack. -/
def sLoadGdt (gdt : Gdt) (segments : SegmentRegisters) (m : X86.Machine) :
    SegmentRegisters × X86.FarReturn :=
  let m := m.set .rax (m.registers .rax &&& ~~~0xFFFF ||| 0x10)
  let ax := (m.registers .rax).setWidth 16
  if loadsData gdt ax ∧ loadsStack gdt ax then
    let m := m.set .rax (m.registers .rax &&& ~~~0xFFFF)
    let zero := (m.registers .rax).setWidth 16
    let m := X86.execute [.pop .rax, .pushImmediate 0x08, .push .rax] m
    (⟨ax, ax, ax, zero, zero⟩, X86.retfq (farReturnSegment gdt) m)
  else (segments, .fault)

/-- `set_gdt` writes every entry, whatever was in the table. -/
theorem setGdt_congr (gdt other : Gdt) : setGdt gdt = setGdt other := by
  funext i
  match i with
  | 0 | 1 | 2 | 3 | 4 => rfl

/-- Selectors beyond the table, and those of a local table, name nothing. -/
theorem selected_eq_none (gdt : Gdt) {selector : BitVec 16} (beyond : 40 ≤ selector.toNat) :
    selected gdt selector = none := by
  have outside : ¬ 8 * (selector.toNat / 8) + 7 ≤ gdtrLimit := by
    simp only [gdtrLimit]
    omega
  simp only [selected, dif_neg outside, ite_self]

/-- The table of `set_gdt` has one code segment for the kernel and one for user programs. -/
theorem farReturnSegment_setGdt (gdt : Gdt) (selector : BitVec 16) :
    farReturnSegment (setGdt gdt) selector = gdtSegment selector := by
  rw [setGdt_congr gdt fun _ => ⟨0, 0, 0, 0, 0, 0⟩]
  by_cases beyond : 40 ≤ selector.toNat
  · rw [farReturnSegment, selected_eq_none _ beyond, gdtSegment, if_neg, if_neg]
    · rintro rfl
      exact absurd beyond (by decide)
    · rintro rfl
      exact absurd beyond (by decide)
  · have small : ∀ n < 40, farReturnSegment (setGdt fun _ => ⟨0, 0, 0, 0, 0, 0⟩)
        (BitVec.ofNat 16 n) = gdtSegment (BitVec.ofNat 16 n) := by
      decide +kernel
    have named := small selector.toNat (by omega)
    rwa [BitVec.ofNat_toNat, BitVec.setWidth_eq] at named

/-- The selector of the kernel data segment can be loaded into the data registers. -/
theorem loads_setGdt (gdt : Gdt) :
    loadsData (setGdt gdt) 0x10 = true ∧ loadsStack (setGdt gdt) 0x10 = true := by
  rw [setGdt_congr gdt fun _ => ⟨0, 0, 0, 0, 0, 0⟩]
  decide +kernel

/-- `ax` after its low bits were replaced. -/
theorem setWidth_mask_or (value : Word) (low : BitVec 16) :
    (value &&& ~~~0xFFFF ||| low.setWidth 64).setWidth 16 = low := by
  have cleared : (~~~0xFFFF : Word).setWidth 16 = 0#16 := rfl
  rw [BitVec.setWidth_or, BitVec.setWidth_and, cleared, BitVec.and_zero, BitVec.zero_or,
    BitVec.setWidth_setWidth_of_le _ (by decide), BitVec.setWidth_eq]

/-- The stack of `s_load_gdt` before its far return: the return address, the selector, and what
its caller has on the stack. -/
structure AtFarReturn (m after : X86.Machine) : Prop where
  rip : after.word 0 = m.word 0
  cs : after.word 1 = 0x08
  rsp : after.registers .rsp = m.registers .rsp - 8
  below : ∀ k < 2 ^ 60 - 2, after.word (k + 2) = m.word (k + 1)
  others : ∀ register, register ≠ .rax → register ≠ .rsp →
    after.registers register = m.registers register

theorem atFarReturn (m : X86.Machine) :
    AtFarReturn m (X86.execute [.pop .rax, .pushImmediate 0x08, .push .rax] m) := by
  let popped := (m.drop 1).set .rax (m.word 0)
  have code : X86.execute [.pop .rax, .pushImmediate 0x08, .push .rax] m =
      (popped.push 0x08).push (m.word 0) := by
    simp only [X86.execute, List.foldl_cons, List.foldl_nil, X86.Instruction.execute]
    rw [X86.Machine.push_of_ne _ (by decide), X86.Machine.set_self]
  have stack : popped.registers .rsp = m.registers .rsp + 8 := by
    rw [X86.Machine.set_of_ne _ (by decide), X86.Machine.drop_rsp]
    rfl
  rw [code]
  constructor
  · exact X86.Machine.word_push_zero _ _
  · rw [X86.Machine.word_push_succ _ _ (by decide), X86.Machine.word_push_zero]
  · rw [X86.Machine.push_rsp, X86.Machine.push_rsp, stack, BitVec.add_sub_cancel]
  · intro k small
    rw [X86.Machine.word_push_succ _ _ (by omega), X86.Machine.word_push_succ _ _ (by omega),
      X86.Machine.word_set_of_ne _ (by decide), X86.Machine.word_drop, Nat.add_comm]
  · intro register general other
    rw [X86.Machine.push_of_ne _ other, X86.Machine.push_of_ne _ other,
      X86.Machine.set_of_ne _ general, X86.Machine.drop_of_ne _ other]

/-- After `set_gdt` two selectors name code: that of the kernel, which the gates of the interrupt
table use, and that of user programs.  The kernel code segment is in force; the caller goes on
with its stack and its registers, `rax` apart, and the data registers hold the kernel data
segment. -/
theorem set_gdt_effective (gdt : Gdt) (segments : SegmentRegisters) (m : X86.Machine) :
    (∀ selector, farReturnSegment (setGdt gdt) selector = gdtSegment selector) ∧
    (∀ base flags, farReturnSegment (setGdt gdt) (descriptor base flags).segmentSel =
      .sameLevel) ∧
    ∃ after,
      sLoadGdt (setGdt gdt) segments m = (⟨0x10, 0x10, 0x10, 0, 0⟩, .sameLevel after (m.word 0)) ∧
      after.registers .rsp = m.registers .rsp + 8 ∧
      (∀ register, register ≠ .rax → register ≠ .rsp →
        after.registers register = m.registers register) ∧
      ∀ k < 2 ^ 60 - 2, after.word k = m.word (k + 1) := by
  refine ⟨farReturnSegment_setGdt gdt, ?_, ?_⟩
  · intro base flags
    rw [farReturnSegment_setGdt]
    rfl
  · let first := m.set .rax (m.registers .rax &&& ~~~0xFFFF ||| 0x10)
    let second := first.set .rax (first.registers .rax &&& ~~~0xFFFF)
    let last := X86.execute [.pop .rax, .pushImmediate 0x08, .push .rax] second
    have stands : AtFarReturn second last := atFarReturn second
    have ax : (first.registers .rax).setWidth 16 = 0x10#16 := by
      rw [X86.Machine.set_self]
      exact setWidth_mask_or _ 0x10
    have zero : (second.registers .rax).setWidth 16 = 0#16 := by
      have cleared : (~~~0xFFFF : Word).setWidth 16 = 0#16 := rfl
      rw [X86.Machine.set_self, BitVec.setWidth_and, cleared, BitVec.and_zero]
    have stack : second.registers .rsp = m.registers .rsp := by
      rw [X86.Machine.set_of_ne _ (by decide), X86.Machine.set_of_ne _ (by decide)]
    have words : ∀ k, second.word k = m.word k := by
      intro k
      rw [X86.Machine.word_set_of_ne _ (by decide), X86.Machine.word_set_of_ne _ (by decide)]
    have returns : X86.retfq (farReturnSegment (setGdt gdt)) last =
        .sameLevel (last.drop 2) (m.word 0) := by
      have kernel : farReturnSegment (setGdt gdt) ((last.word 1).setWidth 16) = .sameLevel := by
        rw [farReturnSegment_setGdt, stands.cs]
        rfl
      rw [X86.retfq, kernel, stands.rip, words]
    refine ⟨last.drop 2, ?_, ?_, ?_, ?_⟩
    · have unfolded : sLoadGdt (setGdt gdt) segments m =
          let ax := (first.registers .rax).setWidth 16
          let zero := (second.registers .rax).setWidth 16
          if loadsData (setGdt gdt) ax ∧ loadsStack (setGdt gdt) ax then
            (⟨ax, ax, ax, zero, zero⟩, X86.retfq (farReturnSegment (setGdt gdt)) last)
          else (segments, .fault) := rfl
      rw [unfolded, ax, zero, returns]
      exact if_pos (loads_setGdt gdt)
    · rw [X86.Machine.drop_rsp, stands.rsp, stack]
      bv_omega
    · intro register general other
      rw [X86.Machine.drop_of_ne _ other, stands.others register general other,
        X86.Machine.set_of_ne _ general, X86.Machine.set_of_ne _ general]
    · intro k small
      rw [X86.Machine.word_drop, Nat.add_comm, stands.below k small, words]

end Lord84
