import Lord84.Sys.PciRun

/-!
# What `check_device` reports

The record that `check_device` returns is documented in `pci.h`: `multi` says whether the
functions 1 to 7 count.  The addresses in it are right for every bus, but the flag is
cleared again before the function returns.
-/

namespace Lord84

open Theory

/-- The record describes the device at this position: its functions that answer, and whether
it is a multi-function device. -/
structure ReportsDevice (hhdmoffset : Word) (configSpace : ConfigSpace)
    (base bus device : Word) (ret : PciFunctionReturn) : Prop where
  absent : (headerAt hhdmoffset configSpace (getHeader base bus device 0)).vendorId = 0xffff →
    ret = .zero
  first : (headerAt hhdmoffset configSpace (getHeader base bus device 0)).vendorId ≠ 0xffff →
    ret.funcAddr 0 = getHeader base bus device 0
  multi : (headerAt hhdmoffset configSpace (getHeader base bus device 0)).vendorId ≠ 0xffff →
    (ret.multi = true ↔
      (headerAt hhdmoffset configSpace (getHeader base bus device 0)).headerType.getLsbD 7 = true)
  others : (headerAt hhdmoffset configSpace (getHeader base bus device 0)).vendorId ≠ 0xffff →
    ∀ k : Fin pciFunctionMax, k ≠ 0 → ret.funcAddr k =
      if (headerAt hhdmoffset configSpace
            (getHeader base bus device 0)).headerType.getLsbD 7 = true ∧
          (headerAt hhdmoffset configSpace
            (getHeader base bus device (BitVec.ofNat 64 k))).vendorId ≠ 0xffff then
        getHeader base bus device (BitVec.ofNat 64 k)
      else 0

/-! ## The two address formulas -/

/-- Numbers without a bit in common are added by `or`. -/
theorem or_eq_add_of_lt {high low : Word} {width : Nat} (multiple : high.toNat % 2 ^ width = 0)
    (small : low.toNat < 2 ^ width) : high ||| low = high + low := by
  have joined : high.toNat ||| low.toNat = high.toNat + low.toNat := by
    have split := Nat.two_pow_add_eq_or_of_lt small (high.toNat / 2 ^ width)
    rw [Nat.mul_div_cancel' (Nat.dvd_of_mod_eq_zero multiple)] at split
    exact split.symm
  have bound := (high ||| low).isLt
  apply BitVec.eq_of_toNat_eq
  rw [BitVec.toNat_or, joined] at bound
  rw [BitVec.toNat_or, BitVec.toNat_add, joined, Nat.mod_eq_of_lt bound]

/-- The shifts of `check_device` compute the address of `get_header`, whatever the bus. -/
theorem functionAddress_eq_getHeader (base bus : Word) {device : Word} (deviceNumber : device < 32)
    (function : Fin pciFunctionMax) :
    functionAddress base bus device function =
      getHeader base bus device (BitVec.ofNat 64 function) := by
  have functionNumber : BitVec.ofNat 64 function < 8 := by
    have limit : function.val < 8 := function.isLt
    bv_omega
  rw [functionAddress, getHeader, pcieConfSpaceWidth]
  generalize BitVec.ofNat 64 function = number at functionNumber
  have devices : bus <<< 20 ||| device <<< 15 = bus <<< 20 + device <<< 15 :=
    @or_eq_add_of_lt _ _ 20 (by bv_omega) (by bv_omega)
  have functions : (bus <<< 20 + device <<< 15) ||| number <<< 12 =
      bus <<< 20 + device <<< 15 + number <<< 12 :=
    @or_eq_add_of_lt _ _ 15 (by bv_omega) (by bv_omega)
  rw [devices, functions]
  bv_omega

/-! ## The report -/

theorem PciHeader.isMulti_eq (header : PciHeader) :
    header.isMulti = header.headerType.getLsbD 7 := by
  have bits : ∀ headerType : BitVec 8,
      (headerType &&& pciHeaderTypeMulti != 0) = headerType.getLsbD 7 := by
    decide
  exact bits header.headerType

theorem PciHeader.unimplemented_iff (header : PciHeader) :
    header.unimplemented = true ↔ header.vendorId = 0xffff := by
  rw [PciHeader.unimplemented, beq_iff_eq]

section Report

variable {hhdmoffset kernelPageMap : Word} {configSpace : ConfigSpace} {base bus device : Word}

theorem deviceReport_of_absent
    (absent : (headerAt hhdmoffset configSpace (getHeader base bus device 0)).vendorId = 0xffff) :
    deviceReport hhdmoffset configSpace base bus device = .zero := by
  rw [deviceReport, if_pos ((PciHeader.unimplemented_iff _).mpr absent)]

/-- Of a device that is there, function 0 is always reported, and `multi` never. -/
theorem deviceReport_of_present
    (present : (headerAt hhdmoffset configSpace (getHeader base bus device 0)).vendorId ≠ 0xffff) :
    (deviceReport hhdmoffset configSpace base bus device).multi = false ∧
      (deviceReport hhdmoffset configSpace base bus device).funcAddr 0 =
        getHeader base bus device 0 := by
  rw [deviceReport, if_neg (mt (PciHeader.unimplemented_iff _).mp present)]
  simp only [Function.update_self, and_self]

/-- The other functions are reported at the addresses of `get_header`. -/
theorem deviceReport_others (deviceNumber : device < 32)
    (present : (headerAt hhdmoffset configSpace (getHeader base bus device 0)).vendorId ≠ 0xffff)
    {k : Fin pciFunctionMax} (other : k ≠ 0) :
    (deviceReport hhdmoffset configSpace base bus device).funcAddr k =
      if (headerAt hhdmoffset configSpace
            (getHeader base bus device 0)).headerType.getLsbD 7 = true ∧
          (headerAt hhdmoffset configSpace
            (getHeader base bus device (BitVec.ofNat 64 k))).vendorId ≠ 0xffff then
        getHeader base bus device (BitVec.ofNat 64 k)
      else 0 := by
  rw [deviceReport, if_neg (mt (PciHeader.unimplemented_iff _).mp present)]
  simp only [Function.update_of_ne other, recordFunctions,
    functionAddress_eq_getHeader base bus deviceNumber, PciHeader.isMulti_eq]
  cases (headerAt hhdmoffset configSpace (getHeader base bus device 0)).headerType.getLsbD 7 with
  | false => simp
  | true => simp [PciHeader.unimplemented]

/-- The report is right unless the device has several functions. -/
theorem reportsDevice_iff (deviceNumber : device < 32) :
    ReportsDevice hhdmoffset configSpace base bus device
        (deviceReport hhdmoffset configSpace base bus device) ↔
      (headerAt hhdmoffset configSpace (getHeader base bus device 0)).vendorId = 0xffff ∨
        (headerAt hhdmoffset configSpace
          (getHeader base bus device 0)).headerType.getLsbD 7 = false := by
  constructor
  · intro reports
    rw [or_iff_not_imp_left]
    intro present
    obtain ⟨cleared, -⟩ := deviceReport_of_present present
    rw [← Bool.not_eq_true, ← reports.multi present, cleared]
    exact Bool.false_ne_true
  · intro condition
    refine ⟨deviceReport_of_absent, ?_, ?_, ?_⟩
    · intro present
      exact (deviceReport_of_present present).2
    · intro present
      obtain ⟨cleared, -⟩ := deviceReport_of_present present
      rw [cleared, condition.resolve_left present]
    · intro present k other
      exact deviceReport_others deviceNumber present other

theorem length_deviceHeaders_le (base bus device : Word) :
    (deviceHeaders hhdmoffset configSpace base bus device).length ≤ 9 := by
  rw [deviceHeaders]
  split
  next => simp
  next =>
    split
    next => rw [List.length_cons, List.length_map, List.length_finRange, pciFunctionMax]
    next => simp

end Report

/-- `check_device` returns as soon as its headers are mapped, for which 27 free pages are
always enough.  Its record describes the device exactly if nothing answers there or the
device has a single function. -/
theorem check_device_reports_iff (hhdmoffset kernelPageMap : Word) (configSpace : ConfigSpace)
    (bus : Word) {device : Word} (deviceNumber : device < 32) (s : PciState) :
    ∃ ret,
      checkDevice hhdmoffset kernelPageMap configSpace bus device s =
        (mapHeaders hhdmoffset kernelPageMap
          (deviceHeaders hhdmoffset configSpace s.configSpaceBaseAddr bus device) s.mm >>=
            fun mm => .done (ret, { s with mm })) ∧
      (∀ root, kernelPageMap = root + hhdmoffset → TablesWF hhdmoffset root s.mm →
        NoNull hhdmoffset root s.mm → s.mm.pageTableLock = false →
        27 ≤ s.mm.pmmFreePageCount.toNat →
        ∃ next, checkDevice hhdmoffset kernelPageMap configSpace bus device s =
          .done (ret, next)) ∧
      (ReportsDevice hhdmoffset configSpace s.configSpaceBaseAddr bus device ret ↔
        (headerAt hhdmoffset configSpace
            (getHeader s.configSpaceBaseAddr bus device 0)).vendorId = 0xffff ∨
          (headerAt hhdmoffset configSpace
            (getHeader s.configSpaceBaseAddr bus device 0)).headerType.getLsbD 7 = false) := by
  refine ⟨_, checkDevice_eq hhdmoffset kernelPageMap configSpace bus device s, ?_,
    reportsDevice_iff deviceNumber⟩
  rintro root rfl wf noNull unlocked room
  let headers := deviceHeaders hhdmoffset configSpace s.configSpaceBaseAddr bus device
  have count : headers.length ≤ 9 := length_deviceHeaders_le s.configSpaceBaseAddr bus device
  have enough : 3 * (headers.map tablePath).length ≤ s.mm.pmmFreePageCount.toNat := by
    rw [List.length_map]
    omega
  obtain ⟨mapped, returned⟩ := mapHeaders_returns _ wf noNull unlocked
    (fun header listed => List.mem_map_of_mem listed) enough
  exact ⟨_, (checkDevice_eq ..).trans (Outcome.bind_eq_done.mpr ⟨mapped, returned, rfl⟩)⟩

/-- The bridge has a single function, and is reported as such. -/
theorem check_device_reports_host_bridge :
    ∃ ret next, checkDevice 0xffff800000000000 (0x1000 + 0xffff800000000000) hostBridge 0 0
        ((PciState.zeroed threeFrames).useConfSpace 0xffff800000000000 ⟨0xb0000000, 1, 0, 1⟩) =
          .done (ret, next) ∧
      ret.funcAddr 0 = 0xffff8000b0000000 ∧
      ReportsDevice 0xffff800000000000 hostBridge 0xffff8000b0000000 0 0 ret := by
  obtain ⟨ret, returns, -, reports⟩ := check_device_reports_iff 0xffff800000000000
    (0x1000 + 0xffff800000000000) hostBridge 0 (show (0 : Word) < 32 by decide)
    ((PciState.zeroed threeFrames).useConfSpace 0xffff800000000000 ⟨0xb0000000, 1, 0, 1⟩)
  obtain ⟨mapped, finished⟩ := @firstHeaders_mapped [0xffff8000b0000000] (by simp)
  have faithful := reports.mpr (Or.inr (by decide))
  exact ⟨ret, _, returns.trans (Outcome.bind_eq_done.mpr ⟨mapped, finished, rfl⟩),
    faithful.first (by decide), faithful⟩

/-- A configuration space in which all eight functions of every device answer. -/
def eightFunctions : ConfigSpace := fun _ => ⟨0x8086, 0, 6, 0x80⟩

/-- A device with eight functions is reported as one with a single function. -/
theorem multi_flag_lost :
    ∃ ret next, checkDevice 0xffff800000000000 (0x1000 + 0xffff800000000000) eightFunctions 0 0
        ((PciState.zeroed threeFrames).useConfSpace 0xffff800000000000 ⟨0xb0000000, 1, 0, 1⟩) =
          .done (ret, next) ∧
      ret.multi = false ∧ ret.funcAddr 7 = 0xffff8000b0007000 ∧
      ¬ ReportsDevice 0xffff800000000000 eightFunctions 0xffff8000b0000000 0 0 ret := by
  have shared : (deviceHeaders 0xffff800000000000 eightFunctions 0xffff8000b0000000 0 0).all
      (fun header => tablePath header = tablePath 0xffff8000b0000000) = true := by
    decide +kernel
  obtain ⟨mapped, finished⟩ := firstHeaders_mapped
    (fun header listed => of_decide_eq_true (List.all_eq_true.mp shared header listed))
  refine ⟨_, _, (checkDevice_eq ..).trans (Outcome.bind_eq_done.mpr ⟨mapped, finished, rfl⟩),
    rfl, by decide +kernel, ?_⟩
  intro reports
  have faithful := (reportsDevice_iff (by decide)).mp reports
  revert faithful
  decide

end Lord84
