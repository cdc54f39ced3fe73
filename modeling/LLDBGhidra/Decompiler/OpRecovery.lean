import LLDBGhidra.Decompiler.PcodeMeaning

/-
  Recovering an input of an operation from its output
  (`opbehavior.cc`), and complementary comparisons
  (`opcodes.cc`).

  Main declarations:
    * `OpBehavior.recoverInputUnary_eq_iff`
    * `OpBehavior.recoverInputBinary_sum_eq_iff`
    * `OpBehavior.recoverInputBinary_shift`
    * `OpBehavior.evaluateBinary_booleanflip`
-/

------------------------------------------------------------
-- Sized Words
------------------------------------------------------------

namespace LLDBGhidra

variable {size : Nat}
variable {val : BitVec 64}

/- A value of the size is the lower bytes of itself. -/
theorem and_calcMask_eq_self_iff
    (hEight : size ≤ 8) :
    val &&& calcMask size = val ↔ val.toNat < 2 ^ (8 * size) := by
  constructor
  · intro hMask
    rw [← hMask, toNat_and_calcMask hEight]
    exact Nat.mod_lt _ (Nat.two_pow_pos _)
  · intro hVal
    apply BitVec.eq_of_toNat_eq
    rw [toNat_and_calcMask hEight]
    exact Nat.mod_eq_of_lt hVal

/- A value has the size when no bit above it is set. -/
theorem lt_size_of_bits
    (hBits : ∀ index, 8 * size ≤ index →
      val.getLsbD index = false) :
    val.toNat < 2 ^ (8 * size) := by
  apply Nat.lt_pow_two_of_testBit
  intro index hIndex
  exact hBits index hIndex

theorem and_calcMask_lt
    (hEight : size ≤ 8)
    (val : BitVec 64) :
    (val &&& calcMask size).toNat < 2 ^ (8 * size) := by
  rw [toNat_and_calcMask hEight]
  exact Nat.mod_lt _ (Nat.two_pow_pos _)

/- Wrapping gives the one value of the size that agrees. -/
theorem wrapped_eq_iff
    {number : Nat}
    {value : Int}
    (hNumber : number < 2 ^ (8 * size)) :
    Pcode.wrapped size value = number ↔
      (2 ^ (8 * size) : Int) ∣ value - number := by
  have hWrapped := Pcode.wrapped_eq size value
  have hSelf : (number : Int) % 2 ^ (8 * size) = number := by
    apply Int.emod_eq_of_lt
    · exact Int.natCast_nonneg number
    · exact_mod_cast hNumber
  rw [Int.dvd_iff_emod_eq_zero,
    ← Int.emod_eq_emod_iff_emod_sub_eq_zero, hSelf, ← hWrapped]
  exact Int.natCast_inj.symm

/- A masked word is a value of the size when they agree. -/
theorem and_calcMask_eq_iff
    {word : BitVec 64}
    {value : Int}
    (hEight : size ≤ 8)
    (hVal : val.toNat < 2 ^ (8 * size))
    (hWord : (word.toNat : Int) % 2 ^ 64 = value % 2 ^ 64) :
    word &&& calcMask size = val ↔
      (2 ^ (8 * size) : Int) ∣ value - val.toNat := by
  rw [← BitVec.toNat_inj,
    OpBehavior.toNat_and_calcMask_of_emod hEight hWord,
    wrapped_eq_iff hVal]

end LLDBGhidra

------------------------------------------------------------
-- Operations on One Value
------------------------------------------------------------

namespace LLDBGhidra

namespace OpBehavior

open Pcode

variable {formats : FloatFormats}
variable {size sizeout sizein : Nat}
variable {in1 in2 out known val : BitVec 64}

/- Can the input of the operation be recovered? -/
def recoversUnary
    (opcode : OpCode) : Bool :=
  match opcode with
  | .copy => true
  | .intZext => true
  | .intSext => true
  | .int2comp => true
  | .intNegate => true
  | _ => false

theorem ok_eq_iff
    (left right : BitVec 64) :
    (Except.ok left : Result) = .ok right ↔ left = right := by
  simp

/- Negation of a size is its own inverse. -/
theorem int2comp_eq_iff
    (hEight : size ≤ 8)
    (hIn : in1.toNat < 2 ^ (8 * size))
    (hOut : out.toNat < 2 ^ (8 * size)) :
    uintbNegate (out - 1) size = in1 ↔
      uintbNegate (in1 - 1) size = out := by
  rw [← BitVec.toNat_inj, ← BitVec.toNat_inj,
    evaluate_int2comp hEight, evaluate_int2comp hEight,
    wrapped_eq_iff hIn, wrapped_eq_iff hOut]
  have hSwap : -(out.toNat : Int) - in1.toNat =
      -(in1.toNat : Int) - out.toNat := by
    omega
  rw [hSwap]

theorem intNegate_eq_iff
    (hEight : size ≤ 8)
    (hIn : in1.toNat < 2 ^ (8 * size))
    (hOut : out.toNat < 2 ^ (8 * size)) :
    uintbNegate out size = in1 ↔
      uintbNegate in1 size = out := by
  rw [← BitVec.toNat_inj, ← BitVec.toNat_inj,
    evaluate_intNegate hEight hIn,
    evaluate_intNegate hEight hOut]
  omega

theorem recoverZext_eq_iff
    (hEight : size ≤ 8)
    (in1 out : BitVec 64) :
    recoverZext size out = .ok in1 ↔
      in1.toNat < 2 ^ (8 * size) ∧ in1 = out := by
  rw [recoverZext, BitVec.and_comm]
  by_cases hSized : out.toNat < 2 ^ (8 * size)
  · have hMask := (and_calcMask_eq_self_iff hEight).mpr hSized
    rw [if_neg (not_not.mpr hMask), ok_eq_iff]
    constructor
    · intro hEq
      rw [← hEq]
      exact ⟨hSized, rfl⟩
    · intro hBoth
      exact hBoth.2.symm
  · have hMask : out &&& calcMask size ≠ out :=
      fun hEq =>
        hSized ((and_calcMask_eq_self_iff hEight).mp hEq)
    rw [if_pos hMask]
    constructor
    · intro hError
      exact absurd hError (by simp [outOfRange])
    · intro hBoth
      rw [hBoth.2] at hBoth
      exact absurd hBoth.1 hSized

/- Every bit above the shorter size equals its sign bit. -/
def ExtendsSign
    (sizein sizeout : Nat)
    (out : BitVec 64) : Prop :=
  ∀ index, 8 * sizein ≤ index → index < 8 * sizeout →
    out.getLsbD index = out.getLsbD (8 * sizein - 1)

theorem signExtend_and_calcMask_iff
    (hSize : 1 ≤ sizein)
    (hWider : sizein ≤ sizeout)
    (hEight : sizeout ≤ 8)
    (hOut : out.toNat < 2 ^ (8 * sizeout)) :
    signExtend (out &&& calcMask sizein) sizein sizeout = out ↔
      ExtendsSign sizein sizeout out := by
  have hSign : (out &&& calcMask sizein).getLsbD
      (8 * sizein - 1) = out.getLsbD (8 * sizein - 1) := by
    rw [BitVec.getLsbD_and, getLsbD_calcMask (by omega),
      decide_eq_true (by omega), Bool.and_true]
  constructor
  · intro hEq index hLow hHigh
    have hBit := getLsbD_signExtend hSize hWider hEight
      (out &&& calcMask sizein)
      (show index < 64 by omega)
    rw [hEq, decide_eq_true hHigh,
      if_neg (Nat.not_lt.mpr hLow), hSign] at hBit
    exact hBit
  · intro hSigns
    apply BitVec.eq_of_getLsbD_eq
    intro index hIndex
    rw [getLsbD_signExtend hSize hWider hEight _ hIndex, hSign]
    by_cases hHigh : index < 8 * sizeout
    · by_cases hLow : index < 8 * sizein
      · rw [decide_eq_true hHigh, if_pos hLow,
          BitVec.getLsbD_and, getLsbD_calcMask hIndex,
          decide_eq_true hLow, Bool.and_true, Bool.true_and]
      · rw [decide_eq_true hHigh, if_neg hLow, Bool.true_and,
          hSigns index (Nat.not_lt.mp hLow) hHigh]
    · rw [decide_eq_false hHigh, Bool.false_and,
        getLsbD_of_size_le hOut (Nat.not_lt.mp hHigh)]

/- The lower bytes of an extended value are the value. -/
theorem and_calcMask_of_signExtend
    (hSize : 1 ≤ sizein)
    (hWider : sizein ≤ sizeout)
    (hEight : sizeout ≤ 8)
    (hIn : in1.toNat < 2 ^ (8 * sizein)) :
    signExtend in1 sizein sizeout &&& calcMask sizein =
      in1 := by
  apply BitVec.eq_of_getLsbD_eq
  intro index hIndex
  rw [BitVec.getLsbD_and, getLsbD_calcMask hIndex,
    getLsbD_signExtend hSize hWider hEight _ hIndex]
  by_cases hLow : index < 8 * sizein
  · rw [decide_eq_true hLow, if_pos hLow,
      decide_eq_true (show index < 8 * sizeout by omega)]
    simp
  · rw [decide_eq_false hLow, Bool.and_false,
      getLsbD_of_size_le hIn (Nat.not_lt.mp hLow)]

/- A word has all bits of a mask when each of them is set. -/
theorem and_eq_mask_iff
    (word mask : BitVec 64) :
    word &&& mask = mask ↔
      ∀ index, index < 64 → mask.getLsbD index = true →
        word.getLsbD index = true := by
  constructor
  · intro hEq index _ hMask
    rw [← hEq, BitVec.getLsbD_and, Bool.and_eq_true] at hMask
    exact hMask.1
  · intro hBits
    apply BitVec.eq_of_getLsbD_eq
    intro index hIndex
    rw [BitVec.getLsbD_and]
    cases hMask : mask.getLsbD index with
    | false => exact Bool.and_false _
    | true => rw [hBits index hIndex hMask, Bool.and_true]

/- The bits between two sizes. -/
theorem getLsbD_calcMask_xor
    {index : Nat}
    (hWider : sizein ≤ sizeout)
    (hIndex : index < 64) :
    (calcMask sizeout ^^^ calcMask sizein).getLsbD index =
      decide (8 * sizein ≤ index ∧ index < 8 * sizeout) := by
  rw [BitVec.getLsbD_xor, getLsbD_calcMask hIndex,
    getLsbD_calcMask hIndex]
  by_cases hLow : index < 8 * sizein
  · rw [decide_eq_true hLow,
      decide_eq_true (show index < 8 * sizeout by omega),
      decide_eq_false (by omega)]
    rfl
  · by_cases hHigh : index < 8 * sizeout
    · rw [decide_eq_false hLow, decide_eq_true hHigh,
        decide_eq_true (by omega)]
      rfl
    · rw [decide_eq_false hLow, decide_eq_false hHigh,
        decide_eq_false (by omega)]
      rfl

/- The lower bytes, when the others extend their sign. -/
theorem recoverSext_eq
    (hSize : 1 ≤ sizein)
    (hWider : sizein ≤ sizeout)
    (hEight : sizeout ≤ 8)
    (hOut : out.toNat < 2 ^ (8 * sizeout)) :
    (ExtendsSign sizein sizeout out →
        recoverSext sizeout sizein out =
          .ok (out &&& calcMask sizein)) ∧
      (¬ ExtendsSign sizein sizeout out →
        recoverSext sizeout sizein out =
          outOfRange "sext") := by
  have hMask := signMask_of_calcMask hSize
    (hWider.trans hEight)
  have hNe : BitVec.twoPow 64 (8 * sizein - 1) ≠ 0 :=
    twoPow_ne_zero (by omega)
  rw [recoverSext, hMask, BitVec.and_twoPow]
  cases hSign : out.getLsbD (8 * sizein - 1) with
  | false =>
      -- a positive input has no bit above it
      have hIff : ExtendsSign sizein sizeout out ↔
          out &&& calcMask sizein = out := by
        rw [and_calcMask_eq_self_iff (hWider.trans hEight)]
        constructor
        · intro hSigns
          apply lt_size_of_bits
          intro index hIndex
          by_cases hHigh : index < 8 * sizeout
          · rw [hSigns index hIndex hHigh, hSign]
          · exact getLsbD_of_size_le hOut
              (Nat.not_lt.mp hHigh)
        · intro hSmall index hIndex _
          rw [hSign]
          exact getLsbD_of_size_le hSmall hIndex
      rw [hIff]
      constructor
      · intro hEq
        simp [hEq]
      · intro hEq
        simp [hEq, outOfRange]
  | true =>
      have hIff : ExtendsSign sizein sizeout out ↔
          out &&& (calcMask sizeout ^^^ calcMask sizein) =
            calcMask sizeout ^^^ calcMask sizein := by
        rw [and_eq_mask_iff]
        constructor
        · intro hSigns index hIndex hSet
          rw [getLsbD_calcMask_xor hWider hIndex,
            decide_eq_true_eq] at hSet
          rw [hSigns index hSet.1 hSet.2, hSign]
        · intro hBits index hLow hHigh
          have hIndex : index < 64 := by omega
          rw [hSign]
          apply hBits index hIndex
          rw [getLsbD_calcMask_xor hWider hIndex]
          exact decide_eq_true ⟨hLow, hHigh⟩
      rw [hIff, if_pos rfl, if_neg hNe]
      constructor
      · intro hEq
        rw [if_neg (not_not.mpr hEq)]
      · intro hEq
        rw [if_pos hEq]

theorem recoverSext_eq_iff
    (hSize : 1 ≤ sizein)
    (hWider : sizein ≤ sizeout)
    (hEight : sizeout ≤ 8)
    (hOut : out.toNat < 2 ^ (8 * sizeout))
    (in1 : BitVec 64) :
    recoverSext sizeout sizein out = .ok in1 ↔
      in1.toNat < 2 ^ (8 * sizein) ∧
        signExtend in1 sizein sizeout = out := by
  have hRecover := recoverSext_eq hSize hWider hEight hOut
  have hExtend := signExtend_and_calcMask_iff hSize hWider
    hEight hOut
  by_cases hSigns : ExtendsSign sizein sizeout out
  · rw [hRecover.1 hSigns, ok_eq_iff]
    constructor
    · intro hEq
      rw [← hEq]
      exact ⟨and_calcMask_lt (hWider.trans hEight) out,
        hExtend.mpr hSigns⟩
    · intro hBoth
      rw [← hBoth.2]
      exact and_calcMask_of_signExtend hSize hWider hEight
        hBoth.1
  · rw [hRecover.2 hSigns]
    constructor
    · intro hError
      exact absurd hError (by simp [outOfRange])
    · intro hBoth
      have hLower := and_calcMask_of_signExtend hSize hWider
        hEight hBoth.1
      rw [hBoth.2] at hLower
      rw [← hLower, hExtend] at hBoth
      exact absurd hBoth.2 hSigns

/- An output that extends nothing has the upper bits wrong. -/
theorem recoverZext_ok_or_error
    (size : Nat)
    (out : BitVec 64) :
    recoverZext size out = .ok out ∨
      recoverZext size out = outOfRange "zext" := by
  rw [recoverZext]
  by_cases hMask : calcMask size &&& out ≠ out
  · rw [if_pos hMask]
    exact Or.inr rfl
  · rw [if_neg hMask]
    exact Or.inl rfl

/- Only an extension has outputs that nothing is taken to. -/
def ThrowsOutOfRange
    (opcode : OpCode)
    (recovered : Result) : Prop :=
  (opcode = .intZext ∧ recovered = outOfRange "zext") ∨
    (opcode = .intSext ∧ recovered = outOfRange "sext")

theorem recoverInputUnary_ok_or_error
    {opcode : OpCode}
    (hRecovers : recoversUnary opcode = true)
    (hSize : 1 ≤ sizein)
    (hWider : sizein ≤ sizeout)
    (hEight : sizeout ≤ 8)
    (hOut : out.toNat < 2 ^ (8 * sizeout)) :
    (∃ in1, recoverInputUnary opcode sizeout out sizein =
        .ok in1) ∨
      ThrowsOutOfRange opcode
        (recoverInputUnary opcode sizeout out sizein) := by
  cases opcode
  case copy => exact Or.inl ⟨_, rfl⟩
  case intZext =>
    rcases recoverZext_ok_or_error sizein out with hOk | hError
    · exact Or.inl ⟨out, hOk⟩
    · exact Or.inr (Or.inl ⟨rfl, hError⟩)
  case intSext =>
    have hRecover := recoverSext_eq hSize hWider hEight hOut
    by_cases hSigns : ExtendsSign sizein sizeout out
    · exact Or.inl ⟨_, hRecover.1 hSigns⟩
    · exact Or.inr (Or.inr ⟨rfl, hRecover.2 hSigns⟩)
  case int2comp => exact Or.inl ⟨_, rfl⟩
  case intNegate => exact Or.inl ⟨_, rfl⟩
  all_goals exact absurd hRecovers (by simp [recoversUnary])

/- What is recovered is the input of the output. -/
theorem recoverInputUnary_eq_ok_iff
    (formats : FloatFormats)
    {opcode : OpCode}
    (hRecovers : recoversUnary opcode = true)
    (hSize : 1 ≤ sizein)
    (hWider : sizein ≤ sizeout)
    (hEight : sizeout ≤ 8)
    (hSame : opcode ≠ .intZext → opcode ≠ .intSext →
      sizeout = sizein)
    (hOut : out.toNat < 2 ^ (8 * sizeout))
    (in1 : BitVec 64) :
    recoverInputUnary opcode sizeout out sizein = .ok in1 ↔
      in1.toNat < 2 ^ (8 * sizein) ∧
        evaluateUnary formats opcode sizeout sizein in1 =
          .ok out := by
  have hEightIn : sizein ≤ 8 := hWider.trans hEight
  cases opcode
  case copy =>
    rw [hSame (by simp) (by simp)] at hOut
    rw [recoverInputUnary, evaluateUnary, ok_eq_iff,
      ok_eq_iff]
    constructor
    · intro hEq
      rw [← hEq]
      exact ⟨hOut, rfl⟩
    · intro hBoth
      exact hBoth.2.symm
  case intZext =>
    rw [recoverInputUnary, evaluateUnary, ok_eq_iff,
      recoverZext_eq_iff hEightIn]
  case intSext =>
    rw [recoverInputUnary, evaluateUnary, ok_eq_iff,
      recoverSext_eq_iff hSize hWider hEight hOut]
  case int2comp =>
    rw [hSame (by simp) (by simp)] at hOut
    rw [recoverInputUnary, evaluateUnary, ok_eq_iff,
      ok_eq_iff]
    constructor
    · intro hEq
      have hIn : in1.toNat < 2 ^ (8 * sizein) := by
        rw [← hEq]
        exact and_calcMask_lt hEightIn _
      exact ⟨hIn, (int2comp_eq_iff hEightIn hIn hOut).mp hEq⟩
    · intro hBoth
      exact (int2comp_eq_iff hEightIn hBoth.1 hOut).mpr
        hBoth.2
  case intNegate =>
    rw [hSame (by simp) (by simp)] at hOut
    rw [recoverInputUnary, evaluateUnary, ok_eq_iff,
      ok_eq_iff]
    constructor
    · intro hEq
      have hIn : in1.toNat < 2 ^ (8 * sizein) := by
        rw [← hEq]
        exact and_calcMask_lt hEightIn _
      exact ⟨hIn, (intNegate_eq_iff hEightIn hIn hOut).mp hEq⟩
    · intro hBoth
      exact (intNegate_eq_iff hEightIn hBoth.1 hOut).mpr
        hBoth.2
  all_goals exact absurd hRecovers (by simp [recoversUnary])

/-
  An input is recovered when it is the one value of the input
  size that the operation takes to the output.  Without such a
  value the evaluation error is thrown.
-/
theorem recoverInputUnary_eq_iff
    (formats : FloatFormats)
    {opcode : OpCode}
    (hRecovers : recoversUnary opcode = true)
    (hSize : 1 ≤ sizein)
    (hWider : sizein ≤ sizeout)
    (hEight : sizeout ≤ 8)
    (hSame : opcode ≠ .intZext → opcode ≠ .intSext →
      sizeout = sizein)
    (hOut : out.toNat < 2 ^ (8 * sizeout)) :
    (∀ in1, recoverInputUnary opcode sizeout out sizein =
        .ok in1 ↔
      in1.toNat < 2 ^ (8 * sizein) ∧
        evaluateUnary formats opcode sizeout sizein in1 =
          .ok out) ∧
      ((¬ ∃ in1 : BitVec 64, in1.toNat < 2 ^ (8 * sizein) ∧
          evaluateUnary formats opcode sizeout sizein in1 =
            .ok out) →
        ThrowsOutOfRange opcode
          (recoverInputUnary opcode sizeout out sizein)) := by
  have hIff := recoverInputUnary_eq_ok_iff formats hRecovers
    hSize hWider hEight hSame hOut
  refine ⟨hIff, ?_⟩
  intro hNone
  rcases recoverInputUnary_ok_or_error hRecovers hSize hWider
    hEight hOut with hOk | hError
  · rcases hOk with ⟨in1, hOk⟩
    exact absurd ⟨in1, (hIff in1).mp hOk⟩ hNone
  · exact hError

/- 0xffffff80 is the sign extension of 0x80. -/
theorem recoverInputUnary_eq_iff_sext :
    (∀ in1, recoverInputUnary .intSext 4 0xffffff80 1 =
        .ok in1 ↔
      in1.toNat < 2 ^ (8 * 1) ∧
        evaluateUnary (fun _ => none) .intSext 4 1 in1 =
          .ok 0xffffff80) ∧
      ((¬ ∃ in1 : BitVec 64, in1.toNat < 2 ^ (8 * 1) ∧
          evaluateUnary (fun _ => none) .intSext 4 1 in1 =
            .ok 0xffffff80) →
        ThrowsOutOfRange .intSext
          (recoverInputUnary .intSext 4 0xffffff80 1)) :=
  recoverInputUnary_eq_iff (fun _ => none) rfl (by omega)
    (by omega) (by omega) (by simp) (by decide)

end OpBehavior

end LLDBGhidra

------------------------------------------------------------
-- Sums and Differences
------------------------------------------------------------

namespace LLDBGhidra

namespace OpBehavior

open Pcode

variable {formats : FloatFormats}
variable {size sizeout sizein : Nat}
variable {in1 in2 out known val : BitVec 64}

theorem toNat_add_emod
    (left right : BitVec 64) :
    ((left + right).toNat : Int) % 2 ^ 64 =
      ((left.toNat : Int) + right.toNat) % 2 ^ 64 := by
  rw [BitVec.toNat_add]
  omega

theorem toNat_sub_emod
    (left right : BitVec 64) :
    ((left - right).toNat : Int) % 2 ^ 64 =
      ((left.toNat : Int) - right.toNat) % 2 ^ 64 := by
  have hLeft := left.isLt
  have hRight := right.isLt
  rw [BitVec.toNat_sub]
  omega

/- Put the recovered value into its slot. -/
def evaluateSlot
    (formats : FloatFormats)
    (opcode : OpCode)
    (slot size : Nat)
    (value known : BitVec 64) : Result :=
  if slot = 0 then
    evaluateBinary formats opcode size size value known
  else
    evaluateBinary formats opcode size size known value

theorem recoverAdd_eq_iff
    (hEight : size ≤ 8)
    (hIn : in1.toNat < 2 ^ (8 * size))
    (hOut : out.toNat < 2 ^ (8 * size)) :
    (out - known) &&& calcMask size = in1 ↔
      (in1 + known) &&& calcMask size = out := by
  rw [and_calcMask_eq_iff hEight hIn (toNat_sub_emod _ _),
    and_calcMask_eq_iff hEight hOut (toNat_add_emod _ _)]
  have hNeg : (out.toNat : Int) - known.toNat - in1.toNat =
      -((in1.toNat : Int) + known.toNat - out.toNat) := by
    omega
  rw [hNeg, Int.dvd_neg]

theorem recoverMinuend_eq_iff
    (hEight : size ≤ 8)
    (hIn : in1.toNat < 2 ^ (8 * size))
    (hOut : out.toNat < 2 ^ (8 * size)) :
    (known + out) &&& calcMask size = in1 ↔
      (in1 - known) &&& calcMask size = out := by
  rw [and_calcMask_eq_iff hEight hIn (toNat_add_emod _ _),
    and_calcMask_eq_iff hEight hOut (toNat_sub_emod _ _)]
  have hNeg : (known.toNat : Int) + out.toNat - in1.toNat =
      -((in1.toNat : Int) - known.toNat - out.toNat) := by
    omega
  rw [hNeg, Int.dvd_neg]

theorem recoverSubtrahend_eq_iff
    (hEight : size ≤ 8)
    (hIn : in1.toNat < 2 ^ (8 * size))
    (hOut : out.toNat < 2 ^ (8 * size)) :
    (known - out) &&& calcMask size = in1 ↔
      (known - in1) &&& calcMask size = out := by
  rw [and_calcMask_eq_iff hEight hIn (toNat_sub_emod _ _),
    and_calcMask_eq_iff hEight hOut (toNat_sub_emod _ _)]
  have hSwap : (known.toNat : Int) - out.toNat - in1.toNat =
      (known.toNat : Int) - in1.toNat - out.toNat := by
    omega
  rw [hSwap]

/- A masked value that is equivalent to an evaluation. -/
theorem mask_and_evaluation
    {word result : BitVec 64}
    (hEight : size ≤ 8)
    (hIff : in1.toNat < 2 ^ (8 * size) →
      (word &&& calcMask size = in1 ↔ result = out)) :
    (Except.ok (word &&& calcMask size) : Result) = .ok in1 ↔
      in1.toNat < 2 ^ (8 * size) ∧
        (Except.ok result : Result) = .ok out := by
  rw [ok_eq_iff, ok_eq_iff]
  constructor
  · intro hEq
    have hIn : in1.toNat < 2 ^ (8 * size) := by
      rw [← hEq]
      exact and_calcMask_lt hEight word
    exact ⟨hIn, (hIff hIn).mp hEq⟩
  · intro hBoth
    exact (hIff hBoth.1).mpr hBoth.2

/- Sums and differences have one value for each slot. -/
theorem recoverInputBinary_sum_eq_iff
    (formats : FloatFormats)
    {opcode : OpCode}
    (hOpcode : opcode = .intAdd ∨ opcode = .intSub)
    (hEight : size ≤ 8)
    (hOut : out.toNat < 2 ^ (8 * size))
    (slot : Nat)
    (in1 known : BitVec 64) :
    recoverInputBinary opcode slot size out size known =
        .ok in1 ↔
      in1.toNat < 2 ^ (8 * size) ∧
        evaluateSlot formats opcode slot size in1 known =
          .ok out := by
  rcases hOpcode with hAdd | hSub
  · subst hAdd
    rw [recoverInputBinary, evaluateSlot]
    by_cases hSlot : slot = 0
    · rw [if_pos hSlot, evaluateBinary]
      exact mask_and_evaluation hEight
        (fun hIn => recoverAdd_eq_iff hEight hIn hOut)
    · rw [if_neg hSlot, evaluateBinary, BitVec.add_comm known]
      exact mask_and_evaluation hEight
        (fun hIn => recoverAdd_eq_iff hEight hIn hOut)
  · subst hSub
    rw [recoverInputBinary, evaluateSlot]
    by_cases hSlot : slot = 0
    · rw [if_pos hSlot, if_pos hSlot, evaluateBinary]
      exact mask_and_evaluation hEight
        (fun hIn => recoverMinuend_eq_iff hEight hIn hOut)
    · rw [if_neg hSlot, if_neg hSlot, evaluateBinary]
      exact mask_and_evaluation hEight
        (fun hIn => recoverSubtrahend_eq_iff hEight hIn hOut)

/- The subtrahend of two bytes that wrap. -/
theorem recoverInputBinary_sum_eq_iff_wraps :
    recoverInputBinary .intSub 1 2 0xfffe 2 1 = .ok 3 ↔
      (3#64).toNat < 2 ^ (8 * 2) ∧
        evaluateSlot (fun _ => none) .intSub 1 2 3 1 =
          .ok 0xfffe :=
  recoverInputBinary_sum_eq_iff (fun _ => none) (Or.inr rfl)
    (by omega) (by decide) 1 3 1

end OpBehavior

end LLDBGhidra

------------------------------------------------------------
-- Shifts
------------------------------------------------------------

namespace LLDBGhidra

namespace OpBehavior

open Pcode

variable {formats : FloatFormats}
variable {size : Nat}
variable {in1 in2 out known val : BitVec 64}

/- The operations that shift. -/
def isShift
    (opcode : OpCode) : Bool :=
  match opcode with
  | .intLeft => true
  | .intRight => true
  | .intSright => true
  | _ => false

/- Some value of the size gives the output. -/
def HasInput
    (opcode : OpCode)
    (size : Nat)
    (known out : BitVec 64) : Prop :=
  ∃ in1 : BitVec 64, in1.toNat < 2 ^ (8 * size) ∧
    evaluateBinary (fun _ => none) opcode size size in1 known =
      .ok out

/- The word would be shifted by all of its bits. -/
def ShiftsWholeWord
    (opcode : OpCode)
    (size : Nat)
    (known : BitVec 64) : Prop :=
  opcode ≠ .intSright ∧ size = 8 ∧ known.toNat = 0

/- The operation in the text of the error. -/
def shiftName
    (opcode : OpCode) : String :=
  if opcode = .intLeft then "left shift" else "right shift"

/- How the recovery of a shifted input ends. -/
structure RecoversShift
    (formats : FloatFormats)
    (opcode : OpCode)
    (size : Nat)
    (known out : BitVec 64)
    (recovered : Result) : Prop where
  recovered_iff :
    (∃ in1, recovered = .ok in1) ↔
      HasInput opcode size known out ∧
        (opcode = .intSright →
          out.getLsbD (8 * size - 1) = true)
  evaluates :
    ∀ in1, recovered = .ok in1 →
      evaluateBinary formats opcode size size in1 known =
        .ok out
  sized :
    opcode ≠ .intSright →
      ∀ in1, recovered = .ok in1 →
        in1.toNat < 2 ^ (8 * size)
  fails :
    (∀ in1, recovered ≠ .ok in1) →
      recovered = outOfRange (shiftName opcode)

/- The recoveries where each shift is inside the word. -/
theorem recoverLeft_eq
    (hEight : size ≤ 8)
    (hShift : known.toNat < 8 * size)
    (hPart : 8 * size - known.toNat < 64) :
    recoverLeft 0 size out known =
      if out <<< (8 * size - known.toNat) &&&
          calcMask size ≠ 0 then
        outOfRange "left shift"
      else
        .ok (out >>> known.toNat) := by
  have hLost : wordShiftLeft out (8 * size - known.toNat) =
      .ok (out <<< (8 * size - known.toNat)) :=
    wordShiftLeft_eq _ hPart (by omega) out
  have hBack := wordShiftRight_eq known.toNat
    (by omega) rfl out
  rw [recoverLeft, if_neg (by omega)]
  simp only [hLost, hBack]
  rfl

theorem recoverRight_eq
    (hEight : size ≤ 8)
    (hShift : known.toNat < 8 * size)
    (hPart : 8 * size - known.toNat < 64) :
    recoverRight 0 size size out known =
      if out >>> (8 * size - known.toNat) ≠ 0 then
        outOfRange "right shift"
      else
        .ok (out <<< known.toNat) := by
  have hLost : wordShiftRight out (8 * size - known.toNat) =
      .ok (out >>> (8 * size - known.toNat)) :=
    wordShiftRight_eq _ hPart (by omega) out
  have hBack := wordShiftLeft_eq known.toNat
    (by omega) rfl out
  rw [recoverRight, if_neg (by omega)]
  simp only [hLost, hBack]
  rfl

theorem recoverSright_eq
    (hEight : size ≤ 8)
    (hShift : known.toNat < 8 * size) :
    recoverSright 0 size size out known =
      if countOnes (known.toNat + 1)
          (out >>> (size * 8 - known.toNat - 1)) ≠
            known.toNat + 1 then
        outOfRange "right shift"
      else
        .ok (out <<< known.toNat) := by
  have hSign :
      wordShiftRight out (size * 8 - known.toNat - 1) =
        .ok (out >>> (size * 8 - known.toNat - 1)) :=
    wordShiftRight_eq _ (by omega) (by omega) out
  have hBack := wordShiftLeft_eq known.toNat
    (by omega) rfl out
  rw [recoverSright, if_neg (by omega)]
  simp only [hSign, hBack]
  rfl

theorem part_of_not_shiftsWholeWord
    {opcode : OpCode}
    (hEight : size ≤ 8)
    (hPart : ¬ ShiftsWholeWord opcode size known)
    (hOpcode : opcode ≠ .intSright) :
    8 * size - known.toNat < 64 := by
  by_contra hWord
  exact hPart ⟨hOpcode, by omega, by omega⟩

/- The shift by the whole word that the recovery begins with. -/
theorem recover_of_shiftsWholeWord
    {opcode : OpCode}
    (hOpcode : isShift opcode = true)
    (hWhole : ShiftsWholeWord opcode size known)
    (out : BitVec 64) :
    recoverInputBinary opcode 0 size out size known =
      .error .undefined := by
  rcases hWhole with ⟨hSright, hSize, hKnown⟩
  subst hSize
  cases opcode
  case intLeft =>
    have hLost :
        wordShiftLeft out (8 * (8 : Nat) - known.toNat) =
          .error .undefined :=
      if_neg (by omega)
    rw [recoverInputBinary, recoverLeft, if_neg (by omega)]
    simp only [hLost]
    rfl
  case intRight =>
    have hLost :
        wordShiftRight out (8 * (8 : Nat) - known.toNat) =
          .error .undefined :=
      if_neg (by omega)
    rw [recoverInputBinary, recoverRight, if_neg (by omega)]
    simp only [hLost]
    rfl
  case intSright => exact absurd rfl hSright
  all_goals exact absurd hOpcode (by simp [isShift])

/- The bits of a left shift. -/
theorem getLsbD_intLeft
    {index : Nat}
    (hShift : known.toNat < 8 * size)
    (hIndex : index < 64) :
    (intLeft size in1 known).getLsbD index =
      (decide (known.toNat ≤ index ∧ index < 8 * size) &&
        in1.getLsbD (index - known.toNat)) := by
  rw [intLeft, if_neg (by omega), BitVec.getLsbD_and,
    BitVec.getLsbD_shiftLeft, getLsbD_calcMask hIndex,
    decide_eq_true hIndex]
  by_cases hLow : index < known.toNat
  · have hOut : ¬ (known.toNat ≤ index ∧ index < 8 * size) := by
      omega
    rw [decide_eq_true hLow, decide_eq_false hOut]
    simp
  · by_cases hInside : index < 8 * size
    · have hBoth : known.toNat ≤ index ∧ index < 8 * size := by
        omega
      rw [decide_eq_false hLow, decide_eq_true hInside,
        decide_eq_true hBoth]
      simp
    · have hNot :
          ¬ (known.toNat ≤ index ∧ index < 8 * size) := by
        omega
      rw [decide_eq_false hLow, decide_eq_false hInside,
        decide_eq_false hNot]
      simp

/- No bit below the shift is set. -/
def ClearBelow
    (bound : Nat)
    (out : BitVec 64) : Prop :=
  ∀ index, index < bound → out.getLsbD index = false

theorem recoverLeft_fits_iff
    (hEight : size ≤ 8)
    (hShift : known.toNat < 8 * size) :
    out <<< (8 * size - known.toNat) &&& calcMask size = 0 ↔
      ClearBelow known.toNat out := by
  constructor
  · intro hZero index hIndex
    have hBit : (out <<< (8 * size - known.toNat) &&&
        calcMask size).getLsbD
          (index + (8 * size - known.toNat)) = false := by
      rw [hZero]
      exact BitVec.getLsbD_zero
    rw [BitVec.getLsbD_and, BitVec.getLsbD_shiftLeft,
      getLsbD_calcMask (by omega),
      decide_eq_true (show index + (8 * size - known.toNat) < 64
        by omega),
      decide_eq_false (show ¬ index +
        (8 * size - known.toNat) < 8 * size - known.toNat
        by omega),
      decide_eq_true (show index + (8 * size - known.toNat) <
        8 * size by omega),
      Nat.add_sub_cancel] at hBit
    simpa using hBit
  · intro hClear
    apply BitVec.eq_of_getLsbD_eq
    intro index hIndex
    change _ = (0#64).getLsbD index
    rw [BitVec.getLsbD_and, BitVec.getLsbD_shiftLeft,
      getLsbD_calcMask hIndex, BitVec.getLsbD_zero]
    by_cases hInside : index < 8 * size
    · by_cases hLow : index < 8 * size - known.toNat
      · simp [hLow]
      · rw [hClear (index - (8 * size - known.toNat)) (by omega)]
        simp
    · simp [hInside]

/- What is shifted back is shifted to the output again. -/
theorem intLeft_of_clear
    (hShift : known.toNat < 8 * size)
    (hOut : out.toNat < 2 ^ (8 * size))
    (hClear : ClearBelow known.toNat out) :
    intLeft size (out >>> known.toNat) known = out := by
  apply BitVec.eq_of_getLsbD_eq
  intro index hIndex
  rw [getLsbD_intLeft hShift hIndex,
    BitVec.getLsbD_ushiftRight]
  by_cases hLow : known.toNat ≤ index
  · by_cases hInside : index < 8 * size
    · rw [decide_eq_true ⟨hLow, hInside⟩, Bool.true_and,
        Nat.add_sub_cancel' hLow]
    · rw [decide_eq_false (by omega), Bool.false_and,
        getLsbD_of_size_le hOut (Nat.not_lt.mp hInside)]
  · rw [decide_eq_false (by omega), Bool.false_and,
      hClear index (by omega)]

theorem clear_of_intLeft
    (hShift : known.toNat < 8 * size)
    (hEight : size ≤ 8)
    (in1 : BitVec 64) :
    ClearBelow known.toNat (intLeft size in1 known) := by
  intro index hIndex
  rw [getLsbD_intLeft hShift (by omega),
    decide_eq_false (by omega), Bool.false_and]

/- The output of a right shift has the shift's bits clear. -/
theorem recoverRight_fits_iff
    (out : BitVec 64)
    (bound : Nat) :
    out >>> bound = 0 ↔ out.toNat < 2 ^ bound := by
  rw [eq_zero_iff, BitVec.toNat_ushiftRight,
    Nat.shiftRight_eq_div_pow, Nat.div_eq_zero_iff]
  have hPos := Nat.two_pow_pos bound
  omega

/- The values of a size, in parts below and above a shift. -/
theorem two_pow_shift
    (hShift : known.toNat < 8 * size) :
    2 ^ (8 * size) =
      2 ^ (8 * size - known.toNat) * 2 ^ known.toNat := by
  rw [← Nat.pow_add, Nat.sub_add_cancel hShift.le]

theorem mul_two_pow_lt
    (hShift : known.toNat < 8 * size)
    (hLess : out.toNat < 2 ^ (8 * size - known.toNat)) :
    out.toNat * 2 ^ known.toNat < 2 ^ (8 * size) := by
  rw [two_pow_shift hShift]
  exact Nat.mul_lt_mul_of_pos_right hLess (Nat.two_pow_pos _)

/- No bit of a small enough output is shifted out. -/
theorem toNat_shiftLeft_of_lt
    (hEight : size ≤ 8)
    (hShift : known.toNat < 8 * size)
    (hLess : out.toNat < 2 ^ (8 * size - known.toNat)) :
    (out <<< known.toNat).toNat =
      out.toNat * 2 ^ known.toNat := by
  have hProduct := mul_two_pow_lt hShift hLess
  have hWord : 2 ^ (8 * size) ≤ 2 ^ 64 :=
    Nat.pow_le_pow_right Nat.two_pos (by omega)
  rw [BitVec.toNat_shiftLeft, Nat.shiftLeft_eq]
  exact Nat.mod_eq_of_lt (lt_of_lt_of_le hProduct hWord)

theorem shiftLeft_lt
    (hEight : size ≤ 8)
    (hShift : known.toNat < 8 * size)
    (hLess : out.toNat < 2 ^ (8 * size - known.toNat)) :
    (out <<< known.toNat).toNat < 2 ^ (8 * size) := by
  rw [toNat_shiftLeft_of_lt hEight hShift hLess]
  exact mul_two_pow_lt hShift hLess

theorem ushiftRight_lt
    (hOut : out.toNat < 2 ^ (8 * size))
    (bits : Nat) :
    (out >>> bits).toNat < 2 ^ (8 * size) := by
  rw [BitVec.toNat_ushiftRight]
  exact lt_of_le_of_lt (Nat.shiftRight_le _ _) hOut

theorem intRight_of_lt
    (hEight : size ≤ 8)
    (hShift : known.toNat < 8 * size)
    (hLess : out.toNat < 2 ^ (8 * size - known.toNat)) :
    intRight size (out <<< known.toNat) known = out := by
  have hIn := shiftLeft_lt hEight hShift hLess
  apply BitVec.eq_of_toNat_eq
  rw [evaluate_intRight hEight hIn,
    toNat_shiftLeft_of_lt hEight hShift hLess,
    Nat.mul_div_cancel _ (Nat.two_pow_pos _)]

theorem lt_of_intRight
    (hEight : size ≤ 8)
    (hShift : known.toNat < 8 * size)
    (hIn : in1.toNat < 2 ^ (8 * size)) :
    (intRight size in1 known).toNat <
      2 ^ (8 * size - known.toNat) := by
  rw [evaluate_intRight hEight hIn]
  apply Nat.div_lt_of_lt_mul
  rw [Nat.mul_comm, ← two_pow_shift hShift]
  exact hIn

/- Counting ones: all of them, or fewer. -/
theorem countOnes_le
    (rounds : Nat)
    (testval : BitVec 64) :
    countOnes rounds testval ≤ rounds := by
  induction rounds generalizing testval with
  | zero => exact Nat.le_refl 0
  | succ rounds ih =>
      have hRest := ih (testval >>> 1)
      rw [countOnes]
      by_cases hBit : testval &&& 1 ≠ 0
      · rw [if_pos hBit]
        omega
      · rw [if_neg hBit]
        omega

theorem and_one_ne_zero_iff
    (testval : BitVec 64) :
    testval &&& 1 ≠ 0 ↔ testval.getLsbD 0 = true := by
  have hOne : (1 : BitVec 64) = BitVec.twoPow 64 0 := rfl
  rw [hOne, BitVec.and_twoPow]
  cases testval.getLsbD 0
  · simp
  · simp only [if_true, iff_true]
    exact twoPow_ne_zero (by omega)

theorem countOnes_eq_iff
    (rounds : Nat)
    (testval : BitVec 64) :
    countOnes rounds testval = rounds ↔
      ∀ index, index < rounds →
        testval.getLsbD index = true := by
  induction rounds generalizing testval with
  | zero =>
      constructor
      · intro _ index hIndex
        omega
      · intro _
        rfl
  | succ rounds ih =>
      have hRest := countOnes_le rounds (testval >>> 1)
      have hStep : countOnes (rounds + 1) testval = rounds + 1 ↔
          testval.getLsbD 0 = true ∧
            countOnes rounds (testval >>> 1) = rounds := by
        rw [countOnes, ← and_one_ne_zero_iff]
        by_cases hBit : testval &&& 1 ≠ 0
        · rw [if_pos hBit]
          simp only [hBit, ne_eq, not_false_eq_true, true_and]
          omega
        · rw [if_neg hBit]
          simp only [hBit, false_and, iff_false]
          omega
      rw [hStep, ih]
      constructor
      · intro hBoth index hIndex
        cases index with
        | zero => exact hBoth.1
        | succ index =>
            have hBit := hBoth.2 index (by omega)
            rw [BitVec.getLsbD_ushiftRight] at hBit
            rw [Nat.add_comm]
            exact hBit
      · intro hAll
        refine ⟨hAll 0 (by omega), ?_⟩
        intro index hIndex
        rw [BitVec.getLsbD_ushiftRight]
        exact hAll (1 + index) (by omega)

/- The highest bits, one more than the shift, are all set. -/
def NegativeAfter
    (size shift : Nat)
    (out : BitVec 64) : Prop :=
  ∀ index, 8 * size ≤ index + shift + 1 → index < 8 * size →
    out.getLsbD index = true

theorem recoverSright_fits_iff
    (hShift : known.toNat < 8 * size) :
    countOnes (known.toNat + 1)
        (out >>> (size * 8 - known.toNat - 1)) =
        known.toNat + 1 ↔
      NegativeAfter size known.toNat out := by
  rw [countOnes_eq_iff]
  constructor
  · intro hOnes index hLow hHigh
    have hBit := hOnes
      (index - (size * 8 - known.toNat - 1)) (by omega)
    rw [BitVec.getLsbD_ushiftRight,
      Nat.add_sub_cancel' (by omega)] at hBit
    exact hBit
  · intro hNegative index hIndex
    rw [BitVec.getLsbD_ushiftRight]
    exact hNegative _ (by omega) (by omega)

/- The sign of any word, as one of the size. -/
theorem signbitNegative_eq_getLsbD
    (hSize : 1 ≤ size)
    (hEight : size ≤ 8)
    (val : BitVec 64) :
    signbitNegative val size = val.getLsbD (8 * size - 1) := by
  have hNe : BitVec.twoPow 64 (8 * size - 1) ≠ 0 :=
    twoPow_ne_zero (by omega)
  rw [signbitNegative]
  simp only [signMask_eq hSize, BitVec.and_twoPow]
  cases val.getLsbD (8 * size - 1)
  · simp
  · simpa using hNe

/-
  Bits that are lost above the word are put back with the
  sign.
-/
theorem intSright_of_negative
    (hSize : 1 ≤ size)
    (hEight : size ≤ 8)
    (hShift : known.toNat < 8 * size)
    (hOut : out.toNat < 2 ^ (8 * size))
    (hNegative : NegativeAfter size known.toNat out) :
    intSright size size (out <<< known.toNat) known = out := by
  have hSign : signbitNegative (out <<< known.toNat) size =
      true := by
    rw [signbitNegative_eq_getLsbD hSize hEight,
      BitVec.getLsbD_shiftLeft,
      decide_eq_true (show 8 * size - 1 < 64 by omega),
      decide_eq_false (show ¬ 8 * size - 1 < known.toNat by
        omega),
      hNegative _ (by omega) (by omega)]
    rfl
  rw [intSright, if_neg (by omega), if_pos hSign]
  apply BitVec.eq_of_getLsbD_eq
  intro index hIndex
  rw [BitVec.getLsbD_or, BitVec.getLsbD_ushiftRight,
    BitVec.getLsbD_shiftLeft, BitVec.getLsbD_xor,
    BitVec.getLsbD_ushiftRight, getLsbD_calcMask hIndex,
    Nat.add_sub_cancel_left,
    decide_eq_false (show ¬ known.toNat + index < known.toNat by
      omega)]
  by_cases hInside : index < 8 * size
  · by_cases hNear : known.toNat + index < 8 * size
    · rw [getLsbD_calcMask (by omega), decide_eq_true hNear,
        decide_eq_true hInside,
        decide_eq_true (show known.toNat + index < 64 by omega)]
      simp
    · rw [getLsbD_calcMask_of_le (Nat.not_lt.mp hNear),
        decide_eq_true hInside,
        hNegative index (by omega) hInside]
      simp
  · have hMask : (calcMask size).getLsbD
        (known.toNat + index) = false :=
      getLsbD_calcMask_of_le (by omega)
    rw [hMask, decide_eq_false hInside,
      getLsbD_of_size_le hOut (Nat.not_lt.mp hInside)]
    simp

/- A negative output of a value of the size. -/
theorem negative_of_intSright
    (hSize : 1 ≤ size)
    (hEight : size ≤ 8)
    (hIn : in1.toNat < 2 ^ (8 * size))
    (hSign : (intSright size size in1 known).getLsbD
      (8 * size - 1) = true) :
    NegativeAfter size known.toNat
      (intSright size size in1 known) := by
  intro index hLow hHigh
  have hLast : ∀ {bit : Nat}, 8 * size ≤ bit + known.toNat + 1 →
      bit < 8 * size →
      (intSright size size in1 known).getLsbD bit =
        in1.getLsbD (8 * size - 1) := by
    intro bit hBit hInside
    rw [getLsbD_intSright hSize hEight hIn (by omega),
      decide_eq_true hInside, Bool.true_and]
    by_cases hNear : known.toNat + bit < 8 * size
    · rw [if_pos hNear]
      congr 1
      omega
    · rw [if_neg hNear]
  rw [hLast (by omega) (by omega)] at hSign
  rw [hLast hLow hHigh, hSign]

/- The one value is recovered when the output fits. -/
theorem recovery_of_fits
    {opcode : OpCode}
    {recovered : Result}
    {value : BitVec 64}
    {fits : Prop}
    (hFits : fits → recovered = .ok value)
    (hError : ¬ fits →
      recovered = outOfRange (shiftName opcode))
    (hInput : fits ↔
      HasInput opcode size known out ∧
        (opcode = .intSright →
          out.getLsbD (8 * size - 1) = true))
    (hValue : fits →
      evaluateBinary formats opcode size size value known =
        .ok out)
    (hSized : fits → opcode ≠ .intSright →
      value.toNat < 2 ^ (8 * size)) :
    RecoversShift formats opcode size known out recovered := by
  have hOnly : ∀ in1, recovered = .ok in1 ↔
      fits ∧ value = in1 := by
    intro in1
    by_cases hYes : fits
    · rw [hFits hYes, ok_eq_iff]
      exact ⟨fun hEq => ⟨hYes, hEq⟩, fun hBoth => hBoth.2⟩
    · rw [hError hYes]
      exact ⟨fun hEq => absurd hEq (by simp [outOfRange]),
        fun hBoth => absurd hBoth.1 hYes⟩
  constructor
  · rw [← hInput]
    constructor
    · intro hSome
      rcases hSome with ⟨in1, hEq⟩
      exact ((hOnly in1).mp hEq).1
    · intro hYes
      exact ⟨value, hFits hYes⟩
  · intro in1 hEq
    rcases (hOnly in1).mp hEq with ⟨hYes, hSame⟩
    rw [← hSame]
    exact hValue hYes
  · intro hOpcode in1 hEq
    rcases (hOnly in1).mp hEq with ⟨hYes, hSame⟩
    rw [← hSame]
    exact hSized hYes hOpcode
  · intro hNone
    apply hError
    intro hYes
    exact hNone value (hFits hYes)

theorem hasInput_intLeft_iff
    (hEight : size ≤ 8)
    (hShift : known.toNat < 8 * size)
    (hOut : out.toNat < 2 ^ (8 * size)) :
    ClearBelow known.toNat out ↔
      HasInput .intLeft size known out := by
  constructor
  · intro hClear
    refine ⟨out >>> known.toNat, ushiftRight_lt hOut _, ?_⟩
    rw [evaluateBinary, intLeft_of_clear hShift hOut hClear]
  · intro hInput
    rcases hInput with ⟨in1, _, hEval⟩
    rw [evaluateBinary, ok_eq_iff] at hEval
    rw [← hEval]
    exact clear_of_intLeft hShift hEight in1

theorem hasInput_intRight_iff
    (hEight : size ≤ 8)
    (hShift : known.toNat < 8 * size) :
    out.toNat < 2 ^ (8 * size - known.toNat) ↔
      HasInput .intRight size known out := by
  constructor
  · intro hLess
    refine ⟨out <<< known.toNat,
      shiftLeft_lt hEight hShift hLess, ?_⟩
    rw [evaluateBinary, intRight_of_lt hEight hShift hLess]
  · intro hInput
    rcases hInput with ⟨in1, hIn, hEval⟩
    rw [evaluateBinary, ok_eq_iff] at hEval
    rw [← hEval]
    exact lt_of_intRight hEight hShift hIn

/- The value of the size that a negative output comes from. -/
theorem hasInput_intSright_iff
    (hSize : 1 ≤ size)
    (hEight : size ≤ 8)
    (hShift : known.toNat < 8 * size)
    (hOut : out.toNat < 2 ^ (8 * size)) :
    NegativeAfter size known.toNat out ↔
      HasInput .intSright size known out ∧
        out.getLsbD (8 * size - 1) = true := by
  constructor
  · intro hNegative
    refine ⟨⟨out <<< known.toNat &&& calcMask size,
      and_calcMask_lt hEight _, ?_⟩,
      hNegative _ (by omega) (by omega)⟩
    have hBit : ∀ {index : Nat}, index < 64 →
        known.toNat ≤ index → index < 8 * size →
        (out <<< known.toNat &&& calcMask size).getLsbD index =
          out.getLsbD (index - known.toNat) := by
      intro index hIndex hLow hHigh
      rw [BitVec.getLsbD_and, BitVec.getLsbD_shiftLeft,
        getLsbD_calcMask hIndex, decide_eq_true hIndex,
        decide_eq_true hHigh,
        decide_eq_false (Nat.not_lt.mpr hLow)]
      simp
    rw [evaluateBinary, ok_eq_iff]
    apply BitVec.eq_of_getLsbD_eq
    intro index hIndex
    rw [getLsbD_intSright hSize hEight
      (and_calcMask_lt hEight _) hIndex]
    by_cases hInside : index < 8 * size
    · rw [decide_eq_true hInside, Bool.true_and]
      by_cases hNear : known.toNat + index < 8 * size
      · rw [if_pos hNear, hBit (by omega) (by omega) hNear,
          Nat.add_sub_cancel_left]
      · rw [if_neg hNear,
          hBit (by omega) (by omega) (by omega),
          hNegative _ (by omega) (by omega),
          hNegative index (by omega) hInside]
    · rw [decide_eq_false hInside, Bool.false_and,
        getLsbD_of_size_le hOut (Nat.not_lt.mp hInside)]
  · intro hBoth
    rcases hBoth with ⟨⟨in1, hIn, hEval⟩, hSign⟩
    rw [evaluateBinary, ok_eq_iff] at hEval
    rw [← hEval] at hSign ⊢
    exact negative_of_intSright hSize hEight hIn hSign

theorem recoversShift
    (formats : FloatFormats)
    {opcode : OpCode}
    (hOpcode : isShift opcode = true)
    (hSize : 1 ≤ size)
    (hEight : size ≤ 8)
    (hShift : known.toNat < 8 * size)
    (hOut : out.toNat < 2 ^ (8 * size))
    (hPart : ¬ ShiftsWholeWord opcode size known) :
    RecoversShift formats opcode size known out
      (recoverInputBinary opcode 0 size out size known) := by
  cases opcode
  case intLeft =>
    have hInside := part_of_not_shiftsWholeWord hEight
      hPart (by simp)
    rw [recoverInputBinary, recoverLeft_eq hEight hShift
      hInside]
    apply @recovery_of_fits formats size out known .intLeft _
      (out >>> known.toNat) (ClearBelow known.toNat out)
    · intro hClear
      exact if_neg (not_not.mpr
        ((recoverLeft_fits_iff hEight hShift).mpr hClear))
    · intro hNot
      exact if_pos (fun hZero =>
        hNot ((recoverLeft_fits_iff hEight hShift).mp hZero))
    · rw [hasInput_intLeft_iff hEight hShift hOut]
      simp
    · intro hClear
      rw [evaluateBinary, intLeft_of_clear hShift hOut hClear]
    · intro _ _
      exact ushiftRight_lt hOut _
  case intRight =>
    have hInside := part_of_not_shiftsWholeWord hEight
      hPart (by simp)
    rw [recoverInputBinary, recoverRight_eq hEight hShift
      hInside]
    apply @recovery_of_fits formats size out known .intRight _
      (out <<< known.toNat)
      (out.toNat < 2 ^ (8 * size - known.toNat))
    · intro hLess
      exact if_neg (not_not.mpr
        ((recoverRight_fits_iff out _).mpr hLess))
    · intro hNot
      exact if_pos (fun hZero =>
        hNot ((recoverRight_fits_iff out _).mp hZero))
    · rw [hasInput_intRight_iff hEight hShift]
      simp
    · intro hLess
      rw [evaluateBinary, intRight_of_lt hEight hShift hLess]
    · intro hLess _
      exact shiftLeft_lt hEight hShift hLess
  case intSright =>
    rw [recoverInputBinary, recoverSright_eq hEight hShift]
    apply @recovery_of_fits formats size out known .intSright _
      (out <<< known.toNat)
      (NegativeAfter size known.toNat out)
    · intro hNegative
      exact if_neg (not_not.mpr
        ((recoverSright_fits_iff hShift).mpr hNegative))
    · intro hNot
      exact if_pos (fun hCount =>
        hNot ((recoverSright_fits_iff hShift).mp hCount))
    · rw [hasInput_intSright_iff hSize hEight hShift hOut]
      simp
    · intro hNegative
      rw [evaluateBinary, intSright_of_negative hSize hEight
        hShift hOut hNegative]
    · intro _ hSright
      exact absurd rfl hSright
  all_goals exact absurd hOpcode (by simp [isShift])

/-
  An input of a shift is recovered when some value gives the
  output, and for an arithmetic right shift only when the
  output is negative.  What is recovered gives the output.
  Recovering begins with an undefined shift when the value
  shifted is a whole word and the shift is zero.
-/
theorem recoverInputBinary_shift
    (formats : FloatFormats)
    {opcode : OpCode}
    (hOpcode : isShift opcode = true)
    (hSize : 1 ≤ size)
    (hEight : size ≤ 8)
    (hShift : known.toNat < 8 * size)
    (hOut : out.toNat < 2 ^ (8 * size)) :
    (ShiftsWholeWord opcode size known →
        recoverInputBinary opcode 0 size out size known =
          .error .undefined) ∧
      (¬ ShiftsWholeWord opcode size known →
        RecoversShift formats opcode size known out
          (recoverInputBinary opcode 0 size out size
            known)) := by
  constructor
  · intro hWhole
    exact recover_of_shiftsWholeWord hOpcode hWhole out
  · intro hPart
    exact recoversShift formats hOpcode hSize hEight hShift
      hOut hPart

/- A byte shifted right: 0xf8 is the output of 0xc0. -/
theorem recoverInputBinary_shift_sright :
    (ShiftsWholeWord .intSright 1 3 →
        recoverInputBinary .intSright 0 1 0xf8 1 3 =
          .error .undefined) ∧
      (¬ ShiftsWholeWord .intSright 1 3 →
        RecoversShift (fun _ => none) .intSright 1 3 0xf8
          (recoverInputBinary .intSright 0 1 0xf8 1 3)) :=
  recoverInputBinary_shift (fun _ => none) rfl (by omega)
    (by omega) (by decide) (by decide)

/- A whole word is shifted by 64 to see what would be lost. -/
example :
    recoverInputBinary .intLeft 0 8 5 8 0 =
      .error .undefined :=
  rfl

/- What is recovered may have bits above the byte. -/
example :
    recoverInputBinary .intSright 0 1 0xf8 1 3 =
      .ok 0x7c0 :=
  rfl

end OpBehavior

end LLDBGhidra

------------------------------------------------------------
-- Complementary Comparisons
------------------------------------------------------------

namespace LLDBGhidra

namespace OpBehavior

/- A result and the opposite of it. -/
def Complementary
    (left right : Result) : Prop :=
  ∃ result : Bool,
    left = .ok (truth result) ∧ right = .ok (truth (!result))

theorem complementary_of_not
    {left right : Bool}
    (hNot : right = !left) :
    Complementary (.ok (truth left)) (.ok (truth right)) :=
  ⟨left, rfl, by rw [hNot]⟩

theorem le_flip
    (in1 in2 : BitVec 64) :
    decide (in2 ≤ in1) = !decide (in1 < in2) := by
  rw [← decide_not]
  apply decide_eq_decide.mpr
  rw [BitVec.le_def, BitVec.lt_def, Nat.not_lt]

theorem lt_flip
    (in1 in2 : BitVec 64) :
    decide (in2 < in1) = !decide (in1 ≤ in2) := by
  rw [← decide_not]
  apply decide_eq_decide.mpr
  rw [BitVec.le_def, BitVec.lt_def, Nat.not_le]

/- Signs that differ decide both comparisons. -/
theorem signedLess_flip
    {size : Nat}
    {less flipped : BitVec 64 → BitVec 64 → Bool}
    (hSize : 1 ≤ size)
    (hEight : size ≤ 8)
    (hFlip : ∀ x y, flipped y x = !less x y)
    (in1 in2 : BitVec 64) :
    Complementary (.ok (signedLess less size in1 in2))
      (.ok (signedLess flipped size in2 in1)) := by
  have hZero : size ≠ 0 := by omega
  have hNe : BitVec.twoPow 64 (8 * size - 1) ≠ 0 :=
    twoPow_ne_zero (by omega)
  rw [signedLess, signedLess, if_neg hZero, if_neg hZero,
    signMask_eq hSize]
  simp only [BitVec.and_twoPow]
  generalize BitVec.twoPow 64 (8 * size - 1) = sign at *
  cases in1.getLsbD (8 * size - 1) <;>
    cases in2.getLsbD (8 * size - 1)
  · simpa using complementary_of_not (hFlip in1 in2)
  · have hNe' : ¬ 0#64 = sign := fun hEq => hNe hEq.symm
    have hSign : ¬ sign = 0#64 := hNe
    simpa [hNe', hSign] using
      @complementary_of_not false true rfl
  · have hNe' : ¬ 0#64 = sign := fun hEq => hNe hEq.symm
    have hSign : ¬ sign = 0#64 := hNe
    simpa [hNe', hSign] using
      @complementary_of_not true false rfl
  · simpa using complementary_of_not (hFlip in1 in2)

/- The complementary comparison gives the opposite result. -/
theorem evaluateBinary_booleanflip
    (formats : FloatFormats)
    {opcode flipped : OpCode}
    {reorder : Bool}
    {sizein : Nat}
    (hInteger : opcode.isFloat = false)
    (hBinary : opcode ≠ .boolNegate)
    (hFlip : getBooleanflip opcode = some (flipped, reorder))
    (hSize : 1 ≤ sizein)
    (hEight : sizein ≤ 8)
    (sizeout : Nat)
    (in1 in2 : BitVec 64) :
    Complementary
      (evaluateBinary formats opcode sizeout sizein in1 in2)
      (evaluateBinary formats flipped sizeout sizein
        (if reorder then in2 else in1)
        (if reorder then in1 else in2)) := by
  cases opcode <;> cases hFlip
  case intEqual =>
    exact complementary_of_not decide_not
  case intNotequal =>
    exact complementary_of_not (by simp)
  case intSless =>
    exact signedLess_flip hSize hEight le_flip in1 in2
  case intSlessequal =>
    exact signedLess_flip hSize hEight lt_flip in1 in2
  case intLess =>
    exact complementary_of_not (le_flip in1 in2)
  case intLessequal =>
    exact complementary_of_not (lt_flip in1 in2)
  case boolNegate => exact absurd rfl hBinary
  all_goals exact absurd hInteger (by simp [OpCode.isFloat])

theorem evaluateBinary_booleanflip_sless :
    Complementary
      (evaluateBinary (fun _ => none) .intSless 1 2 0x8000 3)
      (evaluateBinary (fun _ => none) .intSlessequal 1 2
        3 0x8000) :=
  @evaluateBinary_booleanflip (fun _ => none) .intSless
    .intSlessequal true 2 rfl (by simp) rfl
    (by omega) (by omega) 1 0x8000 3

end OpBehavior

end LLDBGhidra
