import LLDBGhidra.Decompiler.OpBehavior
import Mathlib.Tactic.Ring

/-
  What the integer operations of p-code mean, for values of
  any size in bytes, and that their behaviours compute it for
  values of up to eight bytes.

  Main declarations:
    * `Pcode.unaryMeaning`
    * `Pcode.binaryMeaning`
    * `Pcode.UnaryInput`
    * `Pcode.BinaryInput`
    * `OpBehavior.evaluateUnary_eq_meaning`
    * `OpBehavior.evaluateBinary_eq_meaning`
-/

------------------------------------------------------------
-- The Meaning of Operations
------------------------------------------------------------

namespace LLDBGhidra

/- Is the operation one on floating-point values? -/
def OpCode.isFloat
    (opc : OpCode) : Bool :=
  match opc with
  | .floatEqual => true
  | .floatNotequal => true
  | .floatLess => true
  | .floatLessequal => true
  | .floatNan => true
  | .floatAdd => true
  | .floatDiv => true
  | .floatMult => true
  | .floatSub => true
  | .floatNeg => true
  | .floatAbs => true
  | .floatSqrt => true
  | .floatInt2float => true
  | .floatFloat2float => true
  | .floatTrunc => true
  | .floatCeil => true
  | .floatFloor => true
  | .floatRound => true
  | _ => false

namespace Pcode

/- The signed value of a number of the size. -/
def signed
    (size number : Nat) : Int :=
  (BitVec.ofNat (8 * size) number).toInt

/- The number of the size for a signed value, which wraps. -/
def wrapped
    (size : Nat)
    (value : Int) : Nat :=
  (BitVec.ofInt (8 * size) value).toNat

/- Does a signed value need more bytes than the size? -/
def overflows
    (size : Nat)
    (value : Int) : Bool :=
  value < -2 ^ (8 * size - 1) ∨ 2 ^ (8 * size - 1) ≤ value

def truth
    (condition : Bool) : Nat :=
  if condition then 1 else 0

/- Division by zero has no meaning. -/
def divided
    (divisor result : Nat) : Option Nat :=
  if divisor = 0 then none else some result

/- The meaning of an operation on one value. -/
def unaryMeaning
    (opc : OpCode)
    (sizeout sizein x : Nat) : Option Nat :=
  match opc with
  | .copy => some x
  | .intZext => some x
  | .intSext => some (wrapped sizeout (signed sizein x))
  | .int2comp => some (wrapped sizein (-x))
  | .intNegate => some (2 ^ (8 * sizein) - 1 - x)
  | .boolNegate => some (1 - x)
  | .popcount => some (BitVec.ofNat (8 * sizein) x).cpop.toNat
  | .lzcount =>
      some (8 * sizein - (if x = 0 then 0 else Nat.log2 x + 1))
  | _ => none

/- The meaning of an operation on two values. -/
def binaryMeaning
    (opc : OpCode)
    (sizeout size1 size2 x y : Nat) : Option Nat :=
  match opc with
  | .intEqual => some (truth (x = y))
  | .intNotequal => some (truth (x ≠ y))
  | .intSless =>
      some (truth (signed size1 x < signed size1 y))
  | .intSlessequal =>
      some (truth (signed size1 x ≤ signed size1 y))
  | .intLess => some (truth (x < y))
  | .intLessequal => some (truth (x ≤ y))
  | .intAdd => some ((x + y) % 2 ^ (8 * size1))
  | .intSub => some (wrapped size1 ((x : Int) - y))
  | .intCarry => some (truth (2 ^ (8 * size1) ≤ x + y))
  | .intScarry =>
      some (truth (overflows size1
        (signed size1 x + signed size1 y)))
  | .intSborrow =>
      some (truth (overflows size1
        (signed size1 x - signed size1 y)))
  | .intXor => some (x ^^^ y)
  | .intAnd => some (x &&& y)
  | .intOr => some (x ||| y)
  | .intLeft => some (x * 2 ^ y % 2 ^ (8 * size1))
  | .intRight => some (x / 2 ^ y)
  | .intSright =>
      some (wrapped size1 (signed size1 x / 2 ^ y))
  | .intMult => some (x * y % 2 ^ (8 * size1))
  | .intDiv => divided y (x / y)
  | .intSdiv =>
      divided y (wrapped size1
        ((signed size1 x).tdiv (signed size1 y)))
  | .intRem => divided y (x % y)
  | .intSrem =>
      divided y (wrapped size1
        ((signed size1 x).tmod (signed size1 y)))
  | .boolXor => some (truth (x ≠ y))
  | .boolAnd => some (truth (x = 1 ∧ y = 1))
  | .boolOr => some (truth (x = 1 ∨ y = 1))
  | .piece => some (x * 2 ^ (8 * size2) + y)
  | .subpiece => some (x / 2 ^ (8 * y) % 2 ^ (8 * sizeout))
  | .ptrsub => some ((x + y) % 2 ^ (8 * size1))
  | _ => none

/- A value of the size, with the sizes that fit together. -/
structure UnaryInput
    (opc : OpCode)
    (sizeout sizein x : Nat) : Prop where
  sized : x < 2 ^ (8 * sizein)
  nonempty : 1 ≤ sizein
  widens : opc = .intSext → sizein ≤ sizeout
  boolean : opc = .boolNegate → x ≤ 1

/- Does the operation keep the size of its first input? -/
def keepsSize
    (opc : OpCode) : Bool :=
  match opc with
  | .intAdd => true
  | .intSub => true
  | .intXor => true
  | .intAnd => true
  | .intOr => true
  | .intLeft => true
  | .intRight => true
  | .intSright => true
  | .intMult => true
  | .intDiv => true
  | .intSdiv => true
  | .intRem => true
  | .intSrem => true
  | .ptrsub => true
  | _ => false

/- May the second input have a size of its own? -/
def mixesSizes
    (opc : OpCode) : Bool :=
  match opc with
  | .intLeft => true
  | .intRight => true
  | .intSright => true
  | .piece => true
  | .subpiece => true
  | _ => false

def isBoolean
    (opc : OpCode) : Bool :=
  match opc with
  | .boolXor => true
  | .boolAnd => true
  | .boolOr => true
  | _ => false

/- Values of the sizes, with the sizes that fit together. -/
structure BinaryInput
    (opc : OpCode)
    (sizeout size1 size2 x y : Nat) : Prop where
  sized1 : x < 2 ^ (8 * size1)
  sized2 : y < 2 ^ (8 * size2)
  nonempty : 1 ≤ size1
  same : keepsSize opc = true → sizeout = size1
  equal : mixesSizes opc = false → size2 = size1
  pieces : opc = .piece → sizeout = size1 + size2
  boolean : isBoolean opc = true → x ≤ 1 ∧ y ≤ 1

/- The one quotient that a signed division has no room for. -/
def DivisionOverflows
    (opc : OpCode)
    (size x y : Nat) : Prop :=
  (opc = .intSdiv ∨ opc = .intSrem) ∧ size = 8 ∧
    x = 2 ^ 63 ∧ y = 2 ^ 64 - 1

instance
    (opc : OpCode)
    (size x y : Nat) :
    Decidable (DivisionOverflows opc size x y) :=
  inferInstanceAs (Decidable (_ ∧ _))

/- Why an operation on two values without a meaning fails. -/
def binaryFailure
    (opc : OpCode) : OpFailure :=
  match opc with
  | .intDiv => .evaluationError "Divide by 0"
  | .intSdiv => .evaluationError "Divide by 0"
  | .intRem => .evaluationError "Remainder by 0"
  | .intSrem => .evaluationError "Remainder by 0"
  | _ =>
      .lowlevelError
        ("Binary emulation unimplemented for " ++
          getOpname opc)

/- A meaning, or the failure where there is none. -/
def orFailure
    (failure : OpFailure)
    (meaning : Option Nat) : Except OpFailure Nat :=
  match meaning with
  | none => .error failure
  | some result => .ok result

/- All that can come of an operation on two values. -/
def binaryOutcome
    (opc : OpCode)
    (sizeout size1 size2 x y : Nat) : Except OpFailure Nat :=
  if DivisionOverflows opc size1 x y then
    .error .undefined
  else
    orFailure (binaryFailure opc)
      (binaryMeaning opc sizeout size1 size2 x y)

end Pcode

end LLDBGhidra

------------------------------------------------------------
-- Signed Values
------------------------------------------------------------

namespace LLDBGhidra

namespace Pcode

theorem two_pow_size
    {size : Nat}
    (hSize : 1 ≤ size) :
    2 ^ (8 * size) = 2 * 2 ^ (8 * size - 1) := by
  rw [← Nat.pow_succ']
  congr 1
  omega

/- The signed value, by the sign. -/
theorem signed_eq
    {size number : Nat}
    (hSize : 1 ≤ size)
    (hNumber : number < 2 ^ (8 * size)) :
    signed size number =
      if number < 2 ^ (8 * size - 1) then
        (number : Int)
      else
        (number : Int) - 2 ^ (8 * size) := by
  have hDouble := two_pow_size hSize
  rw [signed, BitVec.toInt_eq_toNat_cond, BitVec.toNat_ofNat,
    Nat.mod_eq_of_lt hNumber]
  have hIff : 2 * number < 2 ^ (8 * size) ↔
      number < 2 ^ (8 * size - 1) := by omega
  simp only [hIff]
  push_cast
  rfl

theorem wrapped_eq
    (size : Nat)
    (value : Int) :
    (wrapped size value : Int) = value % 2 ^ (8 * size) := by
  have hPos : (0 : Int) < 2 ^ (8 * size) :=
    Int.pow_pos (by omega)
  rw [wrapped, BitVec.toNat_ofInt]
  push_cast
  exact Int.toNat_of_nonneg (Int.emod_nonneg _ (by omega))

/- The lower bytes of a 64-bit value, from its signed value. -/
theorem wrapped_toInt
    {size : Nat}
    (hSize : size ≤ 8)
    (val : BitVec 64) :
    wrapped size val.toInt = val.toNat % 2 ^ (8 * size) := by
  rw [wrapped]
  change (val.signExtend (8 * size)).toNat = _
  rw [BitVec.signExtend_eq_setWidth_of_le _ (by omega),
    BitVec.toNat_setWidth]

/- Values that agree modulo the size wrap alike. -/
theorem wrapped_congr
    {size : Nat}
    {left right : Int}
    (hMod : left % 2 ^ (8 * size) = right % 2 ^ (8 * size)) :
    wrapped size left = wrapped size right := by
  have hLeft := wrapped_eq size left
  have hRight := wrapped_eq size right
  omega

/- Wrapping to 64 bits first makes no difference. -/
theorem emod_emod_size
    {size : Nat}
    (hSize : size ≤ 8)
    (value : Int) :
    value % 2 ^ 64 % 2 ^ (8 * size) =
      value % 2 ^ (8 * size) :=
  Int.emod_emod_of_dvd _ (pow_dvd_pow 2 (by omega))

theorem wrapped_bmod
    {size : Nat}
    (hSize : size ≤ 8)
    (value : Int) :
    wrapped size (value.bmod (2 ^ 64)) = wrapped size value := by
  have hBmod : value.bmod (2 ^ 64) % 2 ^ 64 =
      value % 2 ^ 64 :=
    Int.bmod_emod
  apply wrapped_congr
  rw [← emod_emod_size hSize (value.bmod (2 ^ 64)), hBmod,
    emod_emod_size hSize]

end Pcode

end LLDBGhidra

------------------------------------------------------------
-- Signs and Sized Bits
------------------------------------------------------------

namespace LLDBGhidra

open Pcode

variable {size : Nat}
variable {val : BitVec 64}

/- The sign bit tells whether the value is in the upper half. -/
theorem getLsbD_sign
    (hSize : 1 ≤ size)
    (hVal : val.toNat < 2 ^ (8 * size)) :
    val.getLsbD (8 * size - 1) =
      decide (2 ^ (8 * size - 1) ≤ val.toNat) := by
  have hDouble := two_pow_size hSize
  have hPos := Nat.two_pow_pos (8 * size - 1)
  rw [BitVec.getLsbD, Nat.testBit_eq_decide_div_mod_eq]
  by_cases hUpper : 2 ^ (8 * size - 1) ≤ val.toNat
  · have hOne : val.toNat / 2 ^ (8 * size - 1) = 1 := by
      apply Nat.div_eq_of_lt_le <;> omega
    simp [hOne, hUpper]
  · have hZero : val.toNat / 2 ^ (8 * size - 1) = 0 :=
      Nat.div_eq_of_lt (by omega)
    simp [hZero, hUpper]

/- The mask of the sign bit. -/
theorem signMask_eq
    (hSize : 1 ≤ size) :
    0x80#64 <<< (8 * (size - 1)) =
      BitVec.twoPow 64 (8 * size - 1) := by
  have hStart : 0x80#64 = 1#64 <<< 7 := rfl
  rw [BitVec.twoPow, hStart, ← BitVec.shiftLeft_add]
  congr 1
  omega

/- The sign bit, from the mask of the size. -/
theorem signMask_of_calcMask
    (hSize : 1 ≤ size)
    (hEight : size ≤ 8) :
    calcMask size ^^^ calcMask size >>> 1 =
      BitVec.twoPow 64 (8 * size - 1) := by
  apply BitVec.eq_of_getLsbD_eq
  intro index hIndex
  rw [BitVec.getLsbD_xor, BitVec.getLsbD_ushiftRight,
    getLsbD_calcMask hIndex, BitVec.getLsbD_twoPow]
  by_cases hLast : index = 8 * size - 1
  · have hIn : index < 8 * size := by omega
    have hOff : (calcMask size).getLsbD (1 + index) = false :=
      getLsbD_calcMask_of_le (by omega)
    rw [hOff, decide_eq_true hIn,
      decide_eq_true (show 8 * size - 1 < 64 by omega),
      decide_eq_true (show 8 * size - 1 = index by omega)]
    rfl
  · have hNe : ¬ 8 * size - 1 = index := by omega
    rw [decide_eq_false hNe, Bool.and_false]
    by_cases hIn : index < 8 * size
    · rw [getLsbD_calcMask (by omega), decide_eq_true hIn,
        decide_eq_true (by omega)]
      rfl
    · have hOff : (calcMask size).getLsbD (1 + index) =
          false :=
        getLsbD_calcMask_of_le (by omega)
      rw [hOff, decide_eq_false hIn]
      rfl

theorem twoPow_ne_zero
    {index : Nat}
    (hIndex : index < 64) :
    BitVec.twoPow 64 index ≠ 0 := by
  intro hZero
  have hBit : (BitVec.twoPow 64 index).getLsbD index = true := by
    rw [BitVec.getLsbD_twoPow]
    simp [hIndex]
  rw [hZero] at hBit
  simp at hBit

/- The sign bit alone is zero when the sign is positive. -/
theorem and_signMask_ne_zero
    (hSize : 1 ≤ size)
    (hEight : size ≤ 8)
    (hVal : val.toNat < 2 ^ (8 * size)) :
    val &&& 0x80#64 <<< (8 * (size - 1)) ≠ 0 ↔
      2 ^ (8 * size - 1) ≤ val.toNat := by
  have hNe : BitVec.twoPow 64 (8 * size - 1) ≠ 0 :=
    twoPow_ne_zero (by omega)
  rw [signMask_eq hSize, BitVec.and_twoPow,
    getLsbD_sign hSize hVal]
  by_cases hUpper : 2 ^ (8 * size - 1) ≤ val.toNat
  · simp only [hUpper, decide_true, if_true, iff_true]
    exact hNe
  · simp [hUpper]

theorem signbitNegative_eq
    (hSize : 1 ≤ size)
    (hEight : size ≤ 8)
    (hVal : val.toNat < 2 ^ (8 * size)) :
    signbitNegative val size =
      decide (2 ^ (8 * size - 1) ≤ val.toNat) := by
  rw [signbitNegative]
  exact decide_eq_decide.mpr
    (and_signMask_ne_zero hSize hEight hVal)

/- Shifted to the top of a word, a value keeps its sign. -/
theorem toInt_shiftLeft_top
    (hSize : 1 ≤ size)
    (hEight : size ≤ 8)
    (hVal : val.toNat < 2 ^ (8 * size)) :
    (val <<< (64 - 8 * size)).toInt =
      signed size val.toNat * 2 ^ (64 - 8 * size) := by
  have hDouble := two_pow_size hSize
  have hWord : 2 ^ (8 * size) * 2 ^ (64 - 8 * size) = 2 ^ 64 := by
    rw [← Nat.pow_add]
    congr 1
    omega
  have hPos := Nat.two_pow_pos (64 - 8 * size)
  have hLt : val.toNat * 2 ^ (64 - 8 * size) < 2 ^ 64 := by
    rw [← hWord]
    exact Nat.mul_lt_mul_of_pos_right hVal hPos
  rw [BitVec.toInt_eq_toNat_cond, BitVec.toNat_shiftLeft,
    Nat.shiftLeft_eq, Nat.mod_eq_of_lt hLt,
    signed_eq hSize hVal]
  have hIff : 2 * (val.toNat * 2 ^ (64 - 8 * size)) < 2 ^ 64 ↔
      val.toNat < 2 ^ (8 * size - 1) := by
    rw [← hWord, hDouble, Nat.mul_assoc 2,
      Nat.mul_lt_mul_left (by omega),
      Nat.mul_lt_mul_right hPos]
  simp only [hIff]
  by_cases hLower : val.toNat < 2 ^ (8 * size - 1)
  · rw [if_pos hLower, if_pos hLower]
    push_cast
    rfl
  · rw [if_neg hLower, if_neg hLower, ← hWord]
    push_cast
    ring

/- `sign_extend` above the sign bit is the signed value. -/
theorem toInt_signExtendBit
    (hSize : 1 ≤ size)
    (hEight : size ≤ 8)
    (hVal : val.toNat < 2 ^ (8 * size)) :
    (signExtendBit val (8 * size - 1)).toInt =
      signed size val.toNat := by
  have hShift : 64 - (8 * size - 1 + 1) = 64 - 8 * size := by
    omega
  rw [signExtendBit]
  simp only [hShift]
  rw [BitVec.toInt_sshiftRight,
    toInt_shiftLeft_top hSize hEight hVal,
    Int.shiftRight_eq_div_pow]
  push_cast
  exact Int.mul_ediv_cancel _ (by
    have : (0 : Int) < 2 ^ (64 - 8 * size) :=
      Int.pow_pos (by omega)
    omega)

/- `zero_extend` above the last bit takes the lower bytes. -/
theorem toNat_zeroExtendBit
    (hSize : 1 ≤ size)
    (hEight : size ≤ 8)
    (val : BitVec 64) :
    (zeroExtendBit val (8 * size - 1)).toNat =
      val.toNat % 2 ^ (8 * size) := by
  rw [← toNat_and_calcMask hEight]
  congr 1
  apply BitVec.eq_of_getLsbD_eq
  intro index hIndex
  rw [zeroExtendBit, BitVec.getLsbD_ushiftRight,
    BitVec.getLsbD_shiftLeft, BitVec.getLsbD_and,
    getLsbD_calcMask hIndex]
  have hIff : (64 - (8 * size - 1 + 1) + index < 64) ↔
      index < 8 * size := by omega
  have hSub : 64 - (8 * size - 1 + 1) + index -
      (64 - (8 * size - 1 + 1)) = index := by omega
  have hNot : ¬ 64 - (8 * size - 1 + 1) + index <
      64 - (8 * size - 1 + 1) := by omega
  rw [hSub]
  simp only [hIff, hNot, decide_false, Bool.not_false,
    Bool.and_true]
  exact Bool.and_comm _ _

/- The bits of `sign_extend` between two sizes. -/
theorem getLsbD_signExtend
    {sizein sizeout index : Nat}
    (hSizein : 1 ≤ sizein)
    (hWider : sizein ≤ sizeout)
    (hEight : sizeout ≤ 8)
    (val : BitVec 64)
    (hIndex : index < 64) :
    (signExtend val sizein sizeout).getLsbD index =
      (decide (index < 8 * sizeout) &&
        if index < 8 * sizein then val.getLsbD index
        else val.getLsbD (8 * sizein - 1)) := by
  have hIn : (if sizein < 8 then sizein else 8) = sizein := by
    by_cases hLess : sizein < 8
    · rw [if_pos hLess]
    · rw [if_neg hLess]
      omega
  have hOut : (if sizeout < 8 then sizeout else 8) =
      sizeout := by
    by_cases hLess : sizeout < 8
    · rw [if_pos hLess]
    · rw [if_neg hLess]
      omega
  rw [signExtend]
  simp only [hIn, hOut]
  rw [BitVec.getLsbD_ushiftRight, BitVec.getLsbD_sshiftRight,
    BitVec.msb_eq_getLsbD_last]
  simp only [BitVec.getLsbD_shiftLeft]
  by_cases hInside : index < 8 * sizeout
  · have hBelow : ¬ 64 ≤ (8 - sizeout) * 8 + index := by omega
    by_cases hNarrow : index < 8 * sizein
    · have hLess : (sizeout - sizein) * 8 +
          ((8 - sizeout) * 8 + index) < 64 := by omega
      have hNot : ¬ (sizeout - sizein) * 8 +
          ((8 - sizeout) * 8 + index) < (8 - sizein) * 8 := by
        omega
      have hSub : (sizeout - sizein) * 8 +
          ((8 - sizeout) * 8 + index) - (8 - sizein) * 8 =
          index := by omega
      simp [hInside, hNarrow, hBelow, hLess, hNot, hSub]
    · have hMore : ¬ (sizeout - sizein) * 8 +
          ((8 - sizeout) * 8 + index) < 64 := by omega
      have hNot : ¬ 64 - 1 < (8 - sizein) * 8 := by omega
      have hSub : 64 - 1 - (8 - sizein) * 8 =
          8 * sizein - 1 := by omega
      rw [if_neg hMore, if_neg hNarrow, hSub]
      simp only [hInside, hBelow, hNot, decide_true,
        decide_false, Bool.not_false, Bool.true_and]
      simp
  · have hAbove : 64 ≤ (8 - sizeout) * 8 + index := by omega
    simp [hInside, hAbove]

/- `sign_extend` between two sizes keeps the signed value. -/
theorem toNat_signExtend
    {sizein sizeout : Nat}
    (hSizein : 1 ≤ sizein)
    (hWider : sizein ≤ sizeout)
    (hEight : sizeout ≤ 8)
    (val : BitVec 64) :
    (signExtend val sizein sizeout).toNat =
      wrapped sizeout (signed sizein val.toNat) := by
  rw [signed, wrapped]
  change _ = ((BitVec.ofNat (8 * sizein) val.toNat).signExtend
    (8 * sizeout)).toNat
  apply Nat.eq_of_testBit_eq
  intro index
  change (signExtend val sizein sizeout).getLsbD index =
    ((BitVec.ofNat (8 * sizein) val.toNat).signExtend
      (8 * sizeout)).getLsbD index
  by_cases hIndex : index < 64
  · rw [getLsbD_signExtend hSizein hWider hEight val hIndex,
      BitVec.getLsbD_signExtend, BitVec.msb_eq_getLsbD_last,
      BitVec.getLsbD_ofNat, BitVec.getLsbD_ofNat]
    have hLast : 8 * sizein - 1 < 8 * sizein := by omega
    by_cases hNarrow : index < 8 * sizein
    · simp only [hNarrow, if_true, decide_true, Bool.true_and]
      rfl
    · simp only [hNarrow, if_false, hLast, decide_true,
        Bool.true_and]
      rfl
  · rw [BitVec.getLsbD_of_ge _ _ (by omega),
      BitVec.getLsbD_of_ge _ _ (by omega)]

end LLDBGhidra

------------------------------------------------------------
-- Behaviours on One Value
------------------------------------------------------------

namespace LLDBGhidra

namespace OpBehavior

open Pcode

variable {formats : FloatFormats}
variable {size sizeout sizein : Nat}
variable {in1 in2 : BitVec 64}

theorem toNat_truth
    (condition : Bool) :
    (OpBehavior.truth condition).toNat =
      Pcode.truth condition := by
  cases condition <;> rfl

/- The lower bytes of a word that is a value modulo 2^64. -/
theorem toNat_and_calcMask_of_emod
    {value : Int}
    (hEight : size ≤ 8)
    (hValue : (val.toNat : Int) % 2 ^ 64 = value % 2 ^ 64) :
    (val &&& calcMask size).toNat = wrapped size value := by
  have hWrapped := wrapped_eq size value
  rw [← emod_emod_size hEight, ← hValue,
    emod_emod_size hEight] at hWrapped
  have hMask : ((val &&& calcMask size).toNat : Int) =
      (val.toNat : Int) % 2 ^ (8 * size) := by
    rw [toNat_and_calcMask hEight]
    push_cast
    rfl
  omega

theorem evaluate_int2comp
    (hEight : size ≤ 8)
    (in1 : BitVec 64) :
    (uintbNegate (in1 - 1) size).toNat =
      wrapped size (-(in1.toNat : Int)) := by
  have hNeg : ~~~(in1 - 1) = -in1 := by
    have hLt := in1.isLt
    have hOne : (1 : BitVec 64).toNat = 1 := rfl
    apply BitVec.eq_of_toNat_eq
    rw [BitVec.toNat_not, BitVec.toNat_sub, BitVec.toNat_neg,
      hOne]
    omega
  have hLt := in1.isLt
  rw [uintbNegate, hNeg]
  apply toNat_and_calcMask_of_emod hEight
  rw [BitVec.toNat_neg]
  omega

theorem evaluate_intNegate
    (hEight : size ≤ 8)
    (hVal : in1.toNat < 2 ^ (8 * size)) :
    (uintbNegate in1 size).toNat =
      2 ^ (8 * size) - 1 - in1.toNat := by
  have hWord : 2 ^ 64 = 2 ^ (8 * size) * 2 ^ (64 - 8 * size) := by
    rw [← Nat.pow_add]
    congr 1
    omega
  have hPos := Nat.two_pow_pos (64 - 8 * size)
  obtain ⟨rest, hRest⟩ : ∃ rest,
      2 ^ (64 - 8 * size) = rest + 1 :=
    ⟨2 ^ (64 - 8 * size) - 1, by omega⟩
  rw [uintbNegate, toNat_and_calcMask hEight, BitVec.toNat_not]
  have hSum : 2 ^ 64 - 1 - in1.toNat =
      (2 ^ (8 * size) - 1 - in1.toNat) +
        2 ^ (8 * size) * rest := by
    rw [hWord, hRest, Nat.mul_succ]
    omega
  rw [hSum, Nat.add_mul_mod_self_left]
  exact Nat.mod_eq_of_lt (by omega)

theorem evaluate_boolNegate
    (hBool : in1.toNat ≤ 1) :
    (in1 ^^^ 1).toNat = 1 - in1.toNat := by
  have hCases : in1.toNat = 0 ∨ in1.toNat = 1 := by omega
  have hOne : (1 : BitVec 64).toNat = 1 := rfl
  rw [BitVec.toNat_xor, hOne]
  rcases hCases with hZero | hSet
  · rw [hZero]
    rfl
  · rw [hSet]
    rfl

theorem evaluate_popcount
    (hEight : size ≤ 8)
    (hVal : in1.toNat < 2 ^ (8 * size)) :
    (BitVec.ofNat 64 (LLDBGhidra.popcount in1)).toNat =
      (BitVec.ofNat (8 * size) in1.toNat).cpop.toNat := by
  have hBound := BitVec.toNat_cpop_le in1
  have hSized : (BitVec.ofNat (8 * size) in1.toNat).toNat =
      in1.toNat := by
    rw [BitVec.toNat_ofNat]
    exact Nat.mod_eq_of_lt hVal
  rw [popcount_eq, BitVec.toNat_ofNat,
    Nat.mod_eq_of_lt (by omega),
    ← BitCount.fieldSum_one_eq_cpop,
    ← BitCount.fieldSum_one_eq_cpop, hSized]
  exact BitCount.fieldSum_one_of_lt hVal (by omega)

theorem evaluate_lzcount
    (hEight : size ≤ 8)
    (hVal : in1.toNat < 2 ^ (8 * size)) :
    (BitVec.ofNat 64 (countLeadingZeros in1) -
        BitVec.ofNat 64 (8 * (8 - size))).toNat =
      8 * size -
        (if in1.toNat = 0 then 0
        else Nat.log2 in1.toNat + 1) := by
  have hCount : countLeadingZeros in1 =
      64 - (if in1.toNat = 0 then 0
        else Nat.log2 in1.toNat + 1) := by
    by_cases hZero : in1 = 0
    · rw [hZero]
      rfl
    · rcases HighestBit.exists_of_ne_zero hZero with
        ⟨highest, hHighest⟩
      have hNat : in1.toNat ≠ 0 := by
        intro hNat
        exact hZero (BitVec.eq_of_toNat_eq hNat)
      rw [countLeadingZeros_eq hHighest, hHighest.log2_eq,
        if_neg hNat]
      omega
  have hBits : (if in1.toNat = 0 then 0
      else Nat.log2 in1.toNat + 1) ≤ 8 * size := by
    by_cases hNat : in1.toNat = 0
    · rw [if_pos hNat]
      omega
    · rw [if_neg hNat]
      exact (Nat.log2_lt hNat).mpr hVal
  rw [hCount]
  generalize (if in1.toNat = 0 then 0
    else Nat.log2 in1.toNat + 1) = bits at hBits
  rw [BitVec.toNat_sub, BitVec.toNat_ofNat, BitVec.toNat_ofNat]
  omega

/- The behaviour of an operation on one value computes it. -/
theorem evaluateUnary_eq_meaning
    (formats : FloatFormats)
    {opcode : OpCode}
    (hInteger : opcode.isFloat = false)
    (hSizein : sizein ≤ 8)
    (hSizeout : sizeout ≤ 8)
    (hInput : UnaryInput opcode sizeout sizein in1.toNat) :
    (evaluateUnary formats opcode sizeout sizein
        in1).toOption.map BitVec.toNat =
      unaryMeaning opcode sizeout sizein in1.toNat := by
  have hSized := hInput.sized
  cases opcode <;> try rfl
  case intSext =>
    exact congrArg some
      (toNat_signExtend hInput.nonempty (hInput.widens rfl)
        hSizeout in1)
  case int2comp =>
    exact congrArg some (evaluate_int2comp hSizein in1)
  case intNegate =>
    exact congrArg some (evaluate_intNegate hSizein hSized)
  case boolNegate =>
    exact congrArg some
      (evaluate_boolNegate (hInput.boolean rfl))
  case popcount =>
    exact congrArg some (evaluate_popcount hSizein hSized)
  case lzcount =>
    exact congrArg some (evaluate_lzcount hSizein hSized)
  all_goals exact absurd hInteger (by simp [OpCode.isFloat])

/- A byte with four set bits. -/
theorem popcountInput :
    UnaryInput .popcount 1 1 (0x5a#64).toNat :=
  { sized := by decide
    nonempty := by omega
    widens := by simp
    boolean := by simp }

theorem evaluateUnary_eq_meaning_popcount :
    (evaluateUnary (fun _ => none) .popcount 1 1
        0x5a).toOption.map BitVec.toNat = some 4 :=
  evaluateUnary_eq_meaning (fun _ => none) rfl (by omega)
    (by omega) popcountInput

end OpBehavior

end LLDBGhidra

------------------------------------------------------------
-- Comparisons and Overflows
------------------------------------------------------------

namespace LLDBGhidra

namespace OpBehavior

open Pcode

variable {formats : FloatFormats}
variable {size : Nat}
variable {in1 in2 : BitVec 64}

/- The sign decides; equal signs leave it to the comparison. -/
theorem signedLess_eq
    (less : BitVec 64 → BitVec 64 → Bool)
    (hSize : 1 ≤ size)
    (hEight : size ≤ 8)
    (hIn1 : in1.toNat < 2 ^ (8 * size))
    (hIn2 : in2.toNat < 2 ^ (8 * size)) :
    (signedLess less size in1 in2).toNat =
      if 2 ^ (8 * size - 1) ≤ in1.toNat ↔
          2 ^ (8 * size - 1) ≤ in2.toNat then
        Pcode.truth (less in1 in2)
      else
        Pcode.truth (2 ^ (8 * size - 1) ≤ in1.toNat) := by
  have hNe : BitVec.twoPow 64 (8 * size - 1) ≠ 0 :=
    twoPow_ne_zero (by omega)
  have hZero : size ≠ 0 := by omega
  rw [signedLess, if_neg hZero]
  simp only [signMask_eq hSize, BitVec.and_twoPow,
    getLsbD_sign hSize hIn1, getLsbD_sign hSize hIn2]
  by_cases hUpper1 : 2 ^ (8 * size - 1) ≤ in1.toNat
  · by_cases hUpper2 : 2 ^ (8 * size - 1) ≤ in2.toNat
    · simp [hUpper1, hUpper2, toNat_truth]
    · have hNe' : ¬ BitVec.twoPow 64 (8 * size - 1) = 0#64 :=
        hNe
      simp [hUpper1, hUpper2, hNe', toNat_truth]
  · by_cases hUpper2 : 2 ^ (8 * size - 1) ≤ in2.toNat
    · have hNe' : ¬ 0#64 = BitVec.twoPow 64 (8 * size - 1) :=
        fun hEq => hNe hEq.symm
      simp [hUpper1, hUpper2, hNe', toNat_truth]
    · simp [hUpper1, hUpper2, toNat_truth]

/- A comparison of signed values, by the signs. -/
theorem signed_lt_iff
    {x y : Nat}
    (hSize : 1 ≤ size)
    (hX : x < 2 ^ (8 * size))
    (hY : y < 2 ^ (8 * size)) :
    signed size x < signed size y ↔
      if 2 ^ (8 * size - 1) ≤ x ↔ 2 ^ (8 * size - 1) ≤ y then
        x < y
      else
        2 ^ (8 * size - 1) ≤ x := by
  have hDouble := two_pow_size hSize
  rw [signed_eq hSize hX, signed_eq hSize hY]
  have hCast : (2 : Int) ^ (8 * size) =
      ((2 ^ (8 * size) : Nat) : Int) := by
    push_cast
    rfl
  rw [hCast]
  generalize 2 ^ (8 * size) = whole at *
  generalize 2 ^ (8 * size - 1) = half at *
  split_ifs <;> omega

/- The same comparison, where equal values are in order. -/
theorem signed_le_iff
    {x y : Nat}
    (hSize : 1 ≤ size)
    (hX : x < 2 ^ (8 * size))
    (hY : y < 2 ^ (8 * size)) :
    signed size x ≤ signed size y ↔
      if 2 ^ (8 * size - 1) ≤ x ↔ 2 ^ (8 * size - 1) ≤ y then
        x ≤ y
      else
        2 ^ (8 * size - 1) ≤ x := by
  have hLess := signed_lt_iff hSize hY hX
  rw [← Int.not_lt, hLess]
  split_ifs <;> omega

theorem truth_congr
    {left right : Prop}
    [Decidable left]
    [Decidable right]
    (hIff : left ↔ right) :
    Pcode.truth left = Pcode.truth right := by
  rw [decide_eq_decide.mpr hIff]

theorem evaluate_intSless
    (hSize : 1 ≤ size)
    (hEight : size ≤ 8)
    (hIn1 : in1.toNat < 2 ^ (8 * size))
    (hIn2 : in2.toNat < 2 ^ (8 * size)) :
    (signedLess (fun x y => x < y) size in1 in2).toNat =
      Pcode.truth
        (signed size in1.toNat < signed size in2.toNat) := by
  rw [signedLess_eq _ hSize hEight hIn1 hIn2,
    truth_congr (signed_lt_iff hSize hIn1 hIn2)]
  by_cases hSigns : 2 ^ (8 * size - 1) ≤ in1.toNat ↔
      2 ^ (8 * size - 1) ≤ in2.toNat
  · simp only [hSigns, if_true, BitVec.lt_def]
  · simp only [hSigns, if_false]

theorem evaluate_intSlessequal
    (hSize : 1 ≤ size)
    (hEight : size ≤ 8)
    (hIn1 : in1.toNat < 2 ^ (8 * size))
    (hIn2 : in2.toNat < 2 ^ (8 * size)) :
    (signedLess (fun x y => x ≤ y) size in1 in2).toNat =
      Pcode.truth
        (signed size in1.toNat ≤ signed size in2.toNat) := by
  rw [signedLess_eq _ hSize hEight hIn1 hIn2,
    truth_congr (signed_le_iff hSize hIn1 hIn2)]
  by_cases hSigns : 2 ^ (8 * size - 1) ≤ in1.toNat ↔
      2 ^ (8 * size - 1) ≤ in2.toNat
  · simp only [hSigns, if_true, BitVec.le_def]
  · simp only [hSigns, if_false]

theorem evaluate_intCarry
    (hEight : size ≤ 8)
    (hIn1 : in1.toNat < 2 ^ (8 * size))
    (hIn2 : in2.toNat < 2 ^ (8 * size)) :
    (OpBehavior.truth
        (((in1 + in2) &&& calcMask size) < in1)).toNat =
      Pcode.truth
        (2 ^ (8 * size) ≤ in1.toNat + in2.toNat) := by
  rw [toNat_truth]
  apply truth_congr
  rw [BitVec.lt_def, toNat_and_calcMask hEight,
    BitVec.toNat_add, mod_mod_size hEight]
  by_cases hCarry : 2 ^ (8 * size) ≤ in1.toNat + in2.toNat
  · have hSub : (in1.toNat + in2.toNat) % 2 ^ (8 * size) =
        in1.toNat + in2.toNat - 2 ^ (8 * size) := by
      rw [Nat.mod_eq_sub_mod hCarry]
      exact Nat.mod_eq_of_lt (by omega)
    omega
  · have hSum : (in1.toNat + in2.toNat) % 2 ^ (8 * size) =
        in1.toNat + in2.toNat :=
      Nat.mod_eq_of_lt (by omega)
    omega

/- The sign bit as a number, of the lower bytes of a word. -/
theorem signBit_eq
    (hSize : 1 ≤ size)
    (hEight : size ≤ 8)
    (val : BitVec 64) :
    signBit size val =
      OpBehavior.truth
        (2 ^ (8 * size - 1) ≤ val.toNat % 2 ^ (8 * size)) := by
  have hIndex : size * 8 - 1 = 8 * size - 1 := by omega
  have hMasked : (val &&& calcMask size).toNat <
      2 ^ (8 * size) := by
    rw [toNat_and_calcMask hEight]
    exact Nat.mod_lt _ (Nat.two_pow_pos _)
  have hSign := getLsbD_sign hSize hMasked
  rw [BitVec.getLsbD_and, getLsbD_calcMask (by omega),
    decide_eq_true (show 8 * size - 1 < 8 * size by omega),
    Bool.and_true, toNat_and_calcMask hEight] at hSign
  rw [signBit, hIndex, ← hSign]
  apply BitVec.eq_of_getLsbD_eq
  intro index hLess
  rw [BitVec.getLsbD_and, BitVec.getLsbD_ushiftRight]
  by_cases hZero : index = 0
  · rw [hZero, Nat.add_zero]
    cases val.getLsbD (8 * size - 1) <;> rfl
  · have hOff : (1 : BitVec 64).getLsbD index = false := by
      change (1#64).getLsbD index = false
      rw [BitVec.getLsbD_one]
      simp [hZero]
    rw [hOff, Bool.and_false]
    cases val.getLsbD (8 * size - 1)
    · simp [OpBehavior.truth]
    · simpa [OpBehavior.truth] using hOff.symm

/- Equal bits `a` and `b` next to another bit `r`. -/
theorem toNat_signs
    (r a b : Bool) :
    ((OpBehavior.truth r ^^^ OpBehavior.truth a) &&&
        (OpBehavior.truth a ^^^ OpBehavior.truth b ^^^
          1)).toNat =
      Pcode.truth (r != a && a == b) := by
  cases r <;> cases a <;> cases b <;> rfl

/- The sum of two values of a size needs one bit more. -/
theorem mod_size_of_sum
    {whole x y : Nat}
    (hX : x < whole)
    (hY : y < whole) :
    (x + y) % whole =
      if x + y < whole then x + y else x + y - whole := by
  by_cases hLess : x + y < whole
  · rw [if_pos hLess]
    exact Nat.mod_eq_of_lt hLess
  · rw [if_neg hLess, Nat.mod_eq_sub_mod (by omega)]
    exact Nat.mod_eq_of_lt (by omega)

/- A sum overflows when equal signs make another sign. -/
theorem evaluate_intScarry
    (hSize : 1 ≤ size)
    (hEight : size ≤ 8)
    (hIn1 : in1.toNat < 2 ^ (8 * size))
    (hIn2 : in2.toNat < 2 ^ (8 * size)) :
    (intScarry size in1 in2).toNat =
      Pcode.truth (Pcode.overflows size
        (signed size in1.toNat + signed size in2.toNat)) := by
  have hDouble := two_pow_size hSize
  have hSum : (in1 + in2).toNat % 2 ^ (8 * size) =
      (in1.toNat + in2.toNat) % 2 ^ (8 * size) := by
    rw [BitVec.toNat_add, mod_mod_size hEight]
  rw [intScarry, signBit_eq hSize hEight,
    signBit_eq hSize hEight, signBit_eq hSize hEight, hSum,
    Nat.mod_eq_of_lt hIn1, Nat.mod_eq_of_lt hIn2,
    mod_size_of_sum hIn1 hIn2, toNat_signs, Pcode.overflows,
    signed_eq hSize hIn1, signed_eq hSize hIn2]
  congr 1
  rw [Bool.eq_iff_iff]
  simp only [Bool.and_eq_true, bne_iff_ne, ne_eq, beq_iff_eq,
    decide_eq_decide, decide_eq_true_eq]
  rw [show (2 : Int) ^ (8 * size) =
      ((2 ^ (8 * size) : Nat) : Int) by push_cast; rfl,
    show (2 : Int) ^ (8 * size - 1) =
      ((2 ^ (8 * size - 1) : Nat) : Int) by push_cast; rfl]
  generalize 2 ^ (8 * size) = whole at *
  generalize 2 ^ (8 * size - 1) = half at *
  split_ifs <;> omega

/- Equal bits `r` and `b` next to another bit `a`. -/
theorem toNat_borrowSigns
    (r a b : Bool) :
    ((OpBehavior.truth a ^^^ OpBehavior.truth r) &&&
        (OpBehavior.truth r ^^^ OpBehavior.truth b ^^^
          1)).toNat =
      Pcode.truth (a != r && r == b) := by
  cases r <;> cases a <;> cases b <;> rfl

/- The difference of two values of a size, modulo the size. -/
theorem mod_size_of_sub
    (hEight : size ≤ 8)
    (hIn1 : in1.toNat < 2 ^ (8 * size))
    (hIn2 : in2.toNat < 2 ^ (8 * size)) :
    (in1 - in2).toNat % 2 ^ (8 * size) =
      if in2.toNat ≤ in1.toNat then in1.toNat - in2.toNat
      else in1.toNat + 2 ^ (8 * size) - in2.toNat := by
  by_cases hLess : in2.toNat ≤ in1.toNat
  · rw [if_pos hLess, BitVec.toNat_sub_of_le hLess]
    exact Nat.mod_eq_of_lt (by omega)
  · have hWord : 2 ^ 64 =
        2 ^ (8 * size) * 2 ^ (64 - 8 * size) := by
      rw [← Nat.pow_add]
      congr 1
      omega
    have hPos := Nat.two_pow_pos (64 - 8 * size)
    obtain ⟨rest, hRest⟩ : ∃ rest,
        2 ^ (64 - 8 * size) = rest + 1 :=
      ⟨2 ^ (64 - 8 * size) - 1, by omega⟩
    have hSum : 2 ^ 64 - in2.toNat + in1.toNat =
        (in1.toNat + 2 ^ (8 * size) - in2.toNat) +
          2 ^ (8 * size) * rest := by
      rw [hWord, hRest, Nat.mul_succ]
      omega
    rw [if_neg hLess, BitVec.toNat_sub, mod_mod_size hEight,
      hSum, Nat.add_mul_mod_self_left]
    exact Nat.mod_eq_of_lt (by omega)

/- A difference overflows when it gets the second sign. -/
theorem evaluate_intSborrow
    (hSize : 1 ≤ size)
    (hEight : size ≤ 8)
    (hIn1 : in1.toNat < 2 ^ (8 * size))
    (hIn2 : in2.toNat < 2 ^ (8 * size)) :
    (intSborrow size in1 in2).toNat =
      Pcode.truth (Pcode.overflows size
        (signed size in1.toNat - signed size in2.toNat)) := by
  have hDouble := two_pow_size hSize
  rw [intSborrow, signBit_eq hSize hEight,
    signBit_eq hSize hEight, signBit_eq hSize hEight,
    Nat.mod_eq_of_lt hIn1, Nat.mod_eq_of_lt hIn2,
    mod_size_of_sub hEight hIn1 hIn2, toNat_borrowSigns,
    Pcode.overflows, signed_eq hSize hIn1,
    signed_eq hSize hIn2]
  congr 1
  rw [Bool.eq_iff_iff]
  simp only [Bool.and_eq_true, bne_iff_ne, ne_eq, beq_iff_eq,
    decide_eq_decide, decide_eq_true_eq]
  rw [show (2 : Int) ^ (8 * size) =
      ((2 ^ (8 * size) : Nat) : Int) by push_cast; rfl,
    show (2 : Int) ^ (8 * size - 1) =
      ((2 ^ (8 * size - 1) : Nat) : Int) by push_cast; rfl]
  generalize 2 ^ (8 * size) = whole at *
  generalize 2 ^ (8 * size - 1) = half at *
  split_ifs <;> omega

end OpBehavior

end LLDBGhidra

------------------------------------------------------------
-- Arithmetic and Shifts
------------------------------------------------------------

namespace LLDBGhidra

namespace OpBehavior

open Pcode

variable {formats : FloatFormats}
variable {size sizeout : Nat}
variable {in1 in2 : BitVec 64}

theorem evaluate_intAdd
    (hEight : size ≤ 8)
    (in1 in2 : BitVec 64) :
    ((in1 + in2) &&& calcMask size).toNat =
      (in1.toNat + in2.toNat) % 2 ^ (8 * size) := by
  rw [toNat_and_calcMask hEight, BitVec.toNat_add,
    mod_mod_size hEight]

theorem evaluate_intSub
    (hEight : size ≤ 8)
    (in1 in2 : BitVec 64) :
    ((in1 - in2) &&& calcMask size).toNat =
      wrapped size ((in1.toNat : Int) - in2.toNat) := by
  have hLt1 := in1.isLt
  have hLt2 := in2.isLt
  apply toNat_and_calcMask_of_emod hEight
  rw [BitVec.toNat_sub]
  omega

theorem evaluate_intMult
    (hEight : size ≤ 8)
    (in1 in2 : BitVec 64) :
    ((in1 * in2) &&& calcMask size).toNat =
      in1.toNat * in2.toNat % 2 ^ (8 * size) := by
  rw [toNat_and_calcMask hEight, BitVec.toNat_mul,
    mod_mod_size hEight]

theorem evaluate_intLeft
    (hEight : size ≤ 8)
    (in1 in2 : BitVec 64) :
    (intLeft size in1 in2).toNat =
      in1.toNat * 2 ^ in2.toNat % 2 ^ (8 * size) := by
  rw [intLeft]
  by_cases hShift : size * 8 ≤ in2.toNat
  · have hDvd : 2 ^ (8 * size) ∣ in1.toNat * 2 ^ in2.toNat :=
      Dvd.dvd.mul_left (pow_dvd_pow 2 (by omega)) _
    rw [if_pos hShift, Nat.mod_eq_zero_of_dvd hDvd]
    rfl
  · rw [if_neg hShift, toNat_and_calcMask hEight,
      BitVec.toNat_shiftLeft, Nat.shiftLeft_eq,
      mod_mod_size hEight]

theorem evaluate_intRight
    (hEight : size ≤ 8)
    (hIn1 : in1.toNat < 2 ^ (8 * size)) :
    (intRight size in1 in2).toNat =
      in1.toNat / 2 ^ in2.toNat := by
  rw [intRight]
  by_cases hShift : size * 8 ≤ in2.toNat
  · have hLess : in1.toNat < 2 ^ in2.toNat :=
      lt_of_lt_of_le hIn1
        (Nat.pow_le_pow_right Nat.two_pos (by omega))
    rw [if_pos hShift, Nat.div_eq_of_lt hLess]
    rfl
  · rw [if_neg hShift, BitVec.toNat_ushiftRight,
      toNat_and_calcMask hEight, Nat.mod_eq_of_lt hIn1,
      Nat.shiftRight_eq_div_pow]

/- A value of the size has no bits above it. -/
theorem getLsbD_of_size_le
    {val : BitVec 64}
    {index : Nat}
    (hVal : val.toNat < 2 ^ (8 * size))
    (hIndex : 8 * size ≤ index) :
    val.getLsbD index = false := by
  apply Nat.testBit_lt_two_pow
  exact lt_of_lt_of_le hVal
    (Nat.pow_le_pow_right Nat.two_pos hIndex)

/- The sign is shifted in from above. -/
theorem getLsbD_intSright
    (hSize : 1 ≤ size)
    (hEight : size ≤ 8)
    (hIn1 : in1.toNat < 2 ^ (8 * size))
    {index : Nat}
    (hIndex : index < 64) :
    (intSright size size in1 in2).getLsbD index =
      (decide (index < 8 * size) &&
        if in2.toNat + index < 8 * size then
          in1.getLsbD (in2.toNat + index)
        else
          in1.getLsbD (8 * size - 1)) := by
  rw [intSright, signbitNegative_eq hSize hEight hIn1,
    ← getLsbD_sign hSize hIn1]
  by_cases hInside : index < 8 * size
  · by_cases hShift : 8 * size ≤ in2.toNat
    · have hFar : ¬ in2.toNat + index < 8 * size := by omega
      rw [if_pos hShift, if_neg hFar]
      cases in1.getLsbD (8 * size - 1)
      · simp
      · simp [getLsbD_calcMask hIndex, hInside]
    · rw [if_neg hShift]
      by_cases hNear : in2.toNat + index < 8 * size
      · have hLess : in2.toNat + index < 64 := by omega
        rw [if_pos hNear]
        cases in1.getLsbD (8 * size - 1)
        · simp [hInside]
        · simp [getLsbD_calcMask hIndex,
            getLsbD_calcMask hLess, hInside, hNear]
      · have hOff := getLsbD_of_size_le hIn1
          (Nat.not_lt.mp hNear)
        have hMask : (calcMask size).getLsbD
            (in2.toNat + index) = false :=
          getLsbD_calcMask_of_le (Nat.not_lt.mp hNear)
        rw [if_neg hNear]
        cases in1.getLsbD (8 * size - 1)
        · simp [hOff]
        · simp [getLsbD_calcMask hIndex, hMask, hInside]
  · have hOff := @getLsbD_of_size_le size in1
      (in2.toNat + index) hIn1 (by omega)
    have hMask : (calcMask size).getLsbD
        (in2.toNat + index) = false :=
      getLsbD_calcMask_of_le (by omega)
    by_cases hShift : 8 * size ≤ in2.toNat
    · rw [if_pos hShift]
      cases in1.getLsbD (8 * size - 1)
      · simp [hInside]
      · simp [hInside, getLsbD_calcMask hIndex]
    · rw [if_neg hShift]
      cases in1.getLsbD (8 * size - 1)
      · simp [hOff, hInside]
      · simp [hOff, hInside, hMask, getLsbD_calcMask hIndex]

theorem evaluate_intSright
    (hSize : 1 ≤ size)
    (hEight : size ≤ 8)
    (hIn1 : in1.toNat < 2 ^ (8 * size)) :
    (intSright size size in1 in2).toNat =
      wrapped size
        (signed size in1.toNat / 2 ^ in2.toNat) := by
  have hMeaning : wrapped size
      (signed size in1.toNat / 2 ^ in2.toNat) =
        ((BitVec.ofNat (8 * size) in1.toNat).sshiftRight
          in2.toNat).toNat := by
    rw [wrapped, signed, BitVec.sshiftRight,
      Int.shiftRight_eq_div_pow]
    push_cast
    rfl
  rw [hMeaning]
  apply Nat.eq_of_testBit_eq
  intro index
  change (intSright size size in1 in2).getLsbD index =
    ((BitVec.ofNat (8 * size) in1.toNat).sshiftRight
      in2.toNat).getLsbD index
  by_cases hIndex : index < 64
  · have hLast : 8 * size - 1 < 8 * size := by omega
    rw [getLsbD_intSright hSize hEight hIn1 hIndex,
      BitVec.getLsbD_sshiftRight, BitVec.msb_eq_getLsbD_last,
      BitVec.getLsbD_ofNat, BitVec.getLsbD_ofNat]
    have hInside : (!decide (8 * size ≤ index)) =
        decide (index < 8 * size) := by
      rw [← decide_not]
      exact decide_eq_decide.mpr Nat.not_le
    rw [hInside, decide_eq_true hLast, Bool.true_and]
    by_cases hNear : in2.toNat + index < 8 * size
    · rw [if_pos hNear, if_pos hNear, decide_eq_true hNear,
        Bool.true_and]
      rfl
    · rw [if_neg hNear, if_neg hNear]
      rfl
  · rw [BitVec.getLsbD_of_ge _ _ (by omega),
      BitVec.getLsbD_of_ge _ _ (by omega)]

end OpBehavior

end LLDBGhidra

------------------------------------------------------------
-- Division and Pieces
------------------------------------------------------------

namespace LLDBGhidra

namespace OpBehavior

open Pcode

variable {formats : FloatFormats}
variable {size sizeout : Nat}
variable {in1 in2 : BitVec 64}

theorem eq_zero_iff
    (val : BitVec 64) :
    val = 0 ↔ val.toNat = 0 := by
  constructor
  · intro hZero
    rw [hZero]
    rfl
  · intro hZero
    exact BitVec.eq_of_toNat_eq hZero

/- Only the lowest 64-bit value divided by -1 overflows. -/
theorem overflows_signExtendBit
    (hSize : 1 ≤ size)
    (hEight : size ≤ 8)
    (hIn1 : in1.toNat < 2 ^ (8 * size))
    (hIn2 : in2.toNat < 2 ^ (8 * size)) :
    OpBehavior.overflows (signExtendBit in1 (8 * size - 1))
        (signExtendBit in2 (8 * size - 1)) = true →
      size = 8 ∧ in1.toNat = 2 ^ 63 ∧
        in2.toNat = 2 ^ 64 - 1 := by
  intro hOverflows
  rw [OpBehavior.overflows, Bool.and_eq_true,
    decide_eq_true_eq, decide_eq_true_eq] at hOverflows
  rcases hOverflows with ⟨hMin, hOnes⟩
  have hSigned1 := toInt_signExtendBit hSize hEight hIn1
  have hSigned2 := toInt_signExtendBit hSize hEight hIn2
  have hMinInt : (BitVec.intMin 64).toInt = -2 ^ 63 := rfl
  have hOnesInt : (BitVec.allOnes 64).toInt = -1 := rfl
  rw [hMin, hMinInt, signed_eq hSize hIn1] at hSigned1
  rw [hOnes, hOnesInt, signed_eq hSize hIn2] at hSigned2
  have hLarge : size = 8 := by
    by_contra hLess
    have hPower : 2 ^ (8 * size) ≤ 2 ^ 56 :=
      Nat.pow_le_pow_right Nat.two_pos (by omega)
    have hCast : (2 : Int) ^ (8 * size) =
        ((2 ^ (8 * size) : Nat) : Int) := by
      push_cast
      rfl
    rw [hCast] at hSigned1
    split_ifs at hSigned1
    all_goals omega
  subst hLarge
  refine ⟨rfl, ?_, ?_⟩
  · split_ifs at hSigned1
    all_goals omega
  · split_ifs at hSigned2
    all_goals omega

theorem not_overflows
    {opcode : OpCode}
    (hDivision : opcode = .intSdiv ∨ opcode = .intSrem)
    (hSize : 1 ≤ size)
    (hEight : size ≤ 8)
    (hIn1 : in1.toNat < 2 ^ (8 * size))
    (hIn2 : in2.toNat < 2 ^ (8 * size))
    (hFits :
      ¬ DivisionOverflows opcode size in1.toNat in2.toNat) :
    OpBehavior.overflows (signExtendBit in1 (8 * size - 1))
      (signExtendBit in2 (8 * size - 1)) = false := by
  cases hOverflows : OpBehavior.overflows
      (signExtendBit in1 (8 * size - 1))
      (signExtendBit in2 (8 * size - 1)) with
  | false => rfl
  | true =>
      exact absurd
        ⟨hDivision, overflows_signExtendBit hSize hEight
          hIn1 hIn2 hOverflows⟩ hFits

theorem evaluate_intDiv
    (in1 in2 : BitVec 64) :
    (intDiv in1 in2).map BitVec.toNat =
      orFailure (.evaluationError "Divide by 0")
        (divided in2.toNat
          (in1.toNat / in2.toNat)) := by
  rw [intDiv, divided]
  by_cases hZero : in2 = 0
  · rw [if_pos hZero, if_pos ((eq_zero_iff in2).mp hZero)]
    rfl
  · rw [if_neg hZero,
      if_neg (fun hNat => hZero ((eq_zero_iff in2).mpr hNat))]
    exact congrArg Except.ok BitVec.toNat_udiv

theorem evaluate_intRem
    (in1 in2 : BitVec 64) :
    (intRem in1 in2).map BitVec.toNat =
      orFailure (.evaluationError "Remainder by 0")
        (divided in2.toNat
          (in1.toNat % in2.toNat)) := by
  rw [intRem, divided]
  by_cases hZero : in2 = 0
  · rw [if_pos hZero, if_pos ((eq_zero_iff in2).mp hZero)]
    rfl
  · rw [if_neg hZero,
      if_neg (fun hNat => hZero ((eq_zero_iff in2).mpr hNat))]
    exact congrArg Except.ok BitVec.toNat_umod

theorem evaluate_intSdiv
    (hSize : 1 ≤ size)
    (hEight : size ≤ 8)
    (hIn1 : in1.toNat < 2 ^ (8 * size))
    (hIn2 : in2.toNat < 2 ^ (8 * size))
    (hFits :
      ¬ DivisionOverflows .intSdiv size in1.toNat in2.toNat) :
    (intSdiv size size in1 in2).map BitVec.toNat =
      orFailure (.evaluationError "Divide by 0")
        (divided in2.toNat (wrapped size
          ((signed size in1.toNat).tdiv
            (signed size in2.toNat)))) := by
  rw [intSdiv, divided]
  by_cases hZero : in2 = 0
  · rw [if_pos hZero, if_pos ((eq_zero_iff in2).mp hZero)]
    rfl
  · rw [if_neg hZero,
      if_neg (fun hNat => hZero ((eq_zero_iff in2).mpr hNat))]
    have hFalse := not_overflows (Or.inl rfl) hSize hEight
      hIn1 hIn2 hFits
    simp only [hFalse, Bool.false_eq_true, if_false]
    apply congrArg Except.ok
    rw [toNat_zeroExtendBit hSize hEight,
      ← wrapped_toInt hEight, BitVec.toInt_sdiv,
      wrapped_bmod hEight, toInt_signExtendBit hSize hEight hIn1,
      toInt_signExtendBit hSize hEight hIn2]

theorem evaluate_intSrem
    (hSize : 1 ≤ size)
    (hEight : size ≤ 8)
    (hIn1 : in1.toNat < 2 ^ (8 * size))
    (hIn2 : in2.toNat < 2 ^ (8 * size))
    (hFits :
      ¬ DivisionOverflows .intSrem size in1.toNat in2.toNat) :
    (intSrem size size in1 in2).map BitVec.toNat =
      orFailure (.evaluationError "Remainder by 0")
        (divided in2.toNat (wrapped size
          ((signed size in1.toNat).tmod
            (signed size in2.toNat)))) := by
  rw [intSrem, divided]
  by_cases hZero : in2 = 0
  · rw [if_pos hZero, if_pos ((eq_zero_iff in2).mp hZero)]
    rfl
  · rw [if_neg hZero,
      if_neg (fun hNat => hZero ((eq_zero_iff in2).mpr hNat))]
    have hFalse := not_overflows (Or.inr rfl) hSize hEight
      hIn1 hIn2 hFits
    simp only [hFalse, Bool.false_eq_true, if_false]
    apply congrArg Except.ok
    rw [toNat_zeroExtendBit hSize hEight,
      ← wrapped_toInt hEight, BitVec.toInt_srem,
      toInt_signExtendBit hSize hEight hIn1,
      toInt_signExtendBit hSize hEight hIn2]

/- The first value is put above the second. -/
theorem evaluate_piece
    {size1 size2 : Nat}
    (hEight : size1 + size2 ≤ 8)
    (hIn1 : in1.toNat < 2 ^ (8 * size1))
    (hIn2 : in2.toNat < 2 ^ (8 * size2)) :
    (in1 <<< ((size1 + size2 - size1) * 8) ||| in2).toNat =
      in1.toNat * 2 ^ (8 * size2) + in2.toNat := by
  have hShift : (size1 + size2 - size1) * 8 = 8 * size2 := by
    omega
  have hWord : 2 ^ (8 * size1) * 2 ^ (8 * size2) ≤ 2 ^ 64 := by
    rw [← Nat.pow_add]
    exact Nat.pow_le_pow_right Nat.two_pos (by omega)
  have hPos := Nat.two_pow_pos (8 * size2)
  have hLess : in1.toNat * 2 ^ (8 * size2) < 2 ^ 64 :=
    lt_of_lt_of_le (Nat.mul_lt_mul_of_pos_right hIn1 hPos) hWord
  rw [hShift, BitVec.toNat_or, BitVec.toNat_shiftLeft,
    Nat.shiftLeft_eq, Nat.mod_eq_of_lt hLess,
    ← Nat.shiftLeft_eq, ← Nat.shiftLeft_add_eq_or_of_lt hIn2]

theorem evaluate_subpiece
    {size1 : Nat}
    (hEight1 : size1 ≤ 8)
    (hEight : sizeout ≤ 8)
    (hIn1 : in1.toNat < 2 ^ (8 * size1)) :
    (OpBehavior.subpiece sizeout in1 in2).toNat =
      in1.toNat / 2 ^ (8 * in2.toNat) % 2 ^ (8 * sizeout) := by
  rw [OpBehavior.subpiece]
  by_cases hFar : 8 ≤ in2.toNat
  · have hLess : in1.toNat < 2 ^ (8 * in2.toNat) :=
      lt_of_lt_of_le hIn1
        (Nat.pow_le_pow_right Nat.two_pos (by omega))
    rw [if_pos hFar, Nat.div_eq_of_lt hLess, Nat.zero_mod]
    rfl
  · rw [if_neg hFar, toNat_and_calcMask hEight,
      BitVec.toNat_ushiftRight, Nat.shiftRight_eq_div_pow,
      Nat.mul_comm]

/- Values of zero and one. -/
theorem toNat_boolCases
    (hBool : in1.toNat ≤ 1) :
    in1 = 0 ∨ in1 = 1 := by
  have hCases : in1.toNat = 0 ∨ in1.toNat = 1 := by omega
  rcases hCases with hZero | hOne
  · exact Or.inl (BitVec.eq_of_toNat_eq hZero)
  · exact Or.inr (BitVec.eq_of_toNat_eq hOne)

theorem evaluate_boolXor
    (hBool1 : in1.toNat ≤ 1)
    (hBool2 : in2.toNat ≤ 1) :
    (in1 ^^^ in2).toNat =
      Pcode.truth (in1.toNat ≠ in2.toNat) := by
  rcases toNat_boolCases hBool1 with hIn1 | hIn1 <;>
    rcases toNat_boolCases hBool2 with hIn2 | hIn2 <;>
    rw [hIn1, hIn2] <;> rfl

theorem evaluate_boolAnd
    (hBool1 : in1.toNat ≤ 1)
    (hBool2 : in2.toNat ≤ 1) :
    (in1 &&& in2).toNat =
      Pcode.truth (in1.toNat = 1 ∧ in2.toNat = 1) := by
  rcases toNat_boolCases hBool1 with hIn1 | hIn1 <;>
    rcases toNat_boolCases hBool2 with hIn2 | hIn2 <;>
    rw [hIn1, hIn2] <;> rfl

theorem evaluate_boolOr
    (hBool1 : in1.toNat ≤ 1)
    (hBool2 : in2.toNat ≤ 1) :
    (in1 ||| in2).toNat =
      Pcode.truth (in1.toNat = 1 ∨ in2.toNat = 1) := by
  rcases toNat_boolCases hBool1 with hIn1 | hIn1 <;>
    rcases toNat_boolCases hBool2 with hIn2 | hIn2 <;>
    rw [hIn1, hIn2] <;> rfl

theorem eq_iff_toNat_eq
    (in1 in2 : BitVec 64) :
    in1 = in2 ↔ in1.toNat = in2.toNat :=
  BitVec.toNat_inj.symm

/- The lowest value divided by minus one is undefined. -/
theorem evaluate_overflow
    (formats : FloatFormats)
    {opcode : OpCode}
    (hOverflow :
      DivisionOverflows opcode size in1.toNat in2.toNat) :
    evaluateBinary formats opcode sizeout size in1 in2 =
      .error .undefined := by
  rcases hOverflow with ⟨hDivision, hSize, hIn1, hIn2⟩
  have hMin : in1 = 0x8000000000000000 :=
    BitVec.eq_of_toNat_eq hIn1
  have hOnes : in2 = 0xffffffffffffffff :=
    BitVec.eq_of_toNat_eq hIn2
  subst hSize hMin hOnes
  rcases hDivision with rfl | rfl
  · rfl
  · rfl

/-
  The behaviour of an operation on two values computes it, or
  fails as it has to.
-/
theorem evaluateBinary_eq_meaning
    (formats : FloatFormats)
    {opcode : OpCode}
    {size1 size2 : Nat}
    (hInteger : opcode.isFloat = false)
    (hSize1 : size1 ≤ 8)
    (hSizeout : sizeout ≤ 8)
    (hInput : BinaryInput opcode sizeout size1 size2
      in1.toNat in2.toNat) :
    (evaluateBinary formats opcode sizeout size1
        in1 in2).map BitVec.toNat =
      binaryOutcome opcode sizeout size1 size2
        in1.toNat in2.toNat := by
  have hSize := hInput.nonempty
  have hIn1 := hInput.sized1
  have hSame := hInput.same
  have hEqual := hInput.equal
  have hIn2 := hInput.sized2
  have hBool := hInput.boolean
  rw [binaryOutcome]
  by_cases hFits :
      DivisionOverflows opcode size1 in1.toNat in2.toNat
  · rw [if_pos hFits, evaluate_overflow formats hFits]
    rfl
  rw [if_neg hFits]
  cases opcode <;> try rfl
  case intEqual =>
    apply congrArg Except.ok
    rw [toNat_truth]
    exact truth_congr (eq_iff_toNat_eq in1 in2)
  case intNotequal =>
    apply congrArg Except.ok
    rw [toNat_truth]
    exact truth_congr (not_congr (eq_iff_toNat_eq in1 in2))
  case intSless =>
    rw [hEqual rfl] at hIn2
    exact congrArg Except.ok
      (evaluate_intSless hSize hSize1 hIn1 hIn2)
  case intSlessequal =>
    rw [hEqual rfl] at hIn2
    exact congrArg Except.ok
      (evaluate_intSlessequal hSize hSize1 hIn1 hIn2)
  case intLess =>
    exact congrArg Except.ok (toNat_truth _)
  case intLessequal =>
    exact congrArg Except.ok (toNat_truth _)
  case intAdd =>
    rw [hSame rfl]
    exact congrArg Except.ok (evaluate_intAdd hSize1 in1 in2)
  case intSub =>
    rw [hSame rfl]
    exact congrArg Except.ok (evaluate_intSub hSize1 in1 in2)
  case intCarry =>
    rw [hEqual rfl] at hIn2
    exact congrArg Except.ok (evaluate_intCarry hSize1 hIn1 hIn2)
  case intScarry =>
    rw [hEqual rfl] at hIn2
    exact congrArg Except.ok
      (evaluate_intScarry hSize hSize1 hIn1 hIn2)
  case intSborrow =>
    rw [hEqual rfl] at hIn2
    exact congrArg Except.ok
      (evaluate_intSborrow hSize hSize1 hIn1 hIn2)
  case intLeft =>
    rw [hSame rfl]
    exact congrArg Except.ok (evaluate_intLeft hSize1 in1 in2)
  case intRight =>
    rw [hSame rfl]
    exact congrArg Except.ok (evaluate_intRight hSize1 hIn1)
  case intSright =>
    rw [hSame rfl]
    exact congrArg Except.ok
      (evaluate_intSright hSize hSize1 hIn1)
  case intMult =>
    rw [hSame rfl]
    exact congrArg Except.ok (evaluate_intMult hSize1 in1 in2)
  case intDiv => exact evaluate_intDiv in1 in2
  case intSdiv =>
    rw [hEqual rfl] at hIn2
    rw [hSame rfl]
    exact evaluate_intSdiv hSize hSize1 hIn1 hIn2 hFits
  case intRem => exact evaluate_intRem in1 in2
  case intSrem =>
    rw [hEqual rfl] at hIn2
    rw [hSame rfl]
    exact evaluate_intSrem hSize hSize1 hIn1 hIn2 hFits
  case boolXor =>
    exact congrArg Except.ok
      (evaluate_boolXor (hBool rfl).1 (hBool rfl).2)
  case boolAnd =>
    exact congrArg Except.ok
      (evaluate_boolAnd (hBool rfl).1 (hBool rfl).2)
  case boolOr =>
    exact congrArg Except.ok
      (evaluate_boolOr (hBool rfl).1 (hBool rfl).2)
  case piece =>
    have hPieces := hInput.pieces rfl
    rw [hPieces] at hSizeout ⊢
    exact congrArg Except.ok
      (evaluate_piece hSizeout hIn1 hIn2)
  case subpiece =>
    exact congrArg Except.ok
      (evaluate_subpiece hSize1 hSizeout hIn1)
  case ptrsub =>
    rw [hSame rfl]
    exact congrArg Except.ok (evaluate_intAdd hSize1 in1 in2)
  all_goals exact absurd hInteger (by simp [OpCode.isFloat])

/- Minus seven and two, as values of four bytes. -/
theorem sdivInput :
    BinaryInput .intSdiv 4 4 4 (0xfffffff9#64).toNat
      (2#64).toNat :=
  { sized1 := by decide
    sized2 := by decide
    nonempty := by omega
    same := fun _ => rfl
    equal := fun _ => rfl
    pieces := by simp
    boolean := by simp [isBoolean] }

theorem evaluateBinary_eq_meaning_sdiv :
    (evaluateBinary (fun _ => none) .intSdiv 4 4
        0xfffffff9 2).map BitVec.toNat =
      .ok 0xfffffffd :=
  evaluateBinary_eq_meaning (fun _ => none) rfl (by omega)
    (by omega) sdivInput

end OpBehavior

end LLDBGhidra
