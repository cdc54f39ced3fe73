import Mathlib.Data.BitVec
import Mathlib.Data.Nat.Bitwise

/-
  Counting the set bits of a number in parallel.

  A number is cut into fields of equal width.  Adding every
  second field to the one below it leaves the sum of the
  fields as it is, so that the fields of width one, the bits,
  are counted by a few such steps.

  Main declarations:
    * `fieldSum`
    * `foldPairs`
    * `fieldSum_foldPairs`
    * `fieldSum_one_eq_cpop`
    * `cpop_le_of_bits`
-/

------------------------------------------------------------
-- Fields of a Number
------------------------------------------------------------

namespace BitCount

/- The sum of the lowest fields of a width. -/
def fieldSum
    (width value count : Nat) : Nat :=
  match count with
  | 0 => 0
  | count + 1 =>
      value % 2 ^ width +
        fieldSum width (value / 2 ^ width) count

/- Ones in every second field. -/
def foldMask
    (width count : Nat) : Nat :=
  match count with
  | 0 => 0
  | count + 1 =>
      2 ^ width - 1 + 2 ^ (width + width) * foldMask width count

/- Add every second field to the one below it. -/
def foldPairs
    (width mask value : Nat) : Nat :=
  (value &&& mask) + ((value / 2 ^ width) &&& mask)

/- The highest field, apart. -/
theorem fieldSum_succ
    (width value count : Nat) :
    fieldSum width value (count + 1) =
      fieldSum width value count +
        value / 2 ^ (width * count) % 2 ^ width := by
  induction count generalizing value with
  | zero => simp [fieldSum]
  | succ count ih =>
      rw [fieldSum, ih, fieldSum, Nat.div_div_eq_div_mul,
        ← Nat.pow_add, Nat.mul_succ, Nat.add_comm width]
      omega

/- `and` of numbers that are split at the same bit. -/
theorem and_add_shifted
    {width low lowMask : Nat}
    (hLow : low < 2 ^ width)
    (hMask : lowMask < 2 ^ width)
    (high highMask : Nat) :
    (low + 2 ^ width * high) &&&
        (lowMask + 2 ^ width * highMask) =
      (low &&& lowMask) + 2 ^ width * (high &&& highMask) := by
  have hAnd : low &&& lowMask < 2 ^ width :=
    lt_of_le_of_lt Nat.and_le_left hLow
  apply Nat.eq_of_testBit_eq
  intro index
  rw [Nat.testBit_and, Nat.add_comm low,
    Nat.add_comm lowMask, Nat.add_comm (low &&& lowMask),
    Nat.testBit_two_pow_mul_add _ hLow,
    Nat.testBit_two_pow_mul_add _ hMask,
    Nat.testBit_two_pow_mul_add _ hAnd]
  by_cases hIndex : index < width
  · simp only [hIndex, if_true, Nat.testBit_and]
  · simp only [hIndex, if_false, Nat.testBit_and]

/- What the mask leaves of a number: its lowest field. -/
theorem and_foldMask_succ
    (width count value : Nat) :
    value &&& foldMask width (count + 1) =
      value % 2 ^ width + 2 ^ (width + width) *
        (value / 2 ^ (width + width) &&&
          foldMask width count) := by
  have hPos : 0 < 2 ^ width := Nat.two_pow_pos width
  have hDouble : 2 ^ width ≤ 2 ^ (width + width) :=
    Nat.pow_le_pow_right Nat.two_pos (by omega)
  have hLow : value % 2 ^ (width + width) <
      2 ^ (width + width) :=
    Nat.mod_lt _ (Nat.two_pow_pos _)
  have hMask : 2 ^ width - 1 < 2 ^ (width + width) := by
    omega
  have hSplit := Nat.mod_add_div value (2 ^ (width + width))
  calc
    value &&& foldMask width (count + 1)
        = (value % 2 ^ (width + width) +
            2 ^ (width + width) *
              (value / 2 ^ (width + width))) &&&
          (2 ^ width - 1 +
            2 ^ (width + width) * foldMask width count) := by
          rw [hSplit, foldMask]
    _ = (value % 2 ^ (width + width) &&& (2 ^ width - 1)) +
          2 ^ (width + width) *
            (value / 2 ^ (width + width) &&&
              foldMask width count) :=
          and_add_shifted hLow hMask _ _
    _ = value % 2 ^ width + 2 ^ (width + width) *
          (value / 2 ^ (width + width) &&&
            foldMask width count) := by
          rw [Nat.and_two_pow_sub_one_eq_mod,
            Nat.mod_mod_of_dvd _ (pow_dvd_pow 2 (by omega))]

/- One round of folding, field by field. -/
theorem foldPairs_succ
    (width count value : Nat) :
    foldPairs width (foldMask width (count + 1)) value =
      value % 2 ^ width + value / 2 ^ width % 2 ^ width +
        2 ^ (width + width) *
          foldPairs width (foldMask width count)
            (value / 2 ^ (width + width)) := by
  have hSwap : value / 2 ^ width / 2 ^ (width + width) =
      value / 2 ^ (width + width) / 2 ^ width := by
    rw [Nat.div_div_eq_div_mul, Nat.div_div_eq_div_mul,
      Nat.mul_comm]
  rw [foldPairs, and_foldMask_succ, and_foldMask_succ, hSwap,
    foldPairs, Nat.mul_add]
  omega

/- Two fields have room for their sum in the wider one. -/
theorem add_fields_lt
    {width left right : Nat}
    (hWidth : 0 < width)
    (hLeft : left < 2 ^ width)
    (hRight : right < 2 ^ width) :
    left + right < 2 ^ (width + width) := by
  have hTwo : 2 ≤ 2 ^ width := by
    calc 2 = 2 ^ 1 := rfl
      _ ≤ 2 ^ width := Nat.pow_le_pow_right Nat.two_pos hWidth
  have hSquare : 2 * 2 ^ width ≤ 2 ^ (width + width) := by
    rw [Nat.pow_add]
    exact Nat.mul_le_mul_right _ hTwo
  omega

/- Folding keeps the sum of the fields. -/
theorem fieldSum_foldPairs
    {width : Nat}
    (hWidth : 0 < width)
    (count value : Nat) :
    fieldSum (width + width)
        (foldPairs width (foldMask width count) value) count =
      fieldSum width value (count + count) := by
  induction count generalizing value with
  | zero => rfl
  | succ count ih =>
      have hFields := add_fields_lt hWidth
        (Nat.mod_lt value (Nat.two_pow_pos width))
        (Nat.mod_lt (value / 2 ^ width)
          (Nat.two_pow_pos width))
      have hTwice : count + 1 + (count + 1) =
          count + count + 1 + 1 := by omega
      rw [fieldSum, foldPairs_succ, Nat.add_mul_mod_self_left,
        Nat.mod_eq_of_lt hFields,
        Nat.add_mul_div_left _ _ (Nat.two_pow_pos _),
        Nat.div_eq_of_lt hFields, Nat.zero_add, ih, hTwice,
        fieldSum, fieldSum, Nat.div_div_eq_div_mul,
        ← Nat.pow_add]
      omega

end BitCount

------------------------------------------------------------
-- Bits as Fields
------------------------------------------------------------

namespace BitCount

/- There are no bits above the highest. -/
theorem fieldSum_one_of_lt
    {value bits count : Nat}
    (hValue : value < 2 ^ bits)
    (hCount : bits ≤ count) :
    fieldSum 1 value count = fieldSum 1 value bits := by
  induction count, hCount using Nat.le_induction with
  | base => rfl
  | succ count hCount ih =>
      have hLess : value < 2 ^ (1 * count) := by
        rw [Nat.one_mul]
        exact lt_of_lt_of_le hValue
          (Nat.pow_le_pow_right Nat.two_pos hCount)
      rw [fieldSum_succ, Nat.div_eq_of_lt hLess, Nat.zero_mod,
        Nat.add_zero, ih]

theorem fieldSum_one_eq_cpopNatRec
    {width : Nat}
    (value : BitVec width)
    (count : Nat) :
    fieldSum 1 value.toNat count =
      value.cpopNatRec count 0 := by
  induction count with
  | zero => rfl
  | succ count ih =>
      have hBit : value.toNat / 2 ^ (1 * count) % 2 ^ 1 =
          (value.getLsbD count).toNat := by
        rw [Nat.one_mul, BitVec.getLsbD,
          Nat.toNat_testBit, Nat.pow_one]
      rw [fieldSum_succ, ih, BitVec.cpopNatRec_succ,
        Nat.zero_add,
        BitVec.cpopNatRec_eq (value.getLsbD count).toNat,
        hBit]

/- The bits are the fields of width one. -/
theorem fieldSum_one_eq_cpop
    {width : Nat}
    (value : BitVec width) :
    fieldSum 1 value.toNat width = value.cpop.toNat := by
  rw [fieldSum_one_eq_cpopNatRec, BitVec.toNat_cpop]

/- More bits count more. -/
theorem cpopNatRec_le_of_bits
    {width : Nat}
    {value larger : BitVec width}
    (hBits : ∀ index,
      value.getLsbD index = true →
        larger.getLsbD index = true)
    (count : Nat) :
    value.cpopNatRec count 0 ≤ larger.cpopNatRec count 0 := by
  induction count with
  | zero => exact Nat.le_refl _
  | succ count ih =>
      have hBit : (value.getLsbD count).toNat ≤
          (larger.getLsbD count).toNat :=
        Bool.toNat_le_toNat (hBits count)
      rw [BitVec.cpopNatRec_succ, BitVec.cpopNatRec_succ,
        Nat.zero_add, Nat.zero_add,
        BitVec.cpopNatRec_eq (value.getLsbD count).toNat,
        BitVec.cpopNatRec_eq (larger.getLsbD count).toNat]
      omega

theorem cpop_le_of_bits
    {width : Nat}
    {value larger : BitVec width}
    (hBits : ∀ index,
      value.getLsbD index = true →
        larger.getLsbD index = true) :
    value.cpop.toNat ≤ larger.cpop.toNat := by
  rw [BitVec.toNat_cpop, BitVec.toNat_cpop]
  exact cpopNatRec_le_of_bits hBits width

/- A bit that only one of the two has makes the difference. -/
theorem cpopNatRec_lt_of_bits
    {width : Nat}
    {value larger : BitVec width}
    (hBits : ∀ index,
      value.getLsbD index = true →
        larger.getLsbD index = true)
    {bit : Nat}
    (hClear : value.getLsbD bit = false)
    (hSet : larger.getLsbD bit = true)
    {count : Nat}
    (hBit : bit < count) :
    value.cpopNatRec count 0 < larger.cpopNatRec count 0 := by
  induction count with
  | zero => omega
  | succ count ih =>
      have hLe : (value.getLsbD count).toNat ≤
          (larger.getLsbD count).toNat :=
        Bool.toNat_le_toNat (hBits count)
      have hRest := cpopNatRec_le_of_bits hBits count
      rw [BitVec.cpopNatRec_succ, BitVec.cpopNatRec_succ,
        Nat.zero_add, Nat.zero_add,
        BitVec.cpopNatRec_eq (value.getLsbD count).toNat,
        BitVec.cpopNatRec_eq (larger.getLsbD count).toNat]
      by_cases hLast : bit = count
      · rw [hLast] at hClear hSet
        rw [hClear, hSet, Bool.toNat_false, Bool.toNat_true]
        omega
      · have hLess := ih (by omega)
        omega

theorem cpop_lt_of_bits
    {width : Nat}
    {value larger : BitVec width}
    (hBits : ∀ index,
      value.getLsbD index = true →
        larger.getLsbD index = true)
    (hNe : value ≠ larger) :
    value.cpop.toNat < larger.cpop.toNat := by
  have hBit : ∃ bit, larger.getLsbD bit = true ∧
      value.getLsbD bit = false := by
    by_contra hNone
    apply hNe
    apply BitVec.eq_of_getLsbD_eq
    intro index _
    cases hValue : value.getLsbD index with
    | true => exact (hBits index hValue).symm
    | false =>
        cases hLarger : larger.getLsbD index with
        | true => exact absurd ⟨index, hLarger, hValue⟩ hNone
        | false => rfl
  rcases hBit with ⟨bit, hSet, hClear⟩
  rw [BitVec.toNat_cpop, BitVec.toNat_cpop]
  exact cpopNatRec_lt_of_bits hBits hClear hSet
    (BitVec.lt_of_getLsbD hSet)

end BitCount
