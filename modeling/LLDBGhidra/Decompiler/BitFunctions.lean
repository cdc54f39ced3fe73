import LLDBGhidra.Decompiler.Address
import LLDBGhidra.Library.BitCount
import Mathlib.Data.Nat.Log

/-
  Bits of machine integers (`address.hh`, `address.cc`).
  Shifts by 64 or more are not defined in the source; here
  they give zero, or the sign.

  Main declarations:
    * `signExtend`
    * `leastsigbitSet`
    * `mostsigbitSet`
    * `popcount`
    * `countLeadingZeros`
    * `coveringmask`
-/

------------------------------------------------------------
-- Sized Constants
------------------------------------------------------------

namespace LLDBGhidra

/- Is the sign bit of a constant of the size set? -/
def signbitNegative
    (val : BitVec 64)
    (size : Nat) : Bool :=
  let mask := 0x80#64 <<< (8 * (size - 1))
  val &&& mask ≠ 0

/- Invert the bits of a constant of the size. -/
def uintbNegate
    (value : BitVec 64)
    (size : Nat) : BitVec 64 :=
  ~~~value &&& calcMask size

/- `sign_extend` between two sizes in bytes. -/
def signExtend
    (value : BitVec 64)
    (sizein sizeout : Nat) : BitVec 64 :=
  let sizein := if sizein < 8 then sizein else 8
  let sizeout := if sizeout < 8 then sizeout else 8
  let sval := value <<< ((8 - sizein) * 8)
  let res := sval.sshiftRight ((sizeout - sizein) * 8)
  res >>> ((8 - sizeout) * 8)

/- `sign_extend` above a bit. -/
def signExtendBit
    (val : BitVec 64)
    (bit : Nat) : BitVec 64 :=
  let sa := 64 - (bit + 1)
  (val <<< sa).sshiftRight sa

/- `zero_extend` above a bit. -/
def zeroExtendBit
    (val : BitVec 64)
    (bit : Nat) : BitVec 64 :=
  let sa := 64 - (bit + 1)
  (val <<< sa) >>> sa

/- The shift of `CPUI_INT_RIGHT`. -/
def pcodeRight
    (val : BitVec 64)
    (sa : Nat) : BitVec 64 :=
  if 64 ≤ sa then 0 else val >>> sa

/- The shift of `CPUI_INT_LEFT`. -/
def pcodeLeft
    (val : BitVec 64)
    (sa : Nat) : BitVec 64 :=
  if 64 ≤ sa then 0 else val <<< sa

end LLDBGhidra

------------------------------------------------------------
-- Constants of a Size
------------------------------------------------------------

namespace LLDBGhidra

/- The mask of a size has the bits of its bytes. -/
theorem getLsbD_calcMask
    {size index : Nat}
    (hIndex : index < 64) :
    (calcMask size).getLsbD index =
      decide (index < 8 * size) := by
  unfold calcMask
  by_cases hSize : size < 8
  · have hPower : 256 ^ size = 2 ^ (8 * size) := by
      rw [Nat.pow_mul]
    rw [if_pos hSize, hPower, BitVec.getLsbD_ofNat,
      Nat.testBit_two_pow_sub_one, decide_eq_true hIndex,
      Bool.true_and]
  · rw [if_neg hSize, BitVec.getLsbD_allOnes,
      decide_eq_true hIndex]
    exact (decide_eq_true (by omega)).symm

/- A mask has no bit above its size. -/
theorem getLsbD_calcMask_of_le
    {size index : Nat}
    (hIndex : 8 * size ≤ index) :
    (calcMask size).getLsbD index = false := by
  by_cases hWord : index < 64
  · rw [getLsbD_calcMask hWord]
    exact decide_eq_false (Nat.not_lt.mpr hIndex)
  · exact BitVec.getLsbD_of_ge _ _ (Nat.not_lt.mp hWord)

theorem toNat_calcMask
    {size : Nat}
    (hSize : size ≤ 8) :
    (calcMask size).toNat = 2 ^ (8 * size) - 1 := by
  have hPower : 256 ^ size = 2 ^ (8 * size) := by
    rw [Nat.pow_mul]
  unfold calcMask
  by_cases hLess : size < 8
  · have hBound : 2 ^ (8 * size) ≤ 2 ^ 64 :=
      Nat.pow_le_pow_right Nat.two_pos (by omega)
    rw [if_pos hLess, hPower, BitVec.toNat_ofNat]
    exact Nat.mod_eq_of_lt (by omega)
  · have hEight : size = 8 := by omega
    rw [if_neg hLess, hEight]
    rfl

/- Masking takes the lower bytes. -/
theorem toNat_and_calcMask
    {size : Nat}
    (hSize : size ≤ 8)
    (val : BitVec 64) :
    (val &&& calcMask size).toNat =
      val.toNat % 2 ^ (8 * size) := by
  rw [BitVec.toNat_and, toNat_calcMask hSize,
    Nat.and_two_pow_sub_one_eq_mod]

/- The lower bytes are not lost by 64-bit arithmetic. -/
theorem mod_mod_size
    {size : Nat}
    (hSize : size ≤ 8)
    (number : Nat) :
    number % 2 ^ 64 % 2 ^ (8 * size) =
      number % 2 ^ (8 * size) :=
  Nat.mod_mod_of_dvd _ (pow_dvd_pow 2 (by omega))

end LLDBGhidra

------------------------------------------------------------
-- Searching for Bits
------------------------------------------------------------

namespace LLDBGhidra

/-
  The rounds of `leastsigbit_set`.  `sz` is `2 ^ (rounds - 1)`
  and is halved by each round.
-/
def leastsigbitLoop
    (rounds : Nat)
    (mask val : BitVec 64)
    (res : Nat) : Nat :=
  match rounds with
  | 0 => res
  | rounds + 1 =>
      let sz := 2 ^ rounds
      let mask := mask >>> sz
      if mask &&& val = 0 then
        leastsigbitLoop rounds mask (val >>> sz) (res + sz)
      else
        leastsigbitLoop rounds mask val res

def leastsigbitSet
    (val : BitVec 64) : Int :=
  if val = 0 then
    -1
  else
    leastsigbitLoop 6 (BitVec.allOnes 64) val 0

/- The rounds of `mostsigbit_set`. -/
def mostsigbitLoop
    (rounds : Nat)
    (mask val : BitVec 64)
    (res : Nat) : Nat :=
  match rounds with
  | 0 => res
  | rounds + 1 =>
      let sz := 2 ^ rounds
      let mask := mask <<< sz
      if mask &&& val = 0 then
        mostsigbitLoop rounds mask (val <<< sz) (res - sz)
      else
        mostsigbitLoop rounds mask val res

def mostsigbitSet
    (val : BitVec 64) : Int :=
  if val = 0 then
    -1
  else
    mostsigbitLoop 6 (BitVec.allOnes 64) val 63

/- Count the set bits. -/
def popcount
    (val : BitVec 64) : Nat :=
  let val := (val &&& 0x5555555555555555) +
    (val >>> 1 &&& 0x5555555555555555)
  let val := (val &&& 0x3333333333333333) +
    (val >>> 2 &&& 0x3333333333333333)
  let val := (val &&& 0x0f0f0f0f0f0f0f0f) +
    (val >>> 4 &&& 0x0f0f0f0f0f0f0f0f)
  let val := (val &&& 0x00ff00ff00ff00ff) +
    (val >>> 8 &&& 0x00ff00ff00ff00ff)
  let val := (val &&& 0x0000ffff0000ffff) +
    (val >>> 16 &&& 0x0000ffff0000ffff)
  let res := (val &&& 0xff).toNat
  res + (val >>> 32 &&& 0xff).toNat

/-
  The rounds of `count_leading_zeros`.  `maskSize` is
  `2 ^ rounds`; the last one leaves a size of zero.
-/
def countLeadingZerosLoop
    (rounds : Nat)
    (mask val : BitVec 64)
    (bit : Nat) : Nat :=
  let maskSize := 2 ^ rounds
  match rounds with
  | 0 => if mask &&& val = 0 then bit + maskSize else bit
  | rounds + 1 =>
      let half := 2 ^ rounds
      if mask &&& val = 0 then
        countLeadingZerosLoop rounds
          (mask ||| mask >>> half) val (bit + maskSize)
      else
        countLeadingZerosLoop rounds
          (mask &&& mask <<< half) val bit

def countLeadingZeros
    (val : BitVec 64) : Nat :=
  if val = 0 then
    64
  else
    let mask := BitVec.allOnes 64
    countLeadingZerosLoop 5 (mask &&& mask <<< 32) val 0

/- The rounds of `coveringmask`, from a shift of `sz` on. -/
def coveringmaskLoop
    (rounds sz : Nat)
    (res : BitVec 64) : BitVec 64 :=
  match rounds with
  | 0 => res
  | rounds + 1 =>
      coveringmaskLoop rounds (sz + sz) (res ||| res >>> sz)

/- The smallest `2 ^ n - 1` that is not below the value. -/
def coveringmask
    (val : BitVec 64) : BitVec 64 :=
  coveringmaskLoop 6 1 val

end LLDBGhidra

------------------------------------------------------------
-- What the Searches Find
------------------------------------------------------------

namespace LLDBGhidra

/- The lowest set bit. -/
structure LowestBit
    (val : BitVec 64)
    (bit : Nat) : Prop where
  set : val.getLsbD bit = true
  clear : ∀ index, index < bit → val.getLsbD index = false

/- The highest set bit. -/
structure HighestBit
    (val : BitVec 64)
    (bit : Nat) : Prop where
  set : val.getLsbD bit = true
  clear : ∀ index, bit < index → val.getLsbD index = false

namespace LowestBit

variable {val : BitVec 64}
variable {bit : Nat}

theorem lt
    (hBit : LowestBit val bit) :
    bit < 64 :=
  BitVec.lt_of_getLsbD hBit.set

theorem exists_of_ne_zero
    (hVal : val ≠ 0) :
    ∃ bit, LowestBit val bit := by
  have hSome : ∃ index, val.getLsbD index = true := by
    by_contra hNone
    apply hVal
    apply BitVec.eq_of_getLsbD_eq
    intro index hIndex
    have hOff : ¬ val.getLsbD index = true :=
      fun hOn => hNone ⟨index, hOn⟩
    simpa using hOff
  refine ⟨Nat.find hSome, Nat.find_spec hSome, ?_⟩
  intro index hIndex
  simpa using Nat.find_min hSome hIndex

theorem shiftRight
    {sz : Nat}
    (hBit : LowestBit val bit)
    (hSz : sz ≤ bit) :
    LowestBit (val >>> sz) (bit - sz) := by
  have hSum : sz + (bit - sz) = bit := by omega
  refine ⟨?_, ?_⟩
  · rw [BitVec.getLsbD_ushiftRight, hSum]
    exact hBit.set
  · intro index hIndex
    rw [BitVec.getLsbD_ushiftRight]
    exact hBit.clear _ (by omega)

end LowestBit

namespace HighestBit

variable {val : BitVec 64}
variable {bit : Nat}

theorem lt
    (hBit : HighestBit val bit) :
    bit < 64 :=
  BitVec.lt_of_getLsbD hBit.set

theorem le_toNat
    (hBit : HighestBit val bit) :
    2 ^ bit ≤ val.toNat :=
  Nat.ge_two_pow_of_testBit hBit.set

theorem toNat_lt
    (hBit : HighestBit val bit) :
    val.toNat < 2 ^ (bit + 1) := by
  apply Nat.lt_pow_two_of_testBit
  intro index hIndex
  exact hBit.clear index (by omega)

theorem log2_eq
    (hBit : HighestBit val bit) :
    Nat.log2 val.toNat = bit := by
  have hPos : val.toNat ≠ 0 := by
    have := hBit.le_toNat
    have := Nat.two_pow_pos bit
    omega
  rw [Nat.log2_eq_iff hPos]
  exact ⟨hBit.le_toNat, hBit.toNat_lt⟩

theorem exists_of_ne_zero
    (hVal : val ≠ 0) :
    ∃ bit, HighestBit val bit := by
  have hPos : val.toNat ≠ 0 := by
    intro hZero
    exact hVal (BitVec.eq_of_toNat_eq hZero)
  refine ⟨Nat.log2 val.toNat, ?_, ?_⟩
  · exact Nat.testBit_log2 hPos
  · intro index hIndex
    apply Nat.testBit_lt_two_pow
    calc val.toNat
        < 2 ^ (Nat.log2 val.toNat + 1) := Nat.lt_log2_self
      _ ≤ 2 ^ index :=
          Nat.pow_le_pow_right Nat.two_pos hIndex

theorem shiftLeft
    {sz : Nat}
    (hBit : HighestBit val bit)
    (hSz : bit + sz < 64) :
    HighestBit (val <<< sz) (bit + sz) := by
  refine ⟨?_, ?_⟩
  · rw [BitVec.getLsbD_shiftLeft]
    have hSet := hBit.set
    simp only [hSz, decide_true, Bool.true_and]
    rw [show bit + sz - sz = bit by omega, hSet]
    simp
  · intro index hIndex
    rw [BitVec.getLsbD_shiftLeft,
      hBit.clear (index - sz) (by omega), Bool.and_false]

end HighestBit

/- A mask with the bits below a bound. -/
def MaskBelow
    (mask : BitVec 64)
    (bound : Nat) : Prop :=
  ∀ index, mask.getLsbD index = true ↔ index < bound

/- A mask with the bits from a bound on. -/
def MaskFrom
    (mask : BitVec 64)
    (bound : Nat) : Prop :=
  ∀ index,
    mask.getLsbD index = true ↔ bound ≤ index ∧ index < 64

/- A mask misses a value that starts above it. -/
theorem MaskBelow.and_eq_zero_iff
    {mask val : BitVec 64}
    {bound bit : Nat}
    (hMask : MaskBelow mask bound)
    (hBit : LowestBit val bit) :
    mask &&& val = 0 ↔ bound ≤ bit := by
  constructor
  · intro hZero
    by_contra hLt
    have hOn : mask.getLsbD bit = true :=
      (hMask bit).mpr (by omega)
    have hAnd : (mask &&& val).getLsbD bit = true := by
      rw [BitVec.getLsbD_and, hOn, hBit.set, Bool.and_true]
    rw [hZero] at hAnd
    simp at hAnd
  · intro hBound
    apply BitVec.eq_of_getLsbD_eq
    intro index hIndex
    rw [BitVec.getLsbD_and]
    by_cases hOn : mask.getLsbD index = true
    · have hLow := (hMask index).mp hOn
      rw [hBit.clear index (by omega), Bool.and_false]
      simp
    · simp [hOn]

/- A mask misses a value that ends below it. -/
theorem MaskFrom.and_eq_zero_iff
    {mask val : BitVec 64}
    {bound bit : Nat}
    (hMask : MaskFrom mask bound)
    (hBit : HighestBit val bit) :
    mask &&& val = 0 ↔ bit < bound := by
  constructor
  · intro hZero
    by_contra hLe
    have hOn : mask.getLsbD bit = true :=
      (hMask bit).mpr ⟨by omega, hBit.lt⟩
    have hAnd : (mask &&& val).getLsbD bit = true := by
      rw [BitVec.getLsbD_and, hOn, hBit.set, Bool.and_true]
    rw [hZero] at hAnd
    simp at hAnd
  · intro hBound
    apply BitVec.eq_of_getLsbD_eq
    intro index hIndex
    rw [BitVec.getLsbD_and]
    by_cases hOn : mask.getLsbD index = true
    · have hHigh := (hMask index).mp hOn
      rw [hBit.clear index (by omega), Bool.and_false]
      simp
    · simp [hOn]

theorem MaskBelow.shiftRight
    {mask : BitVec 64}
    {bound : Nat}
    (hMask : MaskBelow mask bound)
    (sz : Nat) :
    MaskBelow (mask >>> sz) (bound - sz) := by
  intro index
  rw [BitVec.getLsbD_ushiftRight, hMask]
  omega

theorem MaskFrom.shiftLeft
    {mask : BitVec 64}
    {bound : Nat}
    (hMask : MaskFrom mask bound)
    (sz : Nat) :
    MaskFrom (mask <<< sz) (bound + sz) := by
  intro index
  rw [BitVec.getLsbD_shiftLeft]
  simp only [Bool.and_eq_true, decide_eq_true_eq,
    Bool.not_eq_true', decide_eq_false_iff_not]
  rw [hMask (index - sz)]
  omega

theorem maskBelow_allOnes :
    MaskBelow (BitVec.allOnes 64) 64 := by
  intro index
  rw [BitVec.getLsbD_allOnes, decide_eq_true_eq]

theorem maskFrom_allOnes :
    MaskFrom (BitVec.allOnes 64) 0 := by
  intro index
  rw [BitVec.getLsbD_allOnes, decide_eq_true_eq]
  omega

theorem MaskFrom.and_shiftLeft
    {mask : BitVec 64}
    {bound : Nat}
    (hMask : MaskFrom mask bound)
    (sz : Nat) :
    MaskFrom (mask &&& mask <<< sz) (bound + sz) := by
  intro index
  rw [BitVec.getLsbD_and, Bool.and_eq_true, hMask index,
    hMask.shiftLeft sz index]
  omega

theorem MaskFrom.or_shiftRight
    {mask : BitVec 64}
    {bound sz : Nat}
    (hMask : MaskFrom mask bound)
    (hSz : sz ≤ bound)
    (hSum : bound + sz ≤ 64) :
    MaskFrom (mask ||| mask >>> sz) (bound - sz) := by
  intro index
  rw [BitVec.getLsbD_or, Bool.or_eq_true, hMask index,
    BitVec.getLsbD_ushiftRight, hMask (sz + index)]
  omega

/-
  The lowest bit is below `2 ^ rounds`, and so is the mask:
  each round halves both.
-/
theorem leastsigbitLoop_eq
    (rounds : Nat)
    {mask val : BitVec 64}
    {bit : Nat}
    (res : Nat)
    (hMask : MaskBelow mask (2 ^ rounds))
    (hBit : LowestBit val bit)
    (hBound : bit < 2 ^ rounds) :
    leastsigbitLoop rounds mask val res = res + bit := by
  induction rounds generalizing mask val bit res with
  | zero =>
      have hZero : bit = 0 := by simpa using hBound
      rw [leastsigbitLoop, hZero, Nat.add_zero]
  | succ rounds ih =>
      have hHalf : MaskBelow (mask >>> 2 ^ rounds)
          (2 ^ rounds) := by
        have hShift := hMask.shiftRight (2 ^ rounds)
        rw [show 2 ^ (rounds + 1) - 2 ^ rounds = 2 ^ rounds by
          rw [Nat.pow_succ]; omega] at hShift
        exact hShift
      rw [Nat.pow_succ] at hBound
      rw [leastsigbitLoop]
      simp only [hHalf.and_eq_zero_iff hBit]
      by_cases hUpper : 2 ^ rounds ≤ bit
      · rw [if_pos hUpper,
          ih _ hHalf (hBit.shiftRight hUpper) (by omega)]
        omega
      · rw [if_neg hUpper, ih _ hHalf hBit (by omega)]

/- `leastsigbit_set` finds the lowest set bit. -/
theorem leastsigbitSet_eq
    {val : BitVec 64}
    {bit : Nat}
    (hBit : LowestBit val bit) :
    leastsigbitSet val = bit := by
  have hNe : val ≠ 0 := by
    intro hZero
    have hSet := hBit.set
    rw [hZero] at hSet
    simp at hSet
  rw [leastsigbitSet, if_neg hNe,
    leastsigbitLoop_eq 6 0 maskBelow_allOnes hBit hBit.lt,
    Nat.zero_add]

/-
  The highest bit is among the upper `2 ^ rounds`, and so is
  the mask.
-/
theorem mostsigbitLoop_eq
    (rounds : Nat)
    {mask val : BitVec 64}
    {bit res : Nat}
    (hRounds : rounds ≤ 6)
    (hMask : MaskFrom mask (64 - 2 ^ rounds))
    (hBit : HighestBit val bit)
    (hBound : 64 ≤ bit + 2 ^ rounds)
    (hRes : 63 ≤ res + bit) :
    mostsigbitLoop rounds mask val res = res + bit - 63 := by
  induction rounds generalizing mask val bit res with
  | zero =>
      have hLt := hBit.lt
      rw [mostsigbitLoop]
      rw [Nat.pow_zero] at hBound
      omega
  | succ rounds ih =>
      have hPow : 2 ^ (rounds + 1) = 2 ^ rounds + 2 ^ rounds := by
        rw [Nat.pow_succ]; omega
      have hMax : 2 ^ (rounds + 1) ≤ 64 := by
        calc 2 ^ (rounds + 1) ≤ 2 ^ 6 :=
              Nat.pow_le_pow_right Nat.two_pos hRounds
          _ = 64 := rfl
      have hHalf : MaskFrom (mask <<< 2 ^ rounds)
          (64 - 2 ^ rounds) := by
        have hShift := hMask.shiftLeft (2 ^ rounds)
        rw [show 64 - 2 ^ (rounds + 1) + 2 ^ rounds =
          64 - 2 ^ rounds by omega] at hShift
        exact hShift
      have hLt := hBit.lt
      rw [mostsigbitLoop]
      simp only [hHalf.and_eq_zero_iff hBit]
      by_cases hLower : bit < 64 - 2 ^ rounds
      · rw [if_pos hLower,
          ih (by omega) hHalf (hBit.shiftLeft (by omega))
            (by omega) (by omega)]
        omega
      · rw [if_neg hLower,
          ih (by omega) hHalf hBit (by omega) (by omega)]

/- `mostsigbit_set` finds the highest set bit. -/
theorem mostsigbitSet_eq
    {val : BitVec 64}
    {bit : Nat}
    (hBit : HighestBit val bit) :
    mostsigbitSet val = bit := by
  have hNe : val ≠ 0 := by
    intro hZero
    have hSet := hBit.set
    rw [hZero] at hSet
    simp at hSet
  have hMask : MaskFrom (BitVec.allOnes 64) (64 - 2 ^ 6) :=
    maskFrom_allOnes
  rw [mostsigbitSet, if_neg hNe,
    mostsigbitLoop_eq 6 (by omega) hMask hBit
      (by omega) (by omega)]
  omega

/-
  The mask has the `bit` bits that are known to be zero and
  the upper half of those that the highest bit may be among.
-/
theorem countLeadingZerosLoop_eq
    (rounds : Nat)
    {mask val : BitVec 64}
    {highest bit : Nat}
    (hMask : MaskFrom mask (64 - bit - 2 ^ rounds))
    (hBit : HighestBit val highest)
    (hRoom : bit + 2 ^ (rounds + 1) ≤ 64)
    (hLower : 64 ≤ highest + bit + 2 ^ (rounds + 1))
    (hUpper : highest + bit < 64) :
    countLeadingZerosLoop rounds mask val bit =
      63 - highest := by
  induction rounds generalizing mask bit with
  | zero =>
      rw [countLeadingZerosLoop]
      simp only [hMask.and_eq_zero_iff hBit]
      by_cases hLow : highest < 64 - bit - 2 ^ 0
      · rw [if_pos hLow]
        omega
      · rw [if_neg hLow]
        omega
  | succ rounds ih =>
      have hPow : 2 ^ (rounds + 1) = 2 ^ rounds + 2 ^ rounds := by
        rw [Nat.pow_succ]; omega
      have hDouble : 2 ^ (rounds + 1 + 1) =
          2 ^ (rounds + 1) + 2 ^ (rounds + 1) := by
        rw [Nat.pow_succ 2 (rounds + 1)]; omega
      rw [countLeadingZerosLoop]
      simp only [hMask.and_eq_zero_iff hBit]
      by_cases hLow : highest < 64 - bit - 2 ^ (rounds + 1)
      · have hNext : MaskFrom (mask ||| mask >>> 2 ^ rounds)
            (64 - (bit + 2 ^ (rounds + 1)) - 2 ^ rounds) := by
          have hOr := hMask.or_shiftRight
            (show 2 ^ rounds ≤ 64 - bit - 2 ^ (rounds + 1) by
              omega)
            (by omega)
          rw [show 64 - (bit + 2 ^ (rounds + 1)) - 2 ^ rounds =
            64 - bit - 2 ^ (rounds + 1) - 2 ^ rounds by omega]
          exact hOr
        rw [if_pos hLow,
          ih hNext (by omega) (by omega) (by omega)]
      · have hNext : MaskFrom (mask &&& mask <<< 2 ^ rounds)
            (64 - bit - 2 ^ rounds) := by
          have hAnd := hMask.and_shiftLeft (2 ^ rounds)
          rw [show 64 - bit - 2 ^ rounds =
            64 - bit - 2 ^ (rounds + 1) + 2 ^ rounds by omega]
          exact hAnd
        rw [if_neg hLow,
          ih hNext (by omega) (by omega) (by omega)]

/- `count_leading_zeros` counts the bits above the highest. -/
theorem countLeadingZeros_eq
    {val : BitVec 64}
    {highest : Nat}
    (hBit : HighestBit val highest) :
    countLeadingZeros val = 63 - highest := by
  have hNe : val ≠ 0 := by
    intro hZero
    have hSet := hBit.set
    rw [hZero] at hSet
    simp at hSet
  have hMask : MaskFrom
      (BitVec.allOnes 64 &&& BitVec.allOnes 64 <<< 32)
      (64 - 0 - 2 ^ 5) :=
    maskFrom_allOnes.and_shiftLeft 32
  have hLt := hBit.lt
  rw [countLeadingZeros, if_neg hNe]
  exact countLeadingZerosLoop_eq 5 hMask hBit
    (by omega) (by omega) (by omega)

/- So far, a bit is set that some bit not far above it sets. -/
theorem getLsbD_coveringmaskLoop
    (rounds : Nat)
    {sz : Nat}
    {val res : BitVec 64}
    (hRes : ∀ index, res.getLsbD index = true ↔
      ∃ above, above < sz ∧ val.getLsbD (index + above) = true)
    (index : Nat) :
    (coveringmaskLoop rounds sz res).getLsbD index = true ↔
      ∃ above, above < sz * 2 ^ rounds ∧
        val.getLsbD (index + above) = true := by
  induction rounds generalizing sz res with
  | zero =>
      rw [coveringmaskLoop, Nat.pow_zero, Nat.mul_one]
      exact hRes index
  | succ rounds ih =>
      have hNext : ∀ index,
          (res ||| res >>> sz).getLsbD index = true ↔
            ∃ above, above < sz + sz ∧
              val.getLsbD (index + above) = true := by
        intro index
        rw [BitVec.getLsbD_or, Bool.or_eq_true, hRes,
          BitVec.getLsbD_ushiftRight, hRes]
        constructor
        · intro hSome
          rcases hSome with ⟨above, hAbove, hSet⟩ |
            ⟨above, hAbove, hSet⟩
          · exact ⟨above, by omega, hSet⟩
          · refine ⟨sz + above, by omega, ?_⟩
            rw [show index + (sz + above) =
              sz + index + above by omega]
            exact hSet
        · intro hSome
          rcases hSome with ⟨above, hAbove, hSet⟩
          by_cases hNear : above < sz
          · exact Or.inl ⟨above, hNear, hSet⟩
          · refine Or.inr ⟨above - sz, by omega, ?_⟩
            rw [show sz + index + (above - sz) =
              index + above by omega]
            exact hSet
      rw [coveringmaskLoop, ih hNext, Nat.pow_succ,
        ← Nat.two_mul, Nat.mul_comm 2 sz, Nat.mul_assoc,
        Nat.mul_comm 2]

/- A bit is set below every bit of the value. -/
theorem getLsbD_coveringmask
    (val : BitVec 64)
    (index : Nat) :
    (coveringmask val).getLsbD index = true ↔
      ∃ bit, index ≤ bit ∧ val.getLsbD bit = true := by
  have hStart : ∀ index, val.getLsbD index = true ↔
      ∃ above, above < 1 ∧
        val.getLsbD (index + above) = true := by
    intro index
    constructor
    · intro hSet
      exact ⟨0, by omega, hSet⟩
    · intro hSome
      rcases hSome with ⟨above, hAbove, hSet⟩
      have hZero : above = 0 := by omega
      rw [hZero] at hSet
      exact hSet
  rw [coveringmask, getLsbD_coveringmaskLoop 6 hStart]
  constructor
  · intro hSome
    rcases hSome with ⟨above, _, hSet⟩
    exact ⟨index + above, by omega, hSet⟩
  · intro hSome
    rcases hSome with ⟨bit, hBit, hSet⟩
    have hLt := BitVec.lt_of_getLsbD hSet
    refine ⟨bit - index, by omega, ?_⟩
    rw [show index + (bit - index) = bit by omega]
    exact hSet

/- The covering mask is `2 ^ n - 1`, `n` bits being needed. -/
theorem maskBelow_coveringmask
    {val : BitVec 64}
    {highest : Nat}
    (hBit : HighestBit val highest) :
    MaskBelow (coveringmask val) (highest + 1) := by
  intro index
  rw [getLsbD_coveringmask]
  constructor
  · intro hSome
    rcases hSome with ⟨bit, hIndex, hSet⟩
    by_contra hAbove
    rw [hBit.clear bit (by omega)] at hSet
    exact Bool.false_ne_true hSet
  · intro hIndex
    exact ⟨highest, by omega, hBit.set⟩

end LLDBGhidra

------------------------------------------------------------
-- Counting Bits
------------------------------------------------------------

namespace LLDBGhidra

/- One round of the count, which never overflows. -/
theorem toNat_foldPairs
    (val mask : BitVec 64)
    (sa : Nat)
    (hMask : mask.toNat < 2 ^ 63) :
    ((val &&& mask) + (val >>> sa &&& mask)).toNat =
      BitCount.foldPairs sa mask.toNat val.toNat := by
  have hLow : val.toNat &&& mask.toNat ≤ mask.toNat :=
    Nat.and_le_right
  have hHigh : val.toNat / 2 ^ sa &&& mask.toNat ≤
      mask.toNat :=
    Nat.and_le_right
  rw [BitVec.toNat_add, BitVec.toNat_and, BitVec.toNat_and,
    BitVec.toNat_ushiftRight, Nat.shiftRight_eq_div_pow,
    BitCount.foldPairs]
  exact Nat.mod_eq_of_lt (by omega)

/- One round adds the fields of a width in pairs. -/
theorem fieldSum_round
    {width count : Nat}
    (val mask : BitVec 64)
    (hWidth : 0 < width)
    (hMask : mask.toNat = BitCount.foldMask width count)
    (hSmall : mask.toNat < 2 ^ 63) :
    BitCount.fieldSum (width + width)
        ((val &&& mask) + (val >>> width &&& mask)).toNat
        count =
      BitCount.fieldSum width val.toNat (count + count) := by
  rw [toNat_foldPairs val mask width hSmall, hMask,
    BitCount.fieldSum_foldPairs hWidth]

/- The last two fields are too small to lose any bits. -/
theorem toNat_lastFields
    (val : BitVec 64)
    (hBound : BitCount.fieldSum 32 val.toNat 2 ≤ 64) :
    (val &&& 0xff).toNat + (val >>> 32 &&& 0xff).toNat =
      BitCount.fieldSum 32 val.toNat 2 := by
  have hLt := val.isLt
  have hMask : (0xff : BitVec 64).toNat = 2 ^ 8 - 1 := rfl
  rw [BitVec.toNat_and, BitVec.toNat_and, hMask,
    Nat.and_two_pow_sub_one_eq_mod,
    Nat.and_two_pow_sub_one_eq_mod,
    BitVec.toNat_ushiftRight, Nat.shiftRight_eq_div_pow]
  simp only [BitCount.fieldSum] at hBound ⊢
  omega

/- `popcount` counts the set bits. -/
theorem popcount_eq
    (val : BitVec 64) :
    popcount val = val.cpop.toNat := by
  rw [← BitCount.fieldSum_one_eq_cpop]
  have hBound : BitCount.fieldSum 1 val.toNat 64 ≤ 64 := by
    rw [BitCount.fieldSum_one_eq_cpop]
    exact BitVec.toNat_cpop_le val
  simp only [popcount]
  have hRound1 := @fieldSum_round 1 32 val 0x5555555555555555
    (by omega) (by decide) (by decide)
  generalize (val &&& 0x5555555555555555) +
    (val >>> 1 &&& 0x5555555555555555) = val1
    at hRound1 ⊢
  have hRound2 := @fieldSum_round 2 16 val1 0x3333333333333333
    (by omega) (by decide) (by decide)
  generalize (val1 &&& 0x3333333333333333) +
    (val1 >>> 2 &&& 0x3333333333333333) = val2
    at hRound2 ⊢
  have hRound3 := @fieldSum_round 4 8 val2 0x0f0f0f0f0f0f0f0f
    (by omega) (by decide) (by decide)
  generalize (val2 &&& 0x0f0f0f0f0f0f0f0f) +
    (val2 >>> 4 &&& 0x0f0f0f0f0f0f0f0f) = val3
    at hRound3 ⊢
  have hRound4 := @fieldSum_round 8 4 val3 0x00ff00ff00ff00ff
    (by omega) (by decide) (by decide)
  generalize (val3 &&& 0x00ff00ff00ff00ff) +
    (val3 >>> 8 &&& 0x00ff00ff00ff00ff) = val4
    at hRound4 ⊢
  have hRound5 := @fieldSum_round 16 2 val4 0x0000ffff0000ffff
    (by omega) (by decide) (by decide)
  generalize (val4 &&& 0x0000ffff0000ffff) +
    (val4 >>> 16 &&& 0x0000ffff0000ffff) = val5
    at hRound5 ⊢
  have hCount : BitCount.fieldSum 32 val5.toNat 2 =
      BitCount.fieldSum 1 val.toNat 64 := by
    rw [hRound5, hRound4, hRound3, hRound2, hRound1]
  rw [← hCount] at hBound ⊢
  exact toNat_lastFields val5 hBound

end LLDBGhidra
