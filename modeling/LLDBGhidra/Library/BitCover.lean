import Mathlib.Data.BitVec
import Mathlib.Data.Nat.Bitwise

/-
  Masks that cover numbers: a mask has every bit, among the
  lowest ones, that a number may have.  Each operation on
  numbers has one on masks that covers its result.

  Main declarations:
    * `Covers`
    * `Covers.add`
    * `Covers.mul_two_pow`
    * `Covers.div_two_pow`
    * `Covers.le_toNat`
    * `Covers.dvd_of_clear`
-/

------------------------------------------------------------
-- Masks and Numbers
------------------------------------------------------------

namespace BitCover

variable {width : Nat}

/- Every bit of the number below the width is in the mask. -/
def Covers
    (mask : BitVec width)
    (number : Nat) : Prop :=
  ∀ index, index < width → number.testBit index = true →
    mask.getLsbD index = true

/- Every bit of a mask is in another. -/
def Within
    (mask larger : BitVec width) : Prop :=
  ∀ index, mask.getLsbD index = true →
    larger.getLsbD index = true

/- The mask has the lowest bits. -/
def Fills
    (mask : BitVec width)
    (bits : Nat) : Prop :=
  ∀ index, index < width → index < bits →
    mask.getLsbD index = true

theorem covers_zero
    (mask : BitVec width) :
    Covers mask 0 := by
  intro index _ hBit
  rw [Nat.zero_testBit] at hBit
  exact absurd hBit Bool.false_ne_true

/- A number of so many bits is covered by all of them. -/
theorem covers_of_lt
    {mask : BitVec width}
    {bits number : Nat}
    (hFills : Fills mask bits)
    (hNumber : number < 2 ^ bits) :
    Covers mask number := by
  intro index hIndex hBit
  apply hFills index hIndex
  by_contra hFar
  have hClear := Nat.testBit_lt_two_pow
    (lt_of_lt_of_le hNumber
      (Nat.pow_le_pow_right Nat.two_pos (Nat.not_lt.mp hFar)))
  rw [hClear] at hBit
  exact Bool.false_ne_true hBit

theorem covers_toNat
    (mask : BitVec width) :
    Covers mask mask.toNat :=
  fun _ _ hBit => hBit

namespace Within

theorem refl
    (mask : BitVec width) :
    Within mask mask :=
  fun _ hBit => hBit

theorem trans
    {mask larger largest : BitVec width}
    (hLeft : Within mask larger)
    (hRight : Within larger largest) :
    Within mask largest :=
  fun index hBit => hRight index (hLeft index hBit)

theorem or_left
    (mask other : BitVec width) :
    Within mask (mask ||| other) := by
  intro index hBit
  rw [BitVec.getLsbD_or, hBit, Bool.true_or]

theorem or_right
    (mask other : BitVec width) :
    Within mask (other ||| mask) := by
  intro index hBit
  rw [BitVec.getLsbD_or, hBit, Bool.or_true]

theorem or_le
    {mask1 mask2 larger : BitVec width}
    (hLeft : Within mask1 larger)
    (hRight : Within mask2 larger) :
    Within (mask1 ||| mask2) larger := by
  intro index hBit
  rw [BitVec.getLsbD_or, Bool.or_eq_true] at hBit
  rcases hBit with hLeftBit | hRightBit
  · exact hLeft index hLeftBit
  · exact hRight index hRightBit

theorem or
    {mask1 mask2 larger1 larger2 : BitVec width}
    (hLeft : Within mask1 larger1)
    (hRight : Within mask2 larger2) :
    Within (mask1 ||| mask2) (larger1 ||| larger2) :=
  or_le (trans hLeft (or_left _ _))
    (trans hRight (or_right _ _))

theorem and
    {mask1 mask2 larger1 larger2 : BitVec width}
    (hLeft : Within mask1 larger1)
    (hRight : Within mask2 larger2) :
    Within (mask1 &&& mask2) (larger1 &&& larger2) := by
  intro index hBit
  rw [BitVec.getLsbD_and, Bool.and_eq_true] at hBit ⊢
  exact ⟨hLeft index hBit.1, hRight index hBit.2⟩

theorem and_right
    (mask other : BitVec width) :
    Within (mask &&& other) other := by
  intro index hBit
  rw [BitVec.getLsbD_and, Bool.and_eq_true] at hBit
  exact hBit.2

theorem and_left
    (mask other : BitVec width) :
    Within (mask &&& other) mask := by
  intro index hBit
  rw [BitVec.getLsbD_and, Bool.and_eq_true] at hBit
  exact hBit.1

theorem shiftLeft
    {mask larger : BitVec width}
    (hWithin : Within mask larger)
    (shift : Nat) :
    Within (mask <<< shift) (larger <<< shift) := by
  intro index hBit
  rw [BitVec.getLsbD_shiftLeft, Bool.and_eq_true] at hBit ⊢
  exact ⟨hBit.1, hWithin _ hBit.2⟩

theorem ushiftRight
    {mask larger : BitVec width}
    (hWithin : Within mask larger)
    (shift : Nat) :
    Within (mask >>> shift) (larger >>> shift) := by
  intro index hBit
  rw [BitVec.getLsbD_ushiftRight] at hBit ⊢
  exact hWithin _ hBit

theorem antisymm
    {mask larger : BitVec width}
    (hLeft : Within mask larger)
    (hRight : Within larger mask) :
    mask = larger := by
  apply BitVec.eq_of_getLsbD_eq
  intro index _
  exact Bool.eq_iff_iff.mpr ⟨hLeft index, hRight index⟩

theorem zero
    (larger : BitVec width) :
    Within 0 larger := by
  intro index hBit
  change (BitVec.ofNat width 0).getLsbD index = true at hBit
  rw [BitVec.getLsbD_ofNat, Nat.zero_testBit,
    Bool.and_false] at hBit
  exact absurd hBit Bool.false_ne_true

theorem ne_zero
    {mask larger : BitVec width}
    (hWithin : Within mask larger)
    (hMask : mask ≠ 0) :
    larger ≠ 0 := by
  intro hZero
  rw [hZero] at hWithin
  exact hMask (antisymm hWithin (zero mask))

end Within

namespace Covers

variable {mask mask1 mask2 larger : BitVec width}
variable {x y number : Nat}

theorem within
    (hCovers : Covers mask number)
    (hWithin : Within mask larger) :
    Covers larger number :=
  fun index hIndex hBit =>
    hWithin index (hCovers index hIndex hBit)

theorem or
    (hX : Covers mask1 x)
    (hY : Covers mask2 y) :
    Covers (mask1 ||| mask2) (x ||| y) := by
  intro index hIndex hBit
  rw [Nat.testBit_or, Bool.or_eq_true] at hBit
  rw [BitVec.getLsbD_or, Bool.or_eq_true]
  rcases hBit with hLeft | hRight
  · exact Or.inl (hX index hIndex hLeft)
  · exact Or.inr (hY index hIndex hRight)

theorem xor
    (hX : Covers mask1 x)
    (hY : Covers mask2 y) :
    Covers (mask1 ||| mask2) (x ^^^ y) := by
  intro index hIndex hBit
  rw [Nat.testBit_xor] at hBit
  rw [BitVec.getLsbD_or, Bool.or_eq_true]
  cases hLeft : x.testBit index with
  | true => exact Or.inl (hX index hIndex hLeft)
  | false =>
      rw [hLeft, Bool.false_xor] at hBit
      exact Or.inr (hY index hIndex hBit)

theorem and
    (hX : Covers mask1 x)
    (hY : Covers mask2 y) :
    Covers (mask1 &&& mask2) (x &&& y) := by
  intro index hIndex hBit
  rw [Nat.testBit_and, Bool.and_eq_true] at hBit
  rw [BitVec.getLsbD_and, hX index hIndex hBit.1,
    hY index hIndex hBit.2, Bool.and_true]

/- A part of the number that another mask also covers. -/
theorem and_mask
    (hLeft : Covers mask1 number)
    (hRight : Covers mask2 number) :
    Covers (mask1 &&& mask2) number := by
  intro index hIndex hBit
  rw [BitVec.getLsbD_and, hLeft index hIndex hBit,
    hRight index hIndex hBit, Bool.and_true]

theorem mod_two_pow
    (hNumber : Covers mask number)
    (bits : Nat) :
    Covers mask (number % 2 ^ bits) := by
  intro index hIndex hBit
  rw [Nat.testBit_mod_two_pow, Bool.and_eq_true] at hBit
  exact hNumber index hIndex hBit.2

theorem mul_two_pow
    (hNumber : Covers mask number)
    (shift : Nat) :
    Covers (mask <<< shift) (number * 2 ^ shift) := by
  intro index hIndex hBit
  rw [← Nat.shiftLeft_eq, Nat.testBit_shiftLeft,
    Bool.and_eq_true, decide_eq_true_eq] at hBit
  rw [BitVec.getLsbD_shiftLeft, decide_eq_true hIndex,
    decide_eq_false (Nat.not_lt.mpr hBit.1),
    hNumber (index - shift) (by omega) hBit.2]
  rfl

/- The bits that come from above the width are not known. -/
theorem div_two_pow_of
    (shift : Nat)
    (hNumber : ∀ index, index < width →
      number.testBit (shift + index) = true →
        mask.getLsbD index = true) :
    Covers mask (number / 2 ^ shift) := by
  intro index hIndex hBit
  rw [Nat.testBit_div_two_pow, Nat.add_comm] at hBit
  exact hNumber index hIndex hBit

theorem div_two_pow
    (hNumber : Covers mask number)
    (hSmall : number < 2 ^ width)
    (shift : Nat) :
    Covers (mask >>> shift) (number / 2 ^ shift) := by
  apply div_two_pow_of
  intro index hIndex hBit
  rw [BitVec.getLsbD_ushiftRight]
  apply hNumber (shift + index) _ hBit
  by_contra hFar
  have hClear := Nat.testBit_lt_two_pow
    (lt_of_lt_of_le hSmall
      (Nat.pow_le_pow_right Nat.two_pos (Nat.not_lt.mp hFar)))
  rw [hClear] at hBit
  exact Bool.false_ne_true hBit

/- The low bits are a word of the mask's width. -/
theorem iff_word
    (mask : BitVec width)
    (number : Nat) :
    Covers mask number ↔
      Within (BitVec.ofNat width number) mask := by
  constructor
  · intro hNumber index hBit
    rw [BitVec.getLsbD_ofNat, Bool.and_eq_true,
      decide_eq_true_eq] at hBit
    exact hNumber index hBit.1 hBit.2
  · intro hWithin index hIndex hBit
    apply hWithin
    rw [BitVec.getLsbD_ofNat, decide_eq_true hIndex, hBit]
    rfl

/- A carry comes from one bit below, where a bit is set. -/
theorem carry_within
    {left right : BitVec width}
    (hLeft : Within left mask)
    (hRight : Within right mask)
    {index : Nat}
    (hCarry : BitVec.carry index left right false = true) :
    ∃ below, index = below + 1 ∧
      mask.getLsbD below = true := by
  cases index with
  | zero =>
      rw [BitVec.carry_zero] at hCarry
      exact absurd hCarry Bool.false_ne_true
  | succ below =>
      refine ⟨below, rfl, ?_⟩
      rw [BitVec.carry_succ] at hCarry
      cases hBitLeft : left.getLsbD below with
      | true => exact hLeft below hBitLeft
      | false =>
          cases hBitRight : right.getLsbD below with
          | true => exact hRight below hBitRight
          | false =>
              rw [hBitLeft, hBitRight] at hCarry
              simp [Bool.atLeastTwo] at hCarry

/- A sum has no bits but theirs and the carries above them. -/
theorem add
    (hX : Covers mask x)
    (hY : Covers mask y) :
    Covers (mask ||| mask <<< 1) (x + y) := by
  rw [iff_word] at hX hY ⊢
  intro index hBit
  rw [BitVec.ofNat_add] at hBit
  have hIndex := BitVec.lt_of_getLsbD hBit
  rw [BitVec.getLsbD_add hIndex] at hBit
  rw [BitVec.getLsbD_or, Bool.or_eq_true]
  cases hBitX : (BitVec.ofNat width x).getLsbD index with
  | true => exact Or.inl (hX index hBitX)
  | false =>
      cases hBitY : (BitVec.ofNat width y).getLsbD index with
      | true => exact Or.inl (hY index hBitY)
      | false =>
          rw [hBitX, hBitY, Bool.false_xor,
            Bool.false_xor] at hBit
          rcases carry_within hX hY hBit with
            ⟨below, hBelow, hSet⟩
          refine Or.inr ?_
          rw [hBelow, BitVec.getLsbD_shiftLeft,
            decide_eq_true (by omega),
            decide_eq_false (by omega), Nat.add_sub_cancel,
            hSet]
          rfl

/- A number that is covered as a whole is not above the mask. -/
theorem le_toNat
    (hNumber : Covers mask number)
    (hSmall : number < 2 ^ width) :
    number ≤ mask.toNat := by
  have hAnd : number &&& mask.toNat = number := by
    apply Nat.eq_of_testBit_eq
    intro index
    rw [Nat.testBit_and]
    cases hBit : number.testBit index with
    | false => rfl
    | true =>
        have hIndex : index < width := by
          by_contra hFar
          have hClear := Nat.testBit_lt_two_pow
            (lt_of_lt_of_le hSmall
              (Nat.pow_le_pow_right Nat.two_pos
                (Nat.not_lt.mp hFar)))
          rw [hClear] at hBit
          exact Bool.false_ne_true hBit
        exact hNumber index hIndex hBit
  rw [← hAnd]
  exact Nat.and_le_right

/- No bit below means a multiple. -/
theorem dvd_of_clear
    {bits : Nat}
    (hNumber : Covers mask number)
    (hBits : bits ≤ width)
    (hClear : ∀ index, index < bits →
      mask.getLsbD index = false) :
    2 ^ bits ∣ number := by
  apply Nat.dvd_of_mod_eq_zero
  apply Nat.eq_of_testBit_eq
  intro index
  rw [Nat.testBit_mod_two_pow, Nat.zero_testBit]
  by_cases hIndex : index < bits
  · cases hBit : number.testBit index with
    | false => exact Bool.and_false _
    | true =>
        have hSet := hNumber index (by omega) hBit
        rw [hClear index hIndex] at hSet
        exact absurd hSet Bool.false_ne_true
  · rw [decide_eq_false hIndex, Bool.false_and]

/- No bit from a place on bounds the number. -/
theorem lt_of_clear
    {bits : Nat}
    (hNumber : Covers mask number)
    (hSmall : number < 2 ^ width)
    (hClear : ∀ index, bits ≤ index →
      mask.getLsbD index = false) :
    number < 2 ^ bits := by
  apply lt_of_le_of_lt (hNumber.le_toNat hSmall)
  apply Nat.lt_pow_two_of_testBit
  intro index hIndex
  exact hClear index hIndex

end Covers

/- More bits make a larger number. -/
theorem Within.toNat_le
    {mask larger : BitVec width}
    (hWithin : Within mask larger) :
    mask.toNat ≤ larger.toNat :=
  ((covers_toNat mask).within hWithin).le_toNat mask.isLt

end BitCover
