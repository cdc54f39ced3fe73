import LLDBGhidra.Decompiler.NZMask

/-
  The masks of outputs stay within the sizes of the outputs,
  and larger masks of the inputs make them larger (`op.cc`).

  Main declarations:
    * `PcodeOp.FitsSizes`
    * `PcodeOp.Grows`
    * `PcodeOp.getNZMaskLocal_within`
    * `PcodeOp.getNZMaskLocal_cliploop`
    * `PcodeOp.getNZMaskLocal_grows`
-/

------------------------------------------------------------
-- Masks of a Size
------------------------------------------------------------

namespace LLDBGhidra

open BitCover

variable {size larger : Nat}
variable {mask val : BitVec 64}

theorem within_calcMask_iff :
    Within mask (calcMask size) ↔
      ∀ index, mask.getLsbD index = true →
        index < 8 * size := by
  constructor
  · intro hWithin index hBit
    have hSet := hWithin index hBit
    rw [getLsbD_calcMask (BitVec.lt_of_getLsbD hBit)] at hSet
    exact of_decide_eq_true hSet
  · intro hBits index hBit
    rw [getLsbD_calcMask (BitVec.lt_of_getLsbD hBit)]
    exact decide_eq_true (hBits index hBit)

theorem within_calcMask_of_le
    (hMask : Within mask (calcMask size))
    (hLe : size ≤ larger) :
    Within mask (calcMask larger) := by
  rw [within_calcMask_iff] at hMask ⊢
  intro index hBit
  have hBelow := hMask index hBit
  omega

/- Every mask is within the size of a wide value. -/
theorem within_calcMask_wide
    (mask : BitVec 64)
    (hWide : 8 ≤ size) :
    Within mask (calcMask size) := by
  rw [within_calcMask_iff]
  intro index hBit
  have hWord := BitVec.lt_of_getLsbD hBit
  omega

theorem within_one
    (hSize : 1 ≤ size) :
    Within 1 (calcMask size) := by
  rw [within_calcMask_iff]
  intro index hBit
  change (1#64).getLsbD index = true at hBit
  rw [BitVec.getLsbD_one, Bool.and_eq_true,
    decide_eq_true_eq, decide_eq_true_eq] at hBit
  omega

theorem within_pcodeRight
    (hMask : Within mask (calcMask size))
    (shift : Nat) :
    Within (pcodeRight mask shift) (calcMask size) := by
  rw [pcodeRight]
  by_cases hFar : 64 ≤ shift
  · rw [if_pos hFar]
    exact Within.zero _
  · rw [within_calcMask_iff] at hMask ⊢
    intro index hBit
    rw [if_neg hFar, BitVec.getLsbD_ushiftRight] at hBit
    have hBelow := hMask _ hBit
    omega

/- A covering mask has the bits whose powers fit in. -/
theorem getLsbD_coveringmask_iff_le
    (val : BitVec 64)
    (index : Nat) :
    (coveringmask val).getLsbD index = true ↔
      2 ^ index ≤ val.toNat := by
  rw [getLsbD_coveringmask]
  constructor
  · rintro ⟨bit, hIndex, hBit⟩
    exact le_trans (Nat.pow_le_pow_right Nat.two_pos hIndex)
      (Nat.ge_two_pow_of_testBit hBit)
  · intro hLe
    have hNe : val ≠ 0 := by
      intro hZero
      rw [hZero] at hLe
      have hPos := Nat.two_pow_pos index
      change 2 ^ index ≤ 0 at hLe
      omega
    rcases HighestBit.exists_of_ne_zero hNe with
      ⟨highest, hHighest⟩
    have hPower := lt_of_le_of_lt hLe hHighest.toNat_lt
    have hIndex :=
      (Nat.pow_lt_pow_iff_right Nat.one_lt_two).mp hPower
    exact ⟨highest, by omega, hHighest.set⟩

theorem within_coveringmask_of_le
    {left right : BitVec 64}
    (hLe : left.toNat ≤ right.toNat) :
    Within (coveringmask left) (coveringmask right) := by
  intro index hBit
  rw [getLsbD_coveringmask_iff_le] at hBit ⊢
  exact le_trans hBit hLe

theorem within_coveringmask
    (hVal : Within val (calcMask size)) :
    Within (coveringmask val) (calcMask size) := by
  rw [within_calcMask_iff] at hVal ⊢
  intro index hBit
  rw [getLsbD_coveringmask] at hBit
  rcases hBit with ⟨bit, hIndex, hBit⟩
  have hBelow := hVal bit hBit
  omega

/- One less than a number that is not zero. -/
theorem toNat_sub_one
    (hVal : val ≠ 0) :
    (val - 1).toNat = val.toNat - 1 := by
  have hPos : val.toNat ≠ 0 := by
    intro hZero
    exact hVal (BitVec.eq_of_toNat_eq hZero)
  rw [BitVec.toNat_sub_of_le]
  · rfl
  · rw [BitVec.le_def]
    change 1 ≤ val.toNat
    omega

end LLDBGhidra

------------------------------------------------------------
-- Masks Within the Sizes of Outputs
------------------------------------------------------------

namespace LLDBGhidra

open BitCover

namespace PcodeOp

/- The sizes of the inputs go with that of the output. -/
structure FitsSizes
    (op : PcodeOp) : Prop where
  nonempty : 1 ≤ op.sizeout
  copies : op.opcode = .copy →
    (op.getIn 0).size = op.sizeout
  widens : op.opcode = .intZext ∨ op.opcode = .intSext →
    1 ≤ (op.getIn 0).size ∧ (op.getIn 0).size ≤ op.sizeout
  same : Pcode.keepsSize op.opcode = true →
    op.sizeout = (op.getIn 0).size
  equal : Pcode.keepsSize op.opcode = true →
    Pcode.mixesSizes op.opcode = false →
      (op.getIn 1).size = (op.getIn 0).size
  pieces : op.opcode = .piece →
    op.sizeout = (op.getIn 0).size + (op.getIn 1).size
  joins : op.opcode = .multiequal →
    ∀ vn ∈ op.inrefs, vn.size = op.sizeout

/- No input has a mask with bits above its size. -/
def MasksFit
    (op : PcodeOp) : Prop :=
  ∀ vn ∈ op.inrefs, Within vn.nzm (calcMask vn.size)

/- A remainder by what must be zero has a mask of no use. -/
def DivisorKnown
    (op : PcodeOp) : Prop :=
  op.opcode = .intRem → (op.getIn 1).nzm ≠ 0

variable {op : PcodeOp}

theorem MasksFit.getIn
    (hFit : op.MasksFit)
    (slot : Nat) :
    Within (op.getIn slot).nzm
      (calcMask (op.getIn slot).size) := by
  rw [PcodeOp.getIn, List.getD_eq_getElem?_getD]
  cases hIn : op.inrefs[slot]? with
  | none => exact Within.zero _
  | some vn => exact hFit vn (List.mem_of_getElem? hIn)

theorem nzmaskOr_of_full
    (hFull : (op.getIn 0).nzm = op.fullmask) :
    op.nzmaskOr = op.fullmask := by
  rw [nzmaskOr, if_neg (not_not.mpr hFull), hFull]

theorem nzmaskOr_of_ne
    (hFull : (op.getIn 0).nzm ≠ op.fullmask) :
    op.nzmaskOr = (op.getIn 0).nzm ||| (op.getIn 1).nzm := by
  rw [nzmaskOr, if_pos hFull]

theorem nzmaskOr_within
    (hX : Within (op.getIn 0).nzm op.fullmask)
    (hY : Within (op.getIn 1).nzm op.fullmask) :
    Within op.nzmaskOr op.fullmask := by
  by_cases hFull : (op.getIn 0).nzm = op.fullmask
  · rw [nzmaskOr_of_full hFull]
    exact Within.refl _
  · rw [nzmaskOr_of_ne hFull]
    exact Within.or_le hX hY

/- An empty mask needs no second one. -/
theorem nzmaskAnd_eq
    (op : PcodeOp) :
    op.nzmaskAnd = (op.getIn 0).nzm &&& (op.getIn 1).nzm := by
  rw [nzmaskAnd]
  by_cases hZero : (op.getIn 0).nzm = 0
  · rw [if_neg (not_not.mpr hZero), hZero]
    exact (BitVec.zero_and).symm
  · rw [if_pos hZero]

theorem nzmaskLeft_within :
    Within op.nzmaskLeft op.fullmask := by
  simp only [nzmaskLeft]
  split_ifs
  · exact Within.refl _
  · exact Within.and_right _ _

theorem nzmaskRight_within
    (hX : Within (op.getIn 0).nzm op.fullmask)
    (hSame : op.sizeout = (op.getIn 0).size) :
    Within op.nzmaskRight op.fullmask := by
  by_cases hWide : 8 ≤ op.sizeout
  · exact within_calcMask_wide _ hWide
  · have hNarrow : ¬ 8 < (op.getIn 0).size := by omega
    simp only [nzmaskRight, if_neg hNarrow]
    split_ifs
    · exact Within.refl _
    · exact within_pcodeRight hX _

theorem nzmaskSright_within
    (hX : Within (op.getIn 0).nzm op.fullmask) :
    Within op.nzmaskSright op.fullmask := by
  have hRight := within_pcodeRight hX
    (asSize (op.getIn 1).offsetInt4)
  simp only [nzmaskSright]
  split_ifs
  · exact Within.refl _
  · exact hRight
  · apply Within.or_le hRight
    rw [fullmask, within_calcMask_iff]
    intro index hBit
    have hWord := BitVec.lt_of_getLsbD hBit
    rw [BitVec.getLsbD_xor, BitVec.getLsbD_ushiftRight,
      getLsbD_calcMask hWord] at hBit
    by_contra hFar
    rw [decide_eq_false hFar, Bool.xor_false] at hBit
    have hBelow := within_calcMask_iff.mp
      (Within.refl (calcMask op.sizeout)) _ hBit
    omega

theorem nzmaskDiv_within
    (hX : Within (op.getIn 0).nzm op.fullmask) :
    Within op.nzmaskDiv op.fullmask := by
  have hCover : Within (coveringmask (op.getIn 0).nzm)
      (calcMask op.sizeout) :=
    within_coveringmask hX
  have hShift : ∀ sa : Nat,
      Within (coveringmask (op.getIn 0).nzm >>> sa)
        (calcMask op.sizeout) := by
    intro sa
    rw [within_calcMask_iff] at hCover ⊢
    intro index hBit
    rw [BitVec.getLsbD_ushiftRight] at hBit
    have hBelow := hCover _ hBit
    omega
  simp only [nzmaskDiv]
  split_ifs
  · exact hShift _
  · exact hCover
  · exact hCover

theorem nzmaskRem_within
    (hY : Within (op.getIn 1).nzm op.fullmask)
    (hDivisor : (op.getIn 1).nzm ≠ 0) :
    Within op.nzmaskRem op.fullmask := by
  apply Within.trans _ (within_coveringmask hY)
  apply within_coveringmask_of_le
  rw [toNat_sub_one hDivisor]
  omega

theorem nzmaskPiece_within
    (hX : Within (op.getIn 0).nzm
      (calcMask (op.getIn 0).size))
    (hY : Within (op.getIn 1).nzm
      (calcMask (op.getIn 1).size))
    (hPieces : op.sizeout =
      (op.getIn 0).size + (op.getIn 1).size) :
    Within op.nzmaskPiece op.fullmask := by
  rw [nzmaskPiece]
  apply Within.or_le
  · split_ifs
    · rw [fullmask, within_calcMask_iff]
      intro index hBit
      rw [BitVec.getLsbD_shiftLeft, Bool.and_eq_true] at hBit
      have hBelow := within_calcMask_iff.mp hX _ hBit.2
      omega
    · exact Within.zero _
  · exact within_calcMask_of_le hY (by omega)

theorem nzmaskMult_within :
    Within op.nzmaskMult op.fullmask := by
  simp only [nzmaskMult, productMask]
  split_ifs
  · exact Within.refl _
  · exact Within.zero _
  · exact Within.zero _
  all_goals exact Within.and_right _ _

theorem nzmaskAdd_of_full
    (hFull : (op.getIn 0).nzm = op.fullmask) :
    op.nzmaskAdd = op.fullmask := by
  rw [nzmaskAdd, if_neg (not_not.mpr hFull), hFull]

theorem nzmaskAdd_of_ne
    (hFull : (op.getIn 0).nzm ≠ op.fullmask) :
    op.nzmaskAdd =
      ((op.getIn 0).nzm ||| (op.getIn 1).nzm |||
        ((op.getIn 0).nzm ||| (op.getIn 1).nzm) <<< 1) &&&
          op.fullmask := by
  rw [nzmaskAdd, if_pos hFull]

theorem nzmaskAdd_within :
    Within op.nzmaskAdd op.fullmask := by
  by_cases hFull : (op.getIn 0).nzm = op.fullmask
  · rw [nzmaskAdd_of_full hFull]
    exact Within.refl _
  · rw [nzmaskAdd_of_ne hFull]
    exact Within.and_right _ _

/- The masks of inputs that are all in a mask are in it. -/
theorem nzmaskInputs_le
    {larger : BitVec 64}
    (skips : Nat → Bool)
    (inrefs : List Varnode)
    (slot : Nat)
    (resmask : BitVec 64)
    (hMask : Within resmask larger)
    (hInputs : ∀ vn ∈ inrefs, Within vn.nzm larger) :
    Within (nzmaskInputs skips slot inrefs resmask) larger := by
  induction inrefs generalizing slot resmask with
  | nil => exact hMask
  | cons head rest ih =>
      rw [nzmaskInputs]
      apply ih
      · split_ifs
        · exact hMask
        · exact Within.or_le hMask
            (hInputs head List.mem_cons_self)
      · intro vn hIn
        exact hInputs vn (List.mem_cons_of_mem head hIn)

theorem nzmaskMultiequal_within
    (cliploop : Bool)
    (hFit : op.MasksFit)
    (hJoins : ∀ vn ∈ op.inrefs, vn.size = op.sizeout) :
    Within (op.nzmaskMultiequal cliploop) op.fullmask := by
  rw [nzmaskMultiequal]
  split_ifs
  · exact Within.refl _
  · apply nzmaskInputs_le _ _ _ _ (Within.zero _)
    intro vn hIn
    rw [fullmask, ← hJoins vn hIn]
    exact hFit vn hIn

theorem signExtend_within
    {sizein sizeout : Nat}
    (hSize : 1 ≤ sizein)
    (hWider : sizein ≤ sizeout)
    (mask : BitVec 64) :
    Within (signExtend mask sizein sizeout)
      (calcMask sizeout) := by
  rw [within_calcMask_iff]
  intro index hBit
  have hWord := BitVec.lt_of_getLsbD hBit
  rw [getLsbD_signExtend_clip hSize hWider mask hWord,
    Bool.and_eq_true, decide_eq_true_eq] at hBit
  exact hBit.1

/- The mask of an output has no bits above its size. -/
theorem getNZMaskLocal_within
    (cliploop : Bool)
    (hSizes : op.FitsSizes)
    (hFit : op.MasksFit)
    (hDivisor : op.DivisorKnown) :
    Within (op.getNZMaskLocal cliploop) op.fullmask := by
  have hOne : Within 1 op.fullmask := within_one hSizes.nonempty
  have hX := hFit.getIn 0
  have hY := hFit.getIn 1
  rw [getNZMaskLocal]
  cases hOpcode : op.opcode <;> first
    | exact Within.refl _
    | exact hOne
    | skip
  case copy =>
    rw [hSizes.copies hOpcode] at hX
    exact hX
  case intZext =>
    exact within_calcMask_of_le hX
      (hSizes.widens (Or.inl hOpcode)).2
  case intSext =>
    have hWidens := hSizes.widens (Or.inr hOpcode)
    exact signExtend_within hWidens.1 hWidens.2 _
  case subpiece => exact Within.and_right _ _
  case popcount => exact Within.and_right _ _
  case lzcount => exact Within.and_right _ _
  case intLeft => exact nzmaskLeft_within
  case intMult => exact nzmaskMult_within
  case piece =>
    exact nzmaskPiece_within hX hY (hSizes.pieces hOpcode)
  case multiequal =>
    exact nzmaskMultiequal_within cliploop hFit
      (hSizes.joins hOpcode)
  case call => split_ifs; exacts [hOne, Within.refl _]
  case callind => split_ifs; exacts [hOne, Within.refl _]
  case cpoolref => split_ifs; exacts [hOne, Within.refl _]
  all_goals
    have hSame := hSizes.same (by rw [hOpcode]; rfl)
    have hFullX : Within (op.getIn 0).nzm op.fullmask := by
      rw [fullmask, hSame]
      exact hX
  case intRight => exact nzmaskRight_within hFullX hSame
  case intSright => exact nzmaskSright_within hFullX
  case intAdd => exact nzmaskAdd_within
  case intDiv => exact nzmaskDiv_within hFullX
  case intAnd =>
    change Within op.nzmaskAnd op.fullmask
    rw [nzmaskAnd_eq]
    exact Within.trans (Within.and_left _ _) hFullX
  all_goals
    have hFullY : Within (op.getIn 1).nzm op.fullmask := by
      rw [fullmask, hSame, ← hSizes.equal (by rw [hOpcode]; rfl)
        (by rw [hOpcode]; rfl)]
      exact hY
  case intXor => exact nzmaskOr_within hFullX hFullY
  case intOr => exact nzmaskOr_within hFullX hFullY
  case intRem =>
    exact nzmaskRem_within hFullY (hDivisor hOpcode)

end PcodeOp

end LLDBGhidra

------------------------------------------------------------
-- Growing Masks
------------------------------------------------------------

namespace LLDBGhidra

open BitCover

/- The same varnode, with a mask that may have grown. -/
structure Varnode.Grows
    (vn larger : Varnode) : Prop where
  size : larger.size = vn.size
  offset : larger.offset = vn.offset
  constant : larger.constant = vn.constant
  mask : Within vn.nzm larger.nzm
  fixed : vn.constant = true → larger.nzm = vn.nzm

theorem Varnode.Grows.refl
    (vn : Varnode) :
    vn.Grows vn :=
  ⟨rfl, rfl, rfl, Within.refl _, fun _ => rfl⟩

namespace PcodeOp

/- The same operation on inputs with masks that have grown. -/
structure Grows
    (op larger : PcodeOp) : Prop where
  opcode : larger.opcode = op.opcode
  sizeout : larger.sizeout = op.sizeout
  calculatedBool : larger.calculatedBool = op.calculatedBool
  inrefs : List.Forall₂ Varnode.Grows op.inrefs larger.inrefs

variable {op larger : PcodeOp}

namespace Grows

theorem getIn
    (hGrows : op.Grows larger)
    (slot : Nat) :
    (op.getIn slot).Grows (larger.getIn slot) := by
  have hInputs : ∀ inrefs others,
      List.Forall₂ Varnode.Grows inrefs others →
        (inrefs.getD slot Varnode.blank).Grows
          (others.getD slot Varnode.blank) := by
    intro inrefs others hAll
    induction hAll generalizing slot with
    | nil => exact Varnode.Grows.refl _
    | cons hHead _ ih =>
        cases slot with
        | zero => exact hHead
        | succ slot => exact ih slot
  exact hInputs _ _ hGrows.inrefs

theorem fullmask
    (hGrows : op.Grows larger) :
    larger.fullmask = op.fullmask := by
  rw [PcodeOp.fullmask, PcodeOp.fullmask, hGrows.sizeout]

theorem offsetInt4
    (hGrows : op.Grows larger)
    (slot : Nat) :
    (larger.getIn slot).offsetInt4 =
      (op.getIn slot).offsetInt4 := by
  rw [Varnode.offsetInt4, Varnode.offsetInt4,
    (hGrows.getIn slot).offset]

end Grows

/- A full mask stays as it is, and others are or-ed. -/
theorem nzmaskOr_grows
    (hGrows : op.Grows larger)
    (hX : Within (op.getIn 0).nzm op.fullmask)
    (hY : Within (op.getIn 1).nzm op.fullmask) :
    Within op.nzmaskOr larger.nzmaskOr := by
  by_cases hFull : (larger.getIn 0).nzm = larger.fullmask
  · rw [nzmaskOr_of_full hFull, hGrows.fullmask]
    exact nzmaskOr_within hX hY
  · have hOr := Within.or (hGrows.getIn 0).mask
      (hGrows.getIn 1).mask
    rw [nzmaskOr_of_ne hFull]
    apply Within.trans _ hOr
    rw [nzmaskOr]
    split_ifs
    · exact Within.refl _
    · exact Within.or_left _ _

theorem pcodeRight_grows
    {mask grown : BitVec 64}
    (hMask : Within mask grown)
    (shift : Nat) :
    Within (pcodeRight mask shift) (pcodeRight grown shift) := by
  rw [pcodeRight, pcodeRight]
  by_cases hFar : 64 ≤ shift
  · rw [if_pos hFar]
    exact Within.zero _
  · rw [if_neg hFar, if_neg hFar]
    exact hMask.ushiftRight shift

theorem nzmaskLeft_grows
    (hGrows : op.Grows larger) :
    Within op.nzmaskLeft larger.nzmaskLeft := by
  have hMask := (hGrows.getIn 0).mask
  simp only [nzmaskLeft, hGrows.fullmask, hGrows.offsetInt4,
    (hGrows.getIn 1).constant, pcodeLeft]
  split_ifs
  · exact Within.refl _
  · exact Within.refl _
  · exact (hMask.shiftLeft _).and (Within.refl _)

theorem nzmaskRight_grows
    (hGrows : op.Grows larger) :
    Within op.nzmaskRight larger.nzmaskRight := by
  have hShifted := pcodeRight_grows (hGrows.getIn 0).mask
    (asSize (op.getIn 1).offsetInt4)
  simp only [nzmaskRight, hGrows.fullmask, hGrows.offsetInt4,
    (hGrows.getIn 1).constant, (hGrows.getIn 0).size]
  split_ifs
  · exact Within.refl _
  · exact Within.refl _
  · exact Within.refl _
  · exact hShifted.or (Within.refl _)
  · exact hShifted

/- With the sign, only more bits are set. -/
theorem nzmaskSright_grows
    (hGrows : op.Grows larger) :
    Within op.nzmaskSright larger.nzmaskSright := by
  have hMask := (hGrows.getIn 0).mask
  have hShifted := pcodeRight_grows hMask
    (asSize (op.getIn 1).offsetInt4)
  simp only [nzmaskSright, hGrows.fullmask, hGrows.offsetInt4,
    (hGrows.getIn 1).constant, hGrows.sizeout]
  by_cases hFull : (op.getIn 1).constant = false ∨
      8 < op.sizeout
  · rw [if_pos hFull, if_pos hFull]
    exact Within.refl _
  rw [if_neg hFull, if_neg hFull]
  by_cases hSign : (larger.getIn 0).nzm &&&
      (op.fullmask ^^^ op.fullmask >>> 1) = 0
  · have hBoth := hMask.and
      (Within.refl (op.fullmask ^^^ op.fullmask >>> 1))
    rw [hSign] at hBoth
    have hNone := Within.antisymm hBoth (Within.zero _)
    rw [if_pos hSign, if_pos hNone]
    exact hShifted
  · rw [if_neg hSign]
    split_ifs
    · exact Within.trans hShifted (Within.or_left _ _)
    · exact hShifted.or (Within.refl _)

theorem nzmaskDiv_grows
    (hGrows : op.Grows larger) :
    Within op.nzmaskDiv larger.nzmaskDiv := by
  have hCover := within_coveringmask_of_le
    (hGrows.getIn 0).mask.toNat_le
  simp only [nzmaskDiv, (hGrows.getIn 1).constant]
  by_cases hConstant : (op.getIn 1).constant = true
  · rw [if_pos hConstant, if_pos hConstant,
      (hGrows.getIn 1).fixed hConstant]
    split_ifs
    · exact hCover.ushiftRight _
    · exact hCover
  · rw [if_neg hConstant, if_neg hConstant]
    exact hCover

/- This is where a divisor must not have an empty mask. -/
theorem nzmaskRem_grows
    (hGrows : op.Grows larger)
    (hDivisor : (op.getIn 1).nzm ≠ 0) :
    Within op.nzmaskRem larger.nzmaskRem := by
  have hMask := (hGrows.getIn 1).mask
  have hLe := hMask.toNat_le
  apply within_coveringmask_of_le
  rw [toNat_sub_one hDivisor,
    toNat_sub_one (hMask.ne_zero hDivisor)]
  omega

theorem nzmaskPopcount_grows
    (hGrows : op.Grows larger) :
    Within op.nzmaskPopcount larger.nzmaskPopcount := by
  have hCount := BitCount.cpop_le_of_bits
    (hGrows.getIn 0).mask
  have hLess := BitVec.toNat_cpop_le (op.getIn 0).nzm
  have hMost := BitVec.toNat_cpop_le (larger.getIn 0).nzm
  simp only [nzmaskPopcount, hGrows.fullmask]
  apply Within.and _ (Within.refl _)
  apply within_coveringmask_of_le
  rw [popcount_eq, popcount_eq, BitVec.toNat_ofNat,
    BitVec.toNat_ofNat, Nat.mod_eq_of_lt (by omega),
    Nat.mod_eq_of_lt (by omega)]
  exact hCount

theorem nzmaskSubpiece_grows
    (hGrows : op.Grows larger) :
    Within op.nzmaskSubpiece larger.nzmaskSubpiece := by
  have hMask := (hGrows.getIn 0).mask
  simp only [nzmaskSubpiece, hGrows.fullmask,
    hGrows.offsetInt4, (hGrows.getIn 0).size]
  apply Within.and _ (Within.refl _)
  split_ifs
  · exact hMask.ushiftRight _
  · exact Within.refl _
  · exact (hMask.ushiftRight _).or (Within.refl _)
  · exact hMask.ushiftRight _
  · exact Within.refl _

theorem nzmaskPiece_grows
    (hGrows : op.Grows larger) :
    Within op.nzmaskPiece larger.nzmaskPiece := by
  have hMask := (hGrows.getIn 0).mask
  simp only [nzmaskPiece, (hGrows.getIn 1).size]
  apply Within.or _ (hGrows.getIn 1).mask
  split_ifs
  · exact hMask.shiftLeft _
  · exact Within.refl _

/- The lowest bit comes down and the highest one goes up. -/
theorem bits_of_within
    {mask grown : BitVec 64}
    {low high low' high' : Nat}
    (hMask : Within mask grown)
    (hLow : LowestBit mask low)
    (hHigh : HighestBit mask high)
    (hLow' : LowestBit grown low')
    (hHigh' : HighestBit grown high') :
    low' ≤ low ∧ low ≤ high ∧ high ≤ high' := by
  refine ⟨?_, lowest_le_highest hLow hHigh, ?_⟩
  · by_contra hLess
    have hSet := hMask low hLow.set
    rw [hLow'.clear low (by omega)] at hSet
    exact Bool.false_ne_true hSet
  · by_contra hLess
    have hSet := hMask high hHigh.set
    rw [hHigh'.clear high (by omega)] at hSet
    exact Bool.false_ne_true hSet

theorem productMask_grows
    {size l1 h1 l2 h2 l1' h1' l2' h2' : Nat}
    (hSize : size ≤ 8)
    (hFirst : l1' ≤ l1 ∧ l1 ≤ h1 ∧ h1 ≤ h1')
    (hSecond : l2' ≤ l2 ∧ l2 ≤ h2 ∧ h2 ≤ h2') :
    Within (productMask size l1 h1 l2 h2)
      (productMask size l1' h1' l2' h2') := by
  intro index hBit
  rw [getLsbD_productMask hSize hFirst.2.1 hSecond.2.1] at hBit
  rw [getLsbD_productMask hSize (by omega) (by omega)]
  simp only [productBits] at hBit ⊢
  split_ifs at hBit ⊢
  all_goals omega

theorem nzmaskMult_grows
    (hGrows : op.Grows larger) :
    Within op.nzmaskMult larger.nzmaskMult := by
  have hX := (hGrows.getIn 0).mask
  have hY := (hGrows.getIn 1).mask
  simp only [nzmaskMult, hGrows.fullmask, hGrows.sizeout]
  by_cases hWide : 8 < op.sizeout
  · rw [if_pos hWide, if_pos hWide]
    exact Within.refl _
  rw [if_neg hWide, if_neg hWide]
  by_cases hNone : mostsigbitSet (op.getIn 0).nzm = -1 ∨
      mostsigbitSet (op.getIn 1).nzm = -1
  · rw [if_pos hNone]
    exact Within.zero _
  -- neither mask is empty, so they stay like this
  have hNe0 : (op.getIn 0).nzm ≠ 0 := fun hZero =>
    hNone (Or.inl (by rw [hZero]; rfl))
  have hNe1 : (op.getIn 1).nzm ≠ 0 := fun hZero =>
    hNone (Or.inr (by rw [hZero]; rfl))
  rcases HighestBit.exists_of_ne_zero hNe0 with ⟨h1, hHigh1⟩
  rcases HighestBit.exists_of_ne_zero hNe1 with ⟨h2, hHigh2⟩
  rcases LowestBit.exists_of_ne_zero hNe0 with ⟨l1, hLow1⟩
  rcases LowestBit.exists_of_ne_zero hNe1 with ⟨l2, hLow2⟩
  rcases HighestBit.exists_of_ne_zero (hX.ne_zero hNe0) with
    ⟨h1', hHigh1'⟩
  rcases HighestBit.exists_of_ne_zero (hY.ne_zero hNe1) with
    ⟨h2', hHigh2'⟩
  rcases LowestBit.exists_of_ne_zero (hX.ne_zero hNe0) with
    ⟨l1', hLow1'⟩
  rcases LowestBit.exists_of_ne_zero (hY.ne_zero hNe1) with
    ⟨l2', hLow2'⟩
  have hFound' : ¬ ((h1' : Int) = -1 ∨ (h2' : Int) = -1) := by
    omega
  rw [if_neg hNone, mostsigbitSet_eq hHigh1,
    mostsigbitSet_eq hHigh2, mostsigbitSet_eq hHigh1',
    mostsigbitSet_eq hHigh2', leastsigbitSet_eq hLow1,
    leastsigbitSet_eq hLow2, leastsigbitSet_eq hLow1',
    leastsigbitSet_eq hLow2', if_neg hFound']
  exact productMask_grows (Nat.not_lt.mp hWide)
    (bits_of_within hX hLow1 hHigh1 hLow1' hHigh1')
    (bits_of_within hY hLow2 hHigh2 hLow2' hHigh2')

theorem nzmaskAdd_grows
    (hGrows : op.Grows larger)
    (hX : Within (op.getIn 0).nzm op.fullmask) :
    Within op.nzmaskAdd larger.nzmaskAdd := by
  by_cases hFull : (larger.getIn 0).nzm = larger.fullmask
  · rw [nzmaskAdd_of_full hFull, hGrows.fullmask]
    exact nzmaskAdd_within
  have hMask := (hGrows.getIn 0).mask
  have hOr := Within.or hMask (hGrows.getIn 1).mask
  rw [nzmaskAdd_of_ne hFull, hGrows.fullmask]
  by_cases hFull' : (op.getIn 0).nzm = op.fullmask
  · rw [nzmaskAdd_of_full hFull', ← hFull']
    rw [← hFull'] at hX
    intro index hBit
    rw [BitVec.getLsbD_and, Bool.and_eq_true]
    exact ⟨Within.or_left _ _ _
      (Within.or_left _ _ _ (hMask _ hBit)), hX _ hBit⟩
  · rw [nzmaskAdd_of_ne hFull']
    exact (hOr.or (hOr.shiftLeft 1)).and (Within.refl _)

/- Inputs with larger masks, of which no more are skipped. -/
theorem nzmaskInputs_grows
    {inrefs others : List Varnode}
    {skips fewer : Nat → Bool}
    (hInputs : List.Forall₂ Varnode.Grows inrefs others)
    (hSkips : ∀ slot, fewer slot = true → skips slot = true)
    (slot : Nat)
    {resmask grown : BitVec 64}
    (hMask : Within resmask grown) :
    Within (nzmaskInputs skips slot inrefs resmask)
      (nzmaskInputs fewer slot others grown) := by
  induction hInputs generalizing slot resmask grown with
  | nil => exact hMask
  | cons hHead _ ih =>
      rw [nzmaskInputs, nzmaskInputs]
      apply ih
      by_cases hSkip : skips slot = true
      · rw [if_pos hSkip]
        split_ifs
        · exact hMask
        · exact Within.trans hMask (Within.or_left _ _)
      · rw [if_neg hSkip,
          if_neg (fun hFewer => hSkip (hSkips slot hFewer))]
        exact hMask.or hHead.mask

theorem nzmaskMultiequal_grows
    (hGrows : op.Grows larger)
    (cliploop : Bool) :
    Within (op.nzmaskMultiequal cliploop)
      (larger.nzmaskMultiequal false) := by
  have hInputs := @nzmaskInputs_grows _ _
    (fun slot => cliploop && op.loopIn slot)
    (fun slot => false && larger.loopIn slot) hGrows.inrefs
    (fun _ hSkip => by cases hSkip) 0 _ _ (Within.refl 0)
  have hNil : larger.inrefs = [] ↔ op.inrefs = [] := by
    have hLength := hGrows.inrefs.length_eq
    rw [← List.length_eq_zero_iff, ← List.length_eq_zero_iff,
      hLength]
  rw [nzmaskMultiequal, nzmaskMultiequal]
  by_cases hEmpty : op.inrefs = []
  · rw [if_pos hEmpty, if_pos (hNil.mpr hEmpty),
      hGrows.fullmask]
    exact Within.refl _
  · rw [if_neg hEmpty, if_neg (fun hNone =>
      hEmpty (hNil.mp hNone))]
    exact hInputs

theorem signExtend_grows
    {mask grown : BitVec 64}
    {sizein sizeout : Nat}
    (hSize : 1 ≤ sizein)
    (hWider : sizein ≤ sizeout)
    (hMask : Within mask grown) :
    Within (signExtend mask sizein sizeout)
      (signExtend grown sizein sizeout) := by
  intro index hBit
  have hWord := BitVec.lt_of_getLsbD hBit
  rw [getLsbD_signExtend_clip hSize hWider _ hWord,
    Bool.and_eq_true] at hBit ⊢
  refine ⟨hBit.1, ?_⟩
  by_cases hLow : index < 8 * sizein
  · rw [if_pos hLow] at hBit ⊢
    exact hMask _ hBit.2
  · rw [if_neg hLow] at hBit ⊢
    exact hMask _ hBit.2

/- Larger masks of the inputs make that of the output larger. -/
theorem getNZMaskLocal_grows
    (hGrows : op.Grows larger)
    (hSizes : op.FitsSizes)
    (hFit : op.MasksFit)
    (hDivisor : op.DivisorKnown)
    (cliploop : Bool) :
    Within (op.getNZMaskLocal cliploop)
      (larger.getNZMaskLocal false) := by
  have hMask := (hGrows.getIn 0).mask
  have hX := hFit.getIn 0
  have hY := hFit.getIn 1
  rw [getNZMaskLocal, getNZMaskLocal, hGrows.opcode,
    hGrows.fullmask, hGrows.calculatedBool]
  cases hOpcode : op.opcode <;> first
    | exact Within.refl _
    | skip
  case copy => exact hMask
  case intZext => exact hMask
  case intSext =>
    have hWidens := hSizes.widens (Or.inr hOpcode)
    simp only [(hGrows.getIn 0).size, hGrows.sizeout]
    exact signExtend_grows hWidens.1 hWidens.2 hMask
  case intAnd =>
    simp only [nzmaskAnd_eq]
    exact hMask.and (hGrows.getIn 1).mask
  case intLeft => exact nzmaskLeft_grows hGrows
  case intRight => exact nzmaskRight_grows hGrows
  case intSright => exact nzmaskSright_grows hGrows
  case intDiv => exact nzmaskDiv_grows hGrows
  case intRem => exact nzmaskRem_grows hGrows (hDivisor hOpcode)
  case popcount => exact nzmaskPopcount_grows hGrows
  case lzcount =>
    simp only [nzmaskLzcount, (hGrows.getIn 0).size,
      hGrows.fullmask]
    exact Within.refl _
  case subpiece => exact nzmaskSubpiece_grows hGrows
  case piece => exact nzmaskPiece_grows hGrows
  case intMult => exact nzmaskMult_grows hGrows
  case multiequal =>
    exact nzmaskMultiequal_grows hGrows cliploop
  all_goals
    have hSame := hSizes.same (by rw [hOpcode]; rfl)
    have hFullX : Within (op.getIn 0).nzm op.fullmask := by
      rw [PcodeOp.fullmask, hSame]
      exact hX
  case intAdd => exact nzmaskAdd_grows hGrows hFullX
  all_goals
    have hFullY : Within (op.getIn 1).nzm op.fullmask := by
      rw [PcodeOp.fullmask, hSame,
        ← hSizes.equal (by rw [hOpcode]; rfl)
          (by rw [hOpcode]; rfl)]
      exact hY
  case intXor => exact nzmaskOr_grows hGrows hFullX hFullY
  case intOr => exact nzmaskOr_grows hGrows hFullX hFullY

/- Loop edges lead to no other operations. -/
theorem getNZMaskLocal_cliploop
    (hJoin : op.opcode ≠ .multiequal)
    (left right : Bool) :
    op.getNZMaskLocal left = op.getNZMaskLocal right := by
  rw [getNZMaskLocal, getNZMaskLocal]
  cases hOpcode : op.opcode <;> first
    | rfl
    | exact absurd hOpcode hJoin

end PcodeOp

end LLDBGhidra
