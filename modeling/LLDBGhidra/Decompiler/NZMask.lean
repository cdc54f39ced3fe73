import LLDBGhidra.Decompiler.PcodeMeaning
import LLDBGhidra.Library.BitCover

/-
  Masks of the bits of a value that may be set (`op.cc`).  A
  mask has 64 bits; of a wider value it tells about the lowest
  ones.

  Main declarations:
    * `PcodeOp.getNZMaskLocal`
    * `Pcode.Computes`
    * `PcodeOp.WithinReach`
    * `PcodeOp.covers_getNZMaskLocal`
-/

------------------------------------------------------------
-- Operations with Their Inputs
------------------------------------------------------------

namespace LLDBGhidra

/- The fields of a varnode that a mask depends on. -/
structure Varnode where
  size : Nat
  offset : BitVec 64
  constant : Bool
  nzm : BitVec 64
deriving DecidableEq, Repr

namespace Varnode

def blank : Varnode :=
  { size := 0
    offset := 0
    constant := false
    nzm := 0 }

/- The offset, narrowed to `int4`. -/
def offsetInt4
    (vn : Varnode) : Int :=
  int4 vn.offset.toNat

end Varnode

/- A signed number that is compared with a `size_t`. -/
def asSize
    (number : Int) : Nat :=
  (BitVec.ofInt 64 number).toNat

/-
  An operation with an output: its size, the inputs, whether
  the output is known to be a boolean, and which incoming
  edges of its block close a loop.
-/
structure PcodeOp where
  opcode : OpCode
  sizeout : Nat
  inrefs : List Varnode
  calculatedBool : Bool
  loopIn : Nat → Bool

namespace PcodeOp

def getIn
    (op : PcodeOp)
    (slot : Nat) : Varnode :=
  op.inrefs.getD slot Varnode.blank

def fullmask
    (op : PcodeOp) : BitVec 64 :=
  calcMask op.sizeout

end PcodeOp

end LLDBGhidra

------------------------------------------------------------
-- Masks of Outputs
------------------------------------------------------------

namespace LLDBGhidra

namespace PcodeOp

/- `CPUI_INT_XOR` and `CPUI_INT_OR`. -/
def nzmaskOr
    (op : PcodeOp) : BitVec 64 :=
  let resmask := (op.getIn 0).nzm
  if resmask ≠ op.fullmask then
    resmask ||| (op.getIn 1).nzm
  else
    resmask

def nzmaskAnd
    (op : PcodeOp) : BitVec 64 :=
  let resmask := (op.getIn 0).nzm
  if resmask ≠ 0 then
    resmask &&& (op.getIn 1).nzm
  else
    resmask

def nzmaskLeft
    (op : PcodeOp) : BitVec 64 :=
  if (op.getIn 1).constant = false then
    op.fullmask
  else
    let sa := (op.getIn 1).offsetInt4
    pcodeLeft (op.getIn 0).nzm (asSize sa) &&& op.fullmask

/-
  The bits of a wide input above the mask are not known: they
  are shifted in as ones.
-/
def nzmaskRight
    (op : PcodeOp) : BitVec 64 :=
  if (op.getIn 1).constant = false then
    op.fullmask
  else
    let sz1 := (op.getIn 0).size
    let sa := (op.getIn 1).offsetInt4
    let resmask := pcodeRight (op.getIn 0).nzm (asSize sa)
    if 8 < sz1 then
      if 8 * (sz1 : Int) ≤ sa then
        0
      else if 64 ≤ asSize sa then
        calcMask (sz1 - 8) >>> (asSize sa - 64)
      else
        resmask ||| BitVec.allOnes 64 <<< (64 - asSize sa)
    else
      resmask

def nzmaskSright
    (op : PcodeOp) : BitVec 64 :=
  if (op.getIn 1).constant = false ∨ 8 < op.sizeout then
    op.fullmask
  else
    let fullmask := op.fullmask
    let sa := (op.getIn 1).offsetInt4
    let resmask := (op.getIn 0).nzm
    if resmask &&& (fullmask ^^^ fullmask >>> 1) = 0 then
      pcodeRight resmask (asSize sa)
    else
      pcodeRight resmask (asSize sa) |||
        (fullmask >>> asSize sa ^^^ fullmask)

/- A constant divisor adds zero bits above. -/
def nzmaskDiv
    (op : PcodeOp) : BitVec 64 :=
  let resmask := coveringmask (op.getIn 0).nzm
  if (op.getIn 1).constant then
    let sa := mostsigbitSet (op.getIn 1).nzm
    if sa ≠ -1 then resmask >>> sa.toNat else resmask
  else
    resmask

def nzmaskRem
    (op : PcodeOp) : BitVec 64 :=
  coveringmask ((op.getIn 1).nzm - 1)

def nzmaskPopcount
    (op : PcodeOp) : BitVec 64 :=
  let sz1 := LLDBGhidra.popcount (op.getIn 0).nzm
  coveringmask (BitVec.ofNat 64 sz1) &&& op.fullmask

def nzmaskLzcount
    (op : PcodeOp) : BitVec 64 :=
  coveringmask (BitVec.ofNat 64 ((op.getIn 0).size * 8)) &&&
    op.fullmask

def nzmaskSubpiece
    (op : PcodeOp) : BitVec 64 :=
  let resmask := (op.getIn 0).nzm
  let sz1 := asSize (op.getIn 1).offsetInt4
  let cut :=
    if (op.getIn 0).size ≤ 8 then
      if sz1 < 8 then resmask >>> (8 * sz1) else 0
    else if sz1 < 8 then
      if 0 < sz1 then
        resmask >>> (8 * sz1) |||
          op.fullmask <<< (8 * (8 - sz1))
      else
        resmask >>> (8 * sz1)
    else
      op.fullmask
  cut &&& op.fullmask

def nzmaskPiece
    (op : PcodeOp) : BitVec 64 :=
  let sa := (op.getIn 1).size
  let resmask :=
    if sa < 8 then (op.getIn 0).nzm <<< (8 * sa) else 0
  resmask ||| (op.getIn 1).nzm

/- The place of a product, by the lowest and highest bits. -/
def productMask
    (size : Nat)
    (l1 h1 l2 h2 : Int) : BitVec 64 :=
  let sa := l1 + l2
  if 8 * (size : Int) ≤ sa then
    0
  else
    let sz1 := h1 - l1 + 1
    let sz2 := h2 - l2 + 1
    let total :=
      if sz1 = 1 ∨ sz2 = 1 then sz1 + sz2 - 1
      else sz1 + sz2
    let fullmask := calcMask size
    let resmask :=
      if total < 8 * (size : Int) then
        fullmask >>> (8 * (size : Int) - total).toNat
      else
        fullmask
    resmask <<< sa.toNat &&& fullmask

def nzmaskMult
    (op : PcodeOp) : BitVec 64 :=
  let val := (op.getIn 0).nzm
  let resmask := (op.getIn 1).nzm
  if 8 < op.sizeout then
    op.fullmask
  else
    let sz1 := mostsigbitSet val
    let sz2 := mostsigbitSet resmask
    if sz1 = -1 ∨ sz2 = -1 then
      0
    else
      productMask op.sizeout (leastsigbitSet val) sz1
        (leastsigbitSet resmask) sz2

def nzmaskAdd
    (op : PcodeOp) : BitVec 64 :=
  let resmask := (op.getIn 0).nzm
  if resmask ≠ op.fullmask then
    let resmask := resmask ||| (op.getIn 1).nzm
    -- account for possible carries
    (resmask ||| resmask <<< 1) &&& op.fullmask
  else
    resmask

/- The masks of the inputs from a slot on. -/
def nzmaskInputs
    (skips : Nat → Bool)
    (slot : Nat)
    (inrefs : List Varnode)
    (resmask : BitVec 64) : BitVec 64 :=
  match inrefs with
  | [] => resmask
  | vn :: rest =>
      nzmaskInputs skips (slot + 1) rest
        (if skips slot then resmask else resmask ||| vn.nzm)

/- Loops can be left out. -/
def nzmaskMultiequal
    (cliploop : Bool)
    (op : PcodeOp) : BitVec 64 :=
  if op.inrefs = [] then
    op.fullmask
  else
    nzmaskInputs (fun slot => cliploop && op.loopIn slot) 0
      op.inrefs 0

/- The bits of the output that may be set. -/
def getNZMaskLocal
    (cliploop : Bool)
    (op : PcodeOp) : BitVec 64 :=
  match op.opcode with
  | .intEqual => 1
  | .intNotequal => 1
  | .intSless => 1
  | .intSlessequal => 1
  | .intLess => 1
  | .intLessequal => 1
  | .intCarry => 1
  | .intScarry => 1
  | .intSborrow => 1
  | .boolNegate => 1
  | .boolXor => 1
  | .boolAnd => 1
  | .boolOr => 1
  | .floatEqual => 1
  | .floatNotequal => 1
  | .floatLess => 1
  | .floatLessequal => 1
  | .floatNan => 1
  | .copy => (op.getIn 0).nzm
  | .intZext => (op.getIn 0).nzm
  | .intSext =>
      signExtend (op.getIn 0).nzm (op.getIn 0).size op.sizeout
  | .intXor => op.nzmaskOr
  | .intOr => op.nzmaskOr
  | .intAnd => op.nzmaskAnd
  | .intLeft => op.nzmaskLeft
  | .intRight => op.nzmaskRight
  | .intSright => op.nzmaskSright
  | .intDiv => op.nzmaskDiv
  | .intRem => op.nzmaskRem
  | .popcount => op.nzmaskPopcount
  | .lzcount => op.nzmaskLzcount
  | .subpiece => op.nzmaskSubpiece
  | .piece => op.nzmaskPiece
  | .intMult => op.nzmaskMult
  | .intAdd => op.nzmaskAdd
  | .multiequal => op.nzmaskMultiequal cliploop
  | .call => if op.calculatedBool then 1 else op.fullmask
  | .callind => if op.calculatedBool then 1 else op.fullmask
  | .cpoolref => if op.calculatedBool then 1 else op.fullmask
  | _ => op.fullmask

end PcodeOp

end LLDBGhidra

------------------------------------------------------------
-- What Operations Compute
------------------------------------------------------------

namespace LLDBGhidra

namespace Pcode

/- How an operation gets its output. -/
inductive Kind where
| unary : Kind
| binary : Kind
| boolean : Kind
| calculated : Kind
| choice : Kind
| unknown : Kind
deriving DecidableEq, Repr

/-
  Operations on integers have a meaning.  The others may have
  any output, but comparisons are zero or one, and a
  `MULTIEQUAL` has the value of an input.
-/
def kind
    (opc : OpCode) : Kind :=
  match opc with
  | .copy => .unary
  | .intZext => .unary
  | .intSext => .unary
  | .int2comp => .unary
  | .intNegate => .unary
  | .boolNegate => .unary
  | .popcount => .unary
  | .lzcount => .unary
  | .intEqual => .binary
  | .intNotequal => .binary
  | .intSless => .binary
  | .intSlessequal => .binary
  | .intLess => .binary
  | .intLessequal => .binary
  | .intAdd => .binary
  | .intSub => .binary
  | .intCarry => .binary
  | .intScarry => .binary
  | .intSborrow => .binary
  | .intXor => .binary
  | .intAnd => .binary
  | .intOr => .binary
  | .intLeft => .binary
  | .intRight => .binary
  | .intSright => .binary
  | .intMult => .binary
  | .intDiv => .binary
  | .intSdiv => .binary
  | .intRem => .binary
  | .intSrem => .binary
  | .boolXor => .binary
  | .boolAnd => .binary
  | .boolOr => .binary
  | .piece => .binary
  | .subpiece => .binary
  | .ptrsub => .binary
  | .floatEqual => .boolean
  | .floatNotequal => .boolean
  | .floatLess => .boolean
  | .floatLessequal => .boolean
  | .floatNan => .boolean
  | .call => .calculated
  | .callind => .calculated
  | .cpoolref => .calculated
  | .multiequal => .choice
  | _ => .unknown

/- The value of an input; a varnode out of range has none. -/
def valueAt
    (values : List Nat)
    (slot : Nat) : Nat :=
  values.getD slot 0

/- Values of the inputs, and one that the output then has. -/
structure Computes
    (op : PcodeOp)
    (values : List Nat)
    (out : Nat) : Prop where
  sized : out < 2 ^ (8 * op.sizeout)
  unary : kind op.opcode = .unary →
    UnaryInput op.opcode op.sizeout (op.getIn 0).size
        (valueAt values 0) ∧
      unaryMeaning op.opcode op.sizeout (op.getIn 0).size
        (valueAt values 0) = some out
  binary : kind op.opcode = .binary →
    BinaryInput op.opcode op.sizeout (op.getIn 0).size
        (op.getIn 1).size (valueAt values 0)
        (valueAt values 1) ∧
      binaryMeaning op.opcode op.sizeout (op.getIn 0).size
        (op.getIn 1).size (valueAt values 0)
        (valueAt values 1) = some out
  boolean : kind op.opcode = .boolean → out ≤ 1
  calculated : kind op.opcode = .calculated →
    op.calculatedBool = true → out ≤ 1
  choice : kind op.opcode = .choice →
    ∃ slot, slot < op.inrefs.length ∧ valueAt values slot = out

end Pcode

/- A value that a varnode may have, by what is known of it. -/
structure Varnode.Holds
    (vn : Varnode)
    (value : Nat) : Prop where
  covers : BitCover.Covers vn.nzm value
  constant : vn.constant = true →
    value = vn.offset.toNat ∧ vn.nzm = vn.offset

namespace PcodeOp

/- Every input has a value that it may have. -/
def HoldsInputs
    (op : PcodeOp)
    (values : List Nat) : Prop :=
  ∀ slot, slot < op.inrefs.length →
    (op.getIn slot).Holds (Pcode.valueAt values slot)

/-
  Masks of 64 bits do not tell enough about some operations on
  wider values, and some shifts of masks are not defined.
-/
structure WithinReach
    (op : PcodeOp) : Prop where
  slots : Pcode.kind op.opcode = .unary → 1 ≤ op.inrefs.length
  pairs : Pcode.kind op.opcode = .binary → 2 ≤ op.inrefs.length
  bits : 8 * (op.getIn 0).size < 2 ^ 31
  cut : op.opcode = .subpiece → (op.getIn 1).constant = true
  counts : op.opcode = .intDiv ∨ op.opcode = .intRem ∨
      op.opcode = .popcount →
    (op.getIn 0).size ≤ 8
  right : op.opcode = .intRight → 8 < (op.getIn 0).size →
    (op.getIn 1).constant = true →
      0 < (op.getIn 1).offset.toNat ∧
        (op.getIn 1).offset.toNat < 2 ^ 31 ∧
        (16 < (op.getIn 0).size →
          (op.getIn 1).offset.toNat ≤ 64 ∨
            8 * (op.getIn 0).size ≤ (op.getIn 1).offset.toNat)
  sright : op.opcode = .intSright →
    (op.getIn 1).constant = true → op.sizeout ≤ 8 →
      (op.getIn 1).offset.toNat < 64 ∨
        (op.getIn 0).nzm.getLsbD (8 * op.sizeout - 1) = false

end PcodeOp

end LLDBGhidra

------------------------------------------------------------
-- Covering Outputs
------------------------------------------------------------

namespace LLDBGhidra

open BitCover

variable {size bits number : Nat}
variable {mask val : BitVec 64}

/- A full mask covers what has the size. -/
theorem covers_fullmask
    (hNumber : number < 2 ^ (8 * size)) :
    Covers (calcMask size) number := by
  apply covers_of_lt _ hNumber
  intro index hIndex hBits
  rw [getLsbD_calcMask hIndex, decide_eq_true hBits]

/- One bit covers a truth value. -/
theorem covers_one
    (hNumber : number ≤ 1) :
    Covers (1 : BitVec 64) number := by
  apply @covers_of_lt _ _ 1
  · intro index _ hOne
    have hZero : index = 0 := by omega
    rw [hZero]
    rfl
  · omega

/- A covering mask covers everything up to its bound. -/
theorem covers_shifted_coveringmask
    {shift : Nat}
    (hNumber : number ≤ val.toNat / 2 ^ shift) :
    Covers (coveringmask val >>> shift) number := by
  by_cases hZero : val = 0
  · have hNone : number = 0 := by
      rw [hZero] at hNumber
      simpa using hNumber
    rw [hNone]
    exact covers_zero _
  · rcases HighestBit.exists_of_ne_zero hZero with
      ⟨highest, hHighest⟩
    apply @covers_of_lt _ _ (highest + 1 - shift)
    · intro index _ hInside
      rw [BitVec.getLsbD_ushiftRight]
      exact (maskBelow_coveringmask hHighest _).mpr
        (by omega)
    · apply lt_of_le_of_lt hNumber
      apply Nat.div_lt_of_lt_mul
      rw [← Nat.pow_add]
      exact lt_of_lt_of_le hHighest.toNat_lt
        (Nat.pow_le_pow_right Nat.two_pos (by omega))

theorem covers_coveringmask
    (hNumber : number ≤ val.toNat) :
    Covers (coveringmask val) number := by
  have hShifted := @covers_shifted_coveringmask number val 0
    (by simpa using hNumber)
  simpa using hShifted

theorem covers_and_fullmask
    (hCovers : Covers mask number)
    (hNumber : number < 2 ^ (8 * size)) :
    Covers (mask &&& calcMask size) number :=
  hCovers.and_mask (covers_fullmask hNumber)

theorem asSize_natCast
    (hSmall : number < 2 ^ 31) :
    asSize (number : Int) = number := by
  rw [asSize, BitVec.ofInt_natCast, BitVec.toNat_ofNat]
  exact Nat.mod_eq_of_lt (by omega)

/- An offset below 2^31 keeps its value in `int4`. -/
theorem asSize_int4
    (hSmall : number < 2 ^ 31) :
    asSize (int4 number) = number := by
  rw [int4_of_lt hSmall]
  exact asSize_natCast hSmall

end LLDBGhidra

------------------------------------------------------------
-- Logic and Sums
------------------------------------------------------------

namespace LLDBGhidra

open BitCover

namespace PcodeOp

variable {op : PcodeOp}
variable {x y out : Nat}

theorem covers_fullmask
    (hOut : out < 2 ^ (8 * op.sizeout)) :
    Covers op.fullmask out :=
  LLDBGhidra.covers_fullmask hOut

/- A mask that is full already is left as it is. -/
theorem covers_nzmaskOr
    (hBits : Covers ((op.getIn 0).nzm ||| (op.getIn 1).nzm) out)
    (hOut : out < 2 ^ (8 * op.sizeout)) :
    Covers op.nzmaskOr out := by
  rw [nzmaskOr]
  by_cases hFull : (op.getIn 0).nzm = op.fullmask
  · rw [if_neg (not_not.mpr hFull), hFull]
    exact covers_fullmask hOut
  · rw [if_pos hFull]
    exact hBits

theorem covers_nzmaskAnd
    (hX : Covers (op.getIn 0).nzm x)
    (hY : Covers (op.getIn 1).nzm y) :
    Covers op.nzmaskAnd (x &&& y) := by
  have hAnd := hX.and hY
  rw [nzmaskAnd]
  by_cases hZero : (op.getIn 0).nzm = 0
  · rw [if_neg (not_not.mpr hZero), hZero]
    rw [hZero] at hAnd
    simpa using hAnd
  · rw [if_pos hZero]
    exact hAnd

theorem covers_nzmaskAdd
    (hX : Covers (op.getIn 0).nzm x)
    (hY : Covers (op.getIn 1).nzm y)
    (bits : Nat)
    (hOut : (x + y) % 2 ^ bits < 2 ^ (8 * op.sizeout)) :
    Covers op.nzmaskAdd ((x + y) % 2 ^ bits) := by
  rw [nzmaskAdd]
  by_cases hFull : (op.getIn 0).nzm = op.fullmask
  · rw [if_neg (not_not.mpr hFull), hFull]
    exact covers_fullmask hOut
  · have hSum := (hX.within (Within.or_left _
      (op.getIn 1).nzm)).add
        (hY.within (Within.or_right _ (op.getIn 0).nzm))
    rw [if_pos hFull]
    exact covers_and_fullmask (hSum.mod_two_pow bits) hOut

/- How many bits a product has from its lowest one on. -/
def productBits
    (sz1 sz2 : Nat) : Nat :=
  if sz1 = 1 ∨ sz2 = 1 then sz1 + sz2 - 1 else sz1 + sz2

/- A product with no bits below, and few enough above. -/
theorem product_bits
    {l1 l2 sz1 sz2 total : Nat}
    (hX : 2 ^ l1 ∣ x)
    (hY : 2 ^ l2 ∣ y)
    (hXSmall : x < 2 ^ (l1 + sz1))
    (hYSmall : y < 2 ^ (l2 + sz2))
    (hTotal : total = productBits sz1 sz2) :
    ∃ product, product < 2 ^ total ∧
      x * y = product * 2 ^ (l1 + l2) := by
  rcases hX with ⟨a, hA⟩
  rcases hY with ⟨b, hB⟩
  have hASmall : a < 2 ^ sz1 := by
    rw [hA, Nat.pow_add] at hXSmall
    exact Nat.lt_of_mul_lt_mul_left hXSmall
  have hBSmall : b < 2 ^ sz2 := by
    rw [hB, Nat.pow_add] at hYSmall
    exact Nat.lt_of_mul_lt_mul_left hYSmall
  refine ⟨a * b, ?_, ?_⟩
  · by_cases hOne : sz1 = 1
    · have hLe : a ≤ 1 := by
        rw [hOne] at hASmall
        omega
      rw [productBits, if_pos (Or.inl hOne), hOne,
        Nat.add_sub_cancel_left] at hTotal
      rw [hTotal]
      calc a * b ≤ 1 * b := Nat.mul_le_mul_right b hLe
        _ = b := Nat.one_mul b
        _ < 2 ^ sz2 := hBSmall
    · by_cases hOne' : sz2 = 1
      · have hLe : b ≤ 1 := by
          rw [hOne'] at hBSmall
          omega
        rw [productBits, if_pos (Or.inr hOne'), hOne',
          Nat.add_sub_cancel] at hTotal
        rw [hTotal]
        calc a * b ≤ a * 1 := Nat.mul_le_mul_left a hLe
          _ = a := Nat.mul_one a
          _ < 2 ^ sz1 := hASmall
      · have hNeither : ¬ (sz1 = 1 ∨ sz2 = 1) := by omega
        rw [productBits, if_neg hNeither] at hTotal
        rw [hTotal, Nat.pow_add]
        exact Nat.mul_lt_mul'' hASmall hBSmall
  · rw [hA, hB, Nat.pow_add]
    ring

/- The bits of a mask that is cut from above. -/
theorem getLsbD_calcMask_cut
    {size total index : Nat}
    (hSize : size ≤ 8) :
    (if (total : Int) < 8 * (size : Int) then
        calcMask size >>> (8 * (size : Int) - total).toNat
      else calcMask size).getLsbD index = true ↔
      index < total ∧ index < 8 * size := by
  by_cases hCut : (total : Int) < 8 * (size : Int)
  · rw [if_pos hCut, BitVec.getLsbD_ushiftRight]
    by_cases hWord :
        (8 * (size : Int) - total).toNat + index < 64
    · rw [getLsbD_calcMask hWord, decide_eq_true_eq]
      omega
    · rw [BitVec.getLsbD_of_ge _ _ (by omega)]
      simp only [Bool.false_eq_true, false_iff]
      omega
  · rw [if_neg hCut]
    by_cases hWord : index < 64
    · rw [getLsbD_calcMask hWord, decide_eq_true_eq]
      omega
    · rw [BitVec.getLsbD_of_ge _ _ (by omega)]
      simp only [Bool.false_eq_true, false_iff]
      omega

theorem getLsbD_productMask
    {size l1 h1 l2 h2 index : Nat}
    (hSize : size ≤ 8)
    (hOrder1 : l1 ≤ h1)
    (hOrder2 : l2 ≤ h2) :
    (productMask size l1 h1 l2 h2).getLsbD index = true ↔
      l1 + l2 ≤ index ∧
        index < l1 + l2 +
          productBits (h1 - l1 + 1) (h2 - l2 + 1) ∧
        index < 8 * size := by
  rw [productMask]
  by_cases hFar : 8 * (size : Int) ≤ (l1 : Int) + l2
  · rw [if_pos hFar]
    simp only [BitVec.ofNat_eq_ofNat, BitVec.getLsbD_zero,
      Bool.false_eq_true, false_iff]
    omega
  -- the numbers of bits are the same as natural numbers
  have hTotal : (if (h1 : Int) - l1 + 1 = 1 ∨
      (h2 : Int) - l2 + 1 = 1 then
        (h1 : Int) - l1 + 1 + (h2 - l2 + 1) - 1
      else (h1 : Int) - l1 + 1 + (h2 - l2 + 1)) =
      (productBits (h1 - l1 + 1) (h2 - l2 + 1) : Nat) := by
    rw [productBits]
    split_ifs
    all_goals omega
  have hShift : ((l1 : Int) + l2).toNat = l1 + l2 := by omega
  rw [if_neg hFar]
  simp only [hTotal, hShift]
  rw [BitVec.getLsbD_and, Bool.and_eq_true,
    BitVec.getLsbD_shiftLeft, Bool.and_eq_true,
    Bool.and_eq_true, getLsbD_calcMask_cut hSize,
    decide_eq_true_eq, Bool.not_eq_true', decide_eq_false_iff_not]
  by_cases hWord : index < 64
  · rw [getLsbD_calcMask hWord, decide_eq_true_eq]
    omega
  · omega

theorem lowest_le_highest
    {mask : BitVec 64}
    {low high : Nat}
    (hLow : LowestBit mask low)
    (hHigh : HighestBit mask high) :
    low ≤ high := by
  by_contra hLess
  have hSet := hHigh.set
  rw [hLow.clear high (by omega)] at hSet
  exact Bool.false_ne_true hSet

/- The bits of a mask tell a power that divides, and a bound. -/
theorem number_of_bits
    {mask : BitVec 64}
    {low high : Nat}
    (hX : Covers mask x)
    (hSmall : x < 2 ^ 64)
    (hLow : LowestBit mask low)
    (hHigh : HighestBit mask high) :
    2 ^ low ∣ x ∧ x < 2 ^ (low + (high - low + 1)) := by
  have hOrder := lowest_le_highest hLow hHigh
  have hLt := hHigh.lt
  refine ⟨hX.dvd_of_clear (by omega) hLow.clear, ?_⟩
  apply hX.lt_of_clear hSmall
  intro index hIndex
  exact hHigh.clear index (by omega)

/- A number without any bits is zero. -/
theorem eq_zero_of_covers
    {mask : BitVec 64}
    (hX : Covers mask x)
    (hSmall : x < 2 ^ 64)
    (hZero : mask = 0) :
    x = 0 := by
  have hLe := hX.le_toNat hSmall
  rw [hZero] at hLe
  simpa using hLe

theorem covers_productMask
    {size l1 h1 l2 h2 : Nat}
    (hSize : size ≤ 8)
    (hOrder1 : l1 ≤ h1)
    (hOrder2 : l2 ≤ h2)
    (hX : 2 ^ l1 ∣ x ∧ x < 2 ^ (l1 + (h1 - l1 + 1)))
    (hY : 2 ^ l2 ∣ y ∧ y < 2 ^ (l2 + (h2 - l2 + 1))) :
    Covers (productMask size l1 h1 l2 h2)
      (x * y % 2 ^ (8 * size)) := by
  rcases product_bits hX.1 hY.1 hX.2 hY.2 rfl with
    ⟨product, hProduct, hEq⟩
  intro index _ hBit
  rw [hEq, Nat.testBit_mod_two_pow, Bool.and_eq_true,
    decide_eq_true_eq, ← Nat.shiftLeft_eq,
    Nat.testBit_shiftLeft, Bool.and_eq_true,
    decide_eq_true_eq] at hBit
  rcases hBit with ⟨hInside, hAbove, hSet⟩
  have hTotal : index - (l1 + l2) <
      productBits (h1 - l1 + 1) (h2 - l2 + 1) := by
    by_contra hFar
    have hClear := Nat.testBit_lt_two_pow
      (lt_of_lt_of_le hProduct
        (Nat.pow_le_pow_right Nat.two_pos
          (Nat.not_lt.mp hFar)))
    rw [hClear] at hSet
    exact Bool.false_ne_true hSet
  rw [getLsbD_productMask hSize hOrder1 hOrder2]
  omega

theorem covers_nzmaskMult
    (hX : Covers (op.getIn 0).nzm x)
    (hY : Covers (op.getIn 1).nzm y)
    (hXSmall : x < 2 ^ (8 * op.sizeout))
    (hYSmall : y < 2 ^ (8 * op.sizeout)) :
    Covers op.nzmaskMult (x * y % 2 ^ (8 * op.sizeout)) := by
  rw [nzmaskMult]
  by_cases hWide : 8 < op.sizeout
  · rw [if_pos hWide]
    exact covers_fullmask (Nat.mod_lt _ (Nat.two_pow_pos _))
  have hWord : 2 ^ (8 * op.sizeout) ≤ 2 ^ 64 :=
    Nat.pow_le_pow_right Nat.two_pos (by omega)
  have hX64 := lt_of_lt_of_le hXSmall hWord
  have hY64 := lt_of_lt_of_le hYSmall hWord
  rw [if_neg hWide]
  by_cases hZero : (op.getIn 0).nzm = 0
  · rw [eq_zero_of_covers hX hX64 hZero, Nat.zero_mul,
      Nat.zero_mod]
    exact covers_zero _
  by_cases hZero' : (op.getIn 1).nzm = 0
  · rw [eq_zero_of_covers hY hY64 hZero', Nat.mul_zero,
      Nat.zero_mod]
    exact covers_zero _
  rcases HighestBit.exists_of_ne_zero hZero with ⟨h1, hHigh1⟩
  rcases HighestBit.exists_of_ne_zero hZero' with ⟨h2, hHigh2⟩
  rcases LowestBit.exists_of_ne_zero hZero with ⟨l1, hLow1⟩
  rcases LowestBit.exists_of_ne_zero hZero' with ⟨l2, hLow2⟩
  have hFound : ¬ ((h1 : Int) = -1 ∨ (h2 : Int) = -1) := by
    omega
  simp only [mostsigbitSet_eq hHigh1, mostsigbitSet_eq hHigh2,
    leastsigbitSet_eq hLow1, leastsigbitSet_eq hLow2]
  rw [if_neg hFound]
  exact covers_productMask (Nat.not_lt.mp hWide)
    (lowest_le_highest hLow1 hHigh1)
    (lowest_le_highest hLow2 hHigh2)
    (number_of_bits hX hX64 hLow1 hHigh1)
    (number_of_bits hY hY64 hLow2 hHigh2)

end PcodeOp

end LLDBGhidra

------------------------------------------------------------
-- Shifts of Masks
------------------------------------------------------------

namespace LLDBGhidra

open BitCover

namespace PcodeOp

variable {op : PcodeOp}
variable {x y out : Nat}
variable {size shift : Nat}
variable {mask : BitVec 64}

/- A constant has the value that its offset is. -/
theorem offset_eq
    {vn : Varnode}
    (hHolds : vn.Holds y)
    (hConstant : ¬ vn.constant = false) :
    vn.offset.toNat = y ∧ vn.nzm.toNat = y := by
  have hTrue : vn.constant = true := by simpa using hConstant
  have hBoth := hHolds.constant hTrue
  rw [hBoth.2]
  exact ⟨hBoth.1.symm, hBoth.1.symm⟩

theorem covers_pcodeLeft
    (hX : Covers mask x)
    (shift : Nat) :
    Covers (pcodeLeft mask shift) (x * 2 ^ shift) := by
  rw [pcodeLeft]
  by_cases hFar : 64 ≤ shift
  · rw [if_pos hFar]
    intro index hIndex hBit
    rw [← Nat.shiftLeft_eq, Nat.testBit_shiftLeft,
      decide_eq_false (show ¬ shift ≤ index by omega)] at hBit
    exact absurd hBit Bool.false_ne_true
  · rw [if_neg hFar]
    exact hX.mul_two_pow shift

theorem covers_pcodeRight
    (hX : Covers mask x)
    (hSmall : x < 2 ^ 64)
    (shift : Nat) :
    Covers (pcodeRight mask shift) (x / 2 ^ shift) := by
  rw [pcodeRight]
  by_cases hFar : 64 ≤ shift
  · have hLess : x < 2 ^ shift :=
      lt_of_lt_of_le hSmall
        (Nat.pow_le_pow_right Nat.two_pos hFar)
    rw [if_pos hFar, Nat.div_eq_of_lt hLess]
    exact covers_zero _
  · rw [if_neg hFar]
    exact hX.div_two_pow hSmall shift

/- Shifts as far as this leave nothing of a value. -/
theorem div_eq_zero_of_far
    (hSmall : x < 2 ^ (8 * size))
    (hFar : 8 * size ≤ shift) :
    x / 2 ^ shift = 0 :=
  Nat.div_eq_of_lt (lt_of_lt_of_le hSmall
    (Nat.pow_le_pow_right Nat.two_pos hFar))

theorem covers_nzmaskLeft
    (hX : Covers (op.getIn 0).nzm x)
    (hY : (op.getIn 1).Holds y)
    (hBits : 8 * op.sizeout < 2 ^ 31) :
    Covers op.nzmaskLeft
      (x * 2 ^ y % 2 ^ (8 * op.sizeout)) := by
  have hOut : x * 2 ^ y % 2 ^ (8 * op.sizeout) <
      2 ^ (8 * op.sizeout) :=
    Nat.mod_lt _ (Nat.two_pow_pos _)
  rw [nzmaskLeft]
  by_cases hConstant : (op.getIn 1).constant = false
  · rw [if_pos hConstant]
    exact covers_fullmask hOut
  · have hOffset := (offset_eq hY hConstant).1
    rw [if_neg hConstant, Varnode.offsetInt4, hOffset]
    by_cases hFar : 2 ^ 31 ≤ y
    · have hDvd : 2 ^ (8 * op.sizeout) ∣ x * 2 ^ y :=
        Dvd.dvd.mul_left (pow_dvd_pow 2 (by omega)) _
      rw [Nat.mod_eq_zero_of_dvd hDvd]
      exact covers_zero _
    · simp only [asSize_int4 (show y < 2 ^ 31 by omega)]
      exact covers_and_fullmask
        ((covers_pcodeLeft hX y).mod_two_pow _) hOut

/- The known bits come down, and ones where none is known. -/
theorem covers_right_wide
    (hX : Covers mask x)
    (hNear : shift < 64) :
    Covers (pcodeRight mask shift |||
        BitVec.allOnes 64 <<< (64 - shift)) (x / 2 ^ shift) := by
  apply Covers.div_two_pow_of
  intro index hIndex hBit
  rw [BitVec.getLsbD_or, Bool.or_eq_true]
  by_cases hKnown : shift + index < 64
  · refine Or.inl ?_
    rw [pcodeRight, if_neg (by omega),
      BitVec.getLsbD_ushiftRight]
    exact hX (shift + index) hKnown hBit
  · refine Or.inr ?_
    rw [BitVec.getLsbD_shiftLeft, BitVec.getLsbD_allOnes,
      decide_eq_true hIndex,
      decide_eq_false (show ¬ index < 64 - shift by omega),
      decide_eq_true
        (show index - (64 - shift) < 64 by omega)]
    rfl

/- All bits that the size leaves may be set. -/
theorem covers_right_far
    (hSmall : x < 2 ^ (8 * size))
    (hWide : 8 < size)
    (hFar : 64 ≤ shift)
    (hReach : 16 < size → shift ≤ 64) :
    Covers (calcMask (size - 8) >>> (shift - 64))
      (x / 2 ^ shift) := by
  apply Covers.div_two_pow_of
  intro index hIndex hBit
  have hInside : shift + index < 8 * size := by
    by_contra hAbove
    have hClear := Nat.testBit_lt_two_pow
      (lt_of_lt_of_le hSmall
        (Nat.pow_le_pow_right Nat.two_pos
          (Nat.not_lt.mp hAbove)))
    rw [hClear] at hBit
    exact Bool.false_ne_true hBit
  have hWord : shift - 64 + index < 64 := by
    by_cases hLarge : 16 < size
    · have hExact := hReach hLarge
      omega
    · omega
  rw [BitVec.getLsbD_ushiftRight, getLsbD_calcMask hWord]
  exact decide_eq_true (by omega)

theorem covers_nzmaskRight
    (hX : Covers (op.getIn 0).nzm x)
    (hY : (op.getIn 1).Holds y)
    (hSmall : x < 2 ^ (8 * (op.getIn 0).size))
    (hSame : op.sizeout = (op.getIn 0).size)
    (hReach : op.WithinReach)
    (hRight : op.opcode = .intRight) :
    Covers op.nzmaskRight (x / 2 ^ y) := by
  rw [nzmaskRight]
  by_cases hConstant : (op.getIn 1).constant = false
  · rw [← hSame] at hSmall
    rw [if_pos hConstant]
    exact covers_fullmask
      (lt_of_le_of_lt (Nat.div_le_self _ _) hSmall)
  have hTrue : (op.getIn 1).constant = true := by
    simpa using hConstant
  have hOffset := (offset_eq hY hConstant).1
  have hBits := hReach.bits
  rw [if_neg hConstant, Varnode.offsetInt4, hOffset]
  by_cases hWide : 8 < (op.getIn 0).size
  · have hWithin := hReach.right hRight hWide hTrue
    rw [hOffset] at hWithin
    rcases hWithin with ⟨hPos, hShort, hLarge⟩
    simp only [if_pos hWide, int4_of_lt hShort,
      asSize_natCast hShort]
    by_cases hFar : 8 * ((op.getIn 0).size : Int) ≤ y
    · rw [if_pos hFar, div_eq_zero_of_far hSmall (by omega)]
      exact covers_zero _
    · rw [if_neg hFar]
      by_cases hWord : 64 ≤ y
      · rw [if_pos hWord]
        apply covers_right_far hSmall hWide hWord
        intro hSixteen
        rcases hLarge hSixteen with hExact | hBeyond
        · exact hExact
        · omega
      · rw [if_neg hWord]
        exact covers_right_wide hX (by omega)
  · rw [if_neg hWide]
    have hWord : 2 ^ (8 * (op.getIn 0).size) ≤ 2 ^ 64 :=
      Nat.pow_le_pow_right Nat.two_pos (by omega)
    by_cases hFar : 2 ^ 31 ≤ y
    · rw [div_eq_zero_of_far hSmall (by omega)]
      exact covers_zero _
    · simp only [asSize_int4 (show y < 2 ^ 31 by omega)]
      exact covers_pcodeRight hX
        (lt_of_lt_of_le hSmall hWord) y

/- The bits of an arithmetic shift of a value of the size. -/
theorem testBit_sright
    {index : Nat}
    (hSize : 1 ≤ size)
    (hEight : size ≤ 8)
    (hX : x < 2 ^ (8 * size))
    (hY : y < 2 ^ 64)
    (hIndex : index < 64) :
    (Pcode.wrapped size
        (Pcode.signed size x / 2 ^ y)).testBit index =
      (decide (index < 8 * size) &&
        if y + index < 8 * size then x.testBit (y + index)
        else x.testBit (8 * size - 1)) := by
  have hWord : 2 ^ (8 * size) ≤ 2 ^ 64 :=
    Nat.pow_le_pow_right Nat.two_pos (by omega)
  have hIn1 : (BitVec.ofNat 64 x).toNat = x :=
    Nat.mod_eq_of_lt (lt_of_lt_of_le hX hWord)
  have hIn2 : (BitVec.ofNat 64 y).toNat = y :=
    Nat.mod_eq_of_lt hY
  have hShift := @OpBehavior.evaluate_intSright size
    (BitVec.ofNat 64 x) (BitVec.ofNat 64 y) hSize hEight
    (by rw [hIn1]; exact hX)
  have hBit := @OpBehavior.getLsbD_intSright size
    (BitVec.ofNat 64 x) (BitVec.ofNat 64 y) hSize hEight
    (by rw [hIn1]; exact hX) index hIndex
  rw [hIn1, hIn2] at hShift
  rw [← hShift]
  rw [BitVec.getLsbD, BitVec.getLsbD, BitVec.getLsbD,
    hIn1, hIn2] at hBit
  exact hBit

theorem covers_nzmaskSright
    (hX : Covers (op.getIn 0).nzm x)
    (hY : (op.getIn 1).Holds y)
    (hSize : 1 ≤ op.sizeout)
    (hSmall : x < 2 ^ (8 * op.sizeout))
    (hReach : op.WithinReach)
    (hSright : op.opcode = .intSright)
    (hOut : Pcode.wrapped op.sizeout
      (Pcode.signed op.sizeout x / 2 ^ y) <
        2 ^ (8 * op.sizeout)) :
    Covers op.nzmaskSright
      (Pcode.wrapped op.sizeout
        (Pcode.signed op.sizeout x / 2 ^ y)) := by
  rw [nzmaskSright]
  by_cases hFull : (op.getIn 1).constant = false ∨
      8 < op.sizeout
  · rw [if_pos hFull]
    exact covers_fullmask hOut
  have hConstant : ¬ (op.getIn 1).constant = false :=
    fun hFalse => hFull (Or.inl hFalse)
  have hEight : op.sizeout ≤ 8 :=
    Nat.not_lt.mp (fun hWide => hFull (Or.inr hWide))
  have hOffset := (offset_eq hY hConstant).1
  have hNear := hReach.sright hSright
    (by simpa using hConstant) hEight
  have hWord : y < 2 ^ 64 := by
    rw [← hOffset]
    exact (op.getIn 1).offset.isLt
  rw [hOffset] at hNear
  rw [if_neg hFull, Varnode.offsetInt4, hOffset]
  simp only [fullmask, signMask_of_calcMask hSize hEight,
    BitVec.and_twoPow]
  by_cases hSign :
      (op.getIn 0).nzm.getLsbD (8 * op.sizeout - 1) = true
  · have hNe : ¬ BitVec.twoPow 64 (8 * op.sizeout - 1) = 0 :=
      twoPow_ne_zero (by omega)
    have hShort : y < 64 := by
      rcases hNear with hShort | hClear
      · exact hShort
      · rw [hSign] at hClear
        exact absurd hClear (by simp)
    rw [if_pos hSign, if_neg hNe,
      asSize_int4 (show y < 2 ^ 31 by omega), pcodeRight,
      if_neg (Nat.not_le.mpr hShort)]
    intro index hIndex hBit
    rw [testBit_sright hSize hEight hSmall hWord hIndex,
      Bool.and_eq_true, decide_eq_true_eq] at hBit
    rw [BitVec.getLsbD_or, BitVec.getLsbD_xor,
      BitVec.getLsbD_ushiftRight, BitVec.getLsbD_ushiftRight,
      getLsbD_calcMask hIndex, decide_eq_true hBit.1]
    by_cases hInside : y + index < 8 * op.sizeout
    · rw [if_pos hInside] at hBit
      rw [hX (y + index) (by omega) hBit.2, Bool.true_or]
    · rw [getLsbD_calcMask_of_le (Nat.not_lt.mp hInside),
        Bool.false_xor, Bool.or_true]
  · -- no sign is shifted in, however far the shift is
    rw [if_neg hSign,
      if_pos (show (0#64 : BitVec 64) = 0 from rfl)]
    intro index hIndex hBit
    rw [testBit_sright hSize hEight hSmall hWord hIndex,
      Bool.and_eq_true, decide_eq_true_eq] at hBit
    by_cases hInside : y + index < 8 * op.sizeout
    · rw [if_pos hInside] at hBit
      rw [asSize_int4 (show y < 2 ^ 31 by omega), pcodeRight,
        if_neg (show ¬ 64 ≤ y by omega),
        BitVec.getLsbD_ushiftRight]
      exact hX (y + index) (by omega) hBit.2
    · rw [if_neg hInside] at hBit
      exact absurd (hX (8 * op.sizeout - 1) (by omega) hBit.2)
        hSign

/- Sizes above eight are those of the lowest 64 bits. -/
theorem getLsbD_signExtend_clip
    {sizein sizeout index : Nat}
    (hSize : 1 ≤ sizein)
    (hWider : sizein ≤ sizeout)
    (mask : BitVec 64)
    (hIndex : index < 64) :
    (signExtend mask sizein sizeout).getLsbD index =
      (decide (index < 8 * sizeout) &&
        if index < 8 * sizein then mask.getLsbD index
        else mask.getLsbD (8 * sizein - 1)) := by
  have hClip : signExtend mask sizein sizeout =
      signExtend mask (if sizein < 8 then sizein else 8)
        (if sizeout < 8 then sizeout else 8) := by
    rw [signExtend, signExtend]
    split_ifs <;> rfl
  rw [hClip, getLsbD_signExtend (by split_ifs <;> omega)
    (by split_ifs <;> omega) (by split_ifs <;> omega) _ hIndex]
  have hOut : (index < 8 * if sizeout < 8 then sizeout else 8) ↔
      index < 8 * sizeout := by
    split_ifs <;> omega
  by_cases hNarrow : sizein < 8
  · simp only [if_pos hNarrow, hOut]
  · simp only [if_neg hNarrow, hOut, if_pos hIndex,
      if_pos (show index < 8 * sizein by omega)]

/- The sign of the mask is extended like that of the value. -/
theorem covers_signExtend
    {sizein sizeout : Nat}
    (hX : Covers mask x)
    (hSize : 1 ≤ sizein)
    (hWider : sizein ≤ sizeout) :
    Covers (signExtend mask sizein sizeout)
      (Pcode.wrapped sizeout (Pcode.signed sizein x)) := by
  intro index hIndex hBit
  have hBits : (Pcode.wrapped sizeout
      (Pcode.signed sizein x)).testBit index =
      ((BitVec.ofNat (8 * sizein) x).signExtend
        (8 * sizeout)).getLsbD index := rfl
  rw [hBits, BitVec.getLsbD_signExtend,
    BitVec.msb_eq_getLsbD_last, BitVec.getLsbD_ofNat,
    BitVec.getLsbD_ofNat, Bool.and_eq_true] at hBit
  rw [getLsbD_signExtend_clip hSize hWider mask hIndex,
    Bool.and_eq_true]
  refine ⟨hBit.1, ?_⟩
  by_cases hLow : index < 8 * sizein
  · rw [if_pos hLow, Bool.and_eq_true] at hBit
    rw [if_pos hLow]
    exact hX index hIndex hBit.2.2
  · rw [if_neg hLow, Bool.and_eq_true] at hBit
    rw [if_neg hLow]
    exact hX (8 * sizein - 1) (by omega) hBit.2.2

end PcodeOp

end LLDBGhidra

------------------------------------------------------------
-- Quotients, Counts and Pieces
------------------------------------------------------------

namespace LLDBGhidra

open BitCover

namespace PcodeOp

variable {op : PcodeOp}
variable {x y out : Nat}
variable {size : Nat}

theorem two_pow_le_word
    (hSize : size ≤ 8) :
    2 ^ (8 * size) ≤ 2 ^ 64 :=
  Nat.pow_le_pow_right Nat.two_pos (by omega)

/- A constant divisor is at least its highest bit. -/
theorem covers_nzmaskDiv
    (hX : Covers (op.getIn 0).nzm x)
    (hY : (op.getIn 1).Holds y)
    (hSmall : x < 2 ^ 64)
    (hDivisor : y ≠ 0) :
    Covers op.nzmaskDiv (x / y) := by
  have hLe := hX.le_toNat hSmall
  have hQuotient : x / y ≤ (op.getIn 0).nzm.toNat :=
    le_trans (Nat.div_le_self x y) hLe
  rw [nzmaskDiv]
  by_cases hConstant : (op.getIn 1).constant = true
  · have hMask := (offset_eq hY (by simpa using hConstant)).2
    have hNe : (op.getIn 1).nzm ≠ 0 := by
      intro hZero
      rw [hZero] at hMask
      exact hDivisor (by simpa using hMask.symm)
    rcases HighestBit.exists_of_ne_zero hNe with
      ⟨highest, hHighest⟩
    have hFound : (highest : Int) ≠ -1 := by omega
    rw [if_pos hConstant]
    simp only [mostsigbitSet_eq hHighest, if_pos hFound]
    apply covers_shifted_coveringmask
    calc x / y ≤ x / 2 ^ highest := by
          apply Nat.div_le_div_left _ (Nat.two_pow_pos _)
          rw [← hMask]
          exact Nat.ge_two_pow_of_testBit hHighest.set
      _ ≤ (op.getIn 0).nzm.toNat / 2 ^ highest :=
          Nat.div_le_div_right hLe
  · rw [if_neg hConstant]
    exact covers_coveringmask hQuotient

/- A remainder is less than the divisor. -/
theorem covers_nzmaskRem
    (hY : Covers (op.getIn 1).nzm y)
    (hSmall : y < 2 ^ 64)
    (hDivisor : y ≠ 0) :
    Covers op.nzmaskRem (x % y) := by
  have hLe := hY.le_toNat hSmall
  have hRest := Nat.mod_lt x (Nat.pos_of_ne_zero hDivisor)
  rw [nzmaskRem]
  apply covers_coveringmask
  rw [BitVec.toNat_sub_of_le]
  · change x % y ≤ (op.getIn 1).nzm.toNat - 1
    omega
  · rw [BitVec.le_def]
    change 1 ≤ (op.getIn 1).nzm.toNat
    omega

theorem covers_nzmaskPopcount
    (hX : Covers (op.getIn 0).nzm x)
    (hEight : size ≤ 8)
    (hSmall : x < 2 ^ (8 * size))
    (hOut : (BitVec.ofNat (8 * size) x).cpop.toNat <
      2 ^ (8 * op.sizeout)) :
    Covers op.nzmaskPopcount
      (BitVec.ofNat (8 * size) x).cpop.toNat := by
  have hWord : (BitVec.ofNat 64 x).toNat = x :=
    Nat.mod_eq_of_lt
      (lt_of_lt_of_le hSmall (two_pow_le_word hEight))
  have hCount := @OpBehavior.evaluate_popcount size
    (BitVec.ofNat 64 x) hEight (by rw [hWord]; exact hSmall)
  have hMore := BitCount.cpop_le_of_bits
    ((Covers.iff_word _ _).mp hX)
  have hMost := BitVec.toNat_cpop_le (op.getIn 0).nzm
  rw [hWord, BitVec.toNat_ofNat, popcount_eq] at hCount
  apply covers_and_fullmask _ hOut
  apply covers_coveringmask
  rw [popcount_eq, BitVec.toNat_ofNat,
    Nat.mod_eq_of_lt (by omega), ← hCount]
  exact le_trans (Nat.mod_le _ _) hMore

theorem covers_nzmaskLzcount
    (hBits : 8 * (op.getIn 0).size < 2 ^ 31)
    (hLe : out ≤ 8 * (op.getIn 0).size)
    (hOut : out < 2 ^ (8 * op.sizeout)) :
    Covers op.nzmaskLzcount out := by
  apply covers_and_fullmask _ hOut
  apply covers_coveringmask
  rw [BitVec.toNat_ofNat, Nat.mod_eq_of_lt (by omega)]
  omega

/- The bytes of a wide value that no mask tells about. -/
theorem covers_subpiece_wide
    {mask : BitVec 64}
    (hX : Covers mask x)
    (hBelow : y < 8) :
    Covers (mask >>> (8 * y) |||
        calcMask size <<< (8 * (8 - y)))
      (x / 2 ^ (8 * y) % 2 ^ (8 * size)) := by
  intro index hIndex hBit
  rw [Nat.testBit_mod_two_pow, Nat.testBit_div_two_pow,
    Bool.and_eq_true, decide_eq_true_eq] at hBit
  rw [BitVec.getLsbD_or, Bool.or_eq_true]
  by_cases hKnown : 8 * y + index < 64
  · refine Or.inl ?_
    rw [BitVec.getLsbD_ushiftRight]
    exact hX _ hKnown (by rw [Nat.add_comm]; exact hBit.2)
  · refine Or.inr ?_
    rw [BitVec.getLsbD_shiftLeft, decide_eq_true hIndex,
      decide_eq_false
        (show ¬ index < 8 * (8 - y) by omega),
      getLsbD_calcMask (by omega), decide_eq_true (by omega)]
    rfl

theorem covers_nzmaskSubpiece
    (hX : Covers (op.getIn 0).nzm x)
    (hY : (op.getIn 1).Holds y)
    (hConstant : (op.getIn 1).constant = true)
    (hSmall : x < 2 ^ (8 * (op.getIn 0).size))
    (hBits : 8 * (op.getIn 0).size < 2 ^ 31) :
    Covers op.nzmaskSubpiece
      (x / 2 ^ (8 * y) % 2 ^ (8 * op.sizeout)) := by
  have hOut : x / 2 ^ (8 * y) % 2 ^ (8 * op.sizeout) <
      2 ^ (8 * op.sizeout) :=
    Nat.mod_lt _ (Nat.two_pow_pos _)
  have hOffset := (offset_eq hY (by simpa using hConstant)).1
  by_cases hFar : (op.getIn 0).size ≤ y
  · -- nothing is left, whatever the narrowed offset is
    rw [div_eq_zero_of_far hSmall (by omega), Nat.zero_mod]
    exact covers_zero _
  rw [nzmaskSubpiece, Varnode.offsetInt4, hOffset]
  simp only [asSize_int4 (show y < 2 ^ 31 by omega)]
  apply covers_and_fullmask _ hOut
  by_cases hNarrow : (op.getIn 0).size ≤ 8
  · rw [if_pos hNarrow, if_pos (by omega)]
    exact (hX.div_two_pow (lt_of_lt_of_le hSmall
      (two_pow_le_word hNarrow)) _).mod_two_pow _
  rw [if_neg hNarrow]
  by_cases hBelow : y < 8
  · rw [if_pos hBelow]
    by_cases hSome : 0 < y
    · rw [if_pos hSome]
      exact covers_subpiece_wide hX hBelow
    · have hNone : y = 0 := by omega
      rw [if_neg hSome, hNone]
      have hLow := hX.mod_two_pow (8 * op.sizeout)
      simpa using hLow
  · rw [if_neg hBelow]
    exact covers_fullmask hOut

/- The pieces are apart: no bit of one is a bit of the other. -/
theorem covers_nzmaskPiece
    (hX : Covers (op.getIn 0).nzm x)
    (hY : Covers (op.getIn 1).nzm y)
    (hSmall : y < 2 ^ (8 * (op.getIn 1).size)) :
    Covers op.nzmaskPiece
      (x * 2 ^ (8 * (op.getIn 1).size) + y) := by
  have hOr : x * 2 ^ (8 * (op.getIn 1).size) + y =
      x * 2 ^ (8 * (op.getIn 1).size) ||| y := by
    rw [← Nat.shiftLeft_eq]
    exact Nat.shiftLeft_add_eq_or_of_lt hSmall x
  rw [hOr, nzmaskPiece]
  apply Covers.or _ hY
  by_cases hNear : (op.getIn 1).size < 8
  · rw [if_pos hNear]
    exact hX.mul_two_pow _
  · rw [if_neg hNear]
    intro index hIndex hBit
    rw [← Nat.shiftLeft_eq, Nat.testBit_shiftLeft,
      decide_eq_false (by omega)] at hBit
    exact absurd hBit Bool.false_ne_true

/- The masks of all inputs that are not skipped are in it. -/
theorem nzmaskInputs_within
    (skips : Nat → Bool)
    (inrefs : List Varnode)
    (slot : Nat)
    (resmask : BitVec 64) :
    Within resmask (nzmaskInputs skips slot inrefs resmask) ∧
      ∀ index vn, inrefs[index]? = some vn →
        skips (slot + index) = false →
          Within vn.nzm
            (nzmaskInputs skips slot inrefs resmask) := by
  induction inrefs generalizing slot resmask with
  | nil =>
      exact ⟨Within.refl _, fun index vn hIn => by simp at hIn⟩
  | cons head rest ih =>
      rw [nzmaskInputs]
      have hRest := ih (slot + 1)
        (if skips slot then resmask else resmask ||| head.nzm)
      refine ⟨?_, ?_⟩
      · apply Within.trans _ hRest.1
        by_cases hSkip : skips slot = true
        · rw [if_pos hSkip]
          exact Within.refl _
        · rw [if_neg hSkip]
          exact Within.or_left _ _
      · intro index vn hIn hTaken
        cases index with
        | zero =>
            have hHead : head = vn := by simpa using hIn
            have hSkip : ¬ skips slot = true := by
              simpa using hTaken
            rw [if_neg hSkip] at hRest ⊢
            rw [← hHead]
            exact Within.trans (Within.or_right _ _) hRest.1
        | succ index =>
            apply hRest.2 index vn (by simpa using hIn)
            rw [← hTaken]
            congr 1
            omega

/- Whichever input a `MULTIEQUAL` takes, it is covered. -/
theorem covers_nzmaskMultiequal
    {slot : Nat}
    (hSlot : slot < op.inrefs.length)
    (hX : Covers (op.getIn slot).nzm x) :
    Covers (op.nzmaskMultiequal false) x := by
  have hSome : op.inrefs[slot]? = some (op.getIn slot) := by
    rw [getIn, List.getD_eq_getElem?_getD,
      List.getElem?_eq_getElem hSlot]
    rfl
  have hNe : op.inrefs ≠ [] := by
    intro hNil
    rw [hNil] at hSlot
    simp at hSlot
  rw [nzmaskMultiequal, if_neg hNe]
  exact hX.within ((nzmaskInputs_within _ op.inrefs 0 0).2 slot
    _ hSome rfl)

end PcodeOp

end LLDBGhidra

------------------------------------------------------------
-- Masks Cover Outputs
------------------------------------------------------------

namespace LLDBGhidra

open BitCover

namespace Pcode

theorem truth_le_one
    (condition : Bool) :
    truth condition ≤ 1 := by
  cases condition
  · exact Nat.zero_le 1
  · exact Nat.le_refl 1

theorem divided_eq_some
    {divisor result out : Nat}
    (hDivided : divided divisor result = some out) :
    divisor ≠ 0 ∧ result = out := by
  rw [divided] at hDivided
  by_cases hZero : divisor = 0
  · rw [if_pos hZero] at hDivided
    cases hDivided
  · rw [if_neg hZero] at hDivided
    exact ⟨hZero, Option.some.inj hDivided⟩

end Pcode

namespace PcodeOp

open Pcode (Computes Kind kind valueAt)

variable {op : PcodeOp}
variable {values : List Nat}
variable {out : Nat}

/- What the kinds without a meaning have as a mask. -/
theorem getNZMaskLocal_of_boolean
    (cliploop : Bool)
    (hKind : kind op.opcode = .boolean) :
    op.getNZMaskLocal cliploop = 1 := by
  rw [getNZMaskLocal]
  cases hOpcode : op.opcode <;> rw [hOpcode] at hKind <;>
    first
    | rfl
    | exact absurd hKind (by decide)

theorem getNZMaskLocal_of_calculated
    (cliploop : Bool)
    (hKind : kind op.opcode = .calculated) :
    op.getNZMaskLocal cliploop =
      if op.calculatedBool then 1 else op.fullmask := by
  rw [getNZMaskLocal]
  cases hOpcode : op.opcode <;> rw [hOpcode] at hKind <;>
    first
    | rfl
    | exact absurd hKind (by decide)

theorem getNZMaskLocal_of_unknown
    (cliploop : Bool)
    (hKind : kind op.opcode = .unknown) :
    op.getNZMaskLocal cliploop = op.fullmask := by
  rw [getNZMaskLocal]
  cases hOpcode : op.opcode <;> rw [hOpcode] at hKind <;>
    first
    | rfl
    | exact absurd hKind (by decide)

theorem covers_unary
    (hReach : op.WithinReach)
    (hInputs : op.HoldsInputs values)
    (hComputes : Computes op values out)
    (hKind : kind op.opcode = .unary) :
    Covers (op.getNZMaskLocal false) out := by
  have hFull := covers_fullmask hComputes.sized
  have hOut := hComputes.sized
  have hX := (hInputs 0 (hReach.slots hKind)).covers
  rcases hComputes.unary hKind with ⟨hInput, hMeaning⟩
  have hSmall := hInput.sized
  rw [getNZMaskLocal]
  cases hOpcode : op.opcode <;> rw [hOpcode] at hKind hMeaning
    <;> first
    | exact hFull
    | exact absurd hKind (by decide)
    | skip
  case copy =>
    exact Option.some.inj hMeaning ▸ hX
  case intZext =>
    exact Option.some.inj hMeaning ▸ hX
  case intSext =>
    rw [← Option.some.inj hMeaning]
    exact covers_signExtend hX hInput.nonempty
      (hInput.widens hOpcode)
  case boolNegate =>
    rw [← Option.some.inj hMeaning]
    exact covers_one (Nat.sub_le _ _)
  case popcount =>
    rw [← Option.some.inj hMeaning] at hOut ⊢
    exact covers_nzmaskPopcount hX
      (hReach.counts (Or.inr (Or.inr hOpcode))) hSmall hOut
  case lzcount =>
    rw [← Option.some.inj hMeaning] at hOut ⊢
    exact covers_nzmaskLzcount hReach.bits (Nat.sub_le _ _)
      hOut

theorem covers_binary
    (hReach : op.WithinReach)
    (hInputs : op.HoldsInputs values)
    (hComputes : Computes op values out)
    (hKind : kind op.opcode = .binary) :
    Covers (op.getNZMaskLocal false) out := by
  have hFull := covers_fullmask hComputes.sized
  have hOut := hComputes.sized
  have hPair := hReach.pairs hKind
  have hHoldsX := hInputs 0 (by omega)
  have hHoldsY := hInputs 1 (by omega)
  have hX := hHoldsX.covers
  have hY := hHoldsY.covers
  rcases hComputes.binary hKind with ⟨hInput, hMeaning⟩
  have hSmallX := hInput.sized1
  have hSmallY := hInput.sized2
  rw [getNZMaskLocal]
  cases hOpcode : op.opcode <;> rw [hOpcode] at hKind hMeaning
    <;> first
    | exact hFull
    | exact absurd hKind (by decide)
    | -- comparisons and logic on booleans
      exact Option.some.inj hMeaning ▸
        covers_one (Pcode.truth_le_one _)
    | skip
  case intAdd =>
    rw [← Option.some.inj hMeaning] at hOut ⊢
    exact covers_nzmaskAdd hX hY _ hOut
  case intXor =>
    rw [← Option.some.inj hMeaning] at hOut ⊢
    exact covers_nzmaskOr (hX.xor hY) hOut
  case intAnd =>
    rw [← Option.some.inj hMeaning]
    exact covers_nzmaskAnd hX hY
  case intOr =>
    rw [← Option.some.inj hMeaning] at hOut ⊢
    exact covers_nzmaskOr (hX.or hY) hOut
  case intLeft =>
    have hSame := hInput.same (by rw [hOpcode]; rfl)
    rw [← Option.some.inj hMeaning, ← hSame]
    exact covers_nzmaskLeft hX hHoldsY
      (by rw [hSame]; exact hReach.bits)
  case intRight =>
    rw [← Option.some.inj hMeaning]
    exact covers_nzmaskRight hX hHoldsY hSmallX
      (hInput.same (by rw [hOpcode]; rfl)) hReach hOpcode
  case intSright =>
    have hSame := hInput.same (by rw [hOpcode]; rfl)
    rw [← Option.some.inj hMeaning, ← hSame] at hOut ⊢
    exact covers_nzmaskSright hX hHoldsY
      (by rw [hSame]; exact hInput.nonempty)
      (by rw [hSame]; exact hSmallX) hReach hOpcode hOut
  case intMult =>
    have hSame := hInput.same (by rw [hOpcode]; rfl)
    have hEqual := hInput.equal (by rw [hOpcode]; rfl)
    rw [← Option.some.inj hMeaning, ← hSame]
    exact covers_nzmaskMult hX hY
      (by rw [hSame]; exact hSmallX)
      (by rw [hSame, ← hEqual]; exact hSmallY)
  case intDiv =>
    have hEight := hReach.counts (Or.inl hOpcode)
    rcases Pcode.divided_eq_some hMeaning with ⟨hDivisor, hEq⟩
    rw [← hEq]
    exact covers_nzmaskDiv hX hHoldsY
      (lt_of_lt_of_le hSmallX (two_pow_le_word hEight))
      hDivisor
  case intRem =>
    have hEight := hReach.counts (Or.inr (Or.inl hOpcode))
    have hEqual := hInput.equal (by rw [hOpcode]; rfl)
    rcases Pcode.divided_eq_some hMeaning with ⟨hDivisor, hEq⟩
    rw [← hEq]
    exact covers_nzmaskRem hY
      (lt_of_lt_of_le hSmallY
        (two_pow_le_word (by omega))) hDivisor
  case piece =>
    rw [← Option.some.inj hMeaning]
    exact covers_nzmaskPiece hX hY hSmallY
  case subpiece =>
    rw [← Option.some.inj hMeaning]
    exact covers_nzmaskSubpiece hX hHoldsY
      (hReach.cut hOpcode) hSmallX hReach.bits

/-
  Inputs that have zero bits where their masks do make the
  output have zero bits where the mask of the operation does.
-/
theorem covers_getNZMaskLocal
    (hReach : op.WithinReach)
    (hInputs : op.HoldsInputs values)
    (hComputes : Computes op values out) :
    Covers (op.getNZMaskLocal false) out := by
  cases hKind : kind op.opcode with
  | unary => exact covers_unary hReach hInputs hComputes hKind
  | binary => exact covers_binary hReach hInputs hComputes hKind
  | boolean =>
      rw [getNZMaskLocal_of_boolean false hKind]
      exact covers_one (hComputes.boolean hKind)
  | calculated =>
      rw [getNZMaskLocal_of_calculated false hKind]
      by_cases hBool : op.calculatedBool = true
      · rw [if_pos hBool]
        exact covers_one (hComputes.calculated hKind hBool)
      · rw [if_neg hBool]
        exact covers_fullmask hComputes.sized
  | unknown =>
      rw [getNZMaskLocal_of_unknown false hKind]
      exact covers_fullmask hComputes.sized
  | choice =>
      rcases hComputes.choice hKind with ⟨slot, hSlot, hEq⟩
      have hOpcode : op.opcode = .multiequal := by
        cases hOpcode : op.opcode <;> rw [hOpcode] at hKind <;>
          first
          | rfl
          | exact absurd hKind (by decide)
      rw [getNZMaskLocal, hOpcode, ← hEq]
      exact covers_nzmaskMultiequal hSlot
        (hInputs slot hSlot).covers

/- A value of 16 bytes that is shifted right by 72 bits. -/
def wideShift : PcodeOp :=
  { opcode := .intRight
    sizeout := 16
    inrefs :=
      [{ size := 16
         offset := 0
         constant := false
         nzm := 0xff },
       { size := 4
         offset := 72
         constant := true
         nzm := 72 }]
    calculatedBool := false
    loopIn := fun _ => false }

theorem wideShift_withinReach : wideShift.WithinReach :=
  { slots := fun _ => by decide
    pairs := fun _ => by decide
    bits := by decide
    cut := by decide
    counts := by decide
    right := fun _ _ _ => by decide
    sright := by decide }

theorem wideShift_holdsInputs :
    wideShift.HoldsInputs [2 ^ 100 + 5, 72] := by
  intro slot hSlot
  have hSlots : slot = 0 ∨ slot = 1 := by
    have hTwo : wideShift.inrefs.length = 2 := rfl
    omega
  rcases hSlots with hSlot | hSlot
  · rw [hSlot]
    refine ⟨?_, fun hConstant => by cases hConstant⟩
    change ∀ index, index < 64 →
      (2 ^ 100 + 5).testBit index = true →
        (0xff#64).getLsbD index = true
    decide
  · rw [hSlot]
    exact ⟨covers_toNat _, fun _ => ⟨rfl, rfl⟩⟩

theorem wideShift_computes :
    Computes wideShift [2 ^ 100 + 5, 72] (2 ^ 28) :=
  { sized := by decide
    unary := fun hKind => by cases hKind
    binary := fun _ =>
      ⟨{ sized1 := by decide
         sized2 := by decide
         nonempty := by decide
         same := fun _ => rfl
         equal := fun hMixes => by cases hMixes
         pieces := fun hPiece => by cases hPiece
         boolean := fun hBoolean => by cases hBoolean },
       rfl⟩
    boolean := fun hKind => by cases hKind
    calculated := fun hKind => by cases hKind
    choice := fun hKind => by cases hKind }

theorem covers_getNZMaskLocal_wideShift :
    Covers (wideShift.getNZMaskLocal false) (2 ^ 28) :=
  covers_getNZMaskLocal wideShift_withinReach
    wideShift_holdsInputs wideShift_computes

end PcodeOp

end LLDBGhidra
