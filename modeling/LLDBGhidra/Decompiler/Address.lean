import LLDBGhidra.Decompiler.RangeMap
import Mathlib.Data.BitVec

/-
  Errors, addresses and address ranges of the decompiler
  (`error.hh`, `space.hh`, `address.hh`, `address.cc`).

  Main declarations:
    * `Exn`
    * `Halt`
    * `AddrSpace.wrapOffset`
    * `Address`
    * `RangeList.insertRange`
    * `RangeList.inRange`
-/

------------------------------------------------------------
-- Errors and Machine Integers
------------------------------------------------------------

namespace LLDBGhidra

/- The classes below `LowlevelError`. -/
inductive LowlevelClass where
| lowlevel : LowlevelClass
| recov : LowlevelClass
| parse : LowlevelClass
| sleigh : LowlevelClass
| unimpl : LowlevelClass
| badData : LowlevelClass
| dataUnavail : LowlevelClass
deriving DecidableEq, Repr

/-
  What the decompiler library throws.  `DecoderError` is no
  subclass of `LowlevelError` or of `std::exception`.
-/
inductive Exn where
| lowlevelError :
    (errorClass : LowlevelClass) → (explain : String) → Exn
| decoderError : (explain : String) → Exn
| stdException : (what : String) → Exn
deriving DecidableEq, Repr

/-
  Why the library does not return: it throws, it uses a null
  pointer or an index out of range, or it is still in a loop
  after a number of rounds.
-/
inductive Halt where
| thrown : (error : Exn) → Halt
| undefined : Halt
| outOfRounds : Halt
deriving DecidableEq, Repr

def lowlevelError
    (explain : String) : Halt :=
  .thrown (.lowlevelError .lowlevel explain)

def decoderError
    (explain : String) : Halt :=
  .thrown (.decoderError explain)

/- Narrowing to the signed 32-bit type `int4`. -/
def int4
    (value : Nat) : Int :=
  (BitVec.ofNat 32 value).toInt

theorem int4_of_lt
    {value : Nat}
    (hSmall : value < 2 ^ 31) :
    int4 value = value := by
  have hMod : value % 2 ^ 32 = value := by omega
  have hDouble : 2 * value < 2 ^ 32 := by omega
  simp only [int4, BitVec.toInt_eq_toNat_cond,
    BitVec.toNat_ofNat, hMod, hDouble, if_true]

end LLDBGhidra

------------------------------------------------------------
-- Address Spaces
------------------------------------------------------------

namespace LLDBGhidra

/- `spacetype`. -/
inductive SpaceType where
| constant : SpaceType
| processor : SpaceType
| spacebase : SpaceType
| internal : SpaceType
| fspec : SpaceType
| iop : SpaceType
| join : SpaceType
deriving DecidableEq, Repr

/-
  An address space is identified by its index in the list of
  its manager.
-/
abbrev SpaceId := Nat

/- All ones in the given number of bytes, eight at most. -/
def calcMask
    (size : Nat) : BitVec 64 :=
  if size < 8 then
    BitVec.ofNat 64 (256 ^ size - 1)
  else
    BitVec.allOnes 64

/- The highest offset of a space, in bytes. -/
def calcScaleMask
    (addressSize wordsize : Nat) : BitVec 64 :=
  calcMask addressSize * BitVec.ofNat 64 wordsize +
    (BitVec.ofNat 64 wordsize - 1)

/-
  The attributes of an address space.  `calcScaleMask` makes
  the highest offset from the address size in bytes: all ones
  for eight bytes, and small for fewer.  A spacebase space and
  an overlay have a space that contains them.
-/
structure AddrSpace where
  name : String
  type : SpaceType
  index : SpaceId
  addressSize : Nat
  wordsize : Nat
  wordsizeSmall : wordsize ≤ 128
  highest : BitVec 64
  highestScaled :
    highest.toNat = 2 ^ 64 - 1 ∨ highest.toNat < 2 ^ 63
  delay : Int
  bigEndian : Bool
  overlay : Bool
  overlayBase : Bool
  otherSpace : Bool
  truncated : Bool
  contain : Option SpaceId
deriving DecidableEq, Repr

theorem bytewise_small : 1 ≤ 128 := by
  decide

theorem allOnes_scaled :
    (BitVec.allOnes 64).toNat = 2 ^ 64 - 1 ∨
      (BitVec.allOnes 64).toNat < 2 ^ 63 :=
  Or.inl rfl

theorem calcScaleMask_scaled
    {addressSize wordsize : Nat}
    (hWordsize : wordsize ≤ 128) :
    (calcScaleMask addressSize wordsize).toNat = 2 ^ 64 - 1 ∨
      (calcScaleMask addressSize wordsize).toNat < 2 ^ 63 := by
  unfold calcScaleMask calcMask
  by_cases hSize : addressSize < 8
  · rw [if_pos hSize]
    have hMask : 256 ^ addressSize ≤ 256 ^ 7 :=
      Nat.pow_le_pow_right (by decide) (by omega)
    have hPos : 0 < 256 ^ addressSize := Nat.pow_pos (by decide)
    rcases Nat.eq_zero_or_pos wordsize with hZero | hOne
    · subst hZero
      left
      simp
    · right
      have hProduct : (256 ^ addressSize - 1) * wordsize ≤
          (256 ^ 7 - 1) * 128 :=
        Nat.mul_le_mul (by omega) hWordsize
      have hMod : (256 ^ addressSize - 1) % 2 ^ 64 =
          256 ^ addressSize - 1 :=
        Nat.mod_eq_of_lt (by omega)
      have hWord : wordsize % 2 ^ 64 = wordsize :=
        Nat.mod_eq_of_lt (by omega)
      rw [BitVec.toNat_add, BitVec.toNat_mul, BitVec.toNat_sub,
        BitVec.toNat_ofNat, BitVec.toNat_ofNat, hMod, hWord]
      generalize (256 ^ addressSize - 1) * wordsize = product
        at hProduct
      have hOneNat : BitVec.toNat (1 : BitVec 64) = 1 := rfl
      rw [hOneNat]
      omega
  · left
    rw [if_neg hSize]
    have hOnes : BitVec.allOnes 64 = -1#64 := by decide
    have hAll : BitVec.allOnes 64 * BitVec.ofNat 64 wordsize +
        (BitVec.ofNat 64 wordsize - 1) = -1 := by
      rw [hOnes, BitVec.neg_mul, BitVec.one_mul]
      generalize BitVec.ofNat 64 wordsize = word
      bv_omega
    rw [hAll]
    rfl

namespace AddrSpace

/-
  Wrap an offset into the space.  The remainder is taken of
  the offset read as a signed number.
-/
def wrapOffset
    (space : AddrSpace)
    (offset : BitVec 64) : BitVec 64 :=
  if offset ≤ space.highest then
    offset
  else
    BitVec.ofInt 64
      (offset.toInt % (space.highest.toNat + 1 : Int))

theorem wrapOffset_of_le
    {space : AddrSpace}
    {offset : BitVec 64}
    (hLe : offset ≤ space.highest) :
    space.wrapOffset offset = offset := by
  simp [wrapOffset, hLe]

/- A wrapped offset that is not negative never grows. -/
theorem wrapOffset_toNat_le
    (space : AddrSpace)
    (offset : BitVec 64) :
    (space.wrapOffset offset).toNat ≤ offset.toNat ∨
      (2 ^ 63 ≤ offset.toNat ∧
        (space.wrapOffset offset).toNat < 2 ^ 63) := by
  by_cases hLe : offset ≤ space.highest
  · rw [wrapOffset_of_le hLe]
    exact Or.inl le_rfl
  · have hHighest := space.highestScaled
    have hOffset := offset.isLt
    have hAbove : space.highest.toNat < offset.toNat := by
      rw [BitVec.le_def] at hLe
      omega
    have hPositive :
        (0 : Int) < (space.highest.toNat : Int) + 1 := by
      omega
    have hNonneg := Int.emod_nonneg offset.toInt
      (Int.ne_of_gt hPositive)
    have hBelow := Int.emod_lt_of_pos offset.toInt hPositive
    have hWrap : ((space.wrapOffset offset).toNat : Int) =
        offset.toInt % (space.highest.toNat + 1 : Int) := by
      simp only [wrapOffset, hLe, if_false,
        BitVec.toNat_ofInt]
      have hSmall :
          offset.toInt % (space.highest.toNat + 1 : Int) <
            2 ^ 64 := by
        omega
      rw [Int.emod_eq_of_lt hNonneg (by simpa using hSmall),
        Int.toNat_of_nonneg hNonneg]
    by_cases hSign : offset.toNat < 2 ^ 63
    · left
      have hInt : offset.toInt = offset.toNat := by
        rw [BitVec.toInt_eq_toNat_cond]
        have hDouble : 2 * offset.toNat < 2 ^ 64 := by omega
        simp only [hDouble, if_true]
      rw [hInt] at hWrap
      have hNat : (space.wrapOffset offset).toNat =
          offset.toNat % (space.highest.toNat + 1) := by
        have hCast :
            ((offset.toNat % (space.highest.toNat + 1) : Nat) :
              Int) =
              (offset.toNat : Int) %
                (space.highest.toNat + 1 : Int) := by
          push_cast
          rfl
        omega
      rw [hNat]
      exact Nat.mod_le _ _
    · right
      omega

end AddrSpace

/- An address; it is invalid when it has no space. -/
structure Address where
  base : Option SpaceId
  offset : BitVec 64
deriving DecidableEq, Repr

namespace Address

/- The address `offset` of a space. -/
def ofSpace
    (space : SpaceId)
    (offset : BitVec 64) : Address :=
  ⟨some space, offset⟩

/- The default constructor. -/
def invalid : Address :=
  ⟨none, 0⟩

def isInvalid
    (addr : Address) : Bool :=
  addr.base.isNone

end Address

end LLDBGhidra

------------------------------------------------------------
-- Storage Locations
------------------------------------------------------------

namespace LLDBGhidra

/- Where a register, or a piece of a value, is stored. -/
structure VarnodeData where
  space : SpaceId
  offset : BitVec 64
  size : BitVec 32
deriving DecidableEq, Repr

end LLDBGhidra

------------------------------------------------------------
-- Ranges and Range Lists
------------------------------------------------------------

namespace LLDBGhidra

/- A contiguous range of bytes of one space. -/
structure Range where
  spc : SpaceId
  first : BitVec 64
  last : BitVec 64
deriving DecidableEq, Repr

namespace Range

/- Ranges are ordered by their space and their first byte. -/
def key
    (range : Range) : Nat ×ₗ Nat :=
  toLex (range.spc, range.first.toNat)

end Range

/- A set of ranges in order. -/
structure RangeList where
  tree : List Range
deriving DecidableEq, Repr

namespace RangeList

def empty : RangeList :=
  ⟨[]⟩

/- The ranges that start at or before `offset`, and the rest. -/
def upperBound
    (spc : SpaceId)
    (offset : BitVec 64)
    (tree : List Range) : List Range × List Range :=
  let bound : Nat ×ₗ Nat := toLex (spc, offset.toNat)
  (tree.takeWhile (fun range => range.key ≤ bound),
    tree.dropWhile (fun range => range.key ≤ bound))

/-
  Insert a range, merging the ranges it meets.  The range
  before the upper bound is merged when it reaches `first`.
-/
def insertRange
    (spc : SpaceId)
    (first last : BitVec 64)
    (ranges : RangeList) : RangeList :=
  let split := upperBound spc first ranges.tree
  let reaches := fun range : Range =>
    range.spc = spc ∧ first ≤ range.last
  let before :=
    match split.1.getLast? with
    | none => split.1
    | some range =>
        if reaches range then split.1.dropLast else split.1
  let candidate :=
    split.1.getLast?.toList.filter (fun range => reaches range)
  let window := upperBound spc last split.2
  let merged := candidate ++ window.1
  let first' :=
    merged.foldl
      (fun start range =>
        if range.first < start then range.first else start)
      first
  let last' :=
    merged.foldl
      (fun stop range =>
        if stop < range.last then range.last else stop)
      last
  ⟨before ++ ⟨spc, first', last'⟩ :: window.2⟩

/- Are the `size` bytes from the address in one range? -/
def inRange
    (ranges : RangeList)
    (addr : Address)
    (size : BitVec 64) : Bool :=
  match addr.base with
  | none => true
  | some spc =>
      match (upperBound spc addr.offset ranges.tree).1.getLast?
        with
      | none => false
      | some range =>
          range.spc = spc && addr.offset + size - 1 ≤ range.last

/- The first range of the list. -/
def getFirstRange
    (ranges : RangeList) : Option Range :=
  ranges.tree.head?

end RangeList

end LLDBGhidra
