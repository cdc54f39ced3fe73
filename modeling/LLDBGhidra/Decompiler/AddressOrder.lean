import LLDBGhidra.Decompiler.Translate
import LLDBGhidra.Library.PartMap
import Mathlib.Order.WithBot

/-
  The order of all addresses, with the extremal ones
  (`address.hh`, `address.cc`, `translate.cc`).

  Main declarations:
    * `AddressPoint`
    * `Address.point`
    * `AddrSpaceManager.getNextSpaceInOrder`
    * `Range.getLastAddrOpen`
    * `Range.OpenEnd`
    * `Range.OpenEnd.inWindow_iff`
-/

------------------------------------------------------------
-- The Order of Addresses
------------------------------------------------------------

namespace LLDBGhidra

/-
  An address by its place in `operator<`: the null space comes
  first and the space `~0` last, and all others are ordered by
  their index.
-/
abbrev AddressPoint :=
  WithBot (WithTop SpaceId) ×ₗ Nat

namespace AddressPoint

/- An offset of a space, or of the space `~0`. -/
def ofBase
    (base : WithTop SpaceId)
    (offset : Nat) : AddressPoint :=
  toLex (WithBot.some base, offset)

def ofSpace
    (spc : SpaceId)
    (offset : Nat) : AddressPoint :=
  ofBase (WithTop.some spc) offset

/- `Address(Address::m_minimal)`. -/
def minimal : AddressPoint :=
  toLex (⊥, 0)

/- `Address(Address::m_maximal)`. -/
def maximal : AddressPoint :=
  ofBase ⊤ (2 ^ 64 - 1)

def isInvalid
    (point : AddressPoint) : Bool :=
  (ofLex point).1 = ⊥

def getSpace
    (point : AddressPoint) : WithBot (WithTop SpaceId) :=
  (ofLex point).1

def getOffset
    (point : AddressPoint) : BitVec 64 :=
  BitVec.ofNat 64 (ofLex point).2

/- The place of an address, which has a 64-bit offset. -/
def Fits
    (point : AddressPoint) : Prop :=
  (ofLex point).2 < 2 ^ 64

theorem isInvalid_ofBase
    (base : WithTop SpaceId)
    (offset : Nat) :
    (ofBase base offset).isInvalid = false := by
  simp [isInvalid, ofBase]

theorem ofBase_lt_iff
    {base base' : WithTop SpaceId}
    {offset offset' : Nat} :
    ofBase base offset < ofBase base' offset' ↔
      base < base' ∨ base = base' ∧ offset < offset' := by
  unfold ofBase
  rw [Prod.Lex.toLex_lt_toLex, WithBot.coe_lt_coe,
    WithBot.coe_inj]

theorem ofSpace_lt_iff
    {spc spc' : SpaceId}
    {offset offset' : Nat} :
    ofSpace spc offset < ofSpace spc' offset' ↔
      spc < spc' ∨ spc = spc' ∧ offset < offset' := by
  unfold ofSpace
  rw [ofBase_lt_iff, WithTop.coe_lt_coe, WithTop.coe_inj]

theorem ofSpace_le_iff
    {spc spc' : SpaceId}
    {offset offset' : Nat} :
    ofSpace spc offset ≤ ofSpace spc' offset' ↔
      spc < spc' ∨ spc = spc' ∧ offset ≤ offset' := by
  unfold ofSpace ofBase
  rw [Prod.Lex.toLex_le_toLex, WithBot.coe_lt_coe,
    WithBot.coe_inj, WithTop.coe_lt_coe, WithTop.coe_inj]

/- A point of a space is its offset in the space. -/
theorem eq_ofSpace
    {point : AddressPoint}
    {spc : SpaceId}
    (hFits : point.Fits)
    (hSpace :
      point.getSpace = WithBot.some (WithTop.some spc)) :
    point = ofSpace spc point.getOffset.toNat := by
  unfold getOffset ofSpace ofBase
  rw [BitVec.toNat_ofNat, Nat.mod_eq_of_lt hFits, ← hSpace]
  rfl

theorem le_ofSpace_of_ne
    {point : AddressPoint}
    {spc : SpaceId}
    {offset offset' : Nat}
    (hNe : point.getSpace ≠ WithBot.some (WithTop.some spc))
    (hLe : point ≤ ofSpace spc offset) :
    point ≤ ofSpace spc offset' := by
  rcases Prod.Lex.le_iff.mp hLe with hLt | ⟨hEq, _⟩
  · exact Prod.Lex.le_iff.mpr (Or.inl hLt)
  · exact absurd hEq hNe

theorem ofSpace_lt_of_ne
    {point : AddressPoint}
    {spc : SpaceId}
    {offset offset' : Nat}
    (hNe : point.getSpace ≠ WithBot.some (WithTop.some spc))
    (hLt : ofSpace spc offset < point) :
    ofSpace spc offset' < point := by
  rcases Prod.Lex.lt_iff.mp hLt with hBase | ⟨hEq, _⟩
  · exact Prod.Lex.lt_iff.mpr (Or.inl hBase)
  · exact absurd hEq.symm hNe

end AddressPoint

/- The place of an address; only an invalid one has no space. -/
def Address.point
    (addr : Address) : AddressPoint :=
  match addr.base with
  | none => toLex (⊥, addr.offset.toNat)
  | some spc => AddressPoint.ofSpace spc addr.offset.toNat

theorem Address.point_ofSpace
    (spc : SpaceId)
    (offset : BitVec 64) :
    (Address.ofSpace spc offset).point =
      AddressPoint.ofSpace spc offset.toNat :=
  rfl

end LLDBGhidra

------------------------------------------------------------
-- The End of a Range
------------------------------------------------------------

namespace LLDBGhidra

/- The next space by index, or the space `~0`. -/
def AddrSpaceManager.getNextSpaceInOrder
    (manager : AddrSpaceManager)
    (spc : SpaceId) : WithTop SpaceId :=
  match (List.range manager.numSpaces).find? (fun index =>
      spc < index && (manager.getSpace index).isSome) with
  | none => ⊤
  | some index => WithTop.some index

namespace Range

def getFirstAddr
    (range : Range) : AddressPoint :=
  AddressPoint.ofSpace range.spc range.first.toNat

/-
  The address after the last one, which may be the first one
  of the next space.  The range has to be in a space.
-/
def getLastAddrOpen
    (manager : AddrSpaceManager)
    (range : Range) : Option AddressPoint :=
  match manager.getSpace range.spc with
  | none => none
  | some curspc =>
      if range.last = curspc.highest then
        some (AddressPoint.ofBase
          (manager.getNextSpaceInOrder range.spc) 0)
      else
        some (AddressPoint.ofSpace range.spc
          (range.last + 1).toNat)

/- The range is a part of a space of the manager. -/
structure InSpace
    (manager : AddrSpaceManager)
    (range : Range) : Prop where
  proper : range.first ≤ range.last
  fits :
    ∃ spc, manager.getSpace range.spc = some spc ∧
      range.last ≤ spc.highest

end Range

/- The offset is one of a space of the manager. -/
def AddrSpaceManager.HasOffset
    (manager : AddrSpaceManager)
    (index : SpaceId)
    (offset : BitVec 64) : Prop :=
  ∃ spc, manager.getSpace index = some spc ∧
    offset ≤ spc.highest

variable {manager : AddrSpaceManager}

theorem AddrSpaceManager.lt_numSpaces_of_getSpace
    {index : SpaceId}
    {spc : AddrSpace}
    (hSpace : manager.getSpace index = some spc) :
    index < manager.numSpaces := by
  by_contra hNot
  unfold AddrSpaceManager.getSpace at hSpace
  rw [List.getElem?_eq_none (Nat.le_of_not_lt hNot)] at hSpace
  cases hSpace

/- No space is between a space and the next one. -/
theorem AddrSpaceManager.lt_getNextSpaceInOrder_iff
    {spc index : SpaceId}
    {other : AddrSpace}
    (hOther : manager.getSpace index = some other) :
    WithTop.some index < manager.getNextSpaceInOrder spc ↔
      index ≤ spc := by
  unfold AddrSpaceManager.getNextSpaceInOrder
  have hIndex : index ∈ List.range manager.numSpaces :=
    List.mem_range.mpr
      (AddrSpaceManager.lt_numSpaces_of_getSpace hOther)
  have hSome : (manager.getSpace index).isSome := by
    rw [hOther]
    rfl
  cases hFound : (List.range manager.numSpaces).find?
      (fun index =>
        spc < index && (manager.getSpace index).isSome) with
  | none =>
      have hNone := List.find?_eq_none.mp hFound index hIndex
      constructor
      · intro _
        by_contra hNot
        exact hNone (by simp [Nat.lt_of_not_le hNot, hSome])
      · intro _
        exact WithTop.coe_lt_top index
  | some next =>
      have hNext := List.find?_some hFound
      simp only [Bool.and_eq_true, decide_eq_true_eq] at hNext
      change WithTop.some index < WithTop.some next ↔ _
      rw [WithTop.coe_lt_coe]
      constructor
      · intro hLt
        by_contra hNot
        rcases List.find?_eq_some_iff_append.mp hFound with
          ⟨_, before, after, hSplit, hBefore⟩
        have hSorted := List.pairwise_lt_range
          (n := manager.numSpaces)
        rw [hSplit] at hIndex hSorted
        rcases List.mem_append.mp hIndex with hIn | hIn
        · have hRejected := hBefore index hIn
          simp [Nat.lt_of_not_le hNot, hSome] at hRejected
        · have hLe : next ≤ index := by
            rcases List.mem_cons.mp hIn with hEq | hAfter
            · exact le_of_eq hEq.symm
            · exact le_of_lt (List.rel_of_pairwise_cons
                (List.pairwise_append.mp hSorted).2.1 hAfter)
          exact absurd hLt (Nat.not_lt.mpr hLe)
      · intro hLe
        exact Nat.lt_of_le_of_lt hLe hNext.1

namespace Range

/-
  The address comes after those of the range and of the spaces
  before, and before all other ones.
-/
structure OpenEnd
    (manager : AddrSpaceManager)
    (range : Range)
    (last : AddressPoint) : Prop where
  valid : last.isInvalid = false
  after : range.getFirstAddr < last
  bounds :
    ∀ index offset, manager.HasOffset index offset →
      (AddressPoint.ofSpace index offset.toNat < last ↔
        index < range.spc ∨
          index = range.spc ∧ offset ≤ range.last)

variable {range : Range}
variable {spc : AddrSpace}

/- A range up to the end of its space. -/
theorem openEnd_nextSpace
    (hSpace : manager.getSpace range.spc = some spc)
    (hEnd : range.last = spc.highest) :
    range.OpenEnd manager
      (AddressPoint.ofBase
        (manager.getNextSpaceInOrder range.spc) 0) where
  valid := AddressPoint.isInvalid_ofBase _ _
  after :=
    AddressPoint.ofBase_lt_iff.mpr (Or.inl
      ((AddrSpaceManager.lt_getNextSpaceInOrder_iff
        hSpace).mpr le_rfl))
  bounds := by
    rintro index offset ⟨other, hOther, hOffset⟩
    unfold AddressPoint.ofSpace
    rw [AddressPoint.ofBase_lt_iff,
      AddrSpaceManager.lt_getNextSpaceInOrder_iff hOther]
    constructor
    · rintro (hLe | ⟨_, hNegative⟩)
      · rcases Nat.lt_or_eq_of_le hLe with hLt | hEq
        · exact Or.inl hLt
        · subst hEq
          rw [hOther, Option.some.injEq] at hSpace
          rw [hEnd, ← hSpace]
          exact Or.inr ⟨rfl, hOffset⟩
      · exact absurd hNegative (Nat.not_lt_zero _)
    · rintro (hLt | ⟨hEq, _⟩)
      · exact Or.inl hLt.le
      · exact Or.inl (le_of_eq hEq)

/- A range with bytes of its space behind it. -/
theorem openEnd_nextOffset
    (hProper : range.first ≤ range.last)
    (hBelow : range.last < spc.highest) :
    range.OpenEnd manager
      (AddressPoint.ofSpace range.spc
        (range.last + 1).toNat) := by
  have hFirst := BitVec.le_def.mp hProper
  have hNext : (range.last + 1).toNat =
      range.last.toNat + 1 := by
    have hLt := BitVec.lt_def.mp hBelow
    have hSmall := spc.highest.isLt
    rw [BitVec.toNat_add]
    change (range.last.toNat + 1) % 2 ^ 64 = _
    omega
  refine ⟨AddressPoint.isInvalid_ofBase _ _, ?_, ?_⟩
  · apply AddressPoint.ofSpace_lt_iff.mpr
    refine Or.inr ⟨rfl, ?_⟩
    omega
  · intro index offset _
    rw [AddressPoint.ofSpace_lt_iff, hNext, BitVec.le_def]
    exact or_congr_right
      (and_congr_right (fun _ => Nat.lt_succ_iff))

theorem exists_openEnd
    (hRange : range.InSpace manager) :
    ∃ last, range.getLastAddrOpen manager = some last ∧
      range.OpenEnd manager last := by
  rcases hRange.fits with ⟨spc, hSpace, hFits⟩
  unfold getLastAddrOpen
  simp only [hSpace]
  by_cases hEnd : range.last = spc.highest
  · rw [if_pos hEnd]
    exact ⟨_, rfl, openEnd_nextSpace hSpace hEnd⟩
  · rw [if_neg hEnd]
    have hBelow : range.last < spc.highest := by
      have hLe := BitVec.le_def.mp hFits
      have hNe : range.last.toNat ≠ spc.highest.toNat :=
        fun hSame => hEnd (BitVec.eq_of_toNat_eq hSame)
      exact BitVec.lt_def.mpr (by omega)
    exact ⟨_, rfl, openEnd_nextOffset hRange.proper hBelow⟩

/- The addresses up to the open end are those of the range. -/
theorem OpenEnd.inWindow_iff
    {last : AddressPoint}
    (hEnd : range.OpenEnd manager last)
    {index : SpaceId}
    {offset : BitVec 64}
    (hOffset : manager.HasOffset index offset) :
    PartMap.InWindow range.getFirstAddr (some last)
        (AddressPoint.ofSpace index offset.toNat) ↔
      index = range.spc ∧ range.first ≤ offset ∧
        offset ≤ range.last := by
  have hBefore :
      (∀ bound ∈ some last,
        AddressPoint.ofSpace index offset.toNat < bound) ↔
        index < range.spc ∨
          index = range.spc ∧ offset ≤ range.last := by
    rw [← hEnd.bounds index offset hOffset]
    simp
  unfold PartMap.InWindow getFirstAddr
  rw [hBefore, AddressPoint.ofSpace_le_iff, BitVec.le_def]
  constructor
  · rintro ⟨hGt | ⟨hEq, hFirst⟩, hLt | ⟨hSame, hLast⟩⟩
    · exact absurd hLt (Nat.lt_asymm hGt)
    · exact absurd hSame (Nat.ne_of_gt hGt)
    · exact absurd hEq (Nat.ne_of_gt hLt)
    · exact ⟨hSame, hFirst, hLast⟩
  · rintro ⟨rfl, hFirst, hLast⟩
    exact ⟨Or.inr ⟨rfl, hFirst⟩, Or.inr ⟨rfl, hLast⟩⟩

end Range

end LLDBGhidra
