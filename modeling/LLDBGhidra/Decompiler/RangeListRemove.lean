import LLDBGhidra.Decompiler.RangeListCover
import Mathlib.Data.Set.Basic

/-
  Removal from range lists, and the contiguous bytes at an
  address (`address.cc`).

  Main declarations:
    * `RangeList.removeRange`
    * `RangeList.merge`
    * `RangeList.longestFit`
    * `RangeList.IsDisjointCover.bytes_run`
    * `RangeList.IsDisjointCover.longestFit_exact`
-/

------------------------------------------------------------
-- Removal and Merging
------------------------------------------------------------

namespace LLDBGhidra

namespace Range

/- What is left of a range that loses the given bytes. -/
def pieces
    (spc : SpaceId)
    (first last : BitVec 64)
    (range : Range) : List Range :=
  (if range.first < first then
    [⟨spc, range.first, first - 1⟩]
  else
    []) ++
    (if last < range.last then
      [⟨spc, last + 1, range.last⟩]
    else
      [])

end Range

namespace RangeList

/-
  The ranges before the given bytes, those that are cut and
  those behind.  The range before the upper bound is cut when
  it reaches `first`.
-/
def cutAt
    (spc : SpaceId)
    (first last : BitVec 64)
    (ranges : RangeList) :
    List Range × List Range × List Range :=
  let low := (upperBound spc first ranges.tree).1
  let window :=
    upperBound spc last (upperBound spc first ranges.tree).2
  match low.getLast? with
  | none => (low, window.1, window.2)
  | some range =>
      if range.spc = spc ∧ first ≤ range.last then
        (low.dropLast, range :: window.1, window.2)
      else
        (low, window.1, window.2)

/- Remove bytes; what is left of a range goes where it was. -/
def removeRange
    (spc : SpaceId)
    (first last : BitVec 64)
    (ranges : RangeList) : RangeList :=
  match ranges.cutAt spc first last with
  | (before, cut, after) =>
      ⟨before ++ cut.flatMap (Range.pieces spc first last) ++
        after⟩

/- Insert the ranges of another list. -/
def merge
    (ranges op2 : RangeList) : RangeList :=
  op2.tree.foldl
    (fun ranges range =>
      ranges.insertRange range.spc range.first range.last)
    ranges

namespace IsDisjointCover

variable {ranges : RangeList}
variable {spc : SpaceId}
variable {first last : BitVec 64}

/- The ranges that are cut are those that meet the bytes. -/
theorem split_cutAt
    (hCover : ranges.IsDisjointCover)
    (spc : SpaceId)
    (hProper : first ≤ last) :
    Split ranges.tree spc first last
      (ranges.cutAt spc first last).1
      (ranges.cutAt spc first last).2.1
      (ranges.cutAt spc first last).2.2 := by
  have hLowSublist :
      ((upperBound spc first ranges.tree).1).Sublist
        ranges.tree :=
    List.takeWhile_sublist _
  cases hLast : (upperBound spc first ranges.tree).1.getLast?
    with
  | none =>
      have hEmpty := List.getLast?_eq_none_iff.mp hLast
      have hCut :
          ranges.cutAt spc first last =
            ([], (upperBound spc last
                (upperBound spc first ranges.tree).2).1,
              (upperBound spc last
                (upperBound spc first ranges.tree).2).2) := by
        unfold cutAt
        simp only [hEmpty, List.getLast?_nil]
      rw [hCut]
      exact hCover.split_of_low hEmpty
        (fun _ hRange => absurd hRange List.not_mem_nil)
        (fun _ hRange => absurd hRange List.not_mem_nil)
  | some range =>
      rcases List.getLast?_eq_some_iff.mp hLast with
        ⟨before, hLow⟩
      rw [hLow] at hLowSublist
      have hMem :
          range ∈ (upperBound spc first ranges.tree).1 := by
        rw [hLow]
        exact List.mem_append_right _ (List.mem_singleton_self _)
      have hBound : range.key ≤ toLex (spc, first.toNat) :=
        ((SortedList.mem_takeWhile_le_iff hCover.keySorted _
          range).mp hMem).2
      have hBelow := before_below hCover hLowSublist hBound
      by_cases hReaches :
          range.spc = spc ∧ first ≤ range.last
      · have hCut :
            ranges.cutAt spc first last =
              (before, range :: (upperBound spc last
                  (upperBound spc first ranges.tree).2).1,
                (upperBound spc last
                  (upperBound spc first ranges.tree).2).2) := by
          unfold cutAt
          simp only [hLow, List.getLast?_concat,
            if_pos hReaches, List.dropLast_concat]
        rw [hCut]
        refine hCover.split_of_low hLow hBelow ?_
        intro other hOther
        rcases List.mem_singleton.mp hOther with rfl
        refine ⟨hReaches.1, hReaches.2, ?_⟩
        rcases Range.key_le_iff.mp hBound with
          hLt | ⟨_, hStart⟩
        · exact absurd hReaches.1 (Nat.ne_of_lt hLt)
        · exact BitVec.le_trans
            (BitVec.le_def.mpr hStart) hProper
      · have hCut :
            ranges.cutAt spc first last =
              (before ++ [range], (upperBound spc last
                  (upperBound spc first ranges.tree).2).1,
                (upperBound spc last
                  (upperBound spc first ranges.tree).2).2) := by
          unfold cutAt
          simp only [hLow, List.getLast?_concat,
            if_neg hReaches]
        rw [hCut]
        refine hCover.split_of_low
          (hLow.trans (List.append_nil _).symm) ?_
          (fun _ hRange => absurd hRange List.not_mem_nil)
        intro other hOther
        rcases List.mem_append.mp hOther with hIn | hEq
        · exact hBelow other hIn
        · rcases List.mem_singleton.mp hEq with rfl
          apply Range.lastKey_lt_iff.mpr
          rcases Range.key_le_iff.mp hBound with
            hLt | ⟨hSpace, _⟩
          · exact Or.inl hLt
          · refine Or.inr ⟨hSpace, ?_⟩
            exact BitVec.lt_def.mp (BitVec.not_le.mp
              (fun hLe => hReaches ⟨hSpace, hLe⟩))

end IsDisjointCover

end RangeList

end LLDBGhidra

------------------------------------------------------------
-- What Is Left
------------------------------------------------------------

namespace LLDBGhidra

namespace Range

variable {spc : SpaceId}
variable {first last : BitVec 64}
variable {range piece : Range}

/- The range has bytes that are removed. -/
def Meets
    (spc : SpaceId)
    (first last : BitVec 64)
    (range : Range) : Prop :=
  range.spc = spc ∧ first ≤ range.last ∧ range.first ≤ last

instance
    (spc : SpaceId)
    (first last : BitVec 64)
    (range : Range) :
    Decidable (range.Meets spc first last) :=
  inferInstanceAs (Decidable (_ ∧ _ ∧ _))

/- What becomes of a range of the list. -/
def cut
    (spc : SpaceId)
    (first last : BitVec 64)
    (range : Range) : List Range :=
  if range.Meets spc first last then
    range.pieces spc first last
  else
    [range]

/- A piece is one end of the range that is cut. -/
theorem mem_pieces_iff :
    piece ∈ range.pieces spc first last ↔
      (range.first < first ∧
          piece = ⟨spc, range.first, first - 1⟩) ∨
        (last < range.last ∧
          piece = ⟨spc, last + 1, range.last⟩) := by
  unfold pieces
  rw [List.mem_append]
  by_cases hLow : range.first < first <;>
    by_cases hHigh : last < range.last <;>
      simp [hLow, hHigh]

theorem toNat_pred
    {offset : BitVec 64}
    (hPositive : 0 < offset.toNat) :
    (offset - 1).toNat = offset.toNat - 1 := by
  have hSmall := offset.isLt
  have hOne : (1 : BitVec 64).toNat = 1 := rfl
  rw [BitVec.toNat_sub, hOne]
  omega

theorem toNat_succ
    {offset other : BitVec 64}
    (hBelow : offset.toNat < other.toNat) :
    (offset + 1).toNat = offset.toNat + 1 := by
  have hSmall := other.isLt
  have hOne : (1 : BitVec 64).toNat = 1 := rfl
  rw [BitVec.toNat_add, hOne]
  omega

/- Pieces are proper ranges within the range. -/
structure Within
    (range piece : Range) : Prop where
  spc : piece.spc = range.spc
  first : range.first.toNat ≤ piece.first.toNat
  proper : piece.first.toNat ≤ piece.last.toNat
  last : piece.last.toNat ≤ range.last.toNat

theorem within_of_mem_cut
    (hProper : range.first ≤ range.last)
    (hPiece : piece ∈ range.cut spc first last) :
    range.Within piece := by
  have hOrder := BitVec.le_def.mp hProper
  unfold cut at hPiece
  by_cases hMeets : range.Meets spc first last
  · rw [if_pos hMeets] at hPiece
    rcases hMeets with ⟨hSpace, hReaches, hStarts⟩
    have hFrom := BitVec.le_def.mp hReaches
    have hTo := BitVec.le_def.mp hStarts
    rcases mem_pieces_iff.mp hPiece with
      ⟨hLow, rfl⟩ | ⟨hHigh, rfl⟩
    · have hBelow := BitVec.lt_def.mp hLow
      have hPred := @toNat_pred first (by omega)
      refine ⟨hSpace.symm, le_rfl, ?_, ?_⟩
      · change range.first.toNat ≤ (first - 1).toNat
        omega
      · change (first - 1).toNat ≤ range.last.toNat
        omega
    · have hSucc := toNat_succ (BitVec.lt_def.mp hHigh)
      have hAbove := BitVec.lt_def.mp hHigh
      refine ⟨hSpace.symm, ?_, ?_, le_rfl⟩
      · change range.first.toNat ≤ (last + 1).toNat
        omega
      · change (last + 1).toNat ≤ range.last.toNat
        omega
  · rw [if_neg hMeets] at hPiece
    rcases List.mem_singleton.mp hPiece with rfl
    exact ⟨rfl, le_rfl, hOrder, le_rfl⟩

/- The two pieces of a range are apart. -/
theorem pairwise_cut
    (hOrder : first ≤ last) :
    (range.cut spc first last).Pairwise (fun left right =>
      left.spc < right.spc ∨
        left.spc = right.spc ∧ left.last < right.first) := by
  unfold cut pieces
  by_cases hMeets : range.Meets spc first last
  · rw [if_pos hMeets]
    by_cases hLow : range.first < first
    · by_cases hHigh : last < range.last
      · rw [if_pos hLow, if_pos hHigh]
        apply List.pairwise_pair.mpr
        have hBelow := BitVec.lt_def.mp hLow
        have hUpTo := BitVec.le_def.mp hOrder
        have hPred := @toNat_pred first (by omega)
        have hSucc := toNat_succ (BitVec.lt_def.mp hHigh)
        refine Or.inr ⟨rfl, BitVec.lt_def.mpr ?_⟩
        change (first - 1).toNat < (last + 1).toNat
        omega
      · rw [if_pos hLow, if_neg hHigh]
        exact List.pairwise_singleton _ _
    · rw [if_neg hLow, List.nil_append]
      by_cases hHigh : last < range.last
      · rw [if_pos hHigh]
        exact List.pairwise_singleton _ _
      · rw [if_neg hHigh]
        exact List.Pairwise.nil
  · rw [if_neg hMeets]
    exact List.pairwise_singleton _ _

/- The bytes of both pieces are those beside the cut. -/
theorem exists_mem_pieces_iff
    (hMeets : range.Meets spc first last)
    {space : SpaceId}
    {offset : BitVec 64} :
    (∃ piece ∈ range.pieces spc first last,
        piece.spc = space ∧ piece.first ≤ offset ∧
          offset ≤ piece.last) ↔
      spc = space ∧ range.first ≤ offset ∧
        offset ≤ range.last ∧
        (offset < first ∨ last < offset) := by
  have hReaches := BitVec.le_def.mp hMeets.2.1
  have hStarts := BitVec.le_def.mp hMeets.2.2
  simp only [BitVec.le_def, BitVec.lt_def]
  constructor
  · intro hPiece
    rcases hPiece with ⟨piece, hMem, hSpace, hFrom, hTo⟩
    rcases mem_pieces_iff.mp hMem with
      ⟨hLow, rfl⟩ | ⟨hHigh, rfl⟩
    · have hBelow := BitVec.lt_def.mp hLow
      have hPred := @toNat_pred first (by omega)
      change range.first.toNat ≤ offset.toNat at hFrom
      change offset.toNat ≤ (first - 1).toNat at hTo
      exact ⟨hSpace, hFrom, by omega, Or.inl (by omega)⟩
    · have hSucc := toNat_succ (BitVec.lt_def.mp hHigh)
      change (last + 1).toNat ≤ offset.toNat at hFrom
      change offset.toNat ≤ range.last.toNat at hTo
      exact ⟨hSpace, by omega, hTo, Or.inr (by omega)⟩
  · intro hIn
    rcases hIn with ⟨hSpace, hFrom, hTo, hLow | hHigh⟩
    · have hPred := @toNat_pred first (by omega)
      have hBelow : range.first < first :=
        BitVec.lt_def.mpr (by omega)
      refine ⟨⟨spc, range.first, first - 1⟩,
        mem_pieces_iff.mpr (Or.inl ⟨hBelow, rfl⟩), hSpace,
        hFrom, ?_⟩
      change offset.toNat ≤ (first - 1).toNat
      omega
    · have hAbove : last < range.last :=
        BitVec.lt_def.mpr (by omega)
      have hSucc := toNat_succ (BitVec.lt_def.mp hAbove)
      refine ⟨⟨spc, last + 1, range.last⟩,
        mem_pieces_iff.mpr (Or.inr ⟨hAbove, rfl⟩), hSpace, ?_,
        hTo⟩
      change (last + 1).toNat ≤ offset.toNat
      omega

/- The bytes that are left are those that are not removed. -/
theorem exists_mem_cut_iff
    {space : SpaceId}
    {offset : BitVec 64} :
    (∃ piece ∈ range.cut spc first last,
        piece.spc = space ∧ piece.first ≤ offset ∧
          offset ≤ piece.last) ↔
      (range.spc = space ∧ range.first ≤ offset ∧
          offset ≤ range.last) ∧
        ¬ (spc = space ∧ first ≤ offset ∧ offset ≤ last) := by
  unfold cut
  by_cases hMeets : range.Meets spc first last
  · rw [if_pos hMeets, exists_mem_pieces_iff hMeets, hMeets.1]
    simp only [BitVec.le_def, BitVec.lt_def]
    constructor
    · intro hIn
      rcases hIn with ⟨hSpace, hFrom, hTo, hOutside⟩
      refine ⟨⟨hSpace, hFrom, hTo⟩, ?_⟩
      intro hRemoved
      omega
    · intro hIn
      rcases hIn with ⟨⟨hSpace, hFrom, hTo⟩, hKept⟩
      refine ⟨hSpace, hFrom, hTo, ?_⟩
      by_contra hNot
      apply hKept
      refine ⟨hSpace, ?_, ?_⟩
      · omega
      · omega
  · rw [if_neg hMeets]
    constructor
    · intro hPiece
      rcases hPiece with ⟨piece, hMem, hIn⟩
      rcases List.mem_singleton.mp hMem with rfl
      refine ⟨hIn, ?_⟩
      intro hRemoved
      apply hMeets
      refine ⟨hIn.1.trans hRemoved.1.symm, ?_, ?_⟩
      · exact BitVec.le_trans hRemoved.2.1 hIn.2.2
      · exact BitVec.le_trans hIn.2.1 hRemoved.2.2
    · intro hIn
      exact ⟨range, List.mem_singleton_self _, hIn.1⟩

end Range

namespace RangeList

namespace IsDisjointCover

variable {ranges : RangeList}
variable {spc : SpaceId}
variable {first last : BitVec 64}

/- Ranges that do not meet the bytes stay as they are. -/
theorem flatMap_cut_of_not_meets
    {tree : List Range}
    (hNone :
      ∀ range ∈ tree, ¬ range.Meets spc first last) :
    tree.flatMap (Range.cut spc first last) = tree := by
  induction tree with
  | nil => rfl
  | cons range tree ih =>
      have hRange := hNone range List.mem_cons_self
      rw [List.flatMap_cons, ih (fun other hOther =>
        hNone other (List.mem_cons_of_mem _ hOther))]
      unfold Range.cut
      rw [if_neg hRange, List.singleton_append]

theorem flatMap_cut_of_meets
    {tree : List Range}
    (hAll : ∀ range ∈ tree, range.Meets spc first last) :
    tree.flatMap (Range.cut spc first last) =
      tree.flatMap (Range.pieces spc first last) := by
  induction tree with
  | nil => rfl
  | cons range tree ih =>
      have hRange := hAll range List.mem_cons_self
      rw [List.flatMap_cons, List.flatMap_cons,
        ih (fun other hOther =>
          hAll other (List.mem_cons_of_mem _ hOther))]
      unfold Range.cut
      rw [if_pos hRange]

/- Removal cuts every range by itself. -/
theorem tree_removeRange
    (hCover : ranges.IsDisjointCover)
    (spc : SpaceId)
    (hProper : first ≤ last) :
    (ranges.removeRange spc first last).tree =
      ranges.tree.flatMap (Range.cut spc first last) := by
  have hSplit := hCover.split_cutAt spc hProper
  have hBefore :
      ∀ range ∈ (ranges.cutAt spc first last).1,
        ¬ range.Meets spc first last := by
    intro range hRange hMeets
    rcases Range.lastKey_lt_iff.mp
        (hSplit.below range hRange) with hLt | ⟨_, hLt⟩
    · exact absurd hMeets.1 (Nat.ne_of_lt hLt)
    · exact absurd (BitVec.le_def.mp hMeets.2.1)
        (Nat.not_le.mpr hLt)
  have hAfter :
      ∀ range ∈ (ranges.cutAt spc first last).2.2,
        ¬ range.Meets spc first last := by
    intro range hRange hMeets
    apply absurd (hSplit.above range hRange)
    apply not_lt.mpr
    exact Range.key_le_iff.mpr (Or.inr
      ⟨hMeets.1, BitVec.le_def.mp hMeets.2.2⟩)
  change (ranges.cutAt spc first last).1 ++
      (ranges.cutAt spc first last).2.1.flatMap
        (Range.pieces spc first last) ++
      (ranges.cutAt spc first last).2.2 = _
  rw [hSplit.parts, List.flatMap_append, List.flatMap_append,
    flatMap_cut_of_not_meets hBefore,
    flatMap_cut_of_meets hSplit.meets,
    flatMap_cut_of_not_meets hAfter]

/- Pieces of ranges that are apart are apart. -/
theorem removeRange
    (hCover : ranges.IsDisjointCover)
    (spc : SpaceId)
    (hProper : first ≤ last) :
    (ranges.removeRange spc first last).IsDisjointCover where
  proper := by
    intro piece hPiece
    rw [hCover.tree_removeRange spc hProper] at hPiece
    rcases List.mem_flatMap.mp hPiece with
      ⟨range, hRange, hMem⟩
    exact BitVec.le_def.mpr (Range.within_of_mem_cut
      (hCover.proper range hRange) hMem).proper
  disjoint := by
    rw [hCover.tree_removeRange spc hProper]
    apply List.pairwise_flatMap.mpr
    constructor
    · exact fun range _ => Range.pairwise_cut hProper
    · apply hCover.disjoint.imp_of_mem
      intro left right hLeft hRight hApart piece hPiece other
        hOther
      have hIn := Range.within_of_mem_cut
        (hCover.proper left hLeft) hPiece
      have hBeyond := Range.within_of_mem_cut
        (hCover.proper right hRight) hOther
      have hUpTo := hIn.last
      have hFrom := hBeyond.first
      rw [hIn.spc, hBeyond.spc]
      rcases hApart with hLt | ⟨hSpace, hBefore⟩
      · exact Or.inl hLt
      · have hGap := BitVec.lt_def.mp hBefore
        exact Or.inr ⟨hSpace, BitVec.lt_def.mpr (by omega)⟩

theorem covers_removeRange_iff
    (hCover : ranges.IsDisjointCover)
    (hProper : first ≤ last)
    {space : SpaceId}
    {offset : BitVec 64} :
    (ranges.removeRange spc first last).Covers space offset ↔
      ranges.Covers space offset ∧
        ¬ (spc = space ∧ first ≤ offset ∧ offset ≤ last) := by
  unfold Covers
  rw [hCover.tree_removeRange spc hProper]
  constructor
  · intro hPiece
    rcases hPiece with ⟨piece, hMem, hIn⟩
    rcases List.mem_flatMap.mp hMem with ⟨range, hRange, hCut⟩
    rcases Range.exists_mem_cut_iff.mp ⟨piece, hCut, hIn⟩ with
      ⟨hRangeIn, hKept⟩
    exact ⟨⟨range, hRange, hRangeIn⟩, hKept⟩
  · intro hOld
    rcases hOld with ⟨⟨range, hRange, hRangeIn⟩, hKept⟩
    rcases Range.exists_mem_cut_iff.mpr ⟨hRangeIn, hKept⟩ with
      ⟨piece, hCut, hIn⟩
    exact ⟨piece, List.mem_flatMap.mpr ⟨range, hRange, hCut⟩,
      hIn⟩

theorem covers_insertRanges_iff
    (hCover : ranges.IsDisjointCover)
    {items : List Range}
    (hItems : ∀ item ∈ items, item.first ≤ item.last)
    {space : SpaceId}
    {offset : BitVec 64} :
    (ranges.insertRanges items).Covers space offset ↔
      ranges.Covers space offset ∨
        ∃ item ∈ items,
          item.spc = space ∧ item.first ≤ offset ∧
            offset ≤ item.last := by
  rcases hCover.insertRanges_spec hItems with
    ⟨hInserted, hEq⟩
  rw [← hInserted.mem_cover_iff, hEq,
    DisjointCover.mem_insertAll_iff, hCover.mem_cover_iff]
  apply or_congr_right
  constructor
  · intro hInterval
    rcases hInterval with ⟨interval, hMem, hPoint⟩
    rcases List.mem_map.mp hMem with ⟨item, hItem, rfl⟩
    exact ⟨item, hItem,
      (Range.mem_span_iff (hItems item hItem)).mp hPoint⟩
  · intro hRange
    rcases hRange with ⟨item, hItem, hIn⟩
    exact ⟨item.span, List.mem_map_of_mem hItem,
      (Range.mem_span_iff (hItems item hItem)).mpr hIn⟩

end IsDisjointCover

end RangeList

end LLDBGhidra

------------------------------------------------------------
-- Runs of Calls
------------------------------------------------------------

namespace LLDBGhidra

/- A call that changes a range list. -/
inductive RangeListCall where
| insertRange :
    (spc : SpaceId) → (first last : BitVec 64) → RangeListCall
| removeRange :
    (spc : SpaceId) → (first last : BitVec 64) → RangeListCall
| merge : (op2 : RangeList) → RangeListCall
deriving DecidableEq, Repr

namespace RangeListCall

def run
    (ranges : RangeList)
    (call : RangeListCall) : RangeList :=
  match call with
  | .insertRange spc first last =>
      ranges.insertRange spc first last
  | .removeRange spc first last =>
      ranges.removeRange spc first last
  | .merge op2 => ranges.merge op2

/- The ranges of the call are proper. -/
def Proper
    (call : RangeListCall) : Prop :=
  match call with
  | .insertRange _ first last => first ≤ last
  | .removeRange _ first last => first ≤ last
  | .merge op2 => op2.IsDisjointCover

/- What the call does to a set of bytes. -/
def effect
    (bytes : Set (SpaceId × BitVec 64))
    (call : RangeListCall) : Set (SpaceId × BitVec 64) :=
  match call with
  | .insertRange spc first last =>
      bytes ∪ {byte | spc = byte.1 ∧ first ≤ byte.2 ∧
        byte.2 ≤ last}
  | .removeRange spc first last =>
      bytes \ {byte | spc = byte.1 ∧ first ≤ byte.2 ∧
        byte.2 ≤ last}
  | .merge op2 => bytes ∪ {byte | op2.Covers byte.1 byte.2}

end RangeListCall

namespace RangeList

/- The bytes of the ranges. -/
def bytes
    (ranges : RangeList) : Set (SpaceId × BitVec 64) :=
  {byte | ranges.Covers byte.1 byte.2}

namespace IsDisjointCover

variable {ranges : RangeList}

/- A call keeps the cover and does its effect to the bytes. -/
theorem call
    (hCover : ranges.IsDisjointCover)
    {call : RangeListCall}
    (hProper : call.Proper) :
    (call.run ranges).IsDisjointCover ∧
      (call.run ranges).bytes =
        RangeListCall.effect ranges.bytes call := by
  cases call with
  | insertRange spc first last =>
      refine ⟨hCover.insertRange spc hProper, ?_⟩
      ext byte
      have hItems :
          ∀ item ∈ [(⟨spc, first, last⟩ : Range)],
            item.first ≤ item.last := by
        intro item hItem
        rcases List.mem_singleton.mp hItem with rfl
        exact hProper
      refine (hCover.covers_insertRanges_iff hItems).trans ?_
      apply or_congr_right
      constructor
      · intro hRange
        rcases hRange with ⟨item, hItem, hIn⟩
        rcases List.mem_singleton.mp hItem with rfl
        exact hIn
      · exact fun hIn => ⟨_, List.mem_singleton_self _, hIn⟩
  | removeRange spc first last =>
      refine ⟨hCover.removeRange spc hProper, ?_⟩
      ext byte
      exact hCover.covers_removeRange_iff hProper
  | merge op2 =>
      have hOther : op2.IsDisjointCover := hProper
      have hItems := hOther.proper
      refine ⟨(hCover.insertRanges_spec hItems).1, ?_⟩
      ext byte
      exact hCover.covers_insertRanges_iff hItems

/-
  After any calls the list is a disjoint cover of the bytes
  that a set would have.
-/
theorem bytes_run
    (calls : List RangeListCall)
    (ranges : RangeList)
    (hCover : ranges.IsDisjointCover)
    (hProper : ∀ call ∈ calls, call.Proper) :
    (calls.foldl RangeListCall.run ranges).IsDisjointCover ∧
      (calls.foldl RangeListCall.run ranges).bytes =
        calls.foldl RangeListCall.effect ranges.bytes := by
  induction calls generalizing ranges with
  | nil => exact ⟨hCover, rfl⟩
  | cons call rest ih =>
      rcases hCover.call (hProper call List.mem_cons_self) with
        ⟨hAfter, hBytes⟩
      rcases ih (call.run ranges) hAfter (fun other hOther =>
          hProper other (List.mem_cons_of_mem _ hOther)) with
        ⟨hRest, hEffect⟩
      exact ⟨hRest, hEffect.trans (by rw [hBytes]; rfl)⟩

/- A hole in a range, and one that follows without a gap. -/
def holeCalls : List RangeListCall :=
  [.insertRange 1 0x1000 0x1fff,
    .removeRange 1 0x1400 0x17ff,
    .merge ⟨[⟨1, 0x2000, 0x27ff⟩]⟩]

theorem empty_isDisjointCover :
    RangeList.empty.IsDisjointCover where
  proper := fun _ hRange => absurd hRange List.not_mem_nil
  disjoint := List.Pairwise.nil

theorem holeCalls_proper :
    ∀ call ∈ holeCalls, call.Proper := by
  intro call hCall
  rcases List.mem_cons.mp hCall with rfl | hCall
  · exact (by decide : (0x1000 : BitVec 64) ≤ 0x1fff)
  rcases List.mem_cons.mp hCall with rfl | hCall
  · exact (by decide : (0x1400 : BitVec 64) ≤ 0x17ff)
  rcases List.mem_singleton.mp hCall with rfl
  refine ⟨?_, List.pairwise_singleton _ _⟩
  intro range hRange
  rcases List.mem_singleton.mp hRange with rfl
  decide

theorem bytes_run_holeCalls :
    (holeCalls.foldl RangeListCall.run .empty).tree =
        [⟨1, 0x1000, 0x13ff⟩, ⟨1, 0x1800, 0x1fff⟩,
          ⟨1, 0x2000, 0x27ff⟩] ∧
      (holeCalls.foldl RangeListCall.run .empty).bytes =
        holeCalls.foldl RangeListCall.effect
          RangeList.empty.bytes :=
  ⟨by decide, (bytes_run holeCalls .empty empty_isDisjointCover
    holeCalls_proper).2⟩

end IsDisjointCover

end RangeList

end LLDBGhidra

------------------------------------------------------------
-- Contiguous Bytes
------------------------------------------------------------

namespace LLDBGhidra

namespace RangeList

/-
  The bytes from the offset to the end of the first range, and
  on through ranges that follow without a gap.
-/
def chainFit
    (spc : SpaceId)
    (maxsize : BitVec 64)
    (tree : List Range)
    (offset sizeres : BitVec 64) : BitVec 64 :=
  match tree with
  | [] => sizeres
  | range :: rest =>
      if range.spc ≠ spc then
        sizeres
      else if offset < range.first then
        sizeres
      else
        let size := sizeres + (range.last + 1 - offset)
        if maxsize ≤ size then
          size
        else
          chainFit spc maxsize rest (range.last + 1) size

/- How many bytes the list has from the address on. -/
def longestFit
    (addr : Address)
    (maxsize : BitVec 64)
    (ranges : RangeList) : BitVec 64 :=
  match addr.base with
  | none => 0
  | some spc =>
      let split := upperBound spc addr.offset ranges.tree
      match split.1.getLast? with
      | none => 0
      | some range =>
          if range.last < addr.offset then
            0
          else
            chainFit spc maxsize (range :: split.2) addr.offset
              0

/- The byte is in one of the ranges. -/
def HasByte
    (tree : List Range)
    (spc : SpaceId)
    (byte : Nat) : Prop :=
  ∃ range ∈ tree,
    range.spc = spc ∧ range.first.toNat ≤ byte ∧
      byte ≤ range.last.toNat

/-
  The bytes of the tree from one on: their number, and why
  there are no more.  They are enough at the end of a range
  only, the first one where they are.
-/
structure FitsFrom
    (tree : List Range)
    (spc : SpaceId)
    (start length enough : Nat) : Prop where
  bound : start + length ≤ 2 ^ 64
  bytes :
    ∀ index < length, HasByte tree spc (start + index)
  ends :
    (enough ≤ length ∧
        ∃ range ∈ tree,
          range.spc = spc ∧
            range.last.toNat + 1 = start + length) ∨
      start + length = 2 ^ 64 ∨
      ¬ HasByte tree spc (start + length)
  first :
    ∀ range ∈ tree, range.spc = spc →
      start ≤ range.last.toNat →
        range.last.toNat + 1 < start + length →
          range.last.toNat + 1 < start + enough

/- Where a chain of ranges may be continued. -/
structure ChainAt
    (tree : List Range)
    (spc : SpaceId)
    (start : Nat) : Prop where
  proper : ∀ range ∈ tree, range.first ≤ range.last
  disjoint :
    tree.Pairwise (fun left right =>
      left.spc < right.spc ∨
        left.spc = right.spc ∧ left.last < right.first)
  head :
    ∀ range ∈ tree.head?, range.spc = spc →
      range.first.toNat ≤ start → start ≤ range.last.toNat
  tail :
    ∀ range ∈ tree.tail,
      toLex (spc, start) < range.key

variable {tree rest : List Range}
variable {range : Range}
variable {spc : SpaceId}
variable {start : Nat}

/- A byte that the first range does not have is in no range. -/
theorem ChainAt.not_hasByte
    (hChain : ChainAt (range :: rest) spc start)
    (hHead : range.spc ≠ spc ∨ start < range.first.toNat) :
    ¬ HasByte (range :: rest) spc start := by
  intro hByte
  rcases hByte with ⟨other, hOther, hSpace, hFrom, _⟩
  rcases List.mem_cons.mp hOther with rfl | hRest
  · rcases hHead with hNe | hLt
    · exact hNe hSpace
    · omega
  · have hBeyond := hChain.tail other hRest
    exact absurd (Range.key_le_iff.mpr
      (Or.inr ⟨hSpace, hFrom⟩)) (not_le.mpr hBeyond)

/- The chain goes on behind its first range. -/
theorem ChainAt.next
    (hChain : ChainAt (range :: rest) spc start)
    (hSpace : range.spc = spc) :
    ChainAt rest spc (range.last.toNat + 1) where
  proper := fun other hOther =>
    hChain.proper other (List.mem_cons_of_mem _ hOther)
  disjoint := (List.pairwise_cons.mp hChain.disjoint).2
  head := by
    intro other hOther hSame hFirst
    have hMem := List.mem_of_mem_head? hOther
    have hProper := BitVec.le_def.mp
      (hChain.proper other (List.mem_cons_of_mem _ hMem))
    rcases (List.pairwise_cons.mp hChain.disjoint).1 other hMem
      with hLt | ⟨_, hApart⟩
    · rw [hSpace, hSame] at hLt
      exact absurd hLt (lt_irrefl _)
    · have hGap := BitVec.lt_def.mp hApart
      omega
  tail := by
    intro other hOther
    cases rest with
    | nil => exact absurd hOther List.not_mem_nil
    | cons second more =>
        have hPairwise := List.pairwise_cons.mp hChain.disjoint
        have hSecond := hPairwise.1 second List.mem_cons_self
        have hOrder :=
          (List.pairwise_cons.mp hPairwise.2).1 other hOther
        have hProper := BitVec.le_def.mp (hChain.proper second
          (List.mem_cons_of_mem _ List.mem_cons_self))
        apply Prod.Lex.toLex_lt_toLex.mpr
        simp only [BitVec.lt_def] at hSecond hOrder
        rcases hSecond with hLt | ⟨hSame, hGap⟩
        · left
          rcases hOrder with hMore | ⟨hEq, _⟩
          · exact hSpace ▸ hLt.trans hMore
          · exact hSpace ▸ hEq ▸ hLt
        · rcases hOrder with hMore | ⟨hEq, hApart⟩
          · left
            exact hSpace ▸ hSame ▸ hMore
          · refine Or.inr
              ⟨hSpace.symm.trans (hSame.trans hEq), ?_⟩
            change range.last.toNat + 1 < other.first.toNat
            omega

/- Ranges of the space after the first one end behind it. -/
theorem ChainAt.last_lt
    (hChain : ChainAt (range :: rest) spc start)
    (hSpace : range.spc = spc)
    {other : Range}
    (hOther : other ∈ rest)
    (hSame : other.spc = spc) :
    range.last.toNat < other.last.toNat := by
  have hProper := BitVec.le_def.mp
    (hChain.proper other (List.mem_cons_of_mem _ hOther))
  rcases (List.pairwise_cons.mp hChain.disjoint).1 other hOther
    with hLt | ⟨_, hApart⟩
  · rw [hSpace, hSame] at hLt
    exact absurd hLt (lt_irrefl _)
  · have hGap := BitVec.lt_def.mp hApart
    omega

theorem FitsFrom.none
    {enough : Nat}
    (hStart : start ≤ 2 ^ 64)
    (hNot : ¬ HasByte tree spc start) :
    FitsFrom tree spc start 0 enough where
  bound := hStart
  bytes := fun _ hIndex => absurd hIndex (Nat.not_lt_zero _)
  ends := Or.inr (Or.inr hNot)
  first := by
    intro range _ _ hFrom hBefore
    omega

/- The bytes of the first range, and those of the others. -/
theorem FitsFrom.cons
    {length enough : Nat}
    (hChain : ChainAt (range :: rest) spc start)
    (hSpace : range.spc = spc)
    (hFirst : range.first.toNat ≤ start)
    (hLast : start ≤ range.last.toNat)
    (hMore : range.last.toNat + 1 < start + enough)
    (hRest :
      FitsFrom rest spc (range.last.toNat + 1) length
        (start + enough - (range.last.toNat + 1))) :
    FitsFrom (range :: rest) spc start
      (range.last.toNat + 1 - start + length) enough := by
  have hBound := hRest.bound
  have hEnd :
      start + (range.last.toNat + 1 - start + length) =
        range.last.toNat + 1 + length := by
    omega
  refine ⟨by omega, ?_, ?_, ?_⟩
  · intro index hIndex
    by_cases hIn : start + index ≤ range.last.toNat
    · exact ⟨range, List.mem_cons_self, hSpace, by omega, hIn⟩
    · rcases hRest.bytes
          (start + index - (range.last.toNat + 1))
          (by omega) with ⟨other, hOther, hSame, hFrom, hTo⟩
      exact ⟨other, List.mem_cons_of_mem _ hOther, hSame,
        by omega, by omega⟩
  · rw [hEnd]
    rcases hRest.ends with
      ⟨hEnough, other, hOther, hStop⟩ | hTop | hNot
    · exact Or.inl ⟨by omega, other,
        List.mem_cons_of_mem _ hOther, hStop⟩
    · exact Or.inr (Or.inl hTop)
    · refine Or.inr (Or.inr ?_)
      intro hByte
      rcases hByte with ⟨other, hOther, hIn⟩
      rcases List.mem_cons.mp hOther with rfl | hMem
      · have hBelow := hIn.2.2
        omega
      · exact hNot ⟨other, hMem, hIn⟩
  · intro other hOther hSame _ hBefore
    rcases List.mem_cons.mp hOther with rfl | hMem
    · exact hMore
    · have hAfter := hChain.last_lt hSpace hMem hSame
      have hEarly := hRest.first other hMem hSame hAfter
        (by omega)
      omega

/- The bytes of the first range are enough, or all there are. -/
theorem FitsFrom.single
    {enough : Nat}
    (hChain : ChainAt (range :: rest) spc start)
    (hSpace : range.spc = spc)
    (hFirst : range.first.toNat ≤ start)
    (hLast : start ≤ range.last.toNat)
    (hEnds :
      enough ≤ range.last.toNat + 1 - start ∨
        range.last.toNat + 1 = 2 ^ 64) :
    FitsFrom (range :: rest) spc start
      (range.last.toNat + 1 - start) enough := by
  have hSmall := range.last.isLt
  refine ⟨by omega, ?_, ?_, ?_⟩
  · intro index hIndex
    exact ⟨range, List.mem_cons_self, hSpace, by omega,
      by omega⟩
  · rcases hEnds with hEnough | hTop
    · exact Or.inl ⟨hEnough, range, List.mem_cons_self,
        hSpace, by omega⟩
    · exact Or.inr (Or.inl (by omega))
  · intro other hOther hSame _ hBefore
    rcases List.mem_cons.mp hOther with rfl | hMem
    · omega
    · have hAfter := hChain.last_lt hSpace hMem hSame
      omega

/- Nothing of the space comes after its last byte of all. -/
theorem chainFit_of_top
    {maxsize offset sizeres : BitVec 64}
    (hChain : ChainAt (range :: rest) spc start)
    (hSpace : range.spc = spc)
    (hTop : range.last.toNat + 1 = 2 ^ 64) :
    chainFit spc maxsize rest offset sizeres = sizeres := by
  cases rest with
  | nil => rfl
  | cons second more =>
      have hOther : second.spc ≠ spc := by
        intro hSame
        rcases (List.pairwise_cons.mp hChain.disjoint).1 second
            List.mem_cons_self with hLt | ⟨_, hApart⟩
        · rw [hSpace, hSame] at hLt
          exact absurd hLt (lt_irrefl _)
        · have hGap := BitVec.lt_def.mp hApart
          have hSmall := second.first.isLt
          omega
      unfold chainFit
      rw [if_pos hOther]

/- The size of the bytes up to the end of a range. -/
theorem add_sizeTo
    {last offset sizeres : BitVec 64}
    {already : Nat}
    (hOffset : offset.toNat = start)
    (hLast : start ≤ last.toNat)
    (hSize : sizeres = BitVec.ofNat 64 already) :
    sizeres + (last + 1 - offset) =
      BitVec.ofNat 64 (already + (last.toNat + 1 - start)) := by
  have hDistance :
      last + 1 - offset =
        BitVec.ofNat 64 (last.toNat + 1 - start) := by
    apply BitVec.eq_of_toNat_eq
    have hOne : (1 : BitVec 64).toNat = 1 := rfl
    have hSmall := last.isLt
    rw [BitVec.toNat_sub, BitVec.toNat_add, BitVec.toNat_ofNat,
      hOne, hOffset]
    omega
  rw [hDistance, hSize, BitVec.ofNat_add]

/-
  The chain counts the bytes from the offset on.  After the
  last byte of all it counts nothing.
-/
theorem chainFit_spec
    {maxsize : BitVec 64}
    (tree : List Range)
    (start : Nat)
    (offset sizeres : BitVec 64)
    (already : Nat)
    (hStart : start < 2 ^ 64)
    (hOffset : offset.toNat = start)
    (hSize : sizeres = BitVec.ofNat 64 already)
    (hAlready : already ≤ start)
    (hChain : ChainAt tree spc start) :
    ∃ length,
      chainFit spc maxsize tree offset sizeres =
          BitVec.ofNat 64 (already + length) ∧
        FitsFrom tree spc start length
          (maxsize.toNat - already) := by
  induction tree generalizing start offset sizeres already with
  | nil =>
      refine ⟨0, hSize, .none hStart.le ?_⟩
      exact fun hByte => absurd hByte.choose_spec.1
        List.not_mem_nil
  | cons range rest ih =>
      unfold chainFit
      by_cases hSpace : range.spc = spc
      · rw [if_neg (not_not.mpr hSpace)]
        by_cases hLt : offset < range.first
        · rw [if_pos hLt]
          refine ⟨0, hSize, .none hStart.le
            (hChain.not_hasByte (Or.inr ?_))⟩
          rw [← hOffset]
          exact BitVec.lt_def.mp hLt
        · rw [if_neg hLt]
          have hFirst : range.first.toNat ≤ start := by
            have hNot := mt BitVec.lt_def.mpr hLt
            omega
          have hLast := hChain.head range rfl hSpace hFirst
          have hTotal := add_sizeTo hOffset hLast hSize
          have hSmall := range.last.isLt
          by_cases hEnough :
              maxsize ≤ sizeres + (range.last + 1 - offset)
          · simp only [if_pos hEnough]
            refine ⟨_, hTotal,
              .single hChain hSpace hFirst hLast (Or.inl ?_)⟩
            have hLe := BitVec.le_def.mp hEnough
            rw [hTotal, BitVec.toNat_ofNat] at hLe
            have hMod := Nat.mod_le
              (already + (range.last.toNat + 1 - start))
              (2 ^ 64)
            omega
          · simp only [if_neg hEnough]
            by_cases hTop : range.last.toNat + 1 = 2 ^ 64
            · rw [chainFit_of_top hChain hSpace hTop]
              exact ⟨_, hTotal,
                .single hChain hSpace hFirst hLast (Or.inr hTop)⟩
            · have hNext :
                  (range.last + 1).toNat =
                    range.last.toNat + 1 := by
                have hOne : (1 : BitVec 64).toNat = 1 := rfl
                rw [BitVec.toNat_add, hOne]
                omega
              rcases ih (range.last.toNat + 1) (range.last + 1)
                  _ _ (by omega) hNext hTotal (by omega)
                  (hChain.next hSpace) with
                ⟨length, hFit, hRest⟩
              refine ⟨_, hFit.trans (congrArg _
                (Nat.add_assoc _ _ _)), ?_⟩
              -- the size so far has not wrapped
              have hMore : already +
                  (range.last.toNat + 1 - start) <
                    maxsize.toNat := by
                have hLess := mt BitVec.le_def.mpr hEnough
                rw [hTotal, BitVec.toNat_ofNat,
                  Nat.mod_eq_of_lt (by omega)] at hLess
                omega
              have hWanted : maxsize.toNat -
                  (already + (range.last.toNat + 1 - start)) =
                    start + (maxsize.toNat - already) -
                      (range.last.toNat + 1) := by
                omega
              rw [hWanted] at hRest
              exact .cons hChain hSpace hFirst hLast (by omega)
                hRest
      · rw [if_pos hSpace]
        exact ⟨0, hSize, .none hStart.le
          (hChain.not_hasByte (Or.inl hSpace))⟩

namespace IsDisjointCover

variable {ranges : RangeList}

/- The ranges up to the bound, and those behind it. -/
theorem tree_eq_upperBound
    (ranges : RangeList)
    (spc : SpaceId)
    (offset : BitVec 64) :
    ranges.tree =
      (upperBound spc offset ranges.tree).1 ++
        (upperBound spc offset ranges.tree).2 :=
  List.takeWhile_append_dropWhile.symm

theorem lt_key_of_mem_upperBound
    (hCover : ranges.IsDisjointCover)
    {offset : BitVec 64}
    (hMem : range ∈ (upperBound spc offset ranges.tree).2) :
    toLex (spc, offset.toNat) < range.key :=
  ((SortedList.mem_dropWhile_le_iff hCover.keySorted _
    range).mp hMem).2

theorem key_le_of_mem_upperBound
    (hCover : ranges.IsDisjointCover)
    {offset : BitVec 64}
    (hMem : range ∈ (upperBound spc offset ranges.tree).1) :
    range.key ≤ toLex (spc, offset.toNat) :=
  ((SortedList.mem_takeWhile_le_iff hCover.keySorted _
    range).mp hMem).2

/- The ranges before the last one up to the bound end before. -/
theorem lastKey_lt_of_upperBound
    (hCover : ranges.IsDisjointCover)
    {offset : BitVec 64}
    {before : List Range}
    (hLow :
      (upperBound spc offset ranges.tree).1 =
        before ++ [range]) :
    ∀ other ∈ before,
      other.lastKey < toLex (spc, offset.toNat) := by
  have hSublist :
      (before ++ [range]).Sublist ranges.tree := by
    rw [← hLow]
    exact List.takeWhile_sublist _
  apply before_below hCover hSublist
  apply hCover.key_le_of_mem_upperBound
  rw [hLow]
  exact List.mem_append_right _ (List.mem_singleton_self _)

/- Only the last range up to the bound may reach the bytes. -/
theorem hasByte_upperBound_iff
    (hCover : ranges.IsDisjointCover)
    {offset : BitVec 64}
    {before : List Range}
    (hLow :
      (upperBound spc offset ranges.tree).1 =
        before ++ [range])
    {byte : Nat}
    (hByte : offset.toNat ≤ byte) :
    HasByte
        (range :: (upperBound spc offset ranges.tree).2)
        spc byte ↔
      HasByte ranges.tree spc byte := by
  have hTree := tree_eq_upperBound ranges spc offset
  rw [hLow, List.append_assoc, List.singleton_append] at hTree
  constructor
  · intro hIn
    rcases hIn with ⟨other, hOther, hHas⟩
    refine ⟨other, ?_, hHas⟩
    rw [hTree]
    exact List.mem_append_right _ hOther
  · intro hIn
    rcases hIn with ⟨other, hOther, hSpace, hFrom, hTo⟩
    rw [hTree] at hOther
    rcases List.mem_append.mp hOther with hBefore | hMem
    · rcases Range.lastKey_lt_iff.mp
          (hCover.lastKey_lt_of_upperBound hLow other hBefore)
        with hLt | ⟨_, hLt⟩
      · exact absurd hSpace (Nat.ne_of_lt hLt)
      · omega
    · exact ⟨other, hMem, hSpace, hFrom, hTo⟩

theorem chainAt_upperBound
    (hCover : ranges.IsDisjointCover)
    {offset : BitVec 64}
    {before : List Range}
    (hLow :
      (upperBound spc offset ranges.tree).1 =
        before ++ [range])
    (hReaches : offset ≤ range.last) :
    ChainAt (range :: (upperBound spc offset ranges.tree).2)
      spc offset.toNat := by
  have hTree := tree_eq_upperBound ranges spc offset
  rw [hLow, List.append_assoc, List.singleton_append] at hTree
  have hSublist :
      (range ::
        (upperBound spc offset ranges.tree).2).Sublist
        ranges.tree := by
    conv => rhs; rw [hTree]
    exact List.sublist_append_right _ _
  refine ⟨?_, hCover.disjoint.sublist hSublist, ?_, ?_⟩
  · exact fun other hOther =>
      hCover.proper other (hSublist.subset hOther)
  · intro other hOther _ _
    rcases Option.some.inj hOther with rfl
    exact BitVec.le_def.mp hReaches
  · exact fun other hOther =>
      hCover.lt_key_of_mem_upperBound hOther

/- A byte that no range up to the bound reaches is missing. -/
theorem not_hasByte_of_upperBound
    (hCover : ranges.IsDisjointCover)
    {offset : BitVec 64}
    (hLow :
      ∀ other ∈ (upperBound spc offset ranges.tree).1,
        other.lastKey < toLex (spc, offset.toNat) ∨
          other.last < offset) :
    ¬ HasByte ranges.tree spc offset.toNat := by
  intro hByte
  rcases hByte with ⟨other, hOther, hSpace, hFrom, hTo⟩
  rw [tree_eq_upperBound ranges spc offset] at hOther
  rcases List.mem_append.mp hOther with hMem | hMem
  · rcases hLow other hMem with hBelow | hLt
    · rcases Range.lastKey_lt_iff.mp hBelow with
        hLt | ⟨_, hLt⟩
      · exact absurd hSpace (Nat.ne_of_lt hLt)
      · omega
    · have hEnd := BitVec.lt_def.mp hLt
      omega
  · exact absurd (Range.key_le_iff.mpr
      (Or.inr ⟨hSpace, hFrom⟩))
      (not_le.mpr (hCover.lt_key_of_mem_upperBound hMem))

/-
  The bytes from an address on, up to one that is missing, to
  the end of the space or to the first end of a range where
  they are enough.  All bytes of a space of 64-bit offsets
  count as none.
-/
theorem longestFit_exact
    (ranges : RangeList)
    (spc : SpaceId)
    (offset maxsize : BitVec 64)
    (hCover : ranges.IsDisjointCover) :
    ∃ length,
      ranges.longestFit (.ofSpace spc offset) maxsize =
          BitVec.ofNat 64 length ∧
        FitsFrom ranges.tree spc offset.toNat length
          maxsize.toNat := by
  have hSmall := offset.isLt
  unfold longestFit Address.ofSpace
  cases hLast : (upperBound spc offset ranges.tree).1.getLast?
    with
  | none =>
      have hEmpty := List.getLast?_eq_none_iff.mp hLast
      simp only [hLast]
      refine ⟨0, rfl, .none hSmall.le
        (hCover.not_hasByte_of_upperBound ?_)⟩
      rw [hEmpty]
      exact fun _ hOther => absurd hOther List.not_mem_nil
  | some range =>
      rcases List.getLast?_eq_some_iff.mp hLast with
        ⟨before, hLow⟩
      simp only [hLast]
      by_cases hLt : range.last < offset
      · rw [if_pos hLt]
        refine ⟨0, rfl, .none hSmall.le
          (hCover.not_hasByte_of_upperBound ?_)⟩
        intro other hOther
        rw [hLow] at hOther
        rcases List.mem_append.mp hOther with hBefore | hEq
        · exact Or.inl (hCover.lastKey_lt_of_upperBound hLow
            other hBefore)
        · rcases List.mem_singleton.mp hEq with rfl
          exact Or.inr hLt
      · rw [if_neg hLt]
        rcases @chainFit_spec spc maxsize
            (range :: (upperBound spc offset ranges.tree).2)
            offset.toNat offset 0 0 hSmall rfl rfl
            (Nat.zero_le _) (hCover.chainAt_upperBound hLow
              (BitVec.not_lt.mp hLt)) with
          ⟨length, hFit, hFits⟩
        rw [Nat.zero_add] at hFit
        have hRanges : ∀ other ∈ ranges.tree,
            other.spc = spc →
              offset.toNat ≤ other.last.toNat →
                other ∈ range ::
                  (upperBound spc offset ranges.tree).2 := by
          intro other hOther hSpace hFrom
          rw [tree_eq_upperBound ranges spc offset, hLow,
            List.append_assoc] at hOther
          rcases List.mem_append.mp hOther with hBefore | hMem
          · rcases Range.lastKey_lt_iff.mp
                (hCover.lastKey_lt_of_upperBound hLow other
                  hBefore) with hLess | ⟨_, hLess⟩
            · exact absurd hSpace (Nat.ne_of_lt hLess)
            · omega
          · exact hMem
        have hInTree : ∀ other ∈ range ::
            (upperBound spc offset ranges.tree).2,
              other ∈ ranges.tree := by
          intro other hOther
          rw [tree_eq_upperBound ranges spc offset, hLow,
            List.append_assoc]
          exact List.mem_append_right _ hOther
        refine ⟨length, hFit, hFits.bound, ?_, ?_, ?_⟩
        · intro index hIndex
          exact (hCover.hasByte_upperBound_iff hLow
            (Nat.le_add_right _ _)).mp
              (hFits.bytes index hIndex)
        · rcases hFits.ends with
            ⟨hEnough, other, hOther, hStop⟩ | hTop | hNot
          · exact Or.inl
              ⟨hEnough, other, hInTree other hOther, hStop⟩
          · exact Or.inr (Or.inl hTop)
          · exact Or.inr (Or.inr (fun hByte => hNot
              ((hCover.hasByte_upperBound_iff hLow
                (Nat.le_add_right _ _)).mpr hByte)))
        · intro other hOther hSpace hFrom
          exact hFits.first other
            (hRanges other hOther hSpace hFrom) hSpace hFrom

/- Two ranges without a gap; only both of them are enough. -/
def chainedRanges : RangeList :=
  ⟨[⟨1, 0x1800, 0x1fff⟩, ⟨1, 0x2000, 0x27ff⟩]⟩

theorem chainedRanges_isDisjointCover :
    chainedRanges.IsDisjointCover where
  proper := by decide
  disjoint := by decide

theorem longestFit_exact_chainedRanges :
    chainedRanges.longestFit (.ofSpace 1 0x1c00) 0x401 =
        0xc00 ∧
      ∃ length,
        chainedRanges.longestFit (.ofSpace 1 0x1c00) 0x401 =
            BitVec.ofNat 64 length ∧
          FitsFrom chainedRanges.tree 1 0x1c00 length 0x401 :=
  ⟨by decide, longestFit_exact chainedRanges 1 0x1c00 0x401
    chainedRanges_isDisjointCover⟩

end IsDisjointCover

end RangeList

end LLDBGhidra
