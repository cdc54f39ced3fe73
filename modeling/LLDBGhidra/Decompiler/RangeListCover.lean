import LLDBGhidra.Decompiler.Address
import LLDBGhidra.Library.DisjointCover
import LLDBGhidra.Library.SortedList

/-
  Range lists that are disjoint covers, and their refinement
  of `DisjointCover`: `insertRange` inserts an interval of
  keys.

  Main declarations:
    * `Range.span`
    * `RangeList.Covers`
    * `RangeList.IsDisjointCover`
    * `RangeList.IsDisjointCover.cover`
    * `RangeList.IsDisjointCover.insertRange`
    * `RangeList.IsDisjointCover.cover_insertRange`
-/

------------------------------------------------------------
-- Ranges as Intervals of Keys
------------------------------------------------------------

namespace LLDBGhidra

namespace Range

/- The key of the last byte. -/
def lastKey
    (range : Range) : Nat ×ₗ Nat :=
  toLex (range.spc, range.last.toNat)

/- The keys of the bytes of a range that ends where it starts
   or later. -/
def span
    (range : Range) : NonemptyInterval (Nat ×ₗ Nat) :=
  ⟨(range.key, range.key ⊔ range.lastKey), le_sup_left⟩

theorem fst_span
    (range : Range) :
    range.span.fst = range.key :=
  rfl

theorem key_le_iff
    {range : Range}
    {space : SpaceId}
    {offset : Nat} :
    range.key ≤ toLex (space, offset) ↔
      range.spc < space ∨
        range.spc = space ∧ range.first.toNat ≤ offset :=
  Prod.Lex.toLex_le_toLex

theorem lastKey_lt_iff
    {range : Range}
    {space : SpaceId}
    {offset : Nat} :
    range.lastKey < toLex (space, offset) ↔
      range.spc < space ∨
        range.spc = space ∧ range.last.toNat < offset :=
  Prod.Lex.toLex_lt_toLex

theorem snd_span
    {range : Range}
    (hProper : range.first ≤ range.last) :
    range.span.snd = range.lastKey := by
  apply sup_eq_right.mpr
  exact key_le_iff.mpr (Or.inr ⟨rfl, BitVec.le_def.mp hProper⟩)

/- The bytes of a range are those of its space in between. -/
theorem mem_span_iff
    {range : Range}
    (hProper : range.first ≤ range.last)
    {space : SpaceId}
    {offset : BitVec 64} :
    toLex (space, offset.toNat) ∈ range.span ↔
      range.spc = space ∧ range.first ≤ offset ∧
        offset ≤ range.last := by
  rw [NonemptyInterval.mem_def, fst_span, snd_span hProper,
    key_le_iff, BitVec.le_def, BitVec.le_def]
  have hHigh :
      toLex (space, offset.toNat) ≤ range.lastKey ↔
        space < range.spc ∨
          space = range.spc ∧
            offset.toNat ≤ range.last.toNat :=
    Prod.Lex.toLex_le_toLex
  rw [hHigh]
  constructor
  · rintro ⟨hLow | ⟨hSpace, hLow⟩, hHigh | ⟨hEq, hHigh⟩⟩
    · exact absurd hHigh (Nat.lt_asymm hLow)
    · exact absurd hEq.symm (Nat.ne_of_lt hLow)
    · exact absurd hSpace.symm (Nat.ne_of_lt hHigh)
    · exact ⟨hSpace, hLow, hHigh⟩
  · rintro ⟨hSpace, hLow, hHigh⟩
    exact ⟨Or.inr ⟨hSpace, hLow⟩,
      Or.inr ⟨hSpace.symm, hHigh⟩⟩

/- Ranges with the same keys are equal. -/
theorem eq_of_span_eq
    {left right : Range}
    (hLeft : left.first ≤ left.last)
    (hRight : right.first ≤ right.last)
    (hSpan : left.span = right.span) :
    left = right := by
  have hFirst : left.key = right.key :=
    congrArg (fun interval => interval.fst) hSpan
  have hLast : left.lastKey = right.lastKey := by
    rw [← snd_span hLeft, ← snd_span hRight, hSpan]
  rcases Prod.mk.inj (toLex.injective hFirst) with
    ⟨hSpace, hStart⟩
  rcases Prod.mk.inj (toLex.injective hLast) with ⟨_, hStop⟩
  rcases left with ⟨leftSpace, leftFirst, leftLast⟩
  rcases right with ⟨rightSpace, rightFirst, rightLast⟩
  have hSame : leftSpace = rightSpace := hSpace
  subst hSame
  have hSame : leftFirst = rightFirst :=
    BitVec.eq_of_toNat_eq hStart
  subst hSame
  have hSame : leftLast = rightLast := BitVec.eq_of_toNat_eq hStop
  subst hSame
  rfl

/- Ranges of different spaces do not meet. -/
theorem not_meets_of_space_ne
    {left right : Range}
    (hLeft : left.first ≤ left.last)
    (hRight : right.first ≤ right.last)
    (hSpace : left.spc ≠ right.spc) :
    ¬ DisjointCover.Meets left.span right.span := by
  rintro ⟨hBefore, hAfter⟩
  unfold DisjointCover.Precedes at hBefore hAfter
  rw [snd_span hLeft, fst_span] at hBefore
  rw [snd_span hRight, fst_span] at hAfter
  rcases Nat.lt_or_gt_of_ne hSpace with hLt | hGt
  · exact hBefore (lastKey_lt_iff.mpr (Or.inl hLt))
  · exact hAfter (lastKey_lt_iff.mpr (Or.inl hGt))

/- The smaller start is not behind the larger end. -/
theorem joined_proper
    (range : Range)
    {first last : BitVec 64}
    (hProper : first ≤ last) :
    (if range.first < first then range.first else first) ≤
      (if last < range.last then range.last else last) := by
  have hFirst :
      (if range.first < first then range.first else first) ≤
        first := by
    split
    · exact BitVec.le_of_lt ‹_›
    · exact BitVec.le_refl _
  have hLast :
      last ≤
        (if last < range.last then range.last else last) := by
    split
    · exact BitVec.le_of_lt ‹_›
    · exact BitVec.le_refl _
  exact BitVec.le_trans hFirst (BitVec.le_trans hProper hLast)

/- The join of two ranges of one space. -/
theorem span_sup
    {range : Range}
    {first last : BitVec 64}
    (hRange : range.first ≤ range.last)
    (hProper : first ≤ last) :
    range.span ⊔ (⟨range.spc, first, last⟩ : Range).span =
      (⟨range.spc,
        if range.first < first then range.first else first,
        if last < range.last then range.last else last⟩ :
          Range).span := by
  have hKey : ∀ {start other : BitVec 64},
      (toLex (range.spc, start.toNat) : Nat ×ₗ Nat) ≤
          toLex (range.spc, other.toNat) ↔ start ≤ other := by
    intro start other
    rw [Prod.Lex.toLex_le_toLex, BitVec.le_def]
    simp
  apply NonemptyInterval.ext
  apply Prod.ext
  · rw [NonemptyInterval.fst_sup, fst_span, fst_span]
    by_cases hFirst : range.first < first
    · rw [if_pos hFirst]
      exact inf_eq_left.mpr
        (hKey.mpr (BitVec.le_of_lt hFirst))
    · rw [if_neg hFirst]
      exact inf_eq_right.mpr
        (hKey.mpr (BitVec.not_lt.mp hFirst))
  · have hNew :
        (⟨range.spc, first, last⟩ : Range).span.snd =
          toLex (range.spc, last.toNat) :=
      snd_span hProper
    rw [NonemptyInterval.snd_sup, snd_span hRange, hNew,
      snd_span (joined_proper range hProper)]
    by_cases hLast : last < range.last
    · rw [if_pos hLast]
      exact sup_eq_left.mpr (hKey.mpr (BitVec.le_of_lt hLast))
    · rw [if_neg hLast]
      exact sup_eq_right.mpr
        (hKey.mpr (BitVec.not_lt.mp hLast))

end Range

end LLDBGhidra

------------------------------------------------------------
-- Disjoint Covers
------------------------------------------------------------

namespace LLDBGhidra

namespace RangeList

/- Is the offset of the space in a range of the list? -/
def Covers
    (ranges : RangeList)
    (space : SpaceId)
    (offset : BitVec 64) : Prop :=
  ∃ range ∈ ranges.tree,
    range.spc = space ∧ range.first ≤ offset ∧
      offset ≤ range.last

/-
  The ranges are not empty, and each one ends before the next
  one starts.
-/
structure IsDisjointCover
    (ranges : RangeList) : Prop where
  proper : ∀ range ∈ ranges.tree, range.first ≤ range.last
  disjoint :
    ranges.tree.Pairwise (fun left right =>
      left.spc < right.spc ∨
        left.spc = right.spc ∧ left.last < right.first)

namespace IsDisjointCover

variable {ranges : RangeList}

theorem precedes_of_apart
    {left right : Range}
    (hProper : left.first ≤ left.last) :
    DisjointCover.Precedes left.span right.span ↔
      left.spc < right.spc ∨
        left.spc = right.spc ∧ left.last < right.first := by
  unfold DisjointCover.Precedes
  rw [Range.snd_span hProper, Range.fst_span, BitVec.lt_def]
  exact Range.lastKey_lt_iff

theorem pairwise_span
    (hCover : ranges.IsDisjointCover) :
    (ranges.tree.map Range.span).Pairwise
      DisjointCover.Precedes := by
  apply List.pairwise_map.mpr
  apply hCover.disjoint.imp_of_mem
  intro left right hLeft _ hApart
  exact (precedes_of_apart (hCover.proper left hLeft)).mpr hApart

/- The intervals of keys of the ranges. -/
def cover
    (hCover : ranges.IsDisjointCover) :
    DisjointCover (Nat ×ₗ Nat) :=
  ⟨ranges.tree.map Range.span, hCover.pairwise_span⟩

end IsDisjointCover

end RangeList

end LLDBGhidra

------------------------------------------------------------
-- Insertion into a Disjoint Cover
------------------------------------------------------------

namespace LLDBGhidra

namespace RangeList

namespace IsDisjointCover

variable {ranges : RangeList}

theorem keySorted
    (hCover : ranges.IsDisjointCover) :
    SortedList.KeySorted Range.key ranges.tree := by
  apply hCover.disjoint.imp_of_mem
  intro left right hLeft _ hApart
  have hPrecedes :=
    (precedes_of_apart (hCover.proper left hLeft)).mpr hApart
  exact (left.span.fst_le_snd.trans hPrecedes.le)

/- What lies below the new range, meets it and lies above. -/
structure Split
    (tree : List Range)
    (spc : SpaceId)
    (first last : BitVec 64)
    (before met after : List Range) : Prop where
  parts : tree = before ++ met ++ after
  below :
    ∀ range ∈ before, range.lastKey < toLex (spc, first.toNat)
  meets :
    ∀ range ∈ met,
      range.spc = spc ∧ first ≤ range.last ∧ range.first ≤ last
  above :
    ∀ range ∈ after, toLex (spc, last.toNat) < range.key

/- The ranges between the bounds start in the new range. -/
private theorem window_meets
    (hCover : ranges.IsDisjointCover)
    {spc : SpaceId}
    {first last : BitVec 64}
    {range : Range}
    (hMem : range ∈ ranges.tree)
    (hLow : toLex (spc, first.toNat) < range.key)
    (hHigh : range.key ≤ toLex (spc, last.toNat)) :
    range.spc = spc ∧ first ≤ range.last ∧
      range.first ≤ last := by
  have hProper :=
    BitVec.le_def.mp (hCover.proper range hMem)
  rcases Range.key_le_iff.mp hHigh with hBelow | ⟨hSpace, hStart⟩
  · exact absurd (Range.key_le_iff.mpr (Or.inl hBelow))
      (not_le.mpr hLow)
  · have hAfter : first.toNat < range.first.toNat := by
      by_contra hNot
      exact absurd
        (Range.key_le_iff.mpr
          (Or.inr ⟨hSpace, Nat.le_of_not_lt hNot⟩))
        (not_le.mpr hLow)
    exact ⟨hSpace,
      BitVec.le_def.mpr (hAfter.le.trans hProper),
      BitVec.le_def.mpr hStart⟩

/- The ranges before one that starts at `first` or below. -/
theorem before_below
    (hCover : ranges.IsDisjointCover)
    {before : List Range}
    {range : Range}
    {bound : Nat ×ₗ Nat}
    (hSublist : (before ++ [range]).Sublist ranges.tree)
    (hBound : range.key ≤ bound) :
    ∀ other ∈ before, other.lastKey < bound := by
  intro other hOther
  have hPairwise := hCover.disjoint.sublist hSublist
  have hApart := (List.pairwise_append.mp hPairwise).2.2 other
    hOther range (List.mem_singleton_self _)
  have hProper : other.first ≤ other.last :=
    hCover.proper other
      (hSublist.subset (List.mem_append_left _ hOther))
  have hPrecedes := (precedes_of_apart hProper).mpr hApart
  unfold DisjointCover.Precedes at hPrecedes
  rw [Range.snd_span hProper] at hPrecedes
  exact hPrecedes.trans_le hBound

/- The ranges up to the bound of `first`, and those beyond. -/
theorem split_of_low
    (hCover : ranges.IsDisjointCover)
    {spc : SpaceId}
    {first last : BitVec 64}
    {before candidate : List Range}
    (hLow :
      (upperBound spc first ranges.tree).1 =
        before ++ candidate)
    (hBelow :
      ∀ range ∈ before,
        range.lastKey < toLex (spc, first.toNat))
    (hCandidate :
      ∀ range ∈ candidate,
        range.spc = spc ∧ first ≤ range.last ∧
          range.first ≤ last) :
    Split ranges.tree spc first last before
      (candidate ++
        (upperBound spc last
          (upperBound spc first ranges.tree).2).1)
      (upperBound spc last
        (upperBound spc first ranges.tree).2).2 := by
  have hSorted := hCover.keySorted
  have hHighSorted :=
    hSorted.of_sublist (List.dropWhile_sublist
      (fun range => range.key ≤ toLex (spc, first.toNat)))
  refine ⟨?_, hBelow, ?_, ?_⟩
  · have hHigh :
        (upperBound spc last
            (upperBound spc first ranges.tree).2).1 ++
            (upperBound spc last
              (upperBound spc first ranges.tree).2).2 =
          (upperBound spc first ranges.tree).2 :=
      List.takeWhile_append_dropWhile
    rw [List.append_assoc, List.append_assoc, hHigh,
      ← List.append_assoc, ← hLow]
    exact List.takeWhile_append_dropWhile.symm
  · intro range hRange
    rcases List.mem_append.mp hRange with hMem | hInner
    · exact hCandidate range hMem
    · rcases
          (SortedList.mem_takeWhile_le_iff hHighSorted _
            range).mp hInner with
        ⟨hBeyond, hUpTo⟩
      rcases
          (SortedList.mem_dropWhile_le_iff hSorted _ range).mp
            hBeyond with
        ⟨hMem, hAbove⟩
      exact window_meets hCover hMem hAbove hUpTo
  · intro range hRange
    exact ((SortedList.mem_dropWhile_le_iff hHighSorted _
      range).mp hRange).2

/-
  The range before the upper bound of `first` is the only one
  below it that may reach it.
-/
theorem exists_split
    (hCover : ranges.IsDisjointCover)
    (spc : SpaceId)
    {first last : BitVec 64}
    (hProper : first ≤ last) :
    ∃ before met after,
      Split ranges.tree spc first last before met after ∧
        (ranges.insertRange spc first last).tree =
          before ++
            ⟨spc,
              met.foldl
                (fun start range =>
                  if range.first < start then range.first
                  else start)
                first,
              met.foldl
                (fun stop range =>
                  if stop < range.last then range.last
                  else stop)
                last⟩ :: after := by
  have hLowSublist :
      ((upperBound spc first ranges.tree).1).Sublist
        ranges.tree :=
    List.takeWhile_sublist _
  cases hLast : (upperBound spc first ranges.tree).1.getLast?
    with
  | none =>
      have hEmpty := List.getLast?_eq_none_iff.mp hLast
      refine ⟨[], [] ++ _, _,
        hCover.split_of_low hEmpty ?_ ?_, ?_⟩
      · exact fun range hRange => absurd hRange List.not_mem_nil
      · exact fun range hRange => absurd hRange List.not_mem_nil
      · simp only [insertRange, hEmpty, List.getLast?_nil,
          Option.toList_none, List.filter_nil]
  | some range =>
      rcases List.getLast?_eq_some_iff.mp hLast with
        ⟨before, hLow⟩
      rw [hLow] at hLowSublist
      have hMem :
          range ∈ (upperBound spc first ranges.tree).1 := by
        rw [hLow]
        exact List.mem_append_right _ (List.mem_singleton_self _)
      have hBound : range.key ≤ toLex (spc, first.toNat) :=
        ((SortedList.mem_takeWhile_le_iff hCover.keySorted _
          range).mp hMem).2
      have hBelow := before_below hCover hLowSublist hBound
      by_cases hReaches :
          range.spc = spc ∧ first ≤ range.last
      · refine ⟨before, [range] ++ _, _,
          hCover.split_of_low hLow hBelow ?_, ?_⟩
        · intro other hOther
          rcases List.mem_singleton.mp hOther with rfl
          refine ⟨hReaches.1, hReaches.2, ?_⟩
          rcases Range.key_le_iff.mp hBound with
            hLt | ⟨_, hStart⟩
          · exact absurd hReaches.1 (Nat.ne_of_lt hLt)
          · exact BitVec.le_trans
              (BitVec.le_def.mpr hStart) hProper
        · simp only [insertRange, hLow, List.getLast?_concat,
            if_pos hReaches, List.dropLast_concat,
            Option.toList_some, List.filter_cons,
            decide_eq_true hReaches, if_true, List.filter_nil]
      · refine ⟨before ++ [range], [] ++ _, _,
          hCover.split_of_low
            (hLow.trans (List.append_nil _).symm) ?_ ?_, ?_⟩
        · intro other hOther
          rcases List.mem_append.mp hOther with hIn | hEq
          · exact hBelow other hIn
          · rcases List.mem_singleton.mp hEq with rfl
            rcases Range.key_le_iff.mp hBound with
              hLt | ⟨hSpace, _⟩
            · exact Range.lastKey_lt_iff.mpr (Or.inl hLt)
            · refine Range.lastKey_lt_iff.mpr
                (Or.inr ⟨hSpace, ?_⟩)
              exact BitVec.lt_def.mp (BitVec.not_le.mp
                (fun hLe => hReaches ⟨hSpace, hLe⟩))
        · exact fun other hOther =>
            absurd hOther List.not_mem_nil
        · simp only [insertRange, hLow, List.getLast?_concat,
            if_neg hReaches, Option.toList_some,
            List.filter_cons, decide_eq_false hReaches,
            Bool.false_eq_true, if_false, List.filter_nil]

end IsDisjointCover

end RangeList

end LLDBGhidra

------------------------------------------------------------
-- Refinement
------------------------------------------------------------

namespace LLDBGhidra

namespace RangeList

namespace IsDisjointCover

variable {ranges : RangeList}

/- The bounds of the new range are those of the join. -/
private theorem span_joined
    {met : List Range}
    {spc : SpaceId}
    {first last : BitVec 64}
    (hMet :
      ∀ range ∈ met,
        range.spc = spc ∧ range.first ≤ range.last)
    (hProper : first ≤ last) :
    met.foldl
        (fun start range =>
          if range.first < start then range.first else start)
        first ≤
      met.foldl
        (fun stop range =>
          if stop < range.last then range.last else stop)
        last ∧
      (⟨spc,
        met.foldl
          (fun start range =>
            if range.first < start then range.first else start)
          first,
        met.foldl
          (fun stop range =>
            if stop < range.last then range.last else stop)
          last⟩ : Range).span =
        (met.map Range.span).foldl
          (fun joined old => old ⊔ joined)
          (⟨spc, first, last⟩ : Range).span := by
  induction met generalizing first last with
  | nil => exact ⟨hProper, rfl⟩
  | cons range met ih =>
      rcases hMet range List.mem_cons_self with ⟨hSpace, hRange⟩
      have hRest :
          ∀ other ∈ met,
            other.spc = spc ∧ other.first ≤ other.last :=
        fun other hOther =>
          hMet other (List.mem_cons_of_mem _ hOther)
      have hJoined := ih hRest
        (Range.joined_proper range hProper)
      refine ⟨hJoined.1, hJoined.2.trans ?_⟩
      rw [List.map_cons, List.foldl_cons, ← hSpace,
        Range.span_sup hRange hProper]

/- The intervals of a split precede, meet and follow the new
   one. -/
private theorem precedes_of_split
    {tree before met after : List Range}
    {spc : SpaceId}
    {first last : BitVec 64}
    (hSplit : Split tree spc first last before met after)
    (hTree : ∀ range ∈ tree, range.first ≤ range.last) :
    ∀ interval ∈ before.map Range.span,
      DisjointCover.Precedes interval
        (⟨spc, first, last⟩ : Range).span := by
  intro interval hInterval
  rcases List.mem_map.mp hInterval with ⟨range, hRange, rfl⟩
  have hMem : range ∈ tree := by
    rw [hSplit.parts]
    exact List.mem_append_left _ (List.mem_append_left _ hRange)
  unfold DisjointCover.Precedes
  rw [Range.snd_span (hTree range hMem)]
  exact hSplit.below range hRange

private theorem meets_of_split
    {tree before met after : List Range}
    {spc : SpaceId}
    {first last : BitVec 64}
    (hSplit : Split tree spc first last before met after)
    (hTree : ∀ range ∈ tree, range.first ≤ range.last)
    (hProper : first ≤ last) :
    ∀ interval ∈ met.map Range.span,
      DisjointCover.Meets interval
        (⟨spc, first, last⟩ : Range).span := by
  intro interval hInterval
  rcases List.mem_map.mp hInterval with ⟨range, hRange, rfl⟩
  have hMem : range ∈ tree := by
    rw [hSplit.parts]
    exact List.mem_append_left _ (List.mem_append_right _ hRange)
  rcases hSplit.meets range hRange with
    ⟨hSpace, hReaches, hStarts⟩
  have hNew :
      (⟨spc, first, last⟩ : Range).span.snd =
        toLex (spc, last.toNat) :=
    Range.snd_span hProper
  constructor
  · unfold DisjointCover.Precedes
    rw [Range.snd_span (hTree range hMem)]
    intro hBelow
    rcases Range.lastKey_lt_iff.mp hBelow with hLt | ⟨_, hLt⟩
    · exact Nat.ne_of_lt hLt hSpace
    · exact absurd (BitVec.lt_def.mpr hLt)
        (BitVec.not_lt.mpr hReaches)
  · unfold DisjointCover.Precedes
    rw [hNew]
    exact not_lt.mpr (Range.key_le_iff.mpr
      (Or.inr ⟨hSpace, BitVec.le_def.mp hStarts⟩))

private theorem follows_of_split
    {tree before met after : List Range}
    {spc : SpaceId}
    {first last : BitVec 64}
    (hSplit : Split tree spc first last before met after)
    (hProper : first ≤ last) :
    ∀ interval ∈ after.map Range.span,
      DisjointCover.Precedes
        (⟨spc, first, last⟩ : Range).span interval := by
  intro interval hInterval
  rcases List.mem_map.mp hInterval with ⟨range, hRange, rfl⟩
  have hNew :
      (⟨spc, first, last⟩ : Range).span.snd =
        toLex (spc, last.toNat) :=
    Range.snd_span hProper
  unfold DisjointCover.Precedes
  rw [hNew]
  exact hSplit.above range hRange

/- The ranges of the new list are proper, and its intervals
   are those of the insertion. -/
private theorem insertRange_spec
    (hCover : ranges.IsDisjointCover)
    (spc : SpaceId)
    {first last : BitVec 64}
    (hProper : first ≤ last) :
    (∀ range ∈ (ranges.insertRange spc first last).tree,
      range.first ≤ range.last) ∧
      (ranges.insertRange spc first last).tree.map Range.span =
        DisjointCover.insertInterval
          (⟨spc, first, last⟩ : Range).span
          (ranges.tree.map Range.span) := by
  rcases hCover.exists_split spc hProper with
    ⟨before, met, after, hSplit, hTree⟩
  have hOld : ∀ range ∈ before ++ met ++ after,
      range.first ≤ range.last := by
    rw [← hSplit.parts]
    exact hCover.proper
  have hJoined := span_joined
    (fun range hRange =>
      ⟨(hSplit.meets range hRange).1, hOld range
        (List.mem_append_left _
          (List.mem_append_right _ hRange))⟩)
    hProper
  rw [hTree]
  constructor
  · intro range hRange
    rcases List.mem_append.mp hRange with hBefore | hRest
    · exact hOld range
        (List.mem_append_left _ (List.mem_append_left _ hBefore))
    · rcases List.mem_cons.mp hRest with rfl | hAfter
      · exact hJoined.1
      · exact hOld range (List.mem_append_right _ hAfter)
  · have hPairwise := hCover.pairwise_span
    rw [hSplit.parts, List.map_append, List.map_append]
      at hPairwise
    have hInsert := DisjointCover.insertInterval_split hPairwise
      (precedes_of_split hSplit hCover.proper)
      (meets_of_split hSplit hCover.proper hProper)
      (follows_of_split hSplit hProper)
    rw [hSplit.parts, List.map_append, List.map_append,
      List.map_append, hInsert, List.map_cons, hJoined.2]

theorem of_pairwise_span
    (hProper : ∀ range ∈ ranges.tree, range.first ≤ range.last)
    (hSpans : (ranges.tree.map Range.span).Pairwise
      DisjointCover.Precedes) :
    ranges.IsDisjointCover := by
  refine ⟨hProper, ?_⟩
  apply (List.pairwise_map.mp hSpans).imp_of_mem
  intro left right hLeft _ hPrecedes
  exact (precedes_of_apart (hProper left hLeft)).mp hPrecedes

theorem insertRange
    (hCover : ranges.IsDisjointCover)
    {first last : BitVec 64}
    (spc : SpaceId)
    (hProper : first ≤ last) :
    (ranges.insertRange spc first last).IsDisjointCover := by
  rcases hCover.insertRange_spec spc hProper with
    ⟨hRanges, hSpans⟩
  refine of_pairwise_span hRanges ?_
  rw [hSpans]
  exact DisjointCover.pairwise_insertInterval _
    hCover.pairwise_span

theorem cover_insertRange
    (hCover : ranges.IsDisjointCover)
    {spc : SpaceId}
    {first last : BitVec 64}
    (hProper : first ≤ last) :
    (hCover.insertRange spc hProper).cover =
      hCover.cover.insert
        (⟨spc, first, last⟩ : Range).span := by
  unfold cover DisjointCover.insert
  simp only [(hCover.insertRange_spec spc hProper).2]

end IsDisjointCover

end RangeList

end LLDBGhidra

------------------------------------------------------------
-- Inserting Many Ranges
------------------------------------------------------------

namespace LLDBGhidra

namespace RangeList

/- Insert the ranges one after the other. -/
def insertRanges
    (items : List Range)
    (ranges : RangeList) : RangeList :=
  items.foldl
    (fun ranges item =>
      ranges.insertRange item.spc item.first item.last)
    ranges

namespace IsDisjointCover

variable {ranges others : RangeList}

theorem mem_cover_iff
    (hCover : ranges.IsDisjointCover)
    {space : SpaceId}
    {offset : BitVec 64} :
    toLex (space, offset.toNat) ∈ hCover.cover ↔
      ranges.Covers space offset := by
  constructor
  · rintro ⟨interval, hInterval, hPoint⟩
    rcases List.mem_map.mp hInterval with ⟨range, hRange, rfl⟩
    exact ⟨range, hRange,
      (Range.mem_span_iff (hCover.proper range hRange)).mp
        hPoint⟩
  · rintro ⟨range, hRange, hPoint⟩
    exact ⟨range.span, List.mem_map_of_mem hRange,
      (Range.mem_span_iff (hCover.proper range hRange)).mpr
        hPoint⟩

theorem span_mem_cover_iff
    (hCover : ranges.IsDisjointCover)
    {range : Range}
    (hProper : range.first ≤ range.last) :
    range.span ∈ hCover.cover.intervals ↔
      range ∈ ranges.tree := by
  constructor
  · intro hSpan
    rcases List.mem_map.mp hSpan with ⟨other, hOther, hEq⟩
    rcases Range.eq_of_span_eq
        (hCover.proper other hOther) hProper hEq with
      rfl
    exact hOther
  · exact fun hRange => List.mem_map_of_mem hRange

private theorem eq_of_map_span_eq
    {left right : List Range}
    (hLeft : ∀ range ∈ left, range.first ≤ range.last)
    (hRight : ∀ range ∈ right, range.first ≤ range.last)
    (hSpans : left.map Range.span = right.map Range.span) :
    left = right := by
  induction left generalizing right with
  | nil =>
      exact (List.map_eq_nil_iff.mp hSpans.symm).symm
  | cons first left ih =>
      cases right with
      | nil => exact absurd hSpans (List.cons_ne_nil _ _)
      | cons second right =>
          rcases List.cons.inj hSpans with ⟨hHead, hTail⟩
          rw [Range.eq_of_span_eq
              (hLeft first List.mem_cons_self)
              (hRight second List.mem_cons_self) hHead,
            ih
              (fun range hRange =>
                hLeft range (List.mem_cons_of_mem _ hRange))
              (fun range hRange =>
                hRight range (List.mem_cons_of_mem _ hRange))
              hTail]

/- A list is determined by its cover. -/
theorem eq_of_cover_eq
    (hRanges : ranges.IsDisjointCover)
    (hOthers : others.IsDisjointCover)
    (hCover : hRanges.cover = hOthers.cover) :
    ranges = others := by
  have hTree : ranges.tree = others.tree :=
    eq_of_map_span_eq hRanges.proper hOthers.proper
      (congrArg (fun cover => cover.intervals) hCover)
  cases ranges
  cases others
  exact congrArg RangeList.mk hTree

/- The insertions keep the cover, and insert the intervals. -/
theorem insertRanges_spec
    (hCover : ranges.IsDisjointCover)
    {items : List Range}
    (hItems : ∀ item ∈ items, item.first ≤ item.last) :
    ∃ hInserted : (ranges.insertRanges items).IsDisjointCover,
      hInserted.cover =
        hCover.cover.insertAll (items.map Range.span) := by
  induction items generalizing ranges with
  | nil => exact ⟨hCover, rfl⟩
  | cons item items ih =>
      have hItem := hItems item List.mem_cons_self
      have hRest : ∀ other ∈ items,
          other.first ≤ other.last :=
        fun other hOther =>
          hItems other (List.mem_cons_of_mem _ hOther)
      rcases ih (hCover.insertRange item.spc hItem) hRest with
        ⟨hInserted, hEq⟩
      refine ⟨hInserted, hEq.trans ?_⟩
      rw [hCover.cover_insertRange hItem]
      rfl

end IsDisjointCover

end RangeList

end LLDBGhidra
