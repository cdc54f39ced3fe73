import LLDBGhidra.Decompiler.RangeMapLoop

/-
  The sequence of sub-ranges of a range map stays a common
  refinement, and a query returns exactly the records over
  its point.

  Main declarations:
    * `RangeMap.Refined`
    * `RangeMap.Refined.insert`
    * `RangeMap.Refined.covered_insert_new`
    * `RangeMap.Refined.mem_findBetween`
    * `RangeMap.Refined.exists_mem_findBetween`
-/

------------------------------------------------------------
-- Refined Maps
------------------------------------------------------------

namespace LLDBGhidra

open SortedList

variable {V S : Type}

namespace RangeMap

variable [SubsortType S] [RecordType V S]

/- A boundary of some sub-range. -/
def IsCut
    (tree : List (AddrRange V S))
    (point : Nat) : Prop :=
  ∃ range ∈ tree,
    point = range.first ∨ point = range.last + 1

/-
  The sub-range lies within the range of its record, whose
  end it knows.
-/
def Within
    (range : AddrRange V S) : Prop :=
  RecordType.getFirst range.value ≤ range.first ∧
    range.first ≤ range.last ∧
    range.last ≤ RecordType.getLast range.value ∧
    range.subsort = RecordType.getSubsort range.value ∧
    range.b = RecordType.getLast range.value

/-
  The invariant of a range map: ordered sub-ranges of its
  records, none of them split by the boundary of another.
-/
structure Refined
    (map : RangeMap V S) : Prop where
  sorted : KeySorted AddrRange.key map.tree
  within : ∀ range ∈ map.tree, Within range
  whole :
    ∀ range ∈ map.tree, range.Whole (IsCut map.tree)

/- It is enough to respect any set that has all boundaries. -/
theorem Refined.of_cuts
    {map : RangeMap V S}
    (cut : Nat → Prop)
    (hSorted : KeySorted AddrRange.key map.tree)
    (hWithin : ∀ range ∈ map.tree, Within range)
    (hWhole : ∀ range ∈ map.tree, range.Whole cut)
    (hEnds : ∀ range ∈ map.tree, range.EndsAt cut) :
    Refined map where
  sorted := hSorted
  within := hWithin
  whole := by
    intro range hRange point hPoint
    refine hWhole range hRange point ?_
    rcases hPoint with ⟨other, hOther, rfl | rfl⟩
    · exact (hEnds other hOther).1
    · exact (hEnds other hOther).2

theorem refined_empty :
    Refined (⟨[]⟩ : RangeMap V S) where
  sorted := List.Pairwise.nil
  within := by simp
  whole := by simp

/- The sub-range is a part of one of the tree. -/
def PartOf
    (tree : List (AddrRange V S))
    (range : AddrRange V S) : Prop :=
  ∃ other ∈ tree,
    range.value = other.value ∧
      range.subsort = other.subsort ∧ range.b = other.b ∧
      other.first ≤ range.first ∧
      range.first ≤ range.last ∧ range.last ≤ other.last

omit [SubsortType S] in
theorem Within.of_partOf
    {tree : List (AddrRange V S)}
    {range : AddrRange V S}
    (hWithin : ∀ other ∈ tree, Within other)
    (hPart : PartOf tree range) :
    Within range := by
  rcases hPart with
    ⟨other, hOther, hValue, hSubsort, hEnd, hFirst,
      hOrdered, hLast⟩
  have hOtherWithin := hWithin other hOther
  unfold Within at hOtherWithin ⊢
  rw [hValue, hSubsort, hEnd]
  refine ⟨?_, hOrdered, ?_, hOtherWithin.2.2.2⟩
  · omega
  · omega

/- Any split of a refined sequence is a frontier. -/
theorem Refined.frontier
    {front rest : List (AddrRange V S)}
    {low : AddrRange V S}
    {map : RangeMap V S}
    (hRefined : Refined map)
    (hTree : map.tree = front ++ low :: rest) :
    Frontier (IsCut map.tree) low.first (low :: rest) := by
  have hSuffix :
      ∀ range ∈ low :: rest, range ∈ map.tree := by
    intro range hRange
    rw [hTree]
    exact List.mem_append_right _ hRange
  have hLow := hSuffix low List.mem_cons_self
  have hSorted := hRefined.sorted
  rw [hTree] at hSorted
  have hParts := List.pairwise_append.mp hSorted
  refine ⟨hParts.2.1, ?_, ?_, ?_, ?_, ?_⟩
  · exact fun range hRange =>
      (hRefined.within range (hSuffix range hRange)).2.1
  · exact fun range hRange =>
      hRefined.whole range (hSuffix range hRange)
  · exact fun range hRange =>
      ⟨⟨range, hSuffix range hRange, Or.inl rfl⟩,
        ⟨range, hSuffix range hRange, Or.inr rfl⟩⟩
  · exact ⟨low, hLow, Or.inl rfl⟩
  · intro point hCut hAfter
    rcases hCut with ⟨range, hRange, hPoint⟩
    have hSplit : range ∈ front ∨ range ∈ low :: rest := by
      rw [hTree] at hRange
      exact List.mem_append.mp hRange
    rcases hSplit with hFront | hRest
    · -- a sub-range before `low` has no boundary inside it
      have hLast := AddrRange.last_le_of_key_le
        (hParts.2.2 range hFront low List.mem_cons_self)
      have hOrdered := (hRefined.within range hRange).2.1
      have hWholeFirst := hRefined.whole low hLow range.first
        ⟨range, hRange, Or.inl rfl⟩
      have hWholeLast :=
        hRefined.whole low hLow (range.last + 1)
          ⟨range, hRange, Or.inr rfl⟩
      refine ⟨low, List.mem_cons_self, Or.inr ?_⟩
      omega
    · exact ⟨range, hRest, hPoint⟩

/- The two sides of a lower bound. -/
omit [RecordType V S] in
theorem lowerBound_append
    (offset : Nat)
    (tree : List (AddrRange V S)) :
    (lowerBound offset tree).1 ++ (lowerBound offset tree).2 =
      tree :=
  List.takeWhile_append_dropWhile

omit [RecordType V S] in
theorem key_lt_bound_iff
    {range : AddrRange V S}
    {offset : Nat} :
    range.key < toLex (offset, SubsortType.subsort false) ↔
      range.last < offset := by
  have hLeast :
      ¬ range.subsort < SubsortType.subsort false :=
    not_lt.mpr (SubsortType.subsort_false_le _)
  simp [AddrRange.key, Prod.Lex.toLex_lt_toLex, hLeast]

omit [RecordType V S] in
theorem last_lt_of_mem_lowerBound
    {offset : Nat}
    {tree : List (AddrRange V S)}
    {range : AddrRange V S}
    (hRange : range ∈ (lowerBound offset tree).1) :
    range.last < offset :=
  key_lt_bound_iff.mp (lt_of_mem_takeWhile hRange)

omit [RecordType V S] in
theorem mem_lowerBound_snd_iff
    {offset : Nat}
    {tree : List (AddrRange V S)}
    {range : AddrRange V S}
    (hSorted : KeySorted AddrRange.key tree) :
    range ∈ (lowerBound offset tree).2 ↔
      range ∈ tree ∧ offset ≤ range.last := by
  have hMem :=
    mem_dropWhile_lt_iff hSorted
      (toLex (offset, (SubsortType.subsort false : S))) range
  rw [← not_lt, key_lt_bound_iff, not_lt] at hMem
  exact hMem

end RangeMap

end LLDBGhidra

------------------------------------------------------------
-- Refining at the Left Boundary
------------------------------------------------------------

namespace LLDBGhidra

open SortedList

variable {V S : Type}

namespace RangeMap

variable [SubsortType S] [RecordType V S]
variable {map : RangeMap V S}
variable {a : Nat}

/- The cuts once a new range starts at `a`. -/
def CutFrom
    (tree : List (AddrRange V S))
    (a point : Nat) : Prop :=
  point = a ∨ IsCut tree point

/-
  A tree opened at `a`: what lies before the offset, and the
  frontier of an insertion behind it.
-/
structure Opened
    (tree : List (AddrRange V S))
    (a : Nat)
    (front back : List (AddrRange V S)) : Prop where
  sorted : KeySorted AddrRange.key (front ++ back)
  before : ∀ range ∈ front, range.last < a
  after : ∀ range ∈ back, a ≤ range.first
  frontier : Frontier (CutFrom tree a) a back
  parts : ∀ range ∈ front ++ back, PartOf tree range
  whole :
    ∀ range ∈ front ++ back, range.Whole (CutFrom tree a)
  ends :
    ∀ range ∈ front ++ back, range.EndsAt (CutFrom tree a)
  covered :
    ∀ value point, CoveredAt tree value point →
      CoveredAt (front ++ back) value point

/- The whole tree consists of its own parts. -/
private theorem Refined.partOf_self
    (hRefined : Refined map)
    {range : AddrRange V S}
    (hRange : range ∈ map.tree) :
    PartOf map.tree range :=
  ⟨range, hRange, rfl, rfl, rfl, le_rfl,
    (hRefined.within range hRange).2.1, le_rfl⟩

/- No boundary is needed where no sub-range crosses `a`. -/
private theorem Refined.opened_of_split
    (hRefined : Refined map)
    {front back : List (AddrRange V S)}
    (hTree : map.tree = front ++ back)
    (hFront : ∀ range ∈ front, range.last < a)
    (hBack : ∀ range ∈ back, a ≤ range.first) :
    Opened map.tree a front back := by
  have hWhole :
      ∀ range ∈ front ++ back,
        range.Whole (CutFrom map.tree a) := by
    intro range hRange point hPoint
    rcases hPoint with rfl | hCut
    · rcases List.mem_append.mp hRange with hMem | hMem
      · have hLast := hFront range hMem
        omega
      · have hFirst := hBack range hMem
        omega
    · exact hRefined.whole range (hTree ▸ hRange) point hCut
  have hEnds :
      ∀ range ∈ front ++ back,
        range.EndsAt (CutFrom map.tree a) := by
    intro range hRange
    have hMem : range ∈ map.tree := hTree ▸ hRange
    exact ⟨Or.inr ⟨range, hMem, Or.inl rfl⟩,
      Or.inr ⟨range, hMem, Or.inr rfl⟩⟩
  have hSorted : KeySorted AddrRange.key (front ++ back) :=
    hTree ▸ hRefined.sorted
  refine ⟨hSorted, hFront, hBack, ?_, ?_, hWhole, hEnds, ?_⟩
  · refine ⟨(List.pairwise_append.mp hSorted).2.1, ?_, ?_, ?_,
      Or.inl rfl, ?_⟩
    · intro range hRange
      exact (hRefined.within range
        (hTree ▸ List.mem_append_right _ hRange)).2.1
    · exact fun range hRange =>
        hWhole range (List.mem_append_right _ hRange)
    · exact fun range hRange =>
        hEnds range (List.mem_append_right _ hRange)
    · intro point hPoint hAfter
      rcases hPoint with rfl | ⟨range, hRange, hEnd⟩
      · omega
      · rw [hTree] at hRange
        rcases List.mem_append.mp hRange with hMem | hMem
        · have hLast := hFront range hMem
          have hOrdered := (hRefined.within range
            (hTree ▸ List.mem_append_left _ hMem)).2.1
          omega
        · exact ⟨range, hMem, hEnd⟩
  · intro range hRange
    exact hRefined.partOf_self (hTree ▸ hRange)
  · intro value point hCovered
    exact hTree ▸ hCovered

/- The sub-ranges from `low` on are the first that reach `a`. -/
private structure Crossing
    (map : RangeMap V S)
    (a : Nat)
    (front : List (AddrRange V S))
    (low : AddrRange V S)
    (rest : List (AddrRange V S)) : Prop where
  refined : Refined map
  tree : map.tree = front ++ low :: rest
  before : ∀ range ∈ front, range.last < a
  first : low.first < a
  last : a ≤ low.last

variable {front rest : List (AddrRange V S)}
variable {low range : AddrRange V S}

private theorem Crossing.mem_tree
    (hCross : Crossing map a front low rest)
    (hRange : range ∈ low :: rest) :
    range ∈ map.tree :=
  hCross.tree ▸ List.mem_append_right _ hRange

private theorem Crossing.frontier
    (hCross : Crossing map a front low rest) :
    Frontier (IsCut map.tree) low.first (low :: rest) :=
  hCross.refined.frontier hCross.tree

private theorem Crossing.inside
    (hCross : Crossing map a front low rest) :
    a - 1 < low.last := by
  have hFirst := hCross.first
  have hLast := hCross.last
  omega

private theorem Crossing.next
    (hCross : Crossing map a front low rest) :
    a - 1 + 1 = a := by
  have hFirst := hCross.first
  omega

private theorem Crossing.le_last
    (hCross : Crossing map a front low rest)
    (hRange : range ∈ low :: rest) :
    a ≤ range.last := by
  have hKey := AddrRange.last_le_of_key_le
    (hCross.frontier.sorted.head_le hRange)
  have hLast := hCross.last
  omega

/-
  What becomes of a sub-range: it is on one side of `a`, or
  it is one half of a sub-range that was split there.
-/
private def SplitPart
    (map : RangeMap V S)
    (a : Nat)
    (frontier : List (AddrRange V S))
    (range : AddrRange V S) : Prop :=
  (range ∈ map.tree ∧ (range.last < a ∨ a ≤ range.first)) ∨
    ∃ other ∈ frontier, other.first < a ∧
      (range = { other with last := a - 1 } ∨
        range = { other with first := a })

private theorem Crossing.splitPart
    (hCross : Crossing map a front low rest)
    (hRange :
      range ∈ (front ++ (unzip (a - 1) (low :: rest)).1) ++
        (unzip (a - 1) (low :: rest)).2) :
    SplitPart map a (low :: rest) range := by
  have hNext := hCross.next
  rw [List.append_assoc] at hRange
  rcases List.mem_append.mp hRange with hMem | hMem
  · exact Or.inl
      ⟨hCross.tree ▸ List.mem_append_left _ hMem,
        Or.inl (hCross.before range hMem)⟩
  · rcases (mem_unzip_iff hCross.frontier hCross.inside).mp
        hMem with
      hOld | ⟨other, hOther, hBefore, hHalf⟩
    · exact Or.inl
        ⟨hCross.mem_tree hOld.1, Or.inr (by omega)⟩
    · rw [hNext] at hHalf
      exact Or.inr ⟨other, hOther, by omega, hHalf⟩

private theorem Crossing.keySorted
    (hCross : Crossing map a front low rest) :
    KeySorted AddrRange.key
      ((front ++ (unzip (a - 1) (low :: rest)).1) ++
        (unzip (a - 1) (low :: rest)).2) := by
  have hSorted := hCross.refined.sorted
  rw [hCross.tree] at hSorted
  have hParts := List.pairwise_append.mp hSorted
  rw [List.append_assoc]
  refine KeySorted.append hParts.1
    (keySorted_unzip hCross.frontier hCross.inside) ?_
  intro left hLeft right hRight
  have hLeftLast := hCross.before left hLeft
  rcases (mem_unzip_iff hCross.frontier hCross.inside).mp
      hRight with
    hMem | ⟨other, hOther, hBefore, rfl | rfl⟩
  · exact hParts.2.2 left hLeft right hMem.1
  · -- a sub-range that ends at `a - 1` would meet `low`
    have hCut := hCross.refined.whole low
      (hCross.mem_tree List.mem_cons_self) (left.last + 1)
      ⟨left, hCross.tree ▸ List.mem_append_left _ hLeft,
        Or.inr rfl⟩
    have hFirst := hCross.first
    have hLast := hCross.last
    refine AddrRange.key_le_iff.mpr (Or.inl ?_)
    show left.last < a - 1
    omega
  · exact hParts.2.2 left hLeft other hOther

private theorem Crossing.whole
    (hCross : Crossing map a front low rest)
    (hPart : SplitPart map a (low :: rest) range) :
    range.Whole (CutFrom map.tree a) := by
  intro point hPoint
  rcases hPart with
    ⟨hMem, hSide⟩ | ⟨other, hOther, hBefore, rfl | rfl⟩
  · rcases hPoint with rfl | hCut
    · omega
    · exact hCross.refined.whole range hMem point hCut
  · have hEnd := hCross.le_last hOther
    rcases hPoint with rfl | hCut
    · show ¬ (other.first < point ∧ point ≤ point - 1)
      omega
    · have hOtherWhole := hCross.refined.whole other
        (hCross.mem_tree hOther) point hCut
      show ¬ (other.first < point ∧ point ≤ a - 1)
      omega
  · rcases hPoint with rfl | hCut
    · show ¬ (point < point ∧ point ≤ other.last)
      omega
    · have hOtherWhole := hCross.refined.whole other
        (hCross.mem_tree hOther) point hCut
      show ¬ (a < point ∧ point ≤ other.last)
      omega

private theorem Crossing.endsAt
    (hCross : Crossing map a front low rest)
    (hPart : SplitPart map a (low :: rest) range) :
    range.EndsAt (CutFrom map.tree a) := by
  rcases hPart with
    ⟨hMem, _⟩ | ⟨other, hOther, hBefore, rfl | rfl⟩
  · exact ⟨Or.inr ⟨range, hMem, Or.inl rfl⟩,
      Or.inr ⟨range, hMem, Or.inr rfl⟩⟩
  · refine ⟨Or.inr
      ⟨other, hCross.mem_tree hOther, Or.inl rfl⟩,
      Or.inl hCross.next⟩
  · exact ⟨Or.inl rfl, Or.inr
      ⟨other, hCross.mem_tree hOther, Or.inr rfl⟩⟩

private theorem Crossing.partOf
    (hCross : Crossing map a front low rest)
    (hPart : SplitPart map a (low :: rest) range) :
    PartOf map.tree range := by
  rcases hPart with
    ⟨hMem, _⟩ | ⟨other, hOther, hBefore, rfl | rfl⟩
  · exact hCross.refined.partOf_self hMem
  · have hEnd := hCross.le_last hOther
    refine ⟨other, hCross.mem_tree hOther, rfl, rfl, rfl,
      le_rfl, ?_, ?_⟩
    · show other.first ≤ a - 1
      omega
    · show a - 1 ≤ other.last
      omega
  · have hEnd := hCross.le_last hOther
    exact ⟨other, hCross.mem_tree hOther, rfl, rfl, rfl,
      hBefore.le, hEnd, le_rfl⟩

/- Every cut behind `a` is an end of what lies behind `a`. -/
private theorem Crossing.beyond
    (hCross : Crossing map a front low rest)
    {point : Nat}
    (hCut : IsCut map.tree point)
    (hAfter : a < point) :
    ∃ range ∈ (unzip (a - 1) (low :: rest)).2,
      point = range.first ∨ point = range.last + 1 := by
  have hFirst := hCross.first
  rcases hCross.frontier.beyond point hCut (by omega) with
    ⟨range, hRange, hEnd⟩
  by_cases hBefore : range.first ≤ a - 1
  · refine ⟨{ range with first := a - 1 + 1 },
      (mem_unzip_snd_iff hCross.frontier hCross.inside).mpr
        (Or.inr ⟨range, hRange, hBefore, rfl⟩),
      Or.inr ?_⟩
    show point = range.last + 1
    omega
  · exact ⟨range,
      (mem_unzip_snd_iff hCross.frontier hCross.inside).mpr
        (Or.inl ⟨hRange, by omega⟩), hEnd⟩

private theorem Crossing.covered
    (hCross : Crossing map a front low rest)
    {value : V}
    {point : Nat}
    (hCovered : CoveredAt map.tree value point) :
    CoveredAt
      ((front ++ (unzip (a - 1) (low :: rest)).1) ++
        (unzip (a - 1) (low :: rest)).2) value point := by
  rcases hCovered with ⟨range, hRange, hValue, hCovers⟩
  rw [hCross.tree] at hRange
  rw [List.append_assoc]
  rcases List.mem_append.mp hRange with hMem | hMem
  · exact ⟨range, List.mem_append_left _ hMem,
      hValue, hCovers⟩
  · exact (covered_unzip hCross.frontier hCross.inside
      ⟨range, hMem, hValue, hCovers⟩).mono
        (fun _ hOther => List.mem_append_right _ hOther)

/- The sub-ranges over `a` are split by the new boundary. -/
private theorem Crossing.opened
    (hCross : Crossing map a front low rest) :
    Opened map.tree a
      (front ++ (unzip (a - 1) (low :: rest)).1)
      (unzip (a - 1) (low :: rest)).2 := by
  have hNext := hCross.next
  have hBack :
      ∀ range ∈ (unzip (a - 1) (low :: rest)).2,
        SplitPart map a (low :: rest) range :=
    fun range hRange =>
      hCross.splitPart (List.mem_append_right _ hRange)
  refine ⟨hCross.keySorted, ?_, ?_, ?_,
    fun range hRange =>
      hCross.partOf (hCross.splitPart hRange),
    fun range hRange =>
      hCross.whole (hCross.splitPart hRange),
    fun range hRange =>
      hCross.endsAt (hCross.splitPart hRange),
    fun value point hCovered => hCross.covered hCovered⟩
  · intro range hRange
    rcases List.mem_append.mp hRange with hMem | hMem
    · exact hCross.before range hMem
    · rcases (mem_unzip_fst_iff hCross.frontier
          hCross.inside).mp hMem with
        ⟨other, _, _, rfl⟩
      show a - 1 < a
      omega
  · intro range hRange
    rcases (mem_unzip_snd_iff hCross.frontier
        hCross.inside).mp hRange with
      hMem | ⟨other, _, _, rfl⟩
    · omega
    · show a ≤ a - 1 + 1
      omega
  · refine ⟨(List.pairwise_append.mp hCross.keySorted).2.1,
      ?_, fun range hRange => hCross.whole (hBack range hRange),
      fun range hRange => hCross.endsAt (hBack range hRange),
      Or.inl rfl, ?_⟩
    · intro range hRange
      rcases hCross.partOf (hBack range hRange) with
        ⟨other, hOther, _, _, _, _, hOrdered, _⟩
      exact hOrdered
    · intro point hPoint hAfter
      rcases hPoint with rfl | hCut
      · omega
      · exact hCross.beyond hCut hAfter

/- The left boundary opens every refined map. -/
theorem Refined.opened
    (hRefined : Refined map)
    (a : Nat) :
    Opened map.tree a
      ((lowerBound a map.tree).1 ++
        (refineLeft a (lowerBound a map.tree).2).1)
      (refineLeft a (lowerBound a map.tree).2).2 := by
  have hTree : map.tree =
      (lowerBound a map.tree).1 ++ (lowerBound a map.tree).2 :=
    (lowerBound_append a map.tree).symm
  have hFront :
      ∀ range ∈ (lowerBound a map.tree).1, range.last < a :=
    fun range hRange => last_lt_of_mem_lowerBound hRange
  have hSuffix :
      ∀ range ∈ (lowerBound a map.tree).2, a ≤ range.last :=
    fun range hRange =>
      ((mem_lowerBound_snd_iff hRefined.sorted).mp hRange).2
  cases hBack : (lowerBound a map.tree).2 with
  | nil =>
      rw [hBack] at hTree
      simpa [refineLeft] using
        hRefined.opened_of_split hTree hFront (by simp)
  | cons low rest =>
      rw [hBack] at hTree hSuffix
      by_cases hFirst : low.first < a
      · simp only [refineLeft, hFirst, if_true]
        exact Crossing.opened ⟨hRefined, hTree, hFront, hFirst,
          hSuffix low List.mem_cons_self⟩
      · simp only [refineLeft, hFirst, if_false,
          List.append_nil]
        refine hRefined.opened_of_split hTree hFront ?_
        intro range hRange
        have hLow := (hRefined.frontier hTree).firstSorted.head_le
          hRange
        omega

end RangeMap

end LLDBGhidra

------------------------------------------------------------
-- Insertion
------------------------------------------------------------

namespace LLDBGhidra

open SortedList

variable {V S : Type}

namespace RangeMap

variable [SubsortType S] [RecordType V S]
variable {map : RangeMap V S}
variable {a b : Nat}

/- The new record as a sub-range of its own. -/
def newPiece
    (value : V)
    (a b : Nat) : AddrRange V S :=
  { first := a, last := b, a := a, b := b,
    subsort := RecordType.getSubsort value, value := value }

/- The loop leaves a wrapped range out. -/
private theorem Opened.insertLoop_wrapped
    {tree front back : List (AddrRange V S)}
    (hOpened : Opened tree a front back)
    (value : V)
    (hWrapped : b < a) :
    insertLoop (newPiece value a b) a back = (back, a) := by
  cases back with
  | nil => rfl
  | cons low rest =>
      have hFirst := hOpened.after low List.mem_cons_self
      apply insertLoop_stop
      change b < low.first
      omega

/- The tree an insertion builds from an opened tree. -/
private def closed
    (value : V)
    (a b : Nat)
    (front back : List (AddrRange V S)) :
    List (AddrRange V S) :=
  let result := insertLoop (newPiece value a b) a back
  if result.2 ≤ b then
    insertUpper AddrRange.key
      { newPiece value a b with first := result.2 }
      (front ++ result.1)
  else
    front ++ result.1

private theorem insert_eq_closed
    (value : V)
    (a b : Nat)
    (map : RangeMap V S) :
    (insert value a b map).tree =
      closed value a b
        ((lowerBound a map.tree).1 ++
          (refineLeft a (lowerBound a map.tree).2).1)
        (refineLeft a (lowerBound a map.tree).2).2 := by
  simp only [insert, closed, newPiece, List.append_assoc]
  split
  · rfl
  · rfl

/- A member of the new tree: a part, a half, or a new piece. -/
private theorem Opened.mem_closed
    {tree front back : List (AddrRange V S)}
    (hOpened : Opened tree a front back)
    (value : V)
    (hBound : a ≤ b)
    {range : AddrRange V S}
    (hRange : range ∈ closed value a b front back) :
    (range ∈ front ++ back ∧
        (range.last ≤ b ∨ b < range.first)) ∨
      (∃ other ∈ back, other.first ≤ b ∧ b < other.last ∧
        (range = { other with last := b } ∨
          range = { other with first := b + 1 })) ∨
      Fills (CutFrom tree a) (newPiece value a b) a range ∨
      range = { newPiece value a b with
        first := (insertLoop (newPiece value a b) a back).2 } ∧
        (insertLoop (newPiece value a b) a back).2 ≤ b := by
  have hLoop :
      range ∈ front ++
          (insertLoop (newPiece value a b) a back).1 →
        (range ∈ front ++ back ∧
            (range.last ≤ b ∨ b < range.first)) ∨
          (∃ other ∈ back, other.first ≤ b ∧ b < other.last ∧
            (range = { other with last := b } ∨
              range = { other with first := b + 1 })) ∨
          Fills (CutFrom tree a) (newPiece value a b) a
            range := by
    intro hMem
    rcases List.mem_append.mp hMem with hFront | hBack
    · have hLast := hOpened.before range hFront
      exact Or.inl ⟨List.mem_append_left _ hFront,
        Or.inl (by omega)⟩
    · rcases mem_insertLoop hOpened.frontier hBound hBack with
        hOld | hHalf | hNew
      · exact Or.inl ⟨List.mem_append_right _ hOld.1, hOld.2⟩
      · exact Or.inr (Or.inl hHalf)
      · exact Or.inr (Or.inr hNew)
  have hMember :
      range ∈ front ++
          (insertLoop (newPiece value a b) a back).1 ∨
        range = { newPiece value a b with
          first := (insertLoop (newPiece value a b) a back).2 } ∧
          (insertLoop (newPiece value a b) a back).2 ≤ b := by
    unfold closed at hRange
    by_cases hOpen :
        (insertLoop (newPiece value a b) a back).2 ≤ b
    · simp only [hOpen, if_true, mem_insertUpper] at hRange
      rcases hRange with hLast | hMem
      · exact Or.inr ⟨hLast, hOpen⟩
      · exact Or.inl hMem
    · simp only [hOpen, if_false] at hRange
      exact Or.inl hRange
  rcases hMember with hMem | hLast
  · rcases hLoop hMem with hOld | hHalf | hNew
    · exact Or.inl hOld
    · exact Or.inr (Or.inl hHalf)
    · exact Or.inr (Or.inr (Or.inl hNew))
  · exact Or.inr (Or.inr (Or.inr hLast))

/- Insertion keeps the order. -/
private theorem Opened.keySorted_closed
    {tree front back : List (AddrRange V S)}
    (hOpened : Opened tree a front back)
    (value : V)
    (hBound : a ≤ b) :
    KeySorted AddrRange.key (closed value a b front back) := by
  have hSorted := List.pairwise_append.mp hOpened.sorted
  have hLoop : KeySorted AddrRange.key
      (front ++ (insertLoop (newPiece value a b) a back).1) := by
    refine KeySorted.append hSorted.1
      (keySorted_insertLoop hOpened.frontier hBound) ?_
    intro left hLeft right hRight
    rcases insertLoop_key hOpened.frontier hBound hRight with
      ⟨other, hOther, hKey⟩ | hLast
    · rw [hKey]
      exact hSorted.2.2 left hLeft other hOther
    · have hBefore := hOpened.before left hLeft
      exact AddrRange.key_le_iff.mpr (Or.inl (by omega))
  unfold closed
  by_cases hOpen :
      (insertLoop (newPiece value a b) a back).2 ≤ b
  · simp only [hOpen, if_true]
    exact hLoop.insertUpper _
  · simp only [hOpen, if_false]
    exact hLoop

/- The cuts once the new range ends at `b`, too. -/
private def CutTo
    (tree : List (AddrRange V S))
    (a b point : Nat) : Prop :=
  CutFrom tree a point ∨ point = b + 1

omit [SubsortType S] [RecordType V S] in
private theorem whole_cutTo
    {tree : List (AddrRange V S)}
    {range : AddrRange V S}
    (hWhole : range.Whole (CutFrom tree a))
    (hSide : range.last ≤ b ∨ b < range.first) :
    range.Whole (CutTo tree a b) := by
  intro point hPoint
  rcases hPoint with hCut | rfl
  · exact hWhole point hCut
  · omega

/- The new tree respects the old cuts and the new ones. -/
private theorem Opened.whole_closed
    {tree front back : List (AddrRange V S)}
    (hOpened : Opened tree a front back)
    (value : V)
    (hBound : a ≤ b)
    {range : AddrRange V S}
    (hRange : range ∈ closed value a b front back) :
    range.Whole (CutTo tree a b) ∧
      range.EndsAt (CutTo tree a b) := by
  rcases hOpened.mem_closed value hBound hRange with
    ⟨hMem, hSide⟩ | ⟨other, hOther, hBefore, hAfter, hHalf⟩ |
      hNew | ⟨rfl, hOpen⟩
  · have hEnds := hOpened.ends range hMem
    exact ⟨whole_cutTo (hOpened.whole range hMem) hSide,
      Or.inl hEnds.1, Or.inl hEnds.2⟩
  · have hMem : other ∈ front ++ back :=
      List.mem_append_right _ hOther
    have hWhole := hOpened.whole other hMem
    have hEnds := hOpened.ends other hMem
    rcases hHalf with rfl | rfl
    · refine ⟨whole_cutTo ?_ (Or.inl le_rfl),
        Or.inl hEnds.1, Or.inr rfl⟩
      intro point hCut
      have hInside := hWhole point hCut
      change ¬ (other.first < point ∧ point ≤ b)
      omega
    · refine ⟨whole_cutTo ?_ (Or.inr (Nat.lt_succ_self b)),
        Or.inr rfl, Or.inl hEnds.2⟩
      intro point hCut
      have hInside := hWhole point hCut
      change ¬ (b + 1 < point ∧ point ≤ other.last)
      omega
  · rcases hNew with
      ⟨first, last, rfl, _, _, hLast, hWhole, hEnds⟩
    exact ⟨whole_cutTo hWhole (Or.inl hLast),
      Or.inl hEnds.1, Or.inl hEnds.2⟩
  · rcases fills_rest_insertLoop (newPiece value a b)
        hOpened.frontier hBound hOpen with
      ⟨hCut, _, hFree⟩
    exact ⟨whole_cutTo hFree (Or.inl le_rfl),
      Or.inl hCut, Or.inr rfl⟩

/- The new tree holds parts of old records and the new one. -/
private theorem Opened.parts_closed
    {tree front back : List (AddrRange V S)}
    (hOpened : Opened tree a front back)
    (value : V)
    (hBound : a ≤ b)
    {range : AddrRange V S}
    (hRange : range ∈ closed value a b front back) :
    PartOf tree range ∨
      PartOf [newPiece value a b] range := by
  rcases hOpened.mem_closed value hBound hRange with
    ⟨hMem, _⟩ | ⟨other, hOther, hBefore, hAfter, hHalf⟩ |
      hNew | ⟨rfl, hOpen⟩
  · exact Or.inl (hOpened.parts range hMem)
  · rcases hOpened.parts other
        (List.mem_append_right _ hOther) with
      ⟨whole, hWhole, hValue, hSubsort, hEnd, hFirst, _,
        hLast⟩
    refine Or.inl ⟨whole, hWhole, ?_⟩
    rcases hHalf with rfl | rfl
    · exact ⟨hValue, hSubsort, hEnd, hFirst, hBefore,
        hAfter.le.trans hLast⟩
    · exact ⟨hValue, hSubsort, hEnd,
        hFirst.trans (hBefore.trans (Nat.le_succ b)),
        hAfter, hLast⟩
  · rcases hNew with
      ⟨first, last, rfl, hFirst, hOrdered, hLast, _, _⟩
    exact Or.inr ⟨newPiece value a b, by simp, rfl, rfl, rfl,
      hFirst, hOrdered, hLast⟩
  · have hStart :=
      (fills_rest_insertLoop (newPiece value a b)
        hOpened.frontier hBound hOpen).2.1
    exact Or.inr ⟨newPiece value a b, by simp, rfl, rfl, rfl,
      hStart, hOpen, le_rfl⟩

/- Every sub-range after an insertion is part of a record. -/
theorem Refined.parts_insert
    (hRefined : Refined map)
    (value : V)
    (a b : Nat)
    {range : AddrRange V S}
    (hRange : range ∈ (insert value a b map).tree) :
    PartOf map.tree range ∨
      (a ≤ b ∧ PartOf [newPiece value a b] range) := by
  have hOpened := hRefined.opened a
  rw [insert_eq_closed] at hRange
  by_cases hBound : a ≤ b
  · rcases hOpened.parts_closed value hBound hRange with
      hOld | hNew
    · exact Or.inl hOld
    · exact Or.inr ⟨hBound, hNew⟩
  · have hEmpty : ¬ a ≤ b := hBound
    simp only [closed,
      hOpened.insertLoop_wrapped value (not_le.mp hBound),
      hEmpty, if_false] at hRange
    exact Or.inl (hOpened.parts range hRange)

/-
  Inserting a record keeps the refinement.  A record whose
  range wraps contributes its left boundary only.
-/
theorem Refined.insert
    (hRefined : Refined map)
    (value : V)
    (hFirst : RecordType.getFirst value = a)
    (hLast : a ≤ b → RecordType.getLast value = b) :
    Refined (map.insert value a b) := by
  have hOpened := hRefined.opened a
  have hWithin :
      ∀ range ∈ (map.insert value a b).tree,
        Within range := by
    intro range hRange
    rcases hRefined.parts_insert value a b hRange with
      hOld | ⟨hBound, hNew⟩
    · exact Within.of_partOf hRefined.within hOld
    · refine Within.of_partOf ?_ hNew
      intro other hOther
      rw [List.mem_singleton.mp hOther]
      exact ⟨hFirst.le, hBound, (hLast hBound).ge, rfl,
        (hLast hBound).symm⟩
  by_cases hBound : a ≤ b
  · apply Refined.of_cuts (CutTo map.tree a b)
    · rw [insert_eq_closed]
      exact hOpened.keySorted_closed value hBound
    · exact hWithin
    · intro range hRange
      rw [insert_eq_closed] at hRange
      exact (hOpened.whole_closed value hBound hRange).1
    · intro range hRange
      rw [insert_eq_closed] at hRange
      exact (hOpened.whole_closed value hBound hRange).2
  · have hTree : (map.insert value a b).tree =
        ((lowerBound a map.tree).1 ++
          (refineLeft a (lowerBound a map.tree).2).1) ++
        (refineLeft a (lowerBound a map.tree).2).2 := by
      rw [insert_eq_closed]
      simp only [closed,
        hOpened.insertLoop_wrapped value (not_le.mp hBound),
        hBound, if_false]
    apply Refined.of_cuts (CutFrom map.tree a)
    · rw [hTree]
      exact hOpened.sorted
    · exact hWithin
    · intro range hRange
      rw [hTree] at hRange
      exact hOpened.whole range hRange
    · intro range hRange
      rw [hTree] at hRange
      exact hOpened.ends range hRange

/- Insertion uncovers nothing. -/
theorem Refined.covered_insert
    (hRefined : Refined map)
    (value : V)
    (a b : Nat)
    {other : V}
    {point : Nat}
    (hCovered : CoveredAt map.tree other point) :
    CoveredAt (map.insert value a b).tree other point := by
  have hOpened := hRefined.opened a
  have hOpen := hOpened.covered other point hCovered
  rw [insert_eq_closed]
  by_cases hBound : a ≤ b
  · have hLoop : CoveredAt
        (((lowerBound a map.tree).1 ++
          (refineLeft a (lowerBound a map.tree).2).1) ++
          (insertLoop (newPiece value a b) a
            (refineLeft a (lowerBound a map.tree).2).2).1)
        other point := by
      rcases hOpen with ⟨range, hRange, hCovers⟩
      rcases List.mem_append.mp hRange with hFront | hBack
      · exact ⟨range, List.mem_append_left _ hFront, hCovers⟩
      · exact (covered_insertLoop hOpened.frontier hBound
          ⟨range, hBack, hCovers⟩).mono
            (fun _ hMem => List.mem_append_right _ hMem)
    refine hLoop.mono ?_
    intro range hRange
    simp only [closed]
    split
    · exact mem_insertUpper.mpr (Or.inr hRange)
    · exact hRange
  · simpa only [closed,
      hOpened.insertLoop_wrapped value (not_le.mp hBound),
      hBound, if_false] using hOpen

/- The new record covers its whole range. -/
theorem Refined.covered_insert_new
    (hRefined : Refined map)
    (value : V)
    {point : Nat}
    (hStart : a ≤ point)
    (hEnd : point ≤ b) :
    CoveredAt (map.insert value a b).tree value point := by
  have hOpened := hRefined.opened a
  have hBound : a ≤ b := hStart.trans hEnd
  rw [insert_eq_closed]
  generalize (refineLeft a (lowerBound a map.tree).2).2 =
    back at hOpened
  generalize (lowerBound a map.tree).1 ++
    (refineLeft a (lowerBound a map.tree).2).1 =
    front at hOpened
  have hLoop :
      (point < (insertLoop (newPiece value a b) a back).2 ∨
        b < (insertLoop (newPiece value a b) a back).2) →
      CoveredAt
        (insertLoop (newPiece value a b) a back).1
        value point :=
    fun hPoint =>
      covered_new_insertLoop (newPiece value a b)
        hOpened.frontier hBound hStart hPoint hEnd
  unfold closed
  by_cases hOpen :
      (insertLoop (newPiece value a b) a back).2 ≤ b
  · simp only [hOpen, if_true]
    by_cases hPoint :
        (insertLoop (newPiece value a b) a back).2 ≤ point
    · exact ⟨{ newPiece value a b with
          first :=
            (insertLoop (newPiece value a b) a back).2 },
        mem_insertUpper.mpr (Or.inl rfl), rfl, hPoint, hEnd⟩
    · refine (hLoop (Or.inl (not_le.mp hPoint))).mono ?_
      intro range hRange
      exact mem_insertUpper.mpr
        (Or.inr (List.mem_append_right _ hRange))
  · simp only [hOpen, if_false]
    exact (hLoop (Or.inr (not_le.mp hOpen))).mono
      (fun _ hMem => List.mem_append_right _ hMem)

end RangeMap

end LLDBGhidra

------------------------------------------------------------
-- Queries
------------------------------------------------------------

namespace LLDBGhidra

open SortedList

variable {V S : Type}

namespace RangeMap

variable [SubsortType S]
variable {map : RangeMap V S}

theorem findBetween_of_nil
    {point : Nat}
    {sub2 : S}
    (hBack : (lowerBound point map.tree).2 = []) :
    map.findBetween point (SubsortType.subsort false) sub2 =
      [] := by
  have hDrop :
      map.tree.dropWhile (fun range =>
        range.key <
          toLex (point, SubsortType.subsort false)) = [] :=
    hBack
  simp only [findBetween, hDrop]

theorem findBetween_of_cons
    {point : Nat}
    {sub2 : S}
    {low : AddrRange V S}
    {rest : List (AddrRange V S)}
    (hBack : (lowerBound point map.tree).2 = low :: rest) :
    map.findBetween point (SubsortType.subsort false) sub2 =
      if point < low.first then
        []
      else
        (low :: rest).takeWhile
          (fun other => other.key ≤ toLex (low.last, sub2)) := by
  have hDrop :
      map.tree.dropWhile (fun range =>
        range.key <
          toLex (point, SubsortType.subsort false)) =
        low :: rest :=
    hBack
  simp only [findBetween, hDrop]

/- The keys up to the end of `low` are those of its range. -/
private theorem last_eq_of_key_le
    {low range : AddrRange V S}
    {rest : List (AddrRange V S)}
    {sub2 : S}
    (hSorted : KeySorted AddrRange.key (low :: rest))
    (hOther : range ∈ low :: rest)
    (hKey : range.key ≤ toLex (low.last, sub2)) :
    range.last = low.last ∧ range.subsort ≤ sub2 := by
  have hHead :=
    AddrRange.last_le_of_key_le (hSorted.head_le hOther)
  have hStop : range.last < low.last ∨
      range.last = low.last ∧ range.subsort ≤ sub2 :=
    Prod.Lex.toLex_le_toLex.mp hKey
  rcases hStop with hLess | hEq
  · omega
  · exact hEq

variable [RecordType V S]

/-
  A query returns the sub-ranges over its point, up to its
  last subsort.
-/
theorem Refined.mem_findBetween
    (hRefined : Refined map)
    (point : Nat)
    (sub2 : S)
    (range : AddrRange V S) :
    range ∈ map.findBetween point
        (SubsortType.subsort false) sub2 ↔
      range ∈ map.tree ∧ range.Covers point ∧
        range.subsort ≤ sub2 := by
  have hTree : map.tree =
      (lowerBound point map.tree).1 ++
        (lowerBound point map.tree).2 :=
    (lowerBound_append point map.tree).symm
  have hMember := fun other : AddrRange V S =>
    (mem_lowerBound_snd_iff hRefined.sorted :
      other ∈ (lowerBound point map.tree).2 ↔ _)
  cases hBack : (lowerBound point map.tree).2 with
  | nil =>
      rw [findBetween_of_nil hBack]
      constructor
      · simp
      · rintro ⟨hMem, hCovers, _⟩
        have hNone := (hMember range).mpr ⟨hMem, hCovers.2⟩
        rw [hBack] at hNone
        simp at hNone
  | cons low rest =>
      rw [findBetween_of_cons hBack]
      rw [hBack] at hTree hMember
      have hFrontier := hRefined.frontier hTree
      have hLow := (hMember low).mp List.mem_cons_self
      -- whatever covers the point ends where `low` does
      have hSame :
          ∀ other ∈ low :: rest, low.first ≤ point →
            other.first ≤ point →
              other.last = low.last := by
        intro other hOther hLowFirst hFirst
        have hLast := ((hMember other).mp hOther).2
        exact hFrontier.last_eq point hOther
          List.mem_cons_self ⟨hFirst, hLast⟩
          ⟨hLowFirst, hLow.2⟩
      by_cases hBefore : point < low.first
      · simp only [hBefore, if_true]
        constructor
        · simp
        · rintro ⟨hMem, hCovers, _⟩
          have hOther :=
            (hMember range).mpr ⟨hMem, hCovers.2⟩
          have hFirst := hFrontier.firstSorted.head_le hOther
          have hCoversFirst := hCovers.1
          omega
      · have hLowFirst : low.first ≤ point := by omega
        simp only [hBefore, if_false]
        rw [mem_takeWhile_le_iff hFrontier.sorted]
        constructor
        · rintro ⟨hOther, hKey⟩
          have hInTree := (hMember range).mp hOther
          rcases last_eq_of_key_le hFrontier.sorted hOther hKey
            with ⟨hLast, hSubsort⟩
          have hFirst : range.first ≤ point := by
            have hWhole := hFrontier.whole low
              List.mem_cons_self range.first
              (hFrontier.ends range hOther).1
            have hOrdered := hFrontier.ordered range hOther
            omega
          exact ⟨hInTree.1, ⟨hFirst, hInTree.2⟩, hSubsort⟩
        · rintro ⟨hMem, hCovers, hSubsort⟩
          have hOther :=
            (hMember range).mpr ⟨hMem, hCovers.2⟩
          have hLast := hSame range hOther hLowFirst hCovers.1
          refine ⟨hOther, ?_⟩
          exact Prod.Lex.toLex_le_toLex.mpr
            (Or.inr ⟨hLast, hSubsort⟩)

/- A record over the point is found under its subsort. -/
theorem Refined.exists_mem_findBetween
    (hRefined : Refined map)
    {point : Nat}
    {value : V}
    {sub2 : S}
    (hCovered : CoveredAt map.tree value point)
    (hSubsort : RecordType.getSubsort value ≤ sub2) :
    ∃ range ∈ map.findBetween point
        (SubsortType.subsort false) sub2,
      range.value = value := by
  rcases hCovered with ⟨range, hRange, hValue, hCovers⟩
  have hLabel := (hRefined.within range hRange).2.2.2.1
  refine ⟨range,
    (hRefined.mem_findBetween point sub2 range).mpr
      ⟨hRange, hCovers, ?_⟩, hValue⟩
  rw [hLabel, hValue]
  exact hSubsort

/- The records a query finds have their range over the point. -/
theorem Refined.covers_of_mem_findBetween
    (hRefined : Refined map)
    {point : Nat}
    {sub2 : S}
    {range : AddrRange V S}
    (hRange : range ∈ map.findBetween point
      (SubsortType.subsort false) sub2) :
    RecordType.getFirst range.value ≤ point ∧
      point ≤ RecordType.getLast range.value := by
  have hFound :=
    (hRefined.mem_findBetween point sub2 range).mp hRange
  have hWithin := hRefined.within range hFound.1
  have hCovers := hFound.2.1
  unfold Within at hWithin
  unfold AddrRange.Covers at hCovers
  omega

end RangeMap

end LLDBGhidra
