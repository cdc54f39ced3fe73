import LLDBGhidra.Decompiler.RangeMap

/-
  What the loop of a range map insertion does to the part of
  the sequence it visits.

  Main declarations:
    * `RangeMap.Frontier`
    * `RangeMap.insertLoop_induction`
    * `RangeMap.mem_insertLoop`
    * `RangeMap.keySorted_insertLoop`
    * `RangeMap.covered_insertLoop`
    * `RangeMap.covered_new_insertLoop`
-/

------------------------------------------------------------
-- Common Refinements
------------------------------------------------------------

namespace LLDBGhidra

open SortedList

variable {V S : Type}

namespace AddrRange

/- No cut falls strictly inside the sub-range. -/
def Whole
    (cut : Nat → Prop)
    (range : AddrRange V S) : Prop :=
  ∀ point, cut point →
    ¬ (range.first < point ∧ point ≤ range.last)

/- Both boundaries of the sub-range are cuts. -/
def EndsAt
    (cut : Nat → Prop)
    (range : AddrRange V S) : Prop :=
  cut range.first ∧ cut (range.last + 1)

theorem key_le_iff
    [SubsortType S]
    {left right : AddrRange V S} :
    left.key ≤ right.key ↔
      left.last < right.last ∨
        left.last = right.last ∧
          left.subsort ≤ right.subsort := by
  simp [key, Prod.Lex.toLex_le_toLex]

theorem last_le_of_key_le
    [SubsortType S]
    {left right : AddrRange V S}
    (hKey : left.key ≤ right.key) :
    left.last ≤ right.last := by
  rcases key_le_iff.mp hKey with hLast | hLast
  · omega
  · omega

end AddrRange

namespace RangeMap

/-
  The suffix the loop of `insert` still has to visit: its
  sub-ranges respect the cuts, `f` is one of them, and every
  cut beyond `f` is a boundary in the suffix.
-/
structure Frontier
    [SubsortType S]
    (cut : Nat → Prop)
    (f : Nat)
    (suffix : List (AddrRange V S)) : Prop where
  sorted : KeySorted AddrRange.key suffix
  ordered : ∀ range ∈ suffix, range.first ≤ range.last
  whole : ∀ range ∈ suffix, range.Whole cut
  ends : ∀ range ∈ suffix, range.EndsAt cut
  start : cut f
  beyond :
    ∀ point, cut point → f < point →
      ∃ range ∈ suffix,
        point = range.first ∨ point = range.last + 1

namespace Frontier

variable [SubsortType S]
variable {cut : Nat → Prop}
variable {f : Nat}
variable {low range : AddrRange V S}
variable {rest suffix : List (AddrRange V S)}

/- Ends are sorted, and so are starts. -/
theorem firstSorted
    (hFrontier : Frontier cut f suffix) :
    KeySorted AddrRange.first suffix := by
  refine List.Pairwise.imp_of_mem ?_ hFrontier.sorted
  intro left right hLeft hRight hKey
  have hLast := AddrRange.last_le_of_key_le hKey
  have hOrdered := hFrontier.ordered left hLeft
  have hWhole :=
    hFrontier.whole right hRight left.first
      (hFrontier.ends left hLeft).1
  omega

/- Overlapping sub-ranges end together. -/
theorem last_eq
    (hFrontier : Frontier cut f suffix)
    {left right : AddrRange V S}
    (point : Nat)
    (hLeft : left ∈ suffix)
    (hRight : right ∈ suffix)
    (hCoversLeft : left.Covers point)
    (hCoversRight : right.Covers point) :
    left.last = right.last := by
  have hWholeLeft :=
    hFrontier.whole left hLeft (right.last + 1)
      (hFrontier.ends right hRight).2
  have hWholeRight :=
    hFrontier.whole right hRight (left.last + 1)
      (hFrontier.ends left hLeft).2
  unfold AddrRange.Covers at hCoversLeft hCoversRight
  omega

/- A sub-range that reaches `f` starts there or later. -/
theorem le_first
    (hFrontier : Frontier cut f suffix)
    (hMem : range ∈ suffix)
    (hReach : f ≤ range.last) :
    f ≤ range.first := by
  have hWhole :=
    hFrontier.whole range hMem f hFrontier.start
  omega

/- No cut lies between `f` and the next sub-range. -/
theorem not_cut_before
    (hFrontier : Frontier cut f (low :: rest))
    {point : Nat}
    (hCut : cut point)
    (hAfter : f < point) :
    low.first ≤ point := by
  rcases hFrontier.beyond point hCut hAfter with
    ⟨range, hMem, hPoint⟩
  have hFirst := hFrontier.firstSorted.head_le hMem
  have hOrdered := hFrontier.ordered range hMem
  rcases hPoint with hPoint | hPoint
  · omega
  · omega

/- Step over a sub-range that ends before `f`. -/
theorem skip
    (hFrontier : Frontier cut f (low :: rest))
    (hBefore : low.last < f) :
    Frontier cut f rest where
  sorted := hFrontier.sorted.tail
  ordered := fun range hMem =>
    hFrontier.ordered range (List.mem_cons_of_mem _ hMem)
  whole := fun range hMem =>
    hFrontier.whole range (List.mem_cons_of_mem _ hMem)
  ends := fun range hMem =>
    hFrontier.ends range (List.mem_cons_of_mem _ hMem)
  start := hFrontier.start
  beyond := by
    intro point hCut hAfter
    rcases hFrontier.beyond point hCut hAfter with
      ⟨range, hMem, hPoint⟩
    rcases List.mem_cons.mp hMem with rfl | hRest
    · have hOrdered :=
        hFrontier.ordered range List.mem_cons_self
      omega
    · exact ⟨range, hRest, hPoint⟩

/- Step over a sub-range that is filled completely. -/
theorem next
    (hFrontier : Frontier cut f (low :: rest))
    (hReach : f ≤ low.last) :
    Frontier cut (low.last + 1) rest where
  sorted := hFrontier.sorted.tail
  ordered := fun range hMem =>
    hFrontier.ordered range (List.mem_cons_of_mem _ hMem)
  whole := fun range hMem =>
    hFrontier.whole range (List.mem_cons_of_mem _ hMem)
  ends := fun range hMem =>
    hFrontier.ends range (List.mem_cons_of_mem _ hMem)
  start := (hFrontier.ends low List.mem_cons_self).2
  beyond := by
    intro point hCut hAfter
    rcases hFrontier.beyond point hCut (by omega) with
      ⟨range, hMem, hPoint⟩
    rcases List.mem_cons.mp hMem with rfl | hRest
    · have hOrdered :=
        hFrontier.ordered range List.mem_cons_self
      omega
    · exact ⟨range, hRest, hPoint⟩

end Frontier

end RangeMap

end LLDBGhidra

------------------------------------------------------------
-- The Effect of One Boundary
------------------------------------------------------------

namespace LLDBGhidra

open SortedList

variable {V S : Type}

namespace RangeMap

variable [SubsortType S]
variable {cut : Nat → Prop}
variable {f i : Nat}
variable {low : AddrRange V S}
variable {rest : List (AddrRange V S)}

/- The sub-ranges that `unzip` splits. -/
private theorem mem_group_iff
    (hFrontier : Frontier cut f (low :: rest))
    {range : AddrRange V S} :
    range ∈ (low :: rest).takeWhile
        (fun other => other.first ≤ i) ↔
      range ∈ low :: rest ∧ range.first ≤ i :=
  mem_takeWhile_le_iff hFrontier.firstSorted i range

private theorem mem_ungrouped_iff
    (hFrontier : Frontier cut f (low :: rest))
    {range : AddrRange V S} :
    range ∈ (low :: rest).dropWhile
        (fun other => other.first ≤ i) ↔
      range ∈ low :: rest ∧ i < range.first :=
  mem_dropWhile_le_iff hFrontier.firstSorted i range

/- The left halves of an unzipped suffix. -/
theorem mem_unzip_fst_iff
    (hFrontier : Frontier cut f (low :: rest))
    (hInside : i < low.last)
    {range : AddrRange V S} :
    range ∈ (unzip i (low :: rest)).1 ↔
      ∃ other ∈ low :: rest, other.first ≤ i ∧
        range = { other with last := i } := by
  have hNe : low.last ≠ i := by omega
  simp only [unzip, hNe, if_false, List.mem_map]
  constructor
  · rintro ⟨other, hOther, rfl⟩
    have hGroup := (mem_group_iff hFrontier).mp hOther
    exact ⟨other, hGroup.1, hGroup.2, rfl⟩
  · rintro ⟨other, hMem, hFirst, rfl⟩
    exact ⟨other,
      (mem_group_iff hFrontier).mpr ⟨hMem, hFirst⟩, rfl⟩

/- What an unzipped suffix keeps behind the boundary. -/
theorem mem_unzip_snd_iff
    (hFrontier : Frontier cut f (low :: rest))
    (hInside : i < low.last)
    {range : AddrRange V S} :
    range ∈ (unzip i (low :: rest)).2 ↔
      (range ∈ low :: rest ∧ i < range.first) ∨
        ∃ other ∈ low :: rest, other.first ≤ i ∧
          range = { other with first := i + 1 } := by
  have hNe : low.last ≠ i := by omega
  simp only [unzip, hNe, if_false, List.mem_append,
    List.mem_map]
  constructor
  · rintro (⟨other, hOther, rfl⟩ | hRest)
    · have hGroup := (mem_group_iff hFrontier).mp hOther
      exact Or.inr ⟨other, hGroup.1, hGroup.2, rfl⟩
    · exact Or.inl ((mem_ungrouped_iff hFrontier).mp hRest)
  · rintro (hRest | ⟨other, hMem, hFirst, rfl⟩)
    · exact Or.inr ((mem_ungrouped_iff hFrontier).mpr hRest)
    · exact Or.inl ⟨other,
        (mem_group_iff hFrontier).mpr ⟨hMem, hFirst⟩, rfl⟩

/- A member of either part of an unzipped suffix. -/
theorem mem_unzip_iff
    (hFrontier : Frontier cut f (low :: rest))
    (hInside : i < low.last)
    {range : AddrRange V S} :
    range ∈ (unzip i (low :: rest)).1 ++
        (unzip i (low :: rest)).2 ↔
      (range ∈ low :: rest ∧ i < range.first) ∨
        ∃ other ∈ low :: rest, other.first ≤ i ∧
          (range = { other with last := i } ∨
            range = { other with first := i + 1 }) := by
  rw [List.mem_append, mem_unzip_fst_iff hFrontier hInside,
    mem_unzip_snd_iff hFrontier hInside]
  constructor
  · rintro (⟨other, hMem, hFirst, hRange⟩ |
      hRest | ⟨other, hMem, hFirst, hRange⟩)
    · exact Or.inr ⟨other, hMem, hFirst, Or.inl hRange⟩
    · exact Or.inl hRest
    · exact Or.inr ⟨other, hMem, hFirst, Or.inr hRange⟩
  · rintro (hRest | ⟨other, hMem, hFirst, hRange | hRange⟩)
    · exact Or.inr (Or.inl hRest)
    · exact Or.inl ⟨other, hMem, hFirst, hRange⟩
    · exact Or.inr (Or.inr ⟨other, hMem, hFirst, hRange⟩)

/- The split sub-ranges all end where the first one does. -/
theorem last_eq_of_first_le
    (hFrontier : Frontier cut f (low :: rest))
    (hInside : i < low.last)
    {range : AddrRange V S}
    (hMem : range ∈ low :: rest)
    (hFirst : range.first ≤ i) :
    range.last = low.last := by
  have hLow := hFrontier.firstSorted.head_le hMem
  have hLast :=
    AddrRange.last_le_of_key_le
      (hFrontier.sorted.head_le hMem)
  refine hFrontier.last_eq low.last hMem
    List.mem_cons_self ⟨?_, hLast⟩ ⟨?_, le_rfl⟩
  · omega
  · exact hFrontier.ordered low List.mem_cons_self

/- The keys of the walked part are the old ones. -/
omit [SubsortType S] in
theorem map_key_unzip_snd :
    (unzip i (low :: rest)).2.map AddrRange.key =
      (low :: rest).map AddrRange.key := by
  by_cases hEnd : low.last = i
  · simp [unzip, hEnd]
  · simp only [unzip, hEnd, if_false, List.map_append,
      List.map_map]
    conv_rhs =>
      rw [← List.takeWhile_append_dropWhile
        (p := fun range : AddrRange V S => range.first ≤ i)
        (l := low :: rest), List.map_append]
    rfl

/- Unzipping keeps the sub-ranges in order. -/
theorem keySorted_unzip
    (hFrontier : Frontier cut f (low :: rest))
    (hInside : i < low.last) :
    KeySorted AddrRange.key
      ((unzip i (low :: rest)).1 ++
        (unzip i (low :: rest)).2) := by
  have hNe : low.last ≠ i := by omega
  refine KeySorted.append ?_
    (KeySorted.congr_keys map_key_unzip_snd hFrontier.sorted) ?_
  · simp only [unzip, hNe, if_false]
    refine List.pairwise_map.mpr ?_
    refine List.Pairwise.imp_of_mem ?_
      (hFrontier.sorted.of_sublist
        (List.takeWhile_sublist _))
    intro left right hLeft hRight hKey
    have hLeftGroup := (mem_group_iff hFrontier).mp hLeft
    have hRightGroup := (mem_group_iff hFrontier).mp hRight
    have hLeftLast :=
      last_eq_of_first_le hFrontier hInside
        hLeftGroup.1 hLeftGroup.2
    have hRightLast :=
      last_eq_of_first_le hFrontier hInside
        hRightGroup.1 hRightGroup.2
    rcases AddrRange.key_le_iff.mp hKey with hLast | hSame
    · omega
    · exact AddrRange.key_le_iff.mpr
        (Or.inr ⟨rfl, hSame.2⟩)
  · intro left hLeft right hRight
    rcases (mem_unzip_fst_iff hFrontier hInside).mp hLeft with
      ⟨_, _, _, rfl⟩
    have hRightKey : right.key ∈
        (low :: rest).map AddrRange.key := by
      rw [← map_key_unzip_snd (i := i)]
      exact List.mem_map_of_mem hRight
    rcases List.mem_map.mp hRightKey with
      ⟨other, hOther, hEq⟩
    have hRightLast : right.last = other.last :=
      (congrArg (fun pair => (ofLex pair).1) hEq).symm
    have hLast :=
      AddrRange.last_le_of_key_le
        (hFrontier.sorted.head_le hOther)
    refine AddrRange.key_le_iff.mpr (Or.inl ?_)
    show i < right.last
    omega

end RangeMap

end LLDBGhidra

------------------------------------------------------------
-- The Loop of an Insertion
------------------------------------------------------------

namespace LLDBGhidra

open SortedList

variable {V S : Type}

namespace RangeMap

variable [SubsortType S]
variable {cut : Nat → Prop}
variable {piece low : AddrRange V S}
variable {rest suffix : List (AddrRange V S)}
variable {f : Nat}

/- The piece of the new range that lies over `range`. -/
def pieceOver
    (piece range : AddrRange V S) : AddrRange V S :=
  { piece with first := range.first, last := range.last }

theorem insertLoop_stop
    (hStop : piece.b < low.first) :
    insertLoop piece f (low :: rest) = (low :: rest, f) := by
  have hNot : ¬ low.first ≤ piece.b := by omega
  simp [insertLoop, hNot]

theorem insertLoop_skip
    (hFirst : low.first ≤ piece.b)
    (hSkip : low.last < f) :
    insertLoop piece f (low :: rest) =
      (low :: (insertLoop piece f rest).1,
        (insertLoop piece f rest).2) := by
  have hNot : ¬ f ≤ low.last := by omega
  simp [insertLoop, hFirst, hNot]

theorem insertLoop_next
    (hStart : f ≤ low.first)
    (hOrdered : low.first ≤ low.last)
    (hNext : low.last < piece.b) :
    insertLoop piece f (low :: rest) =
      (gapBefore piece f low ++
          insertLower AddrRange.key (pieceOver piece low)
            (low :: (insertLoop piece (low.last + 1) rest).1),
        (insertLoop piece (low.last + 1) rest).2) := by
  have hFirst : low.first ≤ piece.b := by omega
  have hReach : f ≤ low.last := by omega
  have hMax : max f low.first = low.first := by omega
  simp [insertLoop, hFirst, hReach, hNext, hMax, pieceOver]

theorem insertLoop_fit
    (hStart : f ≤ low.first)
    (hOrdered : low.first ≤ low.last)
    (hFit : low.last = piece.b) :
    insertLoop piece f (low :: rest) =
      (gapBefore piece f low ++
          insertLower AddrRange.key (pieceOver piece low)
            (low :: rest),
        low.first) := by
  have hFirst : low.first ≤ piece.b := by omega
  have hReach : f ≤ piece.b := by omega
  have hMax : max f low.first = low.first := by omega
  simp [insertLoop, hFirst, hReach, hFit, hMax, pieceOver]

theorem insertLoop_split
    (hStart : f ≤ low.first)
    (hFirst : low.first ≤ piece.b)
    (hSplit : piece.b < low.last) :
    insertLoop piece f (low :: rest) =
      (gapBefore piece f low ++
          ((unzip piece.b (low :: rest)).1 ++
            (unzip piece.b (low :: rest)).2),
        low.first) := by
  have hReach : f ≤ low.last := by omega
  have hNotNext : ¬ low.last < piece.b := by omega
  have hNotFit : ¬ low.last = piece.b := by omega
  have hMax : max f low.first = low.first := by omega
  simp [insertLoop, hFirst, hReach, hNotNext, hNotFit, hMax]

/-
  The loop visits a frontier in one of six ways; two of them
  go on with a smaller frontier.
-/
theorem insertLoop_induction
    (cut : Nat → Prop)
    (piece : AddrRange V S)
    {motive : Nat → List (AddrRange V S) → Prop}
    (nil :
      ∀ f, Frontier cut f ([] : List (AddrRange V S)) →
        f ≤ piece.b → motive f [])
    (stop :
      ∀ f low rest, Frontier cut f (low :: rest) →
        f ≤ piece.b → piece.b < low.first →
        motive f (low :: rest))
    (skip :
      ∀ f low rest, Frontier cut f (low :: rest) →
        f ≤ piece.b → low.first ≤ piece.b → low.last < f →
        motive f rest → motive f (low :: rest))
    (next :
      ∀ f low rest, Frontier cut f (low :: rest) →
        f ≤ low.first → low.first ≤ low.last →
        low.last < piece.b →
        motive (low.last + 1) rest → motive f (low :: rest))
    (fit :
      ∀ f low rest, Frontier cut f (low :: rest) →
        f ≤ low.first → low.first ≤ low.last →
        low.last = piece.b → motive f (low :: rest))
    (split :
      ∀ f low rest, Frontier cut f (low :: rest) →
        f ≤ low.first → low.first ≤ piece.b →
        piece.b < low.last → motive f (low :: rest))
    (hFrontier : Frontier cut f suffix)
    (hBound : f ≤ piece.b) :
    motive f suffix := by
  induction suffix generalizing f with
  | nil => exact nil f hFrontier hBound
  | cons low rest ih =>
      have hOrdered :=
        hFrontier.ordered low List.mem_cons_self
      by_cases hStop : piece.b < low.first
      · exact stop f low rest hFrontier hBound hStop
      · have hFirst : low.first ≤ piece.b := by omega
        by_cases hSkip : low.last < f
        · exact skip f low rest hFrontier hBound hFirst
            hSkip (ih (hFrontier.skip hSkip) hBound)
        · have hReach : f ≤ low.last := by omega
          have hStart :=
            hFrontier.le_first List.mem_cons_self hReach
          rcases Nat.lt_trichotomy low.last piece.b with
            hNext | hFit | hSplit
          · exact next f low rest hFrontier hStart hOrdered
              hNext (ih (hFrontier.next hReach) (by omega))
          · exact fit f low rest hFrontier hStart hOrdered
              hFit
          · exact split f low rest hFrontier hStart hFirst
              hSplit

/- A piece of the new range between `f` and its end. -/
def Fills
    (cut : Nat → Prop)
    (piece : AddrRange V S)
    (f : Nat)
    (range : AddrRange V S) : Prop :=
  ∃ first last,
    range = { piece with first := first, last := last } ∧
      f ≤ first ∧ first ≤ last ∧ last ≤ piece.b ∧
      range.Whole cut ∧ range.EndsAt cut

omit [SubsortType S] in
theorem Fills.mono
    {f' : Nat}
    {range : AddrRange V S}
    (hFills : Fills cut piece f' range)
    (hLe : f ≤ f') :
    Fills cut piece f range := by
  rcases hFills with
    ⟨first, last, hRange, hFirst, hOrdered, hLast,
      hWhole, hEnds⟩
  exact ⟨first, last, hRange, hLe.trans hFirst, hOrdered,
    hLast, hWhole, hEnds⟩

/- The gap in front of a sub-range is free of cuts. -/
theorem Frontier.fills_gap
    (hFrontier : Frontier cut f (low :: rest))
    (hFirst : low.first ≤ piece.b)
    {range : AddrRange V S}
    (hRange : range ∈ gapBefore piece f low) :
    Fills cut piece f range := by
  unfold gapBefore at hRange
  by_cases hGap : f < low.first
  · simp only [hGap, if_true, List.mem_singleton] at hRange
    refine ⟨f, low.first - 1, hRange, le_rfl, by omega,
      by omega, ?_, ?_⟩
    · subst hRange
      intro point hCut hInside
      have hBefore :=
        hFrontier.not_cut_before hCut hInside.1
      have hLast : point ≤ low.first - 1 := hInside.2
      omega
    · subst hRange
      have hNext : low.first - 1 + 1 = low.first := by omega
      refine ⟨hFrontier.start, ?_⟩
      show cut (low.first - 1 + 1)
      rw [hNext]
      exact (hFrontier.ends low List.mem_cons_self).1
  · simp [hGap] at hRange

/- A piece over a sub-range has the same boundaries. -/
theorem Frontier.fills_pieceOver
    (hFrontier : Frontier cut f (low :: rest))
    (hStart : f ≤ low.first)
    (hLast : low.last ≤ piece.b) :
    Fills cut piece f (pieceOver piece low) := by
  refine ⟨low.first, low.last, rfl, hStart,
    hFrontier.ordered low List.mem_cons_self, hLast, ?_, ?_⟩
  · exact hFrontier.whole low List.mem_cons_self
  · exact hFrontier.ends low List.mem_cons_self

/-
  What the loop leaves: sub-ranges on one side of the end of
  the new range, halves of those across it, and new pieces.
-/
theorem mem_insertLoop
    (hFrontier : Frontier cut f suffix)
    (hBound : f ≤ piece.b)
    {range : AddrRange V S}
    (hRange : range ∈ (insertLoop piece f suffix).1) :
    (range ∈ suffix ∧
        (range.last ≤ piece.b ∨ piece.b < range.first)) ∨
      (∃ other ∈ suffix, other.first ≤ piece.b ∧
        piece.b < other.last ∧
        (range = { other with last := piece.b } ∨
          range = { other with first := piece.b + 1 })) ∨
      Fills cut piece f range := by
  revert hRange
  refine insertLoop_induction cut piece
    (motive := fun f suffix =>
      range ∈ (insertLoop piece f suffix).1 →
        (range ∈ suffix ∧
          (range.last ≤ piece.b ∨ piece.b < range.first)) ∨
        (∃ other ∈ suffix, other.first ≤ piece.b ∧
          piece.b < other.last ∧
          (range = { other with last := piece.b } ∨
            range = { other with first := piece.b + 1 })) ∨
        Fills cut piece f range)
    ?_ ?_ ?_ ?_ ?_ ?_ hFrontier hBound
  · intro f _ _ hRange
    simp [insertLoop] at hRange
  · intro f low rest hFrontier _ hStop hRange
    rw [insertLoop_stop hStop] at hRange
    have hFirst := hFrontier.firstSorted.head_le hRange
    exact Or.inl ⟨hRange, Or.inr (by omega)⟩
  · intro f low rest hFrontier hBound hFirst hSkip ih hRange
    rw [insertLoop_skip hFirst hSkip] at hRange
    rcases List.mem_cons.mp hRange with rfl | hRest
    · exact Or.inl ⟨List.mem_cons_self, Or.inl (by omega)⟩
    · rcases ih hRest with hOld | hHalf | hNew
      · exact Or.inl
          ⟨List.mem_cons_of_mem _ hOld.1, hOld.2⟩
      · rcases hHalf with ⟨other, hOther, hRest⟩
        exact Or.inr (Or.inl
          ⟨other, List.mem_cons_of_mem _ hOther, hRest⟩)
      · exact Or.inr (Or.inr hNew)
  · intro f low rest hFrontier hStart hOrdered hNext ih hRange
    rw [insertLoop_next hStart hOrdered hNext] at hRange
    rcases List.mem_append.mp hRange with hGap | hTail
    · exact Or.inr (Or.inr
        (hFrontier.fills_gap (by omega) hGap))
    · rcases mem_insertLower.mp hTail with rfl | hTail
      · exact Or.inr (Or.inr
          (hFrontier.fills_pieceOver hStart (by omega)))
      · rcases List.mem_cons.mp hTail with rfl | hRest
        · exact Or.inl
            ⟨List.mem_cons_self, Or.inl (by omega)⟩
        · rcases ih hRest with hOld | hHalf | hNew
          · exact Or.inl
              ⟨List.mem_cons_of_mem _ hOld.1, hOld.2⟩
          · rcases hHalf with ⟨other, hOther, hRest⟩
            exact Or.inr (Or.inl
              ⟨other, List.mem_cons_of_mem _ hOther, hRest⟩)
          · exact Or.inr (Or.inr (hNew.mono (by omega)))
  · intro f low rest hFrontier hStart hOrdered hFit hRange
    rw [insertLoop_fit hStart hOrdered hFit] at hRange
    rcases List.mem_append.mp hRange with hGap | hTail
    · exact Or.inr (Or.inr
        (hFrontier.fills_gap (by omega) hGap))
    · rcases mem_insertLower.mp hTail with rfl | hMem
      · exact Or.inr (Or.inr
          (hFrontier.fills_pieceOver hStart (by omega)))
      · have hWhole :=
          hFrontier.whole range hMem (low.last + 1)
            (hFrontier.ends low List.mem_cons_self).2
        exact Or.inl ⟨hMem, by omega⟩
  · intro f low rest hFrontier hStart hFirst hSplit hRange
    rw [insertLoop_split hStart hFirst hSplit] at hRange
    rcases List.mem_append.mp hRange with hGap | hHalves
    · exact Or.inr (Or.inr (hFrontier.fills_gap hFirst hGap))
    · rcases (mem_unzip_iff hFrontier hSplit).mp hHalves with
        hOld | hHalf
      · exact Or.inl ⟨hOld.1, Or.inr hOld.2⟩
      · rcases hHalf with ⟨other, hOther, hBefore, hRange⟩
        have hLast :=
          last_eq_of_first_le hFrontier hSplit hOther hBefore
        exact Or.inr (Or.inl
          ⟨other, hOther, hBefore, by omega, hRange⟩)

end RangeMap

end LLDBGhidra

------------------------------------------------------------
-- Order and Coverage after the Loop
------------------------------------------------------------

namespace LLDBGhidra

open SortedList

variable {V S : Type}

namespace RangeMap

variable [SubsortType S]
variable {cut : Nat → Prop}
variable {piece low : AddrRange V S}
variable {rest suffix : List (AddrRange V S)}
variable {f : Nat}

omit [SubsortType S] in
private theorem gapBefore_last
    {range : AddrRange V S}
    (hRange : range ∈ gapBefore piece f low) :
    f ≤ range.last ∧ range.last < low.first := by
  unfold gapBefore at hRange
  by_cases hGap : f < low.first
  · simp only [hGap, if_true, List.mem_singleton] at hRange
    subst hRange
    show f ≤ low.first - 1 ∧ low.first - 1 < low.first
    omega
  · simp [hGap] at hRange

private theorem keySorted_gapBefore :
    KeySorted AddrRange.key (gapBefore piece f low) := by
  unfold gapBefore
  by_cases hGap : f < low.first
  · simp [hGap, KeySorted]
  · simp [hGap, KeySorted]

/- A gap goes in front of all that starts after it. -/
private theorem keySorted_gap_append
    {tail : List (AddrRange V S)}
    (hTail : KeySorted AddrRange.key tail)
    (hAfter : ∀ range ∈ tail, low.first ≤ range.last) :
    KeySorted AddrRange.key
      (gapBefore piece f low ++ tail) := by
  refine KeySorted.append keySorted_gapBefore hTail ?_
  intro left hLeft right hRight
  have hGap := gapBefore_last hLeft
  have hRest := hAfter right hRight
  exact AddrRange.key_le_iff.mpr (Or.inl (by omega))

/- Every end in the result is an old one or is not below `f`. -/
theorem insertLoop_key
    (hFrontier : Frontier cut f suffix)
    (hBound : f ≤ piece.b)
    {range : AddrRange V S}
    (hRange : range ∈ (insertLoop piece f suffix).1) :
    (∃ other ∈ suffix, range.key = other.key) ∨
      f ≤ range.last := by
  rcases mem_insertLoop hFrontier hBound hRange with
    hOld | hHalf | hNew
  · exact Or.inl ⟨range, hOld.1, rfl⟩
  · rcases hHalf with ⟨other, hOther, _, _, rfl | rfl⟩
    · exact Or.inr hBound
    · exact Or.inl ⟨other, hOther, rfl⟩
  · rcases hNew with
      ⟨first, last, rfl, hFirst, hOrdered, _, _, _⟩
    exact Or.inr (hFirst.trans hOrdered)

/- The loop keeps the sub-ranges in order. -/
theorem keySorted_insertLoop
    (hFrontier : Frontier cut f suffix)
    (hBound : f ≤ piece.b) :
    KeySorted AddrRange.key
      (insertLoop piece f suffix).1 := by
  refine insertLoop_induction cut piece
    (motive := fun f suffix =>
      KeySorted AddrRange.key (insertLoop piece f suffix).1)
    ?_ ?_ ?_ ?_ ?_ ?_ hFrontier hBound
  · intro f _ _
    simp [insertLoop, KeySorted]
  · intro f low rest hFrontier _ hStop
    rw [insertLoop_stop hStop]
    exact hFrontier.sorted
  · intro f low rest hFrontier hBound hFirst hSkip ih
    rw [insertLoop_skip hFirst hSkip]
    refine List.pairwise_cons.mpr ⟨?_, ih⟩
    intro range hRange
    rcases insertLoop_key (hFrontier.skip hSkip) hBound
        hRange with ⟨other, hOther, hKey⟩ | hLast
    · rw [hKey]
      exact hFrontier.sorted.head_le
        (List.mem_cons_of_mem _ hOther)
    · exact AddrRange.key_le_iff.mpr (Or.inl (by omega))
  · intro f low rest hFrontier hStart hOrdered hNext ih
    rw [insertLoop_next hStart hOrdered hNext]
    have hReach : f ≤ low.last := by omega
    have hHead :
        ∀ range ∈ (insertLoop piece (low.last + 1) rest).1,
          low.key ≤ range.key := by
      intro range hRange
      rcases insertLoop_key (hFrontier.next hReach)
          (by omega) hRange with ⟨other, hOther, hKey⟩ | hLast
      · rw [hKey]
        exact hFrontier.sorted.head_le
          (List.mem_cons_of_mem _ hOther)
      · exact AddrRange.key_le_iff.mpr (Or.inl (by omega))
    refine keySorted_gap_append
      (KeySorted.insertLower
        (List.pairwise_cons.mpr ⟨hHead, ih⟩) _) ?_
    intro range hRange
    rcases mem_insertLower.mp hRange with rfl | hRange
    · exact hOrdered
    · rcases List.mem_cons.mp hRange with rfl | hRest
      · exact hOrdered
      · have hLast :=
          AddrRange.last_le_of_key_le (hHead range hRest)
        omega
  · intro f low rest hFrontier hStart hOrdered hFit
    rw [insertLoop_fit hStart hOrdered hFit]
    refine keySorted_gap_append
      (KeySorted.insertLower hFrontier.sorted _) ?_
    intro range hRange
    rcases mem_insertLower.mp hRange with rfl | hRange
    · exact hOrdered
    · have hLast :=
        AddrRange.last_le_of_key_le
          (hFrontier.sorted.head_le hRange)
      omega
  · intro f low rest hFrontier hStart hFirst hSplit
    rw [insertLoop_split hStart hFirst hSplit]
    refine keySorted_gap_append
      (keySorted_unzip hFrontier hSplit) ?_
    intro range hRange
    rcases (mem_unzip_iff hFrontier hSplit).mp hRange with
      hOld | ⟨other, hOther, hBefore, rfl | rfl⟩
    · have hLast :=
        AddrRange.last_le_of_key_le
          (hFrontier.sorted.head_le hOld.1)
      omega
    · exact hFirst
    · have hLast :=
        last_eq_of_first_le hFrontier hSplit hOther hBefore
      show low.first ≤ other.last
      omega

/- Some sub-range of `value` contains the offset. -/
def CoveredAt
    (tree : List (AddrRange V S))
    (value : V)
    (point : Nat) : Prop :=
  ∃ range ∈ tree, range.value = value ∧ range.Covers point

omit [SubsortType S] in
theorem CoveredAt.mono
    {tree larger : List (AddrRange V S)}
    {value : V}
    {point : Nat}
    (hCovered : CoveredAt tree value point)
    (hSubset : ∀ range ∈ tree, range ∈ larger) :
    CoveredAt larger value point := by
  rcases hCovered with ⟨range, hRange, hCovers⟩
  exact ⟨range, hSubset range hRange, hCovers⟩

/- Splitting sub-ranges uncovers nothing. -/
theorem covered_unzip
    (hFrontier : Frontier cut f (low :: rest))
    {i : Nat}
    (hInside : i < low.last)
    {value : V}
    {point : Nat}
    (hCovered : CoveredAt (low :: rest) value point) :
    CoveredAt ((unzip i (low :: rest)).1 ++
      (unzip i (low :: rest)).2) value point := by
  rcases hCovered with ⟨range, hRange, hValue, hCovers⟩
  have hMem :=
    fun part : AddrRange V S =>
      (mem_unzip_iff hFrontier hInside :
        part ∈ (unzip i (low :: rest)).1 ++
          (unzip i (low :: rest)).2 ↔ _)
  by_cases hBefore : range.first ≤ i
  · by_cases hLeft : point ≤ i
    · exact ⟨{ range with last := i },
        (hMem _).mpr
          (Or.inr ⟨range, hRange, hBefore, Or.inl rfl⟩),
        hValue, hCovers.1, hLeft⟩
    · have hRight : i + 1 ≤ point := by omega
      exact ⟨{ range with first := i + 1 },
        (hMem _).mpr
          (Or.inr ⟨range, hRange, hBefore, Or.inr rfl⟩),
        hValue, hRight, hCovers.2⟩
  · exact ⟨range,
      (hMem _).mpr (Or.inl ⟨hRange, by omega⟩),
      hValue, hCovers⟩

/- What was covered stays covered. -/
theorem covered_insertLoop
    (hFrontier : Frontier cut f suffix)
    (hBound : f ≤ piece.b)
    {value : V}
    {point : Nat}
    (hCovered : CoveredAt suffix value point) :
    CoveredAt (insertLoop piece f suffix).1 value point := by
  revert hCovered
  refine insertLoop_induction cut piece
    (motive := fun f suffix =>
      CoveredAt suffix value point →
        CoveredAt (insertLoop piece f suffix).1 value point)
    ?_ ?_ ?_ ?_ ?_ ?_ hFrontier hBound
  · intro f _ _ hCovered
    simpa [insertLoop] using hCovered
  · intro f low rest _ _ hStop hCovered
    rw [insertLoop_stop hStop]
    exact hCovered
  · intro f low rest _ _ hFirst hSkip ih hCovered
    rw [insertLoop_skip hFirst hSkip]
    rcases hCovered with ⟨range, hRange, hCovers⟩
    rcases List.mem_cons.mp hRange with rfl | hRest
    · exact ⟨range, List.mem_cons_self, hCovers⟩
    · exact (ih ⟨range, hRest, hCovers⟩).mono
        (fun _ hMem => List.mem_cons_of_mem _ hMem)
  · intro f low rest _ hStart hOrdered hNext ih hCovered
    rw [insertLoop_next hStart hOrdered hNext]
    rcases hCovered with ⟨range, hRange, hCovers⟩
    rcases List.mem_cons.mp hRange with rfl | hRest
    · exact ⟨range, by simp, hCovers⟩
    · exact (ih ⟨range, hRest, hCovers⟩).mono
        (fun other hMem => by simp [hMem])
  · intro f low rest _ hStart hOrdered hFit hCovered
    rw [insertLoop_fit hStart hOrdered hFit]
    refine hCovered.mono (fun other hMem => ?_)
    rcases List.mem_cons.mp hMem with rfl | hRest
    · simp
    · simp [hRest]
  · intro f low rest hFrontier hStart hFirst hSplit hCovered
    rw [insertLoop_split hStart hFirst hSplit]
    exact (covered_unzip hFrontier hSplit hCovered).mono
      (fun other hMem =>
        List.mem_append.mpr (Or.inr hMem))

/- The gap and the piece over a sub-range cover the start. -/
private theorem covered_over
    {tail : List (AddrRange V S)}
    {point : Nat}
    (hStart : f ≤ point)
    (hLast : point ≤ low.last) :
    CoveredAt
      (gapBefore piece f low ++
        insertLower AddrRange.key (pieceOver piece low) tail)
      piece.value point := by
  by_cases hFirst : low.first ≤ point
  · exact ⟨pieceOver piece low, by simp, rfl, hFirst, hLast⟩
  · refine ⟨{ piece with first := f, last := low.first - 1 },
      ?_, rfl, hStart, ?_⟩
    · have hGap : f < low.first := by omega
      simp [gapBefore, hGap]
    · show point ≤ low.first - 1
      omega

/- The new range is covered up to the final `f`. -/
theorem covered_new_insertLoop
    (piece : AddrRange V S)
    (hFrontier : Frontier cut f suffix)
    (hBound : f ≤ piece.b)
    {point : Nat}
    (hStart : f ≤ point)
    (hPoint : point < (insertLoop piece f suffix).2 ∨
      piece.b < (insertLoop piece f suffix).2)
    (hEnd : point ≤ piece.b) :
    CoveredAt (insertLoop piece f suffix).1
      piece.value point := by
  revert hPoint hStart
  refine insertLoop_induction cut piece
    (motive := fun f suffix =>
      f ≤ point →
        (point < (insertLoop piece f suffix).2 ∨
          piece.b < (insertLoop piece f suffix).2) →
        CoveredAt (insertLoop piece f suffix).1
          piece.value point)
    ?_ ?_ ?_ ?_ ?_ ?_ hFrontier hBound
  · intro f _ hBound hStart hPoint
    simp only [insertLoop] at hPoint
    omega
  · intro f low rest _ hBound hStop hStart hPoint
    rw [insertLoop_stop hStop] at hPoint
    have hFalse : point < f ∨ piece.b < f := hPoint
    omega
  · intro f low rest _ _ hFirst hSkip ih hStart hPoint
    rw [insertLoop_skip hFirst hSkip] at hPoint ⊢
    exact (ih hStart hPoint).mono
      (fun _ hMem => List.mem_cons_of_mem _ hMem)
  · intro f low rest _ hFirst hOrdered hNext ih hStart hPoint
    rw [insertLoop_next hFirst hOrdered hNext] at hPoint ⊢
    by_cases hLast : point ≤ low.last
    · exact covered_over hStart hLast
    · exact (ih (by omega) hPoint).mono
        (fun other hMem => by simp [hMem])
  · intro f low rest _ hFirst hOrdered hFit hStart _
    rw [insertLoop_fit hFirst hOrdered hFit]
    exact covered_over hStart (by omega)
  · intro f low rest hFrontier hFirst hBefore hSplit hStart
      hPoint
    rw [insertLoop_split hFirst hBefore hSplit] at hPoint ⊢
    have hGap : point < low.first := by
      have hCases : point < low.first ∨ piece.b < low.first :=
        hPoint
      omega
    refine ⟨{ piece with first := f, last := low.first - 1 },
      ?_, rfl, hStart, ?_⟩
    · have hOpen : f < low.first := by omega
      simp [gapBefore, hOpen]
    · show point ≤ low.first - 1
      omega

/- What is left of the new range is free of cuts. -/
theorem fills_rest_insertLoop
    (piece : AddrRange V S)
    (hFrontier : Frontier cut f suffix)
    (hBound : f ≤ piece.b)
    (hOpen : (insertLoop piece f suffix).2 ≤ piece.b) :
    cut (insertLoop piece f suffix).2 ∧
      f ≤ (insertLoop piece f suffix).2 ∧
      ∀ point, cut point →
        ¬ ((insertLoop piece f suffix).2 < point ∧
          point ≤ piece.b) := by
  revert hOpen
  refine insertLoop_induction cut piece
    (motive := fun f suffix =>
      (insertLoop piece f suffix).2 ≤ piece.b →
        cut (insertLoop piece f suffix).2 ∧
          f ≤ (insertLoop piece f suffix).2 ∧
          ∀ point, cut point →
            ¬ ((insertLoop piece f suffix).2 < point ∧
              point ≤ piece.b))
    ?_ ?_ ?_ ?_ ?_ ?_ hFrontier hBound
  · intro f hFrontier _ _
    refine ⟨hFrontier.start, le_rfl, ?_⟩
    intro point hCut hInside
    rcases hFrontier.beyond point hCut hInside.1 with
      ⟨range, hRange, _⟩
    simp at hRange
  · intro f low rest hFrontier _ hStop _
    rw [insertLoop_stop hStop]
    refine ⟨hFrontier.start, le_rfl, ?_⟩
    intro point hCut hInside
    have hAfter : f < point := hInside.1
    have hEnd : point ≤ piece.b := hInside.2
    have hFirst := hFrontier.not_cut_before hCut hAfter
    omega
  · intro f low rest _ _ hFirst hSkip ih hOpen
    rw [insertLoop_skip hFirst hSkip] at hOpen ⊢
    exact ih hOpen
  · intro f low rest _ hStart hOrdered hNext ih hOpen
    rw [insertLoop_next hStart hOrdered hNext] at hOpen ⊢
    rcases ih hOpen with ⟨hCut, hLe, hFree⟩
    exact ⟨hCut, by omega, hFree⟩
  · intro f low rest hFrontier hStart hOrdered hFit _
    rw [insertLoop_fit hStart hOrdered hFit]
    refine ⟨(hFrontier.ends low List.mem_cons_self).1,
      hStart, ?_⟩
    intro point hCut
    rw [← hFit]
    exact hFrontier.whole low List.mem_cons_self point hCut
  · intro f low rest hFrontier hStart hFirst hSplit _
    rw [insertLoop_split hStart hFirst hSplit]
    refine ⟨(hFrontier.ends low List.mem_cons_self).1,
      hStart, ?_⟩
    intro point hCut hInside
    have hWhole :=
      hFrontier.whole low List.mem_cons_self point hCut
    have hAfter : low.first < point := hInside.1
    have hEnd : point ≤ piece.b := hInside.2
    omega

end RangeMap

end LLDBGhidra
