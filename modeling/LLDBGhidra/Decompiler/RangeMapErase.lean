import LLDBGhidra.Decompiler.RangeMapRefinement

/-
  Erasing a record from a range map removes all of its
  sub-ranges, also from a map in which wrapped records have
  disturbed the refinement.  The other records keep their last
  sub-range, so that they can be erased in turn.

  Main declarations:
    * `RangeMap.Listed`
    * `RangeMap.Listed.erase`
    * `RangeMap.Listed.isSome_erase`
    * `RangeMap.Listed.ending_erase`
-/

------------------------------------------------------------
-- Listed Maps
------------------------------------------------------------

namespace LLDBGhidra

open SortedList

variable {V S : Type}

namespace RangeMap

variable [SubsortType S] [RecordType V S]

/- What erasing relies on: less than a refinement. -/
structure Listed
    (tree : List (AddrRange V S)) : Prop where
  sorted : KeySorted AddrRange.key tree
  ordered : ∀ range ∈ tree, range.first ≤ range.last
  ends :
    ∀ range ∈ tree,
      RecordType.getFirst range.value ≤ range.last ∧
        range.last ≤ RecordType.getLast range.value
  bounds :
    ∀ range ∈ tree,
      range.b = RecordType.getLast range.value

theorem Refined.listed
    {map : RangeMap V S}
    (hRefined : Refined map) :
    Listed map.tree where
  sorted := hRefined.sorted
  ordered := fun range hRange =>
    (hRefined.within range hRange).2.1
  ends := by
    intro range hRange
    have hWithin := hRefined.within range hRange
    unfold Within at hWithin
    omega
  bounds := fun range hRange =>
    (hRefined.within range hRange).2.2.2.2

theorem Listed.of_sublist
    {tree larger : List (AddrRange V S)}
    (hListed : Listed larger)
    (hSublist : tree.Sublist larger) :
    Listed tree where
  sorted := hListed.sorted.of_sublist hSublist
  ordered := fun range hRange =>
    hListed.ordered range (hSublist.subset hRange)
  ends := fun range hRange =>
    hListed.ends range (hSublist.subset hRange)
  bounds := fun range hRange =>
    hListed.bounds range (hSublist.subset hRange)

/- All of the sub-range but its start is that of another. -/
def Renamed
    (tree : List (AddrRange V S))
    (range : AddrRange V S) : Prop :=
  ∃ other ∈ tree,
    range.key = other.key ∧ range.value = other.value ∧
      range.b = other.b

/- Moving starts keeps a list as long as it stays ordered. -/
theorem Listed.of_renamed
    {tree larger : List (AddrRange V S)}
    (hListed : Listed larger)
    (hSorted : KeySorted AddrRange.key tree)
    (hOrdered : ∀ range ∈ tree, range.first ≤ range.last)
    (hRenamed : ∀ range ∈ tree, Renamed larger range) :
    Listed tree where
  sorted := hSorted
  ordered := hOrdered
  ends := by
    intro range hRange
    rcases hRenamed range hRange with
      ⟨other, hOther, hKey, hValue, _⟩
    have hLast : range.last = other.last :=
      congrArg (fun pair => (ofLex pair).1) hKey
    rw [hLast, hValue]
    exact hListed.ends other hOther
  bounds := by
    intro range hRange
    rcases hRenamed range hRange with
      ⟨other, hOther, _, hValue, hEnd⟩
    rw [hEnd, hValue]
    exact hListed.bounds other hOther

end RangeMap

end LLDBGhidra

------------------------------------------------------------
-- Joining Sub-Ranges
------------------------------------------------------------

namespace LLDBGhidra

open SortedList

variable {V S : Type}

namespace RangeMap

variable [SubsortType S] [RecordType V S]
variable {i : Nat}

/- The sub-ranges that `zip` keeps, with their keys. -/
omit [SubsortType S] [RecordType V S] in
private theorem map_key_zip
    (low : AddrRange V S)
    (rest : List (AddrRange V S)) :
    (zip i (low :: rest)).map AddrRange.key =
      ((low :: rest).dropWhile
        (fun range => range.last = i)).map AddrRange.key := by
  simp only [zip, List.map_append, List.map_map]
  conv_rhs =>
    rw [← List.takeWhile_append_dropWhile
      (p := fun range : AddrRange V S => range.first = i + 1)
      (l := (low :: rest).dropWhile
        (fun range => range.last = i)), List.map_append]
  rfl

/- A member of a zipped list starts where it did or earlier. -/
omit [SubsortType S] [RecordType V S] in
private theorem mem_zip
    {low range : AddrRange V S}
    {rest : List (AddrRange V S)}
    (hRange : range ∈ zip i (low :: rest)) :
    range ∈ low :: rest ∨
      ∃ other ∈ low :: rest,
        range = { other with first := low.first } := by
  simp only [zip, List.mem_append, List.mem_map] at hRange
  rcases hRange with ⟨other, hOther, rfl⟩ | hMem
  · refine Or.inr ⟨other, ?_, rfl⟩
    exact (List.dropWhile_sublist _).subset
      ((List.takeWhile_sublist _).subset hOther)
  · refine Or.inl ?_
    exact (List.dropWhile_sublist _).subset
      ((List.dropWhile_sublist _).subset hMem)

private theorem Listed.zip_suffix
    {front back : List (AddrRange V S)}
    (hListed : Listed (front ++ back)) :
    Listed (front ++ zip i back) ∧
      ∀ range ∈ front ++ zip i back,
        Renamed (front ++ back) range := by
  cases back with
  | nil =>
      exact ⟨hListed,
        fun range hRange => ⟨range, hRange, rfl, rfl, rfl⟩⟩
  | cons low rest =>
      have hParts := List.pairwise_append.mp hListed.sorted
      have hBack : KeySorted AddrRange.key (low :: rest) :=
        hParts.2.1
      have hRenamed :
          ∀ range ∈ front ++ zip i (low :: rest),
            Renamed (front ++ low :: rest) range := by
        intro range hRange
        rcases List.mem_append.mp hRange with hFront | hZip
        · exact ⟨range, List.mem_append_left _ hFront,
            rfl, rfl, rfl⟩
        · rcases mem_zip hZip with hMem | ⟨other, hMem, rfl⟩
          · exact ⟨range, List.mem_append_right _ hMem,
              rfl, rfl, rfl⟩
          · exact ⟨other, List.mem_append_right _ hMem,
              rfl, rfl, rfl⟩
      refine ⟨hListed.of_renamed ?_ ?_ hRenamed, hRenamed⟩
      · have hKept : KeySorted AddrRange.key
            (front ++ (low :: rest).dropWhile
              (fun range => range.last = i)) :=
          hListed.sorted.of_sublist
            ((List.dropWhile_sublist _).append_left front)
        refine KeySorted.congr_keys ?_ hKept
        rw [List.map_append, List.map_append, map_key_zip]
      · intro range hRange
        rcases List.mem_append.mp hRange with hFront | hZip
        · exact hListed.ordered range
            (List.mem_append_left _ hFront)
        · rcases mem_zip hZip with hMem | ⟨other, hMem, rfl⟩
          · exact hListed.ordered range
              (List.mem_append_right _ hMem)
          · have hLow := hListed.ordered low
              (List.mem_append_right _ List.mem_cons_self)
            have hLast := AddrRange.last_le_of_key_le
              (hBack.head_le hMem)
            change low.first ≤ other.last
            omega

/- Joining at a boundary keeps a tree listed. -/
private theorem Listed.zipAt
    {tree : List (AddrRange V S)}
    (hListed : Listed tree)
    (i : Nat) :
    Listed (RangeMap.zipAt i tree) ∧
      ∀ range ∈ RangeMap.zipAt i tree,
        Renamed tree range := by
  have hSplit : Listed
      ((lowerBound i tree).1 ++ (lowerBound i tree).2) := by
    rw [lowerBound_append]
    exact hListed
  have hZip := hSplit.zip_suffix (i := i)
  rw [lowerBound_append] at hZip
  exact hZip

end RangeMap

end LLDBGhidra

------------------------------------------------------------
-- Erasing
------------------------------------------------------------

namespace LLDBGhidra

open SortedList

variable {V S : Type}

namespace RangeMap

variable [SubsortType S] [RecordType V S] [DecidableEq V]

/- The scan only drops sub-ranges of the erased record. -/
omit [SubsortType S] [RecordType V S] in
private theorem eraseLoop_sublist
    (value : V)
    (a b : Nat)
    (seams : Seams)
    (suffix : List (AddrRange V S)) :
    ((eraseLoop value a b seams suffix).1 ++
      (eraseLoop value a b seams suffix).2.1).Sublist
        suffix := by
  induction suffix generalizing seams with
  | nil => simp [eraseLoop]
  | cons low rest ih =>
      simp only [eraseLoop]
      by_cases hValue : low.value = value
      · simp only [hValue, if_true]
        split
        · exact (ih seams).cons low
        · simp
      · simp only [hValue, if_false]
        split
        · exact (ih (seams.meet a b low)).cons_cons low
        · simp

/- The scan drops all of them. -/
private theorem eraseLoop_value_ne
    {value : V}
    {a b : Nat}
    {seams : Seams}
    {suffix : List (AddrRange V S)}
    (hListed : Listed suffix)
    (hEnd : RecordType.getLast value ≤ b)
    {range : AddrRange V S}
    (hRange : range ∈
      (eraseLoop value a b seams suffix).1 ++
        (eraseLoop value a b seams suffix).2.1) :
    range.value ≠ value := by
  induction suffix generalizing seams with
  | nil => simp [eraseLoop] at hRange
  | cons low rest ih =>
      have hRest : Listed rest :=
        hListed.of_sublist (List.sublist_cons_self low rest)
      -- beyond a sub-range that starts after `b`, none is left
      have hBeyond :
          (rest.head?.any fun next => next.first ≤ b) = false →
            ∀ other ∈ rest, other.value ≠ value := by
        intro hStop other hOther hValue
        cases rest with
        | nil => simp at hOther
        | cons next others =>
            have hFirst : b < next.first := by
              simpa using hStop
            have hOrdered :=
              hRest.ordered next List.mem_cons_self
            have hLast := AddrRange.last_le_of_key_le
              (hRest.sorted.head_le hOther)
            have hInside := (hRest.ends other hOther).2
            rw [hValue] at hInside
            omega
      simp only [eraseLoop] at hRange
      by_cases hValue : low.value = value
      · simp only [hValue, if_true] at hRange
        split at hRange
        · exact ih hRest (by simpa using hRange)
        · next hStop =>
            exact hBeyond (by simpa using hStop) range
              (by simpa using hRange)
      · simp only [hValue, if_false] at hRange
        split at hRange
        · have hCases : range = low ∨ range ∈
              (eraseLoop value a b (seams.meet a b low) rest).1
                ++ (eraseLoop value a b
                  (seams.meet a b low) rest).2.1 := by
            simpa using hRange
          rcases hCases with rfl | hMem
          · exact hValue
          · exact ih hRest hMem
        · next hStop =>
            have hCases : range = low ∨ range ∈ rest := by
              simpa using hRange
            rcases hCases with rfl | hMem
            · exact hValue
            · exact hBeyond (by simpa using hStop) range hMem

/-
  A tree with the records of another one, `value` excepted.
-/
private def Erased
    (value : V)
    (tree erased : List (AddrRange V S)) : Prop :=
  Listed erased ∧
    ∀ range ∈ erased,
      range.value ≠ value ∧
        ∃ other ∈ tree, range.value = other.value

omit [DecidableEq V] in
private theorem Erased.zipAt_if
    {value : V}
    {tree erased : List (AddrRange V S)}
    (hErased : Erased value tree erased)
    (i : Nat)
    (sew : Bool) :
    Erased value tree
      (if sew then zipAt i erased else erased) := by
  by_cases hSew : sew = true
  · simp only [hSew, if_true]
    have hZip := hErased.1.zipAt i
    refine ⟨hZip.1, ?_⟩
    intro range hRange
    rcases hZip.2 range hRange with
      ⟨other, hOther, _, hValue, _⟩
    rw [hValue]
    exact hErased.2 other hOther
  · simp only [hSew]
    exact hErased

/- What erasing starts from, and what it comes to. -/
private theorem erase_eq_some
    {map erased : RangeMap V S}
    {value : V}
    (hErase : erase value map = some erased) :
    ∃ low rest,
      (lowerBound (RecordType.getFirst value) map.tree).2 =
          low :: rest ∧
        erased.tree = eraseFrom value
          (lowerBound (RecordType.getFirst value)
            map.tree).1 low rest := by
  unfold erase at hErase
  cases hBack :
      (lowerBound (RecordType.getFirst value) map.tree).2 with
  | nil =>
      simp only [hBack] at hErase
      cases hErase
  | cons low rest =>
      simp only [hBack] at hErase
      rw [← Option.some.inj hErase]
      exact ⟨low, rest, rfl, rfl⟩

/- Erasing leaves records other than the erased one. -/
theorem Listed.erase
    {map erased : RangeMap V S}
    {value : V}
    (hListed : Listed map.tree)
    (hErase : RangeMap.erase value map = some erased) :
    Listed erased.tree ∧
      ∀ range ∈ erased.tree,
        range.value ≠ value ∧
          ∃ other ∈ map.tree, range.value = other.value := by
  rcases erase_eq_some hErase with ⟨low, rest, hBack, hErased⟩
  have hAppend := lowerBound_append
    (RecordType.getFirst value) map.tree
  have hBefore :
      ∀ range ∈
        (lowerBound (RecordType.getFirst value) map.tree).1,
          range.value ≠ value := by
    intro range hRange hValue
    have hMem : range ∈ map.tree := by
      rw [← hAppend]
      exact List.mem_append_left _ hRange
    have hStart := (hListed.ends range hMem).1
    have hLast := last_lt_of_mem_lowerBound hRange
    rw [hValue] at hStart
    omega
  rw [hBack] at hAppend
  generalize (lowerBound (RecordType.getFirst value)
    map.tree).1 = front at hAppend hBefore hErased
  have hSuffix : Listed (low :: rest) := by
    refine hListed.of_sublist ?_
    rw [← hAppend]
    exact List.sublist_append_right _ _
  have hScan : ∀ seams,
      Erased value map.tree
        (front ++
          ((eraseLoop value (RecordType.getFirst value)
            (RecordType.getLast value) seams
            (low :: rest)).1 ++
          (eraseLoop value (RecordType.getFirst value)
            (RecordType.getLast value) seams
            (low :: rest)).2.1)) := by
    intro seams
    have hSublist :=
      (eraseLoop_sublist value (RecordType.getFirst value)
        (RecordType.getLast value) seams
        (low :: rest)).append_left front
    rw [hAppend] at hSublist
    refine ⟨hListed.of_sublist hSublist, ?_⟩
    intro range hRange
    refine ⟨?_, range, hSublist.subset hRange, rfl⟩
    rcases List.mem_append.mp hRange with hFront | hKept
    · exact hBefore range hFront
    · exact eraseLoop_value_ne hSuffix le_rfl hKept
  have hSewn := fun seams left right =>
    ((hScan seams).zipAt_if
      (RecordType.getFirst value - 1) left).zipAt_if
        (RecordType.getLast value) right
  rw [hErased]
  exact hSewn _ _ _

end RangeMap

end LLDBGhidra

------------------------------------------------------------
-- What the Other Records Keep
------------------------------------------------------------

namespace LLDBGhidra

open SortedList

variable {V S : Type}

namespace RangeMap

variable [SubsortType S] [RecordType V S]

/- The record has a sub-range up to its end. -/
def Ending
    (tree : List (AddrRange V S))
    (value : V) : Prop :=
  ∃ range ∈ tree,
    range.value = value ∧
      range.last = RecordType.getLast value

/- These are the records that are covered at their end. -/
theorem Listed.covered_iff_ending
    {tree : List (AddrRange V S)}
    {value : V}
    (hListed : Listed tree) :
    CoveredAt tree value (RecordType.getLast value) ↔
      Ending tree value := by
  constructor
  · rintro ⟨range, hRange, hValue, _, hLast⟩
    have hEnd := (hListed.ends range hRange).2
    rw [hValue] at hEnd
    exact ⟨range, hRange, hValue, by omega⟩
  · rintro ⟨range, hRange, hValue, hLast⟩
    have hOrdered := hListed.ordered range hRange
    exact ⟨range, hRange, hValue, by omega, hLast.ge⟩

/- A sub-range that does not end at the seam stays. -/
omit [SubsortType S] [RecordType V S] in
private theorem mem_zip_of_last_ne
    {i : Nat}
    {suffix : List (AddrRange V S)}
    {range : AddrRange V S}
    (hRange : range ∈ suffix)
    (hLast : range.last ≠ i) :
    ∃ other ∈ zip i suffix,
      other.value = range.value ∧
        other.last = range.last := by
  cases suffix with
  | nil => simp at hRange
  | cons low rest =>
      have hKept : range ∈ (low :: rest).dropWhile
          (fun other => other.last = i) := by
        have hSplit := hRange
        rw [← List.takeWhile_append_dropWhile
          (p := fun other : AddrRange V S => other.last = i)
          (l := low :: rest)] at hSplit
        rcases List.mem_append.mp hSplit with hTaken | hMem
        · have hEnds :=
            List.all_eq_true.mp List.all_takeWhile range hTaken
          exact absurd (of_decide_eq_true hEnds) hLast
        · exact hMem
      rw [← List.takeWhile_append_dropWhile
        (p := fun other : AddrRange V S =>
          other.first = i + 1)
        (l := (low :: rest).dropWhile
          (fun other => other.last = i))] at hKept
      simp only [zip]
      rcases List.mem_append.mp hKept with hJoined | hMem
      · exact ⟨{ range with first := low.first },
          List.mem_append_left _
            (List.mem_map.mpr ⟨range, hJoined, rfl⟩),
          rfl, rfl⟩
      · exact ⟨range, List.mem_append_right _ hMem, rfl, rfl⟩

private theorem Ending.zipAt_if
    {tree : List (AddrRange V S)}
    {value : V}
    (hEnding : Ending tree value)
    (i : Nat)
    (sew : Bool)
    (hSeam : sew = true → RecordType.getLast value ≠ i) :
    Ending (if sew then zipAt i tree else tree) value := by
  cases sew with
  | false => exact hEnding
  | true =>
      rcases hEnding with ⟨range, hRange, hValue, hLast⟩
      have hNe : range.last ≠ i := by
        rw [hLast]
        exact hSeam rfl
      rw [← lowerBound_append i tree] at hRange
      simp only [if_true, zipAt]
      rcases List.mem_append.mp hRange with hFront | hBack
      · exact ⟨range, List.mem_append_left _ hFront, hValue,
          hLast⟩
      · rcases mem_zip_of_last_ne hBack hNe with
          ⟨other, hOther, hSame, hEnd⟩
        exact ⟨other, List.mem_append_right _ hOther,
          hSame.trans hValue, hEnd.trans hLast⟩

variable [DecidableEq V]

variable {value : V}
variable {a b : Nat}
variable {seams : Seams}
variable {suffix : List (AddrRange V S)}
variable {range : AddrRange V S}

/- The scan drops no other record. -/
omit [SubsortType S] [RecordType V S] in
private theorem mem_eraseLoop
    (hRange : range ∈ suffix)
    (hValue : range.value ≠ value) :
    range ∈ (eraseLoop value a b seams suffix).1 ++
      (eraseLoop value a b seams suffix).2.1 := by
  induction suffix generalizing seams with
  | nil => simp at hRange
  | cons low rest ih =>
      rcases List.mem_cons.mp hRange with rfl | hRest
      · simp only [eraseLoop, hValue, if_false]
        split
        · simp
        · simp
      · simp only [eraseLoop]
        split
        · rw [List.append_assoc]
          exact List.mem_append_right _ (ih hRest)
        · exact List.mem_append_right _ hRest

/-
  What the scan leaves of the seams follows from what it finds
  them to be: a seam that is not to be sewn stays so.
-/
omit [SubsortType S] [RecordType V S] in
private theorem eraseLoop_seams
    (good : Seams → Prop)
    (hMeet : ∀ (seams : Seams) (range : AddrRange V S),
      good seams → good (seams.meet a b range))
    (hSeams : good seams) :
    good (eraseLoop value a b seams suffix).2.2 := by
  induction suffix generalizing seams with
  | nil => exact hSeams
  | cons low rest ih =>
      simp only [eraseLoop]
      have hNext : good
          (if low.value = value then seams
            else seams.meet a b low) := by
        split
        · exact hSeams
        · exact hMeet seams low hSeams
      split
      · exact ih hNext
      · exact hNext

/- The end of another record keeps the right seam. -/
private theorem eraseLoop_rightsew
    (hListed : Listed suffix)
    (hRange : range ∈ suffix)
    (hValue : range.value ≠ value)
    (hLast : range.last = b)
    (hEnd : range.b = b) :
    (eraseLoop value a b seams suffix).2.2.rightsew =
      false := by
  induction suffix generalizing seams with
  | nil => simp at hRange
  | cons low rest ih =>
      have hRest : Listed rest :=
        hListed.of_sublist (List.sublist_cons_self low rest)
      rcases List.mem_cons.mp hRange with rfl | hMem
      · simp only [eraseLoop, hValue, if_false]
        have hMet :
            (seams.meet a b range).rightsew = false := by
          simp [Seams.meet, hEnd]
        split
        · apply eraseLoop_seams
            (fun seams => seams.rightsew = false) ?_ hMet
          intro seams other hSeams
          simp [Seams.meet, hSeams]
        · exact hMet
      · -- the scan goes on to the sub-range that ends at `b`
        have hGoesOn :
            (rest.head?.any fun next => next.first ≤ b) =
              true := by
          cases rest with
          | nil => simp at hMem
          | cons next others =>
              have hOrdered :=
                hRest.ordered next List.mem_cons_self
              have hBelow := AddrRange.last_le_of_key_le
                (hRest.sorted.head_le hMem)
              simp only [List.head?_cons, Option.any_some,
                decide_eq_true_eq]
              omega
        simp only [eraseLoop, hGoesOn, if_true]
        exact ih hRest hMem

/- A record that ends in front of `a` is seen from `a`. -/
omit [RecordType V S] [DecidableEq V] in
private theorem stillSplit_of_mem
    {front : List (AddrRange V S)}
    (hSorted : KeySorted AddrRange.key front)
    (hFront : ∀ other ∈ front, other.last < a)
    (hRange : range ∈ front)
    (hLast : range.last + 1 = a)
    (hEnd : range.b + 1 = a) :
    ((front.reverse.takeWhile
      (fun other => other.last + 1 = a)).any
        (fun other => other.b + 1 = a)) = true := by
  rcases List.append_of_mem hRange with ⟨before, after, rfl⟩
  have hAfter : ∀ other ∈ after.reverse,
      decide (other.last + 1 = a) = true := by
    intro other hOther
    have hMem := List.mem_reverse.mp hOther
    have hTail : KeySorted AddrRange.key (range :: after) :=
      (List.pairwise_append.mp hSorted).2.1
    have hBelow := AddrRange.last_le_of_key_le
      (hTail.head_le (List.mem_cons_of_mem _ hMem))
    have hBefore := hFront other
      (List.mem_append_right _ (List.mem_cons_of_mem _ hMem))
    exact decide_eq_true (by omega)
  rw [List.reverse_append, List.reverse_cons,
    List.append_assoc, List.takeWhile_append_of_pos hAfter]
  simp [hLast, hEnd]

/- Where a record has a sub-range, erasing it is defined. -/
theorem Listed.isSome_erase
    {map : RangeMap V S}
    (hListed : Listed map.tree)
    (hEnding : Ending map.tree value) :
    ∃ erased, RangeMap.erase value map = some erased := by
  rcases hEnding with ⟨range, hRange, hValue, hLast⟩
  have hStart := (hListed.ends range hRange).1
  rw [hValue] at hStart
  have hBack : range ∈
      (lowerBound (RecordType.getFirst value) map.tree).2 :=
    (mem_lowerBound_snd_iff hListed.sorted).mpr
      ⟨hRange, hStart⟩
  unfold RangeMap.erase
  cases hSuffix :
      (lowerBound (RecordType.getFirst value) map.tree).2 with
  | nil =>
      rw [hSuffix] at hBack
      simp at hBack
  | cons low rest =>
      simp only [hSuffix]
      exact ⟨_, rfl⟩

/-
  Erasing a record that does not wrap leaves the others a
  sub-range up to their end: no seam is sewn there.
-/
theorem Listed.ending_erase
    {map erased : RangeMap V S}
    {other : V}
    (hListed : Listed map.tree)
    (hErase : RangeMap.erase value map = some erased)
    (hValue : Ending map.tree value)
    (hOther : Ending map.tree other)
    (hNe : other ≠ value) :
    Ending erased.tree other := by
  rcases erase_eq_some hErase with ⟨low, rest, hBack, hErased⟩
  rcases hOther with ⟨range, hRange, hRangeValue, hLast⟩
  have hEnd := hListed.bounds range hRange
  rw [hRangeValue] at hEnd
  have hRangeNe : range.value ≠ value := by
    rw [hRangeValue]
    exact hNe
  have hStart : RecordType.getFirst value ≤
      RecordType.getLast value := by
    rcases hValue with ⟨own, hOwn, hOwnValue, _⟩
    have hOwnEnds := hListed.ends own hOwn
    rw [hOwnValue] at hOwnEnds
    omega
  have hAppend := lowerBound_append
    (RecordType.getFirst value) map.tree
  have hFrontLast : ∀ range ∈
      (lowerBound (RecordType.getFirst value) map.tree).1,
        range.last < RecordType.getFirst value :=
    fun _ hMem => last_lt_of_mem_lowerBound hMem
  rw [hBack] at hAppend
  generalize (lowerBound (RecordType.getFirst value)
    map.tree).1 = front at hAppend hFrontLast hErased
  have hFront : Listed front := by
    refine hListed.of_sublist ?_
    rw [← hAppend]
    exact List.sublist_append_left _ _
  have hSuffix : Listed (low :: rest) := by
    refine hListed.of_sublist ?_
    rw [← hAppend]
    exact List.sublist_append_right _ _
  rw [← hAppend] at hRange
  have hKept : ∀ seams, Ending
      (front ++
        ((eraseLoop value (RecordType.getFirst value)
          (RecordType.getLast value) seams (low :: rest)).1 ++
        (eraseLoop value (RecordType.getFirst value)
          (RecordType.getLast value) seams
          (low :: rest)).2.1)) other := by
    intro seams
    refine ⟨range, ?_, hRangeValue, hLast⟩
    rcases List.mem_append.mp hRange with hMem | hMem
    · exact List.mem_append_left _ hMem
    · exact List.mem_append_right _
        (mem_eraseLoop hMem hRangeNe)
  rw [hErased]
  unfold eraseFrom
  apply Ending.zipAt_if
  · apply (hKept _).zipAt_if
    intro hSew hSeam
    rw [Bool.and_eq_true] at hSew
    -- a record over `a` starts in front of it
    have hPos : 0 < RecordType.getFirst value := by
      refine eraseLoop_seams
        (fun seams => seams.leftoverlap = true →
          0 < RecordType.getFirst value) ?_ ?_ hSew.2
      · intro seams met hSeams
        by_cases hMet : met.a < RecordType.getFirst value
        · intro _
          omega
        · simpa [Seams.meet, hMet] using hSeams
      · simp
    have hBefore : range ∈ front := by
      rcases List.mem_append.mp hRange with hMem | hMem
      · exact hMem
      · have hReach := (mem_lowerBound_snd_iff
          hListed.sorted).mp (hBack ▸ hMem)
        omega
    have hSplit := stillSplit_of_mem hFront.sorted hFrontLast
      hBefore (by omega) (by omega)
    have hLeft : (eraseLoop value (RecordType.getFirst value)
        (RecordType.getLast value)
        ⟨false, true, false, false⟩
        (low :: rest)).2.2.leftsew = false := by
      apply eraseLoop_seams
        (fun seams => seams.leftsew = false) ?_ rfl
      intro seams met hSeams
      simp [Seams.meet, hSeams]
    rw [hSplit] at hSew
    exact absurd hSew.1 (by
      rw [Bool.not_true, hLeft]
      simp)
  · intro hSew hSeam
    rw [Bool.and_eq_true] at hSew
    have hReached : range ∈ low :: rest := by
      rcases List.mem_append.mp hRange with hMem | hMem
      · have hBefore := hFrontLast range hMem
        omega
      · exact hMem
    have hRight : ∀ seams,
        (eraseLoop value (RecordType.getFirst value)
          (RecordType.getLast value) seams
          (low :: rest)).2.2.rightsew = false :=
      fun seams => eraseLoop_rightsew hSuffix hReached
        hRangeNe (hLast.trans hSeam) (hEnd.trans hSeam)
    rw [hRight] at hSew
    revert hSew
    split
    · simp
    · split
      · simp
      · simp

end RangeMap

end LLDBGhidra
