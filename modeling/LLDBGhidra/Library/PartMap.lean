import LLDBGhidra.Library.SortedList

/-
  Maps from a linear order that are constant between finitely
  many split points.

  A split point carries the value of the points from it up to
  the next one; the points before all of them have a default
  value.  A copy of a value, at a new split point, may differ
  from the value: results are about what is read of both.

  Main declarations:
    * `PartMap`
    * `PartMap.getValue`
    * `PartMap.split`
    * `PartMap.paint`
    * `PartMap.clearRange`
    * `PartMap.read_getValue_split`
    * `PartMap.read_getValue_paint`
    * `PartMap.read_getValue_clearRange`
    * `PartMap.startAt`
    * `PartMap.marked_paint_iff`
    * `PartMap.startAt_eq_of_bounds`
-/

------------------------------------------------------------
-- Partitions of a Linear Order
------------------------------------------------------------

/- The split points are in order. -/
structure PartMap
    (κ α : Type)
    [LinearOrder κ] where
  defaultValue : α
  database : List (κ × α)
  sorted :
    database.Pairwise (fun left right => left.1 < right.1)

namespace PartMap

variable {κ α : Type}
variable [LinearOrder κ]

/- The same value everywhere. -/
def constant
    (value : α) : PartMap κ α :=
  ⟨value, [], List.Pairwise.nil⟩

/- The last split point at or before a point. -/
def entryAt
    (map : PartMap κ α)
    (pnt : κ) : Option (κ × α) :=
  (map.database.takeWhile (fun entry => entry.1 ≤ pnt)).getLast?

/- The value of a point. -/
def getValue
    (map : PartMap κ α)
    (pnt : κ) : α :=
  match map.entryAt pnt with
  | none => map.defaultValue
  | some entry => entry.2

/- Is the point a split point? -/
def IsSplit
    (map : PartMap κ α)
    (pnt : κ) : Prop :=
  ∃ entry ∈ map.database, entry.1 = pnt

variable {map : PartMap κ α}
variable {pnt : κ}

theorem keySorted
    (map : PartMap κ α) :
    SortedList.KeySorted Prod.fst map.database :=
  map.sorted.imp le_of_lt

/- Split points are determined by where they are. -/
theorem eq_of_fst_eq
    {left right : κ × α}
    (hLeft : left ∈ map.database)
    (hRight : right ∈ map.database)
    (hPoint : left.1 = right.1) :
    left = right := by
  have hNodup : (map.database.map Prod.fst).Nodup :=
    List.pairwise_map.mpr (map.sorted.imp ne_of_lt)
  exact List.inj_on_of_nodup_map hNodup hLeft hRight hPoint

theorem entryAt_eq_none_iff :
    map.entryAt pnt = none ↔
      ∀ entry ∈ map.database, pnt < entry.1 := by
  unfold entryAt
  rw [List.getLast?_eq_none_iff, List.eq_nil_iff_forall_not_mem]
  have hPrefix :=
    SortedList.mem_takeWhile_le_iff map.keySorted pnt
  constructor
  · intro hNone entry hMem
    by_contra hNot
    exact hNone entry
      ((hPrefix entry).mpr ⟨hMem, not_lt.mp hNot⟩)
  · intro hAll entry hMem
    rcases (hPrefix entry).mp hMem with ⟨hEntry, hLe⟩
    exact absurd hLe (not_le.mpr (hAll entry hEntry))

/- The split point is the greatest one that is no greater. -/
structure GreatestBelow
    (map : PartMap κ α)
    (pnt : κ)
    (entry : κ × α) : Prop where
  mem : entry ∈ map.database
  le : entry.1 ≤ pnt
  greatest :
    ∀ other ∈ map.database, other.1 ≤ pnt →
      other.1 ≤ entry.1

theorem GreatestBelow.unique
    {left right : κ × α}
    (hLeft : map.GreatestBelow pnt left)
    (hRight : map.GreatestBelow pnt right) :
    left = right :=
  eq_of_fst_eq hLeft.mem hRight.mem
    (le_antisymm
      (hRight.greatest left hLeft.mem hLeft.le)
      (hLeft.greatest right hRight.mem hRight.le))

theorem greatestBelow_of_entryAt
    {entry : κ × α}
    (hEntry : map.entryAt pnt = some entry) :
    map.GreatestBelow pnt entry := by
  have hPrefix :=
    SortedList.mem_takeWhile_le_iff map.keySorted pnt
  rcases List.getLast?_eq_some_iff.mp hEntry with
    ⟨before, hBefore⟩
  have hMem : entry ∈ map.database ∧ entry.1 ≤ pnt := by
    apply (hPrefix entry).mp
    rw [hBefore]
    exact List.mem_append_right _ (List.mem_singleton_self _)
  refine ⟨hMem.1, hMem.2, ?_⟩
  intro other hOther hLe
  have hIn := (hPrefix other).mpr ⟨hOther, hLe⟩
  rw [hBefore] at hIn
  rcases List.mem_append.mp hIn with hEarlier | hLast
  · have hSorted := map.keySorted.of_sublist
      (List.takeWhile_sublist (fun item => item.1 ≤ pnt))
    rw [hBefore] at hSorted
    exact (List.pairwise_append.mp hSorted).2.2 other hEarlier
      entry (List.mem_singleton_self _)
  · rw [List.mem_singleton.mp hLast]

theorem entryAt_eq_some_iff
    {entry : κ × α} :
    map.entryAt pnt = some entry ↔
      map.GreatestBelow pnt entry := by
  constructor
  · exact greatestBelow_of_entryAt
  · intro hEntry
    cases hFound : map.entryAt pnt with
    | none =>
        have hAll := entryAt_eq_none_iff.mp hFound
        exact absurd hEntry.le
          (not_le.mpr (hAll entry hEntry.mem))
    | some other =>
        rw [(greatestBelow_of_entryAt hFound).unique hEntry]

theorem GreatestBelow.getValue
    {entry : κ × α}
    (hEntry : map.GreatestBelow pnt entry) :
    map.getValue pnt = entry.2 := by
  unfold PartMap.getValue
  rw [entryAt_eq_some_iff.mpr hEntry]

theorem getValue_of_before
    (hBefore : ∀ entry ∈ map.database, pnt < entry.1) :
    map.getValue pnt = map.defaultValue := by
  unfold getValue
  rw [entryAt_eq_none_iff.mpr hBefore]

/- A point is before all split points, or some one is below. -/
theorem before_or_greatestBelow
    (map : PartMap κ α)
    (pnt : κ) :
    (∀ entry ∈ map.database, pnt < entry.1) ∨
      ∃ entry, map.GreatestBelow pnt entry := by
  cases hFound : map.entryAt pnt with
  | none => exact Or.inl (entryAt_eq_none_iff.mp hFound)
  | some entry =>
      exact Or.inr ⟨entry, entryAt_eq_some_iff.mp hFound⟩

theorem getValue_of_mem
    {entry : κ × α}
    (hEntry : entry ∈ map.database) :
    map.getValue entry.1 = entry.2 :=
  GreatestBelow.getValue ⟨hEntry, le_rfl, fun _ _ hLe => hLe⟩

/- The value is the same up to the next split point. -/
theorem getValue_eq_of_no_split
    {start pnt : κ}
    (hLe : start ≤ pnt)
    (hNone :
      ∀ entry ∈ map.database, entry.1 ≤ pnt →
        entry.1 ≤ start) :
    map.getValue pnt = map.getValue start := by
  rcases map.before_or_greatestBelow start with
    hBefore | ⟨entry, hEntry⟩
  · rw [getValue_of_before hBefore]
    apply getValue_of_before
    intro entry hMem
    by_contra hNot
    exact absurd (hNone entry hMem (not_lt.mp hNot))
      (not_le.mpr (hBefore entry hMem))
  · rw [hEntry.getValue]
    apply GreatestBelow.getValue
    refine ⟨hEntry.mem, hEntry.le.trans hLe, ?_⟩
    intro other hOther hBelow
    exact hEntry.greatest other hOther
      (hNone other hOther hBelow)

end PartMap

------------------------------------------------------------
-- Split Points
------------------------------------------------------------

namespace PartMap

variable {κ α β : Type}
variable [LinearOrder κ]

/- Set the value at a split point, which may be a new one. -/
def assign
    (pnt : κ)
    (value : α)
    (map : PartMap κ α) : PartMap κ α where
  defaultValue := map.defaultValue
  database :=
    map.database.takeWhile (fun entry => entry.1 < pnt) ++
      (pnt, value) ::
        map.database.dropWhile (fun entry => entry.1 ≤ pnt)
  sorted := by
    have hBelow :=
      SortedList.mem_takeWhile_lt_iff map.keySorted pnt
    have hAbove :=
      SortedList.mem_dropWhile_le_iff map.keySorted pnt
    apply List.pairwise_append.mpr
    refine ⟨map.sorted.sublist (List.takeWhile_sublist _),
      List.pairwise_cons.mpr ⟨?_,
        map.sorted.sublist (List.dropWhile_sublist _)⟩, ?_⟩
    · exact fun entry hMem => ((hAbove entry).mp hMem).2
    · intro left hLeft right hRight
      have hLt := ((hBelow left).mp hLeft).2
      rcases List.mem_cons.mp hRight with rfl | hRight
      · exact hLt
      · exact hLt.trans ((hAbove right).mp hRight).2

variable {map : PartMap κ α}
variable {pnt : κ}

theorem mem_assign_iff
    {value : α}
    {entry : κ × α} :
    entry ∈ (map.assign pnt value).database ↔
      entry = (pnt, value) ∨
        (entry ∈ map.database ∧ entry.1 ≠ pnt) := by
  unfold assign
  rw [List.mem_append, List.mem_cons,
    SortedList.mem_takeWhile_lt_iff map.keySorted,
    SortedList.mem_dropWhile_le_iff map.keySorted]
  constructor
  · rintro (⟨hMem, hLt⟩ | rfl | ⟨hMem, hGt⟩)
    · exact Or.inr ⟨hMem, ne_of_lt hLt⟩
    · exact Or.inl rfl
    · exact Or.inr ⟨hMem, ne_of_gt hGt⟩
  · rintro (rfl | ⟨hMem, hNe⟩)
    · exact Or.inr (Or.inl rfl)
    · rcases lt_or_gt_of_ne hNe with hLt | hGt
      · exact Or.inl ⟨hMem, hLt⟩
      · exact Or.inr (Or.inr ⟨hMem, hGt⟩)

/- A new split point gets a copy of the value that it has. -/
def split
    (copy : α → α)
    (pnt : κ)
    (map : PartMap κ α) : PartMap κ α :=
  match map.entryAt pnt with
  | none => map.assign pnt (copy map.defaultValue)
  | some entry =>
      if entry.1 = pnt then
        map
      else
        map.assign pnt (copy entry.2)

theorem split_of_isSplit
    (copy : α → α)
    (hSplit : map.IsSplit pnt) :
    map.split copy pnt = map := by
  rcases hSplit with ⟨entry, hMem, rfl⟩
  have hEntry : map.entryAt entry.1 = some entry :=
    entryAt_eq_some_iff.mpr
      ⟨hMem, le_rfl, fun _ _ hLe => hLe⟩
  unfold split
  simp only [hEntry, if_true]

theorem split_of_not_isSplit
    (copy : α → α)
    (hNew : ¬ map.IsSplit pnt) :
    map.split copy pnt =
      map.assign pnt (copy (map.getValue pnt)) := by
  unfold split getValue
  cases hEntry : map.entryAt pnt with
  | none => rfl
  | some entry =>
      have hMem := (entryAt_eq_some_iff.mp hEntry).mem
      have hNe : entry.1 ≠ pnt :=
        fun hPoint => hNew ⟨entry, hMem, hPoint⟩
      simp only [hNe, if_false]

theorem isSplit_assign_iff
    {value : α}
    {other : κ} :
    (map.assign pnt value).IsSplit other ↔
      other = pnt ∨ map.IsSplit other := by
  unfold IsSplit
  constructor
  · rintro ⟨entry, hMem, rfl⟩
    rcases mem_assign_iff.mp hMem with rfl | ⟨hOld, _⟩
    · exact Or.inl rfl
    · exact Or.inr ⟨entry, hOld, rfl⟩
  · intro hEither
    by_cases hPoint : other = pnt
    · exact ⟨_, mem_assign_iff.mpr (Or.inl rfl), hPoint.symm⟩
    · rcases hEither with hSame | ⟨entry, hMem, rfl⟩
      · exact absurd hSame hPoint
      · exact ⟨entry,
          mem_assign_iff.mpr (Or.inr ⟨hMem, hPoint⟩), rfl⟩

@[simp] theorem isSplit_split_iff
    {copy : α → α}
    {other : κ} :
    (map.split copy pnt).IsSplit other ↔
      other = pnt ∨ map.IsSplit other := by
  by_cases hSplit : map.IsSplit pnt
  · rw [split_of_isSplit copy hSplit]
    constructor
    · exact Or.inr
    · rintro (rfl | hOther)
      · exact hSplit
      · exact hOther
  · rw [split_of_not_isSplit copy hSplit, isSplit_assign_iff]

/- Reads do not tell a copy from its value. -/
theorem read_getValue_split
    {copy : α → α}
    {read : α → β}
    (hCopy : ∀ value, read (copy value) = read value)
    (map : PartMap κ α)
    (start pnt : κ) :
    read ((map.split copy start).getValue pnt) =
      read (map.getValue pnt) := by
  by_cases hSplit : map.IsSplit start
  · rw [split_of_isSplit copy hSplit]
  rw [split_of_not_isSplit copy hSplit]
  by_cases hBetween :
      start ≤ pnt ∧
        ∀ entry ∈ map.database, entry.1 ≤ pnt →
          entry.1 ≤ start
  · -- the new split point is the one below
    have hNew :
        (map.assign start
          (copy (map.getValue start))).GreatestBelow pnt
          (start, copy (map.getValue start)) := by
      refine ⟨mem_assign_iff.mpr (Or.inl rfl),
        hBetween.1, ?_⟩
      intro other hOther hLe
      rcases mem_assign_iff.mp hOther with rfl | ⟨hOld, _⟩
      · exact le_rfl
      · exact hBetween.2 other hOld hLe
    rw [hNew.getValue, hCopy,
      getValue_eq_of_no_split hBetween.1 hBetween.2]
  · rcases map.before_or_greatestBelow pnt with
      hBefore | ⟨entry, hEntry⟩
    · rw [getValue_of_before hBefore]
      congr 1
      apply getValue_of_before
      intro other hOther
      rcases mem_assign_iff.mp hOther with rfl | ⟨hOld, _⟩
      · by_contra hNot
        exact hBetween ⟨not_lt.mp hNot, fun other hMem hLe =>
          absurd hLe (not_le.mpr (hBefore other hMem))⟩
      · exact hBefore other hOld
    · rw [hEntry.getValue]
      congr 1
      apply GreatestBelow.getValue
      have hNe : entry.1 ≠ start :=
        fun hPoint => hSplit ⟨entry, hEntry.mem, hPoint⟩
      refine ⟨mem_assign_iff.mpr (Or.inr ⟨hEntry.mem, hNe⟩),
        hEntry.le, ?_⟩
      intro other hOther hLe
      rcases mem_assign_iff.mp hOther with rfl | ⟨hOld, _⟩
      · by_contra hNot
        exact hBetween ⟨hLe, fun other hMem hBelow =>
          (hEntry.greatest other hMem hBelow).trans
            (not_le.mp hNot).le⟩
      · exact hEntry.greatest other hOld hLe

end PartMap

------------------------------------------------------------
-- Windows
------------------------------------------------------------

namespace PartMap

variable {κ α β : Type}
variable [LinearOrder κ]

/- From `first` on, and before `last` if there is one. -/
def InWindow
    (first : κ)
    (last : Option κ)
    (pnt : κ) : Prop :=
  first ≤ pnt ∧ ∀ bound ∈ last, pnt < bound

instance
    (first : κ)
    (last : Option κ)
    (pnt : κ) :
    Decidable (InWindow first last pnt) :=
  inferInstanceAs (Decidable (_ ∧ _))

theorem inWindow_some_iff
    {first last pnt : κ} :
    InWindow first (some last) pnt ↔
      first ≤ pnt ∧ pnt < last := by
  simp [InWindow]

/- Change the values at the split points of a window. -/
def updateRange
    (first : κ)
    (last : Option κ)
    (change : α → α)
    (map : PartMap κ α) : PartMap κ α where
  defaultValue := map.defaultValue
  database :=
    map.database.map (fun entry =>
      (entry.1,
        if InWindow first last entry.1 then
          change entry.2
        else
          entry.2))
  sorted := List.pairwise_map.mpr map.sorted

/- Split a map at the end of a window. -/
def splitLast
    (copy : α → α)
    (last : Option κ)
    (map : PartMap κ α) : PartMap κ α :=
  match last with
  | none => map
  | some bound => map.split copy bound

/- Change the values of a window. -/
def paint
    (copy : α → α)
    (first : κ)
    (last : Option κ)
    (change : α → α)
    (map : PartMap κ α) : PartMap κ α :=
  ((map.split copy first).splitLast copy last).updateRange
    first last change

variable {map : PartMap κ α}
variable {first : κ}
variable {last : Option κ}

theorem isSplit_splitLast_iff
    {copy : α → α}
    {pnt : κ} :
    (map.splitLast copy last).IsSplit pnt ↔
      last = some pnt ∨ map.IsSplit pnt := by
  cases last with
  | none =>
      constructor
      · exact Or.inr
      · rintro (hNone | hSplit)
        · cases hNone
        · exact hSplit
  | some bound =>
      unfold splitLast
      rw [isSplit_split_iff, Option.some.injEq, eq_comm]

theorem read_getValue_splitLast
    {copy : α → α}
    {read : α → β}
    (hCopy : ∀ value, read (copy value) = read value)
    (map : PartMap κ α)
    (last : Option κ)
    (pnt : κ) :
    read ((map.splitLast copy last).getValue pnt) =
      read (map.getValue pnt) := by
  cases last with
  | none => rfl
  | some bound => exact read_getValue_split hCopy map bound pnt

/- The bounds of a window are split points of what is painted. -/
theorem isSplit_first
    (map : PartMap κ α)
    (copy : α → α)
    (first : κ)
    (last : Option κ) :
    ((map.split copy first).splitLast copy last).IsSplit
      first :=
  isSplit_splitLast_iff.mpr
    (Or.inr (isSplit_split_iff.mpr (Or.inl rfl)))

theorem isSplit_last
    (map : PartMap κ α)
    (copy : α → α)
    (first : κ)
    (last : Option κ) :
    ∀ bound ∈ last,
      ((map.split copy first).splitLast copy last).IsSplit
        bound :=
  fun _ hBound => isSplit_splitLast_iff.mpr (Or.inl hBound)

/- The bounds of a window separate it, if they are split. -/
theorem inWindow_iff_of_greatestBelow
    (hFirst : map.IsSplit first)
    (hLast : ∀ bound ∈ last, map.IsSplit bound)
    {pnt : κ}
    {entry : κ × α}
    (hEntry : map.GreatestBelow pnt entry) :
    InWindow first last entry.1 ↔ InWindow first last pnt := by
  constructor
  · rintro ⟨hFrom, hUpTo⟩
    refine ⟨hFrom.trans hEntry.le, ?_⟩
    intro bound hBound
    by_contra hNot
    rcases hLast bound hBound with ⟨other, hOther, rfl⟩
    exact absurd (hUpTo other.1 hBound)
      (not_lt.mpr
        (hEntry.greatest other hOther (not_lt.mp hNot)))
  · rintro ⟨hFrom, hUpTo⟩
    rcases hFirst with ⟨start, hStart, rfl⟩
    exact ⟨hEntry.greatest start hStart hFrom,
      fun bound hBound =>
        hEntry.le.trans_lt (hUpTo bound hBound)⟩

theorem getValue_updateRange
    (hFirst : map.IsSplit first)
    (hLast : ∀ bound ∈ last, map.IsSplit bound)
    (change : α → α)
    (pnt : κ) :
    (map.updateRange first last change).getValue pnt =
      if InWindow first last pnt then
        change (map.getValue pnt)
      else
        map.getValue pnt := by
  rcases map.before_or_greatestBelow pnt with
    hBefore | ⟨entry, hEntry⟩
  · have hOutside : ¬ InWindow first last pnt := by
      rintro ⟨hFrom, _⟩
      rcases hFirst with ⟨start, hStart, rfl⟩
      exact absurd hFrom (not_le.mpr (hBefore start hStart))
    rw [if_neg hOutside, getValue_of_before hBefore]
    apply getValue_of_before
    intro other hOther
    rcases List.mem_map.mp hOther with ⟨old, hOld, rfl⟩
    exact hBefore old hOld
  · have hAfter :
        (map.updateRange first last change).GreatestBelow pnt
          (entry.1,
            if InWindow first last entry.1 then
              change entry.2
            else
              entry.2) := by
      refine ⟨List.mem_map.mpr ⟨entry, hEntry.mem, rfl⟩,
        hEntry.le, ?_⟩
      intro other hOther hLe
      rcases List.mem_map.mp hOther with ⟨old, hOld, rfl⟩
      exact hEntry.greatest old hOld hLe
    rw [hAfter.getValue, hEntry.getValue]
    simp only [inWindow_iff_of_greatestBelow hFirst hLast
      hEntry]

theorem isSplit_updateRange_iff
    {change : α → α}
    {pnt : κ} :
    (map.updateRange first last change).IsSplit pnt ↔
      map.IsSplit pnt := by
  unfold IsSplit updateRange
  constructor
  · rintro ⟨entry, hMem, rfl⟩
    rcases List.mem_map.mp hMem with ⟨old, hOld, rfl⟩
    exact ⟨old, hOld, rfl⟩
  · rintro ⟨old, hOld, rfl⟩
    exact ⟨_, List.mem_map.mpr ⟨old, hOld, rfl⟩, rfl⟩

/- What painting does to a point of the map. -/
theorem read_getValue_paint
    {copy change : α → α}
    {read : α → β}
    {after : β → β}
    (hCopy : ∀ value, read (copy value) = read value)
    (hChange :
      ∀ value, read (change value) = after (read value))
    (map : PartMap κ α)
    (first : κ)
    (last : Option κ)
    (pnt : κ) :
    read ((map.paint copy first last change).getValue pnt) =
      if InWindow first last pnt then
        after (read (map.getValue pnt))
      else
        read (map.getValue pnt) := by
  have hFirst := map.isSplit_first copy first last
  have hLast := map.isSplit_last copy first last
  have hOld :
      read (((map.split copy first).splitLast copy
          last).getValue pnt) =
        read (map.getValue pnt) := by
    rw [read_getValue_splitLast hCopy,
      read_getValue_split hCopy]
  unfold paint
  rw [getValue_updateRange hFirst hLast]
  by_cases hIn : InWindow first last pnt
  · rw [if_pos hIn, if_pos hIn, hChange, hOld]
  · rw [if_neg hIn, if_neg hIn, hOld]

theorem isSplit_paint_iff
    {copy change : α → α}
    {pnt : κ} :
    (map.paint copy first last change).IsSplit pnt ↔
      last = some pnt ∨ pnt = first ∨ map.IsSplit pnt := by
  unfold paint
  rw [isSplit_updateRange_iff, isSplit_splitLast_iff,
    isSplit_split_iff]

/- Painting values that are copied as they are. -/
theorem getValue_paint
    (map : PartMap κ α)
    (first : κ)
    (last : Option κ)
    (change : α → α)
    (pnt : κ) :
    (map.paint id first last change).getValue pnt =
      if InWindow first last pnt then
        change (map.getValue pnt)
      else
        map.getValue pnt :=
  @read_getValue_paint κ α α _ id change id change
    (fun _ => rfl) (fun _ => rfl) map first last pnt

end PartMap

------------------------------------------------------------
-- Where Values Begin
------------------------------------------------------------

namespace PartMap

variable {κ α β : Type}
variable [LinearOrder κ]
variable {map : PartMap κ α}
variable {map' : PartMap κ β}
variable {pnt : κ}

/- The split point where the value of a point begins. -/
def startAt
    (pnt : κ)
    (map : PartMap κ α) : Option κ :=
  (map.entryAt pnt).map Prod.fst

/- The value that begins at a split point, or the default. -/
def valueFrom
    (start : Option κ)
    (map : PartMap κ α) : α :=
  match start with
  | none => map.defaultValue
  | some pnt => map.getValue pnt

theorem startAt_eq_none_iff :
    map.startAt pnt = none ↔
      ∀ start, map.IsSplit start → pnt < start := by
  unfold startAt
  rw [Option.map_eq_none_iff, entryAt_eq_none_iff]
  constructor
  · intro hAll start hStart
    rcases hStart with ⟨entry, hEntry, rfl⟩
    exact hAll entry hEntry
  · intro hAll entry hEntry
    exact hAll entry.1 ⟨entry, hEntry, rfl⟩

theorem startAt_eq_some_iff
    {start : κ} :
    map.startAt pnt = some start ↔
      map.IsSplit start ∧ start ≤ pnt ∧
        ∀ bound, map.IsSplit bound → bound ≤ pnt →
          bound ≤ start := by
  unfold startAt
  rw [Option.map_eq_some_iff]
  constructor
  · intro hStart
    rcases hStart with ⟨entry, hEntry, rfl⟩
    have hGreatest := entryAt_eq_some_iff.mp hEntry
    refine ⟨⟨entry, hGreatest.mem, rfl⟩, hGreatest.le, ?_⟩
    intro bound hBound hLe
    rcases hBound with ⟨found, hFound, rfl⟩
    exact hGreatest.greatest found hFound hLe
  · intro hStart
    rcases hStart with ⟨⟨entry, hEntry, rfl⟩, hLe, hAll⟩
    refine ⟨entry, entryAt_eq_some_iff.mpr
      ⟨hEntry, hLe, ?_⟩, rfl⟩
    intro found hFound hBelow
    exact hAll found.1 ⟨found, hFound, rfl⟩ hBelow

/- A value is found again from where it begins. -/
theorem valueFrom_startAt :
    map.valueFrom (map.startAt pnt) = map.getValue pnt := by
  cases hStart : map.startAt pnt with
  | none =>
      refine (getValue_of_before ?_).symm
      intro entry hEntry
      exact startAt_eq_none_iff.mp hStart entry.1
        ⟨entry, hEntry, rfl⟩
  | some start =>
      rcases startAt_eq_some_iff.mp hStart with
        ⟨_, hLe, hAll⟩
      refine (getValue_eq_of_no_split hLe ?_).symm
      intro entry hEntry hBelow
      exact hAll entry.1 ⟨entry, hEntry, rfl⟩ hBelow

/- New split points change nothing before an old one. -/
theorem startAt_eq_of_isSplit
    (hOld : ∀ start, map.IsSplit start → map'.IsSplit start)
    (hNew :
      ∀ start, map'.IsSplit start → start ≤ pnt →
        ∃ bound, map.IsSplit bound ∧ start ≤ bound ∧
          bound ≤ pnt) :
    map'.startAt pnt = map.startAt pnt := by
  cases hStart : map.startAt pnt with
  | none =>
      apply startAt_eq_none_iff.mpr
      intro start hSplit
      by_contra hNot
      rcases hNew start hSplit (not_lt.mp hNot) with
        ⟨bound, hBound, _, hLe⟩
      exact absurd hLe
        (not_le.mpr (startAt_eq_none_iff.mp hStart bound hBound))
  | some first =>
      rcases startAt_eq_some_iff.mp hStart with
        ⟨hFirst, hLe, hAll⟩
      apply startAt_eq_some_iff.mpr
      refine ⟨hOld first hFirst, hLe, ?_⟩
      intro start hSplit hBelow
      rcases hNew start hSplit hBelow with
        ⟨bound, hBound, hUpTo, hBoundLe⟩
      exact hUpTo.trans (hAll bound hBound hBoundLe)

end PartMap

------------------------------------------------------------
-- Clearing a Range
------------------------------------------------------------

namespace PartMap

variable {κ α β : Type}
variable [LinearOrder κ]

/- Throw the split points away that are between two points. -/
def eraseBetween
    (pnt1 pnt2 : κ)
    (map : PartMap κ α) : PartMap κ α where
  defaultValue := map.defaultValue
  database :=
    map.database.filter (fun entry =>
      ¬ (pnt1 < entry.1 ∧ entry.1 < pnt2))
  sorted := map.sorted.sublist List.filter_sublist

/- The value at the first point becomes that of the range. -/
def clearRange
    (copy : α → α)
    (pnt1 pnt2 : κ)
    (map : PartMap κ α) : PartMap κ α :=
  ((map.split copy pnt1).split copy pnt2).eraseBetween pnt1 pnt2

variable {map : PartMap κ α}
variable {pnt1 pnt2 pnt : κ}

theorem mem_eraseBetween_iff
    {entry : κ × α} :
    entry ∈ (map.eraseBetween pnt1 pnt2).database ↔
      entry ∈ map.database ∧
        (entry.1 ≤ pnt1 ∨ pnt2 ≤ entry.1) := by
  unfold eraseBetween
  rw [List.mem_filter, decide_eq_true_eq, not_and_or, not_lt,
    not_lt]

theorem isSplit_clearRange_iff
    {copy : α → α} :
    (map.clearRange copy pnt1 pnt2).IsSplit pnt ↔
      (pnt = pnt2 ∨ pnt = pnt1 ∨ map.IsSplit pnt) ∧
        (pnt ≤ pnt1 ∨ pnt2 ≤ pnt) := by
  have hSplit :
      ((map.split copy pnt1).split copy pnt2).IsSplit pnt ↔
        pnt = pnt2 ∨ pnt = pnt1 ∨ map.IsSplit pnt := by
    rw [isSplit_split_iff, isSplit_split_iff]
  rw [← hSplit]
  unfold IsSplit clearRange
  constructor
  · intro hErased
    rcases hErased with ⟨entry, hEntry, rfl⟩
    rcases mem_eraseBetween_iff.mp hEntry with
      ⟨hMem, hOutside⟩
    exact ⟨⟨entry, hMem, rfl⟩, hOutside⟩
  · intro hOld
    rcases hOld with ⟨⟨entry, hEntry, rfl⟩, hOutside⟩
    exact ⟨entry,
      mem_eraseBetween_iff.mpr ⟨hEntry, hOutside⟩, rfl⟩

/- A range that is cleared is that of its first point. -/
theorem startAt_clearRange_iff
    {copy : α → α}
    (hLt : pnt1 < pnt2) :
    (map.clearRange copy pnt1 pnt2).startAt pnt = some pnt1 ↔
      pnt1 ≤ pnt ∧ pnt < pnt2 := by
  rw [startAt_eq_some_iff]
  constructor
  · intro hStart
    rcases hStart with ⟨_, hLe, hAll⟩
    refine ⟨hLe, ?_⟩
    by_contra hNot
    have hSecond :
        (map.clearRange copy pnt1 pnt2).IsSplit pnt2 :=
      isSplit_clearRange_iff.mpr
        ⟨Or.inl rfl, Or.inr le_rfl⟩
    exact absurd (hAll pnt2 hSecond (not_lt.mp hNot))
      (not_le.mpr hLt)
  · intro hIn
    rcases hIn with ⟨hLe, hBefore⟩
    refine ⟨isSplit_clearRange_iff.mpr
      ⟨Or.inr (Or.inl rfl), Or.inl le_rfl⟩, hLe, ?_⟩
    intro bound hBound hBelow
    rcases (isSplit_clearRange_iff.mp hBound).2 with
      hLow | hHigh
    · exact hLow
    · exact absurd (hHigh.trans hBelow) (not_le.mpr hBefore)

theorem getValue_eraseBetween
    (hLt : pnt1 < pnt2)
    (hFirst : map.IsSplit pnt1)
    (hSecond : map.IsSplit pnt2) :
    (map.eraseBetween pnt1 pnt2).getValue pnt =
      if pnt1 ≤ pnt ∧ pnt < pnt2 then
        map.getValue pnt1
      else
        map.getValue pnt := by
  rcases hFirst with ⟨start, hStart, rfl⟩
  rcases hSecond with ⟨stop, hStop, rfl⟩
  by_cases hIn : start.1 ≤ pnt ∧ pnt < stop.1
  · rw [if_pos hIn, getValue_of_mem hStart]
    apply GreatestBelow.getValue
    refine ⟨mem_eraseBetween_iff.mpr ⟨hStart, Or.inl le_rfl⟩,
      hIn.1, ?_⟩
    intro other hOther hLe
    rcases (mem_eraseBetween_iff.mp hOther).2 with hLow | hHigh
    · exact hLow
    · exact absurd (hLe.trans_lt hIn.2) (not_lt.mpr hHigh)
  · rw [if_neg hIn]
    rcases map.before_or_greatestBelow pnt with
      hBefore | ⟨entry, hEntry⟩
    · rw [getValue_of_before hBefore]
      apply getValue_of_before
      intro other hOther
      exact hBefore other (mem_eraseBetween_iff.mp hOther).1
    · rw [hEntry.getValue]
      apply GreatestBelow.getValue
      refine ⟨mem_eraseBetween_iff.mpr ⟨hEntry.mem, ?_⟩,
        hEntry.le, ?_⟩
      · by_contra hBetween
        rcases not_or.mp hBetween with ⟨hAbove, hBelow⟩
        have hFrom : start.1 ≤ pnt :=
          (not_le.mp hAbove).le.trans hEntry.le
        have hUpTo : stop.1 ≤ pnt :=
          not_lt.mp (fun hLt => hIn ⟨hFrom, hLt⟩)
        exact hBelow (hEntry.greatest stop hStop hUpTo)
      · intro other hOther hLe
        exact hEntry.greatest other
          (mem_eraseBetween_iff.mp hOther).1 hLe

/- The rest of the map stays as it is. -/
theorem read_getValue_clearRange
    {copy : α → α}
    {read : α → β}
    (hCopy : ∀ value, read (copy value) = read value)
    (map : PartMap κ α)
    (hLt : pnt1 < pnt2)
    (pnt : κ) :
    read ((map.clearRange copy pnt1 pnt2).getValue pnt) =
      if pnt1 ≤ pnt ∧ pnt < pnt2 then
        read (map.getValue pnt1)
      else
        read (map.getValue pnt) := by
  have hFirst :
      ((map.split copy pnt1).split copy pnt2).IsSplit pnt1 :=
    isSplit_split_iff.mpr
      (Or.inr (isSplit_split_iff.mpr (Or.inl rfl)))
  have hSecond :
      ((map.split copy pnt1).split copy pnt2).IsSplit pnt2 :=
    isSplit_split_iff.mpr (Or.inl rfl)
  unfold clearRange
  rw [getValue_eraseBetween hLt hFirst hSecond]
  by_cases hIn : pnt1 ≤ pnt ∧ pnt < pnt2
  · rw [if_pos hIn, if_pos hIn, read_getValue_split hCopy,
      read_getValue_split hCopy]
  · rw [if_neg hIn, if_neg hIn, read_getValue_split hCopy,
      read_getValue_split hCopy]

theorem getValue_clearRange
    (map : PartMap κ α)
    (hLt : pnt1 < pnt2)
    (pnt : κ) :
    (map.clearRange id pnt1 pnt2).getValue pnt =
      if pnt1 ≤ pnt ∧ pnt < pnt2 then
        map.getValue pnt1
      else
        map.getValue pnt :=
  @read_getValue_clearRange κ α α _ pnt1 pnt2 id id
    (fun _ => rfl) map hLt pnt

end PartMap

------------------------------------------------------------
-- Values at Split Points
------------------------------------------------------------

namespace PartMap

variable {κ α β : Type}
variable [LinearOrder κ]
variable {map : PartMap κ α}
variable {pnt : κ}

/- A split point keeps its value when others are added. -/
theorem getValue_split_of_isSplit
    {copy : α → α}
    {other : κ}
    (hOther : map.IsSplit other) :
    (map.split copy pnt).getValue other =
      map.getValue other := by
  by_cases hSplit : map.IsSplit pnt
  · rw [split_of_isSplit copy hSplit]
  · rcases hOther with ⟨entry, hMem, rfl⟩
    have hNe : entry.1 ≠ pnt :=
      fun hPoint => hSplit ⟨entry, hMem, hPoint⟩
    rw [split_of_not_isSplit copy hSplit, getValue_of_mem hMem]
    exact getValue_of_mem
      (mem_assign_iff.mpr (Or.inr ⟨hMem, hNe⟩))

/- The value at a new split point is a copy. -/
theorem getValue_split_self
    {copy : α → α}
    (hNew : ¬ map.IsSplit pnt) :
    (map.split copy pnt).getValue pnt =
      copy (map.getValue pnt) := by
  rw [split_of_not_isSplit copy hNew]
  exact getValue_of_mem (mem_assign_iff.mpr (Or.inl rfl))

/- Change the value at a split point. -/
def updateAt
    (pnt : κ)
    (change : α → α)
    (map : PartMap κ α) : PartMap κ α where
  defaultValue := map.defaultValue
  database :=
    map.database.map (fun entry =>
      (entry.1,
        if entry.1 = pnt then change entry.2 else entry.2))
  sorted := List.pairwise_map.mpr map.sorted

theorem isSplit_updateAt_iff
    {change : α → α}
    {other : κ} :
    (map.updateAt pnt change).IsSplit other ↔
      map.IsSplit other := by
  unfold IsSplit updateAt
  constructor
  · intro hSplit
    rcases hSplit with ⟨entry, hMem, rfl⟩
    rcases List.mem_map.mp hMem with ⟨old, hOld, rfl⟩
    exact ⟨old, hOld, rfl⟩
  · intro hSplit
    rcases hSplit with ⟨old, hOld, rfl⟩
    exact ⟨_, List.mem_map.mpr ⟨old, hOld, rfl⟩, rfl⟩

theorem getValue_updateAt_of_isSplit
    {change : α → α}
    {other : κ}
    (hOther : map.IsSplit other) :
    (map.updateAt pnt change).getValue other =
      if other = pnt then
        change (map.getValue other)
      else
        map.getValue other := by
  rcases hOther with ⟨entry, hMem, rfl⟩
  have hAfter :
      (entry.1,
        if entry.1 = pnt then change entry.2 else entry.2) ∈
        (map.updateAt pnt change).database :=
    List.mem_map.mpr ⟨entry, hMem, rfl⟩
  rw [getValue_of_mem hMem]
  exact getValue_of_mem hAfter

/- A change at a split point is one of its whole value. -/
theorem getValue_updateAt
    {change : α → α}
    {start : κ}
    (map : PartMap κ α)
    (pnt : κ) :
    (map.updateAt start change).getValue pnt =
      if map.startAt pnt = some start then
        change (map.getValue pnt)
      else
        map.getValue pnt := by
  rcases map.before_or_greatestBelow pnt with
    hBefore | ⟨entry, hEntry⟩
  · have hNone : map.startAt pnt = none := by
      unfold startAt
      rw [entryAt_eq_none_iff.mpr hBefore]
      rfl
    have hOther : ¬ map.startAt pnt = some start := by
      rw [hNone]
      exact nofun
    rw [if_neg hOther, getValue_of_before hBefore]
    apply getValue_of_before
    intro other hOther
    rcases List.mem_map.mp hOther with ⟨old, hOld, rfl⟩
    exact hBefore old hOld
  · have hAfter :
        (map.updateAt start change).GreatestBelow pnt
          (entry.1,
            if entry.1 = start then
              change entry.2
            else
              entry.2) := by
      refine ⟨List.mem_map.mpr ⟨entry, hEntry.mem, rfl⟩,
        hEntry.le, ?_⟩
      intro other hOther hLe
      rcases List.mem_map.mp hOther with ⟨old, hOld, rfl⟩
      exact hEntry.greatest old hOld hLe
    have hStart : map.startAt pnt = some entry.1 := by
      unfold startAt
      rw [entryAt_eq_some_iff.mpr hEntry]
      rfl
    rw [hAfter.getValue, hEntry.getValue, hStart]
    simp only [Option.some.injEq]

theorem startAt_updateAt
    {change : α → α}
    {start : κ} :
    (map.updateAt start change).startAt pnt =
      map.startAt pnt := by
  apply startAt_eq_of_isSplit
  · exact fun _ hSplit => isSplit_updateAt_iff.mpr hSplit
  · intro bound hSplit hLe
    exact ⟨bound, isSplit_updateAt_iff.mp hSplit, le_rfl, hLe⟩

/- Reads that do not see the change. -/
theorem read_getValue_updateAt
    {change : α → α}
    {read : α → β}
    (hChange : ∀ value, read (change value) = read value)
    (map : PartMap κ α)
    (start pnt : κ) :
    read ((map.updateAt start change).getValue pnt) =
      read (map.getValue pnt) := by
  rw [getValue_updateAt, apply_ite read, hChange, ite_self]

/- The first split point after a point with some value. -/
def findAfter
    (pnt : κ)
    (stop : α → Bool)
    (map : PartMap κ α) : Option κ :=
  ((map.database.dropWhile (fun entry =>
    entry.1 ≤ pnt)).find? (fun entry => stop entry.2)).map
      Prod.fst

/- A window up to that split point. -/
theorem inWindow_findAfter_iff
    {stop : α → Bool}
    {other : κ} :
    InWindow pnt (map.findAfter pnt stop) other ↔
      pnt ≤ other ∧
        ∀ bound, map.IsSplit bound → pnt < bound →
          stop (map.getValue bound) = true →
            other < bound := by
  have hBeyond :=
    SortedList.mem_dropWhile_le_iff map.keySorted pnt
  unfold InWindow findAfter
  apply and_congr_right
  intro _
  constructor
  · intro hLast bound hBound hAfter hStop
    rcases hBound with ⟨entry, hMem, rfl⟩
    rw [getValue_of_mem hMem] at hStop
    have hIn := (hBeyond entry).mpr ⟨hMem, hAfter⟩
    cases hFound : (map.database.dropWhile (fun entry =>
        entry.1 ≤ pnt)).find? (fun entry => stop entry.2) with
    | none =>
        exact absurd hStop
          (List.find?_eq_none.mp hFound entry hIn)
    | some first =>
        rw [hFound] at hLast
        have hFirst := hLast first.1 rfl
        rcases List.find?_eq_some_iff_append.mp hFound with
          ⟨_, before, after, hSplit, hBefore⟩
        have hSorted := map.keySorted.of_sublist
          (List.dropWhile_sublist (fun entry => entry.1 ≤ pnt))
        rw [hSplit] at hIn hSorted
        rcases List.mem_append.mp hIn with hEarlier | hLater
        · have hPassed := hBefore entry hEarlier
          rw [hStop] at hPassed
          cases hPassed
        · have hTail :
              SortedList.KeySorted Prod.fst (first :: after) :=
            (List.pairwise_append.mp hSorted).2.1
          exact hFirst.trans_le (hTail.head_le hLater)
  · intro hAll bound hBound
    rcases Option.map_eq_some_iff.mp hBound with
      ⟨entry, hFound, rfl⟩
    have hIn := List.mem_of_find?_eq_some hFound
    have hStop := List.find?_some hFound
    rcases (hBeyond entry).mp hIn with ⟨hMem, hAfter⟩
    apply hAll entry.1 ⟨entry, hMem, rfl⟩ hAfter
    rw [getValue_of_mem hMem]
    exact hStop

theorem lt_of_findAfter
    {stop : α → Bool}
    {bound : κ}
    (hFound : map.findAfter pnt stop = some bound) :
    pnt < bound := by
  rcases Option.map_eq_some_iff.mp hFound with
    ⟨entry, hEntry, rfl⟩
  exact ((SortedList.mem_dropWhile_le_iff map.keySorted pnt
    entry).mp (List.mem_of_find?_eq_some hEntry)).2

theorem isSplit_of_findAfter
    {stop : α → Bool}
    {bound : κ}
    (hFound : map.findAfter pnt stop = some bound) :
    map.IsSplit bound := by
  rcases Option.map_eq_some_iff.mp hFound with
    ⟨entry, hEntry, rfl⟩
  exact ⟨entry,
    (List.dropWhile_sublist _).subset
      (List.mem_of_find?_eq_some hEntry), rfl⟩

end PartMap

------------------------------------------------------------
-- The Default Value
------------------------------------------------------------

namespace PartMap

variable {κ α : Type}
variable [LinearOrder κ]
variable {map : PartMap κ α}
variable {pnt : κ}

/- Change the value of the points before all split points. -/
def updateDefault
    (change : α → α)
    (map : PartMap κ α) : PartMap κ α :=
  { map with defaultValue := change map.defaultValue }

theorem getValue_updateDefault_of_isSplit
    {change : α → α}
    {start : κ}
    (hStart : map.IsSplit start)
    (hLe : start ≤ pnt) :
    (map.updateDefault change).getValue pnt =
      map.getValue pnt := by
  rcases map.before_or_greatestBelow pnt with
    hBefore | ⟨entry, hEntry⟩
  · rcases hStart with ⟨entry, hMem, rfl⟩
    exact absurd hLe (not_le.mpr (hBefore entry hMem))
  · rw [hEntry.getValue]
    exact GreatestBelow.getValue
      ⟨hEntry.mem, hEntry.le, hEntry.greatest⟩

theorem getValue_updateDefault_of_before
    {change : α → α}
    (hBefore : ¬ ∃ start, map.IsSplit start ∧ start ≤ pnt) :
    (map.updateDefault change).getValue pnt =
      change (map.getValue pnt) := by
  have hAll : ∀ entry ∈ map.database, pnt < entry.1 := by
    intro entry hEntry
    by_contra hNot
    exact hBefore
      ⟨entry.1, ⟨entry, hEntry, rfl⟩, not_lt.mp hNot⟩
  rw [getValue_of_before hAll]
  exact getValue_of_before hAll

end PartMap

------------------------------------------------------------
-- Marked Split Points
------------------------------------------------------------

namespace PartMap

variable {κ α : Type}
variable [LinearOrder κ]
variable {map : PartMap κ α}
variable {mark : α → Prop}
variable {pnt : κ}

/- A split point whose own value has the mark. -/
def Marked
    (mark : α → Prop)
    (map : PartMap κ α)
    (pnt : κ) : Prop :=
  map.IsSplit pnt ∧ mark (map.getValue pnt)

/- Copies have no mark, so a new split point has none. -/
theorem marked_split_iff
    {copy : α → α}
    (hCopy : ∀ value, ¬ mark (copy value))
    {start : κ} :
    (map.split copy start).Marked mark pnt ↔
      map.Marked mark pnt := by
  unfold Marked
  rw [isSplit_split_iff]
  constructor
  · intro hMarked
    rcases hMarked with ⟨hPoint, hMark⟩
    by_cases hSplit : map.IsSplit pnt
    · rw [getValue_split_of_isSplit hSplit] at hMark
      exact ⟨hSplit, hMark⟩
    · rcases hPoint with rfl | hOld
      · rw [getValue_split_self hSplit] at hMark
        exact absurd hMark (hCopy _)
      · exact absurd hOld hSplit
  · intro hMarked
    rcases hMarked with ⟨hSplit, hMark⟩
    rw [getValue_split_of_isSplit hSplit]
    exact ⟨Or.inr hSplit, hMark⟩

theorem marked_splitLast_iff
    {copy : α → α}
    (hCopy : ∀ value, ¬ mark (copy value))
    {last : Option κ} :
    (map.splitLast copy last).Marked mark pnt ↔
      map.Marked mark pnt := by
  cases last with
  | none => exact Iff.rfl
  | some bound => exact marked_split_iff hCopy

theorem marked_updateAt_iff
    {change : α → α}
    {start : κ} :
    (map.updateAt start change).Marked mark pnt ↔
      map.IsSplit pnt ∧
        mark (if pnt = start then
          change (map.getValue pnt)
        else
          map.getValue pnt) := by
  unfold Marked
  rw [isSplit_updateAt_iff]
  apply and_congr_right
  intro hSplit
  rw [getValue_updateAt_of_isSplit hSplit]

theorem marked_updateDefault_iff
    {change : α → α} :
    (map.updateDefault change).Marked mark pnt ↔
      map.Marked mark pnt := by
  apply and_congr_right
  intro hSplit
  have hOld : map.IsSplit pnt := hSplit
  rw [getValue_updateDefault_of_isSplit hOld le_rfl]

/- Changes that neither give marks nor take them. -/
theorem marked_updateRange_iff_of_same
    {change : α → α}
    {first : κ}
    {last : Option κ}
    (hChange : ∀ value, mark (change value) ↔ mark value)
    (hFirst : map.IsSplit first)
    (hLast : ∀ bound ∈ last, map.IsSplit bound) :
    (map.updateRange first last change).Marked mark pnt ↔
      map.Marked mark pnt := by
  unfold Marked
  rw [isSplit_updateRange_iff,
    getValue_updateRange hFirst hLast]
  by_cases hIn : InWindow first last pnt
  · rw [if_pos hIn, hChange]
  · rw [if_neg hIn]

/- Painting marks the split points of the window. -/
theorem marked_paint_iff
    {copy change : α → α}
    (hCopy : ∀ value, ¬ mark (copy value))
    (hChange : ∀ value, mark (change value))
    {first : κ}
    {last : Option κ} :
    (map.paint copy first last change).Marked mark pnt ↔
      map.Marked mark pnt ∨
        (InWindow first last pnt ∧
          (pnt = first ∨ map.IsSplit pnt)) := by
  have hFirst := map.isSplit_first copy first last
  have hLast := map.isSplit_last copy first last
  have hOld :
      ((map.split copy first).splitLast copy last).Marked
          mark pnt ↔
        map.Marked mark pnt :=
    (marked_splitLast_iff hCopy).trans (marked_split_iff hCopy)
  unfold paint
  by_cases hIn : InWindow first last pnt
  · have hNotLast : last ≠ some pnt :=
      fun hBound => lt_irrefl pnt (hIn.2 pnt hBound)
    unfold Marked at hOld ⊢
    rw [isSplit_updateRange_iff,
      getValue_updateRange hFirst hLast, if_pos hIn,
      isSplit_splitLast_iff, isSplit_split_iff]
    constructor
    · intro hMarked
      rcases hMarked.1 with hBound | hSplit
      · exact absurd hBound hNotLast
      · exact Or.inr ⟨hIn, hSplit⟩
    · intro hMarked
      rcases hMarked with hMark | ⟨_, hSplit⟩
      · exact ⟨Or.inr (Or.inr hMark.1), hChange _⟩
      · exact ⟨Or.inr hSplit, hChange _⟩
  · have hSame :
        ((((map.split copy first).splitLast copy
            last).updateRange first last change).Marked
              mark pnt) ↔
          ((map.split copy first).splitLast copy last).Marked
            mark pnt := by
      unfold Marked
      rw [isSplit_updateRange_iff,
        getValue_updateRange hFirst hLast, if_neg hIn]
    rw [hSame, hOld]
    exact ⟨Or.inl, fun hMarked =>
      hMarked.resolve_right (fun hNew => hIn hNew.1)⟩

/- Painting that neither gives marks nor takes them. -/
theorem marked_paint_iff_of_same
    {copy change : α → α}
    (hCopy : ∀ value, ¬ mark (copy value))
    (hChange : ∀ value, mark (change value) ↔ mark value)
    {first : κ}
    {last : Option κ} :
    (map.paint copy first last change).Marked mark pnt ↔
      map.Marked mark pnt := by
  unfold paint
  rw [marked_updateRange_iff_of_same hChange
    (map.isSplit_first copy first last)
    (map.isSplit_last copy first last)]
  exact (marked_splitLast_iff hCopy).trans
    (marked_split_iff hCopy)

end PartMap

------------------------------------------------------------
-- The Bounds of a Value
------------------------------------------------------------

namespace PartMap

variable {κ α β : Type}
variable [LinearOrder κ]
variable {map : PartMap κ α}
variable {pnt other : κ}

/- Where the values before and after a point are split off. -/
def bounds
    (pnt : κ)
    (map : PartMap κ α) : Option κ × Option κ :=
  (map.startAt pnt, map.findAfter pnt (fun _ => true))

theorem exists_findAfter
    {stop : α → Bool}
    {bound : κ}
    (hBound : map.IsSplit bound)
    (hAfter : pnt < bound)
    (hStop : stop (map.getValue bound) = true) :
    ∃ first ∈ map.findAfter pnt stop, first ≤ bound := by
  by_contra hNone
  have hIn : InWindow pnt (map.findAfter pnt stop) bound := by
    refine ⟨hAfter.le, ?_⟩
    intro first hFirst
    by_contra hNot
    exact hNone ⟨first, hFirst, not_lt.mp hNot⟩
  exact lt_irrefl bound
    ((inWindow_findAfter_iff.mp hIn).2 bound hBound hAfter
      hStop)

/- All points within the bounds have the same value. -/
theorem startAt_eq_of_bounds
    (hBefore : ∀ start ∈ (map.bounds pnt).1, start ≤ other)
    (hAfter : ∀ bound ∈ (map.bounds pnt).2, other < bound) :
    map.startAt other = map.startAt pnt := by
  have hBeyond :
      ∀ bound, map.IsSplit bound → pnt < bound →
        other < bound := by
    intro bound hBound hLt
    have hNext :
        ∃ first ∈ (map.bounds pnt).2, first ≤ bound :=
      @exists_findAfter κ α _ map pnt (fun _ => true) bound
        hBound hLt rfl
    rcases hNext with ⟨first, hFirst, hLe⟩
    exact (hAfter first hFirst).trans_le hLe
  cases hStart : map.startAt pnt with
  | none =>
      apply startAt_eq_none_iff.mpr
      intro start hSplit
      exact hBeyond start hSplit
        (startAt_eq_none_iff.mp hStart start hSplit)
  | some first =>
      rcases startAt_eq_some_iff.mp hStart with
        ⟨hFirst, _, hAll⟩
      apply startAt_eq_some_iff.mpr
      refine ⟨hFirst, hBefore first hStart, ?_⟩
      intro bound hBound hLe
      apply hAll bound hBound
      by_contra hNot
      exact absurd hLe
        (not_le.mpr (hBeyond bound hBound (not_le.mp hNot)))

end PartMap
