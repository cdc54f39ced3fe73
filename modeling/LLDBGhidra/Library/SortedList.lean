import Mathlib.Data.List.Sort
import Mathlib.Data.Prod.Lex

/-
  Lists ordered by a key, used as ordered multisets.

  A bound splits such a list into the items below it and the
  rest, and an item is inserted in front of its equals or
  behind them.

  Main declarations:
    * `KeySorted`
    * `mem_dropWhile_lt_iff`
    * `mem_takeWhile_le_iff`
    * `KeySorted.insertLower`
    * `KeySorted.insertUpper`
-/

------------------------------------------------------------
-- Lists Ordered by a Key
------------------------------------------------------------

namespace SortedList

variable {α κ : Type}
variable [LinearOrder κ]

/- The keys of the list never decrease. -/
def KeySorted
    (key : α → κ)
    (items : List α) : Prop :=
  items.Pairwise (fun left right => key left ≤ key right)

namespace KeySorted

variable {key : α → κ}

theorem head_le
    {first item : α}
    {rest : List α}
    (hSorted : KeySorted key (first :: rest))
    (hItem : item ∈ first :: rest) :
    key first ≤ key item := by
  rcases List.mem_cons.mp hItem with hEq | hRest
  · exact le_of_eq (congrArg key hEq.symm)
  · exact List.rel_of_pairwise_cons hSorted hRest

theorem tail
    {first : α}
    {rest : List α}
    (hSorted : KeySorted key (first :: rest)) :
    KeySorted key rest :=
  List.Pairwise.of_cons hSorted

theorem of_sublist
    {items larger : List α}
    (hSorted : KeySorted key larger)
    (hSublist : items.Sublist larger) :
    KeySorted key items :=
  List.Pairwise.sublist hSublist hSorted

/- Only the sequence of keys matters. -/
theorem congr_keys
    {items others : List α}
    (hKeys : items.map key = others.map key)
    (hSorted : KeySorted key others) :
    KeySorted key items := by
  have hOthers : (others.map key).Pairwise (· ≤ ·) :=
    List.pairwise_map.mpr hSorted
  rw [← hKeys] at hOthers
  exact List.pairwise_map.mp hOthers

/- A block may precede another whose keys are no smaller. -/
theorem append
    {items others : List α}
    (hItems : KeySorted key items)
    (hOthers : KeySorted key others)
    (hBetween :
      ∀ left ∈ items, ∀ right ∈ others,
        key left ≤ key right) :
    KeySorted key (items ++ others) :=
  List.pairwise_append.mpr ⟨hItems, hOthers, hBetween⟩

end KeySorted

end SortedList

------------------------------------------------------------
-- Bounds
------------------------------------------------------------

namespace SortedList

variable {α κ : Type}
variable [LinearOrder κ]
variable {key : α → κ}

/- What is left after dropping the smaller keys. -/
theorem mem_dropWhile_lt_iff
    {items : List α}
    (hSorted : KeySorted key items)
    (bound : κ)
    (item : α) :
    item ∈ items.dropWhile (fun other => key other < bound) ↔
      item ∈ items ∧ bound ≤ key item := by
  induction items with
  | nil => simp
  | cons first rest ih =>
      by_cases hFirst : key first < bound
      · rw [List.dropWhile_cons_of_pos (by simpa using hFirst),
          ih hSorted.tail]
        constructor
        · rintro ⟨hMem, hBound⟩
          exact ⟨List.mem_cons_of_mem _ hMem, hBound⟩
        · rintro ⟨hMem, hBound⟩
          rcases List.mem_cons.mp hMem with rfl | hRest
          · exact absurd hFirst (not_lt.mpr hBound)
          · exact ⟨hRest, hBound⟩
      · rw [List.dropWhile_cons_of_neg (by simpa using hFirst)]
        constructor
        · intro hMem
          exact ⟨hMem,
            (not_lt.mp hFirst).trans (hSorted.head_le hMem)⟩
        · exact fun hBoth => hBoth.1

/- The prefix of keys up to an inclusive bound. -/
theorem mem_takeWhile_le_iff
    {items : List α}
    (hSorted : KeySorted key items)
    (bound : κ)
    (item : α) :
    item ∈ items.takeWhile (fun other => key other ≤ bound) ↔
      item ∈ items ∧ key item ≤ bound := by
  induction items with
  | nil => simp
  | cons first rest ih =>
      by_cases hFirst : key first ≤ bound
      · rw [List.takeWhile_cons_of_pos (by simpa using hFirst),
          List.mem_cons, ih hSorted.tail, List.mem_cons]
        constructor
        · rintro (rfl | ⟨hMem, hBound⟩)
          · exact ⟨Or.inl rfl, hFirst⟩
          · exact ⟨Or.inr hMem, hBound⟩
        · rintro ⟨rfl | hMem, hBound⟩
          · exact Or.inl rfl
          · exact Or.inr ⟨hMem, hBound⟩
      · rw [List.takeWhile_cons_of_neg (by simpa using hFirst)]
        constructor
        · simp
        · rintro ⟨hMem, hBound⟩
          exact absurd ((hSorted.head_le hMem).trans hBound)
            hFirst

/- The prefix of keys below a bound. -/
theorem mem_takeWhile_lt_iff
    {items : List α}
    (hSorted : KeySorted key items)
    (bound : κ)
    (item : α) :
    item ∈ items.takeWhile (fun other => key other < bound) ↔
      item ∈ items ∧ key item < bound := by
  induction items with
  | nil => simp
  | cons first rest ih =>
      by_cases hFirst : key first < bound
      · rw [List.takeWhile_cons_of_pos (by simpa using hFirst),
          List.mem_cons, ih hSorted.tail, List.mem_cons]
        constructor
        · rintro (rfl | ⟨hMem, hBound⟩)
          · exact ⟨Or.inl rfl, hFirst⟩
          · exact ⟨Or.inr hMem, hBound⟩
        · rintro ⟨rfl | hMem, hBound⟩
          · exact Or.inl rfl
          · exact Or.inr ⟨hMem, hBound⟩
      · rw [List.takeWhile_cons_of_neg (by simpa using hFirst)]
        constructor
        · simp
        · rintro ⟨hMem, hBound⟩
          exact absurd ((hSorted.head_le hMem).trans_lt hBound)
            hFirst

/- The items dropped at a bound all lie below it. -/
theorem lt_of_mem_takeWhile
    {items : List α}
    {bound : κ}
    {item : α}
    (hMem :
      item ∈ items.takeWhile (fun other => key other < bound)) :
    key item < bound := by
  have hAll :=
    List.all_eq_true.mp List.all_takeWhile item hMem
  simpa using hAll

/- The items kept beyond an inclusive bound exceed it. -/
theorem mem_dropWhile_le_iff
    {items : List α}
    (hSorted : KeySorted key items)
    (bound : κ)
    (item : α) :
    item ∈ items.dropWhile (fun other => key other ≤ bound) ↔
      item ∈ items ∧ bound < key item := by
  induction items with
  | nil => simp
  | cons first rest ih =>
      by_cases hFirst : key first ≤ bound
      · rw [List.dropWhile_cons_of_pos (by simpa using hFirst),
          ih hSorted.tail]
        constructor
        · rintro ⟨hMem, hBound⟩
          exact ⟨List.mem_cons_of_mem _ hMem, hBound⟩
        · rintro ⟨hMem, hBound⟩
          rcases List.mem_cons.mp hMem with rfl | hRest
          · exact absurd hFirst (not_le.mpr hBound)
          · exact ⟨hRest, hBound⟩
      · rw [List.dropWhile_cons_of_neg (by simpa using hFirst)]
        constructor
        · intro hMem
          exact ⟨hMem,
            (not_le.mp hFirst).trans_le (hSorted.head_le hMem)⟩
        · exact fun hBoth => hBoth.1

end SortedList

------------------------------------------------------------
-- Insertion
------------------------------------------------------------

namespace SortedList

variable {α κ : Type}
variable [LinearOrder κ]

/- Insert in front of the items with an equal key. -/
def insertLower
    (key : α → κ)
    (item : α)
    (items : List α) : List α :=
  items.orderedInsert
    (fun left right => key left ≤ key right) item

/- Insert behind the items with an equal key. -/
def insertUpper
    (key : α → κ)
    (item : α)
    (items : List α) : List α :=
  items.orderedInsert
    (fun left right => key left < key right) item

variable {key : α → κ}

@[simp] theorem mem_insertLower
    {item other : α}
    {items : List α} :
    other ∈ insertLower key item items ↔
      other = item ∨ other ∈ items := by
  simp [insertLower, List.mem_orderedInsert]

@[simp] theorem mem_insertUpper
    {item other : α}
    {items : List α} :
    other ∈ insertUpper key item items ↔
      other = item ∨ other ∈ items := by
  simp [insertUpper, List.mem_orderedInsert]

theorem KeySorted.insertLower
    {items : List α}
    (hSorted : KeySorted key items)
    (item : α) :
    KeySorted key (SortedList.insertLower key item items) := by
  induction items with
  | nil => simp [SortedList.insertLower, KeySorted]
  | cons first rest ih =>
      by_cases hFirst : key item ≤ key first
      · simp only [SortedList.insertLower,
          List.orderedInsert_cons, hFirst, if_true]
        refine List.pairwise_cons.mpr ⟨?_, hSorted⟩
        intro other hOther
        exact hFirst.trans (hSorted.head_le hOther)
      · simp only [SortedList.insertLower,
          List.orderedInsert_cons, hFirst, if_false]
        refine List.pairwise_cons.mpr ⟨?_, ih hSorted.tail⟩
        intro other hOther
        rcases mem_insertLower.mp hOther with rfl | hRest
        · exact (not_le.mp hFirst).le
        · exact hSorted.head_le (List.mem_cons_of_mem _ hRest)

theorem KeySorted.insertUpper
    {items : List α}
    (hSorted : KeySorted key items)
    (item : α) :
    KeySorted key (SortedList.insertUpper key item items) := by
  induction items with
  | nil => simp [SortedList.insertUpper, KeySorted]
  | cons first rest ih =>
      by_cases hFirst : key item < key first
      · simp only [SortedList.insertUpper,
          List.orderedInsert_cons, hFirst, if_true]
        refine List.pairwise_cons.mpr ⟨?_, hSorted⟩
        intro other hOther
        exact hFirst.le.trans (hSorted.head_le hOther)
      · simp only [SortedList.insertUpper,
          List.orderedInsert_cons, hFirst, if_false]
        refine List.pairwise_cons.mpr ⟨?_, ih hSorted.tail⟩
        intro other hOther
        rcases mem_insertUpper.mp hOther with rfl | hRest
        · exact not_lt.mp hFirst
        · exact hSorted.head_le (List.mem_cons_of_mem _ hRest)

end SortedList
