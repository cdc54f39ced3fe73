import Mathlib.Logic.Relation
import Mathlib.Order.Interval.Basic

/-
  Disjoint intervals of a linear order, in order.

  An interval is inserted by joining it with the intervals it
  meets.  Two points are together when one interval has both;
  insertion adds the least transitive relation in which the
  points of the new interval are together.  A cover is
  determined by that relation, so the outcome of many
  insertions does not depend on their order.

  Main declarations:
    * `DisjointCover`
    * `DisjointCover.Together`
    * `DisjointCover.insert`
    * `DisjointCover.ext_together`
    * `DisjointCover.together_insertAll_iff`
    * `DisjointCover.insertAll_congr`
    * `DisjointCover.insertInterval_split`
-/

------------------------------------------------------------
-- Intervals That Meet
------------------------------------------------------------

namespace DisjointCover

variable {α : Type}
variable [LinearOrder α]

/- The first interval ends before the second one starts. -/
def Precedes
    (left right : NonemptyInterval α) : Prop :=
  left.snd < right.fst

instance
    (left right : NonemptyInterval α) :
    Decidable (Precedes left right) := by
  unfold Precedes
  infer_instance

/- The intervals have a point in common. -/
def Meets
    (left right : NonemptyInterval α) : Prop :=
  ¬ Precedes left right ∧ ¬ Precedes right left

theorem fst_mem
    (item : NonemptyInterval α) :
    item.fst ∈ item :=
  NonemptyInterval.mem_def.mpr ⟨le_rfl, item.fst_le_snd⟩

theorem snd_mem
    (item : NonemptyInterval α) :
    item.snd ∈ item :=
  NonemptyInterval.mem_def.mpr ⟨item.fst_le_snd, le_rfl⟩

theorem mem_of_le
    {left right : NonemptyInterval α}
    {point : α}
    (hLe : left ≤ right)
    (hPoint : point ∈ left) :
    point ∈ right := by
  rcases NonemptyInterval.le_def.mp hLe with ⟨hFirst, hLast⟩
  rcases NonemptyInterval.mem_def.mp hPoint with ⟨hLow, hHigh⟩
  exact NonemptyInterval.mem_def.mpr
    ⟨hFirst.trans hLow, hHigh.trans hLast⟩

/- A point of the join is a point of a part, if these meet. -/
theorem mem_sup_iff
    {left right : NonemptyInterval α}
    (hMeets : Meets left right)
    {point : α} :
    point ∈ left ⊔ right ↔ point ∈ left ∨ point ∈ right := by
  rcases hMeets with ⟨hLeft, hRight⟩
  unfold Precedes at hLeft hRight
  rw [not_lt] at hLeft hRight
  constructor
  · intro hPoint
    rcases NonemptyInterval.mem_def.mp hPoint with ⟨hLow, hHigh⟩
    rw [NonemptyInterval.fst_sup, inf_le_iff] at hLow
    rw [NonemptyInterval.snd_sup, le_sup_iff] at hHigh
    rw [NonemptyInterval.mem_def, NonemptyInterval.mem_def]
    rcases hLow with hLow | hLow <;>
      rcases hHigh with hHigh | hHigh
    · exact Or.inl ⟨hLow, hHigh⟩
    · rcases le_total point left.snd with hIn | hOut
      · exact Or.inl ⟨hLow, hIn⟩
      · exact Or.inr ⟨hLeft.trans hOut, hHigh⟩
    · rcases le_total point right.snd with hIn | hOut
      · exact Or.inr ⟨hLow, hIn⟩
      · exact Or.inl ⟨hRight.trans hOut, hHigh⟩
    · exact Or.inr ⟨hLow, hHigh⟩
  · rintro (hPoint | hPoint)
    · exact mem_of_le le_sup_left hPoint
    · exact mem_of_le le_sup_right hPoint

theorem exists_common
    {left right : NonemptyInterval α}
    (hMeets : Meets left right) :
    ∃ point, point ∈ left ∧ point ∈ right := by
  rcases hMeets with ⟨hLeft, hRight⟩
  unfold Precedes at hLeft hRight
  rw [not_lt] at hLeft hRight
  refine ⟨left.fst ⊔ right.fst, ?_, ?_⟩
  · exact NonemptyInterval.mem_def.mpr
      ⟨le_sup_left, sup_le left.fst_le_snd hLeft⟩
  · exact NonemptyInterval.mem_def.mpr
      ⟨le_sup_right, sup_le hRight right.fst_le_snd⟩

theorem meets_of_mem
    {left right : NonemptyInterval α}
    {point : α}
    (hLeft : point ∈ left)
    (hRight : point ∈ right) :
    Meets left right := by
  rcases NonemptyInterval.mem_def.mp hLeft with
    ⟨hLeftLow, hLeftHigh⟩
  rcases NonemptyInterval.mem_def.mp hRight with
    ⟨hRightLow, hRightHigh⟩
  constructor
  · exact not_lt.mpr (hRightLow.trans hLeftHigh)
  · exact not_lt.mpr (hLeftLow.trans hRightHigh)

end DisjointCover

------------------------------------------------------------
-- Inserting an Interval into a List
------------------------------------------------------------

namespace DisjointCover

variable {α : Type}
variable [LinearOrder α]

/- Join the interval with the ones that it meets. -/
def insertInterval
    (item : NonemptyInterval α) :
    List (NonemptyInterval α) → List (NonemptyInterval α)
  | [] => [item]
  | first :: rest =>
      if Precedes first item then
        first :: insertInterval item rest
      else if Precedes item first then
        item :: first :: rest
      else
        insertInterval (first ⊔ item) rest

theorem insertInterval_of_precedes
    {item first : NonemptyInterval α}
    (rest : List (NonemptyInterval α))
    (hPrecedes : Precedes first item) :
    insertInterval item (first :: rest) =
      first :: insertInterval item rest := by
  rw [insertInterval, if_pos hPrecedes]

theorem insertInterval_of_follows
    {item first : NonemptyInterval α}
    (rest : List (NonemptyInterval α))
    (hFollows : Precedes item first) :
    insertInterval item (first :: rest) =
      item :: first :: rest := by
  have hNot : ¬ Precedes first item := by
    intro hLt
    exact lt_irrefl _
      (calc first.fst ≤ first.snd := first.fst_le_snd
        _ < item.fst := hLt
        _ ≤ item.snd := item.fst_le_snd
        _ < first.fst := hFollows)
  rw [insertInterval, if_neg hNot, if_pos hFollows]

theorem insertInterval_of_meets
    {item first : NonemptyInterval α}
    (rest : List (NonemptyInterval α))
    (hMeets : Meets first item) :
    insertInterval item (first :: rest) =
      insertInterval (first ⊔ item) rest := by
  rw [insertInterval, if_neg hMeets.1, if_neg hMeets.2]

/- An interval precedes, follows or meets another one. -/
theorem precedes_or_follows_or_meets
    (left right : NonemptyInterval α) :
    Precedes left right ∨ Precedes right left ∨
      Meets left right := by
  by_cases hLeft : Precedes left right
  · exact Or.inl hLeft
  · by_cases hRight : Precedes right left
    · exact Or.inr (Or.inl hRight)
    · exact Or.inr (Or.inr ⟨hLeft, hRight⟩)

/- Everything that was covered is covered by one interval. -/
theorem exists_le_insertInterval
    {items : List (NonemptyInterval α)}
    {item covered : NonemptyInterval α}
    (hCovered : covered = item ∨ covered ∈ items) :
    ∃ larger ∈ insertInterval item items,
      covered ≤ larger := by
  induction items generalizing item covered with
  | nil =>
      rcases hCovered with rfl | hMem
      · exact ⟨covered, List.mem_singleton_self _, le_rfl⟩
      · exact absurd hMem List.not_mem_nil
  | cons first rest ih =>
      rcases precedes_or_follows_or_meets first item with
        hPrecedes | hFollows | hMeets
      · rw [insertInterval_of_precedes rest hPrecedes]
        rcases hCovered with rfl | hMem
        · rcases ih (Or.inl rfl) with ⟨larger, hLarger, hLe⟩
          exact ⟨larger, List.mem_cons_of_mem _ hLarger, hLe⟩
        · rcases List.mem_cons.mp hMem with rfl | hRest
          · exact ⟨covered, List.mem_cons_self, le_rfl⟩
          · rcases ih (Or.inr hRest) with ⟨larger, hLarger, hLe⟩
            exact ⟨larger, List.mem_cons_of_mem _ hLarger,
              hLe⟩
      · rw [insertInterval_of_follows rest hFollows]
        exact ⟨covered, List.mem_cons.mpr hCovered, le_rfl⟩
      · rw [insertInterval_of_meets rest hMeets]
        rcases hCovered with rfl | hMem
        · rcases ih (Or.inl rfl) with ⟨larger, hLarger, hLe⟩
          exact ⟨larger, hLarger, le_sup_right.trans hLe⟩
        · rcases List.mem_cons.mp hMem with rfl | hRest
          · rcases ih (Or.inl rfl) with ⟨larger, hLarger, hLe⟩
            exact ⟨larger, hLarger, le_sup_left.trans hLe⟩
          · exact ih (Or.inr hRest)

/- An interval of the outcome is the new one or an old one. -/
theorem mem_insertInterval_cases
    {items : List (NonemptyInterval α)}
    {item found : NonemptyInterval α}
    (hFound : found ∈ insertInterval item items) :
    item ≤ found ∨ found ∈ items := by
  induction items generalizing item with
  | nil => exact Or.inl (List.mem_singleton.mp hFound).ge
  | cons first rest ih =>
      rcases precedes_or_follows_or_meets first item with
        hPrecedes | hFollows | hMeets
      · rw [insertInterval_of_precedes rest hPrecedes] at hFound
        rcases List.mem_cons.mp hFound with rfl | hRest
        · exact Or.inr List.mem_cons_self
        · exact (ih hRest).imp id (List.mem_cons_of_mem _)
      · rw [insertInterval_of_follows rest hFollows] at hFound
        exact (List.mem_cons.mp hFound).imp
          (fun hEq => hEq.ge) id
      · rw [insertInterval_of_meets rest hMeets] at hFound
        exact (ih hFound).imp
          (fun hLe => le_sup_right.trans hLe)
          (List.mem_cons_of_mem _)

/- Nothing reaches further down than before. -/
theorem lt_fst_of_mem_insertInterval
    {items : List (NonemptyInterval α)}
    {item found : NonemptyInterval α}
    {bound : α}
    (hItem : bound < item.fst)
    (hItems : ∀ old ∈ items, bound < old.fst)
    (hFound : found ∈ insertInterval item items) :
    bound < found.fst := by
  induction items generalizing item with
  | nil =>
      rw [List.mem_singleton.mp hFound]
      exact hItem
  | cons first rest ih =>
      have hFirst := hItems first List.mem_cons_self
      have hRest : ∀ old ∈ rest, bound < old.fst :=
        fun old hOld => hItems old (List.mem_cons_of_mem _ hOld)
      rcases precedes_or_follows_or_meets first item with
        hPrecedes | hFollows | hMeets
      · rw [insertInterval_of_precedes rest hPrecedes] at hFound
        rcases List.mem_cons.mp hFound with rfl | hMem
        · exact hFirst
        · exact ih hItem hRest hMem
      · rw [insertInterval_of_follows rest hFollows] at hFound
        rcases List.mem_cons.mp hFound with rfl | hMem
        · exact hItem
        · exact hItems found hMem
      · rw [insertInterval_of_meets rest hMeets] at hFound
        have hSup : bound < (first ⊔ item).fst := by
          rw [NonemptyInterval.fst_sup]
          exact lt_inf_iff.mpr ⟨hFirst, hItem⟩
        exact ih hSup hRest hFound

theorem pairwise_insertInterval
    {items : List (NonemptyInterval α)}
    (item : NonemptyInterval α)
    (hItems : items.Pairwise Precedes) :
    (insertInterval item items).Pairwise Precedes := by
  induction items generalizing item with
  | nil => exact List.pairwise_singleton _ _
  | cons first rest ih =>
      have hTail := hItems.of_cons
      have hFirst : ∀ old ∈ rest, Precedes first old :=
        fun old hOld => List.rel_of_pairwise_cons hItems hOld
      rcases precedes_or_follows_or_meets first item with
        hPrecedes | hFollows | hMeets
      · rw [insertInterval_of_precedes rest hPrecedes]
        refine List.pairwise_cons.mpr ⟨?_, ih item hTail⟩
        intro found hFound
        exact lt_fst_of_mem_insertInterval hPrecedes hFirst
          hFound
      · rw [insertInterval_of_follows rest hFollows]
        refine List.pairwise_cons.mpr ⟨?_, hItems⟩
        intro found hFound
        rcases List.mem_cons.mp hFound with rfl | hMem
        · exact hFollows
        · exact lt_of_lt_of_le hFollows
            (first.fst_le_snd.trans (hFirst found hMem).le)
      · rw [insertInterval_of_meets rest hMeets]
        exact ih (first ⊔ item) hTail

end DisjointCover

------------------------------------------------------------
-- Splitting the List at an Interval
------------------------------------------------------------

namespace DisjointCover

variable {α : Type}
variable [LinearOrder α]

theorem insertInterval_append_of_precedes
    {before : List (NonemptyInterval α)}
    {item : NonemptyInterval α}
    (rest : List (NonemptyInterval α))
    (hBefore : ∀ old ∈ before, Precedes old item) :
    insertInterval item (before ++ rest) =
      before ++ insertInterval item rest := by
  induction before with
  | nil => rfl
  | cons first before ih =>
      have hFirst := hBefore first List.mem_cons_self
      rw [List.cons_append, insertInterval_of_precedes _ hFirst,
        ih (fun old hOld =>
          hBefore old (List.mem_cons_of_mem _ hOld)),
        List.cons_append]

theorem meets_sup
    {first left right : NonemptyInterval α}
    (hMeets : Meets first right) :
    Meets first (left ⊔ right) := by
  rcases exists_common hMeets with ⟨point, hFirst, hRight⟩
  exact meets_of_mem hFirst (mem_of_le le_sup_right hRight)

/- The intervals that are met are joined one after the other. -/
theorem insertInterval_append_of_meets
    {met : List (NonemptyInterval α)}
    {item : NonemptyInterval α}
    (rest : List (NonemptyInterval α))
    (hMet : ∀ old ∈ met, Meets old item) :
    insertInterval item (met ++ rest) =
      insertInterval
        (met.foldl (fun joined old => old ⊔ joined) item)
        rest := by
  induction met generalizing item with
  | nil => rfl
  | cons first met ih =>
      have hFirst := hMet first List.mem_cons_self
      have hRest : ∀ old ∈ met, Meets old (first ⊔ item) :=
        fun old hOld =>
          meets_sup (hMet old (List.mem_cons_of_mem _ hOld))
      rw [List.cons_append, insertInterval_of_meets _ hFirst,
        ih hRest, List.foldl_cons]

theorem precedes_sup
    {left right last : NonemptyInterval α}
    (hLeft : Precedes left last)
    (hRight : Precedes right last) :
    Precedes (left ⊔ right) last := by
  unfold Precedes
  rw [NonemptyInterval.snd_sup]
  exact sup_lt_iff.mpr ⟨hLeft, hRight⟩

theorem precedes_foldl_sup
    {met : List (NonemptyInterval α)}
    {item last : NonemptyInterval α}
    (hItem : Precedes item last)
    (hMet : ∀ old ∈ met, Precedes old last) :
    Precedes (met.foldl (fun joined old => old ⊔ joined) item)
      last := by
  induction met generalizing item with
  | nil => exact hItem
  | cons first met ih =>
      have hFirst := hMet first List.mem_cons_self
      rw [List.foldl_cons]
      exact ih (precedes_sup hFirst hItem)
        (fun old hOld => hMet old (List.mem_cons_of_mem _ hOld))

/-
  The list splits into what precedes the interval, what meets
  it and what follows it.
-/
theorem insertInterval_split
    {before met after : List (NonemptyInterval α)}
    {item : NonemptyInterval α}
    (hItems : (before ++ met ++ after).Pairwise Precedes)
    (hBefore : ∀ old ∈ before, Precedes old item)
    (hMet : ∀ old ∈ met, Meets old item)
    (hAfter : ∀ old ∈ after, Precedes item old) :
    insertInterval item (before ++ met ++ after) =
      before ++
        met.foldl (fun joined old => old ⊔ joined) item ::
          after := by
  have hBetween := (List.pairwise_append.mp hItems).2.2
  rw [List.append_assoc,
    insertInterval_append_of_precedes _ hBefore,
    insertInterval_append_of_meets _ hMet]
  cases after with
  | nil => rfl
  | cons first rest =>
      have hFirst := hAfter first List.mem_cons_self
      have hMetFirst : ∀ old ∈ met, Precedes old first :=
        fun old hOld =>
          hBetween old (List.mem_append_right _ hOld) first
            List.mem_cons_self
      rw [insertInterval_of_follows rest
        (precedes_foldl_sup hFirst hMetFirst)]

end DisjointCover

------------------------------------------------------------
-- Points in the Same Interval
------------------------------------------------------------

namespace DisjointCover

variable {α : Type}
variable [LinearOrder α]

/- One of the intervals has both points. -/
def TogetherIn
    (items : List (NonemptyInterval α))
    (left right : α) : Prop :=
  ∃ item ∈ items, left ∈ item ∧ right ∈ item

/- The points are together, or both are in the interval. -/
def TogetherOr
    (items : List (NonemptyInterval α))
    (item : NonemptyInterval α)
    (left right : α) : Prop :=
  TogetherIn items left right ∨ (left ∈ item ∧ right ∈ item)

/- Disjoint intervals with a point in common are equal. -/
theorem eq_of_mem_of_mem
    {items : List (NonemptyInterval α)}
    (hItems : items.Pairwise Precedes)
    {left right : NonemptyInterval α}
    (hLeft : left ∈ items)
    (hRight : right ∈ items)
    {point : α}
    (hPointLeft : point ∈ left)
    (hPointRight : point ∈ right) :
    left = right := by
  induction items with
  | nil => exact absurd hLeft List.not_mem_nil
  | cons first rest ih =>
      have hFirst : ∀ old ∈ rest, Precedes first old :=
        fun old hOld => List.rel_of_pairwise_cons hItems hOld
      rcases List.mem_cons.mp hLeft with rfl | hLeftRest <;>
        rcases List.mem_cons.mp hRight with rfl | hRightRest
      · rfl
      · exact absurd (hFirst right hRightRest)
          (meets_of_mem hPointLeft hPointRight).1
      · exact absurd (hFirst left hLeftRest)
          (meets_of_mem hPointLeft hPointRight).2
      · exact ih hItems.of_cons hLeftRest hRightRest

theorem TogetherIn.trans
    {items : List (NonemptyInterval α)}
    (hItems : items.Pairwise Precedes)
    {left middle right : α}
    (hLeft : TogetherIn items left middle)
    (hRight : TogetherIn items middle right) :
    TogetherIn items left right := by
  rcases hLeft with ⟨first, hFirst, hLeftIn, hMiddleFirst⟩
  rcases hRight with ⟨second, hSecond, hMiddleSecond, hRightIn⟩
  have hEq : first = second :=
    eq_of_mem_of_mem hItems hFirst hSecond hMiddleFirst
      hMiddleSecond
  subst hEq
  exact ⟨first, hFirst, hLeftIn, hRightIn⟩

/- Two points of a join are linked through a common point. -/
theorem transGen_of_mem_sup
    {first item : NonemptyInterval α}
    {link : α → α → Prop}
    (hMeets : Meets first item)
    (hFirst : ∀ left ∈ first, ∀ right ∈ first, link left right)
    (hItem : ∀ left ∈ item, ∀ right ∈ item, link left right)
    {left right : α}
    (hLeft : left ∈ first ⊔ item)
    (hRight : right ∈ first ⊔ item) :
    Relation.TransGen link left right := by
  rcases exists_common hMeets with
    ⟨middle, hMiddleFirst, hMiddleItem⟩
  rcases (mem_sup_iff hMeets).mp hLeft with hLeft | hLeft <;>
    rcases (mem_sup_iff hMeets).mp hRight with hRight | hRight
  · exact Relation.TransGen.single
      (hFirst left hLeft right hRight)
  · exact (Relation.TransGen.single
      (hFirst left hLeft middle hMiddleFirst)).tail
      (hItem middle hMiddleItem right hRight)
  · exact (Relation.TransGen.single
      (hItem left hLeft middle hMiddleItem)).tail
      (hFirst middle hMiddleFirst right hRight)
  · exact Relation.TransGen.single
      (hItem left hLeft right hRight)

/- Whatever is joined was linked. -/
theorem transGen_of_togetherIn_insertInterval
    {items : List (NonemptyInterval α)}
    {item : NonemptyInterval α}
    {left right : α}
    (hTogether :
      TogetherIn (insertInterval item items) left right) :
    Relation.TransGen (TogetherOr items item) left right := by
  induction items generalizing item left right with
  | nil =>
      rcases hTogether with ⟨found, hFound, hLeft, hRight⟩
      rw [List.mem_singleton.mp hFound] at hLeft hRight
      exact Relation.TransGen.single (Or.inr ⟨hLeft, hRight⟩)
  | cons first rest ih =>
      have hMono : ∀ {left right : α},
          TogetherOr rest item left right →
            TogetherOr (first :: rest) item left right := by
        rintro left right (⟨old, hOld, hPoints⟩ | hPoints)
        · exact Or.inl
            ⟨old, List.mem_cons_of_mem _ hOld, hPoints⟩
        · exact Or.inr hPoints
      have hHead : ∀ left ∈ first, ∀ right ∈ first,
          TogetherOr (first :: rest) item left right :=
        fun left hLeft right hRight =>
          Or.inl ⟨first, List.mem_cons_self, hLeft, hRight⟩
      rcases precedes_or_follows_or_meets first item with
        hPrecedes | hFollows | hMeets
      · rw [insertInterval_of_precedes rest hPrecedes]
          at hTogether
        rcases hTogether with ⟨found, hFound, hLeft, hRight⟩
        rcases List.mem_cons.mp hFound with rfl | hRest
        · exact Relation.TransGen.single
            (hHead left hLeft right hRight)
        · exact Relation.TransGen.mono (fun _ _ => hMono) _ _
            (ih ⟨found, hRest, hLeft, hRight⟩)
      · rw [insertInterval_of_follows rest hFollows]
          at hTogether
        rcases hTogether with ⟨found, hFound, hLeft, hRight⟩
        rcases List.mem_cons.mp hFound with rfl | hOld
        · exact Relation.TransGen.single
            (Or.inr ⟨hLeft, hRight⟩)
        · exact Relation.TransGen.single
            (Or.inl ⟨found, hOld, hLeft, hRight⟩)
      · rw [insertInterval_of_meets rest hMeets] at hTogether
        refine Relation.TransGen.closed ?_ _ _ (ih hTogether)
        rintro left right (⟨old, hOld, hPoints⟩ | hPoints)
        · exact Relation.TransGen.single
            (hMono (Or.inl ⟨old, hOld, hPoints⟩))
        · exact transGen_of_mem_sup hMeets hHead
            (fun left hLeft right hRight =>
              Or.inr ⟨hLeft, hRight⟩)
            hPoints.1 hPoints.2

/- Insertion joins what is linked, and nothing else. -/
theorem togetherIn_insertInterval_iff
    {items : List (NonemptyInterval α)}
    (hItems : items.Pairwise Precedes)
    (item : NonemptyInterval α)
    (left right : α) :
    TogetherIn (insertInterval item items) left right ↔
      Relation.TransGen (TogetherOr items item) left right := by
  have hInserted := pairwise_insertInterval item hItems
  constructor
  · exact transGen_of_togetherIn_insertInterval
  · have hStep : ∀ {left right : α},
        TogetherOr items item left right →
          TogetherIn (insertInterval item items) left
            right := by
      rintro left right (⟨old, hOld, hPoints⟩ | hPoints)
      · rcases
            exists_le_insertInterval
              (Or.inr hOld : old = item ∨ old ∈ items) with
          ⟨larger, hLarger, hLe⟩
        exact ⟨larger, hLarger, mem_of_le hLe hPoints.1,
          mem_of_le hLe hPoints.2⟩
      · rcases
            exists_le_insertInterval
              (Or.inl rfl : item = item ∨ item ∈ items) with
          ⟨larger, hLarger, hLe⟩
        exact ⟨larger, hLarger, mem_of_le hLe hPoints.1,
          mem_of_le hLe hPoints.2⟩
    intro hLinked
    induction hLinked with
    | single hLink => exact hStep hLink
    | tail _ hLink ih => exact ih.trans hInserted (hStep hLink)

end DisjointCover

------------------------------------------------------------
-- Covers
------------------------------------------------------------

/- Disjoint intervals in the order of their points. -/
structure DisjointCover
    (α : Type)
    [LinearOrder α] where
  intervals : List (NonemptyInterval α)
  disjoint : intervals.Pairwise DisjointCover.Precedes

namespace DisjointCover

variable {α : Type}
variable [LinearOrder α]

instance : Membership α (DisjointCover α) where
  mem cover point := ∃ item ∈ cover.intervals, point ∈ item

/- Do the points lie in the same interval? -/
def Together
    (cover : DisjointCover α)
    (left right : α) : Prop :=
  TogetherIn cover.intervals left right

theorem mem_iff_together
    {cover : DisjointCover α}
    {point : α} :
    point ∈ cover ↔ cover.Together point point := by
  constructor
  · rintro ⟨item, hItem, hPoint⟩
    exact ⟨item, hItem, hPoint, hPoint⟩
  · rintro ⟨item, hItem, hPoint, _⟩
    exact ⟨item, hItem, hPoint⟩

/- The least points of the two lists are the same. -/
private theorem fst_le_of_together
    {first second : NonemptyInterval α}
    {items others : List (NonemptyInterval α)}
    (hItems : (first :: items).Pairwise Precedes)
    (hTogether : ∀ left right,
      TogetherIn (second :: others) left right →
        TogetherIn (first :: items) left right) :
    first.fst ≤ second.fst := by
  rcases
      hTogether second.fst second.fst
        ⟨second, List.mem_cons_self, fst_mem second,
          fst_mem second⟩ with
    ⟨found, hFound, hPoint, _⟩
  have hLow := (NonemptyInterval.mem_def.mp hPoint).1
  rcases List.mem_cons.mp hFound with rfl | hRest
  · exact hLow
  · have hBefore : Precedes first found :=
      List.rel_of_pairwise_cons hItems hRest
    exact (first.fst_le_snd.trans hBefore.le).trans hLow

private theorem snd_le_of_together
    {first second : NonemptyInterval α}
    {items others : List (NonemptyInterval α)}
    (hItems : (first :: items).Pairwise Precedes)
    (hFirst : first.fst = second.fst)
    (hTogether : ∀ left right,
      TogetherIn (second :: others) left right →
        TogetherIn (first :: items) left right) :
    second.snd ≤ first.snd := by
  rcases
      hTogether second.fst second.snd
        ⟨second, List.mem_cons_self, fst_mem second,
          snd_mem second⟩ with
    ⟨found, hFound, hPoint, hLast⟩
  have hEq : found = first :=
    eq_of_mem_of_mem hItems hFound List.mem_cons_self hPoint
      (hFirst ▸ fst_mem first)
  rw [hEq] at hLast
  exact (NonemptyInterval.mem_def.mp hLast).2

private theorem togetherIn_tail_iff
    {first : NonemptyInterval α}
    {items : List (NonemptyInterval α)}
    (hItems : (first :: items).Pairwise Precedes)
    (left right : α) :
    TogetherIn items left right ↔
      TogetherIn (first :: items) left right ∧
        first.snd < left := by
  constructor
  · rintro ⟨item, hItem, hLeft, hRight⟩
    have hBefore : Precedes first item :=
      List.rel_of_pairwise_cons hItems hItem
    exact ⟨⟨item, List.mem_cons_of_mem _ hItem, hLeft, hRight⟩,
      lt_of_lt_of_le hBefore
        (NonemptyInterval.mem_def.mp hLeft).1⟩
  · rintro ⟨⟨item, hItem, hLeft, hRight⟩, hAfter⟩
    rcases List.mem_cons.mp hItem with rfl | hRest
    · exact absurd hAfter
        (not_lt.mpr (NonemptyInterval.mem_def.mp hLeft).2)
    · exact ⟨item, hRest, hLeft, hRight⟩

private theorem eq_of_togetherIn
    {items others : List (NonemptyInterval α)}
    (hItems : items.Pairwise Precedes)
    (hOthers : others.Pairwise Precedes)
    (hTogether : ∀ left right,
      TogetherIn items left right ↔
        TogetherIn others left right) :
    items = others := by
  induction items generalizing others with
  | nil =>
      cases others with
      | nil => rfl
      | cons second others =>
          rcases
              (hTogether second.fst second.fst).mpr
                ⟨second, List.mem_cons_self, fst_mem second,
                  fst_mem second⟩ with
            ⟨found, hFound, _⟩
          exact absurd hFound List.not_mem_nil
  | cons first items ih =>
      cases others with
      | nil =>
          rcases
              (hTogether first.fst first.fst).mp
                ⟨first, List.mem_cons_self, fst_mem first,
                  fst_mem first⟩ with
            ⟨found, hFound, _⟩
          exact absurd hFound List.not_mem_nil
      | cons second others =>
          have hTo := fun left right =>
            (hTogether left right).mp
          have hFrom := fun left right =>
            (hTogether left right).mpr
          have hFst : first.fst = second.fst :=
            le_antisymm (fst_le_of_together hItems hFrom)
              (fst_le_of_together hOthers hTo)
          have hSnd : first.snd = second.snd :=
            le_antisymm
              (snd_le_of_together hOthers hFst.symm hTo)
              (snd_le_of_together hItems hFst hFrom)
          have hEq : first = second :=
            NonemptyInterval.ext (Prod.ext hFst hSnd)
          subst hEq
          have hRest : items = others := by
            apply ih hItems.of_cons hOthers.of_cons
            intro left right
            rw [togetherIn_tail_iff hItems,
              togetherIn_tail_iff hOthers, hTogether]
          rw [hRest]

/- A cover is determined by the points that are together. -/
theorem ext_together
    {first second : DisjointCover α}
    (hTogether : ∀ left right,
      first.Together left right ↔
        second.Together left right) :
    first = second := by
  rcases first with ⟨items, hItems⟩
  rcases second with ⟨others, hOthers⟩
  have hEq : items = others :=
    eq_of_togetherIn hItems hOthers hTogether
  subst hEq
  rfl

end DisjointCover

------------------------------------------------------------
-- Inserting Many Intervals
------------------------------------------------------------

namespace DisjointCover

variable {α : Type}
variable [LinearOrder α]

def insert
    (cover : DisjointCover α)
    (item : NonemptyInterval α) : DisjointCover α :=
  ⟨insertInterval item cover.intervals,
    pairwise_insertInterval item cover.disjoint⟩

def insertAll
    (cover : DisjointCover α)
    (items : List (NonemptyInterval α)) : DisjointCover α :=
  items.foldl insert cover

/- The points are together, or in one of the new intervals. -/
def Linked
    (cover : DisjointCover α)
    (items : List (NonemptyInterval α))
    (left right : α) : Prop :=
  cover.Together left right ∨ TogetherIn items left right

theorem together_insertAll_iff
    (cover : DisjointCover α)
    (items : List (NonemptyInterval α))
    (left right : α) :
    (cover.insertAll items).Together left right ↔
      Relation.TransGen (cover.Linked items) left right := by
  induction items generalizing cover left right with
  | nil =>
      constructor
      · intro hTogether
        exact Relation.TransGen.single (Or.inl hTogether)
      · intro hLinked
        have hStep : ∀ {left right : α},
            cover.Linked [] left right →
              cover.Together left right := by
          rintro left right (hTogether | ⟨item, hItem, _⟩)
          · exact hTogether
          · exact absurd hItem List.not_mem_nil
        induction hLinked with
        | single hLink => exact hStep hLink
        | tail _ hLink ih =>
            exact TogetherIn.trans cover.disjoint ih
              (hStep hLink)
  | cons item items ih =>
      rw [show cover.insertAll (item :: items) =
        (cover.insert item).insertAll items from rfl, ih]
      constructor
      · apply Relation.TransGen.closed
        rintro left right (hTogether | ⟨new, hNew, hPoints⟩)
        · refine Relation.TransGen.mono ?_ _ _
            ((togetherIn_insertInterval_iff cover.disjoint item
              left right).mp hTogether)
          rintro left right (hOld | hPoints)
          · exact Or.inl hOld
          · exact Or.inr ⟨item, List.mem_cons_self, hPoints⟩
        · exact Relation.TransGen.single
            (Or.inr ⟨new, List.mem_cons_of_mem _ hNew, hPoints⟩)
      · apply Relation.TransGen.mono
        rintro left right (hOld | ⟨new, hNew, hPoints⟩)
        · exact Or.inl
            ((togetherIn_insertInterval_iff cover.disjoint item
              left right).mpr
              (Relation.TransGen.single (Or.inl hOld)))
        · rcases List.mem_cons.mp hNew with rfl | hRest
          · exact Or.inl
              ((togetherIn_insertInterval_iff cover.disjoint new
                left right).mpr
                (Relation.TransGen.single (Or.inr hPoints)))
          · exact Or.inr ⟨new, hRest, hPoints⟩

/- What is inserted is a set; its order is irrelevant. -/
theorem insertAll_congr
    (cover : DisjointCover α)
    {items others : List (NonemptyInterval α)}
    (hItems : ∀ item, item ∈ items ↔ item ∈ others) :
    cover.insertAll items = cover.insertAll others := by
  apply ext_together
  intro left right
  have hLinked : cover.Linked items = cover.Linked others := by
    funext left right
    unfold Linked TogetherIn
    simp only [hItems]
  rw [together_insertAll_iff, together_insertAll_iff, hLinked]

/- A point is covered if it was, or is in a new interval. -/
theorem mem_insertAll_iff
    {cover : DisjointCover α}
    {items : List (NonemptyInterval α)}
    {point : α} :
    point ∈ cover.insertAll items ↔
      point ∈ cover ∨ ∃ item ∈ items, point ∈ item := by
  rw [mem_iff_together, together_insertAll_iff]
  have hFirst : ∀ right, cover.Linked items point right →
      point ∈ cover ∨ ∃ item ∈ items, point ∈ item := by
    rintro right (⟨item, hItem, hPoint, _⟩ |
      ⟨item, hItem, hPoint, _⟩)
    · exact Or.inl ⟨item, hItem, hPoint⟩
    · exact Or.inr ⟨item, hItem, hPoint⟩
  constructor
  · intro hLinked
    rcases Relation.TransGen.head'_iff.mp hLinked with
      ⟨right, hLink, _⟩
    exact hFirst right hLink
  · rintro (⟨item, hItem, hPoint⟩ | ⟨item, hItem, hPoint⟩)
    · exact Relation.TransGen.single
        (Or.inl ⟨item, hItem, hPoint, hPoint⟩)
    · exact Relation.TransGen.single
        (Or.inr ⟨item, hItem, hPoint, hPoint⟩)

/- No link leads out of an interval apart from the new one. -/
private theorem mem_of_linked
    {cover : DisjointCover α}
    {item other : NonemptyInterval α}
    (hOther : other ∈ cover.intervals)
    (hApart : ¬ Meets other item)
    {left right : α}
    (hLinked :
      Relation.TransGen (TogetherOr cover.intervals item) left
        right)
    (hLeft : left ∈ other) :
    right ∈ other := by
  have hStep : ∀ {left right : α},
      TogetherOr cover.intervals item left right →
        left ∈ other → right ∈ other := by
    rintro left right (⟨old, hOld, hPoint, hNext⟩ | hPoints)
      hLeft
    · have hEq : old = other :=
        eq_of_mem_of_mem cover.disjoint hOld hOther hPoint hLeft
      exact hEq ▸ hNext
    · exact absurd (meets_of_mem hLeft hPoints.1) hApart
  induction hLinked with
  | single hLink => exact hStep hLink hLeft
  | tail _ hLink ih => exact hStep hLink ih

/- The intervals apart from the new one stay as they are. -/
theorem mem_insert_iff_of_apart
    {cover : DisjointCover α}
    {item other : NonemptyInterval α}
    (hApart : ¬ Meets other item) :
    other ∈ (cover.insert item).intervals ↔
      other ∈ cover.intervals := by
  constructor
  · intro hMem
    rcases mem_insertInterval_cases hMem with hLe | hOld
    · exact absurd (meets_of_mem
        (mem_of_le hLe (fst_mem item)) (fst_mem item)) hApart
    · exact hOld
  · intro hMem
    rcases
        exists_le_insertInterval
          (Or.inr hMem :
            other = item ∨ other ∈ cover.intervals) with
      ⟨larger, hLarger, hLe⟩
    rcases mem_insertInterval_cases hLarger with hItem | hOld
    · have hTogether :
          (cover.insert item).Together other.fst item.fst :=
        ⟨larger, hLarger, mem_of_le hLe (fst_mem other),
          mem_of_le hItem (fst_mem item)⟩
      have hLinked :=
        (togetherIn_insertInterval_iff cover.disjoint item
          other.fst item.fst).mp hTogether
      have hMeets : Meets other item :=
        meets_of_mem
          (mem_of_linked hMem hApart hLinked (fst_mem other))
          (fst_mem item)
      exact absurd hMeets hApart
    · have hEq : other = larger :=
        eq_of_mem_of_mem cover.disjoint hMem hOld
          (fst_mem other) (mem_of_le hLe (fst_mem other))
      exact hEq ▸ hLarger

theorem mem_insertAll_iff_of_apart
    {cover : DisjointCover α}
    {items : List (NonemptyInterval α)}
    {other : NonemptyInterval α}
    (hApart : ∀ item ∈ items, ¬ Meets other item) :
    other ∈ (cover.insertAll items).intervals ↔
      other ∈ cover.intervals := by
  induction items generalizing cover with
  | nil => exact Iff.rfl
  | cons item items ih =>
      have hHead := hApart item List.mem_cons_self
      have hTail : ∀ new ∈ items, ¬ Meets other new :=
        fun new hNew => hApart new (List.mem_cons_of_mem _ hNew)
      exact (ih hTail).trans (mem_insert_iff_of_apart hHead)

end DisjointCover
