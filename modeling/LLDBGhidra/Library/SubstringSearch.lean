import Mathlib.Data.List.Infix

/-
  Searching a text for a pattern, as the string classes of
  most languages do.

  Main declarations:
    * `SubstringSearch.occurs`
    * `SubstringSearch.findFrom`
    * `SubstringSearch.occurs_append_cons`
-/

------------------------------------------------------------
-- Search
------------------------------------------------------------

namespace SubstringSearch

variable {α : Type}
variable [DecidableEq α]

/- The pattern occurs somewhere in the text. -/
def occurs
    (pattern text : List α) : Bool :=
  decide (pattern <:+: text)

/- The first position of the pattern. -/
def find
    (pattern : List α) : (text : List α) → Option Nat
  | [] => if pattern.isEmpty then some 0 else none
  | head :: rest =>
      if pattern.isPrefixOf (head :: rest) then
        some 0
      else
        (find pattern rest).map (· + 1)

/- The first position of the pattern from `start` on. -/
def findFrom
    (pattern text : List α)
    (start : Nat) : Option Nat :=
  if start ≤ text.length then
    (find pattern (text.drop start)).map (· + start)
  else
    none

/- The text without the first occurrence of the pattern. -/
def eraseFirst
    (pattern text : List α) : List α :=
  match find pattern text with
  | none => text
  | some pos =>
      text.take pos ++ text.drop (pos + pattern.length)

omit [DecidableEq α] in
theorem prefix_of_prefix_append
    {pattern left right : List α}
    {separator : α}
    (hSeparator : separator ∉ pattern)
    (hPrefix : pattern <+: left ++ separator :: right) :
    pattern <+: left := by
  induction left generalizing pattern with
  | nil =>
      cases pattern with
      | nil => exact List.prefix_rfl
      | cons head rest =>
          have hHead := (List.cons_prefix_cons.mp hPrefix).1
          simp [hHead] at hSeparator
  | cons first left ih =>
      cases pattern with
      | nil => exact List.nil_prefix
      | cons head rest =>
          rw [List.cons_append, List.cons_prefix_cons] at hPrefix
          rw [List.cons_prefix_cons]
          refine ⟨hPrefix.1, ?_⟩
          apply ih _ hPrefix.2
          intro hMem
          exact hSeparator (List.mem_cons_of_mem _ hMem)

/- A pattern does not occur across a foreign character. -/
omit [DecidableEq α] in
theorem infix_append_cons
    {pattern left right : List α}
    {separator : α}
    (hNonempty : pattern ≠ [])
    (hSeparator : separator ∉ pattern) :
    pattern <:+: left ++ separator :: right ↔
      pattern <:+: left ∨ pattern <:+: right := by
  induction left with
  | nil =>
      rw [List.nil_append, List.infix_cons_iff]
      have hLeft : ¬ pattern <+: separator :: right := by
        intro hPrefix
        have hEmpty : pattern <+: [] :=
          prefix_of_prefix_append hSeparator hPrefix
        exact hNonempty (List.prefix_nil.mp hEmpty)
      have hNil : ¬ pattern <:+: [] := by
        rw [List.infix_nil]
        exact hNonempty
      simp only [hLeft, hNil, false_or]
  | cons head left ih =>
      rw [List.cons_append, List.infix_cons_iff, ih,
        List.infix_cons_iff]
      have hHead :
          pattern <+: head :: (left ++ separator :: right) ↔
            pattern <+: head :: left := by
        constructor
        · intro hPrefix
          exact prefix_of_prefix_append hSeparator hPrefix
        · intro hPrefix
          apply hPrefix.trans
          exact List.prefix_append (head :: left) _
      rw [hHead, or_assoc]

theorem occurs_append_cons
    {pattern left right : List α}
    {separator : α}
    (hNonempty : pattern ≠ [])
    (hSeparator : separator ∉ pattern) :
    occurs pattern (left ++ separator :: right) =
      (occurs pattern left || occurs pattern right) := by
  unfold occurs
  rw [← Bool.decide_or, decide_eq_decide]
  exact infix_append_cons hNonempty hSeparator

end SubstringSearch
