import LLDBGhidra.Decompiler.Number
import Mathlib.Data.Nat.Digits.Defs

/-
  Integer literals without a suffix, and what `strtoull` with
  base 0 makes of a text that starts with one.

  Main declarations:
    * `IsNumeral`
    * `IsLiteral`
    * `takeDigits_append`
    * `ReadsNumber.of_isLiteral`
    * `ReadsNumber.exists_isLiteral`
    * `isNumeral_toDigits`
-/

------------------------------------------------------------
-- Literals
------------------------------------------------------------

namespace LLDBGhidra

/- The character is a digit of the base. -/
def IsDigit
    (base : Nat)
    (char : Char)
    (digit : Nat) : Prop :=
  hexDigit? char = some digit ∧ digit < base

/- A number in positional notation. -/
def IsNumeral
    (base : Nat)
    (text : List Char)
    (value : Nat) : Prop :=
  ∃ digits : List Nat,
    digits ≠ [] ∧
      List.Forall₂ (IsDigit base) text digits ∧
      value = Nat.ofDigits base digits.reverse

/- An integer literal in one of the notations of C. -/
inductive IsLiteral : List Char → Nat → Prop
| decimal {first rest value} :
    first ≠ '0' →
    IsNumeral 10 (first :: rest) value →
    IsLiteral (first :: rest) value
| octal {rest value} :
    IsNumeral 8 ('0' :: rest) value →
    IsLiteral ('0' :: rest) value
| hexadecimal {x digits value} :
    x = 'x' ∨ x = 'X' →
    IsNumeral 16 digits value →
    IsLiteral ('0' :: x :: digits) value

end LLDBGhidra

------------------------------------------------------------
-- Reading Digits
------------------------------------------------------------

namespace LLDBGhidra

/- No digit of the base comes first. -/
def EndsNumeral
    (base : Nat)
    (rest : List Char) : Prop :=
  ∀ char, rest.head? = some char →
    ∀ digit, ¬ IsDigit base char digit

theorem takeDigits_cons_of_isDigit
    {base digit : Nat}
    {char : Char}
    (rest : List Char)
    (hDigit : IsDigit base char digit) :
    takeDigits base (char :: rest) =
      (digit :: (takeDigits base rest).1,
        (takeDigits base rest).2) := by
  rcases hDigit with ⟨hChar, hSmall⟩
  simp [takeDigits, hChar, hSmall]

theorem takeDigits_of_endsNumeral
    {base : Nat}
    {rest : List Char}
    (hEnds : EndsNumeral base rest) :
    takeDigits base rest = ([], rest) := by
  cases rest with
  | nil => rfl
  | cons char rest =>
      have hNot := hEnds char rfl
      cases hChar : hexDigit? char with
      | none =>
          simp [takeDigits, hChar]
      | some digit =>
          have hLarge : ¬ digit < base :=
            fun hSmall => hNot digit ⟨hChar, hSmall⟩
          simp [takeDigits, hChar, hLarge]

theorem takeDigits_append
    {base : Nat}
    {text rest : List Char}
    {digits : List Nat}
    (hText : List.Forall₂ (IsDigit base) text digits)
    (hEnds : EndsNumeral base rest) :
    takeDigits base (text ++ rest) = (digits, rest) := by
  induction hText with
  | nil => exact takeDigits_of_endsNumeral hEnds
  | cons hDigit _ ih =>
      rw [List.cons_append, takeDigits_cons_of_isDigit _ hDigit,
        ih]

/- The digits that are taken make up the start of the text. -/
theorem exists_takeDigits
    (base : Nat)
    (text : List Char) :
    ∃ front,
      text = front ++ (takeDigits base text).2 ∧
        List.Forall₂ (IsDigit base) front
          (takeDigits base text).1 := by
  induction text with
  | nil => exact ⟨[], rfl, List.Forall₂.nil⟩
  | cons char rest ih =>
      by_cases hDigit : ∃ digit, IsDigit base char digit
      · rcases hDigit with ⟨digit, hDigit⟩
        rcases ih with ⟨front, hText, hFront⟩
        rw [takeDigits_cons_of_isDigit rest hDigit]
        refine ⟨char :: front, ?_,
          List.Forall₂.cons hDigit hFront⟩
        rw [List.cons_append, ← hText]
      · have hEnds : EndsNumeral base (char :: rest) := by
          intro other hHead digit hOther
          rcases Option.some.inj hHead with rfl
          exact hDigit ⟨digit, hOther⟩
        rw [takeDigits_of_endsNumeral hEnds]
        exact ⟨[], rfl, List.Forall₂.nil⟩

theorem foldl_digits
    (base : Nat)
    (digits : List Nat) :
    digits.foldl
        (fun total digit => total * base + digit) 0 =
      Nat.ofDigits base digits.reverse := by
  rw [Nat.ofDigits_eq_foldr, List.foldr_reverse]
  congr 1
  funext total digit
  rw [Nat.cast_id, Nat.mul_comm, Nat.add_comm]

end LLDBGhidra

------------------------------------------------------------
-- Reading a Literal
------------------------------------------------------------

namespace LLDBGhidra

/-
  The text starts with a number of the value, behind which it
  goes on with `stop`.
-/
structure ReadsNumber
    (text : List Char)
    (value : Nat)
    (stop : List Char) : Prop where
  nonempty :
    (takeDigits (detectBase text).1 (detectBase text).2).1 ≠ []
  value_eq :
    (takeDigits (detectBase text).1 (detectBase text).2).1.foldl
      (fun total digit =>
        total * (detectBase text).1 + digit) 0 = value
  stop_eq :
    (takeDigits (detectBase text).1 (detectBase text).2).2 =
      stop

/- No literal goes on here. -/
def EndsLiteral
    (rest : List Char) : Prop :=
  ∀ char, rest.head? = some char →
    hexDigit? char = none ∧ char ≠ 'x' ∧ char ≠ 'X'

theorem EndsLiteral.endsNumeral
    {rest : List Char}
    (hEnds : EndsLiteral rest)
    (base : Nat) :
    EndsNumeral base rest := by
  intro char hHead digit hDigit
  have hNone := (hEnds char hHead).1
  rw [hDigit.1] at hNone
  cases hNone

theorem detectBase_of_ne_zero
    {first : Char}
    (rest : List Char)
    (hFirst : first ≠ '0') :
    detectBase (first :: rest) = (10, first :: rest) := by
  unfold detectBase
  split
  · rename_i hEq
    exact absurd (List.cons.inj hEq).1 hFirst
  · rename_i hEq
    exact absurd (List.cons.inj hEq).1 hFirst
  · rfl

theorem detectBase_hexadecimal
    {x first : Char}
    (rest : List Char)
    (hX : x = 'x' ∨ x = 'X')
    (hFirst : (hexDigit? first).isSome) :
    detectBase ('0' :: x :: first :: rest) =
      (16, first :: rest) := by
  unfold detectBase
  exact if_pos ⟨hX, hFirst⟩

/- Without the prefix of a hexadecimal number. -/
theorem detectBase_of_no_prefix
    {rest : List Char}
    (hRest : ∀ x first tail, rest = x :: first :: tail →
      (x = 'x' ∨ x = 'X') →
        (hexDigit? first).isSome = false) :
    detectBase ('0' :: rest) = (8, '0' :: rest) := by
  cases rest with
  | nil => rfl
  | cons x rest =>
      cases rest with
      | nil => rfl
      | cons first tail =>
          unfold detectBase
          apply if_neg
          rintro ⟨hX, hFirst⟩
          rw [hRest x first tail rfl hX] at hFirst
          cases hFirst

namespace ReadsNumber

theorem of_isNumeral
    {text front stop : List Char}
    {base value : Nat}
    (hBase : detectBase text = (base, front ++ stop))
    (hNumeral : IsNumeral base front value)
    (hEnds : EndsNumeral base stop) :
    ReadsNumber text value stop := by
  rcases hNumeral with ⟨digits, hDigits, hFront, rfl⟩
  have hTake := takeDigits_append hFront hEnds
  constructor
  · rw [hBase, hTake]
    exact hDigits
  · rw [hBase, hTake]
    exact foldl_digits base digits
  · rw [hBase, hTake]

theorem not_isDigit_of_marker
    {x : Char}
    {base digit : Nat}
    (hX : x = 'x' ∨ x = 'X') :
    ¬ IsDigit base x digit := by
  have hNone : hexDigit? x = none := by
    rcases hX with rfl | rfl
    · rfl
    · rfl
  intro hDigit
  rw [hDigit.1] at hNone
  cases hNone

/- The second character of an octal number is no prefix. -/
private theorem no_prefix_of_octal
    {rest stop : List Char}
    {value : Nat}
    (hNumeral : IsNumeral 8 ('0' :: rest) value)
    (hEnds : EndsLiteral stop) :
    ∀ x first tail, rest ++ stop = x :: first :: tail →
      (x = 'x' ∨ x = 'X') →
        (hexDigit? first).isSome = false := by
  intro x first tail hText hX
  rcases hNumeral with ⟨digits, _, hDigits, _⟩
  cases hDigits with
  | cons _ hRest =>
      cases hRest with
      | nil =>
          have hHead : stop.head? = some x :=
            congrArg List.head? hText
          rcases hEnds x hHead with ⟨_, hLower, hUpper⟩
          exact (hX.elim hLower hUpper).elim
      | cons hDigit _ =>
          rcases (List.cons.inj hText).1 with rfl
          exact absurd hDigit (not_isDigit_of_marker hX)

theorem of_isLiteral
    {text stop : List Char}
    {value : Nat}
    (hLiteral : IsLiteral text value)
    (hEnds : EndsLiteral stop) :
    ReadsNumber (text ++ stop) value stop := by
  cases hLiteral with
  | @decimal first rest _ hFirst hNumeral =>
      have hBase :
          detectBase (first :: rest ++ stop) =
            (10, first :: rest ++ stop) :=
        detectBase_of_ne_zero _ hFirst
      exact of_isNumeral hBase hNumeral (hEnds.endsNumeral 10)
  | @octal rest _ hNumeral =>
      have hBase :
          detectBase ('0' :: rest ++ stop) =
            (8, '0' :: rest ++ stop) :=
        detectBase_of_no_prefix
          (no_prefix_of_octal hNumeral hEnds)
      exact of_isNumeral hBase hNumeral (hEnds.endsNumeral 8)
  | @hexadecimal x digits _ hX hNumeral =>
      have hBase :
          detectBase ('0' :: x :: digits ++ stop) =
            (16, digits ++ stop) := by
        rcases hNumeral with ⟨values, hValues, hDigits, _⟩
        cases hDigits with
        | nil => exact absurd rfl hValues
        | cons hDigit _ =>
            exact detectBase_hexadecimal _ hX
              (Option.isSome_of_eq_some hDigit.1)
      exact of_isNumeral hBase hNumeral (hEnds.endsNumeral 16)

theorem exists_isNumeral
    {base : Nat}
    {text : List Char}
    (hNonempty : (takeDigits base text).1 ≠ []) :
    ∃ first rest value,
      text = first :: rest ++ (takeDigits base text).2 ∧
        IsNumeral base (first :: rest) value := by
  rcases exists_takeDigits base text with ⟨front, hText, hFront⟩
  cases front with
  | nil =>
      exact absurd (List.forall₂_nil_left_iff.mp hFront)
        hNonempty
  | cons first rest =>
      exact ⟨first, rest, _, hText, _, hNonempty, hFront, rfl⟩

/- What is read as a number starts with a literal. -/
theorem exists_isLiteral
    {text : List Char}
    (hNonempty :
      (takeDigits (detectBase text).1
        (detectBase text).2).1 ≠ []) :
    ∃ front value,
      text =
        front ++
          (takeDigits (detectBase text).1
            (detectBase text).2).2 ∧
        IsLiteral front value := by
  cases text with
  | nil => exact absurd rfl hNonempty
  | cons char rest =>
      by_cases hZero : char = '0'
      · subst hZero
        by_cases hPrefix :
            ∃ x first tail, rest = x :: first :: tail ∧
              (x = 'x' ∨ x = 'X') ∧
                (hexDigit? first).isSome = true
        · rcases hPrefix with ⟨x, first, tail, rfl, hX, hFirst⟩
          rw [detectBase_hexadecimal tail hX hFirst]
            at hNonempty ⊢
          rcases exists_isNumeral hNonempty with
            ⟨digit, digits, value, hText, hNumeral⟩
          refine ⟨'0' :: x :: digit :: digits, value, ?_,
            IsLiteral.hexadecimal hX hNumeral⟩
          exact congrArg
            (fun body => '0' :: x :: body) hText
        · have hOctal :
              detectBase ('0' :: rest) = (8, '0' :: rest) := by
            apply detectBase_of_no_prefix
            intro x first tail hRest hX
            apply Bool.eq_false_iff.mpr
            intro hFirst
            exact hPrefix ⟨x, first, tail, hRest, hX, hFirst⟩
          rw [hOctal] at hNonempty ⊢
          rcases exists_isNumeral hNonempty with
            ⟨digit, digits, value, hText, hNumeral⟩
          have hSame : '0' = digit := (List.cons.inj hText).1
          subst hSame
          exact ⟨'0' :: digits, value, hText,
            IsLiteral.octal hNumeral⟩
      · rw [detectBase_of_ne_zero rest hZero] at hNonempty ⊢
        rcases exists_isNumeral hNonempty with
          ⟨digit, digits, value, hText, hNumeral⟩
        have hSame : char = digit := (List.cons.inj hText).1
        subst hSame
        exact ⟨char :: digits, value, hText,
          IsLiteral.decimal hZero hNumeral⟩

end ReadsNumber

end LLDBGhidra

------------------------------------------------------------
-- Printed Numbers
------------------------------------------------------------

namespace LLDBGhidra

theorem hexDigit?_digitChar
    {digit : Nat}
    (hDigit : digit < 16) :
    hexDigit? digit.digitChar = some digit := by
  have hAll : ∀ small < 16,
      hexDigit? (Nat.digitChar small) = some small := by
    decide
  exact hAll digit hDigit

theorem IsNumeral.single
    {base digit : Nat}
    {char : Char}
    (hDigit : IsDigit base char digit) :
    IsNumeral base [char] digit := by
  refine ⟨[digit], List.cons_ne_nil _ _,
    List.Forall₂.cons hDigit List.Forall₂.nil, ?_⟩
  rw [List.reverse_singleton, Nat.ofDigits_singleton]

/- One more digit. -/
theorem IsNumeral.concat
    {base value digit : Nat}
    {text : List Char}
    {char : Char}
    (hNumeral : IsNumeral base text value)
    (hDigit : IsDigit base char digit) :
    IsNumeral base (text ++ [char])
      (base * value + digit) := by
  rcases hNumeral with ⟨digits, hDigits, hText, rfl⟩
  refine ⟨digits ++ [digit], ?_, ?_, ?_⟩
  · exact List.append_ne_nil_of_left_ne_nil hDigits _
  · exact List.rel_append hText
      (List.Forall₂.cons hDigit List.Forall₂.nil)
  · rw [List.reverse_append, List.reverse_singleton,
      List.singleton_append, Nat.ofDigits_cons, Nat.add_comm]

/- The digits that are printed denote the number. -/
theorem isNumeral_toDigits
    {base : Nat}
    (hBase : 1 < base)
    (hHex : base ≤ 16)
    (value : Nat) :
    IsNumeral base (Nat.toDigits base value) value := by
  induction value using Nat.strongRecOn with
  | ind value ih =>
      by_cases hSmall : value < base
      · rw [Nat.toDigits_of_lt_base hSmall]
        exact IsNumeral.single
          ⟨hexDigit?_digitChar (hSmall.trans_le hHex), hSmall⟩
      · have hLarge : base ≤ value := Nat.le_of_not_lt hSmall
        have hRest : value % base < base :=
          Nat.mod_lt _ (Nat.zero_lt_of_lt hBase)
        have hQuotient : value / base < value :=
          Nat.div_lt_self
            (Nat.lt_of_lt_of_le (Nat.zero_lt_of_lt hBase) hLarge)
            hBase
        have hNumeral := (ih (value / base) hQuotient).concat
          ⟨hexDigit?_digitChar (hRest.trans_le hHex), hRest⟩
        rw [Nat.div_add_mod] at hNumeral
        rw [Nat.toDigits_of_base_le hBase hLarge]
        exact hNumeral

/- A number other than zero is not printed with a zero first. -/
theorem head_toDigits_ne_zero
    {base value : Nat}
    (hBase : 1 < base)
    (hValue : 0 < value) :
    (Nat.toDigits base value).head? ≠ some '0' := by
  induction value using Nat.strongRecOn with
  | ind value ih =>
      by_cases hSmall : value < base
      · rw [Nat.toDigits_of_lt_base hSmall]
        intro hHead
        have hZero : Nat.digitChar value = '0' :=
          Option.some.inj hHead
        exact Nat.ne_of_gt hValue
          (Nat.digitChar_eq_zero.mp hZero)
      · have hLarge : base ≤ value := Nat.le_of_not_lt hSmall
        have hQuotient : value / base < value :=
          Nat.div_lt_self
            (Nat.lt_of_lt_of_le (Nat.zero_lt_of_lt hBase) hLarge)
            hBase
        have hPositive : 0 < value / base :=
          Nat.div_pos hLarge (Nat.zero_lt_of_lt hBase)
        rw [Nat.toDigits_of_base_le hBase hLarge,
          List.head?_append_of_ne_nil _ Nat.toDigits_ne_nil]
        exact ih (value / base) hQuotient hPositive

theorem isLiteral_decimal
    (value : Nat) :
    IsLiteral (Nat.toDigits 10 value) value := by
  rcases Nat.eq_zero_or_pos value with rfl | hPositive
  · rw [Nat.toDigits_zero]
    exact IsLiteral.octal (IsNumeral.single ⟨rfl, by decide⟩)
  · have hNumeral : IsNumeral 10 (Nat.toDigits 10 value) value :=
      isNumeral_toDigits (by decide) (by decide) value
    have hHead : (Nat.toDigits 10 value).head? ≠ some '0' :=
      head_toDigits_ne_zero (by decide) hPositive
    cases hText : Nat.toDigits 10 value with
    | nil => exact absurd hText Nat.toDigits_ne_nil
    | cons first rest =>
        rw [hText] at hNumeral hHead
        exact IsLiteral.decimal
          (fun hZero => hHead (congrArg some hZero)) hNumeral

theorem isLiteral_hexadecimal
    (value : Nat) :
    IsLiteral ('0' :: 'x' :: Nat.toDigits 16 value) value :=
  IsLiteral.hexadecimal (Or.inl rfl)
    (isNumeral_toDigits (by decide) (by decide) value)

end LLDBGhidra
