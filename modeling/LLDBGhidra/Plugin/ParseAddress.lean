import LLDBGhidra.Decompiler.Numeral
import LLDBGhidra.Plugin.DecompileCommand
import Mathlib.Data.List.DropRight

/-
  The numbers that the command takes for addresses
  (`DecompileCommand.cpp`).

  Main declarations:
    * `IsAddressText`
    * `parseAddress_of_isAddressText`
    * `exists_isAddressText`
    * `parseAddress_exact`
-/

------------------------------------------------------------
-- Address Texts
------------------------------------------------------------

namespace LLDBGhidra

/-
  A literal between white space, perhaps behind a plus sign.
-/
def IsAddressText
    (text : List Char)
    (value : Nat) : Prop :=
  ∃ before sign literal after : List Char,
    text = before ++ sign ++ literal ++ after ∧
      (∀ char ∈ before, isSpace char = true) ∧
      (sign = [] ∨ sign = ['+']) ∧
      IsLiteral literal value ∧
      ∀ char ∈ after, isSpace char = true

theorem hexDigit?_of_isSpace
    {char : Char}
    (hSpace : isSpace char = true) :
    hexDigit? char = none ∧ char ≠ 'x' ∧ char ≠ 'X' := by
  unfold isSpace at hSpace
  simp only [Bool.or_eq_true, decide_eq_true_eq] at hSpace
  rcases hSpace with
    ((((rfl | rfl) | rfl) | rfl) | rfl) | rfl <;> decide

/- White space ends a literal. -/
theorem endsLiteral_of_isSpace
    {after : List Char}
    (hAfter : ∀ char ∈ after, isSpace char = true) :
    EndsLiteral after := by
  intro char hHead
  exact hexDigit?_of_isSpace
    (hAfter char (List.mem_of_head? hHead))

theorem isSpace_eq_false_of_isDigit
    {base digit : Nat}
    {char : Char}
    (hDigit : IsDigit base char digit) :
    isSpace char = false := by
  cases hSpace : isSpace char with
  | false => rfl
  | true =>
      have hNone := (hexDigit?_of_isSpace hSpace).1
      rw [hDigit.1] at hNone
      cases hNone

/- A literal starts with a digit. -/
theorem exists_digit_of_isLiteral
    {literal : List Char}
    {value : Nat}
    (hLiteral : IsLiteral literal value) :
    ∃ first rest digit,
      literal = first :: rest ∧ IsDigit 10 first digit := by
  cases hLiteral with
  | decimal _ hNumeral =>
      rcases hNumeral with ⟨_, _, hDigits, _⟩
      cases hDigits with
      | cons hDigit _ => exact ⟨_, _, _, rfl, hDigit⟩
  | octal _ => exact ⟨_, _, 0, rfl, rfl, by decide⟩
  | hexadecimal _ _ => exact ⟨_, _, 0, rfl, rfl, by decide⟩

theorem ne_sign_of_isDigit
    {base digit : Nat}
    {char : Char}
    (hDigit : IsDigit base char digit) :
    char ≠ '-' ∧ char ≠ '+' := by
  constructor
  · rintro rfl
    cases hDigit.1
  · rintro rfl
    cases hDigit.1

/- The text is the rest, perhaps behind a plus sign. -/
def Unsigned
    (text rest : List Char) : Prop :=
  text = '+' :: rest ∨
    text = rest ∧ text.head? ≠ some '+'

/- `strtoull` without white space or a minus sign. -/
theorem strtoull_eq
    {text rest : List Char}
    (hSpace : text.dropWhile isSpace = text)
    (hMinus : text.head? ≠ some '-')
    (hSign : Unsigned text rest) :
    strtoull text =
      let number := detectBase rest
      let digits := takeDigits number.1 number.2
      let value :=
        digits.1.foldl
          (fun total digit => total * number.1 + digit) 0
      if digits.1 = [] then
        ⟨0, none, false⟩
      else if 2 ^ 64 ≤ value then
        ⟨BitVec.allOnes 64, some digits.2, true⟩
      else
        ⟨BitVec.ofNat 64 value, some digits.2, false⟩ := by
  unfold strtoull
  extract_lets trimmed negative unsigned number digits total
  have hTrimmed : trimmed = text := hSpace
  have hPositive : ¬ negative := by
    unfold negative
    rw [hTrimmed]
    exact hMinus
  have hUnsigned : unsigned = rest := by
    unfold unsigned
    rw [hTrimmed]
    rcases hSign with rfl | ⟨rfl, hPlus⟩
    · rfl
    · split
      · exact absurd rfl hMinus
      · exact absurd rfl hPlus
      · rfl
  have hNumber : number = detectBase rest :=
    congrArg detectBase hUnsigned
  unfold total digits
  rw [if_neg hPositive, hNumber]

/- `strtoull` of a number that may have a plus sign. -/
theorem strtoull_of_readsNumber
    {text rest stop : List Char}
    {value : Nat}
    (hSpace : text.dropWhile isSpace = text)
    (hMinus : text.head? ≠ some '-')
    (hSign : Unsigned text rest)
    (hReads : ReadsNumber rest value stop) :
    strtoull text =
      if 2 ^ 64 ≤ value then
        ⟨BitVec.allOnes 64, some stop, true⟩
      else
        ⟨BitVec.ofNat 64 value, some stop, false⟩ := by
  rw [strtoull_eq hSpace hMinus hSign]
  simp only [if_neg hReads.nonempty, hReads.value_eq,
    hReads.stop_eq]

/- Where `strtoull` stops, a literal has been read. -/
theorem exists_isLiteral_of_strtoull
    {text rest stop : List Char}
    (hSpace : text.dropWhile isSpace = text)
    (hMinus : text.head? ≠ some '-')
    (hSign : Unsigned text rest)
    (hStop : (strtoull text).stop = some stop) :
    ∃ literal value,
      rest = literal ++ stop ∧ IsLiteral literal value := by
  rw [strtoull_eq hSpace hMinus hSign] at hStop
  by_cases hNonempty :
      (takeDigits (detectBase rest).1
        (detectBase rest).2).1 = []
  · simp only [if_pos hNonempty] at hStop
    cases hStop
  · have hEnd :
        (takeDigits (detectBase rest).1
          (detectBase rest).2).2 = stop := by
      simp only [if_neg hNonempty] at hStop
      split at hStop
      · exact Option.some.inj hStop
      · exact Option.some.inj hStop
    rcases ReadsNumber.exists_isLiteral hNonempty with
      ⟨literal, value, hText, hLiteral⟩
    rw [hEnd] at hText
    exact ⟨literal, value, hText, hLiteral⟩

/- The sign that a text may have. -/
theorem exists_unsigned
    (text : List Char) :
    ∃ sign rest,
      text = sign ++ rest ∧ (sign = [] ∨ sign = ['+']) ∧
        Unsigned text rest := by
  by_cases hPlus : text.head? = some '+'
  · rcases List.head?_eq_some_iff.mp hPlus with ⟨rest, rfl⟩
    exact ⟨['+'], rest, rfl, Or.inr rfl, Or.inl rfl⟩
  · exact ⟨[], text, rfl, Or.inl rfl, Or.inr ⟨rfl, hPlus⟩⟩

/- White space alone is dropped to its end. -/
theorem dropWhile_isSpace_eq_nil_iff
    {after : List Char} :
    after.dropWhile isSpace = [] ↔
      ∀ char ∈ after, isSpace char = true :=
  List.dropWhile_eq_nil_iff

/- White space is dropped up to a sign or a digit. -/
theorem dropWhile_isSpace_append
    {before rest : List Char}
    {first : Char}
    (hBefore : ∀ char ∈ before, isSpace char = true)
    (hFirst : isSpace first = false) :
    (before ++ first :: rest).dropWhile isSpace =
      first :: rest := by
  rw [List.dropWhile_append_of_pos hBefore,
    List.dropWhile_cons_of_neg (Bool.eq_false_iff.mp hFirst)]

theorem parseAddress_of_strtoull
    {text rest stop : List Char}
    {first : Char}
    {value : BitVec 64}
    {erange : Bool}
    (hTrimmed : text.dropWhile isSpace = first :: rest)
    (hMinus : first ≠ '-')
    (hNumber :
      strtoull (first :: rest) = ⟨value, some stop, erange⟩)
    (hStop : stop.dropWhile isSpace = []) :
    parseAddress text =
      if erange then lldbInvalidAddress else value := by
  unfold parseAddress
  have hHead : ¬ (first :: rest).head? = some '-' :=
    fun hEq => hMinus (Option.some.inj hEq)
  simp only [hTrimmed, if_neg (List.cons_ne_nil first rest),
    if_neg hHead, hNumber, hStop, ne_eq, not_true_eq_false,
    if_false]

/-
  The value of an address text, unless it is too large.  The
  largest value is the address that stands for none.
-/
theorem parseAddress_of_isAddressText
    {text : List Char}
    {value : Nat}
    (hText : IsAddressText text value) :
    parseAddress text =
      if 2 ^ 64 ≤ value then
        lldbInvalidAddress
      else
        BitVec.ofNat 64 value := by
  rcases hText with
    ⟨before, sign, literal, after, rfl, hBefore, hSign,
      hLiteral, hAfter⟩
  have hReads :=
    ReadsNumber.of_isLiteral hLiteral
      (endsLiteral_of_isSpace hAfter)
  rcases exists_digit_of_isLiteral hLiteral with
    ⟨digitChar, digits, digit, rfl, hDigit⟩
  have hNotSpace : isSpace digitChar = false :=
    isSpace_eq_false_of_isDigit hDigit
  rcases ne_sign_of_isDigit hDigit with ⟨hNotMinus, hNotPlus⟩
  have hHead :
      ∃ first rest,
        sign ++ (digitChar :: digits ++ after) =
          first :: rest ∧
          isSpace first = false ∧ first ≠ '-' ∧
          Unsigned (first :: rest)
            (digitChar :: digits ++ after) := by
    rcases hSign with rfl | rfl
    · exact ⟨digitChar, digits ++ after, rfl, hNotSpace,
        hNotMinus, Or.inr ⟨rfl,
          fun hEq => hNotPlus (Option.some.inj hEq)⟩⟩
    · exact ⟨'+', _, rfl, rfl, by decide, Or.inl rfl⟩
  rcases hHead with
    ⟨first, rest, hStart, hFirst, hMinus, hRest⟩
  have hTrimmed :
      (before ++ sign ++ (digitChar :: digits) ++ after).dropWhile
          isSpace =
        first :: rest := by
    rw [List.append_assoc, List.append_assoc, hStart]
    exact dropWhile_isSpace_append hBefore hFirst
  have hNumber := strtoull_of_readsNumber
    (List.dropWhile_cons_of_neg (Bool.eq_false_iff.mp hFirst))
    (fun hEq => hMinus (Option.some.inj hEq)) hRest hReads
  have hStop := dropWhile_isSpace_eq_nil_iff.mpr hAfter
  by_cases hLarge : 2 ^ 64 ≤ value
  · rw [if_pos hLarge] at hNumber ⊢
    exact parseAddress_of_strtoull hTrimmed hMinus hNumber hStop
  · rw [if_neg hLarge] at hNumber ⊢
    exact parseAddress_of_strtoull hTrimmed hMinus hNumber hStop

/- The checks that a text passes which is not refused. -/
theorem exists_stop_of_parseAddress
    {text : List Char}
    (hParsed : parseAddress text ≠ lldbInvalidAddress) :
    (text.dropWhile isSpace).head? ≠ some '-' ∧
      ∃ stop,
        (strtoull (text.dropWhile isSpace)).stop = some stop ∧
          stop.dropWhile isSpace = [] := by
  unfold parseAddress at hParsed
  generalize text.dropWhile isSpace = str at *
  by_cases hEmpty : str = []
  · simp only [if_pos hEmpty] at hParsed
    exact absurd rfl hParsed
  simp only [if_neg hEmpty] at hParsed
  by_cases hMinus : str.head? = some '-'
  · rw [if_pos hMinus] at hParsed
    exact absurd rfl hParsed
  rw [if_neg hMinus] at hParsed
  refine ⟨hMinus, ?_⟩
  cases hStop : (strtoull str).stop with
  | none =>
      simp only [hStop] at hParsed
      exact absurd rfl hParsed
  | some stop =>
      simp only [hStop] at hParsed
      refine ⟨stop, rfl, ?_⟩
      by_cases hErange : (strtoull str).erange = true
      · rw [if_pos hErange] at hParsed
        exact absurd rfl hParsed
      rw [if_neg hErange] at hParsed
      by_cases hAfter : stop.dropWhile isSpace ≠ []
      · rw [if_pos hAfter] at hParsed
        exact absurd rfl hParsed
      exact not_not.mp hAfter

/- What is not refused is an address text. -/
theorem exists_isAddressText
    {text : List Char}
    (hParsed : parseAddress text ≠ lldbInvalidAddress) :
    ∃ value, IsAddressText text value := by
  rcases exists_stop_of_parseAddress hParsed with
    ⟨hMinus, stop, hStop, hAfter⟩
  rcases exists_unsigned (text.dropWhile isSpace) with
    ⟨sign, rest, hText, hSign, hUnsigned⟩
  rcases
      exists_isLiteral_of_strtoull (List.dropWhile_idempotent _ _)
        hMinus hUnsigned hStop with
    ⟨literal, value, hRest, hLiteral⟩
  refine ⟨value, text.takeWhile isSpace, sign, literal, stop, ?_,
    ?_, hSign, hLiteral, List.dropWhile_eq_nil_iff.mp hAfter⟩
  · rw [List.append_assoc, List.append_assoc, ← hRest, ← hText]
    exact List.takeWhile_append_dropWhile.symm
  · intro char hChar
    exact List.mem_takeWhile_imp hChar

end LLDBGhidra

------------------------------------------------------------
-- Exactness
------------------------------------------------------------

namespace LLDBGhidra

/- A text that is too large is refused. -/
theorem lt_of_parseAddress
    {text : List Char}
    {value : Nat}
    (hText : IsAddressText text value)
    (hParsed : parseAddress text ≠ lldbInvalidAddress) :
    value < 2 ^ 64 - 1 := by
  rw [parseAddress_of_isAddressText hText] at hParsed
  by_cases hLarge : 2 ^ 64 ≤ value
  · rw [if_pos hLarge] at hParsed
    exact absurd rfl hParsed
  · rw [if_neg hLarge] at hParsed
    have hNot : value ≠ 2 ^ 64 - 1 := by
      rintro rfl
      exact hParsed rfl
    omega

theorem toNat_parseAddress
    {text : List Char}
    {value : Nat}
    (hText : IsAddressText text value)
    (hSmall : value < 2 ^ 64 - 1) :
    (parseAddress text).toNat = value := by
  have hNot : ¬ 2 ^ 64 ≤ value := by omega
  have hMod : value % 2 ^ 64 = value :=
    Nat.mod_eq_of_lt (by omega)
  rw [parseAddress_of_isAddressText hText, if_neg hNot,
    BitVec.toNat_ofNat, hMod]

theorem parseAddress_of_large
    {text : List Char}
    {value : Nat}
    (hText : IsAddressText text value)
    (hLarge : 2 ^ 64 - 1 ≤ value) :
    parseAddress text = lldbInvalidAddress := by
  by_contra hParsed
  exact absurd (lt_of_parseAddress hText hParsed)
    (Nat.not_lt.mpr hLarge)

theorem parseAddress_ne_invalid_iff
    (text : List Char) :
    parseAddress text ≠ lldbInvalidAddress ↔
      ∃ value, IsAddressText text value ∧
        value < 2 ^ 64 - 1 := by
  constructor
  · intro hParsed
    rcases exists_isAddressText hParsed with ⟨value, hText⟩
    exact ⟨value, hText, lt_of_parseAddress hText hParsed⟩
  · rintro ⟨value, hText, hSmall⟩ hInvalid
    have hValue := toNat_parseAddress hText hSmall
    rw [hInvalid] at hValue
    exact Nat.ne_of_gt hSmall hValue

/- A literal alone is an address text. -/
theorem isAddressText_of_isLiteral
    {literal : List Char}
    {value : Nat}
    (hLiteral : IsLiteral literal value) :
    IsAddressText literal value := by
  refine ⟨[], [], literal, [], ?_, ?_, Or.inl rfl, hLiteral, ?_⟩
  · exact (List.append_nil literal).symm
  · exact fun char hChar => absurd hChar List.not_mem_nil
  · exact fun char hChar => absurd hChar List.not_mem_nil

/- An address that is printed as a literal is read again. -/
theorem parseAddress_of_isLiteral
    {literal : List Char}
    {addr : BitVec 64}
    (hAddr : addr ≠ lldbInvalidAddress)
    (hLiteral : IsLiteral literal addr.toNat) :
    parseAddress literal = addr := by
  have hNot : addr.toNat ≠ 2 ^ 64 - 1 :=
    fun hEq => hAddr (BitVec.eq_of_toNat_eq hEq)
  have hBound := addr.isLt
  apply BitVec.eq_of_toNat_eq
  exact toNat_parseAddress (isAddressText_of_isLiteral hLiteral)
    (by omega)

/-
  The texts that are accepted are those of the grammar whose
  value is below the invalid address, and that value is the
  address.  Printed addresses are read again.
-/
theorem parseAddress_exact :
    (∀ text, parseAddress text ≠ lldbInvalidAddress ↔
      ∃ value, IsAddressText text value ∧
        value < 2 ^ 64 - 1) ∧
      (∀ text value, IsAddressText text value →
        value < 2 ^ 64 - 1 →
          (parseAddress text).toNat = value) ∧
      (∀ text value, IsAddressText text value →
        2 ^ 64 - 1 ≤ value →
          parseAddress text = lldbInvalidAddress) ∧
      ∀ addr : BitVec 64, addr ≠ lldbInvalidAddress →
        parseAddress
            ('0' :: 'x' :: Nat.toDigits 16 addr.toNat) = addr ∧
          parseAddress (Nat.toDigits 10 addr.toNat) = addr := by
  refine ⟨parseAddress_ne_invalid_iff, ?_, ?_, ?_⟩
  · intro text value hText hSmall
    exact toNat_parseAddress hText hSmall
  · intro text value hText hLarge
    exact parseAddress_of_large hText hLarge
  · intro addr hAddr
    exact ⟨parseAddress_of_isLiteral hAddr
        (isLiteral_hexadecimal addr.toNat),
      parseAddress_of_isLiteral hAddr
        (isLiteral_decimal addr.toNat)⟩

end LLDBGhidra
