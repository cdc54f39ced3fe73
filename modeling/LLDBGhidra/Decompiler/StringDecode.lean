import LLDBGhidra.Decompiler.StringManage

/-
  Decoding a buffer that holds a zero character.  It never
  gets beyond that character, and does not depend on the bytes
  after it.

  Main declarations:
    * `StringManager.ZeroAt`
    * `StringManager.terminatorEnd`
    * `StringManager.terminatorEnd_congr`
    * `StringManager.checkCharacters_isSome`
-/

------------------------------------------------------------
-- Zero Characters
------------------------------------------------------------

namespace LLDBGhidra

namespace StringManager

/- The buffers have the same bytes up to an index. -/
def AgreeUpTo
    (stop : Nat)
    (buf other : List Byte) : Prop :=
  ∀ index < stop, byteAt buf index = byteAt other index

theorem AgreeUpTo.symm
    {stop : Nat}
    {buf other : List Byte}
    (hAgree : AgreeUpTo stop buf other) :
    AgreeUpTo stop other buf :=
  fun index hIndex => (hAgree index hIndex).symm

/- There is a zero character at an index. -/
def ZeroAt
    (buf : List Byte)
    (charsize index : Nat) : Prop :=
  index % charsize = 0 ∧
    ∀ byte < charsize, byteAt buf (index + byte) = 0

theorem byteAt_drop
    (buf : List Byte)
    (start index : Nat) :
    byteAt (buf.drop start) index =
      byteAt buf (start + index) := by
  simp [byteAt, List.getD_eq_getElem?_getD]

/- The search for a terminator finds a zero character. -/
theorem hasCharTerminator_iff
    (buf : List Byte)
    (size charsize : Nat) :
    hasCharTerminator buf size charsize = true ↔
      ∃ index < size, ZeroAt buf charsize index := by
  have hZero : ∀ index, buf.getD index 0 = 0 ↔
      byteAt buf index = 0 := by
    intro index
    unfold byteAt
    rw [← BitVec.toNat_inj]
    rfl
  simp only [hasCharTerminator, List.any_eq_true,
    List.mem_range, Bool.and_eq_true, decide_eq_true_eq,
    List.all_eq_true, ZeroAt, hZero]

/- The sizes of an encoded element. -/
def IsCharsize
    (charsize : Nat) : Prop :=
  charsize = 1 ∨ charsize = 2 ∨ charsize = 4

variable {buf other : List Byte}
variable {charsize : Nat}
variable {bigend : Bool}
variable {codepoint : Int}
variable {skip : Nat}

/- Other sizes have no encoding. -/
theorem getCodepoint_of_not_isCharsize
    (hCharsize : ¬ IsCharsize charsize) :
    getCodepoint buf charsize bigend = none := by
  unfold IsCharsize at hCharsize
  have hOne : charsize ≠ 1 := fun h => hCharsize (Or.inl h)
  have hTwo : charsize ≠ 2 :=
    fun h => hCharsize (Or.inr (Or.inl h))
  have hFour : charsize ≠ 4 :=
    fun h => hCharsize (Or.inr (Or.inr h))
  simp [getCodepoint, getEncoded, hOne, hTwo, hFour]

/- The encoded element before its code point is checked. -/
theorem encoded_of_getCodepoint
    (hCode : getCodepoint buf charsize bigend =
      some (codepoint, skip)) :
    getEncoded buf charsize bigend =
      some (codepoint, skip) := by
  unfold getCodepoint at hCode
  split at hCode
  · cases hCode
  · split at hCode
    · cases hCode
    · rename_i hEncoded _
      rw [hEncoded]
      exact hCode

/- A nul character decodes to a terminator. -/
theorem getCodepoint_of_zero
    (hCharsize : IsCharsize charsize)
    (hZero : ∀ byte < charsize, byteAt buf byte = 0) :
    getCodepoint buf charsize bigend =
      some (0, charsize) := by
  rcases hCharsize with rfl | rfl | rfl
  · simp [getCodepoint, getEncoded, getUtf8, hZero 0]
  · have hRead : readUtf16 buf bigend = 0 := by
      simp [readUtf16, hZero 0, hZero 1]
    simp [getCodepoint, getEncoded, getUtf16, hRead]
  · simp [getCodepoint, getEncoded, getUtf32, hZero 0,
      hZero 1, hZero 2, hZero 3, int4]

end StringManager

end LLDBGhidra

------------------------------------------------------------
-- One Character
------------------------------------------------------------

namespace LLDBGhidra

namespace StringManager

variable {buf other : List Byte}
variable {charsize nul : Nat}
variable {bigend : Bool}
variable {codepoint : Int}
variable {skip : Nat}

private theorem not_isTrailing_zero :
    isTrailing 0 = false := by
  decide

/- A sequence of UTF-8 does not run over a zero byte. -/
theorem getUtf8_skip_le
    (hCode : getUtf8 buf = some (codepoint, skip))
    (hPositive : 0 < nul)
    (hZero : byteAt buf nul = 0) :
    skip ≤ nul := by
  by_contra hOver
  have hTrail : isTrailing (byteAt buf nul) = false := by
    rw [hZero]
    exact not_isTrailing_zero
  unfold getUtf8 at hCode
  simp only [] at hCode
  split at hCode
  · cases hCode
    omega
  · split at hCode
    · split at hCode
      · rename_i hTrailing
        cases hCode
        have hIndex : nul = 1 := by omega
        rw [hIndex, hTrailing] at hTrail
        cases hTrail
      · cases hCode
    · split at hCode
      · split at hCode
        · rename_i hTrailing
          cases hCode
          rw [Bool.and_eq_true] at hTrailing
          have hIndex : nul = 1 ∨ nul = 2 := by omega
          rcases hIndex with hIndex | hIndex
          · rw [hIndex, hTrailing.1] at hTrail
            cases hTrail
          · rw [hIndex, hTrailing.2] at hTrail
            cases hTrail
        · cases hCode
      · split at hCode
        · split at hCode
          · rename_i hTrailing
            cases hCode
            rw [Bool.and_eq_true, Bool.and_eq_true]
              at hTrailing
            have hIndex :
                nul = 1 ∨ nul = 2 ∨ nul = 3 := by
              omega
            rcases hIndex with hIndex | hIndex | hIndex
            · rw [hIndex, hTrailing.1.1] at hTrail
              cases hTrail
            · rw [hIndex, hTrailing.1.2] at hTrail
              cases hTrail
            · rw [hIndex, hTrailing.2] at hTrail
              cases hTrail
          · cases hCode
        · cases hCode

/- A nul byte hides the bytes after it from UTF-8. -/
theorem getUtf8_congr
    (hZero : byteAt buf nul = 0)
    (hAgree : AgreeUpTo (nul + 1) buf other) :
    getUtf8 buf = getUtf8 other := by
  have hOther : byteAt other nul = 0 := by
    rw [← hAgree nul (Nat.lt_succ_self _)]
    exact hZero
  have hFirst : byteAt buf 0 = byteAt other 0 :=
    hAgree 0 (Nat.succ_pos _)
  have hCases :
      nul = 0 ∨ nul = 1 ∨ nul = 2 ∨ 3 ≤ nul := by
    omega
  rcases hCases with rfl | rfl | rfl | hFar
  · simp [getUtf8, hZero, hOther]
  · unfold getUtf8
    simp only [hFirst, hZero, hOther, not_isTrailing_zero,
      Bool.false_and, Bool.false_eq_true, if_false]
  · unfold getUtf8
    simp only [hFirst, hAgree 1 (by decide), hZero, hOther,
      not_isTrailing_zero, Bool.false_and, Bool.and_false,
      Bool.false_eq_true, if_false]
  · unfold getUtf8
    rw [hFirst, hAgree 1 (by omega), hAgree 2 (by omega),
      hAgree 3 (by omega)]

/- The size of an element that is not over a zero character. -/
theorem getUtf16_skip
    (hCode : getUtf16 buf bigend = some (codepoint, skip)) :
    skip = 2 ∨
      (skip = 4 ∧ ¬ (byteAt buf 2 = 0 ∧ byteAt buf 3 = 0)) := by
  unfold getUtf16 at hCode
  simp only [] at hCode
  split at hCode
  · split at hCode
    · cases hCode
    · rename_i hTrail
      cases hCode
      right
      refine ⟨rfl, ?_⟩
      rintro ⟨hLow, hHigh⟩
      apply hTrail
      left
      unfold readUtf16
      rw [byteAt_drop, byteAt_drop, hLow, hHigh]
      split
      · decide
      · decide
  · split at hCode
    · cases hCode
    · cases hCode
      exact Or.inl rfl

theorem readUtf16_congr
    (hFirst : byteAt buf 0 = byteAt other 0)
    (hSecond : byteAt buf 1 = byteAt other 1) :
    readUtf16 buf bigend = readUtf16 other bigend := by
  unfold readUtf16
  rw [hFirst, hSecond]

theorem getUtf16_congr
    (hAgree : AgreeUpTo 4 buf other) :
    getUtf16 buf bigend = getUtf16 other bigend := by
  have hRead : readUtf16 buf bigend =
      readUtf16 other bigend :=
    readUtf16_congr (hAgree 0 (by decide))
      (hAgree 1 (by decide))
  have hTrail : readUtf16 (buf.drop 2) bigend =
      readUtf16 (other.drop 2) bigend := by
    apply readUtf16_congr
    · rw [byteAt_drop, byteAt_drop]
      exact hAgree 2 (by decide)
    · rw [byteAt_drop, byteAt_drop]
      exact hAgree 3 (by decide)
  unfold getUtf16
  rw [hRead, hTrail]

theorem getUtf32_congr
    (hAgree : AgreeUpTo 4 buf other) :
    getUtf32 buf bigend = getUtf32 other bigend := by
  unfold getUtf32
  rw [hAgree 0 (by decide), hAgree 1 (by decide),
    hAgree 2 (by decide), hAgree 3 (by decide)]

private theorem getUtf8_skip_pos
    (hCode : getUtf8 buf = some (codepoint, skip)) :
    0 < skip := by
  unfold getUtf8 at hCode
  simp only [] at hCode
  split at hCode
  · cases hCode
    decide
  · split at hCode
    · split at hCode
      · cases hCode
        decide
      · cases hCode
    · split at hCode
      · split at hCode
        · cases hCode
          decide
        · cases hCode
      · split at hCode
        · split at hCode
          · cases hCode
            decide
          · cases hCode
        · cases hCode

/- A character before a zero character ends before it. -/
theorem getCodepoint_skip
    (hCharsize : IsCharsize charsize)
    (hCode : getCodepoint buf charsize bigend =
      some (codepoint, skip))
    (hPositive : 0 < nul)
    (hZero : ZeroAt buf charsize nul) :
    0 < skip ∧ skip ≤ nul ∧ skip % charsize = 0 := by
  have hEncoded := encoded_of_getCodepoint hCode
  have hAligned := hZero.1
  rcases hCharsize with rfl | rfl | rfl
  · change getUtf8 buf = _ at hEncoded
    exact ⟨getUtf8_skip_pos hEncoded,
      getUtf8_skip_le hEncoded hPositive
        (hZero.2 0 (by decide)),
      Nat.mod_one _⟩
  · change getUtf16 buf bigend = _ at hEncoded
    rcases getUtf16_skip hEncoded with rfl | ⟨rfl, hTrail⟩
    · omega
    · have hNear : nul ≠ 2 := by
        rintro rfl
        exact hTrail
          ⟨hZero.2 0 (by decide), hZero.2 1 (by decide)⟩
      omega
  · change getUtf32 buf bigend = _ at hEncoded
    cases hEncoded
    omega

/- A nul character hides what comes after it. -/
theorem getCodepoint_congr
    (hCharsize : IsCharsize charsize)
    (hZero : ZeroAt buf charsize nul)
    (hAgree : AgreeUpTo (nul + charsize) buf other) :
    getCodepoint buf charsize bigend =
      getCodepoint other charsize bigend := by
  have hAligned := hZero.1
  by_cases hStart : nul = 0
  · subst hStart
    have hFirst : ∀ byte < charsize, byteAt buf byte = 0 := by
      intro byte hByte
      rw [← Nat.zero_add byte]
      exact hZero.2 byte hByte
    have hOther : ∀ byte < charsize,
        byteAt other byte = 0 := by
      intro byte hByte
      rw [← hAgree byte (by omega)]
      exact hFirst byte hByte
    rw [getCodepoint_of_zero hCharsize hFirst,
      getCodepoint_of_zero hCharsize hOther]
  · have hFour : charsize ≠ 1 → AgreeUpTo 4 buf other := by
      intro hWide index hIndex
      apply hAgree
      rcases hCharsize with rfl | rfl | rfl
      · exact absurd rfl hWide
      · omega
      · omega
    have hEncoded : getEncoded buf charsize bigend =
        getEncoded other charsize bigend := by
      rcases hCharsize with rfl | rfl | rfl
      · exact getUtf8_congr (hZero.2 0 (by decide)) hAgree
      · exact getUtf16_congr (hFour (by decide))
      · exact getUtf32_congr (hFour (by decide))
    unfold getCodepoint
    rw [hEncoded]

theorem zeroAt_drop
    {index : Nat}
    (hZero : ZeroAt buf charsize nul)
    (hIndex : index ≤ nul)
    (hAligned : index % charsize = 0) :
    ZeroAt (buf.drop index) charsize (nul - index) := by
  constructor
  · have hDvd := Nat.dvd_sub
      (Nat.dvd_of_mod_eq_zero hZero.1)
      (Nat.dvd_of_mod_eq_zero hAligned)
    exact Nat.mod_eq_zero_of_dvd hDvd
  · intro byte hByte
    rw [byteAt_drop, ← Nat.add_assoc,
      Nat.add_sub_cancel' hIndex]
    exact hZero.2 byte hByte

end StringManager

end LLDBGhidra

------------------------------------------------------------
-- Whole Buffers
------------------------------------------------------------

namespace LLDBGhidra

namespace StringManager

/-
  The end of the terminator that decoding from an index on
  stops at, if the characters before it are legal.
-/
def terminatorEndFrom
    (buf : List Byte)
    (charsize : Nat)
    (bigend : Bool)
    (fuel index : Nat) : Option Nat :=
  match fuel with
  | 0 => none
  | fuel + 1 =>
      match getCodepoint (buf.drop index) charsize bigend with
      | none => none
      | some (codepoint, skip) =>
          if codepoint < 0 then
            none
          else if codepoint = 0 then
            some (index + skip)
          else
            terminatorEndFrom buf charsize bigend fuel
              (index + skip)

def terminatorEnd
    (buf : List Byte)
    (charsize : Nat)
    (bigend : Bool) : Option Nat :=
  terminatorEndFrom buf charsize bigend buf.length 0

variable {buf other : List Byte}
variable {charsize nul : Nat}
variable {bigend : Bool}

/- What is known while decoding is before a zero character. -/
structure Before
    (buf : List Byte)
    (charsize nul fuel index : Nat) : Prop where
  isCharsize : IsCharsize charsize
  zeroAt : ZeroAt buf charsize nul
  aligned : index % charsize = 0
  le_nul : index ≤ nul
  nul_lt : nul < index + fuel

namespace Before

variable {fuel index : Nat}
variable {codepoint : Int}
variable {skip : Nat}

/- The zero character, as seen from the index. -/
theorem drop
    (hBefore : Before buf charsize nul fuel index) :
    ZeroAt (buf.drop index) charsize (nul - index) :=
  zeroAt_drop hBefore.zeroAt hBefore.le_nul hBefore.aligned

/- At the zero character there is a terminator. -/
theorem codepoint_eq
    (hBefore : Before buf charsize index fuel index) :
    getCodepoint (buf.drop index) charsize bigend =
      some (0, charsize) := by
  apply getCodepoint_of_zero hBefore.isCharsize
  intro byte hByte
  rw [byteAt_drop]
  exact hBefore.zeroAt.2 byte hByte

/- A character other than a terminator is before the zero. -/
theorem lt_nul
    (hBefore : Before buf charsize nul fuel index)
    (hCode : getCodepoint (buf.drop index) charsize bigend =
      some (codepoint, skip))
    (hNonzero : codepoint ≠ 0) :
    index < nul := by
  apply lt_of_le_of_ne hBefore.le_nul
  intro hSame
  subst hSame
  rw [hBefore.codepoint_eq] at hCode
  cases hCode
  exact hNonzero rfl

/- It takes some bytes, and ends before the zero or at it. -/
theorem skip_le
    (hBefore : Before buf charsize nul fuel index)
    (hCode : getCodepoint (buf.drop index) charsize bigend =
      some (codepoint, skip))
    (hLt : index < nul) :
    0 < skip ∧ index + skip ≤ nul ∧ skip % charsize = 0 := by
  have hSkip := getCodepoint_skip hBefore.isCharsize hCode
    (Nat.sub_pos_of_lt hLt) hBefore.drop
  omega

/- The next character starts before the zero, or at it. -/
theorem next
    (hBefore : Before buf charsize nul (fuel + 1) index)
    (hCode : getCodepoint (buf.drop index) charsize bigend =
      some (codepoint, skip))
    (hNonzero : codepoint ≠ 0) :
    Before buf charsize nul fuel (index + skip) := by
  have hSkip := hBefore.skip_le hCode
    (hBefore.lt_nul hCode hNonzero)
  have hFuel := hBefore.nul_lt
  refine ⟨hBefore.isCharsize, hBefore.zeroAt, ?_, hSkip.2.1,
    by omega⟩
  rw [Nat.add_mod, hBefore.aligned, hSkip.2.2]
  exact Nat.zero_mod _

/- The terminator ends at the zero character, or before. -/
theorem terminatorEnd_le
    {stop : Nat}
    (hBefore : Before buf charsize nul fuel index)
    (hEnd : terminatorEndFrom buf charsize bigend fuel index =
      some stop) :
    stop ≤ nul + charsize := by
  induction fuel generalizing index with
  | zero => cases hEnd
  | succ fuel ih =>
      unfold terminatorEndFrom at hEnd
      split at hEnd
      · cases hEnd
      · rename_i codepoint skip hCode
        split at hEnd
        · cases hEnd
        · split at hEnd
          · cases hEnd
            rcases hBefore.le_nul.eq_or_lt with hSame | hLt
            · subst hSame
              rw [hBefore.codepoint_eq] at hCode
              cases hCode
              exact le_rfl
            · have hSkip := hBefore.skip_le hCode hLt
              omega
          · rename_i hNonzero
            exact ih (hBefore.next hCode hNonzero) hEnd

/- Decoding does not depend on the bytes after the zero. -/
theorem terminatorEnd_congr
    {fuel' : Nat}
    (hBefore : Before buf charsize nul fuel index)
    (hFuel' : nul < index + fuel')
    (hAgree : AgreeUpTo (nul + charsize) buf other) :
    terminatorEndFrom buf charsize bigend fuel index =
      terminatorEndFrom other charsize bigend fuel' index := by
  induction fuel generalizing index fuel' with
  | zero =>
      have hFuel := hBefore.nul_lt
      have hIndex := hBefore.le_nul
      omega
  | succ fuel ih =>
      have hIndex := hBefore.le_nul
      cases fuel' with
      | zero => omega
      | succ fuel' =>
          have hDropped :
              AgreeUpTo (nul - index + charsize)
                (buf.drop index) (other.drop index) := by
            intro byte hByte
            rw [byteAt_drop, byteAt_drop]
            exact hAgree _ (by omega)
          have hCode :
              getCodepoint (buf.drop index) charsize bigend =
                getCodepoint (other.drop index) charsize
                  bigend :=
            getCodepoint_congr hBefore.isCharsize hBefore.drop
              hDropped
          unfold terminatorEndFrom
          rw [← hCode]
          cases hFound :
              getCodepoint (buf.drop index) charsize bigend
            with
          | none => rfl
          | some found =>
              rcases found with ⟨codepoint, skip⟩
              simp only []
              split
              · rfl
              · split
                · rfl
                · rename_i hNonzero
                  have hSkip := hBefore.skip_le hFound
                    (hBefore.lt_nul hFound hNonzero)
                  exact ih (hBefore.next hFound hNonzero)
                    (by omega)

/-
  The characters are legal if and only if the decoding stops
  at a terminator.
-/
theorem checkCharacters_isSome
    {fuel' size count : Nat}
    (hBefore : Before buf charsize nul fuel index)
    (hFuel' : nul < index + fuel')
    (hSize : nul < size) :
    (checkCharactersFrom buf size charsize bigend fuel' index
        count).isSome =
      (terminatorEndFrom buf charsize bigend fuel
        index).isSome := by
  induction fuel generalizing index fuel' count with
  | zero =>
      have hFuel := hBefore.nul_lt
      have hIndex := hBefore.le_nul
      omega
  | succ fuel ih =>
      have hIndex := hBefore.le_nul
      cases fuel' with
      | zero => omega
      | succ fuel' =>
          have hInside : index < size := by omega
          unfold checkCharactersFrom terminatorEndFrom
          rw [if_pos hInside]
          cases hFound :
              getCodepoint (buf.drop index) charsize bigend
            with
          | none => rfl
          | some found =>
              rcases found with ⟨codepoint, skip⟩
              simp only []
              split
              · rfl
              · split
                · rfl
                · rename_i hNonzero
                  have hSkip := hBefore.skip_le hFound
                    (hBefore.lt_nul hFound hNonzero)
                  exact ih (hBefore.next hFound hNonzero)
                    (by omega)

end Before

/- Nothing is legal without an encoding. -/
theorem checkCharacters_of_not_isCharsize
    {size : Nat}
    (hCharsize : ¬ IsCharsize charsize)
    (hSize : 0 < size) :
    checkCharacters buf size charsize bigend = none := by
  unfold checkCharacters
  cases size with
  | zero => cases hSize
  | succ size =>
      unfold checkCharactersFrom
      rw [if_pos hSize, getCodepoint_of_not_isCharsize hCharsize]

theorem terminatorEnd_of_not_isCharsize
    (hCharsize : ¬ IsCharsize charsize) :
    terminatorEnd buf charsize bigend = none := by
  unfold terminatorEnd
  cases buf.length with
  | zero => rfl
  | succ length =>
      unfold terminatorEndFrom
      rw [getCodepoint_of_not_isCharsize hCharsize]

/- Legal characters can be translated. -/
theorem writeUnicodeFrom_isSome
    {maximumChars size fuel index count written : Nat}
    (hLegal : (checkCharactersFrom buf size charsize bigend
      fuel index count).isSome = true) :
    (writeUnicodeFrom maximumChars buf size charsize bigend
      fuel index written).isSome = true := by
  induction fuel generalizing index count written with
  | zero => rfl
  | succ fuel ih =>
      unfold checkCharactersFrom at hLegal
      unfold writeUnicodeFrom
      by_cases hInside : index < size
      · rw [if_pos hInside] at hLegal ⊢
        cases hFound :
            getCodepoint (buf.drop index) charsize bigend
          with
        | none =>
            rw [hFound] at hLegal
            cases hLegal
        | some found =>
            rcases found with ⟨codepoint, skip⟩
            rw [hFound] at hLegal
            simp only [] at hLegal ⊢
            split
            · rename_i hNegative
              rw [if_pos hNegative] at hLegal
              cases hLegal
            · rename_i hNegative
              rw [if_neg hNegative] at hLegal
              split
              · rfl
              · rename_i hNonzero
                rw [if_neg hNonzero] at hLegal
                split
                · rfl
                · rw [Option.isSome_map]
                  exact ih hLegal
      · rw [if_neg hInside]
        rfl

/- A legal string in a buffer that is not empty has bytes. -/
theorem byteData_assignStringData
    {maximumChars size numChars : Nat}
    {data : StringData}
    (hLegal : checkCharacters buf size charsize bigend =
      some numChars)
    (hSize : 0 < size)
    (hBuffer : 0 < buf.length) :
    (assignStringData maximumChars buf size charsize numChars
      bigend data).byteData ≠ [] := by
  unfold assignStringData
  split
  · intro hEmpty
    have hLength := congrArg List.length hEmpty
    rw [List.length_take, List.length_nil] at hLength
    omega
  · have hWrite : (writeUnicode maximumChars buf size charsize
        bigend).isSome = true := by
      unfold writeUnicode
      unfold checkCharacters at hLegal
      exact writeUnicodeFrom_isSome
        (Option.isSome_iff_exists.mpr ⟨_, hLegal⟩)
    cases hText : writeUnicode maximumChars buf size charsize
        bigend with
    | none =>
        rw [hText] at hWrite
        cases hWrite
    | some resString =>
        intro hEmpty
        have hLength := congrArg List.length hEmpty
        simp at hLength

end StringManager

end LLDBGhidra
