import LLDBGhidra.Decompiler.ArchitectureInit

/-
  What an initialization guarantees of the spaces to infer
  pointers in, and that the hook of the base class makes it
  so from any spaces that were noted.

  Main declarations:
    * `PointerSpaces`
    * `declaresPointerSpaces`
    * `pointerSpaces_iff`
    * `Architecture.init_pointerSpaces`
-/

------------------------------------------------------------
-- The Guarantee
------------------------------------------------------------

namespace LLDBGhidra

/- A space that holds memory that pointers can lead to. -/
structure AddrSpace.Inferable
    (spc : AddrSpace) : Prop where
  delay : spc.delay ≠ 0
  type : spc.type ≠ .spacebase
  otherSpace : spc.otherSpace = false
  overlay : spc.overlay = false

/-
  What is guaranteed of a list of spaces: no space is twice,
  each of them is inferable, and the default spaces are in it
  where they are inferable, the data space first.
-/
structure PointerSpaces
    (manager : AddrSpaceManager)
    (spaces : List SpaceId) : Prop where
  nodup : spaces.Nodup
  inferable : ∀ index ∈ spaces, ∃ spc,
    manager.getSpace index = some spc ∧ spc.Inferable
  code : ∀ code,
    manager.getDefaultCodeSpace = some code →
      manager.inferable code = true → code ∈ spaces
  data : ∀ data,
    manager.getDefaultDataSpace = some data →
      manager.inferable data = true →
        spaces.head? = some data

/- Is a default space where it has to be, if it passes? -/
def placesDefault
    (manager : AddrSpaceManager)
    (default? : Option SpaceId)
    (placed : SpaceId → Bool) : Bool :=
  default?.all (fun index =>
    !manager.inferable index || placed index)

/-
  Do the spaces of the global ranges need no hook?  They are
  the spaces in the order of the specifications, repetitions
  included.
-/
def declaresPointerSpaces
    (manager : AddrSpaceManager)
    (spaces : List SpaceId) : Bool :=
  decide spaces.Nodup && spaces.all manager.inferable &&
    placesDefault manager manager.getDefaultCodeSpace
      spaces.contains &&
    placesDefault manager manager.getDefaultDataSpace
      (fun data => spaces.head? = some data)

variable {manager : AddrSpaceManager}
variable {spaces : List SpaceId}

theorem inferable_iff
    (index : SpaceId) :
    manager.inferable index = true ↔
      ∃ spc, manager.getSpace index = some spc ∧
        spc.Inferable := by
  unfold AddrSpaceManager.inferable
  cases hSpace : manager.getSpace index with
  | none => simp
  | some spc =>
      simp only [Bool.and_eq_true, decide_eq_true_eq,
        Bool.not_eq_true', Option.some.injEq,
        exists_eq_left', ne_eq]
      constructor
      · intro hAll
        rcases hAll with
          ⟨⟨⟨hDelay, hType⟩, hOther⟩, hOverlay⟩
        exact ⟨hDelay, hType, hOther, hOverlay⟩
      · intro hInferable
        exact ⟨⟨⟨hInferable.delay, hInferable.type⟩,
          hInferable.otherSpace⟩, hInferable.overlay⟩

theorem placesDefault_iff
    (default? : Option SpaceId)
    (placed : SpaceId → Bool) :
    placesDefault manager default? placed = true ↔
      ∀ index, default? = some index →
        manager.inferable index = true →
          placed index = true := by
  unfold placesDefault
  cases default? with
  | none => simp
  | some index =>
      cases hInferable : manager.inferable index with
      | true => simp [hInferable]
      | false => simp [hInferable]

/- The condition is the guarantee of the list as declared. -/
theorem pointerSpaces_iff :
    PointerSpaces manager spaces ↔
      declaresPointerSpaces manager spaces = true := by
  unfold declaresPointerSpaces
  rw [Bool.and_eq_true, Bool.and_eq_true, Bool.and_eq_true,
    placesDefault_iff, placesDefault_iff, decide_eq_true_eq,
    List.all_eq_true]
  constructor
  · intro hSpaces
    refine ⟨⟨⟨hSpaces.nodup, ?_⟩, ?_⟩, ?_⟩
    · intro index hIndex
      exact (inferable_iff index).mpr
        (hSpaces.inferable index hIndex)
    · intro code hCode hInferable
      exact List.contains_iff_mem.mpr
        (hSpaces.code code hCode hInferable)
    · intro data hData hInferable
      exact decide_eq_true (hSpaces.data data hData hInferable)
  · intro hDeclared
    rcases hDeclared with ⟨⟨⟨hNodup, hAll⟩, hCode⟩, hData⟩
    refine ⟨hNodup, ?_, ?_, ?_⟩
    · intro index hIndex
      exact (inferable_iff index).mp (hAll index hIndex)
    · intro code hDefault hInferable
      exact List.contains_iff_mem.mp
        (hCode code hDefault hInferable)
    · intro data hDefault hInferable
      exact of_decide_eq_true (hData data hDefault hInferable)

end LLDBGhidra

------------------------------------------------------------
-- The Hook of the Base Class
------------------------------------------------------------

namespace LLDBGhidra

namespace Architecture

variable {inferable : SpaceId → Bool}
variable {spaces : List SpaceId}

/- A space that passes is kept, unless it was seen before. -/
theorem mem_filterSpaces
    {index : SpaceId}
    {lastSpace : Option SpaceId}
    (hMem : index ∈ spaces)
    (hInferable : inferable index = true)
    (hLast : some index ≠ lastSpace) :
    index ∈ filterSpaces inferable lastSpace spaces := by
  induction spaces generalizing lastSpace with
  | nil => cases hMem
  | cons spc rest ih =>
      unfold filterSpaces
      by_cases hSame : index = spc
      · subst hSame
        rw [if_neg hLast, hInferable]
        exact List.mem_cons_self
      · have hRest : index ∈ rest :=
          (List.mem_cons.mp hMem).resolve_left hSame
        have hSeen : some index ≠ some spc := by
          simpa using hSame
        split
        · exact ih hRest hLast
        · split
          · exact ih hRest hSeen
          · exact List.mem_cons_of_mem _ (ih hRest hSeen)

theorem inferable_of_mem_filterSpaces
    {index : SpaceId}
    {lastSpace : Option SpaceId}
    (hMem : index ∈ filterSpaces inferable lastSpace spaces) :
    index ∈ spaces ∧ inferable index = true := by
  induction spaces generalizing lastSpace with
  | nil => cases hMem
  | cons spc rest ih =>
      unfold filterSpaces at hMem
      split at hMem
      · rcases ih hMem with ⟨hRest, hInferable⟩
        exact ⟨List.mem_cons_of_mem _ hRest, hInferable⟩
      · split at hMem
        · rcases ih hMem with ⟨hRest, hInferable⟩
          exact ⟨List.mem_cons_of_mem _ hRest, hInferable⟩
        · next hPasses =>
          cases List.mem_cons.mp hMem with
          | inl hSame =>
              subst hSame
              exact ⟨List.mem_cons_self, by simpa using hPasses⟩
          | inr hRest =>
              rcases ih hRest with ⟨hRest, hInferable⟩
              exact
                ⟨List.mem_cons_of_mem _ hRest, hInferable⟩

/- In a sorted list, a space differs from all but the last. -/
theorem filterSpaces_pairwise
    {lastSpace : Option SpaceId}
    (hSorted : spaces.Pairwise (· ≤ ·))
    (hLast : ∀ last, lastSpace = some last →
      ∀ spc ∈ spaces, last ≤ spc) :
    (filterSpaces inferable lastSpace spaces).Pairwise
        (· < ·) ∧
      ∀ last, lastSpace = some last →
        ∀ spc ∈ filterSpaces inferable lastSpace spaces,
          last < spc := by
  induction spaces generalizing lastSpace with
  | nil =>
      refine ⟨List.Pairwise.nil, ?_⟩
      intro _ _ spc hMem
      cases hMem
  | cons spc rest ih =>
      rcases List.pairwise_cons.mp hSorted with
        ⟨hLeast, hRest⟩
      have hNext : ∀ last, some spc = some last →
          ∀ other ∈ rest, last ≤ other := by
        intro last hSame other hOther
        cases hSame
        exact hLeast other hOther
      rcases ih hRest hNext with ⟨hPairwise, hAbove⟩
      have hAboveSpc : ∀ other ∈
          filterSpaces inferable (some spc) rest,
            spc < other :=
        hAbove spc rfl
      unfold filterSpaces
      by_cases hSame : some spc = lastSpace
      · rw [if_pos hSame]
        subst hSame
        exact ⟨hPairwise, hAbove⟩
      · have hBelow : ∀ last, lastSpace = some last →
            last < spc := by
          intro last hIs
          refine lt_of_le_of_ne
            (hLast last hIs spc List.mem_cons_self) ?_
          intro hEqual
          rw [hIs, hEqual] at hSame
          exact hSame rfl
        have hAboveLast : ∀ last, lastSpace = some last →
            ∀ other ∈ filterSpaces inferable (some spc) rest,
              last < other :=
          fun last hIs other hOther =>
            lt_trans (hBelow last hIs)
              (hAboveSpc other hOther)
        rw [if_neg hSame]
        split
        · exact ⟨hPairwise, hAboveLast⟩
        · refine ⟨List.pairwise_cons.mpr
            ⟨hAboveSpc, hPairwise⟩, ?_⟩
          intro last hIs other hOther
          cases List.mem_cons.mp hOther with
          | inl hHead =>
              rw [hHead]
              exact hBelow last hIs
          | inr hTail => exact hAboveLast last hIs other hTail

theorem filterSpaces_nodup
    (hSorted : spaces.Pairwise (· ≤ ·)) :
    (filterSpaces inferable none spaces).Nodup := by
  have hPairwise :
      (filterSpaces inferable none spaces).Pairwise (· < ·) :=
    (filterSpaces_pairwise hSorted
      (fun _ hNone => by cases hNone)).1
  exact hPairwise.imp (fun hLess => ne_of_lt hLess)

/- An exchange loses no space, and puts one in front. -/
theorem swapToFront_perm
    {defPos : Nat}
    (hPos : defPos < spaces.length) :
    (swapToFront spaces defPos).Perm spaces ∧
      (swapToFront spaces defPos).head? =
        some spaces[defPos] := by
  cases spaces with
  | nil => cases hPos
  | cons first rest =>
      have hSwap : swapToFront (first :: rest) defPos =
          ((first :: rest).set 0 (first :: rest)[defPos]).set
            defPos first := by
        unfold swapToFront
        rw [List.getElem?_eq_getElem hPos]
        rfl
      rw [hSwap]
      constructor
      · exact List.set_set_perm (Nat.zero_lt_succ _) hPos
      · cases defPos with
        | zero => rfl
        | succ defPos => rfl

theorem defaultFirst_perm
    (data : SpaceId)
    (spaces : List SpaceId) :
    (defaultFirst data spaces).Perm spaces := by
  unfold defaultFirst
  cases hFound : spaces.findIdx? (· = data) with
  | none => exact List.Perm.refl _
  | some defPos =>
      rcases List.findIdx?_eq_some_iff_getElem.mp hFound with
        ⟨hPos, _⟩
      simp only []
      split
      · exact (swapToFront_perm hPos).1
      · exact List.Perm.refl _

theorem head_defaultFirst
    {data : SpaceId}
    (hData : data ∈ spaces) :
    (defaultFirst data spaces).head? = some data := by
  unfold defaultFirst
  cases hFound : spaces.findIdx? (· = data) with
  | none =>
      have hAbsent :=
        List.findIdx?_eq_none_iff.mp hFound data hData
      simp at hAbsent
  | some defPos =>
      rcases List.findIdx?_eq_some_iff_getElem.mp hFound with
        ⟨hPos, hIs, _⟩
      have hAt : spaces[defPos] = data := of_decide_eq_true hIs
      simp only []
      split
      · rw [(swapToFront_perm hPos).2, hAt]
      · next hFirst =>
        have hZero : defPos = 0 := Nat.eq_zero_of_not_pos hFirst
        subst hZero
        rw [List.head?_eq_getElem?,
          List.getElem?_eq_getElem hPos, hAt]

/- The hook makes the guarantee of whatever was noted. -/
theorem cacheAddrSpaceProperties_pointerSpaces
    {ρ : Type}
    {arch arch' : Architecture ρ}
    (hCache : cacheAddrSpaceProperties arch = .ok arch') :
    arch'.manager = arch.manager ∧
      PointerSpaces arch.manager arch'.inferPtrSpaces := by
  unfold cacheAddrSpaceProperties at hCache
  cases hCode : arch.manager.getDefaultCodeSpace with
  | none =>
      simp only [hCode] at hCache
      cases hCache
  | some code =>
      cases hData : arch.manager.getDefaultDataSpace with
      | none =>
          simp only [hCode, hData] at hCache
          cases hCache
      | some data =>
          simp only [hCode, hData] at hCache
          cases hCache
          have hCopied : ∀ index,
              index ∈ arch.inferPtrSpaces ++ [code, data] →
              arch.manager.inferable index = true →
              index ∈ filterSpaces arch.manager.inferable none
                ((arch.inferPtrSpaces ++
                  [code, data]).insertionSort (· ≤ ·)) := by
            intro index hIndex hInferable
            exact mem_filterSpaces
              ((List.perm_insertionSort _ _).mem_iff.mpr hIndex)
              hInferable (by simp)
          refine ⟨rfl, ?_, ?_, ?_, ?_⟩
          · exact (defaultFirst_perm data _).nodup_iff.mpr
              (filterSpaces_nodup
                (List.pairwise_insertionSort _ _))
          · intro index hIndex
            have hFiltered :=
              (defaultFirst_perm data _).mem_iff.mp hIndex
            exact (inferable_iff index).mp
              (inferable_of_mem_filterSpaces hFiltered).2
          · intro code' hCode' hInferable
            rw [hCode] at hCode'
            cases hCode'
            exact (defaultFirst_perm data _).mem_iff.mpr
              (hCopied code (by simp) hInferable)
          · intro data' hData' hInferable
            rw [hData] at hData'
            cases hData'
            exact head_defaultFirst
              (hCopied data (by simp) hInferable)

end Architecture

end LLDBGhidra

------------------------------------------------------------
-- The Initialization of the Base Class
------------------------------------------------------------

namespace LLDBGhidra

namespace Architecture

open Effect

variable {ρ : Type}
variable {components : Components ρ}

theorem blank_start
    (initial : ρ) :
    Blank (start initial) :=
  ⟨rfl, rfl⟩

/- Other components make no difference to the spaces. -/
theorem indifferent_spaces
    (holds : AddrSpaceManager → List SpaceId → Prop) :
    Indifferent (fun session : Session ρ =>
      holds session.arch.manager session.arch.inferPtrSpaces) :=
  fun _ _ hHolds => hHolds

/- With the hook of the base class, the guarantee holds. -/
theorem init_pointerSpaces
    (rounds : Nat)
    (initial : ρ)
    (session : Session ρ)
    (hInit :
      (init components postSpecFile rounds).run
        (start initial) = (.ok (), session)) :
    PointerSpaces session.arch.manager
      session.arch.inferPtrSpaces := by
  have hHook : ∀ translate manager spaces,
      Ensures (Noted (ρ := ρ) translate manager spaces)
        postSpecFile
        (fun _ session =>
          PointerSpaces session.arch.manager
            session.arch.inferPtrSpaces) := by
    intro translate manager spaces
    unfold postSpecFile
    apply change_ensures
    intro session arch _ hCache
    rcases cacheAddrSpaceProperties_pointerSpaces hCache with
      ⟨hManager, hSpaces⟩
    change PointerSpaces arch.manager arch.inferPtrSpaces
    rw [hManager]
    exact hSpaces
  rcases init_ensures hHook
      (fun _ _ => indifferent_spaces PointerSpaces) rounds
      (start initial) () session (blank_start initial) hInit with
    ⟨_, _, _, hSpaces⟩
  exact hSpaces

end Architecture

end LLDBGhidra
