import LLDBGhidra.Decompiler.ArchitectureParse

/-
  An initialization that succeeds has the spaces of its
  specifications, and notes the space of every global range.

  Main declarations:
    * `Architecture.Noted`
    * `Architecture.parseCompilerConfig_ensures`
    * `Architecture.restoreFromSpec_ensures`
    * `Architecture.init_ensures`
-/

------------------------------------------------------------
-- Noted Spaces
------------------------------------------------------------

namespace LLDBGhidra

namespace Architecture

open XmlDecode Effect

variable {ρ : Type}
variable {pExt : XmlDecode → Prop}
variable {translate : Translate}
variable {manager : AddrSpaceManager}
variable {store : DocumentStorage}
variable {components : Components ρ}
variable {spaces : List SpaceId}

/- The spaces so far, and those that are noted for pointers. -/
structure Noted
    (translate : Translate)
    (manager : AddrSpaceManager)
    (spaces : List SpaceId)
    (session : Session ρ) : Prop where
  translate : session.arch.translate = some translate
  manager : session.arch.manager = manager
  inferPtrSpaces : session.arch.inferPtrSpaces = spaces

theorem indifferent_noted :
    Indifferent (Noted (ρ := ρ) translate manager spaces) :=
  fun _ _ hNoted =>
    ⟨hNoted.translate, hNoted.manager, hNoted.inferPtrSpaces⟩

/- The space of a global range is noted. -/
theorem addToGlobalScope_ensures
    (props : RangeProperties) :
    Ensures (Noted (ρ := ρ) translate manager spaces)
      (change (addToGlobalScope props))
      (fun _ session => ∃ spaces',
        rangeSpace translate manager spaces props =
            .ok spaces' ∧
          Noted translate manager spaces' session) := by
  apply change_ensures
  intro session arch hNoted hArch
  unfold addToGlobalScope at hArch
  simp only [hNoted.translate, hNoted.manager] at hArch
  rcases exists_ok_of_bind_eq_ok hArch with
    ⟨range, hRange, hFound⟩
  cases hSpace : manager.getSpace range.spc with
  | none =>
      simp only [hSpace] at hFound
      cases hFound
  | some spc =>
      simp only [hSpace] at hFound
      cases hFound
      refine ⟨spaces ++ [range.spc], ?_, rfl, rfl, ?_⟩
      · unfold rangeSpace
        rw [hRange]
        rfl
      · change session.arch.inferPtrSpaces ++ [range.spc] = _
        rw [hNoted.inferPtrSpaces]

/- The ranges before `rest` are noted. -/
def RangesNoted
    (translate : Translate)
    (manager : AddrSpaceManager)
    (ranges rest : List RangeProperties)
    (session : Session ρ) : Prop :=
  ∃ front spaces,
    (ranges = front ++ rest ∧
      front.foldlM (rangeSpace translate manager) [] =
        .ok spaces) ∧
      Noted translate manager spaces session

theorem noteRange_ensures
    (ranges : List RangeProperties)
    (props : RangeProperties)
    (rest : List RangeProperties) :
    Ensures
      (RangesNoted (ρ := ρ) translate manager ranges
        (props :: rest))
      (change (addToGlobalScope props))
      (fun _ => RangesNoted translate manager ranges rest) := by
  apply Ensures.of_exists
  intro front
  apply Ensures.of_exists
  intro spaces
  apply Ensures.assuming
  intro hFront
  refine (addToGlobalScope_ensures props).mono
    (fun _ hNoted => hNoted) ?_
  intro _ session hAdded
  rcases hAdded with ⟨spaces', hSpace, hNoted⟩
  refine ⟨front ++ [props], spaces',
    ⟨?_, foldlM_concat hFront.2 hSpace⟩, hNoted⟩
  rw [hFront.1, List.append_assoc]
  rfl

theorem noteRanges_ensures
    (ranges : List RangeProperties) :
    Ensures (Noted (ρ := ρ) translate manager [])
      (Effect.forEach ranges (fun props =>
        change (addToGlobalScope props)))
      (fun _ session => ∃ spaces,
        ranges.foldlM (rangeSpace translate manager) [] =
            .ok spaces ∧
          Noted translate manager spaces session) := by
  have hLoop :
      Ensures
        (RangesNoted (ρ := ρ) translate manager ranges ranges)
        (Effect.forEach ranges (fun props =>
          change (addToGlobalScope props)))
        (fun _ => RangesNoted translate manager ranges []) := by
    apply Ensures.forEach
    exact noteRange_ensures ranges
  refine hLoop.mono
    (fun _ hNoted => ⟨[], [], ⟨rfl, rfl⟩, hNoted⟩) ?_
  intro _ session hAll
  rcases hAll with ⟨front, spaces, ⟨hFront, hFold⟩, hNoted⟩
  rw [List.append_nil] at hFront
  rw [hFront]
  exact ⟨spaces, hFold, hNoted⟩

/- The OTHER space becomes global, but is not noted. -/
theorem addOtherSpace_ensures :
    Ensures (Noted (ρ := ρ) translate manager spaces)
      (change addOtherSpace)
      (fun _ => Noted translate manager spaces) := by
  apply change_ensures
  intro session arch hNoted hArch
  unfold addOtherSpace at hArch
  split at hArch
  · cases hArch
  · split at hArch
    · split at hArch
      · cases hArch
      · cases hArch
        exact ⟨hNoted.translate, hNoted.manager,
          hNoted.inferPtrSpaces⟩
    · cases hArch
      exact ⟨hNoted.translate, hNoted.manager,
        hNoted.inferPtrSpaces⟩

/- The compiler adds its spaces, and then notes its ranges. -/
theorem parseCompilerConfig_ensures
    {p : XmlDecode → Prop}
    (rounds : Nat) :
    Ensures (Config p pExt translate manager store)
      (parseCompilerConfig components rounds)
      (fun _ session => ∃ el manager' spaces,
        (Components.document store "compiler_spec" = .ok el ∧
          el.children.foldlM (compilerSpace translate)
              manager = .ok manager' ∧
          (globalRangesOf el.children).foldlM
              (rangeSpace translate manager') [] =
            .ok spaces) ∧
          Noted translate manager' spaces session) := by
  unfold parseCompilerConfig
  refine Ensures.bind (openDocument_ensures (by decide) _) ?_
  intro _
  apply Ensures.of_exists
  intro el
  apply Ensures.assuming
  intro hDocument
  have hLoop :
      Ensures
        (AtChildren pExt translate store el el.children manager)
        (foldChildren Session.decoder
          (parseCompilerElement components rounds) rounds [])
        (fun ranges session => ∃ manager',
          (el.children.foldlM (compilerSpace translate)
              manager = .ok manager' ∧
            ranges = el.children.foldl addGlobalRanges []) ∧
            AtChildren pExt translate store el [] manager'
              session) := by
    apply parseChildren_ensures
    · intro iter manager session hConfig
      exact hConfig.decoder
    · intro manager ranges child iter
      exact parseCompilerElement_ensures rounds ranges
  refine Ensures.bind hLoop ?_
  intro ranges
  apply Ensures.of_exists
  intro manager'
  apply Ensures.assuming
  intro hFold
  rw [foldl_addGlobalRanges] at hFold
  refine Ensures.bind
    (onDecoder_ensures closeElement_ensures) ?_
  intro _
  refine Ensures.bind
    (parseExtensions_ensures rounds ranges) ?_
  intro ranges'
  apply Ensures.assuming
  intro hSame
  subst hSame
  refine Ensures.bind
    ((noteRanges_ensures ranges').mono
      (fun _ hConfig => ⟨hConfig.translate, hConfig.manager,
        hConfig.inferPtrSpaces⟩)
      (fun _ _ hNoted => hNoted)) ?_
  intro _
  apply Ensures.of_exists
  intro spaces
  apply Ensures.assuming
  intro hSpaces
  refine Ensures.bind addOtherSpace_ensures ?_
  intro _
  refine (Ensures.of_keeps
    (keeps_runPhase indifferent_noted .setDefaultModels)).mono
      (fun _ hNoted => hNoted) ?_
  intro _ session hNoted
  exact ⟨el, manager', spaces,
    ⟨hDocument, hFold.1, hFold.2 ▸ hSpaces⟩, hNoted⟩

end Architecture

end LLDBGhidra

------------------------------------------------------------
-- The Initialization
------------------------------------------------------------

namespace LLDBGhidra

namespace Architecture

open XmlDecode Effect

variable {ρ : Type}
variable {translate : Translate}
variable {store : DocumentStorage}
variable {components : Components ρ}

/- Nothing is restored yet. -/
structure Blank
    (session : Session ρ) : Prop where
  manager : session.arch.manager = .empty
  inferPtrSpaces : session.arch.inferPtrSpaces = []

/- The documents are loaded, and nothing is restored yet. -/
structure Loaded
    (store : DocumentStorage)
    (session : Session ρ) : Prop where
  blank : Blank session
  store : session.store = store

theorem indifferent_blank :
    Indifferent (Blank (ρ := ρ)) :=
  fun _ _ hBlank => ⟨hBlank.manager, hBlank.inferPtrSpaces⟩

theorem indifferent_loaded :
    Indifferent (Loaded (ρ := ρ) store) :=
  fun session components hLoaded =>
    ⟨indifferent_blank session components hLoaded.blank,
      hLoaded.store⟩

/- The spaces of a processor, and those of any architecture. -/
def installedSpaces
    (translate : Translate) :
    Except Halt AddrSpaceManager := do
  let manager ←
    AddrSpaceManager.empty.copySpaces translate.manager
  insertOwnSpaces translate.bigEndian manager

theorem installTranslate_ensures :
    Ensures (Loaded (ρ := ρ) store)
      (change (installTranslate translate))
      (fun _ session => ∃ manager,
        installedSpaces translate = .ok manager ∧
          Config (fun _ => True) (fun _ => True) translate
            manager store session) := by
  apply change_ensures
  intro session arch hLoaded hArch
  unfold installTranslate at hArch
  rw [hLoaded.blank.manager] at hArch
  rcases exists_ok_of_bind_eq_ok hArch with
    ⟨copied, hCopy, hRest⟩
  rcases exists_ok_of_bind_eq_ok hRest with
    ⟨manager, hOwn, hSame⟩
  cases hSame
  refine ⟨manager, ?_, True.intro, True.intro, rfl, rfl,
    hLoaded.blank.inferPtrSpaces, ?_⟩
  · unfold installedSpaces
    rw [hCopy]
    exact hOwn
  · intro nm _
    rw [hLoaded.store]

/-
  After the specifications are restored, the spaces are those
  of the specifications, and so are the noted ones.
-/
theorem restoreFromSpec_ensures
    (hDocuments : components.documents = .ok store)
    (rounds : Nat) :
    Ensures (Loaded store) (restoreFromSpec components rounds)
      (fun _ session => ∃ translate manager spaces,
        components.specSpaces = .ok (manager, spaces) ∧
          Noted translate manager spaces session) := by
  have hTranslator :
      Ensures (Loaded (ρ := ρ) store)
        (Effect.query (fun _ =>
          components.translator.mapError Halt.thrown))
        (fun translate session =>
          components.translator = .ok translate ∧
            Loaded store session) :=
    Ensures.query (fun _ _ hLoaded hRead =>
      ⟨ok_of_mapError_eq_ok hRead, hLoaded⟩)
  unfold restoreFromSpec
  refine Ensures.bind hTranslator ?_
  intro translate
  apply Ensures.assuming
  intro hTranslate
  refine Ensures.bind installTranslate_ensures ?_
  intro _
  apply Ensures.of_exists
  intro installed
  apply Ensures.assuming
  intro hInstalled
  refine Ensures.bind (Ensures.of_keeps
    (keeps_runPhase indifferent_config .initializeUserops)) ?_
  intro _
  refine Ensures.bind (Ensures.of_keeps
    (keeps_runPhase indifferent_config
      .buildPcodeInjectLibrary)) ?_
  intro _
  refine Ensures.bind (parseProcessorConfig_ensures rounds) ?_
  intro _
  apply Ensures.of_exists
  intro processor
  apply Ensures.of_exists
  intro processed
  apply Ensures.assuming
  intro hProcessor
  refine Ensures.bind (Ensures.of_keeps
    (keeps_runPhase indifferent_config
      .setDefaultFloatFormats)) ?_
  intro _
  refine Ensures.bind (parseCompilerConfig_ensures rounds) ?_
  intro _
  apply Ensures.of_exists
  intro compiler
  apply Ensures.of_exists
  intro manager
  apply Ensures.of_exists
  intro spaces
  apply Ensures.assuming
  intro hCompiler
  refine (Ensures.of_keeps
    (keeps_runPhase indifferent_noted .buildAction)).mono
      (fun _ hNoted => hNoted) ?_
  intro _ session hNoted
  refine ⟨translate, manager, spaces, ?_, hNoted⟩
  rcases exists_ok_of_bind_eq_ok hInstalled with
    ⟨copied, hCopy, hOwn⟩
  unfold Components.specSpaces
  simp only [hDocuments, hTranslate, Except.mapError, bind,
    Except.bind, hCopy, hOwn, hProcessor, hCompiler]

theorem buildSpecFile_ensures :
    Ensures Blank (buildSpecFile components)
      (fun _ session => ∃ store,
        components.documents = .ok store ∧
          Loaded store session) := by
  have hDocuments :
      Ensures (Blank (ρ := ρ))
        (Effect.query (fun _ =>
          components.documents.mapError Halt.thrown))
        (fun store session =>
          components.documents = .ok store ∧ Blank session) :=
    Ensures.query (fun _ _ hBlank hRead =>
      ⟨ok_of_mapError_eq_ok hRead, hBlank⟩)
  unfold buildSpecFile
  refine Ensures.bind hDocuments ?_
  intro store
  apply Ensures.assuming
  intro hStore
  apply Ensures.modify
  intro session hBlank
  exact ⟨store, hStore,
    ⟨hBlank.manager, hBlank.inferPtrSpaces⟩, rfl⟩

/-
  An initialization that succeeds has run its hook on the
  spaces of the specifications and the noted ones.
-/
theorem init_ensures
    {hook : Setup ρ Unit}
    {post :
      AddrSpaceManager → List SpaceId → Session ρ → Prop}
    (hHook : ∀ translate manager spaces,
      Ensures (Noted translate manager spaces) hook
        (fun _ => post manager spaces))
    (hPost : ∀ manager spaces,
      Indifferent (post manager spaces))
    (rounds : Nat) :
    Ensures Blank (init components hook rounds)
      (fun _ session => ∃ manager spaces,
        components.specSpaces = .ok (manager, spaces) ∧
          post manager spaces session) := by
  unfold init
  refine Ensures.bind
    (runPhases_ensures indifferent_blank _) ?_
  intro _
  refine Ensures.bind buildSpecFile_ensures ?_
  intro _
  apply Ensures.of_exists
  intro store
  apply Ensures.assuming
  intro hDocuments
  refine Ensures.bind
    (runPhases_ensures indifferent_loaded _) ?_
  intro _
  refine Ensures.bind
    (restoreFromSpec_ensures hDocuments rounds) ?_
  intro _
  apply Ensures.of_exists
  intro translate
  apply Ensures.of_exists
  intro manager
  apply Ensures.of_exists
  intro spaces
  apply Ensures.assuming
  intro hSpec
  refine Ensures.bind
    (runPhases_ensures indifferent_noted _) ?_
  intro _
  refine Ensures.bind (hHook translate manager spaces) ?_
  intro _
  refine (runPhases_ensures (hPost manager spaces) _).mono
    (fun _ hState => hState) ?_
  intro _ session hState
  exact ⟨manager, spaces, hSpec, hState⟩

end Architecture

end LLDBGhidra
