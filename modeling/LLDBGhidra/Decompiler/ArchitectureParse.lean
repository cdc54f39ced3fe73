import LLDBGhidra.Decompiler.ArchitectureSpec

/-
  The decoders of specifications do to the spaces what the
  elements that they pass say.

  Main declarations:
    * `Architecture.Config`
    * `Architecture.parseChildren_ensures`
    * `Architecture.parseProcessorConfig_ensures`
    * `Architecture.parseCompilerElement_ensures`
    * `Architecture.parseExtensions_ensures`
-/

------------------------------------------------------------
-- The State of a Configuration
------------------------------------------------------------

namespace LLDBGhidra

namespace Architecture

open XmlDecode Effect

variable {ρ α β : Type}
variable {p q pExt : XmlDecode → Prop}
variable {translate : Translate}
variable {manager : AddrSpaceManager}
variable {store : DocumentStorage}
variable {components : Components ρ}

/-
  While the specifications are parsed: where the decoders are,
  and the spaces so far.  No range has become global yet.
-/
structure Config
    (p pExt : XmlDecode → Prop)
    (translate : Translate)
    (manager : AddrSpaceManager)
    (store : DocumentStorage)
    (session : Session ρ) : Prop where
  decoder : p session.decoder
  decoderExt : pExt session.decoderExt
  translate : session.arch.translate = some translate
  manager : session.arch.manager = manager
  inferPtrSpaces : session.arch.inferPtrSpaces = []
  store : ∀ nm, nm ≠ "default_symbols" →
    session.store.getTag nm = store.getTag nm

/- It does not depend on the other components. -/
def Indifferent
    (pre : Session ρ → Prop) : Prop :=
  ∀ session components, pre session →
    pre { session with
      arch := { session.arch with components := components } }

theorem indifferent_config :
    Indifferent
      (Config (ρ := ρ) p pExt translate manager store) :=
  fun _ _ hConfig =>
    ⟨hConfig.decoder, hConfig.decoderExt, hConfig.translate,
      hConfig.manager, hConfig.inferPtrSpaces, hConfig.store⟩

theorem Config.mono
    {session : Session ρ}
    (hConfig : Config p pExt translate manager store session)
    (hDecoder : ∀ decoder, p decoder → q decoder) :
    Config q pExt translate manager store session :=
  { hConfig with decoder := hDecoder _ hConfig.decoder }

theorem onDecoder_ensures
    {effect : Decode α}
    {q : α → XmlDecode → Prop}
    (hEffect : Ensures p effect q) :
    Ensures (Config (ρ := ρ) p pExt translate manager store)
      (onDecoder effect)
      (fun value =>
        Config (q value) pExt translate manager store) := by
  apply Ensures.onPart
  intro session hConfig decoder value decoder' hDecoder hRun
  subst hDecoder
  exact { hConfig with
    decoder := hEffect _ _ _ hConfig.decoder hRun }

theorem onDecoderExt_ensures
    {effect : Decode α}
    {q : α → XmlDecode → Prop}
    (hEffect : Ensures pExt effect q) :
    Ensures (Config (ρ := ρ) p pExt translate manager store)
      (onDecoderExt effect)
      (fun value =>
        Config p (q value) translate manager store) := by
  apply Ensures.onPart
  intro session hConfig decoder value decoder' hDecoder hRun
  subst hDecoder
  exact { hConfig with
    decoderExt := hEffect _ _ _ hConfig.decoderExt hRun }

/- What is known of a decoder may be no fact about it. -/
theorem Config.assuming
    {fact : Prop}
    {effect : Setup ρ α}
    {post : α → Session ρ → Prop}
    (hEnsures : fact →
      Ensures (Config p pExt translate manager store) effect
        post) :
    Ensures
      (Config (fun decoder => fact ∧ p decoder) pExt translate
        manager store)
      effect post := by
  refine (Ensures.assuming hEnsures).mono ?_
    (fun _ _ hPost => hPost)
  intro session hConfig
  exact ⟨hConfig.decoder.1,
    hConfig.mono (fun _ hDecoder => hDecoder.2)⟩

theorem change_ensures
    {update : Architecture ρ → Except Halt (Architecture ρ)}
    {pre post : Session ρ → Prop}
    (hUpdate : ∀ session arch, pre session →
      update session.arch = .ok arch →
        post { session with arch := arch }) :
    Ensures pre (change update) (fun _ => post) := by
  unfold change
  refine Ensures.bind
    (Ensures.query (fun session arch hPre hArch =>
      ⟨hPre, hArch⟩ :
        ∀ session arch, pre session →
          update session.arch = .ok arch →
            pre session ∧ update session.arch = .ok arch)) ?_
  intro arch
  apply Ensures.modify
  intro session hState
  exact hUpdate session arch hState.1 hState.2

theorem keeps_changeComponents
    {update : AddrSpaceManager → ρ → Except Exn ρ}
    {pre : Session ρ → Prop}
    (hPre : Indifferent pre) :
    Keeps pre (changeComponents update) := by
  intro session hSession
  unfold changeComponents change
  rw [run_bind, run_query]
  cases hUpdate : update session.arch.manager
      session.arch.components with
  | error error =>
      simp only [hUpdate]
      exact hSession
  | ok components =>
      simp only [hUpdate]
      exact hPre session components hSession

theorem keeps_runPhase
    {pre : Session ρ → Prop}
    (hPre : Indifferent pre)
    (phase : Phase) :
    Keeps pre (runPhase components phase) := by
  unfold runPhase
  refine Keeps.bind (Keeps.gets _) ?_
  intro store
  exact keeps_changeComponents hPre

theorem runPhases_ensures
    {pre : Session ρ → Prop}
    (hPre : Indifferent pre)
    (phases : List Phase) :
    Ensures pre (Effect.forEach phases (runPhase components))
      (fun _ => pre) :=
  Ensures.of_keeps
    (Keeps.forEach (fun phase _ => keeps_runPhase hPre phase))

end Architecture

end LLDBGhidra

------------------------------------------------------------
-- Elements of a Processor
------------------------------------------------------------

namespace LLDBGhidra

namespace Architecture

open XmlDecode Effect

variable {ρ : Type}
variable {pExt : XmlDecode → Prop}
variable {translate : Translate}
variable {manager : AddrSpaceManager}
variable {store : DocumentStorage}
variable {components : Components ρ}
variable {el child : Element}
variable {iter : List Element}
variable {below : List Frame}

/- An element of another component is passed. -/
theorem decodeComponent_ensures
    {on : {α : Type} → Decode α → Setup ρ α}
    {conf : (XmlDecode → Prop) → Session ρ → Prop}
    (hOn : ∀ {α : Type} {p : XmlDecode → Prop}
      {effect : Decode α} {q : α → XmlDecode → Prop},
      Ensures p effect q →
        Ensures (conf p) (on effect)
          (fun value => conf (q value)))
    (hConf : ∀ p, Indifferent (conf p))
    (elemId : String) :
    Ensures (conf (Opened (⟨el, child :: iter⟩ :: below)))
      (decodeComponent components on elemId)
      (fun _ => conf (Opened (⟨el, iter⟩ :: below))) := by
  unfold decodeComponent
  refine Ensures.bind (hOn (openElementOf_ensures elemId)) ?_
  intro _
  refine Ensures.bind (hOn (getCurrentXmlElement_ensures
    (fun _ hOpened => hOpened.2.1))) ?_
  intro current
  refine Ensures.bind (hOn (closeElement_ensures.mono
    (fun _ hCurrent => hCurrent.2.2.1)
    (fun _ _ hClosed => hClosed))) ?_
  intro _
  exact Ensures.of_keeps (keeps_changeComponents (hConf _))

theorem skipElement_ensures :
    Ensures (Opened (⟨el, child :: iter⟩ :: below)) skipElement
      (fun _ => Opened (⟨el, iter⟩ :: below)) := by
  unfold skipElement
  refine Ensures.bind openElement_ensures ?_
  intro _
  apply Ensures.assuming
  intro _
  exact closeElement_ensures.mono (fun _ hAt => hAt.1)
    (fun _ _ hOpened => hOpened)

/- The spaces that are looked up are the ones so far. -/
theorem readSpaces_ensures
    {p : XmlDecode → Prop} :
    Ensures (Config (ρ := ρ) p pExt translate manager store)
      readSpaces
      (fun spaceOf session =>
        spaceOf = manager.spaceOf ∧
          Config p pExt translate manager store session) := by
  apply Ensures.gets
  intro session hConfig
  exact ⟨by rw [hConfig.manager], hConfig⟩

theorem changeManager_ensures
    {p : XmlDecode → Prop}
    (update : AddrSpaceManager → Except Halt AddrSpaceManager) :
    Ensures (Config (ρ := ρ) p pExt translate manager store)
      (changeManager update)
      (fun _ session => ∃ manager',
        update manager = .ok manager' ∧
          Config p pExt translate manager' store session) := by
  apply change_ensures
  intro session arch hConfig hArch
  rw [hConfig.manager] at hArch
  rcases exists_ok_of_bind_eq_ok hArch with
    ⟨manager', hUpdate, hSame⟩
  cases hSame
  exact ⟨manager', hUpdate, { hConfig with manager := rfl }⟩

theorem decodeDataSpace_ensures :
    Ensures
      (Config (ρ := ρ) (Opened (⟨el, child :: iter⟩ :: below))
        pExt translate manager store)
      decodeDataSpace
      (fun _ session => ∃ manager',
        dataSpace manager child = .ok manager' ∧
          Config (Opened (⟨el, iter⟩ :: below)) pExt translate
            manager' store session) := by
  unfold decodeDataSpace
  refine Ensures.bind (onDecoder_ensures openElement_ensures) ?_
  intro _
  apply Config.assuming
  intro _
  refine Ensures.bind readSpaces_ensures ?_
  intro spaceOf
  apply Ensures.assuming
  intro hSpaceOf
  refine Ensures.bind (onDecoder_ensures (readSpaceOf_ensures
    (fun _ hAt => hAt.1) spaceOf "space")) ?_
  intro space
  apply Config.assuming
  intro hRead
  rcases hRead with ⟨nm, hName, hSpace⟩
  refine Ensures.bind (onDecoder_ensures
    (closeElement_ensures.mono (fun _ hAt => hAt.1)
      (fun _ _ hClosed => hClosed))) ?_
  intro _
  refine (changeManager_ensures _).mono
    (fun _ hConfig => hConfig) ?_
  intro _ session hChanged
  rcases hChanged with ⟨manager', hUpdate, hConfig⟩
  refine ⟨manager', ?_, hConfig⟩
  subst hSpaceOf
  unfold dataSpace
  rw [hName]
  change (do
    let spc ← findSpace manager.spaceOf nm
    manager.setDefaultDataSpace spc) = _
  rw [hSpace]
  exact hUpdate

/- The default symbols are no document of the specifications. -/
theorem registerTag_ensures
    {p : XmlDecode → Prop}
    (hName : child.name = "default_symbols") :
    Ensures (Config (ρ := ρ) p pExt translate manager store)
      (Effect.modify (fun session =>
        { session with
          store := session.store.registerTag child }) :
        Setup ρ Unit)
      (fun _ => Config p pExt translate manager store) := by
  apply Ensures.modify
  intro session hConfig
  refine { hConfig with store := ?_ }
  intro nm hOther
  change (session.store.registerTag child).getTag nm = _
  rw [DocumentStorage.getTag_registerTag_ne (hName ▸ hOther)]
  exact hConfig.store nm hOther

theorem registerDefaultSymbols_ensures
    (hName : child.name = "default_symbols") :
    Ensures
      (Config (ρ := ρ) (Opened (⟨el, child :: iter⟩ :: below))
        pExt translate manager store)
      registerDefaultSymbols
      (fun _ => Config (Opened (⟨el, iter⟩ :: below)) pExt
        translate manager store) := by
  unfold registerDefaultSymbols
  refine Ensures.bind (onDecoder_ensures openElement_ensures) ?_
  intro _
  apply Config.assuming
  intro _
  refine Ensures.bind (onDecoder_ensures
    (getCurrentXmlElement_ensures (fun _ hAt => hAt.1))) ?_
  intro current
  apply Config.assuming
  intro hCurrent
  refine Ensures.bind
    (registerTag_ensures (hCurrent ▸ hName)) ?_
  intro _
  exact onDecoder_ensures (closeElement_ensures.mono
    (fun _ hAt => hAt.1) (fun _ _ hClosed => hClosed))

/- An element that says nothing of the spaces. -/
theorem processorSpace_of_ne
    (hName : child.name ≠ "data_space") :
    processorSpace manager child = .ok manager := by
  unfold processorSpace
  rw [if_neg hName]

/- Each element of a processor does to the spaces what it says. -/
theorem decodeProcessorElement_ensures :
    Ensures
      (Config (Opened (⟨el, child :: iter⟩ :: below)) pExt
        translate manager store)
      (decodeProcessorElement components child.name)
      (fun _ session => ∃ manager',
        processorSpace manager child = .ok manager' ∧
          Config (Opened (⟨el, iter⟩ :: below)) pExt translate
            manager' store session) := by
  have hKept : child.name ≠ "data_space" →
      ∀ session : Session ρ,
        Config (Opened (⟨el, iter⟩ :: below)) pExt translate
          manager store session →
          ∃ manager', processorSpace manager child =
              .ok manager' ∧
            Config (Opened (⟨el, iter⟩ :: below)) pExt
              translate manager' store session :=
    fun hName _ hConfig =>
      ⟨manager, processorSpace_of_ne hName, hConfig⟩
  unfold decodeProcessorElement
  apply Ensures.ite
  · intro hSkipped
    have hName : child.name ≠ "data_space" :=
      ne_of_mem_of_not_mem hSkipped (by decide)
    exact (onDecoder_ensures skipElement_ensures).mono
      (fun _ hConfig => hConfig) (fun _ => hKept hName)
  intro _
  apply Ensures.ite
  · intro hComponent
    have hName : child.name ≠ "data_space" :=
      ne_of_mem_of_not_mem hComponent (by decide)
    exact (decodeComponent_ensures onDecoder_ensures
      (fun _ => indifferent_config) child.name).mono
        (fun _ hConfig => hConfig) (fun _ => hKept hName)
  intro _
  apply Ensures.ite
  · intro hName
    unfold processorSpace
    rw [if_pos hName]
    exact decodeDataSpace_ensures
  intro hName
  apply Ensures.ite
  · intro hSymbols
    exact (registerDefaultSymbols_ensures hSymbols).mono
      (fun _ hConfig => hConfig) (fun _ => hKept hName)
  · intro _
    exact Ensures.throw _

end Architecture

end LLDBGhidra

------------------------------------------------------------
-- Documents
------------------------------------------------------------

namespace LLDBGhidra

namespace Architecture

open XmlDecode Effect

variable {ρ γ : Type}
variable {pExt : XmlDecode → Prop}
variable {translate : Translate}
variable {manager : AddrSpaceManager}
variable {store : DocumentStorage}
variable {components : Components ρ}
variable {el : Element}
variable {step :
  AddrSpaceManager → Element → Except Halt AddrSpaceManager}
variable {next : γ → Element → γ}

/- A document that is loaded is opened at its root. -/
theorem openDocument_ensures
    {p : XmlDecode → Prop}
    {tag : String}
    (hTag : tag ≠ "default_symbols")
    (missing : String) :
    Ensures (Config (ρ := ρ) p pExt translate manager store)
      (openDocument tag missing)
      (fun _ session => ∃ el,
        Components.document store tag = .ok el ∧
          Config (Opened [⟨el, el.children⟩]) pExt translate
            manager store session) := by
  have hRead :
      Ensures (Config (ρ := ρ) p pExt translate manager store)
        (Effect.gets (fun session => session.store.getTag tag) :
          Setup ρ (Option Element))
        (fun el? session =>
          store.getTag tag = el? ∧
            Config p pExt translate manager store session) :=
    Ensures.gets (fun _ hConfig =>
      ⟨(hConfig.store tag hTag).symm, hConfig⟩)
  unfold openDocument
  refine Ensures.bind hRead ?_
  intro el?
  apply Ensures.assuming
  intro hFound
  cases el? with
  | none => exact Ensures.throw _
  | some el =>
      have hAtRoot :
          Ensures
            (Config (ρ := ρ) p pExt translate manager store)
            (Effect.modify (fun session =>
              { session with decoder := .ofRoot (some el) }) :
              Setup ρ Unit)
            (fun _ =>
              Config (fun decoder => decoder = ofRoot (some el))
                pExt translate manager store) :=
        Ensures.modify (fun _ hConfig =>
          { hConfig with decoder := rfl })
      refine Ensures.bind hAtRoot ?_
      intro _
      refine (onDecoder_ensures (openElementOf_root tag)).mono
        (fun _ hConfig => hConfig) ?_
      intro _ session hConfig
      refine ⟨el, ?_, hConfig⟩
      unfold Components.document
      rw [hFound]

/- A document is open, with the children that are left. -/
def AtChildren
    (pExt : XmlDecode → Prop)
    (translate : Translate)
    (store : DocumentStorage)
    (el : Element)
    (iter : List Element)
    (manager : AddrSpaceManager) : Session ρ → Prop :=
  Config (Opened [⟨el, iter⟩]) pExt translate manager store

/-
  What one child does: it is passed, with its step, or nothing
  at all is done.
-/
def Passed
    (step :
      AddrSpaceManager → Element → Except Halt AddrSpaceManager)
    (next : γ → Element → γ)
    (conf :
      List Element → AddrSpaceManager → Session ρ → Prop)
    (manager : AddrSpaceManager)
    (result : γ)
    (child : Element)
    (iter : List Element)
    (result' : γ)
    (session : Session ρ) : Prop :=
  (∃ manager',
    (step manager child = .ok manager' ∧
      result' = next result child) ∧
      conf iter manager' session) ∨
    result' = result ∧ conf (child :: iter) manager session

/- The children before `iter` are passed, each with its step. -/
def Parsed
    (step :
      AddrSpaceManager → Element → Except Halt AddrSpaceManager)
    (next : γ → Element → γ)
    (conf :
      List Element → AddrSpaceManager → Session ρ → Prop)
    (el : Element)
    (manager : AddrSpaceManager)
    (start result : γ)
    (iter : List Element)
    (session : Session ρ) : Prop :=
  ∃ front manager',
    (el.children = front ++ iter ∧
      front.foldlM step manager = .ok manager' ∧
      result = front.foldl next start) ∧
      conf iter manager' session

variable {conf :
  List Element → AddrSpaceManager → Session ρ → Prop}

theorem parsed_of_passed
    {front iter : List Element}
    {child : Element}
    {manager' : AddrSpaceManager}
    {start result result' : γ}
    {session : Session ρ}
    (hChildren : el.children = front ++ child :: iter)
    (hFront : front.foldlM step manager = .ok manager')
    (hResult : result = front.foldl next start)
    (hPassed :
      Passed step next conf manager' result child iter result'
        session) :
    ∃ iter',
      Parsed step next conf el manager start result' iter'
        session := by
  rcases hPassed with
    ⟨manager'', ⟨hStep, hNext⟩, hConf⟩ | ⟨hSame, hConf⟩
  · refine ⟨iter, front ++ [child], manager'',
      ⟨?_, foldlM_concat hFront hStep, ?_⟩, hConf⟩
    · rw [hChildren, List.append_assoc]
      rfl
    · rw [hNext, hResult, List.foldl_append]
      rfl
  · exact ⟨child :: iter, front, manager',
      ⟨hChildren, hFront, hSame.trans hResult⟩, hConf⟩

/- The loop of a document ends with all children passed. -/
theorem parseChildren_ensures
    {decoderOf : Session ρ → XmlDecode}
    {body : γ → String → Setup ρ γ}
    (hOpened : ∀ iter manager session,
      conf iter manager session →
        Opened [⟨el, iter⟩] (decoderOf session))
    (hBody : ∀ manager result child iter,
      Ensures (conf (child :: iter) manager)
        (body result child.name)
        (Passed step next conf manager result child iter))
    (rounds : Nat)
    (start : γ) :
    Ensures (conf el.children manager)
      (foldChildren decoderOf body rounds start)
      (fun result session => ∃ manager',
        (el.children.foldlM step manager = .ok manager' ∧
          result = el.children.foldl next start) ∧
          conf [] manager' session) := by
  have hLoop :
      Ensures
        (Parsed step next conf el manager start start
          el.children)
        (foldChildren decoderOf body rounds start)
        (fun result =>
          Parsed step next conf el manager start result []) := by
    apply foldChildren_ensures
    · intro result iter session hParsed
      rcases hParsed with ⟨front, manager', _, hConf⟩
      exact ⟨el, [], hOpened iter manager' session hConf⟩
    · intro result child iter
      apply Ensures.of_exists
      intro front
      apply Ensures.of_exists
      intro manager'
      apply Ensures.assuming
      intro hFront
      exact (hBody manager' result child iter).mono
        (fun _ hConf => hConf)
        (fun _ _ hPassed =>
          parsed_of_passed hFront.1 hFront.2.1 hFront.2.2
            hPassed)
  refine hLoop.mono
    (fun _ hConf => ⟨[], manager, ⟨rfl, rfl, rfl⟩, hConf⟩) ?_
  intro result session hParsed
  rcases hParsed with
    ⟨front, manager', ⟨hChildren, hFold, hResult⟩, hConf⟩
  rw [List.append_nil] at hChildren
  rw [hChildren]
  exact ⟨manager', ⟨hFold, hResult⟩, hConf⟩

/- The processor modifies the spaces as its document says. -/
theorem parseProcessorConfig_ensures
    {p : XmlDecode → Prop}
    (rounds : Nat) :
    Ensures (Config p pExt translate manager store)
      (parseProcessorConfig components rounds)
      (fun _ session => ∃ el manager',
        (Components.document store "processor_spec" = .ok el ∧
          el.children.foldlM processorSpace manager =
            .ok manager') ∧
          Config (Opened []) pExt translate manager' store
            session) := by
  unfold parseProcessorConfig
  refine Ensures.bind (openDocument_ensures (by decide) _) ?_
  intro _
  apply Ensures.of_exists
  intro el
  apply Ensures.assuming
  intro hDocument
  have hLoop :
      Ensures
        (AtChildren pExt translate store el el.children manager)
        (foldChildren Session.decoder
          (fun _ subId =>
            decodeProcessorElement components subId)
          rounds ())
        (fun result session => ∃ manager',
          (el.children.foldlM processorSpace manager =
              .ok manager' ∧
            result = el.children.foldl (fun _ _ => ()) ()) ∧
            AtChildren pExt translate store el [] manager'
              session) := by
    apply parseChildren_ensures
    · intro iter manager session hConfig
      exact hConfig.decoder
    · intro manager result child iter
      refine decodeProcessorElement_ensures.mono
        (fun _ hConfig => hConfig) ?_
      intro _ session hElement
      rcases hElement with ⟨manager', hStep, hConfig⟩
      exact Or.inl ⟨manager', ⟨hStep, rfl⟩, hConfig⟩
  refine Ensures.bind hLoop ?_
  intro _
  apply Ensures.of_exists
  intro manager'
  apply Ensures.assuming
  intro hFold
  refine (onDecoder_ensures closeElement_ensures).mono
    (fun _ hConfig => hConfig) ?_
  intro _ session hConfig
  exact ⟨el, manager', ⟨hDocument, hFold.1⟩, hConfig⟩

end Architecture

end LLDBGhidra

------------------------------------------------------------
-- Elements of a Compiler
------------------------------------------------------------

namespace LLDBGhidra

namespace Architecture

open XmlDecode Effect

variable {ρ : Type}
variable {p pExt : XmlDecode → Prop}
variable {translate : Translate}
variable {manager : AddrSpaceManager}
variable {store : DocumentStorage}
variable {components : Components ρ}
variable {el child : Element}
variable {iter : List Element}
variable {below : List Frame}

theorem StackPointer.readsAttribute_decodeAttribute
    (spaceOf : String → Option SpaceId) :
    ReadsAttribute (StackPointer.applyAttribute spaceOf)
      (StackPointer.decodeAttribute spaceOf) := by
  intro pointer attr decoder hCurrent
  have hString := readString_ensures hCurrent
  unfold StackPointer.decodeAttribute
    StackPointer.applyAttribute
  by_cases hJustify : attr.1 = "reversejustify"
  · simp only [hJustify, if_true]
    have hBool :
        Ensures (fun decoder' => decoder' = decoder) readBool
          (fun _ decoder' => decoder' = decoder) :=
      read_bind_ensures hString
        (Ensures.pure (fun _ hSame => hSame))
    refine Ensures.bind hBool ?_
    intro _
    exact Ensures.pure (fun _ hSame => ⟨rfl, hSame⟩)
  simp only [hJustify, if_false]
  by_cases hGrowth : attr.1 = "growth"
  · simp only [hGrowth, if_true]
    refine read_bind_ensures hString ?_
    exact Ensures.pure (fun _ hSame => ⟨rfl, hSame⟩)
  simp only [hGrowth, if_false]
  by_cases hSpace : attr.1 = "space"
  · simp only [hSpace, if_true]
    have hFind :
        Ensures (fun decoder' => decoder' = decoder)
          (Effect.query (fun _ => findSpace spaceOf attr.2))
          (fun basespace decoder' =>
            findSpace spaceOf attr.2 = .ok basespace ∧
              decoder' = decoder) :=
      Ensures.query (fun _ _ hSame hFound => ⟨hFound, hSame⟩)
    unfold readSpace
    refine Ensures.bind (read_bind_ensures hString hFind) ?_
    intro basespace
    apply Ensures.assuming
    intro hFound
    apply Ensures.pure
    intro decoder' hSame
    rw [hFound]
    exact ⟨rfl, hSame⟩
  simp only [hSpace, if_false]
  by_cases hRegister : attr.1 = "register"
  · simp only [hRegister, if_true]
    refine read_bind_ensures hString ?_
    exact Ensures.pure (fun _ hSame => ⟨rfl, hSame⟩)
  simp only [hRegister, if_false]
  exact Ensures.pure (fun _ hSame => ⟨rfl, hSame⟩)

theorem getRegister_ensures
    (nm : String) :
    Ensures (Config (ρ := ρ) p pExt translate manager store)
      (getRegister nm)
      (fun point session =>
        (translate.getRegister nm).mapError Halt.thrown =
            .ok point ∧
          Config p pExt translate manager store session) := by
  unfold getRegister
  apply Ensures.query
  intro session point hConfig hRead
  rw [hConfig.translate] at hRead
  exact ⟨hRead, hConfig⟩

theorem addSpacebase_ensures
    (basespace : SpaceId)
    (nm : String)
    (ptrdata : VarnodeData)
    (truncSize : Nat) :
    Ensures (Config (ρ := ρ) p pExt translate manager store)
      (addSpacebase basespace nm ptrdata truncSize)
      (fun _ session => ∃ manager',
        manager.addSpacebase translate basespace nm ptrdata
            truncSize = .ok manager' ∧
          Config p pExt translate manager' store session) := by
  unfold addSpacebase
  apply change_ensures
  intro session arch hConfig hArch
  simp only [hConfig.translate, hConfig.manager] at hArch
  rcases exists_ok_of_bind_eq_ok hArch with
    ⟨manager', hAdd, hSame⟩
  cases hSame
  exact ⟨manager', hAdd, { hConfig with
    translate := rfl
    manager := rfl }⟩

/- The stack, once its attributes are read. -/
theorem addStack_ensures
    {frame : Frame}
    (basespace : SpaceId)
    (registerName : String) :
    Ensures
      (Config (ρ := ρ) (Opened (frame :: below)) pExt translate
        manager store)
      (addStack basespace registerName)
      (fun _ session => ∃ point manager',
        ((translate.getRegister registerName).mapError
            Halt.thrown = .ok point ∧
          manager.addSpacebase translate basespace "stack"
              point (manager.truncatedSize basespace point) =
            .ok manager') ∧
          Config (Opened below) pExt translate manager' store
            session) := by
  unfold addStack
  refine Ensures.bind (getRegister_ensures registerName) ?_
  intro point
  apply Ensures.assuming
  intro hPoint
  refine Ensures.bind
    (onDecoder_ensures closeElement_ensures) ?_
  intro _
  refine Ensures.bind (Ensures.gets_read _) ?_
  intro truncSize session value session' hState hRun
  rcases hState with ⟨hSize, hConfig⟩
  rw [hConfig.manager] at hSize
  subst hSize
  rcases addSpacebase_ensures basespace "stack" point _ session
      value session' hConfig hRun with
    ⟨manager', hAdd, hConfig'⟩
  exact ⟨point, manager', ⟨hPoint, hAdd⟩, hConfig'⟩

theorem decodeStackPointer_ensures
    (rounds : Nat) :
    Ensures
      (Config (ρ := ρ) (Opened (⟨el, child :: iter⟩ :: below))
        pExt translate manager store)
      (decodeStackPointer rounds)
      (fun _ session => ∃ manager',
        stackSpace translate manager child = .ok manager' ∧
          Config (Opened (⟨el, iter⟩ :: below)) pExt translate
            manager' store session) := by
  unfold decodeStackPointer
  refine Ensures.bind (onDecoder_ensures
    (openElementOf_ensures "stackpointer")) ?_
  intro _
  apply Config.assuming
  intro _
  refine Ensures.bind readSpaces_ensures ?_
  intro spaceOf
  apply Ensures.assuming
  intro hSpaceOf
  subst hSpaceOf
  refine Ensures.bind (onDecoder_ensures
    (foldAttributes_ensures
      (StackPointer.readsAttribute_decodeAttribute
        manager.spaceOf) rounds ⟨none, ""⟩)) ?_
  intro pointer
  apply Config.assuming
  intro hPointer
  cases hBase : pointer.basespace with
  | none => exact Ensures.throw _
  | some basespace =>
      refine (addStack_ensures basespace
        pointer.registerName).mono
          (fun _ hConfig => hConfig) ?_
      intro _ session hAdded
      rcases hAdded with
        ⟨point, manager', ⟨hPoint, hAdd⟩, hConfig⟩
      refine ⟨manager', ?_, hConfig⟩
      unfold stackSpace
      simp only [hPointer, bind, Except.bind, hBase, hPoint]
      exact hAdd

theorem decodeSpacebase_ensures :
    Ensures
      (Config (ρ := ρ) (Opened (⟨el, child :: iter⟩ :: below))
        pExt translate manager store)
      decodeSpacebase
      (fun _ session => ∃ manager',
        indexedSpace translate manager child = .ok manager' ∧
          Config (Opened (⟨el, iter⟩ :: below)) pExt translate
            manager' store session) := by
  unfold decodeSpacebase
  refine Ensures.bind (onDecoder_ensures
    (openElementOf_ensures "spacebase")) ?_
  intro _
  apply Config.assuming
  intro _
  refine Ensures.bind (onDecoder_ensures
    (readStringOf_ensures (fun _ hAt => hAt.1) "name")) ?_
  intro nameString
  apply Config.assuming
  intro hName
  refine Ensures.bind (onDecoder_ensures
    (readStringOf_ensures (fun _ hAt => hAt.1) "register")) ?_
  intro registerName
  apply Config.assuming
  intro hRegister
  refine Ensures.bind readSpaces_ensures ?_
  intro spaceOf
  apply Ensures.assuming
  intro hSpaceOf
  subst hSpaceOf
  refine Ensures.bind (onDecoder_ensures (readSpaceOf_ensures
    (fun _ hAt => hAt.1) manager.spaceOf "space")) ?_
  intro basespace
  apply Config.assuming
  intro hRead
  rcases hRead with ⟨nm, hSpace, hFound⟩
  refine Ensures.bind (onDecoder_ensures
    (closeElement_ensures.mono (fun _ hAt => hAt.1)
      (fun _ _ hClosed => hClosed))) ?_
  intro _
  refine Ensures.bind (getRegister_ensures registerName) ?_
  intro point
  apply Ensures.assuming
  intro hPoint
  refine (addSpacebase_ensures basespace nameString point
    point.size.toNat).mono (fun _ hConfig => hConfig) ?_
  intro _ session hAdded
  rcases hAdded with ⟨manager', hAdd, hConfig⟩
  refine ⟨manager', ?_, hConfig⟩
  unfold indexedSpace
  simp only [hName, hRegister, hSpace, hFound, hPoint, bind,
    Except.bind]
  exact hAdd

/- The alignment of function pointers is no space. -/
theorem decodeFuncPtrAlign_ensures :
    Ensures
      (Config (ρ := ρ) (Opened (⟨el, child :: iter⟩ :: below))
        pExt translate manager store)
      decodeFuncPtrAlign
      (fun _ => Config (Opened (⟨el, iter⟩ :: below)) pExt
        translate manager store) := by
  unfold decodeFuncPtrAlign
  refine Ensures.bind (onDecoder_ensures
    (openElementOf_ensures "funcptr")) ?_
  intro _
  apply Config.assuming
  intro _
  refine Ensures.bind (onDecoder_ensures
    (readSignedIntegerOf_ensures (fun _ hAt => hAt.1)
      "align")) ?_
  intro value
  refine Ensures.bind (onDecoder_ensures
    (closeElement_ensures.mono (fun _ hAt => hAt.1)
      (fun _ _ hClosed => hClosed))) ?_
  intro _
  apply change_ensures
  intro session arch hConfig hArch
  cases hArch
  exact { hConfig with manager := hConfig.manager }

/- The elements of a compiler that are no spaces. -/
theorem compilerSpace_of_ne
    (hStack : child.name ≠ "stackpointer")
    (hIndexed : child.name ≠ "spacebase") :
    compilerSpace translate manager child = .ok manager := by
  unfold compilerSpace
  rw [if_neg hStack, if_neg hIndexed]

/-
  An element of a compiler does to the spaces what it says, or
  is not passed.
-/
theorem decodeCompilerElement_ensures
    (rounds : Nat) :
    Ensures
      (AtChildren pExt translate store el (child :: iter)
        manager)
      (decodeCompilerElement components rounds child.name)
      (fun _ session =>
        (∃ manager',
          compilerSpace translate manager child =
              .ok manager' ∧
            AtChildren pExt translate store el iter manager'
              session) ∨
          AtChildren pExt translate store el (child :: iter)
            manager session) := by
  have hKept : child.name ≠ "stackpointer" →
      child.name ≠ "spacebase" →
        ∀ session : Session ρ,
          AtChildren pExt translate store el iter manager
            session →
            ∃ manager',
              compilerSpace translate manager child =
                  .ok manager' ∧
                AtChildren pExt translate store el iter manager'
                  session :=
    fun hStack hIndexed _ hConfig =>
      ⟨manager, compilerSpace_of_ne hStack hIndexed, hConfig⟩
  unfold decodeCompilerElement
  apply Ensures.ite
  · intro hComponent
    have hStack : child.name ≠ "stackpointer" :=
      ne_of_mem_of_not_mem hComponent (by decide)
    have hIndexed : child.name ≠ "spacebase" :=
      ne_of_mem_of_not_mem hComponent (by decide)
    exact (decodeComponent_ensures onDecoder_ensures
      (fun _ => indifferent_config) child.name).mono
        (fun _ hConfig => hConfig)
        (fun _ session hConfig =>
          Or.inl (hKept hStack hIndexed session hConfig))
  intro _
  apply Ensures.ite
  · intro hStack
    unfold compilerSpace
    rw [if_pos hStack]
    exact (decodeStackPointer_ensures rounds).mono
      (fun _ hConfig => hConfig)
      (fun _ _ hPassed => Or.inl hPassed)
  intro hStack
  apply Ensures.ite
  · intro hIndexed
    unfold compilerSpace
    rw [if_neg hStack, if_pos hIndexed]
    exact decodeSpacebase_ensures.mono
      (fun _ hConfig => hConfig)
      (fun _ _ hPassed => Or.inl hPassed)
  intro hIndexed
  apply Ensures.ite
  · intro _
    exact decodeFuncPtrAlign_ensures.mono
      (fun _ hConfig => hConfig)
      (fun _ session hConfig =>
        Or.inl (hKept hStack hIndexed session hConfig))
  · intro _
    exact Ensures.pure (fun _ hConfig => Or.inr hConfig)

/- The ranges of one more element. -/
def addGlobalRanges
    (ranges : List RangeProperties)
    (child : Element) : List RangeProperties :=
  ranges ++
    if child.name = "global" then
      child.children.map RangeProperties.ofElement
    else
      []

theorem foldl_addGlobalRanges
    (children : List Element) :
    children.foldl addGlobalRanges [] =
      globalRangesOf children := by
  induction children using List.reverseRecOn with
  | nil => rfl
  | append_singleton children child ih =>
      rw [List.foldl_append, ih, globalRangesOf_concat]
      rfl

theorem parseCompilerElement_ensures
    (rounds : Nat)
    (globalRanges : List RangeProperties) :
    Ensures
      (AtChildren pExt translate store el (child :: iter)
        manager)
      (parseCompilerElement components rounds globalRanges
        child.name)
      (Passed (compilerSpace translate) addGlobalRanges
        (AtChildren pExt translate store el) manager
        globalRanges child iter) := by
  unfold parseCompilerElement
  apply Ensures.ite
  · intro hName
    refine (onDecoder_ensures
      (decodeGlobal_ensures rounds globalRanges)).mono
        (fun _ hConfig => hConfig) ?_
    intro ranges session hConfig
    rcases hConfig.decoder with ⟨hRanges, hDecoder⟩
    refine Or.inl ⟨manager, ⟨compilerSpace_of_ne ?_ ?_, ?_⟩,
      { hConfig with decoder := hDecoder }⟩
    · rw [hName]
      decide
    · rw [hName]
      decide
    · unfold addGlobalRanges
      rw [if_pos hName]
      exact hRanges
  · intro hName
    refine Ensures.bind
      (decodeCompilerElement_ensures rounds) ?_
    intro _
    apply Ensures.pure
    intro session hElement
    cases hElement with
    | inl hPassed =>
        rcases hPassed with ⟨manager', hStep, hConfig⟩
        refine Or.inl ⟨manager', ⟨hStep, ?_⟩, hConfig⟩
        unfold addGlobalRanges
        rw [if_neg hName, List.append_nil]
    | inr hConfig => exact Or.inr ⟨rfl, hConfig⟩

end Architecture

end LLDBGhidra

------------------------------------------------------------
-- Extensions
------------------------------------------------------------

namespace LLDBGhidra

namespace Architecture

open XmlDecode Effect

variable {ρ : Type}
variable {pExt : XmlDecode → Prop}
variable {translate : Translate}
variable {manager : AddrSpaceManager}
variable {store : DocumentStorage}
variable {components : Components ρ}
variable {el child : Element}
variable {iter : List Element}

/- A decoder that is done has no element for a component. -/
theorem decodeComponent_exhausted
    (elemId : String) :
    Ensures
      (Config (Opened []) pExt translate manager store)
      (decodeComponent components onDecoder elemId)
      (fun _ _ => False) := by
  unfold decodeComponent
  refine Ensures.bind
    ((onDecoder_ensures (openElementOf_exhausted elemId)).mono
      (fun _ hConfig => hConfig)
      (fun _ _ hConfig => hConfig.decoder)) ?_
  intro _
  exact Ensures.of_false

theorem decodeGlobal_exhausted
    (rounds : Nat)
    (rangeProps : List RangeProperties) :
    Ensures (Opened []) (decodeGlobal rounds rangeProps)
      (fun _ _ => False) := by
  unfold decodeGlobal
  refine Ensures.bind (openElementOf_exhausted "global") ?_
  intro _
  exact Ensures.of_false

/- The first decoder is done, the other is at its children. -/
def AtExtension
    (translate : Translate)
    (manager : AddrSpaceManager)
    (store : DocumentStorage)
    (el : Element)
    (iter : List Element) : Session ρ → Prop :=
  Config (Opened []) (Opened [⟨el, iter⟩]) translate manager
    store

theorem decodeExtensionElement_ensures :
    Ensures
      (AtExtension translate manager store el (child :: iter))
      (decodeExtensionElement components child.name)
      (fun _ session => ∃ iter',
        AtExtension translate manager store el iter'
          session) := by
  unfold decodeExtensionElement
  apply Ensures.ite
  · intro _
    exact (decodeComponent_ensures onDecoderExt_ensures
      (fun _ => indifferent_config) child.name).mono
        (fun _ hConfig => hConfig)
        (fun _ _ hConfig => ⟨iter, hConfig⟩)
  intro _
  apply Ensures.ite
  · intro _
    exact (decodeComponent_exhausted child.name).mono
      (fun _ hConfig => hConfig)
      (fun _ _ hFalse => hFalse.elim)
  · intro _
    exact Ensures.pure (fun _ hConfig =>
      ⟨child :: iter, hConfig⟩)

/- The ranges are those from before the extension. -/
def ExtensionRead
    (translate : Translate)
    (manager : AddrSpaceManager)
    (store : DocumentStorage)
    (el : Element)
    (globalRanges ranges : List RangeProperties)
    (iter : List Element)
    (session : Session ρ) : Prop :=
  ranges = globalRanges ∧
    AtExtension translate manager store el iter session

/- No element of an extension adds to the global ranges. -/
theorem parseExtensionElement_ensures
    (rounds : Nat)
    (globalRanges ranges : List RangeProperties) :
    Ensures
      (ExtensionRead translate manager store el globalRanges
        ranges (child :: iter))
      (parseExtensionElement components rounds ranges
        child.name)
      (fun ranges' session => ∃ iter',
        ExtensionRead translate manager store el globalRanges
          ranges' iter' session) := by
  unfold parseExtensionElement
  apply Ensures.ite
  · intro _
    exact (onDecoder_ensures
      (decodeGlobal_exhausted rounds ranges)).mono
        (fun _ hRead => hRead.2)
        (fun _ _ hConfig => hConfig.decoder.elim)
  · intro _
    apply Ensures.assuming
    intro hRanges
    refine Ensures.bind decodeExtensionElement_ensures ?_
    intro _
    apply Ensures.pure
    intro session hElement
    rcases hElement with ⟨iter', hConfig⟩
    exact ⟨iter', hRanges, hConfig⟩

theorem parseExtensionChildren_ensures
    (rounds : Nat)
    (globalRanges : List RangeProperties) :
    Ensures
      (ExtensionRead translate manager store el globalRanges
        globalRanges el.children)
      (foldChildren Session.decoderExt
        (parseExtensionElement components rounds) rounds
        globalRanges)
      (fun ranges =>
        ExtensionRead translate manager store el globalRanges
          ranges []) := by
  apply foldChildren_ensures
  · intro _ iter session hRead
    exact ⟨el, [], hRead.2.decoderExt⟩
  · intro ranges child iter
    exact parseExtensionElement_ensures rounds globalRanges
      ranges

/- What is known of an extension is not needed further on. -/
theorem Config.forgetExt
    {p : XmlDecode → Prop}
    {session : Session ρ}
    (hConfig : Config p pExt translate manager store session) :
    Config p (fun _ => True) translate manager store session :=
  { hConfig with decoderExt := True.intro }

/- The configuration of the user leaves the ranges as they are. -/
theorem parseExtensions_ensures
    (rounds : Nat)
    (globalRanges : List RangeProperties) :
    Ensures
      (Config (Opened []) pExt translate manager store)
      (parseExtensions components rounds globalRanges)
      (fun ranges session =>
        ranges = globalRanges ∧
          Config (Opened []) (fun _ => True) translate manager
            store session) := by
  have hRead :
      Ensures
        (Config (ρ := ρ) (Opened []) pExt translate manager
          store)
        (Effect.gets (fun session =>
          session.store.getTag "specextensions") :
          Setup ρ (Option Element))
        (fun _ =>
          Config (Opened []) pExt translate manager store) :=
    Ensures.gets (fun _ hConfig => hConfig)
  unfold parseExtensions
  refine Ensures.bind hRead ?_
  intro el?
  cases el? with
  | none =>
      exact Ensures.pure (fun _ hConfig =>
        ⟨rfl, hConfig.forgetExt⟩)
  | some el =>
      have hAtRoot :
          Ensures
            (Config (ρ := ρ) (Opened []) pExt translate manager
              store)
            (Effect.modify (fun session =>
              { session with
                decoderExt := .ofRoot (some el) }) :
              Setup ρ Unit)
            (fun _ =>
              Config (Opened [])
                (fun decoder => decoder = ofRoot (some el))
                translate manager store) :=
        Ensures.modify (fun _ hConfig =>
          { hConfig with decoderExt := rfl })
      refine Ensures.bind hAtRoot ?_
      intro _
      refine Ensures.bind (onDecoderExt_ensures
        (openElementOf_root "specextensions")) ?_
      intro _
      refine Ensures.bind
        ((parseExtensionChildren_ensures rounds
          globalRanges).mono
            (fun _ hConfig => ⟨rfl, hConfig⟩)
            (fun _ _ hRead => hRead)) ?_
      intro ranges
      apply Ensures.assuming
      intro hRanges
      refine Ensures.bind
        (onDecoderExt_ensures closeElement_ensures) ?_
      intro _
      exact Ensures.pure (fun _ hConfig =>
        ⟨hRanges, hConfig.forgetExt⟩)

end Architecture

end LLDBGhidra
