import LLDBGhidra.Decompiler.Address
import LLDBGhidra.Decompiler.Number
import LLDBGhidra.Library.EffectEnsures

/-
  XML documents and the decoder that walks over them
  (`xml.hh`, `marshal.hh`, `marshal.cc`).

  Main declarations:
    * `Element`
    * `XmlDecode`
    * `XmlDecode.openElementOf`
    * `XmlDecode.findMatchingAttribute`
    * `XmlDecode.foldChildren`
    * `XmlDecode.foldAttributes`
-/

------------------------------------------------------------
-- Documents
------------------------------------------------------------

namespace LLDBGhidra

/- An element of a document that has been parsed. -/
structure Element where
  name : String
  attributes : List (String × String)
  content : String
  children : List Element

/- The documents that are loaded, by the name of their root. -/
structure DocumentStorage where
  tagmap : List (String × Element)

namespace DocumentStorage

def empty : DocumentStorage :=
  ⟨[]⟩

/- Only one element is kept for each name. -/
def registerTag
    (el : Element)
    (store : DocumentStorage) : DocumentStorage :=
  ⟨(el.name, el) ::
    store.tagmap.filter (fun tag => tag.1 ≠ el.name)⟩

def getTag
    (store : DocumentStorage)
    (nm : String) : Option Element :=
  (store.tagmap.find? (fun tag => tag.1 = nm)).map Prod.snd

theorem getTag_registerTag_ne
    {el : Element}
    {store : DocumentStorage}
    {nm : String}
    (hName : nm ≠ el.name) :
    (store.registerTag el).getTag nm = store.getTag nm := by
  unfold registerTag getTag
  rw [List.find?_cons_of_neg (by simpa using hName.symm),
    List.find?_filter]
  congr 2
  funext tag
  by_cases hTag : tag.1 = nm
  · subst hTag
    simp [hName]
  · simp [hTag]

end DocumentStorage

/- An open element, with its children that are not read yet. -/
structure Frame where
  element : Element
  iter : List Element

/-
  A decoder; the innermost open element comes first.  Ids of
  elements and attributes are their names, which decoders
  compare alone.
-/
structure XmlDecode where
  rootElement : Option Element
  elStack : List Frame
  attributeIndex : Int

end LLDBGhidra

------------------------------------------------------------
-- Elements
------------------------------------------------------------

namespace LLDBGhidra

namespace XmlDecode

abbrev Decode :=
  Effect Halt XmlDecode

def ofRoot
    (root : Option Element) : XmlDecode :=
  ⟨root, [], -1⟩

/- `peekElement`: the name of the element that is next. -/
def peek
    (decoder : XmlDecode) : Option String :=
  match decoder.elStack with
  | [] => decoder.rootElement.map Element.name
  | frame :: _ => frame.iter.head?.map Element.name

/- Move past the next element; the root is opened only once. -/
def nextElement
    (decoder : XmlDecode) : Option (Element × XmlDecode) :=
  match decoder.elStack with
  | [] =>
      decoder.rootElement.map (fun el =>
        (el, { decoder with rootElement := none }))
  | frame :: below =>
      match frame.iter with
      | [] => none
      | el :: iter =>
          some (el,
            { decoder with
              elStack := { frame with iter := iter } :: below })

def push
    (el : Element)
    (decoder : XmlDecode) : XmlDecode :=
  { decoder with
    elStack := ⟨el, el.children⟩ :: decoder.elStack
    attributeIndex := -1 }

/- Open the next element, if there is one. -/
def openElement : Decode (Option String) :=
  ⟨fun decoder =>
    match decoder.nextElement with
    | none => (.ok none, decoder)
    | some (el, decoder') =>
        (.ok (some el.name), decoder'.push el)⟩

/- Open the next element, which must have the given name. -/
def openElementOf
    (elemId : String) : Decode Unit :=
  ⟨fun decoder =>
    match decoder.nextElement with
    | none =>
        if decoder.elStack.isEmpty then
          (.error (decoderError ("Expecting <" ++ elemId ++
            "> but reached end of document")), decoder)
        else
          (.error (decoderError ("Expecting <" ++ elemId ++
            "> but no remaining children in current element")),
            decoder)
    | some (el, decoder') =>
        if el.name ≠ elemId then
          (.error (decoderError ("Expecting <" ++ elemId ++
            "> but got <" ++ el.name ++ ">")), decoder')
        else
          (.ok (), decoder'.push el)⟩

/-
  Close the innermost element, whatever is left of it: its
  remaining children are only looked at in a debug build.
-/
def closeElement : Decode Unit :=
  Effect.modify (fun decoder =>
    { decoder with
      elStack := decoder.elStack.tail
      attributeIndex := 1000 })

def closeElementSkipping : Decode Unit :=
  closeElement

/- The innermost open element. -/
def getCurrentXmlElement : Decode Element :=
  Effect.query (fun decoder =>
    match decoder.elStack with
    | [] => .error .undefined
    | frame :: _ => .ok frame.element)

end XmlDecode

end LLDBGhidra

------------------------------------------------------------
-- Attributes
------------------------------------------------------------

namespace LLDBGhidra

namespace XmlDecode

/- Move to the next attribute, if there is one. -/
def getNextAttributeId : Decode (Option String) :=
  ⟨fun decoder =>
    match decoder.elStack with
    | [] => (.error .undefined, decoder)
    | frame :: _ =>
        let nextIndex := decoder.attributeIndex + 1
        match frame.element.attributes[nextIndex.toNat]? with
        | none => (.ok none, decoder)
        | some attr =>
            (.ok (some attr.1),
              { decoder with attributeIndex := nextIndex })⟩

/- The value of the first attribute with the given name. -/
def findMatchingAttribute
    (el : Element)
    (attribName : String) : Except Halt String :=
  match el.attributes.find? (fun attr => attr.1 = attribName)
    with
  | none =>
      .error (decoderError ("Attribute missing: " ++ attribName))
  | some attr => .ok attr.2

/- The value of the current attribute. -/
def readString : Decode String :=
  Effect.query (fun decoder =>
    match decoder.elStack with
    | [] => .error .undefined
    | frame :: _ =>
        match frame.element.attributes[
            decoder.attributeIndex.toNat]? with
        | none => .error .undefined
        | some attr => .ok attr.2)

def readStringOf
    (attribId : String) : Decode String := do
  let el ← getCurrentXmlElement
  Effect.query (fun _ => findMatchingAttribute el attribId)

/- The first character decides. -/
def xmlReadbool
    (attr : String) : Bool :=
  match attr.toList.head? with
  | none => false
  | some first =>
      first = 't' || first = '1' || first = 'y'

def readBool : Decode Bool := do
  let value ← readString
  pure (xmlReadbool value)

def readUnsignedInteger : Decode (BitVec 64) := do
  let value ← readString
  pure (streamUnsigned value)

def readSignedIntegerOf
    (attribId : String) : Decode (BitVec 64) := do
  let value ← readStringOf attribId
  pure (streamSigned value)

/- The space with a name, as the manager of the spaces has it. -/
def findSpace
    (spaceOf : String → Option SpaceId)
    (nm : String) : Except Halt SpaceId :=
  match spaceOf nm with
  | none =>
      .error (decoderError
        ("Unknown address space name: " ++ nm))
  | some space => .ok space

def readSpace
    (spaceOf : String → Option SpaceId) : Decode SpaceId := do
  let nm ← readString
  Effect.query (fun _ => findSpace spaceOf nm)

def readSpaceOf
    (spaceOf : String → Option SpaceId)
    (attribId : String) : Decode SpaceId := do
  let nm ← readStringOf attribId
  Effect.query (fun _ => findSpace spaceOf nm)

end XmlDecode

end LLDBGhidra

------------------------------------------------------------
-- Loops
------------------------------------------------------------

namespace LLDBGhidra

namespace XmlDecode

variable {τ γ : Type}

/- A loop over the children of the innermost element. -/
def foldChildren
    (decoderOf : τ → XmlDecode)
    (body : γ → String → Effect Halt τ γ)
    (rounds : Nat)
    (result : γ) : Effect Halt τ γ :=
  Effect.foldWhile .outOfRounds
    (Effect.gets (fun state => (decoderOf state).peek))
    body rounds result

/- A loop over the attributes of the innermost element. -/
def foldAttributes
    (body : γ → String → Decode γ)
    (rounds : Nat)
    (result : γ) : Decode γ :=
  Effect.foldWhile .outOfRounds getNextAttributeId
    body rounds result

end XmlDecode

end LLDBGhidra

------------------------------------------------------------
-- What Decoding Ensures
------------------------------------------------------------

namespace LLDBGhidra

namespace XmlDecode

open Effect

variable {τ γ α β : Type}
variable {el child : Element}
variable {iter : List Element}
variable {frame : Frame}
variable {below : List Frame}

/- The open elements of a decoder, past its root. -/
structure Opened
    (stack : List Frame)
    (decoder : XmlDecode) : Prop where
  elStack : decoder.elStack = stack
  rootElement : decoder.rootElement = none

/- The decoder is at the attribute `index` of its element. -/
def AtAttribute
    (stack : List Frame)
    (index : Nat)
    (decoder : XmlDecode) : Prop :=
  Opened stack decoder ∧
    decoder.attributeIndex + 1 = (index : Int)

theorem peek_of_opened
    {decoder : XmlDecode}
    (hOpened : Opened (⟨el, iter⟩ :: below) decoder) :
    decoder.peek = iter.head?.map Element.name := by
  unfold peek
  rw [hOpened.elStack]

/- An element that is opened is passed and its own to read. -/
theorem openElement_ensures :
    Ensures (Opened (⟨el, child :: iter⟩ :: below)) openElement
      (fun name decoder =>
        name = some child.name ∧
          AtAttribute
            (⟨child, child.children⟩ :: ⟨el, iter⟩ :: below) 0
            decoder) := by
  intro decoder name decoder' hOpened hRun
  have hNext : decoder.nextElement =
      some (child,
        { decoder with elStack := ⟨el, iter⟩ :: below }) := by
    unfold nextElement
    rw [hOpened.elStack]
  unfold openElement at hRun
  simp only [hNext] at hRun
  cases hRun
  exact ⟨rfl, ⟨rfl, hOpened.rootElement⟩, rfl⟩

theorem openElementOf_ensures
    (elemId : String) :
    Ensures (Opened (⟨el, child :: iter⟩ :: below))
      (openElementOf elemId)
      (fun _ decoder =>
        child.name = elemId ∧
          AtAttribute
            (⟨child, child.children⟩ :: ⟨el, iter⟩ :: below) 0
            decoder) := by
  intro decoder value decoder' hOpened hRun
  have hNext : decoder.nextElement =
      some (child,
        { decoder with elStack := ⟨el, iter⟩ :: below }) := by
    unfold nextElement
    rw [hOpened.elStack]
  unfold openElementOf at hRun
  simp only [hNext] at hRun
  by_cases hName : child.name = elemId
  · simp only [hName, ne_eq, not_true_eq_false, if_false] at hRun
    cases hRun
    exact ⟨hName, ⟨rfl, hOpened.rootElement⟩, rfl⟩
  · simp only [hName, ne_eq, not_false_eq_true, if_true] at hRun
    cases hRun

/- A decoder that is done with its document opens nothing. -/
theorem openElementOf_exhausted
    (elemId : String) :
    Ensures (Opened []) (openElementOf elemId)
      (fun _ _ => False) := by
  intro decoder value decoder' hOpened hRun
  have hNext : decoder.nextElement = none := by
    unfold nextElement
    rw [hOpened.elStack, hOpened.rootElement]
    rfl
  unfold openElementOf at hRun
  simp only [hNext, hOpened.elStack, List.isEmpty_nil,
    if_true] at hRun
  cases hRun

/- The root of a document is opened first. -/
theorem openElementOf_root
    (elemId : String) :
    Ensures (fun decoder => decoder = ofRoot (some el))
      (openElementOf elemId)
      (fun _ => Opened [⟨el, el.children⟩]) := by
  intro decoder value decoder' hRoot hRun
  subst hRoot
  unfold openElementOf at hRun
  change (if el.name ≠ elemId then _ else _) = _ at hRun
  by_cases hName : el.name = elemId
  · simp only [hName, ne_eq, not_true_eq_false, if_false] at hRun
    cases hRun
    exact ⟨rfl, rfl⟩
  · simp only [hName, ne_eq, not_false_eq_true, if_true] at hRun
    cases hRun

theorem closeElement_ensures :
    Ensures (Opened (frame :: below)) closeElement
      (fun _ decoder => Opened below decoder) := by
  apply Ensures.modify
  intro decoder hOpened
  refine ⟨?_, hOpened.rootElement⟩
  rw [hOpened.elStack]
  rfl

theorem getCurrentXmlElement_ensures
    {pre : XmlDecode → Prop}
    (hOpened : ∀ decoder, pre decoder →
      Opened (frame :: below) decoder) :
    Ensures pre getCurrentXmlElement
      (fun el decoder => el = frame.element ∧ pre decoder) := by
  apply Ensures.query
  intro decoder current hPre hRead
  rw [(hOpened decoder hPre).elStack] at hRead
  cases hRead
  exact ⟨rfl, hPre⟩

theorem readStringOf_ensures
    {pre : XmlDecode → Prop}
    (hOpened : ∀ decoder, pre decoder →
      Opened (frame :: below) decoder)
    (attribId : String) :
    Ensures pre (readStringOf attribId)
      (fun value decoder =>
        findMatchingAttribute frame.element attribId =
            .ok value ∧
          pre decoder) := by
  unfold readStringOf
  refine Ensures.bind
    (getCurrentXmlElement_ensures hOpened) ?_
  intro current
  apply Ensures.assuming
  intro hCurrent
  apply Ensures.query
  intro decoder value hPre hRead
  exact ⟨hCurrent ▸ hRead, hPre⟩

theorem readSpaceOf_ensures
    {pre : XmlDecode → Prop}
    (hOpened : ∀ decoder, pre decoder →
      Opened (frame :: below) decoder)
    (spaceOf : String → Option SpaceId)
    (attribId : String) :
    Ensures pre (readSpaceOf spaceOf attribId)
      (fun space decoder =>
        (∃ nm,
          findMatchingAttribute frame.element attribId =
              .ok nm ∧
            findSpace spaceOf nm = .ok space) ∧
          pre decoder) := by
  unfold readSpaceOf
  refine Ensures.bind
    (readStringOf_ensures hOpened attribId) ?_
  intro nm
  apply Ensures.assuming
  intro hName
  apply Ensures.query
  intro decoder space hPre hSpace
  exact ⟨⟨nm, hName, hSpace⟩, hPre⟩

theorem readSignedIntegerOf_ensures
    {pre : XmlDecode → Prop}
    (hOpened : ∀ decoder, pre decoder →
      Opened (frame :: below) decoder)
    (attribId : String) :
    Ensures pre (readSignedIntegerOf attribId)
      (fun _ => pre) := by
  unfold readSignedIntegerOf
  refine Ensures.bind
    (readStringOf_ensures hOpened attribId) ?_
  intro _
  exact Ensures.pure (fun _ hRead => hRead.2)

/-
  A loop over the children: `inv` holds of the result so far
  and of the children that are left.
-/
theorem foldChildren_ensures
    {decoderOf : τ → XmlDecode}
    {body : γ → String → Effect Halt τ γ}
    {inv : γ → List Element → τ → Prop}
    (hOpened : ∀ result iter state, inv result iter state →
      ∃ el below,
        Opened (⟨el, iter⟩ :: below) (decoderOf state))
    (hBody : ∀ result child iter,
      Ensures (inv result (child :: iter))
        (body result child.name)
        (fun result' state =>
          ∃ iter', inv result' iter' state))
    (rounds : Nat)
    (result : γ)
    (iter : List Element) :
    Ensures (inv result iter)
      (foldChildren decoderOf body rounds result)
      (fun result' => inv result' []) := by
  have hNext : ∀ result,
      Ensures (fun state => ∃ iter, inv result iter state)
        (Effect.gets (fun state => (decoderOf state).peek) :
          Effect Halt τ (Option String))
        (fun item? state =>
          (item? = none → inv result [] state) ∧
            ∀ item, item? = some item →
              ∃ child iter, item = child.name ∧
                inv result (child :: iter) state) := by
    intro result
    apply Ensures.gets
    intro state hInv
    rcases hInv with ⟨iter, hInv⟩
    rcases hOpened result iter state hInv with
      ⟨el, below, hStack⟩
    rw [peek_of_opened hStack]
    cases iter with
    | nil =>
        refine ⟨fun _ => hInv, ?_⟩
        intro item hItem
        cases hItem
    | cons child iter =>
        refine ⟨(fun hNone => by cases hNone), ?_⟩
        intro item hItem
        cases hItem
        exact ⟨child, iter, rfl, hInv⟩
  have hStep : ∀ result name,
      Ensures
        (fun state => ∃ child iter, name = child.name ∧
          inv result (child :: iter) state)
        (body result name)
        (fun result' state =>
          ∃ iter', inv result' iter' state) := by
    intro result name state value state' hMid hRun
    rcases hMid with ⟨child, iter, hName, hInv⟩
    subst hName
    exact hBody result child iter state value state' hInv hRun
  exact (Ensures.foldWhile hNext hStep rounds result).mono
    (fun _ hInv => ⟨iter, hInv⟩) (fun _ _ hInv => hInv)

/- The attribute that the decoder moved to last. -/
def CurrentAttribute
    (attr : String × String)
    (decoder : XmlDecode) : Prop :=
  ∃ frame below,
    Opened (frame :: below) decoder ∧
      frame.element.attributes[
        decoder.attributeIndex.toNat]? = some attr

theorem readString_ensures
    {attr : String × String}
    {decoder : XmlDecode}
    (hCurrent : CurrentAttribute attr decoder) :
    Ensures (fun decoder' => decoder' = decoder) readString
      (fun value decoder' =>
        value = attr.2 ∧ decoder' = decoder) := by
  rcases hCurrent with ⟨frame, below, hOpened, hAttr⟩
  apply Ensures.query
  intro decoder' value hSame hRead
  subst hSame
  rw [hOpened.elStack] at hRead
  simp only [hAttr] at hRead
  cases hRead
  exact ⟨rfl, rfl⟩

/- A step of a loop over attributes leaves the decoder be. -/
def ReadsAttribute
    (step : γ → String × String → Except Halt γ)
    (body : γ → String → Decode γ) : Prop :=
  ∀ result attr decoder, CurrentAttribute attr decoder →
    Ensures (fun decoder' => decoder' = decoder)
      (body result attr.1)
      (fun value decoder' =>
        step result attr = .ok value ∧ decoder' = decoder)

/- What a step makes of the value of the attribute. -/
theorem read_bind_ensures
    {read : Decode β}
    {content : β}
    {decoder : XmlDecode}
    {next : β → Decode α}
    {post : α → XmlDecode → Prop}
    (hRead :
      Ensures (fun decoder' => decoder' = decoder) read
        (fun value decoder' =>
          value = content ∧ decoder' = decoder))
    (hNext :
      Ensures (fun decoder' => decoder' = decoder)
        (next content) post) :
    Ensures (fun decoder' => decoder' = decoder)
      (read >>= next) post := by
  refine Ensures.bind hRead ?_
  intro value
  apply Ensures.assuming
  intro hValue
  subst hValue
  exact hNext

theorem readUnsignedInteger_ensures
    {attr : String × String}
    {decoder : XmlDecode}
    (hCurrent : CurrentAttribute attr decoder) :
    Ensures (fun decoder' => decoder' = decoder)
      readUnsignedInteger
      (fun value decoder' =>
        value = streamUnsigned attr.2 ∧ decoder' = decoder) := by
  unfold readUnsignedInteger
  refine read_bind_ensures (readString_ensures hCurrent) ?_
  exact Ensures.pure (fun _ hSame => ⟨rfl, hSame⟩)

/- The attributes before `index` are folded into `current`. -/
def FoldedUpTo
    (step : γ → String × String → Except Halt γ)
    (frame : Frame)
    (start current : γ)
    (index : Nat) : Prop :=
  (frame.element.attributes.take index).foldlM step start =
    .ok current

theorem foldedUpTo_succ
    {step : γ → String × String → Except Halt γ}
    {start current current' : γ}
    {index : Nat}
    {attr : String × String}
    (hFolded : FoldedUpTo step frame start current index)
    (hAttr : frame.element.attributes[index]? = some attr)
    (hStep : step current attr = .ok current') :
    FoldedUpTo step frame start current' (index + 1) := by
  unfold FoldedUpTo
  rw [List.take_add_one, hAttr, Option.toList_some]
  exact foldlM_concat hFolded hStep

/- The next attribute, or the end of the fold. -/
private theorem getNextAttributeId_ensures
    (step : γ → String × String → Except Halt γ)
    (start current : γ) :
    Ensures
      (fun decoder => ∃ index,
        AtAttribute (frame :: below) index decoder ∧
          FoldedUpTo step frame start current index)
      getNextAttributeId
      (fun item? decoder =>
        Opened (frame :: below) decoder ∧
          (item? = none →
            frame.element.attributes.foldlM step start =
              .ok current) ∧
          ∀ item, item? = some item →
            ∃ (index : Nat) (attr : String × String),
              item = attr.1 ∧
                frame.element.attributes[index]? = some attr ∧
                decoder.attributeIndex = (index : Int) ∧
                FoldedUpTo step frame start current index) := by
  intro decoder name decoder' hInv hRun
  rcases hInv with ⟨index, ⟨hStack, hIndex⟩, hFolded⟩
  unfold getNextAttributeId at hRun
  simp only [hStack.elStack, hIndex, Int.toNat_natCast] at hRun
  cases hAttr : frame.element.attributes[index]? with
  | none =>
      simp only [hAttr] at hRun
      cases hRun
      refine ⟨hStack, fun _ => ?_, ?_⟩
      · unfold FoldedUpTo at hFolded
        rw [List.take_of_length_le
          (List.getElem?_eq_none_iff.mp hAttr)] at hFolded
        exact hFolded
      · intro item hItem
        cases hItem
  | some attr =>
      simp only [hAttr] at hRun
      cases hRun
      refine ⟨⟨rfl, hStack.rootElement⟩,
        (fun hNone => by cases hNone), ?_⟩
      intro item hItem
      cases hItem
      exact ⟨index, attr, rfl, hAttr, rfl, hFolded⟩

/- The attributes are folded over from the first to the last. -/
theorem foldAttributes_ensures
    {step : γ → String × String → Except Halt γ}
    {body : γ → String → Decode γ}
    (hReads : ReadsAttribute step body)
    (rounds : Nat)
    (start : γ) :
    Ensures (AtAttribute (frame :: below) 0)
      (foldAttributes body rounds start)
      (fun result decoder =>
        frame.element.attributes.foldlM step start =
            .ok result ∧
          Opened (frame :: below) decoder) := by
  have hNext : ∀ current,
      Ensures
        (fun decoder => ∃ index,
          AtAttribute (frame :: below) index decoder ∧
            FoldedUpTo step frame start current index)
        getNextAttributeId
        (fun item? decoder =>
          (item? = none →
            frame.element.attributes.foldlM step start =
                .ok current ∧
              Opened (frame :: below) decoder) ∧
          ∀ item, item? = some item →
            Opened (frame :: below) decoder ∧
              ∃ (index : Nat) (attr : String × String),
                item = attr.1 ∧
                  frame.element.attributes[index]? =
                    some attr ∧
                  decoder.attributeIndex = (index : Int) ∧
                  FoldedUpTo step frame start current index) :=
    fun current =>
      (getNextAttributeId_ensures step start current).mono
        (fun _ hInv => hInv)
        (fun _ _ hPost =>
          ⟨fun hNone => ⟨hPost.2.1 hNone, hPost.1⟩,
            fun item hItem =>
              ⟨hPost.1, hPost.2.2 item hItem⟩⟩)
  refine (Ensures.foldWhile hNext ?_ rounds start).mono
    (fun _ hStart => ⟨0, hStart, rfl⟩) (fun _ _ hPost => hPost)
  intro current name decoder value decoder' hMid hRun
  rcases hMid with
    ⟨hStack, index, attr, hName, hAttr, hIndex, hFolded⟩
  subst hName
  have hCurrent : frame.element.attributes[
      decoder.attributeIndex.toNat]? = some attr := by
    rw [hIndex, Int.toNat_natCast]
    exact hAttr
  rcases hReads current attr decoder
      ⟨frame, below, hStack, hCurrent⟩ decoder value decoder'
      rfl hRun with
    ⟨hValue, hSame⟩
  subst hSame
  refine ⟨index + 1, ⟨hStack, ?_⟩,
    foldedUpTo_succ hFolded hAttr hValue⟩
  rw [hIndex]
  rfl

end XmlDecode

end LLDBGhidra
