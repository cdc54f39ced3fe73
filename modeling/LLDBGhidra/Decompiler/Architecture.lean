import LLDBGhidra.Decompiler.Marshal
import LLDBGhidra.Decompiler.Translate
import Mathlib.Data.List.Sort

/-
  The architecture, and how it is initialized from the
  documents of a processor and of a compiler (`address.cc`,
  `architecture.hh`, `architecture.cc`).

  Main declarations:
    * `RangeProperties.decode`
    * `Architecture.addToGlobalScope`
    * `Architecture.cacheAddrSpaceProperties`
    * `Architecture.parseProcessorConfig`
    * `Architecture.parseCompilerConfig`
    * `Architecture.init`
-/

------------------------------------------------------------
-- Ranges of Specifications
------------------------------------------------------------

namespace LLDBGhidra

/- A range, before all address spaces exist. -/
structure RangeProperties where
  spaceName : String
  first : BitVec 64
  last : BitVec 64
  isRegister : Bool
  seenLast : Bool
deriving DecidableEq, Repr

namespace RangeProperties

open XmlDecode

def empty : RangeProperties :=
  ⟨"", 0, 0, false, false⟩

/- Read one attribute of a range. -/
def decodeAttribute
    (props : RangeProperties)
    (attribId : String) : Decode RangeProperties :=
  if attribId = "space" then do
    let spaceName ← readString
    pure { props with spaceName := spaceName }
  else if attribId = "first" then do
    let first ← readUnsignedInteger
    pure { props with first := first }
  else if attribId = "last" then do
    let last ← readUnsignedInteger
    pure { props with last := last, seenLast := true }
  else if attribId = "name" then do
    let spaceName ← readString
    pure { props with
      spaceName := spaceName
      isRegister := true }
  else
    pure props

def decodeAttributes
    (rounds : Nat) : Decode RangeProperties := do
  let props ← foldAttributes decodeAttribute rounds empty
  closeElement
  pure props

def decode
    (rounds : Nat) : Decode RangeProperties := do
  let elemId ← openElement
  if elemId ≠ some "range" ∧ elemId ≠ some "register" then
    Effect.throw (decoderError
      "Expecting <range> or <register> element")
  else
    decodeAttributes rounds

end RangeProperties

namespace Range

/-
  The range that is meant.  One over a space may not leave the
  space; one over a register is taken as it is.
-/
def ofProperties
    (translate : Translate)
    (manage : AddrSpaceManager)
    (props : RangeProperties) : Except Halt Range :=
  if props.isRegister then do
    let point ←
      (translate.getRegister props.spaceName).mapError
        Halt.thrown
    .ok ⟨point.space, point.offset,
      point.offset - 1 + point.size.setWidth 64⟩
  else
    match manage.getSpaceByName props.spaceName with
    | none =>
        .error (lowlevelError
          ("Undefined space: " ++ props.spaceName))
    | some spc =>
        let last :=
          if props.seenLast then props.last else spc.highest
        if spc.highest < props.first ∨ spc.highest < last ∨
            last < props.first then
          .error (lowlevelError "Illegal range tag")
        else
          .ok ⟨spc.index, props.first, last⟩

end Range

end LLDBGhidra

------------------------------------------------------------
-- The Architecture
------------------------------------------------------------

namespace LLDBGhidra

/-
  An architecture: its spaces, the spaces that pointers are
  inferred in, the ranges of the global scope, the alignment
  of function pointers, and the other components.
-/
structure Architecture (ρ : Type) where
  manager : AddrSpaceManager
  translate : Option Translate
  inferPtrSpaces : List SpaceId
  rangetree : RangeList
  funcptrAlign : Nat
  components : ρ

/- The phases of an initialization that set up components. -/
inductive Phase where
| buildLoader : Phase
| resolveArchitecture : Phase
| buildContext : Phase
| buildTypegrp : Phase
| buildCommentDB : Phase
| buildStringManager : Phase
| buildConstantPool : Phase
| buildDatabase : Phase
| initializeUserops : Phase
| buildPcodeInjectLibrary : Phase
| setDefaultFloatFormats : Phase
| setDefaultModels : Phase
| buildAction : Phase
| buildCoreTypes : Phase
| initializePrint : Phase
| adjustCaches : Phase
| buildSymbols : Phase
| buildInstructions : Phase
| fillinReadOnlyFromLoader : Phase
deriving DecidableEq, Repr

/-
  What an initialization works on: the documents that
  `buildSpecFile` loads, the processor with its spaces
  modified, and what the phases and the other elements of the
  specifications do to the components.  The components see the
  spaces, but leave all that the architecture holds to it.
-/
structure Components (ρ : Type) where
  documents : Except Exn DocumentStorage
  translator : Except Exn Translate
  phase :
    Phase → DocumentStorage → AddrSpaceManager → ρ →
      Except Exn ρ
  decodeElement :
    Element → AddrSpaceManager → ρ → Except Exn ρ

namespace Architecture

variable {ρ : Type}

/- An architecture before its initialization. -/
def new
    (components : ρ) : Architecture ρ :=
  ⟨.empty, none, [], .empty, 0, components⟩

/- The overlays of a space. -/
def overlaysOf
    (arch : Architecture ρ)
    (base : SpaceId) : List SpaceId :=
  ((arch.manager.baselist.filterMap id).filter (fun spc =>
    spc.overlay && spc.contain = some base)).map
      AddrSpace.index

/- The same range of several spaces. -/
def addRanges
    (spaces : List SpaceId)
    (first last : BitVec 64)
    (arch : Architecture ρ) : Architecture ρ :=
  { arch with
    rangetree :=
      spaces.foldl
        (fun tree spc => tree.insertRange spc first last)
        arch.rangetree }

/-
  A range becomes global, in its space and in the overlays of
  the space.  Its space is noted as one to infer pointers in.
-/
def addToGlobalScope
    (props : RangeProperties)
    (arch : Architecture ρ) :
    Except Halt (Architecture ρ) := do
  match arch.translate with
  | none => .error .undefined
  | some translate => do
      let range ←
        Range.ofProperties translate arch.manager props
      match arch.manager.getSpace range.spc with
      | none => .error .undefined
      | some spc =>
          let overlays :=
            if spc.overlayBase then
              arch.overlaysOf range.spc
            else
              []
          .ok (addRanges (range.spc :: overlays) range.first
            range.last
            { arch with
              inferPtrSpaces :=
                arch.inferPtrSpaces ++ [range.spc] })

/- An overlay of OTHER is sought without regard to gaps. -/
def addOtherSpace
    (arch : Architecture ρ) :
    Except Halt (Architecture ρ) :=
  match arch.manager.getSpaceByName "OTHER" with
  | none => .error .undefined
  | some otherSpace =>
      if otherSpace.overlayBase then
        if none ∈ arch.manager.baselist then
          .error .undefined
        else
          .ok (addRanges
            (otherSpace.index ::
              arch.overlaysOf otherSpace.index)
            0 otherSpace.highest arch)
      else
        .ok (addRanges [otherSpace.index] 0 otherSpace.highest
          arch)

end Architecture

end LLDBGhidra

------------------------------------------------------------
-- Spaces to Infer Pointers In
------------------------------------------------------------

namespace LLDBGhidra

namespace AddrSpaceManager

/-
  The filter of `cacheAddrSpaceProperties`: no register space,
  which is one without delay, no spacebase, no OTHER space and
  no overlay.
-/
def inferable
    (manager : AddrSpaceManager)
    (index : SpaceId) : Bool :=
  match manager.getSpace index with
  | none => false
  | some spc =>
      spc.delay ≠ 0 && spc.type ≠ .spacebase &&
        !spc.otherSpace && !spc.overlay

end AddrSpaceManager

namespace Architecture

variable {ρ : Type}

/- The scan of a sorted list, with the last space it saw. -/
def filterSpaces
    (inferable : SpaceId → Bool)
    (lastSpace : Option SpaceId) :
    List SpaceId → List SpaceId
  | [] => []
  | spc :: rest =>
      if some spc = lastSpace then
        filterSpaces inferable lastSpace rest
      else if !inferable spc then
        filterSpaces inferable (some spc) rest
      else
        spc :: filterSpaces inferable (some spc) rest

/- Exchange the first space and the one at a position. -/
def swapToFront
    (spaces : List SpaceId)
    (defPos : Nat) : List SpaceId :=
  match spaces.head?, spaces[defPos]? with
  | some first, some default? =>
      (spaces.set 0 default?).set defPos first
  | _, _ => spaces

/- Make sure the data space comes first; no space is twice. -/
def defaultFirst
    (data : SpaceId)
    (spaces : List SpaceId) : List SpaceId :=
  match spaces.findIdx? (· = data) with
  | none => spaces
  | some defPos =>
      if 0 < defPos then swapToFront spaces defPos else spaces

/-
  Order and filter the spaces that were noted, with the
  default spaces among them, and put the data space first.
  Near pointers are left out here.
-/
def cacheAddrSpaceProperties
    (arch : Architecture ρ) :
    Except Halt (Architecture ρ) :=
  match arch.manager.getDefaultCodeSpace,
      arch.manager.getDefaultDataSpace with
  | some code, some data =>
      let copyList :=
        (arch.inferPtrSpaces ++ [code, data]).insertionSort
          (· ≤ ·)
      let spaces :=
        filterSpaces arch.manager.inferable none copyList
      .ok { arch with inferPtrSpaces := defaultFirst data spaces }
  | _, _ => .error .undefined

end Architecture

end LLDBGhidra

------------------------------------------------------------
-- Elements of Specifications
------------------------------------------------------------

namespace LLDBGhidra

/-
  An architecture that is set up, with its documents and the
  decoders that are at work.
-/
structure Session (ρ : Type) where
  arch : Architecture ρ
  store : DocumentStorage
  decoder : XmlDecode
  decoderExt : XmlDecode

/- A step of an initialization. -/
abbrev Setup (ρ : Type) :=
  Effect Halt (Session ρ)

namespace Architecture

open XmlDecode

variable {ρ : Type}

def onDecoder
    {α : Type}
    (effect : Decode α) : Setup ρ α :=
  Effect.onPart Session.decoder
    (fun decoder session =>
      { session with decoder := decoder }) effect

def onDecoderExt
    {α : Type}
    (effect : Decode α) : Setup ρ α :=
  Effect.onPart Session.decoderExt
    (fun decoder session =>
      { session with decoderExt := decoder }) effect

/- A change of the architecture that may go wrong. -/
def change
    (update : Architecture ρ → Except Halt (Architecture ρ)) :
    Setup ρ Unit := do
  let arch ← Effect.query (fun session => update session.arch)
  Effect.modify (fun session => { session with arch := arch })

def changeManager
    (update : AddrSpaceManager → Except Halt AddrSpaceManager) :
    Setup ρ Unit :=
  change (fun arch => do
    let manager ← update arch.manager
    .ok { arch with manager := manager })

def changeComponents
    (update : AddrSpaceManager → ρ → Except Exn ρ) :
    Setup ρ Unit :=
  change (fun arch => do
    let components ←
      (update arch.manager arch.components).mapError Halt.thrown
    .ok { arch with components := components })

def runPhase
    (components : Components ρ)
    (phase : Phase) : Setup ρ Unit := do
  let store ← Effect.gets Session.store
  changeComponents (components.phase phase store)

/- An element whose data goes to another component. -/
def decodeComponent
    (components : Components ρ)
    (onDecoder : {α : Type} → Decode α → Setup ρ α)
    (elemId : String) : Setup ρ Unit := do
  onDecoder (openElementOf elemId)
  let el ← onDecoder getCurrentXmlElement
  onDecoder closeElement
  changeComponents (components.decodeElement el)

def skipElement : Decode Unit := do
  let _ ← openElement
  closeElementSkipping

/- How decoders look up a space. -/
def readSpaces : Setup ρ (String → Option SpaceId) :=
  Effect.gets (fun session => session.arch.manager.spaceOf)

/- The register of a name. -/
def getRegister
    (nm : String) : Setup ρ VarnodeData :=
  Effect.query (fun session =>
    match session.arch.translate with
    | none => .error .undefined
    | some translate =>
        (translate.getRegister nm).mapError Halt.thrown)

def addSpacebase
    (basespace : SpaceId)
    (nm : String)
    (ptrdata : VarnodeData)
    (truncSize : Nat) : Setup ρ Unit :=
  change (fun arch =>
    match arch.translate with
    | none => .error .undefined
    | some translate => do
        let manager ←
          arch.manager.addSpacebase translate basespace nm
            ptrdata truncSize
        .ok { arch with manager := manager })

/- What a `<stackpointer>` element says of the stack. -/
structure StackPointer where
  basespace : Option SpaceId
  registerName : String

/-
  Read one attribute of it.  Growth and justification are
  properties of the stack space that nothing here reads.
-/
def StackPointer.decodeAttribute
    (spaceOf : String → Option SpaceId)
    (pointer : StackPointer)
    (attribId : String) : Decode StackPointer :=
  if attribId = "reversejustify" then do
    let _ ← readBool
    pure pointer
  else if attribId = "growth" then do
    let _ ← readString
    pure pointer
  else if attribId = "space" then do
    let basespace ← readSpace spaceOf
    pure { pointer with basespace := some basespace }
  else if attribId = "register" then do
    let registerName ← readString
    pure { pointer with registerName := registerName }
  else
    pure pointer

/- The stack of a pointer whose space is known. -/
def addStack
    (basespace : SpaceId)
    (registerName : String) : Setup ρ Unit := do
  let point ← getRegister registerName
  onDecoder closeElement
  let truncSize ← Effect.gets (fun session =>
    session.arch.manager.truncatedSize basespace point)
  addSpacebase basespace "stack" point truncSize

def decodeStackPointer
    (rounds : Nat) : Setup ρ Unit := do
  onDecoder (openElementOf "stackpointer")
  let spaceOf ← readSpaces
  let pointer ← onDecoder
    (foldAttributes (StackPointer.decodeAttribute spaceOf)
      rounds ⟨none, ""⟩)
  match pointer.basespace with
  | none =>
      Effect.throw (lowlevelError
        "stackpointer element missing \"space\" attribute")
  | some basespace => addStack basespace pointer.registerName

def decodeSpacebase : Setup ρ Unit := do
  onDecoder (openElementOf "spacebase")
  let nameString ← onDecoder (readStringOf "name")
  let registerName ← onDecoder (readStringOf "register")
  let spaceOf ← readSpaces
  let basespace ← onDecoder (readSpaceOf spaceOf "space")
  onDecoder closeElement
  let point ← getRegister registerName
  addSpacebase basespace nameString point point.size.toNat

/- The number of zero bits at the end of a 32-bit number. -/
def trailingZeros
    (value : BitVec 32) : (rounds : Nat) → Nat
  | 0 => 0
  | rounds + 1 =>
      if value &&& 1 = 0 then
        trailingZeros (value.sshiftRight 1) rounds + 1
      else
        0

def decodeFuncPtrAlign : Setup ρ Unit := do
  onDecoder (openElementOf "funcptr")
  let value ← onDecoder (readSignedIntegerOf "align")
  onDecoder closeElement
  let align : BitVec 32 := value.setWidth 32
  change (fun arch =>
    .ok { arch with
      funcptrAlign :=
        if align = 0 then 0 else trailingZeros align 32 })

def decodeDataSpace : Setup ρ Unit := do
  let _ ← onDecoder openElement
  let spaceOf ← readSpaces
  let spc ← onDecoder (readSpaceOf spaceOf "space")
  onDecoder closeElement
  changeManager (AddrSpaceManager.setDefaultDataSpace spc)

/- One range of a `<global>` element. -/
def decodeGlobalRange
    (rounds : Nat)
    (rangeProps : List RangeProperties)
    (_subId : String) : Decode (List RangeProperties) := do
  let props ← RangeProperties.decode rounds
  pure (rangeProps ++ [props])

/- The ranges of a `<global>` element, after those so far. -/
def decodeGlobal
    (rounds : Nat)
    (rangeProps : List RangeProperties) :
    Decode (List RangeProperties) := do
  openElementOf "global"
  let rangeProps ←
    foldChildren id (decodeGlobalRange rounds) rounds rangeProps
  closeElement
  pure rangeProps

end Architecture

end LLDBGhidra

------------------------------------------------------------
-- Specifications
------------------------------------------------------------

namespace LLDBGhidra

namespace Architecture

open XmlDecode

variable {ρ : Type}

/- The elements of a processor whose data is not looked at. -/
def skippedElements : List String :=
  ["programcounter", "segmented_address",
    "default_memory_blocks", "address_shift_amount",
    "properties"]

/- The elements of a processor that go to a component. -/
def processorElements : List String :=
  ["volatile", "incidentalcopy", "context_data", "jumpassist",
    "segmentop", "register_data", "inferptrbounds"]

/- The default symbols become a document of their own. -/
def registerDefaultSymbols : Setup ρ Unit := do
  let _ ← onDecoder openElement
  let el ← onDecoder getCurrentXmlElement
  Effect.modify (fun session =>
    { session with store := session.store.registerTag el })
  onDecoder closeElementSkipping

def decodeProcessorElement
    (components : Components ρ)
    (subId : String) : Setup ρ Unit :=
  if subId ∈ skippedElements then
    onDecoder skipElement
  else if subId ∈ processorElements then
    decodeComponent components onDecoder subId
  else if subId = "data_space" then
    decodeDataSpace
  else if subId = "default_symbols" then
    registerDefaultSymbols
  else
    Effect.throw (lowlevelError
      "Unknown element in <processor_spec>")

/- Start to decode a document that is loaded. -/
def openDocument
    (tag missing : String) : Setup ρ Unit := do
  let el? ← Effect.gets (fun session =>
    session.store.getTag tag)
  match el? with
  | none => Effect.throw (lowlevelError missing)
  | some el => do
      Effect.modify (fun session =>
        { session with decoder := .ofRoot (some el) })
      onDecoder (openElementOf tag)

def parseProcessorConfig
    (components : Components ρ)
    (rounds : Nat) : Setup ρ Unit := do
  openDocument "processor_spec"
    "No processor configuration tag found"
  foldChildren Session.decoder
    (fun _ subId => decodeProcessorElement components subId)
    rounds ()
  onDecoder closeElement

/- The elements of a compiler that go to a component. -/
def compilerElements : List String :=
  ["default_proto", "prototype", "returnaddress", "nohighptr",
    "prefersplit", "aggressivetrim", "data_organization",
    "enum", "segmentop", "readonly", "context_data",
    "resolveprototype", "eval_called_prototype",
    "eval_current_prototype", "callfixup", "callotherfixup",
    "deadcodedelay", "inferptrbounds", "modelalias"]

/-
  An element that is not known is not passed either: the loop
  never gets beyond it.
-/
def decodeCompilerElement
    (components : Components ρ)
    (rounds : Nat)
    (subId : String) : Setup ρ Unit :=
  if subId ∈ compilerElements then
    decodeComponent components onDecoder subId
  else if subId = "stackpointer" then
    decodeStackPointer rounds
  else if subId = "spacebase" then
    decodeSpacebase
  else if subId = "funcptr" then
    decodeFuncPtrAlign
  else
    pure ()

/- A `<global>` element adds to the ranges. -/
def parseCompilerElement
    (components : Components ρ)
    (rounds : Nat)
    (globalRanges : List RangeProperties)
    (subId : String) : Setup ρ (List RangeProperties) :=
  if subId = "global" then
    onDecoder (decodeGlobal rounds globalRanges)
  else do
    decodeCompilerElement components rounds subId
    pure globalRanges

/-
  All but prototypes are read from the first decoder, which is
  done with its document.
-/
def decodeExtensionElement
    (components : Components ρ)
    (subId : String) : Setup ρ Unit :=
  if subId = "prototype" then
    decodeComponent components onDecoderExt subId
  else if subId = "callfixup" ∨ subId = "callotherfixup" then
    decodeComponent components onDecoder subId
  else
    pure ()

def parseExtensionElement
    (components : Components ρ)
    (rounds : Nat)
    (globalRanges : List RangeProperties)
    (subId : String) : Setup ρ (List RangeProperties) :=
  if subId = "global" then
    onDecoder (decodeGlobal rounds globalRanges)
  else do
    decodeExtensionElement components subId
    pure globalRanges

/- The configuration of the user, if there is one. -/
def parseExtensions
    (components : Components ρ)
    (rounds : Nat)
    (globalRanges : List RangeProperties) :
    Setup ρ (List RangeProperties) := do
  let el? ← Effect.gets (fun session =>
    session.store.getTag "specextensions")
  match el? with
  | none => pure globalRanges
  | some el => do
      Effect.modify (fun session =>
        { session with decoderExt := .ofRoot (some el) })
      onDecoderExt (openElementOf "specextensions")
      let globalRanges ← foldChildren Session.decoderExt
        (parseExtensionElement components rounds)
        rounds globalRanges
      onDecoderExt closeElement
      pure globalRanges

def parseCompilerConfig
    (components : Components ρ)
    (rounds : Nat) : Setup ρ Unit := do
  openDocument "compiler_spec"
    "No compiler configuration tag found"
  let globalRanges ← foldChildren Session.decoder
    (parseCompilerElement components rounds) rounds []
  onDecoder closeElement
  let globalRanges ←
    parseExtensions components rounds globalRanges
  Effect.forEach globalRanges (fun props =>
    change (addToGlobalScope props))
  change addOtherSpace
  runPhase components .setDefaultModels

end Architecture

end LLDBGhidra

------------------------------------------------------------
-- The Initialization
------------------------------------------------------------

namespace LLDBGhidra

namespace Architecture

variable {ρ : Type}

/- The spaces that every architecture has. -/
def insertOwnSpaces
    (bigEndian : Bool)
    (manager : AddrSpaceManager) :
    Except Halt AddrSpaceManager := do
  let manager ←
    manager.insertSpace (.fspec manager.numSpaces)
  let manager ← manager.insertSpace (.iop manager.numSpaces)
  manager.insertSpace (.join bigEndian manager.numSpaces)

/- Take over the spaces of the processor. -/
def installTranslate
    (translate : Translate)
    (arch : Architecture ρ) :
    Except Halt (Architecture ρ) := do
  let manager ← arch.manager.copySpaces translate.manager
  let manager ← insertOwnSpaces translate.bigEndian manager
  .ok { arch with
    manager := manager
    translate := some translate }

def restoreFromSpec
    (components : Components ρ)
    (rounds : Nat) : Setup ρ Unit := do
  let translate ← Effect.query (fun _ =>
    components.translator.mapError Halt.thrown)
  change (installTranslate translate)
  runPhase components .initializeUserops
  runPhase components .buildPcodeInjectLibrary
  parseProcessorConfig components rounds
  runPhase components .setDefaultFloatFormats
  parseCompilerConfig components rounds
  runPhase components .buildAction

/- Load the documents of the processor and the compiler. -/
def buildSpecFile
    (components : Components ρ) : Setup ρ Unit := do
  let store ← Effect.query (fun _ =>
    components.documents.mapError Halt.thrown)
  Effect.modify (fun session =>
    { session with store := store })

/- The hook of the base class. -/
def postSpecFile : Setup ρ Unit :=
  change cacheAddrSpaceProperties

/-
  `Architecture::init`, with the hook `postSpecFile` of the
  class of the architecture.
-/
def init
    (components : Components ρ)
    (postSpecFile : Setup ρ Unit)
    (rounds : Nat) : Setup ρ Unit := do
  Effect.forEach [.buildLoader, .resolveArchitecture]
    (runPhase components)
  buildSpecFile components
  Effect.forEach
    [.buildContext, .buildTypegrp, .buildCommentDB,
      .buildStringManager, .buildConstantPool, .buildDatabase]
    (runPhase components)
  restoreFromSpec components rounds
  Effect.forEach
    [.buildCoreTypes, .initializePrint, .adjustCaches,
      .buildSymbols]
    (runPhase components)
  postSpecFile
  Effect.forEach
    [.buildInstructions, .fillinReadOnlyFromLoader]
    (runPhase components)

/- A session before its initialization. -/
def start
    (components : ρ) : Session ρ :=
  ⟨new components, .empty, .ofRoot none, .ofRoot none⟩

end Architecture

end LLDBGhidra
