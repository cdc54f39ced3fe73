import LLDBGhidra.Decompiler.Address
import Mathlib.Data.List.Basic

/-
  The address spaces of a processor and the registers in them
  (`translate.hh`, `translate.cc`, `space.cc`).

  Main declarations:
    * `AddrSpaceManager`
    * `AddrSpaceManager.insertSpace`
    * `AddrSpaceManager.copySpaces`
    * `AddrSpaceManager.setDefaultDataSpace`
    * `Translate`
-/

------------------------------------------------------------
-- The Manager of the Spaces
------------------------------------------------------------

namespace LLDBGhidra

/-
  All spaces, each at its index.  The map of their names is the
  one that can be read off the list.
-/
structure AddrSpaceManager where
  baselist : List (Option AddrSpace)
  constantspace : Option SpaceId
  uniqspace : Option SpaceId
  fspecspace : Option SpaceId
  iopspace : Option SpaceId
  joinspace : Option SpaceId
  stackspace : Option SpaceId
  defaultcodespace : Option SpaceId
  defaultdataspace : Option SpaceId
deriving DecidableEq, Repr

namespace AddrSpaceManager

def empty : AddrSpaceManager :=
  ⟨[], none, none, none, none, none, none, none, none⟩

def numSpaces
    (manager : AddrSpaceManager) : Nat :=
  manager.baselist.length

def getSpace
    (manager : AddrSpaceManager)
    (index : SpaceId) : Option AddrSpace :=
  manager.baselist[index]?.join

def getSpaceByName
    (manager : AddrSpaceManager)
    (nm : String) : Option AddrSpace :=
  (manager.baselist.filterMap id).find?
    (fun space => space.name = nm)

/- The space of a name, as decoders look it up. -/
def spaceOf
    (manager : AddrSpaceManager)
    (nm : String) : Option SpaceId :=
  (manager.getSpaceByName nm).map AddrSpace.index

def getDefaultCodeSpace
    (manager : AddrSpaceManager) : Option SpaceId :=
  manager.defaultcodespace

def getDefaultDataSpace
    (manager : AddrSpaceManager) : Option SpaceId :=
  manager.defaultdataspace

/- The data space is the code space, until it is set. -/
def setDefaultCodeSpace
    (index : SpaceId)
    (manager : AddrSpaceManager) :
    Except Halt AddrSpaceManager :=
  if manager.defaultcodespace.isSome then
    .error (lowlevelError "Default space set multiple times")
  else if (manager.getSpace index).isNone then
    .error (lowlevelError "Bad index for default space")
  else
    .ok { manager with
      defaultcodespace := some index
      defaultdataspace := some index }

def setDefaultDataSpace
    (index : SpaceId)
    (manager : AddrSpaceManager) :
    Except Halt AddrSpaceManager :=
  if manager.defaultcodespace.isNone then
    .error (lowlevelError
      "Default data space must be set after the code space")
  else if (manager.getSpace index).isNone then
    .error (lowlevelError "Bad index for default data space")
  else
    .ok { manager with defaultdataspace := some index }

end AddrSpaceManager

end LLDBGhidra

------------------------------------------------------------
-- New Spaces
------------------------------------------------------------

namespace LLDBGhidra

namespace AddrSpaceManager

/- Is the name wrong for the type, and is the role taken? -/
structure InsertCheck where
  nameTypeMismatch : Bool
  duplicateName : Bool
deriving DecidableEq, Repr

/- The part of `insertSpace` for spaces of a processor. -/
def checkProcessor
    (spc : AddrSpace)
    (check : InsertCheck) : Except Halt InsertCheck :=
  if !spc.overlay && spc.otherSpace && spc.index ≠ 1 then
    .error (lowlevelError "OTHER space must be assigned index 1")
  else
    .ok check

def checkInsert
    (manager : AddrSpaceManager)
    (spc : AddrSpace) : Except Halt InsertCheck :=
  match spc.type with
  | .constant =>
      if spc.index ≠ 0 then
        .error (lowlevelError
          "const space must be assigned index 0")
      else
        .ok ⟨spc.name ≠ "const", false⟩
  | .internal =>
      .ok ⟨spc.name ≠ "unique", manager.uniqspace.isSome⟩
  | .fspec =>
      .ok ⟨spc.name ≠ "fspec", manager.fspecspace.isSome⟩
  | .join =>
      .ok ⟨spc.name ≠ "join", manager.joinspace.isSome⟩
  | .iop =>
      .ok ⟨spc.name ≠ "iop", manager.iopspace.isSome⟩
  | .spacebase =>
      checkProcessor spc
        ⟨false,
          spc.name = "stack" && manager.stackspace.isSome⟩
  | .processor => checkProcessor spc ⟨false, false⟩

/- The role that a space plays by its type. -/
def setRole
    (spc : AddrSpace)
    (manager : AddrSpaceManager) : AddrSpaceManager :=
  match spc.type with
  | .constant =>
      { manager with constantspace := some spc.index }
  | .internal => { manager with uniqspace := some spc.index }
  | .fspec => { manager with fspecspace := some spc.index }
  | .join => { manager with joinspace := some spc.index }
  | .iop => { manager with iopspace := some spc.index }
  | .spacebase =>
      if spc.name = "stack" then
        { manager with stackspace := some spc.index }
      else
        manager
  | .processor => manager

/- The space under an overlay is marked. -/
def markOverlayBase
    (spc : AddrSpace)
    (baselist : List (Option AddrSpace)) :
    List (Option AddrSpace) :=
  match spc.contain with
  | none => baselist
  | some index =>
      if spc.overlay then
        baselist.modify index (fun base? =>
          base?.map (fun base =>
            { base with overlayBase := true }))
      else
        baselist

/- The list with room for an index. -/
def resizeTo
    (index : SpaceId)
    (baselist : List (Option AddrSpace)) :
    List (Option AddrSpace) :=
  baselist ++ List.replicate (index + 1 - baselist.length) none

/- What is wrong with a new space. -/
def insertMessage
    (spc : AddrSpace)
    (check : InsertCheck)
    (duplicateId : Option AddrSpace) : String :=
  "Space " ++ spc.name ++
    (if check.nameTypeMismatch then
      " was initialized with wrong type"
    else "") ++
    (if check.duplicateName then
      " was initialized more than once"
    else "") ++
    (match duplicateId with
    | none => ""
    | some other =>
        " was assigned as id duplicating: " ++ other.name)

/- Names are only compared where nothing else is wrong. -/
def insertSpace
    (spc : AddrSpace)
    (manager : AddrSpaceManager) :
    Except Halt AddrSpaceManager := do
  let check ← manager.checkInsert spc
  let duplicateId := manager.getSpace spc.index
  let sound :=
    !check.nameTypeMismatch && !check.duplicateName &&
      duplicateId.isNone
  let duplicateName :=
    check.duplicateName ||
      (sound && (manager.getSpaceByName spc.name).isSome)
  if sound && !duplicateName then
    .ok { setRole spc manager with
      baselist :=
        (resizeTo spc.index
          (markOverlayBase spc manager.baselist)).set
            spc.index (some spc) }
  else
    .error (lowlevelError (insertMessage spc
      { check with duplicateName := duplicateName }
      duplicateId))

/- The same spaces, and the same defaults, as another manager. -/
def copySpaces
    (manager : AddrSpaceManager)
    (op2 : AddrSpaceManager) :
    Except Halt AddrSpaceManager := do
  let manager ←
    (op2.baselist.filterMap id).foldlM
      (fun manager spc => manager.insertSpace spc) manager
  match op2.getDefaultCodeSpace, op2.getDefaultDataSpace with
  | some code, some data => do
      let manager ← manager.setDefaultCodeSpace code
      manager.setDefaultDataSpace data
  | _, _ => .error .undefined

end AddrSpaceManager

end LLDBGhidra

------------------------------------------------------------
-- Spaces That Are Not of the Processor
------------------------------------------------------------

namespace LLDBGhidra

namespace AddrSpace

/- A new space, with its highest offset. -/
def build
    (type : SpaceType)
    (name : String)
    (bigEndian : Bool)
    (addressSize : Nat)
    (wordsize : Nat)
    (wordsizeSmall : wordsize ≤ 128)
    (index : SpaceId)
    (delay : Int) : AddrSpace where
  name := name
  type := type
  index := index
  addressSize := addressSize
  wordsize := wordsize
  wordsizeSmall := wordsizeSmall
  highest := calcScaleMask addressSize wordsize
  highestScaled := calcScaleMask_scaled wordsizeSmall
  delay := delay
  bigEndian := bigEndian
  overlay := false
  overlayBase := false
  otherSpace := false
  truncated := false
  contain := none

/- The endianness of these two is that of the host. -/
def fspec
    (index : SpaceId) : AddrSpace :=
  build .fspec "fspec" false 8 1 bytewise_small index 1

def iop
    (index : SpaceId) : AddrSpace :=
  build .iop "iop" false 8 1 bytewise_small index 1

def join
    (bigEndian : Bool)
    (index : SpaceId) : AddrSpace :=
  build .join "join" bigEndian 4 1 bytewise_small index 0

/- A space over a base, reached from a register. -/
def spacebase
    (bigEndian : Bool)
    (name : String)
    (index : SpaceId)
    (size : Nat)
    (base : AddrSpace)
    (delay : Int) : AddrSpace :=
  { build .spacebase name bigEndian size base.wordsize
      base.wordsizeSmall index delay with
    contain := some base.index }

end AddrSpace

/- What a processor is, once its `.sla` file is loaded. -/
structure Translate where
  manager : AddrSpaceManager
  bigEndian : Bool
  getRegister : String → Except Exn VarnodeData

namespace AddrSpaceManager

/- A stack in a truncated space has a truncated pointer. -/
def truncatedSize
    (manager : AddrSpaceManager)
    (basespace : SpaceId)
    (point : VarnodeData) : Nat :=
  match manager.getSpace basespace with
  | none => point.size.toNat
  | some spc =>
      if spc.truncated ∧ spc.addressSize < point.size.toNat then
        spc.addressSize
      else
        point.size.toNat

/-
  A new space after all others, one round of heritage behind
  the space of its register.
-/
def addSpacebase
    (translate : Translate)
    (basespace : SpaceId)
    (nm : String)
    (ptrdata : VarnodeData)
    (truncSize : Nat)
    (manager : AddrSpaceManager) :
    Except Halt AddrSpaceManager :=
  match manager.getSpace basespace,
      manager.getSpace ptrdata.space with
  | some base, some register =>
      manager.insertSpace
        (AddrSpace.spacebase translate.bigEndian nm
          manager.numSpaces truncSize base (register.delay + 1))
  | _, _ => .error .undefined

end AddrSpaceManager

end LLDBGhidra
