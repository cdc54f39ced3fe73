import Mathlib.Data.BitVec

/-
  What the plugin reads from the debugger, and what it reports
  to it.

  Main declarations:
    * `SBSymbol`
    * `Resolver`
    * `MemoryRead`
    * `SBTarget`
    * `SBTarget.InLoadedSection`
    * `SBCommandReturnObject`
-/

------------------------------------------------------------
-- Symbols
------------------------------------------------------------

namespace LLDBGhidra

/- `LLDB_INVALID_ADDRESS`. -/
def lldbInvalidAddress : BitVec 64 :=
  BitVec.allOnes 64

/- `lldb::SymbolType`; the other types are treated alike. -/
inductive SymbolType where
| code : SymbolType
| resolver : SymbolType
| trampoline : SymbolType
| data : SymbolType
| other : SymbolType
deriving DecidableEq, Repr

/-
  A valid symbol.  Its start is the load address of its start
  address in the target, if that is loaded.
-/
structure SBSymbol where
  name : Option String
  displayName : Option String
  type : SymbolType
  startAddress : BitVec 64
deriving DecidableEq, Repr

/-
  The symbol of the context that a load address resolves to,
  if there is a valid one.
-/
abbrev Resolver :=
  BitVec 64 → Option SBSymbol

namespace SBSymbol

/- Is the symbol one that the plugin takes for a function? -/
def isCode
    (symbol : SBSymbol) : Bool :=
  symbol.type = .code || symbol.type = .resolver

/- Is the start of the symbol loaded? -/
def isLoaded
    (symbol : SBSymbol) : Bool :=
  symbol.startAddress ≠ lldbInvalidAddress

end SBSymbol

end LLDBGhidra

------------------------------------------------------------
-- Targets
------------------------------------------------------------

namespace LLDBGhidra

/-
  A section; it need not be loaded.  Permissions that are not
  known are zero.
-/
structure SBSection where
  isValid : Bool
  permissions : BitVec 32
  loadAddress : BitVec 64
  byteSize : BitVec 64
deriving DecidableEq, Repr

/- `lldb::ePermissionsWritable`. -/
def permissionsWritable : BitVec 32 :=
  1

namespace SBSection

def isWritable
    (part : SBSection) : Bool :=
  part.permissions &&& permissionsWritable ≠ 0

/- The address is one of the loaded bytes of the section. -/
def Contains
    (part : SBSection)
    (addr : BitVec 64) : Prop :=
  part.loadAddress ≠ lldbInvalidAddress ∧
    part.loadAddress ≤ addr ∧
    addr.toNat < part.loadAddress.toNat + part.byteSize.toNat

instance
    (part : SBSection)
    (addr : BitVec 64) :
    Decidable (part.Contains addr) := by
  unfold Contains
  infer_instance

end SBSection

/-
  A module.  A file address may resolve to an address of the
  module, which then has a load address if it is loaded.
-/
structure SBModule where
  description : String
  sections : List SBSection
  resolveFileAddress : BitVec 64 → Option (BitVec 64)

structure SBFrame where
  pc : BitVec 64

structure SBThread where
  selectedFrame : Option SBFrame

/-
  What a read of memory supplies: bytes from its start, whose
  number it returns, and the error that may come with them.
-/
structure MemoryRead where
  bytes : List (BitVec 8)
  failed : Bool
deriving DecidableEq, Repr

namespace MemoryRead

/- A read that fails altogether. -/
def unreadable : MemoryRead :=
  { bytes := []
    failed := true }

end MemoryRead

/- Memory is read at an address, for a number of bytes. -/
structure SBProcess where
  selectedThread : Option SBThread
  readMemory : BitVec 64 → Nat → MemoryRead

/- The start of a function that was looked up by name. -/
structure SBSymbolContext where
  function : Option (BitVec 64)
  symbol : Option SBSymbol

/-
  A target.  A load address need not make a valid address, at
  which the target reads from the object files.
-/
structure SBTarget where
  triple : String
  process : Option SBProcess
  modules : List SBModule
  resolve : Resolver
  findFunctions : String → List SBSymbolContext
  isLoadAddress : BitVec 64 → Bool
  readMemory : BitVec 64 → Nat → MemoryRead

structure SBDebugger where
  selectedTarget : Option SBTarget

namespace SBTarget

/- The address is in a loaded section of some module. -/
def InLoadedSection
    (target : SBTarget)
    (addr : BitVec 64) : Prop :=
  ∃ mod ∈ target.modules, ∃ part ∈ mod.sections,
    part.Contains addr

end SBTarget

end LLDBGhidra

------------------------------------------------------------
-- Results
------------------------------------------------------------

namespace LLDBGhidra

/- What a command reports. -/
structure SBCommandReturnObject where
  error : Option String
  warnings : List String
  messages : List String
  succeeded : Bool
deriving DecidableEq, Repr

namespace SBCommandReturnObject

def empty : SBCommandReturnObject :=
  { error := none
    warnings := []
    messages := []
    succeeded := false }

def setError
    (error : String)
    (result : SBCommandReturnObject) : SBCommandReturnObject :=
  { result with
    error := some error
    succeeded := false }

def appendWarning
    (warning : String)
    (result : SBCommandReturnObject) : SBCommandReturnObject :=
  { result with warnings := result.warnings ++ [warning] }

def appendMessage
    (message : String)
    (result : SBCommandReturnObject) : SBCommandReturnObject :=
  { result with messages := result.messages ++ [message] }

/- `SetStatus` with the status of a finished result. -/
def setSuccess
    (result : SBCommandReturnObject) : SBCommandReturnObject :=
  { result with succeeded := true }

end SBCommandReturnObject

end LLDBGhidra
