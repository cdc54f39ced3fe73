import LLDBGhidra.Decompiler.Database
import LLDBGhidra.Plugin.Lldb

/-
  The scope that asks the debugger for functions
  (`LLDBScope.cpp`).  Its state is its cache.

  Main declarations:
    * `LLDBScope.registerFunction`
    * `LLDBScope.queryLLDB`
    * `LLDBScope.findAddr`
    * `LLDBScope.findContainer`
    * `LLDBScope.findFunction`
    * `LLDBScope.run`
-/

------------------------------------------------------------
-- Queries
------------------------------------------------------------

namespace LLDBGhidra

/- The name under which a symbol is registered. -/
def SBSymbol.funcName
    (symbol : SBSymbol) : String :=
  let name :=
    match symbol.name with
    | none => "func_unknown"
    | some name => if name = "" then "func_unknown" else name
  match symbol.displayName with
  | none => name
  | some displayName => displayName

namespace LLDBScope

open ScopeInternal (M)

/-
  Register a valid symbol as a function.  The end address that
  the source computes here is not used.
-/
def registerFunction
    (glb : Glb)
    (symbol : SBSymbol) : M (Option Symbol) :=
  if symbol.startAddress = lldbInvalidAddress then
    pure none
  else do
    let funcAddr :=
      Address.ofSpace glb.defaultCodeSpace symbol.startAddress
    let existing ← Effect.query (fun cache =>
      cache.findFunction funcAddr)
    match existing with
    | some fd => pure (some fd.symbol)
    | none => do
        let funcSym ←
          ScopeInternal.addFunction glb funcAddr symbol.funcName
        pure (some funcSym)

def queryLLDBAbsolute
    (glb : Glb)
    (resolve : Resolver)
    (addr : BitVec 64)
    (contain : Bool) : M (Option Symbol) :=
  match resolve addr with
  | none => pure none
  | some symbol =>
      if !contain && symbol.startAddress ≠ addr then
        pure none
      else if symbol.isCode then
        registerFunction glb symbol
      else
        pure none

/- The query does not look at the space of the address. -/
def queryLLDB
    (glb : Glb)
    (resolve : Resolver)
    (addr : Address)
    (contain : Bool) : M (Option Symbol) :=
  queryLLDBAbsolute glb resolve addr.offset contain

/- The storage location of the symbol of a query. -/
def mapEntryOf
    (sym : Option Symbol)
    (addr : Address) : M (Option SymbolEntry) :=
  match sym with
  | none => pure none
  | some sym =>
      Effect.gets (fun cache => cache.getMapEntry sym addr)

def findAddr
    (glb : Glb)
    (resolve : Resolver)
    (addr usepoint : Address) : M (Option SymbolEntry) := do
  let entry ← Effect.gets (fun cache =>
    cache.findAddr addr usepoint)
  match entry with
  | some entry => pure (some entry)
  | none => do
      let sym ← queryLLDB glb resolve addr false
      mapEntryOf sym addr

def findContainer
    (glb : Glb)
    (resolve : Resolver)
    (addr : Address)
    (size : Int)
    (usepoint : Address) : M (Option SymbolEntry) := do
  let entry ← Effect.gets (fun cache =>
    cache.findContainer addr size usepoint)
  match entry with
  | some entry => pure (some entry)
  | none => do
      let sym ← queryLLDB glb resolve addr true
      mapEntryOf sym addr

/- The function at the address, if a query found a symbol. -/
def functionOf
    (sym : Option Symbol)
    (addr : Address) : M (Option Funcdata) :=
  match sym with
  | none => pure none
  | some _ =>
      Effect.query (fun cache => cache.findFunction addr)

def findFunction
    (glb : Glb)
    (resolve : Resolver)
    (addr : Address) : M (Option Funcdata) := do
  let fd ← Effect.query (fun cache => cache.findFunction addr)
  match fd with
  | some fd => pure (some fd)
  | none => do
      let sym ← queryLLDB glb resolve addr false
      functionOf sym addr

/- What is behind the last sub-range of a table is undefined. -/
def clear : M Unit := do
  let cleared ← Effect.gets ScopeInternal.clear
  match cleared with
  | none => Effect.throw (.stdException "end of a table")
  | some cleared => Effect.modify (fun _ => cleared)

def addSymbol
    (glb : Glb)
    (name : String)
    (typeSize : BitVec 32)
    (addr usepoint : Address) : M Unit :=
  ScopeInternal.addSymbol glb name typeSize addr usepoint

end LLDBScope

end LLDBGhidra

------------------------------------------------------------
-- Histories
------------------------------------------------------------

namespace LLDBGhidra

namespace LLDBScope

open ScopeInternal (M)

/- A call of one of the operations above. -/
inductive Request where
| findAddr :
    (addr : Address) → (usepoint : Address) → Request
| findContainer :
    (addr : Address) → (size : Int) →
      (usepoint : Address) → Request
| findFunction : (addr : Address) → Request
| clear : Request
| addSymbol :
    (name : String) → (typeSize : BitVec 32) →
      (addr : Address) → (usepoint : Address) → Request
deriving DecidableEq, Repr

/- What a caller learns about the symbol that was found. -/
structure Answer where
  start : Address
  name : String
  isFunction : Bool
deriving DecidableEq, Repr

def Answer.ofEntry
    (entry : SymbolEntry) : Answer :=
  { start := entry.addr
    name := entry.symbol.name
    isFunction := entry.symbol.isFunction }

def Answer.ofFuncdata
    (fd : Funcdata) : Answer :=
  { start := fd.baseaddr
    name := fd.name
    isFunction := true }

/- Serve one call. -/
def serve
    (glb : Glb)
    (resolve : Resolver)
    (request : Request) : M (Option Answer) :=
  match request with
  | .findAddr addr usepoint => do
      let entry ← findAddr glb resolve addr usepoint
      pure (entry.map Answer.ofEntry)
  | .findContainer addr size usepoint => do
      let entry ← findContainer glb resolve addr size usepoint
      pure (entry.map Answer.ofEntry)
  | .findFunction addr => do
      let fd ← findFunction glb resolve addr
      pure (fd.map Answer.ofFuncdata)
  | .clear => do
      clear
      pure none
  | .addSymbol name typeSize addr usepoint => do
      addSymbol glb name typeSize addr usepoint
      pure none

/- The answer to a call on the given cache. -/
def answer
    (glb : Glb)
    (resolve : Resolver)
    (request : Request)
    (cache : ScopeInternal) : Except Exn (Option Answer) :=
  ((serve glb resolve request).run cache).1

/- The cache after some calls; it is kept when one throws. -/
def run
    (glb : Glb)
    (resolve : Resolver)
    (history : List Request)
    (cache : ScopeInternal) : ScopeInternal :=
  history.foldl
    (fun cache request =>
      ((serve glb resolve request).run cache).2)
    cache

end LLDBScope

end LLDBGhidra
