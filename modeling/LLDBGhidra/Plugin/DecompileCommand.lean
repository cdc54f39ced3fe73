import LLDBGhidra.Plugin.ArchMap
import LLDBGhidra.Plugin.LLDBScope

/-
  The `decompile` command (`DecompileCommand.cpp`).

  Main declarations:
    * `parseAddress`
    * `DecompileCommand.resolveArgument`
    * `DecompileCommand.functionStart`
    * `DecompileCommand.doExecute`
-/

------------------------------------------------------------
-- Numbers
------------------------------------------------------------

namespace LLDBGhidra

/- `LLDB_INVALID_ADDRESS` stands for a text that is no address. -/
def parseAddress
    (text : List Char) : BitVec 64 :=
  let str := text.dropWhile isSpace
  if str = [] then
    lldbInvalidAddress
  else if str.head? = some '-' then
    lldbInvalidAddress
  else
    let number := strtoull str
    match number.stop with
    | none => lldbInvalidAddress
    | some stop =>
        if number.erange then
          lldbInvalidAddress
        else if stop.dropWhile isSpace ≠ [] then
          lldbInvalidAddress
        else
          number.value

end LLDBGhidra

------------------------------------------------------------
-- Addresses
------------------------------------------------------------

namespace LLDBGhidra

namespace DecompileCommand

/-
  The first load address that a module gives to a file
  address.
-/
def searchModules
    (modules : List SBModule)
    (addr : BitVec 64) : Option (BitVec 64) :=
  match modules with
  | [] => none
  | mod :: rest =>
      match mod.resolveFileAddress addr with
      | none => searchModules rest addr
      | some loadAddr =>
          if loadAddr ≠ lldbInvalidAddress then
            some loadAddr
          else
            searchModules rest addr

/- The load address that a number is taken for. -/
def numericAddress
    (target : SBTarget)
    (addr : BitVec 64) : BitVec 64 :=
  match target.resolve addr with
  | some _ => addr
  | none => (searchModules target.modules addr).getD addr

/- The start of the first function with a name. -/
def namedAddress
    (target : SBTarget)
    (name : String) : BitVec 64 :=
  match target.findFunctions name with
  | [] => lldbInvalidAddress
  | context :: _ =>
      match context.function with
      | some start => start
      | none =>
          match context.symbol with
          | some symbol => symbol.startAddress
          | none => lldbInvalidAddress

/- All arguments, joined by blanks. -/
def joinArguments
    (command : List String) : String :=
  " ".intercalate command

/- The address to decompile at, or the text of an error. -/
def resolveArgument
    (target : SBTarget)
    (process : SBProcess)
    (argStr : String) : Except String (BitVec 64) :=
  if argStr ≠ "" then
    let parsed := parseAddress argStr.toList
    let decompAddr :=
      if parsed ≠ lldbInvalidAddress then
        numericAddress target parsed
      else
        lldbInvalidAddress
    let decompAddr :=
      if decompAddr = lldbInvalidAddress then
        namedAddress target argStr
      else
        decompAddr
    if decompAddr = lldbInvalidAddress then
      .error ("Could not find function or address: " ++
        argStr ++ "\n")
    else
      .ok decompAddr
  else
    match process.selectedThread with
    | none => .error "No selected thread\n"
    | some thread =>
        match thread.selectedFrame with
        | none => .error "No selected frame\n"
        | some frame => .ok frame.pc

/- The start of the symbol over the address, if it is loaded. -/
def functionStart
    (target : SBTarget)
    (decompAddr : BitVec 64) : BitVec 64 :=
  match target.resolve decompAddr with
  | none => decompAddr
  | some symbol =>
      if symbol.startAddress ≠ lldbInvalidAddress then
        symbol.startAddress
      else
        decompAddr

/- The language of the triple, and the compiler of a module. -/
def languageId
    (target : SBTarget) : Except String String :=
  match sleighIdFromTriple target.triple with
  | .error what => .error what
  | .ok sleighId =>
      match target.modules.head? with
      | none => .ok sleighId
      | some mod =>
          let compiler :=
            compilerFromFormat mod.description sleighId
          if compiler ≠ "" then
            .ok (sleighId ++ ":" ++ compiler)
          else
            .ok sleighId

end DecompileCommand

end LLDBGhidra

------------------------------------------------------------
-- The Command
------------------------------------------------------------

namespace LLDBGhidra

/- A symbol of the processor, as `buildSymbols` reads it. -/
structure DefaultSymbol where
  name : String
  size : BitVec 32
  addr : Address
deriving DecidableEq, Repr

/-
  What becomes of the decompiler library in one command, each
  phase with its result or what it throws.  A symbol of the
  processor that cannot be placed makes `init` throw.
-/
structure Library where
  construct : Except Exn Unit
  init : Except Exn Glb
  defaultSymbols : List DefaultSymbol
  perform : Funcdata → Except Exn Int
  getWarnings : Funcdata → List String
  setPrintLanguage : Funcdata → Except Exn Unit
  docFunction : (ansi : Bool) → Funcdata → Except Exn String

namespace Library

/- The cache of the global scope, once `buildSymbols` is done. -/
def scope
    (library : Library)
    (glb : Glb) : ScopeInternal :=
  library.defaultSymbols.foldl
    (fun scope symbol =>
      ((LLDBScope.addSymbol glb symbol.name symbol.size
        symbol.addr Address.invalid).run scope).2)
    ScopeInternal.empty

end Library

namespace DecompileCommand

/- The command, as it changes its result object. -/
abbrev Command :=
  Effect Exn SBCommandReturnObject

/- Report an error and return false. -/
def fail
    (error : String) : Command Bool := do
  Effect.modify (SBCommandReturnObject.setError error)
  pure false

/- An address as a stream prints it in hexadecimal. -/
def hexAddress
    (addr : BitVec 64) : String :=
  String.ofList (Nat.toDigits 16 addr.toNat)

/- Decompile and print a function. -/
def decompileFunction
    (library : Library)
    (isTty : Bool)
    (func : Funcdata) : Command Bool := do
  let res ← Effect.query (fun _ => library.perform func)
  if res < 0 then
    fail "Decompilation interrupted\n"
  else do
    Effect.forEach (library.getWarnings func) (fun warning =>
      Effect.modify (SBCommandReturnObject.appendWarning
        ("[lldbghidra] " ++ warning ++ "\n")))
    Effect.query (fun _ => library.setPrintLanguage func)
    let output ←
      Effect.query (fun _ => library.docFunction isTty func)
    Effect.modify (fun result =>
      if output ≠ "" then
        result.appendMessage output
      else
        result)
    Effect.modify SBCommandReturnObject.setSuccess
    pure true

/- Set the library up and decompile the function at the start. -/
def decompile
    (library : Library)
    (isTty : Bool)
    (resolve : Resolver)
    (funcStart : BitVec 64) : Command Bool := do
  Effect.query (fun _ => library.construct)
  let glb ← Effect.query (fun _ => library.init)
  let func ← Effect.query (fun _ =>
    ((LLDBScope.findFunction glb resolve
      (Address.ofSpace glb.defaultCodeSpace funcStart)).run
        (library.scope glb)).1)
  match func with
  | none =>
      fail ("No function found at address 0x" ++
        hexAddress funcStart ++ "\n")
  | some func => decompileFunction library isTty func

/- The two handlers of the command. -/
def handler
    (error : Exn) : Option (Command Bool) :=
  match error with
  | .lowlevelError _ explain =>
      some (fail ("Decompiler error: " ++ explain ++ "\n"))
  | .stdException what =>
      some (fail ("Error: " ++ what ++ "\n"))
  | .decoderError _ => none

/- Decompile the function over an address of the target. -/
def decompileAt
    (arch : SBTarget → String → Library)
    (isTty : Bool)
    (target : SBTarget)
    (decompAddr : BitVec 64) : Command Bool :=
  match languageId target with
  | .error what =>
      fail ("Architecture error: " ++ what ++ "\n")
  | .ok sleighId =>
      Effect.handle
        (decompile (arch target sleighId) isTty target.resolve
          (functionStart target decompAddr))
        handler

/- `DecompileCommand::DoExecute`. -/
def doExecute
    (arch : SBTarget → String → Library)
    (isTty : Bool)
    (debugger : SBDebugger)
    (command : List String) : Command Bool :=
  match debugger.selectedTarget with
  | none => fail "No target selected\n"
  | some target =>
      match target.process with
      | none =>
          fail ("No process running. " ++
            "Attach to or launch a process first.\n")
      | some process =>
          match resolveArgument target process
              (joinArguments command) with
          | .error err => fail err
          | .ok decompAddr =>
              decompileAt arch isTty target decompAddr

end DecompileCommand

end LLDBGhidra
