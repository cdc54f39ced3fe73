import LLDBGhidra.Plugin.DecompileCommand
import LLDBGhidra.Plugin.LLDBScopeHistory

/-
  How a numeric argument of the command becomes the address of
  a function.

  Main declarations:
    * `DecompileCommand.numeric_arguments_agree`
    * `DecompileCommand.resolved_from_itself_iff`
-/

------------------------------------------------------------
-- Numeric Arguments
------------------------------------------------------------

namespace LLDBGhidra

namespace DecompileCommand

/- The arguments of the command are the number `addr`. -/
def IsNumeric
    (command : List String)
    (addr : BitVec 64) : Prop :=
  parseAddress (joinArguments command).toList = addr ∧
    addr ≠ lldbInvalidAddress

instance
    (command : List String)
    (addr : BitVec 64) :
    Decidable (IsNumeric command addr) :=
  inferInstanceAs (Decidable (_ ∧ _))

variable {target : SBTarget}
variable {addr : BitVec 64}

theorem searchModules_ne_invalid
    {modules : List SBModule}
    {loadAddr : BitVec 64}
    (hFound : searchModules modules addr = some loadAddr) :
    loadAddr ≠ lldbInvalidAddress := by
  induction modules with
  | nil => cases hFound
  | cons mod rest ih =>
      unfold searchModules at hFound
      cases hResolved : mod.resolveFileAddress addr with
      | none =>
          rw [hResolved] at hFound
          exact ih hFound
      | some candidate =>
          simp only [hResolved] at hFound
          split at hFound
          next hLoaded =>
            cases hFound
            exact hLoaded
          next => exact ih hFound

theorem numericAddress_ne_invalid
    (hAddr : addr ≠ lldbInvalidAddress) :
    numericAddress target addr ≠ lldbInvalidAddress := by
  unfold numericAddress
  cases target.resolve addr with
  | some symbol => exact hAddr
  | none =>
      cases hFound : searchModules target.modules addr with
      | none => exact hAddr
      | some loadAddr => exact searchModules_ne_invalid hFound

/- A number is never looked up as a name. -/
theorem resolveArgument_of_isNumeric
    {command : List String}
    (hNumeric : IsNumeric command addr)
    (process : SBProcess) :
    resolveArgument target process (joinArguments command) =
      .ok (numericAddress target addr) := by
  rcases hNumeric with ⟨hParse, hAddr⟩
  have hNonempty : joinArguments command ≠ "" := by
    intro hEmpty
    rw [hEmpty] at hParse
    exact hAddr hParse.symm
  unfold resolveArgument
  simp only [hNonempty, ne_eq, not_false_eq_true, if_true,
    hParse, hAddr, numericAddress_ne_invalid, if_false]

/- Nothing is searched for where the debugger has a symbol. -/
theorem numericAddress_of_symbol
    {symbol : SBSymbol}
    (hSymbol : target.resolve addr = some symbol) :
    numericAddress target addr = addr := by
  simp [numericAddress, hSymbol]

/- The search finds the only module with a loaded address. -/
theorem searchModules_of_unique
    {before after : List SBModule}
    {mod : SBModule}
    {loadAddr : BitVec 64}
    (hMapped : mod.resolveFileAddress addr = some loadAddr)
    (hLoaded : loadAddr ≠ lldbInvalidAddress)
    (hOthers :
      ∀ other ∈ before ++ after, ∀ otherAddr,
        other.resolveFileAddress addr = some otherAddr →
          otherAddr = lldbInvalidAddress) :
    searchModules (before ++ mod :: after) addr =
      some loadAddr := by
  induction before with
  | nil => simp [searchModules, hMapped, hLoaded]
  | cons head rest ih =>
      have hRest := ih (fun other hOther =>
        hOthers other (List.mem_cons_of_mem _ hOther))
      rw [List.cons_append]
      unfold searchModules
      cases hHead : head.resolveFileAddress addr with
      | none => exact hRest
      | some headAddr =>
          have hUnloaded := hOthers head List.mem_cons_self
            headAddr hHead
          simp [hUnloaded, hRest]

end DecompileCommand

end LLDBGhidra

------------------------------------------------------------
-- The Function at a Start
------------------------------------------------------------

namespace LLDBGhidra

namespace LLDBScope

open ScopeInternal (HasFunction Wellformed)

variable {glb : Glb}
variable {resolve : Resolver}
variable {symbol : SBSymbol}

/- A consistent scope without functions. -/
structure DataOnly
    (glb : Glb)
    (scope : ScopeInternal) : Prop where
  wellformed : Wellformed glb none scope
  noFunction : ∀ id name start,
    ¬ HasFunction scope id name start

variable {scope : ScopeInternal}

theorem dataOnly_empty
    (glb : Glb) :
    DataOnly glb ScopeInternal.empty := by
  refine ⟨ScopeInternal.wellformed_empty glb, ?_⟩
  intro id name start hFunction
  rcases hFunction with ⟨symbol, hSymbol, _⟩
  cases hSymbol

theorem DataOnly.addSymbol
    (hScope : DataOnly glb scope)
    (name : String)
    (typeSize : BitVec 32)
    (addr usepoint : Address) :
    DataOnly glb
      ((LLDBScope.addSymbol glb name typeSize addr
        usepoint).run scope).2 := by
  have hAdded := hScope.wellformed.addSymbol name typeSize
    addr usepoint
  refine ⟨hAdded.wellformed, ?_⟩
  intro id other start hFunction
  exact hScope.noFunction id other start
    ((hAdded.functions id other start).mp hFunction)

/- The symbols of the processor are no functions. -/
theorem dataOnly_scope
    (library : Library)
    (glb : Glb) :
    DataOnly glb (library.scope glb) := by
  unfold Library.scope
  apply List.foldlRecOn (motive := DataOnly glb)
  · exact dataOnly_empty glb
  · intro scope hScope symbol _
    exact hScope.addSymbol symbol.name symbol.size symbol.addr
      Address.invalid

theorem DataOnly.findFunction
    (hScope : DataOnly glb scope)
    (addr : Address) :
    scope.findFunction addr = .ok none := by
  rcases hScope.wellformed.findFunction_spec addr with
    ⟨stored, hStored, hFunction, entry, hMapped, _⟩ |
      ⟨hMissing, _⟩
  · exact absurd (hMapped.hasFunction hStored hFunction)
      (hScope.noFunction _ _ _)
  · exact hMissing

/-
  A scope without functions finds the function of a symbol at
  its start, if its bytes are in the code space and the scope
  has a name for it.
-/
theorem findFunction_dataOnly
    (hScope : DataOnly glb scope)
    (hSymbol :
      candidate resolve symbol.startAddress false =
        some symbol)
    (hPlace :
      symbol.startAddress.toNat +
          glb.minFuncsymbolSize.toNat ≤
        (glb.space glb.defaultCodeSpace).highest.toNat + 1)
    (hName : ∃ finalName,
      ScopeInternal.newName scope symbol.funcName =
        .ok finalName) :
    ∃ func,
      func.baseaddr =
          Address.ofSpace glb.defaultCodeSpace
            symbol.startAddress ∧
        ((LLDBScope.findFunction glb resolve
          (Address.ofSpace glb.defaultCodeSpace
            symbol.startAddress)).run scope).1 =
          .ok (some func) := by
  have hMissing := hScope.findFunction
    (Address.ofSpace glb.defaultCodeSpace symbol.startAddress)
  have hOutcome := registration hScope.wellformed symbol
  generalize hRun : (registerFunction glb symbol).run
    scope = outcome at hOutcome
  have hLookup :
      (LLDBScope.findFunction glb resolve
        (Address.ofSpace glb.defaultCodeSpace
          symbol.startAddress)).run scope =
        (queryLLDB glb resolve
            (Address.ofSpace glb.defaultCodeSpace
              symbol.startAddress) false >>= fun sym =>
          functionOf sym
            (Address.ofSpace glb.defaultCodeSpace
              symbol.startAddress)).run scope := by
    unfold LLDBScope.findFunction
    rw [Effect.run_bind, Effect.run_query, hMissing]
  have hQuery : (queryLLDB glb resolve
        (Address.ofSpace glb.defaultCodeSpace
          symbol.startAddress) false).run scope = outcome := by
    rw [run_queryLLDB]
    simp only [Address.ofSpace, hSymbol, hRun]
  cases hOutcome with
  | unloaded hUnloaded =>
      have hLoaded := (candidate_eq_some_iff.mp hSymbol).2.2.1
      rw [hLoaded] at hUnloaded
      cases hUnloaded
  | existing hFound => rw [hMissing] at hFound; cases hFound
  | failed _ hFailed =>
      rcases hName with ⟨finalName, hName⟩
      rw [hName] at hFailed
      cases hFailed
  | @added found cache' _ _ hAdded =>
      rw [hLookup, Effect.run_bind_of_ok hQuery]
      rcases hAdded.wellformed.findFunction_spec
          (Address.ofSpace glb.defaultCodeSpace
            symbol.startAddress) with
        ⟨stored, _, _, entry, hMapped, _, hHit⟩ | ⟨_, hNone⟩
      · exact ⟨_, hMapped.addr, hHit⟩
      · apply absurd _ (hNone rfl
          (ScopeInternal.start_le_functionEnd hPlace)
          found.symbolId found.name)
        exact (hAdded.functions _ _ _).mpr
          (Or.inl ⟨rfl, rfl, rfl⟩)

/- Without a code symbol at the start nothing is found. -/
theorem findFunction_dataOnly_none
    {start : BitVec 64}
    (hScope : DataOnly glb scope)
    (hNone : candidate resolve start false = none) :
    ((LLDBScope.findFunction glb resolve
      (Address.ofSpace glb.defaultCodeSpace start)).run
        scope).1 = .ok none := by
  have hMissing := hScope.findFunction
    (Address.ofSpace glb.defaultCodeSpace start)
  unfold LLDBScope.findFunction
  rw [Effect.run_bind, Effect.run_query, hMissing]
  simp only []
  rw [Effect.run_bind, run_queryLLDB]
  simp only [Address.ofSpace, hNone, functionOf,
    Effect.run_pure]

end LLDBScope

end LLDBGhidra

------------------------------------------------------------
-- Agreement with the Scope
------------------------------------------------------------

namespace LLDBGhidra

namespace DecompileCommand

/- The symbol over the start of a symbol is that symbol. -/
def CoherentStarts
    (resolve : Resolver) : Prop :=
  ∀ addr symbol, resolve addr = some symbol →
    symbol.isLoaded →
      resolve symbol.startAddress = some symbol

/- Only one module gives a load address to a file address. -/
def MappedOnce
    (modules : List SBModule)
    (addr loadAddr : BitVec 64) : Prop :=
  ∃ before mod after, modules = before ++ mod :: after ∧
    mod.resolveFileAddress addr = some loadAddr ∧
      loadAddr ≠ lldbInvalidAddress ∧
      ∀ other ∈ before ++ after, ∀ otherAddr,
        other.resolveFileAddress addr = some otherAddr →
          otherAddr = lldbInvalidAddress

/- No `DecoderError` is thrown while the library is set up. -/
def Library.SetUpHandled
    (library : Library) : Prop :=
  (∀ explain, library.construct ≠ .error (.decoderError explain)) ∧
    ∀ explain, library.init ≠ .error (.decoderError explain)

variable {arch : SBTarget → String → Library}
variable {isTty : Bool}
variable {debugger : SBDebugger}
variable {target : SBTarget}
variable {process : SBProcess}

/- The command depends on its number only through the start. -/
theorem doExecute_of_isNumeric
    (hTarget : debugger.selectedTarget = some target)
    (hProcess : target.process = some process)
    {command : List String}
    {addr : BitVec 64}
    (hNumeric : IsNumeric command addr) :
    doExecute arch isTty debugger command =
      decompileAt arch isTty target
        (numericAddress target addr) := by
  unfold doExecute
  simp only [hTarget, hProcess,
    resolveArgument_of_isNumeric hNumeric process]

/- Once the library is set up, its function is decompiled. -/
theorem run_decompile_of_found
    {library : Library}
    {glb : Glb}
    {resolve : Resolver}
    {funcStart : BitVec 64}
    {func : Funcdata}
    (hConstruct : library.construct = .ok ())
    (hInit : library.init = .ok glb)
    (hFound :
      ((LLDBScope.findFunction glb resolve
        (Address.ofSpace glb.defaultCodeSpace funcStart)).run
          (library.scope glb)).1 = .ok (some func))
    (result : SBCommandReturnObject) :
    (decompile library isTty resolve funcStart).run result =
      (decompileFunction library isTty func).run result := by
  unfold decompile
  rw [Effect.run_query_bind_of_ok hConstruct,
    Effect.run_query_bind_of_ok hInit,
    Effect.run_query_bind_of_ok hFound]

/- Where the library has no function, the command says so. -/
theorem run_decompile_of_missing
    {library : Library}
    {glb : Glb}
    {resolve : Resolver}
    {funcStart : BitVec 64}
    (hConstruct : library.construct = .ok ())
    (hInit : library.init = .ok glb)
    (hMissing :
      ((LLDBScope.findFunction glb resolve
        (Address.ofSpace glb.defaultCodeSpace funcStart)).run
          (library.scope glb)).1 = .ok none)
    (result : SBCommandReturnObject) :
    (decompile library isTty resolve funcStart).run result =
      (.ok false, result.setError
        ("No function found at address 0x" ++
          hexAddress funcStart ++ "\n")) := by
  unfold decompile
  rw [Effect.run_query_bind_of_ok hConstruct,
    Effect.run_query_bind_of_ok hInit,
    Effect.run_query_bind_of_ok hMissing]
  rfl

/- A handled exception becomes an error of the command. -/
theorem run_handle_of_handled
    {block : Command Bool}
    {error : Exn}
    {result result' : SBCommandReturnObject}
    (hRun : block.run result = (.error error, result'))
    (hHandled : ∀ explain, error ≠ .decoderError explain) :
    ∃ text,
      (Effect.handle block handler).run result =
        (.ok false, result'.setError text) := by
  rw [Effect.run_handle_of_error hRun]
  cases error with
  | lowlevelError errorClass explain => exact ⟨_, rfl⟩
  | stdException what => exact ⟨_, rfl⟩
  | decoderError explain =>
      exact absurd rfl (hHandled explain)

/- Without a function the command ends with an error. -/
theorem run_handle_decompile_of_missing
    {library : Library}
    {resolve : Resolver}
    {funcStart : BitVec 64}
    (hHandled : Library.SetUpHandled library)
    (hMissing : ∀ glb,
      ((LLDBScope.findFunction glb resolve
        (Address.ofSpace glb.defaultCodeSpace funcStart)).run
          (library.scope glb)).1 = .ok none)
    (result : SBCommandReturnObject) :
    ∃ error,
      (Effect.handle (decompile library isTty resolve funcStart)
          handler).run result =
        (.ok false, result.setError error) := by
  cases hConstruct : library.construct with
  | error error =>
      apply run_handle_of_handled
      · unfold decompile
        exact Effect.run_query_bind_of_error hConstruct result
      · intro explain hSame
        rw [hSame] at hConstruct
        exact hHandled.1 explain hConstruct
  | ok _ =>
      cases hInit : library.init with
      | error error =>
          apply run_handle_of_handled
          · unfold decompile
            rw [Effect.run_query_bind_of_ok hConstruct]
            exact Effect.run_query_bind_of_error hInit result
          · intro explain hSame
            rw [hSame] at hInit
            exact hHandled.2 explain hInit
      | ok glb =>
          exact ⟨_, Effect.run_handle_of_ok
            (run_decompile_of_missing hConstruct hInit
              (hMissing glb) result)⟩

/- A file address is taken for its only load address. -/
theorem numericAddress_of_mappedOnce
    {addr loadAddr : BitVec 64}
    (hNone : target.resolve addr = none)
    (hMapped : MappedOnce target.modules addr loadAddr) :
    numericAddress target addr = loadAddr := by
  rcases hMapped with
    ⟨before, mod, after, hModules, hResolved, hLoaded,
      hOthers⟩
  have hSearch : searchModules target.modules addr =
      some loadAddr := by
    rw [hModules]
    exact searchModules_of_unique hResolved hLoaded hOthers
  simp [numericAddress, hNone, hSearch]

theorem functionStart_of_symbol
    {addr : BitVec 64}
    {symbol : SBSymbol}
    (hSymbol : target.resolve addr = some symbol)
    (hLoaded : symbol.isLoaded) :
    functionStart target addr = symbol.startAddress := by
  have hValid : symbol.startAddress ≠ lldbInvalidAddress := by
    simpa [SBSymbol.isLoaded] using hLoaded
  simp [functionStart, hSymbol, hValid]

/- No function is found where no code symbol is loaded. -/
theorem candidate_functionStart
    {addr : BitVec 64}
    (hCoherent : CoherentStarts target.resolve)
    (hNoCode :
      ∀ symbol, target.resolve addr = some symbol →
        symbol.isCode → symbol.isLoaded = false) :
    LLDBScope.candidate target.resolve
      (functionStart target addr) false = none := by
  apply Option.eq_none_iff_forall_ne_some.mpr
  intro symbol hCandidate
  have hPlace := LLDBScope.candidate_eq_some_iff.mp hCandidate
  unfold functionStart at hPlace
  cases hSymbol : target.resolve addr with
  | none =>
      rw [hSymbol] at hPlace
      simp only [hSymbol] at hPlace
      cases hPlace.1
  | some found =>
      simp only [hSymbol] at hPlace
      have hSame : found = symbol := by
        split at hPlace
        next hLoaded =>
          have hStart := hCoherent addr found hSymbol
            (by simpa [SBSymbol.isLoaded] using hLoaded)
          rw [hStart] at hPlace
          exact Option.some.inj hPlace.1
        next =>
          rw [hSymbol] at hPlace
          exact Option.some.inj hPlace.1
      subst hSame
      have hUnloaded := hNoCode found hSymbol hPlace.2.1
      rw [hPlace.2.2.1] at hUnloaded
      cases hUnloaded

/-
  The command and the scope agree on numeric arguments.
  First, every number inside a code symbol leads to the
  function at its start, if its bytes are in the code space
  and the scope has a name for it.
  Second, a file address is taken for the load address that
  one module gives to it.  Third, a number that leads to no
  loaded code symbol ends with an error.
-/
theorem numeric_arguments_agree
    (arch : SBTarget → String → Library)
    (isTty : Bool)
    (debugger : SBDebugger)
    (target : SBTarget)
    (process : SBProcess)
    (hTarget : debugger.selectedTarget = some target)
    (hProcess : target.process = some process)
    (hCoherent : CoherentStarts target.resolve) :
    (∀ sleighId glb origin symbol,
      languageId target = .ok sleighId →
        (arch target sleighId).construct = .ok () →
        (arch target sleighId).init = .ok glb →
        target.resolve origin = some symbol →
        symbol.isCode → symbol.isLoaded →
        symbol.startAddress.toNat +
            glb.minFuncsymbolSize.toNat ≤
          (glb.space glb.defaultCodeSpace).highest.toNat + 1 →
        (∃ finalName,
          ScopeInternal.newName
              ((arch target sleighId).scope glb)
              symbol.funcName = .ok finalName) →
        ∃ func,
          func.baseaddr =
              Address.ofSpace glb.defaultCodeSpace
                symbol.startAddress ∧
            ∀ command addr, IsNumeric command addr →
              target.resolve addr = some symbol →
                ∀ result,
                  (doExecute arch isTty debugger
                      command).run result =
                    (Effect.handle
                      (decompileFunction (arch target sleighId)
                        isTty func)
                      handler).run result) ∧
      (∀ command addr command' loadAddr,
        IsNumeric command addr → IsNumeric command' loadAddr →
          target.resolve addr = none →
          MappedOnce target.modules addr loadAddr →
          (target.resolve loadAddr).isSome →
            doExecute arch isTty debugger command =
              doExecute arch isTty debugger command') ∧
      (∀ command addr, IsNumeric command addr →
        (∀ symbol,
          target.resolve (numericAddress target addr) =
              some symbol →
            symbol.isCode → symbol.isLoaded = false) →
          (∀ sleighId, languageId target = .ok sleighId →
            Library.SetUpHandled (arch target sleighId)) →
            ∀ result, ∃ error,
              (doExecute arch isTty debugger command).run
                  result =
                (.ok false, result.setError error)) := by
  refine ⟨?_, ?_, ?_⟩
  · intro sleighId glb origin symbol hLanguage hConstruct hInit
      hOrigin hCode hLoaded hPlace hName
    have hStart := hCoherent origin symbol hOrigin hLoaded
    have hCandidate : LLDBScope.candidate target.resolve
        symbol.startAddress false = some symbol :=
      LLDBScope.candidate_eq_some_iff.mpr
        ⟨hStart, hCode, hLoaded, Or.inr rfl⟩
    rcases LLDBScope.findFunction_dataOnly
        (LLDBScope.dataOnly_scope (arch target sleighId) glb)
        hCandidate hPlace hName with
      ⟨func, hAddr, hFound⟩
    refine ⟨func, hAddr, ?_⟩
    intro command addr hNumeric hSymbol result
    have hFuncStart : functionStart target
        (numericAddress target addr) =
          symbol.startAddress := by
      rw [numericAddress_of_symbol hSymbol]
      exact functionStart_of_symbol hSymbol hLoaded
    rw [doExecute_of_isNumeric hTarget hProcess hNumeric]
    unfold decompileAt
    simp only [hLanguage, hFuncStart]
    unfold Effect.handle
    simp only [run_decompile_of_found hConstruct hInit hFound]
  · intro command addr command' loadAddr hNumeric hNumeric'
      hNone hMapped hSome
    rcases Option.isSome_iff_exists.mp hSome with
      ⟨symbol, hSymbol⟩
    have hAddr : numericAddress target addr = loadAddr :=
      numericAddress_of_mappedOnce hNone hMapped
    rw [doExecute_of_isNumeric hTarget hProcess hNumeric,
      doExecute_of_isNumeric hTarget hProcess hNumeric', hAddr,
      numericAddress_of_symbol hSymbol]
  · intro command addr hNumeric hNoCode hHandled result
    rw [doExecute_of_isNumeric hTarget hProcess hNumeric]
    unfold decompileAt
    cases hLanguage : languageId target with
    | error what => exact ⟨_, rfl⟩
    | ok sleighId =>
        apply run_handle_decompile_of_missing
          (hHandled sleighId hLanguage)
        intro glb
        exact LLDBScope.findFunction_dataOnly_none
          (LLDBScope.dataOnly_scope (arch target sleighId) glb)
          (candidate_functionStart hCoherent hNoCode)

/- A library that decompiles every function to its name. -/
def sampleLibrary
    (glb : Glb) : Library where
  construct := .ok ()
  init := .ok glb
  defaultSymbols := []
  perform := fun _ => .ok 0
  getWarnings := fun _ => []
  setPrintLanguage := fun _ => .ok ()
  docFunction := fun _ func => .ok (func.name ++ "();\n")

/- A process without a thread, whose memory cannot be read. -/
def idleProcess : SBProcess where
  selectedThread := none
  readMemory := fun _ _ => .unreadable

/- A target with one function and one module. -/
def sampleTarget
    (triple : String)
    (start : BitVec 64) : SBTarget where
  triple := triple
  process := some idleProcess
  modules :=
    [{ description := "(x86_64) /bin/ls"
       sections := [⟨true, 6, start, 16⟩]
       resolveFileAddress := fun addr =>
        if addr = 0x400 then some start else none }]
  resolve := LLDBScope.sampleResolver start
  findFunctions := fun _ => []
  isLoadAddress := fun _ => false
  readMemory := fun _ _ => .unreadable

theorem coherentStarts_sampleResolver
    (start : BitVec 64)
    (hStart : start.toNat < 2 ^ 63) :
    CoherentStarts (LLDBScope.sampleResolver start) := by
  intro addr symbol hSymbol _
  have hFound : LLDBScope.sampleSymbol start = symbol := by
    unfold LLDBScope.sampleResolver at hSymbol
    split at hSymbol
    next => exact Option.some.inj hSymbol
    next => cases hSymbol
  subst hFound
  have hSixteen : (16 : BitVec 64).toNat = 16 := rfl
  change LLDBScope.sampleResolver start start = _
  unfold LLDBScope.sampleResolver
  apply if_pos
  refine ⟨BitVec.le_refl _, ?_⟩
  rw [BitVec.lt_def, BitVec.toNat_add, hSixteen]
  omega

/- The three parts for one target. -/
theorem numeric_arguments_agree_sample :
    (∃ func,
      func.baseaddr = Address.ofSpace 0 0x1000 ∧
        (doExecute (fun _ _ => sampleLibrary
            LLDBScope.wideGlb) false
            ⟨some (sampleTarget "x86_64" 0x1000)⟩
            ["0x1002"]).run .empty =
          (Effect.handle
            (decompileFunction
              (sampleLibrary LLDBScope.wideGlb) false func)
            handler).run .empty) ∧
      doExecute (fun _ _ => sampleLibrary LLDBScope.wideGlb)
          false ⟨some (sampleTarget "x86_64" 0x1000)⟩
          ["0x400"] =
        doExecute (fun _ _ => sampleLibrary LLDBScope.wideGlb)
          false ⟨some (sampleTarget "x86_64" 0x1000)⟩
          ["0x1000"] ∧
      ∃ error,
        (doExecute (fun _ _ => sampleLibrary LLDBScope.wideGlb)
            false ⟨some (sampleTarget "x86_64" 0x1000)⟩
            ["0x500"]).run .empty =
          (.ok false,
            SBCommandReturnObject.empty.setError error) := by
  have hAgree := numeric_arguments_agree
    (fun _ _ => sampleLibrary LLDBScope.wideGlb) false
    ⟨some (sampleTarget "x86_64" 0x1000)⟩
    (sampleTarget "x86_64" 0x1000) idleProcess rfl rfl
    (coherentStarts_sampleResolver 0x1000 (by decide))
  refine ⟨?_, ?_, ?_⟩
  · rcases hAgree.1 "x86:LE:64:default:gcc" LLDBScope.wideGlb
        0x1000 (LLDBScope.sampleSymbol 0x1000) (by decide) rfl
        rfl (by decide) (by decide) (by decide) (by decide)
        ⟨"main", rfl⟩ with
      ⟨func, hAddr, hRun⟩
    exact ⟨func, hAddr,
      hRun ["0x1002"] 0x1002 (by decide) (by decide) .empty⟩
  · apply hAgree.2.1 ["0x400"] 0x400 ["0x1000"] 0x1000
      (by decide) (by decide) (by decide) _ (by decide)
    exact ⟨[], _, [], rfl, by decide, by decide, by simp⟩
  · apply hAgree.2.2 ["0x500"] 0x500 (by decide)
    · intro symbol hSymbol
      cases hSymbol
    · intro _ _
      refine ⟨?_, ?_⟩
      · intro _ hError
        cases hError
      · intro _ hError
        cases hError

/-
  A code symbol beyond a 32-bit code space is coherent, but
  its function is not found.
-/
theorem function_beyond_code_space_missed :
    CoherentStarts (sampleTarget "i386" 0x100000000).resolve ∧
      IsNumeric ["0x100000000"] 0x100000000 ∧
      (sampleTarget "i386" 0x100000000).resolve 0x100000000 =
        some (LLDBScope.sampleSymbol 0x100000000) ∧
      (LLDBScope.sampleSymbol 0x100000000).isCode ∧
      (LLDBScope.sampleSymbol 0x100000000).isLoaded ∧
      (doExecute (fun _ _ => sampleLibrary LLDBScope.narrowGlb)
          false ⟨some (sampleTarget "i386" 0x100000000)⟩
          ["0x100000000"]).run .empty =
        (.ok false,
          SBCommandReturnObject.empty.setError
            "No function found at address 0x100000000\n") := by
  refine ⟨coherentStarts_sampleResolver _ (by decide),
    by decide, by decide, by decide, by decide, by rfl⟩

/- The same target, whose function has no display name. -/
def namelessSymbol : SBSymbol :=
  { LLDBScope.sampleSymbol 0x1000 with displayName := some "" }

def namelessTarget : SBTarget :=
  { sampleTarget "x86_64" 0x1000 with
    resolve := fun addr =>
      (LLDBScope.sampleResolver 0x1000 addr).map
        (fun _ => namelessSymbol) }

/- A processor that takes the last name for unnamed symbols. -/
def exhaustingLibrary : Library :=
  { sampleLibrary LLDBScope.wideGlb with
    defaultSymbols :=
      [⟨"$$undefffffffff", 1, Address.ofSpace 0 0x8000⟩] }

theorem coherentStarts_namelessTarget :
    CoherentStarts namelessTarget.resolve := by
  intro addr symbol hSymbol _
  rcases Option.map_eq_some_iff.mp hSymbol with
    ⟨_, _, hSame⟩
  subst hSame
  rfl

/- A code symbol that the scope has no name for is missed. -/
theorem nameless_function_missed :
    CoherentStarts namelessTarget.resolve ∧
      IsNumeric ["0x1000"] 0x1000 ∧
      namelessTarget.resolve 0x1000 = some namelessSymbol ∧
      namelessSymbol.isCode ∧ namelessSymbol.isLoaded ∧
      (doExecute (fun _ _ => exhaustingLibrary) false
          ⟨some namelessTarget⟩ ["0x1000"]).run .empty =
        (.ok false,
          SBCommandReturnObject.empty.setError
            ("Decompiler error: " ++
              "Error creating undefined name\n")) := by
  refine ⟨coherentStarts_namelessTarget, by decide, by rfl,
    by decide, by decide, by rfl⟩

/- Both ways in which a code symbol has no function. -/
theorem code_symbols_without_function :
    (IsNumeric ["0x100000000"] 0x100000000 ∧
      CoherentStarts (sampleTarget "i386" 0x100000000).resolve ∧
      (sampleTarget "i386" 0x100000000).resolve 0x100000000 =
        some (LLDBScope.sampleSymbol 0x100000000) ∧
      (LLDBScope.sampleSymbol 0x100000000).isCode ∧
      (LLDBScope.sampleSymbol 0x100000000).isLoaded ∧
      ((doExecute
          (fun _ _ => sampleLibrary LLDBScope.narrowGlb) false
          ⟨some (sampleTarget "i386" 0x100000000)⟩
          ["0x100000000"]).run .empty).1 = .ok false) ∧
      IsNumeric ["0x1000"] 0x1000 ∧
        CoherentStarts namelessTarget.resolve ∧
        namelessTarget.resolve 0x1000 = some namelessSymbol ∧
        namelessSymbol.isCode ∧ namelessSymbol.isLoaded ∧
        ((doExecute (fun _ _ => exhaustingLibrary) false
          ⟨some namelessTarget⟩ ["0x1000"]).run .empty).1 =
            .ok false := by
  rcases function_beyond_code_space_missed with
    ⟨hCoherent, hNumeric, hSymbol, hCode, hLoaded, hRun⟩
  rcases nameless_function_missed with
    ⟨hCoherent', hNumeric', hSymbol', hCode', hLoaded', hRun'⟩
  refine ⟨⟨hNumeric, hCoherent, hSymbol, hCode, hLoaded, ?_⟩,
    hNumeric', hCoherent', hSymbol', hCode', hLoaded', ?_⟩
  · rw [hRun]
  · rw [hRun']

end DecompileCommand

end LLDBGhidra

------------------------------------------------------------
-- File Addresses
------------------------------------------------------------

namespace LLDBGhidra

/- The target with other file addresses in its modules. -/
def SBTarget.withFileAddresses
    (target : SBTarget)
    (fileAddresses : SBModule → BitVec 64 → Option (BitVec 64)) :
    SBTarget :=
  { target with
    modules := target.modules.map (fun mod =>
      { mod with resolveFileAddress := fileAddresses mod }) }

namespace DecompileCommand

/-
  The number is taken for itself, whatever file addresses the
  modules have: no search over the modules decides it.
-/
def ResolvedFromItself
    (target : SBTarget)
    (process : SBProcess)
    (command : List String)
    (addr : BitVec 64) : Prop :=
  ∀ fileAddresses,
    resolveArgument (target.withFileAddresses fileAddresses)
        process (joinArguments command) =
      .ok addr

variable {target : SBTarget}
variable {addr : BitVec 64}

/- When the number itself comes out of the search. -/
theorem numericAddress_eq_iff :
    numericAddress target addr = addr ↔
      (target.resolve addr).isSome ∨
        searchModules target.modules addr = none ∨
        searchModules target.modules addr = some addr := by
  unfold numericAddress
  cases target.resolve addr with
  | some symbol => simp
  | none =>
      cases searchModules target.modules addr with
      | none => simp
      | some loadAddr => simp

/- A load address that the number is not. -/
def otherAddress
    (addr : BitVec 64) : BitVec 64 :=
  if addr = 0 then 1 else 0

theorem otherAddress_ne
    (addr : BitVec 64) :
    otherAddress addr ≠ addr ∧
      otherAddress addr ≠ lldbInvalidAddress := by
  unfold otherAddress
  by_cases hZero : addr = 0
  · rw [if_pos hZero, hZero]
    exact ⟨by decide, by decide⟩
  · rw [if_neg hZero]
    exact ⟨fun hSame => hZero hSame.symm, by decide⟩

/-
  A number in a loaded section stays what it is if and only if
  the debugger has a symbol over it, or the search gives it
  back; it is independent of the file addresses of the modules
  if and only if the debugger has a symbol over it.
-/
theorem resolved_from_itself_iff
    (target : SBTarget)
    (process : SBProcess)
    (command : List String)
    (addr : BitVec 64)
    (hNumeric : IsNumeric command addr)
    (hSection : target.InLoadedSection addr) :
    (resolveArgument target process (joinArguments command) =
        .ok addr ↔
      (target.resolve addr).isSome ∨
        searchModules target.modules addr = none ∨
        searchModules target.modules addr = some addr) ∧
      (ResolvedFromItself target process command addr ↔
        (target.resolve addr).isSome) := by
  constructor
  · rw [resolveArgument_of_isNumeric hNumeric,
      Except.ok.injEq]
    exact numericAddress_eq_iff
  · constructor
    · intro hItself
      have hResolved := hItself
        (fun _ _ => some (otherAddress addr))
      rw [resolveArgument_of_isNumeric hNumeric,
        Except.ok.injEq, numericAddress_eq_iff] at hResolved
      have hOther := otherAddress_ne addr
      have hSearch : searchModules
          (target.withFileAddresses
            (fun _ _ => some (otherAddress addr))).modules
          addr = some (otherAddress addr) := by
        rcases hSection with ⟨mod, hMod, _⟩
        cases hModules : target.modules with
        | nil =>
            rw [hModules] at hMod
            cases hMod
        | cons head rest =>
            simp [SBTarget.withFileAddresses, hModules,
              searchModules, hOther.2]
      rw [hSearch] at hResolved
      rcases hResolved with hSome | hNone | hSame
      · exact hSome
      · cases hNone
      · exact absurd (Option.some.inj hSame) hOther.1
    · intro hSome fileAddresses
      rw [resolveArgument_of_isNumeric hNumeric,
        Except.ok.injEq, numericAddress_eq_iff]
      exact Or.inl hSome

/-
  Two loaded modules: in the first no symbol covers the bytes
  from 0x1800 on, and 0x1800 is a file address of the second.
-/
def strippedTarget : SBTarget where
  triple := "x86_64"
  process := some idleProcess
  modules :=
    [{ description := "(x86_64) /bin/ls"
       sections := [⟨true, 6, 0x1000, 0x1000⟩]
       resolveFileAddress := fun _ => none },
     { description := "(x86_64) /lib/libc.so"
       sections := [⟨true, 6, 0x5000, 0x1000⟩]
       resolveFileAddress := fun addr =>
        if 0x1000 ≤ addr ∧ addr < 0x2000 then
          some (addr + 0x4000)
        else
          none }]
  resolve := fun addr =>
    if 0x5000 ≤ addr ∧ addr < 0x6000 then
      some ⟨some "libc_fn", some "libc_fn", .code, 0x5000⟩
    else
      none
  findFunctions := fun _ => []
  isLoadAddress := fun _ => false
  readMemory := fun _ _ => .unreadable

theorem resolved_from_itself_iff_stripped :
    (resolveArgument strippedTarget idleProcess
          (joinArguments ["0x5010"]) = .ok 0x5010 ↔
      (strippedTarget.resolve 0x5010).isSome ∨
        searchModules strippedTarget.modules 0x5010 = none ∨
        searchModules strippedTarget.modules 0x5010 =
          some 0x5010) ∧
      (ResolvedFromItself strippedTarget idleProcess ["0x5010"]
          0x5010 ↔
        (strippedTarget.resolve 0x5010).isSome) :=
  resolved_from_itself_iff strippedTarget idleProcess ["0x5010"]
    0x5010 (by decide)
    ⟨_, List.mem_cons_of_mem _ List.mem_cons_self, _,
      List.mem_cons_self, by decide⟩

/-
  The address 0x1800 is loaded, but the command goes on with
  0x5800, in the other module.
-/
theorem loaded_address_taken_for_file_address :
    strippedTarget.InLoadedSection 0x1800 ∧
      IsNumeric ["0x1800"] 0x1800 ∧
      resolveArgument strippedTarget idleProcess
          (joinArguments ["0x1800"]) = .ok 0x5800 :=
  ⟨⟨_, List.mem_cons_self, _, List.mem_cons_self,
    by decide⟩, by decide, by rfl⟩

end DecompileCommand

end LLDBGhidra
