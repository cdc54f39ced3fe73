import LLDBGhidra.Plugin.DecompileAddress
import LLDBGhidra.Plugin.LLDBArchitecture

/-
  What becomes of the exceptions that the decompiler library
  throws in a command.

  Main declarations:
    * `Library.outcome`
    * `Library.ofSpecs`
    * `DecompileCommand.Contained`
    * `DecompileCommand.doExecute_contained_iff`
-/

------------------------------------------------------------
-- The Phases of the Library
------------------------------------------------------------

namespace LLDBGhidra

namespace Library

/- Is a function that has been found printed? -/
def functionOutcome
    (library : Library)
    (isTty : Bool)
    (func : Funcdata) : Except Exn Bool := do
  let res ← library.perform func
  if res < 0 then
    .ok false
  else do
    library.setPrintLanguage func
    let _ ← library.docFunction isTty func
    .ok true

/-
  The phases that a command gets to, each in its turn, up to
  the first one that throws.
-/
def outcome
    (library : Library)
    (isTty : Bool)
    (resolve : Resolver)
    (funcStart : BitVec 64) : Except Exn Bool := do
  library.construct
  let glb ← library.init
  let func ←
    ((LLDBScope.findFunction glb resolve
      (Address.ofSpace glb.defaultCodeSpace funcStart)).run
        (library.scope glb)).1
  match func with
  | none => .ok false
  | some func => library.functionOutcome isTty func

end Library

namespace DecompileCommand

/- What the library does in a command that does get to it. -/
def libraryOutcome
    (arch : SBTarget → String → Library)
    (isTty : Bool)
    (debugger : SBDebugger)
    (command : List String) : Except Exn Bool :=
  match debugger.selectedTarget with
  | none => .ok false
  | some target =>
      match target.process with
      | none => .ok false
      | some process =>
          match resolveArgument target process
              (joinArguments command) with
          | .error _ => .ok false
          | .ok decompAddr =>
              match languageId target with
              | .error _ => .ok false
              | .ok sleighId =>
                  (arch target sleighId).outcome isTty
                    target.resolve
                    (functionStart target decompAddr)

/-
  Nothing leaves the command: it returns; where the library
  threw, it returns false with an error; and it returns true
  only where the library did not throw.
-/
structure Contained
    (outcome : Except Exn Bool)
    (run : Except Exn Bool × SBCommandReturnObject) :
    Prop where
  returns : ∃ success, run.1 = .ok success
  reported : ∀ error, outcome = .error error →
    run.1 = .ok false ∧ run.2.error.isSome = true ∧
      run.2.succeeded = false
  successful : run.1 = .ok true →
    ∀ error, outcome ≠ .error error

end DecompileCommand

end LLDBGhidra

------------------------------------------------------------
-- Containment
------------------------------------------------------------

namespace LLDBGhidra

namespace DecompileCommand

open Effect

variable {library : Library}
variable {isTty : Bool}
variable {resolve : Resolver}

theorem fail_yields
    (error : String) :
    Yields (fail error) (.ok false) :=
  Yields.bind_ok (Yields.modify _) (Yields.pure false)

theorem decompileFunction_yields
    (func : Funcdata) :
    Yields (decompileFunction library isTty func)
      (library.functionOutcome isTty func) := by
  unfold decompileFunction Library.functionOutcome
  refine Yields.bind (Yields.query _) ?_
  intro res
  by_cases hInterrupted : res < 0
  · rw [if_pos hInterrupted, if_pos hInterrupted]
    exact fail_yields _
  · rw [if_neg hInterrupted, if_neg hInterrupted]
    refine Yields.bind_ok
      (Yields.forEach (fun _ => Yields.modify _)) ?_
    refine Yields.bind (Yields.query _) ?_
    intro _
    refine Yields.bind (Yields.query _) ?_
    intro output
    refine Yields.bind_ok (Yields.modify _) ?_
    exact Yields.bind_ok (Yields.modify _) (Yields.pure true)

/- The block under the handlers throws what the library does. -/
theorem decompile_yields
    (funcStart : BitVec 64) :
    Yields (decompile library isTty resolve funcStart)
      (library.outcome isTty resolve funcStart) := by
  unfold decompile Library.outcome
  refine Yields.bind (Yields.query _) ?_
  intro _
  refine Yields.bind (Yields.query _) ?_
  intro glb
  refine Yields.bind (Yields.query _) ?_
  intro func
  cases func with
  | none => exact fail_yields _
  | some func => exact decompileFunction_yields func

/- An error that is reported is contained. -/
theorem contained_fail
    (outcome : Except Exn Bool)
    (error : String)
    (result : SBCommandReturnObject) :
    Contained outcome ((fail error).run result) :=
  ⟨⟨false, rfl⟩, (fun _ _ => ⟨rfl, rfl, rfl⟩),
    (fun hTrue => by cases hTrue)⟩

/- The handlers contain all but what none of them is for. -/
theorem handle_contained_iff
    {block : Command Bool}
    {outcome : Except Exn Bool}
    (hBlock : Yields block outcome)
    (result : SBCommandReturnObject) :
    Contained outcome
        ((Effect.handle block handler).run result) ↔
      ∀ explain, outcome ≠ .error (.decoderError explain) := by
  have hOutcome := hBlock result
  cases hRun : block.run result with
  | mk run between =>
      rw [hRun] at hOutcome
      change run = outcome at hOutcome
      subst hOutcome
      cases run with
      | ok success =>
          rw [run_handle_of_ok hRun]
          constructor
          · intro _ explain hThrown
            cases hThrown
          · intro _
            exact ⟨⟨success, rfl⟩,
              (fun _ hThrown => by cases hThrown),
              (fun _ _ hThrown => by cases hThrown)⟩
      | error error =>
          rw [run_handle_of_error hRun]
          cases error with
          | lowlevelError errorClass explain =>
              constructor
              · intro _ other hThrown
                cases hThrown
              · intro _
                exact contained_fail _ _ between
          | stdException what =>
              constructor
              · intro _ other hThrown
                cases hThrown
              · intro _
                exact contained_fail _ _ between
          | decoderError explain =>
              constructor
              · intro hContained
                rcases hContained.returns with ⟨success, hReturn⟩
                cases hReturn
              · intro hNone
                exact absurd rfl (hNone explain)

/-
  A command that reports an error before it gets to the
  library.
-/
theorem contained_iff_of_fail
    (error : String)
    (result : SBCommandReturnObject) :
    Contained (.ok false) ((fail error).run result) ↔
      ∀ explain, (.ok false : Except Exn Bool) ≠
        .error (.decoderError explain) := by
  constructor
  · intro _ explain hThrown
    cases hThrown
  · intro _
    exact contained_fail _ error result

/-
  Everything is contained if and only if none of the phases
  that the command gets to throws a `DecoderError`.
-/
theorem doExecute_contained_iff
    (arch : SBTarget → String → Library)
    (isTty : Bool)
    (debugger : SBDebugger)
    (command : List String)
    (result : SBCommandReturnObject) :
    Contained (libraryOutcome arch isTty debugger command)
        ((doExecute arch isTty debugger command).run
          result) ↔
      ∀ explain, libraryOutcome arch isTty debugger command ≠
        .error (.decoderError explain) := by
  unfold libraryOutcome doExecute
  cases debugger.selectedTarget with
  | none => exact contained_iff_of_fail _ result
  | some target =>
      simp only []
      cases target.process with
      | none => exact contained_iff_of_fail _ result
      | some process =>
          simp only []
          cases resolveArgument target process
              (joinArguments command) with
          | error error => exact contained_iff_of_fail _ result
          | ok decompAddr =>
              simp only []
              unfold decompileAt
              cases languageId target with
              | error what => exact contained_iff_of_fail _ result
              | ok sleighId =>
                  exact handle_contained_iff
                    (decompile_yields _) result

end DecompileCommand

end LLDBGhidra

------------------------------------------------------------
-- Errors in Specifications
------------------------------------------------------------

namespace LLDBGhidra

open Architecture Effect

variable {ρ : Type}

namespace Library

/-
  A library whose initialization reads specifications.  None
  stands for undefined behaviour and a loop that does not end.
-/
def ofSpecs
    (components : Components ρ)
    (initial : ρ)
    (rounds : Nat)
    (glbOf : Session ρ → Glb)
    (library : Library) : Option Library :=
  match (LLDBArchitecture.init components rounds).run
      (start initial) with
  | (.ok (), session) =>
      some { library with init := .ok (glbOf session) }
  | (.error (.thrown error), _) =>
      some { library with init := .error error }
  | (.error _, _) => none

/- What the specifications make it throw is what it throws. -/
theorem outcome_of_ofSpecs
    {components : Components ρ}
    {initial : ρ}
    {rounds : Nat}
    {glbOf : Session ρ → Glb}
    {library specified : Library}
    {error : Exn}
    (hSpecified :
      ofSpecs components initial rounds glbOf library =
        some specified)
    (hConstruct : library.construct = .ok ())
    (hInit :
      ((LLDBArchitecture.init components rounds).run
        (start initial)).1 = .error (.thrown error))
    (isTty : Bool)
    (resolve : Resolver)
    (funcStart : BitVec 64) :
    specified.outcome isTty resolve funcStart =
      .error error := by
  unfold ofSpecs at hSpecified
  cases hRun : (LLDBArchitecture.init components rounds).run
      (start initial) with
  | mk outcome session =>
      rw [hRun] at hInit hSpecified
      change outcome = _ at hInit
      subst hInit
      cases hSpecified
      unfold outcome
      simp only [hConstruct, bind, Except.bind]

end Library

namespace DecompileCommand

/- No handler is for a `DecoderError`. -/
theorem run_handle_of_decoderError
    {block : Command Bool}
    {explain : String}
    (hBlock : Yields block (.error (.decoderError explain)))
    (result : SBCommandReturnObject) :
    ((Effect.handle block handler).run result).1 =
      .error (.decoderError explain) := by
  have hOutcome := hBlock result
  cases hRun : block.run result with
  | mk run between =>
      rw [hRun] at hOutcome
      change run = _ at hOutcome
      subst hOutcome
      rw [run_handle_of_error hRun]
      rfl

/-
  What is wrong with the specifications leaves the command,
  whatever the function and the other phases of the library.
-/
theorem decompile_of_invalid_specs
    {components : Components ρ}
    {initial : ρ}
    {rounds : Nat}
    {glbOf : Session ρ → Glb}
    {library specified : Library}
    {explain : String}
    (hSpecified :
      Library.ofSpecs components initial rounds glbOf library =
        some specified)
    (hConstruct : library.construct = .ok ())
    (hInit :
      ((LLDBArchitecture.init components rounds).run
        (start initial)).1 = .error (decoderError explain))
    (isTty : Bool)
    (resolve : Resolver)
    (funcStart : BitVec 64)
    (result : SBCommandReturnObject) :
    ((Effect.handle
        (decompile specified isTty resolve funcStart)
        handler).run result).1 =
      .error (.decoderError explain) := by
  apply run_handle_of_decoderError
  rw [← Library.outcome_of_ofSpecs hSpecified hConstruct hInit
    isTty resolve funcStart]
  exact decompile_yields funcStart

/- A compiler specification that leaves out an attribute. -/
def alignlessComponents : Components Unit :=
  LLDBArchitecture.specComponents
    [LLDBArchitecture.memoryRange]
    [LLDBArchitecture.leaf "funcptr" []]

/- The missing attribute ends the session of the debugger. -/
theorem decoderError_leaves_command :
    ∃ library,
      Library.ofSpecs alignlessComponents () 10
          (fun _ => LLDBScope.wideGlb)
          (sampleLibrary LLDBScope.wideGlb) = some library ∧
        (doExecute (fun _ _ => library) false
            ⟨some (sampleTarget "x86_64" 0x1000)⟩
            ["0x1000"]).run .empty =
          (.error (.decoderError "Attribute missing: align"),
            .empty) ∧
        ¬ Contained
          (libraryOutcome (fun _ _ => library) false
            ⟨some (sampleTarget "x86_64" 0x1000)⟩ ["0x1000"])
          ((doExecute (fun _ _ => library) false
            ⟨some (sampleTarget "x86_64" 0x1000)⟩
            ["0x1000"]).run .empty) := by
  refine ⟨_, rfl, rfl, ?_⟩
  intro hContained
  rcases hContained.returns with ⟨success, hReturn⟩
  cases hReturn

end DecompileCommand

end LLDBGhidra
