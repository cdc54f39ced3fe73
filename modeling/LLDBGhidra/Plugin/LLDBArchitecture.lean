import LLDBGhidra.Decompiler.PointerSpaces

/-
  The initialization of the plugin's architecture, which
  overrides a hook of the base class
  (`LLDBArchitecture.cpp`).

  Main declarations:
    * `LLDBArchitecture.init`
    * `LLDBArchitecture.init_pointerSpaces_iff`
-/

------------------------------------------------------------
-- The Overridden Hook
------------------------------------------------------------

namespace LLDBGhidra

namespace LLDBArchitecture

open Architecture Effect

variable {ρ : Type}
variable {components : Components ρ}

/- The hook of the base class is not run. -/
def postSpecFile : Setup ρ Unit :=
  pure ()

/- `Architecture::init` for the plugin's architecture. -/
def init
    (components : Components ρ)
    (rounds : Nat) : Setup ρ Unit :=
  Architecture.init components postSpecFile rounds

/- The spaces are noted and then left as they are. -/
theorem init_noted
    (rounds : Nat) :
    Ensures Blank (init components rounds)
      (fun _ session =>
        components.specSpaces =
          .ok (session.arch.manager,
            session.arch.inferPtrSpaces)) := by
  have hHook : ∀ translate manager spaces,
      Ensures (Noted (ρ := ρ) translate manager spaces)
        postSpecFile
        (fun _ session =>
          session.arch.manager = manager ∧
            session.arch.inferPtrSpaces = spaces) :=
    fun _ _ _ => Ensures.pure (fun _ hNoted =>
      ⟨hNoted.manager, hNoted.inferPtrSpaces⟩)
  unfold init
  refine (init_ensures hHook
    (fun manager spaces => indifferent_spaces
      (fun manager' spaces' =>
        manager' = manager ∧ spaces' = spaces))
    rounds).mono (fun _ hBlank => hBlank) ?_
  intro _ session hState
  rcases hState with
    ⟨manager, spaces, hSpec, hManager, hSpaces⟩
  rw [hManager, hSpaces]
  exact hSpec

end LLDBArchitecture

namespace Components

variable {ρ : Type}

/- Do the global ranges of the documents need no hook? -/
def declaresPointerSpaces
    (components : Components ρ) : Bool :=
  match components.specSpaces with
  | .error _ => false
  | .ok (manager, spaces) =>
      LLDBGhidra.declaresPointerSpaces manager spaces

end Components

namespace LLDBArchitecture

open Architecture

/-
  Whenever the initialization succeeds, the guarantee of the
  base class holds if and only if the global ranges of the
  specifications are already declared that way.
-/
theorem init_pointerSpaces_iff
    {ρ : Type}
    (components : Components ρ)
    (initial : ρ)
    (rounds : Nat)
    (session : Session ρ)
    (hInit :
      (init components rounds).run (start initial) =
        (.ok (), session)) :
    PointerSpaces session.arch.manager
        session.arch.inferPtrSpaces ↔
      components.declaresPointerSpaces = true := by
  have hSpec := init_noted rounds (start initial) () session
    (blank_start initial) hInit
  unfold Components.declaresPointerSpaces
  rw [hSpec]
  exact pointerSpaces_iff

end LLDBArchitecture

end LLDBGhidra

------------------------------------------------------------
-- A Shipped Specification
------------------------------------------------------------

namespace LLDBGhidra

namespace LLDBArchitecture

open Architecture

/- A space of the x86-64 processor. -/
def processorSpace
    (name : String)
    (type : SpaceType)
    (index : SpaceId)
    (delay : Int) : AddrSpace :=
  { AddrSpace.build type name false 8 1 bytewise_small index
      delay with
    otherSpace := name = "OTHER" }

/- Its spaces, with the memory as both default spaces. -/
def processorSpaces : AddrSpaceManager :=
  { AddrSpaceManager.empty with
    baselist :=
      [some (processorSpace "const" .constant 0 0),
        some (processorSpace "OTHER" .processor 1 0),
        some (processorSpace "unique" .internal 2 0),
        some (processorSpace "ram" .processor 3 1),
        some (processorSpace "register" .processor 4 0)]
    constantspace := some 0
    uniqspace := some 2
    defaultcodespace := some 3
    defaultdataspace := some 3 }

/- Its stack pointer and its control register. -/
def processorRegister
    (name : String) : Except Exn VarnodeData :=
  if name = "RSP" then
    .ok ⟨4, 0x20, 8⟩
  else if name = "MXCSR" then
    .ok ⟨4, 0x1094, 4⟩
  else
    .error (.lowlevelError .sleigh
      ("Unknown register name: " ++ name))

/- An element without text and children. -/
def leaf
    (name : String)
    (attributes : List (String × String)) : Element :=
  ⟨name, attributes, "", []⟩

/- Global ranges and the stack, and other elements. -/
def compilerDocument
    (globals others : List Element) : Element :=
  ⟨"compiler_spec", [], "",
    [⟨"global", [], "", globals⟩,
      leaf "stackpointer"
        [("register", "RSP"), ("space", "ram")]] ++ others⟩

/- The components of the architecture do nothing. -/
def specComponents
    (globals others : List Element) : Components Unit where
  documents := .ok
    ((DocumentStorage.empty.registerTag
      (leaf "processor_spec" [])).registerTag
        (compilerDocument globals others))
  translator := .ok
    { manager := processorSpaces
      bigEndian := false
      getRegister := processorRegister }
  phase := fun _ _ _ components => .ok components
  decodeElement := fun _ _ components => .ok components

def memoryRange : Element :=
  leaf "range" [("space", "ram")]

def registerRange : Element :=
  leaf "register" [("name", "MXCSR")]

/- The global ranges of `x86-64-gcc.cspec`. -/
def gccComponents : Components Unit :=
  specComponents [memoryRange, registerRange] []

/- What is left of an initialization. -/
def initialized
    (components : Components Unit) : Session Unit :=
  ((init components 10).run (start ())).2

theorem gcc_init :
    (init gccComponents 10).run (start ()) =
      (.ok (), initialized gccComponents) := by
  rfl

theorem gcc_inferPtrSpaces :
    (initialized gccComponents).arch.inferPtrSpaces =
      [3, 4] := by
  rfl

/- The register space of `MXCSR` has no delay. -/
theorem register_not_inferable :
    (initialized gccComponents).arch.manager.inferable 4 =
      false := by
  rfl

theorem init_pointerSpaces_at_gcc :
    PointerSpaces (initialized gccComponents).arch.manager
        (initialized gccComponents).arch.inferPtrSpaces ↔
      gccComponents.declaresPointerSpaces = true :=
  init_pointerSpaces_iff gccComponents () 10
    (initialized gccComponents) gcc_init

/- The guarantee of the base class is lost. -/
theorem init_pointerSpaces_fails :
    ¬ ∀ (components : Components Unit) (rounds : Nat)
      (session : Session Unit),
      (init components rounds).run (start ()) =
          (.ok (), session) →
        PointerSpaces session.arch.manager
          session.arch.inferPtrSpaces := by
  intro hAlways
  have hSpaces := hAlways gccComponents 10
    (initialized gccComponents) gcc_init
  have hRegister : 4 ∈
      (initialized gccComponents).arch.inferPtrSpaces := by
    rw [gcc_inferPtrSpaces]
    simp
  have hInferable :=
    (inferable_iff 4).mpr (hSpaces.inferable 4 hRegister)
  rw [register_not_inferable] at hInferable
  cases hInferable

end LLDBArchitecture

end LLDBGhidra
