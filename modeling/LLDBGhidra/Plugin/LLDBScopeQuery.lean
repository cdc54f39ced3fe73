import LLDBGhidra.Decompiler.DatabaseClear
import LLDBGhidra.Decompiler.DatabaseLookup
import LLDBGhidra.Plugin.LLDBScope

/-
  What a query of the debugger does to the cache, whatever the
  debugger answers.

  Main declarations:
    * `LLDBScope.Registration`
    * `LLDBScope.registration`
    * `LLDBScope.run_queryLLDB`
    * `LLDBScope.wellformed_run`
-/

------------------------------------------------------------
-- Registration
------------------------------------------------------------

namespace LLDBGhidra

namespace LLDBScope

open ScopeInternal (HasFunction MappedAt Wellformed
  FunctionAdded functionEnd newName)

variable {glb : Glb}
variable {resolve : Resolver}
variable {cache : ScopeInternal}

/- Everything the registration of a symbol can come to. -/
inductive Registration
    (glb : Glb)
    (cache : ScopeInternal)
    (symbol : SBSymbol) :
    Except Exn (Option Symbol) × ScopeInternal → Prop where
| unloaded :
    symbol.isLoaded = false →
      Registration glb cache symbol (.ok none, cache)
| existing {stored : Symbol} {entry : SymbolEntry} :
    cache.findFunction
        (Address.ofSpace glb.defaultCodeSpace
          symbol.startAddress) =
        .ok (some ⟨entry.symbol.name, entry.addr,
          entry.symbol⟩) →
      stored ∈ cache.nametree →
      stored.isFunction →
      MappedAt glb cache stored symbol.startAddress entry →
        Registration glb cache symbol
          (.ok (some entry.symbol), cache)
| added {found : Symbol} {cache' : ScopeInternal} :
    (symbol.startAddress ≤
        functionEnd glb symbol.startAddress →
      ∀ id name,
        ¬ HasFunction cache id name symbol.startAddress) →
      newName cache symbol.funcName = .ok found.name →
      FunctionAdded glb cache cache' found
        symbol.startAddress →
        Registration glb cache symbol
          (.ok (some found), cache')
| failed {error : Exn} :
    cache.findFunction
        (Address.ofSpace glb.defaultCodeSpace
          symbol.startAddress) =
        .ok none →
      newName cache symbol.funcName = .error error →
      Registration glb cache symbol
        (.error error, cache.takeId)

theorem registration
    (hCache : Wellformed glb none cache)
    (symbol : SBSymbol) :
    Registration glb cache symbol
      ((registerFunction glb symbol).run cache) := by
  unfold registerFunction
  by_cases hStart : symbol.startAddress = lldbInvalidAddress
  · simp only [hStart, if_true]
    apply Registration.unloaded
    simp [SBSymbol.isLoaded, hStart]
  · simp only [hStart, if_false]
    rcases hCache.findFunction_spec
        (Address.ofSpace glb.defaultCodeSpace
          symbol.startAddress) with
      ⟨stored, hStored, hFunction, entry, hMapped, _, hFound⟩ |
        ⟨hMissing, hNone⟩
    · rw [Effect.run_bind, Effect.run_query, hFound]
      exact Registration.existing hFound hStored hFunction
        hMapped
    · rw [Effect.run_bind, Effect.run_query, hMissing]
      simp only []
      rw [Effect.run_bind, ScopeInternal.run_addFunction]
      cases hName : newName cache symbol.funcName with
      | error error =>
          exact Registration.failed hMissing hName
      | ok finalName =>
          apply Registration.added (hNone rfl)
          · exact hName
          · exact ScopeInternal.functionAdded_mapFunction
              hCache finalName symbol.startAddress

/- A registration keeps the tables consistent. -/
theorem Registration.wellformed
    {symbol : SBSymbol}
    {outcome : Except Exn (Option Symbol) × ScopeInternal}
    (hCache : Wellformed glb none cache)
    (hOutcome : Registration glb cache symbol outcome) :
    Wellformed glb none outcome.2 := by
  cases hOutcome with
  | unloaded => exact hCache
  | existing => exact hCache
  | added _ _ hAdded => exact hAdded.wellformed
  | failed => exact hCache.takeId

end LLDBScope

end LLDBGhidra

------------------------------------------------------------
-- Queries
------------------------------------------------------------

namespace LLDBGhidra

namespace LLDBScope

open ScopeInternal (Wellformed)

variable {glb : Glb}
variable {resolve : Resolver}

/- The symbol that a query registers, if there is one. -/
def candidate
    (resolve : Resolver)
    (addr : BitVec 64)
    (contain : Bool) : Option SBSymbol :=
  (resolve addr).filter (fun symbol =>
    symbol.isCode && symbol.isLoaded &&
      (contain || symbol.startAddress = addr))

theorem candidate_eq_some_iff
    {addr : BitVec 64}
    {contain : Bool}
    {symbol : SBSymbol} :
    candidate resolve addr contain = some symbol ↔
      resolve addr = some symbol ∧ symbol.isCode ∧
        symbol.isLoaded ∧
        (contain ∨ symbol.startAddress = addr) := by
  simp [candidate, Option.filter_eq_some_iff, and_assoc]

/- A query registers its candidate and does nothing else. -/
theorem run_queryLLDB
    (addr : Address)
    (contain : Bool)
    (cache : ScopeInternal) :
    (queryLLDB glb resolve addr contain).run cache =
      match candidate resolve addr.offset contain with
      | none => (.ok none, cache)
      | some symbol =>
          (registerFunction glb symbol).run cache := by
  unfold queryLLDB queryLLDBAbsolute candidate
  cases resolve addr.offset with
  | none => rfl
  | some symbol =>
      cases hCode : symbol.isCode with
      | false =>
          by_cases hStart : symbol.startAddress = addr.offset
          · simp [hStart, hCode, Option.filter]
          · cases contain with
            | false => simp [hStart, hCode, Option.filter]
            | true => simp [hCode, Option.filter]
      | true =>
          cases hLoaded : symbol.isLoaded with
          | false =>
              have hInvalid :
                  symbol.startAddress = lldbInvalidAddress := by
                simpa [SBSymbol.isLoaded] using hLoaded
              have hNothing :
                  registerFunction glb symbol = pure none := by
                simp [registerFunction, hInvalid]
              simp [hNothing, hLoaded, Option.filter]
          | true =>
              by_cases hStart :
                  symbol.startAddress = addr.offset
              · simp [hStart, hCode, hLoaded, Option.filter]
              · cases contain with
                | false =>
                    simp [hStart, hCode, hLoaded, Option.filter]
                | true => simp [hCode, hLoaded, Option.filter]

end LLDBScope

end LLDBGhidra

------------------------------------------------------------
-- Runs
------------------------------------------------------------

namespace LLDBGhidra

namespace LLDBScope

open ScopeInternal (Wellformed)

variable {glb : Glb}
variable {resolve : Resolver}

theorem keeps_queryLLDB
    {inv : ScopeInternal → Prop}
    (addr : Address)
    (contain : Bool)
    (hRegister :
      ∀ symbol,
        candidate resolve addr.offset contain = some symbol →
          Effect.Keeps inv (registerFunction glb symbol)) :
    Effect.Keeps inv
      (queryLLDB glb resolve addr contain) := by
  intro cache hCache
  rw [run_queryLLDB]
  cases hCandidate :
      candidate resolve addr.offset contain with
  | none => exact hCache
  | some symbol => exact hRegister symbol hCandidate cache hCache

/-
  An invariant that registrations, `clear` and the data
  symbols of a history keep is kept by serving its calls.
-/
theorem keeps_serve
    {inv : ScopeInternal → Prop}
    (hRegister :
      ∀ addr contain symbol,
        candidate resolve addr contain = some symbol →
          Effect.Keeps inv (registerFunction glb symbol))
    (hClear : ∀ cache cleared, inv cache →
      cache.clear = some cleared → inv cleared)
    (request : Request)
    (hAdd :
      ∀ name typeSize addr usepoint,
        request = .addSymbol name typeSize addr usepoint →
          Effect.Keeps inv
            (addSymbol glb name typeSize addr usepoint)) :
    Effect.Keeps inv (serve glb resolve request) := by
  have hQuery := fun (addr : Address) contain =>
    keeps_queryLLDB addr contain (hRegister addr.offset contain)
  have hMapEntry : ∀ sym addr,
      Effect.Keeps inv (mapEntryOf sym addr) := by
    intro sym addr
    cases sym with
    | none => exact Effect.Keeps.pure none
    | some sym => exact Effect.Keeps.gets _
  have hFunction : ∀ sym addr,
      Effect.Keeps inv (functionOf sym addr) := by
    intro sym addr
    cases sym with
    | none => exact Effect.Keeps.pure none
    | some sym => exact Effect.Keeps.query _
  cases request with
  | findAddr addr usepoint =>
      unfold serve findAddr
      apply Effect.Keeps.bind
      · apply Effect.Keeps.bind
        · exact Effect.Keeps.gets _
        intro entry
        cases entry with
        | none =>
            exact Effect.Keeps.bind (hQuery addr false)
              (fun sym => hMapEntry sym addr)
        | some entry => exact Effect.Keeps.pure _
      · intro entry
        exact Effect.Keeps.pure _
  | findContainer addr size usepoint =>
      unfold serve findContainer
      apply Effect.Keeps.bind
      · apply Effect.Keeps.bind
        · exact Effect.Keeps.gets _
        intro entry
        cases entry with
        | none =>
            exact Effect.Keeps.bind (hQuery addr true)
              (fun sym => hMapEntry sym addr)
        | some entry => exact Effect.Keeps.pure _
      · intro entry
        exact Effect.Keeps.pure _
  | findFunction addr =>
      unfold serve findFunction
      apply Effect.Keeps.bind
      · apply Effect.Keeps.bind
        · exact Effect.Keeps.query _
        intro fd
        cases fd with
        | none =>
            exact Effect.Keeps.bind (hQuery addr false)
              (fun sym => hFunction sym addr)
        | some fd => exact Effect.Keeps.pure _
      · intro fd
        exact Effect.Keeps.pure _
  | clear =>
      unfold serve
      apply Effect.Keeps.bind
      · intro cache hCache
        unfold clear
        rw [Effect.run_gets_bind]
        cases hCleared : cache.clear with
        | none => exact hCache
        | some cleared => exact hClear cache cleared hCache hCleared
      · intro _
        exact Effect.Keeps.pure none
  | addSymbol name typeSize addr usepoint =>
      unfold serve
      apply Effect.Keeps.bind
        (hAdd name typeSize addr usepoint rfl)
      intro _
      exact Effect.Keeps.pure none

/- What serving keeps, a whole history keeps. -/
theorem run_of_keeps
    {inv : ScopeInternal → Prop}
    {history : List Request}
    {cache : ScopeInternal}
    (hServe :
      ∀ request ∈ history,
        Effect.Keeps inv (serve glb resolve request))
    (hCache : inv cache) :
    inv (run glb resolve history cache) := by
  induction history generalizing cache with
  | nil => exact hCache
  | cons request rest ih =>
      apply ih
      · intro other hOther
        exact hServe other (List.mem_cons_of_mem _ hOther)
      · exact hServe request List.mem_cons_self cache hCache

/- Every call keeps the cache consistent. -/
theorem wellformed_serve
    (request : Request) :
    Effect.Keeps (Wellformed glb none)
      (serve glb resolve request) := by
  apply keeps_serve
  · intro _ _ symbol _ cache hCache
    exact (registration hCache symbol).wellformed hCache
  · intro cache cleared hCache hClear
    exact hCache.clear hClear
  · intro name typeSize addr usepoint _ cache hCache
    exact (hCache.addSymbol name typeSize addr
      usepoint).wellformed

/- The cache is consistent after any calls on any debugger. -/
theorem wellformed_run
    (glb : Glb)
    (resolve : Resolver)
    (history : List Request) :
    Wellformed glb none
      (run glb resolve history ScopeInternal.empty) := by
  apply run_of_keeps _ (ScopeInternal.wellformed_empty glb)
  intro request _
  exact wellformed_serve request

end LLDBScope

end LLDBGhidra
