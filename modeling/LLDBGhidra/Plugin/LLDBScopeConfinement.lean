import LLDBGhidra.Plugin.LLDBScopeHistory

/-
  Lookups return what starts at the address itself, and for
  other spaces than the default code space nothing but what
  the cache holds.

  Main declarations:
    * `LLDBScope.Reachable`
    * `LLDBScope.Queried`
    * `LLDBScope.ConfinedTo`
    * `LLDBScope.lookups_exact_and_confined`
    * `LLDBScope.register_lookup_throws`
-/

------------------------------------------------------------
-- Reachable Caches
------------------------------------------------------------

namespace LLDBGhidra

namespace LLDBScope

open ScopeInternal (Wellformed)

/-
  The caches that calls lead to.  What the debugger answers
  may change from one call to the next.
-/
inductive Reachable
    (glb : Glb) : ScopeInternal → Prop
| empty : Reachable glb ScopeInternal.empty
| serve {cache : ScopeInternal}
    (resolve : Resolver)
    (request : Request) :
    Reachable glb cache →
      Reachable glb
        ((LLDBScope.serve glb resolve request).run cache).2

theorem Reachable.wellformed
    {glb : Glb}
    {cache : ScopeInternal}
    (hCache : Reachable glb cache) :
    Wellformed glb none cache := by
  induction hCache with
  | empty => exact ScopeInternal.wellformed_empty glb
  | serve resolve request _ ih =>
      exact wellformed_serve request _ ih

end LLDBScope

end LLDBGhidra

------------------------------------------------------------
-- Names That Run Out
------------------------------------------------------------

namespace LLDBGhidra

/- What `buildUndefinedName` throws behind its last name. -/
def undefinedNameError : Exn :=
  .lowlevelError .lowlevel "Error creating undefined name"

namespace ScopeInternal

theorem eq_undefinedNameError
    {cache : ScopeInternal}
    {error : Exn}
    (hError : cache.buildUndefinedName = .error error) :
    error = undefinedNameError := by
  unfold buildUndefinedName at hError
  extract_lets testsym lower candidate at hError
  cases hCandidate : candidate with
  | none =>
      simp only [hCandidate] at hError
      cases hError
  | some symbol =>
      simp only [hCandidate] at hError
      split at hError
      · split at hError
        · exact (Except.error.inj hError).symm
        · cases hError
      · cases hError

/- Only an empty name may be impossible to replace. -/
theorem newName_eq_error_iff
    {cache : ScopeInternal}
    {name : String}
    {error : Exn} :
    newName cache name = .error error ↔
      name = "" ∧ cache.buildUndefinedName = .error error := by
  unfold newName
  by_cases hName : name = ""
  · rw [if_pos hName]
    constructor
    · intro hError
      exact ⟨hName, hError⟩
    · rintro ⟨_, hError⟩
      exact hError
  · rw [if_neg hName]
    constructor
    · intro hError
      cases hError
    · rintro ⟨hEmpty, _⟩
      exact absurd hEmpty hName

end ScopeInternal

end LLDBGhidra

------------------------------------------------------------
-- What a Query Comes To
------------------------------------------------------------

namespace LLDBGhidra

namespace LLDBScope

open ScopeInternal (MappedAt Wellformed newName)

/-
  The query registers a function that has no name, when the
  cache can make none up.
-/
def Unnameable
    (glb : Glb)
    (resolve : Resolver)
    (cache : ScopeInternal)
    (addr : Address)
    (contain : Bool) : Prop :=
  ∃ symbol,
    candidate resolve addr.offset contain = some symbol ∧
      cache.findFunction
        (Address.ofSpace glb.defaultCodeSpace
          symbol.startAddress) = .ok none ∧
      symbol.funcName = "" ∧
      cache.buildUndefinedName = .error undefinedNameError

variable {glb : Glb}
variable {resolve : Resolver}
variable {cache : ScopeInternal}
variable {addr : Address}
variable {contain : Bool}

/-
  A query finds nothing, or the symbol of a function of the
  code space, or it fails to register one.
-/
inductive Queried
    (glb : Glb)
    (resolve : Resolver)
    (cache : ScopeInternal)
    (addr : Address)
    (contain : Bool) :
    Except Exn (Option Symbol) × ScopeInternal → Prop
| nothing :
    ¬ Unnameable glb resolve cache addr contain →
      Queried glb resolve cache addr contain
        (.ok none, cache)
| found {sym stored : Symbol} {start : BitVec 64}
    {entry : SymbolEntry} {cache' : ScopeInternal} :
    ¬ Unnameable glb resolve cache addr contain →
      Wellformed glb none cache' →
      (contain = false → start = addr.offset) →
      MappedAt glb cache' stored start entry →
      sym.symbolId = stored.symbolId →
        Queried glb resolve cache addr contain
          (.ok (some sym), cache')
| unnameable :
    Unnameable glb resolve cache addr contain →
      Queried glb resolve cache addr contain
        (.error undefinedNameError, cache.takeId)

theorem unnameable_iff
    {symbol : SBSymbol}
    (hSymbol :
      candidate resolve addr.offset contain = some symbol) :
    Unnameable glb resolve cache addr contain ↔
      cache.findFunction
          (Address.ofSpace glb.defaultCodeSpace
            symbol.startAddress) = .ok none ∧
        newName cache symbol.funcName =
          .error undefinedNameError := by
  rw [ScopeInternal.newName_eq_error_iff]
  constructor
  · rintro ⟨other, hOther, hUnnamed⟩
    rw [hSymbol] at hOther
    cases hOther
    exact hUnnamed
  · intro hUnnamed
    exact ⟨symbol, hSymbol, hUnnamed⟩

/- Without the demand to contain, the symbol starts there. -/
theorem start_of_candidate
    {symbol : SBSymbol}
    (hSymbol :
      candidate resolve addr.offset contain = some symbol)
    (hExact : contain = false) :
    symbol.startAddress = addr.offset := by
  rcases (candidate_eq_some_iff.mp hSymbol).2.2.2 with
    hContain | hStart
  · rw [hExact] at hContain
    cases hContain
  · exact hStart

theorem queried
    (hCache : Wellformed glb none cache)
    (resolve : Resolver)
    (addr : Address)
    (contain : Bool) :
    Queried glb resolve cache addr contain
      ((queryLLDB glb resolve addr contain).run cache) := by
  rw [run_queryLLDB]
  cases hSymbol : candidate resolve addr.offset contain with
  | none =>
      apply Queried.nothing
      rintro ⟨symbol, hCandidate, _⟩
      rw [hSymbol] at hCandidate
      cases hCandidate
  | some symbol =>
      have hLoaded := (candidate_eq_some_iff.mp hSymbol).2.2.1
      have hIff : Unnameable glb resolve cache addr contain ↔ _ :=
        unnameable_iff hSymbol
      have hRegistration := registration hCache symbol
      simp only []
      generalize (registerFunction glb symbol).run cache =
        outcome at *
      cases hRegistration with
      | unloaded hUnloaded =>
          rw [hLoaded] at hUnloaded
          cases hUnloaded
      | existing hFound _ _ hMapped =>
          refine Queried.found ?_ hCache
            (start_of_candidate hSymbol) hMapped hMapped.sameId
          intro hUnnameable
          have hMissing := (hIff.mp hUnnameable).1
          rw [hFound] at hMissing
          cases hMissing
      | added _ hName hAdded =>
          rcases hAdded.mapped with ⟨entry, hMapped⟩
          refine Queried.found ?_ hAdded.wellformed
            (start_of_candidate hSymbol) hMapped rfl
          intro hUnnameable
          have hError := (hIff.mp hUnnameable).2
          rw [hName] at hError
          cases hError
      | failed hMissing hName =>
          have hError := ScopeInternal.eq_undefinedNameError
            (ScopeInternal.newName_eq_error_iff.mp hName).2
          subst hError
          exact Queried.unnameable
            (hIff.mpr ⟨hMissing, hName⟩)

end LLDBScope

end LLDBGhidra

------------------------------------------------------------
-- Lookups
------------------------------------------------------------

namespace LLDBGhidra

namespace LLDBScope

open ScopeInternal (MappedAt Wellformed)

variable {glb : Glb}
variable {resolve : Resolver}
variable {cache : ScopeInternal}
variable {addr usepoint : Address}
variable {contain : Bool}

/-
  A lookup returns what the cache holds.  It throws where that
  is nothing and a function cannot be named.
-/
structure ConfinedTo
    {α : Type}
    (held : Option α)
    (unnameable : Prop)
    (result : Except Exn (Option α)) : Prop where
  throws :
    held = none → unnameable →
      result = .error undefinedNameError
  returns :
    held ≠ none ∨ ¬ unnameable → result = .ok held

theorem confinedTo_some
    {α : Type}
    (held : α)
    (unnameable : Prop) :
    ConfinedTo (some held) unnameable (.ok (some held)) where
  throws := by
    intro hNone
    cases hNone
  returns := by
    intro _
    rfl

/- The entry that a query leads to, if the cache has none. -/
def queryEntry
    (glb : Glb)
    (resolve : Resolver)
    (addr : Address)
    (contain : Bool) :
    ScopeInternal.M (Option SymbolEntry) := do
  let sym ← queryLLDB glb resolve addr contain
  mapEntryOf sym addr

theorem queryEntry_exact
    {entry : SymbolEntry}
    (hCache : Wellformed glb none cache)
    (hEntry :
      ((queryEntry glb resolve addr false).run cache).1 =
        .ok (some entry)) :
    entry.addr = addr := by
  unfold queryEntry at hEntry
  rw [Effect.run_bind] at hEntry
  have hQueried := queried hCache resolve addr false
  generalize (queryLLDB glb resolve addr false).run cache =
    outcome at *
  cases hQueried with
  | nothing => cases hEntry
  | unnameable => cases hEntry
  | @found sym stored start mapped cache' _ _ hStart hMapped
      hId =>
      have hResult : cache'.getMapEntry sym addr = some entry :=
        Except.ok.inj hEntry
      rw [hMapped.getMapEntry_eq hId] at hResult
      split at hResult
      next hOver =>
        cases hResult
        rw [hMapped.addr, hStart rfl]
        rcases addr with ⟨base, offset⟩
        rw [Address.ofSpace, ← hOver.1]
      next => cases hResult

/- What is done with a symbol of the code space does not
   matter, if nothing comes of it. -/
theorem confinedTo_query
    {α : Type}
    {next : Option Symbol → ScopeInternal.M (Option α)}
    (hCache : Wellformed glb none cache)
    (hNone : next none = pure none)
    (hSome : ∀ sym stored start entry cache',
      Wellformed glb none cache' →
        MappedAt glb cache' stored start entry →
          sym.symbolId = stored.symbolId →
            ((next (some sym)).run cache').1 = .ok none) :
    ConfinedTo none
      (Unnameable glb resolve cache addr contain)
      ((queryLLDB glb resolve addr contain >>= next).run
        cache).1 := by
  rw [Effect.run_bind]
  have hQueried := queried hCache resolve addr contain
  generalize (queryLLDB glb resolve addr contain).run cache =
    outcome at *
  cases hQueried with
  | nothing hNameable =>
      refine ⟨fun _ hUnnameable =>
        absurd hUnnameable hNameable, fun _ => ?_⟩
      simp only [hNone, Effect.run_pure]
  | unnameable hUnnameable =>
      refine ⟨fun _ _ => rfl, ?_⟩
      rintro (hHeld | hNameable)
      · exact absurd rfl hHeld
      · exact absurd hUnnameable hNameable
  | found hNameable hCache' _ hMapped hId =>
      exact ⟨fun _ hUnnameable => absurd hUnnameable hNameable,
        fun _ => hSome _ _ _ _ _ hCache' hMapped hId⟩

theorem queryEntry_confined
    (hCache : Wellformed glb none cache)
    (hSpace : addr.base ≠ some glb.defaultCodeSpace) :
    ConfinedTo none
      (Unnameable glb resolve cache addr contain)
      ((queryEntry glb resolve addr contain).run cache).1 := by
  unfold queryEntry
  refine confinedTo_query hCache (by rfl) ?_
  intro sym stored start entry cache' _ hMapped hId
  have hEntry := hMapped.getMapEntry_eq hId addr
  rw [if_neg (fun hOver => hSpace hOver.1)] at hEntry
  exact congrArg Except.ok hEntry

theorem run_findAddr_of_eq_none
    (hMissing : cache.findAddr addr usepoint = none) :
    (findAddr glb resolve addr usepoint).run cache =
      (queryEntry glb resolve addr false).run cache := by
  unfold findAddr
  rw [Effect.run_gets_bind, hMissing]
  rfl

theorem run_findAddr_of_eq_some
    {entry : SymbolEntry}
    (hHeld : cache.findAddr addr usepoint = some entry) :
    (findAddr glb resolve addr usepoint).run cache =
      (.ok (some entry), cache) := by
  unfold findAddr
  rw [Effect.run_gets_bind, hHeld]
  rfl

theorem run_findContainer_of_eq_none
    {size : Int}
    (hMissing :
      cache.findContainer addr size usepoint = none) :
    (findContainer glb resolve addr size usepoint).run cache =
      (queryEntry glb resolve addr true).run cache := by
  unfold findContainer
  rw [Effect.run_gets_bind, hMissing]
  rfl

theorem run_findContainer_of_eq_some
    {size : Int}
    {entry : SymbolEntry}
    (hHeld :
      cache.findContainer addr size usepoint = some entry) :
    (findContainer glb resolve addr size usepoint).run cache =
      (.ok (some entry), cache) := by
  unfold findContainer
  rw [Effect.run_gets_bind, hHeld]
  rfl

/- An entry by address starts at the address itself. -/
theorem findAddr_exact
    {entry : SymbolEntry}
    (hCache : Wellformed glb none cache)
    (hEntry :
      ((findAddr glb resolve addr usepoint).run cache).1 =
        .ok (some entry)) :
    entry.addr = addr := by
  cases hHeld : cache.findAddr addr usepoint with
  | none =>
      rw [run_findAddr_of_eq_none hHeld] at hEntry
      exact queryEntry_exact hCache hEntry
  | some held =>
      rw [run_findAddr_of_eq_some hHeld] at hEntry
      cases hEntry
      rcases ScopeInternal.findAddr_spec hHeld with
        ⟨hMem, hOffset, _⟩
      have hBase := (hCache.of_mem_entriesAt hMem).sameSpace
      cases hAddr : entry.addr
      rw [hAddr] at hOffset hBase
      cases addr
      exact congrArg₂ Address.mk hBase hOffset

theorem findAddr_confined
    (hCache : Wellformed glb none cache)
    (hSpace : addr.base ≠ some glb.defaultCodeSpace)
    (usepoint : Address) :
    ConfinedTo (cache.findAddr addr usepoint)
      (Unnameable glb resolve cache addr false)
      ((findAddr glb resolve addr usepoint).run cache).1 := by
  cases hHeld : cache.findAddr addr usepoint with
  | none =>
      rw [run_findAddr_of_eq_none hHeld]
      exact queryEntry_confined hCache hSpace
  | some entry =>
      rw [run_findAddr_of_eq_some hHeld]
      exact confinedTo_some entry _

theorem findContainer_confined
    (hCache : Wellformed glb none cache)
    (hSpace : addr.base ≠ some glb.defaultCodeSpace)
    (size : Int)
    (usepoint : Address) :
    ConfinedTo (cache.findContainer addr size usepoint)
      (Unnameable glb resolve cache addr true)
      ((findContainer glb resolve addr size usepoint).run
        cache).1 := by
  cases hHeld : cache.findContainer addr size usepoint with
  | none =>
      rw [run_findContainer_of_eq_none hHeld]
      exact queryEntry_confined hCache hSpace
  | some entry =>
      rw [run_findContainer_of_eq_some hHeld]
      exact confinedTo_some entry _

end LLDBScope

end LLDBGhidra

------------------------------------------------------------
-- Function Lookups
------------------------------------------------------------

namespace LLDBGhidra

namespace ScopeInternal

variable {glb : Glb}
variable {cache : ScopeInternal}
variable {addr : Address}

/- The function that is found starts at the address itself. -/
theorem Wellformed.findFunction_exact
    {fd : Funcdata}
    (hCache : Wellformed glb none cache)
    (hFound : cache.findFunction addr = .ok (some fd)) :
    fd.baseaddr = addr := by
  rcases hCache.findFunction_spec addr with
    ⟨symbol, _, _, entry, hMapped, hBase, hEntry⟩ |
      ⟨hMissing, _⟩
  · rw [hEntry] at hFound
    cases hFound
    rw [hMapped.addr]
    cases addr
    exact congrArg₂ Address.mk hBase.symm rfl
  · rw [hMissing] at hFound
    cases hFound

/- No function is outside the default code space. -/
theorem Wellformed.findFunction_of_space_ne
    (hCache : Wellformed glb none cache)
    (hSpace : addr.base ≠ some glb.defaultCodeSpace) :
    cache.findFunction addr = .ok none := by
  rcases hCache.findFunction_spec addr with
    ⟨_, _, _, _, _, hBase, _⟩ | ⟨hMissing, _⟩
  · exact absurd hBase hSpace
  · exact hMissing

end ScopeInternal

namespace LLDBScope

open ScopeInternal (Wellformed)

variable {glb : Glb}
variable {resolve : Resolver}
variable {cache : ScopeInternal}
variable {addr : Address}

/- The function that a query leads to, if the cache has none. -/
def queryFunction
    (glb : Glb)
    (resolve : Resolver)
    (addr : Address) : ScopeInternal.M (Option Funcdata) := do
  let sym ← queryLLDB glb resolve addr false
  functionOf sym addr

theorem run_findFunction_of_eq_none
    (hMissing : cache.findFunction addr = .ok none) :
    (findFunction glb resolve addr).run cache =
      (queryFunction glb resolve addr).run cache := by
  unfold findFunction
  rw [Effect.run_bind, Effect.run_query, hMissing]
  rfl

theorem run_findFunction_of_eq_some
    {fd : Funcdata}
    (hHeld : cache.findFunction addr = .ok (some fd)) :
    (findFunction glb resolve addr).run cache =
      (.ok (some fd), cache) := by
  unfold findFunction
  rw [Effect.run_bind, Effect.run_query, hHeld]
  rfl

theorem findFunction_exact
    {fd : Funcdata}
    (hCache : Wellformed glb none cache)
    (hFound :
      ((findFunction glb resolve addr).run cache).1 =
        .ok (some fd)) :
    fd.baseaddr = addr := by
  rcases hCache.findFunction_spec addr with
    ⟨_, _, _, _, _, _, hHeld⟩ | ⟨hMissing, _⟩
  · rw [run_findFunction_of_eq_some hHeld] at hFound
    cases hFound
    exact hCache.findFunction_exact hHeld
  · rw [run_findFunction_of_eq_none hMissing] at hFound
    unfold queryFunction at hFound
    rw [Effect.run_bind] at hFound
    have hQueried := queried hCache resolve addr false
    generalize (queryLLDB glb resolve addr false).run cache =
      outcome at *
    cases hQueried with
    | nothing => cases hFound
    | unnameable => cases hFound
    | found _ hCache' _ _ _ =>
        exact hCache'.findFunction_exact hFound

theorem findFunction_confined
    (hCache : Wellformed glb none cache)
    (hSpace : addr.base ≠ some glb.defaultCodeSpace) :
    ConfinedTo none
      (Unnameable glb resolve cache addr false)
      ((findFunction glb resolve addr).run cache).1 := by
  have hMissing := hCache.findFunction_of_space_ne hSpace
  rw [run_findFunction_of_eq_none hMissing]
  unfold queryFunction
  refine confinedTo_query hCache (by rfl) ?_
  intro sym stored start entry cache' hCache' _ _
  exact hCache'.findFunction_of_space_ne hSpace

/-
  In every cache that calls lead to and for every debugger: a
  lookup by address or of a function finds what starts at the
  address in its space, and no lookup in another space than
  the default code space returns more than the cache holds.
-/
theorem lookups_exact_and_confined
    (glb : Glb)
    (cache : ScopeInternal)
    (resolve : Resolver)
    (space : SpaceId)
    (offset : BitVec 64)
    (hCache : Reachable glb cache) :
    (∀ usepoint entry,
      ((findAddr glb resolve (Address.ofSpace space offset)
          usepoint).run cache).1 = .ok (some entry) →
        entry.addr = Address.ofSpace space offset) ∧
      (∀ fd,
        ((findFunction glb resolve
            (Address.ofSpace space offset)).run cache).1 =
          .ok (some fd) →
          fd.baseaddr = Address.ofSpace space offset) ∧
      (space ≠ glb.defaultCodeSpace →
        (∀ usepoint,
          ConfinedTo
            (cache.findAddr (Address.ofSpace space offset)
              usepoint)
            (Unnameable glb resolve cache
              (Address.ofSpace space offset) false)
            ((findAddr glb resolve
              (Address.ofSpace space offset) usepoint).run
                cache).1) ∧
          (∀ size usepoint,
            ConfinedTo
              (cache.findContainer
                (Address.ofSpace space offset) size usepoint)
              (Unnameable glb resolve cache
                (Address.ofSpace space offset) true)
              ((findContainer glb resolve
                (Address.ofSpace space offset) size
                  usepoint).run cache).1) ∧
          ∃ held,
            cache.findFunction (Address.ofSpace space offset) =
                .ok held ∧
              ConfinedTo held
                (Unnameable glb resolve cache
                  (Address.ofSpace space offset) false)
                ((findFunction glb resolve
                  (Address.ofSpace space offset)).run
                    cache).1) := by
  have hWellformed := hCache.wellformed
  refine ⟨?_, ?_, ?_⟩
  · intro usepoint entry hEntry
    exact findAddr_exact hWellformed hEntry
  · intro fd hFound
    exact findFunction_exact hWellformed hFound
  · intro hSpace
    have hBase : (Address.ofSpace space offset).base ≠
        some glb.defaultCodeSpace :=
      fun hEq => hSpace (Option.some.inj hEq)
    refine ⟨?_, ?_, none, ?_, ?_⟩
    · intro usepoint
      exact findAddr_confined hWellformed hBase usepoint
    · intro size usepoint
      exact findContainer_confined hWellformed hBase size
        usepoint
    · exact hWellformed.findFunction_of_space_ne hBase
    · exact findFunction_confined hWellformed hBase

/- A debugger that knows one code symbol, by its start. -/
def namingResolver
    (name : String)
    (start : BitVec 64) : Resolver :=
  fun addr =>
    if addr = start then
      some ⟨some name, some name, .code, start⟩
    else
      none

/- The cache after a lookup of the function. -/
def cacheAfter
    (name : String)
    (start : BitVec 64) : ScopeInternal :=
  ((serve wideGlb (namingResolver name start)
    (.findFunction ⟨some 0, start⟩)).run
      ScopeInternal.empty).2

theorem reachable_cacheAfter
    (name : String)
    (start : BitVec 64) :
    Reachable wideGlb (cacheAfter name start) :=
  Reachable.serve _ _ Reachable.empty

/-
  A lookup in another space, at the offset of a function that
  is in the cache.
-/
theorem lookups_confined_at_function :
    ((findAddr wideGlb (namingResolver "main" 0x1000)
        (Address.ofSpace 2 0x1000) Address.invalid).run
          (cacheAfter "main" 0x1000)).1 =
      .ok ((cacheAfter "main" 0x1000).findAddr
        (Address.ofSpace 2 0x1000) Address.invalid) := by
  have hLookups := lookups_exact_and_confined wideGlb
    (cacheAfter "main" 0x1000) (namingResolver "main" 0x1000)
    2 0x1000 (reachable_cacheAfter "main" 0x1000)
  apply ((hLookups.2.2 (by decide)).1 Address.invalid).returns
  right
  rintro ⟨symbol, hSymbol, _, hName, _⟩
  have hResolved := (candidate_eq_some_iff.mp hSymbol).1
  cases hResolved
  exact absurd hName (by decide)

/-
  The query of a register address may register a function,
  and that may fail for want of a name.
-/
theorem register_lookup_throws :
    Reachable wideGlb (cacheAfter "$$undefffffffff" 0x1000) ∧
      (2 : SpaceId) ≠ wideGlb.defaultCodeSpace ∧
      (cacheAfter "$$undefffffffff" 0x1000).findAddr
          (Address.ofSpace 2 0x2000) Address.invalid = none ∧
      ((findAddr wideGlb (namingResolver "" 0x2000)
          (Address.ofSpace 2 0x2000) Address.invalid).run
            (cacheAfter "$$undefffffffff" 0x1000)).1 =
        .error undefinedNameError ∧
      ((findAddr wideGlb (namingResolver "" 0x2000)
          (Address.ofSpace 2 0x2000) Address.invalid).run
            (cacheAfter "$$undefffffffff" 0x1000)).1 ≠
        .ok ((cacheAfter "$$undefffffffff" 0x1000).findAddr
          (Address.ofSpace 2 0x2000) Address.invalid) := by
  have hMissing :
      (cacheAfter "$$undefffffffff" 0x1000).findAddr
        (Address.ofSpace 2 0x2000) Address.invalid = none := by
    rfl
  have hThrown :
      ((findAddr wideGlb (namingResolver "" 0x2000)
          (Address.ofSpace 2 0x2000) Address.invalid).run
            (cacheAfter "$$undefffffffff" 0x1000)).1 =
        .error undefinedNameError := by
    decide
  refine ⟨reachable_cacheAfter _ _, by decide, hMissing,
    hThrown, ?_⟩
  rw [hThrown]
  intro hReturned
  cases hReturned

end LLDBScope

end LLDBGhidra
