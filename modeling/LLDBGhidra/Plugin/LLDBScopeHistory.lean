import LLDBGhidra.Plugin.LLDBScopeQuery

/-
  What is found through a scope does not depend on what was
  looked up before, for a debugger whose answers are coherent.

  Main declarations:
    * `LLDBScope.Coherent`
    * `LLDBScope.Agrees`
    * `LLDBScope.agrees_run`
    * `LLDBScope.expected`
    * `LLDBScope.lookups_independent_of_history`
-/

------------------------------------------------------------
-- Coherent Debuggers
------------------------------------------------------------

namespace LLDBGhidra

namespace LLDBScope

open ScopeInternal (functionEnd)

/-
  The debugger resolves each of the bytes that the function of
  a symbol consumes to this symbol, and no address before it.
-/
structure Coherent
    (glb : Glb)
    (resolve : Resolver) : Prop where
  start_le :
    ∀ addr symbol, resolve addr = some symbol →
      symbol.isCode → symbol.isLoaded →
        symbol.startAddress ≤ addr
  bytes :
    ∀ addr symbol, resolve addr = some symbol →
      symbol.isCode → symbol.isLoaded →
        ∀ k < glb.minFuncsymbolSize.toNat,
          resolve (symbol.startAddress + BitVec.ofNat 64 k) =
            some symbol
  named :
    ∀ addr symbol, resolve addr = some symbol →
      ∃ name, symbol.displayName = some name ∧ name ≠ ""

/- The functions of the debugger are in the code space. -/
def InCodeSpace
    (glb : Glb)
    (resolve : Resolver) : Prop :=
  ∀ addr symbol, resolve addr = some symbol →
    symbol.isCode → symbol.isLoaded →
      symbol.startAddress.toNat +
          glb.minFuncsymbolSize.toNat ≤
        (glb.space glb.defaultCodeSpace).highest.toNat + 1

variable {glb : Glb}
variable {resolve : Resolver}
variable {addr : BitVec 64}
variable {symbol : SBSymbol}

/- The candidate of an address is also that of its start. -/
theorem Coherent.candidate_start
    (hCoherent : Coherent glb resolve)
    (hSymbol : candidate resolve addr true = some symbol) :
    candidate resolve symbol.startAddress true =
      some symbol := by
  rw [candidate_eq_some_iff] at hSymbol ⊢
  have hPos := glb.minFuncsymbolSized
  have hSize := glb.minFuncsymbolSize_toInt
  have hStart := hCoherent.bytes addr symbol hSymbol.1
    hSymbol.2.1 hSymbol.2.2.1 0 (by omega)
  rw [BitVec.add_zero] at hStart
  exact ⟨hStart, hSymbol.2.1, hSymbol.2.2.1, Or.inl rfl⟩

/- The function of a symbol in the code space does not wrap. -/
theorem InCodeSpace.functionEnd_toNat
    (hInside : InCodeSpace glb resolve)
    (hSymbol : candidate resolve addr true = some symbol) :
    (functionEnd glb symbol.startAddress).toNat =
      symbol.startAddress.toNat +
        glb.minFuncsymbolSize.toNat - 1 := by
  rw [candidate_eq_some_iff] at hSymbol
  apply ScopeInternal.functionEnd_toNat
  exact hInside addr symbol hSymbol.1 hSymbol.2.1
    hSymbol.2.2.1

theorem InCodeSpace.start_le_functionEnd
    (hInside : InCodeSpace glb resolve)
    (hSymbol : candidate resolve addr true = some symbol) :
    symbol.startAddress ≤
      functionEnd glb symbol.startAddress := by
  rw [candidate_eq_some_iff] at hSymbol
  apply ScopeInternal.start_le_functionEnd
  exact hInside addr symbol hSymbol.1 hSymbol.2.1
    hSymbol.2.2.1

/- Every byte of a function has the symbol as candidate. -/
theorem Coherent.candidate_of_mem
    (hCoherent : Coherent glb resolve)
    (hInside : InCodeSpace glb resolve)
    (hSymbol : candidate resolve addr true = some symbol)
    {point : BitVec 64}
    (hFirst : symbol.startAddress ≤ point)
    (hLast : point ≤ functionEnd glb symbol.startAddress) :
    candidate resolve point true = some symbol := by
  have hEnd := hInside.functionEnd_toNat hSymbol
  have hPos := glb.minFuncsymbolSized
  have hSize := glb.minFuncsymbolSize_toInt
  rw [BitVec.le_def] at hFirst hLast
  rw [candidate_eq_some_iff] at hSymbol ⊢
  have hByte := hCoherent.bytes addr symbol hSymbol.1
    hSymbol.2.1 hSymbol.2.2.1
    (point.toNat - symbol.startAddress.toNat) (by omega)
  have hPoint : symbol.startAddress + BitVec.ofNat 64
      (point.toNat - symbol.startAddress.toNat) = point := by
    apply BitVec.eq_of_toNat_eq
    have hBound := point.isLt
    rw [BitVec.toNat_add, BitVec.toNat_ofNat]
    omega
  rw [hPoint] at hByte
  exact ⟨hByte, hSymbol.2.1, hSymbol.2.2.1, Or.inl rfl⟩

/- A registered name is that of the symbol, and not empty. -/
theorem Coherent.funcName_eq
    (hCoherent : Coherent glb resolve)
    (hSymbol : resolve addr = some symbol) :
    symbol.displayName = some symbol.funcName ∧
      symbol.funcName ≠ "" := by
  rcases hCoherent.named addr symbol hSymbol with
    ⟨name, hName, hNonempty⟩
  have hFunc : symbol.funcName = name := by
    simp [SBSymbol.funcName, hName]
  rw [hFunc]
  exact ⟨hName, hNonempty⟩

end LLDBScope

end LLDBGhidra

------------------------------------------------------------
-- The Invariant
------------------------------------------------------------

namespace LLDBGhidra

namespace LLDBScope

open ScopeInternal (HasFunction MappedAt Wellformed
  functionEnd newName)

/-
  The functions of the cache are those of the debugger, each
  of them once.  Data symbols are there if `data` allows them.
-/
structure Agrees
    (glb : Glb)
    (resolve : Resolver)
    (data : Bool)
    (cache : ScopeInternal) : Prop where
  wellformed : Wellformed glb none cache
  resolved :
    ∀ id name start, HasFunction cache id name start →
      ∃ symbol,
        candidate resolve start true = some symbol ∧
          symbol.startAddress = start ∧
          symbol.funcName = name
  unique :
    ∀ id name id' name' start,
      HasFunction cache id name start →
        HasFunction cache id' name' start → id = id'
  functionsOnly :
    data = false →
      ∀ symbol ∈ cache.nametree, symbol.isFunction

/- The function registered for a symbol, in the cache. -/
structure Registered
    (glb : Glb)
    (cache : ScopeInternal)
    (start : BitVec 64)
    (found : Symbol)
    (entry : SymbolEntry) : Prop where
  mapped : MappedAt glb cache found start entry
  filed : HasFunction cache found.symbolId found.name start

variable {glb : Glb}
variable {resolve : Resolver}
variable {data : Bool}
variable {cache : ScopeInternal}
variable {symbol : SBSymbol}

theorem agrees_empty
    (glb : Glb)
    (resolve : Resolver)
    (data : Bool) :
    Agrees glb resolve data ScopeInternal.empty where
  wellformed := ScopeInternal.wellformed_empty glb
  resolved := by
    intro id name start hFunction
    rcases hFunction with ⟨symbol, hSymbol, _⟩
    simp [ScopeInternal.empty] at hSymbol
  unique := by
    intro id name id' name' start hFunction
    rcases hFunction with ⟨symbol, hSymbol, _⟩
    simp [ScopeInternal.empty] at hSymbol
  functionsOnly := by simp [ScopeInternal.empty]

theorem Agrees.clear
    {cleared : ScopeInternal}
    (hCache : Agrees glb resolve data cache)
    (hClear : cache.clear = some cleared) :
    Agrees glb resolve data cleared where
  wellformed := hCache.wellformed.clear hClear
  resolved := fun id name start hFunction =>
    absurd hFunction
      (ScopeInternal.not_hasFunction_clear hCache.wellformed
        hClear id name start)
  unique := fun id name _ _ start hFunction =>
    absurd hFunction
      (ScopeInternal.not_hasFunction_clear hCache.wellformed
        hClear id name start)
  functionsOnly := fun _ symbol hSymbol =>
    absurd hSymbol
      (ScopeInternal.not_mem_nametree_clear hCache.wellformed
        hClear symbol)

theorem Agrees.addSymbol
    (hCache : Agrees glb resolve true cache)
    (name : String)
    (typeSize : BitVec 32)
    (addr usepoint : Address) :
    Agrees glb resolve true
      ((LLDBScope.addSymbol glb name typeSize addr
        usepoint).run cache).2 := by
  have hAdded := hCache.wellformed.addSymbol name typeSize
    addr usepoint
  refine ⟨hAdded.wellformed, ?_, ?_, by simp⟩
  · intro id other start hFunction
    apply hCache.resolved id other start
    exact (hAdded.functions id other start).mp hFunction
  · intro id other id' other' start hFunction hFunction'
    exact hCache.unique id other id' other' start
      ((hAdded.functions _ _ _).mp hFunction)
      ((hAdded.functions _ _ _).mp hFunction')

/-
  A coherent debugger has its symbol registered, under its
  name and at its start, and the invariant is kept.
-/
theorem Agrees.registerFunction
    (hCoherent : Coherent glb resolve)
    (hInside : InCodeSpace glb resolve)
    (hCache : Agrees glb resolve data cache)
    (hSymbol :
      candidate resolve symbol.startAddress true =
        some symbol) :
    ∃ found entry cache',
      (LLDBScope.registerFunction glb symbol).run cache =
          (.ok (some found), cache') ∧
        Agrees glb resolve data cache' ∧
        Registered glb cache' symbol.startAddress found
          entry := by
  have hLoaded := (candidate_eq_some_iff.mp hSymbol).2.2.1
  have hNamed := hCoherent.funcName_eq
    (candidate_eq_some_iff.mp hSymbol).1
  have hName : newName cache symbol.funcName =
      .ok symbol.funcName := by
    simp [newName, hNamed.2]
  have hOutcome := registration hCache.wellformed symbol
  generalize hRun :
    (LLDBScope.registerFunction glb symbol).run cache =
      outcome at hOutcome
  cases hOutcome with
  | unloaded hUnloaded =>
      rw [hLoaded] at hUnloaded
      cases hUnloaded
  | failed _ hFailed =>
      rw [hName] at hFailed
      cases hFailed
  | @existing stored entry _ hStored hFunction hMapped =>
      refine ⟨entry.symbol, entry, cache, rfl, hCache, ?_, ?_⟩
      · refine { hMapped with
          sameId := rfl
          sameName := rfl
          only := ?_ }
        rw [hMapped.sameId]
        exact hMapped.only
      · rw [hMapped.sameId, hMapped.sameName]
        exact hMapped.hasFunction hStored hFunction
  | @added found cache' hFresh hFoundName hAdded =>
      rcases hAdded.mapped with ⟨entry, hMapped⟩
      have hNone := hFresh (hInside.start_le_functionEnd hSymbol)
      have hSame : found.name = symbol.funcName := by
        rw [hName] at hFoundName
        exact (Except.ok.inj hFoundName).symm
      refine ⟨found, entry, cache', rfl,
        ⟨hAdded.wellformed, ?_, ?_, ?_⟩, hMapped, ?_⟩
      · intro id name start hFunction
        rcases (hAdded.functions _ _ _).mp hFunction with
          ⟨_, rfl, rfl⟩ | hOld
        · exact ⟨symbol, hSymbol, rfl, hSame.symm⟩
        · exact hCache.resolved id name start hOld
      · intro id name id' name' start hLeft hRight
        rcases (hAdded.functions _ _ _).mp hLeft with
          ⟨rfl, _, rfl⟩ | hLeft
        · rcases (hAdded.functions _ _ _).mp hRight with
            ⟨rfl, _⟩ | hRight
          · rfl
          · exact absurd hRight (hNone id' name')
        · rcases (hAdded.functions _ _ _).mp hRight with
            ⟨_, _, rfl⟩ | hRight
          · exact absurd hLeft (hNone id name)
          · exact hCache.unique id name id' name' start
              hLeft hRight
      · intro hData
        exact hAdded.onlyFunctions (hCache.functionsOnly hData)
      · exact (hAdded.functions _ _ _).mpr
          (Or.inl ⟨rfl, rfl, rfl⟩)

/- Is a data symbol added? -/
def Request.addsData
    (request : Request) : Bool :=
  match request with
  | .addSymbol _ _ _ _ => true
  | _ => false

/- Every call keeps the invariant. -/
theorem agrees_serve
    (hCoherent : Coherent glb resolve)
    (hInside : InCodeSpace glb resolve)
    {request : Request}
    (hData : request.addsData → data) :
    Effect.Keeps (Agrees glb resolve data)
      (serve glb resolve request) := by
  apply keeps_serve
  · intro addr contain symbol hSymbol cache hCache
    have hFound := candidate_eq_some_iff.mp hSymbol
    have hStart : candidate resolve symbol.startAddress true =
        some symbol := by
      apply hCoherent.candidate_start
      exact candidate_eq_some_iff.mpr
        ⟨hFound.1, hFound.2.1, hFound.2.2.1, Or.inl rfl⟩
    rcases hCache.registerFunction hCoherent hInside hStart
      with ⟨found, entry, cache', hRun, hAgrees, _⟩
    rw [hRun]
    exact hAgrees
  · intro cache cleared hCache hClear
    exact hCache.clear hClear
  · intro name typeSize addr usepoint hRequest cache hCache
    subst hRequest
    have hAllowed : data = true := hData rfl
    subst hAllowed
    exact hCache.addSymbol name typeSize addr usepoint

/- Every cache that calls can lead to has the invariant. -/
theorem agrees_run
    (hCoherent : Coherent glb resolve)
    (hInside : InCodeSpace glb resolve)
    {history : List Request}
    (hData : ∀ request ∈ history, request.addsData → data) :
    Agrees glb resolve data
      (run glb resolve history ScopeInternal.empty) := by
  apply run_of_keeps _ (agrees_empty glb resolve data)
  intro request hRequest
  exact agrees_serve hCoherent hInside (hData request hRequest)

end LLDBScope

end LLDBGhidra

------------------------------------------------------------
-- Answers
------------------------------------------------------------

namespace LLDBGhidra

namespace LLDBScope

open ScopeInternal (HasFunction MappedAt)

/- The answer that gives the function of a symbol. -/
def functionAnswer
    (glb : Glb)
    (symbol : SBSymbol) : Answer :=
  { start :=
      Address.ofSpace glb.defaultCodeSpace symbol.startAddress
    name := symbol.funcName
    isFunction := true }

/- The function over an address, if its symbol is acceptable. -/
def functionOver
    (glb : Glb)
    (resolve : Resolver)
    (addr : Address)
    (accept : SBSymbol → Bool) : Option Answer :=
  if addr.base = some glb.defaultCodeSpace then
    ((candidate resolve addr.offset true).filter accept).map
      (functionAnswer glb)
  else
    none

/- Is the symbol accepted by a lookup by containment? -/
def acceptContainer
    (glb : Glb)
    (addr : Address)
    (symbol : SBSymbol) : Bool :=
  int4 (addr.offset - symbol.startAddress).toNat <
    glb.minFuncsymbolSize.toInt

/- Is the symbol accepted by a lookup of its start? -/
def acceptStart
    (addr : Address)
    (symbol : SBSymbol) : Bool :=
  symbol.startAddress = addr.offset

/- What a lookup answers, in terms of the debugger alone. -/
def expected
    (glb : Glb)
    (resolve : Resolver)
    (request : Request) : Option Answer :=
  match request with
  | .findAddr addr _ =>
      functionOver glb resolve addr (acceptStart addr)
  | .findContainer addr _ _ =>
      functionOver glb resolve addr (acceptContainer glb addr)
  | .findFunction addr =>
      functionOver glb resolve addr (acceptStart addr)
  | .clear => none
  | .addSymbol _ _ _ _ => none

variable {glb : Glb}
variable {resolve : Resolver}
variable {data : Bool}
variable {cache : ScopeInternal}
variable {symbol : SBSymbol}
variable {addr : Address}

theorem functionOver_of_candidate
    {accept : SBSymbol → Bool}
    (hBase : addr.base = some glb.defaultCodeSpace)
    (hSymbol :
      candidate resolve addr.offset true = some symbol)
    (hAccept : accept symbol) :
    functionOver glb resolve addr accept =
      some (functionAnswer glb symbol) := by
  simp [functionOver, hBase, hSymbol, Option.filter, hAccept]

/- A mapped function of the cache is one of the debugger. -/
theorem Agrees.answer_of_mapped
    (hCache : Agrees glb resolve data cache)
    {stored : Symbol}
    {start : BitVec 64}
    {entry : SymbolEntry}
    (hMapped : MappedAt glb cache stored start entry)
    (hFiled :
      HasFunction cache stored.symbolId stored.name start) :
    ∃ symbol, candidate resolve start true = some symbol ∧
      symbol.startAddress = start ∧
      Answer.ofEntry entry = functionAnswer glb symbol := by
  rcases hCache.resolved _ _ _ hFiled with
    ⟨symbol, hSymbol, hStart, hName⟩
  refine ⟨symbol, hSymbol, hStart, ?_⟩
  have hKind := hMapped.isFunction
  simp [Answer.ofEntry, functionAnswer, hMapped.addr,
    hMapped.sameName, hStart, hName, Symbol.isFunction, hKind]

/- A query for a start is one for the whole symbol, too. -/
theorem candidate_false
    (addr : BitVec 64) :
    candidate resolve addr false =
      (candidate resolve addr true).filter (fun symbol =>
        symbol.startAddress = addr) := by
  unfold candidate
  rw [Option.filter_filter]
  congr 1
  funext symbol
  cases symbol.isCode <;> cases symbol.isLoaded <;> simp

/- The function that the cache itself has at an address. -/
theorem Agrees.answer_of_findFunction
    (hCache : Agrees glb resolve data cache)
    {fd : Funcdata}
    (hFound : cache.findFunction addr = .ok (some fd)) :
    functionOver glb resolve addr (acceptStart addr) =
      some (Answer.ofFuncdata fd) := by
  rcases hCache.wellformed.findFunction_spec addr with
    ⟨stored, hStored, hFunction, entry, hMapped, hBase, hHit⟩ |
      ⟨hMiss, _⟩
  · rcases hCache.answer_of_mapped hMapped
        (hMapped.hasFunction hStored hFunction) with
      ⟨symbol, hSymbol, hStart, hAnswer⟩
    rw [hFound] at hHit
    cases hHit
    rw [functionOver_of_candidate hBase hSymbol
      (by simp [acceptStart, hStart]), ← hAnswer]
    have hKind := hMapped.isFunction
    simp [Answer.ofEntry, Answer.ofFuncdata,
      Symbol.isFunction, hKind]
  · rw [hFound] at hMiss
    cases hMiss

/- The function of the debugger is found once registered. -/
theorem Registered.findFunction_ne_none
    (hInside : InCodeSpace glb resolve)
    (hCache : Agrees glb resolve data cache)
    {found : Symbol}
    {entry : SymbolEntry}
    (hFound :
      Registered glb cache symbol.startAddress found entry)
    (hSymbol :
      candidate resolve addr.offset true = some symbol)
    (hStart : symbol.startAddress = addr.offset)
    (hBase : addr.base = some glb.defaultCodeSpace) :
    cache.findFunction addr ≠ .ok none := by
  intro hMissing
  rcases hCache.wellformed.findFunction_spec addr with
    ⟨_, _, _, _, _, _, hHit⟩ | ⟨_, hNone⟩
  · rw [hMissing] at hHit
    cases hHit
  · have hEnd := hInside.start_le_functionEnd hSymbol
    rw [hStart] at hEnd
    apply hNone hBase hEnd
    rw [← hStart]
    exact hFound.filed

/- The entry of a registered function is as long as it is. -/
theorem Registered.entry_size
    (hInside : InCodeSpace glb resolve)
    {found : Symbol}
    {entry : SymbolEntry}
    (hFound :
      Registered glb cache symbol.startAddress found entry)
    (hSymbol :
      candidate resolve addr.offset true = some symbol) :
    entry.size = glb.minFuncsymbolSize.toInt := by
  have hEnd := hInside.functionEnd_toNat hSymbol
  have hPos := glb.minFuncsymbolSized
  have hSize := glb.minFuncsymbolSize_toInt
  have hBound := glb.minFuncsymbolSize.toInt_lt
  rw [hFound.mapped.entryEq]
  unfold ScopeInternal.functionEntry
  rw [SymbolEntry.init_size]
  · omega
  · omega
  · omega

/- What the storage location of a registered function gives. -/
theorem Registered.run_mapEntryOf
    (hCoherent : Coherent glb resolve)
    (hInside : InCodeSpace glb resolve)
    (hCache : Agrees glb resolve data cache)
    {found : Symbol}
    {entry : SymbolEntry}
    (hFound :
      Registered glb cache symbol.startAddress found entry)
    (hSymbol :
      candidate resolve addr.offset true = some symbol) :
    ∃ result,
      (mapEntryOf (some found) addr).run cache =
          (.ok result, cache) ∧
        result.map Answer.ofEntry =
          functionOver glb resolve addr
            (acceptContainer glb addr) := by
  refine ⟨cache.getMapEntry found addr, rfl, ?_⟩
  rcases hCache.answer_of_mapped hFound.mapped hFound.filed
    with ⟨other, hOther, _, hAnswer⟩
  rw [hCoherent.candidate_start hSymbol] at hOther
  cases hOther
  have hPlace := candidate_eq_some_iff.mp hSymbol
  have hStart := hCoherent.start_le addr.offset symbol
    hPlace.1 hPlace.2.1 hPlace.2.2.1
  rw [hFound.mapped.getMapEntry_eq rfl addr,
    hFound.entry_size hInside hSymbol]
  unfold functionOver
  by_cases hBase : addr.base = some glb.defaultCodeSpace
  · cases hAccept : acceptContainer glb addr symbol with
    | true =>
        have hNear := of_decide_eq_true hAccept
        simp only [hBase, hStart, hNear, hSymbol, hAccept,
          Option.filter, and_self, if_true, Option.map_some]
        exact congrArg some hAnswer
    | false =>
        have hFar := of_decide_eq_false hAccept
        simp only [hBase, hStart, hFar, hSymbol, hAccept,
          Option.filter, and_false, if_true, if_false,
          Bool.false_eq_true, Option.map_none]
  · simp [hBase]

/- A query comes to the registration of its candidate. -/
theorem Agrees.run_queryLLDB
    (hCoherent : Coherent glb resolve)
    (hInside : InCodeSpace glb resolve)
    (hCache : Agrees glb resolve data cache)
    (addr : Address)
    (contain : Bool) :
    (candidate resolve addr.offset contain = none ∧
      (queryLLDB glb resolve addr contain).run cache =
        (.ok none, cache)) ∨
    ∃ symbol found entry cache',
      candidate resolve addr.offset contain = some symbol ∧
        (queryLLDB glb resolve addr contain).run cache =
          (.ok (some found), cache') ∧
        Agrees glb resolve data cache' ∧
        Registered glb cache' symbol.startAddress found
          entry := by
  rw [LLDBScope.run_queryLLDB]
  cases hSymbol :
      candidate resolve addr.offset contain with
  | none => exact Or.inl ⟨rfl, rfl⟩
  | some symbol =>
      right
      have hPlace := candidate_eq_some_iff.mp hSymbol
      have hStart := hCoherent.candidate_start
        (candidate_eq_some_iff.mpr
          ⟨hPlace.1, hPlace.2.1, hPlace.2.2.1, Or.inl rfl⟩)
      rcases hCache.registerFunction hCoherent hInside hStart
        with ⟨found, entry, cache', hRun, hRest⟩
      exact ⟨symbol, found, entry, cache', rfl, hRun, hRest⟩

/- A lookup of a function answers as the debugger would. -/
theorem Agrees.answer_findFunction
    (hCoherent : Coherent glb resolve)
    (hInside : InCodeSpace glb resolve)
    (hCache : Agrees glb resolve data cache)
    (addr : Address) :
    answer glb resolve (.findFunction addr) cache =
      .ok (expected glb resolve (.findFunction addr)) := by
  unfold answer serve findFunction expected
  rw [Effect.run_bind, Effect.run_bind, Effect.run_query]
  rcases hCache.wellformed.findFunction_spec addr with
    ⟨_, _, _, _, _, _, hHit⟩ | ⟨hMiss, _⟩
  · simp only [hHit, Effect.run_pure,
      hCache.answer_of_findFunction hHit, Option.map_some]
  · simp only [hMiss]
    rw [Effect.run_bind]
    rcases hCache.run_queryLLDB hCoherent hInside addr false
      with ⟨hNone, hRun⟩ |
        ⟨symbol, found, entry, cache', hSymbol, hRun, hAgrees,
          hFound⟩
    · rw [candidate_false] at hNone
      have hOver : functionOver glb resolve addr
          (acceptStart addr) = none := by
        unfold functionOver acceptStart
        rw [hNone]
        simp
      simp only [hRun, functionOf, Effect.run_pure, hOver,
        Option.map_none]
    · have hPlace := candidate_eq_some_iff.mp hSymbol
      have hStart : symbol.startAddress = addr.offset := by
        simpa using hPlace.2.2.2
      have hContained :
          candidate resolve addr.offset true = some symbol :=
        candidate_eq_some_iff.mpr
          ⟨hPlace.1, hPlace.2.1, hPlace.2.2.1, Or.inl rfl⟩
      simp only [hRun, functionOf, Effect.run_query]
      rcases hAgrees.wellformed.findFunction_spec addr with
        ⟨_, _, _, _, _, _, hHit⟩ | ⟨hMissing, _⟩
      · simp only [hHit, Effect.run_pure,
          hAgrees.answer_of_findFunction hHit,
          Option.map_some]
      · have hBase : addr.base ≠ some glb.defaultCodeSpace := by
          intro hBase
          exact hFound.findFunction_ne_none hInside hAgrees
            hContained hStart hBase hMissing
        simp [hMissing, functionOver, hBase]

/- An entry over an address in a cache of functions only. -/
theorem Agrees.answer_of_mem_entriesAt
    (hCoherent : Coherent glb resolve)
    (hInside : InCodeSpace glb resolve)
    (hCache : Agrees glb resolve false cache)
    {sub2 : EntrySubsort}
    {entry : SymbolEntry}
    (hEntry : entry ∈ cache.entriesAt addr sub2) :
    ∃ symbol,
      addr.base = some glb.defaultCodeSpace ∧
        candidate resolve addr.offset true = some symbol ∧
        symbol.startAddress = entry.addr.offset ∧
        symbol.startAddress ≤ addr.offset ∧
        addr.offset ≤
          ScopeInternal.functionEnd glb symbol.startAddress ∧
        Answer.ofEntry entry = functionAnswer glb symbol := by
  have hStored := hCache.wellformed.of_mem_entriesAt hEntry
  have hFunction : entry.symbol.isFunction := by
    rcases hCache.wellformed.owned _ entry hStored.mapped with
      ⟨owner, hOwner, _, _, hKind⟩
    have hOwnerFunction :=
      hCache.functionsOnly rfl owner hOwner
    simpa [Symbol.isFunction, hKind] using hOwnerFunction
  rcases hCache.wellformed.mapped_of_isFunction
      hStored.mapped hFunction with
    ⟨stored, hMem, start, hMapped⟩
  have hOwnerFunction := hCache.functionsOnly rfl stored hMem
  rcases hCache.answer_of_mapped hMapped
      (hMapped.hasFunction hMem hOwnerFunction) with
    ⟨symbol, hSymbol, rfl, hAnswer⟩
  have hOffset : entry.addr.offset = symbol.startAddress := by
    rw [hMapped.addr]
    rfl
  have hFirst : symbol.startAddress ≤ addr.offset := by
    rw [← hOffset]
    exact hStored.first
  have hLast : addr.offset ≤
      ScopeInternal.functionEnd glb symbol.startAddress := by
    have hEnd := hInside.functionEnd_toNat hSymbol
    have hPos := glb.minFuncsymbolSized
    have hSize := glb.minFuncsymbolSize_toInt
    have hBound := glb.minFuncsymbolSize.toInt_lt
    have hStop := hStored.last
    rw [hMapped.entryEq] at hStop
    unfold ScopeInternal.functionEntry at hStop
    rw [SymbolEntry.init_getLast (by omega) (by omega)] at hStop
    exact hStop
  have hBase : addr.base = some glb.defaultCodeSpace := by
    rw [← hStored.sameSpace, hMapped.addr]
    rfl
  exact ⟨symbol, hBase,
    hCoherent.candidate_of_mem hInside hSymbol hFirst hLast,
    hOffset.symm, hFirst, hLast, hAnswer⟩

/- What a lookup of an entry answers after a cache miss. -/
private theorem Agrees.run_mapEntry
    (hCoherent : Coherent glb resolve)
    (hInside : InCodeSpace glb resolve)
    (hCache : Agrees glb resolve data cache)
    (addr : Address)
    (contain : Bool) :
    ∃ result cache',
      (queryLLDB glb resolve addr contain >>= fun sym =>
        mapEntryOf sym addr).run cache = (.ok result, cache') ∧
      result.map Answer.ofEntry =
        if (candidate resolve addr.offset contain).isSome then
          functionOver glb resolve addr
            (acceptContainer glb addr)
        else
          none := by
  rcases hCache.run_queryLLDB hCoherent hInside addr contain
    with ⟨hNone, hRun⟩ |
      ⟨symbol, found, entry, cache', hSymbol, hRun, hAgrees,
        hFound⟩
  · refine ⟨none, cache, ?_, by simp [hNone]⟩
    rw [Effect.run_bind_of_ok hRun]
    rfl
  · have hPlace := candidate_eq_some_iff.mp hSymbol
    have hContained :
        candidate resolve addr.offset true = some symbol :=
      candidate_eq_some_iff.mpr
        ⟨hPlace.1, hPlace.2.1, hPlace.2.2.1, Or.inl rfl⟩
    rcases hFound.run_mapEntryOf hCoherent hInside hAgrees
        hContained with
      ⟨result, hMapEntry, hResult⟩
    refine ⟨result, cache', ?_, by simp [hSymbol, hResult]⟩
    rw [Effect.run_bind_of_ok hRun, hMapEntry]

/- The first byte of a function is one of its bytes. -/
theorem acceptContainer_of_acceptStart
    (hStart : acceptStart addr symbol) :
    acceptContainer glb addr symbol := by
  have hSame : symbol.startAddress = addr.offset :=
    of_decide_eq_true hStart
  have hPos := glb.minFuncsymbolSized
  have hZero : int4 (0#64).toNat = 0 := rfl
  simp only [acceptContainer, hSame, BitVec.sub_self, hZero]
  exact decide_eq_true hPos

/- A lookup of an entry at its start, among functions only. -/
theorem Agrees.answer_findAddr
    (hCoherent : Coherent glb resolve)
    (hInside : InCodeSpace glb resolve)
    (hCache : Agrees glb resolve false cache)
    (addr usepoint : Address) :
    answer glb resolve (.findAddr addr usepoint) cache =
      .ok (expected glb resolve (.findAddr addr usepoint)) := by
  unfold answer serve findAddr expected
  rw [Effect.run_bind, Effect.run_bind, Effect.run_gets]
  cases hHit : cache.findAddr addr usepoint with
  | some entry =>
      have hEntry := ScopeInternal.findAddr_spec hHit
      rcases hCache.answer_of_mem_entriesAt hCoherent hInside
          hEntry.1 with
        ⟨symbol, hBase, hSymbol, hStart, _, _, hAnswer⟩
      have hAccept : acceptStart addr symbol :=
        decide_eq_true (hStart.trans hEntry.2.1)
      simp only [Effect.run_pure, Option.map_some, hAnswer,
        functionOver_of_candidate hBase hSymbol hAccept]
  | none =>
      rcases hCache.run_mapEntry hCoherent hInside addr false
        with ⟨result, cache', hRun, hResult⟩
      simp only [hRun, Effect.run_pure, hResult]
      congr 1
      unfold functionOver
      rw [candidate_false]
      cases hSymbol :
          candidate resolve addr.offset true with
      | none => simp
      | some symbol =>
          cases hStart : acceptStart addr symbol with
          | true =>
              have hContain :
                  acceptContainer glb addr symbol :=
                acceptContainer_of_acceptStart hStart
              have hSame := of_decide_eq_true hStart
              simp [Option.filter, hStart, hContain, hSame]
          | false =>
              have hDiffers := of_decide_eq_false hStart
              simp [Option.filter, hStart, hDiffers]

/- An entry over the whole range is one that is accepted. -/
theorem acceptContainer_of_mem
    (hInside : InCodeSpace glb resolve)
    (hSymbol :
      candidate resolve addr.offset true = some symbol)
    (hFirst : symbol.startAddress ≤ addr.offset)
    (hLast : addr.offset ≤
      ScopeInternal.functionEnd glb symbol.startAddress) :
    acceptContainer glb addr symbol := by
  have hEnd := hInside.functionEnd_toNat hSymbol
  have hPos := glb.minFuncsymbolSized
  have hSize := glb.minFuncsymbolSize_toInt
  have hBound := glb.minFuncsymbolSize.toInt_lt
  rw [BitVec.le_def] at hFirst hLast
  have hDistance :
      (addr.offset - symbol.startAddress).toNat =
        addr.offset.toNat - symbol.startAddress.toNat := by
    have hOffset := addr.offset.isLt
    rw [BitVec.toNat_sub]
    omega
  unfold acceptContainer
  rw [hDistance, int4_of_lt (by omega)]
  apply decide_eq_true
  omega

/- A lookup by containment, among functions only. -/
theorem Agrees.answer_findContainer
    (hCoherent : Coherent glb resolve)
    (hInside : InCodeSpace glb resolve)
    (hCache : Agrees glb resolve false cache)
    (addr : Address)
    (size : Int)
    (usepoint : Address) :
    answer glb resolve (.findContainer addr size usepoint)
        cache =
      .ok (expected glb resolve
        (.findContainer addr size usepoint)) := by
  unfold answer serve findContainer expected
  rw [Effect.run_bind, Effect.run_bind, Effect.run_gets]
  cases hHit : cache.findContainer addr size usepoint with
  | some entry =>
      have hEntry := ScopeInternal.findContainer_spec hHit
      rcases hCache.answer_of_mem_entriesAt hCoherent hInside
          hEntry.1 with
        ⟨symbol, hBase, hSymbol, _, hFirst, hLast, hAnswer⟩
      have hAccept :=
        acceptContainer_of_mem hInside hSymbol hFirst hLast
      simp only [Effect.run_pure, Option.map_some, hAnswer,
        functionOver_of_candidate hBase hSymbol hAccept]
  | none =>
      rcases hCache.run_mapEntry hCoherent hInside addr true
        with ⟨result, cache', hRun, hResult⟩
      simp only [hRun, Effect.run_pure, hResult]
      congr 1
      unfold functionOver
      cases candidate resolve addr.offset true with
      | none => simp
      | some symbol => simp

end LLDBScope

end LLDBGhidra

------------------------------------------------------------
-- Where Clearing the Cache Is Defined
------------------------------------------------------------

namespace LLDBGhidra

namespace LLDBScope

open ScopeInternal (DataFits Mapped Wellformed functionEnd)

/- The ranges of an added data symbol do not wrap. -/
def Request.FitsSpaces
    (glb : Glb)
    (request : Request) : Prop :=
  match request with
  | .addSymbol _ typeSize addr _ =>
      0 < typeSize.toInt → DataFits glb typeSize addr
  | _ => True

variable {glb : Glb}
variable {resolve : Resolver}
variable {symbol : SBSymbol}

theorem mapped_registerFunction
    (hFits :
      symbol.startAddress ≤
        functionEnd glb symbol.startAddress) :
    Effect.Keeps Mapped (registerFunction glb symbol) := by
  intro cache hCache
  unfold registerFunction
  by_cases hStart : symbol.startAddress = lldbInvalidAddress
  · simp only [hStart, if_true]
    exact hCache
  · simp only [hStart, if_false]
    rw [Effect.run_bind, Effect.run_query]
    cases cache.findFunction
        (Address.ofSpace glb.defaultCodeSpace
          symbol.startAddress) with
    | error error => exact hCache
    | ok existing =>
        cases existing with
        | some fd => exact hCache
        | none =>
            exact Effect.Keeps.bind
              (fun cache hCache => hCache.addFunction _ _ hFits)
              (fun _ => Effect.Keeps.pure _) cache hCache

/- Every call keeps the tables such that they can be erased. -/
theorem mapped_serve
    (hInside : InCodeSpace glb resolve)
    {request : Request}
    (hFits : request.FitsSpaces glb) :
    Effect.Keeps
      (fun cache => Wellformed glb none cache ∧ Mapped cache)
      (serve glb resolve request) := by
  apply keeps_serve
  · intro addr contain symbol hSymbol cache hCache
    have hFound := candidate_eq_some_iff.mp hSymbol
    have hStart := hInside.start_le_functionEnd
      (candidate_eq_some_iff.mpr
        ⟨hFound.1, hFound.2.1, hFound.2.2.1, Or.inl rfl⟩)
    exact ⟨(registration hCache.1 symbol).wellformed hCache.1,
      mapped_registerFunction hStart cache hCache.2⟩
  · intro cache cleared hCache hClear
    exact ⟨hCache.1.clear hClear, Mapped.clear hCache.1 hClear⟩
  · intro name typeSize addr usepoint hRequest cache hCache
    subst hRequest
    exact ⟨(hCache.1.addSymbol name typeSize addr
      usepoint).wellformed,
      hCache.2.addSymbol name usepoint hFits⟩

theorem mapped_run
    (hInside : InCodeSpace glb resolve)
    {history : List Request}
    (hFits : ∀ past ∈ history, past.FitsSpaces glb) :
    Wellformed glb none
        (run glb resolve history ScopeInternal.empty) ∧
      Mapped (run glb resolve history ScopeInternal.empty) := by
  have hServe : ∀ past ∈ history,
      Effect.Keeps
        (fun cache => Wellformed glb none cache ∧ Mapped cache)
        (serve glb resolve past) :=
    fun past hPast => mapped_serve hInside (hFits past hPast)
  exact run_of_keeps hServe
    ⟨ScopeInternal.wellformed_empty glb,
      ScopeInternal.mapped_empty⟩

/- Clearing the cache after such calls is defined. -/
theorem answer_clear
    (hInside : InCodeSpace glb resolve)
    {history : List Request}
    (hFits : ∀ past ∈ history, past.FitsSpaces glb) :
    answer glb resolve .clear
        (run glb resolve history ScopeInternal.empty) =
      .ok none := by
  have hCache := mapped_run hInside hFits
  rcases hCache.1.isSome_clear hCache.2.findable with
    ⟨cleared, hCleared⟩
  unfold answer serve clear
  rw [Effect.run_bind, Effect.run_gets_bind, hCleared]
  rfl

end LLDBScope

end LLDBGhidra

------------------------------------------------------------
-- Independence of the History
------------------------------------------------------------

namespace LLDBGhidra

namespace LLDBScope

/-
  There is at most one function symbol for each address, and
  each is named after a symbol of the debugger at its start.
-/
structure FunctionsResolved
    (glb : Glb)
    (resolve : Resolver)
    (cache : ScopeInternal) : Prop where
  unique :
    ∀ left ∈ cache.nametree, ∀ right ∈ cache.nametree,
      left.isFunction → right.isFunction →
        ∀ entry ∈ cache.mapentry left.symbolId,
          ∀ entry' ∈ cache.mapentry right.symbolId,
            entry.addr = entry'.addr → left = right
  resolved :
    ∀ stored ∈ cache.nametree, stored.isFunction →
      ∃ symbol,
        resolve symbol.startAddress = some symbol ∧
          symbol.isCode ∧ symbol.isLoaded ∧
          symbol.displayName = some stored.name ∧
          ∃ entry,
            cache.mapentry stored.symbolId = [entry] ∧
              entry.addr =
                Address.ofSpace glb.defaultCodeSpace
                  symbol.startAddress

/- Is it a lookup that functions alone decide? -/
def Request.isLookup
    (request : Request) : Bool :=
  match request with
  | .findAddr _ _ => true
  | .findContainer _ _ _ => true
  | .findFunction _ => true
  | .clear => false
  | .addSymbol _ _ _ _ => false

def Request.isFindFunction
    (request : Request) : Bool :=
  match request with
  | .findFunction _ => true
  | _ => false

variable {glb : Glb}
variable {resolve : Resolver}
variable {data : Bool}
variable {cache : ScopeInternal}

theorem Agrees.functionsResolved
    (hCoherent : Coherent glb resolve)
    (hCache : Agrees glb resolve data cache) :
    FunctionsResolved glb resolve cache := by
  have hMapped := fun symbol hSymbol hFunction =>
    hCache.wellformed.functions symbol hSymbol hFunction
      (by simp)
  refine ⟨?_, ?_⟩
  · intro left hLeft right hRight hLeftFunction
      hRightFunction entry hEntry entry' hEntry' hAddr
    rcases hMapped left hLeft hLeftFunction with
      ⟨start, found, hFound⟩
    rcases hMapped right hRight hRightFunction with
      ⟨start', found', hFound'⟩
    rw [hFound.only, List.mem_singleton] at hEntry
    rw [hFound'.only, List.mem_singleton] at hEntry'
    subst hEntry hEntry'
    have hStart : start' = start := by
      rw [hFound.addr, hFound'.addr] at hAddr
      exact (congrArg Address.offset hAddr).symm
    subst hStart
    apply hCache.wellformed.distinct left hLeft right hRight
    exact hCache.unique _ _ _ _ _
      (hFound.hasFunction hLeft hLeftFunction)
      (hFound'.hasFunction hRight hRightFunction)
  · intro stored hStored hFunction
    rcases hMapped stored hStored hFunction with
      ⟨start, entry, hFound⟩
    rcases hCache.resolved _ _ _
        (hFound.hasFunction hStored hFunction) with
      ⟨symbol, hSymbol, rfl, hName⟩
    have hPlace := candidate_eq_some_iff.mp hSymbol
    have hNamed := hCoherent.funcName_eq hPlace.1
    rw [hName] at hNamed
    exact ⟨symbol, hPlace.1, hPlace.2.1, hPlace.2.2.1,
      hNamed.1, entry, hFound.only, hFound.addr⟩

/-
  After any calls, if no data that is added wraps around its
  space, the functions of the cache are those of the debugger,
  and the cache can be cleared.  A lookup answers as on a
  fresh scope: any lookup of a function, and any other unless
  data was added.
-/
theorem lookups_independent_of_history
    (glb : Glb)
    (resolve : Resolver)
    (history : List Request)
    (hCoherent : Coherent glb resolve)
    (hInside : InCodeSpace glb resolve)
    (hFits : ∀ past ∈ history, past.FitsSpaces glb) :
    FunctionsResolved glb resolve
        (run glb resolve history ScopeInternal.empty) ∧
      answer glb resolve .clear
          (run glb resolve history ScopeInternal.empty) =
        .ok none ∧
      ∀ request : Request,
        request.isFindFunction ∨
            (request.isLookup ∧
              ∀ past ∈ history, past.addsData = false) →
          answer glb resolve request
              (run glb resolve history ScopeInternal.empty) =
            answer glb resolve request ScopeInternal.empty := by
  have hAny : Agrees glb resolve true
      (run glb resolve history ScopeInternal.empty) :=
    agrees_run hCoherent hInside (fun _ _ _ => rfl)
  refine ⟨hAny.functionsResolved hCoherent,
    answer_clear hInside hFits, ?_⟩
  intro request hRequest
  cases request with
  | findFunction addr =>
      rw [hAny.answer_findFunction hCoherent hInside,
        (agrees_empty glb resolve true).answer_findFunction
          hCoherent hInside]
  | findAddr addr usepoint =>
      have hPure : ∀ past ∈ history, past.addsData = false := by
        simpa [Request.isFindFunction, Request.isLookup]
          using hRequest
      have hCache : Agrees glb resolve false
          (run glb resolve history ScopeInternal.empty) :=
        agrees_run hCoherent hInside (fun past hPast hData => by
          rw [hPure past hPast] at hData
          exact hData)
      rw [hCache.answer_findAddr hCoherent hInside,
        (agrees_empty glb resolve false).answer_findAddr
          hCoherent hInside]
  | findContainer addr size usepoint =>
      have hPure : ∀ past ∈ history, past.addsData = false := by
        simpa [Request.isFindFunction, Request.isLookup]
          using hRequest
      have hCache : Agrees glb resolve false
          (run glb resolve history ScopeInternal.empty) :=
        agrees_run hCoherent hInside (fun past hPast hData => by
          rw [hPure past hPast] at hData
          exact hData)
      rw [hCache.answer_findContainer hCoherent hInside,
        (agrees_empty glb resolve false).answer_findContainer
          hCoherent hInside]
  | clear =>
      simp [Request.isFindFunction, Request.isLookup] at hRequest
  | addSymbol name typeSize addr usepoint =>
      simp [Request.isFindFunction, Request.isLookup] at hRequest

------------------------------------------------------------
-- Runs on Small Debuggers
------------------------------------------------------------

/- An architecture with one code space and its highest offset. -/
def sampleGlb
    (highest : BitVec 64)
    (highestScaled :
      highest.toNat = 2 ^ 64 - 1 ∨ highest.toNat < 2 ^ 63) :
    Glb where
  space := fun index =>
    { name := "ram"
      type := .processor
      index := index
      addressSize := 8
      wordsize := 1
      wordsizeSmall := bytewise_small
      highest := highest
      highestScaled := highestScaled
      delay := 1
      bigEndian := false
      overlay := false
      overlayBase := false
      otherSpace := false
      truncated := false
      contain := none }
  findJoin := fun _ => none
  defaultCodeSpace := 0
  codeSpaceUnjoined := by simp
  minFuncsymbolSize := 4
  minFuncsymbolSized := by decide

def wideGlb : Glb :=
  sampleGlb (BitVec.allOnes 64) allOnes_scaled

def narrowGlb : Glb :=
  sampleGlb 0xffffffff (by decide)

/- A debugger that knows one function of sixteen bytes. -/
def sampleSymbol
    (start : BitVec 64) : SBSymbol :=
  { name := some "main"
    displayName := some "main"
    type := .code
    startAddress := start }

def sampleResolver
    (start : BitVec 64) : Resolver :=
  fun addr =>
    if start ≤ addr ∧ addr < start + 16 then
      some (sampleSymbol start)
    else
      none

theorem coherent_sampleResolver
    {highest : BitVec 64}
    {highestScaled :
      highest.toNat = 2 ^ 64 - 1 ∨ highest.toNat < 2 ^ 63}
    (start : BitVec 64)
    (hStart : start.toNat < 2 ^ 63) :
    Coherent (sampleGlb highest highestScaled)
      (sampleResolver start) := by
  have hFound : ∀ addr symbol,
      sampleResolver start addr = some symbol →
        (start ≤ addr ∧ addr < start + 16) ∧
          sampleSymbol start = symbol := by
    intro addr symbol hSymbol
    unfold sampleResolver at hSymbol
    split at hSymbol
    next hInside =>
      exact ⟨hInside, Option.some.inj hSymbol⟩
    next => cases hSymbol
  refine ⟨?_, ?_, ?_⟩
  · intro addr symbol hSymbol _ _
    rcases hFound addr symbol hSymbol with ⟨hInside, rfl⟩
    exact hInside.1
  · intro addr symbol hSymbol _ _ k hByte
    rcases hFound addr symbol hSymbol with ⟨_, rfl⟩
    have hShort : k < 4 := hByte
    change sampleResolver start (start + BitVec.ofNat 64 k) =
      some (sampleSymbol start)
    unfold sampleResolver
    apply if_pos
    constructor
    · rw [BitVec.le_def, BitVec.toNat_add, BitVec.toNat_ofNat]
      omega
    · have hSixteen : (16 : BitVec 64).toNat = 16 := rfl
      rw [BitVec.lt_def, BitVec.toNat_add, BitVec.toNat_add,
        BitVec.toNat_ofNat, hSixteen]
      omega
  · intro addr symbol hSymbol
    rcases hFound addr symbol hSymbol with ⟨_, rfl⟩
    exact ⟨"main", rfl, by decide⟩

/- A lookup inside the function, after data was cleared away. -/
def sampleHistory : List Request :=
  [.addSymbol "table" 4 ⟨some 0, 0x1800⟩ Address.invalid,
    .clear,
    .findContainer ⟨some 0, 0x1002⟩ 1 Address.invalid]

/-
  The lookup registers the function at its start, and the
  lookup at the start then answers as on a fresh scope.
-/
theorem lookups_independent_after_containment :
    FunctionsResolved wideGlb (sampleResolver 0x1000)
        (run wideGlb (sampleResolver 0x1000) sampleHistory
          ScopeInternal.empty) ∧
      answer wideGlb (sampleResolver 0x1000) .clear
          (run wideGlb (sampleResolver 0x1000) sampleHistory
            ScopeInternal.empty) =
        .ok none ∧
      answer wideGlb (sampleResolver 0x1000)
          (.findFunction ⟨some 0, 0x1000⟩)
          (run wideGlb (sampleResolver 0x1000) sampleHistory
            ScopeInternal.empty) =
        answer wideGlb (sampleResolver 0x1000)
          (.findFunction ⟨some 0, 0x1000⟩)
          ScopeInternal.empty := by
  have hResult := lookups_independent_of_history wideGlb
    (sampleResolver 0x1000) sampleHistory
    (coherent_sampleResolver 0x1000 (by decide))
    (by
      intro addr symbol hSymbol _ _
      unfold sampleResolver at hSymbol
      split at hSymbol
      next =>
        cases hSymbol
        decide
      next => cases hSymbol)
    (by
      intro past hPast
      simp only [sampleHistory, List.mem_cons,
        List.not_mem_nil, or_false] at hPast
      rcases hPast with rfl | rfl | rfl
      · intro _
        refine ⟨?_, ?_⟩
        · intro space hSpace
          cases hSpace
          unfold ScopeInternal.Fits
          decide
        · intro space record _ _ hRecord
          cases hRecord
      · trivial
      · trivial)
  exact ⟨hResult.1, hResult.2.1,
    hResult.2.2 (.findFunction ⟨some 0, 0x1000⟩)
      (Or.inl rfl)⟩

/- Data over the end of its space cannot be cleared away. -/
example :
    answer wideGlb (sampleResolver 0x1000) .clear
        (run wideGlb (sampleResolver 0x1000)
          [.addSymbol "table" 4
            ⟨some 0, 0xfffffffffffffffe⟩ Address.invalid]
          ScopeInternal.empty) =
      .error (.stdException "end of a table") := by
  rfl

/-
  A function beyond a 32-bit code space is coherent, but its
  entry wraps and is never found: it is registered twice.
-/
theorem registered_twice_outside_code_space :
    Coherent narrowGlb (sampleResolver 0x100000000) ∧
      ¬ FunctionsResolved narrowGlb
        (sampleResolver 0x100000000)
        (run narrowGlb (sampleResolver 0x100000000)
          [.findFunction ⟨some 0, 0x100000000⟩,
            .findFunction ⟨some 0, 0x100000000⟩]
          ScopeInternal.empty) := by
  refine ⟨coherent_sampleResolver _ (by decide), ?_⟩
  intro hResolved
  have hSame := hResolved.unique
    ⟨0x4000000000000000, "main", 0, .function 4, true⟩
    (by decide)
    ⟨0x4000000000000001, "main", 1, .function 4, true⟩
    (by decide) (by decide) (by decide)
    (SymbolEntry.init
      ⟨0x4000000000000000, "main", 0, .function 4, true⟩
      0 0 RangeList.empty 0x100000000 3)
    (by decide)
    (SymbolEntry.init
      ⟨0x4000000000000001, "main", 1, .function 4, true⟩
      0 0 RangeList.empty 0x100000000 3)
    (by decide) rfl
  exact absurd hSame (by decide)

end LLDBScope

end LLDBGhidra
