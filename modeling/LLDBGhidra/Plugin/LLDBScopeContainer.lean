import LLDBGhidra.Plugin.LLDBScopeHistory

/-
  When a lookup by containment returns an entry that does not
  contain the range that was asked for.

  Main declarations:
    * `LLDBScope.Overruns`
    * `LLDBScope.run_findContainer`
    * `LLDBScope.findContainer_contains_iff`
-/

------------------------------------------------------------
-- The Entry of a Function
------------------------------------------------------------

namespace LLDBGhidra

namespace LLDBScope

open ScopeInternal (MappedAt functionEnd newName lastSubsort)

/- The size of the entry of a function, whatever its symbol. -/
def functionSize
    (glb : Glb)
    (start : BitVec 64) : Int :=
  int4 (functionEnd glb start - start + 1).toNat

def functionLast
    (glb : Glb)
    (start : BitVec 64) : BitVec 64 :=
  start + BitVec.ofInt 64 (functionSize glb start) - 1

/- The entry has all of the `size` bytes from the address. -/
structure Contains
    (entry : SymbolEntry)
    (addr : Address)
    (size : Int) : Prop where
  sameSpace : entry.addr.base = addr.base
  first : entry.getFirst ≤ addr.offset
  last :
    addr.offset.toNat + size.toNat - 1 ≤ entry.getLast.toNat

/- An entry of the cache over the whole range is in use. -/
def CacheContains
    (cache : ScopeInternal)
    (addr : Address)
    (size : Int)
    (usepoint : Address) : Prop :=
  ∃ entry ∈ cache.entriesAt addr (lastSubsort usepoint),
    addr.offset.toNat + size.toNat - 1 ≤ entry.getLast.toNat ∧
      entry.inUse usepoint

/-
  The symbol has its function in the cache, or a name under
  which it can be registered.
-/
def Registrable
    (glb : Glb)
    (cache : ScopeInternal)
    (symbol : SBSymbol) : Prop :=
  cache.findFunction
      (Address.ofSpace glb.defaultCodeSpace
        symbol.startAddress) ≠ .ok none ∨
    ∃ name, newName cache symbol.funcName = .ok name

/-
  The entry of the function over an address is returned, but
  the range goes on after its last byte.
-/
def Overruns
    (glb : Glb)
    (resolve : Resolver)
    (cache : ScopeInternal)
    (addr : Address)
    (size : Int) : Prop :=
  addr.base = some glb.defaultCodeSpace ∧
    ∃ symbol, resolve addr.offset = some symbol ∧
      symbol.isCode ∧ symbol.isLoaded ∧
      Registrable glb cache symbol ∧
      symbol.startAddress ≤ addr.offset ∧
      int4 (addr.offset - symbol.startAddress).toNat <
        functionSize glb symbol.startAddress ∧
      (functionLast glb symbol.startAddress).toNat <
        addr.offset.toNat + size.toNat - 1

variable {glb : Glb}
variable {cache : ScopeInternal}
variable {stored : Symbol}
variable {start : BitVec 64}
variable {entry : SymbolEntry}

theorem size_of_mapped
    (hMapped : MappedAt glb cache stored start entry) :
    entry.size = functionSize glb start := by
  rw [hMapped.entryEq]
  rfl

theorem getLast_of_mapped
    (hMapped : MappedAt glb cache stored start entry) :
    entry.getLast = functionLast glb start := by
  rw [hMapped.entryEq]
  rfl

end LLDBScope

end LLDBGhidra

------------------------------------------------------------
-- Lookups by Containment
------------------------------------------------------------

namespace LLDBGhidra

namespace LLDBScope

open ScopeInternal (MappedAt Wellformed lastSubsort)

variable {glb : Glb}
variable {cache : ScopeInternal}
variable {addr usepoint : Address}
variable {size : Int}

/- A registrable symbol leads to the entry of its function. -/
theorem Registration.entry
    {symbol : SBSymbol}
    {outcome : Except Exn (Option Symbol) × ScopeInternal}
    (hLoaded : symbol.isLoaded)
    (hOutcome : Registration glb cache symbol outcome) :
    (Registrable glb cache symbol ∧
      ∃ found cache' stored entry,
        outcome = (.ok (some found), cache') ∧
          found.symbolId = stored.symbolId ∧
          MappedAt glb cache' stored symbol.startAddress
            entry) ∨
    (¬ Registrable glb cache symbol ∧
      ∃ error, outcome = (.error error, cache.takeId)) := by
  cases hOutcome with
  | unloaded hUnloaded =>
      rw [hLoaded] at hUnloaded
      cases hUnloaded
  | @existing stored entry hFound _ _ hMapped =>
      refine Or.inl ⟨Or.inl ?_, entry.symbol, cache, stored,
        entry, rfl, hMapped.sameId, hMapped⟩
      rw [hFound]
      simp
  | @added found cache' _ hName hAdded =>
      rcases hAdded.mapped with ⟨entry, hMapped⟩
      exact Or.inl ⟨Or.inr ⟨found.name, hName⟩, found, cache',
        found, entry, rfl, rfl, hMapped⟩
  | @failed error hMissing hName =>
      refine Or.inr ⟨?_, error, rfl⟩
      rintro (hFound | ⟨name, hNamed⟩)
      · exact hFound hMissing
      · rw [hName] at hNamed
        cases hNamed

/-
  What is returned after a cache miss: the entry of the
  function of the candidate, if it is over the address.
-/
theorem run_findContainer
    (resolve : Resolver)
    (hCache : Wellformed glb none cache)
    (hMissing : cache.findContainer addr size usepoint = none) :
    (∃ symbol found cache' stored entry,
      candidate resolve addr.offset true = some symbol ∧
        Registrable glb cache symbol ∧
        found.symbolId = stored.symbolId ∧
        MappedAt glb cache' stored symbol.startAddress entry ∧
        (findContainer glb resolve addr size usepoint).run
            cache =
          (.ok (cache'.getMapEntry found addr), cache')) ∨
    ((∀ symbol,
        candidate resolve addr.offset true = some symbol →
          ¬ Registrable glb cache symbol) ∧
      ∀ entry,
        ((findContainer glb resolve addr size usepoint).run
            cache).1 ≠ .ok (some entry)) := by
  have hRun : (findContainer glb resolve addr size
        usepoint).run cache =
      (queryLLDB glb resolve addr true >>= fun sym =>
        mapEntryOf sym addr).run cache := by
    unfold findContainer
    rw [Effect.run_gets_bind, hMissing]
  rw [hRun, Effect.run_bind, run_queryLLDB]
  cases hSymbol : candidate resolve addr.offset true with
  | none =>
      right
      simp [mapEntryOf]
  | some symbol =>
      have hLoaded :=
        (candidate_eq_some_iff.mp hSymbol).2.2.1
      have hOutcome := registration hCache symbol
      rcases hOutcome.entry hLoaded with
        ⟨hRegistrable, found, cache', stored, entry, hResult,
          hId, hMapped⟩ |
          ⟨hUnregistrable, error, hResult⟩
      · left
        refine ⟨symbol, found, cache', stored, entry, rfl,
          hRegistrable, hId, hMapped, ?_⟩
        simp only [hResult]
        rfl
      · right
        simp only [hResult]
        refine ⟨?_, by simp⟩
        rintro other hOther
        cases hOther
        exact hUnregistrable

/- The last byte of a range that does not wrap. -/
theorem toNat_stop
    (hSize : 1 ≤ size)
    (hFits : addr.offset.toNat + size.toNat ≤ 2 ^ 64) :
    (addr.offset + BitVec.ofInt 64 size - 1).toNat =
      addr.offset.toNat + size.toNat - 1 := by
  have hCast : size = (size.toNat : Int) := by omega
  have hOffset := addr.offset.isLt
  have hOne : (1 : BitVec 64).toNat = 1 := rfl
  rw [hCast, BitVec.ofInt_natCast, BitVec.toNat_sub,
    BitVec.toNat_add, BitVec.toNat_ofNat, hOne]
  omega

/- The cache answers if it has an entry over the range. -/
theorem findContainer_ne_none_iff
    (hSize : 1 ≤ size)
    (hFits : addr.offset.toNat + size.toNat ≤ 2 ^ 64) :
    cache.findContainer addr size usepoint ≠ none ↔
      CacheContains cache addr size usepoint := by
  have hStop := toNat_stop hSize hFits
  constructor
  · intro hFound
    rcases Option.ne_none_iff_exists'.mp hFound with
      ⟨entry, hEntry⟩
    rcases ScopeInternal.findContainer_spec hEntry with
      ⟨hMem, hLast, hUse⟩
    rw [BitVec.le_def, hStop] at hLast
    exact ⟨entry, hMem, hLast, hUse⟩
  · rintro ⟨entry, hMem, hLast, hUse⟩ hMissing
    have hUnused := ScopeInternal.findContainer_eq_none
      hMissing hMem (by rw [BitVec.le_def, hStop]; exact hLast)
    rw [hUse] at hUnused
    cases hUnused

/-
  In every cache that calls can lead to, a lookup returns only
  entries that contain the range, if and only if the cache has
  one or the function over the address does not overrun.
-/
theorem findContainer_contains_iff
    (glb : Glb)
    (before resolve : Resolver)
    (history : List Request)
    (addr : Address)
    (size : Int)
    (usepoint : Address)
    (hSize : 1 ≤ size)
    (hFits : addr.offset.toNat + size.toNat ≤ 2 ^ 64) :
    (∀ entry,
      ((findContainer glb resolve addr size usepoint).run
          (run glb before history ScopeInternal.empty)).1 =
          .ok (some entry) →
        Contains entry addr size) ↔
      (CacheContains (run glb before history
          ScopeInternal.empty) addr size usepoint ∨
        ¬ Overruns glb resolve (run glb before history
          ScopeInternal.empty) addr size) := by
  have hCache := wellformed_run glb before history
  generalize run glb before history ScopeInternal.empty =
    cache at *
  rw [← findContainer_ne_none_iff hSize hFits]
  have hStop := toNat_stop hSize hFits
  cases hHit : cache.findContainer addr size usepoint with
  | some found =>
      have hRun : (findContainer glb resolve addr size
            usepoint).run cache = (.ok (some found), cache) := by
        unfold findContainer
        rw [Effect.run_gets_bind, hHit]
        rfl
      simp only [hRun, Except.ok.injEq, Option.some.injEq,
        ne_eq, reduceCtorEq, not_false_eq_true, true_or,
        iff_true]
      intro entry hEntry
      subst hEntry
      rcases ScopeInternal.findContainer_spec hHit with
        ⟨hMem, hLast, _⟩
      have hStored := hCache.of_mem_entriesAt hMem
      rw [BitVec.le_def, hStop] at hLast
      exact ⟨hStored.sameSpace, hStored.first, hLast⟩
  | none =>
      simp only [ne_eq, not_true_eq_false, false_or]
      rcases run_findContainer resolve hCache hHit with
        ⟨symbol, found, cache', stored, entry, hSymbol,
          hRegistrable, hId, hMapped, hRun⟩ |
          ⟨hUnregistrable, hNothing⟩
      · have hPlace := candidate_eq_some_iff.mp hSymbol
        have hEntry := hMapped.getMapEntry_eq hId addr
        rw [size_of_mapped hMapped] at hEntry
        have hLast := getLast_of_mapped hMapped
        have hFirst : entry.getFirst = symbol.startAddress := by
          unfold SymbolEntry.getFirst
          rw [hMapped.addr]
          rfl
        constructor
        · intro hContains hOverruns
          rcases hOverruns with
            ⟨hBase, other, hOther, _, _, _, hStart, hNear,
              hEnd⟩
          rw [hPlace.1] at hOther
          cases hOther
          have hResult := hContains entry (by
            rw [hRun, hEntry, if_pos ⟨hBase, hStart, hNear⟩])
          have hFar := hResult.last
          rw [hLast] at hFar
          omega
        · intro hNot result hResult
          rw [hRun, hEntry] at hResult
          split at hResult
          next hOver =>
            cases hResult
            refine ⟨?_, ?_, ?_⟩
            · rw [hMapped.addr, hOver.1]
              rfl
            · rw [hFirst]
              exact hOver.2.1
            · rw [hLast]
              by_contra hEnd
              apply hNot
              exact ⟨hOver.1, symbol, hPlace.1, hPlace.2.1,
                hPlace.2.2.1, hRegistrable, hOver.2.1,
                hOver.2.2, by omega⟩
          next => cases hResult
      · constructor
        · intro _ hOverruns
          rcases hOverruns with
            ⟨_, symbol, hResolve, hCode, hLoaded,
              hRegistrable, _⟩
          apply hUnregistrable symbol _ hRegistrable
          exact candidate_eq_some_iff.mpr
            ⟨hResolve, hCode, hLoaded, Or.inl rfl⟩
        · intro _ entry hEntry
          exact absurd hEntry (hNothing entry)

/- The condition at one address of a function of the cache. -/
theorem findContainer_contains_iff_inside :
    (∀ entry,
      ((findContainer wideGlb (sampleResolver 0x1000)
            ⟨some 0, 0x1002⟩ 2 Address.invalid).run
          (run wideGlb (sampleResolver 0x1000)
            [.findFunction ⟨some 0, 0x1000⟩]
            ScopeInternal.empty)).1 =
          .ok (some entry) →
        Contains entry ⟨some 0, 0x1002⟩ 2) ↔
      (CacheContains (run wideGlb (sampleResolver 0x1000)
          [.findFunction ⟨some 0, 0x1000⟩]
          ScopeInternal.empty)
          ⟨some 0, 0x1002⟩ 2 Address.invalid ∨
        ¬ Overruns wideGlb (sampleResolver 0x1000)
          (run wideGlb (sampleResolver 0x1000)
            [.findFunction ⟨some 0, 0x1000⟩]
            ScopeInternal.empty)
          ⟨some 0, 0x1002⟩ 2) :=
  findContainer_contains_iff wideGlb (sampleResolver 0x1000)
    (sampleResolver 0x1000)
    [.findFunction ⟨some 0, 0x1000⟩] ⟨some 0, 0x1002⟩ 2
    Address.invalid (by decide) (by decide)

/-
  Eight bytes at the start of a function are answered with its
  entry of four bytes.
-/
theorem findContainer_overruns_at_start :
    ¬ ∀ entry,
      ((findContainer wideGlb (sampleResolver 0x1000)
            ⟨some 0, 0x1000⟩ 8 Address.invalid).run
          (run wideGlb (sampleResolver 0x1000) []
            ScopeInternal.empty)).1 =
          .ok (some entry) →
        Contains entry ⟨some 0, 0x1000⟩ 8 := by
  intro hContains
  have hResult := hContains
    (SymbolEntry.init
      ⟨0x4000000000000000, "main", 0, .function 4, true⟩
      0 0 RangeList.empty 0x1000 0x1003)
    (by rfl)
  exact absurd hResult.last (by decide)

end LLDBScope

end LLDBGhidra
