import LLDBGhidra.Decompiler.DatabaseInvariant

/-
  Clearing a scope leaves nothing behind, even where symbols
  whose range wraps around their space were mapped.  It is
  defined where no mapped range wraps.

  Main declarations:
    * `ScopeInternal.TreesListed`
    * `ScopeInternal.Wellformed.clear`
    * `ScopeInternal.not_hasFunction_clear`
    * `ScopeInternal.Wellformed.isSome_clear`
    * `ScopeInternal.Mapped`
    * `ScopeInternal.Mapped.addSymbol`
-/

------------------------------------------------------------
-- Erasing Entries
------------------------------------------------------------

namespace LLDBGhidra

namespace ScopeInternal

/- What stays true of the trees while symbols are removed. -/
def TreesListed
    (scope : ScopeInternal) : Prop :=
  ∀ space map, scope.maptable space = some map →
    RangeMap.Listed map.tree ∧
      ∀ range ∈ map.tree,
        range.value.addr.base = some space ∧
          range.value ∈
            scope.mapentry range.value.symbol.symbolId

/- No tree of the scope holds the entry. -/
def Unstored
    (scope : ScopeInternal)
    (entry : SymbolEntry) : Prop :=
  ∀ space map, scope.maptable space = some map →
    ∀ range ∈ map.tree, range.value ≠ entry

variable {scope erased : ScopeInternal}
variable {entry : SymbolEntry}

/- Everything that erasing an entry can come to. -/
theorem eraseEntry_eq_some
    (hErase : eraseEntry scope entry = some erased) :
    erased.mapentry = scope.mapentry ∧
      erased.nametree = scope.nametree ∧
      (entry.addr.base = none ∧
          erased.maptable = scope.maptable ∨
        ∃ space map map',
          entry.addr.base = some space ∧
            scope.maptable space = some map ∧
            map.erase entry = some map' ∧
            erased.maptable =
              Function.update scope.maptable space
                (some map')) := by
  unfold eraseEntry at hErase
  cases hBase : entry.addr.base with
  | none =>
      simp only [hBase] at hErase
      cases hErase
      exact ⟨rfl, rfl, Or.inl ⟨rfl, rfl⟩⟩
  | some space =>
      simp only [hBase, Option.bind_eq_bind,
        Option.bind_eq_some_iff] at hErase
      rcases hErase with ⟨map, hMap, map', hMap', hErased⟩
      cases hErased
      exact ⟨rfl, rfl,
        Or.inr ⟨space, map, map', rfl, hMap, hMap', rfl⟩⟩

/- A tree after erasing holds old records, not the erased one. -/
private theorem eraseEntry_maptable
    (hScope : TreesListed scope)
    (hErase : eraseEntry scope entry = some erased)
    {space : SpaceId}
    {map' : EntryMap}
    (hMap' : erased.maptable space = some map') :
    RangeMap.Listed map'.tree ∧
      ∀ range ∈ map'.tree,
        range.value ≠ entry ∧
          ∃ map, scope.maptable space = some map ∧
            ∃ other ∈ map.tree, range.value = other.value := by
  have hOther :
      scope.maptable space = some map' →
        entry.addr.base ≠ some space →
          RangeMap.Listed map'.tree ∧
            ∀ range ∈ map'.tree,
              range.value ≠ entry ∧
                ∃ map, scope.maptable space = some map ∧
                  ∃ other ∈ map.tree,
                    range.value = other.value := by
    intro hSame hBase
    have hTree := hScope space map' hSame
    refine ⟨hTree.1, ?_⟩
    intro range hRange
    refine ⟨?_, map', hSame, range, hRange, rfl⟩
    intro hEq
    have hStored := (hTree.2 range hRange).1
    rw [hEq] at hStored
    exact hBase hStored
  rcases (eraseEntry_eq_some hErase).2.2 with
    ⟨hBase, hTables⟩ |
      ⟨place, map, erasedMap, hBase, hMap, hErased, hTables⟩
  · rw [hTables] at hMap'
    apply hOther hMap'
    rw [hBase]
    simp
  · rw [hTables] at hMap'
    by_cases hSpace : space = place
    · subst hSpace
      rw [Function.update_self] at hMap'
      rw [← Option.some.inj hMap']
      have hKept := (hScope space map hMap).1.erase hErased
      refine ⟨hKept.1, ?_⟩
      intro range hRange
      have hRange := hKept.2 range hRange
      exact ⟨hRange.1, map, hMap, hRange.2⟩
    · rw [Function.update_of_ne hSpace] at hMap'
      apply hOther hMap'
      rw [hBase]
      intro hSame
      exact hSpace (Option.some.inj hSame).symm

private theorem TreesListed.eraseEntry
    (hScope : TreesListed scope)
    (hErase :
      ScopeInternal.eraseEntry scope entry = some erased) :
    TreesListed erased ∧ Unstored erased entry := by
  constructor
  · intro space map' hMap'
    have hKept := eraseEntry_maptable hScope hErase hMap'
    refine ⟨hKept.1, ?_⟩
    intro range hRange
    rcases (hKept.2 range hRange).2 with
      ⟨map, hMap, other, hOther, hValue⟩
    rw [hValue, (eraseEntry_eq_some hErase).1]
    exact (hScope space map hMap).2 other hOther
  · intro space map' hMap' range hRange
    exact ((eraseEntry_maptable hScope hErase hMap').2
      range hRange).1

/- An entry that is gone does not come back. -/
private theorem Unstored.eraseEntry
    (hScope : TreesListed scope)
    {gone : SymbolEntry}
    (hGone : Unstored scope gone)
    (hErase :
      ScopeInternal.eraseEntry scope entry = some erased) :
    Unstored erased gone := by
  intro space map' hMap' range hRange
  rcases ((eraseEntry_maptable hScope hErase hMap').2
    range hRange).2 with ⟨map, hMap, other, hOther, hValue⟩
  rw [hValue]
  exact hGone space map hMap other hOther

private theorem eraseEntries_spec
    (hScope : TreesListed scope)
    {entries : List SymbolEntry}
    (hErase : entries.foldlM eraseEntry scope = some erased) :
    TreesListed erased ∧
      erased.mapentry = scope.mapentry ∧
      erased.nametree = scope.nametree ∧
      ∀ gone, (gone ∈ entries ∨ Unstored scope gone) →
        Unstored erased gone := by
  induction entries generalizing scope with
  | nil =>
      cases hErase
      refine ⟨hScope, rfl, rfl, ?_⟩
      intro gone hGone
      rcases hGone with hMem | hUnstored
      · simp at hMem
      · exact hUnstored
  | cons entry rest ih =>
      rw [List.foldlM_cons, Option.bind_eq_bind,
        Option.bind_eq_some_iff] at hErase
      rcases hErase with ⟨between, hFirst, hRest⟩
      have hStep := hScope.eraseEntry hFirst
      have hSame := eraseEntry_eq_some hFirst
      rcases ih hStep.1 hRest with
        ⟨hListed, hEntries, hNames, hUnstored⟩
      refine ⟨hListed, hEntries.trans hSame.1,
        hNames.trans hSame.2.1, ?_⟩
      intro gone hGone
      apply hUnstored gone
      rcases hGone with hMem | hOld
      · rcases List.mem_cons.mp hMem with rfl | hRest
        · exact Or.inr hStep.2
        · exact Or.inl hRest
      · exact Or.inr (hOld.eraseEntry hScope hFirst)

end ScopeInternal

end LLDBGhidra

------------------------------------------------------------
-- Removing Symbols
------------------------------------------------------------

namespace LLDBGhidra

namespace ScopeInternal

/-
  The state of `clear` while it removes symbols: whatever is
  still in the scope belongs to one of those that remain.
-/
structure Clearing
    (remaining : List Symbol)
    (scope : ScopeInternal) : Prop where
  listed : TreesListed scope
  entries :
    ∀ id, scope.mapentry id ≠ [] →
      ∃ symbol ∈ remaining, symbol.symbolId = id
  names :
    ∀ symbol ∈ scope.nametree, symbol ∈ remaining
  ids :
    ∀ id, ∀ entry ∈ scope.mapentry id,
      entry.symbol.symbolId = id

/- Everything that removing a symbol can come to. -/
private theorem removeSymbol_eq_some
    {scope removed : ScopeInternal}
    {symbol : Symbol}
    (hRemove : removeSymbol scope symbol = some removed) :
    ∃ erased,
      (scope.mapentry symbol.symbolId).dedup.foldlM eraseEntry
          scope = some erased ∧
        removed.maptable = erased.maptable ∧
        removed.mapentry =
          Function.update erased.mapentry symbol.symbolId [] ∧
        removed.nametree =
          erased.nametree.filter (fun other =>
            other.symbolId ≠ symbol.symbolId) := by
  simp only [removeSymbol, removeSymbolMappings,
    Option.bind_eq_bind, Option.bind_eq_some_iff] at hRemove
  rcases hRemove with
    ⟨_, ⟨erased, hErase, hUnmapped⟩, hRemoved⟩
  cases hUnmapped
  cases hRemoved
  exact ⟨erased, hErase, rfl, rfl, rfl⟩

private theorem Clearing.removeSymbol
    {symbol : Symbol}
    {rest : List Symbol}
    {scope removed : ScopeInternal}
    (hScope : Clearing (symbol :: rest) scope)
    (hRemove :
      ScopeInternal.removeSymbol scope symbol =
        some removed) :
    Clearing rest removed := by
  rcases removeSymbol_eq_some hRemove with
    ⟨erased, hErase, hTables, hUpdated, hFiltered⟩
  rcases eraseEntries_spec hScope.listed hErase with
    ⟨hListed, hEntries, hNames, hUnstored⟩
  have hMapentry : ∀ id, removed.mapentry id =
      if id = symbol.symbolId then []
      else scope.mapentry id := by
    intro id
    rw [hUpdated, hEntries]
    by_cases hId : id = symbol.symbolId
    · subst hId
      simp
    · simp [hId]
  refine ⟨?_, ?_, ?_, ?_⟩
  · intro space map hMap
    rw [hTables] at hMap
    have hTree := hListed space map hMap
    refine ⟨hTree.1, ?_⟩
    intro range hRange
    have hStored := hTree.2 range hRange
    rw [hEntries] at hStored
    refine ⟨hStored.1, ?_⟩
    rw [hMapentry]
    by_cases hId :
        range.value.symbol.symbolId = symbol.symbolId
    · have hMem : range.value ∈
          (scope.mapentry symbol.symbolId).dedup := by
        rw [List.mem_dedup, ← hId]
        exact hStored.2
      exact absurd rfl
        (hUnstored range.value (Or.inl hMem) space map hMap
          range hRange)
    · rw [if_neg hId]
      exact hStored.2
  · intro id hId
    rw [hMapentry] at hId
    by_cases hSame : id = symbol.symbolId
    · simp [hSame] at hId
    · rw [if_neg hSame] at hId
      rcases hScope.entries id hId with
        ⟨other, hOther, hOtherId⟩
      rcases List.mem_cons.mp hOther with rfl | hRest
      · exact absurd hOtherId.symm hSame
      · exact ⟨other, hRest, hOtherId⟩
  · intro other hOther
    have hKept : other ∈ scope.nametree ∧
        other.symbolId ≠ symbol.symbolId := by
      rw [hFiltered, hNames] at hOther
      simpa using hOther
    rcases List.mem_cons.mp (hScope.names other hKept.1) with
      rfl | hRest
    · exact absurd rfl hKept.2
    · exact hRest
  · intro id entry hEntry
    rw [hMapentry] at hEntry
    by_cases hSame : id = symbol.symbolId
    · simp [hSame] at hEntry
    · rw [if_neg hSame] at hEntry
      exact hScope.ids id entry hEntry

private theorem Clearing.removeAll
    {remaining : List Symbol}
    {scope removed : ScopeInternal}
    (hScope : Clearing remaining scope)
    (hRemove :
      remaining.foldlM ScopeInternal.removeSymbol scope =
        some removed) :
    Clearing [] removed := by
  induction remaining generalizing scope with
  | nil =>
      cases hRemove
      exact hScope
  | cons symbol rest ih =>
      rw [List.foldlM_cons, Option.bind_eq_bind,
        Option.bind_eq_some_iff] at hRemove
      rcases hRemove with ⟨between, hFirst, hRest⟩
      exact ih (hScope.removeSymbol hFirst) hRest

variable {glb : Glb}
variable {scope cleared : ScopeInternal}

private theorem Wellformed.clearing
    (hScope : Wellformed glb none scope) :
    Clearing scope.nametree scope where
  listed := by
    intro space map hMap
    exact ⟨(hScope.refined space map hMap).listed,
      hScope.stored space map hMap⟩
  entries := by
    intro id hId
    rcases List.exists_mem_of_ne_nil _ hId with
      ⟨entry, hEntry⟩
    rcases hScope.owned id entry hEntry with
      ⟨symbol, hSymbol, hSymbolId, _⟩
    exact ⟨symbol, hSymbol, hSymbolId⟩
  names := fun _ hSymbol => hSymbol
  ids := by
    intro id entry hEntry
    rcases hScope.owned id entry hEntry with ⟨_, _, _, hId, _⟩
    exact hId

private theorem Wellformed.clearing_of_clear
    (hScope : Wellformed glb none scope)
    (hClear : clear scope = some cleared) :
    Clearing [] cleared := by
  simp only [clear, Option.bind_eq_bind,
    Option.bind_eq_some_iff] at hClear
  rcases hClear with ⟨removed, hRemove, hCleared⟩
  cases hCleared
  exact { hScope.clearing.removeAll hRemove with }

theorem nametree_clear
    (hScope : Wellformed glb none scope)
    (hClear : clear scope = some cleared) :
    cleared.nametree = [] :=
  List.eq_nil_iff_forall_not_mem.mpr (fun symbol hSymbol => by
    have hNames := (hScope.clearing_of_clear hClear).names
    simpa using hNames symbol hSymbol)

theorem mapentry_clear
    (hScope : Wellformed glb none scope)
    (hClear : clear scope = some cleared)
    (id : Nat) :
    cleared.mapentry id = [] := by
  by_contra hId
  rcases (hScope.clearing_of_clear hClear).entries id hId with
    ⟨symbol, hSymbol, _⟩
  simp at hSymbol

/- A cleared scope is as good as a new one. -/
theorem Wellformed.clear
    (hScope : Wellformed glb none scope)
    (hClear : ScopeInternal.clear scope = some cleared) :
    Wellformed glb none cleared := by
  have hNames := nametree_clear hScope hClear
  have hEntries := mapentry_clear hScope hClear
  have hTrees : ∀ space map,
      cleared.maptable space = some map → map.tree = [] := by
    intro space map hMap
    apply List.eq_nil_iff_forall_not_mem.mpr
    intro range hRange
    have hCleared := hScope.clearing_of_clear hClear
    have hStored :=
      ((hCleared.listed space map hMap).2 range hRange).2
    rw [hEntries] at hStored
    simp at hStored
  refine ⟨?_, ?_, ?_, ?_, ?_, ?_⟩
  · intro space map hMap
    have hEmpty : map = ⟨[]⟩ := by
      cases map
      exact congrArg RangeMap.mk (hTrees space _ hMap)
    rw [hEmpty]
    exact RangeMap.refined_empty
  · intro space map hMap range hRange
    rw [hTrees space map hMap] at hRange
    simp at hRange
  · intro id entry hEntry
    rw [hEntries] at hEntry
    simp at hEntry
  · intro symbol hSymbol
    rw [hNames] at hSymbol
    simp at hSymbol
  · intro left hLeft
    rw [hNames] at hLeft
    simp at hLeft
  · intro symbol hSymbol
    rw [hNames] at hSymbol
    simp at hSymbol

theorem not_mem_nametree_clear
    (hScope : Wellformed glb none scope)
    (hClear : clear scope = some cleared)
    (symbol : Symbol) :
    symbol ∉ cleared.nametree := by
  rw [nametree_clear hScope hClear]
  simp

/- No function is left in a cleared scope. -/
theorem not_hasFunction_clear
    (hScope : Wellformed glb none scope)
    (hClear : clear scope = some cleared)
    (id : Nat)
    (name : String)
    (start : BitVec 64) :
    ¬ HasFunction cleared id name start := by
  rintro ⟨symbol, hSymbol, _⟩
  exact not_mem_nametree_clear hScope hClear symbol hSymbol

end ScopeInternal

end LLDBGhidra

------------------------------------------------------------
-- Where Clearing Is Defined
------------------------------------------------------------

namespace LLDBGhidra

namespace ScopeInternal

/- The table of an entry has a sub-range at its last offset. -/
def Findable
    (scope : ScopeInternal)
    (entry : SymbolEntry) : Prop :=
  ∀ space, entry.addr.base = some space →
    ∃ map, scope.maptable space = some map ∧
      RangeMap.CoveredAt map.tree entry entry.getLast.toNat

variable {scope erased : ScopeInternal}
variable {entry other : SymbolEntry}

private theorem TreesListed.ending
    (hScope : TreesListed scope)
    {space : SpaceId}
    {map : EntryMap}
    (hFindable : Findable scope entry)
    (hBase : entry.addr.base = some space)
    (hMap : scope.maptable space = some map) :
    RangeMap.Ending map.tree entry := by
  rcases hFindable space hBase with ⟨found, hFound, hCovered⟩
  rw [hMap] at hFound
  cases hFound
  exact (hScope space map hMap).1.covered_iff_ending.mp
    hCovered

private theorem Findable.isSome_eraseEntry
    (hFindable : Findable scope entry)
    (hScope : TreesListed scope) :
    ∃ erased, eraseEntry scope entry = some erased := by
  unfold eraseEntry
  cases hBase : entry.addr.base with
  | none => exact ⟨_, rfl⟩
  | some space =>
      rcases hFindable space hBase with ⟨map, hMap, _⟩
      rcases (hScope space map hMap).1.isSome_erase
          (hScope.ending hFindable hBase hMap) with
        ⟨map', hErase⟩
      simp only [hMap, hErase, Option.bind_eq_bind,
        Option.bind_some]
      exact ⟨_, rfl⟩

/- Erasing an entry loses no other one. -/
private theorem Findable.eraseEntry
    (hOther : Findable scope other)
    (hScope : TreesListed scope)
    (hFindable : Findable scope entry)
    (hErase :
      ScopeInternal.eraseEntry scope entry = some erased)
    (hNe : other ≠ entry) :
    Findable erased other := by
  rcases (eraseEntry_eq_some hErase).2.2 with
    ⟨_, hTables⟩ |
      ⟨place, map, map', hBase, hMap, hErased, hTables⟩
  · intro space hSpace
    rw [hTables]
    exact hOther space hSpace
  · intro space hSpace
    rw [hTables]
    by_cases hSame : space = place
    · subst hSame
      have hListed := (hScope space map hMap).1
      refine ⟨map', Function.update_self .., ?_⟩
      apply (hListed.erase hErased).1.covered_iff_ending.mpr
      exact hListed.ending_erase hErased
        (hScope.ending hFindable hBase hMap)
        (hScope.ending hOther hSpace hMap) hNe
    · rw [Function.update_of_ne hSame]
      exact hOther space hSpace

private theorem isSome_eraseEntries
    (hScope : TreesListed scope)
    {entries : List SymbolEntry}
    (hNodup : entries.Nodup)
    (hFindable : ∀ entry ∈ entries, Findable scope entry) :
    ∃ erased,
      entries.foldlM eraseEntry scope = some erased ∧
        ∀ other ∉ entries, Findable scope other →
          Findable erased other := by
  induction entries generalizing scope with
  | nil => exact ⟨scope, rfl, fun _ _ hOther => hOther⟩
  | cons entry rest ih =>
      have hFresh := List.nodup_cons.mp hNodup
      have hEntry := hFindable entry List.mem_cons_self
      rcases hEntry.isSome_eraseEntry hScope with
        ⟨between, hFirst⟩
      have hRest : ∀ other ∈ rest,
          Findable between other := by
        intro other hOther
        apply (hFindable other (List.mem_cons_of_mem _
          hOther)).eraseEntry hScope hEntry hFirst
        intro hSame
        exact hFresh.1 (hSame ▸ hOther)
      rcases ih (hScope.eraseEntry hFirst).1 hFresh.2 hRest
        with ⟨erased, hErased, hKept⟩
      refine ⟨erased, ?_, ?_⟩
      · rw [List.foldlM_cons, hFirst]
        exact hErased
      · intro other hOther hOld
        rw [List.mem_cons, not_or] at hOther
        exact hKept other hOther.2
          (hOld.eraseEntry hScope hEntry hFirst hOther.1)

/- All entries of the scope can be found where they end. -/
def EntriesFindable
    (scope : ScopeInternal) : Prop :=
  ∀ id, ∀ entry ∈ scope.mapentry id, Findable scope entry

/- Removing a symbol is defined and loses no entry. -/
private theorem Clearing.isSome_removeSymbol
    {symbol : Symbol}
    {rest : List Symbol}
    (hScope : Clearing (symbol :: rest) scope)
    (hFindable : EntriesFindable scope) :
    ∃ removed,
      ScopeInternal.removeSymbol scope symbol =
          some removed ∧
        EntriesFindable removed := by
  rcases isSome_eraseEntries hScope.listed
      (List.nodup_dedup (scope.mapentry symbol.symbolId))
      (fun entry hEntry => hFindable _ entry
        (List.mem_dedup.mp hEntry)) with
    ⟨erased, hErase, hKept⟩
  have hDefined : ∃ removed,
      ScopeInternal.removeSymbol scope symbol =
        some removed := by
    simp only [ScopeInternal.removeSymbol,
      removeSymbolMappings, hErase, Option.bind_eq_bind,
      Option.bind_some]
    exact ⟨_, rfl⟩
  rcases hDefined with ⟨removed, hRemove⟩
  refine ⟨removed, hRemove, ?_⟩
  rcases removeSymbol_eq_some hRemove with
    ⟨_, hSame, hTables, hEntries, _⟩
  rw [hErase] at hSame
  cases hSame
  rw [(eraseEntries_spec hScope.listed hErase).2.1] at hEntries
  intro id entry hEntry space hBase
  rw [hEntries] at hEntry
  rw [hTables]
  by_cases hId : id = symbol.symbolId
  · subst hId
    simp at hEntry
  · rw [Function.update_of_ne hId] at hEntry
    apply hKept entry ?_ (hFindable id entry hEntry) space hBase
    intro hErased
    have hOwn := hScope.ids _ entry (List.mem_dedup.mp hErased)
    exact hId ((hScope.ids id entry hEntry).symm.trans hOwn)

private theorem Clearing.isSome_removeAll
    {remaining : List Symbol}
    (hScope : Clearing remaining scope)
    (hFindable : EntriesFindable scope) :
    ∃ removed,
      remaining.foldlM ScopeInternal.removeSymbol scope =
        some removed := by
  induction remaining generalizing scope with
  | nil => exact ⟨scope, rfl⟩
  | cons symbol rest ih =>
      rcases hScope.isSome_removeSymbol hFindable with
        ⟨between, hFirst, hBetween⟩
      rcases ih (hScope.removeSymbol hFirst) hBetween with
        ⟨removed, hRemoved⟩
      refine ⟨removed, ?_⟩
      rw [List.foldlM_cons, hFirst]
      exact hRemoved

/- Where every entry can be found, clearing is defined. -/
theorem Wellformed.isSome_clear
    {glb : Glb}
    (hScope : Wellformed glb none scope)
    (hFindable : EntriesFindable scope) :
    ∃ cleared, ScopeInternal.clear scope = some cleared := by
  rcases hScope.clearing.isSome_removeAll hFindable with
    ⟨removed, hRemoved⟩
  simp only [ScopeInternal.clear, hRemoved,
    Option.bind_eq_bind, Option.bind_some]
  exact ⟨_, rfl⟩

end ScopeInternal

end LLDBGhidra

------------------------------------------------------------
-- Ranges That Do Not Wrap
------------------------------------------------------------

namespace LLDBGhidra

namespace ScopeInternal

/-
  The mapping of `sz` bytes ends behind its start: it does not
  extend beyond the end of its space.
-/
def Fits
    (glb : Glb)
    (space : SpaceId)
    (first : BitVec 64)
    (sz : Int) : Prop :=
  first ≤ mapEnd glb space first sz

/-
  None of the ranges that a data symbol is mapped to wraps: its
  own one, and those of the pieces of a join address.
-/
structure DataFits
    (glb : Glb)
    (typeSize : BitVec 32)
    (addr : Address) : Prop where
  own :
    ∀ space, addr.base = some space →
      Fits glb space addr.offset typeSize.toInt
  pieces :
    ∀ space record, addr.base = some space →
      (glb.space space).type = .join →
        glb.findJoin addr.offset = some record →
          ∀ piece ∈ record.pieces,
            Fits glb piece.space piece.offset
              piece.size.toInt

/- The tables are refined, and find the end of every entry. -/
structure Mapped
    (scope : ScopeInternal) : Prop where
  refined : TablesRefined scope
  findable : EntriesFindable scope

variable {glb : Glb}
variable {scope cleared : ScopeInternal}

theorem mapped_empty :
    Mapped empty where
  refined := by simp [TablesRefined, empty]
  findable := by
    intro id entry hEntry
    simp [empty] at hEntry

/- Only the tables matter. -/
theorem Mapped.congr
    {scope' : ScopeInternal}
    (hScope : Mapped scope)
    (hTables : scope'.maptable = scope.maptable)
    (hEntries : scope'.mapentry = scope.mapentry) :
    Mapped scope' where
  refined := by
    intro space map hMap
    rw [hTables] at hMap
    exact hScope.refined space map hMap
  findable := by
    intro id entry hEntry space hBase
    rw [hEntries] at hEntry
    rw [hTables]
    exact hScope.findable id entry hEntry space hBase

theorem Mapped.clear
    (hScope : Wellformed glb none scope)
    (hClear : ScopeInternal.clear scope = some cleared) :
    Mapped cleared where
  refined := (hScope.clear hClear).refined
  findable := by
    intro id entry hEntry
    rw [mapentry_clear hScope hClear] at hEntry
    simp at hEntry

variable {symbol : Symbol}
variable {space : SpaceId}
variable {first : BitVec 64}
variable {off : Int}
variable {uselim : RangeList}

/- A mapping that does not wrap can be found where it ends. -/
theorem Mapped.addMapInternal
    {sz : Int}
    (hScope : Mapped scope)
    (hPos : 0 < sz)
    (hSmall : sz < 2 ^ 31)
    (hFits : Fits glb space first sz) :
    Mapped
      (ScopeInternal.addMapInternal glb symbol space first off
        sz uselim scope) where
  refined := hScope.refined.addMapInternal hPos hSmall
  findable := by
    have hOld : ∀ id, ∀ entry ∈ scope.mapentry id,
        Findable (ScopeInternal.addMapInternal glb symbol space
          first off sz uselim scope) entry :=
      fun id entry hEntry other hBase =>
        hScope.refined.covered_addMapInternal
          (hScope.findable id entry hEntry other hBase)
    intro id entry hEntry
    by_cases hId : id = symbol.symbolId
    · subst hId
      rw [addMapInternal_mapentry_self] at hEntry
      rcases List.mem_append.mp hEntry with hMem | hNew
      · exact hOld _ entry hMem
      · rw [List.mem_singleton.mp hNew]
        intro other hBase
        cases hBase
        refine ⟨_, addMapInternal_maptable_self, ?_⟩
        have hLast := mapEntry_getLast symbol off uselim hPos
          hSmall hFits
        rw [hLast]
        exact (hScope.refined.getD space).covered_insert_new _
          hFits le_rfl
    · rw [addMapInternal_mapentry_ne hId] at hEntry
      exact hOld id entry hEntry

theorem Mapped.addPieces
    {pieces : List VarnodeData}
    {off : Nat}
    (hScope : Mapped scope)
    (hSized : ∀ piece ∈ pieces, 0 < piece.size.toInt)
    (hFits : ∀ piece ∈ pieces,
      Fits glb piece.space piece.offset piece.size.toInt) :
    Mapped
      (ScopeInternal.addPieces glb symbol uselim off pieces
        scope) := by
  induction pieces generalizing off scope with
  | nil => exact hScope
  | cons piece rest ih =>
      unfold ScopeInternal.addPieces
      have hSmall : piece.size.toInt < 2 ^ 31 := by
        have hBound := piece.size.toInt_lt
        omega
      apply ih
      · exact hScope.addMapInternal
          (hSized piece List.mem_cons_self) hSmall
          (hFits piece List.mem_cons_self)
      · exact fun other hOther =>
          hSized other (List.mem_cons_of_mem _ hOther)
      · exact fun other hOther =>
          hFits other (List.mem_cons_of_mem _ hOther)

theorem Mapped.takeId
    (hScope : Mapped scope) :
    Mapped scope.takeId :=
  hScope.congr rfl rfl

theorem Mapped.insertNameTree
    (hScope : Mapped scope)
    (symbol : Symbol) :
    Mapped (ScopeInternal.insertNameTree symbol scope).2 :=
  hScope.congr rfl rfl

theorem Mapped.setAddrtied
    (hScope : Mapped scope)
    (symbol : Symbol) :
    Mapped (ScopeInternal.setAddrtied symbol scope) :=
  hScope.congr rfl rfl

/- Mapping a data symbol whose ranges do not wrap. -/
private theorem Mapped.addMap
    {typeSize : BitVec 32}
    {addr : Address}
    (hScope : Mapped scope)
    (hKind : symbol.kind = .data typeSize)
    (hPos : 0 < typeSize.toInt)
    (hFits : DataFits glb typeSize addr)
    (uselimit : RangeList) :
    Mapped
      ((ScopeInternal.addMap glb symbol addr uselimit).run
        scope).2 := by
  have hSize : symbol.getBytesConsumed = typeSize.toInt := by
    simp [Symbol.getBytesConsumed, hKind]
  have hSmall : typeSize.toInt < 2 ^ 31 := by
    have hBound := typeSize.toInt_lt
    omega
  unfold ScopeInternal.addMap
  rw [hSize]
  cases hBase : addr.base with
  | none =>
      refine ⟨hScope.refined, ?_⟩
      intro id entry hEntry space hSpace
      change entry ∈ Function.update scope.mapentry
        symbol.symbolId _ id at hEntry
      by_cases hId : id = symbol.symbolId
      · subst hId
        rw [Function.update_self] at hEntry
        rcases List.mem_append.mp hEntry with hOld | hNew
        · exact hScope.findable _ entry hOld space hSpace
        · -- a mapping by hash has no space
          rw [List.mem_singleton.mp hNew] at hSpace
          cases hSpace
      · rw [Function.update_of_ne hId] at hEntry
        exact hScope.findable id entry hEntry space hSpace
  | some space =>
      simp only []
      rw [Effect.run_modify_bind]
      have hMarked : Mapped
          (if uselimit.tree.isEmpty = true then
            ScopeInternal.setAddrtied symbol scope
            else scope) := by
        split
        · exact hScope.setAddrtied symbol
        · exact hScope
      generalize (if uselimit.tree.isEmpty = true then
        ScopeInternal.setAddrtied symbol scope
        else scope) = marked at hMarked
      generalize (if uselimit.tree.isEmpty = true then
        { symbol with addrtied := true } else symbol) = tied
      have hMapped : Mapped
          (ScopeInternal.addMapInternal glb tied space
            addr.offset 0 typeSize.toInt uselimit marked) :=
        hMarked.addMapInternal hPos hSmall
          (hFits.own space hBase)
      by_cases hJoin : (glb.space space).type = .join
      · simp only [hJoin, if_true]
        cases hFound : glb.findJoin addr.offset with
        | none => exact hMapped
        | some record =>
            rw [Effect.run_modify]
            have hPieces : ∀ piece ∈
                (if (glb.space space).bigEndian = true then
                  record.pieces
                else record.pieces.reverse),
                piece ∈ record.pieces := by
              intro piece hPiece
              split at hPiece
              · exact hPiece
              · exact List.mem_reverse.mp hPiece
            apply hMapped.addPieces
            · exact fun piece hPiece =>
                record.sized piece (hPieces piece hPiece)
            · exact fun piece hPiece =>
                hFits.pieces space record hBase hJoin hFound
                  piece (hPieces piece hPiece)
      · simp only [hJoin, if_false]
        exact hMapped

/- Adding a data symbol whose ranges do not wrap. -/
theorem Mapped.addSymbol
    {typeSize : BitVec 32}
    {addr : Address}
    (hScope : Mapped scope)
    (name : String)
    (usepoint : Address)
    (hFits : 0 < typeSize.toInt → DataFits glb typeSize addr) :
    Mapped
      ((ScopeInternal.addSymbol glb name typeSize addr
        usepoint).run scope).2 := by
  unfold ScopeInternal.addSymbol
  rw [Effect.run_bind, run_addSymbolInternal]
  cases newName scope name with
  | error error => exact hScope.takeId
  | ok finalName =>
      by_cases hSize : (newSymbol scope.nextUniqueId finalName
          (.data typeSize)).typeSize < 1
      · simp only [hSize, if_true]
        exact hScope.takeId
      · simp only [hSize, if_false]
        have hPos : 0 < typeSize.toInt := by
          have hNot : ¬ typeSize.toInt < 1 := hSize
          omega
        exact (hScope.takeId.insertNameTree _).addMap rfl hPos
          (hFits hPos) _

/- Adding a function whose bytes do not wrap. -/
theorem Mapped.addFunction
    (hScope : Mapped scope)
    (start : BitVec 64)
    (name : String)
    (hFits : start ≤ functionEnd glb start) :
    Mapped
      ((ScopeInternal.addFunction glb
        (Address.ofSpace glb.defaultCodeSpace start) name).run
          scope).2 := by
  rw [run_addFunction]
  cases newName scope name with
  | error error => exact hScope.takeId
  | ok finalName =>
      have hSmall : glb.minFuncsymbolSize.toInt < 2 ^ 31 := by
        have hBound := glb.minFuncsymbolSize.toInt_lt
        omega
      have hFiled : Mapped
          (fileFunction glb finalName scope).2 :=
        hScope.takeId.insertNameTree _
      exact (hFiled.setAddrtied _).addMapInternal
        glb.minFuncsymbolSized hSmall hFits

end ScopeInternal

end LLDBGhidra
