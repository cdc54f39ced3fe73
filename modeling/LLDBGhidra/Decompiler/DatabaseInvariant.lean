import LLDBGhidra.Decompiler.Database
import LLDBGhidra.Decompiler.RangeMapErase

/-
  The tables of a scope stay consistent with each other, and
  every function symbol has one storage location, over the
  bytes that it consumes.

  Main declarations:
    * `ScopeInternal.Wellformed`
    * `ScopeInternal.TablesRefined.addMapInternal`
    * `ScopeInternal.Wellformed.addSymbol`
    * `ScopeInternal.run_addFunction`
    * `ScopeInternal.functionAdded_mapFunction`
-/

------------------------------------------------------------
-- The Extent of an Entry
------------------------------------------------------------

namespace LLDBGhidra

/- A mapped range that does not wrap is not too long. -/
theorem span_of_wrapOffset
    (space : AddrSpace)
    (first : BitVec 64)
    {sz : Int}
    (hPos : 0 < sz)
    (hSmall : sz < 2 ^ 31)
    (hLe : first.toNat ≤
      (space.wrapOffset
        (first + BitVec.ofInt 64 (sz - 1))).toNat) :
    (space.wrapOffset
        (first + BitVec.ofInt 64 (sz - 1))).toNat -
      first.toNat + 1 < 2 ^ 31 := by
  have hFirst := first.isLt
  have hOffset :
      (first + BitVec.ofInt 64 (sz - 1)).toNat =
        (first.toNat + (sz - 1).toNat) % 2 ^ 64 := by
    rw [BitVec.toNat_add, BitVec.toNat_ofInt]
    have hMod : (sz - 1) % 2 ^ 64 = sz - 1 := by omega
    have hCast : ((2 ^ 64 : Nat) : Int) = 2 ^ 64 := rfl
    rw [hCast, hMod]
  have hCases := space.wrapOffset_toNat_le
    (first + BitVec.ofInt 64 (sz - 1))
  generalize hEnd : (space.wrapOffset
    (first + BitVec.ofInt 64 (sz - 1))).toNat = stop at *
  rw [hOffset] at hCases
  omega

namespace SymbolEntry

variable {symbol : Symbol}
variable {space : SpaceId}
variable {offset : Int}
variable {uselimit : RangeList}
variable {a b : BitVec 64}

/- The size of an entry counts the bytes of its range. -/
theorem init_size
    (hLe : a.toNat ≤ b.toNat)
    (hSpan : b.toNat - a.toNat + 1 < 2 ^ 31) :
    (init symbol space offset uselimit a b).size =
      (b.toNat - a.toNat + 1 : Nat) := by
  have hA := a.isLt
  have hB := b.isLt
  have hCount : (b - a + 1).toNat =
      b.toNat - a.toNat + 1 := by
    rw [BitVec.toNat_add, BitVec.toNat_sub]
    have hOne : (1 : BitVec 64).toNat = 1 := rfl
    rw [hOne]
    omega
  change int4 (b - a + 1).toNat = _
  rw [hCount]
  exact int4_of_lt hSpan

/- The last offset of an entry is the end of its range. -/
theorem init_getLast
    (hLe : a.toNat ≤ b.toNat)
    (hSpan : b.toNat - a.toNat + 1 < 2 ^ 31) :
    (init symbol space offset uselimit a b).getLast = b := by
  apply BitVec.eq_of_toNat_eq
  have hA := a.isLt
  have hB := b.isLt
  change (a + BitVec.ofInt 64
    (init symbol space offset uselimit a b).size - 1).toNat = _
  rw [init_size hLe hSpan, BitVec.toNat_sub, BitVec.toNat_add,
    BitVec.ofInt_natCast, BitVec.toNat_ofNat]
  have hOne : (1 : BitVec 64).toNat = 1 := rfl
  rw [hOne]
  omega

end SymbolEntry

end LLDBGhidra

------------------------------------------------------------
-- Wellformed Scopes
------------------------------------------------------------

namespace LLDBGhidra

namespace ScopeInternal

/- The last byte that a function symbol consumes. -/
def functionEnd
    (glb : Glb)
    (start : BitVec 64) : BitVec 64 :=
  (glb.space glb.defaultCodeSpace).wrapOffset
    (start + BitVec.ofInt 64 (glb.minFuncsymbolSize.toInt - 1))

/- The storage location of a function. -/
def functionEntry
    (glb : Glb)
    (symbol : Symbol)
    (start : BitVec 64) : SymbolEntry :=
  SymbolEntry.init symbol glb.defaultCodeSpace 0
    RangeList.empty start (functionEnd glb start)

/-
  A filed function symbol and its only storage location, found
  over all of its bytes unless they wrap around the space.
-/
structure MappedAt
    (glb : Glb)
    (scope : ScopeInternal)
    (symbol : Symbol)
    (start : BitVec 64)
    (entry : SymbolEntry) : Prop where
  sameId : entry.symbol.symbolId = symbol.symbolId
  sameName : entry.symbol.name = symbol.name
  isFunction :
    entry.symbol.kind = .function glb.minFuncsymbolSize
  tied : entry.symbol.addrtied = true
  entryEq : entry = functionEntry glb entry.symbol start
  only : scope.mapentry symbol.symbolId = [entry]
  covered :
    ∀ point, start.toNat ≤ point →
      point ≤ (functionEnd glb start).toNat →
        ∃ map, scope.maptable glb.defaultCodeSpace = some map ∧
          RangeMap.CoveredAt map.tree entry point

/-
  The invariant of a scope.  The function symbol with the id
  `pending` has been filed and is still to be mapped.
-/
structure Wellformed
    (glb : Glb)
    (pending : Option Nat)
    (scope : ScopeInternal) : Prop where
  refined :
    ∀ space map, scope.maptable space = some map →
      map.Refined
  stored :
    ∀ space map, scope.maptable space = some map →
      ∀ range ∈ map.tree,
        range.value.addr.base = some space ∧
          range.value ∈
            scope.mapentry range.value.symbol.symbolId
  owned :
    ∀ id, ∀ entry ∈ scope.mapentry id,
      ∃ symbol ∈ scope.nametree,
        symbol.symbolId = id ∧
          entry.symbol.symbolId = id ∧
          entry.symbol.kind = symbol.kind
  numbered :
    ∀ symbol ∈ scope.nametree,
      symbol.symbolId < idBase + scope.nextUniqueId
  distinct :
    ∀ left ∈ scope.nametree, ∀ right ∈ scope.nametree,
      left.symbolId = right.symbolId → left = right
  functions :
    ∀ symbol ∈ scope.nametree, symbol.isFunction →
      pending ≠ some symbol.symbolId →
        ∃ start entry, MappedAt glb scope symbol start entry

theorem wellformed_empty
    (glb : Glb) :
    Wellformed glb none empty where
  refined := by simp [empty]
  stored := by simp [empty]
  owned := by simp [empty]
  numbered := by simp [empty]
  distinct := by simp [empty]
  functions := by simp [empty]

/- No storage location belongs to an id not yet given out. -/
theorem Wellformed.mapentry_fresh
    {glb : Glb}
    {pending : Option Nat}
    {scope : ScopeInternal}
    (hScope : Wellformed glb pending scope) :
    scope.mapentry (idBase + scope.nextUniqueId) = [] := by
  apply List.eq_nil_iff_forall_not_mem.mpr
  intro entry hEntry
  rcases hScope.owned _ entry hEntry with
    ⟨symbol, hSymbol, hId, _⟩
  have hBelow := hScope.numbered symbol hSymbol
  omega

/- The function with this id and name is mapped at `start`. -/
def HasFunction
    (scope : ScopeInternal)
    (id : Nat)
    (name : String)
    (start : BitVec 64) : Prop :=
  ∃ symbol ∈ scope.nametree,
    symbol.isFunction ∧ symbol.symbolId = id ∧
      symbol.name = name ∧
      ∃ entry, scope.mapentry id = [entry] ∧
        entry.addr.offset = start

/-
  A change that keeps the invariant and leaves the functions
  of the scope as they are.
-/
structure Undisturbed
    (glb : Glb)
    (scope scope' : ScopeInternal) : Prop where
  wellformed : Wellformed glb none scope'
  functions :
    ∀ id name start,
      HasFunction scope' id name start ↔
        HasFunction scope id name start

theorem Undisturbed.trans
    {glb : Glb}
    {first second third : ScopeInternal}
    (hFirst : Undisturbed glb first second)
    (hSecond : Undisturbed glb second third) :
    Undisturbed glb first third where
  wellformed := hSecond.wellformed
  functions := fun id name start =>
    (hSecond.functions id name start).trans
      (hFirst.functions id name start)

/- The entry of a mapped function starts at its address. -/
theorem MappedAt.addr
    {glb : Glb}
    {scope : ScopeInternal}
    {symbol : Symbol}
    {start : BitVec 64}
    {entry : SymbolEntry}
    (hMapped : MappedAt glb scope symbol start entry) :
    entry.addr = Address.ofSpace glb.defaultCodeSpace start := by
  rw [hMapped.entryEq]
  rfl

end ScopeInternal

end LLDBGhidra

------------------------------------------------------------
-- Filing Symbols
------------------------------------------------------------

namespace LLDBGhidra

namespace ScopeInternal

/- The name a new symbol gets. -/
def newName
    (scope : ScopeInternal)
    (name : String) : Except Exn String :=
  if name = "" then
    scope.takeId.buildUndefinedName
  else
    .ok name

theorem run_addSymbolInternal
    (scope : ScopeInternal)
    (name : String)
    (kind : SymbolKind) :
    (addSymbolInternal name kind).run scope =
      match newName scope name with
      | .error error => (.error error, scope.takeId)
      | .ok finalName =>
          if (newSymbol scope.nextUniqueId finalName kind).typeSize < 1 then
            (.error (.lowlevelError .lowlevel
              (finalName ++
                " symbol created with zero size type")),
              scope.takeId)
          else
            (.ok (insertNameTree
                (newSymbol scope.nextUniqueId finalName kind)
                scope.takeId).1,
              (insertNameTree (newSymbol scope.nextUniqueId finalName kind)
                scope.takeId).2) := by
  have hFile : ∀ finalName : String,
      (if (newSymbol scope.nextUniqueId finalName kind).typeSize < 1 then
        (Effect.throw (.lowlevelError .lowlevel
          (finalName ++
            " symbol created with zero size type")) : M Symbol)
      else do
        let filed ← Effect.gets
          (insertNameTree (newSymbol scope.nextUniqueId finalName kind))
        Effect.modify (fun _ => filed.2)
        pure filed.1).run scope.takeId =
      if (newSymbol scope.nextUniqueId finalName kind).typeSize < 1 then
        (.error (.lowlevelError .lowlevel
          (finalName ++
            " symbol created with zero size type")),
          scope.takeId)
      else
        (.ok (insertNameTree
            (newSymbol scope.nextUniqueId finalName kind)
            scope.takeId).1,
          (insertNameTree (newSymbol scope.nextUniqueId finalName kind)
            scope.takeId).2) := by
    intro finalName
    rw [Effect.run_ite]
    rfl
  unfold addSymbolInternal newName
  rw [Effect.run_gets_bind, Effect.run_modify_bind]
  by_cases hName : name = ""
  · simp only [hName, if_true]
    rw [Effect.run_bind, Effect.run_query]
    cases scope.takeId.buildUndefinedName with
    | error error => rfl
    | ok fresh => exact hFile fresh
  · simp only [hName, if_false]
    rw [Effect.run_pure_bind]
    exact hFile name

@[simp] theorem insertNameTree_symbolId
    (symbol : Symbol)
    (scope : ScopeInternal) :
    (insertNameTree symbol scope).1.symbolId =
      symbol.symbolId :=
  rfl

@[simp] theorem insertNameTree_name
    (symbol : Symbol)
    (scope : ScopeInternal) :
    (insertNameTree symbol scope).1.name = symbol.name :=
  rfl

@[simp] theorem insertNameTree_kind
    (symbol : Symbol)
    (scope : ScopeInternal) :
    (insertNameTree symbol scope).1.kind = symbol.kind :=
  rfl

/- Filing adds one symbol to the names. -/
theorem mem_insertNameTree
    (symbol other : Symbol)
    (scope : ScopeInternal) :
    other ∈ (insertNameTree symbol scope).2.nametree ↔
      other = (insertNameTree symbol scope).1 ∨
        other ∈ scope.nametree := by
  generalize hNew : (insertNameTree symbol scope).1 = new
  have hTree :
      (insertNameTree symbol scope).2.nametree =
        scope.nametree.takeWhile
            (fun earlier => nameLt earlier new) ++
          new :: scope.nametree.dropWhile
            (fun earlier => nameLt earlier new) := by
    rw [← hNew]
    rfl
  have hSplit : other ∈ scope.nametree ↔
      other ∈ scope.nametree.takeWhile
          (fun earlier => nameLt earlier new) ∨
        other ∈ scope.nametree.dropWhile
          (fun earlier => nameLt earlier new) := by
    rw [← List.mem_append, List.takeWhile_append_dropWhile]
  rw [hTree, List.mem_append, List.mem_cons, hSplit]
  constructor
  · rintro (hFront | hNewMem | hBack)
    · exact Or.inr (Or.inl hFront)
    · exact Or.inl hNewMem
    · exact Or.inr (Or.inr hBack)
  · rintro (hNewMem | hFront | hBack)
    · exact Or.inr (Or.inl hNewMem)
    · exact Or.inl hFront
    · exact Or.inr (Or.inr hBack)

variable {glb : Glb}
variable {pending : Option Nat}
variable {scope : ScopeInternal}

theorem Wellformed.takeId
    (hScope : Wellformed glb pending scope) :
    Wellformed glb pending scope.takeId where
  refined := hScope.refined
  stored := hScope.stored
  owned := hScope.owned
  numbered := by
    intro symbol hSymbol
    have hBelow := hScope.numbered symbol hSymbol
    change symbol.symbolId < idBase + (scope.nextUniqueId + 1)
    omega
  distinct := hScope.distinct
  functions := by
    intro symbol hSymbol hFunction hPending
    rcases hScope.functions symbol hSymbol hFunction hPending
      with ⟨start, entry, hMapped⟩
    exact ⟨start, entry, { hMapped with }⟩

/- A filed symbol still waits for its storage location. -/
theorem Wellformed.file
    (hScope : Wellformed glb none scope)
    (name : String)
    (kind : SymbolKind) :
    Wellformed glb (some (idBase + scope.nextUniqueId))
      (insertNameTree (newSymbol scope.nextUniqueId name kind)
        scope.takeId).2 := by
  have hTaken := hScope.takeId
  have hFresh : ∀ symbol ∈ scope.nametree,
      symbol.symbolId ≠ idBase + scope.nextUniqueId := by
    intro symbol hSymbol
    have hBelow := hScope.numbered symbol hSymbol
    omega
  refine ⟨hTaken.refined, hTaken.stored, ?_, ?_, ?_, ?_⟩
  · intro id entry hEntry
    rcases hTaken.owned id entry hEntry with
      ⟨symbol, hSymbol, hRest⟩
    exact ⟨symbol,
      (mem_insertNameTree _ _ _).mpr (Or.inr hSymbol), hRest⟩
  · intro symbol hSymbol
    change symbol.symbolId < idBase + (scope.nextUniqueId + 1)
    rcases (mem_insertNameTree _ _ _).mp hSymbol with rfl | hOld
    · change idBase + scope.nextUniqueId < _
      omega
    · exact hTaken.numbered symbol hOld
  · intro left hLeft right hRight hSame
    rcases (mem_insertNameTree _ _ _).mp hLeft with
      hLeftNew | hLeftOld
    · rcases (mem_insertNameTree _ _ _).mp hRight with
        hRightNew | hRightOld
      · rw [hLeftNew, hRightNew]
      · subst hLeftNew
        exact absurd hSame.symm (hFresh right hRightOld)
    · rcases (mem_insertNameTree _ _ _).mp hRight with
        hRightNew | hRightOld
      · subst hRightNew
        exact absurd hSame (hFresh left hLeftOld)
      · exact hTaken.distinct left hLeftOld right hRightOld
          hSame
  · intro symbol hSymbol hFunction hPending
    rcases (mem_insertNameTree _ _ _).mp hSymbol with rfl | hOld
    · exact absurd rfl hPending
    · rcases hTaken.functions symbol hOld hFunction (by simp)
        with ⟨start, entry, hMapped⟩
      exact ⟨start, entry, { hMapped with }⟩

/- Nothing is pending once the symbol is accounted for. -/
theorem Wellformed.settle
    {id : Nat}
    (hScope : Wellformed glb (some id) scope)
    (hSettled :
      ∀ symbol ∈ scope.nametree, symbol.symbolId = id →
        symbol.isFunction →
          ∃ start entry,
            MappedAt glb scope symbol start entry) :
    Wellformed glb none scope where
  refined := hScope.refined
  stored := hScope.stored
  owned := hScope.owned
  numbered := hScope.numbered
  distinct := hScope.distinct
  functions := by
    intro symbol hSymbol hFunction _
    by_cases hId : symbol.symbolId = id
    · exact hSettled symbol hSymbol hId hFunction
    · apply hScope.functions symbol hSymbol hFunction
      intro hPending
      exact hId (Option.some.inj hPending).symm

/- Marking a symbol changes neither ids, names nor kinds. -/
private theorem mem_setAddrtied
    {symbol marked : Symbol}
    (hMarked : marked ∈ (setAddrtied symbol scope).nametree) :
    ∃ other ∈ scope.nametree,
      marked.symbolId = other.symbolId ∧
        marked.name = other.name ∧ marked.kind = other.kind ∧
        marked = if other.symbolId = symbol.symbolId then
          { other with addrtied := true } else other := by
  rcases List.mem_map.mp hMarked with ⟨other, hOther, hEq⟩
  refine ⟨other, hOther, ?_⟩
  subst hEq
  by_cases hId : other.symbolId = symbol.symbolId
  · simp [hId]
  · simp [hId]

private theorem setAddrtied_of_mem
    (symbol : Symbol)
    {other : Symbol}
    (hOther : other ∈ scope.nametree) :
    ∃ marked ∈ (setAddrtied symbol scope).nametree,
      marked.symbolId = other.symbolId ∧
        marked.name = other.name ∧
        marked.kind = other.kind := by
  refine ⟨_, List.mem_map_of_mem hOther, ?_⟩
  by_cases hId : other.symbolId = symbol.symbolId
  · simp [hId]
  · simp [hId]

theorem Wellformed.setAddrtied
    (hScope : Wellformed glb pending scope)
    (symbol : Symbol) :
    Wellformed glb pending
      (ScopeInternal.setAddrtied symbol scope) where
  refined := hScope.refined
  stored := hScope.stored
  owned := by
    intro id entry hEntry
    rcases hScope.owned id entry hEntry with
      ⟨other, hOther, hId, hEntryId, hKind⟩
    rcases setAddrtied_of_mem symbol hOther with
      ⟨marked, hMarked, hSameId, _, hSameKind⟩
    exact ⟨marked, hMarked, hSameId.trans hId, hEntryId,
      hKind.trans hSameKind.symm⟩
  numbered := by
    intro marked hMarked
    rcases mem_setAddrtied hMarked with ⟨other, hOther, hId, _⟩
    rw [hId]
    exact hScope.numbered other hOther
  distinct := by
    intro left hLeft right hRight hSame
    rcases mem_setAddrtied hLeft with
      ⟨first, hFirst, hFirstId, _, _, hLeftEq⟩
    rcases mem_setAddrtied hRight with
      ⟨second, hSecond, hSecondId, _, _, hRightEq⟩
    have hEq := hScope.distinct first hFirst second hSecond
      (hFirstId.symm.trans (hSame.trans hSecondId))
    rw [hLeftEq, hRightEq, hEq]
  functions := by
    intro marked hMarked hFunction hPending
    rcases mem_setAddrtied hMarked with
      ⟨other, hOther, hId, hName, hKind, _⟩
    have hOtherFunction : other.isFunction := by
      simpa [Symbol.isFunction, hKind] using hFunction
    rw [hId] at hPending
    rcases hScope.functions other hOther hOtherFunction
      hPending with ⟨start, entry, hMapped⟩
    refine ⟨start, entry, ⟨?_, ?_, hMapped.isFunction,
      hMapped.tied, hMapped.entryEq, ?_, hMapped.covered⟩⟩
    · rw [hId]
      exact hMapped.sameId
    · rw [hName]
      exact hMapped.sameName
    · rw [hId]
      exact hMapped.only

end ScopeInternal

end LLDBGhidra

------------------------------------------------------------
-- Mapping Symbols
------------------------------------------------------------

namespace LLDBGhidra

namespace ScopeInternal

variable {glb : Glb}
variable {pending : Option Nat}
variable {scope : ScopeInternal}
variable {symbol : Symbol}
variable {space : SpaceId}
variable {first : BitVec 64}
variable {off sz : Int}
variable {uselim : RangeList}

/- Where a mapping of `sz` bytes ends. -/
def mapEnd
    (glb : Glb)
    (space : SpaceId)
    (first : BitVec 64)
    (sz : Int) : BitVec 64 :=
  (glb.space space).wrapOffset
    (first + BitVec.ofInt 64 (sz - 1))

/- The entry that a mapping adds. -/
def mapEntry
    (glb : Glb)
    (symbol : Symbol)
    (space : SpaceId)
    (first : BitVec 64)
    (off sz : Int)
    (uselim : RangeList) : SymbolEntry :=
  SymbolEntry.init symbol space off uselim first
    (mapEnd glb space first sz)

theorem addMapInternal_maptable_self :
    (addMapInternal glb symbol space first off sz uselim
        scope).maptable space =
      some (((scope.maptable space).getD ⟨[]⟩).insert
        (mapEntry glb symbol space first off sz uselim)
        first.toNat (mapEnd glb space first sz).toNat) := by
  simp [addMapInternal, mapEntry, mapEnd]

theorem addMapInternal_maptable_ne
    {other : SpaceId}
    (hNe : other ≠ space) :
    (addMapInternal glb symbol space first off sz uselim
        scope).maptable other = scope.maptable other := by
  simp [addMapInternal, Function.update_of_ne hNe]

theorem addMapInternal_mapentry_self :
    (addMapInternal glb symbol space first off sz uselim
        scope).mapentry symbol.symbolId =
      scope.mapentry symbol.symbolId ++
        [mapEntry glb symbol space first off sz uselim] := by
  simp [addMapInternal, mapEntry, mapEnd]

theorem addMapInternal_mapentry_ne
    {id : Nat}
    (hNe : id ≠ symbol.symbolId) :
    (addMapInternal glb symbol space first off sz uselim
        scope).mapentry id = scope.mapentry id := by
  simp [addMapInternal, Function.update_of_ne hNe]

/- Entries are only ever added. -/
theorem mem_addMapInternal_mapentry
    {id : Nat}
    {entry : SymbolEntry}
    (hEntry : entry ∈ scope.mapentry id) :
    entry ∈ (addMapInternal glb symbol space first off sz
      uselim scope).mapentry id := by
  by_cases hId : id = symbol.symbolId
  · subst hId
    rw [addMapInternal_mapentry_self]
    exact List.mem_append_left _ hEntry
  · rw [addMapInternal_mapentry_ne hId]
    exact hEntry

/- The tables of the scope are refined range maps. -/
def TablesRefined
    (scope : ScopeInternal) : Prop :=
  ∀ space map, scope.maptable space = some map → map.Refined

/- The map of a space, empty before its first entry. -/
theorem TablesRefined.getD
    (hRefined : TablesRefined scope)
    (space : SpaceId) :
    ((scope.maptable space).getD ⟨[]⟩).Refined := by
  cases hMap : scope.maptable space with
  | none => exact RangeMap.refined_empty
  | some map => exact hRefined space map hMap

private theorem Wellformed.tables
    (hScope : Wellformed glb pending scope) :
    TablesRefined scope :=
  hScope.refined

private theorem Wellformed.stored_getD
    (hScope : Wellformed glb pending scope)
    (space : SpaceId)
    {range : AddrRange SymbolEntry EntrySubsort}
    (hRange : range ∈
      ((scope.maptable space).getD ⟨[]⟩).tree) :
    range.value.addr.base = some space ∧
      range.value ∈
        scope.mapentry range.value.symbol.symbolId := by
  cases hMap : scope.maptable space with
  | none => simp [hMap] at hRange
  | some map =>
      rw [hMap] at hRange
      exact hScope.stored space map hMap range hRange

/- A covered offset stays covered. -/
theorem TablesRefined.covered_addMapInternal
    (hRefined : TablesRefined scope)
    {other : SpaceId}
    {entry : SymbolEntry}
    {point : Nat}
    (hCovered :
      ∃ map, scope.maptable other = some map ∧
        RangeMap.CoveredAt map.tree entry point) :
    ∃ map, (addMapInternal glb symbol space first off sz
        uselim scope).maptable other = some map ∧
      RangeMap.CoveredAt map.tree entry point := by
  rcases hCovered with ⟨map, hMap, hPoint⟩
  by_cases hSpace : other = space
  · subst hSpace
    refine ⟨_, addMapInternal_maptable_self, ?_⟩
    rw [hMap]
    exact (hRefined other map hMap).covered_insert
      _ _ _ hPoint
  · exact ⟨map, (addMapInternal_maptable_ne hSpace).trans hMap,
      hPoint⟩

/- Where the entry of a mapping that does not wrap ends. -/
theorem mapEntry_getLast
    (symbol : Symbol)
    (off : Int)
    (uselim : RangeList)
    (hPos : 0 < sz)
    (hSmall : sz < 2 ^ 31)
    (hLe : first.toNat ≤ (mapEnd glb space first sz).toNat) :
    (mapEntry glb symbol space first off sz uselim).getLast =
      mapEnd glb space first sz :=
  SymbolEntry.init_getLast hLe
    (span_of_wrapOffset (glb.space space) first hPos hSmall hLe)

theorem TablesRefined.addMapInternal
    (hRefined : TablesRefined scope)
    (hPos : 0 < sz)
    (hSmall : sz < 2 ^ 31) :
    TablesRefined
      (ScopeInternal.addMapInternal glb symbol space first off
        sz uselim scope) := by
  intro other map hMap
  by_cases hSpace : other = space
  · subst hSpace
    rw [addMapInternal_maptable_self] at hMap
    rw [← Option.some.inj hMap]
    apply (hRefined.getD other).insert
    · rfl
    · intro hLe
      exact congrArg BitVec.toNat
        (mapEntry_getLast symbol off uselim hPos hSmall hLe)
  · rw [addMapInternal_maptable_ne hSpace] at hMap
    exact hRefined other map hMap

/-
  Mapping a filed symbol keeps the invariant, as long as it is
  not a function that has its storage location already.
-/
theorem Wellformed.addMapInternal
    (hScope : Wellformed glb pending scope)
    (hOwner :
      ∃ owner ∈ scope.nametree,
        owner.symbolId = symbol.symbolId ∧
          symbol.kind = owner.kind)
    (hOpen :
      ∀ other ∈ scope.nametree, other.isFunction →
        pending ≠ some other.symbolId →
          other.symbolId ≠ symbol.symbolId)
    (hPos : 0 < sz)
    (hSmall : sz < 2 ^ 31) :
    Wellformed glb pending
      (ScopeInternal.addMapInternal glb symbol space first off
        sz uselim scope) where
  refined := hScope.tables.addMapInternal hPos hSmall
  stored := by
    intro other map hMap range hRange
    by_cases hSpace : other = space
    · subst hSpace
      rw [addMapInternal_maptable_self] at hMap
      rw [← Option.some.inj hMap] at hRange
      rcases (hScope.tables.getD other).parts_insert _ _ _
          hRange with hOld | ⟨_, hNew⟩
      · rcases hOld with ⟨source, hSource, hValue, _⟩
        have hStored := hScope.stored_getD other hSource
        rw [← hValue] at hStored
        exact ⟨hStored.1,
          mem_addMapInternal_mapentry hStored.2⟩
      · rcases hNew with ⟨source, hSource, hValue, _⟩
        rw [List.mem_singleton] at hSource
        have hEntry : range.value =
            mapEntry glb symbol other first off sz uselim := by
          rw [hValue, hSource]
          rfl
        rw [hEntry]
        refine ⟨rfl, ?_⟩
        change _ ∈ (ScopeInternal.addMapInternal glb symbol
          other first off sz uselim scope).mapentry
            symbol.symbolId
        rw [addMapInternal_mapentry_self]
        exact List.mem_append_right _ (by simp)
    · rw [addMapInternal_maptable_ne hSpace] at hMap
      have hStored := hScope.stored other map hMap range hRange
      exact ⟨hStored.1, mem_addMapInternal_mapentry hStored.2⟩
  owned := by
    intro id entry hEntry
    by_cases hId : id = symbol.symbolId
    · subst hId
      rw [addMapInternal_mapentry_self] at hEntry
      rcases List.mem_append.mp hEntry with hOld | hNew
      · exact hScope.owned _ entry hOld
      · rcases hOwner with ⟨owner, hMem, hOwnerId, hKind⟩
        rw [List.mem_singleton.mp hNew]
        exact ⟨owner, hMem, hOwnerId, rfl, hKind⟩
    · rw [addMapInternal_mapentry_ne hId] at hEntry
      exact hScope.owned id entry hEntry
  numbered := hScope.numbered
  distinct := hScope.distinct
  functions := by
    intro other hOther hFunction hPending
    rcases hScope.functions other hOther hFunction hPending
      with ⟨start, entry, hMapped⟩
    refine ⟨start, entry, ⟨hMapped.sameId, hMapped.sameName,
      hMapped.isFunction, hMapped.tied, hMapped.entryEq,
      ?_, ?_⟩⟩
    · rw [addMapInternal_mapentry_ne
        (hOpen other hOther hFunction hPending)]
      exact hMapped.only
    · intro point hStart hEnd
      exact hScope.tables.covered_addMapInternal
        (hMapped.covered point hStart hEnd)

end ScopeInternal

end LLDBGhidra

------------------------------------------------------------
-- Data Symbols
------------------------------------------------------------

namespace LLDBGhidra

namespace ScopeInternal

variable {glb : Glb}
variable {scope : ScopeInternal}

/- The symbol is filed as a data symbol. -/
private def FiledData
    (symbol : Symbol)
    (scope : ScopeInternal) : Prop :=
  ∃ owner ∈ scope.nametree,
    owner.symbolId = symbol.symbolId ∧
      symbol.kind = owner.kind ∧ symbol.isFunction = false

/- No function shares its id with a data symbol. -/
private theorem FiledData.ne_of_isFunction
    (hScope : Wellformed glb none scope)
    {symbol other : Symbol}
    (hFiled : FiledData symbol scope)
    (hOther : other ∈ scope.nametree)
    (hFunction : other.isFunction) :
    other.symbolId ≠ symbol.symbolId := by
  intro hSame
  rcases hFiled with ⟨owner, hOwner, hId, hKind, hData⟩
  have hEq := hScope.distinct other hOther owner hOwner
    (hSame.trans hId.symm)
  subst hEq
  simp only [Symbol.isFunction, hKind] at hData hFunction
  rw [hData] at hFunction
  exact absurd hFunction (by simp)

/- Functions do not see the entries of other symbols. -/
private theorem hasFunction_congr
    {scope' : ScopeInternal}
    (hNames : scope'.nametree = scope.nametree)
    (hEntries :
      ∀ symbol ∈ scope.nametree, symbol.isFunction →
        scope'.mapentry symbol.symbolId =
          scope.mapentry symbol.symbolId)
    (id : Nat)
    (name : String)
    (start : BitVec 64) :
    HasFunction scope' id name start ↔
      HasFunction scope id name start := by
  unfold HasFunction
  rw [hNames]
  constructor
  · rintro ⟨symbol, hSymbol, hFunction, rfl, hName, hEntry⟩
    rw [hEntries symbol hSymbol hFunction] at hEntry
    exact ⟨symbol, hSymbol, hFunction, rfl, hName, hEntry⟩
  · rintro ⟨symbol, hSymbol, hFunction, rfl, hName, hEntry⟩
    rw [← hEntries symbol hSymbol hFunction] at hEntry
    exact ⟨symbol, hSymbol, hFunction, rfl, hName, hEntry⟩

private theorem hasFunction_setAddrtied
    (symbol : Symbol)
    (id : Nat)
    (name : String)
    (start : BitVec 64) :
    HasFunction (setAddrtied symbol scope) id name start ↔
      HasFunction scope id name start := by
  constructor
  · rintro ⟨marked, hMarked, hFunction, hId, hName, hEntry⟩
    rcases mem_setAddrtied hMarked with
      ⟨other, hOther, hSameId, hSameName, hKind, _⟩
    refine ⟨other, hOther, ?_, hSameId.symm.trans hId,
      hSameName.symm.trans hName, hEntry⟩
    simpa [Symbol.isFunction, hKind] using hFunction
  · rintro ⟨other, hOther, hFunction, hId, hName, hEntry⟩
    rcases setAddrtied_of_mem symbol hOther with
      ⟨marked, hMarked, hSameId, hSameName, hKind⟩
    refine ⟨marked, hMarked, ?_, hSameId.trans hId,
      hSameName.trans hName, hEntry⟩
    simpa [Symbol.isFunction, hKind] using hFunction

/- Mapping data leaves the functions alone. -/
private theorem Wellformed.addMapInternal_data
    (hScope : Wellformed glb none scope)
    {symbol : Symbol}
    (hFiled : FiledData symbol scope)
    {sz : Int}
    (hPos : 0 < sz)
    (hSmall : sz < 2 ^ 31)
    (space : SpaceId)
    (first : BitVec 64)
    (off : Int)
    (uselim : RangeList) :
    Undisturbed glb scope
      (ScopeInternal.addMapInternal glb symbol space first off
        sz uselim scope) where
  wellformed := by
    have hOwner := hFiled
    rcases hOwner with ⟨owner, hMem, hId, hKind, _⟩
    apply hScope.addMapInternal ⟨owner, hMem, hId, hKind⟩
    · intro other hOther hFunction _
      exact hFiled.ne_of_isFunction hScope hOther hFunction
    · exact hPos
    · exact hSmall
  functions := by
    apply hasFunction_congr
    · rfl
    · intro other hOther hFunction
      exact addMapInternal_mapentry_ne
        (hFiled.ne_of_isFunction hScope hOther hFunction)

private theorem Wellformed.addPieces
    {symbol : Symbol}
    {uselim : RangeList}
    {pieces : List VarnodeData}
    {off : Nat}
    (hScope : Wellformed glb none scope)
    (hFiled : FiledData symbol scope)
    (hSized : ∀ piece ∈ pieces, 0 < piece.size.toInt) :
    Undisturbed glb scope
      (ScopeInternal.addPieces glb symbol uselim off pieces
        scope) := by
  induction pieces generalizing off scope with
  | nil => exact ⟨hScope, fun _ _ _ => Iff.rfl⟩
  | cons piece rest ih =>
      unfold ScopeInternal.addPieces
      have hSmall : piece.size.toInt < 2 ^ 31 := by
        have hBound := piece.size.toInt_lt
        omega
      have hMapped := hScope.addMapInternal_data hFiled
        (hSized piece List.mem_cons_self) hSmall
        piece.space piece.offset (int4 off) uselim
      apply hMapped.trans
      exact ih hMapped.wellformed hFiled
        (fun other hOther =>
          hSized other (List.mem_cons_of_mem _ hOther))

/- A mapping by hash touches no address space. -/
private theorem Wellformed.addDynamic
    (hScope : Wellformed glb none scope)
    {symbol : Symbol}
    (hFiled : FiledData symbol scope)
    (entry : SymbolEntry)
    (hEntry : entry.symbol = symbol) :
    Undisturbed glb scope
      { scope with
        dynamicentry := scope.dynamicentry ++ [entry]
        mapentry :=
          Function.update scope.mapentry symbol.symbolId
            (scope.mapentry symbol.symbolId ++ [entry]) } := by
  have hOwner := hFiled
  rcases hOwner with ⟨owner, hOwner, hId, hKind, hData⟩
  have hMem : ∀ id other, other ∈ scope.mapentry id →
      other ∈ Function.update scope.mapentry symbol.symbolId
        (scope.mapentry symbol.symbolId ++ [entry]) id := by
    intro id other hOther
    by_cases hSame : id = symbol.symbolId
    · subst hSame
      rw [Function.update_self]
      exact List.mem_append_left _ hOther
    · rw [Function.update_of_ne hSame]
      exact hOther
  have hFunctions :
      ∀ other ∈ scope.nametree, other.isFunction →
        Function.update scope.mapentry symbol.symbolId
            (scope.mapentry symbol.symbolId ++ [entry])
            other.symbolId =
          scope.mapentry other.symbolId := by
    intro other hOther hFunction
    exact Function.update_of_ne
      (hFiled.ne_of_isFunction hScope hOther hFunction) _ _
  refine ⟨⟨hScope.refined, ?_, ?_, hScope.numbered,
    hScope.distinct, ?_⟩, ?_⟩
  · intro space map hMap range hRange
    have hStored := hScope.stored space map hMap range hRange
    exact ⟨hStored.1, hMem _ _ hStored.2⟩
  · intro id other hOther
    by_cases hSame : id = symbol.symbolId
    · subst hSame
      have hCases : other ∈
          scope.mapentry symbol.symbolId ++ [entry] := by
        simpa using hOther
      rcases List.mem_append.mp hCases with hOld | hNew
      · exact hScope.owned _ other hOld
      · rw [List.mem_singleton.mp hNew, hEntry]
        exact ⟨owner, hOwner, hId, rfl, hKind⟩
    · have hOld : other ∈ scope.mapentry id := by
        simpa [Function.update_of_ne hSame] using hOther
      exact hScope.owned id other hOld
  · intro other hOther hFunction hPending
    rcases hScope.functions other hOther hFunction hPending
      with ⟨start, found, hMapped⟩
    refine ⟨start, found, { hMapped with only := ?_ }⟩
    exact (hFunctions other hOther hFunction).trans
      hMapped.only
  · exact hasFunction_congr rfl hFunctions

/- Mapping a data symbol keeps the invariant. -/
private theorem Wellformed.addMap
    (hScope : Wellformed glb none scope)
    {symbol : Symbol}
    (hFiled : FiledData symbol scope)
    (hSized : 0 < symbol.getBytesConsumed)
    (hSmall : symbol.getBytesConsumed < 2 ^ 31)
    (addr : Address)
    (uselimit : RangeList) :
    Undisturbed glb scope
      ((ScopeInternal.addMap glb symbol addr uselimit).run
        scope).2 := by
  unfold ScopeInternal.addMap
  cases hBase : addr.base with
  | none => exact hScope.addDynamic hFiled _ rfl
  | some space =>
      simp only []
      rw [Effect.run_modify_bind]
      generalize hTied :
        (if uselimit.tree.isEmpty = true then
          { symbol with addrtied := true } else symbol) = tied
      have hTiedId : tied.symbolId = symbol.symbolId ∧
          tied.kind = symbol.kind := by
        rw [← hTied]
        split
        · exact ⟨rfl, rfl⟩
        · exact ⟨rfl, rfl⟩
      generalize hMarked :
        (if uselimit.tree.isEmpty = true then
          ScopeInternal.setAddrtied symbol scope
          else scope) = marked
      have hMarkedScope : Undisturbed glb scope marked := by
        rw [← hMarked]
        split
        · exact ⟨hScope.setAddrtied symbol,
            hasFunction_setAddrtied symbol⟩
        · exact ⟨hScope, fun _ _ _ => Iff.rfl⟩
      have hMarkedFiled : FiledData tied marked := by
        rcases hFiled with ⟨owner, hOwner, hId, hKind, hData⟩
        have hTiedData : tied.isFunction = false := by
          simpa [Symbol.isFunction, hTiedId.2] using hData
        rw [← hMarked]
        split
        · rcases setAddrtied_of_mem symbol hOwner with
            ⟨other, hOther, hOtherId, _, hOtherKind⟩
          exact ⟨other, hOther,
            hOtherId.trans (hId.trans hTiedId.1.symm),
            hTiedId.2.trans (hKind.trans hOtherKind.symm),
            hTiedData⟩
        · exact ⟨owner, hOwner, hId.trans hTiedId.1.symm,
            hTiedId.2.trans hKind, hTiedData⟩
      have hMapped :=
        hMarkedScope.wellformed.addMapInternal_data
          hMarkedFiled hSized hSmall space addr.offset 0
          uselimit
      by_cases hJoin : (glb.space space).type = .join
      · simp only [hJoin, if_true]
        cases hFound : glb.findJoin addr.offset with
        | none => exact hMarkedScope.trans hMapped
        | some record =>
            rw [Effect.run_modify]
            apply (hMarkedScope.trans hMapped).trans
            apply hMapped.wellformed.addPieces hMarkedFiled
            intro piece hPiece
            apply record.sized
            split at hPiece
            · exact hPiece
            · exact List.mem_reverse.mp hPiece
      · simp only [hJoin, if_false]
        exact hMarkedScope.trans hMapped

/- Filing a data symbol adds no function. -/
private theorem hasFunction_file
    (name : String)
    (typeSize : BitVec 32)
    (id : Nat)
    (other : String)
    (start : BitVec 64) :
    HasFunction (insertNameTree
        (newSymbol scope.nextUniqueId name (.data typeSize))
        scope.takeId).2 id other start ↔
      HasFunction scope id other start := by
  constructor
  · rintro ⟨symbol, hSymbol, hFunction, hRest⟩
    rcases (mem_insertNameTree _ _ _).mp hSymbol with rfl | hOld
    · simp [Symbol.isFunction, newSymbol] at hFunction
    · exact ⟨symbol, hOld, hFunction, hRest⟩
  · rintro ⟨symbol, hSymbol, hRest⟩
    exact ⟨symbol,
      (mem_insertNameTree _ _ _).mpr (Or.inr hSymbol), hRest⟩

/- Adding a data symbol, or failing to, adds no function. -/
theorem Wellformed.addSymbol
    (hScope : Wellformed glb none scope)
    (name : String)
    (typeSize : BitVec 32)
    (addr usepoint : Address) :
    Undisturbed glb scope
      ((ScopeInternal.addSymbol glb name typeSize addr
        usepoint).run scope).2 := by
  unfold ScopeInternal.addSymbol
  rw [Effect.run_bind, run_addSymbolInternal]
  cases newName scope name with
  | error error => exact ⟨hScope.takeId, fun _ _ _ => Iff.rfl⟩
  | ok finalName =>
      by_cases hSize : (newSymbol scope.nextUniqueId finalName
          (.data typeSize)).typeSize < 1
      · simp only [hSize, if_true]
        exact ⟨hScope.takeId, fun _ _ _ => Iff.rfl⟩
      · simp only [hSize, if_false]
        have hFiled := hScope.file finalName (.data typeSize)
        have hSettled := hFiled.settle (by
          intro symbol hSymbol hId hFunction
          rcases (mem_insertNameTree _ _ _).mp hSymbol with
            rfl | hOld
          · simp [Symbol.isFunction, newSymbol] at hFunction
          · have hBelow := hScope.numbered symbol hOld
            omega)
        have hTypeSize : 0 < typeSize.toInt := by
          have hNot : ¬ typeSize.toInt < 1 := hSize
          omega
        have hBound := typeSize.toInt_lt
        have hAdded : Undisturbed glb scope _ :=
          ⟨hSettled, hasFunction_file finalName typeSize⟩
        apply hAdded.trans
        apply hSettled.addMap
        · exact ⟨_, (mem_insertNameTree _ _ _).mpr
            (Or.inl rfl), rfl, rfl, rfl⟩
        · exact hTypeSize
        · change typeSize.toInt < 2 ^ 31
          omega

end ScopeInternal

end LLDBGhidra

------------------------------------------------------------
-- Function Symbols
------------------------------------------------------------

namespace LLDBGhidra

namespace ScopeInternal

variable {glb : Glb}
variable {scope : ScopeInternal}

/- Map a filed function symbol to its start. -/
def mapFunction
    (glb : Glb)
    (symbol : Symbol)
    (start : BitVec 64)
    (scope : ScopeInternal) : ScopeInternal :=
  addMapInternal glb { symbol with addrtied := true }
    glb.defaultCodeSpace start 0 glb.minFuncsymbolSize.toInt
    RangeList.empty (setAddrtied symbol scope)

/- The new function symbol, and the names with it. -/
def fileFunction
    (glb : Glb)
    (name : String)
    (scope : ScopeInternal) : Symbol × ScopeInternal :=
  insertNameTree
    (newSymbol scope.nextUniqueId name
      (.function glb.minFuncsymbolSize))
    scope.takeId

private theorem run_addMapPoint_function
    {symbol : Symbol}
    (hKind : symbol.kind = .function glb.minFuncsymbolSize)
    (start : BitVec 64)
    (scope : ScopeInternal) :
    (addMapPoint glb symbol
        (Address.ofSpace glb.defaultCodeSpace start)
        Address.invalid).run scope =
      (.ok (), mapFunction glb symbol start scope) := by
  have hSize :
      symbol.getBytesConsumed =
        glb.minFuncsymbolSize.toInt := by
    simp [Symbol.getBytesConsumed, hKind]
  unfold addMapPoint addMap
  simp only [Address.ofSpace, Address.invalid, hSize,
    RangeList.empty, List.isEmpty_nil, if_true,
    glb.codeSpaceUnjoined, if_false]
  rw [Effect.run_modify_bind]
  rfl

/- Adding a function fails only for want of a name. -/
theorem run_addFunction
    (scope : ScopeInternal)
    (start : BitVec 64)
    (name : String) :
    (addFunction glb
        (Address.ofSpace glb.defaultCodeSpace start) name).run
        scope =
      match newName scope name with
      | .error error => (.error error, scope.takeId)
      | .ok finalName =>
          (.ok (fileFunction glb finalName scope).1,
            mapFunction glb
              (fileFunction glb finalName scope).1 start
              (fileFunction glb finalName scope).2) := by
  unfold addFunction
  rw [Effect.run_bind, run_addSymbolInternal]
  cases newName scope name with
  | error error => rfl
  | ok finalName =>
      have hSize : ¬ (newSymbol scope.nextUniqueId finalName
          (.function glb.minFuncsymbolSize)).typeSize < 1 := by
        simp [Symbol.typeSize, newSymbol]
      simp only [hSize, if_false]
      rw [Effect.run_bind_of_ok
        (run_addMapPoint_function rfl start _)]
      rfl

/- What is known of a scope with one more function. -/
structure FunctionAdded
    (glb : Glb)
    (scope scope' : ScopeInternal)
    (symbol : Symbol)
    (start : BitVec 64) : Prop where
  wellformed : Wellformed glb none scope'
  mapped :
    ∃ entry, MappedAt glb scope' symbol start entry
  functions :
    ∀ id name other,
      HasFunction scope' id name other ↔
        (id = symbol.symbolId ∧ name = symbol.name ∧
            other = start) ∨
          HasFunction scope id name other
  onlyFunctions :
    (∀ other ∈ scope.nametree, other.isFunction) →
      ∀ other ∈ scope'.nametree, other.isFunction

/- A new function symbol `symbol` is filed under its name. -/
private structure Filed
    (glb : Glb)
    (scope filed : ScopeInternal)
    (symbol : Symbol) : Prop where
  before : Wellformed glb none scope
  after : Wellformed glb (some symbol.symbolId) filed
  id : symbol.symbolId = idBase + scope.nextUniqueId
  kind : symbol.kind = .function glb.minFuncsymbolSize
  names :
    ∀ other, other ∈ filed.nametree ↔
      other = symbol ∨ other ∈ scope.nametree
  entries : ∀ id, filed.mapentry id = scope.mapentry id

private theorem filed_fileFunction
    (hScope : Wellformed glb none scope)
    (name : String) :
    Filed glb scope (fileFunction glb name scope).2
      (fileFunction glb name scope).1 where
  before := hScope
  after := hScope.file name (.function glb.minFuncsymbolSize)
  id := rfl
  kind := rfl
  names := fun _ => mem_insertNameTree _ _ _
  entries := fun _ => rfl

variable {filed : ScopeInternal}
variable {symbol : Symbol}

private theorem Filed.isFunction
    (hFiled : Filed glb scope filed symbol) :
    symbol.isFunction := by
  simp [Symbol.isFunction, hFiled.kind]

/- The symbols of the scope keep the ids they had. -/
private theorem Filed.fresh
    (hFiled : Filed glb scope filed symbol)
    {other : Symbol}
    (hOther : other ∈ scope.nametree) :
    other.symbolId ≠ symbol.symbolId := by
  have hBelow := hFiled.before.numbered other hOther
  rw [hFiled.id]
  omega

private theorem Filed.eq_of_symbolId
    (hFiled : Filed glb scope filed symbol)
    {other : Symbol}
    (hOther : other ∈ filed.nametree)
    (hId : other.symbolId = symbol.symbolId) :
    other = symbol := by
  rcases (hFiled.names other).mp hOther with hEq | hOld
  · exact hEq
  · exact absurd hId (hFiled.fresh hOld)

/- Mapping the symbol keeps the invariant. -/
private theorem Filed.wellformed_mapFunction
    (hFiled : Filed glb scope filed symbol)
    (start : BitVec 64) :
    Wellformed glb (some symbol.symbolId)
      (ScopeInternal.mapFunction glb symbol start filed) := by
  have hMarked := hFiled.after.setAddrtied symbol
  have hSmall : glb.minFuncsymbolSize.toInt < 2 ^ 31 := by
    have hBound := glb.minFuncsymbolSize.toInt_lt
    omega
  apply hMarked.addMapInternal
  · rcases setAddrtied_of_mem symbol
        ((hFiled.names symbol).mpr (Or.inl rfl)) with
      ⟨marked, hMem, hMarkedId, _, hMarkedKind⟩
    exact ⟨marked, hMem, hMarkedId, hMarkedKind.symm⟩
  · intro other _ _ hPending hSame
    exact hPending (congrArg some hSame.symm)
  · exact glb.minFuncsymbolSized
  · exact hSmall

private theorem Filed.mapentry_self
    (hFiled : Filed glb scope filed symbol)
    (start : BitVec 64) :
    (ScopeInternal.mapFunction glb symbol start
        filed).mapentry symbol.symbolId =
      [functionEntry glb { symbol with addrtied := true }
        start] := by
  have hEmpty : (setAddrtied symbol filed).mapentry
      symbol.symbolId = [] := by
    change filed.mapentry symbol.symbolId = []
    rw [hFiled.entries, hFiled.id]
    exact hFiled.before.mapentry_fresh
  exact addMapInternal_mapentry_self.trans
    (by rw [hEmpty]; rfl)

/- The older symbols keep their storage locations. -/
private theorem Filed.mapentry_of_mem
    (hFiled : Filed glb scope filed symbol)
    (start : BitVec 64)
    {other : Symbol}
    (hOther : other ∈ scope.nametree) :
    (ScopeInternal.mapFunction glb symbol start
        filed).mapentry other.symbolId =
      scope.mapentry other.symbolId := by
  have hNe : other.symbolId ≠
      ({ symbol with addrtied := true } :
        Symbol).symbolId := hFiled.fresh hOther
  exact (addMapInternal_mapentry_ne hNe).trans
    (hFiled.entries _)

private theorem Filed.mappedAt
    (hFiled : Filed glb scope filed symbol)
    (start : BitVec 64) :
    MappedAt glb
      (ScopeInternal.mapFunction glb symbol start filed)
      symbol start
      (functionEntry glb { symbol with addrtied := true }
        start) := by
  have hMarked := hFiled.after.setAddrtied symbol
  refine ⟨rfl, rfl, hFiled.kind, rfl, rfl,
    hFiled.mapentry_self start, ?_⟩
  intro point hStart hEnd
  refine ⟨_, addMapInternal_maptable_self, ?_⟩
  exact (hMarked.tables.getD _).covered_insert_new _
    hStart hEnd

/- The symbol is no longer pending once it is mapped. -/
private theorem Filed.settled
    (hFiled : Filed glb scope filed symbol)
    (start : BitVec 64) :
    Wellformed glb none
      (ScopeInternal.mapFunction glb symbol start
        filed) := by
  apply (hFiled.wellformed_mapFunction start).settle
  intro other hOther hOtherId _
  have hOtherMem : other ∈
      (setAddrtied symbol filed).nametree := hOther
  rcases mem_setAddrtied hOtherMem with
    ⟨source, hSource, hSourceId, hSourceName, _, _⟩
  have hSame : source = symbol :=
    hFiled.eq_of_symbolId hSource
      (hSourceId.symm.trans hOtherId)
  refine ⟨start, _, { hFiled.mappedAt start with
    sameId := hOtherId.symm
    sameName := ?_
    only := ?_ }⟩
  · rw [hSourceName, hSame]
    rfl
  · rw [hOtherId]
    exact hFiled.mapentry_self start

/- Marking the symbol address tied changes no function. -/
private theorem hasFunction_mapFunction_iff
    (start : BitVec 64)
    {id : Nat}
    {name : String}
    {other : BitVec 64} :
    HasFunction
        (ScopeInternal.mapFunction glb symbol start filed)
        id name other ↔
      ∃ function ∈ filed.nametree, function.isFunction ∧
        function.symbolId = id ∧ function.name = name ∧
        ∃ entry,
          (ScopeInternal.mapFunction glb symbol start
            filed).mapentry id = [entry] ∧
            entry.addr.offset = other := by
  constructor
  · rintro ⟨marked, hMem, hFunction, hMarkedId, hName, hEntry⟩
    have hMarkedMem : marked ∈
        (setAddrtied symbol filed).nametree := hMem
    rcases mem_setAddrtied hMarkedMem with
      ⟨source, hSource, hSourceId, hSourceName,
        hSourceKind, _⟩
    refine ⟨source, hSource, ?_,
      hSourceId.symm.trans hMarkedId,
      hSourceName.symm.trans hName, hEntry⟩
    simpa [Symbol.isFunction, hSourceKind] using hFunction
  · rintro ⟨source, hSource, hFunction, hSourceId, hName,
      hEntry⟩
    rcases setAddrtied_of_mem symbol hSource with
      ⟨marked, hMem, hMarkedId, hMarkedName, hMarkedKind⟩
    refine ⟨marked, hMem, ?_, hMarkedId.trans hSourceId,
      hMarkedName.trans hName, hEntry⟩
    simpa [Symbol.isFunction, hMarkedKind] using hFunction

/- The functions are the old ones and the new one. -/
private theorem Filed.hasFunction_iff
    (hFiled : Filed glb scope filed symbol)
    (start : BitVec 64)
    {id : Nat}
    {name : String}
    {other : BitVec 64} :
    HasFunction
        (ScopeInternal.mapFunction glb symbol start filed)
        id name other ↔
      (id = symbol.symbolId ∧ name = symbol.name ∧
          other = start) ∨
        HasFunction scope id name other := by
  rw [hasFunction_mapFunction_iff]
  constructor
  · rintro ⟨function, hMem, hFunction, rfl, hName, entry,
      hEntry, hStart⟩
    rcases (hFiled.names function).mp hMem with rfl | hOld
    · rw [hFiled.mapentry_self] at hEntry
      have hSame := (List.cons.inj hEntry).1
      refine Or.inl ⟨rfl, hName.symm, ?_⟩
      rw [← hStart, ← hSame]
      rfl
    · rw [hFiled.mapentry_of_mem start hOld] at hEntry
      exact Or.inr ⟨function, hOld, hFunction, rfl, hName,
        entry, hEntry, hStart⟩
  · rintro (⟨rfl, rfl, rfl⟩ | hOld)
    · exact ⟨symbol, (hFiled.names symbol).mpr (Or.inl rfl),
        hFiled.isFunction, rfl, rfl, _,
        hFiled.mapentry_self _, rfl⟩
    · rcases hOld with
        ⟨function, hMem, hFunction, rfl, hName, entry,
          hEntry, hStart⟩
      refine ⟨function,
        (hFiled.names function).mpr (Or.inr hMem),
        hFunction, rfl, hName, entry, ?_, hStart⟩
      rw [hFiled.mapentry_of_mem start hMem]
      exact hEntry

private theorem Filed.onlyFunctions
    (hFiled : Filed glb scope filed symbol)
    (start : BitVec 64)
    (hFunctions : ∀ other ∈ scope.nametree,
      other.isFunction) :
    ∀ other ∈ (ScopeInternal.mapFunction glb symbol start
        filed).nametree,
      other.isFunction := by
  intro other hMem
  have hMarkedMem : other ∈
      (setAddrtied symbol filed).nametree := hMem
  rcases mem_setAddrtied hMarkedMem with
    ⟨source, hSource, _, _, hSourceKind, _⟩
  have hSourceFunction : source.isFunction := by
    rcases (hFiled.names source).mp hSource with rfl | hOld
    · exact hFiled.isFunction
    · exact hFunctions source hOld
  simpa [Symbol.isFunction, hSourceKind]
    using hSourceFunction

/- A filed function symbol gets its storage location. -/
theorem functionAdded_mapFunction
    (hScope : Wellformed glb none scope)
    (name : String)
    (start : BitVec 64) :
    FunctionAdded glb scope
      (ScopeInternal.mapFunction glb
        (fileFunction glb name scope).1 start
        (fileFunction glb name scope).2)
      (fileFunction glb name scope).1 start := by
  have hFiled := filed_fileFunction hScope name
  exact {
    wellformed := hFiled.settled start
    mapped := ⟨_, hFiled.mappedAt start⟩
    functions := fun _ _ _ => hFiled.hasFunction_iff start
    onlyFunctions := hFiled.onlyFunctions start }

end ScopeInternal

end LLDBGhidra
