import LLDBGhidra.Decompiler.DatabaseInvariant

/-
  What the lookups of a scope find.

  Main declarations:
    * `ScopeInternal.Wellformed.of_mem_entriesAt`
    * `ScopeInternal.Wellformed.findFunction_spec`
    * `ScopeInternal.findAddr_spec`
    * `ScopeInternal.findContainer_spec`
    * `ScopeInternal.MappedAt.getMapEntry_eq`
-/

------------------------------------------------------------
-- The Bytes of a Function
------------------------------------------------------------

namespace LLDBGhidra

theorem Glb.minFuncsymbolSize_toInt
    (glb : Glb) :
    glb.minFuncsymbolSize.toInt =
      glb.minFuncsymbolSize.toNat := by
  have hPos := glb.minFuncsymbolSized
  have hBound := glb.minFuncsymbolSize.isLt
  rw [BitVec.toInt_eq_toNat_cond] at hPos ⊢
  split
  · rfl
  · rw [if_neg (by assumption)] at hPos
    omega

namespace ScopeInternal

variable {glb : Glb}
variable {start : BitVec 64}

/- A function within the code space does not wrap. -/
theorem functionEnd_toNat
    (hPlace :
      start.toNat + glb.minFuncsymbolSize.toNat ≤
        (glb.space glb.defaultCodeSpace).highest.toNat + 1) :
    (functionEnd glb start).toNat =
      start.toNat + glb.minFuncsymbolSize.toNat - 1 := by
  have hPos := glb.minFuncsymbolSized
  have hSize := glb.minFuncsymbolSize_toInt
  have hHighest :=
    (glb.space glb.defaultCodeSpace).highest.isLt
  have hOffset :
      (start + BitVec.ofInt 64
        (glb.minFuncsymbolSize.toInt - 1)).toNat =
        start.toNat + glb.minFuncsymbolSize.toNat - 1 := by
    have hCast : glb.minFuncsymbolSize.toInt - 1 =
        ((glb.minFuncsymbolSize.toNat - 1 : Nat) : Int) := by
      omega
    rw [hCast, BitVec.ofInt_natCast, BitVec.toNat_add,
      BitVec.toNat_ofNat]
    omega
  unfold functionEnd
  rw [AddrSpace.wrapOffset_of_le, hOffset]
  rw [BitVec.le_def, hOffset]
  omega

theorem start_le_functionEnd
    (hPlace :
      start.toNat + glb.minFuncsymbolSize.toNat ≤
        (glb.space glb.defaultCodeSpace).highest.toNat + 1) :
    start ≤ functionEnd glb start := by
  have hEnd := functionEnd_toNat hPlace
  have hPos := glb.minFuncsymbolSized
  have hSize := glb.minFuncsymbolSize_toInt
  rw [BitVec.le_def]
  omega

end ScopeInternal

end LLDBGhidra

------------------------------------------------------------
-- Entries over an Address
------------------------------------------------------------

namespace LLDBGhidra

namespace ScopeInternal

variable {glb : Glb}
variable {scope : ScopeInternal}
variable {addr usepoint : Address}
variable {entry : SymbolEntry}

/- An entry of the right space whose range has the address. -/
structure StoredOver
    (scope : ScopeInternal)
    (addr : Address)
    (entry : SymbolEntry) : Prop where
  valid : addr.base ≠ none
  sameSpace : entry.addr.base = addr.base
  first : entry.getFirst ≤ addr.offset
  last : addr.offset ≤ entry.getLast
  mapped : entry ∈ scope.mapentry entry.symbol.symbolId

theorem Wellformed.of_mem_entriesAt
    {sub2 : EntrySubsort}
    (hScope : Wellformed glb none scope)
    (hEntry : entry ∈ scope.entriesAt addr sub2) :
    StoredOver scope addr entry := by
  unfold entriesAt at hEntry
  cases hBase : addr.base with
  | none => simp [hBase] at hEntry
  | some space =>
      cases hMap : scope.maptable space with
      | none => simp [hBase, hMap] at hEntry
      | some map =>
          simp only [hBase, Option.bind_some, hMap,
            List.mem_map] at hEntry
          rcases hEntry with ⟨range, hRange, rfl⟩
          have hRefined := hScope.refined space map hMap
          have hFound :=
            (hRefined.mem_findBetween _ _ _).mp hRange
          have hStored :=
            hScope.stored space map hMap range hFound.1
          have hCovers :=
            hRefined.covers_of_mem_findBetween hRange
          exact
            { valid := by simp [hBase]
              sameSpace := hStored.1.trans hBase.symm
              first := BitVec.le_def.mpr hCovers.1
              last := BitVec.le_def.mpr hCovers.2
              mapped := hStored.2 }

/- The entry of a function symbol is where it was mapped. -/
theorem Wellformed.mapped_of_isFunction
    (hScope : Wellformed glb none scope)
    (hEntry : entry ∈ scope.mapentry entry.symbol.symbolId)
    (hFunction : entry.symbol.isFunction) :
    ∃ symbol ∈ scope.nametree, ∃ start,
      MappedAt glb scope symbol start entry := by
  rcases hScope.owned _ entry hEntry with
    ⟨symbol, hSymbol, hId, _, hKind⟩
  have hOwner : symbol.isFunction := by
    simpa [Symbol.isFunction, hKind] using hFunction
  rcases hScope.functions symbol hSymbol hOwner (by simp) with
    ⟨start, mapped, hMapped⟩
  rw [← hId, hMapped.only] at hEntry
  have hSame : entry = mapped := List.mem_singleton.mp hEntry
  subst hSame
  exact ⟨symbol, hSymbol, start, hMapped⟩

/- A function is found over all of the bytes it consumes. -/
theorem MappedAt.mem_entriesAt
    {symbol : Symbol}
    {start : BitVec 64}
    (hScope : Wellformed glb none scope)
    (hMapped : MappedAt glb scope symbol start entry)
    (hBase : addr.base = some glb.defaultCodeSpace)
    (hStart : start ≤ addr.offset)
    (hEnd : addr.offset ≤ functionEnd glb start)
    (sub2 : EntrySubsort) :
    entry ∈ scope.entriesAt addr sub2 := by
  rcases hMapped.covered addr.offset.toNat
      (BitVec.le_def.mp hStart) (BitVec.le_def.mp hEnd) with
    ⟨map, hMap, hCovered⟩
  have hSubsort : entry.getSubsort ≤ sub2 := by
    have hTied : entry.isAddrTied := hMapped.tied
    simp only [SymbolEntry.getSubsort, hTied, if_true]
    exact SubsortType.subsort_false_le sub2
  rcases (hScope.refined _ map hMap).exists_mem_findBetween
      hCovered hSubsort with
    ⟨range, hRange, hValue⟩
  simp only [entriesAt, hBase, Option.bind_some, hMap,
    List.mem_map]
  exact ⟨range, hRange, hValue⟩

/- A function is in use everywhere. -/
theorem MappedAt.inUse
    {symbol : Symbol}
    {start : BitVec 64}
    (hMapped : MappedAt glb scope symbol start entry)
    (usepoint : Address) :
    entry.inUse usepoint := by
  have hTied : entry.isAddrTied := hMapped.tied
  simp [SymbolEntry.inUse, hTied]

/- A mapped function of the scope is one it has by name. -/
theorem MappedAt.hasFunction
    {symbol : Symbol}
    {start : BitVec 64}
    (hMapped : MappedAt glb scope symbol start entry)
    (hSymbol : symbol ∈ scope.nametree)
    (hFunction : symbol.isFunction) :
    HasFunction scope symbol.symbolId symbol.name start :=
  ⟨symbol, hSymbol, hFunction, rfl, rfl, entry, hMapped.only,
    by rw [hMapped.addr]; rfl⟩

end ScopeInternal

end LLDBGhidra

------------------------------------------------------------
-- Function Lookups
------------------------------------------------------------

namespace LLDBGhidra

namespace ScopeInternal

variable {glb : Glb}
variable {scope : ScopeInternal}
variable {addr : Address}

/- What `findFunction` makes of the entry it selects. -/
theorem MappedAt.getFunction
    {symbol : Symbol}
    {start : BitVec 64}
    {entry : SymbolEntry}
    (hMapped : MappedAt glb scope symbol start entry) :
    scope.getFunction entry.symbol =
      .ok ⟨entry.symbol.name, entry.addr, entry.symbol⟩ := by
  have hOnly : scope.mapentry entry.symbol.symbolId =
      [entry] := by
    rw [hMapped.sameId]
    exact hMapped.only
  simp only [ScopeInternal.getFunction, getFirstWholeMap, hOnly]
  rfl

/-
  A lookup of a function does not fail.  It finds a function
  of the code space that is mapped at the very address, and
  misses none whose bytes do not wrap.
-/
theorem Wellformed.findFunction_spec
    (hScope : Wellformed glb none scope)
    (addr : Address) :
    (∃ symbol ∈ scope.nametree, symbol.isFunction ∧
      ∃ entry, MappedAt glb scope symbol addr.offset entry ∧
        addr.base = some glb.defaultCodeSpace ∧
        scope.findFunction addr =
          .ok (some ⟨entry.symbol.name, entry.addr,
            entry.symbol⟩)) ∨
    (scope.findFunction addr = .ok none ∧
      (addr.base = some glb.defaultCodeSpace →
        addr.offset ≤ functionEnd glb addr.offset →
          ∀ id name,
            ¬ HasFunction scope id name addr.offset)) := by
  unfold ScopeInternal.findFunction
  cases hFound :
      (scope.entriesAt addr (SubsortType.subsort true)).find?
        (fun entry =>
          entry.addr.offset = addr.offset &&
            entry.symbol.isFunction) with
  | some entry =>
      left
      have hChosen := List.find?_some hFound
      simp only [Bool.and_eq_true, decide_eq_true_eq]
        at hChosen
      have hStored := hScope.of_mem_entriesAt
        (List.mem_of_find?_eq_some hFound)
      rcases hScope.mapped_of_isFunction hStored.mapped
          hChosen.2 with
        ⟨symbol, hSymbol, start, hMapped⟩
      have hStart : start = addr.offset := by
        rw [← hChosen.1, hMapped.addr]
        rfl
      subst hStart
      have hBase : addr.base = some glb.defaultCodeSpace := by
        rw [← hStored.sameSpace, hMapped.addr]
        rfl
      have hFunction : symbol.isFunction := by
        rcases hScope.owned _ entry hStored.mapped with
          ⟨owner, hOwner, hId, _, hKind⟩
        have hSame := hScope.distinct owner hOwner symbol
          hSymbol (hId.trans hMapped.sameId)
        have hEntryFunction := hChosen.2
        rw [Symbol.isFunction, hKind, hSame] at hEntryFunction
        exact hEntryFunction
      refine ⟨symbol, hSymbol, hFunction, entry, hMapped,
        hBase, ?_⟩
      simp only [hMapped.getFunction]
      rfl
  | none =>
      right
      refine ⟨rfl, ?_⟩
      intro hBase hEnd id name hHas
      rcases hHas with
        ⟨symbol, hSymbol, hFunction, rfl, _, other, hOnly,
          hOther⟩
      rcases hScope.functions symbol hSymbol hFunction
          (by simp) with
        ⟨start, entry, hMapped⟩
      have hSame : other = entry := by
        have hLists := hOnly.symm.trans hMapped.only
        simpa using hLists
      have hStart : start = addr.offset := by
        rw [← hOther, hSame, hMapped.addr]
        rfl
      subst hStart
      have hMem := hMapped.mem_entriesAt hScope hBase
        (BitVec.le_refl _) hEnd (SubsortType.subsort true)
      have hMiss := List.find?_eq_none.mp hFound entry hMem
      apply hMiss
      have hKind := hMapped.isFunction
      simp [hMapped.addr, Address.ofSpace, Symbol.isFunction,
        hKind]

end ScopeInternal

end LLDBGhidra

------------------------------------------------------------
-- Entry Lookups
------------------------------------------------------------

namespace LLDBGhidra

namespace ScopeInternal

variable {scope : ScopeInternal}
variable {addr usepoint : Address}
variable {entry : SymbolEntry}

theorem findAddr_spec
    (hFound : scope.findAddr addr usepoint = some entry) :
    entry ∈ scope.entriesAt addr (lastSubsort usepoint) ∧
      entry.addr.offset = addr.offset ∧
        entry.inUse usepoint := by
  have hMem := List.mem_of_find?_eq_some hFound
  have hChosen := List.find?_some hFound
  simp only [Bool.and_eq_true, decide_eq_true_eq] at hChosen
  exact ⟨List.mem_reverse.mp hMem, hChosen.1, hChosen.2⟩

/- The scan returns the best entry so far or a later one. -/
private theorem findContainerLoop_spec
    (stop : BitVec 64)
    (size : Int)
    (usepoint : Address)
    (best : Option SymbolEntry)
    (oldsize : Int)
    (entries : List SymbolEntry)
    (hFound :
      findContainerLoop stop size usepoint best oldsize
        entries = some entry) :
    best = some entry ∨
      entry ∈ entries ∧ stop ≤ entry.getLast ∧
        entry.inUse usepoint := by
  induction entries generalizing best oldsize with
  | nil => exact Or.inl hFound
  | cons head rest ih =>
      unfold findContainerLoop at hFound
      split at hFound
      next hBetter =>
        have hHead : ∀ candidate,
            some head = some candidate →
              candidate ∈ head :: rest ∧
                stop ≤ candidate.getLast ∧
                candidate.inUse usepoint := by
          intro candidate hSame
          cases hSame
          exact ⟨List.mem_cons_self, hBetter.1, hBetter.2.2⟩
        split at hFound
        · exact Or.inr (hHead entry hFound)
        · rcases ih _ _ hFound with hBest | hRest
          · exact Or.inr (hHead entry hBest)
          · exact Or.inr
              ⟨List.mem_cons_of_mem _ hRest.1, hRest.2⟩
      next =>
        rcases ih _ _ hFound with hBest | hRest
        · exact Or.inl hBest
        · exact Or.inr
            ⟨List.mem_cons_of_mem _ hRest.1, hRest.2⟩

theorem findContainer_spec
    {size : Int}
    (hFound :
      scope.findContainer addr size usepoint = some entry) :
    entry ∈ scope.entriesAt addr (lastSubsort usepoint) ∧
      addr.offset + BitVec.ofInt 64 size - 1 ≤
        entry.getLast ∧
        entry.inUse usepoint := by
  rcases findContainerLoop_spec _ _ _ _ _ _ hFound with
    hBest | hEntry
  · cases hBest
  · exact ⟨List.mem_reverse.mp hEntry.1, hEntry.2⟩

/- The scan keeps the best entry it has. -/
private theorem findContainerLoop_some
    (stop : BitVec 64)
    (size : Int)
    (usepoint : Address)
    (best : SymbolEntry)
    (oldsize : Int)
    (entries : List SymbolEntry) :
    findContainerLoop stop size usepoint (some best) oldsize
      entries ≠ none := by
  induction entries generalizing best oldsize with
  | nil => simp [findContainerLoop]
  | cons head rest ih =>
      unfold findContainerLoop
      split
      · split
        · simp
        · exact ih head _
      · exact ih best _

/- The scan misses no entry that contains the range. -/
private theorem findContainerLoop_none
    (stop : BitVec 64)
    (size : Int)
    (usepoint : Address)
    (entries : List SymbolEntry)
    (hMissing :
      findContainerLoop stop size usepoint none (-1)
        entries = none) :
    ∀ entry ∈ entries,
      stop ≤ entry.getLast → entry.inUse usepoint = false := by
  induction entries with
  | nil => simp
  | cons head rest ih =>
      unfold findContainerLoop at hMissing
      split at hMissing
      · split at hMissing
        · cases hMissing
        · exact absurd hMissing
            (findContainerLoop_some _ _ _ _ _ _)
      next hWorse =>
        intro entry hEntry hLast
        rcases List.mem_cons.mp hEntry with rfl | hRest
        · cases hUse : entry.inUse usepoint with
          | false => rfl
          | true =>
              exact absurd ⟨hLast, Or.inr rfl, hUse⟩ hWorse
        · exact ih hMissing entry hRest hLast

theorem findContainer_eq_none
    {size : Int}
    (hMissing :
      scope.findContainer addr size usepoint = none)
    (hEntry :
      entry ∈ scope.entriesAt addr (lastSubsort usepoint))
    (hLast : addr.offset + BitVec.ofInt 64 size - 1 ≤
      entry.getLast) :
    entry.inUse usepoint = false :=
  findContainerLoop_none _ _ _ _ hMissing entry
    (List.mem_reverse.mpr hEntry) hLast

/- The storage location of a function over the address. -/
theorem MappedAt.getMapEntry_eq
    {glb : Glb}
    {symbol : Symbol}
    {start : BitVec 64}
    (hMapped : MappedAt glb scope symbol start entry)
    {other : Symbol}
    (hId : other.symbolId = symbol.symbolId)
    (addr : Address) :
    scope.getMapEntry other addr =
      if addr.base = some glb.defaultCodeSpace ∧
          start ≤ addr.offset ∧
          int4 (addr.offset - start).toNat < entry.size then
        some entry
      else
        none := by
  unfold getMapEntry
  rw [hId, hMapped.only]
  simp only [List.find?_cons, List.find?_nil, hMapped.addr,
    Address.ofSpace]
  split
  next hChosen =>
    rw [if_pos]
    simpa [and_assoc] using hChosen
  next hChosen =>
    rw [if_neg]
    simpa [and_assoc] using hChosen

end ScopeInternal

end LLDBGhidra
