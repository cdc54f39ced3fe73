import LLDBGhidra.Decompiler.DatabaseProperty
import LLDBGhidra.Decompiler.GlobalContextView

/-
  The cache of the last context blob (`globalcontext.hh`,
  `globalcontext.cc`).

  Main declarations:
    * `ContextCache`
    * `ContextCache.getContext`
    * `ContextCache.setContextRange`
    * `ContextCache.Coherent`
    * `ContextCache.run_eq_runDirect`
-/

------------------------------------------------------------
-- The Cache
------------------------------------------------------------

namespace LLDBGhidra

namespace ContextInternal

/- The first offset of a blob that begins at a split point. -/
def firstOffset
    (spc : SpaceId)
    (before : Option AddressPoint) : BitVec 64 :=
  match before with
  | none => 0
  | some point =>
      if point.getSpace = WithBot.some (WithTop.some spc) then
        point.getOffset
      else
        0

/- The last offset of a blob before the next split point. -/
def lastOffset
    (highest : BitVec 64)
    (spc : SpaceId)
    (after : Option AddressPoint) : BitVec 64 :=
  match after with
  | none => highest
  | some point =>
      if point.getSpace = WithBot.some (WithTop.some spc) then
        point.getOffset - 1
      else
        highest

/-
  The blob of an offset, named by the split point where it
  begins, and its bounds within the space.
-/
def getContextBounds
    (highest : BitVec 64)
    (spc : SpaceId)
    (offset : BitVec 64)
    (context : ContextInternal) :
    Option AddressPoint × BitVec 64 × BitVec 64 :=
  let bounds :=
    context.database.bounds
      (AddressPoint.ofSpace spc offset.toNat)
  (bounds.1, firstOffset spc bounds.1,
    lastOffset highest spc bounds.2)

end ContextInternal

/-
  A blob is cached as a pointer: it is named by its split
  point, and read anew.
-/
structure ContextCache where
  allowset : Bool
  curspace : Option SpaceId
  first : BitVec 64
  last : BitVec 64
  context : Option AddressPoint
deriving DecidableEq

namespace ContextCache

/- The constructor; the bounds are set by the first query. -/
def new : ContextCache where
  allowset := true
  curspace := none
  first := 0
  last := 0
  context := none

/- The offset is one of the cached bounds. -/
def Holds
    (cache : ContextCache)
    (offset : BitVec 64) : Prop :=
  cache.first ≤ offset ∧ offset ≤ cache.last

instance
    (cache : ContextCache)
    (offset : BitVec 64) :
    Decidable (cache.Holds offset) :=
  inferInstanceAs (Decidable (_ ∧ _))

/- The blob of an offset of a space of the manager. -/
def getContext
    (manager : AddrSpaceManager)
    (spc : SpaceId)
    (offset : BitVec 64)
    (cache : ContextCache)
    (database : ContextInternal) :
    Except Halt (List (BitVec 32) × ContextCache) :=
  match manager.getSpace spc with
  | none => .error .undefined
  | some space =>
      let found :=
        if cache.curspace = some spc ∧ cache.Holds offset then
          cache
        else
          let bounds :=
            database.getContextBounds space.highest spc offset
          { allowset := cache.allowset
            curspace := some spc
            first := bounds.2.1
            last := bounds.2.2
            context := bounds.1 }
      .ok ((database.database.valueFrom found.context).array,
        found)

/- A cache without a space is not valid. -/
def invalidateIf
    (changed : Bool)
    (cache : ContextCache) : ContextCache :=
  if changed then { cache with curspace := none } else cache

/- The first `setContext`, up to the next change. -/
def setContext
    (addr : Address)
    (num : Nat)
    (mask value : BitVec 32)
    (cache : ContextCache)
    (database : ContextInternal) :
    Except Halt (ContextCache × ContextInternal) :=
  if ¬ cache.allowset then
    .ok (cache, database)
  else do
    let database ←
      database.setContextChangePoint addr.point num mask value
    return (cache.invalidateIf
      (addr.base = cache.curspace ∧ cache.Holds addr.offset),
      database)

/- The second `setContext`, over a range. -/
def setContextRange
    (addr1 addr2 : Address)
    (num : Nat)
    (mask value : BitVec 32)
    (cache : ContextCache)
    (database : ContextInternal) :
    Except Halt (ContextCache × ContextInternal) :=
  if ¬ cache.allowset then
    .ok (cache, database)
  else do
    let database ←
      database.setContextRegion addr1.point addr2.point num mask
        value
    return (cache.invalidateIf
      ((addr1.base = cache.curspace ∧
          cache.Holds addr1.offset) ∨
        cache.Holds addr2.offset ∨
        (addr1.offset ≤ cache.first ∧
          cache.first ≤ addr2.offset)),
      database)

def allowSet
    (val : Bool)
    (cache : ContextCache) : ContextCache :=
  { cache with allowset := val }

end ContextCache

end LLDBGhidra

------------------------------------------------------------
-- What Is Cached
------------------------------------------------------------

namespace LLDBGhidra

theorem Address.fits_point
    (addr : Address) :
    addr.point.Fits := by
  unfold Address.point AddressPoint.Fits
  cases addr.base with
  | none => exact addr.offset.isLt
  | some spc => exact addr.offset.isLt

namespace ContextInternal

variable {context context' : ContextInternal}
variable {num : Nat}
variable {mask value : BitVec 32}

/- All split points are places of addresses. -/
def SplitsFit
    (context : ContextInternal) : Prop :=
  ∀ start, context.database.IsSplit start → start.Fits

theorem isSplit_setContextChangePoint
    {addr : AddressPoint}
    (hSet :
      context.setContextChangePoint addr num mask value =
        .ok context')
    (start : AddressPoint) :
    context'.database.IsSplit start ↔
      start = addr ∨ context.database.IsSplit start := by
  unfold setContextChangePoint at hSet
  by_cases hWord : context.size ≤ num
  · rw [if_pos hWord] at hSet
    cases hSet
  · rw [if_neg hWord] at hSet
    cases hSet
    exact PartMap.isSplit_updateRange_iff.trans
      (isSplit_markChangePoint_iff context.database addr start)

theorem isSplit_setContextRegion
    {addr1 addr2 : AddressPoint}
    (hSet :
      context.setContextRegion addr1 addr2 num mask value =
        .ok context')
    (start : AddressPoint) :
    context'.database.IsSplit start ↔
      regionEnd addr2 = some start ∨ start = addr1 ∨
        context.database.IsSplit start := by
  unfold setContextRegion at hSet
  by_cases hWord : context.size ≤ num
  · rw [if_pos hWord] at hSet
    cases hSet
  rw [if_neg hWord] at hSet
  by_cases hBack : ¬ addr2.isInvalid ∧ addr2 < addr1
  · rw [if_pos hBack] at hSet
    cases hSet
  · rw [if_neg hBack] at hSet
    cases hSet
    exact PartMap.isSplit_paint_iff

end ContextInternal

namespace ContextCache

variable {cache : ContextCache}
variable {database database' : ContextInternal}
variable {spc : SpaceId}

/-
  All offsets of the bounds have the cached blob, and one
  begins at the lower bound unless it is that of the space.
-/
structure Valid
    (spc : SpaceId)
    (cache : ContextCache)
    (database : ContextInternal) : Prop where
  blob :
    ∀ offset, cache.Holds offset →
      database.database.startAt
          (AddressPoint.ofSpace spc offset.toNat) =
        cache.context
  bound :
    cache.first = 0 ∨
      database.database.IsSplit
        (AddressPoint.ofSpace spc cache.first.toNat)

/- The cache has nothing, or what is valid in the space. -/
def Coherent
    (spc : SpaceId)
    (cache : ContextCache)
    (database : ContextInternal) : Prop :=
  cache.curspace = none ∨
    cache.curspace = some spc ∧ cache.Valid spc database

/- The first offset comes after the start of the blob. -/
theorem le_of_firstOffset
    {start : AddressPoint}
    {offset other : BitVec 64}
    (hFits : start.Fits)
    (hLe : start ≤ AddressPoint.ofSpace spc offset.toNat)
    (hFrom :
      ContextInternal.firstOffset spc (some start) ≤ other) :
    start ≤ AddressPoint.ofSpace spc other.toNat := by
  unfold ContextInternal.firstOffset at hFrom
  by_cases hSpace :
      start.getSpace = WithBot.some (WithTop.some spc)
  · simp only [if_pos hSpace] at hFrom
    rw [AddressPoint.eq_ofSpace hFits hSpace]
    exact AddressPoint.ofSpace_le_iff.mpr
      (Or.inr ⟨rfl, BitVec.le_def.mp hFrom⟩)
  · exact AddressPoint.le_ofSpace_of_ne hSpace hLe

/- The last offset comes before the end of the blob. -/
theorem lt_of_lastOffset
    {bound : AddressPoint}
    {highest offset other : BitVec 64}
    (hFits : bound.Fits)
    (hLt : AddressPoint.ofSpace spc offset.toNat < bound)
    (hUpTo :
      other ≤
        ContextInternal.lastOffset highest spc (some bound)) :
    AddressPoint.ofSpace spc other.toNat < bound := by
  unfold ContextInternal.lastOffset at hUpTo
  by_cases hSpace :
      bound.getSpace = WithBot.some (WithTop.some spc)
  · simp only [if_pos hSpace] at hUpTo
    have hBound := AddressPoint.eq_ofSpace hFits hSpace
    rw [hBound] at hLt ⊢
    have hPositive : offset.toNat < bound.getOffset.toNat := by
      rcases AddressPoint.ofSpace_lt_iff.mp hLt with
        hBase | ⟨_, hOffset⟩
      · exact absurd hBase (lt_irrefl _)
      · exact hOffset
    have hLast := BitVec.le_def.mp hUpTo
    have hSmall := bound.getOffset.isLt
    have hOne : (1 : BitVec 64).toNat = 1 := rfl
    rw [BitVec.toNat_sub, hOne] at hLast
    apply AddressPoint.ofSpace_lt_iff.mpr
    refine Or.inr ⟨rfl, ?_⟩
    omega
  · exact AddressPoint.ofSpace_lt_of_ne hSpace hLt

/- A query of the database gives valid bounds. -/
theorem valid_getContextBounds
    (hFits : database.SplitsFit)
    (highest offset : BitVec 64)
    (allowset : Bool) :
    Valid spc
      { allowset := allowset
        curspace := some spc
        first :=
          (database.getContextBounds highest spc offset).2.1
        last :=
          (database.getContextBounds highest spc offset).2.2
        context :=
          (database.getContextBounds highest spc offset).1 }
      database where
  blob := by
    intro other hHolds
    apply PartMap.startAt_eq_of_bounds
    · intro start hStart
      rcases PartMap.startAt_eq_some_iff.mp hStart with
        ⟨hSplit, hLe, _⟩
      have hFrom := hHolds.1
      unfold ContextInternal.getContextBounds at hFrom
      simp only [Option.mem_def.mp hStart] at hFrom
      exact le_of_firstOffset (hFits start hSplit) hLe hFrom
    · intro bound hBound
      have hFound :
          database.database.findAfter
            (AddressPoint.ofSpace spc offset.toNat)
            (fun _ => true) = some bound := hBound
      have hSplit := PartMap.isSplit_of_findAfter hFound
      have hLt := PartMap.lt_of_findAfter hFound
      have hUpTo := hHolds.2
      unfold ContextInternal.getContextBounds at hUpTo
      simp only [Option.mem_def.mp hBound] at hUpTo
      exact lt_of_lastOffset (hFits bound hSplit) hLt hUpTo
  bound := by
    change ContextInternal.firstOffset spc
        (database.database.startAt
          (AddressPoint.ofSpace spc offset.toNat)) = 0 ∨
      database.database.IsSplit
        (AddressPoint.ofSpace spc
          (ContextInternal.firstOffset spc
            (database.database.startAt
              (AddressPoint.ofSpace spc
                offset.toNat))).toNat)
    cases hStart : database.database.startAt
        (AddressPoint.ofSpace spc offset.toNat) with
    | none => exact Or.inl rfl
    | some start =>
        have hSplit :=
          (PartMap.startAt_eq_some_iff.mp hStart).1
        unfold ContextInternal.firstOffset
        by_cases hSpace :
            start.getSpace = WithBot.some (WithTop.some spc)
        · right
          simp only [if_pos hSpace]
          rw [← AddressPoint.eq_ofSpace (hFits start hSplit)
            hSpace]
          exact hSplit
        · left
          simp only [if_neg hSpace]

/- Split points outside of the bounds leave them valid. -/
theorem Valid.of_isSplit
    (hValid : cache.Valid spc database)
    (hOld :
      ∀ start, database.database.IsSplit start →
        database'.database.IsSplit start)
    (hNew :
      ∀ start, database'.database.IsSplit start →
        database.database.IsSplit start ∨
          ∃ offset,
            start = AddressPoint.ofSpace spc
              (BitVec.toNat offset) ∧
            ¬ cache.Holds offset) :
    cache.Valid spc database' where
  blob := by
    intro offset hHolds
    rw [← hValid.blob offset hHolds]
    apply PartMap.startAt_eq_of_isSplit hOld
    intro start hStart hLe
    rcases hNew start hStart with hSplit | ⟨other, rfl, hNot⟩
    · exact ⟨start, hSplit, le_rfl, hLe⟩
    · have hFirst := BitVec.le_def.mp hHolds.1
      have hLast := BitVec.le_def.mp hHolds.2
      have hUpTo : other.toNat ≤ offset.toNat :=
        (AddressPoint.ofSpace_le_iff.mp hLe).resolve_left
          (fun hLt => absurd hLt (lt_irrefl _)) |>.2
      -- the new one is before the bounds
      have hBelow : other.toNat < cache.first.toNat := by
        by_contra hFrom
        apply hNot
        exact ⟨BitVec.le_def.mpr (Nat.not_lt.mp hFrom),
          BitVec.le_def.mpr (hUpTo.trans hLast)⟩
      rcases hValid.bound with hZero | hSplit
      · rw [hZero] at hBelow
        exact absurd hBelow (Nat.not_lt_zero _)
      · refine ⟨_, hSplit, ?_, ?_⟩
        · exact AddressPoint.ofSpace_le_iff.mpr
            (Or.inr ⟨rfl, hBelow.le⟩)
        · exact AddressPoint.ofSpace_le_iff.mpr
            (Or.inr ⟨rfl, hFirst⟩)
  bound := hValid.bound.imp_right (hOld _)

end ContextCache

end LLDBGhidra

------------------------------------------------------------
-- Runs through the Cache
------------------------------------------------------------

namespace LLDBGhidra

/-
  What a disassembler does with contexts.  A default value is
  set in the database behind the cache.
-/
inductive CacheCall where
| getContext :
    (spc : SpaceId) → (offset : BitVec 64) → CacheCall
| setContext :
    (addr : Address) → (num : Nat) →
      (mask value : BitVec 32) → CacheCall
| setContextRange :
    (addr1 addr2 : Address) → (num : Nat) →
      (mask value : BitVec 32) → CacheCall
| allowSet : (val : Bool) → CacheCall
| setVariableDefault :
    (nm : String) → (val : BitVec 32) → CacheCall
deriving DecidableEq

/- The answers so far, and a state. -/
abbrev Answered (σ : Type) :=
  List (List (BitVec 32)) × σ

namespace CacheCall

/- A call through the cache. -/
def run
    (manager : AddrSpaceManager)
    (state : Answered (ContextCache × ContextInternal))
    (call : CacheCall) :
    Except Halt (Answered (ContextCache × ContextInternal)) :=
  match state with
  | (answers, cache, database) =>
      match call with
      | .getContext spc offset => do
          let (buf, cache) ←
            cache.getContext manager spc offset database
          return (answers ++ [buf], cache, database)
      | .setContext addr num mask value => do
          let after ←
            cache.setContext addr num mask value database
          return (answers, after)
      | .setContextRange addr1 addr2 num mask value => do
          let after ←
            cache.setContextRange addr1 addr2 num mask value
              database
          return (answers, after)
      | .allowSet val =>
          .ok (answers, cache.allowSet val, database)
      | .setVariableDefault nm val => do
          let database ← database.setVariableDefault nm val
          return (answers, cache, database)

/- The same call to a database without a cache. -/
def runDirect
    (state : Answered (Bool × ContextInternal))
    (call : CacheCall) :
    Except Halt (Answered (Bool × ContextInternal)) :=
  match state with
  | (answers, allowset, database) =>
      match call with
      | .getContext spc offset =>
          .ok (answers ++
            [database.getContext
              (AddressPoint.ofSpace spc offset.toNat)],
            allowset, database)
      | .setContext addr num mask value =>
          if allowset then do
            let database ←
              database.setContextChangePoint addr.point num
                mask value
            return (answers, allowset, database)
          else
            .ok (answers, allowset, database)
      | .setContextRange addr1 addr2 num mask value =>
          if allowset then do
            let database ←
              database.setContextRegion addr1.point addr2.point
                num mask value
            return (answers, allowset, database)
          else
            .ok (answers, allowset, database)
      | .allowSet val => .ok (answers, val, database)
      | .setVariableDefault nm val => do
          let database ← database.setVariableDefault nm val
          return (answers, allowset, database)

/- The call is about one space; a range may have no end. -/
def InSpace
    (spc : SpaceId)
    (call : CacheCall) : Prop :=
  match call with
  | .getContext space _ => space = spc
  | .setContext addr _ _ _ => addr.base = some spc
  | .setContextRange addr1 addr2 _ _ _ =>
      addr1.base = some spc ∧
        (addr2.base = some spc ∨ addr2.base = none)
  | .allowSet _ => True
  | .setVariableDefault _ _ => True

end CacheCall

namespace ContextCache

variable {cache : ContextCache}
variable {database database' : ContextInternal}
variable {spc : SpaceId}

/- A query answers as the database, and leaves it cached. -/
theorem coherent_getContext
    {manager : AddrSpaceManager}
    (hSpace : (manager.getSpace spc).isSome)
    (hFits : database.SplitsFit)
    (hCoherent : cache.Coherent spc database)
    (offset : BitVec 64) :
    ∃ cache',
      cache.getContext manager spc offset database =
          .ok (database.getContext
            (AddressPoint.ofSpace spc offset.toNat), cache') ∧
        cache'.allowset = cache.allowset ∧
        cache'.Coherent spc database := by
  rcases Option.isSome_iff_exists.mp hSpace with
    ⟨space, hSome⟩
  unfold getContext ContextInternal.getContext
  simp only [hSome]
  by_cases hHit :
      cache.curspace = some spc ∧ cache.Holds offset
  · have hValid : cache.Valid spc database := by
      rcases hCoherent with hNone | ⟨_, hValid⟩
      · rw [hHit.1] at hNone
        cases hNone
      · exact hValid
    simp only [if_pos hHit]
    rw [← hValid.blob offset hHit.2, PartMap.valueFrom_startAt]
    exact ⟨cache, rfl, rfl, hCoherent⟩
  · have hBlob :
        database.database.valueFrom
            (database.getContextBounds space.highest spc
              offset).1 =
          database.database.getValue
            (AddressPoint.ofSpace spc offset.toNat) :=
      PartMap.valueFrom_startAt
    simp only [if_neg hHit, hBlob]
    exact ⟨_, rfl, rfl, Or.inr ⟨rfl,
      valid_getContextBounds hFits space.highest offset
        cache.allowset⟩⟩

theorem point_eq_ofSpace
    {addr : Address}
    (hBase : addr.base = some spc) :
    addr.point = AddressPoint.ofSpace spc addr.offset.toNat := by
  unfold Address.point
  rw [hBase]

/- The old split points and new ones at addresses. -/
structure SplitsAt
    (database database' : ContextInternal)
    (Points : Address → Prop) : Prop where
  old :
    ∀ start, database.database.IsSplit start →
      database'.database.IsSplit start
  new :
    ∀ start, database'.database.IsSplit start →
      database.database.IsSplit start ∨
        ∃ addr : Address, start = addr.point ∧ Points addr

variable {Points : Address → Prop}

theorem SplitsAt.splitsFit
    (hSplits : SplitsAt database database' Points)
    (hFits : database.SplitsFit) :
    database'.SplitsFit := by
  intro start hStart
  rcases hSplits.new start hStart with hOld | ⟨addr, rfl, _⟩
  · exact hFits start hOld
  · exact addr.fits_point

/- The bounds stay valid if no split point is among them. -/
theorem SplitsAt.coherent
    (hSplits : SplitsAt database database' Points)
    (hOutside :
      ∀ addr, Points addr →
        addr.base = some spc ∧
          (cache.curspace = some spc →
            ¬ cache.Holds addr.offset))
    (hCoherent : cache.Coherent spc database) :
    cache.Coherent spc database' := by
  rcases hCoherent with hNone | ⟨hSome, hValid⟩
  · exact Or.inl hNone
  · right
    refine ⟨hSome, hValid.of_isSplit hSplits.old ?_⟩
    intro start hStart
    rcases hSplits.new start hStart with
      hOld | ⟨addr, rfl, hPoint⟩
    · exact Or.inl hOld
    · rcases hOutside addr hPoint with ⟨hBase, hNot⟩
      exact Or.inr ⟨addr.offset, point_eq_ofSpace hBase,
        hNot hSome⟩

theorem splitsAt_setContextChangePoint
    {addr : Address}
    {num : Nat}
    {mask value : BitVec 32}
    (hSet :
      database.setContextChangePoint addr.point num mask
        value = .ok database') :
    SplitsAt database database' (fun point => point = addr) where
  old := by
    intro start hStart
    exact (ContextInternal.isSplit_setContextChangePoint hSet
      start).mpr (Or.inr hStart)
  new := by
    intro start hStart
    rcases (ContextInternal.isSplit_setContextChangePoint hSet
        start).mp hStart with hPoint | hOld
    · exact Or.inr ⟨addr, hPoint, rfl⟩
    · exact Or.inl hOld

theorem splitsAt_setContextRegion
    {addr1 addr2 : Address}
    {num : Nat}
    {mask value : BitVec 32}
    (hSet :
      database.setContextRegion addr1.point addr2.point num
        mask value = .ok database') :
    SplitsAt database database'
      (fun point =>
        point = addr1 ∨
          point = addr2 ∧ addr2.base ≠ none) where
  old := by
    intro start hStart
    exact (ContextInternal.isSplit_setContextRegion hSet
      start).mpr (Or.inr (Or.inr hStart))
  new := by
    intro start hStart
    rcases (ContextInternal.isSplit_setContextRegion hSet
        start).mp hStart with hEnd | hPoint | hOld
    · unfold ContextInternal.regionEnd at hEnd
      by_cases hInvalid : addr2.point.isInvalid = true
      · rw [if_pos hInvalid] at hEnd
        cases hEnd
      · rw [if_neg hInvalid, Option.some.injEq] at hEnd
        refine Or.inr ⟨addr2, hEnd.symm, Or.inr ⟨rfl, ?_⟩⟩
        intro hNone
        apply hInvalid
        unfold Address.point
        rw [hNone]
        rfl
    · exact Or.inr ⟨addr1, hPoint, Or.inl rfl⟩
    · exact Or.inl hOld

/- Both answer the same, and the cache is coherent. -/
inductive Agree
    (spc : SpaceId) :
    Except Halt (Answered (ContextCache × ContextInternal)) →
    Except Halt (Answered (Bool × ContextInternal)) → Prop where
| error : (halt : Halt) → Agree spc (.error halt) (.error halt)
| ok :
    (answers : List (List (BitVec 32))) →
    (cache : ContextCache) → (database : ContextInternal) →
    (fits : database.SplitsFit) →
    (coherent : cache.Coherent spc database) →
    Agree spc (.ok (answers, cache, database))
      (.ok (answers, cache.allowset, database))

theorem allowset_invalidateIf
    (changed : Bool) :
    (cache.invalidateIf changed).allowset = cache.allowset := by
  cases changed <;> rfl

/- A cache is dropped, or no new split point is within. -/
theorem SplitsAt.coherent_invalidateIf
    (hSplits : SplitsAt database database' Points)
    {changed : Bool}
    (hOutside :
      changed = false →
        ∀ addr, Points addr →
          addr.base = some spc ∧
            (cache.curspace = some spc →
              ¬ cache.Holds addr.offset))
    (hCoherent : cache.Coherent spc database) :
    (cache.invalidateIf changed).Coherent spc database' := by
  cases changed with
  | true => exact Or.inl rfl
  | false => exact hSplits.coherent (hOutside rfl) hCoherent

theorem agree_setContext
    (answers : List (List (BitVec 32)))
    (hFits : database.SplitsFit)
    (hCoherent : cache.Coherent spc database)
    {addr : Address}
    (hBase : addr.base = some spc)
    (num : Nat)
    (mask value : BitVec 32)
    (manager : AddrSpaceManager) :
    Agree spc
      ((CacheCall.setContext addr num mask value).run manager
        (answers, cache, database))
      ((CacheCall.setContext addr num mask value).runDirect
        (answers, cache.allowset, database)) := by
  rw [CacheCall.run, CacheCall.runDirect, setContext]
  by_cases hAllow : cache.allowset = true
  · rw [if_neg (not_not.mpr hAllow), if_pos hAllow]
    cases hSet : database.setContextChangePoint addr.point num
        mask value with
    | error halt => exact .error halt
    | ok database' =>
        have hSplits := splitsAt_setContextChangePoint hSet
        have hAfter :
            (cache.invalidateIf
              (addr.base = cache.curspace ∧
                cache.Holds addr.offset)).Coherent spc
              database' := by
          apply hSplits.coherent_invalidateIf _ hCoherent
          rintro hMiss _ rfl
          refine ⟨hBase, fun hSome hHolds => ?_⟩
          exact of_decide_eq_false hMiss
            ⟨hBase.trans hSome.symm, hHolds⟩
        have hAgree := Agree.ok answers _ database'
          (hSplits.splitsFit hFits) hAfter
        rw [allowset_invalidateIf] at hAgree
        exact hAgree
  · rw [if_pos hAllow, if_neg hAllow]
    exact .ok answers cache database hFits hCoherent

theorem agree_setContextRange
    (answers : List (List (BitVec 32)))
    (hFits : database.SplitsFit)
    (hCoherent : cache.Coherent spc database)
    {addr1 addr2 : Address}
    (hBase1 : addr1.base = some spc)
    (hBase2 : addr2.base = some spc ∨ addr2.base = none)
    (num : Nat)
    (mask value : BitVec 32)
    (manager : AddrSpaceManager) :
    Agree spc
      ((CacheCall.setContextRange addr1 addr2 num mask
        value).run manager (answers, cache, database))
      ((CacheCall.setContextRange addr1 addr2 num mask
        value).runDirect
          (answers, cache.allowset, database)) := by
  rw [CacheCall.run, CacheCall.runDirect, setContextRange]
  by_cases hAllow : cache.allowset = true
  · rw [if_neg (not_not.mpr hAllow), if_pos hAllow]
    cases hSet : database.setContextRegion addr1.point
        addr2.point num mask value with
    | error halt => exact .error halt
    | ok database' =>
        have hSplits := splitsAt_setContextRegion hSet
        have hAfter :
            (cache.invalidateIf
              ((addr1.base = cache.curspace ∧
                  cache.Holds addr1.offset) ∨
                cache.Holds addr2.offset ∨
                (addr1.offset ≤ cache.first ∧
                  cache.first ≤ addr2.offset))).Coherent spc
              database' := by
          apply hSplits.coherent_invalidateIf _ hCoherent
          intro hMiss addr hPoint
          have hNot := of_decide_eq_false hMiss
          rcases hPoint with rfl | ⟨rfl, hSome⟩
          · exact ⟨hBase1, fun hSpace hHolds =>
              hNot (Or.inl
                ⟨hBase1.trans hSpace.symm, hHolds⟩)⟩
          · exact ⟨hBase2.resolve_right hSome,
              fun _ hHolds =>
                hNot (Or.inr (Or.inl hHolds))⟩
        have hAgree := Agree.ok answers _ database'
          (hSplits.splitsFit hFits) hAfter
        rw [allowset_invalidateIf] at hAgree
        exact hAgree
  · rw [if_pos hAllow, if_neg hAllow]
    exact .ok answers cache database hFits hCoherent

/- A default is set in place, without a new split point. -/
theorem agree_setVariableDefault
    (answers : List (List (BitVec 32)))
    (hFits : database.SplitsFit)
    (hCoherent : cache.Coherent spc database)
    (nm : String)
    (val : BitVec 32)
    (manager : AddrSpaceManager) :
    Agree spc
      ((CacheCall.setVariableDefault nm val).run manager
        (answers, cache, database))
      ((CacheCall.setVariableDefault nm val).runDirect
        (answers, cache.allowset, database)) := by
  rw [CacheCall.run, CacheCall.runDirect,
    ContextInternal.setVariableDefault]
  cases database.getVariable nm with
  | error halt => exact .error halt
  | ok var =>
      apply Agree.ok
      · exact hFits
      · rcases hCoherent with hNone | ⟨hSome, hValid⟩
        · exact Or.inl hNone
        · exact Or.inr ⟨hSome, hValid.of_isSplit
            (fun _ hOld => hOld) (fun _ hNew => Or.inl hNew)⟩

/- A call to a coherent cache is one to the database. -/
theorem agree_call
    {manager : AddrSpaceManager}
    (hSpace : (manager.getSpace spc).isSome)
    (answers : List (List (BitVec 32)))
    (hFits : database.SplitsFit)
    (hCoherent : cache.Coherent spc database)
    {call : CacheCall}
    (hCall : call.InSpace spc) :
    Agree spc
      (call.run manager (answers, cache, database))
      (call.runDirect
        (answers, cache.allowset, database)) := by
  cases call with
  | getContext space offset =>
      rcases hCall with rfl
      rcases coherent_getContext hSpace hFits hCoherent
          offset with ⟨cache', hGet, hAllow, hAfter⟩
      have hAgree := Agree.ok
        (answers ++
          [database.getContext
            (AddressPoint.ofSpace space offset.toNat)])
        cache' database hFits hAfter
      rw [hAllow] at hAgree
      rw [CacheCall.run, CacheCall.runDirect, hGet]
      exact hAgree
  | setContext addr num mask value =>
      exact agree_setContext answers hFits hCoherent hCall num
        mask value manager
  | setContextRange addr1 addr2 num mask value =>
      exact agree_setContextRange answers hFits hCoherent
        hCall.1 hCall.2 num mask value manager
  | allowSet val =>
      have hAfter :
          (cache.allowSet val).Coherent spc database := by
        rcases hCoherent with hNone | ⟨hSome, hValid⟩
        · exact Or.inl hNone
        · exact Or.inr ⟨hSome, hValid.blob, hValid.bound⟩
      exact Agree.ok answers (cache.allowSet val) database
        hFits hAfter
  | setVariableDefault nm val =>
      exact agree_setVariableDefault answers hFits hCoherent nm
        val manager

theorem agree_run
    {manager : AddrSpaceManager}
    (hSpace : (manager.getSpace spc).isSome)
    (calls : List CacheCall)
    (hCalls : ∀ call ∈ calls, call.InSpace spc)
    (answers : List (List (BitVec 32)))
    (hFits : database.SplitsFit)
    (hCoherent : cache.Coherent spc database) :
    Agree spc
      (calls.foldlM (CacheCall.run manager)
        (answers, cache, database))
      (calls.foldlM CacheCall.runDirect
        (answers, cache.allowset, database)) := by
  induction calls generalizing answers cache database with
  | nil => exact Agree.ok answers cache database hFits hCoherent
  | cons call rest ih =>
      have hStep := agree_call hSpace answers hFits hCoherent
        (hCalls call List.mem_cons_self)
      rw [List.foldlM_cons, List.foldlM_cons]
      generalize hRun : call.run manager
        (answers, cache, database) = cached at hStep ⊢
      generalize hDirect : call.runDirect
        (answers, cache.allowset, database) = direct
        at hStep ⊢
      cases hStep with
      | error halt => exact .error halt
      | ok answers' cache' database' hFits' hCoherent' =>
          exact ih (fun other hOther =>
            hCalls other (List.mem_cons_of_mem _ hOther))
            answers' hFits' hCoherent'

/-
  As long as all addresses are in one space, the answers of a
  new cache, and what the database is then, are those of the
  database without it.  A change that goes on into a later
  space would not be seen there.
-/
theorem run_eq_runDirect
    (manager : AddrSpaceManager)
    (spc : SpaceId)
    (calls : List CacheCall)
    (database : ContextInternal)
    (hSpace : (manager.getSpace spc).isSome)
    (hFits : database.SplitsFit)
    (hCalls : ∀ call ∈ calls, call.InSpace spc) :
    (calls.foldlM (CacheCall.run manager)
        ([], ContextCache.new, database)).map
          (fun state => (state.1, state.2.2)) =
      (calls.foldlM CacheCall.runDirect
        ([], true, database)).map
          (fun state => (state.1, state.2.2)) := by
  have hAgree := agree_run hSpace calls hCalls [] hFits
    (@Or.inl (ContextCache.new.curspace = none) _ rfl)
  change Agree spc _
    (calls.foldlM CacheCall.runDirect ([], true, database))
    at hAgree
  generalize calls.foldlM (CacheCall.run manager)
    ([], ContextCache.new, database) = cached at hAgree ⊢
  generalize calls.foldlM CacheCall.runDirect
    ([], true, database) = direct at hAgree ⊢
  cases hAgree with
  | error halt => rfl
  | ok answers cache after _ _ => rfl

/- Thumb code is found while instructions are decoded. -/
def thumbQueries : List CacheCall :=
  [.getContext 1 0x1ffc,
    .setContext (.ofSpace 1 0x2000) 0 0x80000000 0x80000000,
    .getContext 1 0x1ffe,
    .getContext 1 0x2000]

theorem thumbQueries_inSpace :
    ∀ call ∈ thumbQueries, call.InSpace 1 := by
  intro call hCall
  rcases List.mem_cons.mp hCall with rfl | hCall
  · rfl
  rcases List.mem_cons.mp hCall with rfl | hCall
  · rfl
  rcases List.mem_cons.mp hCall with rfl | hCall
  · rfl
  · rcases List.mem_singleton.mp hCall with rfl
    rfl

theorem thumbContext_splitsFit :
    ContextInternal.thumbContext.SplitsFit := by
  intro start hStart
  rcases hStart with ⟨entry, hEntry, _⟩
  exact (List.not_mem_nil hEntry).elim

theorem run_eq_runDirect_thumbQueries :
    ∃ database,
      (thumbQueries.foldlM (CacheCall.run Database.byteSpaces)
          ([], ContextCache.new,
            ContextInternal.thumbContext)).map
            (fun state => (state.1, state.2.2)) =
        .ok ([[0], [0], [0x80000000]], database) :=
  ⟨_, (run_eq_runDirect Database.byteSpaces 1 thumbQueries
    ContextInternal.thumbContext rfl thumbContext_splitsFit
    thumbQueries_inSpace).trans rfl⟩

end ContextCache

end LLDBGhidra
