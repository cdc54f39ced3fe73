import LLDBGhidra.Decompiler.AddressOrder

/-
  The boolean properties of memory that the symbol database
  keeps apart from its symbols (`database.hh`, `database.cc`).

  Main declarations:
    * `Flagbase`
    * `Database.setPropertyRange`
    * `Database.clearPropertyRange`
    * `Database.getProperty_run`
-/

------------------------------------------------------------
-- Properties of Ranges
------------------------------------------------------------

namespace LLDBGhidra

/- The field `flagbase` of the database. -/
abbrev Flagbase :=
  PartMap AddressPoint (BitVec 32)

namespace Database

/- No address has a property. -/
def newFlagbase : Flagbase :=
  PartMap.constant 0

def getProperty
    (flagbase : Flagbase)
    (addr : Address) : BitVec 32 :=
  flagbase.getValue addr.point

/-
  Change the flags of a range.  The loop runs from the split
  point at its start to the one at its open end, and past all
  split points if they are in the other order.
-/
def changePropertyRange
    (manager : AddrSpaceManager)
    (change : BitVec 32 → BitVec 32)
    (range : Range)
    (flagbase : Flagbase) : Except Halt Flagbase :=
  match range.getLastAddrOpen manager with
  | none => .error .undefined
  | some addr2 =>
      if addr2.isInvalid then
        .ok (flagbase.paint id range.getFirstAddr none change)
      else if addr2 < range.getFirstAddr then
        .error .undefined
      else
        .ok (flagbase.paint id range.getFirstAddr (some addr2)
          change)

def setPropertyRange
    (manager : AddrSpaceManager)
    (flags : BitVec 32)
    (range : Range)
    (flagbase : Flagbase) : Except Halt Flagbase :=
  changePropertyRange manager (fun old => old ||| flags) range
    flagbase

def clearPropertyRange
    (manager : AddrSpaceManager)
    (flags : BitVec 32)
    (range : Range)
    (flagbase : Flagbase) : Except Halt Flagbase :=
  changePropertyRange manager (fun old => old &&& ~~~flags)
    range flagbase

end Database

end LLDBGhidra

------------------------------------------------------------
-- What a Change Does
------------------------------------------------------------

namespace LLDBGhidra

/- Is the offset of the space in the range? -/
def Range.Covers
    (range : Range)
    (index : SpaceId)
    (offset : BitVec 64) : Prop :=
  index = range.spc ∧ range.first ≤ offset ∧
    offset ≤ range.last

instance
    (range : Range)
    (index : SpaceId)
    (offset : BitVec 64) :
    Decidable (range.Covers index offset) :=
  inferInstanceAs (Decidable (_ ∧ _ ∧ _))

namespace Database

variable {manager : AddrSpaceManager}

/- The flags change at the addresses of the range only. -/
theorem exists_changePropertyRange
    (change : BitVec 32 → BitVec 32)
    {range : Range}
    (hRange : range.InSpace manager)
    (flagbase : Flagbase) :
    ∃ flagbase',
      changePropertyRange manager change range flagbase =
          .ok flagbase' ∧
        ∀ index offset, manager.HasOffset index offset →
          getProperty flagbase' (.ofSpace index offset) =
            if range.Covers index offset then
              change
                (getProperty flagbase (.ofSpace index offset))
            else
              getProperty flagbase
                (.ofSpace index offset) := by
  rcases Range.exists_openEnd hRange with ⟨last, hLast, hEnd⟩
  have hOrder : ¬ last < range.getFirstAddr :=
    not_lt.mpr hEnd.after.le
  refine ⟨flagbase.paint id range.getFirstAddr (some last)
    change, ?_, ?_⟩
  · unfold changePropertyRange
    simp only [hLast, hEnd.valid, hOrder, if_false,
      Bool.false_eq_true]
  · intro index offset hOffset
    have hWindow := hEnd.inWindow_iff hOffset
    unfold getProperty
    rw [PartMap.getValue_paint, Address.point_ofSpace]
    by_cases hIn : range.Covers index offset
    · rw [if_pos hIn, if_pos (hWindow.mpr hIn)]
    · rw [if_neg hIn,
        if_neg (fun hInside => hIn (hWindow.mp hInside))]

/- A call that sets or clears flags of a range. -/
inductive PropertyCall where
| set : (flags : BitVec 32) → (range : Range) → PropertyCall
| clear : (flags : BitVec 32) → (range : Range) → PropertyCall
deriving DecidableEq, Repr

namespace PropertyCall

def range
    (call : PropertyCall) : Range :=
  match call with
  | .set _ range => range
  | .clear _ range => range

/- What the call does to the flags of its range. -/
def change
    (call : PropertyCall)
    (old : BitVec 32) : BitVec 32 :=
  match call with
  | .set flags _ => old ||| flags
  | .clear flags _ => old &&& ~~~flags

def run
    (manager : AddrSpaceManager)
    (call : PropertyCall)
    (flagbase : Flagbase) : Except Halt Flagbase :=
  match call with
  | .set flags range =>
      setPropertyRange manager flags range flagbase
  | .clear flags range =>
      clearPropertyRange manager flags range flagbase

theorem run_eq
    (call : PropertyCall)
    (flagbase : Flagbase) :
    call.run manager flagbase =
      changePropertyRange manager call.change call.range
        flagbase := by
  cases call <;> rfl

/- The flags of an address after the calls that cover it. -/
def flagsAfter
    (calls : List PropertyCall)
    (index : SpaceId)
    (offset : BitVec 64)
    (old : BitVec 32) : BitVec 32 :=
  calls.foldl
    (fun flags call =>
      if call.range.Covers index offset then
        call.change flags
      else
        flags)
    old

end PropertyCall

/- Setting the same flags again changes nothing. -/
theorem PropertyCall.flagsAfter_set
    (flags : BitVec 32)
    (ranges : List Range)
    (index : SpaceId)
    (offset : BitVec 64)
    (old : BitVec 32) :
    flagsAfter (ranges.map (.set flags)) index offset old =
      if ∃ range ∈ ranges, range.Covers index offset then
        old ||| flags
      else
        old := by
  induction ranges generalizing old with
  | nil =>
      have hNone : ¬ ∃ range ∈ ([] : List Range),
          range.Covers index offset := by
        rintro ⟨range, hRange, _⟩
        cases hRange
      rw [if_neg hNone]
      rfl
  | cons first rest ih =>
      have hRest := ih (if first.Covers index offset then
        old ||| flags else old)
      change flagsAfter (rest.map (.set flags)) index offset
        (if first.Covers index offset then old ||| flags
          else old) = _
      rw [hRest]
      by_cases hFirst : first.Covers index offset
      · have hSome : ∃ range ∈ first :: rest,
            range.Covers index offset :=
          ⟨first, List.mem_cons_self, hFirst⟩
        rw [if_pos hFirst, if_pos hSome, BitVec.or_assoc,
          BitVec.or_self]
        exact ite_self _
      · have hIff :
            (∃ range ∈ first :: rest,
              range.Covers index offset) ↔
              ∃ range ∈ rest, range.Covers index offset := by
          constructor
          · rintro ⟨range, hRange, hCovers⟩
            rcases List.mem_cons.mp hRange with rfl | hRange
            · exact absurd hCovers hFirst
            · exact ⟨range, hRange, hCovers⟩
          · rintro ⟨range, hRange, hCovers⟩
            exact ⟨range, List.mem_cons_of_mem _ hRange,
              hCovers⟩
        rw [if_neg hFirst]
        simp only [hIff]

/- Every address has the flags of its own calls, in order. -/
theorem getProperty_run
    (manager : AddrSpaceManager)
    (calls : List PropertyCall)
    (flagbase : Flagbase)
    (hRanges : ∀ call ∈ calls, call.range.InSpace manager) :
    ∃ flagbase',
      calls.foldlM
          (fun flagbase call => call.run manager flagbase)
          flagbase = .ok flagbase' ∧
        ∀ index offset, manager.HasOffset index offset →
          getProperty flagbase' (.ofSpace index offset) =
            PropertyCall.flagsAfter calls index offset
              (getProperty flagbase
                (.ofSpace index offset)) := by
  induction calls generalizing flagbase with
  | nil => exact ⟨flagbase, rfl, fun _ _ _ => rfl⟩
  | cons call rest ih =>
      rcases exists_changePropertyRange call.change
          (hRanges call List.mem_cons_self) flagbase with
        ⟨between, hCall, hBetween⟩
      rcases ih between (fun other hOther =>
          hRanges other (List.mem_cons_of_mem _ hOther)) with
        ⟨after, hRest, hAfter⟩
      refine ⟨after, ?_, ?_⟩
      · rw [List.foldlM_cons, PropertyCall.run_eq, hCall]
        exact hRest
      · intro index offset hOffset
        rw [hAfter index offset hOffset,
          hBetween index offset hOffset]
        rfl

/- Two spaces of bytes with 64-bit addresses. -/
def byteSpaces : AddrSpaceManager :=
  { AddrSpaceManager.empty with
    baselist :=
      [none,
        some (AddrSpace.build .processor "ram" false 8 1
          bytewise_small 1 1),
        some (AddrSpace.build .processor "data" false 8 1
          bytewise_small 2 1)] }

theorem byteSpaces_ram :
    byteSpaces.getSpace 1 =
      some (AddrSpace.build .processor "ram" false 8 1
        bytewise_small 1 1) := by
  rfl

theorem byteSpaces_hasOffset
    (offset : BitVec 64) :
    byteSpaces.HasOffset 1 offset := by
  refine ⟨_, byteSpaces_ram, ?_⟩
  have hHighest : calcScaleMask 8 1 = BitVec.allOnes 64 := by
    decide
  change offset ≤ calcScaleMask 8 1
  rw [hHighest, BitVec.le_def, BitVec.toNat_allOnes]
  exact Nat.le_pred_of_lt offset.isLt

/- Mark all memory from an address on, but for a page. -/
def markAround : List PropertyCall :=
  [.set 0x2000 ⟨1, 0x1000, 0xffffffffffffffff⟩,
    .clear 0x2000 ⟨1, 0x3000, 0x3fff⟩]

theorem markAround_inSpace :
    ∀ call ∈ markAround, call.range.InSpace byteSpaces := by
  intro call hCall
  rcases List.mem_cons.mp hCall with rfl | hCall
  · exact ⟨by decide, byteSpaces_hasOffset _⟩
  · rcases List.mem_singleton.mp hCall with rfl
    exact ⟨by decide, byteSpaces_hasOffset _⟩

theorem getProperty_run_markAround :
    ∃ flagbase,
      markAround.foldlM
          (fun flagbase call => call.run byteSpaces flagbase)
          newFlagbase = .ok flagbase ∧
        getProperty flagbase (.ofSpace 1 0x2fff) = 0x2000 ∧
        getProperty flagbase (.ofSpace 1 0x3000) = 0 ∧
        getProperty flagbase
          (.ofSpace 1 0xffffffffffffffff) = 0x2000 := by
  rcases getProperty_run byteSpaces markAround newFlagbase
      markAround_inSpace with
    ⟨flagbase, hRun, hAfter⟩
  exact ⟨flagbase, hRun,
    hAfter 1 0x2fff (byteSpaces_hasOffset _),
    hAfter 1 0x3000 (byteSpaces_hasOffset _),
    hAfter 1 0xffffffffffffffff (byteSpaces_hasOffset _)⟩

end Database

end LLDBGhidra
