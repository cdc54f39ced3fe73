import LLDBGhidra.Decompiler.BitFunctions
import LLDBGhidra.Decompiler.DatabaseProperty
import LLDBGhidra.Decompiler.GlobalContext

/-
  Registers that are known to have a value in a range of code
  (`globalcontext.hh`, `globalcontext.cc`).

  Main declarations:
    * `ContextInternal.decodeTrackedSet`
    * `ContextInternal.getTrackedSet_run`
    * `ContextInternal.getTrackedValue`
    * `ContextInternal.getTrackedValue_exact_iff`
-/

------------------------------------------------------------
-- Tracked Sets of Ranges
------------------------------------------------------------

namespace LLDBGhidra

/- A range and its registers, as in `<tracked_set>`. -/
structure TrackedRange where
  range : Range
  vec : TrackedSet
deriving DecidableEq

namespace ContextInternal

/- The registers of a range, in place of those before. -/
def decodeTrackedSet
    (manager : AddrSpaceManager)
    (context : ContextInternal)
    (tracked : TrackedRange) : Except Halt ContextInternal :=
  match tracked.range.getLastAddrOpen manager with
  | none => .error .undefined
  | some addr2 => do
      let addr1 := tracked.range.getFirstAddr
      let context ← context.createSet addr1 addr2
      return { context with
        trackbase :=
          context.trackbase.updateAt addr1
            (fun _ => tracked.vec) }

/- The last set whose range has the address. -/
def trackedAfter
    (sets : List TrackedRange)
    (index : SpaceId)
    (offset : BitVec 64)
    (old : TrackedSet) : TrackedSet :=
  sets.foldl
    (fun vec tracked =>
      if tracked.range.Covers index offset then
        tracked.vec
      else
        vec)
    old

variable {manager : AddrSpaceManager}

theorem exists_decodeTrackedSet
    (context : ContextInternal)
    {tracked : TrackedRange}
    (hRange : tracked.range.InSpace manager) :
    ∃ context',
      context.decodeTrackedSet manager tracked = .ok context' ∧
        ∀ index offset, manager.HasOffset index offset →
          context'.getTrackedSet
              (AddressPoint.ofSpace index offset.toNat) =
            if tracked.range.Covers index offset then
              tracked.vec
            else
              context.getTrackedSet
                (AddressPoint.ofSpace index offset.toNat) := by
  rcases Range.exists_openEnd hRange with ⟨last, hLast, hEnd⟩
  have hForward : ¬ last ≤ tracked.range.getFirstAddr :=
    not_le.mpr hEnd.after
  unfold decodeTrackedSet createSet
  simp only [hLast, if_neg hForward]
  refine ⟨_, rfl, ?_⟩
  intro index offset hOffset
  have hStart :
      (context.trackbase.clearRange id
          tracked.range.getFirstAddr last).startAt
            (AddressPoint.ofSpace index offset.toNat) =
          some tracked.range.getFirstAddr ↔
        tracked.range.Covers index offset :=
    (PartMap.startAt_clearRange_iff hEnd.after).trans
      (PartMap.inWindow_some_iff.symm.trans
        (hEnd.inWindow_iff hOffset))
  unfold getTrackedSet
  rw [PartMap.getValue_updateAt, PartMap.startAt_updateAt]
  by_cases hCovers : tracked.range.Covers index offset
  · rw [if_pos (hStart.mpr hCovers), if_pos hCovers]
  · have hOutside :=
      mt (fun hIn => hStart.mp
        ((PartMap.startAt_clearRange_iff hEnd.after).mpr hIn))
        hCovers
    rw [if_neg (mt hStart.mp hCovers), if_neg hCovers,
      PartMap.getValue_updateAt, if_neg (mt hStart.mp hCovers)]
    exact (PartMap.getValue_clearRange context.trackbase
      hEnd.after _).trans (if_neg hOutside)

/- The registers of an address are those of the last range. -/
theorem getTrackedSet_run
    (manager : AddrSpaceManager)
    (sets : List TrackedRange)
    (context : ContextInternal)
    (hRanges : ∀ tracked ∈ sets, tracked.range.InSpace manager) :
    ∃ context',
      sets.foldlM (decodeTrackedSet manager) context =
          .ok context' ∧
        ∀ index offset, manager.HasOffset index offset →
          context'.getTrackedSet
              (AddressPoint.ofSpace index offset.toNat) =
            trackedAfter sets index offset
              (context.getTrackedSet
                (AddressPoint.ofSpace index
                  offset.toNat)) := by
  induction sets generalizing context with
  | nil => exact ⟨context, rfl, fun _ _ _ => rfl⟩
  | cons tracked rest ih =>
      rcases exists_decodeTrackedSet context
          (hRanges tracked List.mem_cons_self) with
        ⟨between, hSet, hBetween⟩
      rcases ih between (fun other hOther =>
          hRanges other (List.mem_cons_of_mem _ hOther)) with
        ⟨after, hRest, hAfter⟩
      refine ⟨after, ?_, ?_⟩
      · rw [List.foldlM_cons, hSet]
        exact hRest
      · intro index offset hOffset
        rw [hAfter index offset hOffset,
          hBetween index offset hOffset]
        rfl

/- The direction flag, but for code that sets it. -/
def flagSets : List TrackedRange :=
  [⟨⟨1, 0, 0xffffffffffffffff⟩, [⟨⟨2, 0x20a, 1⟩, 0⟩]⟩,
    ⟨⟨1, 0x1000, 0x1fff⟩, [⟨⟨2, 0x20a, 1⟩, 1⟩]⟩]

theorem flagSets_inSpace :
    ∀ tracked ∈ flagSets,
      tracked.range.InSpace Database.byteSpaces := by
  intro tracked hTracked
  rcases List.mem_cons.mp hTracked with rfl | hTracked
  · exact ⟨by decide, Database.byteSpaces_hasOffset _⟩
  · rcases List.mem_singleton.mp hTracked with rfl
    exact ⟨by decide, Database.byteSpaces_hasOffset _⟩

theorem getTrackedSet_run_flagSets :
    ∃ context,
      flagSets.foldlM (decodeTrackedSet Database.byteSpaces)
          new = .ok context ∧
        context.getTrackedSet
            (AddressPoint.ofSpace 1 0x1fff) =
          [⟨⟨2, 0x20a, 1⟩, 1⟩] ∧
        context.getTrackedSet
            (AddressPoint.ofSpace 1 0x2000) =
          [⟨⟨2, 0x20a, 1⟩, 0⟩] := by
  rcases getTrackedSet_run Database.byteSpaces flagSets new
      flagSets_inSpace with
    ⟨context, hRun, hAfter⟩
  exact ⟨context, hRun,
    hAfter 1 0x1fff (Database.byteSpaces_hasOffset _),
    hAfter 1 0x2000 (Database.byteSpaces_hasOffset _)⟩

end ContextInternal

end LLDBGhidra

------------------------------------------------------------
-- Parts of a Tracked Register
------------------------------------------------------------

namespace LLDBGhidra

/- The offset of the last byte. -/
def VarnodeData.endOffset
    (loc : VarnodeData) : BitVec 64 :=
  loc.offset + loc.size.setWidth 64 - 1

namespace TrackedContext

/- The register has all bytes of the location. -/
def contains
    (mem : VarnodeData)
    (tcont : TrackedContext) : Bool :=
  tcont.loc.space = mem.space &&
    tcont.loc.offset ≤ mem.offset &&
    mem.endOffset ≤ tcont.loc.endOffset

/- How far the value is shifted to the location. -/
def shiftTo
    (bigEndian : Bool)
    (mem : VarnodeData)
    (tcont : TrackedContext) : BitVec 64 :=
  if bigEndian then
    if mem.endOffset ≠ tcont.loc.endOffset then
      8 * (tcont.loc.endOffset - mem.offset)
    else
      0
  else
    if mem.offset ≠ tcont.loc.offset then
      8 * (mem.offset - tcont.loc.offset)
    else
      0

/- The value of the location; a shift has to be below 64. -/
def trim
    (bigEndian : Bool)
    (mem : VarnodeData)
    (tcont : TrackedContext) : Except Halt (BitVec 64) :=
  let shift := tcont.shiftTo bigEndian mem
  if 64 ≤ shift.toNat then
    .error .undefined
  else
    .ok ((tcont.val >>> shift.toNat) &&&
      calcMask mem.size.toNat)

end TrackedContext

/- The value of a location from the first register around it. -/
def ContextInternal.getTrackedValue
    (manager : AddrSpaceManager)
    (mem : VarnodeData)
    (point : AddressPoint)
    (context : ContextInternal) : Except Halt (BitVec 64) :=
  match (context.getTrackedSet point).find?
      (TrackedContext.contains mem) with
  | none => .ok 0
  | some tcont =>
      match manager.getSpace tcont.loc.space with
      | none => .error .undefined
      | some space => tcont.trim space.bigEndian mem

/- A byte of a value in memory, from its first one on. -/
def byteOf
    (bigEndian : Bool)
    (size : Nat)
    (val : BitVec 64)
    (index : Nat) : BitVec 8 :=
  if bigEndian then
    (val >>> (8 * (size - 1 - index))).setWidth 8
  else
    (val >>> (8 * index)).setWidth 8

/- The location is a part of a register of a machine word. -/
structure VarnodeData.PartOf
    (mem loc : VarnodeData) : Prop where
  space : loc.space = mem.space
  nonempty : 0 < mem.size.toNat
  word : loc.size.toNat ≤ 8
  first : loc.offset.toNat ≤ mem.offset.toNat
  last :
    mem.offset.toNat + mem.size.toNat ≤
      loc.offset.toNat + loc.size.toNat
  fits : loc.offset.toNat + loc.size.toNat ≤ 2 ^ 64

namespace TrackedContext

variable {loc mem : VarnodeData}

theorem toNat_endOffset
    {loc : VarnodeData}
    (hNonempty : 0 < loc.size.toNat)
    (hFits : loc.offset.toNat + loc.size.toNat ≤ 2 ^ 64) :
    loc.endOffset.toNat =
      loc.offset.toNat + loc.size.toNat - 1 := by
  unfold VarnodeData.endOffset
  have hSize := loc.size.isLt
  have hOne : (1 : BitVec 64).toNat = 1 := rfl
  rw [BitVec.toNat_sub, BitVec.toNat_add,
    BitVec.toNat_setWidth, hOne]
  omega

/- A part that is not shifted past its bytes. -/
theorem shiftTo_little
    (hPart : mem.PartOf loc)
    (val : BitVec 64) :
    (shiftTo false mem ⟨loc, val⟩).toNat =
      8 * (mem.offset.toNat - loc.offset.toNat) := by
  have hWord := hPart.word
  have hFirst := hPart.first
  have hLast := hPart.last
  have hNonempty := hPart.nonempty
  unfold shiftTo
  simp only [Bool.false_eq_true, if_false]
  by_cases hSame : mem.offset = loc.offset
  · rw [if_neg (not_not.mpr hSame), hSame]
    simp
  · rw [if_pos hSame, BitVec.toNat_mul, BitVec.toNat_sub]
    have hEight : (8 : BitVec 64).toNat = 8 := rfl
    rw [hEight]
    omega

theorem shiftTo_big
    (hPart : mem.PartOf loc)
    (val : BitVec 64) :
    (shiftTo true mem ⟨loc, val⟩).toNat =
      if mem.offset.toNat + mem.size.toNat =
          loc.offset.toNat + loc.size.toNat then
        0
      else
        8 * (loc.offset.toNat + loc.size.toNat - 1 -
          mem.offset.toNat) := by
  have hWord := hPart.word
  have hFirst := hPart.first
  have hLast := hPart.last
  have hNonempty := hPart.nonempty
  have hFits := hPart.fits
  have hMemEnd :=
    @toNat_endOffset mem hNonempty (hLast.trans hFits)
  have hLocEnd := @toNat_endOffset loc (by omega) hFits
  unfold shiftTo
  rw [if_pos rfl]
  have hEnds :
      mem.endOffset = loc.endOffset ↔
        mem.offset.toNat + mem.size.toNat =
          loc.offset.toNat + loc.size.toNat := by
    rw [← BitVec.toNat_inj, hMemEnd, hLocEnd]
    omega
  by_cases hSame :
      mem.offset.toNat + mem.size.toNat =
        loc.offset.toNat + loc.size.toNat
  · rw [if_neg (not_not.mpr (hEnds.mpr hSame)), if_pos hSame]
    rfl
  · rw [if_pos (fun hEq => hSame (hEnds.mp hEq)),
      if_neg hSame, BitVec.toNat_mul, BitVec.toNat_sub,
      hLocEnd]
    have hEight : (8 : BitVec 64).toNat = 8 := rfl
    rw [hEight]
    omega

theorem shiftTo_lt
    (hPart : mem.PartOf loc)
    (bigEndian : Bool)
    (val : BitVec 64) :
    (shiftTo bigEndian mem ⟨loc, val⟩).toNat < 64 := by
  have hWord := hPart.word
  have hFirst := hPart.first
  have hLast := hPart.last
  have hNonempty := hPart.nonempty
  cases bigEndian with
  | false =>
      rw [shiftTo_little hPart]
      omega
  | true =>
      rw [shiftTo_big hPart]
      by_cases hSame :
          mem.offset.toNat + mem.size.toNat =
            loc.offset.toNat + loc.size.toNat
      · rw [if_pos hSame]
        omega
      · rw [if_neg hSame]
        omega

theorem contains_of_partOf
    (hPart : mem.PartOf loc)
    (val : BitVec 64) :
    contains mem ⟨loc, val⟩ = true := by
  have hNonempty := hPart.nonempty
  have hBefore := hPart.first
  have hLast := hPart.last
  have hFits := hPart.fits
  have hFirst : loc.offset ≤ mem.offset :=
    BitVec.le_def.mpr hBefore
  have hEnd : mem.endOffset ≤ loc.endOffset := by
    apply BitVec.le_def.mpr
    rw [toNat_endOffset hNonempty (hLast.trans hFits),
      toNat_endOffset (by omega) hFits]
    omega
  unfold contains
  simp only [hPart.space, decide_true, hFirst, hEnd,
    Bool.and_self]

theorem getLsbD_byteOf
    (bigEndian : Bool)
    (size : Nat)
    (val : BitVec 64)
    (index : Nat)
    {bit : Nat}
    (hBit : bit < 8) :
    (byteOf bigEndian size val index).getLsbD bit =
      val.getLsbD
        (8 * (if bigEndian then size - 1 - index else index) +
          bit) := by
  cases bigEndian <;>
    simp [byteOf, hBit]

/- The bytes of a value that is shifted as far as needed. -/
theorem byteOf_shift
    {bigEndian : Bool}
    {shift size size' index index' : Nat}
    (val : BitVec 64)
    (hIndex : index < size)
    (hSize : size ≤ 8)
    (hShift :
      shift + 8 * (if bigEndian then size - 1 - index else
          index) =
        8 * (if bigEndian then size' - 1 - index' else
          index')) :
    byteOf bigEndian size
        ((val >>> shift) &&& calcMask size) index =
      byteOf bigEndian size' val index' := by
  have hPlace :
      (if bigEndian then size - 1 - index else index) < size := by
    cases bigEndian
    · exact hIndex
    · rw [if_pos rfl]
      omega
  apply BitVec.eq_of_getLsbD_eq
  intro bit hBit
  rw [getLsbD_byteOf _ _ _ _ hBit, getLsbD_byteOf _ _ _ _ hBit,
    BitVec.getLsbD_and, BitVec.getLsbD_ushiftRight,
    getLsbD_calcMask (by omega), ← hShift, Nat.add_assoc]
  have hInside :
      8 * (if bigEndian then size - 1 - index else index) +
          bit < 8 * size := by
    omega
  rw [decide_eq_true hInside, Bool.and_true]

end TrackedContext

namespace ContextInternal

variable {manager : AddrSpaceManager}
variable {space : AddrSpace}
variable {loc mem : VarnodeData}

/- The bytes of the location are those of the register. -/
def Trims
    (manager : AddrSpaceManager)
    (bigEndian : Bool)
    (loc mem : VarnodeData) : Prop :=
  ∀ (context : ContextInternal) (point : AddressPoint)
    (val : BitVec 64),
    (context.getTrackedSet point).find?
        (TrackedContext.contains mem) = some ⟨loc, val⟩ →
      ∃ res,
        context.getTrackedValue manager mem point = .ok res ∧
          ∀ index < mem.size.toNat,
            byteOf bigEndian mem.size.toNat res index =
              byteOf bigEndian loc.size.toNat val
                (mem.offset.toNat - loc.offset.toNat + index)

theorem getTrackedValue_of_find
    {context : ContextInternal}
    {point : AddressPoint}
    {val : BitVec 64}
    (hSpace : manager.getSpace loc.space = some space)
    (hPart : mem.PartOf loc)
    (hFound :
      (context.getTrackedSet point).find?
        (TrackedContext.contains mem) = some ⟨loc, val⟩) :
    context.getTrackedValue manager mem point =
      .ok ((val >>>
        (TrackedContext.shiftTo space.bigEndian mem
          ⟨loc, val⟩).toNat) &&&
        calcMask mem.size.toNat) := by
  have hShift := TrackedContext.shiftTo_lt hPart
    space.bigEndian val
  unfold getTrackedValue TrackedContext.trim
  simp only [hFound, hSpace]
  rw [if_neg (Nat.not_le.mpr hShift)]

/- A database where one register is tracked everywhere. -/
def tracking
    (tcont : TrackedContext) : ContextInternal :=
  { new with trackbase := PartMap.constant [tcont] }

theorem find_tracking
    (hPart : mem.PartOf loc)
    (val : BitVec 64)
    (point : AddressPoint) :
    ((tracking ⟨loc, val⟩).getTrackedSet point).find?
        (TrackedContext.contains mem) =
      some ⟨loc, val⟩ := by
  change List.find? (TrackedContext.contains mem)
    [⟨loc, val⟩] = _
  rw [List.find?_cons_of_pos
    (TrackedContext.contains_of_partOf hPart val)]

/-
  A part of a tracked register has its bytes, but for a part
  of several bytes of a big endian register that does not end
  where the register ends.
-/
theorem trims_iff
    (hSpace : manager.getSpace loc.space = some space)
    (hPart : mem.PartOf loc) :
    Trims manager space.bigEndian loc mem ↔
      space.bigEndian = false ∨ mem.size.toNat = 1 ∨
        mem.offset.toNat + mem.size.toNat =
          loc.offset.toNat + loc.size.toNat := by
  have hWord := hPart.word
  have hFirst := hPart.first
  have hLast := hPart.last
  have hNonempty := hPart.nonempty
  constructor
  · intro hTrims
    by_contra hNot
    rcases not_or.mp hNot with ⟨hBig, hOther⟩
    rcases not_or.mp hOther with ⟨hSeveral, hEnd⟩
    have hEndian : space.bigEndian = true :=
      Bool.eq_true_of_not_eq_false hBig
    rw [hEndian] at hTrims
    -- a register with a bit in the last byte of the location
    have hBytes := hTrims
      (tracking ⟨loc, BitVec.twoPow 64
        (8 * (loc.offset.toNat + loc.size.toNat -
          (mem.offset.toNat + mem.size.toNat)))⟩)
      AddressPoint.minimal _ (find_tracking hPart _ _)
    rcases hBytes with ⟨res, hValue, hBytes⟩
    rw [getTrackedValue_of_find hSpace hPart
      (find_tracking hPart _ _), Except.ok.injEq, hEndian,
      TrackedContext.shiftTo_big hPart, if_neg hEnd] at hValue
    have hBit := congrArg (fun byte => byte.getLsbD 0)
      (hBytes (mem.size.toNat - 1) (by omega))
    simp only [TrackedContext.getLsbD_byteOf, if_true,
      Nat.zero_lt_succ] at hBit
    rw [← hValue, BitVec.getLsbD_and,
      BitVec.getLsbD_ushiftRight, BitVec.getLsbD_twoPow,
      BitVec.getLsbD_twoPow] at hBit
    -- the shift goes past it
    have hLost :
        ¬ 8 * (loc.offset.toNat + loc.size.toNat -
            (mem.offset.toNat + mem.size.toNat)) =
          8 * (loc.offset.toNat + loc.size.toNat - 1 -
              mem.offset.toNat) +
            (8 * (mem.size.toNat - 1 -
              (mem.size.toNat - 1)) + 0) := by
      omega
    have hThere :
        8 * (loc.offset.toNat + loc.size.toNat -
            (mem.offset.toNat + mem.size.toNat)) =
          8 * (loc.size.toNat - 1 -
            (mem.offset.toNat - loc.offset.toNat +
              (mem.size.toNat - 1))) + 0 := by
      omega
    have hSmall :
        8 * (loc.offset.toNat + loc.size.toNat -
          (mem.offset.toNat + mem.size.toNat)) < 64 := by
      omega
    rw [decide_eq_false hLost, decide_eq_true hThere,
      decide_eq_true hSmall] at hBit
    cases hBit
  · intro hCase context point val hFound
    refine ⟨_, getTrackedValue_of_find hSpace hPart hFound, ?_⟩
    intro index hIndex
    apply TrackedContext.byteOf_shift val hIndex (by omega)
    cases hEndian : space.bigEndian with
    | false =>
        rw [TrackedContext.shiftTo_little hPart]
        simp only [Bool.false_eq_true, if_false]
        omega
    | true =>
        rw [TrackedContext.shiftTo_big hPart, if_pos rfl,
          if_pos rfl]
        rcases hCase with hLittle | hOne | hEnd
        · rw [hEndian] at hLittle
          cases hLittle
        · by_cases hSame :
              mem.offset.toNat + mem.size.toNat =
                loc.offset.toNat + loc.size.toNat
          · rw [if_pos hSame]
            omega
          · rw [if_neg hSame]
            omega
        · rw [if_pos hEnd]
          omega

/- Some byte of the value is not the one of the register. -/
def ReturnsWrongBytes
    (manager : AddrSpaceManager)
    (bigEndian : Bool)
    (loc mem : VarnodeData) : Prop :=
  ∃ (context : ContextInternal) (point : AddressPoint)
    (val res : BitVec 64) (index : Nat),
    (context.getTrackedSet point).find?
        (TrackedContext.contains mem) = some ⟨loc, val⟩ ∧
      context.getTrackedValue manager mem point = .ok res ∧
      index < mem.size.toNat ∧
      byteOf bigEndian mem.size.toNat res index ≠
        byteOf bigEndian loc.size.toNat val
          (mem.offset.toNat - loc.offset.toNat + index)

theorem returnsWrongBytes_of_not_trims
    {bigEndian : Bool}
    (hSpace : manager.getSpace loc.space = some space)
    (hPart : mem.PartOf loc)
    (hNot : ¬ Trims manager bigEndian loc mem) :
    ReturnsWrongBytes manager bigEndian loc mem := by
  by_contra hNone
  apply hNot
  intro context point val hFound
  have hValue := getTrackedValue_of_find hSpace hPart hFound
  refine ⟨_, hValue, ?_⟩
  intro index hIndex
  by_contra hWrong
  exact hNone
    ⟨context, point, val, _, index, hFound, hValue, hIndex,
      hWrong⟩

/- Big endian registers. -/
def bigSpaces : AddrSpaceManager :=
  { AddrSpaceManager.empty with
    baselist :=
      [none,
        some (AddrSpace.build .processor "register" true 4 1
          bytewise_small 1 0)] }

theorem bigSpaces_register :
    bigSpaces.getSpace 1 =
      some (AddrSpace.build .processor "register" true 4 1
        bytewise_small 1 0) := by
  rfl

/- The upper half should be 0x11223344. -/
example :
    getTrackedValue bigSpaces
        ⟨1, 0x20a, 4⟩ .minimal
        (tracking ⟨⟨1, 0x20a, 8⟩, 0x1122334455667788⟩) =
      .ok 0x11 :=
  rfl

end ContextInternal

end LLDBGhidra
