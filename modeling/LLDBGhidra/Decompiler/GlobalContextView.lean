import LLDBGhidra.Decompiler.GlobalContext

/-
  Context variables share blobs, but each one behaves as a map
  of its own.

  Main declarations:
    * `VariableView`
    * `VariableView.step`
    * `ContextCall`
    * `ContextInternal.view_run`
-/

------------------------------------------------------------
-- One Variable by Itself
------------------------------------------------------------

namespace LLDBGhidra

/-
  A context variable without the others: its value at every
  address, the addresses where blobs are split, and those of
  them where it was set itself.
-/
@[ext]
structure VariableView where
  value : AddressPoint → BitVec 32
  IsSplit : AddressPoint → Prop
  IsSet : AddressPoint → Prop

/- What can happen to a variable. -/
inductive VariableEvent where
| setDefault : (value : BitVec 32) → VariableEvent
| setFrom :
    (addr : AddressPoint) → (value : BitVec 32) →
      VariableEvent
| setBetween :
    (addr1 : AddressPoint) → (addr2 : Option AddressPoint) →
      (value : BitVec 32) → VariableEvent
| splitAt : (points : List AddressPoint) → VariableEvent

namespace VariableView

/- The address is before the next one where it was set. -/
def Reaches
    (view : VariableView)
    (addr pnt : AddressPoint) : Prop :=
  addr ≤ pnt ∧
    ∀ bound, view.IsSet bound → addr < bound → pnt < bound

open Classical in
/-
  A default is seen before all split points.  A value without
  an end goes on until the variable was set, and one with an
  end is definite at all split points on its way.
-/
noncomputable def step
    (view : VariableView)
    (event : VariableEvent) : VariableView :=
  match event with
  | .setDefault value =>
      { view with
        value := fun pnt =>
          if ∃ start, view.IsSplit start ∧ start ≤ pnt then
            view.value pnt
          else
            value }
  | .setFrom addr value =>
      { value := fun pnt =>
          if view.Reaches addr pnt then
            value
          else
            view.value pnt
        IsSplit := fun pnt => pnt = addr ∨ view.IsSplit pnt
        IsSet := fun pnt => pnt = addr ∨ view.IsSet pnt }
  | .setBetween addr1 addr2 value =>
      { value := fun pnt =>
          if PartMap.InWindow addr1 addr2 pnt then
            value
          else
            view.value pnt
        IsSplit := fun pnt =>
          addr2 = some pnt ∨ pnt = addr1 ∨ view.IsSplit pnt
        IsSet := fun pnt =>
          view.IsSet pnt ∨
            (PartMap.InWindow addr1 addr2 pnt ∧
              (pnt = addr1 ∨ view.IsSplit pnt)) }
  | .splitAt points =>
      { view with
        IsSplit := fun pnt =>
          pnt ∈ points ∨ view.IsSplit pnt }

variable {view : VariableView}
variable {addr pnt : AddressPoint}
variable {value : BitVec 32}

theorem value_setDefault_of_isSplit
    (hSplit : ∃ start, view.IsSplit start ∧ start ≤ pnt) :
    (view.step (.setDefault value)).value pnt =
      view.value pnt :=
  if_pos hSplit

theorem value_setDefault_of_before
    (hBefore :
      ¬ ∃ start, view.IsSplit start ∧ start ≤ pnt) :
    (view.step (.setDefault value)).value pnt = value :=
  if_neg hBefore

theorem value_setFrom_of_reaches
    (hReaches : view.Reaches addr pnt) :
    (view.step (.setFrom addr value)).value pnt = value :=
  if_pos hReaches

theorem value_setFrom_of_not_reaches
    (hNot : ¬ view.Reaches addr pnt) :
    (view.step (.setFrom addr value)).value pnt =
      view.value pnt :=
  if_neg hNot

end VariableView

namespace FreeArray

variable {size : Nat}

def readBits
    (bits : ContextBitRange)
    (blob : FreeArray size) : BitVec 32 :=
  bits.getValue blob.array

/- The variable was set at the split point of the blob. -/
def SetsBits
    (bits : ContextBitRange)
    (blob : FreeArray size) : Prop :=
  blob.hasMask bits.word bits.placed = true

end FreeArray

/- What the bits of a variable show in a map of blobs. -/
def VariableView.of
    {size : Nat}
    (bits : ContextBitRange)
    (database : PartMap AddressPoint (FreeArray size)) :
    VariableView where
  value := fun pnt => (database.getValue pnt).readBits bits
  IsSplit := database.IsSplit
  IsSet := database.Marked (FreeArray.SetsBits bits)

def ContextInternal.view
    (bits : ContextBitRange)
    (context : ContextInternal) : VariableView :=
  .of bits context.database

end LLDBGhidra

------------------------------------------------------------
-- Blobs of Several Variables
------------------------------------------------------------

namespace LLDBGhidra

namespace FreeArray

variable {size num : Nat}
variable {mask value : BitVec 32}
variable {bits : ContextBitRange}

theorem readBits_copy
    (blob : FreeArray size) :
    blob.copy.readBits bits = blob.readBits bits :=
  rfl

theorem not_setsBits_copy
    (blob : FreeArray size) :
    ¬ blob.copy.SetsBits bits := by
  have hZero :
      (List.replicate size (0 : BitVec 32)).getD bits.word 0 =
        0 := by
    rw [List.getD_eq_getElem?_getD, List.getElem?_replicate]
    by_cases hBound : bits.word < size
    · rw [if_pos hBound]
      rfl
    · rw [if_neg hBound]
      rfl
  unfold SetsBits hasMask copy
  rw [hZero, BitVec.and_comm]
  simp

/- Bits that are definitely set are seen. -/
theorem setsBits_markMask
    (hProper : bits.Proper)
    (hWord : bits.word < size)
    (blob : FreeArray size) :
    (blob.markMask bits.word bits.placed).SetsBits bits := by
  have hBound : bits.word < blob.mask.length := by
    rw [blob.length_mask]
    exact hWord
  unfold SetsBits hasMask markMask
  rw [List.getD_eq_getElem?_getD, List.getElem?_modify_eq,
    List.getElem?_eq_getElem hBound]
  simp only [Option.map_eq_map, Option.map_some,
    Option.getD_some, decide_eq_true_eq]
  have hOwn :
      (blob.mask[bits.word] ||| bits.placed) &&& bits.placed =
        bits.placed := by
    apply BitVec.eq_of_getLsbD_eq
    intro index _
    rw [BitVec.getLsbD_and, BitVec.getLsbD_or]
    cases bits.placed.getLsbD index
    · rw [Bool.and_false]
    · rw [Bool.or_true, Bool.and_true]
  rw [hOwn]
  exact hProper.placed_ne_zero

/- Other bits that are set are not those of the variable. -/
theorem setsBits_markMask_of_avoids
    (hAvoids : bits.Avoids num mask)
    (blob : FreeArray size) :
    (blob.markMask num mask).SetsBits bits ↔
      blob.SetsBits bits := by
  unfold SetsBits hasMask markMask
  rw [List.getD_eq_getElem?_getD, List.getD_eq_getElem?_getD]
  by_cases hSame : num = bits.word
  · have hApart := hAvoids.resolve_left
      (fun hNe => hNe hSame)
    rw [hSame, List.getElem?_modify_eq]
    cases blob.mask[bits.word]? with
    | none => exact Iff.rfl
    | some old =>
        have hRest :
            (old ||| mask) &&& bits.placed =
              old &&& bits.placed := by
          apply BitVec.eq_of_getLsbD_eq
          intro index _
          have hBit := congrArg
            (fun word => word.getLsbD index) hApart
          simp only [BitVec.getLsbD_and] at hBit
          rw [BitVec.getLsbD_and, BitVec.getLsbD_and,
            BitVec.getLsbD_or, Bool.and_or_distrib_right,
            hBit]
          simp
        simp only [Option.map_eq_map, Option.map_some,
          Option.getD_some, hRest]
  · rw [List.getElem?_modify_ne _ _ hSame]

theorem readBits_setArray
    (hProper : bits.Proper)
    (hWord : bits.word < size)
    (blob : FreeArray size) :
    (blob.setArray bits.word bits.placed value).readBits bits =
      (value >>> bits.shift) &&& bits.mask := by
  apply hProper.getValue_setBits
  rw [blob.length_array]
  exact hWord

end FreeArray

end LLDBGhidra

------------------------------------------------------------
-- What a Write Does to a Variable
------------------------------------------------------------

namespace LLDBGhidra

namespace ContextInternal

variable {bits : ContextBitRange}
variable {num : Nat}
variable {mask value : BitVec 32}

/- The bits that are written are those of the variable. -/
def OwnBits
    (bits : ContextBitRange)
    (num : Nat)
    (mask : BitVec 32) : Prop :=
  num = bits.word ∧ mask = bits.placed

instance
    (bits : ContextBitRange)
    (num : Nat)
    (mask : BitVec 32) :
    Decidable (OwnBits bits num mask) :=
  inferInstanceAs (Decidable (_ ∧ _))

/- A write to the variable, or to other bits. -/
structure Concerns
    (bits : ContextBitRange)
    (size num : Nat)
    (mask value : BitVec 32) : Prop where
  word : num < size
  inside : value &&& ~~~mask = 0
  bits : OwnBits bits num mask ∨ bits.Avoids num mask

variable {size : Nat}
variable {database : PartMap AddressPoint (FreeArray size)}
variable {addr : AddressPoint}
variable {last : Option AddressPoint}

/- The variable is set in a window. -/
theorem view_paint_own
    (hProper : bits.Proper)
    (hWord : bits.word < size) :
    VariableView.of bits
        (database.paint FreeArray.copy addr last (fun blob =>
          (blob.markMask bits.word bits.placed).setArray
            bits.word bits.placed value)) =
      (VariableView.of bits database).step
        (.setBetween addr last
          ((value >>> bits.shift) &&& bits.mask)) := by
  have hValue :
      ∀ blob : FreeArray size,
        ((blob.markMask bits.word bits.placed).setArray
            bits.word bits.placed value).readBits bits =
          (fun _ => (value >>> bits.shift) &&& bits.mask)
            (blob.readBits bits) :=
    fun blob => FreeArray.readBits_setArray hProper hWord _
  have hMark :
      ∀ blob : FreeArray size,
        ((blob.markMask bits.word bits.placed).setArray
          bits.word bits.placed value).SetsBits bits :=
    FreeArray.setsBits_markMask hProper hWord
  apply VariableView.ext
  · funext pnt
    exact @PartMap.read_getValue_paint _ _ _ _ _ _
      (FreeArray.readBits bits)
      (fun _ => (value >>> bits.shift) &&& bits.mask)
      FreeArray.readBits_copy hValue database addr last pnt
  · funext pnt
    exact propext PartMap.isSplit_paint_iff
  · funext pnt
    exact propext
      (PartMap.marked_paint_iff FreeArray.not_setsBits_copy
        hMark)

/- Other variables are set in a window. -/
theorem view_paint_other
    (hProper : bits.Proper)
    (hAvoids : bits.Avoids num mask)
    (hInside : value &&& ~~~mask = 0) :
    VariableView.of bits
        (database.paint FreeArray.copy addr last (fun blob =>
          (blob.markMask num mask).setArray num mask value)) =
      (VariableView.of bits database).step
        (.splitAt (addr :: last.toList)) := by
  have hValue :
      ∀ blob : FreeArray size,
        ((blob.markMask num mask).setArray num mask
            value).readBits bits =
          id (blob.readBits bits) :=
    fun blob =>
      hProper.getValue_setBits_of_avoids hAvoids hInside
        blob.array
  have hMark :
      ∀ blob : FreeArray size,
        ((blob.markMask num mask).setArray num mask
            value).SetsBits bits ↔
          blob.SetsBits bits :=
    FreeArray.setsBits_markMask_of_avoids hAvoids
  apply VariableView.ext
  · funext pnt
    have hPaint := PartMap.read_getValue_paint
      FreeArray.readBits_copy hValue database addr last pnt
    exact hPaint.trans (ite_self _)
  · funext pnt
    have hPoint :
        pnt ∈ addr :: last.toList ↔
          pnt = addr ∨ last = some pnt := by
      rw [List.mem_cons, Option.mem_toList]
    apply propext
    refine PartMap.isSplit_paint_iff.trans ?_
    refine Iff.trans ?_ (or_congr_left hPoint).symm
    rw [or_left_comm, or_assoc]
    exact Iff.rfl
  · funext pnt
    exact propext
      (PartMap.marked_paint_iff_of_same
        FreeArray.not_setsBits_copy hMark)

theorem isSplit_markChangePoint_iff
    (database : PartMap AddressPoint (FreeArray size))
    (addr pnt : AddressPoint) :
    (FreeArray.markChangePoint addr num mask
        database).IsSplit pnt ↔
      pnt = addr ∨ database.IsSplit pnt := by
  unfold FreeArray.markChangePoint
  rw [PartMap.isSplit_updateAt_iff, PartMap.isSplit_split_iff]

/- The region up to the next change begins and ends at splits. -/
theorem isSplit_changePoint
    (num : Nat)
    (mask : BitVec 32)
    (database : PartMap AddressPoint (FreeArray size))
    (addr : AddressPoint) :
    (FreeArray.markChangePoint addr num mask
        database).IsSplit addr ∧
      ∀ bound ∈ FreeArray.nextChangePoint addr num mask
          (FreeArray.markChangePoint addr num mask database),
        (FreeArray.markChangePoint addr num mask
          database).IsSplit bound :=
  ⟨(isSplit_markChangePoint_iff database addr addr).mpr
    (Or.inl rfl),
    fun _ hBound => PartMap.isSplit_of_findAfter hBound⟩

theorem readBits_markChangePoint
    (pnt : AddressPoint) :
    ((FreeArray.markChangePoint addr num mask
        database).getValue pnt).readBits bits =
      (database.getValue pnt).readBits bits := by
  have hMark :
      ∀ blob : FreeArray size,
        (blob.markMask num mask).readBits bits =
          blob.readBits bits :=
    fun _ => rfl
  unfold FreeArray.markChangePoint
  rw [PartMap.read_getValue_updateAt hMark,
    PartMap.read_getValue_split FreeArray.readBits_copy]

/- The new split point is set, and all others as before. -/
theorem isSet_markChangePoint_own
    (hProper : bits.Proper)
    (hWord : bits.word < size)
    (database : PartMap AddressPoint (FreeArray size))
    (addr pnt : AddressPoint) :
    (FreeArray.markChangePoint addr bits.word bits.placed
        database).Marked (FreeArray.SetsBits bits) pnt ↔
      pnt = addr ∨
        database.Marked (FreeArray.SetsBits bits) pnt := by
  unfold FreeArray.markChangePoint
  rw [PartMap.marked_updateAt_iff]
  by_cases hPoint : pnt = addr
  · rw [if_pos hPoint, hPoint]
    refine iff_of_true ⟨?_, ?_⟩ (Or.inl rfl)
    · exact PartMap.isSplit_split_iff.mpr (Or.inl rfl)
    · exact FreeArray.setsBits_markMask hProper hWord _
  · rw [if_neg hPoint, or_iff_right hPoint]
    exact PartMap.marked_split_iff FreeArray.not_setsBits_copy

theorem isSet_markChangePoint_other
    (hAvoids : bits.Avoids num mask)
    (database : PartMap AddressPoint (FreeArray size))
    (addr pnt : AddressPoint) :
    (FreeArray.markChangePoint addr num mask
        database).Marked (FreeArray.SetsBits bits) pnt ↔
      database.Marked (FreeArray.SetsBits bits) pnt := by
  have hSplit :
      (database.split FreeArray.copy addr).Marked
          (FreeArray.SetsBits bits) pnt ↔
        database.Marked (FreeArray.SetsBits bits) pnt :=
    PartMap.marked_split_iff FreeArray.not_setsBits_copy
  unfold FreeArray.markChangePoint
  rw [PartMap.marked_updateAt_iff, ← hSplit]
  apply and_congr_right
  intro _
  by_cases hPoint : pnt = addr
  · rw [if_pos hPoint]
    exact FreeArray.setsBits_markMask_of_avoids hAvoids _
  · rw [if_neg hPoint]

/- The loop ends where the variable was set. -/
theorem inWindow_nextChangePoint_iff
    (hProper : bits.Proper)
    (hWord : bits.word < size)
    (database : PartMap AddressPoint (FreeArray size))
    (addr pnt : AddressPoint) :
    PartMap.InWindow addr
        (FreeArray.nextChangePoint addr bits.word bits.placed
          (FreeArray.markChangePoint addr bits.word bits.placed
            database)) pnt ↔
      (VariableView.of bits database).Reaches addr pnt := by
  unfold FreeArray.nextChangePoint
  rw [PartMap.inWindow_findAfter_iff]
  apply and_congr_right
  intro _
  have hSet :=
    isSet_markChangePoint_own hProper hWord database addr
  constructor
  · intro hAll bound hBound hAfter
    have hMark := (hSet bound).mpr (Or.inr hBound)
    exact hAll bound hMark.1 hAfter hMark.2
  · intro hAll bound hBound hAfter hMark
    rcases (hSet bound).mp ⟨hBound, hMark⟩ with rfl | hOther
    · exact absurd hAfter (lt_irrefl _)
    · exact hAll bound hOther hAfter

/- The variable is set up to where it was set before. -/
theorem view_changePoint_own
    (hProper : bits.Proper)
    (hWord : bits.word < size)
    {marked : PartMap AddressPoint (FreeArray size)}
    (hMarked :
      marked =
        FreeArray.markChangePoint addr bits.word bits.placed
          database) :
    VariableView.of bits
        (marked.updateRange addr
          (FreeArray.nextChangePoint addr bits.word
            bits.placed marked)
          (fun blob =>
            blob.setArray bits.word bits.placed value)) =
      (VariableView.of bits database).step
        (.setFrom addr
          ((value >>> bits.shift) &&& bits.mask)) := by
  subst hMarked
  rcases isSplit_changePoint bits.word bits.placed database
      addr with ⟨hFirst, hLast⟩
  have hMark :
      ∀ blob : FreeArray size,
        (blob.setArray bits.word bits.placed
            value).SetsBits bits ↔
          blob.SetsBits bits :=
    fun _ => Iff.rfl
  apply VariableView.ext
  · funext pnt
    change FreeArray.readBits bits (PartMap.getValue _ pnt) = _
    rw [PartMap.getValue_updateRange hFirst hLast]
    have hWindow := inWindow_nextChangePoint_iff hProper hWord
      database addr pnt
    by_cases hIn : (VariableView.of bits database).Reaches
        addr pnt
    · rw [VariableView.value_setFrom_of_reaches hIn,
        if_pos (hWindow.mpr hIn)]
      exact FreeArray.readBits_setArray hProper hWord _
    · rw [VariableView.value_setFrom_of_not_reaches hIn,
        if_neg (fun hInside => hIn (hWindow.mp hInside))]
      exact readBits_markChangePoint pnt
  · funext pnt
    exact propext (PartMap.isSplit_updateRange_iff.trans
      (isSplit_markChangePoint_iff database addr pnt))
  · funext pnt
    exact propext
      ((PartMap.marked_updateRange_iff_of_same hMark hFirst
        hLast).trans
        (isSet_markChangePoint_own hProper hWord database addr
          pnt))

/- Other variables are set up to where they were set. -/
theorem view_changePoint_other
    (hProper : bits.Proper)
    (hAvoids : bits.Avoids num mask)
    (hInside : value &&& ~~~mask = 0)
    {marked : PartMap AddressPoint (FreeArray size)}
    (hMarked :
      marked =
        FreeArray.markChangePoint addr num mask database) :
    VariableView.of bits
        (marked.updateRange addr
          (FreeArray.nextChangePoint addr num mask marked)
          (fun blob => blob.setArray num mask value)) =
      (VariableView.of bits database).step
        (.splitAt [addr]) := by
  subst hMarked
  rcases isSplit_changePoint num mask database addr with
    ⟨hFirst, hLast⟩
  have hMark :
      ∀ blob : FreeArray size,
        (blob.setArray num mask value).SetsBits bits ↔
          blob.SetsBits bits :=
    fun _ => Iff.rfl
  have hValue :
      ∀ blob : FreeArray size,
        (blob.setArray num mask value).readBits bits =
          blob.readBits bits :=
    fun blob =>
      hProper.getValue_setBits_of_avoids hAvoids hInside
        blob.array
  apply VariableView.ext
  · funext pnt
    change FreeArray.readBits bits (PartMap.getValue _ pnt) =
      FreeArray.readBits bits (database.getValue pnt)
    rw [PartMap.getValue_updateRange hFirst hLast,
      apply_ite (FreeArray.readBits bits), hValue, ite_self,
      readBits_markChangePoint]
  · funext pnt
    apply propext
    refine PartMap.isSplit_updateRange_iff.trans
      ((isSplit_markChangePoint_iff database addr
        pnt).trans ?_)
    exact or_congr_left List.mem_singleton.symm
  · funext pnt
    exact propext
      ((PartMap.marked_updateRange_iff_of_same hMark hFirst
        hLast).trans
        (isSet_markChangePoint_other hAvoids database addr
          pnt))

/- The default of the variable, or of another one, is set. -/
theorem view_updateDefault_own
    (hProper : bits.Proper)
    (hWord : bits.word < size) :
    VariableView.of bits
        (database.updateDefault (fun blob =>
          blob.setArray bits.word bits.placed value)) =
      (VariableView.of bits database).step
        (.setDefault
          ((value >>> bits.shift) &&& bits.mask)) := by
  apply VariableView.ext
  · funext pnt
    change FreeArray.readBits bits (PartMap.getValue _ pnt) = _
    by_cases hSplit :
        ∃ start, database.IsSplit start ∧ start ≤ pnt
    · rw [VariableView.value_setDefault_of_isSplit hSplit]
      rcases hSplit with ⟨start, hStart, hLe⟩
      rw [PartMap.getValue_updateDefault_of_isSplit hStart hLe]
      rfl
    · rw [VariableView.value_setDefault_of_before hSplit,
        PartMap.getValue_updateDefault_of_before hSplit]
      exact FreeArray.readBits_setArray hProper hWord _
  · rfl
  · funext pnt
    exact propext PartMap.marked_updateDefault_iff

theorem view_updateDefault_other
    (hProper : bits.Proper)
    (hAvoids : bits.Avoids num mask)
    (hInside : value &&& ~~~mask = 0) :
    VariableView.of bits
        (database.updateDefault (fun blob =>
          blob.setArray num mask value)) =
      (VariableView.of bits database).step (.splitAt []) := by
  apply VariableView.ext
  · funext pnt
    change FreeArray.readBits bits (PartMap.getValue _ pnt) =
      FreeArray.readBits bits (database.getValue pnt)
    by_cases hSplit :
        ∃ start, database.IsSplit start ∧ start ≤ pnt
    · rcases hSplit with ⟨start, hStart, hLe⟩
      rw [PartMap.getValue_updateDefault_of_isSplit hStart hLe]
    · rw [PartMap.getValue_updateDefault_of_before hSplit]
      exact hProper.getValue_setBits_of_avoids hAvoids hInside _
  · funext pnt
    exact propext
      (or_iff_right (List.not_mem_nil)).symm
  · funext pnt
    exact propext PartMap.marked_updateDefault_iff

theorem view_setContextRegion
    (hProper : bits.Proper)
    (context : ContextInternal)
    {addr1 addr2 : AddressPoint}
    (hOrder : addr2.isInvalid = true ∨ addr1 ≤ addr2)
    (hConcerns : Concerns bits context.size num mask value) :
    ∃ context',
      context.setContextRegion addr1 addr2 num mask value =
          .ok context' ∧
        context'.size = context.size ∧
        context'.variableMap = context.variableMap ∧
        context'.view bits =
          (context.view bits).step
            (if OwnBits bits num mask then
              .setBetween addr1 (regionEnd addr2)
                ((value >>> bits.shift) &&& bits.mask)
            else
              .splitAt
                (addr1 :: (regionEnd addr2).toList)) := by
  have hWord : ¬ context.size ≤ num :=
    Nat.not_le.mpr hConcerns.word
  have hForward :
      ¬ (¬ addr2.isInvalid ∧ addr2 < addr1) := by
    rcases hOrder with hInvalid | hLe
    · exact fun hBack => hBack.1 hInvalid
    · exact fun hBack => absurd hBack.2 (not_lt.mpr hLe)
  unfold setContextRegion
  rw [if_neg hWord, if_neg hForward]
  refine ⟨_, rfl, rfl, rfl, ?_⟩
  by_cases hOwn : OwnBits bits num mask
  · rw [if_pos hOwn]
    rcases hOwn with ⟨rfl, rfl⟩
    exact view_paint_own hProper hConcerns.word
  · rw [if_neg hOwn]
    have hAvoids := hConcerns.bits.resolve_left hOwn
    exact view_paint_other hProper hAvoids hConcerns.inside

theorem view_setContextChangePoint
    (hProper : bits.Proper)
    (context : ContextInternal)
    (addr : AddressPoint)
    (hConcerns : Concerns bits context.size num mask value) :
    ∃ context',
      context.setContextChangePoint addr num mask value =
          .ok context' ∧
        context'.size = context.size ∧
        context'.variableMap = context.variableMap ∧
        context'.view bits =
          (context.view bits).step
            (if OwnBits bits num mask then
              .setFrom addr
                ((value >>> bits.shift) &&& bits.mask)
            else
              .splitAt [addr]) := by
  have hWord : ¬ context.size ≤ num :=
    Nat.not_le.mpr hConcerns.word
  unfold setContextChangePoint
  rw [if_neg hWord]
  refine ⟨_, rfl, rfl, rfl, ?_⟩
  by_cases hOwn : OwnBits bits num mask
  · rw [if_pos hOwn]
    rcases hOwn with ⟨rfl, rfl⟩
    exact view_changePoint_own hProper hConcerns.word rfl
  · rw [if_neg hOwn]
    have hAvoids := hConcerns.bits.resolve_left hOwn
    exact view_changePoint_other hProper hAvoids
      hConcerns.inside rfl

end ContextInternal

end LLDBGhidra

------------------------------------------------------------
-- Runs of Calls
------------------------------------------------------------

namespace LLDBGhidra

/- The calls that set context variables. -/
inductive ContextCall where
| setVariableDefault :
    (nm : String) → (val : BitVec 32) → ContextCall
| setVariable :
    (nm : String) → (addr : AddressPoint) →
      (value : BitVec 32) → ContextCall
| setVariableRegion :
    (nm : String) → (begad endad : AddressPoint) →
      (value : BitVec 32) → ContextCall
| setContextChangePoint :
    (addr : AddressPoint) → (num : Nat) →
      (mask value : BitVec 32) → ContextCall
| setContextRegion :
    (addr1 addr2 : AddressPoint) → (num : Nat) →
      (mask value : BitVec 32) → ContextCall
deriving DecidableEq

namespace ContextCall

open ContextInternal

def run
    (call : ContextCall)
    (context : ContextInternal) : Except Halt ContextInternal :=
  match call with
  | .setVariableDefault nm val =>
      context.setVariableDefault nm val
  | .setVariable nm addr value =>
      context.setVariable nm addr value
  | .setVariableRegion nm begad endad value =>
      context.setVariableRegion nm begad endad value
  | .setContextChangePoint addr num mask value =>
      context.setContextChangePoint addr num mask value
  | .setContextRegion addr1 addr2 num mask value =>
      context.setContextRegion addr1 addr2 num mask value

/- What the call is to a variable. -/
def event
    (variableMap : List (String × ContextBitRange))
    (bits : ContextBitRange)
    (call : ContextCall) : VariableEvent :=
  match call with
  | .setVariableDefault nm val =>
      if variableMap.lookup nm = some bits then
        .setDefault (val &&& bits.mask)
      else
        .splitAt []
  | .setVariable nm addr value =>
      if variableMap.lookup nm = some bits then
        .setFrom addr (value &&& bits.mask)
      else
        .splitAt [addr]
  | .setVariableRegion nm begad endad value =>
      if variableMap.lookup nm = some bits then
        .setBetween begad (regionEnd endad)
          (value &&& bits.mask)
      else
        .splitAt (begad :: (regionEnd endad).toList)
  | .setContextChangePoint addr num mask value =>
      if OwnBits bits num mask then
        .setFrom addr ((value >>> bits.shift) &&& bits.mask)
      else
        .splitAt [addr]
  | .setContextRegion addr1 addr2 num mask value =>
      if OwnBits bits num mask then
        .setBetween addr1 (regionEnd addr2)
          ((value >>> bits.shift) &&& bits.mask)
      else
        .splitAt (addr1 :: (regionEnd addr2).toList)

/- The name is that of the variable or of other bits. -/
def Names
    (variableMap : List (String × ContextBitRange))
    (bits : ContextBitRange)
    (nm : String) : Prop :=
  ∃ var, variableMap.lookup nm = some var ∧
    (var = bits ∨ bits.Avoids var.word var.placed)

/-
  The call sets the variable or other bits, its words exist,
  and its region does not end before it begins.
-/
def Suits
    (variableMap : List (String × ContextBitRange))
    (size : Nat)
    (bits : ContextBitRange)
    (call : ContextCall) : Prop :=
  match call with
  | .setVariableDefault nm _ => Names variableMap bits nm
  | .setVariable nm _ _ => Names variableMap bits nm
  | .setVariableRegion nm begad endad _ =>
      Names variableMap bits nm ∧
        (endad.isInvalid = true ∨ begad ≤ endad)
  | .setContextChangePoint _ num mask value =>
      Concerns bits size num mask value
  | .setContextRegion addr1 addr2 num mask value =>
      Concerns bits size num mask value ∧
        (addr2.isInvalid = true ∨ addr1 ≤ addr2)

end ContextCall

namespace ContextInternal

variable {context : ContextInternal}
variable {bits : ContextBitRange}
variable {nm : String}

theorem not_ownBits_of_avoids
    {var : ContextBitRange}
    (hProper : bits.Proper)
    (hAvoids : bits.Avoids var.word var.placed) :
    ¬ OwnBits bits var.word var.placed := by
  intro hOwn
  rcases hAvoids with hWord | hApart
  · exact hWord hOwn.1
  · rw [hOwn.2, BitVec.and_self] at hApart
    exact hProper.placed_ne_zero hApart

/- What a call by name writes, and whether it is the variable. -/
theorem concerns_of_names
    (hProper : bits.Proper)
    (hNames : ContextCall.Names context.variableMap bits nm)
    (val : BitVec 32) :
    ∃ var, context.getVariable nm = .ok var ∧
      Concerns bits context.size var.word var.placed
        ((val &&& var.mask) <<< var.shift) ∧
      (OwnBits bits var.word var.placed ↔
        context.variableMap.lookup nm = some bits) ∧
      (context.variableMap.lookup nm = some bits →
        (((val &&& var.mask) <<< var.shift) >>> bits.shift) &&&
          bits.mask = val &&& bits.mask) := by
  rcases hNames with ⟨var, hLookup, hOther⟩
  rcases context.proper nm var hLookup with ⟨_, hWord⟩
  have hFound : context.getVariable nm = .ok var := by
    unfold getVariable
    rw [hLookup]
  have hInside :
      ((val &&& var.mask) <<< var.shift) &&& ~~~var.placed =
        0 := by
    apply BitVec.eq_of_getLsbD_eq
    intro index _
    unfold ContextBitRange.placed
    rw [BitVec.getLsbD_and, BitVec.getLsbD_not,
      BitVec.getLsbD_shiftLeft, BitVec.getLsbD_shiftLeft,
      BitVec.getLsbD_and]
    cases var.mask.getLsbD (index - var.shift) with
    | false => simp
    | true =>
        simp
        tauto
  refine ⟨var, hFound, ⟨hWord, hInside, ?_⟩, ?_, ?_⟩
  · rcases hOther with rfl | hAvoids
    · exact Or.inl ⟨rfl, rfl⟩
    · exact Or.inr hAvoids
  · rw [hLookup, Option.some.injEq]
    constructor
    · intro hOwn
      exact hOther.resolve_right
        (fun hAvoids =>
          not_ownBits_of_avoids hProper hAvoids hOwn)
    · rintro rfl
      exact ⟨rfl, rfl⟩
  · rw [hLookup, Option.some.injEq]
    rintro rfl
    exact hProper.shiftRight_placed val

/- A call does its event to the view of the variable. -/
theorem view_call
    (hProper : bits.Proper)
    (context : ContextInternal)
    (call : ContextCall)
    (hSuits :
      call.Suits context.variableMap context.size bits) :
    ∃ context',
      call.run context = .ok context' ∧
        context'.size = context.size ∧
        context'.variableMap = context.variableMap ∧
        context'.view bits =
          (context.view bits).step
            (call.event context.variableMap bits) := by
  cases call with
  | setVariableDefault nm val =>
      rcases concerns_of_names hProper hSuits val with
        ⟨var, hFound, hConcerns, hOwn, hValue⟩
      change ∃ context',
        context.setVariableDefault nm val = .ok context' ∧ _
      unfold setVariableDefault
      rw [hFound, ContextCall.event]
      refine ⟨_, rfl, rfl, rfl, ?_⟩
      by_cases hName :
          context.variableMap.lookup nm = some bits
      · rw [if_pos hName, ← hValue hName]
        rcases hOwn.mpr hName with ⟨hWord, hPlaced⟩
        rw [hWord] at hConcerns ⊢
        rw [hPlaced]
        exact view_updateDefault_own hProper hConcerns.word
      · rw [if_neg hName]
        have hAvoids := hConcerns.bits.resolve_left
          (fun hSame => hName (hOwn.mp hSame))
        exact view_updateDefault_other hProper hAvoids
          hConcerns.inside
  | setVariable nm addr value =>
      rcases concerns_of_names hProper hSuits value with
        ⟨var, hFound, hConcerns, hOwn, hValue⟩
      have hView :=
        view_setContextChangePoint hProper context addr
          hConcerns
      change ∃ context',
        context.setVariable nm addr value = .ok context' ∧ _
      unfold setVariable
      rw [hFound, ContextCall.event]
      by_cases hName :
          context.variableMap.lookup nm = some bits
      · rw [if_pos (hOwn.mpr hName), hValue hName] at hView
        rw [if_pos hName]
        exact hView
      · rw [if_neg (fun hSame => hName (hOwn.mp hSame))]
          at hView
        rw [if_neg hName]
        exact hView
  | setVariableRegion nm begad endad value =>
      rcases concerns_of_names hProper hSuits.1 value with
        ⟨var, hFound, hConcerns, hOwn, hValue⟩
      have hView :=
        view_setContextRegion hProper context hSuits.2
          hConcerns
      change ∃ context',
        context.setVariableRegion nm begad endad value =
          .ok context' ∧ _
      unfold setVariableRegion
      rw [hFound, ContextCall.event]
      by_cases hName :
          context.variableMap.lookup nm = some bits
      · rw [if_pos (hOwn.mpr hName), hValue hName] at hView
        rw [if_pos hName]
        exact hView
      · rw [if_neg (fun hSame => hName (hOwn.mp hSame))]
          at hView
        rw [if_neg hName]
        exact hView
  | setContextChangePoint addr num mask value =>
      exact view_setContextChangePoint hProper context addr
        hSuits
  | setContextRegion addr1 addr2 num mask value =>
      exact view_setContextRegion hProper context hSuits.2
        hSuits.1

/- The variable lives through a run as it does by itself. -/
theorem view_run
    (bits : ContextBitRange)
    (calls : List ContextCall)
    (context : ContextInternal)
    (hProper : bits.Proper)
    (hSuits :
      ∀ call ∈ calls,
        call.Suits context.variableMap context.size bits) :
    ∃ context',
      calls.foldlM (fun context call => call.run context)
          context = .ok context' ∧
        context'.variableMap = context.variableMap ∧
        context'.view bits =
          (calls.map (ContextCall.event context.variableMap
            bits)).foldl VariableView.step
              (context.view bits) := by
  induction calls generalizing context with
  | nil => exact ⟨context, rfl, rfl, rfl⟩
  | cons call rest ih =>
      rcases view_call hProper context call
          (hSuits call List.mem_cons_self) with
        ⟨between, hCall, hSize, hMap, hBetween⟩
      have hRest :
          ∀ other ∈ rest,
            other.Suits between.variableMap between.size
              bits := by
        intro other hOther
        rw [hMap, hSize]
        exact hSuits other (List.mem_cons_of_mem _ hOther)
      rcases ih between hRest with
        ⟨after, hRun, hSame, hAfter⟩
      refine ⟨after, ?_, hSame.trans hMap, ?_⟩
      · rw [List.foldlM_cons, hCall]
        exact hRun
      · rw [hAfter, hBetween, hMap]
        rfl

/-
  The value of a variable is that of its own calls.  The calls
  for others only split blobs.
-/
theorem getVariableAt_run
    (nm : String)
    (bits : ContextBitRange)
    (calls : List ContextCall)
    (context : ContextInternal)
    (hVariable : context.variableMap.lookup nm = some bits)
    (hSuits :
      ∀ call ∈ calls,
        call.Suits context.variableMap context.size bits) :
    ∃ context',
      calls.foldlM (fun context call => call.run context)
          context = .ok context' ∧
        ∀ addr,
          context'.getVariableAt nm addr =
            .ok (((calls.map (ContextCall.event
              context.variableMap bits)).foldl
                VariableView.step
                (context.view bits)).value addr) := by
  have hProper := (context.proper nm bits hVariable).1
  rcases view_run bits calls context hProper hSuits with
    ⟨context', hRun, hMap, hView⟩
  refine ⟨context', hRun, ?_⟩
  intro addr
  rw [← hView]
  unfold getVariableAt getVariable
  rw [hMap, hVariable]
  rfl

theorem thumbVariables_proper
    (nm : String)
    (bits : ContextBitRange)
    (hLookup :
      [("LRset", ContextBitRange.new 1 1),
        ("TMode", ContextBitRange.new 0 0)].lookup nm =
        some bits) :
    bits.Proper ∧ bits.word < 1 := by
  rw [List.lookup_cons] at hLookup
  by_cases hName : nm == "LRset"
  · simp only [hName, Option.some.injEq] at hLookup
    rw [← hLookup]
    exact ⟨ContextBitRange.proper_new le_rfl rfl, Nat.one_pos⟩
  · simp only [Bool.eq_false_iff.mpr hName] at hLookup
    rw [List.lookup_cons] at hLookup
    by_cases hOther : nm == "TMode"
    · simp only [hOther, Option.some.injEq] at hLookup
      rw [← hLookup]
      exact ⟨ContextBitRange.proper_new le_rfl rfl,
        Nat.one_pos⟩
    · simp only [Bool.eq_false_iff.mpr hOther] at hLookup
      cases hLookup

/- Two variables of one bit each, as ARM processors have. -/
def thumbContext : ContextInternal where
  size := 1
  variableMap :=
    [("LRset", ContextBitRange.new 1 1),
      ("TMode", ContextBitRange.new 0 0)]
  database := PartMap.constant ⟨[0], [0], rfl, rfl⟩
  trackbase := PartMap.constant []
  proper := thumbVariables_proper

/- Code in Thumb mode, up to a function that is not. -/
def thumbCalls : List ContextCall :=
  [.setContextChangePoint (AddressPoint.ofSpace 1 0x2000) 0
      0x80000000 0,
    .setVariable "LRset" (AddressPoint.ofSpace 1 0x1800) 1,
    .setVariable "TMode" (AddressPoint.ofSpace 1 0x1000) 1]

theorem thumbCalls_suit :
    ∀ call ∈ thumbCalls,
      call.Suits thumbContext.variableMap thumbContext.size
        (ContextBitRange.new 0 0) := by
  intro call hCall
  rcases List.mem_cons.mp hCall with rfl | hCall
  · exact ⟨Nat.one_pos, by decide, Or.inl (by decide)⟩
  rcases List.mem_cons.mp hCall with rfl | hCall
  · exact ⟨_, rfl, Or.inr (Or.inr (by decide))⟩
  · rcases List.mem_singleton.mp hCall with rfl
    exact ⟨_, rfl, Or.inl rfl⟩

/- Only the first call sets the mode before the last one. -/
theorem thumbCalls_isSet_iff
    {bound : AddressPoint} :
    (((thumbContext.view (ContextBitRange.new 0 0)).step
      (.setFrom (AddressPoint.ofSpace 1 0x2000) 0)).step
      (.splitAt [AddressPoint.ofSpace 1 0x1800])).IsSet bound ↔
      bound = AddressPoint.ofSpace 1 0x2000 := by
  constructor
  · intro hSet
    rcases hSet with hPoint | hOld
    · exact hPoint
    · rcases hOld.1 with ⟨entry, hEntry, _⟩
      exact (List.not_mem_nil hEntry).elim
  · exact Or.inl

theorem getVariableAt_run_thumbCalls :
    ∃ context,
      thumbCalls.foldlM
          (fun context call => call.run context)
          thumbContext = .ok context ∧
        context.getVariableAt "TMode"
          (AddressPoint.ofSpace 1 0x1ffe) = .ok 1 ∧
        context.getVariableAt "TMode"
          (AddressPoint.ofSpace 1 0x2000) = .ok 0 := by
  rcases getVariableAt_run "TMode" (ContextBitRange.new 0 0)
      thumbCalls thumbContext rfl thumbCalls_suit with
    ⟨context, hRun, hValue⟩
  refine ⟨context, hRun, (hValue _).trans (congrArg _ ?_),
    (hValue _).trans (congrArg _ ?_)⟩
  · apply VariableView.value_setFrom_of_reaches
    refine ⟨AddressPoint.ofSpace_le_iff.mpr (by decide), ?_⟩
    intro bound hBound _
    rw [thumbCalls_isSet_iff.mp hBound]
    exact AddressPoint.ofSpace_lt_iff.mpr (by decide)
  · refine (VariableView.value_setFrom_of_not_reaches ?_).trans
      (VariableView.value_setFrom_of_reaches ?_)
    · intro hReaches
      exact lt_irrefl _
        (hReaches.2 _ (thumbCalls_isSet_iff.mpr rfl)
          (AddressPoint.ofSpace_lt_iff.mpr (by decide)))
    · refine ⟨le_rfl, ?_⟩
      intro bound hBound _
      rcases hBound.1 with ⟨entry, hEntry, _⟩
      exact (List.not_mem_nil hEntry).elim

end ContextInternal

end LLDBGhidra
