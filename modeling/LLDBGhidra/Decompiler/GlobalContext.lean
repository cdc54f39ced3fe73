import LLDBGhidra.Decompiler.AddressOrder

/-
  The context that instructions are decoded in, by address
  (`globalcontext.hh`, `globalcontext.cc`).

  Main declarations:
    * `ContextBitRange`
    * `ContextInternal`
    * `ContextInternal.setVariable`
    * `ContextInternal.setVariableRegion`
    * `ContextInternal.createSet`
-/

------------------------------------------------------------
-- Context Variables
------------------------------------------------------------

namespace LLDBGhidra

/-
  The bits of a variable in one word of a context blob; the
  bits of a word count from the most significant one.
-/
structure ContextBitRange where
  word : Nat
  startbit : Nat
  endbit : Nat
  shift : Nat
  mask : BitVec 32
deriving DecidableEq, Repr

/- Replace the bits of a mask in a word of a blob. -/
def setBits
    (num : Nat)
    (mask value : BitVec 32)
    (vec : List (BitVec 32)) : List (BitVec 32) :=
  vec.modify num (fun old => (old &&& ~~~mask) ||| value)

namespace ContextBitRange

/- The constructor, from the bits of the whole blob. -/
def new
    (sbit ebit : Nat) : ContextBitRange :=
  let word := sbit / 32
  let startbit := sbit - word * 32
  let endbit := ebit - word * 32
  let shift := 32 - endbit - 1
  { word := word
    startbit := startbit
    endbit := endbit
    shift := shift
    mask := BitVec.allOnes 32 >>> (startbit + shift) }

/- The mask in its place in the word. -/
def placed
    (bits : ContextBitRange) : BitVec 32 :=
  bits.mask <<< bits.shift

def setValue
    (bits : ContextBitRange)
    (val : BitVec 32)
    (vec : List (BitVec 32)) : List (BitVec 32) :=
  vec.modify bits.word (fun newval =>
    (newval &&& ~~~(bits.mask <<< bits.shift)) |||
      ((val &&& bits.mask) <<< bits.shift))

def getValue
    (bits : ContextBitRange)
    (vec : List (BitVec 32)) : BitVec 32 :=
  (vec.getD bits.word 0 >>> bits.shift) &&& bits.mask

/- There are bits, and none is shifted out of the word. -/
structure Proper
    (bits : ContextBitRange) : Prop where
  nonempty : bits.mask.getLsbD 0 = true
  fits :
    ∀ index, bits.mask.getLsbD index = true →
      bits.shift + index < 32

/- The bits of a mask in a word are not those of a variable. -/
def Avoids
    (bits : ContextBitRange)
    (num : Nat)
    (mask : BitVec 32) : Prop :=
  num ≠ bits.word ∨ mask &&& bits.placed = 0

theorem getLsbD_mask_new
    (sbit ebit index : Nat) :
    (new sbit ebit).mask.getLsbD index =
      decide (sbit - sbit / 32 * 32 +
        (32 - (ebit - sbit / 32 * 32) - 1) + index < 32) := by
  unfold new
  rw [BitVec.getLsbD_ushiftRight, BitVec.getLsbD_allOnes]

theorem proper_new
    {sbit ebit : Nat}
    (hOrder : sbit ≤ ebit)
    (hWord : ebit / 32 = sbit / 32) :
    (new sbit ebit).Proper where
  nonempty := by
    rw [getLsbD_mask_new]
    apply decide_eq_true
    omega
  fits := by
    intro index hIndex
    rw [getLsbD_mask_new] at hIndex
    have hLow := of_decide_eq_true hIndex
    change 32 - (ebit - sbit / 32 * 32) - 1 + index < 32
    omega

theorem Proper.getLsbD_placed
    {bits : ContextBitRange}
    (hProper : bits.Proper)
    (index : Nat) :
    bits.placed.getLsbD (bits.shift + index) =
      bits.mask.getLsbD index := by
  unfold placed
  rw [BitVec.getLsbD_shiftLeft]
  by_cases hIndex : bits.mask.getLsbD index = true
  · have hBound := hProper.fits index hIndex
    simp [hBound]
  · simp [Bool.eq_false_iff.mpr hIndex]

theorem Proper.placed_ne_zero
    {bits : ContextBitRange}
    (hProper : bits.Proper) :
    bits.placed ≠ 0 := by
  intro hZero
  have hLowest := hProper.getLsbD_placed 0
  rw [hProper.nonempty, hZero] at hLowest
  simp at hLowest

/- Variables of bits that are apart avoid each other. -/
theorem avoids_new
    {sbit ebit sbit' ebit' : Nat}
    (hWord : ebit / 32 = sbit / 32)
    (hWord' : ebit' / 32 = sbit' / 32)
    (hApart : ebit < sbit' ∨ ebit' < sbit) :
    (new sbit ebit).Avoids (new sbit' ebit').word
      (new sbit' ebit').placed := by
  by_cases hSame : sbit' / 32 = sbit / 32
  · right
    apply BitVec.eq_of_getLsbD_eq
    intro index hIndex
    unfold placed
    rw [BitVec.getLsbD_and, BitVec.getLsbD_shiftLeft,
      BitVec.getLsbD_shiftLeft, getLsbD_mask_new,
      getLsbD_mask_new]
    change (_ && !decide (index <
        32 - (ebit' - sbit' / 32 * 32) - 1) &&
        decide (_ + (index -
          (32 - (ebit' - sbit' / 32 * 32) - 1)) < 32) &&
      (_ && !decide (index <
          32 - (ebit - sbit / 32 * 32) - 1) &&
        decide (_ + (index -
          (32 - (ebit - sbit / 32 * 32) - 1)) < 32))) = _
    have hZero : (0 : BitVec 32).getLsbD index = false :=
      BitVec.getLsbD_zero
    rw [hZero, Bool.eq_false_iff]
    simp only [ne_eq, Bool.and_eq_true, Bool.not_eq_true',
      decide_eq_true_eq, decide_eq_false_iff_not]
    omega
  · exact Or.inl hSame

/- The bits that a write to the variable leaves. -/
theorem Proper.getValue_setBits
    {bits : ContextBitRange}
    (hProper : bits.Proper)
    {vec : List (BitVec 32)}
    (hWord : bits.word < vec.length)
    (value : BitVec 32) :
    bits.getValue (setBits bits.word bits.placed value vec) =
      (value >>> bits.shift) &&& bits.mask := by
  unfold getValue setBits
  rw [List.getD_eq_getElem?_getD, List.getElem?_modify_eq,
    List.getElem?_eq_getElem hWord]
  apply BitVec.eq_of_getLsbD_eq
  intro index _
  simp only [Option.map_eq_map, Option.map_some,
    Option.getD_some, BitVec.getLsbD_and,
    BitVec.getLsbD_ushiftRight, BitVec.getLsbD_or,
    BitVec.getLsbD_not, hProper.getLsbD_placed]
  cases hMask : bits.mask.getLsbD index with
  | true =>
      simp only [Bool.not_true, Bool.and_false,
        Bool.false_or, Bool.and_true]
  | false => simp only [Bool.and_false]

theorem Proper.shiftRight_placed
    {bits : ContextBitRange}
    (hProper : bits.Proper)
    (val : BitVec 32) :
    (((val &&& bits.mask) <<< bits.shift) >>> bits.shift) &&&
        bits.mask =
      val &&& bits.mask := by
  apply BitVec.eq_of_getLsbD_eq
  intro index _
  simp only [BitVec.getLsbD_and, BitVec.getLsbD_ushiftRight,
    BitVec.getLsbD_shiftLeft]
  by_cases hMask : bits.mask.getLsbD index = true
  · have hBound := hProper.fits index hMask
    have hAbove : ¬ bits.shift + index < bits.shift := by
      omega
    simp only [hMask, Bool.and_true, hBound, hAbove,
      decide_true, decide_false, Bool.not_false,
      Bool.true_and, Nat.add_sub_cancel_left]
  · simp only [Bool.eq_false_iff.mpr hMask, Bool.and_false]

/- A value that is set is read back, cut off to its bits. -/
theorem Proper.getValue_setValue
    {bits : ContextBitRange}
    (hProper : bits.Proper)
    {vec : List (BitVec 32)}
    (hWord : bits.word < vec.length)
    (val : BitVec 32) :
    bits.getValue (bits.setValue val vec) =
      val &&& bits.mask := by
  change bits.getValue (setBits bits.word bits.placed
    ((val &&& bits.mask) <<< bits.shift) vec) = _
  rw [hProper.getValue_setBits hWord,
    hProper.shiftRight_placed]

/- Writes to other bits leave the variable as it is. -/
theorem Proper.getValue_setBits_of_avoids
    {bits : ContextBitRange}
    (hProper : bits.Proper)
    {num : Nat}
    {mask value : BitVec 32}
    (hAvoids : bits.Avoids num mask)
    (hInside : value &&& ~~~mask = 0)
    (vec : List (BitVec 32)) :
    bits.getValue (setBits num mask value vec) =
      bits.getValue vec := by
  unfold getValue setBits
  rw [List.getD_eq_getElem?_getD, List.getD_eq_getElem?_getD]
  by_cases hSame : num = bits.word
  · rw [hSame, List.getElem?_modify_eq]
    have hApart := hAvoids.resolve_left
      (fun hNe => hNe hSame)
    cases hOld : vec[bits.word]? with
    | none => rfl
    | some old =>
        apply BitVec.eq_of_getLsbD_eq
        intro index _
        simp only [Option.map_eq_map, Option.map_some,
          Option.getD_some, BitVec.getLsbD_and,
          BitVec.getLsbD_ushiftRight, BitVec.getLsbD_or]
        by_cases hMask : bits.mask.getLsbD index = true
        · have hBound := hProper.fits index hMask
          -- neither the mask nor the value has this bit
          have hNotMask := congrArg
            (fun word => word.getLsbD (bits.shift + index))
            hApart
          have hNotValue := congrArg
            (fun word => word.getLsbD (bits.shift + index))
            hInside
          simp only [BitVec.getLsbD_and, hMask,
            hProper.getLsbD_placed, Bool.and_true,
            BitVec.getLsbD_not, hBound, decide_true,
            Bool.true_and] at hNotMask hNotValue
          have hMaskBit :
              mask.getLsbD (bits.shift + index) = false := by
            simpa using hNotMask
          have hValueBit :
              value.getLsbD (bits.shift + index) = false := by
            simpa [hMaskBit] using hNotValue
          simp only [BitVec.getLsbD_not, hMaskBit, hValueBit,
            hBound, decide_true, Bool.not_false,
            Bool.and_true, Bool.or_false]
        · simp only [Bool.eq_false_iff.mpr hMask,
            Bool.and_false]
  · rw [List.getElem?_modify_ne _ _ hSame]

end ContextBitRange

end LLDBGhidra

------------------------------------------------------------
-- The Database of Contexts
------------------------------------------------------------

namespace LLDBGhidra

/- A register and the value that it is known to have. -/
structure TrackedContext where
  loc : VarnodeData
  val : BitVec 64
deriving DecidableEq, Repr

abbrev TrackedSet := List TrackedContext

/-
  The words of a context blob, and the bits of them that were
  set at the split point itself.
-/
structure FreeArray
    (size : Nat) where
  array : List (BitVec 32)
  mask : List (BitVec 32)
  length_array : array.length = size
  length_mask : mask.length = size

namespace FreeArray

variable {size : Nat}

def empty : FreeArray 0 :=
  ⟨[], [], rfl, rfl⟩

/- Change the number of words; new ones are zero. -/
def reset
    (sz : Nat)
    (blob : FreeArray size) : FreeArray sz where
  array := blob.array.take sz ++ List.replicate (sz - size) 0
  mask := blob.mask.take sz ++ List.replicate (sz - size) 0
  length_array := by
    rw [List.length_append, List.length_take,
      blob.length_array, List.length_replicate]
    omega
  length_mask := by
    rw [List.length_append, List.length_take,
      blob.length_mask, List.length_replicate]
    omega

/- `operator=`, which does not copy what was set. -/
def copy
    (op2 : FreeArray size) : FreeArray size where
  array := op2.array
  mask := List.replicate size 0
  length_array := op2.length_array
  length_mask := List.length_replicate

/- Note that bits of a word are definitely set. -/
def markMask
    (num : Nat)
    (mask : BitVec 32)
    (blob : FreeArray size) : FreeArray size where
  array := blob.array
  mask := blob.mask.modify num (fun old => old ||| mask)
  length_array := blob.length_array
  length_mask := by rw [List.length_modify, blob.length_mask]

/- Were bits of the mask set here? -/
def hasMask
    (num : Nat)
    (mask : BitVec 32)
    (blob : FreeArray size) : Bool :=
  blob.mask.getD num 0 &&& mask ≠ 0

def setArray
    (num : Nat)
    (mask value : BitVec 32)
    (blob : FreeArray size) : FreeArray size where
  array := setBits num mask value blob.array
  mask := blob.mask
  length_array := by
    unfold setBits
    rw [List.length_modify, blob.length_array]
  length_mask := blob.length_mask

/-
  `getRegionToChangePoint` up to its loop: the bits are set at
  the address itself.
-/
def markChangePoint
    (addr : AddressPoint)
    (num : Nat)
    (mask : BitVec 32)
    (database : PartMap AddressPoint (FreeArray size)) :
    PartMap AddressPoint (FreeArray size) :=
  (database.split copy addr).updateAt addr
    (fun blob => blob.markMask num mask)

/- Where the loop ends: bits were set here before. -/
def nextChangePoint
    (addr : AddressPoint)
    (num : Nat)
    (mask : BitVec 32)
    (database : PartMap AddressPoint (FreeArray size)) :
    Option AddressPoint :=
  database.findAfter addr (fun blob => blob.hasMask num mask)

end FreeArray

/-
  All blobs have the words of all variables; a variable is in
  one word.
-/
structure ContextInternal where
  size : Nat
  variableMap : List (String × ContextBitRange)
  database : PartMap AddressPoint (FreeArray size)
  trackbase : PartMap AddressPoint TrackedSet
  proper :
    ∀ nm bits, variableMap.lookup nm = some bits →
      bits.Proper ∧ bits.word < size

namespace ContextInternal

def new : ContextInternal where
  size := 0
  variableMap := []
  database := PartMap.constant .empty
  trackbase := PartMap.constant []
  proper := by
    intro nm bits hLookup
    cases hLookup

/- A variable with its own words keeps the others proper. -/
theorem proper_cons
    (context : ContextInternal)
    (nm : String)
    {sbit ebit sz : Nat}
    (hOrder : sbit ≤ ebit)
    (hWord : ebit / 32 = sbit / 32)
    (hFits : sbit / 32 < sz)
    (hGrow : context.size ≤ sz)
    (other : String)
    (bits : ContextBitRange)
    (hLookup :
      ((nm, ContextBitRange.new sbit ebit) ::
        context.variableMap).lookup other = some bits) :
    bits.Proper ∧ bits.word < sz := by
  rw [List.lookup_cons] at hLookup
  by_cases hName : other == nm
  · simp only [hName, Option.some.injEq] at hLookup
    rw [← hLookup]
    exact ⟨ContextBitRange.proper_new hOrder hWord, hFits⟩
  · simp only [Bool.eq_false_iff.mpr hName] at hLookup
    rcases context.proper other bits hLookup with
      ⟨hProper, hBelow⟩
    exact ⟨hProper, hBelow.trans_le hGrow⟩

/- Only a database without split points takes variables. -/
def registerVariable
    (nm : String)
    (sbit ebit : Nat)
    (context : ContextInternal) : Except Halt ContextInternal :=
  if context.database.database ≠ [] then
    .error (lowlevelError
      "Cannot register new context variables after database is initialized")
  else if hWord : ebit / 32 ≠ sbit / 32 then
    .error (lowlevelError
      "Context variable does not fit in one word")
  else if hOrder : ebit < sbit then
    -- the mask would be shifted by the width of its type
    .error .undefined
  else
    let sz := sbit / 32 + 1
    if hGrow : context.size < sz then
      .ok {
        size := sz
        variableMap :=
          (nm, .new sbit ebit) :: context.variableMap
        database :=
          PartMap.constant
            (context.database.defaultValue.reset sz)
        trackbase := context.trackbase
        proper :=
          context.proper_cons nm (Nat.not_lt.mp hOrder)
            (not_not.mp hWord) (Nat.lt_succ_self _)
            (Nat.le_of_lt hGrow) }
    else
      .ok { context with
        variableMap :=
          (nm, .new sbit ebit) :: context.variableMap
        proper :=
          context.proper_cons nm (Nat.not_lt.mp hOrder)
            (not_not.mp hWord) (Nat.not_lt.mp hGrow) le_rfl }

/- The variable of a name. -/
def getVariable
    (nm : String)
    (context : ContextInternal) :
    Except Halt ContextBitRange :=
  match context.variableMap.lookup nm with
  | none =>
      .error (lowlevelError
        ("Non-existent context variable: " ++ nm))
  | some bits => .ok bits

/- The blob of an address. -/
def getContext
    (addr : AddressPoint)
    (context : ContextInternal) : List (BitVec 32) :=
  (context.database.getValue addr).array

/- The value of a variable at an address. -/
def getVariableAt
    (nm : String)
    (addr : AddressPoint)
    (context : ContextInternal) : Except Halt (BitVec 32) := do
  let bitrange ← context.getVariable nm
  return bitrange.getValue (context.getContext addr)

def getDefaultValue
    (nm : String)
    (context : ContextInternal) : Except Halt (BitVec 32) := do
  let var ← context.getVariable nm
  return var.getValue context.database.defaultValue.array

/- The end of a region, which has none if it is invalid. -/
def regionEnd
    (addr2 : AddressPoint) : Option AddressPoint :=
  if addr2.isInvalid then none else some addr2

/-
  Set bits from an address up to another one.  The loop runs
  past all split points if they are in the other order.
-/
def setContextRegion
    (addr1 addr2 : AddressPoint)
    (num : Nat)
    (mask value : BitVec 32)
    (context : ContextInternal) : Except Halt ContextInternal :=
  if context.size ≤ num then
    .error .undefined
  else if ¬ addr2.isInvalid ∧ addr2 < addr1 then
    .error .undefined
  else
    .ok { context with
      database :=
        context.database.paint FreeArray.copy addr1
          (regionEnd addr2)
          (fun blob => (blob.markMask num mask).setArray num
            mask value) }

/-
  Set bits from an address up to the next one where some of
  them were set.
-/
def setContextChangePoint
    (addr : AddressPoint)
    (num : Nat)
    (mask value : BitVec 32)
    (context : ContextInternal) : Except Halt ContextInternal :=
  if context.size ≤ num then
    .error .undefined
  else
    let marked :=
      FreeArray.markChangePoint addr num mask context.database
    .ok { context with
      database :=
        marked.updateRange addr
          (FreeArray.nextChangePoint addr num mask marked)
          (fun blob => blob.setArray num mask value) }

def setVariableDefault
    (nm : String)
    (val : BitVec 32)
    (context : ContextInternal) :
    Except Halt ContextInternal := do
  let var ← context.getVariable nm
  return { context with
    database :=
      context.database.updateDefault (fun blob =>
        blob.setArray var.word var.placed
          ((val &&& var.mask) <<< var.shift)) }

/- `setValue` is a write to the bits of the variable. -/
def setVariable
    (nm : String)
    (addr : AddressPoint)
    (value : BitVec 32)
    (context : ContextInternal) :
    Except Halt ContextInternal := do
  let bitrange ← context.getVariable nm
  context.setContextChangePoint addr bitrange.word
    bitrange.placed ((value &&& bitrange.mask) <<<
      bitrange.shift)

def setVariableRegion
    (nm : String)
    (begad endad : AddressPoint)
    (value : BitVec 32)
    (context : ContextInternal) :
    Except Halt ContextInternal := do
  let bitrange ← context.getVariable nm
  context.setContextRegion begad endad bitrange.word
    bitrange.placed ((value &&& bitrange.mask) <<<
      bitrange.shift)

def getTrackedSet
    (addr : AddressPoint)
    (context : ContextInternal) : TrackedSet :=
  context.trackbase.getValue addr

/-
  Make room for the registers of a range.  Split points are
  thrown away up to the end, which has to come after.
-/
def createSet
    (addr1 addr2 : AddressPoint)
    (context : ContextInternal) : Except Halt ContextInternal :=
  if addr2 ≤ addr1 then
    .error .undefined
  else
    .ok { context with
      trackbase :=
        (context.trackbase.clearRange id addr1 addr2).updateAt
          addr1 (fun _ => []) }

end ContextInternal

end LLDBGhidra
