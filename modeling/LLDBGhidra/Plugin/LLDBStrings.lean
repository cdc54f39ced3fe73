import LLDBGhidra.Decompiler.StringDecode
import LLDBGhidra.Plugin.LLDBLoadImage

/-
  Strings read through the debugger: which of them come from
  memory that was really read.

  Main declarations:
    * `LLDBLoadImage.stringBytes`
    * `LLDBLoadImage.getStringData_spec`
    * `LLDBLoadImage.only_supplied_iff`
-/

------------------------------------------------------------
-- The Bytes of a String
------------------------------------------------------------

namespace LLDBGhidra

namespace LLDBLoadImage

open StringManager
open StringManagerUnicode

/- What the string manager reads at most. -/
def maximumString : Nat :=
  2048

/- Where the 32 bytes with the given index are read. -/
def chunkAddress
    (space : AddrSpace)
    (addr : Address)
    (index : Nat) : Address :=
  advance space addr (32 * (index / 32))

/- The byte at an index is supplied by a read of its chunk. -/
def SuppliedAt
    (image : LLDBLoadImage)
    (space : AddrSpace)
    (addr : Address)
    (index : Nat)
    (byte : Byte) : Prop :=
  image.Supplied (chunkAddress space addr index) 32
    (index % 32) byte

/- The byte at an index: read last, or zero. -/
def stringByte
    (image : LLDBLoadImage)
    (space : AddrSpace)
    (addr : Address)
    (index : Nat) : Byte :=
  (image.lastBytes (chunkAddress space addr index)
    32)[index % 32]?.getD 0

/- The bytes of the longest string, with zeroes for others. -/
def stringBytes
    (image : LLDBLoadImage)
    (space : AddrSpace)
    (addr : Address) : List Byte :=
  (List.range maximumString).map
    (image.stringByte space addr)

variable {image : LLDBLoadImage}
variable {space : AddrSpace}
variable {addr : Address}
variable {index : Nat}

theorem byteAt_stringBytes
    (hIndex : index < maximumString) :
    byteAt (image.stringBytes space addr) index =
      (image.stringByte space addr index).toNat := by
  unfold byteAt stringBytes
  rw [List.getD_eq_getElem?_getD, List.getElem?_map,
    List.getElem?_range hIndex]
  rfl

/- The chunk that starts at a multiple of 32. -/
theorem stringByte_chunk
    (start : Nat)
    (hIndex : index < 32) :
    image.stringByte space addr (32 * start + index) =
      (image.lastBytes (advance space addr (32 * start))
        32)[index]?.getD 0 := by
  unfold stringByte chunkAddress
  have hDiv : (32 * start + index) / 32 = start := by omega
  have hMod : (32 * start + index) % 32 = index := by omega
  rw [hDiv, hMod]

/- Filling a chunk of the buffer. -/
theorem fillBuffer_eq
    {testBuffer : List Byte}
    {start : Nat}
    (hLength : 32 * start + 32 ≤ testBuffer.length)
    (hAgree : AgreeUpTo (32 * start) testBuffer
      (image.stringBytes space addr))
    (hMaximum : 32 * start + 32 ≤ maximumString) :
    ∃ filled,
      fillBuffer image.toLoadImage
          (advance space addr (32 * start)) (32 * start) 32
          testBuffer = .ok filled ∧
        filled.length = testBuffer.length ∧
        AgreeUpTo (32 * start + 32) filled
          (image.stringBytes space addr) := by
  have hFill :
      image.loadFill (some (testBuffer.drop (32 * start)))
          ((32 : Nat) : Int)
          (advance space addr (32 * start)) = .ok (some _) :=
    loadFill_eq (by decide)
  have hChunk := fun index (hIndex : index < 32) =>
    getElem?_of_loadFill hFill hIndex
  generalize hOut :
    image.lastBytes (advance space addr (32 * start))
        ((32 : Nat) : Int).toNat ++
      List.replicate (((32 : Nat) : Int).toNat -
        (image.lastBytes (advance space addr (32 * start))
          ((32 : Nat) : Int).toNat).length) 0 ++
      (testBuffer.drop (32 * start)).drop
        ((32 : Nat) : Int).toNat = out at hFill hChunk
  have hOutLength :
      out.length = testBuffer.length - 32 * start := by
    have hLast := image.length_lastBytes_le
      (advance space addr (32 * start))
      ((32 : Nat) : Int).toNat
    rw [← hOut, List.length_append, List.length_append,
      List.length_replicate, Nat.add_sub_cancel' hLast,
      List.length_drop, List.length_drop, Int.toNat_natCast]
    omega
  have hTake : (testBuffer.take (32 * start)).length =
      32 * start := by
    rw [List.length_take]
    omega
  refine ⟨testBuffer.take (32 * start) ++ out, ?_, ?_, ?_⟩
  · unfold fillBuffer toLoadImage
    simp only [hFill]
    rfl
  · rw [List.length_append, hTake, hOutLength]
    omega
  · intro index hIndex
    by_cases hOld : index < 32 * start
    · rw [← hAgree index hOld]
      unfold byteAt
      rw [List.getD_eq_getElem?_getD,
        List.getD_eq_getElem?_getD,
        List.getElem?_append_left (by rw [hTake]; exact hOld),
        List.getElem?_take_of_lt hOld]
    · have hNew : 32 * start ≤ index := not_lt.mp hOld
      rw [byteAt_stringBytes (lt_of_lt_of_le hIndex hMaximum)]
      rcases Nat.exists_eq_add_of_le hNew with ⟨byte, rfl⟩
      have hByte : byte < 32 := by omega
      unfold byteAt
      rw [List.getD_eq_getElem?_getD,
        List.getElem?_append_right (by rw [hTake]; exact hNew),
        hTake, Nat.add_sub_cancel_left, hChunk byte hByte,
        stringByte_chunk start hByte]
      rfl

end LLDBLoadImage

end LLDBGhidra

------------------------------------------------------------
-- Reading to a Terminator
------------------------------------------------------------

namespace LLDBGhidra

namespace StringManager

variable {buf other : List Byte}
variable {charsize nul stop : Nat}

/- A zero character is one in a buffer with the same bytes. -/
theorem ZeroAt.congr
    (hZero : ZeroAt buf charsize nul)
    (hAgree : AgreeUpTo stop buf other)
    (hStop : nul + charsize ≤ stop) :
    ZeroAt other charsize nul := by
  refine ⟨hZero.1, ?_⟩
  intro byte hByte
  rw [← hAgree _ (by omega)]
  exact hZero.2 byte hByte

/- A character starts and ends in the same chunk. -/
theorem ZeroAt.le_chunk
    {start : Nat}
    (hCharsize : IsCharsize charsize)
    (hZero : ZeroAt buf charsize nul)
    (hChunk : nul < 32 * start + 32) :
    nul + charsize ≤ 32 * start + 32 := by
  have hAligned := hZero.1
  rcases hCharsize with rfl | rfl | rfl
  · omega
  · omega
  · omega

/- A zero character of a chunk. -/
theorem zeroAt_drop_chunk
    {start byte : Nat}
    (hCharsize : IsCharsize charsize) :
    ZeroAt (buf.drop (32 * start)) charsize byte ↔
      ZeroAt buf charsize (32 * start + byte) := by
  have hAligned :
      (32 * start + byte) % charsize = byte % charsize := by
    rcases hCharsize with rfl | rfl | rfl
    · omega
    · omega
    · omega
  unfold ZeroAt
  simp only [byteAt_drop, hAligned, Nat.add_assoc]

end StringManager

namespace LLDBLoadImage

open StringManager
open StringManagerUnicode

variable {image : LLDBLoadImage}
variable {space : AddrSpace}
variable {addr : Address}
variable {charsize : Nat}

/- What reading to a terminator leads to. -/
inductive ReadTo
    (bytes : List Byte)
    (charsize : Nat)
    (start : Nat) :
    Except Exn (Option Nat) × List Byte → Prop where
| missing
    (testBuffer : List Byte)
    (hLength : testBuffer.length = maximumString)
    (hNone : IsCharsize charsize → ∀ nul < maximumString,
      start ≤ nul → ¬ ZeroAt bytes charsize nul) :
    ReadTo bytes charsize start (.ok none, testBuffer)
| found
    (testBuffer : List Byte)
    (size : Nat)
    (hLength : testBuffer.length = maximumString)
    (hPositive : 0 < size)
    (hSize : size ≤ maximumString)
    (hAgree : AgreeUpTo size testBuffer bytes)
    (hZero : IsCharsize charsize → ∃ nul,
      ZeroAt bytes charsize nul ∧ nul + charsize ≤ size) :
    ReadTo bytes charsize start
      (.ok (some size), testBuffer)

/- A chunk without a terminator can be passed over. -/
theorem ReadTo.of_chunk
    {bytes filled : List Byte}
    {start : Nat}
    {result : Except Exn (Option Nat) × List Byte}
    (hRest : ReadTo bytes charsize (32 * (start + 1)) result)
    (hAgree : AgreeUpTo (32 * start + 32) filled bytes)
    (hNone : ¬ ∃ byte < 32,
      ZeroAt (filled.drop (32 * start)) charsize byte) :
    ReadTo bytes charsize (32 * start) result := by
  cases hRest with
  | found testBuffer size hLength hPositive hSize hFound
      hZero =>
      exact ReadTo.found testBuffer size hLength hPositive
        hSize hFound hZero
  | missing testBuffer hLength hLater =>
      apply ReadTo.missing testBuffer hLength
      intro hCharsize nul hNul hAfter hZero
      by_cases hHere : nul < 32 * start + 32
      · have hInside := hZero.le_chunk hCharsize hHere
        have hFilled := hZero.congr hAgree.symm hInside
        rcases Nat.exists_eq_add_of_le hAfter with ⟨byte, rfl⟩
        exact hNone ⟨byte, by omega,
          (zeroAt_drop_chunk hCharsize).mpr hFilled⟩
      · exact hLater hCharsize nul hNul (by omega) hZero

/-
  The chunks are read up to a terminator if there is one, and
  to the end otherwise.
-/
theorem readChunks_spec
    {testBuffer : List Byte}
    {fuel start : Nat}
    (hLength : testBuffer.length = maximumString)
    (hStart : 32 * start ≤ maximumString)
    (hFuel : maximumString < 32 * start + fuel)
    (hAgree : AgreeUpTo (32 * start) testBuffer
      (image.stringBytes space addr)) :
    ReadTo (image.stringBytes space addr) charsize
      (32 * start)
      (readChunks image.toLoadImage space addr maximumString
        charsize fuel (32 * start) testBuffer) := by
  induction fuel generalizing start testBuffer with
  | zero => omega
  | succ fuel ih =>
      unfold readChunks
      by_cases hEnd : 32 * start = maximumString
      · have hAmount :
            (if maximumString < 32 * start + 32 then
              maximumString
            else
              32 * start + 32) - 32 * start = 0 := by
          rw [if_pos (by omega), hEnd, Nat.sub_self]
        simp only [hAmount, if_true]
        apply ReadTo.missing _ hLength
        intro _ nul hNul hAfter
        omega
      · have hNext : 32 * start + 32 ≤ maximumString := by
          unfold maximumString at hStart hEnd ⊢
          omega
        have hSize :
            (if maximumString < 32 * start + 32 then
              maximumString
            else
              32 * start + 32) = 32 * start + 32 :=
          if_neg (not_lt.mpr hNext)
        rcases fillBuffer_eq (by rw [hLength]; exact hNext)
            hAgree hNext with
          ⟨filled, hFill, hFilled, hFilledAgree⟩
        rw [hLength] at hFilled
        simp only [hSize, Nat.add_sub_cancel_left,
          OfNat.ofNat_ne_zero, if_false, hFill]
        have hTerminator := hasCharTerminator_iff
          (filled.drop (32 * start)) 32 charsize
        cases hFound : hasCharTerminator
            (filled.drop (32 * start)) 32 charsize with
        | true =>
            rcases hTerminator.mp hFound with
              ⟨byte, hByte, hZero⟩
            apply ReadTo.found filled (32 * start + 32) hFilled
              (Nat.succ_pos _) hNext hFilledAgree
            intro hCharsize
            rw [zeroAt_drop_chunk hCharsize] at hZero
            have hInside := hZero.le_chunk hCharsize
              (Nat.add_lt_add_left hByte _)
            exact ⟨32 * start + byte,
              hZero.congr hFilledAgree hInside, hInside⟩
        | false =>
            have hRest :
                ReadTo (image.stringBytes space addr) charsize
                  (32 * (start + 1))
                  (readChunks image.toLoadImage space addr
                    maximumString charsize fuel
                    (32 * (start + 1)) filled) :=
              ih hFilled (by omega) (by omega) hFilledAgree
            simp only [Bool.false_eq_true, if_false]
            exact hRest.of_chunk hFilledAgree
              (fun hAny => absurd (hTerminator.mpr hAny)
                (by rw [hFound]; exact Bool.false_ne_true))

end LLDBLoadImage

end LLDBGhidra

------------------------------------------------------------
-- One String
------------------------------------------------------------

namespace LLDBGhidra

namespace LLDBLoadImage

open StringManager
open StringManagerUnicode

variable {image : LLDBLoadImage}
variable {space : AddrSpace}
variable {addr : Address}
variable {charType : CharType}
variable {manager : StringManagerUnicode}

@[simp] theorem length_stringBytes
    (image : LLDBLoadImage)
    (space : AddrSpace)
    (addr : Address) :
    (image.stringBytes space addr).length =
      maximumString := by
  unfold stringBytes
  rw [List.length_map, List.length_range]

/- What a request for a string that is not cached leads to. -/
inductive StringOf
    (bytes : List Byte)
    (charsize : Nat)
    (bigend : Bool) :
    Except Exn StringData × StringManagerUnicode → Prop where
| missing
    (manager : StringManagerUnicode)
    (hLength : manager.testBuffer.length = maximumString)
    (hNone :
      hasCharTerminator bytes maximumString charsize = false ∨
        terminatorEnd bytes charsize bigend = none) :
    StringOf bytes charsize bigend (.ok ⟨false, []⟩, manager)
| decoded
    (manager : StringManagerUnicode)
    (data : StringData)
    (stop : Nat)
    (hLength : manager.testBuffer.length = maximumString)
    (hFound :
      hasCharTerminator bytes maximumString charsize = true)
    (hBytes : data.byteData ≠ [])
    (hStop : stop ≤ maximumString)
    (hEnd : terminatorEnd bytes charsize bigend = some stop)
    (hDecoded : terminatorEnd manager.testBuffer charsize
      bigend = some stop)
    (hAgree : AgreeUpTo stop manager.testBuffer bytes) :
    StringOf bytes charsize bigend (.ok data, manager)

/- Decoding a filled buffer that has a zero character. -/
theorem decode_found
    {bytes testBuffer : List Byte}
    {charsize nul size : Nat}
    {bigend : Bool}
    (hCharsize : IsCharsize charsize)
    (hBytes : bytes.length = maximumString)
    (hLength : testBuffer.length = maximumString)
    (hZero : ZeroAt bytes charsize nul)
    (hInside : nul + charsize ≤ size)
    (hSize : size ≤ maximumString)
    (hAgree : AgreeUpTo size testBuffer bytes) :
    terminatorEnd bytes charsize bigend =
        terminatorEnd testBuffer charsize bigend ∧
      (checkCharacters testBuffer size charsize bigend).isSome =
        (terminatorEnd testBuffer charsize bigend).isSome ∧
      ∀ stop, terminatorEnd testBuffer charsize bigend =
        some stop → stop ≤ nul + charsize := by
  have hNul : nul < size := by
    rcases hCharsize with rfl | rfl | rfl
    · omega
    · omega
    · omega
  have hBefore : Before bytes charsize nul maximumString 0 :=
    ⟨hCharsize, hZero, Nat.zero_mod _, Nat.zero_le _,
      by omega⟩
  have hBuffer :
      Before testBuffer charsize nul maximumString 0 :=
    ⟨hCharsize, hZero.congr hAgree.symm hInside,
      Nat.zero_mod _, Nat.zero_le _, by omega⟩
  unfold terminatorEnd checkCharacters
  rw [hBytes, hLength]
  refine ⟨?_, ?_, ?_⟩
  · apply hBefore.terminatorEnd_congr (by omega)
    intro index hIndex
    exact hAgree.symm index (lt_of_lt_of_le hIndex hInside)
  · exact hBuffer.checkCharacters_isSome (by omega) hNul
  · intro stop hEnd
    exact hBuffer.terminatorEnd_le hEnd

/- A string that is not cached is read and decoded. -/
theorem getStringData_spec
    (hMaximum : manager.maximumChars = maximumString)
    (hLength : manager.testBuffer.length = maximumString)
    (hFresh : manager.stringMap addr = none)
    (hOpaque : charType.isOpaqueString = false) :
    StringOf (image.stringBytes space addr) charType.size
      space.bigEndian
      (manager.getStringData image.toLoadImage space addr
        charType) := by
  have hRead :
      ReadTo (image.stringBytes space addr) charType.size
        (32 * 0)
        (readChunks image.toLoadImage space addr maximumString
          charType.size (maximumString + 1) (32 * 0)
          manager.testBuffer) :=
    readChunks_spec hLength (Nat.zero_le _) (by omega)
      (fun index hIndex => absurd hIndex (Nat.not_lt_zero _))
  unfold getStringData
  simp only [hFresh, hOpaque, Bool.false_eq_true, if_false,
    hMaximum]
  generalize readChunks image.toLoadImage space addr
    maximumString charType.size (maximumString + 1) (32 * 0)
    manager.testBuffer = result at hRead
  by_cases hCharsize : IsCharsize charType.size
  · cases hRead with
    | missing testBuffer hFilled hNone =>
        apply StringOf.missing _ hFilled
        left
        rw [Bool.eq_false_iff, Ne, hasCharTerminator_iff]
        rintro ⟨nul, hNul, hZero⟩
        exact hNone hCharsize nul hNul (Nat.zero_le _) hZero
    | found testBuffer size hFilled hPositive hSize hAgree
        hZero =>
        rcases hZero hCharsize with ⟨nul, hNul, hInside⟩
        rcases decode_found hCharsize
            (image.length_stringBytes space addr) hFilled hNul
            hInside hSize hAgree with
          ⟨hSame, hLegal, hStop⟩
        simp only []
        cases hCheck : checkCharacters testBuffer size
            charType.size space.bigEndian with
        | none =>
            rw [hCheck] at hLegal
            apply StringOf.missing _ hFilled
            right
            rw [hSame]
            exact Option.isNone_iff_eq_none.mp
              (Option.isSome_eq_false_iff.mp hLegal.symm)
        | some numChars =>
            rw [hCheck] at hLegal
            rcases Option.isSome_iff_exists.mp hLegal.symm with
              ⟨stop, hEnd⟩
            have hStopLe := hStop stop hEnd
            apply StringOf.decoded _ _ stop hFilled
            · rw [hasCharTerminator_iff]
              refine ⟨nul, ?_, hNul⟩
              rcases hCharsize with hOne | hTwo | hFour
              · omega
              · omega
              · omega
            · apply byteData_assignStringData hCheck hPositive
              rw [hFilled]
              decide
            · omega
            · rw [hSame]
              exact hEnd
            · exact hEnd
            · intro index hIndex
              exact hAgree index (by omega)
  · have hIllegal :
        terminatorEnd (image.stringBytes space addr)
          charType.size space.bigEndian = none :=
      terminatorEnd_of_not_isCharsize hCharsize
    cases hRead with
    | missing testBuffer hFilled hNone =>
        exact StringOf.missing _ hFilled (Or.inr hIllegal)
    | found testBuffer size hFilled hPositive hSize hAgree
        hZero =>
        simp only [checkCharacters_of_not_isCharsize hCharsize
          hPositive]
        exact StringOf.missing _ hFilled (Or.inr hIllegal)

end LLDBLoadImage

end LLDBGhidra

------------------------------------------------------------
-- Made-up Strings
------------------------------------------------------------

namespace LLDBGhidra

namespace LLDBLoadImage

open StringManager
open StringManagerUnicode

variable {image : LLDBLoadImage}
variable {space : AddrSpace}
variable {addr : Address}
variable {charType : CharType}
variable {manager : StringManagerUnicode}

/-
  What a request for a string should guarantee: there is one
  only if every byte up to the end of the terminator that was
  decoded was supplied by a read.
-/
def ReallyRead
    (image : LLDBLoadImage)
    (space : AddrSpace)
    (addr : Address)
    (charType : CharType)
    (manager : StringManagerUnicode) : Prop :=
  ∀ data manager',
    manager.getStringData image.toLoadImage space addr
        charType = (.ok data, manager') →
      data.byteData ≠ [] →
        ∃ stop,
          terminatorEnd manager'.testBuffer charType.size
              space.bigEndian = some stop ∧
            ∀ index < stop, ∃ byte,
              manager'.testBuffer[index]? = some byte ∧
                image.SuppliedAt space addr index byte

/-
  The bytes at an address, with zeroes for those that are not
  read, are legal characters up to a terminator all of whose
  bytes are available.
-/
def EndsInMemory
    (image : LLDBLoadImage)
    (space : AddrSpace)
    (addr : Address)
    (charType : CharType) : Prop :=
  ∃ stop,
    terminatorEnd (image.stringBytes space addr) charType.size
        space.bigEndian = some stop ∧
      ∀ index < stop,
        image.Available (chunkAddress space addr index) 32
          (index % 32)

/- The bytes at an address make a string. -/
def IsString
    (image : LLDBLoadImage)
    (space : AddrSpace)
    (addr : Address)
    (charType : CharType) : Prop :=
  charType.isOpaqueString = false ∧
    hasCharTerminator (image.stringBytes space addr)
      maximumString charType.size = true ∧
    (terminatorEnd (image.stringBytes space addr)
      charType.size space.bigEndian).isSome = true

/- A byte that was decoded. -/
theorem getElem?_of_agree
    {buf : List Byte}
    {stop index : Nat}
    (hLength : buf.length = maximumString)
    (hStop : stop ≤ maximumString)
    (hAgree : AgreeUpTo stop buf
      (image.stringBytes space addr))
    (hIndex : index < stop) :
    buf[index]? = some (image.stringByte space addr index) := by
  have hInside : index < buf.length := by omega
  have hByte := hAgree index hIndex
  rw [byteAt_stringBytes (by omega)] at hByte
  unfold byteAt at hByte
  rw [List.getD_eq_getElem?_getD,
    List.getElem?_eq_getElem hInside, Option.getD_some]
    at hByte
  rw [List.getElem?_eq_getElem hInside,
    BitVec.eq_of_toNat_eq hByte]

/-
  A string is really read if and only if there is none, or it
  ends in memory.
-/
theorem reallyRead_iff
    (hMaximum : manager.maximumChars = maximumString)
    (hLength : manager.testBuffer.length = maximumString)
    (hFresh : manager.stringMap addr = none) :
    image.ReallyRead space addr charType manager ↔
      (image.IsString space addr charType →
        image.EndsInMemory space addr charType) := by
  cases hOpaque : charType.isOpaqueString with
  | true =>
      constructor
      · intro _ hString
        rw [hString.1] at hOpaque
        cases hOpaque
      · intro _ data manager' hResult hBytes
        unfold getStringData at hResult
        simp only [hFresh, hOpaque, if_true] at hResult
        cases hResult
        exact absurd rfl hBytes
  | false =>
      have hSpec :
          StringOf (image.stringBytes space addr)
            charType.size space.bigEndian
            (manager.getStringData image.toLoadImage space addr
              charType) :=
        getStringData_spec hMaximum hLength hFresh hOpaque
      unfold ReallyRead
      generalize manager.getStringData image.toLoadImage space
        addr charType = result at hSpec
      cases hSpec with
      | missing manager' hFilled hNone =>
          constructor
          · rintro - ⟨-, hFound, hLegal⟩
            rcases hNone with hNotFound | hIllegal
            · rw [hNotFound] at hFound
              cases hFound
            · rw [hIllegal] at hLegal
              cases hLegal
          · intro _ data final hResult hBytes
            cases hResult
            exact absurd rfl hBytes
      | decoded manager' data stop hFilled hFound hBytes hStop
          hEnd hDecoded hAgree =>
          have hByte := fun index (hIndex : index < stop) =>
            getElem?_of_agree hFilled hStop hAgree hIndex
          constructor
          · intro hReally _
            rcases hReally data manager' rfl hBytes with
              ⟨stop', hStop', hSupplied⟩
            rw [hDecoded] at hStop'
            cases hStop'
            refine ⟨stop, hEnd, ?_⟩
            intro index hIndex
            rcases hSupplied index hIndex with
              ⟨byte, hGet, hRead⟩
            rw [hByte index hIndex] at hGet
            cases hGet
            exact (image.supplied_iff_available _ _ _).mp hRead
          · intro hMemory final manager'' hResult _
            cases hResult
            have hString : image.IsString space addr charType :=
              ⟨hOpaque, hFound, by rw [hEnd]; rfl⟩
            rcases hMemory hString with
              ⟨stop', hStop', hAvailable⟩
            rw [hEnd] at hStop'
            cases hStop'
            refine ⟨stop, hDecoded, ?_⟩
            intro index hIndex
            refine ⟨_, hByte index hIndex, ?_⟩
            exact (image.supplied_iff_available _ _ _).mpr
              (hAvailable index hIndex)

end LLDBLoadImage

end LLDBGhidra

------------------------------------------------------------
-- Runs of Requests
------------------------------------------------------------

namespace LLDBGhidra

/- A request for the string at an address. -/
structure StringRequest where
  space : AddrSpace
  addr : Address
  charType : CharType

namespace LLDBLoadImage

open StringManager
open StringManagerUnicode

variable {image : LLDBLoadImage}
variable {manager : StringManagerUnicode}

/- The manager after a list of requests. -/
def stringsAfter
    (image : LLDBLoadImage)
    (requests : List StringRequest)
    (manager : StringManagerUnicode) : StringManagerUnicode :=
  match requests with
  | [] => manager
  | request :: rest =>
      image.stringsAfter rest
        (manager.getStringData image.toLoadImage request.space
          request.addr request.charType).2

/-
  If the bytes that a request is about make a string, then it
  ends in memory.
-/
def Sound
    (image : LLDBLoadImage)
    (request : StringRequest) : Prop :=
  image.IsString request.space request.addr
      request.charType →
    image.EndsInMemory request.space request.addr
      request.charType

/- A request that is not cached caches its string. -/
theorem getStringData_eq_keep
    {addr : Address}
    (hFresh : manager.stringMap addr = none)
    (loader : LoadImage)
    (space : AddrSpace)
    (charType : CharType) :
    ∃ data testBuffer,
      (manager.getStringData loader space addr charType).2 =
          manager.keep addr data testBuffer ∧
        ((manager.getStringData loader space addr
            charType).1 = .ok data ∨
          data.byteData = []) := by
  unfold getStringData
  simp only [hFresh]
  split
  · exact ⟨_, _, rfl, Or.inr rfl⟩
  · split
    · exact ⟨_, _, rfl, Or.inr rfl⟩
    · exact ⟨_, _, rfl, Or.inr rfl⟩
    · exact ⟨_, _, rfl, Or.inr rfl⟩
    · split
      · exact ⟨_, _, rfl, Or.inr rfl⟩
      · exact ⟨_, _, rfl, Or.inl rfl⟩

/- The strings of a manager come from the requests. -/
structure ServedBy
    (image : LLDBLoadImage)
    (requests : List StringRequest)
    (manager : StringManagerUnicode) : Prop where
  maximumChars : manager.maximumChars = maximumString
  length : manager.testBuffer.length = maximumString
  requested : ∀ addr data,
    manager.stringMap addr = some data →
      data.byteData ≠ [] →
        ∃ request ∈ requests, request.addr = addr ∧
          image.IsString request.space addr request.charType

namespace ServedBy

variable {requests : List StringRequest}

/- A manager that keeps one more string. -/
theorem keep
    {addr : Address}
    {data : StringData}
    {testBuffer : List Byte}
    (hServed : ServedBy image requests manager)
    (hLength : testBuffer.length = maximumString)
    (hData : data.byteData ≠ [] →
      ∃ request ∈ requests, request.addr = addr ∧
        image.IsString request.space addr request.charType) :
    ServedBy image requests
      (manager.keep addr data testBuffer) := by
  refine ⟨hServed.maximumChars, hLength, ?_⟩
  intro other found hFound hBytes
  unfold StringManagerUnicode.keep at hFound
  simp only [] at hFound
  split at hFound
  · rename_i hSame
    cases hFound
    rw [hSame]
    exact hData hBytes
  · exact hServed.requested other found hFound hBytes

/- One more request. -/
theorem serve
    (hServed : ServedBy image requests manager)
    (request : StringRequest)
    (hRequest : request ∈ requests) :
    ServedBy image requests
      (manager.getStringData image.toLoadImage request.space
        request.addr request.charType).2 := by
  cases hFresh : manager.stringMap request.addr with
  | some data =>
      unfold getStringData
      simp only [hFresh]
      exact hServed
  | none =>
      cases hOpaque : request.charType.isOpaqueString with
      | true =>
          unfold getStringData
          simp only [hFresh, hOpaque, if_true]
          exact hServed.keep hServed.length
            (fun hBytes => absurd rfl hBytes)
      | false =>
          have hSpec :
              StringOf
                (image.stringBytes request.space request.addr)
                request.charType.size request.space.bigEndian
                (manager.getStringData image.toLoadImage
                  request.space request.addr
                  request.charType) :=
            getStringData_spec hServed.maximumChars
              hServed.length hFresh hOpaque
          have hCached := getStringData_eq_keep
            hFresh image.toLoadImage request.space
            request.charType
          generalize manager.getStringData image.toLoadImage
            request.space request.addr request.charType =
              result at hSpec hCached ⊢
          rcases hCached with ⟨data, testBuffer, hKeep, hData⟩
          cases hSpec with
          | missing manager' hFilled hNone =>
              simp only [] at hKeep hData ⊢
              rw [hKeep] at hFilled ⊢
              apply hServed.keep hFilled
              intro hBytes
              rcases hData with hOk | hEmpty
              · cases hOk
                exact absurd rfl hBytes
              · exact absurd hEmpty hBytes
          | decoded manager' final stop hFilled hFound hBytes
              hStop hEnd hDecoded hAgree =>
              simp only [] at hKeep ⊢
              rw [hKeep] at hFilled ⊢
              apply hServed.keep hFilled
              intro _
              exact ⟨request, hRequest, rfl, hOpaque, hFound,
                by rw [hEnd]; rfl⟩

/- Many more requests. -/
theorem run
    (hServed : ServedBy image requests manager)
    (more : List StringRequest)
    (hMore : ∀ request ∈ more, request ∈ requests) :
    ServedBy image requests
      (image.stringsAfter more manager) := by
  induction more generalizing manager with
  | nil => exact hServed
  | cons request rest ih =>
      have hRequest := hMore request List.mem_cons_self
      exact ih (hServed.serve request hRequest)
        (fun other hOther =>
          hMore other (List.mem_cons_of_mem _ hOther))

/- The manager that the architecture builds. -/
theorem new
    {testBuffer : List Byte}
    (hLength : testBuffer.length = maximumString) :
    ServedBy image requests
      (StringManagerUnicode.new maximumString testBuffer) := by
  refine ⟨rfl, hLength, ?_⟩
  intro addr data hData
  cases hData

end ServedBy

/-
  A request fills its buffer with supplied bytes only, and
  fails where there are none, if and only if all of them are
  available.  After any requests for strings, the next one is
  really read if and only if it is sound; if all of them were
  sound, then every string found so far ends in memory.
-/
theorem only_supplied_iff
    (image : LLDBLoadImage) :
    (∀ buffer addr (size : Int), 0 < size →
      (image.OnlySupplied buffer size addr ↔
        ∀ index < size.toNat,
          image.Available addr size.toNat index)) ∧
    (∀ testBuffer requests,
      testBuffer.length = maximumString →
        (∀ request : StringRequest,
          (image.stringsAfter requests
            (StringManagerUnicode.new maximumString
              testBuffer)).stringMap request.addr = none →
            (image.ReallyRead request.space request.addr
                request.charType
                (image.stringsAfter requests
                  (StringManagerUnicode.new maximumString
                    testBuffer)) ↔
              image.Sound request)) ∧
        ((∀ request ∈ requests, image.Sound request) →
          ∀ addr data,
            (image.stringsAfter requests
              (StringManagerUnicode.new maximumString
                testBuffer)).stringMap addr = some data →
              data.byteData ≠ [] →
                ∃ request ∈ requests, request.addr = addr ∧
                  image.EndsInMemory request.space addr
                    request.charType)) := by
  constructor
  · intro buffer addr size hSize
    exact image.onlySupplied_iff buffer addr hSize
  · intro testBuffer requests hLength
    have hServed :
        ServedBy image requests
          (image.stringsAfter requests
            (StringManagerUnicode.new maximumString
              testBuffer)) :=
      (ServedBy.new hLength).run requests
        (fun request hRequest => hRequest)
    constructor
    · intro request hFresh
      exact reallyRead_iff hServed.maximumChars hServed.length
        hFresh
    · intro hSound addr data hData hBytes
      rcases hServed.requested addr data hData hBytes with
        ⟨request, hRequest, rfl, hString⟩
      exact ⟨request, hRequest, rfl,
        hSound request hRequest hString⟩

/- A text of one byte a character at an address of memory. -/
def textRequest : StringRequest where
  space :=
    { name := "ram"
      type := .processor
      index := 1
      addressSize := 8
      wordsize := 1
      wordsizeSmall := bytewise_small
      highest := BitVec.allOnes 64
      highestScaled := allOnes_scaled
      delay := 1
      bigEndian := false
      overlay := false
      overlayBase := false
      otherSpace := false
      truncated := false
      contain := none }
  addr := ⟨some 1, 0x1ffe⟩
  charType :=
    { size := 1
      isOpaqueString := false }

theorem only_supplied_iff_text :
    ((partialImage [] [0x68, 0x69]).OnlySupplied
        [1, 2, 3, 4] 4 textRequest.addr ↔
      ∀ index < (4 : Int).toNat,
        (partialImage [] [0x68, 0x69]).Available
          textRequest.addr (4 : Int).toNat index) ∧
    ((partialImage [] [0x68, 0x69]).ReallyRead
        textRequest.space textRequest.addr
        textRequest.charType
        (StringManagerUnicode.new maximumString
          (List.replicate maximumString 0)) ↔
      (partialImage [] [0x68, 0x69]).Sound textRequest) :=
  ⟨(only_supplied_iff (partialImage [] [0x68, 0x69])).1
      [1, 2, 3, 4] textRequest.addr 4 (by decide),
    ((only_supplied_iff (partialImage [] [0x68, 0x69])).2
      (List.replicate maximumString 0) []
      List.length_replicate).1 textRequest rfl⟩

/-
  Two bytes can be read, up to the end of a page.  A request
  for four makes up the other two, and a request for a string
  finds one that ends in a made-up zero.
-/
theorem terminator_made_up :
    (partialImage [] [0x68, 0x69]).loadFill
        (some [1, 2, 3, 4]) 4 textRequest.addr =
        .ok (some [0x68, 0x69, 0, 0]) ∧
      ¬ (partialImage [] [0x68, 0x69]).OnlySupplied
        [1, 2, 3, 4] 4 textRequest.addr ∧
      ¬ (partialImage [] [0x68, 0x69]).ReallyRead
        textRequest.space textRequest.addr
        textRequest.charType
        (StringManagerUnicode.new maximumString
          (List.replicate maximumString 0)) := by
  refine ⟨rfl, ?_, ?_⟩
  · rw [onlySupplied_iff _ _ _ (by decide)]
    intro hAll
    have hByte := hAll 2 (by decide)
    unfold Available at hByte
    exact absurd hByte (by decide)
  · rw [reallyRead_iff rfl List.length_replicate rfl]
    intro hSound
    have hEnd : terminatorEnd
        ((partialImage [] [0x68, 0x69]).stringBytes
          textRequest.space textRequest.addr)
        textRequest.charType.size
        textRequest.space.bigEndian = some 3 := by
      decide +kernel
    have hFound : hasCharTerminator
        ((partialImage [] [0x68, 0x69]).stringBytes
          textRequest.space textRequest.addr)
        maximumString textRequest.charType.size = true := by
      decide +kernel
    have hString :
        (partialImage [] [0x68, 0x69]).IsString
          textRequest.space textRequest.addr
          textRequest.charType :=
      ⟨rfl, hFound, Option.isSome_of_eq_some hEnd⟩
    rcases hSound hString with ⟨stop, hStop, hAvailable⟩
    rw [hEnd] at hStop
    cases hStop
    have hByte := hAvailable 2 (by decide)
    unfold Available at hByte
    exact absurd hByte (by decide)

end LLDBLoadImage

end LLDBGhidra
