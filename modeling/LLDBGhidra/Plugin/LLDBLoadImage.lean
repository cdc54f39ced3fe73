import LLDBGhidra.Decompiler.LoadImage
import LLDBGhidra.Plugin.Lldb

/-
  Program memory read through the debugger
  (`LLDBLoadImage.cpp`), and what becomes of the bytes of its
  two reads.

  Main declarations:
    * `LLDBLoadImage.loadFill`
    * `LLDBLoadImage.loadFill_eq`
    * `LLDBLoadImage.onlySupplied_iff`
    * `LLDBLoadImage.keepsBytes_iff`
-/

------------------------------------------------------------
-- Filling a Buffer
------------------------------------------------------------

namespace LLDBGhidra

/- The image of a target and its process. -/
structure LLDBLoadImage where
  target : SBTarget
  process : Option SBProcess

/-
  A buffer that memory is being read into, with the number of
  bytes read and the error of the last read.
-/
structure Filling where
  buffer : List Byte
  bytesRead : Nat
  failed : Bool

namespace Filling

/- Nothing is read yet. -/
def start
    (buffer : List Byte) : Filling :=
  { buffer := buffer
    bytesRead := 0
    failed := false }

/-
  A read of `req` bytes leaves what it supplies at the start
  of the buffer, and replaces the number and the error.
-/
def readMemory
    (req : Nat)
    (read : MemoryRead)
    (filling : Filling) : Filling :=
  { buffer :=
      read.bytes.take req ++
        filling.buffer.drop (read.bytes.take req).length
    bytesRead := read.bytes.length
    failed := read.failed }

/- `memset` of the bytes that could not be read. -/
def zeroFill
    (req : Nat)
    (filling : Filling) : List Byte :=
  let bytesRead :=
    if req < filling.bytesRead then req else filling.bytesRead
  if bytesRead < req then
    filling.buffer.take bytesRead ++
      List.replicate (req - bytesRead) 0 ++
      filling.buffer.drop req
  else
    filling.buffer

end Filling

namespace LLDBLoadImage

/-
  Fill the bytes at a pointer from the process or, where that
  fails or reads nothing, from the target.
-/
def loadFill
    (image : LLDBLoadImage)
    (ptr : Pointer)
    (size : Int)
    (addr : Address) : Except Exn Pointer :=
  match ptr with
  | none => .ok none
  | some buffer =>
      if size ≤ 0 then
        .ok (some buffer)
      else
        let req := size.toNat
        let fromProcess :=
          match image.process with
          | none => Filling.start buffer
          | some process =>
              (Filling.start buffer).readMemory req
                (process.readMemory addr.offset req)
        let filling :=
          if (fromProcess.bytesRead = 0 ||
                fromProcess.failed) &&
              image.target.isLoadAddress addr.offset then
            fromProcess.readMemory req
              (image.target.readMemory addr.offset req)
          else
            fromProcess
        .ok (some (filling.zeroFill req))

def toLoadImage
    (image : LLDBLoadImage) : LoadImage :=
  { loadFill := image.loadFill }

end LLDBLoadImage

end LLDBGhidra

------------------------------------------------------------
-- The Reads of a Request
------------------------------------------------------------

namespace LLDBGhidra

namespace LLDBLoadImage

/- What the process supplies; nothing if there is none. -/
def processRead
    (image : LLDBLoadImage)
    (addr : Address)
    (req : Nat) : MemoryRead :=
  match image.process with
  | none => ⟨[], false⟩
  | some process => process.readMemory addr.offset req

/- The bytes that the process supplies. -/
def processBytes
    (image : LLDBLoadImage)
    (addr : Address)
    (req : Nat) : List Byte :=
  (image.processRead addr req).bytes.take req

/- The bytes that the target would supply. -/
def targetBytes
    (image : LLDBLoadImage)
    (addr : Address)
    (req : Nat) : List Byte :=
  (image.target.readMemory addr.offset req).bytes.take req

/- Is the target consulted? -/
def consultsTarget
    (image : LLDBLoadImage)
    (addr : Address)
    (req : Nat) : Bool :=
  ((image.processRead addr req).bytes.length = 0 ||
      (image.processRead addr req).failed) &&
    image.target.isLoadAddress addr.offset

/- The bytes of the last read that is made. -/
def lastBytes
    (image : LLDBLoadImage)
    (addr : Address)
    (req : Nat) : List Byte :=
  if image.consultsTarget addr req then
    image.targetBytes addr req
  else
    image.processBytes addr req

/- The byte at an index is supplied by a read that is made. -/
def Supplied
    (image : LLDBLoadImage)
    (addr : Address)
    (req index : Nat)
    (byte : Byte) : Prop :=
  (image.processBytes addr req)[index]? = some byte ∨
    image.consultsTarget addr req = true ∧
      (image.targetBytes addr req)[index]? = some byte

end LLDBLoadImage

end LLDBGhidra

------------------------------------------------------------
-- The Filled Buffer
------------------------------------------------------------

namespace LLDBGhidra

namespace Filling

variable {req : Nat}
variable {filling : Filling}

/- A read, padded. -/
theorem zeroFill_readMemory
    (read : MemoryRead) :
    (filling.readMemory req read).zeroFill req =
      read.bytes.take req ++
        List.replicate (req - (read.bytes.take req).length) 0 ++
        filling.buffer.drop req := by
  unfold zeroFill readMemory
  simp only [List.length_take]
  by_cases hAll : req ≤ read.bytes.length
  · have hCount :
        (if req < read.bytes.length then req
          else read.bytes.length) = req := by
      split
      · rfl
      · omega
    rw [hCount]
    simp only [lt_irrefl, if_false, Nat.min_eq_left hAll,
      Nat.sub_self, List.replicate_zero, List.append_nil]
  · have hLt : read.bytes.length < req := by omega
    have hNot : ¬ req < read.bytes.length := by omega
    have hTake : read.bytes.take req = read.bytes :=
      List.take_of_length_le hLt.le
    simp only [hNot, if_false, hLt, if_true,
      Nat.min_eq_right hLt.le, hTake]
    rw [List.take_left, List.drop_append, List.drop_drop,
      List.drop_of_length_le hLt.le, List.nil_append]
    congr 2
    omega

/- An empty read changes nothing. -/
theorem readMemory_nothing
    (buffer : List Byte) :
    (start buffer).readMemory req ⟨[], false⟩ =
      start buffer := by
  simp [readMemory, start]

/- A read keeps what is beyond the request. -/
theorem drop_readMemory
    (read : MemoryRead) :
    (filling.readMemory req read).buffer.drop req =
      filling.buffer.drop req := by
  unfold readMemory
  have hLe : (read.bytes.take req).length ≤ req := by
    rw [List.length_take]
    exact Nat.min_le_left _ _
  rw [List.drop_append, List.drop_drop,
    List.drop_of_length_le hLe, List.nil_append,
    Nat.add_sub_cancel' hLe]

end Filling

namespace LLDBLoadImage

variable {image : LLDBLoadImage}
variable {buffer : List Byte}
variable {size : Int}
variable {addr : Address}

/-
  A request never fails.  It leaves the bytes of the last read
  that was made, and zeroes after them.
-/
theorem loadFill_eq
    (hSize : 0 < size) :
    image.loadFill (some buffer) size addr =
      .ok (some
        (image.lastBytes addr size.toNat ++
          List.replicate
            (size.toNat -
              (image.lastBytes addr size.toNat).length) 0 ++
          buffer.drop size.toNat)) := by
  have hPositive : ¬ size ≤ 0 := not_le.mpr hSize
  have hProcess :
      (match image.process with
        | none => Filling.start buffer
        | some process =>
            (Filling.start buffer).readMemory size.toNat
              (process.readMemory addr.offset size.toNat)) =
        (Filling.start buffer).readMemory size.toNat
          (image.processRead addr size.toNat) := by
    unfold processRead
    cases image.process with
    | none => exact (Filling.readMemory_nothing buffer).symm
    | some process => rfl
  have hConsults :
      ((((Filling.start buffer).readMemory size.toNat
            (image.processRead addr size.toNat)).bytesRead = 0 ||
          ((Filling.start buffer).readMemory size.toNat
            (image.processRead addr size.toNat)).failed) &&
        image.target.isLoadAddress addr.offset) =
        image.consultsTarget addr size.toNat :=
    rfl
  unfold loadFill lastBytes
  simp only [hPositive, if_false, hProcess, hConsults]
  cases image.consultsTarget addr size.toNat with
  | true =>
      simp only [if_true]
      rw [Filling.zeroFill_readMemory, Filling.drop_readMemory]
      rfl
  | false =>
      simp only [Bool.false_eq_true, if_false]
      rw [Filling.zeroFill_readMemory]
      rfl

private theorem getElem?_filled
    {last rest : List Byte}
    {req index : Nat}
    (hLast : last.length ≤ req)
    (hIndex : index < req) :
    (last ++ List.replicate (req - last.length) 0 ++
        rest)[index]? =
      some (last[index]?.getD 0) := by
  have hLength :
      (last ++ List.replicate (req - last.length)
        (0 : Byte)).length = req := by
    rw [List.length_append, List.length_replicate,
      Nat.add_sub_cancel' hLast]
  rw [List.getElem?_append_left (by rw [hLength]; exact hIndex)]
  by_cases hRead : index < last.length
  · rw [List.getElem?_append_left hRead,
      List.getElem?_eq_getElem hRead]
    rfl
  · have hAfter : last.length ≤ index := not_lt.mp hRead
    have hPadding :
        index - last.length < req - last.length := by
      omega
    rw [List.getElem?_append_right hAfter,
      List.getElem?_eq_none hAfter,
      List.getElem?_replicate, if_pos hPadding]
    rfl

theorem length_lastBytes_le
    (image : LLDBLoadImage)
    (addr : Address)
    (req : Nat) :
    (image.lastBytes addr req).length ≤ req := by
  unfold lastBytes targetBytes processBytes
  split
  · rw [List.length_take]
    exact Nat.min_le_left _ _
  · rw [List.length_take]
    exact Nat.min_le_left _ _

/- A byte of the filled buffer: read last, or zero. -/
theorem getElem?_of_loadFill
    {out : List Byte}
    {index : Nat}
    (hFill : image.loadFill (some buffer) size addr =
      .ok (some out))
    (hIndex : index < size.toNat) :
    out[index]? =
      some ((image.lastBytes addr size.toNat)[index]?.getD 0) := by
  have hSize : 0 < size := by omega
  rw [loadFill_eq hSize] at hFill
  cases hFill
  exact getElem?_filled (image.length_lastBytes_le _ _) hIndex

end LLDBLoadImage

end LLDBGhidra

------------------------------------------------------------
-- Made-up Bytes
------------------------------------------------------------

namespace LLDBGhidra

namespace LLDBLoadImage

variable {image : LLDBLoadImage}
variable {addr : Address}

/-
  The last read supplies the byte at an index, or the process
  read it as zero.
-/
def Available
    (image : LLDBLoadImage)
    (addr : Address)
    (req index : Nat) : Prop :=
  index < (image.lastBytes addr req).length ∨
    (image.processBytes addr req)[index]? = some 0

/- The byte of the last read is supplied by it. -/
theorem supplied_of_lastBytes
    {req index : Nat}
    {byte : Byte}
    (hLast : (image.lastBytes addr req)[index]? = some byte) :
    image.Supplied addr req index byte := by
  unfold lastBytes at hLast
  cases hConsult : image.consultsTarget addr req with
  | true =>
      rw [hConsult, if_pos rfl] at hLast
      exact Or.inr ⟨hConsult, hLast⟩
  | false =>
      rw [hConsult, if_neg Bool.false_ne_true] at hLast
      exact Or.inl hLast

/- When the byte that a request leaves is one that was read. -/
theorem supplied_iff_available
    (image : LLDBLoadImage)
    (addr : Address)
    (req index : Nat) :
    image.Supplied addr req index
        ((image.lastBytes addr req)[index]?.getD 0) ↔
      image.Available addr req index := by
  unfold Available
  cases hLast : (image.lastBytes addr req)[index]? with
  | some byte =>
      have hIndex := (List.getElem?_eq_some_iff.mp hLast).choose
      constructor
      · intro _
        exact Or.inl hIndex
      · intro _
        exact supplied_of_lastBytes hLast
  | none =>
      have hBeyond := List.getElem?_eq_none_iff.mp hLast
      constructor
      · rintro (hProcess | ⟨hConsult, hTarget⟩)
        · exact Or.inr hProcess
        · unfold lastBytes at hLast
          rw [hConsult, if_pos rfl, hTarget] at hLast
          cases hLast
      · rintro (hLt | hZero)
        · exact absurd hLt (not_lt.mpr hBeyond)
        · exact Or.inl hZero

/-
  What a request should guarantee: every byte of the buffer
  was supplied by one of the reads, and an error is raised
  when a byte was supplied by neither.
-/
def OnlySupplied
    (image : LLDBLoadImage)
    (buffer : List Byte)
    (size : Int)
    (addr : Address) : Prop :=
  (∀ out,
    image.loadFill (some buffer) size addr =
        .ok (some out) →
      ∀ index < size.toNat, ∃ byte, out[index]? = some byte ∧
        image.Supplied addr size.toNat index byte) ∧
    ((∃ index < size.toNat, ∀ byte,
        ¬ image.Supplied addr size.toNat index byte) →
      ∃ explain, image.loadFill (some buffer) size addr =
        .error (.lowlevelError .dataUnavail explain))

/- It does so if and only if every byte is available. -/
theorem onlySupplied_iff
    (image : LLDBLoadImage)
    (buffer : List Byte)
    (addr : Address)
    {size : Int}
    (hSize : 0 < size) :
    image.OnlySupplied buffer size addr ↔
      ∀ index < size.toNat,
        image.Available addr size.toNat index := by
  constructor
  · rintro ⟨hSupplied, -⟩ index hIndex
    rcases hSupplied _ (loadFill_eq hSize) index hIndex with
      ⟨byte, hByte, hRead⟩
    rw [getElem?_of_loadFill (loadFill_eq hSize) hIndex]
      at hByte
    cases hByte
    exact (image.supplied_iff_available _ _ _).mp hRead
  · intro hAll
    constructor
    · intro out hFill index hIndex
      refine ⟨_, getElem?_of_loadFill hFill hIndex, ?_⟩
      exact (image.supplied_iff_available _ _ _).mpr
        (hAll index hIndex)
    · rintro ⟨index, hIndex, hMissing⟩
      have hSupplied :=
        (image.supplied_iff_available _ _ _).mpr
          (hAll index hIndex)
      exact absurd hSupplied (hMissing _)

end LLDBLoadImage

end LLDBGhidra

------------------------------------------------------------
-- Lost Bytes
------------------------------------------------------------

namespace LLDBGhidra

namespace LLDBLoadImage

/-
  No byte that was read is lost: the target's bytes are in the
  buffer and, where it has none, those of the process.
-/
def KeepsBytes
    (image : LLDBLoadImage)
    (buffer : List Byte)
    (size : Int)
    (addr : Address) : Prop :=
  ∀ out,
    image.loadFill (some buffer) size addr =
        .ok (some out) →
      ∀ index < size.toNat, ∀ byte,
        (image.consultsTarget addr size.toNat = true →
          (image.targetBytes addr size.toNat)[index]? =
              some byte →
            out[index]? = some byte) ∧
        (¬ (image.consultsTarget addr size.toNat = true ∧
            index <
              (image.targetBytes addr size.toNat).length) →
          (image.processBytes addr size.toNat)[index]? =
              some byte →
            out[index]? = some byte)

/-
  The bytes lost are those, other than zero, that the process
  read beyond what the target then supplied.
-/
theorem keepsBytes_iff
    (image : LLDBLoadImage)
    (buffer : List Byte)
    (addr : Address)
    {size : Int}
    (hSize : 0 < size) :
    image.KeepsBytes buffer size addr ↔
      (image.consultsTarget addr size.toNat = true →
        ∀ index byte,
          (image.targetBytes addr size.toNat).length ≤ index →
            (image.processBytes addr size.toNat)[index]? =
                some byte →
              byte = 0) := by
  constructor
  · intro hKeeps hConsult index byte hBeyond hProcess
    have hIndex : index < size.toNat := by
      have hLt :=
        (List.getElem?_eq_some_iff.mp hProcess).choose
      unfold processBytes at hLt
      rw [List.length_take] at hLt
      omega
    have hOut :=
      (hKeeps _ (loadFill_eq hSize) index hIndex byte).2
        (fun hRead => absurd hRead.2 (not_lt.mpr hBeyond))
        hProcess
    rw [getElem?_of_loadFill (loadFill_eq hSize) hIndex]
      at hOut
    unfold lastBytes at hOut
    rw [hConsult, if_pos rfl,
      List.getElem?_eq_none hBeyond] at hOut
    cases hOut
    rfl
  · intro hZero out hFill index hIndex byte
    rw [getElem?_of_loadFill hFill hIndex]
    unfold lastBytes
    cases hConsult : image.consultsTarget addr size.toNat with
    | true =>
        rw [if_pos rfl]
        constructor
        · intro _ hTarget
          rw [hTarget]
          rfl
        · intro hNot hProcess
          have hBeyond :
              (image.targetBytes addr size.toNat).length ≤
                index := by
            by_contra hLt
            exact hNot ⟨rfl, not_le.mp hLt⟩
          rw [List.getElem?_eq_none hBeyond,
            hZero hConsult index byte hBeyond hProcess]
          rfl
    | false =>
        rw [if_neg Bool.false_ne_true]
        constructor
        · intro hTrue
          exact absurd hTrue Bool.false_ne_true
        · intro _ hProcess
          rw [hProcess]
          rfl

/-
  An image whose process reads some bytes together with an
  error, and whose target reads others.
-/
def partialImage
    (fromProcess fromTarget : List Byte) : LLDBLoadImage where
  target :=
    { triple := "x86_64-linux"
      process := none
      modules := []
      resolve := fun _ => none
      findFunctions := fun _ => []
      isLoadAddress := fun _ => true
      readMemory := fun _ _ => ⟨fromTarget, false⟩ }
  process :=
    some
      { selectedThread := none
        readMemory := fun _ _ => ⟨fromProcess, true⟩ }

theorem keepsBytes_iff_partial :
    (partialImage [0x90, 0xc3] [0x90, 0xc3, 0x00]).KeepsBytes
        [1, 2, 3, 4] 4 ⟨some 1, 0x1000⟩ ↔
      ((partialImage [0x90, 0xc3]
          [0x90, 0xc3, 0x00]).consultsTarget
            ⟨some 1, 0x1000⟩ (4 : Int).toNat = true →
        ∀ index byte,
          ((partialImage [0x90, 0xc3]
              [0x90, 0xc3, 0x00]).targetBytes
                ⟨some 1, 0x1000⟩ (4 : Int).toNat).length ≤
              index →
            ((partialImage [0x90, 0xc3]
                [0x90, 0xc3, 0x00]).processBytes
                  ⟨some 1, 0x1000⟩ (4 : Int).toNat)[index]? =
                some byte →
              byte = 0) :=
  keepsBytes_iff _ _ _ (by decide)

/-
  The process reads three of four bytes up to the end of a
  page and reports an error; the target reads none.
-/
theorem bytes_lost_at_end_of_page :
    (partialImage [0x90, 0x90, 0xc3] []).loadFill
        (some [1, 2, 3, 4]) 4 ⟨some 1, 0x1ffd⟩ =
        .ok (some [0, 0, 0, 0]) ∧
      ¬ (partialImage [0x90, 0x90, 0xc3] []).KeepsBytes
        [1, 2, 3, 4] 4 ⟨some 1, 0x1ffd⟩ := by
  have hFill :
      (partialImage [0x90, 0x90, 0xc3] []).loadFill
          (some [1, 2, 3, 4]) 4 ⟨some 1, 0x1ffd⟩ =
        .ok (some [0, 0, 0, 0]) := by
    rfl
  refine ⟨hFill, ?_⟩
  intro hKeeps
  have hByte := (hKeeps _ hFill 2 (by decide) 0xc3).2
    (by decide) (by rfl)
  exact absurd hByte (by decide)

end LLDBLoadImage

end LLDBGhidra
