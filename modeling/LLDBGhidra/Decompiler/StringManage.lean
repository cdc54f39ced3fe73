import LLDBGhidra.Decompiler.LoadImage

/-
  Strings of the program (`stringmanage.hh`,
  `stringmanage.cc`).

  Main declarations:
    * `StringManager.getCodepoint`
    * `StringManager.checkCharacters`
    * `StringManager.hasCharTerminator`
    * `StringManager.getStringData`
-/

------------------------------------------------------------
-- Characters
------------------------------------------------------------

namespace LLDBGhidra

/- A string as it is kept: its UTF-8 bytes. -/
structure StringData where
  isTruncated : Bool
  byteData : List Byte
deriving DecidableEq, Repr

/- A character data-type: the size of an encoded element. -/
structure CharType where
  size : Nat
  isOpaqueString : Bool
deriving DecidableEq, Repr

namespace StringManager

/- The byte at an index, as a number. -/
def byteAt
    (buf : List Byte)
    (index : Nat) : Nat :=
  (buf.getD index 0).toNat

def readUtf16
    (buf : List Byte)
    (bigend : Bool) : Nat :=
  if bigend then
    byteAt buf 0 * 2 ^ 8 + byteAt buf 1
  else
    byteAt buf 1 * 2 ^ 8 + byteAt buf 0

/- Is the byte a continuation byte of UTF-8? -/
def isTrailing
    (byte : Nat) : Bool :=
  byte &&& 0xc0 = 0x80

/- The code point of a UTF-16 element, and its size. -/
def getUtf16
    (buf : List Byte)
    (bigend : Bool) : Option (Int × Nat) :=
  let codepoint := readUtf16 buf bigend
  if 0xd800 ≤ codepoint ∧ codepoint ≤ 0xdbff then
    let trail := readUtf16 (buf.drop 2) bigend
    if trail < 0xdc00 ∨ 0xdfff < trail then
      none
    else
      some
        ((codepoint * 2 ^ 10 + trail : Nat) +
          (0x10000 - 0xd800 * 2 ^ 10 - 0xdc00), 4)
  else if 0xdc00 ≤ codepoint ∧ codepoint ≤ 0xdfff then
    none
  else
    some (codepoint, 2)

/- The code point of a UTF-8 sequence, and its size. -/
def getUtf8
    (buf : List Byte) : Option (Int × Nat) :=
  let val := byteAt buf 0
  let val2 := byteAt buf 1
  let val3 := byteAt buf 2
  let val4 := byteAt buf 3
  if val &&& 0x80 = 0 then
    some (val, 1)
  else if val &&& 0xe0 = 0xc0 then
    if isTrailing val2 then
      some
        (((val &&& 0x1f) <<< 6 ||| (val2 &&& 0x3f) : Nat), 2)
    else
      none
  else if val &&& 0xf0 = 0xe0 then
    if isTrailing val2 && isTrailing val3 then
      some
        (((val &&& 0xf) <<< 12 ||| (val2 &&& 0x3f) <<< 6 |||
          (val3 &&& 0x3f) : Nat), 3)
    else
      none
  else if val &&& 0xf8 = 0xf0 then
    if isTrailing val2 && isTrailing val3 && isTrailing val4
    then
      some
        (((val &&& 7) <<< 18 ||| (val2 &&& 0x3f) <<< 12 |||
          (val3 &&& 0x3f) <<< 6 ||| (val4 &&& 0x3f) : Nat), 4)
    else
      none
  else
    none

/- The code point of a UTF-32 element; it may be negative. -/
def getUtf32
    (buf : List Byte)
    (bigend : Bool) : Option (Int × Nat) :=
  let value :=
    if bigend then
      byteAt buf 0 * 2 ^ 24 + byteAt buf 1 * 2 ^ 16 +
        byteAt buf 2 * 2 ^ 8 + byteAt buf 3
    else
      byteAt buf 3 * 2 ^ 24 + byteAt buf 2 * 2 ^ 16 +
        byteAt buf 1 * 2 ^ 8 + byteAt buf 0
  some (int4 value, 4)

/- By the size of an element; other sizes have no encoding. -/
def getEncoded
    (buf : List Byte)
    (charsize : Nat)
    (bigend : Bool) : Option (Int × Nat) :=
  if charsize = 2 then
    getUtf16 buf bigend
  else if charsize = 1 then
    getUtf8 buf
  else if charsize = 4 then
    getUtf32 buf bigend
  else
    none

/-
  The code point that a buffer starts with and the number of
  bytes it takes; `none` is the result -1.
-/
def getCodepoint
    (buf : List Byte)
    (charsize : Nat)
    (bigend : Bool) : Option (Int × Nat) :=
  match getEncoded buf charsize bigend with
  | none => none
  | some (codepoint, skip) =>
      if 0xd800 ≤ codepoint ∧
          (0x10ffff < codepoint ∨ codepoint ≤ 0xdfff) then
        none
      else
        some (codepoint, skip)

end StringManager

end LLDBGhidra

------------------------------------------------------------
-- Buffers of Characters
------------------------------------------------------------

namespace LLDBGhidra

namespace StringManager

/-
  Does one of the elements at multiples of their size have
  only zero bytes?
-/
def hasCharTerminator
    (buffer : List Byte)
    (size charsize : Nat) : Bool :=
  (List.range size).any (fun index =>
    index % charsize = 0 &&
      (List.range charsize).all (fun byte =>
        buffer.getD (index + byte) 0 = 0))

/-
  Count the characters from an index on, up to a terminator or
  the end of the buffer; `none` is the result -1.
-/
def checkCharactersFrom
    (buf : List Byte)
    (size charsize : Nat)
    (bigend : Bool)
    (fuel index count : Nat) : Option Nat :=
  match fuel with
  | 0 => some count
  | fuel + 1 =>
      if index < size then
        match getCodepoint (buf.drop index) charsize bigend with
        | none => none
        | some (codepoint, skip) =>
            if codepoint < 0 then
              none
            else if codepoint = 0 then
              some count
            else
              checkCharactersFrom buf size charsize bigend fuel
                (index + skip) (count + 1)
      else
        some count

/- Each character takes a byte at least. -/
def checkCharacters
    (buf : List Byte)
    (size charsize : Nat)
    (bigend : Bool) : Option Nat :=
  checkCharactersFrom buf size charsize bigend size 0 0

/- The bytes of a code point in UTF-8. -/
def writeUtf8
    (codepoint : Nat) : List Byte :=
  let bits := Nat.log2 codepoint + 1
  if codepoint < 128 then
    [BitVec.ofNat 8 codepoint]
  else if 21 < bits then
    []
  else if bits < 12 then
    [BitVec.ofNat 8 (0xc0 ^^^ ((codepoint >>> 6) &&& 0x1f)),
      BitVec.ofNat 8 (0x80 ^^^ (codepoint &&& 0x3f))]
  else if bits < 17 then
    [BitVec.ofNat 8 (0xe0 ^^^ ((codepoint >>> 12) &&& 0xf)),
      BitVec.ofNat 8 (0x80 ^^^ ((codepoint >>> 6) &&& 0x3f)),
      BitVec.ofNat 8 (0x80 ^^^ (codepoint &&& 0x3f))]
  else
    [BitVec.ofNat 8 (0xf0 ^^^ ((codepoint >>> 18) &&& 7)),
      BitVec.ofNat 8 (0x80 ^^^ ((codepoint >>> 12) &&& 0x3f)),
      BitVec.ofNat 8 (0x80 ^^^ ((codepoint >>> 6) &&& 0x3f)),
      BitVec.ofNat 8 (0x80 ^^^ (codepoint &&& 0x3f))]

/- Translate the characters from an index on to UTF-8. -/
def writeUnicodeFrom
    (maximumChars : Nat)
    (buffer : List Byte)
    (size charsize : Nat)
    (bigend : Bool)
    (fuel index count : Nat) : Option (List Byte) :=
  match fuel with
  | 0 => some []
  | fuel + 1 =>
      if index < size then
        match getCodepoint (buffer.drop index) charsize bigend
          with
        | none => none
        | some (codepoint, skip) =>
            if codepoint < 0 then
              none
            else if codepoint = 0 then
              some []
            else if maximumChars ≤ count + 1 then
              some (writeUtf8 codepoint.toNat)
            else
              (writeUnicodeFrom maximumChars buffer size
                charsize bigend fuel (index + skip)
                (count + 1)).map
                  (fun rest => writeUtf8 codepoint.toNat ++ rest)
      else
        some []

def writeUnicode
    (maximumChars : Nat)
    (buffer : List Byte)
    (size charsize : Nat)
    (bigend : Bool) : Option (List Byte) :=
  writeUnicodeFrom maximumChars buffer size charsize bigend
    size 0 0

/- The string of a buffer with the given number of characters. -/
def assignStringData
    (maximumChars : Nat)
    (buf : List Byte)
    (size charsize numChars : Nat)
    (bigend : Bool)
    (data : StringData) : StringData :=
  if charsize = 1 ∧ numChars < maximumChars then
    { byteData := buf.take size
      isTruncated := maximumChars ≤ numChars }
  else
    match writeUnicode maximumChars buf size charsize bigend
      with
    | none => data
    | some resString =>
        { byteData := resString ++ [0]
          isTruncated := maximumChars ≤ numChars }

end StringManager

end LLDBGhidra

------------------------------------------------------------
-- Strings of the Program
------------------------------------------------------------

namespace LLDBGhidra

/-
  The strings found so far, by address, and the buffer that
  the bytes of the image are pulled into.
-/
structure StringManagerUnicode where
  maximumChars : Nat
  stringMap : Address → Option StringData
  testBuffer : List Byte

namespace StringManagerUnicode

open StringManager

/- A string manager with no strings. -/
def new
    (maximumChars : Nat)
    (testBuffer : List Byte) : StringManagerUnicode :=
  { maximumChars := maximumChars
    stringMap := fun _ => none
    testBuffer := testBuffer }

/- The address `amount` bytes further on, in its space. -/
def advance
    (space : AddrSpace)
    (addr : Address)
    (amount : Nat) : Address :=
  { addr with
    offset :=
      space.wrapOffset
        (addr.offset + BitVec.ofNat 64 amount) }

/-
  Fill `amount` bytes of the buffer from an index on.
-/
def fillBuffer
    (loader : LoadImage)
    (addr : Address)
    (start amount : Nat)
    (testBuffer : List Byte) : Except Exn (List Byte) :=
  match loader.loadFill (some (testBuffer.drop start)) amount
      addr with
  | .error error => .error error
  | .ok filled =>
      .ok (testBuffer.take start ++ filled.getD [])

/-
  Pull in bytes of the image, 32 at a time, until one of the
  characters is a terminator.  The result is the number of
  bytes, if a terminator is found.
-/
def readChunks
    (loader : LoadImage)
    (space : AddrSpace)
    (addr : Address)
    (maximumChars charsize : Nat)
    (fuel curBufferSize : Nat)
    (testBuffer : List Byte) :
    Except Exn (Option Nat) × List Byte :=
  match fuel with
  | 0 => (.ok none, testBuffer)
  | fuel + 1 =>
      let newBufferSize :=
        if maximumChars < curBufferSize + 32 then
          maximumChars
        else
          curBufferSize + 32
      let amount := newBufferSize - curBufferSize
      if amount = 0 then
        (.ok none, testBuffer)
      else
        match fillBuffer loader
            (advance space addr curBufferSize) curBufferSize
            amount testBuffer with
        | .error error => (.error error, testBuffer)
        | .ok testBuffer =>
            if hasCharTerminator
                (testBuffer.drop curBufferSize) amount charsize
            then
              (.ok (some newBufferSize), testBuffer)
            else
              readChunks loader space addr maximumChars charsize
                fuel newBufferSize testBuffer

/- Keep the string of an address, and the buffer. -/
def keep
    (addr : Address)
    (data : StringData)
    (testBuffer : List Byte)
    (manager : StringManagerUnicode) : StringManagerUnicode :=
  { manager with
    stringMap := fun other =>
      if other = addr then some data else manager.stringMap other
    testBuffer := testBuffer }

/-
  The string at an address; it has no bytes if there is none.
  Memory that is not available makes no string.
-/
def getStringData
    (loader : LoadImage)
    (space : AddrSpace)
    (addr : Address)
    (charType : CharType)
    (manager : StringManagerUnicode) :
    Except Exn StringData × StringManagerUnicode :=
  match manager.stringMap addr with
  | some data => (.ok data, manager)
  | none =>
      let data : StringData :=
        { isTruncated := false
          byteData := [] }
      if charType.isOpaqueString then
        (.ok data, manager.keep addr data manager.testBuffer)
      else
        match readChunks loader space addr manager.maximumChars
            charType.size (manager.maximumChars + 1) 0
            manager.testBuffer with
        | (.error (.lowlevelError .dataUnavail _),
            testBuffer) =>
            (.ok data, manager.keep addr data testBuffer)
        | (.error error, testBuffer) =>
            (.error error, manager.keep addr data testBuffer)
        | (.ok none, testBuffer) =>
            (.ok data, manager.keep addr data testBuffer)
        | (.ok (some curBufferSize), testBuffer) =>
            match checkCharacters testBuffer curBufferSize
                charType.size space.bigEndian with
            | none =>
                (.ok data, manager.keep addr data testBuffer)
            | some numChars =>
                let data :=
                  assignStringData manager.maximumChars
                    testBuffer curBufferSize charType.size
                    numChars space.bigEndian data
                (.ok data, manager.keep addr data testBuffer)

end StringManagerUnicode

end LLDBGhidra
