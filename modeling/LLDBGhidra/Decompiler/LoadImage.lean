import LLDBGhidra.Decompiler.Address

/-
  The image that the decompiler reads a program from
  (`loadimage.hh`).

  Main declarations:
    * `LoadImage`
-/

------------------------------------------------------------
-- Load Images
------------------------------------------------------------

namespace LLDBGhidra

/- A byte, `uint1`. -/
abbrev Byte :=
  BitVec 8

/- The memory from a pointer on; `none` is the null pointer. -/
abbrev Pointer :=
  Option (List Byte)

/-
  An image.  `loadFill` fills the bytes at a pointer with those
  of the image from an address on, as many as asked for.
-/
structure LoadImage where
  loadFill : Pointer → Int → Address → Except Exn Pointer

end LLDBGhidra
