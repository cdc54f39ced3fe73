import LLDBGhidra.Library.SubstringSearch

/-
  From a target triple and a binary format to the id of a
  SLEIGH language and of its compiler (`ArchMap.cpp`).

  Main declarations:
    * `sleighIdFromTriple`
    * `compilerFromFormat`
-/

------------------------------------------------------------
-- Languages
------------------------------------------------------------

namespace LLDBGhidra

/- The architecture is the triple up to its first dash. -/
def archOfTriple
    (triple : String) : String :=
  String.ofList (triple.toList.takeWhile (· ≠ '-'))

/- The error is the text of a `std::runtime_error`. -/
def sleighIdFromTriple
    (triple : String) : Except String String :=
  let arch := archOfTriple triple
  if arch = "arm64" ∨ arch = "aarch64" ∨ arch = "arm64e" then
    .ok "AARCH64:LE:64:v8A"
  else if arch = "x86_64" ∨ arch = "x86_64h" then
    .ok "x86:LE:64:default"
  else if arch = "x86" ∨ arch = "i386" ∨ arch = "i686" then
    .ok "x86:LE:32:default"
  else if arch = "arm" ∨ arch = "armv7" ∨ arch = "armv7s" ∨
      arch = "armv7k" then
    .ok "ARM:LE:32:v7"
  else if arch = "thumbv7" ∨ arch = "thumbv7s" then
    .ok "ARM:LE:32:v7"
  else
    .error ("Unsupported architecture: " ++ arch ++
      ". Supported: arm64, x86_64, x86, arm")

end LLDBGhidra

------------------------------------------------------------
-- Compilers
------------------------------------------------------------

namespace LLDBGhidra

/- Does the pattern occur anywhere in the text? -/
def occursIn
    (pattern text : String) : Bool :=
  SubstringSearch.occurs pattern.toList text.toList

/- Both formats other than PE lead to the same compilers. -/
def compilerFromFormat
    (format sleighLangId : String) : String :=
  let isMachO :=
    occursIn "Mach-O" format || occursIn "mach-o" format
  let isPE := occursIn "PE" format
  let isAarch64 :=
    "AARCH64".toList.isPrefixOf sleighLangId.toList
  if isPE then
    "windows"
  else if isAarch64 then
    "default"
  else if isMachO then
    "gcc"
  else
    "gcc"

end LLDBGhidra
