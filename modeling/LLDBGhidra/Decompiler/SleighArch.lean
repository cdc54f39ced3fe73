import LLDBGhidra.Decompiler.Address
import LLDBGhidra.Library.SubstringSearch

/-
  The choice of a SLEIGH language and of its compiler
  (`sleigh_arch.cc` and the `.ldefs` files).

  Main declarations:
    * `LanguageDescription.getCompiler`
    * `SleighArchitecture.normalizeArchitecture`
    * `SleighArchitecture.resolveArchitecture`
    * `SleighArchitecture.selectCompiler`
    * `shippedLanguages`
-/

------------------------------------------------------------
-- Language Descriptions
------------------------------------------------------------

namespace LLDBGhidra

structure CompilerTag where
  name : String
  spec : String
  id : String
deriving DecidableEq, Repr

/- The part of a language that the choice of a compiler reads. -/
structure LanguageDescription where
  id : String
  compilers : List CompilerTag
deriving DecidableEq, Repr

namespace LanguageDescription

/-
  The scan of `getCompiler`, with the last compiler so far
  that is called `default`.
-/
def getCompilerLoop
    (nm : String)
    (default? : Option CompilerTag) :
    List CompilerTag → Option CompilerTag × Option CompilerTag
  | [] => (none, default?)
  | tag :: rest =>
      if tag.id = nm then
        (some tag, default?)
      else
        getCompilerLoop nm
          (if tag.id = "default" then some tag else default?)
          rest

/- None stands for the undefined result without compilers. -/
def getCompiler
    (language : LanguageDescription)
    (nm : String) : Option CompilerTag :=
  match getCompilerLoop nm none language.compilers with
  | (some tag, _) => some tag
  | (none, some tag) => some tag
  | (none, none) => language.compilers.head?

end LanguageDescription

end LLDBGhidra

------------------------------------------------------------
-- Language Ids
------------------------------------------------------------

namespace LLDBGhidra

namespace SleighArchitecture

open SubstringSearch

def normalizeProcessor
    (nm : List Char) : List Char :=
  if occurs "386".toList nm then "x86".toList else nm

def normalizeEndian
    (nm : List Char) : List Char :=
  if occurs "big".toList nm then
    "BE".toList
  else if occurs "little".toList nm then
    "LE".toList
  else
    nm

def normalizeSize
    (nm : List Char) : List Char :=
  eraseFirst "-".toList (eraseFirst "bit".toList nm)

/-
  The positions of the colons after the first character, up to
  `count` of them; a colon is sought after the last position.
-/
def colons
    (nm : List Char)
    (curpos : Nat) : (count : Nat) → List Nat
  | 0 => []
  | count + 1 =>
      match findFrom ":".toList nm (curpos + 1) with
      | none => []
      | some pos => pos :: colons nm pos count

/- `substr`: the characters from `first` up to `stop`. -/
def substr
    (nm : List Char)
    (first stop : Nat) : List Char :=
  (nm.drop first).take (stop - first)

/- Three colons leave the compiler to be the default one. -/
def normalizeArchitecture
    (nm : List Char) : Except Exn (List Char) :=
  let join := fun fields : List (List Char) =>
    ":".toList.intercalate fields
  match colons nm 0 4 with
  | [p0, p1, p2] =>
      .ok (join
        [normalizeProcessor (substr nm 0 p0),
          normalizeEndian (substr nm (p0 + 1) p1),
          normalizeSize (substr nm (p1 + 1) p2),
          nm.drop (p2 + 1),
          "default".toList])
  | [p0, p1, p2, p3] =>
      .ok (join
        [normalizeProcessor (substr nm 0 p0),
          normalizeEndian (substr nm (p0 + 1) p1),
          normalizeSize (substr nm (p1 + 1) p2),
          substr nm (p2 + 1) p3,
          nm.drop (p3 + 1)])
  | _ =>
      .error (.lowlevelError .lowlevel
        ("Architecture string does not look like sleigh id: " ++
          String.ofList nm))

/- The text before the last colon, and the text after it. -/
def splitLast
    (archid : List Char) : List Char × List Char :=
  let tail :=
    (archid.reverse.takeWhile (· ≠ ':')).reverse
  (archid.take (archid.length - tail.length - 1), tail)

/- The id without the prefixes that other loaders give it. -/
def stripArchid
    (archid : List Char) : List Char :=
  if "binary-".toList.isPrefixOf archid then
    archid.drop 7
  else if "default-".toList.isPrefixOf archid then
    archid.drop 8
  else
    archid

/- The normalized id, and the language that it names. -/
def resolveArchitecture
    (description : List LanguageDescription)
    (target : String) :
    Except Exn (List Char × LanguageDescription) := do
  let archid ← normalizeArchitecture (stripArchid target.toList)
  let baseid := String.ofList (splitLast archid).1
  match description.find? (fun language =>
      language.id = baseid) with
  | none =>
      .error (.lowlevelError .lowlevel
        ("No sleigh specification for " ++ baseid))
  | some language => pure (archid, language)

/- The compiler whose specification `buildSpecFile` opens. -/
def selectCompiler
    (description : List LanguageDescription)
    (target : String) : Except Exn (Option CompilerTag) := do
  let resolved ← resolveArchitecture description target
  pure (resolved.2.getCompiler
    (String.ofList (splitLast resolved.1).2))

end SleighArchitecture

end LLDBGhidra

------------------------------------------------------------
-- Shipped Languages
------------------------------------------------------------

namespace LLDBGhidra

/- The languages of `x86.ldefs`. -/
def x86Languages : List LanguageDescription :=
  [{ id := "x86:LE:32:default"
     compilers :=
      [⟨"Visual Studio", "x86win.cspec", "windows"⟩,
        ⟨"clang", "x86win.cspec", "clangwindows"⟩,
        ⟨"gcc", "x86gcc.cspec", "gcc"⟩,
        ⟨"Borland C++", "x86borland.cspec", "borlandcpp"⟩,
        ⟨"Delphi", "x86delphi.cspec", "borlanddelphi"⟩,
        ⟨"golang", "x86-32-golang.cspec", "golang"⟩] },
   { id := "x86:LE:32:System Management Mode"
     compilers := [⟨"default", "x86-16.cspec", "default"⟩] },
   { id := "x86:LE:16:Real Mode"
     compilers := [⟨"default", "x86-16.cspec", "default"⟩] },
   { id := "x86:LE:16:Protected Mode"
     compilers := [⟨"default", "x86-16.cspec", "default"⟩] },
   { id := "x86:LE:64:default"
     compilers :=
      [⟨"Visual Studio", "x86-64-win.cspec", "windows"⟩,
        ⟨"clang", "x86-64-win.cspec", "clangwindows"⟩,
        ⟨"gcc", "x86-64-gcc.cspec", "gcc"⟩,
        ⟨"golang", "x86-64-golang.cspec", "golang"⟩,
        ⟨"Swift", "x86-64-swift.cspec", "swift"⟩] },
   { id := "x86:LE:64:compat32"
     compilers :=
      [⟨"Visual Studio", "x86win.cspec", "windows"⟩,
        ⟨"gcc", "x86gcc.cspec", "gcc"⟩] }]

/- The languages of `AARCH64.ldefs`. -/
def aarch64Languages : List LanguageDescription :=
  [{ id := "AARCH64:LE:64:v8A"
     compilers :=
      [⟨"default", "AARCH64.cspec", "default"⟩,
        ⟨"Visual Studio", "AARCH64_win.cspec", "windows"⟩,
        ⟨"golang", "AARCH64_golang.cspec", "golang"⟩,
        ⟨"Swift", "AARCH64_swift.cspec", "swift"⟩] },
   { id := "AARCH64:BE:64:v8A"
     compilers :=
      [⟨"default", "AARCH64.cspec", "default"⟩,
        ⟨"golang", "AARCH64_golang.cspec", "golang"⟩] },
   { id := "AARCH64:LE:32:ilp32"
     compilers :=
      [⟨"default", "AARCH64_ilp32.cspec", "default"⟩,
        ⟨"golang", "AARCH64_golang.cspec", "golang"⟩] },
   { id := "AARCH64:BE:32:ilp32"
     compilers :=
      [⟨"default", "AARCH64_ilp32.cspec", "default"⟩,
        ⟨"golang", "AARCH64_golang.cspec", "golang"⟩] }]

/- The language of `AppleSilicon.ldefs`. -/
def appleSiliconLanguages : List LanguageDescription :=
  [{ id := "AARCH64:LE:64:AppleSilicon"
     compilers :=
      [⟨"default", "AARCH64_apple.cspec", "default"⟩,
        ⟨"Swift", "AARCH64_swift.cspec", "swift"⟩,
        ⟨"golang", "AARCH64_golang.cspec", "golang"⟩] }]

def shippedLanguages : List LanguageDescription :=
  x86Languages ++ aarch64Languages ++ appleSiliconLanguages

end LLDBGhidra
