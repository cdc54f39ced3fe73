import LLDBGhidra.Decompiler.SleighArch
import LLDBGhidra.Plugin.DecompileCommand

/-
  Which compiler specification a target leads to.

  Main declarations:
    * `selectedCompiler`
    * `describeModule`
    * `selectedCompiler_not_windows_iff`
-/

------------------------------------------------------------
-- The Selected Compiler
------------------------------------------------------------

namespace LLDBGhidra

/- From a target to a compiler of the shipped languages. -/
def selectedCompiler
    (target : SBTarget) : Option CompilerTag :=
  match DecompileCommand.languageId target with
  | .error _ => none
  | .ok sleighId =>
      match SleighArchitecture.selectCompiler
          shippedLanguages sleighId with
      | .error _ => none
      | .ok tag => tag

/- Is it a compiler specification for Visual Studio? -/
def CompilerTag.isWindows
    (tag : CompilerTag) : Bool :=
  tag.name = "Visual Studio"

/- How the debugger describes a module. -/
def describeModule
    (arch path : String) : String :=
  "(" ++ arch ++ ") " ++ path

/- A description with `PE` in it is taken for a PE image. -/
theorem occursIn_describeModule
    (arch path : String) :
    occursIn "PE" (describeModule arch path) =
      (occursIn "PE" arch || occursIn "PE" path) := by
  have hText : (describeModule arch path).toList =
      [] ++ '(' :: (arch.toList ++
        ')' :: ([] ++ ' ' :: path.toList)) := by
    simp [describeModule]
  have hNonempty : "PE".toList ≠ [] := by decide
  have hEmpty :
      SubstringSearch.occurs "PE".toList [] = false := by
    decide
  unfold occursIn
  rw [hText,
    SubstringSearch.occurs_append_cons hNonempty (by decide),
    SubstringSearch.occurs_append_cons hNonempty (by decide),
    SubstringSearch.occurs_append_cons hNonempty (by decide),
    hEmpty, Bool.false_or, Bool.false_or]

/- The languages that a triple can lead to. -/
theorem sleighIdFromTriple_cases
    {triple sleighId : String}
    (hId : sleighIdFromTriple triple = .ok sleighId) :
    sleighId = "AARCH64:LE:64:v8A" ∨
      sleighId = "x86:LE:64:default" ∨
      sleighId = "x86:LE:32:default" ∨
      sleighId = "ARM:LE:32:v7" := by
  unfold sleighIdFromTriple at hId
  simp only [] at hId
  split at hId
  · cases hId
    simp
  · split at hId
    · cases hId
      simp
    · split at hId
      · cases hId
        simp
      · split at hId
        · cases hId
          simp
        · split at hId
          · cases hId
            simp
          · cases hId

/- The language id of a target, with or without a module. -/
theorem languageId_eq
    {target : SBTarget}
    {sleighId : String}
    (hId : sleighIdFromTriple target.triple = .ok sleighId) :
    DecompileCommand.languageId target =
      match target.modules.head?.map SBModule.description with
      | none => .ok sleighId
      | some description =>
          .ok (sleighId ++ ":" ++
            compilerFromFormat description sleighId) := by
  unfold DecompileCommand.languageId
  simp only [hId]
  cases target.modules.head? with
  | none => rfl
  | some mod =>
      have hNonempty :
          compilerFromFormat mod.description sleighId ≠ "" := by
        unfold compilerFromFormat
        simp only []
        split
        · decide
        · split
          · decide
          · split
            · decide
            · decide
      simp [hNonempty]

/- What a format is taken for, in terms of its text. -/
theorem compilerFromFormat_eq
    (format sleighId : String) :
    compilerFromFormat format sleighId =
      if occursIn "PE" format then
        "windows"
      else if "AARCH64".toList.isPrefixOf sleighId.toList then
        "default"
      else
        "gcc" := by
  unfold compilerFromFormat
  simp only []
  split
  · rfl
  · split
    · rfl
    · split
      · rfl
      · rfl

end LLDBGhidra

------------------------------------------------------------
-- The Windows Specifications
------------------------------------------------------------

namespace LLDBGhidra

variable {target : SBTarget}
variable {sleighId : String}

/- The compilers that a description can lead to. -/
theorem selectedCompiler_of_description
    (hId : ∃ triple, sleighIdFromTriple triple = .ok sleighId)
    (hShipped :
      ∃ language ∈ shippedLanguages, language.id = sleighId) :
    ∃ windows gnu : CompilerTag,
      windows.isWindows = true ∧ gnu.isWindows = false ∧
        ∀ (target : SBTarget) (description : String),
          sleighIdFromTriple target.triple = .ok sleighId →
            target.modules.head?.map SBModule.description =
              some description →
              selectedCompiler target =
                some (if occursIn "PE" description then
                  windows else gnu) := by
  have hSelected : ∀ (target : SBTarget) (description : String),
      sleighIdFromTriple target.triple = .ok sleighId →
        target.modules.head?.map SBModule.description =
          some description →
          DecompileCommand.languageId target =
            .ok (sleighId ++ ":" ++
              if occursIn "PE" description then
                "windows"
              else if
                  "AARCH64".toList.isPrefixOf sleighId.toList
                then
                "default"
              else
                "gcc") := by
    intro target description hTriple hMain
    have hLanguage := languageId_eq hTriple
    rw [hMain] at hLanguage
    simp only [compilerFromFormat_eq] at hLanguage
    exact hLanguage
  rcases hId with ⟨triple, hId⟩
  rcases sleighIdFromTriple_cases hId with
    rfl | rfl | rfl | rfl
  · refine ⟨⟨"Visual Studio", "AARCH64_win.cspec", "windows"⟩,
      ⟨"default", "AARCH64.cspec", "default"⟩, by decide,
      by decide, ?_⟩
    intro target description hTriple hMain
    unfold selectedCompiler
    rw [hSelected target description hTriple hMain]
    cases occursIn "PE" description with
    | true => rfl
    | false => rfl
  · refine ⟨⟨"Visual Studio", "x86-64-win.cspec", "windows"⟩,
      ⟨"gcc", "x86-64-gcc.cspec", "gcc"⟩, by decide,
      by decide, ?_⟩
    intro target description hTriple hMain
    unfold selectedCompiler
    rw [hSelected target description hTriple hMain]
    cases occursIn "PE" description with
    | true => rfl
    | false => rfl
  · refine ⟨⟨"Visual Studio", "x86win.cspec", "windows"⟩,
      ⟨"gcc", "x86gcc.cspec", "gcc"⟩, by decide,
      by decide, ?_⟩
    intro target description hTriple hMain
    unfold selectedCompiler
    rw [hSelected target description hTriple hMain]
    cases occursIn "PE" description with
    | true => rfl
    | false => rfl
  · exact absurd hShipped (by decide)

/- The compiler of a target that has no module. -/
theorem selectedCompiler_of_none
    (hId : sleighIdFromTriple target.triple = .ok sleighId)
    (hShipped :
      ∃ language ∈ shippedLanguages, language.id = sleighId)
    (hMain : target.modules.head?.map SBModule.description =
      none) :
    ∃ tag, selectedCompiler target = some tag ∧
      (tag.isWindows = false ↔
        sleighId = "AARCH64:LE:64:v8A") := by
  have hLanguage := languageId_eq hId
  rw [hMain] at hLanguage
  unfold selectedCompiler
  rw [hLanguage]
  rcases sleighIdFromTriple_cases hId with
    rfl | rfl | rfl | rfl
  · exact ⟨_, rfl, by decide⟩
  · exact ⟨_, rfl, by decide⟩
  · exact ⟨_, rfl, by decide⟩
  · exact absurd hShipped (by decide)

/-
  For a shipped language, the compiler is not Visual Studio if
  and only if `PE` does not occur in the description of the
  main module, or the target has no module and is AArch64.
  Descriptions that differ in the path select the same
  compiler if and only if `PE` occurs in both or in neither.
-/
theorem selectedCompiler_not_windows_iff
    (target other : SBTarget)
    (sleighId : String)
    (main : Option (String × String))
    (hId : sleighIdFromTriple target.triple = .ok sleighId)
    (hShipped :
      ∃ language ∈ shippedLanguages, language.id = sleighId)
    (hMain : target.modules.head?.map SBModule.description =
      main.map (fun mod => describeModule mod.1 mod.2)) :
    (∃ tag, selectedCompiler target = some tag ∧
      (tag.isWindows = false ↔
        match main with
        | some (arch, path) =>
            occursIn "PE" arch = false ∧
              occursIn "PE" path = false
        | none => sleighId = "AARCH64:LE:64:v8A")) ∧
      ∀ arch path path', main = some (arch, path) →
        other.triple = target.triple →
        other.modules.head?.map SBModule.description =
          some (describeModule arch path') →
        (selectedCompiler target = selectedCompiler other ↔
          (occursIn "PE" arch || occursIn "PE" path) =
            (occursIn "PE" arch || occursIn "PE" path')) := by
  rcases selectedCompiler_of_description ⟨_, hId⟩ hShipped with
    ⟨windows, gnu, hWindows, hGnu, hSelected⟩
  have hDescribed : ∀ (anyTarget : SBTarget) arch path,
      sleighIdFromTriple anyTarget.triple = .ok sleighId →
        anyTarget.modules.head?.map SBModule.description =
          some (describeModule arch path) →
          selectedCompiler anyTarget =
            some (if occursIn "PE" arch || occursIn "PE" path then
              windows else gnu) := by
    intro anyTarget arch path hTriple hDescription
    rw [hSelected anyTarget _ hTriple hDescription,
      occursIn_describeModule]
  constructor
  · cases main with
    | none => exact selectedCompiler_of_none hId hShipped hMain
    | some mod =>
        rcases mod with ⟨arch, path⟩
        refine ⟨_, hDescribed target arch path hId hMain, ?_⟩
        cases hArch : occursIn "PE" arch with
        | true => simp [hArch, hWindows]
        | false =>
            cases hPath : occursIn "PE" path with
            | true => simp [hArch, hPath, hWindows]
            | false => simp [hArch, hPath, hGnu]
  · intro arch path path' hSome hTriple hOther
    subst hSome
    have hOtherId :
        sleighIdFromTriple other.triple = .ok sleighId := by
      rw [hTriple]
      exact hId
    rw [hDescribed target arch path hId hMain,
      hDescribed other arch path' hOtherId hOther,
      Option.some.injEq]
    have hDiffer : windows ≠ gnu := by
      intro hSame
      rw [hSame, hGnu] at hWindows
      cases hWindows
    generalize (occursIn "PE" arch || occursIn "PE" path) =
      found
    generalize (occursIn "PE" arch || occursIn "PE" path') =
      found'
    cases found with
    | true =>
        cases found' with
        | true => simp
        | false => simp [hDiffer]
    | false =>
        cases found' with
        | true => simp [hDiffer.symm]
        | false => simp

/- A target with a main module, or without any. -/
def describedTarget
    (triple : String)
    (main : Option (String × String)) : SBTarget where
  triple := triple
  process := none
  modules :=
    main.toList.map (fun mod =>
      { description := describeModule mod.1 mod.2
        sections := []
        resolveFileAddress := fun _ => none })
  resolve := fun _ => none
  findFunctions := fun _ => []
  isLoadAddress := fun _ => false
  readMemory := fun _ _ => .unreadable

theorem selectedCompiler_not_windows_sample :
    (∃ tag,
      selectedCompiler (describedTarget "x86_64-linux"
          (some ("x86_64", "/bin/ls"))) = some tag ∧
        (tag.isWindows = false ↔
          occursIn "PE" "x86_64" = false ∧
            occursIn "PE" "/bin/ls" = false)) ∧
      ∀ arch path path',
        some ("x86_64", "/bin/ls") = some (arch, path) →
          "x86_64-linux" = "x86_64-linux" →
          some (describeModule "x86_64" "/bin/cat") =
            some (describeModule arch path') →
          (selectedCompiler (describedTarget "x86_64-linux"
                (some ("x86_64", "/bin/ls"))) =
              selectedCompiler (describedTarget "x86_64-linux"
                (some ("x86_64", "/bin/cat"))) ↔
            (occursIn "PE" arch || occursIn "PE" path) =
              (occursIn "PE" arch || occursIn "PE" path')) :=
  selectedCompiler_not_windows_iff
    (describedTarget "x86_64-linux"
      (some ("x86_64", "/bin/ls")))
    (describedTarget "x86_64-linux"
      (some ("x86_64", "/bin/cat")))
    "x86:LE:64:default" (some ("x86_64", "/bin/ls"))
    (by rfl) (by decide) (by rfl)

/-
  A Linux target is given the Windows calling convention when
  its path has `PE` in it, and when it has no module.
-/
theorem windows_compiler_on_linux :
    selectedCompiler (describedTarget "x86_64-linux"
        (some ("x86_64", "/home/PETER/a.out"))) =
      some ⟨"Visual Studio", "x86-64-win.cspec", "windows"⟩ ∧
    selectedCompiler (describedTarget "x86_64-linux"
        (some ("x86_64", "/home/peter/a.out"))) =
      some ⟨"gcc", "x86-64-gcc.cspec", "gcc"⟩ ∧
    selectedCompiler (describedTarget "x86_64-linux" none) =
      some ⟨"Visual Studio", "x86-64-win.cspec", "windows"⟩ :=
  ⟨by rfl, by rfl, by rfl⟩

end LLDBGhidra
