import LLDBGhidra.Decompiler.RangeListCover
import LLDBGhidra.Plugin.LLDBLoadImage

/-
  The memory that the program does not write
  (`LLDBLoadImage.cpp`).

  Main declarations:
    * `LLDBLoadImage.getReadonly`
    * `SBSection.IsReadonly`
    * `LLDBLoadImage.getReadonly_eq_insertRanges`
    * `LLDBLoadImage.getReadonly_exact`
-/

------------------------------------------------------------
-- Read-Only Ranges
------------------------------------------------------------

namespace LLDBGhidra

namespace SBSection

/-
  Insert the bytes of a section that is loaded and known not
  to be writable.
-/
def insertReadonly
    (space : SpaceId)
    (list : RangeList)
    (part : SBSection) : RangeList :=
  if !part.isValid then
    list
  else if part.permissions ≠ 0 && !part.isWritable then
    if part.loadAddress ≠ lldbInvalidAddress then
      if 0 < part.byteSize then
        list.insertRange space part.loadAddress
          (part.loadAddress + part.byteSize - 1)
      else
        list
    else
      list
  else
    list

end SBSection

namespace LLDBLoadImage

/- `space` is the default code space. -/
def getReadonly
    (space : SpaceId)
    (list : RangeList)
    (image : LLDBLoadImage) : RangeList :=
  image.target.modules.foldl
    (fun list mod =>
      mod.sections.foldl (SBSection.insertReadonly space) list)
    list

end LLDBLoadImage

end LLDBGhidra

------------------------------------------------------------
-- The Ranges That Are Inserted
------------------------------------------------------------

namespace LLDBGhidra

namespace SBSection

/- A loaded part of the program that is not writable. -/
structure IsReadonly
    (part : SBSection) : Prop where
  valid : part.isValid = true
  known : part.permissions ≠ 0
  notWritable : part.isWritable = false
  loaded : part.loadAddress ≠ lldbInvalidAddress
  nonempty : 0 < part.byteSize

instance
    (part : SBSection) :
    Decidable part.IsReadonly :=
  decidable_of_iff
    (part.isValid = true ∧ part.permissions ≠ 0 ∧
      part.isWritable = false ∧
      part.loadAddress ≠ lldbInvalidAddress ∧
      0 < part.byteSize)
    ⟨fun ⟨hValid, hKnown, hWritable, hLoaded, hSize⟩ =>
      ⟨hValid, hKnown, hWritable, hLoaded, hSize⟩,
      fun hPart => ⟨hPart.valid, hPart.known,
        hPart.notWritable, hPart.loaded, hPart.nonempty⟩⟩

/- The last byte is in the address space. -/
def Fits
    (part : SBSection) : Prop :=
  part.loadAddress.toNat + part.byteSize.toNat ≤ 2 ^ 64

/- The bytes of a section. -/
def range
    (space : SpaceId)
    (part : SBSection) : Range :=
  ⟨space, part.loadAddress,
    part.loadAddress + part.byteSize - 1⟩

/- The last byte, without an overflow. -/
theorem last_toNat
    {part : SBSection}
    (hFits : part.Fits)
    (hSize : 0 < part.byteSize) :
    (part.loadAddress + part.byteSize - 1).toNat =
      part.loadAddress.toNat + part.byteSize.toNat - 1 := by
  unfold Fits at hFits
  have hPositive := BitVec.lt_def.mp hSize
  have hStart := part.loadAddress.isLt
  generalize part.loadAddress = start at *
  generalize part.byteSize = size at *
  bv_omega

theorem range_proper
    {part : SBSection}
    (space : SpaceId)
    (hFits : part.Fits)
    (hSize : 0 < part.byteSize) :
    (part.range space).first ≤ (part.range space).last := by
  have hPositive : 0 < part.byteSize.toNat :=
    BitVec.lt_def.mp hSize
  have hLast := last_toNat hFits hSize
  apply BitVec.le_def.mpr
  change part.loadAddress.toNat ≤
    (part.loadAddress + part.byteSize - 1).toNat
  omega

theorem insertReadonly_eq_ite
    (space : SpaceId)
    (list : RangeList)
    (part : SBSection) :
    insertReadonly space list part =
      if part.IsReadonly then
        list.insertRange space (part.range space).first
          (part.range space).last
      else
        list := by
  unfold insertReadonly
  by_cases hPart : part.IsReadonly
  · have hInvalid : ¬ (!part.isValid) = true := by
      simp [hPart.valid]
    have hPermissions :
        (part.permissions ≠ 0 && !part.isWritable) = true := by
      rw [hPart.notWritable]
      simpa using hPart.known
    rw [if_pos hPart, if_neg hInvalid, if_pos hPermissions,
      if_pos hPart.loaded, if_pos hPart.nonempty]
    rfl
  · rw [if_neg hPart]
    by_cases hInvalid : (!part.isValid) = true
    · rw [if_pos hInvalid]
    rw [if_neg hInvalid]
    by_cases hPermissions :
        (part.permissions ≠ 0 && !part.isWritable) = true
    swap
    · rw [if_neg hPermissions]
    rw [if_pos hPermissions]
    by_cases hLoaded : part.loadAddress ≠ lldbInvalidAddress
    swap
    · rw [if_neg hLoaded]
    rw [if_pos hLoaded]
    by_cases hSize : 0 < part.byteSize
    swap
    · rw [if_neg hSize]
    rcases Bool.and_eq_true_iff.mp hPermissions with
      ⟨hKnown, hWritable⟩
    exact absurd
      ⟨by simpa using hInvalid, of_decide_eq_true hKnown,
        by simpa using hWritable, hLoaded, hSize⟩ hPart

end SBSection

namespace LLDBLoadImage

/- The sections of the modules that count as read-only. -/
def readonlySections
    (image : LLDBLoadImage) : List SBSection :=
  (image.target.modules.flatMap SBModule.sections).filter
    (fun part => part.IsReadonly)

/- The two loops insert the ranges of these sections. -/
theorem getReadonly_eq_insertRanges
    (space : SpaceId)
    (list : RangeList)
    (image : LLDBLoadImage) :
    image.getReadonly space list =
      list.insertRanges
        (image.readonlySections.map (SBSection.range space)) := by
  have hInsert : SBSection.insertReadonly space =
      fun list part =>
        if part.IsReadonly then
          list.insertRange space (part.range space).first
            (part.range space).last
        else
          list := by
    funext list part
    exact SBSection.insertReadonly_eq_ite space list part
  unfold getReadonly RangeList.insertRanges readonlySections
  rw [List.foldl_map, List.foldl_filter, List.foldl_flatMap,
    hInsert]
  simp only [decide_eq_true_eq]
  rfl

theorem mem_readonlySections_iff
    {image : LLDBLoadImage}
    {part : SBSection} :
    part ∈ image.readonlySections ↔
      (∃ mod ∈ image.target.modules, part ∈ mod.sections) ∧
        part.IsReadonly := by
  unfold readonlySections
  rw [List.mem_filter, List.mem_flatMap, decide_eq_true_eq]

end LLDBLoadImage

end LLDBGhidra

------------------------------------------------------------
-- Exactness
------------------------------------------------------------

namespace LLDBGhidra

namespace LLDBLoadImage

/- Some module has the section. -/
def HasSection
    (image : LLDBLoadImage)
    (part : SBSection) : Prop :=
  ∃ mod ∈ image.target.modules, part ∈ mod.sections

/- The read-only sections end in the address space. -/
def SectionsFit
    (image : LLDBLoadImage) : Prop :=
  ∀ part, image.HasSection part → part.IsReadonly → part.Fits

theorem readonly_proper
    {image : LLDBLoadImage}
    (space : SpaceId)
    (hFits : image.SectionsFit) :
    ∀ range ∈ image.readonlySections.map (SBSection.range space),
      range.first ≤ range.last := by
  intro range hRange
  rcases List.mem_map.mp hRange with ⟨part, hPart, rfl⟩
  rcases mem_readonlySections_iff.mp hPart with
    ⟨hMember, hReadonly⟩
  exact SBSection.range_proper space
    (hFits part hMember hReadonly) hReadonly.nonempty

/- The loops insert the intervals of the read-only sections. -/
theorem cover_getReadonly
    {image : LLDBLoadImage}
    {list : RangeList}
    (space : SpaceId)
    (hFits : image.SectionsFit)
    (hCover : list.IsDisjointCover) :
    ∃ hResult : (image.getReadonly space list).IsDisjointCover,
      hResult.cover =
        hCover.cover.insertAll
          ((image.readonlySections.map
            (SBSection.range space)).map Range.span) := by
  rw [getReadonly_eq_insertRanges]
  exact hCover.insertRanges_spec (readonly_proper space hFits)

theorem covers_getReadonly_iff
    {image : LLDBLoadImage}
    {list : RangeList}
    (space : SpaceId)
    (hFits : image.SectionsFit)
    (hCover : list.IsDisjointCover)
    (offset : BitVec 64) :
    (image.getReadonly space list).Covers space offset ↔
      list.Covers space offset ∨
        ∃ part, image.HasSection part ∧ part.IsReadonly ∧
          part.loadAddress.toNat ≤ offset.toNat ∧
          offset.toNat ≤
            part.loadAddress.toNat +
              part.byteSize.toNat - 1 := by
  have hProper := readonly_proper space hFits
  rcases cover_getReadonly space hFits hCover with ⟨hResult, hEq⟩
  rw [← hResult.mem_cover_iff, hEq,
    DisjointCover.mem_insertAll_iff, hCover.mem_cover_iff]
  apply or_congr Iff.rfl
  constructor
  · rintro ⟨interval, hInterval, hPoint⟩
    rcases List.mem_map.mp hInterval with ⟨range, hRange, rfl⟩
    rcases
        (Range.mem_span_iff (hProper range hRange)).mp hPoint with
      ⟨_, hFirst, hLast⟩
    rcases List.mem_map.mp hRange with ⟨part, hPart, rfl⟩
    rcases mem_readonlySections_iff.mp hPart with
      ⟨hMember, hReadonly⟩
    have hStop := SBSection.last_toNat
      (hFits part hMember hReadonly) hReadonly.nonempty
    exact ⟨part, hMember, hReadonly, BitVec.le_def.mp hFirst,
      hStop ▸ BitVec.le_def.mp hLast⟩
  · rintro ⟨part, hMember, hReadonly, hFirst, hLast⟩
    have hStop := SBSection.last_toNat
      (hFits part hMember hReadonly) hReadonly.nonempty
    have hRange : part.range space ∈
        image.readonlySections.map (SBSection.range space) :=
      List.mem_map_of_mem
        (mem_readonlySections_iff.mpr ⟨hMember, hReadonly⟩)
    refine ⟨(part.range space).span,
      List.mem_map_of_mem hRange, ?_⟩
    exact (Range.mem_span_iff (hProper _ hRange)).mpr
      ⟨rfl, BitVec.le_def.mpr hFirst,
        BitVec.le_def.mpr (hStop.symm ▸ hLast)⟩

theorem mem_getReadonly_iff_of_space_ne
    {image : LLDBLoadImage}
    {list : RangeList}
    {space : SpaceId}
    (hFits : image.SectionsFit)
    (hCover : list.IsDisjointCover)
    {range : Range}
    (hSpace : range.spc ≠ space) :
    range ∈ (image.getReadonly space list).tree ↔
      range ∈ list.tree := by
  rcases cover_getReadonly space hFits hCover with ⟨hResult, hEq⟩
  have hIff (hProper : range.first ≤ range.last) :
      range ∈ (image.getReadonly space list).tree ↔
        range ∈ list.tree := by
    rw [← hResult.span_mem_cover_iff hProper, hEq,
      DisjointCover.mem_insertAll_iff_of_apart,
      hCover.span_mem_cover_iff hProper]
    intro interval hInterval
    rcases List.mem_map.mp hInterval with ⟨other, hOther, rfl⟩
    have hOtherProper := readonly_proper space hFits other hOther
    rcases List.mem_map.mp hOther with ⟨part, _, rfl⟩
    exact Range.not_meets_of_space_ne hProper hOtherProper
      hSpace
  constructor
  · intro hRange
    exact (hIff (hResult.proper range hRange)).mp hRange
  · intro hRange
    exact (hIff (hCover.proper range hRange)).mpr hRange

/- The order and the repetitions of sections do not matter. -/
theorem getReadonly_congr
    {image other : LLDBLoadImage}
    {list : RangeList}
    (space : SpaceId)
    (hFits : image.SectionsFit)
    (hCover : list.IsDisjointCover)
    (hSections : ∀ part,
      other.HasSection part ↔ image.HasSection part) :
    other.getReadonly space list =
      image.getReadonly space list := by
  have hOtherFits : other.SectionsFit := by
    intro part hPart
    exact hFits part ((hSections part).mp hPart)
  rcases cover_getReadonly space hFits hCover with ⟨hResult, hEq⟩
  rcases cover_getReadonly space hOtherFits hCover with
    ⟨hOther, hOtherEq⟩
  apply hOther.eq_of_cover_eq hResult
  rw [hEq, hOtherEq]
  apply DisjointCover.insertAll_congr
  intro interval
  have hParts : ∀ part, part ∈ other.readonlySections ↔
      part ∈ image.readonlySections := by
    intro part
    rw [mem_readonlySections_iff, mem_readonlySections_iff]
    exact and_congr (hSections part) Iff.rfl
  simp only [List.mem_map, hParts]

/-
  Exactly the loaded bytes of sections that are known not to
  be writable are added, and the outcome depends only on the
  set of the sections.
-/
theorem getReadonly_exact
    (space : SpaceId)
    (image : LLDBLoadImage)
    (list : RangeList)
    (hFits : image.SectionsFit)
    (hCover : list.IsDisjointCover) :
    (∀ offset : BitVec 64,
      (image.getReadonly space list).Covers space offset ↔
        list.Covers space offset ∨
          ∃ part, image.HasSection part ∧ part.IsReadonly ∧
            part.loadAddress.toNat ≤ offset.toNat ∧
            offset.toNat ≤
              part.loadAddress.toNat +
                part.byteSize.toNat - 1) ∧
      (image.getReadonly space list).IsDisjointCover ∧
      (∀ range : Range, range.spc ≠ space →
        (range ∈ (image.getReadonly space list).tree ↔
          range ∈ list.tree)) ∧
      ∀ other : LLDBLoadImage,
        (∀ part, other.HasSection part ↔
          image.HasSection part) →
        other.getReadonly space list =
          image.getReadonly space list := by
  rcases cover_getReadonly space hFits hCover with ⟨hResult, _⟩
  refine ⟨covers_getReadonly_iff space hFits hCover, hResult,
    ?_, ?_⟩
  · intro range hSpace
    exact mem_getReadonly_iff_of_space_ne hFits hCover hSpace
  · intro other hSections
    exact getReadonly_congr space hFits hCover hSections

/-
  Two overlapping sections, one that is writable, and one at
  the top of the address space.
-/
def sectionsImage : LLDBLoadImage where
  target :=
    { triple := "x86_64-linux"
      process := none
      modules :=
        [{ description := "(x86_64) /bin/ls"
           sections :=
            [⟨true, 6, 0x1000, 0x1000⟩,
              ⟨true, 3, 0x3000, 0x1000⟩]
           resolveFileAddress := fun _ => none },
         { description := "[vdso]"
           sections :=
            [⟨true, 2, 0x1800, 0x1000⟩,
              ⟨true, 6, 0xfffffffffffff000, 0x1000⟩]
           resolveFileAddress := fun _ => none }]
      resolve := fun _ => none
      findFunctions := fun _ => []
      isLoadAddress := fun _ => true
      readMemory := fun _ _ => .unreadable }
  process := none

theorem sectionsFit_sectionsImage :
    sectionsImage.SectionsFit := by
  rintro part ⟨mod, hMod, hPart⟩ _
  have hAll :
      ∀ mod ∈ sectionsImage.target.modules,
        ∀ part ∈ mod.sections,
          part.loadAddress.toNat + part.byteSize.toNat ≤
            2 ^ 64 := by
    decide
  exact hAll mod hMod part hPart

theorem getReadonly_exact_sectionsImage :
    (sectionsImage.getReadonly 1 ⟨[⟨2, 0x1000, 0x2fff⟩]⟩).Covers
        1 0xffffffffffffffff ∧
      (sectionsImage.getReadonly 1
        ⟨[⟨2, 0x1000, 0x2fff⟩]⟩).IsDisjointCover ∧
      ⟨2, 0x1000, 0x2fff⟩ ∈ (sectionsImage.getReadonly 1
        ⟨[⟨2, 0x1000, 0x2fff⟩]⟩).tree := by
  have hExact :=
    getReadonly_exact 1 sectionsImage ⟨[⟨2, 0x1000, 0x2fff⟩]⟩
      sectionsFit_sectionsImage
      ⟨by decide, List.pairwise_singleton _ _⟩
  refine ⟨?_, hExact.2.1, ?_⟩
  · refine (hExact.1 0xffffffffffffffff).mpr (Or.inr
      ⟨⟨true, 6, 0xfffffffffffff000, 0x1000⟩, ?_, by decide,
        by decide, by decide⟩)
    exact ⟨_, List.mem_cons_of_mem _ (List.mem_singleton_self _),
      List.mem_cons_of_mem _ (List.mem_singleton_self _)⟩
  · exact (hExact.2.2.1 ⟨2, 0x1000, 0x2fff⟩ (by decide)).mpr
      (List.mem_singleton_self _)

example :
    (sectionsImage.getReadonly 1
      ⟨[⟨2, 0x1000, 0x2fff⟩]⟩).tree =
      [⟨1, 0x1000, 0x27ff⟩,
        ⟨1, 0xfffffffffffff000, 0xffffffffffffffff⟩,
        ⟨2, 0x1000, 0x2fff⟩] := by
  decide

end LLDBLoadImage

end LLDBGhidra
