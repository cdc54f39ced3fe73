import LLDBGhidra.Decompiler.DatabaseProperty
import LLDBGhidra.Plugin.LLDBReadonly

/-
  From the sections of the target to the properties that the
  decompiler reads (`architecture.cc`).

  Main declarations:
    * `Architecture.fillinReadOnlyFromLoader`
    * `LLDBLoadImage.fillinReadOnly_exact`
-/

------------------------------------------------------------
-- Filling in the Properties
------------------------------------------------------------

namespace LLDBGhidra

/- `Varnode::readonly`. -/
def varnodeReadonly : BitVec 32 :=
  0x2000

/- Mark the ranges that the loader reports. -/
def Architecture.fillinReadOnlyFromLoader
    (manager : AddrSpaceManager)
    (space : SpaceId)
    (loader : LLDBLoadImage)
    (flagbase : Flagbase) : Except Halt Flagbase :=
  (loader.getReadonly space .empty).tree.foldlM
    (fun flagbase range =>
      Database.setPropertyRange manager varnodeReadonly range
        flagbase)
    flagbase

namespace LLDBLoadImage

variable {manager : AddrSpaceManager}
variable {image : LLDBLoadImage}

/- The read-only sections end in the default code space. -/
def SectionsInSpace
    (manager : AddrSpaceManager)
    (space : SpaceId)
    (image : LLDBLoadImage) : Prop :=
  ∃ spc, manager.getSpace space = some spc ∧
    ∀ part, image.HasSection part → part.IsReadonly →
      part.loadAddress.toNat + part.byteSize.toNat ≤
        spc.highest.toNat + 1

theorem SectionsInSpace.fit
    {space : SpaceId}
    (hSections : image.SectionsInSpace manager space) :
    image.SectionsFit := by
  rcases hSections with ⟨spc, _, hInside⟩
  intro part hPart hReadonly
  have hEnd := hInside part hPart hReadonly
  have hHighest := spc.highest.isLt
  unfold SBSection.Fits
  omega

theorem empty_isDisjointCover :
    RangeList.empty.IsDisjointCover :=
  ⟨fun _ hRange => absurd hRange List.not_mem_nil,
    List.Pairwise.nil⟩

/- What the loader reports is in the code space. -/
theorem inSpace_of_mem_getReadonly
    {space : SpaceId}
    (hSections : image.SectionsInSpace manager space)
    {range : Range}
    (hRange :
      range ∈ (image.getReadonly space .empty).tree) :
    range.InSpace manager ∧ range.spc = space := by
  rcases cover_getReadonly space hSections.fit
      empty_isDisjointCover with
    ⟨hResult, _⟩
  have hProper := hResult.proper range hRange
  have hSpace : range.spc = space := by
    by_contra hNe
    exact List.not_mem_nil
      ((mem_getReadonly_iff_of_space_ne hSections.fit
        empty_isDisjointCover hNe).mp hRange)
  refine ⟨⟨hProper, ?_⟩, hSpace⟩
  have hCovers :
      (image.getReadonly space .empty).Covers space
        range.last :=
    ⟨range, hRange, hSpace, hProper, BitVec.le_refl _⟩
  rcases (covers_getReadonly_iff space hSections.fit
      empty_isDisjointCover range.last).mp hCovers with
    ⟨other, hOther, _⟩ | ⟨part, hPart, hReadonly, _, hLast⟩
  · exact absurd hOther List.not_mem_nil
  · rcases hSections with ⟨spc, hSpc, hInside⟩
    have hEnd := hInside part hPart hReadonly
    refine ⟨spc, hSpace ▸ hSpc, BitVec.le_def.mpr ?_⟩
    omega

/- A loaded section that is not writable has the byte. -/
def IsReadonlyByte
    (image : LLDBLoadImage)
    (offset : BitVec 64) : Prop :=
  ∃ part, image.HasSection part ∧ part.IsReadonly ∧
    part.Contains offset

theorem covers_iff_isReadonlyByte
    {space : SpaceId}
    (hSections : image.SectionsInSpace manager space)
    (index : SpaceId)
    (offset : BitVec 64) :
    (∃ range ∈ (image.getReadonly space .empty).tree,
      range.Covers index offset) ↔
      index = space ∧ image.IsReadonlyByte offset := by
  have hCovers := covers_getReadonly_iff space hSections.fit
    empty_isDisjointCover offset
  constructor
  · rintro ⟨range, hRange, rfl, hFirst, hLast⟩
    have hSpace :=
      (inSpace_of_mem_getReadonly hSections hRange).2
    refine ⟨hSpace, ?_⟩
    rcases hCovers.mp ⟨range, hRange, hSpace, hFirst, hLast⟩
      with
      ⟨other, hOther, _⟩ |
        ⟨part, hPart, hReadonly, hFrom, hUpTo⟩
    · exact absurd hOther List.not_mem_nil
    · have hSize := BitVec.lt_def.mp hReadonly.nonempty
      change 0 < part.byteSize.toNat at hSize
      refine ⟨part, hPart, hReadonly, hReadonly.loaded,
        BitVec.le_def.mpr hFrom, ?_⟩
      omega
  · rintro ⟨rfl, part, hPart, hReadonly, _, hFrom, hUpTo⟩
    rcases hCovers.mpr (Or.inr ⟨part, hPart, hReadonly,
        BitVec.le_def.mp hFrom, by omega⟩) with
      ⟨range, hRange, hSpace, hFirst, hLast⟩
    exact ⟨range, hRange, hSpace.symm, hFirst, hLast⟩

/-
  Exactly the bytes of loaded sections that are known not to
  be writable become read-only, and no other property of any
  byte changes.
-/
theorem fillinReadOnly_exact
    (manager : AddrSpaceManager)
    (space : SpaceId)
    (image : LLDBLoadImage)
    (flagbase : Flagbase)
    (hSections : image.SectionsInSpace manager space) :
    ∃ flagbase',
      Architecture.fillinReadOnlyFromLoader manager space image
          flagbase = .ok flagbase' ∧
        ∀ index offset, manager.HasOffset index offset →
          (index = space ∧ image.IsReadonlyByte offset →
            Database.getProperty flagbase'
                (.ofSpace index offset) =
              Database.getProperty flagbase
                  (.ofSpace index offset) |||
                varnodeReadonly) ∧
          (¬ (index = space ∧ image.IsReadonlyByte offset) →
            Database.getProperty flagbase'
                (.ofSpace index offset) =
              Database.getProperty flagbase
                (.ofSpace index offset)) := by
  have hRanges : ∀ call ∈
      (image.getReadonly space .empty).tree.map
        (Database.PropertyCall.set varnodeReadonly),
      call.range.InSpace manager := by
    intro call hCall
    rcases List.mem_map.mp hCall with ⟨range, hRange, rfl⟩
    exact (inSpace_of_mem_getReadonly hSections hRange).1
  rcases Database.getProperty_run manager _ flagbase hRanges
    with ⟨flagbase', hRun, hAfter⟩
  refine ⟨flagbase', ?_, ?_⟩
  · rw [List.foldlM_map] at hRun
    exact hRun
  · intro index offset hOffset
    rw [hAfter index offset hOffset,
      Database.PropertyCall.flagsAfter_set]
    have hIff :=
      covers_iff_isReadonlyByte hSections index offset
    exact ⟨fun hByte => if_pos (hIff.mpr hByte),
      fun hByte => if_neg (fun hCovers =>
        hByte (hIff.mp hCovers))⟩

theorem sectionsInSpace_sectionsImage :
    sectionsImage.SectionsInSpace Database.byteSpaces 1 := by
  refine ⟨_, Database.byteSpaces_ram, ?_⟩
  rintro part ⟨mod, hMod, hPart⟩ _
  have hAll :
      ∀ mod ∈ sectionsImage.target.modules,
        ∀ part ∈ mod.sections,
          part.loadAddress.toNat + part.byteSize.toNat ≤
            (calcScaleMask 8 1).toNat + 1 := by
    decide
  exact hAll mod hMod part hPart

/- The last byte of the address space is in a section. -/
theorem fillinReadOnly_exact_sectionsImage :
    ∃ flagbase,
      Architecture.fillinReadOnlyFromLoader
          Database.byteSpaces 1 sectionsImage
          Database.newFlagbase = .ok flagbase ∧
        Database.getProperty flagbase
            (.ofSpace 1 0xffffffffffffffff) =
          varnodeReadonly := by
  rcases fillinReadOnly_exact Database.byteSpaces 1
      sectionsImage Database.newFlagbase
      sectionsInSpace_sectionsImage with
    ⟨flagbase, hRun, hAfter⟩
  refine ⟨flagbase, hRun, ?_⟩
  refine (hAfter 1 0xffffffffffffffff
    (Database.byteSpaces_hasOffset _)).1 ⟨rfl, ?_⟩
  refine ⟨⟨true, 6, 0xfffffffffffff000, 0x1000⟩, ?_,
    by decide, by decide⟩
  exact ⟨_, List.mem_cons_of_mem _ (List.mem_singleton_self _),
    List.mem_cons_of_mem _ (List.mem_singleton_self _)⟩

end LLDBLoadImage

end LLDBGhidra
