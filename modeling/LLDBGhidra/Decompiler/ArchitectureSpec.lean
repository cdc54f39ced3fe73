import LLDBGhidra.Decompiler.Architecture

/-
  What the documents of a processor and of a compiler say of
  address spaces and of global ranges, read off their trees,
  and how the decoders come to the same ranges.

  Main declarations:
    * `RangeProperties.ofElement`
    * `globalRangesOf`
    * `Architecture.decodeGlobal_ensures`
    * `Components.specSpaces`
-/

------------------------------------------------------------
-- Ranges
------------------------------------------------------------

namespace LLDBGhidra

namespace RangeProperties

open XmlDecode Effect

/- What an attribute says of a range. -/
def applyAttribute
    (props : RangeProperties)
    (attr : String × String) : RangeProperties :=
  if attr.1 = "space" then
    { props with spaceName := attr.2 }
  else if attr.1 = "first" then
    { props with first := streamUnsigned attr.2 }
  else if attr.1 = "last" then
    { props with
      last := streamUnsigned attr.2
      seenLast := true }
  else if attr.1 = "name" then
    { props with spaceName := attr.2, isRegister := true }
  else
    props

/- What an element says of a range. -/
def ofElement
    (el : Element) : RangeProperties :=
  el.attributes.foldl applyAttribute empty

variable {el child : Element}
variable {iter : List Element}
variable {below : List Frame}

theorem readsAttribute_decodeAttribute :
    ReadsAttribute
      (fun props attr => .ok (applyAttribute props attr))
      decodeAttribute := by
  intro props attr decoder hCurrent
  unfold decodeAttribute applyAttribute
  by_cases hSpace : attr.1 = "space"
  · simp only [hSpace, if_true]
    refine read_bind_ensures (readString_ensures hCurrent) ?_
    exact Ensures.pure (fun _ hSame => ⟨rfl, hSame⟩)
  simp only [hSpace, if_false]
  by_cases hFirst : attr.1 = "first"
  · simp only [hFirst, if_true]
    refine read_bind_ensures
      (readUnsignedInteger_ensures hCurrent) ?_
    exact Ensures.pure (fun _ hSame => ⟨rfl, hSame⟩)
  simp only [hFirst, if_false]
  by_cases hLast : attr.1 = "last"
  · simp only [hLast, if_true]
    refine read_bind_ensures
      (readUnsignedInteger_ensures hCurrent) ?_
    exact Ensures.pure (fun _ hSame => ⟨rfl, hSame⟩)
  simp only [hLast, if_false]
  by_cases hName : attr.1 = "name"
  · simp only [hName, if_true]
    refine read_bind_ensures (readString_ensures hCurrent) ?_
    exact Ensures.pure (fun _ hSame => ⟨rfl, hSame⟩)
  simp only [hName, if_false]
  exact Ensures.pure (fun _ hSame => ⟨rfl, hSame⟩)

/- An element that is a range is passed. -/
theorem decode_ensures
    (rounds : Nat) :
    Ensures (Opened (⟨el, child :: iter⟩ :: below))
      (decode rounds)
      (fun props decoder =>
        props = ofElement child ∧
          Opened (⟨el, iter⟩ :: below) decoder) := by
  unfold decode
  refine Ensures.bind openElement_ensures ?_
  intro elemId
  apply Ensures.ite
  · intro _
    exact Ensures.throw _
  · intro _
    unfold decodeAttributes
    apply Ensures.assuming
    intro _
    refine Ensures.bind (foldAttributes_ensures
      readsAttribute_decodeAttribute rounds empty) ?_
    intro props
    apply Ensures.assuming
    intro hProps
    refine Ensures.bind closeElement_ensures ?_
    intro _
    apply Ensures.pure
    intro decoder hOpened
    refine ⟨?_, hOpened⟩
    have hPure :
        child.attributes.foldlM
            (fun props attr =>
              (.ok (applyAttribute props attr) :
                Except Halt RangeProperties)) empty =
          .ok (ofElement child) :=
      List.foldlM_pure
    rw [hPure] at hProps
    exact (Except.ok.inj hProps).symm

end RangeProperties

end LLDBGhidra

------------------------------------------------------------
-- Global Ranges
------------------------------------------------------------

namespace LLDBGhidra

/- The ranges of the `<global>` elements among others. -/
def globalRangesOf
    (children : List Element) : List RangeProperties :=
  (children.filter (fun child => child.name = "global")).flatMap
    (fun child => child.children.map RangeProperties.ofElement)

theorem globalRangesOf_concat
    (children : List Element)
    (child : Element) :
    globalRangesOf (children ++ [child]) =
      globalRangesOf children ++
        if child.name = "global" then
          child.children.map RangeProperties.ofElement
        else
          [] := by
  unfold globalRangesOf
  rw [List.filter_append, List.flatMap_append]
  by_cases hName : child.name = "global"
  · simp [hName]
  · simp [hName]

namespace Architecture

open XmlDecode Effect

variable {el child : Element}
variable {iter : List Element}
variable {below : List Frame}

/- A `<global>` element, up to the children in `left`. -/
def GlobalRead
    (rangeProps : List RangeProperties)
    (child : Element)
    (below : List Frame)
    (rangeProps' : List RangeProperties)
    (left : List Element)
    (decoder : XmlDecode) : Prop :=
  ∃ front,
    (child.children = front ++ left ∧
      rangeProps' =
        rangeProps ++ front.map RangeProperties.ofElement) ∧
      Opened (⟨child, left⟩ :: below) decoder

theorem decodeGlobalRange_ensures
    (rounds : Nat)
    (rangeProps : List RangeProperties)
    (child : Element)
    (below : List Frame)
    (rangeProps' : List RangeProperties)
    (sub : Element)
    (left : List Element) :
    Ensures
      (GlobalRead rangeProps child below rangeProps'
        (sub :: left))
      (decodeGlobalRange rounds rangeProps' sub.name)
      (fun rangeProps'' decoder => ∃ left',
        GlobalRead rangeProps child below rangeProps'' left'
          decoder) := by
  unfold decodeGlobalRange
  apply Ensures.of_exists
  intro front
  apply Ensures.assuming
  intro hFront
  rcases hFront with ⟨hChildren, hSoFar⟩
  refine Ensures.bind (RangeProperties.decode_ensures rounds) ?_
  intro props
  apply Ensures.assuming
  intro hProps
  apply Ensures.pure
  intro decoder hOpened
  refine ⟨left, front ++ [sub], ⟨?_, ?_⟩, hOpened⟩
  · rw [hChildren, List.append_assoc]
    rfl
  · rw [hProps, hSoFar, List.map_append, List.append_assoc]
    rfl

/- With no children left, all of them are read. -/
theorem globalRead_nil
    (rangeProps : List RangeProperties)
    (child : Element)
    (below : List Frame)
    (rangeProps' : List RangeProperties)
    (decoder : XmlDecode)
    (hRead :
      GlobalRead rangeProps child below rangeProps' [] decoder) :
    rangeProps' = rangeProps ++
        child.children.map RangeProperties.ofElement ∧
      Opened (⟨child, []⟩ :: below) decoder := by
  rcases hRead with ⟨front, ⟨hChildren, hSoFar⟩, hOpened⟩
  rw [List.append_nil] at hChildren
  rw [hChildren]
  exact ⟨hSoFar, hOpened⟩

/- A `<global>` element is passed, and all its ranges read. -/
theorem decodeGlobal_ensures
    (rounds : Nat)
    (rangeProps : List RangeProperties) :
    Ensures (Opened (⟨el, child :: iter⟩ :: below))
      (decodeGlobal rounds rangeProps)
      (fun rangeProps' decoder =>
        rangeProps' = rangeProps ++
            child.children.map RangeProperties.ofElement ∧
          Opened (⟨el, iter⟩ :: below) decoder) := by
  have hLoop := foldChildren_ensures
    (fun _ _ _ hRead => by
      rcases hRead with ⟨front, hFront, hOpened⟩
      exact ⟨_, _, hOpened⟩)
    (decodeGlobalRange_ensures rounds rangeProps child
      (⟨el, iter⟩ :: below))
    rounds rangeProps child.children
  unfold decodeGlobal
  refine Ensures.bind (openElementOf_ensures "global") ?_
  intro _
  apply Ensures.assuming
  intro _
  refine Ensures.bind (hLoop.mono
    (fun _ hStart => ⟨[], ⟨rfl, by simp⟩, hStart.1⟩)
    (globalRead_nil rangeProps child (⟨el, iter⟩ :: below))) ?_
  intro rangeProps'
  apply Ensures.assuming
  intro hAll
  refine Ensures.bind closeElement_ensures ?_
  intro _
  exact Ensures.pure (fun _ hOpened => ⟨hAll, hOpened⟩)

end Architecture

end LLDBGhidra

------------------------------------------------------------
-- Spaces of Specifications
------------------------------------------------------------

namespace LLDBGhidra

open XmlDecode

/- The default data space that an element names. -/
def dataSpace
    (manager : AddrSpaceManager)
    (child : Element) : Except Halt AddrSpaceManager := do
  let nm ← findMatchingAttribute child "space"
  let spc ← findSpace manager.spaceOf nm
  manager.setDefaultDataSpace spc

/- What a child of a processor says of the spaces. -/
def processorSpace
    (manager : AddrSpaceManager)
    (child : Element) : Except Halt AddrSpaceManager :=
  if child.name = "data_space" then
    dataSpace manager child
  else
    .ok manager

namespace Architecture

/- What an attribute says of a stack. -/
def StackPointer.applyAttribute
    (spaceOf : String → Option SpaceId)
    (pointer : StackPointer)
    (attr : String × String) : Except Halt StackPointer :=
  if attr.1 = "reversejustify" then
    .ok pointer
  else if attr.1 = "growth" then
    .ok pointer
  else if attr.1 = "space" then do
    let basespace ← findSpace spaceOf attr.2
    .ok { pointer with basespace := some basespace }
  else if attr.1 = "register" then
    .ok { pointer with registerName := attr.2 }
  else
    .ok pointer

/- The stack of an element is added to the spaces. -/
def stackSpace
    (translate : Translate)
    (manager : AddrSpaceManager)
    (child : Element) : Except Halt AddrSpaceManager := do
  let pointer ←
    child.attributes.foldlM
      (StackPointer.applyAttribute manager.spaceOf) ⟨none, ""⟩
  match pointer.basespace with
  | none => .error .undefined
  | some basespace => do
      let point ←
        (translate.getRegister pointer.registerName).mapError
          Halt.thrown
      manager.addSpacebase translate basespace "stack" point
        (manager.truncatedSize basespace point)

/- Another space that is reached from a register. -/
def indexedSpace
    (translate : Translate)
    (manager : AddrSpaceManager)
    (child : Element) : Except Halt AddrSpaceManager := do
  let nameString ← findMatchingAttribute child "name"
  let registerName ← findMatchingAttribute child "register"
  let nm ← findMatchingAttribute child "space"
  let basespace ← findSpace manager.spaceOf nm
  let point ←
    (translate.getRegister registerName).mapError Halt.thrown
  manager.addSpacebase translate basespace nameString point
    point.size.toNat

/- What a child of a compiler says of the spaces. -/
def compilerSpace
    (translate : Translate)
    (manager : AddrSpaceManager)
    (child : Element) : Except Halt AddrSpaceManager :=
  if child.name = "stackpointer" then
    stackSpace translate manager child
  else if child.name = "spacebase" then
    indexedSpace translate manager child
  else
    .ok manager

/- The space of one more range. -/
def rangeSpace
    (translate : Translate)
    (manager : AddrSpaceManager)
    (spaces : List SpaceId)
    (props : RangeProperties) : Except Halt (List SpaceId) := do
  let range ← Range.ofProperties translate manager props
  .ok (spaces ++ [range.spc])

end Architecture

namespace Components

open Architecture

variable {ρ : Type}

/- A document that has to be there. -/
def document
    (store : DocumentStorage)
    (tag : String) : Except Halt Element :=
  match store.getTag tag with
  | none => .error .undefined
  | some el => .ok el

/-
  The spaces of the processor and of both specifications, and
  the spaces of all global ranges, in their order.
-/
def specSpaces
    (components : Components ρ) :
    Except Halt (AddrSpaceManager × List SpaceId) := do
  let store ← components.documents.mapError Halt.thrown
  let translate ← components.translator.mapError Halt.thrown
  let manager ←
    AddrSpaceManager.empty.copySpaces translate.manager
  let manager ← insertOwnSpaces translate.bigEndian manager
  let processor ← document store "processor_spec"
  let manager ←
    processor.children.foldlM processorSpace manager
  let compiler ← document store "compiler_spec"
  let manager ←
    compiler.children.foldlM (compilerSpace translate) manager
  let spaces ←
    (globalRangesOf compiler.children).foldlM
      (rangeSpace translate manager) []
  .ok (manager, spaces)

end Components

end LLDBGhidra
