import LLDBGhidra.Decompiler.CalcNZMask

/-
  The masks of all varnodes are found (`funcdata_varnode.cc`),
  and no value that a varnode gets while the function runs has
  a bit outside its mask.

  Main declarations:
    * `FuncDataflow.equations`
    * `FuncDataflow.Runs`
    * `FuncDataflow.calcNZMask_covers`
-/

------------------------------------------------------------
-- Masks as Solutions of Equations
------------------------------------------------------------

namespace LLDBGhidra

open BitCover
open Worklist (Equations Settled Tracked Ascent Rising Pending)

namespace FuncDataflow

/- The mask of an output is the one its operation gives it. -/
def equations
    (fd : FuncDataflow) : Equations Nat Nat (BitVec 64) :=
  { target := fun op => (fd.ops op).output
    value := fun nzm op =>
      (fd.pcodeOp nzm op).getNZMaskLocal false
    readers := fun vn => (fd.varnodes vn).descend }

theorem propagateStep_eq
    (fd : FuncDataflow) :
    fd.propagateStep = Worklist.step fd.equations := by
  funext state
  rcases state with ⟨nzm, worklist⟩
  cases worklist with
  | nil => rfl
  | cons op rest =>
      have hTarget : fd.equations.target op =
          (fd.ops op).output := rfl
      rw [propagateStep, Worklist.step, hTarget]
      cases (fd.ops op).output <;> rfl

variable {fd : FuncDataflow}
variable {rank : Nat → Nat}
variable {nzm others start : Nat → BitVec 64}
variable {op vn : Nat}

/- Larger masks of all varnodes, but not of constants. -/
theorem pcodeOp_grows
    (hMasks : ∀ vn, Within (nzm vn) (others vn))
    (hConstants : ∀ vn ∈ (fd.ops op).inrefs,
      (fd.varnodes vn).constant = true →
        others vn = nzm vn) :
    (fd.pcodeOp nzm op).Grows (fd.pcodeOp others op) := by
  refine ⟨rfl, rfl, rfl, ?_⟩
  rw [pcodeOp, pcodeOp]
  simp only [List.forall₂_map_left_iff,
    List.forall₂_map_right_iff, List.forall₂_same]
  intro vn hIn
  exact ⟨rfl, rfl, rfl, hMasks vn, hConstants vn hIn⟩

/- The operation reads the varnode and has an output. -/
def Reads
    (fd : FuncDataflow)
    (vn : Nat) : Prop :=
  ∃ op ∈ fd.alive, vn ∈ (fd.ops op).inrefs

/- Inputs have their masks, and no mask exceeds its size. -/
structure Region
    (fd : FuncDataflow)
    (nzm : Nat → BitVec 64) : Prop where
  inputs : ∀ vn, fd.Reads vn →
    (fd.varnodes vn).writer = none →
      nzm vn = fd.inputMask vn
  sizes : ∀ vn op, (fd.varnodes vn).writer = some op →
    Within (nzm vn) (calcMask (fd.varnodes vn).size)
  divisors : ∀ op ∈ fd.alive,
    (fd.pcodeOp nzm op).DivisorKnown

theorem inputMask_within
    (hWell : fd.WellFormed)
    (vn : Nat) :
    Within (fd.inputMask vn)
      (calcMask (fd.varnodes vn).size) := by
  rw [inputMask]
  split_ifs with hConstant hSpacebase
  · have hSmall := (hWell.constants vn hConstant).2
    rw [within_calcMask_iff]
    intro index hBit
    by_contra hFar
    have hClear := Nat.testBit_lt_two_pow
      (lt_of_lt_of_le hSmall
        (Nat.pow_le_pow_right Nat.two_pos
          (Nat.not_lt.mp hFar)))
    rw [BitVec.getLsbD, hClear] at hBit
    exact Bool.false_ne_true hBit
  · exact Within.and_left _ _
  · exact Within.refl _

namespace Region

theorem masksFit
    (hWell : fd.WellFormed)
    (hRegion : fd.Region nzm)
    (hAlive : op ∈ fd.alive) :
    (fd.pcodeOp nzm op).MasksFit := by
  intro input hIn
  rcases List.mem_map.mp hIn with ⟨vn, hVn, hEq⟩
  rw [← hEq]
  change Within (nzm vn) (calcMask (fd.varnodes vn).size)
  cases hWriter : (fd.varnodes vn).writer with
  | none =>
      rw [hRegion.inputs vn ⟨op, hAlive, hVn⟩ hWriter]
      exact inputMask_within hWell vn
  | some writer => exact hRegion.sizes vn writer hWriter

theorem constant_eq
    (hWell : fd.WellFormed)
    (hRegion : fd.Region nzm)
    (hReads : fd.Reads vn)
    (hConstant : (fd.varnodes vn).constant = true) :
    nzm vn = (fd.varnodes vn).offset := by
  rw [hRegion.inputs vn hReads (hWell.constants vn hConstant).1,
    inputMask, if_pos hConstant]

/- Operations on inputs whose masks have grown. -/
theorem grows
    (hWell : fd.WellFormed)
    (hRegion : fd.Region nzm)
    (hOthers : fd.Region others)
    (hMasks : ∀ vn, Within (nzm vn) (others vn))
    (hAlive : op ∈ fd.alive) :
    (fd.pcodeOp nzm op).Grows (fd.pcodeOp others op) := by
  apply pcodeOp_grows hMasks
  intro vn hVn hConstant
  rw [hRegion.constant_eq hWell ⟨op, hAlive, hVn⟩ hConstant,
    hOthers.constant_eq hWell ⟨op, hAlive, hVn⟩ hConstant]

/- An output may get a larger mask from its operation. -/
theorem update
    (hWell : fd.WellFormed)
    (hRegion : fd.Region nzm)
    (hAlive : op ∈ fd.alive)
    (hOutput : (fd.ops op).output = some vn)
    (hBelow : Within (nzm vn)
      ((fd.pcodeOp nzm op).getNZMaskLocal false)) :
    fd.Region (Function.update nzm vn
      ((fd.pcodeOp nzm op).getNZMaskLocal false)) := by
  have hWriter := hWell.writer op hAlive vn hOutput
  have hLocal := PcodeOp.getNZMaskLocal_within false
    (hWell.sizes op hAlive vn hOutput nzm)
    (hRegion.masksFit hWell hAlive)
    (hRegion.divisors op hAlive)
  have hGrown : ∀ other, Within (nzm other)
      (Function.update nzm vn
        ((fd.pcodeOp nzm op).getNZMaskLocal false) other) := by
    intro other
    by_cases hEq : other = vn
    · rw [hEq, Function.update_self]
      exact hBelow
    · rw [Function.update_of_ne hEq]
      exact Within.refl _
  refine ⟨?_, ?_, ?_⟩
  · intro other hReads hNone
    have hNe : other ≠ vn := by
      intro hEq
      rw [hEq, hWriter] at hNone
      cases hNone
    rw [Function.update_of_ne hNe]
    exact hRegion.inputs other hReads hNone
  · intro other writer hOther
    by_cases hEq : other = vn
    · rw [hEq, Function.update_self,
        ← sizeout_of_output hOutput]
      exact hLocal
    · rw [Function.update_of_ne hEq]
      exact hRegion.sizes other writer hOther
  · intro other hOther hRem
    have hGrows := @pcodeOp_grows fd nzm _ other hGrown (by
      intro input hIn hConstant
      apply Function.update_of_ne
      intro hEq
      rw [← hEq, (hWell.constants input hConstant).1] at hWriter
      cases hWriter)
    exact ((hGrows.getIn 1).mask).ne_zero
      (hRegion.divisors other hOther hRem)

end Region

theorem equations_tracked
    (hWell : fd.WellFormed) :
    Tracked fd.equations (fun op => op ∈ fd.alive) := by
  refine ⟨?_, ?_, ?_⟩
  · intro _ vn _ _ reader hReader
    exact hWell.descend vn reader hReader
  · intro left right vn hLeft hRight hOutLeft hOutRight
    have hWriter := hWell.writer left hLeft vn hOutLeft
    rw [hWell.writer right hRight vn hOutRight] at hWriter
    exact (Option.some.inj hWriter).symm
  · intro nzm op vn mask hAlive hReader
    have hInputs : (fd.ops op).inrefs.map
        (fd.varnode (Function.update nzm vn mask)) =
        (fd.ops op).inrefs.map (fd.varnode nzm) := by
      apply List.map_congr_left
      intro input hIn
      have hNe : input ≠ vn := by
        intro hEq
        apply hReader
        rw [← hEq]
        exact hWell.reads op hAlive input hIn
      rw [varnode, varnode, Function.update_of_ne hNe]
    change (fd.pcodeOp _ op).getNZMaskLocal false =
      (fd.pcodeOp _ op).getNZMaskLocal false
    rw [pcodeOp, pcodeOp, hInputs]

theorem equations_ascent
    (hWell : fd.WellFormed) :
    Ascent fd.equations (fun op => op ∈ fd.alive) Within
      fd.Region (fun mask => mask.cpop.toNat) 64 :=
  { refl := Within.refl
    trans := fun _ _ _ => Within.trans
    higher := fun _ _ => BitCount.cpop_lt_of_bits
    bounded := fun mask => BitVec.toNat_cpop_le mask
    keeps := fun _ _ _ hRegion hAlive hOutput hBelow =>
      hRegion.update hWell hAlive hOutput hBelow
    monotone := fun nzm _ op vn hRegion hOthers hAlive hOutput
        hMasks =>
      PcodeOp.getNZMaskLocal_grows
        (hRegion.grows hWell hOthers hMasks hAlive)
        (hWell.sizes op hAlive vn hOutput nzm)
        (hRegion.masksFit hWell hAlive)
        (hRegion.divisors op hAlive) false }

end FuncDataflow

end LLDBGhidra

------------------------------------------------------------
-- From the Traversal to the Worklist
------------------------------------------------------------

namespace LLDBGhidra

open BitCover
open Worklist (Settled Rising Pending)

namespace FuncDataflow

variable {fd : FuncDataflow}
variable {rank : Nat → Nat}
variable {nzm start : Nat → BitVec 64}
variable {mark : Nat → Bool}
variable {op vn : Nat}

/-
  An input that no operation writes is on an edge that is
  followed, or it has its mask already.
-/
def InputsEntered
    (fd : FuncDataflow)
    (start : Nat → BitVec 64) : Prop :=
  ∀ vn, fd.Reads vn → (fd.varnodes vn).writer = none →
    (∃ op ∈ fd.alive, ∃ slot, fd.Follows op slot vn) ∨
      start vn = fd.inputMask vn

/- No remainder is by a varnode whose mask is found empty. -/
def DivisorsKnown
    (fd : FuncDataflow)
    (start : Nat → BitVec 64)
    (mark : Nat → Bool) : Prop :=
  ∀ fuel state,
    fd.traverse fuel fd.alive
        { nzm := start, mark := mark, opstack := [] } =
      some state →
      ∀ op ∈ fd.alive,
        (fd.pcodeOp state.nzm op).DivisorKnown

/- The state of a traversal when all operations are done. -/
structure Traversed
    (fd : FuncDataflow)
    (start nzm : Nat → BitVec 64) : Prop where
  input : ∀ op ∈ fd.alive, ∀ slot vn,
    fd.Follows op slot vn →
      (fd.varnodes vn).writer = none →
        nzm vn = fd.inputMask vn
  kept : ∀ vn, (fd.varnodes vn).writer = none →
    nzm vn = start vn ∨ nzm vn = fd.inputMask vn
  mask : ∀ op ∈ fd.alive, ∀ vn,
    (fd.ops op).output = some vn →
      nzm vn = (fd.pcodeOp nzm op).getNZMaskLocal true

theorem Traversal.Visits.traversed
    {state : Traversal}
    (hVisits : state.Visits fd rank start)
    (hStack : state.opstack = [])
    (hMarks : ∀ op ∈ fd.alive, state.mark op = true) :
    fd.Traversed start state.nzm := by
  have hDone : ∀ op ∈ fd.alive, state.Done op := by
    intro op hAlive
    refine ⟨hMarks op hAlive, ?_⟩
    rw [hStack]
    exact fun hIn => by cases hIn
  refine ⟨?_, hVisits.kept, ?_⟩
  · intro op hAlive
    exact (hVisits.finished op (hDone op hAlive)).input
  · intro op hAlive
    exact (hVisits.finished op (hDone op hAlive)).mask

namespace Traversed

theorem inputMask_eq
    (hTraversed : fd.Traversed start nzm)
    (hEntered : fd.InputsEntered start)
    (hReads : fd.Reads vn)
    (hNone : (fd.varnodes vn).writer = none) :
    nzm vn = fd.inputMask vn := by
  rcases hEntered vn hReads hNone with
    ⟨op, hAlive, slot, hFollows⟩ | hStart
  · exact hTraversed.input op hAlive slot vn hFollows hNone
  · rcases hTraversed.kept vn hNone with hKept | hMask
    · rw [hKept, hStart]
    · exact hMask

open Classical in
/- The masks that do not exceed their sizes, and empty ones. -/
noncomputable def fitting
    (fd : FuncDataflow)
    (nzm : Nat → BitVec 64)
    (vn : Nat) : BitVec 64 :=
  if Within (nzm vn) (calcMask (fd.varnodes vn).size) then
    nzm vn
  else
    0

theorem fitting_within
    (vn : Nat) :
    Within (fitting fd nzm vn)
      (calcMask (fd.varnodes vn).size) := by
  rw [fitting]
  split_ifs with hWithin
  · exact hWithin
  · exact Within.zero _

/- By induction on the rank of the operation that writes it. -/
theorem within_size
    (hWell : fd.WellFormed)
    (hLoops : fd.LoopsCut rank)
    (hEntered : fd.InputsEntered start)
    (hTraversed : fd.Traversed start nzm)
    (hDivisors : ∀ op ∈ fd.alive,
      (fd.pcodeOp nzm op).DivisorKnown)
    (bound : Nat)
    (vn op : Nat)
    (hBound : rank op < bound)
    (hWriter : (fd.varnodes vn).writer = some op) :
    Within (nzm vn) (calcMask (fd.varnodes vn).size) := by
  induction bound generalizing vn op with
  | zero => omega
  | succ bound ih =>
      have hOutput := hWell.output vn op hWriter
      have hFollowed : ∀ slot input,
          fd.Follows op slot input →
            nzm input = fitting fd nzm input := by
        intro slot input hFollows
        rw [fitting, if_pos]
        cases hInput : (fd.varnodes input).writer with
        | none =>
            have hReads : fd.Reads input :=
              ⟨op, hOutput.1,
                List.mem_of_getElem? hFollows.input⟩
            rw [hTraversed.inputMask_eq hEntered hReads hInput]
            exact inputMask_within hWell input
        | some writer =>
            have hLess := hLoops op slot input writer
              hOutput.1 hFollows hInput
            exact ih input writer (by omega) hInput
      have hSizes := hWell.sizes op hOutput.1 vn hOutput.2
        (fitting fd nzm)
      have hFit : (fd.pcodeOp (fitting fd nzm) op).MasksFit := by
        intro input hIn
        rcases List.mem_map.mp hIn with ⟨other, _, hEq⟩
        rw [← hEq]
        exact fitting_within other
      have hDivisor :
          (fd.pcodeOp (fitting fd nzm) op).DivisorKnown := by
        intro hRem
        have hKnown := hDivisors op hOutput.1 hRem
        cases hIn : (fd.ops op).inrefs[1]? with
        | none =>
            exfalso
            apply hKnown
            rw [PcodeOp.getIn, List.getD_eq_getElem?_getD,
              pcodeOp, List.getElem?_map, hIn]
            rfl
        | some input =>
            have hOpen : fd.clipped op 1 = false := by
              have hCode : (fd.ops op).opcode = .intRem := hRem
              simp [clipped, hCode]
            have hSame := hFollowed 1 input ⟨hIn, hOpen⟩
            rw [getIn_pcodeOp hIn] at hKnown ⊢
            change nzm input ≠ 0 at hKnown
            change fitting fd nzm input ≠ 0
            rw [← hSame]
            exact hKnown
      have hLocal := PcodeOp.getNZMaskLocal_within true hSizes
        hFit hDivisor
      rw [hTraversed.mask op hOutput.1 vn hOutput.2,
        getNZMaskLocal_congr hFollowed]
      rw [PcodeOp.fullmask] at hLocal
      rw [← sizeout_of_output hOutput.2]
      exact hLocal

theorem region
    (hWell : fd.WellFormed)
    (hLoops : fd.LoopsCut rank)
    (hEntered : fd.InputsEntered start)
    (hTraversed : fd.Traversed start nzm)
    (hDivisors : ∀ op ∈ fd.alive,
      (fd.pcodeOp nzm op).DivisorKnown) :
    fd.Region nzm :=
  { inputs := fun _ hReads hNone =>
      hTraversed.inputMask_eq hEntered hReads hNone
    sizes := fun vn op hWriter =>
      hTraversed.within_size hWell hLoops hEntered hDivisors
        (rank op + 1) vn op (Nat.lt_succ_self _) hWriter
    divisors := hDivisors }

/- Taking loop edges in can only make the masks larger. -/
theorem rising
    (hWell : fd.WellFormed)
    (hTraversed : fd.Traversed start nzm)
    (hRegion : fd.Region nzm) :
    Rising fd.equations (fun op => op ∈ fd.alive) Within
      fd.Region nzm := by
  refine ⟨hRegion, ?_⟩
  intro op vn hAlive hOutput
  have hSame := hRegion.grows hWell hRegion
    (fun vn => Within.refl (nzm vn)) hAlive
  have hGrows := PcodeOp.getNZMaskLocal_grows hSame
    (hWell.sizes op hAlive vn hOutput nzm)
    (hRegion.masksFit hWell hAlive)
    (hRegion.divisors op hAlive) true
  rw [← hTraversed.mask op hAlive vn hOutput] at hGrows
  exact hGrows

/- Only operations with loop edges may not be settled yet. -/
theorem pending
    (hTraversed : fd.Traversed start nzm) :
    Pending fd.equations (fun op => op ∈ fd.alive) nzm
      fd.multiequals := by
  refine ⟨?_, ?_⟩
  · intro op hOp
    have hFiltered := List.mem_reverse.mp hOp
    exact (List.mem_filter.mp hFiltered).1
  · intro op hAlive
    by_cases hJoin : (fd.ops op).opcode = .multiequal
    · refine Or.inr (List.mem_reverse.mpr ?_)
      exact List.mem_filter.mpr ⟨hAlive, decide_eq_true hJoin⟩
    · refine Or.inl ?_
      intro vn hOutput
      rw [hTraversed.mask op hAlive vn hOutput]
      exact PcodeOp.getNZMaskLocal_cliploop hJoin false true

end Traversed

end FuncDataflow

end LLDBGhidra

------------------------------------------------------------
-- Masks Are Found
------------------------------------------------------------

namespace LLDBGhidra

open BitCover
open Worklist (Settled Rising)

namespace FuncDataflow

/- The varnodes that operations write. -/
def outputs
    (fd : FuncDataflow) : Finset Nat :=
  (fd.alive.filterMap fun op => (fd.ops op).output).toFinset

/- No varnode that is written has more readers than this. -/
def degree
    (fd : FuncDataflow) : Nat :=
  ∑ vn ∈ fd.outputs, (fd.varnodes vn).descend.length

/- Each varnode may change as often as a mask has bits. -/
def propagateBound
    (fd : FuncDataflow) : Nat :=
  fd.outputs.card * 64 * (fd.degree + 1) + fd.alive.length

variable {fd : FuncDataflow}
variable {rank : Nat → Nat}
variable {nzm start : Nat → BitVec 64}
variable {mark : Nat → Bool}
variable {fuel : Nat}

theorem output_mem
    {op vn : Nat}
    (hAlive : op ∈ fd.alive)
    (hOutput : (fd.ops op).output = some vn) :
    vn ∈ fd.outputs := by
  rw [outputs, List.mem_toFinset, List.mem_filterMap]
  exact ⟨op, hAlive, hOutput⟩

theorem length_descend_le
    {vn : Nat}
    (hMem : vn ∈ fd.outputs) :
    (fd.varnodes vn).descend.length ≤ fd.degree := by
  exact Finset.single_le_sum
    (f := fun vn => (fd.varnodes vn).descend.length)
    (fun _ _ => Nat.zero_le _) hMem

theorem potential_le
    (nzm : Nat → BitVec 64) :
    Worklist.potential (fun mask => mask.cpop.toNat) 64
        fd.degree fd.outputs nzm fd.multiequals ≤
      fd.propagateBound := by
  have hSum : (∑ vn ∈ fd.outputs,
      (64 - (nzm vn).cpop.toNat)) ≤ fd.outputs.card * 64 :=
    Finset.sum_le_card_nsmul _ _ 64
      (fun vn _ => Nat.sub_le _ _)
  have hLength : fd.multiequals.length ≤ fd.alive.length := by
    rw [multiequals, List.length_reverse]
    exact List.length_filter_le _ _
  have hRoom := Nat.mul_le_mul_right (fd.degree + 1) hSum
  rw [Worklist.potential, propagateBound]
  omega

theorem start_visits
    (hMarks : ∀ op, mark op = false) :
    Traversal.Visits fd rank start
      { nzm := start, mark := mark, opstack := [] } := by
  refine ⟨List.Pairwise.nil, ?_, ?_, ?_, ?_, ?_⟩
  · exact fun op hOn => by cases hOn
  · intro op hMark
    change mark op = true at hMark
    rw [hMarks op] at hMark
    cases hMark
  · exact fun entry hOn => by cases hOn
  · intro op hDone
    have hMark : mark op = true := hDone.1
    rw [hMarks op] at hMark
    cases hMark
  · exact fun vn _ => Or.inl rfl

/-
  With enough rounds, masks are found that satisfy all their
  equations, and no operation stays marked.
-/
theorem calcNZMask_settled
    (hWell : fd.WellFormed)
    (hLoops : fd.LoopsCut rank)
    (hEntered : fd.InputsEntered start)
    (hMarks : ∀ op, mark op = false)
    (hDivisors : fd.DivisorsKnown start mark)
    (hFuel : fd.traverseBound < fuel ∧
      fd.propagateBound < fuel) :
    ∃ nzm, fd.calcNZMask fuel start mark =
        some (nzm, fun _ => false) ∧
      fd.Region nzm ∧
      ∀ op ∈ fd.alive, Settled fd.equations nzm op := by
  have hTraverse := traverse_total hWell hLoops hFuel.1
    (fun op hOp => hOp)
    (@start_visits fd rank start mark hMarks) rfl
  rcases hTraverse with
    ⟨state, hRun, hVisits, hStack, _, hAll⟩
  have hTraversed := hVisits.traversed hStack hAll
  have hRegion := hTraversed.region hWell hLoops hEntered
    (hDivisors fuel state hRun)
  have hKeys : ∀ op vn, op ∈ fd.alive →
      fd.equations.target op = some vn → vn ∈ fd.outputs ∧
        (fd.equations.readers vn).length ≤ fd.degree := by
    intro op vn hAlive hOutput
    have hMem := output_mem hAlive hOutput
    exact ⟨hMem, length_descend_le hMem⟩
  have hTotal := Worklist.run_total (equations_tracked hWell)
    (equations_ascent hWell) hKeys hTraversed.pending
    (hTraversed.rising hWell hRegion)
    (lt_of_le_of_lt (potential_le state.nzm) hFuel.2)
  rcases hTotal with
    ⟨nzm, hFinal, hRising, _, hSettled⟩
  rw [← propagateStep_eq] at hFinal
  refine ⟨nzm, ?_, hRising.region, hSettled⟩
  rw [calcNZMask, hRun]
  simp only [hFinal]
  congr 2
  funext op
  by_cases hAlive : op ∈ fd.alive
  · rw [if_pos hAlive]
  · rw [if_neg hAlive]
    cases hMark : state.mark op with
    | false => rfl
    | true => exact absurd (hVisits.alive op hMark) hAlive

end FuncDataflow

end LLDBGhidra

------------------------------------------------------------
-- Values of a Running Function
------------------------------------------------------------

namespace LLDBGhidra

open BitCover
open Worklist (Settled)

namespace FuncDataflow

/- What inputs may hold: a spacebase has an aligned address. -/
structure Starts
    (fd : FuncDataflow)
    (env : Nat → Option Nat) : Prop where
  input : ∀ vn value, env vn = some value →
    fd.Reads vn ∧ (fd.varnodes vn).writer = none
  sized : ∀ vn value, env vn = some value →
    value < 2 ^ (8 * (fd.varnodes vn).size)
  constant : ∀ vn value, env vn = some value →
    (fd.varnodes vn).constant = true →
      value = (fd.varnodes vn).offset.toNat
  aligned : ∀ vn value, env vn = some value →
    (fd.varnodes vn).constant = false →
      (fd.varnodes vn).spacebase = true →
        value % 2 ^ 8 = 0

/-
  The values that varnodes have, in any order in which live
  operations may compute them, again and again in a loop.
-/
inductive Runs
    (fd : FuncDataflow) : (Nat → Option Nat) → Prop where
| start
    (env : Nat → Option Nat)
    (hStart : fd.Starts env) :
    Runs fd env
| compute
    (env : Nat → Option Nat)
    (op vn : Nat)
    (values : List Nat)
    (value : Nat)
    (hRuns : Runs fd env)
    (hAlive : op ∈ fd.alive)
    (hOutput : (fd.ops op).output = some vn)
    (hRead : ∀ slot input,
      (fd.ops op).inrefs[slot]? = some input →
        env input = some (Pcode.valueAt values slot))
    (hComputes : ∀ nzm,
      Pcode.Computes (fd.pcodeOp nzm op) values value) :
    Runs fd (Function.update env vn (some value))
| choose
    (env : Nat → Option Nat)
    (op vn slot input : Nat)
    (value : Nat)
    (hRuns : Runs fd env)
    (hAlive : op ∈ fd.alive)
    (hOutput : (fd.ops op).output = some vn)
    (hJoin : (fd.ops op).opcode = .multiequal)
    (hInput : (fd.ops op).inrefs[slot]? = some input)
    (hValue : env input = some value) :
    Runs fd (Function.update env vn (some value))

variable {fd : FuncDataflow}
variable {rank : Nat → Nat}
variable {nzm start : Nat → BitVec 64}
variable {mark : Nat → Bool}
variable {env : Nat → Option Nat}
variable {fuel : Nat}

theorem covers_inputMask
    {vn value : Nat}
    (hStart : fd.Starts env)
    (hValue : env vn = some value) :
    Covers (fd.inputMask vn) value := by
  rw [inputMask]
  have hFull := covers_fullmask (hStart.sized vn value hValue)
  split_ifs with hConstant hSpacebase
  · rw [hStart.constant vn value hValue hConstant]
    exact covers_toNat _
  · have hAligned := hStart.aligned vn value hValue
      (by simpa using hConstant) hSpacebase
    intro index hIndex hBit
    rw [BitVec.getLsbD_and, hFull index hIndex hBit,
      Bool.true_and, BitVec.getLsbD_not,
      decide_eq_true hIndex, Bool.true_and]
    have hHigh : 8 ≤ index := by
      by_contra hLow
      have hZero := Nat.testBit_mod_two_pow value 8 index
      rw [hAligned, Nat.zero_testBit, hBit,
        decide_eq_true (Nat.not_le.mp hLow)] at hZero
      exact Bool.false_ne_true hZero
    have hClear : (0xff#64).getLsbD index = false :=
      Nat.testBit_lt_two_pow
        (lt_of_lt_of_le (show 255 < 2 ^ 8 by omega)
          (Nat.pow_le_pow_right Nat.two_pos hHigh))
    change (!(0xff#64).getLsbD index) = true
    rw [hClear]
    rfl
  · exact hFull

/- What solves the equations covers all values of all runs. -/
theorem Runs.holds
    (hWell : fd.WellFormed)
    (hReach : ∀ op ∈ fd.alive, ∀ vn,
      (fd.ops op).output = some vn →
        ∀ nzm, (fd.pcodeOp nzm op).WithinReach)
    (hRegion : fd.Region nzm)
    (hSettled : ∀ op ∈ fd.alive, Settled fd.equations nzm op)
    (hRuns : fd.Runs env) :
    ∀ vn value, env vn = some value →
      (fd.varnode nzm vn).Holds value := by
  have hWritten : ∀ op ∈ fd.alive, ∀ vn value,
      (fd.ops op).output = some vn →
        Covers (nzm vn) value →
          (fd.varnode nzm vn).Holds value := by
    intro op hAlive vn value hOutput hCovers
    refine ⟨hCovers, ?_⟩
    intro hConstant
    have hNone := (hWell.constants vn hConstant).1
    rw [hWell.writer op hAlive vn hOutput] at hNone
    cases hNone
  induction hRuns with
  | start env hStart =>
      intro vn value hValue
      have hInput := hStart.input vn value hValue
      have hMask := hRegion.inputs vn hInput.1 hInput.2
      refine ⟨?_, ?_⟩
      · change Covers (nzm vn) value
        rw [hMask]
        exact covers_inputMask hStart hValue
      · intro hConstant
        exact ⟨hStart.constant vn value hValue hConstant,
          hRegion.constant_eq hWell hInput.1 hConstant⟩
  | compute env op vn values value _ hAlive hOutput hRead
      hComputes ih =>
      intro other result hResult
      by_cases hEq : other = vn
      · rw [hEq, Function.update_self] at hResult
        rw [hEq, ← Option.some.inj hResult]
        apply hWritten op hAlive vn value hOutput
        rw [← hSettled op hAlive vn hOutput]
        apply PcodeOp.covers_getNZMaskLocal
          (hReach op hAlive vn hOutput nzm) _ (hComputes nzm)
        intro slot hSlot
        have hLength : slot < (fd.ops op).inrefs.length := by
          simpa [pcodeOp] using hSlot
        have hIn := List.getElem?_eq_getElem hLength
        rw [getIn_pcodeOp hIn]
        exact ih _ _ (hRead slot _ hIn)
      · rw [Function.update_of_ne hEq] at hResult
        exact ih other result hResult
  | choose env op vn slot input value _ hAlive hOutput hJoin
      hInput hValue ih =>
      intro other result hResult
      by_cases hEq : other = vn
      · rw [hEq, Function.update_self] at hResult
        rw [hEq, ← Option.some.inj hResult]
        apply hWritten op hAlive vn value hOutput
        rw [← hSettled op hAlive vn hOutput]
        have hSlot : slot <
            (fd.pcodeOp nzm op).inrefs.length := by
          have hLess := (List.getElem?_eq_some_iff.mp hInput).1
          simpa [pcodeOp] using hLess
        have hCode : (fd.pcodeOp nzm op).opcode =
            .multiequal := hJoin
        change Covers
          ((fd.pcodeOp nzm op).getNZMaskLocal false) value
        rw [PcodeOp.getNZMaskLocal, hCode]
        apply PcodeOp.covers_nzmaskMultiequal hSlot
        rw [getIn_pcodeOp hInput]
        exact (ih input value hValue).covers
      · rw [Function.update_of_ne hEq] at hResult
        exact ih other result hResult

/-
  The masks of a function are found, and in all its runs no
  varnode has a value with a bit outside its mask.
-/
theorem calcNZMask_covers
    (hWell : fd.WellFormed)
    (hLoops : fd.LoopsCut rank)
    (hReach : ∀ op ∈ fd.alive, ∀ vn,
      (fd.ops op).output = some vn →
        ∀ nzm, (fd.pcodeOp nzm op).WithinReach)
    (hEntered : fd.InputsEntered start)
    (hMarks : ∀ op, mark op = false)
    (hDivisors : fd.DivisorsKnown start mark)
    (hFuel : fd.traverseBound < fuel ∧
      fd.propagateBound < fuel) :
    ∃ nzm, fd.calcNZMask fuel start mark =
        some (nzm, fun _ => false) ∧
      ∀ env, fd.Runs env → ∀ vn value,
        env vn = some value → Covers (nzm vn) value := by
  rcases calcNZMask_settled hWell hLoops hEntered hMarks
    hDivisors hFuel with ⟨nzm, hRun, hRegion, hSettled⟩
  refine ⟨nzm, hRun, ?_⟩
  intro env hRuns vn value hValue
  exact (hRuns.holds hWell hReach hRegion hSettled vn value
    hValue).covers

/- The loop `i = 0; do { i = (i + 4) & 0xfc; } while (..)`. -/
def countingLoop : FuncDataflow :=
  { alive := [0, 1, 2]
    ops := fun op =>
      match op with
      | 0 =>
          { opcode := .multiequal
            output := some 1
            inrefs := [0, 4]
            calculatedBool := false
            loopIn := fun slot => slot = 1 }
      | 1 =>
          { opcode := .intAdd
            output := some 3
            inrefs := [1, 2]
            calculatedBool := false
            loopIn := fun _ => false }
      | 2 =>
          { opcode := .intAnd
            output := some 4
            inrefs := [3, 5]
            calculatedBool := false
            loopIn := fun _ => false }
      | _ =>
          { opcode := .copy
            output := none
            inrefs := []
            calculatedBool := false
            loopIn := fun _ => false }
    varnodes := fun vn =>
      match vn with
      | 0 => fixed 0 0
      | 1 => written 0 1
      | 2 => fixed 4 1
      | 3 => written 1 2
      | 4 => written 2 0
      | 5 => fixed 0xfc 2
      | _ =>
          { size := 4
            offset := 0
            constant := false
            spacebase := false
            writer := none
            descend := [] } }
where
  fixed
      (offset : BitVec 64)
      (reader : Nat) : DataflowVarnode :=
    { size := 4
      offset := offset
      constant := true
      spacebase := false
      writer := none
      descend := [reader] }
  written
      (writer reader : Nat) : DataflowVarnode :=
    { size := 4
      offset := 0
      constant := false
      spacebase := false
      writer := some writer
      descend := [reader] }

theorem countingLoop_op
    {op : Nat}
    (hAlive : op ∈ countingLoop.alive) :
    op = 0 ∨ op = 1 ∨ op = 2 := by
  simpa [countingLoop] using hAlive

theorem countingLoop_fitsSizes
    {op : Nat}
    (hAlive : op ∈ countingLoop.alive)
    (nzm : Nat → BitVec 64) :
    (countingLoop.pcodeOp nzm op).FitsSizes := by
  rcases countingLoop_op hAlive with hOp | hOp | hOp <;>
    rw [hOp]
  · exact
      { nonempty := show 1 ≤ 4 by omega
        copies := fun hCode => by cases hCode
        widens := fun hCode => by
          rcases hCode with hCode | hCode <;> cases hCode
        same := fun hKeeps => by cases hKeeps
        equal := fun hKeeps => by cases hKeeps
        pieces := fun hCode => by cases hCode
        joins := fun _ vn hIn => by
          simp only [pcodeOp, countingLoop, List.map_cons,
            List.map_nil, List.mem_cons, List.not_mem_nil,
            or_false] at hIn
          rcases hIn with hIn | hIn <;> rw [hIn] <;> rfl }
  all_goals exact
      { nonempty := show 1 ≤ 4 by omega
        copies := fun hCode => by cases hCode
        widens := fun hCode => by
          rcases hCode with hCode | hCode <;> cases hCode
        same := fun _ => rfl
        equal := fun _ _ => rfl
        pieces := fun hCode => by cases hCode
        joins := fun hCode => by cases hCode }

theorem countingLoop_writer
    {vn op : Nat}
    (hWriter : (countingLoop.varnodes vn).writer = some op) :
    vn = 1 ∧ op = 0 ∨ vn = 3 ∧ op = 1 ∨ vn = 4 ∧ op = 2 := by
  rcases vn with _ | _ | _ | _ | _ | _ | vn
  · cases hWriter
  · exact Or.inl ⟨rfl, (Option.some.inj hWriter).symm⟩
  · cases hWriter
  · exact Or.inr (Or.inl
      ⟨rfl, (Option.some.inj hWriter).symm⟩)
  · exact Or.inr (Or.inr
      ⟨rfl, (Option.some.inj hWriter).symm⟩)
  · cases hWriter
  · cases hWriter

theorem countingLoop_wellFormed :
    countingLoop.WellFormed := by
  refine ⟨?_, ?_, ?_, ?_, ?_, ?_⟩
  · intro op hAlive vn hOutput
    rcases countingLoop_op hAlive with hOp | hOp | hOp <;>
      rw [hOp] at hOutput ⊢ <;>
      rw [← Option.some.inj hOutput] <;> rfl
  · intro vn op hWriter
    rcases countingLoop_writer hWriter with hBoth | hBoth |
      hBoth <;> rw [hBoth.1, hBoth.2] <;>
      exact ⟨by decide, rfl⟩
  · intro vn op hReader
    rcases vn with _ | _ | _ | _ | _ | _ | vn
    case succ.succ.succ.succ.succ.succ => cases hReader
    all_goals
      rw [List.mem_singleton.mp hReader]
      decide
  · intro op hAlive vn hIn
    rcases countingLoop_op hAlive with hOp | hOp | hOp <;>
      rw [hOp] at hIn ⊢ <;>
      rcases List.mem_cons.mp hIn with hVn | hIn <;>
      first
      | rw [hVn]
        exact List.mem_cons_self
      | rw [List.mem_singleton.mp hIn]
        exact List.mem_cons_self
  · intro vn hConstant
    rcases vn with _ | _ | _ | _ | _ | _ | vn
    · exact ⟨rfl, by decide⟩
    · cases hConstant
    · exact ⟨rfl, by decide⟩
    · cases hConstant
    · cases hConstant
    · exact ⟨rfl, by decide⟩
    · cases hConstant
  · exact fun op hAlive _ _ nzm =>
      countingLoop_fitsSizes hAlive nzm

theorem countingLoop_loopsCut :
    countingLoop.LoopsCut id := by
  intro op slot vn writer hAlive hFollows hWriter
  have hIn := hFollows.input
  rcases countingLoop_op hAlive with hOp | hOp | hOp <;>
    rw [hOp] at hIn hFollows ⊢
  · rcases slot with _ | _ | slot
    · rw [← Option.some.inj hIn] at hWriter
      cases hWriter
    · cases hFollows.followed
    · cases hIn
  · rcases slot with _ | _ | slot
    · rw [← Option.some.inj hIn] at hWriter
      rw [← Option.some.inj hWriter]
      exact Nat.zero_lt_one
    · rw [← Option.some.inj hIn] at hWriter
      cases hWriter
    · cases hIn
  · rcases slot with _ | _ | slot
    · rw [← Option.some.inj hIn] at hWriter
      rw [← Option.some.inj hWriter]
      exact Nat.one_lt_two
    · rw [← Option.some.inj hIn] at hWriter
      cases hWriter
    · cases hIn

theorem countingLoop_withinReach
    {op : Nat}
    (hAlive : op ∈ countingLoop.alive)
    (nzm : Nat → BitVec 64) :
    (countingLoop.pcodeOp nzm op).WithinReach := by
  rcases countingLoop_op hAlive with hOp | hOp | hOp <;>
    rw [hOp] <;> exact
      { slots := fun _ => show 1 ≤ 2 by omega
        pairs := fun _ => show 2 ≤ 2 by omega
        bits := show 8 * 4 < 2 ^ 31 by omega
        cut := fun hCode => by cases hCode
        counts := fun hCode => by
          rcases hCode with hCode | hCode | hCode <;>
            cases hCode
        right := fun hCode => by cases hCode
        sright := fun hCode => by cases hCode }

theorem countingLoop_inputsEntered :
    countingLoop.InputsEntered (fun _ => 0) := by
  intro vn hReads hNone
  refine Or.inl ?_
  rcases hReads with ⟨op, hAlive, hIn⟩
  rcases vn with _ | _ | _ | _ | _ | _ | vn
  · exact ⟨0, by decide, 0, rfl, rfl⟩
  · cases hNone
  · exact ⟨1, by decide, 1, rfl, rfl⟩
  · cases hNone
  · cases hNone
  · exact ⟨2, by decide, 1, rfl, rfl⟩
  · rcases countingLoop_op hAlive with hOp | hOp | hOp <;>
      rw [hOp] at hIn <;> simp [countingLoop] at hIn

theorem countingLoop_divisorsKnown :
    countingLoop.DivisorsKnown (fun _ => 0)
      (fun _ => false) := by
  intro fuel state _ op hAlive hRem
  rcases countingLoop_op hAlive with hOp | hOp | hOp <;>
    rw [hOp] at hRem <;> cases hRem

theorem calcNZMask_covers_countingLoop :
    ∃ nzm, countingLoop.calcNZMask 1000 (fun _ => 0)
        (fun _ => false) = some (nzm, fun _ => false) ∧
      ∀ env, countingLoop.Runs env → ∀ vn value,
        env vn = some value → Covers (nzm vn) value :=
  calcNZMask_covers countingLoop_wellFormed
    countingLoop_loopsCut
    (fun _ hAlive _ _ nzm =>
      countingLoop_withinReach hAlive nzm)
    countingLoop_inputsEntered (fun _ => rfl)
    countingLoop_divisorsKnown (by decide)

end FuncDataflow

end LLDBGhidra

------------------------------------------------------------
-- A Remainder by What Must Be Zero
------------------------------------------------------------

namespace LLDBGhidra

namespace FuncDataflow

/- The loop `x = 0; do { x = (y % x) & 1; } while (..)`. -/
def remainderLoop : FuncDataflow :=
  { alive := [0, 1, 2]
    ops := fun op =>
      match op with
      | 0 => countingLoop.ops 0
      | 1 =>
          { opcode := .intRem
            output := some 3
            inrefs := [2, 1]
            calculatedBool := false
            loopIn := fun _ => false }
      | _ => countingLoop.ops 2
    varnodes := fun vn =>
      match vn with
      | 2 =>
          { size := 4
            offset := 0
            constant := false
            spacebase := false
            writer := none
            descend := [1] }
      | 5 => countingLoop.fixed 1 2
      | _ => countingLoop.varnodes vn }

variable {nzm : Nat → BitVec 64}

/- The mask of a remainder by a varnode with a mask. -/
def remainderMask
    (mask : BitVec 64) : BitVec 64 :=
  coveringmask (mask - 1)

theorem remainderLoop_join
    (hZero : nzm 0 = 0)
    (hNe : nzm 4 ≠ nzm 1) :
    remainderLoop.propagateStep (nzm, [0]) =
      some (Function.update nzm 1 (nzm 4), [1]) := by
  have hLocal : (remainderLoop.pcodeOp nzm 0).getNZMaskLocal
      false = nzm 4 := by
    change 0 ||| nzm 0 ||| nzm 4 = nzm 4
    rw [hZero]
    exact BitVec.zero_or
  rw [propagateStep]
  change (if _ then _ else _) = _
  simp only [hLocal]
  exact if_neg hNe

theorem remainderLoop_remainder
    (hNe : remainderMask (nzm 1) ≠ nzm 3) :
    remainderLoop.propagateStep (nzm, [1]) =
      some (Function.update nzm 3 (remainderMask (nzm 1)),
        [2]) := by
  have hLocal : (remainderLoop.pcodeOp nzm 1).getNZMaskLocal
      false = remainderMask (nzm 1) := rfl
  rw [propagateStep]
  change (if _ then _ else _) = _
  simp only [hLocal]
  exact if_neg hNe

theorem remainderLoop_and
    (hOne : nzm 5 = 1)
    (hNe : nzm 3 &&& 1 ≠ nzm 4) :
    remainderLoop.propagateStep (nzm, [2]) =
      some (Function.update nzm 4 (nzm 3 &&& 1), [0]) := by
  have hLocal : (remainderLoop.pcodeOp nzm 2).getNZMaskLocal
      false = nzm 3 &&& 1 := by
    change (remainderLoop.pcodeOp nzm 2).nzmaskAnd = _
    rw [PcodeOp.nzmaskAnd_eq]
    change nzm 3 &&& nzm 5 = _
    rw [hOne]
  rw [propagateStep]
  change (if _ then _ else _) = _
  simp only [hLocal]
  exact if_neg hNe

/- The masks of `x`, of `y % x` and of `(y % x) & 1` in turn. -/
structure Spins
    (nzm : Nat → BitVec 64)
    (worklist : List Nat) : Prop where
  zero : nzm 0 = 0
  one : nzm 5 = 1
  bit : nzm 1 = 0 ∨ nzm 1 = 1
  turn :
    worklist = [0] ∧ nzm 3 = remainderMask (nzm 1) ∧
        nzm 4 = nzm 1 ^^^ 1 ∨
      worklist = [1] ∧ nzm 3 = remainderMask (nzm 1 ^^^ 1) ∧
        nzm 4 = nzm 1 ∨
      worklist = [2] ∧ nzm 3 = remainderMask (nzm 1) ∧
        nzm 4 = nzm 1

theorem remainderMask_bit
    {bit : BitVec 64}
    (hBit : bit = 0 ∨ bit = 1) :
    remainderMask bit &&& 1 = bit ^^^ 1 ∧ bit ^^^ 1 ≠ bit ∧
      (bit ^^^ 1 = 0 ∨ bit ^^^ 1 = 1) ∧
      bit ^^^ 1 ^^^ 1 = bit ∧
      remainderMask bit ≠ remainderMask (bit ^^^ 1) := by
  rcases hBit with hBit | hBit <;> rw [hBit] <;> decide

theorem Spins.step
    (state : (Nat → BitVec 64) × List Nat)
    (hSpins : Spins state.1 state.2) :
    ∃ next, remainderLoop.propagateStep state = some next ∧
      Spins next.1 next.2 := by
  rcases state with ⟨nzm, worklist⟩
  change Spins nzm worklist at hSpins
  rcases hSpins with ⟨hZero, hOne, hBit, hTurn⟩
  have hFlip := remainderMask_bit hBit
  rcases hTurn with ⟨hWork, h3, h4⟩ | ⟨hWork, h3, h4⟩ |
    ⟨hWork, h3, h4⟩ <;> rw [hWork]
  · refine ⟨_, remainderLoop_join hZero ?_, ?_⟩
    · rw [h4]
      exact hFlip.2.1
    · refine ⟨hZero, hOne, ?_, Or.inr (Or.inl ⟨rfl, ?_, rfl⟩)⟩
      · change nzm 4 = 0 ∨ nzm 4 = 1
        rw [h4]
        exact hFlip.2.2.1
      · change nzm 3 = remainderMask (nzm 4 ^^^ 1)
        rw [h3, h4, hFlip.2.2.2.1]
  · refine ⟨_, remainderLoop_remainder ?_, ?_⟩
    · rw [h3]
      exact hFlip.2.2.2.2
    · exact ⟨hZero, hOne, hBit,
        Or.inr (Or.inr ⟨rfl, rfl, h4⟩)⟩
  · refine ⟨_, remainderLoop_and hOne ?_, ?_⟩
    · rw [h3, h4, hFlip.1]
      exact hFlip.2.1
    · refine ⟨hZero, hOne, hBit, Or.inl ⟨rfl, h3, ?_⟩⟩
      change nzm 3 &&& 1 = nzm 1 ^^^ 1
      rw [h3, hFlip.1]

/- Masks of such remainders may change forever. -/
theorem calcNZMask_remainderLoop
    (fuel : Nat) :
    remainderLoop.calcNZMask fuel (fun _ => 0)
      (fun _ => false) = none := by
  rw [calcNZMask]
  cases hRun : remainderLoop.traverse fuel remainderLoop.alive
      { nzm := fun _ => 0
        mark := fun _ => false
        opstack := [] } with
  | none => rfl
  | some state =>
      have hEnough : (remainderLoop.traverse 30
          remainderLoop.alive
          { nzm := fun _ => 0
            mark := fun _ => false
            opstack := [] }).map (fun state =>
              [0, 1, 3, 4, 5].map state.nzm) =
          some [0, 0, remainderMask 0, 1, 1] := by
        decide
      rcases Option.map_eq_some_iff.mp hEnough with
        ⟨found, hFound, hMasks⟩
      have hSame : found = state := by
        have hLeft := traverse_more hFound
          (Nat.le_max_left 30 fuel)
        rw [traverse_more hRun (Nat.le_max_right 30 fuel)]
          at hLeft
        exact (Option.some.inj hLeft).symm
      rw [hSame] at hMasks
      simp only [List.map_cons, List.map_nil, List.cons.injEq]
        at hMasks
      rcases hMasks with ⟨h0, h1, h3, h4, h5, _⟩
      have hSpins : Spins state.nzm
          remainderLoop.multiequals := by
        refine ⟨h0, h5, Or.inl h1, Or.inl ⟨rfl, ?_, ?_⟩⟩
        · rw [h3, h1]
        · rw [h4, h1]
          rfl
      have hNone := @Repeat.run_eq_none _
        remainderLoop.propagateStep
        (state.nzm, remainderLoop.multiequals)
        (fun state => Spins state.1 state.2) Spins.step hSpins
        fuel
      simp only [hNone]

end FuncDataflow

end LLDBGhidra
