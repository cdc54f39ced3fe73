import LLDBGhidra.Decompiler.NZMaskGrowth
import LLDBGhidra.Library.Worklist

/-
  The masks of all varnodes of a function
  (`funcdata_varnode.cc`): a traversal of the data-flow from
  every operation back to its inputs, which leaves out the
  edges that close loops.

  Main declarations:
    * `FuncDataflow`
    * `FuncDataflow.traverse`
    * `FuncDataflow.propagateStep`
    * `FuncDataflow.calcNZMask`
    * `FuncDataflow.Traversal.Visits`
    * `FuncDataflow.traverse_total`
-/

------------------------------------------------------------
-- The Data-Flow of a Function
------------------------------------------------------------

namespace LLDBGhidra

/- A varnode: the operation that writes it, and its readers. -/
structure DataflowVarnode where
  size : Nat
  offset : BitVec 64
  constant : Bool
  spacebase : Bool
  writer : Option Nat
  descend : List Nat

/- An operation, and the loop edges of its block. -/
structure DataflowOp where
  opcode : OpCode
  output : Option Nat
  inrefs : List Nat
  calculatedBool : Bool
  loopIn : Nat → Bool

/- Operations and varnodes by number, and the live ones. -/
structure FuncDataflow where
  alive : List Nat
  ops : Nat → DataflowOp
  varnodes : Nat → DataflowVarnode

namespace FuncDataflow

/- The varnode with the mask it has now. -/
def varnode
    (fd : FuncDataflow)
    (nzm : Nat → BitVec 64)
    (vn : Nat) : Varnode :=
  { size := (fd.varnodes vn).size
    offset := (fd.varnodes vn).offset
    constant := (fd.varnodes vn).constant
    nzm := nzm vn }

def sizeout
    (fd : FuncDataflow)
    (op : Nat) : Nat :=
  match (fd.ops op).output with
  | none => 0
  | some vn => (fd.varnodes vn).size

/- The operation with the masks its inputs have now. -/
def pcodeOp
    (fd : FuncDataflow)
    (nzm : Nat → BitVec 64)
    (op : Nat) : PcodeOp :=
  { opcode := (fd.ops op).opcode
    sizeout := fd.sizeout op
    inrefs := (fd.ops op).inrefs.map (fd.varnode nzm)
    calculatedBool := (fd.ops op).calculatedBool
    loopIn := (fd.ops op).loopIn }

/- The mask of a varnode that no operation writes. -/
def inputMask
    (fd : FuncDataflow)
    (vn : Nat) : BitVec 64 :=
  let data := fd.varnodes vn
  if data.constant then
    data.offset
  else if data.spacebase then
    -- a spacebase is treated as aligned
    calcMask data.size &&& ~~~ 0xff
  else
    calcMask data.size

/- Does the edge into a slot close a loop? -/
def clipped
    (fd : FuncDataflow)
    (op slot : Nat) : Bool :=
  (fd.ops op).opcode = .multiequal ∧ (fd.ops op).loopIn slot

/- The masks, the marks of operations, and edges to follow. -/
structure Traversal where
  nzm : Nat → BitVec 64
  mark : Nat → Bool
  opstack : List (Nat × Nat)

/- Marks an operation and puts it on the stack. -/
def Traversal.push
    (state : Traversal)
    (op : Nat) : Traversal :=
  { state with
    mark := Function.update state.mark op true
    opstack := (op, 0) :: state.opstack }

/- No edge is left: the output gets its mask. -/
def finish
    (fd : FuncDataflow)
    (op : Nat)
    (rest : List (Nat × Nat))
    (state : Traversal) : Traversal :=
  match (fd.ops op).output with
  | none => { state with opstack := rest }
  | some vn =>
      { state with
        nzm := Function.update state.nzm vn
          ((fd.pcodeOp state.nzm op).getNZMaskLocal true)
        opstack := rest }

/- Follows an edge to an input. -/
def follow
    (fd : FuncDataflow)
    (vn : Nat)
    (state : Traversal) : Traversal :=
  match (fd.varnodes vn).writer with
  | none =>
      { state with
        nzm := Function.update state.nzm vn (fd.inputMask vn) }
  | some op =>
      if state.mark op then state else state.push op

def traverseStep
    (fd : FuncDataflow)
    (state : Traversal) : Option Traversal :=
  match state.opstack with
  | [] => none
  | (op, slot) :: rest =>
      match (fd.ops op).inrefs[slot]? with
      | none => some (fd.finish op rest state)
      | some vn =>
          let state :=
            { state with opstack := (op, slot + 1) :: rest }
          if fd.clipped op slot then
            some state
          else
            some (fd.follow vn state)

/- Traverses from each operation that has no mark yet. -/
def traverse
    (fd : FuncDataflow)
    (fuel : Nat)
    (ops : List Nat)
    (state : Traversal) : Option Traversal :=
  match ops with
  | [] => some state
  | op :: rest =>
      if state.mark op then
        fd.traverse fuel rest state
      else
        match Repeat.run fd.traverseStep fuel
            (state.push op) with
        | none => none
        | some next => fd.traverse fuel rest next

/- Looks at the last operation of the worklist again. -/
def propagateStep
    (fd : FuncDataflow)
    (state : (Nat → BitVec 64) × List Nat) :
    Option ((Nat → BitVec 64) × List Nat) :=
  match state with
  | (_, []) => none
  | (nzm, op :: worklist) =>
      match (fd.ops op).output with
      | none => some (nzm, worklist)
      | some vn =>
          let nzmask :=
            (fd.pcodeOp nzm op).getNZMaskLocal false
          if nzmask = nzm vn then
            some (nzm, worklist)
          else
            some (Function.update nzm vn nzmask,
              (fd.varnodes vn).descend.reverse ++ worklist)

/- The operations that loop edges may lead to. -/
def multiequals
    (fd : FuncDataflow) : List Nat :=
  (fd.alive.filter fun op =>
    (fd.ops op).opcode = .multiequal).reverse

/-
  The masks and marks at the end; nothing where the number of
  rounds of a loop does not suffice.
-/
def calcNZMask
    (fd : FuncDataflow)
    (fuel : Nat)
    (nzm : Nat → BitVec 64)
    (mark : Nat → Bool) :
    Option ((Nat → BitVec 64) × (Nat → Bool)) :=
  match fd.traverse fuel fd.alive
      { nzm := nzm, mark := mark, opstack := [] } with
  | none => none
  | some state =>
      match Repeat.run fd.propagateStep fuel
          (state.nzm, fd.multiequals) with
      | none => none
      | some final =>
          some (final.1, fun op =>
            if op ∈ fd.alive then false else state.mark op)

/-
  Operations and varnodes refer to each other, sizes go
  together, and constants are of their size.
-/
structure WellFormed
    (fd : FuncDataflow) : Prop where
  writer : ∀ op ∈ fd.alive, ∀ vn,
    (fd.ops op).output = some vn →
      (fd.varnodes vn).writer = some op
  output : ∀ vn op, (fd.varnodes vn).writer = some op →
    op ∈ fd.alive ∧ (fd.ops op).output = some vn
  descend : ∀ vn, ∀ op ∈ (fd.varnodes vn).descend,
    op ∈ fd.alive
  reads : ∀ op ∈ fd.alive, ∀ vn ∈ (fd.ops op).inrefs,
    op ∈ (fd.varnodes vn).descend
  constants : ∀ vn, (fd.varnodes vn).constant = true →
    (fd.varnodes vn).writer = none ∧
      (fd.varnodes vn).offset.toNat <
        2 ^ (8 * (fd.varnodes vn).size)
  sizes : ∀ op ∈ fd.alive, ∀ vn,
    (fd.ops op).output = some vn →
      ∀ nzm, (fd.pcodeOp nzm op).FitsSizes

/- An edge that the traversal follows. -/
structure Follows
    (fd : FuncDataflow)
    (op slot vn : Nat) : Prop where
  input : (fd.ops op).inrefs[slot]? = some vn
  followed : fd.clipped op slot = false

/- Without the loop edges, data flows from lower ranks. -/
def LoopsCut
    (fd : FuncDataflow)
    (rank : Nat → Nat) : Prop :=
  ∀ op slot vn writer, op ∈ fd.alive →
    fd.Follows op slot vn →
      (fd.varnodes vn).writer = some writer →
        rank writer < rank op

end FuncDataflow

end LLDBGhidra

------------------------------------------------------------
-- Masks and Their Inputs
------------------------------------------------------------

namespace LLDBGhidra

namespace FuncDataflow

variable {fd : FuncDataflow}
variable {nzm others : Nat → BitVec 64}
variable {op vn : Nat}

theorem sizeout_of_output
    (hOutput : (fd.ops op).output = some vn) :
    fd.sizeout op = (fd.varnodes vn).size := by
  rw [sizeout, hOutput]

theorem getIn_pcodeOp
    {slot : Nat}
    (hIn : (fd.ops op).inrefs[slot]? = some vn) :
    (fd.pcodeOp nzm op).getIn slot = fd.varnode nzm vn := by
  rw [PcodeOp.getIn, List.getD_eq_getElem?_getD, pcodeOp,
    List.getElem?_map, hIn]
  rfl

/- Inputs that are skipped may have any masks. -/
theorem nzmaskInputs_congr
    {skips : Nat → Bool}
    (inrefs : List Nat)
    (slot : Nat)
    (resmask : BitVec 64)
    (hMasks : ∀ index vn, inrefs[index]? = some vn →
      skips (slot + index) = false → nzm vn = others vn) :
    PcodeOp.nzmaskInputs skips slot
        (inrefs.map (fd.varnode nzm)) resmask =
      PcodeOp.nzmaskInputs skips slot
        (inrefs.map (fd.varnode others)) resmask := by
  induction inrefs generalizing slot resmask with
  | nil => rfl
  | cons head rest ih =>
      rw [List.map_cons, List.map_cons, PcodeOp.nzmaskInputs,
        PcodeOp.nzmaskInputs]
      have hRest : ∀ index vn, rest[index]? = some vn →
          skips (slot + 1 + index) = false →
            nzm vn = others vn := by
        intro index vn hIn hSkip
        apply hMasks (index + 1) vn (by simpa using hIn)
        rw [← hSkip]
        congr 1
        omega
      by_cases hSkip : skips slot = true
      · rw [if_pos hSkip, if_pos hSkip]
        exact ih (slot + 1) _ hRest
      · have hHead : nzm head = others head :=
          hMasks 0 head rfl (by simpa using hSkip)
        rw [if_neg hSkip, if_neg hSkip]
        simp only [varnode, hHead]
        exact ih (slot + 1) _ hRest

/- Only the inputs that are followed matter. -/
theorem getNZMaskLocal_congr
    (hMasks : ∀ slot vn, fd.Follows op slot vn →
      nzm vn = others vn) :
    (fd.pcodeOp nzm op).getNZMaskLocal true =
      (fd.pcodeOp others op).getNZMaskLocal true := by
  by_cases hJoin : (fd.ops op).opcode = .multiequal
  · have hInputs := @nzmaskInputs_congr fd nzm others
      (fun slot => true && (fd.ops op).loopIn slot)
      (fd.ops op).inrefs 0 0 (by
        intro slot vn hIn hSkip
        apply hMasks slot vn
        refine ⟨hIn, ?_⟩
        rw [Nat.zero_add] at hSkip
        simpa [clipped, hJoin] using hSkip)
    have hNil : ∀ masks : Nat → BitVec 64,
        (fd.pcodeOp masks op).inrefs = [] ↔
          (fd.ops op).inrefs = [] :=
      fun masks => List.map_eq_nil_iff
    rw [PcodeOp.getNZMaskLocal, PcodeOp.getNZMaskLocal,
      show (fd.pcodeOp nzm op).opcode = .multiequal from hJoin,
      show (fd.pcodeOp others op).opcode = .multiequal
        from hJoin]
    change (fd.pcodeOp nzm op).nzmaskMultiequal true =
      (fd.pcodeOp others op).nzmaskMultiequal true
    rw [PcodeOp.nzmaskMultiequal, PcodeOp.nzmaskMultiequal]
    by_cases hEmpty : (fd.ops op).inrefs = []
    · rw [if_pos ((hNil nzm).mpr hEmpty),
        if_pos ((hNil others).mpr hEmpty)]
      rfl
    · rw [if_neg (fun h => hEmpty ((hNil nzm).mp h)),
        if_neg (fun h => hEmpty ((hNil others).mp h))]
      exact hInputs
  · have hInputs : (fd.ops op).inrefs.map (fd.varnode nzm) =
        (fd.ops op).inrefs.map (fd.varnode others) := by
      apply List.map_congr_left
      intro vn hIn
      rcases List.mem_iff_getElem?.mp hIn with ⟨slot, hSlot⟩
      have hSame := hMasks slot vn
        ⟨hSlot, by simp [clipped, hJoin]⟩
      rw [varnode, varnode, hSame]
    rw [pcodeOp, pcodeOp, hInputs]

end FuncDataflow

end LLDBGhidra

------------------------------------------------------------
-- What the Traversal Has Visited
------------------------------------------------------------

namespace LLDBGhidra

namespace FuncDataflow

namespace Traversal

/- An operation that has been marked and taken off the stack. -/
def Done
    (state : Traversal)
    (op : Nat) : Prop :=
  state.mark op = true ∧ op ∉ state.opstack.map Prod.fst

/- An input that an edge has been followed to. -/
structure Reached
    (fd : FuncDataflow)
    (state : Traversal)
    (vn : Nat) : Prop where
  input : (fd.varnodes vn).writer = none →
    state.nzm vn = fd.inputMask vn
  written : ∀ op, (fd.varnodes vn).writer = some op →
    state.mark op = true

/- The output has the mask that the inputs give it. -/
structure Finished
    (fd : FuncDataflow)
    (state : Traversal)
    (op : Nat) : Prop where
  input : ∀ slot vn, fd.Follows op slot vn →
    (fd.varnodes vn).writer = none →
      state.nzm vn = fd.inputMask vn
  written : ∀ slot vn writer, fd.Follows op slot vn →
    (fd.varnodes vn).writer = some writer →
      state.Done writer
  mask : ∀ vn, (fd.ops op).output = some vn →
    state.nzm vn =
      (fd.pcodeOp state.nzm op).getNZMaskLocal true

/-
  The stack is a path down the ranks, its operations have
  come to all inputs before their next slots, and those that
  are done are finished.
-/
structure Visits
    (fd : FuncDataflow)
    (rank : Nat → Nat)
    (start : Nat → BitVec 64)
    (state : Traversal) : Prop where
  ranked : (state.opstack.map Prod.fst).Pairwise
    (fun above beneath => rank above < rank beneath)
  marked : ∀ op ∈ state.opstack.map Prod.fst,
    state.mark op = true
  alive : ∀ op, state.mark op = true → op ∈ fd.alive
  passed : ∀ entry ∈ state.opstack, ∀ slot vn,
    slot < entry.2 → fd.Follows entry.1 slot vn →
      state.Reached fd vn
  finished : ∀ op, state.Done op → state.Finished fd op
  kept : ∀ vn, (fd.varnodes vn).writer = none →
    state.nzm vn = start vn ∨ state.nzm vn = fd.inputMask vn

variable {fd : FuncDataflow}
variable {rank : Nat → Nat}
variable {start : Nat → BitVec 64}
variable {state next : Traversal}
variable {op slot vn : Nat}
variable {rest before : List (Nat × Nat)}

/- What an operation depends on has stayed the same. -/
theorem Finished.mono
    (hFinished : state.Finished fd op)
    (hDone : ∀ writer, state.Done writer → next.Done writer)
    (hInputs : ∀ slot vn, fd.Follows op slot vn →
      next.nzm vn = state.nzm vn)
    (hOutput : ∀ vn, (fd.ops op).output = some vn →
      next.nzm vn = state.nzm vn) :
    next.Finished fd op := by
  refine ⟨?_, ?_, ?_⟩
  · intro slot vn hFollows hNone
    rw [hInputs slot vn hFollows]
    exact hFinished.input slot vn hFollows hNone
  · intro slot vn writer hFollows hWriter
    exact hDone writer
      (hFinished.written slot vn writer hFollows hWriter)
  · intro vn hVn
    rw [hOutput vn hVn, hFinished.mask vn hVn]
    exact getNZMaskLocal_congr fun slot vn hFollows =>
      (hInputs slot vn hFollows).symm

theorem finish_opstack :
    (fd.finish op rest state).opstack = rest := by
  rw [finish]
  cases (fd.ops op).output <;> rfl

theorem finish_mark :
    (fd.finish op rest state).mark = state.mark := by
  rw [finish]
  cases (fd.ops op).output <;> rfl

theorem finish_nzm_of_ne
    (hNe : (fd.ops op).output ≠ some vn) :
    (fd.finish op rest state).nzm vn = state.nzm vn := by
  rw [finish]
  cases hOutput : (fd.ops op).output with
  | none => rfl
  | some out =>
      apply Function.update_of_ne
      intro hEq
      rw [hOutput, hEq] at hNe
      exact hNe rfl

theorem finish_nzm_output
    (hOutput : (fd.ops op).output = some vn) :
    (fd.finish op rest state).nzm vn =
      (fd.pcodeOp state.nzm op).getNZMaskLocal true := by
  rw [finish, hOutput]
  exact Function.update_self _ _ _

namespace Visits

/- A slot may be passed when its input has been reached. -/
theorem advance
    (hVisits : state.Visits fd rank start)
    (hStack : state.opstack = before ++ (op, slot) :: rest)
    (hSlot : ∀ vn, fd.Follows op slot vn →
      state.Reached fd vn) :
    Visits fd rank start
      { state with
        opstack := before ++ (op, slot + 1) :: rest } := by
  have hOps : (before ++ (op, slot + 1) :: rest).map
      Prod.fst = state.opstack.map Prod.fst := by
    rw [hStack, List.map_append, List.map_append]
    rfl
  have hDone : ∀ other,
      Done { state with
        opstack := before ++ (op, slot + 1) :: rest } other ↔
        state.Done other := by
    intro other
    rw [Done, Done]
    simp only [hOps]
  refine ⟨?_, ?_, hVisits.alive, ?_, ?_, hVisits.kept⟩
  · simp only [hOps]
    exact hVisits.ranked
  · simp only [hOps]
    exact hVisits.marked
  · intro entry hEntry slot' vn hLess hFollows
    have hReached : state.Reached fd vn := by
      rcases List.mem_append.mp hEntry with hAbove | hBelow
      · apply hVisits.passed entry _ slot' vn hLess hFollows
        rw [hStack]
        exact List.mem_append_left _ hAbove
      · rcases List.mem_cons.mp hBelow with hEq | hRest
        · rw [hEq] at hLess hFollows
          by_cases hLast : slot' = slot
          · rw [hLast] at hFollows
            exact hSlot vn hFollows
          · have hBefore : slot' < slot := by
              change slot' < slot + 1 at hLess
              omega
            apply hVisits.passed (op, slot) _ slot' vn hBefore
              hFollows
            rw [hStack]
            exact List.mem_append_right _ List.mem_cons_self
        · apply hVisits.passed entry _ slot' vn hLess hFollows
          rw [hStack]
          exact List.mem_append_right _
            (List.mem_cons_of_mem _ hRest)
    exact ⟨hReached.input, hReached.written⟩
  · intro other hOther
    exact (hVisits.finished other ((hDone other).mp hOther)).mono
      (fun writer hWriter => (hDone writer).mpr hWriter)
      (fun _ _ _ => rfl) (fun _ _ => rfl)

/- An input that no operation writes gets its mask. -/
theorem setInput
    (hWell : fd.WellFormed)
    (hVisits : state.Visits fd rank start)
    (hInput : (fd.varnodes vn).writer = none) :
    Visits fd rank start
      { state with
        nzm := Function.update state.nzm vn
          (fd.inputMask vn) } := by
  refine ⟨hVisits.ranked, hVisits.marked, hVisits.alive, ?_,
    ?_, ?_⟩
  · intro entry hEntry slot other hLess hFollows
    have hReached := hVisits.passed entry hEntry slot other
      hLess hFollows
    refine ⟨?_, hReached.written⟩
    intro hNone
    by_cases hEq : other = vn
    · rw [hEq]
      exact Function.update_self _ _ _
    · exact (Function.update_of_ne hEq _ _).trans
        (hReached.input hNone)
  · intro op hDone
    have hFinished := hVisits.finished op hDone
    refine Finished.mono hFinished ?_ ?_ ?_
    · exact fun _ hWriter => hWriter
    · intro slot other hFollows
      by_cases hEq : other = vn
      · rw [hEq] at hFollows ⊢
        rw [hFinished.input slot vn hFollows hInput]
        exact Function.update_self _ _ _
      · exact Function.update_of_ne hEq _ _
    · intro other hOutput
      apply Function.update_of_ne
      intro hEq
      have hWriter := hWell.writer op
        (hVisits.alive op hDone.1) other hOutput
      rw [hEq, hInput] at hWriter
      cases hWriter
  · intro other hNone
    by_cases hEq : other = vn
    · rw [hEq]
      exact Or.inr (Function.update_self _ _ _)
    · have hSame := Function.update_of_ne hEq
        (fd.inputMask vn) state.nzm
      simp only [hSame]
      exact hVisits.kept other hNone

/- An operation below all on the stack is put on it. -/
theorem push
    (hVisits : state.Visits fd rank start)
    (hMark : state.mark op = false)
    (hAlive : op ∈ fd.alive)
    (hRank : ∀ other ∈ state.opstack.map Prod.fst,
      rank op < rank other) :
    (state.push op).Visits fd rank start := by
  have hMarks : ∀ other, state.mark other = true →
      (state.push op).mark other = true := by
    intro other hOther
    by_cases hEq : other = op
    · rw [hEq, hMark] at hOther
      exact absurd hOther Bool.false_ne_true
    · exact (Function.update_of_ne hEq _ _).trans hOther
  have hDone : ∀ other, (state.push op).Done other ↔
      state.Done other := by
    intro other
    constructor
    · rintro ⟨hOther, hOff⟩
      have hBoth : other ≠ op ∧
          other ∉ state.opstack.map Prod.fst := by
        simpa [Traversal.push] using hOff
      refine ⟨?_, hBoth.2⟩
      exact (Function.update_of_ne hBoth.1 _ _).symm.trans
        hOther
    · rintro ⟨hOther, hOff⟩
      refine ⟨hMarks other hOther, ?_⟩
      intro hOn
      rcases List.mem_cons.mp hOn with hEq | hRest
      · rw [hEq] at hOther
        rw [hMark] at hOther
        exact Bool.false_ne_true hOther
      · exact hOff hRest
  refine ⟨?_, ?_, ?_, ?_, ?_, hVisits.kept⟩
  · exact List.pairwise_cons.mpr ⟨hRank, hVisits.ranked⟩
  · intro other hOther
    rcases List.mem_cons.mp hOther with hEq | hRest
    · rw [hEq]
      exact Function.update_self _ _ _
    · exact hMarks other (hVisits.marked other hRest)
  · intro other hOther
    by_cases hEq : other = op
    · rw [hEq]
      exact hAlive
    · apply hVisits.alive other
      exact (Function.update_of_ne hEq _ _).symm.trans hOther
  · intro entry hEntry slot vn hLess hFollows
    rcases List.mem_cons.mp hEntry with hEq | hRest
    · rw [hEq] at hLess
      exact absurd hLess (Nat.not_lt_zero slot)
    · have hReached := hVisits.passed entry hRest slot vn hLess
        hFollows
      exact ⟨hReached.input, fun writer hWriter =>
        hMarks writer (hReached.written writer hWriter)⟩
  · intro other hOther
    exact (hVisits.finished other ((hDone other).mp hOther)).mono
      (fun writer hWriter => (hDone writer).mpr hWriter)
      (fun _ _ _ => rfl) (fun _ _ => rfl)

/- An operation without an edge left is taken off the stack. -/
theorem finish
    (hWell : fd.WellFormed)
    (hLoops : fd.LoopsCut rank)
    (hVisits : state.Visits fd rank start)
    (hStack : state.opstack = (op, slot) :: rest)
    (hNone : (fd.ops op).inrefs[slot]? = none) :
    (fd.finish op rest state).Visits fd rank start := by
  have hOps : state.opstack.map Prod.fst =
      op :: rest.map Prod.fst := by
    rw [hStack, List.map_cons]
  have hMarked : state.mark op = true :=
    hVisits.marked op (by
      rw [hOps]
      exact List.mem_cons_self)
  have hAlive := hVisits.alive op hMarked
  have hBeneath : ∀ other ∈ rest.map Prod.fst,
      rank op < rank other := by
    have hRanked := hVisits.ranked
    rw [hOps] at hRanked
    exact (List.pairwise_cons.mp hRanked).1
  have hLeft : (fd.finish op rest state).opstack = rest :=
    finish_opstack
  have hMark : (fd.finish op rest state).mark = state.mark :=
    finish_mark
  have hSame : ∀ vn, (fd.varnodes vn).writer ≠ some op →
      (fd.finish op rest state).nzm vn = state.nzm vn := by
    intro vn hWriter
    apply finish_nzm_of_ne
    intro hOutput
    exact hWriter (hWell.writer op hAlive vn hOutput)
  have hInputs : ∀ slot vn, fd.Follows op slot vn →
      (fd.finish op rest state).nzm vn = state.nzm vn := by
    intro slot vn hFollows
    apply hSame
    intro hWriter
    exact lt_irrefl _ (hLoops op slot vn op hAlive hFollows
      hWriter)
  have hDone : ∀ other, state.Done other →
      (fd.finish op rest state).Done other := by
    rintro other ⟨hOther, hOff⟩
    rw [Done, hMark, hLeft]
    refine ⟨hOther, fun hRest => hOff ?_⟩
    rw [hOps]
    exact List.mem_cons_of_mem _ hRest
  refine ⟨?_, ?_, ?_, ?_, ?_, ?_⟩
  · rw [hLeft]
    have hRanked := hVisits.ranked
    rw [hOps] at hRanked
    exact hRanked.of_cons
  · intro other hOther
    rw [hLeft] at hOther
    rw [hMark]
    apply hVisits.marked other
    rw [hOps]
    exact List.mem_cons_of_mem _ hOther
  · intro other hOther
    rw [hMark] at hOther
    exact hVisits.alive other hOther
  · intro entry hEntry slot' vn hLess hFollows
    rw [hLeft] at hEntry
    have hReached := hVisits.passed entry
      (by rw [hStack]; exact List.mem_cons_of_mem _ hEntry)
      slot' vn hLess hFollows
    refine ⟨?_, ?_⟩
    · intro hInput
      rw [hSame vn (by rw [hInput]; exact fun h => by cases h)]
      exact hReached.input hInput
    · rw [hMark]
      exact hReached.written
  · rintro other ⟨hOther, hOff⟩
    rw [hMark] at hOther
    rw [hLeft] at hOff
    by_cases hEq : other = op
    · -- all edges of the operation have been passed
      rw [hEq]
      have hPassed : ∀ slot' vn, fd.Follows op slot' vn →
          state.Reached fd vn := by
        intro slot' vn hFollows
        apply hVisits.passed (op, slot) _ slot' vn _ hFollows
        · rw [hStack]
          exact List.mem_cons_self
        · have hLength := List.getElem?_eq_none_iff.mp hNone
          have hLess :=
            (List.getElem?_eq_some_iff.mp hFollows.input).1
          exact lt_of_lt_of_le hLess hLength
      refine ⟨?_, ?_, ?_⟩
      · intro slot' vn hFollows hInput
        rw [hInputs slot' vn hFollows]
        exact (hPassed slot' vn hFollows).input hInput
      · intro slot' vn writer hFollows hWriter
        have hRank := hLoops op slot' vn writer hAlive hFollows
          hWriter
        rw [Done, hMark, hLeft]
        refine ⟨(hPassed slot' vn hFollows).written writer
          hWriter, ?_⟩
        intro hOn
        exact lt_asymm hRank (hBeneath writer hOn)
      · intro vn hOutput
        rw [finish_nzm_output hOutput]
        exact getNZMaskLocal_congr fun slot vn hFollows =>
          (hInputs slot vn hFollows).symm
    · have hBefore : state.Done other := by
        refine ⟨hOther, ?_⟩
        rw [hOps]
        intro hOn
        rcases List.mem_cons.mp hOn with hSelf | hRest
        · exact hEq hSelf
        · exact hOff hRest
      have hFinished := hVisits.finished other hBefore
      refine Finished.mono hFinished hDone ?_ ?_
      · intro slot' vn hFollows
        apply hSame
        intro hWriter
        have hOn := (hFinished.written slot' vn op hFollows
          hWriter).2
        rw [hOps] at hOn
        exact hOn List.mem_cons_self
      · intro vn hOutput
        apply hSame
        rw [hWell.writer other (hVisits.alive other hOther) vn
          hOutput]
        exact fun hWriter => hEq (Option.some.inj hWriter)
  · intro vn hInput
    rw [hSame vn (by rw [hInput]; exact fun h => by cases h)]
    exact hVisits.kept vn hInput

end Visits

end Traversal

end FuncDataflow

end LLDBGhidra

------------------------------------------------------------
-- Steps and Runs of the Traversal
------------------------------------------------------------

namespace LLDBGhidra

namespace FuncDataflow

open Traversal

variable {fd : FuncDataflow}
variable {rank : Nat → Nat}
variable {start : Nat → BitVec 64}
variable {state next final : Traversal}

/- A step takes an operation off, or passes one slot. -/
theorem traverseStep_cases
    (hStep : fd.traverseStep state = some next) :
    ∃ op slot rest, state.opstack = (op, slot) :: rest ∧
      ((fd.ops op).inrefs[slot]? = none ∧
          next = fd.finish op rest state ∨
        ∃ vn, (fd.ops op).inrefs[slot]? = some vn ∧
          (fd.clipped op slot = true ∧
              next = { state with
                opstack := (op, slot + 1) :: rest } ∨
            fd.clipped op slot = false ∧
              next = fd.follow vn { state with
                opstack := (op, slot + 1) :: rest })) := by
  rw [traverseStep] at hStep
  cases hStack : state.opstack with
  | nil =>
      rw [hStack] at hStep
      cases hStep
  | cons entry rest =>
      rcases entry with ⟨op, slot⟩
      refine ⟨op, slot, rest, rfl, ?_⟩
      simp only [hStack] at hStep
      cases hIn : (fd.ops op).inrefs[slot]? with
      | none =>
          simp only [hIn] at hStep
          exact Or.inl ⟨rfl, (Option.some.inj hStep).symm⟩
      | some vn =>
          refine Or.inr ⟨vn, rfl, ?_⟩
          simp only [hIn] at hStep
          by_cases hClip : fd.clipped op slot = true
          · rw [if_pos hClip] at hStep
            exact Or.inl ⟨hClip, (Option.some.inj hStep).symm⟩
          · rw [if_neg hClip] at hStep
            exact Or.inr ⟨by simpa using hClip,
              (Option.some.inj hStep).symm⟩

theorem traverseStep_visits
    (hWell : fd.WellFormed)
    (hLoops : fd.LoopsCut rank)
    (hVisits : state.Visits fd rank start)
    (hStep : fd.traverseStep state = some next) :
    next.Visits fd rank start := by
  rcases traverseStep_cases hStep with
    ⟨op, slot, rest, hStack, hFinish | hPass⟩
  · rw [hFinish.2]
    exact hVisits.finish hWell hLoops hStack hFinish.1
  rcases hPass with ⟨vn, hIn, hClip | hFollow⟩
  · rw [hClip.2]
    apply @Visits.advance fd rank start state op slot rest []
      hVisits hStack
    intro vn' hFollows
    have hOpen := hFollows.followed
    rw [hClip.1] at hOpen
    cases hOpen
  rcases hFollow with ⟨hOpen, hNext⟩
  have hSame : ∀ vn', fd.Follows op slot vn' → vn' = vn := by
    intro vn' hFollows
    have hInput := hFollows.input
    rw [hIn] at hInput
    exact (Option.some.inj hInput).symm
  rw [hNext, follow]
  cases hWriter : (fd.varnodes vn).writer with
  | none =>
      apply @Visits.advance fd rank start _ op slot rest []
        (hVisits.setInput hWell hWriter) hStack
      intro vn' hFollows
      rw [hSame vn' hFollows]
      refine ⟨fun _ => Function.update_self _ _ _, ?_⟩
      intro writer hSome
      rw [hWriter] at hSome
      cases hSome
  | some writer =>
      have hNot : ∀ mark : Nat → Bool, mark writer = true →
          ∀ vn', fd.Follows op slot vn' →
            Reached fd { state with mark := mark } vn' := by
        intro mark hMark vn' hFollows
        rw [hSame vn' hFollows]
        refine ⟨?_, ?_⟩
        · intro hNone
          rw [hWriter] at hNone
          cases hNone
        · intro other hOther
          rw [hWriter] at hOther
          rw [← Option.some.inj hOther]
          exact hMark
      by_cases hMark : state.mark writer = true
      · simp only [if_pos hMark]
        exact @Visits.advance fd rank start state op slot rest
          [] hVisits hStack (hNot state.mark hMark)
      · simp only [if_neg hMark]
        have hAlive : op ∈ fd.alive := by
          apply hVisits.alive op
          apply hVisits.marked op
          rw [hStack]
          exact List.mem_cons_self
        have hRank := hLoops op slot vn writer hAlive
          ⟨hIn, hOpen⟩ hWriter
        have hRanked := hVisits.ranked
        rw [hStack] at hRanked
        have hPushed : (state.push writer).Visits fd rank
            start := by
          apply hVisits.push (by simpa using hMark)
            (hWell.output vn writer hWriter).1
          rw [hStack]
          intro other hOther
          rcases List.mem_cons.mp hOther with hEq | hRest
          · rw [hEq]
            exact hRank
          · exact lt_trans hRank
              ((List.pairwise_cons.mp hRanked).1 other hRest)
        have hNextStack : (state.push writer).opstack =
            [(writer, 0)] ++ (op, slot) :: rest := by
          rw [Traversal.push, hStack]
          rfl
        apply hPushed.advance hNextStack
        intro vn' hFollows
        have hReached := hNot
          (Function.update state.mark writer true)
          (Function.update_self _ _ _) vn' hFollows
        exact ⟨hReached.input, hReached.written⟩

/- What is left to traverse: operations, and their edges. -/
def weight
    (fd : FuncDataflow)
    (state : Traversal) : Nat :=
  (∑ op ∈ fd.alive.toFinset,
      if state.mark op then 0
      else (fd.ops op).inrefs.length + 2) +
    (state.opstack.map fun entry =>
      (fd.ops entry.1).inrefs.length - entry.2 + 1).sum

/- More than the weight of any traversal. -/
def traverseBound
    (fd : FuncDataflow) : Nat :=
  ∑ op ∈ fd.alive.toFinset, ((fd.ops op).inrefs.length + 2)

theorem weight_push
    {op : Nat}
    (hMark : state.mark op = false)
    (hAlive : op ∈ fd.alive) :
    fd.weight (state.push op) + 1 = fd.weight state := by
  have hMem : op ∈ fd.alive.toFinset :=
    List.mem_toFinset.mpr hAlive
  have hOld := Finset.add_sum_erase fd.alive.toFinset
    (fun other => if state.mark other then 0
      else (fd.ops other).inrefs.length + 2) hMem
  have hNew := Finset.add_sum_erase fd.alive.toFinset
    (fun other => if (state.push op).mark other then 0
      else (fd.ops other).inrefs.length + 2) hMem
  have hRest : ∀ other ∈ fd.alive.toFinset.erase op,
      (if (state.push op).mark other then 0
        else (fd.ops other).inrefs.length + 2) =
      (if state.mark other then 0
        else (fd.ops other).inrefs.length + 2) := by
    intro other hOther
    have hSame : (state.push op).mark other =
        state.mark other :=
      Function.update_of_ne (Finset.mem_erase.mp hOther).1 _ _
    rw [hSame]
  have hNow : (state.push op).mark op = true :=
    Function.update_self _ _ _
  have hStack : (state.push op).opstack =
      (op, 0) :: state.opstack := rfl
  rw [Finset.sum_congr rfl hRest] at hNew
  simp only [hMark, hNow, Bool.false_eq_true, if_false,
    if_true] at hOld hNew
  simp only [weight, hStack, List.map_cons, List.sum_cons]
  omega

/- Taking an edge or an operation off makes it lighter. -/
theorem weight_advance
    {op slot : Nat}
    {rest : List (Nat × Nat)}
    (hStack : state.opstack = (op, slot) :: rest)
    (hSlot : slot < (fd.ops op).inrefs.length) :
    fd.weight { state with opstack := (op, slot + 1) :: rest } +
      1 = fd.weight state := by
  rw [weight, weight, hStack]
  simp only [List.map_cons, List.sum_cons]
  omega

theorem weight_finish
    {op slot : Nat}
    {rest : List (Nat × Nat)}
    (hStack : state.opstack = (op, slot) :: rest) :
    fd.weight (fd.finish op rest state) < fd.weight state := by
  rw [weight, weight, finish_opstack, finish_mark, hStack]
  simp only [List.map_cons, List.sum_cons]
  omega

theorem traverseStep_weight
    (hWell : fd.WellFormed)
    (hStep : fd.traverseStep state = some next) :
    fd.weight next < fd.weight state := by
  rcases traverseStep_cases hStep with
    ⟨op, slot, rest, hStack, hFinish | hPass⟩
  · rw [hFinish.2]
    exact weight_finish hStack
  rcases hPass with ⟨vn, hIn, hEdge⟩
  have hLess := weight_advance hStack
    (List.getElem?_eq_some_iff.mp hIn).1
  rcases hEdge with hClip | hFollow
  · rw [hClip.2]
    omega
  rw [hFollow.2, follow]
  cases hWriter : (fd.varnodes vn).writer with
  | none =>
      change fd.weight { state with
        opstack := (op, slot + 1) :: rest } < _
      omega
  | some writer =>
      by_cases hMark : state.mark writer = true
      · simp only [if_pos hMark]
        omega
      · simp only [if_neg hMark]
        have hPush := @weight_push fd
          { state with opstack := (op, slot + 1) :: rest }
          writer (by simpa using hMark)
          (hWell.output vn writer hWriter).1
        omega

theorem weight_le
    (hStack : state.opstack = []) :
    fd.weight state ≤ fd.traverseBound := by
  rw [weight, traverseBound, hStack, List.map_nil,
    List.sum_nil, Nat.add_zero]
  apply Finset.sum_le_sum
  intro op _
  split_ifs
  · exact Nat.zero_le _
  · exact Nat.le_refl _

theorem traverseStep_none
    (hStep : fd.traverseStep state = none) :
    state.opstack = [] := by
  rw [traverseStep] at hStep
  cases hStack : state.opstack with
  | nil => rfl
  | cons entry rest =>
      simp only [hStack] at hStep
      split at hStep
      · cases hStep
      · split at hStep <;> cases hStep

/- Marks are not taken back before the traversal is over. -/
theorem traverseStep_mark
    (hStep : fd.traverseStep state = some next)
    {op : Nat}
    (hMark : state.mark op = true) :
    next.mark op = true := by
  rcases traverseStep_cases hStep with
    ⟨top, slot, rest, hStack, hFinish | hPass⟩
  · rw [hFinish.2, finish_mark]
    exact hMark
  rcases hPass with ⟨vn, hIn, hClip | hFollow⟩
  · rw [hClip.2]
    exact hMark
  rw [hFollow.2, follow]
  cases hWriter : (fd.varnodes vn).writer with
  | none => exact hMark
  | some writer =>
      by_cases hOn : state.mark writer = true
      · simp only [if_pos hOn]
        exact hMark
      · simp only [if_neg hOn]
        by_cases hEq : op = writer
        · rw [hEq]
          exact Function.update_self _ _ _
        · exact (Function.update_of_ne hEq _ _).trans hMark

/- More rounds make no difference. -/
theorem traverse_more
    {fuel more : Nat}
    {ops : List Nat}
    (hRun : fd.traverse fuel ops state = some final)
    (hMore : fuel ≤ more) :
    fd.traverse more ops state = some final := by
  induction ops generalizing state with
  | nil => exact hRun
  | cons op rest ih =>
      rw [traverse] at hRun ⊢
      by_cases hMark : state.mark op = true
      · rw [if_pos hMark] at hRun ⊢
        exact ih hRun
      · rw [if_neg hMark] at hRun ⊢
        cases hNext : Repeat.run fd.traverseStep fuel
            (state.push op) with
        | none =>
            rw [hNext] at hRun
            cases hRun
        | some next =>
            rw [hNext] at hRun
            rw [Repeat.run_more hNext hMore]
            exact ih hRun

/- From each operation, the traversal comes to an end. -/
theorem traverse_total
    {fuel : Nat}
    (hWell : fd.WellFormed)
    (hLoops : fd.LoopsCut rank)
    (hFuel : fd.traverseBound < fuel)
    {ops : List Nat}
    (hOps : ∀ op ∈ ops, op ∈ fd.alive)
    (hVisits : state.Visits fd rank start)
    (hStack : state.opstack = []) :
    ∃ final, fd.traverse fuel ops state = some final ∧
      final.Visits fd rank start ∧ final.opstack = [] ∧
      (∀ op, state.mark op = true → final.mark op = true) ∧
      ∀ op ∈ ops, final.mark op = true := by
  induction ops generalizing state with
  | nil =>
      exact ⟨state, rfl, hVisits, hStack, fun _ hMark => hMark,
        fun op hOp => by cases hOp⟩
  | cons op rest ih =>
      have hRest : ∀ other ∈ rest, other ∈ fd.alive :=
        fun other hOther =>
          hOps other (List.mem_cons_of_mem op hOther)
      rw [traverse]
      by_cases hMark : state.mark op = true
      · rw [if_pos hMark]
        rcases ih hRest hVisits hStack with
          ⟨final, hRun, hFinal, hEmpty, hKeeps, hAll⟩
        refine ⟨final, hRun, hFinal, hEmpty, hKeeps, ?_⟩
        intro other hOther
        rcases List.mem_cons.mp hOther with hEq | hIn
        · rw [hEq]
          exact hKeeps op hMark
        · exact hAll other hIn
      · have hAlive := hOps op List.mem_cons_self
        have hOff : state.mark op = false := by
          simpa using hMark
        have hPushed : (state.push op).Visits fd rank start := by
          apply hVisits.push hOff hAlive
          rw [hStack]
          exact fun other hOther => by cases hOther
        have hWeight := weight_push hOff hAlive
        have hLe := @weight_le fd state hStack
        have hTop : (state.push op).mark op = true :=
          Function.update_self _ _ _
        have hKept : ∀ other, state.mark other = true →
            (state.push op).mark other = true := by
          intro other hOther
          by_cases hEq : other = op
          · rw [hEq]
            exact hTop
          · exact (Function.update_of_ne hEq _ _).trans hOther
        have hTotal := @Repeat.run_total _ fd.traverseStep
          (state.push op) fuel
          (fun now => now.Visits fd rank start ∧
            ∀ other, (state.push op).mark other = true →
              now.mark other = true)
          fd.weight
          (fun now next hNow hStep =>
            ⟨⟨traverseStep_visits hWell hLoops hNow.1 hStep,
              fun other hOther =>
                traverseStep_mark hStep (hNow.2 other hOther)⟩,
              traverseStep_weight hWell hStep⟩)
          ⟨hPushed, fun _ hOther => hOther⟩ (by omega)
        rcases hTotal with ⟨next, hRun, hNext, hNone⟩
        rw [if_neg hMark, hRun]
        rcases ih hRest hNext.1 (traverseStep_none hNone) with
          ⟨final, hFinalRun, hFinal, hEmpty, hKeeps, hAll⟩
        refine ⟨final, hFinalRun, hFinal, hEmpty, ?_, ?_⟩
        · intro other hOther
          exact hKeeps other (hNext.2 other (hKept other hOther))
        · intro other hOther
          rcases List.mem_cons.mp hOther with hEq | hIn
          · rw [hEq]
            exact hKeeps op (hNext.2 op hTop)
          · exact hAll other hIn

end FuncDataflow

end LLDBGhidra
