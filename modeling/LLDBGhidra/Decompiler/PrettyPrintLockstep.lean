import LLDBGhidra.Decompiler.PrettyPrint

/-
  The pretty printer over two low-level emitters.  If these
  run in lockstep on calls with allowed texts, so do the
  pretty printers: none of their decisions depends on the
  emitter below.

  Main declarations:
    * `EmitCall.text`
    * `Emit.InStep`
    * `EmitPrettyPrint.Related`
    * `EmitPrettyPrint.inStep_emit`
    * `Emit.InStep.run`
-/

------------------------------------------------------------
-- Emitters in Step
------------------------------------------------------------

namespace LLDBGhidra

/- The text that a call comes with. -/
def EmitCall.text
    (call : EmitCall) : Text :=
  match call with
  | .tagVariable name _ => name
  | .tagOp name _ => name
  | .tagFuncName name _ => name
  | .tagType name _ => name
  | .tagField name _ => name
  | .tagComment name _ => name
  | .tagLabel name _ => name
  | .tagCaseLabel name _ => name
  | .print data _ => data
  | .openParen paren _ => paren
  | .closeParen paren _ => paren
  | .setCommentFill fill => fill
  | _ => []

namespace Emit

variable {σ τ : Type}

/- The emitters run in lockstep on calls with allowed texts. -/
structure InStep
    (allowed : Text → Prop)
    (rel : σ → τ → Prop)
    (left : Emit σ)
    (right : Emit τ) : Prop where
  empty : allowed []
  call : ∀ call : EmitCall, allowed call.text →
    Effect.Lockstep rel (left.call call) (right.call call)

variable {allowed : Text → Prop}
variable {rel : σ → τ → Prop}
variable {left : Emit σ}
variable {right : Emit τ}

/- The same results of all calls, and related states. -/
theorem InStep.run
    (hStep : InStep allowed rel left right)
    {calls : List EmitCall}
    (hCalls : ∀ call ∈ calls, allowed call.text)
    {state : σ}
    {state' : τ}
    (hRel : rel state state') :
    (left.run calls state).1 = (right.run calls state').1 ∧
      rel (left.run calls state).2
        (right.run calls state').2 := by
  induction calls generalizing state state' with
  | nil => exact ⟨rfl, hRel⟩
  | cons call rest ih =>
      have hFirst := hStep.call call
        (hCalls call List.mem_cons_self) state state' hRel
      have hRest := ih
        (fun other hOther =>
          hCalls other (List.mem_cons_of_mem _ hOther))
        hFirst.2
      unfold Emit.run
      refine ⟨?_, hRest.2⟩
      simp only []
      rw [hFirst.1, hRest.1]

end Emit

end LLDBGhidra

------------------------------------------------------------
-- Related Pretty Printers
------------------------------------------------------------

namespace LLDBGhidra

/- Only allowed texts are waiting to be printed. -/
structure PrettyState.Clean
    (allowed : Text → Prop)
    (state : PrettyState) : Prop where
  tokens : ∀ ref, allowed (state.tokqueue.cache ref).tok
  fill : allowed state.commentfill

namespace EmitPrettyPrint

variable {σ τ α β : Type}

/- The own fields are the same, and clean. -/
structure Related
    (allowed : Text → Prop)
    (rel : σ → τ → Prop)
    (state : EmitPrettyPrint σ)
    (state' : EmitPrettyPrint τ) : Prop where
  own : state.own = state'.own
  clean : state.own.Clean allowed
  lowlevel : rel state.lowlevel state'.lowlevel

variable {allowed : Text → Prop}
variable {rel : σ → τ → Prop}

/- Both read the same, with what holds of a clean state. -/
theorem lockstep_gets
    (holds : α → Prop)
    {read : PrettyState → α}
    {next : α → M σ β}
    {next' : α → M τ β}
    (hRead : ∀ own : PrettyState,
      own.Clean allowed → holds (read own))
    (hNext : ∀ value, holds value →
      Effect.Lockstep (Related allowed rel) (next value)
        (next' value)) :
    Effect.Lockstep (Related allowed rel)
      (gets read >>= next) (gets read >>= next') := by
  intro state state' hRelated
  have hValue := hRead state.own hRelated.clean
  have hStep := hNext _ hValue state state' hRelated
  unfold gets
  rw [Effect.run_gets_bind, Effect.run_gets_bind,
    ← hRelated.own]
  exact hStep

/- Both read the same. -/
theorem lockstep_read
    {read : PrettyState → α}
    {next : α → M σ β}
    {next' : α → M τ β}
    (hNext : ∀ value,
      Effect.Lockstep (Related allowed rel) (next value)
        (next' value)) :
    Effect.Lockstep (Related allowed rel)
      (gets read >>= next) (gets read >>= next') :=
  lockstep_gets (fun _ => True) (fun _ _ => trivial)
    (fun value _ => hNext value)

/- Both change the same, and stay clean. -/
theorem lockstep_modify
    {change : PrettyState → PrettyState}
    (hChange : ∀ own : PrettyState,
      own.Clean allowed → (change own).Clean allowed) :
    Effect.Lockstep (Related allowed rel)
      (modify change : M σ Unit) (modify change : M τ Unit) := by
  apply Effect.Lockstep.modify
  intro state state' hRelated
  exact ⟨congrArg change hRelated.own,
    hChange _ hRelated.clean, hRelated.lowlevel⟩

variable {left : Emit σ}
variable {right : Emit τ}

/- Both make the same call of the low-level emitter. -/
theorem lockstep_low
    (hStep : Emit.InStep allowed rel left right)
    {call : EmitCall}
    (hCall : allowed call.text) :
    Effect.Lockstep (Related allowed rel) (low left call)
      (low right call) := by
  intro state state' hRelated
  have hLow := hStep.call call hCall _ _ hRelated.lowlevel
  unfold low
  simp only []
  cases hLeft : (left.call call).run state.lowlevel with
  | mk result after =>
      cases hRight :
          (right.call call).run state'.lowlevel with
      | mk result' after' =>
          rw [hLeft, hRight] at hLow
          rcases hLow with ⟨hResult, hAfter⟩
          change result = result' at hResult
          subst hResult
          cases result with
          | ok value =>
              exact ⟨rfl, hRelated.own, hRelated.clean,
                hAfter⟩
          | error error =>
              exact ⟨rfl, hRelated.own, hRelated.clean,
                hAfter⟩

end EmitPrettyPrint

end LLDBGhidra

------------------------------------------------------------
-- Changes That Keep a State Clean
------------------------------------------------------------

namespace LLDBGhidra

namespace PrettyState

variable {allowed : Text → Prop}
variable {state : PrettyState}

theorem Clean.push
    {token : TokenSplit}
    (hClean : state.Clean allowed)
    (hToken : allowed token.tok) :
    (state.push token).Clean allowed := by
  refine ⟨?_, hClean.fill⟩
  intro ref
  unfold PrettyState.push CircularQueue.push CircularQueue.set
  simp only []
  split
  · exact hToken
  · exact hClean.tokens ref

theorem Clean.setSize
    (hClean : state.Clean allowed)
    (ref : Nat)
    (size : Int) :
    (state.setSize ref size).Clean allowed := by
  refine ⟨?_, hClean.fill⟩
  intro other
  unfold PrettyState.setSize CircularQueue.set
  simp only []
  split
  · exact hClean.tokens ref
  · exact hClean.tokens other

theorem Clean.addRightotal
    (hClean : state.Clean allowed)
    (ref : Nat) :
    (state.addRightotal ref).Clean allowed :=
  hClean.setSize ref _

theorem Clean.scanqueue
    (hClean : state.Clean allowed)
    (scanqueue : CircularQueue Nat) :
    ({ state with scanqueue := scanqueue } :
      PrettyState).Clean allowed :=
  ⟨hClean.tokens, hClean.fill⟩

theorem Clean.restart
    (hClean : state.Clean allowed) :
    state.restart.Clean allowed := by
  unfold PrettyState.restart
  split
  · exact ⟨hClean.tokens, hClean.fill⟩
  · exact hClean

theorem Clean.openLast
    (hClean : state.Clean allowed) :
    state.openLast.Clean allowed :=
  (hClean.setSize _ _).scanqueue _

theorem Clean.closeGroup
    (hClean : state.Clean allowed) :
    state.closeGroup.Clean allowed := by
  unfold PrettyState.closeGroup
  simp only []
  split
  · exact (((hClean.scanqueue _).addRightotal _).scanqueue
      _).addRightotal _
  · exact (hClean.scanqueue _).addRightotal _

theorem Clean.closeBreak
    (hClean : state.Clean allowed) :
    state.closeBreak.Clean allowed := by
  unfold PrettyState.closeBreak
  split
  · exact hClean.restart
  · simp only []
    split
    · exact (hClean.scanqueue _).addRightotal _
    · exact hClean

theorem Clean.commitBottom
    (hClean : state.Clean allowed) :
    state.commitBottom.Clean allowed :=
  (hClean.scanqueue _).setSize _ _

theorem Clean.expand
    (hEmpty : allowed [])
    (hClean : state.Clean allowed) :
    state.expand.Clean allowed := by
  refine ⟨?_, hClean.fill⟩
  intro ref
  unfold PrettyState.expand CircularQueue.expand
  simp only []
  split
  · exact hClean.tokens _
  · exact hEmpty

theorem Clean.setMax
    (hEmpty : allowed [])
    (hClean : state.Clean allowed)
    (sz : Nat)
    (ref : Nat) :
    allowed ((state.tokqueue.setMax sz).cache ref).tok := by
  unfold CircularQueue.setMax
  split
  · exact hEmpty
  · exact hClean.tokens ref

theorem clean_initial
    (hEmpty : allowed [])
    (countbase : Int) :
    (PrettyState.initial countbase).Clean allowed :=
  ⟨fun _ => hEmpty, hEmpty⟩

end PrettyState

end LLDBGhidra

------------------------------------------------------------
-- Printing in Step
------------------------------------------------------------

namespace LLDBGhidra

namespace EmitPrettyPrint

open Effect (Lockstep)

variable {σ τ α : Type}
variable {allowed : Text → Prop}
variable {rel : σ → τ → Prop}
variable {left : Emit σ}
variable {right : Emit τ}
variable {token : TokenSplit}

/- A field that is no text, and not the queue of tokens. -/
theorem lockstep_change
    {change : PrettyState → PrettyState}
    (hTokqueue : ∀ own, (change own).tokqueue = own.tokqueue)
    (hFill : ∀ own, (change own).commentfill = own.commentfill) :
    Lockstep (Related allowed rel)
      (modify change : M σ Unit) (modify change : M τ Unit) := by
  apply lockstep_modify
  intro own hClean
  constructor
  · intro ref
    rw [hTokqueue]
    exact hClean.tokens ref
  · rw [hFill]
    exact hClean.fill

theorem lockstep_indentBack :
    Lockstep (Related allowed rel) (indentBack : M σ Int)
      (indentBack : M τ Int) := by
  apply lockstep_read
  intro indentstack
  cases indentstack with
  | nil => exact Lockstep.throw _
  | cons indent rest => exact Lockstep.pure _

theorem lockstep_popIndent :
    Lockstep (Related allowed rel) (popIndent : M σ Unit)
      (popIndent : M τ Unit) := by
  apply lockstep_read
  intro indentstack
  cases indentstack with
  | nil => exact Lockstep.throw _
  | cons indent rest =>
      exact lockstep_change (fun _ => rfl) (fun _ => rfl)

theorem lockstep_pushIndent
    (indent : Int) :
    Lockstep (Related allowed rel)
      (pushIndent indent : M σ Unit)
      (pushIndent indent : M τ Unit) :=
  lockstep_change (fun _ => rfl) (fun _ => rfl)

theorem lockstep_useSpace
    (amount : Int) :
    Lockstep (Related allowed rel)
      (useSpace amount : M σ Unit)
      (useSpace amount : M τ Unit) :=
  lockstep_change (fun _ => rfl) (fun _ => rfl)

theorem lockstep_startLine
    (hStep : Emit.InStep allowed rel left right) :
    Lockstep (Related allowed rel) (startLine left)
      (startLine right) := by
  apply lockstep_read
  intro indent
  refine Lockstep.bind (lockstep_low hStep hStep.empty) ?_
  intro _
  apply lockstep_gets allowed
  · intro own hClean
    split
    · exact hClean.fill
    · exact hStep.empty
  · intro fill hFill
    apply Lockstep.ite
    · intro _
      refine Lockstep.bind (lockstep_low hStep hFill) ?_
      intro _
      exact lockstep_useSpace _
    · intro _
      exact Lockstep.pure ()

/- A token is printed with its own text. -/
theorem allowed_printCall
    (hEmpty : allowed [])
    (hToken : allowed token.tok)
    {call : EmitCall}
    (hCall : token.printCall = .ok (some call)) :
    allowed call.text := by
  unfold TokenSplit.printCall at hCall
  split at hCall <;> cases hCall <;>
    first | exact hToken | exact hEmpty

theorem lockstep_printToken
    (hStep : Emit.InStep allowed rel left right)
    (hToken : allowed token.tok) :
    Lockstep (Related allowed rel) (printToken left token)
      (printToken right token) := by
  unfold printToken
  cases hCall : token.printCall with
  | error error => exact Lockstep.throw _
  | ok found =>
      cases found with
      | none => exact Lockstep.pure ()
      | some call =>
          exact lockstep_low hStep
            (allowed_printCall hStep.empty hToken hCall)

theorem lockstep_overflow
    (hStep : Emit.InStep allowed rel left right) :
    Lockstep (Related allowed rel) (overflow left)
      (overflow right) := by
  refine Lockstep.bind
    (lockstep_change (fun _ => rfl) (fun _ => rfl)) ?_
  intro _
  apply lockstep_read
  intro newspaceremain
  apply lockstep_read
  intro stays
  apply Lockstep.ite
  · intro _
    exact Lockstep.pure ()
  · intro _
    refine Lockstep.bind
      (lockstep_change (fun _ => rfl) (fun _ => rfl)) ?_
    intro _
    exact lockstep_startLine hStep

theorem lockstep_makeRoom
    (hStep : Emit.InStep allowed rel left right)
    (size : Int) :
    Lockstep (Related allowed rel) (makeRoom left size)
      (makeRoom right size) := by
  apply lockstep_read
  intro full
  apply Lockstep.ite
  · intro _
    exact lockstep_overflow hStep
  · intro _
    exact Lockstep.pure ()

theorem lockstep_printSpaces
    (hStep : Emit.InStep allowed rel left right) :
    Lockstep (Related allowed rel) (printSpaces left token)
      (printSpaces right token) := by
  refine Lockstep.bind (lockstep_low hStep hStep.empty) ?_
  intro _
  exact lockstep_useSpace _

theorem lockstep_printBreak
    (hStep : Emit.InStep allowed rel left right) :
    Lockstep (Related allowed rel) (printBreak left token)
      (printBreak right token) := by
  apply Lockstep.ite
  · intro _
    refine Lockstep.bind
      (lockstep_change (fun _ => rfl) (fun _ => rfl)) ?_
    intro _
    exact lockstep_startLine hStep
  · intro _
    apply Lockstep.bind lockstep_indentBack
    intro back
    apply lockstep_read
    intro stays
    apply Lockstep.ite
    · intro _
      exact lockstep_printSpaces hStep
    · intro _
      apply Lockstep.bind lockstep_popIndent
      intro _
      apply Lockstep.bind (lockstep_pushIndent _)
      intro _
      refine Lockstep.bind
        (lockstep_change (fun _ => rfl) (fun _ => rfl)) ?_
      intro _
      exact lockstep_startLine hStep

/- Printing a token that opens a group. -/
theorem lockstep_printOpen
    (hStep : Emit.InStep allowed rel left right)
    (hToken : allowed token.tok) :
    Lockstep (Related allowed rel)
      (do
        printToken left token
        let spaceremain ← gets PrettyState.spaceremain
        pushIndent spaceremain)
      (do
        printToken right token
        let spaceremain ← gets PrettyState.spaceremain
        pushIndent spaceremain) := by
  apply Lockstep.bind (lockstep_printToken hStep hToken)
  intro _
  apply lockstep_read
  intro spaceremain
  exact lockstep_pushIndent _

theorem lockstep_print
    (hStep : Emit.InStep allowed rel left right)
    (hToken : allowed token.tok) :
    Lockstep (Related allowed rel) (print left token)
      (print right token) := by
  unfold print
  cases token.delimtype with
  | ignore => exact lockstep_printToken hStep hToken
  | beginIndent =>
      apply Lockstep.bind lockstep_indentBack
      intro back
      exact lockstep_pushIndent _
  | beginComment =>
      refine Lockstep.bind
        (lockstep_change (fun _ => rfl) (fun _ => rfl)) ?_
      intro _
      exact lockstep_printOpen hStep hToken
  | begin => exact lockstep_printOpen hStep hToken
  | endIndent =>
      apply lockstep_read
      intro indentstack
      apply Lockstep.ite
      · intro _
        exact Lockstep.throw _
      · intro _
        exact lockstep_popIndent
  | endComment =>
      refine Lockstep.bind
        (lockstep_change (fun _ => rfl) (fun _ => rfl)) ?_
      intro _
      apply Lockstep.bind (lockstep_printToken hStep hToken)
      intro _
      exact lockstep_popIndent
  | close =>
      apply Lockstep.bind (lockstep_printToken hStep hToken)
      intro _
      exact lockstep_popIndent
  | tokenString =>
      apply Lockstep.bind (lockstep_makeRoom hStep _)
      intro _
      apply Lockstep.bind (lockstep_printToken hStep hToken)
      intro _
      exact lockstep_useSpace _
  | tokenBreak =>
      apply lockstep_read
      intro full
      apply Lockstep.ite
      · intro _
        exact lockstep_printBreak hStep
      · intro _
        exact lockstep_printSpaces hStep

end EmitPrettyPrint

end LLDBGhidra

------------------------------------------------------------
-- Scanning in Step
------------------------------------------------------------

namespace LLDBGhidra

namespace EmitPrettyPrint

open Effect (Lockstep)

variable {σ τ : Type}
variable {allowed : Text → Prop}
variable {rel : σ → τ → Prop}
variable {left : Emit σ}
variable {right : Emit τ}
variable {token : TokenSplit}

theorem lockstep_advanceleftLoop
    (hStep : Emit.InStep allowed rel left right)
    (rounds : Nat) :
    Lockstep (Related allowed rel)
      (advanceleftLoop left rounds)
      (advanceleftLoop right rounds) := by
  induction rounds with
  | zero => exact Lockstep.pure ()
  | succ rounds ih =>
      apply lockstep_gets (fun token => allowed token.tok)
      · intro own hClean
        exact hClean.tokens _
      · intro token hToken
        apply Lockstep.ite
        · intro _
          apply Lockstep.bind (lockstep_print hStep hToken)
          intro _
          apply Lockstep.bind
          · apply lockstep_modify
            intro own hClean
            exact ⟨hClean.tokens, hClean.fill⟩
          · intro _
            apply lockstep_read
            intro done
            apply Lockstep.ite
            · intro _
              exact Lockstep.pure ()
            · intro _
              exact ih
        · intro _
          exact Lockstep.pure ()

theorem lockstep_advanceleft
    (hStep : Emit.InStep allowed rel left right) :
    Lockstep (Related allowed rel) (advanceleft left)
      (advanceleft right) := by
  apply lockstep_read
  intro capacity
  exact lockstep_advanceleftLoop hStep capacity

theorem lockstep_commitLoop
    (hStep : Emit.InStep allowed rel left right)
    (rounds : Nat) :
    Lockstep (Related allowed rel) (commitLoop left rounds)
      (commitLoop right rounds) := by
  induction rounds with
  | zero => exact Lockstep.pure ()
  | succ rounds ih =>
      apply lockstep_read
      intro full
      apply Lockstep.ite
      · intro _
        refine Lockstep.bind
          (lockstep_modify
            (fun own hClean => hClean.commitBottom)) ?_
        intro _
        apply Lockstep.bind (lockstep_advanceleft hStep)
        intro _
        apply lockstep_read
        intro done
        apply Lockstep.ite
        · intro _
          exact Lockstep.pure ()
        · intro _
          exact ih
      · intro _
        exact Lockstep.pure ()

theorem lockstep_setTopSize :
    Lockstep (Related allowed rel)
      (scan.setTopSize : M σ Unit)
      (scan.setTopSize : M τ Unit) :=
  lockstep_modify (fun _ hClean => hClean.setSize _ _)

theorem lockstep_scanEnd
    (hStep : Emit.InStep allowed rel left right)
    (scanning : Bool) :
    Lockstep (Related allowed rel)
      (scan.scanEnd left scanning)
      (scan.scanEnd right scanning) := by
  apply Lockstep.bind lockstep_setTopSize
  intro _
  apply Lockstep.ite
  · intro _
    refine Lockstep.bind
      (lockstep_modify
        (fun own hClean => hClean.closeGroup)) ?_
    intro _
    apply lockstep_read
    intro done
    apply Lockstep.ite
    · intro _
      exact lockstep_advanceleft hStep
    · intro _
      exact Lockstep.pure ()
  · intro _
    exact Lockstep.pure ()

theorem lockstep_scan
    (hStep : Emit.InStep allowed rel left right) :
    Lockstep (Related allowed rel) (scan left)
      (scan right) := by
  have hOpen :
      Lockstep (Related allowed rel)
        (modify (fun state => state.restart.openLast) :
          M σ Unit)
        (modify (fun state => state.restart.openLast) :
          M τ Unit) :=
    lockstep_modify (fun own hClean => hClean.restart.openLast)
  apply Lockstep.bind
  · apply lockstep_modify
    intro own hClean
    split
    · exact hClean.expand hStep.empty
    · exact hClean
  · intro _
    apply lockstep_read
    intro token
    apply lockstep_read
    intro scanning
    cases token.delimtype with
    | beginComment => exact hOpen
    | begin => exact hOpen
    | endComment => exact lockstep_scanEnd hStep scanning
    | close => exact lockstep_scanEnd hStep scanning
    | tokenBreak =>
        apply lockstep_modify
        intro own hClean
        have hOpened := hClean.closeBreak.openLast
        exact ⟨hOpened.tokens, hOpened.fill⟩
    | beginIndent => exact lockstep_setTopSize
    | endIndent => exact lockstep_setTopSize
    | ignore => exact lockstep_setTopSize
    | tokenString =>
        apply Lockstep.ite
        · intro _
          refine Lockstep.bind
            (lockstep_change (fun _ => rfl) (fun _ => rfl)) ?_
          intro _
          apply lockstep_read
          intro capacity
          exact lockstep_commitLoop hStep capacity
        · intro _
          exact Lockstep.pure ()

theorem lockstep_add
    (hStep : Emit.InStep allowed rel left right)
    (hToken : allowed token.tok) :
    Lockstep (Related allowed rel) (add left token)
      (add right token) := by
  refine Lockstep.bind
    (lockstep_modify
      (fun own hClean => hClean.push hToken)) ?_
  intro _
  exact lockstep_scan hStep

end EmitPrettyPrint

end LLDBGhidra

------------------------------------------------------------
-- Calls in Step
------------------------------------------------------------

namespace LLDBGhidra

namespace EmitPrettyPrint

open Effect (Lockstep)

variable {σ τ : Type}
variable {allowed : Text → Prop}
variable {rel : σ → τ → Prop}
variable {left : Emit σ}
variable {right : Emit τ}

theorem lockstep_setNeedbreak
    (needbreak : Bool) :
    Lockstep (Related allowed rel)
      (setNeedbreak needbreak : M σ Unit)
      (setNeedbreak needbreak : M τ Unit) :=
  lockstep_change (fun _ => rfl) (fun _ => rfl)

theorem lockstep_checkSpace
    (hStep : Emit.InStep allowed rel left right) :
    Lockstep (Related allowed rel) (checkSpace left)
      (checkSpace right) := by
  apply lockstep_read
  intro needbreak
  apply Lockstep.ite
  · intro _
    exact lockstep_add hStep hStep.empty
  · intro _
    exact Lockstep.pure ()

theorem lockstep_checkContent
    (hStep : Emit.InStep allowed rel left right) :
    Lockstep (Related allowed rel) (checkContent left)
      (checkContent right) := by
  apply lockstep_read
  intro needbreak
  apply Lockstep.ite
  · intro _
    exact Lockstep.pure ()
  · intro _
    exact lockstep_add hStep hStep.empty

theorem lockstep_checkstart
    (hStep : Emit.InStep allowed rel left right) :
    Lockstep (Related allowed rel) (checkstart left)
      (checkstart right) := by
  apply Lockstep.bind (lockstep_checkSpace hStep)
  intro _
  exact lockstep_setNeedbreak false

theorem lockstep_checkstring
    (hStep : Emit.InStep allowed rel left right) :
    Lockstep (Related allowed rel) (checkstring left)
      (checkstring right) := by
  apply Lockstep.bind (lockstep_checkSpace hStep)
  intro _
  exact lockstep_setNeedbreak true

theorem lockstep_checkend
    (hStep : Emit.InStep allowed rel left right) :
    Lockstep (Related allowed rel) (checkend left)
      (checkend right) := by
  apply Lockstep.bind (lockstep_checkContent hStep)
  intro _
  exact lockstep_setNeedbreak true

theorem lockstep_checkbreak
    (hStep : Emit.InStep allowed rel left right) :
    Lockstep (Related allowed rel) (checkbreak left)
      (checkbreak right) := by
  apply Lockstep.bind (lockstep_checkContent hStep)
  intro _
  exact lockstep_setNeedbreak false

theorem lockstep_addNew
    (hStep : Emit.InStep allowed rel left right)
    {token : Int → TokenSplit}
    (hToken : ∀ id, allowed (token id).tok) :
    Lockstep (Related allowed rel) (addNew left token)
      (addNew right token) := by
  apply lockstep_read
  intro id
  refine Lockstep.bind
    (lockstep_change (fun _ => rfl) (fun _ => rfl)) ?_
  intro _
  apply Lockstep.bind (lockstep_add hStep (hToken id))
  intro _
  exact Lockstep.pure _

theorem lockstep_beginGroup
    (hStep : Emit.InStep allowed rel left right)
    (tagtype : TagType)
    (delimtype : PrintClass) :
    Lockstep (Related allowed rel)
      (beginGroup left tagtype delimtype)
      (beginGroup right tagtype delimtype) := by
  apply Lockstep.bind (lockstep_checkstart hStep)
  intro _
  exact lockstep_addNew hStep (fun _ => hStep.empty)

theorem lockstep_endGroup
    (hStep : Emit.InStep allowed rel left right)
    (tagtype : TagType)
    (delimtype : PrintClass)
    (id : Int) :
    Lockstep (Related allowed rel)
      (endGroup left tagtype delimtype id)
      (endGroup right tagtype delimtype id) := by
  apply Lockstep.bind (lockstep_checkend hStep)
  intro _
  refine Lockstep.bind (lockstep_add hStep hStep.empty) ?_
  intro _
  exact Lockstep.pure none

theorem lockstep_tag
    (hStep : Emit.InStep allowed rel left right)
    (tagtype : TagType)
    {name : Text}
    (hName : allowed name)
    (hl : SyntaxHighlight) :
    Lockstep (Related allowed rel) (tag left tagtype name hl)
      (tag right tagtype name hl) := by
  apply Lockstep.bind (lockstep_checkstring hStep)
  intro _
  refine Lockstep.bind (lockstep_add hStep hName) ?_
  intro _
  exact Lockstep.pure none

theorem lockstep_tagBreak
    (hStep : Emit.InStep allowed rel left right)
    {token : TokenSplit}
    (hToken : allowed token.tok) :
    Lockstep (Related allowed rel) (tagBreak left token)
      (tagBreak right token) := by
  apply Lockstep.bind (lockstep_checkbreak hStep)
  intro _
  apply Lockstep.bind (lockstep_add hStep hToken)
  intro _
  exact Lockstep.pure none

theorem lockstep_flushLoop
    (hStep : Emit.InStep allowed rel left right)
    (rounds : Nat) :
    Lockstep (Related allowed rel) (flushLoop left rounds)
      (flushLoop right rounds) := by
  induction rounds with
  | zero => exact Lockstep.pure ()
  | succ rounds ih =>
      apply lockstep_read
      intro done
      apply Lockstep.ite
      · intro _
        exact Lockstep.pure ()
      · intro _
        apply lockstep_gets (fun token => allowed token.tok)
        · intro own hClean
          exact hClean.tokens _
        · intro token hToken
          apply Lockstep.bind
          · apply lockstep_modify
            intro own hClean
            exact ⟨hClean.tokens, hClean.fill⟩
          · intro _
            apply Lockstep.ite
            · intro _
              exact Lockstep.throw _
            · intro _
              apply Lockstep.bind (lockstep_print hStep hToken)
              intro _
              exact ih

theorem lockstep_clear
    (hStep : Emit.InStep allowed rel left right) :
    Lockstep (Related allowed rel) (clear left)
      (clear right) := by
  refine Lockstep.bind (lockstep_low hStep hStep.empty) ?_
  intro _
  apply lockstep_modify
  intro own hClean
  exact ⟨hClean.tokens, hClean.fill⟩

theorem lockstep_setMaxLineSize
    (hStep : Emit.InStep allowed rel left right)
    (val : Int) :
    Lockstep (Related allowed rel) (setMaxLineSize left val)
      (setMaxLineSize right val) := by
  apply Lockstep.ite
  · intro _
    exact Lockstep.throw _
  · intro _
    apply Lockstep.bind
    · apply lockstep_modify
      intro own hClean
      exact ⟨hClean.setMax hStep.empty _, hClean.fill⟩
    · intro _
      exact lockstep_clear hStep

/- After an effect, nothing is returned. -/
theorem lockstep_return
    {effect : M σ Unit}
    {effect' : M τ Unit}
    (value : Option Int)
    (hEffect :
      Lockstep (Related allowed rel) effect effect') :
    Lockstep (Related allowed rel)
      (effect >>= fun _ => pure value)
      (effect' >>= fun _ => pure value) := by
  apply Lockstep.bind hEffect
  intro _
  exact Lockstep.pure value

/- Every method of the pretty printer is in step. -/
theorem inStep_emit
    (hStep : Emit.InStep allowed rel left right) :
    Emit.InStep allowed (Related allowed rel) (emit left)
      (emit right) := by
  refine ⟨hStep.empty, ?_⟩
  intro call hCall
  cases call with
  | beginDocument => exact lockstep_beginGroup hStep _ _
  | endDocument id => exact lockstep_endGroup hStep _ _ id
  | beginFunction => exact lockstep_beginGroup hStep _ _
  | endFunction id => exact lockstep_endGroup hStep _ _ id
  | beginBlock =>
      exact lockstep_addNew hStep (fun _ => hStep.empty)
  | endBlock id =>
      exact lockstep_return none
        (lockstep_add hStep hStep.empty)
  | tagLine => exact lockstep_tagBreak hStep hStep.empty
  | tagLineIndent indent =>
      exact lockstep_tagBreak hStep hStep.empty
  | beginReturnType => exact lockstep_beginGroup hStep _ _
  | endReturnType id => exact lockstep_endGroup hStep _ _ id
  | beginVarDecl => exact lockstep_beginGroup hStep _ _
  | endVarDecl id => exact lockstep_endGroup hStep _ _ id
  | beginStatement => exact lockstep_beginGroup hStep _ _
  | endStatement id => exact lockstep_endGroup hStep _ _ id
  | beginFuncProto => exact lockstep_beginGroup hStep _ _
  | endFuncProto id => exact lockstep_endGroup hStep _ _ id
  | tagVariable name hl => exact lockstep_tag hStep _ hCall hl
  | tagOp name hl => exact lockstep_tag hStep _ hCall hl
  | tagFuncName name hl => exact lockstep_tag hStep _ hCall hl
  | tagType name hl => exact lockstep_tag hStep _ hCall hl
  | tagField name hl => exact lockstep_tag hStep _ hCall hl
  | tagComment name hl => exact lockstep_tag hStep _ hCall hl
  | tagLabel name hl => exact lockstep_tag hStep _ hCall hl
  | tagCaseLabel name hl => exact lockstep_tag hStep _ hCall hl
  | print data hl => exact lockstep_tag hStep _ hCall hl
  | openParen paren id =>
      apply Lockstep.bind (lockstep_checkstart hStep)
      intro _
      apply lockstep_read
      intro newId
      refine Lockstep.bind
        (lockstep_addNew hStep (fun _ => hStep.empty)) ?_
      intro opened
      refine Lockstep.bind (lockstep_add hStep hCall) ?_
      intro _
      exact lockstep_return _ (lockstep_setNeedbreak true)
  | closeParen paren id =>
      apply Lockstep.bind (lockstep_checkstring hStep)
      intro _
      refine Lockstep.bind (lockstep_add hStep hCall) ?_
      intro _
      exact lockstep_endGroup hStep _ _ id
  | openGroup => exact lockstep_beginGroup hStep _ _
  | closeGroup id => exact lockstep_endGroup hStep _ _ id
  | clear => exact lockstep_return none (lockstep_clear hStep)
  | spaces num bump => exact lockstep_tagBreak hStep hStep.empty
  | startIndent =>
      apply lockstep_read
      intro increment
      exact lockstep_addNew hStep (fun _ => hStep.empty)
  | stopIndent id =>
      exact lockstep_return none
        (lockstep_add hStep hStep.empty)
  | startComment => exact lockstep_beginGroup hStep _ _
  | stopComment id => exact lockstep_endGroup hStep _ _ id
  | flush =>
      apply lockstep_read
      intro capacity
      apply Lockstep.bind (lockstep_flushLoop hStep capacity)
      intro _
      apply Lockstep.bind (lockstep_setNeedbreak false)
      intro _
      exact lockstep_return none
        (lockstep_low hStep hStep.empty)
  | setMaxLineSize mls =>
      exact lockstep_return none
        (lockstep_setMaxLineSize hStep mls)
  | setCommentFill fill =>
      apply lockstep_return none
      apply lockstep_modify
      intro own hClean
      exact ⟨hClean.tokens, hCall⟩
  | resetDefaults =>
      refine Lockstep.bind (lockstep_low hStep hStep.empty) ?_
      intro _
      refine Lockstep.bind
        (lockstep_change (fun _ => rfl) (fun _ => rfl)) ?_
      intro _
      exact lockstep_return none
        (lockstep_setMaxLineSize hStep 100)
  | setIndentIncrement val =>
      exact lockstep_return none
        (lockstep_change (fun _ => rfl) (fun _ => rfl))

/- A new pretty printer over related emitters. -/
theorem related_initial
    (hEmpty : allowed [])
    {lowlevel : σ}
    {lowlevel' : τ}
    (hRel : rel lowlevel lowlevel')
    (countbase : Int) :
    Related allowed rel (initial countbase lowlevel)
      (initial countbase lowlevel') :=
  ⟨rfl, PrettyState.clean_initial hEmpty countbase, hRel⟩

end EmitPrettyPrint

end LLDBGhidra
