import LLDBGhidra.Decompiler.PrettyPrintLockstep
import LLDBGhidra.Library.AnsiTerminal

/-
  The emitter with colors (`EmitAnsi.cpp`), and that it can
  stand in for the one without markup.

  Main declarations:
    * `EmitAnsi.emit`
    * `EmitAnsi.inStep`
    * `EmitAnsi.replaces_emitNoMarkup`
-/

------------------------------------------------------------
-- Colored Tokens
------------------------------------------------------------

namespace LLDBGhidra

namespace EmitAnsi

open EmitStream
open Terminal (esc)

/- An escape sequence with its parameters. -/
def sequence
    (parameters : String) : Text :=
  esc :: '[' :: parameters.toList ++ ['m']

/- The sequence for a highlight, unless it has none. -/
def colorFor
    (hl : SyntaxHighlight) : Option Text :=
  match hl with
  | .keywordColor => some (sequence "1;35")
  | .typeColor => some (sequence "32")
  | .funcnameColor => some (sequence "1;34")
  | .varColor => none
  | .constColor => some (sequence "36")
  | .paramColor => some (sequence "3;36")
  | .globalColor => some (sequence "1;33")
  | .commentColor => some (sequence "2;37")
  | .errorColor => some (sequence "31")
  | .specialColor => some (sequence "1")
  | .noColor => none
  | .other => none

/- A token in its color, with a reset after it. -/
def emitColored
    (name : Text)
    (hl : SyntaxHighlight) : M Unit :=
  match colorFor hl with
  | some color => write (color ++ name ++ sequence "0")
  | none => write name

def tag
    (name : Text)
    (hl : SyntaxHighlight) : M (Option Int) := do
  emitColored name hl
  pure none

def print
    (data : Text)
    (hl : SyntaxHighlight) : M Unit :=
  emitColored data hl

/- Start a line with an indent. -/
def line
    (indent : Int) : M (Option Int) := do
  write ['\n']
  write (List.replicate indent.toNat ' ')
  pure none

/- The methods of the class. -/
def call
    (call : EmitCall) : M (Option Int) :=
  match call with
  | .beginDocument => pure (some 0)
  | .endDocument _ => pure none
  | .beginFunction => pure (some 0)
  | .endFunction _ => pure none
  | .beginBlock => pure (some 0)
  | .endBlock _ => pure none
  | .tagLine => do
      let indentlevel ←
        Effect.gets (fun stream => stream.base.indentlevel)
      line indentlevel
  | .tagLineIndent indent => line indent
  | .beginReturnType => pure (some 0)
  | .endReturnType _ => pure none
  | .beginVarDecl => pure (some 0)
  | .endVarDecl _ => pure none
  | .beginStatement => pure (some 0)
  | .endStatement _ => pure none
  | .beginFuncProto => pure (some 0)
  | .endFuncProto _ => pure none
  | .tagVariable name hl => tag name hl
  | .tagOp name hl => tag name hl
  | .tagFuncName name hl => tag name hl
  | .tagType name hl => tag name hl
  | .tagField name hl => tag name hl
  | .tagComment name hl => tag name hl
  | .tagLabel name hl => tag name hl
  | .tagCaseLabel name hl => tag name hl
  | .print data hl => do
      print data hl
      pure none
  | .openParen paren id => do
      write paren
      modifyBase (fun base =>
        { base with parenlevel := base.parenlevel + 1 })
      pure (some id)
  | .closeParen paren _ => do
      write paren
      modifyBase (fun base =>
        { base with parenlevel := base.parenlevel - 1 })
      pure none
  | call => inherited print call

def emit : Emit EmitStream :=
  { call := call }

end EmitAnsi

end LLDBGhidra

------------------------------------------------------------
-- In Step With the Plain Emitter
------------------------------------------------------------

namespace LLDBGhidra

namespace EmitAnsi

open Effect (Lockstep)
open EmitStream
open Terminal (esc feed showing)

variable {name : Text}

/- A text without escape characters. -/
def Plain
    (text : Text) : Prop :=
  esc ∉ text

/-
  The fields of `Emit` are the same, and a terminal that reads
  the colored stream shows the other one and is back at its
  default rendition.
-/
structure Agree
    (ansi plain : EmitStream) : Prop where
  base : ansi.base = plain.base
  shown : feed ansi.s (showing []) = showing plain.s

/- A sequence selects its renditions. -/
theorem feed_color
    {parameters : String}
    (hParameters : 'm' ∉ parameters.toList)
    {terminal : Terminal}
    (hGround : terminal.mode = .ground) :
    feed (sequence parameters) terminal =
      { terminal with
        rendition :=
          terminal.rendition.selectAll parameters.toList 0 } :=
  Terminal.feed_sequence hParameters hGround

/- The color of a token ends with it. -/
theorem feed_colored
    {parameters : String}
    (hParameters : 'm' ∉ parameters.toList)
    (hName : Plain name)
    (shown : Text) :
    feed (sequence parameters ++ name ++ sequence "0")
        (showing shown) =
      showing (shown ++ name) := by
  rw [Terminal.feed_append, Terminal.feed_append,
    feed_color hParameters rfl,
    Terminal.feed_plain hName rfl,
    feed_color (by decide) rfl]
  rfl

/- The parameters of a color. -/
theorem colorFor_eq_some
    {hl : SyntaxHighlight}
    {color : Text}
    (hColor : colorFor hl = some color) :
    ∃ parameters : String,
      color = sequence parameters ∧
        'm' ∉ parameters.toList := by
  unfold colorFor at hColor
  split at hColor <;> cases hColor <;>
    exact ⟨_, rfl, by decide⟩

/- Both write the same plain text. -/
theorem lockstep_write
    (hName : Plain name) :
    Lockstep Agree (write name) (write name) := by
  apply Lockstep.modify
  intro ansi plain hAgree
  refine ⟨hAgree.base, ?_⟩
  rw [Terminal.feed_append, hAgree.shown,
    Terminal.feed_plain hName rfl]
  rfl

/- One writes a text in color, the other the text. -/
theorem lockstep_emitColored
    (hName : Plain name)
    (hl : SyntaxHighlight) :
    Lockstep Agree (emitColored name hl) (write name) := by
  unfold emitColored
  cases hColor : colorFor hl with
  | none => exact lockstep_write hName
  | some color =>
      rcases colorFor_eq_some hColor with
        ⟨parameters, rfl, hParameters⟩
      apply Lockstep.modify
      intro ansi plain hAgree
      refine ⟨hAgree.base, ?_⟩
      rw [Terminal.feed_append, hAgree.shown,
        feed_colored hParameters hName]

theorem lockstep_modifyBase
    (change : EmitBase → EmitBase) :
    Lockstep Agree (modifyBase change) (modifyBase change) := by
  apply Lockstep.modify
  intro ansi plain hAgree
  exact ⟨congrArg change hAgree.base, hAgree.shown⟩

theorem plain_spaces
    (count : Nat) :
    Plain (List.replicate count ' ') := by
  intro hMem
  have hSpace := List.eq_of_mem_replicate hMem
  exact absurd hSpace (by decide)

theorem lockstep_tag
    (hName : Plain name)
    (hl : SyntaxHighlight) :
    Lockstep Agree (tag name hl) (EmitNoMarkup.tag name) := by
  apply Lockstep.bind (lockstep_emitColored hName hl)
  intro _
  exact Lockstep.pure none

theorem lockstep_line
    (indent : Int) :
    Lockstep Agree (line indent) (EmitNoMarkup.line indent) := by
  have hNewline : Plain ['\n'] := by
    unfold Plain
    decide
  apply Lockstep.bind (lockstep_write hNewline)
  intro _
  refine Lockstep.bind (lockstep_write (plain_spaces _)) ?_
  intro _
  exact Lockstep.pure none

/- A parenthesis, and a change of its level. -/
theorem lockstep_paren
    (hName : Plain name)
    (change : EmitBase → EmitBase)
    (id : Option Int) :
    Lockstep Agree
      (do
        write name
        modifyBase change
        pure id)
      (do
        write name
        modifyBase change
        pure id) := by
  apply Lockstep.bind (lockstep_write hName)
  intro _
  apply Lockstep.bind (lockstep_modifyBase change)
  intro _
  exact Lockstep.pure id

/- A change of the fields of `Emit`. -/
theorem lockstep_base
    (change : EmitBase → EmitBase)
    (id : Option Int) :
    Lockstep Agree
      (do
        modifyBase change
        pure id)
      (do
        modifyBase change
        pure id) := by
  apply Lockstep.bind (lockstep_modifyBase change)
  intro _
  exact Lockstep.pure id

/- The inherited methods differ in what they print with. -/
theorem lockstep_inherited
    (call : EmitCall) :
    Lockstep Agree (inherited print call)
      (inherited EmitNoMarkup.print call) := by
  unfold inherited
  cases call with
  | clear => exact lockstep_base _ none
  | spaces num bump =>
      refine Lockstep.bind
        (lockstep_emitColored (plain_spaces _) .noColor) ?_
      intro _
      exact Lockstep.pure none
  | startIndent => exact lockstep_base _ (some 0)
  | stopIndent id => exact lockstep_base _ none
  | resetDefaults => exact lockstep_base _ none
  | setIndentIncrement val => exact lockstep_base _ none
  | openGroup => exact Lockstep.pure (some 0)
  | startComment => exact Lockstep.pure (some 0)
  | _ => exact Lockstep.pure none

/- Every method is in step with the plain emitter's. -/
theorem inStep :
    Emit.InStep Plain Agree emit EmitNoMarkup.emit := by
  refine ⟨List.not_mem_nil, ?_⟩
  intro call hCall
  cases call with
  | beginDocument => exact Lockstep.pure (some 0)
  | endDocument id => exact Lockstep.pure none
  | beginFunction => exact Lockstep.pure (some 0)
  | endFunction id => exact Lockstep.pure none
  | beginBlock => exact Lockstep.pure (some 0)
  | endBlock id => exact Lockstep.pure none
  | tagLine =>
      refine Lockstep.bind (Lockstep.gets ?_) ?_
      · intro ansi plain hAgree
        rw [hAgree.base]
      · intro indentlevel
        exact lockstep_line indentlevel
  | tagLineIndent indent => exact lockstep_line indent
  | beginReturnType => exact Lockstep.pure (some 0)
  | endReturnType id => exact Lockstep.pure none
  | beginVarDecl => exact Lockstep.pure (some 0)
  | endVarDecl id => exact Lockstep.pure none
  | beginStatement => exact Lockstep.pure (some 0)
  | endStatement id => exact Lockstep.pure none
  | beginFuncProto => exact Lockstep.pure (some 0)
  | endFuncProto id => exact Lockstep.pure none
  | tagVariable name hl => exact lockstep_tag hCall hl
  | tagOp name hl => exact lockstep_tag hCall hl
  | tagFuncName name hl => exact lockstep_tag hCall hl
  | tagType name hl => exact lockstep_tag hCall hl
  | tagField name hl => exact lockstep_tag hCall hl
  | tagComment name hl => exact lockstep_tag hCall hl
  | tagLabel name hl => exact lockstep_tag hCall hl
  | tagCaseLabel name hl => exact lockstep_tag hCall hl
  | print data hl => exact lockstep_tag hCall hl
  | openParen paren id =>
      exact lockstep_paren hCall _ (some id)
  | closeParen paren id => exact lockstep_paren hCall _ none
  | openGroup => exact lockstep_inherited .openGroup
  | closeGroup id => exact lockstep_inherited (.closeGroup id)
  | clear => exact lockstep_inherited .clear
  | spaces num bump =>
      exact lockstep_inherited (.spaces num bump)
  | startIndent => exact lockstep_inherited .startIndent
  | stopIndent id => exact lockstep_inherited (.stopIndent id)
  | startComment => exact lockstep_inherited .startComment
  | stopComment id => exact lockstep_inherited (.stopComment id)
  | flush => exact lockstep_inherited .flush
  | setMaxLineSize mls =>
      exact lockstep_inherited (.setMaxLineSize mls)
  | setCommentFill fill =>
      exact lockstep_inherited (.setCommentFill fill)
  | resetDefaults => exact lockstep_inherited .resetDefaults
  | setIndentIncrement val =>
      exact lockstep_inherited (.setIndentIncrement val)

end EmitAnsi

end LLDBGhidra

------------------------------------------------------------
-- Replacing the Plain Emitter
------------------------------------------------------------

namespace LLDBGhidra

namespace EmitAnsi

open Terminal (esc feed showing strip)

/-
  What one emitter being as good as the other means for what
  they have written so far: equal indent level, parenthesis
  level and increment, equal text but for escape sequences,
  and a terminal at its default rendition.
-/
structure Replaces
    (ansi plain : EmitStream) : Prop where
  indentlevel :
    ansi.base.indentlevel = plain.base.indentlevel
  parenlevel : ansi.base.parenlevel = plain.base.parenlevel
  indentincrement :
    ansi.base.indentincrement = plain.base.indentincrement
  stripped : strip ansi.s = plain.s
  rendition :
    (feed ansi.s (showing [])).rendition = .default

theorem Agree.replaces
    {ansi plain : EmitStream}
    (hAgree : Agree ansi plain) :
    Replaces ansi plain := by
  constructor
  · rw [hAgree.base]
  · rw [hAgree.base]
  · rw [hAgree.base]
  · exact Terminal.strip_of_feed hAgree.shown
  · rw [hAgree.shown]
    rfl

theorem agree_initial :
    Agree EmitStream.initial EmitStream.initial :=
  ⟨rfl, rfl⟩

/-
  After any number of calls with plain texts, the emitter with
  colors has returned what the plain one has, and replaces it.
  So it does below a pretty printer, whose own state, and with
  it every line break, is the same over both, wherever the
  static counter of the pretty printers stands.
-/
theorem replaces_emitNoMarkup
    (calls : List EmitCall)
    (steps : Nat)
    (countbase : Int)
    (hPlain : ∀ call ∈ calls, esc ∉ call.text) :
    ((emit.run (calls.take steps) .initial).1 =
        (EmitNoMarkup.emit.run (calls.take steps) .initial).1 ∧
      Replaces
        (emit.run (calls.take steps) .initial).2
        (EmitNoMarkup.emit.run (calls.take steps)
          .initial).2) ∧
    ((EmitPrettyPrint.emit emit).run (calls.take steps)
          (.initial countbase .initial)).1 =
        ((EmitPrettyPrint.emit EmitNoMarkup.emit).run
          (calls.take steps) (.initial countbase .initial)).1 ∧
      ((EmitPrettyPrint.emit emit).run (calls.take steps)
          (.initial countbase .initial)).2.own =
        ((EmitPrettyPrint.emit EmitNoMarkup.emit).run
          (calls.take steps)
          (.initial countbase .initial)).2.own ∧
      Replaces
        ((EmitPrettyPrint.emit emit).run (calls.take steps)
          (.initial countbase .initial)).2.lowlevel
        ((EmitPrettyPrint.emit EmitNoMarkup.emit).run
          (calls.take steps)
          (.initial countbase .initial)).2.lowlevel := by
  have hTaken :
      ∀ call ∈ calls.take steps, Plain call.text := by
    intro call hCall
    exact hPlain call (List.mem_of_mem_take hCall)
  have hLow := inStep.run hTaken agree_initial
  have hPretty :=
    (EmitPrettyPrint.inStep_emit inStep).run hTaken
      (EmitPrettyPrint.related_initial inStep.empty
        agree_initial countbase)
  exact ⟨⟨hLow.1, hLow.2.replaces⟩, hPretty.1,
    hPretty.2.own, hPretty.2.lowlevel.replaces⟩

/- A statement with a type, in two lines. -/
def sampleCalls : List EmitCall :=
  [.beginDocument, .tagType "int".toList .typeColor,
    .spaces 1 0, .tagVariable "x".toList .paramColor,
    .tagLine, .openParen "(".toList 0,
    .print "1".toList .constColor, .closeParen ")".toList 0,
    .endDocument 0, .flush]

theorem replaces_emitNoMarkup_sample :
    ((emit.run (sampleCalls.take 8) .initial).1 =
        (EmitNoMarkup.emit.run (sampleCalls.take 8)
          .initial).1 ∧
      Replaces
        (emit.run (sampleCalls.take 8) .initial).2
        (EmitNoMarkup.emit.run (sampleCalls.take 8)
          .initial).2) ∧
    ((EmitPrettyPrint.emit emit).run (sampleCalls.take 8)
          (.initial 7 .initial)).1 =
        ((EmitPrettyPrint.emit EmitNoMarkup.emit).run
          (sampleCalls.take 8) (.initial 7 .initial)).1 ∧
      ((EmitPrettyPrint.emit emit).run (sampleCalls.take 8)
          (.initial 7 .initial)).2.own =
        ((EmitPrettyPrint.emit EmitNoMarkup.emit).run
          (sampleCalls.take 8) (.initial 7 .initial)).2.own ∧
      Replaces
        ((EmitPrettyPrint.emit emit).run (sampleCalls.take 8)
          (.initial 7 .initial)).2.lowlevel
        ((EmitPrettyPrint.emit EmitNoMarkup.emit).run
          (sampleCalls.take 8)
          (.initial 7 .initial)).2.lowlevel :=
  replaces_emitNoMarkup sampleCalls 8 7 (by decide)

end EmitAnsi

end LLDBGhidra
