import LLDBGhidra.Decompiler.Address
import LLDBGhidra.Library.Effect

/-
  Emitters of source code (`prettyprint.hh`,
  `prettyprint.cc`).  The objects of the program that tokens
  are tagged with are left out: no emitter here reads them.
  No pending print is ever set here, so `emitPending` does
  nothing.

  Main declarations:
    * `EmitCall`
    * `Emit`
    * `EmitNoMarkup.emit`
    * `TokenSplit`
    * `EmitPrettyPrint.emit`
-/

------------------------------------------------------------
-- Calls of Emitters
------------------------------------------------------------

namespace LLDBGhidra

/- `syntax_highlight`; `other` is a value outside of it. -/
inductive SyntaxHighlight where
| keywordColor : SyntaxHighlight
| commentColor : SyntaxHighlight
| typeColor : SyntaxHighlight
| funcnameColor : SyntaxHighlight
| varColor : SyntaxHighlight
| constColor : SyntaxHighlight
| paramColor : SyntaxHighlight
| globalColor : SyntaxHighlight
| noColor : SyntaxHighlight
| errorColor : SyntaxHighlight
| specialColor : SyntaxHighlight
| other : SyntaxHighlight
deriving DecidableEq, Repr

/- The text of a token. -/
abbrev Text :=
  List Char

/- A call of a method of an emitter, with its arguments. -/
inductive EmitCall where
| beginDocument : EmitCall
| endDocument : (id : Int) → EmitCall
| beginFunction : EmitCall
| endFunction : (id : Int) → EmitCall
| beginBlock : EmitCall
| endBlock : (id : Int) → EmitCall
| tagLine : EmitCall
| tagLineIndent : (indent : Int) → EmitCall
| beginReturnType : EmitCall
| endReturnType : (id : Int) → EmitCall
| beginVarDecl : EmitCall
| endVarDecl : (id : Int) → EmitCall
| beginStatement : EmitCall
| endStatement : (id : Int) → EmitCall
| beginFuncProto : EmitCall
| endFuncProto : (id : Int) → EmitCall
| tagVariable : (name : Text) → SyntaxHighlight → EmitCall
| tagOp : (name : Text) → SyntaxHighlight → EmitCall
| tagFuncName : (name : Text) → SyntaxHighlight → EmitCall
| tagType : (name : Text) → SyntaxHighlight → EmitCall
| tagField : (name : Text) → SyntaxHighlight → EmitCall
| tagComment : (name : Text) → SyntaxHighlight → EmitCall
| tagLabel : (name : Text) → SyntaxHighlight → EmitCall
| tagCaseLabel : (name : Text) → SyntaxHighlight → EmitCall
| print : (data : Text) → SyntaxHighlight → EmitCall
| openParen : (paren : Text) → (id : Int) → EmitCall
| closeParen : (paren : Text) → (id : Int) → EmitCall
| openGroup : EmitCall
| closeGroup : (id : Int) → EmitCall
| clear : EmitCall
| spaces : (num bump : Int) → EmitCall
| startIndent : EmitCall
| stopIndent : (id : Int) → EmitCall
| startComment : EmitCall
| stopComment : (id : Int) → EmitCall
| flush : EmitCall
| setMaxLineSize : (mls : Int) → EmitCall
| setCommentFill : (fill : Text) → EmitCall
| resetDefaults : EmitCall
| setIndentIncrement : (val : Int) → EmitCall
deriving DecidableEq, Repr

/-
  An emitter with states of type `σ`.  A call returns an id,
  or nothing.
-/
structure Emit (σ : Type) where
  call : EmitCall → Effect Exn σ (Option Int)

namespace Emit

/-
  The results of a sequence of calls, and the final state.
  An error does not keep the calls after it from being made.
-/
def run
    {σ : Type}
    (emit : Emit σ)
    (calls : List EmitCall)
    (state : σ) : List (Except Exn (Option Int)) × σ :=
  match calls with
  | [] => ([], state)
  | call :: rest =>
      let first := (emit.call call).run state
      let others := emit.run rest first.2
      (first.1 :: others.1, others.2)

end Emit

end LLDBGhidra

------------------------------------------------------------
-- Emitters to a Stream
------------------------------------------------------------

namespace LLDBGhidra

/- The fields of `Emit`. -/
structure EmitBase where
  indentlevel : Int
  parenlevel : Int
  indentincrement : Int
deriving DecidableEq, Repr

namespace EmitBase

/- The constructor. -/
def initial : EmitBase :=
  { indentlevel := 0
    parenlevel := 0
    indentincrement := 2 }

def clear
    (base : EmitBase) : EmitBase :=
  { base with
    parenlevel := 0
    indentlevel := 0 }

def resetDefaultsInternal
    (base : EmitBase) : EmitBase :=
  { base with indentincrement := 2 }

end EmitBase

/- An emitter that writes to a stream. -/
structure EmitStream where
  base : EmitBase
  s : Text
deriving DecidableEq, Repr

namespace EmitStream

abbrev M :=
  Effect Exn EmitStream

def initial : EmitStream :=
  { base := EmitBase.initial
    s := [] }

/- Write to the stream. -/
def write
    (text : Text) : M Unit :=
  Effect.modify (fun stream =>
    { stream with s := stream.s ++ text })

/- Change the fields of `Emit`. -/
def modifyBase
    (change : EmitBase → EmitBase) : M Unit :=
  Effect.modify (fun stream =>
    { stream with base := change stream.base })

/-
  The methods that are inherited from `Emit`.  `print` is
  virtual.  No text has a negative number of spaces.
-/
def inherited
    (print : Text → SyntaxHighlight → M Unit)
    (call : EmitCall) : M (Option Int) :=
  match call with
  | .openGroup => pure (some 0)
  | .clear => do
      modifyBase EmitBase.clear
      pure none
  | .spaces num _ => do
      print (List.replicate num.toNat ' ') .noColor
      pure none
  | .startIndent => do
      modifyBase (fun base =>
        { base with
          indentlevel :=
            base.indentlevel + base.indentincrement })
      pure (some 0)
  | .stopIndent _ => do
      modifyBase (fun base =>
        { base with
          indentlevel :=
            base.indentlevel - base.indentincrement })
      pure none
  | .startComment => pure (some 0)
  | .resetDefaults => do
      modifyBase EmitBase.resetDefaultsInternal
      pure none
  | .setIndentIncrement val => do
      modifyBase (fun base =>
        { base with indentincrement := val })
      pure none
  -- the other methods do nothing in `Emit`
  | _ => pure none

end EmitStream

namespace EmitNoMarkup

open EmitStream

/- Write a token. -/
def tag
    (name : Text) : M (Option Int) := do
  write name
  pure none

def print
    (data : Text)
    (_hl : SyntaxHighlight) : M Unit :=
  write data

/- Start a line with an indent. -/
def line
    (indent : Int) : M (Option Int) := do
  write ['\n']
  write (List.replicate indent.toNat ' ')
  pure none

/- The methods of the class. -/
def call
    (call : EmitCall) : M (Option Int) :=
  match call with
  | .beginDocument => pure (some 0)
  | .endDocument _ => pure none
  | .beginFunction => pure (some 0)
  | .endFunction _ => pure none
  | .beginBlock => pure (some 0)
  | .endBlock _ => pure none
  | .tagLine => do
      let indentlevel ←
        Effect.gets (fun stream => stream.base.indentlevel)
      line indentlevel
  | .tagLineIndent indent => line indent
  | .beginReturnType => pure (some 0)
  | .endReturnType _ => pure none
  | .beginVarDecl => pure (some 0)
  | .endVarDecl _ => pure none
  | .beginStatement => pure (some 0)
  | .endStatement _ => pure none
  | .beginFuncProto => pure (some 0)
  | .endFuncProto _ => pure none
  | .tagVariable name _ => tag name
  | .tagOp name _ => tag name
  | .tagFuncName name _ => tag name
  | .tagType name _ => tag name
  | .tagField name _ => tag name
  | .tagComment name _ => tag name
  | .tagLabel name _ => tag name
  | .tagCaseLabel name _ => tag name
  | .print data hl => do
      print data hl
      pure none
  | .openParen paren id => do
      write paren
      modifyBase (fun base =>
        { base with parenlevel := base.parenlevel + 1 })
      pure (some id)
  | .closeParen paren _ => do
      write paren
      modifyBase (fun base =>
        { base with parenlevel := base.parenlevel - 1 })
      pure none
  | call => inherited print call

def emit : Emit EmitStream :=
  { call := call }

end EmitNoMarkup

end LLDBGhidra

------------------------------------------------------------
-- Tokens of the Pretty Printer
------------------------------------------------------------

namespace LLDBGhidra

/- `TokenSplit::printclass`. -/
inductive PrintClass where
| begin : PrintClass
| close : PrintClass
| tokenString : PrintClass
| tokenBreak : PrintClass
| beginIndent : PrintClass
| endIndent : PrintClass
| beginComment : PrintClass
| endComment : PrintClass
| ignore : PrintClass
deriving DecidableEq, Repr

/-
  `TokenSplit::tag_type`, by the method of the low-level
  emitter that prints the token.
-/
inductive TagType where
| docuB : TagType
| docuE : TagType
| funcB : TagType
| funcE : TagType
| blocB : TagType
| blocE : TagType
| rtypB : TagType
| rtypE : TagType
| vardB : TagType
| vardE : TagType
| statB : TagType
| statE : TagType
| protB : TagType
| protE : TagType
| variT : TagType
| opT : TagType
| fnamT : TagType
| typeT : TagType
| fieldT : TagType
| commT : TagType
| labelT : TagType
| caseT : TagType
| syntT : TagType
| oparT : TagType
| cparT : TagType
| oinvT : TagType
| cinvT : TagType
| spacT : TagType
| bumpT : TagType
| lineT : TagType
deriving DecidableEq, Repr

/- A token or a command in the stream. -/
structure TokenSplit where
  tagtype : TagType
  delimtype : PrintClass
  tok : Text
  hl : SyntaxHighlight
  indentbump : Int
  numspaces : Int
  size : Int
  count : Int
deriving DecidableEq, Repr

namespace TokenSplit

/- A token that is not set yet. -/
def blank : TokenSplit :=
  { tagtype := .docuB
    delimtype := .begin
    tok := []
    hl := .noColor
    indentbump := 0
    numspaces := 0
    size := 0
    count := 0 }

instance : Inhabited TokenSplit :=
  ⟨blank⟩

/- A command with an id. -/
def command
    (tagtype : TagType)
    (delimtype : PrintClass)
    (id : Int) : TokenSplit :=
  { blank with
    tagtype := tagtype
    delimtype := delimtype
    count := id }

/- A token with characters and a highlight. -/
def content
    (tagtype : TagType)
    (name : Text)
    (hl : SyntaxHighlight) : TokenSplit :=
  { blank with
    tagtype := tagtype
    delimtype := .tokenString
    tok := name
    size := name.length
    hl := hl }

def print
    (data : Text)
    (hl : SyntaxHighlight) : TokenSplit :=
  content .syntT data hl

/- A parenthesis counts as one character. -/
def paren
    (tagtype : TagType)
    (paren : Text)
    (id : Int) : TokenSplit :=
  { blank with
    tagtype := tagtype
    delimtype := .tokenString
    tok := paren
    size := 1
    count := id }

def startIndent
    (bump id : Int) : TokenSplit :=
  { blank with
    tagtype := .bumpT
    delimtype := .beginIndent
    indentbump := bump
    count := id }

def spaces
    (num bump : Int) : TokenSplit :=
  { blank with
    tagtype := .spacT
    delimtype := .tokenBreak
    numspaces := num
    indentbump := bump }

def tagLine : TokenSplit :=
  { blank with
    tagtype := .bumpT
    delimtype := .tokenBreak
    numspaces := 999999
    indentbump := 0 }

def tagLineIndent
    (indent : Int) : TokenSplit :=
  { blank with
    tagtype := .lineT
    delimtype := .tokenBreak
    numspaces := 999999
    indentbump := indent }

/- The call that prints the token, if there is one. -/
def printCall
    (token : TokenSplit) : Except Exn (Option EmitCall) :=
  match token.tagtype with
  | .docuB => .ok (some .beginDocument)
  | .docuE => .ok (some (.endDocument token.count))
  | .funcB => .ok (some .beginFunction)
  | .funcE => .ok (some (.endFunction token.count))
  | .blocB => .ok (some .beginBlock)
  | .blocE => .ok (some (.endBlock token.count))
  | .rtypB => .ok (some .beginReturnType)
  | .rtypE => .ok (some (.endReturnType token.count))
  | .vardB => .ok (some .beginVarDecl)
  | .vardE => .ok (some (.endVarDecl token.count))
  | .statB => .ok (some .beginStatement)
  | .statE => .ok (some (.endStatement token.count))
  | .protB => .ok (some .beginFuncProto)
  | .protE => .ok (some (.endFuncProto token.count))
  | .variT => .ok (some (.tagVariable token.tok token.hl))
  | .opT => .ok (some (.tagOp token.tok token.hl))
  | .fnamT => .ok (some (.tagFuncName token.tok token.hl))
  | .typeT => .ok (some (.tagType token.tok token.hl))
  | .fieldT => .ok (some (.tagField token.tok token.hl))
  | .commT => .ok (some (.tagComment token.tok token.hl))
  | .labelT => .ok (some (.tagLabel token.tok token.hl))
  | .caseT => .ok (some (.tagCaseLabel token.tok token.hl))
  | .syntT => .ok (some (.print token.tok token.hl))
  | .oparT => .ok (some (.openParen token.tok token.count))
  | .cparT => .ok (some (.closeParen token.tok token.count))
  | .oinvT => .ok none
  | .cinvT => .ok none
  | .spacT => .ok (some (.spaces token.numspaces 0))
  | .bumpT =>
      .error (.lowlevelError .lowlevel
        "Should never get called")
  | .lineT =>
      .error (.lowlevelError .lowlevel
        "Should never get called")

end TokenSplit

end LLDBGhidra

------------------------------------------------------------
-- Circular Queues
------------------------------------------------------------

namespace LLDBGhidra

/- `circularqueue`: an array and its leftmost and rightmost. -/
structure CircularQueue (α : Type) where
  cache : Nat → α
  left : Nat
  right : Nat
  max : Nat

namespace CircularQueue

variable {α : Type} [Inhabited α]

/- An empty queue. -/
def new
    (sz : Nat) : CircularQueue α :=
  { cache := fun _ => default
    left := 1
    right := 0
    max := sz }

omit [Inhabited α] in
def clear
    (queue : CircularQueue α) : CircularQueue α :=
  { queue with
    left := 1
    right := 0 }

/- Another size throws the objects away. -/
def setMax
    (sz : Nat)
    (queue : CircularQueue α) : CircularQueue α :=
  if queue.max ≠ sz then new sz else queue.clear

/- The objects are moved to the start of a bigger array. -/
def expand
    (amount : Nat)
    (queue : CircularQueue α) : CircularQueue α :=
  let last := (queue.right + queue.max - queue.left) % queue.max
  { cache := fun index =>
      if index ≤ last then
        queue.cache ((queue.left + index) % queue.max)
      else
        default
    left := 0
    right := last
    max := queue.max + amount }

omit [Inhabited α] in
/- Also true of a queue that is full. -/
def empty
    (queue : CircularQueue α) : Bool :=
  queue.left = (queue.right + 1) % queue.max

omit [Inhabited α] in
def top
    (queue : CircularQueue α) : α :=
  queue.cache queue.right

omit [Inhabited α] in
def bottom
    (queue : CircularQueue α) : α :=
  queue.cache queue.left

omit [Inhabited α] in
/- Replace the object at a reference. -/
def set
    (ref : Nat)
    (value : α)
    (queue : CircularQueue α) : CircularQueue α :=
  { queue with
    cache := fun index =>
      if index = ref then value else queue.cache index }

omit [Inhabited α] in
def push
    (value : α)
    (queue : CircularQueue α) : CircularQueue α :=
  let right := (queue.right + 1) % queue.max
  { queue.set right value with right := right }

omit [Inhabited α] in
def pop
    (queue : CircularQueue α) : CircularQueue α :=
  { queue with
    right := (queue.right + queue.max - 1) % queue.max }

omit [Inhabited α] in
def popbottom
    (queue : CircularQueue α) : CircularQueue α :=
  { queue with left := (queue.left + 1) % queue.max }

end CircularQueue

end LLDBGhidra

------------------------------------------------------------
-- The Pretty Printer
------------------------------------------------------------

namespace LLDBGhidra

/-
  The fields of the pretty printer other than its low-level
  emitter, with the counter of its ids.  The last indent level
  is the first of the stack.
-/
structure PrettyState where
  base : EmitBase
  indentstack : List Int
  spaceremain : Int
  maxlinesize : Int
  leftotal : Int
  rightotal : Int
  needbreak : Bool
  commentmode : Bool
  commentfill : Text
  scanqueue : CircularQueue Nat
  tokqueue : CircularQueue TokenSplit
  countbase : Int

namespace PrettyState

/-
  The fields after the constructor, for lines of 100.  The
  counter is static: printers before have counted on it.
-/
def initial
    (countbase : Int) : PrettyState :=
  { base := EmitBase.initial
    indentstack := []
    spaceremain := 100
    maxlinesize := 100
    leftotal := 1
    rightotal := 1
    needbreak := false
    commentmode := false
    commentfill := []
    scanqueue := CircularQueue.new 300
    tokqueue := CircularQueue.new 300
    countbase := countbase }

/- Add a token. -/
def push
    (token : TokenSplit)
    (state : PrettyState) : PrettyState :=
  { state with tokqueue := state.tokqueue.push token }

/- Set the size of the token at a reference. -/
def setSize
    (ref : Nat)
    (size : Int)
    (state : PrettyState) : PrettyState :=
  { state with
    tokqueue :=
      state.tokqueue.set ref
        { state.tokqueue.cache ref with size := size } }

/- Add `rightotal` to the size of the token at a reference. -/
def addRightotal
    (ref : Nat)
    (state : PrettyState) : PrettyState :=
  state.setSize ref
    ((state.tokqueue.cache ref).size + state.rightotal)

/- Room for 200 more tokens; references are adjusted. -/
def expand
    (state : PrettyState) : PrettyState :=
  let max := state.tokqueue.max
  let left := state.tokqueue.left
  let adjusted : CircularQueue Nat :=
    { state.scanqueue with
      cache := fun index =>
        if index < max then
          (state.scanqueue.cache index + max - left) % max
        else
          state.scanqueue.cache index }
  { state with
    tokqueue := state.tokqueue.expand 200
    scanqueue := adjusted.expand 200 }

/- Is the class one of a break? -/
def isBreak
    (ref : Nat)
    (state : PrettyState) : Bool :=
  (state.tokqueue.cache ref).delimtype = .tokenBreak

/- Start counting anew when nothing is open. -/
def restart
    (state : PrettyState) : PrettyState :=
  if state.scanqueue.empty then
    { state with
      leftotal := 1
      rightotal := 1 }
  else
    state

/- The last token is open, with its size to be found. -/
def openLast
    (state : PrettyState) : PrettyState :=
  let ref := state.tokqueue.right
  let sized := state.setSize ref (-state.rightotal)
  { sized with scanqueue := state.scanqueue.push ref }

/- Close the last open group, and the break before it. -/
def closeGroup
    (state : PrettyState) : PrettyState :=
  let ref := state.scanqueue.top
  let popped :=
    { state with scanqueue := state.scanqueue.pop }
  let closed := popped.addRightotal ref
  if closed.isBreak ref && !closed.scanqueue.empty then
    let ref2 := closed.scanqueue.top
    { closed with scanqueue := closed.scanqueue.pop }
      |>.addRightotal ref2
  else
    closed

/- Close a break that the next one follows. -/
def closeBreak
    (state : PrettyState) : PrettyState :=
  if state.scanqueue.empty then
    state.restart
  else
    let ref := state.scanqueue.top
    if state.isBreak ref then
      { state with scanqueue := state.scanqueue.pop }
        |>.addRightotal ref
    else
      state

/- Commit the first open group to being broken. -/
def commitBottom
    (state : PrettyState) : PrettyState :=
  let ref := state.scanqueue.bottom
  { state with scanqueue := state.scanqueue.popbottom }
    |>.setSize ref 999999

/- Take the first token away, and count it as committed. -/
def popToken
    (token : TokenSplit)
    (state : PrettyState) : PrettyState :=
  let amount :=
    match token.delimtype with
    | .tokenBreak => token.numspaces
    | .tokenString => token.size
    | _ => 0
  { state with
    leftotal := state.leftotal + amount
    tokqueue := state.tokqueue.popbottom }

/- At least half of the line for the last indent levels. -/
def raiseIndents
    (half : Int)
    (indents : List Int) : List Int :=
  match indents with
  | [] => []
  | indent :: rest =>
      if indent < half then
        half :: raiseIndents half rest
      else
        indent :: rest

/- `clear` of the fields other than the low-level emitter. -/
def clear
    (state : PrettyState) : PrettyState :=
  { state with
    base := state.base.clear
    indentstack := []
    scanqueue := state.scanqueue.clear
    tokqueue := state.tokqueue.clear
    leftotal := 1
    rightotal := 1
    needbreak := false
    commentmode := false
    spaceremain := state.maxlinesize }

end PrettyState

/- A pretty printer and its low-level emitter. -/
structure EmitPrettyPrint (σ : Type) where
  own : PrettyState
  lowlevel : σ

namespace EmitPrettyPrint

variable {σ : Type}

abbrev M (σ : Type) :=
  Effect Exn (EmitPrettyPrint σ)

def initial
    (countbase : Int)
    (lowlevel : σ) : EmitPrettyPrint σ :=
  { own := PrettyState.initial countbase
    lowlevel := lowlevel }

/- Read the own fields. -/
def gets
    {α : Type}
    (read : PrettyState → α) : M σ α :=
  Effect.gets (fun state => read state.own)

/- Change the own fields. -/
def modify
    (change : PrettyState → PrettyState) : M σ Unit :=
  Effect.modify (fun state =>
    { state with own := change state.own })

/- Call the low-level emitter. -/
def low
    (emit : Emit σ)
    (call : EmitCall) : M σ Unit :=
  ⟨fun state =>
    match (emit.call call).run state.lowlevel with
    | (.ok _, lowlevel) =>
        (.ok (), { state with lowlevel := lowlevel })
    | (.error error, lowlevel) =>
        (.error error, { state with lowlevel := lowlevel })⟩

/- The last element of an empty vector is not defined. -/
def undefined
    {α : Type} : M σ α :=
  Effect.throw (.stdException "last of an empty vector")

/- `indentstack.back()`. -/
def indentBack : M σ Int := do
  let indentstack ← gets PrettyState.indentstack
  match indentstack with
  | [] => undefined
  | indent :: _ => pure indent

/- `indentstack.push_back`. -/
def pushIndent
    (indent : Int) : M σ Unit :=
  modify (fun state =>
    { state with indentstack := indent :: state.indentstack })

/- `indentstack.pop_back()`. -/
def popIndent : M σ Unit := do
  let indentstack ← gets PrettyState.indentstack
  match indentstack with
  | [] => undefined
  | _ :: rest =>
      modify (fun state => { state with indentstack := rest })

/- Use up some of the space that remains. -/
def useSpace
    (amount : Int) : M σ Unit :=
  modify (fun state =>
    { state with spaceremain := state.spaceremain - amount })

/- Start a line with what remains of it as its space. -/
def startLine
    (emit : Emit σ) : M σ Unit := do
  let indent ← gets (fun state =>
    state.maxlinesize - state.spaceremain)
  low emit (.tagLineIndent indent)
  let fill ← gets (fun state =>
    if state.commentmode then state.commentfill else [])
  if fill.length ≠ 0 then do
    low emit (.print fill .commentColor)
    useSpace fill.length
  else
    pure ()

/- Print a token that needs no space. -/
def printToken
    (emit : Emit σ)
    (token : TokenSplit) : M σ Unit :=
  match token.printCall with
  | .error error => Effect.throw error
  | .ok none => pure ()
  | .ok (some call) => low emit call

/-
  Raise the indent levels so that a token that does not fit
  has at least half a line, if that gives it any more space.
-/
def overflow
    (emit : Emit σ) : M σ Unit := do
  modify (fun state =>
    { state with
      indentstack :=
        PrettyState.raiseIndents (state.maxlinesize / 2)
          state.indentstack })
  let newspaceremain ← gets (fun state =>
    state.indentstack.headD state.maxlinesize)
  let stays ← gets (fun state =>
    decide (newspaceremain = state.spaceremain ∨
      (state.commentmode = true ∧
        newspaceremain =
          state.spaceremain + state.commentfill.length)))
  if stays then
    pure ()
  else do
    modify (fun state =>
      { state with spaceremain := newspaceremain })
    startLine emit

/- Break the line before a token that does not fit. -/
def makeRoom
    (emit : Emit σ)
    (size : Int) : M σ Unit := do
  let full ← gets (fun state =>
    decide (state.spaceremain < size))
  if full then
    overflow emit
  else
    pure ()

/- Print the spaces of a break. -/
def printSpaces
    (emit : Emit σ)
    (token : TokenSplit) : M σ Unit := do
  low emit (.spaces token.numspaces 0)
  useSpace token.numspaces

/- Print a break whose group does not fit in the line. -/
def printBreak
    (emit : Emit σ)
    (token : TokenSplit) : M σ Unit :=
  if token.tagtype = .lineT then do
    modify (fun state =>
      { state with
        spaceremain := state.maxlinesize - token.indentbump })
    startLine emit
  else do
    let back ← indentBack
    let val := back - token.indentbump
    -- a line break has to save some space
    let stays ← gets (fun state =>
      decide (token.numspaces ≤ state.spaceremain ∧
        val - state.spaceremain < 10))
    if stays then
      printSpaces emit token
    else do
      popIndent
      pushIndent val
      modify (fun state => { state with spaceremain := val })
      startLine emit

/- Print a token, and adjust the indent levels. -/
def print
    (emit : Emit σ)
    (token : TokenSplit) : M σ Unit :=
  match token.delimtype with
  | .ignore => printToken emit token
  | .beginIndent => do
      let back ← indentBack
      pushIndent (back - token.indentbump)
  | .beginComment => do
      modify (fun state => { state with commentmode := true })
      printToken emit token
      let spaceremain ← gets PrettyState.spaceremain
      pushIndent spaceremain
  | .begin => do
      printToken emit token
      let spaceremain ← gets PrettyState.spaceremain
      pushIndent spaceremain
  | .endIndent => do
      let indentstack ← gets PrettyState.indentstack
      if indentstack.isEmpty then
        Effect.throw (.lowlevelError .lowlevel "indent error")
      else
        popIndent
  | .endComment => do
      modify (fun state => { state with commentmode := false })
      printToken emit token
      popIndent
  | .close => do
      printToken emit token
      popIndent
  | .tokenString => do
      makeRoom emit token.size
      printToken emit token
      useSpace token.size
  | .tokenBreak => do
      let full ← gets (fun state =>
        decide (state.spaceremain < token.size))
      if full then
        printBreak emit token
      else
        printSpaces emit token

/-
  Print the tokens that are committed.  Each round takes one
  out of the queue, so its capacity bounds their number.
-/
def advanceleftLoop
    (emit : Emit σ)
    (rounds : Nat) : M σ Unit :=
  match rounds with
  | 0 => pure ()
  | rounds + 1 => do
      let token ← gets (fun state => state.tokqueue.bottom)
      if 0 ≤ token.size then do
        print emit token
        modify (PrettyState.popToken token)
        let done ← gets (fun state => state.tokqueue.empty)
        if done then pure () else advanceleftLoop emit rounds
      else
        pure ()

def advanceleft
    (emit : Emit σ) : M σ Unit := do
  let capacity ← gets (fun state => state.tokqueue.max)
  advanceleftLoop emit capacity

/- Break open groups while the line is too long. -/
def commitLoop
    (emit : Emit σ)
    (rounds : Nat) : M σ Unit :=
  match rounds with
  | 0 => pure ()
  | rounds + 1 => do
      let full ← gets (fun state =>
        decide (state.spaceremain <
          state.rightotal - state.leftotal))
      if full then do
        modify PrettyState.commitBottom
        advanceleft emit
        let done ← gets (fun state => state.scanqueue.empty)
        if done then pure () else commitLoop emit rounds
      else
        pure ()

/- Process the token that was just added. -/
def scan
    (emit : Emit σ) : M σ Unit := do
  modify (fun state =>
    if state.tokqueue.empty then state.expand else state)
  let token ← gets (fun state => state.tokqueue.top)
  let scanning ← gets (fun state => !state.scanqueue.empty)
  match token.delimtype with
  | .beginComment =>
      modify (fun state => state.restart.openLast)
  | .begin => modify (fun state => state.restart.openLast)
  | .endComment => scanEnd scanning
  | .close => scanEnd scanning
  | .tokenBreak =>
      modify (fun state =>
        let opened := state.closeBreak.openLast
        { opened with
          rightotal := opened.rightotal + token.numspaces })
  | .beginIndent => setTopSize
  | .endIndent => setTopSize
  | .ignore => setTopSize
  | .tokenString =>
      if scanning then do
        modify (fun state =>
          { state with
            rightotal := state.rightotal + token.size })
        let capacity ← gets (fun state => state.scanqueue.max)
        commitLoop emit capacity
      else
        pure ()
where
  /- The token takes no space. -/
  setTopSize : M σ Unit :=
    modify (fun state => state.setSize state.tokqueue.right 0)
  /- Close a group; print all when it was the last one. -/
  scanEnd
      (scanning : Bool) : M σ Unit := do
    setTopSize
    if scanning then do
      modify PrettyState.closeGroup
      let done ← gets (fun state => state.scanqueue.empty)
      if done then advanceleft emit else pure ()
    else
      pure ()

/- Add a token and process it. -/
def add
    (emit : Emit σ)
    (token : TokenSplit) : M σ Unit := do
  modify (PrettyState.push token)
  scan emit

def setNeedbreak
    (needbreak : Bool) : M σ Unit :=
  modify (fun state => { state with needbreak := needbreak })

/- White space if the last content needs it. -/
def checkSpace
    (emit : Emit σ) : M σ Unit := do
  let needbreak ← gets PrettyState.needbreak
  if needbreak then
    add emit (.spaces 0 0)
  else
    pure ()

/- A blank string if there is no content to end. -/
def checkContent
    (emit : Emit σ) : M σ Unit := do
  let needbreak ← gets PrettyState.needbreak
  if needbreak then
    pure ()
  else
    add emit (.print [] .noColor)

def checkstart
    (emit : Emit σ) : M σ Unit := do
  checkSpace emit
  setNeedbreak false

def checkstring
    (emit : Emit σ) : M σ Unit := do
  checkSpace emit
  setNeedbreak true

def checkend
    (emit : Emit σ) : M σ Unit := do
  checkContent emit
  setNeedbreak true

def checkbreak
    (emit : Emit σ) : M σ Unit := do
  checkContent emit
  setNeedbreak false

/- Add a token with a new id, which is returned. -/
def addNew
    (emit : Emit σ)
    (token : Int → TokenSplit) : M σ (Option Int) := do
  let id ← gets PrettyState.countbase
  modify (fun state =>
    { state with countbase := state.countbase + 1 })
  add emit (token id)
  pure (some id)

/- Start a group with a command. -/
def beginGroup
    (emit : Emit σ)
    (tagtype : TagType)
    (delimtype : PrintClass) : M σ (Option Int) := do
  checkstart emit
  addNew emit (.command tagtype delimtype)

/- End a group with a command. -/
def endGroup
    (emit : Emit σ)
    (tagtype : TagType)
    (delimtype : PrintClass)
    (id : Int) : M σ (Option Int) := do
  checkend emit
  add emit (.command tagtype delimtype id)
  pure none

/- Add content. -/
def tag
    (emit : Emit σ)
    (tagtype : TagType)
    (name : Text)
    (hl : SyntaxHighlight) : M σ (Option Int) := do
  checkstring emit
  add emit (.content tagtype name hl)
  pure none

/- Add a break. -/
def tagBreak
    (emit : Emit σ)
    (token : TokenSplit) : M σ (Option Int) := do
  checkbreak emit
  add emit token
  pure none

/- Print what is left; every group has to be closed. -/
def flushLoop
    (emit : Emit σ)
    (rounds : Nat) : M σ Unit :=
  match rounds with
  | 0 => pure ()
  | rounds + 1 => do
      let done ← gets (fun state => state.tokqueue.empty)
      if done then
        pure ()
      else do
        let token ← gets (fun state => state.tokqueue.bottom)
        modify (fun state =>
          { state with
            tokqueue := state.tokqueue.popbottom })
        if token.size < 0 then
          Effect.throw (.lowlevelError .lowlevel
            "Cannot flush pretty printer. Missing group end")
        else do
          print emit token
          flushLoop emit rounds

def clear
    (emit : Emit σ) : M σ Unit := do
  low emit .clear
  modify PrettyState.clear

def setMaxLineSize
    (emit : Emit σ)
    (val : Int) : M σ Unit :=
  if val < 20 ∨ 10000 < val then
    Effect.throw (.lowlevelError .lowlevel
      "Bad maximum line size")
  else do
    modify (fun state =>
      { state with
        maxlinesize := val
        scanqueue := state.scanqueue.setMax (3 * val.toNat)
        tokqueue := state.tokqueue.setMax (3 * val.toNat)
        spaceremain := val })
    clear emit

/- The methods of the class. -/
def call
    (emit : Emit σ)
    (call : EmitCall) : M σ (Option Int) :=
  match call with
  | .beginDocument => beginGroup emit .docuB .begin
  | .endDocument id => endGroup emit .docuE .close id
  | .beginFunction => beginGroup emit .funcB .begin
  | .endFunction id => endGroup emit .funcE .close id
  | .beginBlock => addNew emit (.command .blocB .ignore)
  | .endBlock id => do
      add emit (.command .blocE .ignore id)
      pure none
  | .tagLine => tagBreak emit .tagLine
  | .tagLineIndent indent =>
      tagBreak emit (.tagLineIndent indent)
  | .beginReturnType => beginGroup emit .rtypB .begin
  | .endReturnType id => endGroup emit .rtypE .close id
  | .beginVarDecl => beginGroup emit .vardB .begin
  | .endVarDecl id => endGroup emit .vardE .close id
  | .beginStatement => beginGroup emit .statB .begin
  | .endStatement id => endGroup emit .statE .close id
  | .beginFuncProto => beginGroup emit .protB .begin
  | .endFuncProto id => endGroup emit .protE .close id
  | .tagVariable name hl => tag emit .variT name hl
  | .tagOp name hl => tag emit .opT name hl
  | .tagFuncName name hl => tag emit .fnamT name hl
  | .tagType name hl => tag emit .typeT name hl
  | .tagField name hl => tag emit .fieldT name hl
  | .tagComment name hl => tag emit .commT name hl
  | .tagLabel name hl => tag emit .labelT name hl
  | .tagCaseLabel name hl => tag emit .caseT name hl
  | .print data hl => tag emit .syntT data hl
  | .openParen paren _ => do
      checkstart emit
      let id ← gets PrettyState.countbase
      let opened ← addNew emit (.command .oinvT .begin)
      add emit (.paren .oparT paren id)
      setNeedbreak true
      pure opened
  | .closeParen paren id => do
      checkstring emit
      add emit (.paren .cparT paren id)
      endGroup emit .cinvT .close id
  | .openGroup => beginGroup emit .oinvT .begin
  | .closeGroup id => endGroup emit .cinvT .close id
  | .clear => do
      clear emit
      pure none
  | .spaces num bump => tagBreak emit (.spaces num bump)
  | .startIndent => do
      let increment ← gets (fun state =>
        state.base.indentincrement)
      addNew emit (.startIndent increment)
  | .stopIndent id => do
      add emit (.command .bumpT .endIndent id)
      pure none
  | .startComment => beginGroup emit .oinvT .beginComment
  | .stopComment id => endGroup emit .cinvT .endComment id
  | .flush => do
      let capacity ← gets (fun state => state.tokqueue.max)
      flushLoop emit capacity
      setNeedbreak false
      low emit .flush
      pure none
  | .setMaxLineSize mls => do
      setMaxLineSize emit mls
      pure none
  | .setCommentFill fill => do
      modify (fun state => { state with commentfill := fill })
      pure none
  | .resetDefaults => do
      low emit .resetDefaults
      modify (fun state =>
        { state with
          base := state.base.resetDefaultsInternal })
      setMaxLineSize emit 100
      pure none
  | .setIndentIncrement val => do
      modify (fun state =>
        { state with
          base :=
            { state.base with indentincrement := val } })
      pure none

/- A pretty printer over a low-level emitter. -/
def emit
    (lowlevel : Emit σ) : Emit (EmitPrettyPrint σ) :=
  { call := call lowlevel }

end EmitPrettyPrint

end LLDBGhidra
