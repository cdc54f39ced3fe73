import Mathlib.Data.List.Basic

/-
  A terminal that understands the escape sequences for the
  graphic rendition: what it shows of a text, and how.

  Main declarations:
    * `Terminal.feed`
    * `Terminal.strip`
    * `Terminal.feed_plain`
    * `Terminal.feed_sequence`
-/

------------------------------------------------------------
-- Graphic Renditions
------------------------------------------------------------

namespace Terminal

/- How characters are shown; the color may be the default. -/
structure Rendition where
  bold : Bool
  dim : Bool
  italic : Bool
  color : Option Nat
deriving DecidableEq, Repr

namespace Rendition

def default : Rendition :=
  { bold := false
    dim := false
    italic := false
    color := none }

/- Select one rendition; unknown ones change nothing. -/
def select
    (parameter : Nat)
    (rendition : Rendition) : Rendition :=
  if parameter = 0 then
    default
  else if parameter = 1 then
    { rendition with bold := true }
  else if parameter = 2 then
    { rendition with dim := true }
  else if parameter = 3 then
    { rendition with italic := true }
  else if 30 ≤ parameter ∧ parameter ≤ 37 then
    { rendition with color := some parameter }
  else
    rendition

/-
  Select the renditions of a list of numbers separated by
  semicolons; an empty number is zero.
-/
def selectAll
    (parameters : List Char)
    (number : Nat)
    (rendition : Rendition) : Rendition :=
  match parameters with
  | [] => rendition.select number
  | c :: rest =>
      if c = ';' then
        (rendition.select number).selectAll rest 0
      else
        rendition.selectAll rest
          (number * 10 + (c.toNat - '0'.toNat))

end Rendition

end Terminal

------------------------------------------------------------
-- Terminals
------------------------------------------------------------

/-
  What has been read of an escape sequence: nothing, the
  escape character, or its parameters up to now.
-/
inductive Terminal.Mode where
| ground : Terminal.Mode
| escape : Terminal.Mode
| sequence : (parameters : List Char) → Terminal.Mode
deriving DecidableEq, Repr

structure Terminal where
  mode : Terminal.Mode
  shown : List Char
  rendition : Terminal.Rendition
deriving DecidableEq, Repr

namespace Terminal

/- The escape character. -/
def esc : Char :=
  Char.ofNat 27

/- A terminal that shows a text and waits for more. -/
def showing
    (shown : List Char) : Terminal :=
  { mode := .ground
    shown := shown
    rendition := .default }

/- Read one character. -/
def step
    (terminal : Terminal)
    (c : Char) : Terminal :=
  match terminal.mode with
  | .ground =>
      if c = esc then
        { terminal with mode := .escape }
      else
        { terminal with shown := terminal.shown ++ [c] }
  | .escape =>
      if c = '[' then
        { terminal with mode := .sequence [] }
      else if c = esc then
        { terminal with shown := terminal.shown ++ [esc] }
      else
        { terminal with
          mode := .ground
          shown := terminal.shown ++ [esc, c] }
  | .sequence parameters =>
      if c = 'm' then
        { terminal with
          mode := .ground
          rendition :=
            terminal.rendition.selectAll parameters 0 }
      else
        { terminal with
          mode := .sequence (parameters ++ [c]) }

/- Read a text. -/
def feed
    (text : List Char)
    (terminal : Terminal) : Terminal :=
  text.foldl step terminal

/- The characters of a sequence that is not complete. -/
def Mode.pending
    (mode : Mode) : List Char :=
  match mode with
  | .ground => []
  | .escape => [esc]
  | .sequence parameters => esc :: '[' :: parameters

/-
  A text without its sequences `ESC [ .. m`.  One that is not
  complete stays.
-/
def strip
    (text : List Char) : List Char :=
  let terminal := feed text (showing [])
  terminal.shown ++ terminal.mode.pending

theorem feed_append
    (text rest : List Char)
    (terminal : Terminal) :
    feed (text ++ rest) terminal =
      feed rest (feed text terminal) :=
  List.foldl_append

/- A text without escape characters is shown as it is. -/
theorem feed_plain
    {text : List Char}
    (hPlain : esc ∉ text)
    {terminal : Terminal}
    (hGround : terminal.mode = .ground) :
    feed text terminal =
      { terminal with shown := terminal.shown ++ text } := by
  induction text generalizing terminal with
  | nil => simp [feed]
  | cons c rest ih =>
      rw [List.mem_cons, not_or] at hPlain
      have hStep : terminal.step c =
          { terminal with shown := terminal.shown ++ [c] } := by
        unfold step
        simp only [hGround]
        exact if_neg (Ne.symm hPlain.1)
      have hRest := ih hPlain.2
        (show (terminal.step c).mode = .ground by
          rw [hStep]
          exact hGround)
      calc
        feed (c :: rest) terminal
            = feed rest (terminal.step c) := rfl
        _ = { terminal.step c with
              shown := (terminal.step c).shown ++ rest } :=
            hRest
        _ = { terminal with
              shown := terminal.shown ++ c :: rest } := by
            rw [hStep, List.append_assoc]
            rfl

/- The parameters of a sequence are collected. -/
theorem feed_parameters
    {text parameters : List Char}
    (hText : 'm' ∉ text)
    {terminal : Terminal}
    (hMode : terminal.mode = .sequence parameters) :
    feed text terminal =
      { terminal with mode := .sequence (parameters ++ text) } := by
  induction text generalizing terminal parameters with
  | nil =>
      rw [List.append_nil, ← hMode]
      rfl
  | cons c rest ih =>
      rw [List.mem_cons, not_or] at hText
      have hStep : terminal.step c =
          { terminal with
            mode := .sequence (parameters ++ [c]) } := by
        unfold step
        simp only [hMode]
        exact if_neg (Ne.symm hText.1)
      have hRest := ih hText.2
        (show (terminal.step c).mode =
            .sequence (parameters ++ [c]) by
          rw [hStep])
      calc
        feed (c :: rest) terminal
            = feed rest (terminal.step c) := rfl
        _ = { terminal.step c with
              mode :=
                .sequence ((parameters ++ [c]) ++ rest) } :=
            hRest
        _ = { terminal with
              mode := .sequence (parameters ++ c :: rest) } := by
            rw [hStep, List.append_assoc]
            rfl

/- A complete sequence only selects renditions. -/
theorem feed_sequence
    {parameters : List Char}
    (hParameters : 'm' ∉ parameters)
    {terminal : Terminal}
    (hGround : terminal.mode = .ground) :
    feed (esc :: '[' :: parameters ++ ['m']) terminal =
      { terminal with
        rendition :=
          terminal.rendition.selectAll parameters 0 } := by
  have hOpened :
      (terminal.step esc).step '[' =
        { terminal with mode := .sequence [] } := by
    unfold step
    simp only [hGround, if_true]
  calc
    feed (esc :: '[' :: parameters ++ ['m']) terminal
        = feed ['m'] (feed parameters
            ((terminal.step esc).step '[')) :=
          feed_append (esc :: '[' :: parameters) ['m'] terminal
    _ = feed ['m']
          { terminal with mode := .sequence parameters } := by
        rw [hOpened, feed_parameters hParameters rfl]
        rfl
    _ = { terminal with
          rendition :=
            terminal.rendition.selectAll parameters 0 } := by
        cases terminal
        simp only [] at hGround
        subst hGround
        rfl

/- Nothing is pending between sequences. -/
theorem strip_of_feed
    {text shown : List Char}
    (hFeed : feed text (showing []) = showing shown) :
    strip text = shown := by
  unfold strip
  simp only [hFeed]
  exact List.append_nil _

end Terminal
