import Foresight.Yaml.Scalar

/-!
# Block scalars

A literal block keeps its line breaks, a folded one joins lines that begin with text. Where the
lines begin is told behind the bar or is where the first one of them begins; a block ends with the
line that begins before that.

Texts are held in reverse while they are read.
-/

namespace Foresight.Yaml

/-- What becomes of the line breaks at the end of a block. -/
inductive Chomping where
  | strip
  | clip
  | keep

def chomping? (c : Char) : Option Chomping :=
  [('-', .strip), ('+', .keep)].lookup c

def increment? (c : Char) : Option Nat :=
  (Text.digit? 10 c).filter (· != 0)

/-- What is told behind the bar, in either order, and the cursor behind it. -/
def blockHeader (at_ : Cursor) : Chomping × Option Nat × Cursor :=
  match at_.next?.bind chomping?, at_.next?.bind increment? with
  | some chomping, _ =>
    let at_ := at_.step
    match at_.next?.bind increment? with
    | some increment => (chomping, some increment, at_.step)
    | none => (chomping, none, at_)
  | none, some increment =>
    let at_ := at_.step
    match at_.next?.bind chomping? with
    | some chomping => (chomping, some increment, at_.step)
    | none => (.clip, some increment, at_)
  | none, none => (.clip, none, at_)

/-- The widest indentation up to the end of that of the first line that is not empty. Tabs do not
indent. -/
def widestIndent? (widest column : Nat) : List Char → Option Nat
  | [] => some (max widest column)
  | c :: rest =>
    if isSpace c then widestIndent? widest (column + 1) rest
    else if c == '\t' then none
    else if isBreak c then widestIndent? (max widest column) 0 rest
    else some (max widest column)

/-- The part of a block that has been read: its text up to the last line with any, and the line
breaks since then. -/
structure Block where
  text : List Char := []
  breaks : List Char := []
  /-- Whether the last line with text begins with a blank. -/
  indented : Bool := false

namespace Block

/-- The text in front of a line that begins with `c`. Only two lines that both begin with text are
folded. -/
def before (b : Block) (folded : Bool) (c : Char) : List Char :=
  if folded && !b.text.isEmpty && !b.indented && !isBlank c then foldBreaks b.breaks ++ b.text
  else b.breaks ++ b.text

/-- The whole text. The first of the line breaks at the end is that of the last line, if there is
a line. -/
def chomped (b : Block) : Chomping → String
  | .strip => String.ofList b.text.reverse
  | .clip =>
    String.ofList (b.text.reverse ++ if b.text.isEmpty then [] else b.breaks.reverse.take 1)
  | .keep => String.ofList (b.text.reverse ++ b.breaks.reverse)

end Block

/-- Reads the lines of a block that is indented as far as `indent`. `inside` says that the cursor is
in the text of a line. -/
def blockLines (folded : Bool) (indent : Nat) (b : Block) (inside : Bool) (at_ : Place) :
    List Char → Option (Block × Cursor)
  | [] => some (b, ⟨at_, []⟩)
  | c :: rest =>
    if isBreak c then
      blockLines folded indent { b with breaks := c :: b.breaks } false (at_.after c) rest
    else if inside then
      blockLines folded indent { b with text := c :: b.text } true (at_.after c) rest
    else if at_.column < indent then
      if isSpace c then blockLines folded indent b false (at_.after c) rest
      else if c == '\t' then none
      else some (b, ⟨at_, c :: rest⟩)
    else
      blockLines folded indent ⟨c :: b.before folded c, [], isBlank c⟩ true (at_.after c) rest

/-- Reads a block from behind its bar. `floor` is the least column for its lines, and what an
indentation is counted from is one less, or zero. -/
def block? (folded : Bool) (floor : Nat) (at_ : Cursor) : Option Scanned := do
  let (chomping, increment?, at_) := blockHeader at_
  let at_ ← at_.endLine?
  let indent ← match increment? with
    | some increment => pure (floor - 1 + increment)
    | none => (widestIndent? 0 0 at_.rest).map (max (max floor 1))
  let (b, behind) ← blockLines folded indent {} false at_.place at_.rest
  return { text := b.chomped chomping, behind, lineEnded := true }

end Foresight.Yaml
