import Foresight.Text.Width

/-!
# Text on a terminal

A terminal does not show all of a text: an escape begins a control sequence, which ends by rules of
its own and leaves nothing on the screen. What is shown is the text between control sequences, and
only that takes columns.
-/

namespace Foresight.Text

/-- A control sequence that has begun. -/
inductive ControlSequence where
  /-- Behind an escape, which one more character ends or opens to a longer one. -/
  | short
  /-- Behind an escape and marks: one more character ends it. -/
  | marked
  /-- Behind an escape and an opening bracket: parameters, up to a letter or mark. -/
  | parameters
  /-- Behind an escape and a closing bracket: a text, up to a bell. -/
  | command
  /-- A text up to another escape. -/
  | message
  deriving DecidableEq, Inhabited

/-- Whether a character abandons a control sequence and is shown. -/
def cancels (c : Char) : Bool := c == '\x18' || c == '\x1a'

namespace ControlSequence

/-- The control sequence after one more character; `none` if that ends it. -/
def next? (s : ControlSequence) (c : Char) : Option ControlSequence :=
  match s with
  | .short =>
    if c = '[' then some .parameters
    else if c = ']' then some .command
    else if c = 'P' ∨ c = 'X' ∨ c = '^' ∨ c = '_' then some .message
    else if '0' ≤ c ∧ c ≤ '~' then none
    else if ' ' ≤ c ∧ c ≤ '/' then some .marked
    else some .short
  | .marked => if '0' ≤ c ∧ c ≤ '~' then none else some .marked
  | .parameters => if '@' ≤ c ∧ c ≤ '~' then none else some .parameters
  | .command => if c = '\x07' then none else some .command
  | .message => some .message

end ControlSequence

/-- The pieces of a text that a terminal shows. `piece` is the current one, in reverse. -/
def shownPieces (piece : List Char) : Option ControlSequence → List Char → List (List Char)
  | none, [] => [piece.reverse]
  | some _, [] => []
  | state, c :: text =>
    if c = '\x1b' then
      match state with
      | none => piece.reverse :: shownPieces [] (some .short) text
      | some _ => shownPieces [] (some .short) text
    else
      match state with
      | none => shownPieces (c :: piece) none text
      | some s =>
        if cancels c then shownPieces [c] none text else shownPieces [] (s.next? c) text

def columns (text : String) : Nat :=
  (shownPieces [] none text.toList).foldr (fun piece total => columnsOf piece + total) 0

end Foresight.Text
