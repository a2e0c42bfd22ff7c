import Foresight.Yaml.Character

/-!
# Cursors

A cursor is a place in a text together with the text from there on. Lines and columns are counted
from zero, and every line break, of whatever kind, begins a line.
-/

namespace Foresight.Yaml

structure Place where
  line : Nat := 0
  column : Nat := 0
  deriving DecidableEq, Inhabited

/-- The place behind a character. -/
def Place.after (c : Char) (at_ : Place) : Place :=
  if isBreak c then ⟨at_.line + 1, 0⟩ else ⟨at_.line, at_.column + 1⟩

structure Cursor where
  place : Place
  rest : List Char
  deriving Inhabited

namespace Cursor

/-- The cursor behind the next character, if there is one. -/
def step (at_ : Cursor) : Cursor :=
  match at_.rest with
  | [] => at_
  | c :: rest => ⟨at_.place.after c, rest⟩

@[simp]
theorem rest_step (at_ : Cursor) : at_.step.rest = at_.rest.tail := by
  obtain ⟨_, rest⟩ := at_
  cases rest <;> rfl

def advance : (count : Nat) → Cursor → Cursor
  | 0, at_ => at_
  | count + 1, at_ => advance count at_.step

@[simp]
theorem rest_advance (count : Nat) (at_ : Cursor) :
    (at_.advance count).rest = at_.rest.drop count := by
  induction count generalizing at_ with
  | zero => rfl
  | succ count ih => simp [advance, ih]

/-- What stands right here, as long as its characters are of a class. -/
def run (belongs : Char → Bool) (at_ : Cursor) : List Char :=
  at_.rest.takeWhile belongs

def skipWhile (belongs : Char → Bool) (at_ : Cursor) : Cursor :=
  at_.advance (at_.run belongs).length

def next? (at_ : Cursor) : Option Char := at_.rest.head?

/-- The cursor behind a character that must stand here. -/
def expect? (c : Char) (at_ : Cursor) : Option Cursor :=
  if at_.next? == some c then some at_.step else none

/-- Passes blanks, a comment and the end of the line. Nothing else may stand there. -/
def endLine? (at_ : Cursor) : Option Cursor :=
  let at_ := at_.skipWhile isBlank
  let at_ := if at_.next? == some '#' then at_.skipWhile (!isBreak ·) else at_
  if at_.next?.all isBreak then some at_.step else none

end Cursor

/-- Whether a document mark stands at a place: three characters at the start of a line. -/
def isMarkAt (mark : Char) (at_ : Place) (rest : List Char) : Bool :=
  at_.column == 0 && [mark, mark, mark].isPrefixOf rest && isGap (rest.drop 3).head?

/-- Whether a document begins or ends at a place. -/
def isAnyMarkAt (at_ : Place) (rest : List Char) : Bool :=
  isMarkAt '-' at_ rest || isMarkAt '.' at_ rest

end Foresight.Yaml
