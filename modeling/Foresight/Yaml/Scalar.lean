import Foresight.Text.Number
import Foresight.Yaml.Cursor

/-!
# Scalars on the line

Plain scalars and scalars in quotes go over any number of lines. What they have in common is what
becomes of the white space inside them (`Spacing.folded`): blanks on one line stay, a line break is
a space, and more line breaks lose the first one.

Texts are held in reverse while they are read.
-/

namespace Foresight.Yaml

/-! ## White space inside a scalar -/

/-- Line breaks between two lines of text, in reverse: one is a space, of more the first is
dropped. A separator of Unicode is no break to be dropped. -/
def foldBreaks (breaks : List Char) : List Char :=
  match breaks.reverse with
  | ['\n'] => [' ']
  | '\n' :: more => more.reverse
  | _ => breaks

/-- The white space since the last part of a scalar, in reverse. Blanks next to a line break are
not kept. -/
structure Spacing where
  blanks : List Char := []
  breaks : List Char := []
  /-- The text goes on in a new line without a space, as its line break was escaped. -/
  joined : Bool := false

namespace Spacing

def isBroken (s : Spacing) : Bool := s.joined || !s.breaks.isEmpty

def isEmpty (s : Spacing) : Bool := !s.isBroken && s.blanks.isEmpty

def add (c : Char) (s : Spacing) : Spacing :=
  if isBreak c then { s with blanks := [], breaks := c :: s.breaks }
  else if s.isBroken then s
  else { s with blanks := c :: s.blanks }

/-- What white space amounts to, in reverse. -/
def folded (s : Spacing) : List Char :=
  if s.joined then s.breaks
  else if s.breaks.isEmpty then s.blanks
  else foldBreaks s.breaks

end Spacing

/-! ## Plain scalars -/

/-- A scalar that has been read, and the cursor behind it and the white space after it. -/
structure Scanned where
  text : String
  behind : Cursor
  /-- Whether the cursor is on another line than the end of the scalar. -/
  lineEnded : Bool := false

/-- What may not stand right behind a colon inside a plain scalar of a flow collection. -/
def clashesWithColon (c : Char) : Bool := isFlowMark c || c == '?'

/-- Reads a plain scalar on. It ends before a comment, a colon that makes it a key, a document mark,
a line that is not indented as far as `floor`, and in a flow collection before a mark of the
collection. Its lines may not be indented with tabs. -/
def plain (flow : Bool) (floor : Nat) (text : List Char) (spacing : Spacing) (at_ : Place) :
    List Char → Option Scanned
  | [] => some ⟨String.ofList text.reverse, ⟨at_, []⟩, spacing.isBroken⟩
  | c :: rest =>
    let short := spacing.isBroken && at_.column < floor
    if isBreak c || isBlank c then
      if c == '\t' && short then none
      else plain flow floor text (spacing.add c) (at_.after c) rest
    else if (c == '#' && !spacing.isEmpty) || (!flow && short) || isAnyMarkAt at_ (c :: rest) then
      some ⟨String.ofList text.reverse, ⟨at_, c :: rest⟩, spacing.isBroken⟩
    else if flow && c == ':' && rest.head?.any clashesWithColon then none
    else if (c == ':' && isGap rest.head?) || (flow && isFlowMark c) then
      some ⟨String.ofList text.reverse, ⟨at_, c :: rest⟩, spacing.isBroken⟩
    else plain flow floor (c :: spacing.folded ++ text) {} (at_.after c) rest

/-- Whether a plain scalar may begin with a character; `next?` is what follows it. -/
def beginsPlain (flow : Bool) (c : Char) (next? : Option Char) : Bool :=
  if c == '-' then !isGap next?
  else if c == '?' || c == ':' then !flow && !isGap next?
  else !isBlank c && !isIndicator c

/-! ## Scalars in quotes -/

/-- Reads a scalar in single quotes on, from behind the first quote. A quote inside is doubled;
`doubled` says that the next character is the second one of a pair. -/
def singleQuoted (text : List Char) (spacing : Spacing) (doubled : Bool) (at_ : Place) :
    List Char → Option Scanned
  | [] => none
  | c :: rest =>
    if doubled then singleQuoted ('\'' :: text) {} false (at_.after c) rest
    else if isAnyMarkAt at_ (c :: rest) then none
    else if isBreak c || isBlank c then
      singleQuoted text (spacing.add c) false (at_.after c) rest
    else
      let text := spacing.folded ++ text
      if c != '\'' then singleQuoted (c :: text) {} false (at_.after c) rest
      else if rest.head? == some '\'' then singleQuoted text {} true (at_.after c) rest
      else some { text := String.ofList text.reverse, behind := ⟨at_.after c, rest⟩ }

def escapeOf? (mark : Char) : Option Char :=
  [('0', '\x00'), ('a', '\x07'), ('b', '\x08'), ('t', '\t'), ('\t', '\t'), ('n', '\n'),
    ('v', '\x0b'), ('f', '\x0c'), ('r', '\r'), ('e', '\x1b'), (' ', ' '), ('"', '"'), ('/', '/'),
    ('\\', '\\'), ('N', '\u0085'), ('_', '\u00a0'), ('L', '\u2028'), ('P', '\u2029')].lookup mark

/-- How many hexadecimal digits follow the letter of an escape. -/
def escapeWidth? (mark : Char) : Option Nat :=
  [('x', 2), ('u', 4), ('U', 8)].lookup mark

/-- The character of an escape, and how many characters the escape has behind its backslash. -/
def escape? : List Char → Option (Char × Nat)
  | [] => none
  | mark :: rest =>
    match escapeOf? mark, escapeWidth? mark with
    | some c, _ => some (c, 1)
    | none, some width =>
      if (rest.take width).length < width then none
      else
        match Text.digits? 16 (rest.take width) with
        | some n => if n.isValidChar then some (Char.ofNat n, width + 1) else none
        | none => none
    | none, none => none

/-- Reads a scalar in double quotes on, from behind the first quote. `passed` counts characters of
an escape that has been dealt with. -/
def doubleQuoted (text : List Char) (spacing : Spacing) (passed : Nat) (at_ : Place) :
    List Char → Option Scanned
  | [] => none
  | c :: rest =>
    match passed with
    | passed + 1 => doubleQuoted text spacing passed (at_.after c) rest
    | 0 =>
      if isAnyMarkAt at_ (c :: rest) then none
      else if isBreak c || isBlank c then
        doubleQuoted text (spacing.add c) 0 (at_.after c) rest
      else
        let text := spacing.folded ++ text
        if c == '"' then
          some { text := String.ofList text.reverse, behind := ⟨at_.after c, rest⟩ }
        else if c != '\\' then doubleQuoted (c :: text) {} 0 (at_.after c) rest
        else if rest.head?.any isBreak then
          doubleQuoted text { joined := true } 1 (at_.after c) rest
        else
          match escape? rest with
          | some (e, width) => doubleQuoted (e :: text) {} width (at_.after c) rest
          | none => none

end Foresight.Yaml
