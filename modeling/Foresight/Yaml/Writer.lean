import Foresight.Yaml.Character
import Foresight.Yaml.Word

/-!
# Writing YAML

A document of sections is written in block style, two spaces a level, the items of a sequence level
with the key that they belong to. A text is written plain where it reads back as the same text;
otherwise in single quotes, in a literal block if it has line feeds, and in double quotes where
neither will do.
-/

namespace Foresight.Yaml

/-- A value as it is written: a word stands as it is, a text may need quotes. -/
inductive Value where
  | word (text : String)
  | text (text : String)
  | texts (items : List String)

/-! ## What a text allows -/

/-- Whether a character that begins a text is taken for a mark. `next?` is what follows. -/
def leadsMark (c : Char) (next? : Option Char) : Bool :=
  isIndicator c || ((c == '?' || c == ':' || c == '-') && isGap next?)

/-- Whether a mark occurs after the first character of a text. -/
def hasInnerMark : (before : Char) → List Char → Bool
  | _, [] => false
  | before, c :: rest =>
    (c == ':' && isGap rest.head?) || (c == '#' && isGap (some before)) || hasInnerMark c rest

def hasMark : List Char → Bool
  | [] => false
  | c :: rest =>
    leadsMark c rest.head? || hasInnerMark c rest ||
      ['-', '-', '-'].isPrefixOf (c :: rest) || ['.', '.', '.'].isPrefixOf (c :: rest)

/-- Whether `second` directly follows `first` somewhere. -/
def hasPair (first second : Char → Bool) : List Char → Bool
  | a :: b :: rest => (first a && second b) || hasPair first second (b :: rest)
  | _ => false

/-- Plain style loses spaces at the ends, and cannot hold breaks or marks. -/
def allowsPlain (text : List Char) : Bool :=
  !(text.head?.any isSpace || text.getLast?.any isSpace || text.any isBreak || hasMark text ||
    !text.all isPrintable)

/-- Single quotes cannot hold spaces next to breaks. -/
def allowsSingle (text : List Char) : Bool :=
  text.all isPrintable && !hasPair isBreak isSpace text && !hasPair isSpace isBreak text

/-- A block cannot hold spaces at the end of a line. -/
def allowsBlock (text : List Char) : Bool :=
  text.all isPrintable && !text.getLast?.any isSpace && !hasPair isSpace isBreak text

/-! ## Lines -/

def margin (indent : Nat) : List Char := List.replicate indent ' '

/-- A text behind an indentation, which empty lines do without. `fresh` says that a line begins. -/
def indented (indent : Nat) : (fresh : Bool) → List Char → List Char
  | _, [] => []
  | fresh, c :: rest =>
    if isBreak c then c :: indented indent true rest
    else if fresh then margin indent ++ c :: indented indent false rest
    else c :: indented indent false rest

/-! ## Quotes -/

/-- A text in single quotes. A line that begins inside of them is indented, also the last one. -/
def inSingleQuotes (indent : Nat) (text : List Char) : List Char :=
  let doubled := text.flatMap fun c => if c == '\'' then ['\'', '\''] else [c]
  '\'' :: indented indent false (doubled ++ ['\''])

def hexDigit (n : Nat) : Char :=
  if n < 10 then Char.ofNat (48 + n) else Char.ofNat (55 + n)

/-- The last `count` hexadecimal digits of a number. -/
def hexDigits : (count : Nat) → Nat → List Char
  | 0, _ => []
  | count + 1, n => hexDigits count (n / 16) ++ [hexDigit (n % 16)]

/-- The mark of a character that has an escape of its own. -/
def escapeMark? (c : Char) : Option Char :=
  [('\x00', '0'), ('\x07', 'a'), ('\x08', 'b'), ('\t', 't'), ('\n', 'n'), ('\x0b', 'v'),
    ('\x0c', 'f'), ('\r', 'r'), ('\x1b', 'e'), ('"', '"'), ('\\', '\\'), ('\u0085', 'N'),
    ('\u2028', 'L'), ('\u2029', 'P')].lookup c

def escaped (c : Char) : List Char :=
  match escapeMark? c with
  | some mark => ['\\', mark]
  | none =>
    if isPrintable c then [c]
    else if c.toNat < 0x100 then '\\' :: 'x' :: hexDigits 2 c.toNat
    else if c.toNat < 0x10000 then '\\' :: 'u' :: hexDigits 4 c.toNat
    else '\\' :: 'U' :: hexDigits 8 c.toNat

def inDoubleQuotes (text : List Char) : List Char :=
  '"' :: text.flatMap escaped ++ ['"']

/-! ## Literal blocks -/

/-- What a block says about the breaks at its end: nothing if there is one. -/
def chompingMark (text : List Char) : List Char :=
  match text.reverse with
  | [] => ['-']
  | [c] => [if isBreak c then '+' else '-']
  | c :: before :: _ => if !isBreak c then ['-'] else if isBreak before then ['+'] else []

/-- A literal block. Where the text begins with a space or a break, its indentation is told. -/
def literal (indent : Nat) (text : List Char) : List Char :=
  let hint := if text.head?.any (fun c => isSpace c || isBreak c) then ['2'] else []
  '|' :: hint ++ chompingMark text ++ '\n' :: indented indent true text

/-! ## Values and sections -/

/-- A text as it is written; `indent` is where its other lines begin. -/
def textForm (indent : Nat) (text : String) : List Char :=
  let cs := text.toList
  if cs.contains '\n' then if allowsBlock cs then literal indent cs else inDoubleQuotes cs
  else if !readsOtherwise text && allowsPlain cs then cs
  else if allowsSingle cs then inSingleQuotes indent cs
  else inDoubleQuotes cs

/-- Ends a line, unless a break has ended it. -/
def endLine (line : List Char) : List Char :=
  if line.getLast?.any isBreak then line else line ++ ['\n']

/-- A text behind its key or its dash. -/
def textLine (indent : Nat) (text : String) : List Char :=
  endLine (' ' :: textForm (indent + 2) text)

/-- A value behind its key. The items of a sequence stand level with the key. -/
def valueLines (indent : Nat) : Value → List Char
  | .word text => endLine (' ' :: text.toList)
  | .text text => textLine indent text
  | .texts [] => " []\n".toList
  | .texts items => '\n' :: items.flatMap fun item => margin indent ++ '-' :: textLine indent item

/-- The fields of a section, two spaces right of its name. -/
def sectionLines (name : String) : (fields : List (String × Value)) → List Char
  | [] => name.toList ++ ": \x7b\x7d\n".toList
  | fields =>
    name.toList ++ ":\n".toList ++ fields.flatMap fun (name, value) =>
      margin 2 ++ name.toList ++ ':' :: valueLines 2 value

def document (sections : List (String × List (String × Value))) : String :=
  String.ofList (sections.flatMap fun (name, fields) => sectionLines name fields)

end Foresight.Yaml
