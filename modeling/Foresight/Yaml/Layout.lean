import Foresight.Yaml.Block
import Foresight.Yaml.Token

/-!
# From text to tokens

Reading tokens needs more than the text at hand. A `Layout` holds what has been read so far: the
block collections that are open, each told by its column, the collections in brackets, and for each
of these levels the token that would be a key if a colon came next (`Candidate`).

A token further left than an open collection closes it. A token that may begin a key is remembered
with its place in the list of tokens; a colon behind it, on the same line and not too far away, puts
the mark of a key in front of it, and perhaps the start of a mapping. Where a key is expected and
none comes, the text is refused.
-/

namespace Foresight.Yaml

/-- A token that is a key if a colon comes next. -/
structure Candidate where
  /-- How many tokens stand before it. -/
  before : Nat
  place : Place
  /-- Whether there can be nothing but a key at this place. -/
  required : Bool

/-- The longest way from the start of a key to its colon. -/
def keyReach : Nat := 1024

/-- Whether a place is too far behind a candidate for a colon. -/
def Candidate.isStale (at_ : Place) (k : Candidate) : Bool :=
  k.place.line < at_.line || k.place.column + keyReach < at_.column

structure Layout where
  cursor : Cursor
  tokens : Array Token := #[]
  /-- The columns of the open block collections, the innermost first. -/
  columns : List Nat := []
  candidate : Option Candidate := none
  /-- The candidates around each open bracket, the innermost first. -/
  outer : List (Option Candidate) := []
  /-- Whether a key may begin here. -/
  keyAllowed : Bool := true

/-- The next token: whether a key may begin there, and where it is. Blanks, comments and line breaks
are passed. Tabs are not, where a key may begin outside of brackets. -/
def skipGap (flow keyAllowed comment : Bool) (at_ : Place) : List Char → Bool × Cursor
  | [] => (keyAllowed, ⟨at_, []⟩)
  | c :: rest =>
    if isBreak c then skipGap flow (keyAllowed || !flow) false (at_.after c) rest
    else if comment || c == '#' then skipGap flow keyAllowed true (at_.after c) rest
    else if isSpace c || (c == '\t' && (flow || !keyAllowed)) ||
        (c == '\ufeff' && at_.column == 0) then
      skipGap flow keyAllowed false (at_.after c) rest
    else (keyAllowed, ⟨at_, c :: rest⟩)

namespace Layout

def inFlow (s : Layout) : Bool := !s.outer.isEmpty

/-- The least column for what belongs to the innermost block collection. -/
def floor (s : Layout) : Nat := (s.columns.head?.map (· + 1)).getD 0

def emit (t : Token) (s : Layout) : Layout := { s with tokens := s.tokens.push t }

/-- Puts a token behind the first `before` ones. -/
def insert (before : Nat) (t : Token) (s : Layout) : Layout :=
  { s with tokens := s.tokens.insertIdxIfInBounds before t }

def at_ (cursor : Cursor) (s : Layout) : Layout := { s with cursor }

def allowKey (allowed : Bool) (s : Layout) : Layout := { s with keyAllowed := allowed }

def skip (s : Layout) : Layout :=
  let (keyAllowed, cursor) := skipGap s.inFlow s.keyAllowed false s.cursor.place s.cursor.rest
  { s with keyAllowed, cursor }

/-! ## Candidates for keys -/

/-- Gives up the candidate, unless it had to be a key. -/
def dropCandidate? (s : Layout) : Option Layout :=
  if s.candidate.any (·.required) then none else some { s with candidate := none }

/-- Gives up the candidates that are too far behind. -/
def dropStale? (s : Layout) : Option Layout :=
  let isStale := Candidate.isStale s.cursor.place
  let fresh (k : Option Candidate) : Option Candidate := k.filter (!isStale ·)
  if (s.candidate :: s.outer).any fun k => k.any fun k => isStale k && k.required then none
  else some { s with candidate := fresh s.candidate, outer := s.outer.map fresh }

/-- Remembers that a key may begin here. -/
def markCandidate? (s : Layout) : Option Layout :=
  if s.keyAllowed then do
    let place := s.cursor.place
    let required := !s.inFlow && s.columns.head? == some place.column
    return { ← s.dropCandidate? with candidate := some ⟨s.tokens.size, place, required⟩ }
  else some s

/-! ## Block collections -/

/-- Begins a block collection in a column that lies further right than the open ones. Its token
comes in behind the first `before` tokens. -/
def openBlock (start : Token) (column before : Nat) (s : Layout) : Layout :=
  if s.inFlow || s.columns.head?.any (column ≤ ·) then s
  else { s with columns := column :: s.columns }.insert before start

/-- Begins a block collection with the token at the cursor. -/
def openBlockHere (start : Token) (s : Layout) : Layout :=
  s.openBlock start s.cursor.place.column s.tokens.size

def closeBlocks (column : Nat) (s : Layout) : Layout :=
  if s.inFlow then s
  else
    let closed := s.columns.takeWhile (column ≤ ·)
    { s with
      columns := s.columns.drop closed.length
      tokens := closed.foldl (fun tokens _ => tokens.push .blockEnd) s.tokens }

/-! ## Single tokens

Each function reads the token at the cursor, which is known to begin as it must. -/

/-- A token of `width` characters. -/
def take (width : Nat) (t : Token) (s : Layout) : Layout :=
  (s.at_ (s.cursor.advance width)).emit t

/-- Directives and document marks stand outside of all block collections. -/
def leaveBlocks? (s : Layout) : Option Layout := do
  return (← (s.closeBlocks 0).dropCandidate?).allowKey false

def directive? (s : Layout) : Option Layout := do
  let s ← s.leaveBlocks?
  let (directive, behind) ← Directive.read? s.cursor
  return (s.at_ behind).emit (.directive directive)

def documentMark? (t : Token) (s : Layout) : Option Layout := do
  return (← s.leaveBlocks?).take 3 t

def openFlow? (t : Token) (s : Layout) : Option Layout := do
  let s ← s.markCandidate?
  return { s.take 1 t with candidate := none, outer := s.candidate :: s.outer, keyAllowed := true }

def closeFlow? (t : Token) (s : Layout) : Option Layout := do
  let s := (← s.dropCandidate?).take 1 t
  return { s with
    candidate := s.outer.head?.join
    outer := s.outer.tail
    keyAllowed := false }

def flowEntry? (s : Layout) : Option Layout := do
  return ((← s.dropCandidate?).take 1 .flowEntry).allowKey true

/-- A mark that begins an entry of a block collection, or of none inside of brackets. -/
def entryMark? (t start : Token) (keyAllowed : Bool) (s : Layout) : Option Layout :=
  if s.inFlow || s.keyAllowed then do
    return ((← (s.openBlockHere start).dropCandidate?).take 1 t).allowKey keyAllowed
  else none

def blockEntry? (s : Layout) : Option Layout :=
  s.entryMark? .blockEntry .blockSequence true

def explicitKey? (s : Layout) : Option Layout :=
  s.entryMark? .key .blockMapping (!s.inFlow)

/-- A colon: it makes the candidate a key, or stands alone for the value of an explicit key. -/
def value? (s : Layout) : Option Layout :=
  match s.candidate with
  | some k =>
    let keyed := ({ s with candidate := none }.insert k.before .key).openBlock .blockMapping
      k.place.column k.before
    some ((keyed.take 1 .value).allowKey false)
  | none =>
    if s.inFlow then some ((s.take 1 .value).allowKey false)
    else if s.keyAllowed then some (((s.openBlockHere .blockMapping).take 1 .value).allowKey true)
    else none

/-- The name of an alias or an anchor. -/
def named? (t : String → Token) (s : Layout) : Option Layout := do
  let s ← s.markCandidate?
  let (name, behind) ← name? s.cursor.step
  return ((s.at_ behind).emit (t name)).allowKey false

def tag? (s : Layout) : Option Layout := do
  let s ← s.markCandidate?
  let (tag, behind) ← Tag.read? s.inFlow s.cursor
  return ((s.at_ behind).emit (.tag tag)).allowKey false

/-- A scalar after which a key may begin if a line was ended. -/
def scalar? (style : Style) (scan : Cursor → Option Scanned) (s : Layout) : Option Layout := do
  let s ← s.markCandidate?
  let scanned ← scan s.cursor
  return ((s.at_ scanned.behind).emit (.scalar style scanned.text)).allowKey scanned.lineEnded

def plain? (s : Layout) : Option Layout :=
  s.scalar? .plain fun c => plain s.inFlow s.floor [] {} c.place c.rest

def singleQuoted? (s : Layout) : Option Layout :=
  s.scalar? .quoted fun c => singleQuoted [] {} false c.step.place c.step.rest

def doubleQuoted? (s : Layout) : Option Layout :=
  s.scalar? .quoted fun c => doubleQuoted [] {} 0 c.step.place c.step.rest

/-- A block cannot be a key. -/
def block? (style : Style) (s : Layout) : Option Layout := do
  let s ← s.dropCandidate?
  let scanned ← Yaml.block? (style == .folded) s.floor s.cursor.step
  return ((s.at_ scanned.behind).emit (.scalar style scanned.text)).allowKey true

/-! ## All tokens -/

/-- Reads the token at the cursor, which is not at the end. -/
def token? (s : Layout) : Option Layout :=
  let next? := s.cursor.step.next?
  match s.cursor.next? with
  | none => none
  | some c =>
    if s.cursor.place.column == 0 && c == '%' then s.directive?
    else if isMarkAt '-' s.cursor.place s.cursor.rest then s.documentMark? .documentStart
    else if isMarkAt '.' s.cursor.place s.cursor.rest then s.documentMark? .documentEnd
    else if beginsPlain s.inFlow c next? then s.plain?
    else
      match c with
      | '[' => s.openFlow? .flowSequence
      | ']' => s.closeFlow? .flowSequenceEnd
      | '\x7b' => s.openFlow? .flowMapping
      | '\x7d' => s.closeFlow? .flowMappingEnd
      | ',' => s.flowEntry?
      | '-' => s.blockEntry?
      | '?' => s.explicitKey?
      | ':' => s.value?
      | '*' => s.named? .alias
      | '&' => s.named? .anchor
      | '!' => s.tag?
      | '|' => if s.inFlow then none else s.block? .literal
      | '>' => if s.inFlow then none else s.block? .folded
      | '\'' => s.singleQuoted?
      | '"' => s.doubleQuoted?
      | _ => none

/-- Reads tokens up to the end of the text. `room` bounds their number. -/
def tokens? : (room : Nat) → Layout → Option (List Token)
  | 0, _ => none
  | room + 1, s => do
    let s ← s.skip.dropStale?
    let s := s.closeBlocks (s.cursor.place.column + 1)
    if s.cursor.rest.isEmpty then return (← (s.closeBlocks 0).dropCandidate?).tokens.toList
    else tokens? room (← s.token?)

end Layout

/-- The tokens of a text. Every token takes a character at least. -/
def Token.ofText? (text : String) : Option (List Token) :=
  let cs := unifyBreaks text.toList
  if cs.all isAllowed then ({ cursor := ⟨{}, cs⟩ } : Layout).tokens? (cs.length + 1) else none

end Foresight.Yaml
