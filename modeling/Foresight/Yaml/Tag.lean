import Foresight.Text.Number
import Foresight.Yaml.Cursor

/-!
# Names, tags and directives

A node can be given a name (an anchor), to which an alias refers, and a tag. A tag is written in
full between angle brackets, or as a handle and a suffix; what a handle stands for is told by the
directives of its document (`Tag.resolve?`).

The text of a tag is a sequence of octets, some of which are written as hexadecimal numbers. An
octet is held as the character of that number, and a zero ends the text.
-/

namespace Foresight.Yaml

/-! ## Names -/

/-- The name of an anchor or an alias, from behind its mark. -/
def name? (at_ : Cursor) : Option (String × Cursor) :=
  let name := at_.run isNameChar
  let behind := at_.advance name.length
  let ends (c : Char) : Bool := "?:,]\x7d%@`".toList.contains c
  if !name.isEmpty && (isGap behind.next? || behind.next?.any ends) then
    some (String.ofList name, behind)
  else none

/-! ## The text of a tag -/

/-- What a tag is made of; `whole` says that it is not part of a collection in brackets. -/
def isTagChar (whole : Bool) (c : Char) : Bool :=
  isNameChar c || ";/?:@&=+$.%!~*'()".toList.contains c || (whole && ",[]".toList.contains c)

/-- How many octets a character takes that begins with an octet. -/
def octetCount? (octet : Nat) : Option Nat :=
  if octet < 0x80 then some 1
  else if octet / 0x20 == 0x06 then some 2
  else if octet / 0x10 == 0x0e then some 3
  else if octet / 0x08 == 0x1e then some 4
  else none

/-- Reads the octets of a tag. `more` of them have to be numbers that continue a character. -/
def octets? (more : Nat) : List Char → Option (List Char)
  | [] => if more == 0 then some [] else none
  | '%' :: high :: low :: rest => do
    let octet ← Text.digits? 16 [high, low]
    let more ←
      if more == 0 then (octetCount? octet).map (· - 1)
      else if octet / 0x40 == 2 then some (more - 1)
      else none
    return Char.ofNat octet :: (← octets? more rest)
  | c :: rest =>
    if more == 0 && c != '%' then (octets? 0 rest).map (c :: ·) else none

/-- The text of a tag as far as it goes, and the cursor behind it. -/
def tagText? (whole : Bool) (at_ : Cursor) : Option (String × Cursor) := do
  let written := at_.run (isTagChar whole)
  let octets ← octets? 0 written
  return (String.ofList (octets.takeWhile (· != '\x00')), at_.advance written.length)

def someTagText? (whole : Bool) (at_ : Cursor) : Option (String × Cursor) :=
  if at_.next?.any (isTagChar whole) then tagText? whole at_ else none

/-! ## Tags -/

/-- A tag as it is written. One without a handle stands for itself. -/
structure Tag where
  handle : String
  suffix : String
  deriving DecidableEq

namespace Tag

/-- The tag that asks for nothing in particular. -/
def plain : String := "!"

def null : String := "tag:yaml.org,2002:null"

def int : String := "tag:yaml.org,2002:int"

def bool : String := "tag:yaml.org,2002:bool"

def read? (flow : Bool) (at_ : Cursor) : Option (Tag × Cursor) := do
  let inner := at_.step
  let name := inner.run isNameChar
  let named := inner.advance name.length
  let (tag, behind) ←
    if inner.next? == some '<' then do
      let (suffix, behind) ← someTagText? true inner.step
      pure (Tag.mk "" suffix, ← behind.expect? '>')
    else if named.next? == some '!' then do
      let (suffix, behind) ← someTagText? false named.step
      pure (⟨"!" ++ String.ofList name ++ "!", suffix⟩, behind)
    else do
      let (suffix, behind) ← tagText? false inner
      pure (if suffix.isEmpty then ⟨"", plain⟩ else ⟨"!", suffix⟩, behind)
  if isGap behind.next? || (flow && behind.next? == some ',') then some (tag, behind) else none

/-- The handles that every document knows, with what they stand for. -/
def handles : List (String × String) := [("!", "!"), ("!!", "tag:yaml.org,2002:")]

/-- The full text of a tag. A handle must be known. -/
def resolve? (handles : List (String × String)) (tag : Tag) : Option String :=
  if tag.handle.isEmpty then some tag.suffix
  else (handles.lookup tag.handle).map (· ++ tag.suffix)

end Tag

/-! ## Directives -/

inductive Directive where
  | version (major minor : Nat)
  | shorthand (handle stands : String)
  deriving DecidableEq

namespace Directive

def number? (at_ : Cursor) : Option (Nat × Cursor) := do
  let digits := at_.run Char.isDigit
  if 9 < digits.length then none
  else return (← Text.digits? 10 digits, at_.advance digits.length)

def version? (at_ : Cursor) : Option (Directive × Cursor) := do
  let (major, at_) ← number? at_
  let (minor, at_) ← number? (← at_.expect? '.')
  return (.version major minor, at_)

def shorthand? (at_ : Cursor) : Option (Directive × Cursor) := do
  let at_ ← at_.expect? '!'
  let name := at_.run isNameChar
  let at_ := at_.advance name.length
  let (handle, at_) ←
    if at_.next? == some '!' then pure ("!" ++ String.ofList name ++ "!", at_.step)
    else if name.isEmpty then pure ("!", at_)
    else none
  if at_.next?.any isBlank then do
    let (stands, behind) ← someTagText? true (at_.skipWhile isBlank)
    if isGap behind.next? then some (.shorthand handle stands, behind) else none
  else none

/-- A directive, from its percent sign to the end of its line. -/
def read? (at_ : Cursor) : Option (Directive × Cursor) := do
  let name := at_.step.run isNameChar
  let behind := at_.step.advance name.length
  let value := behind.skipWhile isBlank
  let (directive, end_) ←
    match String.ofList name with
    | "YAML" => version? value
    | "TAG" => shorthand? value
    | _ => none
  if isGap behind.next? then return (directive, ← end_.endLine?) else none

end Directive

end Foresight.Yaml
