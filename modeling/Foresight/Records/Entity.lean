import Foresight.Text.Number

/-!
# Entities

Markup text read back: the five named entities and numbered characters. An ampersand without its
semicolon, any other name, the number zero and a number that is no character are refused. A number
has at most seven decimal or six hexadecimal digits.
-/

namespace Foresight.Records

def namedEntity? (name : List Char) : Option Char :=
  if name = "lt".toList then some '<'
  else if name = "gt".toList then some '>'
  else if name = "amp".toList then some '&'
  else if name = "apos".toList then some '\''
  else if name = "quot".toList then some '"'
  else none

/-- The character with a number, which is neither zero nor a surrogate nor too large. -/
def character? (n : Nat) : Option Char :=
  if n = 0 then none
  else if n < 0xd800 || (0xdfff < n && n < 0x110000) then some (Char.ofNat n)
  else none

/-- The character that the text between an ampersand and its semicolon stands for. -/
def entity? : List Char → Option Char
  | '#' :: 'x' :: digits =>
    if digits.length > 6 then none else (Text.digits? 16 digits).bind character?
  | '#' :: digits =>
    if digits.length > 7 then none else (Text.digits? 10 digits).bind character?
  | name => namedEntity? name

/-- Reads on after the characters `read`, held in reverse; `entity` holds the reversed name of an
entity that has begun. -/
def unescapeOnto : (read : List Char) → (entity : Option (List Char)) → List Char →
    Option (List Char)
  | read, none, [] => some read.reverse
  | _, some _, [] => none
  | read, none, c :: rest =>
    if c = '&' then unescapeOnto read (some []) rest else unescapeOnto (c :: read) none rest
  | read, some name, c :: rest =>
    if c = ';' then
      match entity? name.reverse with
      | some e => unescapeOnto (e :: read) none rest
      | none => none
    else if c = '&' then none
    else unescapeOnto read (some (c :: name)) rest

def unescape? (text : String) : Option String :=
  (unescapeOnto [] none text.toList).map String.ofList

end Foresight.Records
