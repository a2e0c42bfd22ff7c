import Foresight.Table
import Foresight.Text.Blank

/-!
# Record documents

Corpora and suggestions are stored in one form: a root element with one child element for each
record, the record's fields as attributes and its template as text. This module writes the form. The
five characters that markup uses are written as entities, in text and attributes alike; everything
else is written as it is.
-/

namespace Foresight.Records

structure Record where
  attributes : Fields
  text : String
  deriving DecidableEq, Inhabited

/-- The name of the root and of every record. -/
def elementName : String := "i"

def escapeChar : Char → List Char
  | '<' => "&lt;".toList
  | '>' => "&gt;".toList
  | '&' => "&amp;".toList
  | '\'' => "&apos;".toList
  | '"' => "&quot;".toList
  | c => [c]

def escape (text : String) : String :=
  String.ofList (text.toList.flatMap escapeChar)

/-- The attributes that are written: an optional one only if it has a value. -/
def writtenAttributes (attributes : List (String × String)) (optional : List String) :
    List (String × String) :=
  attributes.filter fun (name, value) => !(value.isEmpty && optional.contains name)

def attributeText (entry : String × String) : String :=
  " " ++ entry.1 ++ "=\"" ++ escape entry.2 ++ "\""

def recordText (attributes : List (String × String)) (text : String) : String :=
  "\n  <" ++ elementName ++ String.join (attributes.map attributeText) ++ ">" ++ escape text ++
    "</" ++ elementName ++ ">"

def documentText (records : List String) : String :=
  "<" ++ elementName ++ ">" ++ String.join records ++ "\n</" ++ elementName ++ ">"

/-- The text of a table: names and values in turn, with bars between them. The first bar is left
out as long as nothing has been written. -/
def encodeFields (fields : Fields) : String :=
  fields.entries.foldl (fun written (name, value) =>
    (if written.isEmpty then written else written ++ "|") ++ name ++ "|" ++ value) ""

/-- Neighbours taken two by two; a last one without a partner is dropped. -/
def pairUp {α : Type} : List α → List (α × α)
  | a :: b :: rest => (a, b) :: pairUp rest
  | _ => []

def decodeFields (text : String) : Fields :=
  .ofList (pairUp (Text.splitAt '|' text))

/-- An attribute's value, empty when it is missing. -/
def Record.field (r : Record) (name : String) : String :=
  (r.attributes.get? name).getD ""

end Foresight.Records
