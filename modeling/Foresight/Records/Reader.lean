import Foresight.Records.Document
import Foresight.Records.Markup

/-!
# Reading records

The elements directly inside an outermost element are records. Whatever text stands anywhere inside
a record belongs to it, in the order of the document; the elements in between only have to be closed
as they were opened. Outside records nothing is decoded. A document that ends inside an element is
refused as a whole, so a document that was cut off is never half read.
-/

namespace Foresight.Records

open Text

structure Reading where
  /-- The names of the elements that are open, innermost first. -/
  opened : List (List Glyph)
  current : Option Record
  /-- The records that are complete, in reverse. -/
  records : List Record
  deriving Inhabited

namespace Reading

def start : Reading := ⟨[], none, []⟩

/-- Appends text to the record that is being read, if there is one. -/
def write (r : Reading) (text : Outcome String) : Outcome Reading :=
  match r.current with
  | none => .ok r
  | some record => do
    let text ← text
    return { r with current := some { record with text := record.text ++ text } }

def plainText (glyphs : List Glyph) : Outcome String :=
  match (Utf8.strict? glyphs).bind unescape? with
  | some text => .ok text
  | none => .error .malformedMarkup

def step (r : Reading) : Token → Outcome Reading
  | .text glyphs => r.write (plainText glyphs)
  | .rawText glyphs => r.write (.ok (Utf8.lossy glyphs))
  | .open_ name attributes =>
    let r' := { r with opened := name :: r.opened }
    if r.opened.length = 1 then do
      let fields ← readAttributes [] .empty attributes
      return { r' with current := some ⟨fields, ""⟩ }
    else .ok r'
  | .selfClosing attributes =>
    if r.opened.length = 1 then do
      let fields ← readAttributes [] .empty attributes
      return { r with records := ⟨fields, ""⟩ :: r.records }
    else .ok r
  | .close name =>
    match r.opened with
    | [] => .error .malformedMarkup
    | expected :: opened =>
      if name = expected then
        if opened.length = 1 then
          .ok ⟨opened, none, r.current.toList ++ r.records⟩
        else .ok { r with opened := opened }
      else .error .malformedMarkup
  | .skipped => .ok r
  | .fault => .error .malformedMarkup

/-- The records, once the document has ended outside all elements. -/
def finish (r : Reading) : Outcome (List Record) :=
  if r.opened.isEmpty then .ok r.records.reverse else .error .truncatedRecords

end Reading

def ofTokens (tokens : List Token) : Outcome (List Record) := do
  let reading ← tokens.foldlM Reading.step .start
  reading.finish

def read (document : ByteArray) : Outcome (List Record) :=
  ofTokens (tokens document)

/-- An attribute's number, or the default when it is missing or malformed. -/
def Record.number (r : Record) (name : String) (default_ : Nat) : Nat :=
  ((r.attributes.get? name).bind fun value => Text.natural? (trim value)).getD default_

end Foresight.Records
