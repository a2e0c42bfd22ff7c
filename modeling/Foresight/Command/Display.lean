import Foresight.Ranking.Aggregate
import Foresight.Text.Blank
import Foresight.Text.Cut
import Foresight.Text.Terminal
import Foresight.Yaml.Writer

/-!
# Displaying results

Results are shown as tables with rounded corners, as JSON, or as plain lines. A styled text knows
how it looks without its styles, which is what counts for the width of a column.
-/

namespace Foresight.Command

/-! ## Styles -/

structure Styled where
  plain : String
  written : String
  deriving Inhabited

namespace Styled

/-- A text without a style. -/
def of (text : String) : Styled := ⟨text, text⟩

def wrap (on off : String) (s : Styled) : Styled :=
  ⟨s.plain, "\x1b[" ++ on ++ "m" ++ s.written ++ "\x1b[" ++ off ++ "m"⟩

def bold : Styled → Styled := wrap "1" "0"
def dimmed : Styled → Styled := wrap "2" "0"
def yellow : Styled → Styled := wrap "33" "39"
def cyan : Styled → Styled := wrap "36" "39"
def brightGreen : Styled → Styled := wrap "92" "39"

end Styled

/-! ## Tables -/

def cellLines (s : Styled) : List Styled :=
  match Text.splitAt '\n' s.plain with
  | [_] => [s]
  | lines => lines.map .of

def cellWidth (s : Styled) : Nat :=
  ((cellLines s).map fun line => Text.columns line.plain).foldl max 0

def columnWidths (rows : List (List Styled)) : List Nat :=
  rows.foldl (fun widths row =>
    (List.range (max widths.length row.length)).map fun i =>
      max (widths.getD i 0) ((row[i]?.map cellWidth).getD 0)) []

def repeatText (text : String) (count : Nat) : String :=
  String.join (List.replicate count text)

def rule (left middle right : String) (widths : List Nat) : String :=
  left ++ Text.join middle (widths.map fun width => repeatText "─" (width + 2)) ++ right ++ "\n"

/-- One line of a cell, filled up to the width of its column. -/
def padded (width : Nat) (line : Styled) : String :=
  " " ++ line.written ++ repeatText " " (width - Text.columns line.plain) ++ " "

/-- A row, over as many lines as its highest cell has. -/
def rowText (widths : List Nat) (row : List Styled) : String :=
  let cells := row.map cellLines
  let height := (cells.map List.length).foldl max 0
  String.join ((List.range height).map fun i =>
    "│" ++ Text.join "│" ((widths.zip cells).map fun (width, lines) =>
      padded width (lines.getD i (.of ""))) ++ "│\n")

def table (header : List String) (rows : List (List Styled)) : String :=
  let header := header.map Styled.of
  let widths := columnWidths (header :: rows)
  rule "╭" "┬" "╮" widths ++ rowText widths header ++ rule "├" "┼" "┤" widths ++
    String.join (rows.map (rowText widths)) ++ rule "╰" "┴" "╯" widths

/-! ## JSON -/

/-- The mark of a character that has an escape of its own. -/
def jsonMark? (c : Char) : Option Char :=
  [('"', '"'), ('\\', '\\'), ('\x08', 'b'), ('\t', 't'), ('\n', 'n'), ('\x0c', 'f'),
    ('\r', 'r')].lookup c

def jsonEscaped (c : Char) : List Char :=
  match jsonMark? c with
  | some mark => ['\\', mark]
  | none =>
    if c.toNat < 0x20 then
      '\\' :: 'u' :: (Yaml.hexDigits 4 c.toNat).map Char.toLower
    else [c]

def jsonText (text : String) : String :=
  "\"" ++ String.ofList (text.toList.flatMap jsonEscaped) ++ "\""

/-- Entries in brackets, each on a line of its own behind `indent`. -/
def jsonBlock (opening closing indent : String) (entries : List String) : String :=
  if entries.isEmpty then opening ++ closing
  else
    opening ++ "\n" ++ Text.join ",\n" (entries.map (indent ++ "  " ++ ·)) ++ "\n" ++ indent ++
      closing

def jsonObject (indent : String) (fields : List (String × String)) : String :=
  jsonBlock "\x7b" "\x7d" indent (fields.map fun (name, value) => jsonText name ++ ": " ++ value)

def suggestionJson (s : Suggestion) : String :=
  jsonObject "  " [("key", jsonText s.key), ("template", jsonText s.template),
    ("count", toString s.count), ("percentage", toString s.percentage),
    ("variables", jsonObject "    " (s.fields.entries.map fun (n, v) => (n, jsonText v)))]

def suggestionsJson (suggestions : List Suggestion) : String :=
  jsonBlock "[" "]" "" (suggestions.map suggestionJson)

end Foresight.Command
