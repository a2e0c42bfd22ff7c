import Foresight.Table
import Foresight.Text.Blank
import Foresight.Text.Cut

/-!
# Merging suggestions

Observations of one template bring a suggestion for each of its placeholders. Lists of constants are
joined; any other disagreement leaves the empty suggestion, which asks the user, and it stays empty
whatever comes later.
-/

namespace Foresight.Ranking

/-- What a list of constants begins with. -/
def constantLead : String := "c:"

/-- The suggestion function for a placeholder that the user fills in. -/
def completeSmart : String := "completeSmart()"

/-- The constants of a value that is a list of them, as one text with commas. -/
def constants? (value : String) : Option String := Text.stripLead? constantLead value

/-- The value after `incoming` meets `existing`. -/
def mergeValue (existing incoming : String) : String :=
  match constants? existing, constants? incoming with
  | some known, some choice =>
    if (Text.splitAt ',' known).contains choice then existing else existing ++ "," ++ choice
  | some _, none => ""
  | none, _ => if existing = incoming then existing else ""

/-- One name of an incoming map meets the merged map. -/
def mergeEntry (current : Fields) (entry : String × String) : Fields :=
  match current.get? entry.1 with
  | none => current.insert entry.1 entry.2
  | some existing => current.insert entry.1 (mergeValue existing entry.2)

/-- Merges the fields of an observation into those of a tally. -/
def mergeFields (incoming current : Fields) : Fields :=
  incoming.entries.foldl mergeEntry current

/-- The suggestion function that is published for a merged value. -/
def publishValue (value : String) : String :=
  if value.isEmpty then completeSmart
  else match constants? value with
    | some choices => "list(\"" ++ choices ++ "\")"
    | none => value

end Foresight.Ranking
