import Foresight.Observation
import Foresight.Records.Reader

/-!
# Corpora

A corpus holds the observations of one solution, a record for each: the key, the file, the fields
unless there are none, and the template as text.
-/

namespace Foresight.Corpus

open Records

def recordOf (o : Observation) : String :=
  recordText
    (writtenAttributes [("k", o.key), ("f", o.file), ("v", encodeFields o.fields)] ["v"])
    o.template

def document (observations : List Observation) : String :=
  documentText (observations.map recordOf)

def observationOf (r : Record) : Observation :=
  ⟨r.field "k", r.field "f", r.text, decodeFields (r.field "v")⟩

def read (document : ByteArray) : Outcome (List Observation) := do
  let records ← Records.read document
  return records.map observationOf

/-- The observations of files that have not changed. -/
def retainUnchanged (changed : List String) (observations : List Observation) :
    List Observation :=
  observations.filter fun o => !changed.contains o.file

end Foresight.Corpus
