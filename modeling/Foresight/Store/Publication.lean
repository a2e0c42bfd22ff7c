import Foresight.Corpus
import Foresight.Ranking.Aggregate
import Foresight.Store.Directory

/-!
# Corpora and suggestions in the data directory

What the files of the data directory say. A corpus that is missing or cannot be read counts as
empty, and so do the published suggestions.
-/

namespace Foresight.Store

open Records

/-- The corpus at a path, strictly. -/
def readCorpus (path : String) (d : Disk) : Outcome (List Observation) := do
  let content ← Outcome.ofAnswer ("Failed to read " ++ path) (d.read path)
  (Corpus.read content).context path

/-- The corpus at a path, empty if it cannot be read. -/
def corpusOrEmpty (path : String) (d : Disk) : List Observation :=
  (readCorpus path d).toOption.getD []

/-- The observations of all corpora, in the order of their names. -/
def observations (s : Store) (d : Disk) : List Observation :=
  (s.corpusNames d).flatMap fun name => corpusOrEmpty (Path.join s.root name) d

/-! ## Published suggestions -/

def suggestionRecord (s : Suggestion) : String :=
  recordText
    (writtenAttributes [("k", s.key), ("c", toString s.count), ("v", encodeFields s.fields),
      ("p", toString s.percentage)] ["v"])
    s.template

def suggestionsDocument (suggestions : List Suggestion) : String :=
  documentText (suggestions.map suggestionRecord)

def suggestionOf (r : Records.Record) : Suggestion :=
  ⟨r.field "k", r.text, r.number "c" 0, r.number "p" 0, decodeFields (r.field "v")⟩

def readSuggestions (document : ByteArray) : Outcome (List Suggestion) := do
  return (← Records.read document).map suggestionOf

/-- The published suggestions; none if they cannot be read. -/
def published (s : Store) (d : Disk) : List Suggestion :=
  match d.read s.suggestionsPath with
  | .ok content => (readSuggestions content).toOption.getD []
  | .error _ => []

/-! ## Building -/

structure BuildSummary where
  dataFiles : Nat
  observations : Nat
  published : Nat
  deriving DecidableEq, Inhabited

def buildProgress (names : List String) (observations : Nat) : List Progress :=
  [.task "Loading data files...", .text ""] ++ names.map .text ++
    [.task "Building suggestions...", .text ("0 of " ++ toString observations)] ++
    Ranking.aggregateProgress observations

def build (s : Store) (thresholds : Thresholds) : OnDisk (BuildSummary × List Progress) := do
  let names ← .look fun d => .ok (s.corpusNames d)
  let observations ← .look fun d => .ok (s.observations d)
  let suggestions := Ranking.aggregate observations thresholds
  s.ensureExists
  write s.suggestionsTempPath (suggestionsDocument suggestions)
  publish s.suggestionsTempPath s.suggestionsPath
  return (⟨names.length, observations.length, suggestions.length⟩,
    buildProgress names observations.length)

end Foresight.Store
