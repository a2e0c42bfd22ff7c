import Foresight.Mining
import Foresight.Solution.Listing
import Foresight.Store.Publication

/-!
# Analysing a solution

A corpus is made from scratch (`rebuild`) or brought up to date for some files (`update`). An update
keeps what the corpus holds of other files and mines the changed ones that the solution still has.
Both come down to a list of observations, `mined` or `updated`, that depends on nothing but the
listing and the corpus as it was; all else is moving documents about.
-/

namespace Foresight.Analysis

structure Summary where
  filesAnalyzed : Nat
  filesFailed : Nat
  observationsRetained : Nat
  observationsWritten : Nat
  deriving DecidableEq, Inhabited

/-- The observations of a file, none if it does not load. -/
def mine (p : Pipeline) (l : Listing) (fileId : String) : List Observation :=
  match l.load fileId with
  | .ok file => p.analyzeFile file fileId
  | .error _ => []

/-- The observations of some files, in their order. -/
def mined (p : Pipeline) (l : Listing) (fileIds : List String) : List Observation :=
  fileIds.flatMap (mine p l)

def loads (l : Listing) (fileId : String) : Bool := (l.load fileId).isOk

/-- The first occurrences. -/
def distinct (fileIds : List String) : List String :=
  fileIds.foldl (fun seen fileId => if seen.contains fileId then seen else seen ++ [fileId]) []

/-- The changed files that an update mines: those that the solution has, each once. -/
def toMine (l : Listing) (changed : List String) : List String :=
  (distinct changed).filter l.fileIds.contains

def updated (p : Pipeline) (l : Listing) (changed : List String)
    (previous : List Observation) : List Observation :=
  Corpus.retainUnchanged changed previous ++ mined p l (toMine l changed)

/-- What a pass comes to that has mined some files and kept `retained` observations. -/
def summarize (l : Listing) (fileIds : List String) (retained written : Nat) : Summary :=
  ⟨(fileIds.filter (loads l)).length, (fileIds.filter (!loads l ·)).length, retained, written⟩

/-! ## Passes -/

def rebuild (s : Store) (p : Pipeline) (l : Listing) : OnDisk (Summary × List Progress) := do
  let observations := mined p l l.fileIds
  Store.write (s.corpusTempPath l.solution) (Corpus.document observations)
  Store.publish (s.corpusTempPath l.solution) (s.corpusPath l.solution)
  return (summarize l l.fileIds 0 observations.length,
    l.projects.flatMap fun q => .task q.name :: q.fileIds.map .text)

/-- Brings the corpus of a solution up to date for some files. -/
def update (s : Store) (p : Pipeline) (l : Listing) (changed : List String) :
    OnDisk (Summary × List Progress) := do
  let previous ← .look fun d => .ok (Store.corpusOrEmpty (s.corpusPath l.solution) d)
  let observations := updated p l changed previous
  Store.write (s.corpusTempPath l.solution) (Corpus.document observations)
  Store.replaceByCopy (s.corpusTempPath l.solution) (s.corpusPath l.solution)
  let files := toMine l changed
  return (summarize l files (Corpus.retainUnchanged changed previous).length observations.length,
    .task l.solution :: files.map .text)

/-- The name of a solution, which its files are called by. -/
def checkName (solution : String) : Outcome Unit :=
  if Text.isBlankText solution then
    .error (.validationField "Solution name must not be empty" "solution")
  else .ok ()

end Foresight.Analysis
