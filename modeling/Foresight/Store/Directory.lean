import Foresight.Files.Action
import Foresight.Store.Marker

/-!
# The data directory

Corpora, published suggestions and markers lie side by side in one directory. A document is never
written in place: it is written to a temporary file first, which then takes the place of the live
one, either by moving (`publish`) or by copying (`replaceByCopy`).
-/

namespace Foresight

structure Store where
  root : String
  deriving DecidableEq, Inhabited

namespace Store

def suggestionsName : String := "_Suggestions.xml"

def suggestionsPath (s : Store) : String := Path.join s.root suggestionsName

def suggestionsTempPath (s : Store) : String := Path.join s.root "_Suggestions.tmp"

def corpusPath (s : Store) (solution : String) : String := Path.join s.root (solution ++ ".xml")

def corpusTempPath (s : Store) (solution : String) : String := Path.join s.root (solution ++ ".tmp")

def markerPath (s : Store) (solution : String) : String := Path.join s.root (solution ++ ".config")

/-- Makes the directory if it is not there. -/
def ensureExists (s : Store) : OnDisk Unit :=
  .changeInSteps ("Failed to create data directory: " ++ s.root) fun d =>
    d.createDirectories s.root

/-- Whether a file of this name is a corpus: visible, and not the published suggestions. -/
def isCorpusName (name : String) : Bool :=
  !Path.isHiddenName name &&
    (Path.extensionOf? name).any (Text.sameIgnoringCase "xml") &&
    !Text.sameIgnoringCase suggestionsName name

/-- The names of the corpora, in order. A directory that is not there has none. -/
def corpusNames (s : Store) (d : Disk) : List String :=
  match d.locate s.root with
  | .error _ => []
  | .ok location =>
    match d.get? location with
    | some .directory =>
      (d.namesIn location).filter fun name =>
        isCorpusName name && d.isFile (Path.join s.root name)
    | _ => []

/-! ## Documents -/

/-- Starts a document at a path, empty. -/
def create (path : String) : OnDisk Unit :=
  .change ("Failed to create " ++ path) fun d => d.write path .empty

def write (path document : String) : OnDisk Unit :=
  .change ("Failed to create " ++ path) fun d => d.write path document.toUTF8

/-- Deletes a file, if there is one. -/
def removeIfExists (path : String) : OnDisk Unit :=
  .change ("Failed to delete " ++ path) fun d =>
    match d.remove path with
    | .error .notFound => .ok d
    | answer => answer

/-- Moves a temporary file into the place of a live one. -/
def publish (temp target : String) : OnDisk Unit := do
  removeIfExists target
  .change ("Failed to publish " ++ target) fun d => d.move temp target

/-- Copies a temporary file over a live one, and deletes it. -/
def replaceByCopy (temp target : String) : OnDisk Unit := do
  .change ("Failed to replace " ++ target) fun d => d.copy temp target
  removeIfExists temp

/-! ## Markers -/

/-- The marker of a solution, if the question has been answered. -/
def readMarker (s : Store) (solution : String) (d : Disk) : Outcome (Option BackgroundMode) := do
  let path := s.markerPath solution
  if !d.exists_ path then
    return none
  let reading := "Failed to read marker: " ++ path
  let content ← Outcome.ofAnswer reading (d.read path)
  match String.fromUTF8? content with
  | some text => return some (← BackgroundMode.parse text)
  | none => throw (.io reading .invalidText)

def writeMarker (s : Store) (solution : String) (mode : BackgroundMode) : OnDisk Unit := do
  s.ensureExists
  let path := s.markerPath solution
  .change ("Failed to write marker: " ++ path) fun d => d.write path mode.text.toUTF8

end Store

end Foresight
