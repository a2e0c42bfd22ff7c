import Foresight.Files.Action
import Foresight.Settings.Basic
import Foresight.Yaml.Document
import Foresight.Yaml.Writer

/-!
# Settings as a document

A settings file is a YAML document with up to three sections. A section that is missing has its
defaults; one that is there has all of its fields. Unknown names are passed over, a known name may
not come twice. The document and each of its sections may also be a sequence of the values, in the
order of the names.
-/

namespace Foresight

open Yaml

/-! ## Writing -/

def SuggestionSettings.fields (s : SuggestionSettings) : List (String × Value) :=
  [("max_suggestions", .word (toString s.maxSuggestions)),
    ("min_occurrences", .word (toString s.minOccurrences)),
    ("min_percentage", .word (toString s.minPercentage)),
    ("file_saves_before_rebuild", .word (toString s.fileSavesBeforeRebuild)),
    ("use_complete_statement", .word (if s.useCompleteStatement then "true" else "false"))]

def AnalysisSettings.fields (s : AnalysisSettings) : List (String × Value) :=
  [("quiet_period_ms", .word (toString s.quietPeriodMs)),
    ("file_extensions", .texts s.fileExtensions),
    ("exclude_dirs", .texts s.excludeDirs)]

def StorageSettings.fields (s : StorageSettings) : List (String × Value) :=
  match s.dataDir with
  | some directory => [("data_dir", .text directory)]
  | none => []

def Settings.document (s : Settings) : String :=
  Yaml.document [("suggestions", s.suggestions.fields), ("analysis", s.analysis.fields),
    ("storage", s.storage.fields)]

/-! ## Reading -/

namespace SuggestionSettings

def names : List String :=
  ["max_suggestions", "min_occurrences", "min_percentage", "file_saves_before_rebuild",
    "use_complete_statement"]

def ofNode? (d : Document) (node : Node) : Option SuggestionSettings := do
  let fields ← d.fields? names node
  let natural (name : String) : Option Nat := do d.natural? (← fields.lookup name)
  return {
    maxSuggestions := ← natural "max_suggestions"
    minOccurrences := ← natural "min_occurrences"
    minPercentage := ← natural "min_percentage"
    fileSavesBeforeRebuild := ← natural "file_saves_before_rebuild"
    useCompleteStatement := ← d.truth? (← fields.lookup "use_complete_statement") }

end SuggestionSettings

namespace AnalysisSettings

def names : List String := ["quiet_period_ms", "file_extensions", "exclude_dirs"]

def ofNode? (d : Document) (node : Node) : Option AnalysisSettings := do
  let fields ← d.fields? names node
  return {
    quietPeriodMs := ← d.natural? (← fields.lookup "quiet_period_ms")
    fileExtensions := ← d.texts? (← fields.lookup "file_extensions")
    excludeDirs := ← d.texts? (← fields.lookup "exclude_dirs") }

end AnalysisSettings

namespace StorageSettings

def names : List String := ["data_dir"]

def ofNode? (d : Document) (node : Node) : Option StorageSettings := do
  match (← d.fields? names node).lookup "data_dir" with
  | some directory => return ⟨← d.optionalText? directory⟩
  | none => return {}

end StorageSettings

namespace Settings

def names : List String := ["suggestions", "analysis", "storage"]

/-- A section that may be missing. -/
def section? {α : Type} (name : String) (ofNode? : Node → Option α) (default : α)
    (sections : List (String × Node)) : Option α :=
  match sections.lookup name with
  | some node => ofNode? node
  | none => some default

def ofDocument? (d : Document) : Option Settings := do
  let sections ← d.fields? names d.root
  return {
    suggestions := ← section? "suggestions" (SuggestionSettings.ofNode? d) {} sections
    analysis := ← section? "analysis" (AnalysisSettings.ofNode? d) {} sections
    storage := ← section? "storage" (StorageSettings.ofNode? d) {} sections }

def read? (text : String) : Option Settings :=
  (Document.read? text).bind ofDocument?

end Settings

/-! ## Settings files -/

def Settings.load (path : String) (d : Disk) : Outcome Settings := do
  let reading := "Failed to read config file: " ++ path
  let content ← Outcome.ofAnswer reading (d.read path)
  match String.fromUTF8? content with
  | none => throw (.io reading .invalidText)
  | some text =>
    match Settings.read? text with
    | some settings => return settings
    | none => throw (.withContext ("Invalid config file " ++ path) .malformedYaml)

def Settings.save (s : Settings) (path : String) : OnDisk Unit :=
  .change ("Failed to write config file: " ++ path) fun d => d.write path s.document.toUTF8

end Foresight
