import Foresight.Failure
import Foresight.Files.Path
import Foresight.Ranking.Thresholds

/-!
# Settings

What a user can configure: when a suggestion is published, which files are sources, and where the
data lies. Settings that are left out have defaults. Values are checked where they are used, not
where they are read, and the first one that is out of range is the one that is reported.
-/

namespace Foresight

/-- When a suggestion is published, and how eagerly it is kept up and offered. -/
structure SuggestionSettings where
  maxSuggestions : Nat := 7
  minOccurrences : Nat := 3
  minPercentage : Nat := 20
  fileSavesBeforeRebuild : Nat := 40
  useCompleteStatement : Bool := true
  deriving DecidableEq, Inhabited

/-- What counts as a source file, and how long to wait for more saves. -/
structure AnalysisSettings where
  quietPeriodMs : Nat := 1000
  fileExtensions : List String := ["cs"]
  excludeDirs : List String := ["bin", "obj", ".git", ".vs"]
  deriving DecidableEq, Inhabited

structure StorageSettings where
  /-- Where the data lies, unless it lies with the user's other data. -/
  dataDir : Option String := none
  deriving DecidableEq, Inhabited

structure Settings where
  suggestions : SuggestionSettings := {}
  analysis : AnalysisSettings := {}
  storage : StorageSettings := {}
  deriving DecidableEq, Inhabited

/-! ## Validation -/

def requirePositive (value : Nat) (field : String) : Outcome Unit :=
  if value = 0 then .error (.validationField (field ++ " must be greater than 0") field)
  else .ok ()

def requireBounded (value least most : Nat) (field : String) : Outcome Unit :=
  if value < least ∨ most < value then
    .error (.validationField
      (field ++ " must be between " ++ toString least ++ " and " ++ toString most) field)
  else .ok ()

def SuggestionSettings.validate (s : SuggestionSettings) : Outcome Unit := do
  requirePositive s.minOccurrences "suggestions.min_occurrences"
  requireBounded s.minPercentage 0 100 "suggestions.min_percentage"
  requirePositive s.fileSavesBeforeRebuild "suggestions.file_saves_before_rebuild"

def SuggestionSettings.thresholds (s : SuggestionSettings) : Thresholds :=
  .new s.maxSuggestions s.minOccurrences s.minPercentage

namespace AnalysisSettings

def validate (s : AnalysisSettings) : Outcome Unit := do
  requirePositive s.quietPeriodMs "analysis.quiet_period_ms"
  if s.fileExtensions.isEmpty then
    throw (.validationField "At least one source file extension is required"
      "analysis.file_extensions")
  match s.fileExtensions.find? (Text.beginsWith ".") with
  | some extension =>
    throw (.validationField
      ("File extension '" ++ extension ++ "' must be given without a leading dot")
      "analysis.file_extensions")
  | none => return ()

/-- Whether a file with this extension is a source; the case of ASCII letters does not matter. -/
def isSourceExtension (s : AnalysisSettings) (extension : String) : Bool :=
  s.fileExtensions.any (Text.sameIgnoringCase extension)

def isExcludedDir (s : AnalysisSettings) (name : String) : Bool :=
  s.excludeDirs.contains name

end AnalysisSettings

namespace Settings

def validate (s : Settings) : Outcome Unit := do
  s.suggestions.validate
  s.analysis.validate

/-- The directory for the data: the configured one, or a folder of its own in `home`, the place for
a user's data. -/
def dataDirectory (s : Settings) (home : Option String) : Outcome String :=
  match s.storage.dataDir, home with
  | some directory, _ => .ok directory
  | none, some home => .ok (Path.join home "PredictiveCodeSuggestions")
  | none, none => .error (.configField "No local data directory is available on this platform"
      "storage.data_dir")

end Settings

end Foresight
