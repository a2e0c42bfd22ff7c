import Foresight.Code.Lookup
import Foresight.Command.Arguments
import Foresight.Command.Display
import Foresight.Session
import Foresight.Settings.Document

/-!
# Running commands

A command reads and changes the disk and either has an output or fails with a message. Running one
is a function of the disk, the environment and the arguments; nothing else is looked at.
-/

namespace Foresight.Command

/-- What a command takes from its surroundings. -/
structure Environment where
  /-- Where the user's data lies. -/
  dataHome : Option String
  config : Option String
  dataDir : Option String
  deriving Inhabited

structure Result where
  code : Nat
  output : String
  error : Option String
  deriving DecidableEq, Inhabited

/-- A step of a command. Its failures are messages. -/
abbrev Step (α : Type) := ExceptT String (StateM Session) α

variable {α : Type}

/-- Runs an operation of the session; a failure tells everything that is known of it. -/
def perform (action : InSession α) : Step α := fun s =>
  let (outcome, s) := action.run s
  (outcome.mapError Failure.explain, s)

def orFail (message : String) : Option α → Step α
  | some a => return a
  | none => throw message

def line (text : String) : String := text ++ "\n"

/-! ## Output -/

def countCell (n : Nat) : Styled := .of (toString n)

/-- The rows that tell of a pass: those of nothing are left out where nothing is usual. -/
def analysisRows (s : Analysis.Summary) : List (List Styled) :=
  [[Styled.of "Files analyzed", countCell s.filesAnalyzed]] ++
    (if s.filesFailed > 0 then [[.of "Files skipped", (countCell s.filesFailed).yellow]] else []) ++
    (if s.observationsRetained > 0 then
      [[.of "Observations kept", countCell s.observationsRetained]]
    else []) ++
    [[.of "Observations written", countCell s.observationsWritten]]

def buildRows (s : Store.BuildSummary) : List (List Styled) :=
  [[.of "Corpus files", countCell s.dataFiles],
    [.of "Suggestions published", (countCell s.published).brightGreen]]

def summaryTable (rows : List (List Styled)) : String := table ["metric", "value"] rows

def suggestionTable (suggestions : List Suggestion) : String :=
  if suggestions.isEmpty then line (Styled.of "No suggestions published yet").dimmed.written
  else
    table ["key", "template", "count", "%"] (suggestions.map fun s =>
      [.of s.key, .of s.template, countCell s.count, countCell s.percentage])

def offerTable (offers : List Offer) : String :=
  if offers.isEmpty then line (Styled.of "No suggestions for this statement").dimmed.written
  else
    table ["#", "offer", "count", "%"] (offers.zipIdx.map fun (o, i) =>
      [countCell i, .of o.label, countCell o.suggestion.count, countCell o.suggestion.percentage])

def defaultConfigText : String :=
  String.join (["# Default autotemplate configuration",
    "# Save this to a file and customize as needed",
    "# Usage: autotemplate --config your-config.yml analyze <ROOT>"].map fun text =>
      line (Styled.of text).dimmed.written) ++ "\n" ++ line ({} : Settings).document

def customizationTable : String :=
  table ["setting", "description"] ([
    ("suggestions.min_occurrences", "Observations needed before a template is suggested"),
    ("suggestions.min_percentage", "Share of a scope's observations a template needs"),
    ("suggestions.file_saves_before_rebuild", "Saves that trigger a background update"),
    ("storage.data_dir", "Where corpora and suggestions are kept")].map fun (setting, text) =>
      [.of setting, .of text])

/-! ## Commands -/

/-- The settings that a command works with: those of a file, if one is named. -/
def loadSettings (config dataDir : Option String) : Step Settings := do
  let settings ← match config with
    | none => pure ({} : Settings)
    | some path =>
      match Settings.load path (← get).disk with
      | .ok settings => pure settings
      | .error e => throw ("Failed to load configuration from " ++ path ++ ": " ++ e.explain)
  let settings := match dataDir with
    | some directory => { settings with storage := ⟨some directory⟩ }
    | none => settings
  perform (Session.check settings.validate)
  return settings

def openSolution (settings : Settings) (s : SolutionArguments) : Step Unit :=
  perform (Session.openSolution s.root settings.analysis s.name)

def analyze (grammar : Grammar) (quiet : Bool) : Step String := do
  let (analysis, _) ← perform (Session.analyze grammar)
  let (build, _) ← perform Session.build
  return if quiet then "" else summaryTable (analysisRows analysis ++ buildRows build)

/-- The identifiers of files that belong to the open solution. -/
def fileIds (files : List String) : Step (List String) := do
  let s ← get
  return files.filterMap fun file =>
    s.workspace.directory?.bind fun solution => solution.fileIdForPath? file s.disk

def update (grammar : Grammar) (files : List String) (quiet : Bool) : Step String := do
  let (analysis, _) ← perform (Session.update grammar (← fileIds files))
  let (build, _) ← perform Session.build
  return if quiet then "" else summaryTable (analysisRows analysis ++ buildRows build)

def list (key : Option String) (format : ListFormat) : Step String := do
  let suggestions ← match key with
    | some key => perform (Session.publishedFor key)
    | none => perform Session.published
  return match format with
    | .table => suggestionTable suggestions
    | .json => line (suggestionsJson suggestions)

/-- The directory that a file's types are looked for in, unless another is named. -/
def defaultRoot (file : String) : String :=
  match Path.parent? file with
  | some parent => if parent.isEmpty then "." else parent
  | none => "."

def suggest (grammar : Grammar) (file : String) (lineNumber : Nat) (column : Option Nat)
    (chosen : Option Nat) : Step String := do
  let fileId := (← fileIds [file]).headD file
  let text ← perform (Session.check (SourceText.read (← get).disk file))
  let index ← perform (Session.declaredTypes grammar)
  let model := CSharp.lowerFile fileId text index (grammar text)
  let position ← match column with
    | none => pure (Session.Position.line lineNumber)
    | some column =>
      let missing := "Line " ++ toString lineNumber ++ " of " ++ file ++ " does not exist"
      pure (.caret (← orFail missing (caretOffset? text lineNumber column)))
  let (model, offers) ← perform (Session.offers model position)
  match chosen with
  | none => return offerTable offers
  | some index =>
    let missing := "No offer " ++ toString index ++ "; " ++ toString offers.length ++ " available"
    let offer ← orFail missing offers[index]?
    let buffer ← perform (Session.check (offer.apply ⟨model.text, none⟩))
    return buffer.text

/-- Whether the open solution is analysed in the background. Nobody is asked: unless there is an
answer, it is no. -/
def backgroundMode (solution : String) (enable : Bool) : Step BackgroundMode := do
  if enable then
    perform (Session.setBackgroundMode solution .enabled)
    return .enabled
  match ← perform (Session.backgroundMode solution) with
  | some mode => return mode
  | none =>
    perform (Session.setBackgroundMode solution .disabled)
    return .disabled

def watch (enable : Bool) : Step String := do
  let solution := (← get).workspace.solutionName
  let mode ← backgroundMode solution enable
  if mode.isEnabled then
    return line ((Styled.of "Watching").brightGreen.bold.written ++ " " ++
      (Styled.of solution).cyan.written ++ " " ++ (Styled.of "(Ctrl+C to stop)").dimmed.written)
  else
    return line ((Styled.of "Background analysis is disabled for").yellow.written ++ " " ++
      (Styled.of solution).bold.written) ++ line "   Use --enable to turn it on"

def initConfig (output : String) (force : Bool) : Step String := do
  if (← get).disk.exists_ output && !force then
    throw ("Configuration file already exists: " ++ output ++ " (use --force to overwrite)")
  perform (Session.onDisk (({} : Settings).save output))
  return line ((Styled.of "Configuration saved to:").brightGreen.bold.written ++ " " ++
    (Styled.of output).cyan.written) ++ "\n" ++ customizationTable

def runWith (grammar : Grammar) (settings : Settings) : Request → Step String
  | .analyze solution quiet => do
    openSolution settings solution
    analyze grammar quiet
  | .update solution files quiet => do
    openSolution settings solution
    update grammar files quiet
  | .build => do
    let (build, _) ← perform Session.build
    return summaryTable (buildRows build)
  | .list key format => list key format
  | .suggest file lineNumber column root chosen => do
    openSolution settings ⟨root.getD (defaultRoot file), none⟩
    suggest grammar file lineNumber column chosen
  | .watch solution enable => do
    openSolution settings solution
    watch enable
  | .printDefaultConfig => return defaultConfigText
  | .initConfig output force => initConfig output force

def runRequest (grammar : Grammar) (environment : Environment) (a : Arguments) : Step String := do
  match a.request with
  | .printDefaultConfig => return defaultConfigText
  | .initConfig output force => initConfig output force
  | request =>
    let settings ← loadSettings (a.config.or environment.config) (a.dataDir.or environment.dataDir)
    perform (Session.start settings environment.dataHome)
    runWith grammar settings request

def versionText : String := "autotemplate 0.4.0"

def run (grammar : Grammar) (environment : Environment) (arguments : List String) (d : Disk) :
    Result × Disk :=
  match Arguments.parse arguments with
  | .error .version => (⟨0, line versionText, none⟩, d)
  | .error .help => (⟨0, "", none⟩, d)
  | .error .usage => (⟨2, "", none⟩, d)
  | .ok arguments =>
    let session : Session := { (default : Session) with disk := d }
    let (outcome, after) :=
      StateT.run (ExceptT.run (runRequest grammar environment arguments)) session
    match outcome with
    | .ok output => (⟨0, output, none⟩, after.disk)
    | .error message => (⟨1, "", some message⟩, after.disk)

end Foresight.Command
