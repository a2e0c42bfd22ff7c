import Foresight.CSharp.Statements
import Foresight.Files.Action
import Foresight.Files.SourceText
import Foresight.Settings.Basic
import Foresight.Solution.Listing

/-!
# Solutions on disk

Every directory that holds a project file is a project, named after that file; a solution without
any is one project itself. A file belongs to the innermost project directory around it. Projects and
declared types are those of the last refresh: files are listed afresh each time, but types are
collected once, when they are first needed, and kept until the next refresh.

Syntax trees come from outside: a `Grammar` makes one of a text.
-/

namespace Foresight

/-- What makes a syntax tree of a source text. -/
abbrev Grammar := String → CSharp.Node

structure Project where
  name : String
  directory : Location
  deriving DecidableEq, Inhabited

structure SolutionDirectory where
  root : Location
  name : String
  settings : AnalysisSettings
  projects : List Project
  /-- The types that the sources declare, once they have been collected. -/
  symbols : Option CSharp.SymbolIndex

namespace SolutionDirectory

def directoryName (location : Location) : String := location.getLast?.getD "Solution"

def isSearched (settings : AnalysisSettings) (location : Location) : Bool :=
  !location.getLast?.any settings.isExcludedDir

def projectOf? (file : Location) : Option Project := do
  let name ← file.getLast?
  let extension ← Path.extensionOf? name
  if Text.sameIgnoringCase "csproj" extension then
    return ⟨Path.stemOf name, file.dropLast⟩
  else none

/-- Takes a project, unless its name or its directory is taken. -/
def addProject (projects : List Project) (p : Project) : List Project :=
  if projects.any fun q => q.directory == p.directory || q.name == p.name then projects
  else projects ++ [p]

def discover (settings : AnalysisSettings) (root : Location) (d : Disk) :
    Outcome (List Project) :=
  if (d.get? root).isNone then
    .error (.io ("Directory traversal failed: IO error for operation on " ++ root.path ++ ": " ++
      SystemError.notFound.text) .notFound)
  else
    let found := (d.filesUnder root (isSearched settings)).filterMap projectOf?
    match found.foldl addProject [] with
    | [] => .ok [⟨directoryName root, root⟩]
    | projects => .ok projects

def openAt (path : String) (settings : AnalysisSettings) (d : Disk) :
    Outcome SolutionDirectory := do
  let root ← Outcome.ofAnswer ("Cannot open solution " ++ path) (d.resolve path)
  if d.get? root != some .directory then
    throw (.validationField (root.path ++ " is not a directory") "root")
  return ⟨root, directoryName root, settings, ← discover settings root d, none⟩

/-- Looks for projects anew, and forgets the declared types. -/
def refresh (s : SolutionDirectory) (d : Disk) : Outcome SolutionDirectory := do
  return { s with projects := ← discover s.settings s.root d, symbols := none }

/-! ## Files -/

/-- The source files of a project, without those of the projects in it. -/
def sources (s : SolutionDirectory) (p : Project) (d : Disk) : List Location :=
  let enters (location : Location) : Bool :=
    isSearched s.settings location && !s.projects.any (·.directory == location)
  (d.filesUnder p.directory enters).filter fun file =>
    (file.getLast?.bind Path.extensionOf?).any s.settings.isSourceExtension

def fileIdOf (p : Project) (file : Location) : String :=
  FileId.of p.name (Text.join "/" (file.drop p.directory.length))

def projectFiles (s : SolutionDirectory) (d : Disk) : List ProjectFiles :=
  s.projects.map fun p => ⟨p.name, (s.sources p d).map (fileIdOf p)⟩

/-- The later of two projects that lies at least as deep. -/
def deeper (best : Option (Project × List Path.Part)) (p : Project × List Path.Part) :
    Option (Project × List Path.Part) :=
  match best with
  | none => some p
  | some b => if b.1.directory.length ≤ p.1.directory.length then some p else some b

/-- The identifier of what lies at a path, if it lies in a project. The path need not exist; a
relative one starts at the root. -/
def fileIdForPath? (s : SolutionDirectory) (path : String) (d : Disk) : Option String :=
  let absolute := Path.join s.root.path path
  let resolved := match d.resolve absolute with
    | .ok location => location.path
    | .error _ => absolute
  let inside := s.projects.filterMap fun p =>
    (Text.dropLead? (Path.parts p.directory.path) (Path.parts resolved)).map (p, ·)
  (inside.foldl deeper none).map fun (p, rest) => FileId.of p.name (Path.names rest)

/-- Where the file of an identifier would lie. -/
def pathForId? (s : SolutionDirectory) (fileId : String) : Option String := do
  let (project, relative) ← FileId.split? fileId
  let p ← s.projects.find? (·.name == project)
  return Path.join p.directory.path relative

/-! ## Types and models -/

/-- Collects the types that all sources declare; a source that cannot be read declares none. -/
def collectSymbols (s : SolutionDirectory) (grammar : Grammar) (d : Disk) : CSharp.SymbolIndex :=
  (s.projects.flatMap fun p => s.sources p d).foldl (fun index file =>
    match SourceText.read d file.path with
    | .ok text => index.addAll (CSharp.declarations text (grammar text))
    | .error _ => index) .empty

/-- The declared types: those that are known, or else those that are on disk now. -/
def declared (s : SolutionDirectory) (grammar : Grammar) (d : Disk) : CSharp.SymbolIndex :=
  s.symbols.getD (s.collectSymbols grammar d)

def remember (s : SolutionDirectory) (grammar : Grammar) (d : Disk) : SolutionDirectory :=
  { s with symbols := some (s.declared grammar d) }

def readId (s : SolutionDirectory) (fileId : String) (d : Disk) : Outcome String := do
  match s.pathForId? fileId with
  | some path => SourceText.read d path
  | none => throw (.validationField ("Unknown file '" ++ fileId ++ "'") "file_id")

def loadWith (index : CSharp.SymbolIndex) (grammar : Grammar) (s : SolutionDirectory)
    (fileId : String) (d : Disk) : Outcome SourceFile := do
  let text ← s.readId fileId d
  return CSharp.lowerFile fileId text index (grammar text)

def listing (s : SolutionDirectory) (grammar : Grammar) (d : Disk) : Listing :=
  let index := s.declared grammar d
  ⟨s.name, s.projectFiles d, fun fileId => s.loadWith index grammar fileId d⟩

end SolutionDirectory

end Foresight
