import Foresight.Analysis
import Foresight.Offer.Offers
import Foresight.Settings.Basic
import Foresight.Solution.Workspace

/-!
# Sessions

A session is an engine at work: its settings, the workspace that is open, the disk, and the
published suggestions from the moment they are first asked for until a build makes them stale.
Operations may fail; what they have changed before stays changed.
-/

namespace Foresight

/-- What an engine is made of, for as long as it lives. -/
structure Engine where
  settings : Settings
  store : Store
  pipeline : Pipeline
  deriving Inhabited

structure Session where
  disk : Disk
  engine : Engine
  workspace : Workspace
  /-- The published suggestions, while they are loaded. -/
  catalog : Option (List Suggestion)

instance : Inhabited Session := ⟨⟨default, default, default, none⟩⟩

abbrev InSession (α : Type) := ExceptT Failure (StateM Session) α

namespace Session

variable {α : Type}

def run (action : InSession α) (s : Session) : Outcome α × Session :=
  StateT.run (ExceptT.run action) s

def onDisk (action : OnDisk α) : InSession α := fun s =>
  let (outcome, disk) := action.runOn s.disk
  (outcome, { s with disk })

def check (outcome : Outcome α) : InSession α := fun s => (outcome, s)

/-- Starts an engine: its settings are in order and its data directory is there. -/
def start (settings : Settings) (home : Option String) : InSession Unit := do
  check settings.validate
  let store : Store := ⟨← check (settings.dataDirectory home)⟩
  onDisk store.ensureExists
  modify fun s => { s with engine := ⟨settings, store, .standard⟩, catalog := none }

/-- Opens the solution in a directory, under its own name or a given one. -/
def openSolution (path : String) (settings : AnalysisSettings) (name : Option String) :
    InSession Unit := do
  let solution ← check (SolutionDirectory.openAt path settings (← get).disk)
  let named := match name with
    | some name => { solution with name }
    | none => solution
  modify fun s => { s with workspace := .directory named }

def refresh : InSession Unit := do
  let s ← get
  let workspace ← check (s.workspace.refresh s.disk)
  set { s with workspace }

/-- What every pass begins with. The corpus in the making is there before any file is loaded. -/
def beginPass : InSession Unit := do
  let solution := (← get).workspace.solutionName
  check (Analysis.checkName solution)
  let store := (← get).engine.store
  onDisk store.ensureExists
  refresh
  onDisk (Store.create (store.corpusTempPath solution))

/-- The solution as it is now, of which some files are about to be loaded. -/
def listingFor (grammar : Grammar) (fileIds : Listing → List String) : InSession Listing := do
  let s ← get
  let listing := s.workspace.listing grammar s.disk
  set { s with workspace := s.workspace.afterLoading grammar (fileIds listing) s.disk }
  return listing

def analyze (grammar : Grammar) : InSession (Analysis.Summary × List Progress) := do
  beginPass
  let listing ← listingFor grammar Listing.fileIds
  let engine := (← get).engine
  onDisk (Analysis.rebuild engine.store engine.pipeline listing)

/-- Brings the solution's corpus up to date for some files. -/
def update (grammar : Grammar) (changed : List String) :
    InSession (Analysis.Summary × List Progress) := do
  beginPass
  let listing ← listingFor grammar (Analysis.toMine · changed)
  let engine := (← get).engine
  onDisk (Analysis.update engine.store engine.pipeline listing changed)

def build : InSession (Store.BuildSummary × List Progress) := do
  let engine := (← get).engine
  let result ← onDisk (engine.store.build engine.settings.suggestions.thresholds)
  modify fun s => { s with catalog := none }
  return result

/-- What follows a batch of saves. -/
def process (grammar : Grammar) (changed : List String) : InSession Unit := do
  let _ ← update grammar changed
  let _ ← build
  return ()

/-! ## The catalog -/

/-- The published suggestions, loaded if need be. -/
def published : InSession (List Suggestion) := do
  let s ← get
  match s.catalog with
  | some suggestions => return suggestions
  | none =>
    let suggestions := s.engine.store.published s.disk
    set { s with catalog := some suggestions }
    return suggestions

/-- Forgets the suggestions; the next question loads them anew. -/
def invalidate : InSession Unit := modify fun s => { s with catalog := none }

def publishedFor (key : String) : InSession (List Suggestion) := do
  return Offers.forKey (← published) key

/-! ## Source files -/

def declaredTypes (grammar : Grammar) : InSession CSharp.SymbolIndex := do
  let s ← get
  set { s with workspace := s.workspace.remember grammar s.disk }
  return match s.workspace.directory? with
    | some solution => solution.declared grammar s.disk
    | none => .empty

def load (grammar : Grammar) (fileId : String) : InSession SourceFile := do
  let listing ← listingFor grammar fun _ => [fileId]
  check (listing.load fileId)

inductive Position where
  | line (line : Nat)
  | caret (offset : Nat)
  | statement (id : StatementId)
  deriving DecidableEq, Inhabited

def statementAt (file : SourceFile) : Position → InSession (Option StatementId)
  | .line line => do return some (← check (Offers.statementOnLine file line))
  | .caret offset => do
    if (← get).engine.settings.suggestions.useCompleteStatement then
      return Offers.statementAtCaret? file offset
    else return none
  | .statement id => return some id

/-- The offers at a position of a file, and the file with the blocks that they need. The published
suggestions are looked at only if there is a place for any. -/
def offers (file : SourceFile) (position : Position) : InSession (SourceFile × List Offer) := do
  match ← statementAt file position with
  | none => return (file, [])
  | some id =>
    let (file, places) := Offers.places (← get).engine.pipeline file id
    if places.isEmpty then
      return (file, [])
    else
      return (file, Offers.collect (← published) places)

/-! ## Background analysis -/

def backgroundMode (solution : String) : InSession (Option BackgroundMode) := do
  let s ← get
  check (s.engine.store.readMarker solution s.disk)

def setBackgroundMode (solution : String) (mode : BackgroundMode) : InSession Unit := do
  onDisk ((← get).engine.store.writeMarker solution mode)

end Session

end Foresight
