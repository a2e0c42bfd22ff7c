import Foresight.CSharp.Rows
import Foresight.Command.Run

/-!
# The command line

What a command may look at is read into a `Disk` before it runs: what lies at the paths among its
arguments, and the data of earlier runs. What it has changed is written back when it is done. Trees
of sources are read from rows that lie beside them, those of `A.cs` in `A.cs.rows`.
-/

namespace Foresight.Command

/-! ## Trees of sources -/

def rowsEnding : String := ".rows"

/-- The text that a file of rows on a disk is about, and its tree. -/
def sourceTree? (d : Disk) (location : Location) : Option (String × CSharp.Node) := do
  let source ← Text.stripTail? rowsEnding location.path
  let text := (SourceText.read d source).toOption
  let rows := (SourceText.read d location.path).toOption
  return (← text, .ofRows ((Text.splitAt '\n' (← rows)).filterMap CSharp.Row.ofLine?))

/-- The trees of all sources on a disk; a text without rows is one with nothing in it. -/
def grammarOn (d : Disk) : Grammar :=
  let trees := d.entries.filterMap fun entry => sourceTree? d entry.1
  fun text => (trees.lookup text).getD (.ofNothing text)

/-! ## Disks in files -/

/-- The location that an absolute path names. -/
def locationOf (path : String) : Location := (Path.parts path).filterMap Path.Part.name?

def addEntry (d : Disk) (location : Location) (entry : DiskEntry) : Disk :=
  ((List.range location.length).foldl (fun d n => d.put (location.take n) .directory) d).put
    location entry

/-- Adds what lies at a path. Of a path that leads nowhere, what it starts with is added. -/
partial def addTree (d : Disk) (path : String) : IO Disk := do
  let place := (← IO.currentDir) / path
  if ← place.isDir then
    let real ← IO.FS.realPath place
    (← real.readDir).foldlM (fun d entry => addTree d entry.path.toString)
      (addEntry d (locationOf real.toString) .directory)
  else if ← place.pathExists then
    let real ← IO.FS.realPath place
    return addEntry d (locationOf real.toString) (.file (← IO.FS.readBinFile real))
  else
    match place.parent with
    | some above => addSurroundings d above.toString
    | none => return d
where
  addSurroundings (d : Disk) (path : String) : IO Disk := do
    let place := (← IO.currentDir) / path
    if ← place.isDir then
      return addEntry d (locationOf (← IO.FS.realPath place).toString) .directory
    else
      addTree d path

def writeBack (before after : Disk) : IO Unit := do
  for (location, entry) in after.under [] do
    if before.get? location ≠ some entry then
      match entry with
      | .directory => IO.FS.createDirAll location.path
      | .file content => IO.FS.writeBinFile location.path content
  for (location, entry) in (before.under []).reverse do
    if (after.get? location).isNone then
      match entry with
      | .directory => IO.FS.removeDir location.path
      | .file _ => IO.FS.removeFile location.path

/-! ## Surroundings -/

/-- Where a user's data lies: at an absolute path of the user's choice, or else below the home. -/
def dataHomeOf (chosen home : Option String) : Option String :=
  (chosen.filter Path.isAbsolute).or (home.map (Path.join · ".local/share"))

def environment : IO Environment := do
  return {
    dataHome := dataHomeOf (← IO.getEnv "XDG_DATA_HOME") (← IO.getEnv "HOME")
    config := ← IO.getEnv "AUTOTEMPLATE_CONFIG"
    dataDir := ← IO.getEnv "AUTOTEMPLATE_DATA_DIR" }

/-- The paths at which a request looks, with all that lies below. -/
def requestPaths : Request → List String
  | .analyze solution _ => [solution.root]
  | .update solution files _ => solution.root :: files
  | .suggest file _ _ root _ => [file, root.getD (defaultRoot file)]
  | .watch solution _ => [solution.root]
  | .initConfig output _ => [output]
  | _ => []

def argumentPaths (arguments : List String) : List String :=
  match Arguments.parse arguments with
  | .ok a => requestPaths a.request ++ a.config.toList ++ a.dataDir.toList
  | .error _ => []

/-- The data directory of a user who has chosen none. -/
def environmentPaths (e : Environment) : List String :=
  e.config.toList ++ e.dataDir.toList ++
    (({} : Settings).dataDirectory e.dataHome).toOption.toList

/-- The disk that a command runs on. A configured data directory is read where it is named. -/
def diskFor (e : Environment) (arguments : List String) : IO Disk := do
  let here := locationOf (← IO.currentDir).toString
  let d ← (argumentPaths arguments ++ environmentPaths e).foldlM addTree
    (addEntry (.empty here) here .directory)
  match (argumentPaths arguments ++ e.config.toList).findSome? (configuredData? d) with
  | some directory => addTree d directory
  | none => return d
where
  configuredData? (d : Disk) (path : String) : Option String :=
    (Settings.load path d).toOption.bind (·.storage.dataDir)

end Foresight.Command

open Foresight Command in
def main (arguments : List String) : IO UInt32 := do
  let surroundings ← environment
  let before ← diskFor surroundings arguments
  let (result, after) := run (grammarOn before) surroundings arguments before
  writeBack before after
  IO.print result.output
  match result.error with
  | some message => IO.eprintln ("error: " ++ message)
  | none => pure ()
  return result.code.toUInt32
