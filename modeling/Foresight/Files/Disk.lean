import Foresight.Failure
import Foresight.Files.Path

/-!
# Disks

A disk holds files and directories at locations: the names on the way down from the root, which is
always there. Paths are resolved from left to right, each step in a directory that exists; relative
ones start at the working directory. What the disk refuses to do it refuses as an operating system
does, and a refused operation changes nothing; only the directories around one that is refused may
have been made.

`get?` is the view through which each operation is described.
-/

namespace Foresight

/-- The names from the root down. -/
abbrev Location := List String

inductive DiskEntry where
  | file (content : ByteArray)
  | directory
  deriving Inhabited

instance : DecidableEq DiskEntry
  | .file content, .file other => match ByteArray.instDecidableEq content other with
    | .isTrue h => .isTrue (congrArg DiskEntry.file h)
    | .isFalse h => .isFalse fun heq => h (DiskEntry.file.inj heq)
  | .file _, .directory => .isFalse nofun
  | .directory, .file _ => .isFalse nofun
  | .directory, .directory => .isTrue rfl

structure Disk where
  entries : List (Location × DiskEntry)
  workingDirectory : Location
  nodup : (entries.map Prod.fst).Nodup

def Location.path (location : Location) : String :=
  "/" ++ Text.join "/" location

namespace Disk

/-- What the disk answers: a value, or a refusal. -/
abbrev Answer (α : Type) := Except SystemError α

def empty (workingDirectory : Location) : Disk := ⟨[], workingDirectory, List.nodup_nil⟩

instance : Inhabited Disk := ⟨empty []⟩

def get? (d : Disk) (location : Location) : Option DiskEntry :=
  if location = [] then some .directory else d.entries.lookup location

theorem nodup_filter {entries : List (Location × DiskEntry)} (keep : Location → Bool)
    (h : (entries.map Prod.fst).Nodup) :
    ((entries.filter fun e => keep e.1).map Prod.fst).Nodup :=
  h.sublist (List.filter_sublist.map Prod.fst)

/-- Keeps the entries at some locations only. -/
def restrict (d : Disk) (keep : Location → Bool) : Disk :=
  { d with
    entries := d.entries.filter fun e => keep e.1
    nodup := nodup_filter keep d.nodup }

theorem nodup_put {entries : List (Location × DiskEntry)} (location : Location) (entry : DiskEntry)
    (h : (entries.map Prod.fst).Nodup) :
    ((entries.filter (fun e => e.1 != location) ++ [(location, entry)]).map Prod.fst).Nodup := by
  rw [List.map_append, List.nodup_append]
  refine ⟨nodup_filter (· != location) h, by simp, ?_⟩
  intro a ha b hb
  rw [List.map_cons, List.map_nil, List.mem_singleton] at hb
  rw [List.mem_map] at ha
  obtain ⟨e, he, rfl⟩ := ha
  have := (List.mem_filter.1 he).2
  simp_all

def put (d : Disk) (location : Location) (entry : DiskEntry) : Disk :=
  { d with
    entries := d.entries.filter (fun e => e.1 != location) ++ [(location, entry)]
    nodup := nodup_put location entry d.nodup }

def erase (d : Disk) (location : Location) : Disk :=
  d.restrict (· != location)

theorem lookup_filter_fst {α β : Type} [BEq α] [LawfulBEq α] (keep : α → Bool) (a : α)
    (entries : List (α × β)) :
    (entries.filter fun e => keep e.1).lookup a = if keep a then entries.lookup a else none := by
  induction entries with
  | nil => simp
  | cons e rest ih =>
    obtain ⟨b, value⟩ := e
    by_cases h : a = b
    · subst h
      by_cases hk : keep a <;> simp [hk, ih]
    · by_cases hk : keep b <;> simp [hk, ih, List.lookup_cons, beq_false_of_ne h]

/-- What is kept is as it was, and what is not is gone. -/
theorem get?_restrict (d : Disk) (keep : Location → Bool) {location : Location}
    (h : location ≠ []) :
    (d.restrict keep).get? location = if keep location then d.get? location else none := by
  simp [get?, restrict, h, lookup_filter_fst]

/-- An entry that is placed is there, and all others are as they were. -/
theorem get?_put (d : Disk) {location : Location} (entry : DiskEntry) (other : Location)
    (h : location ≠ []) :
    (d.put location entry).get? other =
      if other = location then some entry else d.get? other := by
  by_cases ho : other = []
  · simp [get?, ho, Ne.symm h]
  · by_cases hl : other = location
    · simp [get?, put, h, hl, List.lookup_append, lookup_filter_fst (fun l => l != location)]
    · simp [get?, put, ho, hl, List.lookup_append, List.lookup_cons, beq_false_of_ne hl,
        lookup_filter_fst (fun l => l != location)]

/-- Removes an entry with all that lies under it. -/
def eraseTree (d : Disk) (location : Location) : Disk :=
  d.restrict fun l => !location.isPrefixOf l

/-! ## Resolving paths -/

/-- The length of the longest name, in bytes. -/
def nameLimit : Nat := 255

/-- The length that a path that is given to the system has to stay below, in bytes. -/
def pathLimit : Nat := 4096

def isLongName (name : String) : Bool := nameLimit < name.utf8ByteSize

/-- Why nothing of a name is there. -/
def absence (name : String) : SystemError := if isLongName name then .nameTooLong else .notFound

/-- Takes some steps from a location that must be a directory for as long as steps are left. -/
def follow (d : Disk) : Location → List String → Answer Location
  | location, [] => .ok location
  | location, step :: rest =>
    match d.get? location with
    | none => .error .notFound
    | some (.file _) => .error .notADirectory
    | some .directory =>
      if step = "." then d.follow location rest
      else if step = ".." then d.follow location.dropLast rest
      else if (d.get? (location ++ [step])).isSome then d.follow (location ++ [step]) rest
      else .error (absence step)

def enter (d : Disk) (start : Location) (steps : List String) : Answer Location := do
  let location ← d.follow start steps
  match d.get? location with
  | some .directory => return location
  | some (.file _) => throw .notADirectory
  | none => throw .notFound

def origin (d : Disk) (path : String) : Location :=
  if Path.isAbsolute path then [] else d.workingDirectory

/-- Refuses a text that cannot be a path. -/
def checkText (path : String) : Answer Unit :=
  if path.toList.contains '\x00' then .error .nulInName
  else if path.isEmpty then .error .notFound
  else .ok ()

/-- Refuses a path that the system does not take as a whole. -/
def checkWhole (path : String) : Answer Unit := do
  checkText path
  if pathLimit ≤ path.utf8ByteSize then throw .nameTooLong

/-- The location of what exists at a path, which is followed step by step and may be of any
length. -/
def resolve (d : Disk) (path : String) : Answer Location := do
  checkText path
  let location ← d.follow (d.origin path) (Path.steps path)
  match d.get? location with
  | some (.file _) => if Path.isFolderForm path then throw .notADirectory else return location
  | some .directory => return location
  | none => throw .notFound

def locate (d : Disk) (path : String) : Answer Location := do
  checkWhole path
  d.resolve path

/-- The directory in which the last step of a path is taken, and the name in that step. A last step
without a name is taken too. -/
def slot (d : Disk) (path : String) : Answer (Location × Option String) := do
  checkWhole path
  let steps := Path.steps path
  match steps.getLast?.filter Path.isName with
  | some name => return (← d.enter (d.origin path) steps.dropLast, some name)
  | none => return (← d.enter (d.origin path) steps, none)

def entryAt? (d : Disk) (path : String) : Option DiskEntry :=
  (d.locate path).toOption.bind d.get?

def exists_ (d : Disk) (path : String) : Bool := (d.entryAt? path).isSome

def isDirectory (d : Disk) (path : String) : Bool := d.entryAt? path == some .directory

def isFile (d : Disk) (path : String) : Bool :=
  match d.entryAt? path with
  | some (.file _) => true
  | _ => false

/-! ## Reading -/

def read (d : Disk) (path : String) : Answer ByteArray := do
  match d.get? (← d.locate path) with
  | some (.file content) => return content
  | some .directory => throw .isADirectory
  | none => throw .notFound

def locationLe (a b : Location) : Bool := !decide (b < a)

/-- The entries at and under a location, each directory before what lies in it, and otherwise by
name. -/
def under (d : Disk) (location : Location) : List (Location × DiskEntry) :=
  (d.entries.filter fun e => location.isPrefixOf e.1).mergeSort fun a b => locationLe a.1 b.1

/-- The names of what lies directly in a directory, in order. -/
def namesIn (d : Disk) (location : Location) : List String :=
  (d.under location).filterMap fun e =>
    match e.1.drop location.length with
    | [name] => some name
    | _ => none

/-- The files under a location that can be reached through directories that `enters` accepts. -/
def filesUnder (d : Disk) (location : Location) (enters : Location → Bool) : List Location :=
  (d.under location).filterMap fun e =>
    let below := e.1.drop location.length
    let reached := (List.range below.length).all fun n =>
      n == 0 || enters (location ++ below.take n)
    match e.2 with
    | .file _ => if reached then some e.1 else none
    | .directory => none

/-! ## Changing -/

def write (d : Disk) (path : String) (content : ByteArray) : Answer Disk := do
  match ← d.slot path with
  | (_, none) => throw .isADirectory
  | (directory, some name) =>
    if Path.isFolderForm path then throw .isADirectory
    match d.get? (directory ++ [name]) with
    | some .directory => throw .isADirectory
    | some (.file _) => return d.put (directory ++ [name]) (.file content)
    | none =>
      if isLongName name then throw .nameTooLong
      return d.put (directory ++ [name]) (.file content)

def makeDirectory (d : Disk) (path : String) : Answer Disk := do
  match ← d.slot path with
  | (_, none) => throw .exists_
  | (directory, some name) =>
    if (d.get? (directory ++ [name])).isSome then throw .exists_
    if isLongName name then throw .nameTooLong
    return d.put (directory ++ [name]) .directory

/-- Makes a directory, unless it is there. -/
def haveDirectory (d : Disk) (path : String) : Answer Disk :=
  match d.makeDirectory path with
  | .ok d => .ok d
  | .error refusal => if d.isDirectory path then .ok d else .error refusal

/-- Makes a directory and those around it. What is made before a refusal stays. `room` bounds the
number of directories. -/
def makeDirectories (d : Disk) : (room : Nat) → (path : String) → Answer Unit × Disk
  | 0, _ => (.error .notFound, d)
  | room + 1, path =>
    if path.isEmpty then (.ok (), d)
    else
      match d.haveDirectory path with
      | .ok d => (.ok (), d)
      | .error .notFound =>
        match d.makeDirectories room ((Path.parent? path).getD "") with
        | (.ok (), d) =>
          match d.haveDirectory path with
          | .ok d => (.ok (), d)
          | .error refusal => (.error refusal, d)
        | refused => refused
      | .error refusal => (.error refusal, d)

def createDirectories (d : Disk) (path : String) : Answer Unit × Disk :=
  d.makeDirectories (path.length + 1) path

def remove (d : Disk) (path : String) : Answer Disk := do
  let location ← d.locate path
  match d.get? location with
  | some (.file _) => return d.erase location
  | some .directory => throw .isADirectory
  | none => throw .notFound

/-- Removes a file, or a directory with all that lies in it. -/
def removeAll (d : Disk) (path : String) : Answer Disk := do
  return d.eraseTree (← d.locate path)

/-- Moves a file to a path, in place of a file that is there. -/
def move (d : Disk) (source target : String) : Answer Disk := do
  let content ← d.read source
  let d ← d.remove source
  d.write target content

/-- Copies a file to a path, over a file that is there. -/
def copy (d : Disk) (source target : String) : Answer Disk := do
  d.write target (← d.read source)

end Disk

end Foresight
