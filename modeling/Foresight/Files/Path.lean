import Foresight.Text.Blank
import Foresight.Text.Cut

/-!
# Paths

A path is a text with `/` between its parts. Empty parts and dots in the middle say nothing and are
not parts; a leading slash, a leading dot and every `..` are. Everything that is asked of a path is
asked of its parts, except `join` and `parent?`, which keep the text as it was written. A disk goes
by the `steps` of a path, where a dot in the middle counts too.
-/

namespace Foresight.Path

inductive Part where
  /-- A leading slash. -/
  | root
  /-- A leading dot. -/
  | here
  /-- Two dots. -/
  | up
  | name (text : String)
  deriving DecidableEq, Inhabited

def Part.text : Part → String
  | .root => "/"
  | .here => "."
  | .up => ".."
  | .name text => text

def Part.name? : Part → Option String
  | .name text => some text
  | _ => none

/-- The part that a piece between slashes is. -/
def Part.ofPiece? (piece : String) : Option Part :=
  if piece = "" ∨ piece = "." then none
  else if piece = ".." then some .up
  else some (.name piece)

def isAbsolute (path : String) : Bool := Text.beginsWith "/" path

def parts (path : String) : List Part :=
  let pieces := Text.splitAt '/' path
  let lead :=
    if isAbsolute path then [.root] else if pieces.head? = some "." then [.here] else []
  lead ++ pieces.filterMap Part.ofPiece?

/-- Whether a path, by its end, can only be that of a directory. -/
def isFolderForm (path : String) : Bool := Text.endsWith "/" path

/-- The steps from directory to directory that a path describes, dots included. -/
def steps (path : String) : List String :=
  (Text.splitAt '/' path).filter (· != "")

/-- Whether a step is the name of something, and no dots. -/
def isName (step : String) : Bool := step != "." && step != ".."

/-! ## File names -/

/-- The last part, if it is a name. -/
def fileName? (path : String) : Option String :=
  (parts path).getLast?.bind Part.name?

/-- What follows the last dot of a file name, unless that dot leads the name. -/
def extensionOf? (name : String) : Option String :=
  match Text.cutLast? '.' name with
  | some (before, after) => if before = "" then none else some after
  | none => none

/-- A file name without its extension. -/
def stemOf (name : String) : String :=
  match Text.cutLast? '.' name with
  | some (before, _) => if before = "" then name else before
  | none => name

def extension? (path : String) : Option String :=
  (fileName? path).bind extensionOf?

/-- Whether a file of this name keeps out of sight. -/
def isHiddenName (name : String) : Bool := Text.beginsWith "." name

def isHidden (path : String) : Bool :=
  (fileName? path).any isHiddenName

def isCSharpFile (path : String) : Bool :=
  (extension? path).any (Text.sameIgnoringCase "cs")

/-- The names on a path, with slashes between them. -/
def names (path : List Part) : String :=
  Text.join "/" (path.filterMap Part.name?)

/-! ## Composition -/

/-- A path from `base`; an absolute path stands for itself. -/
def join (base path : String) : String :=
  if isAbsolute path || base.isEmpty then path
  else if Text.endsWith "/" base then base ++ path
  else base ++ "/" ++ path

/-- Drops trailing pieces that say nothing, down to the first piece. The pieces come last first. -/
def settle : List String → List String
  | [] => []
  | [piece] => [piece]
  | piece :: more => if piece = "" ∨ piece = "." then settle more else piece :: more

/-- The path of the directory that a path is in: empty for a mere name. -/
def parent? (path : String) : Option String :=
  if parts path = [] ∨ parts path = [.root] then none
  else
    match settle (settle (Text.splitAt '/' path).reverse).tail with
    | [""] => some (if isAbsolute path then "/" else "")
    | pieces => some (Text.join "/" pieces.reverse)

end Foresight.Path
