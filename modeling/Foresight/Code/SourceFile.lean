import Foresight.Code.Statement
import Foresight.Code.Insertion

/-!
# Source files

A source file is its text and an arena of statements. Statements are pushed children first, which
sets the parent link of each child; some of them are registered as roots, one for each member body.
`walk` is the pre-order of everything below the roots.

An id may name nothing, so every look-up is partial. Below a root no chain of distinct statements is
longer than the arena, so `preorder` follows chains no further than that; on an arena whose links
have no cycle it is cut off nowhere.
-/

namespace Foresight

/-- A statement in its arena. -/
structure Statement where
  kind : StatementKind
  parent : Option StatementId
  span : Span
  /-- Set on a block that was synthesized for an insertion. -/
  synthesized : Option InsertionEdit
  deriving Inhabited

structure SourceFile where
  path : String
  text : String
  statements : Array Statement
  roots : List StatementId
  deriving Inhabited

namespace SourceFile

/-- A file without statements. -/
def new (path text : String) : SourceFile := ⟨path, text, #[], []⟩

def statementCount (file : SourceFile) : Nat := file.statements.size

def get? (file : SourceFile) (id : StatementId) : Option Statement := file.statements[id]?

def has (file : SourceFile) (id : StatementId) : Bool := id < file.statements.size

/-- Changes one statement; an id that names nothing changes nothing. -/
def modify (file : SourceFile) (id : StatementId) (f : Statement → Statement) : SourceFile :=
  { file with statements := file.statements.modify id f }

def adopt (file : SourceFile) (parent : Option StatementId) (child : StatementId) : SourceFile :=
  file.modify child fun s => { s with parent := parent }

/-- Appends a statement whose children are already in the arena; they become its children. -/
def push (file : SourceFile) (kind : StatementKind) (span : Span) : SourceFile × StatementId :=
  let id := file.statements.size
  let adopted := kind.childIds.foldl (fun file child => file.adopt (some id) child) file
  ({ adopted with statements := adopted.statements.push ⟨kind, none, span, none⟩ }, id)

/-- Registers a statement as a root, once. -/
def addRoot (file : SourceFile) (id : StatementId) : SourceFile :=
  if file.has id && !file.roots.contains id then { file with roots := file.roots ++ [id] } else file

/-- The statements below `id`, itself first, along chains of at most `bound` statements. -/
def preorder (file : SourceFile) : (bound : Nat) → StatementId → List StatementId
  | 0, _ => []
  | bound + 1, id =>
    match file.get? id with
    | none => []
    | some s => id :: s.kind.childIds.flatMap (preorder file bound)

/-- Every statement reachable from the roots, in pre-order. -/
def walk (file : SourceFile) : List StatementId :=
  file.roots.flatMap (file.preorder file.statementCount)

/-- The text of a statement; empty when its span does not fit the text. -/
def textOf (file : SourceFile) (s : Statement) : String :=
  (Text.slice? file.text s.span.start s.span.stop).getD ""

/-- The parent of a statement, if its link names one. -/
def parentOf? (file : SourceFile) (id : StatementId) : Option StatementId := do
  let s ← file.get? id
  let parent ← s.parent
  if file.has parent then some parent else none

def childrenOf (file : SourceFile) (id : StatementId) : List StatementId :=
  match file.get? id with
  | some s => s.kind.childIds.filter file.has
  | none => []

/-- What follows the first occurrence of an id. -/
def successor? (id : StatementId) : List StatementId → Option StatementId
  | [] => none
  | first :: rest => if first = id then rest.head? else successor? id rest

/-- The statement after this one in the block that holds it. -/
def nextSibling? (file : SourceFile) (id : StatementId) : Option StatementId := do
  let parent ← file.parentOf? id
  match (← file.get? parent).kind with
  | .block statements =>
    let next ← successor? id statements
    if file.has next then some next else none
  | _ => none

/-- The first statement inside a body: the first one of a block, or the embedded statement. -/
def firstInner? (file : SourceFile) (body : Option StatementId) : Option StatementId := do
  let body ← body
  match (← file.get? body).kind with
  | .block statements =>
    let first ← statements.head?
    if file.has first then some first else none
  | _ => some body

end SourceFile

end Foresight
