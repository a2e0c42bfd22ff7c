import Foresight.Code.Body
import Foresight.Table

/-!
# Scopes

A scope is a code position that templates belong to: a key that groups observations across all
files, the names captured from the anchor statement, and two answers, which statement follows here
and where a template is inserted here. A block scope looks into the body of its anchor for both; any
other scope looks behind its anchor.
-/

namespace Foresight

structure Scope where
  key : String
  parameters : Fields
  anchor : StatementId
  isBlock : Bool

namespace Scope

/-- The parameter that holds the subject variable of a scope. -/
def variableName : String := "VariableName"

def subject? (parameters : Fields) : Option String := parameters.get? variableName

/-- A scope behind its anchor. -/
def after (anchor : StatementId) (key : String) (parameters : Fields) : Scope :=
  ⟨key, parameters, anchor, false⟩

def inside (anchor : StatementId) (key : String) (parameters : Fields) : Scope :=
  ⟨key, parameters, anchor, true⟩

/-- The first statement in the body of a statement that has a body slot. -/
def firstBodyStatement? (file : SourceFile) (anchor : StatementId) : Option StatementId := do
  let s ← file.get? anchor
  let body ← s.kind.bodySlot?
  file.firstInner? body

/-- The statement that templates of the scope are mined from. -/
def nextStatement? (scope : Scope) (file : SourceFile) : Option StatementId :=
  if scope.isBlock then firstBodyStatement? file scope.anchor else file.nextSibling? scope.anchor

/-- Where templates of the scope are inserted; a body may have to become a block first. -/
def insertPosition (scope : Scope) (file : SourceFile) : SourceFile × Option InsertionPoint :=
  if scope.isBlock then file.ensureBody scope.anchor
  else (file, (file.get? scope.anchor).map fun s => .direct s.span.stop)

/-- Same key, same anchor and the same parameters in any order. -/
def same (s t : Scope) : Bool :=
  s.key == t.key && s.parameters.sameMap t.parameters && s.anchor == t.anchor

end Scope

end Foresight
