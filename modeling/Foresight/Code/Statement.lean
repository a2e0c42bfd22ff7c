import Foresight.Code.Expression

/-!
# Statements

The shapes of statements. A statement lives in the arena of its source file, and a shape names its
child statements by their ids, in source order (`childIds`). Four shapes have a body slot, the place
where a block can be synthesized: `if`, `while`, `foreach` and `using`.
-/

namespace Foresight

/-- The place of a statement in the arena of its source file. -/
abbrev StatementId := Nat

/-- One declarator of a local declaration or of a `using` resource. -/
structure Variable where
  name : String
  type : TypeInfo
  isVar : Bool
  /-- The type as written, `var` for an implicitly typed declaration. -/
  writtenType : String
  initializer : Option Expression
  deriving Inhabited

/-- The iteration variable of a `foreach`. -/
structure Iterator where
  name : String
  isVar : Bool
  type : TypeInfo
  writtenType : String
  deriving DecidableEq, Inhabited

/-- A `catch` clause over handler bodies `β`. A bare `catch` has no type. -/
structure CatchClause (β : Type) where
  type : Option TypeInfo
  writtenType : Option String
  variable_ : Option String
  body : β

inductive StatementKind where
  | block (statements : List StatementId)
  | expression (expression : Expression)
  | declaration (declared : List Variable)
  | if_ (condition : Expression) (then_ else_ : Option StatementId)
  | while_ (condition : Expression) (body : Option StatementId)
  | doWhile (body : Option StatementId) (condition : Expression)
  | foreach (iterator : Iterator) (collection : Expression) (body : Option StatementId)
  | using_ (declared : List Variable) (resource : Option Expression) (body : Option StatementId)
  | return_ (value : Option Expression)
  | break_
  | continue_
  | try_ (body : Option StatementId) (catches : List (CatchClause (Option StatementId)))
      (finally_ : Option StatementId)
  | empty
  | other
  deriving Inhabited

namespace StatementKind

def name : StatementKind → String
  | .block _ => "block"
  | .expression _ => "expression"
  | .declaration _ => "declaration"
  | .if_ .. => "if"
  | .while_ .. => "while"
  | .doWhile .. => "do"
  | .foreach .. => "foreach"
  | .using_ .. => "using"
  | .return_ _ => "return"
  | .break_ => "break"
  | .continue_ => "continue"
  | .try_ .. => "try"
  | .empty => "empty"
  | .other => "other"

/-- The child statements in source order. -/
def childIds : StatementKind → List StatementId
  | .block statements => statements
  | .if_ _ then_ else_ => then_.toList ++ else_.toList
  | .while_ _ body | .doWhile body _ | .foreach _ _ body | .using_ _ _ body => body.toList
  | .try_ body catches finally_ => body.toList ++ catches.filterMap (·.body) ++ finally_.toList
  | _ => []

def isBlock : StatementKind → Bool
  | .block _ => true
  | _ => false

/-- The content of the body slot; `none` for a shape without one. -/
def bodySlot? : StatementKind → Option (Option StatementId)
  | .if_ _ then_ _ => some then_
  | .while_ _ body | .foreach _ _ body | .using_ _ _ body => some body
  | _ => none

/-- The shape with `body` in its body slot; a shape without one is kept. -/
def withBody (body : StatementId) : StatementKind → StatementKind
  | .if_ condition _ else_ => .if_ condition (some body) else_
  | .while_ condition _ => .while_ condition (some body)
  | .foreach iterator collection _ => .foreach iterator collection (some body)
  | .using_ declared resource _ => .using_ declared resource (some body)
  | kind => kind

theorem bodySlot?_withBody (body : StatementId) (kind : StatementKind) :
    (kind.withBody body).bodySlot? = kind.bodySlot?.map fun _ => some body := by
  cases kind <;> rfl

end StatementKind

end Foresight
