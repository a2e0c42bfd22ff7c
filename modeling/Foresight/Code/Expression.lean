import Foresight.Code.Symbol
import Foresight.Text.Blank

/-!
# Expressions

An expression keeps its source text and its type beside its shape, so a shape without a rule of its
own can always be written as it stands.
-/

namespace Foresight

/-- An argument and the formal parameter that it binds to, when that is known. -/
structure Argument (ε : Type) where
  value : ε
  parameter : Option String

/-- A created type as written, and the declaration that it was bound to. -/
structure CreatedType where
  written : String
  resolved : Option QualifiedName
  deriving DecidableEq, Inhabited

/-- The shape of an expression over its operands `ε`. -/
inductive Expression.Shape (ε : Type) where
  | reference (qualifier : Option ε) (name : String) (target : Option Symbol)
  | invocation (invoked : ε) (arguments : List (Argument ε))
  | binary (left : ε) (operator : String) (right : ε)
  | unary (operator : String) (operand : ε) (isPostfix : Bool)
  | cast (target : TypeInfo) (written : String) (operand : ε)
  | is (operand : ε) (target : TypeInfo) (written : String)
  | as (operand : ε) (target : TypeInfo) (written : String)
  | parenthesized (inner : ε)
  | this
  | creation (type : Option CreatedType) (arguments : List (Argument ε))
  | assignment (target : ε) (operator : String) (value : ε)
  | literal
  | other

structure Expression where
  text : String
  type : TypeInfo
  shape : Expression.Shape Expression

namespace Expression

/-- The deepest nesting that is modelled; what lies below is kept as text. -/
def maxDepth : Nat := 48

/-- An expression of which only the text is known. -/
def raw (text : String) : Expression := ⟨text, .unknown, .other⟩

instance : Inhabited Expression := ⟨raw ""⟩

def isNullLiteral (e : Expression) : Bool := Text.trim e.text == "null"

end Expression

end Foresight
