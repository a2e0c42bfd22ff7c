import Foresight.Code.Expression
import Foresight.Text.Cut

/-!
# Composing expressions

Expressions assembled from their parts. Each function writes the source text that the parts spell
and fills in the type that the shape implies.
-/

namespace Foresight.Expression

def reference (text : String) (type : TypeInfo) (target : Option Symbol) : Expression :=
  ⟨text, type, .reference none text target⟩

def local_ (name : String) (type : TypeInfo) : Expression :=
  reference name type (some (.local_ name type))

def parameter (name : String) (type : TypeInfo) : Expression :=
  reference name type (some (.parameter name type))

/-- A type name that stands as an expression, such as the receiver of a static call. -/
def typeName (name : QualifiedName) : Expression :=
  reference name.name .unknown (some (.type name))

/-- `qualifier.name`, or the bare name. -/
def member (qualifier : Option Expression) (name : String) (symbol : Option Member)
    (type : TypeInfo) : Expression :=
  let text := match qualifier with
    | some q => q.text ++ "." ++ name
    | none => name
  ⟨text, type, .reference qualifier name (symbol.map .member)⟩

def argumentText (arguments : List (Argument Expression)) : String :=
  Text.join ", " (arguments.map (·.value.text))

def call (receiver : Option Expression) (name : String) (method : Option Member)
    (arguments : List (Argument Expression)) (type : TypeInfo) : Expression :=
  let invoked := member receiver name method .unknown
  ⟨invoked.text ++ "(" ++ argumentText arguments ++ ")", type, .invocation invoked arguments⟩

/-- `new T(arguments)` for a declared type. -/
def create (type : QualifiedName) (arguments : List (Argument Expression)) : Expression :=
  ⟨"new " ++ type.name ++ "(" ++ argumentText arguments ++ ")",
    .resolved ⟨type.name, type.fullName⟩,
    .creation (some ⟨type.name, some type⟩) arguments⟩

def binary (left : Expression) (operator : String) (right : Expression) (type : TypeInfo) :
    Expression :=
  ⟨left.text ++ " " ++ operator ++ " " ++ right.text, type, .binary left operator right⟩

def unary (operator : String) (operand : Expression) (type : TypeInfo) : Expression :=
  ⟨operator ++ operand.text, type, .unary operator operand false⟩

def parenthesized (inner : Expression) : Expression :=
  ⟨"(" ++ inner.text ++ ")", inner.type, .parenthesized inner⟩

def cast (target : TypeRef) (operand : Expression) : Expression :=
  ⟨"(" ++ target.presentable ++ ")" ++ operand.text, .resolved target,
    .cast (.resolved target) target.presentable operand⟩

def asType (operand : Expression) (target : TypeRef) : Expression :=
  ⟨operand.text ++ " as " ++ target.presentable, .resolved target,
    .as operand (.resolved target) target.presentable⟩

def isType (operand : Expression) (target : TypeRef) : Expression :=
  ⟨operand.text ++ " is " ++ target.presentable, .resolved ⟨"bool", "System.Boolean"⟩,
    .is operand (.resolved target) target.presentable⟩

/-- `this` inside a type. -/
def this (enclosing : TypeRef) : Expression :=
  ⟨"this", .resolved enclosing, .this⟩

def assign (target value : Expression) : Expression :=
  ⟨target.text ++ " = " ++ value.text, target.type, .assignment target "=" value⟩

def null : Expression := ⟨"null", .unknown, .literal⟩

def stringLiteral (value : String) : Expression :=
  ⟨"\"" ++ value ++ "\"", .resolved ⟨"string", "System.String"⟩, .literal⟩

def intLiteral (value : Int) : Expression :=
  ⟨toString value, .resolved ⟨"int", "System.Int32"⟩, .literal⟩

end Foresight.Expression
