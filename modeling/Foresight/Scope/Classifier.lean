import Foresight.Scope.Basic

/-!
# Classifying statements

A classifier recognises one shape of statement and describes the position there as a scope. Keys are
readable sentences: they name a type or a member and nothing of the author's own choice, so the same
position in another file has the same key. A type that is not known is never guessed; the statement
has no scope then.
-/

namespace Foresight

inductive Classifier where
  | invocation
  | localVariable
  | assignment
  | foreach
  | using_
  | ifNull
  | ifMember
  | ifNegation
  deriving DecidableEq, Inhabited

namespace Classifier

/-- The classifiers in the order in which they are asked. -/
def standard : List Classifier :=
  [.invocation, .localVariable, .assignment, .foreach, .using_, .ifNull, .ifMember, .ifNegation]

def name : Classifier → String
  | .invocation => "invocation"
  | .localVariable => "local-variable"
  | .assignment => "assignment"
  | .foreach => "foreach"
  | .using_ => "using"
  | .ifNull => "if-null"
  | .ifMember => "if-member"
  | .ifNegation => "if-negation"

/-- What a typed position captures; guards have no variable. -/
def typedParameters (variable_ : Option String) (type : TypeRef) : Fields :=
  let start : Fields := match variable_ with
    | some v => Table.empty.insert Scope.variableName v
    | none => .empty
  (start.insert "VariableType" type.presentable).insert "FullName" type.longName

def variableKey (type : TypeRef) : String :=
  "After variable of type \"" ++ type.longName ++ "\""

/-! ## Variables -/

/-- `target = value;` with a value of known type. -/
def assignmentScope? (anchor : StatementId) (e : Expression) : Option Scope :=
  match e.shape with
  | .assignment target _ value =>
    match target.shape with
    | .reference .. => do
      let valueType ← value.type.resolved?
      let type := target.type.resolved?.getD valueType
      let parameters := (typedParameters (some target.text) type).insert "Value" value.text
      return .after anchor (variableKey type) parameters
    | _ => none
  | _ => none

/-- `T name = value;` with one declarator of known type. -/
def declarationScope? (anchor : StatementId) : List Variable → Option Scope
  | [v] => do
    let type ← v.type.resolved?
    let value ← v.initializer
    let parameters := (typedParameters (some v.name) type).insert "Value" value.text
    return .after anchor (variableKey type) parameters
  | _ => none

/-! ## Calls -/

/-- The receiver and the method of a call on a receiver that is bound to a method. -/
def calledMethod? (e : Expression) : Option (Expression × Member) :=
  match e.shape with
  | .invocation invoked _ =>
    match invoked.shape with
    | .reference (some receiver) _ (some (.member m)) =>
      if m.kind = .method then some (receiver, m) else none
    | _ => none
  | _ => none

def callParameters (receiver : Expression) (method : Member) : Fields :=
  let named := ((Table.empty.insert Scope.variableName receiver.text).insert
    "MethodName" method.name).insert "QualifiedMethodName" method.typeQualifiedName
  let contained := match method.containingType with
    | some type => named.insert "ContainingType" type.name
    | none => named
  let full := contained.insert "FullName" method.fullName
  if method.isAssertion then full.insert "IsAssertion" "true" else full

def capture? (e : Expression) : Option Fields :=
  (calledMethod? e).map fun (receiver, method) => callParameters receiver method

/-- `receiver.Method(...);` where the method is no assertion. -/
def callScope? (anchor : StatementId) (e : Expression) : Option Scope := do
  let (receiver, method) ← calledMethod? e
  if method.isAssertion then none
  else
    return .after anchor ("After call to \"" ++ method.fullName ++ "\"")
      (callParameters receiver method)

/-! ## Bodies -/

def foreachScope? (anchor : StatementId) (iterator : Iterator) (collection : Expression) :
    Option Scope := do
  let type ← collection.type.resolved?
  return .inside anchor ("Inside foreach loop of type \"" ++ type.longName ++ "\"")
    (typedParameters (some iterator.name) type)

def usingScope? (anchor : StatementId) : List Variable → Option Scope
  | [v] => do
    let type ← v.type.resolved?
    return .inside anchor ("Inside using of type \"" ++ type.longName ++ "\"")
      (typedParameters (some v.name) type)
  | _ => none

/-! ## Guards -/

/-- The operand that a condition compares with `null`, and whether it asks for equality. -/
def nullComparison? (condition : Expression) : Option (Expression × Bool) :=
  match condition.shape with
  | .binary left operator right =>
    if operator == "==" || operator == "!=" then
      if right.isNullLiteral then some (left, operator == "==")
      else if left.isNullLiteral then some (right, operator == "==")
      else none
    else none
  | _ => none

def nullScope? (anchor : StatementId) (condition : Expression) : Option Scope := do
  let (operand, isEquality) ← nullComparison? condition
  let type ← operand.type.resolved?
  let relation := if isEquality then "is" else "is not"
  return .inside anchor
    ("If expression of type \"" ++ type.longName ++ "\" " ++ relation ++ " null")
    (typedParameters none type)

def referredMember? (e : Expression) : Option Member :=
  match e.shape with
  | .reference _ _ (some (.member m)) => some m
  | _ => none

def negatedMember? (e : Expression) : Option Member :=
  match e.shape with
  | .unary operator operand false => if operator == "!" then referredMember? operand else none
  | _ => none

def memberScope? (anchor : StatementId) (condition : Expression) : Option Scope := do
  let m ← referredMember? condition
  return .inside anchor ("If expression \"" ++ m.typeQualifiedName ++ "\"") .empty

def negationScope? (anchor : StatementId) (condition : Expression) : Option Scope := do
  let m ← negatedMember? condition
  return .inside anchor ("If expression \"!" ++ m.typeQualifiedName ++ "\"") .empty

/-! ## The classifiers -/

/-- Whether a statement has the shape that the classifier is about. -/
def canHandle (c : Classifier) (kind : StatementKind) : Bool :=
  match c, kind with
  | .invocation, .expression _ => true
  | .localVariable, .declaration _ => true
  | .assignment, .expression e =>
    match e.shape with
    | .assignment .. => true
    | _ => false
  | .foreach, .foreach .. => true
  | .using_, .using_ .. => true
  | .ifNull, .if_ condition _ _ => (nullComparison? condition).isSome
  | .ifMember, .if_ condition _ _ => (referredMember? condition).isSome
  | .ifNegation, .if_ condition _ _ => (negatedMember? condition).isSome
  | _, _ => false

/-- The scope at a statement, if the classifier recognises it. -/
def handle? (c : Classifier) (anchor : StatementId) (kind : StatementKind) : Option Scope :=
  match c, kind with
  | .invocation, .expression e => callScope? anchor e
  | .localVariable, .declaration declared => declarationScope? anchor declared
  | .assignment, .expression e => assignmentScope? anchor e
  | .foreach, .foreach iterator collection _ => foreachScope? anchor iterator collection
  | .using_, .using_ declared _ _ => usingScope? anchor declared
  | .ifNull, .if_ condition _ _ => nullScope? anchor condition
  | .ifMember, .if_ condition _ _ => memberScope? anchor condition
  | .ifNegation, .if_ condition _ _ => negationScope? anchor condition
  | _, _ => none

end Classifier

end Foresight
