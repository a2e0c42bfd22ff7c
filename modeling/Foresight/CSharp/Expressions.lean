import Foresight.CSharp.Declarations
import Foresight.Code.Expression

/-!
# Lowering expressions

An expression of the syntax tree becomes one of the model. Names are bound against the local scopes,
then the members of the enclosing type, then the types of the solution; what cannot be bound has no
target and no type. A shape that the model does not know, and whatever is nested too deep, is kept
as text.

Lowering changes nothing: it reads the source, the symbol index, the place in the file and the
scopes there. `room` is the number of levels that may still be modelled; the function for the
operands, with one level less, is an argument of each rule.
-/

namespace Foresight.CSharp

/-- Local scopes, innermost first. -/
abbrev Scopes := List (Table Foresight.Symbol)

/-- What the names of an expression are bound against. -/
structure Place where
  source : String
  index : SymbolIndex
  context : Context
  scopes : Scopes

namespace Place

def text (p : Place) (n : Node) : String := n.text p.source

def resolveType (p : Place) (written : String) : TypeInfo := p.index.resolveType p.context written

/-- The innermost local binding of a name. -/
def lookup? (p : Place) (name : String) : Option Foresight.Symbol :=
  p.scopes.findSome? (·.get? name)

end Place

def boolType : TypeInfo := .resolved ⟨"bool", "System.Boolean"⟩

def stringType : TypeInfo := .resolved ⟨"string", "System.String"⟩

def literalTypes : List (String × TypeInfo) :=
  [("string_literal", stringType),
   ("verbatim_string_literal", stringType),
   ("raw_string_literal", stringType),
   ("interpolated_string_expression", stringType),
   ("integer_literal", .resolved ⟨"int", "System.Int32"⟩),
   ("real_literal", .resolved ⟨"double", "System.Double"⟩),
   ("boolean_literal", boolType),
   ("character_literal", .resolved ⟨"char", "System.Char"⟩),
   ("null_literal", .unknown)]

/-- The operators that give a truth value. -/
def comparisonOperators : List String := ["==", "!=", "<", ">", "<=", ">=", "&&", "||"]

def isString (type : TypeInfo) : Bool :=
  match type with
  | .resolved t => t.longName == "System.String"
  | _ => false

/-- The type of a binary operation by the types of its operands. -/
def binaryType (operator : String) (left right : TypeInfo) : TypeInfo :=
  if comparisonOperators.contains operator then boolType
  else if operator == "+" && (isString left || isString right) then stringType
  else if operator == "??" || left == right then left
  else .unknown

def symbolType : Foresight.Symbol → TypeInfo
  | .local_ _ type | .parameter _ type => type
  | _ => .unknown

/-! ## Names -/

/-- What a bare name is bound to, and its type. A call never binds to a type name, and the type of a
called member is found with its overload. -/
def bindName (p : Place) (isCalled : Bool) (name : String) : Option Foresight.Symbol × TypeInfo :=
  match p.lookup? name with
  | some symbol => (some symbol, symbolType symbol)
  | none =>
    let declared := p.context.enclosingType.bind fun owner =>
      (p.index.declaredMember? owner name).map fun m => (owner, m)
    match declared with
    | some (owner, m) =>
      if isCalled then (some (.member ⟨name, .method, some owner, false⟩), .unknown)
      else (some (.member ⟨name, m.kind, some owner, false⟩), p.index.memberType owner name)
    | none =>
      if isCalled then (none, .unknown)
      else ((p.index.resolveTypeName? p.context name).map .type, .unknown)

def lowerIdentifier (p : Place) (isCalled : Bool) (n : Node) : Expression :=
  let name := p.text n
  let (target, type) := bindName p isCalled name
  ⟨name, type, .reference none name target⟩

/-- The type whose member an access names: the type that the receiver names, or the receiver's
own. -/
def ownerOf? (receiver : Expression) : Option QualifiedName :=
  match receiver.shape with
  | .reference _ _ (some (.type name)) => some name
  | _ => receiver.type.resolved?.map fun type => splitQualified type.longName

/-- A member's name without its generic arguments. -/
def memberName (text : String) : String :=
  Text.trim (String.ofList (text.toList.takeWhile (· != '<')))

/-- A member of a known type. What is called is a method; what is not called is what the solution
declares it to be, or else a property. -/
def bindMember (p : Place) (isCalled : Bool) (owner : QualifiedName) (name : String) :
    Foresight.Symbol × TypeInfo :=
  if isCalled then (.member ⟨name, .method, some owner, isAssertion owner name⟩, .unknown)
  else
    let kind := match p.index.declaredMember? owner name with
      | some m => m.kind
      | none => .property
    (.member ⟨name, kind, some owner, false⟩, p.index.memberType owner name)

/-- `receiver.name` -/
def lowerMemberAccess (p : Place) (lower : Node → Expression) (isCalled : Bool) (n : Node) :
    Expression :=
  match n.child? "expression", n.child? "name" with
  | some receiver, some nameNode =>
    let receiver := lower receiver
    let name := memberName (p.text nameNode)
    match ownerOf? receiver with
    | some owner =>
      let (symbol, type) := bindMember p isCalled owner name
      ⟨p.text n, type, .reference (some receiver) name (some symbol)⟩
    | none => ⟨p.text n, .unknown, .reference (some receiver) name none⟩
  | _, _ => .raw (p.text n)

/-! ## Calls and creations -/

/-- The arguments in a list: the name that each is given, if any, and its value. -/
def argumentNodes (p : Place) (list : Option Node) : List (Option String × Node) :=
  match list with
  | none => []
  | some list =>
    (list.namedChildren.filter (·.kind == "argument")).filterMap fun a =>
      a.namedChildren.getLast?.map fun value => ((a.child? "name").map p.text, value)

/-- The parameter at a position: one of those that are declared, or a made-up one when the
declaration is not known. -/
def parameterAt (declared : Option (List String)) (position : Nat) : Option String :=
  match declared with
  | some names => names[position]?
  | none => some ("arg" ++ toString position)

/-- Lowers arguments and binds each to its parameter. -/
def lowerArguments (lower : Node → Expression) (declared : Option (List String))
    (arguments : List (Option String × Node)) : List (Argument Expression) :=
  arguments.zipIdx.map fun ((name, value), position) =>
    ⟨lower value, name <|> parameterAt declared position⟩

/-- The parameters and the result type of a call. -/
def signature (p : Place) (invoked : Expression) (arity : Nat) : Option (List String) × TypeInfo :=
  match invoked.shape with
  | .reference _ _ (some (.member ⟨name, _, some owner, _⟩)) =>
    match p.index.get? owner.fullName with
    | some d =>
      match d.method? name arity with
      | some m =>
        (some m.parameters,
          match m.writtenType with
          | some written => p.index.resolveType d.context written
          | none => .unknown)
      | none => (some [], .unknown)
    | none => (none, p.index.memberType owner name)
  | _ => (some [], .unknown)

def lowerInvocation (p : Place) (lower : Node → Expression) (n : Node) : Expression :=
  match n.child? "function" with
  | none => .raw (p.text n)
  | some function =>
    let arguments := argumentNodes p (n.child? "arguments")
    let invoked :=
      if function.kind == "member_access_expression" then lowerMemberAccess p lower true function
      else if function.kind == "identifier" then lowerIdentifier p true function
      else lower function
    let (declared, type) := signature p invoked arguments.length
    ⟨p.text n, type, .invocation invoked (lowerArguments lower declared arguments)⟩

def lowerCreation (p : Place) (lower : Node → Expression) (n : Node) : Expression :=
  let arguments := argumentNodes p (n.child? "arguments")
  match n.child? "type" with
  | some typeNode =>
    let written := p.text typeNode
    let type := p.resolveType written
    let resolved := type.resolved?.map fun t => splitQualified t.longName
    let declared := do
      let name ← resolved
      let d ← p.index.get? name.fullName
      return (d.constructor? arguments.length).getD []
    ⟨p.text n, type, .creation (some ⟨written, resolved⟩) (lowerArguments lower declared arguments)⟩
  | none => ⟨p.text n, .unknown, .creation none (lowerArguments lower (some []) arguments)⟩

/-! ## Operators -/

/-- The operator between two operands: the node that fills the field, or the text in between. -/
def operatorText (p : Place) (n left right : Node) (otherwise : String) : String :=
  match n.child? "operator" with
  | some operator => p.text operator
  | none => Text.trim ((Text.slice? p.source left.stop right.start).getD otherwise)

def lowerBinary (p : Place) (lower : Node → Expression) (n : Node) : Expression :=
  match n.child? "left", n.child? "right" with
  | some left, some right =>
    let operator := operatorText p n left right ""
    let left := lower left
    let right := lower right
    ⟨p.text n, binaryType operator left.type right.type, .binary left operator right⟩
  | _, _ => .raw (p.text n)

def lowerUnary (p : Place) (lower : Node → Expression) (n : Node) : Expression :=
  match n.children.find? (·.isNamed) with
  | some operand =>
    let operator := match n.children.find? (!·.isNamed) with
      | some token => p.text token
      | none => ""
    let operand := lower operand
    let type := if operator == "!" then boolType else operand.type
    ⟨p.text n, type, .unary operator operand (n.kind == "postfix_unary_expression")⟩
  | none => .raw (p.text n)

def lowerCast (p : Place) (lower : Node → Expression) (n : Node) : Expression :=
  match n.child? "type", n.child? "value" with
  | some target, some value =>
    let written := p.text target
    let type := p.resolveType written
    ⟨p.text n, type, .cast type written (lower value)⟩
  | _, _ => .raw (p.text n)

/-- `operand as T` and `operand is T` -/
def lowerTypeTest (p : Place) (lower : Node → Expression) (n : Node) : Expression :=
  match n.child? "left", n.child? "right" with
  | some left, some right =>
    let written := p.text right
    let type := p.resolveType written
    if n.kind == "as_expression" then ⟨p.text n, type, .as (lower left) type written⟩
    else ⟨p.text n, boolType, .is (lower left) type written⟩
  | _, _ => .raw (p.text n)

def lowerParenthesized (p : Place) (lower : Node → Expression) (n : Node) : Expression :=
  match n.namedChildren.head? with
  | some inner =>
    let inner := lower inner
    ⟨p.text n, inner.type, .parenthesized inner⟩
  | none => .raw (p.text n)

def lowerThis (p : Place) (n : Node) : Expression :=
  let type := match p.context.enclosingType with
    | some type => .resolved (typeRefOf type)
    | none => .unknown
  ⟨p.text n, type, .this⟩

def lowerAssignment (p : Place) (lower : Node → Expression) (n : Node) : Expression :=
  match n.child? "left", n.child? "right" with
  | some left, some right =>
    let operator := operatorText p n left right "="
    let target := lower left
    ⟨p.text n, target.type, .assignment target operator (lower right)⟩
  | _, _ => .raw (p.text n)

/-! ## Expressions -/

/-- Lowers an expression by the kind of its node, and its operands with `lower`. -/
def lowerNode (p : Place) (lower : Node → Expression) (n : Node) : Expression :=
  match literalTypes.lookup n.kind with
  | some type => ⟨p.text n, type, .literal⟩
  | none =>
    match n.kind with
    | "identifier" => lowerIdentifier p false n
    | "member_access_expression" => lowerMemberAccess p lower false n
    | "invocation_expression" => lowerInvocation p lower n
    | "binary_expression" => lowerBinary p lower n
    | "prefix_unary_expression" | "postfix_unary_expression" => lowerUnary p lower n
    | "cast_expression" => lowerCast p lower n
    | "as_expression" | "is_expression" => lowerTypeTest p lower n
    | "parenthesized_expression" => lowerParenthesized p lower n
    | "this_expression" | "this" => lowerThis p n
    | "object_creation_expression" | "implicit_object_creation_expression" =>
      lowerCreation p lower n
    | "assignment_expression" => lowerAssignment p lower n
    | _ => .raw (p.text n)

/-- Lowers an expression with `room` levels to go. -/
def lowerWithin (p : Place) : (room : Nat) → Node → Expression
  | 0, n => .raw (p.text n)
  | room + 1, n => lowerNode p (lowerWithin p room) n

def lowerExpression (p : Place) (n : Node) : Expression := lowerWithin p Expression.maxDepth n

end Foresight.CSharp
