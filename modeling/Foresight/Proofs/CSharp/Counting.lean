import Foresight.CSharp.Statements

/-!
# Lowering that counts

The rules of lowering are told how many levels are left to them. A machine can count instead: it
keeps in its state how many statements and how many expressions it is inside of, adds one where it
enters one of them and takes one away where it leaves, and keeps as it stands what lies deeper than
a limit. So every rule that lowers something is here once more, handing on a state with counters.

Only `expressionFrom` and `statementFrom` look at a counter. Their `levels` are for the recursion
alone: there are more of them than a counter can count, so it is the counter that stops them.
-/

namespace Foresight.CSharp

/-- How many statements and how many expressions are being lowered, one inside the other. -/
structure Depths where
  statements : Nat
  expressions : Nat

/-- A step of lowering that counts. -/
abbrev Counting (α : Type) := StateM (Depths × Lowering) α

namespace Counting

variable {α : Type}

/-! ## Expressions -/

section Expressions

variable (p : Place) (lower : Node → StateM Nat Expression)

/-- A rule that lowers one operand, if there is one, and builds on what that is. -/
def overOperand (operand : Option Node) (rule : (Node → Expression) → Expression) :
    StateM Nat Expression := do
  let value ← operand.mapM lower
  return rule fun _ => value.getD default

def memberAccess (isCalled : Bool) (n : Node) : StateM Nat Expression :=
  overOperand lower ((n.child? "name").bind fun _ => n.child? "expression")
    fun value => lowerMemberAccess p value isCalled n

def arguments (declared : Option (List String)) (given : List (Option String × Node)) :
    StateM Nat (List (Argument Expression)) :=
  given.zipIdx.mapM fun ((name, value), position) => do
    return ⟨← lower value, name <|> parameterAt declared position⟩

/-- What a call invokes. -/
def invoked (function : Node) : StateM Nat Expression :=
  if function.kind == "member_access_expression" then memberAccess p lower true function
  else if function.kind == "identifier" then return lowerIdentifier p true function
  else lower function

def invocation (n : Node) : StateM Nat Expression :=
  match n.child? "function" with
  | none => return .raw (p.text n)
  | some function => do
    let given := argumentNodes p (n.child? "arguments")
    let invoked ← invoked p lower function
    let (declared, type) := signature p invoked given.length
    return ⟨p.text n, type, .invocation invoked (← arguments lower declared given)⟩

def creation (n : Node) : StateM Nat Expression := do
  let given := argumentNodes p (n.child? "arguments")
  match n.child? "type" with
  | some typeNode =>
    let written := p.text typeNode
    let type := p.resolveType written
    let resolved := type.resolved?.map fun t => splitQualified t.longName
    let declared := do
      let name ← resolved
      let d ← p.index.get? name.fullName
      return (d.constructor? given.length).getD []
    return ⟨p.text n, type, .creation (some ⟨written, resolved⟩) (← arguments lower declared given)⟩
  | none => return ⟨p.text n, .unknown, .creation none (← arguments lower (some []) given)⟩

def binary (n : Node) : StateM Nat Expression :=
  match n.child? "left", n.child? "right" with
  | some left, some right => do
    let operator := operatorText p n left right ""
    let left ← lower left
    let right ← lower right
    return ⟨p.text n, binaryType operator left.type right.type, .binary left operator right⟩
  | _, _ => return .raw (p.text n)

def assignment (n : Node) : StateM Nat Expression :=
  match n.child? "left", n.child? "right" with
  | some left, some right => do
    let operator := operatorText p n left right "="
    let target ← lower left
    return ⟨p.text n, target.type, .assignment target operator (← lower right)⟩
  | _, _ => return .raw (p.text n)

/-- Lowers an expression by the kind of its node. -/
def expressionNode (n : Node) : StateM Nat Expression :=
  match literalTypes.lookup n.kind with
  | some type => return ⟨p.text n, type, .literal⟩
  | none =>
    match n.kind with
    | "identifier" => return lowerIdentifier p false n
    | "member_access_expression" => memberAccess p lower false n
    | "invocation_expression" => invocation p lower n
    | "binary_expression" => binary p lower n
    | "prefix_unary_expression" | "postfix_unary_expression" =>
      overOperand lower (n.children.find? (·.isNamed)) fun value => lowerUnary p value n
    | "cast_expression" =>
      overOperand lower ((n.child? "type").bind fun _ => n.child? "value")
        fun value => lowerCast p value n
    | "as_expression" | "is_expression" =>
      overOperand lower ((n.child? "right").bind fun _ => n.child? "left")
        fun value => lowerTypeTest p value n
    | "parenthesized_expression" =>
      overOperand lower n.namedChildren.head? fun value => lowerParenthesized p value n
    | "this_expression" | "this" => return lowerThis p n
    | "object_creation_expression" | "implicit_object_creation_expression" => creation p lower n
    | "assignment_expression" => assignment p lower n
    | _ => return .raw (p.text n)

/-- Counts an expression while something is done inside it. -/
def inExpression (c : StateM Nat α) : StateM Nat α := do
  modify (· + 1)
  let a ← c
  modify (· - 1)
  return a

def expressionFrom : (levels : Nat) → Node → StateM Nat Expression
  | 0, n => return .raw (p.text n)
  | levels + 1, n => do
    if Expression.maxDepth ≤ (← get) then return .raw (p.text n)
    else inExpression (expressionNode p (expressionFrom levels) n)

end Expressions

/-! ## Steps -/

/-- A step that enters nothing. -/
def flat (step : Step α) : Counting α := fun (d, l) =>
  let (l, a) := step l
  (a, d, l)

def declare (name : String) (type : TypeInfo) : Counting Unit :=
  flat fun l => (l.declare name type, ())

def within (scope : Table Foresight.Symbol) (c : Counting α) : Counting α := do
  modify fun (d, l) => (d, { l with scopes := scope :: l.scopes })
  let a ← c
  modify fun (d, l) => (d, { l with scopes := l.scopes.tail })
  return a

/-- Counts a statement while something is done inside it. -/
def inStatement (c : Counting α) : Counting α := do
  modify fun (d, l) => ({ d with statements := d.statements + 1 }, l)
  let a ← c
  modify fun (d, l) => ({ d with statements := d.statements - 1 }, l)
  return a

section Statements

variable (s : Setting)

/-- Lowers an expression against the scopes of the moment. -/
def expression (n : Node) : Counting Expression := fun (d, l) =>
  let (e, depth) := expressionFrom ⟨s.source, s.index, s.context, l.scopes⟩
    (Expression.maxDepth + 1) n d.expressions
  (e, { d with expressions := depth }, l)

def fieldExpression (n : Node) (field : String) : Counting Expression :=
  match n.child? field with
  | some e => expression s e
  | none => return .raw ""

/-! ## Declarations -/

def declarator (writtenType : String) (n name : Node) : Counting Variable := do
  let value ← (Setting.initializer? n).mapM (expression s)
  let isVar := writtenType == "var"
  let type :=
    if isVar then
      match value with
      | some v => if v.type.isResolved then v.type else .unknown
      | none => .unknown
    else s.resolveType writtenType
  let name := s.text name
  declare name type
  return ⟨name, type, isVar, writtenType, value⟩

def variableDeclaration (n : Node) : Counting (List Variable) :=
  let named := (n.namedChildren.filter (·.kind == "variable_declarator")).filterMap fun d =>
    (declaratorName? d).map (d, ·)
  named.mapM fun (d, name) => declarator s (s.writtenType n) d name

/-! ## Statements -/

variable (inner : Node → Counting StatementId)

def block (n : Node) : Counting StatementId := do
  let ids ← within .empty (n.namedChildren.filter Node.isStatement |>.mapM inner)
  flat (Lowering.push (.block ids) n.span)

def foreachStatement (n : Node) : Counting StatementKind := do
  let collection ← fieldExpression s n "right"
  let written := s.writtenType n
  let isVar := written == "var"
  let type := if isVar then .unknown else s.resolveType written
  let name := match n.child? "left" with
    | some left => s.text left
    | none => ""
  let body ← within .empty do
    declare name type
    (n.child? "body").mapM inner
  return .foreach ⟨name, isVar, type, written⟩ collection body

def resources : List Node → List Variable → Option Expression →
    Counting (List Variable × Option Expression)
  | [], declared, resource => return (declared, resource)
  | n :: rest, declared, resource => do
    if n.kind == "variable_declaration" then
      let declared ← variableDeclaration s n
      resources rest declared resource
    else if resource.isNone && declared.isEmpty then
      let resource ← expression s n
      resources rest declared (some resource)
    else resources rest declared resource

def usingStatement (n : Node) : Counting StatementKind := within .empty do
  let others := (Setting.dropFirst (·.field == "body") n.children).filter (·.isNamed)
  let (declared, resource) ← resources s others [] none
  let body ← (n.child? "body").mapM inner
  return .using_ declared resource body

def catchClause (n : Node) : Counting (CatchClause (Option StatementId)) := do
  let declaration := n.namedChild? "catch_declaration"
  let written := (declaration.bind (·.child? "type")).map s.text
  let variable_ := (declaration.bind (·.child? "name")).map s.text
  let type := written.map s.resolveType
  let enter : Counting Unit := match variable_, type with
    | some name, some type => declare name type
    | _, _ => pure ()
  let body ← within .empty do
    enter
    (n.childOr? "body" "block").mapM (block inner)
  return ⟨type, written, variable_, body⟩

def clauses : List Node → List (CatchClause (Option StatementId)) → Option StatementId →
    Counting (List (CatchClause (Option StatementId)) × Option StatementId)
  | [], catches, finally_ => return (catches, finally_)
  | n :: rest, catches, finally_ => do
    if n.kind == "catch_clause" then
      let clause ← catchClause s inner n
      clauses rest (catches ++ [clause]) finally_
    else if n.kind == "finally_clause" then
      let finally_ ← (n.namedChild? "block").mapM (block inner)
      clauses rest catches finally_
    else clauses rest catches finally_

def tryStatement (n : Node) : Counting StatementKind := do
  let body ← (n.child? "body").mapM (block inner)
  let (catches, finally_) ← clauses s inner n.namedChildren [] none
  return .try_ body catches finally_

def switchSection (n : Node) : Counting Unit := do
  let ids ← (n.namedChildren.filter Node.isStatement).mapM inner
  if ids.isEmpty then return
  else
    let id ← flat (Lowering.push (.block ids) n.span)
    flat fun l => (Setting.addNestedRoot id l, ())

def nestedChild (n : Node) : Counting Unit := do
  if n.kind == "variable_declaration" then
    let _ ← variableDeclaration s n
  else if n.kind == "switch_body" then
    let _ ← (n.namedChildren.filter (·.kind == "switch_section")).mapM (switchSection inner)
  else if n.isStatement then
    let id ← inner n
    flat fun l => (Setting.addNestedRoot id l, ())

def nestedStatements (n : Node) : Counting StatementKind := do
  let _ ← within .empty (n.namedChildren.mapM (nestedChild s inner))
  return .other

/-- The shape of a statement by the kind of its node. -/
def statementKind (n : Node) : Counting StatementKind := do
  match n.kind with
  | "expression_statement" =>
    match n.namedChildren.head? with
    | some e => return .expression (← expression s e)
    | none => return .other
  | "local_declaration_statement" =>
    match n.namedChild? "variable_declaration" with
    | some d => return .declaration (← variableDeclaration s d)
    | none => return .declaration []
  | "if_statement" =>
    let condition ← fieldExpression s n "condition"
    let then_ ← (n.child? "consequence").mapM inner
    let else_ ← (n.child? "alternative").mapM inner
    return .if_ condition then_ else_
  | "while_statement" =>
    let condition ← fieldExpression s n "condition"
    let body ← (n.child? "body").mapM inner
    return .while_ condition body
  | "do_statement" =>
    let body ← (n.child? "body").mapM inner
    return .doWhile body (← fieldExpression s n "condition")
  | "foreach_statement" => foreachStatement s inner n
  | "using_statement" => usingStatement s inner n
  | "return_statement" => return .return_ (← n.namedChildren.head?.mapM (expression s))
  | "break_statement" => return .break_
  | "continue_statement" => return .continue_
  | "empty_statement" => return .empty
  | "try_statement" => tryStatement s inner n
  | "local_function_statement" => within (s.parameters n) (nestedStatements s inner n)
  | _ => nestedStatements s inner n

def statementFrom : (levels : Nat) → Node → Counting StatementId
  | 0, n => flat (Lowering.push .other n.span)
  | levels + 1, n => do
    if maxStatementDepth ≤ (← get).1.statements then flat (Lowering.push .other n.span)
    else inStatement do
      if n.kind == "block" then block (statementFrom levels) n
      else
        let kind ← statementKind s (statementFrom levels) n
        flat (Lowering.push kind n.span)

/-- Lowers a statement. -/
def statement (n : Node) : Counting StatementId := statementFrom s (maxStatementDepth + 1) n

end Statements

end Counting

end Foresight.CSharp
