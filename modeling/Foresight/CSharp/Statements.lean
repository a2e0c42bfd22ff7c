import Foresight.CSharp.Expressions
import Foresight.Code.SourceFile

/-!
# Lowering statements

The bodies of a file are lowered into the statement arena, one after the other. A statement that the
model has no shape for is kept as it is, but the blocks inside it are still lowered, as roots of
their own. Scopes are a stack: whatever opens a scope closes it again, and a statement can only add
names to the innermost one. `room` is the number of levels that may still be modelled; the function
for the statements one level further in is an argument of each rule.
-/

namespace Foresight.CSharp

/-- The deepest nesting of statements that is modelled. -/
def maxStatementDepth : Nat := 64

/-- The state of lowering: the file so far, the local scopes, and the roots found inside statements
that the model has no shape for. -/
structure Lowering where
  file : SourceFile
  scopes : Scopes
  nestedRoots : List StatementId

/-- What stays fixed while a body is lowered. -/
structure Setting where
  source : String
  index : SymbolIndex
  context : Context

/-- A step of lowering that gives a value. -/
abbrev Step (α : Type) := Lowering → Lowering × α

namespace Lowering

def push (kind : StatementKind) (span : Span) : Step StatementId := fun l =>
  let (file, id) := l.file.push kind span
  ({ l with file := file }, id)

/-- Adds a name to the innermost scope. -/
def declare (name : String) (type : TypeInfo) (l : Lowering) : Lowering :=
  match l.scopes with
  | [] => l
  | innermost :: outer => { l with scopes := innermost.insert name (.local_ name type) :: outer }

def within {α : Type} (scope : Table Foresight.Symbol) (step : Step α) : Step α := fun l =>
  let (l, a) := step { l with scopes := scope :: l.scopes }
  ({ l with scopes := l.scopes.tail }, a)

/-- Runs a step for each item, in order. -/
def each {α β : Type} (step : α → Step β) : List α → Step (List β)
  | [], l => (l, [])
  | a :: rest, l =>
    let (l, b) := step a l
    let (l, bs) := each step rest l
    (l, b :: bs)

/-- Runs a step for the item, if there is one. -/
def ifSome {α β : Type} (step : α → Step β) : Option α → Step (Option β)
  | none, l => (l, none)
  | some a, l =>
    let (l, b) := step a l
    (l, some b)

end Lowering

open Lowering

def Node.isStatement (n : Node) : Bool :=
  n.kind == "block" || Text.endsWith "_statement" n.kind

namespace Setting

variable (s : Setting)

def text (n : Node) : String := n.text s.source

def resolveType (written : String) : TypeInfo := s.index.resolveType s.context written

/-- Lowers an expression against the scopes of the moment. -/
def expression (n : Node) (l : Lowering) : Expression :=
  lowerExpression ⟨s.source, s.index, s.context, l.scopes⟩ n

/-- The expression that fills a field, empty text if none does. -/
def fieldExpression (n : Node) (field : String) (l : Lowering) : Expression :=
  match n.child? field with
  | some e => s.expression e l
  | none => .raw ""

/-! ## Declarations -/

/-- The value of a declarator: the node behind the equals sign. -/
def initializer? (declarator : Node) : Option Node :=
  match declarator.child? "initializer" with
  | some n => some (unwrap n)
  | none => behindEquals false declarator.children
where
  unwrap (n : Node) : Node :=
    if n.kind == "equals_value_clause" then n.namedChildren.head?.getD n else n
  /-- The first equals clause, or the first named node behind an equals sign. -/
  behindEquals : (seen : Bool) → List Node → Option Node
    | _, [] => none
    | seen, n :: rest =>
      if n.kind == "equals_value_clause" then some (unwrap n)
      else if seen && n.isNamed then some n
      else behindEquals (seen || n.kind == "=") rest

/-- One declarator of a written type; its name is visible from here on. -/
def declarator (writtenType : String) (n name : Node) : Step Variable := fun l =>
  let value := (initializer? n).map fun v => s.expression v l
  let isVar := writtenType == "var"
  let type :=
    if isVar then
      match value with
      | some v => if v.type.isResolved then v.type else .unknown
      | none => .unknown
    else s.resolveType writtenType
  let name := s.text name
  (l.declare name type, ⟨name, type, isVar, writtenType, value⟩)

/-- The type that a node gives in its field, `var` if it gives none. -/
def writtenType (n : Node) : String :=
  match n.child? "type" with
  | some type => s.text type
  | none => "var"

/-- The declarators of a declaration; one without a name is left out. -/
def variableDeclaration (n : Node) : Step (List Variable) :=
  let named := (n.namedChildren.filter (·.kind == "variable_declarator")).filterMap fun d =>
    (declaratorName? d).map (d, ·)
  each (fun (d, name) => s.declarator (s.writtenType n) d name) named

def parameters (n : Node) : Table Foresight.Symbol :=
  let list := n.child? "parameters" <|>
    n.namedChildren.find? fun c =>
      c.kind == "parameter_list" || c.kind == "bracketed_parameter_list"
  match list with
  | none => .empty
  | some list =>
    .ofList <| (list.namedChildren.filter (·.kind == "parameter")).filterMap fun p =>
      (p.child? "name").map fun name =>
        let type := match p.child? "type" with
          | some type => s.resolveType (s.text type)
          | none => .unknown
        (s.text name, .parameter (s.text name) type)

/-! ## Statements -/

/-- A block: its statements in a scope of their own. -/
def block (inner : Node → Step StatementId) (n : Node) : Step StatementId := fun l =>
  let (l, ids) := within .empty (each inner (n.namedChildren.filter Node.isStatement)) l
  push (.block ids) n.span l

def foreachStatement (inner : Node → Step StatementId) (n : Node) : Step StatementKind := fun l =>
  let collection := s.fieldExpression n "right" l
  let written := s.writtenType n
  let isVar := written == "var"
  let type := if isVar then .unknown else s.resolveType written
  let name := match n.child? "left" with
    | some left => s.text left
    | none => ""
  let (l, body) := within .empty (fun l => ifSome inner (n.child? "body") (l.declare name type)) l
  (l, .foreach ⟨name, isVar, type, written⟩ collection body)

/-- Drops the first item that has a property. -/
def dropFirst (p : Node → Bool) : List Node → List Node
  | [] => []
  | n :: rest => if p n then rest else n :: dropFirst p rest

/-- What stands in the parentheses of a `using`: declarations, or the first expression. -/
def resources : List Node → List Variable → Option Expression →
    Step (List Variable × Option Expression)
  | [], declared, resource, l => (l, (declared, resource))
  | n :: rest, declared, resource, l =>
    if n.kind == "variable_declaration" then
      let (l, declared) := s.variableDeclaration n l
      resources rest declared resource l
    else if resource.isNone && declared.isEmpty then
      resources rest declared (some (s.expression n l)) l
    else resources rest declared resource l

def usingStatement (inner : Node → Step StatementId) (n : Node) : Step StatementKind :=
  within .empty fun l =>
    let others := (dropFirst (·.field == "body") n.children).filter (·.isNamed)
    let (l, declared, resource) := s.resources others [] none l
    let (l, body) := ifSome inner (n.child? "body") l
    (l, .using_ declared resource body)

def catchClause (inner : Node → Step StatementId) (n : Node) :
    Step (CatchClause (Option StatementId)) := fun l =>
  let declaration := n.namedChild? "catch_declaration"
  let written := (declaration.bind (·.child? "type")).map s.text
  let variable_ := (declaration.bind (·.child? "name")).map s.text
  let type := written.map s.resolveType
  let enter := fun (l : Lowering) => match variable_, type with
    | some name, some type => l.declare name type
    | _, _ => l
  let (l, body) := within .empty
    (fun l => ifSome (block inner) (n.childOr? "body" "block") (enter l)) l
  (l, ⟨type, written, variable_, body⟩)

/-- The clauses behind the block of a `try`. The last `finally` counts. -/
def clauses (inner : Node → Step StatementId) :
    List Node → List (CatchClause (Option StatementId)) → Option StatementId →
      Step (List (CatchClause (Option StatementId)) × Option StatementId)
  | [], catches, finally_, l => (l, (catches, finally_))
  | n :: rest, catches, finally_, l =>
    if n.kind == "catch_clause" then
      let (l, clause) := s.catchClause inner n l
      clauses inner rest (catches ++ [clause]) finally_ l
    else if n.kind == "finally_clause" then
      let (l, finally_) := ifSome (block inner) (n.namedChild? "block") l
      clauses inner rest catches finally_ l
    else clauses inner rest catches finally_ l

def tryStatement (inner : Node → Step StatementId) (n : Node) : Step StatementKind := fun l =>
  let (l, body) := ifSome (block inner) (n.child? "body") l
  let (l, catches, finally_) := s.clauses inner n.namedChildren [] none l
  (l, .try_ body catches finally_)

/-- Registers a root that was found inside a statement without a shape. -/
def addNestedRoot (id : StatementId) (l : Lowering) : Lowering :=
  { l with nestedRoots := l.nestedRoots ++ [id] }

/-- The statements of one section of a `switch`, as a block of its own. -/
def switchSection (inner : Node → Step StatementId) (n : Node) : Step Unit := fun l =>
  let (l, ids) := each inner (n.namedChildren.filter Node.isStatement) l
  if ids.isEmpty then (l, ())
  else
    let (l, id) := push (.block ids) n.span l
    (addNestedRoot id l, ())

/-- One child of a statement without a shape. -/
def nestedChild (inner : Node → Step StatementId) (n : Node) : Step Unit := fun l =>
  if n.kind == "variable_declaration" then
    ((s.variableDeclaration n l).1, ())
  else if n.kind == "switch_body" then
    let sections := n.namedChildren.filter (·.kind == "switch_section")
    ((each (switchSection inner) sections l).1, ())
  else if n.isStatement then
    let (l, id) := inner n l
    (addNestedRoot id l, ())
  else (l, ())

/-- The blocks inside a statement that the model has no shape for. -/
def nestedStatements (inner : Node → Step StatementId) (n : Node) : Step StatementKind := fun l =>
  let (l, _) := within .empty (each (s.nestedChild inner) n.namedChildren) l
  (l, .other)

/-- The shape of a statement by the kind of its node; the statements inside it are lowered with
`inner`. -/
def statementKind (inner : Node → Step StatementId) (n : Node) : Step StatementKind := fun l =>
  match n.kind with
  | "expression_statement" =>
    match n.namedChildren.head? with
    | some e => (l, .expression (s.expression e l))
    | none => (l, .other)
  | "local_declaration_statement" =>
    match n.namedChild? "variable_declaration" with
    | some d =>
      let (l, declared) := s.variableDeclaration d l
      (l, .declaration declared)
    | none => (l, .declaration [])
  | "if_statement" =>
    let condition := s.fieldExpression n "condition" l
    let (l, then_) := ifSome inner (n.child? "consequence") l
    let (l, else_) := ifSome inner (n.child? "alternative") l
    (l, .if_ condition then_ else_)
  | "while_statement" =>
    let condition := s.fieldExpression n "condition" l
    let (l, body) := ifSome inner (n.child? "body") l
    (l, .while_ condition body)
  | "do_statement" =>
    let (l, body) := ifSome inner (n.child? "body") l
    (l, .doWhile body (s.fieldExpression n "condition" l))
  | "foreach_statement" => s.foreachStatement inner n l
  | "using_statement" => s.usingStatement inner n l
  | "return_statement" => (l, .return_ (n.namedChildren.head?.map fun v => s.expression v l))
  | "break_statement" => (l, .break_)
  | "continue_statement" => (l, .continue_)
  | "empty_statement" => (l, .empty)
  | "try_statement" => s.tryStatement inner n l
  | "local_function_statement" => within (s.parameters n) (s.nestedStatements inner n) l
  | _ => s.nestedStatements inner n l

/-- Lowers a statement with `room` levels to go. -/
def statement : (room : Nat) → Node → Step StatementId
  | 0, n => push .other n.span
  | room + 1, n => fun l =>
    if n.kind == "block" then block (statement room) n l
    else
      let (l, kind) := s.statementKind (statement room) n l
      push kind n.span l

end Setting

/-! ## Files -/

/-- Registers the roots found on the way. -/
def addNestedRoots (l : Lowering) : Lowering :=
  { l with file := l.nestedRoots.foldl SourceFile.addRoot l.file, nestedRoots := [] }

/-- Lowers the body of a member, with its parameters in scope, as a root. -/
def lowerBody (setting : Setting) (b : MemberBody) (l : Lowering) : Lowering :=
  let setting := { setting with
    context := { setting.context with
      namespace_ := b.type.namespace_, enclosingType := some b.type } }
  let (l, root) := within (setting.parameters b.member)
    (Setting.block (setting.statement maxStatementDepth) b.body) l
  addNestedRoots { l with file := l.file.addRoot root }

/-- The state between the sites of a file. Names that top-level statements declare stay visible to
later ones. -/
structure FileLowering where
  lowering : Lowering
  globals : Table Foresight.Symbol
  statements : List StatementId

def lowerSite (setting : Setting) (f : FileLowering) : Site → FileLowering
  | .type namespace_ n =>
    let bodies := bodiesOf setting.source namespace_ n
    { f with lowering := bodies.foldl (fun l b => lowerBody setting b l) f.lowering }
  | .statement namespace_ n =>
    match n.namedChildren.head? with
    | none => f
    | some child =>
      let setting := { setting with
        context := { setting.context with namespace_ := namespace_, enclosingType := none } }
      let l := { f.lowering with scopes := f.globals :: f.lowering.scopes }
      let (l, id) := setting.statement maxStatementDepth child l
      ⟨{ l with scopes := l.scopes.tail }, l.scopes.headD .empty, f.statements ++ [id]⟩

/-- The block around the top-level statements, from the first to the last. -/
def closeStatements (f : FileLowering) : SourceFile :=
  match f.statements.head?, f.statements.getLast? with
  | some first, some last =>
    let file := f.lowering.file
    let start := ((file.get? first).map (·.span.start)).getD 0
    let stop := ((file.get? last).map (·.span.stop)).getD start
    let (l, block) := push (.block f.statements) ⟨start, stop⟩ f.lowering
    (addNestedRoots { l with file := l.file.addRoot block }).file
  | _, _ => f.lowering.file

/-- The model of a file, with its names bound against a symbol index. -/
def lowerFile (path source : String) (index : SymbolIndex) (root : Node) : SourceFile :=
  let setting : Setting := ⟨source, index, ⟨usings source root, "", none⟩⟩
  let start : FileLowering := ⟨⟨.new path source, [], []⟩, .empty, []⟩
  closeStatements ((sites source root).foldl (lowerSite setting) start)

end Foresight.CSharp
