import Foresight.CSharp.Index
import Foresight.CSharp.Node

/-!
# Declarations of a file

Both passes over a file go through its containers in the same way. `sites` lists what stands in
them: type declarations, each with its namespace, and top-level statements. From a type
declaration one pass takes what the type declares (`declarationsOf`), the other the bodies that are
to be mined (`bodiesOf`).
-/

namespace Foresight.CSharp

def typeKinds : List String :=
  ["class_declaration", "struct_declaration", "interface_declaration", "record_declaration",
    "record_struct_declaration", "enum_declaration"]

def Node.declaresType (n : Node) : Bool := typeKinds.contains n.kind

def joinNamespace (outer inner : String) : String :=
  if outer.isEmpty then inner else outer ++ "." ++ inner

/-! ## Using directives -/

/-- The namespace that a `using` directive names; aliases and static imports name none. -/
def usedNamespace? (source : String) (directive : Node) : Option String :=
  if directive.children.any fun c => c.kind == "=" || c.kind == "static" then none
  else
    (directive.namedChildren.find? fun c =>
      c.kind == "qualified_name" || c.kind == "identifier").map (·.text source)

mutual

/-- The namespaces that one member of a container brings into use. -/
def usingsOf (source : String) : Node → List String
  | n@⟨kind, _, _, _, _, children⟩ =>
    if kind == "using_directive" then (usedNamespace? source n).toList
    else if kind == "namespace_declaration" then usingsInBody source children
    else if kind == "file_scoped_namespace_declaration" || kind == "declaration_list" then
      usingsOfAll source children
    else []

def usingsOfAll (source : String) : List Node → List String
  | [] => []
  | n :: rest => (if n.isNamed then usingsOf source n else []) ++ usingsOfAll source rest

/-- Those in the first child that is a body. -/
def usingsInBody (source : String) : List Node → List String
  | [] => []
  | ⟨_, _, field, _, _, children⟩ :: rest =>
    if field == "body" then usingsOfAll source children else usingsInBody source rest

end

/-- The `using` directives of a file. -/
def usings (source : String) (root : Node) : List String := usingsOfAll source root.children

/-! ## Sites -/

/-- What stands in the containers of a file. -/
inductive Site where
  | type (namespace_ : String) (declaration : Node)
  | statement (namespace_ : String) (globalStatement : Node)

mutual

def sitesOf (source namespace_ : String) : Node → List Site
  | n@⟨kind, _, _, _, _, children⟩ =>
    if kind == "namespace_declaration" then
      match n.child? "name" with
      | some name => sitesInBody source (joinNamespace namespace_ (name.text source)) children
      | none => []
    else if kind == "file_scoped_namespace_declaration" then
      match n.child? "name" with
      | some name => sitesOfAll source (joinNamespace namespace_ (name.text source)) children
      | none => []
    else if kind == "global_statement" then [.statement namespace_ n]
    else if n.declaresType then [.type namespace_ n]
    else []

def sitesOfAll (source namespace_ : String) : List Node → List Site
  | [] => []
  | n :: rest =>
    (if n.isNamed then sitesOf source namespace_ n else []) ++ sitesOfAll source namespace_ rest

/-- Those in the first child that is a body. -/
def sitesInBody (source namespace_ : String) : List Node → List Site
  | [] => []
  | ⟨_, _, field, _, _, children⟩ :: rest =>
    if field == "body" then sitesOfAll source namespace_ children
    else sitesInBody source namespace_ rest

end

/-- The sites of a file, in source order. -/
def sites (source : String) (root : Node) : List Site := sitesOfAll source "" root.children

/-! ## What a type declares -/

/-- Whether a child of a type declaration is its body: the one that fills the field, if there is
such a field, and else the first list of declarations. -/
def isTypeBody (siblings : List Node) (n : Node) : Bool :=
  if siblings.any (·.field == "body") then n.field == "body"
  else n.isNamed && n.kind == "declaration_list"

/-- The parameter names of a method or a constructor. -/
def parameterNames (source : String) (n : Node) : List String :=
  match n.childOr? "parameters" "parameter_list" with
  | some list =>
    ((list.namedChildren.filter (·.kind == "parameter")).filterMap (·.child? "name")).map
      (·.text source)
  | none => []

def declaratorName? (declarator : Node) : Option Node := declarator.childOr? "name" "identifier"

/-- The members that the declarators of a field or an event introduce. -/
def variableMembers (source : String) (kind : MemberKind) (declaration : Node) :
    List MemberDeclaration :=
  let type := (declaration.child? "type").map (·.text source)
  ((declaration.namedChildren.filter (·.kind == "variable_declarator")).filterMap
    declaratorName?).map fun name => ⟨name.text source, kind, type, []⟩

/-- The members that a node in the body of a type declares. -/
def declaredMembers (source : String) (n : Node) : List MemberDeclaration :=
  if n.kind == "method_declaration" then
    match n.child? "name" with
    | some name =>
      [⟨name.text source, .method, (n.child? "returns" <|> n.child? "type").map (·.text source),
        parameterNames source n⟩]
    | none => []
  else if n.kind == "property_declaration" then
    match n.child? "name" with
    | some name => [⟨name.text source, .property, (n.child? "type").map (·.text source), []⟩]
    | none => []
  else if n.kind == "field_declaration" || n.kind == "event_field_declaration" then
    let kind := if n.kind == "field_declaration" then MemberKind.field else .event
    (n.namedChildren.filter (·.kind == "variable_declaration")).flatMap
      (variableMembers source kind)
  else []

/-- The constructors that a node in the body of a type declares. -/
def declaredConstructors (source : String) (n : Node) : List (List String) :=
  if n.kind == "constructor_declaration" then [parameterNames source n] else []

/-- The constructor that a parameter list behind the name of a type declares. -/
def primaryConstructor (source : String) (n : Node) : List (List String) :=
  if (n.namedChild? "parameter_list").isSome then [parameterNames source n] else []

/-- What a type declares itself, its members being the named nodes of its body. -/
def declarationOf (source namespace_ : String) (usings : List String) (n name : Node) :
    TypeDeclaration :=
  let body := match n.children.find? (isTypeBody n.children) with
    | some body => body.namedChildren
    | none => []
  ⟨⟨namespace_, name.text source⟩, usings, body.flatMap (declaredMembers source),
    primaryConstructor source n ++ body.flatMap (declaredConstructors source)⟩

mutual

/-- A type and the types declared inside it, outer ones first. A type without a name, and all that
is inside it, is left out. -/
def declarationsOf (source namespace_ : String) (usings : List String) :
    Node → List TypeDeclaration
  | n@⟨_, _, _, _, _, children⟩ =>
    match n.child? "name" with
    | some name =>
      declarationOf source namespace_ usings n name ::
        nestedDeclarations source namespace_ usings (isTypeBody children) children
    | none => []

/-- The types declared in the first child that is the body. -/
def nestedDeclarations (source namespace_ : String) (usings : List String)
    (isBody : Node → Bool) : List Node → List TypeDeclaration
  | [] => []
  | n@⟨_, _, _, _, _, children⟩ :: rest =>
    if isBody n then declarationsOfAll source namespace_ usings children
    else nestedDeclarations source namespace_ usings isBody rest

def declarationsOfAll (source namespace_ : String) (usings : List String) :
    List Node → List TypeDeclaration
  | [] => []
  | n :: rest =>
    (if n.isNamed && n.declaresType then declarationsOf source namespace_ usings n else []) ++
      declarationsOfAll source namespace_ usings rest

end

def declarations (source : String) (root : Node) : List TypeDeclaration :=
  (sites source root).flatMap fun
    | .type namespace_ n => declarationsOf source namespace_ (usings source root) n
    | .statement .. => []

/-! ## Bodies to be mined -/

/-- A body of a member, with the type around it. -/
structure MemberBody where
  type : QualifiedName
  member : Node
  body : Node

def bodyKinds : List String :=
  ["method_declaration", "constructor_declaration", "destructor_declaration",
    "operator_declaration", "conversion_operator_declaration"]

/-- The kinds of members that have accessors with bodies. -/
def accessorKinds : List String :=
  ["property_declaration", "indexer_declaration", "event_declaration"]

def memberBodies (n : Node) : List Node :=
  let bodies :=
    if bodyKinds.contains n.kind then (n.child? "body").toList
    else if accessorKinds.contains n.kind then
      match n.childOr? "accessors" "accessor_list" with
      | some accessors => accessors.namedChildren.filterMap (·.childOr? "body" "block")
      | none => []
    else []
  bodies.filter (·.kind == "block")

mutual

/-- The bodies in a type, those of inner types where the inner types stand. -/
def bodiesOf (source namespace_ : String) : Node → List MemberBody
  | n@⟨_, _, _, _, _, children⟩ =>
    match n.child? "name" with
    | some name =>
      bodiesInBody source namespace_ ⟨namespace_, name.text source⟩ (isTypeBody children) children
    | none => []

/-- The bodies in the first child that is the body of the type. -/
def bodiesInBody (source namespace_ : String) (type : QualifiedName) (isBody : Node → Bool) :
    List Node → List MemberBody
  | [] => []
  | n@⟨_, _, _, _, _, children⟩ :: rest =>
    if isBody n then bodiesOfAll source namespace_ type children
    else bodiesInBody source namespace_ type isBody rest

def bodiesOfAll (source namespace_ : String) (type : QualifiedName) : List Node → List MemberBody
  | [] => []
  | n :: rest =>
    (if n.isNamed then
      if n.declaresType then bodiesOf source namespace_ n
      else (memberBodies n).map (⟨type, n, ·⟩)
    else []) ++ bodiesOfAll source namespace_ type rest

end

end Foresight.CSharp
