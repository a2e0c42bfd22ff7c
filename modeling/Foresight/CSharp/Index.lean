import Foresight.CSharp.TypeText
import Foresight.Table

/-!
# The symbol index

All types that a solution declares, by full name. No compiler stands behind the index, so a name is
bound only to what can be seen: a declaration in the solution, a framework type in a visible
namespace, or a dotted name taken as it is written. Everything else stays unresolved.
-/

namespace Foresight.CSharp

/-- A member as it is declared. -/
structure MemberDeclaration where
  name : String
  kind : MemberKind
  /-- The declared type or result type as written. -/
  writtenType : Option String
  parameters : List String
  deriving DecidableEq, Inhabited

/-- What is visible at some place of a file. -/
structure Context where
  /-- The `using` directives of the file. -/
  usings : List String
  /-- The innermost namespace around the place. -/
  namespace_ : String
  enclosingType : Option QualifiedName
  deriving DecidableEq, Inhabited

namespace Context

/-- A namespace and the namespaces around it, innermost first. -/
def enclosingNamespaces (namespace_ : String) : List String :=
  let parts := Text.splitAt '.' namespace_
  let lengths := ((List.range parts.length).map (· + 1)).reverse
  (lengths.map fun k => Text.join "." (parts.take k)).filter (!·.isEmpty)

/-- Adds names that are not there yet, at the end. -/
def addMissing (names : List String) : List String → List String
  | [] => names
  | name :: rest =>
    addMissing (if names.contains name then names else names ++ [name]) rest

/-- The namespaces around the place, the global one, and those that are used, in this order. -/
def visibleNamespaces (c : Context) : List String :=
  addMissing (enclosingNamespaces c.namespace_ ++ [""]) c.usings

end Context

/-- A type as the solution declares it. -/
structure TypeDeclaration where
  name : QualifiedName
  /-- The `using` directives of the declaring file. -/
  usings : List String
  members : List MemberDeclaration
  /-- The parameter names of each constructor. -/
  constructors : List (List String)
  deriving DecidableEq, Inhabited

namespace TypeDeclaration

def member? (d : TypeDeclaration) (name : String) : Option MemberDeclaration :=
  d.members.find? (·.name == name)

/-- The overload with so many parameters, or else the first one. -/
def method? (d : TypeDeclaration) (name : String) (arity : Nat) : Option MemberDeclaration :=
  let overloads := d.members.filter fun m => m.name == name && m.kind == .method
  overloads.find? (·.parameters.length == arity) <|> overloads.head?

/-- The parameter names of the constructor with so many parameters. -/
def constructor? (d : TypeDeclaration) (arity : Nat) : Option (List String) :=
  d.constructors.find? (·.length == arity)

def context (d : TypeDeclaration) : Context := ⟨d.usings, d.name.namespace_, some d.name⟩

def merge (first second : TypeDeclaration) : TypeDeclaration :=
  ⟨first.name, Context.addMissing first.usings second.usings, first.members ++ second.members,
    first.constructors ++ second.constructors⟩

end TypeDeclaration

/-- The declared types by full name. -/
structure SymbolIndex where
  types : Table TypeDeclaration
  deriving DecidableEq, Inhabited

namespace SymbolIndex

def empty : SymbolIndex := ⟨.empty⟩

def get? (index : SymbolIndex) (fullName : String) : Option TypeDeclaration :=
  index.types.get? fullName

/-- Adds a declaration; the parts of one type are merged. -/
def add (index : SymbolIndex) (d : TypeDeclaration) : SymbolIndex :=
  let merged := match index.get? d.name.fullName with
    | some existing => existing.merge d
    | none => d
  ⟨index.types.insert d.name.fullName merged⟩

def addAll (index : SymbolIndex) (declarations : List TypeDeclaration) : SymbolIndex :=
  declarations.foldl add index

def size (index : SymbolIndex) : Nat := index.types.entries.length

/-- The declared types with a simple name, in the order of declaration. -/
def declared (index : SymbolIndex) (name : String) : List QualifiedName :=
  (index.types.entries.map fun (_, d) => d.name).filter (·.name == name)

/-- The type that a name in the code stands for. A declared type in a visible namespace comes
first, then any declared type, then a framework type in a visible namespace. -/
def resolveTypeName? (index : SymbolIndex) (context : Context) (name : String) :
    Option QualifiedName :=
  let name := Text.trim name
  if name.isEmpty then none
  else if Text.contains "." name then some (splitQualified name)
  else
    let visible := context.visibleNamespaces
    let declared := index.declared name
    visible.findSome? (fun ns => declared.find? (·.namespace_ == ns)) <|>
      declared.head? <|>
      (visible.find? fun ns => wellKnownTypes.contains (ns, name)).map (⟨·, name⟩)

/-- The long name of a type expression, if all of it is bound; `unknown` when nothing was
written. -/
inductive Binding where
  | long (name : String)
  | unknown
  | unresolved
  deriving DecidableEq, Inhabited

namespace Binding

def map (f : String → String) : Binding → Binding
  | .long name => .long (f name)
  | b => b

def long? : Binding → Option String
  | .long name => some name
  | _ => none

end Binding

mutual

def bind (index : SymbolIndex) (context : Context) : TypeText → Binding
  | .implicit => .unknown
  | .array element => (bind index context element).map (· ++ "[]")
  | .nullable inner => bind index context inner
  | .keyword long => .long long
  | .generic base arguments =>
    match index.resolveTypeName? context base, bindAll index context arguments with
    | some base, some arguments =>
      .long (base.fullName ++ "<" ++ Text.join "," arguments ++ ">")
    | _, _ => .unresolved
  | .name text =>
    match index.resolveTypeName? context text with
    | some name => .long name.fullName
    | none => .unresolved

/-- The long names of type expressions, if all are bound. -/
def bindAll (index : SymbolIndex) (context : Context) : List TypeText → Option (List String)
  | [] => some []
  | t :: rest => do
    let long ← (bind index context t).long?
    let more ← bindAll index context rest
    return long :: more

end

/-- The type that is written in a declaration, a cast or a type test. -/
def resolveType (index : SymbolIndex) (context : Context) (written : String) : TypeInfo :=
  match index.bind context (.ofString written) with
  | .long long => .resolved ⟨Text.squeeze written, long⟩
  | .unknown => .unknown
  | .unresolved => .unresolved

def declaredMember? (index : SymbolIndex) (owner : QualifiedName) (member : String) :
    Option MemberDeclaration := do
  (← index.get? owner.fullName).member? member

/-- The type of `owner.member`. A declared type answers for all its members, a framework type for
its well-known ones. -/
def memberType (index : SymbolIndex) (owner : QualifiedName) (member : String) : TypeInfo :=
  match index.get? owner.fullName with
  | some d =>
    match (d.member? member).bind (·.writtenType) with
    | some written => index.resolveType d.context written
    | none => .unknown
  | none =>
    match wellKnownMember? owner.fullName member with
    | some type => .resolved type
    | none => .unknown

end SymbolIndex

def typeRefOf (name : QualifiedName) : TypeRef := ⟨name.name, name.fullName⟩

end Foresight.CSharp
