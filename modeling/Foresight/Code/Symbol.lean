/-!
# Names and types

What a name in a source file can stand for. Types have three states: a type that is known, a type
that was written but could not be bound to a declaration, and no type at all; nothing downstream
guesses when the type is not known.
-/

namespace Foresight

/-- A known type: the short form as a developer writes it, and the long form with namespaces. -/
structure TypeRef where
  presentable : String
  longName : String
  deriving DecidableEq, Inhabited

/-- The presentable name without `<`, `>` and `.`, fit to name a placeholder. -/
def TypeRef.placeholderName (type : TypeRef) : String :=
  String.ofList (type.presentable.toList.filter fun c => c != '<' && c != '>' && c != '.')

inductive TypeInfo where
  | resolved (type : TypeRef)
  | unknown
  | unresolved
  deriving DecidableEq, Inhabited

def TypeInfo.resolved? : TypeInfo → Option TypeRef
  | .resolved type => some type
  | _ => none

def TypeInfo.isResolved (type : TypeInfo) : Bool := type.resolved?.isSome

/-- A type's simple name and the namespace that holds it, empty for the global one. -/
structure QualifiedName where
  namespace_ : String
  name : String
  deriving DecidableEq, Inhabited

def QualifiedName.fullName (q : QualifiedName) : String :=
  if q.namespace_.isEmpty then q.name else q.namespace_ ++ "." ++ q.name

inductive MemberKind where
  | method
  | property
  | field
  | event
  deriving DecidableEq, Inhabited

/-- A member of a type, as a reference names it. Assertion and contract methods are marked. -/
structure Member where
  name : String
  kind : MemberKind
  containingType : Option QualifiedName
  isAssertion : Bool
  deriving DecidableEq, Inhabited

namespace Member

def method (name : String) (containingType : QualifiedName) : Member :=
  ⟨name, .method, some containingType, false⟩

def property (name : String) (containingType : QualifiedName) : Member :=
  ⟨name, .property, some containingType, false⟩

/-- `Type.Member` -/
def typeQualifiedName (m : Member) : String :=
  match m.containingType with
  | some type => type.name ++ "." ++ m.name
  | none => m.name

/-- `Namespace.Type.Member` -/
def fullName (m : Member) : String :=
  match m.containingType with
  | some type => type.fullName ++ "." ++ m.name
  | none => m.name

end Member

/-- What a reference stands for. -/
inductive Symbol where
  | local_ (name : String) (type : TypeInfo)
  | parameter (name : String) (type : TypeInfo)
  | member (member : Member)
  | type (name : QualifiedName)
  deriving DecidableEq, Inhabited

end Foresight
