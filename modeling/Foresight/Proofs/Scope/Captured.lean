import Foresight.Mining
import Foresight.Proofs.Table

/-!
# What scopes capture

Whatever classifier sees a scope at a statement, it is one of seven (`opens_of_handle?`). Its
parameters have fixed names, which are made of letters. It has a subject, and captures it first,
unless its key is that of a guard; so scopes with one key agree on whether there is a subject
(`captures_of_mem_scopesFor`).
-/

namespace Foresight

open Classifier

/-- The scopes that a statement can open. -/
inductive Opens (anchor : StatementId) (kind : StatementKind) : Scope → Prop where
  | call (receiver : Expression) (method : Member) : Opens anchor kind
      (.after anchor ("After call to \"" ++ method.fullName ++ "\"")
        (callParameters receiver method))
  | variable_ (name : String) (type : TypeRef) (value : String) : Opens anchor kind
      (.after anchor (variableKey type) ((typedParameters (some name) type).insert "Value" value))
  | loop (name : String) (type : TypeRef) (hslot : kind.bodySlot?.isSome = true) : Opens anchor kind
      (.inside anchor ("Inside foreach loop of type \"" ++ type.longName ++ "\"")
        (typedParameters (some name) type))
  | resource (name : String) (type : TypeRef) (hslot : kind.bodySlot?.isSome = true) :
      Opens anchor kind (.inside anchor ("Inside using of type \"" ++ type.longName ++ "\"")
        (typedParameters (some name) type))
  | null (type : TypeRef) (relation : String) (hslot : kind.bodySlot?.isSome = true) :
      Opens anchor kind (.inside anchor
        ("If expression of type \"" ++ type.longName ++ "\" " ++ relation ++ " null")
        (typedParameters none type))
  | member_ (member : Member) (hslot : kind.bodySlot?.isSome = true) : Opens anchor kind
      (.inside anchor ("If expression \"" ++ member.typeQualifiedName ++ "\"") .empty)
  | negation (member : Member) (hslot : kind.bodySlot?.isSome = true) : Opens anchor kind
      (.inside anchor ("If expression \"!" ++ member.typeQualifiedName ++ "\"") .empty)

theorem opens_of_handle? {c : Classifier} {anchor : StatementId} {kind : StatementKind}
    {scope : Scope} (h : c.handle? anchor kind = some scope) : Opens anchor kind scope := by
  unfold handle? at h
  split at h
  · obtain ⟨⟨receiver, method⟩, -, h⟩ := Option.bind_eq_some_iff.mp h
    dsimp only at h
    split at h
    · cases h
    · cases h
      exact .call receiver method
  · unfold declarationScope? at h
    split at h
    · obtain ⟨type, -, h⟩ := Option.bind_eq_some_iff.mp h
      obtain ⟨value, -, h⟩ := Option.bind_eq_some_iff.mp h
      cases h
      exact .variable_ _ type value.text
    · cases h
  · unfold assignmentScope? at h
    split at h
    · split at h
      · obtain ⟨type, -, h⟩ := Option.bind_eq_some_iff.mp h
        cases h
        exact .variable_ _ _ _
      · cases h
    · cases h
  · obtain ⟨type, -, h⟩ := Option.bind_eq_some_iff.mp h
    cases h
    exact .loop _ type rfl
  · unfold usingScope? at h
    split at h
    · obtain ⟨type, -, h⟩ := Option.bind_eq_some_iff.mp h
      cases h
      exact .resource _ type rfl
    · cases h
  · obtain ⟨⟨operand, isEquality⟩, -, h⟩ := Option.bind_eq_some_iff.mp h
    obtain ⟨type, -, h⟩ := Option.bind_eq_some_iff.mp h
    cases h
    exact .null type _ rfl
  · obtain ⟨m, -, h⟩ := Option.bind_eq_some_iff.mp h
    cases h
    exact .member_ m rfl
  · obtain ⟨m, -, h⟩ := Option.bind_eq_some_iff.mp h
    cases h
    exact .negation m rfl
  · cases h

/-- The names under which something is captured. -/
def capturedNames : List String :=
  [Scope.variableName, "VariableType", "FullName", "Value", "MethodName", "QualifiedMethodName",
    "ContainingType", "IsAssertion"]

/-- The key of a scope in the body of a guard. -/
def isGuard (key : String) : Bool := Text.beginsWith "If " key

/-- What the parameters of a scope are called, by its key. -/
structure Captures (key : String) (parameters : Fields) : Prop where
  names : ∀ name ∈ parameters.names, name ∈ capturedNames
  guard : isGuard key = true → Scope.variableName ∉ parameters.names
  subject : isGuard key = false → parameters.names.head? = some Scope.variableName

theorem captures_guard {key : String} {parameters : Fields} (hkey : isGuard key = true)
    {names : List String} (hnames : parameters.names = names)
    (hlisted : ∀ name ∈ names, name ∈ capturedNames ∧ name ≠ Scope.variableName) :
    Captures key parameters where
  names name hname := (hlisted name (hnames ▸ hname)).1
  guard _ hmem := (hlisted _ (hnames ▸ hmem)).2 rfl
  subject h := by
    rw [hkey] at h
    cases h

theorem captures_subject {key : String} {parameters : Fields} (hkey : isGuard key = false)
    {names : List String} (hnames : parameters.names = Scope.variableName :: names)
    (hlisted : ∀ name ∈ names, name ∈ capturedNames) : Captures key parameters where
  names := hnames ▸ List.forall_mem_cons.mpr ⟨List.mem_cons_self, hlisted⟩
  guard h := by
    rw [hkey] at h
    cases h
  subject _ := by
    rw [hnames]
    rfl

theorem names_callParameters (receiver : Expression) (method : Member) :
    ∃ names, (callParameters receiver method).names = Scope.variableName :: names ∧
      ∀ name ∈ names, name ∈ capturedNames := by
  obtain ⟨name, kind, containingType, isAssertion⟩ := method
  cases containingType <;> cases isAssertion
  · exact ⟨["MethodName", "QualifiedMethodName", "FullName"], rfl, by decide⟩
  · exact ⟨["MethodName", "QualifiedMethodName", "FullName", "IsAssertion"], rfl, by decide⟩
  · exact ⟨["MethodName", "QualifiedMethodName", "ContainingType", "FullName"], rfl, by decide⟩
  · exact ⟨["MethodName", "QualifiedMethodName", "ContainingType", "FullName", "IsAssertion"], rfl,
      by decide⟩

/-- A scope captures what its key is about. -/
theorem Opens.captures {anchor : StatementId} {kind : StatementKind} {scope : Scope}
    (h : Opens anchor kind scope) : Captures scope.key scope.parameters := by
  have hkey : ∀ text more : String, isGuard ("After call to \"" ++ text ++ more) = false ∧
      isGuard ("After variable of type \"" ++ text ++ more) = false ∧
      isGuard ("Inside foreach loop of type \"" ++ text ++ more) = false ∧
      isGuard ("Inside using of type \"" ++ text ++ more) = false := fun _ _ => by
    simp [isGuard, Text.beginsWith, Text.dropLead?]
  have hguard : ∀ text more : String, isGuard ("If expression of type \"" ++ text ++ more) = true ∧
      isGuard ("If expression \"" ++ text ++ more) = true ∧
      isGuard ("If expression \"!" ++ text ++ more) = true := fun _ _ => by
    simp [isGuard, Text.beginsWith, Text.dropLead?]
  cases h with
  | call receiver method =>
    obtain ⟨names, hnames, hlisted⟩ := names_callParameters receiver method
    exact captures_subject (hkey _ _).1 hnames hlisted
  | variable_ name type value =>
    exact captures_subject (hkey _ _).2.1
      (show _ = [_, "VariableType", "FullName", "Value"] from rfl) (by decide)
  | loop name type =>
    exact captures_subject (hkey _ _).2.2.1 (show _ = [_, "VariableType", "FullName"] from rfl)
      (by decide)
  | resource name type =>
    exact captures_subject (hkey _ _).2.2.2 (show _ = [_, "VariableType", "FullName"] from rfl)
      (by decide)
  | null type relation =>
    have hnull := (hguard type.longName ("\" " ++ relation ++ " null")).1
    simp only [← String.append_assoc] at hnull
    exact captures_guard hnull (show _ = ["VariableType", "FullName"] from rfl) (by decide)
  | member_ member => exact captures_guard (hguard _ _).2.1 (show _ = [] from rfl) (by decide)
  | negation member => exact captures_guard (hguard _ _).2.2 (show _ = [] from rfl) (by decide)

theorem captures_of_mem_scopesFor {p : Pipeline} {file : SourceFile} {id : StatementId}
    {scope : Scope} (h : scope ∈ p.scopesFor file id) : Captures scope.key scope.parameters := by
  unfold Pipeline.scopesFor at h
  split at h
  · cases h
  · obtain ⟨c, -, hc⟩ := List.mem_filterMap.mp h
    exact (opens_of_handle? hc).captures

end Foresight
