import Foresight.Code.Expression
import Foresight.Scope.Basic

/-!
# Templates of expressions

An expression is rendered with the parameters of a scope. The scope's subject becomes
`$VariableName$`, other locals become placeholders named after their type, and arguments become
placeholders named after the parameter that they bind to. A shape without a rule is written as it
stands. There is no template when a required part is missing: the call of something that is no
reference, or a creation without a type.
-/

namespace Foresight.Template

def variablePlaceholder : String := "$VariableName$"

/-- Where the caret goes in a block template. -/
def endMarker : String := "$END$"

/-- The suggestion that asks for a fresh variable name. -/
def suggestVariableName : String := "suggestVariableName()"

/-- A placeholder in a template. -/
def placeholder (name : String) : String := "$" ++ name ++ "$"

/-- A template text and a suggestion for each placeholder that it introduces. -/
structure Rendered where
  template : String
  fields : Fields
  deriving DecidableEq, Inhabited

namespace Rendered

/-- A template without placeholders of its own. -/
def text (template : String) : Rendered := ⟨template, .empty⟩

def append (r : Rendered) (more : String) : Rendered := { r with template := r.template ++ more }

def hole (r : Rendered) (name suggestion : String) : Rendered :=
  ⟨r.template ++ placeholder name, r.fields.insert name suggestion⟩

/-- Appends a dot unless there is nothing to put it behind. -/
def dot (r : Rendered) : Rendered := if r.template.isEmpty then r else r.append "."

def surround (before after : String) (r : Rendered) : Rendered :=
  ⟨before ++ r.template ++ after, r.fields⟩

end Rendered

/-- The suggestion for a variable of a type. -/
def variableOfType (type : TypeRef) : String := "variableOfType(\"" ++ type.longName ++ "\")"

/-- A variable's placeholder: named after its type, or after itself when the type is not known. -/
def variableHole (r : Rendered) (name : String) (type : TypeInfo) : Rendered :=
  match type.resolved? with
  | some type => r.hole type.placeholderName (variableOfType type)
  | none => r.hole name suggestVariableName

/-- The name at the end of a reference, behind its rendered qualifier. -/
def renderName (subject : String) (isQualified : Bool) (name : String) (target : Option Symbol)
    (before : Rendered) : Rendered :=
  let identifier := match isQualified, target with
    | false, some (.type type) => type.fullName
    | _, _ => name
  if identifier = subject then before.append variablePlaceholder
  else match target with
    | some (.local_ name type) | some (.parameter name type) => variableHole before name type
    | _ => before.append identifier

/-- `this` stands for a variable of its type. -/
def renderThis (type : TypeInfo) : Rendered :=
  match type.resolved? with
  | some type => (Rendered.text "").hole type.placeholderName (variableOfType type)
  | none => .text "this"

/-- The arguments that are bound to a parameter. The others are dropped. -/
def boundArguments (arguments : List (Argument Expression)) : List (String × String) :=
  arguments.filterMap fun a => a.parameter.map fun p => (p, a.value.text)

/-- Appends one argument: the subject as such, anything else as a hole that the user fills. -/
def renderArgument (subject : String) (r : Rendered) (parameter text : String) : Rendered :=
  if text = subject then r.append variablePlaceholder else r.hole parameter ""

def renderArguments (subject : String) : List (String × String) → Rendered → Rendered
  | [], r => r
  | [(parameter, text)], r => renderArgument subject r parameter text
  | (parameter, text) :: rest, r =>
    renderArguments subject rest ((renderArgument subject r parameter text).append ", ")

def renderCall (subject : String) (arguments : List (Argument Expression)) (r : Rendered) :
    Rendered :=
  (renderArguments subject (boundArguments arguments) (r.append "(")).append ")"

/-- The template of an expression that stands `depth` levels deep, for a subject text. -/
def renderAt (subject : String) (e : Expression) (depth : Nat) : Option Rendered :=
  if depth > Expression.maxDepth then none
  else match e with
  | ⟨_, _, .invocation ⟨_, _, .reference (some qualifier) name _⟩ arguments⟩ =>
    let before := (renderAt subject qualifier (depth + 1)).getD (.text qualifier.text)
    some (renderCall subject arguments (before.dot.append name))
  | ⟨_, _, .invocation ⟨_, _, .reference none name _⟩ arguments⟩ =>
    some (renderCall subject arguments (.text name))
  | ⟨_, _, .invocation _ _⟩ => none
  | ⟨_, _, .reference (some qualifier) name target⟩ =>
    let before := (renderAt subject qualifier (depth + 1)).getD (.text qualifier.text)
    some (renderName subject true name target before.dot)
  | ⟨_, _, .reference none name target⟩ => some (renderName subject false name target (.text ""))
  | ⟨_, _, .binary left operator right⟩ => do
    let l ← renderAt subject left (depth + 1)
    let r ← renderAt subject right (depth + 1)
    return ⟨l.template ++ " " ++ operator ++ " " ++ r.template, r.fields.absorb l.fields⟩
  | ⟨_, _, .is operand _ written⟩ =>
    (renderAt subject operand (depth + 1)).map (·.append (" is " ++ written))
  | ⟨_, _, .as operand _ written⟩ =>
    (renderAt subject operand (depth + 1)).map (·.append (" as " ++ written))
  | ⟨_, _, .cast _ written operand⟩ =>
    (renderAt subject operand (depth + 1)).map (.surround ("(" ++ written ++ ")") "")
  | ⟨_, _, .unary operator operand false⟩ =>
    (renderAt subject operand (depth + 1)).map (.surround operator "")
  | ⟨_, _, .parenthesized inner⟩ =>
    (renderAt subject inner (depth + 1)).map (.surround "(" ")")
  | ⟨_, type, .this⟩ => some (renderThis type)
  | ⟨_, _, .creation (some type) arguments⟩ =>
    let created := match type.resolved with
      | some name => name.fullName
      | none => type.written
    some (renderCall subject arguments (.text ("new " ++ created)))
  | ⟨_, _, .creation none _⟩ => none
  | ⟨text, _, _⟩ => some (.text text)

/-- The subject text of some parameters, empty when there is none. -/
def subjectOf (parameters : Fields) : String := (Scope.subject? parameters).getD ""

/-- The template of an expression under the parameters of a scope. -/
def render (e : Expression) (parameters : Fields) : Option Rendered :=
  renderAt (subjectOf parameters) e 0

end Foresight.Template
