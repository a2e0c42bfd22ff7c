import Foresight.Template.Expression
import Foresight.Code.SourceFile
import Foresight.Observation

/-!
# Templates of statements

A builder turns one shape of statement into a template: calls, declarations and returns are rendered
with their expression, while statements that hold others become an empty block with the caret in it.
Where an expression cannot be rendered, the written text is taken with the subject replaced, or the
statement has no template.
-/

namespace Foresight

inductive Builder where
  | invocation
  | localVariable
  | if_
  | while_
  | doWhile
  | foreach
  | tryFinally
  | tryCatch
  | return_
  | break_
  | continue_
  deriving DecidableEq, Inhabited

namespace Builder

open Template

/-- The builders in the order in which they are asked. -/
def standard : List Builder :=
  [.invocation, .localVariable, .if_, .while_, .doWhile, .foreach, .tryFinally, .tryCatch,
    .return_, .break_, .continue_]

def name : Builder → String
  | .invocation => "invocation"
  | .localVariable => "local-variable"
  | .if_ => "if"
  | .while_ => "while"
  | .doWhile => "do-while"
  | .foreach => "foreach"
  | .tryFinally => "try-finally"
  | .tryCatch => "try-catch"
  | .return_ => "return"
  | .break_ => "break"
  | .continue_ => "continue"

/-- Replaces the subject's text wherever it occurs, also inside longer identifiers. -/
def replaceSubject (text : String) (parameters : Fields) : String :=
  match Scope.subject? parameters with
  | some subject =>
    if subject.isEmpty then text else Text.replace subject variablePlaceholder text
  | none => text

/-- A rendered expression, or its text with the subject replaced. -/
def renderOrReplace (e : Expression) (parameters : Fields) : Rendered :=
  (render e parameters).getD (.text (replaceSubject e.text parameters))

def isInvocation (e : Expression) : Bool :=
  match e.shape with
  | .invocation .. => true
  | _ => false

def declaredType? (v : Variable) : Option String :=
  if v.isVar then some "var"
  else match v.type.resolved? with
    | some type => some type.presentable
    | none => if v.writtenType.isEmpty then none else some v.writtenType

/-- `T $name$ = value;` for a single declarator that is given a value. -/
def declarationTemplate? (text : String) (parameters : Fields) : List Variable → Option Rendered
  | [v] => do
    let value ← v.initializer
    match render value parameters with
    | none => return .text (replaceSubject text parameters)
    | some r =>
      let type ← declaredType? v
      return ⟨type ++ " " ++ placeholder "name" ++ " = " ++ r.template ++ ";",
        r.fields.insert "name" suggestVariableName⟩
  | _ => none

/-- `foreach (T $iterator$ in collection) { $END$ }` -/
def foreachTemplate? (iterator : Iterator) (collection : Expression) (parameters : Fields) :
    Option Rendered := do
  let type ← if iterator.isVar then some "var" else iterator.type.resolved?.map (·.longName)
  let r := renderOrReplace collection parameters
  return ⟨"foreach (" ++ type ++ " " ++ placeholder "iterator" ++ " in " ++ r.template ++
      ") \x7b " ++ endMarker ++ " \x7d",
    r.fields.insert "iterator" suggestVariableName⟩

/-- ` catch (T) { }`, or a bare clause when the type is not known. -/
def catchText {β : Type} (clause : CatchClause β) : String :=
  match clause.type.bind TypeInfo.resolved? with
  | some type => " catch (" ++ type.longName ++ ") \x7b \x7d"
  | none => " catch \x7b \x7d"

/-- Whether a statement has the shape that the builder is about. -/
def canHandle (b : Builder) (kind : StatementKind) : Bool :=
  match b, kind with
  | .invocation, .expression _ => true
  | .localVariable, .declaration _ => true
  | .if_, .if_ .. => true
  | .while_, .while_ .. => true
  | .doWhile, .doWhile .. => true
  | .foreach, .foreach .. => true
  | .tryFinally, .try_ _ [] (some _) => true
  | .tryCatch, .try_ _ (_ :: _) none => true
  | .return_, .return_ _ => true
  | .break_, .break_ => true
  | .continue_, .continue_ => true
  | _, _ => false

/-- The template of a statement with the given source text, under the parameters of a scope. -/
def template? (b : Builder) (kind : StatementKind) (text : String) (parameters : Fields) :
    Option Rendered :=
  match b, kind with
  | .invocation, .expression e =>
    if isInvocation e then (render e parameters).map (·.append ";") else none
  | .localVariable, .declaration declared => declarationTemplate? text parameters declared
  | .if_, .if_ condition _ _ =>
    some ((renderOrReplace condition parameters).surround "if ("
      (") \x7b " ++ endMarker ++ " \x7d"))
  | .while_, .while_ condition _ =>
    some ((renderOrReplace condition parameters).surround "while ("
      (") \x7b " ++ endMarker ++ " \x7d"))
  | .doWhile, .doWhile _ condition =>
    some ((renderOrReplace condition parameters).surround
      ("do \x7b " ++ endMarker ++ " \x7d while (") ");")
  | .foreach, .foreach iterator collection _ => foreachTemplate? iterator collection parameters
  | .tryFinally, .try_ _ [] (some _) =>
    some (.text ("try \x7b " ++ endMarker ++ " \x7d finally \x7b \x7d"))
  | .tryCatch, .try_ _ (clause :: rest) none =>
    some (.text ("try \x7b " ++ endMarker ++ " \x7d" ++
      String.join ((clause :: rest).map catchText)))
  | .return_, .return_ none => some (.text "return;")
  | .return_, .return_ (some value) =>
    (render value parameters).map (.surround "return " ";")
  | .break_, .break_ => some (.text "break;")
  | .continue_, .continue_ => some (.text "continue;")
  | _, _ => none

/-- The observation that a statement makes under a scope. -/
def build? (b : Builder) (file : SourceFile) (s : Statement) (scope : Scope) :
    Option Observation :=
  (b.template? s.kind (file.textOf s) scope.parameters).map fun r =>
    ⟨scope.key, "", r.template, r.fields⟩

end Builder

end Foresight
