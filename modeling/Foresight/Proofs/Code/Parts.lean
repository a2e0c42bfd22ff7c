import Foresight.Code.Statement

/-!
# Parts of expressions and of statements

An expression is made of its operands (`Shape.operands`), and whatever is inside of it is reached
through them (`Within`). A statement has expressions of its own (`StatementKind.expressions`), apart
from those in its child statements. The texts of an expression or of a statement are those that it
has beside its operands or its expressions.
-/

namespace Foresight

namespace Expression

def Shape.operands {ε : Type} : Shape ε → List ε
  | .reference qualifier _ _ => qualifier.toList
  | .invocation invoked arguments => invoked :: arguments.map (·.value)
  | .binary left _ right => [left, right]
  | .unary _ operand _ | .cast _ _ operand | .is operand _ _ | .as operand _ _ => [operand]
  | .parenthesized inner => [inner]
  | .creation _ arguments => arguments.map (·.value)
  | .assignment target _ value => [target, value]
  | .this | .literal | .other => []

/-- The name and the target of a reference without a qualifier. -/
def Shape.bareName? {ε : Type} : Shape ε → Option (String × Option Symbol)
  | .reference none name target => some (name, target)
  | _ => none

/-- An expression and all that is inside it. -/
inductive Within : (whole part : Expression) → Prop where
  | self (e : Expression) : Within e e
  | inner {whole operand part : Expression} : operand ∈ whole.shape.operands →
      Within operand part → Within whole part

/-- A property of an expression and of all that is inside it. -/
def AllWithin (Q : Expression → Prop) (e : Expression) : Prop := ∀ part, e.Within part → Q part

namespace AllWithin

variable {Q : Expression → Prop} {e : Expression}

theorem self (h : e.AllWithin Q) : Q e := h e (.self e)

theorem operand (h : e.AllWithin Q) {operand : Expression} (hoperand : operand ∈ e.shape.operands) :
    operand.AllWithin Q :=
  fun part hpart => h part (.inner hoperand hpart)

theorem of_operands (hself : Q e) (h : ∀ operand ∈ e.shape.operands, operand.AllWithin Q) :
    e.AllWithin Q := by
  intro part hpart
  cases hpart with
  | self => exact hself
  | inner hoperand hpart => exact h _ hoperand part hpart

theorem mono {R : Expression → Prop} (h : e.AllWithin Q) (hle : ∀ part, Q part → R part) :
    e.AllWithin R :=
  fun part hpart => hle part (h part hpart)

end AllWithin

end Expression

/-! ## Texts -/

/-- A property of some texts. -/
def AllTexts (P : String → Prop) (texts : List String) : Prop := ∀ text ∈ texts, P text

namespace AllTexts

variable {P : String → Prop} {text : String} {texts more : List String}

instance [DecidablePred P] : Decidable (AllTexts P texts) :=
  inferInstanceAs (Decidable (∀ text ∈ texts, P text))

theorem nil : AllTexts P [] := List.forall_mem_nil _

theorem cons (h : P text) (hmore : AllTexts P texts) : AllTexts P (text :: texts) :=
  List.forall_mem_cons.mpr ⟨h, hmore⟩

theorem append (h : AllTexts P texts) (hmore : AllTexts P more) : AllTexts P (texts ++ more) :=
  List.forall_mem_append.mpr ⟨h, hmore⟩

theorem flatMap {α : Type} {items : List α} {f : α → List String}
    (h : ∀ a ∈ items, AllTexts P (f a)) : AllTexts P (items.flatMap f) :=
  fun _ ht => have ⟨a, ha, ht⟩ := List.mem_flatMap.mp ht; h a ha _ ht

/-- The texts of something that may be missing. -/
theorem option {α : Type} {item : Option α} {f : α → List String}
    (h : ∀ a ∈ item, AllTexts P (f a)) : AllTexts P (item.toList.flatMap f) :=
  flatMap fun a ha => h a (Option.mem_toList.mp ha)

end AllTexts

def TypeRef.texts (type : TypeRef) : List String := [type.presentable, type.longName]

def TypeInfo.texts (type : TypeInfo) : List String := type.resolved?.toList.flatMap (·.texts)

def QualifiedName.texts (q : QualifiedName) : List String := [q.namespace_, q.name]

def Symbol.texts : Symbol → List String
  | .local_ name info | .parameter name info => name :: info.texts
  | .member m => m.name :: m.containingType.toList.flatMap (·.texts)
  | .type name => name.texts

def CreatedType.texts (type : CreatedType) : List String :=
  type.written :: type.resolved.toList.flatMap (·.texts)

namespace Expression

def Shape.texts {ε : Type} : Shape ε → List String
  | .reference _ name target => name :: target.toList.flatMap (·.texts)
  | .invocation _ arguments => arguments.filterMap (·.parameter)
  | .binary _ operator _ | .unary operator _ _ | .assignment _ operator _ => [operator]
  | .cast target written _ | .is _ target written | .as _ target written => written :: target.texts
  | .creation type arguments =>
    type.toList.flatMap (·.texts) ++ arguments.filterMap (·.parameter)
  | .parenthesized _ | .this | .literal | .other => []

def texts (e : Expression) : List String := e.text :: (e.type.texts ++ e.shape.texts)

end Expression

def Variable.texts (v : Variable) : List String := v.name :: v.writtenType :: v.type.texts

def Iterator.texts (iterator : Iterator) : List String :=
  iterator.name :: iterator.writtenType :: iterator.type.texts

def CatchClause.texts {β : Type} (clause : CatchClause β) : List String :=
  clause.type.toList.flatMap (·.texts) ++ clause.writtenType.toList ++ clause.variable_.toList

/-! ## Statements -/

/-- The expressions of a statement itself. -/
def StatementKind.expressions : StatementKind → List Expression
  | .expression e => [e]
  | .declaration declared => declared.filterMap (·.initializer)
  | .if_ condition _ _ | .while_ condition _ | .doWhile _ condition => [condition]
  | .foreach _ collection _ => [collection]
  | .using_ declared resource _ => declared.filterMap (·.initializer) ++ resource.toList
  | .return_ value => value.toList
  | .block _ | .break_ | .continue_ | .try_ .. | .empty | .other => []

/-- The texts that a statement has beside its expressions. -/
def StatementKind.texts : StatementKind → List String
  | .declaration declared | .using_ declared _ _ => declared.flatMap (·.texts)
  | .foreach iterator _ _ => iterator.texts
  | .try_ _ catches _ => catches.flatMap (·.texts)
  | _ => []

end Foresight
