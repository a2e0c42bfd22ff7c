import Mathlib.Data.Option.Basic
import Mathlib.Logic.Relation
import Foresight.Proofs.Code.Parts
import Foresight.Proofs.Template.Reading

/-!
# Rendering expressions

The renderer descends into operands and into qualifiers, `renderDepth` levels in all, and renders
nothing that is nested too deep. For an expression that is not, this guard makes no difference
(`renderAt_eq_unguarded`). Without it only an incomplete expression has no template, and what has
such an expression among the operands that it requires (`unguarded_eq_none_iff`): a qualifier
without a template is written as it stands.

Whatever the renderer makes, it makes by writing texts of the expression behind each other, with a
hole where a name stands for a variable or an argument is bound to a parameter. So a property that
both keep is one of all templates (`Kept.renderAt`). Holes are made in front, or behind a dot, a
parenthesis or a comma, so they need to keep the property only there (`KeptApart.renderAt`).
-/

namespace Foresight

namespace Expression

/-- The operands that an expression is not rendered without. -/
def Shape.required {ε : Type} : Shape ε → List ε
  | .binary left _ right => [left, right]
  | .is operand _ _ | .as operand _ _ | .cast _ _ operand | .unary _ operand false
  | .parenthesized operand => [operand]
  | _ => []

def Shape.isReference {ε : Type} : Shape ε → Bool
  | .reference .. => true
  | _ => false

/-- The call of something that is no reference, or a creation without a type. -/
def isIncomplete (e : Expression) : Bool :=
  match e.shape with
  | .invocation invoked _ => !invoked.shape.isReference
  | .creation none _ => true
  | _ => false

/-- A part is reached through required operands only. -/
def Requires : (whole part : Expression) → Prop :=
  Relation.ReflTransGen fun whole operand => operand ∈ whole.shape.required

end Expression

namespace Template

open Expression

/-- The number of levels that rendering descends into an expression. -/
def renderDepth : Expression → Nat
  | ⟨_, _, .invocation ⟨_, _, .reference (some qualifier) _ _⟩ _⟩
  | ⟨_, _, .reference (some qualifier) _ _⟩ => renderDepth qualifier + 1
  | ⟨_, _, .binary left _ right⟩ => max (renderDepth left) (renderDepth right) + 1
  | ⟨_, _, .is operand _ _⟩ | ⟨_, _, .as operand _ _⟩ | ⟨_, _, .cast _ _ operand⟩
  | ⟨_, _, .unary _ operand false⟩ | ⟨_, _, .parenthesized operand⟩ => renderDepth operand + 1
  | _ => 0

/-- The template of an expression, however deep it is. -/
def unguarded (subject : String) : Expression → Option Rendered
  | ⟨_, _, .invocation ⟨_, _, .reference (some qualifier) name _⟩ arguments⟩ =>
    let before := (unguarded subject qualifier).getD (.text qualifier.text)
    some (renderCall subject arguments (before.dot.append name))
  | ⟨_, _, .invocation ⟨_, _, .reference none name _⟩ arguments⟩ =>
    some (renderCall subject arguments (.text name))
  | ⟨_, _, .invocation _ _⟩ => none
  | ⟨_, _, .reference (some qualifier) name target⟩ =>
    let before := (unguarded subject qualifier).getD (.text qualifier.text)
    some (renderName subject true name target before.dot)
  | ⟨_, _, .reference none name target⟩ => some (renderName subject false name target (.text ""))
  | ⟨_, _, .binary left operator right⟩ => do
    let l ← unguarded subject left
    let r ← unguarded subject right
    return ⟨l.template ++ " " ++ operator ++ " " ++ r.template, r.fields.absorb l.fields⟩
  | ⟨_, _, .is operand _ written⟩ => (unguarded subject operand).map (·.append (" is " ++ written))
  | ⟨_, _, .as operand _ written⟩ => (unguarded subject operand).map (·.append (" as " ++ written))
  | ⟨_, _, .cast _ written operand⟩ =>
    (unguarded subject operand).map (.surround ("(" ++ written ++ ")") "")
  | ⟨_, _, .unary operator operand false⟩ => (unguarded subject operand).map (.surround operator "")
  | ⟨_, _, .parenthesized inner⟩ => (unguarded subject inner).map (.surround "(" ")")
  | ⟨_, type, .this⟩ => some (renderThis type)
  | ⟨_, _, .creation (some type) arguments⟩ =>
    let created := match type.resolved with
      | some name => name.fullName
      | none => type.written
    some (renderCall subject arguments (.text ("new " ++ created)))
  | ⟨_, _, .creation none _⟩ => none
  | ⟨text, _, _⟩ => some (.text text)

theorem renderDepth_invocation_le (text : String) (type : TypeInfo) (invoked : Expression)
    (arguments : List (Argument Expression)) :
    renderDepth ⟨text, type, .invocation invoked arguments⟩ ≤ renderDepth invoked := by
  obtain ⟨_, _, shape⟩ := invoked
  cases shape with
  | reference qualifier name target => cases qualifier <;> simp [renderDepth]
  | _ => simp [renderDepth]

/-- Rendering goes no more than one level deeper than it does from the operands. -/
theorem renderDepth_le_of_operands {e : Expression} {room : Nat}
    (h : ∀ operand ∈ e.shape.operands, renderDepth operand ≤ room) : renderDepth e ≤ room + 1 := by
  fun_cases renderDepth e with
  | case1 =>
    have hinvoked := h _ List.mem_cons_self
    rw [renderDepth] at hinvoked
    exact Nat.le_succ_of_le hinvoked
  | case3 _ _ left _ right =>
    have hleft := h left List.mem_cons_self
    have hright := h right (List.mem_cons_of_mem _ List.mem_cons_self)
    exact Nat.succ_le_succ (Nat.max_le.mpr ⟨hleft, hright⟩)
  | case2 | case4 | case5 | case6 | case7 | case8 =>
    exact Nat.succ_le_succ (h _ (List.mem_singleton_self _))
  | case9 => exact Nat.zero_le _

/-- The guard admits what is not nested too deep. -/
theorem renderAt_eq_unguarded (subject : String) (e : Expression) (depth : Nat)
    (h : depth + renderDepth e ≤ maxDepth) : renderAt subject e depth = unguarded subject e := by
  fun_induction renderAt subject e depth with
  | case1 depth e hdeep => omega
  | case2 _ _ _ _ _ _ _ _ _ _ _ ih | case5 _ _ _ _ _ _ _ _ ih =>
    rw [renderDepth] at h
    rw [unguarded, ← ih (by omega)]
  | case7 _ _ _ _ left _ right ihLeft ihRight =>
    rw [renderDepth] at h
    rw [unguarded, ← ihLeft (by omega), ← ihRight (by omega)]
  | case8 _ _ _ _ _ _ _ ih | case9 _ _ _ _ _ _ _ ih | case10 _ _ _ _ _ _ _ ih
  | case11 _ _ _ _ _ _ ih | case12 _ _ _ _ _ ih =>
    rw [renderDepth] at h
    rw [unguarded, ← ih (by omega)]
  | case3 | case4 | case6 | case13 | case15 | case16 => simp only [unguarded]
  | case14 =>
    unfold unguarded
    rfl

/-- An incomplete part is required. -/
def Fails (e : Expression) : Prop := ∃ part, e.Requires part ∧ part.isIncomplete = true

section Fails

variable {e : Expression}

theorem fails_of_isIncomplete (h : e.isIncomplete = true) : Fails e := ⟨e, .refl, h⟩

/-- An expression that is complete itself fails with one of the operands that it requires. -/
theorem fails_iff (h : e.isIncomplete = false) :
    Fails e ↔ ∃ operand ∈ e.shape.required, Fails operand := by
  constructor
  · rintro ⟨part, hpart, hincomplete⟩
    rcases Relation.ReflTransGen.cases_head hpart with rfl | ⟨operand, hoperand, hpart⟩
    · exact absurd hincomplete (Bool.eq_false_iff.mp h)
    · exact ⟨operand, hoperand, part, hpart, hincomplete⟩
  · rintro ⟨operand, hoperand, part, hpart, hincomplete⟩
    exact ⟨part, .head hoperand hpart, hincomplete⟩

theorem not_fails (h : e.isIncomplete = false) (hleaf : e.shape.required = []) : ¬ Fails e := by
  simp [fails_iff h, hleaf]

theorem fails_iff_operand {operand : Expression} (h : e.isIncomplete = false)
    (hone : e.shape.required = [operand]) : Fails e ↔ Fails operand := by
  simp [fails_iff h, hone]

end Fails

theorem unguarded_eq_none_iff (subject : String) (e : Expression) :
    unguarded subject e = none ↔ Fails e := by
  fun_induction unguarded subject e with
  | case1 | case2 | case4 | case5 | case12 | case13 =>
    exact iff_of_false (Option.some_ne_none _) (not_fails rfl rfl)
  | case3 _ _ invoked _ hqualified hbare =>
    have hincomplete : (!invoked.shape.isReference) = true := by
      obtain ⟨text, type, shape⟩ := invoked
      cases shape with
      | reference qualifier name target =>
        cases qualifier with
        | none => exact (hbare text type name target rfl).elim
        | some qualifier => exact (hqualified text type qualifier name target rfl).elim
      | _ => rfl
    exact iff_of_true rfl (fails_of_isIncomplete hincomplete)
  | case14 => exact iff_of_true rfl (fails_of_isIncomplete rfl)
  | case6 text type left operator right ihLeft ihRight =>
    have hoperands : Fails ⟨text, type, .binary left operator right⟩ ↔
        Fails left ∨ Fails right := by
      rw [fails_iff rfl]
      simp [Shape.required]
    rw [hoperands, ← ihLeft, ← ihRight]
    cases unguarded subject left <;> cases unguarded subject right <;> simp
  | case7 _ _ _ _ _ ih | case8 _ _ _ _ _ ih | case9 _ _ _ _ _ ih | case10 _ _ _ _ ih
  | case11 _ _ _ ih =>
    exact Option.map_eq_none_iff.trans (ih.trans (fails_iff_operand rfl rfl).symm)
  | case15 text type shape _ _ hinvocation _ _ hbinary his has hcast hunary hparenthesized _ _
      hcreation =>
    refine iff_of_false (Option.some_ne_none _) (not_fails ?_ ?_)
    · unfold isIncomplete
      split
      case h_1 heq => exact (hinvocation _ _ heq).elim
      case h_2 heq => exact (hcreation _ heq).elim
      case h_3 => rfl
    · unfold Shape.required
      split
      case h_1 heq => exact (hbinary _ _ _ heq).elim
      case h_2 heq => exact (his _ _ _ heq).elim
      case h_3 heq => exact (has _ _ _ heq).elim
      case h_4 heq => exact (hcast _ _ _ heq).elim
      case h_5 heq => exact (hunary _ _ heq).elim
      case h_6 heq => exact (hparenthesized _ heq).elim
      case h_7 => rfl

/-! ## What rendering keeps -/

/-- A suggestion that the renderer makes for a hole. -/
inductive Suggests : String → Prop where
  | fill : Suggests ""
  | fresh : Suggests suggestVariableName
  | ofType (type : TypeRef) : Suggests (variableOfType type)

/-- The name of the hole for a variable. -/
def holeName (name : String) (type : TypeInfo) : String :=
  (type.resolved?.map (·.placeholderName)).getD name

/-- The names of the holes that the renderer makes for an expression itself: for the variable that
it stands for, or for what its arguments are bound to. -/
def holeNames (e : Expression) : List String :=
  match e.shape with
  | .reference _ _ (some (.local_ name type)) | .reference _ _ (some (.parameter name type)) =>
    [holeName name type]
  | .this => e.type.resolved?.toList.map (·.placeholderName)
  | .invocation _ arguments | .creation _ arguments => arguments.filterMap (·.parameter)
  | _ => []

/-- The texts of an expression have a property, and the names of its holes have one. -/
structure MadeOf (T N : String → Prop) (e : Expression) : Prop where
  texts : ∀ text ∈ e.texts, T text
  holes : ∀ name ∈ holeNames e, N name

namespace MadeOf

variable {T N : String → Prop} {e : Expression}

theorem text (h : MadeOf T N e) : T e.text := h.texts _ List.mem_cons_self

theorem shape (h : MadeOf T N e) : ∀ text ∈ e.shape.texts, T text := fun text htext =>
  h.texts text (List.mem_cons_of_mem _ (List.mem_append_right _ htext))

theorem name {text name : String} {type : TypeInfo} {qualifier : Option Expression}
    {target : Option Symbol} (h : MadeOf T N ⟨text, type, .reference qualifier name target⟩) :
    T name :=
  h.shape name List.mem_cons_self

theorem created {text : String} {type : TypeInfo} {createdType : CreatedType}
    {arguments : List (Argument Expression)}
    (h : MadeOf T N ⟨text, type, .creation (some createdType) arguments⟩) :
    ∀ t ∈ createdType.texts, T t := fun t ht =>
  h.shape t (List.mem_append_left _
    (List.mem_flatMap.mpr ⟨createdType, List.mem_singleton_self createdType, ht⟩))

end MadeOf

/-- Writing texts with a property keeps a property of templates. -/
structure KeptByText (T : String → Prop) (P : Rendered → Prop) : Prop where
  clear : ∀ {text}, Clear text → T text
  join : ∀ {text more}, T text → T more → T (text ++ more)
  text : ∀ {text}, T text → P (.text text)
  append : ∀ {r more}, P r → T more → P (r.append more)
  surround : ∀ {r before after}, P r → T before → T after → P (r.surround before after)
  operator : ∀ {l r operator}, P l → P r → T operator →
    P ⟨l.template ++ " " ++ operator ++ " " ++ r.template, r.fields.absorb l.fields⟩

/-- So does making holes, with names that have a property. -/
structure Kept (T N : String → Prop) (P : Rendered → Prop) : Prop extends KeptByText T P where
  subject : ∀ {r}, P r → P (r.append variablePlaceholder)
  hole : ∀ {r name suggestion}, P r → N name → Suggests suggestion → P (r.hole name suggestion)

/-- So does making holes where a template is ready for one: it is if there is nothing in it, or a
dot, a parenthesis or a comma at its end. -/
structure KeptApart (T N : String → Prop) (P Ready : Rendered → Prop) : Prop
    extends KeptByText T P where
  kept : ∀ {r}, Ready r → P r
  empty : ∀ {r}, P r → r.template.isEmpty = true → Ready r
  parted : ∀ {r mark}, P r → mark ∈ [".", "(", ", "] → Ready (r.append mark)
  subject : ∀ {r}, Ready r → P (r.append variablePlaceholder)
  hole : ∀ {r name suggestion}, Ready r → N name → Suggests suggestion →
    P (r.hole name suggestion)

/-- What is there is the one thing that is given. -/
theorem of_mem_some {α : Type} {P : α → Prop} {a : α} (h : P a) : ∀ b ∈ some a, P b :=
  fun _ hb => Option.some.inj hb ▸ h

namespace KeptByText

variable {T : String → Prop} {P : Rendered → Prop} (h : KeptByText T P)

include h

theorem fullName {q : QualifiedName} (hq : ∀ text ∈ q.texts, T text) : T q.fullName := by
  have hnamespace : T q.namespace_ := hq _ List.mem_cons_self
  have hname : T q.name := hq _ (List.mem_cons_of_mem _ List.mem_cons_self)
  unfold QualifiedName.fullName
  split
  · exact hname
  · exact h.join (h.join hnamespace (h.clear (by decide))) hname

theorem getD {r? : Option Rendered} (hr : ∀ r ∈ r?, P r) {text : String} (htext : T text) :
    P (r?.getD (.text text)) := by
  cases r? with
  | none => exact h.text htext
  | some r => exact hr r rfl

/-- What the type of a creation is written as. -/
theorem created {type : CreatedType} (htype : ∀ text ∈ type.texts, T text) :
    T (match type.resolved with
      | some name => name.fullName
      | none => type.written) := by
  split
  · rename_i name hresolved
    refine h.fullName fun text htext => htype text (List.mem_cons_of_mem _ ?_)
    rw [hresolved]
    exact List.mem_flatMap.mpr ⟨name, List.mem_singleton_self name, htext⟩
  · exact htype _ List.mem_cons_self

end KeptByText

namespace KeptApart

variable {T N : String → Prop} {P Ready : Rendered → Prop} (h : KeptApart T N P Ready)
  {r : Rendered}

include h

theorem nothing : Ready (.text "") := h.empty (h.text (h.clear (by decide))) rfl

theorem dot (hr : P r) : Ready r.dot := by
  unfold Rendered.dot
  split
  · rename_i hempty
    exact h.empty hr hempty
  · exact h.parted hr List.mem_cons_self

theorem variableHole (hr : Ready r) {name : String} {type : TypeInfo}
    (hname : N (holeName name type)) : P (variableHole r name type) := by
  unfold Template.variableHole
  cases type with
  | resolved type => exact h.hole hr hname (.ofType type)
  | unknown | unresolved => exact h.hole hr hname .fresh

theorem renderArgument (hr : Ready r) (subject : String) {parameter : String}
    (hparameter : N parameter) (text : String) : P (renderArgument subject r parameter text) := by
  unfold Template.renderArgument
  split
  · exact h.subject hr
  · exact h.hole hr hparameter .fill

theorem renderArguments (subject : String) {arguments : List (String × String)}
    (harguments : ∀ a ∈ arguments, N a.1) :
    ∀ {r : Rendered}, Ready r → P (renderArguments subject arguments r) := by
  intro r
  fun_induction Template.renderArguments subject arguments r with
  | case1 => exact h.kept
  | case2 => exact fun hr => h.renderArgument hr subject (harguments _ List.mem_cons_self) _
  | case3 _ _ _ _ _ ih =>
    obtain ⟨hparameter, hrest⟩ := List.forall_mem_cons.mp harguments
    exact fun hr => ih hrest
      (h.parted (h.renderArgument hr subject hparameter _) (by decide))

theorem renderCall (hr : P r) (subject : String) {arguments : List (Argument Expression)}
    (harguments : ∀ name ∈ arguments.filterMap (·.parameter), N name) :
    P (renderCall subject arguments r) := by
  have hbound : ∀ a ∈ boundArguments arguments, N a.1 := by
    intro a ha
    obtain ⟨argument, hargument, ha⟩ := List.mem_filterMap.mp ha
    obtain ⟨parameter, hparameter, rfl⟩ := Option.map_eq_some_iff.mp ha
    exact harguments parameter (List.mem_filterMap.mpr ⟨argument, hargument, hparameter⟩)
  have hopened : Ready (r.append "(") := h.parted hr (by decide)
  exact h.append (h.renderArguments subject hbound hopened) (h.clear (by decide))

theorem renderThis {e : Expression} (hshape : e.shape = .this) (he : MadeOf T N e) :
    P (renderThis e.type) := by
  have hholes := he.holes
  unfold holeNames at hholes
  rw [hshape] at hholes
  unfold Template.renderThis
  cases htype : e.type with
  | resolved type =>
    rw [htype] at hholes
    exact h.hole h.nothing (hholes _ List.mem_cons_self) (.ofType type)
  | unknown | unresolved => exact h.text (h.clear (by decide))

theorem renderName (hr : Ready r) (subject : String) {text name : String} {type : TypeInfo}
    {qualifier : Option Expression} {target : Option Symbol}
    (he : MadeOf T N ⟨text, type, .reference qualifier name target⟩) (isQualified : Bool) :
    P (renderName subject isQualified name target r) := by
  have hholes := he.holes
  unfold Template.renderName
  extract_lets identifier
  have hidentifier : T identifier := by
    unfold identifier
    split
    · exact h.fullName fun t ht => he.shape t (List.mem_cons_of_mem _
        (List.mem_flatMap.mpr ⟨_, List.mem_singleton_self _, ht⟩))
    · exact he.name
  split
  · exact h.subject hr
  · split
    · exact h.variableHole hr (hholes _ List.mem_cons_self)
    · exact h.variableHole hr (hholes _ List.mem_cons_self)
    · exact h.append (h.kept hr) hidentifier

/-- Whatever an expression is rendered as has the property, if it is made of what keeps it. -/
theorem renderAt (subject : String) (e : Expression) (depth : Nat)
    (he : e.AllWithin (MadeOf T N)) : ∀ r ∈ renderAt subject e depth, P r := by
  fun_induction Template.renderAt subject e depth with
  | case1 => exact fun _ h => nomatch h
  | case2 _ _ _ _ _ _ qualifier name _ arguments before ih =>
    have hinvoked := he.operand List.mem_cons_self
    have hqualifier := hinvoked.operand (List.mem_singleton_self qualifier)
    have hbefore := h.getD (ih hqualifier) hqualifier.self.text
    exact of_mem_some
      (h.renderCall (h.append (h.kept (h.dot hbefore)) hinvoked.self.name) subject he.self.holes)
  | case3 _ _ _ _ _ _ name _ arguments =>
    have hinvoked := he.operand List.mem_cons_self
    exact of_mem_some
      (h.renderCall (h.text hinvoked.self.name) subject he.self.holes)
  | case4 => exact fun _ h => nomatch h
  | case5 _ _ _ _ qualifier name target before ih =>
    have hqualifier := he.operand (List.mem_singleton_self qualifier)
    have hbefore := h.getD (ih hqualifier) hqualifier.self.text
    exact of_mem_some (h.renderName (h.dot hbefore) subject he.self true)
  | case6 =>
    exact of_mem_some (h.renderName h.nothing subject he.self false)
  | case7 _ _ _ _ left operator right ihLeft ihRight =>
    intro r hr
    obtain ⟨l, hl, hr⟩ := Option.bind_eq_some_iff.mp hr
    obtain ⟨r', hr', hr⟩ := Option.bind_eq_some_iff.mp hr
    cases hr
    exact h.operator (ihLeft (he.operand List.mem_cons_self) l hl)
      (ihRight (he.operand (List.mem_cons_of_mem _ List.mem_cons_self)) r' hr')
      (he.self.shape _ List.mem_cons_self)
  | case8 _ _ _ _ operand _ written ih | case9 _ _ _ _ operand _ written ih =>
    have hwritten : T written := he.self.shape _ List.mem_cons_self
    have hrendered := ih (he.operand (List.mem_singleton_self operand))
    exact Option.forall_mem_map.mpr fun r hr =>
      h.append (hrendered r hr) (h.join (h.clear (by decide)) hwritten)
  | case10 _ _ _ _ _ written operand ih =>
    have hwritten : T written := he.self.shape _ List.mem_cons_self
    have hbefore : T ("(" ++ written ++ ")") :=
      h.join (h.join (h.clear (by decide)) hwritten) (h.clear (by decide))
    have hrendered := ih (he.operand (List.mem_singleton_self operand))
    exact Option.forall_mem_map.mpr fun r hr =>
      h.surround (hrendered r hr) hbefore (h.clear (by decide))
  | case11 _ _ _ _ operator operand ih =>
    have hoperator : T operator := he.self.shape _ List.mem_cons_self
    have hrendered := ih (he.operand (List.mem_singleton_self operand))
    exact Option.forall_mem_map.mpr fun r hr =>
      h.surround (hrendered r hr) hoperator (h.clear (by decide))
  | case12 _ _ _ _ inner ih =>
    have hrendered := ih (he.operand (List.mem_singleton_self inner))
    exact Option.forall_mem_map.mpr fun r hr =>
      h.surround (hrendered r hr) (h.clear (by decide)) (h.clear (by decide))
  | case13 => exact of_mem_some (h.renderThis rfl he.self)
  | case14 _ _ _ _ type arguments created =>
    have hcreated : T created := h.created he.self.created
    exact of_mem_some
      (h.renderCall (h.text (h.join (h.clear (by decide)) hcreated)) subject he.self.holes)
  | case15 => exact fun _ h => nomatch h
  | case16 => exact of_mem_some (h.text he.self.text)

end KeptApart

namespace Kept

variable {T N : String → Prop} {P : Rendered → Prop} (h : Kept T N P)

include h

/-- What any hole keeps is kept by those that are made where a template is ready. -/
theorem apart : KeptApart T N P P where
  toKeptByText := h.toKeptByText
  kept := id
  empty hr _ := hr
  parted hr hmark := h.append hr (h.clear
    ((by decide : ∀ mark ∈ [".", "(", ", "], Clear mark) _ hmark))
  subject := h.subject
  hole := h.hole

theorem renderAt (subject : String) (e : Expression) (depth : Nat)
    (he : e.AllWithin (MadeOf T N)) : ∀ r ∈ Template.renderAt subject e depth, P r :=
  h.apart.renderAt subject e depth he

end Kept

end Template

end Foresight
