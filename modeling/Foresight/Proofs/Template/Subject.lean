import Foresight.Proofs.Template.Placeholders

/-!
# Where the subject stands

The renderer writes the subject's placeholder wherever an identifier or an argument is spelled like
the subject. It looks for that in the expression and in the operands that it is rendered from, the
qualifier of what it names or calls among them; in a qualifier that has no template it does not
look, as it writes that out. A part of the expression is rendered if it is reached so (`Renders`).

A template shows the subject exactly if a part that is rendered names it, or if a field happens to
be called like its placeholder (`shows_render`). Where there is no subject, an empty text stands for
it, and what names the empty text is nameless.
-/

namespace Foresight

namespace Expression

/-- The qualifier of what an expression refers to or calls. -/
def qualifier? (e : Expression) : Option Expression :=
  match e.shape with
  | .reference qualifier _ _ | .invocation ⟨_, _, .reference qualifier _ _⟩ _ => qualifier
  | _ => none

/-- The operands that an expression is rendered from. -/
def rendered (e : Expression) : List Expression := e.shape.required ++ e.qualifier?.toList

/-- What a reference is spelled like for the renderer; a type on its own has its full name. -/
def identifier (isQualified : Bool) (name : String) (target : Option Symbol) : String :=
  match isQualified, target with
  | false, some (.type type) => type.fullName
  | _, _ => name

/-- An expression refers to the subject, or hands it over for a parameter. -/
def NamesSubject (subject : String) (e : Expression) : Prop :=
  match e.shape with
  | .reference qualifier name target => identifier qualifier.isSome name target = subject
  | .invocation _ arguments | .creation _ arguments =>
    ∃ a ∈ arguments, a.parameter.isSome = true ∧ a.value.text = subject
  | _ => False

/-- A reference without an identifier, or an argument without a text. -/
abbrev Nameless : Expression → Prop := NamesSubject ""

end Expression

namespace Template

open Expression

/-- A part with a property is rendered with an expression: it is the expression itself, or is
rendered with an operand. -/
inductive Renders (Q : Expression → Prop) : Expression → Prop where
  | self {e : Expression} (h : ¬ Fails e) (hself : Q e) : Renders Q e
  | operand {e operand : Expression} (h : ¬ Fails e) (hmem : operand ∈ e.rendered)
      (hoperand : Renders Q operand) : Renders Q e

section Renders

variable {Q : Expression → Prop} {e operand : Expression}

/-- With an expression that has no template, nothing is rendered. -/
theorem Renders.not_fails (h : Renders Q e) : ¬ Fails e := by
  cases h <;> assumption

theorem renders_iff (h : ¬ Fails e) :
    Renders Q e ↔ Q e ∨ ∃ operand ∈ e.rendered, Renders Q operand := by
  constructor
  · intro hrenders
    cases hrenders with
    | self _ hself => exact Or.inl hself
    | operand _ hmem hoperand => exact Or.inr ⟨_, hmem, hoperand⟩
  · rintro (hself | ⟨operand, hmem, hoperand⟩)
    · exact .self h hself
    · exact .operand h hmem hoperand

end Renders

/-! ## Templates that show the subject -/

/-- A template without stray marks has the subject's placeholder exactly if the subject is named, or
if a field is called like the placeholder. -/
def Rendered.Shows (r : Rendered) (named : Prop) : Prop :=
  ∃ names, Reads r.template names ∧
    (Scope.variableName ∈ names ↔ named ∨ Scope.variableName ∈ r.fields.names)

/-- Text without placeholders but the caret's. -/
theorem shows_text {text : String} {names : List String} (h : Reads text names)
    (hnames : Scope.variableName ∉ names) : (Rendered.text text).Shows False :=
  ⟨names, h, by simp [hnames, Rendered.text, Table.names, Table.empty]⟩

theorem shows_clear {text : String} (h : Clear text) : (Rendered.text text).Shows False :=
  shows_text (.text h) List.not_mem_nil

namespace Rendered.Shows

variable {r : Rendered} {named named' : Prop}

theorem congr (h : r.Shows named) (heq : named ↔ named') : r.Shows named' := propext heq ▸ h

theorem concat {template more : String} {fields others all : Fields}
    (h : Shows ⟨template, fields⟩ named) (h' : Shows ⟨more, others⟩ named')
    (hall : ∀ name, name ∈ all.names ↔ name ∈ fields.names ∨ name ∈ others.names) :
    Shows ⟨template ++ more, all⟩ (named ∨ named') := by
  obtain ⟨names, hreads, hnames⟩ := h
  obtain ⟨names', hreads', hnames'⟩ := h'
  refine ⟨names ++ names', hreads.append hreads', ?_⟩
  rw [List.mem_append, hnames, hnames', hall]
  exact or_or_or_comm

theorem append (h : r.Shows named) {more : String} (hmore : (Rendered.text more).Shows named') :
    (r.append more).Shows (named ∨ named') :=
  h.concat hmore fun _ => (or_iff_left List.not_mem_nil).symm

theorem append_clear (h : r.Shows named) {more : String} (hmore : Clear more) :
    (r.append more).Shows named :=
  (h.append (shows_clear hmore)).congr (or_iff_left not_false)

theorem surround (h : r.Shows named) {before after : String}
    (hbefore : (Rendered.text before).Shows False) (hafter : (Rendered.text after).Shows False) :
    (r.surround before after).Shows named := by
  have hfront := hbefore.concat h fun _ => (or_iff_right List.not_mem_nil).symm
  exact (hfront.append hafter).congr ((or_iff_left not_false).trans (or_iff_right not_false))

theorem subject (h : r.Shows named) : (r.append variablePlaceholder).Shows True := by
  obtain ⟨names, hreads, -⟩ := h
  exact ⟨names ++ [Scope.variableName], hreads.append reads_variablePlaceholder, by simp⟩

theorem hole (h : r.Shows named) {name : String} (hname : Template.Clear name)
    (suggestion : String) : (r.hole name suggestion).Shows named := by
  obtain ⟨names, hreads, hnames⟩ := h
  refine ⟨names ++ [name], hreads.append (.placeholder name hname), ?_⟩
  rw [List.mem_append, List.mem_singleton, hnames, or_assoc, Rendered.hole,
    Table.mem_names_insert, or_comm (a := Scope.variableName = name)]

theorem dot (h : r.Shows named) : r.dot.Shows named := by
  unfold Rendered.dot
  split
  · exact h
  · exact h.append_clear (by decide)

theorem operator {l r : Rendered} {named named' : Prop} (hl : l.Shows named) (hr : r.Shows named')
    {operator : String} (hoperator : Template.Clear operator) :
    Shows ⟨l.template ++ " " ++ operator ++ " " ++ r.template, r.fields.absorb l.fields⟩
      (named ∨ named') := by
  have hbefore := ((hl.append_clear (by decide : Clear " ")).append_clear hoperator).append_clear
    (by decide : Clear " ")
  exact hbefore.concat hr fun name => (Table.mem_names_absorb ..).trans or_comm

end Rendered.Shows

/-! ## Rendering -/

section Rules

variable (subject : String) {r : Rendered} {named : Prop}

theorem shows_variableHole (h : r.Shows named) {name : String} {type : TypeInfo}
    (hname : Clear (holeName name type)) : (variableHole r name type).Shows named := by
  unfold variableHole
  cases type with
  | resolved type => exact h.hole hname _
  | unknown | unresolved => exact h.hole hname _

theorem shows_renderArgument (h : r.Shows named) {parameter : String} (text : String)
    (hparameter : Clear parameter) :
    (renderArgument subject r parameter text).Shows (named ∨ text = subject) := by
  unfold renderArgument
  split
  · rename_i heq
    exact h.subject.congr (iff_of_true trivial (Or.inr heq))
  · rename_i hne
    exact (h.hole hparameter "").congr (or_iff_left hne).symm

theorem shows_renderArguments {arguments : List (String × String)}
    (harguments : ∀ a ∈ arguments, Clear a.1) {r : Rendered} {named : Prop} (h : r.Shows named) :
    (renderArguments subject arguments r).Shows (named ∨ ∃ a ∈ arguments, a.2 = subject) := by
  fun_induction renderArguments subject arguments r generalizing named with
  | case1 => exact h.congr (by simp)
  | case2 parameter text r =>
    exact (shows_renderArgument subject h text (harguments _ List.mem_cons_self)).congr (by simp)
  | case3 parameter text rest r _ ih =>
    obtain ⟨hparameter, hrest⟩ := List.forall_mem_cons.mp harguments
    have hfirst := (shows_renderArgument subject h text hparameter).append_clear
      (by decide : Clear ", ")
    exact (ih hrest hfirst).congr (by simp [or_assoc])

theorem exists_mem_boundArguments {arguments : List (Argument Expression)} :
    (∃ a ∈ boundArguments arguments, a.2 = subject) ↔
      ∃ a ∈ arguments, a.parameter.isSome = true ∧ a.value.text = subject := by
  constructor
  · rintro ⟨bound, hbound, htext⟩
    obtain ⟨a, ha, hbound⟩ := List.mem_filterMap.mp hbound
    obtain ⟨parameter, hparameter, rfl⟩ := Option.map_eq_some_iff.mp hbound
    exact ⟨a, ha, Option.isSome_of_eq_some hparameter, htext⟩
  · rintro ⟨a, ha, hbound, htext⟩
    obtain ⟨parameter, hparameter⟩ := Option.isSome_iff_exists.mp hbound
    exact ⟨(parameter, a.value.text), List.mem_filterMap.mpr ⟨a, ha, by rw [hparameter]; rfl⟩,
      htext⟩

theorem shows_renderCall (h : r.Shows named) {arguments : List (Argument Expression)}
    (harguments : ∀ name ∈ arguments.filterMap (·.parameter), Clear name) :
    (renderCall subject arguments r).Shows
      (named ∨ ∃ a ∈ arguments, a.parameter.isSome = true ∧ a.value.text = subject) := by
  have hbound : ∀ a ∈ boundArguments arguments, Clear a.1 := by
    intro a ha
    obtain ⟨argument, hargument, ha⟩ := List.mem_filterMap.mp ha
    obtain ⟨parameter, hparameter, rfl⟩ := Option.map_eq_some_iff.mp ha
    exact harguments parameter (List.mem_filterMap.mpr ⟨argument, hargument, hparameter⟩)
  have hopened := h.append_clear (by decide : Clear "(")
  have hwritten := shows_renderArguments subject hbound hopened
  exact (hwritten.congr (or_congr_right (exists_mem_boundArguments subject))).append_clear
    (by decide)

theorem renderName_eq (isQualified : Bool) (name : String)
    (target : Option Symbol) (r : Rendered) : renderName subject isQualified name target r =
      if identifier isQualified name target = subject then r.append variablePlaceholder
      else match target with
        | some (.local_ name type) | some (.parameter name type) => variableHole r name type
        | _ => r.append (identifier isQualified name target) := rfl

theorem shows_renderName (h : r.Shows named) {text name : String} {type : TypeInfo}
    {qualifier : Option Expression} {target : Option Symbol}
    (he : MadeOf Clear Clear ⟨text, type, .reference qualifier name target⟩) (isQualified : Bool) :
    (renderName subject isQualified name target r).Shows
      (named ∨ identifier isQualified name target = subject) := by
  have hholes := he.holes
  have hidentifier : Clear (identifier isQualified name target) := by
    unfold identifier
    split
    · exact kept_matched.fullName fun t ht => he.shape t (List.mem_cons_of_mem _
        (List.mem_flatMap.mpr ⟨_, List.mem_singleton_self _, ht⟩))
    · exact he.name
  rw [renderName_eq]
  split
  · rename_i hnamed
    exact h.subject.congr (iff_of_true trivial (Or.inr hnamed))
  · rename_i hnamed
    refine Rendered.Shows.congr ?_ (or_iff_left hnamed).symm
    split
    · exact shows_variableHole h (hholes _ List.mem_cons_self)
    · exact shows_variableHole h (hholes _ List.mem_cons_self)
    · exact h.append_clear hidentifier

theorem shows_renderThis {e : Expression} (hshape : e.shape = .this) (he : MadeOf Clear Clear e) :
    (renderThis e.type).Shows False := by
  have hholes := he.holes
  unfold holeNames at hholes
  rw [hshape] at hholes
  unfold renderThis
  cases htype : e.type with
  | resolved type =>
    rw [htype] at hholes
    exact (shows_clear (by decide)).hole (hholes _ List.mem_cons_self) _
  | unknown | unresolved => exact shows_clear (by decide)

end Rules

/-- What a qualifier is written as, rendered or as it stands. -/
theorem shows_qualifier {Q : Expression → Prop} {subject : String} {qualifier : Expression}
    (htext : Clear qualifier.text)
    (h : ∀ r ∈ unguarded subject qualifier, r.Shows (Renders Q qualifier)) :
    ((unguarded subject qualifier).getD (.text qualifier.text)).Shows (Renders Q qualifier) := by
  cases hr : unguarded subject qualifier with
  | none =>
    have hfails : Fails qualifier := (unguarded_eq_none_iff subject qualifier).mp hr
    exact (shows_clear htext).congr (iff_of_false not_false fun h => h.not_fails hfails)
  | some r => exact h r hr

section Operands

variable {Q : Expression → Prop} {e operand : Expression} {r : Rendered}

/-- An expression without operands to render shows what it names itself. -/
theorem shows_of_leaf (h : r.Shows (Q e)) (hfails : ¬ Fails e) (hnone : e.rendered = []) :
    r.Shows (Renders Q e) :=
  h.congr (by simp [renders_iff hfails, hnone])

theorem shows_of_operand (h : r.Shows (Renders Q operand ∨ Q e)) (hfails : ¬ Fails e)
    (hone : e.rendered = [operand]) : r.Shows (Renders Q e) :=
  h.congr (by simp [renders_iff hfails, hone, or_comm])

/-- An expression that is put around an operand shows what is named in that. -/
theorem shows_around (h : r.Shows (Renders Q operand)) (hrequired : e.shape.required = [operand])
    (hcomplete : e.isIncomplete = false) (hqualifier : e.qualifier? = none) (hself : ¬ Q e) :
    r.Shows (Renders Q e) := by
  by_cases hfails : Fails operand
  · refine h.congr (iff_of_false (fun h => h.not_fails hfails) fun h => h.not_fails ?_)
    exact (fails_iff_operand hcomplete hrequired).mpr hfails
  · refine shows_of_operand (h.congr (or_iff_left hself).symm) ?_ ?_
    · exact fun h => hfails ((fails_iff_operand hcomplete hrequired).mp h)
    · rw [rendered, hrequired, hqualifier]
      rfl

end Operands

/-- A template shows the subject exactly if a part that is rendered names it. -/
theorem shows_unguarded (subject : String) (e : Expression)
    (he : e.AllWithin (MadeOf Clear Clear)) :
    ∀ r ∈ unguarded subject e, r.Shows (Renders (NamesSubject subject) e) := by
  fun_induction unguarded subject e with
  | case1 text type _ _ qualifier name target arguments before ih =>
    have hinvoked := he.operand List.mem_cons_self
    have hqualifier := hinvoked.operand (List.mem_singleton_self qualifier)
    have hbefore := (shows_qualifier hqualifier.self.text (ih hqualifier)).dot.append_clear
      hinvoked.self.name
    exact of_mem_some (shows_of_operand (shows_renderCall subject hbefore he.self.holes)
      (not_fails rfl rfl) rfl)
  | case2 _ _ _ _ name _ arguments =>
    have hname := shows_clear (he.operand List.mem_cons_self).self.name
    have hcall := (shows_renderCall subject hname he.self.holes).congr (or_iff_right not_false)
    exact of_mem_some (shows_of_leaf hcall (not_fails rfl rfl) rfl)
  | case3 => exact fun _ h => absurd h (Option.not_mem_none _)
  | case4 _ _ qualifier name target before ih =>
    have hqualifier := he.operand (List.mem_singleton_self qualifier)
    have hbefore := (shows_qualifier hqualifier.self.text (ih hqualifier)).dot
    exact of_mem_some (shows_of_operand (shows_renderName subject hbefore he.self true)
      (not_fails rfl rfl) rfl)
  | case5 _ _ name target =>
    have hempty := shows_clear (by decide : Clear "")
    have hname := (shows_renderName subject hempty he.self false).congr (or_iff_right not_false)
    exact of_mem_some (shows_of_leaf hname (not_fails rfl rfl) rfl)
  | case6 text type left operator right ihLeft ihRight =>
    intro r hr
    obtain ⟨l, hl, hr⟩ := Option.bind_eq_some_iff.mp hr
    obtain ⟨r', hr', hr⟩ := Option.bind_eq_some_iff.mp hr
    cases hr
    have hleft := ihLeft (he.operand List.mem_cons_self) l hl
    have hright := ihRight (he.operand (List.mem_cons_of_mem _ List.mem_cons_self)) r' hr'
    have hfails : ¬ Fails ⟨text, type, .binary left operator right⟩ := by
      rw [← unguarded_eq_none_iff subject, unguarded, hl, hr']
      exact Option.some_ne_none _
    refine (hleft.operator hright (he.self.shape _ List.mem_cons_self)).congr ?_
    rw [renders_iff hfails]
    simp [rendered, Shape.required, qualifier?, NamesSubject]
  | case7 _ _ operand _ written ih | case8 _ _ operand _ written ih =>
    have hrendered := ih (he.operand (List.mem_singleton_self operand))
    have hwritten : Clear written := he.self.shape _ List.mem_cons_self
    refine Option.forall_mem_map.mpr fun r hr => ?_
    exact shows_around ((hrendered r hr).append_clear (clear_append.mpr ⟨by decide, hwritten⟩))
      rfl rfl rfl not_false
  | case9 _ _ _ written operand ih =>
    have hrendered := ih (he.operand (List.mem_singleton_self operand))
    have hwritten : Clear written := he.self.shape _ List.mem_cons_self
    have hbefore : Clear ("(" ++ written ++ ")") :=
      clear_append.mpr ⟨clear_append.mpr ⟨by decide, hwritten⟩, by decide⟩
    refine Option.forall_mem_map.mpr fun r hr => ?_
    exact shows_around ((hrendered r hr).surround (shows_clear hbefore) (shows_clear (by decide)))
      rfl rfl rfl not_false
  | case10 _ _ operator operand ih =>
    have hrendered := ih (he.operand (List.mem_singleton_self operand))
    have hoperator : Clear operator := he.self.shape _ List.mem_cons_self
    refine Option.forall_mem_map.mpr fun r hr => ?_
    exact shows_around ((hrendered r hr).surround (shows_clear hoperator) (shows_clear (by decide)))
      rfl rfl rfl not_false
  | case11 _ _ inner ih =>
    have hrendered := ih (he.operand (List.mem_singleton_self inner))
    refine Option.forall_mem_map.mpr fun r hr => ?_
    exact shows_around ((hrendered r hr).surround (shows_clear (by decide))
      (shows_clear (by decide))) rfl rfl rfl not_false
  | case12 =>
    exact of_mem_some (shows_of_leaf (shows_renderThis rfl he.self) (not_fails rfl rfl) rfl)
  | case13 _ _ type arguments created =>
    have hcreated : Clear created := kept_matched.created he.self.created
    have hnew := shows_clear (clear_append.mpr ⟨(by decide : Clear "new "), hcreated⟩)
    have hcall := (shows_renderCall subject hnew he.self.holes).congr (or_iff_right not_false)
    exact of_mem_some (shows_of_leaf hcall (not_fails rfl rfl) rfl)
  | case14 => exact fun _ h => absurd h (Option.not_mem_none _)
  | case15 text type shape _ _ hinvocation hqualified hbare hbinary his has hcast hunary
      hparenthesized hthis hcreate hcreation =>
    -- What is left has no operands that are rendered, and nothing in it is compared.
    have hleaf : ¬ Fails ⟨text, type, shape⟩ ∧ rendered ⟨text, type, shape⟩ = [] ∧
        ¬ NamesSubject subject ⟨text, type, shape⟩ := by
      cases shape with
      | literal | other | assignment => exact ⟨not_fails rfl rfl, rfl, not_false⟩
      | unary operator operand isPostfix =>
        cases isPostfix with
        | true => exact ⟨not_fails rfl rfl, rfl, not_false⟩
        | false => exact (hunary _ _ rfl).elim
      | reference qualifier name target =>
        cases qualifier with
        | some qualifier => exact (hqualified _ _ _ rfl).elim
        | none => exact (hbare _ _ rfl).elim
      | creation type arguments =>
        cases type with
        | some type => exact (hcreate _ _ rfl).elim
        | none => exact (hcreation _ rfl).elim
      | invocation => exact (hinvocation _ _ rfl).elim
      | binary => exact (hbinary _ _ _ rfl).elim
      | is => exact (his _ _ _ rfl).elim
      | as => exact (has _ _ _ rfl).elim
      | cast => exact (hcast _ _ _ rfl).elim
      | parenthesized => exact (hparenthesized _ rfl).elim
      | this => exact (hthis rfl).elim
    obtain ⟨hfails, hnone, hself⟩ := hleaf
    have htext := (shows_clear he.self.text).congr (iff_of_false not_false hself)
    exact of_mem_some (shows_of_leaf htext hfails hnone)

theorem render_eq_unguarded {e : Expression} (h : renderDepth e ≤ maxDepth) (parameters : Fields) :
    render e parameters = unguarded (subjectOf parameters) e :=
  renderAt_eq_unguarded _ e 0 (by rwa [Nat.zero_add])

theorem shows_render {e : Expression} (h : ClearWithin e) (hdepth : renderDepth e ≤ maxDepth)
    (parameters : Fields) :
    ∀ r ∈ render e parameters, r.Shows (Renders (NamesSubject (subjectOf parameters)) e) := by
  rw [render_eq_unguarded hdepth]
  exact shows_unguarded _ e (h.mono fun _ htexts => ⟨htexts, clear_of_mem_holeNames htexts⟩)

end Template

/-! ## Statements without a subject -/

namespace Builder

open Expression Template

section Statements

variable {parameters : Fields} (hsubject : Scope.subject? parameters = none)

include hsubject

theorem subjectOf_eq_empty : subjectOf parameters = "" := by
  rw [subjectOf, hsubject, Option.getD_none]

theorem replaceSubject_eq (text : String) : replaceSubject text parameters = text := by
  rw [replaceSubject, hsubject]

theorem shows_render_nameless {e : Expression} (h : ClearWithin e)
    (hdepth : renderDepth e ≤ maxDepth) :
    ∀ r ∈ render e parameters, r.Shows (Renders Nameless e) := by
  have hrender := shows_render h hdepth parameters
  rwa [subjectOf_eq_empty hsubject] at hrender

/-- What is written in place of an expression without a template shows no subject. -/
theorem shows_replaced {e : Expression} {text : String} (htext : Clear text)
    (hdepth : renderDepth e ≤ maxDepth) (hnone : render e parameters = none) :
    (Rendered.text (replaceSubject text parameters)).Shows (Renders Nameless e) := by
  rw [render_eq_unguarded hdepth, unguarded_eq_none_iff] at hnone
  rw [replaceSubject_eq hsubject]
  exact (shows_clear htext).congr (iff_of_false not_false fun h => h.not_fails hnone)

theorem shows_renderOrReplace {e : Expression} (h : ClearWithin e)
    (hdepth : renderDepth e ≤ maxDepth) :
    (renderOrReplace e parameters).Shows (Renders Nameless e) := by
  unfold renderOrReplace
  cases hr : render e parameters with
  | some r => exact shows_render_nameless hsubject h hdepth r hr
  | none => exact shows_replaced hsubject (h.self _ List.mem_cons_self) hdepth hr

omit hsubject in
/-- A variable is declared in front of what was rendered. -/
theorem shows_behind {r : Rendered} {named : Prop} (h : r.Shows named)
    {before name between after : String} {more : List String} (hbefore : Clear before)
    (hname : Clear name) (hbetween : Clear between) (hafter : Reads after more)
    (hmore : Scope.variableName ∉ more) (suggestion : String) :
    Rendered.Shows ⟨before ++ placeholder name ++ between ++ r.template ++ after,
      r.fields.insert name suggestion⟩ named := by
  obtain ⟨names, hreads, hnames⟩ := h
  refine ⟨_, hreads.behind hbefore hname hbetween hafter, ?_⟩
  rw [List.mem_cons, List.mem_append, or_iff_left hmore, hnames, Table.mem_names_insert]
  exact or_left_comm

theorem shows_declarationTemplate? {text : String} {declared : List Variable}
    (h : (StatementKind.declaration declared).Clear text)
    (hdepth : ∀ e ∈ (StatementKind.declaration declared).expressions, renderDepth e ≤ maxDepth) :
    ∀ r ∈ declarationTemplate? text parameters declared,
      r.Shows (∃ e ∈ (StatementKind.declaration declared).expressions, Renders Nameless e) := by
  intro r hr
  obtain ⟨v, value, rfl, hvalue, hcases⟩ := declarationTemplate?_cases parameters hr
  have hmem := mem_expressions_declaration hvalue
  have hvalues : (StatementKind.declaration [v]).expressions = [value] := by
    simp [StatementKind.expressions, hvalue]
  have hshows : r.Shows (Renders Nameless value) := by
    rcases hcases with ⟨hnone, rfl⟩ | ⟨rendered, type, hrendered, htype, rfl⟩
    · exact shows_replaced hsubject h.source (hdepth value hmem) hnone
    · have hvalue := shows_render_nameless hsubject (h.expressions value hmem) (hdepth value hmem)
      exact shows_behind (hvalue rendered hrendered) (clear_declared h htype) (by decide)
        (by decide) (.text (by decide)) List.not_mem_nil _
  exact hshows.congr (by simp [hvalues])

theorem shows_foreachTemplate? {text : String} {iterator : Iterator} {collection : Expression}
    {body : Option StatementId} (h : (StatementKind.foreach iterator collection body).Clear text)
    (hdepth : renderDepth collection ≤ maxDepth) :
    ∀ r ∈ foreachTemplate? iterator collection parameters,
      r.Shows (Renders Nameless collection) := by
  intro r hr
  rw [foreachTemplate?_eq] at hr
  obtain ⟨type, htype, rfl⟩ := Option.map_eq_some_iff.mp hr
  have hrendered := shows_renderOrReplace hsubject
    (h.expressions collection (List.mem_singleton_self collection)) hdepth
  exact shows_behind hrendered (clear_iterated h htype) (by decide) (by decide)
    (reads_block (by decide) (by decide)) (by decide) _

omit hsubject in
/-- A text with the caret in it. -/
theorem shows_block {before after : String} (hbefore : Clear before) (hafter : Clear after) :
    (Rendered.text (before ++ endMarker ++ after)).Shows False :=
  shows_text (reads_block hbefore hafter) (by decide)

/-- Under a scope without a subject, the template of a statement shows one exactly if a part of its
expressions that is rendered is nameless. -/
theorem shows_template? (b : Builder) {kind : StatementKind} {text : String} (h : kind.Clear text)
    (hdepth : ∀ e ∈ kind.expressions, renderDepth e ≤ maxDepth) :
    ∀ r ∈ b.template? kind text parameters,
      r.Shows (∃ e ∈ kind.expressions, Renders Nameless e) := by
  have hone : ∀ {e : Expression} {r : Rendered}, r.Shows (Renders Nameless e) →
      r.Shows (∃ part ∈ [e], Renders Nameless part) := fun h => h.congr (by simp)
  have hnone : ∀ {r : Rendered}, r.Shows False →
      r.Shows (∃ part ∈ ([] : List Expression), Renders Nameless part) :=
    fun h => h.congr (by simp)
  have hblock := shows_block (by decide : Clear ") \x7b ") (by decide : Clear " \x7d")
  unfold template?
  split
  · split
    · have hrendered := shows_render_nameless hsubject (h.expressions _ List.mem_cons_self)
        (hdepth _ List.mem_cons_self)
      exact Option.forall_mem_map.mpr fun r hr => hone ((hrendered r hr).append_clear (by decide))
    · exact fun _ h => absurd h (Option.not_mem_none _)
  · exact shows_declarationTemplate? hsubject h hdepth
  · have hcondition := shows_renderOrReplace hsubject (h.expressions _ List.mem_cons_self)
      (hdepth _ List.mem_cons_self)
    exact of_mem_some (hone (hcondition.surround (shows_clear (by decide)) hblock))
  · have hcondition := shows_renderOrReplace hsubject (h.expressions _ List.mem_cons_self)
      (hdepth _ List.mem_cons_self)
    exact of_mem_some (hone (hcondition.surround (shows_clear (by decide)) hblock))
  · have hcondition := shows_renderOrReplace hsubject (h.expressions _ List.mem_cons_self)
      (hdepth _ List.mem_cons_self)
    have hdo := shows_block (by decide : Clear "do \x7b ") (by decide : Clear " \x7d while (")
    exact of_mem_some (hone (hcondition.surround hdo (shows_clear (by decide))))
  · have hloop := shows_foreachTemplate? hsubject h (hdepth _ List.mem_cons_self)
    exact fun r hr => hone (hloop r hr)
  · exact of_mem_some (hnone (shows_block (by decide) (by decide)))
  · rename_i clause rest
    have hclauses : Clear (String.join ((clause :: rest).map catchText)) :=
      clear_join (List.forall_mem_map.mpr fun c hc =>
        clear_catchText fun t ht => h.texts t (List.mem_flatMap.mpr ⟨c, hc, ht⟩))
    have htry := shows_block (by decide : Clear "try \x7b ") (by decide : Clear " \x7d")
    exact of_mem_some (hnone (htry.append_clear hclauses))
  · exact of_mem_some (hnone (shows_clear (by decide)))
  · have hrendered := shows_render_nameless hsubject (h.expressions _ List.mem_cons_self)
      (hdepth _ List.mem_cons_self)
    exact Option.forall_mem_map.mpr fun r hr =>
      hone ((hrendered r hr).surround (shows_clear (by decide)) (shows_clear (by decide)))
  · exact of_mem_some (hnone (shows_clear (by decide)))
  · exact of_mem_some (hnone (shows_clear (by decide)))
  · exact fun _ h => absurd h (Option.not_mem_none _)

end Statements

end Builder

end Foresight
