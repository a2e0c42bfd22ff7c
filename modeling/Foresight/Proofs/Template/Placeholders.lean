import Foresight.Code.Compose
import Foresight.Proofs.Table
import Foresight.Proofs.Template.Rendering

/-!
# Placeholders and their suggestions

A template and its suggestions are put together side by side: each hole adds a placeholder to the
text and a suggestion to the table, whatever is put behind each other takes both with it
(`Matched.concat`), and a text that stands in for a template brings no placeholder but the subject.
So as long as there is no mark in the texts that a template is made of, its placeholders are the
names of its suggestions, the subject's and the caret's apart (`placeholders_match_fields`).
-/

namespace Foresight

open Template

namespace Template

/-- There is no mark in the texts of an expression and of what is inside of it. -/
def ClearWithin (e : Expression) : Prop :=
  e.AllWithin fun part => ∀ text ∈ part.texts, Clear text

theorem clear_placeholderName {type : TypeRef} (h : Clear type.presentable) :
    Clear type.placeholderName := by
  intro hmark
  rw [TypeRef.placeholderName, String.toList_ofList] at hmark
  exact h (List.mem_of_mem_filter hmark)

theorem clear_holeName {name : String} (hname : Clear name) {type : TypeInfo}
    (htype : ∀ text ∈ type.texts, Clear text) : Clear (holeName name type) := by
  cases type with
  | resolved type => exact clear_placeholderName (htype _ List.mem_cons_self)
  | unknown | unresolved => exact hname

theorem clear_of_mem_holeNames {e : Expression} (h : ∀ text ∈ e.texts, Clear text) :
    ∀ name ∈ holeNames e, Clear name := by
  have htype : ∀ text ∈ e.type.texts, Clear text := fun text htext =>
    h text (List.mem_cons_of_mem _ (List.mem_append_left _ htext))
  have hshape : ∀ text ∈ e.shape.texts, Clear text := fun text htext =>
    h text (List.mem_cons_of_mem _ (List.mem_append_right _ htext))
  unfold holeNames
  split
  case h_1 qualifier name other type heq | h_2 qualifier name other type heq =>
    rw [heq] at hshape
    have htarget : ∀ text ∈ other :: type.texts, Clear text := fun text htext =>
      hshape text (List.mem_cons_of_mem _
        (List.mem_flatMap.mpr ⟨_, List.mem_singleton_self _, htext⟩))
    obtain ⟨hname, htype⟩ := List.forall_mem_cons.mp htarget
    exact List.forall_mem_singleton.mpr (clear_holeName hname htype)
  case h_3 heq =>
    refine List.forall_mem_map.mpr fun type hmem => clear_placeholderName (htype _ ?_)
    exact List.mem_flatMap.mpr ⟨type, hmem, List.mem_cons_self⟩
  case h_4 invoked arguments heq =>
    rw [heq] at hshape
    exact hshape
  case h_5 type arguments heq =>
    rw [heq] at hshape
    exact fun name hname => hshape name (List.mem_append_right _ hname)
  case h_6 => exact List.forall_mem_nil _

/-- The placeholders of a template are the names that it has suggestions for, the subject's and the
caret's apart, and each of these names is a placeholder of it. -/
def Rendered.Matched (r : Rendered) : Prop :=
  ∃ names, Reads r.template names ∧
    (∀ name ∈ names, name = Scope.variableName ∨ name = "END" ∨ name ∈ r.fields.names) ∧
    ∀ name ∈ r.fields.names, name ∈ names

/-- Text with no placeholders but the subject's and the caret's. -/
theorem matched_text {text : String} {names : List String} (h : Reads text names)
    (hnames : ∀ name ∈ names, name = Scope.variableName ∨ name = "END") :
    (Rendered.text text).Matched :=
  ⟨names, h, fun name hname => (hnames name hname).imp_right .inl, List.forall_mem_nil _⟩

theorem matched_clear {text : String} (h : Clear text) : (Rendered.text text).Matched :=
  matched_text (.text h) (List.forall_mem_nil _)

theorem matched_subject : (Rendered.text variablePlaceholder).Matched :=
  matched_text reads_variablePlaceholder (List.forall_mem_singleton.mpr (.inl rfl))

namespace Rendered.Matched

variable {r : Rendered}

theorem concat {template more : String} {fields others all : Fields}
    (h : Matched ⟨template, fields⟩) (h' : Matched ⟨more, others⟩)
    (hall : ∀ name, name ∈ all.names ↔ name ∈ fields.names ∨ name ∈ others.names) :
    Matched ⟨template ++ more, all⟩ := by
  obtain ⟨names, hreads, hnames, hfields⟩ := h
  obtain ⟨names', hreads', hnames', hfields'⟩ := h'
  refine ⟨names ++ names', hreads.append hreads', fun name hname => ?_, fun name hname => ?_⟩
  · rcases List.mem_append.mp hname with hname | hname
    · exact (hnames name hname).imp_right (.imp_right fun h => (hall name).mpr (.inl h))
    · exact (hnames' name hname).imp_right (.imp_right fun h => (hall name).mpr (.inr h))
  · rcases (hall name).mp hname with hname | hname
    · exact List.mem_append_left _ (hfields name hname)
    · exact List.mem_append_right _ (hfields' name hname)

theorem append (h : r.Matched) {more : String} (hmore : (Rendered.text more).Matched) :
    (r.append more).Matched :=
  h.concat hmore fun _ => (or_iff_left List.not_mem_nil).symm

theorem surround (h : r.Matched) {before after : String} (hbefore : (Rendered.text before).Matched)
    (hafter : (Rendered.text after).Matched) : (r.surround before after).Matched :=
  (hbefore.concat h fun _ => (or_iff_right List.not_mem_nil).symm).append hafter

theorem hole (h : r.Matched) {name : String} (hname : Template.Clear name) (suggestion : String) :
    (r.hole name suggestion).Matched := by
  have hone : Matched ⟨placeholder name, Table.empty.insert name suggestion⟩ :=
    ⟨[name], .placeholder name hname, fun _ hother => .inr (.inr hother), fun _ hother => hother⟩
  refine h.concat hone fun other => ?_
  rw [Table.mem_names_insert, Table.mem_names_insert]
  simp [Table.names, Table.empty, or_comm]

end Rendered.Matched

/-- Rendering puts templates together so. -/
theorem kept_matched : Kept Clear Clear Rendered.Matched where
  clear := id
  join h h' := clear_append.mpr ⟨h, h'⟩
  text := matched_clear
  subject h := h.append matched_subject
  append h hmore := h.append (matched_clear hmore)
  surround h hbefore hafter := h.surround (matched_clear hbefore) (matched_clear hafter)
  hole h hname _ := h.hole hname _
  operator hl hr hoperator := by
    have hbefore := ((hl.append (matched_clear (by decide : Clear " "))).append
      (matched_clear hoperator)).append (matched_clear (by decide : Clear " "))
    exact hbefore.concat hr fun name => (Table.mem_names_absorb ..).trans or_comm

theorem matched_render {e : Expression} (h : ClearWithin e) (parameters : Fields) :
    ∀ r ∈ render e parameters, r.Matched :=
  kept_matched.renderAt _ e 0 (h.mono fun _ htexts => ⟨htexts, clear_of_mem_holeNames htexts⟩)

end Template

/-! ## Statements -/

/-- There is no mark in a source text, nor in the texts of the shape that it is of and of its
expressions. -/
structure StatementKind.Clear (kind : StatementKind) (text : String) : Prop where
  source : Template.Clear text
  texts : ∀ t ∈ kind.texts, Template.Clear t
  expressions : ∀ e ∈ kind.expressions, ClearWithin e

namespace Builder

section Statements

variable {text : String} (parameters : Fields)

theorem matched_replaceSubject (h : Clear text) :
    (Rendered.text (replaceSubject text parameters)).Matched := by
  obtain ⟨count, hreads⟩ := exists_reads_replaceSubject parameters h
  exact matched_text hreads fun name hname => .inl (List.eq_of_mem_replicate hname)

theorem matched_renderOrReplace {e : Expression} (h : ClearWithin e) :
    (renderOrReplace e parameters).Matched := by
  unfold renderOrReplace
  cases hr : render e parameters with
  | none => exact matched_replaceSubject parameters (h.self _ List.mem_cons_self)
  | some r => exact matched_render h parameters r hr

/-- A variable is declared in front of what was rendered. -/
theorem matched_behind {r : Rendered} (h : r.Matched) {before name between after : String}
    {more : List String} (hbefore : Clear before) (hname : Clear name) (hbetween : Clear between)
    (hafter : Reads after more) (hmore : ∀ other ∈ more, other = "END") (suggestion : String) :
    Rendered.Matched ⟨before ++ placeholder name ++ between ++ r.template ++ after,
      r.fields.insert name suggestion⟩ := by
  obtain ⟨names, hreads, hnames, hfields⟩ := h
  refine ⟨_, hreads.behind hbefore hname hbetween hafter, ?_, fun other hother => ?_⟩
  · refine List.forall_mem_cons.mpr ⟨.inr (.inr ((Table.mem_names_insert _).mpr (.inl rfl))),
      List.forall_mem_append.mpr ⟨fun other hother => ?_, fun other hother =>
        .inr (.inl (hmore other hother))⟩⟩
    exact (hnames other hother).imp_right
      (.imp_right fun h => (Table.mem_names_insert _).mpr (.inr h))
  · rcases (Table.mem_names_insert _).mp hother with rfl | hother
    · exact List.mem_cons_self
    · exact List.mem_cons_of_mem _ (List.mem_append_left _ (hfields other hother))

theorem clear_declaredType? {v : Variable} (h : ∀ t ∈ v.texts, Clear t) :
    ∀ type ∈ declaredType? v, Clear type := by
  intro type htype
  unfold declaredType? at htype
  split at htype
  · cases htype
    decide
  · split at htype
    · rename_i known hresolved
      cases htype
      refine h _ (List.mem_cons_of_mem _ (List.mem_cons_of_mem _ ?_))
      simp [TypeInfo.texts, hresolved, TypeRef.texts]
    · split at htype
      · cases htype
      · cases htype
        exact h _ (List.mem_cons_of_mem _ List.mem_cons_self)

/-- A single declarator with a value has a template: what its value is rendered as behind a hole for
its name, or the written text. -/
theorem declarationTemplate?_cases {declared : List Variable} {r : Rendered}
    (h : declarationTemplate? text parameters declared = some r) :
    ∃ v value, declared = [v] ∧ v.initializer = some value ∧
      ((render value parameters = none ∧ r = .text (replaceSubject text parameters)) ∨
        ∃ rendered type, render value parameters = some rendered ∧ declaredType? v = some type ∧
          r = ⟨type ++ " " ++ placeholder "name" ++ " = " ++ rendered.template ++ ";",
            rendered.fields.insert "name" suggestVariableName⟩) := by
  unfold declarationTemplate? at h
  split at h
  · rename_i v
    obtain ⟨value, hvalue, h⟩ := Option.bind_eq_some_iff.mp h
    refine ⟨v, value, rfl, hvalue, ?_⟩
    split at h
    · exact .inl ⟨‹_›, (Option.some.inj h).symm⟩
    · obtain ⟨type, htype, h⟩ := Option.bind_eq_some_iff.mp h
      exact .inr ⟨_, type, ‹_›, htype, (Option.some.inj h).symm⟩
  · cases h

theorem clear_declared {v : Variable} (h : (StatementKind.declaration [v]).Clear text)
    {type : String} (htype : declaredType? v = some type) : Clear (type ++ " ") :=
  clear_append.mpr ⟨clear_declaredType? (fun t ht => h.texts t
    (List.mem_flatMap.mpr ⟨v, List.mem_singleton_self v, ht⟩)) type htype, by decide⟩

theorem mem_expressions_declaration {v : Variable} {value : Expression}
    (h : v.initializer = some value) : value ∈ (StatementKind.declaration [v]).expressions :=
  List.mem_filterMap.mpr ⟨v, List.mem_singleton_self v, h⟩

theorem matched_declarationTemplate? {declared : List Variable}
    (h : (StatementKind.declaration declared).Clear text) :
    ∀ r ∈ declarationTemplate? text parameters declared, r.Matched := by
  intro r hr
  obtain ⟨v, value, rfl, hvalue, ⟨-, rfl⟩ | ⟨rendered, type, hrendered, htype, rfl⟩⟩ :=
    declarationTemplate?_cases parameters hr
  · exact matched_replaceSubject parameters h.source
  · have hclear := h.expressions value (mem_expressions_declaration hvalue)
    exact matched_behind (matched_render hclear parameters rendered hrendered)
      (clear_declared h htype) (by decide) (by decide) (.text (by decide))
      (List.forall_mem_nil _) _

/-- The type that an iteration variable is declared with. -/
def iteratedType? (iterator : Iterator) : Option String :=
  if iterator.isVar then some "var" else iterator.type.resolved?.map (·.longName)

theorem foreachTemplate?_eq (iterator : Iterator) (collection : Expression) :
    foreachTemplate? iterator collection parameters =
      (iteratedType? iterator).map fun type =>
        let r := renderOrReplace collection parameters
        ⟨"foreach (" ++ type ++ " " ++ placeholder "iterator" ++ " in " ++ r.template ++
            (") \x7b " ++ endMarker ++ " \x7d"),
          r.fields.insert "iterator" suggestVariableName⟩ := by
  unfold foreachTemplate? iteratedType?
  simp only [← String.append_assoc]
  split
  · rfl
  · cases iterator.type.resolved? <;> rfl

theorem clear_iteratedType? {iterator : Iterator} (h : ∀ t ∈ iterator.texts, Clear t) :
    ∀ type ∈ iteratedType? iterator, Clear type := by
  intro type htype
  unfold iteratedType? at htype
  split at htype
  · cases htype
    decide
  · obtain ⟨known, hresolved, rfl⟩ := Option.map_eq_some_iff.mp htype
    refine h _ (List.mem_cons_of_mem _ (List.mem_cons_of_mem _ ?_))
    simp [TypeInfo.texts, hresolved, TypeRef.texts]

theorem clear_iterated {iterator : Iterator} {collection : Expression} {body : Option StatementId}
    (h : (StatementKind.foreach iterator collection body).Clear text) {type : String}
    (htype : iteratedType? iterator = some type) : Clear ("foreach (" ++ type ++ " ") :=
  clear_append.mpr ⟨clear_append.mpr ⟨by decide, clear_iteratedType? h.texts type htype⟩, by decide⟩

theorem matched_foreachTemplate? {iterator : Iterator} {collection : Expression}
    {body : Option StatementId} (h : (StatementKind.foreach iterator collection body).Clear text) :
    ∀ r ∈ foreachTemplate? iterator collection parameters, r.Matched := by
  intro r hr
  rw [foreachTemplate?_eq] at hr
  obtain ⟨type, htype, rfl⟩ := Option.map_eq_some_iff.mp hr
  have hrendered := matched_renderOrReplace parameters
    (h.expressions collection (List.mem_singleton_self collection))
  exact matched_behind hrendered (clear_iterated h htype) (by decide) (by decide)
    (reads_block (by decide) (by decide)) (List.forall_mem_singleton.mpr rfl) _

theorem clear_catchText {β : Type} {clause : CatchClause β} (h : ∀ t ∈ clause.texts, Clear t) :
    Clear (catchText clause) := by
  unfold catchText
  split
  · rename_i known hresolved
    obtain ⟨type, htype, hresolved⟩ := Option.bind_eq_some_iff.mp hresolved
    have hlong : Clear known.longName := h _ (by
      simp [CatchClause.texts, htype, TypeInfo.texts, hresolved, TypeRef.texts])
    exact clear_append.mpr ⟨clear_append.mpr ⟨by decide, hlong⟩, by decide⟩
  · decide

theorem clear_join {texts : List String} (h : ∀ t ∈ texts, Clear t) :
    Clear (String.join texts) := by
  intro hmark
  rw [String.toList_join, List.mem_flatMap] at hmark
  obtain ⟨text, htext, hmark⟩ := hmark
  exact h text htext hmark

/-- A text with the caret in it. -/
theorem matched_block {before after : String} (hbefore : Clear before) (hafter : Clear after) :
    (Rendered.text (before ++ endMarker ++ after)).Matched :=
  matched_text (reads_block hbefore hafter) (List.forall_mem_singleton.mpr (.inr rfl))

end Statements

theorem matched_template? (b : Builder) {kind : StatementKind} {text : String}
    (h : kind.Clear text) (parameters : Fields) :
    ∀ r ∈ b.template? kind text parameters, r.Matched := by
  have hblock := matched_block (by decide : Clear ") \x7b ") (by decide : Clear " \x7d")
  have hdo := matched_block (by decide : Clear "do \x7b ") (by decide : Clear " \x7d while (")
  have htry : ∀ {after : String}, Clear after →
      (Rendered.text ("try \x7b " ++ endMarker ++ after)).Matched := matched_block (by decide)
  unfold template?
  split
  · split
    · have hrendered := matched_render (h.expressions _ (List.mem_singleton_self _)) parameters
      exact Option.forall_mem_map.mpr fun r hr =>
        (hrendered r hr).append (matched_clear (by decide))
    · exact fun _ h => nomatch h
  · exact matched_declarationTemplate? _ h
  · have hcondition := matched_renderOrReplace parameters (h.expressions _ List.mem_cons_self)
    exact of_mem_some (hcondition.surround (matched_clear (by decide)) hblock)
  · have hcondition := matched_renderOrReplace parameters (h.expressions _ List.mem_cons_self)
    exact of_mem_some (hcondition.surround (matched_clear (by decide)) hblock)
  · have hcondition := matched_renderOrReplace parameters (h.expressions _ List.mem_cons_self)
    exact of_mem_some (hcondition.surround hdo (matched_clear (by decide)))
  · exact matched_foreachTemplate? _ h
  · exact of_mem_some (htry (by decide))
  · rename_i clause rest
    have hclauses : Clear (String.join ((clause :: rest).map catchText)) :=
      clear_join (List.forall_mem_map.mpr fun c hc =>
        clear_catchText fun t ht => h.texts t (List.mem_flatMap.mpr ⟨c, hc, ht⟩))
    exact of_mem_some ((htry (by decide)).append (matched_clear hclauses))
  · exact of_mem_some (matched_clear (by decide))
  · have hrendered := matched_render (h.expressions _ (List.mem_singleton_self _)) parameters
    exact Option.forall_mem_map.mpr fun r hr =>
      (hrendered r hr).surround (matched_clear (by decide)) (matched_clear (by decide))
  · exact of_mem_some (matched_clear (by decide))
  · exact of_mem_some (matched_clear (by decide))
  · exact fun _ h => nomatch h

/-- What a builder makes of a statement without marks is a template that is cut in an odd number of
pieces at its marks, and in which every second piece is the subject, the caret or a name that there
is a suggestion for, as is each of these names. -/
theorem placeholders_match_fields (b : Builder) {file : SourceFile} {s : Statement} {scope : Scope}
    (hclear : s.kind.Clear (file.textOf s)) {o : Observation}
    (ho : b.build? file s scope = some o) :
    (Text.splitAt '$' o.template).length % 2 = 1 ∧
      (∀ name ∈ placeholders o.template,
        name = Scope.variableName ∨ name = "END" ∨ name ∈ o.fields.names) ∧
      ∀ name ∈ o.fields.names, name ∈ placeholders o.template := by
  obtain ⟨r, hr, rfl⟩ := Option.map_eq_some_iff.mp ho
  obtain ⟨names, hreads, hnames, hfields⟩ := matched_template? b hclear scope.parameters r hr
  obtain ⟨hlength, hplaceholders⟩ := hreads.splitAt
  have hodd : (Text.splitAt '$' r.template).length % 2 = 1 := by omega
  exact ⟨hodd, hplaceholders ▸ hnames, hplaceholders ▸ hfields⟩

/-- What a bag gives for a number that is bound to a parameter of it. -/
def taken : Expression :=
  .call (some (.local_ "bag" (.resolved ⟨"Bag<Item>", "App.Bag"⟩))) "Take" none
    [⟨.reference "size" .unknown none, some "limit"⟩] .unknown

def takenFile : SourceFile := .new "Take.cs" "var item = bag.Take(size);"

def takenStatement : Statement :=
  ⟨.declaration [⟨"item", .unknown, true, "var", taken⟩], none, ⟨0, 26⟩, none⟩

theorem clear_taken : takenStatement.kind.Clear (takenFile.textOf takenStatement) := by
  have hbag : ClearWithin (.local_ "bag" (.resolved ⟨"Bag<Item>", "App.Bag"⟩)) :=
    .of_operands (by decide) (List.forall_mem_nil _)
  have hsize : ClearWithin (.reference "size" .unknown none) :=
    .of_operands (by decide) (List.forall_mem_nil _)
  have htaken : ClearWithin taken := .of_operands (by decide) (List.forall_mem_cons.mpr
    ⟨.of_operands (by decide) (List.forall_mem_singleton.mpr hbag),
      List.forall_mem_singleton.mpr hsize⟩)
  exact ⟨by decide +kernel, by decide, List.forall_mem_singleton.mpr htaken⟩

/-- A declaration has a hole for its name, for the bag and for what is handed to it. -/
theorem placeholders_match_fields_taken :
    ∃ o, Builder.localVariable.build? takenFile takenStatement (.after 0 "" .empty) = some o ∧
      placeholders o.template = ["name", "BagItem", "limit"] ∧
      ∀ name ∈ o.fields.names, name ∈ placeholders o.template := by
  have hbuilt : (Builder.localVariable.build? takenFile takenStatement (.after 0 "" .empty)).map
      (fun o => placeholders o.template) = some ["name", "BagItem", "limit"] := by decide +kernel
  obtain ⟨o, ho, hplaceholders⟩ := Option.map_eq_some_iff.mp hbuilt
  exact ⟨o, ho, hplaceholders, (placeholders_match_fields .localVariable clear_taken ho).2.2⟩

end Builder

end Foresight
