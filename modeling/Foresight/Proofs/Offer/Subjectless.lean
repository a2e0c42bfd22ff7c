import Foresight.Proofs.CSharp.Rendered
import Foresight.Proofs.Offer.Fields
import Foresight.Proofs.Scope.Clear
import Foresight.Proofs.Template.Subject

/-!
# Scopes without a subject

A guard captures no subject. The renderer compares with an empty text then, and what has no text is
taken for the subject: a missing identifier, or an argument of nothing. So a template that was mined
under a guard has the subject's placeholder exactly if a nameless part was rendered, apart from a
field that happens to be called so. Nothing that is captured under the key of a guard fills that
placeholder, so it is left in the text that is inserted, with no field to fill it in. All others
that are left there are fields, and the caret's (`subjectless_placeholders`).
-/

namespace Foresight

open Expression Template Chain

/-- A nameless part is rendered for the statement that a scope looks at. -/
def Scope.MeetsNameless (scope : Scope) (file : SourceFile) : Prop :=
  ∃ next ∈ (scope.nextStatement? file).bind file.get?,
    ∃ e ∈ next.kind.expressions, Renders Nameless e

/-- A template that is made without a subject: its placeholders are kept apart, and it shows a
subject only for a nameless part. -/
structure Subjectless (template : String) (fields : Fields) (meets : Prop) : Prop where
  spaced : Template.Spaced (fun _ => False) template
  matched : Rendered.Matched ⟨template, fields⟩
  shows : Rendered.Shows ⟨template, fields⟩ meets

namespace Subjectless

variable {template : String} {fields : Fields} {meets : Prop}

/-- A placeholder of the template is the caret's, a field's, or a subject's that is not there. -/
theorem of_mem_placeholders (h : Subjectless template fields meets) {name : String}
    (hname : name ∈ placeholders template) :
    name = "END" ∨ name ∈ fields.names ∨ name = Scope.variableName ∧ meets := by
  obtain ⟨names, hreads, hnames⟩ := h.shows
  obtain ⟨names', hreads', hnames', -⟩ := h.matched
  have heq : names = placeholders template := hreads.splitAt.2.symm
  have heq' : names' = placeholders template := hreads'.splitAt.2.symm
  rcases hnames' name (heq' ▸ hname) with rfl | hend | hfield
  · rcases hnames.mp (heq ▸ hname) with hmeets | hfield
    · exact Or.inr (Or.inr ⟨rfl, hmeets⟩)
    · exact Or.inr (Or.inl hfield)
  · exact Or.inl hend
  · exact Or.inr (Or.inl hfield)

theorem mem_placeholders_iff (h : Subjectless template fields meets) :
    Scope.variableName ∈ placeholders template ↔ meets ∨ Scope.variableName ∈ fields.names := by
  obtain ⟨names, hreads, hnames⟩ := h.shows
  have heq : placeholders template = names := hreads.splitAt.2
  rw [heq, hnames]

end Subjectless

/-- Of a template whose placeholders are kept apart, the subject's is found where there is one. -/
theorem contains_subject_iff {c : Chain} (hclear : c.IsClear)
    (hspaced : c.Spaced NoLetter fun _ => False) :
    Text.contains variablePlaceholder c.write = true ↔ Scope.variableName ∈ c.names := by
  have hname := letters_of_mem_capturedNames Scope.variableName List.mem_cons_self
  exact contains_write_iff hclear hspaced hname.1 hname.2

theorem Subjectless.contains_iff {template : String} {fields : Fields} {meets : Prop}
    (h : Subjectless template fields meets) : Text.contains variablePlaceholder template = true ↔
      meets ∨ Scope.variableName ∈ fields.names := by
  rw [← h.mem_placeholders_iff]
  obtain ⟨c, hclear, rfl, hspaced⟩ := h.spaced
  rw [contains_subject_iff hclear hspaced, hclear.placeholders_write]

/-! ## Mining -/

theorem subjectless_of_mem_observationsUnder {file : SourceFile} (hclear : file.IsClear)
    (hdepth : ∀ id s, file.get? id = some s →
      ∀ e ∈ s.kind.expressions, renderDepth e ≤ maxDepth)
    {scope : Scope} (hsubject : Scope.subject? scope.parameters = none) {p : Pipeline}
    {o : Observation} (ho : o ∈ p.observationsUnder file scope) :
    o.key = scope.key ∧ Subjectless o.template o.fields (scope.MeetsNameless file) := by
  unfold Pipeline.observationsUnder at ho
  split at ho
  · cases ho
  · rename_i next hnext
    obtain ⟨b, -, hb⟩ := List.mem_filterMap.mp ho
    obtain ⟨r, hr, rfl⟩ := Option.map_eq_some_iff.mp hb
    obtain ⟨nextId, -, hget⟩ := Option.bind_eq_some_iff.mp hnext
    have hkind := hclear nextId next hget
    have hmeets : (∃ e ∈ next.kind.expressions, Renders Nameless e) ↔
        scope.MeetsNameless file := by
      rw [Scope.MeetsNameless, hnext]
      simp
    obtain ⟨c, hc, hwrite, hspaced⟩ := b.spaced_template? hkind scope.parameters r hr
    refine ⟨rfl, ⟨c, hc, hwrite, hspaced.mono fun name hname => ?_⟩,
      b.matched_template? hkind scope.parameters r hr,
      (Builder.shows_template? hsubject b hkind (hdepth nextId next hget) r hr).congr hmeets⟩
    have hsome := hname.2
    rw [hsubject] at hsome
    cases hsome

/-- The key of a scope without a subject is that of a guard. -/
theorem Captures.isGuard_of_subject? {key : String} {parameters : Fields}
    (h : Captures key parameters) (hsubject : Scope.subject? parameters = none) :
    isGuard key = true := by
  by_contra hguard
  have hhead := h.subject (Bool.eq_false_iff.mpr hguard)
  exact parameters.get?_eq_none_iff.mp hsubject (List.mem_of_head? hhead)

/-! ## Invocations -/

theorem Subjectless.invoke {s : Suggestion} {fields : Fields} {meets : Prop}
    (h : Subjectless s.template fields meets) (hfields : fields.names ⊆ s.fields.names)
    (hguard : isGuard s.key = true) {parameters : Fields} (hcaptures : Captures s.key parameters)
    (hclear : CapturesClear parameters) (onNewLine : Bool) :
    (Text.contains variablePlaceholder (s.invoke parameters onNewLine).text = true ↔
        meets ∨ Scope.variableName ∈ fields.names) ∧
      ∀ name ∈ placeholders (s.invoke parameters onNewLine).text,
        name = "END" ∨ name ∈ (s.invoke parameters onNewLine).fields.names ∨
          name = Scope.variableName ∧ meets := by
  have hspaced : Template.Spaced (TouchesUnder s.key) s.template := by
    obtain ⟨c, hc, hwrite, hspaced⟩ := h.spaced
    exact ⟨c, hc, hwrite, hspaced.mono fun _ hnone => hnone.elim⟩
  obtain ⟨c, hc, hwrite, hnames, hkept⟩ := exists_chain_invoke hspaced hcaptures hclear onNewLine
  have hmem : ∀ name, name ∈ c.names ↔ name ∈ placeholders s.template ∧ name ∉ parameters.names :=
    fun name => by rw [hnames, List.mem_filter, decide_eq_true_eq]
  rw [← hwrite, contains_subject_iff hc hkept, hc.placeholders_write]
  constructor
  · -- No parameter is called like the subject, so its placeholder is left where it was.
    rw [hmem, h.mem_placeholders_iff]
    exact and_iff_left (hcaptures.guard hguard)
  · intro name hname
    exact (h.of_mem_placeholders ((hmem name).mp hname).1).imp_right (.imp_left (hfields ·))

/-- Under a scope that captures no subject, a template has a placeholder for the subject exactly if
a nameless part is rendered or if a field is called so. It is left then in the text that is inserted
under the same key, and what else is left are fields, and the caret. -/
theorem subjectless_placeholders {path source : String} {index : CSharp.SymbolIndex}
    {root : CSharp.Node} (hsource : Clear source) (hindex : index.IsClear) {file : SourceFile}
    (hfile : file = CSharp.lowerFile path source index root) {p : Pipeline} {id : StatementId}
    {scope : Scope} (hscope : scope ∈ p.scopesFor file id)
    (hsubject : Scope.subject? scope.parameters = none) {o : Observation}
    (ho : o ∈ p.observationsUnder file scope) :
    (Text.contains variablePlaceholder o.template = true ↔
      scope.MeetsNameless file ∨ Scope.variableName ∈ o.fields.names) ∧
    ∀ {observations : List Observation} {thresholds : Thresholds} {s : Suggestion}
      {fileId : String}, s ∈ Ranking.aggregate observations thresholds →
      { o with file := fileId } ∈ observations → o.key = s.key → o.template = s.template →
      ∀ {q : Pipeline} {other : SourceFile} {place : StatementId} {there : Scope}, other.IsClear →
      there ∈ q.scopesFor other place → there.key = s.key → ∀ onNewLine : Bool,
      (Text.contains variablePlaceholder (s.invoke there.parameters onNewLine).text = true ↔
        scope.MeetsNameless file ∨ Scope.variableName ∈ o.fields.names) ∧
      ∀ name ∈ placeholders (s.invoke there.parameters onNewLine).text,
        name = "END" ∨ name ∈ (s.invoke there.parameters onNewLine).fields.names ∨
          name = Scope.variableName ∧ scope.MeetsNameless file := by
  subst hfile
  have hdepth : ∀ id s, (CSharp.lowerFile path source index root).get? id = some s →
      ∀ e ∈ s.kind.expressions, renderDepth e ≤ maxDepth := fun _ _ hs e he =>
    (CSharp.of_mem_expressions_lowerFile CSharp.Setting.yields_fits hs e he).self
  obtain ⟨hkey, hmade⟩ := subjectless_of_mem_observationsUnder
    (CSharp.isClear_lowerFile hsource hindex) hdepth hsubject ho
  refine ⟨hmade.contains_iff, ?_⟩
  intro observations thresholds s fileId hs hmined hsame htemplate q other place there hother hthere
    hunder onNewLine
  have hguard : isGuard s.key = true := by
    rw [← hsame, hkey]
    exact (captures_of_mem_scopesFor hscope).isGuard_of_subject? hsubject
  have hfields : o.fields.names ⊆ s.fields.names := fun name hname =>
    (Ranking.mem_names_of_mem_aggregate hs).mpr
      ⟨_, Ranking.mem_sightings.mpr ⟨hmined, hsame, htemplate⟩, hname⟩
  exact (htemplate ▸ hmade).invoke hfields hguard (hunder ▸ captures_of_mem_scopesFor hthere)
    (capturesClear_of_mem_scopesFor hother hthere) onNewLine

/-- A guard on a property, with a statement in its body that asks for a condition. -/
def guardedSource (condition : String) : String :=
  "class A \x7b bool Prop \x7b get; set; \x7d void M() \x7b if (Prop) \x7b if (" ++ condition ++
    ") \x7b \x7d \x7d \x7d \x7d"

/-- The tree of that source, without most of its tokens. -/
def guardedTree (width : Nat) : CSharp.Node :=
  let node (kind field : String) (start stop : Nat) (children : List CSharp.Node) : CSharp.Node :=
    ⟨kind, true, field, start, stop, children⟩
  let property := node "property_declaration" "" 10 33
    [node "predefined_type" "type" 10 14 [], node "identifier" "name" 15 19 []]
  let inner := node "if_statement" "" 57 (width + 66)
    [node "identifier" "condition" 61 (width + 61) [],
      node "block" "consequence" (width + 63) (width + 66) []]
  let outer := node "if_statement" "" 45 (width + 68)
    [node "identifier" "condition" 49 53 [], node "block" "consequence" 55 (width + 68) [inner]]
  let method := node "method_declaration" "" 34 (width + 70)
    [node "predefined_type" "returns" 34 38 [], node "identifier" "name" 39 40 [],
      node "block" "body" 43 (width + 70) [outer]]
  node "compilation_unit" "" 0 (width + 72)
    [node "class_declaration" "" 0 (width + 72)
      [node "identifier" "name" 6 7 [],
        node "declaration_list" "body" 8 (width + 72) [property, method]]]

/-- The file that is lowered from that source. -/
def guardedFile (condition : String) (width : Nat) : SourceFile :=
  CSharp.lowerFile "A.cs" (guardedSource condition)
    (CSharp.collected [(guardedSource condition, guardedTree width)]) (guardedTree width)

def guardedSuggestions (condition : String) (width : Nat) : List Suggestion :=
  Ranking.aggregate (Pipeline.standard.analyzeFile (guardedFile condition width) "A.cs") ⟨1, 0, 0⟩

/-- Where the property is asked for again, nothing is nameless, and only the caret is left. -/
theorem subjectless_placeholders_guarded :
    Clear (guardedSource "Prop") ∧
    ∃ scope ∈ Pipeline.standard.scopesFor (guardedFile "Prop" 4) 3,
      Scope.subject? scope.parameters = none ∧ ¬ scope.MeetsNameless (guardedFile "Prop" 4) ∧
      ∃ o ∈ Pipeline.standard.observationsUnder (guardedFile "Prop" 4) scope,
        o.template = "if (Prop) \x7b $END$ \x7d" ∧
        Text.contains variablePlaceholder o.template = false ∧
      ∃ s ∈ guardedSuggestions "Prop" 4, s.key = scope.key ∧ s.template = o.template ∧
        ∀ name ∈ placeholders (s.invoke scope.parameters true).text,
          name = "END" ∨ name ∈ (s.invoke scope.parameters true).fields.names := by
  have hmined : ∃ scope ∈ Pipeline.standard.scopesFor (guardedFile "Prop" 4) 3,
      Scope.subject? scope.parameters = none ∧
      ∃ o ∈ Pipeline.standard.observationsUnder (guardedFile "Prop" 4) scope,
        o.template = "if (Prop) \x7b $END$ \x7d" ∧
        Text.contains variablePlaceholder o.template = false ∧
      ∃ s ∈ guardedSuggestions "Prop" 4, s.key = scope.key ∧ o.key = s.key ∧
        o.template = s.template ∧
        { o with file := "A.cs" } ∈
          Pipeline.standard.analyzeFile (guardedFile "Prop" 4) "A.cs" := by
    decide +kernel
  obtain ⟨scope, hscope, hsubject, o, ho, htemplate, hclean, s, hs, hkey, hsame, hshared, hfound⟩ :=
    hmined
  have hsource : Clear (guardedSource "Prop") := by decide
  have hindex : (CSharp.collected [(guardedSource "Prop", guardedTree 4)]).IsClear :=
    CSharp.isClear_collected (List.forall_mem_singleton.mpr hsource)
  obtain ⟨hfirst, hinvoked⟩ := subjectless_placeholders hsource hindex rfl hscope hsubject ho
  have hnameless : ¬ scope.MeetsNameless (guardedFile "Prop" 4) := fun h => by
    rw [hfirst.mpr (Or.inl h)] at hclean
    cases hclean
  have hleft := (hinvoked hs hfound hsame hshared (CSharp.isClear_lowerFile hsource hindex) hscope
    hkey.symm true).2
  exact ⟨hsource, scope, hscope, hsubject, hnameless, o, ho, htemplate, hclean, s, hs, hkey,
    hshared.symm, fun name hname => (hleft name hname).imp_right
      (Or.resolve_right · fun h => hnameless h.2)⟩

/-- Where the condition is missing, it is taken for the subject that the guard does not have, and
the placeholder is inserted with nothing to fill it in. -/
theorem missing_condition_takes_subject :
    Clear (guardedSource "") ∧
    ∃ scope ∈ Pipeline.standard.scopesFor (guardedFile "" 0) 3,
      Scope.subject? scope.parameters = none ∧
      ∃ o ∈ Pipeline.standard.observationsUnder (guardedFile "" 0) scope,
        o.template = "if ($VariableName$) \x7b $END$ \x7d" ∧ o.fields.names = [] ∧
      ∃ s ∈ guardedSuggestions "" 0, s.key = scope.key ∧
        placeholders (s.invoke scope.parameters true).text = [Scope.variableName, "END"] ∧
        (s.invoke scope.parameters true).fields.names = [] := by
  decide +kernel

end Foresight
