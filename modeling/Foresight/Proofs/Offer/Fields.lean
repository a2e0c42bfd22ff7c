import Foresight.Analysis
import Foresight.Proofs.CSharp.Clear
import Foresight.Proofs.Files.Disk
import Foresight.Proofs.Offer.Substitution
import Foresight.Proofs.Ranking.Constants
import Foresight.Proofs.Scope.Captured
import Foresight.Proofs.Template.Spaced

/-!
# Fields that are left to fill

A suggestion keeps the fields that its template was mined with, and an invocation takes them over as
they are. What is captured at the cursor fills every placeholder that is called like it, and a
placeholder is called after a parameter, a local or a type of the program: a constructor may have a
parameter called `Value`. So a field is still to be filled in the text of an invocation exactly if
nothing of its name was captured (`invoke_leaves_fields`), as long as there is no mark in the
sources and in what was captured. Placeholders of a template are kept apart, so nothing else is
replaced, and no mark is left over. For the suggestions of a solution on disk that is a condition on
its texts alone (`invoke_analysed`).
-/

namespace Foresight

open Template Chain

/-! ## Mined templates -/

/-- The subject's placeholder may touch itself where the key of the scope is no guard's. -/
def TouchesUnder (key name : String) : Prop := name = Scope.variableName ∧ isGuard key = false

/-- What mining makes under a key: a template whose placeholders are kept apart, with a placeholder
for each of its fields. -/
structure IsMined (key template : String) (fields : Fields) : Prop where
  spaced : Template.Spaced (TouchesUnder key) template
  fields : ∀ name ∈ fields.names, name ∈ placeholders template

/-- Under a key of a guard there is no subject. -/
theorem Captures.touchesUnder {key : String} {parameters : Fields} (h : Captures key parameters)
    {name : String} (hname : MayTouch parameters name) : TouchesUnder key name := by
  obtain ⟨hvariable, hsubject⟩ := hname
  refine ⟨hvariable, Bool.eq_false_iff.mpr fun hguard => ?_⟩
  rw [Scope.subject?, parameters.get?_eq_none_iff.mpr (h.guard hguard)] at hsubject
  cases hsubject

theorem isMined_build? {b : Builder} {file : SourceFile} {s : Statement} {scope : Scope}
    (hclear : s.kind.Clear (file.textOf s)) (hscope : Captures scope.key scope.parameters)
    {o : Observation} (ho : b.build? file s scope = some o) :
    IsMined o.key o.template o.fields := by
  obtain ⟨r, hr, rfl⟩ := Option.map_eq_some_iff.mp ho
  obtain ⟨names, hreads, -, hfields⟩ := Builder.matched_template? b hclear scope.parameters r hr
  obtain ⟨c, hc, hwrite, hspaced⟩ := Builder.spaced_template? b hclear scope.parameters r hr
  exact ⟨⟨c, hc, hwrite, hspaced.mono fun name => hscope.touchesUnder⟩,
    hreads.splitAt.2.symm ▸ hfields⟩

theorem isMined_analyzeFile {p : Pipeline} {file : SourceFile} (hclear : file.IsClear)
    {fileId : String} {o : Observation} (ho : o ∈ p.analyzeFile file fileId) :
    IsMined o.key o.template o.fields := by
  obtain ⟨id, -, ho⟩ := List.mem_flatMap.mp ho
  obtain ⟨scope, hscope, ho⟩ := List.mem_flatMap.mp ho
  obtain ⟨made, hmade, rfl⟩ := List.mem_map.mp ho
  unfold Pipeline.observationsUnder at hmade
  split at hmade
  · cases hmade
  · rename_i next hnext
    obtain ⟨b, -, hb⟩ := List.mem_filterMap.mp hmade
    obtain ⟨nextId, -, hnext⟩ := Option.bind_eq_some_iff.mp hnext
    have hmined : IsMined made.key made.template made.fields :=
      isMined_build? (hclear nextId next hnext) (captures_of_mem_scopesFor hscope) hb
    exact hmined

/-- What is published is as what it was made of was mined, fields included. -/
theorem isMined_aggregate {observations : List Observation} {thresholds : Thresholds}
    {s : Suggestion} (hs : s ∈ Ranking.aggregate observations thresholds)
    (h : ∀ o ∈ observations, o.key = s.key → o.template = s.template →
      IsMined o.key o.template o.fields) : IsMined s.key s.template s.fields := by
  have hstanding := hs
  rw [Ranking.aggregate_eq_standings] at hstanding
  have hmined : ∀ o ∈ Ranking.sightings observations s.key s.template,
      IsMined s.key s.template o.fields := by
    intro o ho
    obtain ⟨ho, hkey, htemplate⟩ := Ranking.mem_sightings.mp ho
    exact hkey ▸ htemplate ▸ h o ho hkey htemplate
  obtain ⟨first, hfirst⟩ :=
    List.exists_mem_of_ne_nil _ (Ranking.eq_entry_of_mem_standings hstanding).2
  refine ⟨(hmined first hfirst).spaced, fun name hname => ?_⟩
  obtain ⟨o, ho, hname⟩ := (Ranking.mem_names_of_mem_aggregate hs).mp hname
  exact (hmined o ho).fields name hname

/-! ## Invocations -/

theorem letters_of_mem_capturedNames :
    ∀ name ∈ capturedNames, Clear name ∧ ¬ Parts NoLetter name := by decide

theorem fills_captured {key : String} {parameters : Fields} (hcaptures : Captures key parameters)
    (hclear : parameters.All fun _ value => Clear value) :
    ∀ value ∈ parameters.entries, Fills NoLetter value := by
  intro value hvalue
  have hname : value.1 ∈ capturedNames := hcaptures.names _ (List.mem_map_of_mem hvalue)
  obtain ⟨hmark, hparts⟩ := letters_of_mem_capturedNames _ hname
  exact ⟨hmark, hparts, hclear value hvalue⟩

/-- The text of an invocation is that of the template, with the captured parameters filled in. -/
theorem exists_chain_invoke {s : Suggestion} (h : Template.Spaced (TouchesUnder s.key) s.template)
    {parameters : Fields} (hcaptures : Captures s.key parameters)
    (hclear : parameters.All fun _ value => Clear value) (onNewLine : Bool) :
    ∃ c : Chain, c.IsClear ∧ c.write = (s.invoke parameters onNewLine).text ∧
      c.names = (placeholders s.template).filter (· ∉ parameters.names) ∧
      c.Spaced NoLetter fun _ => False := by
  obtain ⟨c, hc, hwrite, hspaced⟩ := h
  have hfills := fills_captured hcaptures hclear
  have hvalues : ∀ value ∈ parameters.entries, Clear value.2 := fun value hvalue =>
    (hfills value hvalue).value
  have hfirst : ∀ name, TouchesUnder s.key name → parameters.names.head? = some name :=
    fun name hname => hname.1 ▸ hcaptures.subject hname.2
  have hnames : ∀ d : Chain, d.names = c.names → (d.fillAll parameters.entries).names =
      (placeholders s.template).filter (· ∉ parameters.names) := by
    intro d hd
    rw [names_fillAll, hd, ← hwrite, hc.placeholders_write]
    rfl
  cases onNewLine with
  | false =>
    obtain ⟨hfilled, hapart⟩ := substituteParameters_write hc hspaced hfills hfirst
    exact ⟨_, hc.fillAll hvalues, by rw [← hfilled, hwrite]; rfl, hnames c rfl, hapart⟩
  | true =>
    have hline : (c.prepend "\n").IsClear := hc.prepend (by decide)
    obtain ⟨hfilled, hapart⟩ :=
      substituteParameters_write hline (hspaced.prepend "\n") hfills hfirst
    rw [write_prepend, hwrite] at hfilled
    exact ⟨_, hline.fillAll hvalues, hfilled.symm, hnames _ (names_prepend ..), hapart⟩

/-- An invocation leaves the placeholders that are not called like a captured parameter. A field
has its placeholder still exactly if it is not called so. -/
theorem invoke_isMined {s : Suggestion} (h : IsMined s.key s.template s.fields)
    {parameters : Fields} (hcaptures : Captures s.key parameters)
    (hclear : parameters.All fun _ value => Clear value) (onNewLine : Bool) :
    placeholders (s.invoke parameters onNewLine).text =
        (placeholders s.template).filter (· ∉ parameters.names) ∧
      ∀ name ∈ (s.invoke parameters onNewLine).fields.names,
        (Text.contains (placeholder name) (s.invoke parameters onNewLine).text = true ↔
          name ∉ parameters.names) := by
  obtain ⟨c, hc, hwrite, hnames, hspaced⟩ :=
    exists_chain_invoke h.spaced hcaptures hclear onNewLine
  have hmem : ∀ name, name ∈ c.names ↔ name ∈ placeholders s.template ∧ name ∉ parameters.names :=
    fun name => by rw [hnames, List.mem_filter, decide_eq_true_eq]
  rw [← hwrite, ← hnames]
  refine ⟨hc.placeholders_write, fun name hname => ?_⟩
  by_cases hcaptured : name ∈ parameters.names
  · refine iff_of_false (fun hfound => ?_) (not_not_intro hcaptured)
    obtain ⟨hname, hapart⟩ := letters_of_mem_capturedNames name (hcaptures.names name hcaptured)
    exact ((hmem name).mp ((contains_write_iff hc hspaced hname hapart).mp hfound)).2 hcaptured
  · have hleft : name ∈ c.names := (hmem name).mpr ⟨h.fields name hname, hcaptured⟩
    exact iff_of_true (Text.contains_iff.mpr (infix_write hleft)) hcaptured

/-- An observation that a file without a mark makes, bound against sources without a mark. -/
def MinedClear (p : Pipeline) (o : Observation) : Prop :=
  ∃ sources path source root fileId, (∀ s ∈ sources, Clear s.1) ∧ Clear source ∧
    o ∈ p.analyzeFile (CSharp.lowerFile path source (CSharp.collected sources) root) fileId

theorem MinedClear.isMined {p : Pipeline} {o : Observation} (h : MinedClear p o) :
    IsMined o.key o.template o.fields := by
  obtain ⟨sources, path, source, root, fileId, hsources, hsource, ho⟩ := h
  exact isMined_analyzeFile
    (CSharp.isClear_lowerFile hsource (CSharp.isClear_collected hsources)) ho

/-- A suggestion is published and invoked with what was captured in a scope of the same key, in
whatever file. The placeholders that are not called like a captured parameter are left, in their
order, and a field has its placeholder in the text still exactly if it is not called so. -/
theorem invoke_leaves_fields {p : Pipeline} {observations : List Observation}
    {thresholds : Thresholds} {s : Suggestion} (hs : s ∈ Ranking.aggregate observations thresholds)
    (hmined : ∀ o ∈ observations, o.key = s.key → o.template = s.template → MinedClear p o)
    {q : Pipeline} {file : SourceFile} {id : StatementId} {scope : Scope}
    (hscope : scope ∈ q.scopesFor file id) (hkey : scope.key = s.key)
    (hvalues : scope.parameters.All fun _ value => Clear value) (onNewLine : Bool) :
    placeholders (s.invoke scope.parameters onNewLine).text =
        (placeholders s.template).filter (· ∉ scope.parameters.names) ∧
      ∀ field ∈ (s.invoke scope.parameters onNewLine).fields.names,
        (Text.contains (placeholder field) (s.invoke scope.parameters onNewLine).text = true ↔
          field ∉ scope.parameters.names) :=
  have hmade : IsMined s.key s.template s.fields :=
    isMined_aggregate hs fun o ho hkey htemplate => (hmined o ho hkey htemplate).isMined
  invoke_isMined hmade (hkey ▸ captures_of_mem_scopesFor hscope) hvalues onNewLine

/-- A price is made behind a text. -/
def priceSource : String :=
  "record Price(int Value);\n" ++
    "class A \x7b void M() \x7b string s = \"\"; var p = new Price(1); \x7d \x7d"

/-- The tree of that source, without most of its tokens. -/
def priceTree : CSharp.Node :=
  let node (kind field : String) (start stop : Nat) (children : List CSharp.Node) : CSharp.Node :=
    ⟨kind, true, field, start, stop, children⟩
  let declare (kind : String) (start middle stop : Nat) (value : CSharp.Node) : CSharp.Node :=
    node "local_declaration_statement" "" start (stop + 1)
      [node "variable_declaration" "" start stop
        [node kind "type" start (middle - 1) [],
          node "variable_declarator" "" middle stop
            [node "identifier" "name" middle (middle + 1) [],
              ⟨"=", false, "", middle + 2, middle + 3, []⟩, value]]]
  let creation := node "object_creation_expression" "" 69 81
    [node "identifier" "type" 73 78 [],
      node "argument_list" "arguments" 78 81
        [node "argument" "" 79 80 [node "integer_literal" "" 79 80 []]]]
  let method := node "method_declaration" "" 35 84
    [node "identifier" "name" 40 41 [],
      node "block" "body" 44 84
        [declare "predefined_type" 46 53 59 (node "string_literal" "" 57 59 []),
          declare "implicit_type" 61 65 81 creation]]
  let parameter := node "parameter" "" 13 22 [node "identifier" "name" 17 22 []]
  node "compilation_unit" "" 0 86
    [node "record_declaration" "" 0 24
      [node "identifier" "name" 7 12 [], node "parameter_list" "" 12 23 [parameter]],
      node "class_declaration" "" 25 86
        [node "identifier" "name" 31 32 [], node "declaration_list" "body" 33 86 [method]]]

def priceFile : SourceFile :=
  CSharp.lowerFile "A.cs" priceSource (CSharp.collected [(priceSource, priceTree)]) priceTree

def priceSuggestions : List Suggestion :=
  Ranking.aggregate (Pipeline.standard.analyzeFile priceFile "A.cs") ⟨1, 0, 0⟩

/-- The variable is left to be named, and the price takes the text that was captured. -/
theorem invoke_leaves_fields_price :
    (∀ o ∈ Pipeline.standard.analyzeFile priceFile "A.cs", MinedClear Pipeline.standard o) ∧
    ∃ s ∈ priceSuggestions, ∃ scope ∈ Pipeline.standard.scopesFor priceFile 0,
      scope.key = s.key ∧ (scope.parameters.All fun _ value => Clear value) ∧
      s.fields.names = ["Value", "name"] ∧
      placeholders (s.invoke scope.parameters true).text = ["name"] ∧
      Text.contains "$name$" (s.invoke scope.parameters true).text = true ∧
      ¬ Text.contains "$Value$" (s.invoke scope.parameters true).text = true := by
  have hmined : ∀ o ∈ Pipeline.standard.analyzeFile priceFile "A.cs",
      MinedClear Pipeline.standard o := fun o ho =>
    ⟨[(priceSource, priceTree)], "A.cs", priceSource, priceTree, "A.cs", by decide +kernel,
      by decide +kernel, ho⟩
  have hsuggestions : priceSuggestions.map (fun s => (s.key, s.template, s.fields.names)) =
      [("After variable of type \"System.String\"", "var $name$ = new Price($Value$);",
        ["Value", "name"])] := by decide +kernel
  have hscopes : (Pipeline.standard.scopesFor priceFile 0).map
      (fun scope => (scope.key, scope.parameters.entries)) =
      [("After variable of type \"System.String\"", [("VariableName", "s"),
        ("VariableType", "string"), ("FullName", "System.String"), ("Value", "\"\"")])] := by
    decide +kernel
  obtain ⟨s, hs, hsuggestion⟩ := List.mem_map.mp (hsuggestions ▸ List.mem_singleton_self _)
  obtain ⟨scope, hscope, hcaptured⟩ := List.mem_map.mp (hscopes ▸ List.mem_singleton_self _)
  obtain ⟨hkey, hparameters⟩ := Prod.mk.inj hcaptured
  obtain ⟨hkey', htemplate, hfields⟩ := by simpa using hsuggestion
  have hvalues : scope.parameters.All fun _ value => Clear value := by
    rw [Table.All, hparameters]
    decide
  have hnames : scope.parameters.names = ["VariableName", "VariableType", "FullName", "Value"] := by
    rw [Table.names, hparameters]
    rfl
  obtain ⟨hleft, hfield⟩ := invoke_leaves_fields hs (fun o ho _ _ => hmined o ho) hscope
    (hkey.trans hkey'.symm) hvalues true
  rw [htemplate, hnames] at hleft
  rw [hnames] at hfield
  have hmem : ∀ field ∈ ["Value", "name"], field ∈ s.fields.names := fun field h => hfields ▸ h
  exact ⟨hmined, s, hs, scope, hscope, hkey.trans hkey'.symm, hvalues, hfields,
    hleft.trans (by decide), (hfield "name" (hmem _ (by decide))).mpr (by decide),
    fun h => (hfield "Value" (hmem _ (by decide))).mp h (by decide)⟩

/-- A field without a placeholder in the text: nothing is asked for the price any more. -/
theorem captured_value_takes_field :
    ∃ s ∈ priceSuggestions, ∃ scope ∈ Pipeline.standard.scopesFor priceFile 0,
      scope.key = s.key ∧ (scope.parameters.All fun _ value => Clear value) ∧
      (s.invoke scope.parameters true).text = "\nvar $name$ = new Price(\"\");" ∧
      ∃ field ∈ (s.invoke scope.parameters true).fields.names,
        Text.contains (placeholder field) (s.invoke scope.parameters true).text = false := by
  decide +kernel

/-! ## Suggestions of a solution -/

/-- An analysis of a solution makes such observations if there is no mark in what can be read. -/
theorem minedClear_of_mem_mined {p : Pipeline} {s : SolutionDirectory} {grammar : Grammar}
    {d : Disk} (hclear : ∀ path text, SourceText.read d path = .ok text → Clear text)
    (hfresh : s.symbols = none) {fileIds : List String} {o : Observation}
    (ho : o ∈ Analysis.mined p (s.listing grammar d) fileIds) : MinedClear p o := by
  obtain ⟨fileId, -, ho⟩ := List.mem_flatMap.mp ho
  unfold Analysis.mine at ho
  split at ho
  · rename_i file hfile
    obtain ⟨text, htext, hfile⟩ := Except.bind_eq_ok_iff.mp hfile
    obtain rfl := Except.ok.inj hfile
    have hindex : s.declared grammar d = s.collectSymbols grammar d := by
      rw [SolutionDirectory.declared, hfresh, Option.getD_none]
    rw [hindex, CSharp.collectSymbols_eq_collected] at ho
    refine ⟨_, fileId, text, grammar text, fileId, fun source hsource => ?_, ?_, ho⟩
    · obtain ⟨location, -, hsource⟩ := List.mem_filterMap.mp hsource
      obtain ⟨read, hread, rfl⟩ := Option.map_eq_some_iff.mp hsource
      exact hclear _ _ (Except.toOption_eq_some_iff.mp hread)
    · unfold SolutionDirectory.readId at htext
      split at htext
      · exact hclear _ _ htext
      · cases htext
  · cases ho

/-- The suggestions of an analysis that collects its types anew are invoked so, if no source that it
can read has a mark in it. -/
theorem invoke_analysed {p : Pipeline} {w : SolutionDirectory} {grammar : Grammar} {d : Disk}
    (hclear : ∀ path text, SourceText.read d path = .ok text → Clear text)
    (hfresh : w.symbols = none) {fileIds : List String} {thresholds : Thresholds} {s : Suggestion}
    (hs : s ∈ Ranking.aggregate (Analysis.mined p (w.listing grammar d) fileIds) thresholds)
    {q : Pipeline} {file : SourceFile} {id : StatementId} {scope : Scope}
    (hscope : scope ∈ q.scopesFor file id) (hkey : scope.key = s.key)
    (hvalues : scope.parameters.All fun _ value => Clear value) (onNewLine : Bool) :
    placeholders (s.invoke scope.parameters onNewLine).text =
        (placeholders s.template).filter (· ∉ scope.parameters.names) ∧
      ∀ field ∈ (s.invoke scope.parameters onNewLine).fields.names,
        (Text.contains (placeholder field) (s.invoke scope.parameters onNewLine).text = true ↔
          field ∉ scope.parameters.names) :=
  have hmade : IsMined s.key s.template s.fields :=
    isMined_aggregate hs fun _ ho _ _ => (minedClear_of_mem_mined hclear hfresh ho).isMined
  invoke_isMined hmade (hkey ▸ captures_of_mem_scopesFor hscope) hvalues onNewLine

end Foresight
