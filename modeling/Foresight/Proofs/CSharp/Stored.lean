import Foresight.Proofs.Code.Parts
import Foresight.Proofs.CSharp.Pushes
import Foresight.Proofs.Table

/-!
# What lowering stores

Every expression of a statement was lowered at a place where the scopes hold local variables and
parameters only (`LocalScopes`), or it stands in for one that is missing; and every text of a
statement was read from a node or belongs to a type that was bound to such a text. So what is asked
of names, texts and expressions (`Demands`), and lowering gives at the places of a body
(`Setting.Yields`), holds of all that the body adds (`Sound`). Each rule keeps that, and from the
rules a body, a site and a file do (`of_get?_lowerFile`).
-/

namespace Foresight

namespace CSharp

open SourceFile Lowering

/-! ## Local scopes -/

/-- A local variable or a parameter, under its own name. -/
inductive IsLocal : String → Foresight.Symbol → Prop where
  | local_ (name : String) (type : TypeInfo) : IsLocal name (.local_ name type)
  | parameter (name : String) (type : TypeInfo) : IsLocal name (.parameter name type)

/-- The scopes hold local variables and parameters. -/
def LocalScopes (scopes : Scopes) : Prop := ∀ scope ∈ scopes, scope.All IsLocal

theorem localScopes_nil : LocalScopes [] := fun _ h => absurd h List.not_mem_nil

theorem LocalScopes.of_lookup? {p : Place} (h : LocalScopes p.scopes) {name : String}
    {symbol : Foresight.Symbol} (hlookup : p.lookup? name = some symbol) : IsLocal name symbol := by
  obtain ⟨scope, hscope, hget⟩ := List.exists_of_findSome?_eq_some hlookup
  exact (h scope hscope).of_get? hget

/-! ## Demands -/

/-- What is asked of the names in the scopes, and of the texts and the expressions of statements. -/
structure Demands where
  symbol : String → Foresight.Symbol → Prop
  text : String → Prop
  expression : Expression → Prop

namespace Demands

variable (D : Demands)

def Scoped (scopes : Scopes) : Prop := ∀ scope ∈ scopes, scope.All D.symbol

structure Kind (kind : StatementKind) : Prop where
  texts : AllTexts D.text kind.texts
  expressions : ∀ e ∈ kind.expressions, D.expression e

/-- What is asked of some declarators. -/
structure Variables (declared : List Variable) : Prop where
  texts : AllTexts D.text (declared.flatMap (·.texts))
  values : ∀ e ∈ declared.filterMap (·.initializer), D.expression e

variable {D}

theorem Variables.nil : D.Variables [] := ⟨.nil, List.forall_mem_nil _⟩

/-- A statement without texts and expressions of its own. -/
theorem kind_plain {kind : StatementKind} (htexts : kind.texts = [])
    (hexpressions : kind.expressions = []) : D.Kind kind :=
  ⟨htexts ▸ .nil, hexpressions ▸ List.forall_mem_nil _⟩

/-- A statement that has one expression. -/
theorem kind_expression {kind : StatementKind} {e : Expression} (htexts : kind.texts = [])
    (hexpressions : kind.expressions = [e]) (he : D.expression e) : D.Kind kind :=
  ⟨htexts ▸ .nil, hexpressions ▸ List.forall_mem_singleton.mpr he⟩

theorem scoped_headD {scopes : Scopes} (h : D.Scoped scopes) :
    (scopes.headD .empty).All D.symbol := by
  cases scopes with
  | nil => exact Table.all_empty
  | cons scope rest => exact h scope List.mem_cons_self

end Demands

/-- All that is asked for is a property of expressions, where the scopes hold local names. -/
def demandsOf (Q : Expression → Prop) : Demands := ⟨IsLocal, fun _ => True, Q⟩

/-! ## Statements that meet demands -/

/-- The scopes, and the statements from `first` on, are as they are asked to be. -/
structure Sound (D : Demands) (first : StatementId) (l : Lowering) : Prop where
  scopes : D.Scoped l.scopes
  statements : ∀ id t, first ≤ id → l.file.get? id = some t → D.Kind t.kind

variable {D : Demands} {first : StatementId} {l : Lowering}

/-- No statement is new yet. -/
theorem sound_new (h : D.Scoped l.scopes) : Sound D l.file.statementCount l :=
  ⟨h, fun _ _ hid ht => absurd (lt_of_get? _ ht) (Nat.not_lt.mpr hid)⟩

namespace Sound

theorem push (h : Sound D first l) {kind : StatementKind} (span : Span) (hkind : D.Kind kind) :
    Sound D first (Lowering.push kind span l).1 where
  scopes := h.scopes
  statements := by
    intro id t hid ht
    rcases push_cases _ kind span ht with ⟨-, rfl⟩ | ⟨u, hu, rfl⟩
    · exact hkind
    · exact h.statements id u hid hu

theorem rescope (h : Sound D first l) {scopes : Scopes} (hscopes : D.Scoped scopes) :
    Sound D first { l with scopes := scopes } :=
  ⟨hscopes, h.statements⟩

theorem declare (h : Sound D first l) {name : String} {type : TypeInfo}
    (hsymbol : D.symbol name (.local_ name type)) : Sound D first (l.declare name type) := by
  unfold Lowering.declare
  split
  · exact h
  · rename_i innermost outer hscopes
    have hlocal := List.forall_mem_cons.mp (hscopes ▸ h.scopes)
    exact h.rescope (List.forall_mem_cons.mpr ⟨hlocal.1.insert hsymbol, hlocal.2⟩)

theorem of_statements {l' : Lowering} (h : Sound D first l) (hscopes : l'.scopes = l.scopes)
    (hstatements : l'.file.statements = l.file.statements) : Sound D first l' where
  scopes := hscopes ▸ h.scopes
  statements := by
    intro id t hid ht
    rw [get?, hstatements] at ht
    exact h.statements id t hid ht

end Sound

/-! ### Steps -/

variable (D first) in
/-- A step after which all is still sound. -/
def Keeps {α : Type} (step : Step α) : Prop := ∀ l, Sound D first l → Sound D first (step l).1

variable (D first) in
/-- What is more, the shape that it gives is as it is asked to be. -/
def Shapes (step : Step StatementKind) : Prop :=
  ∀ l, Sound D first l → Sound D first (step l).1 ∧ D.Kind (step l).2

section Steps

variable {α β : Type}

theorem keeps_within {step : Step α} (h : Keeps D first step) {scope : Table Foresight.Symbol}
    (hscope : scope.All D.symbol) : Keeps D first (Lowering.within scope step) := by
  intro l hl
  -- Whatever names the step adds to the scopes, those below the one that is closed are kept.
  have hinner := h _ (hl.rescope (List.forall_mem_cons.mpr ⟨hscope, hl.scopes⟩))
  exact hinner.rescope fun scope hmem => hinner.scopes scope (List.mem_of_mem_tail hmem)

theorem shapes_within {step : Step StatementKind} (h : Shapes D first step)
    {scope : Table Foresight.Symbol} (hscope : scope.All D.symbol) :
    Shapes D first (Lowering.within scope step) := by
  intro l hl
  have hinner := h _ (hl.rescope (List.forall_mem_cons.mpr ⟨hscope, hl.scopes⟩))
  exact ⟨keeps_within (fun l hl => (h l hl).1) hscope l hl, hinner.2⟩

theorem keeps_each {step : α → Step β} {items : List α} (h : ∀ a ∈ items, Keeps D first (step a)) :
    Keeps D first (each step items) := by
  induction items with
  | nil => exact fun _ hl => hl
  | cons a rest ih =>
    intro l hl
    exact ih (fun b hb => h b (List.mem_cons_of_mem _ hb)) _ (h a List.mem_cons_self l hl)

theorem keeps_ifSome {step : α → Step β} (h : ∀ a, Keeps D first (step a)) (item : Option α) :
    Keeps D first (ifSome step item) := by
  cases item with
  | none => exact fun _ hl => hl
  | some a => exact h a

end Steps

/-! ### Blocks

What only has statements inside is as it is asked to be, whatever that is.
-/

namespace Setting

section Inner

variable {s : Setting} {inner : Node → Step StatementId} (h : ∀ n, Keeps D first (inner n))

include h

theorem keeps_block (n : Node) : Keeps D first (block inner n) := fun l hl =>
  have hinner := keeps_within (keeps_each fun c _ => h c) Table.all_empty l hl
  hinner.push n.span (Demands.kind_plain rfl rfl)

theorem keeps_switchSection (n : Node) : Keeps D first (switchSection inner n) := by
  intro l hl
  have hstatements : Sound D first
      (each inner (n.namedChildren.filter Node.isStatement) l).1 := keeps_each (fun c _ => h c) l hl
  unfold switchSection
  split
  rename_i l' ids heq
  rw [heq] at hstatements
  split
  · exact hstatements
  · have hpushed : Sound D first (push (.block ids) n.span l').1 :=
      hstatements.push n.span (Demands.kind_plain rfl rfl)
    exact ⟨hpushed.scopes, hpushed.statements⟩

end Inner

/-! ### Statements -/

/-- What lowering gives is as it is asked to be, at every place of a body. -/
structure Yields (s : Setting) (D : Demands) : Prop where
  lowered : ∀ scopes n, D.Scoped scopes →
    D.expression (lowerExpression ⟨s.source, s.index, s.context, scopes⟩ n)
  missing : D.expression (.raw "")
  text : ∀ n, D.text (s.text n)
  noText : D.text ""
  noType : D.text "var"
  resolved : ∀ written, D.text written → AllTexts D.text (s.resolveType written).texts
  typed : ∀ e, D.expression e → AllTexts D.text e.type.texts
  local_ : ∀ name type, D.text name → AllTexts D.text type.texts →
    D.symbol name (.local_ name type)
  parameter : ∀ name type, D.text name → AllTexts D.text type.texts →
    D.symbol name (.parameter name type)

theorem yields_of_lowered {s : Setting} {Q : Expression → Prop}
    (h : ∀ scopes n, LocalScopes scopes →
      Q (lowerExpression ⟨s.source, s.index, s.context, scopes⟩ n)) (hmissing : Q (.raw "")) :
    s.Yields (demandsOf Q) where
  lowered := h
  missing := hmissing
  text _ := trivial
  noText := trivial
  noType := trivial
  resolved _ _ _ _ := trivial
  typed _ _ _ _ := trivial
  local_ name type _ _ := .local_ name type
  parameter name type _ _ := .parameter name type

section Yields

variable {s : Setting} (hD : s.Yields D)

include hD

theorem Yields.expression (h : Sound D first l) (n : Node) : D.expression (s.expression n l) :=
  hD.lowered l.scopes n h.scopes

theorem Yields.fieldExpression (h : Sound D first l) (n : Node) (field : String) :
    D.expression (s.fieldExpression n field l) := by
  unfold Setting.fieldExpression
  split
  · exact hD.expression h _
  · exact hD.missing

theorem Yields.writtenType (n : Node) : D.text (s.writtenType n) := by
  unfold Setting.writtenType
  split
  · exact hD.text _
  · exact hD.noType

theorem Yields.all_parameters (n : Node) : (s.parameters n).All D.symbol := by
  unfold parameters
  extract_lets list
  cases list with
  | none => exact Table.all_empty
  | some list =>
    refine Table.all_foldl (fun t entry ht hentry => ht.insert hentry) (fun entry hentry => ?_)
      Table.all_empty
    dsimp only at hentry
    obtain ⟨p, -, hp⟩ := List.mem_filterMap.mp hentry
    obtain ⟨name, -, rfl⟩ := Option.map_eq_some_iff.mp hp
    refine hD.parameter _ _ (hD.text name) ?_
    split
    · exact hD.resolved _ (hD.text _)
    · exact .nil

theorem sound_declarator (hl : Sound D first l) {written : String} (hwritten : D.text written)
    (n name : Node) : Sound D first (s.declarator written n name l).1 ∧
      AllTexts D.text (s.declarator written n name l).2.texts ∧
      ∀ e ∈ (s.declarator written n name l).2.initializer, D.expression e := by
  unfold declarator
  extract_lets value isVar type text
  have hvalue : ∀ e ∈ value, D.expression e := by
    intro e he
    obtain ⟨node, -, rfl⟩ := Option.map_eq_some_iff.mp he
    exact hD.expression hl node
  clear_value value
  have htype : AllTexts D.text type.texts := by
    unfold type
    split
    · split
      · rename_i e
        split
        · exact hD.typed e (hvalue e rfl)
        · exact .nil
      · exact .nil
    · exact hD.resolved written hwritten
  have hname : D.text text := hD.text name
  exact ⟨hl.declare (hD.local_ _ _ hname htype), .cons hname (.cons hwritten htype), hvalue⟩

theorem sound_declarators {written : String} (hwritten : D.text written)
    (named : List (Node × Node)) (hl : Sound D first l) :
    Sound D first (each (fun d => s.declarator written d.1 d.2) named l).1 ∧
      D.Variables (each (fun d => s.declarator written d.1 d.2) named l).2 := by
  induction named generalizing l with
  | nil => exact ⟨hl, .nil⟩
  | cons d rest ih =>
    obtain ⟨hdeclared, htexts, hvalue⟩ := sound_declarator hD hl hwritten d.1 d.2
    obtain ⟨hrest, hvariables⟩ := ih hdeclared
    refine ⟨hrest, htexts.append hvariables.texts, fun e he => ?_⟩
    rcases List.mem_filterMap.mp he with ⟨v, hv, hinitializer⟩
    rcases List.mem_cons.mp hv with rfl | hv
    · exact hvalue e hinitializer
    · exact hvariables.values e (List.mem_filterMap.mpr ⟨v, hv, hinitializer⟩)

theorem sound_variableDeclaration (hl : Sound D first l) (n : Node) :
    Sound D first (s.variableDeclaration n l).1 ∧ D.Variables (s.variableDeclaration n l).2 :=
  sound_declarators hD (hD.writtenType n) _ hl

theorem sound_resources (nodes : List Node) {declared : List Variable}
    {resource : Option Expression} (hl : Sound D first l) (hdeclared : D.Variables declared)
    (hresource : ∀ e ∈ resource, D.expression e) :
    Sound D first (s.resources nodes declared resource l).1 ∧
      D.Variables (s.resources nodes declared resource l).2.1 ∧
      ∀ e ∈ (s.resources nodes declared resource l).2.2, D.expression e := by
  induction nodes generalizing declared resource l with
  | nil => exact ⟨hl, hdeclared, hresource⟩
  | cons n rest ih =>
    unfold resources
    split
    · obtain ⟨hl', hdeclared'⟩ := sound_variableDeclaration hD hl n
      exact ih hl' hdeclared' hresource
    · split
      · refine ih hl hdeclared fun e he => ?_
        obtain rfl := Option.some.inj he
        exact hD.expression hl n
      · exact ih hl hdeclared hresource

variable {inner : Node → Step StatementId} (h : ∀ n, Keeps D first (inner n))

include h

theorem sound_catchClause (hl : Sound D first l) (n : Node) :
    Sound D first (s.catchClause inner n l).1 ∧
      AllTexts D.text (s.catchClause inner n l).2.texts := by
  unfold catchClause
  extract_lets declaration written variable_ type enter
  have hwritten : AllTexts D.text written.toList := fun t ht => by
    obtain ⟨node, -, rfl⟩ := Option.map_eq_some_iff.mp (Option.mem_toList.mp ht)
    exact hD.text node
  have hvariable : AllTexts D.text variable_.toList := fun t ht => by
    obtain ⟨node, -, rfl⟩ := Option.map_eq_some_iff.mp (Option.mem_toList.mp ht)
    exact hD.text node
  have htype : ∀ known ∈ type, AllTexts D.text known.texts := fun known hknown => by
    obtain ⟨text, htext, rfl⟩ := Option.map_eq_some_iff.mp hknown
    exact hD.resolved text (hwritten text (Option.mem_toList.mpr htext))
  have htypes : AllTexts D.text (type.toList.flatMap (·.texts)) := .option htype
  have henter : Keeps D first fun l => (enter l, ()) := fun l hl => by
    unfold enter
    clear_value variable_ type
    dsimp only
    split
    · rename_i name known
      exact hl.declare (hD.local_ name known
        (hvariable name List.mem_cons_self) (htype known rfl))
    · exact hl
  have hbody := keeps_ifSome (keeps_block h) (n.childOr? "body" "block")
  exact ⟨keeps_within (fun l hl => hbody (enter l) (henter l hl)) Table.all_empty l hl,
    (htypes.append hwritten).append hvariable⟩

theorem sound_clauses (nodes : List Node) {catches : List (CatchClause (Option StatementId))}
    (finally_ : Option StatementId) (hl : Sound D first l)
    (hcatches : AllTexts D.text (catches.flatMap (·.texts))) :
    Sound D first (s.clauses inner nodes catches finally_ l).1 ∧
      AllTexts D.text ((s.clauses inner nodes catches finally_ l).2.1.flatMap (·.texts)) := by
  induction nodes generalizing catches finally_ l with
  | nil => exact ⟨hl, hcatches⟩
  | cons c rest ih =>
    unfold clauses
    split
    · obtain ⟨hl', htexts⟩ := sound_catchClause hD h hl c
      refine ih _ hl' ?_
      rw [List.flatMap_append, List.flatMap_singleton]
      exact hcatches.append htexts
    · split
      · exact ih _ (keeps_ifSome (keeps_block h) _ l hl) hcatches
      · exact ih _ hl hcatches

theorem shapes_tryStatement (n : Node) : Shapes D first (s.tryStatement inner n) := fun l hl =>
  have hclauses := sound_clauses hD h n.namedChildren none
    (keeps_ifSome (keeps_block h) (n.child? "body") l hl) AllTexts.nil
  ⟨hclauses.1, hclauses.2, List.forall_mem_nil _⟩

theorem shapes_foreachStatement (n : Node) : Shapes D first (s.foreachStatement inner n) := by
  intro l hl
  unfold foreachStatement
  extract_lets collection written isVar type name
  have htype : AllTexts D.text type.texts := by
    unfold type
    split
    · exact .nil
    · exact hD.resolved _ (hD.writtenType n)
  have hname : D.text name := by
    unfold name
    split
    · exact hD.text _
    · exact hD.noText
  have hbody := keeps_within
    (fun l hl => keeps_ifSome h (n.child? "body") (l.declare name type)
      (hl.declare (hD.local_ name type hname htype))) Table.all_empty l hl
  exact ⟨hbody, .cons hname (.cons (hD.writtenType n) htype),
    List.forall_mem_singleton.mpr (hD.fieldExpression hl n "right")⟩

theorem shapes_usingStatement (n : Node) : Shapes D first (s.usingStatement inner n) := by
  refine shapes_within (fun l hl => ?_) Table.all_empty
  have hnone : ∀ e ∈ (none : Option Expression), D.expression e := fun e h =>
    absurd h (Option.not_mem_none e)
  obtain ⟨hresources, hdeclared, hresource⟩ :=
    sound_resources hD ((dropFirst (·.field == "body") n.children).filter (·.isNamed)) hl
      .nil hnone
  refine ⟨keeps_ifSome h (n.child? "body") _ hresources, hdeclared.texts, fun e he => ?_⟩
  rcases List.mem_append.mp he with he | he
  · exact hdeclared.values e he
  · exact hresource e (Option.mem_toList.mp he)

theorem keeps_nestedChild (n : Node) : Keeps D first (s.nestedChild inner n) := by
  intro l hl
  unfold nestedChild
  split
  · exact (sound_variableDeclaration hD hl n).1
  · split
    · exact keeps_each (fun c _ => keeps_switchSection h c) l hl
    · split
      · have hinner := h n l hl
        exact ⟨hinner.scopes, hinner.statements⟩
      · exact hl

theorem shapes_nestedStatements (n : Node) : Shapes D first (s.nestedStatements inner n) :=
  fun l hl => ⟨keeps_within (keeps_each fun c _ => keeps_nestedChild hD h c) Table.all_empty l hl,
    Demands.kind_plain rfl rfl⟩

theorem shapes_statementKind (n : Node) : Shapes D first (s.statementKind inner n) := by
  have hslot := fun field => keeps_ifSome h (n.child? field)
  have hplain : ∀ {kind : StatementKind}, kind.texts = [] → kind.expressions = [] → D.Kind kind :=
    Demands.kind_plain
  intro l hl
  unfold statementKind
  split
  · split
    · exact ⟨hl, Demands.kind_expression rfl rfl (hD.expression hl _)⟩
    · exact ⟨hl, hplain rfl rfl⟩
  · split
    · obtain ⟨hl', hdeclared⟩ := sound_variableDeclaration hD hl _
      exact ⟨hl', hdeclared.texts, hdeclared.values⟩
    · exact ⟨hl, hplain rfl rfl⟩
  · exact ⟨hslot "alternative" _ (hslot "consequence" l hl),
      Demands.kind_expression rfl rfl (hD.fieldExpression hl n "condition")⟩
  · exact ⟨hslot "body" l hl,
      Demands.kind_expression rfl rfl (hD.fieldExpression hl n "condition")⟩
  · have hbody := hslot "body" l hl
    exact ⟨hbody, Demands.kind_expression rfl rfl (hD.fieldExpression hbody n "condition")⟩
  · exact shapes_foreachStatement hD h n l hl
  · exact shapes_usingStatement hD h n l hl
  · refine ⟨hl, .nil, fun e he => ?_⟩
    obtain ⟨value, -, rfl⟩ := Option.map_eq_some_iff.mp (Option.mem_toList.mp he)
    exact hD.expression hl value
  · exact ⟨hl, hplain rfl rfl⟩
  · exact ⟨hl, hplain rfl rfl⟩
  · exact ⟨hl, hplain rfl rfl⟩
  · exact shapes_tryStatement hD h n l hl
  · exact shapes_within (shapes_nestedStatements hD h n) (hD.all_parameters n) l hl
  · exact shapes_nestedStatements hD h n l hl

omit h

theorem keeps_statement (room : Nat) (n : Node) : Keeps D first (s.statement room n) := by
  induction room generalizing n with
  | zero => exact fun l hl => hl.push n.span (Demands.kind_plain rfl rfl)
  | succ room ih =>
    intro l hl
    unfold statement
    dsimp only
    split
    · exact keeps_block ih n l hl
    · obtain ⟨hkept, hkind⟩ := shapes_statementKind hD ih n l hl
      exact hkept.push n.span hkind

end Yields

end Setting

/-! ## Files -/

theorem statements_addNestedRoots (l : Lowering) :
    (addNestedRoots l).file.statements = l.file.statements := by
  unfold addNestedRoots
  generalize l.nestedRoots = ids
  induction ids using List.reverseRecOn with
  | nil => rfl
  | append_singleton ids id ih =>
    rw [List.foldl_append]
    exact (statements_addRoot ..).trans ih

/-- What stays fixed in a file, outside its types. -/
def fileSetting (source : String) (index : SymbolIndex) (root : Node) : Setting :=
  ⟨source, index, ⟨usings source root, "", none⟩⟩

/-- The state before the first site. -/
def FileLowering.start (path source : String) : FileLowering :=
  ⟨⟨.new path source, [], []⟩, .empty, []⟩

theorem lowerFile_eq (path source : String) (index : SymbolIndex) (root : Node) :
    lowerFile path source index root = closeStatements ((sites source root).foldl
      (lowerSite (fileSetting source index root)) (.start path source)) :=
  rfl

/-- What stays fixed in a body. -/
def Setting.inBody (setting : Setting) (b : MemberBody) : Setting :=
  { setting with context := { setting.context with
      namespace_ := b.type.namespace_, enclosingType := some b.type } }

/-- What stays fixed in top-level statements. -/
def Setting.atTop (setting : Setting) (namespace_ : String) : Setting :=
  { setting with context := { setting.context with
      namespace_ := namespace_, enclosingType := none } }

/-- Lowering gives what it is asked for wherever it comes to in a site. -/
def Setting.YieldsIn (setting : Setting) (D : Demands) : Site → Prop
  | .type namespace_ n => ∀ b ∈ bodiesOf setting.source namespace_ n, (setting.inBody b).Yields D
  | .statement namespace_ _ => (setting.atTop namespace_).Yields D

theorem Setting.yieldsIn (setting : Setting) (h : ∀ s : Setting, s.Yields D) (site : Site) :
    setting.YieldsIn D site := by
  cases site with
  | type namespace_ n => exact fun b _ => h _
  | statement namespace_ n => exact h _

theorem sound_addRoots (h : Sound D first l) (root : StatementId) :
    Sound D first (addNestedRoots { l with file := l.file.addRoot root }) :=
  h.of_statements rfl ((statements_addNestedRoots _).trans (statements_addRoot ..))

theorem sound_lowerBody {setting : Setting} {b : MemberBody} (hD : (setting.inBody b).Yields D)
    (h : Sound D first l) : Sound D first (lowerBody setting b l) := by
  have hbody : Sound D first (Lowering.within ((setting.inBody b).parameters b.member)
      (Setting.block ((setting.inBody b).statement maxStatementDepth) b.body) l).1 :=
    keeps_within (Setting.keeps_block (Setting.keeps_statement hD maxStatementDepth) b.body)
      (hD.all_parameters b.member) l h
  exact sound_addRoots hbody _

/-- The state between two sites: the statements and the scopes of the site and of the file are as
they are asked to be. -/
structure FileLowering.Sound (D : Demands) (f : FileLowering) : Prop where
  lowering : CSharp.Sound D 0 f.lowering
  globals : f.globals.All D.symbol

section Sites

variable {setting : Setting}

theorem sound_lowerBodies {bodies : List MemberBody}
    (hD : ∀ b ∈ bodies, (setting.inBody b).Yields D) (h : Sound D first l) :
    Sound D first (bodies.foldl (fun l b => lowerBody setting b l) l) := by
  induction bodies generalizing l with
  | nil => exact h
  | cons b rest ih =>
    obtain ⟨hbody, hrest⟩ := List.forall_mem_cons.mp hD
    exact ih hrest (sound_lowerBody hbody h)

theorem lowering_lowerSite_type (setting : Setting) (f : FileLowering) (namespace_ : String)
    (n : Node) : (lowerSite setting f (.type namespace_ n)).lowering =
      (bodiesOf setting.source namespace_ n).foldl (fun l b => lowerBody setting b l)
        f.lowering :=
  rfl

theorem sound_lowerSite {f : FileLowering} (h : f.Sound D) {site : Site}
    (hD : setting.YieldsIn D site) : (lowerSite setting f site).Sound D := by
  cases site with
  | type namespace_ n => exact ⟨sound_lowerBodies hD h.lowering, h.globals⟩
  | statement namespace_ n =>
    unfold lowerSite
    dsimp only
    split
    · exact h
    · rename_i child _
      have hstart := h.lowering.rescope (List.forall_mem_cons.mpr ⟨h.globals, h.lowering.scopes⟩)
      have hend : CSharp.Sound D 0 ((setting.atTop namespace_).statement maxStatementDepth child
          { f.lowering with scopes := f.globals :: f.lowering.scopes }).1 :=
        Setting.keeps_statement hD maxStatementDepth child _ hstart
      exact ⟨hend.rescope fun scope hscope => hend.scopes scope (List.mem_of_mem_tail hscope),
        Demands.scoped_headD hend.scopes⟩

theorem sound_lowerSites {sites : List Site} (hD : ∀ site ∈ sites, setting.YieldsIn D site)
    {f : FileLowering} (h : f.Sound D) : (sites.foldl (lowerSite setting) f).Sound D := by
  induction sites generalizing f with
  | nil => exact h
  | cons site rest ih =>
    obtain ⟨hsite, hrest⟩ := List.forall_mem_cons.mp hD
    exact ih hrest (sound_lowerSite h hsite)

theorem sound_start (path source : String) : (FileLowering.start path source).Sound D where
  lowering := ⟨List.forall_mem_nil _, fun id t _ ht => by
    simp [FileLowering.start, SourceFile.new, get?] at ht⟩
  globals := Table.all_empty

theorem sound_closeStatements {f : FileLowering} (h : f.Sound D) {id : StatementId} {s : Statement}
    (hs : (closeStatements f).get? id = some s) : D.Kind s.kind := by
  unfold closeStatements at hs
  split at hs
  · have hblock : ∀ span, Sound D 0 (push (.block f.statements) span f.lowering).1 :=
      fun span => h.lowering.push span (Demands.kind_plain rfl rfl)
    exact (sound_addRoots (hblock _) _).statements id s (Nat.zero_le id) hs
  · exact h.lowering.statements id s (Nat.zero_le id) hs

/-- What lowering gives in all sites of a file holds of all that the file stores. -/
theorem of_get?_lowerFile {path source : String} {index : SymbolIndex} {root : Node}
    (hD : ∀ site ∈ sites source root, (fileSetting source index root).YieldsIn D site)
    {id : StatementId} {s : Statement}
    (hs : (lowerFile path source index root).get? id = some s) : D.Kind s.kind :=
  sound_closeStatements (sound_lowerSites hD (sound_start path source)) hs

/-- A property that lowering gives in every setting is one of all expressions of a file. -/
theorem of_mem_expressions_lowerFile {Q : Expression → Prop}
    (hQ : ∀ setting : Setting, setting.Yields (demandsOf Q)) {path source : String}
    {index : SymbolIndex} {root : Node} {id : StatementId} {s : Statement}
    (hs : (lowerFile path source index root).get? id = some s) : ∀ e ∈ s.kind.expressions, Q e :=
  (of_get?_lowerFile (fun site _ => Setting.yieldsIn _ hQ site) hs).expressions

end Sites

end CSharp

end Foresight
