import Foresight.Proofs.CSharp.Bare

/-!
# Comments and lowering

Every rule of lowering finds what it needs by field or by kind, or by a place among the named
children where a clear tree has no comment. So each rule overlooks the comments in a clear tree as
long as the function for the operands does (`Overlooks`), and by induction on the room so do
expressions, statements and files: the model of a file is that of its tree without comments
(`lowerFile_bare`). The condition is needed: what stands first behind a `return` is taken for its
value, and a comment there too (`return_takes_comment`).
-/

namespace Foresight.CSharp

/-- What a function gives for a clear tree does not depend on the comments in it. -/
def Overlooks {α : Type} (f : Node → α) : Prop := ∀ n : Node, n.Clear → f n.bare = f n

open Node

/-! ## Expressions -/

section Expressions

variable {p : Place} {lower : Node → Expression}

@[simp] theorem Place.text_bare (n : Node) : p.text n.bare = p.text n := n.text_bare p.source

theorem lowerIdentifier_bare (isCalled : Bool) (n : Node) :
    lowerIdentifier p isCalled n.bare = lowerIdentifier p isCalled n := by
  simp only [lowerIdentifier, Place.text_bare]

theorem operatorText_bare (n left right : Node) (otherwise : String) :
    operatorText p n.bare left.bare right.bare otherwise =
      operatorText p n left right otherwise := by
  unfold operatorText
  rw [n.child?_bare (by decide), stop_bare, start_bare]
  cases n.child? "operator" with
  | none => rfl
  | some operator => exact Place.text_bare operator

theorem argumentNodes_bare {list : Option Node} (h : ∀ c ∈ list, c.Clear) :
    argumentNodes p (list.map bare) = (argumentNodes p list).map (Prod.map id bare) := by
  cases list with
  | none => rfl
  | some list =>
    simp only [argumentNodes, Option.map_some]
    rw [namedChildren_bare, (steady_kind (· == "argument") rfl).filter_bareAll,
      List.filterMap_map, List.map_filterMap]
    refine List.filterMap_congr fun a ha => ?_
    obtain ⟨hmem, hkind⟩ := List.mem_filter.mp ha
    have ha : a.Clear := (h list rfl).of_mem (mem_of_mem_namedChildren hmem)
    rw [Function.comp_apply, ha.getLast?_bare (beq_iff_eq.mp hkind), a.child?_bare (by decide)]
    cases a.namedChildren.getLast? with
    | none => rfl
    | some value => cases a.child? "name" <;> simp

theorem clear_of_mem_argumentNodes {list : Option Node} (h : ∀ c ∈ list, c.Clear)
    {a : Option String × Node} (ha : a ∈ argumentNodes p list) : a.2.Clear := by
  cases list with
  | none => cases ha
  | some list =>
    obtain ⟨argument, hargument, heq⟩ := List.mem_filterMap.mp ha
    obtain ⟨value, hvalue, rfl⟩ := Option.map_eq_some_iff.mp heq
    have hmem := mem_of_mem_namedChildren (List.mem_filter.mp hargument).1
    exact ((h list rfl).of_mem hmem).of_mem
      (mem_of_mem_namedChildren (List.mem_of_getLast? hvalue))

namespace Overlooks

variable (h : Overlooks lower)

include h

theorem child {n c : Node} {field : String} (hn : n.Clear) (hc : n.child? field = some c) :
    lower c.bare = lower c :=
  h c (hn.of_mem (mem_of_child? hc))

theorem arguments {list : Option Node} (hlist : ∀ c ∈ list, c.Clear)
    (declared : Option (List String)) :
    lowerArguments lower declared ((argumentNodes p list).map (Prod.map id bare)) =
      lowerArguments lower declared (argumentNodes p list) := by
  unfold lowerArguments
  rw [List.zipIdx_map, List.map_map]
  refine List.map_congr_left fun ⟨a, position⟩ ha => ?_
  have hvalue := clear_of_mem_argumentNodes hlist (List.fst_mem_of_mem_zipIdx ha)
  simp [h a.2 hvalue]

theorem memberAccess (isCalled : Bool) : Overlooks (lowerMemberAccess p lower isCalled) := by
  intro n hn
  unfold lowerMemberAccess
  rw [n.child?_bare (by decide), n.child?_bare (by decide)]
  cases hreceiver : n.child? "expression" with
  | none => simp
  | some receiver => cases n.child? "name" <;> simp [h.child hn hreceiver]

theorem invocation : Overlooks (lowerInvocation p lower) := by
  intro n hn
  have hlist : ∀ c ∈ n.child? "arguments", c.Clear := fun c hc => hn.of_mem (mem_of_child? hc)
  unfold lowerInvocation
  rw [n.child?_bare (by decide), n.child?_bare (by decide)]
  cases hfunction : n.child? "function" with
  | none => simp
  | some function =>
    have hclear : function.Clear := hn.of_mem (mem_of_child? hfunction)
    simp [argumentNodes_bare hlist, h.arguments hlist, h.memberAccess true function hclear,
      lowerIdentifier_bare, h function hclear]

theorem creation : Overlooks (lowerCreation p lower) := by
  intro n hn
  have hlist : ∀ c ∈ n.child? "arguments", c.Clear := fun c hc => hn.of_mem (mem_of_child? hc)
  unfold lowerCreation
  rw [n.child?_bare (by decide), n.child?_bare (by decide)]
  cases n.child? "type" <;> simp [argumentNodes_bare hlist, h.arguments hlist]

theorem binary : Overlooks (lowerBinary p lower) := by
  intro n hn
  unfold lowerBinary
  rw [n.child?_bare (by decide), n.child?_bare (by decide)]
  cases hleft : n.child? "left" with
  | none => simp
  | some left =>
    cases hright : n.child? "right" with
    | none => simp
    | some right => simp [operatorText_bare, h.child hn hleft, h.child hn hright]

theorem assignment : Overlooks (lowerAssignment p lower) := by
  intro n hn
  unfold lowerAssignment
  rw [n.child?_bare (by decide), n.child?_bare (by decide)]
  cases hleft : n.child? "left" with
  | none => simp
  | some left =>
    cases hright : n.child? "right" with
    | none => simp
    | some right => simp [operatorText_bare, h.child hn hleft, h.child hn hright]

theorem unary {n : Node} (hn : n.Clear) (hkind : headKinds.contains n.kind = true) :
    lowerUnary p lower n.bare = lowerUnary p lower n := by
  have hoperand : n.bare.children.find? (·.isNamed) = (n.children.find? (·.isNamed)).map bare := by
    rw [← List.head?_filter, ← List.head?_filter]
    exact hn.head?_bare hkind
  have htoken : n.bare.children.find? (!·.isNamed) = (n.children.find? (!·.isNamed)).map bare := by
    rw [children_bare, steady_unnamed.find?_bareAll]
  unfold lowerUnary
  rw [hoperand, htoken]
  cases hfind : n.children.find? (·.isNamed) with
  | none => simp
  | some operand =>
    have hlower := h operand (hn.of_mem (List.mem_of_find?_eq_some hfind))
    cases n.children.find? (!·.isNamed) <;> simp [hlower]

theorem cast : Overlooks (lowerCast p lower) := by
  intro n hn
  unfold lowerCast
  rw [n.child?_bare (by decide), n.child?_bare (by decide)]
  cases n.child? "type" with
  | none => simp
  | some type =>
    cases hvalue : n.child? "value" with
    | none => simp
    | some value => simp [h.child hn hvalue]

theorem typeTest : Overlooks (lowerTypeTest p lower) := by
  intro n hn
  unfold lowerTypeTest
  rw [n.child?_bare (by decide), n.child?_bare (by decide)]
  cases hleft : n.child? "left" with
  | none => simp
  | some left => cases n.child? "right" <;> simp [h.child hn hleft]

theorem parenthesized {n : Node} (hn : n.Clear) (hkind : headKinds.contains n.kind = true) :
    lowerParenthesized p lower n.bare = lowerParenthesized p lower n := by
  unfold lowerParenthesized
  rw [hn.head?_bare hkind]
  cases hhead : n.namedChildren.head? with
  | none => simp
  | some inner =>
    have hlower := h inner (hn.of_mem (mem_of_mem_namedChildren (List.mem_of_mem_head? hhead)))
    simp [hlower]

theorem node : Overlooks (lowerNode p lower) := by
  intro n hn
  unfold lowerNode
  rw [kind_bare, Place.text_bare]
  cases literalTypes.lookup n.kind with
  | some type => rfl
  | none =>
    dsimp only
    split
    · exact lowerIdentifier_bare false n
    · exact h.memberAccess false n hn
    · exact h.invocation n hn
    · exact h.binary n hn
    · rename_i hkind
      exact h.unary hn (by rw [hkind]; rfl)
    · rename_i hkind
      exact h.unary hn (by rw [hkind]; rfl)
    · exact h.cast n hn
    · exact h.typeTest n hn
    · exact h.typeTest n hn
    · rename_i hkind
      exact h.parenthesized hn (by rw [hkind]; rfl)
    · simp only [lowerThis, Place.text_bare]
    · simp only [lowerThis, Place.text_bare]
    · exact h.creation n hn
    · exact h.creation n hn
    · exact h.assignment n hn
    · rfl

end Overlooks

theorem overlooks_lowerWithin (p : Place) : ∀ room : Nat, Overlooks (lowerWithin p room)
  | 0 => fun n _ => by rw [lowerWithin, Place.text_bare, lowerWithin]
  | room + 1 => (overlooks_lowerWithin p room).node

end Expressions

/-! ## Statements -/

section Statements

open Lowering Setting

theorem each_map_congr {α β γ : Type} {f : β → Step γ} {g : α → Step γ} {k : α → β}
    {items : List α} (h : ∀ a ∈ items, f (k a) = g a) : each f (items.map k) = each g items := by
  induction items with
  | nil => rfl
  | cons a rest ih =>
    funext l
    rw [List.map_cons, each, each, h a List.mem_cons_self,
      ih fun b hb => h b (List.mem_cons_of_mem _ hb)]

theorem ifSome_map_congr {α β γ : Type} {f : β → Step γ} {g : α → Step γ} {k : α → β}
    {item : Option α} (h : ∀ a ∈ item, f (k a) = g a) : ifSome f (item.map k) = ifSome g item := by
  cases item with
  | none => rfl
  | some a =>
    funext l
    rw [Option.map_some, ifSome, ifSome, h a rfl]

/-- Steps that leave no mark at a comment. -/
theorem each_bareAll {α : Type} {f : Node → Step α} {nodes : List Node}
    (h : ∀ n ∈ nodes, f n.bare = f n)
    (hcomment : ∀ n, n.isComment = true → ∀ l, (f n l).1 = l) (l : Lowering) :
    (each f (bareAll nodes) l).1 = (each f nodes l).1 := by
  induction nodes generalizing l with
  | nil => rfl
  | cons n rest ih =>
    have hrest := ih fun m hm => h m (List.mem_cons_of_mem _ hm)
    cases hn : n.isComment with
    | true => simp only [bareAll, hn, if_true, each, hcomment n hn, hrest]
    | false =>
      simp only [bareAll, hn, Bool.false_eq_true, if_false, each, h n List.mem_cons_self, hrest]

theorem steady_isStatement : Steady isStatement :=
  steady_kind (fun kind => kind == "block" || Text.endsWith "_statement" kind) (by decide)

theorem statements_bare (n : Node) : n.bare.statements = n.statements.map bare := by
  rw [statements, namedChildren_bare, steady_isStatement.filter_bareAll, statements]

variable (s : Setting)

theorem Setting.text_bare (n : Node) : s.text n.bare = s.text n := n.text_bare s.source

theorem writtenType_bare (n : Node) : s.writtenType n.bare = s.writtenType n := by
  unfold writtenType
  rw [n.child?_bare (by decide)]
  cases n.child? "type" with
  | none => rfl
  | some type => exact s.text_bare type

theorem parameters_bare (n : Node) : s.parameters n.bare = s.parameters n := by
  have hlist : Steady fun c => c.kind == "parameter_list" || c.kind == "bracketed_parameter_list" :=
    steady_kind (fun kind => kind == "parameter_list" || kind == "bracketed_parameter_list")
      (by decide)
  unfold parameters
  rw [n.child?_bare (by decide), namedChildren_bare, hlist.find?_bareAll]
  simp only [Option.orElse_eq_orElse, Option.orElse_eq_or, ← Option.map_or]
  generalize (n.child? "parameters").or _ = list
  cases list with
  | none => rfl
  | some list =>
    dsimp only [Option.map_some]
    rw [namedChildren_bare, (steady_kind (· == "parameter") rfl).filter_bareAll,
      List.filterMap_map]
    congr 1
    refine List.filterMap_congr fun c _ => ?_
    rw [Function.comp_apply, c.child?_bare (by decide), c.child?_bare (by decide)]
    cases c.child? "name" with
    | none => rfl
    | some name => cases c.child? "type" <;> simp [s.text_bare]

theorem overlooks_expression : Overlooks s.expression :=
  fun n hn => funext fun l =>
    overlooks_lowerWithin ⟨s.source, s.index, s.context, l.scopes⟩ _ n hn

theorem fieldExpression_bare {n : Node} (hn : n.Clear) {field : String} (hfield : field ≠ "") :
    s.fieldExpression n.bare field = s.fieldExpression n field := by
  funext l
  unfold fieldExpression
  rw [n.child?_bare hfield]
  cases hchild : n.child? field with
  | none => rfl
  | some c => exact congrFun (overlooks_expression s c (hn.of_mem (mem_of_child? hchild))) l

theorem declarator_bare {n : Node} (hn : n.Clear) (hkind : n.kind = "variable_declarator")
    (written : String) (name : Node) :
    s.declarator written n.bare name.bare = s.declarator written n name := by
  funext l
  unfold declarator
  rw [hn.initializer?_bare hkind, s.text_bare]
  cases hvalue : initializer? n with
  | none => rfl
  | some value =>
    have hlower := overlooks_expression s value (hn.of_within (within_initializer? hvalue))
    simp only [Option.map_some, hlower]

theorem mem_declarators {n : Node} {d : Node × Node} (h : d ∈ n.declarators) :
    d.1 ∈ n.children ∧ d.1.kind = "variable_declarator" := by
  obtain ⟨m, hm, heq⟩ := List.mem_filterMap.mp h
  obtain ⟨name, -, rfl⟩ := Option.map_eq_some_iff.mp heq
  obtain ⟨hmem, hkind⟩ := List.mem_filter.mp hm
  exact ⟨mem_of_mem_namedChildren hmem, beq_iff_eq.mp hkind⟩

theorem overlooks_variableDeclaration : Overlooks s.variableDeclaration := by
  intro n hn
  have heach : ∀ m : Node, s.variableDeclaration m =
      each (fun d => s.declarator (s.writtenType m) d.1 d.2) m.declarators := fun _ => rfl
  rw [heach, heach, declarators_bare, writtenType_bare]
  refine each_map_congr fun d hd => ?_
  obtain ⟨hmem, hkind⟩ := mem_declarators hd
  exact declarator_bare s (hn.of_mem hmem) hkind _ d.2

theorem isEmpty_each {α β : Type} (f : α → Step β) (items : List α) (l : Lowering) :
    (each f items l).2.isEmpty = items.isEmpty := by
  cases items <;> rfl

theorem isEmpty_variableDeclaration (n : Node) (l : Lowering) :
    (s.variableDeclaration n l).2.isEmpty = n.declarators.isEmpty :=
  isEmpty_each ..

theorem resources_bareAll {nodes : List Node} (hclear : ∀ n ∈ nodes, n.Clear)
    {declared : List Variable} {resource : Option Expression} {l : Lowering}
    (h : resource = none → ∀ c ∈ resource? (!declared.isEmpty) nodes, c.isComment = false) :
    s.resources (bareAll nodes) declared resource l = s.resources nodes declared resource l := by
  induction nodes generalizing declared resource l with
  | nil => rfl
  | cons n rest ih =>
    have hn : n.Clear := hclear n List.mem_cons_self
    replace ih := @ih fun m hm => hclear m (List.mem_cons_of_mem _ hm)
    rw [Setting.resources]
    by_cases hkind : n.kind == "variable_declaration"
    · have hcomment : n.isComment = false := by
        cases hn : n.isComment with
        | false => rfl
        | true => rw [kind_of_isComment hn] at hkind; cases hkind
      rw [bareAll, if_neg (by simp [hcomment]), Setting.resources, kind_bare, if_pos hkind,
        if_pos hkind, overlooks_variableDeclaration s n hn]
      refine ih fun hnone c hc => h hnone c ?_
      rwa [resource?, if_pos hkind, ← isEmpty_variableDeclaration s n l]
    · -- The first node that is no declaration is taken, so it is no comment; later ones are
      -- skipped, comments or not.
      rw [if_neg hkind]
      split
      · rename_i hfirst
        rw [Bool.and_eq_true, Option.isNone_iff_eq_none] at hfirst
        obtain ⟨hnone, hempty⟩ := hfirst
        have hcomment : n.isComment = false := h hnone n (by
          rw [resource?, if_neg hkind, hempty]
          rfl)
        rw [bareAll, if_neg (by simp [hcomment]), Setting.resources, kind_bare, if_neg hkind,
          if_pos (by simp [hnone, hempty]), overlooks_expression s n hn]
        exact ih fun hsome => by cases hsome
      · rename_i hlater
        have hrest : s.resources (bareAll rest) declared resource l =
            s.resources rest declared resource l := by
          refine ih fun hnone c hc => h hnone c ?_
          have hdeclared : declared.isEmpty = false := by
            simpa [hnone] using hlater
          rw [hdeclared] at hc ⊢
          rwa [resource?, if_neg hkind, Bool.not_false, if_pos rfl]
        cases hcomment : n.isComment with
        | true => rw [bareAll, if_pos hcomment, hrest]
        | false =>
          rw [bareAll, if_neg (by simp [hcomment]), Setting.resources, kind_bare, if_neg hkind,
            if_neg hlater, hrest]

variable {s} {inner : Node → Step StatementId}

namespace Overlooks

variable (h : Overlooks inner)

include h

theorem child_step {n : Node} (hn : n.Clear) {field : String} (hfield : field ≠ "") :
    ifSome inner (n.bare.child? field) = ifSome inner (n.child? field) := by
  rw [n.child?_bare hfield]
  exact ifSome_map_congr fun c hc => h c (hn.of_mem (mem_of_child? hc))

theorem block : Overlooks (Setting.block inner) := by
  intro n hn
  funext l
  unfold Setting.block
  rw [show n.bare.namedChildren.filter isStatement = n.statements.map bare from statements_bare n,
    each_map_congr fun c hc => h c (hn.of_mem (mem_of_mem_statements hc)), span_bare]
  rfl

theorem foreachStatement : Overlooks (s.foreachStatement inner) := by
  intro n hn
  funext l
  unfold Setting.foreachStatement
  rw [fieldExpression_bare s hn (by decide), writtenType_bare, h.child_step hn (by decide),
    n.child?_bare (by decide)]
  cases n.child? "left" <;> simp [s.text_bare]

theorem usingStatement {n : Node} (hn : n.Clear) (hkind : n.kind = "using_statement") :
    s.usingStatement inner n.bare = s.usingStatement inner n := by
  have hclear : ∀ c ∈ n.resources, c.Clear := fun c hc => hn.of_mem (mem_of_mem_resources hc)
  unfold Setting.usingStatement
  congr 1
  funext l
  have hresources : s.resources n.bare.resources [] none l = s.resources n.resources [] none l := by
    rw [n.resources_bare]
    exact resources_bareAll s hclear fun _ => hn.resource?_eq hkind
  dsimp only
  rw [show (dropFirst _ n.bare.children).filter _ = n.bare.resources from rfl, hresources,
    h.child_step hn (by decide)]
  rfl

theorem catchClause : Overlooks (s.catchClause inner) := by
  intro n hn
  funext l
  unfold Setting.catchClause
  rw [n.namedChild?_bare (by decide), n.childOr?_bare (by decide) (by decide),
    ifSome_map_congr fun c hc => h.block c (hn.of_mem (mem_of_childOr? hc))]
  cases n.namedChild? "catch_declaration" with
  | none => rfl
  | some declaration =>
    simp only [Option.map_some, Option.bind_some]
    rw [declaration.child?_bare (by decide), declaration.child?_bare (by decide)]
    simp only [Option.map_map, Function.comp_def, s.text_bare]

theorem clauses {nodes : List Node} (hclear : ∀ n ∈ nodes, n.Clear)
    (catches : List (CatchClause (Option StatementId))) (finally_ : Option StatementId) :
    s.clauses inner (bareAll nodes) catches finally_ = s.clauses inner nodes catches finally_ := by
  funext l
  induction nodes generalizing catches finally_ l with
  | nil => rfl
  | cons n rest ih =>
    have hn : n.Clear := hclear n List.mem_cons_self
    replace ih := ih fun m hm => hclear m (List.mem_cons_of_mem _ hm)
    cases hcomment : n.isComment with
    | true =>
      have hkind := kind_of_isComment hcomment
      rw [bareAll, if_pos hcomment, Setting.clauses, hkind, if_neg (by decide),
        if_neg (by decide)]
      exact ih ..
    | false =>
      have hfinally : ifSome (Setting.block inner) (n.bare.namedChild? "block") =
          ifSome (Setting.block inner) (n.namedChild? "block") := by
        rw [n.namedChild?_bare (by decide)]
        exact ifSome_map_congr fun c hc => h.block c (hn.of_mem (mem_of_namedChild? hc))
      rw [bareAll, if_neg (by simp [hcomment]), Setting.clauses, Setting.clauses, kind_bare,
        h.catchClause n hn, hfinally]
      simp only [ih]

theorem tryStatement : Overlooks (s.tryStatement inner) := by
  intro n hn
  have hclear : ∀ c ∈ n.namedChildren, c.Clear := fun c hc =>
    hn.of_mem (mem_of_mem_namedChildren hc)
  funext l
  unfold Setting.tryStatement
  rw [h.block.child_step hn (by decide), namedChildren_bare]
  simp only [h.clauses hclear]

theorem switchSection : Overlooks (Setting.switchSection inner) := by
  intro n hn
  funext l
  unfold Setting.switchSection
  rw [show n.bare.namedChildren.filter isStatement = n.statements.map bare from statements_bare n,
    each_map_congr fun c hc => h c (hn.of_mem (mem_of_mem_statements hc)), span_bare]
  rfl

theorem nestedChild : Overlooks (s.nestedChild inner) := by
  intro n hn
  have hsections : each (Setting.switchSection inner)
        (n.bare.namedChildren.filter (·.kind == "switch_section")) =
      each (Setting.switchSection inner)
        (n.namedChildren.filter (·.kind == "switch_section")) := by
    rw [namedChildren_bare, (steady_kind (· == "switch_section") rfl).filter_bareAll]
    refine each_map_congr fun c hc => h.switchSection c (hn.of_mem ?_)
    exact mem_of_mem_namedChildren (List.mem_filter.mp hc).1
  funext l
  unfold Setting.nestedChild
  dsimp only
  rw [kind_bare, overlooks_variableDeclaration s n hn, hsections, steady_isStatement.eq_bare,
    h n hn]

theorem nestedStatements : Overlooks (s.nestedStatements inner) := by
  intro n hn
  funext l
  unfold Setting.nestedStatements within
  rw [namedChildren_bare]
  dsimp only
  -- Every named child is visited here, comments too, but they leave no mark.
  rw [each_bareAll]
  · intro c hc
    exact h.nestedChild c (hn.of_mem (mem_of_mem_namedChildren hc))
  · intro c hc l
    rw [Setting.nestedChild, kind_of_isComment hc, if_neg (by decide), if_neg (by decide),
      steady_isStatement.eq_false c hc]
    rfl

theorem statementKind : Overlooks (s.statementKind inner) := by
  intro n hn
  funext l
  unfold Setting.statementKind
  rw [kind_bare]
  have hhead : ∀ e ∈ n.namedChildren.head?, s.expression e.bare l = s.expression e l := by
    intro e he
    have hmem := mem_of_mem_namedChildren (List.mem_of_mem_head? he)
    rw [overlooks_expression s e (hn.of_mem hmem)]
  split
  · rename_i hkind
    rw [hn.head?_bare (by rw [hkind]; rfl)]
    cases hfirst : n.namedChildren.head? with
    | none => rfl
    | some e => simp only [Option.map_some, hhead e hfirst]
  · rw [n.namedChild?_bare (by decide)]
    cases hchild : n.namedChild? "variable_declaration" with
    | none => rfl
    | some d =>
      have hd := overlooks_variableDeclaration s d (hn.of_mem (mem_of_namedChild? hchild))
      simp only [Option.map_some, hd]
  · rw [fieldExpression_bare s hn (by decide), h.child_step hn (by decide),
      h.child_step hn (by decide)]
  · rw [fieldExpression_bare s hn (by decide), h.child_step hn (by decide)]
  · rw [fieldExpression_bare s hn (by decide), h.child_step hn (by decide)]
  · rw [h.foreachStatement n hn]
  · rename_i hkind
    rw [h.usingStatement hn hkind]
  · rename_i hkind
    rw [hn.head?_bare (by rw [hkind]; rfl), Option.map_map]
    exact congrArg (fun value => (l, StatementKind.return_ value)) (Option.map_congr hhead)
  · rfl
  · rfl
  · rfl
  · rw [h.tryStatement n hn]
  · rw [parameters_bare, h.nestedStatements n hn]
  · rw [h.nestedStatements n hn]

end Overlooks

theorem overlooks_statement (s : Setting) : ∀ room : Nat, Overlooks (s.statement room)
  | 0 => fun n _ => by rw [statement, span_bare, statement]
  | room + 1 => fun n hn => by
    have h := overlooks_statement s room
    funext l
    rw [statement, statement, kind_bare, h.block n hn, h.statementKind n hn, span_bare]

end Statements

/-! ## Files -/

theorem lowerBody_bare (setting : Setting) {b : MemberBody} (h : b.body.Clear) (l : Lowering) :
    lowerBody setting b.bare l = lowerBody setting b l := by
  unfold lowerBody MemberBody.bare
  dsimp only
  rw [parameters_bare, (overlooks_statement _ _).block b.body h]

theorem lowerSite_bare (setting : Setting) (f : FileLowering) {site : Site} (hfits : site.Fits)
    (h : site.node.Clear) : lowerSite setting f site.bare = lowerSite setting f site := by
  cases site with
  | type namespace_ n =>
    rw [Site.bare, lowerSite, lowerSite, bodiesOf_bare, List.foldl_map, List.foldl_ext]
    intro l b hb
    exact lowerBody_bare setting (h.of_within (within_of_mem_bodiesOf _ _ n b hb)) l
  | statement namespace_ n =>
    have hkind : n.kind = "global_statement" := hfits
    have hclear : n.Clear := h
    rw [Site.bare, lowerSite, lowerSite, hclear.head?_bare (by rw [hkind]; rfl)]
    cases hhead : n.namedChildren.head? with
    | none => rfl
    | some child =>
      have hchild : child.Clear :=
        hclear.of_mem (mem_of_mem_namedChildren (List.mem_of_mem_head? hhead))
      simp only [Option.map_some, overlooks_statement _ _ child hchild]

/-- Comments do not affect the model of a file, unless one stands where a child is taken by its
place. -/
theorem lowerFile_bare (path source : String) (index : SymbolIndex) {root : Node}
    (h : root.Clear) :
    lowerFile path source index root.bare = lowerFile path source index root := by
  unfold lowerFile
  dsimp only
  rw [usings_bare, sites_bare, List.foldl_map, List.foldl_ext]
  intro f site hsite
  exact lowerSite_bare _ f (fits_of_mem_sites source hsite)
    (h.of_within (within_of_mem_sites source hsite))

/-- A method `int M()` of a class `A`, with a body behind its head. -/
def methodTree (statements : List Node) : Node :=
  let node (kind field : String) (start stop : Nat) (children : List Node) : Node :=
    ⟨kind, true, field, start, stop, children⟩
  let method := node "method_declaration" "" 10 39
    [node "predefined_type" "returns" 10 13 [], node "identifier" "name" 14 15 [],
      node "parameter_list" "parameters" 15 17 [], node "block" "body" 18 39 statements]
  node "compilation_unit" "" 0 41
    [node "class_declaration" "" 0 41
      [node "identifier" "name" 6 7 [], node "declaration_list" "body" 8 41 [method]]]

/-- The tree of `class A { int M() { /* c */ return 1; } }`, without its tokens. -/
def commentAhead : Node :=
  methodTree [⟨"comment", true, "", 20, 27, []⟩,
    ⟨"return_statement", true, "", 28, 37, [⟨"integer_literal", true, "", 35, 36, []⟩]⟩]

theorem lowerFile_bare_ahead :
    commentAhead.Clear ∧ (commentAhead.all fun n => !n.isComment) = false ∧
      lowerFile "A.cs" "class A { int M() { /* c */ return 1; } }" .empty commentAhead.bare =
        lowerFile "A.cs" "class A { int M() { /* c */ return 1; } }" .empty commentAhead := by
  have hclear : commentAhead.Clear := by decide
  exact ⟨hclear, by decide, lowerFile_bare _ _ _ hclear⟩

/-- The tree of `class A { int M() { return /* c */ 1; } }`, without its tokens. -/
def commentInside : Node :=
  methodTree [⟨"return_statement", true, "", 20, 37,
    [⟨"comment", true, "", 27, 34, []⟩, ⟨"integer_literal", true, "", 35, 36, []⟩]⟩]

/-- The model of that source, with comments in its tree or not. -/
def insideModel (root : Node) : SourceFile :=
  lowerFile "A.cs" "class A { int M() { return /* c */ 1; } }" .empty root

/-- A comment behind `return` is taken for the value. -/
theorem return_takes_comment :
    (insideModel commentInside).get? 0 =
        some ⟨.return_ (some (.raw "/* c */")), some 1, ⟨20, 37⟩, none⟩ ∧
      (insideModel commentInside.bare).get? 0 =
        some ⟨.return_ (some ⟨"1", .resolved ⟨"int", "System.Int32"⟩, .literal⟩), some 1, ⟨20, 37⟩,
          none⟩ ∧
      insideModel commentInside.bare ≠ insideModel commentInside := by
  have hcomment : (insideModel commentInside).get? 0 =
      some ⟨.return_ (some (.raw "/* c */")), some 1, ⟨20, 37⟩, none⟩ := by rfl
  have hvalue : (insideModel commentInside.bare).get? 0 =
      some ⟨.return_ (some ⟨"1", .resolved ⟨"int", "System.Int32"⟩, .literal⟩), some 1, ⟨20, 37⟩,
        none⟩ := by rfl
  refine ⟨hcomment, hvalue, fun h => ?_⟩
  rw [h, hcomment] at hvalue
  simp [Expression.raw] at hvalue

end Foresight.CSharp
