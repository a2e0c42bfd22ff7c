import Mathlib.Order.Defs.Unbundled
import Foresight.Proofs.Table
import Foresight.Proofs.CSharp.Counting

/-!
# Lowering in balance

Lowering that counts comes back from every rule to the counters that it started from. What a rule
does to the stack of scopes goes with it (`Balanced`): a statement lets the innermost scope gain
names (`Gains`), and a rule that opens a scope leaves the whole stack as it was.

Counting makes no difference to what is lowered. A counter leaves as much room as is missing to the
limit, and that is the room that the other rules are told (`settles_expressionFrom`,
`balanced_statementFrom`). Counters grow on the way in, so both are inductions on the levels and not
on the tree.
-/

namespace Foresight.CSharp

/-! ## The stack of scopes -/

/-- One stack after another: the innermost scope may have gained names or have bound them anew, and
the scopes below it are those that they were. -/
inductive Gains : Scopes → Scopes → Prop where
  | empty : Gains [] []
  | innermost {scope scope' : Table Foresight.Symbol} (outer : Scopes) :
      scope.names ⊆ scope'.names → Gains (scope :: outer) (scope' :: outer)

namespace Gains

variable {scopes scopes' scopes'' : Scopes}

theorem refl : (scopes : Scopes) → Gains scopes scopes
  | [] => .empty
  | scope :: outer => .innermost outer (List.Subset.refl scope.names)

theorem trans (h : Gains scopes scopes') (h' : Gains scopes' scopes'') : Gains scopes scopes'' := by
  cases h with
  | empty => exact h'
  | innermost outer hnames =>
    cases h' with
    | innermost _ hnames' => exact .innermost outer (List.Subset.trans hnames hnames')

theorem tail_eq (h : Gains scopes scopes') : scopes'.tail = scopes.tail := by
  cases h <;> rfl

end Gains

instance : IsPreorder Scopes Gains where
  refl := Gains.refl
  trans _ _ _ := Gains.trans

theorem gains_declare (name : String) (type : TypeInfo) (l : Lowering) :
    Gains l.scopes (l.declare name type).scopes := by
  unfold Lowering.declare
  split
  · exact .refl _
  · rename_i innermost outer hscopes
    rw [hscopes]
    refine .innermost outer fun other hother => ?_
    exact (Table.mem_names_insert _).mpr (Or.inr hother)

namespace Counting

variable {α β : Type}

/-! ## Expressions -/

/-- From `k`, a count gives `a` and is back at `k`. -/
def Settles (k : Nat) (c : StateM Nat α) (a : α) : Prop := c k = (a, k)

section Expressions

variable {k : Nat} {p : Place} {lower : Node → StateM Nat Expression}
  {lower' : Node → Expression}

theorem settles_pure (a : α) : Settles k (pure a) a := rfl

theorem Settles.bind {c : StateM Nat α} {a : α} {f : α → StateM Nat β} {b : β}
    (h : Settles k c a) (h' : Settles k (f a) b) : Settles k (c >>= f) b := by
  show f (c k).1 (c k).2 = (b, k)
  rw [h]
  exact h'

theorem Settles.map {c : StateM Nat α} {a : α} (h : Settles k c a) (f : α → β) :
    Settles k (f <$> c) (f a) := by
  show (f (c k).1, (c k).2) = (f a, k)
  rw [h]

theorem settles_mapM {f : α → StateM Nat β} {g : α → β} (h : ∀ a, Settles k (f a) (g a))
    (items : List α) : Settles k (items.mapM f) (items.map g) := by
  induction items with
  | nil => rfl
  | cons a rest ih =>
    rw [List.mapM_cons]
    exact (h a).bind (ih.bind rfl)

variable (h : ∀ n, Settles k (lower n) (lower' n))

include h

theorem settles_overOperand {operand : Option Node} {rule : (Node → Expression) → Expression}
    (hrule : rule (fun _ => (operand.map lower').getD default) = rule lower') :
    Settles k (overOperand lower operand rule) (rule lower') := by
  rw [← hrule]
  have hvalue : Settles k (operand.mapM lower) (operand.map lower') := by
    cases operand with
    | none => exact settles_pure none
    | some n => exact (h n).map some
  exact hvalue.bind (settles_pure _)

theorem settles_memberAccess (isCalled : Bool) (n : Node) :
    Settles k (memberAccess p lower isCalled n) (lowerMemberAccess p lower' isCalled n) := by
  refine settles_overOperand h ?_
  unfold lowerMemberAccess
  cases n.child? "name" <;> cases n.child? "expression" <;> rfl

theorem settles_arguments (declared : Option (List String))
    (given : List (Option String × Node)) :
    Settles k (arguments lower declared given) (lowerArguments lower' declared given) := by
  refine settles_mapM ?_ _
  rintro ⟨⟨name, value⟩, position⟩
  exact (h value).bind (settles_pure _)

theorem settles_invocation (n : Node) :
    Settles k (invocation p lower n) (lowerInvocation p lower' n) := by
  unfold invocation lowerInvocation
  cases n.child? "function" with
  | none => exact settles_pure _
  | some function =>
    have hinvoked : Settles k (invoked p lower function)
        (if function.kind == "member_access_expression" then
            lowerMemberAccess p lower' true function
          else if function.kind == "identifier" then lowerIdentifier p true function
          else lower' function) := by
      unfold invoked
      split
      · exact settles_memberAccess h true function
      · split
        · exact settles_pure _
        · exact h function
    exact hinvoked.bind ((settles_arguments h _ _).bind (settles_pure _))

theorem settles_creation (n : Node) :
    Settles k (creation p lower n) (lowerCreation p lower' n) := by
  unfold creation lowerCreation
  cases n.child? "type" <;> exact (settles_arguments h _ _).bind (settles_pure _)

theorem settles_binary (n : Node) :
    Settles k (binary p lower n) (lowerBinary p lower' n) := by
  unfold binary lowerBinary
  cases n.child? "left" with
  | none => exact settles_pure _
  | some left =>
    cases n.child? "right" with
    | none => exact settles_pure _
    | some right => exact (h left).bind ((h right).bind (settles_pure _))

theorem settles_assignment (n : Node) :
    Settles k (assignment p lower n) (lowerAssignment p lower' n) := by
  unfold assignment lowerAssignment
  cases n.child? "left" with
  | none => exact settles_pure _
  | some left =>
    cases n.child? "right" with
    | none => exact settles_pure _
    | some right => exact (h left).bind ((h right).bind (settles_pure _))

theorem settles_unary (n : Node) :
    Settles k (overOperand lower (n.children.find? (·.isNamed)) fun value => lowerUnary p value n)
      (lowerUnary p lower' n) := by
  refine settles_overOperand h ?_
  unfold lowerUnary
  cases n.children.find? (·.isNamed) <;> rfl

theorem settles_expressionNode (n : Node) :
    Settles k (expressionNode p lower n) (lowerNode p lower' n) := by
  unfold expressionNode lowerNode
  cases literalTypes.lookup n.kind with
  | some type => exact settles_pure _
  | none =>
    dsimp only
    generalize n.kind = kind
    split
    · exact settles_pure _
    · exact settles_memberAccess h false n
    · exact settles_invocation h n
    · exact settles_binary h n
    · exact settles_unary h n
    · exact settles_unary h n
    · refine settles_overOperand h ?_
      unfold lowerCast
      cases n.child? "type" <;> cases n.child? "value" <;> rfl
    · refine settles_overOperand h ?_
      unfold lowerTypeTest
      cases n.child? "right" <;> cases n.child? "left" <;> rfl
    · refine settles_overOperand h ?_
      unfold lowerTypeTest
      cases n.child? "right" <;> cases n.child? "left" <;> rfl
    · refine settles_overOperand h ?_
      unfold lowerParenthesized
      cases n.namedChildren.head? <;> rfl
    · exact settles_pure _
    · exact settles_pure _
    · exact settles_creation h n
    · exact settles_creation h n
    · exact settles_assignment h n
    · refine (congrArg (Settles k _) ?_).mpr (settles_pure (Expression.raw (p.text n)))
      grind

end Expressions

theorem Settles.inExpression {k : Nat} {c : StateM Nat α} {a : α} (h : Settles (k + 1) c a) :
    Settles k (Counting.inExpression c) a := by
  show ((c (k + 1)).1, (c (k + 1)).2 - 1) = (a, k)
  rw [h]
  rfl

/-- A counter at `k` leaves the room that is missing to the limit. -/
theorem settles_expressionFrom (p : Place) {levels k : Nat}
    (hlevels : Expression.maxDepth - k < levels) (n : Node) :
    Settles k (expressionFrom p levels n) (lowerWithin p (Expression.maxDepth - k) n) := by
  induction levels generalizing k n with
  | zero => exact absurd hlevels (Nat.not_lt_zero _)
  | succ levels ih =>
    unfold expressionFrom
    refine Settles.bind (a := k) rfl ?_
    split
    · rename_i hdeep
      rw [Nat.sub_eq_zero_of_le hdeep]
      exact settles_pure _
    · have hroom : Expression.maxDepth - k = Expression.maxDepth - (k + 1) + 1 := by omega
      have hinside : ∀ m, Settles (k + 1) (expressionFrom p levels m)
          (lowerWithin p (Expression.maxDepth - (k + 1)) m) := ih (by omega)
      rw [hroom]
      exact (settles_expressionNode hinside n).inExpression

/-! ## Steps in balance -/

/-- From `d`, a step that counts comes back to `d`, and leaves the stack of scopes as `R` says. As
long as no expression is being lowered, it does what `step` does. -/
structure Balanced (R : Scopes → Scopes → Prop) (d : Depths) (c : Counting α) (step : Step α) :
    Prop where
  depths : ∀ l, (c (d, l)).2.1 = d
  scopes : ∀ l, R l.scopes (c (d, l)).2.2.scopes
  agrees : d.expressions = 0 → ∀ l, c (d, l) = ((step l).2, d, (step l).1)

section Steps

variable {R : Scopes → Scopes → Prop} {d : Depths} {c : Counting α} {step : Step α}

theorem Balanced.gains (h : Balanced Eq d c step) : Balanced Gains d c step :=
  ⟨h.depths, fun l => h.scopes l ▸ .refl l.scopes, h.agrees⟩

theorem balanced_flat (h : ∀ l, R l.scopes (step l).1.scopes) : Balanced R d (flat step) step :=
  ⟨fun _ => rfl, h, fun _ _ => rfl⟩

/-- A scope that is opened around a step is closed behind it, whatever names it has gained. -/
theorem Balanced.within (h : Balanced Gains d c step) (scope : Table Foresight.Symbol) :
    Balanced Eq d (Counting.within scope c) (Lowering.within scope step) := by
  refine ⟨fun l => h.depths _, fun l => ?_, fun hd l => ?_⟩
  · exact (h.scopes { l with scopes := scope :: l.scopes }).tail_eq.symm
  · have hagrees := h.agrees hd { l with scopes := scope :: l.scopes }
    exact congrArg (fun r => (r.1, r.2.1, { r.2.2 with scopes := r.2.2.scopes.tail })) hagrees

theorem Balanced.inStatement
    (h : Balanced R { d with statements := d.statements + 1 } c step) :
    Balanced R d (Counting.inStatement c) step := by
  have hdepths : ∀ l, ((Counting.inStatement c) (d, l)).2.1 = d := fun l =>
    congrArg (fun d' : Depths => { d' with statements := d'.statements - 1 }) (h.depths l)
  refine ⟨hdepths, h.scopes, fun hd l => ?_⟩
  have hagrees := h.agrees hd l
  exact congrArg
    (fun r => (r.1, { r.2.1 with statements := r.2.1.statements - 1 }, r.2.2)) hagrees

theorem Balanced.ite {q : Prop} [Decidable q] {c' : Counting α} {step' : Step α}
    (h : q → Balanced R d c step) (h' : ¬ q → Balanced R d c' step') :
    Balanced R d (if q then c else c') fun l => if q then step l else step' l := by
  by_cases hq : q
  · simp only [if_pos hq]
    exact h hq
  · simp only [if_neg hq]
    exact h' hq

/-- A step may look at the counters. -/
theorem Balanced.counted {f : Depths → Counting α} (h : Balanced R d (f d) step) :
    Balanced R d (do f (← get).1) step :=
  ⟨h.depths, h.scopes, h.agrees⟩

/-- What holds of the stack while counting holds of the rules that are told their room. -/
theorem Balanced.scopes_step {k : Nat} (h : Balanced R ⟨k, 0⟩ c step) (l : Lowering) :
    R l.scopes (step l).1.scopes := by
  have hscopes := h.scopes l
  rwa [h.agrees rfl] at hscopes

variable [IsPreorder Scopes R]

theorem balanced_pure (a : α) : Balanced R d (pure a) fun l => (l, a) :=
  ⟨fun _ => rfl, fun l => refl_of R l.scopes, fun _ _ => rfl⟩

theorem Balanced.bind {f : α → Counting β} {g : α → Step β} (h : Balanced R d c step)
    (h' : ∀ a, Balanced R d (f a) (g a)) :
    Balanced R d (c >>= f) fun l => g (step l).2 (step l).1 := by
  have hrun : ∀ l, (c >>= f) (d, l) = f (c (d, l)).1 (d, (c (d, l)).2.2) := fun l =>
    congrArg (fun d' => f (c (d, l)).1 (d', (c (d, l)).2.2)) (h.depths l)
  refine ⟨fun l => ?_, fun l => ?_, fun hd l => ?_⟩
  · rw [hrun]
    exact (h' _).depths _
  · rw [hrun]
    exact trans_of R (h.scopes l) ((h' _).scopes _)
  · rw [hrun, h.agrees hd]
    exact (h' _).agrees hd _

theorem Balanced.each {f : α → Counting β} {g : α → Step β} (h : ∀ a, Balanced R d (f a) (g a))
    (items : List α) : Balanced R d (items.mapM f) (Lowering.each g items) := by
  induction items with
  | nil => exact balanced_pure []
  | cons a rest ih =>
    rw [List.mapM_cons]
    exact (h a).bind fun b => ih.bind fun bs => balanced_pure (b :: bs)

theorem Balanced.ifSome {f : α → Counting β} {g : α → Step β} (h : ∀ a, Balanced R d (f a) (g a))
    (item : Option α) : Balanced R d (item.mapM f) (Lowering.ifSome g item) := by
  cases item with
  | none => exact balanced_pure none
  | some a =>
    show Balanced R d (some <$> f a) _
    rw [← bind_pure_comp]
    exact (h a).bind fun b => balanced_pure (some b)

variable (s : Setting)

theorem balanced_expression (n : Node) :
    Balanced R d (expression s n) fun l => (l, s.expression n l) := by
  have hsettles := fun l : Lowering => settles_expressionFrom
    ⟨s.source, s.index, s.context, l.scopes⟩
    (Nat.lt_succ_of_le (Nat.sub_le Expression.maxDepth d.expressions)) n
  have hrun : ∀ l, expression s n (d, l) = (lowerWithin
      ⟨s.source, s.index, s.context, l.scopes⟩ (Expression.maxDepth - d.expressions) n, d, l) :=
    fun l => congrArg (fun r : Expression × Nat => (r.1, (⟨d.statements, r.2⟩ : Depths), l))
      (hsettles l)
  refine ⟨fun l => by rw [hrun], fun l => by rw [hrun]; exact refl_of R l.scopes, fun hd l => ?_⟩
  rw [hrun, hd]
  rfl

theorem balanced_fieldExpression (n : Node) (field : String) :
    Balanced R d (fieldExpression s n field) fun l => (l, s.fieldExpression n field l) := by
  unfold fieldExpression Setting.fieldExpression
  cases n.child? field with
  | none => exact balanced_pure _
  | some e => exact balanced_expression s e

theorem balanced_optionalExpression (item : Option Node) :
    Balanced R d (item.mapM (expression s)) fun l => (l, item.map fun e => s.expression e l) := by
  have h : Balanced R d _ _ := Balanced.ifSome (balanced_expression s) item
  cases item with
  | none => exact h
  | some e => exact h

theorem balanced_push (kind : StatementKind) (span : Span) :
    Balanced R d (flat (Lowering.push kind span)) (Lowering.push kind span) :=
  balanced_flat fun l => refl_of R l.scopes

theorem balanced_addNestedRoot (id : StatementId) :
    Balanced R d (flat fun l => (Setting.addNestedRoot id l, ()))
      fun l => (Setting.addNestedRoot id l, ()) :=
  balanced_flat fun l => refl_of R l.scopes

end Steps

/-! ## Rules in balance -/

section Rules

variable (s : Setting) {d : Depths}

theorem balanced_declare (name : String) (type : TypeInfo) :
    Balanced Gains d (declare name type) fun l => (l.declare name type, ()) :=
  balanced_flat fun l => gains_declare name type l

theorem balanced_declarator (writtenType : String) (n name : Node) :
    Balanced Gains d (declarator s writtenType n name) (s.declarator writtenType n name) :=
  (balanced_optionalExpression s (Setting.initializer? n)).bind fun _ =>
    (balanced_declare _ _).bind fun _ => balanced_pure _

theorem balanced_variableDeclaration (n : Node) :
    Balanced Gains d (variableDeclaration s n) (s.variableDeclaration n) := by
  refine Balanced.each ?_ _
  rintro ⟨m, name⟩
  exact balanced_declarator s _ m name

theorem balanced_resources (nodes : List Node) (declared : List Variable)
    (resource : Option Expression) :
    Balanced Gains d (resources s nodes declared resource)
      (s.resources nodes declared resource) := by
  induction nodes generalizing declared resource with
  | nil => exact balanced_pure _
  | cons n rest ih =>
    refine Balanced.ite (fun _ => ?_) fun _ => Balanced.ite (fun _ => ?_) fun _ => ?_
    · exact (balanced_variableDeclaration s n).bind fun declared => ih declared resource
    · exact (balanced_expression s n).bind fun e => ih declared (some e)
    · exact ih declared resource

variable {inner : Node → Counting StatementId} {inner' : Node → Step StatementId}
  (h : ∀ n, Balanced Gains d (inner n) (inner' n))

include h

theorem balanced_block (n : Node) :
    Balanced Eq d (block inner n) (Setting.block inner' n) :=
  (Balanced.within (Balanced.each h _) .empty).bind fun _ => balanced_push _ _

theorem balanced_foreachStatement (n : Node) :
    Balanced Eq d (foreachStatement s inner n) (s.foreachStatement inner' n) := by
  have hbody : ∀ name type, Balanced Gains d
      (do declare name type; (n.child? "body").mapM inner)
      fun l => Lowering.ifSome inner' (n.child? "body") (l.declare name type) := fun name type =>
    (balanced_declare name type).bind fun _ => Balanced.ifSome h _
  exact (balanced_fieldExpression s n "right").bind fun _ =>
    ((hbody _ _).within .empty).bind fun _ => balanced_pure _

theorem balanced_usingStatement (n : Node) :
    Balanced Eq d (usingStatement s inner n) (s.usingStatement inner' n) := by
  unfold usingStatement Setting.usingStatement
  extract_lets others
  have hbody := fun r : List Variable × Option Expression =>
    (Balanced.ifSome h (n.child? "body")).bind fun body =>
      balanced_pure (StatementKind.using_ r.1 r.2 body)
  exact ((balanced_resources s others [] none).bind hbody).within .empty

theorem balanced_catchClause (n : Node) :
    Balanced Eq d (catchClause s inner n) (s.catchClause inner' n) := by
  unfold catchClause Setting.catchClause
  extract_lets declaration written variable_ type enter written' variable' type' enter'
  have henter : Balanced Gains d enter fun l => (enter' l, ()) := by
    unfold enter enter' type type' variable_ variable' written written'
    generalize Option.map s.resolveType _ = type
    generalize Option.map s.text _ = name
    cases name with
    | none => exact balanced_pure ()
    | some name =>
      cases type with
      | none => exact balanced_pure ()
      | some type => exact balanced_declare name type
  have hbody := henter.bind fun _ =>
    Balanced.ifSome (fun m => (balanced_block h m).gains) (n.childOr? "body" "block")
  exact (hbody.within .empty).bind fun _ => balanced_pure _

theorem balanced_clauses (nodes : List Node)
    (catches : List (CatchClause (Option StatementId))) (finally_ : Option StatementId) :
    Balanced Eq d (clauses s inner nodes catches finally_)
      (s.clauses inner' nodes catches finally_) := by
  induction nodes generalizing catches finally_ with
  | nil => exact balanced_pure _
  | cons n rest ih =>
    refine Balanced.ite (fun _ => ?_) fun _ => Balanced.ite (fun _ => ?_) fun _ => ?_
    · exact (balanced_catchClause s h n).bind fun clause => ih (catches ++ [clause]) finally_
    · exact (Balanced.ifSome (balanced_block h) _).bind fun finally_ => ih catches finally_
    · exact ih catches finally_

theorem balanced_tryStatement (n : Node) :
    Balanced Eq d (tryStatement s inner n) (s.tryStatement inner' n) := by
  have hclauses := fun body : Option StatementId =>
    (balanced_clauses s h n.namedChildren [] none).bind fun r =>
      balanced_pure (StatementKind.try_ body r.1 r.2)
  exact (Balanced.ifSome (balanced_block h) _).bind hclauses

theorem balanced_switchSection (n : Node) :
    Balanced Gains d (switchSection inner n) (Setting.switchSection inner' n) :=
  (Balanced.each h _).bind fun _ => Balanced.ite (fun _ => balanced_pure ())
    fun _ => (balanced_push _ _).bind fun id => balanced_addNestedRoot id

theorem balanced_nestedChild (n : Node) :
    Balanced Gains d (nestedChild s inner n) (s.nestedChild inner' n) := by
  refine Balanced.ite (fun _ => ?_) fun _ => Balanced.ite (fun _ => ?_) fun _ =>
    Balanced.ite (fun _ => ?_) fun _ => balanced_pure ()
  · exact (balanced_variableDeclaration s n).bind fun _ => balanced_pure ()
  · exact (Balanced.each (balanced_switchSection h) _).bind fun _ => balanced_pure ()
  · exact (h n).bind fun id => balanced_addNestedRoot id

theorem balanced_nestedStatements (n : Node) :
    Balanced Eq d (nestedStatements s inner n) (s.nestedStatements inner' n) :=
  (Balanced.within (Balanced.each (balanced_nestedChild s h) _) .empty).bind fun _ =>
    balanced_pure _

theorem balanced_statementKind (n : Node) :
    Balanced Gains d (statementKind s inner n) (s.statementKind inner' n) := by
  have hinner := fun item : Option Node => Balanced.ifSome h item
  have hnested := balanced_nestedStatements s h n
  unfold statementKind Setting.statementKind
  generalize n.kind = kind
  split
  · cases n.namedChildren.head? with
    | none => exact balanced_pure _
    | some e => exact (balanced_expression s e).bind fun _ => balanced_pure _
  · cases n.namedChild? "variable_declaration" with
    | none => exact balanced_pure _
    | some m => exact (balanced_variableDeclaration s m).bind fun _ => balanced_pure _
  · exact (balanced_fieldExpression s n "condition").bind fun _ =>
      (hinner _).bind fun _ => (hinner _).bind fun _ => balanced_pure _
  · exact (balanced_fieldExpression s n "condition").bind fun _ =>
      (hinner _).bind fun _ => balanced_pure _
  · exact (hinner _).bind fun _ =>
      (balanced_fieldExpression s n "condition").bind fun _ => balanced_pure _
  · exact (balanced_foreachStatement s h n).gains
  · exact (balanced_usingStatement s h n).gains
  · exact (balanced_optionalExpression s n.namedChildren.head?).bind fun _ => balanced_pure _
  · exact balanced_pure _
  · exact balanced_pure _
  · exact balanced_pure _
  · exact (balanced_tryStatement s h n).gains
  · exact (hnested.gains.within _).gains
  -- A kind that has no rule here has none among the others either.
  · refine (congrArg (Balanced Gains d _) (funext fun l => ?_)).mpr hnested.gains
    grind

end Rules

/-- A counter at `d.statements` leaves the room that is missing to the limit. -/
theorem balanced_statementFrom (s : Setting) {levels : Nat} {d : Depths}
    (hlevels : maxStatementDepth - d.statements < levels) (n : Node) :
    Balanced Gains d (statementFrom s levels n)
      (s.statement (maxStatementDepth - d.statements) n) := by
  induction levels generalizing d n with
  | zero => exact absurd hlevels (Nat.not_lt_zero _)
  | succ levels ih =>
    unfold statementFrom
    refine Balanced.counted (f := fun d => if maxStatementDepth ≤ d.statements then
      flat (Lowering.push .other n.span) else _) ?_
    by_cases hdeep : maxStatementDepth ≤ d.statements
    · rw [if_pos hdeep, Nat.sub_eq_zero_of_le hdeep]
      exact balanced_push _ _
    · have hroom : maxStatementDepth - d.statements =
          maxStatementDepth - (d.statements + 1) + 1 := by omega
      have hinner : ∀ m, Balanced Gains { d with statements := d.statements + 1 }
          (statementFrom s levels m)
          (s.statement (maxStatementDepth - (d.statements + 1)) m) :=
        ih (d := { d with statements := d.statements + 1 }) (by dsimp only; omega)
      rw [if_neg hdeep, hroom]
      refine Balanced.inStatement (Balanced.ite (fun _ => ?_) fun _ => ?_)
      · exact (balanced_block hinner n).gains
      · exact (balanced_statementKind s hinner n).bind fun kind => balanced_push kind n.span

theorem balanced_statement (s : Setting) (d : Depths) (n : Node) :
    Balanced Gains d (statement s n) (s.statement (maxStatementDepth - d.statements) n) :=
  balanced_statementFrom s (Nat.lt_succ_of_le (Nat.sub_le _ _)) n

end Counting

end Foresight.CSharp
