import Foresight.Proofs.CSharp.Balanced

/-!
# What lowering leaves on the stack of scopes

A statement is balanced, so a scope that a rule opens is closed behind it. What a later statement
still sees is therefore told by the tree: `openDeclarations` lists the declarations that stand in no
scope of their own, and statements leave the stack that these declarations alone would leave
(`opens_statement`). None of them is inside a block, a loop over a collection, a `using`, a clause
of a `try`, a `switch` or a local function.

Between the sites of a file the stack is the scope of the top-level statements on whatever lies
below, and that scope keeps all its names from one site to the next.
-/

namespace Foresight.CSharp

open Lowering

variable {α β : Type}

/-! ## Open declarations -/

/-- The declarations of variables that a statement leaves visible: its own, or those of a branch or
of a body that opens no scope. -/
def openDeclarations : (room : Nat) → Node → List Node
  | 0, _ => []
  | room + 1, n =>
    match n.kind with
    | "local_declaration_statement" => (n.namedChild? "variable_declaration").toList
    | "if_statement" =>
      (n.child? "consequence").toList.flatMap (openDeclarations room) ++
        (n.child? "alternative").toList.flatMap (openDeclarations room)
    | "while_statement" | "do_statement" =>
      (n.child? "body").toList.flatMap (openDeclarations room)
    | _ => []

/-- A step leaves the stack of scopes that the declarations leave, one after the other. -/
def Opens (s : Setting) (nodes : List Node) (step : Step α) : Prop :=
  ∀ l l' : Lowering, l.scopes = l'.scopes →
    (step l).1.scopes = (each s.variableDeclaration nodes l').1.scopes

theorem scopes_declare_congr (name : String) (type : TypeInfo) {l l' : Lowering}
    (h : l.scopes = l'.scopes) :
    (l.declare name type).scopes = (l'.declare name type).scopes := by
  unfold declare
  rw [← h]
  cases l.scopes with
  | nil => exact h
  | cons innermost outer => rfl

theorem each_append {f : α → Step β} (items items' : List α) (l : Lowering) :
    (each f (items ++ items') l).1 = (each f items' (each f items l).1).1 := by
  induction items generalizing l with
  | nil => rfl
  | cons a rest ih => exact ih (f a l).1

namespace Opens

variable {s : Setting} {nodes nodes' : List Node} {step : Step α} {f : α → Step β}

theorem nil (h : ∀ l, l.scopes = (step l).1.scopes) : Opens s [] step :=
  fun l _ hl => (h l).symm.trans hl

/-- What a declaration adds hangs on the scopes alone. -/
theorem declaration (n : Node) : Opens s [n] (s.variableDeclaration n) := by
  show ∀ l l' : Lowering, l.scopes = l'.scopes →
    (s.variableDeclaration n l).1.scopes = (s.variableDeclaration n l').1.scopes
  unfold Setting.variableDeclaration
  dsimp only
  generalize List.filterMap _ _ = named
  induction named with
  | nil => exact fun _ _ hl => hl
  | cons d rest ih =>
    intro l l' hl
    have hvalue : ∀ v, s.expression v l = s.expression v l' := fun v => by
      unfold Setting.expression
      rw [hl]
    refine ih _ _ ?_
    simp only [hvalue]
    exact scopes_declare_congr _ _ hl

theorem bind (h : Opens s nodes step) (h' : ∀ a, Opens s nodes' (f a)) :
    Opens s (nodes ++ nodes') fun l => f (step l).2 (step l).1 := by
  intro l l' hl
  rw [each_append]
  exact h' _ _ _ (h l l' hl)

theorem each {f : Node → Step β} {g : Node → List Node} (h : ∀ n, Opens s (g n) (f n))
    (items : List Node) : Opens s (items.flatMap g) (each f items) := by
  induction items with
  | nil => exact nil fun _ => rfl
  | cons n rest ih => exact (h n).bind fun _ => ih

theorem ifSome {f : Node → Step β} {g : Node → List Node} (h : ∀ n, Opens s (g n) (f n))
    (item : Option Node) : Opens s (item.toList.flatMap g) (ifSome f item) := by
  cases item with
  | none => exact nil fun _ => rfl
  | some n =>
    rw [Option.toList_some, List.flatMap_singleton]
    exact h n

end Opens

section Statements

variable (s : Setting) {room : Nat} (hroom : room ≤ maxStatementDepth)

include hroom

theorem balanced_inner (n : Node) :
    Counting.Balanced Gains ⟨maxStatementDepth - room, 0⟩ (Counting.statement s n)
      (s.statement room n) := by
  have h := Counting.balanced_statement s ⟨maxStatementDepth - room, 0⟩ n
  rwa [Nat.sub_sub_self hroom] at h

theorem opens_statementKind (hinner : ∀ n, Opens s (openDeclarations room n) (s.statement room n))
    (n : Node) :
    Opens s (openDeclarations (room + 1) n) (s.statementKind (s.statement room) n) := by
  have hbalanced := balanced_inner s hroom
  have hslot := fun item => Opens.ifSome hinner item
  unfold openDeclarations Setting.statementKind
  generalize n.kind = kind
  split
  · cases n.namedChild? "variable_declaration" with
    | none => exact Opens.nil fun _ => rfl
    | some d => exact Opens.declaration d
  · exact (hslot _).bind fun _ => hslot _
  · exact hslot _
  · exact hslot _
  -- The other kinds open nothing, or they close what they open.
  · refine Opens.nil fun l => ?_
    split
    · split <;> rfl
    · contradiction
    · contradiction
    · contradiction
    · contradiction
    · exact (Counting.balanced_foreachStatement s hbalanced n).scopes_step l
    · exact (Counting.balanced_usingStatement s hbalanced n).scopes_step l
    · rfl
    · rfl
    · rfl
    · rfl
    · exact (Counting.balanced_tryStatement s hbalanced n).scopes_step l
    · exact ((Counting.balanced_nestedStatements s hbalanced n).gains.within _).scopes_step l
    · exact (Counting.balanced_nestedStatements s hbalanced n).scopes_step l

end Statements

theorem opens_statement (s : Setting) {room : Nat} (hroom : room ≤ maxStatementDepth) (n : Node) :
    Opens s (openDeclarations room n) (s.statement room n) := by
  induction room generalizing n with
  | zero => exact Opens.nil fun _ => rfl
  | succ room ih =>
    have hroom' := Nat.le_of_succ_le hroom
    have hkind := opens_statementKind s hroom' (ih hroom') n
    unfold Setting.statement
    by_cases hblock : n.kind = "block"
    · have hnone : openDeclarations (room + 1) n = [] := by
        unfold openDeclarations
        rw [hblock]
        rfl
      rw [hnone]
      refine Opens.nil fun l => ?_
      rw [if_pos (beq_iff_eq.mpr hblock)]
      exact (Counting.balanced_block (balanced_inner s hroom') n).scopes_step l
    · simp only [beq_eq_false_iff_ne.mpr hblock]
      exact hkind

/-! ## Files -/

theorem scopes_lowerBody (setting : Setting) (b : MemberBody) (l : Lowering) :
    l.scopes = (lowerBody setting b l).scopes := by
  have hblock := fun s : Setting =>
    Counting.balanced_block (balanced_inner s (Nat.le_refl maxStatementDepth)) b.body
  exact ((hblock _).gains.within _).scopes_step l

theorem scopes_foldl_lowerBody (setting : Setting) (bodies : List MemberBody) (l : Lowering) :
    l.scopes = (bodies.foldl (fun l b => lowerBody setting b l) l).scopes := by
  induction bodies generalizing l with
  | nil => rfl
  | cons b rest ih => exact (scopes_lowerBody setting b l).trans (ih _)

/-- A scope that was taken from the top of a stack is on it again. -/
theorem Gains.headD_tail {scope : Table Foresight.Symbol} {outer scopes : Scopes}
    (h : Gains (scope :: outer) scopes) :
    Gains (scope :: outer) (scopes.headD .empty :: scopes.tail) := by
  cases h with
  | innermost _ hnames => exact .innermost outer hnames

/-- The stack that a top-level statement finds. -/
def FileLowering.scopes (f : FileLowering) : Scopes := f.globals :: f.lowering.scopes

theorem gains_lowerSite (setting : Setting) (f : FileLowering) (site : Site) :
    Gains f.scopes (lowerSite setting f site).scopes := by
  unfold lowerSite
  cases site with
  | type namespace_ n =>
    show Gains _ (f.globals :: (List.foldl _ f.lowering _).scopes)
    rw [← scopes_foldl_lowerBody]
    exact .refl f.scopes
  | statement namespace_ n =>
    dsimp only
    cases n.namedChildren.head? with
    | none => exact .refl f.scopes
    | some child =>
      have h := fun s : Setting =>
        (balanced_inner s (Nat.le_refl maxStatementDepth) child).scopes_step
          { f.lowering with scopes := f.scopes }
      exact (h _).headD_tail

theorem gains_lowerSites (setting : Setting) (sites : List Site) (f : FileLowering) :
    Gains f.scopes (sites.foldl (lowerSite setting) f).scopes := by
  induction sites generalizing f with
  | nil => exact .refl f.scopes
  | cons site rest ih => exact (gains_lowerSite setting f site).trans (ih _)

/-! ## The stack discipline -/

/-- What the rules for statements do to the counters and to the stack of scopes, when they are given
the rule for the statements one level further in: all of them come back to the counters they
started from, and only a statement may add to the stack. -/
structure KeepsScopes (s : Setting) (d : Depths) (inner : Node → Counting StatementId)
    (inner' : Node → Step StatementId) : Prop where
  statement : ∀ n, Counting.Balanced Gains d (inner n) (inner' n)
  block : ∀ n, Counting.Balanced Eq d (Counting.block inner n) (Setting.block inner' n)
  foreachStatement : ∀ n,
    Counting.Balanced Eq d (Counting.foreachStatement s inner n) (s.foreachStatement inner' n)
  usingStatement : ∀ n,
    Counting.Balanced Eq d (Counting.usingStatement s inner n) (s.usingStatement inner' n)
  tryStatement : ∀ n,
    Counting.Balanced Eq d (Counting.tryStatement s inner n) (s.tryStatement inner' n)
  catchClause : ∀ n,
    Counting.Balanced Eq d (Counting.catchClause s inner n) (s.catchClause inner' n)
  nestedStatements : ∀ n,
    Counting.Balanced Eq d (Counting.nestedStatements s inner n) (s.nestedStatements inner' n)
  localFunction : ∀ n, Counting.Balanced Eq d
    (Counting.within (s.parameters n) (Counting.nestedStatements s inner n))
    (within (s.parameters n) (s.nestedStatements inner' n))

theorem KeepsScopes.of_statement {s : Setting} {d : Depths} {inner : Node → Counting StatementId}
    {inner' : Node → Step StatementId} (h : ∀ n, Counting.Balanced Gains d (inner n) (inner' n)) :
    KeepsScopes s d inner inner' where
  statement := h
  block := Counting.balanced_block h
  foreachStatement := Counting.balanced_foreachStatement s h
  usingStatement := Counting.balanced_usingStatement s h
  tryStatement := Counting.balanced_tryStatement s h
  catchClause := Counting.balanced_catchClause s h
  nestedStatements := Counting.balanced_nestedStatements s h
  localFunction n := (Counting.balanced_nestedStatements s h n).gains.within _

/-- Lowering keeps the discipline of its stack at every depth. Statements, one after the other,
leave the scopes that their open declarations leave, so a name that was bound in a scope that is
closed is not found again. The scope of the top-level statements goes from site to site. -/
theorem lowering_keeps_scopes (s : Setting) (d : Depths) :
    KeepsScopes s d (Counting.statement s) (s.statement (maxStatementDepth - d.statements)) ∧
      (∀ (nodes : List Node) (l : Lowering),
        (each (s.statement (maxStatementDepth - d.statements)) nodes l).1.scopes =
          (each s.variableDeclaration
            (nodes.flatMap (openDeclarations (maxStatementDepth - d.statements))) l).1.scopes) ∧
      ∀ (sites : List Site) (f : FileLowering),
        Gains f.scopes (sites.foldl (lowerSite s) f).scopes := by
  refine ⟨.of_statement (Counting.balanced_statement s d), fun nodes l => ?_, gains_lowerSites s⟩
  exact Opens.each (opens_statement s (Nat.sub_le _ _)) nodes l l rfl

end Foresight.CSharp
