import Mathlib.Data.List.Induction
import Foresight.Proofs.Code.Forest
import Foresight.Proofs.CSharp.Trees

/-!
# What lowering does to a file

Every rule of lowering is a step that calls others and pushes statements. So a relation between
files that composes, and that holds where a statement is pushed and where a root is registered,
holds between the files before and after any step, and is there to be used for a whole file
(`Followed.lowerFile`); the rules are gone through once for all of these relations.

The first of them is `Builds`: lowering touches a file in these two ways only. Whatever both of them
keep is true of every lowered file, such as that no statement was synthesized.
-/

namespace Foresight

namespace SourceFile

/-- Any number of statements pushed and roots registered. -/
inductive Builds (file : SourceFile) : SourceFile → Prop where
  | refl : Builds file file
  | push {file' : SourceFile} (kind : StatementKind) (span : Span) :
      Builds file file' → Builds file (file'.push kind span).1
  | addRoot {file' : SourceFile} (id : StatementId) :
      Builds file file' → Builds file (file'.addRoot id)

theorem Builds.trans {file file' file'' : SourceFile} (h : Builds file file')
    (h' : Builds file' file'') : Builds file file'' := by
  induction h' with
  | refl => exact h
  | push kind span _ ih => exact ih.push kind span
  | addRoot id _ ih => exact ih.addRoot id

/-- A statement stays what it is, its parent apart. -/
theorem Builds.exists_get? {file file' : SourceFile} (h : Builds file file') {id : StatementId}
    {s : Statement} (hs : file.get? id = some s) :
    ∃ parent, file'.get? id = some { s with parent := parent } := by
  induction h with
  | refl => exact ⟨s.parent, hs⟩
  | push kind span _ ih =>
    obtain ⟨parent, ht⟩ := ih
    have hpushed := get?_push_of_get? _ kind span ht
    exact ⟨_, hpushed⟩
  | addRoot other _ ih => rwa [get?, statements_addRoot]

theorem Builds.text {file file' : SourceFile} (h : Builds file file') : file'.text = file.text := by
  induction h with
  | refl => rfl
  | push kind span _ ih => exact (text_push _ kind span).trans ih
  | addRoot id _ ih => exact (text_addRoot _).trans ih

/-- No statement was synthesized for an insertion. -/
def Unmarked (file : SourceFile) : Prop :=
  ∀ id s, file.get? id = some s → s.synthesized = none

theorem Builds.unmarked {file file' : SourceFile} (h : Builds file file') (hfile : Unmarked file) :
    Unmarked file' := by
  induction h with
  | refl => exact hfile
  | push kind span _ ih =>
    intro id s hs
    rcases push_cases _ kind span hs with ⟨-, rfl⟩ | ⟨t, ht, rfl⟩
    · rfl
    · exact ih id t ht
  | addRoot id _ ih =>
    intro other s hs
    rw [get?, statements_addRoot] at hs
    exact ih other s hs

end SourceFile

namespace CSharp

open SourceFile Lowering

variable {A : Node → Prop} {R : SourceFile → SourceFile → Prop}

/-- A relation between files that lowering follows, from nodes with a property that their children
have as well. The last field is about a statement that is pushed for a node, once the statements
inside it were lowered. -/
structure Followed (A : Node → Prop) (R : SourceFile → SourceFile → Prop) : Prop where
  child : ∀ {n c : Node}, A n → c ∈ n.children → A c
  refl : ∀ file, R file file
  trans : ∀ {file file' file''}, R file file' → R file' file'' → R file file''
  addRoot : ∀ file id, R file (file.addRoot id)
  block : ∀ file ids span, R file (file.push (.block ids) span).1
  other : ∀ file n, A n → R file (file.push .other n.span).1
  shaped : ∀ (s : Setting) (room : Nat) (n : Node) (l : Lowering), A n →
    R (s.statementKind (s.statement room) n l).1.file
      ((s.statementKind (s.statement room) n l).1.file.push
        (s.statementKind (s.statement room) n l).2 n.span).1

/-- A step that leaves a file that is related to the one before. -/
def Follows {α : Type} (R : SourceFile → SourceFile → Prop) (step : Step α) : Prop :=
  ∀ l, R l.file (step l).1.file

theorem follows_within {α : Type} {step : Step α} (h : Follows R step)
    (scope : Table Foresight.Symbol) : Follows R (Lowering.within scope step) :=
  fun l => h { l with scopes := scope :: l.scopes }

theorem file_declare (name : String) (type : TypeInfo) (l : Lowering) :
    (l.declare name type).file = l.file := by
  unfold declare
  split <;> rfl

namespace Followed

section Steps

variable (hR : Followed A R) {α β : Type}

include hR

theorem within {n m : Node} (hn : A n) (hm : n.Within m) : A m := by
  induction hm with
  | self => exact hn
  | inner hc _ ih => exact ih (hR.child hn hc)

theorem each {step : α → Step β} {items : List α} (h : ∀ a ∈ items, Follows R (step a)) :
    Follows R (Lowering.each step items) := by
  induction items with
  | nil => exact fun l => hR.refl l.file
  | cons a rest ih =>
    intro l
    exact hR.trans (h a List.mem_cons_self l)
      (ih (fun b hb => h b (List.mem_cons_of_mem _ hb)) (step a l).1)

theorem ifSome {step : α → Step β} (item : Option α) (h : ∀ a ∈ item, Follows R (step a)) :
    Follows R (Lowering.ifSome step item) := by
  cases item with
  | none => exact fun l => hR.refl l.file
  | some a => exact h a rfl

end Steps

section Rules

variable (hR : Followed A R) (s : Setting) {inner : Node → Step StatementId}
  (h : ∀ n, A n → Follows R (inner n)) {n : Node} (hn : A n)

include hR

theorem variableDeclaration (n : Node) : Follows R (s.variableDeclaration n) := by
  refine hR.each ?_
  rintro ⟨d, name⟩ - l
  exact file_declare _ _ l ▸ hR.refl l.file

theorem resources (nodes : List Node) (declared : List Variable)
    (resource : Option Expression) : Follows R (s.resources nodes declared resource) := by
  induction nodes generalizing declared resource with
  | nil => exact fun l => hR.refl l.file
  | cons n rest ih =>
    intro l
    unfold Setting.resources
    split
    · exact hR.trans (hR.variableDeclaration s n l) (ih _ _ _)
    · split <;> exact ih _ _ l

include h hn

theorem slot (field : String) : Follows R (Lowering.ifSome inner (n.child? field)) :=
  hR.ifSome _ fun c hc => h c (hR.child hn (Node.mem_of_child? hc))

theorem statements : Follows R (Lowering.each inner n.statements) :=
  hR.each fun c hc => h c (hR.child hn (Node.mem_of_mem_statements hc))

theorem blockOf : Follows R (Setting.block inner n) := fun l =>
  hR.trans (follows_within (hR.statements h hn) .empty l) (hR.block _ _ _)

theorem foreachStatement : Follows R (s.foreachStatement inner n) := by
  have hbody : ∀ name type (l : Lowering), R l.file
      (Lowering.ifSome inner (n.child? "body") (l.declare name type)).1.file := fun name type l =>
    file_declare name type l ▸ hR.slot h hn "body" (l.declare name type)
  exact fun l => hbody _ _ { l with scopes := Table.empty :: l.scopes }

theorem usingStatement : Follows R (s.usingStatement inner n) :=
  follows_within
    (fun l => hR.trans (hR.resources s _ [] none l) (hR.slot h hn "body" _)) .empty

theorem catchClause : Follows R (s.catchClause inner n) := by
  intro l
  unfold Setting.catchClause
  extract_lets declaration written variable_ type enter
  have henter : ∀ l, (enter l).file = l.file := fun l => by
    unfold enter
    clear_value variable_ type
    split
    · exact file_declare _ _ l
    · rfl
  have hblock : Follows R (Lowering.ifSome (Setting.block inner) (n.childOr? "body" "block")) :=
    hR.ifSome _ fun c hc => hR.blockOf h (hR.child hn (Node.mem_of_childOr? hc))
  have hbody : ∀ l, R l.file
      (Lowering.ifSome (Setting.block inner) (n.childOr? "body" "block") (enter l)).1.file :=
    fun l => henter l ▸ hblock (enter l)
  exact hbody { l with scopes := Table.empty :: l.scopes }

omit hn in
theorem clauses (nodes : List Node) (hnodes : ∀ c ∈ nodes, A c)
    (catches : List (CatchClause (Option StatementId))) (finally_ : Option StatementId) :
    Follows R (s.clauses inner nodes catches finally_) := by
  induction nodes generalizing catches finally_ with
  | nil => exact fun l => hR.refl l.file
  | cons c rest ih =>
    obtain ⟨hc, hrest⟩ := List.forall_mem_cons.mp hnodes
    have hrest := ih hrest
    intro l
    unfold Setting.clauses
    split
    · exact hR.trans (hR.catchClause s h hc l) (hrest _ _ _)
    · split
      · have hblock : Follows R (Lowering.ifSome (Setting.block inner) (c.namedChild? "block")) :=
          hR.ifSome _ fun m hm => hR.blockOf h (hR.child hc (Node.mem_of_namedChild? hm))
        exact hR.trans (hblock l) (hrest _ _ _)
      · exact hrest _ _ l

theorem tryStatement : Follows R (s.tryStatement inner n) := by
  have hbody : Follows R (Lowering.ifSome (Setting.block inner) (n.child? "body")) :=
    hR.ifSome _ fun c hc => hR.blockOf h (hR.child hn (Node.mem_of_child? hc))
  have hclauses := hR.clauses s h n.namedChildren
    (fun c hc => hR.child hn (Node.mem_of_mem_namedChildren hc)) [] none
  exact fun l => hR.trans (hbody l) (hclauses _)

theorem switchSection : Follows R (Setting.switchSection inner n) := by
  intro l
  have hstatements := hR.statements h hn l
  unfold Setting.switchSection
  split
  rename_i l' ids heq
  rw [show n.statements = List.filter Node.isStatement n.namedChildren from rfl, heq]
    at hstatements
  split
  · exact hstatements
  · exact hR.trans hstatements (hR.block _ _ _)

theorem nestedChild : Follows R (s.nestedChild inner n) := by
  intro l
  unfold Setting.nestedChild
  split
  · exact hR.variableDeclaration s n l
  · split
    · refine hR.each (fun c hc => hR.switchSection h (hR.child hn ?_)) l
      exact Node.mem_of_mem_namedChildren (List.mem_filter.mp hc).1
    · split
      · exact h n hn l
      · exact hR.refl l.file

theorem nestedStatements : Follows R (s.nestedStatements inner n) :=
  follows_within (hR.each fun _ hc =>
    hR.nestedChild s h (hR.child hn (Node.mem_of_mem_namedChildren hc))) .empty

theorem statementKind : Follows R (s.statementKind inner n) := by
  have hslot := hR.slot h hn
  intro l
  unfold Setting.statementKind
  split
  · split <;> exact hR.refl l.file
  · split
    · exact hR.variableDeclaration s _ l
    · exact hR.refl l.file
  · exact hR.trans (hslot "consequence" l) (hslot "alternative" _)
  · exact hslot "body" l
  · exact hslot "body" l
  · exact hR.foreachStatement s h hn l
  · exact hR.usingStatement s h hn l
  · exact hR.refl l.file
  · exact hR.refl l.file
  · exact hR.refl l.file
  · exact hR.refl l.file
  · exact hR.tryStatement s h hn l
  · exact follows_within (hR.nestedStatements s h hn) _ l
  · exact hR.nestedStatements s h hn l

omit h in
theorem statement (room : Nat) : Follows R (s.statement room n) := by
  induction room generalizing n with
  | zero => exact fun l => hR.other l.file n hn
  | succ room ih =>
    intro l
    unfold Setting.statement
    dsimp only
    split
    · exact hR.blockOf (fun m hm => ih hm) hn l
    · exact hR.trans (hR.statementKind s (fun m hm => ih hm) hn l) (hR.shaped s room n l hn)

end Rules

/-! ## Files -/

section Files

variable (hR : Followed A R)

include hR

theorem addNestedRoots {file : SourceFile} {l : Lowering} (h : R file l.file) :
    R file (CSharp.addNestedRoots l).file := by
  unfold CSharp.addNestedRoots
  generalize l.nestedRoots = ids
  induction ids using List.reverseRecOn with
  | nil => exact h
  | append_singleton ids id ih =>
    rw [List.foldl_append]
    exact hR.trans ih (hR.addRoot _ id)

theorem lowerBody (setting : Setting) {b : MemberBody} (hb : A b.body) (l : Lowering) :
    R l.file (CSharp.lowerBody setting b l).file := by
  have hbody := fun (setting : Setting) scope => follows_within
    (hR.blockOf (fun _ hm => hR.statement setting hm maxStatementDepth) hb) scope l
  exact hR.addNestedRoots (hR.trans (hbody _ _) (hR.addRoot _ _))

theorem lowerBodies (setting : Setting) {bodies : List MemberBody}
    (hbodies : ∀ b ∈ bodies, A b.body) (l : Lowering) :
    R l.file (bodies.foldl (fun l b => CSharp.lowerBody setting b l) l).file := by
  induction bodies generalizing l with
  | nil => exact hR.refl l.file
  | cons b rest ih =>
    exact hR.trans (hR.lowerBody setting (hbodies b List.mem_cons_self) l)
      (ih (fun c hc => hbodies c (List.mem_cons_of_mem _ hc)) _)

theorem lowerSite (setting : Setting) (f : FileLowering) {site : Site} (hsite : A site.node) :
    R f.lowering.file (CSharp.lowerSite setting f site).lowering.file := by
  cases site with
  | type namespace_ n =>
    exact hR.lowerBodies setting
      (fun b hb => hR.within hsite (within_of_mem_bodiesOf setting.source namespace_ n b hb)) _
  | statement namespace_ n =>
    unfold CSharp.lowerSite
    dsimp only
    cases hhead : n.namedChildren.head? with
    | none => exact hR.refl _
    | some child =>
      have hchild := hR.child hsite (Node.mem_of_mem_namedChildren (List.mem_of_mem_head? hhead))
      have hstatement := fun setting : Setting => hR.statement setting hchild maxStatementDepth
          { f.lowering with scopes := f.globals :: f.lowering.scopes }
      exact hstatement _

theorem lowerSites (setting : Setting) {sites : List Site} (hsites : ∀ site ∈ sites, A site.node)
    (f : FileLowering) :
    R f.lowering.file (sites.foldl (CSharp.lowerSite setting) f).lowering.file := by
  induction sites generalizing f with
  | nil => exact hR.refl _
  | cons site rest ih =>
    exact hR.trans (hR.lowerSite setting f (hsites site List.mem_cons_self))
      (ih (fun other hother => hsites other (List.mem_cons_of_mem _ hother)) _)

theorem closeStatements (f : FileLowering) :
    R f.lowering.file (CSharp.closeStatements f) := by
  unfold CSharp.closeStatements
  split
  · exact hR.addNestedRoots (hR.trans (hR.block _ _ _) (hR.addRoot _ _))
  · exact hR.refl _

/-- A whole file is related to the empty one. -/
theorem lowerFile (path source : String) (index : SymbolIndex) {root : Node} (hroot : A root) :
    R (.new path source) (CSharp.lowerFile path source index root) :=
  hR.trans
    (hR.lowerSites _ (fun _ hsite => hR.within hroot (within_of_mem_sites source hsite))
      ⟨⟨.new path source, [], []⟩, .empty, []⟩)
    (hR.closeStatements _)

end Files

end Followed

/-! ## Lowering only builds -/

theorem followed_builds : Followed (fun _ => True) Builds where
  child _ _ := trivial
  refl _ := .refl
  trans := .trans
  addRoot _ id := .addRoot id .refl
  block _ ids span := .push (.block ids) span .refl
  other _ n _ := .push .other n.span .refl
  shaped _ _ n _ _ := .push _ n.span .refl

theorem builds_lowerBodies (setting : Setting) (bodies : List MemberBody) (l : Lowering) :
    Builds l.file (bodies.foldl (fun l b => lowerBody setting b l) l).file :=
  followed_builds.lowerBodies setting (fun _ _ => trivial) l

theorem builds_lowerSites (setting : Setting) (sites : List Site) (f : FileLowering) :
    Builds f.lowering.file (sites.foldl (lowerSite setting) f).lowering.file :=
  followed_builds.lowerSites setting (fun _ _ => trivial) f

theorem builds_lowerFile (path source : String) (index : SymbolIndex) (root : Node) :
    Builds (.new path source) (lowerFile path source index root) :=
  followed_builds.lowerFile path source index trivial

/-- No statement of a lowered file was synthesized. -/
theorem unmarked_lowerFile (path source : String) (index : SymbolIndex) (root : Node) :
    Unmarked (lowerFile path source index root) :=
  (builds_lowerFile path source index root).unmarked fun id s hs => by
    simp [SourceFile.new, get?] at hs

end CSharp

end Foresight
