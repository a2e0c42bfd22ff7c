import Mathlib.Data.List.Perm.Subperm
import Foresight.Proofs.Code.Descent
import Foresight.Proofs.CSharp.Traced

/-!
# Lowered statements

Lowering runs as a step on a state, and every step grows the file by the statements that it makes
and by those that it leaves behind as nested roots. `Lowers root l l' made` is growth with both on
record: every statement that is made comes with its node, and, if no `try` of the tree has two
`finally` clauses, no other new statement is without a parent. (Of several such clauses the last one
counts; the block of an earlier one is made and then forgotten.)

A rule for a kind of statement makes the children of that statement from nodes inside its own
(`LowersBelow`), if the step for the statements further in makes one statement from a node
(`Makes`). So the nesting of statements is one induction on the room that is left
(`makes_statement`).
-/

namespace Foresight.CSharp

open SourceFile Lowering

/-- What two stretches made, and then what both of them left, is what each made and left. -/
theorem perm_exchange {α : Type} (a b c d : List α) :
    (a ++ b ++ (c ++ d)).Perm (a ++ c ++ (b ++ d)) := by
  rw [List.append_assoc, List.append_assoc, ← List.append_assoc b, ← List.append_assoc c]
  exact (List.perm_append_comm.append_right d).append_left a

variable {root : Node}

/-- Lowering goes from `l` to `l'`, makes the statements in `made`, each from its node, and leaves
`found` behind as nested roots. -/
structure Leaves (root : Node) (l l' : Lowering) (made : List (StatementId × Node))
    (found : List StatementId) : Prop where
  nestedRoots : l'.nestedRoots = l.nestedRoots ++ found
  grows : Grows l.file l'.file (made.map Prod.fst ++ found)
  covers : root.OneFinally → Covers l.file l'.file (made.map Prod.fst ++ found)
  traced : ∀ {nodes}, Traced root l.file nodes →
    ∃ more, Traced root l'.file (nodes ++ more) ∧ ∀ m ∈ made, (nodes ++ more)[m.1]? = some m.2

def Lowers (root : Node) (l l' : Lowering) (made : List (StatementId × Node)) : Prop :=
  ∃ found, Leaves root l l' made found

namespace Lowers

variable {l l' l'' : Lowering} {made made' : List (StatementId × Node)} {n : Node}

theorem of_eq (hfile : l'.file = l.file) (hnested : l'.nestedRoots = l.nestedRoots) :
    Lowers root l l' [] := by
  refine ⟨[], by rw [hnested, List.append_nil], hfile ▸ .refl l.file,
    fun _ => .of_eq (by rw [hfile]), fun {nodes} h => ⟨[], ?_, by simp⟩⟩
  rwa [List.append_nil, hfile]

theorem refl (l : Lowering) : Lowers root l l [] := of_eq rfl rfl

/-- Scopes play no part in this. -/
theorem rescope {scopes scopes' : Scopes} (h : Lowers root { l with scopes := scopes } l' made) :
    Lowers root l { l' with scopes := scopes' } made := by
  obtain ⟨found, hleaves⟩ := h
  exact ⟨found, hleaves.nestedRoots, hleaves.grows, hleaves.covers, hleaves.traced⟩

theorem trans (h : Lowers root l l' made) (h' : Lowers root l' l'' made') :
    Lowers root l l'' (made ++ made') := by
  obtain ⟨found, hleaves⟩ := h
  obtain ⟨found', hleaves'⟩ := h'
  have hperm : ((made ++ made').map Prod.fst ++ (found ++ found')).Perm
      ((made.map Prod.fst ++ found) ++ (made'.map Prod.fst ++ found')) := by
    rw [List.map_append]
    exact perm_exchange ..
  refine ⟨found ++ found', ?_, (hleaves.grows.trans hleaves'.grows).perm hperm, fun hone => ?_,
    fun {nodes} hnodes => ?_⟩
  · rw [hleaves'.nestedRoots, hleaves.nestedRoots, List.append_assoc]
  · exact ((hleaves.covers hone).trans hleaves'.grows (hleaves'.covers hone)).mono
      hperm.symm.subset
  · obtain ⟨more, htraced, hmade⟩ := hleaves.traced hnodes
    obtain ⟨more', htraced', hmade'⟩ := hleaves'.traced htraced
    rw [List.append_assoc] at htraced' hmade'
    refine ⟨more ++ more', htraced', fun m hm => ?_⟩
    rcases List.mem_append.mp hm with hm | hm
    · rw [← List.append_assoc]
      exact getElem?_append_of_eq_some (hmade m hm) more'
    · exact hmade' m hm

/-- Where a `try` has two `finally` clauses, statements may be made and then forgotten. -/
theorem forget (h : Lowers root l l' made) (hsub : made'.Sublist made) (hone : ¬ root.OneFinally) :
    Lowers root l l' made' := by
  obtain ⟨found, hleaves⟩ := h
  have hids := (hsub.map Prod.fst).append_right found
  have hgrows := hleaves.grows.mono hids.subset (hids.nodup hleaves.grows.nodup)
  refine ⟨found, hleaves.nestedRoots, hgrows, fun h => absurd h hone, fun {nodes} hnodes => ?_⟩
  obtain ⟨more, htraced, hmade⟩ := hleaves.traced hnodes
  exact ⟨more, htraced, fun m hm => hmade m (hsub.subset hm)⟩

/-- The nodes of several statements. -/
theorem map_getElem?_made {nodes : List Node} (h : ∀ m ∈ made, nodes[m.1]? = some m.2) :
    (made.map Prod.fst).map (nodes[·]?) = (made.map Prod.snd).map some := by
  rw [List.map_map, List.map_map]
  exact List.map_congr_left h

/-- A statement is made from a node over statements that were made from nodes inside it. -/
theorem push {kind : StatementKind} (h : Lowers root l l' made) (hn : root.Within n)
    (hids : (made.map Prod.fst).Perm kind.childIds) (hbelow : ∀ m ∈ made, n.Within m.2)
    (hblock : ∀ ids, kind = .block ids →
      made.map Prod.fst = ids ∧ made.map Prod.snd = n.statements) :
    Lowers root l (Lowering.push kind n.span l').1 [((Lowering.push kind n.span l').2, n)] := by
  obtain ⟨found, hleaves⟩ := h
  have hperm := hids.symm.append_right found
  refine ⟨found, hleaves.nestedRoots, (hleaves.grows.perm hperm).push n.span, fun hone => ?_,
    fun {nodes} hnodes => ?_⟩
  · exact ((hleaves.covers hone).mono hperm.symm.subset).push n.span
  · obtain ⟨more, htraced, hmade⟩ := hleaves.traced hnodes
    refine ⟨more ++ [n], ?_, fun m hm => ?_⟩
    · rw [← List.append_assoc]
      refine htraced.push (lasting_stems root) ⟨hn, rfl, fun c hc => ?_, fun ids hkind => ?_⟩
      · obtain ⟨m, hm, rfl⟩ := List.mem_map.mp (hids.mem_iff.mpr hc)
        exact ⟨m.2, hmade m hm, hbelow m hm⟩
      · obtain ⟨hfst, hsnd⟩ := hblock ids hkind
        rw [← hfst, ← hsnd]
        exact map_getElem?_made hmade
    · obtain rfl := List.mem_singleton.mp hm
      show (nodes ++ (more ++ [n]))[l'.file.statementCount]? = some n
      rw [← List.append_assoc, ← htraced.length, List.getElem?_concat_length]

/-- A statement that was made is left behind as a nested root. -/
theorem addNestedRoot {id : StatementId} (h : Lowers root l l' [(id, n)]) :
    Lowers root l (Setting.addNestedRoot id l') [] := by
  obtain ⟨found, hleaves⟩ := h
  have hperm : (found ++ [id]).Perm ([id] ++ found) := List.perm_append_comm
  refine ⟨found ++ [id], ?_, hleaves.grows.perm hperm, fun hone => ?_, fun {nodes} hnodes => ?_⟩
  · rw [Setting.addNestedRoot, hleaves.nestedRoots, List.append_assoc]
  · exact (hleaves.covers hone).mono hperm.symm.subset
  · obtain ⟨more, htraced, -⟩ := hleaves.traced hnodes
    exact ⟨more, htraced, fun m hm => by cases hm⟩

end Lowers

/-- Lowering goes from `l` to `l'` and makes the statements `ids` from nodes inside `n`. -/
def LowersBelow (root n : Node) (l l' : Lowering) (ids : List StatementId) : Prop :=
  ∃ made, (made.map Prod.fst).Perm ids ∧ (∀ m ∈ made, n.Within m.2) ∧ Lowers root l l' made

theorem Lowers.below {l l' : Lowering} (h : Lowers root l l' []) (n : Node) :
    LowersBelow root n l l' [] :=
  ⟨[], .nil, by simp, h⟩

namespace LowersBelow

variable {l l' l'' : Lowering} {ids ids' : List StatementId} {n : Node}

theorem refl (n : Node) (l : Lowering) : LowersBelow root n l l [] := (Lowers.refl l).below n

theorem trans (h : LowersBelow root n l l' ids) (h' : LowersBelow root n l' l'' ids') :
    LowersBelow root n l l'' (ids ++ ids') := by
  obtain ⟨made, hids, hbelow, hlowers⟩ := h
  obtain ⟨made', hids', hbelow', hlowers'⟩ := h'
  refine ⟨made ++ made', ?_, fun m hm => ?_, hlowers.trans hlowers'⟩
  · rw [List.map_append]
    exact hids.append hids'
  · rcases List.mem_append.mp hm with hm | hm
    · exact hbelow m hm
    · exact hbelow' m hm

theorem perm (h : LowersBelow root n l l' ids) (hp : ids.Perm ids') :
    LowersBelow root n l l' ids' := by
  obtain ⟨made, hids, hbelow, hlowers⟩ := h
  exact ⟨made, hids.trans hp, hbelow, hlowers⟩

theorem forget (h : LowersBelow root n l l' ids) (hsub : ids'.Sublist ids)
    (hone : ¬ root.OneFinally) : LowersBelow root n l l' ids' := by
  obtain ⟨made, hids, hbelow, hlowers⟩ := h
  obtain ⟨some_, hperm, hsome⟩ := hsub.subperm.trans hids.symm.subperm
  obtain ⟨made', hmade, rfl⟩ := List.sublist_map_iff.mp hsome
  exact ⟨made', hperm, fun m hm => hbelow m (hmade.subset hm), hlowers.forget hmade hone⟩

/-- Of two `finally` clauses, the later one counts. -/
theorem replace {old new : List StatementId} (h : LowersBelow root n l l' (ids ++ old ++ new))
    (hold : root.OneFinally → old = []) : LowersBelow root n l l' (ids ++ new) := by
  by_cases hone : root.OneFinally
  · rwa [hold hone, List.append_nil] at h
  · exact h.forget ((List.sublist_append_left ids old).append_right new) hone

theorem rescope {scopes scopes' : Scopes}
    (h : LowersBelow root n { l with scopes := scopes } l' ids) :
    LowersBelow root n l { l' with scopes := scopes' } ids := by
  obtain ⟨made, hids, hbelow, hlowers⟩ := h
  exact ⟨made, hids, hbelow, hlowers.rescope⟩

/-- What is inside a part of a node is inside the node. -/
theorem outer {m : Node} (h : LowersBelow root m l l' ids) (hm : n.Within m) :
    LowersBelow root n l l' ids := by
  obtain ⟨made, hids, hbelow, hlowers⟩ := h
  exact ⟨made, hids, fun p hp => hm.trans (hbelow p hp), hlowers⟩

theorem push {kind : StatementKind} (h : LowersBelow root n l l' kind.childIds)
    (hn : root.Within n) (hblock : kind.isBlock = false) :
    Lowers root l (Lowering.push kind n.span l').1 [((Lowering.push kind n.span l').2, n)] := by
  obtain ⟨made, hids, hbelow, hlowers⟩ := h
  exact hlowers.push hn hids hbelow fun ids hkind => by rw [hkind] at hblock; cases hblock

end LowersBelow

/-! ## Steps -/

/-- A step that makes one statement from a node. -/
def Makes (root : Node) (inner : Node → Step StatementId) : Prop :=
  ∀ n, root.Within n → ∀ l, Lowers root l (inner n l).1 [((inner n l).2, n)]

section Steps

variable {α β : Type} {inner : Node → Step StatementId} {n : Node}

theorem lowers_declare (name : String) (type : TypeInfo) (l : Lowering) :
    Lowers root l (l.declare name type) [] := by
  unfold declare
  split
  · exact .refl l
  · exact .of_eq rfl rfl

/-- One statement for each item, in order. -/
theorem Makes.each (h : Makes root inner) (items : List Node) (hitems : ∀ n ∈ items, root.Within n)
    (l : Lowering) : ∃ made, Lowers root l (Lowering.each inner items l).1 made ∧
      made.map Prod.fst = (Lowering.each inner items l).2 ∧ made.map Prod.snd = items := by
  induction items generalizing l with
  | nil => exact ⟨[], .refl l, rfl, rfl⟩
  | cons n rest ih =>
    have hfirst := h n (hitems n List.mem_cons_self) l
    obtain ⟨made, hrest, hfst, hsnd⟩ :=
      ih (fun m hm => hitems m (List.mem_cons_of_mem _ hm)) (inner n l).1
    exact ⟨((inner n l).2, n) :: made, hfirst.trans hrest, congrArg _ hfst, congrArg _ hsnd⟩

theorem Makes.ifSome (h : Makes root inner) (hn : root.Within n) (item : Option Node)
    (hitem : ∀ c ∈ item, n.Within c) (l : Lowering) :
    LowersBelow root n l (Lowering.ifSome inner item l).1
      (Lowering.ifSome inner item l).2.toList := by
  cases item with
  | none => exact .refl n l
  | some c =>
    have hc := hitem c rfl
    refine ⟨[((inner c l).2, c)], .refl _, fun m hm => ?_, h c (hn.trans hc) l⟩
    obtain rfl := List.mem_singleton.mp hm
    exact hc

/-- Steps that make no statement make none together. -/
theorem lowers_each {step : α → Step β} {items : List α}
    (h : ∀ a ∈ items, ∀ l, Lowers root l (step a l).1 []) (l : Lowering) :
    Lowers root l (Lowering.each step items l).1 [] := by
  induction items generalizing l with
  | nil => exact .refl l
  | cons a rest ih =>
    have hrest := ih (fun b hb => h b (List.mem_cons_of_mem _ hb)) (step a l).1
    exact (h a List.mem_cons_self l).trans hrest

end Steps

namespace Setting

variable (s : Setting) {inner : Node → Step StatementId} {n : Node}

/-! ## Declarations -/

theorem lowers_declarator (writtenType : String) (n name : Node) (l : Lowering) :
    Lowers root l (s.declarator writtenType n name l).1 [] :=
  lowers_declare _ _ l

theorem lowers_variableDeclaration (n : Node) (l : Lowering) :
    Lowers root l (s.variableDeclaration n l).1 [] := by
  refine lowers_each ?_ l
  rintro ⟨d, name⟩ -
  exact s.lowers_declarator _ d name

/-! ## Statements over their parts -/

theorem makes_block (h : Makes root inner) : Makes root (block inner) := by
  intro n hn l
  have hwithin : ∀ m ∈ n.statements, n.Within m := fun m hm =>
    Node.within_of_mem (Node.mem_of_mem_statements hm)
  obtain ⟨made, hlowers, hfst, hsnd⟩ := h.each n.statements (fun m hm => hn.trans (hwithin m hm))
    { l with scopes := Table.empty :: l.scopes }
  have hids : (made.map Prod.fst).Perm (StatementKind.block
      (Lowering.each inner n.statements { l with scopes := Table.empty :: l.scopes }).2).childIds :=
    hfst ▸ List.Perm.refl _
  refine hlowers.rescope.push hn hids (fun m hm => ?_) fun ids hkind => ?_
  · exact hwithin m.2 (hsnd ▸ List.mem_map_of_mem hm)
  · exact ⟨hfst.trans (StatementKind.block.inj hkind), hsnd⟩

theorem below_foreachStatement (h : Makes root inner) (hn : root.Within n) (l : Lowering) :
    LowersBelow root n l (s.foreachStatement inner n l).1
      (s.foreachStatement inner n l).2.childIds := by
  have hbody : ∀ name type (l : Lowering), LowersBelow root n l
      (ifSome inner (n.child? "body") (l.declare name type)).1
      (ifSome inner (n.child? "body") (l.declare name type)).2.toList := fun name type l =>
    ((lowers_declare name type l).below n).trans
      (h.ifSome hn _ (fun c hc => Node.within_of_mem (Node.mem_of_child? hc)) _)
  exact (hbody _ _ _).rescope

theorem lowers_resources (nodes : List Node) (declared : List Variable)
    (resource : Option Expression) (l : Lowering) :
    Lowers root l (s.resources nodes declared resource l).1 [] := by
  induction nodes generalizing declared resource l with
  | nil => exact .refl l
  | cons n rest ih =>
    unfold resources
    split
    · exact (s.lowers_variableDeclaration n l).trans (ih _ _ _)
    · split <;> exact ih _ _ l

theorem below_usingStatement (h : Makes root inner) (hn : root.Within n) (l : Lowering) :
    LowersBelow root n l (s.usingStatement inner n l).1
      (s.usingStatement inner n l).2.childIds := by
  have hinner : ∀ nodes (l : Lowering), LowersBelow root n l
      (ifSome inner (n.child? "body") (s.resources nodes [] none l).1).1
      (ifSome inner (n.child? "body") (s.resources nodes [] none l).1).2.toList := fun nodes l =>
    ((s.lowers_resources nodes [] none l).below n).trans
      (h.ifSome hn _ (fun c hc => Node.within_of_mem (Node.mem_of_child? hc)) _)
  exact (hinner _ _).rescope

theorem below_catchClause (h : Makes root inner) (hn : root.Within n) (l : Lowering) :
    LowersBelow root n l (s.catchClause inner n l).1 (s.catchClause inner n l).2.body.toList := by
  unfold catchClause
  extract_lets declaration written variable_ type enter
  have henter : ∀ l, Lowers root l (enter l) [] := fun l => by
    unfold enter
    clear_value variable_ type
    split
    · exact lowers_declare _ _ l
    · exact .refl l
  have hbody : ∀ l, LowersBelow root n l
      (ifSome (block inner) (n.childOr? "body" "block") (enter l)).1
      (ifSome (block inner) (n.childOr? "body" "block") (enter l)).2.toList := fun l =>
    ((henter l).below n).trans ((makes_block h).ifSome hn _
      (fun c hc => Node.within_of_mem (Node.mem_of_childOr? hc)) _)
  exact (hbody _).rescope

/-- One more clause gives its body behind those of the clauses before. -/
theorem bodies_concat (catches : List (CatchClause (Option StatementId)))
    (clause : CatchClause (Option StatementId)) (ids : List StatementId) :
    (catches.filterMap (·.body) ++ ids ++ clause.body.toList).Perm
      ((catches ++ [clause]).filterMap (·.body) ++ ids) := by
  have hone : [clause].filterMap (·.body) = clause.body.toList := by
    cases hbody : clause.body <;> simp [hbody]
  rw [List.filterMap_append, hone, List.append_assoc, List.append_assoc]
  exact List.perm_append_comm.append_left _

/-- The blocks of all clauses that count are made inside the `try`. An earlier `finally` is only
forgotten if there is a later one. -/
theorem below_clauses (h : Makes root inner) (hn : root.Within n) (nodes : List Node)
    (hnodes : ∀ c ∈ nodes, n.Within c) (catches : List (CatchClause (Option StatementId)))
    (finally_ : Option StatementId)
    (hone : root.OneFinally → finally_.toList.length + nodes.countP Node.isFinally ≤ 1)
    (l₀ l : Lowering)
    (hl : LowersBelow root n l₀ l (catches.filterMap (·.body) ++ finally_.toList)) :
    LowersBelow root n l₀ (s.clauses inner nodes catches finally_ l).1
      ((s.clauses inner nodes catches finally_ l).2.1.filterMap (·.body) ++
        (s.clauses inner nodes catches finally_ l).2.2.toList) := by
  induction nodes generalizing catches finally_ l with
  | nil => exact hl
  | cons c rest ih =>
    have hc := hnodes c List.mem_cons_self
    have hrest : ∀ m ∈ rest, n.Within m := fun m hm => hnodes m (List.mem_cons_of_mem _ hm)
    have hkeep : root.OneFinally → finally_.toList.length + rest.countP Node.isFinally ≤ 1 :=
      fun hroot => by
        have := hone hroot
        rw [List.countP_cons] at this
        omega
    unfold clauses
    split
    · have hclause := hl.trans ((s.below_catchClause h (hn.trans hc) l).outer hc)
      exact ih hrest _ _ hkeep _ (hclause.perm (bodies_concat ..))
    · split
      · rename_i hkind
        have hfinally : c.isFinally = true := hkind
        have hblock := hl.trans (((makes_block h).ifSome (hn.trans hc) (c.namedChild? "block")
          (fun m hm => Node.within_of_mem (Node.mem_of_namedChild? hm)) l).outer hc)
        have hcount : root.OneFinally →
            finally_.toList = [] ∧ rest.countP Node.isFinally = 0 := fun hroot => by
          have := hone hroot
          rw [List.countP_cons_of_pos hfinally] at this
          exact ⟨List.eq_nil_of_length_eq_zero (by omega), by omega⟩
        have hlength : ∀ o : Option StatementId, o.toList.length ≤ 1 := fun o => by
          cases o <;> simp
        refine ih hrest _ _ (fun hroot => ?_) _ (hblock.replace fun hroot => (hcount hroot).1)
        rw [(hcount hroot).2]
        exact hlength _
      · exact ih hrest _ _ hkeep l hl

theorem below_tryStatement (h : Makes root inner) (hn : root.Within n)
    (hkind : n.kind = "try_statement") (l : Lowering) :
    LowersBelow root n l (s.tryStatement inner n l).1 (s.tryStatement inner n l).2.childIds := by
  have hbody := (makes_block h).ifSome hn (n.child? "body")
    (fun c hc => Node.within_of_mem (Node.mem_of_child? hc)) l
  have hclauses := s.below_clauses h hn n.namedChildren
    (fun c hc => Node.within_of_mem (Node.mem_of_mem_namedChildren hc)) [] none
    (fun hroot => by simpa using hroot n hn hkind) _ _
    (.refl n (ifSome (block inner) (n.child? "body") l).1)
  have hall := hbody.trans hclauses
  rw [← List.append_assoc] at hall
  exact hall

/-! ## Statements without a shape -/

theorem lowers_switchSection (h : Makes root inner) (hn : root.Within n) (l : Lowering) :
    Lowers root l (switchSection inner n l).1 [] := by
  have hwithin : ∀ m ∈ n.statements, n.Within m := fun m hm =>
    Node.within_of_mem (Node.mem_of_mem_statements hm)
  obtain ⟨made, hlowers, hfst, hsnd⟩ :=
    h.each n.statements (fun m hm => hn.trans (hwithin m hm)) l
  unfold switchSection
  split
  rename_i l' ids heq
  rw [show List.filter Node.isStatement n.namedChildren = n.statements from rfl] at heq
  rw [heq] at hlowers hfst
  split
  · rename_i hempty
    have hnone : made = [] := by
      rw [List.isEmpty_iff.mp hempty] at hfst
      exact List.map_eq_nil_iff.mp hfst
    exact hnone ▸ hlowers
  · have hids : (made.map Prod.fst).Perm (StatementKind.block ids).childIds := hfst ▸ .refl _
    have hblock := hlowers.push hn hids (fun m hm => hwithin m.2 (hsnd ▸ List.mem_map_of_mem hm))
      fun ids' hkind => ⟨hfst.trans (StatementKind.block.inj hkind), hsnd⟩
    exact hblock.addNestedRoot

theorem lowers_nestedChild (h : Makes root inner) (hn : root.Within n) (l : Lowering) :
    Lowers root l (s.nestedChild inner n l).1 [] := by
  unfold nestedChild
  split
  · exact s.lowers_variableDeclaration n l
  · split
    · refine lowers_each (fun c hc l => ?_) l
      have hmem := Node.mem_of_mem_namedChildren (List.mem_filter.mp hc).1
      exact lowers_switchSection h (hn.child hmem) l
    · split
      · exact (h n hn l).addNestedRoot
      · exact .refl l

theorem below_nestedStatements (h : Makes root inner) (hn : root.Within n) (l : Lowering) :
    LowersBelow root n l (s.nestedStatements inner n l).1
      (s.nestedStatements inner n l).2.childIds := by
  have hchildren := lowers_each (fun c hc l =>
    s.lowers_nestedChild h (hn.child (Node.mem_of_mem_namedChildren hc)) l)
    { l with scopes := Table.empty :: l.scopes }
  exact hchildren.rescope.below n

/-! ## The nesting of statements -/

theorem isBlock_statementKind (inner : Node → Step StatementId) (n : Node) (l : Lowering) :
    (s.statementKind inner n l).2.isBlock = false := by
  unfold statementKind
  split
  · split <;> rfl
  · split <;> rfl
  all_goals rfl

theorem below_statementKind (h : Makes root inner) (hn : root.Within n) (l : Lowering) :
    LowersBelow root n l (s.statementKind inner n l).1
      (s.statementKind inner n l).2.childIds := by
  have hslot : ∀ field l, LowersBelow root n l (ifSome inner (n.child? field) l).1
      (ifSome inner (n.child? field) l).2.toList := fun field l =>
    h.ifSome hn _ (fun c hc => Node.within_of_mem (Node.mem_of_child? hc)) l
  unfold statementKind
  split
  · split <;> exact .refl n l
  · split
    · exact (s.lowers_variableDeclaration _ l).below n
    · exact .refl n l
  · exact (hslot _ l).trans (hslot _ _)
  · exact hslot _ l
  · exact hslot _ l
  · exact s.below_foreachStatement h hn l
  · exact s.below_usingStatement h hn l
  · exact .refl n l
  · exact .refl n l
  · exact .refl n l
  · exact .refl n l
  · rename_i hkind
    exact s.below_tryStatement h hn hkind l
  · exact (s.below_nestedStatements h hn _).rescope
  · exact s.below_nestedStatements h hn l

/-- One statement is made from a node, however deep it goes. -/
theorem makes_statement (room : Nat) : Makes root (s.statement room) := by
  induction room with
  | zero =>
    intro n hn l
    have hnone : LowersBelow root n l l StatementKind.other.childIds := .refl n l
    exact hnone.push hn rfl
  | succ room ih =>
    intro n hn l
    unfold statement
    dsimp only
    split
    · exact makes_block ih n hn l
    · exact (s.below_statementKind ih hn l).push hn (s.isBlock_statementKind ..)

end Setting

end Foresight.CSharp
