import Foresight.Proofs.CSharp.Lowered

/-!
# Lowered files

Between the sites of a file, the statements of earlier top-level sites and the nested roots wait
(`Kept`) until they become children of the closing block or roots. All of them stem from nodes of
the tree, those that wait from the top-level statements so far (`Sited`).

So the model of a file is a forest, and if the spans of the tree are nested, so are those of the
model (`lowerFile_mirrors_tree`).
-/

namespace Foresight.CSharp

open SourceFile Lowering

variable {root : Node}

/-- Between two sites the file is a forest, in which the statements `ids` of the sites before and
the nested roots wait for a parent or to be roots. -/
structure Kept (root : Node) (l : Lowering) (ids : List StatementId) : Prop where
  forest : Forest l.file
  loose : Loose l.file (ids ++ l.nestedRoots)
  covered : root.OneFinally → ∀ id s, l.file.get? id = some s → s.parent = none →
    id ∈ l.file.roots ++ (ids ++ l.nestedRoots)

namespace Kept

variable {l l' : Lowering} {ids : List StatementId} {made : List (StatementId × Node)}

theorem lowers (h : Kept root l ids) (hl : Lowers root l l' made) :
    Kept root l' (ids ++ made.map Prod.fst) := by
  obtain ⟨found, hleaves⟩ := hl
  have hperm : (ids ++ made.map Prod.fst ++ l'.nestedRoots).Perm
      (ids ++ l.nestedRoots ++ (made.map Prod.fst ++ found)) := by
    rw [hleaves.nestedRoots]
    exact perm_exchange ..
  refine ⟨hleaves.grows.forest h.forest, (hleaves.grows.loose h.forest h.loose).perm hperm,
    fun hone id s hs hnone => ?_⟩
  rw [hleaves.grows.roots, List.mem_append, hperm.mem_iff, List.mem_append]
  rcases Nat.lt_or_ge id l.file.statementCount with hlt | hge
  · rw [hleaves.grows.old id hlt] at hs
    rcases List.mem_append.mp (h.covered hone id s hs hnone) with hroot | hwaits
    · exact Or.inl hroot
    · exact Or.inr (Or.inl hwaits)
  · exact Or.inr (Or.inr (hleaves.covers hone id s hge hs hnone))

/-- A block around all the statements that wait takes their place. -/
theorem push_block (h : Kept root l ids) (span : Span) :
    Kept root (push (.block ids) span l).1 ([] ++ [(push (.block ids) span l).2]) := by
  refine ⟨h.forest.push span (h.loose.sublist (List.sublist_append_left ..)),
    h.loose.push h.forest span, fun hone id s hs hnone => ?_⟩
  rcases l.file.push_cases _ span hs with ⟨rfl, -⟩ | ⟨t, ht, rfl⟩
  · exact List.mem_append_right _ List.mem_cons_self
  · dsimp only at hnone
    split at hnone
    · cases hnone
    · rename_i hnot
      rw [List.mem_append]
      rcases List.mem_append.mp (h.covered hone id t ht hnone) with hroot | hwaits
      · exact Or.inl ((l.file.roots_push (.block ids) span).symm ▸ hroot)
      · rcases List.mem_append.mp hwaits with hmem | hmem
        · exact absurd hmem hnot
        · exact Or.inr (List.mem_cons_of_mem _ hmem)

/-- One of the statements that wait becomes a root. -/
theorem addRoot {id : StatementId} (h : Kept root l (ids ++ [id])) :
    Kept root { l with file := l.file.addRoot id } ids := by
  have hperm : (id :: (ids ++ l.nestedRoots)).Perm (ids ++ [id] ++ l.nestedRoots) :=
    List.perm_middle.symm.trans (by rw [List.append_assoc]; rfl)
  have hloose : Loose l.file (id :: (ids ++ l.nestedRoots)) := h.loose.perm hperm
  obtain ⟨hforest, hrest⟩ := h.forest.addRoot hloose
  refine ⟨hforest, hrest, fun hone c s hs hnone => ?_⟩
  have hc := h.covered hone c s (by rw [hloose.addRoot_eq] at hs; exact hs) hnone
  rw [List.mem_append, ← hperm.mem_iff, List.mem_cons] at hc
  show c ∈ (l.file.addRoot id).roots ++ _
  rw [hloose.addRoot_eq, List.mem_append, List.mem_append, List.mem_singleton]
  rcases hc with hc | hc | hc
  · exact Or.inl (Or.inl hc)
  · exact Or.inl (Or.inr hc)
  · exact Or.inr hc

theorem addNestedRoots_eq (h : Kept root l ids) : addNestedRoots l =
    { l with
      file := { l.file with roots := l.file.roots ++ l.nestedRoots }
      nestedRoots := [] } := by
  rw [addNestedRoots, h.forest.addRoots_eq (h.loose.perm List.perm_append_comm)]

theorem addNestedRoots (h : Kept root l ids) : Kept root (addNestedRoots l) ids := by
  obtain ⟨hforest, hloose⟩ := h.forest.addRoots (h.loose.perm List.perm_append_comm)
  refine ⟨hforest, by rwa [CSharp.addNestedRoots, List.append_nil], fun hone id s hs hnone => ?_⟩
  rw [h.addNestedRoots_eq] at hs ⊢
  have hid := h.covered hone id s hs hnone
  simp only [List.mem_append, List.append_nil] at hid ⊢
  rcases hid with hid | hid | hid
  · exact Or.inl (Or.inl hid)
  · exact Or.inr hid
  · exact Or.inl (Or.inr hid)

theorem rooted (h : Kept root l []) (hone : root.OneFinally) (hnested : l.nestedRoots = []) :
    Rooted l.file := by
  intro id s hs hnone
  have hid := h.covered hone id s hs hnone
  rwa [hnested, List.append_nil, List.append_nil] at hid

end Kept

/-! ## Sites -/

/-- What is kept between two sites, where the statements that wait stem from the nodes `tops`.
Nested roots wait for the closing block only. -/
structure Sited (root : Node) (l : Lowering) (ids : List StatementId) (tops : List Node) :
    Prop where
  kept : Kept root l ids
  traced : ∃ nodes, Traced root l.file nodes ∧ ids.map (nodes[·]?) = tops.map some
  settled : ids = [] → l.nestedRoots = []

namespace Sited

variable {l l' : Lowering} {ids : List StatementId} {tops : List Node} {id : StatementId}
  {n : Node}

/-- One more top-level statement waits. -/
theorem statement (h : Sited root l ids tops) (hl : Lowers root l l' [(id, n)]) :
    Sited root l' (ids ++ [id]) (tops ++ [n]) where
  kept := h.kept.lowers hl
  traced := by
    obtain ⟨found, hleaves⟩ := hl
    obtain ⟨nodes, hnodes, hids⟩ := h.traced
    obtain ⟨more, hmore, hmade⟩ := hleaves.traced hnodes
    have hnew := Lowers.map_getElem?_made hmade
    refine ⟨nodes ++ more, hmore, ?_⟩
    rw [List.map_append, List.map_append, map_getElem?_append hids]
    exact congrArg _ hnew
  settled hnil := absurd hnil (by simp)

/-- A body becomes a root, and so do the nested roots. -/
theorem body (h : Sited root l ids tops) (hl : Lowers root l l' [(id, n)]) :
    Sited root (addNestedRoots { l' with file := l'.file.addRoot id }) ids tops := by
  have hkept : Kept root { l' with file := l'.file.addRoot id } ids := (h.kept.lowers hl).addRoot
  refine ⟨hkept.addNestedRoots, ?_, fun _ => rfl⟩
  obtain ⟨found, hleaves⟩ := hl
  obtain ⟨nodes, hnodes, hids⟩ := h.traced
  obtain ⟨more, hmore, -⟩ := hleaves.traced hnodes
  refine ⟨nodes ++ more, ?_, map_getElem?_append hids more⟩
  rw [hkept.addNestedRoots_eq]
  exact hmore.of_eq (lasting_stems root) (statements_addRoot ..)
    ⟨"", (text_addRoot ..).trans String.append_empty.symm⟩

theorem lowerBody (setting : Setting) {b : MemberBody} (hb : root.Within b.body)
    (h : Sited root l ids tops) : Sited root (lowerBody setting b l) ids tops := by
  have hblock := fun (setting : Setting) (scopes : Scopes) =>
    Setting.makes_block (setting.makes_statement maxStatementDepth) b.body hb
      { l with scopes := scopes }
  exact h.body (hblock _ _).rescope

theorem lowerBodies (setting : Setting) {bodies : List MemberBody}
    (hbodies : ∀ b ∈ bodies, root.Within b.body) (h : Sited root l ids tops) :
    Sited root (bodies.foldl (fun l b => CSharp.lowerBody setting b l) l) ids tops := by
  induction bodies generalizing l with
  | nil => exact h
  | cons b rest ih =>
    have hfirst := h.lowerBody setting (hbodies b List.mem_cons_self)
    exact ih (fun c hc => hbodies c (List.mem_cons_of_mem _ hc)) hfirst

end Sited

variable {f : FileLowering} {tops : List Node}

theorem sited_lowerSite (setting : Setting) {site : Site} (hsite : root.Within site.node)
    (h : Sited root f.lowering f.statements tops) :
    Sited root (lowerSite setting f site).lowering (lowerSite setting f site).statements
      (tops ++ site.topStatement?.toList) := by
  cases site with
  | type namespace_ n =>
    rw [Site.topStatement?, Option.toList_none, List.append_nil]
    refine h.lowerBodies setting fun b hb => ?_
    exact hsite.trans (within_of_mem_bodiesOf setting.source namespace_ n b hb)
  | statement namespace_ n =>
    unfold lowerSite
    rw [Site.topStatement?]
    dsimp only
    cases hhead : n.namedChildren.head? with
    | none =>
      rw [Option.toList_none, List.append_nil]
      exact h
    | some child =>
      have hmem := Node.mem_of_mem_namedChildren (List.mem_of_mem_head? hhead)
      have hmakes := fun setting : Setting => setting.makes_statement maxStatementDepth child
        (Node.Within.child hsite hmem) { f.lowering with scopes := f.globals :: f.lowering.scopes }
      exact h.statement (hmakes _).rescope

theorem sited_lowerSites (setting : Setting) {sites : List Site}
    (hsites : ∀ site ∈ sites, root.Within site.node)
    (h : Sited root f.lowering f.statements tops) :
    Sited root (sites.foldl (lowerSite setting) f).lowering
      (sites.foldl (lowerSite setting) f).statements
      (tops ++ sites.filterMap Site.topStatement?) := by
  induction sites generalizing f tops with
  | nil => rwa [List.filterMap_nil, List.append_nil]
  | cons site rest ih =>
    have hfirst := sited_lowerSite setting (hsites site List.mem_cons_self) h
    have hall := ih (fun other hother => hsites other (List.mem_cons_of_mem _ hother)) hfirst
    rw [List.append_assoc] at hall
    have htops : (site :: rest).filterMap Site.topStatement? =
        site.topStatement?.toList ++ rest.filterMap Site.topStatement? := by
      cases htop : site.topStatement? <;> simp [htop]
    rwa [htops]

/-! ## The tree in the model -/

/-- How the statements of a file mirror a tree: each stems from its node, and a block has the spans
of the statements of that node. The only one without a node is the root around the top-level
statements, if there are any. -/
structure Mirrors (source : String) (root : Node) (file : SourceFile) (nodes : List Node) :
    Prop where
  length : file.statementCount =
    nodes.length + if (topStatements source root).isEmpty then 0 else 1
  statement : ∀ {id s n}, file.get? id = some s → nodes[id]? = some n →
    Stems root nodes s n ∧ ∀ ids, s.kind = .block ids →
      ids.map file.spanOf? = n.statements.map fun c => some c.span
  closing : ∀ {id s}, file.get? id = some s → nodes[id]? = none →
    id ∈ file.roots ∧ ∃ ids, s.kind = .block ids ∧
      ids.map (nodes[·]?) = (topStatements source root).map some

/-- The file with a block around the statements that wait. -/
def closed (f : FileLowering) (span : Span) : Lowering :=
  let (l, block) := push (.block f.statements) span f.lowering
  addNestedRoots { l with file := l.file.addRoot block }

theorem Kept.file_closed (h : Kept root f.lowering f.statements) (span : Span) :
    (closed f span).file =
      { (f.lowering.file.push (.block f.statements) span).1 with
        roots := f.lowering.file.roots ++ [f.lowering.file.statementCount] ++
          f.lowering.nestedRoots } := by
  have hblock := h.push_block span
  have hadd := Loose.addRoot_eq hblock.loose
  have hroots := f.lowering.file.roots_push (.block f.statements) span
  show (CSharp.addNestedRoots { (push (.block f.statements) span f.lowering).1 with
    file := (push (.block f.statements) span f.lowering).1.file.addRoot
      (push (.block f.statements) span f.lowering).2 }).file = _
  rw [hblock.addRoot.addNestedRoots_eq, hadd, ← hroots]
  rfl

/-- A closed file is a forest, and rooted unless some `try` has two `finally` clauses. -/
theorem Kept.closed (h : Kept root f.lowering f.statements) (span : Span) :
    Forest (closed f span).file ∧ (root.OneFinally → Rooted (closed f span).file) := by
  have hend := (h.push_block span).addRoot.addNestedRoots
  exact ⟨hend.forest, fun hone => hend.rooted hone rfl⟩

/-- The span from the first top-level statement to the last one. -/
def closingSpan (f : FileLowering) (first last : StatementId) : Span :=
  let start := ((f.lowering.file.get? first).map (·.span.start)).getD 0
  ⟨start, ((f.lowering.file.get? last).map (·.span.stop)).getD start⟩

theorem closeStatements_cases (f : FileLowering) :
    (f.statements = [] ∧ closeStatements f = f.lowering.file) ∨
      ∃ first last, f.statements.head? = some first ∧ f.statements.getLast? = some last ∧
        closeStatements f = (closed f (closingSpan f first last)).file := by
  unfold closeStatements closed
  cases hstatements : f.statements with
  | nil => exact Or.inl ⟨rfl, rfl⟩
  | cons first rest =>
    obtain ⟨last, hlast⟩ : ∃ last, (first :: rest).getLast? = some last :=
      ⟨_, List.getLast?_eq_some_getLast (List.cons_ne_nil first rest)⟩
    refine Or.inr ⟨first, last, rfl, hlast, ?_⟩
    rw [hlast]
    rfl

/-! ### What is true of a closed file -/

namespace Sited

variable {source : String}

theorem forest_closeStatements (h : Sited root f.lowering f.statements tops) :
    Forest (closeStatements f) ∧ (root.OneFinally → Rooted (closeStatements f)) := by
  rcases closeStatements_cases f with ⟨hnil, heq⟩ | ⟨first, last, -, -, heq⟩
  · have hkept := h.kept
    rw [hnil] at hkept
    rw [heq]
    exact ⟨hkept.forest, fun hone => hkept.rooted hone (h.settled hnil)⟩
  · rw [heq]
    exact h.kept.closed _

/-- The closing block runs from the first top-level statement to the last one. -/
theorem inOrder_closingSpan (h : Sited root f.lowering f.statements tops)
    (htops : Span.InOrder root.start root.stop (tops.map Node.span)) {first last : StatementId}
    (hfirst : f.statements.head? = some first) (hlast : f.statements.getLast? = some last) :
    Span.InOrder (closingSpan f first last).start (closingSpan f first last).stop
      (f.statements.filterMap f.lowering.file.spanOf?) := by
  obtain ⟨nodes, hnodes, hids⟩ := h.traced
  have hexists : ∀ c ∈ f.statements, ∃ s, f.lowering.file.get? c = some s := fun c hc =>
    f.lowering.file.exists_get? (hnodes.length ▸ lt_of_map_getElem? hids hc)
  obtain ⟨rest, hrest⟩ := List.head?_eq_some_iff.mp hfirst
  obtain ⟨init, hinit⟩ := List.getLast?_eq_some_iff.mp hlast
  obtain ⟨a, ha⟩ := hexists first (hrest ▸ List.mem_cons_self)
  obtain ⟨b, hb⟩ := hexists last (hinit ▸ List.mem_append_right _ List.mem_cons_self)
  have hhead : (f.statements.filterMap f.lowering.file.spanOf?).head? = some a.span := by
    rw [hrest, List.filterMap_cons, spanOf?_eq ha]
    rfl
  have hend : (f.statements.filterMap f.lowering.file.spanOf?).getLast? = some b.span := by
    rw [hinit, List.filterMap_append, List.filterMap_cons, spanOf?_eq hb]
    exact List.getLast?_concat
  have hspan : closingSpan f first last = ⟨a.span.start, b.span.stop⟩ := by
    simp only [closingSpan, ha, hb, Option.map_some, Option.getD_some]
  rw [← hnodes.filterMap_spanOf? hids] at htops
  have hclose := htops.tighten hhead hend
  rw [hspan]
  exact hclose

theorem spanned_closeStatements (h : Sited root f.lowering f.statements tops)
    (hroot : root.IsNested)
    (htops : Span.InOrder root.start root.stop (tops.map Node.span)) :
    Spanned (closeStatements f) := by
  obtain ⟨nodes, hnodes, hids⟩ := h.traced
  have hspanned := hnodes.spanned hroot
  rcases closeStatements_cases f with ⟨-, heq⟩ | ⟨first, last, hfirst, hlast, heq⟩
  · rwa [heq]
  · rw [heq, h.kept.file_closed]
    have hlt : ∀ c ∈ f.statements, c < f.lowering.file.statementCount := fun c hc =>
      hnodes.length ▸ lt_of_map_getElem? hids hc
    have hpushed := hspanned.push_block h.kept.forest hlt
      (h.inOrder_closingSpan htops hfirst hlast)
    exact ⟨hpushed.inside, hpushed.ordered⟩

/-- Without top-level statements, every statement has a node. -/
theorem mirrors_of_traced {file : SourceFile} {nodes : List Node} (h : Traced root file nodes)
    (htops : topStatements source root = []) : Mirrors source root file nodes where
  length := by
    rw [htops]
    exact h.length.symm
  statement := by
    intro id s n hs hn
    have hstems := h.of_getElem? hs hn
    exact ⟨hstems, fun ids hkind => h.map_spanOf? (hstems.listed ids hkind)⟩
  closing hs hnone := absurd hnone (h.getElem?_ne_none hs)

/-- A block around the top-level statements is one more statement, without a node. -/
theorem mirrors_push_block {file : SourceFile} {nodes : List Node} {ids : List StatementId}
    (h : Traced root file nodes) (hids : ids.map (nodes[·]?) = (topStatements source root).map some)
    (htops : topStatements source root ≠ []) (span : Span) {roots : List StatementId}
    (hroot : file.statementCount ∈ roots) :
    Mirrors source root { (file.push (.block ids) span).1 with roots := roots } nodes where
  length := by
    rw [List.isEmpty_eq_false_iff.mpr htops, h.length]
    exact file.statementCount_push (.block ids) span
  statement := by
    intro id s n hs hn
    rcases file.push_cases _ _ hs with ⟨rfl, -⟩ | ⟨t, ht, rfl⟩
    · rw [← h.length, List.getElem?_eq_none (Nat.le_refl _)] at hn
      cases hn
    · have hstems := h.of_getElem? ht hn
      refine ⟨⟨hstems.within, hstems.span, hstems.children, hstems.listed⟩, fun ids' hkind => ?_⟩
      have hlisted := hstems.listed ids' hkind
      rw [← h.map_spanOf? hlisted]
      exact List.map_congr_left fun c hc =>
        file.spanOf?_push_of_lt _ _ (h.length ▸ lt_of_map_getElem? hlisted hc)
  closing := by
    intro id s hs hnone
    rcases file.push_cases _ _ hs with ⟨rfl, rfl⟩ | ⟨t, ht, rfl⟩
    · exact ⟨hroot, ids, rfl, hids⟩
    · exact absurd hnone (h.getElem?_ne_none ht)

theorem exists_mirrors_closeStatements
    (h : Sited root f.lowering f.statements (topStatements source root)) :
    ∃ nodes, Mirrors source root (closeStatements f) nodes := by
  obtain ⟨nodes, hnodes, hids⟩ := h.traced
  refine ⟨nodes, ?_⟩
  rcases closeStatements_cases f with ⟨hnil, heq⟩ | ⟨first, last, hfirst, -, heq⟩
  · rw [hnil] at hids
    rw [heq]
    exact mirrors_of_traced hnodes (List.map_eq_nil_iff.mp hids.symm)
  · rw [heq, h.kept.file_closed]
    refine mirrors_push_block hnodes hids (fun hnone => ?_) _
      (List.mem_append_left _ (List.mem_append_right _ List.mem_cons_self))
    rw [hnone] at hids
    rw [List.map_eq_nil_iff.mp hids] at hfirst
    cases hfirst

end Sited

/-- The state behind the last site. -/
def lowered (path source : String) (index : SymbolIndex) (root : Node) : FileLowering :=
  (sites source root).foldl (lowerSite ⟨source, index, ⟨usings source root, "", none⟩⟩)
    ⟨⟨.new path source, [], []⟩, .empty, []⟩

theorem sited_lowered (path source : String) (index : SymbolIndex) (root : Node) :
    Sited root (lowered path source index root).lowering
      (lowered path source index root).statements (topStatements source root) := by
  have hstart : Sited root ⟨.new path source, [], []⟩ [] [] := {
    kept := ⟨forest_new .., loose_nil _, fun _ id s hs _ => by simp [SourceFile.new, get?] at hs⟩
    traced := ⟨[], labelled_new path source, rfl⟩
    settled := fun _ => rfl }
  exact sited_lowerSites _ (fun site hsite => within_of_mem_sites source hsite)
    (f := ⟨⟨.new path source, [], []⟩, .empty, []⟩) hstart

/-- The model of a file is a forest, whatever its syntax tree. -/
theorem forest_lowerFile (path source : String) (index : SymbolIndex) (root : Node) :
    Forest (lowerFile path source index root) :=
  (sited_lowered path source index root).forest_closeStatements.1

/-- The model of a file over a tree with nested spans. It is a forest, and its spans are nested as
those of the tree are; the statements mirror the nodes that they were lowered from. No two paths
lead from the roots to one statement, and over a tree of the grammar, in which no `try` has two
`finally` clauses, one path leads to each. -/
theorem lowerFile_mirrors_tree (path source : String) (index : SymbolIndex) (root : Node)
    (h : root.IsNested) :
    Forest (lowerFile path source index root) ∧
      Spanned (lowerFile path source index root) ∧
      (∃ nodes, Mirrors source root (lowerFile path source index root) nodes) ∧
      (∀ id way way', Descent (lowerFile path source index root) id way →
        Descent (lowerFile path source index root) id way' → way = way') ∧
      (root.OneFinally → ∀ id < (lowerFile path source index root).statementCount,
        ∃! way, Descent (lowerFile path source index root) id way) := by
  have hsited := sited_lowered path source index root
  obtain ⟨hforest, hrooted⟩ := hsited.forest_closeStatements
  refine ⟨hforest, hsited.spanned_closeStatements h (inOrder_topStatements source h),
    hsited.exists_mirrors_closeStatements, fun id way way' hway hway' => ?_, fun hone id hid => ?_⟩
  · exact hforest.descent_unique hway hway'
  · exact hforest.existsUnique_descent (hrooted hone) hid

/-- The tree of `; class A { void M() { try { ; } finally { } } }`, without its tokens. -/
def tryTree : Node :=
  let node (kind field : String) (start stop : Nat) (children : List Node) : Node :=
    ⟨kind, true, field, start, stop, children⟩
  let tried := node "try_statement" "" 23 44
    [node "block" "body" 27 32 [node "empty_statement" "" 29 30 []],
      node "finally_clause" "" 33 44 [node "block" "" 41 44 []]]
  let method := node "method_declaration" "" 12 46
    [node "identifier" "name" 17 18 [], node "block" "body" 21 46 [tried]]
  node "compilation_unit" "" 0 48
    [node "global_statement" "" 0 1 [node "empty_statement" "" 0 1 []],
      node "class_declaration" "" 2 48
        [node "identifier" "name" 8 9 [], node "declaration_list" "body" 10 48 [method]]]

/-- The model of this tree, in which seven statements hang under two roots. -/
def tryModel : SourceFile :=
  lowerFile "A.cs" "; class A { void M() { try { ; } finally { } } }" .empty tryTree

theorem lowerFile_mirrors_tree_try :
    tryTree.IsNested ∧ tryTree.OneFinally ∧ tryModel.statementCount = 7 ∧
      tryModel.roots = [5, 6] ∧ Forest tryModel ∧ Spanned tryModel ∧
      ∀ id < 7, ∃! way, Descent tryModel id way := by
  have hnested : tryTree.IsNested := by decide
  have hone : tryTree.OneFinally := by decide
  have hcount : tryModel.statementCount = 7 := by decide
  have hroots : tryModel.roots = [5, 6] := by decide
  obtain ⟨hforest, hspanned, -, -, hways⟩ := lowerFile_mirrors_tree "A.cs"
    "; class A { void M() { try { ; } finally { } } }" .empty tryTree hnested
  exact ⟨hnested, hone, hcount, hroots, hforest, hspanned, hcount ▸ hways hone⟩

/-- A tree of `class A { void M() { try { } finally { } finally { } } }` that no grammar gives, with
both clauses in the `try`. -/
def finallyTwiceTree : Node :=
  let node (kind field : String) (start stop : Nat) (children : List Node) : Node :=
    ⟨kind, true, field, start, stop, children⟩
  let tried := node "try_statement" "" 21 52
    [node "block" "body" 25 28 [],
      node "finally_clause" "" 29 40 [node "block" "" 37 40 []],
      node "finally_clause" "" 41 52 [node "block" "" 49 52 []]]
  let method := node "method_declaration" "" 10 54
    [node "identifier" "name" 15 16 [], node "block" "body" 19 54 [tried]]
  node "compilation_unit" "" 0 56
    [node "class_declaration" "" 0 56
      [node "identifier" "name" 6 7 [], node "declaration_list" "body" 8 56 [method]]]

def finallyTwiceModel : SourceFile :=
  lowerFile "A.cs" "class A { void M() { try { } finally { } finally { } } }" .empty
    finallyTwiceTree

/-- The block of the first clause is in the file, and there is no path to it: the `try` keeps the
block of the second one alone. -/
theorem first_finally_unreachable :
    finallyTwiceTree.IsNested ∧ finallyTwiceModel.statementCount = 5 ∧
      ¬ ∃ way, Descent finallyTwiceModel 1 way := by
  have hwalk : finallyTwiceModel.walk = [4, 3, 0, 2] := by decide
  refine ⟨by decide, by decide, fun ⟨way, hway⟩ => ?_⟩
  have hmem : 1 ∈ finallyTwiceModel.walk :=
    (forest_lowerFile ..).grounded.mem_walk_of_descent hway
  rw [hwalk] at hmem
  exact absurd hmem (by decide)

end Foresight.CSharp
