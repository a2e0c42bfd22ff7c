import Mathlib.Data.List.Pairwise
import Foresight.CSharp.Statements
import Foresight.Proofs.Code.Spans

/-!
# Nodes of a syntax tree

`Within root n` says that `n` is a node of the tree `root`. What a parser promises about its trees
is said of all of these nodes: children lie inside their parent and follow each other (`IsNested`),
a `try` has one `finally` clause at most (`OneFinally`), and nodes fit the text that was parsed, the
blocks from a brace on (`IsBraced`).

What both passes collect from a tree, its sites and the bodies in them, are nodes of the tree, and
its top-level statements come in source order (`inOrder_topStatements`).
-/

namespace Foresight.CSharp

namespace Node

/-- The nodes of a tree. -/
inductive Within : (root n : Node) → Prop where
  | self (n : Node) : Within n n
  | inner {root c n : Node} : c ∈ root.children → Within c n → Within root n

theorem within_of_mem {n c : Node} (h : c ∈ n.children) : n.Within c := .inner h (.self c)

theorem Within.trans {root n m : Node} (h : root.Within n) (h' : n.Within m) : root.Within m := by
  induction h with
  | self => exact h'
  | inner hc _ ih => exact .inner hc (ih h')

theorem Within.child {root n c : Node} (h : root.Within n) (hc : c ∈ n.children) :
    root.Within c :=
  h.trans (within_of_mem hc)

section Children

variable {n c : Node}

theorem mem_of_mem_namedChildren (h : c ∈ n.namedChildren) : c ∈ n.children :=
  (List.mem_filter.mp h).1

theorem mem_of_child? {field : String} (h : n.child? field = some c) : c ∈ n.children :=
  List.mem_of_find?_eq_some h

theorem mem_of_namedChild? {kind : String} (h : n.namedChild? kind = some c) : c ∈ n.children :=
  mem_of_mem_namedChildren (List.mem_of_find?_eq_some h)

theorem mem_of_childOr? {field kind : String} (h : n.childOr? field kind = some c) :
    c ∈ n.children := by
  unfold childOr? at h
  cases hchild : n.child? field with
  | none => exact mem_of_namedChild? (by rwa [hchild] at h)
  | some m => exact mem_of_child? (by rwa [hchild] at h ⊢)

/-- The named children that are statements, in source order. -/
def statements (n : Node) : List Node := n.namedChildren.filter Node.isStatement

theorem mem_of_mem_statements (h : c ∈ n.statements) : c ∈ n.children :=
  mem_of_mem_namedChildren (List.mem_filter.mp h).1

theorem statements_sublist (n : Node) : n.statements.Sublist n.children :=
  List.filter_sublist.trans List.filter_sublist

end Children

/-! ## What a parser promises -/

/-- Children lie inside their parent and follow each other. -/
def IsOrdered (n : Node) : Prop := Span.InOrder n.start n.stop (n.children.map Node.span)

def isFinally (n : Node) : Bool := n.kind == "finally_clause"

def FinallyOnce (n : Node) : Prop :=
  n.kind = "try_statement" → n.namedChildren.countP isFinally ≤ 1

instance (n : Node) : Decidable n.IsOrdered := inferInstanceAs (Decidable (Span.InOrder ..))

instance (n : Node) : Decidable n.FinallyOnce := inferInstanceAs (Decidable (_ → _))

/-- The node begins and ends at character boundaries, and a block begins with a brace. -/
def IsBracedAt (source : String) (n : Node) : Prop :=
  n.start ≤ n.stop ∧ String.Pos.Raw.IsValid source ⟨n.start⟩ ∧
    String.Pos.Raw.IsValid source ⟨n.stop⟩ ∧
    (n.kind = "block" → Text.beginsWith "\x7b" (n.text source) = true)

instance (source : String) (n : Node) : Decidable (n.IsBracedAt source) :=
  inferInstanceAs (Decidable (_ ∧ _ ∧ _ ∧ (_ → _)))

/-- All nodes are ordered. -/
def IsNested (root : Node) : Prop := ∀ n, root.Within n → n.IsOrdered

/-- The grammar has at most one `finally` clause in a `try`. -/
def OneFinally (root : Node) : Prop := ∀ n, root.Within n → n.FinallyOnce

/-- All nodes fit the text, and all blocks begin with a brace. -/
def IsBraced (source : String) (root : Node) : Prop := ∀ n, root.Within n → n.IsBracedAt source

variable {root n m : Node}

theorem IsNested.of_within (h : root.IsNested) (hn : root.Within n) : n.IsNested :=
  fun m hm => h m (hn.trans hm)

theorem IsNested.inside (h : root.IsNested) (hn : root.Within n) (hm : n.Within m) :
    m.span.Inside n.span := by
  induction hm with
  | self n => exact ⟨Nat.le_refl _, (h n hn).le, Nat.le_refl _⟩
  | inner hc _ ih =>
    have hinside := (h _ hn).inside (List.mem_map_of_mem hc)
    exact (ih (hn.child hc)).trans hinside

/-- Of two nodes, one is inside the other or they are apart. -/
theorem IsNested.laminar (h : root.IsNested) (hn : root.Within n) (hm : root.Within m) :
    n.span.Laminar m.span := by
  induction hn generalizing m with
  | self n => exact Or.inr (Or.inl (h.inside (.self n) hm))
  | @inner root c n hc hn ih =>
    cases hm with
    | self => exact Or.inl (h.inside (.self root) (.inner hc hn))
    | @inner _ d _ hd hm =>
      have hbelow : ∀ {c}, c ∈ root.children → root.Within c := within_of_mem
      by_cases heq : c = d
      · subst heq
        exact ih (h.of_within (hbelow hc)) hm
      · have hsiblings := List.pairwise_map.mp (h root (.self root)).pairwise_apart
        have : Std.Symm fun a b : Node => a.span.Apart b.span := ⟨fun _ _ hab => hab.symm⟩
        have hapart := hsiblings.forall hc hd heq
        exact Or.inr (Or.inr
          (hapart.inside (h.inside (hbelow hc) hn) (h.inside (hbelow hd) hm)))

/-- The statements of a node follow each other inside it. -/
theorem IsNested.statements (h : root.IsNested) (hn : root.Within n) :
    Span.InOrder n.start n.stop (n.statements.map Node.span) :=
  (h n hn).sublist (n.statements_sublist.map Node.span)

/-! ### Deciding it -/

mutual

/-- Whether all nodes of a tree have a property. -/
def all (p : Node → Bool) : Node → Bool
  | n@⟨_, _, _, _, _, children⟩ => p n && allOf p children

def allOf (p : Node → Bool) : List Node → Bool
  | [] => true
  | n :: rest => all p n && allOf p rest

end

mutual

theorem all_iff {p : Node → Bool} :
    ∀ root : Node, all p root = true ↔ ∀ n, root.Within n → p n = true
  | ⟨_, _, _, _, _, children⟩ => by
    rw [all, Bool.and_eq_true, allOf_iff children]
    constructor
    · rintro ⟨hself, hchildren⟩ n hn
      cases hn with
      | self => exact hself
      | inner hc hn => exact hchildren _ hc n hn
    · intro h
      exact ⟨h _ (.self _), fun c hc n hn => h n (.inner hc hn)⟩

theorem allOf_iff {p : Node → Bool} :
    ∀ nodes : List Node, allOf p nodes = true ↔ ∀ root ∈ nodes, ∀ n, root.Within n → p n = true
  | [] => by simp [allOf]
  | first :: rest => by
    rw [allOf, Bool.and_eq_true, all_iff first, allOf_iff rest, List.forall_mem_cons]

end

instance (root : Node) : Decidable root.IsNested :=
  decidable_of_iff (root.all fun n => decide n.IsOrdered) <| by
    simp only [all_iff, decide_eq_true_eq, IsNested]

instance (root : Node) : Decidable root.OneFinally :=
  decidable_of_iff (root.all fun n => decide n.FinallyOnce) <| by
    simp only [all_iff, decide_eq_true_eq, OneFinally]

instance (source : String) (root : Node) : Decidable (root.IsBraced source) :=
  decidable_of_iff (root.all fun n => decide (n.IsBracedAt source)) <| by
    simp only [all_iff, decide_eq_true_eq, IsBraced]

end Node

/-! ## Sites and bodies -/

namespace Site

def node : Site → Node
  | .type _ n | .statement _ n => n

/-- The statement of a top-level site. -/
def topStatement? : Site → Option Node
  | .type .. => none
  | .statement _ n => n.namedChildren.head?

end Site

/-- The top-level statements of a file. -/
def topStatements (source : String) (root : Node) : List Node :=
  (sites source root).filterMap Site.topStatement?

section Sites

variable (source : String)

mutual

theorem within_of_mem_sitesOf (namespace_ : String) :
    ∀ (n : Node) (site : Site), site ∈ sitesOf source namespace_ n → n.Within site.node
  | ⟨_, _, _, _, _, children⟩, site, h => by
    unfold sitesOf at h
    split at h
    · split at h
      · obtain ⟨c, hc, hsite⟩ := within_of_mem_sitesInBody _ children site h
        exact .inner hc hsite
      · cases h
    · split at h
      · split at h
        · obtain ⟨c, hc, hsite⟩ := within_of_mem_sitesOfAll _ children site h
          exact .inner hc hsite
        · cases h
      · split at h
        · obtain rfl := List.mem_singleton.mp h
          exact .self _
        · split at h
          · obtain rfl := List.mem_singleton.mp h
            exact .self _
          · cases h

theorem within_of_mem_sitesOfAll (namespace_ : String) :
    ∀ (nodes : List Node) (site : Site), site ∈ sitesOfAll source namespace_ nodes →
      ∃ n ∈ nodes, n.Within site.node
  | [], _, h => by cases h
  | n :: rest, site, h => by
    rw [sitesOfAll] at h
    rcases List.mem_append.mp h with h | h
    · split at h
      · exact ⟨n, List.mem_cons_self, within_of_mem_sitesOf _ n site h⟩
      · cases h
    · obtain ⟨m, hm, hsite⟩ := within_of_mem_sitesOfAll _ rest site h
      exact ⟨m, List.mem_cons_of_mem _ hm, hsite⟩

theorem within_of_mem_sitesInBody (namespace_ : String) :
    ∀ (nodes : List Node) (site : Site), site ∈ sitesInBody source namespace_ nodes →
      ∃ n ∈ nodes, n.Within site.node
  | [], _, h => by cases h
  | ⟨_, _, _, _, _, children⟩ :: rest, site, h => by
    unfold sitesInBody at h
    split at h
    · obtain ⟨c, hc, hsite⟩ := within_of_mem_sitesOfAll _ children site h
      exact ⟨_, List.mem_cons_self, .inner hc hsite⟩
    · obtain ⟨m, hm, hsite⟩ := within_of_mem_sitesInBody _ rest site h
      exact ⟨m, List.mem_cons_of_mem _ hm, hsite⟩

end

theorem within_of_mem_sites {root : Node} {site : Site} (h : site ∈ sites source root) :
    root.Within site.node := by
  obtain ⟨c, hc, hsite⟩ := within_of_mem_sitesOfAll source _ _ _ h
  exact .inner hc hsite

/-- What stands at a site of either kind. -/
def Site.Fits : Site → Prop
  | .type _ n => n.declaresType = true
  | .statement _ n => n.kind = "global_statement"

mutual

theorem fits_of_mem_sitesOf (namespace_ : String) :
    ∀ (n : Node) (site : Site), site ∈ sitesOf source namespace_ n → site.Fits
  | ⟨_, _, _, _, _, children⟩, site, h => by
    unfold sitesOf at h
    split at h
    · split at h
      · exact fits_of_mem_sitesInBody _ children site h
      · cases h
    · split at h
      · split at h
        · exact fits_of_mem_sitesOfAll _ children site h
        · cases h
      · split at h
        · rename_i hkind
          obtain rfl := List.mem_singleton.mp h
          exact beq_iff_eq.mp hkind
        · split at h
          · rename_i htype
            obtain rfl := List.mem_singleton.mp h
            exact htype
          · cases h

theorem fits_of_mem_sitesOfAll (namespace_ : String) :
    ∀ (nodes : List Node) (site : Site), site ∈ sitesOfAll source namespace_ nodes → site.Fits
  | [], _, h => by cases h
  | n :: rest, site, h => by
    rw [sitesOfAll] at h
    rcases List.mem_append.mp h with h | h
    · split at h
      · exact fits_of_mem_sitesOf _ n site h
      · cases h
    · exact fits_of_mem_sitesOfAll _ rest site h

theorem fits_of_mem_sitesInBody (namespace_ : String) :
    ∀ (nodes : List Node) (site : Site), site ∈ sitesInBody source namespace_ nodes → site.Fits
  | [], _, h => by cases h
  | ⟨_, _, _, _, _, children⟩ :: rest, site, h => by
    unfold sitesInBody at h
    split at h
    · exact fits_of_mem_sitesOfAll _ children site h
    · exact fits_of_mem_sitesInBody _ rest site h

end

theorem fits_of_mem_sites {root : Node} {site : Site} (h : site ∈ sites source root) : site.Fits :=
  fits_of_mem_sitesOfAll source _ _ _ h

/-- A top-level site has at most the statement that it begins with. -/
theorem sublist_topStatement? (namespace_ : String) (n : Node) :
    ([Site.statement namespace_ n].filterMap Site.topStatement?).Sublist n.children := by
  have hnamed : n.namedChildren.Sublist n.children := List.filter_sublist
  rw [List.filterMap_cons, Site.topStatement?]
  cases hhead : n.namedChildren.head? with
  | none => exact List.nil_sublist _
  | some c => exact (List.singleton_sublist.mpr (List.mem_of_mem_head? hhead)).trans hnamed

mutual

theorem inOrder_sitesOf (namespace_ : String) : ∀ n : Node, n.IsNested →
    Span.InOrder n.start n.stop
      (((sitesOf source namespace_ n).filterMap Site.topStatement?).map Node.span)
  | ⟨_, _, _, start, stop, children⟩, h => by
    have hself : Span.InOrder start stop (children.map Node.span) := h _ (.self _)
    have hnone : Span.InOrder start stop [] := hself.le
    have hchildren : ∀ c ∈ children, c.IsNested := fun c hc => h.of_within (.inner hc (.self c))
    unfold sitesOf
    split
    · split
      · exact inOrder_sitesInBody _ children start stop hchildren hself
      · exact hnone
    · split
      · split
        · exact inOrder_sitesOfAll _ children start stop hchildren hself
        · exact hnone
      · split
        · exact hself.sublist ((sublist_topStatement? ..).map Node.span)
        · split <;> exact hnone

theorem inOrder_sitesOfAll (namespace_ : String) :
    ∀ (nodes : List Node) (start stop : Nat), (∀ n ∈ nodes, n.IsNested) →
      Span.InOrder start stop (nodes.map Node.span) →
      Span.InOrder start stop
        (((sitesOfAll source namespace_ nodes).filterMap Site.topStatement?).map Node.span)
  | [], _, _, _, h => h
  | n :: rest, start, stop, hnested, h => by
    obtain ⟨hstart, hspan, hrest⟩ := h
    have hbehind := inOrder_sitesOfAll namespace_ rest _ stop
      (fun m hm => hnested m (List.mem_cons_of_mem _ hm)) hrest
    have hfirst : Span.InOrder n.start n.stop
        (((if n.isNamed then sitesOf source namespace_ n else []).filterMap
          Site.topStatement?).map Node.span) := by
      split
      · exact inOrder_sitesOf namespace_ n (hnested n List.mem_cons_self)
      · exact hspan
    rw [sitesOfAll, List.filterMap_append, List.map_append]
    exact (hfirst.append hbehind).widen hstart (Nat.le_refl _)

theorem inOrder_sitesInBody (namespace_ : String) :
    ∀ (nodes : List Node) (start stop : Nat), (∀ n ∈ nodes, n.IsNested) →
      Span.InOrder start stop (nodes.map Node.span) →
      Span.InOrder start stop
        (((sitesInBody source namespace_ nodes).filterMap Site.topStatement?).map Node.span)
  | [], _, _, _, h => h
  | ⟨_, _, _, first, last, children⟩ :: rest, start, stop, hnested, h => by
    obtain ⟨hstart, hspan, hrest⟩ := h
    have hn := hnested _ List.mem_cons_self
    unfold sitesInBody
    split
    · have hbody := inOrder_sitesOfAll namespace_ children first last
        (fun c hc => hn.of_within (.inner hc (.self c))) (hn _ (.self _))
      exact hbody.widen hstart hrest.le
    · have hbehind := inOrder_sitesInBody namespace_ rest _ stop
        (fun m hm => hnested m (List.mem_cons_of_mem _ hm)) hrest
      exact hbehind.widen (Nat.le_trans hstart hspan) (Nat.le_refl _)

end

/-- The top-level statements of a file follow each other. -/
theorem inOrder_topStatements {root : Node} (h : root.IsNested) :
    Span.InOrder root.start root.stop ((topStatements source root).map Node.span) :=
  inOrder_sitesOfAll source "" root.children _ _
    (fun c hc => h.of_within (.inner hc (.self c))) (h root (.self root))

/-- The bodies of a member are inside it. -/
theorem within_of_mem_memberBodies {n body : Node} (h : body ∈ memberBodies n) :
    n.Within body := by
  unfold memberBodies at h
  extract_lets bodies at h
  have hmem : body ∈ bodies := (List.mem_filter.mp h).1
  unfold bodies at hmem
  split at hmem
  · exact Node.within_of_mem (Node.mem_of_child? (Option.mem_toList.mp hmem))
  · split at hmem
    · split at hmem
      · rename_i accessors haccessors
        obtain ⟨accessor, haccessor, hbody⟩ := List.mem_filterMap.mp hmem
        exact .inner (Node.mem_of_childOr? haccessors)
          (.inner (Node.mem_of_mem_namedChildren haccessor)
            (Node.within_of_mem (Node.mem_of_childOr? hbody)))
      · cases hmem
    · cases hmem

mutual

theorem within_of_mem_bodiesOf (namespace_ : String) :
    ∀ (n : Node) (b : MemberBody), b ∈ bodiesOf source namespace_ n → n.Within b.body
  | ⟨_, _, _, _, _, children⟩, b, h => by
    unfold bodiesOf at h
    split at h
    · obtain ⟨c, hc, hb⟩ := within_of_mem_bodiesInBody _ _ _ children b h
      exact .inner hc hb
    · cases h

theorem within_of_mem_bodiesInBody (namespace_ : String) (type : QualifiedName)
    (isBody : Node → Bool) :
    ∀ (nodes : List Node) (b : MemberBody),
      b ∈ bodiesInBody source namespace_ type isBody nodes → ∃ n ∈ nodes, n.Within b.body
  | [], _, h => by cases h
  | ⟨_, _, _, _, _, children⟩ :: rest, b, h => by
    unfold bodiesInBody at h
    split at h
    · obtain ⟨c, hc, hb⟩ := within_of_mem_bodiesOfAll _ _ children b h
      exact ⟨_, List.mem_cons_self, .inner hc hb⟩
    · obtain ⟨m, hm, hb⟩ := within_of_mem_bodiesInBody _ _ _ rest b h
      exact ⟨m, List.mem_cons_of_mem _ hm, hb⟩

theorem within_of_mem_bodiesOfAll (namespace_ : String) (type : QualifiedName) :
    ∀ (nodes : List Node) (b : MemberBody),
      b ∈ bodiesOfAll source namespace_ type nodes → ∃ n ∈ nodes, n.Within b.body
  | [], _, h => by cases h
  | n :: rest, b, h => by
    rw [bodiesOfAll] at h
    rcases List.mem_append.mp h with h | h
    · refine ⟨n, List.mem_cons_self, ?_⟩
      split at h
      · split at h
        · exact within_of_mem_bodiesOf _ n b h
        · obtain ⟨body, hbody, rfl⟩ := List.mem_map.mp h
          exact within_of_mem_memberBodies hbody
      · cases h
    · obtain ⟨m, hm, hb⟩ := within_of_mem_bodiesOfAll _ _ rest b h
      exact ⟨m, List.mem_cons_of_mem _ hm, hb⟩

end

end Sites

end Foresight.CSharp
