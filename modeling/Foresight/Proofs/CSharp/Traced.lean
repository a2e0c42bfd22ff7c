import Foresight.Proofs.CSharp.Trees
import Foresight.Proofs.Code.Labels

/-!
# Statements and the nodes that they were lowered from

A lowered statement is labelled with its node: it has the span of the node, its children come from
nodes further in, and a block lists a statement for each of the statements of its node (`Stems`).
So where the spans of the nodes are in order, those of the statements are (`Traced.spanned`).
-/

namespace Foresight.CSharp

open SourceFile

/-- A statement lowered from a node of a tree, where `nodes` says what its children were lowered
from. -/
structure Stems (root : Node) (nodes : List Node) (s : Statement) (n : Node) : Prop where
  within : root.Within n
  span : s.span = n.span
  children : ∀ c ∈ s.kind.childIds, ∃ m, nodes[c]? = some m ∧ n.Within m
  /-- A block has one statement for each of those of its node, in their order. -/
  listed : ∀ ids, s.kind = .block ids → ids.map (nodes[·]?) = n.statements.map some

/-- Every statement stems from the node at its place. -/
abbrev Traced (root : Node) : SourceFile → List Node → Prop := Labelled fun _ => Stems root

theorem lasting_stems (root : Node) : Lasting fun _ => Stems root := by
  intro file file' nodes s n _ h parent more
  refine ⟨h.within, h.span, fun c hc => ?_, fun ids hids => ?_⟩
  · obtain ⟨m, hm, hwithin⟩ := h.children c hc
    exact ⟨m, getElem?_append_of_eq_some hm more, hwithin⟩
  · exact map_getElem?_append (h.listed ids hids) more

namespace Traced

variable {root : Node} {file : SourceFile} {nodes : List Node}

theorem spanOf?_eq (h : Traced root file nodes) (id : StatementId) :
    file.spanOf? id = nodes[id]?.map Node.span := by
  cases hs : file.get? id with
  | some s =>
    obtain ⟨n, hn, hstems⟩ := h.holds hs
    rw [SourceFile.spanOf?_eq hs, hn, hstems.span, Option.map_some]
  | none =>
    have hge : nodes.length ≤ id := h.length ▸ Array.getElem?_eq_none_iff.mp hs
    rw [spanOf?, hs, List.getElem?_eq_none hge]
    rfl

/-- Statements have the spans of the nodes that they stem from. -/
theorem map_spanOf? (h : Traced root file nodes) {ids : List StatementId} {ns : List Node}
    (hids : ids.map (nodes[·]?) = ns.map some) :
    ids.map file.spanOf? = ns.map fun n => some n.span := by
  have hspans : file.spanOf? = Option.map Node.span ∘ (nodes[·]?) := funext h.spanOf?_eq
  rw [hspans, ← List.map_map, hids, List.map_map]
  rfl

theorem filterMap_spanOf? (h : Traced root file nodes) {ids : List StatementId} {ns : List Node}
    (hids : ids.map (nodes[·]?) = ns.map some) :
    ids.filterMap file.spanOf? = ns.map Node.span := by
  have hspans : ids.filterMap file.spanOf? = (ids.map file.spanOf?).filterMap id := by
    rw [List.filterMap_map]
    rfl
  rw [hspans, h.map_spanOf? hids, List.filterMap_map, ← List.filterMap_eq_map]
  rfl

/-- Spans are nested and ordered like those of the tree. -/
theorem spanned (h : Traced root file nodes) (hroot : root.IsNested) : Spanned file where
  inside := by
    intro id s c t hs hc ht
    obtain ⟨n, hn, hstems⟩ := h.holds hs
    obtain ⟨m, hm, hwithin⟩ := hstems.children c hc
    rw [hstems.span, (h.of_getElem? ht hm).span]
    exact hroot.inside hstems.within hwithin
  ordered := by
    intro id s ids hs hkind
    obtain ⟨n, hn, hstems⟩ := h.holds hs
    rw [h.filterMap_spanOf? (hstems.listed ids hkind), hstems.span]
    exact hroot.statements hstems.within

end Traced

end Foresight.CSharp
