import Foresight.Proofs.Code.Placed
import Foresight.Proofs.Code.Labels
import Foresight.Proofs.Text.Slice

/-!
# Arenas drawn from statement trees

`Drawn file places` labels every statement with the tree that it was laid out from: the statement
`id` stands for the tree at `places[id]`, which has its shape, whose text its span selects, and
whose parts are what its children stand for. From the last of these the pre-order of the arena is
that of the trees (`Drawn.preorder`).
-/

namespace Foresight

namespace StatementKind

/-- The same kind over other children. -/
def mapIds (f : StatementId → StatementId) : StatementKind → StatementKind
  | .block statements => .block (statements.map f)
  | .if_ condition then_ else_ => .if_ condition (then_.map f) (else_.map f)
  | .while_ condition body => .while_ condition (body.map f)
  | .doWhile body condition => .doWhile (body.map f) condition
  | .foreach iterator collection body => .foreach iterator collection (body.map f)
  | .using_ declared resource body => .using_ declared resource (body.map f)
  | .try_ body catches finally_ =>
    .try_ (body.map f) (catches.map fun c => { c with body := c.body.map f }) (finally_.map f)
  | kind => kind

/-- The kind without knowing its children, all of which are written as 0. -/
def shape (kind : StatementKind) : StatementKind := kind.mapIds fun _ => 0

end StatementKind

/-- The shape of the statement that a tree is laid out as. -/
def StatementTree.shape : StatementTree → StatementKind
  | .block statements => .block (statements.map fun _ => 0)
  | .expression e => .expression e
  | .declaration declared => .declaration declared
  | .if_ condition then_ else_ => .if_ condition (then_.map fun _ => 0) (else_.map fun _ => 0)
  | .while_ condition body => .while_ condition (body.map fun _ => 0)
  | .doWhile _ condition => .doWhile (some 0) condition
  | .foreach iterator collection body => .foreach iterator collection (body.map fun _ => 0)
  | .using_ declared body => .using_ declared none (body.map fun _ => 0)
  | .return_ value => .return_ value
  | .break_ => .break_
  | .continue_ => .continue_
  | .empty => .empty
  | .try_ _ catches finally_ =>
    .try_ (some 0) (catches.map fun c => ⟨c.type, c.writtenType, c.variable_, some 0⟩)
      (finally_.map fun _ => 0)
  | .raw _ => .other

namespace Placed

variable {p : Placed}

/-- What has the shape of an empty statement is written as one. -/
theorem text_of_shape_empty (h : p.tree.shape = .empty) : p.text = ";" := by
  obtain ⟨level, tree⟩ := p
  cases tree <;> first | rfl | cases h

/-- What has the shape of a block is written from a brace on. -/
theorem exists_text_of_shape_block {ids : List StatementId} (h : p.tree.shape = .block ids) :
    ∃ rest, p.text = "\x7b" ++ rest := by
  obtain ⟨level, tree⟩ := p
  cases tree with
  | block statements =>
    obtain ⟨lines, hlines⟩ := Layout.exists_writes_emitLines level statements
    refine ⟨"\n" ++ lines ++ (Layout.indentation level ++ "\x7d"), ?_⟩
    rw [text, Layout.emit, Layout.text_closeBlock hlines]
    rfl
  | _ => cases h

end Placed

namespace SourceFile

variable {file file' : SourceFile} {places : List Placed}

/-- A statement that stands for a tree, where `places` says what its children stand for. -/
structure Shows (file : SourceFile) (places : List Placed) (s : Statement) (p : Placed) :
    Prop where
  shape : s.kind.shape = p.tree.shape
  text : Text.slice? file.text s.span.start s.span.stop = some p.text
  /-- The children follow each other inside the statement. -/
  spans : Span.InOrder s.span.start s.span.stop (s.kind.childIds.filterMap file.spanOf?)
  parts : s.kind.childIds.map (places[·]?) = p.parts.map some

/-- Every statement stands for the tree at its place. -/
abbrev Drawn : SourceFile → List Placed → Prop := Labelled Shows

theorem lasting_shows : Lasting Shows := by
  intro file file' places s p hextends h parent more
  refine ⟨h.shape, ?_, ?_, map_getElem?_append h.parts more⟩
  · obtain ⟨written, hwritten⟩ := hextends.text
    rw [hwritten]
    exact Text.slice?_append_right h.text written
  · have hspans : s.kind.childIds.filterMap file'.spanOf? =
        s.kind.childIds.filterMap file.spanOf? :=
      List.filterMap_congr fun id hid => hextends.spanOf? id (lt_of_map_getElem? h.parts hid)
    show Span.InOrder _ _ (s.kind.childIds.filterMap file'.spanOf?)
    rw [hspans]
    exact h.spans

/-! ## The pre-order of the trees -/

/-- A list of statements that stand for trees, with everything below them. -/
theorem map_flatMap_of_places {ids : List StatementId} {ps : List Placed}
    {below : StatementId → List StatementId} (hids : ids.map (places[·]?) = ps.map some)
    (hbelow : ∀ id ∈ ids, ∀ p, places[id]? = some p →
      (below id).map (places[·]?) = p.outline.map some) :
    (ids.flatMap below).map (places[·]?) = (ps.flatMap Placed.outline).map some := by
  have hall : ∀ id ∈ ids, (below id).map (places[·]?) =
      (places[id]?.elim [] Placed.outline).map some := fun id hid => by
    have hp := List.getElem?_eq_getElem (lt_of_map_getElem? hids hid)
    rw [hbelow id hid _ hp, hp, Option.elim_some]
  rw [List.map_flatMap, List.flatMap_congr hall,
    ← List.flatMap_map (places[·]?) fun o => (o.elim [] Placed.outline).map some, hids,
    List.flatMap_map, List.map_flatMap]
  rfl

/-- The pre-order of a statement, along chains that are long enough, is the outline of its tree. -/
theorem Drawn.preorder (h : Drawn file places) {rank : StatementId → Nat}
    (hrank : ∀ {id s c}, file.get? id = some s → c ∈ s.kind.childIds → rank c < rank id)
    {bound : Nat} {id : StatementId} {p : Placed} (hbound : rank id < bound)
    (hp : places[id]? = some p) :
    (file.preorder bound id).map (places[·]?) = p.outline.map some := by
  induction bound generalizing id p with
  | zero => exact absurd hbound (Nat.not_lt_zero _)
  | succ bound ih =>
    have hlt : id < file.statementCount := h.length ▸ (List.getElem?_eq_some_iff.mp hp).1
    obtain ⟨s, hs⟩ := file.exists_get? hlt
    have hshows := h.of_getElem? hs hp
    rw [SourceFile.preorder, hs, Placed.outline_eq, List.map_cons, List.map_cons, hp]
    refine congrArg _ (map_flatMap_of_places hshows.parts fun c hc part hpart => ?_)
    have hlt := hrank hs hc
    exact ih (by omega) hpart

/-- The walk of a file is the outline of the trees that its roots stand for. -/
theorem Drawn.walk (h : Drawn file places) (hf : Forest file) {ps : List Placed}
    (hroots : file.roots.map (places[·]?) = ps.map some) :
    file.walk.map (places[·]?) = (ps.flatMap Placed.outline).map some := by
  obtain ⟨rank, hbound, hrank⟩ := hf.ranked
  refine map_flatMap_of_places hroots fun id hid p hp => ?_
  obtain ⟨s, hs, -⟩ := hf.root_free hid
  exact h.preorder hrank (hbound id (file.lt_of_get? hs)) hp

end SourceFile

end Foresight
