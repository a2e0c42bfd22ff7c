import Foresight.Proofs.Code.Lookups
import Foresight.Proofs.CSharp.Pushes
import Foresight.Proofs.CSharp.Sites

/-!
# Lookups in lowered files

Of two statements of a lowered file that are no blocks, one lies inside the other or they are apart,
as their nodes are. Whether the walk meets the outer one first depends on how they hang together:
the statements inside a statement without a shape are roots of their own, and those of an inner one
are registered before those of the one around it. So the look-ups by offset are right about all that
hangs together (`lookups_follow_links`), and may miss a statement that lies inside another one
without hanging below it (`lookups_miss_nested_lock`).
-/

namespace Foresight.CSharp

open SourceFile

section Spans

variable {path source : String} {index : SymbolIndex} {root : Node} {id other : StatementId}
  {s t : Statement}

/-- What is no block was lowered from a node. -/
theorem exists_span_of_not_block (hs : (lowerFile path source index root).get? id = some s)
    (hblock : s.kind.isBlock = false) : ∃ n, root.Within n ∧ s.span = n.span := by
  obtain ⟨nodes, hnodes⟩ := (sited_lowered path source index root).exists_mirrors_closeStatements
  cases hn : nodes[id]? with
  | some n =>
    obtain ⟨hstems, -⟩ := hnodes.statement hs hn
    exact ⟨n, hstems.within, hstems.span⟩
  | none =>
    obtain ⟨-, ids, hkind, -⟩ := hnodes.closing hs hn
    rw [hkind] at hblock
    cases hblock

variable (hroot : root.IsNested)

include hroot

theorem start_le_stop (hs : (lowerFile path source index root).get? id = some s)
    (hblock : s.kind.isBlock = false) : s.span.start ≤ s.span.stop := by
  obtain ⟨n, hn, hspan⟩ := exists_span_of_not_block hs hblock
  rw [hspan]
  exact (hroot n hn).le

theorem laminar (hs : (lowerFile path source index root).get? id = some s)
    (hsblock : s.kind.isBlock = false)
    (ht : (lowerFile path source index root).get? other = some t)
    (htblock : t.kind.isBlock = false) : s.span.Laminar t.span := by
  obtain ⟨n, hn, hspan⟩ := exists_span_of_not_block hs hsblock
  obtain ⟨m, hm, hspan'⟩ := exists_span_of_not_block ht htblock
  rw [hspan, hspan']
  exact hroot.laminar hn hm

end Spans

/-- The look-ups by offset in the model of a file over a tree with nested spans, where all that is
no block counts, as nothing was synthesized. Either answers nothing only if there is nothing to
answer. Of the statements around the offset, the answer lies inside every other one, or that one
lies inside the answer and does not hang below it. Of the statements that end last before the
offset, the answer lies around every other one, or that one lies around the answer and the answer
does not hang below it. -/
theorem lookups_follow_links (path source : String) (index : SymbolIndex) (root : Node)
    (h : root.IsNested) (offset : Nat) :
    let file := lowerFile path source index root
    Unmarked file ∧
    (match file.statementAtOffset? offset with
      | none => ∀ id s, ¬ file.Around offset id s
      | some id => ∃ s, file.Around offset id s ∧ ∀ other t, file.Around offset other t →
          s.span.Inside t.span ∨ t.span.Inside s.span ∧ ¬ file.Below id other) ∧
    match file.statementBeforeOffset? offset with
      | none => ∀ id s, ¬ file.EndsBy offset id s
      | some id => ∃ s, file.EndsBy offset id s ∧ ∀ other t, file.EndsBy offset other t →
          t.span.stop ≤ s.span.stop ∧ (t.span.stop = s.span.stop →
            t.span.Inside s.span ∨ s.span.Inside t.span ∧ ¬ file.Below other id) := by
  have hforest := forest_lowerFile path source index root
  refine ⟨unmarked_lowerFile path source index root, ?around, ?before⟩
  case around =>
    cases hat : (lowerFile path source index root).statementAtOffset? offset with
    | none => exact statementAtOffset?_eq_none hat
    | some id =>
      obtain ⟨s, hs, hbelow⟩ := hforest.around_statementAtOffset? hat
      refine ⟨s, hs, fun other t ht => ?_⟩
      have hnested := laminar h (mem_walked.mp hs.walked).2 hs.not_block
        (mem_walked.mp ht.walked).2 ht.not_block
      exact (hnested.inside_of_contains hs.contains ht.contains).imp_right
        fun hinside => ⟨hinside, hbelow other t ht⟩
  case before =>
    cases hbefore : (lowerFile path source index root).statementBeforeOffset? offset with
    | none => exact statementBeforeOffset?_eq_none hbefore
    | some id =>
      obtain ⟨s, hs, hlast⟩ := hforest.endsBy_statementBeforeOffset? hbefore
      refine ⟨s, hs, fun other t ht => ⟨(hlast other t ht).1, fun hstop => ?_⟩⟩
      -- Spans that end together nest anyhow, the empty ones too.
      have hnested := Span.inside_of_stop_eq
        (start_le_stop h (mem_walked.mp ht.walked).2 ht.not_block)
        (start_le_stop h (mem_walked.mp hs.walked).2 hs.not_block) hstop
      exact hnested.imp_right fun hinside => ⟨hinside, (hlast other t ht).2 hstop⟩

/-- The tree of `class A { void M() { lock (a) { lock (b) s.Trim(); } } }`, without its tokens. -/
def lockTree : Node :=
  let node (kind field : String) (start stop : Nat) (children : List Node) : Node :=
    ⟨kind, true, field, start, stop, children⟩
  let trim := node "expression_statement" "" 41 50 []
  let inner := node "lock_statement" "" 32 50 [node "identifier" "" 38 39 [], trim]
  let outer := node "lock_statement" "" 21 52
    [node "identifier" "" 27 28 [], node "block" "" 30 52 [inner]]
  let method := node "method_declaration" "" 10 54
    [node "identifier" "name" 15 16 [], node "block" "body" 19 54 [outer]]
  node "compilation_unit" "" 0 56
    [node "class_declaration" "" 0 56
      [node "identifier" "name" 6 7 [], node "declaration_list" "body" 8 56 [method]]]

/-- The model of this tree: the call is a root of its own, registered before the block with the
inner `lock`. -/
def lockModel : SourceFile :=
  lowerFile "A.cs" "class A { void M() { lock (a) { lock (b) s.Trim(); } } }" .empty lockTree

theorem lookups_follow_links_lock :
    lockTree.IsNested ∧ lockModel.statementAtOffset? 43 = some 1 ∧
      lockModel.statementBeforeOffset? 50 = some 0 ∧
      (∃ s, lockModel.Around 43 1 s ∧ ∀ other t, lockModel.Around 43 other t →
        s.span.Inside t.span ∨ t.span.Inside s.span ∧ ¬ lockModel.Below 1 other) ∧
      ∃ s, lockModel.EndsBy 50 0 s ∧ ∀ other t, lockModel.EndsBy 50 other t →
        t.span.stop ≤ s.span.stop ∧ (t.span.stop = s.span.stop →
          t.span.Inside s.span ∨ s.span.Inside t.span ∧ ¬ lockModel.Below other 0) := by
  have hnested : lockTree.IsNested := by decide
  have hat : lockModel.statementAtOffset? 43 = some 1 := by decide
  have hbefore : lockModel.statementBeforeOffset? 50 = some 0 := by decide
  obtain ⟨-, haround, -⟩ := lookups_follow_links "A.cs"
    "class A { void M() { lock (a) { lock (b) s.Trim(); } } }" .empty lockTree hnested 43
  obtain ⟨-, -, hends⟩ := lookups_follow_links "A.cs"
    "class A { void M() { lock (a) { lock (b) s.Trim(); } } }" .empty lockTree hnested 50
  rw [← lockModel, hat] at haround
  rw [← lockModel, hbefore] at hends
  exact ⟨hnested, hat, hbefore, haround, hends⟩

/-- Inside the inner `lock`, the statement at an offset is not the innermost one, and the statement
before its end is not the outermost one. -/
theorem lookups_miss_nested_lock :
    lockTree.IsNested ∧ lockModel.walk = [4, 3, 0, 2, 1] ∧
      lockModel.statementAtOffset? 43 = some 1 ∧ lockModel.statementBeforeOffset? 50 = some 0 ∧
      ∃ call lock, lockModel.Around 43 0 call ∧ lockModel.Around 43 1 lock ∧
        lockModel.EndsBy 50 0 call ∧ lockModel.EndsBy 50 1 lock ∧
        call.span.stop = lock.span.stop ∧ ¬ lock.span.Inside call.span := by
  have hcall : (0, ⟨.other, none, ⟨41, 50⟩, none⟩) ∈ lockModel.walked :=
    mem_walked.mpr ⟨by decide, rfl⟩
  have hlock : (1, ⟨.other, some 2, ⟨32, 50⟩, none⟩) ∈ lockModel.walked :=
    mem_walked.mpr ⟨by decide, rfl⟩
  exact ⟨by decide, by decide, by decide, by decide, _, _, ⟨hcall, rfl, rfl⟩, ⟨hlock, rfl, rfl⟩,
    ⟨hcall, rfl, rfl, by decide⟩, ⟨hlock, rfl, rfl, by decide⟩, rfl, by decide⟩

end Foresight.CSharp
