import Foresight.Proofs.CSharp.Lowered
import Foresight.Proofs.CSharp.Pushes

/-!
# Bodies in lowered files

What stands in a body slot was lowered by the rule for statements, so it is a block only if its node
is one (`Stands`): the blocks that other rules make, such as those of `try` and `switch`, get into
no body slot. Empty statements come from nodes of their kind only. Both stay true while lowering
goes on (`Braced`), and so they are true of a whole file (`braced_lowerFile`).
-/

namespace Foresight.CSharp

open SourceFile Lowering

/-! ## What a statement is made from -/

/-- A statement that was lowered from a node, and is a block only if the node is one. -/
def Stands (file : SourceFile) (id : StatementId) (n : Node) : Prop :=
  ∃ s, file.get? id = some s ∧ s.span = n.span ∧ (s.kind.isBlock = true → n.kind = "block")

theorem Stands.builds {file file' : SourceFile} {id : StatementId} {n : Node}
    (h : Stands file id n) (hfile : Builds file file') : Stands file' id n := by
  obtain ⟨s, hs, hspan, hblock⟩ := h
  obtain ⟨parent, hs'⟩ := hfile.exists_get? hs
  exact ⟨_, hs', hspan, hblock⟩

theorem stands_push {file : SourceFile} {kind : StatementKind} {n : Node}
    (hblock : kind.isBlock = true → n.kind = "block") :
    Stands (file.push kind n.span).1 (file.push kind n.span).2 n :=
  ⟨_, get?_push_self file kind n.span, rfl, hblock⟩

variable {inner : Node → Step StatementId}

theorem stands_ifSome (hinner : ∀ n l, Stands (inner n l).1.file (inner n l).2 n)
    {item : Option Node} {l : Lowering} {b : StatementId} (h : (ifSome inner item l).2 = some b) :
    ∃ c, item = some c ∧ Stands (ifSome inner item l).1.file b c := by
  cases item with
  | none => cases h
  | some c =>
    obtain rfl := Option.some.inj h
    exact ⟨c, rfl, hinner c l⟩

namespace Setting

variable (s : Setting)

theorem stands_statement (room : Nat) (n : Node) (l : Lowering) :
    Stands (s.statement room n l).1.file (s.statement room n l).2 n := by
  cases room with
  | zero => exact stands_push nofun
  | succ room =>
    unfold statement
    dsimp only
    split
    · rename_i hkind
      exact stands_push fun _ => beq_iff_eq.mp hkind
    · refine stands_push fun hblock => ?_
      cases hblock.symm.trans (s.isBlock_statementKind ..)

/-- What a rule puts into a body slot is a statement of a child. -/
theorem exists_stands_of_bodySlot? (hinner : ∀ n l, Stands (inner n l).1.file (inner n l).2 n)
    (hbuilds : ∀ n, Follows Builds (inner n)) {n : Node} {l : Lowering} {b : StatementId}
    (h : (s.statementKind inner n l).2.bodySlot? = some (some b)) :
    ∃ c ∈ n.children, Stands (s.statementKind inner n l).1.file b c := by
  have hslot : ∀ {field l b}, (ifSome inner (n.child? field) l).2 = some b →
      ∃ c ∈ n.children, Stands (ifSome inner (n.child? field) l).1.file b c := by
    intro field l b hbody
    obtain ⟨c, hc, hstands⟩ := stands_ifSome hinner hbody
    exact ⟨c, Node.mem_of_child? hc, hstands⟩
  unfold statementKind at h ⊢
  split at h
  · split at h <;> cases h
  · split at h <;> cases h
  · obtain ⟨c, hc, hstands⟩ := hslot (Option.some.inj h)
    have helse := followed_builds.ifSome (n.child? "alternative") fun m _ => hbuilds m
    exact ⟨c, hc, hstands.builds (helse _)⟩
  · exact hslot (Option.some.inj h)
  · cases h
  · exact hslot (Option.some.inj h)
  · exact hslot (Option.some.inj h)
  all_goals cases h

/-- Only the node of an empty statement is lowered to one. -/
theorem kind_of_statementKind_eq_empty {n : Node} {l : Lowering}
    (h : (s.statementKind inner n l).2 = .empty) : n.kind = "empty_statement" := by
  unfold statementKind at h
  split at h
  · split at h <;> cases h
  · split at h <;> cases h
  case h_11 hkind => exact hkind
  all_goals cases h

end Setting

/-! ## What stays true -/

/-- An empty statement was lowered from the node of one, and what is in a body slot is a block only
if it was lowered from the node of a block. -/
structure Braced (root : Node) (file : SourceFile) : Prop where
  empty : ∀ {id s}, file.get? id = some s → s.kind = .empty →
    ∃ n, root.Within n ∧ n.kind = "empty_statement" ∧ s.span = n.span
  body : ∀ {id s b}, file.get? id = some s → s.kind.bodySlot? = some (some b) →
    ∃ n, root.Within n ∧ Stands file b n

namespace Braced

variable {root : Node} {file : SourceFile}

theorem push (h : Braced root file) {kind : StatementKind} {span : Span}
    (hempty : kind = .empty → ∃ n, root.Within n ∧ n.kind = "empty_statement" ∧ span = n.span)
    (hbody : ∀ b, kind.bodySlot? = some (some b) → ∃ n, root.Within n ∧ Stands file b n) :
    Braced root (file.push kind span).1 where
  empty := by
    intro id s hs hkind
    rcases file.push_cases kind span hs with ⟨-, rfl⟩ | ⟨t, ht, rfl⟩
    · exact hempty hkind
    · have hold := h.empty ht hkind
      exact hold
  body := by
    have hstands : ∀ {b}, (∃ n, root.Within n ∧ Stands file b n) →
        ∃ n, root.Within n ∧ Stands (file.push kind span).1 b n :=
      fun ⟨n, hn, hb⟩ => ⟨n, hn, hb.builds (.push kind span .refl)⟩
    intro id s b hs hslot
    rcases file.push_cases kind span hs with ⟨-, rfl⟩ | ⟨t, ht, rfl⟩
    · exact hstands (hbody b hslot)
    · exact hstands (h.body ht hslot)

theorem addRoot (h : Braced root file) (id : StatementId) : Braced root (file.addRoot id) where
  empty hs hkind := by
    rw [get?, statements_addRoot] at hs
    exact h.empty hs hkind
  body hs hslot := by
    rw [get?, statements_addRoot] at hs
    obtain ⟨n, hn, hb⟩ := h.body hs hslot
    exact ⟨n, hn, hb.builds (.addRoot id .refl)⟩

end Braced

/-- Lowering keeps it. A statement that is pushed without a body slot has nothing to show, unless it
is an empty one. -/
theorem followed_braced (root : Node) :
    Followed root.Within fun file file' =>
      Builds file file' ∧ (Braced root file → Braced root file') where
  child hn hc := hn.child hc
  refl _ := ⟨.refl, id⟩
  trans h h' := ⟨h.1.trans h'.1, fun hbraced => h'.2 (h.2 hbraced)⟩
  addRoot _ id := ⟨.addRoot id .refl, fun h => h.addRoot id⟩
  block _ ids span := ⟨.push (.block ids) span .refl, fun h => h.push nofun nofun⟩
  other _ n _ := ⟨.push .other n.span .refl, fun h => h.push nofun nofun⟩
  shaped s room n l hn := by
    refine ⟨.push _ n.span .refl, fun h => h.push (fun hkind => ?_) fun b hslot => ?_⟩
    · exact ⟨n, hn, s.kind_of_statementKind_eq_empty hkind, rfl⟩
    · obtain ⟨c, hc, hb⟩ := s.exists_stands_of_bodySlot? (s.stands_statement room)
        (fun m => followed_builds.statement s trivial room) hslot
      exact ⟨c, hn.child hc, hb⟩

theorem braced_lowerFile (path source : String) (index : SymbolIndex) (root : Node) :
    Braced root (lowerFile path source index root) := by
  have hnew : Braced root (.new path source) :=
    ⟨fun hs => by simp [SourceFile.new, get?] at hs, fun hs => by simp [SourceFile.new, get?] at hs⟩
  exact ((followed_braced root).lowerFile path source index (.self root)).2 hnew

end Foresight.CSharp
