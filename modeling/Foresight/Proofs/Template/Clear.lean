import Foresight.Proofs.Template.Placeholders
import Foresight.Proofs.Text.Characters

/-!
# Texts without a mark

What is cut out of a text without a mark has none, and neither has what is put together from such
texts and from digits.
-/

namespace Foresight

open Template

/-- There is no mark in some texts. -/
abbrev AllClear (texts : List String) : Prop := AllTexts Clear texts

namespace Template

theorem Clear.of_subset {text more : String} (h : Clear text) (hsub : more.toList ⊆ text.toList) :
    Clear more :=
  fun hmark => h (hsub hmark)

theorem Clear.trim {text : String} (h : Clear text) : Clear (Text.trim text) :=
  h.of_subset (Text.subset_trim text)

theorem Clear.squeeze {text : String} (h : Clear text) : Clear (Text.squeeze text) := fun hmark =>
  (Text.mem_of_mem_squeeze hmark).elim (by decide) h

theorem clear_slice {source : String} (h : Clear source) (start stop : Nat) {otherwise : String}
    (hotherwise : Clear otherwise) :
    Clear ((Text.slice? source start stop).getD otherwise) := by
  cases hslice : Text.slice? source start stop with
  | none => exact hotherwise
  | some piece => exact h.of_subset (Text.subset_of_slice?_eq_some hslice)

theorem clear_ofList {cs : List Char} : Clear (String.ofList cs) ↔ '$' ∉ cs := by
  rw [Clear, String.toList_ofList]

theorem clear_textJoin {separator : String} (h : Clear separator) {texts : List String}
    (htexts : AllClear texts) : Clear (Text.join separator texts) := by
  intro hmark
  rw [Text.join, String.toList_intercalate] at hmark
  rcases Text.mem_of_mem_intercalate hmark with hmark | ⟨piece, hpiece, hmark⟩
  · exact h hmark
  · obtain ⟨text, htext, rfl⟩ := List.mem_map.mp hpiece
    exact htexts text htext hmark

theorem clear_toString (n : Nat) : Clear (toString n) := by
  intro hmark
  rw [show (toString n).toList = Nat.toDigits 10 n from String.toList_ofList] at hmark
  have := Nat.isDigit_of_mem_toDigits (by decide) (by decide) hmark
  revert this
  decide

theorem ClearWithin.type {e : Expression} (h : ClearWithin e) : AllClear e.type.texts :=
  fun t ht => h.self t (List.mem_cons_of_mem _ (List.mem_append_left _ ht))

theorem ClearWithin.shape {e : Expression} (h : ClearWithin e) : AllClear e.shape.texts :=
  fun t ht => h.self t (List.mem_cons_of_mem _ (List.mem_append_right _ ht))

theorem clearWithin_of_texts {e : Expression} (htext : Clear e.text)
    (htype : AllClear e.type.texts) (hshape : AllClear e.shape.texts)
    (hoperands : ∀ operand ∈ e.shape.operands, ClearWithin operand) : ClearWithin e :=
  .of_operands (AllTexts.cons htext (htype.append hshape)) hoperands

end Template

end Foresight
