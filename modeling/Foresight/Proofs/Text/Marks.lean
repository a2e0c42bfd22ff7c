import Foresight.Proofs.Text.Characters

/-!
# Taking marks out of a text

What replacing a mark by nothing leaves are the pieces of the text between its marks. A scan from
the left finds them: each piece but the last goes up to the first mark in what is left (`Marked`).
Where pieces meet, a mark may come about that was none; it is not taken out, as the scan does not
look back.
-/

namespace Foresight.Text

section Lists

variable {α : Type} [BEq α] [LawfulBEq α] {pattern text before rest by_ : List α}

/-- Whatever precedes an occurrence has in front what precedes the first one. -/
theorem prefix_of_cutAt?_eq_some (h : cutAt? pattern text = some (before, rest))
    {before' rest' : List α} (htext : text = before' ++ pattern ++ rest') : before <+: before' := by
  induction text generalizing before rest before' with
  | nil =>
    rw [cutAt?] at h
    split at h
    · cases h
      exact List.nil_prefix
    · cases h
  | cons c text ih =>
    rw [cutAt?] at h
    split at h
    · cases h
      exact List.nil_prefix
    · rename_i hdrop
      obtain ⟨⟨before₁, rest₁⟩, hcut, heq⟩ := Option.map_eq_some_iff.mp h
      cases heq
      cases before' with
      | nil =>
        -- The pattern would stand in front.
        exact absurd ⟨rest', htext.symm⟩ (dropLead?_eq_none_iff.mp hdrop)
      | cons c' before' =>
        rw [List.cons_append, List.cons_append] at htext
        obtain ⟨rfl, htail⟩ := List.cons.inj htext
        exact List.cons_prefix_cons.mpr ⟨rfl, ih hcut htail⟩

/-- The first occurrence of a pattern is replaced first, and the scan goes on behind it. -/
theorem substitute_of_cutAt?_eq_some {c : α}
    (h : cutAt? (c :: pattern) text = some (before, rest)) :
    substitute (c :: pattern) by_ 0 text =
      before ++ by_ ++ substitute (c :: pattern) by_ 0 rest := by
  induction text generalizing before rest with
  | nil => cases h
  | cons a text ih =>
    rw [cutAt?] at h
    split at h
    · rename_i hdrop
      cases h
      rw [dropLead?_eq_some_iff.mp hdrop, substitute_occurrence, List.nil_append]
    · rename_i hdrop
      obtain ⟨⟨before₁, rest₁⟩, hcut, heq⟩ := Option.map_eq_some_iff.mp h
      cases heq
      rw [substitute_cons_of_mismatch (dropLead?_eq_none_iff.mp hdrop), ih hcut]
      rfl

theorem substitute_of_not_infix (h : ¬ pattern <:+: text) :
    substitute pattern by_ 0 text = text := by
  induction text with
  | nil => rfl
  | cons a text ih =>
    rw [List.infix_cons_iff, not_or] at h
    rw [substitute_cons_of_mismatch h.1, ih h.2]

end Lists

/-! ## Texts -/

variable {mark text lead rest : String}

/-- The pieces of a text between its marks, from the left. -/
inductive Marked (mark : String) : String → List String → Prop
  | last {text : String} (hnone : ∀ before after, text ≠ before ++ mark ++ after) :
      Marked mark text [text]
  | cut {lead rest : String} {pieces : List String}
      (hfirst : ∀ before after, lead ++ mark ++ rest = before ++ mark ++ after →
        lead.utf8ByteSize ≤ before.utf8ByteSize)
      (hrest : Marked mark rest pieces) : Marked mark (lead ++ mark ++ rest) (lead :: pieces)

theorem not_infix_iff_cut?_eq_none : ¬ mark.toList <:+: text.toList ↔ cut? mark text = none := by
  rw [cut?, Option.map_eq_none_iff, ← Option.not_isSome_iff_eq_none, isSome_cutAt?_iff]

theorem cut?_eq_none_iff :
    cut? mark text = none ↔ ∀ before after, text ≠ before ++ mark ++ after := by
  rw [← not_infix_iff_cut?_eq_none]
  constructor
  · rintro h before after rfl
    exact h ⟨before.toList, after.toList, by simp⟩
  · rintro h ⟨before, after, htext⟩
    refine h (String.ofList before) (String.ofList after) ?_
    rw [← String.toList_inj, ← htext]
    simp

/-- The first occurrence of a mark. -/
theorem first_of_cut?_eq_some (h : cut? mark text = some (lead, rest)) :
    text = lead ++ mark ++ rest ∧ ∀ before after, text = before ++ mark ++ after →
      lead.utf8ByteSize ≤ before.utf8ByteSize := by
  obtain ⟨⟨lead', rest'⟩, hcut, heq⟩ := Option.map_eq_some_iff.mp h
  obtain ⟨rfl, rfl⟩ := Prod.mk.inj heq
  constructor
  · rw [← String.toList_inj, eq_of_cutAt?_eq_some hcut]
    simp
  · rintro before after rfl
    rw [String.toList_append, String.toList_append] at hcut
    obtain ⟨more, hmore⟩ := prefix_of_cutAt?_eq_some hcut rfl
    have hbefore : before = String.ofList lead' ++ String.ofList more := by
      rw [← String.toList_inj, ← hmore]
      simp
    rw [hbefore, String.utf8ByteSize_append]
    exact Nat.le_add_right ..

theorem replace_of_cut?_eq_some (hmark : mark ≠ "") (h : cut? mark text = some (lead, rest))
    (by_ : String) : replace mark by_ text = lead ++ by_ ++ replace mark by_ rest := by
  obtain ⟨⟨lead', rest'⟩, hcut, heq⟩ := Option.map_eq_some_iff.mp h
  obtain ⟨rfl, rfl⟩ := Prod.mk.inj heq
  obtain ⟨c, pattern, hpattern⟩ : ∃ c pattern, mark.toList = c :: pattern :=
    List.exists_cons_of_ne_nil fun hnil => hmark (String.toList_eq_nil_iff.mp hnil)
  rw [hpattern] at hcut
  rw [replace, replace, hpattern, substitute_of_cutAt?_eq_some hcut, ← String.toList_inj]
  simp

theorem replace_of_cut?_eq_none (h : cut? mark text = none) (by_ : String) :
    replace mark by_ text = text := by
  rw [replace, substitute_of_not_infix (not_infix_iff_cut?_eq_none.mpr h), String.ofList_toList]

/-- Every text has its pieces, which are what is left of it without the marks. The first one is what
precedes the first mark, or the text itself. -/
theorem exists_marked (hmark : mark ≠ "") (text : String) :
    ∃ lead pieces, Marked mark text (lead :: pieces) ∧
      replace mark "" text = String.join (lead :: pieces) ∧
      ((cut? mark text).map Prod.fst).getD text = lead := by
  cases hcut : cut? mark text with
  | none =>
    refine ⟨text, [], .last (cut?_eq_none_iff.mp hcut), ?_, rfl⟩
    rw [replace_of_cut?_eq_none hcut, String.join_cons, String.join_nil, String.append_empty]
  | some parts =>
    obtain ⟨lead, rest⟩ := parts
    obtain ⟨htext, hfirst⟩ := first_of_cut?_eq_some hcut
    have hshorter : rest.utf8ByteSize < text.utf8ByteSize := by
      have hsize : 0 < mark.utf8ByteSize :=
        Nat.pos_of_ne_zero fun hzero => hmark (String.utf8ByteSize_eq_zero_iff.mp hzero)
      rw [htext, String.utf8ByteSize_append, String.utf8ByteSize_append]
      omega
    obtain ⟨next, pieces, hmarked, hjoin, -⟩ := exists_marked hmark rest
    refine ⟨lead, next :: pieces, htext ▸ .cut (htext ▸ hfirst) hmarked, ?_, rfl⟩
    rw [replace_of_cut?_eq_some hmark hcut, hjoin, String.append_empty, ← String.join_cons]
termination_by text.utf8ByteSize

end Foresight.Text
