import Foresight.Proofs.Text.Pieces
import Foresight.Proofs.Text.Slice
import Mathlib.Data.List.TakeWhile

/-!
# Characters of cut texts

Trimming, cutting and slicing write no character that is not in the text; between words there may
be a space that was none.
-/

namespace Foresight.Text

/-- What holds of some characters is found out by going through them, not through all there are. -/
instance decidableForallChar (cs : List Char) (P : Char → Prop) [DecidablePred P] :
    Decidable (∀ c ∈ cs, P c) :=
  List.decidableBAll P cs

theorem mem_of_mem_intercalate {α : Type} {separator : List α} {pieces : List (List α)} {c : α}
    (h : c ∈ separator.intercalate pieces) : c ∈ separator ∨ ∃ piece ∈ pieces, c ∈ piece := by
  induction pieces with
  | nil => simp at h
  | cons piece rest ih =>
    cases rest with
    | nil =>
      rw [List.intercalate_singleton] at h
      exact Or.inr ⟨piece, List.mem_cons_self, h⟩
    | cons next rest =>
      rw [List.intercalate_cons_cons, List.mem_append, List.mem_append] at h
      rcases h with (h | h) | h
      · exact Or.inr ⟨piece, List.mem_cons_self, h⟩
      · exact Or.inl h
      · exact (ih h).imp_right fun ⟨other, hother, hc⟩ =>
          ⟨other, List.mem_cons_of_mem _ hother, hc⟩

theorem subset_of_mem_pieces {α : Type} {p : α → Bool} {text piece : List α}
    (h : piece ∈ pieces p text) : piece ⊆ text := by
  induction text generalizing piece with
  | nil =>
    rw [pieces, List.mem_singleton] at h
    rw [h]
    exact List.nil_subset _
  | cons c rest ih =>
    obtain ⟨first, more, hrest⟩ := exists_pieces_eq (p := p) rest
    rw [hrest] at ih
    rw [pieces, hrest] at h
    have hmore : ∀ piece ∈ more, piece ⊆ c :: rest := fun piece hpiece =>
      List.subset_cons_of_subset c (ih (List.mem_cons_of_mem _ hpiece))
    have hfirst : first ⊆ c :: rest := List.subset_cons_of_subset c (ih List.mem_cons_self)
    split at h
    · rcases List.mem_cons.mp h with rfl | h
      · exact List.nil_subset _
      · rcases List.mem_cons.mp h with rfl | h
        · exact hfirst
        · exact hmore piece h
    · rcases List.mem_cons.mp h with rfl | h
      · exact List.cons_subset.mpr ⟨List.mem_cons_self, hfirst⟩
      · exact hmore piece h

theorem subset_trim (text : String) : (trim text).toList ⊆ text.toList := by
  intro c hc
  rw [trim, trimEnd, String.toList_ofList, List.mem_reverse] at hc
  have hstart := List.mem_reverse.mp ((List.dropWhile_sublist isBlank).subset hc)
  rw [trimStart, String.toList_ofList] at hstart
  exact (List.dropWhile_sublist isBlank).subset hstart

theorem dropWhile_isBlank {word : List Char} (hne : word ≠ [])
    (hword : ∀ c ∈ word, isBlank c = false) (rest : List Char) :
    (word ++ rest).dropWhile isBlank = word ++ rest := by
  cases word with
  | nil => exact absurd rfl hne
  | cons c word => exact List.dropWhile_cons_of_neg (by simp [hword c List.mem_cons_self])

/-- White space around a word is trimmed. -/
theorem trim_ofList {before word after : List Char} (hbefore : ∀ c ∈ before, isBlank c = true)
    (hne : word ≠ []) (hword : ∀ c ∈ word, isBlank c = false)
    (hafter : ∀ c ∈ after, isBlank c = true) :
    trim (String.ofList (before ++ (word ++ after))) = String.ofList word := by
  have hword' : ∀ c ∈ word.reverse, isBlank c = false := fun c hc =>
    hword c (List.mem_reverse.mp hc)
  have hafter' : ∀ c ∈ after.reverse, isBlank c = true := fun c hc =>
    hafter c (List.mem_reverse.mp hc)
  have hend : (word ++ after).reverse.dropWhile isBlank = word.reverse := by
    have hkept := dropWhile_isBlank (List.reverse_ne_nil_iff.mpr hne) hword' []
    rw [List.append_nil] at hkept
    rw [List.reverse_append, List.dropWhile_append_of_pos hafter', hkept]
  rw [trim, trimStart, trimEnd, String.toList_ofList, String.toList_ofList,
    List.dropWhile_append_of_pos hbefore, dropWhile_isBlank hne hword, hend, List.reverse_reverse]

theorem infix_trim (text : String) : (trim text).toList <:+: text.toList := by
  rw [trim, trimEnd, trimStart, String.toList_ofList, String.toList_ofList]
  have hstart := List.dropWhile_suffix (l := text.toList) isBlank
  have hend := List.dropWhile_suffix (l := (text.toList.dropWhile isBlank).reverse) isBlank
  rw [← List.reverse_prefix, List.reverse_reverse] at hend
  exact hend.isInfix.trans hstart.isInfix

/-- Only white space is trimmed. -/
theorem mem_trim_iff {text : String} {c : Char} (hc : isBlank c = false) :
    c ∈ (trim text).toList ↔ c ∈ text.toList := by
  have hdrop : ∀ {l : List Char}, c ∈ l → c ∈ l.dropWhile isBlank := fun {l} h => by
    rw [← List.takeWhile_append_dropWhile (p := isBlank) (l := l), List.mem_append] at h
    exact h.resolve_left fun htake =>
      Bool.false_ne_true (hc.symm.trans (List.mem_takeWhile_imp htake))
  refine ⟨fun h => subset_trim _ h, fun h => ?_⟩
  rw [trim, trimEnd, trimStart, String.toList_ofList, String.toList_ofList, List.mem_reverse]
  exact hdrop (List.mem_reverse.mpr (hdrop h))

/-- What is put between words is a space. -/
theorem mem_of_mem_words {α : Type} {p : α → Bool} {space c : α} {text : List α}
    (h : c ∈ [space].intercalate ((pieces p text).filter (!·.isEmpty))) : c = space ∨ c ∈ text := by
  rcases mem_of_mem_intercalate h with h | ⟨piece, hpiece, hc⟩
  · exact Or.inl (List.mem_singleton.mp h)
  · exact Or.inr (subset_of_mem_pieces (List.mem_filter.mp hpiece).1 hc)

theorem mem_of_mem_squeeze {c : Char} {text : String} (h : c ∈ (squeeze text).toList) :
    c = ' ' ∨ c ∈ text.toList := by
  rw [squeeze, words, String.toList_intercalate, List.map_map] at h
  have hwords : (String.toList ∘ String.ofList : List Char → List Char) = id :=
    funext fun _ => String.toList_ofList
  rw [hwords, List.map_id] at h
  exact mem_of_mem_words h

theorem eq_of_cutAt?_eq_some {α : Type} [BEq α] [LawfulBEq α] {pattern text before rest : List α}
    (h : cutAt? pattern text = some (before, rest)) : text = before ++ pattern ++ rest := by
  induction text generalizing before rest with
  | nil =>
    rw [cutAt?] at h
    split at h
    · rename_i hempty
      cases h
      rw [List.isEmpty_iff.mp hempty]
      rfl
    · cases h
  | cons c text ih =>
    rw [cutAt?] at h
    split at h
    · rename_i rest' hdrop
      cases h
      exact dropLead?_eq_some_iff.mp hdrop
    · obtain ⟨⟨before', rest'⟩, hcut, heq⟩ := Option.map_eq_some_iff.mp h
      cases heq
      rw [ih hcut]
      rfl

/-- The parts before and behind the last occurrence of a character. -/
theorem subset_of_cutLast?_eq_some {separator : Char} {text before after : String}
    (h : cutLast? separator text = some (before, after)) :
    before.toList ⊆ text.toList ∧ after.toList ⊆ text.toList := by
  obtain ⟨⟨behind, ahead⟩, hcut, heq⟩ := Option.map_eq_some_iff.mp h
  cases heq
  have htext := congrArg List.reverse (eq_of_cutAt?_eq_some hcut)
  rw [List.reverse_reverse] at htext
  rw [htext, String.toList_ofList, String.toList_ofList, List.reverse_append, List.reverse_append]
  exact ⟨List.subset_append_left _ _, fun c hc =>
    List.mem_append_right _ (List.mem_append_right _ hc)⟩

theorem not_mem_of_cutAt?_eq_some {α : Type} [BEq α] [LawfulBEq α] {c : α}
    {text before rest : List α} (h : cutAt? [c] text = some (before, rest)) : c ∉ before := by
  induction text generalizing before rest with
  | nil => cases h
  | cons a text ih =>
    rw [cutAt?] at h
    split at h
    · cases h
      exact List.not_mem_nil
    · rename_i hdrop
      obtain ⟨⟨before', rest'⟩, hcut, heq⟩ := Option.map_eq_some_iff.mp h
      cases heq
      rw [List.mem_cons, not_or]
      refine ⟨?_, ih hcut⟩
      rintro rfl
      simp [dropLead?] at hdrop

/-- The last occurrence of a character is the one behind which there is none. -/
theorem eq_of_cutLast?_eq_some {separator : Char} {text before after : String}
    (h : cutLast? separator text = some (before, after)) :
    text.toList = before.toList ++ separator :: after.toList ∧ separator ∉ after.toList := by
  obtain ⟨⟨behind, ahead⟩, hcut, heq⟩ := Option.map_eq_some_iff.mp h
  cases heq
  have htext := congrArg List.reverse (eq_of_cutAt?_eq_some hcut)
  rw [List.reverse_reverse] at htext
  rw [htext, String.toList_ofList, String.toList_ofList]
  refine ⟨by simp, fun hmem => not_mem_of_cutAt?_eq_some hcut (List.mem_reverse.mp hmem)⟩

theorem subset_of_slice?_eq_some {text piece : String} {start stop : Nat}
    (h : slice? text start stop = some piece) : piece.toList ⊆ text.toList := by
  obtain ⟨before, after, rfl, -, -⟩ := slice?_eq_some_iff.mp h
  intro c hc
  simp [hc]

end Foresight.Text
