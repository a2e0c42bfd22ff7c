import Foresight.Text.Blank
import Foresight.Text.Cut

/-!
# Texts cut at a character

What the pieces of a text put together are, in terms of the pieces of its parts.
-/

namespace Foresight

namespace Text

variable {α : Type} {p : α → Bool}

theorem pieces_of_forall {piece : List α} (h : ∀ c ∈ piece, p c = false) :
    pieces p piece = [piece] := by
  induction piece with
  | nil => rfl
  | cons c rest ih =>
    rw [List.forall_mem_cons] at h
    rw [pieces, h.1, ih h.2]
    rfl

theorem pieces_append_cons {piece : List α} (h : ∀ c ∈ piece, p c = false) {s : α}
    (hs : p s = true) (rest : List α) :
    pieces p (piece ++ s :: rest) = piece :: pieces p rest := by
  induction piece with
  | nil => rw [List.nil_append, pieces, if_pos hs]
  | cons c piece ih =>
    rw [List.forall_mem_cons] at h
    rw [List.cons_append, pieces, ih h.2, h.1]
    rfl

/-- Whatever stands in front without a separator is added to the first piece. -/
theorem pieces_append_of_forall {lead : List α} (h : ∀ c ∈ lead, p c = false) {text first : List α}
    {more : List (List α)} (htext : pieces p text = first :: more) :
    pieces p (lead ++ text) = (lead ++ first) :: more := by
  induction lead with
  | nil => exact htext
  | cons c lead ih =>
    rw [List.forall_mem_cons] at h
    rw [List.cons_append, pieces, ih h.2, h.1]
    rfl

/-- The pieces before the last one, and the last one, to which whatever follows without a separator
is added. -/
theorem exists_pieces_append (text : List α) : ∃ init last, ∀ tail : List α,
    (∀ c ∈ tail, p c = false) → pieces p (text ++ tail) = init ++ [last ++ tail] := by
  induction text with
  | nil => exact ⟨[], [], fun tail h => pieces_of_forall h⟩
  | cons c rest ih =>
    obtain ⟨init, last, ih⟩ := ih
    by_cases hc : p c = true
    · refine ⟨[] :: init, last, fun tail h => ?_⟩
      rw [List.cons_append, pieces, if_pos hc, ih tail h, List.cons_append]
    · cases init with
      | nil =>
        refine ⟨[], c :: last, fun tail h => ?_⟩
        rw [List.cons_append, pieces, if_neg hc, ih tail h]
        rfl
      | cons piece init =>
        refine ⟨(c :: piece) :: init, last, fun tail h => ?_⟩
        rw [List.cons_append, pieces, if_neg hc, ih tail h]
        rfl

/-- There is always a piece. -/
theorem exists_pieces_eq (text : List α) : ∃ first more, pieces p text = first :: more := by
  obtain ⟨init, last, h⟩ := exists_pieces_append (p := p) text
  have hnil := h [] fun c hc => absurd hc List.not_mem_nil
  rw [List.append_nil] at hnil
  cases init with
  | nil => exact ⟨_, _, hnil⟩
  | cons first init => exact ⟨_, _, hnil⟩

/-- Behind the first piece the text ends, or goes on after a separator. -/
theorem of_pieces_eq_cons {text first : List α} {more : List (List α)}
    (h : pieces p text = first :: more) : (∀ c ∈ first, p c = false) ∧
      (more = [] ∧ text = first ∨
        ∃ s rest, p s = true ∧ text = first ++ s :: rest ∧ pieces p rest = more) := by
  induction text generalizing first more with
  | nil =>
    cases h
    exact ⟨nofun, .inl ⟨rfl, rfl⟩⟩
  | cons c rest ih =>
    obtain ⟨next, others, hrest⟩ := exists_pieces_eq (p := p) rest
    rw [pieces, hrest] at h
    split at h
    · rename_i hc
      cases h
      exact ⟨nofun, .inr ⟨c, rest, hc, rfl, hrest⟩⟩
    · rename_i hc
      cases h
      obtain ⟨hnext, hends⟩ := ih hrest
      refine ⟨List.forall_mem_cons.mpr ⟨Bool.eq_false_iff.mpr hc, hnext⟩, ?_⟩
      rcases hends with ⟨hmore, rfl⟩ | ⟨s, tail, hs, rfl, htail⟩
      · exact .inl ⟨hmore, rfl⟩
      · exact .inr ⟨s, tail, hs, rfl, htail⟩

/-- There is one piece more than there are separators. -/
theorem length_pieces (text : List α) : (pieces p text).length = text.countP p + 1 := by
  induction text with
  | nil => rfl
  | cons c rest ih =>
    obtain ⟨first, more, hrest⟩ := exists_pieces_eq (p := p) rest
    rw [hrest] at ih
    rw [pieces, hrest, List.countP_cons]
    split
    · rw [List.length_cons, ih]
    · exact ih

/-- A separator cuts. -/
theorem pieces_append_separator (text : List α) {s : α} (hs : p s = true) (rest : List α) :
    pieces p (text ++ s :: rest) = pieces p text ++ pieces p rest := by
  induction text with
  | nil => exact pieces_append_cons (fun c hc => absurd hc List.not_mem_nil) hs rest
  | cons c text ih =>
    obtain ⟨first, more, htext⟩ := exists_pieces_eq (p := p) text
    rw [List.cons_append, pieces, ih, pieces, htext]
    split
    · rfl
    · rfl

/-- There is no separator in a piece. -/
theorem not_of_mem_pieces {text piece : List α} (h : piece ∈ pieces p text) :
    ∀ c ∈ piece, p c = false := by
  induction text generalizing piece with
  | nil =>
    rw [pieces, List.mem_singleton] at h
    simp [h]
  | cons c rest ih =>
    obtain ⟨first, more, hrest⟩ := exists_pieces_eq (p := p) rest
    rw [hrest] at ih
    rw [pieces, hrest] at h
    split at h
    · rcases List.mem_cons.mp h with rfl | h
      · simp
      · exact ih h
    · rename_i hc
      rcases List.mem_cons.mp h with rfl | h
      · exact List.forall_mem_cons.mpr ⟨Bool.eq_false_iff.mpr hc, ih List.mem_cons_self⟩
      · exact ih (List.mem_cons_of_mem _ h)

theorem not_mem_of_mem_splitAt {separator : Char} {text piece : String}
    (h : piece ∈ splitAt separator text) : separator ∉ piece.toList := by
  intro hmem
  obtain ⟨chars, hchars, rfl⟩ := List.mem_map.mp h
  rw [String.toList_ofList] at hmem
  have hfalse := not_of_mem_pieces hchars separator hmem
  rw [beq_self_eq_true] at hfalse
  cases hfalse

/-- A text without a separator is one piece. -/
theorem splitAt_of_not_mem {separator : Char} {text : String} (h : separator ∉ text.toList) :
    splitAt separator text = [text] := by
  have hpieces : pieces (· == separator) text.toList = [text.toList] :=
    pieces_of_forall fun c hc => beq_false_of_ne fun heq => h (heq ▸ hc)
  rw [splitAt, hpieces, List.map_singleton, String.ofList_toList]

/-- Every character stands in a piece or separates two. -/
theorem exists_mem_pieces {text : List α} {a : α} (h : a ∈ text) :
    p a = true ∨ ∃ piece ∈ pieces p text, a ∈ piece := by
  induction text with
  | nil => cases h
  | cons b text ih =>
    obtain ⟨first, more, hpieces⟩ := exists_pieces_eq (p := p) text
    rw [hpieces] at ih
    rw [pieces, hpieces]
    rcases List.mem_cons.mp h with rfl | h
    · by_cases ha : p a = true
      · exact Or.inl ha
      · rw [if_neg ha]
        exact Or.inr ⟨a :: first, List.mem_cons_self, List.mem_cons_self⟩
    · refine (ih h).imp_right fun ⟨piece, hpiece, hmem⟩ => ?_
      split
      · exact ⟨piece, List.mem_cons_of_mem _ hpiece, hmem⟩
      · rcases List.mem_cons.mp hpiece with rfl | hpiece
        · exact ⟨b :: piece, List.mem_cons_self, List.mem_cons_of_mem _ hmem⟩
        · exact ⟨piece, List.mem_cons_of_mem _ hpiece, hmem⟩

/-- The first occurrence of a character is the one in front of which there is none. -/
theorem cutAt?_append_of_not_mem [BEq α] [LawfulBEq α] {c : α} {before : List α} (h : c ∉ before)
    (rest : List α) : cutAt? [c] (before ++ c :: rest) = some (before, rest) := by
  induction before with
  | nil => simp [cutAt?, dropLead?]
  | cons a before ih =>
    rw [List.mem_cons, not_or] at h
    rw [List.cons_append, cutAt?, dropLead?, if_neg (by simpa using h.1)]
    dsimp only
    rw [ih h.2, Option.map_some]

end Text

end Foresight
