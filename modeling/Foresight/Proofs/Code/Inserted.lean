import Foresight.Code.Insertion
import Foresight.Proofs.Text.Slice

/-!
# What an insertion writes

An insertion point fits a text exactly if its range divides the text (`Divided`): a part before the
range, the part in it, and a part behind. What is written then is the part before, the snippet
between what the edit puts around it, and the part behind, byte for byte (`apply_eq_some_iff`).
-/

namespace Foresight

open Text

/-- A text that a range divides at character boundaries. -/
structure Divided (text : String) (range : Span) (before inner after : String) : Prop where
  text : text = before ++ inner ++ after
  start : range.start = before.utf8ByteSize
  stop : range.stop = (before ++ inner).utf8ByteSize

/-- What an edit writes before the snippet. -/
def InsertionEdit.opening : InsertionEdit → String
  | .insert => ""
  | .synthesizeBlock _ | .wrapInBlock _ => "\x7b"

/-- What an edit writes behind the snippet, where this text stood in its range. -/
def InsertionEdit.closing (inner : String) : InsertionEdit → String
  | .insert => ""
  | .synthesizeBlock _ => " \x7d"
  | .wrapInBlock _ => " " ++ inner ++ " \x7d"

/-- What a point takes out of the text. -/
def InsertionPoint.range (point : InsertionPoint) : Span :=
  match point.edit with
  | .insert => .point point.offset
  | .synthesizeBlock replaced => replaced
  | .wrapInBlock wrapped => wrapped

theorem divided_iff {text inner : String} {range : Span} :
    (∃ before after, Divided text range before inner after) ↔
      slice? text range.start range.stop = some inner := by
  rw [slice?_eq_some_iff]
  exact exists₂_congr fun before after =>
    ⟨fun h => ⟨h.text, h.start, h.stop⟩, fun ⟨htext, hstart, hstop⟩ => ⟨htext, hstart, hstop⟩⟩

namespace InsertionPoint

variable {text snippet new before inner after : String} {range : Span} {point : InsertionPoint}

theorem around?_of_divided (h : Divided text range before inner after) :
    around? text range = some (before, after) := by
  obtain ⟨rfl, hstart, hstop⟩ := h
  have hle : ¬ range.start > range.stop := by
    rw [hstart, hstop]
    exact Nat.not_lt.mpr (utf8ByteSize_le_append before inner)
  have hbefore : slice? (before ++ inner ++ after) 0 range.start = some before :=
    slice?_eq_some_iff.mpr
      ⟨"", inner ++ after, by simp [String.append_assoc], rfl, by simp [hstart]⟩
  have hafter : slice? (before ++ inner ++ after) range.stop
      (before ++ inner ++ after).utf8ByteSize = some after :=
    slice?_eq_some_iff.mpr ⟨before ++ inner, "", by simp, hstop, rfl⟩
  rw [around?, if_neg hle, hbefore, hafter]
  rfl

theorem exists_divided_of_around? (h : around? text range = some (before, after)) :
    ∃ inner, Divided text range before inner after := by
  have hslice : ∃ inner, slice? text range.start range.stop = some inner := by
    unfold around? at h
    split at h
    · cases h
    · rename_i hle
      obtain ⟨lead, hlead, h⟩ := Option.bind_eq_some_iff.mp h
      obtain ⟨tail, htail, -⟩ := Option.bind_eq_some_iff.mp h
      exact exists_slice?_iff.mpr ⟨Nat.not_lt.mp hle, (exists_slice?_iff.mp ⟨_, hlead⟩).2.2,
        (exists_slice?_iff.mp ⟨_, htail⟩).2.1⟩
  obtain ⟨inner, hinner⟩ := hslice
  obtain ⟨before', after', hdivided⟩ := divided_iff.mpr hinner
  obtain ⟨rfl, rfl⟩ := Prod.mk.inj (Option.some.inj (h.symm.trans (around?_of_divided hdivided)))
  exact ⟨inner, hdivided⟩

theorem apply_of_divided (h : Divided text point.range before inner after) :
    point.apply text snippet =
      some (before ++ point.edit.opening ++ snippet ++ point.edit.closing inner ++ after) := by
  obtain ⟨offset, edit⟩ := point
  cases edit with
  | insert =>
    have haround : around? text (.point offset) = some (before, after) := around?_of_divided h
    simp [apply, haround, InsertionEdit.opening, InsertionEdit.closing]
  | synthesizeBlock replaced =>
    have haround : around? text replaced = some (before, after) := around?_of_divided h
    simp [apply, haround, InsertionEdit.opening, InsertionEdit.closing]
  | wrapInBlock wrapped =>
    have haround : around? text wrapped = some (before, after) := around?_of_divided h
    have hinner : slice? text wrapped.start wrapped.stop = some inner :=
      divided_iff.mp ⟨before, after, h⟩
    simp [apply, haround, hinner, InsertionEdit.opening, InsertionEdit.closing,
      String.append_assoc]

theorem exists_around?_of_apply (h : point.apply text snippet = some new) :
    ∃ parts, around? text point.range = some parts := by
  obtain ⟨offset, edit⟩ := point
  cases edit <;>
    · obtain ⟨parts, haround, -⟩ := Option.bind_eq_some_iff.mp h
      exact ⟨parts, haround⟩

/-- What an insertion writes: the text before its range, the snippet between what the edit puts
around it, and the text behind the range. It is refused exactly if the range does not divide the
text. -/
theorem apply_eq_some_iff : point.apply text snippet = some new ↔
    ∃ before inner after, Divided text point.range before inner after ∧
      new = before ++ point.edit.opening ++ snippet ++ point.edit.closing inner ++ after := by
  constructor
  · intro h
    obtain ⟨⟨before, after⟩, haround⟩ := exists_around?_of_apply h
    obtain ⟨inner, hdivided⟩ := exists_divided_of_around? haround
    exact ⟨before, inner, after, hdivided,
      Option.some.inj (h.symm.trans (apply_of_divided hdivided))⟩
  · rintro ⟨before, inner, after, hdivided, rfl⟩
    exact apply_of_divided hdivided

end InsertionPoint

end Foresight
