import Foresight.Proofs.Code.Forest
import Foresight.Proofs.Code.Spans

/-!
# Labelled statements

What a statement was made from is not kept in the arena. It is written down beside it, as a list
with a label for each statement: `Labelled P file labels` says that every statement is related by
`P` to its label. While a file is built, statements, text and labels are only added behind. If `P`
lasts through that (`Lasting`), a statement pushed with a label that fits keeps the file labelled
(`Labelled.push`).
-/

namespace Foresight.SourceFile

variable {α : Type} {file file' : SourceFile} {labels : List α}

/-! ## The labels of several statements -/

theorem lt_of_map_getElem? {ids : List StatementId} {as : List α}
    (h : ids.map (labels[·]?) = as.map some) {id : StatementId} (hid : id ∈ ids) :
    id < labels.length := by
  have hmem : labels[id]? ∈ as.map some := h ▸ List.mem_map_of_mem hid
  obtain ⟨a, -, ha⟩ := List.mem_map.mp hmem
  exact (List.getElem?_eq_some_iff.mp ha.symm).1

/-- Labels that are added behind change nothing for those that were there. -/
theorem map_getElem?_append {ids : List StatementId} {as : List α}
    (h : ids.map (labels[·]?) = as.map some) (more : List α) :
    ids.map ((labels ++ more)[·]?) = as.map some := by
  rw [← h]
  refine List.map_congr_left fun id hid => ?_
  exact List.getElem?_append_left (lt_of_map_getElem? h hid)

theorem getElem?_append_of_eq_some {id : StatementId} {a : α} (h : labels[id]? = some a)
    (more : List α) : (labels ++ more)[id]? = some a := by
  rw [List.getElem?_append_left (List.getElem?_eq_some_iff.mp h).1, h]

/-! ## Labelled files -/

/-- A file with more text, in which the statements below `count` are where they were. -/
structure Extends (file file' : SourceFile) (count : Nat) : Prop where
  text : ∃ written, file'.text = file.text ++ written
  spanOf? : ∀ id < count, file'.spanOf? id = file.spanOf? id

/-- Every statement is related to its label. -/
structure Labelled (P : SourceFile → List α → Statement → α → Prop) (file : SourceFile)
    (labels : List α) : Prop where
  length : labels.length = file.statementCount
  holds : ∀ {id s}, file.get? id = some s → ∃ a, labels[id]? = some a ∧ P file labels s a

/-- A relation that goes on holding while text, statements and labels are added behind, and parent
links are set. -/
def Lasting (P : SourceFile → List α → Statement → α → Prop) : Prop :=
  ∀ {file file' labels s a}, Extends file file' labels.length → P file labels s a →
    ∀ parent more, P file' (labels ++ more) { s with parent := parent } a

variable {P : SourceFile → List α → Statement → α → Prop}

theorem labelled_new (path text : String) : Labelled P (.new path text) [] where
  length := rfl
  holds h := by simp [new, get?] at h

namespace Labelled

/-- What a statement is related to is its label. -/
theorem of_getElem? (h : Labelled P file labels) {id : StatementId} {s : Statement} {a : α}
    (hs : file.get? id = some s) (ha : labels[id]? = some a) : P file labels s a := by
  obtain ⟨b, hb, hholds⟩ := h.holds hs
  obtain rfl := Option.some.inj (ha.symm.trans hb)
  exact hholds

theorem getElem?_ne_none (h : Labelled P file labels) {id : StatementId} {s : Statement}
    (hs : file.get? id = some s) : labels[id]? ≠ none := by
  obtain ⟨a, ha, -⟩ := h.holds hs
  rw [ha]
  exact Option.some_ne_none a

theorem of_eq (hP : Lasting P) (h : Labelled P file labels)
    (hs : file'.statements = file.statements)
    (htext : ∃ written, file'.text = file.text ++ written) :
    Labelled P file' labels where
  length := by rw [h.length, statementCount, statementCount, hs]
  holds := by
    intro id s hget
    have hextends : Extends file file' labels.length :=
      ⟨htext, fun id _ => by rw [spanOf?, spanOf?, get?, get?, hs]⟩
    rw [get?, hs] at hget
    obtain ⟨a, ha, hholds⟩ := h.holds hget
    have hlast := hP hextends hholds s.parent []
    rw [List.append_nil] at hlast
    exact ⟨a, ha, hlast⟩

theorem push (hP : Lasting P) (h : Labelled P file labels) {kind : StatementKind} {span : Span}
    {a : α} (hnew : P file labels ⟨kind, none, span, none⟩ a) :
    Labelled P (file.push kind span).1 (labels ++ [a]) where
  length := by rw [List.length_append, h.length, statementCount_push]; rfl
  holds := by
    intro id s' hget
    have hextends : Extends file (file.push kind span).1 labels.length :=
      ⟨⟨"", (text_adoptAll ..).trans String.append_empty.symm⟩, fun id hid =>
        file.spanOf?_push_of_lt kind span (h.length ▸ hid)⟩
    rcases file.push_cases kind span hget with ⟨rfl, rfl⟩ | ⟨s, hs, rfl⟩
    · refine ⟨a, ?_, hP hextends hnew none [a]⟩
      rw [← h.length, List.getElem?_concat_length]
    · obtain ⟨b, hb, hold⟩ := h.holds hs
      exact ⟨b, getElem?_append_of_eq_some hb [a], hP hextends hold _ [a]⟩

end Labelled

end Foresight.SourceFile
