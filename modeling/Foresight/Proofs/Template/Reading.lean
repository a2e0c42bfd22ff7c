import Foresight.Proofs.Text.Pieces
import Foresight.Template.Builder

/-!
# Reading placeholders

A template is plain text with placeholders between `$` marks. Cut at the marks, every second piece
is a placeholder (`placeholders`). A text that was put together from text without a mark and from
whole placeholders is read back as it was meant (`Reads`): the placeholders are those that were put
in, in this order, and they are closed. Texts that are read so can be put behind each other.
-/

namespace Foresight.Template

/-- There is no mark in a text. -/
def Clear (text : String) : Prop := '$' ∉ text.toList

instance (text : String) : Decidable (Clear text) := inferInstanceAs (Decidable (¬ _))

@[simp] theorem clear_append {text more : String} :
    Clear (text ++ more) ↔ Clear text ∧ Clear more := by
  simp [Clear, not_or]

/-- Every second one of some pieces, from the second on. -/
def everySecond {α : Type} : List α → List α
  | _ :: second :: rest => second :: everySecond rest
  | _ => []

def placeholders (template : String) : List String := everySecond (Text.splitAt '$' template)

/-- A text with some placeholders in it, between texts without a mark. -/
inductive Reads : (template : String) → (names : List String) → Prop where
  | text {text : String} (h : Clear text) : Reads text []
  | hole {text name rest : String} {names : List String} (htext : Clear text) (hname : Clear name)
      (hrest : Reads rest names) : Reads (text ++ placeholder name ++ rest) (name :: names)

theorem splitAt_placeholder {text name : String} (htext : Clear text) (hname : Clear name)
    (rest : String) : Text.splitAt '$' (text ++ placeholder name ++ rest) =
      text :: name :: Text.splitAt '$' rest := by
  have hmark : '$' == '$' := rfl
  have hclear : ∀ {text : String}, Clear text → ∀ c ∈ text.toList, (c == '$') = false :=
    fun h c hc => beq_false_of_ne fun heq => h (heq ▸ hc)
  have hchars : (text ++ placeholder name ++ rest).toList =
      text.toList ++ '$' :: (name.toList ++ '$' :: rest.toList) := by
    simp [placeholder]
  rw [Text.splitAt, hchars, Text.pieces_append_cons (hclear htext) hmark,
    Text.pieces_append_cons (hclear hname) hmark]
  simp [Text.splitAt]

namespace Reads

variable {template more : String} {names names' : List String}

/-- What was put in is read, and the last placeholder is closed. -/
theorem splitAt (h : Reads template names) :
    (Text.splitAt '$' template).length = 2 * names.length + 1 ∧ placeholders template = names := by
  induction h with
  | text h =>
    rw [placeholders, Text.splitAt_of_not_mem h]
    exact ⟨rfl, rfl⟩
  | hole htext hname _ ih =>
    obtain ⟨hlength, hnames⟩ := ih
    rw [placeholders, splitAt_placeholder htext hname]
    refine ⟨?_, congrArg _ hnames⟩
    rw [List.length_cons, List.length_cons, hlength, List.length_cons]
    omega

theorem prepend (h : Reads template names) {text : String} (htext : Clear text) :
    Reads (text ++ template) names := by
  cases h with
  | text h => exact .text (clear_append.mpr ⟨htext, h⟩)
  | hole hbefore hname hrest =>
    rw [← String.append_assoc, ← String.append_assoc]
    exact .hole (clear_append.mpr ⟨htext, hbefore⟩) hname hrest

theorem append (h : Reads template names) (h' : Reads more names') :
    Reads (template ++ more) (names ++ names') := by
  induction h with
  | text h => exact h'.prepend h
  | hole htext hname _ ih =>
    rw [String.append_assoc]
    exact .hole htext hname ih

theorem placeholder (name : String) (h : Clear name) :
    Reads (Template.placeholder name) [name] := by
  have hhole : Reads ("" ++ Template.placeholder name ++ "") [name] :=
    .hole (by decide) h (.text (by decide))
  rwa [String.empty_append, String.append_empty] at hhole

/-- A template behind a placeholder that is in front of it, and in front of what follows. -/
theorem behind (h : Reads template names) {before name between after : String}
    {names' : List String} (hbefore : Clear before) (hname : Clear name) (hbetween : Clear between)
    (hafter : Reads after names') :
    Reads (before ++ Template.placeholder name ++ between ++ template ++ after)
      (name :: (names ++ names')) := by
  have hrest : Reads (between ++ template ++ after) (names ++ names') :=
    (h.prepend hbetween).append hafter
  have hall := Reads.hole hbefore hname hrest
  rwa [← String.append_assoc, ← String.append_assoc] at hall

end Reads

/-! ## Replacing the subject -/

theorem reads_variablePlaceholder : Reads variablePlaceholder [Scope.variableName] :=
  .placeholder Scope.variableName (by decide)

theorem reads_endMarker : Reads endMarker ["END"] := .placeholder "END" (by decide)

/-- A block with the caret in it. -/
theorem reads_block {before after : String} (hbefore : Clear before) (hafter : Clear after) :
    Reads (before ++ endMarker ++ after) ["END"] :=
  (reads_endMarker.prepend hbefore).append (.text hafter)

/-- What is put in for the subject are whole placeholders. -/
theorem exists_reads_substitute (pattern : List Char) (skip : Nat) {text : List Char}
    (h : '$' ∉ text) : ∃ count, Reads
      (String.ofList (Text.substitute pattern variablePlaceholder.toList skip text))
      (List.replicate count Scope.variableName) := by
  induction text generalizing skip with
  | nil => exact ⟨0, .text (by simp [Clear, Text.substitute])⟩
  | cons c text ih =>
    rw [List.mem_cons, not_or] at h
    cases skip with
    | succ skip => exact ih skip h.2
    | zero =>
      rw [Text.substitute]
      split
      · obtain ⟨count, hrest⟩ := ih (pattern.length - 1) h.2
        rw [String.ofList_append, String.ofList_toList]
        exact ⟨count + 1, reads_variablePlaceholder.append hrest⟩
      · obtain ⟨count, hrest⟩ := ih 0 h.2
        rw [← List.singleton_append, String.ofList_append]
        exact ⟨count, hrest.prepend (by simp [Clear, h.1])⟩

theorem exists_reads_replaceSubject (parameters : Fields) {text : String} (h : Clear text) :
    ∃ count, Reads (Builder.replaceSubject text parameters)
      (List.replicate count Scope.variableName) := by
  unfold Builder.replaceSubject
  split
  · split
    · exact ⟨0, .text h⟩
    · exact exists_reads_substitute _ 0 h
  · exact ⟨0, .text h⟩

end Foresight.Template
