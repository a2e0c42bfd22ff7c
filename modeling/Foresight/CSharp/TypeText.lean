import Foresight.CSharp.Framework
import Foresight.Text.Blank
import Foresight.Text.Cut

/-!
# Written types

A type as it stands in the source is read into a type expression: an array, a nullable type, a
keyword, a generic type applied to others, or a name. White space counts for nothing but the
separation of words, so two ways of writing a type that differ only there have one expression.
-/

namespace Foresight.CSharp

open Text

/-- Namespace and simple name of a dotted name, without generic arguments and array suffixes. -/
def splitQualified (longName : String) : QualifiedName :=
  let dropArrays := dropSuffixes longName.toList
  match cutLast? '.' (trim dropArrays) with
  | some (namespace_, name) => ⟨namespace_, name⟩
  | none => ⟨"", trim dropArrays⟩
where
  /-- The text before the first angle bracket, without the array suffixes at its end. -/
  dropSuffixes (text : List Char) : String :=
    String.ofList (dropPairs (text.takeWhile (· != '<')).reverse).reverse
  /-- Drops the pairs of square brackets that begin a reversed text. -/
  dropPairs : List Char → List Char
    | ']' :: '[' :: rest => dropPairs rest
    | rest => rest

inductive TypeText where
  /-- No type is written, or one that is left to the compiler. -/
  | implicit
  | array (element : TypeText)
  | nullable (inner : TypeText)
  /-- A keyword, with the framework type that it stands for. -/
  | keyword (long : String)
  | generic (base : String) (arguments : List TypeText)
  | name (text : String)

namespace TypeText

def squeezeChars (cs : List Char) : List Char :=
  [' '].intercalate ((pieces isBlank cs).filter (!·.isEmpty))

theorem pieces_ne_nil {α : Type} (p : α → Bool) (l : List α) : pieces p l ≠ [] := by
  cases l with
  | nil => simp [pieces]
  | cons a l =>
    simp only [pieces]
    split
    · simp
    · split <;> simp

/-- The length of some words, with one more for each. -/
def spacedLength {α : Type} (ws : List (List α)) : Nat :=
  ws.foldr (fun w total => w.length + 1 + total) 0

@[simp]
theorem spacedLength_nil {α : Type} : spacedLength ([] : List (List α)) = 0 := rfl

@[simp]
theorem spacedLength_cons {α : Type} (w : List α) (ws : List (List α)) :
    spacedLength (w :: ws) = w.length + 1 + spacedLength ws := rfl

/-- Words and the separators between them make up the whole. -/
theorem spacedLength_pieces {α : Type} (p : α → Bool) (l : List α) :
    spacedLength (pieces p l) = l.length + 1 := by
  induction l with
  | nil => simp [pieces]
  | cons a l ih =>
    simp only [pieces]
    split
    · simp [ih]; omega
    · split
      · rename_i h; exact absurd h (pieces_ne_nil p l)
      · rename_i w ws h
        rw [h] at ih
        simp at ih ⊢
        omega

theorem length_intercalate_succ_le {α : Type} (sep : α) (ws : List (List α)) :
    ([sep].intercalate ws).length ≤ spacedLength ws - 1 := by
  induction ws with
  | nil => simp
  | cons w ws ih =>
    cases ws with
    | nil => simp
    | cons v vs =>
      simp only [List.intercalate_cons_cons, List.length_append, spacedLength_cons,
        List.length_singleton] at ih ⊢
      omega

theorem length_squeezeChars_le (cs : List Char) : (squeezeChars cs).length ≤ cs.length := by
  have h₁ := length_intercalate_succ_le ' ' ((pieces isBlank cs).filter (!·.isEmpty))
  have h₂ := spacedLength_pieces isBlank cs
  have h₃ : ∀ ws : List (List Char),
      spacedLength (ws.filter (!·.isEmpty)) ≤ spacedLength ws := by
    intro ws
    induction ws with
    | nil => simp
    | cons w ws ih =>
      simp only [List.filter_cons, spacedLength_cons]
      split
      · simp only [spacedLength_cons]
        omega
      · omega
  have h₄ := h₃ (pieces isBlank cs)
  unfold squeezeChars
  omega

/-- Splits at the commas that stand outside angle brackets. `part` is the reversed part so far. -/
def splitArguments : (depth : Nat) → (part : List Char) → List Char → List (List Char)
  | _, part, [] => [part.reverse]
  | depth, part, c :: rest =>
    if c = ',' ∧ depth = 0 then part.reverse :: splitArguments 0 [] rest
    else
      let depth := if c = '<' then depth + 1 else if c = '>' then depth - 1 else depth
      splitArguments depth (c :: part) rest

theorem length_le_of_mem_splitArguments {depth : Nat} {part text argument : List Char}
    (h : argument ∈ splitArguments depth part text) :
    argument.length ≤ part.length + text.length := by
  induction text generalizing depth part with
  | nil => simp [splitArguments] at h; simp [h]
  | cons c rest ih =>
    simp only [splitArguments] at h
    split at h
    · rcases List.mem_cons.1 h with rfl | h
      · simp
      · have := ih h; simp at this ⊢; omega
    · have := ih h; simp at this ⊢; omega

/-- The base and the arguments of a generic type, if a text is one. -/
def generic? (text : List Char) : Option (List Char × List (List Char)) :=
  match cutAt? ['<'] text with
  | some (base, rest) =>
    if rest.getLast? = some '>' then some (base, splitArguments 0 [] rest.dropLast) else none
  | none => none

theorem length_cutAt? {α : Type} [BEq α] {pattern before rest text : List α}
    (h : cutAt? pattern text = some (before, rest)) : rest.length ≤ text.length := by
  have drop : ∀ {lead text rest : List α}, dropLead? lead text = some rest →
      rest.length ≤ text.length := by
    intro lead
    induction lead with
    | nil => intro text rest h; simp [dropLead?] at h; simp [h]
    | cons l lead ih =>
      intro text rest h
      cases text with
      | nil => simp [dropLead?] at h
      | cons c text =>
        simp only [dropLead?] at h
        split at h
        · have := ih h; simp; omega
        · simp at h
  induction text generalizing before rest with
  | nil =>
    simp only [cutAt?] at h
    split at h
    · simp at h; simp [h.2.symm]
    · simp at h
  | cons c text ih =>
    simp only [cutAt?] at h
    split at h
    · rename_i r hr
      simp at h
      rw [← h.2]
      exact drop hr
    · simp only [Option.map_eq_some_iff] at h
      obtain ⟨⟨b, r⟩, hb, he⟩ := h
      simp at he
      have := ih hb
      simp [← he.2]
      omega

theorem length_lt_of_generic? {text base argument : List Char} {arguments : List (List Char)}
    (h : generic? text = some (base, arguments)) (hm : argument ∈ arguments) :
    argument.length < text.length := by
  unfold generic? at h
  split at h
  · rename_i b r hc
    split at h
    · rename_i hl
      simp at h
      obtain ⟨_, rfl⟩ := h
      have h₁ := length_le_of_mem_splitArguments hm
      have h₂ := length_cutAt? hc
      have h₃ : r ≠ [] := by rintro rfl; simp at hl
      have h₄ : 0 < r.length := List.length_pos_iff.2 h₃
      simp at h₁
      omega
    · simp at h
  · simp at h

/-- What precedes the tail of a text, which is not empty. -/
def dropTail? (tail text : List Char) : Option (List Char) :=
  (dropLead? tail.reverse text.reverse).map List.reverse

theorem length_lt_of_dropTail? {t : Char} {tail text rest : List Char}
    (h : dropTail? (t :: tail) text = some rest) : rest.length < text.length := by
  unfold dropTail? at h
  simp only [Option.map_eq_some_iff] at h
  obtain ⟨r, hr, rfl⟩ := h
  have := congrArg List.length (dropLead?_eq_some_iff.1 hr)
  simp at this ⊢
  omega

def ofChars (cs : List Char) : TypeText :=
  let text := squeezeChars cs
  if text = [] ∨ text = "var".toList ∨ text = "dynamic".toList then .implicit
  else match _ha : dropTail? ['[', ']'] text with
  | some element => .array (ofChars element)
  | none =>
    match _hn : dropTail? ['?'] text with
    | some inner => .nullable (ofChars inner)
    | none =>
      match keywordType? (String.ofList text) with
      | some long => .keyword long
      | none =>
        match _hg : generic? text with
        | some (base, arguments) =>
          .generic (String.ofList base) (arguments.attach.map fun ⟨a, _⟩ => ofChars a)
        | none => .name (String.ofList text)
  termination_by cs.length
  decreasing_by
    · exact Nat.lt_of_lt_of_le (length_lt_of_dropTail? _ha) (length_squeezeChars_le cs)
    · exact Nat.lt_of_lt_of_le (length_lt_of_dropTail? _hn) (length_squeezeChars_le cs)
    · rename_i h
      exact Nat.lt_of_lt_of_le (length_lt_of_generic? _hg h) (length_squeezeChars_le cs)

def ofString (written : String) : TypeText := ofChars written.toList

end TypeText

end Foresight.CSharp
