/-!
# Cutting and replacing text

Offsets into a text count its UTF-8 bytes. A cut exists only where a character begins or the text
ends, which is what `IsValid` says of a raw position; `slice?_append` is the other direction: a
piece between two others is found at its byte offsets.

Replacement works on the list of characters, from left to right and without overlaps.
-/

namespace Foresight.Text

/-- The text from byte `start` up to byte `stop`, if both are character boundaries in order. -/
def slice? (text : String) (start stop : Nat) : Option String :=
  if start ≤ stop then
    if hs : String.Pos.Raw.IsValid text ⟨start⟩ then
      if he : String.Pos.Raw.IsValid text ⟨stop⟩ then
        some (String.extract (⟨⟨start⟩, hs⟩ : text.Pos) ⟨⟨stop⟩, he⟩)
      else none
    else none
  else none

/-- What follows a lead, if the text begins with it. -/
def dropLead? {α : Type} [BEq α] : (lead text : List α) → Option (List α)
  | [], text => some text
  | _ :: _, [] => none
  | l :: lead, c :: text => if l == c then dropLead? lead text else none

theorem dropLead?_eq_some_iff {α : Type} [BEq α] [LawfulBEq α] {lead text rest : List α} :
    dropLead? lead text = some rest ↔ text = lead ++ rest := by
  induction lead generalizing text with
  | nil => simp [dropLead?]
  | cons l lead ih =>
    cases text with
    | nil => simp [dropLead?]
    | cons c text =>
      by_cases h : l = c
      · simp [dropLead?, h, ih]
      · simp [dropLead?, h, Ne.symm h]

theorem dropLead?_eq_none_iff {α : Type} [BEq α] [LawfulBEq α] {lead text : List α} :
    dropLead? lead text = none ↔ ¬ lead <+: text := by
  rw [Option.eq_none_iff_forall_ne_some]
  constructor
  · rintro h ⟨rest, hrest⟩
    exact h rest (dropLead?_eq_some_iff.mpr hrest.symm)
  · intro h rest hrest
    exact h ⟨rest, (dropLead?_eq_some_iff.mp hrest).symm⟩

def stripLead? (lead text : String) : Option String :=
  (dropLead? lead.toList text.toList).map String.ofList

theorem stripLead?_append (lead text : String) : stripLead? lead (lead ++ text) = some text := by
  rw [stripLead?, String.toList_append, dropLead?_eq_some_iff.mpr rfl, Option.map_some,
    String.ofList_toList]

def stripTail? (tail text : String) : Option String :=
  (dropLead? tail.toList.reverse text.toList.reverse).map fun rest => String.ofList rest.reverse

theorem stripTail?_append (text tail : String) : stripTail? tail (text ++ tail) = some text := by
  rw [stripTail?, String.toList_append, List.reverse_append, dropLead?_eq_some_iff.mpr rfl,
    Option.map_some, List.reverse_reverse, String.ofList_toList]

def beginsWith (lead text : String) : Bool :=
  (dropLead? lead.toList text.toList).isSome

theorem beginsWith_iff {lead text : String} :
    beginsWith lead text = true ↔ ∃ rest, text = lead ++ rest := by
  rw [beginsWith, Option.isSome_iff_exists]
  constructor
  · rintro ⟨rest, hrest⟩
    refine ⟨String.ofList rest, String.toList_injective ?_⟩
    rw [String.toList_append, String.toList_ofList]
    exact dropLead?_eq_some_iff.mp hrest
  · rintro ⟨rest, rfl⟩
    exact ⟨rest.toList, dropLead?_eq_some_iff.mpr String.toList_append⟩

def endsWith (tail text : String) : Bool :=
  (stripTail? tail text).isSome

/-- The first occurrence of a pattern: what precedes it and what follows it. -/
def cutAt? {α : Type} [BEq α] (pattern : List α) : List α → Option (List α × List α)
  | [] => if pattern.isEmpty then some ([], []) else none
  | c :: text =>
    match dropLead? pattern (c :: text) with
    | some rest => some ([], rest)
    | none => (cutAt? pattern text).map fun (before, rest) => (c :: before, rest)

/-- A pattern that occurs is found. -/
theorem isSome_cutAt?_iff {α : Type} [BEq α] [LawfulBEq α] {pattern text : List α} :
    (cutAt? pattern text).isSome = true ↔ pattern <:+: text := by
  induction text with
  | nil =>
    rw [List.infix_nil, cutAt?]
    cases pattern <;> simp
  | cons c text ih =>
    rw [cutAt?, List.infix_cons_iff, ← ih]
    cases h : dropLead? pattern (c :: text) with
    | some rest => exact iff_of_true rfl (Or.inl ⟨rest, (dropLead?_eq_some_iff.mp h).symm⟩)
    | none => rw [Option.isSome_map, or_iff_right (dropLead?_eq_none_iff.mp h)]

/-- The first occurrence of a pattern in a text: what precedes it and what follows it. -/
def cut? (pattern text : String) : Option (String × String) :=
  (cutAt? pattern.toList text.toList).map fun (before, rest) =>
    (String.ofList before, String.ofList rest)

/-- The last occurrence of a character in a text: what precedes it and what follows it. -/
def cutLast? (separator : Char) (text : String) : Option (String × String) :=
  (cutAt? [separator] text.toList.reverse).map fun (after, before) =>
    (String.ofList before.reverse, String.ofList after.reverse)

/-- Replaces the occurrences of `pattern` that a scan from the left meets. `skip` counts the
characters left of an occurrence that has just been replaced. -/
def substitute {α : Type} [BEq α] (pattern by_ : List α) : (skip : Nat) → List α → List α
  | _, [] => []
  | skip + 1, _ :: text => substitute pattern by_ skip text
  | 0, c :: text =>
    if pattern.isPrefixOf (c :: text) then
      by_ ++ substitute pattern by_ (pattern.length - 1) text
    else
      c :: substitute pattern by_ 0 text

section Substitute

variable {α : Type} [BEq α] {pattern by_ : List α}

theorem substitute_append_skip (text rest : List α) :
    substitute pattern by_ text.length (text ++ rest) = substitute pattern by_ 0 rest := by
  induction text with
  | nil => rfl
  | cons c text ih => exact ih

variable [LawfulBEq α]

theorem substitute_cons_of_mismatch {c : α} {text : List α} (h : ¬ pattern <+: c :: text) :
    substitute pattern by_ 0 (c :: text) = c :: substitute pattern by_ 0 text := by
  rw [substitute, if_neg fun hprefix => h (List.isPrefixOf_iff_prefix.mp hprefix)]

/-- What the pattern cannot begin in is kept. -/
theorem substitute_append_of_not_mem {c : α} {text : List α} (h : c ∉ text) (rest : List α) :
    substitute (c :: pattern) by_ 0 (text ++ rest) =
      text ++ substitute (c :: pattern) by_ 0 rest := by
  induction text with
  | nil => rfl
  | cons a text ih =>
    rw [List.mem_cons, not_or] at h
    rw [List.cons_append, substitute_cons_of_mismatch, ih h.2, List.cons_append]
    rintro ⟨tail, htail⟩
    exact h.1 (List.cons.inj htail).1

/-- An occurrence in front is replaced, and the scan goes on behind it. -/
theorem substitute_occurrence {c : α} (rest : List α) :
    substitute (c :: pattern) by_ 0 (c :: pattern ++ rest) =
      by_ ++ substitute (c :: pattern) by_ 0 rest := by
  have hprefix : c :: pattern <+: c :: (pattern ++ rest) := List.prefix_append (c :: pattern) rest
  rw [List.cons_append, substitute, if_pos (List.isPrefixOf_iff_prefix.mpr hprefix),
    List.length_cons, Nat.add_sub_cancel, substitute_append_skip]

end Substitute

/-- The text with every occurrence of a non-empty pattern replaced. -/
def replace (pattern by_ text : String) : String :=
  String.ofList (substitute pattern.toList by_.toList 0 text.toList)

def contains (pattern text : String) : Bool :=
  (cutAt? pattern.toList text.toList).isSome

theorem contains_iff {pattern text : String} :
    contains pattern text = true ↔ pattern.toList <:+: text.toList :=
  isSome_cutAt?_iff

/-- Equality up to the case of ASCII letters. -/
def sameIgnoringCase (a b : String) : Bool :=
  a.toList.map Char.toLower == b.toList.map Char.toLower

def join (separator : String) (parts : List String) : String :=
  String.intercalate separator parts

end Foresight.Text
