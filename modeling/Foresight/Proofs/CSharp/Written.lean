import Foresight.CSharp.Index
import Foresight.Proofs.Text.Characters
import Foresight.Proofs.Text.Pieces
import Mathlib.Data.List.Basic
import Mathlib.Data.List.Infix

/-!
# Reading written types

What is read from a text depends on its words only: white space in front of them is dropped
(`squeezeChars_blanks`), words are kept (`squeezeChars_word`), and no white space is left at the
ends (`trimmed_squeezeChars`). So the ends of the squeezed text tell what is read: the suffix of an
array or of a nullable type, or a closing angle bracket. There is one equation for each of these,
and one for names.
-/

namespace Foresight

namespace CSharp

open Text

/-- Nothing but white space. -/
def Blanks (cs : List Char) : Prop := ∀ c ∈ cs, isBlank c = true

instance (cs : List Char) : Decidable (Blanks cs) :=
  inferInstanceAs (Decidable (∀ c ∈ cs, isBlank c = true))

theorem blanks_nil : Blanks [] := fun _ h => absurd h List.not_mem_nil

theorem Blanks.append {before after : List Char} (hbefore : Blanks before) (hafter : Blanks after) :
    Blanks (before ++ after) :=
  List.forall_mem_append.mpr ⟨hbefore, hafter⟩

/-- Without its suffixes, a name is as it begins. -/
theorem dropSuffixes_isPrefix (cs : List Char) :
    (splitQualified.dropSuffixes cs).toList <+: cs := by
  have hpairs : ∀ cs, splitQualified.dropPairs cs <:+ cs := fun cs => by
    fun_induction splitQualified.dropPairs cs with
    | case1 rest ih => exact ih.trans (List.suffix_append [']', '['] rest)
    | case2 rest => exact List.suffix_refl _
  rw [splitQualified.dropSuffixes, String.toList_ofList]
  have hpairs := hpairs (cs.takeWhile (· != '<')).reverse
  rw [← List.reverse_prefix, List.reverse_reverse] at hpairs
  exact hpairs.trans (List.takeWhile_prefix _)

/-! ## Squeezing -/

namespace TypeText

/-- The words of a text. -/
def wordsOf (cs : List Char) : List (List Char) := (pieces isBlank cs).filter (!·.isEmpty)

theorem squeezeChars_eq (cs : List Char) : squeezeChars cs = [' '].intercalate (wordsOf cs) := rfl

theorem toList_squeeze (text : String) : (squeeze text).toList = squeezeChars text.toList := by
  have hwords : (words text).map String.toList = wordsOf text.toList := by
    rw [words, List.map_map]
    exact (List.map_congr_left fun w _ => String.toList_ofList).trans (List.map_id _)
  rw [squeeze, String.toList_intercalate, hwords]
  rfl

theorem wordsOf_blank {b : Char} (h : isBlank b = true) (cs : List Char) :
    wordsOf (b :: cs) = wordsOf cs := by
  rw [wordsOf, pieces, if_pos h]
  rfl

/-- White space in front is dropped. -/
theorem squeezeChars_blanks {blanks : List Char} (h : Blanks blanks) (cs : List Char) :
    squeezeChars (blanks ++ cs) = squeezeChars cs := by
  induction blanks with
  | nil => rfl
  | cons b blanks ih =>
    obtain ⟨hb, hrest⟩ := List.forall_mem_cons.mp h
    rw [squeezeChars_eq, List.cons_append, wordsOf_blank hb, ← squeezeChars_eq, ih hrest]

/-- Text without white space is kept, and a space may be left behind it. -/
theorem squeezeChars_word {word : List Char} (h : ∀ c ∈ word, isBlank c = false)
    (cs : List Char) :
    ∃ gap, Blanks gap ∧ squeezeChars (word ++ cs) = word ++ (gap ++ squeezeChars cs) := by
  cases word with
  | nil => exact ⟨[], blanks_nil, rfl⟩
  | cons c word =>
    obtain ⟨first, more, hpieces⟩ := exists_pieces_eq (p := isBlank) cs
    have hword : wordsOf (c :: word ++ cs) =
        (c :: word ++ first) :: more.filter (!·.isEmpty) := by
      rw [wordsOf, pieces_append_of_forall h hpieces]
      rfl
    have hwords : wordsOf cs = (first :: more).filter (!·.isEmpty) := by rw [wordsOf, hpieces]
    rw [squeezeChars_eq, squeezeChars_eq, hword, hwords]
    cases first with
    | cons d first =>
      refine ⟨[], blanks_nil, ?_⟩
      rw [List.filter_cons_of_pos (by rfl), List.nil_append]
      cases more.filter (!·.isEmpty) with
      | nil => simp
      | cons next rest => simp [List.intercalate_cons_cons]
    | nil =>
      rw [List.filter_cons_of_neg (by decide), List.append_nil]
      cases more.filter (!·.isEmpty) with
      | nil => exact ⟨[], blanks_nil, by simp⟩
      | cons next rest =>
        exact ⟨[' '], List.forall_mem_singleton.mpr (by decide), by
          simp [List.intercalate_cons_cons]⟩

theorem wordsOf_of_forall {word : List Char} (hne : word ≠ [])
    (hword : ∀ c ∈ word, isBlank c = false) : wordsOf word = [word] := by
  rw [wordsOf, pieces_of_forall hword]
  simpa using hne

theorem wordsOf_append_space {word : List Char}
    (hword : word ≠ [] ∧ ∀ c ∈ word, isBlank c = false) (cs : List Char) :
    wordsOf (word ++ ' ' :: cs) = word :: wordsOf cs := by
  rw [wordsOf, pieces_append_cons hword.2 (by decide)]
  exact List.filter_cons_of_pos (by simpa using hword.1)

theorem squeezeChars_of_forall {word : List Char} (hword : ∀ c ∈ word, isBlank c = false) :
    squeezeChars word = word := by
  cases word with
  | nil => rfl
  | cons c word =>
    rw [squeezeChars_eq, wordsOf_of_forall (by simp) hword, List.intercalate_singleton]

theorem of_mem_wordsOf {cs word : List Char} (h : word ∈ wordsOf cs) :
    word ≠ [] ∧ ∀ c ∈ word, isBlank c = false := by
  obtain ⟨hpiece, hnonempty⟩ := List.mem_filter.mp h
  exact ⟨fun heq => by simp [heq] at hnonempty, not_of_mem_pieces hpiece⟩

/-- There is no white space at the ends. -/
def Trimmed (cs : List Char) : Prop :=
  (∀ c ∈ cs.head?, isBlank c = false) ∧ ∀ c ∈ cs.getLast?, isBlank c = false

theorem trimmed_intercalate {words : List (List Char)}
    (h : ∀ word ∈ words, word ≠ [] ∧ ∀ c ∈ word, isBlank c = false) :
    Trimmed ([' '].intercalate words) := by
  induction words with
  | nil => simp [Trimmed]
  | cons word rest ih =>
    obtain ⟨⟨hne, hword⟩, hrest⟩ := List.forall_mem_cons.mp h
    cases rest with
    | nil =>
      rw [List.intercalate_singleton]
      exact ⟨fun c hc => hword c (List.mem_of_head? hc),
        fun c hc => hword c (List.mem_of_getLast? hc)⟩
    | cons next rest =>
      have hnext : [' '].intercalate (next :: rest) ≠ [] := by
        have hne := (hrest next List.mem_cons_self).1
        cases rest <;> simp [List.intercalate_cons_cons, hne]
      rw [List.intercalate_cons_cons, List.append_assoc]
      constructor
      · rw [List.head?_append_of_ne_nil _ hne]
        exact fun c hc => hword c (List.mem_of_head? hc)
      · rw [List.getLast?_append_of_ne_nil _ (by simp), List.getLast?_append_of_ne_nil _ hnext]
        exact (ih hrest).2

theorem trimmed_squeezeChars (cs : List Char) : Trimmed (squeezeChars cs) :=
  trimmed_intercalate fun _ => of_mem_wordsOf

/-- What a squeezed text begins with stays as it is when it is squeezed again, but for white space
at its end. -/
theorem squeezeChars_isPrefix {lead cs : List Char} (h : lead <+: squeezeChars cs) :
    squeezeChars lead <+: squeezeChars cs := by
  have hsqueezed : ∀ {words : List (List Char)},
      (∀ word ∈ words, word ≠ [] ∧ ∀ c ∈ word, isBlank c = false) → ∀ {lead : List Char},
      lead <+: [' '].intercalate words → squeezeChars lead <+: [' '].intercalate words := by
    intro words hwords
    induction words with
    | nil =>
      intro lead h
      obtain rfl := List.prefix_nil.mp h
      exact h
    | cons word rest ih =>
      intro lead h
      obtain ⟨⟨-, hword⟩, hrest⟩ := List.forall_mem_cons.mp hwords
      cases rest with
      | nil =>
        rw [List.intercalate_singleton] at h ⊢
        rwa [squeezeChars_of_forall fun c hc => hword c (h.subset hc)]
      | cons next rest =>
        rw [List.intercalate_cons_cons, List.append_assoc] at h ⊢
        rcases List.prefix_or_prefix_of_prefix h (List.prefix_append _ _) with hshort | ⟨tail, rfl⟩
        · rwa [squeezeChars_of_forall fun c hc => hword c (hshort.subset hc)]
        · -- The first word is there as a whole, with a part of the others.
          rw [List.prefix_append_right_inj] at h
          cases tail with
          | nil =>
            rw [List.append_nil, squeezeChars_of_forall hword]
            exact List.prefix_append _ _
          | cons c tail =>
            rw [List.singleton_append, List.cons_prefix_cons] at h
            obtain ⟨rfl, htail⟩ := h
            have hwords := wordsOf_append_space (hwords word List.mem_cons_self) tail
            rw [squeezeChars_eq, hwords]
            cases hmore : wordsOf tail with
            | nil =>
              rw [List.intercalate_singleton]
              exact List.prefix_append _ _
            | cons v vs =>
              rw [List.intercalate_cons_cons, List.append_assoc, ← hmore, ← squeezeChars_eq,
                List.prefix_append_right_inj, List.prefix_append_right_inj]
              exact ih hrest htail
  exact hsqueezed (fun _ => of_mem_wordsOf) h

theorem Trimmed.eq_nil_of_isPrefix {blanks cs : List Char} (h : Trimmed cs) (hlead : blanks <+: cs)
    (hblanks : Blanks blanks) : blanks = [] := by
  obtain ⟨rest, rfl⟩ := hlead
  cases blanks with
  | nil => rfl
  | cons c blanks => cases (h.1 c rfl).symm.trans (hblanks c List.mem_cons_self)

theorem Trimmed.eq_nil_of_suffix {blanks cs : List Char} (h : Trimmed cs) (hsuffix : blanks <:+ cs)
    (hblanks : Blanks blanks) : blanks = [] := by
  obtain ⟨rest, rfl⟩ := hsuffix
  rcases List.eq_nil_or_concat blanks with rfl | ⟨init, last, rfl⟩
  · rfl
  · cases (h.2 last (by simp)).symm.trans (hblanks last (by simp))

/-! ## Names and marks -/

/-- The marks with which types are put together. -/
def typeMarks : List Char := ['<', '>', ',', '[', ']', '?']

/-- A name, with dots or without, has no white space and no marks in it. -/
def IsTypeName (text : List Char) : Prop :=
  text ≠ [] ∧ ∀ c ∈ text, isBlank c = false ∧ c ∉ typeMarks

instance (text : List Char) : Decidable (IsTypeName text) :=
  inferInstanceAs (Decidable (text ≠ [] ∧ ∀ c ∈ text, isBlank c = false ∧ c ∉ typeMarks))

theorem IsTypeName.not_blank {text : List Char} (h : IsTypeName text) :
    ∀ c ∈ text, isBlank c = false :=
  fun c hc => (h.2 c hc).1

/-- Marks are kept, and as much white space as it takes may be left behind them. -/
theorem squeezeChars_marks {marks after : List Char} (hmarks : marks ⊆ typeMarks)
    (hafter : Blanks after) (more : List Char) :
    ∃ gap, Blanks gap ∧ squeezeChars (marks ++ (after ++ more)) =
      marks ++ (gap ++ squeezeChars more) := by
  have hblank : ∀ c ∈ typeMarks, isBlank c = false := by decide
  obtain ⟨gap, hgap, heq⟩ :=
    squeezeChars_word (fun c hc => hblank c (hmarks hc)) (after ++ more)
  rw [squeezeChars_blanks hafter] at heq
  exact ⟨gap, hgap, heq⟩

/-! ## Equations -/

/-- What is read where a name is written. -/
def readName (name : String) : TypeText :=
  if name = "var" ∨ name = "dynamic" then .implicit
  else match keywordType? name with
  | some long => .keyword long
  | none => .name name

theorem dropTail?_eq_some_iff {tail text rest : List Char} :
    dropTail? tail text = some rest ↔ text = rest ++ tail := by
  rw [dropTail?, Option.map_eq_some_iff]
  constructor
  · rintro ⟨reversed, hdrop, rfl⟩
    have htext := congrArg List.reverse (dropLead?_eq_some_iff.mp hdrop)
    rwa [List.reverse_reverse, List.reverse_append, List.reverse_reverse] at htext
  · rintro rfl
    exact ⟨rest.reverse, dropLead?_eq_some_iff.mpr List.reverse_append, List.reverse_reverse _⟩

/-- Only a text that ends as the tail does has it. -/
theorem dropTail?_eq_none {tail text : List Char} {mark : Char} (hlast : text.getLast? = some mark)
    (hne : tail ≠ []) (h : tail.getLast? ≠ some mark) : dropTail? tail text = none := by
  refine Option.eq_none_iff_forall_ne_some.mpr fun rest hrest => h ?_
  rw [← hlast, dropTail?_eq_some_iff.mp hrest, List.getLast?_append_of_ne_nil _ hne]

/-- Neither a keyword nor what is left to the compiler ends with a mark. -/
theorem not_reserved {text : List Char} {mark : Char} (h : mark ∈ typeMarks)
    (hlast : text.getLast? = some mark) :
    ¬ (text = [] ∨ text = "var".toList ∨ text = "dynamic".toList) ∧
      keywordType? (String.ofList text) = none := by
  have hkeywords : ∀ entry ∈ keywordTypes, ∀ c ∈ entry.1.toList, c ∉ typeMarks := by decide
  constructor
  · rintro (rfl | rfl | rfl)
    · cases hlast
    · obtain rfl := Option.some.inj hlast
      exact absurd h (by decide)
    · obtain rfl := Option.some.inj hlast
      exact absurd h (by decide)
  · refine List.lookup_eq_none_iff.mpr fun entry hentry => bne_iff_ne.mpr fun heq => ?_
    refine hkeywords entry hentry mark ?_ h
    rw [← heq, String.toList_ofList]
    exact List.mem_of_getLast? hlast

/-- The base of a generic type is in front of an angle bracket. -/
theorem exists_of_generic?_eq_some {text base : List Char} {arguments : List (List Char)}
    (h : generic? text = some (base, arguments)) : ∃ rest, text = base ++ '<' :: rest := by
  unfold generic? at h
  split at h
  · rename_i before rest hcut
    split at h
    · cases h
      exact ⟨rest, by rw [eq_of_cutAt?_eq_some hcut]; simp⟩
    · cases h
  · cases h

section Equations

variable {cs text : List Char}

theorem ofChars_array (h : squeezeChars cs = text ++ ['[', ']']) :
    ofChars cs = .array (ofChars text) := by
  have hlast : (squeezeChars cs).getLast? = some ']' := by simp [h]
  have hdrop := dropTail?_eq_some_iff.mpr h
  fun_cases ofChars cs with
  | case1 _ himplicit => exact absurd himplicit (not_reserved (by decide) hlast).1
  | case2 squeezed _ element helement => rw [Option.some.inj (hdrop.symm.trans helement)]
  | case3 squeezed _ hnone | case4 squeezed _ hnone | case5 squeezed _ hnone
  | case6 squeezed _ hnone => cases hdrop.symm.trans hnone

theorem ofChars_nullable (h : squeezeChars cs = text ++ ['?']) :
    ofChars cs = .nullable (ofChars text) := by
  have hlast : (squeezeChars cs).getLast? = some '?' := by simp [h]
  have harray : dropTail? ['[', ']'] (squeezeChars cs) = none :=
    dropTail?_eq_none hlast (by decide) (by decide)
  have hdrop := dropTail?_eq_some_iff.mpr h
  fun_cases ofChars cs with
  | case1 _ himplicit => exact absurd himplicit (not_reserved (by decide) hlast).1
  | case2 squeezed _ element helement => cases harray.symm.trans helement
  | case3 squeezed _ _ inner hinner => rw [Option.some.inj (hdrop.symm.trans hinner)]
  | case4 squeezed _ _ hnone | case5 squeezed _ _ hnone
  | case6 squeezed _ _ hnone => cases hdrop.symm.trans hnone

theorem ofChars_generic {inner : List Char} (hbase : '<' ∉ text)
    (h : squeezeChars cs = text ++ '<' :: (inner ++ ['>'])) :
    ofChars cs = .generic (String.ofList text) ((splitArguments 0 [] inner).map ofChars) := by
  have hlast : (squeezeChars cs).getLast? = some '>' := by
    rw [h, ← List.cons_append, ← List.append_assoc, List.getLast?_concat]
  have hreserved := not_reserved (by decide : '>' ∈ typeMarks) hlast
  have harray : dropTail? ['[', ']'] (squeezeChars cs) = none :=
    dropTail?_eq_none hlast (by decide) (by decide)
  have hnullable : dropTail? ['?'] (squeezeChars cs) = none :=
    dropTail?_eq_none hlast (by decide) (by decide)
  have hgeneric : generic? (squeezeChars cs) = some (text, splitArguments 0 [] inner) := by
    rw [generic?, h, cutAt?_append_of_not_mem hbase]
    simp
  fun_cases ofChars cs with
  | case1 _ himplicit => exact absurd himplicit hreserved.1
  | case2 squeezed _ element helement => cases harray.symm.trans helement
  | case3 squeezed _ _ inner hinner => cases hnullable.symm.trans hinner
  | case4 squeezed _ _ _ long hlong => cases hreserved.2.symm.trans hlong
  | case5 squeezed _ _ _ _ base arguments hg =>
    cases hgeneric.symm.trans hg
    rw [List.attach_map_val]
  | case6 squeezed _ _ _ _ hnone => cases hgeneric.symm.trans hnone

theorem ofChars_name {name : String} (hname : IsTypeName name.toList)
    (h : squeezeChars cs = name.toList) : ofChars cs = readName name := by
  have hmark : ∀ {mark : Char}, mark ∈ typeMarks → mark ∉ squeezeChars cs := fun hmark hmem =>
    (hname.2 _ (h ▸ hmem)).2 hmark
  have hdrop : ∀ {tail rest : List Char} {mark : Char}, mark ∈ tail → mark ∈ typeMarks →
      dropTail? tail (squeezeChars cs) ≠ some rest := fun htail hmem hrest =>
    hmark hmem (dropTail?_eq_some_iff.mp hrest ▸ List.mem_append_right _ htail)
  have hwritten : String.ofList (squeezeChars cs) = name := by rw [h, String.ofList_toList]
  have himplicit : (squeezeChars cs = [] ∨ squeezeChars cs = "var".toList ∨
      squeezeChars cs = "dynamic".toList) ↔ name = "var" ∨ name = "dynamic" := by
    rw [h, or_iff_right hname.1, String.toList_inj, String.toList_inj]
  rw [readName]
  fun_cases ofChars cs with
  | case1 _ hvar => rw [if_pos (himplicit.mp hvar)]
  | case2 squeezed _ element helement =>
    exact absurd helement (hdrop List.mem_cons_self (by decide))
  | case3 squeezed _ _ inner hinner =>
    exact absurd hinner (hdrop List.mem_cons_self (by decide))
  | case4 squeezed hvar _ _ long hlong =>
    rw [hwritten] at hlong
    rw [if_neg (mt himplicit.mpr hvar), hlong]
  | case5 squeezed _ _ _ _ base arguments hgeneric =>
    obtain ⟨rest, hrest⟩ := exists_of_generic?_eq_some hgeneric
    have hsqueezed : squeezeChars cs = base ++ '<' :: rest := hrest
    exact absurd (hsqueezed ▸ by simp) (hmark (by decide : '<' ∈ typeMarks))
  | case6 squeezed hvar _ _ hkeyword hgeneric =>
    rw [hwritten] at hkeyword
    rw [if_neg (mt himplicit.mpr hvar), hkeyword, hwritten]

end Equations

end TypeText

end CSharp

end Foresight
