import Foresight.Proofs.CSharp.Index
import Foresight.Proofs.Table
import Mathlib.Data.List.TakeWhile

/-!
# Where the names of types come from

Without its suffixes (`bareName`), a type that is resolved should be called like something that can
be known (`Source`): the framework type of a keyword, a declared type, a framework type in a visible
namespace, or a dotted name of the text. One name stands outermost in what is read of a text
(`TypeText.base`), and the type is called like what that name stands for
(`bareName_of_resolveType`).

A base with a dot anywhere in it is cut at its first angle bracket and taken for a dotted name. That
need not be one: the base may be a tuple, a pointer, or a type inside of a generic type. So a name
is no guess exactly if such a base is a dotted name there (`resolveType_sourced_iff`).
-/

namespace Foresight

namespace CSharp

open Text TypeText

/-! ## Names without suffixes -/

/-- A name of a type without its generic arguments and array suffixes. -/
def bareName (long : String) : String := splitQualified.dropSuffixes long.toList

theorem bareName_array (long : String) : bareName (long ++ "[]") = bareName long := by
  have htail : "[]".toList = ['[', ']'] := rfl
  unfold bareName splitQualified.dropSuffixes
  rw [String.toList_append, htail, List.takeWhile_append]
  split
  · rename_i hall
    rw [(List.takeWhile_prefix _).eq_of_length hall, List.reverse_append]
    rfl
  · rfl

theorem bareName_generic (base arguments : String) :
    bareName (base ++ "<" ++ arguments ++ ">") = bareName base := by
  have htext : (base ++ "<" ++ arguments ++ ">").toList =
      base.toList ++ '<' :: (arguments.toList ++ ['>']) := by
    simp
  unfold bareName splitQualified.dropSuffixes
  rw [htext, List.takeWhile_append]
  split
  · rename_i hall
    rw [(List.takeWhile_prefix _).eq_of_length hall, List.takeWhile_cons_of_neg (by decide),
      List.append_nil]
  · rfl

theorem bareName_isPrefix (long : String) : (bareName long).toList <+: long.toList :=
  dropSuffixes_isPrefix long.toList

/-- The marks with which types are put together, those of tuples and pointers among them. -/
def typeSigns : List Char := typeMarks ++ ['(', ')', '*']

/-- Two words or more with dots between them, and no marks in them. -/
def IsDotted (name : String) : Prop :=
  2 ≤ (pieces (· == '.') name.toList).length ∧ ∀ part ∈ pieces (· == '.') name.toList,
    (wordsOf part).length = 1 ∧ ∀ c ∈ part, c ∉ typeSigns

instance (name : String) : Decidable (IsDotted name) :=
  inferInstanceAs (Decidable (_ ∧ _))

section Dotted

variable {name : String} (h : IsDotted name)

include h

theorem IsDotted.mem_dot : '.' ∈ name.toList := by
  by_contra hnot
  have hlength := h.1
  have hwhole : pieces (· == '.') name.toList = [name.toList] :=
    pieces_of_forall fun c hc => beq_false_of_ne fun heq => hnot (heq ▸ hc)
  rw [hwhole] at hlength
  exact Nat.not_succ_le_self 1 hlength

theorem IsDotted.not_mem {c : Char} (hc : c ∈ name.toList) : c ∉ typeSigns := by
  rcases exists_mem_pieces (p := (· == '.')) hc with hdot | ⟨piece, hpiece, hc⟩
  · rw [beq_iff_eq] at hdot
    subst hdot
    decide
  · exact (h.2 piece hpiece).2 c hc

theorem IsDotted.not_isPrefix : ¬ ['.'] <+: name.toList := by
  rintro ⟨rest, hrest⟩
  refine absurd (h.2 [] ?_).1 (by decide)
  rw [← hrest]
  exact List.mem_cons_self

theorem IsDotted.bareName : bareName name = name := by
  have hopen : ∀ c ∈ name.toList, (c != '<') = true := fun c hc => by
    refine bne_iff_ne.mpr fun heq => ?_
    exact h.not_mem hc (heq ▸ by decide)
  have hpairs : splitQualified.dropPairs name.toList.reverse = name.toList.reverse := by
    unfold splitQualified.dropPairs
    split
    · rename_i heq
      have hclose : ']' ∈ name.toList := List.mem_reverse.mp (heq ▸ List.mem_cons_self)
      exact absurd (by decide) (h.not_mem hclose)
    · rfl
  rw [CSharp.bareName, splitQualified.dropSuffixes, List.takeWhile_eq_self_iff.mpr hopen, hpairs,
    List.reverse_reverse, String.ofList_toList]

end Dotted

theorem isBlank_of_isAlphanum {c : Char} (h : c.isAlphanum = true) : isBlank c = false := by
  have hranges : ((decide (65 ≤ c.val ∧ c.val ≤ 90) ||
      decide (97 ≤ c.val) && decide (c.val ≤ 122)) ||
      decide (48 ≤ c.val) && decide (c.val ≤ 57)) = true := h
  have hval : c.toNat = c.val.toNat := rfl
  simp only [Bool.or_eq_true, Bool.and_eq_true, decide_eq_true_eq, UInt32.le_iff_toNat_le,
    UInt32.reduceToNat, ← hval] at hranges
  simp only [Text.isBlank, Bool.or_eq_false_iff, Bool.and_eq_false_iff, decide_eq_false_iff_not,
    beq_eq_false_iff_ne]
  omega

/-- Letters and digits with dots between them are a dotted name. -/
theorem isDotted_of_isAlphanum {name : String}
    (hlength : 2 ≤ (pieces (· == '.') name.toList).length)
    (h : ∀ part ∈ pieces (· == '.') name.toList, part ≠ [] ∧ ∀ c ∈ part, c.isAlphanum = true) :
    IsDotted name := by
  have hsigns : ∀ c ∈ typeSigns, c.isAlphanum = false := by decide
  refine ⟨hlength, fun part hpart => ?_⟩
  obtain ⟨hne, halpha⟩ := h part hpart
  refine ⟨?_, fun c hc hsign => Bool.false_ne_true ((hsigns c hsign).symm.trans (halpha c hc))⟩
  rw [wordsOf_of_forall hne fun c hc => isBlank_of_isAlphanum (halpha c hc)]
  rfl

/-! ## Names with dots -/

/-- What is cut at its last dot is put together again, but for a dot in front. -/
theorem fullName_splitQualified (text : String) :
    (splitQualified text).fullName = trim (bareName text) ∨
      ['.'] <+: (trim (bareName text)).toList ∧ '.' ∉ (splitQualified text).fullName.toList := by
  unfold splitQualified
  dsimp only
  split
  · rename_i namespace_ name hcut
    obtain ⟨htext, hname⟩ := eq_of_cutLast?_eq_some hcut
    unfold QualifiedName.fullName
    split
    · rename_i hempty
      rw [String.isEmpty_iff] at hempty
      subst hempty
      exact Or.inr ⟨⟨name.toList, htext.symm⟩, hname⟩
    · refine Or.inl (String.toList_injective ?_)
      rw [bareName, htext]
      simp
  · exact Or.inl rfl

/-- What a base with a dot in it is taken for: the text in front of its first angle bracket, without
array suffixes behind it. -/
def leadOf (base : String) : String := bareName (trim (bareName (trim base)))

theorem leadOf_isInfix (base : String) : (leadOf base).toList <:+: base.toList :=
  (bareName_isPrefix _).isInfix.trans ((infix_trim _).trans
    ((bareName_isPrefix _).isInfix.trans (infix_trim _)))

theorem bareName_splitQualified {base : String}
    (h : IsDotted (leadOf base) ∨ IsDotted (bareName (splitQualified (trim base)).fullName)) :
    bareName (splitQualified (trim base)).fullName = leadOf base := by
  rcases fullName_splitQualified (trim base) with heq | ⟨hdot, hnot⟩
  · rw [heq, leadOf]
  · exfalso
    rcases h with h | h
    · -- The lead has a dot in front, as all of the text has.
      refine h.not_isPrefix (List.prefix_of_prefix_length_le hdot (bareName_isPrefix _) ?_)
      exact List.length_pos_of_mem h.mem_dot
    · exact hnot ((bareName_isPrefix _).subset h.mem_dot)

/-! ## Bases -/

namespace TypeText

/-- The name that stands outermost in a type. -/
def base : TypeText → String
  | .implicit => ""
  | .array element => element.base
  | .nullable inner => inner.base
  | .keyword _ => ""
  | .generic base _ => base
  | .name text => text

/-- The keyword that stands outermost in a type, as the framework calls it. -/
def keyword? : TypeText → Option String
  | .array element => element.keyword?
  | .nullable inner => inner.keyword?
  | .keyword long => some long
  | _ => none

/-- Where a keyword stands outermost, no name does. -/
theorem base_of_keyword?_eq_some : ∀ {t : TypeText} {long : String}, t.keyword? = some long →
    t.base = ""
  | .array element, _, h => base_of_keyword?_eq_some (t := element) h
  | .nullable inner, _, h => base_of_keyword?_eq_some (t := inner) h
  | .keyword _, _, _ => rfl

/-- What stands outermost is found where it was written, but for white space. -/
theorem base_ofChars_isInfix (cs : List Char) : (ofChars cs).base.toList <:+: squeezeChars cs := by
  fun_induction ofChars cs with
  | case1 | case4 => exact List.nil_infix
  | case2 cs text _ element helement ih =>
    have hsqueezed : squeezeChars cs = element ++ ['[', ']'] := dropTail?_eq_some_iff.mp helement
    exact ih.trans (squeezeChars_isPrefix (hsqueezed ▸ List.prefix_append _ _)).isInfix
  | case3 cs text _ _ inner hinner ih =>
    have hsqueezed : squeezeChars cs = inner ++ ['?'] := dropTail?_eq_some_iff.mp hinner
    exact ih.trans (squeezeChars_isPrefix (hsqueezed ▸ List.prefix_append _ _)).isInfix
  | case5 cs text _ _ _ _ base arguments hgeneric ih =>
    obtain ⟨rest, hrest⟩ := exists_of_generic?_eq_some hgeneric
    have hsqueezed : squeezeChars cs = base ++ '<' :: rest := hrest
    rw [TypeText.base, String.toList_ofList, hsqueezed]
    exact (List.prefix_append _ _).isInfix
  | case6 cs text =>
    rw [TypeText.base, String.toList_ofList]

theorem mem_of_keyword?_ofChars {cs : List Char} {long : String}
    (h : (ofChars cs).keyword? = some long) : ∃ name, (name, long) ∈ keywordTypes := by
  fun_induction ofChars cs with
  | case1 => cases h
  | case2 cs text _ element helement ih => exact ih h
  | case3 cs text _ _ inner hinner ih => exact ih h
  | case4 cs text _ _ _ keyword hkeyword =>
    exact ⟨_, Option.some.inj h ▸ Table.mem_of_lookup hkeyword⟩
  | case5 | case6 => cases h

end TypeText

namespace SymbolIndex

variable {index : SymbolIndex} {context : Context}

/-- What a type is bound to is called like the keyword or the name that stands outermost. -/
theorem bareName_of_bind (t : TypeText) {long : String} (h : index.bind context t = .long long) :
    (∃ keyword, t.keyword? = some keyword ∧ bareName long = bareName keyword) ∨
      ∃ q, index.resolveTypeName? context t.base = some q ∧
        bareName long = bareName q.fullName := by
  cases t with
  | implicit =>
    rw [bind] at h
    cases h
  | array element =>
    rw [bind] at h
    cases hbound : index.bind context element with
    | long name =>
      rw [hbound] at h
      cases h
      rw [bareName_array]
      exact bareName_of_bind element hbound
    | unknown | unresolved =>
      rw [hbound] at h
      cases h
  | nullable inner =>
    rw [bind] at h
    exact bareName_of_bind inner h
  | keyword _ =>
    rw [bind] at h
    cases h
    exact Or.inl ⟨_, rfl, rfl⟩
  | generic base arguments =>
    rw [bind] at h
    split at h
    · rename_i q longs hq hlongs
      cases h
      exact Or.inr ⟨q, hq, bareName_generic _ _⟩
    · cases h
  | name text =>
    rw [bind] at h
    split at h
    · rename_i q hq
      cases h
      exact Or.inr ⟨q, hq, rfl⟩
    · cases h

theorem resolveTypeName?_eq_some {name : String} {q : QualifiedName}
    (h : index.resolveTypeName? context name = some q) :
    '.' ∈ name.toList ∧ q = splitQualified (trim name) ∨
      '.' ∉ name.toList ∧ ((∃ entry ∈ index.types.entries, entry.2.name = q) ∨
        (q.namespace_, q.name) ∈ wellKnownTypes ∧ q.namespace_ ∈ context.visibleNamespaces) := by
  have hdot : contains "." (trim name) = true ↔ '.' ∈ name.toList := by
    rw [contains_iff, ← mem_trim_iff (by decide)]
    exact List.singleton_infix_iff _ _
  have hdeclared : ∀ {d}, d ∈ index.declared (trim name) →
      ∃ entry ∈ index.types.entries, entry.2.name = d := fun hd =>
    List.mem_map.mp (List.mem_filter.mp hd).1
  unfold resolveTypeName? at h
  dsimp only at h
  split at h
  · cases h
  · split at h
    · rename_i hcontains
      exact Or.inl ⟨hdot.mp hcontains, (Option.some.inj h).symm⟩
    · rename_i hcontains
      refine Or.inr ⟨fun hmem => hcontains (hdot.mpr hmem), ?_⟩
      rcases (Option.orElse_eq_some ..).mp h with h | ⟨-, h⟩
      · obtain ⟨ns, -, hfound⟩ := List.exists_of_findSome?_eq_some h
        exact Or.inl (hdeclared (List.mem_of_find?_eq_some hfound))
      · rcases (Option.orElse_eq_some ..).mp h with h | ⟨-, h⟩
        · exact Or.inl (hdeclared (List.mem_of_head? h))
        · obtain ⟨ns, hfound, rfl⟩ := Option.map_eq_some_iff.mp h
          have hknows := List.find?_some hfound
          exact Or.inr ⟨List.contains_iff_mem.mp hknows, List.mem_of_find?_eq_some hfound⟩

end SymbolIndex

/-! ## Sources -/

/-- The names that a written type can be known to have. -/
inductive Source (index : SymbolIndex) (context : Context) (written : String) : String → Prop where
  /-- The framework type that a keyword stands for. -/
  | keyword {keyword long : String} (h : (keyword, long) ∈ keywordTypes) :
      Source index context written long
  | declared {entry : String × TypeDeclaration} (h : entry ∈ index.types.entries) :
      Source index context written entry.2.name.fullName
  | wellKnown {q : QualifiedName} (h : (q.namespace_, q.name) ∈ wellKnownTypes)
      (hvisible : q.namespace_ ∈ context.visibleNamespaces) :
      Source index context written q.fullName
  /-- A dotted name is taken as it is written, but for white space. -/
  | dotted {name : String} (h : IsDotted name)
      (hwritten : name.toList <:+: (squeeze written).toList) :
      Source index context written name

/-- A long name is, without its suffixes, one that the type can be known to have. -/
def Sourced (index : SymbolIndex) (context : Context) (written long : String) : Prop :=
  ∃ name, Source index context written name ∧ bareName name = bareName long

/-- A base with a dot in it is a dotted name in front of its first angle bracket. -/
def TakesDotted (base : String) : Prop := '.' ∈ base.toList → IsDotted (leadOf base)

instance (base : String) : Decidable (TakesDotted base) :=
  inferInstanceAs (Decidable (_ → _))

variable {index : SymbolIndex} {context : Context} {written : String}

theorem isDotted_keyword {entry : String × String} (h : entry ∈ keywordTypes) :
    IsDotted entry.2 := by
  have hkeywords : ∀ entry ∈ keywordTypes, 2 ≤ (pieces (· == '.') entry.2.toList).length ∧
      ∀ part ∈ pieces (· == '.') entry.2.toList,
        part ≠ [] ∧ ∀ c ∈ part, c.isAlphanum = true := by decide +kernel
  exact isDotted_of_isAlphanum (hkeywords entry h).1 (hkeywords entry h).2

theorem isDotted_wellKnown {q : QualifiedName} (h : (q.namespace_, q.name) ∈ wellKnownTypes) :
    IsDotted q.fullName := by
  obtain ⟨hne, hparts⟩ := words_of_mem_wellKnownTypes _ h
  have hname : q.fullName.toList = q.namespace_.toList ++ '.' :: q.name.toList := by
    rw [QualifiedName.fullName, if_neg (by simpa using hne)]
    simp
  refine isDotted_of_isAlphanum ?_ (hname ▸ hparts)
  rw [hname, pieces_append_separator _ rfl, List.length_append]
  obtain ⟨first, more, hfirst⟩ := exists_pieces_eq (p := (· == '.')) q.namespace_.toList
  obtain ⟨first', more', hfirst'⟩ := exists_pieces_eq (p := (· == '.')) q.name.toList
  rw [hfirst, hfirst', List.length_cons, List.length_cons]
  omega

/-- What is known of a type that the solution does not declare is a dotted name. -/
theorem Source.isDotted {name : String} (h : Source index context written name) :
    IsDotted name ∨ ∃ entry ∈ index.types.entries, entry.2.name.fullName = name := by
  cases h with
  | keyword h => exact Or.inl (isDotted_keyword h)
  | declared h => exact Or.inr ⟨_, h, rfl⟩
  | wellKnown h => exact Or.inl (isDotted_wellKnown h)
  | dotted h => exact Or.inl h

theorem bareName_of_resolveType {type : TypeRef}
    (h : index.resolveType context written = .resolved type) :
    (TypeText.ofString written).base = "" ∧
        (∃ entry ∈ keywordTypes, bareName type.longName = bareName entry.2) ∨
      ∃ q, index.resolveTypeName? context (TypeText.ofString written).base = some q ∧
        bareName type.longName = bareName q.fullName := by
  unfold SymbolIndex.resolveType at h
  split at h
  · rename_i long hlong
    cases h
    refine (SymbolIndex.bareName_of_bind _ hlong).imp_left fun ⟨called, hkeyword, heq⟩ => ?_
    obtain ⟨name, hname⟩ := TypeText.mem_of_keyword?_ofChars hkeyword
    exact ⟨TypeText.base_of_keyword?_eq_some hkeyword, _, hname, heq⟩
  · cases h
  · cases h

/-- A type is never guessed, if what is taken for a dotted name is one. -/
theorem sourced_of_takesDotted {type : TypeRef}
    (h : index.resolveType context written = .resolved type)
    (hbase : TakesDotted (TypeText.ofString written).base) :
    Sourced index context written type.longName := by
  rcases bareName_of_resolveType h with ⟨-, entry, hentry, heq⟩ | ⟨q, hq, heq⟩
  · exact ⟨entry.2, .keyword hentry, heq.symm⟩
  · rcases SymbolIndex.resolveTypeName?_eq_some hq with ⟨hdot, hsplit⟩ |
      ⟨-, ⟨entry, hentry, hname⟩ | ⟨hknown, hvisible⟩⟩
    · have hdotted := hbase hdot
      refine ⟨_, .dotted hdotted ?_, ?_⟩
      · rw [toList_squeeze]
        exact (leadOf_isInfix _).trans (TypeText.base_ofChars_isInfix _)
      · rw [hdotted.bareName, heq, hsplit, bareName_splitQualified (Or.inl hdotted)]
    · exact ⟨_, .declared hentry, by rw [heq, hname]⟩
    · exact ⟨_, .wellKnown hknown hvisible, heq.symm⟩

/-- A type is resolved to what it can be known to be exactly if a base with a dot in it is a dotted
name, or the solution happens to declare a type that is called like what was made of it. -/
theorem resolveType_sourced_iff {type : TypeRef}
    (h : index.resolveType context written = .resolved type) :
    Sourced index context written type.longName ↔ TakesDotted (TypeText.ofString written).base ∨
      ∃ entry ∈ index.types.entries,
        bareName entry.2.name.fullName = bareName type.longName := by
  constructor
  · rintro ⟨name, hsource, hname⟩
    rcases hsource.isDotted with hdotted | ⟨entry, hentry, hdeclared⟩
    · refine Or.inl fun hdot => ?_
      rw [hdotted.bareName] at hname
      rcases bareName_of_resolveType h with ⟨hnone, -⟩ | ⟨q, hq, heq⟩
      · rw [hnone] at hdot
        exact absurd hdot List.not_mem_nil
      · rcases SymbolIndex.resolveTypeName?_eq_some hq with ⟨-, hsplit⟩ | ⟨hnot, -⟩
        · rw [hname, heq, hsplit] at hdotted
          rw [← bareName_splitQualified (Or.inr hdotted)]
          exact hdotted
        · exact absurd hdot hnot
    · exact Or.inr ⟨entry, hentry, by rw [hdeclared, hname]⟩
  · rintro (hbase | ⟨entry, hentry, heq⟩)
    · exact sourced_of_takesDotted h hbase
    · exact ⟨_, .declared hentry, heq⟩

/-- A list of numbers, with the dotted name of its type. -/
theorem resolveType_sourced_iff_list :
    SymbolIndex.empty.resolveType ⟨[], "", none⟩ "System.Collections.Generic.List<int>[]" =
      .resolved ⟨"System.Collections.Generic.List<int>[]",
        "System.Collections.Generic.List<System.Int32>[]"⟩ ∧
    Sourced .empty ⟨[], "", none⟩ "System.Collections.Generic.List<int>[]"
      "System.Collections.Generic.List<System.Int32>[]" := by
  have h : SymbolIndex.empty.resolveType ⟨[], "", none⟩ "System.Collections.Generic.List<int>[]" =
      .resolved ⟨"System.Collections.Generic.List<int>[]",
        "System.Collections.Generic.List<System.Int32>[]"⟩ := by decide +kernel
  exact ⟨h, (resolveType_sourced_iff h).mpr (Or.inl (by decide +kernel))⟩

/-- The type inside of a generic type is taken for the name in front of the angle bracket, though no
type is called so. -/
theorem enumerator_unsourced :
    SymbolIndex.empty.resolveType ⟨[], "", none⟩ "List<int>.Enumerator" =
      .resolved ⟨"List<int>.Enumerator", "List"⟩ ∧
    ¬ Sourced .empty ⟨[], "", none⟩ "List<int>.Enumerator" "List" := by
  refine ⟨by decide +kernel, fun ⟨source, hsource, hname⟩ => ?_⟩
  rcases hsource.isDotted with hdotted | ⟨entry, hentry, -⟩
  · have hlist : bareName "List" = "List" := by decide
    rw [hdotted.bareName, hlist] at hname
    exact absurd (hname ▸ hdotted) (by decide)
  · cases hentry

end CSharp

end Foresight
