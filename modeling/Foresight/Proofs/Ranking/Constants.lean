import Mathlib.Data.List.ReduceOption
import Foresight.Offer.Buffer
import Foresight.Proofs.Distinct
import Foresight.Proofs.Files.Location
import Foresight.Proofs.Ranking.Orderless

/-!
# Constants that were seen

A tally has a value for every name that was seen with one, put together from all of its values.
Lists of single constants add up to one list of the constants that were seen, the first one first; a
value that never changes is kept; and once a value that is no list meets a different one, the name
is left empty for good (`SumsUp`, `tallies_sum_up`).

A constant is told from those that are known by cutting the list at its commas, and added to the
list as it is. A constant with a comma in it is therefore never found again, and to merge a table
twice is to merge it once only where no such constant is added to a list
(`mergeFields_again_iff`).
-/

namespace Foresight

theorem Table.names_insert {α : Type} (t : Table α) (name : String) (value : α) :
    (t.insert name value).names = keepNew id t.names name := by
  rw [names, insert, map_fst_put, keepNew]
  refine if_congr ?_ rfl rfl
  rw [any_label_iff, List.map_id]
  rfl

namespace Ranking

/-! ## Names -/

theorem names_mergeEntry (current : Fields) (entry : String × String) :
    (mergeEntry current entry).names = keepNew id current.names entry.1 := by
  unfold mergeEntry
  split
  · exact Table.names_insert ..
  · exact Table.names_insert ..

/-- Names that are new come behind those that are there. -/
theorem names_mergeFields (incoming current : Fields) :
    (mergeFields incoming current).names = incoming.names.foldl (keepNew id) current.names := by
  rw [mergeFields, Table.names.eq_def incoming, List.foldl_map]
  generalize incoming.entries = entries
  induction entries generalizing current with
  | nil => rfl
  | cons entry rest ih => rw [List.foldl_cons, List.foldl_cons, ih, names_mergeEntry]

/-- The names of merged tables, each where it was first seen. -/
theorem names_mergedFields (observations : List Observation) :
    (mergedFields observations).names = (observations.flatMap (·.fields.names)).eraseDups := by
  have hfold : ∀ (rest : List Observation) (current : Fields),
      (rest.foldl (fun current o => mergeFields o.fields current) current).names =
        (rest.flatMap (·.fields.names)).foldl (keepNew id) current.names := by
    intro rest
    induction rest with
    | nil => exact fun _ => rfl
    | cons o rest ih =>
      intro current
      rw [List.foldl_cons, ih, names_mergeFields, List.flatMap_cons, List.foldl_append]
  refine Eq.trans ?_ (@foldl_keepNew String id _)
  cases observations with
  | nil => rfl
  | cons first rest =>
    have hfirst : first.fields.names.foldl (keepNew id) [] = first.fields.names :=
      foldl_keepNew_of_nodup (by rw [List.nil_append, List.map_id]; exact first.fields.nodup)
    rw [mergedFields, hfold, List.flatMap_cons, List.foldl_append, hfirst]

/-- What is published has the fields of all that it was made of, and no others. -/
theorem mem_names_of_mem_aggregate {observations : List Observation} {thresholds : Thresholds}
    {s : Suggestion} (hs : s ∈ aggregate observations thresholds) {name : String} :
    name ∈ s.fields.names ↔
      ∃ o ∈ sightings observations s.key s.template, name ∈ o.fields.names := by
  rw [aggregate_eq_standings] at hs
  have hfields : s.fields = (entry observations s.key s.template).fields :=
    congrArg Suggestion.fields (eq_entry_of_mem_standings hs).1
  rw [hfields, entry, Table.names_mapValues, names_mergedFields, List.mem_eraseDups,
    List.mem_flatMap]

/-! ## Values -/

/-- Where two texts are merged that may be missing, those that are there are merged in turn. -/
theorem foldl_merge_some {α : Type} (f : α → α → α) (values : List (Option α)) (a : α) :
    values.foldl (Option.merge f) (some a) = some (values.reduceOption.foldl f a) := by
  induction values generalizing a with
  | nil => rfl
  | cons value rest ih =>
    cases value with
    | none => rw [List.foldl_cons, Option.merge_none_right, ih, List.reduceOption_cons_of_none]
    | some b => exact ih (f a b)

theorem foldl_merge_none {α : Type} (f : α → α → α) {values : List (Option α)} {first : α}
    {rest : List α} (h : values.reduceOption = first :: rest) :
    values.foldl (Option.merge f) none = some (rest.foldl f first) := by
  induction values with
  | nil => cases h
  | cons value others ih =>
    cases value with
    | none => exact ih h
    | some b =>
      obtain ⟨rfl, rfl⟩ := List.cons.inj h
      exact foldl_merge_some f others b

/-- The values with which a name was seen, in the order of the observations. -/
def seen (observations : List Observation) (name : String) : List String :=
  (observations.map fun o => o.fields.get? name).reduceOption

theorem mem_seen_iff {observations : List Observation} {name value : String} :
    value ∈ seen observations name ↔ ∃ o ∈ observations, o.fields.get? name = some value := by
  rw [seen, List.reduceOption_mem_iff, List.mem_map]

/-- The value of a name in merged tables is folded from the values with which it was seen. -/
theorem get?_mergedFields_of_seen {observations : List Observation} {name first : String}
    {rest : List String} (h : seen observations name = first :: rest) :
    (mergedFields observations).get? name = some (rest.foldl mergeValue first) := by
  rw [get?_mergedFields, foldl_merge_none mergeValue h]

theorem mergeValue_self {value : String} (h : constants? value = none) :
    mergeValue value value = value := by
  rw [mergeValue, h]
  exact if_pos rfl

theorem mergeValue_empty (value : String) : mergeValue "" value = "" := by
  rw [mergeValue, show constants? "" = none from rfl]
  exact ite_self ""

section Lists

variable {existing value known choice : String} (hknown : constants? existing = some known)
  (hchoice : constants? value = some choice)

include hknown hchoice

theorem mergeValue_of_mem (h : choice ∈ Text.splitAt ',' known) :
    mergeValue existing value = existing := by
  rw [mergeValue, hknown, hchoice]
  exact if_pos (List.contains_iff_mem.mpr h)

theorem mergeValue_of_not_mem (h : choice ∉ Text.splitAt ',' known) :
    mergeValue existing value = existing ++ "," ++ choice := by
  rw [mergeValue, hknown, hchoice]
  exact if_neg fun hcontains => h (List.contains_iff_mem.mp hcontains)

end Lists

/-! ## Lists of single constants -/

/-- The list that offers some constants. -/
def listing (constants : List String) : String := constantLead ++ Text.join "," constants

theorem constants?_listing (constants : List String) :
    constants? (listing constants) = some (Text.join "," constants) :=
  constants?_append _

theorem mergeValue_listing {known : List String} (hne : known ≠ [])
    (hknown : ∀ constant ∈ known, ',' ∉ constant.toList) (constant : String) :
    mergeValue (listing known) (constantLead ++ constant) =
      listing (keepNew id known constant) := by
  have hcut : Text.splitAt ',' (Text.join "," known) = known := Text.splitAt_join rfl hknown hne
  have hmem : (known.any fun other => id other == id constant) = true ↔ constant ∈ known := by
    rw [any_label_iff, List.map_id]
    rfl
  unfold keepNew
  split
  · rename_i hold
    exact mergeValue_of_mem (constants?_listing known) (constants?_append constant)
      (hcut.symm ▸ hmem.mp hold)
  · rename_i hnew
    have hjoin : Text.join "," (known ++ [constant]) = Text.join "," known ++ "," ++ constant := by
      rw [Text.join, String.intercalate_append_of_ne_nil hne (List.cons_ne_nil constant []),
        String.intercalate_singleton, Text.join]
    rw [mergeValue_of_not_mem (constants?_listing known) (constants?_append constant)
      (hcut.symm ▸ fun h => hnew (hmem.mpr h)), listing, listing, hjoin]
    simp only [String.append_assoc]

theorem foldl_mergeValue_listing {constants known : List String} (hne : known ≠ [])
    (hknown : ∀ constant ∈ known, ',' ∉ constant.toList)
    (hconstants : ∀ constant ∈ constants, ',' ∉ constant.toList) :
    (constants.map (constantLead ++ ·)).foldl mergeValue (listing known) =
      listing (constants.foldl (keepNew id) known) := by
  induction constants generalizing known with
  | nil => rfl
  | cons constant rest ih =>
    obtain ⟨hconstant, hrest⟩ := List.forall_mem_cons.mp hconstants
    rw [List.map_cons, List.foldl_cons, List.foldl_cons, mergeValue_listing hne hknown]
    refine ih ?_ ?_ hrest
    · unfold keepNew
      split
      · exact hne
      · exact List.append_ne_nil_of_right_ne_nil _ (List.cons_ne_nil constant [])
    · intro other hother
      have hmem : other ∈ known ∨ other ∈ [constant] := mem_of_mem_foldl_keepNew hother
      exact hmem.elim (hknown other) fun h => List.mem_singleton.mp h ▸ hconstant

/-- Lists of one constant each add up to the list of the constants, each where it first came. -/
theorem foldl_mergeValue_constants {first : String} {rest : List String}
    (h : ∀ constant ∈ first :: rest, ',' ∉ constant.toList) :
    (rest.map (constantLead ++ ·)).foldl mergeValue (constantLead ++ first) =
      listing (first :: rest).eraseDups := by
  obtain ⟨hfirst, hrest⟩ := List.forall_mem_cons.mp h
  have hsingle : constantLead ++ first = listing [first] := by
    rw [listing, Text.join, String.intercalate_singleton]
  rw [hsingle, foldl_mergeValue_listing (List.cons_ne_nil first [])
    (List.forall_mem_singleton.mpr hfirst) hrest]
  exact congrArg listing (@foldl_keepNew String id (first :: rest))

theorem defaultFieldValue_listOf (name constants : String) :
    defaultFieldValue name (listOf constants) =
      if ((Text.splitAt ',' constants).headD "").isEmpty then name
      else (Text.splitAt ',' constants).headD "" := by
  rw [defaultFieldValue, listOf, String.append_assoc, Text.stripLead?_append, Option.bind_some,
    Text.stripTail?_append]

/-- A field that offers constants takes the first of them, if that is not empty. -/
theorem defaultFieldValue_listing {first : String} {rest : List String}
    (h : ∀ constant ∈ first :: rest, ',' ∉ constant.toList) (name : String) :
    defaultFieldValue name (publishValue (listing (first :: rest).eraseDups)) =
      if first.isEmpty then name else first := by
  have hcut : Text.splitAt ',' (Text.join "," (first :: rest).eraseDups) =
      (first :: rest).eraseDups := by
    refine Text.splitAt_join rfl (fun constant hconstant => ?_) ?_
    · exact h constant (List.mem_eraseDups.mp hconstant)
    · rw [List.eraseDups_cons]
      exact List.cons_ne_nil _ _
  rw [publishValue_of_constants (constants?_listing _), defaultFieldValue_listOf, hcut,
    List.eraseDups_cons, List.headD_cons]

/-! ## Values that disagree -/

theorem Verdict.foldl_merge_empty (verdicts : List (Option Verdict)) :
    verdicts.foldl (Option.merge Verdict.meet) (some (.plain "")) = some (.plain "") := by
  have hmeet : ∀ v : Verdict, (Verdict.plain "").meet v = .plain "" := by
    intro v
    cases v with
    | choices _ => rfl
    | plain _ => exact congrArg Verdict.plain (empty_meet _)
  rw [foldl_merge_some]
  generalize verdicts.reduceOption = present
  induction present with
  | nil => rfl
  | cons v rest ih => rw [List.foldl_cons, hmeet, ih]

/-- A value that is no list, and a different one, have nothing in common. -/
theorem meet_verdict_of_ne {a b : String} (hplain : constants? a = none) (hne : a ≠ b) :
    (verdict a).meet (verdict b) = .plain "" := by
  rw [verdict_of_plain hplain]
  cases hb : constants? b with
  | none =>
    rw [verdict_of_plain hb]
    exact congrArg Verdict.plain (if_neg hne)
  | some choices =>
    rw [verdict_of_constants hb]
    rfl

theorem eq_empty_of_verdict {value : String} (h : verdict value = .plain "") : value = "" := by
  cases hvalue : constants? value with
  | none =>
    rw [verdict_of_plain hvalue] at h
    exact Verdict.plain.inj h
  | some choices =>
    rw [verdict_of_constants hvalue] at h
    cases h

/-- Once a value that is no list meets a different one, the name has no suggestion, whatever else
it was or will be seen with. -/
theorem get?_mergedFields_of_ne {observations : List Observation} {name a b : String}
    (ha : a ∈ seen observations name) (hb : b ∈ seen observations name)
    (hplain : constants? a = none) (hne : a ≠ b) :
    (mergedFields observations).get? name = some "" := by
  obtain ⟨o, ho, hao⟩ := mem_seen_iff.mp ha
  obtain ⟨o', ho', hbo⟩ := mem_seen_iff.mp hb
  have hother : o' ≠ o := by
    rintro rfl
    exact hne (Option.some.inj (hao.symm.trans hbo))
  have hperm : observations.Perm (o :: o' :: (observations.erase o).erase o') :=
    (List.perm_cons_erase ho).trans
      ((List.perm_cons_erase ((List.mem_erase_of_ne hother).mpr ho')).cons o)
  have hverdict : verdictOn (mergedFields observations) name = some (.plain "") := by
    rw [verdictOn_mergedFields_perm hperm, verdictOn_mergedFields, List.map_cons, List.map_cons,
      List.foldl_cons, List.foldl_cons, verdictOn, verdictOn, hao, hbo, Option.merge_none_left,
      Option.map_some, Option.map_some]
    exact (congrArg (fun v => List.foldl _ (some v) _) (meet_verdict_of_ne hplain hne)).trans
      (Verdict.foldl_merge_empty _)
  obtain ⟨value, hvalue, hempty⟩ := Option.map_eq_some_iff.mp hverdict
  rw [hvalue, eq_empty_of_verdict hempty]

/-! ## What a tally says -/

/-- What is left of the values with which a name was seen. -/
structure SumsUp (name : String) (values : List String) (merged : String) : Prop where
  constants : ∀ first rest, values = (first :: rest).map (constantLead ++ ·) →
    (∀ constant ∈ first :: rest, ',' ∉ constant.toList) →
      merged = constantLead ++ Text.join "," (first :: rest).eraseDups ∧
        defaultFieldValue name (publishValue merged) = if first.isEmpty then name else first
  steady : ∀ value, constants? value = none → (∀ other ∈ values, other = value) → merged = value
  disagreeing : ∀ a ∈ values, ∀ b ∈ values, constants? a = none → a ≠ b → merged = ""

theorem sumsUp_mergedFields {observations : List Observation} {name : String}
    (h : name ∈ (mergedFields observations).names) :
    ∃ merged, (mergedFields observations).get? name = some merged ∧
      SumsUp name (seen observations name) merged := by
  rw [names_mergedFields, List.mem_eraseDups, List.mem_flatMap] at h
  obtain ⟨o, ho, hname⟩ := h
  obtain ⟨entry, hentry, rfl⟩ := List.mem_map.mp hname
  have hmem : entry.2 ∈ seen observations entry.1 :=
    mem_seen_iff.mpr ⟨o, ho, o.fields.get?_eq_some_iff.mpr hentry⟩
  obtain ⟨first, rest, hseen⟩ := List.exists_cons_of_ne_nil (List.ne_nil_of_mem hmem)
  have hget := get?_mergedFields_of_seen hseen
  refine ⟨_, hget, ?_, ?_, ?_⟩
  · intro constant others hvalues hfree
    obtain ⟨rfl, rfl⟩ := List.cons.inj (hseen.symm.trans hvalues)
    rw [foldl_mergeValue_constants hfree]
    exact ⟨rfl, defaultFieldValue_listing hfree entry.1⟩
  · intro value hvalue hall
    rw [hseen, List.forall_mem_cons] at hall
    obtain ⟨rfl, hrest⟩ := hall
    rw [List.eq_replicate_of_mem hrest]
    generalize rest.length = n
    induction n with
    | zero => rfl
    | succ n ih => rw [List.replicate_succ, List.foldl_cons, mergeValue_self hvalue, ih]
  · intro a ha b hb hplain hne
    exact Option.some.inj (hget.symm.trans (get?_mergedFields_of_ne ha hb hplain hne))

/-- Observations of one template under one key make one tally, with every name that was seen, in
the order in which they were, and each with what is left of its values. -/
theorem tallies_sum_up (first : Observation) (rest : List Observation)
    (h : ∀ o ∈ rest, o.key = first.key ∧ o.template = first.template) :
    ∃ fields : Fields,
      tallies (first :: rest) = [⟨first.key, first.template, rest.length + 1, fields⟩] ∧
        fields.names = ((first :: rest).flatMap (·.fields.names)).eraseDups ∧
        ∀ name ∈ fields.names, ∃ merged, fields.get? name = some merged ∧
          SumsUp name (seen (first :: rest) name) merged := by
  refine ⟨mergedFields (first :: rest), ?_, names_mergedFields _, fun _ => sumsUp_mergedFields⟩
  have hlabels : [first.template] = labelsOf (·.template) (first :: rest) := by
    refine eq_labelsOf _ (List.pairwise_singleton ..) fun template => ?_
    rw [List.mem_singleton, List.mem_map]
    constructor
    · rintro rfl
      exact ⟨first, List.mem_cons_self, rfl⟩
    · rintro ⟨o, ho, rfl⟩
      exact (List.mem_cons.mp ho).elim (fun heq => heq ▸ rfl) fun ho => (h o ho).2
  have hall : (first :: rest).filter (·.template = first.template) = first :: rest := by
    refine List.filter_eq_self.mpr fun o ho => decide_eq_true ?_
    exact (List.mem_cons.mp ho).elim (fun heq => heq ▸ rfl) fun ho => (h o ho).2
  rw [tallies, groupBy_eq, ← hlabels, List.map_singleton, hall]
  rfl

/-- The first of some observations of one template: a constant, a name and a value that is left to
the user later. -/
def opening : Observation :=
  ⟨"k", "a.cs", "f($x$, $y$, $z$);",
    .ofList [("x", "c:1"), ("y", "suggestVariableName()"), ("z", "c:u")]⟩

def followers : List Observation :=
  [⟨"k", "b.cs", "f($x$, $y$, $z$);", .ofList [("y", "suggestVariableName()"), ("x", "c:2")]⟩,
    ⟨"k", "b.cs", "f($x$, $y$, $z$);", .ofList [("x", "c:1"), ("z", "u")]⟩,
    ⟨"k", "c.cs", "f($x$, $y$, $z$);", .ofList [("z", "c:u"), ("w", "c:")]⟩]

theorem tallies_sum_up_followers :
    (∀ o ∈ followers, o.key = opening.key ∧ o.template = opening.template) ∧
      ∃ fields : Fields,
        tallies (opening :: followers) = [⟨"k", "f($x$, $y$, $z$);", 4, fields⟩] ∧
          fields.names = ((opening :: followers).flatMap (·.fields.names)).eraseDups ∧
          ∀ name ∈ fields.names, ∃ merged, fields.get? name = some merged ∧
            SumsUp name (seen (opening :: followers) name) merged :=
  have h : ∀ o ∈ followers, o.key = opening.key ∧ o.template = opening.template := by decide
  ⟨h, tallies_sum_up opening followers h⟩

/-! ## Merging again -/

/-- More than one constant, or one with a comma in it. -/
def IsCut (value : String) : Prop :=
  ∃ choice, constants? value = some choice ∧ ',' ∈ choice.toList

theorem append_ne_self {value choice : String} : value ++ "," ++ choice ≠ value := by
  intro h
  have hlength := congrArg String.length h
  simp only [String.length_append, show ",".length = 1 from rfl] at hlength
  omega

/-- A list of constants takes a single constant once, and anything else each time. -/
theorem mergeValue_again_of_known {existing value known choice : String}
    (hknown : constants? existing = some known) (hchoice : constants? value = some choice) :
    mergeValue (mergeValue existing value) value = mergeValue existing value ↔
      ',' ∉ choice.toList := by
  constructor
  · intro h hcomma
    have hnew : ∀ other : String, choice ∉ Text.splitAt ',' other := fun other hmem =>
      Text.not_mem_of_mem_splitAt hmem hcomma
    rw [mergeValue_of_not_mem hknown hchoice (hnew known),
      mergeValue_of_not_mem (constants?_concat hknown choice) hchoice (hnew _)] at h
    exact append_ne_self h
  · intro hfree
    by_cases hold : choice ∈ Text.splitAt ',' known
    · rw [mergeValue_of_mem hknown hchoice hold, mergeValue_of_mem hknown hchoice hold]
    · have hadded : choice ∈ choicesOf (known ++ "," ++ choice) := by
        rw [choicesOf_append, choicesOf, choicesOf, Text.splitAt_of_not_mem hfree]
        exact Finset.mem_union_right _ (List.mem_toFinset.mpr List.mem_cons_self)
      rw [mergeValue_of_not_mem hknown hchoice hold,
        mergeValue_of_mem (constants?_concat hknown choice) hchoice (List.mem_toFinset.mp hadded)]

/-- A value that is no list is settled after it has met another value once. -/
theorem mergeValue_again_of_plain {existing : String} (h : constants? existing = none)
    (value : String) :
    mergeValue (mergeValue existing value) value = mergeValue existing value := by
  have hmerge : mergeValue existing value = if existing = value then existing else "" := by
    rw [mergeValue, h]
  rw [hmerge]
  split
  · rename_i heq
    rw [hmerge, if_pos heq]
  · exact mergeValue_empty value

theorem mergeValue_again_iff {existing value : String} :
    mergeValue (mergeValue existing value) value = mergeValue existing value ↔
      (IsCut value → constants? existing = none) := by
  cases hknown : constants? existing with
  | none => exact iff_of_true (mergeValue_again_of_plain hknown value) fun _ => rfl
  | some known =>
    cases hchoice : constants? value with
    | none =>
      have hempty : mergeValue existing value = "" := by rw [mergeValue, hknown, hchoice]
      refine iff_of_true (by rw [hempty, mergeValue_empty]) ?_
      rintro ⟨choice, hcut, -⟩
      rw [hchoice] at hcut
      cases hcut
    | some choice =>
      rw [mergeValue_again_of_known hknown hchoice]
      simp only [IsCut, hchoice, Option.some.injEq, exists_eq_left', reduceCtorEq, imp_false]

/-- A value that meets itself is kept, unless it is a list that is cut at a comma. -/
theorem mergeValue_self_iff {value : String} : mergeValue value value = value ↔ ¬ IsCut value := by
  cases hchoice : constants? value with
  | none =>
    refine iff_of_true (mergeValue_self hchoice) ?_
    rintro ⟨choice, hcut, -⟩
    rw [hchoice] at hcut
    cases hcut
  | some choice =>
    simp only [IsCut, hchoice, Option.some.injEq, exists_eq_left']
    constructor
    · intro h hcomma
      rw [mergeValue_of_not_mem hchoice hchoice fun hmem =>
        Text.not_mem_of_mem_splitAt hmem hcomma] at h
      exact append_ne_self h
    · intro hfree
      refine mergeValue_of_mem hchoice hchoice ?_
      rw [Text.splitAt_of_not_mem hfree]
      exact List.mem_cons_self

theorem merge_again_iff {current incoming : Option String} :
    (current.merge mergeValue incoming).merge mergeValue incoming =
        current.merge mergeValue incoming ↔
      ∀ value, incoming = some value → IsCut value →
        ∃ existing, current = some existing ∧ constants? existing = none := by
  cases incoming with
  | none => simp
  | some value =>
    cases current with
    | none => simpa using mergeValue_self_iff
    | some existing => simpa using mergeValue_again_iff

/-- Merging a table a second time changes nothing exactly if no list of constants that is more than
a single constant without a comma was left as a list. -/
theorem mergeFields_again_iff (incoming current : Fields) :
    mergeFields incoming (mergeFields incoming current) = mergeFields incoming current ↔
      ∀ name value, incoming.get? name = some value → IsCut value →
        ∃ existing, current.get? name = some existing ∧ constants? existing = none := by
  have hnames : (mergeFields incoming (mergeFields incoming current)).names =
      (mergeFields incoming current).names := by
    rw [names_mergeFields]
    refine foldl_keepNew_of_mem fun name hname => ?_
    rw [names_mergeFields]
    exact mem_map_foldl_keepNew.mpr (Or.inr (List.mem_map_of_mem hname))
  have hget : mergeFields incoming (mergeFields incoming current) = mergeFields incoming current ↔
      ∀ name, (mergeFields incoming (mergeFields incoming current)).get? name =
        (mergeFields incoming current).get? name :=
    ⟨fun h name => by rw [h], Table.ext_get? hnames⟩
  rw [hget]
  refine forall_congr' fun name => ?_
  rw [get?_mergeFields, get?_mergeFields]
  exact merge_again_iff

/-- A text that is a constant, with a comma in it. -/
def quotedPair : Fields := .ofList [("text", "c:\"a, b\"")]

/-- A constant with a comma in it is listed again each time it is seen. -/
theorem mergeFields_again_quotedPair :
    (mergeFields quotedPair .empty).get? "text" = some "c:\"a, b\"" ∧
      (mergeFields quotedPair (mergeFields quotedPair .empty)).get? "text" =
        some "c:\"a, b\",\"a, b\"" ∧
      mergeFields quotedPair (mergeFields quotedPair .empty) ≠ mergeFields quotedPair .empty := by
  decide

end Ranking

end Foresight
