import Foresight.Proofs.Ranking.Standings
import Foresight.Proofs.Table
import Foresight.Proofs.Text.Pieces

/-!
# Merging in any order

What merging makes of the values of a name does not depend on the order in which they come, except
that constants are listed in the order in which they were first seen. So a value is judged by what
is left of it without that order (`verdict`): a list of constants is the set of its choices, and any
other value is itself. Merging two values is then `Verdict.meet`, which is commutative and
associative, and the verdict on a name is the meet of the verdicts on all its values
(`verdictOn_mergedFields`).

Observations can therefore come in any order (`forall₂_aggregate`). Where there are no lists of
constants, the same suggestions are published, position by position, with the same values
(`aggregate_perm`).
-/

namespace Foresight

namespace Ranking

/-! ## Values without the order of their choices -/

/-- The value that two values agree on, or the empty one. -/
def meet (a b : String) : String := if a = b then a else ""

theorem meet_comm (a b : String) : meet a b = meet b a := by
  unfold meet
  by_cases h : a = b <;> simp [h, eq_comm]

theorem meet_assoc (a b c : String) : meet (meet a b) c = meet a (meet b c) := by
  unfold meet
  grind

@[simp] theorem meet_empty (a : String) : meet a "" = "" := by
  unfold meet
  split
  · assumption
  · rfl

@[simp] theorem empty_meet (a : String) : meet "" a = "" := by
  rw [meet_comm, meet_empty]

/-- The constants that a list of them offers, with commas between them. -/
def choicesOf (constants : String) : Finset String := (Text.splitAt ',' constants).toFinset

theorem choicesOf_append (known choice : String) :
    choicesOf (known ++ "," ++ choice) = choicesOf known ∪ choicesOf choice := by
  have hpieces := Text.pieces_append_separator (p := (· == ',')) known.toList
    (beq_self_eq_true ',') choice.toList
  simp only [choicesOf, Text.splitAt, String.toList_append]
  rw [show ",".toList = [','] from rfl, List.append_assoc, List.singleton_append, hpieces,
    List.map_append, List.toFinset_append]

/-- What merging goes by in a value. -/
inductive Verdict where
  | choices (offered : Finset String)
  | plain (value : String)
  deriving DecidableEq

def verdict (value : String) : Verdict :=
  match constants? value with
  | some constants => .choices (choicesOf constants)
  | none => .plain value

namespace Verdict

/-- The verdict on two values together. -/
def meet : Verdict → Verdict → Verdict
  | .choices s, .choices t => .choices (s ∪ t)
  | .plain a, .plain b => .plain (Ranking.meet a b)
  | _, _ => .plain ""

instance : Std.Commutative meet where
  comm a b := by
    cases a <;> cases b <;> simp only [meet]
    case choices.choices s t => rw [Finset.union_comm]
    case plain.plain a b => rw [meet_comm]

instance : Std.Associative meet where
  assoc a b c := by
    cases a <;> cases b <;> cases c <;> simp only [meet, meet_empty, empty_meet]
    case choices.choices.choices s t u => rw [Finset.union_assoc]
    case plain.plain.plain a b c => rw [meet_assoc]

end Verdict

theorem verdict_of_constants {value constants : String} (h : constants? value = some constants) :
    verdict value = .choices (choicesOf constants) := by
  rw [verdict, h]

theorem verdict_of_plain {value : String} (h : constants? value = none) :
    verdict value = .plain value := by
  rw [verdict, h]

theorem constants?_eq_some {value choices : String} (h : constants? value = some choices) :
    value = constantLead ++ choices := by
  unfold constants? Text.stripLead? at h
  obtain ⟨rest, hrest, rfl⟩ := Option.map_eq_some_iff.mp h
  refine String.ext ?_
  rw [Text.dropLead?_eq_some_iff.mp hrest, String.toList_append, String.toList_ofList]

theorem constants?_append (constants : String) :
    constants? (constantLead ++ constants) = some constants :=
  Text.stripLead?_append constantLead constants

/-- A list of constants that takes one more is still a list of constants. -/
theorem constants?_concat {value known : String} (h : constants? value = some known)
    (choice : String) : constants? (value ++ "," ++ choice) = some (known ++ "," ++ choice) := by
  have hassoc : constantLead ++ known ++ "," ++ choice =
      constantLead ++ (known ++ "," ++ choice) := by
    simp only [String.append_assoc]
  rw [constants?_eq_some h, hassoc, constants?_append]

/-- A choice that is found among others is a single one, without commas. -/
theorem choicesOf_subset_of_contains {known choice : String}
    (h : (Text.splitAt ',' known).contains choice = true) : choicesOf choice ⊆ choicesOf known := by
  have hmem : choice ∈ Text.splitAt ',' known := List.contains_iff_mem.mp h
  intro c hc
  rw [choicesOf, Text.splitAt_of_not_mem (Text.not_mem_of_mem_splitAt hmem)] at hc
  obtain rfl : c = choice := by simpa using hc
  exact List.mem_toFinset.mpr hmem

/-- Merging two values is meeting their verdicts. -/
theorem verdict_mergeValue (a b : String) :
    verdict (mergeValue a b) = (verdict a).meet (verdict b) := by
  unfold mergeValue
  cases ha : constants? a with
  | none =>
    rw [verdict_of_plain ha]
    cases hb : constants? b with
    | none =>
      rw [verdict_of_plain hb]
      simp only [Verdict.meet, meet]
      split
      · exact verdict_of_plain ha
      · rfl
    | some choice =>
      have hne : a ≠ b := by
        rintro rfl
        rw [ha] at hb
        cases hb
      rw [verdict_of_constants hb, if_neg hne]
      rfl
  | some known =>
    rw [verdict_of_constants ha]
    cases hb : constants? b with
    | none =>
      rw [verdict_of_plain hb]
      rfl
    | some choice =>
      rw [verdict_of_constants hb]
      simp only [Verdict.meet]
      split
      · rename_i hknown
        rw [verdict_of_constants ha, Finset.union_eq_left.mpr (choicesOf_subset_of_contains hknown)]
      · rw [verdict_of_constants (constants?_concat ha choice), choicesOf_append]

/-! ## Tables -/

section Tables

variable {current incoming : Fields}

section All

variable {P : String → String → Prop}
  (hmerge : ∀ {name a b : String}, P name a → P name b → P name (mergeValue a b))

include hmerge

theorem all_mergeEntry {entry : String × String} (h : current.All P) (hentry : P entry.1 entry.2) :
    (mergeEntry current entry).All P := by
  unfold mergeEntry
  split
  · exact h.insert hentry
  · rename_i existing hget
    have hexisting : P entry.1 existing := h.of_get? hget
    exact h.insert (hmerge hexisting hentry)

/-- What holds of two tables, and of any two values merged, holds of the tables merged. -/
theorem all_mergeFields (h : current.All P) (hincoming : incoming.All P) :
    (mergeFields incoming current).All P := by
  have hfold : ∀ entries : List (String × String), (∀ entry ∈ entries, P entry.1 entry.2) →
      ∀ {current : Fields}, current.All P → (entries.foldl mergeEntry current).All P := by
    intro entries
    induction entries with
    | nil => exact fun _ _ h => h
    | cons entry rest ih =>
      intro hentries current h
      obtain ⟨hentry, hrest⟩ := List.forall_mem_cons.mp hentries
      exact ih hrest (all_mergeEntry hmerge h hentry)
  exact hfold incoming.entries hincoming h

theorem all_mergedFields {observations : List Observation}
    (h : ∀ o ∈ observations, o.fields.All P) : (mergedFields observations).All P := by
  cases observations with
  | nil => exact Table.all_empty
  | cons first rest =>
    obtain ⟨hfirst, hrest⟩ := List.forall_mem_cons.mp h
    exact Table.all_foldl (fun _ _ ht ho => all_mergeFields hmerge ht ho) hrest hfirst

end All

/-- The verdict on the value of a name, if it has one. -/
def verdictOn (fields : Fields) (name : String) : Option Verdict := (fields.get? name).map verdict

theorem get?_mergeEntry (current : Fields) (entry : String × String) (name : String) :
    (mergeEntry current entry).get? name =
      if name = entry.1 then (current.get? name).merge mergeValue (some entry.2)
      else current.get? name := by
  unfold mergeEntry
  split
  · rename_i hget
    rw [Table.get?_insert]
    split
    · rename_i hname
      rw [hname, hget, Option.merge_none_left]
    · rfl
  · rename_i existing hget
    rw [Table.get?_insert]
    split
    · rename_i hname
      rw [hname, hget]
      rfl
    · rfl

/-- Merging tables merges the values of every name. -/
theorem get?_mergeFields (incoming current : Fields) (name : String) :
    (mergeFields incoming current).get? name =
      (current.get? name).merge mergeValue (incoming.get? name) := by
  have hfold : ∀ entries : List (String × String), (entries.map Prod.fst).Nodup →
      ∀ current : Fields, (entries.foldl mergeEntry current).get? name =
        (current.get? name).merge mergeValue (entries.lookup name) := by
    intro entries
    induction entries with
    | nil =>
      intro _ current
      rw [List.foldl_nil, List.lookup_nil, Option.merge_none_right]
    | cons entry rest ih =>
      intro hnodup current
      obtain ⟨hfirst, hrest⟩ := List.nodup_cons.mp hnodup
      rw [List.foldl_cons, ih hrest, get?_mergeEntry]
      by_cases hname : name = entry.1
      · subst hname
        rw [if_pos rfl, Table.lookup_of_not_mem hfirst, List.lookup_cons, beq_self_eq_true,
          Option.merge_none_right]
      · rw [if_neg hname, List.lookup_cons, beq_false_of_ne hname]
  exact hfold incoming.entries incoming.nodup current

/-- The value of a name in merged tables is put together from its values in all of them. -/
theorem get?_mergedFields (observations : List Observation) (name : String) :
    (mergedFields observations).get? name =
      (observations.map fun o => o.fields.get? name).foldl (Option.merge mergeValue) none := by
  have hfold : ∀ (rest : List Observation) (current : Fields),
      (rest.foldl (fun current o => mergeFields o.fields current) current).get? name =
        (rest.map fun o => o.fields.get? name).foldl (Option.merge mergeValue)
          (current.get? name) := by
    intro rest
    induction rest with
    | nil => exact fun _ => rfl
    | cons o rest ih =>
      intro current
      rw [List.foldl_cons, ih, get?_mergeFields, List.map_cons, List.foldl_cons]
  cases observations with
  | nil => rfl
  | cons first rest =>
    rw [mergedFields, hfold, List.map_cons, List.foldl_cons, Option.merge_none_left]

/-- The verdict on two values that may be missing is the meet of those that are there. -/
theorem map_verdict_merge (a b : Option String) :
    (a.merge mergeValue b).map verdict = (a.map verdict).merge Verdict.meet (b.map verdict) := by
  cases a with
  | none => rw [Option.merge_none_left, Option.map_none, Option.merge_none_left]
  | some a =>
    cases b with
    | none => rw [Option.merge_none_right, Option.map_none, Option.merge_none_right]
    | some b => exact congrArg some (verdict_mergeValue a b)

/-- The verdict on a name in merged tables, whatever their order. -/
theorem verdictOn_mergedFields (observations : List Observation) (name : String) :
    verdictOn (mergedFields observations) name =
      (observations.map fun o => verdictOn o.fields name).foldl (Option.merge Verdict.meet)
        none := by
  rw [verdictOn, get?_mergedFields, List.foldl_map, List.foldl_map]
  exact (List.foldl_hom (Option.map verdict) fun x o =>
    (map_verdict_merge x (o.fields.get? name)).symm).symm

theorem verdictOn_mergedFields_perm {observations other : List Observation}
    (h : observations.Perm other) (name : String) :
    verdictOn (mergedFields observations) name = verdictOn (mergedFields other) name := by
  rw [verdictOn_mergedFields, verdictOn_mergedFields]
  exact (h.map _).foldl_op_eq

/-! ## Tables without lists of constants -/

/-- No value of a table is a list of constants. -/
def IsPlain (fields : Fields) : Prop := fields.All fun _ value => constants? value = none

theorem isPlain_empty : IsPlain .empty := Table.all_empty

theorem IsPlain.insert {fields : Fields} (h : IsPlain fields) (name : String) {value : String}
    (hvalue : constants? value = none) : IsPlain (fields.insert name value) :=
  Table.All.insert h hvalue

theorem IsPlain.absorb {fields other : Fields} (h : IsPlain fields) (hother : IsPlain other) :
    IsPlain (fields.absorb other) :=
  Table.All.absorb h hother

theorem constants?_mergeValue {a b : String} (ha : constants? a = none) :
    constants? (mergeValue a b) = none := by
  unfold mergeValue
  rw [ha]
  dsimp only
  split
  · exact ha
  · decide

theorem isPlain_mergedFields {observations : List Observation}
    (h : ∀ o ∈ observations, IsPlain o.fields) : IsPlain (mergedFields observations) :=
  all_mergedFields (P := fun _ value => constants? value = none)
    (fun ha _ => constants?_mergeValue ha) h

/-- Of a plain value, the verdict leaves nothing out. -/
theorem IsPlain.verdictOn_eq {fields : Fields} (h : IsPlain fields) (name : String) :
    verdictOn fields name = (fields.get? name).map .plain := by
  unfold verdictOn
  cases hget : fields.get? name with
  | none => rfl
  | some value =>
    have hvalue : constants? value = none := Table.All.of_get? h hget
    rw [Option.map_some, Option.map_some, verdict_of_plain hvalue]

theorem get?_mergedFields_perm {observations other : List Observation}
    (h : ∀ o ∈ observations, IsPlain o.fields) (hp : observations.Perm other) (name : String) :
    (mergedFields observations).get? name = (mergedFields other).get? name := by
  have hverdicts := verdictOn_mergedFields_perm hp name
  rw [(isPlain_mergedFields h).verdictOn_eq,
    (isPlain_mergedFields fun o ho => h o (hp.mem_iff.mpr ho)).verdictOn_eq] at hverdicts
  exact Option.map_injective (fun _ _ => Verdict.plain.inj) hverdicts

end Tables

/-! ## Standings -/

/-- Two suggestions that differ at most in the order of their fields. -/
structure Same (s t : Suggestion) : Prop where
  key : s.key = t.key
  template : s.template = t.template
  count : s.count = t.count
  percentage : s.percentage = t.percentage
  fields : ∀ name, s.fields.get? name = t.fields.get? name

section Perm

variable {observations other : List Observation}

theorem labelsOf_perm {α : Type} (label : α → String) {items items' : List α}
    (h : items.Perm items') : labelsOf label items = labelsOf label items' := by
  rw [labelsOf, labelsOf, List.toFinset_eq_of_perm _ _ (h.map label)]

theorem under_perm (h : observations.Perm other) (key : String) :
    (under observations key).Perm (under other key) :=
  h.filter _

theorem sightings_perm (h : observations.Perm other) (key template : String) :
    (sightings observations key template).Perm (sightings other key template) :=
  (under_perm h key).filter _

theorem ranked_perm (h : observations.Perm other) (thresholds : Thresholds) (key : String) :
    ranked observations thresholds key = ranked other thresholds key := by
  have hcount := fun template => (sightings_perm h key template).length_eq
  have hrank : ∀ a b, RankLe other key a b ↔ RankLe observations key a b := fun a b => by
    rw [RankLe, RankLe, hcount, hcount]
  have hperm : (ranked observations thresholds key).Perm (ranked other thresholds key) := by
    refine (List.perm_ext_iff_of_nodup (nodup_ranked ..) (nodup_ranked ..)).mpr fun template => ?_
    rw [mem_ranked, mem_ranked, mem_contenders, mem_contenders, hcount,
      (under_perm h key).length_eq, ← List.length_pos_iff, ← List.length_pos_iff, hcount]
  refine hperm.eq_of_pairwise (fun a b _ _ h h' => Std.Antisymm.antisymm a b h h')
    (Finset.pairwise_sort ..) ?_
  exact (Finset.pairwise_sort _ (RankLe other key)).imp fun {a b} => (hrank a b).mp

theorem count_entry_perm (h : observations.Perm other) (key template : String) :
    (entry observations key template).count = (entry other key template).count :=
  (sightings_perm h key template).length_eq

theorem percentage_entry_perm (h : observations.Perm other) (key template : String) :
    (entry observations key template).percentage = (entry other key template).percentage := by
  simp only [entry, (sightings_perm h key template).length_eq, (under_perm h key).length_eq]

theorem get?_fields_entry (observations : List Observation) (key template name : String) :
    (entry observations key template).fields.get? name =
      ((mergedFields (sightings observations key template)).get? name).map publishValue :=
  Table.get?_mapValues ..

theorem same_entry (hplain : ∀ o ∈ observations, IsPlain o.fields) (h : observations.Perm other)
    (key template : String) :
    Same (entry observations key template) (entry other key template) where
  key := rfl
  template := rfl
  count := count_entry_perm h key template
  percentage := percentage_entry_perm h key template
  fields name := by
    have hsightings : ∀ o ∈ sightings observations key template, IsPlain o.fields :=
      fun o ho => hplain o (mem_sightings.mp ho).1
    rw [get?_fields_entry, get?_fields_entry,
      get?_mergedFields_perm hsightings (sightings_perm h key template)]

theorem forall₂_flatMap {α β : Type} {R : β → β → Prop} {f g : α → List β}
    (h : ∀ a, List.Forall₂ R (f a) (g a)) : ∀ l : List α,
    List.Forall₂ R (l.flatMap f) (l.flatMap g)
  | [] => .nil
  | a :: l => by
    rw [List.flatMap_cons, List.flatMap_cons]
    exact List.rel_append (h a) (forall₂_flatMap h l)

/-- Observations in another order give suggestions that are related position by position, if what is
published of a template under a key is related to what is published of it in the other order. -/
theorem forall₂_aggregate {R : Suggestion → Suggestion → Prop} (h : observations.Perm other)
    (hentry : ∀ key template, R (entry observations key template) (entry other key template))
    (thresholds : Thresholds) :
    List.Forall₂ R (aggregate observations thresholds) (aggregate other thresholds) := by
  rw [aggregate_eq_standings, aggregate_eq_standings, standings, standings,
    labelsOf_perm (·.key) h]
  refine forall₂_flatMap (fun key => ?_) _
  rw [ranked_perm h]
  exact List.forall₂_map_left_iff.mpr (List.forall₂_map_right_iff.mpr
    (List.forall₂_same.mpr fun template _ => hentry key template))

/-- The same observations in another order give the same suggestions. -/
theorem aggregate_perm (hplain : ∀ o ∈ observations, IsPlain o.fields)
    (h : observations.Perm other) (thresholds : Thresholds) :
    List.Forall₂ Same (aggregate observations thresholds) (aggregate other thresholds) :=
  forall₂_aggregate h (same_entry hplain h) thresholds

end Perm

end Ranking

end Foresight
