import Foresight.Proofs.Ranking.Groups

/-!
# What is published

Aggregation sorts and scans twice, then filters, sorts and cuts. `standings` says the result without
any of that: the keys in ascending order, and under each key the templates that pass the thresholds,
best first, as many of them as are allowed. Sets say which keys and templates there are, and a
linear order, `RankLe`, says which template is the better one.

The two agree (`aggregate_eq_standings`), fields included. What one wants to know of a ranking is
then read off a sorted list: nothing twice, nothing left out but for want of room.
-/

namespace Foresight.Ranking

open Text (ByteLe byteLe_iff)

/-! ## The ranking as it ought to be -/

section Standings

variable (observations : List Observation)

/-- The observations under a key. -/
def under (key : String) : List Observation :=
  observations.filter (·.key = key)

/-- The observations of a template under a key, in the order in which they were made. -/
def sightings (key template : String) : List Observation :=
  (under observations key).filter (·.template = template)

/-- The templates under a key that pass the thresholds. -/
def contenders (thresholds : Thresholds) (key : String) : Finset String :=
  ((under observations key).map (·.template)).toFinset.filter fun template =>
    thresholds.minOccurrences ≤ (sightings observations key template).length ∧
      thresholds.minPercentage * (under observations key).length ≤
        (sightings observations key template).length * 100

/-- Whether a template ranks no lower than another: it was seen more often, or just as often and its
bytes do not come later. -/
def RankLe (key a b : String) : Prop :=
  (sightings observations key b).length < (sightings observations key a).length ∨
    (sightings observations key a).length = (sightings observations key b).length ∧ ByteLe a b

/-- The fields of some observations, merged in their order. -/
def mergedFields : List Observation → Fields
  | [] => .empty
  | first :: rest => rest.foldl (fun current o => mergeFields o.fields current) first.fields

/-- What is published of a template under a key. -/
def entry (key template : String) : Suggestion where
  key := key
  template := template
  count := (sightings observations key template).length
  percentage :=
    (sightings observations key template).length * 100 / (under observations key).length
  fields := (mergedFields (sightings observations key template)).mapValues publishValue

instance (key : String) : DecidableRel (RankLe observations key) := fun _ _ =>
  inferInstanceAs (Decidable (_ ∨ _))

instance (key : String) : IsTrans String (RankLe observations key) where
  trans a b c h h' := by
    rcases h with h | ⟨h, hab⟩ <;> rcases h' with h' | ⟨h', hbc⟩
    · exact Or.inl (Nat.lt_trans h' h)
    · exact Or.inl (h' ▸ h)
    · exact Or.inl (h ▸ h')
    · exact Or.inr ⟨h.trans h', IsTrans.trans a b c hab hbc⟩

instance (key : String) : Std.Antisymm (RankLe observations key) where
  antisymm a b h h' := by
    rcases h with h | ⟨h, hab⟩ <;> rcases h' with h' | ⟨h', hba⟩
    · exact absurd h' (Nat.lt_asymm h)
    · exact absurd h (h' ▸ Nat.lt_irrefl _)
    · exact absurd h' (h ▸ Nat.lt_irrefl _)
    · exact Std.Antisymm.antisymm a b hab hba

instance (key : String) : Std.Total (RankLe observations key) where
  total a b := by
    rcases Nat.lt_trichotomy (sightings observations key a).length
      (sightings observations key b).length with h | h | h
    · exact Or.inr (Or.inl h)
    · exact (Std.Total.total (r := ByteLe) a b).imp (fun hab => Or.inr ⟨h, hab⟩)
        fun hba => Or.inr ⟨h.symm, hba⟩
    · exact Or.inl (Or.inl h)

/-- The templates under a key that pass the thresholds, best first. -/
def ranked (thresholds : Thresholds) (key : String) : List String :=
  (contenders observations thresholds key).sort (RankLe observations key)

/-- What ought to be published. -/
def standings (thresholds : Thresholds) : List Suggestion :=
  (labelsOf (·.key) observations).flatMap fun key =>
    ((ranked observations thresholds key).take thresholds.maxSuggestions).map
      (entry observations key)

end Standings

/-! ## Tallies -/

variable {observations : List Observation}

theorem mem_sightings {key template : String} {o : Observation} :
    o ∈ sightings observations key template ↔
      o ∈ observations ∧ o.key = key ∧ o.template = template := by
  simp only [sightings, under, List.mem_filter, decide_eq_true_eq, and_assoc]

/-- The tally of the observations of a template under a key. -/
def tallyAt (observations : List Observation) (key template : String) : Tally where
  key := key
  template := template
  count := (sightings observations key template).length
  fields := mergedFields (sightings observations key template)

theorem tallyOf_sightings {key template : String}
    (h : sightings observations key template ≠ []) :
    tallyOf (sightings observations key template) = some (tallyAt observations key template) := by
  obtain ⟨o, rest, hs⟩ := List.exists_cons_of_ne_nil h
  have ho : o ∈ sightings observations key template := hs ▸ List.mem_cons_self
  obtain ⟨-, hkey, htemplate⟩ := mem_sightings.mp ho
  simp only [tallyAt, hs, tallyOf, mergedFields, List.length_cons, hkey, htemplate]

/-- One tally for each template, in ascending order of the templates. -/
theorem tallies_under (observations : List Observation) (key : String) :
    tallies (under observations key) =
      (labelsOf (·.template) (under observations key)).map (tallyAt observations key) := by
  rw [tallies, groupBy_eq, List.filterMap_map, ← List.filterMap_eq_map]
  refine List.filterMap_congr fun template h => ?_
  obtain ⟨o, ho, hot⟩ := (mem_labelsOf _).mp h
  exact tallyOf_sightings (List.ne_nil_of_mem (List.mem_filter.mpr ⟨ho, by simpa using hot⟩))

/-- The tallies of a key count all of its observations. -/
theorem total_tallies (observations : List Observation) (key : String) :
    (tallies (under observations key)).foldr (fun t total => t.count + total) 0 =
      (under observations key).length := by
  have htotal : ∀ templates : List String,
      (templates.map (tallyAt observations key)).foldr (fun t total => t.count + total) 0 =
        (templates.flatMap (sightings observations key)).length := by
    intro templates
    induction templates with
    | nil => rfl
    | cons template rest ih =>
      rw [List.map_cons, List.foldr_cons, List.flatMap_cons, List.length_append, ih]
      rfl
  rw [tallies_under, htotal]
  exact length_classes (·.template) (under observations key)

/-! ## Selection -/

theorem count_trans (f : String → Nat) (a b c : String) (h : decide (f b ≤ f a) = true)
    (h' : decide (f c ≤ f b) = true) : decide (f c ≤ f a) = true :=
  decide_eq_true (Nat.le_trans (of_decide_eq_true h') (of_decide_eq_true h))

theorem count_total (f : String → Nat) (a b : String) :
    (decide (f b ≤ f a) || decide (f a ≤ f b)) = true := by
  rcases Nat.le_total (f a) (f b) with h | h <;> simp [h]

/-- Sorting stably by count what is in ascending order is sorting by count, then by bytes. -/
theorem mergeSort_pairwise_rankLe (key : String) {templates : List String}
    (h : templates.Pairwise (· < ·)) :
    (templates.mergeSort fun a b => decide ((sightings observations key b).length ≤
      (sightings observations key a).length)).Pairwise (RankLe observations key) := by
  set count := fun t => (sightings observations key t).length
  refine List.pairwise_iff_forall_sublist.mpr fun {a b} hab => ?_
  have hle : count b ≤ count a := of_decide_eq_true <| List.pairwise_iff_forall_sublist.mp
    (List.pairwise_mergeSort (count_trans count) (count_total count) templates) hab
  rcases Nat.lt_or_eq_of_le hle with hlt | heq
  · exact Or.inl hlt
  · -- Templates that were seen equally often are in the order in which they were before.
    have hclass := hab.filter (fun t => count t = count a)
    rw [filter_mergeSort (count_trans count) (count_total count)
      (fun c d hc hd => by simp_all)] at hclass
    have hpair : [a, b].Sublist templates :=
      List.Sublist.trans (by simpa [heq] using hclass)
        (List.filter_sublist (p := fun t => decide (count t = count a)))
    exact Or.inr ⟨heq.symm, byteLe_iff.mpr
      (le_of_lt (List.pairwise_iff_forall_sublist.mp h hpair))⟩

theorem admits_tallyAt {thresholds : Thresholds} {key template : String}
    (h : template ∈ labelsOf (·.template) (under observations key)) :
    thresholds.admits (tallyAt observations key template).count (under observations key).length =
      decide (template ∈ contenders observations thresholds key) := by
  obtain ⟨o, ho, hot⟩ := (mem_labelsOf _).mp h
  have hpos : 0 < (under observations key).length := List.length_pos_of_mem ho
  have hmem : template ∈ ((under observations key).map (·.template)).toFinset := by
    simpa using ⟨o, ho, hot⟩
  rw [Bool.eq_iff_iff]
  simp only [Thresholds.admits, tallyAt, contenders, Finset.mem_filter, hmem, true_and,
    Bool.and_eq_true, decide_eq_true_eq, hpos, ge_iff_le]

/-- The tallies that pass are ranked as the templates that pass are. -/
theorem ranked_tallies (thresholds : Thresholds) (key : String) :
    ((tallies (under observations key)).filter fun t =>
        thresholds.admits t.count (under observations key).length).mergeSort
        (fun a b => decide (b.count ≤ a.count)) =
      (ranked observations thresholds key).map (tallyAt observations key) := by
  set templates := labelsOf (·.template) (under observations key) with htemplates
  have hfilter : (tallies (under observations key)).filter
      (fun t => thresholds.admits t.count (under observations key).length) =
      (templates.filter (· ∈ contenders observations thresholds key)).map
        (tallyAt observations key) := by
    rw [tallies_under, List.filter_map]
    congr 1
    exact List.filter_congr fun template h => admits_tallyAt h
  have hsorted : (templates.filter (· ∈ contenders observations thresholds key)).Pairwise (· < ·) :=
    (pairwise_labelsOf _ _).filter _
  have hperm : (templates.filter (· ∈ contenders observations thresholds key)).Perm
      (ranked observations thresholds key) := by
    refine (List.perm_ext_iff_of_nodup (hsorted.imp ne_of_lt) (Finset.sort_nodup ..)).mpr
      fun template => ?_
    rw [List.mem_filter, decide_eq_true_eq, htemplates, mem_labelsOf]
    refine (and_iff_right_of_imp fun h => ?_).trans (Finset.mem_sort ..).symm
    simpa using (Finset.mem_filter.mp h).1
  rw [hfilter, ← List.map_mergeSort
    (r := fun a b => decide ((sightings observations key b).length ≤
      (sightings observations key a).length)) (fun _ _ _ _ => rfl)]
  congr 1
  exact ((List.mergeSort_perm ..).trans hperm).eq_of_pairwise
    (fun a b _ _ h h' => Std.Antisymm.antisymm a b h h')
    (mergeSort_pairwise_rankLe key hsorted) (Finset.pairwise_sort ..)

theorem select_tallies (thresholds : Thresholds) (key : String) :
    select (tallies (under observations key)) thresholds =
      ((ranked observations thresholds key).take thresholds.maxSuggestions).map
        (entry observations key) := by
  simp only [select, total_tallies]
  rw [ranked_tallies, ← List.map_take, List.map_map]
  rfl

/-- Aggregation publishes what ought to be published. -/
theorem aggregate_eq_standings (observations : List Observation) (thresholds : Thresholds) :
    aggregate observations thresholds = standings observations thresholds := by
  rw [aggregate, groupBy_eq, List.flatMap_map, standings]
  exact List.flatMap_congr fun key _ => select_tallies thresholds key

/-! ## What a ranking promises -/

theorem mem_contenders {thresholds : Thresholds} {key template : String} :
    template ∈ contenders observations thresholds key ↔
      sightings observations key template ≠ [] ∧
        thresholds.minOccurrences ≤ (sightings observations key template).length ∧
        thresholds.minPercentage * (under observations key).length ≤
          (sightings observations key template).length * 100 := by
  rw [contenders, Finset.mem_filter, List.mem_toFinset, List.mem_map]
  refine and_congr_left fun _ => ?_
  simp [sightings, List.filter_eq_nil_iff]

theorem mem_ranked {thresholds : Thresholds} {key template : String} :
    template ∈ ranked observations thresholds key ↔
      template ∈ contenders observations thresholds key :=
  Finset.mem_sort ..

theorem nodup_ranked (thresholds : Thresholds) (key : String) :
    (ranked observations thresholds key).Nodup :=
  Finset.sort_nodup ..

/-- Under one key, what is published is the upper end of its ranking. -/
theorem standings_of_key (thresholds : Thresholds) (key : String) :
    (standings observations thresholds).filter (·.key = key) =
      ((ranked observations thresholds key).take thresholds.maxSuggestions).map
        (entry observations key) := by
  set part := fun k => ((ranked observations thresholds k).take thresholds.maxSuggestions).map
    (entry observations k)
  have hpart : ∀ k, (part k).filter (·.key = key) = if k = key then part key else [] := by
    intro k
    split
    · rename_i h
      subst h
      exact List.filter_eq_self.mpr fun s hs => by
        obtain ⟨template, -, rfl⟩ := List.mem_map.mp hs
        simp [entry]
    · rename_i h
      refine List.filter_eq_nil_iff.mpr fun s hs => ?_
      obtain ⟨template, -, rfl⟩ := List.mem_map.mp hs
      exact fun hk => h (of_decide_eq_true hk)
  have hpick : ∀ labels : List String, labels.Nodup →
      (labels.flatMap fun k => if k = key then part key else []) =
        if key ∈ labels then part key else [] := by
    intro labels
    induction labels with
    | nil => intro _; simp
    | cons k rest ih =>
      intro hnodup
      obtain ⟨hk, hrest⟩ := List.nodup_cons.mp hnodup
      rw [List.flatMap_cons, ih hrest]
      by_cases h : k = key
      · subst h; simp [hk]
      · simp [h, Ne.symm h]
  have hnodup : (labelsOf (·.key) observations).Nodup := Finset.sort_nodup ..
  rw [standings, List.filter_flatMap, List.flatMap_congr fun k _ => hpart k, hpick _ hnodup]
  split
  · rfl
  · -- A key that does not occur has no templates either.
    rename_i h
    have hnone : ranked observations thresholds key = [] := by
      refine List.eq_nil_iff_forall_not_mem.mpr fun template hmem => ?_
      obtain ⟨o, ho⟩ := List.exists_mem_of_ne_nil _ (mem_contenders.mp (mem_ranked.mp hmem)).1
      obtain ⟨ho, hkey, -⟩ := mem_sightings.mp ho
      exact h ((mem_labelsOf _).mpr ⟨o, ho, hkey⟩)
    simp [hnone]

theorem nodup_standings (thresholds : Thresholds) :
    ((standings observations thresholds).map fun s => (s.key, s.template)).Nodup := by
  have hnodup : (labelsOf (·.key) observations).Nodup := Finset.sort_nodup ..
  rw [standings, List.map_flatMap, List.nodup_flatMap]
  refine ⟨fun key _ => ?_, hnodup.imp fun {a b} hab s hs ht => ?_⟩
  · rw [List.map_map]
    exact ((nodup_ranked thresholds key).sublist (List.take_sublist ..)).map
      fun a b h => (Prod.mk.inj h).2
  · simp only [List.map_map, List.mem_map, Function.comp_apply, entry] at hs ht
    obtain ⟨_, _, rfl⟩ := hs
    obtain ⟨_, _, h⟩ := ht
    exact hab (Prod.mk.inj h).1.symm

/-- What passes the thresholds and is not published is kept out by others that rank higher. -/
theorem crowded_out {thresholds : Thresholds} {key template : String}
    (hmem : template ∈ contenders observations thresholds key)
    (hout : ∀ s ∈ standings observations thresholds, s.key = key → s.template ≠ template) :
    ((standings observations thresholds).filter fun s =>
      s.key = key ∧ RankLe observations key s.template template).length =
        thresholds.maxSuggestions := by
  set n := thresholds.maxSuggestions
  have hsorted : (ranked observations thresholds key).Pairwise (RankLe observations key) :=
    Finset.pairwise_sort ..
  have hnot : template ∉ (ranked observations thresholds key).take n := fun h => by
    have hs : entry observations key template ∈
        (standings observations thresholds).filter (·.key = key) := by
      rw [standings_of_key]; exact List.mem_map_of_mem h
    exact hout _ (List.mem_filter.mp hs).1 rfl rfl
  have hdrop : template ∈ (ranked observations thresholds key).drop n :=
    (List.mem_append.mp ((List.take_append_drop n _).symm ▸ mem_ranked.mpr hmem)).resolve_left hnot
  have hahead : ∀ t ∈ (ranked observations thresholds key).take n,
      RankLe observations key t template := fun t ht => by
    rw [← List.take_append_drop n (ranked ..)] at hsorted
    exact (List.pairwise_append.mp hsorted).2.2 t ht template hdrop
  have hlong : n ≤ (ranked observations thresholds key).length := by
    have := List.length_pos_of_mem hdrop
    rw [List.length_drop] at this
    omega
  calc ((standings observations thresholds).filter fun s =>
        s.key = key ∧ RankLe observations key s.template template).length
      = (((standings observations thresholds).filter (·.key = key)).filter fun s =>
          RankLe observations key s.template template).length := by
        rw [List.filter_filter]
        congr 2
        funext s
        rw [Bool.decide_and, Bool.and_comm]
    _ = (((ranked observations thresholds key).take n).filter fun t =>
          RankLe observations key t template).length := by
        rw [standings_of_key, List.filter_map, List.length_map]
        rfl
    _ = ((ranked observations thresholds key).take n).length := by
        rw [List.filter_eq_self.mpr fun t ht => decide_eq_true (hahead t ht)]
    _ = n := by rw [List.length_take, Nat.min_eq_left hlong]

/-- What is published is what there is to say of a template that was seen. -/
theorem eq_entry_of_mem_standings {thresholds : Thresholds} {s : Suggestion}
    (h : s ∈ standings observations thresholds) :
    s = entry observations s.key s.template ∧ sightings observations s.key s.template ≠ [] := by
  obtain ⟨key, -, hs⟩ := List.mem_flatMap.mp h
  obtain ⟨template, ht, rfl⟩ := List.mem_map.mp hs
  exact ⟨rfl, (mem_contenders.mp (mem_ranked.mp (List.mem_of_mem_take ht))).1⟩

theorem percentage_bounds {thresholds : Thresholds} {s : Suggestion}
    (h : s ∈ standings observations thresholds) :
    thresholds.minPercentage ≤ s.percentage ∧ s.percentage ≤ 100 := by
  obtain ⟨key, -, hs⟩ := List.mem_flatMap.mp h
  obtain ⟨template, ht, rfl⟩ := List.mem_map.mp hs
  obtain ⟨hne, -, hshare⟩ := mem_contenders.mp (mem_ranked.mp (List.mem_of_mem_take ht))
  have hle : (sightings observations key template).length ≤ (under observations key).length :=
    List.length_filter_le ..
  have hpos : 0 < (under observations key).length :=
    Nat.lt_of_lt_of_le (List.length_pos_iff.mpr hne) hle
  refine ⟨(Nat.le_div_iff_mul_le hpos).mpr hshare, Nat.div_le_of_le_mul ?_⟩
  exact Nat.mul_comm _ 100 ▸ Nat.mul_le_mul_right 100 hle

/-- Aggregation is the ranking that the thresholds describe: entry by entry what `standings` says,
no template twice under a key, none that passes missing unless as many as are allowed rank before
it, and every percentage between the least that is asked for and a hundred. -/
theorem aggregate_ranks_admitted (observations : List Observation) (thresholds : Thresholds) :
    aggregate observations thresholds = standings observations thresholds ∧
      ((aggregate observations thresholds).map fun s => (s.key, s.template)).Nodup ∧
      (∀ key, ∀ template ∈ contenders observations thresholds key,
        (∀ s ∈ aggregate observations thresholds, s.key = key → s.template ≠ template) →
        ((aggregate observations thresholds).filter fun s =>
          s.key = key ∧ RankLe observations key s.template template).length =
            thresholds.maxSuggestions) ∧
      ∀ s ∈ aggregate observations thresholds,
        thresholds.minPercentage ≤ s.percentage ∧ s.percentage ≤ 100 := by
  rw [aggregate_eq_standings]
  exact ⟨rfl, nodup_standings thresholds, fun _ _ => crowded_out, fun _ => percentage_bounds⟩

end Foresight.Ranking
