import Foresight.Proofs.Ranking.Standings

/-!
# Tightening thresholds

Under one key a template passes the thresholds if it was seen often enough, so with a template that
passes, every template that ranks before it passes too. Stricter thresholds therefore keep the upper
end of a ranking (`ranked_tightened`), and to cut it shorter keeps the upper end of that. What is
published of a template depends on the observations alone, so what stricter thresholds publish under
a key is where the suggestions of the looser ones begin (`aggregate_tightened`).
-/

namespace Foresight

/-- Thresholds that ask for as much or more, and publish as many or fewer. -/
structure Thresholds.Tightens (tight loose : Thresholds) : Prop where
  maxSuggestions : tight.maxSuggestions ≤ loose.maxSuggestions
  minOccurrences : loose.minOccurrences ≤ tight.minOccurrences
  minPercentage : loose.minPercentage ≤ tight.minPercentage

namespace Ranking

/-- What passes a test is the upper end of a list if nothing that passes stands behind something
that does not. -/
theorem prefix_filter {α : Type} {p : α → Bool} {items : List α}
    (h : items.Pairwise fun a b => p b = true → p a = true) : items.filter p <+: items := by
  induction items with
  | nil => exact List.prefix_rfl
  | cons a rest ih =>
    obtain ⟨hfirst, hrest⟩ := List.pairwise_cons.mp h
    by_cases ha : p a = true
    · rw [List.filter_cons_of_pos ha, List.prefix_cons_inj]
      exact ih hrest
    · have hnone : rest.filter p = [] :=
        List.filter_eq_nil_iff.mpr fun b hb hpb => ha (hfirst b hb hpb)
      rw [List.filter_cons_of_neg ha, hnone]
      exact List.nil_prefix

variable {observations : List Observation} {tight loose : Thresholds} {key : String}

/-- Whatever ranks before a template that passes was seen as often, and passes. -/
theorem mem_contenders_of_rankLe {a b : String} (ha : a ∈ contenders observations loose key)
    (hb : b ∈ contenders observations tight key) (h : RankLe observations key a b) :
    a ∈ contenders observations tight key := by
  have hcount : (sightings observations key b).length ≤ (sightings observations key a).length := by
    rcases h with hlt | ⟨heq, -⟩
    · exact Nat.le_of_lt hlt
    · exact Nat.le_of_eq heq.symm
  obtain ⟨hseen, -, -⟩ := mem_contenders.mp ha
  obtain ⟨-, hoccurrences, hpercentage⟩ := mem_contenders.mp hb
  exact mem_contenders.mpr ⟨hseen, Nat.le_trans hoccurrences hcount,
    Nat.le_trans hpercentage (Nat.mul_le_mul_right 100 hcount)⟩

variable (h : tight.Tightens loose)

include h

theorem contenders_subset (observations : List Observation) (key : String) :
    contenders observations tight key ⊆ contenders observations loose key := by
  intro template htemplate
  obtain ⟨hseen, hoccurrences, hpercentage⟩ := mem_contenders.mp htemplate
  exact mem_contenders.mpr ⟨hseen, Nat.le_trans h.minOccurrences hoccurrences,
    Nat.le_trans (Nat.mul_le_mul_right _ h.minPercentage) hpercentage⟩

/-- What passes the stricter thresholds is ranked as it was among all that passed the others. -/
theorem ranked_eq_filter (observations : List Observation) (key : String) :
    ranked observations tight key =
      (ranked observations loose key).filter (· ∈ contenders observations tight key) := by
  have hsorted : (ranked observations loose key).Pairwise (RankLe observations key) :=
    Finset.pairwise_sort ..
  have hperm : (ranked observations tight key).Perm
      ((ranked observations loose key).filter (· ∈ contenders observations tight key)) := by
    refine (List.perm_ext_iff_of_nodup (nodup_ranked ..) ((nodup_ranked ..).filter _)).mpr
      fun template => ?_
    rw [mem_ranked, List.mem_filter, mem_ranked, decide_eq_true_eq]
    exact (and_iff_right_of_imp fun hmem => contenders_subset h observations key hmem).symm
  exact hperm.eq_of_pairwise (fun a b _ _ hab hba => Std.Antisymm.antisymm a b hab hba)
    (Finset.pairwise_sort ..) (hsorted.filter _)

theorem ranked_tightened (observations : List Observation) (key : String) :
    ranked observations tight key <+: ranked observations loose key := by
  rw [ranked_eq_filter h]
  refine prefix_filter (List.Pairwise.imp_of_mem (fun {a b} ha _ hab hb => ?_)
    (Finset.pairwise_sort _ (RankLe observations key)))
  rw [decide_eq_true_eq] at hb ⊢
  exact mem_contenders_of_rankLe (mem_ranked.mp ha) hb hab

/-- Under every key, stricter thresholds publish where the suggestions of the looser ones begin,
each with the same count, percentage and fields. -/
theorem aggregate_tightened (observations : List Observation) (key : String) :
    (aggregate observations tight).filter (·.key = key) <+:
      (aggregate observations loose).filter (·.key = key) := by
  rw [aggregate_eq_standings, aggregate_eq_standings, standings_of_key, standings_of_key]
  refine List.IsPrefix.map _ ?_
  have hranked : (ranked observations tight key).take tight.maxSuggestions <+:
      ranked observations loose key :=
    (List.take_prefix ..).trans (ranked_tightened h observations key)
  have hlength : ((ranked observations tight key).take tight.maxSuggestions).length ≤
      loose.maxSuggestions :=
    Nat.le_trans (List.length_take_le ..) h.maxSuggestions
  exact List.prefix_take_iff.mpr ⟨hranked, hlength⟩

omit h

/-- Three templates under one key, which pass as many thresholds as they were seen times. -/
def competing : List Observation :=
  [⟨"k", "a.cs", "f();", .empty⟩, ⟨"k", "a.cs", "g();", .empty⟩, ⟨"k", "b.cs", "g();", .empty⟩,
    ⟨"k", "b.cs", "h($x$);", .ofList [("x", "c:1")]⟩,
    ⟨"k", "c.cs", "h($x$);", .ofList [("x", "c:2")]⟩,
    ⟨"k", "c.cs", "h($x$);", .ofList [("x", "c:1")]⟩]

theorem aggregate_tightened_competing :
    (⟨2, 2, 20⟩ : Thresholds).Tightens ⟨7, 1, 0⟩ ∧
      (aggregate competing ⟨2, 2, 20⟩).filter (·.key = "k") <+:
        (aggregate competing ⟨7, 1, 0⟩).filter (·.key = "k") :=
  have h : (⟨2, 2, 20⟩ : Thresholds).Tightens ⟨7, 1, 0⟩ := ⟨by decide, by decide, by decide⟩
  ⟨h, aggregate_tightened h competing "k"⟩

end Ranking

end Foresight
