import Foresight.Proofs.Ranking.Merging
import Foresight.Proofs.Records.Fields

/-!
# What is published can be written

Merging and publishing bring no bars into the fields of suggestions, and no number is larger than
the number of observations or a hundred.
-/

namespace Foresight.Ranking

open Records

variable {observations : List Observation}

theorem not_mem_constants {value choices : String} {c : Char} (h : c ∉ value.toList)
    (hconstants : constants? value = some choices) : c ∉ choices.toList := by
  rw [constants?_eq_some hconstants, String.toList_append, List.mem_append, not_or] at h
  exact h.2

theorem not_mem_mergeValue {a b : String} (ha : '|' ∉ a.toList) (hb : '|' ∉ b.toList) :
    '|' ∉ (mergeValue a b).toList := by
  unfold mergeValue
  split
  · rename_i choice _ hchoice
    split
    · exact ha
    · rw [String.toList_append, String.toList_append, List.mem_append, List.mem_append, not_or,
        not_or]
      exact ⟨⟨ha, by decide⟩, not_mem_constants hb hchoice⟩
  · decide
  · split
    · exact ha
    · decide

theorem isBarFree_mergedFields (h : ∀ o ∈ observations, IsBarFree o.fields) :
    IsBarFree (mergedFields observations) :=
  all_mergedFields (P := fun name value => '|' ∉ name.toList ∧ '|' ∉ value.toList)
    (fun ha hb => ⟨ha.1, not_mem_mergeValue ha.2 hb.2⟩) h

theorem not_mem_publishValue {value : String} (h : '|' ∉ value.toList) :
    '|' ∉ (publishValue value).toList := by
  unfold publishValue
  split
  · decide
  · split
    · rename_i choices hchoices
      rw [String.toList_append, String.toList_append, List.mem_append, List.mem_append, not_or,
        not_or]
      exact ⟨⟨by decide, not_mem_constants h hchoices⟩, by decide⟩
    · exact h

/-- What is published of observations can be written, and is read back as it is. -/
theorem writable_aggregate (h : ∀ o ∈ observations, IsBarFree o.fields)
    (hlength : observations.length < UInt64.size) {thresholds : Thresholds} {s : Suggestion}
    (hs : s ∈ aggregate observations thresholds) :
    IsBarFree s.fields ∧ s.count < UInt64.size ∧ s.percentage < UInt64.size := by
  rw [aggregate_eq_standings] at hs
  have hpercentage := (percentage_bounds hs).2
  obtain ⟨key, -, hs⟩ := List.mem_flatMap.mp hs
  obtain ⟨template, -, rfl⟩ := List.mem_map.mp hs
  refine ⟨?_, ?_, Nat.lt_of_le_of_lt hpercentage (by decide)⟩
  · have hmerged : IsBarFree (mergedFields (sightings observations key template)) :=
      isBarFree_mergedFields fun o ho => h o (mem_sightings.mp ho).1
    intro published hpublished
    obtain ⟨merged, hmem, rfl⟩ := List.mem_map.mp hpublished
    obtain ⟨hname, hvalue⟩ := hmerged merged hmem
    exact ⟨hname, not_mem_publishValue hvalue⟩
  · have hcount : (sightings observations key template).length ≤ observations.length :=
      (List.length_filter_le ..).trans (List.length_filter_le ..)
    exact Nat.lt_of_le_of_lt hcount hlength

end Foresight.Ranking
