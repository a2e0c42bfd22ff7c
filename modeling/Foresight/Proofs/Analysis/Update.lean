import Foresight.Analysis
import Foresight.Proofs.Distinct
import Foresight.Proofs.Template.Plain
import Mathlib.Data.List.Perm.Basic

/-!
# An update and a rebuild

What an update keeps is what a rebuild mines of the files that have not changed, and what it mines
is what a rebuild mines of those that have. Only the order differs (`updated_perm`).
-/

namespace Foresight

namespace Analysis

variable {p : Pipeline} {l before after : Listing} {changed fileIds : List String}

/-- Two states of a solution agree on a file: both have it or neither does, and it loads alike. -/
structure Agree (before after : Listing) (fileId : String) : Prop where
  listed : fileId ∈ before.fileIds ↔ fileId ∈ after.fileIds
  loaded : fileId ∈ before.fileIds → (before.load fileId).toOption = (after.load fileId).toOption

theorem distinct_eq_foldl (fileIds : List String) :
    distinct fileIds = fileIds.foldl (keepNew id) [] := by
  have hcontains : (fun (seen : List String) fileId =>
      if seen.contains fileId then seen else seen ++ [fileId]) = keepNew id := by
    funext seen fileId
    have hany : seen.contains fileId = seen.any (id · == id fileId) := by
      rw [List.contains_eq_any_beq]
      exact congrArg seen.any (funext fun other => BEq.comm)
    rw [hany, keepNew]
  rw [distinct, hcontains]

/-- The first occurrences are what is left when later ones are erased. -/
theorem distinct_eq_eraseDups (fileIds : List String) : distinct fileIds = fileIds.eraseDups :=
  (distinct_eq_foldl fileIds).trans (foldl_keepNew fileIds)

theorem mem_distinct {fileId : String} : fileId ∈ distinct fileIds ↔ fileId ∈ fileIds := by
  rw [distinct_eq_eraseDups, List.mem_eraseDups]

theorem nodup_distinct (fileIds : List String) : (distinct fileIds).Nodup := by
  have hnodup : ((fileIds.foldl (keepNew id) []).map id).Nodup :=
    nodup_map_foldl_keepNew List.nodup_nil
  rwa [List.map_id, ← distinct_eq_foldl] at hnodup

theorem mem_toMine {fileId : String} :
    fileId ∈ toMine l changed ↔ fileId ∈ changed ∧ fileId ∈ l.fileIds := by
  rw [toMine, List.mem_filter, mem_distinct, List.contains_iff_mem]

/-- What a file makes of a load, if it loads. -/
theorem mine_eq (p : Pipeline) (l : Listing) (fileId : String) :
    mine p l fileId = ((l.load fileId).toOption.map (p.analyzeFile · fileId)).getD [] := by
  unfold mine
  cases l.load fileId with
  | error failure => rfl
  | ok file => rfl

theorem of_mem_mine {fileId : String} {o : Observation} (h : o ∈ mine p l fileId) :
    o.file = fileId ∧ Ranking.IsPlain o.fields := by
  unfold mine at h
  split at h
  · exact Pipeline.of_mem_analyzeFile h
  · exact absurd h List.not_mem_nil

theorem isPlain_mined {o : Observation} (h : o ∈ mined p l fileIds) :
    Ranking.IsPlain o.fields := by
  obtain ⟨fileId, -, hmine⟩ := List.mem_flatMap.mp h
  exact (of_mem_mine hmine).2

/-- Of what some files make, that of the unchanged ones is retained. -/
theorem retainUnchanged_mined (p : Pipeline) (l : Listing) (changed fileIds : List String) :
    Corpus.retainUnchanged changed (mined p l fileIds) =
      mined p l (fileIds.filter fun fileId => !changed.contains fileId) := by
  unfold Corpus.retainUnchanged mined
  induction fileIds with
  | nil => rfl
  | cons fileId rest ih =>
    rw [List.flatMap_cons, List.filter_append, ih, List.filter_cons]
    split
    · rename_i hkept
      rw [List.flatMap_cons, List.filter_eq_self.mpr fun o ho => by
        rw [(of_mem_mine ho).1]
        exact hkept]
    · rename_i hdropped
      rw [List.filter_eq_nil_iff.mpr fun o ho => by
        rw [(of_mem_mine ho).1]
        exact hdropped, List.nil_append]

theorem mined_congr (h : ∀ fileId ∈ fileIds,
    (before.load fileId).toOption = (after.load fileId).toOption) :
    mined p before fileIds = mined p after fileIds :=
  List.flatMap_congr fun fileId hfile => by
    rw [mine_eq, mine_eq, h fileId hfile]

/-- The unchanged files from before and the changed ones are all files, each once. -/
theorem files_perm (hbefore : before.fileIds.Nodup) (hafter : after.fileIds.Nodup)
    (hagree : ∀ fileId, fileId ∉ changed → Agree before after fileId) :
    (before.fileIds.filter (fun fileId => !changed.contains fileId) ++
      toMine after changed).Perm after.fileIds := by
  have hmem : ∀ fileId, fileId ∈ before.fileIds.filter (fun fileId => !changed.contains fileId) ↔
      fileId ∈ before.fileIds ∧ fileId ∉ changed := fun fileId => by
    simp [List.mem_filter]
  have hnodup : (before.fileIds.filter (fun fileId => !changed.contains fileId) ++
      toMine after changed).Nodup := by
    refine List.nodup_append.mpr
      ⟨hbefore.filter _, (nodup_distinct changed).filter _, ?_⟩
    rintro a ha b hb rfl
    exact ((hmem a).mp ha).2 (mem_toMine.mp hb).1
  refine (List.perm_ext_iff_of_nodup hnodup hafter).mpr fun fileId => ?_
  rw [List.mem_append, hmem, mem_toMine]
  by_cases hchanged : fileId ∈ changed
  · simp [hchanged]
  · simp [hchanged, (hagree fileId hchanged).listed]

/-- An update makes the corpus that a rebuild makes, up to the order. -/
theorem updated_perm (hbefore : before.fileIds.Nodup) (hafter : after.fileIds.Nodup)
    (hagree : ∀ fileId, fileId ∉ changed → Agree before after fileId) :
    (updated p after changed (mined p before before.fileIds)).Perm
      (mined p after after.fileIds) := by
  have hkept : mined p before (before.fileIds.filter fun fileId => !changed.contains fileId) =
      mined p after (before.fileIds.filter fun fileId => !changed.contains fileId) := by
    refine mined_congr fun fileId hfile => ?_
    obtain ⟨hlisted, hunchanged⟩ := List.mem_filter.mp hfile
    exact (hagree fileId (by simpa using hunchanged)).loaded hlisted
  have happend : ∀ kept more : List String, mined p after kept ++ mined p after more =
      mined p after (kept ++ more) := fun kept more => List.flatMap_append.symm
  rw [updated, retainUnchanged_mined, hkept, happend]
  exact (files_perm hbefore hafter hagree).flatMap_right _

end Analysis

end Foresight
