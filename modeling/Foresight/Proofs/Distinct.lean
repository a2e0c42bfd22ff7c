import Mathlib.Data.List.Dedup
import Mathlib.Data.List.Induction

/-!
# The first of each

Going through a list and keeping an item unless one with its label has been kept leaves the first
item of each label (`foldl_keepNew`). Items that come in groups may be thinned out by group first,
if groups of the same kind have the same labels (`foldl_keepNew_flatMap`).
-/

namespace Foresight

section

variable {α β : Type} (label : α → String)

/-- Keeps an item if its label is new. -/
def keepNew (kept : List α) (a : α) : List α :=
  if kept.any (label · == label a) then kept else kept ++ [a]

variable {label} {kept items : List α}

theorem any_label_iff {a : α} :
    kept.any (label · == label a) = true ↔ label a ∈ kept.map label := by
  rw [List.any_eq_true, List.mem_map]
  simp only [beq_iff_eq]

theorem mem_of_mem_foldl_keepNew {a : α} (h : a ∈ items.foldl (keepNew label) kept) :
    a ∈ kept ∨ a ∈ items := by
  induction items generalizing kept with
  | nil => exact Or.inl h
  | cons b rest ih =>
    rcases ih h with hkept | hrest
    · unfold keepNew at hkept
      split at hkept
      · exact Or.inl hkept
      · rw [List.mem_append, List.mem_singleton] at hkept
        refine hkept.imp_right fun hb => ?_
        rw [hb]
        exact List.mem_cons_self
    · exact Or.inr (List.mem_cons_of_mem _ hrest)

/-- In the end there is an item of each label. -/
theorem mem_map_foldl_keepNew {name : String} :
    name ∈ (items.foldl (keepNew label) kept).map label ↔
      name ∈ kept.map label ∨ name ∈ items.map label := by
  induction items generalizing kept with
  | nil => simp
  | cons a rest ih =>
    rw [List.foldl_cons, ih, keepNew]
    split
    · rename_i hold
      have hmem := any_label_iff.mp hold
      rw [List.map_cons, List.mem_cons]
      refine or_congr_right' fun hnot => ?_
      rw [or_iff_right]
      rintro rfl
      exact hnot hmem
    · rw [List.map_append, List.mem_append, List.map_cons, List.mem_cons, or_assoc]
      simp

theorem nodup_map_foldl_keepNew (h : (kept.map label).Nodup) :
    ((items.foldl (keepNew label) kept).map label).Nodup := by
  induction items generalizing kept with
  | nil => exact h
  | cons a rest ih =>
    refine ih ?_
    unfold keepNew
    split
    · exact h
    · rename_i hnew
      rw [any_label_iff] at hnew
      rw [List.map_append]
      refine List.nodup_append.mpr ⟨h, List.nodup_singleton _, fun x hx y hy hxy => ?_⟩
      obtain rfl := List.mem_singleton.mp hy
      exact hnew (hxy ▸ hx)

/-- Items whose labels have all been kept make no difference. -/
theorem foldl_keepNew_of_mem (h : ∀ a ∈ items, label a ∈ kept.map label) :
    items.foldl (keepNew label) kept = kept := by
  induction items with
  | nil => rfl
  | cons a rest ih =>
    obtain ⟨ha, hrest⟩ := List.forall_mem_cons.mp h
    rw [List.foldl_cons, keepNew, if_pos (any_label_iff.mpr ha)]
    exact ih hrest

/-- Items whose labels are all different are all kept. -/
theorem foldl_keepNew_of_nodup (h : ((kept ++ items).map label).Nodup) :
    items.foldl (keepNew label) kept = kept ++ items := by
  induction items generalizing kept with
  | nil => rw [List.foldl_nil, List.append_nil]
  | cons a rest ih =>
    have hnew : ¬ kept.any (label · == label a) = true := by
      rw [any_label_iff]
      intro hmem
      rw [List.map_append, List.nodup_append] at h
      exact h.2.2 _ hmem _ (List.mem_map_of_mem List.mem_cons_self) rfl
    rw [← List.singleton_append, ← List.append_assoc] at h
    rw [List.foldl_cons, keepNew, if_neg hnew, ih h, List.append_assoc, List.singleton_append]

/-- What is kept are the first items of each label. -/
theorem foldl_keepNew (items : List α) :
    items.foldl (keepNew label) [] = items.eraseDupsBy (label · == label ·) := by
  have hloop : ∀ rest seen : List α, List.eraseDupsBy.loop (label · == label ·) rest seen =
      rest.foldl (keepNew label) seen.reverse := by
    intro rest
    induction rest with
    | nil => exact fun _ => rfl
    | cons a rest ih =>
      intro seen
      have hseen : seen.reverse.any (label · == label a) = seen.any (label a == label ·) := by
        rw [List.any_reverse]
        exact congrArg seen.any (funext fun b => BEq.comm)
      rw [List.eraseDupsBy.loop, List.foldl_cons, keepNew, hseen]
      cases seen.any (label a == label ·) with
      | true => exact ih seen
      | false =>
        rw [if_neg Bool.false_ne_true, ← List.reverse_cons]
        exact ih (a :: seen)
  exact (hloop items []).symm

/-- Of groups with the same labels the first one is enough. -/
theorem foldl_keepNew_flatMap {key : β → String} {group : β → List α} {groups : List β}
    (h : ∀ a ∈ groups, ∀ b ∈ groups, key a = key b → (group a).map label = (group b).map label) :
    ((groups.foldl (keepNew key) []).flatMap group).foldl (keepNew label) [] =
      (groups.flatMap group).foldl (keepNew label) [] := by
  induction groups using List.reverseRecOn with
  | nil => rfl
  | append_singleton groups b ih =>
    have hgroups := ih fun a ha c hc =>
      h a (List.mem_append_left _ ha) c (List.mem_append_left _ hc)
    rw [List.foldl_concat, List.flatMap_append, List.foldl_append, ← hgroups, keepNew]
    split
    · rename_i hold
      obtain ⟨a, ha, hkey⟩ := List.mem_map.mp (any_label_iff.mp hold)
      have hgroup : a ∈ groups := (mem_of_mem_foldl_keepNew ha).resolve_left List.not_mem_nil
      have hsame := h a (List.mem_append_left _ hgroup) b
        (List.mem_append_right _ (List.mem_singleton_self b)) hkey
      refine (foldl_keepNew_of_mem fun x hx => mem_map_foldl_keepNew.mpr (Or.inr ?_)).symm
      rw [List.flatMap_singleton] at hx
      have hlabel : label x ∈ (group a).map label := hsame ▸ List.mem_map_of_mem hx
      obtain ⟨y, hy, hxy⟩ := List.mem_map.mp hlabel
      exact List.mem_map.mpr ⟨y, List.mem_flatMap.mpr ⟨a, ha, hy⟩, hxy⟩
    · rw [List.flatMap_append, List.foldl_append]

end

end Foresight
