import Mathlib.Data.Finset.Sort
import Foresight.Proofs.Text.Encoding
import Foresight.Ranking.Aggregate

/-!
# Grouping

Grouping sorts and then cuts where the label changes. What comes out is the grouping that one would
write down without sorting at all (`groupBy_eq`): for each label, in ascending order of its bytes,
the items with that label in the order in which they came.

The order of the items inside a group rests on the sorting being stable, which is used in one form
throughout: a class of items that are all as good as each other keeps its order
(`filter_mergeSort`).
-/

namespace Foresight

namespace Text

/-- The order of texts by their bytes. -/
def ByteLe (a b : String) : Prop := a.toUTF8.toList ≤ b.toUTF8.toList

theorem byteLe_iff {a b : String} : ByteLe a b ↔ a ≤ b := toUTF8_le_iff

instance : DecidableRel ByteLe := fun a b => decidable_of_iff (a ≤ b) byteLe_iff.symm

instance : IsTrans String ByteLe :=
  ⟨fun _ _ _ h h' => byteLe_iff.mpr (String.le_trans (byteLe_iff.mp h) (byteLe_iff.mp h'))⟩

instance : Std.Antisymm ByteLe :=
  ⟨fun _ _ h h' => String.le_antisymm (byteLe_iff.mp h) (byteLe_iff.mp h')⟩

instance : Std.Total ByteLe :=
  ⟨fun a b => (String.le_total a b).imp byteLe_iff.mpr byteLe_iff.mpr⟩

end Text

namespace Ranking

open Text (ByteLe byteLe_iff)

variable {α : Type}

/-- A stable sort keeps the order inside any class of items of which none has to come first. -/
theorem filter_mergeSort {le : α → α → Bool} (htrans : ∀ a b c, le a b → le b c → le a c)
    (htotal : ∀ a b, le a b || le b a) {p : α → Bool} (hp : ∀ a b, p a → p b → le a b)
    (items : List α) : (items.mergeSort le).filter p = items.filter p := by
  have hsorted : (items.filter p).Pairwise (fun a b => le a b) :=
    List.pairwise_of_forall_mem_list fun a ha b hb =>
      hp a b (List.mem_filter.mp ha).2 (List.mem_filter.mp hb).2
  have hsub : (items.filter p).Sublist ((items.mergeSort le).filter p) := by
    simpa only [List.filter_filter, Bool.and_self] using
      (List.sublist_mergeSort htrans htotal hsorted List.filter_sublist).filter p
  have hlen := ((List.mergeSort_perm items le).filter p).length_eq
  exact (hsub.eq_of_length hlen.symm).symm

section Labels

variable (label : α → String)

theorem label_trans (a b c : α) (h : decide (label a ≤ label b) = true)
    (h' : decide (label b ≤ label c) = true) : decide (label a ≤ label c) = true :=
  decide_eq_true (String.le_trans (of_decide_eq_true h) (of_decide_eq_true h'))

theorem label_total (a b : α) :
    (decide (label a ≤ label b) || decide (label b ≤ label a)) = true := by
  rcases String.le_total (label a) (label b) with h | h <;> simp [h]

theorem sortBy_perm (items : List α) : (sortBy label items).Perm items :=
  List.mergeSort_perm items _

theorem pairwise_sortBy (items : List α) :
    (sortBy label items).Pairwise fun a b => label a ≤ label b :=
  (List.pairwise_mergeSort (label_trans label) (label_total label) items).imp of_decide_eq_true

theorem filter_sortBy (l : String) (items : List α) :
    (sortBy label items).filter (label · = l) = items.filter (label · = l) :=
  filter_mergeSort (label_trans label) (label_total label)
    (fun a b ha hb => by simp_all) items

/-! ## Runs -/

theorem flatten_runsBy (items : List α) : (runsBy label items).flatten = items := by
  induction items with
  | nil => rfl
  | cons a rest ih =>
    unfold runsBy
    split
    · rename_i h; rw [h] at ih; simp [← ih]
    · rename_i h; rw [h] at ih; simp [← ih]
    · rename_i h
      rw [h] at ih
      split <;> simp [← ih]

/-- An item with a lower label changes nothing in the classes of some labels. -/
theorem classes_cons {a : α} {rest : List α} {labels : List String}
    (h : ∀ l ∈ labels, label a < l) :
    (labels.map fun l => (a :: rest).filter (label · = l)) =
      labels.map fun l => rest.filter (label · = l) := by
  refine List.map_congr_left fun l hl => ?_
  rw [List.filter_cons_of_neg]
  simpa using String.ne_of_lt (h l hl)

/-- The runs of a sorted list are its classes by label, in ascending order of the labels. -/
theorem exists_labels_runsBy {items : List α} (h : items.Pairwise fun a b => label a ≤ label b) :
    ∃ labels : List String, labels.Pairwise (· < ·) ∧ (∀ l, l ∈ labels ↔ l ∈ items.map label) ∧
      runsBy label items = labels.map fun l => items.filter (label · = l) := by
  induction items with
  | nil => exact ⟨[], List.Pairwise.nil, by simp, rfl⟩
  | cons a rest ih =>
    obtain ⟨hfirst, hrest⟩ := List.pairwise_cons.mp h
    obtain ⟨labels, hlabels, hmem, hruns⟩ := ih hrest
    cases labels with
    | nil =>
      have hnil : rest = [] := by
        rcases rest with _ | ⟨b, rest⟩
        · rfl
        · exact absurd ((hmem (label b)).mpr (by simp)) (by simp)
      subst hnil
      exact ⟨[label a], List.pairwise_singleton .., by simp, by simp [runsBy]⟩
    | cons l more =>
      obtain ⟨hl, hmore⟩ := List.pairwise_cons.mp hlabels
      -- The first class of the rest is not empty, so its label is the one to compare with.
      obtain ⟨b, hb, hbl⟩ := List.mem_map.mp ((hmem l).mp List.mem_cons_self)
      have hclass : b ∈ rest.filter (label · = l) :=
        List.mem_filter.mpr ⟨hb, by simpa using hbl⟩
      obtain ⟨c, run, hrun⟩ := List.exists_cons_of_ne_nil (List.ne_nil_of_mem hclass)
      have hcl : label c = l := by
        have : c ∈ rest.filter (label · = l) := hrun ▸ List.mem_cons_self
        simpa using (List.mem_filter.mp this).2
      have hal : label a ≤ l := hbl ▸ hfirst b hb
      have hcut : runsBy label (a :: rest) =
          if label a = l then (a :: c :: run) :: more.map fun l => rest.filter (label · = l)
          else [a] :: (c :: run) :: more.map fun l => rest.filter (label · = l) := by
        rw [runsBy, hruns, List.map_cons, hrun]
        simp only [hcl]
      by_cases heq : label a = l
      · refine ⟨l :: more, hlabels, fun m => ?_, ?_⟩
        · rw [hmem, List.map_cons, List.mem_cons]
          exact ⟨Or.inr, fun h => h.elim (fun hm => hm ▸ heq ▸ (hmem l).mp List.mem_cons_self) id⟩
        · rw [hcut, if_pos heq, List.map_cons, classes_cons label fun m hm => heq ▸ hl m hm,
            List.filter_cons_of_pos (by simpa using heq), hrun]
      · have hlt : label a < l := lt_of_le_of_ne hal heq
        have hlow : ∀ m ∈ l :: more, label a < m := fun m hm =>
          (List.mem_cons.mp hm).elim (fun h => h ▸ hlt) fun h => String.lt_trans hlt (hl m h)
        refine ⟨label a :: l :: more, List.pairwise_cons.mpr ⟨hlow, hlabels⟩, fun m => ?_, ?_⟩
        · rw [List.mem_cons, hmem, List.map_cons, List.mem_cons]
        · -- Nothing in the rest has the label of the first item.
          have hnone : rest.filter (label · = label a) = [] := by
            refine List.filter_eq_nil_iff.mpr fun d hd => ?_
            have hlabel : label d ∈ l :: more := (hmem _).mpr (List.mem_map_of_mem hd)
            simpa using (String.ne_of_lt (hlow _ hlabel)).symm
          rw [hcut, if_neg heq, List.map_cons, classes_cons label hlow, List.map_cons, hrun,
            List.filter_cons_of_pos (by simp), hnone]

/-! ## Groups -/

/-- The labels that occur, in ascending order. -/
def labelsOf (items : List α) : List String := (items.map label).toFinset.sort ByteLe

theorem mem_labelsOf {items : List α} {l : String} :
    l ∈ labelsOf label items ↔ ∃ a ∈ items, label a = l := by
  simp [labelsOf]

theorem pairwise_labelsOf (items : List α) : (labelsOf label items).Pairwise (· < ·) := by
  have hle := Finset.pairwise_sort (items.map label).toFinset ByteLe
  have hne : (labelsOf label items).Nodup := Finset.sort_nodup ..
  exact (hle.and hne).imp fun ⟨h, h'⟩ => lt_of_le_of_ne (byteLe_iff.mp h) h'

theorem eq_labelsOf {items : List α} {labels : List String} (hlt : labels.Pairwise (· < ·))
    (hmem : ∀ l, l ∈ labels ↔ l ∈ items.map label) : labels = labelsOf label items := by
  have hsorted := pairwise_labelsOf label items
  have hperm : labels.Perm (labelsOf label items) := by
    refine (List.perm_ext_iff_of_nodup (hlt.imp String.ne_of_lt)
      (hsorted.imp String.ne_of_lt)).mpr fun l => ?_
    rw [hmem, mem_labelsOf, List.mem_map]
  exact hperm.eq_of_pairwise (fun a b _ _ h h' => absurd h' (String.lt_asymm h)) hlt hsorted

/-- Grouping gives the classes by label, each in the order in which its items came. -/
theorem groupBy_eq (items : List α) :
    groupBy label items = (labelsOf label items).map fun l => items.filter (label · = l) := by
  obtain ⟨labels, hlt, hmem, hruns⟩ := exists_labels_runsBy label (pairwise_sortBy label items)
  have hlabels : labels = labelsOf label items := eq_labelsOf label hlt fun l => by
    rw [hmem, ((sortBy_perm label items).map label).mem_iff]
  rw [groupBy, hruns, hlabels]
  exact List.map_congr_left fun l _ => filter_sortBy label l items

/-- Nothing is lost or gained by grouping. -/
theorem length_classes (items : List α) :
    ((labelsOf label items).flatMap fun l => items.filter (label · = l)).length =
      items.length := by
  have hflat : (groupBy label items).flatten.length = items.length := by
    rw [groupBy, flatten_runsBy, (sortBy_perm label items).length_eq]
  rwa [groupBy_eq] at hflat

end Labels

end Ranking

end Foresight
