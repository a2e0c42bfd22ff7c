import Mathlib.Data.List.Induction
import Mathlib.Logic.Relation
import Foresight.Code.Lookup
import Foresight.Proofs.Code.Descent

/-!
# Lookups in a forest

The statement at an offset is the last one of the walk around it, and the one before an offset is
the first of those that end last. What that says of the answer depends on the order of the walk: a
statement is walked before all that hangs below it (`Forest.mem_before_of_below`). So nothing below
the statement at an offset is around the offset too, and nothing above the statement before an
offset ends where it does. Statements that do not hang below each other stand in the walk as their
roots were registered, whatever their spans are.
-/

namespace Foresight.SourceFile

variable {file : SourceFile} {id other : StatementId} {s t : Statement} {offset : Nat}

/-! ## The walk with its statements -/

theorem exists_get?_of_mem_preorder {bound : Nat} {top : StatementId}
    (h : id ∈ file.preorder bound top) : ∃ s, file.get? id = some s := by
  induction bound generalizing top with
  | zero => cases h
  | succ bound ih =>
    rw [preorder] at h
    split at h
    · cases h
    · rename_i s hs
      rcases List.mem_cons.mp h with rfl | h
      · exact ⟨s, hs⟩
      · obtain ⟨child, -, hmem⟩ := List.mem_flatMap.mp h
        exact ih hmem

theorem mem_walked : (id, s) ∈ file.walked ↔ id ∈ file.walk ∧ file.get? id = some s := by
  simp only [walked, List.mem_filterMap, Option.map_eq_some_iff, Prod.mk.injEq]
  constructor
  · rintro ⟨_, hwalk, _, hs, rfl, rfl⟩
    exact ⟨hwalk, hs⟩
  · rintro ⟨hwalk, hs⟩
    exact ⟨id, hwalk, s, hs, rfl, rfl⟩

theorem map_fst_walked (file : SourceFile) : file.walked.map Prod.fst = file.walk := by
  have hself : ∀ id ∈ file.walk, (file.get? id).map (fun _ => id) = some id := fun id hid => by
    obtain ⟨top, -, hmem⟩ := List.mem_flatMap.mp hid
    obtain ⟨s, hs⟩ := exists_get?_of_mem_preorder hmem
    rw [hs, Option.map_some]
  simp only [walked, List.map_filterMap, Option.map_map, Function.comp_def]
  rw [List.filterMap_congr hself, List.filterMap_some]

/-! ## Above and below -/

def Lists (file : SourceFile) (id child : StatementId) : Prop :=
  ∃ s, file.get? id = some s ∧ child ∈ s.kind.childIds

/-- A chain of children goes from `id` to `other`. -/
def Below (file : SourceFile) : (id other : StatementId) → Prop := Relation.TransGen file.Lists

/-- What is listed at some place of a concatenation is listed in one of its parts, behind a part of
what was listed before. -/
theorem exists_split_of_flatMap {α β : Type} {f : α → List β} {items : List α}
    {before after : List β} {b : β} (h : items.flatMap f = before ++ b :: after) :
    ∃ a ∈ items, ∃ inner more, f a = inner ++ b :: more ∧ inner ⊆ before := by
  induction items generalizing before with
  | nil => simp at h
  | cons first rest ih =>
    rw [List.flatMap_cons] at h
    rcases List.append_eq_append_iff.mp h with ⟨between, rfl, hrest⟩ | ⟨between, hfirst, hrest⟩
    · obtain ⟨a, ha, inner, more, hsplit, hsub⟩ := ih hrest
      exact ⟨a, List.mem_cons_of_mem _ ha, inner, more, hsplit,
        fun c hc => List.mem_append_right _ (hsub hc)⟩
    · cases between with
      | nil =>
        obtain ⟨a, ha, inner, more, hsplit, hsub⟩ := @ih [] hrest.symm
        exact ⟨a, List.mem_cons_of_mem _ ha, inner, more, hsplit,
          List.Subset.trans hsub (List.nil_subset _)⟩
      | cons c between =>
        obtain ⟨rfl, -⟩ := List.cons.inj hrest
        exact ⟨first, List.mem_cons_self, before, between, hfirst, List.Subset.refl _⟩

/-- In a pre-order, a statement stands behind one that lists it, unless it is the first. -/
theorem exists_lists_of_preorder {bound : Nat} {top c : StatementId}
    {before after : List StatementId} (h : file.preorder bound top = before ++ c :: after) :
    top = c ∨ ∃ p ∈ before, file.Lists p c := by
  induction bound generalizing top before after with
  | zero => simp [preorder] at h
  | succ bound ih =>
    rw [preorder] at h
    split at h
    · simp at h
    · rename_i u hu
      cases before with
      | nil => exact Or.inl (List.cons.inj h).1
      | cons first before =>
        obtain ⟨rfl, hbelow⟩ := List.cons.inj h
        obtain ⟨d, hd, inner, more, hsplit, hsub⟩ := exists_split_of_flatMap hbelow
        rcases ih hsplit with rfl | ⟨p, hp, hlists⟩
        · exact Or.inr ⟨_, List.mem_cons_self, u, hu, hd⟩
        · exact Or.inr ⟨p, List.mem_cons_of_mem _ (hsub hp), hlists⟩

/-- In the walk, a statement stands behind one that lists it, unless it is a root. -/
theorem exists_lists_of_walk {before after : List StatementId}
    (h : file.walk = before ++ id :: after) :
    id ∈ file.roots ∨ ∃ p ∈ before, file.Lists p id := by
  obtain ⟨top, htop, inner, _, hsplit, hsub⟩ := exists_split_of_flatMap h
  rcases exists_lists_of_preorder hsplit with rfl | ⟨p, hp, hlists⟩
  · exact Or.inl htop
  · exact Or.inr ⟨p, hsub hp, hlists⟩

namespace Forest

variable (hf : Forest file) {before after : List StatementId}

include hf

/-- Only one statement lists another one, so that is the one before it. -/
theorem mem_before_of_lists (h : file.Lists id other)
    (hwalk : file.walk = before ++ other :: after) : id ∈ before := by
  obtain ⟨s, hs, hc⟩ := h
  rcases exists_lists_of_walk hwalk with hroot | ⟨p, hp, t, ht, hc'⟩
  · exact absurd hc (hf.not_mem_childIds_of_root hroot hs)
  · exact hf.parent_unique hs hc ht hc' ▸ hp

/-- A statement is walked before all that hangs below it. -/
theorem mem_before_of_below (h : file.Below id other)
    (hwalk : file.walk = before ++ other :: after) : id ∈ before := by
  induction h generalizing before after with
  | single h => exact hf.mem_before_of_lists h hwalk
  | tail _ h ih =>
    obtain ⟨first, second, rfl⟩ := List.append_of_mem (hf.mem_before_of_lists h hwalk)
    rw [List.append_assoc] at hwalk
    exact List.mem_append_left _ (ih hwalk)

theorem mem_after_of_below (h : file.Below id other) (hother : other ∈ file.walk)
    (hwalk : file.walk = before ++ id :: after) : other ∈ after := by
  have hnodup := hf.nodup_walk
  rw [hwalk] at hnodup hother
  have hnot : id ∉ before := fun hmem =>
    (List.nodup_append.mp hnodup).2.2 id hmem id List.mem_cons_self rfl
  rcases List.mem_append.mp hother with hmem | hmem
  · obtain ⟨first, second, rfl⟩ := List.append_of_mem hmem
    rw [List.append_assoc] at hwalk
    exact absurd (List.mem_append_left _ (hf.mem_before_of_below h hwalk)) hnot
  · rcases List.mem_cons.mp hmem with rfl | hmem
    · exact absurd (hf.mem_before_of_below h hwalk) hnot
    · exact hmem

end Forest

/-! ## The statement at an offset -/

/-- A walked statement around an offset that is no block. -/
structure Around (file : SourceFile) (offset : Nat) (id : StatementId) (s : Statement) : Prop where
  walked : (id, s) ∈ file.walked
  not_block : s.kind.isBlock = false
  contains : s.span.contains offset = true

theorem exists_split_of_getLast?_filter {α : Type} {p : α → Bool} {items : List α} {a : α}
    (h : (items.filter p).getLast? = some a) :
    ∃ before after, items = before ++ a :: after ∧ p a = true ∧ ∀ b ∈ after, p b = false := by
  rw [List.getLast?_eq_head?_reverse, ← List.filter_reverse, List.head?_filter,
    List.find?_eq_some_iff_append] at h
  obtain ⟨ha, after, before, hsplit, hafter⟩ := h
  refine ⟨before.reverse, after.reverse, ?_, ha, fun b hb => ?_⟩
  · rw [← List.reverse_reverse items, hsplit]
    simp
  · simpa using hafter b (List.mem_reverse.mp hb)

/-- Nothing is around the offset, or the answer is the last statement of the walk that is. -/
theorem statementAtOffset?_cases (file : SourceFile) (offset : Nat) :
    (file.statementAtOffset? offset = none ∧ ∀ id s, ¬ file.Around offset id s) ∨
      ∃ id s before after, file.statementAtOffset? offset = some id ∧ file.Around offset id s ∧
        file.walked = before ++ (id, s) :: after ∧
        ∀ other t, (other, t) ∈ after → ¬ file.Around offset other t := by
  have hanswer : file.statementAtOffset? offset = ((file.walked.filter fun entry =>
      !entry.2.kind.isBlock && entry.2.span.contains offset).getLast?).map (·.1) := rfl
  rw [hanswer]
  cases hlast : (file.walked.filter fun entry =>
      !entry.2.kind.isBlock && entry.2.span.contains offset).getLast? with
  | none =>
    refine Or.inl ⟨rfl, fun id s h => ?_⟩
    rw [List.getLast?_eq_none_iff, List.filter_eq_nil_iff] at hlast
    simpa [h.not_block, h.contains] using hlast _ h.walked
  | some entry =>
    obtain ⟨id, s⟩ := entry
    obtain ⟨before, after, hsplit, hhit, hafter⟩ := exists_split_of_getLast?_filter hlast
    obtain ⟨hblock, hcontains⟩ : s.kind.isBlock = false ∧ s.span.contains offset = true := by
      simpa using hhit
    have hmem : (id, s) ∈ file.walked := hsplit ▸ List.mem_append_right _ List.mem_cons_self
    refine Or.inr ⟨id, s, before, after, rfl, ⟨hmem, hblock, hcontains⟩, hsplit, ?_⟩
    intro other t hother h
    simpa [h.not_block, h.contains] using hafter _ hother

theorem statementAtOffset?_eq_none (h : file.statementAtOffset? offset = none) :
    ∀ id s, ¬ file.Around offset id s := by
  rcases file.statementAtOffset?_cases offset with ⟨-, hnone⟩ | ⟨id, s, _, _, hsome, -⟩
  · exact hnone
  · cases h.symm.trans hsome

/-! ## The statement before an offset -/

/-- A walked statement of the author's that ends at or before an offset and is no block. -/
structure EndsBy (file : SourceFile) (offset : Nat) (id : StatementId) (s : Statement) : Prop where
  walked : (id, s) ∈ file.walked
  not_block : s.kind.isBlock = false
  written : s.synthesized = none
  stop_le : s.span.stop ≤ offset

theorem isAnchor_iff : isAnchor s = true ↔ s.kind.isBlock = false ∧ s.synthesized = none := by
  simp [isAnchor]

theorem EndsBy.anchor (h : file.EndsBy offset id s) : isAnchor s = true :=
  isAnchor_iff.mpr ⟨h.not_block, h.written⟩

/-- The fold stops at the first of the entries that end last. -/
theorem foldl_laterEnd_cases (entries : List (StatementId × Statement)) :
    (entries.foldl laterEnd none = none ∧ entries = []) ∨
      ∃ e before after, entries.foldl laterEnd none = some e ∧ entries = before ++ e :: after ∧
        (∀ b ∈ before, b.2.span.stop < e.2.span.stop) ∧
        ∀ a ∈ after, a.2.span.stop ≤ e.2.span.stop := by
  induction entries using List.reverseRecOn with
  | nil => exact Or.inl ⟨rfl, rfl⟩
  | append_singleton entries last ih =>
    rw [List.foldl_append, List.foldl_cons, List.foldl_nil]
    rcases ih with ⟨hnone, rfl⟩ | ⟨e, before, after, hsome, hsplit, hbefore, hafter⟩
    · exact Or.inr ⟨last, [], [], rfl, rfl, by simp, by simp⟩
    · rw [hsome]
      have hle : ∀ b ∈ entries, b.2.span.stop ≤ e.2.span.stop := fun b hb => by
        rw [hsplit, List.mem_append, List.mem_cons] at hb
        rcases hb with hb | rfl | hb
        · exact Nat.le_of_lt (hbefore b hb)
        · exact Nat.le_refl _
        · exact hafter b hb
      by_cases hlater : e.2.span.stop < last.2.span.stop
      · refine Or.inr ⟨last, entries, [], if_pos hlater, rfl, fun b hb => ?_, by simp⟩
        exact Nat.lt_of_le_of_lt (hle b hb) hlater
      · refine Or.inr ⟨e, before, after ++ [last], if_neg hlater, by simp [hsplit], hbefore,
          fun a ha => ?_⟩
        rcases List.mem_append.mp ha with ha | ha
        · exact hafter a ha
        · obtain rfl := List.mem_singleton.mp ha
          exact Nat.le_of_not_lt hlater

/-- Nothing ends by the offset, or the answer is the first of those that end last. -/
theorem statementBeforeOffset?_cases (file : SourceFile) (offset : Nat) :
    (file.statementBeforeOffset? offset = none ∧ ∀ id s, ¬ file.EndsBy offset id s) ∨
      ∃ id s before after, file.statementBeforeOffset? offset = some id ∧ file.EndsBy offset id s ∧
        file.walked = before ++ (id, s) :: after ∧
        (∀ other t, (other, t) ∈ before → file.EndsBy offset other t →
          t.span.stop < s.span.stop) ∧
        ∀ other t, (other, t) ∈ after → file.EndsBy offset other t →
          t.span.stop ≤ s.span.stop := by
  have hanswer : file.statementBeforeOffset? offset = ((file.walked.filter fun entry =>
      isAnchor entry.2 && entry.2.span.stop ≤ offset).foldl laterEnd none).map (·.1) := rfl
  rw [hanswer]
  rcases foldl_laterEnd_cases (file.walked.filter fun entry =>
      isAnchor entry.2 && entry.2.span.stop ≤ offset) with ⟨hnone, hempty⟩ | ⟨e, before, after,
    hsome, hsplit, hbefore, hafter⟩
  · refine Or.inl ⟨by rw [hnone]; rfl, fun id s h => ?_⟩
    rw [List.filter_eq_nil_iff] at hempty
    simpa [h.anchor, h.stop_le] using hempty _ h.walked
  · obtain ⟨id, s⟩ := e
    obtain ⟨first, rest, hwalked, rfl, hrest⟩ := List.filter_eq_append_iff.mp hsplit
    obtain ⟨skipped, second, rfl, hskipped, hhit, rfl⟩ := List.filter_eq_cons_iff.mp hrest
    obtain ⟨hanchor, hstop⟩ : isAnchor s = true ∧ s.span.stop ≤ offset := by simpa using hhit
    have hmem : (id, s) ∈ file.walked := by
      rw [hwalked]
      simp
    obtain ⟨hblock, hwritten⟩ := isAnchor_iff.mp hanchor
    refine Or.inr ⟨id, s, first ++ skipped, second, by rw [hsome]; rfl,
      ⟨hmem, hblock, hwritten, hstop⟩, by rw [hwalked, List.append_assoc], ?_, ?_⟩
    · intro other t hother h
      rcases List.mem_append.mp hother with hother | hother
      · exact hbefore _ (List.mem_filter.mpr ⟨hother, by simp [h.anchor, h.stop_le]⟩)
      · exact absurd (by simp [h.anchor, h.stop_le]) (hskipped _ hother)
    · intro other t hother h
      exact hafter _ (List.mem_filter.mpr ⟨hother, by simp [h.anchor, h.stop_le]⟩)

theorem statementBeforeOffset?_eq_none (h : file.statementBeforeOffset? offset = none) :
    ∀ id s, ¬ file.EndsBy offset id s := by
  rcases file.statementBeforeOffset?_cases offset with ⟨-, hnone⟩ | ⟨id, s, _, _, hsome, -⟩
  · exact hnone
  · cases h.symm.trans hsome

/-! ## In a forest -/

theorem walk_eq_of_walked {before after : List (StatementId × Statement)}
    (h : file.walked = before ++ (id, s) :: after) :
    file.walk = before.map Prod.fst ++ id :: after.map Prod.fst := by
  rw [← map_fst_walked, h, List.map_append, List.map_cons]

/-- A statement of the walk is where its id is. -/
theorem mem_of_mem_map_fst {entries : List (StatementId × Statement)} (hsub : entries ⊆ file.walked)
    (hs : (id, s) ∈ file.walked) (h : id ∈ entries.map Prod.fst) : (id, s) ∈ entries := by
  obtain ⟨⟨_, t⟩, hmem, rfl⟩ := List.mem_map.mp h
  obtain rfl := Option.some.inj ((mem_walked.mp (hsub hmem)).2.symm.trans (mem_walked.mp hs).2)
  exact hmem

namespace Forest

variable (hf : Forest file)

include hf

/-- Nothing that hangs below the statement at an offset is around the offset. -/
theorem around_statementAtOffset? (h : file.statementAtOffset? offset = some id) :
    ∃ s, file.Around offset id s ∧
      ∀ other t, file.Around offset other t → ¬ file.Below id other := by
  rcases file.statementAtOffset?_cases offset with ⟨hnone, -⟩ |
    ⟨id', s, before, after, hsome, hid, hsplit, hafter⟩
  · rw [hnone] at h
    cases h
  · obtain rfl := Option.some.inj (hsome.symm.trans h)
    refine ⟨s, hid, fun other t hother hbelow => hafter other t ?_ hother⟩
    have hmem := hf.mem_after_of_below hbelow (mem_walked.mp hother.walked).1
      (walk_eq_of_walked hsplit)
    refine mem_of_mem_map_fst (fun e he => ?_) hother.walked hmem
    exact hsplit ▸ List.mem_append_right _ (List.mem_cons_of_mem _ he)

/-- The statement before an offset ends last, and nothing that it hangs below ends where it does. -/
theorem endsBy_statementBeforeOffset? (h : file.statementBeforeOffset? offset = some id) :
    ∃ s, file.EndsBy offset id s ∧ ∀ other t, file.EndsBy offset other t →
      t.span.stop ≤ s.span.stop ∧ (t.span.stop = s.span.stop → ¬ file.Below other id) := by
  rcases file.statementBeforeOffset?_cases offset with ⟨hnone, -⟩ |
    ⟨id', s, before, after, hsome, hid, hsplit, hbefore, hafter⟩
  · rw [hnone] at h
    cases h
  · obtain rfl := Option.some.inj (hsome.symm.trans h)
    refine ⟨s, hid, fun other t hother => ⟨?_, fun hstop hbelow => ?_⟩⟩
    · have hmem := hother.walked
      rw [hsplit, List.mem_append, List.mem_cons] at hmem
      rcases hmem with hmem | heq | hmem
      · exact Nat.le_of_lt (hbefore other t hmem hother)
      · obtain ⟨rfl, rfl⟩ := Prod.mk.inj heq
        exact Nat.le_refl _
      · exact hafter other t hmem hother
    · have hmem := hf.mem_before_of_below hbelow (walk_eq_of_walked hsplit)
      have hentry := mem_of_mem_map_fst (fun e he => hsplit ▸ List.mem_append_left _ he)
        hother.walked hmem
      exact Nat.ne_of_lt (hbefore other t hentry hother) hstop

end Forest

end Foresight.SourceFile
