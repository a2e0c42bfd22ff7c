import Mathlib.Data.List.Nodup
import Mathlib.Data.Option.Basic
import Mathlib.Data.Prod.Basic
import Foresight.Table

/-!
# Tables and their entries

A table is determined by its entries, and a look-up is a question about them.
-/

namespace Foresight

namespace Table

variable {α : Type}

theorem put_of_not_mem {name : String} {entries : List (String × α)}
    (h : name ∉ entries.map Prod.fst) (value : α) :
    put name value entries = entries ++ [(name, value)] := by
  induction entries with
  | nil => rfl
  | cons entry rest ih =>
    rw [List.map_cons, List.mem_cons, not_or] at h
    rw [put, if_neg (Ne.symm h.1), ih h.2, List.cons_append]

theorem entries_foldl_insert {t : Table α} {pairs : List (String × α)}
    (h : ((t.entries ++ pairs).map Prod.fst).Nodup) :
    (pairs.foldl (fun t pair => t.insert pair.1 pair.2) t).entries = t.entries ++ pairs := by
  induction pairs generalizing t with
  | nil => rw [List.foldl_nil, List.append_nil]
  | cons pair rest ih =>
    have hentries : (t.insert pair.1 pair.2).entries = t.entries ++ [pair] := by
      refine put_of_not_mem (fun hmem => ?_) pair.2
      rw [List.map_append, List.nodup_append] at h
      exact h.2.2 _ hmem _ (List.mem_map_of_mem List.mem_cons_self) rfl
    rw [List.foldl_cons, ih, hentries, List.append_assoc, List.singleton_append]
    rwa [hentries, List.append_assoc, List.singleton_append]

theorem entries_ofList {pairs : List (String × α)} (h : (pairs.map Prod.fst).Nodup) :
    (ofList pairs).entries = pairs :=
  entries_foldl_insert h

/-- A table is made again from its entries. -/
theorem ofList_entries (t : Table α) : ofList t.entries = t :=
  ext (entries_ofList t.nodup)

/-! ## Look-up -/

theorem lookup_of_mem {κ : Type} [BEq κ] [LawfulBEq κ] {entries : List (κ × α)}
    (h : (entries.map Prod.fst).Nodup) {entry : κ × α} (hmem : entry ∈ entries) :
    entries.lookup entry.1 = some entry.2 := by
  induction entries with
  | nil => cases hmem
  | cons first rest ih =>
    obtain ⟨hfirst, hrest⟩ := List.nodup_cons.mp h
    rcases List.mem_cons.mp hmem with rfl | hmem
    · rw [List.lookup_cons, beq_self_eq_true]
    · have hne : entry.1 ≠ first.1 := fun heq => hfirst (heq ▸ List.mem_map_of_mem hmem)
      rw [List.lookup_cons, beq_false_of_ne hne, ih hrest hmem]

theorem lookup_of_not_mem {entries : List (String × α)} {name : String}
    (h : name ∉ entries.map Prod.fst) : entries.lookup name = none := by
  induction entries with
  | nil => rfl
  | cons first rest ih =>
    rw [List.map_cons, List.mem_cons, not_or] at h
    rw [List.lookup_cons, beq_false_of_ne h.1, ih h.2]

theorem mem_of_lookup {κ : Type} [BEq κ] [LawfulBEq κ] {entries : List (κ × α)} {key : κ}
    {value : α} (h : entries.lookup key = some value) : (key, value) ∈ entries := by
  obtain ⟨before, after, rfl, -⟩ := List.lookup_eq_some_iff.mp h
  exact List.mem_append_right _ List.mem_cons_self

variable (t : Table α)

theorem get?_eq_some_iff {name : String} {value : α} :
    t.get? name = some value ↔ (name, value) ∈ t.entries :=
  ⟨mem_of_lookup, fun hmem => lookup_of_mem t.nodup hmem⟩

theorem get?_eq_none_iff {name : String} : t.get? name = none ↔ name ∉ t.names := by
  constructor
  · intro h hmem
    obtain ⟨entry, hentry, rfl⟩ := List.mem_map.mp hmem
    exact absurd ((lookup_of_mem t.nodup hentry).symm.trans h) nofun
  · exact fun hmem => lookup_of_not_mem hmem

variable {t} in
/-- A table is determined by its names, in their order, and what each of them says. -/
theorem ext_get? {s : Table α} (hnames : s.names = t.names)
    (hget : ∀ name, s.get? name = t.get? name) : s = t := by
  have hentries : ∀ t : Table α,
      t.entries.map (Prod.map id some) = t.names.map fun name => (name, t.get? name) := by
    intro t
    rw [names, List.map_map]
    refine List.map_congr_left fun entry hentry => ?_
    rw [Function.comp_apply, t.get?_eq_some_iff.mpr hentry]
    rfl
  refine ext (List.map_injective_iff.mpr (Function.injective_id.prodMap
    (Option.some_injective _)) ?_)
  rw [hentries, hentries, hnames, funext hget]

theorem mem_names_insert {name other : String} {value : α} :
    other ∈ (t.insert name value).names ↔ other = name ∨ other ∈ t.names := by
  unfold names insert
  rw [map_fst_put]
  split
  · rename_i hmem
    exact ⟨.inr, fun h => h.elim (fun heq => heq ▸ hmem) id⟩
  · rw [List.mem_append, List.mem_singleton, or_comm]

theorem mem_names_absorb {other : Table α} {name : String} :
    name ∈ (t.absorb other).names ↔ name ∈ t.names ∨ name ∈ other.names := by
  unfold absorb
  rw [show other.names = other.entries.map Prod.fst from rfl]
  generalize other.entries = entries
  induction entries generalizing t with
  | nil => simp
  | cons entry rest ih =>
    rw [List.foldl_cons, ih, mem_names_insert, List.map_cons, List.mem_cons]
    tauto

theorem get?_mapValues {β : Type} (f : α → β) (name : String) :
    (t.mapValues f).get? name = (t.get? name).map f := by
  unfold get? mapValues
  dsimp only
  induction t.entries with
  | nil => rfl
  | cons first rest ih =>
    obtain ⟨key, value⟩ := first
    by_cases h : name = key
    · simp [h]
    · simp [List.lookup_cons, beq_false_of_ne h, ih]

theorem names_mapValues {β : Type} (f : α → β) : (t.mapValues f).names = t.names := by
  rw [names, mapValues, List.map_map]
  rfl

/-! ## What holds of all entries -/

/-- A property of every name with its value. -/
def All (P : String → α → Prop) (t : Table α) : Prop := ∀ entry ∈ t.entries, P entry.1 entry.2

instance (P : String → α → Prop) [∀ name value, Decidable (P name value)] (t : Table α) :
    Decidable (t.All P) :=
  inferInstanceAs (Decidable (∀ _ ∈ _, _))

variable {P : String → α → Prop} {t : Table α}

theorem all_empty : (empty : Table α).All P := fun _ h => absurd h List.not_mem_nil

theorem All.of_get? (h : t.All P) {name : String} {value : α} (hget : t.get? name = some value) :
    P name value :=
  h _ (t.get?_eq_some_iff.mp hget)

theorem All.insert (h : t.All P) {name : String} {value : α} (hvalue : P name value) :
    (t.insert name value).All P := by
  intro entry hentry
  have hget := ((t.insert name value).get?_eq_some_iff).mpr hentry
  rw [get?_insert] at hget
  split at hget
  · rename_i hname
    obtain rfl := Option.some.inj hget
    exact hname ▸ hvalue
  · exact h.of_get? hget

/-- Whatever adds entries one after the other keeps a property that each step keeps. -/
theorem all_foldl {β : Type} {step : Table α → β → Table α} {items : List β} {Q : β → Prop}
    (hstep : ∀ t b, t.All P → Q b → (step t b).All P) (hitems : ∀ b ∈ items, Q b) (h : t.All P) :
    (items.foldl step t).All P := by
  induction items generalizing t with
  | nil => exact h
  | cons b rest ih =>
    obtain ⟨hb, hrest⟩ := List.forall_mem_cons.mp hitems
    exact ih hrest (hstep t b h hb)

theorem All.absorb {other : Table α} (h : t.All P) (hother : other.All P) :
    (t.absorb other).All P :=
  all_foldl (fun _ _ ht hentry => ht.insert hentry) hother h

end Table

end Foresight
