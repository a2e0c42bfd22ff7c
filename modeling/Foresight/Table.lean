/-!
# Tables

A table holds one value for each of its names, in the order in which the names first came. Writing
a name that is present replaces its value in place. Scope parameters, template fields, record
attributes and local scopes are all tables, and the order is part of what they mean: it is the order
in which they are written out.
-/

namespace Foresight

/-- Values by name, in the order of first insertion. -/
structure Table (α : Type) where
  entries : List (String × α)
  nodup : (entries.map Prod.fst).Nodup

namespace Table

variable {α β : Type}

theorem ext {s t : Table α} (h : s.entries = t.entries) : s = t := by
  cases s; cases t; simp_all

instance [DecidableEq α] : DecidableEq (Table α) := fun s t =>
  if h : s.entries = t.entries then isTrue (ext h) else isFalse fun e => h (e ▸ rfl)

def empty : Table α := ⟨[], List.nodup_nil⟩

instance : Inhabited (Table α) := ⟨empty⟩

def isEmpty (t : Table α) : Bool := t.entries.isEmpty

def names (t : Table α) : List String := t.entries.map Prod.fst

/-- Replaces the value of a name in place, or adds the name at the end. -/
def put (name : String) (value : α) : List (String × α) → List (String × α)
  | [] => [(name, value)]
  | entry :: rest =>
    if entry.1 = name then (name, value) :: rest else entry :: put name value rest

theorem map_fst_put (name : String) (value : α) (entries : List (String × α)) :
    (put name value entries).map Prod.fst =
      if name ∈ entries.map Prod.fst then entries.map Prod.fst
      else entries.map Prod.fst ++ [name] := by
  induction entries with
  | nil => simp [put]
  | cons entry rest ih =>
    by_cases h : entry.1 = name
    · simp [put, h]
    · by_cases hm : name ∈ rest.map Prod.fst
      · rw [if_pos hm] at ih
        simp only [put, h, if_false, List.map_cons, ih, List.mem_cons, hm, or_true, if_true]
      · rw [if_neg hm] at ih
        simp only [put, h, if_false, List.map_cons, ih, List.mem_cons, hm, or_false,
          Ne.symm h, List.cons_append]

theorem nodup_put {name : String} {value : α} {entries : List (String × α)}
    (h : (entries.map Prod.fst).Nodup) : ((put name value entries).map Prod.fst).Nodup := by
  rw [map_fst_put]
  split
  · exact h
  · rename_i hm
    rw [List.nodup_append]
    refine ⟨h, by simp, ?_⟩
    intro a ha b hb
    rw [List.mem_singleton] at hb
    rintro rfl
    exact hm (hb ▸ ha)

def insert (t : Table α) (name : String) (value : α) : Table α :=
  ⟨put name value t.entries, nodup_put t.nodup⟩

def get? (t : Table α) (name : String) : Option α :=
  t.entries.lookup name

theorem lookup_put (name other : String) (value : α) (entries : List (String × α)) :
    (put name value entries).lookup other =
      if other = name then some value else entries.lookup other := by
  induction entries with
  | nil =>
    by_cases h : other = name
    · simp [put, h]
    · simp [put, List.lookup_cons, beq_false_of_ne h, h]
  | cons entry rest ih =>
    obtain ⟨key, old⟩ := entry
    by_cases hk : key = name
    · subst hk
      by_cases h : other = key
      · simp [put, h]
      · simp [put, h, List.lookup_cons, beq_false_of_ne h]
    · by_cases h : other = key
      · subst h
        simp [put, hk]
      · simp [put, hk, List.lookup_cons, beq_false_of_ne h, ih]

/-- A name that is written says its value, and every other name says what it said. -/
theorem get?_insert (t : Table α) (name other : String) (value : α) :
    (t.insert name value).get? other = if other = name then some value else t.get? other :=
  lookup_put name other value t.entries

def contains (t : Table α) (name : String) : Bool :=
  t.entries.any (·.1 == name)

/-- The table of some pairs: a repeated name keeps its first position and takes the last value. -/
def ofList (pairs : List (String × α)) : Table α :=
  pairs.foldl (fun t pair => t.insert pair.1 pair.2) empty

/-- Writes all entries of `other` into `t`. -/
def absorb (t other : Table α) : Table α :=
  other.entries.foldl (fun t pair => t.insert pair.1 pair.2) t

def erase (t : Table α) (name : String) : Table α :=
  ⟨t.entries.filter fun entry => entry.1 != name,
    t.nodup.sublist (List.filter_sublist.map Prod.fst)⟩

def mapValues (f : α → β) (t : Table α) : Table β :=
  ⟨t.entries.map fun entry => (entry.1, f entry.2), by
    simpa [List.map_map, Function.comp_def] using t.nodup⟩

/-- Equality as maps: the same names with the same values, in any order. -/
def sameMap [BEq α] (s t : Table α) : Bool :=
  s.entries.length == t.entries.length && s.entries.all fun entry =>
    match t.get? entry.1 with
    | some value => value == entry.2
    | none => false

end Table

abbrev Fields := Table String

end Foresight
