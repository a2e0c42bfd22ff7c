import Mathlib.Data.List.Induction
import Foresight.Proofs.Files.Location
import Foresight.Proofs.Table
import Foresight.Proofs.Text.Characters

/-!
# Directory trees

What a disk holds is a tree if everything lies in a directory and under a name (`Disk.IsTree`). In a
tree every location is found again under its path (`IsTree.resolve_path`).
-/

namespace Foresight

namespace Text

theorem exists_join_cons (separator piece : String) (rest : List String) :
    ∃ more, join separator (piece :: rest) = piece ++ more := by
  cases rest with
  | nil => exact ⟨"", by rw [join, String.intercalate_singleton, String.append_empty]⟩
  | cons next rest =>
    rw [join, String.intercalate_cons_cons, String.append_assoc]
    exact ⟨_, rfl⟩

theorem join_append (separator : String) {pieces more : List String} (hpieces : pieces ≠ [])
    (hmore : more ≠ []) :
    join separator (pieces ++ more) =
      join separator pieces ++ separator ++ join separator more := by
  induction pieces with
  | nil => exact absurd rfl hpieces
  | cons piece rest ih =>
    cases rest with
    | nil =>
      obtain ⟨next, others, rfl⟩ := List.exists_cons_of_ne_nil hmore
      simp only [join, List.singleton_append, String.intercalate_cons_cons,
        String.intercalate_singleton]
    | cons next rest =>
      have hrest := ih (List.cons_ne_nil next rest)
      simp only [join, List.cons_append, String.intercalate_cons_cons] at hrest ⊢
      simp only [hrest, String.append_assoc]

end Text

namespace Location

variable {location below : Location}

theorem path_append (hlocation : location ≠ []) (hbelow : below ≠ []) :
    path (location ++ below) = location.path ++ "/" ++ Text.join "/" below := by
  rw [path, Text.join_append "/" hlocation hbelow, path]
  simp only [String.append_assoc]

/-- The last name of a location is the end of its path. -/
theorem exists_path_concat (location : Location) (name : String) :
    ∃ lead, path (location ++ [name]) = lead ++ name := by
  by_cases hlocation : location = []
  · exact ⟨"/", by rw [hlocation, List.nil_append, path, Text.join, String.intercalate_singleton]⟩
  · exact ⟨location.path ++ "/", by
      rw [path_append hlocation (List.cons_ne_nil name []), Text.join,
        String.intercalate_singleton]⟩

namespace IsNamed

theorem left (h : IsNamed (location ++ below)) : location.IsNamed :=
  fun name hname => h name (List.mem_append_left below hname)

theorem right (h : IsNamed (location ++ below)) : below.IsNamed :=
  fun name hname => h name (List.mem_append_right location hname)

theorem isFolderForm_path (h : location.IsNamed) (hlocation : location ≠ []) :
    Path.isFolderForm location.path = false := by
  obtain ⟨init, name, rfl⟩ := (List.eq_nil_or_concat location).resolve_left hlocation
  rw [List.concat_eq_append] at h ⊢
  obtain ⟨lead, hpath⟩ := exists_path_concat init name
  rw [hpath]
  exact (h name (by simp)).extension.isFolderForm lead

theorem isAbsolute_join (h : below.IsNamed) (hbelow : below ≠ []) :
    Path.isAbsolute (Text.join "/" below) = false := by
  obtain ⟨name, rest, rfl⟩ := List.exists_cons_of_ne_nil hbelow
  have hname := (h name List.mem_cons_self).extension
  obtain ⟨more, hmore⟩ := Text.exists_join_cons "/" name rest
  rw [hmore, Path.isAbsolute_append hname.ne_empty, hname.isAbsolute]

/-- The path of what lies below a location goes on from the path of the location. -/
theorem join_path (h : IsNamed (location ++ below)) (hbelow : below ≠ []) :
    Path.join location.path (Text.join "/" below) = path (location ++ below) := by
  have hbase : location.path.isEmpty = false := by
    simp [path, String.append_eq_empty_iff]
  unfold Path.join
  rw [h.right.isAbsolute_join hbelow, hbase, Bool.or_false, if_neg Bool.false_ne_true]
  by_cases hlocation : location = []
  · rw [hlocation, List.nil_append, if_pos (by decide)]
    rfl
  · have hform : Text.endsWith "/" location.path = false := h.left.isFolderForm_path hlocation
    rw [hform, if_neg Bool.false_ne_true, path_append hlocation hbelow]

/-- Different locations have different paths. -/
theorem path_inj {other : Location} (h : location.IsNamed) (hother : other.IsNamed)
    (hpath : location.path = other.path) : location = other := by
  rw [← h.steps_path, hpath, hother.steps_path]

end IsNamed

end Location

namespace Disk

variable {d : Disk} {location : Location}

/-- Everything on the disk lies in a directory, under a name that a system takes. -/
structure IsTree (d : Disk) : Prop where
  named : ∀ e ∈ d.entries, e.1 ≠ [] ∧ e.1.IsNamed
  no_nul : ∀ e ∈ d.entries, ∀ name ∈ e.1, '\x00' ∉ name.toList
  parent : ∀ e ∈ d.entries, d.get? e.1.dropLast = some .directory

instance (d : Disk) : Decidable d.IsTree :=
  decidable_of_iff ((∀ e ∈ d.entries, e.1 ≠ [] ∧ e.1.IsNamed) ∧
      (∀ e ∈ d.entries, ∀ name ∈ e.1, '\x00' ∉ name.toList) ∧
      ∀ e ∈ d.entries, d.get? e.1.dropLast = some .directory)
    ⟨fun ⟨hnamed, hnul, hparent⟩ => ⟨hnamed, hnul, hparent⟩, fun h => ⟨h.named, h.no_nul, h.parent⟩⟩

namespace IsTree

theorem isNamed (h : d.IsTree) (hlocation : (d.get? location).isSome) : location.IsNamed := by
  by_cases hnil : location = []
  · rw [hnil]
    exact fun _ hname => absurd hname List.not_mem_nil
  · obtain ⟨entry, hentry⟩ := Option.isSome_iff_exists.mp hlocation
    exact (h.named _ ((get?_eq_some_iff hnil).mp hentry)).2

theorem directory_of_concat {name : String} (h : d.IsTree)
    (hlocation : (d.get? (location ++ [name])).isSome) : d.get? location = some .directory := by
  obtain ⟨entry, hentry⟩ := Option.isSome_iff_exists.mp hlocation
  have hparent := h.parent _ ((get?_eq_some_iff (by simp)).mp hentry)
  rwa [List.dropLast_concat] at hparent

/-- A walk from the root by the names of a location ends there. -/
theorem follow (h : d.IsTree) (hlocation : (d.get? location).isSome) :
    d.follow [] location = .ok location := by
  induction location using List.reverseRecOn with
  | nil => rfl
  | append_singleton init name ih =>
    have hdirectory := h.directory_of_concat hlocation
    have hname := ((h.isNamed hlocation).right name (List.mem_singleton_self name)).isName
    rw [follow_append, ih (by rw [hdirectory]; rfl)]
    exact (follow_name hname hdirectory).trans (if_pos hlocation)

theorem no_nul_path (h : d.IsTree) (hlocation : (d.get? location).isSome) :
    '\x00' ∉ location.path.toList := by
  by_cases hnil : location = []
  · rw [hnil]
    decide
  · obtain ⟨entry, hentry⟩ := Option.isSome_iff_exists.mp hlocation
    have hnames := h.no_nul _ ((get?_eq_some_iff hnil).mp hentry)
    unfold Location.path Text.join
    rw [String.toList_append, List.mem_append, not_or]
    refine ⟨by decide, fun hmem => ?_⟩
    rw [String.toList_intercalate] at hmem
    rcases Text.mem_of_mem_intercalate hmem with hmem | ⟨piece, hpiece, hmem⟩
    · exact absurd hmem (by decide)
    · obtain ⟨name, hname, rfl⟩ := List.mem_map.mp hpiece
      exact hnames name hname hmem

/-- What is there is found under its path. -/
theorem resolve_path (h : d.IsTree) (hlocation : (d.get? location).isSome) :
    d.resolve location.path = .ok location := by
  have hnamed := h.isNamed hlocation
  have htext : checkText location.path = .ok () := by
    unfold checkText
    have hempty : location.path.isEmpty = false := by
      simp [Location.path, String.append_eq_empty_iff]
    rw [if_neg (by simpa using h.no_nul_path hlocation), hempty, if_neg Bool.false_ne_true]
  have horigin : d.origin location.path = [] := if_pos location.isAbsolute_path
  unfold resolve
  rw [Except.bind_of_ok htext, horigin, hnamed.steps_path, Except.bind_of_ok (h.follow hlocation)]
  cases hget : d.get? location with
  | none =>
    rw [hget] at hlocation
    cases hlocation
  | some entry =>
    cases entry with
    | directory => rfl
    | file content =>
      have hne : location ≠ [] := by
        rintro rfl
        cases hget
      dsimp only
      rw [hnamed.isFolderForm_path hne, if_neg Bool.false_ne_true]
      rfl

end IsTree

end Disk

end Foresight
