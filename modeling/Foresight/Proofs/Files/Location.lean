import Foresight.Proofs.Files.Directory

/-!
# Locations as paths

A location, written as a path, has a leading slash and its names for parts (`parts_path`), as long
as these are names that entries of a disk can have.
-/

namespace Foresight

namespace Text

variable {separator : String} {c : Char}

/-- Pieces without a separator, joined with it, are cut apart again. -/
theorem splitAt_join (hseparator : separator.toList = [c]) {pieces : List String}
    (hpieces : ∀ piece ∈ pieces, c ∉ piece.toList) (hne : pieces ≠ []) :
    splitAt c (join separator pieces) = pieces := by
  induction pieces with
  | nil => exact absurd rfl hne
  | cons piece rest ih =>
    obtain ⟨hpiece, hrest⟩ := List.forall_mem_cons.mp hpieces
    cases rest with
    | nil =>
      rw [join, String.intercalate_singleton]
      exact splitAt_of_not_mem hpiece
    | cons next rest =>
      have hfree : ∀ a ∈ piece.toList, (a == c) = false := fun a ha =>
        beq_false_of_ne fun heq => hpiece (heq ▸ ha)
      have hcut : (join separator (piece :: next :: rest)).toList =
          piece.toList ++ c :: (join separator (next :: rest)).toList := by
        rw [join, String.intercalate_cons_cons, String.toList_append, String.toList_append,
          hseparator, List.append_assoc]
        rfl
      have hnext := ih hrest (List.cons_ne_nil next rest)
      unfold splitAt at hnext ⊢
      rw [hcut, pieces_append_cons hfree (beq_self_eq_true c), List.map_cons, hnext,
        String.ofList_toList]

end Text

namespace Disk.IsEntryName

variable {name : String}

instance (name : String) : Decidable (IsEntryName name) :=
  decidable_of_iff ((name ≠ "" ∧ '/' ∉ name.toList) ∧ Path.isName name = true)
    ⟨fun ⟨h, hname⟩ => ⟨⟨h.1, h.2⟩, hname⟩, fun h => ⟨⟨h.1.1, h.1.2⟩, h.2⟩⟩

theorem ofPiece?_eq (h : IsEntryName name) : Path.Part.ofPiece? name = some (.name name) := by
  obtain ⟨hdot, hup⟩ : name ≠ "." ∧ name ≠ ".." := by
    simpa [Path.isName] using h.isName
  unfold Path.Part.ofPiece?
  rw [if_neg (not_or.mpr ⟨h.extension.ne_empty, hdot⟩), if_neg hup]

end Disk.IsEntryName

theorem Location.isAbsolute_path (location : Location) : Path.isAbsolute location.path = true := by
  unfold Path.isAbsolute Text.beginsWith
  rw [Location.path, String.toList_append, Option.isSome_iff_exists]
  exact ⟨_, Text.dropLead?_eq_some_iff.mpr rfl⟩

/-- Every name on the way to a location is one that something on a disk can have. -/
def Location.IsNamed (location : Location) : Prop :=
  ∀ name ∈ location, Disk.IsEntryName name

instance (location : Location) : Decidable location.IsNamed :=
  inferInstanceAs (Decidable (∀ name ∈ location, Disk.IsEntryName name))

namespace Location.IsNamed

variable {location : Location}

/-- A path is cut at its slashes into an empty piece and the names. -/
theorem splitAt_path (h : location.IsNamed) (hlocation : location ≠ []) :
    Text.splitAt '/' location.path = "" :: location := by
  have hslash : location.path.toList = '/' :: (Text.join "/" location).toList := by
    rw [Location.path, String.toList_append]
    rfl
  have hlead : Text.splitAt '/' location.path =
      "" :: Text.splitAt '/' (Text.join "/" location) := by
    unfold Text.splitAt
    rw [hslash, Text.pieces, if_pos (beq_self_eq_true '/')]
    rfl
  rw [hlead, Text.splitAt_join (by decide)
    (fun piece hpiece => (h piece hpiece).extension.no_slash) hlocation]

theorem parts_path (h : location.IsNamed) :
    Path.parts location.path = .root :: location.map .name := by
  have hpieces : (Text.splitAt '/' location.path).filterMap Path.Part.ofPiece? =
      location.map .name := by
    by_cases hlocation : location = []
    · rw [hlocation]
      decide
    · have hempty : Path.Part.ofPiece? "" = none := by decide
      rw [h.splitAt_path hlocation, List.filterMap_cons_none hempty]
      exact List.filterMap_eq_map_iff_forall_eq_some.mpr fun piece hpiece =>
        (h piece hpiece).ofPiece?_eq
  unfold Path.parts
  dsimp only
  rw [isAbsolute_path, hpieces]
  rfl

theorem steps_path (h : location.IsNamed) : Path.steps location.path = location := by
  unfold Path.steps
  by_cases hlocation : location = []
  · rw [hlocation]
    decide
  · rw [h.splitAt_path hlocation, List.filter_cons_of_neg (by decide)]
    exact List.filter_eq_self.mpr fun name hname =>
      bne_iff_ne.mpr (h name hname).extension.ne_empty

end Location.IsNamed

end Foresight
