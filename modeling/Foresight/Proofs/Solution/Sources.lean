import Foresight.Live.Tracking
import Foresight.Proofs.Files.Location
import Foresight.Proofs.Table
import Foresight.Solution.Directory

/-!
# Sources and tracked files

Two filters tell the sources of a solution: its directories are searched from the root down, and a
file that is saved is looked at by its whole path. The search passes by excluded directories below
the root of the solution and nowhere else (`clear_sources`), whereas of a path every part is looked
at: those of the root and the file's own name are what the two can differ about
(`tracks_source_iff`).
-/

namespace Foresight

namespace Disk

variable {d : Disk} {location file : Location} {enters : Location → Bool}

/-- A file under a location, with the directories in between. -/
theorem mem_filesUnder : file ∈ d.filesUnder location enters ↔
    ∃ below content, file = location ++ below ∧ (file, .file content) ∈ d.entries ∧
      ∀ n < below.length, n ≠ 0 → enters (location ++ below.take n) = true := by
  unfold filesUnder
  rw [List.mem_filterMap]
  constructor
  · rintro ⟨⟨place, entry⟩, hmem, hfile⟩
    obtain ⟨hentry, below, rfl⟩ := mem_under.mp hmem
    cases entry with
    | directory => cases hfile
    | file content =>
      rw [List.drop_left] at hfile
      obtain ⟨hreached, hfile⟩ := Option.ite_none_right_eq_some.mp hfile
      obtain rfl := Option.some.inj hfile
      refine ⟨below, content, rfl, hentry, fun n hn hne => ?_⟩
      have hstep := List.all_eq_true.mp hreached n (List.mem_range.mpr hn)
      simpa [hne] using hstep
  · rintro ⟨below, content, rfl, hentry, hreached⟩
    refine ⟨_, mem_under.mpr ⟨hentry, List.prefix_append location below⟩, ?_⟩
    dsimp only
    rw [List.drop_left, if_pos]
    refine List.all_eq_true.mpr fun n hn => ?_
    by_cases hne : n = 0
    · simp [hne]
    · rw [hreached n (List.mem_range.mp hn) hne, Bool.or_true]

/-- Every entry of a disk is under a name that it can have. -/
def IsNamed (d : Disk) : Prop :=
  ∀ e ∈ d.entries, e.1.IsNamed

instance (d : Disk) : Decidable d.IsNamed :=
  inferInstanceAs (Decidable (∀ e ∈ d.entries, e.1.IsNamed))

end Disk

/-- No directory of one of these names is passed by. -/
def AnalysisSettings.Clears (settings : AnalysisSettings) (names : List String) : Prop :=
  ∀ name ∈ names, settings.isExcludedDir name = false

namespace SolutionDirectory

variable {settings : AnalysisSettings} {s : SolutionDirectory} {d : Disk} {p : Project}
  {location below file : Location}

/-- A search that reaches something has passed by none of the directories on the way. -/
theorem clears_dropLast
    (h : ∀ n < below.length, n ≠ 0 → isSearched settings (location ++ below.take n) = true) :
    settings.Clears below.dropLast := by
  intro name hname
  obtain ⟨n, hn, rfl⟩ := List.getElem_of_mem hname
  rw [List.length_dropLast] at hn
  have hsearched := h (n + 1) (by omega) (Nat.succ_ne_zero n)
  have hlast : (location ++ below.take (n + 1)).getLast? = some below[n] := by
    rw [List.take_succ_eq_append_getElem (by omega), ← List.append_assoc, List.getLast?_concat]
  unfold isSearched at hsearched
  rw [hlast] at hsearched
  rw [List.getElem_dropLast]
  simpa using hsearched

/-! ## Projects -/

/-- The projects are those that were found where the root is a directory. -/
structure Found (s : SolutionDirectory) (d : Disk) : Prop where
  root : d.get? s.root = some .directory
  projects : discover s.settings s.root d = .ok s.projects

theorem found_openAt {path : String} (h : openAt path settings d = .ok s) : s.Found d := by
  obtain ⟨root, -, h⟩ := Except.bind_eq_ok_iff.mp h
  dsimp only at h
  split at h
  · cases h
  · rename_i hroot
    obtain ⟨projects, hprojects, h⟩ := Except.bind_eq_ok_iff.mp h
    obtain rfl := Except.ok.inj h
    exact ⟨by simpa using hroot, hprojects⟩

theorem mem_of_mem_foldl_addProject {found projects : List Project}
    (h : p ∈ found.foldl addProject projects) : p ∈ projects ∨ p ∈ found := by
  induction found generalizing projects with
  | nil => exact .inl h
  | cons q found ih =>
    rcases ih h with hmem | hmem
    · unfold addProject at hmem
      split at hmem
      · exact .inl hmem
      · rcases List.mem_append.mp hmem with hmem | hmem
        · exact .inl hmem
        · exact .inr (List.mem_cons.mpr (.inl (List.mem_singleton.mp hmem)))
    · exact .inr (List.mem_cons_of_mem q hmem)

theorem of_projectOf?_eq_some (h : projectOf? file = some p) :
    ∃ name, file = p.directory ++ [name] ∧ p.name = Path.stemOf name := by
  obtain ⟨name, hname, h⟩ := Option.bind_eq_some_iff.mp h
  obtain ⟨extension, -, h⟩ := Option.bind_eq_some_iff.mp h
  obtain ⟨-, h⟩ := Option.ite_none_right_eq_some.mp h
  obtain rfl := Option.some.inj h
  exact ⟨name, (List.dropLast_append_getLast? name hname).symm, rfl⟩

/-- A project is the solution itself, or was found by its file. -/
theorem Found.origin (h : s.Found d) (hp : p ∈ s.projects) :
    p = ⟨directoryName s.root, s.root⟩ ∨
      ∃ file ∈ d.filesUnder s.root (isSearched s.settings), projectOf? file = some p := by
  have hprojects := h.projects
  unfold discover at hprojects
  rw [h.root, if_neg (by decide)] at hprojects
  dsimp only at hprojects
  split at hprojects
  · rw [← Except.ok.inj hprojects, List.mem_singleton] at hp
    exact .inl hp
  · rw [← Except.ok.inj hprojects] at hp
    have hmem := (mem_of_mem_foldl_addProject hp).resolve_left List.not_mem_nil
    exact .inr (List.mem_filterMap.mp hmem)

/-- A project is the solution itself, or lies below it with no excluded directory on the way. -/
theorem Found.directory (h : s.Found d) (hp : p ∈ s.projects) :
    ∃ between, p.directory = s.root ++ between ∧ s.settings.Clears between := by
  rcases h.origin hp with rfl | ⟨file, hfile, hproject⟩
  · exact ⟨[], by rw [List.append_nil], fun _ hname => absurd hname List.not_mem_nil⟩
  · obtain ⟨below, content, rfl, hentry, hreached⟩ := Disk.mem_filesUnder.mp hfile
    obtain ⟨name, hname, -⟩ := of_projectOf?_eq_some hproject
    have hbelow : below ≠ [] := by
      rintro rfl
      rw [List.append_nil] at hname hentry
      have hroot := (Disk.get?_eq_some_iff (by rw [hname]; simp)).mpr hentry
      rw [h.root] at hroot
      cases hroot
    refine ⟨below.dropLast, ?_, clears_dropLast hreached⟩
    rw [← List.dropLast_append_of_ne_nil hbelow, hname, List.dropLast_concat]

/-! ## Sources -/

/-- A source lies below the root of the solution, with no excluded directory on the way. -/
theorem Found.source (h : s.Found d) (hp : p ∈ s.projects) {d' : Disk}
    (hfile : file ∈ s.sources p d') :
    ∃ below, file = s.root ++ below ∧ s.settings.Clears below.dropLast := by
  obtain ⟨between, hdirectory, hbetween⟩ := h.directory hp
  obtain ⟨hunder, -⟩ := List.mem_filter.mp hfile
  obtain ⟨below, content, rfl, -, hreached⟩ := Disk.mem_filesUnder.mp hunder
  have hbelow : s.settings.Clears below.dropLast :=
    clears_dropLast fun n hn hne => (Bool.and_eq_true_iff.mp (hreached n hn hne)).1
  refine ⟨between ++ below, by rw [hdirectory, List.append_assoc], fun name hname => ?_⟩
  by_cases hnil : below = []
  · rw [hnil, List.append_nil] at hname
    exact hbetween name (List.dropLast_subset between hname)
  · rw [List.dropLast_append_of_ne_nil hnil, List.mem_append] at hname
    exact hname.elim (hbetween name) (hbelow name)

/-- What is asked of the path of a source is asked of its names. -/
theorem isTrackedSource_path (hnamed : file.IsNamed)
    (hsource : (file.getLast?.bind Path.extensionOf?).any settings.isSourceExtension = true) :
    settings.isTrackedSource file.path = true ↔
      settings.isExcludedDir Path.Part.root.text = false ∧ settings.Clears file := by
  have hlast : Path.fileName? file.path = file.getLast? := by
    unfold Path.fileName?
    rw [hnamed.parts_path]
    rcases List.eq_nil_or_concat file with rfl | ⟨init, name, rfl⟩
    · rfl
    · rw [List.concat_eq_append, List.map_append, ← List.cons_append, List.map_singleton,
        List.getLast?_concat, List.getLast?_concat]
      rfl
  unfold AnalysisSettings.isTrackedSource Path.extension?
  rw [hlast, hsource, Bool.true_and, hnamed.parts_path, List.any_cons, Bool.not_eq_true',
    Bool.or_eq_false_iff, List.any_map, List.any_eq_false]
  simp only [AnalysisSettings.Clears, Function.comp_apply, Path.Part.text, Bool.not_eq_true]

/-- The sources that are tracked are those of a solution with no excluded name on the way to its
root, unless a file is itself called like an excluded directory. -/
theorem tracks_source_iff (h : s.Found d) (hp : p ∈ s.projects) {d' : Disk} (hnamed : d'.IsNamed)
    (hfile : file ∈ s.sources p d') :
    s.settings.isTrackedSource file.path = true ↔
      (∀ part ∈ Path.parts s.root.path, s.settings.isExcludedDir part.text = false) ∧
        ∀ name ∈ file.getLast?, s.settings.isExcludedDir name = false := by
  obtain ⟨below, hbelow, hclears⟩ := h.source hp hfile
  obtain ⟨hunder, hsource⟩ := List.mem_filter.mp hfile
  obtain ⟨_, _, -, hentry, -⟩ := Disk.mem_filesUnder.mp hunder
  have hfileNamed : file.IsNamed := hnamed _ hentry
  have hroot : s.root.IsNamed := fun name hname =>
    hfileNamed name (hbelow ▸ List.mem_append_left below hname)
  rw [isTrackedSource_path hfileNamed hsource, hroot.parts_path, List.forall_mem_cons, and_assoc,
    List.forall_mem_map]
  refine and_congr_right fun _ => ?_
  constructor
  · intro hclear
    exact ⟨fun name hname => hclear name (hbelow ▸ List.mem_append_left below hname),
      fun name hname => hclear name (List.mem_of_getLast? hname)⟩
  · rintro ⟨habove, hlast⟩ name hname
    rw [hbelow] at hname hlast
    rcases List.mem_append.mp hname with hname | hname
    · exact habove name hname
    · -- The last name below the root is that of the file.
      have hne := List.ne_nil_of_mem hname
      rw [← List.dropLast_append_getLast hne, List.mem_append, List.mem_singleton] at hname
      rcases hname with hname | rfl
      · exact hclears name hname
      · refine hlast _ ?_
        rw [List.getLast?_append_of_ne_nil _ hne, List.getLast?_eq_some_getLast hne]
        rfl

/-! A solution of one source, in a directory of some name. -/

def shopDisk (parent : String) : Disk :=
  ⟨[([parent], .directory), ([parent, "Shop"], .directory),
    ([parent, "Shop", "A.cs"], .file .empty)], [], by simp⟩

def shop (parent : String) : SolutionDirectory :=
  ⟨[parent, "Shop"], "Shop", {}, [⟨"Shop", [parent, "Shop"]⟩], none⟩

theorem filesUnder_shopDisk (parent : String) (enters : Location → Bool) :
    (shopDisk parent).filesUnder [parent, "Shop"] enters = [[parent, "Shop", "A.cs"]] := by
  have hunder : (shopDisk parent).under [parent, "Shop"] =
      [([parent, "Shop"], .directory), ([parent, "Shop", "A.cs"], .file .empty)] := by
    have hentries : (shopDisk parent).entries.filter (List.isPrefixOf [parent, "Shop"] ·.1) =
        [([parent, "Shop"], .directory), ([parent, "Shop", "A.cs"], .file .empty)] := by
      simp [shopDisk, List.isPrefixOf]
    unfold Disk.under
    rw [hentries]
    refine List.mergeSort_of_pairwise (List.pairwise_pair.mpr (Disk.locationLe_iff.mpr ?_))
    simp
  unfold Disk.filesUnder
  rw [hunder]
  rfl

theorem mem_sources_shop (parent : String) :
    [parent, "Shop", "A.cs"] ∈
      (shop parent).sources ⟨"Shop", [parent, "Shop"]⟩ (shopDisk parent) := by
  unfold sources
  dsimp only
  rw [filesUnder_shopDisk]
  refine List.mem_filter.mpr ⟨List.mem_singleton_self _, ?_⟩
  have hlast : [parent, "Shop", "A.cs"].getLast? = some "A.cs" := rfl
  have hsource :
      (Path.extensionOf? "A.cs").any ({} : AnalysisSettings).isSourceExtension = true := by
    decide +kernel
  rw [hlast, Option.bind_some]
  exact hsource

theorem found_shop (parent : String) : (shop parent).Found (shopDisk parent) where
  root := by simp [shop, shopDisk, Disk.get?, List.lookup_cons]
  projects := by
    have hthere : ((shopDisk parent).get? [parent, "Shop"]).isNone = false := by
      simp [shopDisk, Disk.get?, List.lookup_cons]
    have hno : projectOf? [parent, "Shop", "A.cs"] = none := by
      have hextension : Path.extensionOf? "A.cs" = some "cs" := by decide +kernel
      have hother : Text.sameIgnoringCase "csproj" "cs" = false := by decide
      simp [projectOf?, hextension, hother]
    unfold discover shop
    dsimp only
    rw [hthere, filesUnder_shopDisk, List.filterMap_cons_none hno]
    rfl

theorem tracks_source_iff_shop :
    (shop "home").settings.isTrackedSource (Location.path ["home", "Shop", "A.cs"]) = true :=
  (tracks_source_iff (found_shop "home") (List.mem_singleton_self _) (by decide)
    (mem_sources_shop "home")).mpr ⟨by decide +kernel, by decide +kernel⟩

/-- In a directory that would be excluded below the root, the source is mined and not tracked. -/
theorem shop_in_bin_untracked :
    (shop "bin").Found (shopDisk "bin") ∧ (shop "bin").projects = [⟨"Shop", ["bin", "Shop"]⟩] ∧
      ["bin", "Shop", "A.cs"] ∈
        (shop "bin").sources ⟨"Shop", ["bin", "Shop"]⟩ (shopDisk "bin") ∧
      (shop "bin").settings.isTrackedSource (Location.path ["bin", "Shop", "A.cs"]) = false :=
  ⟨found_shop "bin", rfl, mem_sources_shop "bin", by decide +kernel⟩

end SolutionDirectory

end Foresight
