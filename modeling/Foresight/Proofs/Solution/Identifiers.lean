import Mathlib.Data.List.Nodup
import Foresight.Proofs.Files.Tree
import Foresight.Proofs.Solution.Sources

/-!
# Identifiers of source files

A listed identifier names one source file: the path of the identifier is that of the file, and the
identifier of that path is the one that was listed (`Identifies`). Three computations have to agree
for this. Listing stops at the directories of other projects, so a listed file belongs to the
innermost project around it (`Found.innermost`); of the projects around a path the deepest one is
taken (`foldl_deeper`), which is the same; and an identifier is cut at its first `>/`, which is the
end of the project's name, as names have no slash in them (`FileId.split?_of`).
-/

namespace Foresight

namespace FileId

theorem cutAt?_closing {before : List Char} (h : '/' ∉ before) (rest : List Char) :
    Text.cutAt? ['>', '/'] (before ++ '>' :: '/' :: rest) = some (before, rest) := by
  induction before with
  | nil => rfl
  | cons c before ih =>
    rw [List.mem_cons, not_or] at h
    have hno : Text.dropLead? ['>', '/'] (c :: (before ++ '>' :: '/' :: rest)) = none := by
      refine Text.dropLead?_eq_none_iff.mpr ?_
      rintro ⟨tail, htail⟩
      obtain ⟨-, htail⟩ := List.cons.inj htail
      -- The character behind `c` would be a slash.
      cases before with
      | nil => exact absurd (List.cons.inj htail).1 (by decide)
      | cons b before =>
        have hb := (List.cons.inj htail).1
        exact h.2 (hb ▸ List.mem_cons_self)
    rw [List.cons_append, Text.cutAt?, hno]
    dsimp only
    rw [ih h.2, Option.map_some]

/-- An identifier is cut into the project and the relative path that it was made of. -/
theorem split?_of {project relative : String} (hproject : '/' ∉ project.toList)
    (hrelative : Path.isAbsolute relative = false) :
    split? (of project relative) = some (project, relative) := by
  have htrimmed : relative.toList.dropWhile (· == '/') = relative.toList := by
    cases hchars : relative.toList with
    | nil => rfl
    | cons c rest =>
      refine List.dropWhile_cons_of_neg fun hc => ?_
      have habsolute : Path.isAbsolute relative = true := by
        refine Text.beginsWith_iff.mpr ⟨String.ofList rest, String.toList_injective ?_⟩
        simp [hchars, beq_iff_eq.mp hc]
      rw [hrelative] at habsolute
      cases habsolute
  have hcut : Text.cut? ">/" (project ++ ">/" ++ relative) = some (project, relative) := by
    unfold Text.cut?
    have hchars : (project ++ ">/" ++ relative).toList =
        project.toList ++ '>' :: '/' :: relative.toList := by
      simp
    have hclosing := cutAt?_closing hproject relative.toList
    rw [hchars]
    rw [show (">/").toList = ['>', '/'] by decide, hclosing, Option.map_some]
    simp
  unfold split? of
  rw [htrimmed, String.ofList_toList, String.append_assoc, String.append_assoc,
    Text.stripLead?_append, Option.bind_some, ← String.append_assoc, hcut]

end FileId

namespace Disk

variable {d : Disk}

/-- No file is found twice. -/
theorem nodup_filesUnder (location : Location) (enters : Location → Bool) :
    (d.filesUnder location enters).Nodup := by
  have hperm : (d.under location).Perm (d.entries.filter fun e => location.isPrefixOf e.1) :=
    List.mergeSort_perm ..
  have hdistinct : ((d.under location).map Prod.fst).Nodup :=
    (hperm.map Prod.fst).nodup_iff.mpr (d.nodup.sublist (List.filter_sublist.map Prod.fst))
  refine List.pairwise_filterMap.mpr ((List.pairwise_map.mp hdistinct).imp ?_)
  intro a b hne file hfile other hother
  dsimp only at hfile hother
  split at hfile
  · split at hother
    · have hfile := (Option.ite_none_right_eq_some.mp hfile).2
      have hother := (Option.ite_none_right_eq_some.mp hother).2
      rwa [← Option.some.inj hfile, ← Option.some.inj hother]
    · cases hother
  · cases hfile

end Disk

namespace SolutionDirectory

variable {settings : AnalysisSettings} {s : SolutionDirectory} {d : Disk} {p q : Project}
  {location below file : Location} {path : String}

/-! ## Projects -/

/-- No two projects have a name or a directory in common. -/
structure Distinct (projects : List Project) : Prop where
  names : (projects.map Project.name).Nodup
  directories : (projects.map Project.directory).Nodup

theorem distinct_addProject {projects : List Project} (h : Distinct projects) (p : Project) :
    Distinct (addProject projects p) := by
  unfold addProject
  split
  · exact h
  · rename_i hnew
    have hother : ∀ q ∈ projects, q.directory ≠ p.directory ∧ q.name ≠ p.name := by
      intro q hq
      have hone := List.any_eq_false.mp (Bool.eq_false_iff.mpr hnew) q hq
      simpa using hone
    constructor
    · rw [List.map_append, List.map_singleton]
      refine h.names.append (List.nodup_singleton _) (List.disjoint_singleton.mpr fun hmem => ?_)
      obtain ⟨q, hq, hname⟩ := List.mem_map.mp hmem
      exact (hother q hq).2 hname
    · rw [List.map_append, List.map_singleton]
      refine h.directories.append (List.nodup_singleton _)
        (List.disjoint_singleton.mpr fun hmem => ?_)
      obtain ⟨q, hq, hdirectory⟩ := List.mem_map.mp hmem
      exact (hother q hq).1 hdirectory

theorem distinct_foldl_addProject {found projects : List Project} (h : Distinct projects) :
    Distinct (found.foldl addProject projects) := by
  induction found generalizing projects with
  | nil => exact h
  | cons p found ih => exact ih (distinct_addProject h p)

theorem Found.distinct (h : s.Found d) : Distinct s.projects := by
  have hprojects := h.projects
  unfold discover at hprojects
  rw [h.root, if_neg (by decide)] at hprojects
  dsimp only at hprojects
  split at hprojects
  · rw [← Except.ok.inj hprojects]
    exact ⟨List.nodup_singleton _, List.nodup_singleton _⟩
  · rw [← Except.ok.inj hprojects]
    exact distinct_foldl_addProject ⟨List.nodup_nil, List.nodup_nil⟩

theorem Distinct.eq_of_directory {projects : List Project} (h : Distinct projects)
    (hp : p ∈ projects) (hq : q ∈ projects) (hdirectory : p.directory = q.directory) : p = q :=
  List.inj_on_of_nodup_map h.directories hp hq hdirectory

theorem Distinct.find?_eq_some {projects : List Project} (h : Distinct projects)
    (hp : p ∈ projects) : projects.find? (·.name == p.name) = some p := by
  obtain ⟨q, hq⟩ : ∃ q, projects.find? (·.name == p.name) = some q :=
    Option.isSome_iff_exists.mp (List.find?_isSome.mpr ⟨p, hp, beq_self_eq_true p.name⟩)
  have hname := List.find?_some hq
  rw [hq, List.inj_on_of_nodup_map h.names (List.mem_of_find?_eq_some hq) hp (beq_iff_eq.mp hname)]

/-- Every project is a directory. -/
theorem Found.get?_directory (h : s.Found d) (htree : d.IsTree) (hp : p ∈ s.projects) :
    d.get? p.directory = some .directory := by
  rcases h.origin hp with rfl | ⟨file, hfile, hproject⟩
  · exact h.root
  · obtain ⟨_, content, rfl, hentry, -⟩ := Disk.mem_filesUnder.mp hfile
    obtain ⟨name, hname, -⟩ := of_projectOf?_eq_some hproject
    have hparent := htree.parent _ hentry
    rwa [hname, List.dropLast_concat] at hparent

theorem no_slash_stemOf {name : String} (h : '/' ∉ name.toList) :
    '/' ∉ (Path.stemOf name).toList := by
  unfold Path.stemOf
  split
  · rename_i hcut
    split
    · exact h
    · exact fun hmem => h ((Text.subset_of_cutLast?_eq_some hcut).1 hmem)
  · exact h

/-- No project has a slash in its name. -/
theorem Found.no_slash (h : s.Found d) (htree : d.IsTree) (hp : p ∈ s.projects) :
    '/' ∉ p.name.toList := by
  rcases h.origin hp with rfl | ⟨file, hfile, hproject⟩
  · have hthere : (d.get? s.root).isSome := by rw [h.root]; rfl
    have hroot := htree.isNamed hthere
    unfold directoryName
    cases hlast : s.root.getLast? with
    | none => exact (by decide : '/' ∉ "Solution".toList)
    | some name => exact (hroot name (List.mem_of_getLast? hlast)).extension.no_slash
  · obtain ⟨below, content, hbelow, hentry, -⟩ := Disk.mem_filesUnder.mp hfile
    obtain ⟨name, hname, hstem⟩ := of_projectOf?_eq_some hproject
    have hnamed := (htree.named _ hentry).2 name (by rw [hname]; simp)
    rw [hstem]
    exact no_slash_stemOf hnamed.extension.no_slash

/-! ## Sources -/

/-- A source of a project: a file below the project's directory. -/
theorem of_mem_sources (htree : d.IsTree) (hdirectory : d.get? p.directory = some .directory)
    (hfile : file ∈ s.sources p d) : ∃ below content, file = p.directory ++ below ∧ below ≠ [] ∧
      d.get? file = some (.file content) ∧
      (file.getLast?.bind Path.extensionOf?).any s.settings.isSourceExtension = true ∧
      ∀ n < below.length, n ≠ 0 → ∀ q ∈ s.projects, q.directory ≠ p.directory ++ below.take n := by
  obtain ⟨hunder, hsource⟩ := List.mem_filter.mp hfile
  obtain ⟨below, content, rfl, hentry, hreached⟩ := Disk.mem_filesUnder.mp hunder
  have hget := (Disk.get?_eq_some_iff (htree.named _ hentry).1).mpr hentry
  refine ⟨below, content, rfl, ?_, hget, hsource, fun n hn hne q hq heq => ?_⟩
  · rintro rfl
    rw [List.append_nil, hdirectory] at hget
    cases hget
  · have hpassed := (Bool.and_eq_true_iff.mp (hreached n hn hne)).2
    rw [Bool.not_eq_true', List.any_eq_false] at hpassed
    exact hpassed q hq (beq_iff_eq.mpr heq)

/-- A source belongs to the innermost project around it. -/
theorem Found.innermost (h : s.Found d) (htree : d.IsTree) (hp : p ∈ s.projects)
    (hfile : file ∈ s.sources p d) (hq : q ∈ s.projects) (haround : q.directory <+: file) :
    q.directory <+: p.directory := by
  obtain ⟨below, content, rfl, -, hget, -, hpassed⟩ :=
    of_mem_sources htree (h.get?_directory htree hp) hfile
  rcases List.prefix_or_prefix_of_prefix haround (List.prefix_append p.directory below) with
    hinner | ⟨between, hbetween⟩
  · exact hinner
  · -- A project further down would have been passed by on the way to the file.
    by_contra hnot
    have hne : between ≠ [] := by
      rintro rfl
      exact hnot ⟨[], by rw [List.append_nil, ← hbetween, List.append_nil]⟩
    rw [← hbetween] at haround
    obtain ⟨rest, hrest⟩ := (List.prefix_append_right_inj p.directory).mp haround
    have hproper : rest ≠ [] := by
      rintro rfl
      have hdirectory := h.get?_directory htree hq
      rw [List.append_nil] at hrest
      rw [← hbetween, hrest, hget] at hdirectory
      cases hdirectory
    have hlength : between.length < below.length := by
      rw [← hrest, List.length_append]
      have := List.length_pos_iff.mpr hproper
      omega
    refine hpassed between.length hlength (by simpa using hne) q hq ?_
    rw [← hrest, List.take_left, hbetween]

/-! ## Identifiers and paths -/

theorem fileIdOf_append (p : Project) (below : Location) :
    fileIdOf p (p.directory ++ below) = FileId.of p.name (Text.join "/" below) := by
  rw [fileIdOf, List.drop_left]

theorem Found.split?_fileIdOf (h : s.Found d) (htree : d.IsTree) (hp : p ∈ s.projects)
    (hnamed : below.IsNamed) (hbelow : below ≠ []) :
    FileId.split? (fileIdOf p (p.directory ++ below)) = some (p.name, Text.join "/" below) := by
  rw [fileIdOf_append]
  exact FileId.split?_of (h.no_slash htree hp) (hnamed.isAbsolute_join hbelow)

/-- The path of a listed identifier is that of its file. -/
theorem Found.pathForId?_fileIdOf (h : s.Found d) (htree : d.IsTree) (hp : p ∈ s.projects)
    (hnamed : Location.IsNamed (p.directory ++ below)) (hbelow : below ≠ []) :
    s.pathForId? (fileIdOf p (p.directory ++ below)) =
      some (Location.path (p.directory ++ below)) := by
  unfold SolutionDirectory.pathForId?
  rw [h.split?_fileIdOf htree hp hnamed.right hbelow, ← hnamed.join_path hbelow]
  simp only [Option.bind_eq_bind, Option.bind_some, h.distinct.find?_eq_some hp]
  rfl

theorem filterMap_name?_map (location : Location) :
    (location.map .name).filterMap Path.Part.name? = location := by
  rw [List.filterMap_map]
  exact List.filterMap_some

/-- Of candidates of which one is deeper than all others, that one is taken. -/
theorem foldl_deeper {found : List (Project × List Path.Part)}
    {best : Option (Project × List Path.Part)} {p : Project × List Path.Part}
    (hfound : ∀ q ∈ found, q = p ∨ q.1.directory.length < p.1.directory.length)
    (hbest : ∀ b ∈ best, b = p ∨ b.1.directory.length < p.1.directory.length)
    (hp : best = some p ∨ p ∈ found) : found.foldl deeper best = some p := by
  induction found generalizing best with
  | nil => exact hp.resolve_right List.not_mem_nil
  | cons q found ih =>
    obtain ⟨hq, hrest⟩ := List.forall_mem_cons.mp hfound
    rw [List.mem_cons] at hp
    rw [List.foldl_cons]
    cases best with
    | none =>
      refine ih hrest (fun b hb => Option.some.inj hb ▸ hq) ?_
      exact (hp.resolve_left nofun).imp_left fun hpq => congrArg some hpq.symm
    | some b =>
      have hb := hbest b rfl
      unfold deeper
      dsimp only
      split
      · rename_i hle
        refine ih hrest (fun b hb => Option.some.inj hb ▸ hq) ?_
        rcases hp with hbp | rfl | hmem
        · obtain rfl := Option.some.inj hbp
          exact .inl (congrArg some (hq.resolve_right (Nat.not_lt.mpr hle)))
        · exact .inl rfl
        · exact .inr hmem
      · rename_i hlt
        refine ih hrest (fun c hc => Option.some.inj hc ▸ hb) ?_
        rcases hp with hbp | rfl | hmem
        · exact .inl hbp
        · exact .inl (congrArg some (hb.resolve_right fun h => hlt (Nat.le_of_lt h)))
        · exact .inr hmem

/-- The candidates for a file are the projects whose directories are in front of it. -/
theorem mem_candidates_iff {projects : List Project} (hfile : file.IsNamed)
    (hdirectory : ∀ q ∈ projects, q.directory.IsNamed) {rest : List Path.Part} :
    (q, rest) ∈ projects.filterMap (fun q =>
      (Text.dropLead? (Path.parts q.directory.path) (Path.parts file.path)).map (q, ·)) ↔
    q ∈ projects ∧ file.map Path.Part.name = q.directory.map .name ++ rest := by
  rw [List.mem_filterMap]
  constructor
  · rintro ⟨r, hr, hrest⟩
    obtain ⟨tail, hdrop, heq⟩ := Option.map_eq_some_iff.mp hrest
    cases heq
    rw [hfile.parts_path, (hdirectory q hr).parts_path, Text.dropLead?_eq_some_iff] at hdrop
    exact ⟨hr, (List.cons.inj hdrop).2⟩
  · rintro ⟨hq, heq⟩
    refine ⟨q, hq, ?_⟩
    rw [hfile.parts_path, (hdirectory q hq).parts_path, heq,
      Text.dropLead?_eq_some_iff.mpr (List.cons_append ..).symm, Option.map_some]

/-- The identifier of the path of a source is the one under which it is listed. -/
theorem Found.fileIdForPath? (h : s.Found d) (htree : d.IsTree) (hp : p ∈ s.projects)
    (hfile : file ∈ s.sources p d) : s.fileIdForPath? file.path d = some (fileIdOf p file) := by
  obtain ⟨below, content, hbelow, -, hget, -⟩ :=
    of_mem_sources htree (h.get?_directory htree hp) hfile
  have hthere : (d.get? file).isSome := by rw [hget]; rfl
  have hdirectory : ∀ q ∈ s.projects, q.directory.IsNamed := fun q hq =>
    htree.isNamed (by rw [h.get?_directory htree hq]; rfl)
  have habsolute : Path.join s.root.path file.path = file.path := by
    rw [Path.join, file.isAbsolute_path, Bool.true_or, if_pos rfl]
  have hdeepest : (s.projects.filterMap fun q => (Text.dropLead? (Path.parts q.directory.path)
      (Path.parts file.path)).map (q, ·)).foldl deeper none = some (p, below.map .name) := by
    have hnamed := htree.isNamed hthere
    refine foldl_deeper (fun ⟨q, rest⟩ hq => ?_) nofun
      (.inr ((mem_candidates_iff hnamed hdirectory).mpr ⟨hp, ?_⟩))
    · obtain ⟨hq, heq⟩ := (mem_candidates_iff hnamed hdirectory).mp hq
      have haround : q.directory <+: file := by
        have hnames := congrArg (List.filterMap Path.Part.name?) heq
        rw [List.filterMap_append, filterMap_name?_map, filterMap_name?_map] at hnames
        exact ⟨_, hnames.symm⟩
      rcases Nat.lt_or_ge q.directory.length p.directory.length with hlt | hge
      · exact .inr hlt
      · have hsame : q.directory = p.directory :=
          (h.innermost htree hp hfile hq haround).eq_of_length_le hge
        obtain rfl := h.distinct.eq_of_directory hq hp hsame
        rw [hbelow, List.map_append, List.append_cancel_left_eq] at heq
        rw [heq]
        exact .inl rfl
    · rw [hbelow, List.map_append]
  unfold SolutionDirectory.fileIdForPath?
  dsimp only
  rw [habsolute, htree.resolve_path hthere]
  dsimp only
  rw [hdeepest, Option.map_some, hbelow, fileIdOf_append, Path.names, filterMap_name?_map]

/-! ## Listed identifiers -/

/-- The identifier stands for this file of the project, and for no other. -/
structure Identifies (s : SolutionDirectory) (d : Disk) (p : Project) (file : Location)
    (id : String) : Prop where
  content : ∃ content, d.get? file = some (.file content)
  source : (file.getLast?.bind Path.extensionOf?).any s.settings.isSourceExtension = true
  named : ∃ relative, FileId.split? id = some (p.name, relative)
  inside : ∃ below, below ≠ [] ∧ file = p.directory ++ below
  innermost : ∀ q ∈ s.projects, q.directory <+: file → q.directory <+: p.directory
  pathForId : s.pathForId? id = some file.path
  resolve : d.resolve file.path = .ok file
  fileIdForPath : s.fileIdForPath? file.path d = some id

/-- What a project lists is the identifiers of its sources. -/
theorem Found.identifies (h : s.Found d) (htree : d.IsTree) (hp : p ∈ s.projects)
    (hfile : file ∈ s.sources p d) : s.Identifies d p file (fileIdOf p file) := by
  have hid := h.fileIdForPath? htree hp hfile
  have hinnermost := fun q hq haround => h.innermost htree hp hfile (q := q) hq haround
  obtain ⟨below, content, rfl, hne, hget, hsource, -⟩ :=
    of_mem_sources htree (h.get?_directory htree hp) hfile
  have hthere : (d.get? (p.directory ++ below)).isSome := by rw [hget]; rfl
  have hnamed := htree.isNamed hthere
  exact {
    content := ⟨content, hget⟩
    source := hsource
    named := ⟨_, h.split?_fileIdOf htree hp hnamed.right hne⟩
    inside := ⟨below, hne, rfl⟩
    innermost := hinnermost
    pathForId := h.pathForId?_fileIdOf htree hp hnamed hne
    resolve := htree.resolve_path hthere
    fileIdForPath := hid }

/-- Two files of one identifier are the same. -/
theorem Identifies.unique {other : Location} {id : String} (htree : d.IsTree)
    (h : s.Identifies d p file id) (hother : s.Identifies d q other id) : file = other := by
  obtain ⟨_, hfile⟩ := h.content
  obtain ⟨_, hotherFile⟩ := hother.content
  have hnamed : file.IsNamed := htree.isNamed (by rw [hfile]; rfl)
  have hotherNamed : other.IsNamed := htree.isNamed (by rw [hotherFile]; rfl)
  refine hnamed.path_inj hotherNamed (Option.some.inj ?_)
  rw [← h.pathForId, hother.pathForId]

/-- No identifier is listed twice. -/
theorem Found.nodup_fileIds (h : s.Found d) (htree : d.IsTree) :
    ((s.projectFiles d).flatMap (·.fileIds)).Nodup := by
  unfold projectFiles
  rw [List.flatMap_map]
  refine List.nodup_flatMap.mpr ⟨fun p hp => ?_, ?_⟩
  · -- Within a project: no source is found twice, and an identifier tells its source.
    refine List.Nodup.map_on (fun file hfile other hother heq => ?_)
      ((Disk.nodup_filesUnder ..).filter _)
    have hidentifies := h.identifies htree hp hfile
    rw [heq] at hidentifies
    exact hidentifies.unique htree (h.identifies htree hp hother)
  · -- In two projects: both would be the innermost one around the same file.
    have hprojects := List.Nodup.of_map Project.directory h.distinct.directories
    refine hprojects.imp_of_mem fun {p q} hp hq hne => ?_
    rintro id hidp hidq
    obtain ⟨file, hfile, rfl⟩ := List.mem_map.mp hidp
    obtain ⟨other, hother, heq⟩ := List.mem_map.mp hidq
    have hidentifies := h.identifies htree hp hfile
    have hotherIdentifies := h.identifies htree hq hother
    rw [heq] at hotherIdentifies
    obtain rfl := hidentifies.unique htree hotherIdentifies
    obtain ⟨_, -, hbelow⟩ := hidentifies.inside
    obtain ⟨_, -, hotherBelow⟩ := hotherIdentifies.inside
    have hpq := hotherIdentifies.innermost p hp ⟨_, hbelow.symm⟩
    have hqp := hidentifies.innermost q hq ⟨_, hotherBelow.symm⟩
    refine hne (h.distinct.eq_of_directory hp hq (hpq.eq_of_length ?_))
    exact Nat.le_antisymm hpq.length_le hqp.length_le

/-- In any directory tree, the identifiers that an opened solution lists and the files that they
stand for determine each other. -/
theorem fileIds_stable (h : openAt path settings d = .ok s) (htree : d.IsTree) :
    ((s.projectFiles d).flatMap (·.fileIds)).Nodup ∧
      ∀ files ∈ s.projectFiles d, ∃ p ∈ s.projects, files.name = p.name ∧
        ∀ id ∈ files.fileIds, ∃ file, s.Identifies d p file id := by
  have hfound := found_openAt h
  refine ⟨hfound.nodup_fileIds htree, fun files hfiles => ?_⟩
  obtain ⟨p, hp, rfl⟩ := List.mem_map.mp hfiles
  refine ⟨p, hp, rfl, fun id hid => ?_⟩
  obtain ⟨file, hfile, rfl⟩ := List.mem_map.mp hid
  exact ⟨file, hfound.identifies htree hp hfile⟩

/-! A solution with a project in a project. -/

def nestedDisk : Disk :=
  ⟨[(["s"], .directory), (["s", "A.cs"], .file .empty), (["s", "Shop.csproj"], .file .empty),
    (["s", "Web"], .directory), (["s", "Web", "A.cs"], .file .empty),
    (["s", "Web", "Web.csproj"], .file .empty)], [], by decide⟩

def nested : SolutionDirectory :=
  ⟨["s"], "s", {}, [⟨"Shop", ["s"]⟩, ⟨"Web", ["s", "Web"]⟩], none⟩

theorem under_nestedDisk (location : Location) : nestedDisk.under location =
    nestedDisk.entries.filter (location.isPrefixOf ·.1) := by
  have hsorted : nestedDisk.entries.Pairwise fun a b => Disk.locationLe a.1 b.1 = true := by
    decide +kernel
  exact List.mergeSort_of_pairwise (hsorted.sublist List.filter_sublist)

theorem openAt_nested : openAt "/s" {} nestedDisk = .ok nested := by
  have hprojects : discover {} ["s"] nestedDisk = .ok nested.projects := by
    unfold discover Disk.filesUnder
    rw [under_nestedDisk]
    rfl
  have hroot : Outcome.ofAnswer ("Cannot open solution " ++ "/s") (nestedDisk.resolve "/s") =
      .ok ["s"] := rfl
  unfold openAt
  rw [Except.bind_of_ok hroot]
  dsimp only
  rw [if_neg (by decide +kernel), hprojects]
  rfl

theorem projectFiles_nested : nested.projectFiles nestedDisk =
    [⟨"Shop", ["<Shop>/A.cs"]⟩, ⟨"Web", ["<Web>/A.cs"]⟩] := by
  unfold projectFiles sources Disk.filesUnder
  simp only [under_nestedDisk]
  decide +kernel

/-- Both files are called alike, and the inner one belongs to the inner project only. -/
theorem fileIds_stable_nested : (["<Shop>/A.cs", "<Web>/A.cs"] : List String).Nodup ∧
    ∃ p ∈ nested.projects, "Web" = p.name ∧
      ∃ file, nested.Identifies nestedDisk p file "<Web>/A.cs" := by
  obtain ⟨hnodup, hlisted⟩ := fileIds_stable openAt_nested (by decide)
  rw [projectFiles_nested] at hnodup hlisted
  obtain ⟨p, hp, hname, hids⟩ := hlisted ⟨"Web", ["<Web>/A.cs"]⟩ (by simp)
  exact ⟨hnodup, p, hp, hname, hids _ (List.mem_singleton_self _)⟩

end SolutionDirectory

end Foresight
