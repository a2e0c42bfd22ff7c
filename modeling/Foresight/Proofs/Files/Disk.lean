import Foresight.Files.Disk
import Foresight.Proofs.Files.Path
import Foresight.Proofs.Table
import Mathlib.Data.List.Basic

/-!
# What a path names, and what a change does

A path whose last step is a name stands for one location (`Names`), whether anything is there or
not, and goes on standing for it for as long as the directories on the way are there. Each
operation is described at that location: what is read is what is there, and a change leaves all
other locations as they were.
-/

namespace Foresight

namespace Except

variable {ε α β : Type} {x : Except ε α} {f : α → Except ε β} {a : α} {b : β}

theorem bind_of_ok (h : x = .ok a) : (x >>= f) = f a := by
  rw [h]
  rfl

/-- A computation in two steps has a result when both have one. -/
theorem bind_eq_ok_iff : (x >>= f) = .ok b ↔ ∃ a, x = .ok a ∧ f a = .ok b := by
  constructor
  · intro h
    cases x with
    | error e => cases h
    | ok a => exact ⟨a, rfl, h⟩
  · rintro ⟨a, ha, h⟩
    rw [bind_of_ok ha, h]

theorem toOption_eq_some_iff : x.toOption = some a ↔ x = .ok a := by
  cases x with
  | error e => exact ⟨nofun, nofun⟩
  | ok a' => simp [Except.toOption]

end Except

namespace Disk

variable {d d' d'' : Disk} {path : String} {location other : Location}

theorem get?_eq_some_iff {entry : DiskEntry} (hlocation : location ≠ []) :
    d.get? location = some entry ↔ (location, entry) ∈ d.entries := by
  unfold get?
  rw [if_neg hlocation]
  exact ⟨Table.mem_of_lookup, Table.lookup_of_mem d.nodup⟩

/-! ## Walking -/

theorem follow_append (d : Disk) (start : Location) (steps more : List String) :
    d.follow start (steps ++ more) = d.follow start steps >>= (d.follow · more) := by
  induction steps generalizing start with
  | nil => rfl
  | cons step rest ih =>
    rw [List.cons_append, follow, follow]
    split
    · rfl
    · rfl
    · split
      · exact ih start
      · split
        · exact ih _
        · split
          · exact ih _
          · rfl

/-- A step of a walk, to what is there. -/
def Steps (d : Disk) (start : Location) (step : String) (next : Location) : Prop :=
  if step = "." then next = start
  else if step = ".." then next = start.dropLast
  else next = start ++ [step] ∧ (d.get? next).isSome

theorem Steps.mono {start next : Location} {step : String} (h : d.Steps start step next)
    (hnext : (d.get? next).isSome → (d'.get? next).isSome) : d'.Steps start step next := by
  unfold Steps at h ⊢
  split
  · rename_i hdot
    rwa [if_pos hdot] at h
  · rename_i hdot
    rw [if_neg hdot] at h
    split
    · rename_i hup
      rwa [if_pos hup] at h
    · rename_i hup
      rw [if_neg hup] at h
      exact ⟨h.1, hnext h.2⟩

/-- A walk of one more step ends well if that step is taken from a directory, and the rest does. -/
theorem follow_cons_eq_ok_iff {start : Location} {step : String} {rest : List String} :
    d.follow start (step :: rest) = .ok location ↔ d.get? start = some .directory ∧
      ∃ next, d.Steps start step next ∧ d.follow next rest = .ok location := by
  rw [follow]
  unfold Steps
  split
  · rename_i hstart
    simp [hstart]
  · rename_i hstart
    simp [hstart]
  · rename_i hstart
    by_cases hdot : step = "."
    · simp [hstart, hdot]
    · by_cases hup : step = ".."
      · simp [hstart, hup]
      · by_cases hnext : (d.get? (start ++ [step])).isSome
        · simp [hstart, hdot, hup, hnext]
        · simp [hstart, hdot, hup, hnext]

theorem enter_eq_ok_iff {start : Location} {steps : List String} :
    d.enter start steps = .ok location ↔
      d.follow start steps = .ok location ∧ d.get? location = some .directory := by
  unfold enter
  rw [Except.bind_eq_ok_iff]
  constructor
  · rintro ⟨reached, hreached, h⟩
    split at h
    · rename_i hdirectory
      cases h
      exact ⟨hreached, hdirectory⟩
    · cases h
    · cases h
  · rintro ⟨hreached, hdirectory⟩
    refine ⟨location, hreached, ?_⟩
    rw [hdirectory]
    rfl

/-- A step with a name, from a directory. -/
theorem follow_name {name : String} (hname : Path.isName name = true)
    (h : d.get? location = some .directory) :
    d.follow location [name] =
      if (d.get? (location ++ [name])).isSome then .ok (location ++ [name])
      else .error (absence name) := by
  obtain ⟨hdot, hup⟩ : name ≠ "." ∧ name ≠ ".." := by
    simpa [Path.isName] using hname
  rw [follow, h]
  dsimp only
  rw [if_neg hdot, if_neg hup]
  rfl

/-- Directories stay directories, and relative paths start where they started. -/
structure Keeps (d d' : Disk) : Prop where
  workingDirectory : d'.workingDirectory = d.workingDirectory
  directory : ∀ l, d.get? l = some .directory → d'.get? l = some .directory

theorem Keeps.trans (h : d.Keeps d') (h' : d'.Keeps d'') : d.Keeps d'' where
  workingDirectory := h'.workingDirectory.trans h.workingDirectory
  directory l hl := h'.directory l (h.directory l hl)

/-- A walk that begins and ends in a directory is in directories all the way. -/
theorem Keeps.follow (h : d.Keeps d') {steps : List String} :
    ∀ {start : Location}, d.follow start steps = .ok location →
      d.get? location = some .directory → d'.follow start steps = .ok location := by
  induction steps with
  | nil => exact fun hfollow _ => hfollow
  | cons step rest ih =>
    intro start hfollow hlocation
    obtain ⟨hstart, next, hstep, hrest⟩ := follow_cons_eq_ok_iff.mp hfollow
    -- What is stepped to is a directory: the walk either ends there or goes on.
    have hnext : d.get? next = some .directory := by
      cases rest with
      | nil =>
        obtain rfl := Except.ok.inj hrest
        exact hlocation
      | cons more rest => exact (follow_cons_eq_ok_iff.mp hrest).1
    refine follow_cons_eq_ok_iff.mpr
      ⟨h.directory _ hstart, next, hstep.mono fun _ => ?_, ih hrest hlocation⟩
    rw [h.directory _ hnext]
    rfl

theorem Keeps.enter (h : d.Keeps d') {start : Location} {steps : List String}
    (henter : d.enter start steps = .ok location) : d'.enter start steps = .ok location := by
  obtain ⟨hfollow, hlocation⟩ := enter_eq_ok_iff.mp henter
  exact enter_eq_ok_iff.mpr ⟨h.follow hfollow hlocation, h.directory _ hlocation⟩

theorem Keeps.origin (h : d.Keeps d') (path : String) : d'.origin path = d.origin path := by
  unfold Disk.origin
  rw [h.workingDirectory]

/-! ## Locating -/

theorem checkWhole_eq_ok_iff : checkWhole path = .ok () ↔
    '\x00' ∉ path.toList ∧ path ≠ "" ∧ path.utf8ByteSize < pathLimit := by
  unfold checkWhole checkText
  rw [Except.bind_eq_ok_iff]
  by_cases hmem : '\x00' ∈ path.toList
  · simp [hmem]
  · by_cases hempty : path = ""
    · simp [hempty]
    · by_cases hlong : pathLimit ≤ path.utf8ByteSize
      · simp [hmem, hempty, hlong]
      · simp [hmem, hempty, hlong, Nat.not_le.mp hlong, pure, Except.pure]

theorem checkText_of_checkWhole (h : checkWhole path = .ok ()) : checkText path = .ok () := by
  unfold checkWhole at h
  obtain ⟨⟨⟩, htext, -⟩ := Except.bind_eq_ok_iff.mp h
  exact htext

/-- What is located is what a walk ends at, if something is there that a path of its form can
mean. -/
theorem locate_eq_ok_iff : d.locate path = .ok location ↔ checkWhole path = .ok () ∧
    d.follow (d.origin path) (Path.steps path) = .ok location ∧
    ∃ entry, d.get? location = some entry ∧
      (Path.isFolderForm path = true → entry = .directory) := by
  unfold locate resolve
  constructor
  · intro h
    obtain ⟨⟨⟩, hwhole, h⟩ := Except.bind_eq_ok_iff.mp h
    obtain ⟨_, -, h⟩ := Except.bind_eq_ok_iff.mp h
    obtain ⟨reached, hreached, h⟩ := Except.bind_eq_ok_iff.mp h
    refine ⟨hwhole, ?_⟩
    split at h
    · rename_i hfile
      split at h
      · cases h
      · rename_i hform
        obtain rfl := Except.ok.inj h
        exact ⟨hreached, _, hfile, fun hfolder => absurd hfolder hform⟩
    · rename_i hdirectory
      obtain rfl := Except.ok.inj h
      exact ⟨hreached, _, hdirectory, fun _ => rfl⟩
    · cases h
  · rintro ⟨hwhole, hfollow, entry, hentry, hform⟩
    rw [Except.bind_of_ok hwhole, Except.bind_of_ok (checkText_of_checkWhole hwhole),
      Except.bind_of_ok hfollow, hentry]
    cases entry with
    | directory => rfl
    | file content =>
      have hfolder : ¬Path.isFolderForm path = true := fun hfolder => by cases hform hfolder
      dsimp only
      rw [if_neg hfolder]
      rfl

/-! ## Names -/

/-- A path stands for a location: its last step is a name, and is taken in a directory. -/
structure Names (d : Disk) (path : String) (location : Location) : Prop where
  whole : checkWhole path = .ok ()
  last : ∃ init name directory, Path.steps path = init ++ [name] ∧ Path.isName name = true ∧
    d.enter (d.origin path) init = .ok directory ∧ location = directory ++ [name]

theorem Names.keeps (h : d.Names path location) (hk : d.Keeps d') : d'.Names path location := by
  obtain ⟨init, name, directory, hsteps, hname, henter, hlocation⟩ := h.last
  refine ⟨h.whole, init, name, directory, hsteps, hname, ?_, hlocation⟩
  rw [hk.origin]
  exact hk.enter henter

theorem Names.unique (h : d.Names path location) (h' : d.Names path other) : location = other := by
  obtain ⟨init, name, directory, hsteps, -, henter, rfl⟩ := h.last
  obtain ⟨init', name', directory', hsteps', -, henter', rfl⟩ := h'.last
  obtain ⟨rfl, hname⟩ := List.append_inj' (hsteps.symm.trans hsteps') rfl
  obtain rfl := Except.ok.inj (henter.symm.trans henter')
  rw [hname]

theorem Names.ne_nil (h : d.Names path location) : location ≠ [] := by
  obtain ⟨_, _, _, _, _, _, rfl⟩ := h.last
  simp

theorem names_of_slot {directory : Location} {name : String}
    (h : d.slot path = .ok (directory, some name)) : d.Names path (directory ++ [name]) := by
  unfold slot at h
  obtain ⟨_, hwhole, h⟩ := Except.bind_eq_ok_iff.mp h
  dsimp only at h
  split at h
  · rename_i last hlast
    obtain ⟨entered, henter, h⟩ := Except.bind_eq_ok_iff.mp h
    cases h
    obtain ⟨hlast, hname⟩ := Option.filter_eq_some_iff.mp hlast
    exact ⟨hwhole, (Path.steps path).dropLast, name, directory,
      (List.dropLast_append_getLast? name hlast).symm, hname, henter, rfl⟩
  · obtain ⟨entered, henter, h⟩ := Except.bind_eq_ok_iff.mp h
    cases h

theorem Names.follow (h : d.Names path location) :
    (∃ name, d.get? location = none ∧
      d.follow (d.origin path) (Path.steps path) = .error (absence name)) ∨
    (d.get? location).isSome ∧ d.follow (d.origin path) (Path.steps path) = .ok location := by
  obtain ⟨init, name, directory, hsteps, hname, henter, rfl⟩ := h.last
  obtain ⟨hfollow, hdirectory⟩ := enter_eq_ok_iff.mp henter
  have hstep : d.follow (d.origin path) (Path.steps path) = d.follow directory [name] := by
    rw [hsteps, follow_append, hfollow]
    rfl
  rw [hstep, follow_name hname hdirectory]
  cases hget : d.get? (directory ++ [name]) with
  | none => exact .inl ⟨name, rfl, rfl⟩
  | some entry => exact .inr ⟨rfl, rfl⟩

/-- What is at the location of a path is found there. -/
theorem Names.locate_eq_ok_iff (h : d.Names path location)
    (hform : Path.isFolderForm path = false) :
    d.locate path = .ok other ↔ other = location ∧ (d.get? location).isSome := by
  rw [Disk.locate_eq_ok_iff]
  constructor
  · rintro ⟨-, hfollow, -⟩
    obtain ⟨name, -, herror⟩ | ⟨hsome, hreached⟩ := h.follow
    · rw [herror] at hfollow
      cases hfollow
    · exact ⟨Except.ok.inj (hfollow.symm.trans hreached), hsome⟩
  · rintro ⟨rfl, hsome⟩
    obtain ⟨name, hnone, -⟩ | ⟨-, hreached⟩ := h.follow
    · rw [hnone] at hsome
      cases hsome
    · obtain ⟨entry, hentry⟩ := Option.isSome_iff_exists.mp hsome
      refine ⟨h.whole, hreached, entry, hentry, fun hfolder => ?_⟩
      rw [hform] at hfolder
      cases hfolder

/-- What is read at a path is what its location holds. -/
theorem Names.read_eq_ok_iff (h : d.Names path location) (hform : Path.isFolderForm path = false)
    {content : ByteArray} :
    d.read path = .ok content ↔ d.get? location = some (.file content) := by
  unfold read
  rw [Except.bind_eq_ok_iff]
  constructor
  · rintro ⟨found, hfound, hread⟩
    obtain ⟨rfl, -⟩ := (h.locate_eq_ok_iff hform).mp hfound
    split at hread
    · rename_i hget
      rw [hget, Except.ok.inj hread]
    · cases hread
    · cases hread
  · intro hget
    refine ⟨location, (h.locate_eq_ok_iff hform).mpr ⟨rfl, by rw [hget]; rfl⟩, ?_⟩
    rw [hget]
    rfl

/-! ## Changes -/

/-- A change of one location, which is no directory: what is there afterwards, if anything. -/
structure Sets (d d' : Disk) (location : Location) (entry : Option DiskEntry) : Prop where
  workingDirectory : d'.workingDirectory = d.workingDirectory
  ne_directory : d.get? location ≠ some .directory
  get? : ∀ l, d'.get? l = if l = location then entry else d.get? l

theorem Sets.keeps {entry : Option DiskEntry} (h : d.Sets d' location entry) : d.Keeps d' where
  workingDirectory := h.workingDirectory
  directory l hl := by
    rw [h.get?, if_neg, hl]
    rintro rfl
    exact h.ne_directory hl

theorem Sets.get?_self {entry : Option DiskEntry} (h : d.Sets d' location entry) :
    d'.get? location = entry := by
  rw [h.get?, if_pos rfl]

theorem Sets.get?_of_ne {entry : Option DiskEntry} (h : d.Sets d' location entry)
    (hne : other ≠ location) : d'.get? other = d.get? other := by
  rw [h.get?, if_neg hne]

theorem sets_put {entry : DiskEntry} (hlocation : location ≠ [])
    (h : d.get? location ≠ some .directory) :
    d.Sets (d.put location entry) location (some entry) :=
  ⟨rfl, h, fun l => get?_put d entry l hlocation⟩

theorem sets_erase (hlocation : location ≠ []) (h : d.get? location ≠ some .directory) :
    d.Sets (d.erase location) location none := by
  refine ⟨rfl, h, fun l => ?_⟩
  by_cases hl : l = []
  · rw [if_neg (hl ▸ hlocation.symm), hl]
    rfl
  · unfold erase
    rw [get?_restrict d _ hl]
    by_cases heq : l = location
    · rw [if_pos heq, heq, if_neg (by simp)]
    · rw [if_neg heq, if_pos (by simpa using heq)]

/-- A file that is written is at the location of its path. -/
theorem write_eq_ok {content : ByteArray} (h : d.write path content = .ok d') :
    Path.isFolderForm path = false ∧
      ∃ location, d.Names path location ∧ d.Sets d' location (some (.file content)) := by
  unfold write at h
  obtain ⟨⟨directory, last⟩, hslot, h⟩ := Except.bind_eq_ok_iff.mp h
  cases last with
  | none => cases h
  | some name =>
    have hnames : d.Names path (directory ++ [name]) := names_of_slot hslot
    dsimp only at h
    split at h
    · cases h
    · rename_i hform
      refine ⟨by simpa using hform, _, hnames, ?_⟩
      have hput : d.get? (directory ++ [name]) ≠ some .directory ∧
          d' = d.put (directory ++ [name]) (.file content) := by
        split at h
        · cases h
        · rename_i hget
          rw [hget]
          exact ⟨nofun, (Except.ok.inj h).symm⟩
        · rename_i hget
          rw [hget]
          split at h
          · cases h
          · exact ⟨nofun, (Except.ok.inj h).symm⟩
      obtain ⟨hne, rfl⟩ := hput
      exact sets_put hnames.ne_nil hne

theorem Names.remove_eq_ok (h : d.Names path location) (hform : Path.isFolderForm path = false)
    (hremove : d.remove path = .ok d') : d.Sets d' location none := by
  unfold remove at hremove
  obtain ⟨found, hfound, hremove⟩ := Except.bind_eq_ok_iff.mp hremove
  obtain ⟨rfl, -⟩ := (h.locate_eq_ok_iff hform).mp hfound
  split at hremove
  · rename_i hget
    obtain rfl := Except.ok.inj hremove
    exact sets_erase h.ne_nil (by rw [hget]; nofun)
  · cases hremove
  · cases hremove

/-- Nothing is at the location of a path that cannot be removed because it is not there. -/
theorem Names.remove_eq_notFound (h : d.Names path location)
    (hform : Path.isFolderForm path = false) (hremove : d.remove path = .error .notFound) :
    d.get? location = none := by
  cases hget : d.get? location with
  | none => rfl
  | some entry =>
    have hlocate : d.locate path = .ok location :=
      (h.locate_eq_ok_iff hform).mpr ⟨rfl, by rw [hget]; rfl⟩
    unfold remove at hremove
    rw [Except.bind_of_ok hlocate, hget] at hremove
    cases entry with
    | file _ => cases hremove
    | directory => cases hremove

/-! ## Directories around a path -/

/-- Whatever was there is there. -/
structure Grows (d d' : Disk) : Prop where
  workingDirectory : d'.workingDirectory = d.workingDirectory
  get? : ∀ l entry, d.get? l = some entry → d'.get? l = some entry

theorem Grows.refl (d : Disk) : d.Grows d := ⟨rfl, fun _ _ h => h⟩

theorem Grows.trans (h : d.Grows d') (h' : d'.Grows d'') : d.Grows d'' where
  workingDirectory := h'.workingDirectory.trans h.workingDirectory
  get? l entry hl := h'.get? l entry (h.get? l entry hl)

theorem Grows.keeps (h : d.Grows d') : d.Keeps d' := ⟨h.workingDirectory, fun l => h.get? l _⟩

theorem Grows.follow (h : d.Grows d') {steps : List String} :
    ∀ {start : Location}, d.follow start steps = .ok location →
      d'.follow start steps = .ok location := by
  induction steps with
  | nil => exact fun hfollow => hfollow
  | cons step rest ih =>
    intro start hfollow
    obtain ⟨hstart, next, hstep, hrest⟩ := follow_cons_eq_ok_iff.mp hfollow
    refine follow_cons_eq_ok_iff.mpr
      ⟨h.get? _ _ hstart, next, hstep.mono fun hsome => ?_, ih hrest⟩
    obtain ⟨entry, hentry⟩ := Option.isSome_iff_exists.mp hsome
    rw [h.get? _ _ hentry]
    rfl

theorem Grows.locate (h : d.Grows d') (hlocate : d.locate path = .ok location) :
    d'.locate path = .ok location := by
  obtain ⟨hwhole, hfollow, entry, hentry, hform⟩ := locate_eq_ok_iff.mp hlocate
  refine locate_eq_ok_iff.mpr ⟨hwhole, ?_, entry, h.get? _ _ hentry, hform⟩
  rw [h.keeps.origin]
  exact h.follow hfollow

/-- What can be read can be read afterwards. -/
theorem Grows.read (h : d.Grows d') {content : ByteArray} (hread : d.read path = .ok content) :
    d'.read path = .ok content := by
  unfold Disk.read at hread ⊢
  obtain ⟨place, hplace, hcontent⟩ := Except.bind_eq_ok_iff.mp hread
  obtain ⟨-, -, entry, hentry, -⟩ := locate_eq_ok_iff.mp hplace
  refine Except.bind_eq_ok_iff.mpr ⟨place, h.locate hplace, ?_⟩
  rw [h.get? _ _ hentry, ← hentry]
  exact hcontent

theorem makeDirectory_eq_ok (h : d.makeDirectory path = .ok d') :
    ∃ location, d.Names path location ∧ d.get? location = none ∧
      d' = d.put location .directory := by
  unfold makeDirectory at h
  obtain ⟨⟨directory, last⟩, hslot, h⟩ := Except.bind_eq_ok_iff.mp h
  cases last with
  | none => cases h
  | some name =>
    dsimp only at h
    split at h
    · cases h
    · rename_i hnone
      split at h
      · cases h
      · exact ⟨_, names_of_slot hslot, by simpa using hnone, (Except.ok.inj h).symm⟩

theorem grows_haveDirectory (h : d.haveDirectory path = .ok d') : d.Grows d' := by
  unfold haveDirectory at h
  split at h
  · rename_i made hmade
    obtain rfl := Except.ok.inj h
    obtain ⟨location, hnames, hnone, rfl⟩ := makeDirectory_eq_ok hmade
    refine ⟨rfl, fun l entry hl => ?_⟩
    rw [get?_put d _ l hnames.ne_nil, if_neg, hl]
    rintro rfl
    rw [hnone] at hl
    cases hl
  · split at h
    · obtain rfl := Except.ok.inj h
      exact .refl d
    · cases h

/-- Making a directory and those around it takes nothing away, whether it comes to an end or not. -/
theorem grows_makeDirectories (room : Nat) :
    ∀ (d : Disk) (path : String), d.Grows (d.makeDirectories room path).2 := by
  induction room with
  | zero => exact fun d _ => .refl d
  | succ room ih =>
    intro d path
    rw [makeDirectories]
    split
    · exact .refl d
    · split
      · rename_i hmade
        exact grows_haveDirectory hmade
      · have hparent := ih d ((Path.parent? path).getD "")
        split
        · rename_i around haround
          rw [haround] at hparent
          split
          · rename_i hmade
            exact hparent.trans (grows_haveDirectory hmade)
          · exact hparent
        · exact hparent
      · exact .refl d

/-- Nothing is made where there is a directory. -/
theorem createDirectories_of_locate (h : d.locate path = .ok location)
    (hdirectory : d.get? location = some .directory) : d.createDirectories path = (.ok (), d) := by
  have hthere : d.isDirectory path = true := by
    have hentry : d.entryAt? path = some .directory := by
      unfold entryAt?
      rw [h]
      exact hdirectory
    unfold isDirectory
    rw [hentry]
    rfl
  have hmade : d.haveDirectory path = .ok d := by
    unfold haveDirectory
    split
    · rename_i made hmade
      -- The location of a path of which nothing is there cannot be found.
      obtain ⟨place, hnames, hnone, -⟩ := makeDirectory_eq_ok hmade
      obtain ⟨-, hreached, -⟩ := locate_eq_ok_iff.mp h
      obtain ⟨name, -, herror⟩ | ⟨hsome, -⟩ := hnames.follow
      · rw [herror] at hreached
        cases hreached
      · rw [hnone] at hsome
        cases hsome
    · rw [if_pos hthere]
  unfold createDirectories
  rw [makeDirectories, hmade]
  split
  · rfl
  · rfl

/-- A name in a directory that a path leads to. -/
theorem names_join {root name : String} (h : d.locate root = .ok location)
    (hdirectory : d.get? location = some .directory) (hext : Path.IsExtension name)
    (hname : Path.isName name = true) (hwhole : checkWhole (Path.join root name) = .ok ()) :
    d.Names (Path.join root name) (location ++ [name]) := by
  obtain ⟨hwholeRoot, hreached, -⟩ := locate_eq_ok_iff.mp h
  have hroot : root ≠ "" := (checkWhole_eq_ok_iff.mp hwholeRoot).2.1
  refine ⟨hwhole, Path.steps root, name, location, Path.steps_join hroot hext, hname, ?_, rfl⟩
  have horigin : d.origin (Path.join root name) = d.origin root := by
    unfold origin
    rw [Path.isAbsolute_join hroot hext]
  rw [horigin]
  exact enter_eq_ok_iff.mpr ⟨hreached, hdirectory⟩

/-! ## A path with one extension or another -/

/-- The temporary path beside a path stands for a location beside that of the path. -/
theorem Names.xml_of_tmp {base : String} (h : d.Names (base ++ ".tmp") location) :
    ∃ target, d.Names (base ++ ".xml") target ∧ target ≠ location := by
  obtain ⟨init, stem, hsteps⟩ := Path.exists_steps_append base
  obtain ⟨init', name, directory, hsteps', -, henter, rfl⟩ := h.last
  obtain ⟨rfl, hlast⟩ := List.append_inj'
    ((hsteps ".tmp" Path.isExtension_tmp).symm.trans hsteps') rfl
  obtain rfl : stem ++ ".tmp" = name := (List.cons_eq_cons.mp hlast).1
  have hbeside : directory ++ [stem ++ ".xml"] ≠ directory ++ [stem ++ ".tmp"] := by
    intro heq
    have hstep := (List.cons_eq_cons.mp (List.append_cancel_left heq)).1
    exact absurd (String.append_right_inj stem |>.mp hstep) (by decide)
  refine ⟨directory ++ [stem ++ ".xml"], ⟨?_, init, stem ++ ".xml", directory,
    hsteps ".xml" Path.isExtension_xml, ?_, ?_, rfl⟩, hbeside⟩
  · obtain ⟨hnul, -, hsize⟩ := checkWhole_eq_ok_iff.mp h.whole
    rw [String.toList_append, List.mem_append, not_or] at hnul
    refine checkWhole_eq_ok_iff.mpr ⟨?_, ?_, ?_⟩
    · rw [String.toList_append, List.mem_append, not_or]
      exact ⟨hnul.1, by decide⟩
    · exact fun hempty => absurd (String.append_eq_empty_iff.mp hempty).2 (by decide)
    · have hxml : ".xml".utf8ByteSize = ".tmp".utf8ByteSize := by decide
      rw [String.utf8ByteSize_append, hxml, ← String.utf8ByteSize_append]
      exact hsize
  · exact Path.isName_append stem (by decide)
  · have horigin : d.origin (base ++ ".xml") = d.origin (base ++ ".tmp") := by
      unfold origin
      by_cases hbase : base = ""
      · rw [hbase, String.empty_append, String.empty_append, Path.isExtension_xml.isAbsolute,
          Path.isExtension_tmp.isAbsolute]
      · rw [Path.isAbsolute_append hbase, Path.isAbsolute_append hbase]
    rw [horigin]
    exact henter

/-- What happens to the temporary file beside a document does not matter to the document. -/
theorem Names.read_beside {base : String} {entry : Option DiskEntry} {content : ByteArray}
    (h : d.Names (base ++ ".tmp") location) (hsets : d.Sets d' location entry) :
    d'.read (base ++ ".xml") = .ok content ↔ d.read (base ++ ".xml") = .ok content := by
  obtain ⟨target, htarget, hne⟩ := h.xml_of_tmp
  have hform := Path.isExtension_xml.isFolderForm base
  rw [(htarget.keeps hsets.keeps).read_eq_ok_iff hform, htarget.read_eq_ok_iff hform,
    hsets.get?_of_ne hne]

end Disk

end Foresight
