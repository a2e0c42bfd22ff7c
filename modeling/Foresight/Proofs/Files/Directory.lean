import Foresight.Proofs.Files.Disk
import Mathlib.Data.List.Sort
import Mathlib.Data.String.Basic

/-!
# A directory and what lies in it

A path that leads to a directory (`Leads`) goes on leading there for as long as directories stay.
What lies in it is named once each, in order (`mem_namesIn`, `pairwise_namesIn`), and is found under
the path with the name behind it.
-/

namespace Foresight

theorem Path.isFolderForm_join {root name : String} (h : IsExtension name) :
    isFolderForm (join root name) = false := by
  have hname : isFolderForm name = false := by
    have hform := h.isFolderForm ""
    rwa [String.empty_append] at hform
  unfold join
  split
  · exact hname
  · split
    · exact h.isFolderForm root
    · exact h.isFolderForm (root ++ "/")

namespace Disk

variable {d d' : Disk} {root name : String} {location : Location}

/-- A path leads to a directory. -/
structure Leads (d : Disk) (root : String) (location : Location) : Prop where
  locate : d.locate root = .ok location
  directory : d.get? location = some .directory

theorem Leads.keeps (h : d.Leads root location) (hk : d.Keeps d') : d'.Leads root location := by
  obtain ⟨hwhole, hfollow, -⟩ := locate_eq_ok_iff.mp h.locate
  have hdirectory := hk.directory _ h.directory
  refine ⟨locate_eq_ok_iff.mpr ⟨hwhole, ?_, _, hdirectory, fun _ => rfl⟩, hdirectory⟩
  rw [hk.origin]
  exact hk.follow hfollow h.directory

theorem Names.leads {path : String} (h : d.Names path location)
    (hdirectory : d.get? location = some .directory) : d.Leads path location := by
  refine ⟨Disk.locate_eq_ok_iff.mpr ⟨h.whole, ?_, _, hdirectory, fun _ => rfl⟩, hdirectory⟩
  obtain ⟨name, hnone, -⟩ | ⟨-, hreached⟩ := h.follow
  · rw [hnone] at hdirectory
    cases hdirectory
  · exact hreached

theorem leads_of_haveDirectory (h : d.haveDirectory root = .ok d') :
    ∃ location, d'.Leads root location := by
  unfold haveDirectory at h
  split at h
  · rename_i made hmade
    obtain rfl := Except.ok.inj h
    obtain ⟨location, hnames, hnone, rfl⟩ := makeDirectory_eq_ok hmade
    have hsets : d.Sets (d.put location .directory) location (some .directory) :=
      sets_put hnames.ne_nil (by rw [hnone]; nofun)
    exact ⟨location, (hnames.keeps hsets.keeps).leads hsets.get?_self⟩
  · split at h
    · rename_i hthere
      obtain rfl := Except.ok.inj h
      have hentry : (d.locate root).toOption.bind d.get? = some .directory := by
        simpa [isDirectory, entryAt?] using hthere
      obtain ⟨location, hlocate, hdirectory⟩ := Option.bind_eq_some_iff.mp hentry
      exact ⟨location, Except.toOption_eq_some_iff.mp hlocate, hdirectory⟩
    · cases h

/-- A directory that has been made is there, if the path is not empty. -/
theorem leads_of_createDirectories (h : d.createDirectories root = (.ok (), d')) :
    root = "" ∨ ∃ location, d'.Leads root location := by
  unfold createDirectories at h
  rw [makeDirectories] at h
  split at h
  · rename_i hempty
    exact .inl (by simpa using hempty)
  · refine .inr ?_
    split at h
    · rename_i hmade
      cases h
      exact leads_of_haveDirectory hmade
    · split at h
      · split at h
        · rename_i hmade
          cases h
          exact leads_of_haveDirectory hmade
        · cases h
      · rename_i hrefused
        exact absurd h (hrefused d')
    · cases h

/-- A directory that has been made need not be made again. -/
theorem createDirectories_again {made : Disk} (h : d.createDirectories root = (.ok (), made))
    (hk : made.Keeps d') : d'.createDirectories root = (.ok (), d') := by
  rcases leads_of_createDirectories h with rfl | ⟨location, hleads⟩
  · rfl
  · have hleads' := hleads.keeps hk
    exact createDirectories_of_locate hleads'.locate hleads'.directory

/-- What can be the name of a file in a directory. -/
structure IsEntryName (name : String) : Prop where
  extension : Path.IsExtension name
  isName : Path.isName name = true

theorem Leads.names (h : d.Leads root location) (hname : IsEntryName name)
    (hwhole : checkWhole (Path.join root name) = .ok ()) :
    d.Names (Path.join root name) (location ++ [name]) :=
  names_join h.locate h.directory hname.extension hname.isName hwhole

theorem checkWhole_of_read {path : String} {content : ByteArray} (h : d.read path = .ok content) :
    checkWhole path = .ok () := by
  obtain ⟨_, hlocate, -⟩ := Except.bind_eq_ok_iff.mp h
  exact (locate_eq_ok_iff.mp hlocate).1

/-- A file in the directory is read under its name, if the path is not too long. -/
theorem Leads.read_eq_ok_iff (h : d.Leads root location) (hname : IsEntryName name)
    {content : ByteArray} :
    d.read (Path.join root name) = .ok content ↔
      checkWhole (Path.join root name) = .ok () ∧
        d.get? (location ++ [name]) = some (.file content) := by
  have hform : Path.isFolderForm (Path.join root name) = false :=
    Path.isFolderForm_join hname.extension
  constructor
  · intro hread
    have hwhole := checkWhole_of_read hread
    exact ⟨hwhole, ((h.names hname hwhole).read_eq_ok_iff hform).mp hread⟩
  · rintro ⟨hwhole, hget⟩
    exact ((h.names hname hwhole).read_eq_ok_iff hform).mpr hget

theorem isFile_iff {path : String} :
    d.isFile path = true ↔ ∃ content, d.read path = .ok content := by
  unfold isFile entryAt? Disk.read
  cases d.locate path with
  | error refusal => simp [Except.toOption, bind, Except.bind]
  | ok place =>
    simp only [Except.toOption, Option.bind_some, bind, Except.bind]
    cases d.get? place with
    | none => simp [throw, throwThe, MonadExceptOf.throw]
    | some entry =>
      cases entry with
      | directory => simp [throw, throwThe, MonadExceptOf.throw]
      | file content => simp [pure, Except.pure]

/-! ## Names in a directory -/

theorem locationLe_iff {a b : Location} : locationLe a b = true ↔ ¬b < a := by
  simp [locationLe]

theorem locationLe_trans (a b c : Location × DiskEntry) (h : locationLe a.1 b.1 = true)
    (h' : locationLe b.1 c.1 = true) : locationLe a.1 c.1 = true := by
  rw [locationLe_iff, List.not_lt] at h h' ⊢
  exact List.le_trans h h'

theorem locationLe_total (a b : Location × DiskEntry) :
    (locationLe a.1 b.1 || locationLe b.1 a.1) = true := by
  rw [Bool.or_eq_true, locationLe_iff, locationLe_iff, List.not_lt, List.not_lt]
  exact List.le_total a.1 b.1

theorem mem_under {e : Location × DiskEntry} :
    e ∈ d.under location ↔ e ∈ d.entries ∧ location <+: e.1 := by
  unfold under
  rw [List.mem_mergeSort, List.mem_filter, List.isPrefixOf_iff_prefix]

/-- The name under which an entry lies directly in a directory. -/
theorem nameIn_eq_some_iff {e : Location × DiskEntry} (h : location <+: e.1) :
    (match e.1.drop location.length with
      | [name] => some name
      | _ => none) = some name ↔ e.1 = location ++ [name] := by
  obtain ⟨rest, hrest⟩ := h
  rw [← hrest, List.drop_left, List.append_cancel_left_eq]
  constructor
  · intro h
    split at h
    · rw [Option.some.inj h]
    · cases h
  · rintro rfl
    rfl

/-- The names in a directory are those of what is there. -/
theorem mem_namesIn : name ∈ d.namesIn location ↔ (d.get? (location ++ [name])).isSome := by
  have hget : d.get? (location ++ [name]) = d.entries.lookup (location ++ [name]) :=
    if_neg (by simp)
  rw [hget, List.lookup_isSome_iff, namesIn, List.mem_filterMap]
  constructor
  · rintro ⟨e, he, hname⟩
    obtain ⟨hmem, hprefix⟩ := mem_under.mp he
    exact ⟨e, hmem, beq_iff_eq.mpr ((nameIn_eq_some_iff hprefix).mp hname).symm⟩
  · rintro ⟨e, hmem, hkey⟩
    have hlocation : e.1 = location ++ [name] := (beq_iff_eq.mp hkey).symm
    have hprefix : location <+: e.1 := hlocation ▸ List.prefix_append location [name]
    exact ⟨e, mem_under.mpr ⟨hmem, hprefix⟩, (nameIn_eq_some_iff hprefix).mpr hlocation⟩

theorem le_of_locationLe {x y : String}
    (h : locationLe (location ++ [x]) (location ++ [y]) = true) : x ≤ y := by
  by_contra hlt
  have hstep : [y] < [x] := List.cons_lt_cons_iff.mpr (.inl (not_le.mp hlt))
  exact locationLe_iff.mp h (List.append_left_lt hstep)

/-- The names in a directory are in order, each once. -/
theorem pairwise_namesIn : (d.namesIn location).Pairwise (· < ·) := by
  have hsorted : (d.under location).Pairwise fun a b => locationLe a.1 b.1 = true :=
    List.pairwise_mergeSort locationLe_trans locationLe_total _
  have hperm : (d.under location).Perm (d.entries.filter fun e => location.isPrefixOf e.1) :=
    List.mergeSort_perm ..
  have hdistinct : ((d.under location).map Prod.fst).Nodup :=
    (hperm.map Prod.fst).nodup_iff.mpr (d.nodup.sublist (List.filter_sublist.map Prod.fst))
  have hne : (d.under location).Pairwise fun a b => a.1 ≠ b.1 := List.pairwise_map.mp hdistinct
  refine List.pairwise_filterMap.mpr ((hsorted.and hne).imp_of_mem ?_)
  rintro a b ha hb ⟨hle, hne⟩ x hx y hy
  have hlocation := (nameIn_eq_some_iff (mem_under.mp ha).2).mp hx
  have hlocation' := (nameIn_eq_some_iff (mem_under.mp hb).2).mp hy
  rw [hlocation, hlocation'] at hle hne
  refine lt_of_le_of_ne (le_of_locationLe hle) ?_
  rintro rfl
  exact hne rfl

end Disk

end Foresight
