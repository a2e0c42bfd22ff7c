import Foresight.Proofs.Store.Saving

/-!
# What is not refused

A document can be written, removed and published where its path names a location that is no
directory, if the last name is not too long. Together with what is true once an operation has ended
well, this says that it ends, and how.
-/

namespace Foresight

namespace Disk

variable {d : Disk} {path : String} {location : Location}

/-- The last name on the way to a location is one that the system takes. -/
def IsShort (location : Location) : Prop :=
  ∀ name ∈ location.getLast?, isLongName name = false

/-- No name of anything on the disk is one that the system does not take. -/
def HasShortNames (d : Disk) : Prop := ∀ e ∈ d.entries, IsShort e.1

instance (location : Location) : Decidable (IsShort location) :=
  inferInstanceAs (Decidable (∀ name ∈ location.getLast?, isLongName name = false))

instance (d : Disk) : Decidable d.HasShortNames :=
  inferInstanceAs (Decidable (∀ e ∈ d.entries, IsShort e.1))

theorem isShort_concat {directory : Location} {name : String} :
    IsShort (directory ++ [name]) ↔ isLongName name = false := by
  unfold IsShort
  rw [List.getLast?_concat]
  simp

theorem Names.getLast? (h : d.Names path location) :
    location.getLast? = (Path.steps path).getLast? := by
  obtain ⟨init, name, directory, hsteps, -, -, rfl⟩ := h.last
  rw [hsteps, List.getLast?_concat, List.getLast?_concat]

/-- A temporary file beside a document has a name as long as that of the document. -/
theorem Names.isShort_iff {base : String} {target : Location}
    (htemp : d.Names (base ++ ".tmp") location) (htarget : d.Names (base ++ ".xml") target) :
    IsShort location ↔ IsShort target := by
  obtain ⟨init, stem, hsteps⟩ := Path.exists_steps_append base
  have hsize : (stem ++ ".tmp").utf8ByteSize = (stem ++ ".xml").utf8ByteSize := by
    rw [String.utf8ByteSize_append, String.utf8ByteSize_append]
    rfl
  unfold IsShort isLongName
  rw [htemp.getLast?, hsteps ".tmp" Path.isExtension_tmp, List.getLast?_concat,
    htarget.getLast?, hsteps ".xml" Path.isExtension_xml, List.getLast?_concat]
  simp only [Option.mem_def, Option.some.injEq, forall_eq', hsize]

theorem Names.slot (h : d.Names path location) :
    ∃ directory name, location = directory ++ [name] ∧
      d.slot path = .ok (directory, some name) := by
  obtain ⟨init, name, directory, hsteps, hname, henter, rfl⟩ := h.last
  refine ⟨directory, name, rfl, ?_⟩
  unfold Disk.slot
  rw [Except.bind_of_ok h.whole, hsteps]
  dsimp only
  rw [List.getLast?_concat, Option.filter_some, if_pos hname, List.dropLast_concat]
  dsimp only
  rw [Except.bind_of_ok henter]
  rfl

theorem Names.write_ok (h : d.Names path location) (hform : Path.isFolderForm path = false)
    (hshort : IsShort location) (hfree : d.get? location ≠ some .directory)
    (content : ByteArray) : ∃ d', d.write path content = .ok d' := by
  obtain ⟨directory, name, rfl, hslot⟩ := h.slot
  rw [isShort_concat] at hshort
  unfold write
  rw [Except.bind_of_ok hslot, hform]
  dsimp only
  cases hget : d.get? (directory ++ [name]) with
  | none => exact ⟨_, by rw [hshort]; rfl⟩
  | some entry =>
    cases entry with
    | directory => exact absurd hget hfree
    | file old => exact ⟨_, rfl⟩

theorem Names.remove_ok (h : d.Names path location) (hform : Path.isFolderForm path = false)
    {content : ByteArray} (hfile : d.get? location = some (.file content)) :
    ∃ d', d.remove path = .ok d' := by
  have hlocate : d.locate path = .ok location :=
    (h.locate_eq_ok_iff hform).mpr ⟨rfl, by rw [hfile]; rfl⟩
  unfold remove
  rw [Except.bind_of_ok hlocate, hfile]
  exact ⟨_, rfl⟩

theorem Names.remove_notFound (h : d.Names path location) (hshort : IsShort location)
    (hnone : d.get? location = none) : d.remove path = .error .notFound := by
  obtain ⟨init, name, directory, hsteps, hname, henter, rfl⟩ := h.last
  obtain ⟨hfollow, hdirectory⟩ := enter_eq_ok_iff.mp henter
  rw [isShort_concat] at hshort
  have hgone : d.follow (d.origin path) (Path.steps path) = .error .notFound := by
    rw [hsteps, follow_append, Except.bind_of_ok hfollow, follow_name hname hdirectory, hnone,
      if_neg (by simp), absence, hshort]
    rfl
  unfold remove locate resolve
  rw [Except.bind_of_ok h.whole, Except.bind_of_ok (checkText_of_checkWhole h.whole), hgone]
  rfl

end Disk

namespace Store

open Foresight.Path

variable {d : Disk} {base path : String} {location target : Location}

theorem write_ok (h : d.Names path location) (hform : isFolderForm path = false)
    (hshort : Disk.IsShort location) (hfree : d.get? location ≠ some .directory)
    (document : String) : ∃ d', Ends (write path document) d () d' := by
  obtain ⟨d', hwrite⟩ := h.write_ok hform hshort hfree document.toUTF8
  exact ⟨d', Ends.change_iff.mpr hwrite⟩

theorem removeIfExists_ok (h : d.Names path location) (hform : isFolderForm path = false)
    (hshort : Disk.IsShort location) (hfree : d.get? location ≠ some .directory) :
    ∃ d', Ends (removeIfExists path) d () d' := by
  cases hget : d.get? location with
  | none =>
    refine ⟨d, Ends.change_iff.mpr ?_⟩
    rw [h.remove_notFound hshort hget]
  | some entry =>
    cases entry with
    | directory => exact absurd hget hfree
    | file content =>
      obtain ⟨d', hremove⟩ := h.remove_ok hform hget
      refine ⟨d', Ends.change_iff.mpr ?_⟩
      rw [hremove]

/-- What lies beside a path can be published there. -/
theorem publish_ok (htemp : d.Names (base ++ ".tmp") location)
    (htarget : d.Names (base ++ ".xml") target) (hne : target ≠ location) {content : ByteArray}
    (hcontent : d.get? location = some (.file content)) (hshort : Disk.IsShort target)
    (hfree : d.get? target ≠ some .directory) :
    ∃ d', Ends (publish (base ++ ".tmp") (base ++ ".xml")) d () d' := by
  have hform := isExtension_xml.isFolderForm base
  have hform' := isExtension_tmp.isFolderForm base
  obtain ⟨d₁, hremove⟩ := removeIfExists_ok htarget hform hshort hfree
  have hsets₁ := removeIfExists_ends htarget hform hremove
  have htemp₁ := htemp.keeps hsets₁.keeps
  have hcontent₁ : d₁.get? location = some (.file content) := by
    rw [hsets₁.get?_of_ne hne.symm, hcontent]
  obtain ⟨d₂, hremove'⟩ := htemp₁.remove_ok hform' hcontent₁
  have hsets₂ := htemp₁.remove_eq_ok hform' hremove'
  have hfree₂ : d₂.get? target ≠ some .directory := by
    rw [hsets₂.get?_of_ne hne, hsets₁.get?_self]
    exact nofun
  have htarget₂ := (htarget.keeps hsets₁.keeps).keeps hsets₂.keeps
  obtain ⟨d₃, hwrite⟩ := htarget₂.write_ok hform hshort hfree₂ content
  refine ⟨d₃, Ends.bind_iff.mpr ⟨(), d₁, hremove, Ends.change_iff.mpr ?_⟩⟩
  unfold Disk.move
  rw [Except.bind_of_ok ((htemp₁.read_eq_ok_iff hform').mpr hcontent₁), Except.bind_of_ok hremove',
    hwrite]

/-- What lies beside a path can be copied there. -/
theorem replaceByCopy_ok (htemp : d.Names (base ++ ".tmp") location)
    (htarget : d.Names (base ++ ".xml") target) (hne : target ≠ location) {content : ByteArray}
    (hcontent : d.get? location = some (.file content)) (hshort : Disk.IsShort target)
    (hfree : d.get? target ≠ some .directory) :
    ∃ d', Ends (replaceByCopy (base ++ ".tmp") (base ++ ".xml")) d () d' := by
  have hform := isExtension_tmp.isFolderForm base
  obtain ⟨d₁, hwrite⟩ := htarget.write_ok (isExtension_xml.isFolderForm base) hshort hfree content
  have hcopy : d.copy (base ++ ".tmp") (base ++ ".xml") = .ok d₁ := by
    unfold Disk.copy
    rw [Except.bind_of_ok ((htemp.read_eq_ok_iff hform).mpr hcontent), hwrite]
  obtain ⟨-, place, hplace, hsets⟩ := Disk.write_eq_ok hwrite
  obtain rfl := hplace.unique htarget
  have hcontent₁ : d₁.get? location = some (.file content) := by
    rw [hsets.get?_of_ne hne.symm, hcontent]
  obtain ⟨d₂, hremove⟩ := (htemp.keeps hsets.keeps).remove_ok hform hcontent₁
  refine ⟨d₂, Ends.bind_iff.mpr ⟨(), d₁, Ends.change_iff.mpr hcopy, Ends.change_iff.mpr ?_⟩⟩
  rw [hremove]

/-- A document can be written beside a path and published there. -/
theorem save_ok (htemp : d.Names (base ++ ".tmp") location)
    (htarget : d.Names (base ++ ".xml") target) (hne : target ≠ location)
    (hshort : Disk.IsShort location) (hshort' : Disk.IsShort target)
    (hfree : d.get? location ≠ some .directory) (hfree' : d.get? target ≠ some .directory)
    (document : String) : ∃ d₁ d₂, Ends (write (base ++ ".tmp") document) d () d₁ ∧
      Ends (publish (base ++ ".tmp") (base ++ ".xml")) d₁ () d₂ := by
  obtain ⟨d₁, hwrite⟩ := write_ok htemp (isExtension_tmp.isFolderForm base) hshort hfree document
  obtain ⟨place, hplace, hsets⟩ := write_ends hwrite
  obtain rfl := hplace.unique htemp
  rw [← hsets.get?_of_ne hne] at hfree'
  obtain ⟨d₂, hpublish⟩ := publish_ok (htemp.keeps hsets.keeps) (htarget.keeps hsets.keeps) hne
    hsets.get?_self hshort' hfree'
  exact ⟨d₁, d₂, hwrite, hpublish⟩

end Store

end Foresight
