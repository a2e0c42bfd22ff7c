import Foresight.Proofs.Files.Disk
import Foresight.Session

/-!
# Saving a document

An action ends well with a result and a disk (`Ends`), and an action in steps does when each of its
steps does. Whether a document is published or takes the place of another one by copying, the disk
afterwards is the same: the document is in its place, the temporary file is gone, and everything
else is as it was (`Saves`).
-/

namespace Foresight

/-- An action ends well: with this result, and in this state. -/
def Ends {σ α : Type} (action : ExceptT Failure (StateM σ) α) (s : σ) (a : α) (s' : σ) : Prop :=
  action.run.run s = (.ok a, s')

namespace Ends

section Steps

variable {σ α β : Type} {s s' : σ} {a : α} {b : β}

theorem bind_iff {x : ExceptT Failure (StateM σ) α} {f : α → ExceptT Failure (StateM σ) β} :
    Ends (x >>= f) s b s' ↔ ∃ a reached, Ends x s a reached ∧ Ends (f a) reached b s' := by
  obtain ⟨outcome, reached, hx⟩ : ∃ outcome reached, x.run.run s = (outcome, reached) :=
    ⟨_, _, rfl⟩
  unfold Ends
  rw [ExceptT.run_bind, StateT.run_bind, hx]
  cases outcome with
  | error e =>
    constructor
    · exact nofun
    · rintro ⟨_, _, h, -⟩
      cases h
  | ok a =>
    constructor
    · exact fun h => ⟨a, reached, rfl, h⟩
    · rintro ⟨_, _, h, hf⟩
      cases h
      exact hf

theorem pure_iff {b : α} : Ends (pure b) s a s' ↔ b = a ∧ s = s' := by
  constructor
  · intro h
    cases h
    exact ⟨rfl, rfl⟩
  · rintro ⟨rfl, rfl⟩
    rfl

theorem get_iff {a : σ} : Ends (get : ExceptT Failure (StateM σ) σ) s a s' ↔ s = a ∧ s = s' := by
  constructor
  · intro h
    cases h
    exact ⟨rfl, rfl⟩
  · rintro ⟨rfl, rfl⟩
    rfl

theorem set_iff {t : σ} {u : PUnit} :
    Ends (set t : ExceptT Failure (StateM σ) PUnit) s u s' ↔ t = s' := by
  constructor
  · intro h
    cases h
    rfl
  · rintro rfl
    rfl

theorem modify_iff {f : σ → σ} {u : PUnit} :
    Ends (modify f : ExceptT Failure (StateM σ) PUnit) s u s' ↔ f s = s' := by
  constructor
  · intro h
    cases h
    rfl
  · rintro rfl
    rfl

end Steps

section Disk

variable {α : Type} {d d' : Disk} {a : α}

theorem look_iff {f : Disk → Outcome α} : Ends (OnDisk.look f) d a d' ↔ f d = .ok a ∧ d = d' :=
  Prod.ext_iff

theorem change_iff {doing : String} {f : Disk → Disk.Answer Disk} {u : Unit} :
    Ends (OnDisk.change doing f) d u d' ↔ f d = .ok d' := by
  unfold Ends
  cases hf : f d with
  | error cause =>
    have hrun : (OnDisk.change doing f).run.run d = (.error (.io doing cause), d) := by
      simp only [ExceptT.run, StateT.run, OnDisk.change, hf]
    rw [hrun]
    constructor
    · intro h
      cases h
    · intro h
      cases h
  | ok after =>
    have hrun : (OnDisk.change doing f).run.run d = (.ok (), after) := by
      simp only [ExceptT.run, StateT.run, OnDisk.change, hf]
    rw [hrun]
    constructor
    · intro h
      cases h
      rfl
    · intro h
      cases h
      rfl

theorem changeInSteps_iff {doing : String} {f : Disk → Disk.Answer Unit × Disk} {u : Unit} :
    Ends (OnDisk.changeInSteps doing f) d u d' ↔ f d = (.ok (), d') := by
  have hrun : (OnDisk.changeInSteps doing f).run.run d =
      ((f d).1.mapError (Failure.io doing), (f d).2) := rfl
  unfold Ends
  rw [hrun]
  obtain ⟨answer, after⟩ := f d
  cases answer with
  | error cause =>
    constructor
    · intro h
      cases h
    · intro h
      cases h
  | ok u =>
    constructor
    · intro h
      cases h
      rfl
    · intro h
      cases h
      rfl

end Disk

section Session

variable {α : Type} {s s' : Session} {a : α}

theorem check_iff {outcome : Outcome α} :
    Ends (Session.check outcome) s a s' ↔ outcome = .ok a ∧ s = s' :=
  Prod.ext_iff

theorem onDisk_iff {action : OnDisk α} : Ends (Session.onDisk action) s a s' ↔
    ∃ d', Ends action s.disk a d' ∧ { s with disk := d' } = s' := by
  have hrun : (Session.onDisk action).run.run s =
      ((action.run.run s.disk).1, { s with disk := (action.run.run s.disk).2 }) := rfl
  unfold Ends
  rw [hrun]
  constructor
  · intro h
    obtain ⟨houtcome, hs'⟩ := Prod.ext_iff.mp h
    exact ⟨_, Prod.ext houtcome rfl, hs'⟩
  · rintro ⟨d', h, rfl⟩
    rw [h]

end Session

end Ends

/-! ## Into the place of a document -/

/-- A document is at its path, the temporary file beside it is gone, and all else is as it was. -/
structure Saves (d d' : Disk) (base : String) (content : ByteArray) : Prop where
  keeps : d.Keeps d'
  places : ∃ temp target, d.Names (base ++ ".tmp") temp ∧ d.Names (base ++ ".xml") target ∧
    ∀ l, d'.get? l =
      if l = target then some (.file content) else if l = temp then none else d.get? l

namespace Store

open Foresight.Path

variable {d d' : Disk} {base document : String} {location : Location} {u : Unit}

theorem write_ends {path : String} (h : Ends (write path document) d u d') :
    ∃ location, d.Names path location ∧ d.Sets d' location (some (.file document.toUTF8)) :=
  (Disk.write_eq_ok (Ends.change_iff.mp h)).2

theorem removeIfExists_ends {path : String} (hnames : d.Names path location)
    (hform : isFolderForm path = false) (h : Ends (removeIfExists path) d u d') :
    d.Sets d' location none := by
  have hremove := Ends.change_iff.mp h
  split at hremove
  · rename_i hnone
    obtain rfl := Except.ok.inj hremove
    have hget := hnames.remove_eq_notFound hform hnone
    refine ⟨rfl, by rw [hget]; nofun, fun l => ?_⟩
    split
    · rename_i hl
      rw [hl, hget]
    · rfl
  · exact hnames.remove_eq_ok hform hremove

theorem publish_ends {target : Location} (htemp : d.Names (base ++ ".tmp") location)
    (htarget : d.Names (base ++ ".xml") target) (hne : target ≠ location)
    (h : Ends (publish (base ++ ".tmp") (base ++ ".xml")) d u d') :
    d.Keeps d' ∧ ∃ content, d.get? location = some (.file content) ∧ ∀ l, d'.get? l =
      if l = target then some (.file content) else if l = location then none else d.get? l := by
  obtain ⟨_, d₁, hremove, hmove⟩ := Ends.bind_iff.mp h
  have hsets₁ := removeIfExists_ends htarget (isExtension_xml.isFolderForm base) hremove
  have hmove := Ends.change_iff.mp hmove
  unfold Disk.move at hmove
  obtain ⟨content, hread, hmove⟩ := Except.bind_eq_ok_iff.mp hmove
  obtain ⟨d₂, hremove, hwrite⟩ := Except.bind_eq_ok_iff.mp hmove
  have htemp₁ := htemp.keeps hsets₁.keeps
  have hform := isExtension_tmp.isFolderForm base
  have hsets₂ := htemp₁.remove_eq_ok hform hremove
  obtain ⟨-, place, hplace, hsets₃⟩ := Disk.write_eq_ok hwrite
  obtain rfl : place = target :=
    hplace.unique ((htarget.keeps hsets₁.keeps).keeps hsets₂.keeps)
  have hcontent := (htemp₁.read_eq_ok_iff hform).mp hread
  rw [hsets₁.get?_of_ne hne.symm] at hcontent
  refine ⟨(hsets₁.keeps.trans hsets₂.keeps).trans hsets₃.keeps, content, hcontent, fun l => ?_⟩
  rw [hsets₃.get?, hsets₂.get?, hsets₁.get?]
  split
  · rfl
  · rfl

theorem replaceByCopy_ends {target : Location} (htemp : d.Names (base ++ ".tmp") location)
    (htarget : d.Names (base ++ ".xml") target) (hne : target ≠ location)
    (h : Ends (replaceByCopy (base ++ ".tmp") (base ++ ".xml")) d u d') :
    d.Keeps d' ∧ ∃ content, d.get? location = some (.file content) ∧ ∀ l, d'.get? l =
      if l = target then some (.file content) else if l = location then none else d.get? l := by
  obtain ⟨_, d₁, hcopy, hremove⟩ := Ends.bind_iff.mp h
  have hcopy := Ends.change_iff.mp hcopy
  unfold Disk.copy at hcopy
  obtain ⟨content, hread, hwrite⟩ := Except.bind_eq_ok_iff.mp hcopy
  have hform := isExtension_tmp.isFolderForm base
  obtain ⟨-, place, hplace, hsets₁⟩ := Disk.write_eq_ok hwrite
  obtain rfl : place = target := hplace.unique htarget
  have hsets₂ := removeIfExists_ends (htemp.keeps hsets₁.keeps) hform hremove
  refine ⟨hsets₁.keeps.trans hsets₂.keeps, content, (htemp.read_eq_ok_iff hform).mp hread,
    fun l => ?_⟩
  rw [hsets₂.get?, hsets₁.get?]
  by_cases hl : l = location
  · rw [if_pos hl, if_neg (hl ▸ hne.symm), if_pos hl]
  · rw [if_neg hl, if_neg hl]

/-- A document that is written beside a path first, and then takes its place in either way. -/
theorem saves_of_ends {replace : OnDisk Unit}
    (hreplace : replace = publish (base ++ ".tmp") (base ++ ".xml") ∨
      replace = replaceByCopy (base ++ ".tmp") (base ++ ".xml"))
    (h : Ends (do write (base ++ ".tmp") document; replace) d u d') :
    Saves d d' base document.toUTF8 := by
  obtain ⟨_, d₁, hwrite, hends⟩ := Ends.bind_iff.mp h
  obtain ⟨temp, htemp, hsets⟩ := write_ends hwrite
  obtain ⟨target, htarget, hne⟩ := htemp.xml_of_tmp
  have hreplaced : d₁.Keeps d' ∧ ∃ content, d₁.get? temp = some (.file content) ∧ ∀ l, d'.get? l =
      if l = target then some (.file content) else if l = temp then none else d₁.get? l := by
    rcases hreplace with rfl | rfl
    · exact publish_ends (htemp.keeps hsets.keeps) (htarget.keeps hsets.keeps) hne hends
    · exact replaceByCopy_ends (htemp.keeps hsets.keeps) (htarget.keeps hsets.keeps) hne hends
  obtain ⟨hkeeps, content, hcontent, hget⟩ := hreplaced
  rw [hsets.get?_self] at hcontent
  cases hcontent
  refine ⟨hsets.keeps.trans hkeeps, temp, target, htemp, htarget, fun l => ?_⟩
  rw [hget, hsets.get?]
  split
  · rfl
  · split
    · rfl
    · rfl

end Store

namespace Saves

variable {d d₁ d' : Disk} {base : String} {content : ByteArray}

/-- What is in the temporary file beforehand does not matter. -/
theorem of_sets {temp : Location} {entry : Option DiskEntry} (htemp : d.Names (base ++ ".tmp") temp)
    (hsets : d.Sets d₁ temp entry) (h : Saves d₁ d' base content) : Saves d d' base content := by
  obtain ⟨temp', target, htemp', htarget, hget⟩ := h.places
  obtain rfl : temp' = temp := htemp'.unique (htemp.keeps hsets.keeps)
  obtain ⟨place, hplace, -⟩ := htemp.xml_of_tmp
  obtain rfl : place = target := (hplace.keeps hsets.keeps).unique htarget
  refine ⟨hsets.keeps.trans h.keeps, temp', place, htemp, hplace, fun l => ?_⟩
  rw [hget, hsets.get?]
  split
  · rfl
  · split
    · rfl
    · rfl

/-- The document that is saved is the one that is read. -/
theorem read (h : Saves d d' base content) : d'.read (base ++ ".xml") = .ok content := by
  obtain ⟨temp, target, -, htarget, hget⟩ := h.places
  refine ((htarget.keeps h.keeps).read_eq_ok_iff (Path.isExtension_xml.isFolderForm base)).mpr ?_
  rw [hget, if_pos rfl]

end Saves

end Foresight
