import Foresight.Proofs.Store.Granted

/-!
# Publications that are refused

The old document is deleted before the new one takes its place, and the disk may refuse either
step. If it refuses the first, nothing has happened; if it refuses the second, the old document is
gone. The second step is granted whenever the temporary path names a file, and the path of the
document another place (`IsReady`). So a refusal costs nothing but the old document, and that only
where the new one was not there to be moved (`publish_refused`).
-/

namespace Foresight

namespace Disk

/-- A path names a file, and another one a different location that a file can take. -/
def IsReady (d : Disk) (temp target : String) : Prop :=
  ∃ source location content, d.Names temp source ∧ d.Names target location ∧
    Path.isFolderForm temp = false ∧ Path.isFolderForm target = false ∧ IsShort location ∧
    location ≠ source ∧ d.get? source = some (.file content)

variable {d d' : Disk} {path temp target : String} {location : Location}

/-- What is removed is a file, and nothing else changes. -/
theorem remove_eq_ok (h : d.remove path = .ok d') : ∃ location content,
    d.locate path = .ok location ∧ d.get? location = some (.file content) ∧
      d.Sets d' location none := by
  unfold remove at h
  obtain ⟨location, hlocation, h⟩ := Except.bind_eq_ok_iff.mp h
  split at h
  · rename_i content hget
    obtain rfl := Except.ok.inj h
    have hne : location ≠ [] := by
      rintro rfl
      cases hget
    exact ⟨location, content, hlocation, hget, sets_erase hne (by rw [hget]; nofun)⟩
  · cases h
  · cases h

/-- A file can be moved to a free place. -/
theorem IsReady.move_ok (h : d.IsReady temp target)
    (hfree : ∀ location, d.Names target location → d.get? location = none) :
    ∃ d', d.move temp target = .ok d' := by
  obtain ⟨source, location, content, htemp, htarget, hform, hform', hshort, hne, hcontent⟩ := h
  obtain ⟨d₁, hremove⟩ := htemp.remove_ok hform hcontent
  have hsets := htemp.remove_eq_ok hform hremove
  have hnone : d₁.get? location = none := by
    rw [hsets.get?_of_ne hne, hfree location htarget]
  obtain ⟨d₂, hwrite⟩ := (htarget.keeps hsets.keeps).write_ok hform' hshort
    (by rw [hnone]; nofun) content
  refine ⟨d₂, ?_⟩
  unfold move
  rw [Except.bind_of_ok ((htemp.read_eq_ok_iff hform).mpr hcontent), Except.bind_of_ok hremove,
    hwrite]

/-- What names another location is still ready when a file is removed. -/
theorem IsReady.remove (h : d.IsReady temp target) (hremove : d.remove target = .ok d') :
    d'.IsReady temp target ∧ ∀ location, d'.Names target location → d'.get? location = none := by
  obtain ⟨source, location, content, htemp, htarget, hform, hform', hshort, hne, hcontent⟩ := h
  have hsets := htarget.remove_eq_ok hform' hremove
  refine ⟨⟨source, location, content, htemp.keeps hsets.keeps, htarget.keeps hsets.keeps, hform,
    hform', hshort, hne, by rw [hsets.get?_of_ne hne.symm, hcontent]⟩, fun other hother => ?_⟩
  obtain rfl := hother.unique (htarget.keeps hsets.keeps)
  exact hsets.get?_self

end Disk

namespace OnDisk

variable {d : Disk} {doing : String} {f : Disk → Disk.Answer Disk}

theorem runOn_change_ok {d' : Disk} (h : f d = .ok d') :
    (change doing f).runOn d = (.ok (), d') := by
  simp only [runOn, ExceptT.run, StateT.run, change, h]

theorem runOn_change_error {cause : SystemError} (h : f d = .error cause) :
    (change doing f).runOn d = (.error (.io doing cause), d) := by
  simp only [runOn, ExceptT.run, StateT.run, change, h]

variable {α β : Type} {x : OnDisk α} {rest : α → OnDisk β} {d' : Disk}

theorem runOn_bind_ok {a : α} (h : x.runOn d = (.ok a, d')) :
    runOn (x >>= rest) d = (rest a).runOn d' := by
  unfold runOn at h ⊢
  rw [ExceptT.run_bind, StateT.run_bind, h]
  rfl

theorem runOn_bind_error {e : Failure} (h : x.runOn d = (.error e, d')) :
    runOn (x >>= rest) d = (.error e, d') := by
  unfold runOn at h ⊢
  rw [ExceptT.run_bind, StateT.run_bind, h]
  rfl

end OnDisk

namespace Store

open OnDisk

variable {d d' : Disk} {e : Failure}

/-- A publication fails where it has changed nothing, or where the old document has been removed and
the new one cannot be moved. -/
theorem publish_error {temp target : String} (h : (publish temp target).runOn d = (.error e, d')) :
    d' = d ∨ d.remove target = .ok d' ∧ ∃ cause, d'.move temp target = .error cause := by
  have hmove : ∀ reached, (removeIfExists target).runOn d = (.ok (), reached) →
      reached = d' ∧ ∃ cause, reached.move temp target = .error cause := by
    intro reached hremove
    have hrun := (runOn_bind_ok hremove).symm.trans h
    cases hmove : reached.move temp target with
    | ok after =>
      rw [runOn_change_ok hmove] at hrun
      cases hrun
    | error cause =>
      rw [runOn_change_error hmove] at hrun
      exact ⟨(Prod.mk.inj hrun).2, cause, rfl⟩
  cases hremove : d.remove target with
  | ok reached =>
    obtain ⟨rfl, hcause⟩ := hmove reached (runOn_change_ok (by rw [hremove]))
    exact Or.inr ⟨rfl, hcause⟩
  | error cause =>
    by_cases hnone : cause = .notFound
    · subst hnone
      obtain ⟨rfl, -⟩ := hmove d (runOn_change_ok (by rw [hremove]))
      exact Or.inl rfl
    · have hfails : (removeIfExists target).runOn d =
          (.error (.io ("Failed to delete " ++ target) cause), d) := by
        refine runOn_change_error ?_
        rw [hremove]
        split
        · rename_i heq
          exact absurd (Except.error.inj heq) hnone
        · rfl
      exact Or.inl (Prod.mk.inj ((runOn_bind_error hfails).symm.trans h)).2.symm

theorem unchanged_of_isReady {temp target : String} (hready : d.IsReady temp target)
    (h : (publish temp target).runOn d = (.error e, d')) : d' = d := by
  obtain hsame | ⟨hremove, cause, hcause⟩ := publish_error h
  · exact hsame
  · obtain ⟨hready, hfree⟩ := hready.remove hremove
    obtain ⟨after, hafter⟩ := hready.move_ok hfree
    rw [hafter] at hcause
    cases hcause

/-- A document that has just been written beside the old one can take its place. -/
theorem isReady_of_write {base document : String} {written : Disk} {u : Unit}
    (hwrite : Ends (write (base ++ ".tmp") document) d u written) (hshort : written.HasShortNames) :
    written.IsReady (base ++ ".tmp") (base ++ ".xml") := by
  obtain ⟨source, hsource, hsets⟩ := write_ends hwrite
  obtain ⟨location, hlocation, hne⟩ := hsource.xml_of_tmp
  have hfile := (Disk.get?_eq_some_iff hsource.ne_nil).mp hsets.get?_self
  exact ⟨source, location, document.toUTF8, hsource.keeps hsets.keeps, hlocation.keeps hsets.keeps,
    Path.isExtension_tmp.isFolderForm base, Path.isExtension_xml.isFolderForm base,
    (hsource.isShort_iff hlocation).mp (hshort _ hfile), hne, hsets.get?_self⟩

/-- Whatever the two paths are: when a document is not published, the disk is as it was, or the old
document, a file, has been deleted, and nothing else has changed. The second happens only where the
temporary path does not name a file that could take the place of the old one. So it never happens
where the new document has been written beside the old one right before, as it is before every
publication of a corpus or of suggestions. -/
theorem publish_refused (temp target : String)
    (h : (publish temp target).runOn d = (.error e, d')) :
    (d' = d ∨ ¬ d.IsReady temp target ∧ ∃ location content, d.locate target = .ok location ∧
      d.get? location = some (.file content) ∧ d.Sets d' location none) ∧
    ∀ base document before u, temp = base ++ ".tmp" → target = base ++ ".xml" →
      d.HasShortNames → Ends (write temp document) before u d → d' = d := by
  constructor
  · by_cases hready : d.IsReady temp target
    · exact Or.inl (unchanged_of_isReady hready h)
    · exact (publish_error h).imp_right fun hlost => ⟨hready, Disk.remove_eq_ok hlost.1⟩
  · rintro base document before u rfl rfl hshort hwrite
    exact unchanged_of_isReady (isReady_of_write hwrite hshort) h

/-- A root directory with published suggestions, and no new ones. -/
def settledDisk : Disk := (Disk.empty []).put ["_Suggestions.xml"] (.file "<i>".toUTF8)

theorem publish_refused_settled :
    (publish "/_Suggestions.tmp" "/_Suggestions.xml").runOn settledDisk =
        (.error (.io "Failed to publish /_Suggestions.xml" .notFound),
          settledDisk.erase ["_Suggestions.xml"]) ∧
      (settledDisk.erase ["_Suggestions.xml"] = settledDisk ∨
        ¬ settledDisk.IsReady "/_Suggestions.tmp" "/_Suggestions.xml" ∧ ∃ location content,
          settledDisk.locate "/_Suggestions.xml" = .ok location ∧
          settledDisk.get? location = some (.file content) ∧
          settledDisk.Sets (settledDisk.erase ["_Suggestions.xml"]) location none) := by
  have hrun : (publish "/_Suggestions.tmp" "/_Suggestions.xml").runOn settledDisk =
      (.error (.io "Failed to publish /_Suggestions.xml" .notFound),
        settledDisk.erase ["_Suggestions.xml"]) := by rfl
  exact ⟨hrun, (publish_refused _ _ hrun).1⟩

/-- A publication of a document that is not there fails, and loses the one that was. -/
theorem publish_loses_document :
    settledDisk.read "/_Suggestions.xml" = .ok "<i>".toUTF8 ∧
      ∃ d, (publish "/_Suggestions.tmp" "/_Suggestions.xml").runOn settledDisk =
          (.error (.io "Failed to publish /_Suggestions.xml" .notFound), d) ∧
        d.read "/_Suggestions.xml" = .error .notFound :=
  ⟨rfl, _, rfl, rfl⟩

end Store

end Foresight
