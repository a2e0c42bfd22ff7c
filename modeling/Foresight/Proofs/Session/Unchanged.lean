import Foresight.Proofs.Analysis.Incremental
import Foresight.Proofs.Files.Tree
import Foresight.Proofs.Session.Building
import Foresight.Proofs.Store.Refused

/-!
# Updates for no files

An update for no files writes what it has read. What comes out of a corpus has no bars in its
fields, so what the first such update writes is read back as it was written, and from then on every
update for no files leaves the document as it is, whether it ends well or not (`Retains.update_nil`,
`Retains.afterEmpty`). If the solution is still there, each of them does end well (`Ready.step`).
-/

namespace Foresight

/-- In whichever way an action ends, the state has this property afterwards. -/
def Leaves {σ α : Type} (action : ExceptT Failure (StateM σ) α) (s : σ) (P : σ → Prop) : Prop :=
  P (action.run.run s).2

namespace Leaves

variable {σ α β : Type} {s : σ} {P : σ → Prop}

/-- The second of two steps is taken only where the first one has ended well. -/
theorem bind {x : ExceptT Failure (StateM σ) α} {f : α → ExceptT Failure (StateM σ) β}
    (h : Leaves x s P) (hf : ∀ a reached, Ends x s a reached → P reached → Leaves (f a) reached P) :
    Leaves (x >>= f) s P := by
  unfold Leaves at h ⊢
  rw [ExceptT.run_bind, StateT.run_bind]
  obtain ⟨outcome, reached, hx⟩ : ∃ outcome reached, x.run.run s = (outcome, reached) :=
    ⟨_, _, rfl⟩
  rw [hx] at h ⊢
  cases outcome with
  | error e => exact h
  | ok a => exact hf a reached hx h

theorem change {doing : String} {f : Disk → Disk.Answer Disk} {d : Disk} {P : Disk → Prop}
    (h : P d) (hf : ∀ d', f d = .ok d' → P d') : Leaves (OnDisk.change doing f) d P := by
  change P ((OnDisk.change doing f).runOn d).2
  cases hanswer : f d with
  | ok d' =>
    rw [OnDisk.runOn_change_ok hanswer]
    exact hf d' hanswer
  | error cause =>
    rw [OnDisk.runOn_change_error hanswer]
    exact h

end Leaves

namespace Store

variable {d d' : Disk} {base : String} {temp : Location} {content : ByteArray}

theorem leaves_ensureExists {store : Store} {path : String} (h : d.read path = .ok content) :
    Leaves store.ensureExists d (·.read path = .ok content) := by
  have hrun : (store.ensureExists.run.run d).2 = (d.createDirectories store.root).2 := rfl
  unfold Leaves
  rw [hrun]
  exact (Disk.grows_makeDirectories ..).read h

/-- Neither a document that is started in the temporary file nor one that is written there. -/
theorem leaves_beside {doing : String} (written : ByteArray)
    (h : d.read (base ++ ".xml") = .ok content) :
    Leaves (OnDisk.change doing fun d => d.write (base ++ ".tmp") written) d
      (·.read (base ++ ".xml") = .ok content) := by
  refine Leaves.change h fun d' hwrite => ?_
  obtain ⟨-, temp, htemp, hsets⟩ := Disk.write_eq_ok hwrite
  exact (htemp.read_beside hsets).mpr h

theorem leaves_create (h : d.read (base ++ ".xml") = .ok content) :
    Leaves (create (base ++ ".tmp")) d (·.read (base ++ ".xml") = .ok content) := by
  unfold create
  exact leaves_beside .empty h

theorem leaves_write {document : String} (h : d.read (base ++ ".xml") = .ok content) :
    Leaves (write (base ++ ".tmp") document) d (·.read (base ++ ".xml") = .ok content) := by
  unfold write
  exact leaves_beside document.toUTF8 h

/-- A copy of what is there already changes nothing, wherever it comes to an end. -/
theorem leaves_replaceByCopy (htemp : d.Names (base ++ ".tmp") temp)
    (hcontent : d.get? temp = some (.file content)) (h : d.read (base ++ ".xml") = .ok content) :
    Leaves (replaceByCopy (base ++ ".tmp") (base ++ ".xml")) d
      (·.read (base ++ ".xml") = .ok content) := by
  have hform := Path.isExtension_tmp.isFolderForm base
  have hcopied : ∀ d', d.copy (base ++ ".tmp") (base ++ ".xml") = .ok d' →
      d.Keeps d' ∧ d'.read (base ++ ".xml") = .ok content := by
    intro d' hcopy
    obtain ⟨copied, hread, hwrite⟩ := Except.bind_eq_ok_iff.mp hcopy
    rw [htemp.read_eq_ok_iff hform, hcontent] at hread
    cases hread
    obtain ⟨hform', target, htarget, hsets⟩ := Disk.write_eq_ok hwrite
    exact ⟨hsets.keeps,
      ((htarget.keeps hsets.keeps).read_eq_ok_iff hform').mpr hsets.get?_self⟩
  unfold replaceByCopy
  refine Leaves.bind (Leaves.change h fun d' hcopy => (hcopied d' hcopy).2)
    fun _ reached hends hread => ?_
  obtain ⟨hkeeps, -⟩ := hcopied reached (Ends.change_iff.mp hends)
  refine Leaves.change hread fun d' hremove => ?_
  split at hremove
  · exact Except.ok.inj hremove ▸ hread
  · have htemp' := htemp.keeps hkeeps
    exact (htemp'.read_beside (htemp'.remove_eq_ok hform hremove)).mpr hread

end Store

namespace Analysis

variable {p : Pipeline} {l : Listing} {store : Store} {d : Disk} {base : String}
  {observations : List Observation}

/-- Without changed files, all that was known is kept and nothing is mined. -/
theorem updated_nil (p : Pipeline) (l : Listing) (previous : List Observation) :
    updated p l [] previous = previous := by
  unfold updated Corpus.retainUnchanged toMine distinct mined
  simp

theorem leaves_update_nil (htemp : store.corpusTempPath l.solution = base ++ ".tmp")
    (htarget : store.corpusPath l.solution = base ++ ".xml")
    (hfree : ∀ o ∈ observations, Records.IsBarFree o.fields)
    (h : d.read (base ++ ".xml") = .ok (Corpus.document observations).toUTF8) :
    Leaves (update store p l []) d
      (·.read (base ++ ".xml") = .ok (Corpus.document observations).toUTF8) := by
  unfold update
  rw [htemp, htarget]
  refine Leaves.bind (x := OnDisk.look _) h fun previous _ hlook _ => ?_
  obtain ⟨hprevious, rfl⟩ := Ends.look_iff.mp hlook
  obtain rfl : previous = observations := by
    rw [← Except.ok.inj hprevious, Store.corpusOrEmpty_document hfree h]
  rw [updated_nil]
  refine (Store.leaves_write h).bind fun _ written hwrite hread => ?_
  obtain ⟨temp, hnames, hsets⟩ := Store.write_ends hwrite
  refine (Store.leaves_replaceByCopy (hnames.keeps hsets.keeps) hsets.get?_self hread).bind
    fun _ _ _ hread => hread

/-- An update ends well if its two files can be written. -/
theorem update_ok {changed : List String} {temp target : Location}
    (htempPath : store.corpusTempPath l.solution = base ++ ".tmp")
    (htargetPath : store.corpusPath l.solution = base ++ ".xml")
    (htemp : d.Names (base ++ ".tmp") temp) (htarget : d.Names (base ++ ".xml") target)
    (hne : target ≠ temp) (hshort : Disk.IsShort target) (hfree : d.get? temp ≠ some .directory)
    (hfree' : d.get? target ≠ some .directory) :
    ∃ r d', Ends (update store p l changed) d r d' := by
  obtain ⟨written, hwrite⟩ := Store.write_ok htemp (Path.isExtension_tmp.isFolderForm base)
    ((htemp.isShort_iff htarget).mpr hshort) hfree
    (Corpus.document (updated p l changed (Store.corpusOrEmpty (base ++ ".xml") d)))
  obtain ⟨place, hplace, hsets⟩ := Store.write_ends hwrite
  obtain rfl := hplace.unique htemp
  rw [← hsets.get?_of_ne hne] at hfree'
  obtain ⟨copied, hcopy⟩ := Store.replaceByCopy_ok (htemp.keeps hsets.keeps)
    (htarget.keeps hsets.keeps) hne hsets.get?_self hshort hfree'
  unfold update
  rw [htempPath, htargetPath]
  exact ⟨_, copied, Ends.bind_iff.mpr ⟨_, d, Ends.look_iff.mpr ⟨rfl, rfl⟩,
    Ends.bind_iff.mpr ⟨(), written, hwrite, Ends.bind_iff.mpr ⟨(), copied, hcopy,
      Ends.pure_iff.mpr ⟨rfl, rfl⟩⟩⟩⟩⟩

end Analysis

namespace Workspace

/-- A solution whose directory is there can be looked at anew. -/
theorem exists_refresh {d : Disk} {w : Workspace}
    (h : ∀ root ∈ w.root?, d.get? root = some .directory) : ∃ w', w.refresh d = .ok w' := by
  cases w with
  | models solution => exact ⟨_, rfl⟩
  | directory solution =>
    have hroot : (d.get? solution.root).isNone = false := by
      rw [h solution.root rfl]
      rfl
    obtain ⟨projects, hprojects⟩ :
        ∃ projects,
          SolutionDirectory.discover solution.settings solution.root d = .ok projects := by
      unfold SolutionDirectory.discover
      rw [hroot, if_neg Bool.false_ne_true]
      dsimp only
      split
      · exact ⟨_, rfl⟩
      · exact ⟨_, rfl⟩
    refine ⟨_, Except.bind_eq_ok_iff.mpr ⟨_, Except.bind_eq_ok_iff.mpr ⟨_, hprojects, rfl⟩, rfl⟩⟩

end Workspace

namespace Session

variable {grammar : Grammar} {s s₁ s' : Session} {Q : Disk → Prop} {changed : List String}
  {base : String} {observations : List Observation}

/-- A session with the engine and the solution of another one, and a disk of this kind. -/
structure Follows (s : Session) (Q : Disk → Prop) (s' : Session) : Prop where
  engine : s'.engine = s.engine
  solution : s'.workspace.solutionName = s.workspace.solutionName
  root : s'.workspace.root? = s.workspace.root?
  disk : Q s'.disk

theorem Follows.corpusBase (h : Follows s Q s') : s'.corpusBase = s.corpusBase := by
  unfold Session.corpusBase
  rw [h.engine, h.solution]

theorem leaves_refresh (h : Follows s Q s') : Leaves refresh s' (Follows s Q) := by
  refine Leaves.bind h fun t _ hget _ => ?_
  obtain ⟨rfl, rfl⟩ := Ends.get_iff.mp hget
  refine Leaves.bind h fun w _ hcheck _ => ?_
  obtain ⟨hw, rfl⟩ := Ends.check_iff.mp hcheck
  have hsame := Workspace.sameSolution_refresh hw
  exact ⟨h.engine, hsame.name.trans h.solution, hsame.root.trans h.root, h.disk⟩

theorem leaves_onDisk {α : Type} {action : OnDisk α} (h : Follows s Q s')
    (haction : Leaves action s'.disk Q) : Leaves (Session.onDisk action) s' (Follows s Q) :=
  ⟨h.engine, h.solution, h.root, haction⟩

theorem leaves_listingFor {fileIds : Listing → List String} (h : Follows s Q s') :
    Leaves (listingFor grammar fileIds) s' (Follows s Q) :=
  have hsame := Workspace.sameSolution_afterLoading grammar (fileIds _) s'.disk s'.workspace
  ⟨h.engine, hsame.name.trans h.solution, hsame.root.trans h.root, h.disk⟩

/-- An update changes the disk three times. -/
theorem leaves_update (hdisk : Q s.disk) (hmake : Leaves s.engine.store.ensureExists s.disk Q)
    (hcreate : ∀ d, Q d → Leaves (Store.create (s.corpusBase ++ ".tmp")) d Q)
    (hupdate : ∀ l d, l.solution = s.workspace.solutionName → Q d →
      Leaves (Analysis.update s.engine.store s.engine.pipeline l changed) d Q) :
    Leaves (update grammar changed) s (Follows s Q) := by
  have hbegin : Leaves beginPass s (Follows s Q) := by
    have h : Follows s Q s := ⟨rfl, rfl, rfl, hdisk⟩
    refine Leaves.bind h fun t _ hget _ => ?_
    obtain ⟨rfl, rfl⟩ := Ends.get_iff.mp hget
    refine Leaves.bind h fun _ _ hcheck _ => ?_
    obtain ⟨-, rfl⟩ := Ends.check_iff.mp hcheck
    refine Leaves.bind h fun t _ hget _ => ?_
    obtain ⟨rfl, rfl⟩ := Ends.get_iff.mp hget
    refine (leaves_onDisk h hmake).bind fun _ made _ hmade => ?_
    refine (leaves_refresh hmade).bind fun _ refreshed _ hrefreshed => ?_
    rw [corpusTempPath_eq]
    exact leaves_onDisk hrefreshed (hcreate _ hrefreshed.disk)
  refine hbegin.bind fun _ begun _ hbegun => ?_
  refine (leaves_listingFor hbegun).bind fun l listed hlisting hlisted => ?_
  refine Leaves.bind hlisted fun t _ hget _ => ?_
  obtain ⟨rfl, rfl⟩ := Ends.get_iff.mp hget
  obtain ⟨rfl, -⟩ := listingFor_ends hlisting
  rw [hlisted.engine]
  refine leaves_onDisk hlisted (hupdate _ _ ?_ hlisted.disk)
  rw [Workspace.solution_listing, hbegun.solution]

/-- The session after some updates for no files, in whichever way each of them ends. -/
def afterEmpty (grammar : Grammar) : Nat → Session → Session
  | 0, s => s
  | n + 1, s => afterEmpty grammar n (run (update grammar []) s).2

/-! ## What stays as it is -/

/-- The corpus of the session's solution lies at `base`, and holds these observations. -/
structure Retains (base : String) (observations : List Observation) (s : Session) : Prop where
  lies : s.corpusBase = base
  read : s.disk.read (base ++ ".xml") = .ok (Corpus.document observations).toUTF8

/-- An update for no files leaves a corpus as it is whose fields have no bars. -/
theorem Retains.update_nil (hfree : ∀ o ∈ observations, Records.IsBarFree o.fields)
    (h : Retains base observations s) :
    Retains base observations (run (update grammar []) s).2 := by
  obtain ⟨rfl, hread⟩ := h
  have hleaves : Leaves (update grammar []) s
      (Follows s
        (·.read (s.corpusBase ++ ".xml") = .ok (Corpus.document observations).toUTF8)) := by
    refine leaves_update hread (Store.leaves_ensureExists hread)
      (fun d hd => Store.leaves_create hd) fun l d hl hd => ?_
    refine Analysis.leaves_update_nil ?_ ?_ hfree hd
    · rw [hl, corpusTempPath_eq]
    · rw [hl, corpusPath_eq]
  have hfollows : Follows s _ (run (update grammar []) s).2 := hleaves
  exact ⟨hfollows.corpusBase, hfollows.disk⟩

theorem Retains.afterEmpty (hfree : ∀ o ∈ observations, Records.IsBarFree o.fields)
    (h : Retains base observations s) (grammar : Grammar) (n : Nat) :
    Retains base observations (afterEmpty grammar n s) := by
  induction n generalizing s with
  | zero => exact h
  | succ n ih => exact ih (h.update_nil hfree)

theorem follows_of_ends {r : Analysis.Summary × List Progress}
    (h : Ends (update grammar changed) s r s') : Follows s (fun _ => True) s' := by
  have hfollows : Follows s (fun _ => True) (run (update grammar changed) s).2 :=
    leaves_update trivial trivial (fun _ _ => trivial) fun _ _ _ _ => trivial
  have hrun : (run (update grammar changed) s).2 = s' := congrArg Prod.snd h
  rwa [hrun] at hfollows

/-- The first update for no files writes what it has read. -/
theorem retains_of_ends {r : Analysis.Summary × List Progress}
    (h : Ends (update grammar []) s r s₁) :
    ∃ d, Retains s.corpusBase (Store.corpusOrEmpty (s.corpusBase ++ ".xml") d) s₁ := by
  obtain ⟨-, d, hpasses⟩ := update_ends h
  have hsaved := hpasses.saves.read
  rw [Analysis.updated_nil] at hsaved
  exact ⟨d, (follows_of_ends h).corpusBase, hsaved⟩

/-! ## Nothing stands in the way -/

/-- The directory of the solution is there. -/
def IsThere (s : Session) : Prop :=
  ∀ root ∈ s.workspace.root?, s.disk.get? root = some .directory

instance (s : Session) : Decidable s.IsThere :=
  inferInstanceAs (Decidable (∀ root ∈ s.workspace.root?, s.disk.get? root = some .directory))

/-- A pass can begin, and its corpus can be put in place. -/
structure Ready (s : Session) : Prop where
  name : Text.isBlankText s.workspace.solutionName = false
  made : s.disk.createDirectories s.engine.store.root = (.ok (), s.disk)
  isThere : s.IsThere
  places : ∃ temp target, s.disk.Names (s.corpusBase ++ ".tmp") temp ∧
    s.disk.Names (s.corpusBase ++ ".xml") target ∧ target ≠ temp ∧ Disk.IsShort target ∧
    s.disk.get? temp ≠ some .directory ∧ s.disk.get? target ≠ some .directory

/-- After an update that has ended well, another one can be made. -/
theorem ready_of_ends {r : Analysis.Summary × List Progress}
    (h : Ends (update grammar changed) s r s₁) (hthere : s₁.IsThere)
    (hshort : ∀ location, s₁.disk.Names (s.corpusBase ++ ".xml") location →
      Disk.IsShort location) : Ready s₁ := by
  obtain ⟨-, d, hpasses⟩ := update_ends h
  have hfollows := follows_of_ends h
  obtain ⟨temp, target, htemp, htarget, hget⟩ := hpasses.saves.places
  obtain ⟨place, hplace, hne⟩ := htemp.xml_of_tmp
  obtain rfl := hplace.unique htarget
  have hkeeps := hpasses.saves.keeps
  refine ⟨?_, ?_, hthere, temp, place, ?_, ?_, hne, hshort place (htarget.keeps hkeeps), ?_, ?_⟩
  · rw [hfollows.solution, hpasses.name]
  · rw [hfollows.engine]
    exact Disk.createDirectories_again hpasses.made hkeeps
  · rw [hfollows.corpusBase]
    exact htemp.keeps hkeeps
  · rw [hfollows.corpusBase]
    exact htarget.keeps hkeeps
  · rw [hget, if_neg hne.symm, if_pos rfl]
    exact nofun
  · rw [hget, if_pos rfl]
    exact nofun

theorem Ready.begins (h : Ready s) : ∃ begun, Ends beginPass s () begun := by
  obtain ⟨temp, target, htemp, htarget, hne, hshort, hfree, -⟩ := h.places
  obtain ⟨w, hw⟩ := Workspace.exists_refresh h.isThere
  obtain ⟨d, hwrite⟩ := htemp.write_ok (Path.isExtension_tmp.isFolderForm s.corpusBase)
    ((htemp.isShort_iff htarget).mpr hshort) hfree .empty
  have hname : Analysis.checkName s.workspace.solutionName = .ok () := by
    rw [Analysis.checkName, h.name, if_neg Bool.false_ne_true]
  have hensure : Ends (Session.onDisk s.engine.store.ensureExists) s () s :=
    Ends.onDisk_iff.mpr ⟨s.disk, Ends.changeInSteps_iff.mpr h.made, rfl⟩
  have hrefresh : Ends refresh s () { s with workspace := w } :=
    Ends.bind_iff.mpr ⟨s, s, Ends.get_iff.mpr ⟨rfl, rfl⟩,
      Ends.bind_iff.mpr ⟨w, s, Ends.check_iff.mpr ⟨hw, rfl⟩, Ends.set_iff.mpr rfl⟩⟩
  have hcreate : Ends (Session.onDisk (Store.create
      (s.engine.store.corpusTempPath s.workspace.solutionName))) { s with workspace := w } ()
        { s with workspace := w, disk := d } := by
    rw [corpusTempPath_eq]
    exact Ends.onDisk_iff.mpr ⟨d, Ends.change_iff.mpr hwrite, rfl⟩
  exact ⟨_, Ends.bind_iff.mpr ⟨s, s, Ends.get_iff.mpr ⟨rfl, rfl⟩,
    Ends.bind_iff.mpr ⟨(), s, Ends.check_iff.mpr ⟨hname, rfl⟩,
      Ends.bind_iff.mpr ⟨s, s, Ends.get_iff.mpr ⟨rfl, rfl⟩,
        Ends.bind_iff.mpr ⟨(), s, hensure, Ends.bind_iff.mpr ⟨(), _, hrefresh, hcreate⟩⟩⟩⟩⟩⟩

/-- Every update ends well where nothing stands in the way. -/
theorem Ready.ends (h : Ready s) (grammar : Grammar) (changed : List String) :
    ∃ r s', Ends (update grammar changed) s r s' := by
  obtain ⟨begun, hbegin⟩ := h.begins
  obtain ⟨l, listed, hlisting⟩ : ∃ l listed,
      Ends (listingFor grammar (Analysis.toMine · changed)) begun l listed := ⟨_, _, rfl⟩
  obtain ⟨d, hbegins⟩ := beginPass_ends hbegin
  obtain ⟨hseen, hsolution⟩ := solution_seen grammar hbegin
  obtain ⟨hl, hdisk, hengine, -⟩ := listingFor_ends hlisting
  obtain rfl := hl.trans hseen.symm
  -- The disk has not changed but for the temporary file.
  obtain rfl : s.disk = d := congrArg Prod.snd (h.made.symm.trans hbegins.made)
  obtain ⟨temp, target, htemp, htarget, hne, hshort, -, hfree⟩ := h.places
  obtain ⟨place, hplace, hsets⟩ := hbegins.started
  obtain rfl := hplace.unique htemp
  obtain ⟨r, d', hupdate⟩ : ∃ r d', Ends (Analysis.update listed.engine.store
      listed.engine.pipeline (seen grammar s) changed) listed.disk r d' := by
    rw [hengine, hbegins.engine, hdisk]
    refine Analysis.update_ok ?_ ?_ (htemp.keeps hsets.keeps) (htarget.keeps hsets.keeps) hne hshort
      (by rw [hsets.get?_self]; nofun) (by rwa [hsets.get?_of_ne hne])
    · rw [hsolution, corpusTempPath_eq]
    · rw [hsolution, corpusPath_eq]
  exact ⟨r, _, Ends.bind_iff.mpr ⟨(), begun, hbegin, Ends.bind_iff.mpr ⟨_, listed, hlisting,
    Ends.bind_iff.mpr ⟨listed, listed, Ends.get_iff.mpr ⟨rfl, rfl⟩,
      Ends.onDisk_iff.mpr ⟨d', hupdate, rfl⟩⟩⟩⟩⟩

/-- An update leaves everything ready for the next one. -/
theorem Ready.step (h : Ready s) (grammar : Grammar) (changed : List String) :
    (run (update grammar changed) s).1.isOk = true ∧
      Ready (run (update grammar changed) s).2 := by
  obtain ⟨r, s', hends⟩ := h.ends grammar changed
  have hrun : run (update grammar changed) s = (.ok r, s') := hends
  rw [hrun]
  obtain ⟨-, d, hpasses⟩ := update_ends hends
  obtain rfl : s.disk = d := congrArg Prod.snd (h.made.symm.trans hpasses.made)
  have hkeeps := hpasses.saves.keeps
  refine ⟨rfl, ready_of_ends hends (fun root hroot => ?_) fun location hlocation => ?_⟩
  · rw [(follows_of_ends hends).root] at hroot
    exact hkeeps.directory _ (h.isThere root hroot)
  · obtain ⟨-, target, -, htarget, -, hshort, -⟩ := h.places
    rwa [hlocation.unique (htarget.keeps hkeeps)]

theorem Ready.afterEmpty (h : Ready s) (grammar : Grammar) (n : Nat) :
    Ready (afterEmpty grammar n s) := by
  induction n generalizing s with
  | zero => exact h
  | succ n ih => exact ih (h.step grammar []).2

/-- Once an update for no files has ended well, the corpus holds a document that every further one
leaves as it is, byte for byte, in whichever way it ends; and they all end well as long as the
solution is there and the disk has no names that are too long. A corpus that was written without
bars in its fields is left as it is from the start. -/
theorem empty_updates_stable (grammar : Grammar) (s : Session) :
    (∀ r s₁, run (update grammar []) s = (.ok r, s₁) →
      (∃ document, ∀ n, (afterEmpty grammar n s₁).disk.read
        (s.engine.store.corpusPath s.workspace.solutionName) = .ok document) ∧
      (s₁.IsThere → s₁.disk.HasShortNames → ∀ n,
        (run (update grammar []) (afterEmpty grammar n s₁)).1.isOk = true)) ∧
    ∀ observations : List Observation, (∀ o ∈ observations, Records.IsBarFree o.fields) →
      s.disk.read (s.engine.store.corpusPath s.workspace.solutionName) =
        .ok (Corpus.document observations).toUTF8 →
      ∀ n, (afterEmpty grammar n s).disk.read
        (s.engine.store.corpusPath s.workspace.solutionName) =
          .ok (Corpus.document observations).toUTF8 := by
  rw [corpusPath_eq]
  refine ⟨fun r s₁ h => ?_, fun observations hfree hread n => ?_⟩
  · obtain ⟨d, hretains⟩ := retains_of_ends h
    refine ⟨?_, fun hthere hshort n => ?_⟩
    · exact ⟨_, fun n => (hretains.afterEmpty Store.isBarFree_corpusOrEmpty grammar n).read⟩
    have hready : Ready s₁ := ready_of_ends h hthere fun location hlocation => by
      have hget := (hlocation.read_eq_ok_iff (Path.isExtension_xml.isFolderForm _)).mp
        hretains.read
      exact hshort _ ((Disk.get?_eq_some_iff hlocation.ne_nil).mp hget)
    exact ((hready.afterEmpty grammar n).step grammar []).1
  · have hretains : Retains s.corpusBase observations s := ⟨rfl, hread⟩
    exact (hretains.afterEmpty hfree grammar n).read

/-! A corpus that was written by hand, with markup in a text and a field without a value. -/

def handWritten : Session :=
  { closingsKnown with
    disk := ⟨[(["data"], .directory), (["data", "Bags.xml"], .file
      "<i><i k=\"After\" f=\"a.cs\" v=\"x|1|y\">Close<b>d</b>();</i></i>".toUTF8)], [],
        by decide⟩ }

def rewritten : Observation := ⟨"After", "a.cs", "Closed();", .ofList [("x", "1")]⟩

theorem empty_updates_stable_handWritten :
    (∀ n, (afterEmpty bagsGrammar n (run (update bagsGrammar []) handWritten).2).disk.read
        "/data/Bags.xml" = .ok (Corpus.document [rewritten]).toUTF8) ∧
      (∀ n, (run (update bagsGrammar [])
        (afterEmpty bagsGrammar n (run (update bagsGrammar []) handWritten).2)).1.isOk = true) ∧
      ∀ n, (afterEmpty bagsGrammar n closingsKnown).disk.read "/data/Bags.xml" =
        .ok (Corpus.document closings).toUTF8 := by
  have hpath : handWritten.engine.store.corpusPath handWritten.workspace.solutionName =
      "/data/Bags.xml" := by
    decide +kernel
  have hpath' : closingsKnown.engine.store.corpusPath closingsKnown.workspace.solutionName =
      "/data/Bags.xml" := by
    decide +kernel
  obtain ⟨r, hupdated⟩ := run_eq_of_isOk
    (by decide +kernel : (run (update bagsGrammar []) handWritten).1.isOk = true)
  obtain ⟨⟨document, hstays⟩, hends⟩ :=
    (empty_updates_stable bagsGrammar handWritten).1 r _ hupdated
  have hclosings := (empty_updates_stable bagsGrammar closingsKnown).2 closings (by decide)
  have hfirst : (run (update bagsGrammar []) handWritten).2.disk.read "/data/Bags.xml" =
      .ok (Corpus.document [rewritten]).toUTF8 := by
    decide +kernel
  rw [hpath] at hstays
  rw [hpath'] at hclosings
  have hdocument := hstays 0
  rw [afterEmpty, hfirst] at hdocument
  rw [← Except.ok.inj hdocument] at hstays
  exact ⟨hstays, hends (by decide +kernel) (by decide +kernel), hclosings (by decide +kernel)⟩

end Session

end Foresight
