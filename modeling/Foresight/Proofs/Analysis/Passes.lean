import Foresight.Proofs.Store.Saving

/-!
# What a pass leaves

A pass over a solution sees it as it is after the pass has begun (`Session.seen`). If the pass ends
well, all that has changed on the disk, apart from directories around the data directory, is that
the document of the solution's corpus is in its place (`Passes`), and the engine and the loaded
suggestions are those from before.
-/

namespace Foresight

namespace Workspace

/-- Where the solution lies, if it is one on disk. -/
def root? (w : Workspace) : Option Location := w.directory?.map (·.root)

/-- A workspace of the same solution has its name and lies where it lies, whatever it has loaded. -/
structure SameSolution (w w' : Workspace) : Prop where
  name : w'.solutionName = w.solutionName
  root : w'.root? = w.root?

theorem sameSolution_refresh {d : Disk} {w w' : Workspace} (h : w.refresh d = .ok w') :
    SameSolution w w' := by
  cases w with
  | directory solution =>
    obtain ⟨refreshed, hrefresh, h⟩ := Except.bind_eq_ok_iff.mp h
    obtain ⟨projects, -, hrefresh⟩ := Except.bind_eq_ok_iff.mp hrefresh
    cases hrefresh
    cases h
    exact ⟨rfl, rfl⟩
  | models solution =>
    cases h
    exact ⟨rfl, rfl⟩

theorem sameSolution_afterLoading (grammar : Grammar) (fileIds : List String) (d : Disk)
    (w : Workspace) : SameSolution w (w.afterLoading grammar fileIds d) := by
  unfold afterLoading
  split
  · cases w with
    | directory solution => exact ⟨rfl, rfl⟩
    | models solution => exact ⟨rfl, rfl⟩
  · exact ⟨rfl, rfl⟩

theorem solution_listing (grammar : Grammar) (d : Disk) (w : Workspace) :
    (w.listing grammar d).solution = w.solutionName := by
  cases w with
  | directory solution => rfl
  | models solution => rfl

end Workspace

/-- A corpus counts for what can be read of it. -/
theorem Store.corpusOrEmpty_eq (path : String) (d : Disk) : corpusOrEmpty path d =
    ((d.read path).toOption.bind fun content => (Corpus.read content).toOption).getD [] := by
  unfold corpusOrEmpty readCorpus
  cases d.read path with
  | error cause => rfl
  | ok content =>
    change (Outcome.context path (Corpus.read content)).toOption.getD [] =
      (Corpus.read content).toOption.getD []
    cases Corpus.read content with
    | error failure => rfl
    | ok observations => rfl

theorem Store.corpusOrEmpty_congr {path : String} {d d' : Disk}
    (h : ∀ content, d.read path = .ok content ↔ d'.read path = .ok content) :
    corpusOrEmpty path d = corpusOrEmpty path d' := by
  have hoption : (d.read path).toOption = (d'.read path).toOption := by
    cases hd : d.read path with
    | ok content => rw [(h content).mp hd]
    | error cause =>
      cases hd' : d'.read path with
      | ok content =>
        rw [(h content).mpr hd'] at hd
        cases hd
      | error cause' => rfl
  rw [corpusOrEmpty_eq, corpusOrEmpty_eq, hoption]

namespace Session

/-- The solution as a pass sees it that begins now. -/
def seen (grammar : Grammar) (s : Session) : Listing :=
  let begun := (run beginPass s).2
  begun.workspace.listing grammar begun.disk

/-- The path of the solution's corpus, without its extension. -/
def corpusBase (s : Session) : String :=
  Path.join s.engine.store.root s.workspace.solutionName

theorem corpusPath_eq (s : Session) :
    s.engine.store.corpusPath s.workspace.solutionName = s.corpusBase ++ ".xml" :=
  Path.join_append _ _ Path.isExtension_xml

theorem corpusTempPath_eq (s : Session) :
    s.engine.store.corpusTempPath s.workspace.solutionName = s.corpusBase ++ ".tmp" :=
  Path.join_append _ _ Path.isExtension_tmp

variable {grammar : Grammar} {s s' : Session}

/-- What a pass has done that has begun well: the corpus in the making is there, empty. -/
structure Begins (s s' : Session) (d : Disk) : Prop where
  name : Text.isBlankText s.workspace.solutionName = false
  made : s.disk.createDirectories s.engine.store.root = (.ok (), d)
  engine : s'.engine = s.engine
  catalog : s'.catalog = s.catalog
  refreshed : s.workspace.refresh d = .ok s'.workspace
  started : ∃ temp, d.Names (s.corpusBase ++ ".tmp") temp ∧
    d.Sets s'.disk temp (some (.file "".toUTF8))

theorem beginPass_ends {u : Unit} (h : Ends beginPass s u s') : ∃ d, Begins s s' d := by
  obtain ⟨_, _, hget, h⟩ := Ends.bind_iff.mp h
  obtain ⟨rfl, rfl⟩ := Ends.get_iff.mp hget
  obtain ⟨_, _, hcheck, h⟩ := Ends.bind_iff.mp h
  obtain ⟨hname, rfl⟩ := Ends.check_iff.mp hcheck
  obtain ⟨_, _, hget, h⟩ := Ends.bind_iff.mp h
  obtain ⟨rfl, rfl⟩ := Ends.get_iff.mp hget
  obtain ⟨_, _, hensure, h⟩ := Ends.bind_iff.mp h
  obtain ⟨d, hmake, rfl⟩ := Ends.onDisk_iff.mp hensure
  have hmade := Ends.changeInSteps_iff.mp hmake
  obtain ⟨_, _, hrefresh, h⟩ := Ends.bind_iff.mp h
  obtain ⟨_, _, hget, hrefresh⟩ := Ends.bind_iff.mp hrefresh
  obtain ⟨rfl, rfl⟩ := Ends.get_iff.mp hget
  obtain ⟨w, _, hcheck, hset⟩ := Ends.bind_iff.mp hrefresh
  obtain ⟨hw, rfl⟩ := Ends.check_iff.mp hcheck
  obtain rfl := Ends.set_iff.mp hset
  obtain ⟨d', hcreate, rfl⟩ := Ends.onDisk_iff.mp h
  rw [corpusTempPath_eq] at hcreate
  obtain ⟨-, temp, htemp, hsets⟩ := Disk.write_eq_ok (Ends.change_iff.mp hcreate)
  refine ⟨d, ?_, hmade, rfl, rfl, hw, temp, htemp, hsets⟩
  unfold Analysis.checkName at hname
  split at hname
  · cases hname
  · rename_i hblank
    exact Bool.eq_false_iff.mpr hblank

theorem listingFor_ends {fileIds : Listing → List String} {l : Listing}
    (h : Ends (listingFor grammar fileIds) s l s') :
    l = s.workspace.listing grammar s.disk ∧ s'.disk = s.disk ∧ s'.engine = s.engine ∧
      s'.catalog = s.catalog := by
  obtain ⟨_, _, hget, h⟩ := Ends.bind_iff.mp h
  obtain ⟨rfl, rfl⟩ := Ends.get_iff.mp hget
  obtain ⟨_, _, hset, h⟩ := Ends.bind_iff.mp h
  obtain rfl := Ends.set_iff.mp hset
  obtain ⟨rfl, rfl⟩ := Ends.pure_iff.mp h
  exact ⟨rfl, rfl, rfl, rfl⟩

/-- What a pass has done that has ended well: a corpus of these observations is in its place. -/
structure Passes (s s' : Session) (d : Disk) (observations : List Observation) : Prop where
  name : Text.isBlankText s.workspace.solutionName = false
  made : s.disk.createDirectories s.engine.store.root = (.ok (), d)
  engine : s'.engine = s.engine
  catalog : s'.catalog = s.catalog
  saves : Saves d s'.disk s.corpusBase (Corpus.document observations).toUTF8

theorem solution_seen (grammar : Grammar) {u : Unit} {begun : Session}
    (h : Ends beginPass s u begun) :
    seen grammar s = begun.workspace.listing grammar begun.disk ∧
      (seen grammar s).solution = s.workspace.solutionName := by
  obtain ⟨d, hbegins⟩ := beginPass_ends h
  have hrun : (run beginPass s).2 = begun := congrArg Prod.snd h
  have hseen : seen grammar s = begun.workspace.listing grammar begun.disk := by
    unfold seen
    rw [hrun]
  refine ⟨hseen, ?_⟩
  rw [hseen, Workspace.solution_listing, (Workspace.sameSolution_refresh hbegins.refreshed).name]

theorem run_eq_of_isOk {α : Type} {action : InSession α} {s : Session}
    (h : (run action s).1.isOk = true) : ∃ a, run action s = (.ok a, (run action s).2) := by
  cases hrun : run action s with
  | mk outcome s' =>
    rw [hrun] at h
    cases outcome with
    | error failure => cases h
    | ok a => exact ⟨a, rfl⟩

/-- A solution of given models is seen as it is given. -/
theorem seen_models (grammar : Grammar) {solution : ModelSolution}
    (hmodels : s.workspace = .models solution) (h : (run beginPass s).1.isOk = true) :
    seen grammar s = solution.listing := by
  obtain ⟨_, hends⟩ := run_eq_of_isOk h
  obtain ⟨d, hbegins⟩ := beginPass_ends hends
  have hrefreshed := hbegins.refreshed
  rw [hmodels] at hrefreshed
  rw [(solution_seen grammar hends).1, ← Except.ok.inj hrefreshed]
  rfl

/-- A pass ends with its corpus in place, in whichever way it is put there. -/
theorem Begins.passes {begun listed : Session} {d d' : Disk} {observations : List Observation}
    {replace : OnDisk Unit} {u : Unit} (h : Begins s begun d) (hdisk : listed.disk = begun.disk)
    (hengine : listed.engine = begun.engine) (hcatalog : listed.catalog = begun.catalog)
    (hreplace : replace = Store.publish (s.corpusBase ++ ".tmp") (s.corpusBase ++ ".xml") ∨
      replace = Store.replaceByCopy (s.corpusBase ++ ".tmp") (s.corpusBase ++ ".xml"))
    (hends : Ends (do Store.write (s.corpusBase ++ ".tmp") (Corpus.document observations); replace)
      listed.disk u d') : Passes s { listed with disk := d' } d observations where
  name := h.name
  made := h.made
  engine := hengine.trans h.engine
  catalog := hcatalog.trans h.catalog
  saves := by
    obtain ⟨temp, htemp, hsets⟩ := h.started
    rw [hdisk] at hends
    exact (Store.saves_of_ends hreplace hends).of_sets htemp hsets

/-- An analysis that has begun makes the corpus of what it sees. -/
theorem analyze_rebuilds {result : Analysis.Summary × List Progress}
    (h : Ends (analyze grammar) s result s') : ∃ (begun listed : Session) (d' : Disk),
      Ends beginPass s () begun ∧
      listed.disk = begun.disk ∧ listed.engine = begun.engine ∧ listed.catalog = begun.catalog ∧
      Ends (Analysis.rebuild s.engine.store s.engine.pipeline (seen grammar s)) begun.disk
        result d' ∧ s' = { listed with disk := d' } := by
  obtain ⟨_, begun, hbegin, h⟩ := Ends.bind_iff.mp h
  obtain ⟨l, listed, hlisting, h⟩ := Ends.bind_iff.mp h
  obtain ⟨_, _, hget, h⟩ := Ends.bind_iff.mp h
  obtain ⟨rfl, rfl⟩ := Ends.get_iff.mp hget
  obtain ⟨d', hrebuild, rfl⟩ := Ends.onDisk_iff.mp h
  obtain ⟨d, hbegins⟩ := beginPass_ends hbegin
  obtain ⟨hl, hdisk, hengine, hcatalog⟩ := listingFor_ends hlisting
  obtain rfl := hl.trans (solution_seen grammar hbegin).1.symm
  rw [hengine, hbegins.engine, hdisk] at hrebuild
  exact ⟨begun, listed, d', hbegin, hdisk, hengine, hcatalog, hrebuild, rfl⟩

theorem analyze_ends {result : Analysis.Summary × List Progress}
    (h : Ends (analyze grammar) s result s') :
    (seen grammar s).solution = s.workspace.solutionName ∧ ∃ d, Passes s s' d
      (Analysis.mined s.engine.pipeline (seen grammar s) (seen grammar s).fileIds) := by
  obtain ⟨begun, listed, d', hbegin, hdisk, hengine, hcatalog, hrebuild, rfl⟩ :=
    analyze_rebuilds h
  obtain ⟨-, hsolution⟩ := solution_seen grammar hbegin
  obtain ⟨d, hbegins⟩ := beginPass_ends hbegin
  obtain ⟨_, _, hwrite, hrest⟩ := Ends.bind_iff.mp hrebuild
  obtain ⟨_, _, hpublish, hpure⟩ := Ends.bind_iff.mp hrest
  obtain ⟨-, rfl⟩ := Ends.pure_iff.mp hpure
  rw [hsolution, corpusTempPath_eq] at hwrite hpublish
  rw [corpusPath_eq] at hpublish
  exact ⟨hsolution, d, hbegins.passes hdisk hengine hcatalog (.inl rfl)
    (Ends.bind_iff.mpr ⟨_, _, hdisk ▸ hwrite, hpublish⟩)⟩

/-- An analysis tells how many observations it has written. -/
theorem analyze_counts {result : Analysis.Summary × List Progress}
    (h : Ends (analyze grammar) s result s') : result.1.observationsWritten =
      (Analysis.mined s.engine.pipeline (seen grammar s) (seen grammar s).fileIds).length := by
  obtain ⟨_, _, _, -, -, -, -, hrebuild, -⟩ := analyze_rebuilds h
  obtain ⟨_, _, -, hrest⟩ := Ends.bind_iff.mp hrebuild
  obtain ⟨_, _, -, hpure⟩ := Ends.bind_iff.mp hrest
  obtain ⟨hresult, -⟩ := Ends.pure_iff.mp hpure
  rw [← hresult]
  rfl

/-- The corpus that an update starts from is that of the disk on which it begins. -/
theorem Begins.corpusOrEmpty {begun : Session} {d : Disk} (h : Begins s begun d) :
    Store.corpusOrEmpty (s.corpusBase ++ ".xml") begun.disk =
      Store.corpusOrEmpty (s.corpusBase ++ ".xml") d := by
  obtain ⟨temp, htemp, hsets⟩ := h.started
  exact Store.corpusOrEmpty_congr fun content => htemp.read_beside hsets

theorem update_ends {changed : List String} {result : Analysis.Summary × List Progress}
    (h : Ends (update grammar changed) s result s') :
    (seen grammar s).solution = s.workspace.solutionName ∧ ∃ d, Passes s s' d
      (Analysis.updated s.engine.pipeline (seen grammar s) changed
        (Store.corpusOrEmpty (s.corpusBase ++ ".xml") d)) := by
  obtain ⟨_, begun, hbegin, h⟩ := Ends.bind_iff.mp h
  obtain ⟨l, listed, hlisting, h⟩ := Ends.bind_iff.mp h
  obtain ⟨_, _, hget, h⟩ := Ends.bind_iff.mp h
  obtain ⟨rfl, rfl⟩ := Ends.get_iff.mp hget
  obtain ⟨d', hupdate, rfl⟩ := Ends.onDisk_iff.mp h
  obtain ⟨hseen, hsolution⟩ := solution_seen grammar hbegin
  obtain ⟨d, hbegins⟩ := beginPass_ends hbegin
  obtain ⟨hl, hdisk, hengine, hcatalog⟩ := listingFor_ends hlisting
  obtain rfl := hl.trans hseen.symm
  obtain ⟨previous, _, hlook, hrest⟩ := Ends.bind_iff.mp hupdate
  obtain ⟨hprevious, rfl⟩ := Ends.look_iff.mp hlook
  obtain ⟨_, _, hwrite, hrest⟩ := Ends.bind_iff.mp hrest
  obtain ⟨_, _, hcopy, hpure⟩ := Ends.bind_iff.mp hrest
  obtain ⟨-, rfl⟩ := Ends.pure_iff.mp hpure
  rw [hengine, hbegins.engine, hsolution, corpusTempPath_eq] at hwrite hcopy
  rw [corpusPath_eq] at hcopy
  have hcorpus : previous = Store.corpusOrEmpty (s.corpusBase ++ ".xml") d := by
    rw [← Except.ok.inj hprevious, hengine, hbegins.engine, hsolution, corpusPath_eq, hdisk,
      hbegins.corpusOrEmpty]
  rw [hcorpus] at hwrite
  exact ⟨hsolution, d, hbegins.passes hdisk hengine hcatalog (.inr rfl)
    (Ends.bind_iff.mpr ⟨_, _, hwrite, hcopy⟩)⟩

end Session

end Foresight
