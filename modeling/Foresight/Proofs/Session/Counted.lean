import Foresight.Proofs.Session.Refinement
import Foresight.Proofs.Store.Granted

/-!
# What a build counts

A solution is analysed in an empty data directory, and a build follows. Which names an analysis
accepts and which files a build looks for are two questions: every name that is not blank is
accepted, and the corpora of a build are those whose name could be that of a solution
(`Store.isCorpusName_xml_iff`). So the build counts the observations that were written, or none at
all (`build_counts_analyzed`).
-/

namespace Foresight

namespace Disk

variable {d : Disk} {location : Location}

/-- A directory with one thing in it. -/
theorem namesIn_eq_singleton {only : String}
    (h : ∀ name, (d.get? (location ++ [name])).isSome ↔ name = only) :
    d.namesIn location = [only] := by
  have hnodup : (d.namesIn location).Nodup := pairwise_namesIn.imp ne_of_lt
  refine List.perm_singleton.mp ((List.perm_ext_iff_of_nodup hnodup (List.nodup_singleton _)).mpr
    fun name => ?_)
  rw [mem_namesIn, h, List.mem_singleton]

end Disk

namespace Store

variable {s : Store} {d : Disk} {location : Location} {name : String}

/-- A file called by a name that an analysis accepts is one of the corpora if no dot leads the name
and it is not that of the suggestions. -/
theorem isCorpusName_xml_iff (hblank : Text.isBlankText name = false)
    (hslash : '/' ∉ name.toList) :
    isCorpusName (name ++ ".xml") = true ↔ IsSolutionName name := by
  refine ⟨fun h => ?_, IsSolutionName.isCorpusName⟩
  have hne : name ≠ "" := by
    rintro rfl
    exact absurd hblank (by decide)
  unfold isCorpusName at h
  simp only [Bool.and_eq_true, Bool.not_eq_true'] at h
  obtain ⟨⟨hvisible, -⟩, hreserved⟩ := h
  refine ⟨hblank, hslash, ?_, ?_⟩
  · unfold Path.isHiddenName at hvisible ⊢
    rwa [Text.beginsWith_append (c := '.') (by decide) hne] at hvisible
  · refine Bool.eq_false_iff.mpr fun hsame => ?_
    have hsuggestions : suggestionsName.toList = "_Suggestions".toList ++ ".xml".toList := by
      decide
    have hlower : Text.sameIgnoringCase suggestionsName (name ++ ".xml") = true := by
      unfold Text.sameIgnoringCase at hsame ⊢
      rw [hsuggestions, String.toList_append, List.map_append, List.map_append,
        beq_iff_eq.mp hsame, beq_self_eq_true]
    rw [hlower] at hreserved
    cases hreserved

/-- A data directory with the corpus of one solution in it and nothing else. -/
structure Alone (s : Store) (d : Disk) (location : Location) (solution : String)
    (observations : List Observation) : Prop where
  leads : d.Leads s.root location
  read : d.read (s.corpusPath solution) = .ok (Corpus.document observations).toUTF8
  only : ∀ name, d.get? (location ++ [name]) =
    if name = solution ++ ".xml" then some (.file (Corpus.document observations).toUTF8) else none

namespace Alone

variable {solution : String} {observations : List Observation}

theorem not_directory (h : Alone s d location solution observations) (name : String) :
    d.get? (location ++ [name]) ≠ some .directory := by
  rw [h.only]
  split
  · exact nofun
  · exact nofun

theorem corpusNames_eq (h : Alone s d location solution observations) :
    s.corpusNames d =
      if isCorpusName (solution ++ ".xml") then [solution ++ ".xml"] else [] := by
  have hthere : ∀ name, (d.get? (location ++ [name])).isSome ↔ name = solution ++ ".xml" := by
    intro name
    rw [h.only]
    split
    · rename_i hname
      exact ⟨fun _ => hname, fun _ => rfl⟩
    · rename_i hname
      exact ⟨nofun, fun heq => absurd heq hname⟩
  have hfile : d.isFile (Path.join s.root (solution ++ ".xml")) = true :=
    Disk.isFile_iff.mpr ⟨_, h.read⟩
  unfold corpusNames
  rw [h.leads.locate]
  dsimp only
  rw [h.leads.directory]
  dsimp only
  rw [Disk.namesIn_eq_singleton hthere]
  cases hname : isCorpusName (solution ++ ".xml") with
  | true =>
    rw [List.filter_cons_of_pos (by rw [hname, hfile]; rfl)]
    rfl
  | false =>
    rw [List.filter_cons_of_neg (by rw [hname]; exact Bool.false_ne_true)]
    rfl

theorem observations_eq (h : Alone s d location solution observations) :
    s.observations d =
      if isCorpusName (solution ++ ".xml") then observations.map Corpus.reread else [] := by
  unfold Store.observations
  rw [h.corpusNames_eq]
  split
  · have hcorpus : corpusOrEmpty (s.corpusPath solution) d = observations.map Corpus.reread := by
      rw [corpusOrEmpty, readCorpus_reread h.read]
      rfl
    rw [List.flatMap_singleton]
    exact hcorpus
  · rfl

end Alone

end Store

namespace Session

variable {grammar : Grammar} {s s' : Session} {location : Location}

/-- An analysis leaves nothing but its corpus in a data directory that was empty. -/
theorem analyze_alone {r : Analysis.Summary × List Progress}
    (hleads : s.disk.Leads s.engine.store.root location)
    (hempty : ∀ name, s.disk.get? (location ++ [name]) = none)
    (hslash : '/' ∉ s.workspace.solutionName.toList) (h : Ends (analyze grammar) s r s') :
    s'.engine.store.Alone s'.disk location s.workspace.solutionName
      (Analysis.mined s.engine.pipeline (seen grammar s) (seen grammar s).fileIds) := by
  obtain ⟨-, d, hpasses⟩ := analyze_ends h
  obtain rfl := eq_of_createDirectories hleads hpasses.made
  rw [hpasses.engine]
  refine ⟨hleads.keeps hpasses.saves.keeps, ?_, fun name => ?_⟩
  · rw [corpusPath_eq]
    exact hpasses.saves.read
  · rw [Store.get?_saves hleads hslash hpasses.saves, hempty]
    simp only [List.append_cancel_left_eq, List.cons.injEq, and_true, ite_self]

/-- A build ends well where the data directory is there with no directories in it, unless its path
is too long for anything to be written. -/
theorem build_ok (hleads : s.disk.Leads s.engine.store.root location)
    (hfiles : ∀ name, s.disk.get? (location ++ [name]) ≠ some .directory)
    (hwhole : Disk.checkWhole s.engine.store.suggestionsTempPath = .ok ()) :
    ∃ r s', Ends build s r s' := by
  have hmade := Disk.createDirectories_of_locate hleads.locate hleads.directory
  rw [Store.suggestionsTempPath_eq, ← Path.join_append _ _ Path.isExtension_tmp] at hwhole
  have htemp := hleads.names (Store.isEntryName_tmp (by decide)) hwhole
  rw [Path.join_append _ _ Path.isExtension_tmp] at htemp
  obtain ⟨target, htarget, hne⟩ := htemp.xml_of_tmp
  obtain rfl : target = location ++ ["_Suggestions" ++ ".xml"] := by
    refine htarget.unique ?_
    rw [← Path.join_append _ _ Path.isExtension_xml]
    refine hleads.names (Store.isEntryName_xml (by decide)) ?_
    rw [Path.join_append _ _ Path.isExtension_xml]
    exact htarget.whole
  obtain ⟨d₁, d₂, hwrite, hpublish⟩ := Store.save_ok htemp htarget hne
    (Disk.isShort_concat.mpr (by decide)) (Disk.isShort_concat.mpr (by decide)) (hfiles _)
    (hfiles _) (Store.suggestionsDocument (Ranking.aggregate (s.engine.store.observations s.disk)
      s.engine.settings.suggestions.thresholds))
  rw [← Store.suggestionsTempPath_eq] at hwrite hpublish
  rw [← Store.suggestionsPath_eq] at hpublish
  have hstored : Ends (s.engine.store.build s.engine.settings.suggestions.thresholds) s.disk
      (⟨(s.engine.store.corpusNames s.disk).length, (s.engine.store.observations s.disk).length,
        (Ranking.aggregate (s.engine.store.observations s.disk)
          s.engine.settings.suggestions.thresholds).length⟩,
        Store.buildProgress (s.engine.store.corpusNames s.disk)
          (s.engine.store.observations s.disk).length) d₂ :=
    Ends.bind_iff.mpr ⟨_, _, Ends.look_iff.mpr ⟨rfl, rfl⟩, Ends.bind_iff.mpr
      ⟨_, _, Ends.look_iff.mpr ⟨rfl, rfl⟩, Ends.bind_iff.mpr
        ⟨(), _, Ends.changeInSteps_iff.mpr hmade, Ends.bind_iff.mpr
          ⟨(), d₁, hwrite, Ends.bind_iff.mpr ⟨(), d₂, hpublish, Ends.pure_iff.mpr ⟨rfl, rfl⟩⟩⟩⟩⟩⟩
  exact ⟨_, _, Ends.bind_iff.mpr ⟨s, s, Ends.get_iff.mpr ⟨rfl, rfl⟩, Ends.bind_iff.mpr
    ⟨_, _, Ends.onDisk_iff.mpr ⟨d₂, hstored, rfl⟩, Ends.bind_iff.mpr
      ⟨(), _, Ends.modify_iff.mpr rfl, Ends.pure_iff.mpr ⟨rfl, rfl⟩⟩⟩⟩⟩

/-- A build that follows an analysis ends well, and counts what was written if it takes the file
for a corpus. -/
theorem build_after_analyze {r : Analysis.Summary × List Progress}
    (hleads : s.disk.Leads s.engine.store.root location)
    (hempty : ∀ name, s.disk.get? (location ++ [name]) = none)
    (hslash : '/' ∉ s.workspace.solutionName.toList)
    (hwhole : Disk.checkWhole s.engine.store.suggestionsTempPath = .ok ())
    (h : Ends (analyze grammar) s r s') : ∃ built s'', Ends build s' built s'' ∧
      (built.1.dataFiles, built.1.observations) =
        if Store.isCorpusName (s.workspace.solutionName ++ ".xml") then
          (1, r.1.observationsWritten)
        else (0, 0) := by
  obtain ⟨-, d, hpasses⟩ := analyze_ends h
  have halone := analyze_alone hleads hempty hslash h
  obtain ⟨built, s'', hbuild⟩ :=
    build_ok halone.leads halone.not_directory (hpasses.engine ▸ hwhole)
  obtain ⟨-, -, -, -, -, -, -, hfiles, hobservations⟩ := build_steps hbuild
  refine ⟨built, s'', hbuild, ?_⟩
  rw [hfiles, hobservations, halone.corpusNames_eq, halone.observations_eq]
  split
  · rw [List.length_map, analyze_counts h]
    rfl
  · rfl

/-- What a build counts after a solution has been analysed in an empty data directory: what was
written, if the solution is called so that its files can be told from all else in the directory, and
otherwise nothing. -/
theorem build_counts_analyzed {r : Analysis.Summary × List Progress}
    (hleads : s.disk.Leads s.engine.store.root location)
    (hempty : ∀ name, s.disk.get? (location ++ [name]) = none)
    (hslash : '/' ∉ s.workspace.solutionName.toList)
    (hwhole : Disk.checkWhole s.engine.store.suggestionsTempPath = .ok ())
    (h : run (analyze grammar) s = (.ok r, s')) : ∃ built s'', run build s' = (.ok built, s'') ∧
      (built.1.dataFiles, built.1.observations) =
        if Store.IsSolutionName s.workspace.solutionName then (1, r.1.observationsWritten)
        else (0, 0) := by
  obtain ⟨-, d, hpasses⟩ := analyze_ends h
  obtain ⟨built, s'', hbuild, hcounts⟩ := build_after_analyze hleads hempty hslash hwhole h
  refine ⟨built, s'', hbuild, hcounts.trans ?_⟩
  exact if_congr (Store.isCorpusName_xml_iff hpasses.name hslash) rfl rfl

/-! A solution under some name. -/

def bagsCalled (name : String) : Session :=
  { bagsFirst with workspace := .models { bagsBefore with name } }

theorem leads_bagsCalled (name : String) :
    (bagsCalled name).disk.Leads (bagsCalled name).engine.store.root ["data"] ∧
      ∀ other, (bagsCalled name).disk.get? (["data"] ++ [other]) = none :=
  have hleads : bagsFirst.disk.Leads bagsFirst.engine.store.root ["data"] := ⟨by rfl, by rfl⟩
  ⟨hleads, fun other => by simp [bagsCalled, bagsFirst, Disk.get?]⟩

theorem build_counts_analyzed_bags : ∃ r built,
    (run (analyze bagsGrammar) (bagsCalled "bags")).1 = .ok r ∧
      (run build (run (analyze bagsGrammar) (bagsCalled "bags")).2).1 = .ok built ∧
      (built.1.dataFiles, built.1.observations) = (1, r.1.observationsWritten) := by
  obtain ⟨r, hanalyzed⟩ := run_eq_of_isOk
    (by decide +kernel : (run (analyze bagsGrammar) (bagsCalled "bags")).1.isOk = true)
  obtain ⟨hleads, hempty⟩ := leads_bagsCalled "bags"
  obtain ⟨built, s', hbuilt, hcounts⟩ := build_counts_analyzed hleads hempty
    (by decide) (by decide +kernel) hanalyzed
  rw [if_pos (by decide)] at hcounts
  exact ⟨r, built, congrArg Prod.fst hanalyzed, congrArg Prod.fst hbuilt, hcounts⟩

/-- Under a name that begins with a dot, observations are written and no build finds them. -/
theorem bags_uncounted : ∃ r built,
    (run (analyze bagsGrammar) (bagsCalled ".bags")).1 = .ok r ∧ r.1.observationsWritten = 2 ∧
      (run build (run (analyze bagsGrammar) (bagsCalled ".bags")).2).1 = .ok built ∧
      (built.1.dataFiles, built.1.observations) = (0, 0) := by
  obtain ⟨r, hanalyzed⟩ := run_eq_of_isOk
    (by decide +kernel : (run (analyze bagsGrammar) (bagsCalled ".bags")).1.isOk = true)
  have hwritten : (run (analyze bagsGrammar) (bagsCalled ".bags")).1.toOption.map
      (·.1.observationsWritten) = some 2 := by
    decide +kernel
  obtain ⟨hleads, hempty⟩ := leads_bagsCalled ".bags"
  obtain ⟨built, s', hbuilt, hcounts⟩ := build_after_analyze hleads hempty
    (by decide) (by decide +kernel) hanalyzed
  rw [if_neg (by decide +kernel)] at hcounts
  rw [hanalyzed] at hwritten
  exact ⟨r, built, congrArg Prod.fst hanalyzed, Option.some.inj hwritten,
    congrArg Prod.fst hbuilt, hcounts⟩

end Session

end Foresight
