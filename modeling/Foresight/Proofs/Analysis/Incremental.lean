import Foresight.Code.Compose
import Foresight.Code.Layout
import Foresight.Proofs.Analysis.Passes
import Foresight.Proofs.Analysis.Update
import Foresight.Proofs.Store.Codec

/-!
# Bringing a corpus up to date

A corpus that an analysis has written, and that an update has brought up to date since, holds what
an analysis would write now, in some order; the suggestions that come of it are the same.
-/

namespace Foresight

open Records

namespace Session

open Analysis

variable {grammar : Grammar} {s s' : Session} {d : Disk} {observations : List Observation}

/-- Directories may be made around a corpus without making a difference to it. -/
theorem Passes.grows (h : Passes s s' d observations) : s.disk.Grows d := by
  have hgrows := Disk.grows_makeDirectories (s.engine.store.root.length + 1) s.disk
    s.engine.store.root
  have hmade :
      (s.disk.makeDirectories (s.engine.store.root.length + 1) s.engine.store.root).2 = d :=
    congrArg Prod.snd h.made
  rwa [hmade] at hgrows

/-- The corpus of a pass is read back. -/
theorem Passes.readCorpus (h : Passes s s' d observations)
    (hbars : ∀ o ∈ observations, IsBarFree o.fields) :
    Store.readCorpus (s.engine.store.corpusPath s.workspace.solutionName) s'.disk =
      .ok observations := by
  rw [corpusPath_eq]
  exact Store.readCorpus_document hbars h.saves.read

/-- A corpus that was written when the solution was in one state, and that is brought up to date in
another one for at least the files that have changed, holds what an analysis writes in that state,
up to the order, and comes to the same suggestions. -/
theorem update_agrees_with_analyze {first analyzed before after fresh rebuilt : Session}
    {changed : List String} {r r' r'' : Summary × List Progress}
    (hanalyzed : run (analyze grammar) first = (.ok r, analyzed))
    (hname : before.workspace.solutionName = first.workspace.solutionName)
    (hstore : before.engine.store = first.engine.store)
    (hpipeline : before.engine.pipeline = first.engine.pipeline)
    (hcorpus : before.disk.read (first.engine.store.corpusPath first.workspace.solutionName) =
      analyzed.disk.read (first.engine.store.corpusPath first.workspace.solutionName))
    (hupdated : run (update grammar changed) before = (.ok r', after))
    (hfresh : fresh.engine.pipeline = before.engine.pipeline ∧
      seen grammar fresh = seen grammar before)
    (hrebuilt : run (analyze grammar) fresh = (.ok r'', rebuilt))
    (honce : (seen grammar first).fileIds.Nodup ∧ (seen grammar before).fileIds.Nodup)
    (hagree : ∀ fileId, fileId ∉ changed →
      Agree (seen grammar first) (seen grammar before) fileId)
    (hbars : ∀ l ∈ [seen grammar first, seen grammar before], ∀ fileId ∈ l.fileIds,
      ∀ o ∈ mine first.engine.pipeline l fileId, IsBarFree o.fields) :
    ∃ kept full,
      Store.readCorpus (before.engine.store.corpusPath before.workspace.solutionName) after.disk =
        .ok kept ∧
      Store.readCorpus (fresh.engine.store.corpusPath fresh.workspace.solutionName) rebuilt.disk =
        .ok full ∧
      kept.Perm full ∧
      ∀ thresholds, List.Forall₂ Ranking.Same (Ranking.aggregate kept thresholds)
        (Ranking.aggregate full thresholds) := by
  have hfree : ∀ l ∈ [seen grammar first, seen grammar before], ∀ fileIds ⊆ l.fileIds,
      ∀ o ∈ mined first.engine.pipeline l fileIds, IsBarFree o.fields := by
    intro l hl fileIds hfiles o ho
    obtain ⟨fileId, hfile, hmine⟩ := List.mem_flatMap.mp ho
    exact hbars l hl fileId (hfiles hfile) o hmine
  obtain ⟨hbefore, hafter⟩ := honce
  obtain ⟨hfreshPipeline, hfreshSeen⟩ := hfresh
  -- The corpus that the update starts from is the one that was analyzed.
  obtain ⟨-, _, hfirst⟩ := analyze_ends hanalyzed
  obtain ⟨-, d, hupdate⟩ := update_ends hupdated
  have hbase : before.corpusBase = first.corpusBase := by
    unfold corpusBase
    rw [hstore, hname]
  have hstart : before.disk.read (before.corpusBase ++ ".xml") = .ok (Corpus.document
      (mined first.engine.pipeline (seen grammar first) (seen grammar first).fileIds)).toUTF8 := by
    rw [corpusPath_eq, hfirst.saves.read] at hcorpus
    rw [hbase, hcorpus]
  have hprevious : Store.corpusOrEmpty (before.corpusBase ++ ".xml") d =
      mined first.engine.pipeline (seen grammar first) (seen grammar first).fileIds :=
    Store.corpusOrEmpty_document (hfree _ (by simp) _ (List.Subset.refl _))
      (hupdate.grows.read hstart)
  rw [hprevious, hpipeline] at hupdate
  obtain ⟨-, _, hfull⟩ := analyze_ends hrebuilt
  rw [hfreshPipeline, hfreshSeen, hpipeline] at hfull
  have hperm := updated_perm (p := first.engine.pipeline) hbefore hafter hagree
  have hfullFree := hfree (seen grammar before) (by simp) _ (List.Subset.refl _)
  refine ⟨_, _, hupdate.readCorpus fun o ho => hfullFree o (hperm.mem_iff.mp ho),
    hfull.readCorpus hfullFree, hperm, fun thresholds => ?_⟩
  exact Ranking.aggregate_perm (fun o ho => isPlain_mined (hperm.mem_iff.mp ho)) hperm thresholds

/-! A solution of which one file is lost, one is new and one stays as it is. -/

/-- A file in which a variable is declared and the member is left. -/
def bagFile (path : String) : SourceFile :=
  (Outline.new path |>.method
    [.local_ "bag" ⟨"Bag", "App.Bag"⟩ (.create ⟨"App", "Bag"⟩ []), .return_ none]).finish

def bagsBefore : ModelSolution :=
  ((((ModelSolution.empty "bags").add "App" "Lost.cs" (some (bagFile "Lost.cs"))).1).add
    "App" "Kept.cs" (some (bagFile "Kept.cs"))).1

def bagsAfter : ModelSolution :=
  ((((bagsBefore.add "App" "Lost.cs" none).1).add "App" "New.cs" (some (bagFile "New.cs"))).1)

def bagsChanged : List String := ["<App>/New.cs", "<App>/Lost.cs", "<App>/None.cs", "<App>/New.cs"]

def bagsGrammar : Grammar := fun _ => default

def bagsFirst : Session :=
  ⟨⟨[(["data"], .directory)], [], by decide⟩, ⟨default, ⟨"/data"⟩, .standard⟩,
    .models bagsBefore, none⟩

/-- The session once the corpus is written and the solution has changed. -/
def bagsLater : Session :=
  { bagsFirst with
    disk := (run (analyze bagsGrammar) bagsFirst).2.disk
    workspace := .models bagsAfter }

theorem update_agrees_with_analyze_bags : ∃ kept full,
    Store.readCorpus (bagsLater.engine.store.corpusPath bagsLater.workspace.solutionName)
      (run (update bagsGrammar bagsChanged) bagsLater).2.disk = .ok kept ∧
    Store.readCorpus (bagsLater.engine.store.corpusPath bagsLater.workspace.solutionName)
      (run (analyze bagsGrammar) bagsLater).2.disk = .ok full ∧
    kept.Perm full ∧
    ∀ thresholds, List.Forall₂ Ranking.Same (Ranking.aggregate kept thresholds)
      (Ranking.aggregate full thresholds) := by
  obtain ⟨_, hanalyzed⟩ := run_eq_of_isOk
    (by decide +kernel : (run (analyze bagsGrammar) bagsFirst).1.isOk = true)
  obtain ⟨_, hupdated⟩ := run_eq_of_isOk
    (by decide +kernel : (run (update bagsGrammar bagsChanged) bagsLater).1.isOk = true)
  obtain ⟨_, hrebuilt⟩ := run_eq_of_isOk
    (by decide +kernel : (run (analyze bagsGrammar) bagsLater).1.isOk = true)
  have hdisk : bagsLater.disk = (run (analyze bagsGrammar) bagsFirst).2.disk := by
    dsimp only [bagsLater]
  have hname : bagsLater.workspace.solutionName = bagsFirst.workspace.solutionName := by decide
  have hfirst : seen bagsGrammar bagsFirst = bagsBefore.listing :=
    seen_models _ rfl (by decide +kernel)
  have hlater : seen bagsGrammar bagsLater = bagsAfter.listing :=
    seen_models _ rfl (by decide +kernel)
  have honce : bagsBefore.listing.fileIds.Nodup ∧ bagsAfter.listing.fileIds.Nodup := by
    decide +kernel
  have hbars : ∀ l ∈ [bagsBefore.listing, bagsAfter.listing], ∀ fileId ∈ l.fileIds,
      ∀ o ∈ mine .standard l fileId, IsBarFree o.fields := by
    decide +kernel
  have hagree : ∀ fileId, fileId ∉ bagsChanged →
      Agree bagsBefore.listing bagsAfter.listing fileId := by
    intro fileId hfile
    have hbefore : bagsBefore.listing.fileIds = ["<App>/Lost.cs", "<App>/Kept.cs"] := by
      decide +kernel
    have hafter : bagsAfter.listing.fileIds =
        ["<App>/Lost.cs", "<App>/Kept.cs", "<App>/New.cs"] := by
      decide +kernel
    obtain ⟨hnew, hlost, -⟩ : fileId ≠ "<App>/New.cs" ∧ fileId ≠ "<App>/Lost.cs" ∧
        fileId ≠ "<App>/None.cs" ∧ fileId ≠ "<App>/New.cs" := by
      simpa [bagsChanged] using hfile
    constructor
    · simp [hbefore, hafter, hnew]
    · intro hlisted
      obtain rfl : fileId = "<App>/Kept.cs" := by
        simpa [hbefore, hlost] using hlisted
      rfl
  rw [← hfirst, ← hlater] at honce hagree hbars
  exact update_agrees_with_analyze hanalyzed hname rfl rfl (by rw [hdisk]) hupdated ⟨rfl, rfl⟩
    hrebuilt honce hagree hbars

end Session

end Foresight
