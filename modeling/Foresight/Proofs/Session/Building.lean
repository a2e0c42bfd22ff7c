import Foresight.Proofs.Analysis.Passes
import Foresight.Proofs.Store.Contents

/-!
# Builds and the catalog

A build reads whatever corpora there are, and the catalog that is loaded afterwards holds what they
come to (`catalog_agrees_with_build`). Nothing has to be asked of the corpora for that: what comes
out of one has no bars in its fields, since bars are where a field ends
(`Store.isBarFree_observations`), and nothing on the way to the catalog brings any in
(`Ranking.writable_aggregate`).
-/

namespace Foresight

open Records

/-- What was read of a corpus was cut at the bars. -/
theorem Corpus.isBarFree_read {document : ByteArray} {observations : List Observation}
    (h : Corpus.read document = .ok observations) : ∀ o ∈ observations, IsBarFree o.fields := by
  obtain ⟨records, -, hrecords⟩ := Except.bind_eq_ok_iff.mp h
  obtain rfl := Except.ok.inj hrecords
  intro o ho
  obtain ⟨r, -, rfl⟩ := List.mem_map.mp ho
  exact isBarFree_decodeFields _

namespace Store

variable {d : Disk}

theorem isBarFree_corpusOrEmpty {path : String} :
    ∀ o ∈ corpusOrEmpty path d, IsBarFree o.fields := by
  rw [corpusOrEmpty_eq]
  cases hread : d.read path with
  | error cause => exact fun o ho => absurd ho List.not_mem_nil
  | ok content =>
    cases hcorpus : Corpus.read content with
    | error failure =>
      intro o ho
      rw [Except.toOption, Option.bind_some, hcorpus] at ho
      exact absurd ho List.not_mem_nil
    | ok observations =>
      rw [Except.toOption, Option.bind_some, hcorpus]
      exact Corpus.isBarFree_read hcorpus

theorem isBarFree_observations (s : Store) :
    ∀ o ∈ s.observations d, IsBarFree o.fields := by
  intro o ho
  obtain ⟨name, -, ho⟩ := List.mem_flatMap.mp ho
  exact isBarFree_corpusOrEmpty o ho

end Store

namespace Session

variable {s s' : Session}

/-! ## What a build does -/

/-- What a build that ends well leaves behind. It counts what it has read, and saves what that comes
to once the data directory is there. -/
structure Builds (s s' : Session) (summary : Store.BuildSummary) (d : Disk) : Prop where
  engine : s'.engine = s.engine
  catalog : s'.catalog = none
  counted : summary.observations = (s.engine.store.observations s.disk).length
  made : s.disk.createDirectories s.engine.store.root = (.ok (), d)
  saves : Saves d s'.disk (Path.join s.engine.store.root "_Suggestions")
    (Store.suggestionsDocument (Ranking.aggregate (s.engine.store.observations s.disk)
      s.engine.settings.suggestions.thresholds)).toUTF8

/-- The steps of a build that ends well: the data directory is made, what was found is written
beside the suggestions, is published, and the catalog is forgotten. -/
theorem build_steps {r : Store.BuildSummary × List Progress} (h : Ends build s r s') :
    ∃ d₁ d₂ d', s.disk.createDirectories s.engine.store.root = (.ok (), d₁) ∧
      Ends (Store.write s.engine.store.suggestionsTempPath (Store.suggestionsDocument
        (Ranking.aggregate (s.engine.store.observations s.disk)
          s.engine.settings.suggestions.thresholds))) d₁ () d₂ ∧
      Ends (Store.publish s.engine.store.suggestionsTempPath s.engine.store.suggestionsPath)
        d₂ () d' ∧
      s' = { s with disk := d', catalog := none } ∧
      r.1.dataFiles = (s.engine.store.corpusNames s.disk).length ∧
      r.1.observations = (s.engine.store.observations s.disk).length := by
  obtain ⟨_, _, hget, h⟩ := Ends.bind_iff.mp h
  obtain ⟨rfl, rfl⟩ := Ends.get_iff.mp hget
  obtain ⟨_, _, hdisk, h⟩ := Ends.bind_iff.mp h
  obtain ⟨d', hbuild, rfl⟩ := Ends.onDisk_iff.mp hdisk
  obtain ⟨_, _, hmodify, h⟩ := Ends.bind_iff.mp h
  obtain rfl := Ends.modify_iff.mp hmodify
  obtain ⟨rfl, rfl⟩ := Ends.pure_iff.mp h
  obtain ⟨names, _, hlook, hbuild⟩ := Ends.bind_iff.mp hbuild
  obtain ⟨hnames, rfl⟩ := Ends.look_iff.mp hlook
  obtain rfl := Except.ok.inj hnames
  obtain ⟨observations, _, hlook, hbuild⟩ := Ends.bind_iff.mp hbuild
  obtain ⟨hobservations, rfl⟩ := Ends.look_iff.mp hlook
  obtain rfl := Except.ok.inj hobservations
  obtain ⟨_, d₁, hensure, hbuild⟩ := Ends.bind_iff.mp hbuild
  obtain ⟨_, d₂, hwrite, hbuild⟩ := Ends.bind_iff.mp hbuild
  obtain ⟨_, _, hpublish, hpure⟩ := Ends.bind_iff.mp hbuild
  obtain ⟨hsummary, rfl⟩ := Ends.pure_iff.mp hpure
  refine ⟨d₁, d₂, _, Ends.changeInSteps_iff.mp hensure, hwrite, hpublish, rfl, ?_, ?_⟩
  · rw [← hsummary]
  · rw [← hsummary]

theorem build_ends {r : Store.BuildSummary × List Progress} (h : Ends build s r s') :
    ∃ d, Builds s s' r.1 d := by
  obtain ⟨d₁, d₂, d', hmade, hwrite, hpublish, rfl, -, hcounted⟩ := build_steps h
  rw [Store.suggestionsTempPath_eq] at hwrite hpublish
  rw [Store.suggestionsPath_eq] at hpublish
  exact ⟨d₁, ⟨rfl, rfl, hcounted, hmade,
    Store.saves_of_ends (.inl rfl) (Ends.bind_iff.mpr ⟨_, _, hwrite, hpublish⟩)⟩⟩

/-! ## What the catalog says -/

/-- The loaded suggestions, or those that would be loaded. -/
def suggestions (s : Session) : List Suggestion :=
  s.catalog.getD (s.engine.store.published s.disk)

theorem run_published (s : Session) :
    run published s = (.ok s.suggestions, { s with catalog := some s.suggestions }) := by
  obtain ⟨disk, engine, workspace, catalog⟩ := s
  cases catalog with
  | none => rfl
  | some loaded => rfl

/-- What is asked about one key is told of what is published. -/
theorem run_publishedFor {suggestions : List Suggestion}
    (h : run published s = (.ok suggestions, s')) (key : String) :
    run (publishedFor key) s = (.ok (Offers.forKey suggestions key), s') :=
  Ends.bind_iff.mpr ⟨_, _, h, rfl⟩

/-- After a build the catalog has the suggestions that the build has found, each as it was and in
their order, whatever the corpora say. Numbers are read back as numbers of 64 bits, so the build has
to have counted no more. -/
theorem catalog_agrees_with_build {r : Store.BuildSummary × List Progress}
    (h : run build s = (.ok r, s')) (hcount : r.1.observations < UInt64.size) :
    (run published s').1 = .ok (Ranking.aggregate (s.engine.store.observations s.disk)
      s.engine.settings.suggestions.thresholds) ∧
    ∀ key, (run (publishedFor key) s').1 =
      .ok (Offers.forKey (Ranking.aggregate (s.engine.store.observations s.disk)
        s.engine.settings.suggestions.thresholds) key) := by
  obtain ⟨d, hbuilds⟩ := build_ends h
  have hsaved : s'.suggestions = Ranking.aggregate (s.engine.store.observations s.disk)
      s.engine.settings.suggestions.thresholds := by
    rw [suggestions, hbuilds.catalog, hbuilds.engine]
    refine Store.published_saveSuggestions (fun t ht => ?_) hbuilds.saves
    refine Ranking.writable_aggregate (Store.isBarFree_observations _) ?_ ht
    rw [← hbuilds.counted]
    exact hcount
  have hanswer := run_published s'
  rw [hsaved] at hanswer
  exact ⟨congrArg Prod.fst hanswer,
    fun key => congrArg Prod.fst (run_publishedFor hanswer key)⟩

/-! A corpus of two files in which the same is done with different values. -/

def closings : List Observation :=
  [⟨"After \"Bag\"", "a.cs", "$bag$.Close();", .ofList [("bag", "c:left"), ("", "")]⟩,
    ⟨"After \"Bag\"", "b.cs", "$bag$.Close();", .ofList [("bag", "c:right")]⟩]

def closingsKnown : Session :=
  ⟨⟨[(["data"], .directory), (["data", "Bags.xml"], .file (Corpus.document closings).toUTF8)], [],
      by decide⟩,
    ⟨default, ⟨"/data"⟩, .standard⟩, .models (.empty "Bags"), none⟩

theorem catalog_agrees_with_build_closings :
    (run published (run build closingsKnown).2).1 = .ok (Ranking.aggregate closings
      closingsKnown.engine.settings.suggestions.thresholds) := by
  have hholds : closingsKnown.engine.store.Holds closingsKnown.disk ["data"]
      (Table.empty.insert "Bags" closings) :=
    { leads := ⟨by rfl, by rfl⟩
      held := by
        intro solution observations hget
        rw [Table.get?_insert] at hget
        split at hget
        · rename_i hsolution
          cases hget
          subst hsolution
          exact ⟨by decide +kernel, by decide, by decide +kernel⟩
        · cases hget
      nothing_else := by
        intro name _ hthere
        refine ⟨"Bags", Table.empty.mem_names_insert.mpr (.inl rfl), ?_⟩
        simpa [closingsKnown, Disk.get?] using hthere }
  have hread : closingsKnown.engine.store.observations closingsKnown.disk = closings :=
    hholds.observations_eq.trans (by decide +kernel)
  obtain ⟨r, hbuilt⟩ := run_eq_of_isOk
    (by decide +kernel : (run build closingsKnown).1.isOk = true)
  obtain ⟨d, hbuilds⟩ := build_ends hbuilt
  have hcount : r.1.observations < UInt64.size := by
    rw [hbuilds.counted, hread]
    decide
  rw [(catalog_agrees_with_build hbuilt hcount).1, hread]

end Session

end Foresight
