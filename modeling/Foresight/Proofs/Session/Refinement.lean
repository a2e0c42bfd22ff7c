import Foresight.Proofs.Analysis.Incremental
import Foresight.Proofs.Session.Building
import Foresight.Proofs.Session.Memory

/-!
# Files and memory

A session that begins with an empty data directory (`Fresh`) keeps in its files what `Memory` keeps
of the same events. `Refines` is the invariant: the data directory holds the corpora of the memory
and no others, what is published is what the memory says, and suggestions that are loaded are those.
Each step keeps it (`Refines.step`), so it holds after any run (`Refines.of_run`).
-/

namespace Foresight

open Records

/-- Nothing has changed in a data directory. -/
structure Undisturbed (root : String) (d d' : Disk) : Prop where
  located : d'.locate root = d.locate root
  same : ∀ location, d.locate root = .ok location → ∀ below : Location,
    d'.get? (location ++ below) = d.get? (location ++ below)

theorem Undisturbed.holds {store : Store} {d d' : Disk} {location : Location}
    {corpora : Table (List Observation)} (h : Undisturbed store.root d d')
    (hholds : store.Holds d location corpora) :
    store.Holds d' location corpora ∧ store.published d' = store.published d := by
  have hsame := h.same location hholds.leads.locate
  have hleads : d'.Leads store.root location := by
    refine ⟨h.located.trans hholds.leads.locate, ?_⟩
    have hplace := hsame []
    rw [List.append_nil] at hplace
    rw [hplace, hholds.leads.directory]
  have hread : ∀ {name : String}, Disk.IsEntryName name → ∀ content,
      d'.read (Path.join store.root name) = .ok content ↔
        d.read (Path.join store.root name) = .ok content := fun hname content => by
    rw [hleads.read_eq_ok_iff hname, hholds.leads.read_eq_ok_iff hname, hsame]
  refine ⟨⟨hleads, fun solution observations hget => ?_, fun name hcorpus hthere => ?_⟩, ?_⟩
  · obtain ⟨hname, hbars, hheld⟩ := hholds.held solution observations hget
    exact ⟨hname, hbars, (hread (Store.isEntryName_xml hname.no_separator) _).mpr hheld⟩
  · rw [hsame] at hthere
    exact hholds.nothing_else name hcorpus hthere
  · exact Store.published_congr
      (hread (Store.suggestionsName_eq ▸ Store.isEntryName_xml (by decide)))

/-- What an event asks for to be told from others in the data directory, and for what it mines to be
written. -/
def Event.IsProper (p : Pipeline) : Event → Prop
  | .analyzed l => Store.IsSolutionName l.solution ∧
      ∀ o ∈ Memory.observed p l l.fileIds, IsBarFree o.fields
  | .updated l changed => Store.IsSolutionName l.solution ∧
      ∀ o ∈ Memory.observed p l (changed.eraseDups.filter (· ∈ l.fileIds)), IsBarFree o.fields
  | _ => True

namespace Session

/-- One operation that ends well, or something done elsewhere. -/
inductive Step (grammar : Grammar) : Session → Event → Session → Prop where
  | analyzed {s s' : Session} {r : Analysis.Summary × List Progress}
      (h : run (analyze grammar) s = (.ok r, s')) : Step grammar s (.analyzed (seen grammar s)) s'
  | updated {s s' : Session} {r : Analysis.Summary × List Progress} {changed : List String}
      (h : run (update grammar changed) s = (.ok r, s')) :
      Step grammar s (.updated (seen grammar s) changed) s'
  | built {s s' : Session} {r : Store.BuildSummary × List Progress}
      (h : run build s = (.ok r, s')) : Step grammar s .built s'
  | consulted {s s' : Session} {answer : List Suggestion}
      (h : run published s = (.ok answer, s')) : Step grammar s .consulted s'
  | consultedFor {s s' : Session} {key : String} {answer : List Suggestion}
      (h : run (publishedFor key) s = (.ok answer, s')) : Step grammar s .consulted s'
  | elsewhere {s s' : Session} (hengine : s'.engine = s.engine) (hcatalog : s'.catalog = s.catalog)
      (hdisk : Undisturbed s.engine.store.root s.disk s'.disk) : Step grammar s .elsewhere s'

/-- A run of a session, and what happens in it. -/
inductive Run (grammar : Grammar) (s : Session) : List Event → Session → Prop where
  | nil : Run grammar s [] s
  | concat {events : List Event} {s' s'' : Session} {e : Event} (h : Run grammar s events s')
      (hstep : Step grammar s' e s'') : Run grammar s (events ++ [e]) s''

/-- The data directory is there, nothing is in it, and no suggestions are loaded. -/
structure Fresh (s : Session) : Prop where
  location : ∃ location, s.disk.Leads s.engine.store.root location ∧
    ∀ name, s.disk.get? (location ++ [name]) = none
  catalog : s.catalog = none

/-- The files of a session say what a memory says. -/
structure Refines (engine : Engine) (m : Memory) (s : Session) : Prop where
  same_engine : s.engine = engine
  held : ∃ location, engine.store.Holds s.disk location m.corpora
  latest : engine.store.published s.disk = m.published
  loaded : s.catalog = none ∨ s.catalog = some m.published

variable {grammar : Grammar} {engine : Engine} {m : Memory} {s s' : Session}

theorem Fresh.refines (h : Fresh s) : Refines s.engine .empty s where
  same_engine := rfl
  held := by
    obtain ⟨location, hleads, hnothing⟩ := h.location
    refine ⟨location, hleads, fun _ _ hget => ?_, fun name _ hthere => ?_⟩
    · cases hget
    · rw [hnothing name] at hthere
      cases hthere
  latest := by
    obtain ⟨location, hleads, hnothing⟩ := h.location
    unfold Store.published
    split
    · rename_i content hread
      have hentry : Disk.IsEntryName Store.suggestionsName :=
        Store.suggestionsName_eq ▸ Store.isEntryName_xml (by decide)
      have hget := ((hleads.read_eq_ok_iff hentry).mp hread).2
      rw [hnothing] at hget
      cases hget
    · rfl
  loaded := .inl h.catalog

/-! ## Passes -/

/-- Where there is a data directory, none is made. -/
theorem eq_of_createDirectories {root : String} {d d' : Disk} {location : Location}
    (hleads : d.Leads root location) (hmade : d.createDirectories root = (.ok (), d')) :
    d' = d := by
  rw [Disk.createDirectories_of_locate hleads.locate hleads.directory] at hmade
  exact (congrArg Prod.snd hmade).symm

theorem Refines.pass {d : Disk} {observations : List Observation} (h : Refines engine m s)
    (hpasses : Passes s s' d observations) (hname : Store.IsSolutionName s.workspace.solutionName)
    (hbars : ∀ o ∈ observations, IsBarFree o.fields) :
    Refines engine { m with corpora := m.corpora.insert s.workspace.solutionName observations }
      s' := by
  obtain ⟨location, hholds⟩ := h.held
  have hleads := hholds.leads
  rw [← h.same_engine] at hleads
  obtain rfl := eq_of_createDirectories hleads hpasses.made
  have hsaves : Saves s.disk s'.disk (Path.join engine.store.root s.workspace.solutionName)
      (Corpus.document observations).toUTF8 := by
    have hsaves := hpasses.saves
    unfold corpusBase at hsaves
    rwa [h.same_engine] at hsaves
  exact
    { same_engine := hpasses.engine.trans h.same_engine
      held := ⟨location, hholds.save hname hbars hsaves⟩
      latest := (Store.published_save hholds.leads hname hsaves).trans h.latest
      loaded := by
        rw [hpasses.catalog]
        exact h.loaded }

theorem Refines.analyzed (h : Refines engine m s) {r : Analysis.Summary × List Progress}
    (hrun : Ends (analyze grammar) s r s')
    (hproper : (Event.analyzed (seen grammar s)).IsProper engine.pipeline) :
    Refines engine (m.step engine (.analyzed (seen grammar s))) s' := by
  obtain ⟨hsolution, d, hpasses⟩ := analyze_ends hrun
  obtain ⟨hname, hbars⟩ := hproper
  rw [h.same_engine, Memory.mined_eq] at hpasses
  rw [hsolution] at hname
  rw [Memory.step, hsolution]
  exact h.pass hpasses hname hbars

theorem Refines.updated (h : Refines engine m s) {r : Analysis.Summary × List Progress}
    {changed : List String} (hrun : Ends (update grammar changed) s r s')
    (hproper : (Event.updated (seen grammar s) changed).IsProper engine.pipeline) :
    Refines engine (m.step engine (.updated (seen grammar s) changed)) s' := by
  obtain ⟨hsolution, d, hpasses⟩ := update_ends hrun
  obtain ⟨hname, hbars⟩ := hproper
  obtain ⟨location, hholds⟩ := h.held
  have hleads := hholds.leads
  rw [← h.same_engine] at hleads
  rw [hsolution] at hname
  have hknown : Store.corpusOrEmpty (s.corpusBase ++ ".xml") d = m.of s.workspace.solutionName := by
    rw [eq_of_createDirectories hleads hpasses.made, ← corpusPath_eq, h.same_engine]
    exact hholds.corpusOrEmpty_eq hname
  rw [h.same_engine, Memory.updated_eq, hknown] at hpasses
  rw [Memory.step, hsolution]
  refine h.pass hpasses hname fun o ho => ?_
  rcases List.mem_append.mp ho with hkept | hmined
  · have hknown := (List.mem_filter.mp hkept).1
    unfold Memory.of at hknown
    cases hget : m.corpora.get? s.workspace.solutionName with
    | none =>
      rw [hget] at hknown
      exact absurd hknown List.not_mem_nil
    | some observations =>
      rw [hget] at hknown
      exact (hholds.held _ _ hget).2.1 o hknown
  · exact hbars o hmined

/-! ## Builds -/

theorem Refines.built (h : Refines engine m s) {r : Store.BuildSummary × List Progress}
    (hrun : Ends build s r s') (hcount : (observationsOf m.corpora).length < UInt64.size) :
    Refines engine (m.step engine .built) s' := by
  obtain ⟨location, hholds⟩ := h.held
  have hleads := hholds.leads
  rw [← h.same_engine] at hleads
  obtain ⟨d, hbuilds⟩ := build_ends hrun
  obtain rfl := eq_of_createDirectories hleads hbuilds.made
  have hsaves := hbuilds.saves
  rw [h.same_engine, hholds.observations_eq] at hsaves
  have hbars : ∀ o ∈ observationsOf m.corpora, IsBarFree o.fields := by
    intro o ho
    obtain ⟨corpus, hcorpus, hmem⟩ := List.mem_flatMap.mp ho
    have hentry := (Ranking.sortBy_perm _ m.corpora.entries).mem_iff.mp hcorpus
    exact (hholds.held corpus.1 corpus.2 (m.corpora.get?_eq_some_iff.mpr hentry)).2.1 o hmem
  exact
    { same_engine := hbuilds.engine.trans h.same_engine
      held := ⟨location, hholds.saveSuggestions hsaves⟩
      latest := Store.published_saveSuggestions
        (fun _ hs => Ranking.writable_aggregate hbars hcount hs) hsaves
      loaded := .inl hbuilds.catalog }

/-! ## Reading, and all else -/

/-- A reader is told what was published last, and nothing else comes of it. -/
theorem Refines.consulted (h : Refines engine m s) :
    ∃ s', run published s = (.ok m.published, s') ∧ Refines engine m s' := by
  have hsuggestions : s.suggestions = m.published := by
    unfold suggestions
    rcases h.loaded with hnone | hsome
    · rw [hnone, h.same_engine, h.latest]
      rfl
    · rw [hsome]
      rfl
  rw [run_published, hsuggestions]
  exact ⟨_, rfl, { h with loaded := .inr rfl }⟩

theorem Refines.consultedFor (h : Refines engine m s) (key : String) :
    ∃ s', run (publishedFor key) s = (.ok (Offers.forKey m.published key), s') ∧
      Refines engine m s' := by
  obtain ⟨s', hrun, hrefines⟩ := h.consulted
  exact ⟨s', run_publishedFor hrun key, hrefines⟩

theorem Refines.elsewhere (h : Refines engine m s) (hengine : s'.engine = s.engine)
    (hcatalog : s'.catalog = s.catalog)
    (hdisk : Undisturbed s.engine.store.root s.disk s'.disk) : Refines engine m s' := by
  obtain ⟨location, hholds⟩ := h.held
  rw [h.same_engine] at hdisk
  obtain ⟨hholds', hpublished⟩ := hdisk.holds hholds
  exact
    { same_engine := hengine.trans h.same_engine
      held := ⟨location, hholds'⟩
      latest := hpublished.trans h.latest
      loaded := by
        rw [hcatalog]
        exact h.loaded }

/-! ## Runs -/

/-- Each step keeps files and memory together. -/
theorem Refines.step (h : Refines engine m s) {e : Event} (hstep : Step grammar s e s')
    (hproper : e.IsProper engine.pipeline)
    (hcount : e = .built → (observationsOf m.corpora).length < UInt64.size) :
    Refines engine (m.step engine e) s' := by
  cases hstep with
  | analyzed hrun => exact h.analyzed hrun hproper
  | updated hrun => exact h.updated hrun hproper
  | built hrun => exact h.built hrun (hcount rfl)
  | consulted hrun =>
    obtain ⟨reached, hreached, hrefines⟩ := h.consulted
    obtain rfl : reached = s' := congrArg Prod.snd (hreached.symm.trans hrun)
    exact hrefines
  | consultedFor hrun =>
    obtain ⟨reached, hreached, hrefines⟩ := h.consultedFor _
    obtain rfl : reached = s' := congrArg Prod.snd (hreached.symm.trans hrun)
    exact hrefines
  | elsewhere hengine hcatalog hdisk => exact h.elsewhere hengine hcatalog hdisk

/-- So they stay together through any run. -/
theorem Refines.of_run {events : List Event} (hrun : Run grammar s events s') (hfresh : Fresh s)
    (hproper : ∀ e ∈ events, e.IsProper s.engine.pipeline)
    (hcount : ∀ earlier later, events = earlier ++ .built :: later →
      (observationsOf (Memory.after s.engine earlier).corpora).length < UInt64.size) :
    Refines s.engine (Memory.after s.engine events) s' := by
  induction hrun with
  | nil => exact hfresh.refines
  | concat h hstep ih =>
    rename_i events reached s' e
    rw [Memory.after_concat]
    have hrefines := ih (fun e he => hproper e (List.mem_append_left _ he))
      fun earlier later heq => hcount earlier (later ++ [e]) (by rw [heq]; simp)
    refine hrefines.step hstep (hproper e (by simp)) ?_
    rintro rfl
    exact hcount events [] rfl

/-- A session that begins with an empty data directory has in its files what the memory of its
events has: each solution's observations in a corpus of its own, no other corpora, and to every
question about suggestions the answer that the latest build has found. What a build counts has to
be a number of 64 bits, as counts are read back as such. -/
theorem files_refine_memory {events : List Event} (hrun : Run grammar s events s')
    (hfresh : Fresh s) (hproper : ∀ e ∈ events, e.IsProper s.engine.pipeline)
    (hcount : ∀ earlier later, events = earlier ++ .built :: later →
      (observationsOf (Memory.after s.engine earlier).corpora).length < UInt64.size) :
    (∀ solution observations,
      (Memory.after s.engine events).corpora.get? solution = some observations →
      Store.readCorpus (s.engine.store.corpusPath solution) s'.disk = .ok observations) ∧
    s.engine.store.corpusNames s'.disk =
      (Ranking.sortBy (fun corpus => corpus.1 ++ ".xml")
        (Memory.after s.engine events).corpora.entries).map (·.1 ++ ".xml") ∧
    (run published s').1 = .ok (Memory.after s.engine events).published ∧
    (∀ key, (run (publishedFor key) s').1 =
      .ok (Offers.forKey (Memory.after s.engine events).published key)) ∧
    ∀ earlier later, events = earlier ++ .built :: later → .built ∉ later →
      (Memory.after s.engine events).published =
        Ranking.aggregate (observationsOf (Memory.after s.engine earlier).corpora)
          s.engine.settings.suggestions.thresholds := by
  have hrefines := Refines.of_run hrun hfresh hproper hcount
  obtain ⟨location, hholds⟩ := hrefines.held
  refine ⟨fun _ _ => hholds.readCorpus, hholds.corpusNames_eq, ?_, fun key => ?_, ?_⟩
  · obtain ⟨_, hanswer, -⟩ := hrefines.consulted
    exact congrArg Prod.fst hanswer
  · obtain ⟨_, hanswer, -⟩ := hrefines.consultedFor key
    exact congrArg Prod.fst hanswer
  · rintro earlier later rfl hlatest
    exact Memory.published_after s.engine earlier hlatest

/-! The solution is analysed, what is found is published, and the solution changes and is brought up
to date; who asks is told what was published. -/

def bagsEvents : List Event :=
  [.analyzed bagsBefore.listing, .built, .elsewhere, .updated bagsAfter.listing bagsChanged,
    .consulted]

def bagsPublished : Session := (run build (run (analyze bagsGrammar) bagsFirst).2).2

def bagsSince : Session := { bagsPublished with workspace := .models bagsAfter }

def bagsRevised : Session := (run (update bagsGrammar bagsChanged) bagsSince).2

def bagsConsulted : Session := (run published bagsRevised).2

theorem files_refine_memory_bags :
    Run bagsGrammar bagsFirst bagsEvents bagsConsulted ∧
    (run published bagsConsulted).1 =
      .ok (Memory.after bagsFirst.engine bagsEvents).published := by
  obtain ⟨_, hanalyzed⟩ := run_eq_of_isOk
    (by decide +kernel : (run (analyze bagsGrammar) bagsFirst).1.isOk = true)
  obtain ⟨_, hbuilt⟩ := run_eq_of_isOk
    (by decide +kernel : (run build (run (analyze bagsGrammar) bagsFirst).2).1.isOk = true)
  obtain ⟨_, hupdated⟩ := run_eq_of_isOk
    (by decide +kernel : (run (update bagsGrammar bagsChanged) bagsSince).1.isOk = true)
  obtain ⟨_, hread⟩ := run_eq_of_isOk
    (by decide +kernel : (run published bagsRevised).1.isOk = true)
  have hfirst : seen bagsGrammar bagsFirst = bagsBefore.listing :=
    seen_models _ rfl (by decide +kernel)
  have hsince : seen bagsGrammar bagsSince = bagsAfter.listing :=
    seen_models _ rfl (by decide +kernel)
  have hrun : Run bagsGrammar bagsFirst bagsEvents bagsConsulted := by
    unfold bagsEvents
    rw [← hfirst, ← hsince]
    rw [← bagsPublished] at hbuilt
    rw [← bagsRevised] at hupdated
    rw [← bagsConsulted] at hread
    have hchanged : Step bagsGrammar bagsPublished .elsewhere bagsSince := by
      refine .elsewhere (by dsimp only [bagsSince]) (by dsimp only [bagsSince]) ?_
      dsimp only [bagsSince]
      exact ⟨rfl, fun _ _ _ => rfl⟩
    have hbegun := (Run.nil.concat (.analyzed hanalyzed)).concat (.built hbuilt)
    exact ((hbegun.concat hchanged).concat (.updated hupdated)).concat (.consulted hread)
  have hfresh : Fresh bagsFirst :=
    { location := ⟨["data"], ⟨by rfl, by rfl⟩, fun name => by simp [bagsFirst, Disk.get?]⟩
      catalog := rfl }
  have hproper : ∀ e ∈ bagsEvents, e.IsProper bagsFirst.engine.pipeline := by
    have hbefore : (Event.analyzed bagsBefore.listing).IsProper bagsFirst.engine.pipeline :=
      ⟨by decide +kernel, by decide +kernel⟩
    have hafter :
        (Event.updated bagsAfter.listing bagsChanged).IsProper bagsFirst.engine.pipeline :=
      ⟨by decide +kernel, by decide +kernel⟩
    unfold bagsEvents
    simp only [List.forall_mem_cons]
    exact ⟨hbefore, trivial, trivial, hafter, trivial, fun _ he => absurd he List.not_mem_nil⟩
  have hcount : ∀ earlier later, bagsEvents = earlier ++ .built :: later →
      (observationsOf (Memory.after bagsFirst.engine earlier).corpora).length < UInt64.size := by
    intro earlier later heq
    obtain ⟨rfl, -⟩ : earlier = [.analyzed bagsBefore.listing] ∧
        later = [.elsewhere, .updated bagsAfter.listing bagsChanged, .consulted] := by
      simpa [bagsEvents, List.cons_eq_append_iff] using heq
    decide +kernel
  obtain ⟨-, -, hanswer, -⟩ := files_refine_memory hrun hfresh hproper hcount
  exact ⟨hrun, hanswer⟩

end Session

end Foresight
