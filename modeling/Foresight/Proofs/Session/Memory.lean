import Foresight.Proofs.Analysis.Update
import Foresight.Proofs.Store.Contents
import Foresight.Session

/-!
# A session in memory

What a session amounts to if its files are left out: for each solution a list of observations, and
the suggestions of the latest build. An analysis replaces the list of its solution, an update keeps
part of it and adds to it, a build looks at all lists at once, and nothing else changes anything.
-/

namespace Foresight

/-- What is known of all solutions, and what was published last. -/
structure Memory where
  corpora : Table (List Observation)
  published : List Suggestion

/-- What happens in a session, with the solution as it was seen at the time. -/
inductive Event where
  | analyzed (l : Listing)
  | updated (l : Listing) (changed : List String)
  | built
  | consulted
  /-- Something else is done, anywhere but in the data directory. -/
  | elsewhere

namespace Memory

def empty : Memory := ⟨.empty, []⟩

/-- What is known of a solution. -/
def of (m : Memory) (solution : String) : List Observation :=
  (m.corpora.get? solution).getD []

/-- What some files say, as far as they load. -/
def observed (p : Pipeline) (l : Listing) (fileIds : List String) : List Observation :=
  fileIds.flatMap fun fileId =>
    ((l.load fileId).toOption.map (p.analyzeFile · fileId)).getD []

/-- What an update makes of what is known. -/
def revised (p : Pipeline) (l : Listing) (changed : List String) (known : List Observation) :
    List Observation :=
  known.filter (fun o => o.file ∉ changed) ++
    observed p l (changed.eraseDups.filter (· ∈ l.fileIds))

/-- The memory after an event. -/
def step (engine : Engine) (m : Memory) : Event → Memory
  | .analyzed l =>
    { m with corpora := m.corpora.insert l.solution (observed engine.pipeline l l.fileIds) }
  | .updated l changed =>
    { m with
      corpora := m.corpora.insert l.solution
        (revised engine.pipeline l changed (m.of l.solution)) }
  | .built =>
    { m with
      published := Ranking.aggregate (observationsOf m.corpora)
        engine.settings.suggestions.thresholds }
  | .consulted => m
  | .elsewhere => m

/-- The memory after some events. -/
def after (engine : Engine) (events : List Event) : Memory := events.foldl (step engine) empty

theorem after_concat (engine : Engine) (events : List Event) (e : Event) :
    after engine (events ++ [e]) = step engine (after engine events) e :=
  List.foldl_concat ..

/-- What is published stays until the next build. -/
theorem published_after (engine : Engine) (earlier : List Event) {later : List Event}
    (h : .built ∉ later) : (after engine (earlier ++ .built :: later)).published =
      Ranking.aggregate (observationsOf (after engine earlier).corpora)
        engine.settings.suggestions.thresholds := by
  have hstep : ∀ (later : List Event), .built ∉ later → ∀ m : Memory,
      (later.foldl (step engine) m).published = m.published := by
    intro later
    induction later with
    | nil => exact fun _ _ => rfl
    | cons e rest ih =>
      intro h m
      rw [List.mem_cons, not_or] at h
      rw [List.foldl_cons, ih h.2]
      cases e with
      | built => exact absurd rfl h.1
      | analyzed l => rfl
      | updated l changed => rfl
      | consulted => rfl
      | elsewhere => rfl
  unfold after
  rw [List.foldl_append, List.foldl_cons, hstep later h]
  rfl

/-! ## The observations of a pass -/

theorem mined_eq (p : Pipeline) (l : Listing) (fileIds : List String) :
    Analysis.mined p l fileIds = observed p l fileIds :=
  List.flatMap_congr fun fileId _ => Analysis.mine_eq p l fileId

theorem updated_eq (p : Pipeline) (l : Listing) (changed : List String)
    (known : List Observation) :
    Analysis.updated p l changed known = revised p l changed known := by
  have hkept : Corpus.retainUnchanged changed known = known.filter fun o => o.file ∉ changed :=
    List.filter_congr fun o _ => by simp
  have hmined : Analysis.toMine l changed = changed.eraseDups.filter (· ∈ l.fileIds) := by
    rw [Analysis.toMine, Analysis.distinct_eq_eraseDups]
    exact List.filter_congr fun fileId _ => by simp
  rw [Analysis.updated, hkept, hmined, mined_eq, revised]

end Memory

end Foresight
