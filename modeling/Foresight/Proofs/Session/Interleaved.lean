import Foresight.Proofs.Session.Refinement

/-!
# Calls and builds at the same time

Calls for the suggestions and builds that share a session take turns step by step. A call looks
whether suggestions are loaded, and if none are it looks again and loads those of the moment, in one
step. A build puts its document in the place of the suggestions in one step and makes the catalog
forget in another; what it writes before that it writes elsewhere. So a build that fails before it
publishes is steps elsewhere alone. One that fails as it publishes is no step of these histories: if
the document that it wrote is gone by then, the published one may have been deleted with nothing put
in its place (`Store.publish_refused`).

Everything is said of the history alone: which suggestions have been published since a build
(`Since`). The invariant is that the disk has suggestions published since every build that has
published, and the catalog, when it is loaded, since every build that has made it forget
(`Current`). Each step keeps it (`Current.step`), so it holds in every interleaving
(`Current.of_interleaved`), and a call is answered from one of the two.
-/

namespace Foresight

/-- A step of a call or of a build. -/
inductive Moment where
  | begins (call : Nat)
  /-- The call has looked, and no suggestions are loaded. -/
  | misses (call : Nat)
  | answers (call : Nat) (suggestions : List Suggestion)
  /-- The build's document is in the place of the suggestions, and reads as these. -/
  | publishes (build : Nat) (suggestions : List Suggestion)
  /-- The build has made the catalog forget. -/
  | invalidates (build : Nat)
  /-- Something else is done that leaves the published suggestions as they are. -/
  | elsewhere

namespace Moment

/-- A call has begun and has no answer yet. -/
structure Pending (past : List Moment) (call : Nat) : Prop where
  begun : .begins call ∈ past
  unanswered : ∀ suggestions, .answers call suggestions ∉ past

theorem Pending.misses {past : List Moment} {call : Nat} (h : Pending past call) :
    Pending (past ++ [.misses call]) call := by
  refine ⟨List.mem_append_left _ h.begun, fun suggestions hmem => ?_⟩
  rw [List.mem_append, List.mem_singleton] at hmem
  exact h.unanswered suggestions (hmem.resolve_right nofun)

/-- Suggestions that a build has published, or another one after it. -/
def Since (past : List Moment) (build : Nat) (suggestions : List Suggestion) : Prop :=
  ∃ earlier own later latest, past = earlier ++ .publishes build own :: later ∧
    .publishes latest suggestions ∈ .publishes build own :: later

theorem Since.append {past : List Moment} {build : Nat} {suggestions : List Suggestion}
    (h : Since past build suggestions) (more : List Moment) :
    Since (past ++ more) build suggestions := by
  obtain ⟨earlier, own, later, latest, rfl, hlatest⟩ := h
  refine ⟨earlier, own, later ++ more, latest, by simp, ?_⟩
  rw [← List.cons_append]
  exact List.mem_append_left more hlatest

/-- What is published now is published since every build that has published. -/
theorem since_publishes {past : List Moment} {build : Nat} {own : List Suggestion}
    (h : .publishes build own ∈ past) (latest : Nat) (suggestions : List Suggestion) :
    Since (past ++ [.publishes latest suggestions]) build suggestions := by
  obtain ⟨earlier, later, rfl⟩ := List.append_of_mem h
  exact ⟨earlier, own, later ++ [.publishes latest suggestions], latest, by simp, by simp⟩

end Moment

namespace Session

open Moment

/-- What can happen next, of each call and each build once. -/
inductive Moves (past : List Moment) : Session → Moment → Session → Prop where
  | begins {s : Session} {call : Nat} (hnew : .begins call ∉ past) :
      Moves past s (.begins call) s
  | misses {s : Session} {call : Nat} (hpending : Pending past call)
      (hfirst : .misses call ∉ past) (hcatalog : s.catalog = none) :
      Moves past s (.misses call) s
  | finds {s : Session} {call : Nat} {suggestions : List Suggestion}
      (hpending : Pending past call) (hfirst : .misses call ∉ past)
      (hcatalog : s.catalog = some suggestions) : Moves past s (.answers call suggestions) s
  | fetches {s s' : Session} {call : Nat} {suggestions : List Suggestion}
      (hpending : Pending past call) (hmissed : .misses call ∈ past)
      (hrun : run published s = (.ok suggestions, s')) :
      Moves past s (.answers call suggestions) s'
  | publishes {s : Session} {build : Nat} {d : Disk}
      (hnew : ∀ suggestions, .publishes build suggestions ∉ past)
      (hends : Ends (Store.publish s.engine.store.suggestionsTempPath
        s.engine.store.suggestionsPath) s.disk () d) :
      Moves past s (.publishes build (s.engine.store.published d)) { s with disk := d }
  | invalidates {s s' : Session} {build : Nat} {suggestions : List Suggestion}
      (hpublished : .publishes build suggestions ∈ past) (hnew : .invalidates build ∉ past)
      (hrun : run invalidate s = (.ok (), s')) : Moves past s (.invalidates build) s'
  | elsewhere {s s' : Session} (hengine : s'.engine = s.engine) (hcatalog : s'.catalog = s.catalog)
      (hdisk : s.engine.store.published s'.disk = s.engine.store.published s.disk) :
      Moves past s .elsewhere s'

/-- A history that begins with a session, and what the session has become. -/
inductive Interleaved (first : Session) : List Moment → Session → Prop where
  | nil : Interleaved first [] first
  | concat {past : List Moment} {s s' : Session} {m : Moment} (h : Interleaved first past s)
      (hmove : Moves past s m s') : Interleaved first (past ++ [m]) s'

section

variable {first s s' : Session} {past : List Moment} {m : Moment} {call build : Nat}
  {suggestions : List Suggestion}

/-- Neither the disk nor a loaded catalog is behind any build. -/
structure Current (past : List Moment) (s : Session) : Prop where
  published : ∀ build, .invalidates build ∈ past → ∃ own, .publishes build own ∈ past
  disk : ∀ build own, .publishes build own ∈ past →
    Since past build (s.engine.store.published s.disk)
  catalog : ∀ build suggestions, .invalidates build ∈ past → s.catalog = some suggestions →
    Since past build suggestions

theorem Current.nil (s : Session) : Current [] s where
  published _ h := absurd h List.not_mem_nil
  disk _ _ h := absurd h List.not_mem_nil
  catalog _ _ h := absurd h List.not_mem_nil

/-- What is loaded, or would be, is behind no build that has made the catalog forget. -/
theorem Current.since (h : Current past s) (hdone : .invalidates build ∈ past) :
    Since past build s.suggestions := by
  unfold Session.suggestions
  cases hcatalog : s.catalog with
  | some loaded => exact h.catalog build loaded hdone hcatalog
  | none =>
    obtain ⟨own, hown⟩ := h.published build hdone
    exact h.disk build own hown

/-- A step that is neither of a build leaves the history of builds as it was. -/
theorem Current.keep (h : Current past s) (hinvalidates : ∀ build, m ≠ .invalidates build)
    (hpublishes : ∀ build own, m ≠ .publishes build own) (hengine : s'.engine = s.engine)
    (hdisk : s.engine.store.published s'.disk = s.engine.store.published s.disk)
    (hcatalog : s'.catalog = s.catalog ∨ s'.catalog = some s.suggestions) :
    Current (past ++ [m]) s' := by
  have hold : ∀ build, .invalidates build ∈ past ++ [m] → .invalidates build ∈ past :=
    fun build hmem => (List.mem_append.mp hmem).resolve_right fun hm =>
      hinvalidates build (List.mem_singleton.mp hm).symm
  have hold' : ∀ build own, .publishes build own ∈ past ++ [m] → .publishes build own ∈ past :=
    fun build own hmem => (List.mem_append.mp hmem).resolve_right fun hm =>
      hpublishes build own (List.mem_singleton.mp hm).symm
  refine ⟨fun build hdone => ?_, fun build own hown => ?_, fun build loaded hdone hloaded => ?_⟩
  · obtain ⟨own, hown⟩ := h.published build (hold build hdone)
    exact ⟨own, List.mem_append_left [m] hown⟩
  · rw [hengine, hdisk]
    exact (h.disk build own (hold' build own hown)).append [m]
  · rcases hcatalog with hsame | hsome
    · rw [hsame] at hloaded
      exact (h.catalog build loaded (hold build hdone) hloaded).append [m]
    · obtain rfl := Option.some.inj (hsome.symm.trans hloaded)
      exact (h.since (hold build hdone)).append [m]

/-- Each step leaves disk and catalog current. -/
theorem Current.step (h : Current past s) (hmove : Moves past s m s') :
    Current (past ++ [m]) s' := by
  cases hmove with
  | begins hnew => exact h.keep nofun nofun rfl rfl (.inl rfl)
  | misses hpending hfirst hcatalog => exact h.keep nofun nofun rfl rfl (.inl rfl)
  | finds hpending hfirst hcatalog => exact h.keep nofun nofun rfl rfl (.inl rfl)
  | fetches hpending hmissed hrun =>
    rw [run_published] at hrun
    obtain rfl := congrArg Prod.snd hrun
    exact h.keep nofun nofun rfl rfl (.inr rfl)
  | elsewhere hengine hcatalog hdisk => exact h.keep nofun nofun hengine hdisk (.inl hcatalog)
  | publishes hnew hends =>
    rename_i build d
    refine ⟨fun other hdone => ?_, fun other own hown => ?_, fun other loaded hdone hloaded => ?_⟩
    · rw [List.mem_append, List.mem_singleton] at hdone
      obtain ⟨own, hown⟩ := h.published other (hdone.resolve_right nofun)
      exact ⟨own, List.mem_append_left _ hown⟩
    · rcases List.mem_append.mp hown with hold | hnow
      · exact since_publishes hold _ _
      · obtain ⟨rfl, rfl⟩ := Moment.publishes.inj (List.mem_singleton.mp hnow)
        exact ⟨past, _, [], other, rfl, List.mem_singleton_self _⟩
    · rw [List.mem_append, List.mem_singleton] at hdone
      exact (h.catalog other loaded (hdone.resolve_right nofun) hloaded).append _
  | invalidates hpublished hnew hrun =>
    obtain rfl := congrArg Prod.snd hrun
    refine ⟨fun other hdone => ?_, fun other own hown => ?_, fun other loaded _ hloaded => ?_⟩
    · rcases List.mem_append.mp hdone with hold | hnow
      · obtain ⟨own, hown⟩ := h.published other hold
        exact ⟨own, List.mem_append_left _ hown⟩
      · obtain rfl := Moment.invalidates.inj (List.mem_singleton.mp hnow)
        exact ⟨_, List.mem_append_left _ hpublished⟩
    · rw [List.mem_append, List.mem_singleton] at hown
      exact (h.disk other own (hown.resolve_right nofun)).append _
    · cases hloaded

theorem Current.of_interleaved (h : Interleaved first past s) : Current past s := by
  induction h with
  | nil => exact .nil first
  | concat _ hmove ih => exact ih.step hmove

/-! ## Answers -/

/-- The answer of a step is what is loaded, or is loaded then. -/
theorem Moves.answer (h : Moves past s (.answers call suggestions) s') :
    suggestions = s.suggestions := by
  cases h with
  | finds hpending hfirst hcatalog =>
    rw [Session.suggestions, hcatalog]
    rfl
  | fetches hpending hmissed hrun =>
    rw [run_published] at hrun
    exact (Except.ok.inj (congrArg Prod.fst hrun)).symm

/-- A call that has missed is answered in its next step, whenever that is. -/
theorem Interleaved.fetches (h : Interleaved first past s) (hpending : Pending past call)
    (hmissed : .misses call ∈ past) :
    Interleaved first (past ++ [.answers call s.suggestions])
      { s with catalog := some s.suggestions } :=
  h.concat (.fetches hpending hmissed (run_published s))

/-- Whatever has happened, a call that has begun is answered in one or two steps of its own. -/
theorem Interleaved.answers (h : Interleaved first past s) (hpending : Pending past call) :
    ∃ suggestions s', Interleaved first (past ++ [.answers call suggestions]) s' ∨
      Interleaved first (past ++ [.misses call] ++ [.answers call suggestions]) s' := by
  by_cases hmissed : .misses call ∈ past
  · exact ⟨_, _, .inl (h.fetches hpending hmissed)⟩
  · cases hcatalog : s.catalog with
    | some loaded => exact ⟨loaded, s, .inl (h.concat (.finds hpending hmissed hcatalog))⟩
    | none =>
      have hmiss := h.concat (.misses hpending hmissed hcatalog)
      exact ⟨_, _, .inr (hmiss.fetches hpending.misses (by simp))⟩

/-- Only calls that have begun miss or are answered. -/
theorem Interleaved.begun (h : Interleaved first past s)
    (hmem : .misses call ∈ past ∨ ∃ suggestions, .answers call suggestions ∈ past) :
    .begins call ∈ past := by
  induction h with
  | nil => simp at hmem
  | concat _ hmove ih =>
    rename_i past _ _ m _
    by_cases hold : .misses call ∈ past ∨ ∃ suggestions, .answers call suggestions ∈ past
    · exact List.mem_append_left _ (ih hold)
    · have hlast : m = .misses call ∨ ∃ suggestions, m = .answers call suggestions := by
        simp only [List.mem_append, List.mem_singleton] at hmem
        rw [not_or, not_exists] at hold
        rcases hmem with (hmem | rfl) | ⟨suggestions, hmem | rfl⟩
        · exact absurd hmem hold.1
        · exact .inl rfl
        · exact absurd hmem (hold.2 suggestions)
        · exact .inr ⟨suggestions, rfl⟩
      rcases hlast with rfl | ⟨suggestions, rfl⟩
      · cases hmove with
        | misses hpending => exact List.mem_append_left _ hpending.begun
      · cases hmove with
        | finds hpending => exact List.mem_append_left _ hpending.begun
        | fetches hpending => exact List.mem_append_left _ hpending.begun

/-- A call that nothing comes between is the question of a session. -/
theorem Interleaved.published (h : Interleaved first past s) (hnew : .begins call ∉ past)
    (hrun : run published s = (.ok suggestions, s')) : ∃ within, within ⊆ [.misses call] ∧
      Interleaved first (past ++ .begins call :: within ++ [.answers call suggestions]) s' := by
  have hbegun := h.concat (.begins hnew)
  have hpending : Pending (past ++ [.begins call]) call := by
    refine ⟨by simp, fun other hmem => hnew (h.begun (.inr ⟨other, ?_⟩))⟩
    rw [List.mem_append, List.mem_singleton] at hmem
    exact hmem.resolve_right nofun
  have hfirst : .misses call ∉ past ++ [.begins call] := by
    intro hmem
    rw [List.mem_append, List.mem_singleton] at hmem
    exact hnew (h.begun (.inl (hmem.resolve_right nofun)))
  cases hcatalog : s.catalog with
  | none =>
    have hmissed := (hbegun.concat (.misses hpending hfirst hcatalog)).concat
      (.fetches hpending.misses (by simp) hrun)
    exact ⟨[.misses call], List.Subset.refl _, by simpa using hmissed⟩
  | some loaded =>
    rw [run_published, Session.suggestions, hcatalog, Option.getD_some, ← hcatalog] at hrun
    obtain ⟨hanswer, rfl⟩ := Prod.mk.inj hrun
    obtain rfl := Except.ok.inj hanswer
    have hfound := hbegun.concat (.finds hpending hfirst hcatalog)
    exact ⟨[], List.nil_subset _, by simpa using hfound⟩

/-- What a build writes before it publishes leaves the published suggestions alone. -/
theorem published_write {store : Store} {d d' : Disk} {document : String}
    (h : Ends (Store.write store.suggestionsTempPath document) d () d') :
    store.published d' = store.published d := by
  obtain ⟨temp, htemp, hsets⟩ := Store.write_ends h
  rw [Store.suggestionsTempPath_eq] at htemp
  refine Store.published_congr fun content => ?_
  rw [Store.suggestionsPath_eq, htemp.read_beside hsets]

/-- A build that nothing comes between publishes and makes the catalog forget. -/
theorem Interleaved.built {location : Location} {r : Store.BuildSummary × List Progress}
    (h : Interleaved first past s) (hnew : ∀ suggestions, .publishes build suggestions ∉ past)
    (hleads : s.disk.Leads s.engine.store.root location) (hends : Ends Session.build s r s') :
    Interleaved first (past ++ [.elsewhere, .publishes build (s.engine.store.published s'.disk),
      .invalidates build]) s' := by
  obtain ⟨d₁, d₂, d', hmade, hwrite, hpublish, rfl, -⟩ := build_steps hends
  obtain rfl := eq_of_createDirectories hleads hmade
  have hwritten : Interleaved first (past ++ [.elsewhere]) { s with disk := d₂ } :=
    h.concat (.elsewhere rfl rfl (published_write hwrite))
  have hnone : ∀ suggestions, .publishes build suggestions ∉ past ++ [.elsewhere] := by
    intro suggestions hmem
    rw [List.mem_append, List.mem_singleton] at hmem
    exact hnew suggestions (hmem.resolve_right nofun)
  have hpublished := hwritten.concat (.publishes hnone hpublish)
  have hfresh : .invalidates build ∉ past ++ [.elsewhere] ++
      [.publishes build (s.engine.store.published d')] := by
    intro hmem
    simp only [List.mem_append, List.mem_singleton, reduceCtorEq, or_false] at hmem
    obtain ⟨own, hown⟩ := (Current.of_interleaved h).published build hmem
    exact hnew own hown
  have hdone := hpublished.concat
    (.invalidates (List.mem_append_right _ (List.mem_singleton_self _)) hfresh rfl)
  simpa using hdone

end

/-! One call misses before a build and is answered after it; another one begins in between. -/

end Session

end Foresight
