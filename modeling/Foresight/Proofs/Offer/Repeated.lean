import Foresight.Proofs.Distinct
import Foresight.Proofs.Mining.Frame
import Foresight.Proofs.Session.Building

/-!
# Offers made one after the other

Looking for the place of an offer may put blocks into a file, and the file with these blocks is the
one that is asked the next time. What is offered does not depend on it: every statement has the same
scopes as before, and every scope has the same insertion point (`Alike`), also one whose body has
become a block meanwhile. So each statement is offered what the untouched file has for it: all
suggestions for its scopes, and each template once (`Offers.listed`).
-/

namespace Foresight

open SourceFile

section Scopes

variable {file : SourceFile} {scope : Scope} (p : Pipeline)

theorem Scope.insertPosition_ensureBody (hf : Forest file) (other : StatementId)
    (hanchor : scope.anchor < file.statementCount) :
    (scope.insertPosition (file.ensureBody other).1).2 = (scope.insertPosition file).2 := by
  unfold insertPosition
  split
  · exact ensureBody_ensureBody hf other scope.anchor
  · rcases ensureBody_cases file other with heq | ⟨old, edit, wrapped, h, heq⟩
    · rw [heq]
    · obtain ⟨s, hs⟩ := file.exists_get? hanchor
      rw [heq, get?_installBlock_of_get? h edit hs, hs]
      rfl

theorem scopesFor_of_none {id : StatementId} (h : file.get? id = none) :
    p.scopesFor file id = [] := by
  unfold Pipeline.scopesFor
  rw [h]

/-- Every scope that a statement opens has an insertion point. -/
theorem insertPosition_isSome (hf : Forest file) {id : StatementId}
    (h : scope ∈ p.scopesFor file id) : (scope.insertPosition file).2.isSome = true := by
  have hanchor := anchor_of_mem_scopesFor p h
  unfold Pipeline.scopesFor at h
  split at h
  · cases h
  · rename_i s hs
    obtain ⟨c, -, hc⟩ := List.mem_filterMap.mp h
    rw [← hanchor] at hs
    unfold Scope.insertPosition
    split
    · rename_i hinside
      obtain ⟨slot, hslot⟩ := Classifier.slot_of_handle? hc hinside
      rw [ensureBody_snd hs hslot, Option.isSome_map]
      exact hf.isSome_bodyNeed? hs hslot s.span.stop
    · rw [hs]
      rfl

/-- No statement has other scopes than before, and a new block has none. -/
theorem scopesFor_ensureBody (other id : StatementId) :
    p.scopesFor (file.ensureBody other).1 id = p.scopesFor file id := by
  rcases ensureBody_cases file other with heq | ⟨old, edit, wrapped, h, heq⟩
  · rw [heq]
  · rw [heq]
    by_cases hid : id < file.statementCount
    · exact scopesFor_installBlock p h edit hid
    · rw [scopesFor_of_none p (Array.getElem?_eq_none (Nat.le_of_not_lt hid))]
      cases hget : (file.installBlock other old edit wrapped).get? id with
      | none => exact scopesFor_of_none p hget
      | some s =>
        rcases installBlock_cases h hget with ⟨-, rfl⟩ | ⟨t, ht, -⟩
        · exact scopesFor_silent p hget (Or.inr ⟨_, rfl⟩)
        · exact absurd (file.lt_of_get? ht) hid

/-- A file that gives the same answers as another one, as far as that has statements. -/
structure Alike (file file' : SourceFile) : Prop where
  forest : Forest file'
  count_le : file.statementCount ≤ file'.statementCount
  scopes : ∀ id, p.scopesFor file' id = p.scopesFor file id
  positions : ∀ scope : Scope, scope.anchor < file.statementCount →
    (scope.insertPosition file').2 = (scope.insertPosition file).2

namespace Alike

variable {p} {file' : SourceFile}

theorem refl (hf : Forest file) : Alike p file file :=
  ⟨hf, Nat.le_refl _, fun _ => rfl, fun _ _ => rfl⟩

theorem ensureBody (h : Alike p file file') (other : StatementId) :
    Alike p file (file'.ensureBody other).1 where
  forest := h.forest.ensureBody other
  count_le := by
    rcases ensureBody_cases file' other with heq | ⟨old, edit, wrapped, -, heq⟩
    · rw [heq]
      exact h.count_le
    · rw [heq, statementCount_installBlock]
      exact Nat.le_succ_of_le h.count_le
  scopes id := (scopesFor_ensureBody p other id).trans (h.scopes id)
  positions scope hanchor :=
    (scope.insertPosition_ensureBody h.forest other
      (Nat.lt_of_lt_of_le hanchor h.count_le)).trans (h.positions scope hanchor)

theorem ensureBodies (h : Alike p file file') (owners : List StatementId) :
    Alike p file (file'.ensureBodies owners) :=
  ensureBodies_kept h (fun h owner => h.ensureBody owner) owners

theorem insertPosition (h : Alike p file file') (scope : Scope) :
    Alike p file (scope.insertPosition file').1 := by
  unfold Scope.insertPosition
  split
  · exact h.ensureBody scope.anchor
  · exact h

end Alike

/-! ## What is offered -/

namespace Offers

/-- The suggestions for a scope at its place, if it has one. -/
def under (published : List Suggestion) (file : SourceFile) (scope : Scope) : List Offer :=
  (scope.insertPosition file).2.toList.flatMap fun insertion =>
    (forKey published scope.key).map fun suggestion =>
      ⟨scope.key, suggestion, scope.parameters, insertion⟩

/-- For each scope of a statement everything that is published for it, each template once. -/
def listed (p : Pipeline) (published : List Suggestion) (file : SourceFile) (id : StatementId) :
    List Offer :=
  ((p.scopesFor file id).flatMap (under published file)).eraseDupsBy
    (·.suggestion.template == ·.suggestion.template)

variable {p} {file' : SourceFile} {published : List Suggestion} {id : StatementId}

theorem exists_foldl_addPlace (h : Alike p file file') {scopes : List Scope}
    (hanchor : ∀ scope ∈ scopes, scope.anchor < file.statementCount)
    (found : List (Scope × InsertionPoint)) :
    ∃ file'', Alike p file file'' ∧ scopes.foldl addPlace (file', found) =
      (file'', found ++ scopes.filterMap fun scope =>
        (scope.insertPosition file).2.map (scope, ·)) := by
  induction scopes generalizing file' found with
  | nil => exact ⟨file', h, by rw [List.filterMap_nil, List.append_nil]; rfl⟩
  | cons scope rest ih =>
    obtain ⟨hscope, hrest⟩ := List.forall_mem_cons.mp hanchor
    have hposition := h.positions scope hscope
    have hnext := h.insertPosition scope
    rw [List.foldl_cons, List.filterMap_cons, ← hposition, addPlace]
    dsimp only
    generalize scope.insertPosition file' = answer at hnext ⊢
    obtain ⟨reached, position⟩ := answer
    cases position with
    | none => exact ih hnext hrest found
    | some insertion =>
      obtain ⟨last, hlast, hfold⟩ := ih hnext hrest (found ++ [(scope, insertion)])
      refine ⟨last, hlast, hfold.trans ?_⟩
      rw [List.append_assoc]
      rfl

/-- Only statements that are there have scopes. -/
theorem anchor_lt_of_mem_scopesFor {scope : Scope} (h : scope ∈ p.scopesFor file id) :
    scope.anchor < file.statementCount := by
  rw [anchor_of_mem_scopesFor p h]
  by_contra hid
  rw [scopesFor_of_none p (Array.getElem?_eq_none (Nat.le_of_not_lt hid))] at h
  cases h

theorem mem_of_mem_distinctScopes {scope : Scope} {scopes : List Scope}
    (h : scope ∈ distinctScopes scopes) : scope ∈ scopes := by
  have hkept : scope ∈ scopes.foldl (keepNew Scope.key) [] := h
  exact (mem_of_mem_foldl_keepNew hkept).resolve_left List.not_mem_nil

theorem collect_eq (published : List Suggestion) (places : List (Scope × InsertionPoint)) :
    collect published places = (places.flatMap fun place =>
      (forKey published place.1.key).map fun suggestion =>
        (⟨place.1.key, suggestion, place.1.parameters, place.2⟩ : Offer)).foldl
          (keepNew (·.suggestion.template)) [] := by
  rw [List.foldl_flatMap]
  unfold collect
  congr 1
  funext offers place
  rw [List.foldl_map]
  rfl

theorem flatMap_places (published : List Suggestion) (file : SourceFile) (scopes : List Scope) :
    ((scopes.filterMap fun scope => (scope.insertPosition file).2.map (scope, ·)).flatMap
      fun place => (forKey published place.1.key).map fun suggestion =>
        (⟨place.1.key, suggestion, place.1.parameters, place.2⟩ : Offer)) =
      scopes.flatMap (under published file) := by
  induction scopes with
  | nil => rfl
  | cons scope rest ih =>
    rw [List.filterMap_cons, List.flatMap_cons, ← ih, under]
    cases (scope.insertPosition file).2 with
    | none => rfl
    | some insertion =>
      rw [Option.toList_some, List.flatMap_singleton]
      rfl

/-- Scopes of one key are offered the same templates. -/
theorem map_template_under (hf : Forest file) {scope : Scope} (h : scope ∈ p.scopesFor file id) :
    (under published file scope).map (·.suggestion.template) =
      (forKey published scope.key).map (·.template) := by
  obtain ⟨insertion, hplace⟩ := Option.isSome_iff_exists.mp (insertPosition_isSome p hf h)
  rw [under, hplace, Option.toList_some, List.flatMap_singleton, List.map_map]
  rfl

/-- What is collected at the places of a statement. -/
theorem collect_places (hf : Forest file) (published : List Suggestion) (id : StatementId) :
    collect published ((distinctScopes (p.scopesFor file id)).filterMap fun scope =>
      (scope.insertPosition file).2.map (scope, ·)) = listed p published file id := by
  have hkey : ∀ a ∈ p.scopesFor file id, ∀ b ∈ p.scopesFor file id, a.key = b.key →
      (under published file a).map (·.suggestion.template) =
        (under published file b).map (·.suggestion.template) := by
    intro a ha b hb hsame
    rw [map_template_under hf ha, map_template_under hf hb, hsame]
  rw [collect_eq, flatMap_places, listed, ← foldl_keepNew, ← foldl_keepNew_flatMap hkey]
  rfl

/-- The places that are found are those of the untouched file, and what is collected at them is what
that file lists. -/
theorem exists_places (h : Alike p file file') (hf : Forest file) (id : StatementId) :
    ∃ file'' found, Alike p file file'' ∧ places p file' id = (file'', found) ∧
      ∀ published, collect published found = listed p published file id := by
  obtain ⟨file'', halike, hplaces⟩ := exists_foldl_addPlace h
    (fun scope hscope => anchor_lt_of_mem_scopesFor (mem_of_mem_distinctScopes hscope)) []
  refine ⟨file'', _, halike, ?_, fun published => collect_places hf published id⟩
  rw [places, h.scopes]
  exact hplaces

end Offers

end Scopes

/-! ## One question after the other -/

namespace Session

open Offers

/-- What is offered at some statements, asked one after the other about one file. -/
def offersInTurn (file : SourceFile) : List StatementId → InSession (List (List Offer))
  | [] => return []
  | id :: rest => do
    let (file, here) ← offers file (.statement id)
    return here :: (← offersInTurn file rest)

variable {s : Session} {file file' : SourceFile}

/-- A question is answered as about the untouched file, and leaves one that is alike. -/
theorem offers_ends (h : Alike s.engine.pipeline file file') (hf : Forest file)
    (id : StatementId) :
    ∃ file'' s', Ends (offers file' (.statement id)) s
        (file'', listed s.engine.pipeline s.suggestions file id) s' ∧
      Alike s.engine.pipeline file file'' ∧ s'.engine = s.engine ∧
      s'.suggestions = s.suggestions := by
  obtain ⟨file'', found, halike, hplaces, hcollect⟩ := exists_places h hf id
  have hask : ∀ {answer s'}, Ends (do
        if found.isEmpty then return (file'', [])
        else return (file'', collect (← published) found)) s answer s' →
      Ends (offers file' (.statement id)) s answer s' := by
    intro answer s' h
    refine Ends.bind_iff.mpr ⟨some id, s, Ends.pure_iff.mpr ⟨rfl, rfl⟩,
      Ends.bind_iff.mpr ⟨s, s, Ends.get_iff.mpr ⟨rfl, rfl⟩, ?_⟩⟩
    rw [hplaces]
    exact h
  cases found with
  | nil =>
    refine ⟨file'', s, hask (Ends.pure_iff.mpr ⟨?_, rfl⟩), halike, rfl, rfl⟩
    rw [← hcollect]
    rfl
  | cons place rest =>
    refine ⟨file'', _, hask (Ends.bind_iff.mpr ⟨_, _, run_published s,
      Ends.pure_iff.mpr ⟨?_, rfl⟩⟩), halike, rfl, rfl⟩
    rw [hcollect]

theorem offersInTurn_ends (h : Alike s.engine.pipeline file file') (hf : Forest file)
    (ids : List StatementId) :
    ∃ s', Ends (offersInTurn file' ids) s
      (ids.map (listed s.engine.pipeline s.suggestions file)) s' := by
  induction ids generalizing s file' with
  | nil => exact ⟨s, Ends.pure_iff.mpr ⟨rfl, rfl⟩⟩
  | cons id rest ih =>
    obtain ⟨file'', reached, hfirst, halike, hengine, hsuggestions⟩ := offers_ends h hf id
    rw [← hengine] at halike
    obtain ⟨s', hrest⟩ := ih halike
    rw [hengine, hsuggestions] at hrest
    exact ⟨s', Ends.bind_iff.mpr ⟨_, _, hfirst, Ends.bind_iff.mpr ⟨_, _, hrest,
      Ends.pure_iff.mpr ⟨rfl, rfl⟩⟩⟩⟩

/-- Whatever has been offered at other statements of a file before, or at the same one, a statement
is offered what it is offered when the file is as it was made: for each of its scopes, all of which
have an insertion point, the suggestions that are published for it, and each template once. This
holds of files that were laid out from an outline and of those that were lowered from a syntax
tree, and for ids that name statements or nothing. -/
theorem offers_ignore_earlier_offers (s : Session) {file : SourceFile}
    (hmade : (∃ o : Outline, o.finish = file) ∨
      ∃ path source index root, CSharp.lowerFile path source index root = file)
    (ids : List StatementId) :
    (run (offersInTurn file ids) s).1 =
      .ok (ids.map (listed s.engine.pipeline s.suggestions file)) ∧
    ∀ id, (run (offers file (.statement id)) s).1.map Prod.snd =
        .ok (listed s.engine.pipeline s.suggestions file id) ∧
      ∀ scope ∈ s.engine.pipeline.scopesFor file id,
        (scope.insertPosition file).2.isSome = true := by
  have hforest : Forest file := by
    rcases hmade with ⟨o, rfl⟩ | ⟨path, source, index, root, rfl⟩
    · exact o.forest_finish
    · exact CSharp.forest_lowerFile path source index root
  have halike : Alike s.engine.pipeline file file := .refl hforest
  refine ⟨?_, fun id => ⟨?_, fun scope hscope => insertPosition_isSome _ hforest hscope⟩⟩
  · obtain ⟨s', hrun⟩ := offersInTurn_ends halike hforest ids
    exact congrArg Prod.fst hrun
  · obtain ⟨file', s', hrun, -⟩ := offers_ends halike hforest id
    exact congrArg (fun outcome => outcome.1.map Prod.snd) hrun

/-! A loop around another one, neither with a block, and one template for both. -/

def pairs : Outline :=
  Outline.new "Pairs.cs" |>.method
    [.foreach ⟨"bag", true, .unknown, "var"⟩
        ⟨"bags", .resolved ⟨"Bags", "App.Bags"⟩, .reference none "bags" none⟩
        (some (.foreach ⟨"item", true, .unknown, "var"⟩
          ⟨"bag", .resolved ⟨"Bag", "App.Bag"⟩, .reference none "bag" none⟩ (some .break_)))]

def pairsKnown : Session :=
  ⟨.empty [], ⟨default, ⟨"/data"⟩, .standard⟩, .models (.empty "Pairs"), some
      [⟨"Inside foreach loop of type \"App.Bag\"", "break;", 2, 100, .empty⟩,
        ⟨"Inside foreach loop of type \"App.Bags\"", "break;", 1, 50, .empty⟩,
        ⟨"Inside foreach loop of type \"App.Bags\"", "continue;", 1, 50, .empty⟩]⟩

/-- The outer loop is offered the same before and after the inner one has got a block. -/
theorem offers_ignore_earlier_offers_pairs :
    (run (offersInTurn pairs.finish [2, 1, 2, 7]) pairsKnown).1.map
        (·.map (·.map fun offer => (offer.suggestion.template, offer.insertion.offset))) =
      .ok [[("break;", 55), ("continue;", 55)], [("break;", 93)],
        [("break;", 55), ("continue;", 55)], []] := by
  rw [(offers_ignore_earlier_offers pairsKnown (Or.inl ⟨pairs, rfl⟩) [2, 1, 2, 7]).1, Except.map]
  decide +kernel

end Session

end Foresight
