import Foresight.Proofs.Code.Bodies
import Foresight.Proofs.Code.Separate

/-!
# Innermost and outermost statements

Two statements around one offset are not separate, nor are two that stop together. In a file that
was laid out one of them hangs below the other then, and goes on to do so when bodies are made sure
of, as long as it is walked: a block may come between them, and what is dropped has nothing below it
(`below_ensureBodies`). So the last statement of the walk around an offset is the innermost one, and
the first of those that stop last before it is the outermost.
-/

namespace Foresight

/-- A search that finds only what fits, and finds something if anything fits, finds the one thing
that fits. -/
theorem eq_some_iff_of_unique {α : Type} {P : α → Prop} {found : Option α}
    (hfits : ∀ {a}, found = some a → P a) (hmissed : found = none → ∀ a, ¬ P a)
    (hunique : ∀ {a b}, P a → P b → a = b) (a : α) : found = some a ↔ P a := by
  refine ⟨hfits, fun ha => ?_⟩
  cases hfound : found with
  | none => exact absurd ha (hmissed hfound a)
  | some b => rw [hunique (hfits hfound) ha]

namespace SourceFile

variable {file : SourceFile} {id other : StatementId} {s t : Statement} {offset : Nat}

/-- Of two statements, not each hangs below the other. -/
theorem Forest.eq_of_kin (hf : Forest file) (h : id = other ∨ file.Below id other)
    (h' : other = id ∨ file.Below other id) : id = other := by
  obtain ⟨rank, -, hrank⟩ := hf.ranked
  have hlt : ∀ {a b}, file.Below a b → rank b < rank a := by
    intro a b hbelow
    induction hbelow with
    | single hlists =>
      obtain ⟨s, hs, hc⟩ := hlists
      exact hrank hs hc
    | tail _ hlists ih =>
      obtain ⟨s, hs, hc⟩ := hlists
      exact Nat.lt_trans (hrank hs hc) ih
  rcases h with heq | hbelow
  · exact heq
  · rcases h' with heq | habove
    · exact heq.symm
    · exact absurd (hlt habove) (Nat.lt_asymm (hlt hbelow))

/-- The statement around an offset that hangs below all others. -/
def Innermost (file : SourceFile) (offset : Nat) (id : StatementId) : Prop :=
  ∃ s, file.Around offset id s ∧
    ∀ other t, file.Around offset other t → other = id ∨ file.Below other id

/-- The statement that stops last by an offset, and below which all others hang that stop there
too. -/
def Outermost (file : SourceFile) (offset : Nat) (id : StatementId) : Prop :=
  ∃ s, file.EndsBy offset id s ∧ ∀ other t, file.EndsBy offset other t →
    t.span.stop ≤ s.span.stop ∧ (t.span.stop = s.span.stop → id = other ∨ file.Below id other)

theorem Innermost.unique (h : file.Innermost offset id) (hf : Forest file)
    (h' : file.Innermost offset other) : id = other := by
  obtain ⟨s, hs, hinnermost⟩ := h
  obtain ⟨t, ht, hinnermost'⟩ := h'
  exact hf.eq_of_kin (hinnermost' id s hs) (hinnermost other t ht)

theorem Outermost.unique (h : file.Outermost offset id) (hf : Forest file)
    (h' : file.Outermost offset other) : id = other := by
  obtain ⟨s, hs, houtermost⟩ := h
  obtain ⟨t, ht, houtermost'⟩ := h'
  obtain ⟨hle, hbelow⟩ := houtermost other t ht
  obtain ⟨hle', hbelow'⟩ := houtermost' id s hs
  have hstop : t.span.stop = s.span.stop := Nat.le_antisymm hle hle'
  exact hf.eq_of_kin (hbelow hstop) (hbelow' hstop.symm)

/-! ## What hangs below while bodies are made sure of -/

section Calls

variable {owner : StatementId} {old wrapped : Option StatementId}

/-- A child stays below its parent unless it is dropped; what is wrapped does through the block. -/
theorem below_installBlock_of_lists (hf : Forest file) (h : Lacks file owner old wrapped)
    (edit : InsertionEdit) (hlists : file.Lists id other) (hkeeps : ¬ Drops old wrapped other) :
    (file.installBlock owner old edit wrapped).Below id other := by
  obtain ⟨s, hs, hmem⟩ := hlists
  have hs' := get?_installBlock_of_get? h edit hs
  by_cases hmoved : id = owner ∧ old = some other
  · obtain ⟨rfl, hold⟩ := hmoved
    have hwrapped : wrapped = some other := by
      cases wrapped with
      | none => exact absurd ⟨rfl, hold⟩ hkeeps
      | some w => exact (h.wrapped_old rfl).symm.trans hold
    have hblock : (file.installBlock id old edit wrapped).Lists id file.statementCount :=
      ⟨_, hs', (mem_childIds_rewired hf h hs).mpr (Or.inl ⟨rfl, rfl⟩)⟩
    exact .tail (.single hblock)
      ⟨_, get?_installBlock_block h edit, Option.mem_toList.mpr hwrapped⟩
  · exact .single ⟨_, hs', (mem_childIds_rewired hf h hs).mpr (Or.inr ⟨hmem, hmoved⟩)⟩

theorem below_installBlock (hf : Forest file) (h : Lacks file owner old wrapped)
    (edit : InsertionEdit) (hbelow : file.Below id other) (hkeeps : ¬ Drops old wrapped other) :
    (file.installBlock owner old edit wrapped).Below id other := by
  induction hbelow with
  | single hlists => exact below_installBlock_of_lists hf h edit hlists hkeeps
  | @tail between other _ hlists ih =>
    -- An empty statement has no children, so what is between is not dropped.
    have hbetween : ¬ Drops old wrapped between := by
      intro hdrops
      obtain ⟨s, hs, hempty⟩ := h.dropped_empty hdrops
      obtain ⟨t, ht, hmem⟩ := hlists
      obtain rfl := Option.some.inj (hs.symm.trans ht)
      rw [hempty] at hmem
      exact List.not_mem_nil hmem
    exact (ih hbetween).trans (below_installBlock_of_lists hf h edit hlists hkeeps)

theorem below_ensureBody (hf : Forest file) (hbelow : file.Below id other)
    (hkeeps : file.emptyBody? owner ≠ some other) : (file.ensureBody owner).1.Below id other := by
  rcases hf.settled_or_lacks owner with hsettled | ⟨old, edit, wrapped, h, hdrops, heq⟩
  · rwa [hsettled.ensureBody_self]
  · rw [heq]
    exact below_installBlock hf h edit hbelow fun h => hkeeps ((hdrops other).mpr h)

/-- What hangs below a statement still does after calls for any owners, if it is not dropped. -/
theorem below_ensureBodies {owners : List StatementId} (hf : Forest file)
    (hbelow : file.Below id other) (hkeeps : other ∉ owners.filterMap file.emptyBody?) :
    (file.ensureBodies owners).Below id other := by
  rw [List.mem_filterMap, not_exists] at hkeeps
  induction owners generalizing file with
  | nil => exact hbelow
  | cons owner rest ih =>
    have hfirst : file.emptyBody? owner ≠ some other := fun h =>
      hkeeps owner ⟨List.mem_cons_self, h⟩
    refine ih (hf.ensureBody owner) (below_ensureBody hf hbelow hfirst) fun next hnext => ?_
    obtain ⟨hmem, hempty⟩ := hnext
    rw [emptyBody?_ensureBody hf] at hempty
    split at hempty
    · cases hempty
    · exact hkeeps next ⟨List.mem_cons_of_mem _ hmem, hempty⟩

/-- A walked statement that is no block was there before the calls, and none of them drops it. -/
theorem exists_of_mem_walked (hf : Forest file) (hunmarked : Unmarked file)
    (owners : List StatementId) (hmem : (id, s) ∈ (file.ensureBodies owners).walked)
    (hblock : s.kind.isBlock = false) :
    ∃ t, file.get? id = some t ∧ s.span = t.span ∧ id ∉ owners.filterMap file.emptyBody? := by
  obtain ⟨hwalk, hs⟩ := mem_walked.mp hmem
  have hembodies := embodies_ensureBodies hf owners
  have hlt : id < file.statementCount := by
    refine Nat.lt_of_not_le fun hnew => ?_
    rw [(hembodies.new hnew hs).1] at hblock
    cases hblock
  obtain ⟨t, ht⟩ := file.exists_get? hlt
  obtain ⟨s', hs', hrelinked⟩ := hembodies.old ht
  obtain rfl := Option.some.inj (hs.symm.trans hs')
  have hplain : id ∈ (file.ensureBodies owners).plainWalk := by
    refine List.mem_filter.mpr ⟨hwalk, ?_⟩
    rw [isSynthesized_of_get? hs, hrelinked.synthesized, hunmarked id t ht]
    rfl
  rw [plainWalk_ensureBodies hf, List.mem_filter] at hplain
  exact ⟨t, ht, hrelinked.span, of_decide_eq_true hplain.2⟩

end Calls

end SourceFile

namespace Outline

open SourceFile

variable (o : Outline) (owners : List StatementId) {id other : StatementId} {s t : Statement}

/-- Of two statements that can be looked up, one hangs below the other, or they are separate. -/
theorem related_ensureBodies (hs : (id, s) ∈ (o.finish.ensureBodies owners).walked)
    (ht : (other, t) ∈ (o.finish.ensureBodies owners).walked) (hsblock : s.kind.isBlock = false)
    (htblock : t.kind.isBlock = false) :
    id = other ∨ (o.finish.ensureBodies owners).Below id other ∨
      (o.finish.ensureBodies owners).Below other id ∨ s.span.Separate t.span := by
  have hforest := o.forest_finish
  have hunmarked : Unmarked o.finish := fun id s => o.written_finish.unmarked
  obtain ⟨s', hs', hsspan, hsstays⟩ := exists_of_mem_walked hforest hunmarked owners hs hsblock
  obtain ⟨t', ht', htspan, htstays⟩ := exists_of_mem_walked hforest hunmarked owners ht htblock
  rw [hsspan, htspan]
  rcases o.related_finish hs' ht' with heq | hbelow | hbelow | hseparate
  · exact Or.inl heq
  · exact Or.inr (Or.inl (below_ensureBodies hforest hbelow htstays))
  · exact Or.inr (Or.inr (Or.inl (below_ensureBodies hforest hbelow hsstays)))
  · exact Or.inr (Or.inr (Or.inr hseparate))

theorem span_le_ensureBodies (hs : (id, s) ∈ (o.finish.ensureBodies owners).walked)
    (hblock : s.kind.isBlock = false) : s.span.start ≤ s.span.stop := by
  have hunmarked : Unmarked o.finish := fun id s => o.written_finish.unmarked
  obtain ⟨t, ht, hspan, -⟩ := exists_of_mem_walked o.forest_finish hunmarked owners hs hblock
  rw [hspan]
  exact o.parted_finish.span_le ht

theorem innermost_statementAtOffset? {offset : Nat}
    (h : (o.finish.ensureBodies owners).statementAtOffset? offset = some id) :
    (o.finish.ensureBodies owners).Innermost offset id := by
  have hforest := o.forest_finish.ensureBodies owners
  obtain ⟨s, hs, hlast⟩ := hforest.around_statementAtOffset? h
  refine ⟨s, hs, fun other t ht => ?_⟩
  rcases o.related_ensureBodies owners ht.walked hs.walked ht.not_block hs.not_block with
    heq | hbelow | hbelow | hseparate
  · exact Or.inl heq
  · exact Or.inr hbelow
  · exact absurd hbelow (hlast other t ht)
  · exact absurd hs.contains (by rw [hseparate.not_contains ht.contains]; nofun)

theorem outermost_statementBeforeOffset? {offset : Nat}
    (h : (o.finish.ensureBodies owners).statementBeforeOffset? offset = some id) :
    (o.finish.ensureBodies owners).Outermost offset id := by
  have hforest := o.forest_finish.ensureBodies owners
  obtain ⟨s, hs, hfirst⟩ := hforest.endsBy_statementBeforeOffset? h
  refine ⟨s, hs, fun other t ht => ⟨(hfirst other t ht).1, fun hstop => ?_⟩⟩
  rcases o.related_ensureBodies owners ht.walked hs.walked ht.not_block hs.not_block with
    heq | hbelow | hbelow | hseparate
  · exact Or.inl heq.symm
  · exact absurd hbelow ((hfirst other t ht).2 hstop)
  · exact Or.inr hbelow
  · have hsle := o.span_le_ensureBodies owners hs.walked hs.not_block
    have htle := o.span_le_ensureBodies owners ht.walked ht.not_block
    exact absurd hstop (hseparate.stop_ne htle hsle)

/-- However bodies were made sure of in the file of an outline, the statement at an offset is the
innermost one around it, and the statement before an offset is the outermost one of those that stop
last by then. Nothing is found only if there is nothing of the kind. -/
theorem lookups_by_offset (o : Outline) (owners : List StatementId) (offset : Nat) :
    let file := o.finish.ensureBodies owners
    (file.statementAtOffset? offset = none ↔ ∀ id s, ¬ file.Around offset id s) ∧
    (∀ id, file.statementAtOffset? offset = some id ↔ file.Innermost offset id) ∧
    (file.statementBeforeOffset? offset = none ↔ ∀ id s, ¬ file.EndsBy offset id s) ∧
    ∀ id, file.statementBeforeOffset? offset = some id ↔ file.Outermost offset id := by
  intro file
  have hforest : Forest file := o.forest_finish.ensureBodies owners
  have hat : ∀ {id}, file.statementAtOffset? offset = some id → file.Innermost offset id :=
    o.innermost_statementAtOffset? owners
  have hbefore : ∀ {id}, file.statementBeforeOffset? offset = some id → file.Outermost offset id :=
    o.outermost_statementBeforeOffset? owners
  have hmissed : file.statementAtOffset? offset = none → ∀ id, ¬ file.Innermost offset id := by
    rintro hnone id ⟨s, hs, -⟩
    exact statementAtOffset?_eq_none hnone id s hs
  have hmissed' : file.statementBeforeOffset? offset = none →
      ∀ id, ¬ file.Outermost offset id := by
    rintro hnone id ⟨s, hs, -⟩
    exact statementBeforeOffset?_eq_none hnone id s hs
  refine ⟨⟨statementAtOffset?_eq_none, fun hnone => ?_⟩,
    eq_some_iff_of_unique hat hmissed fun h h' => h.unique hforest h',
    ⟨statementBeforeOffset?_eq_none, fun hnone => ?_⟩,
    eq_some_iff_of_unique hbefore hmissed' fun h h' => h.unique hforest h'⟩
  · refine Option.eq_none_iff_forall_ne_some.mpr fun id hid => ?_
    obtain ⟨s, hs, -⟩ := hat hid
    exact hnone id s hs
  · refine Option.eq_none_iff_forall_ne_some.mpr fun id hid => ?_
    obtain ⟨s, hs, -⟩ := hbefore hid
    exact hnone id s hs

end Outline

end Foresight
