import Foresight.Mining
import Foresight.Proofs.Code.Bodies
import Foresight.Proofs.Scope.Captured

/-!
# Insertion does not disturb mining

Mining asks every statement in walk order which scopes it opens, and follows a link from there to
the statement that gives the template. A synthesized body changes the walk and those links, but not
the answers: the block itself opens no scope and follows in none, an embedded statement follows its
owner through the block as it did without, and a dropped empty statement never had anything to say.
-/

namespace Foresight

namespace SourceFile

/-! ## The links -/

section Links

variable {file : SourceFile} {owner : StatementId} {old wrapped : Option StatementId}

theorem mem_of_successor? {id next : StatementId} {ids : List StatementId}
    (h : successor? id ids = some next) : next ∈ ids := by
  induction ids with
  | nil => cases h
  | cons first rest ih =>
    rw [successor?] at h
    split at h
    · exact List.mem_cons_of_mem _ (List.mem_of_head? h)
    · exact List.mem_cons_of_mem _ (ih h)

/-- In a forest the next sibling is the next one that the block above lists. -/
theorem Forest.nextSibling?_eq_some_iff (hf : Forest file) {id next : StatementId} :
    file.nextSibling? id = some next ↔ ∃ s p t ids, file.get? id = some s ∧ s.parent = some p ∧
      file.get? p = some t ∧ t.kind = .block ids ∧ successor? id ids = some next := by
  constructor
  · intro h
    simp only [nextSibling?, parentOf?, Option.bind_eq_bind, Option.bind_eq_some_iff] at h
    obtain ⟨p, ⟨s, hs, q, hq, hp⟩, t, ht, hnext⟩ := h
    obtain ⟨-, rfl⟩ : file.has q = true ∧ q = p := by simpa using hp
    split at hnext
    · rename_i ids hkind
      obtain ⟨next', hsucc, hhas⟩ := Option.bind_eq_some_iff.mp hnext
      obtain ⟨-, rfl⟩ : file.has next' = true ∧ next' = next := by simpa using hhas
      exact ⟨s, q, t, ids, hs, hq, ht, hkind, hsucc⟩
    · cases hnext
  · rintro ⟨s, p, t, ids, hs, hparent, ht, hkind, hsucc⟩
    obtain ⟨u, hu, -⟩ := hf.child_parent ht
      (show next ∈ t.kind.childIds by rw [hkind]; exact mem_of_successor? hsucc)
    have hp : file.has p = true := file.has_iff.mpr (file.lt_of_get? ht)
    have hnext : file.has next = true := file.has_iff.mpr (file.lt_of_get? hu)
    simp [nextSibling?, parentOf?, hs, hparent, hp, ht, hkind, hsucc, hnext]

/-- What is in a body slot has no sibling behind it, in the slot as in the block. -/
theorem nextSibling?_installBlock (hf : Forest file) (h : Lacks file owner old wrapped)
    (edit : InsertionEdit) {id : StatementId} (hid : id < file.statementCount) :
    (file.installBlock owner old edit wrapped).nextSibling? id = file.nextSibling? id := by
  refine Option.ext fun next => ?_
  rw [(hf.installBlock h edit).nextSibling?_eq_some_iff, hf.nextSibling?_eq_some_iff]
  constructor
  · rintro ⟨s', p, t', ids, hs', hp, ht', hkind, hsucc⟩
    obtain ⟨s, hs⟩ := file.exists_get? hid
    obtain rfl := Option.some.inj (hs'.symm.trans (get?_installBlock_of_get? h edit hs))
    by_cases hold : old = some id
    · -- The block has nothing behind what it holds.
      obtain ⟨w, hw, rfl⟩ := Option.map_eq_some_iff.mp ((if_pos hold).symm.trans hp)
      obtain rfl := Option.some.inj (hold.symm.trans (h.wrapped_old hw))
      obtain rfl := Option.some.inj (ht'.symm.trans (get?_installBlock_block h edit))
      obtain rfl : wrapped.toList = ids := StatementKind.block.inj hkind
      simp [hw, successor?] at hsucc
    · have hparent : s.parent = some p := (if_neg hold).symm.trans hp
      obtain ⟨t, ht, -⟩ := hf.parent_child hs hparent
      obtain rfl := Option.some.inj (ht'.symm.trans (get?_installBlock_of_get? h edit ht))
      exact ⟨s, p, t, ids, hs, hparent, ht, eq_block_of_rewired hkind, hsucc⟩
  · rintro ⟨s, p, t, ids, hs, hp, ht, hkind, hsucc⟩
    have hold : old ≠ some id := fun hold => by
      obtain ⟨o, ho, hmem⟩ := h.old_child hold
      obtain ⟨u, hu, hparent⟩ := hf.child_parent ho hmem
      obtain rfl := Option.some.inj (hs.symm.trans hu)
      obtain rfl := Option.some.inj (hp.symm.trans hparent)
      exact h.owner_ne_block ht ids hkind
    have hne : p ≠ owner := fun howner => h.owner_ne_block (howner ▸ ht) ids hkind
    exact ⟨_, p, _, ids, get?_installBlock_of_get? h edit hs, (if_neg hold).trans hp,
      get?_installBlock_of_get? h edit ht, (kind_rewired_of_ne hne ..).trans hkind, hsucc⟩

theorem Forest.firstInner?_block (hf : Forest file) {body : StatementId} {t : Statement}
    {ids : List StatementId} (ht : file.get? body = some t) (hkind : t.kind = .block ids) :
    file.firstInner? (some body) = ids.head? := by
  cases ids with
  | nil => simp [firstInner?, ht, hkind]
  | cons first rest =>
    obtain ⟨u, hu, -⟩ := hf.child_parent ht
      (show first ∈ t.kind.childIds by rw [hkind]; exact List.mem_cons_self)
    simp [firstInner?, ht, hkind, file.has_iff.mpr (file.lt_of_get? hu)]

theorem firstInner?_embedded {body : StatementId} {t : Statement} (ht : file.get? body = some t)
    (hkind : ∀ ids, t.kind ≠ .block ids) : file.firstInner? (some body) = some body := by
  simp [firstInner?, ht]

/-- The body of any other statement begins as before. -/
theorem firstInner?_installBlock (hf : Forest file) (h : Lacks file owner old wrapped)
    (edit : InsertionEdit) {body : StatementId} {t : Statement} (ht : file.get? body = some t) :
    (file.installBlock owner old edit wrapped).firstInner? (some body) =
      file.firstInner? (some body) := by
  have ht' := get?_installBlock_of_get? h edit ht
  rcases t.kind.block_or_not with ⟨ids, hkind⟩ | hkind
  · have hne : body ≠ owner := fun howner => h.owner_ne_block (howner ▸ ht) ids hkind
    rw [hf.firstInner?_block ht hkind,
      (hf.installBlock h edit).firstInner?_block ht' ((kind_rewired_of_ne hne ..).trans hkind)]
  · rw [firstInner?_embedded ht hkind,
      firstInner?_embedded ht' fun ids hk => hkind ids (eq_block_of_rewired hk)]

end Links

end SourceFile

/-! ## Classifiers and builders -/

section Shapes

variable (body anchor : StatementId) (kind : StatementKind)

/-- No classifier looks into a body slot. -/
theorem Classifier.canHandle_withBody (c : Classifier) :
    c.canHandle (kind.withBody body) = c.canHandle kind := by
  cases kind <;> cases c <;> rfl

theorem Classifier.handle?_withBody (c : Classifier) :
    c.handle? anchor (kind.withBody body) = c.handle? anchor kind := by
  cases kind <;> cases c <;> rfl

/-- No builder looks into a body slot. -/
theorem Builder.canHandle_withBody (b : Builder) :
    b.canHandle (kind.withBody body) = b.canHandle kind := by
  cases kind <;> cases b <;> rfl

theorem Builder.template?_withBody (b : Builder) (text : String) (parameters : Fields) :
    b.template? (kind.withBody body) text parameters = b.template? kind text parameters := by
  cases kind <;> cases b <;> rfl

/-- A scope is anchored at the statement that opened it. -/
theorem Classifier.anchor_of_handle? {c : Classifier} {anchor : StatementId}
    {kind : StatementKind} {scope : Scope} (h : c.handle? anchor kind = some scope) :
    scope.anchor = anchor := by
  cases opens_of_handle? h <;> rfl

/-- A scope inside its anchor has an anchor with a body slot. -/
theorem Classifier.slot_of_handle? {c : Classifier} {anchor : StatementId}
    {kind : StatementKind} {scope : Scope} (h : c.handle? anchor kind = some scope)
    (hinside : scope.isBlock = true) : ∃ slot, kind.bodySlot? = some slot := by
  cases opens_of_handle? h with
  | call | variable_ => cases hinside
  | loop _ _ hslot | resource _ _ hslot | null _ _ hslot | member_ _ hslot | negation _ hslot =>
    exact Option.isSome_iff_exists.mp hslot

/-- Blocks and empty statements open no scope and give no template. -/
theorem silent {kind : StatementKind} (h : kind = .empty ∨ ∃ ids, kind = .block ids) :
    (∀ c : Classifier, c.canHandle kind = false) ∧ ∀ b : Builder, b.canHandle kind = false := by
  rcases h with rfl | ⟨ids, rfl⟩
  · exact ⟨fun c => by cases c <;> rfl, fun b => by cases b <;> rfl⟩
  · exact ⟨fun c => by cases c <;> rfl, fun b => by cases b <;> rfl⟩

end Shapes

/-! ## Scopes and templates -/

open SourceFile

section Scopes

variable {file : SourceFile} {owner : StatementId} {old wrapped : Option StatementId}

theorem firstBodyStatement?_eq {id : StatementId} {s : Statement} {slot : Option StatementId}
    (hs : file.get? id = some s) (hslot : s.kind.bodySlot? = some slot) :
    Scope.firstBodyStatement? file id = file.firstInner? slot := by
  simp [Scope.firstBodyStatement?, hs, hslot]

/-- The owner finds what was wrapped; where a statement was dropped it finds nothing. -/
theorem firstBodyStatement?_owner (hf : Forest file) (h : Lacks file owner old wrapped)
    (edit : InsertionEdit) :
    Scope.firstBodyStatement? (file.installBlock owner old edit wrapped) owner = wrapped ∧
      Scope.firstBodyStatement? file owner = old := by
  obtain ⟨o, ho, hslot⟩ := h.slot
  rw [firstBodyStatement?_eq ho hslot,
    firstBodyStatement?_eq (get?_installBlock_of_get? h edit ho) (bodySlot?_rewired_owner hslot _),
    (hf.installBlock h edit).firstInner?_block (get?_installBlock_block h edit) rfl]
  refine ⟨by cases wrapped <;> rfl, ?_⟩
  cases old with
  | none => rfl
  | some b =>
    obtain ⟨t, ht, hkind, -⟩ := h.embedded rfl
    exact firstInner?_embedded ht hkind

theorem firstBodyStatement?_of_ne (hf : Forest file) (h : Lacks file owner old wrapped)
    (edit : InsertionEdit) {id : StatementId} (hid : id < file.statementCount) (hne : id ≠ owner) :
    Scope.firstBodyStatement? (file.installBlock owner old edit wrapped) id =
      Scope.firstBodyStatement? file id := by
  obtain ⟨s, hs⟩ := file.exists_get? hid
  have hs' := get?_installBlock_of_get? h edit hs
  have hkind : (rewired owner file.statementCount old wrapped id s).kind = s.kind :=
    kind_rewired_of_ne hne ..
  cases hslot : s.kind.bodySlot? with
  | none => simp [Scope.firstBodyStatement?, hs, hs', hkind, hslot]
  | some slot =>
    rw [firstBodyStatement?_eq hs hslot, firstBodyStatement?_eq hs' (hkind ▸ hslot)]
    cases slot with
    | none => rfl
    | some body =>
      obtain ⟨t, ht⟩ := hf.exists_body hs hslot
      exact firstInner?_installBlock hf h edit ht

/-- The statement that follows under a scope is the same, or an empty one was dropped. -/
theorem nextStatement?_installBlock (hf : Forest file) (h : Lacks file owner old wrapped)
    (edit : InsertionEdit) {scope : Scope} (hanchor : scope.anchor < file.statementCount) :
    scope.nextStatement? (file.installBlock owner old edit wrapped) = scope.nextStatement? file ∨
      scope.nextStatement? (file.installBlock owner old edit wrapped) = none ∧
        ∃ e s, scope.nextStatement? file = some e ∧ file.get? e = some s ∧ s.kind = .empty := by
  unfold Scope.nextStatement?
  split
  · by_cases howner : scope.anchor = owner
    · obtain ⟨hafter, hbefore⟩ := firstBodyStatement?_owner hf h edit
      rw [howner, hafter, hbefore]
      cases wrapped with
      | some w => exact Or.inl (h.wrapped_old rfl).symm
      | none =>
        cases old with
        | none => exact Or.inl rfl
        | some e =>
          obtain ⟨t, ht, -, hkind⟩ := h.embedded rfl
          exact Or.inr ⟨rfl, e, t, rfl, ht, hkind rfl⟩
    · exact Or.inl (firstBodyStatement?_of_ne hf h edit hanchor howner)
  · exact Or.inl (nextSibling?_installBlock hf h edit hanchor)

theorem textOf_installBlock (edit : InsertionEdit) (id : StatementId) (s : Statement) :
    (file.installBlock owner old edit wrapped).textOf
      (rewired owner file.statementCount old wrapped id s) = file.textOf s := by
  rw [textOf, text_installBlock]
  rfl

variable (p : Pipeline)

theorem scopesFor_installBlock (h : Lacks file owner old wrapped) (edit : InsertionEdit)
    {id : StatementId} (hid : id < file.statementCount) :
    p.scopesFor (file.installBlock owner old edit wrapped) id = p.scopesFor file id := by
  obtain ⟨s, hs⟩ := file.exists_get? hid
  unfold Pipeline.scopesFor
  rw [get?_installBlock_of_get? h edit hs, hs]
  dsimp only [rewired]
  split
  · simp only [Classifier.canHandle_withBody, Classifier.handle?_withBody]
  · rfl

theorem anchor_of_mem_scopesFor {id : StatementId} {scope : Scope}
    (hscope : scope ∈ p.scopesFor file id) : scope.anchor = id := by
  unfold Pipeline.scopesFor at hscope
  split at hscope
  · cases hscope
  · obtain ⟨c, -, hc⟩ := List.mem_filterMap.mp hscope
    exact Classifier.anchor_of_handle? hc

theorem scopesFor_silent {id : StatementId} {s : Statement} (hs : file.get? id = some s)
    (hkind : s.kind = .empty ∨ ∃ ids, s.kind = .block ids) : p.scopesFor file id = [] := by
  simp [Pipeline.scopesFor, hs, (silent hkind).1]

/-- What a statement says under a scope. -/
theorem observationsUnder_of_next {scope : Scope} {id : StatementId} {s : Statement}
    (hnext : scope.nextStatement? file = some id) (hs : file.get? id = some s) :
    p.observationsUnder file scope =
      (p.builders.filter (·.canHandle s.kind)).filterMap (·.build? file s scope) := by
  simp [Pipeline.observationsUnder, hnext, hs]

theorem observationsUnder_silent {scope : Scope}
    (h : ∀ id s, scope.nextStatement? file = some id → file.get? id = some s →
      s.kind = .empty ∨ ∃ ids, s.kind = .block ids) : p.observationsUnder file scope = [] := by
  unfold Pipeline.observationsUnder
  split
  · rfl
  · rename_i s hs
    obtain ⟨id, hid, hs⟩ := Option.bind_eq_some_iff.mp hs
    simp [(silent (h id s hid hs)).2]

theorem observationsUnder_installBlock (hf : Forest file) (h : Lacks file owner old wrapped)
    (edit : InsertionEdit) {scope : Scope} (hanchor : scope.anchor < file.statementCount) :
    p.observationsUnder (file.installBlock owner old edit wrapped) scope =
      p.observationsUnder file scope := by
  rcases nextStatement?_installBlock hf h edit hanchor with hsame | ⟨hnone, e, s, he, hs, hkind⟩
  · by_cases hnext : ∃ id s, scope.nextStatement? file = some id ∧ file.get? id = some s
    · obtain ⟨id, s, hid, hs⟩ := hnext
      rw [observationsUnder_of_next p hid hs, observationsUnder_of_next p (hsame.trans hid)
        (get?_installBlock_of_get? h edit hs)]
      unfold Builder.build?
      simp only [textOf_installBlock]
      dsimp only [rewired]
      split
      · simp only [Builder.canHandle_withBody, Builder.template?_withBody]
      · rfl
    · rw [observationsUnder_silent p fun id s hid hs => absurd ⟨id, s, hid, hs⟩ hnext,
        observationsUnder_silent p fun id s' hid hs' => ?_]
      rcases installBlock_cases h hs' with ⟨-, rfl⟩ | ⟨s, hs, -⟩
      · exact Or.inr ⟨_, rfl⟩
      · exact absurd ⟨id, s, hsame ▸ hid, hs⟩ hnext
  · rw [observationsUnder_silent p fun id s hid => by simp [hnone] at hid,
      observationsUnder_silent p fun id s' hid hs' => ?_]
    obtain rfl := Option.some.inj (he.symm.trans hid)
    obtain rfl := Option.some.inj (hs.symm.trans hs')
    exact Or.inl hkind

end Scopes

namespace Pipeline

/-- One synthesized body leaves what is mined as it was. -/
theorem analyzeFile_ensureBody (p : Pipeline) {file : SourceFile} (hf : Forest file)
    (owner : StatementId) (fileId : String) :
    p.analyzeFile (file.ensureBody owner).1 fileId = p.analyzeFile file fileId := by
  rcases ensureBody_cases file owner with heq | ⟨old, edit, wrapped, h, heq⟩
  · rw [heq]
  · rw [heq]
    refine flatMap_walk_installBlock hf h edit (fun id hid _ => ?_) ?_ fun id hdrops => ?_
    · rw [scopesFor_installBlock p h edit hid]
      refine List.flatMap_congr fun scope hscope => ?_
      rw [observationsUnder_installBlock p hf h edit (anchor_of_mem_scopesFor p hscope ▸ hid)]
    · rw [scopesFor_silent p (get?_installBlock_block h edit) (Or.inr ⟨_, rfl⟩)]
      rfl
    · obtain ⟨s, hs, hkind⟩ := h.dropped_empty hdrops
      rw [scopesFor_silent p hs (Or.inl hkind)]
      rfl

theorem analyzeFile_ensureBodies (p : Pipeline) {file : SourceFile} (hf : Forest file)
    (owners : List StatementId) (fileId : String) :
    p.analyzeFile (owners.foldl (fun file owner => (file.ensureBody owner).1) file) fileId =
      p.analyzeFile file fileId := by
  induction owners generalizing file with
  | nil => rfl
  | cons owner rest ih =>
    rw [List.foldl_cons, ih (hf.ensureBody owner), analyzeFile_ensureBody p hf]

/-- Whatever bodies are made sure of, in whatever order, for ids that name statements or nothing: a
file that was laid out from an outline, and one that was lowered from any syntax tree, is mined as
if nothing had been inserted. -/
theorem mining_ignores_bodies (p : Pipeline) (owners : List StatementId) (fileId : String) :
    (∀ o : Outline,
      p.analyzeFile (owners.foldl (fun file owner => (file.ensureBody owner).1) o.finish) fileId =
        p.analyzeFile o.finish fileId) ∧
    ∀ (path source : String) (index : CSharp.SymbolIndex) (root : CSharp.Node),
      p.analyzeFile (owners.foldl (fun file owner => (file.ensureBody owner).1)
          (CSharp.lowerFile path source index root)) fileId =
        p.analyzeFile (CSharp.lowerFile path source index root) fileId :=
  ⟨fun o => p.analyzeFile_ensureBodies o.forest_finish owners fileId,
    fun path source index root =>
      p.analyzeFile_ensureBodies (CSharp.forest_lowerFile path source index root) owners fileId⟩

end Pipeline

end Foresight
