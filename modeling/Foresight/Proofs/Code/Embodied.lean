import Foresight.Code.Body
import Foresight.Proofs.Code.Forest

/-!
# Forests with synthesized bodies

Where a body is missing, `ensureBody` puts a new block into the body slot: around the embedded
statement if there is one, and in the place of an empty statement, which is left without a parent.
So only three links change, those between the owner, the block and what was in the slot
(`get?_installBlock`), and a forest stays a forest.

Reading the file by its links afterwards, the block is one step more between the owner and the
embedded statement. Whoever asks every statement the same question in walk order hears the same
answers, if the block and a dropped empty statement have nothing to say
(`flatMap_walk_installBlock`).
-/

namespace Foresight

namespace StatementKind

variable {kind : StatementKind} {old : Option StatementId}

/-- A shape with a body slot lists what is in it before its other children. -/
theorem exists_childIds (h : kind.bodySlot? = some old) :
    ∃ others, kind.childIds = old.toList ++ others ∧
      ∀ body, (kind.withBody body).childIds = body :: others := by
  cases kind with
  | if_ condition then_ else_ =>
    cases h
    exact ⟨else_.toList, rfl, fun _ => rfl⟩
  | while_ | foreach | using_ =>
    cases h
    exact ⟨[], (List.append_nil _).symm, fun _ => rfl⟩
  | _ => cases h

theorem mem_childIds_of_bodySlot? {body : StatementId} (h : kind.bodySlot? = some (some body)) :
    body ∈ kind.childIds := by
  obtain ⟨others, hchildren, -⟩ := exists_childIds h
  rw [hchildren]
  exact List.mem_cons_self

theorem eq_block_of_withBody {body : StatementId} {statements : List StatementId}
    (h : kind.withBody body = .block statements) : kind = .block statements := by
  cases kind <;> first | exact h | cases h

theorem eq_empty_of_withBody {body : StatementId} (h : kind.withBody body = .empty) :
    kind = .empty := by
  cases kind <;> first | exact h | cases h

/-- A block has no body slot. -/
theorem ne_block_of_bodySlot? (h : kind.bodySlot? = some old) (statements : List StatementId) :
    kind ≠ .block statements := by
  rintro rfl
  cases h

theorem isBlock_of_bodySlot? (h : kind.bodySlot? = some old) : kind.isBlock = false := by
  cases kind <;> first | rfl | cases h

theorem isBlock_eq_false (h : ∀ statements, kind ≠ .block statements) : kind.isBlock = false := by
  cases kind <;> first | rfl | exact absurd rfl (h _)

theorem withBody_withBody (body other : StatementId) (kind : StatementKind) :
    (kind.withBody body).withBody other = kind.withBody other := by
  cases kind <;> rfl

theorem block_or_not (kind : StatementKind) :
    (∃ statements, kind = .block statements) ∨ ∀ statements, kind ≠ .block statements := by
  rw [← not_exists]
  exact Classical.em _

end StatementKind

namespace SourceFile

/-- The owner has a body slot with `old` in it, which is nothing, an empty statement to drop, or an
embedded statement to wrap. -/
structure Lacks (file : SourceFile) (owner : StatementId) (old wrapped : Option StatementId) :
    Prop where
  slot : ∃ s, file.get? owner = some s ∧ s.kind.bodySlot? = some old
  wrapped_old : ∀ {b}, wrapped = some b → old = some b
  embedded : ∀ {b}, old = some b → ∃ t, file.get? b = some t ∧ (∀ ids, t.kind ≠ .block ids) ∧
    (wrapped = none → t.kind = .empty)

variable {file : SourceFile} {owner : StatementId} {old wrapped : Option StatementId}

/-- When a block has to be made, the slot is empty, or holds an empty statement or one to wrap. The
block goes where that is, or else to the end of the owner. -/
theorem bodyNeed?_missing {ownerEnd : Nat} {edit : InsertionEdit}
    (h : file.bodyNeed? ownerEnd old = some (.missing edit wrapped)) :
    (old = none ∧ wrapped = none ∧ edit = .synthesizeBlock (.point ownerEnd)) ∨
      ∃ b t, old = some b ∧ file.get? b = some t ∧ (∀ ids, t.kind ≠ .block ids) ∧
        (t.kind = .empty ∧ wrapped = none ∧ edit = .synthesizeBlock t.span ∨
          wrapped = some b ∧ edit = .wrapInBlock t.span) := by
  cases old with
  | none =>
    cases h
    exact Or.inl ⟨rfl, rfl, rfl⟩
  | some b =>
    simp only [bodyNeed?, Option.bind_eq_bind, Option.bind_eq_some_iff] at h
    obtain ⟨t, ht, hneed⟩ := h
    refine Or.inr ⟨b, t, rfl, ht, ?_⟩
    split at hneed
    · cases hneed
    · cases hneed
    · rename_i hkind
      cases hneed
      exact ⟨by simp [hkind], Or.inl ⟨hkind, rfl, rfl⟩⟩
    · rename_i hmarked hunmarked
      cases hneed
      refine ⟨fun ids hkind => ?_, Or.inr ⟨rfl, rfl⟩⟩
      cases hsynthesized : t.synthesized with
      | none => exact hunmarked ids hkind hsynthesized
      | some edit => exact hmarked ids edit hkind hsynthesized

/-- When there is a block, the point is behind its brace, or where it was put. -/
theorem bodyNeed?_ready {ownerEnd : Nat} {point : InsertionPoint}
    (h : file.bodyNeed? ownerEnd old = some (.ready point)) :
    ∃ b t ids, old = some b ∧ file.get? b = some t ∧ t.kind = .block ids ∧
      point = t.synthesized.elim (.direct (t.span.start + 1)) .ofEdit := by
  cases old with
  | none => cases h
  | some b =>
    simp only [bodyNeed?, Option.bind_eq_bind, Option.bind_eq_some_iff] at h
    obtain ⟨t, ht, hneed⟩ := h
    split at hneed
    · rename_i hkind hsynthesized
      cases hneed
      exact ⟨b, t, _, rfl, ht, hkind, by rw [hsynthesized]; rfl⟩
    · rename_i hkind hsynthesized
      cases hneed
      exact ⟨b, t, _, rfl, ht, hkind, by rw [hsynthesized]; rfl⟩
    · cases hneed
    · cases hneed

theorem lacks_of_bodyNeed? {s : Statement} {edit : InsertionEdit} (hs : file.get? owner = some s)
    (hslot : s.kind.bodySlot? = some old)
    (hneed : file.bodyNeed? s.span.stop old = some (.missing edit wrapped)) :
    Lacks file owner old wrapped := by
  rcases bodyNeed?_missing hneed with ⟨rfl, rfl, -⟩ | ⟨b, t, rfl, ht, hblock, hempty⟩
  · exact ⟨⟨s, hs, hslot⟩, nofun, nofun⟩
  · refine ⟨⟨s, hs, hslot⟩, fun hb => ?_, fun hb => ?_⟩
    · rcases hempty with ⟨-, rfl, -⟩ | ⟨rfl, -⟩
      · cases hb
      · exact hb
    · cases hb
      refine ⟨t, ht, hblock, fun hnone => ?_⟩
      rcases hempty with ⟨hkind, -⟩ | ⟨rfl, -⟩
      · exact hkind
      · cases hnone

/-- Making sure of a body changes nothing, or installs the block that is needed. -/
theorem ensureBody_needs (file : SourceFile) (owner : StatementId) :
    (file.ensureBody owner).1 = file ∨ ∃ s old edit wrapped, file.get? owner = some s ∧
      s.kind.bodySlot? = some old ∧
      file.bodyNeed? s.span.stop old = some (.missing edit wrapped) ∧
      (file.ensureBody owner).1 = file.installBlock owner old edit wrapped := by
  unfold ensureBody
  split
  · exact Or.inl rfl
  · rename_i s hs
    split
    · exact Or.inl rfl
    · rename_i old hold
      split
      · exact Or.inl rfl
      · exact Or.inl rfl
      · rename_i edit wrapped hneed
        exact Or.inr ⟨s, old, edit, wrapped, hs, hold, hneed, rfl⟩

/-- Making sure of a body changes nothing, or installs a block where one is lacking. -/
theorem ensureBody_cases (file : SourceFile) (owner : StatementId) :
    (file.ensureBody owner).1 = file ∨ ∃ old edit wrapped, Lacks file owner old wrapped ∧
      (file.ensureBody owner).1 = file.installBlock owner old edit wrapped := by
  rcases file.ensureBody_needs owner with heq | ⟨s, old, edit, wrapped, hs, hslot, hneed, heq⟩
  · exact Or.inl heq
  · exact Or.inr ⟨old, edit, wrapped, lacks_of_bodyNeed? hs hslot hneed, heq⟩

/-! ## The insertion point -/

/-- The point just inside the block that there is, or that has to be made. -/
def BodyNeed.point : BodyNeed → InsertionPoint
  | .ready point => point
  | .missing edit _ => .ofEdit edit

theorem ensureBody_snd {s : Statement} (hs : file.get? owner = some s)
    (hslot : s.kind.bodySlot? = some old) :
    (file.ensureBody owner).2 = (file.bodyNeed? s.span.stop old).map BodyNeed.point := by
  unfold ensureBody
  rw [hs]
  dsimp only
  rw [hslot]
  dsimp only
  split
  · rename_i hneed
    rw [hneed]
    rfl
  · rename_i point hneed
    rw [hneed]
    rfl
  · rename_i edit wrapped hneed
    rw [hneed]
    rfl

theorem ensureBody_snd_of_no_slot {s : Statement} (hs : file.get? owner = some s)
    (hslot : s.kind.bodySlot? = none) : (file.ensureBody owner).2 = none := by
  unfold ensureBody
  rw [hs]
  dsimp only
  rw [hslot]

section Need

variable {body : StatementId} {t : Statement} {ids : List StatementId} {edit : InsertionEdit}

theorem bodyNeed?_of_block (ht : file.get? body = some t) (hkind : t.kind = .block ids)
    (ownerEnd : Nat) : file.bodyNeed? ownerEnd (some body) =
      some (.ready (t.synthesized.elim (.direct (t.span.start + 1)) .ofEdit)) := by
  cases hsynthesized : t.synthesized with
  | none => simp [bodyNeed?, ht, hkind, hsynthesized]
  | some edit => simp [bodyNeed?, ht, hkind, hsynthesized]

/-- A block in the place of a statement begins where the statement does. -/
theorem bodyNeed?_of_embedded (ht : file.get? body = some t) (hkind : ∀ ids, t.kind ≠ .block ids)
    (ownerEnd : Nat) : ∃ edit wrapped,
      file.bodyNeed? ownerEnd (some body) = some (.missing edit wrapped) ∧
        edit.anchor = t.span.start := by
  by_cases hempty : t.kind = .empty
  · exact ⟨.synthesizeBlock t.span, none, by simp [bodyNeed?, ht, hempty], rfl⟩
  · refine ⟨.wrapInBlock t.span, some body, ?_, rfl⟩
    simp [bodyNeed?, ht, hkind]

end Need

/-- What a block in the slot of the owner changes about an old statement. -/
def rewired (owner block : StatementId) (old wrapped : Option StatementId) (id : StatementId)
    (s : Statement) : Statement :=
  { s with
    kind := if id = owner then s.kind.withBody block else s.kind
    parent := if old = some id then wrapped.map fun _ => block else s.parent }

/-- The file with the content of the slot taken out of it. -/
def freed (file : SourceFile) (old : Option StatementId) : SourceFile :=
  old.toList.foldl (fun file body => file.adopt none body) file

theorem installBlock_eq (file : SourceFile) (owner : StatementId) (old : Option StatementId)
    (edit : InsertionEdit) (wrapped : Option StatementId) :
    file.installBlock owner old edit wrapped =
      (((file.freed old).push (.block wrapped.toList) (blockSpan edit)).1.modify
        file.statementCount
          fun s => { s with synthesized := some edit, parent := some owner }).modify
            owner fun s => { s with kind := s.kind.withBody file.statementCount } := by
  have hcount : (file.freed old).statementCount = file.statementCount :=
    file.statementCount_adoptAll none _
  rw [← hcount]
  cases old <;> rfl

theorem statementCount_installBlock (edit : InsertionEdit) :
    (file.installBlock owner old edit wrapped).statementCount = file.statementCount + 1 := by
  rw [installBlock_eq, statementCount_modify, statementCount_modify, statementCount_push, freed,
    statementCount_adoptAll]

theorem roots_installBlock (edit : InsertionEdit) :
    (file.installBlock owner old edit wrapped).roots = file.roots := by
  rw [installBlock_eq]
  exact (roots_push _ _ (blockSpan edit)).trans (roots_adoptAll ..)

theorem text_installBlock (edit : InsertionEdit) :
    (file.installBlock owner old edit wrapped).text = file.text := by
  rw [installBlock_eq]
  exact (text_adoptAll ..).trans (text_adoptAll ..)

theorem path_installBlock (edit : InsertionEdit) :
    (file.installBlock owner old edit wrapped).path = file.path := by
  rw [installBlock_eq]
  exact (path_adoptAll ..).trans (path_adoptAll ..)

theorem Lacks.owner_lt (h : Lacks file owner old wrapped) : owner < file.statementCount := by
  obtain ⟨s, hs, -⟩ := h.slot
  exact file.lt_of_get? hs

theorem Lacks.owner_ne_block (h : Lacks file owner old wrapped) {s : Statement}
    (hs : file.get? owner = some s) (ids : List StatementId) : s.kind ≠ .block ids := by
  obtain ⟨o, ho, hslot⟩ := h.slot
  obtain rfl := Option.some.inj (hs.symm.trans ho)
  exact StatementKind.ne_block_of_bodySlot? hslot ids

theorem get?_installBlock_block (h : Lacks file owner old wrapped) (edit : InsertionEdit) :
    (file.installBlock owner old edit wrapped).get? file.statementCount =
      some ⟨.block wrapped.toList, some owner, blockSpan edit, some edit⟩ := by
  have hcount : (file.freed old).statementCount = file.statementCount :=
    file.statementCount_adoptAll none _
  rw [installBlock_eq, get?_modify, if_neg (Nat.ne_of_gt h.owner_lt), get?_modify, if_pos rfl,
    ← hcount, get?_push_self]
  rfl

theorem get?_installBlock (h : Lacks file owner old wrapped)
    (edit : InsertionEdit) {id : StatementId} (hid : id < file.statementCount) :
    (file.installBlock owner old edit wrapped).get? id =
      (file.get? id).map (rewired owner file.statementCount old wrapped id) := by
  have hcount : (file.freed old).statementCount = file.statementCount :=
    file.statementCount_adoptAll none _
  rw [installBlock_eq, get?_modify, get?_modify, if_neg (Nat.ne_of_lt hid),
    get?_push_of_lt _ _ _ (hcount ▸ hid), hcount, freed, get?_adoptAll]
  obtain ⟨s, hs⟩ := file.exists_get? hid
  simp only [hs, Option.map_some, StatementKind.childIds, Option.mem_toList, rewired]
  by_cases hold : old = some id
  · cases wrapped with
    | none => by_cases howner : id = owner <;> simp [hold, howner]
    | some w =>
      obtain rfl : id = w := Option.some.inj (hold.symm.trans (h.wrapped_old rfl))
      by_cases howner : id = owner <;> simp [hold, howner]
  · have hwrapped : wrapped ≠ some id := fun hw => hold (h.wrapped_old hw)
    by_cases howner : id = owner
    · simp only [if_pos howner, if_neg hold, if_neg hwrapped, Option.map_some]
    · simp only [if_neg howner, if_neg hold, if_neg hwrapped]

/-- A statement of the new file is the block, or an old one rewired. -/
theorem installBlock_cases (h : Lacks file owner old wrapped) {edit : InsertionEdit}
    {id : StatementId} {s' : Statement}
    (hs' : (file.installBlock owner old edit wrapped).get? id = some s') :
    (id = file.statementCount ∧
        s' = ⟨.block wrapped.toList, some owner, blockSpan edit, some edit⟩) ∨
      ∃ s, file.get? id = some s ∧ s' = rewired owner file.statementCount old wrapped id s := by
  have hlt := SourceFile.lt_of_get? _ hs'
  rw [statementCount_installBlock] at hlt
  rcases Nat.lt_or_eq_of_le (Nat.le_of_lt_succ hlt) with hid | rfl
  · obtain ⟨s, hs⟩ := file.exists_get? hid
    rw [get?_installBlock h edit hid, hs] at hs'
    exact Or.inr ⟨s, hs, (Option.some.inj hs').symm⟩
  · exact Or.inl ⟨rfl, Option.some.inj (hs'.symm.trans (get?_installBlock_block h edit))⟩

theorem get?_installBlock_of_get? (h : Lacks file owner old wrapped) (edit : InsertionEdit)
    {id : StatementId} {s : Statement} (hs : file.get? id = some s) :
    (file.installBlock owner old edit wrapped).get? id =
      some (rewired owner file.statementCount old wrapped id s) := by
  rw [get?_installBlock h edit (file.lt_of_get? hs), hs]
  rfl

/-! ## The forest -/

theorem Forest.exists_body (hf : Forest file) {s : Statement} {body : StatementId}
    (hs : file.get? owner = some s) (hslot : s.kind.bodySlot? = some (some body)) :
    ∃ t, file.get? body = some t := by
  obtain ⟨t, ht, -⟩ := hf.child_parent hs (StatementKind.mem_childIds_of_bodySlot? hslot)
  exact ⟨t, ht⟩

/-- What is in the slot is a child of the owner. -/
theorem Lacks.old_child (h : Lacks file owner old wrapped) {b : StatementId}
    (hb : old = some b) : ∃ s, file.get? owner = some s ∧ b ∈ s.kind.childIds := by
  obtain ⟨s, hs, hslot⟩ := h.slot
  exact ⟨s, hs, StatementKind.mem_childIds_of_bodySlot? (hslot.trans (congrArg some hb))⟩

/-- The owner lists the block where it listed what was in the slot. -/
theorem Lacks.exists_others (hf : Forest file) (h : Lacks file owner old wrapped) {s : Statement}
    (hs : file.get? owner = some s) :
    ∃ others, s.kind.childIds = old.toList ++ others ∧ others.Nodup ∧
      (rewired owner file.statementCount old wrapped owner s).kind.childIds =
        file.statementCount :: others ∧ ∀ c ∈ others, old ≠ some c := by
  obtain ⟨o, ho, hslot⟩ := h.slot
  obtain rfl := Option.some.inj (ho.symm.trans hs)
  obtain ⟨others, hchildren, hchildren'⟩ := StatementKind.exists_childIds hslot
  have hnodup := hf.children_nodup ho
  rw [hchildren] at hnodup
  obtain ⟨-, hothers, hdisjoint⟩ := List.nodup_append.mp hnodup
  refine ⟨others, hchildren, hothers, ?_, fun c hc hold => ?_⟩
  · rw [rewired, if_pos rfl, hchildren']
  · exact hdisjoint c (Option.mem_toList.mpr hold) c hc rfl

theorem kind_rewired_of_ne {id : StatementId} (hne : id ≠ owner) (block : StatementId)
    (s : Statement) : (rewired owner block old wrapped id s).kind = s.kind :=
  if_neg hne

/-- No old statement is made a block. -/
theorem bodySlot?_rewired_owner {s : Statement} (hslot : s.kind.bodySlot? = some old)
    (block : StatementId) :
    (rewired owner block old wrapped owner s).kind.bodySlot? = some (some block) := by
  rw [rewired, if_pos rfl, StatementKind.bodySlot?_withBody, hslot, Option.map_some]

theorem eq_block_of_rewired {id block : StatementId} {s : Statement} {ids : List StatementId}
    (hkind : (rewired owner block old wrapped id s).kind = .block ids) : s.kind = .block ids := by
  by_cases howner : id = owner
  · exact StatementKind.eq_block_of_withBody ((if_pos howner).symm.trans hkind)
  · exact (kind_rewired_of_ne howner block s).symm.trans hkind

/-- Only the owner lists something else than before: the block, and no longer what it replaces. -/
theorem mem_childIds_rewired (hf : Forest file) (h : Lacks file owner old wrapped)
    {id c : StatementId} {s : Statement} (hs : file.get? id = some s) :
    c ∈ (rewired owner file.statementCount old wrapped id s).kind.childIds ↔
      id = owner ∧ c = file.statementCount ∨
        c ∈ s.kind.childIds ∧ ¬(id = owner ∧ old = some c) := by
  by_cases howner : id = owner
  · subst howner
    obtain ⟨others, hchildren, -, hchildren', hothers⟩ := h.exists_others hf hs
    rw [hchildren', hchildren, List.mem_cons, List.mem_append, Option.mem_toList]
    constructor
    · rintro (rfl | hc)
      · exact Or.inl ⟨rfl, rfl⟩
      · exact Or.inr ⟨Or.inr hc, fun hold => hothers c hc hold.2⟩
    · rintro (⟨-, rfl⟩ | ⟨hold | hc, hnot⟩)
      · exact Or.inl rfl
      · exact absurd ⟨rfl, hold⟩ hnot
      · exact Or.inr hc
  · simp [kind_rewired_of_ne howner, howner]

/-- Only the owner lists something else than before, and that is the block. -/
theorem of_mem_childIds_rewired (h : Lacks file owner old wrapped) {id c block : StatementId}
    {s : Statement} (hs : file.get? id = some s)
    (hc : c ∈ (rewired owner block old wrapped id s).kind.childIds) :
    id = owner ∧ c = block ∨ c ∈ s.kind.childIds := by
  by_cases howner : id = owner
  · subst howner
    obtain ⟨o, ho, hslot⟩ := h.slot
    obtain rfl := Option.some.inj (ho.symm.trans hs)
    obtain ⟨others, hchildren, hchildren'⟩ := StatementKind.exists_childIds hslot
    rw [rewired, if_pos rfl, hchildren'] at hc
    rcases List.mem_cons.mp hc with rfl | hc
    · exact Or.inl ⟨rfl, rfl⟩
    · exact Or.inr (hchildren ▸ List.mem_append_right _ hc)
  · rw [kind_rewired_of_ne howner] at hc
    exact Or.inr hc

/-- The block takes the rank of its owner, and everything from there on moves up by one. -/
theorem Grounded.installBlock (hg : Grounded file) (h : Lacks file owner old wrapped)
    (edit : InsertionEdit) : Grounded (file.installBlock owner old edit wrapped) where
  child_lt := by
    intro id s' c hs' hc
    rw [statementCount_installBlock]
    rcases installBlock_cases h hs' with ⟨-, rfl⟩ | ⟨s, hs, rfl⟩
    · obtain ⟨o, ho, hmem⟩ := h.old_child (h.wrapped_old (Option.mem_toList.mp hc))
      exact Nat.lt_succ_of_lt (hg.child_lt ho hmem)
    · rcases of_mem_childIds_rewired h hs hc with ⟨-, rfl⟩ | hc
      · exact Nat.lt_succ_self _
      · exact Nat.lt_succ_of_lt (hg.child_lt hs hc)
  root_lt := by
    intro id hid
    rw [roots_installBlock] at hid
    rw [statementCount_installBlock]
    exact Nat.lt_succ_of_lt (hg.root_lt hid)
  ranked := by
    obtain ⟨rank, hbound, hdec⟩ := hg.ranked
    refine ⟨fun id => if id = file.statementCount then rank owner
      else if rank owner ≤ rank id then rank id + 1 else rank id, fun id hid => ?_,
      fun {id s' c} hs' hc => ?_⟩
    · rw [statementCount_installBlock] at hid ⊢
      have howner := hbound owner h.owner_lt
      by_cases hidn : id = file.statementCount
      · simp only [hidn, if_true]
        omega
      · have := hbound id (by omega)
        simp only [hidn, if_false]
        split <;> omega
    · rcases installBlock_cases h hs' with ⟨rfl, rfl⟩ | ⟨s, hs, rfl⟩
      · obtain ⟨o, ho, hmem⟩ := h.old_child (h.wrapped_old (Option.mem_toList.mp hc))
        have hlt := hdec ho hmem
        simp only [Nat.ne_of_lt (hg.child_lt ho hmem), if_true, if_false,
          if_neg (Nat.not_le.mpr hlt)]
        exact hlt
      · have hid := Nat.ne_of_lt (file.lt_of_get? hs)
        rcases of_mem_childIds_rewired h hs hc with ⟨rfl, rfl⟩ | hc
        · simp only [hid, if_true, if_false, Nat.le_refl]
          omega
        · have := hdec hs hc
          simp only [hid, Nat.ne_of_lt (hg.child_lt hs hc), if_false]
          split <;> split <;> omega

theorem Grounded.ensureBody (hg : Grounded file) (owner : StatementId) :
    Grounded (file.ensureBody owner).1 := by
  rcases ensureBody_cases file owner with heq | ⟨old, edit, wrapped, h, heq⟩
  · rwa [heq]
  · rw [heq]
    exact hg.installBlock h edit

theorem Forest.installBlock (hf : Forest file) (h : Lacks file owner old wrapped)
    (edit : InsertionEdit) : Forest (file.installBlock owner old edit wrapped) where
  child_parent := by
    intro id s' c hs' hc
    rcases installBlock_cases h hs' with ⟨rfl, rfl⟩ | ⟨s, hs, rfl⟩
    · have hw : wrapped = some c := Option.mem_toList.mp hc
      obtain ⟨t, ht, -⟩ := h.embedded (h.wrapped_old hw)
      exact ⟨_, get?_installBlock_of_get? h edit ht, by simp [rewired, h.wrapped_old hw, hw]⟩
    · rcases (mem_childIds_rewired hf h hs).mp hc with ⟨rfl, rfl⟩ | ⟨hc, hnot⟩
      · exact ⟨_, get?_installBlock_block h edit, rfl⟩
      · obtain ⟨t, ht, hparent⟩ := hf.child_parent hs hc
        refine ⟨_, get?_installBlock_of_get? h edit ht, (if_neg fun hold => ?_).trans hparent⟩
        obtain ⟨o, ho, hc'⟩ := h.old_child hold
        exact hnot ⟨hf.parent_unique hs hc ho hc', hold⟩
  parent_child := by
    intro id s' p hs' hp
    rcases installBlock_cases h hs' with ⟨rfl, rfl⟩ | ⟨s, hs, rfl⟩
    · obtain rfl := Option.some.inj hp
      obtain ⟨o, ho, -⟩ := h.slot
      exact ⟨_, get?_installBlock_of_get? h edit ho,
        (mem_childIds_rewired hf h ho).mpr (Or.inl ⟨rfl, rfl⟩)⟩
    · by_cases hold : old = some id
      · obtain ⟨w, hw, rfl⟩ := Option.map_eq_some_iff.mp ((if_pos hold).symm.trans hp)
        obtain rfl := Option.some.inj (hold.symm.trans (h.wrapped_old hw))
        exact ⟨_, get?_installBlock_block h edit, Option.mem_toList.mpr hw⟩
      · obtain ⟨t, ht, hmem⟩ := hf.parent_child hs ((if_neg hold).symm.trans hp)
        exact ⟨_, get?_installBlock_of_get? h edit ht,
          (mem_childIds_rewired hf h ht).mpr (Or.inr ⟨hmem, fun hno => hold hno.2⟩)⟩
  children_nodup := by
    intro id s' hs'
    rcases installBlock_cases h hs' with ⟨rfl, rfl⟩ | ⟨s, hs, rfl⟩
    · cases wrapped <;> simp [StatementKind.childIds]
    · by_cases howner : id = owner
      · subst howner
        obtain ⟨others, hchildren, hothers, hchildren', -⟩ := h.exists_others hf hs
        rw [hchildren']
        refine List.nodup_cons.mpr ⟨fun hmem => ?_, hothers⟩
        obtain ⟨t, ht, -⟩ := hf.child_parent hs (hchildren ▸ List.mem_append_right _ hmem)
        exact Nat.lt_irrefl _ (file.lt_of_get? ht)
      · rw [kind_rewired_of_ne howner]
        exact hf.children_nodup hs
  root_free := by
    intro id hid
    rw [roots_installBlock] at hid
    obtain ⟨s, hs, hfree⟩ := hf.root_free hid
    refine ⟨_, get?_installBlock_of_get? h edit hs, (if_neg fun hold => ?_).trans hfree⟩
    obtain ⟨o, ho, hmem⟩ := h.old_child hold
    obtain ⟨t, ht, hparent⟩ := hf.child_parent ho hmem
    obtain rfl := Option.some.inj (hs.symm.trans ht)
    exact absurd (hfree.symm.trans hparent) nofun
  roots_nodup := by
    rw [roots_installBlock]
    exact hf.roots_nodup
  ranked := (hf.grounded.installBlock h edit).ranked

theorem Forest.ensureBody (hf : Forest file) (owner : StatementId) :
    Forest (file.ensureBody owner).1 := by
  rcases ensureBody_cases file owner with heq | ⟨old, edit, wrapped, h, heq⟩
  · rwa [heq]
  · rw [heq]
    exact hf.installBlock h edit

/-- A file once the bodies of some owners were made sure of. -/
def ensureBodies (file : SourceFile) (owners : List StatementId) : SourceFile :=
  owners.foldl (fun file owner => (file.ensureBody owner).1) file

/-- What making sure of one body keeps, making sure of any number of them keeps. -/
theorem ensureBodies_kept {Q : SourceFile → Prop} (h : Q file)
    (hkeep : ∀ {file}, Q file → ∀ owner, Q (file.ensureBody owner).1)
    (owners : List StatementId) : Q (file.ensureBodies owners) :=
  List.foldlRecOn owners _ h fun _ hfile owner _ => hkeep hfile owner

/-- However often bodies are made sure of, the arena stays a forest. -/
theorem Forest.ensureBodies (hf : Forest file) (owners : List StatementId) :
    Forest (file.ensureBodies owners) :=
  ensureBodies_kept hf (fun hf owner => hf.ensureBody owner) owners

end SourceFile

end Foresight
