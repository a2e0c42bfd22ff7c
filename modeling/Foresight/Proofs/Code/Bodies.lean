import Foresight.Proofs.Code.Gaps
import Foresight.Proofs.Code.Embodied
import Foresight.Proofs.CSharp.Pushes
import Foresight.Proofs.CSharp.Sites

/-!
# Bodies made sure of one after the other

Any number of bodies can be made sure of, in any order, also those of statements that were wrapped
meanwhile. What one call does to the file is described by `installBlock` once and for all, and every
fact about a row of calls is a step of it: statements stay what they are up to links
(`Embodies.ensureBody`), the walk gets blocks and loses the empty statements in whose place they go
(`plainWalk_ensureBody`), and an owner that has its block keeps it (`Settled.ensureBody`), so that
asking again changes nothing and gives the point that was given before.
-/

namespace Foresight

namespace SourceFile

/-! ## The walk -/

/-- The empty statement that a block takes the place of. -/
def Drops (old wrapped : Option StatementId) (id : StatementId) : Prop :=
  wrapped = none ∧ old = some id

section Walk

variable {α : Type} {file : SourceFile} {owner : StatementId} {old wrapped : Option StatementId}

theorem Lacks.dropped_empty (h : Lacks file owner old wrapped) {id : StatementId}
    (hdrops : Drops old wrapped id) : ∃ s, file.get? id = some s ∧ s.kind = .empty := by
  obtain ⟨t, ht, -, hkind⟩ := h.embedded hdrops.2
  exact ⟨t, ht, hkind hdrops.1⟩

/-- Only the owner lists what is dropped. -/
theorem Lacks.not_drops_of_ne (hf : Forest file) (h : Lacks file owner old wrapped)
    {id c : StatementId} {s : Statement} (hs : file.get? id = some s) (hc : c ∈ s.kind.childIds)
    (hne : id ≠ owner) : ¬ Drops old wrapped c := by
  rintro ⟨-, hold⟩
  obtain ⟨o, ho, hc'⟩ := h.old_child hold
  exact hne (hf.parent_unique hs hc ho hc')

theorem flatMap_preorder_succ {id : StatementId} {s : Statement} (hs : file.get? id = some s)
    (bound : Nat) (ask : StatementId → List α) :
    (file.preorder (bound + 1) id).flatMap ask =
      ask id ++ s.kind.childIds.flatMap fun c => (file.preorder bound c).flatMap ask := by
  rw [preorder, hs, List.flatMap_cons, List.flatMap_assoc]

/-- An empty statement holds nothing. -/
theorem flatMap_preorder_empty {id : StatementId} {s : Statement} (hs : file.get? id = some s)
    (hkind : s.kind = .empty) {ask : StatementId → List α} (hask : ask id = []) (bound : Nat) :
    (file.preorder bound id).flatMap ask = [] := by
  cases bound with
  | zero => rfl
  | succ bound =>
    rw [flatMap_preorder_succ hs, hask, hkind]
    rfl

/-- Below any statement, the answers of both files are the same list, if each file is followed
further than its chains go. -/
theorem flatMap_preorder_installBlock (hf : Forest file) (h : Lacks file owner old wrapped)
    (edit : InsertionEdit) {ask ask' : StatementId → List α}
    (hask : ∀ id < file.statementCount, ¬ Drops old wrapped id → ask' id = ask id)
    (hblock : ask' file.statementCount = [])
    (hdropped : ∀ id, Drops old wrapped id → ask id = [])
    {rank rank' : StatementId → Nat}
    (hrank : ∀ {id s c}, file.get? id = some s → c ∈ s.kind.childIds → rank c < rank id)
    (hrank' : ∀ {id s c}, (file.installBlock owner old edit wrapped).get? id = some s →
      c ∈ s.kind.childIds → rank' c < rank' id)
    {bound bound' : Nat} {id : StatementId} (hid : id < file.statementCount)
    (hkeeps : ¬ Drops old wrapped id) (hbound : rank id < bound) (hbound' : rank' id < bound') :
    ((file.installBlock owner old edit wrapped).preorder bound' id).flatMap ask' =
      (file.preorder bound id).flatMap ask := by
  induction bound generalizing id bound' with
  | zero => exact absurd hbound (Nat.not_lt_zero _)
  | succ bound ih =>
    obtain ⟨bound', rfl⟩ : ∃ b, bound' = b + 1 := Nat.exists_eq_add_one.mpr (by omega)
    obtain ⟨s, hs⟩ := file.exists_get? hid
    have hs' := get?_installBlock_of_get? h edit hs
    -- The children that both files list give the same answers.
    have hkept : ∀ c ∈ s.kind.childIds, c ∈ (rewired owner file.statementCount old wrapped id
          s).kind.childIds → ¬ Drops old wrapped c →
        ((file.installBlock owner old edit wrapped).preorder bound' c).flatMap ask' =
          (file.preorder bound c).flatMap ask := by
      intro c hc hc' hcdrops
      obtain ⟨t, ht, -⟩ := hf.child_parent hs hc
      have hlt := hrank hs hc
      have hlt' := hrank' hs' hc'
      exact ih (file.lt_of_get? ht) hcdrops (by omega) (by omega)
    rw [flatMap_preorder_succ hs, flatMap_preorder_succ hs', hask id hid hkeeps]
    congr 1
    by_cases howner : id = owner
    · subst howner
      obtain ⟨others, hchildren, -, hchildren', hothers⟩ := h.exists_others hf hs
      rw [hchildren, hchildren', List.flatMap_cons, List.flatMap_append]
      congr 1
      · -- What the owner had in its slot, it has through the block.
        have hb := get?_installBlock_block h edit
        have hmem := hrank' hs' (hchildren' ▸ List.mem_cons_self)
        obtain ⟨b, rfl⟩ : ∃ b, bound' = b + 1 := Nat.exists_eq_add_one.mpr (by omega)
        rw [flatMap_preorder_succ hb, hblock, List.nil_append, StatementKind.childIds]
        cases wrapped with
        | some w =>
          obtain rfl := h.wrapped_old rfl
          obtain ⟨t, ht, -⟩ := h.embedded rfl
          have hlt : rank w < rank id := hrank hs (by rw [hchildren]; exact List.mem_cons_self)
          have hlt' := hrank' hb (List.mem_singleton_self w)
          exact congrArg (· ++ [])
            (ih (file.lt_of_get? ht) (fun hw => Option.some_ne_none w hw.1) (by omega) (by omega))
        | none =>
          cases old with
          | none => rfl
          | some e =>
            obtain ⟨t, ht, hkind⟩ := h.dropped_empty ⟨rfl, rfl⟩
            have hnone := flatMap_preorder_empty ht hkind (hdropped e ⟨rfl, rfl⟩) bound
            exact (congrArg (· ++ []) hnone).symm
      · refine List.flatMap_congr fun c hc => hkept c ?_ ?_ fun hdrops => hothers c hc hdrops.2
        · exact hchildren ▸ List.mem_append_right _ hc
        · exact hchildren' ▸ List.mem_cons_of_mem _ hc
    · have hcdrops := fun c hc => h.not_drops_of_ne hf (c := c) hs hc howner
      rw [kind_rewired_of_ne howner] at hkept ⊢
      exact List.flatMap_congr fun c hc => hkept c hc hc (hcdrops c hc)

/-- Asked in walk order, both files give the same answers, if the block has none to give, nor what
it drops. -/
theorem flatMap_walk_installBlock (hf : Forest file) (h : Lacks file owner old wrapped)
    (edit : InsertionEdit) {ask ask' : StatementId → List α}
    (hask : ∀ id < file.statementCount, ¬ Drops old wrapped id → ask' id = ask id)
    (hblock : ask' file.statementCount = [])
    (hdropped : ∀ id, Drops old wrapped id → ask id = []) :
    (file.installBlock owner old edit wrapped).walk.flatMap ask' = file.walk.flatMap ask := by
  obtain ⟨rank, hbound, hrank⟩ := hf.ranked
  obtain ⟨rank', hbound', hrank'⟩ := (hf.installBlock h edit).ranked
  rw [walk, walk, roots_installBlock, List.flatMap_assoc, List.flatMap_assoc]
  refine List.flatMap_congr fun root hroot => ?_
  obtain ⟨s, hs, -⟩ := hf.root_free hroot
  have hlt := file.lt_of_get? hs
  have hkeeps : ¬ Drops old wrapped root := fun hdrops => by
    obtain ⟨o, ho, hmem⟩ := h.old_child hdrops.2
    exact hf.not_mem_childIds_of_root hroot ho hmem
  refine flatMap_preorder_installBlock hf h edit hask hblock hdropped hrank hrank' hlt hkeeps
    (hbound root hlt) (hbound' root ?_)
  rw [statementCount_installBlock]
  exact Nat.lt_succ_of_lt hlt

end Walk

/-! ## Owners that have their block -/

/-- Nothing is left to do for an owner: it names no statement, it has no body slot, or there is a
block in it. -/
def Settled (file : SourceFile) (owner : StatementId) : Prop :=
  ∀ s old, file.get? owner = some s → s.kind.bodySlot? = some old →
    ∃ body t ids, old = some body ∧ file.get? body = some t ∧ t.kind = .block ids

/-- The empty statement in the body slot of an owner. -/
def emptyBody? (file : SourceFile) (owner : StatementId) : Option StatementId := do
  let s ← file.get? owner
  let body ← s.kind.bodySlot?.join
  match (← file.get? body).kind with
  | .empty => some body
  | _ => none

section Cases

variable {file : SourceFile} {owner : StatementId} {old wrapped : Option StatementId}

theorem emptyBody?_eq_some_iff {id : StatementId} : file.emptyBody? owner = some id ↔
    ∃ s t, file.get? owner = some s ∧ s.kind.bodySlot? = some (some id) ∧
      file.get? id = some t ∧ t.kind = .empty := by
  simp only [emptyBody?, Option.bind_eq_bind, Option.bind_eq_some_iff, Option.join_eq_some_iff]
  constructor
  · rintro ⟨s, hs, body, hslot, t, ht, hbody⟩
    split at hbody
    · rename_i hkind
      cases hbody
      exact ⟨s, t, hs, hslot, ht, hkind⟩
    · cases hbody
  · rintro ⟨s, t, hs, hslot, ht, hkind⟩
    exact ⟨s, hs, id, hslot, t, ht, by rw [hkind]⟩

theorem ensureBody_eq_installBlock {s : Statement} {edit : InsertionEdit}
    (hs : file.get? owner = some s) (hslot : s.kind.bodySlot? = some old)
    (hneed : file.bodyNeed? s.span.stop old = some (.missing edit wrapped)) :
    file.ensureBody owner = (file.installBlock owner old edit wrapped, some (.ofEdit edit)) := by
  unfold ensureBody
  rw [hs]
  dsimp only
  rw [hslot]
  dsimp only
  rw [hneed]

/-- A call on a statement without a body slot, or on an id that names nothing. -/
theorem ensureBody_of_no_slot
    (h : ∀ s, file.get? owner = some s → s.kind.bodySlot? = none) :
    file.ensureBody owner = (file, none) := by
  unfold ensureBody
  cases hs : file.get? owner with
  | none => rfl
  | some s =>
    dsimp only
    rw [h s hs]

/-- In a forest there is nothing to do for an owner, or a block is installed. -/
theorem Forest.settled_or_lacks (hf : Forest file) (owner : StatementId) :
    Settled file owner ∨ ∃ old edit wrapped, Lacks file owner old wrapped ∧
      (∀ id, file.emptyBody? owner = some id ↔ Drops old wrapped id) ∧
      file.ensureBody owner = (file.installBlock owner old edit wrapped, some (.ofEdit edit)) := by
  by_cases hsettled : Settled file owner
  · exact Or.inl hsettled
  · refine Or.inr ?_
    simp only [Settled, not_forall] at hsettled
    obtain ⟨s, old, hs, hslot, hblock⟩ := hsettled
    have hempty : ∀ id, file.emptyBody? owner = some id ↔
        old = some id ∧ ∃ t, file.get? id = some t ∧ t.kind = .empty := by
      intro id
      rw [emptyBody?_eq_some_iff]
      constructor
      · rintro ⟨s', t, hs', hslot', ht, hkind⟩
        obtain rfl := Option.some.inj (hs.symm.trans hs')
        exact ⟨Option.some.inj (hslot.symm.trans hslot'), t, ht, hkind⟩
      · rintro ⟨rfl, t, ht, hkind⟩
        exact ⟨s, t, hs, hslot, ht, hkind⟩
    cases old with
    | none =>
      refine ⟨none, _, none, lacks_of_bodyNeed? hs hslot rfl, fun id => ?_,
        ensureBody_eq_installBlock hs hslot rfl⟩
      rw [hempty]
      exact ⟨fun h => absurd h.1.symm (Option.some_ne_none id),
        fun h => absurd h.2.symm (Option.some_ne_none id)⟩
    | some body =>
      obtain ⟨t, ht⟩ := hf.exists_body hs hslot
      have hnot : ∀ ids, t.kind ≠ .block ids := fun ids hkind =>
        hblock ⟨body, t, ids, rfl, ht, hkind⟩
      by_cases hkind : t.kind = .empty
      · have hneed : file.bodyNeed? s.span.stop (some body) =
            some (.missing (.synthesizeBlock t.span) none) := by
          simp [bodyNeed?, ht, hkind]
        refine ⟨_, _, none, lacks_of_bodyNeed? hs hslot hneed, fun id => ?_,
          ensureBody_eq_installBlock hs hslot hneed⟩
        rw [hempty]
        constructor
        · exact fun h => ⟨rfl, h.1⟩
        · rintro ⟨-, hid⟩
          exact ⟨hid, t, Option.some.inj hid ▸ ht, hkind⟩
      · have hneed : file.bodyNeed? s.span.stop (some body) =
            some (.missing (.wrapInBlock t.span) (some body)) := by
          simp [bodyNeed?, ht, hnot]
        refine ⟨_, _, some body, lacks_of_bodyNeed? hs hslot hneed, fun id => ?_,
          ensureBody_eq_installBlock hs hslot hneed⟩
        rw [hempty]
        constructor
        · rintro ⟨hid, u, hu, hkind'⟩
          obtain rfl := Option.some.inj hid
          obtain rfl := Option.some.inj (ht.symm.trans hu)
          exact absurd hkind' hkind
        · exact fun h => absurd h.1 (Option.some_ne_none body)

end Cases

namespace Settled

variable {file : SourceFile} {owner : StatementId}

theorem ensureBody_self (h : Settled file owner) : (file.ensureBody owner).1 = file := by
  rcases file.ensureBody_needs owner with heq | ⟨s, old, edit, wrapped, hs, hslot, hneed, -⟩
  · exact heq
  · obtain ⟨body, t, ids, rfl, ht, hkind⟩ := h s old hs hslot
    rw [bodyNeed?_of_block ht hkind] at hneed
    cases hneed

theorem emptyBody?_eq_none (h : Settled file owner) : file.emptyBody? owner = none := by
  refine Option.eq_none_iff_forall_ne_some.mpr fun id hid => ?_
  obtain ⟨s, t, hs, hslot, ht, hempty⟩ := emptyBody?_eq_some_iff.mp hid
  obtain ⟨body, u, ids, hbody, hu, hblock⟩ := h s _ hs hslot
  obtain rfl := Option.some.inj hbody
  obtain rfl := Option.some.inj (ht.symm.trans hu)
  exact absurd (hempty.symm.trans hblock) nofun

end Settled

section Calls

variable {file : SourceFile} {owner : StatementId}

/-- The owner has its block afterwards. -/
theorem settled_ensureBody (hf : Forest file) (owner : StatementId) :
    Settled (file.ensureBody owner).1 owner := by
  rcases hf.settled_or_lacks owner with h | ⟨old, edit, wrapped, h, -, heq⟩
  · rwa [h.ensureBody_self]
  · rw [heq]
    obtain ⟨s, hs, hslot⟩ := h.slot
    intro s' slot hs' hslot'
    obtain rfl := Option.some.inj (hs'.symm.trans (get?_installBlock_of_get? h edit hs))
    rw [bodySlot?_rewired_owner hslot] at hslot'
    exact ⟨_, _, _, (Option.some.inj hslot').symm, get?_installBlock_block h edit, rfl⟩

/-- An owner that has its block keeps it. -/
theorem Settled.ensureBody (hf : Forest file) (h : Settled file owner) (other : StatementId) :
    Settled (file.ensureBody other).1 owner := by
  rcases hf.settled_or_lacks other with hother | ⟨old, edit, wrapped, hlacks, -, heq⟩
  · rwa [hother.ensureBody_self]
  · by_cases hother : owner = other
    · exact hother ▸ settled_ensureBody hf owner
    · rw [heq]
      intro s' slot hs' hslot
      rcases installBlock_cases hlacks hs' with ⟨-, rfl⟩ | ⟨s, hs, rfl⟩
      · cases hslot
      · rw [kind_rewired_of_ne hother] at hslot
        obtain ⟨body, t, ids, rfl, ht, hkind⟩ := h s slot hs hslot
        have hne : body ≠ other := fun hbody => hlacks.owner_ne_block (hbody ▸ ht) ids hkind
        exact ⟨body, _, ids, rfl, get?_installBlock_of_get? hlacks edit ht,
          (kind_rewired_of_ne hne ..).trans hkind⟩

theorem Settled.ensureBodies (hf : Forest file) (h : Settled file owner)
    (others : List StatementId) : Settled (file.ensureBodies others) owner := by
  induction others generalizing file with
  | nil => exact h
  | cons other rest ih => exact ih (hf.ensureBody other) (h.ensureBody hf other)

/-- A call takes the empty body of its owner and no other one. -/
theorem emptyBody?_ensureBody (hf : Forest file) (owner other : StatementId) :
    (file.ensureBody owner).1.emptyBody? other =
      if other = owner then none else file.emptyBody? other := by
  by_cases hother : other = owner
  · rw [if_pos hother, hother]
    exact (settled_ensureBody hf owner).emptyBody?_eq_none
  · rw [if_neg hother]
    rcases hf.settled_or_lacks owner with h | ⟨old, edit, wrapped, h, -, heq⟩
    · rw [h.ensureBody_self]
    · rw [heq]
      refine Option.ext fun id => ?_
      rw [emptyBody?_eq_some_iff, emptyBody?_eq_some_iff]
      constructor
      · rintro ⟨s', t', hs', hslot, ht', hkind⟩
        rcases installBlock_cases h hs' with ⟨-, rfl⟩ | ⟨s, hs, rfl⟩
        · cases hslot
        · rw [kind_rewired_of_ne hother] at hslot
          rcases installBlock_cases h ht' with ⟨-, rfl⟩ | ⟨t, ht, rfl⟩
          · cases hkind
          · refine ⟨s, t, hs, hslot, ht, ?_⟩
            by_cases howner : id = owner
            · exact StatementKind.eq_empty_of_withBody ((if_pos howner).symm.trans hkind)
            · exact (kind_rewired_of_ne howner ..).symm.trans hkind
      · rintro ⟨s, t, hs, hslot, ht, hkind⟩
        refine ⟨_, _, get?_installBlock_of_get? h edit hs, ?_, get?_installBlock_of_get? h edit ht,
          ?_⟩
        · rwa [kind_rewired_of_ne hother]
        · have hne : id ≠ owner := by
            rintro rfl
            obtain ⟨o, ho, hold⟩ := h.slot
            obtain rfl := Option.some.inj (ht.symm.trans ho)
            rw [hkind] at hold
            cases hold
          rwa [kind_rewired_of_ne hne]

end Calls

/-! ## Insertion points -/

section Points

variable {file : SourceFile} {owner : StatementId} {old wrapped : Option StatementId}

/-- Of a body that is not the owner's, the same is needed as before. -/
theorem bodyNeed?_installBlock (h : Lacks file owner old wrapped) (edit : InsertionEdit)
    {body : StatementId} {t : Statement} (ht : file.get? body = some t) (ownerEnd : Nat) :
    (file.installBlock owner old edit wrapped).bodyNeed? ownerEnd (some body) =
      file.bodyNeed? ownerEnd (some body) := by
  have ht' := get?_installBlock_of_get? h edit ht
  unfold bodyNeed?
  dsimp only
  rw [ht, ht']
  obtain ⟨kind, parent, span, synthesized⟩ := t
  by_cases howner : body = owner
  · rw [rewired, if_pos howner]
    cases kind <;> cases synthesized <;> rfl
  · rw [rewired, if_neg howner]
    rfl

/-- A body that has become a block is inserted into where it was, and so is any other. -/
theorem ensureBody_ensureBody (hf : Forest file) (other owner : StatementId) :
    ((file.ensureBody other).1.ensureBody owner).2 = (file.ensureBody owner).2 := by
  rcases file.ensureBody_needs other with heq | ⟨o, old, edit, wrapped, ho, hold, hneed, heq⟩
  · rw [heq]
  · rw [heq]
    have hlacks := lacks_of_bodyNeed? ho hold hneed
    cases hs : file.get? owner with
    | none =>
      -- An id that names nothing before the call names the new block now, or still nothing.
      have hnone : ∀ s, file.get? owner = some s → s.kind.bodySlot? = none := fun s h => by
        rw [hs] at h
        cases h
      rw [ensureBody_of_no_slot hnone, ensureBody_of_no_slot fun s' hs' => ?_]
      rcases installBlock_cases hlacks hs' with ⟨-, rfl⟩ | ⟨s, hget, -⟩
      · rfl
      · rw [hs] at hget
        cases hget
    | some s =>
      have hs' := get?_installBlock_of_get? hlacks edit hs
      by_cases hother : owner = other
      · subst hother
        obtain rfl := Option.some.inj (ho.symm.trans hs)
        rw [ensureBody_snd hs' (bodySlot?_rewired_owner hold _), ensureBody_snd ho hold, hneed,
          bodyNeed?_of_block (get?_installBlock_block hlacks edit) rfl]
        rfl
      · have hkind : (rewired other file.statementCount old wrapped owner s).kind = s.kind :=
          kind_rewired_of_ne hother ..
        cases hslot : s.kind.bodySlot? with
        | none =>
          rw [ensureBody_snd_of_no_slot hs' (hkind ▸ hslot), ensureBody_snd_of_no_slot hs hslot]
        | some slot =>
          rw [ensureBody_snd hs' (hkind ▸ hslot), ensureBody_snd hs hslot]
          cases slot with
          | none => rfl
          | some body =>
            obtain ⟨t, ht⟩ := hf.exists_body hs hslot
            have hbody := bodyNeed?_installBlock hlacks edit ht s.span.stop
            exact congrArg (Option.map BodyNeed.point) hbody

theorem ensureBody_ensureBodies (hf : Forest file) (others : List StatementId)
    (owner : StatementId) :
    ((file.ensureBodies others).ensureBody owner).2 = (file.ensureBody owner).2 := by
  induction others generalizing file with
  | nil => rfl
  | cons other rest ih =>
    exact (ih (hf.ensureBody other)).trans (ensureBody_ensureBody hf other owner)

/-- Asked again, whatever was done in between, a call changes nothing and gives the point that it
gave before. -/
theorem ensureBody_again (hf : Forest file) (owner : StatementId) (others : List StatementId) :
    ((file.ensureBody owner).1.ensureBodies others).ensureBody owner =
      ((file.ensureBody owner).1.ensureBodies others, (file.ensureBody owner).2) := by
  have hsettled := (settled_ensureBody hf owner).ensureBodies (hf.ensureBody owner) others
  refine Prod.ext hsettled.ensureBody_self ?_
  rw [ensureBody_ensureBodies (hf.ensureBody owner) others owner, ensureBody_ensureBody hf]

/-- In a forest every body can be made sure of. -/
theorem Forest.isSome_bodyNeed? (hf : Forest file) {s : Statement}
    (hs : file.get? owner = some s) (hslot : s.kind.bodySlot? = some old) (ownerEnd : Nat) :
    (file.bodyNeed? ownerEnd old).isSome = true := by
  cases old with
  | none => rfl
  | some body =>
    obtain ⟨t, ht⟩ := hf.exists_body hs hslot
    rcases t.kind.block_or_not with ⟨ids, hkind⟩ | hkind
    · rw [bodyNeed?_of_block ht hkind]
      rfl
    · obtain ⟨edit, wrapped, hneed, -⟩ := bodyNeed?_of_embedded ht hkind ownerEnd
      rw [hneed]
      rfl

end Points

/-! ## What calls leave as it was -/

/-- A block that was made for an insertion. -/
def isSynthesized (file : SourceFile) (id : StatementId) : Bool :=
  ((file.get? id).bind (·.synthesized)).isSome

/-- The walk without the blocks that were made for insertions. -/
def plainWalk (file : SourceFile) : List StatementId :=
  file.walk.filter fun id => !file.isSynthesized id

/-- What calls for these owners may change about a statement: its body slot, if it is one of the
owners, holds a new block, and its parent link is another one if it was in such a slot. -/
structure Relinked (file : SourceFile) (owners : List StatementId) (id : StatementId)
    (s s' : Statement) : Prop where
  span : s'.span = s.span
  synthesized : s'.synthesized = s.synthesized
  kind : s'.kind = s.kind ∨
    id ∈ owners ∧ ∃ block, file.statementCount ≤ block ∧ s'.kind = s.kind.withBody block
  parent : s'.parent = s.parent ∨
    ∃ owner ∈ owners, ∃ o, file.get? owner = some o ∧ o.kind.bodySlot? = some (some id)

/-- The file after calls for these owners: the text and the roots are as before, every statement is
as before up to links, and the new statements are synthesized blocks. -/
structure Embodies (file file' : SourceFile) (owners : List StatementId) : Prop where
  path : file'.path = file.path
  text : file'.text = file.text
  roots : file'.roots = file.roots
  count_le : file.statementCount ≤ file'.statementCount
  old : ∀ {id s}, file.get? id = some s →
    ∃ s', file'.get? id = some s' ∧ Relinked file owners id s s'
  new : ∀ {id s'}, file.statementCount ≤ id → file'.get? id = some s' →
    s'.kind.isBlock = true ∧ s'.synthesized.isSome = true

section Effects

variable {file file' : SourceFile} {owners : List StatementId}

theorem Relinked.refl (file : SourceFile) (owners : List StatementId) (id : StatementId)
    (s : Statement) : Relinked file owners id s s :=
  ⟨rfl, rfl, Or.inl rfl, Or.inl rfl⟩

theorem Relinked.mono {id : StatementId} {s s' : Statement} (h : Relinked file owners id s s')
    {more : List StatementId} (hsub : owners ⊆ more) : Relinked file more id s s' where
  span := h.span
  synthesized := h.synthesized
  kind := h.kind.imp_right fun hkind => ⟨hsub hkind.1, hkind.2⟩
  parent := h.parent.imp_right fun ⟨owner, howner, ho⟩ => ⟨owner, hsub howner, ho⟩

/-- What an owner has in its slot, it had there from the beginning, or it is a new block. -/
theorem Relinked.bodySlot? {id body : StatementId} {s s' : Statement}
    (h : Relinked file owners id s s') (hbody : body < file.statementCount)
    (hslot : s'.kind.bodySlot? = some (some body)) : s.kind.bodySlot? = some (some body) := by
  rcases h.kind with hkind | ⟨-, block, hnew, hkind⟩
  · exact hkind ▸ hslot
  · rw [hkind, StatementKind.bodySlot?_withBody] at hslot
    obtain ⟨-, -, hblock⟩ := Option.map_eq_some_iff.mp hslot
    obtain rfl := Option.some.inj hblock
    exact absurd hbody (Nat.not_lt.mpr hnew)

theorem Embodies.refl (file : SourceFile) : Embodies file file [] where
  path := rfl
  text := rfl
  roots := rfl
  count_le := Nat.le_refl _
  old {id s} hs := ⟨s, hs, .refl file [] id s⟩
  new hid hs := absurd (file.lt_of_get? hs) (Nat.not_lt.mpr hid)

theorem Embodies.mono (h : Embodies file file' owners) {more : List StatementId}
    (hsub : owners ⊆ more) : Embodies file file' more :=
  { h with
    old := fun hs =>
      let ⟨s', hs', hrelinked⟩ := h.old hs
      ⟨s', hs', hrelinked.mono hsub⟩ }

/-- One more call. -/
theorem Embodies.ensureBody (h : Embodies file file' owners) (hf : Forest file')
    (owner : StatementId) :
    Embodies file (file'.ensureBody owner).1 (owners ++ [owner]) := by
  rcases hf.settled_or_lacks owner with hsettled | ⟨old, edit, wrapped, hlacks, -, heq⟩
  · rw [hsettled.ensureBody_self]
    exact h.mono (List.subset_append_left ..)
  · rw [heq]
    constructor
    case path => exact (path_installBlock edit).trans h.path
    case text => exact (text_installBlock edit).trans h.text
    case roots => exact (roots_installBlock edit).trans h.roots
    case count_le =>
      rw [statementCount_installBlock]
      exact Nat.le_succ_of_le h.count_le
    case new =>
      intro id s'' hid hs''
      rcases installBlock_cases hlacks hs'' with ⟨-, rfl⟩ | ⟨s', hs', rfl⟩
      · exact ⟨rfl, rfl⟩
      · obtain ⟨hblock, hsynthesized⟩ := h.new hid hs'
        refine ⟨?_, hsynthesized⟩
        by_cases howner : id = owner
        · subst howner
          obtain ⟨o, ho, hslot⟩ := hlacks.slot
          obtain rfl := Option.some.inj (hs'.symm.trans ho)
          exact absurd hblock (by rw [StatementKind.isBlock_of_bodySlot? hslot]; nofun)
        · rwa [kind_rewired_of_ne howner]
    case old =>
      intro id s hs
      obtain ⟨s', hs', hrelinked⟩ := h.old hs
      refine ⟨_, get?_installBlock_of_get? hlacks edit hs', hrelinked.span, hrelinked.synthesized,
        ?kind, ?parent⟩
      case kind =>
        by_cases howner : id = owner
        · refine Or.inr ⟨howner ▸ List.mem_append_right _ (List.mem_singleton_self _),
            file'.statementCount, h.count_le, ?_⟩
          rw [rewired, if_pos howner]
          rcases hrelinked.kind with hkind | ⟨-, block, -, hkind⟩
          · rw [hkind]
          · rw [hkind, StatementKind.withBody_withBody]
        · rw [kind_rewired_of_ne howner]
          exact (hrelinked.mono (List.subset_append_left ..)).kind
      case parent =>
        by_cases hold : old = some id
        · -- The owner had the statement in its slot from the beginning.
          obtain ⟨o', ho', hslot⟩ := hlacks.slot
          rw [hold] at hslot
          have howner : owner < file.statementCount := by
            refine Nat.lt_of_not_le fun hnew => ?_
            have hblock := (h.new hnew ho').1
            rw [StatementKind.isBlock_of_bodySlot? hslot] at hblock
            cases hblock
          obtain ⟨o, ho⟩ := file.exists_get? howner
          obtain ⟨o'', ho'', howned⟩ := h.old ho
          obtain rfl := Option.some.inj (ho''.symm.trans ho')
          exact Or.inr ⟨owner, List.mem_append_right _ (List.mem_singleton_self _), o, ho,
            howned.bodySlot? (file.lt_of_get? hs) hslot⟩
        · rw [rewired, if_neg hold]
          exact (hrelinked.mono (List.subset_append_left ..)).parent

theorem ensureBodies_concat (file : SourceFile) (owners : List StatementId) (owner : StatementId) :
    file.ensureBodies (owners ++ [owner]) = ((file.ensureBodies owners).ensureBody owner).1 := by
  rw [ensureBodies, List.foldl_append]
  rfl

theorem embodies_ensureBodies (hf : Forest file) (owners : List StatementId) :
    Embodies file (file.ensureBodies owners) owners := by
  induction owners using List.reverseRecOn with
  | nil => exact .refl file
  | append_singleton owners owner ih =>
    rw [ensureBodies_concat]
    exact ih.ensureBody (hf.ensureBodies owners) owner

/-! ## What calls do to the walk -/

theorem isSynthesized_of_get? {id : StatementId} {s : Statement} (hs : file.get? id = some s) :
    file.isSynthesized id = s.synthesized.isSome := by
  rw [isSynthesized, hs]
  rfl

/-- The block that a call makes is not part of the plain walk, and what was there is met in the same
order, without the empty statement in whose place the block goes. -/
theorem plainWalk_ensureBody (hf : Forest file) (owner : StatementId) :
    (file.ensureBody owner).1.plainWalk =
      file.plainWalk.filter fun id => file.emptyBody? owner ≠ some id := by
  rcases hf.settled_or_lacks owner with h | ⟨old, edit, wrapped, h, hdrops, heq⟩
  · rw [h.ensureBody_self, h.emptyBody?_eq_none]
    exact (List.filter_eq_self.mpr fun id _ => decide_eq_true nofun).symm
  · rw [congrArg Prod.fst heq, plainWalk, plainWalk, List.filter_filter,
      ← List.filterMap_eq_filter, ← List.filterMap_eq_filter, List.filterMap_eq_flatMap_toList,
      List.filterMap_eq_flatMap_toList]
    refine flatMap_walk_installBlock hf h edit (fun id hid hkeeps => ?_) ?_ fun id hid => ?_
    · obtain ⟨s, hs⟩ := file.exists_get? hid
      have hnot : file.emptyBody? owner ≠ some id := fun hempty => hkeeps ((hdrops id).mp hempty)
      simp [Option.guard, isSynthesized_of_get? (get?_installBlock_of_get? h edit hs),
        isSynthesized_of_get? hs, hnot, rewired]
    · simp [Option.guard, isSynthesized_of_get? (get?_installBlock_block h edit)]
    · simp [Option.guard, (hdrops id).mpr hid]

/-- In a row of calls every owner takes its own empty body out of the walk. -/
theorem plainWalk_ensureBodies (hf : Forest file) (owners : List StatementId) :
    (file.ensureBodies owners).plainWalk =
      file.plainWalk.filter fun id => id ∉ owners.filterMap file.emptyBody? := by
  induction owners generalizing file with
  | nil => exact (List.filter_eq_self.mpr fun id _ => decide_eq_true List.not_mem_nil).symm
  | cons owner rest ih =>
    have hstep := ih (hf.ensureBody owner)
    rw [plainWalk_ensureBody hf, List.filter_filter] at hstep
    refine hstep.trans (List.filter_congr fun id _ => ?_)
    rw [← Bool.decide_and]
    refine decide_eq_decide.mpr ?_
    simp only [List.mem_filterMap, List.exists_mem_cons_iff, not_or, emptyBody?_ensureBody hf]
    rw [and_comm]
    refine and_congr_right fun howner => not_congr (exists_congr fun other => ?_)
    refine and_congr_right fun _ => ?_
    split
    · rename_i hother
      rw [hother]
      exact ⟨nofun, fun h => absurd h howner⟩
    · rfl

/-- Where nothing was synthesized, the whole walk is plain. -/
theorem Unmarked.plainWalk_eq (h : Unmarked file) : file.plainWalk = file.walk := by
  refine List.filter_eq_self.mpr fun id _ => ?_
  cases hs : file.get? id with
  | none => rw [isSynthesized, hs]; rfl
  | some s => rw [isSynthesized_of_get? hs, h id s hs]; rfl

end Effects

/-- Calls for any owners, in a file that was laid out from an outline or lowered from a syntax tree.
Its links stay those of a forest, and nothing but links and body slots changes. Without the blocks
that were made, the walk is as it was, less the empty bodies of the owners. A call on what has no
body slot does nothing and has no answer, and a call that was made before, whatever came since, does
nothing and has the answer that it had then. -/
theorem ensureBodies_relinks {file : SourceFile}
    (hmade : (∃ o : Outline, o.finish = file) ∨
      ∃ path source index root, CSharp.lowerFile path source index root = file)
    (owners : List StatementId) :
    let later := file.ensureBodies owners
    Forest later ∧
    Embodies file later owners ∧
    (later.walk.filter fun id => !later.isSynthesized id) =
      (file.walk.filter fun id => id ∉ owners.filterMap file.emptyBody?) ∧
    (∀ id, (∀ s, later.get? id = some s → s.kind.bodySlot? = none) →
      later.ensureBody id = (later, none)) ∧
    ∀ owner others,
      ((later.ensureBody owner).1.ensureBodies others).ensureBody owner =
        ((later.ensureBody owner).1.ensureBodies others, (later.ensureBody owner).2) := by
  have hfile : Forest file ∧ Unmarked file := by
    rcases hmade with ⟨o, rfl⟩ | ⟨path, source, index, root, rfl⟩
    · exact ⟨o.forest_finish, fun id s hs => o.written_finish.unmarked hs⟩
    · exact ⟨CSharp.forest_lowerFile path source index root,
        CSharp.unmarked_lowerFile path source index root⟩
  obtain ⟨hf, hunmarked⟩ := hfile
  have hlater := hf.ensureBodies owners
  refine ⟨hlater, embodies_ensureBodies hf owners, ?walk, fun id h => ensureBody_of_no_slot h,
    fun owner others => ensureBody_again hlater owner others⟩
  case walk =>
    have hwalk := plainWalk_ensureBodies hf owners
    rwa [hunmarked.plainWalk_eq] at hwalk

/-! A loop around another one, which has nothing but an empty statement in it. -/

def idle : Outline :=
  Outline.new "Idle.cs" |>.method
    [.foreach ⟨"bag", true, .unknown, "var"⟩
        ⟨"bags", .resolved ⟨"Bags", "App.Bags"⟩, .reference none "bags" none⟩
        (some (.while_ ⟨"busy", .unknown, .reference none "busy" none⟩ (some .empty)))]

/-- The outer loop is wrapped around first, the inner one gets its block inside of that, and the
outer one is asked for again. -/
theorem ensureBodies_relinks_idle :
    let later := idle.finish.ensureBodies [2, 1]
    later.walk = [3, 2, 4, 1, 5] ∧
    (later.walk.filter fun id => !later.isSynthesized id) = [3, 2, 1] ∧
    later.ensureBody 0 = (later, none) ∧
    (((idle.finish.ensureBody 2).1.ensureBodies [1]).ensureBody 2).2 =
      some (.ofEdit (.wrapInBlock ⟨55, 81⟩)) := by
  have hmade : ∃ o : Outline, o.finish = idle.finish := ⟨idle, rfl⟩
  obtain ⟨-, -, hwalk, hslot, -⟩ := ensureBodies_relinks (Or.inl hmade) [2, 1]
  obtain ⟨-, -, -, -, hagain⟩ := ensureBodies_relinks (Or.inl hmade) []
  refine ⟨by decide +kernel, hwalk.trans (by decide +kernel), hslot 0 fun s hs => ?_,
    (congrArg Prod.snd (hagain 2 [1])).trans (by decide +kernel)⟩
  have hnone : ((idle.finish.ensureBodies [2, 1]).get? 0).bind (·.kind.bodySlot?) = none := by
    decide +kernel
  rwa [hs] at hnone

end SourceFile

end Foresight
