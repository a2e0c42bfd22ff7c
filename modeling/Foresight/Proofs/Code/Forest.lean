import Mathlib.Data.List.Basic
import Mathlib.Data.List.Nodup
import Foresight.Code.SourceFile

/-!
# Arenas that are forests

Child ids and parent links are two ways of writing down the same tree. In a `Forest` they agree:
the parent link of a statement names the one statement that lists it, roots have none, and no chain
of children returns to where it began.

A file is built by pushing statements whose children were pushed before and have no parent yet.
`Grows file file' tops` is one stretch of such work: everything that was there is as it was, and
`tops` are new statements without a parent. Stretches compose (`Grows.trans`), and pushing a parent
over some of the tops is one of them (`Grows.push`), so whoever builds a file shows `Grows` along
its own recursion and gets a forest out of a forest.
-/

namespace Foresight.SourceFile

/-! ## Reading an arena that has been changed -/

section Access

variable (file : SourceFile) {id other : StatementId}

theorem lt_of_get? {s : Statement} (h : file.get? id = some s) : id < file.statementCount :=
  (Array.getElem?_eq_some_iff.mp h).1

theorem exists_get? (h : id < file.statementCount) : ∃ s, file.get? id = some s :=
  ⟨file.statements[id], Array.getElem?_eq_getElem h⟩

theorem has_iff : file.has id = true ↔ id < file.statementCount :=
  decide_eq_true_iff

theorem get?_modify (f : Statement → Statement) :
    (file.modify id f).get? other =
      if other = id then (file.get? other).map f else file.get? other := by
  simp only [get?, modify, Array.getElem?_modify, eq_comm]

theorem statementCount_modify (f : Statement → Statement) :
    (file.modify id f).statementCount = file.statementCount :=
  Array.size_modify ..

theorem get?_adoptAll (parent : Option StatementId) (children : List StatementId) :
    (children.foldl (fun file child => file.adopt parent child) file).get? other =
      if other ∈ children then (file.get? other).map fun s => { s with parent := parent }
      else file.get? other := by
  induction children generalizing file with
  | nil => simp
  | cons c rest ih =>
    rw [List.foldl_cons, ih, adopt, get?_modify]
    by_cases hc : other = c
    · by_cases hr : other ∈ rest <;> cases file.get? other <;> simp [hc]
    · by_cases hr : other ∈ rest <;> simp [hc, hr]

theorem statementCount_adoptAll (parent : Option StatementId) (children : List StatementId) :
    (children.foldl (fun file child => file.adopt parent child) file).statementCount =
      file.statementCount := by
  induction children generalizing file with
  | nil => rfl
  | cons c rest ih => rw [List.foldl_cons, ih, adopt, statementCount_modify]

theorem roots_adoptAll (parent : Option StatementId) (children : List StatementId) :
    (children.foldl (fun file child => file.adopt parent child) file).roots = file.roots := by
  induction children generalizing file with
  | nil => rfl
  | cons c rest ih => rw [List.foldl_cons, ih]; rfl

theorem text_adoptAll (parent : Option StatementId) (children : List StatementId) :
    (children.foldl (fun file child => file.adopt parent child) file).text = file.text := by
  induction children generalizing file with
  | nil => rfl
  | cons c rest ih => rw [List.foldl_cons, ih]; rfl

theorem path_adoptAll (parent : Option StatementId) (children : List StatementId) :
    (children.foldl (fun file child => file.adopt parent child) file).path = file.path := by
  induction children generalizing file with
  | nil => rfl
  | cons c rest ih => rw [List.foldl_cons, ih]; rfl

theorem statements_addRoot : (file.addRoot id).statements = file.statements := by
  unfold addRoot
  split <;> rfl

theorem text_addRoot : (file.addRoot id).text = file.text := by
  unfold addRoot
  split <;> rfl

variable (kind : StatementKind) (span : Span)

theorem statementCount_push :
    (file.push kind span).1.statementCount = file.statementCount + 1 := by
  rw [← file.statementCount_adoptAll (some file.statementCount) kind.childIds]
  exact Array.size_push ..

theorem roots_push : (file.push kind span).1.roots = file.roots :=
  roots_adoptAll ..

theorem text_push : (file.push kind span).1.text = file.text :=
  text_adoptAll ..

theorem get?_push_self :
    (file.push kind span).1.get? file.statementCount = some ⟨kind, none, span, none⟩ := by
  have := file.statementCount_adoptAll (some file.statementCount) kind.childIds
  simp only [get?, push]
  exact this ▸ Array.getElem?_push_size

/-- A push touches older statements only by the parent links of its children. -/
theorem get?_push_of_lt (h : other < file.statementCount) :
    (file.push kind span).1.get? other =
      if other ∈ kind.childIds then
        (file.get? other).map fun s => { s with parent := some file.statementCount }
      else file.get? other := by
  have hcount := file.statementCount_adoptAll (some file.statementCount) kind.childIds
  rw [← get?_adoptAll]
  exact Array.getElem?_push.trans (if_neg (Nat.ne_of_lt (Nat.lt_of_lt_of_eq h hcount.symm)))

theorem get?_push_of_get? {s : Statement} (hs : file.get? id = some s) :
    (file.push kind span).1.get? id = some { s with
      parent := if id ∈ kind.childIds then some file.statementCount else s.parent } := by
  rw [file.get?_push_of_lt kind span (file.lt_of_get? hs), hs]
  by_cases hc : id ∈ kind.childIds
  · rw [if_pos hc, if_pos hc, Option.map_some]
  · rw [if_neg hc, if_neg hc]

/-- After a push, a statement is the new one, or an older one with at most its parent changed. -/
theorem push_cases {s' : Statement} (h : (file.push kind span).1.get? id = some s') :
    (id = file.statementCount ∧ s' = ⟨kind, none, span, none⟩) ∨
      ∃ s, file.get? id = some s ∧ s' = { s with
        parent := if id ∈ kind.childIds then some file.statementCount else s.parent } := by
  have hlt := SourceFile.lt_of_get? _ h
  rw [statementCount_push] at hlt
  rcases Nat.lt_or_eq_of_le (Nat.le_of_lt_succ hlt) with hid | rfl
  · obtain ⟨s, hs⟩ := file.exists_get? hid
    have ht := file.get?_push_of_get? kind span hs
    exact Or.inr ⟨s, hs, Option.some.inj (h.symm.trans ht)⟩
  · exact Or.inl ⟨rfl, Option.some.inj (h.symm.trans (file.get?_push_self kind span))⟩

end Access

/-! ## Arenas without cycles -/

/-- What is listed or registered is there, and no chain of children is longer than the arena. -/
structure Grounded (file : SourceFile) : Prop where
  child_lt : ∀ {id s c}, file.get? id = some s → c ∈ s.kind.childIds → c < file.statementCount
  root_lt : ∀ {id}, id ∈ file.roots → id < file.statementCount
  ranked : ∃ rank : StatementId → Nat, (∀ id < file.statementCount, rank id < file.statementCount) ∧
    ∀ {id s c}, file.get? id = some s → c ∈ s.kind.childIds → rank c < rank id

theorem grounded_new (path text : String) : Grounded (.new path text) where
  child_lt h := by simp [new, get?] at h
  root_lt h := by simp [new] at h
  ranked := ⟨id, fun _ h => h, fun h => by simp [new, get?] at h⟩

theorem Grounded.addRoot {file : SourceFile} (hg : Grounded file) (id : StatementId) :
    Grounded (file.addRoot id) := by
  unfold SourceFile.addRoot
  split
  · rename_i hnew
    refine ⟨hg.child_lt, fun {r} hr => ?_, hg.ranked⟩
    rcases List.mem_append.mp hr with hr | hr
    · exact hg.root_lt hr
    · rw [List.mem_singleton.mp hr]
      exact file.has_iff.mp (Bool.and_eq_true_iff.mp hnew).1
  · exact hg

/-! ## Forests -/

/-- The links of an arena are those of a forest. -/
structure Forest (file : SourceFile) : Prop where
  /-- What is listed exists and knows who lists it. -/
  child_parent : ∀ {id s c}, file.get? id = some s → c ∈ s.kind.childIds →
    ∃ t, file.get? c = some t ∧ t.parent = some id
  /-- A parent link names a statement that lists this one. -/
  parent_child : ∀ {id s p}, file.get? id = some s → s.parent = some p →
    ∃ t, file.get? p = some t ∧ id ∈ t.kind.childIds
  children_nodup : ∀ {id s}, file.get? id = some s → s.kind.childIds.Nodup
  root_free : ∀ {id}, id ∈ file.roots → ∃ s, file.get? id = some s ∧ s.parent = none
  roots_nodup : file.roots.Nodup
  /-- No chain of children is longer than the arena. -/
  ranked : ∃ rank : StatementId → Nat, (∀ id < file.statementCount, rank id < file.statementCount) ∧
    ∀ {id s c}, file.get? id = some s → c ∈ s.kind.childIds → rank c < rank id

theorem forest_new (path text : String) : Forest (.new path text) where
  child_parent h := by simp [new, get?] at h
  parent_child h := by simp [new, get?] at h
  children_nodup h := by simp [new, get?] at h
  root_free h := by simp [new] at h
  roots_nodup := List.nodup_nil
  ranked := (grounded_new path text).ranked

theorem Forest.grounded {file : SourceFile} (hf : Forest file) : Grounded file where
  child_lt hs hc := by
    obtain ⟨t, ht, -⟩ := hf.child_parent hs hc
    exact file.lt_of_get? ht
  root_lt hid := by
    obtain ⟨s, hs, -⟩ := hf.root_free hid
    exact file.lt_of_get? hs
  ranked := hf.ranked

/-- What lists a statement is determined by it. -/
theorem Forest.parent_unique {file : SourceFile} (hf : Forest file) {p q c : StatementId}
    {s t : Statement} (hs : file.get? p = some s) (hc : c ∈ s.kind.childIds)
    (ht : file.get? q = some t) (hc' : c ∈ t.kind.childIds) : p = q := by
  obtain ⟨u, hu, hparent⟩ := hf.child_parent hs hc
  obtain ⟨v, hv, hparent'⟩ := hf.child_parent ht hc'
  obtain rfl := Option.some.inj (hu.symm.trans hv)
  exact Option.some.inj (hparent.symm.trans hparent')

/-- Statements that have no parent yet and are no roots either, each once. -/
structure Loose (file : SourceFile) (ids : List StatementId) : Prop where
  nodup : ids.Nodup
  free : ∀ id ∈ ids, ∃ s, file.get? id = some s ∧ s.parent = none
  no_root : ∀ id ∈ ids, id ∉ file.roots

theorem loose_nil (file : SourceFile) : Loose file [] :=
  ⟨List.nodup_nil, by simp, by simp⟩

theorem Loose.perm {file : SourceFile} {ids ids' : List StatementId} (h : Loose file ids)
    (hp : ids'.Perm ids) : Loose file ids' :=
  ⟨hp.nodup_iff.mpr h.nodup, fun id hid => h.free id (hp.mem_iff.mp hid),
    fun id hid => h.no_root id (hp.mem_iff.mp hid)⟩

theorem Loose.sublist {file : SourceFile} {ids ids' : List StatementId} (h : Loose file ids)
    (hsub : ids'.Sublist ids) : Loose file ids' :=
  ⟨hsub.nodup h.nodup, fun id hid => h.free id (hsub.subset hid),
    fun id hid => h.no_root id (hsub.subset hid)⟩

theorem Loose.addRoot_eq {file : SourceFile} {id : StatementId} {ids : List StatementId}
    (hl : Loose file (id :: ids)) :
    file.addRoot id = { file with roots := file.roots ++ [id] } := by
  obtain ⟨s, hs, -⟩ := hl.free id List.mem_cons_self
  have hhas : file.has id = true := file.has_iff.mpr (file.lt_of_get? hs)
  have hroot : id ∉ file.roots := hl.no_root id List.mem_cons_self
  simp [SourceFile.addRoot, hhas, hroot]

/-- A loose statement may become a root. -/
theorem Forest.addRoot {file : SourceFile} (hf : Forest file) {id : StatementId}
    {ids : List StatementId} (hl : Loose file (id :: ids)) :
    Forest (file.addRoot id) ∧ Loose (file.addRoot id) ids := by
  obtain ⟨hid, hids⟩ := List.nodup_cons.mp hl.nodup
  obtain ⟨s, hs, hfree⟩ := hl.free id List.mem_cons_self
  have hroot : id ∉ file.roots := hl.no_root id List.mem_cons_self
  rw [hl.addRoot_eq]
  refine ⟨⟨hf.child_parent, hf.parent_child, hf.children_nodup, fun {r} hr => ?_, ?_, hf.ranked⟩,
    hids, fun c hc => hl.free c (List.mem_cons_of_mem _ hc), fun c hc hmem => ?_⟩
  · rcases List.mem_append.mp hr with hr | hr
    · exact hf.root_free hr
    · obtain rfl := List.mem_singleton.mp hr
      exact ⟨s, hs, hfree⟩
  · exact List.nodup_append.mpr ⟨hf.roots_nodup, List.nodup_singleton id, fun a ha b hb =>
      List.mem_singleton.mp hb ▸ fun h => hroot (h ▸ ha)⟩
  · rcases List.mem_append.mp hmem with hmem | hmem
    · exact hl.no_root c (List.mem_cons_of_mem _ hc) hmem
    · exact hid (List.mem_singleton.mp hmem ▸ hc)

theorem Forest.addRoots {file : SourceFile} (hf : Forest file) {roots ids : List StatementId}
    (hl : Loose file (roots ++ ids)) :
    Forest (roots.foldl SourceFile.addRoot file) ∧
      Loose (roots.foldl SourceFile.addRoot file) ids := by
  induction roots generalizing file with
  | nil => exact ⟨hf, hl⟩
  | cons id rest ih =>
    obtain ⟨hf', hl'⟩ := hf.addRoot hl
    exact ih hf' hl'

theorem Forest.addRoots_eq {file : SourceFile} (hf : Forest file) {roots ids : List StatementId}
    (hl : Loose file (roots ++ ids)) :
    roots.foldl SourceFile.addRoot file = { file with roots := file.roots ++ roots } := by
  induction roots generalizing file with
  | nil => rw [List.append_nil]; rfl
  | cons id rest ih =>
    obtain ⟨hf', hl'⟩ := hf.addRoot hl
    rw [List.foldl_cons, ih hf' hl', Loose.addRoot_eq hl, List.append_assoc]
    rfl

/-! ## Growing -/

/-- Work on a file that leaves all statements as they were and adds new ones, of which `tops` have
no parent yet. -/
structure Grows (file file' : SourceFile) (tops : List StatementId) : Prop where
  count_le : file.statementCount ≤ file'.statementCount
  old : ∀ id < file.statementCount, file'.get? id = file.get? id
  roots : file'.roots = file.roots
  top : ∀ id ∈ tops, file.statementCount ≤ id ∧ ∃ s, file'.get? id = some s ∧ s.parent = none
  nodup : tops.Nodup
  forest : Forest file → Forest file'

namespace Grows

variable {file file' file'' : SourceFile} {tops tops' : List StatementId}

/-- Only statements and roots matter, not the text. -/
theorem of_eq (hs : file'.statements = file.statements) (hr : file'.roots = file.roots) :
    Grows file file' [] := by
  obtain ⟨_, _, statements, roots⟩ := file
  obtain ⟨_, _, _, _⟩ := file'
  obtain rfl : _ = statements := hs
  obtain rfl : _ = roots := hr
  exact ⟨Nat.le_refl _, fun _ _ => rfl, rfl, by simp, List.nodup_nil, fun h =>
    ⟨h.child_parent, h.parent_child, h.children_nodup, h.root_free, h.roots_nodup, h.ranked⟩⟩

theorem refl (file : SourceFile) : Grows file file [] := of_eq rfl rfl

theorem mono (h : Grows file file' tops) (hsub : tops' ⊆ tops) (hnodup : tops'.Nodup) :
    Grows file file' tops' :=
  { h with top := fun id hid => h.top id (hsub hid), nodup := hnodup }

theorem perm (h : Grows file file' tops) (hp : tops'.Perm tops) : Grows file file' tops' :=
  h.mono hp.subset (hp.nodup_iff.mpr h.nodup)

theorem lt_count (h : Grows file file' tops) {id : StatementId} (hid : id ∈ tops) :
    id < file'.statementCount := by
  obtain ⟨-, s, hs, -⟩ := h.top id hid
  exact file'.lt_of_get? hs

/-- One stretch of work after another. -/
theorem trans (h : Grows file file' tops) (h' : Grows file' file'' tops') :
    Grows file file'' (tops ++ tops') where
  count_le := Nat.le_trans h.count_le h'.count_le
  old id hid := by rw [h'.old id (Nat.lt_of_lt_of_le hid h.count_le), h.old id hid]
  roots := h'.roots.trans h.roots
  top id hid := by
    rcases List.mem_append.mp hid with hid | hid
    · rw [h'.old id (h.lt_count hid)]
      exact h.top id hid
    · obtain ⟨hle, hs⟩ := h'.top id hid
      exact ⟨Nat.le_trans h.count_le hle, hs⟩
  nodup := by
    refine List.nodup_append.mpr ⟨h.nodup, h'.nodup, fun a ha b hb hab => ?_⟩
    exact Nat.not_le.mpr (h.lt_count ha) (hab ▸ (h'.top b hb).1)
  forest hf := h'.forest (h.forest hf)

/-- What has grown behind some loose statements leaves them loose. -/
theorem loose (h : Grows file file' tops) (hf : Forest file) (hl : Loose file tops') :
    Loose file' (tops' ++ tops) := by
  have hlt : ∀ id ∈ tops', id < file.statementCount := fun id hid => by
    obtain ⟨s, hs, -⟩ := hl.free id hid
    exact file.lt_of_get? hs
  refine ⟨List.nodup_append.mpr ⟨hl.nodup, h.nodup, fun a ha b hb hab => ?_⟩, fun id hid => ?_,
    fun id hid => ?_⟩
  · exact Nat.not_le.mpr (hlt a ha) (hab ▸ (h.top b hb).1)
  · rcases List.mem_append.mp hid with hid | hid
    · rw [h.old id (hlt id hid)]; exact hl.free id hid
    · exact (h.top id hid).2
  · rw [h.roots]
    rcases List.mem_append.mp hid with hid | hid
    · exact hl.no_root id hid
    · intro hroot
      obtain ⟨s, hs, -⟩ := hf.root_free hroot
      exact Nat.not_le.mpr (file.lt_of_get? hs) (h.top id hid).1

end Grows

section Push

variable {file : SourceFile} {kind : StatementKind}

/-- The new statement ranks above all that were there. -/
theorem Grounded.push (hg : Grounded file) (span : Span)
    (hchildren : ∀ c ∈ kind.childIds, c < file.statementCount) :
    Grounded (file.push kind span).1 where
  child_lt := by
    intro id s' c h hc
    rw [statementCount_push]
    rcases file.push_cases kind span h with ⟨-, rfl⟩ | ⟨s, hs, rfl⟩
    · exact Nat.lt_succ_of_lt (hchildren c hc)
    · exact Nat.lt_succ_of_lt (hg.child_lt hs hc)
  root_lt := by
    intro id hid
    rw [roots_push] at hid
    rw [statementCount_push]
    exact Nat.lt_succ_of_lt (hg.root_lt hid)
  ranked := by
    obtain ⟨rank, hbound, hdec⟩ := hg.ranked
    refine ⟨fun id => if id = file.statementCount then file.statementCount else rank id,
      fun id hid => ?_, fun {id s' c} h hc => ?_⟩
    · rw [statementCount_push] at hid ⊢
      by_cases hnew : id = file.statementCount
      · simp [hnew]
      · have := hbound id (by omega)
        simp only [hnew, if_false]
        omega
    · rcases file.push_cases kind span h with ⟨rfl, rfl⟩ | ⟨s, hs, rfl⟩
      · have hc := hchildren c hc
        simp only [Nat.ne_of_lt hc, if_false, if_true]
        exact hbound c hc
      · simp only [Nat.ne_of_lt (hg.child_lt hs hc), Nat.ne_of_lt (file.lt_of_get? hs), if_false]
        exact hdec hs hc

/-- A statement pushed over loose statements keeps a forest a forest. -/
theorem Forest.push (hf : Forest file) (span : Span) (hl : Loose file kind.childIds) :
    Forest (file.push kind span).1 where
  child_parent := by
    intro id s' c h hc
    rcases file.push_cases kind span h with ⟨rfl, rfl⟩ | ⟨s, hs, rfl⟩
    · obtain ⟨t, ht, -⟩ := hl.free c hc
      exact ⟨_, file.get?_push_of_get? kind span ht, if_pos hc⟩
    · obtain ⟨t, ht, hparent⟩ := hf.child_parent hs hc
      -- What is listed already is not loose, so its link stays.
      have hnot : c ∉ kind.childIds := fun hmem => by
        obtain ⟨u, hu, hnone⟩ := hl.free c hmem
        obtain rfl := Option.some.inj (ht.symm.trans hu)
        exact absurd (hparent.symm.trans hnone) (by simp)
      exact ⟨_, file.get?_push_of_get? kind span ht, (if_neg hnot).trans hparent⟩
  parent_child := by
    intro id s' p h hparent
    rcases file.push_cases kind span h with ⟨rfl, rfl⟩ | ⟨s, hs, rfl⟩
    · cases hparent
    · dsimp only at hparent
      split at hparent
      · rename_i hc
        obtain rfl := Option.some.inj hparent
        exact ⟨_, file.get?_push_self kind span, hc⟩
      · obtain ⟨t, ht, hmem⟩ := hf.parent_child hs hparent
        exact ⟨_, file.get?_push_of_get? kind span ht, hmem⟩
  children_nodup := by
    intro id s' h
    rcases file.push_cases kind span h with ⟨-, rfl⟩ | ⟨s, hs, rfl⟩
    · exact hl.nodup
    · exact hf.children_nodup (s := s) hs
  root_free := by
    intro id hid
    rw [roots_push] at hid
    obtain ⟨s, hs, hnone⟩ := hf.root_free hid
    exact ⟨_, file.get?_push_of_get? kind span hs,
      (if_neg fun hc => hl.no_root id hc hid).trans hnone⟩
  roots_nodup := by
    rw [roots_push]
    exact hf.roots_nodup
  ranked := by
    refine (hf.grounded.push span fun c hc => ?_).ranked
    obtain ⟨t, ht, -⟩ := hl.free c hc
    exact file.lt_of_get? ht

end Push

/-- Among loose statements, a parent takes the place of its children. -/
theorem Loose.push {file : SourceFile} {kind : StatementKind} {rest : List StatementId}
    (hf : Forest file) (hl : Loose file (kind.childIds ++ rest)) (span : Span) :
    Loose (file.push kind span).1 ((file.push kind span).2 :: rest) := by
  obtain ⟨-, hrest, hdisjoint⟩ := List.nodup_append.mp hl.nodup
  have hold := fun {id : StatementId} (hid : id ∈ rest) =>
    hl.free id (List.mem_append_right kind.childIds hid)
  have hlt := fun {id : StatementId} (hid : id ∈ rest) =>
    file.lt_of_get? (hold hid).choose_spec.1
  refine ⟨List.nodup_cons.mpr ⟨fun hmem => Nat.lt_irrefl _ (hlt hmem), hrest⟩, fun id hid => ?_,
    fun id hid => ?_⟩
  · rcases List.mem_cons.mp hid with rfl | hid
    · exact ⟨_, get?_push_self .., rfl⟩
    · rw [get?_push_of_lt _ _ _ (hlt hid), if_neg fun hc => hdisjoint id hc id hid rfl]
      exact hold hid
  · rw [roots_push]
    rcases List.mem_cons.mp hid with rfl | hid
    · intro hroot
      obtain ⟨s, hs, -⟩ := hf.root_free hroot
      exact Nat.lt_irrefl _ (file.lt_of_get? hs)
    · exact hl.no_root id (List.mem_append_right _ hid)

/-- Pushing a statement over the first of the tops: it takes their place. -/
theorem Grows.push {file file' : SourceFile} {kind : StatementKind} {rest : List StatementId}
    (h : Grows file file' (kind.childIds ++ rest)) (span : Span) :
    Grows file (file'.push kind span).1 ((file'.push kind span).2 :: rest) := by
  obtain ⟨hnodup, hrest, hdisjoint⟩ := List.nodup_append.mp h.nodup
  have hlt := fun {id : StatementId} (hid : id ∈ kind.childIds ++ rest) => h.lt_count hid
  refine ⟨?_, fun id hid => ?_, ?_, fun id hid => ?_, ?_, fun hf => ?_⟩
  · rw [statementCount_push]; exact Nat.le_succ_of_le h.count_le
  · rw [get?_push_of_lt _ _ _ (Nat.lt_of_lt_of_le hid h.count_le), if_neg, h.old id hid]
    exact fun hc => Nat.not_le.mpr hid (h.top id (List.mem_append_left _ hc)).1
  · rw [roots_push, h.roots]
  · rcases List.mem_cons.mp hid with rfl | hid
    · exact ⟨h.count_le, _, get?_push_self .., rfl⟩
    · have hmem := List.mem_append_right kind.childIds hid
      rw [get?_push_of_lt _ _ _ (hlt hmem), if_neg fun hc => hdisjoint id hc id hid rfl]
      exact h.top id hmem
  · exact List.nodup_cons.mpr
      ⟨fun hmem => Nat.lt_irrefl _ (hlt (List.mem_append_right _ hmem)), hrest⟩
  · refine (h.forest hf).push span ⟨hnodup, fun id hid => (h.top id (List.mem_append_left _ hid)).2,
      fun id hid hroot => ?_⟩
    obtain ⟨s, hs, -⟩ := hf.root_free (h.roots ▸ hroot)
    exact Nat.not_le.mpr (file.lt_of_get? hs) (h.top id (List.mem_append_left _ hid)).1

end Foresight.SourceFile
