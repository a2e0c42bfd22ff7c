import Foresight.Proofs.Code.Forest

/-!
# Paths from the roots

A file is rooted if all statements without a parent are roots. In a rooted forest every statement
has one way up, so there is exactly one path to it from a root (`Forest.existsUnique_descent`), and
the walk, which follows all paths from the roots, meets it once (`Forest.walk_perm`).

Along the growth of a file nothing may be forgotten for this: `Covers file file' tops` says that
`tops` are all the new statements without a parent, where `Grows` says only that they are some.
-/

namespace Foresight.SourceFile

/-- A chain of statements that begins with a root and ends with `id`, each listed by the one before
it. -/
inductive Descent (file : SourceFile) : (id : StatementId) → (path : List StatementId) → Prop where
  | root {id : StatementId} : id ∈ file.roots → Descent file id [id]
  | child {parent id : StatementId} {s : Statement} {path : List StatementId} :
      Descent file parent path → file.get? parent = some s → id ∈ s.kind.childIds →
      Descent file id (path ++ [id])

/-- A statement without a parent is a root. -/
def Rooted (file : SourceFile) : Prop :=
  ∀ id s, file.get? id = some s → s.parent = none → id ∈ file.roots

variable {file file' file'' : SourceFile} {tops tops' : List StatementId}

namespace Forest

/-- A root is listed nowhere. -/
theorem not_mem_childIds_of_root (hf : Forest file) {id parent : StatementId} {s : Statement}
    (hroot : id ∈ file.roots) (hs : file.get? parent = some s) : id ∉ s.kind.childIds := by
  intro hmem
  obtain ⟨t, ht, hparent⟩ := hf.child_parent hs hmem
  obtain ⟨u, hu, hnone⟩ := hf.root_free hroot
  obtain rfl := Option.some.inj (ht.symm.trans hu)
  rw [hnone] at hparent
  cases hparent

theorem lt_of_descent (hf : Forest file) {id : StatementId} {path : List StatementId}
    (h : Descent file id path) : id < file.statementCount := by
  cases h with
  | root hroot =>
    obtain ⟨s, hs, -⟩ := hf.root_free hroot
    exact file.lt_of_get? hs
  | child _ hs hc =>
    obtain ⟨t, ht, -⟩ := hf.child_parent hs hc
    exact file.lt_of_get? ht

theorem descent_unique (hf : Forest file) {id : StatementId} {path path' : List StatementId}
    (h : Descent file id path) (h' : Descent file id path') : path = path' := by
  induction h generalizing path' with
  | root hroot =>
    cases h' with
    | root => rfl
    | child _ hs hmem => exact absurd hmem (hf.not_mem_childIds_of_root hroot hs)
  | child _ hs hmem ih =>
    cases h' with
    | root hroot => exact absurd hmem (hf.not_mem_childIds_of_root hroot hs)
    | child hpath hs' hmem' =>
      obtain rfl := hf.parent_unique hs hmem hs' hmem'
      rw [ih hpath]

/-- The way up from a statement ends, since every step of it goes to a higher rank. -/
theorem exists_descent (hf : Forest file) (hr : Rooted file) {id : StatementId}
    (h : id < file.statementCount) : ∃ path, Descent file id path := by
  obtain ⟨rank, hbound, hrank⟩ := hf.ranked
  induction hn : file.statementCount - rank id using Nat.strongRecOn generalizing id with
  | ind n ih =>
    obtain ⟨s, hs⟩ := file.exists_get? h
    cases hparent : s.parent with
    | none => exact ⟨[id], .root (hr _ _ hs hparent)⟩
    | some p =>
      obtain ⟨t, ht, hmem⟩ := hf.parent_child hs hparent
      have hlt := hrank ht hmem
      have hp := hbound p (file.lt_of_get? ht)
      obtain ⟨path, hpath⟩ := ih _ (by omega) (file.lt_of_get? ht) rfl
      exact ⟨path ++ [id], .child hpath ht hmem⟩

/-- There is exactly one path to every statement of a rooted forest. -/
theorem existsUnique_descent (hf : Forest file) (hr : Rooted file) {id : StatementId}
    (h : id < file.statementCount) : ∃! path, Descent file id path := by
  obtain ⟨path, hpath⟩ := hf.exists_descent hr h
  exact ⟨path, hpath, fun _ h' => hf.descent_unique h' hpath⟩

/-! ## The walk -/

/-- What a pre-order lists lies on a way through its first statement. -/
theorem exists_descent_of_mem_preorder {bound : Nat} {id c : StatementId}
    {path : List StatementId} (h : Descent file id path) (hc : c ∈ file.preorder bound id) :
    ∃ more, Descent file c (path ++ more) := by
  induction bound generalizing id path with
  | zero => cases hc
  | succ bound ih =>
    rw [SourceFile.preorder] at hc
    split at hc
    · cases hc
    · rename_i s hs
      rcases List.mem_cons.mp hc with rfl | hc
      · exact ⟨[], by rwa [List.append_nil]⟩
      · obtain ⟨child, hchild, hmem⟩ := List.mem_flatMap.mp hc
        obtain ⟨more, hmore⟩ := ih (h.child hs hchild) hmem
        exact ⟨child :: more, by rwa [List.append_assoc] at hmore⟩

/-- Below two statements that are equally far from the roots there is nothing in common. -/
theorem disjoint_preorder (hf : Forest file) {bound : Nat} {a b : StatementId}
    {path path' : List StatementId} (ha : Descent file a (path ++ [a]))
    (hb : Descent file b (path' ++ [b])) (hlength : path.length = path'.length) (hne : a ≠ b) :
    (file.preorder bound a).Disjoint (file.preorder bound b) := by
  intro c hca hcb
  obtain ⟨more, hmore⟩ := exists_descent_of_mem_preorder ha hca
  obtain ⟨more', hmore'⟩ := exists_descent_of_mem_preorder hb hcb
  have heq := hf.descent_unique hmore hmore'
  rw [List.append_assoc, List.append_assoc] at heq
  obtain ⟨-, htail⟩ := List.append_inj heq hlength
  exact hne (List.cons.inj htail).1

theorem nodup_preorder (hf : Forest file) {bound : Nat} {id : StatementId}
    {path : List StatementId} (h : Descent file id path) : (file.preorder bound id).Nodup := by
  induction bound generalizing id path with
  | zero => exact List.nodup_nil
  | succ bound ih =>
    rw [SourceFile.preorder]
    split
    · exact List.nodup_nil
    · rename_i s hs
      refine List.nodup_cons.mpr ⟨fun hmem => ?_, List.nodup_flatMap.mpr ⟨?_, ?_⟩⟩
      · obtain ⟨child, hchild, hmem⟩ := List.mem_flatMap.mp hmem
        obtain ⟨more, hmore⟩ := exists_descent_of_mem_preorder (h.child hs hchild) hmem
        have hlength := congrArg List.length (hf.descent_unique h hmore)
        simp only [List.length_append, List.length_singleton] at hlength
        omega
      · intro child hchild
        exact ih (h.child hs hchild)
      · refine (hf.children_nodup hs).imp_of_mem fun ha hb hne => ?_
        exact hf.disjoint_preorder (h.child hs ha) (h.child hs hb) rfl hne

end Forest

namespace Grounded

/-- A pre-order that is long enough holds the children of what it holds. -/
theorem child_mem_preorder {rank : StatementId → Nat}
    (hrank : ∀ {id s c}, file.get? id = some s → c ∈ s.kind.childIds → rank c < rank id)
    (hg : Grounded file) {bound : Nat} {top id c : StatementId} {s : Statement}
    (hbound : rank top < bound) (hmem : id ∈ file.preorder bound top)
    (hs : file.get? id = some s) (hc : c ∈ s.kind.childIds) :
    c ∈ file.preorder bound top := by
  induction bound generalizing top with
  | zero => cases hmem
  | succ bound ih =>
    rw [SourceFile.preorder] at hmem ⊢
    split at hmem
    · cases hmem
    · rename_i t ht
      refine List.mem_cons_of_mem _ (List.mem_flatMap.mpr ?_)
      rcases List.mem_cons.mp hmem with rfl | hmem
      · obtain rfl := Option.some.inj (hs.symm.trans ht)
        obtain ⟨u, hu⟩ := file.exists_get? (hg.child_lt hs hc)
        have hlt := hrank hs hc
        obtain ⟨bound, rfl⟩ : ∃ n, bound = n + 1 := ⟨bound - 1, by omega⟩
        exact ⟨c, hc, by rw [SourceFile.preorder, hu]; exact List.mem_cons_self⟩
      · obtain ⟨child, hchild, hmem⟩ := List.mem_flatMap.mp hmem
        have hlt := hrank ht hchild
        exact ⟨child, hchild, ih (by omega) hmem⟩

theorem mem_walk_of_descent (hg : Grounded file) {id : StatementId} {path : List StatementId}
    (h : Descent file id path) : id ∈ file.walk := by
  obtain ⟨rank, hbound, hrank⟩ := hg.ranked
  induction h with
  | @root id hid =>
    have hlt := hg.root_lt hid
    obtain ⟨s, hs⟩ := file.exists_get? hlt
    refine List.mem_flatMap.mpr ⟨id, hid, ?_⟩
    obtain ⟨n, hn⟩ : ∃ n, file.statementCount = n + 1 :=
      ⟨_, (Nat.succ_pred_eq_of_pos (Nat.zero_lt_of_lt hlt)).symm⟩
    rw [hn, SourceFile.preorder, hs]
    exact List.mem_cons_self
  | child _ hs hc ih =>
    obtain ⟨top, htop, hmem⟩ := List.mem_flatMap.mp ih
    exact List.mem_flatMap.mpr
      ⟨top, htop, child_mem_preorder hrank hg (hbound top (hg.root_lt htop)) hmem hs hc⟩

end Grounded

/-- Whatever the walk lists can be reached from a root. -/
theorem exists_descent_of_mem_walk {id : StatementId} (h : id ∈ file.walk) :
    ∃ path, Descent file id path := by
  obtain ⟨top, htop, hmem⟩ := List.mem_flatMap.mp h
  obtain ⟨more, hmore⟩ := Forest.exists_descent_of_mem_preorder (.root htop) hmem
  exact ⟨_, hmore⟩

namespace Forest

theorem nodup_walk (hf : Forest file) : file.walk.Nodup := by
  refine List.nodup_flatMap.mpr ⟨fun top htop => hf.nodup_preorder (.root htop), ?_⟩
  have hroot : ∀ {top}, top ∈ file.roots → Descent file top ([] ++ [top]) := .root
  refine hf.roots_nodup.imp_of_mem fun ha hb hne => ?_
  exact hf.disjoint_preorder (hroot ha) (hroot hb) rfl hne

/-- The walk over a rooted forest meets every statement once. -/
theorem walk_perm (hf : Forest file) (hr : Rooted file) :
    file.walk.Perm (List.range file.statementCount) := by
  refine (List.perm_ext_iff_of_nodup hf.nodup_walk List.nodup_range).mpr fun id => ?_
  rw [List.mem_range]
  constructor
  · intro hmem
    obtain ⟨path, hpath⟩ := exists_descent_of_mem_walk hmem
    exact hf.lt_of_descent hpath
  · intro hlt
    obtain ⟨path, hpath⟩ := hf.exists_descent hr hlt
    exact hf.grounded.mem_walk_of_descent hpath

end Forest

/-! ## Growth that forgets nothing -/

/-- All new statements without a parent are among `tops`. -/
def Covers (file file' : SourceFile) (tops : List StatementId) : Prop :=
  ∀ id s, file.statementCount ≤ id → file'.get? id = some s → s.parent = none → id ∈ tops

namespace Covers

theorem of_eq (h : file'.statements = file.statements) : Covers file file' tops := by
  intro id s hid hs _
  have hlt : id < file'.statementCount := file'.lt_of_get? hs
  rw [statementCount, h] at hlt
  exact absurd hlt (Nat.not_lt.mpr hid)

theorem mono (h : Covers file file' tops) (hsub : tops ⊆ tops') : Covers file file' tops' :=
  fun _ _ hid hs hnone => hsub (h _ _ hid hs hnone)

theorem trans (h : Covers file file' tops) (hg : Grows file' file'' tops')
    (h' : Covers file' file'' tops') : Covers file file'' (tops ++ tops') := by
  intro id s hid hs hnone
  rcases Nat.lt_or_ge id file'.statementCount with hlt | hge
  · rw [hg.old id hlt] at hs
    exact List.mem_append_left _ (h id s hid hs hnone)
  · exact List.mem_append_right _ (h' id s hge hs hnone)

/-- A parent takes the place of its children. -/
theorem push {kind : StatementKind} {rest : List StatementId}
    (h : Covers file file' (kind.childIds ++ rest)) (span : Span) :
    Covers file (file'.push kind span).1 ((file'.push kind span).2 :: rest) := by
  intro id s hid hs hnone
  rcases file'.push_cases kind span hs with ⟨rfl, -⟩ | ⟨t, ht, rfl⟩
  · exact List.mem_cons_self
  · dsimp only at hnone
    split at hnone
    · cases hnone
    · rename_i hnot
      rcases List.mem_append.mp (h _ _ hid ht hnone) with hmem | hmem
      · exact absurd hmem hnot
      · exact List.mem_cons_of_mem _ hmem

end Covers

end Foresight.SourceFile
