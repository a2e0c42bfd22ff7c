import Foresight.Proofs.CSharp.Trees
import Foresight.Proofs.Table

/-!
# Types of a file

The pass that collects declarations and the pass that lowers bodies go down from a type declaration
to the types in its body, each on its own. `Declares` says once which types that are: both passes
come to exactly these (`mem_declarationsOf`, `mem_bodiesOf`), and both give them the namespace of
the outermost one. So the type around a body that is lowered is one of the declared types, and its
declaration has all members that are written in it (`IsMember.mem_declarationOf`). An index that was
extended by the declaration has them too (`SymbolIndex.knows_addAll`): the parts of a type are
merged, and nothing is lost.
-/

namespace Foresight.CSharp

namespace Node

/-- The named nodes in the body of a type declaration. -/
def typeMembers (t : Node) : List Node :=
  match t.children.find? (isTypeBody t.children) with
  | some body => body.namedChildren
  | none => []

/-- A type declaration and those inside it, each in the body of the one around it. The types around
a type have names. -/
inductive Declares : (outer t : Node) → Prop where
  | self (t : Node) : Declares t t
  | inside {outer inner t : Node} : (outer.child? "name").isSome = true →
      inner ∈ outer.typeMembers → inner.declaresType = true → Declares inner t → Declares outer t

theorem sizeOf_lt_of_mem {n c : Node} (h : c ∈ n.children) : sizeOf c < sizeOf n := by
  cases n
  have := List.sizeOf_lt_of_mem h
  rw [mk.sizeOf_spec]
  dsimp only at this
  omega

theorem sizeOf_lt_of_mem_typeMembers {t m : Node} (h : m ∈ t.typeMembers) :
    sizeOf m < sizeOf t := by
  unfold typeMembers at h
  split at h
  · rename_i body hbody
    exact Nat.lt_trans (sizeOf_lt_of_mem (mem_of_mem_namedChildren h))
      (sizeOf_lt_of_mem (List.mem_of_find?_eq_some hbody))
  · cases h

end Node

variable {source namespace_ : String} {usings : List String}

/-! ## Declarations -/

theorem nestedDeclarations_eq (isBody : Node → Bool) (nodes : List Node) :
    nestedDeclarations source namespace_ usings isBody nodes =
      match nodes.find? isBody with
      | some body => declarationsOfAll source namespace_ usings body.children
      | none => [] := by
  induction nodes with
  | nil => rfl
  | cons n rest ih =>
    obtain ⟨kind, isNamed, field, start, stop, children⟩ := n
    rw [nestedDeclarations, ih, List.find?_cons]
    cases isBody ⟨kind, isNamed, field, start, stop, children⟩ <;> rfl

theorem declarationsOfAll_eq (nodes : List Node) :
    declarationsOfAll source namespace_ usings nodes =
      ((nodes.filter (·.isNamed)).filter (·.declaresType)).flatMap
        (declarationsOf source namespace_ usings) := by
  induction nodes with
  | nil => rfl
  | cons n rest ih =>
    rw [declarationsOfAll, ih]
    cases hnamed : n.isNamed <;> cases htype : n.declaresType <;> simp [hnamed, htype]

theorem declarationsOf_eq {n name : Node} (h : n.child? "name" = some name) :
    declarationsOf source namespace_ usings n =
      declarationOf source namespace_ usings n name ::
        (n.typeMembers.filter (·.declaresType)).flatMap
          (declarationsOf source namespace_ usings) := by
  obtain ⟨kind, isNamed, field, start, stop, children⟩ := n
  rw [declarationsOf, h]
  dsimp only
  rw [nestedDeclarations_eq, Node.typeMembers]
  cases children.find? (isTypeBody children) with
  | none => rfl
  | some body => exact congrArg _ (declarationsOfAll_eq body.children)

theorem declarationsOf_eq_nil {n : Node} (h : n.child? "name" = none) :
    declarationsOf source namespace_ usings n = [] := by
  obtain ⟨kind, isNamed, field, start, stop, children⟩ := n
  rw [declarationsOf, h]

/-- The declarations in a type are those of the types inside it that have a name. -/
theorem mem_declarationsOf {n : Node} {d : TypeDeclaration} :
    d ∈ declarationsOf source namespace_ usings n ↔
      ∃ t name, n.Declares t ∧ t.child? "name" = some name ∧
        d = declarationOf source namespace_ usings t name := by
  constructor
  · intro h
    cases hname : n.child? "name" with
    | none =>
      rw [declarationsOf_eq_nil hname] at h
      cases h
    | some name =>
      rw [declarationsOf_eq hname, List.mem_cons, List.mem_flatMap] at h
      rcases h with rfl | ⟨m, hm, hd⟩
      · exact ⟨n, name, .self n, hname, rfl⟩
      · -- The induction is on the size of the node, since members stand two levels further in.
        obtain ⟨hmem, htype⟩ := List.mem_filter.mp hm
        have := Node.sizeOf_lt_of_mem_typeMembers hmem
        obtain ⟨t, tname, ht, htname, rfl⟩ := mem_declarationsOf.mp hd
        exact ⟨t, tname, .inside (by rw [hname]; rfl) hmem htype ht, htname, rfl⟩
  · rintro ⟨t, name, ht, hname, rfl⟩
    induction ht with
    | self =>
      rw [declarationsOf_eq hname]
      exact List.mem_cons_self
    | inside houter hmem htype _ ih =>
      obtain ⟨outer, houter⟩ := Option.isSome_iff_exists.mp houter
      rw [declarationsOf_eq houter]
      exact List.mem_cons_of_mem _
        (List.mem_flatMap.mpr ⟨_, List.mem_filter.mpr ⟨hmem, htype⟩, ih hname⟩)
termination_by sizeOf n

/-! ## Bodies -/

/-- `b` is a body of a member of the type declaration `t`. -/
structure BodyIn (source namespace_ : String) (t : Node) (b : MemberBody) : Prop where
  type : ∃ name, t.child? "name" = some name ∧ b.type = ⟨namespace_, name.text source⟩
  member : b.member ∈ t.typeMembers
  isMember : b.member.declaresType = false
  body : b.body ∈ memberBodies b.member

theorem bodiesInBody_eq (type : QualifiedName) (isBody : Node → Bool) (nodes : List Node) :
    bodiesInBody source namespace_ type isBody nodes =
      match nodes.find? isBody with
      | some body => bodiesOfAll source namespace_ type body.children
      | none => [] := by
  induction nodes with
  | nil => rfl
  | cons n rest ih =>
    obtain ⟨kind, isNamed, field, start, stop, children⟩ := n
    rw [bodiesInBody, ih, List.find?_cons]
    cases isBody ⟨kind, isNamed, field, start, stop, children⟩ <;> rfl

theorem mem_bodiesOfAll {type : QualifiedName} {nodes : List Node} {b : MemberBody} :
    b ∈ bodiesOfAll source namespace_ type nodes ↔ ∃ m ∈ nodes.filter (·.isNamed),
      if m.declaresType then b ∈ bodiesOf source namespace_ m
      else b.type = type ∧ b.member = m ∧ b.body ∈ memberBodies m := by
  induction nodes with
  | nil => simp [bodiesOfAll]
  | cons n rest ih =>
    rw [bodiesOfAll, List.mem_append, ih]
    cases hnamed : n.isNamed with
    | false => simp [hnamed]
    | true =>
      rw [if_pos rfl, List.filter_cons_of_pos hnamed, List.exists_mem_cons_iff]
      refine or_congr_left ?_
      split
      · rfl
      · rw [List.mem_map]
        constructor
        · rintro ⟨body, hbody, rfl⟩
          exact ⟨rfl, rfl, hbody⟩
        · rintro ⟨rfl, rfl, hbody⟩
          exact ⟨b.body, hbody, rfl⟩

theorem mem_bodiesOf_iff {n name : Node} (h : n.child? "name" = some name) {b : MemberBody} :
    b ∈ bodiesOf source namespace_ n ↔ ∃ m ∈ n.typeMembers,
      if m.declaresType then b ∈ bodiesOf source namespace_ m
      else b.type = ⟨namespace_, name.text source⟩ ∧ b.member = m ∧ b.body ∈ memberBodies m := by
  obtain ⟨kind, isNamed, field, start, stop, children⟩ := n
  rw [bodiesOf, h]
  dsimp only
  rw [bodiesInBody_eq, Node.typeMembers]
  cases children.find? (isTypeBody children) with
  | none => simp
  | some body => exact mem_bodiesOfAll

theorem bodiesOf_eq_nil {n : Node} (h : n.child? "name" = none) :
    bodiesOf source namespace_ n = [] := by
  obtain ⟨kind, isNamed, field, start, stop, children⟩ := n
  rw [bodiesOf, h]

/-- The bodies in a type are those in the types inside it. -/
theorem mem_bodiesOf {n : Node} {b : MemberBody} :
    b ∈ bodiesOf source namespace_ n ↔ ∃ t, n.Declares t ∧ BodyIn source namespace_ t b := by
  constructor
  · intro h
    cases hname : n.child? "name" with
    | none =>
      rw [bodiesOf_eq_nil hname] at h
      cases h
    | some name =>
      obtain ⟨m, hm, hb⟩ := (mem_bodiesOf_iff hname).mp h
      have := Node.sizeOf_lt_of_mem_typeMembers hm
      split at hb
      · rename_i htype
        obtain ⟨t, ht, hbody⟩ := mem_bodiesOf.mp hb
        exact ⟨t, .inside (by rw [hname]; rfl) hm htype ht, hbody⟩
      · rename_i htype
        obtain ⟨htypeName, rfl, hbody⟩ := hb
        exact ⟨n, .self n, ⟨name, hname, htypeName⟩, hm, Bool.not_eq_true _ ▸ htype, hbody⟩
  · rintro ⟨t, ht, hb⟩
    induction ht with
    | self =>
      obtain ⟨name, hname, htype⟩ := hb.type
      refine (mem_bodiesOf_iff hname).mpr ⟨b.member, hb.member, ?_⟩
      rw [hb.isMember, if_neg Bool.false_ne_true]
      exact ⟨htype, rfl, hb.body⟩
    | inside houter hmem htype _ ih =>
      obtain ⟨outer, houter⟩ := Option.isSome_iff_exists.mp houter
      refine (mem_bodiesOf_iff houter).mpr ⟨_, hmem, ?_⟩
      rw [htype, if_pos rfl]
      exact ih hb
termination_by sizeOf n

/-! ## Members -/

/-- What the declarators in a node of the body of a type introduce. -/
def variableKind? (n : Node) : Option MemberKind :=
  if n.kind = "field_declaration" then some .field
  else if n.kind = "event_field_declaration" then some .event
  else none

/-- A member that is written in a type declaration: a method, a property, or a variable that a
declarator of a field or of an event introduces. -/
inductive IsMember (source : String) (t : Node) : (name : String) → MemberKind → Prop where
  | method {m name : Node} : m ∈ t.typeMembers → m.kind = "method_declaration" →
      m.child? "name" = some name → IsMember source t (name.text source) .method
  | property {m name : Node} : m ∈ t.typeMembers → m.kind = "property_declaration" →
      m.child? "name" = some name → IsMember source t (name.text source) .property
  | variable_ {m declaration declarator name : Node} {kind : MemberKind} : m ∈ t.typeMembers →
      variableKind? m = some kind →
      declaration ∈ m.namedChildren → declaration.kind = "variable_declaration" →
      declarator ∈ declaration.namedChildren → declarator.kind = "variable_declarator" →
      declaratorName? declarator = some name → IsMember source t (name.text source) kind

theorem declaredMembers_of_variableKind? {n : Node} {kind : MemberKind}
    (h : variableKind? n = some kind) :
    declaredMembers source n = (n.namedChildren.filter (·.kind == "variable_declaration")).flatMap
      (variableMembers source kind) := by
  unfold variableKind? at h
  split at h
  · rename_i hkind
    obtain rfl := Option.some.inj h
    simp [declaredMembers, hkind]
  · split at h
    · rename_i hkind
      obtain rfl := Option.some.inj h
      simp [declaredMembers, hkind]
    · cases h

theorem mem_filter_kind {n : Node} {nodes : List Node} {kind : String} (h : n ∈ nodes)
    (hkind : n.kind = kind) : n ∈ nodes.filter (·.kind == kind) :=
  List.mem_filter.mpr ⟨h, beq_iff_eq.mpr hkind⟩

theorem IsMember.exists_mem_declaredMembers {t : Node} {member : String} {kind : MemberKind}
    (h : IsMember source t member kind) : ∃ n ∈ t.typeMembers, ∃ m ∈ declaredMembers source n,
      m.name = member ∧ m.kind = kind := by
  cases h with
  | method hm hkind hname => exact ⟨_, hm, by simp [declaredMembers, hkind, hname]⟩
  | property hm hkind hname => exact ⟨_, hm, by simp [declaredMembers, hkind, hname]⟩
  | variable_ hm hkind hdeclaration hdeclared hdeclarator hdeclares hname =>
    refine ⟨_, hm, ?_⟩
    rw [declaredMembers_of_variableKind? hkind]
    have hnamed := List.mem_filterMap.mpr ⟨_, mem_filter_kind hdeclarator hdeclares, hname⟩
    exact ⟨_, List.mem_flatMap.mpr ⟨_, mem_filter_kind hdeclaration hdeclared,
      List.mem_map_of_mem hnamed⟩, rfl, rfl⟩

/-- The declaration of a type has all members that are written in it. -/
theorem IsMember.mem_declarationOf {t : Node} {member : String} {kind : MemberKind}
    (h : IsMember source t member kind) (name : Node) :
    ∃ m ∈ (declarationOf source namespace_ usings t name).members,
      m.name = member ∧ m.kind = kind := by
  obtain ⟨n, hn, m, hm, hsame⟩ := h.exists_mem_declaredMembers
  exact ⟨m, List.mem_flatMap.mpr ⟨n, hn, hm⟩, hsame⟩

/-! ## The types of a file -/

/-- A type declaration of a file, in its namespace. -/
def TypeIn (source : String) (root : Node) (namespace_ : String) (t : Node) : Prop :=
  ∃ outer, .type namespace_ outer ∈ sites source root ∧ outer.Declares t

theorem mem_declarations {root : Node} {d : TypeDeclaration} :
    d ∈ declarations source root ↔
      ∃ namespace_ t name, TypeIn source root namespace_ t ∧ t.child? "name" = some name ∧
        d = declarationOf source namespace_ (CSharp.usings source root) t name := by
  unfold declarations
  rw [List.mem_flatMap]
  constructor
  · rintro ⟨site, hsite, hd⟩
    cases site with
    | type namespace_ n =>
      obtain ⟨t, name, ht, hname, rfl⟩ := mem_declarationsOf.mp hd
      exact ⟨namespace_, t, name, ⟨n, hsite, ht⟩, hname, rfl⟩
    | statement => cases hd
  · rintro ⟨namespace_, t, name, ⟨n, hsite, ht⟩, hname, rfl⟩
    exact ⟨_, hsite, mem_declarationsOf.mpr ⟨t, name, ht, hname, rfl⟩⟩

/-- The type around a body is declared, with all members that are written in it. -/
theorem BodyIn.exists_mem_declarations {root t : Node} {b : MemberBody}
    (h : BodyIn source namespace_ t b) (ht : TypeIn source root namespace_ t) :
    ∃ d ∈ declarations source root, d.name = b.type ∧
      ∀ member kind, IsMember source t member kind → ∃ m ∈ d.members,
        m.name = member ∧ m.kind = kind := by
  obtain ⟨name, hname, htype⟩ := h.type
  exact ⟨_, mem_declarations.mpr ⟨namespace_, t, name, ht, hname, rfl⟩, htype.symm,
    fun _ _ hmember => hmember.mem_declarationOf name⟩

/-! ## In the index -/

namespace SymbolIndex

/-- Under the name of a declaration stands a type with all its members. -/
def Knows (index : SymbolIndex) (d : TypeDeclaration) : Prop :=
  ∃ whole, index.get? d.name.fullName = some whole ∧ d.members ⊆ whole.members

variable {index : SymbolIndex} {d : TypeDeclaration}

theorem get?_add (index : SymbolIndex) (d : TypeDeclaration) (name : String) :
    (index.add d).get? name = if name = d.name.fullName then
      some (match index.get? d.name.fullName with
        | some existing => existing.merge d
        | none => d)
    else index.get? name :=
  Table.get?_insert ..

theorem knows_add (index : SymbolIndex) (d : TypeDeclaration) : (index.add d).Knows d := by
  refine ⟨_, by rw [get?_add, if_pos rfl], ?_⟩
  split
  · exact List.subset_append_right ..
  · exact List.Subset.refl _

/-- Merging the parts of a type loses no member. -/
theorem Knows.add (h : index.Knows d) (other : TypeDeclaration) : (index.add other).Knows d := by
  obtain ⟨whole, hwhole, hmembers⟩ := h
  unfold Knows
  rw [get?_add]
  split
  · rename_i hname
    rw [← hname, hwhole]
    exact ⟨_, rfl, List.subset_append_of_subset_left _ hmembers⟩
  · exact ⟨whole, hwhole, hmembers⟩

theorem Knows.addAll (h : index.Knows d) (declarations : List TypeDeclaration) :
    (index.addAll declarations).Knows d := by
  induction declarations generalizing index with
  | nil => exact h
  | cons other rest ih => exact ih (h.add other)

theorem knows_addAll (index : SymbolIndex) {declarations : List TypeDeclaration}
    (h : d ∈ declarations) : (index.addAll declarations).Knows d := by
  induction declarations generalizing index with
  | nil => cases h
  | cons other rest ih =>
    rcases List.mem_cons.mp h with rfl | h
    · exact (knows_add index d).addAll rest
    · exact ih _ h

theorem Knows.exists_declaredMember? (h : index.Knows d) {m : MemberDeclaration}
    (hm : m ∈ d.members) : ∃ m', index.declaredMember? d.name m.name = some m' := by
  obtain ⟨whole, hwhole, hmembers⟩ := h
  have hfound : (whole.member? m.name).isSome = true :=
    List.find?_isSome.mpr ⟨m, hmembers hm, beq_self_eq_true m.name⟩
  obtain ⟨m', hm'⟩ := Option.isSome_iff_exists.mp hfound
  exact ⟨m', by rw [declaredMember?, hwhole]; exact hm'⟩

end SymbolIndex

end Foresight.CSharp
