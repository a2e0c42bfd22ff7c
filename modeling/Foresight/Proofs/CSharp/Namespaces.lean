import Foresight.Proofs.CSharp.References

/-!
# Namespaces of a file

Both passes start from the sites of a file, and a site has the namespace in which it stands. Only
the entries of a container count there (`sitesOfAll_eq`), so a file-scoped namespace declaration
with types among its children is the same as a block around these types (`fileScoped_as_block`).
A tree may also have the types behind the declaration, as its siblings. The namespace is passed on
to children only, and then they are left in the global one (`following_class_is_global`).
-/

namespace Foresight.CSharp

/-! ## Entries of a container -/

/-- The kinds of nodes that count in a container. -/
def entryKinds : List String :=
  ["using_directive", "namespace_declaration", "file_scoped_namespace_declaration",
    "declaration_list", "global_statement"] ++ typeKinds

namespace Node

/-- What a container holds, without the name and the tokens of its head. -/
def isEntry (n : Node) : Bool := n.isNamed && entryKinds.contains n.kind

def entries (n : Node) : List Node := n.children.filter isEntry

theorem mem_entries_of_declaresType {n t : Node} (h : t ∈ n.namedChildren)
    (htype : t.declaresType = true) : t ∈ n.entries := by
  obtain ⟨hmem, hnamed⟩ := List.mem_filter.mp h
  refine List.mem_filter.mpr ⟨hmem, ?_⟩
  rw [isEntry, hnamed, Bool.true_and, List.contains_iff_mem]
  exact List.mem_append_right _ (List.contains_iff_mem.mp htype)

end Node

section Entries

variable {source namespace_ : String} {n name body : Node}

theorem sitesOf_eq_nil (h : entryKinds.contains n.kind = false) :
    sitesOf source namespace_ n = [] := by
  obtain ⟨kind, isNamed, field, start, stop, children⟩ := n
  simp only [entryKinds, typeKinds, List.contains_eq_mem, List.mem_append, List.mem_cons,
    List.not_mem_nil, decide_eq_false_iff_not, not_or] at h
  simp [sitesOf, Node.declaresType, typeKinds, h]

theorem usingsOf_eq_nil (h : entryKinds.contains n.kind = false) : usingsOf source n = [] := by
  obtain ⟨kind, isNamed, field, start, stop, children⟩ := n
  simp only [entryKinds, typeKinds, List.contains_eq_mem, List.mem_append, List.mem_cons,
    List.not_mem_nil, decide_eq_false_iff_not, not_or] at h
  simp [usingsOf, h]

/-- Of the nodes in a container, only the entries count. -/
theorem flatMap_entries_cons {α : Type} {f : Node → List α}
    (h : ∀ n, entryKinds.contains n.kind = false → f n = []) (n : Node) (rest : List Node) :
    (if n.isNamed then f n else []) ++ (rest.filter Node.isEntry).flatMap f =
      ((n :: rest).filter Node.isEntry).flatMap f := by
  rw [List.filter_cons, Node.isEntry]
  cases n.isNamed with
  | false => rfl
  | true =>
    cases hkind : entryKinds.contains n.kind with
    | false =>
      rw [if_pos rfl, h n hkind, Bool.and_false, if_neg Bool.false_ne_true, List.nil_append]
    | true => rw [if_pos rfl, Bool.and_true, if_pos rfl, List.flatMap_cons]

theorem sitesOfAll_eq (nodes : List Node) : sitesOfAll source namespace_ nodes =
    (nodes.filter Node.isEntry).flatMap (sitesOf source namespace_) := by
  induction nodes with
  | nil => rfl
  | cons n rest ih => rw [sitesOfAll, ih, flatMap_entries_cons fun _ => sitesOf_eq_nil]

theorem usingsOfAll_eq (nodes : List Node) :
    usingsOfAll source nodes = (nodes.filter Node.isEntry).flatMap (usingsOf source) := by
  induction nodes with
  | nil => rfl
  | cons n rest ih => rw [usingsOfAll, ih, flatMap_entries_cons fun _ => usingsOf_eq_nil]

theorem sitesOfAll_append (nodes more : List Node) :
    sitesOfAll source namespace_ (nodes ++ more) =
      sitesOfAll source namespace_ nodes ++ sitesOfAll source namespace_ more := by
  rw [sitesOfAll_eq, List.filter_append, List.flatMap_append, ← sitesOfAll_eq, ← sitesOfAll_eq]

theorem usingsOfAll_append (nodes more : List Node) :
    usingsOfAll source (nodes ++ more) = usingsOfAll source nodes ++ usingsOfAll source more := by
  rw [usingsOfAll_eq, List.filter_append, List.flatMap_append, ← usingsOfAll_eq, ← usingsOfAll_eq]

theorem sitesInBody_eq (nodes : List Node) : sitesInBody source namespace_ nodes =
    match nodes.find? (·.field == "body") with
    | some body => sitesOfAll source namespace_ body.children
    | none => [] := by
  induction nodes with
  | nil => rfl
  | cons n rest ih =>
    obtain ⟨kind, isNamed, field, start, stop, children⟩ := n
    rw [sitesInBody, ih, List.find?_cons]
    dsimp only
    cases field == "body" <;> rfl

theorem usingsInBody_eq (nodes : List Node) : usingsInBody source nodes =
    match nodes.find? (·.field == "body") with
    | some body => usingsOfAll source body.children
    | none => [] := by
  induction nodes with
  | nil => rfl
  | cons n rest ih =>
    obtain ⟨kind, isNamed, field, start, stop, children⟩ := n
    rw [usingsInBody, ih, List.find?_cons]
    dsimp only
    cases field == "body" <;> rfl

theorem sitesOf_of_declaresType (h : n.declaresType = true) :
    sitesOf source namespace_ n = [.type namespace_ n] := by
  obtain ⟨kind, isNamed, field, start, stop, children⟩ := n
  have hkind : kind ∈ typeKinds := List.contains_iff_mem.mp h
  have hnot : ∀ other ∉ typeKinds, (kind == other) = false := fun other hother =>
    beq_false_of_ne fun heq => hother (heq ▸ hkind)
  rw [sitesOf, hnot _ (by decide), hnot _ (by decide), hnot _ (by decide), h]
  rfl

theorem mem_flatMap_sitesOf {nodes : List Node} (hn : n ∈ nodes) (h : n.declaresType = true) :
    .type namespace_ n ∈ nodes.flatMap (sitesOf source namespace_) :=
  List.mem_flatMap.mpr ⟨n, hn, by rw [sitesOf_of_declaresType h]; exact List.mem_singleton_self _⟩

theorem joinNamespace_empty (inner : String) : joinNamespace "" inner = inner := rfl

/-! ## The two forms of a namespace -/

theorem sitesOf_fileScoped (hkind : n.kind = "file_scoped_namespace_declaration")
    (hname : n.child? "name" = some name) :
    sitesOf source namespace_ n =
      n.entries.flatMap (sitesOf source (joinNamespace namespace_ (name.text source))) := by
  obtain ⟨kind, isNamed, field, start, stop, children⟩ := n
  obtain rfl : kind = "file_scoped_namespace_declaration" := hkind
  rw [sitesOf, if_neg (by decide), if_pos (by decide), hname]
  exact sitesOfAll_eq children

theorem usingsOf_fileScoped (hkind : n.kind = "file_scoped_namespace_declaration") :
    usingsOf source n = n.entries.flatMap (usingsOf source) := by
  obtain ⟨kind, isNamed, field, start, stop, children⟩ := n
  obtain rfl : kind = "file_scoped_namespace_declaration" := hkind
  rw [usingsOf, if_neg (by decide), if_neg (by decide), if_pos (by decide)]
  exact usingsOfAll_eq children

theorem sitesOf_block (hkind : n.kind = "namespace_declaration")
    (hname : n.child? "name" = some name) (hbody : n.child? "body" = some body) :
    sitesOf source namespace_ n =
      body.entries.flatMap (sitesOf source (joinNamespace namespace_ (name.text source))) := by
  obtain ⟨kind, isNamed, field, start, stop, children⟩ := n
  obtain rfl : kind = "namespace_declaration" := hkind
  have hfind : children.find? (·.field == "body") = some body := hbody
  rw [sitesOf, if_pos (by decide), hname]
  dsimp only
  rw [sitesInBody_eq, hfind]
  exact sitesOfAll_eq body.children

theorem usingsOf_block (hkind : n.kind = "namespace_declaration")
    (hbody : n.child? "body" = some body) :
    usingsOf source n = body.entries.flatMap (usingsOf source) := by
  obtain ⟨kind, isNamed, field, start, stop, children⟩ := n
  obtain rfl : kind = "namespace_declaration" := hkind
  have hfind : children.find? (·.field == "body") = some body := hbody
  rw [usingsOf, if_neg (by decide), if_pos (by decide), usingsInBody_eq, hfind]
  exact usingsOfAll_eq body.children

end Entries

/-- A file-scoped namespace with entries of its own, and a block of the same name around the same
entries. -/
structure SameNamespace (source : String) (fileScoped block : Node) (namespace_ : String) :
    Prop where
  fileScoped_kind : fileScoped.kind = "file_scoped_namespace_declaration"
  fileScoped_named : fileScoped.isNamed = true
  fileScoped_name : ∃ name, fileScoped.child? "name" = some name ∧ name.text source = namespace_
  block_kind : block.kind = "namespace_declaration"
  block_named : block.isNamed = true
  block_name : ∃ name, block.child? "name" = some name ∧ name.text source = namespace_
  entries : ∃ body, block.child? "body" = some body ∧ body.entries = fileScoped.entries

namespace SameNamespace

variable {source namespace_ : String} {fileScoped block : Node}

theorem sitesOf_eq (h : SameNamespace source fileScoped block namespace_) (outer : String) :
    sitesOf source outer fileScoped = sitesOf source outer block := by
  obtain ⟨name, hname, htext⟩ := h.fileScoped_name
  obtain ⟨name', hname', htext'⟩ := h.block_name
  obtain ⟨body, hbody, hentries⟩ := h.entries
  rw [sitesOf_fileScoped h.fileScoped_kind hname, sitesOf_block h.block_kind hname' hbody, htext,
    htext', hentries]

theorem usingsOf_eq (h : SameNamespace source fileScoped block namespace_) :
    usingsOf source fileScoped = usingsOf source block := by
  obtain ⟨body, hbody, hentries⟩ := h.entries
  rw [usingsOf_fileScoped h.fileScoped_kind, usingsOf_block h.block_kind hbody, hentries]

variable {root other : Node} {before after : List Node}
  (hroot : root.children = before ++ fileScoped :: after)
  (hother : other.children = before ++ block :: after)

include hroot hother

theorem sites_eq (h : SameNamespace source fileScoped block namespace_) :
    sites source root = sites source other := by
  rw [sites, sites, hroot, hother, sitesOfAll_append, sitesOfAll_append, sitesOfAll, sitesOfAll,
    h.sitesOf_eq, h.fileScoped_named, h.block_named]

theorem usings_eq (h : SameNamespace source fileScoped block namespace_) :
    usings source root = usings source other := by
  rw [usings, usings, hroot, hother, usingsOfAll_append, usingsOfAll_append, usingsOfAll,
    usingsOfAll, h.usingsOf_eq, h.fileScoped_named, h.block_named]

end SameNamespace

/-! ## Types and their namespaces -/

/-- A type declaration counts to a namespace in both passes: the types that it declares are declared
there, and all bodies in it are lowered there. -/
structure CountsTo (source : String) (root : Node) (namespace_ : String) (t : Node) : Prop where
  declared : ∀ d ∈ declarationsOf source namespace_ (usings source root) t,
    d ∈ declarations source root ∧ d.name.namespace_ = namespace_
  lowered : ∀ b ∈ bodiesOf source namespace_ t, b.type.namespace_ = namespace_ ∧
    ∀ path index, ∃ l, Reaches path source index root b l

theorem countsTo_of_mem_sites {source namespace_ : String} {root t : Node}
    (h : .type namespace_ t ∈ sites source root) : CountsTo source root namespace_ t where
  declared := by
    intro d hd
    refine ⟨List.mem_flatMap.mpr ⟨_, h, hd⟩, ?_⟩
    obtain ⟨_, _, -, -, rfl⟩ := mem_declarationsOf.mp hd
    rfl
  lowered := by
    intro b hb
    obtain ⟨u, -, hbody⟩ := mem_bodiesOf.mp hb
    obtain ⟨name, -, htype⟩ := hbody.type
    refine ⟨by rw [htype], fun path index => ?_⟩
    obtain ⟨before, after, hsites⟩ := List.append_of_mem h
    obtain ⟨done, rest, hbodies⟩ := List.append_of_mem hb
    exact ⟨_, before, namespace_, t, after, done, rest, hsites, hbodies, rfl⟩

/-- A type declaration that is a child of the compilation unit counts to the global namespace,
whatever stands before it. -/
theorem countsTo_global {source : String} {root t : Node} (ht : t ∈ root.namedChildren)
    (htype : t.declaresType = true) : CountsTo source root "" t := by
  refine countsTo_of_mem_sites ?_
  rw [sites, sitesOfAll_eq]
  exact mem_flatMap_sitesOf (Node.mem_entries_of_declaresType ht htype) htype

/-- Types that are children of a file-scoped namespace declaration count to its namespace, exactly
as the same types in a block of that namespace do. Types that follow the declaration do not. -/
theorem fileScoped_as_block {source namespace_ : String} {root other fileScoped block : Node}
    {before after : List Node} (h : SameNamespace source fileScoped block namespace_)
    (hroot : root.children = before ++ fileScoped :: after)
    (hother : other.children = before ++ block :: after) :
    declarations source root = declarations source other ∧
      (∀ path index, lowerFile path source index root = lowerFile path source index other) ∧
      (∀ t ∈ fileScoped.namedChildren, t.declaresType = true →
        CountsTo source root namespace_ t) ∧
      ∀ t ∈ after, t.isNamed = true → t.declaresType = true → CountsTo source root "" t := by
  have hsites := h.sites_eq hroot hother
  have husings := h.usings_eq hroot hother
  refine ⟨?_, fun path index => ?_, fun t ht htype => ?_, fun t ht hnamed htype => ?_⟩
  · rw [declarations, hsites, husings, declarations]
  · rw [lowerFile, hsites, husings, lowerFile]
  · obtain ⟨name, hname, htext⟩ := h.fileScoped_name
    refine countsTo_of_mem_sites ?_
    rw [sites, hroot, sitesOfAll_append, sitesOfAll, h.fileScoped_named, if_pos rfl,
      sitesOf_fileScoped h.fileScoped_kind hname, htext, joinNamespace_empty]
    have hsite : Site.type namespace_ t ∈ fileScoped.entries.flatMap (sitesOf source namespace_) :=
      mem_flatMap_sitesOf (Node.mem_entries_of_declaresType ht htype) htype
    exact List.mem_append_right _ (List.mem_append_left _ hsite)
  · have hchild : t ∈ root.children := by
      rw [hroot]
      exact List.mem_append_right _ (List.mem_cons_of_mem _ ht)
    exact countsTo_global (List.mem_filter.mpr ⟨hchild, hnamed⟩) htype

def namespaceSource : String := "namespace N;\nclass A { }"

/-- The name and the class of that source, in a tree of either form. -/
def namespaceName : Node := ⟨"identifier", true, "name", 10, 11, []⟩

def namespaceClass : Node :=
  ⟨"class_declaration", true, "", 13, 24,
    [⟨"identifier", true, "name", 19, 20, []⟩, ⟨"declaration_list", true, "body", 21, 24, []⟩]⟩

def fileScopedNode (types : List Node) : Node :=
  ⟨"file_scoped_namespace_declaration", true, "", 0, 24, namespaceName :: types⟩

def blockNode (types : List Node) : Node :=
  ⟨"namespace_declaration", true, "", 0, 24,
    [namespaceName, ⟨"declaration_list", true, "body", 12, 24, types⟩]⟩

def unitNode (children : List Node) : Node := ⟨"compilation_unit", true, "", 0, 24, children⟩

theorem fileScoped_as_block_class :
    SameNamespace namespaceSource (fileScopedNode [namespaceClass]) (blockNode [namespaceClass])
        "N" ∧
      declarations namespaceSource (unitNode [fileScopedNode [namespaceClass]]) =
        declarations namespaceSource (unitNode [blockNode [namespaceClass]]) ∧
      CountsTo namespaceSource (unitNode [fileScopedNode [namespaceClass]]) "N"
        namespaceClass := by
  have hsame : SameNamespace namespaceSource (fileScopedNode [namespaceClass])
      (blockNode [namespaceClass]) "N" :=
    ⟨rfl, rfl, ⟨_, rfl, by rfl⟩, rfl, rfl, ⟨_, rfl, by rfl⟩, ⟨_, rfl, rfl⟩⟩
  have hroot : (unitNode [fileScopedNode [namespaceClass]]).children =
      [] ++ fileScopedNode [namespaceClass] :: [] := rfl
  obtain ⟨hdeclarations, -, hcounts, -⟩ := fileScoped_as_block hsame hroot
    (show (unitNode [blockNode [namespaceClass]]).children = _ from rfl)
  exact ⟨hsame, hdeclarations, hcounts namespaceClass (.tail _ (.head _)) rfl⟩

/-- A class that follows the declaration of the namespace is left in the global one. -/
theorem following_class_is_global :
    (declarations namespaceSource (unitNode [fileScopedNode [], namespaceClass])).map (·.name) =
        [⟨"", "A"⟩] ∧
      (declarations namespaceSource (unitNode [blockNode [namespaceClass]])).map (·.name) =
        [⟨"N", "A"⟩] :=
  ⟨by rfl, by rfl⟩

end Foresight.CSharp
