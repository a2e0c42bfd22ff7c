import Foresight.Proofs.CSharp.Namespaces
import Foresight.Proofs.CSharp.Written
import Foresight.Proofs.Template.Clear
import Foresight.Solution.Directory

/-!
# Indexes without a mark

The symbol index is made of texts from sources. If there is no mark in the sources, there is none in
the declarations (`allClear_declarations`) nor in the index that they make (`isClear_collected`). A
type or a member that is looked up there, or in the tables of the framework, has no mark in its
names then, whatever is asked for.
-/

namespace Foresight

open Template

namespace CSharp

/-! ## Names and types -/

theorem clear_fullName {q : QualifiedName} (h : AllClear q.texts) : Clear q.fullName := by
  obtain ⟨hnamespace, hname⟩ := List.forall_mem_cons.mp h
  rw [List.forall_mem_singleton] at hname
  unfold QualifiedName.fullName
  split
  · exact hname
  · exact clear_append.mpr ⟨clear_append.mpr ⟨hnamespace, by decide⟩, hname⟩

theorem allClear_splitQualified {longName : String} (h : Clear longName) :
    AllClear (splitQualified longName).texts := by
  have hdropped : Clear (Text.trim (splitQualified.dropSuffixes longName.toList)) :=
    (h.of_subset (dropSuffixes_isPrefix _).subset).trim
  unfold splitQualified
  dsimp only
  split
  · rename_i before after hcut
    obtain ⟨hbefore, hafter⟩ := Text.subset_of_cutLast?_eq_some hcut
    exact .cons (hdropped.of_subset hbefore) (.cons (hdropped.of_subset hafter) .nil)
  · exact .cons (by decide : Clear "") (.cons hdropped .nil)

theorem allClear_typeRefOf {q : QualifiedName} (h : AllClear q.texts) :
    AllClear (typeRefOf q).texts :=
  .cons (h _ (.tail _ (.head _))) (.cons (clear_fullName h) .nil)

namespace TypeText

variable {cs : List Char}

theorem not_mem_squeezeChars (h : '$' ∉ cs) : '$' ∉ squeezeChars cs := fun hmark =>
  (Text.mem_of_mem_words hmark).elim (by decide) h

theorem subset_of_dropTail?_eq_some {tail text rest : List Char}
    (h : dropTail? tail text = some rest) : rest ⊆ text := by
  rw [dropTail?_eq_some_iff.mp h]
  exact List.subset_append_left _ _

theorem mem_of_mem_splitArguments {depth : Nat} {part text argument : List Char}
    (h : argument ∈ splitArguments depth part text) {c : Char} (hc : c ∈ argument) :
    c ∈ part ∨ c ∈ text := by
  induction text generalizing depth part with
  | nil =>
    rw [splitArguments, List.mem_singleton] at h
    exact Or.inl (List.mem_reverse.mp (h ▸ hc))
  | cons a rest ih =>
    rw [splitArguments] at h
    split at h
    · rcases List.mem_cons.mp h with rfl | h
      · exact Or.inl (List.mem_reverse.mp hc)
      · exact Or.inr (List.mem_cons_of_mem _ ((ih h).resolve_left List.not_mem_nil))
    · rcases ih h with hpart | hrest
      · exact (List.mem_cons.mp hpart).elim (fun heq => Or.inr (heq ▸ List.mem_cons_self)) Or.inl
      · exact Or.inr (List.mem_cons_of_mem _ hrest)

theorem subset_of_generic?_eq_some {text base : List Char} {arguments : List (List Char)}
    (h : generic? text = some (base, arguments)) :
    base ⊆ text ∧ ∀ argument ∈ arguments, argument ⊆ text := by
  unfold generic? at h
  split at h
  · rename_i before rest hcut
    have htext := Text.eq_of_cutAt?_eq_some hcut
    split at h
    · cases h
      refine ⟨fun c hc => ?_, fun argument hargument c hc => ?_⟩
      · rw [htext, List.append_assoc]
        exact List.mem_append_left _ hc
      · have hrest := (mem_of_mem_splitArguments hargument hc).resolve_left List.not_mem_nil
        rw [htext]
        exact List.mem_append_right _ (List.dropLast_subset _ hrest)
    · cases h
  · cases h

end TypeText

/-! ## The index -/

theorem TypeDeclaration.mem_members_of_method? {d : TypeDeclaration} {name : String} {arity : Nat}
    {m : MemberDeclaration} (h : d.method? name arity = some m) : m ∈ d.members := by
  rcases (Option.orElse_eq_some ..).mp h with h | ⟨-, h⟩
  · exact (List.mem_filter.mp (List.mem_of_find?_eq_some h)).1
  · exact (List.mem_filter.mp (List.mem_of_head? h)).1

/-- The framework calls its types by words of letters and digits, with dots between them. -/
theorem words_of_mem_wellKnownTypes : ∀ known ∈ wellKnownTypes, known.1 ≠ "" ∧
    ∀ part ∈ Text.pieces (· == '.') (known.1.toList ++ '.' :: known.2.toList),
      part ≠ [] ∧ ∀ c ∈ part, c.isAlphanum = true := by decide +kernel

theorem allClear_wellKnown {known : String × String} (h : known ∈ wellKnownTypes) :
    AllClear [known.1, known.2] := by
  have hclear : '$' ∉ known.1.toList ++ '.' :: known.2.toList := fun hmark => by
    rcases Text.exists_mem_pieces (p := (· == '.')) hmark with hdot | ⟨part, hpart, hmark⟩
    · exact absurd hdot (by decide)
    · have hletter := ((words_of_mem_wellKnownTypes known h).2 part hpart).2 _ hmark
      exact absurd hletter (by decide)
  rw [List.mem_append, List.mem_cons, not_or, not_or] at hclear
  exact .cons hclear.1 (.cons hclear.2.2 .nil)

/-- The texts of a declaration that can come up where it is bound. -/
def TypeDeclaration.texts (d : TypeDeclaration) : List String :=
  d.name.texts ++ d.members.flatMap (fun m => m.writtenType.toList ++ m.parameters) ++
    d.constructors.flatten

namespace SymbolIndex

/-- There is no mark in an index. -/
def IsClear (index : SymbolIndex) : Prop := index.types.All fun _ d => AllClear d.texts

variable {index : SymbolIndex}

theorem IsClear.of_get? (h : index.IsClear) {name : String} {d : TypeDeclaration}
    (hget : index.get? name = some d) : AllClear d.texts :=
  Table.All.of_get? h hget

theorem IsClear.of_mem_declared (h : index.IsClear) {name : String} {q : QualifiedName}
    (hq : q ∈ index.declared name) : AllClear q.texts := by
  obtain ⟨entry, hentry, rfl⟩ := List.mem_map.mp (List.mem_filter.mp hq).1
  exact fun t ht => h entry hentry t (List.mem_append_left _ (List.mem_append_left _ ht))

theorem IsClear.resolveTypeName? (h : index.IsClear) (context : Context) {name : String}
    (hname : Clear name) : ∀ q ∈ index.resolveTypeName? context name, AllClear q.texts := by
  intro q hq
  unfold SymbolIndex.resolveTypeName? at hq
  dsimp only at hq
  split at hq
  · cases hq
  · split at hq
    · obtain rfl := Option.some.inj hq
      exact allClear_splitQualified hname.trim
    · rcases (Option.orElse_eq_some ..).mp hq with hq | ⟨-, hq⟩
      · obtain ⟨ns, -, hfound⟩ := List.exists_of_findSome?_eq_some hq
        exact h.of_mem_declared (List.mem_of_find?_eq_some hfound)
      · rcases (Option.orElse_eq_some ..).mp hq with hq | ⟨-, hq⟩
        · exact h.of_mem_declared (List.mem_of_head? hq)
        · obtain ⟨ns, hfound, rfl⟩ := Option.map_eq_some_iff.mp hq
          have hknows := List.find?_some hfound
          exact allClear_wellKnown (List.contains_iff_mem.mp hknows)

theorem clear_keywordType? {name long : String} (h : keywordType? name = some long) :
    Clear long := by
  have hlong : ∀ entry ∈ keywordTypes, Clear entry.2 := by decide
  exact hlong (name, long) (Table.mem_of_lookup h)

variable (index) in
/-- A type expression is not bound to a name with a mark. -/
def BindsClear (context : Context) (t : TypeText) : Prop :=
  ∀ long, index.bind context t = .long long → Clear long

theorem IsClear.binds_name (h : index.IsClear) (context : Context) {text : String}
    (htext : Clear text) : index.BindsClear context (.name text) := by
  intro long hlong
  rw [bind] at hlong
  split at hlong
  · rename_i q hq
    cases hlong
    exact clear_fullName (h.resolveTypeName? context htext q hq)
  · cases hlong

theorem BindsClear.array {context : Context} {t : TypeText} (h : index.BindsClear context t) :
    index.BindsClear context (.array t) := by
  intro long hlong
  rw [bind] at hlong
  cases hbound : index.bind context t with
  | long name =>
    rw [hbound] at hlong
    cases hlong
    exact clear_append.mpr ⟨h name hbound, by decide⟩
  | unknown | unresolved =>
    rw [hbound] at hlong
    cases hlong

theorem allClear_bindAll {context : Context} {ts : List TypeText} {longs : List String}
    (h : ∀ t ∈ ts, index.BindsClear context t) (hlongs : index.bindAll context ts = some longs) :
    AllClear longs := by
  induction ts generalizing longs with
  | nil =>
    rw [bindAll] at hlongs
    exact Option.some.inj hlongs ▸ .nil
  | cons t rest ih =>
    obtain ⟨ht, hrest⟩ := List.forall_mem_cons.mp h
    rw [bindAll] at hlongs
    obtain ⟨long, hlong, hlongs⟩ := Option.bind_eq_some_iff.mp hlongs
    obtain ⟨more, hmore, hlongs⟩ := Option.bind_eq_some_iff.mp hlongs
    cases hlongs
    refine .cons (ht long ?_) (ih hrest hmore)
    cases hbound : index.bind context t with
    | long name =>
      rw [hbound] at hlong
      exact congrArg _ (Option.some.inj hlong)
    | unknown | unresolved =>
      rw [hbound] at hlong
      cases hlong

theorem IsClear.binds_generic (h : index.IsClear) {context : Context} {base : String}
    (hbase : Clear base) {ts : List TypeText} (hts : ∀ t ∈ ts, index.BindsClear context t) :
    index.BindsClear context (.generic base ts) := by
  intro long hlong
  rw [bind] at hlong
  split at hlong
  · rename_i q longs hq hlongs
    cases hlong
    have hname := clear_fullName (h.resolveTypeName? context hbase q hq)
    have harguments := clear_textJoin (by decide : Clear ",") (allClear_bindAll hts hlongs)
    exact clear_append.mpr ⟨clear_append.mpr ⟨clear_append.mpr ⟨hname, by decide⟩, harguments⟩,
      by decide⟩
  · cases hlong

/-- What is written without a mark is bound to a type without one. -/
theorem IsClear.binds_ofChars (h : index.IsClear) (context : Context) {cs : List Char}
    (hcs : '$' ∉ cs) : index.BindsClear context (.ofChars cs) := by
  have hsqueezed := TypeText.not_mem_squeezeChars hcs
  fun_induction TypeText.ofChars cs with
  | case1 => exact fun long hlong => by cases hlong
  | case2 cs text _ element helement ih =>
    have hclear : '$' ∉ element := fun hmark =>
      hsqueezed (TypeText.subset_of_dropTail?_eq_some helement hmark)
    exact .array (ih hclear (TypeText.not_mem_squeezeChars hclear))
  | case3 cs text _ _ inner hinner ih =>
    have hclear : '$' ∉ inner := fun hmark =>
      hsqueezed (TypeText.subset_of_dropTail?_eq_some hinner hmark)
    exact ih hclear (TypeText.not_mem_squeezeChars hclear)
  | case4 cs text _ _ _ keyword hkeyword =>
    intro long hlong
    cases hlong
    exact clear_keywordType? hkeyword
  | case5 cs text _ _ _ _ base arguments hgeneric ih =>
    obtain ⟨hbase, harguments⟩ := TypeText.subset_of_generic?_eq_some hgeneric
    refine h.binds_generic (clear_ofList.mpr fun hmark => hsqueezed (hbase hmark)) ?_
    refine List.forall_mem_map.mpr fun ⟨argument, hargument⟩ _ => ?_
    have hclear : '$' ∉ argument := fun hmark => hsqueezed (harguments _ hargument hmark)
    exact ih argument hargument hclear (TypeText.not_mem_squeezeChars hclear)
  | case6 cs text => exact h.binds_name context (clear_ofList.mpr hsqueezed)

theorem IsClear.resolveType (h : index.IsClear) (context : Context) {written : String}
    (hwritten : Clear written) : AllClear (index.resolveType context written).texts := by
  unfold SymbolIndex.resolveType
  split
  · rename_i long hlong
    exact .cons hwritten.squeeze (.cons (h.binds_ofChars context hwritten long hlong) .nil)
  · exact .nil
  · exact .nil

theorem allClear_wellKnownMember? {owner member : String} :
    ∀ type ∈ wellKnownMember? owner member, AllClear type.texts := by
  have hknown : ∀ known ∈ wellKnownMembers, AllClear [known.2.2.1, known.2.2.2] := by
    decide +kernel
  intro type htype
  obtain ⟨known, hfound, rfl⟩ := Option.map_eq_some_iff.mp htype
  exact hknown known (List.mem_of_find?_eq_some hfound)

theorem IsClear.writtenType (h : index.IsClear) {name : String} {d : TypeDeclaration}
    (hd : index.get? name = some d) {m : MemberDeclaration} (hm : m ∈ d.members) :
    (∀ written ∈ m.writtenType, Clear written) ∧ AllClear m.parameters := by
  have hmember : AllClear (m.writtenType.toList ++ m.parameters) := fun t ht =>
    h.of_get? hd t (List.mem_append_left _ (List.mem_append_right _
      (List.mem_flatMap.mpr ⟨m, hm, ht⟩)))
  obtain ⟨hwritten, hparameters⟩ := List.forall_mem_append.mp hmember
  exact ⟨fun written hw => hwritten written (Option.mem_toList.mpr hw), hparameters⟩

theorem IsClear.constructors (h : index.IsClear) {name : String} {d : TypeDeclaration}
    (hd : index.get? name = some d) (arity : Nat) :
    AllClear ((d.constructor? arity).getD []) := by
  cases hfound : d.constructor? arity with
  | none => exact .nil
  | some names =>
    exact fun t ht => h.of_get? hd t (List.mem_append_right _
      (List.mem_flatten.mpr ⟨names, List.mem_of_find?_eq_some hfound, ht⟩))

theorem IsClear.memberType (h : index.IsClear) (owner : QualifiedName) (member : String) :
    AllClear (index.memberType owner member).texts := by
  unfold SymbolIndex.memberType
  split
  · rename_i d hd
    split
    · rename_i written hwritten
      obtain ⟨m, hm, hwritten⟩ := Option.bind_eq_some_iff.mp hwritten
      have hmember := h.writtenType hd (List.mem_of_find?_eq_some hm)
      exact h.resolveType d.context (hmember.1 written hwritten)
    · exact .nil
  · split
    · rename_i type htype
      exact .append (allClear_wellKnownMember? type htype) .nil
    · exact .nil

end SymbolIndex

/-! ## Sources without a mark -/

namespace SymbolIndex

variable {index : SymbolIndex}

theorem isClear_empty : IsClear .empty := Table.all_empty

theorem allClear_merge {first second : TypeDeclaration} (h : AllClear first.texts)
    (h' : AllClear second.texts) : AllClear (first.merge second).texts := by
  intro t ht
  unfold TypeDeclaration.merge TypeDeclaration.texts at ht
  simp only [List.flatMap_append, List.flatten_append, List.mem_append] at ht
  rcases ht with (ht | ht | ht) | ht | ht
  · exact h t (List.mem_append_left _ (List.mem_append_left _ ht))
  · exact h t (List.mem_append_left _ (List.mem_append_right _ ht))
  · exact h' t (List.mem_append_left _ (List.mem_append_right _ ht))
  · exact h t (List.mem_append_right _ ht)
  · exact h' t (List.mem_append_right _ ht)

theorem IsClear.add (h : index.IsClear) {d : TypeDeclaration} (hd : AllClear d.texts) :
    (index.add d).IsClear := by
  unfold SymbolIndex.add
  split
  · rename_i existing hexisting
    exact Table.All.insert h (allClear_merge (h.of_get? hexisting) hd)
  · exact Table.All.insert h hd

theorem IsClear.addAll (h : index.IsClear) {declarations : List TypeDeclaration}
    (hdeclarations : ∀ d ∈ declarations, AllClear d.texts) :
    (index.addAll declarations).IsClear := by
  induction declarations generalizing index with
  | nil => exact h
  | cons d rest ih =>
    obtain ⟨hd, hrest⟩ := List.forall_mem_cons.mp hdeclarations
    exact ih (h.add hd) hrest

end SymbolIndex

/-- The namespace in which a site stands. -/
def Site.namespace_ : Site → String
  | .type namespace_ _ | .statement namespace_ _ => namespace_

section Sources

variable {source : String}

theorem clear_nodeText (h : Clear source) (n : Node) : Clear (n.text source) :=
  clear_slice h n.start n.stop (by decide)

theorem clear_joinNamespace (hsource : Clear source) {outer : String} (houter : Clear outer)
    (n : Node) : Clear (joinNamespace outer (n.text source)) := by
  unfold joinNamespace
  split
  · exact clear_nodeText hsource n
  · exact clear_append.mpr ⟨clear_append.mpr ⟨houter, by decide⟩, clear_nodeText hsource n⟩

mutual

theorem clear_of_mem_sitesOf (hsource : Clear source) {namespace_ : String} (h : Clear namespace_) :
    ∀ n, ∀ site ∈ sitesOf source namespace_ n, Clear site.namespace_
  | n@⟨kind, isNamed, field, start, stop, children⟩ => by
    intro site hsite
    rw [sitesOf] at hsite
    split at hsite
    · split at hsite
      · rename_i name _
        exact clear_of_mem_sitesInBody hsource (clear_joinNamespace hsource h name) children site
          hsite
      · cases hsite
    · split at hsite
      · split at hsite
        · rename_i name _
          exact clear_of_mem_sitesOfAll hsource (clear_joinNamespace hsource h name) children site
            hsite
        · cases hsite
      · split at hsite
        · exact List.mem_singleton.mp hsite ▸ h
        · split at hsite
          · exact List.mem_singleton.mp hsite ▸ h
          · cases hsite

theorem clear_of_mem_sitesOfAll (hsource : Clear source) {namespace_ : String}
    (h : Clear namespace_) :
    ∀ nodes, ∀ site ∈ sitesOfAll source namespace_ nodes, Clear site.namespace_
  | [] => List.forall_mem_nil _
  | n :: rest => by
    intro site hsite
    rw [sitesOfAll] at hsite
    rcases List.mem_append.mp hsite with hsite | hsite
    · split at hsite
      · exact clear_of_mem_sitesOf hsource h n site hsite
      · cases hsite
    · exact clear_of_mem_sitesOfAll hsource h rest site hsite

theorem clear_of_mem_sitesInBody (hsource : Clear source) {namespace_ : String}
    (h : Clear namespace_) :
    ∀ nodes, ∀ site ∈ sitesInBody source namespace_ nodes, Clear site.namespace_
  | [] => List.forall_mem_nil _
  | ⟨_, _, field, _, _, children⟩ :: rest => by
    intro site hsite
    rw [sitesInBody] at hsite
    split at hsite
    · exact clear_of_mem_sitesOfAll hsource h children site hsite
    · exact clear_of_mem_sitesInBody hsource h rest site hsite

end

variable {root : Node}

theorem clear_of_mem_sites (h : Clear source) :
    ∀ site ∈ sites source root, Clear site.namespace_ :=
  clear_of_mem_sitesOfAll h (by decide) root.children

theorem TypeIn.clear_namespace (h : Clear source) {namespace_ : String} {t : Node}
    (ht : TypeIn source root namespace_ t) : Clear namespace_ := by
  obtain ⟨outer, houter, -⟩ := ht
  exact clear_of_mem_sites h _ houter

theorem allClear_parameterNames (h : Clear source) (n : Node) :
    AllClear (parameterNames source n) := by
  unfold parameterNames
  split
  · exact List.forall_mem_map.mpr fun name _ => clear_nodeText h name
  · exact .nil

/-- What a member shows of itself where it is bound. -/
theorem allClear_declaredMembers (h : Clear source) (n : Node) :
    ∀ m ∈ declaredMembers source n, AllClear (m.writtenType.toList ++ m.parameters) := by
  have htext : ∀ item : Option Node, AllClear (item.map (·.text source)).toList := fun item => by
    cases item with
    | none => exact .nil
    | some node => exact .cons (clear_nodeText h node) .nil
  intro m hm
  unfold declaredMembers at hm
  split at hm
  · split at hm
    · obtain rfl := List.mem_singleton.mp hm
      exact (htext _).append (allClear_parameterNames h n)
    · cases hm
  · split at hm
    · split at hm
      · obtain rfl := List.mem_singleton.mp hm
        exact (htext _).append .nil
      · cases hm
    · split at hm
      · obtain ⟨declaration, -, hm⟩ := List.mem_flatMap.mp hm
        obtain ⟨name, -, rfl⟩ := List.mem_map.mp hm
        exact (htext _).append .nil
      · cases hm

theorem forall_mem_ite_singleton {α : Type} {P : α → Prop} {a : α} {condition : Prop}
    [Decidable condition] (h : P a) : ∀ b ∈ (if condition then [a] else []), P b := by
  split
  · exact List.forall_mem_singleton.mpr h
  · exact List.forall_mem_nil _

theorem allClear_declarations (h : Clear source) (root : Node) :
    ∀ d ∈ declarations source root, AllClear d.texts := by
  intro d hd
  obtain ⟨namespace_, t, name, ht, -, rfl⟩ := mem_declarations.mp hd
  have hname : AllClear (QualifiedName.texts ⟨namespace_, name.text source⟩) :=
    .cons (ht.clear_namespace h) (.cons (clear_nodeText h name) .nil)
  unfold declarationOf
  extract_lets body
  have hmembers : AllClear ((body.flatMap (declaredMembers source)).flatMap
      fun m => m.writtenType.toList ++ m.parameters) :=
    .flatMap fun m hm =>
      have ⟨n, _, hm⟩ := List.mem_flatMap.mp hm
      allClear_declaredMembers h n m hm
  have hconstructors : ∀ names ∈ primaryConstructor source t ++
      body.flatMap (declaredConstructors source), AllClear names := by
    refine List.forall_mem_append.mpr ⟨?_, fun names hnames => ?_⟩
    · exact forall_mem_ite_singleton (allClear_parameterNames h t)
    · obtain ⟨n, -, hnames⟩ := List.mem_flatMap.mp hnames
      exact forall_mem_ite_singleton (allClear_parameterNames h n) names hnames
  exact (hname.append hmembers).append fun text htext =>
    have ⟨names, hnames, htext⟩ := List.mem_flatten.mp htext
    hconstructors names hnames text htext

/-- The index that some sources make with their trees. -/
def collected (sources : List (String × Node)) : SymbolIndex :=
  sources.foldl (fun index s => index.addAll (declarations s.1 s.2)) .empty

/-- The types that a solution declares are those of its sources that can be read. -/
theorem collectSymbols_eq_collected (s : SolutionDirectory) (grammar : Grammar) (d : Disk) :
    s.collectSymbols grammar d = collected
      ((s.projects.flatMap fun p => s.sources p d).filterMap fun file =>
        (SourceText.read d file.path).toOption.map fun text => (text, grammar text)) := by
  unfold SolutionDirectory.collectSymbols collected
  rw [List.foldl_filterMap]
  congr 1
  funext index file
  cases SourceText.read d file.path <;> rfl

theorem isClear_collected {sources : List (String × Node)} (h : ∀ s ∈ sources, Clear s.1) :
    (collected sources).IsClear := by
  unfold collected
  induction sources using List.reverseRecOn with
  | nil => exact SymbolIndex.isClear_empty
  | append_singleton sources s ih =>
    obtain ⟨hsources, hs⟩ := List.forall_mem_append.mp h
    rw [List.foldl_append]
    exact (ih hsources).addAll (allClear_declarations (hs s (List.mem_singleton_self s)) s.2)

end Sources

end CSharp

end Foresight
