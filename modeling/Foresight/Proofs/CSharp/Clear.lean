import Foresight.Proofs.CSharp.Index
import Foresight.Proofs.CSharp.Stored

/-!
# Lowering text without a mark

Whatever lowering writes comes from the source, from the symbol index, or from a table of the
framework; in between it puts dots, brackets and spaces. So if there is no mark in the source and in
the index, there is none in an expression (`clearWithin_lowerExpression`), nor in what a file stores
(`isClear_lowerFile`).
-/

namespace Foresight

open Template

/-- There is no mark in what a file stores. -/
def SourceFile.IsClear (file : SourceFile) : Prop :=
  ∀ id s, file.get? id = some s → s.kind.Clear (file.textOf s)

namespace CSharp

/-! ## Places -/

/-- There is no mark in what names are bound against. -/
structure Place.IsClear (p : Place) : Prop where
  source : Clear p.source
  index : p.index.IsClear
  enclosing : ∀ q ∈ p.context.enclosingType, AllClear q.texts
  scopes : ∀ scope ∈ p.scopes, scope.All fun _ symbol => AllClear symbol.texts

section Places

variable {p : Place} (hp : p.IsClear)

include hp

theorem Place.IsClear.text (n : Node) : Clear (p.text n) :=
  clear_slice hp.source n.start n.stop (by decide)

theorem Place.IsClear.lookup? {name : String} {symbol : Foresight.Symbol}
    (h : p.lookup? name = some symbol) : AllClear symbol.texts := by
  obtain ⟨scope, hscope, hget⟩ := List.exists_of_findSome?_eq_some h
  exact (hp.scopes scope hscope).of_get? hget

omit hp in
theorem allClear_member {name : String} (hname : Clear name) {owner : QualifiedName}
    (howner : AllClear owner.texts) (kind : MemberKind) (isAssertion : Bool) :
    AllClear (Foresight.Symbol.member ⟨name, kind, some owner, isAssertion⟩).texts :=
  .cons hname (.append howner .nil)

omit hp in
theorem allClear_symbolType {symbol : Foresight.Symbol} (h : AllClear symbol.texts) :
    AllClear (symbolType symbol).texts := by
  cases symbol with
  | local_ name type | parameter name type => exact (List.forall_mem_cons.mp h).2
  | member | type => exact .nil

theorem allClear_bindName (isCalled : Bool) {name : String} (hname : Clear name) :
    (∀ symbol ∈ (bindName p isCalled name).1, AllClear symbol.texts) ∧
      AllClear (bindName p isCalled name).2.texts := by
  unfold bindName
  dsimp only
  split
  · rename_i symbol hsymbol
    have hclear := hp.lookup? hsymbol
    exact ⟨of_mem_some hclear, allClear_symbolType hclear⟩
  · split
    · rename_i owner m hdeclared
      obtain ⟨q, hq, hdeclared⟩ := Option.bind_eq_some_iff.mp hdeclared
      obtain ⟨m', -, heq⟩ := Option.map_eq_some_iff.mp hdeclared
      cases heq
      have howner := hp.enclosing owner hq
      split
      · exact ⟨of_mem_some (allClear_member hname howner _ _), .nil⟩
      · exact ⟨of_mem_some (allClear_member hname howner _ _),
          hp.index.memberType owner name⟩
    · split
      · exact ⟨fun _ h => absurd h (Option.not_mem_none _), .nil⟩
      · refine ⟨fun symbol hsymbol => ?_, .nil⟩
        dsimp only at hsymbol
        obtain ⟨q, hq, rfl⟩ := Option.mem_map.mp hsymbol
        exact hp.index.resolveTypeName? p.context hname q hq

theorem allClear_bindMember (isCalled : Bool) {owner : QualifiedName}
    (howner : AllClear owner.texts) {name : String} (hname : Clear name) :
    AllClear (bindMember p isCalled owner name).1.texts ∧
      AllClear (bindMember p isCalled owner name).2.texts := by
  unfold bindMember
  split
  · exact ⟨allClear_member hname howner _ _, .nil⟩
  · exact ⟨allClear_member hname howner _ _, hp.index.memberType owner name⟩

end Places

/-! ## Expressions -/

section Rules

variable {p : Place} (hp : p.IsClear) {lower : Node → Expression}
  (hlower : ∀ n, ClearWithin (lower n))

theorem clearWithin_raw {text : String} (h : Clear text) : ClearWithin (.raw text) :=
  clearWithin_of_texts h .nil .nil (List.forall_mem_nil _)

theorem allClear_ownerOf? {e : Expression} (h : ClearWithin e) :
    ∀ q ∈ ownerOf? e, AllClear q.texts := by
  intro q hq
  unfold ownerOf? at hq
  split at hq
  · rename_i qualifier name type hshape
    cases hq
    have hclear := h.shape
    rw [hshape] at hclear
    exact fun t ht => hclear t (List.mem_cons_of_mem _ (List.mem_append_left _ ht))
  · obtain ⟨type, htype, rfl⟩ := Option.map_eq_some_iff.mp hq
    refine allClear_splitQualified (h.type _ ?_)
    rw [TypeInfo.texts, htype]
    exact List.mem_append_left _ (List.mem_cons_of_mem _ List.mem_cons_self)

theorem clear_memberName {text : String} (h : Clear text) : Clear (memberName text) :=
  (h.of_subset (fun _ hc => (List.takeWhile_sublist _).subset
    (String.toList_ofList ▸ hc))).trim

theorem allClear_binaryType {left right : TypeInfo} (hleft : AllClear left.texts)
    (operator : String) : AllClear (binaryType operator left right).texts := by
  unfold binaryType
  split
  · decide
  · split
    · decide
    · split
      · exact hleft
      · exact .nil

section Arguments

include hlower in
theorem clearWithin_of_mem_lowerArguments {declared : Option (List String)}
    {arguments : List (Option String × Node)} :
    ∀ operand ∈ (lowerArguments lower declared arguments).map (·.value), ClearWithin operand := by
  refine List.forall_mem_map.mpr (List.forall_mem_map.mpr fun argument _ => ?_)
  exact hlower argument.1.2

theorem clear_parameterAt {declared : Option (List String)}
    (h : ∀ names ∈ declared, AllClear names) (position : Nat) :
    ∀ name ∈ parameterAt declared position, Clear name := by
  intro name hname
  unfold parameterAt at hname
  split at hname
  · exact h _ rfl name (List.mem_of_getElem? hname)
  · cases hname
    exact clear_append.mpr ⟨by decide, clear_toString position⟩

theorem allClear_lowerArguments {declared : Option (List String)}
    (hdeclared : ∀ names ∈ declared, AllClear names) {arguments : List (Option String × Node)}
    (harguments : ∀ argument ∈ arguments, ∀ name ∈ argument.1, Clear name) :
    AllClear ((lowerArguments lower declared arguments).filterMap (·.parameter)) := by
  intro name hname
  obtain ⟨a, ha, hname⟩ := List.mem_filterMap.mp hname
  obtain ⟨⟨argument, position⟩, hmem, rfl⟩ := List.mem_map.mp ha
  rcases (Option.orElse_eq_some ..).mp hname with hname | ⟨-, hname⟩
  · exact harguments argument (List.fst_mem_of_mem_zipIdx hmem) name hname
  · exact clear_parameterAt hdeclared position name hname

include hp in
theorem clear_argumentNodes (list : Option Node) :
    ∀ argument ∈ argumentNodes p list, ∀ name ∈ argument.1, Clear name := by
  intro argument hargument name hname
  unfold argumentNodes at hargument
  split at hargument
  · cases hargument
  · obtain ⟨a, -, ha⟩ := List.mem_filterMap.mp hargument
    obtain ⟨value, -, rfl⟩ := Option.map_eq_some_iff.mp ha
    obtain ⟨n, -, rfl⟩ := Option.map_eq_some_iff.mp hname
    exact hp.text n

end Arguments

include hp

theorem allClear_signature (invoked : Expression) (arity : Nat) :
    (∀ names ∈ (signature p invoked arity).1, AllClear names) ∧
      AllClear (signature p invoked arity).2.texts := by
  unfold signature
  split
  · split
    · rename_i d hd
      split
      · rename_i m hm
        have hmember := hp.index.writtenType hd (TypeDeclaration.mem_members_of_method? hm)
        refine ⟨of_mem_some hmember.2, ?_⟩
        dsimp only
        split
        · rename_i written hwritten
          exact hp.index.resolveType d.context (hmember.1 written hwritten)
        · exact .nil
      · exact ⟨of_mem_some .nil, .nil⟩
    · exact ⟨fun _ hnone => absurd hnone (Option.not_mem_none _), hp.index.memberType _ _⟩
  · exact ⟨of_mem_some .nil, .nil⟩

theorem clearWithin_lowerIdentifier (isCalled : Bool) (n : Node) :
    ClearWithin (lowerIdentifier p isCalled n) := by
  have hbound := allClear_bindName hp isCalled (hp.text n)
  exact clearWithin_of_texts (hp.text n) hbound.2 (.cons (hp.text n) (.option hbound.1))
    (List.forall_mem_nil _)

include hlower

theorem clearWithin_lowerMemberAccess (isCalled : Bool) (n : Node) :
    ClearWithin (lowerMemberAccess p lower isCalled n) := by
  unfold lowerMemberAccess
  split
  · rename_i receiver nameNode _ _
    have hname := clear_memberName (hp.text nameNode)
    have hreceiver := List.forall_mem_singleton.mpr (hlower receiver)
    dsimp only
    split
    · rename_i owner howner
      have hbound := allClear_bindMember hp isCalled (allClear_ownerOf? (hlower receiver) _ howner)
        hname
      exact clearWithin_of_texts (hp.text n) hbound.2
        (.cons hname (.option (of_mem_some hbound.1))) hreceiver
    · exact clearWithin_of_texts (hp.text n) .nil (.cons hname .nil) hreceiver
  · exact clearWithin_raw (hp.text n)

theorem clearWithin_lowerInvocation (n : Node) : ClearWithin (lowerInvocation p lower n) := by
  unfold lowerInvocation
  split
  · exact clearWithin_raw (hp.text n)
  · rename_i function _
    extract_lets arguments invoked
    have hinvoked : ClearWithin invoked := by
      unfold invoked
      split
      · exact clearWithin_lowerMemberAccess hp hlower true function
      · split
        · exact clearWithin_lowerIdentifier hp true function
        · exact hlower function
    have hsignature := allClear_signature hp invoked arguments.length
    exact clearWithin_of_texts (hp.text n) hsignature.2
      (allClear_lowerArguments hsignature.1 (clear_argumentNodes hp _))
      (List.forall_mem_cons.mpr ⟨hinvoked, clearWithin_of_mem_lowerArguments hlower⟩)

theorem clearWithin_lowerCreation (n : Node) : ClearWithin (lowerCreation p lower n) := by
  have hoperands := fun declared arguments =>
    @clearWithin_of_mem_lowerArguments lower hlower declared arguments
  unfold lowerCreation
  extract_lets arguments
  split
  · rename_i typeNode _
    extract_lets written type resolved declared
    have htype : AllClear type.texts := hp.index.resolveType p.context (hp.text typeNode)
    have hresolved : ∀ q ∈ resolved, AllClear q.texts := by
      intro q hq
      obtain ⟨known, hknown, rfl⟩ := Option.map_eq_some_iff.mp hq
      refine allClear_splitQualified (htype _ ?_)
      rw [TypeInfo.texts, hknown]
      exact List.mem_append_left _ (List.mem_cons_of_mem _ List.mem_cons_self)
    have hdeclared : ∀ names ∈ declared, AllClear names := by
      intro names hnames
      obtain ⟨q, -, hnames⟩ := Option.bind_eq_some_iff.mp hnames
      obtain ⟨d, hd, hnames⟩ := Option.bind_eq_some_iff.mp hnames
      cases hnames
      exact hp.index.constructors hd _
    exact clearWithin_of_texts (hp.text n) htype
      (.append (.option (of_mem_some (.cons (hp.text typeNode) (.option hresolved))))
        (allClear_lowerArguments hdeclared (clear_argumentNodes hp _))) (hoperands _ _)
  · exact clearWithin_of_texts (hp.text n) .nil
      (allClear_lowerArguments (of_mem_some .nil) (clear_argumentNodes hp _)) (hoperands _ _)

omit hlower in
theorem clear_operatorText (n left right : Node) {otherwise : String}
    (hotherwise : Clear otherwise) : Clear (operatorText p n left right otherwise) := by
  unfold operatorText
  split
  · exact hp.text _
  · exact (clear_slice hp.source _ _ hotherwise).trim

theorem clearWithin_lowerBinary (n : Node) : ClearWithin (lowerBinary p lower n) := by
  unfold lowerBinary
  split
  · rename_i left right _ _
    exact clearWithin_of_texts (hp.text n) (allClear_binaryType (hlower left).type _)
      (.cons (clear_operatorText hp n left right (by decide)) .nil)
      (List.forall_mem_cons.mpr ⟨hlower left, List.forall_mem_singleton.mpr (hlower right)⟩)
  · exact clearWithin_raw (hp.text n)

theorem clearWithin_lowerAssignment (n : Node) : ClearWithin (lowerAssignment p lower n) := by
  unfold lowerAssignment
  split
  · rename_i left right _ _
    exact clearWithin_of_texts (hp.text n) (hlower left).type
      (.cons (clear_operatorText hp n left right (by decide)) .nil)
      (List.forall_mem_cons.mpr ⟨hlower left, List.forall_mem_singleton.mpr (hlower right)⟩)
  · exact clearWithin_raw (hp.text n)

theorem clearWithin_lowerUnary (n : Node) : ClearWithin (lowerUnary p lower n) := by
  unfold lowerUnary
  split
  · rename_i operand _
    extract_lets operator lowered type
    have hoperator : Clear operator := by
      unfold operator
      split
      · exact hp.text _
      · decide
    have htype : AllClear type.texts := by
      unfold type
      split
      · decide
      · exact (hlower operand).type
    exact clearWithin_of_texts (hp.text n) htype (.cons hoperator .nil)
      (List.forall_mem_singleton.mpr (hlower operand))
  · exact clearWithin_raw (hp.text n)

theorem clearWithin_lowerCast (n : Node) : ClearWithin (lowerCast p lower n) := by
  unfold lowerCast
  split
  · rename_i target value _ _
    have htype := hp.index.resolveType p.context (hp.text target)
    exact clearWithin_of_texts (hp.text n) htype (.cons (hp.text target) htype)
      (List.forall_mem_singleton.mpr (hlower value))
  · exact clearWithin_raw (hp.text n)

theorem clearWithin_lowerTypeTest (n : Node) : ClearWithin (lowerTypeTest p lower n) := by
  unfold lowerTypeTest
  split
  · rename_i left right _ _
    have htype := hp.index.resolveType p.context (hp.text right)
    have hshape := AllTexts.cons (hp.text right) htype
    have hoperands := List.forall_mem_singleton.mpr (hlower left)
    dsimp only
    split
    · exact clearWithin_of_texts (hp.text n) htype hshape hoperands
    · exact clearWithin_of_texts (hp.text n) (by decide : AllClear boolType.texts) hshape hoperands
  · exact clearWithin_raw (hp.text n)

theorem clearWithin_lowerParenthesized (n : Node) :
    ClearWithin (lowerParenthesized p lower n) := by
  unfold lowerParenthesized
  split
  · rename_i inner _
    exact clearWithin_of_texts (hp.text n) (hlower inner).type .nil
      (List.forall_mem_singleton.mpr (hlower inner))
  · exact clearWithin_raw (hp.text n)

omit hlower in
theorem clearWithin_lowerThis (n : Node) : ClearWithin (lowerThis p n) := by
  refine clearWithin_of_texts (hp.text n) ?_ .nil (List.forall_mem_nil _)
  unfold lowerThis
  dsimp only
  split
  · rename_i type htype
    exact .append (allClear_typeRefOf (hp.enclosing type htype)) .nil
  · exact .nil

theorem clearWithin_lowerNode (n : Node) : ClearWithin (lowerNode p lower n) := by
  have hliteral : ∀ entry ∈ literalTypes, AllClear entry.2.texts := by decide +kernel
  unfold lowerNode
  split
  · rename_i type htype
    have htexts := hliteral (n.kind, type) (Table.mem_of_lookup htype)
    exact clearWithin_of_texts (hp.text n) htexts .nil (List.forall_mem_nil _)
  · split
    · exact clearWithin_lowerIdentifier hp false n
    · exact clearWithin_lowerMemberAccess hp hlower false n
    · exact clearWithin_lowerInvocation hp hlower n
    · exact clearWithin_lowerBinary hp hlower n
    · exact clearWithin_lowerUnary hp hlower n
    · exact clearWithin_lowerUnary hp hlower n
    · exact clearWithin_lowerCast hp hlower n
    · exact clearWithin_lowerTypeTest hp hlower n
    · exact clearWithin_lowerTypeTest hp hlower n
    · exact clearWithin_lowerParenthesized hp hlower n
    · exact clearWithin_lowerThis hp n
    · exact clearWithin_lowerThis hp n
    · exact clearWithin_lowerCreation hp hlower n
    · exact clearWithin_lowerCreation hp hlower n
    · exact clearWithin_lowerAssignment hp hlower n
    · exact clearWithin_raw (hp.text n)

end Rules

theorem clearWithin_lowerExpression {p : Place} (hp : p.IsClear) (n : Node) :
    ClearWithin (lowerExpression p n) := by
  have hwithin : ∀ room n, ClearWithin (lowerWithin p room n) := by
    intro room
    induction room with
    | zero => exact fun n => clearWithin_raw (hp.text n)
    | succ room ih => exact fun n => clearWithin_lowerNode hp ih n
  exact hwithin _ n

/-! ## Files -/

/-- There is no mark in the names of the scopes, nor in the texts and the expressions. -/
def clearDemands : Demands := ⟨fun _ symbol => AllClear symbol.texts, Clear, ClearWithin⟩

/-- There is no mark in what stays fixed while a body is lowered. -/
structure Setting.IsClear (s : Setting) : Prop where
  source : Clear s.source
  index : s.index.IsClear
  enclosing : ∀ q ∈ s.context.enclosingType, AllClear q.texts

theorem Setting.IsClear.yields {s : Setting} (h : s.IsClear) : s.Yields clearDemands where
  lowered scopes n hscopes :=
    have hplace : Place.IsClear ⟨s.source, s.index, s.context, scopes⟩ :=
      ⟨h.source, h.index, h.enclosing, hscopes⟩
    clearWithin_lowerExpression hplace n
  missing := clearWithin_raw (by decide)
  text n := clear_nodeText h.source n
  noText := (by decide : Clear "")
  noType := (by decide : Clear "var")
  resolved _ := h.index.resolveType s.context
  typed _ := ClearWithin.type
  local_ _ _ hname htype := AllTexts.cons hname htype
  parameter _ _ hname htype := AllTexts.cons hname htype

section Files

variable {path source : String} {index : SymbolIndex} {root : Node} (hsource : Clear source)
  (hindex : index.IsClear)

include hsource hindex

theorem yieldsIn_clear {site : Site} (hsite : site ∈ sites source root) :
    (fileSetting source index root).YieldsIn clearDemands site := by
  have hnamespace := clear_of_mem_sites hsource site hsite
  cases site with
  | type namespace_ n =>
    intro b hb
    obtain ⟨t, -, hbody⟩ := mem_bodiesOf.mp hb
    obtain ⟨name, -, htype⟩ := hbody.type
    exact Setting.IsClear.yields ⟨hsource, hindex, of_mem_some
      (htype ▸ .cons hnamespace (.cons (clear_nodeText hsource name) .nil))⟩
  | statement namespace_ n =>
    exact Setting.IsClear.yields ⟨hsource, hindex, fun _ h => absurd h (Option.not_mem_none _)⟩

omit hsource hindex in
theorem text_lowerFile : (lowerFile path source index root).text = source :=
  (builds_lowerFile path source index root).text

/-- There is no mark in what a file stores. -/
theorem isClear_lowerFile : (lowerFile path source index root).IsClear := by
  intro id s hs
  have hkind := of_get?_lowerFile (fun site => yieldsIn_clear hsource hindex) hs
  refine ⟨?_, hkind.texts, hkind.expressions⟩
  rw [SourceFile.textOf, text_lowerFile]
  exact clear_slice hsource _ _ (by decide)

end Files

end CSharp

end Foresight
