import Foresight.Proofs.CSharp.Operands
import Foresight.Proofs.CSharp.Stored
import Foresight.Proofs.CSharp.Types

/-!
# References by bare names

Lowering binds a bare name at a place: in the local scopes, then to a member of the type around the
place. All names in an expression are bound at the place where the expression is lowered
(`BindsNames`), and while a body is lowered the places differ in their scopes only, which hold local
variables and parameters. So in the statements of a body the name of a member stands for the member
unless such a local name hides it (`StandsFor`), as soon as the index knows the member. It does if
it was extended by the declarations of the file (`declarations_serve_bodies`).
-/

namespace Foresight

namespace CSharp

open SourceFile Lowering

/-! ## Names in an expression -/

/-- Every bare name in an expression is bound as it would be at the place. -/
def BindsNames (p : Place) (e : Expression) : Prop :=
  ∀ part, e.Within part → ∀ name target, part.shape.bareName? = some (name, target) →
    ∃ isCalled, target = (bindName p isCalled name).1

section Expressions

variable {p : Place}

/-- An expression that is no bare name binds names as its operands do. -/
theorem BindsNames.of_operands {e : Expression} (hbare : e.shape.bareName? = none)
    (h : ∀ operand ∈ e.shape.operands, BindsNames p operand) : BindsNames p e :=
  Expression.AllWithin.of_operands (fun name target hshape => by rw [hbare] at hshape; cases hshape)
    h

theorem bindsNames_lowerIdentifier (isCalled : Bool) (n : Node) :
    BindsNames p (lowerIdentifier p isCalled n) := by
  refine Expression.AllWithin.of_operands (fun name target hshape => ?_) (List.forall_mem_nil _)
  obtain ⟨rfl, rfl⟩ := Prod.mk.inj (Option.some.inj hshape)
  exact ⟨isCalled, rfl⟩

/-- A rule binds names where the lowered operands do. -/
theorem Built.bindsNames {lower : Node → Expression} {e : Expression} (h : Built p lower e)
    (hlower : ∀ n, BindsNames p (lower n)) : BindsNames p e := by
  induction h with
  | name isCalled n => exact bindsNames_lowerIdentifier isCalled n
  | operands hbare h =>
    refine .of_operands hbare fun operand hoperand => ?_
    obtain ⟨n, rfl⟩ := h operand hoperand
    exact hlower n
  | call _ h ih =>
    refine .of_operands rfl (List.forall_mem_cons.mpr ⟨ih, List.forall_mem_map.mpr fun a ha => ?_⟩)
    obtain ⟨n, hn⟩ := h a ha
    exact hn ▸ hlower n

theorem bindsNames_raw (text : String) : BindsNames p (.raw text) :=
  .of_operands rfl (List.forall_mem_nil _)

theorem bindsNames_lowerWithin (room : Nat) (n : Node) : BindsNames p (lowerWithin p room n) := by
  induction room generalizing n with
  | zero => exact bindsNames_raw _
  | succ room ih => exact (built_lowerNode p _ n).bindsNames ih

end Expressions

/-! ## Names in the statements of a body -/

/-- An expression that was lowered somewhere in a body. -/
def Setting.Binds (s : Setting) (e : Expression) : Prop :=
  ∃ scopes, LocalScopes scopes ∧ BindsNames ⟨s.source, s.index, s.context, scopes⟩ e

theorem Setting.yields_binds (s : Setting) : s.Yields (demandsOf s.Binds) :=
  yields_of_lowered (fun scopes n h => ⟨scopes, h, bindsNames_lowerWithin _ n⟩)
    ⟨[], localScopes_nil, bindsNames_raw ""⟩

/-! ## Bodies of a file -/

/-- Lowering a file comes to a body in a state. -/
def Reaches (path source : String) (index : SymbolIndex) (root : Node) (b : MemberBody)
    (l : Lowering) : Prop :=
  ∃ before namespace_ n after done rest,
    sites source root = before ++ .type namespace_ n :: after ∧
    bodiesOf source namespace_ n = done ++ b :: rest ∧
    l = done.foldl (fun l b => lowerBody (fileSetting source index root) b l)
      (before.foldl (lowerSite (fileSetting source index root)) (.start path source)).lowering

namespace Reaches

variable {path source : String} {index : SymbolIndex} {root : Node} {b : MemberBody} {l : Lowering}

theorem localScopes (h : Reaches path source index root b l) : LocalScopes l.scopes := by
  obtain ⟨before, namespace_, n, after, done, rest, -, -, rfl⟩ := h
  have hyields : ∀ s : Setting, s.Yields (demandsOf fun _ => True) := fun _ =>
    Setting.yields_of_lowered (fun _ _ _ => trivial) trivial
  have hsites : ∀ site ∈ before, (fileSetting source index root).YieldsIn _ site := fun site _ =>
    Setting.yieldsIn _ hyields site
  have hbefore := sound_lowerSites hsites (sound_start path source)
  exact (sound_lowerBodies (fun b _ => hyields _) hbefore.lowering).scopes

/-- What follows only builds on the body. -/
theorem builds (h : Reaches path source index root b l) :
    Builds (lowerBody (fileSetting source index root) b l).file
      (lowerFile path source index root) := by
  obtain ⟨before, namespace_, n, after, done, rest, hsites, hbodies, rfl⟩ := h
  have hrest := builds_lowerBodies (fileSetting source index root) rest
  have hafter := builds_lowerSites (fileSetting source index root) after
  rw [lowerFile_eq, hsites, List.foldl_append, List.foldl_cons]
  refine .trans ?_ ((hafter _).trans (followed_builds.closeStatements _))
  rw [lowering_lowerSite_type, show bodiesOf (fileSetting source index root).source namespace_ n =
    done ++ b :: rest from hbodies, List.foldl_append, List.foldl_cons]
  exact hrest _

/-- The expressions that are lowered in a body bind their names as the body does. -/
theorem binds (h : Reaches path source index root b l) {id : StatementId} {s : Statement}
    (hfirst : l.file.statementCount ≤ id)
    (hlast : id < (lowerBody (fileSetting source index root) b l).file.statementCount)
    (hs : (lowerFile path source index root).get? id = some s) :
    ∀ e ∈ s.kind.expressions, ((fileSetting source index root).inBody b).Binds e := by
  obtain ⟨t, ht⟩ := exists_get? _ hlast
  obtain ⟨parent, hs'⟩ := h.builds.exists_get? ht
  obtain rfl := Option.some.inj (hs.symm.trans hs')
  have hbody := sound_lowerBody
    (Setting.yields_binds ((fileSetting source index root).inBody b)) (sound_new h.localScopes)
  exact (hbody.statements id t hfirst ht).expressions

theorem exists_bodyIn (h : Reaches path source index root b l) :
    ∃ namespace_ t, TypeIn source root namespace_ t ∧ BodyIn source namespace_ t b := by
  obtain ⟨before, namespace_, n, after, done, rest, hsites, hbodies, -⟩ := h
  have hsite : .type namespace_ n ∈ sites source root := by rw [hsites]; simp
  have hbody : b ∈ bodiesOf source namespace_ n := by rw [hbodies]; simp
  obtain ⟨t, ht, hb⟩ := mem_bodiesOf.mp hbody
  exact ⟨namespace_, t, ⟨n, hsite, ht⟩, hb⟩

end Reaches

/-! ## What a bare name stands for -/

/-- What the name of a member of `owner` may stand for: a local variable or a parameter that hides
the member, or the member. -/
inductive StandsFor (owner : QualifiedName) (name : String) : Option Foresight.Symbol → Prop where
  | hidden {symbol : Foresight.Symbol} : IsLocal name symbol → StandsFor owner name (some symbol)
  | member (kind : MemberKind) :
      StandsFor owner name (some (.member ⟨name, kind, some owner, false⟩))

section Names

variable {p : Place} {owner : QualifiedName} {name : String} {m : MemberDeclaration}

/-- A name that no scope has, and that the type around the place has as a member. -/
theorem exists_bindName_eq_member (hlookup : p.lookup? name = none)
    (howner : p.context.enclosingType = some owner)
    (hm : p.index.declaredMember? owner name = some m) (isCalled : Bool) :
    ∃ kind, (bindName p isCalled name).1 = some (.member ⟨name, kind, some owner, false⟩) := by
  unfold bindName
  rw [hlookup, howner]
  dsimp only [Option.bind_some]
  rw [hm]
  cases isCalled
  · exact ⟨m.kind, rfl⟩
  · exact ⟨.method, rfl⟩

theorem standsFor_bindName (hscopes : LocalScopes p.scopes)
    (howner : p.context.enclosingType = some owner)
    (hm : p.index.declaredMember? owner name = some m) (isCalled : Bool) :
    StandsFor owner name (bindName p isCalled name).1 := by
  cases hlookup : p.lookup? name with
  | none =>
    obtain ⟨kind, hbind⟩ := exists_bindName_eq_member hlookup howner hm isCalled
    exact hbind ▸ .member kind
  | some symbol =>
    have hbind : (bindName p isCalled name).1 = some symbol := by rw [bindName, hlookup]
    exact hbind ▸ .hidden (hscopes.of_lookup? hlookup)

end Names

/-- The bare name of a member of a type stands for it in a body that is lowered in the state `l`: at
each place of the body where no scope has the name, and in the statements that come from the body
unless a local variable or a parameter hides it. -/
structure Serves (path source : String) (index : SymbolIndex) (root : Node) (b : MemberBody)
    (l : Lowering) (member : String) : Prop where
  visible : ∀ scopes isCalled n,
    Place.lookup? ⟨source, index, ((fileSetting source index root).inBody b).context, scopes⟩
      member = none → n.text source = member →
    ∃ kind, (lowerIdentifier
        ⟨source, index, ((fileSetting source index root).inBody b).context, scopes⟩
        isCalled n).shape =
      .reference none member (some (.member ⟨member, kind, some b.type, false⟩))
  lowered : ∀ id s, l.file.statementCount ≤ id →
    id < (lowerBody (fileSetting source index root) b l).file.statementCount →
    (lowerFile path source index root).get? id = some s →
    ∀ e ∈ s.kind.expressions, ∀ part, e.Within part →
    ∀ target, part.shape = .reference none member target → StandsFor b.type member target

theorem Reaches.serves {path source : String} {index : SymbolIndex} {root : Node} {b : MemberBody}
    {l : Lowering} (h : Reaches path source index root b l) {m : MemberDeclaration}
    {member : String} (hm : index.declaredMember? b.type member = some m) :
    Serves path source index root b l member where
  visible := by
    intro scopes isCalled n hlookup htext
    obtain ⟨kind, hbind⟩ := exists_bindName_eq_member hlookup rfl hm isCalled
    refine ⟨kind, ?_⟩
    rw [lowerIdentifier, Place.text, htext]
    exact congrArg _ hbind
  lowered := by
    intro id s hfirst hlast hs e he part hpart target hshape
    obtain ⟨scopes, hscopes, hbinds⟩ := h.binds hfirst hlast hs e he
    obtain ⟨isCalled, rfl⟩ := hbinds part hpart member target (by rw [hshape]; rfl)
    exact standsFor_bindName hscopes rfl hm isCalled

/-- A body that is lowered is in a type of the file. The declarations of the file have this type,
with all members that are written in it, and if the index was extended by them, the bare names of
these members stand for the members. -/
theorem declarations_serve_bodies (path source : String) (index : SymbolIndex) (root : Node)
    (b : MemberBody) (l : Lowering) (h : Reaches path source index root b l) :
    (∃ namespace_ t, TypeIn source root namespace_ t ∧ BodyIn source namespace_ t b) ∧
      ∀ namespace_ t, TypeIn source root namespace_ t → BodyIn source namespace_ t b →
        (∃ d ∈ declarations source root, d.name = b.type ∧
          ∀ member kind, IsMember source t member kind → ∃ m ∈ d.members,
            m.name = member ∧ m.kind = kind) ∧
        ∀ (before : SymbolIndex) (after : List TypeDeclaration),
          index = (before.addAll (declarations source root)).addAll after →
          ∀ member kind, IsMember source t member kind →
            Serves path source index root b l member := by
  refine ⟨h.exists_bodyIn, fun namespace_ t ht hb => ?_⟩
  obtain ⟨d, hd, hname, hmembers⟩ := hb.exists_mem_declarations ht
  refine ⟨⟨d, hd, hname, hmembers⟩, fun before after hindex member kind hmember => ?_⟩
  obtain ⟨m, hm, rfl, -⟩ := hmembers member kind hmember
  have hknows : index.Knows d := hindex ▸ (SymbolIndex.knows_addAll before hd).addAll after
  obtain ⟨declared, hdeclared⟩ := hknows.exists_declaredMember? hm
  exact h.serves (hname ▸ hdeclared)

def fieldSource : String := "class A { int f; int M() { return f; } }"

/-- The method of that source. -/
def fieldMethod : Node :=
  let node (kind field : String) (start stop : Nat) (children : List Node) : Node :=
    ⟨kind, true, field, start, stop, children⟩
  node "method_declaration" "" 17 38
    [node "predefined_type" "returns" 17 20 [], node "identifier" "name" 21 22 [],
      node "parameter_list" "parameters" 22 24 [],
      node "block" "body" 25 38 [node "return_statement" "" 27 36 [node "identifier" "" 34 35 []]]]

/-- The class of that source. -/
def fieldClass : Node :=
  let node (kind field : String) (start stop : Nat) (children : List Node) : Node :=
    ⟨kind, true, field, start, stop, children⟩
  let declarator := node "variable_declarator" "" 14 15 [node "identifier" "name" 14 15 []]
  let declaration := node "variable_declaration" "" 10 15
    [node "predefined_type" "type" 10 13 [], declarator]
  node "class_declaration" "" 0 40
    [node "identifier" "name" 6 7 [],
      node "declaration_list" "body" 8 40
        [node "field_declaration" "" 10 16 [declaration], fieldMethod]]

def fieldTree : Node := ⟨"compilation_unit", true, "", 0, 40, [fieldClass]⟩

def fieldBody : MemberBody := ⟨⟨"", "A"⟩, fieldMethod, fieldMethod.children[3]!⟩

theorem declarations_serve_bodies_field :
    IsMember fieldSource fieldClass "f" .field ∧
      Serves "A.cs" fieldSource (SymbolIndex.empty.addAll (declarations fieldSource fieldTree))
        fieldTree fieldBody (FileLowering.start "A.cs" fieldSource).lowering "f" := by
  have hreaches : Reaches "A.cs" fieldSource
      (SymbolIndex.empty.addAll (declarations fieldSource fieldTree)) fieldTree fieldBody
      (FileLowering.start "A.cs" fieldSource).lowering :=
    ⟨[], "", fieldClass, [], [], [], rfl, rfl, rfl⟩
  have htype : TypeIn fieldSource fieldTree "" fieldClass := ⟨fieldClass, .head _, .self _⟩
  have hbody : BodyIn fieldSource "" fieldClass fieldBody :=
    ⟨⟨_, rfl, rfl⟩, .tail _ (.head _), rfl, .head _⟩
  have hname : Node.text ⟨"identifier", true, "name", 14, 15, []⟩ fieldSource = "f" := by rfl
  have hmember : IsMember fieldSource fieldClass "f" .field := by
    rw [← hname]
    exact .variable_ (.head _) rfl (.head _) rfl (.tail _ (.head _)) rfl rfl
  exact ⟨hmember, ((declarations_serve_bodies "A.cs" fieldSource _ fieldTree fieldBody _ hreaches).2
    "" fieldClass htype hbody).2 .empty [] rfl "f" .field hmember⟩

end CSharp

end Foresight
