import Foresight.Proofs.CSharp.Stored
import Foresight.Proofs.Mining.Single

/-!
# Calls of assertions

Whether a method states an assertion is decided where a call is lowered and asked where scopes are
opened, so the flag has to be right in every call that a file stores (`FlagsCalls`). It is set for
called members only, and lowering puts a called member together in one place: what else a call can
invoke is no access to a member (`lowerNode_cases`). So a call with a receiver of known type opens
its scope exactly if the type and the name do not name an assertion (`scopesFor_call`).
-/

namespace Foresight

namespace CSharp

/-! ## Shapes of lowered expressions -/

/-- Neither a call nor an access to a member. -/
def PlainShape (e : Expression) : Prop :=
  match e.shape with
  | .reference (some _) _ _ | .invocation _ _ => False
  | _ => True

section Rules

variable {p : Place} {lower : Node → Expression} {n : Node}

theorem plainShape_rules :
    PlainShape (lowerIdentifier p false n) ∧ PlainShape (lowerBinary p lower n) ∧
      PlainShape (lowerUnary p lower n) ∧ PlainShape (lowerCast p lower n) ∧
      PlainShape (lowerTypeTest p lower n) ∧ PlainShape (lowerParenthesized p lower n) ∧
      PlainShape (lowerThis p n) ∧ PlainShape (lowerCreation p lower n) ∧
      PlainShape (lowerAssignment p lower n) := by
  refine ⟨trivial, ?_, ?_, ?_, ?_, ?_, trivial, ?_, ?_⟩
  · unfold lowerBinary
    split <;> trivial
  · unfold lowerUnary
    split <;> trivial
  · unfold lowerCast
    split <;> trivial
  · unfold lowerTypeTest
    split
    · dsimp only
      split <;> trivial
    · trivial
  · unfold lowerParenthesized
    split <;> trivial
  · unfold lowerCreation
    split <;> trivial
  · unfold lowerAssignment
    split <;> trivial

/-- What a node is lowered to is no access and no call unless it is the node of one. -/
theorem lowerNode_cases (p : Place) (lower : Node → Expression) (n : Node) :
    (n.kind = "member_access_expression" ∧
        lowerNode p lower n = lowerMemberAccess p lower false n) ∨
      lowerNode p lower n = lowerInvocation p lower n ∨ PlainShape (lowerNode p lower n) := by
  obtain ⟨hidentifier, hbinary, hunary, hcast, htest, hparenthesized, hthis, hcreation,
    hassignment⟩ := @plainShape_rules p lower n
  unfold lowerNode
  split
  · exact Or.inr (Or.inr trivial)
  · split
    · exact Or.inr (Or.inr hidentifier)
    · rename_i hkind
      exact Or.inl ⟨hkind, rfl⟩
    · exact Or.inr (Or.inl rfl)
    · exact Or.inr (Or.inr hbinary)
    · exact Or.inr (Or.inr hunary)
    · exact Or.inr (Or.inr hunary)
    · exact Or.inr (Or.inr hcast)
    · exact Or.inr (Or.inr htest)
    · exact Or.inr (Or.inr htest)
    · exact Or.inr (Or.inr hparenthesized)
    · exact Or.inr (Or.inr hthis)
    · exact Or.inr (Or.inr hthis)
    · exact Or.inr (Or.inr hcreation)
    · exact Or.inr (Or.inr hcreation)
    · exact Or.inr (Or.inr hassignment)
    · exact Or.inr (Or.inr trivial)

end Rules

/-! ## Flags -/

/-- A member that is called on a receiver is a method of a type, and its flag tells whether the type
and the name are those of an assertion. -/
def FlagsCalls (e : Expression) : Prop :=
  ∀ invoked arguments receiver name m, e.shape = .invocation invoked arguments →
    invoked.shape = .reference (some receiver) name (some (.member m)) →
    ∃ owner, m = ⟨name, .method, some owner, isAssertion owner name⟩

theorem PlainShape.flagsCalls {e : Expression} (h : PlainShape e) : FlagsCalls e := by
  intro invoked arguments receiver name m hshape
  rw [PlainShape, hshape] at h
  exact h.elim

section Calls

variable {p : Place} {lower : Node → Expression}

theorem flag_lowerMemberAccess {n : Node} {receiver : Expression} {name : String} {m : Member}
    (h : (lowerMemberAccess p lower true n).shape =
      .reference (some receiver) name (some (.member m))) :
    ∃ owner, m = ⟨name, .method, some owner, isAssertion owner name⟩ := by
  unfold lowerMemberAccess at h
  split at h
  · dsimp only at h
    split at h
    · rename_i owner _
      rw [bindMember, if_pos rfl] at h
      obtain ⟨-, hname, hmember⟩ := Expression.Shape.reference.inj h
      have hm := Symbol.member.inj (Option.some.inj hmember)
      exact ⟨owner, by rw [← hm, hname]⟩
    · cases h
  · cases h

theorem shape_lowerMemberAccess {isCalled : Bool} {n : Node} (invoked : Expression)
    (arguments : List (Argument Expression)) :
    (lowerMemberAccess p lower isCalled n).shape ≠ .invocation invoked arguments := by
  intro h
  unfold lowerMemberAccess at h
  split at h
  · dsimp only at h
    split at h <;> cases h
  · cases h

/-- Operands are lowered to accesses only where their nodes are some. -/
def OnlyAccesses (lower : Node → Expression) : Prop :=
  ∀ n receiver name target, (lower n).shape = .reference (some receiver) name target →
    n.kind = "member_access_expression"

theorem flagsCalls_lowerInvocation (h : OnlyAccesses lower) (n : Node) :
    FlagsCalls (lowerInvocation p lower n) := by
  intro invoked arguments receiver name m hshape hinvoked
  unfold lowerInvocation at hshape
  split at hshape
  · cases hshape
  · rename_i function _
    dsimp only at hshape
    cases hshape
    split at hinvoked
    · exact flag_lowerMemberAccess hinvoked
    · rename_i hkind
      split at hinvoked
      · cases hinvoked
      · exact absurd (h function receiver name _ hinvoked) (by simpa using hkind)

theorem onlyAccesses_lowerWithin (p : Place) (room : Nat) : OnlyAccesses (lowerWithin p room) := by
  intro n receiver name target hshape
  cases room with
  | zero => cases hshape
  | succ room =>
    rcases lowerNode_cases p (lowerWithin p room) n with ⟨hkind, -⟩ | hcall | hplain
    · exact hkind
    · rw [lowerWithin, hcall] at hshape
      unfold lowerInvocation at hshape
      split at hshape <;> cases hshape
    · rw [lowerWithin] at hshape
      rw [PlainShape, hshape] at hplain
      exact hplain.elim

theorem flagsCalls_lowerWithin (p : Place) (room : Nat) (n : Node) :
    FlagsCalls (lowerWithin p room n) := by
  cases room with
  | zero => exact PlainShape.flagsCalls trivial
  | succ room =>
    rcases lowerNode_cases p (lowerWithin p room) n with ⟨-, haccess⟩ | hcall | hplain
    · intro invoked arguments receiver name m hshape
      rw [lowerWithin, haccess] at hshape
      exact absurd hshape (shape_lowerMemberAccess invoked arguments)
    · rw [lowerWithin, hcall]
      exact flagsCalls_lowerInvocation (onlyAccesses_lowerWithin p room) n
    · exact hplain.flagsCalls

theorem Setting.yields_flags (s : Setting) : s.Yields (demandsOf FlagsCalls) :=
  yields_of_lowered (fun _ n _ => flagsCalls_lowerWithin _ _ n) (PlainShape.flagsCalls trivial)

end Calls

/-! ## Scopes -/

section Scopes

variable {id : StatementId} {e invoked : Expression} {arguments : List (Argument Expression)}
  (hshape : e.shape = .invocation invoked arguments)

include hshape

/-- A call opens no other scope than that of calls. -/
theorem scopesFor_of_invocation {file : SourceFile} {s : Statement} (hs : file.get? id = some s)
    (hkind : s.kind = .expression e) :
    Pipeline.standard.scopesFor file id = (Classifier.callScope? id e).toList := by
  have hassigned : Classifier.assignmentScope? id e = none := by
    rw [Classifier.assignmentScope?, hshape]
  rw [Pipeline.scopesFor_standard hs, hkind, Classifier.standard]
  simp only [List.filterMap_cons, List.filterMap_nil, Classifier.handle?, hassigned]
  cases Classifier.callScope? id e <;> rfl

theorem callScope?_of_bare {name : String} {target : Option Foresight.Symbol}
    (hinvoked : invoked.shape = .reference none name target) :
    Classifier.callScope? id e = none := by
  rw [Classifier.callScope?, Classifier.calledMethod?, hshape]
  dsimp only
  rw [hinvoked]
  rfl

theorem callScope?_of_method {receiver : Expression} {name : String} {m : Member}
    (hinvoked : invoked.shape = .reference (some receiver) name (some (.member m)))
    (hmethod : m.kind = .method) :
    Classifier.callScope? id e = if m.isAssertion then none else
      some (.after id ("After call to \"" ++ m.fullName ++ "\"")
        (Classifier.callParameters receiver m)) := by
  rw [Classifier.callScope?, Classifier.calledMethod?, hshape]
  dsimp only
  rw [hinvoked]
  dsimp only
  rw [if_pos hmethod]
  rfl

end Scopes

/-- The qualifier and the member, if any, of what a statement calls that is bound to a member. -/
def calledMember? : StatementKind → Option (Option Expression × Member)
  | .expression ⟨_, _, .invocation ⟨_, _, .reference qualifier _ (some (.member m))⟩ _⟩ =>
    some (qualifier, m)
  | _ => none

/-- A statement that calls a member of a known type opens no scope if the type and the name are
those of an assertion; if they are not and there is a receiver, it opens the scope of the call and
no other. -/
theorem scopesFor_call {path source : String} {index : SymbolIndex} {root : Node}
    {id : StatementId} {s : Statement} {qualifier : Option Expression} {m : Member}
    {owner : QualifiedName} (hs : (lowerFile path source index root).get? id = some s)
    (hcall : calledMember? s.kind = some (qualifier, m)) (howner : m.containingType = some owner) :
    (isAssertion owner m.name = true →
      Pipeline.standard.scopesFor (lowerFile path source index root) id = []) ∧
    ∀ receiver, qualifier = some receiver → isAssertion owner m.name = false →
      Pipeline.standard.scopesFor (lowerFile path source index root) id =
        [.after id ("After call to \"" ++ m.fullName ++ "\"")
          (Classifier.callParameters receiver m)] := by
  unfold calledMember? at hcall
  split at hcall
  · rename_i text type invokedText invokedType qualifier' name m' arguments hkind
    cases hcall
    have hflags := of_mem_expressions_lowerFile Setting.yields_flags hs
    rw [hkind] at hflags
    have hflags := hflags _ (List.mem_singleton_self _)
    rw [scopesFor_of_invocation rfl hs hkind]
    cases qualifier with
    | none =>
      rw [callScope?_of_bare rfl rfl]
      exact ⟨fun _ => rfl, fun receiver h => by cases h⟩
    | some receiver =>
      obtain ⟨owner', rfl⟩ := hflags _ _ receiver name m rfl rfl
      obtain rfl : owner' = owner := Option.some.inj howner
      rw [callScope?_of_method rfl rfl rfl]
      constructor
      · intro hassertion
        rw [if_pos hassertion]
        rfl
      · intro receiver' hreceiver hassertion
        obtain rfl := Option.some.inj hreceiver
        rw [if_neg (by simpa using hassertion)]
        rfl
  · cases hcall

/-- A body that asserts something of a text and trims it. -/
def checkedSource : String :=
  "using System.Diagnostics;\nclass A \x7b void M(string s) \x7b Debug.Assert(s); s.Trim(); " ++
    "\x7d \x7d"

/-- The tree of that source. -/
def checkedTree : Node :=
  let node (kind field : String) (start stop : Nat) (children : List Node) : Node :=
    ⟨kind, true, field, start, stop, children⟩
  let identifier (field : String) (start stop : Nat) := node "identifier" field start stop []
  let call (start dot middle stop : Nat) (arguments : List Node) : Node :=
    node "expression_statement" "" start (stop + 1) [node "invocation_expression" "" start stop
      [node "member_access_expression" "function" start middle
        [identifier "expression" start dot, identifier "name" (dot + 1) middle],
        node "argument_list" "arguments" middle stop arguments]]
  let parameter := node "parameter" "" 43 51
    [node "predefined_type" "type" 43 49 [], identifier "name" 50 51]
  let body := node "block" "body" 53 83
    [call 55 60 67 70 [node "argument" "" 68 69 [identifier "" 68 69]], call 72 73 78 80 []]
  let method := node "method_declaration" "" 36 83
    [node "predefined_type" "returns" 36 40 [], identifier "name" 41 42,
      node "parameter_list" "parameters" 42 52 [parameter], body]
  node "compilation_unit" "" 0 85
    [node "using_directive" "" 0 25 [node "qualified_name" "" 6 24 []],
      node "class_declaration" "" 26 85 [identifier "name" 32 33,
        node "declaration_list" "body" 34 85 [method]]]

theorem scopesFor_call_checked :
    (∃ s receiver, (lowerFile "A.cs" checkedSource .empty checkedTree).get? 0 = some s ∧
      calledMember? s.kind = some (some receiver,
        ⟨"Assert", .method, some ⟨"System.Diagnostics", "Debug"⟩, true⟩) ∧
      Pipeline.standard.scopesFor (lowerFile "A.cs" checkedSource .empty checkedTree) 0 = []) ∧
    ∃ s receiver, (lowerFile "A.cs" checkedSource .empty checkedTree).get? 1 = some s ∧
      calledMember? s.kind = some (some receiver,
        ⟨"Trim", .method, some ⟨"System", "String"⟩, false⟩) ∧
      Pipeline.standard.scopesFor (lowerFile "A.cs" checkedSource .empty checkedTree) 1 =
        [.after 1 "After call to \"System.String.Trim\""
          (Classifier.callParameters receiver
            ⟨"Trim", .method, some ⟨"System", "String"⟩, false⟩)] := by
  have hcalls : ∀ id m, ((lowerFile "A.cs" checkedSource .empty checkedTree).get? id).bind
      (fun s => (calledMember? s.kind).bind fun (qualifier, m) => qualifier.map fun _ => m) =
        some m → ∃ s receiver, (lowerFile "A.cs" checkedSource .empty checkedTree).get? id =
          some s ∧ calledMember? s.kind = some (some receiver, m) := by
    intro id m h
    obtain ⟨s, hs, h⟩ := Option.bind_eq_some_iff.mp h
    obtain ⟨⟨qualifier, m'⟩, hcall, h⟩ := Option.bind_eq_some_iff.mp h
    obtain ⟨receiver, rfl, rfl⟩ := Option.map_eq_some_iff.mp h
    exact ⟨s, receiver, hs, hcall⟩
  obtain ⟨s, receiver, hs, hcall⟩ := hcalls 0
    ⟨"Assert", .method, some ⟨"System.Diagnostics", "Debug"⟩, true⟩ (by decide +kernel)
  obtain ⟨s', receiver', hs', hcall'⟩ := hcalls 1
    ⟨"Trim", .method, some ⟨"System", "String"⟩, false⟩ (by decide +kernel)
  exact ⟨⟨s, receiver, hs, hcall, (scopesFor_call hs hcall rfl).1 (by decide)⟩,
    s', receiver', hs', hcall', (scopesFor_call hs' hcall' rfl).2 receiver' rfl (by decide)⟩

end CSharp

end Foresight
