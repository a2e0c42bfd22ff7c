import Foresight.CSharp.Expressions
import Foresight.Proofs.Code.Parts

/-!
# Operands of lowered expressions

A rule for expressions lowers all operands with the function that it is given. Only what a call
invokes is not always one of them: a bare name or an access to a member is put together by the rule
for the call itself, and it is the operands of the access that are lowered one level further in
(`Built`). What holds of every lowered expression is proved by induction on that.
-/

namespace Foresight.CSharp

/-- What a rule puts together from operands that were lowered with `lower`. -/
inductive Built (p : Place) (lower : Node → Expression) : Expression → Prop where
  | name (isCalled : Bool) (n : Node) : Built p lower (lowerIdentifier p isCalled n)
  | operands {e : Expression} (hbare : e.shape.bareName? = none)
      (h : ∀ operand ∈ e.shape.operands, ∃ n, lower n = operand) : Built p lower e
  | call {text : String} {type : TypeInfo} {invoked : Expression}
      {arguments : List (Argument Expression)} (hinvoked : Built p lower invoked)
      (h : ∀ a ∈ arguments, ∃ n, lower n = a.value) :
      Built p lower ⟨text, type, .invocation invoked arguments⟩

section Rules

variable (p : Place) (lower : Node → Expression)

variable {p lower} in
theorem built_leaf {e : Expression} (hbare : e.shape.bareName? = none)
    (h : e.shape.operands = []) : Built p lower e :=
  .operands hbare (h ▸ List.forall_mem_nil _)

theorem built_raw (text : String) : Built p lower (.raw text) := built_leaf rfl rfl

variable {p lower} in
theorem built_operand {e : Expression} {n : Node} (hbare : e.shape.bareName? = none)
    (h : e.shape.operands = [lower n]) : Built p lower e :=
  .operands hbare (h ▸ List.forall_mem_singleton.mpr ⟨n, rfl⟩)

variable {p lower} in
theorem built_pair {e : Expression} {left right : Node} (hbare : e.shape.bareName? = none)
    (h : e.shape.operands = [lower left, lower right]) : Built p lower e :=
  .operands hbare (h ▸ List.forall_mem_cons.mpr
    ⟨⟨left, rfl⟩, List.forall_mem_singleton.mpr ⟨right, rfl⟩⟩)

theorem exists_of_mem_lowerArguments (declared : Option (List String))
    (arguments : List (Option String × Node)) :
    ∀ a ∈ lowerArguments lower declared arguments, ∃ n, lower n = a.value := by
  intro a ha
  obtain ⟨⟨⟨name, value⟩, position⟩, -, rfl⟩ := List.mem_map.mp ha
  exact ⟨value, rfl⟩

theorem built_lowerMemberAccess (isCalled : Bool) (n : Node) :
    Built p lower (lowerMemberAccess p lower isCalled n) := by
  unfold lowerMemberAccess
  split
  · dsimp only
    split <;> exact built_operand rfl rfl
  · exact built_raw ..

theorem built_lowerInvocation (n : Node) : Built p lower (lowerInvocation p lower n) := by
  unfold lowerInvocation
  split
  · exact built_raw ..
  · rename_i function _
    have harguments := exists_of_mem_lowerArguments lower
    dsimp only
    split
    · exact .call (built_lowerMemberAccess p lower true function) (harguments _ _)
    · split
      · exact .call (.name true function) (harguments _ _)
      · refine .operands rfl (List.forall_mem_cons.mpr ⟨⟨function, rfl⟩, ?_⟩)
        exact List.forall_mem_map.mpr (harguments _ _)

theorem built_lowerCreation (n : Node) : Built p lower (lowerCreation p lower n) := by
  have harguments := exists_of_mem_lowerArguments lower
  unfold lowerCreation
  split <;> exact .operands rfl (List.forall_mem_map.mpr (harguments _ _))

theorem built_lowerBinary (n : Node) : Built p lower (lowerBinary p lower n) := by
  unfold lowerBinary
  split
  · exact built_pair rfl rfl
  · exact built_raw ..

theorem built_lowerAssignment (n : Node) : Built p lower (lowerAssignment p lower n) := by
  unfold lowerAssignment
  split
  · exact built_pair rfl rfl
  · exact built_raw ..

theorem built_lowerUnary (n : Node) : Built p lower (lowerUnary p lower n) := by
  unfold lowerUnary
  split
  · exact built_operand rfl rfl
  · exact built_raw ..

theorem built_lowerCast (n : Node) : Built p lower (lowerCast p lower n) := by
  unfold lowerCast
  split
  · exact built_operand rfl rfl
  · exact built_raw ..

theorem built_lowerTypeTest (n : Node) : Built p lower (lowerTypeTest p lower n) := by
  unfold lowerTypeTest
  split
  · dsimp only
    split <;> exact built_operand rfl rfl
  · exact built_raw ..

theorem built_lowerParenthesized (n : Node) : Built p lower (lowerParenthesized p lower n) := by
  unfold lowerParenthesized
  split
  · exact built_operand rfl rfl
  · exact built_raw ..

theorem built_lowerNode (n : Node) : Built p lower (lowerNode p lower n) := by
  unfold lowerNode
  split
  · exact built_leaf rfl rfl
  · split
    · exact .name false n
    · exact built_lowerMemberAccess p lower false n
    · exact built_lowerInvocation p lower n
    · exact built_lowerBinary p lower n
    · exact built_lowerUnary p lower n
    · exact built_lowerUnary p lower n
    · exact built_lowerCast p lower n
    · exact built_lowerTypeTest p lower n
    · exact built_lowerTypeTest p lower n
    · exact built_lowerParenthesized p lower n
    · exact built_leaf rfl rfl
    · exact built_leaf rfl rfl
    · exact built_lowerCreation p lower n
    · exact built_lowerCreation p lower n
    · exact built_lowerAssignment p lower n
    · exact built_raw ..

end Rules

end Foresight.CSharp
