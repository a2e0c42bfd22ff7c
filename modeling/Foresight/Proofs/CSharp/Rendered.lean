import Foresight.Proofs.CSharp.Operands
import Foresight.Proofs.CSharp.Stored
import Foresight.Proofs.Template.Rendering

/-!
# Rendering lowered expressions

Lowering counts the levels of an expression and keeps as text what is nested too deep; the renderer
counts levels too, in its own way, and its guard refuses what is nested too deep. An expression that
was lowered with some room is rendered through no more levels than that (`Fits`): what a call
invokes is put together on the level of the call, and so is it rendered. As both limits are the
same, the guard refuses no expression of a lowered file, and one that has no template is or requires
an incomplete one (`render_stored`).
-/

namespace Foresight.CSharp

open Template

/-- An expression, and all that is inside of it, is rendered through no more levels than there is
room. -/
def Fits (room : Nat) : Expression → Prop := Expression.AllWithin (renderDepth · ≤ room)

theorem fits_raw (room : Nat) (text : String) : Fits room (.raw text) :=
  .of_operands (Nat.zero_le room) (List.forall_mem_nil _)

/-- A rule takes one level more than the lowered operands. -/
theorem Built.fits {p : Place} {lower : Node → Expression} {room : Nat} {e : Expression}
    (h : Built p lower e) (hlower : ∀ n, Fits room (lower n)) : Fits (room + 1) e := by
  have hlower' : ∀ n, Fits (room + 1) (lower n) := fun n =>
    (hlower n).mono fun _ => Nat.le_succ_of_le
  induction h with
  | name isCalled n => exact .of_operands (Nat.zero_le _) (List.forall_mem_nil _)
  | operands _ h =>
    refine .of_operands (renderDepth_le_of_operands fun operand hoperand => ?_)
      fun operand hoperand => ?_
    all_goals obtain ⟨n, rfl⟩ := h operand hoperand
    · exact (hlower n).self
    · exact hlower' n
  | call _ h ih =>
    -- The invoked expression has as many levels as the call, and the arguments have one less.
    refine .of_operands (Nat.le_trans (renderDepth_invocation_le ..) ih.self)
      (List.forall_mem_cons.mpr ⟨ih, List.forall_mem_map.mpr fun a ha => ?_⟩)
    obtain ⟨n, hn⟩ := h a ha
    exact hn ▸ hlower' n

theorem fits_lowerWithin (p : Place) (room : Nat) (n : Node) :
    Fits room (lowerWithin p room n) := by
  induction room generalizing n with
  | zero => exact fits_raw 0 _
  | succ room ih => exact (built_lowerNode p _ n).fits ih

theorem Setting.yields_fits (s : Setting) : s.Yields (demandsOf (Fits Expression.maxDepth)) :=
  yields_of_lowered (fun _ n _ => fits_lowerWithin _ _ n) (fits_raw _ "")

/-- The renderer's guard makes no difference for a stored expression, nor for what is inside of it,
and there is no template of it just if an incomplete expression is required. -/
theorem render_stored {path source : String} {index : SymbolIndex} {root : Node} {id : StatementId}
    {s : Statement} (hs : (lowerFile path source index root).get? id = some s)
    {stored : Expression} (hstored : stored ∈ s.kind.expressions) {e : Expression}
    (he : stored.Within e) (parameters : Fields) :
    renderDepth e ≤ Expression.maxDepth ∧
      render e parameters = unguarded (subjectOf parameters) e ∧
      (render e parameters = none ↔ ∃ part, e.Requires part ∧ part.isIncomplete = true) := by
  have hdepth : renderDepth e ≤ Expression.maxDepth :=
    of_mem_expressions_lowerFile Setting.yields_fits hs stored hstored e he
  have hrender : render e parameters = unguarded (subjectOf parameters) e :=
    renderAt_eq_unguarded _ e 0 (by rwa [Nat.zero_add])
  exact ⟨hdepth, hrender, hrender ▸ unguarded_eq_none_iff _ e⟩

/-- A source that returns what a call gives of which the result is called, negated some times. -/
def negatedSource (levels : Nat) : String :=
  "class A \x7b bool M() \x7b return " ++ String.ofList (List.replicate levels '!') ++
    "f()(); \x7d \x7d"

def negated : (levels start : Nat) → Node
  | 0, start =>
    let arguments (start : Nat) : Node :=
      ⟨"argument_list", true, "arguments", start, start + 2, []⟩
    ⟨"invocation_expression", true, "", start, start + 5,
      [⟨"invocation_expression", true, "function", start, start + 3,
        [⟨"identifier", true, "function", start, start + 1, []⟩, arguments (start + 1)]⟩,
        arguments (start + 3)]⟩
  | levels + 1, start =>
    ⟨"prefix_unary_expression", true, "", start, start + levels + 6,
      [⟨"!", false, "", start, start + 1, []⟩, negated levels (start + 1)]⟩

/-- The tree of that source. -/
def negatedTree (levels : Nat) : Node :=
  let node (kind field : String) (start stop : Nat) (children : List Node) : Node :=
    ⟨kind, true, field, start, stop, children⟩
  let return_ := node "return_statement" "" 21 (levels + 34) [negated levels 28]
  let method := node "method_declaration" "" 10 (levels + 36)
    [node "predefined_type" "returns" 10 14 [], node "identifier" "name" 15 16 [],
      node "parameter_list" "parameters" 16 18 [],
      node "block" "body" 19 (levels + 36) [return_]]
  node "compilation_unit" "" 0 (levels + 38)
    [node "class_declaration" "" 0 (levels + 38)
      [node "identifier" "name" 6 7 [],
        node "declaration_list" "body" 8 (levels + 38) [method]]]

/-- The value that the one method of that source returns, as it is stored. -/
def negatedValue (levels : Nat) : Option Expression :=
  ((lowerFile "A.cs" (negatedSource levels) .empty (negatedTree levels)).get? 0).bind
    fun s => s.kind.expressions.head?

/-- On the last level that is modelled, the call of a result is in the way of a template; one level
further in it is text. -/
theorem render_stored_negated :
    (∃ e ∈ negatedValue 47, render e .empty = none ∧
      ∃ part, e.Requires part ∧ part.isIncomplete = true) ∧
    ∃ e ∈ negatedValue 48, renderDepth e = Expression.maxDepth ∧
      ¬ ∃ part, e.Requires part ∧ part.isIncomplete = true := by
  have hlast : (negatedValue 47).map (fun e => (render e .empty).isNone) = some true := by
    decide +kernel
  have htext : (negatedValue 48).map (fun e => (renderDepth e, (render e .empty).isNone)) =
      some (Expression.maxDepth, false) := by
    decide +kernel
  obtain ⟨e, he, hnone⟩ := Option.map_eq_some_iff.mp hlast
  obtain ⟨e', he', hsome⟩ := Option.map_eq_some_iff.mp htext
  obtain ⟨hdepth, hsome⟩ := Prod.mk.inj hsome
  obtain ⟨s, hs, hhead⟩ := Option.bind_eq_some_iff.mp he
  obtain ⟨s', hs', hhead'⟩ := Option.bind_eq_some_iff.mp he'
  have hstored := render_stored hs (List.mem_of_head? hhead) (.self e) .empty
  have hstored' := render_stored hs' (List.mem_of_head? hhead') (.self e') .empty
  have hrender := Option.isNone_iff_eq_none.mp hnone
  refine ⟨⟨e, he, hrender, hstored.2.2.mp hrender⟩, e', he', hdepth, fun hfails => ?_⟩
  rw [hstored'.2.2.mpr hfails] at hsome
  cases hsome

end Foresight.CSharp
