import Mathlib.Data.List.Count
import Foresight.Proofs.Template.Placeholders

/-!
# The placeholder for a new variable

A declaration and a loop over a collection introduce a variable: the builder puts a placeholder of
its own in front of what it rendered, under a fixed name. What was rendered has holes as well, which
are named after parameters, locals and types of the program (`mem_holeNames_of_mem_fields`). If none
of them has the fixed name, the new variable has a placeholder to itself. Otherwise both holes are
one, and the suggestion for the variable takes the place of the other (`introduces_freshName`).
-/

namespace Foresight

namespace Template

/-- The holes of what an expression is rendered as are its own and those of what is inside of it. -/
theorem mem_holeNames_of_mem_fields {e : Expression} {parameters : Fields} {r : Rendered}
    (hr : render e parameters = some r) {name : String} (hname : name ∈ r.fields.names) :
    ∃ part, e.Within part ∧ name ∈ holeNames part := by
  have hkept : Kept (fun _ => True) (fun name => ∃ part, e.Within part ∧ name ∈ holeNames part)
      (fun r => ∀ name ∈ r.fields.names, ∃ part, e.Within part ∧ name ∈ holeNames part) := {
    clear := fun _ => trivial
    join := fun _ _ => trivial
    text := fun _ => List.forall_mem_nil _
    subject := id
    append := fun h _ => h
    surround := fun h _ _ => h
    hole := fun h hname _ other hother => by
      rcases (Table.mem_names_insert _).mp hother with rfl | hother
      · exact hname
      · exact h other hother
    operator := fun hl hr _ other hother =>
      ((Table.mem_names_absorb ..).mp hother).elim (hr other) (hl other) }
  have hmade : e.AllWithin (MadeOf (fun _ => True)
      fun name => ∃ part, e.Within part ∧ name ∈ holeNames part) := fun part hpart =>
    ⟨fun _ _ => trivial, fun name hname => ⟨part, hpart, hname⟩⟩
  exact hkept.renderAt _ e 0 hmade r hr name hname

end Template

namespace Builder

open Template

/-- The name of the placeholder that a builder introduces for a new variable. -/
def freshName? : Builder → Option String
  | .localVariable => some "name"
  | .foreach => some "iterator"
  | _ => none

/-- A placeholder is put in front of those of what was rendered. It occurs once if they are others,
and it has the suggestion for a new variable in any case. -/
structure Introduces (fresh : String) (r : Rendered) (o : Observation) : Prop where
  first : ∃ rest, placeholders o.template = fresh :: (placeholders r.template ++ rest) ∧
    ∀ name ∈ rest, name = "END"
  fields : o.fields = r.fields.insert fresh suggestVariableName
  once : (placeholders o.template).count fresh = 1 ↔ fresh ∉ r.fields.names

theorem introduces_behind {r : Rendered} (h : r.Matched) {fresh : String}
    (hvariable : fresh ≠ Scope.variableName) (hcaret : fresh ≠ "END")
    {before between after : String} {rest : List String} (hbefore : Clear before)
    (hfresh : Clear fresh) (hbetween : Clear between) (hafter : Reads after rest)
    (hrest : ∀ name ∈ rest, name = "END") (key file : String) :
    Introduces fresh r ⟨key, file, before ++ placeholder fresh ++ between ++ r.template ++ after,
      r.fields.insert fresh suggestVariableName⟩ := by
  obtain ⟨names, hreads, hnames, hfields⟩ := h
  have hall := (hreads.behind hbefore hfresh hbetween hafter).splitAt.2
  have hmem : fresh ∈ names ++ rest ↔ fresh ∈ r.fields.names := by
    refine ⟨fun h => ?_, fun h => List.mem_append_left _ (hfields fresh h)⟩
    rcases List.mem_append.mp h with h | h
    · exact ((hnames fresh h).resolve_left hvariable).resolve_left hcaret
    · exact absurd (hrest fresh h) hcaret
  refine ⟨⟨rest, ?_, hrest⟩, rfl, ?_⟩
  · rw [hreads.splitAt.2]
    exact hall
  · dsimp only
    rw [hall, List.count_cons_self, ← hmem, ← List.count_eq_zero]
    omega

theorem mem_holeNames_of_mem_renderOrReplace {e : Expression} {parameters : Fields} {name : String}
    (h : name ∈ (renderOrReplace e parameters).fields.names) :
    ∃ part, e.Within part ∧ name ∈ holeNames part := by
  unfold renderOrReplace at h
  cases hr : render e parameters with
  | none =>
    rw [hr] at h
    exact absurd h List.not_mem_nil
  | some r =>
    rw [hr] at h
    exact mem_holeNames_of_mem_fields hr h

/-- The variable has a placeholder to itself if nothing inside of the expression has a hole with the
same name. -/
theorem Introduces.count_eq_one {fresh : String} {e : Expression} {parameters : Fields}
    {o : Observation} (h : Introduces fresh (renderOrReplace e parameters) o)
    (hfresh : ∀ part, e.Within part → fresh ∉ holeNames part) :
    (placeholders o.template).count fresh = 1 := by
  refine h.once.mpr fun hmem => ?_
  obtain ⟨part, hpart, hname⟩ := mem_holeNames_of_mem_renderOrReplace hmem
  exact hfresh part hpart hname

/-- A builder that introduces a variable puts the placeholder for it in front of what it rendered,
or the value cannot be rendered and the written text is taken. The placeholder is the variable's own
just if what was rendered has no hole with the same name, so it is if there is none with this name
inside of the value or the collection. -/
theorem introduces_freshName (b : Builder) {fresh : String} (hb : b.freshName? = some fresh)
    {file : SourceFile} {s : Statement} {scope : Scope} (hclear : s.kind.Clear (file.textOf s))
    {o : Observation} (ho : b.build? file s scope = some o) :
    ∃ e ∈ s.kind.expressions,
      (b = .localVariable ∧ render e scope.parameters = none ∧
        ∀ name ∈ placeholders o.template, name = Scope.variableName) ∨
      Introduces fresh (renderOrReplace e scope.parameters) o ∧
        ((∀ part, e.Within part → fresh ∉ holeNames part) →
          (placeholders o.template).count fresh = 1) := by
  obtain ⟨r, hr, rfl⟩ := Option.map_eq_some_iff.mp ho
  obtain ⟨kind, parent, span, synthesized⟩ := s
  dsimp only at hclear hr ⊢
  cases b with
  | localVariable =>
    obtain rfl := Option.some.inj hb
    cases kind with
    | declaration declared =>
      obtain ⟨v, value, rfl, hvalue, ⟨hnone, rfl⟩ | ⟨rendered, type, hrendered, htype, rfl⟩⟩ :=
        declarationTemplate?_cases scope.parameters hr
      · refine ⟨value, mem_expressions_declaration hvalue, .inl ⟨rfl, hnone, fun name hname => ?_⟩⟩
        obtain ⟨count, hreads⟩ := exists_reads_replaceSubject scope.parameters hclear.source
        exact List.eq_of_mem_replicate (hreads.splitAt.2 ▸ hname)
      · have hmem := mem_expressions_declaration hvalue
        have hintroduces := introduces_behind
          (matched_render (hclear.expressions value hmem) scope.parameters rendered hrendered)
          (by decide) (by decide) (clear_declared hclear htype) (by decide : Clear "name")
          (by decide : Clear " = ") (.text (by decide : Clear ";")) (List.forall_mem_nil _)
          scope.key ""
        have hreplace : renderOrReplace value scope.parameters = rendered := by
          rw [renderOrReplace, hrendered, Option.getD_some]
        rw [← hreplace] at hintroduces ⊢
        exact ⟨value, hmem, .inr ⟨hintroduces, hintroduces.count_eq_one⟩⟩
    | _ => cases hr
  | foreach =>
    obtain rfl := Option.some.inj hb
    cases kind with
    | foreach iterator collection body =>
      rw [show template? .foreach (.foreach iterator collection body) _ _ =
        foreachTemplate? iterator collection scope.parameters from rfl, foreachTemplate?_eq] at hr
      obtain ⟨type, htype, rfl⟩ := Option.map_eq_some_iff.mp hr
      have hmem := List.mem_singleton_self collection
      have hintroduces := introduces_behind
        (matched_renderOrReplace scope.parameters (hclear.expressions collection hmem))
        (by decide) (by decide) (clear_iterated hclear htype) (by decide : Clear "iterator")
        (by decide : Clear " in ")
        (reads_block (by decide : Clear ") \x7b ") (by decide : Clear " \x7d"))
        (List.forall_mem_singleton.mpr rfl) scope.key ""
      exact ⟨collection, hmem, .inr ⟨hintroduces, hintroduces.count_eq_one⟩⟩
    | _ => cases hr
  | _ => cases hb

/-- The bag has a hole of its own, and what it is asked for as well. -/
theorem introduces_freshName_taken :
    ∃ o, Builder.localVariable.build? takenFile takenStatement (.after 0 "" .empty) = some o ∧
      o.template = "var $name$ = $BagItem$.Take($limit$);" ∧
      (placeholders o.template).count "name" = 1 := by
  have hbuilt : (Builder.localVariable.build? takenFile takenStatement (.after 0 "" .empty)).map
      (·.template) = some "var $name$ = $BagItem$.Take($limit$);" := by decide +kernel
  obtain ⟨o, ho, htemplate⟩ := Option.map_eq_some_iff.mp hbuilt
  obtain ⟨e, he, h⟩ := introduces_freshName .localVariable rfl clear_taken ho
  obtain rfl := List.mem_singleton.mp he
  have hrendered : (render taken .empty).isSome = true := by decide +kernel
  have hnames : "name" ∉ (renderOrReplace taken .empty).fields.names := by decide +kernel
  rcases h with ⟨-, hnone, -⟩ | ⟨hintroduces, -⟩
  · rw [show (Scope.after 0 "" .empty).parameters = .empty from rfl] at hnone
    rw [hnone] at hrendered
    cases hrendered
  · exact ⟨o, ho, htemplate, hintroduces.once.mpr hnames⟩

/-- A command for something that is bound to a parameter called `name`. -/
def command : Expression :=
  .create ⟨"App", "Command"⟩ [⟨.stringLiteral "list", some "name"⟩]

/-- The variable and the argument have one hole, with the suggestion for a variable. -/
theorem shared_hole_command :
    let file := SourceFile.new "A.cs" "var cmd = new Command(\"list\");"
    let s : Statement := ⟨.declaration [⟨"cmd", command.type, true, "var", command⟩], none, ⟨0, 30⟩,
      none⟩
    s.kind.Clear (file.textOf s) ∧
      ∃ o, Builder.localVariable.build? file s (.after 0 "" .empty) = some o ∧
        (placeholders o.template).count "name" = 2 ∧
        o.fields.get? "name" = some suggestVariableName := by
  intro file s
  have hlist : ClearWithin (.stringLiteral "list") :=
    .of_operands (by decide) (List.forall_mem_nil _)
  have hclear : s.kind.Clear (file.textOf s) :=
    ⟨by decide +kernel, by decide, List.forall_mem_singleton.mpr
      (.of_operands (by decide) (List.forall_mem_singleton.mpr hlist))⟩
  have hbuilt : (Builder.localVariable.build? file s (.after 0 "" .empty)).map
      (fun o => ((placeholders o.template).count "name", o.fields.get? "name")) =
      some (2, some suggestVariableName) := by decide +kernel
  obtain ⟨o, ho, hshared⟩ := Option.map_eq_some_iff.mp hbuilt
  obtain ⟨hcount, hget⟩ := Prod.mk.inj hshared
  exact ⟨hclear, o, ho, hcount, hget⟩

end Builder

end Foresight
