import Foresight.Code.Compose
import Foresight.Proofs.Template.Subject

/-!
# References that are taken for the subject

An argument is the subject if it is spelled like it. A reference is not asked how it is spelled: the
renderer compares the identifier at its end, and puts it behind what was rendered of the qualifier.
So it becomes the subject's placeholder exactly if the identifier is the subject and nothing is in
front of it (`IsRecognised`).

Of what is spelled like the subject this is a name on its own, as long as it is not written out as
the full name of a type (`isRecognised_spelled_iff`). What an assignment or a call has left as the
subject may well be reached through a qualifier, and is never recognised then, except as an
argument.
-/

namespace Foresight

namespace Expression

/-- How a reference is spelled: its name, behind the qualifier and a dot. -/
def spelled (qualifier : Option Expression) (name : String) : String :=
  match qualifier with
  | some q => q.text ++ "." ++ name
  | none => name

end Expression

namespace Template

open Expression

namespace Rendered

/-- Behind a dot there is nothing, or the dot. -/
theorem template_dot (r : Rendered) : r.dot.template = "" ∨ '.' ∈ r.dot.template.toList := by
  unfold dot
  split
  · rename_i h
    exact Or.inl (String.isEmpty_iff.mp h)
  · exact Or.inr (by simp [append])

theorem append_eq_text_iff (r : Rendered) (text : String) :
    r.append text = .text text ↔ r = .text "" := by
  constructor
  · intro h
    obtain ⟨template, fields⟩ := r
    injection h with htemplate hfields
    have hlength := congrArg String.length htemplate
    rw [String.length_append, Nat.add_eq_right, String.length_eq_zero_iff] at hlength
    obtain rfl : template = "" := hlength
    obtain rfl : fields = .empty := hfields
    rfl
  · rintro rfl
    exact congrArg Rendered.text (String.empty_append ..)

/-- A template with a hole has a suggestion for it. -/
theorem hole_ne_text (r : Rendered) (name suggestion text : String) :
    r.hole name suggestion ≠ .text text := by
  intro h
  have hnames : name ∈ (r.hole name suggestion).fields.names :=
    (Table.mem_names_insert _).mpr (Or.inl rfl)
  rw [h] at hnames
  exact List.not_mem_nil hnames

end Rendered

/-- What is written in front of the name of a reference. -/
def written (subject : String) : Option Expression → Rendered
  | some qualifier => ((renderAt subject qualifier 1).getD (.text qualifier.text)).dot
  | none => .text ""

/-- A variable that is no subject becomes a hole. -/
def IsVariable (target : Option Symbol) : Prop :=
  ∃ name type, target = some (.local_ name type) ∨ target = some (.parameter name type)

/-- A reference is taken for the subject: its identifier is the subject or happens to be spelled
like its placeholder, and there is nothing in front. -/
structure IsRecognised (subject : String) (qualifier : Option Expression) (name : String)
    (target : Option Symbol) : Prop where
  alone : written subject qualifier = .text ""
  named : identifier qualifier.isSome name target = subject ∨
    identifier qualifier.isSome name target = variablePlaceholder ∧ ¬ IsVariable target

section Reference

variable {subject name : String} {qualifier : Option Expression} {target : Option Symbol}

theorem render_reference {text : String} {type : TypeInfo} (parameters : Fields) :
    render ⟨text, type, .reference qualifier name target⟩ parameters =
      some (renderName (subjectOf parameters) qualifier.isSome name target
        (written (subjectOf parameters) qualifier)) := by
  cases qualifier <;> simp [render, renderAt, written, Expression.maxDepth]

theorem variableHole_ne_text (r : Rendered) (name : String) (type : TypeInfo) (text : String) :
    variableHole r name type ≠ .text text := by
  unfold variableHole
  split
  · exact Rendered.hole_ne_text r _ _ text
  · exact Rendered.hole_ne_text r _ _ text

/-- No text behind a qualifier is spelled like the placeholder. -/
theorem written_append_iff {identifier : String} :
    (written subject qualifier).append identifier = .text variablePlaceholder ↔
      written subject qualifier = .text "" ∧ identifier = variablePlaceholder := by
  constructor
  · intro h
    have htemplate : (written subject qualifier).template = "" := by
      cases qualifier with
      | none => rfl
      | some q =>
        refine (Rendered.template_dot _).resolve_right fun hdot => ?_
        have hplaceholder := congrArg (fun r : Rendered => r.template.toList) h
        have hmem : '.' ∈ variablePlaceholder.toList := by
          rw [← show _ = variablePlaceholder.toList from hplaceholder, Rendered.append,
            String.toList_append]
          exact List.mem_append_left _ hdot
        exact absurd hmem (by decide)
    have hidentifier : identifier = variablePlaceholder := by
      have happended := congrArg Rendered.template h
      rwa [Rendered.append, htemplate, String.empty_append] at happended
    rw [hidentifier, Rendered.append_eq_text_iff] at h
    exact ⟨h, hidentifier⟩
  · rintro ⟨halone, rfl⟩
    exact (Rendered.append_eq_text_iff ..).mpr halone

theorem renderName_eq_placeholder_iff :
    renderName subject qualifier.isSome name target (written subject qualifier) =
        .text variablePlaceholder ↔
      IsRecognised subject qualifier name target := by
  rw [renderName_eq]
  split
  · rename_i hnamed
    rw [Rendered.append_eq_text_iff]
    exact ⟨fun halone => ⟨halone, Or.inl hnamed⟩, IsRecognised.alone⟩
  · rename_i hnamed
    split
    · refine iff_of_false (variableHole_ne_text _ _ _ _) fun h => ?_
      exact (h.named.resolve_left hnamed).2 ⟨_, _, Or.inl rfl⟩
    · refine iff_of_false (variableHole_ne_text _ _ _ _) fun h => ?_
      exact (h.named.resolve_left hnamed).2 ⟨_, _, Or.inr rfl⟩
    · rename_i hlocal hparameter
      have hvariable : ¬ IsVariable target := by
        rintro ⟨other, type, h | h⟩
        · exact hlocal other type h
        · exact hparameter other type h
      rw [written_append_iff]
      exact ⟨fun ⟨halone, hspelled⟩ => ⟨halone, Or.inr ⟨hspelled, hvariable⟩⟩,
        fun h => ⟨h.alone, (h.named.resolve_left hnamed).1⟩⟩

/-- Of what is spelled like the subject, a name on its own is recognised, if it is also what is
written for it. -/
theorem isRecognised_spelled_iff (hclear : Clear (identifier qualifier.isSome name target)) :
    IsRecognised (spelled qualifier name) qualifier name target ↔
      qualifier = none ∧ identifier false name target = name := by
  have hplaceholder : identifier qualifier.isSome name target ≠ variablePlaceholder := by
    intro h
    rw [h] at hclear
    exact absurd hclear (by decide)
  constructor
  · rintro ⟨-, hnamed⟩
    have hsubject := hnamed.resolve_right fun h => hplaceholder h.1
    cases qualifier with
    | none => exact ⟨rfl, hsubject⟩
    | some q =>
      -- With its qualifier the reference is longer than its name.
      have hlength := congrArg String.length hsubject
      simp only [identifier, spelled, Option.isSome_some, String.length_append] at hlength
      have hdot : ".".length = 1 := rfl
      omega
  · rintro ⟨rfl, hname⟩
    exact ⟨rfl, Or.inl hname⟩

end Reference

/-- A reference that is spelled like the subject becomes its placeholder as an argument, and on its
own exactly if its identifier is recognised. If it is spelled as names are, this is when it has no
qualifier and is not written out as the full name of a type. -/
theorem render_subject_iff {parameters : Fields} {subject : String}
    (hsubject : Scope.subject? parameters = some subject) {e : Expression}
    (htext : e.text = subject) {qualifier : Option Expression} {name : String}
    {target : Option Symbol} (hshape : e.shape = .reference qualifier name target) :
    (∀ (parameter : String) (r : Rendered),
        renderCall (subjectOf parameters) [⟨e, some parameter⟩] r =
          r.append ("(" ++ variablePlaceholder ++ ")")) ∧
      (render e parameters = some (.text variablePlaceholder) ↔
        IsRecognised subject qualifier name target) ∧
      (e.text = spelled qualifier name → Clear (identifier qualifier.isSome name target) →
        (render e parameters = some (.text variablePlaceholder) ↔
          qualifier = none ∧ identifier false name target = name)) := by
  obtain ⟨text, type, shape⟩ := e
  cases hshape
  obtain rfl : text = subject := htext
  have hsubject : subjectOf parameters = text := by rw [subjectOf, hsubject, Option.getD_some]
  have hrender : render ⟨text, type, .reference qualifier name target⟩ parameters =
      some (.text variablePlaceholder) ↔ IsRecognised text qualifier name target := by
    rw [render_reference, hsubject, Option.some_inj, renderName_eq_placeholder_iff]
  refine ⟨fun parameter r => ?_, hrender, fun hspelled hclear => ?_⟩
  · have hbound : boundArguments
        [⟨⟨text, type, .reference qualifier name target⟩, some parameter⟩] =
          [(parameter, text)] := rfl
    rw [renderCall, hbound, renderArguments, renderArgument, if_pos hsubject.symm]
    simp only [Rendered.append, String.append_assoc]
  · rw [hrender]
    obtain rfl : text = spelled qualifier name := hspelled
    exact isRecognised_spelled_iff hclear

/-- The lines of an order. -/
def orderLines : Expression := .member (some (.local_ "order" .unknown)) "Lines" none .unknown

/-- What a call on the lines of an order leaves. -/
def linesCalled : Fields := .ofList [(Scope.variableName, "order.Lines")]

/-- The lines are taken for the subject as an argument, and not on their own. -/
theorem render_subject_iff_lines :
    (∀ (parameter : String) (r : Rendered),
        renderCall (subjectOf linesCalled) [⟨orderLines, some parameter⟩] r =
          r.append ("(" ++ variablePlaceholder ++ ")")) ∧
      render orderLines linesCalled ≠ some (.text variablePlaceholder) := by
  have hsubject : Scope.subject? linesCalled = some "order.Lines" := by decide
  have htext : orderLines.text = "order.Lines" := by decide
  obtain ⟨hargument, -, hreference⟩ := render_subject_iff hsubject htext rfl
  refine ⟨hargument, fun h => ?_⟩
  obtain ⟨hqualifier, -⟩ := (hreference (by decide) (by decide)).mp h
  exact Option.some_ne_none _ hqualifier

/-- A reference that is spelled like the subject is not always its placeholder. -/
theorem dotted_subject_unrecognised :
    ¬ ∀ (parameters : Fields) (subject : String) (e : Expression),
      Scope.subject? parameters = some subject → subject ≠ "" → e.shape.isReference = true →
        e.text = subject → render e parameters = some (.text variablePlaceholder) := by
  intro h
  have hlines := h linesCalled "order.Lines" orderLines (by decide) (by decide) rfl (by decide)
  have hrendered : render orderLines linesCalled =
      some ⟨"$order$.Lines", .ofList [("order", suggestVariableName)]⟩ := by decide +kernel
  rw [hrendered] at hlines
  exact absurd hlines (by decide)

end Template

end Foresight
