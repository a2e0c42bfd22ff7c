import Foresight.Mining
import Foresight.Proofs.Ranking.Merging
import Foresight.Proofs.Template.Rendering

/-!
# What mining suggests

A placeholder of a mined template stands for a variable of some type, for a fresh name or for
something that the user fills in: no suggestion is a list of constants (`isPlain_analyzeFile`).
Merging is therefore the same in any order.
-/

namespace Foresight

namespace Template

open Ranking

/-- A template all of whose suggestions are plain. -/
structure Rendered.IsPlain (r : Rendered) : Prop where
  fields : Ranking.IsPlain r.fields

theorem constants?_variableOfType (type : TypeRef) : constants? (variableOfType type) = none := by
  have hlead : "variableOfType(\"".toList = 'v' :: "ariableOfType(\"".toList := by decide
  have hdrop : Text.dropLead? constantLead.toList (variableOfType type).toList = none := by
    unfold variableOfType
    rw [String.append_assoc, String.toList_append, hlead]
    exact if_neg (by decide)
  unfold constants? Text.stripLead?
  rw [hdrop, Option.map_none]

theorem constants?_suggestVariableName : constants? suggestVariableName = none := by decide

namespace Rendered

variable {r : Rendered}

theorem isPlain_text (template : String) : (text template).IsPlain := ⟨isPlain_empty⟩

theorem IsPlain.append (h : r.IsPlain) (more : String) : (r.append more).IsPlain := ⟨h.fields⟩

theorem IsPlain.surround (h : r.IsPlain) (before after : String) :
    (r.surround before after).IsPlain := ⟨h.fields⟩

theorem IsPlain.hole (h : r.IsPlain) (name : String) {suggestion : String}
    (hs : constants? suggestion = none) : (r.hole name suggestion).IsPlain :=
  ⟨h.fields.insert name hs⟩

end Rendered

theorem Suggests.constants? {suggestion : String} (h : Suggests suggestion) :
    Ranking.constants? suggestion = none := by
  cases h with
  | fill => decide
  | fresh => exact constants?_suggestVariableName
  | ofType type => exact constants?_variableOfType type

/-- Whatever is written and whatever the holes are called. -/
theorem kept_isPlain : Kept (fun _ => True) (fun _ => True) Rendered.IsPlain where
  clear _ := trivial
  join _ _ := trivial
  text _ := Rendered.isPlain_text _
  subject h := h.append _
  append h _ := h.append _
  surround h _ _ := h.surround _ _
  hole h _ hsuggestion := h.hole _ hsuggestion.constants?
  operator hl hr _ := ⟨hr.fields.absorb hl.fields⟩

end Template

namespace Builder

open Template

theorem isPlain_render (e : Expression) (parameters : Fields) :
    ∀ r ∈ render e parameters, r.IsPlain :=
  kept_isPlain.renderAt _ e 0 fun _ _ => ⟨fun _ _ => trivial, fun _ _ => trivial⟩

theorem isPlain_renderOrReplace (e : Expression) (parameters : Fields) :
    (renderOrReplace e parameters).IsPlain :=
  kept_isPlain.getD (isPlain_render e parameters) trivial

theorem isPlain_declarationTemplate? (text : String) (parameters : Fields)
    (declared : List Variable) :
    ∀ r ∈ declarationTemplate? text parameters declared, r.IsPlain := by
  intro r hr
  unfold declarationTemplate? at hr
  split at hr
  · obtain ⟨value, -, hr⟩ := Option.bind_eq_some_iff.mp hr
    split at hr
    · cases hr
      exact Rendered.isPlain_text _
    · rename_i rendered hrendered
      obtain ⟨type, -, hr⟩ := Option.bind_eq_some_iff.mp hr
      cases hr
      exact ⟨(isPlain_render _ _ _ hrendered).fields.insert _ constants?_suggestVariableName⟩
  · cases hr

theorem isPlain_foreachTemplate? (iterator : Iterator) (collection : Expression)
    (parameters : Fields) : ∀ r ∈ foreachTemplate? iterator collection parameters, r.IsPlain := by
  intro r hr
  unfold foreachTemplate? at hr
  dsimp only at hr
  split at hr
  all_goals
    obtain ⟨type, -, hr⟩ := Option.bind_eq_some_iff.mp hr
    cases hr
    exact ⟨(isPlain_renderOrReplace ..).fields.insert _ constants?_suggestVariableName⟩

theorem isPlain_template? (b : Builder) (kind : StatementKind) (text : String)
    (parameters : Fields) : ∀ r ∈ b.template? kind text parameters, r.IsPlain := by
  unfold template?
  split
  · split
    · exact Option.forall_mem_map.mpr fun r hr => (isPlain_render _ _ r hr).append _
    · exact fun _ h => nomatch h
  · exact isPlain_declarationTemplate? _ _ _
  · exact of_mem_some ((isPlain_renderOrReplace ..).surround ..)
  · exact of_mem_some ((isPlain_renderOrReplace ..).surround ..)
  · exact of_mem_some ((isPlain_renderOrReplace ..).surround ..)
  · exact isPlain_foreachTemplate? _ _ _
  · exact of_mem_some (Rendered.isPlain_text _)
  · exact of_mem_some (Rendered.isPlain_text _)
  · exact of_mem_some (Rendered.isPlain_text _)
  · exact Option.forall_mem_map.mpr fun r hr => (isPlain_render _ _ r hr).surround _ _
  · exact of_mem_some (Rendered.isPlain_text _)
  · exact of_mem_some (Rendered.isPlain_text _)
  · exact fun _ h => nomatch h

theorem isPlain_build? (b : Builder) (file : SourceFile) (s : Statement) (scope : Scope) :
    ∀ o ∈ b.build? file s scope, Ranking.IsPlain o.fields := by
  intro o ho
  obtain ⟨r, hr, rfl⟩ := Option.map_eq_some_iff.mp ho
  exact (isPlain_template? _ _ _ _ r hr).fields

end Builder

namespace Pipeline

variable {p : Pipeline} {file : SourceFile} {fileId : String} {o : Observation}

theorem isPlain_observationsUnder {scope : Scope} (h : o ∈ p.observationsUnder file scope) :
    Ranking.IsPlain o.fields := by
  unfold observationsUnder at h
  split at h
  · exact absurd h List.not_mem_nil
  · obtain ⟨b, -, hb⟩ := List.mem_filterMap.mp h
    exact Builder.isPlain_build? b file _ scope o hb

/-- An observation of a file names the file, and its suggestions are plain. -/
theorem of_mem_analyzeFile (h : o ∈ p.analyzeFile file fileId) :
    o.file = fileId ∧ Ranking.IsPlain o.fields := by
  obtain ⟨id, -, h⟩ := List.mem_flatMap.mp h
  obtain ⟨scope, -, h⟩ := List.mem_flatMap.mp h
  obtain ⟨made, hmade, rfl⟩ := List.mem_map.mp h
  have hplain : Ranking.IsPlain made.fields := isPlain_observationsUnder hmade
  exact ⟨rfl, hplain⟩

end Pipeline

end Foresight
