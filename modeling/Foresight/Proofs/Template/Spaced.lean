import Foresight.Proofs.Template.Chain
import Foresight.Proofs.Template.Placeholders

/-!
# Placeholders are kept apart

The renderer makes a hole in front, or behind a dot, a parenthesis or a comma, and a builder puts
text with a space between its own placeholders and what was rendered. So a character that is no
letter stands between any two placeholders of a template (`spaced_template?`). Only where a written
text is taken with the subject replaced, the subject's placeholders may touch.
-/

namespace Foresight

namespace Template

def NoLetter (c : Char) : Prop := c.isAlpha = false

instance : DecidablePred NoLetter := fun c => inferInstanceAs (Decidable (c.isAlpha = false))

instance (text : String) : Decidable (Chain.Parts NoLetter text) :=
  decidable_of_iff (text.toList.any (!·.isAlpha) = true) (by simp [Chain.Parts, NoLetter])

/-- The subject's placeholder may stand next to itself, if there is a subject to replace. -/
def MayTouch (parameters : Fields) (name : String) : Prop :=
  name = Scope.variableName ∧ (Scope.subject? parameters).isSome = true

/-- Text without marks and placeholders that are kept apart, but for those that may touch. -/
def Spaced (free : String → Prop) (template : String) : Prop :=
  ∃ c : Chain, c.IsClear ∧ c.write = template ∧ c.Spaced NoLetter free

/-- Behind it a placeholder is kept apart as well. -/
def Ready (free : String → Prop) (template : String) : Prop :=
  ∃ c : Chain, c.IsClear ∧ c.write = template ∧ c.Spaced NoLetter free ∧ c.Ready NoLetter

section Texts

variable {free : String → Prop} {template more : String}

theorem spaced_text (h : Clear template) : Spaced free template :=
  ⟨.last template, h, rfl, trivial⟩

theorem ready_text (h : Clear template) : Ready free template :=
  ⟨.last template, h, rfl, trivial, Or.inl rfl⟩

theorem spaced_placeholder {name : String} (h : Clear name) : Spaced free (placeholder name) := by
  refine ⟨.hole "" name (.last ""), ⟨by decide, h, (by decide : Clear "")⟩, ?_, trivial, trivial⟩
  simp [Chain.write]

theorem spaced_endMarker : Spaced free endMarker :=
  (by decide : placeholder "END" = endMarker) ▸ spaced_placeholder (by decide)

theorem Ready.spaced (h : Ready free template) : Spaced free template := by
  obtain ⟨c, hclear, hwrite, hspaced, -⟩ := h
  exact ⟨c, hclear, hwrite, hspaced⟩

theorem Ready.append (h : Ready free template) (hmore : Spaced free more) :
    Spaced free (template ++ more) := by
  obtain ⟨c, hclear, rfl, hspaced, hready⟩ := h
  obtain ⟨d, hclear', rfl, hspaced'⟩ := hmore
  exact ⟨c.append d, hclear.append hclear', Chain.write_append c d,
    hspaced.append hready hspaced'⟩

theorem Spaced.append_text (h : Spaced free template) (hmore : Clear more) :
    Spaced free (template ++ more) := by
  obtain ⟨c, hclear, rfl, hspaced⟩ := h
  exact ⟨c.append (.last more), hclear.append hmore, Chain.write_append c _,
    hspaced.append_text more⟩

/-- Text that is not all letters keeps what comes next apart. -/
theorem Spaced.ready (h : Spaced free template) (hmore : Clear more)
    (hparts : Chain.Parts NoLetter more) : Ready free (template ++ more) := by
  obtain ⟨c, hclear, rfl, hspaced⟩ := h
  exact ⟨c.append (.last more), hclear.append hmore, Chain.write_append c _,
    hspaced.append_text more, c.ready_append_text hparts⟩

theorem Spaced.surround (h : Spaced free template) {before after : String} (hbefore : Clear before)
    (hafter : Clear after) : Spaced free (before ++ template ++ after) :=
  ((ready_text hbefore).append h).append_text hafter

/-- Placeholders that may all touch are as far apart as they need to be. -/
theorem spaced_of_reads {names : List String} (h : Reads template names)
    (hfree : ∀ name ∈ names, free name) : Spaced free template := by
  obtain ⟨c, hclear, rfl, rfl⟩ := Chain.exists_chain h
  exact ⟨c, hclear, rfl, Chain.spaced_of_free hfree⟩

end Texts

/-- Rendering keeps placeholders apart. -/
theorem kept_spaced (free : String → Prop) :
    KeptApart Clear Clear (fun r => Spaced free r.template) (fun r => Ready free r.template) where
  clear := id
  join h h' := clear_append.mpr ⟨h, h'⟩
  text := spaced_text
  append := Spaced.append_text
  surround h hbefore hafter := h.surround hbefore hafter
  operator hl hr hoperator :=
    (((hl.append_text (by decide : Clear " ")).append_text hoperator).ready (by decide)
      (by decide : Chain.Parts NoLetter " ")).append hr
  kept := Ready.spaced
  empty {r} _ hempty := by
    rw [String.isEmpty_iff.mp hempty]
    exact ready_text (by decide)
  parted h hmark :=
    have hmarks : ∀ mark ∈ [".", "(", ", "], Clear mark ∧ Chain.Parts NoLetter mark := by decide
    h.ready (hmarks _ hmark).1 (hmarks _ hmark).2
  subject h := h.append (spaced_placeholder (by decide : Clear Scope.variableName))
  hole h hname _ := h.append (spaced_placeholder hname)

theorem spaced_render {e : Expression} (h : ClearWithin e) (free : String → Prop)
    (parameters : Fields) : ∀ r ∈ render e parameters, Spaced free r.template :=
  (kept_spaced free).renderAt _ e 0 (h.mono fun _ htexts => ⟨htexts, clear_of_mem_holeNames htexts⟩)

end Template

namespace Builder

open Template

section Statements

variable {text : String} (parameters : Fields)

theorem spaced_replaceSubject (h : Clear text) :
    Spaced (MayTouch parameters) (replaceSubject text parameters) := by
  cases hsubject : Scope.subject? parameters with
  | none =>
    have hkept : replaceSubject text parameters = text := by rw [replaceSubject, hsubject]
    rw [hkept]
    exact spaced_text h
  | some subject =>
    obtain ⟨count, hreads⟩ := exists_reads_replaceSubject parameters h
    refine spaced_of_reads hreads fun name hname => ⟨List.eq_of_mem_replicate hname, ?_⟩
    rw [hsubject]
    rfl

theorem spaced_renderOrReplace {e : Expression} (h : ClearWithin e) :
    Spaced (MayTouch parameters) (renderOrReplace e parameters).template := by
  unfold renderOrReplace
  cases hr : render e parameters with
  | none => exact spaced_replaceSubject parameters (h.self _ List.mem_cons_self)
  | some r => exact spaced_render h _ parameters r hr

/-- A placeholder of its own in front, with a space behind it. -/
theorem spaced_behind {free : String → Prop} {template : String} (h : Spaced free template)
    {before name between : String} (hbefore : Clear before) (hname : Clear name)
    (hbetween : Clear between) (hparts : Chain.Parts NoLetter between) :
    Spaced free (before ++ placeholder name ++ between ++ template) :=
  ((((ready_text hbefore).append (spaced_placeholder hname)).ready hbetween hparts).append h)

theorem spaced_declarationTemplate? {declared : List Variable}
    (h : (StatementKind.declaration declared).Clear text) :
    ∀ r ∈ declarationTemplate? text parameters declared,
      Spaced (MayTouch parameters) r.template := by
  intro r hr
  obtain ⟨v, value, rfl, hvalue, ⟨-, rfl⟩ | ⟨rendered, type, hrendered, htype, rfl⟩⟩ :=
    declarationTemplate?_cases parameters hr
  · exact spaced_replaceSubject parameters h.source
  · have hclear := h.expressions value (mem_expressions_declaration hvalue)
    exact (spaced_behind (spaced_render hclear _ parameters rendered hrendered)
      (clear_declared h htype) (by decide) (by decide) (by decide)).append_text (by decide)

/-- A block with the caret in it, with a space in front of the caret. -/
theorem spaced_block {free : String → Prop} {template before after : String}
    (h : Spaced free template) (hbefore : Clear before) (hparts : Chain.Parts NoLetter before)
    (hafter : Clear after) : Spaced free (template ++ (before ++ endMarker ++ after)) := by
  have hmarked := ((h.ready hbefore hparts).append spaced_endMarker).append_text hafter
  simpa only [String.append_assoc] using hmarked

theorem spaced_foreachTemplate? {iterator : Iterator} {collection : Expression}
    {body : Option StatementId} (h : (StatementKind.foreach iterator collection body).Clear text) :
    ∀ r ∈ foreachTemplate? iterator collection parameters,
      Spaced (MayTouch parameters) r.template := by
  intro r hr
  rw [foreachTemplate?_eq] at hr
  obtain ⟨type, htype, rfl⟩ := Option.map_eq_some_iff.mp hr
  have hrendered := spaced_renderOrReplace parameters
    (h.expressions collection (List.mem_singleton_self collection))
  exact spaced_block (spaced_behind hrendered (clear_iterated h htype) (by decide) (by decide)
    (by decide)) (by decide) (by decide) (by decide)

/-- A condition in front of a block with the caret in it. -/
theorem spaced_condition {e : Expression} (h : ClearWithin e) {before : String}
    (hbefore : Clear before) :
    Spaced (MayTouch parameters) (before ++ (renderOrReplace e parameters).template ++
      (") \x7b " ++ endMarker ++ " \x7d")) :=
  spaced_block ((ready_text hbefore).append (spaced_renderOrReplace parameters h)) (by decide)
    (by decide) (by decide)

end Statements

theorem spaced_template? (b : Builder) {kind : StatementKind} {text : String}
    (h : kind.Clear text) (parameters : Fields) :
    ∀ r ∈ b.template? kind text parameters, Spaced (MayTouch parameters) r.template := by
  unfold template?
  split
  · split
    · have hrendered := spaced_render (h.expressions _ (List.mem_singleton_self _))
        (MayTouch parameters) parameters
      exact Option.forall_mem_map.mpr fun r hr => (hrendered r hr).append_text (by decide)
    · exact fun _ h => nomatch h
  · exact spaced_declarationTemplate? _ h
  · exact of_mem_some (spaced_condition parameters (h.expressions _ List.mem_cons_self) (by decide))
  · exact of_mem_some (spaced_condition parameters (h.expressions _ List.mem_cons_self) (by decide))
  · have hcondition := spaced_renderOrReplace parameters (h.expressions _ List.mem_cons_self)
    have hdo : Ready (MayTouch parameters) ("do \x7b " ++ endMarker ++ " \x7d while (") :=
      ((ready_text (by decide)).append spaced_endMarker).ready (by decide) (by decide)
    exact of_mem_some ((hdo.append hcondition).append_text (by decide))
  · exact spaced_foreachTemplate? _ h
  · exact of_mem_some (spaced_endMarker.surround (by decide) (by decide))
  · rename_i clause rest
    have hclauses : Clear (String.join ((clause :: rest).map catchText)) :=
      clear_join (List.forall_mem_map.mpr fun c hc =>
        clear_catchText fun t ht => h.texts t (List.mem_flatMap.mpr ⟨c, hc, ht⟩))
    exact of_mem_some ((spaced_endMarker.surround (by decide) (by decide)).append_text hclauses)
  · exact of_mem_some (spaced_text (by decide))
  · have hrendered := spaced_render (h.expressions _ (List.mem_singleton_self _))
      (MayTouch parameters) parameters
    exact Option.forall_mem_map.mpr fun r hr => (hrendered r hr).surround (by decide) (by decide)
  · exact of_mem_some (spaced_text (by decide))
  · exact of_mem_some (spaced_text (by decide))
  · exact fun _ h => nomatch h

end Builder

end Foresight
