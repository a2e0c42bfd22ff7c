import Foresight.Proofs.Code.Gaps
import Foresight.Proofs.Code.Inserted
import Foresight.Proofs.CSharp.Braced
import Foresight.Proofs.CSharp.Lookups
import Foresight.Proofs.Offer.Repeated

/-!
# Every scope can be inserted into

Where a scope is inserted into comes from three places: the end of a statement, the span of what is
in a body slot, and the offset behind the first byte of a body block. `Insertable` is what a file
needs so that all of them fit its text: spans that slice it, and braces where blocks begin. Files
that were laid out have this, and so have files that were lowered from a tree that fits its source.
Blocks that were put into a file change no insertion point and no text, so they need nothing more.

What is written then has all of the old text in it (`Embeds`), but for an empty statement that gives
way to a block.
-/

namespace Foresight

open Text

/-- The new text is the old one with a snippet in it, alone or between braces, which stand around
nothing, or around a part of the old text. What stood in the place of braces around nothing is lost;
that was nothing, or something that may be dropped. -/
inductive Embeds (dropped : String → Prop) (snippet : String) : (old new : String) → Prop where
  | direct (before after : String) :
      Embeds dropped snippet (before ++ after) (before ++ snippet ++ after)
  | synthesized (before gone after : String) : (gone = "" ∨ dropped gone) →
      Embeds dropped snippet (before ++ gone ++ after)
        (before ++ "\x7b" ++ snippet ++ " \x7d" ++ after)
  | wrapped (before inner after : String) :
      Embeds dropped snippet (before ++ inner ++ after)
        (before ++ "\x7b" ++ snippet ++ " " ++ inner ++ " \x7d" ++ after)

namespace InsertionPoint

/-- The edit of the point begins at its offset and fits the text, and what it replaces may be
dropped. -/
structure Fits (dropped : String → Prop) (text : String) (point : InsertionPoint) : Prop where
  offset : point.range.start = point.offset
  inner : ∃ inner, slice? text point.range.start point.range.stop = some inner ∧
    ∀ replaced, point.edit = .synthesizeBlock replaced → inner = "" ∨ dropped inner

namespace Fits

variable {dropped : String → Prop} {text inner : String}

theorem direct {offset : Nat} (h : String.Pos.Raw.IsValid text ⟨offset⟩) :
    Fits dropped text (.direct offset) :=
  ⟨rfl, "", slice?_point h, nofun⟩

theorem synthesize {replaced : Span}
    (h : slice? text replaced.start replaced.stop = some inner)
    (hdrop : inner = "" ∨ dropped inner) :
    Fits dropped text (.ofEdit (.synthesizeBlock replaced)) :=
  ⟨rfl, inner, h, fun _ _ => hdrop⟩

theorem wrap {wrapped : Span} (h : slice? text wrapped.start wrapped.stop = some inner) :
    Fits dropped text (.ofEdit (.wrapInBlock wrapped)) :=
  ⟨rfl, inner, h, nofun⟩

theorem embeds {point : InsertionPoint} (h : Fits dropped text point) (snippet : String) :
    ∃ new, point.apply text snippet = some new ∧ Embeds dropped snippet text new := by
  obtain ⟨inner, hinner, hdrop⟩ := h.inner
  obtain ⟨before, after, hdivided⟩ := divided_iff.mpr hinner
  refine ⟨_, apply_of_divided hdivided, ?_⟩
  obtain ⟨offset, edit⟩ := point
  rw [hdivided.text]
  cases edit with
  | insert =>
    -- The range is a point, so there is nothing in it.
    obtain rfl : inner = "" := Option.some.inj (hinner.symm.trans (slice?_point
      (exists_slice?_iff.mp ⟨inner, hinner⟩).2.1))
    simpa [InsertionEdit.opening, InsertionEdit.closing] using Embeds.direct before after
  | synthesizeBlock replaced => exact .synthesized before inner after (hdrop replaced rfl)
  | wrapInBlock wrapped =>
    simpa [InsertionEdit.opening, InsertionEdit.closing, String.append_assoc] using
      Embeds.wrapped before inner after

end Fits

end InsertionPoint

namespace SourceFile

variable {dropped : String → Prop} {file : SourceFile}

/-- The body of the owner is an empty statement. -/
def HasEmptyBody (file : SourceFile) (owner : StatementId) : Prop :=
  ∃ s b t, file.get? owner = some s ∧ s.kind.bodySlot? = some (some b) ∧ file.get? b = some t ∧
    t.kind = .empty

/-- Nothing was synthesized, the spans of all but blocks slice the text, and a block that is a body
begins with a brace. What empty statements have for text may be dropped. -/
structure Insertable (dropped : String → Prop) (file : SourceFile) : Prop where
  unmarked : Unmarked file
  fits : ∀ {id s}, file.get? id = some s → s.kind.isBlock = false →
    ∃ piece, slice? file.text s.span.start s.span.stop = some piece ∧
      (s.kind = .empty → dropped piece)
  body : ∀ {id s b t ids}, file.get? id = some s → s.kind.bodySlot? = some (some b) →
    file.get? b = some t → t.kind = .block ids →
      ∃ rest, slice? file.text t.span.start t.span.stop = some ("\x7b" ++ rest)

namespace Insertable

theorem isValid_stop (h : Insertable dropped file) {id : StatementId} {s : Statement}
    (hs : file.get? id = some s) (hblock : s.kind.isBlock = false) :
    String.Pos.Raw.IsValid file.text ⟨s.span.stop⟩ := by
  obtain ⟨piece, hpiece, -⟩ := h.fits hs hblock
  exact (exists_slice?_iff.mp ⟨piece, hpiece⟩).2.2

/-- Whatever is in a body slot, the point for it fits the text. -/
theorem fits_bodyNeed (h : Insertable dropped file) {owner : StatementId} {s : Statement}
    {old : Option StatementId} {need : BodyNeed} (hs : file.get? owner = some s)
    (hslot : s.kind.bodySlot? = some old) (hneed : file.bodyNeed? s.span.stop old = some need) :
    need.point.Fits (fun gone => file.HasEmptyBody owner ∧ dropped gone) file.text := by
  cases need with
  | ready point =>
    obtain ⟨b, t, ids, rfl, ht, hkind, rfl⟩ := bodyNeed?_ready hneed
    obtain ⟨rest, hrest⟩ := h.body hs hslot ht hkind
    rw [h.unmarked b t ht]
    exact .direct (exists_slice?_iff.mp ⟨_, slice?_lead hrest⟩).2.2
  | missing edit wrapped =>
    rcases bodyNeed?_missing hneed with
      ⟨-, -, rfl⟩ | ⟨b, t, rfl, ht, hblock, ⟨hkind, -, rfl⟩ | ⟨-, rfl⟩⟩
    · have hstop := h.isValid_stop hs (StatementKind.isBlock_of_bodySlot? hslot)
      exact .synthesize (slice?_point hstop) (Or.inl rfl)
    · obtain ⟨piece, hpiece, hempty⟩ := h.fits ht (by rw [hkind]; rfl)
      exact .synthesize hpiece (Or.inr ⟨⟨s, b, t, hs, hslot, ht, hkind⟩, hempty hkind⟩)
    · obtain ⟨piece, hpiece, -⟩ := h.fits ht (StatementKind.isBlock_eq_false hblock)
      exact .wrap hpiece

/-- Every scope has an insertion point, and the point fits the text. -/
theorem insertPosition (h : Insertable dropped file) (hf : Forest file) (p : Pipeline)
    {id : StatementId} {scope : Scope} (hscope : scope ∈ p.scopesFor file id) :
    ∃ point, (scope.insertPosition file).2 = some point ∧
      point.Fits (fun gone => file.HasEmptyBody scope.anchor ∧ dropped gone) file.text := by
  obtain ⟨point, hpoint⟩ := Option.isSome_iff_exists.mp (insertPosition_isSome p hf hscope)
  refine ⟨point, hpoint, ?_⟩
  obtain ⟨s, hs⟩ := file.exists_get? (Offers.anchor_lt_of_mem_scopesFor hscope)
  unfold Scope.insertPosition at hpoint
  split at hpoint
  · cases hslot : s.kind.bodySlot? with
    | none =>
      rw [ensureBody_snd_of_no_slot hs hslot] at hpoint
      cases hpoint
    | some old =>
      rw [ensureBody_snd hs hslot] at hpoint
      obtain ⟨need, hneed, rfl⟩ := Option.map_eq_some_iff.mp hpoint
      exact h.fits_bodyNeed hs hslot hneed
  · rw [hs] at hpoint
    obtain rfl := Option.some.inj hpoint
    refine .direct (h.isValid_stop hs (StatementKind.isBlock_eq_false fun ids hkind => ?_))
    rw [anchor_of_mem_scopesFor p hscope] at hs
    rw [scopesFor_silent p hs (Or.inr ⟨ids, hkind⟩)] at hscope
    cases hscope

end Insertable

/-! ## Files that were laid out, and files that were lowered -/

theorem insertable_finish (o : Outline) : Insertable (· = ";") o.finish := by
  obtain ⟨places, hdrawn, -⟩ := o.exists_drawn_finish
  refine ⟨fun id s hs => o.written_finish.unmarked hs, fun hs _ => ?_, fun _ _ ht hkind => ?_⟩
  · obtain ⟨p, -, hshows⟩ := hdrawn.holds hs
    refine ⟨p.text, hshows.text, fun hkind => p.text_of_shape_empty ?_⟩
    rw [← hshows.shape, hkind]
    rfl
  · obtain ⟨p, -, hshows⟩ := hdrawn.holds ht
    have hshape := hshows.shape
    rw [hkind] at hshape
    obtain ⟨rest, hrest⟩ := p.exists_text_of_shape_block hshape.symm
    exact ⟨rest, hrest ▸ hshows.text⟩

end SourceFile

namespace CSharp

open SourceFile

variable {dropped : String → Prop} {source : String} {root : Node}

/-- A node that fits the text slices it. -/
theorem Node.IsBraced.slice? (h : root.IsBraced source) {n : Node} (hn : root.Within n) :
    Text.slice? source n.start n.stop = some (n.text source) := by
  obtain ⟨hle, hstart, hstop, -⟩ := h n hn
  obtain ⟨piece, hpiece⟩ := exists_slice?_iff.mpr ⟨hle, hstart, hstop⟩
  rw [Node.text, hpiece, Option.getD_some]

theorem insertable_lowerFile (path : String) (index : SymbolIndex) (h : root.IsBraced source)
    (hdrop : ∀ n, root.Within n → n.kind = "empty_statement" → dropped (n.text source)) :
    Insertable dropped (lowerFile path source index root) := by
  have htext : (lowerFile path source index root).text = source :=
    (builds_lowerFile path source index root).text
  have hbraced := braced_lowerFile path source index root
  refine ⟨unmarked_lowerFile path source index root, fun hs hblock => ?_,
    fun hs hslot ht hkind => ?_⟩
  · obtain ⟨n, hn, hspan⟩ := exists_span_of_not_block hs hblock
    have hslice := h.slice? hn
    rw [htext, hspan]
    refine ⟨n.text source, hslice, fun hkind => ?_⟩
    obtain ⟨m, hm, hempty, hspan'⟩ := hbraced.empty hs hkind
    have hsame : m.text source = n.text source := congrArg
      (fun span : Span => (Text.slice? source span.start span.stop).getD "")
      (hspan'.symm.trans hspan)
    exact hsame ▸ hdrop m hm hempty
  · obtain ⟨n, hn, u, hu, hspan, hblock⟩ := hbraced.body hs hslot
    obtain rfl := Option.some.inj (ht.symm.trans hu)
    have hnode : n.kind = "block" := hblock (by rw [hkind]; rfl)
    obtain ⟨rest, hrest⟩ := beginsWith_iff.mp ((h n hn).2.2.2 hnode)
    rw [htext, hspan]
    exact ⟨rest, hrest ▸ h.slice? hn⟩

end CSharp

/-! ## Insertions -/

namespace SourceFile

variable {dropped : String → Prop} {file : SourceFile}

/-- Whatever bodies were made sure of before, every scope of every statement has an insertion point,
and any snippet can be inserted there into the text of the file. All of the old text is left in the
new one, but for an empty statement that was the body of the scope. -/
def TakesInsertions (file : SourceFile) (dropped : String → Prop) : Prop :=
  ∀ owners id scope, scope ∈ Pipeline.standard.scopesFor (file.ensureBodies owners) id →
    ∃ point, (scope.insertPosition (file.ensureBodies owners)).2 = some point ∧
      point.range.start = point.offset ∧
      ∀ snippet, ∃ new, point.apply (file.ensureBodies owners).text snippet = some new ∧
        Embeds (fun gone => file.HasEmptyBody scope.anchor ∧ dropped gone) snippet file.text new

theorem Insertable.takesInsertions (h : Insertable dropped file) (hf : Forest file) :
    TakesInsertions file dropped := by
  intro owners id scope hscope
  have halike : Alike Pipeline.standard file (file.ensureBodies owners) :=
    (Alike.refl hf).ensureBodies owners
  rw [halike.scopes] at hscope
  obtain ⟨point, hpoint, hfits⟩ := h.insertPosition hf Pipeline.standard hscope
  refine ⟨point, ?_, hfits.offset, fun snippet => ?_⟩
  · rw [halike.positions scope (Offers.anchor_lt_of_mem_scopesFor hscope), hpoint]
  · rw [(embodies_ensureBodies hf owners).text]
    exact hfits.embeds snippet

/-- Every scope can be inserted into, in files that were laid out, and in files that were lowered
from a tree that fits its source. A semicolon is all that an insertion takes away from a file that
was laid out, and from a lowered one it is the text of an empty statement of the tree, of which
`dropped` says what is known. -/
theorem scopes_take_insertions :
    (∀ o : Outline, TakesInsertions o.finish (· = ";")) ∧
    ∀ (path source : String) (index : CSharp.SymbolIndex) (root : CSharp.Node)
      (dropped : String → Prop), root.IsBraced source →
      (∀ n, root.Within n → n.kind = "empty_statement" → dropped (n.text source)) →
        TakesInsertions (CSharp.lowerFile path source index root) dropped := by
  refine ⟨fun o => (insertable_finish o).takesInsertions o.forest_finish, ?_⟩
  intro path source index root dropped hbraced hdrop
  exact (CSharp.insertable_lowerFile path index hbraced hdrop).takesInsertions
    (CSharp.forest_lowerFile path source index root)

/-! A guard with an empty statement for a body, behind a character of two bytes. -/

def semicolonSource : String := "class Ä { void M(string s) { if (s == null) ; } }"

/-- The tree of this text, without most of its tokens. -/
def semicolonTree : CSharp.Node :=
  let node (kind field : String) (start stop : Nat) (children : List CSharp.Node) : CSharp.Node :=
    ⟨kind, true, field, start, stop, children⟩
  let condition := node "binary_expression" "condition" 34 43
    [node "identifier" "left" 34 35 [], ⟨"==", false, "operator", 36, 38, []⟩,
      node "null_literal" "right" 39 43 []]
  let guard := node "if_statement" "" 30 46
    [condition, node "empty_statement" "consequence" 45 46 []]
  let parameter := node "parameter" "" 18 26
    [node "predefined_type" "type" 18 24 [], node "identifier" "name" 25 26 []]
  let method := node "method_declaration" "" 11 48
    [node "identifier" "name" 16 17 [], node "parameter_list" "parameters" 17 27 [parameter],
      node "block" "body" 28 48 [guard]]
  node "compilation_unit" "" 0 50
    [node "class_declaration" "" 0 50
      [node "identifier" "name" 6 8 [], node "declaration_list" "body" 9 50 [method]]]

def semicolonFile : SourceFile := CSharp.lowerFile "A.cs" semicolonSource .empty semicolonTree

/-- The block takes the place of the semicolon. -/
theorem scopes_take_insertions_semicolon :
    semicolonTree.IsBraced semicolonSource ∧
    ∃ scope ∈ Pipeline.standard.scopesFor semicolonFile 1, semicolonFile.HasEmptyBody scope.anchor ∧
      ∃ point, (scope.insertPosition semicolonFile).2 = some point ∧
        point.apply semicolonFile.text "return;" =
          some "class Ä { void M(string s) { if (s == null) {return; } } }" ∧
        Embeds (fun gone => semicolonFile.HasEmptyBody scope.anchor ∧ gone = ";") "return;"
          semicolonFile.text "class Ä { void M(string s) { if (s == null) {return; } } }" := by
  have hbraced : semicolonTree.IsBraced semicolonSource := by decide
  have hempty : ∀ n, semicolonTree.Within n → n.kind = "empty_statement" →
      n.text semicolonSource = ";" := by
    have hall : semicolonTree.all (fun n =>
        decide (n.kind = "empty_statement" → n.text semicolonSource = ";")) = true := by decide
    exact fun n hn => of_decide_eq_true ((CSharp.Node.all_iff semicolonTree).mp hall n hn)
  have hscopes : (Pipeline.standard.scopesFor semicolonFile 1).map
      (fun scope => (scope.anchor, (scope.insertPosition semicolonFile).2)) =
        [(1, some ⟨45, .synthesizeBlock ⟨45, 46⟩⟩)] := by decide +kernel
  have hinserted :
      InsertionPoint.apply ⟨45, .synthesizeBlock ⟨45, 46⟩⟩ semicolonFile.text "return;" =
        some "class Ä { void M(string s) { if (s == null) {return; } } }" := by decide +kernel
  obtain ⟨scope, hscope, hplace⟩ := List.mem_map.mp (hscopes ▸ List.mem_singleton_self _)
  obtain ⟨hanchor, hplace⟩ := Prod.mk.inj hplace
  obtain ⟨point, hpoint, -, hinsert⟩ := scopes_take_insertions.2 "A.cs" semicolonSource .empty
    semicolonTree (· = ";") hbraced hempty [] 1 scope hscope
  obtain rfl := Option.some.inj (hplace.symm.trans hpoint)
  obtain ⟨new, hnew, hembeds⟩ := hinsert "return;"
  obtain rfl := Option.some.inj (hinserted.symm.trans hnew)
  have hbody : semicolonFile.HasEmptyBody scope.anchor := by
    rw [hanchor]
    exact ⟨_, 0, _, rfl, rfl, rfl, rfl⟩
  exact ⟨hbraced, scope, hscope, hbody, _, hplace, hinserted, hembeds⟩

end SourceFile

end Foresight
