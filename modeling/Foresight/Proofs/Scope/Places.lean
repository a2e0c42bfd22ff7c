import Foresight.Proofs.Code.Gaps
import Foresight.Proofs.Mining.Frame

/-!
# Where templates are mined and inserted

A scope answers two questions: which statement templates are mined from, and where they are
inserted. The answers come from different links, and in a file that was laid out they meet: the
statement begins at the insertion point, up to white space. Making sure of bodies keeps that
(`Aligned.ensureBody`), as a synthesized block begins where the statement does that it is put
around.
-/

namespace Foresight

open Text

namespace SourceFile

/-- All spans fit the text, the statements of written blocks are spaced, and a synthesized block
holds at most one statement, which begins where the block is put. -/
structure Aligned (file : SourceFile) : Prop where
  fits : ∀ {id s}, file.get? id = some s →
    ∃ piece, slice? file.text s.span.start s.span.stop = some piece
  spaced : ∀ {id s ids}, file.get? id = some s → s.kind = .block ids → s.synthesized = none →
    Spaced file (s.span.start + 1) ids
  wrapped : ∀ {id s ids edit}, file.get? id = some s → s.kind = .block ids →
    s.synthesized = some edit →
      ids = [] ∨ ∃ w t, ids = [w] ∧ file.get? w = some t ∧ t.span.start = edit.anchor

variable {file : SourceFile}

/-- Where a statement begins, the text can be cut. -/
theorem Aligned.blankBetween_start (h : Aligned file) {id : StatementId} {s : Statement}
    (hs : file.get? id = some s) : BlankBetween file.text s.span.start s.span.start := by
  obtain ⟨piece, hpiece⟩ := h.fits hs
  exact .start_of_slice? hpiece

/-! ## Bodies -/

section Install

variable {owner : StatementId} {old wrapped : Option StatementId} {edit : InsertionEdit}
  {s : Statement}

/-- A block that has to be made stands at a place that fits the text. -/
theorem Aligned.fits_blockSpan (h : Aligned file) (hs : file.get? owner = some s)
    (hneed : file.bodyNeed? s.span.stop old = some (.missing edit wrapped)) :
    ∃ piece, slice? file.text (blockSpan edit).start (blockSpan edit).stop = some piece := by
  rcases bodyNeed?_missing hneed with ⟨-, -, rfl⟩ | ⟨b, t, -, ht, -, ⟨-, -, rfl⟩ | ⟨-, rfl⟩⟩
  · obtain ⟨piece, hpiece⟩ := h.fits hs
    obtain ⟨gap, hgap, -⟩ := BlankBetween.stop_of_slice? hpiece
    exact ⟨gap, hgap⟩
  · obtain ⟨gap, hgap, -⟩ := h.blankBetween_start ht
    exact ⟨gap, hgap⟩
  · exact h.fits ht

theorem Aligned.installBlock (h : Aligned file) (hs : file.get? owner = some s)
    (hslot : s.kind.bodySlot? = some old)
    (hneed : file.bodyNeed? s.span.stop old = some (.missing edit wrapped)) :
    Aligned (file.installBlock owner old edit wrapped) := by
  have hlacks := lacks_of_bodyNeed? hs hslot hneed
  have hspans : ∀ id span, file.spanOf? id = some span →
      (file.installBlock owner old edit wrapped).spanOf? id = some span := by
    intro id span hspan
    obtain ⟨t, ht, rfl⟩ := Option.map_eq_some_iff.mp hspan
    have hspan' := spanOf?_eq (get?_installBlock_of_get? hlacks edit ht)
    exact hspan'
  constructor
  · intro id t' ht'
    rw [text_installBlock]
    rcases installBlock_cases hlacks ht' with ⟨-, rfl⟩ | ⟨t, ht, rfl⟩
    · exact h.fits_blockSpan hs hneed
    · have hfits := h.fits ht
      exact hfits
  · intro id t' ids ht' hkind hnone
    rcases installBlock_cases hlacks ht' with ⟨-, rfl⟩ | ⟨t, ht, rfl⟩
    · cases hnone
    · have hspaced := h.spaced ht (eq_block_of_rewired hkind) hnone
      exact hspaced.mono hspans ⟨"", by rw [text_installBlock, String.append_empty]⟩
  · intro id t' ids edit' ht' hkind hedit
    rcases installBlock_cases hlacks ht' with ⟨-, rfl⟩ | ⟨t, ht, rfl⟩
    · obtain rfl := Option.some.inj hedit
      obtain rfl := StatementKind.block.inj hkind
      rcases bodyNeed?_missing hneed with
        ⟨-, rfl, -⟩ | ⟨b, t, -, ht, -, ⟨-, rfl, -⟩ | ⟨rfl, rfl⟩⟩
      · exact Or.inl rfl
      · exact Or.inl rfl
      · exact Or.inr ⟨b, _, rfl, get?_installBlock_of_get? hlacks _ ht, rfl⟩
    · rcases h.wrapped ht (eq_block_of_rewired hkind) hedit with rfl | ⟨w, u, rfl, hu, hstart⟩
      · exact Or.inl rfl
      · exact Or.inr ⟨w, _, rfl, get?_installBlock_of_get? hlacks _ hu, hstart⟩

end Install

theorem Aligned.ensureBody (h : Aligned file) (owner : StatementId) :
    Aligned (file.ensureBody owner).1 := by
  rcases file.ensureBody_needs owner with heq | ⟨s, old, edit, wrapped, hs, hslot, hneed, heq⟩
  · rwa [heq]
  · rw [heq]
    exact h.installBlock hs hslot hneed

theorem Aligned.ensureBodies (h : Aligned file) (owners : List StatementId) :
    Aligned (file.ensureBodies owners) :=
  ensureBodies_kept h (fun h owner => h.ensureBody owner) owners

/-! ## The two answers -/

variable {scope : Scope} {next : StatementId}

/-- A body begins with its first statement, where something is inserted into it. -/
theorem Aligned.firstInner? (h : Aligned file) (hf : Forest file) {body : StatementId}
    (hnext : file.firstInner? (some body) = some next) (ownerEnd : Nat) :
    ∃ n need, file.get? next = some n ∧ file.bodyNeed? ownerEnd (some body) = some need ∧
      BlankBetween file.text need.point.offset n.span.start := by
  obtain ⟨t, ht, -⟩ := Option.bind_eq_some_iff.mp hnext
  rcases t.kind.block_or_not with ⟨ids, hkind⟩ | hkind
  · rw [hf.firstInner?_block ht hkind] at hnext
    have hmem : next ∈ t.kind.childIds := by
      rw [hkind]
      exact List.mem_of_head? hnext
    obtain ⟨n, hn, -⟩ := hf.child_parent ht hmem
    refine ⟨n, _, hn, bodyNeed?_of_block ht hkind ownerEnd, ?_⟩
    cases hedit : t.synthesized with
    | none => exact (h.spaced ht hkind hedit).head hnext hn
    | some edit =>
      rcases h.wrapped ht hkind hedit with rfl | ⟨w, u, rfl, hu, hstart⟩
      · cases hnext
      · obtain rfl := Option.some.inj hnext
        obtain rfl := Option.some.inj (hn.symm.trans hu)
        have hgap := h.blankBetween_start hn
        rw [hstart] at hgap ⊢
        exact hgap
  · rw [firstInner?_embedded ht hkind] at hnext
    obtain rfl := Option.some.inj hnext
    obtain ⟨edit, wrapped, hneed, hanchor⟩ := bodyNeed?_of_embedded ht hkind ownerEnd
    refine ⟨t, _, ht, hneed, ?_⟩
    have hgap := h.blankBetween_start ht
    rw [← hanchor] at hgap ⊢
    exact hgap

theorem Aligned.insertPosition (h : Aligned file) (hf : Forest file)
    (hnext : scope.nextStatement? file = some next) :
    ∃ n point, file.get? next = some n ∧ (scope.insertPosition file).2 = some point ∧
      BlankBetween file.text point.offset n.span.start := by
  unfold Scope.nextStatement? at hnext
  unfold Scope.insertPosition
  split at hnext
  · rename_i hinside
    rw [if_pos hinside]
    obtain ⟨s, hs, hnext⟩ := Option.bind_eq_some_iff.mp hnext
    obtain ⟨slot, hslot, hnext⟩ := Option.bind_eq_some_iff.mp hnext
    cases slot with
    | none => cases hnext
    | some body =>
      obtain ⟨n, need, hn, hneed, hgap⟩ := h.firstInner? hf hnext s.span.stop
      refine ⟨n, need.point, hn, ?_, hgap⟩
      rw [ensureBody_snd hs hslot, hneed, Option.map_some]
  · rename_i hinside
    rw [if_neg hinside]
    obtain ⟨s, p, t, ids, hs, hparent, ht, hkind, hsucc⟩ := hf.nextSibling?_eq_some_iff.mp hnext
    have hmem : next ∈ t.kind.childIds := by
      rw [hkind]
      exact mem_of_successor? hsucc
    obtain ⟨n, hn, -⟩ := hf.child_parent ht hmem
    refine ⟨n, .direct s.span.stop, hn, by rw [hs, Option.map_some], ?_⟩
    cases hedit : t.synthesized with
    | none => exact (h.spaced ht hkind hedit).successor hsucc hs hn
    | some edit =>
      -- What is in a synthesized block has nothing behind it.
      rcases h.wrapped ht hkind hedit with rfl | ⟨w, u, rfl, hu, -⟩
      · cases hsucc
      · rw [successor?] at hsucc
        split at hsucc
        · cases hsucc
        · cases hsucc

end SourceFile

namespace Outline

open SourceFile

theorem aligned_finish (o : Outline) : Aligned o.finish := by
  obtain ⟨places, hdrawn, -⟩ := o.exists_drawn_finish
  refine ⟨fun hs => ?_, fun hs hkind _ => o.written_finish.spaced hs hkind, fun hs _ hedit => ?_⟩
  · obtain ⟨p, -, hshows⟩ := hdrawn.holds hs
    exact ⟨p.text, hshows.text⟩
  · rw [o.written_finish.unmarked hs] at hedit
    cases hedit

/-- In a file that was laid out, with whatever bodies were made sure of, a scope that has a next
statement has an insertion point at or before it, with nothing but white space between. So what was
mined as the next statement is inserted where a next statement is looked for. -/
theorem insertion_meets_mining (o : Outline) (owners : List StatementId) (scope : Scope)
    {next : StatementId} (h : scope.nextStatement? (o.finish.ensureBodies owners) = some next) :
    ∃ n point gap, (o.finish.ensureBodies owners).get? next = some n ∧
      (scope.insertPosition (o.finish.ensureBodies owners)).2 = some point ∧
      point.offset ≤ n.span.start ∧
      slice? (o.finish.ensureBodies owners).text point.offset n.span.start = some gap ∧
      isBlankText gap = true := by
  have haligned := o.aligned_finish.ensureBodies owners
  have hforest := o.forest_finish.ensureBodies owners
  obtain ⟨n, point, hn, hpoint, hgap⟩ := haligned.insertPosition hforest h
  have hle := hgap.le
  obtain ⟨gap, hslice, hblank⟩ := hgap
  exact ⟨n, point, gap, hn, hpoint, hle, hslice, hblank⟩

/-! A loop whose only statement is embedded, with another statement behind the loop. -/

def sweep : Outline :=
  Outline.new "Sweep.cs" |>.method
    [.foreach ⟨"bag", true, .unknown, "var"⟩
        ⟨"bags", .resolved ⟨"Bags", "App.Bags"⟩, .reference none "bags" none⟩ (some .break_),
      .return_ none]

theorem insertion_meets_mining_sweep :
    ∃ scope ∈ Pipeline.standard.scopesFor (sweep.finish.ensureBodies [1]) 1, ∃ n point gap,
      (sweep.finish.ensureBodies [1]).get? 0 = some n ∧
      (scope.insertPosition (sweep.finish.ensureBodies [1])).2 = some point ∧
      point.offset ≤ n.span.start ∧
      slice? (sweep.finish.ensureBodies [1]).text point.offset n.span.start = some gap ∧
      isBlankText gap = true := by
  have hscopes : (Pipeline.standard.scopesFor (sweep.finish.ensureBodies [1]) 1).map
      (·.nextStatement? (sweep.finish.ensureBodies [1])) = [some 0] := by
    decide +kernel
  obtain ⟨scope, hscope, hnext⟩ := List.mem_map.mp (hscopes ▸ List.mem_singleton_self (some 0))
  exact ⟨scope, hscope, insertion_meets_mining sweep [1] scope hnext⟩

end Outline

end Foresight
