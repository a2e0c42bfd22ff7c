import Foresight.Proofs.Code.Forest

/-!
# Spans in order

The spans of the parts of a text follow each other inside the span of the whole. `Span.InOrder` says
this of a list of spans between two offsets, in the form in which it is put together: stretch after
stretch, from the left to the right.
-/

namespace Foresight

namespace Span

/-- Spans that follow each other between two offsets, without overlap. -/
def InOrder : (start stop : Nat) → List Span → Prop
  | start, stop, [] => start ≤ stop
  | start, stop, s :: rest => start ≤ s.start ∧ s.start ≤ s.stop ∧ InOrder s.stop stop rest

instance instDecidableInOrder : ∀ (start stop : Nat) (spans : List Span),
    Decidable (InOrder start stop spans)
  | start, stop, [] => inferInstanceAs (Decidable (start ≤ stop))
  | _, stop, s :: rest =>
    have := instDecidableInOrder s.stop stop rest
    inferInstanceAs (Decidable (_ ∧ _ ∧ _))

/-- A span that lies inside another one. -/
def Inside (inner outer : Span) : Prop :=
  outer.start ≤ inner.start ∧ inner.start ≤ inner.stop ∧ inner.stop ≤ outer.stop

instance (inner outer : Span) : Decidable (inner.Inside outer) :=
  inferInstanceAs (Decidable (_ ∧ _ ∧ _))

theorem Inside.trans {a b c : Span} (h : a.Inside b) (h' : b.Inside c) : a.Inside c := by
  unfold Inside at *
  omega

/-- Of two spans that end together, one lies inside the other. -/
theorem inside_of_stop_eq {a b : Span} (ha : a.start ≤ a.stop) (hb : b.start ≤ b.stop)
    (hstop : a.stop = b.stop) : a.Inside b ∨ b.Inside a := by
  unfold Inside
  omega

/-- Spans of which one stops where the other starts, or before. -/
def Apart (a b : Span) : Prop := a.stop ≤ b.start ∨ b.stop ≤ a.start

theorem Apart.symm {a b : Span} (h : a.Apart b) : b.Apart a := h.elim .inr .inl

theorem Apart.inside {a b a' b' : Span} (h : a.Apart b) (ha : a'.Inside a) (hb : b'.Inside b) :
    a'.Apart b' := by
  unfold Apart at h ⊢
  unfold Inside at ha hb
  omega

/-- Two spans of which one lies inside the other, or that are apart. -/
def Laminar (a b : Span) : Prop := a.Inside b ∨ b.Inside a ∨ a.Apart b

/-- Around one offset, one lies inside the other. -/
theorem Laminar.inside_of_contains {a b : Span} (h : a.Laminar b) {offset : Nat}
    (ha : a.contains offset = true) (hb : b.contains offset = true) : a.Inside b ∨ b.Inside a := by
  simp only [contains, Bool.and_eq_true, decide_eq_true_eq] at ha hb
  unfold Laminar Apart Inside at h
  unfold Inside
  omega

namespace InOrder

variable {start middle stop : Nat} {spans more : List Span}

theorem le (h : InOrder start stop spans) : start ≤ stop := by
  induction spans generalizing start with
  | nil => exact h
  | cons s rest ih =>
    obtain ⟨hstart, hspan, hrest⟩ := h
    have := ih hrest
    omega

theorem append (h : InOrder start middle spans) (h' : InOrder middle stop more) :
    InOrder start stop (spans ++ more) := by
  induction spans generalizing start with
  | nil =>
    have hle : start ≤ middle := h
    cases more with
    | nil => exact Nat.le_trans hle h'
    | cons s rest => exact ⟨Nat.le_trans hle h'.1, h'.2⟩
  | cons s rest ih => exact ⟨h.1, h.2.1, ih h.2.2⟩

/-- A wider frame holds what a narrower one holds. -/
theorem widen {start' stop' : Nat} (h : InOrder start stop spans) (hstart : start' ≤ start)
    (hstop : stop ≤ stop') : InOrder start' stop' spans := by
  have hleft : InOrder start' start [] := hstart
  have hright : InOrder stop stop' [] := hstop
  simpa using (hleft.append h).append hright

theorem inside (h : InOrder start stop spans) {s : Span} (hs : s ∈ spans) :
    s.Inside ⟨start, stop⟩ := by
  induction spans generalizing start with
  | nil => cases hs
  | cons first rest ih =>
    obtain ⟨hstart, hspan, hrest⟩ := h
    rcases List.mem_cons.mp hs with rfl | hs
    · exact ⟨hstart, hspan, hrest.le⟩
    · obtain ⟨hs₁, hs₂, hs₃⟩ := ih hrest hs
      exact ⟨by simp only at hs₁ ⊢; omega, hs₂, hs₃⟩

theorem pairwise_apart (h : InOrder start stop spans) : spans.Pairwise Apart := by
  induction spans generalizing start with
  | nil => exact .nil
  | cons first rest ih =>
    obtain ⟨-, -, hrest⟩ := h
    exact .cons (fun s hs => Or.inl (hrest.inside hs).1) (ih hrest)

/-- Some of the spans are in order too. -/
theorem sublist (h : InOrder start stop spans) (hsub : more.Sublist spans) :
    InOrder start stop more := by
  induction hsub generalizing start with
  | slnil => exact h
  | cons s _ ih =>
    have hrest := ih h.2.2
    exact hrest.widen (Nat.le_trans h.1 h.2.1) (Nat.le_refl _)
  | cons_cons s _ ih => exact ⟨h.1, h.2.1, ih h.2.2⟩

/-- The frame may be drawn closely around the first and the last one. -/
theorem tighten (h : InOrder start stop spans) {first last : Span}
    (hfirst : spans.head? = some first) (hlast : spans.getLast? = some last) :
    InOrder first.start last.stop spans := by
  induction spans generalizing start first with
  | nil => cases hfirst
  | cons s rest ih =>
    obtain rfl := Option.some.inj hfirst
    refine ⟨Nat.le_refl _, h.2.1, ?_⟩
    cases rest with
    | nil =>
      obtain rfl := Option.some.inj hlast
      exact Nat.le_refl _
    | cons next rest =>
      rw [List.getLast?_cons_cons] at hlast
      exact (ih h.2.2 rfl hlast).widen h.2.2.1 (Nat.le_refl _)

end InOrder

end Span

namespace SourceFile

/-- The span of a statement. -/
def spanOf? (file : SourceFile) (id : StatementId) : Option Span := (file.get? id).map (·.span)

theorem spanOf?_eq {file : SourceFile} {id : StatementId} {s : Statement}
    (h : file.get? id = some s) : file.spanOf? id = some s.span := by
  rw [spanOf?, h]
  rfl

theorem spanOf?_push_of_lt (file : SourceFile) (kind : StatementKind) (span : Span)
    {id : StatementId} (h : id < file.statementCount) :
    (file.push kind span).1.spanOf? id = file.spanOf? id := by
  obtain ⟨s, hs⟩ := file.exists_get? h
  rw [spanOf?_eq hs, spanOf?_eq (file.get?_push_of_get? kind span hs)]

/-- Children lie inside their parent, and the statements of a block follow each other. -/
structure Spanned (file : SourceFile) : Prop where
  inside : ∀ {id s c t}, file.get? id = some s → c ∈ s.kind.childIds → file.get? c = some t →
    t.span.Inside s.span
  ordered : ∀ {id s ids}, file.get? id = some s → s.kind = .block ids →
    Span.InOrder s.span.start s.span.stop (ids.filterMap file.spanOf?)

/-- A block pushed around statements that follow each other. -/
theorem Spanned.push_block {file : SourceFile} (h : Spanned file) (hf : Forest file)
    {ids : List StatementId} {span : Span} (hids : ∀ c ∈ ids, c < file.statementCount)
    (hordered : Span.InOrder span.start span.stop (ids.filterMap file.spanOf?)) :
    Spanned (file.push (.block ids) span).1 := by
  have hspans : ∀ {ids' : List StatementId}, (∀ c ∈ ids', c < file.statementCount) →
      ids'.filterMap (file.push (.block ids) span).1.spanOf? = ids'.filterMap file.spanOf? :=
    fun hlt => List.filterMap_congr fun c hc => file.spanOf?_push_of_lt _ span (hlt c hc)
  have hchild : ∀ {id s c}, file.get? id = some s → c ∈ s.kind.childIds →
      c < file.statementCount := fun hs hc => by
    obtain ⟨t, ht, -⟩ := hf.child_parent hs hc
    exact file.lt_of_get? ht
  constructor
  · intro id s c t hs hc ht
    rcases file.push_cases _ span hs with ⟨rfl, rfl⟩ | ⟨s', hs', rfl⟩
    · have hmem : t.span ∈ ids.filterMap (file.push (.block ids) span).1.spanOf? :=
        List.mem_filterMap.mpr ⟨c, hc, spanOf?_eq ht⟩
      rw [hspans hids] at hmem
      exact hordered.inside hmem
    · rcases file.push_cases _ span ht with ⟨rfl, rfl⟩ | ⟨t', ht', rfl⟩
      · exact absurd (hchild hs' hc) (Nat.lt_irrefl _)
      · have hinside := h.inside hs' hc ht'
        exact hinside
  · intro id s ids' hs hkind
    rcases file.push_cases _ span hs with ⟨rfl, rfl⟩ | ⟨s', hs', rfl⟩
    · obtain rfl := StatementKind.block.inj hkind
      rw [hspans hids]
      exact hordered
    · have hkind' : s'.kind = .block ids' := hkind
      have hlt : ∀ c ∈ ids', c < file.statementCount := fun c hc =>
        hchild hs' (by rw [hkind']; exact hc)
      have hold := h.ordered hs' hkind'
      rw [hspans hlt]
      exact hold

end SourceFile

end Foresight
