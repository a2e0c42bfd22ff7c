import Mathlib.Data.List.Pairwise
import Foresight.Proofs.Code.Gaps
import Foresight.Proofs.Code.Lookups

/-!
# Statements that are separate

Spans in order may touch each other, and one without text may lie at the very end of another. The
layout writes something in front of every statement that is no part of it: a keyword, a brace or
white space. So the spans of children, and those of roots, are spread (`Span.Spread`), with at least
a byte between one and the next. `Leads` says so of a stretch of laying out, beside the growth that
`Lays` tells of, and a file that is laid out is `Parted`.

Of two statements of such a file one hangs below the other, or their spans do not even touch
(`Forest.related`).
-/

namespace Foresight

namespace Span

/-- Spans that follow each other between two offsets, each behind something that is no part of
it. -/
def Spread : (start stop : Nat) → List Span → Prop
  | start, stop, [] => start ≤ stop
  | start, stop, s :: rest => start < s.start ∧ s.start ≤ s.stop ∧ Spread s.stop stop rest

/-- Spans of which one stops before the other starts. -/
def Separate (a b : Span) : Prop := a.stop < b.start ∨ b.stop < a.start

theorem Separate.symm {a b : Span} (h : a.Separate b) : b.Separate a := h.elim .inr .inl

theorem Separate.inside {a b a' b' : Span} (h : a.Separate b) (ha : a'.Inside a)
    (hb : b'.Inside b) : a'.Separate b' := by
  unfold Separate at h ⊢
  unfold Inside at ha hb
  omega

theorem Separate.not_contains {a b : Span} (h : a.Separate b) {offset : Nat}
    (ha : a.contains offset = true) : b.contains offset = false := by
  unfold Separate at h
  simp only [contains, Bool.and_eq_true, decide_eq_true_eq, Bool.and_eq_false_imp] at ha ⊢
  exact fun hb => decide_eq_false (by omega)

/-- Spans that stop together are not separate. -/
theorem Separate.stop_ne {a b : Span} (h : a.Separate b) (ha : a.start ≤ a.stop)
    (hb : b.start ≤ b.stop) : a.stop ≠ b.stop := by
  unfold Separate at h
  omega

namespace Spread

variable {start middle stop : Nat} {spans more : List Span}

theorem inOrder (h : Spread start stop spans) : InOrder start stop spans := by
  induction spans generalizing start with
  | nil => exact h
  | cons s rest ih =>
    obtain ⟨hstart, hspan, hrest⟩ := h
    exact ⟨Nat.le_of_lt hstart, hspan, ih hrest⟩

theorem append (h : Spread start middle spans) (h' : Spread middle stop more) :
    Spread start stop (spans ++ more) := by
  induction spans generalizing start with
  | nil =>
    have hle : start ≤ middle := h
    cases more with
    | nil => exact Nat.le_trans hle h'
    | cons s rest => exact ⟨Nat.lt_of_le_of_lt hle h'.1, h'.2⟩
  | cons s rest ih => exact ⟨h.1, h.2.1, ih h.2.2⟩

theorem start_lt (h : Spread start stop spans) {s : Span} (hs : s ∈ spans) : start < s.start := by
  induction spans generalizing start with
  | nil => cases hs
  | cons first rest ih =>
    obtain ⟨hstart, hspan, hrest⟩ := h
    rcases List.mem_cons.mp hs with rfl | hs
    · exact hstart
    · exact Nat.lt_of_lt_of_le hstart (Nat.le_trans hspan (Nat.le_of_lt (ih hrest hs)))

theorem pairwise_separate (h : Spread start stop spans) : spans.Pairwise Separate := by
  induction spans generalizing start with
  | nil => exact .nil
  | cons first rest ih =>
    obtain ⟨-, -, hrest⟩ := h
    exact .cons (fun s hs => Or.inl (hrest.start_lt hs)) (ih hrest)

end Spread

end Span

namespace SourceFile

variable {file file' file'' : SourceFile} {ids ids' : List StatementId}

/-- Of statements whose spans are spread, any two are separate. -/
theorem separate_of_spread {start stop : Nat}
    (h : Span.Spread start stop (ids.filterMap file.spanOf?)) {a b : StatementId} {s t : Statement}
    (ha : a ∈ ids) (hb : b ∈ ids) (hne : a ≠ b) (hs : file.get? a = some s)
    (ht : file.get? b = some t) : s.span.Separate t.span := by
  have hpairs := List.pairwise_filterMap.mp h.pairwise_separate
  have : Std.Symm fun a b => ∀ x, file.spanOf? a = some x → ∀ y, file.spanOf? b = some y →
      x.Separate y := ⟨fun a b hab x hx y hy => (hab y hy x hx).symm⟩
  exact hpairs.forall ha hb hne _ (spanOf?_eq hs) _ (spanOf?_eq ht)

/-- The children of every statement are spread inside it. -/
def Parted (file : SourceFile) : Prop :=
  ∀ id s, file.get? id = some s →
    Span.Spread s.span.start s.span.stop (s.kind.childIds.filterMap file.spanOf?)

namespace Parted

theorem of_eq (h : Parted file) (hs : file'.statements = file.statements) : Parted file' := by
  have hget : file'.get? = file.get? := funext fun id => by rw [get?, get?, hs]
  have hspan : file'.spanOf? = file.spanOf? := funext fun id => by rw [spanOf?, spanOf?, hget]
  intro id s hid
  rw [hspan]
  exact h id s (hget ▸ hid)

theorem span_le (h : Parted file) {id : StatementId} {s : Statement}
    (hs : file.get? id = some s) : s.span.start ≤ s.span.stop := (h id s hs).inOrder.le

/-- What hangs below a statement lies inside it. -/
theorem inside_of_below (h : Parted file) {id other : StatementId} {s t : Statement}
    (hbelow : file.Below id other) (hs : file.get? id = some s) (ht : file.get? other = some t) :
    t.span.Inside s.span := by
  have hchild : ∀ {p c t}, file.Lists p c → file.get? c = some t →
      ∃ u, file.get? p = some u ∧ t.span.Inside u.span := by
    rintro p c t ⟨u, hu, hc⟩ ht
    exact ⟨u, hu, (h p u hu).inOrder.inside (List.mem_filterMap.mpr ⟨c, hc, spanOf?_eq ht⟩)⟩
  induction hbelow generalizing t with
  | single hlists =>
    obtain ⟨u, hu, hinside⟩ := hchild hlists ht
    obtain rfl := Option.some.inj (hs.symm.trans hu)
    exact hinside
  | tail _ hlists ih =>
    obtain ⟨u, hu, hinside⟩ := hchild hlists ht
    exact hinside.trans (ih hu)

/-- A statement is pushed over children that are spread inside it. -/
theorem push (h : Parted file) (hf : Forest file) {kind : StatementKind} {span : Span}
    (hids : ∀ c ∈ kind.childIds, c < file.statementCount)
    (hspread : Span.Spread span.start span.stop (kind.childIds.filterMap file.spanOf?)) :
    Parted (file.push kind span).1 := by
  have hspans : ∀ {ids : List StatementId}, (∀ c ∈ ids, c < file.statementCount) →
      ids.filterMap (file.push kind span).1.spanOf? = ids.filterMap file.spanOf? :=
    fun hlt => List.filterMap_congr fun c hc => file.spanOf?_push_of_lt _ span (hlt c hc)
  intro id s hs
  rcases file.push_cases kind span hs with ⟨rfl, rfl⟩ | ⟨t, ht, rfl⟩
  · rw [hspans hids]
    exact hspread
  · have hold := h id t ht
    rw [hspans fun c hc => ?_]
    · exact hold
    · obtain ⟨u, hu, -⟩ := hf.child_parent ht hc
      exact file.lt_of_get? hu

end Parted

/-! ## Stretches of laying out -/

/-- A stretch of laying out in which something is written before each of the new statements. -/
structure Leads (file file' : SourceFile) (ids : List StatementId) : Prop where
  grows : Grows file file' ids
  spans : Span.Spread file.text.utf8ByteSize file'.text.utf8ByteSize (ids.filterMap file'.spanOf?)
  parted : Forest file → Parted file → Parted file'

namespace Leads

theorem of_write (text : String) (file : SourceFile) : Leads file (Layout.write text file) [] where
  grows := .of_eq rfl rfl
  spans := Text.utf8ByteSize_le_append file.text text
  parted _ h := h.of_eq rfl

theorem refl (file : SourceFile) : Leads file file [] where
  grows := .refl file
  spans := Nat.le_refl _
  parted _ h := h

theorem trans (h : Leads file file' ids) (h' : Leads file' file'' ids') :
    Leads file file'' (ids ++ ids') where
  grows := h.grows.trans h'.grows
  spans := by
    -- The later stretch does not touch the statements of the earlier one.
    have hold : ids.filterMap file''.spanOf? = ids.filterMap file'.spanOf? :=
      List.filterMap_congr fun id hid => by
        rw [spanOf?, spanOf?, h'.grows.old id (h.grows.lt_count hid)]
    rw [List.filterMap_append, hold]
    exact h.spans.append h'.spans
  parted hf hparted := h'.parted (h.grows.forest hf) (h.parted hf hparted)

theorem of_written {text : String} (h : Leads (Layout.write text file) file' ids) :
    Leads file file' ids :=
  (of_write text file).trans h

theorem then_write (h : Leads file file' ids) (text : String) :
    Leads file (Layout.write text file') ids := by
  have hwritten := h.trans (of_write text file')
  rwa [List.append_nil] at hwritten

/-- A statement closed over what is spread in its text. -/
theorem close (kind : StatementKind) (h : Leads file file' kind.childIds) (hf : Forest file)
    (hparted : Parted file) : Parted (Layout.close kind file.text.utf8ByteSize file').1 :=
  (h.parted hf hparted).push (h.grows.forest hf) (fun _ hc => h.grows.lt_count hc) h.spans

end Leads

end SourceFile

namespace Layout

open SourceFile

variable {level : Nat} {s : StatementTree} {file file' : SourceFile} {kind : StatementKind}

/-- A statement that is laid out behind some text. -/
theorem leads_of_emit {text : String} (htext : 0 < text.utf8ByteSize)
    (h : ∀ file, Forest file → Parted file → Parted (emit level s file).1) (file : SourceFile) :
    Leads file (emit level s (write text file)).1 [(emit level s (write text file)).2] where
  grows := ((lays_emit level s (write text file)).of_written).grows
  spans := by
    have hlays := lays_emit level s (write text file)
    have hspan := spanOf?_emit level s (write text file)
    have hsize : (write text file).text.utf8ByteSize = file.text.utf8ByteSize + text.utf8ByteSize :=
      String.utf8ByteSize_append
    have hle := hlays.spans.le
    rw [List.filterMap_cons, hspan, List.filterMap_nil]
    exact ⟨by simp only; omega, hle, Nat.le_refl _⟩
  parted hf hparted := by
    have hwritten := Leads.of_write text file
    exact h _ (hwritten.grows.forest hf) (hwritten.parted hf hparted)

/-- A block whose lines lead each other. -/
theorem parted_block {statements : List StatementTree}
    (hlines : ∀ file, Leads file (emitLines level statements file).1
      (emitLines level statements file).2) (file : SourceFile) (hf : Forest file)
    (hparted : Parted file) : Parted (emit level (.block statements) file).1 := by
  rw [emit]
  exact Leads.close (.block _) ((hlines _).of_written.then_write _) hf hparted

theorem leads_block {statements : List StatementTree}
    (hlines : ∀ file, Leads file (emitLines level statements file).1
      (emitLines level statements file).2) {text : String} (htext : 0 < text.utf8ByteSize)
    (file : SourceFile) :
    Leads file
      (closeBlock level (write text file).text.utf8ByteSize
        (emitLines level statements (write "\x7b\n" (write text file)))).1
      [(closeBlock level (write text file).text.utf8ByteSize
        (emitLines level statements (write "\x7b\n" (write text file)))).2] := by
  have heq : emit level (.block statements) (write text file) =
      closeBlock level (write text file).text.utf8ByteSize
        (emitLines level statements (write "\x7b\n" (write text file))) := by rw [emit]
  rw [← heq]
  exact leads_of_emit htext (parted_block hlines) file

theorem utf8ByteSize_indentation_pos (level : Nat) :
    0 < (indentation (level + 1)).utf8ByteSize := by
  have hsize : (indentation (level + 1)).utf8ByteSize =
      "    ".utf8ByteSize + (indentation level).utf8ByteSize := String.utf8ByteSize_append
  have hspaces : "    ".utf8ByteSize = 4 := by decide
  omega

/-- Text that ends in something is not empty. -/
theorem utf8ByteSize_append_pos (text : String) {more : String} (h : 0 < more.utf8ByteSize) :
    0 < (text ++ more).utf8ByteSize := by
  rw [String.utf8ByteSize_append]
  omega

theorem utf8ByteSize_gap_pos (level : Nat) (body : StatementTree) :
    0 < (gap level body).utf8ByteSize := by
  have hline := utf8ByteSize_append_pos "\n" (utf8ByteSize_indentation_pos level)
  cases body with
  | block statements => exact (by decide : 0 < " ".utf8ByteSize)
  | _ => exact hline

mutual

theorem parted_emit (level : Nat) : ∀ (s : StatementTree) (file : SourceFile),
    Forest file → Parted file → Parted (emit level s file).1
  | .block statements, file, hf, hparted =>
    parted_block (leads_emitLines level statements) file hf hparted
  | .expression _, file, hf, hparted | .declaration _, file, hf, hparted
  | .return_ (some _), file, hf, hparted | .return_ none, file, hf, hparted
  | .break_, file, hf, hparted | .continue_, file, hf, hparted
  | .empty, file, hf, hparted | .raw _, file, hf, hparted => by
    rw [emit]
    exact (Leads.of_write _ file).close _ hf hparted
  | .if_ condition then_ else_, file, hf, hparted => by
    rw [emit]
    have hthen := leads_emitBody level "" then_ (write ("if (" ++ condition.text ++ ")") file)
    have helse := leads_emitBody level ("\n" ++ indentation level ++ "else") else_
      (emitBody level "" then_ (write ("if (" ++ condition.text ++ ")") file)).1
    exact (hthen.of_written.trans helse).close (.if_ condition _ _) hf hparted
  | .while_ condition body, file, hf, hparted => by
    rw [emit]
    exact (leads_emitBody level "" body _).of_written.close (.while_ condition _) hf hparted
  | .doWhile body condition, file, hf, hparted => by
    rw [emit_doWhile]
    have hbody := leads_of_emit (utf8ByteSize_append_pos "do" (utf8ByteSize_gap_pos level body))
      (parted_emit (Placed.bodyLevel level body) body) file
    exact (hbody.then_write _).close (.doWhile (some _) condition) hf hparted
  | .foreach iterator collection body, file, hf, hparted => by
    rw [emit]
    exact (leads_emitBody level "" body _).of_written.close (.foreach iterator collection _)
      hf hparted
  | .using_ declared body, file, hf, hparted => by
    rw [emit]
    exact (leads_emitBody level "" body _).of_written.close (.using_ declared none _)
      hf hparted
  | .try_ body catches finally_, file, hf, hparted => by
    rw [emit]
    have hbody := leads_block (leads_emitLines level body)
      (by decide : 0 < "try ".utf8ByteSize) file
    have hcatches := hbody.trans (leads_emitCatches level catches _)
    have hfinally := hcatches.trans (leads_emitFinally level finally_ _)
    exact hfinally.close (.try_ (some _) _ _) hf hparted

theorem leads_emitLines (level : Nat) : ∀ (statements : List StatementTree) (file : SourceFile),
    Leads file (emitLines level statements file).1 (emitLines level statements file).2
  | [], file => by
    rw [emitLines]
    exact .refl file
  | s :: rest, file => by
    rw [emitLines]
    have hfirst := leads_of_emit (utf8ByteSize_indentation_pos level)
      (parted_emit (level + 1) s) file
    exact (hfirst.then_write "\n").trans (leads_emitLines level rest _)

theorem leads_emitBody (level : Nat) (lead : String) :
    ∀ (body : Option StatementTree) (file : SourceFile),
      Leads file (emitBody level lead body file).1 (emitBody level lead body file).2.toList
  | none, file => by
    rw [emitBody]
    exact .refl file
  | some body, file => by
    rw [emitBody_some]
    exact leads_of_emit (utf8ByteSize_append_pos lead (utf8ByteSize_gap_pos level body))
      (parted_emit (Placed.bodyLevel level body) body) file

theorem leads_emitCatches (level : Nat) :
    ∀ (catches : List (CatchClause (List StatementTree))) (file : SourceFile),
      Leads file (emitCatches level catches file).1
        ((emitCatches level catches file).2.filterMap (·.body))
  | [], file => by
    rw [emitCatches]
    exact .refl file
  | ⟨_, written, variable_, body⟩ :: rest, file => by
    rw [emitCatches]
    have hbody := leads_block (leads_emitLines level body)
      (utf8ByteSize_append_pos (" catch" ++ catchHeader written variable_)
        (by decide : 0 < " ".utf8ByteSize)) file
    exact hbody.trans (leads_emitCatches level rest _)

theorem leads_emitFinally (level : Nat) :
    ∀ (finally_ : Option (List StatementTree)) (file : SourceFile),
      Leads file (emitFinally level finally_ file).1 (emitFinally level finally_ file).2.toList
  | none, file => by
    rw [emitFinally]
    exact .refl file
  | some statements, file => by
    rw [emitFinally]
    exact leads_block (leads_emitLines level statements)
      (by decide : 0 < " finally ".utf8ByteSize) file

end

theorem leads_emitMembers (index : Nat) (members : List (List StatementTree)) (file : SourceFile) :
    Leads file (emitMembers index members file).1 (emitMembers index members file).2 := by
  induction members generalizing index file with
  | nil => exact .refl file
  | cons body rest ih =>
    have hbody := leads_of_emit (utf8ByteSize_append_pos
      ((if index = 0 then "" else "\n") ++ "void Member" ++ toString index)
      (by decide : 0 < "()\n".utf8ByteSize)) (parted_emit 0 (.block body)) file
    exact (hbody.then_write "\n").trans (ih ..)

end Layout

/-! ## Kin -/

namespace SourceFile

variable {file : SourceFile}

theorem exists_root_of_descent {id : StatementId} {path : List StatementId}
    (h : Descent file id path) : ∃ root ∈ file.roots, root = id ∨ file.Below root id := by
  induction h with
  | root hroot => exact ⟨_, hroot, Or.inl rfl⟩
  | child _ hs hc ih =>
    obtain ⟨root, hroot, rfl | hbelow⟩ := ih
    · exact ⟨_, hroot, Or.inr (.single ⟨_, hs, hc⟩)⟩
    · exact ⟨root, hroot, Or.inr (.tail hbelow ⟨_, hs, hc⟩)⟩

/-- What is separate from a statement is separate from all that hangs below it. -/
theorem Parted.separate_of_top (h : Parted file) {top id other : StatementId} {u s t : Statement}
    (htop : top = id ∨ file.Below top id) (hu : file.get? top = some u)
    (hs : file.get? id = some s) (ht : file.get? other = some t)
    (hseparate : u.span.Separate t.span) : s.span.Separate t.span := by
  rcases htop with rfl | hbelow
  · obtain rfl := Option.some.inj (hu.symm.trans hs)
    exact hseparate
  · have hle := h.span_le ht
    exact hseparate.inside (h.inside_of_below hbelow hu hs) ⟨Nat.le_refl _, hle, Nat.le_refl _⟩

/-- Each of some statements that are spread is above what is found at or below any of them, or
separate from it. -/
theorem Parted.related_of_top (h : Parted file) {ids : List StatementId} {start stop : Nat}
    (hspread : Span.Spread start stop (ids.filterMap file.spanOf?)) {id top other : StatementId}
    {s t u : Statement} (hid : id ∈ ids) (htop : top ∈ ids)
    (habove : top = other ∨ file.Below top other) (hs : file.get? id = some s)
    (hu : file.get? top = some u) (ht : file.get? other = some t) :
    id = other ∨ file.Below id other ∨ file.Below other id ∨ s.span.Separate t.span := by
  by_cases heq : top = id
  · subst heq
    exact habove.imp_right Or.inl
  · have hseparate := separate_of_spread hspread htop hid heq hu hs
    exact Or.inr (Or.inr (Or.inr (h.separate_of_top habove hu ht hs hseparate).symm))

/-- Two statements of a parted forest are one, or one hangs below the other, or they are separate.
The way down to the first is followed until it leaves the way to the second. -/
theorem Forest.related (hf : Forest file) (hparted : Parted file) {start stop : Nat}
    (hroots : Span.Spread start stop (file.roots.filterMap file.spanOf?)) {id other : StatementId}
    {path path' : List StatementId} {s t : Statement} (hid : Descent file id path)
    (hother : Descent file other path') (hs : file.get? id = some s)
    (ht : file.get? other = some t) :
    id = other ∨ file.Below id other ∨ file.Below other id ∨ s.span.Separate t.span := by
  induction hid generalizing s with
  | @root id hroot =>
    obtain ⟨top, htop, habove⟩ := exists_root_of_descent hother
    obtain ⟨u, hu, -⟩ := hf.root_free htop
    exact hparted.related_of_top hroots hroot htop habove hs hu ht
  | @child parent id p _ hdescent hp hc ih =>
    have hlists : file.Lists parent id := ⟨p, hp, hc⟩
    rcases ih hp with rfl | hbelow | hbelow | hseparate
    · exact Or.inr (Or.inr (Or.inl (.single hlists)))
    · -- The way to the other one goes on from the parent by one of its children.
      obtain ⟨top, ⟨p', hp', htop⟩, habove⟩ := Relation.TransGen.head'_iff.mp hbelow
      obtain rfl := Option.some.inj (hp.symm.trans hp')
      have habove := (Relation.reflTransGen_iff_eq_or_transGen.mp habove).imp_left Eq.symm
      obtain ⟨u, hu, -⟩ := hf.child_parent hp htop
      exact hparted.related_of_top (hparted parent p hp) hc htop habove hs hu ht
    · exact Or.inr (Or.inr (Or.inl (.tail hbelow hlists)))
    · exact Or.inr (Or.inr (Or.inr
        (hparted.separate_of_top (Or.inr (.single hlists)) hp hs ht hseparate)))

end SourceFile

namespace Outline

open SourceFile

variable (o : Outline)

theorem leads_laid : Leads (.new o.path "") o.laid.1 o.laid.2 :=
  Layout.leads_emitMembers 0 o.members (.new o.path "")

/-- In the file of an outline, children are spread in their parents. -/
theorem parted_finish : Parted o.finish := by
  have hnew : Parted (.new o.path "") := fun id s hs => by simp [SourceFile.new, get?] at hs
  rw [finish_eq]
  exact (o.leads_laid.parted (forest_new o.path "") hnew).of_eq rfl

theorem spread_roots_finish : Span.Spread 0 o.finish.text.utf8ByteSize
    (o.finish.roots.filterMap o.finish.spanOf?) := by
  rw [finish_eq]
  exact o.leads_laid.spans

/-- Two statements of an outline are one, or one hangs below the other, or they are separate. -/
theorem related_finish {id other : StatementId} {s t : Statement}
    (hs : o.finish.get? id = some s) (ht : o.finish.get? other = some t) :
    id = other ∨ o.finish.Below id other ∨ o.finish.Below other id ∨ s.span.Separate t.span := by
  have hforest := o.forest_finish
  obtain ⟨path, hid⟩ := hforest.exists_descent o.rooted_finish (o.finish.lt_of_get? hs)
  obtain ⟨path', hother⟩ := hforest.exists_descent o.rooted_finish (o.finish.lt_of_get? ht)
  exact hforest.related o.parted_finish o.spread_roots_finish hid hother hs ht

end Outline

end Foresight
