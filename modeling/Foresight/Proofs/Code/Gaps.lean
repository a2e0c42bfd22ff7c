import Foresight.Proofs.Code.Laid
import Foresight.Text.Blank

/-!
# What stands between statements

The layout writes nothing but white space between the opening brace of a block and its first
statement, and between the statements of a block (`Spaced`). The lines of a block are spaced as they
are written (`Layout.spaced_emitLines`). That goes on to hold while more is written and pushed, so
all blocks of a file that was laid out are spaced (`Outline.written_finish`): `Layout.Kept` says
what a property of files needs to be kept by all of the layout.
-/

namespace Foresight

namespace Text

variable {text more piece : String} {start stop : Nat}

theorem isBlankText_append {a b : String} (ha : isBlankText a = true) (hb : isBlankText b = true) :
    isBlankText (a ++ b) = true := by
  unfold isBlankText at *
  rw [String.toList_append, List.all_append, ha, hb, Bool.and_true]

/-- Between two offsets of a text there is nothing but white space. -/
def BlankBetween (text : String) (start stop : Nat) : Prop :=
  ∃ gap, slice? text start stop = some gap ∧ isBlankText gap = true

namespace BlankBetween

theorem le (h : BlankBetween text start stop) : start ≤ stop := by
  obtain ⟨gap, hgap, -⟩ := h
  obtain ⟨before, after, -, rfl, rfl⟩ := slice?_eq_some_iff.mp hgap
  exact utf8ByteSize_le_append before gap

theorem append_right (h : BlankBetween text start stop) (more : String) :
    BlankBetween (text ++ more) start stop := by
  obtain ⟨gap, hgap, hblank⟩ := h
  exact ⟨gap, slice?_append_right hgap more, hblank⟩

/-- White space that is written behind a text goes with the white space at its end. -/
theorem written (h : BlankBetween text start text.utf8ByteSize) (hmore : isBlankText more = true) :
    BlankBetween (text ++ more) start (text ++ more).utf8ByteSize := by
  obtain ⟨gap, hgap, hblank⟩ := h
  obtain ⟨before, after, htext, rfl, hsize⟩ := slice?_eq_some_iff.mp hgap
  -- The gap ends where the text ends, so nothing is behind it.
  obtain rfl : after = "" := by
    rw [htext, String.utf8ByteSize_append] at hsize
    exact String.utf8ByteSize_eq_zero_iff.mp (by omega)
  rw [String.append_empty] at htext
  refine ⟨gap ++ more, slice?_eq_some_iff.mpr ⟨before, "", ?_, rfl, ?_⟩,
    isBlankText_append hblank hmore⟩
  · rw [String.append_empty, htext, String.append_assoc]
  · rw [htext, String.append_assoc]

/-- Where a piece of the text begins or ends, there is no gap. -/
theorem start_of_slice? (h : slice? text start stop = some piece) :
    BlankBetween text start start :=
  ⟨"", slice?_point (exists_slice?_iff.mp ⟨piece, h⟩).2.1, rfl⟩

theorem stop_of_slice? (h : slice? text start stop = some piece) :
    BlankBetween text stop stop :=
  ⟨"", slice?_point (exists_slice?_iff.mp ⟨piece, h⟩).2.2, rfl⟩

theorem end_of_text (text : String) :
    BlankBetween text text.utf8ByteSize text.utf8ByteSize :=
  ⟨"", slice?_eq_some_iff.mpr ⟨text, "", by simp, rfl, by simp⟩, rfl⟩

end BlankBetween

end Text

namespace SourceFile

open Text

variable {file file' : SourceFile} {ids : List StatementId} {start : Nat}

/-- Statements that follow each other from an offset on, each after nothing but white space. -/
def Spaced (file : SourceFile) : (start : Nat) → List StatementId → Prop
  | _, [] => True
  | start, id :: rest => ∃ span, file.spanOf? id = some span ∧
      BlankBetween file.text start span.start ∧ Spaced file span.stop rest

namespace Spaced

/-- Statements that stay where they are stay spaced while text is added behind. -/
theorem mono (h : Spaced file start ids)
    (hspans : ∀ id span, file.spanOf? id = some span → file'.spanOf? id = some span)
    (htext : ∃ written, file'.text = file.text ++ written) : Spaced file' start ids := by
  induction ids generalizing start with
  | nil => trivial
  | cons id rest ih =>
    obtain ⟨span, hspan, hblank, hrest⟩ := h
    refine ⟨span, hspans id span hspan, ?_, ih hrest⟩
    obtain ⟨written, hwritten⟩ := htext
    rw [hwritten]
    exact hblank.append_right written

theorem head (h : Spaced file start ids) {first : StatementId} {s : Statement}
    (hfirst : ids.head? = some first) (hs : file.get? first = some s) :
    BlankBetween file.text start s.span.start := by
  cases ids with
  | nil => cases hfirst
  | cons id rest =>
    obtain rfl := Option.some.inj hfirst
    obtain ⟨span, hspan, hblank, -⟩ := h
    rw [spanOf?_eq hs] at hspan
    obtain rfl := Option.some.inj hspan
    exact hblank

theorem successor (h : Spaced file start ids) {id next : StatementId} {s n : Statement}
    (hnext : successor? id ids = some next) (hs : file.get? id = some s)
    (hn : file.get? next = some n) : BlankBetween file.text s.span.stop n.span.start := by
  induction ids generalizing start with
  | nil => cases hnext
  | cons first rest ih =>
    obtain ⟨span, hspan, -, hrest⟩ := h
    rw [successor?] at hnext
    split at hnext
    · rename_i hfirst
      rw [hfirst, spanOf?_eq hs] at hspan
      obtain rfl := Option.some.inj hspan
      exact hrest.head hnext hn
    · exact ih hrest hnext

end Spaced

/-- Nothing was synthesized, and the statements of all blocks are spaced from behind the brace. -/
structure Written (file : SourceFile) : Prop where
  unmarked : ∀ {id s}, file.get? id = some s → s.synthesized = none
  spaced : ∀ {id s ids}, file.get? id = some s → s.kind = .block ids →
    Spaced file (s.span.start + 1) ids

theorem written_new (path text : String) : Written (.new path text) where
  unmarked h := by simp [new, get?] at h
  spaced h := by simp [new, get?] at h

theorem Written.of_eq (h : Written file) (hs : file'.statements = file.statements)
    (htext : ∃ written, file'.text = file.text ++ written) : Written file' := by
  have hget : ∀ id, file'.get? id = file.get? id := fun id => by rw [get?, get?, hs]
  refine ⟨fun {id s} hs' => h.unmarked (hget id ▸ hs'), fun {id s ids} hs' hkind => ?_⟩
  refine (h.spaced (hget id ▸ hs') hkind).mono (fun c span hspan => ?_) htext
  rw [spanOf?, hget]
  exact hspan

theorem Written.push (h : Written file) {kind : StatementKind} {span : Span}
    (hspaced : ∀ ids, kind = .block ids → Spaced file (span.start + 1) ids) :
    Written (file.push kind span).1 := by
  have hstays : ∀ {start ids}, Spaced file start ids →
      Spaced (file.push kind span).1 start ids := fun hids =>
    hids.mono (fun id s hspan => by
      obtain ⟨t, ht, -⟩ := Option.map_eq_some_iff.mp hspan
      rw [file.spanOf?_push_of_lt kind span (file.lt_of_get? ht), hspan])
      ⟨"", (text_adoptAll ..).trans String.append_empty.symm⟩
  constructor
  · intro id s hs
    rcases file.push_cases kind span hs with ⟨rfl, rfl⟩ | ⟨t, ht, rfl⟩
    · rfl
    · have hnone : t.synthesized = none := h.unmarked ht
      exact hnone
  · intro id s ids hs hkind
    rcases file.push_cases kind span hs with ⟨rfl, rfl⟩ | ⟨t, ht, rfl⟩
    · exact hstays (hspaced ids hkind)
    · have hkind' : t.kind = .block ids := hkind
      have hold := h.spaced ht hkind'
      exact hstays hold

end SourceFile

namespace Layout

open SourceFile Text

/-! ## The lines of a block -/

theorem isBlankText_indentation (level : Nat) : isBlankText (indentation level) = true := by
  induction level with
  | zero => rfl
  | succ level ih => exact isBlankText_append (by decide) ih

/-- Whatever is laid out, in the end a statement is closed from where it began. -/
theorem exists_emit_eq_close (level : Nat) (s : StatementTree) (file : SourceFile) :
    ∃ kind file', emit level s file = close kind file.text.utf8ByteSize file' := by
  cases s with
  | doWhile body condition => exact ⟨_, _, emit_doWhile ..⟩
  | return_ value =>
    cases value with
    | none => exact ⟨_, _, by rw [emit]⟩
    | some value => exact ⟨_, _, by rw [emit]⟩
  | block statements => exact ⟨_, _, by rw [emit, closeBlock]⟩
  | _ => exact ⟨_, _, by rw [emit]⟩

/-- A statement spans what has been written since it began. -/
theorem spanOf?_emit (level : Nat) (s : StatementTree) (file : SourceFile) :
    (emit level s file).1.spanOf? (emit level s file).2 =
      some ⟨file.text.utf8ByteSize, (emit level s file).1.text.utf8ByteSize⟩ := by
  obtain ⟨kind, file', heq⟩ := exists_emit_eq_close level s file
  rw [heq, text_close]
  exact spanOf?_eq (get?_push_self ..)

/-- The lines of a block are spaced from wherever there is white space before them. -/
theorem spaced_emitLines (level : Nat) (statements : List StatementTree) (file : SourceFile)
    {start : Nat} (h : BlankBetween file.text start file.text.utf8ByteSize) :
    Spaced (emitLines level statements file).1 start (emitLines level statements file).2 := by
  induction statements generalizing file start with
  | nil =>
    rw [emitLines]
    trivial
  | cons s rest ih =>
    have hindented := h.written (isBlankText_indentation (level + 1))
    have hfirst := lays_emit (level + 1) s (write (indentation (level + 1)) file)
    have hspan := spanOf?_emit (level + 1) s (write (indentation (level + 1)) file)
    rw [emitLines]
    generalize emit (level + 1) s (write (indentation (level + 1)) file) = first at hfirst hspan ⊢
    obtain ⟨emitted, id⟩ := first
    have hlines := lays_emitLines level rest (write "\n" emitted)
    obtain ⟨written, hwritten⟩ := ((hfirst.then_write "\n").trans hlines).text
    have hline : BlankBetween (emitted.text ++ "\n") emitted.text.utf8ByteSize
        (emitted.text ++ "\n").utf8ByteSize := (BlankBetween.end_of_text _).written (by decide)
    refine ⟨⟨(write (indentation (level + 1)) file).text.utf8ByteSize, emitted.text.utf8ByteSize⟩,
      ?_, ?_, ih _ hline⟩
    · have hlt : id < emitted.statementCount := hfirst.grows.lt_count List.mem_cons_self
      rw [spanOf?, hlines.grows.old id hlt]
      exact hspan
    · have hblank := hindented.append_right written
      rwa [← text_write, ← hwritten] at hblank

/-! ## Everything that is laid out -/

/-- A property of files that laying out keeps: writing keeps it, pushing a statement other than a
block does, and closing a block does once its lines are laid out. -/
structure Kept (Q : SourceFile → Prop) : Prop where
  write : ∀ {file : SourceFile} (text : String), Q file → Q (write text file)
  close : ∀ {file : SourceFile} {kind : StatementKind} (start : Nat),
    (∀ ids, kind ≠ .block ids) → Q file → Q (close kind start file).1
  block : ∀ {opened : SourceFile} {level : Nat} {statements : List StatementTree},
    Q (emitLines level statements (Layout.write "\x7b\n" opened)).1 →
      Q (closeBlock level opened.text.utf8ByteSize
        (emitLines level statements (Layout.write "\x7b\n" opened))).1

namespace Kept

variable {Q : SourceFile → Prop}

mutual

theorem emit (h : Kept Q) (level : Nat) : ∀ (s : StatementTree) {file : SourceFile},
    Q file → Q (emit level s file).1
  | .block statements, file, hfile => by
    rw [Layout.emit]
    exact h.block (h.emitLines level statements (h.write _ hfile))
  | .expression _, file, hfile | .declaration _, file, hfile | .return_ (some _), file, hfile
  | .return_ none, file, hfile | .break_, file, hfile | .continue_, file, hfile
  | .empty, file, hfile | .raw _, file, hfile => by
    rw [Layout.emit]
    exact h.close _ nofun (h.write _ hfile)
  | .if_ _ then_ else_, file, hfile => by
    rw [Layout.emit]
    exact h.close _ nofun
      (h.emitBody level _ else_ (h.emitBody level "" then_ (h.write _ hfile)))
  | .while_ _ body, file, hfile | .foreach _ _ body, file, hfile | .using_ _ body, file, hfile => by
    rw [Layout.emit]
    exact h.close _ nofun (h.emitBody level "" body (h.write _ hfile))
  | .doWhile body condition, file, hfile => by
    rw [emit_doWhile]
    exact h.close _ nofun (h.write _ (h.emit (Placed.bodyLevel level body) body (h.write _ hfile)))
  | .try_ body catches finally_, file, hfile => by
    rw [Layout.emit]
    have hbody := h.block (h.emitLines level body (h.write "\x7b\n" (h.write "try " hfile)))
    exact h.close _ nofun (h.emitFinally level finally_ (h.emitCatches level catches hbody))

theorem emitLines (h : Kept Q) (level : Nat) :
    ∀ (statements : List StatementTree) {file : SourceFile},
      Q file → Q (emitLines level statements file).1
  | [], file, hfile => by
    rw [Layout.emitLines]
    exact hfile
  | s :: rest, file, hfile => by
    rw [Layout.emitLines]
    exact h.emitLines level rest (h.write _ (h.emit (level + 1) s (h.write _ hfile)))

theorem emitBody (h : Kept Q) (level : Nat) (lead : String) :
    ∀ (body : Option StatementTree) {file : SourceFile},
      Q file → Q (emitBody level lead body file).1
  | none, file, hfile => by
    rw [Layout.emitBody]
    exact hfile
  | some body, file, hfile => by
    rw [emitBody_some]
    exact h.emit (Placed.bodyLevel level body) body (h.write _ hfile)

theorem emitCatches (h : Kept Q) (level : Nat) :
    ∀ (catches : List (CatchClause (List StatementTree))) {file : SourceFile},
      Q file → Q (emitCatches level catches file).1
  | [], file, hfile => by
    rw [Layout.emitCatches]
    exact hfile
  | ⟨_, written, variable_, body⟩ :: rest, file, hfile => by
    rw [Layout.emitCatches]
    have hlead := h.write (" catch" ++ catchHeader written variable_ ++ " ") hfile
    exact h.emitCatches level rest (h.block (h.emitLines level body (h.write _ hlead)))

theorem emitFinally (h : Kept Q) (level : Nat) :
    ∀ (finally_ : Option (List StatementTree)) {file : SourceFile},
      Q file → Q (emitFinally level finally_ file).1
  | none, file, hfile => by
    rw [Layout.emitFinally]
    exact hfile
  | some statements, file, hfile => by
    rw [Layout.emitFinally]
    exact h.block (h.emitLines level statements (h.write "\x7b\n" (h.write " finally " hfile)))

end

theorem emitMembers (h : Kept Q) (index : Nat) (members : List (List StatementTree))
    {file : SourceFile} (hfile : Q file) : Q (emitMembers index members file).1 := by
  induction members generalizing index file with
  | nil => exact hfile
  | cons body rest ih => exact ih _ (h.write "\n" (h.emit 0 (.block body) (h.write _ hfile)))

end Kept

theorem kept_written : Kept Written where
  write text h := h.of_eq rfl ⟨text, rfl⟩
  close start hkind h := h.push fun ids hblock => absurd hblock (hkind ids)
  block {opened level statements} h := by
    have hbrace : opened.text ++ "\x7b\n" = opened.text ++ "\x7b" ++ "\n" := by
      rw [String.append_assoc]
      rfl
    have hopened : BlankBetween (opened.text ++ "\x7b\n") (opened.text.utf8ByteSize + 1)
        (opened.text ++ "\x7b\n").utf8ByteSize := by
      rw [hbrace]
      have hstart : (opened.text ++ "\x7b").utf8ByteSize = opened.text.utf8ByteSize + 1 :=
        String.utf8ByteSize_append
      rw [← hstart]
      exact (BlankBetween.end_of_text _).written (by decide)
    have hspaced := spaced_emitLines level statements (write "\x7b\n" opened) hopened
    have hwritten : Written (write (indentation level ++ "\x7d")
        (emitLines level statements (write "\x7b\n" opened)).1) := h.of_eq rfl ⟨_, rfl⟩
    refine hwritten.push fun ids hkind => ?_
    obtain rfl := StatementKind.block.inj hkind
    exact hspaced.mono (fun _ _ hspan => hspan) ⟨_, rfl⟩

end Layout

/-- All blocks of a file that was laid out are spaced. -/
theorem Outline.written_finish (o : Outline) : SourceFile.Written o.finish := by
  rw [finish_eq]
  have hlaid : SourceFile.Written o.laid.1 :=
    Layout.kept_written.emitMembers 0 o.members (SourceFile.written_new ..)
  exact hlaid.of_eq rfl ⟨"", String.append_empty.symm⟩

end Foresight
