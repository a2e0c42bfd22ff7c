import Foresight.Code.Layout
import Foresight.Proofs.Code.Descent
import Foresight.Proofs.Code.Drawn

/-!
# Laid out files

Laying out a tree writes text and pushes statements, each over the statements that were pushed for
its parts. `Lays file file' ids ps` is a stretch of this work: the file has grown by text and
statements, the new statements without a parent are `ids`, they stand for the trees `ps`, and their
spans follow each other in what was written. Stretches compose, and a statement closed over one of
them is another one, so every function of the layout lays what it returns.

For a whole outline this says that its file is a forest of statements drawn from the trees of the
members, with a root for each of them (`Outline.finish_lays_out`).
-/

namespace Foresight.SourceFile

/-- A stretch of laying out: `ids` are the new statements without a parent, and stand for `ps`. -/
structure Lays (file file' : SourceFile) (ids : List StatementId) (ps : List Placed) : Prop where
  grows : Grows file file' ids
  covers : Covers file file' ids
  text : ∃ written, file'.text = file.text ++ written
  spans : Span.InOrder file.text.utf8ByteSize file'.text.utf8ByteSize
    (ids.filterMap file'.spanOf?)
  drawn : ∀ {places}, Drawn file places →
    ∃ more, Drawn file' (places ++ more) ∧ ids.map ((places ++ more)[·]?) = ps.map some

namespace Lays

variable {file file' file'' : SourceFile} {ids ids' : List StatementId} {ps ps' : List Placed}

theorem of_write (text : String) (file : SourceFile) :
    Lays file (Layout.write text file) [] [] where
  grows := .of_eq rfl rfl
  covers := .of_eq rfl
  text := ⟨text, rfl⟩
  spans := Text.utf8ByteSize_le_append file.text text
  drawn h := ⟨[], by rw [List.append_nil]; exact h.of_eq lasting_shows rfl ⟨text, rfl⟩, rfl⟩

theorem refl (file : SourceFile) : Lays file file [] [] where
  grows := .refl file
  covers := .of_eq rfl
  text := ⟨"", String.append_empty.symm⟩
  spans := Nat.le_refl _
  drawn {places} h := ⟨[], by rw [List.append_nil]; exact h, rfl⟩

theorem trans (h : Lays file file' ids ps) (h' : Lays file' file'' ids' ps') :
    Lays file file'' (ids ++ ids') (ps ++ ps') where
  grows := h.grows.trans h'.grows
  covers := h.covers.trans h'.grows h'.covers
  text := by
    obtain ⟨written, hwritten⟩ := h.text
    obtain ⟨more, hmore⟩ := h'.text
    exact ⟨written ++ more, by rw [hmore, hwritten, String.append_assoc]⟩
  spans := by
    -- The later stretch does not touch the statements of the earlier one.
    have hold : ids.filterMap file''.spanOf? = ids.filterMap file'.spanOf? :=
      List.filterMap_congr fun id hid => by
        rw [spanOf?, spanOf?, h'.grows.old id (h.grows.lt_count hid)]
    rw [List.filterMap_append, hold]
    exact h.spans.append h'.spans
  drawn hdrawn := by
    obtain ⟨more, hmore, hids⟩ := h.drawn hdrawn
    obtain ⟨more', hmore', hids'⟩ := h'.drawn hmore
    rw [List.append_assoc] at hmore' hids'
    refine ⟨more ++ more', hmore', ?_⟩
    rw [List.map_append, List.map_append, hids', ← List.append_assoc, map_getElem?_append hids]

/-- Whoever lays something out after something was written has laid it out. -/
theorem of_written {text : String} (h : Lays (Layout.write text file) file' ids ps) :
    Lays file file' ids ps :=
  (of_write text file).trans h

theorem then_write (h : Lays file file' ids ps) (text : String) :
    Lays file (Layout.write text file') ids ps := by
  have hwritten := h.trans (of_write text file')
  rwa [List.append_nil, List.append_nil] at hwritten

/-- A statement closed over the parts of a tree, when the text of the tree has been written. -/
theorem close {kind : StatementKind} {p : Placed} (h : Lays file file' kind.childIds p.parts)
    (hshape : kind.shape = p.tree.shape) (htext : file'.text = file.text ++ p.text) :
    Lays file (Layout.close kind file.text.utf8ByteSize file').1
      [(Layout.close kind file.text.utf8ByteSize file').2] [p] where
  grows := Grows.push ((List.append_nil kind.childIds).symm ▸ h.grows) _
  covers := Covers.push ((List.append_nil kind.childIds).symm ▸ h.covers) _
  text := ⟨p.text, (Layout.text_close ..).trans htext⟩
  spans := by
    rw [Layout.text_close]
    have hself : (file'.push kind ⟨file.text.utf8ByteSize, file'.text.utf8ByteSize⟩).1.spanOf?
        file'.statementCount = some ⟨file.text.utf8ByteSize, file'.text.utf8ByteSize⟩ :=
      spanOf?_eq (get?_push_self ..)
    have hle := h.spans.le
    show Span.InOrder _ _ ([file'.statementCount].filterMap
      (file'.push kind ⟨file.text.utf8ByteSize, file'.text.utf8ByteSize⟩).1.spanOf?)
    rw [List.filterMap_cons, hself]
    exact ⟨Nat.le_refl _, hle, Nat.le_refl _⟩
  drawn {places} hdrawn := by
    obtain ⟨more, hmore, hids⟩ := h.drawn hdrawn
    refine ⟨more ++ [p], ?_, ?_⟩
    · rw [← List.append_assoc]
      refine hmore.push lasting_shows ⟨hshape, ?_, h.spans, hids⟩
      have hslice := Text.slice?_append file.text p.text ""
      rwa [String.append_empty, ← htext] at hslice
    · show [(places ++ (more ++ [p]))[file'.statementCount]?] = [some p]
      rw [← List.append_assoc, ← hmore.length, List.getElem?_concat_length]

end Lays

end Foresight.SourceFile

namespace Foresight.Layout

open SourceFile

/-! ## The shapes that are pushed -/

theorem length_emitLines (level : Nat) (statements : List StatementTree) (file : SourceFile) :
    (emitLines level statements file).2.length = statements.length := by
  induction statements generalizing file with
  | nil => rw [emitLines]; rfl
  | cons s rest ih => rw [emitLines, List.length_cons, List.length_cons, ih]

theorem shape_block (level : Nat) (statements : List StatementTree) (file : SourceFile) :
    (StatementKind.block (emitLines level statements file).2).shape =
      (StatementTree.block statements).shape := by
  simp only [StatementKind.shape, StatementKind.mapIds, StatementTree.shape, List.map_const',
    length_emitLines]

theorem map_emitBody (level : Nat) (lead : String) (body : Option StatementTree)
    (file : SourceFile) :
    (emitBody level lead body file).2.map (fun _ => 0) = body.map fun _ => 0 := by
  cases body with
  | none => rw [emitBody]; rfl
  | some body => rw [emitBody_some]; rfl

theorem map_emitCatches (level : Nat) (catches : List (CatchClause (List StatementTree)))
    (file : SourceFile) :
    ((emitCatches level catches file).2.map fun c => { c with body := c.body.map fun _ => 0 }) =
      catches.map fun c => ⟨c.type, c.writtenType, c.variable_, some 0⟩ := by
  induction catches generalizing file with
  | nil => rw [emitCatches]; rfl
  | cons c rest ih => rw [emitCatches, List.map_cons, List.map_cons, ih]; rfl

theorem map_emitFinally (level : Nat) (finally_ : Option (List StatementTree))
    (file : SourceFile) :
    (emitFinally level finally_ file).2.map (fun _ => 0) = finally_.map fun _ => 0 := by
  cases finally_ <;> rw [emitFinally] <;> rfl

/-! ## Everything that is laid out -/

/-- A statement is laid out when its parts are, and what was pushed for it has its shape. -/
theorem lays_of_emit_eq {level : Nat} {s : StatementTree} {file file' : SourceFile}
    {kind : StatementKind}
    (heq : emit level s file = close kind file.text.utf8ByteSize file')
    (h : Lays file file' kind.childIds (Placed.mk level s).parts)
    (hshape : kind.shape = s.shape) :
    Lays file (emit level s file).1 [(emit level s file).2] [⟨level, s⟩] := by
  have htext := text_emit level s file
  rw [heq, text_close] at htext
  rw [heq]
  exact h.close hshape htext

/-- A statement without parts. -/
theorem lays_leaf {level : Nat} {s : StatementTree} {file : SourceFile} {kind : StatementKind}
    {text : String}
    (heq : emit level s file = close kind file.text.utf8ByteSize (write text file))
    (hchildren : kind.childIds = []) (hparts : (Placed.mk level s).parts = [])
    (hshape : kind.shape = s.shape) :
    Lays file (emit level s file).1 [(emit level s file).2] [⟨level, s⟩] := by
  refine lays_of_emit_eq heq ?_ hshape
  rw [hchildren, hparts]
  exact .of_write text file

/-- The braces of a block around its lines. -/
theorem lays_braces {level : Nat} {statements : List StatementTree}
    (hlines : ∀ file, Lays file (emitLines level statements file).1
      (emitLines level statements file).2 (Placed.lines level statements)) (opened : SourceFile) :
    Lays opened
      (closeBlock level opened.text.utf8ByteSize
        (emitLines level statements (write "\x7b\n" opened))).1
      [(closeBlock level opened.text.utf8ByteSize
        (emitLines level statements (write "\x7b\n" opened))).2]
      [⟨level, .block statements⟩] := by
  have heq : emit level (.block statements) opened = closeBlock level opened.text.utf8ByteSize
      (emitLines level statements (write "\x7b\n" opened)) := by rw [emit]
  rw [← heq]
  exact lays_of_emit_eq heq ((hlines _).of_written.then_write _) (shape_block ..)

mutual

theorem lays_emit (level : Nat) : ∀ (s : StatementTree) (file : SourceFile),
    Lays file (emit level s file).1 [(emit level s file).2] [⟨level, s⟩]
  | .block statements, file => by
    rw [emit]
    exact lays_braces (lays_emitLines level statements) file
  | .expression _, file => lays_leaf (by rw [emit]) rfl rfl rfl
  | .declaration _, file => lays_leaf (by rw [emit]) rfl rfl rfl
  | .if_ condition then_ else_, file => by
    have hthen := lays_emitBody level "" then_ (write ("if (" ++ condition.text ++ ")") file)
    have helse := lays_emitBody level ("\n" ++ indentation level ++ "else") else_
      (emitBody level "" then_ (write ("if (" ++ condition.text ++ ")") file)).1
    refine lays_of_emit_eq (by rw [emit]) (hthen.of_written.trans helse) ?_
    simp only [StatementKind.shape, StatementKind.mapIds, StatementTree.shape, map_emitBody]
  | .while_ condition body, file => by
    refine lays_of_emit_eq (by rw [emit]) (lays_emitBody level "" body _).of_written ?_
    simp only [StatementKind.shape, StatementKind.mapIds, StatementTree.shape, map_emitBody]
  | .doWhile body condition, file => by
    have hbody := lays_emit (Placed.bodyLevel level body) body
      (write ("do" ++ gap level body) file)
    exact lays_of_emit_eq (emit_doWhile ..) (hbody.of_written.then_write _) rfl
  | .foreach iterator collection body, file => by
    refine lays_of_emit_eq (by rw [emit]) (lays_emitBody level "" body _).of_written ?_
    simp only [StatementKind.shape, StatementKind.mapIds, StatementTree.shape, map_emitBody]
  | .using_ declared body, file => by
    refine lays_of_emit_eq (by rw [emit]) (lays_emitBody level "" body _).of_written ?_
    simp only [StatementKind.shape, StatementKind.mapIds, StatementTree.shape, map_emitBody]
  | .return_ (some _), file => lays_leaf (by rw [emit]) rfl rfl rfl
  | .return_ none, file => lays_leaf (by rw [emit]) rfl rfl rfl
  | .break_, file => lays_leaf (by rw [emit]) rfl rfl rfl
  | .continue_, file => lays_leaf (by rw [emit]) rfl rfl rfl
  | .empty, file => lays_leaf (by rw [emit]) rfl rfl rfl
  | .try_ body catches finally_, file => by
    have hbody := lays_braces (lays_emitLines level body) (write "try " file)
    have hcatches := hbody.of_written.trans (lays_emitCatches level catches _)
    have hfinally := hcatches.trans (lays_emitFinally level finally_ _)
    refine lays_of_emit_eq (by rw [emit]) hfinally ?_
    simp only [StatementKind.shape, StatementKind.mapIds, StatementTree.shape, map_emitCatches,
      map_emitFinally, Option.map_some]
  | .raw _, file => lays_leaf (by rw [emit]) rfl rfl rfl

theorem lays_emitLines (level : Nat) : ∀ (statements : List StatementTree) (file : SourceFile),
    Lays file (emitLines level statements file).1 (emitLines level statements file).2
      (Placed.lines level statements)
  | [], file => by
    rw [emitLines]
    exact .refl file
  | s :: rest, file => by
    rw [emitLines]
    have hfirst := lays_emit (level + 1) s (write (indentation (level + 1)) file)
    exact (hfirst.of_written.then_write "\n").trans (lays_emitLines level rest _)

theorem lays_emitBody (level : Nat) (lead : String) :
    ∀ (body : Option StatementTree) (file : SourceFile),
      Lays file (emitBody level lead body file).1 (emitBody level lead body file).2.toList
        (body.toList.map (Placed.body level))
  | none, file => by
    rw [emitBody]
    exact .refl file
  | some body, file => by
    rw [emitBody_some]
    exact (lays_emit (Placed.bodyLevel level body) body _).of_written

theorem lays_emitCatches (level : Nat) :
    ∀ (catches : List (CatchClause (List StatementTree))) (file : SourceFile),
      Lays file (emitCatches level catches file).1
        ((emitCatches level catches file).2.filterMap (·.body))
        (Placed.blocks level (catches.map (·.body)))
  | [], file => by
    rw [emitCatches]
    exact .refl file
  | ⟨_, written, variable_, body⟩ :: rest, file => by
    rw [emitCatches]
    have hbody := lays_braces (lays_emitLines level body)
      (write (" catch" ++ catchHeader written variable_ ++ " ") file)
    exact hbody.of_written.trans (lays_emitCatches level rest _)

theorem lays_emitFinally (level : Nat) :
    ∀ (finally_ : Option (List StatementTree)) (file : SourceFile),
      Lays file (emitFinally level finally_ file).1 (emitFinally level finally_ file).2.toList
        (Placed.blocks level finally_.toList)
  | none, file => by
    rw [emitFinally]
    exact .refl file
  | some statements, file => by
    rw [emitFinally]
    exact (lays_braces (lays_emitLines level statements) _).of_written

end

theorem lays_emitMembers (index : Nat) (members : List (List StatementTree)) (file : SourceFile) :
    Lays file (emitMembers index members file).1 (emitMembers index members file).2
      (Placed.blocks 0 members) := by
  induction members generalizing index file with
  | nil => exact .refl file
  | cons body rest ih =>
    have hbody := fun file => lays_emit 0 (.block body) file
    exact ((hbody _).of_written.then_write "\n").trans (ih ..)

end Foresight.Layout

namespace Foresight.Outline

open SourceFile

variable (o : Outline)

/-- The members laid out, before their blocks are registered as roots. -/
def laid : SourceFile × List StatementId := Layout.emitMembers 0 o.members (.new o.path "")

theorem lays_laid : Lays (.new o.path "") o.laid.1 o.laid.2 (Placed.blocks 0 o.members) :=
  Layout.lays_emitMembers 0 o.members (.new o.path "")

theorem forest_laid : Forest o.laid.1 ∧ Loose o.laid.1 (o.laid.2 ++ []) := by
  have hgrows := o.lays_laid.grows
  have hnew := forest_new o.path ""
  rw [List.append_nil]
  exact ⟨hgrows.forest hnew, hgrows.loose hnew (loose_nil _)⟩

/-- The file of an outline is a forest. -/
theorem forest_finish : Forest o.finish := by
  obtain ⟨hforest, hloose⟩ := o.forest_laid
  exact (hforest.addRoots hloose).1

theorem finish_eq : o.finish = { o.laid.1 with roots := o.laid.2 } := by
  obtain ⟨hforest, hloose⟩ := o.forest_laid
  show o.laid.2.foldl SourceFile.addRoot o.laid.1 = _
  rw [hforest.addRoots_eq hloose, o.lays_laid.grows.roots]
  rfl

theorem rooted_finish : Rooted o.finish := by
  intro id s hs hnone
  rw [finish_eq] at hs ⊢
  exact o.lays_laid.covers id s (Nat.zero_le _) hs hnone

/-- The statements stand for the trees of the members, and the roots for their blocks. -/
theorem exists_drawn_finish : ∃ places, Drawn o.finish places ∧
    o.finish.roots.map (places[·]?) = (Placed.blocks 0 o.members).map some := by
  obtain ⟨places, hdrawn, hroots⟩ := o.lays_laid.drawn (labelled_new o.path "")
  rw [finish_eq]
  exact ⟨places, hdrawn.of_eq lasting_shows rfl ⟨"", String.append_empty.symm⟩, hroots⟩

/-- The file of an outline is a forest with exactly one path to each statement. Every statement
stands for a tree of the outline at its level, with the children that the tree has and the span that
selects its text; the roots stand for the blocks of the members, and the walk, which meets every
statement once, for the members in pre-order. -/
theorem finish_lays_out :
    Forest o.finish ∧
      (∀ id < o.finish.statementCount, ∃! path, Descent o.finish id path) ∧
      o.finish.walk.Perm (List.range o.finish.statementCount) ∧
      ∃ places, Drawn o.finish places ∧
        o.finish.roots.map (places[·]?) = (Placed.blocks 0 o.members).map some ∧
        o.finish.walk.map (places[·]?) =
          ((Placed.blocks 0 o.members).flatMap Placed.outline).map some := by
  have hforest := o.forest_finish
  refine ⟨hforest, fun id hid => hforest.existsUnique_descent o.rooted_finish hid,
    hforest.walk_perm o.rooted_finish, ?_⟩
  obtain ⟨places, hdrawn, hroots⟩ := o.exists_drawn_finish
  refine ⟨places, hdrawn, hroots, ?_⟩
  exact hdrawn.walk hforest hroots

end Foresight.Outline
