import Foresight.Code.SourceFile

/-!
# Bodies for insertion

Inserting into a loop or a guard needs a block as its body. `ensureBody` makes sure that there is
one: an empty body is replaced by a block, an embedded statement is wrapped into one. It is the only
change that a source file ever sees, and it touches links only: no text, no span and no statement
outside the body slot and its parent links.
-/

namespace Foresight.SourceFile

/-- What the body slot of a statement asks for. -/
inductive BodyNeed where
  /-- There is a block; insertions go to this point. -/
  | ready (point : InsertionPoint)
  /-- A block has to be made by this edit, around this statement if there is one. -/
  | missing (edit : InsertionEdit) (wrapped : Option StatementId)

/-- The need of an owner that ends at `ownerEnd`, with this content of its body slot. An id that
names nothing has no answer. -/
def bodyNeed? (file : SourceFile) (ownerEnd : Nat) : Option StatementId → Option BodyNeed
  | none => some (.missing (.synthesizeBlock (.point ownerEnd)) none)
  | some body => do
    let s ← file.get? body
    match s.kind, s.synthesized with
    | .block _, some edit => some (.ready (.ofEdit edit))
    | .block _, none => some (.ready (.direct (s.span.start + 1)))
    | .empty, _ => some (.missing (.synthesizeBlock s.span) none)
    | _, _ => some (.missing (.wrapInBlock s.span) (some body))

/-- The span of a block that an edit makes. -/
def blockSpan : InsertionEdit → Span
  | .wrapInBlock wrapped => wrapped
  | .synthesizeBlock replaced => .point replaced.start
  | .insert => .point 0

/-- Puts a new block into the body slot of `owner`, in the place of `old`. -/
def installBlock (file : SourceFile) (owner : StatementId) (old : Option StatementId)
    (edit : InsertionEdit) (wrapped : Option StatementId) : SourceFile :=
  let freed := match old with
    | some body => file.adopt none body
    | none => file
  let (pushed, block) := freed.push (.block wrapped.toList) (blockSpan edit)
  let marked := pushed.modify block fun s =>
    { s with synthesized := some edit, parent := some owner }
  marked.modify owner fun s => { s with kind := s.kind.withBody block }

/-- Makes sure that the body of `owner` is a block, and gives the point just inside it. -/
def ensureBody (file : SourceFile) (owner : StatementId) : SourceFile × Option InsertionPoint :=
  match file.get? owner with
  | none => (file, none)
  | some s =>
    match s.kind.bodySlot? with
    | none => (file, none)
    | some body =>
      match file.bodyNeed? s.span.stop body with
      | none => (file, none)
      | some (.ready point) => (file, some point)
      | some (.missing edit wrapped) =>
        (file.installBlock owner body edit wrapped, some (.ofEdit edit))

end Foresight.SourceFile
