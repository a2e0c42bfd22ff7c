import Foresight.Code.Layout
import Foresight.Proofs.Code.Forest

/-!
# Statement trees at their places

What is written for a statement depends on the tree and on how deep it is nested, and on nothing
that was written before (`text_emit`). So a tree is looked at together with its nesting level, as
`Placed`: its `text` is what laying it out alone, at that level, writes, its `parts` are the trees
right below it at the levels at which they are laid out, and its `outline` is all of them in
pre-order.
-/

namespace Foresight

/-- A statement tree at a nesting level. -/
structure Placed where
  level : Nat
  tree : StatementTree

namespace Placed

/-- What laying out the tree alone, at its level, writes. -/
def text (p : Placed) : String := (Layout.emit p.level p.tree (.new "" "")).1.text

/-- How deep the body of a statement stands: a block stays at the level of the statement, any other
body goes one further in. -/
def bodyLevel (level : Nat) : StatementTree → Nat
  | .block _ => level
  | _ => level + 1

def body (level : Nat) (s : StatementTree) : Placed := ⟨bodyLevel level s, s⟩

/-- The statements of a block. -/
def lines (level : Nat) (statements : List StatementTree) : List Placed :=
  statements.map (⟨level + 1, ·⟩)

/-- The blocks of the clauses of a `try`. -/
def blocks (level : Nat) (bodies : List (List StatementTree)) : List Placed :=
  bodies.map fun statements => ⟨level, .block statements⟩

/-- The trees right below a tree, in source order. -/
def parts : Placed → List Placed
  | ⟨level, .block statements⟩ => lines level statements
  | ⟨level, .if_ _ then_ else_⟩ =>
    then_.toList.map (body level) ++ else_.toList.map (body level)
  | ⟨level, .while_ _ b⟩ | ⟨level, .foreach _ _ b⟩ | ⟨level, .using_ _ b⟩ =>
    b.toList.map (body level)
  | ⟨level, .doWhile b _⟩ => [body level b]
  | ⟨level, .try_ b catches finally_⟩ =>
    ⟨level, .block b⟩ :: blocks level (catches.map (·.body)) ++ blocks level finally_.toList
  | _ => []

/-- What is right below a tree is smaller. -/
theorem sizeOf_lt_of_mem_parts {p part : Placed} (h : part ∈ p.parts) :
    sizeOf part.tree < sizeOf p.tree := by
  obtain ⟨level, tree⟩ := p
  have hoption : ∀ {o : Option StatementTree}, part ∈ o.toList.map (body level) →
      sizeOf part.tree < sizeOf o := fun {o} h => by
    obtain ⟨s, hs, rfl⟩ := List.mem_map.mp h
    obtain rfl := Option.mem_toList.mp hs
    simp only [body, Option.some.sizeOf_spec]
    omega
  cases tree with
  | block statements =>
    obtain ⟨s, hs, rfl⟩ := List.mem_map.mp h
    have := List.sizeOf_lt_of_mem hs
    simp only [StatementTree.block.sizeOf_spec]
    omega
  | if_ condition then_ else_ =>
    simp only [StatementTree.if_.sizeOf_spec]
    rcases List.mem_append.mp h with h | h
    · have := hoption h
      omega
    · have := hoption h
      omega
  | while_ condition b | foreach _ _ b | using_ _ b =>
    have := hoption h
    simp only [StatementTree.while_.sizeOf_spec, StatementTree.foreach.sizeOf_spec,
      StatementTree.using_.sizeOf_spec]
    omega
  | doWhile b condition =>
    obtain rfl := List.mem_singleton.mp h
    simp only [body, StatementTree.doWhile.sizeOf_spec]
    omega
  | try_ b catches finally_ =>
    rcases List.mem_append.mp h with h | h
    · rcases List.mem_cons.mp h with rfl | h
      · have hpos : 0 < sizeOf finally_ := by
          cases finally_ with
          | none => rw [Option.none.sizeOf_spec]; exact Nat.one_pos
          | some => rw [Option.some.sizeOf_spec]; omega
        simp only [StatementTree.block.sizeOf_spec, StatementTree.try_.sizeOf_spec]
        omega
      · obtain ⟨statements, hs, rfl⟩ := List.mem_map.mp h
        obtain ⟨⟨type, written, variable_, statements⟩, hc, rfl⟩ := List.mem_map.mp hs
        have := List.sizeOf_lt_of_mem hc
        simp only [CatchClause.mk.sizeOf_spec] at this
        simp only [StatementTree.block.sizeOf_spec, StatementTree.try_.sizeOf_spec]
        omega
    · obtain ⟨statements, hs, rfl⟩ := List.mem_map.mp h
      obtain rfl := Option.mem_toList.mp hs
      simp only [StatementTree.block.sizeOf_spec, StatementTree.try_.sizeOf_spec,
        Option.some.sizeOf_spec]
      omega
  | _ => cases h

/-- A tree and everything below it, in pre-order. -/
def outline (p : Placed) : List Placed :=
  p :: p.parts.attach.flatMap fun ⟨part, _⟩ => outline part
  termination_by sizeOf p.tree
  decreasing_by
    rename_i h
    exact sizeOf_lt_of_mem_parts h

theorem outline_eq (p : Placed) : p.outline = p :: p.parts.flatMap outline := by
  rw [outline]
  congr 1
  rw [← List.flatMap_map Subtype.val outline, List.attach_map_subtype_val]

end Placed

namespace Layout

open SourceFile

/-! ## Bodies

The layout tells a block from any other body where the body begins. Behind its lead, both are laid
out by the same function. -/

/-- What stands between a lead and the body behind it. -/
def gap (level : Nat) : StatementTree → String
  | .block _ => " "
  | _ => "\n" ++ indentation (level + 1)

theorem emitBody_some (level : Nat) (lead : String) (body : StatementTree) (file : SourceFile) :
    emitBody level lead (some body) file = Prod.map id some
      (emit (Placed.bodyLevel level body) body (write (lead ++ gap level body) file)) := by
  cases body with
  | block statements => rfl
  | _ =>
    rw [Placed.bodyLevel, gap, ← String.append_assoc]
    · rfl
    all_goals nofun

theorem emit_doWhile (level : Nat) (body : StatementTree) (condition : Expression)
    (file : SourceFile) :
    emit level (.doWhile body condition) file =
      let inner := emit (Placed.bodyLevel level body) body (write ("do" ++ gap level body) file)
      close (.doWhile (some inner.2) condition) file.text.utf8ByteSize
        (write (" while (" ++ condition.text ++ ");") inner.1) := by
  cases body with
  | block statements => rfl
  | _ =>
    rw [Placed.bodyLevel, gap, ← String.append_assoc]
    · rfl
    all_goals nofun

/-! ## What is written does not depend on what was written before -/

theorem text_write (text : String) (file : SourceFile) :
    (write text file).text = file.text ++ text := rfl

theorem text_close (kind : StatementKind) (start : Nat) (file : SourceFile) :
    (close kind start file).1.text = file.text :=
  text_adoptAll ..

/-- Everything that a step of the layout does to the text is to write `written` behind it. -/
def Writes {α : Type} (step : SourceFile → SourceFile × α) (written : String) : Prop :=
  ∀ file, (step file).1.text = file.text ++ written

theorem text_closeBlock {level : Nat} {statements : List StatementTree} {written : String}
    (h : Writes (emitLines level statements) written) (file : SourceFile) (start : Nat) :
    (closeBlock level start (emitLines level statements (write "\x7b\n" file))).1.text =
      file.text ++ ("\x7b\n" ++ written ++ (indentation level ++ "\x7d")) := by
  simp only [closeBlock, text_close, text_write, h _, String.append_assoc]

mutual

theorem exists_writes_emit (level : Nat) :
    ∀ s : StatementTree, ∃ written, Writes (emit level s) written
  | .block statements => by
    obtain ⟨lines, hlines⟩ := exists_writes_emitLines level statements
    exact ⟨_, fun file => by rw [emit, text_closeBlock hlines]⟩
  | .expression _ | .declaration _ | .return_ (some _) | .return_ none | .break_ | .continue_
  | .empty | .raw _ => ⟨_, fun file => by rw [emit, text_close, text_write]⟩
  | .if_ condition then_ else_ => by
    obtain ⟨first, hfirst⟩ := exists_writes_emitBody level "" then_
    obtain ⟨second, hsecond⟩ :=
      exists_writes_emitBody level ("\n" ++ indentation level ++ "else") else_
    exact ⟨"if (" ++ condition.text ++ ")" ++ first ++ second, fun file => by
      simp only [emit, text_close, hsecond _, hfirst _, text_write]
      simp only [String.append_assoc]⟩
  | .while_ condition body => by
    obtain ⟨inner, hinner⟩ := exists_writes_emitBody level "" body
    exact ⟨"while (" ++ condition.text ++ ")" ++ inner, fun file => by
      simp only [emit, text_close, text_write, hinner _, String.append_assoc]⟩
  | .doWhile body condition => by
    obtain ⟨inner, hinner⟩ := exists_writes_emit (Placed.bodyLevel level body) body
    exact ⟨"do" ++ gap level body ++ inner ++ (" while (" ++ condition.text ++ ");"), fun file => by
      simp only [emit_doWhile, text_close, text_write, hinner _, String.append_assoc]⟩
  | .foreach iterator collection body => by
    obtain ⟨inner, hinner⟩ := exists_writes_emitBody level "" body
    exact ⟨_, fun file => by
      rw [emit, text_close, hinner, text_write, String.append_assoc]⟩
  | .using_ declared body => by
    obtain ⟨inner, hinner⟩ := exists_writes_emitBody level "" body
    exact ⟨"using (" ++ declarationText declared ++ ")" ++ inner, fun file => by
      simp only [emit, text_close, text_write, hinner _, String.append_assoc]⟩
  | .try_ body catches finally_ => by
    obtain ⟨lines, hlines⟩ := exists_writes_emitLines level body
    obtain ⟨second, hsecond⟩ := exists_writes_emitCatches level catches
    obtain ⟨third, hthird⟩ := exists_writes_emitFinally level finally_
    exact ⟨_, fun file => by
      rw [emit, text_close, hthird, hsecond, text_closeBlock hlines, text_write,
        String.append_assoc, String.append_assoc, String.append_assoc]⟩

theorem exists_writes_emitLines (level : Nat) :
    ∀ statements : List StatementTree, ∃ written, Writes (emitLines level statements) written
  | [] => ⟨"", fun file => by rw [emitLines, String.append_empty]⟩
  | s :: rest => by
    obtain ⟨first, hfirst⟩ := exists_writes_emit (level + 1) s
    obtain ⟨more, hmore⟩ := exists_writes_emitLines level rest
    exact ⟨indentation (level + 1) ++ first ++ "\n" ++ more, fun file => by
      simp only [emitLines, text_write, hfirst _, hmore _, String.append_assoc]⟩

theorem exists_writes_emitBody (level : Nat) (lead : String) :
    ∀ body : Option StatementTree, ∃ written, Writes (emitBody level lead body) written
  | none => ⟨"", fun file => by rw [emitBody, String.append_empty]⟩
  | some body => by
    obtain ⟨inner, hinner⟩ := exists_writes_emit (Placed.bodyLevel level body) body
    exact ⟨_, fun file => by
      rw [emitBody_some, Prod.map_fst, id_eq, hinner, text_write, String.append_assoc]⟩

theorem exists_writes_emitCatches (level : Nat) :
    ∀ catches : List (CatchClause (List StatementTree)),
      ∃ written, Writes (emitCatches level catches) written
  | [] => ⟨"", fun file => by rw [emitCatches, String.append_empty]⟩
  | ⟨_, written, variable_, body⟩ :: rest => by
    obtain ⟨lines, hlines⟩ := exists_writes_emitLines level body
    obtain ⟨more, hmore⟩ := exists_writes_emitCatches level rest
    exact ⟨_, fun file => by
      rw [emitCatches, hmore, text_closeBlock hlines, text_write, String.append_assoc,
        String.append_assoc]⟩

theorem exists_writes_emitFinally (level : Nat) :
    ∀ finally_ : Option (List StatementTree),
      ∃ written, Writes (emitFinally level finally_) written
  | none => ⟨"", fun file => by rw [emitFinally, String.append_empty]⟩
  | some statements => by
    obtain ⟨lines, hlines⟩ := exists_writes_emitLines level statements
    exact ⟨_, fun file => by
      rw [emitFinally, text_closeBlock hlines, text_write, String.append_assoc]⟩

end

/-- What is written for a tree is the text of the tree at its level. -/
theorem text_emit (level : Nat) (s : StatementTree) (file : SourceFile) :
    (emit level s file).1.text = file.text ++ (Placed.mk level s).text := by
  obtain ⟨written, hwritten⟩ := exists_writes_emit level s
  have halone : (Placed.mk level s).text = written :=
    (hwritten (.new "" "")).trans String.empty_append
  rw [hwritten, halone]

example : (Placed.mk 1 (.while_ (.raw "x") (some .break_))).text = "while (x)\n        break;" := by
  decide

end Layout

end Foresight
