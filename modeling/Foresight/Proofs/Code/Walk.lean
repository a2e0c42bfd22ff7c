import Mathlib.Logic.Function.Iterate
import Foresight.Proofs.Code.Embodied
import Foresight.Proofs.Code.Lookups

/-!
# The walk as a loop

A walk can be done with a stack: the next statement is taken off, it is listed, and its children are
put on (`visit`). Nothing remembers what was listed before, so the loop ends only because no chain
of children returns to where it began, and a statement that several others list is listed several
times.

That there is no such chain is true of every file that is put together from an empty one
(`Assembled`), although the numbers of the statements do not show it: a statement is pushed over
older ones, but a block that is made for the body of an older statement is younger than its owner.
What shows it is the rank of `Grounded`, which every way of changing a file keeps. With it, the loop
takes one step for each statement of `walk` and ends with that list (`iterate_visit`).
-/

namespace Foresight.SourceFile

variable {file : SourceFile}

/-! ## Files put together -/

/-- A file that was begun empty. Statements are pushed over statements that are there, which may
have been listed before; any id may be given to be registered or to have its body made sure of. -/
inductive Assembled : SourceFile → Prop where
  | new (path text : String) : Assembled (.new path text)
  | push {file : SourceFile} (kind : StatementKind) (span : Span) :
      Assembled file → (∀ c ∈ kind.childIds, c < file.statementCount) →
      Assembled (file.push kind span).1
  | addRoot {file : SourceFile} (id : StatementId) : Assembled file → Assembled (file.addRoot id)
  | ensureBody {file : SourceFile} (owner : StatementId) :
      Assembled file → Assembled (file.ensureBody owner).1

theorem Assembled.grounded (h : Assembled file) : Grounded file := by
  induction h with
  | new path text => exact grounded_new path text
  | push kind span _ hchildren ih => exact ih.push span hchildren
  | addRoot id _ ih => exact ih.addRoot id
  | ensureBody owner _ ih => exact ih.ensureBody owner

/-! ## The loop -/

/-- A walk on its way: the statements that wait, the next one first, and those listed so far. -/
structure Walking where
  waiting : List StatementId
  listed : List StatementId
  deriving DecidableEq

/-- Lists the next statement, and puts its children before those that wait. An id that names nothing
is passed over; a walk at its end stays there. -/
def visit (file : SourceFile) : Walking → Walking
  | ⟨[], listed⟩ => ⟨[], listed⟩
  | ⟨id :: rest, listed⟩ =>
    match file.get? id with
    | some s => ⟨s.kind.childIds ++ rest, listed ++ [id]⟩
    | none => ⟨rest, listed⟩

theorem visit_of_get? {id : StatementId} {s : Statement} (hs : file.get? id = some s)
    (rest listed : List StatementId) :
    file.visit ⟨id :: rest, listed⟩ = ⟨s.kind.childIds ++ rest, listed ++ [id]⟩ := by
  simp only [visit, hs]

/-- The loop lists what is below some statements, in one step for each, and goes on with those that
wait behind them. -/
theorem Grounded.iterate_visit (hg : Grounded file) {rank : StatementId → Nat}
    (hrank : ∀ {id s c}, file.get? id = some s → c ∈ s.kind.childIds → rank c < rank id)
    {bound : Nat} {ids : List StatementId}
    (hids : ∀ id ∈ ids, id < file.statementCount ∧ rank id < bound)
    (rest listed : List StatementId) :
    file.visit^[(ids.flatMap (file.preorder bound)).length] ⟨ids ++ rest, listed⟩ =
      ⟨rest, listed ++ ids.flatMap (file.preorder bound)⟩ := by
  induction bound generalizing ids rest listed with
  | zero =>
    cases ids with
    | nil => simp
    | cons id _ => exact absurd (hids id List.mem_cons_self).2 (Nat.not_lt_zero _)
  | succ bound below =>
    induction ids generalizing listed with
    | nil => simp
    | cons id ids along =>
      obtain ⟨hid, hids⟩ := List.forall_mem_cons.mp hids
      obtain ⟨s, hs⟩ := file.exists_get? hid.1
      have hchildren : ∀ c ∈ s.kind.childIds, c < file.statementCount ∧ rank c < bound :=
        fun c hc => ⟨hg.child_lt hs hc, Nat.lt_of_lt_of_le (hrank hs hc) (Nat.le_of_lt_succ hid.2)⟩
      have hfirst : file.preorder (bound + 1) id =
          id :: s.kind.childIds.flatMap (file.preorder bound) := by
        rw [preorder, hs]
      have hbelow := below hchildren (ids ++ rest) (listed ++ [id])
      have hlength : ((id :: ids).flatMap (file.preorder (bound + 1))).length =
          (ids.flatMap (file.preorder (bound + 1))).length +
            ((s.kind.childIds.flatMap (file.preorder bound)).length + 1) := by
        rw [List.flatMap_cons, List.length_append, hfirst, List.length_cons, Nat.add_comm]
      rw [hlength, Function.iterate_add_apply, Function.iterate_succ_apply, List.cons_append,
        visit_of_get? hs, hbelow, along hids, List.flatMap_cons, hfirst]
      simp only [List.append_assoc, List.cons_append, List.nil_append]

/-! ## The walk of a file that was put together -/

/-- The loop over the roots ends: it takes a step for each statement that it lists, and lists those
of the walk. These are the statements that can be reached from the roots, and each of them stands
behind one that lists it, unless it is a root. -/
theorem walk_ends (h : Assembled file) :
    file.visit^[file.walk.length] ⟨file.roots, []⟩ = ⟨[], file.walk⟩ ∧
      (∀ id, id ∈ file.walk ↔ ∃ path, Descent file id path) ∧
      ∀ before id after, file.walk = before ++ id :: after →
        id ∈ file.roots ∨ ∃ parent ∈ before, file.Lists parent id := by
  have hg := h.grounded
  refine ⟨?_, fun id => ⟨exists_descent_of_mem_walk, fun ⟨path, hpath⟩ => ?_⟩,
    fun before id after hwalk => exists_lists_of_walk hwalk⟩
  · obtain ⟨rank, hbound, hrank⟩ := hg.ranked
    have hroots : ∀ id ∈ file.roots, id < file.statementCount ∧ rank id < file.statementCount :=
      fun id hid => ⟨hg.root_lt hid, hbound id (hg.root_lt hid)⟩
    have hloop := hg.iterate_visit hrank hroots [] []
    rwa [List.append_nil, List.nil_append] at hloop
  · exact hg.mem_walk_of_descent hpath

/-- One `break` in a loop and in a guard around both, each of which had a body made around it. The
guard and the loop are registered, and so is an id that names nothing. -/
def sharedFile : SourceFile :=
  let leaf := ((new "A.cs" "if (b) break;").push .break_ ⟨7, 13⟩).1
  let loop := (leaf.push (.while_ (.raw "a") (some 0)) ⟨0, 13⟩).1
  let guard := (loop.push (.if_ (.raw "b") (some 0) (some 1)) ⟨0, 13⟩).1
  let registered := ((guard.addRoot 2).addRoot 9).addRoot 1
  ((registered.ensureBody 1).1.ensureBody 2).1

theorem walk_ends_shared :
    Assembled sharedFile ∧
      sharedFile.visit^[9] ⟨[2, 1], []⟩ = ⟨[], [2, 4, 0, 1, 3, 0, 1, 3, 0]⟩ ∧
      (∃ path, Descent sharedFile 4 path) ∧ sharedFile.Lists 2 4 := by
  have hassembled : Assembled sharedFile := by
    have hguard : Assembled _ := (((Assembled.new "A.cs" "if (b) break;").push .break_ ⟨7, 13⟩
      (by decide)).push (.while_ (.raw "a") (some 0)) ⟨0, 13⟩ (by decide)).push
        (.if_ (.raw "b") (some 0) (some 1)) ⟨0, 13⟩ (by decide)
    exact ((((hguard.addRoot 2).addRoot 9).addRoot 1).ensureBody 1).ensureBody 2
  have hroots : sharedFile.roots = [2, 1] := by decide
  have hwalk : sharedFile.walk = [2, 4, 0, 1, 3, 0, 1, 3, 0] := by decide
  obtain ⟨hends, hreached, hbehind⟩ := walk_ends hassembled
  rw [hwalk, hroots] at hends
  refine ⟨hassembled, hends, (hreached 4).mp (by rw [hwalk]; decide), ?_⟩
  rcases hbehind [2] 4 [0, 1, 3, 0, 1, 3, 0] hwalk with hroot | ⟨parent, hparent, hlists⟩
  · rw [hroots] at hroot
    exact absurd hroot (by decide)
  · rwa [List.mem_singleton.mp hparent] at hlists

end Foresight.SourceFile
