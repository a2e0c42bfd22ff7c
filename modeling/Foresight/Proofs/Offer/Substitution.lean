import Foresight.Offer.Invocation
import Foresight.Proofs.Table
import Foresight.Proofs.Template.Chain

/-!
# Substituting parameters

Parameters are substituted one after the other, each in the text that those before have left. On a
chain whose placeholders are kept apart by characters that no parameter has in its name, each step
fills one placeholder (`Chain.fillAll`), and what was filled in never makes an occurrence of
another (`foldl_replace_write`). Placeholders that may touch do no harm if the first parameter is
theirs (`substituteParameters_write`).

To fill placeholders one after the other is to write their values all at once (`write_fillAll`), so
that the order of the parameters does not show.
-/

namespace Foresight

open Template

namespace Template.Chain

/-- Fills placeholders, one name after the other. -/
def fillAll (values : List (String × String)) (c : Chain) : Chain :=
  values.foldl (fun c value => c.fill value.1 value.2) c

variable {sep : Char → Prop} {free : String → Prop} {c : Chain} {values : List (String × String)}

theorem names_fillAll (values : List (String × String)) (c : Chain) :
    (c.fillAll values).names = c.names.filter (· ∉ values.map Prod.fst) := by
  induction values generalizing c with
  | nil => exact (List.filter_eq_self.mpr fun _ _ => rfl).symm
  | cons value rest ih =>
    rw [fillAll, List.foldl_cons, ← fillAll, ih, names_fill, List.filter_filter]
    refine List.filter_congr fun name _ => ?_
    rw [List.map_cons, ← Bool.decide_and, decide_eq_decide, List.mem_cons, not_or, and_comm]

theorem IsClear.fillAll (h : c.IsClear) (hvalues : ∀ value ∈ values, Clear value.2) :
    (c.fillAll values).IsClear := by
  induction values generalizing c with
  | nil => exact h
  | cons value rest ih =>
    obtain ⟨hvalue, hrest⟩ := List.forall_mem_cons.mp hvalues
    exact ih (h.fill value.1 hvalue) hrest

/-- A value that can be substituted: its name and itself are without marks, and the name has no
character that keeps placeholders apart. -/
structure Fills (sep : Char → Prop) (value : String × String) : Prop where
  name : Clear value.1
  apart : ¬ Parts sep value.1
  value : Clear value.2

/-- Where no placeholders may touch, each value fills its placeholder, whatever was filled
before. -/
theorem foldl_replace_write (hclear : c.IsClear) (hspaced : c.Spaced sep fun _ => False)
    (hvalues : ∀ value ∈ values, Fills sep value) :
    values.foldl (fun text (name, value) => Text.replace (placeholder name) value text) c.write =
        (c.fillAll values).write ∧
      (c.fillAll values).Spaced sep fun _ => False := by
  induction values generalizing c with
  | nil => exact ⟨rfl, hspaced⟩
  | cons value rest ih =>
    obtain ⟨name, value⟩ := value
    obtain ⟨hvalue, hrest⟩ := List.forall_mem_cons.mp hvalues
    have hnone : ∀ other, False → other = name := fun _ h => h.elim
    have hstep := replace_write hnone hclear hspaced hvalue.name hvalue.apart value
    dsimp only [List.foldl_cons]
    rw [hstep]
    exact ih (hclear.fill name hvalue.value) (spaced_fill hnone hspaced value) hrest

end Template.Chain

open Chain

/-- Substituting parameters fills their placeholders, and changes nothing else. -/
theorem substituteParameters_write {sep : Char → Prop} {free : String → Prop} {c : Chain}
    {parameters : Fields} (hclear : c.IsClear) (hspaced : c.Spaced sep free)
    (hvalues : ∀ value ∈ parameters.entries, Fills sep value)
    (hfirst : ∀ name, free name → parameters.names.head? = some name) :
    substituteParameters c.write parameters = (c.fillAll parameters.entries).write ∧
      (c.fillAll parameters.entries).Spaced sep fun _ => False := by
  unfold substituteParameters
  rw [Table.names] at hfirst
  generalize parameters.entries = values at hvalues hfirst ⊢
  cases values with
  | nil =>
    exact ⟨rfl, hspaced.mono fun name hname => Option.some_ne_none name (hfirst name hname).symm⟩
  | cons value rest =>
    obtain ⟨name, value⟩ := value
    obtain ⟨hvalue, hrest⟩ := List.forall_mem_cons.mp hvalues
    have hname : ∀ other, free other → other = name := fun other hother =>
      (Option.some.inj (hfirst other hother)).symm
    have hstep := replace_write hname hclear hspaced hvalue.name hvalue.apart value
    dsimp only [List.foldl_cons]
    rw [hstep]
    exact foldl_replace_write (hclear.fill name hvalue.value)
      (spaced_fill hname hspaced value) hrest

/-! ## All placeholders at once -/

namespace Template.Chain

/-- Writes values in the places of their placeholders, all at the same time. A placeholder without a
value stays. -/
def writeWith (value? : String → Option String) : Chain → String
  | last text => text
  | hole before name rest =>
    before ++ (value? name).getD (placeholder name) ++ rest.writeWith value?

variable (value? : String → Option String)

theorem writeWith_none (c : Chain) : c.writeWith (fun _ => none) = c.write := by
  induction c with
  | last text => rfl
  | hole before name rest ih => rw [writeWith, write, ih, Option.getD_none]

theorem writeWith_prepend (text : String) (c : Chain) :
    (c.prepend text).writeWith value? = text ++ c.writeWith value? := by
  cases c with
  | last more => rfl
  | hole before name rest => simp only [prepend, writeWith, String.append_assoc]

/-- What is filled in first is written in any case, and is not looked at again. -/
theorem writeWith_fill (name value : String) (c : Chain) :
    (c.fill name value).writeWith value? =
      c.writeWith fun other => if other = name then some value else value? other := by
  induction c with
  | last text => rfl
  | hole before other rest ih =>
    unfold fill
    split
    · rename_i heq
      rw [writeWith_prepend, ih, writeWith, if_pos heq, Option.getD_some]
    · rename_i hne
      rw [writeWith, ih, writeWith, if_neg hne]

theorem write_fillAll (values : List (String × String)) (c : Chain) :
    (c.fillAll values).write = c.writeWith fun name => values.lookup name := by
  suffices h : ∀ value?, (c.fillAll values).writeWith value? =
      c.writeWith fun name => (values.lookup name).or (value? name) by
    simpa [writeWith_none] using h fun _ => none
  intro value?
  induction values generalizing c with
  | nil => rfl
  | cons value rest ih =>
    rw [fillAll, List.foldl_cons, ← fillAll, ih, writeWith_fill]
    refine congrArg c.writeWith (funext fun name => ?_)
    split
    · rename_i heq
      rw [List.lookup_cons, heq, beq_self_eq_true, Option.some_or]
    · rename_i hne
      rw [List.lookup_cons, beq_false_of_ne hne]

end Template.Chain

/-- Where every two placeholders have a character between them that no parameter has in its name,
the placeholders of all parameters are replaced at once, and the order of the parameters is of no
account. -/
theorem substituteParameters_simultaneous {c : Chain} {parameters : Fields} (hclear : c.IsClear)
    (hspaced : c.Spaced (fun x => ∀ name ∈ parameters.names, x ∉ name.toList) fun _ => False)
    (hparameters : parameters.All fun name value => Clear name ∧ Clear value) :
    substituteParameters c.write parameters = c.writeWith parameters.get? ∧
      ∀ reordered : Fields, reordered.entries.Perm parameters.entries →
        substituteParameters c.write reordered = substituteParameters c.write parameters := by
  have hwritten : ∀ reordered : Fields, reordered.entries.Perm parameters.entries →
      substituteParameters c.write reordered = c.writeWith reordered.get? := by
    intro reordered hperm
    have hvalues : ∀ entry ∈ reordered.entries,
        Fills (fun x => ∀ name ∈ parameters.names, x ∉ name.toList) entry := by
      intro entry hentry
      obtain ⟨hname, hvalue⟩ := hparameters entry (hperm.mem_iff.mp hentry)
      have hmem : entry.1 ∈ parameters.names := List.mem_map_of_mem (hperm.mem_iff.mp hentry)
      exact ⟨hname, fun ⟨x, hx, hapart⟩ => hapart entry.1 hmem hx, hvalue⟩
    exact (foldl_replace_write hclear hspaced hvalues).1.trans (write_fillAll _ c)
  refine ⟨hwritten parameters (.refl _), fun reordered hperm => ?_⟩
  have hget : reordered.get? = parameters.get? := by
    funext name
    refine Option.ext fun value => ?_
    rw [Table.get?_eq_some_iff, Table.get?_eq_some_iff, hperm.mem_iff]
  rw [hwritten reordered hperm, hwritten parameters (.refl _), hget]

/-- Two values that are spelled like each other's name change places, in either order. -/
theorem substituteParameters_exchanged :
    let assigned : Chain :=
      .hole "" "VariableName" (.hole " = " "Value" (.hole ".Of(" "Type" (.last ");")))
    let exchange : Fields := .ofList [("VariableName", "Value"), ("Value", "VariableName")]
    substituteParameters assigned.write exchange = "Value = VariableName.Of($Type$);" ∧
      ∀ reordered : Fields, reordered.entries.Perm exchange.entries →
        substituteParameters assigned.write reordered =
          substituteParameters assigned.write exchange :=
  substituteParameters_simultaneous
    ⟨by decide, by decide, by decide, by decide, by decide, by decide, (by decide : Clear ");")⟩
    ⟨Or.inl ⟨'=', by decide, by decide⟩, Or.inl ⟨'(', by decide, by decide⟩, trivial, trivial⟩
    (by decide)

end Foresight
