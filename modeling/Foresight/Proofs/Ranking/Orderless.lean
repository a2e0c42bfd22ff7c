import Foresight.Proofs.Ranking.Merging

/-!
# Suggestions without an order of observations

Merging goes by verdicts, and publishing shows no more of a value than its verdict and the order of
its choices. So the order in which observations were made is seen nowhere but in the order in which
a list offers its choices, and whether a placeholder is left to the user does not depend on it.
-/

namespace Foresight.Ranking

/-! ## Published values -/

/-- What is published of a list of constants. -/
def listOf (constants : String) : String := "list(\"" ++ constants ++ "\")"

theorem publishValue_of_constants {value constants : String}
    (h : constants? value = some constants) : publishValue value = listOf constants := by
  have hne : value.isEmpty = false := by
    rw [constants?_eq_some h]
    simp [constantLead, String.append_eq_empty_iff]
  rw [publishValue, hne, h]
  rfl

/-- A list of constants is never what asks the user. -/
theorem listOf_ne_completeSmart (constants : String) : listOf constants ≠ completeSmart := by
  intro h
  have hchars := congrArg String.toList h
  simp only [listOf, completeSmart, String.toList_append] at hchars
  cases hchars

/-- Two published values that say the same: they are equal, or both offer a list, with the same set
of choices. -/
def SameOffer (a b : String) : Prop :=
  a = b ∨ ∃ x y, a = listOf x ∧ b = listOf y ∧ choicesOf x = choicesOf y

theorem SameOffer.asks_iff {a b : String} (h : SameOffer a b) :
    a = completeSmart ↔ b = completeSmart := by
  rcases h with rfl | ⟨x, y, rfl, rfl, -⟩
  · rfl
  · constructor
    · intro h
      exact absurd h (listOf_ne_completeSmart x)
    · intro h
      exact absurd h (listOf_ne_completeSmart y)

/-- Values with one verdict are published as the same offer. -/
theorem sameOffer_of_verdict_eq {a b : String} (h : verdict a = verdict b) :
    SameOffer (publishValue a) (publishValue b) := by
  cases ha : constants? a with
  | none =>
    cases hb : constants? b with
    | none =>
      rw [verdict_of_plain ha, verdict_of_plain hb, Verdict.plain.injEq] at h
      exact Or.inl (congrArg publishValue h)
    | some y =>
      rw [verdict_of_plain ha, verdict_of_constants hb] at h
      cases h
  | some x =>
    cases hb : constants? b with
    | none =>
      rw [verdict_of_constants ha, verdict_of_plain hb] at h
      cases h
    | some y =>
      rw [verdict_of_constants ha, verdict_of_constants hb, Verdict.choices.injEq] at h
      exact Or.inr ⟨x, y, publishValue_of_constants ha, publishValue_of_constants hb, h⟩

/-! ## Suggestions -/

/-- Two suggestions that differ at most in the order of their fields, and in the order in which a
list offers its choices. -/
structure Alike (s t : Suggestion) : Prop where
  key : s.key = t.key
  template : s.template = t.template
  count : s.count = t.count
  percentage : s.percentage = t.percentage
  /-- The same placeholders, each with the same offer. -/
  offers : ∀ name, Option.Rel SameOffer (s.fields.get? name) (t.fields.get? name)
  /-- The same placeholders are left to the user. -/
  asks : ∀ name, s.fields.get? name = some completeSmart ↔ t.fields.get? name = some completeSmart

theorem asks_iff_of_rel {a b : Option String} (h : Option.Rel SameOffer a b) :
    a = some completeSmart ↔ b = some completeSmart := by
  cases h with
  | none => rfl
  | some h => simpa only [Option.some.injEq] using h.asks_iff

variable {observations other : List Observation}

theorem rel_offers_entry (h : observations.Perm other) (key template name : String) :
    Option.Rel SameOffer ((entry observations key template).fields.get? name)
      ((entry other key template).fields.get? name) := by
  have hverdict := verdictOn_mergedFields_perm (sightings_perm h key template) name
  unfold verdictOn at hverdict
  rw [get?_fields_entry, get?_fields_entry]
  cases ha : (mergedFields (sightings observations key template)).get? name with
  | none =>
    cases hb : (mergedFields (sightings other key template)).get? name with
    | none => exact .none
    | some b =>
      rw [ha, hb] at hverdict
      cases hverdict
  | some a =>
    cases hb : (mergedFields (sightings other key template)).get? name with
    | none =>
      rw [ha, hb] at hverdict
      cases hverdict
    | some b =>
      rw [ha, hb] at hverdict
      exact .some (sameOffer_of_verdict_eq (Option.some.inj hverdict))

theorem alike_entry (h : observations.Perm other) (key template : String) :
    Alike (entry observations key template) (entry other key template) where
  key := rfl
  template := rfl
  count := count_entry_perm h key template
  percentage := percentage_entry_perm h key template
  offers name := rel_offers_entry h key template name
  asks name := asks_iff_of_rel (rel_offers_entry h key template name)

/-- Whatever the values of its placeholders are, a suggestion does not depend on the order of the
observations, and neither does its place among the others. -/
theorem aggregate_ignores_order (observations other : List Observation)
    (h : observations.Perm other) (thresholds : Thresholds) :
    List.Forall₂ Alike (aggregate observations thresholds) (aggregate other thresholds) :=
  forall₂_aggregate h (alike_entry h) thresholds

/-- Observations of one template whose fields disagree in every way that merging knows. -/
def disagreeing : List Observation :=
  [⟨"k", "a.cs", "f($x$, $y$)", .ofList [("x", "c:1"), ("y", "c:u")]⟩,
    ⟨"k", "b.cs", "f($x$, $y$)", .ofList [("y", "u"), ("x", "c:2,3")]⟩,
    ⟨"k", "c.cs", "f($x$, $y$)", .ofList [("x", "c:3"), ("z", "")]⟩]

theorem aggregate_ignores_order_disagreeing :
    disagreeing.Perm disagreeing.reverse ∧
      List.Forall₂ Alike (aggregate disagreeing ⟨3, 1, 50⟩)
        (aggregate disagreeing.reverse ⟨3, 1, 50⟩) :=
  have h : disagreeing.Perm disagreeing.reverse := by decide
  ⟨h, aggregate_ignores_order _ _ h _⟩

end Foresight.Ranking
