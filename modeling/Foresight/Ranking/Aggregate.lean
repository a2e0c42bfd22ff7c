import Foresight.Observation
import Foresight.Ranking.Merge
import Foresight.Ranking.Thresholds

/-!
# From observations to suggestions

Observations are grouped by key and then by template, both in ascending order. Each group is a
tally: the number of its observations and their merged fields. The tallies of a key that pass the
thresholds are ranked by count, and the best of them are published. Sorting is stable throughout:
the fields of a tally are merged in the order of observation, and tallies of equal count keep the
order of their templates.
-/

namespace Foresight

/-- What a long pass reports that it is at: a task, or a detail within the task. The reports of a
pass are a list, in the order in which they were made. -/
inductive Progress where
  | task (name : String)
  | text (detail : String)
  deriving DecidableEq, Inhabited

namespace Ranking

/-- The maximal runs of neighbours with the same label. -/
def runsBy {α : Type} (label : α → String) : List α → List (List α)
  | [] => []
  | a :: rest =>
    match runsBy label rest with
    | [] => [[a]]
    | [] :: more => [a] :: more
    | (b :: run) :: more =>
      if label a = label b then (a :: b :: run) :: more else [a] :: (b :: run) :: more

/-- Stable order by a label. -/
def sortBy {α : Type} (label : α → String) (items : List α) : List α :=
  items.mergeSort fun a b => decide (label a ≤ label b)

/-- The groups of items with equal labels, in ascending order of the labels. -/
def groupBy {α : Type} (label : α → String) (items : List α) : List (List α) :=
  runsBy label (sortBy label items)

/-- The tally of a group of observations with one key and template. -/
def tallyOf : List Observation → Option Tally
  | [] => none
  | first :: rest =>
    some ⟨first.key, first.template, rest.length + 1,
      rest.foldl (fun current o => mergeFields o.fields current) first.fields⟩

/-- The tallies of the observations of one key, in template order. -/
def tallies (observations : List Observation) : List Tally :=
  (groupBy (·.template) observations).filterMap tallyOf

/-- A tally as it is published, among `total` observations of its key. -/
def publish (total : Nat) (t : Tally) : Suggestion :=
  ⟨t.key, t.template, t.count, t.count * 100 / total, t.fields.mapValues publishValue⟩

/-- The suggestions among the tallies of one key: those that pass the thresholds, the most
frequent first, cut to the number that is allowed. -/
def select (tallies : List Tally) (thresholds : Thresholds) : List Suggestion :=
  let total := tallies.foldr (fun t total => t.count + total) 0
  let admitted := tallies.filter fun t => thresholds.admits t.count total
  let ranked := admitted.mergeSort fun a b => decide (b.count ≤ a.count)
  (ranked.take thresholds.maxSuggestions).map (publish total)

/-- The suggestions for all keys, in ascending order of the keys. -/
def aggregate (observations : List Observation) (thresholds : Thresholds) : List Suggestion :=
  (groupBy (·.key) observations).flatMap fun group => select (tallies group) thresholds

/-- After how many observations a pass over them reports again. -/
def progressInterval : Nat := 25

/-- What aggregating `total` observations reports. -/
def aggregateProgress (total : Nat) : List Progress :=
  ((List.range total).filter fun i => i % progressInterval == 0 || i + 1 == total).map fun i =>
    .text (toString i ++ " of " ++ toString total)

end Ranking

end Foresight
