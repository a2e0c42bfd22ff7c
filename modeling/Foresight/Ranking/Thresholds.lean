/-!
# Thresholds

How many suggestions a key may have, and how often a template must have been seen to be one of them.
-/

namespace Foresight

structure Thresholds where
  maxSuggestions : Nat
  minOccurrences : Nat
  /-- In percent of all observations under the key. -/
  minPercentage : Nat
  deriving DecidableEq, Inhabited

namespace Thresholds

/-- Thresholds that let at least one suggestion through. -/
def new (maxSuggestions minOccurrences minPercentage : Nat) : Thresholds :=
  ⟨max maxSuggestions 1, minOccurrences, minPercentage⟩

/-- Whether a template seen `count` times among `total` observations is published. -/
def admits (t : Thresholds) (count total : Nat) : Bool :=
  total > 0 && count ≥ t.minOccurrences && count * 100 ≥ t.minPercentage * total

end Thresholds

end Foresight
