import Foresight.Table

/-!
# Observations and suggestions

What mining finds is an observation: under a scope key, in some file, this template followed, with a
suggestion for each of its placeholders. The observations of one template are counted in a tally,
and a tally that is frequent enough is offered as a suggestion.
-/

namespace Foresight

structure Observation where
  key : String
  file : String
  template : String
  fields : Fields
  deriving DecidableEq, Inhabited

/-- All observations of one template under one key. -/
structure Tally where
  key : String
  template : String
  count : Nat
  fields : Fields
  deriving DecidableEq, Inhabited

/-- A template as it is offered: how often it was seen, and in which share of cases. -/
structure Suggestion where
  key : String
  template : String
  count : Nat
  percentage : Nat
  fields : Fields
  deriving DecidableEq, Inhabited

end Foresight
