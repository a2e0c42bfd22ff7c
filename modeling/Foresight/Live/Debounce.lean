import Foresight.Settings.Basic

/-!
# Coalescing saves

Saves of files are collected until there are enough of them to be worth an update. From then on
every save starts a quiet period anew, and when one has passed without a save, the files are handed
over as one batch. Time is a number of milliseconds that somebody else counts: `elapse` says that
some of them have gone by.
-/

namespace Foresight

structure Debouncer where
  threshold : Nat
  quietPeriod : Nat
  /-- The files that wait, the one that was saved last at the end. -/
  pending : List String
  saves : Nat
  /-- What is left of the quiet period, while one runs. -/
  timer : Option Nat
  /-- Whether anybody still takes the batches. -/
  connected : Bool
  deriving DecidableEq, Inhabited

namespace Debouncer

def new (threshold quietPeriod : Nat) : Debouncer :=
  ⟨max threshold 1, quietPeriod, [], 0, none, true⟩

def ofSettings (suggestions : SuggestionSettings) (analysis : AnalysisSettings) : Debouncer :=
  new suggestions.fileSavesBeforeRebuild analysis.quietPeriodMs

def timerRunning (d : Debouncer) : Bool := d.timer.isSome

/-- Hands over what waits, if anything does and anybody takes it. -/
def flush (d : Debouncer) : Debouncer × List (List String) :=
  ({ d with pending := [], saves := 0, timer := none },
    if d.pending.isEmpty || !d.connected then [] else [d.pending])

/-- Lets time go by. A quiet period that ends hands over what waits. -/
def elapse (ms : Nat) (d : Debouncer) : Debouncer × List (List String) :=
  match d.timer with
  | none => (d, [])
  | some left => if left ≤ ms then d.flush else ({ d with timer := some (left - ms) }, [])

def record (file : String) (d : Debouncer) : Debouncer :=
  { d with
    pending := d.pending.filter (· != file) ++ [file]
    saves := d.saves + 1
    timer := if d.threshold ≤ d.saves + 1 then some d.quietPeriod else d.timer }

/-- A save; a quiet period of no length ends at once. -/
def save (file : String) (d : Debouncer) : Debouncer × List (List String) :=
  (d.record file).elapse 0

/-- From now on nobody takes the batches. -/
def disconnect (d : Debouncer) : Debouncer := { d with connected := false }

end Debouncer

end Foresight
