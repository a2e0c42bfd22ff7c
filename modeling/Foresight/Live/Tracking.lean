import Foresight.Live.Debounce

/-!
# Tracking saves

Which of the files that somebody saves are worth an update, and what happens to a debouncer while
they are tracked.
-/

namespace Foresight

/-- Whether a path is that of a source file that no excluded directory is on the way to. -/
def AnalysisSettings.isTrackedSource (s : AnalysisSettings) (path : String) : Bool :=
  (Path.extension? path).any s.isSourceExtension &&
    !(Path.parts path).any fun part => s.isExcludedDir part.text

/-- What can happen to a debouncer. -/
inductive SaveEvent where
  | save (file : String)
  | elapse (ms : Nat)
  | flush
  | disconnect
  deriving DecidableEq, Inhabited

/-- One event: the debouncer after it, and the batches that it hands over. -/
def Debouncer.step (d : Debouncer) : SaveEvent → Debouncer × List (List String)
  | .save file => d.save file
  | .elapse ms => d.elapse ms
  | .flush => d.flush
  | .disconnect => (d.disconnect, [])

end Foresight
