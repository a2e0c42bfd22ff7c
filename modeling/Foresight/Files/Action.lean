import Foresight.Files.Disk

/-!
# Actions on a disk

An action reads and changes a disk and may fail. What it has changed before it fails stays changed.
A refusal of the disk becomes a failure with a message that says what was being done.
-/

namespace Foresight

abbrev OnDisk (α : Type) := ExceptT Failure (StateM Disk) α

namespace OnDisk

variable {α : Type}

def runOn (action : OnDisk α) (d : Disk) : Outcome α × Disk :=
  StateT.run (ExceptT.run action) d

def look (f : Disk → Outcome α) : OnDisk α := fun d => (f d, d)

/-- Changes the disk; `doing` is the message of the failure if the disk refuses. -/
def change (doing : String) (f : Disk → Disk.Answer Disk) : OnDisk Unit := fun d =>
  match f d with
  | .ok after => (.ok (), after)
  | .error cause => (.error (.io doing cause), d)

/-- Changes the disk in steps, of which the first ones stay if the disk refuses a later one. -/
def changeInSteps (doing : String) (f : Disk → Disk.Answer Unit × Disk) : OnDisk Unit := fun d =>
  let (answer, after) := f d
  (answer.mapError (Failure.io doing), after)

end OnDisk

/-- What the disk answers, a refusal described by what was being done. -/
def Outcome.ofAnswer {α : Type} (doing : String) (answer : Disk.Answer α) : Outcome α :=
  answer.mapError (Failure.io doing)

end Foresight
