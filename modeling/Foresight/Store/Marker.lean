import Foresight.Failure
import Foresight.Text.Blank

/-!
# Background markers

Whether a solution is analysed in the background is asked once and written down in a marker file.
-/

namespace Foresight

inductive BackgroundMode where
  | enabled
  | disabled
  deriving DecidableEq, Inhabited

namespace BackgroundMode

def text : BackgroundMode → String
  | .enabled => "enabled"
  | .disabled => "disabled"

def isEnabled : BackgroundMode → Bool
  | .enabled => true
  | .disabled => false

/-- Reads a marker; white space around it does not matter. -/
def parse (content : String) : Outcome BackgroundMode :=
  let word := Text.trim content
  if word = "enabled" then .ok .enabled
  else if word = "disabled" then .ok .disabled
  else .error (.validationField ("Unknown background analysis marker '" ++ word ++ "'") "marker")

end BackgroundMode

end Foresight
