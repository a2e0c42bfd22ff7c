import Foresight.Files.Action
import Foresight.Text.Utf8

/-!
# Source texts

A source file is read leniently: what is not UTF-8 is replaced, and only a file that looks binary is
refused. It looks binary if it is very long or if more than one byte in a hundred of its beginning
is zero.
-/

namespace Foresight.SourceText

/-- Files beyond this length are not worth reading. -/
def lengthLimit : Nat := 10 * 1024 * 1024

/-- How much of a file is looked at. -/
def sampleLength : Nat := 1024

/-- The number of zeros among the first bytes of a file. -/
def zeros (content : ByteArray) : Nat :=
  ((content.extract 0 sampleLength).toList.filter (· == 0)).length

def isLikelyBinary (content : ByteArray) : Bool :=
  lengthLimit < content.size || min sampleLength content.size < 100 * zeros content

/-- The text of a file's content; `path` is where the file is. -/
def ofContent (path : String) (content : ByteArray) : Outcome String :=
  if isLikelyBinary content then
    .error (.validation ("File appears to be binary: " ++ path))
  else .ok (Text.Utf8.textOf content)

/-- The content of a file that is about to be sampled. -/
def sample (d : Disk) (path : String) : Outcome ByteArray := do
  let location ← Outcome.ofAnswer "Failed to read file metadata" (d.locate path)
  match d.get? location with
  | some (.file content) => return content
  | _ => throw (.io "Failed to read file sample" .isADirectory)

def read (d : Disk) (path : String) : Outcome String := do
  ofContent path (← sample d path)

end Foresight.SourceText
