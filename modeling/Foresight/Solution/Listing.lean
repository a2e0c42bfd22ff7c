import Foresight.Code.SourceFile
import Foresight.Failure
import Foresight.Text.Cut

/-!
# Listings

A listing is a solution as one pass over it sees it: the projects with the identifiers of their
files, and what loading a file gives. A file that does not load is passed over.

A source file is known by the project that it belongs to and its path in that project, with slashes.
The identifier says nothing of where the solution lies, so observations stay valid when it moves.
-/

namespace Foresight

namespace FileId

def of (project relative : String) : String :=
  "<" ++ project ++ ">/" ++ String.ofList (relative.toList.dropWhile (· == '/'))

def split? (fileId : String) : Option (String × String) :=
  (Text.stripLead? "<" fileId).bind (Text.cut? ">/")

end FileId

structure ProjectFiles where
  name : String
  fileIds : List String
  deriving DecidableEq, Inhabited

structure Listing where
  solution : String
  projects : List ProjectFiles
  load : String → Outcome SourceFile

namespace Listing

def fileIds (l : Listing) : List String := l.projects.flatMap (·.fileIds)

end Listing

end Foresight
