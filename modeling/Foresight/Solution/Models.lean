import Foresight.Solution.Listing
import Foresight.Table

/-!
# Solutions of given models

A solution that consists of source models that somebody else has made. A file may be known without a
model; loading it fails.
-/

namespace Foresight

structure ModelSolution where
  name : String
  projects : Table (List String)
  files : Table (Option SourceFile)

namespace ModelSolution

def empty (name : String) : ModelSolution := ⟨name, .empty, .empty⟩

/-- Adds or replaces a file of a project. -/
def add (s : ModelSolution) (project relative : String) (file : Option SourceFile) :
    ModelSolution × String :=
  let fileId := FileId.of project relative
  let known := (s.projects.get? project).getD []
  let listed := if known.contains fileId then known else known ++ [fileId]
  ({ s with
      projects := s.projects.insert project listed
      files := s.files.insert fileId file }, fileId)

def remove (s : ModelSolution) (fileId : String) : ModelSolution :=
  { s with
    projects := s.projects.mapValues fun ids => ids.filter (· != fileId)
    files := s.files.erase fileId }

def projectFiles (s : ModelSolution) : List ProjectFiles :=
  s.projects.entries.map fun (name, ids) => ⟨name, ids⟩

def load (s : ModelSolution) (fileId : String) : Outcome SourceFile :=
  match s.files.get? fileId with
  | some (some file) => .ok file
  | some none => .error (.parseInFile "csharp" "Source unavailable" fileId)
  | none => .error (.validationField ("Unknown file '" ++ fileId ++ "'") "file_id")

def listing (s : ModelSolution) : Listing := ⟨s.name, s.projectFiles, s.load⟩

end ModelSolution

end Foresight
