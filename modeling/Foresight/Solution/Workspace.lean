import Foresight.Solution.Directory
import Foresight.Solution.Models

/-!
# Workspaces

What can be analysed: a solution on disk, or one of given models. Only the former has anything to
refresh, and only the former keeps declared types between passes.
-/

namespace Foresight

inductive Workspace where
  | directory (solution : SolutionDirectory)
  | models (solution : ModelSolution)

namespace Workspace

instance : Inhabited Workspace := ⟨.models (.empty "")⟩

def solutionName : Workspace → String
  | .directory s => s.name
  | .models s => s.name

def directory? : Workspace → Option SolutionDirectory
  | .directory s => some s
  | .models _ => none

def projectFiles (d : Disk) : Workspace → List ProjectFiles
  | .directory s => s.projectFiles d
  | .models s => s.projectFiles

def refresh (d : Disk) : Workspace → Outcome Workspace
  | .directory s => do return .directory (← s.refresh d)
  | .models s => .ok (.models s)

def listing (grammar : Grammar) (d : Disk) : Workspace → Listing
  | .directory s => s.listing grammar d
  | .models s => s.listing

/-- Whether loading a file looks at the declared types. -/
def consultsTypes (w : Workspace) (fileId : String) (d : Disk) : Bool :=
  match w with
  | .directory s => (s.readId fileId d).isOk
  | .models _ => false

def remember (grammar : Grammar) (d : Disk) : Workspace → Workspace
  | .directory s => .directory (s.remember grammar d)
  | .models s => .models s

/-- The workspace after some files have been loaded. -/
def afterLoading (grammar : Grammar) (fileIds : List String) (d : Disk) (w : Workspace) :
    Workspace :=
  if fileIds.any (w.consultsTypes · d) then w.remember grammar d else w

end Workspace

end Foresight
