import Foresight.Scope.Classifier
import Foresight.Template.Builder

/-!
# Mining a file

A pipeline is a list of classifiers and a list of builders. Mining walks a file; at every statement
each classifier that recognises it gives a scope, and under each scope the statement that follows
gives a template. The result is one observation for each such pair, in walk order.
-/

namespace Foresight

structure Pipeline where
  classifiers : List Classifier
  builders : List Builder
  deriving DecidableEq, Inhabited

namespace Pipeline

def standard : Pipeline := ⟨Classifier.standard, Builder.standard⟩

def classifierNames (p : Pipeline) : List String := p.classifiers.map Classifier.name

def builderNames (p : Pipeline) : List String := p.builders.map Builder.name

def scopesFor (p : Pipeline) (file : SourceFile) (id : StatementId) : List Scope :=
  match file.get? id with
  | none => []
  | some s =>
    (p.classifiers.filter (·.canHandle s.kind)).filterMap (·.handle? id s.kind)

/-- The observations under a scope: what the statement that follows there says. -/
def observationsUnder (p : Pipeline) (file : SourceFile) (scope : Scope) : List Observation :=
  match (scope.nextStatement? file).bind file.get? with
  | none => []
  | some next =>
    (p.builders.filter (·.canHandle next.kind)).filterMap (·.build? file next scope)

/-- Every observation that a file makes, marked with the file's identifier. -/
def analyzeFile (p : Pipeline) (file : SourceFile) (fileId : String) : List Observation :=
  file.walk.flatMap fun id =>
    (p.scopesFor file id).flatMap fun scope =>
      (p.observationsUnder file scope).map fun o => { o with file := fileId }

end Pipeline

end Foresight
