import Foresight.Code.Lookup
import Foresight.Mining
import Foresight.Offer.Buffer
import Foresight.Offer.LeadIn

/-!
# Offers

What can be inserted at a statement: for each scope of the statement, the suggestions that are
published under its key. Scopes with a key that has come before are left out, and so is a template
that has been offered. Finding where an offer goes may turn bodies into blocks, so a file comes out
beside the offers.
-/

namespace Foresight

structure Offer where
  key : String
  suggestion : Suggestion
  parameters : Fields
  insertion : InsertionPoint
  deriving DecidableEq, Inhabited

namespace Offer

def label (o : Offer) : String := o.suggestion.label o.parameters

def invocation (o : Offer) : Invocation := o.suggestion.invoke o.parameters true

def apply (o : Offer) (buffer : Buffer) : Outcome Buffer :=
  buffer.execute o.invocation o.insertion

end Offer

namespace Offers

/-- The scopes whose key has not come before. -/
def distinctScopes (scopes : List Scope) : List Scope :=
  scopes.foldl (fun kept scope =>
    if kept.any (·.key == scope.key) then kept else kept ++ [scope]) []

/-- The suggestions under a key, as they are published. -/
def forKey (published : List Suggestion) (key : String) : List Suggestion :=
  published.filter (·.key == key)

/-- Adds the place of a scope, if there is one. -/
def addPlace (state : SourceFile × List (Scope × InsertionPoint)) (scope : Scope) :
    SourceFile × List (Scope × InsertionPoint) :=
  match scope.insertPosition state.1 with
  | (file, none) => (file, state.2)
  | (file, some insertion) => (file, state.2 ++ [(scope, insertion)])

/-- The scopes at a statement that have a place for offers, with that place. -/
def places (p : Pipeline) (file : SourceFile) (id : StatementId) :
    SourceFile × List (Scope × InsertionPoint) :=
  (distinctScopes (p.scopesFor file id)).foldl addPlace (file, [])

/-- Adds the suggestions for a place whose template is new. -/
def addNew (published : List Suggestion) (offers : List Offer) (place : Scope × InsertionPoint) :
    List Offer :=
  (forKey published place.1.key).foldl (fun offers s =>
    if offers.any (·.suggestion.template == s.template) then offers
    else offers ++ [⟨place.1.key, s, place.1.parameters, place.2⟩]) offers

def collect (published : List Suggestion) (places : List (Scope × InsertionPoint)) : List Offer :=
  places.foldl (addNew published) []

def atStatement (p : Pipeline) (published : List Suggestion) (file : SourceFile)
    (id : StatementId) : SourceFile × List Offer :=
  let (file, places) := places p file id
  (file, collect published places)

/-! ## Positions -/

/-- The first statement that begins on a line. -/
def statementOnLine (file : SourceFile) (line : Nat) : Outcome StatementId :=
  match file.statementAtLine? line with
  | some id => .ok id
  | none =>
    .error (.validationField
      ("No statement starts on line " ++ toString line ++ " of " ++ file.path) "line")

/-- The statement that the gesture for completing a statement goes by: the one that ends last before
the caret, if the caret stands where a statement could begin. -/
def statementAtCaret? (file : SourceFile) (caret : Nat) : Option StatementId :=
  if isInLeadIn file.text caret then file.statementBeforeOffset? caret else none

end Offers

end Foresight
