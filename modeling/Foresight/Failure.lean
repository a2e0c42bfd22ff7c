/-!
# Failures

Whatever can go wrong outside mining itself: files, configuration, stored documents, background work
and the caller's own input. A failure has a kind and a message; a caller that knows more puts its
context in front of the message (`withContext`). `describe` is the one rendering, `explain` adds the
system's own words when there are any.
-/

namespace Foresight

/-- What the operating system says when it refuses. -/
inductive SystemError where
  | notFound
  | exists_
  | notADirectory
  | isADirectory
  | notEmpty
  | nameTooLong
  | nulInName
  | invalidText
  | other (text : String)
  deriving DecidableEq, Inhabited

def SystemError.text : SystemError → String
  | .notFound => "No such file or directory (os error 2)"
  | .exists_ => "File exists (os error 17)"
  | .notADirectory => "Not a directory (os error 20)"
  | .isADirectory => "Is a directory (os error 21)"
  | .notEmpty => "Directory not empty (os error 39)"
  | .nameTooLong => "File name too long (os error 36)"
  | .nulInName => "file name contained an unexpected NUL byte"
  | .invalidText => "stream did not contain valid UTF-8"
  | .other text => text

/-- What a failure is about, with what is known beside its message. -/
inductive Failure.Kind where
  | io (cause : SystemError)
  | config (field : Option String)
  | parse (language : String) (file : Option String)
  | serialization (format : String)
  | validation (field : Option String)
  | pipeline (stage : String)
  | internal
  deriving DecidableEq, Inhabited

structure Failure where
  kind : Failure.Kind
  message : String
  deriving DecidableEq, Inhabited

namespace Failure

def io (message : String) (cause : SystemError) : Failure := ⟨.io cause, message⟩

/-- A refusal of the system that nobody has described yet. -/
def ofSystem (cause : SystemError) : Failure := io "I/O operation failed" cause

def configField (message field : String) : Failure := ⟨.config (some field), message⟩

def parse (language message : String) : Failure := ⟨.parse language none, message⟩

def parseInFile (language message file : String) : Failure := ⟨.parse language (some file), message⟩

def serialization (message format : String) : Failure := ⟨.serialization format, message⟩

def validation (message : String) : Failure := ⟨.validation none, message⟩

def validationField (message field : String) : Failure := ⟨.validation (some field), message⟩

def pipeline (stage message : String) : Failure := ⟨.pipeline stage, message⟩

def internal (message : String) : Failure := ⟨.internal, message⟩

/-- A record document that does not scan as markup. -/
def malformedMarkup : Failure := serialization "XML processing failed" "XML"

/-- A start tag whose attributes do not scan. -/
def malformedAttribute : Failure := serialization "Malformed XML attribute" "XML"

/-- A record document that ends inside an element. -/
def truncatedRecords : Failure := serialization "Unexpected end of record document" "XML"

/-- A configuration that does not read as YAML or lacks a field. -/
def malformedYaml : Failure := serialization "YAML serialization failed" "YAML"

def withContext (context : String) (failure : Failure) : Failure :=
  { failure with message := context ++ ": " ++ failure.message }

def describe (failure : Failure) : String :=
  match failure.kind with
  | .io _ => "I/O error: " ++ failure.message
  | .config _ => "Configuration error: " ++ failure.message
  | .parse language _ => "Parse error in " ++ language ++ ": " ++ failure.message
  | .serialization _ => "Serialization error: " ++ failure.message
  | .validation _ => "Validation error: " ++ failure.message
  | .pipeline stage => "Pipeline error at stage '" ++ stage ++ "': " ++ failure.message
  | .internal => "Internal error: " ++ failure.message

def explain (failure : Failure) : String :=
  match failure.kind with
  | .io cause => failure.describe ++ ": " ++ cause.text
  | _ => failure.describe

end Failure

/-- The outcome of an operation that may fail. -/
abbrev Outcome (α : Type) := Except Failure α

/-- Adds a context to a failure, and nothing to a success. -/
def Outcome.context {α : Type} (context : String) (outcome : Outcome α) : Outcome α :=
  outcome.mapError (Failure.withContext context)

end Foresight
