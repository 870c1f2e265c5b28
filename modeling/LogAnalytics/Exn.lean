/-!
# Exceptions

The exception classes the modelled code raises or catches, with the part of Python's and
the platform's class hierarchy that an `except` clause of it looks at.
-/

namespace LogAnalytics

inductive ExnClass where
  | valueError
  /-- `json.JSONDecodeError`, a `ValueError`. -/
  | jsonDecodeError
  /-- Pydantic's `ValidationError`, a `ValueError`. -/
  | validationError
  /-- `UnicodeEncodeError`, a `ValueError`. -/
  | unicodeEncodeError
  | typeError
  | overflowError
  | attributeError
  | keyError
  | recursionError
  | osError
  | parseError
  | ingestionError
  | storageError
  | pipelineError
  | pathTraversalError
  | other (name : String)
  deriving DecidableEq, Repr

/-- An exception: its class and `str(exc)`. -/
structure Exn where
  cls : ExnClass
  msg : String := ""
  deriving DecidableEq, Repr

namespace Exn

/-- `type(exc).__name__`. -/
def typeName (e : Exn) : String :=
  match e.cls with
  | .valueError => "ValueError"
  | .jsonDecodeError => "JSONDecodeError"
  | .validationError => "ValidationError"
  | .unicodeEncodeError => "UnicodeEncodeError"
  | .typeError => "TypeError"
  | .overflowError => "OverflowError"
  | .attributeError => "AttributeError"
  | .keyError => "KeyError"
  | .recursionError => "RecursionError"
  | .osError => "OSError"
  | .parseError => "ParseError"
  | .ingestionError => "IngestionError"
  | .storageError => "StorageError"
  | .pipelineError => "PipelineError"
  | .pathTraversalError => "PathTraversalError"
  | .other name => name

/-- `isinstance(exc, ValueError)`. -/
def isValueError (e : Exn) : Bool :=
  match e.cls with
  | .valueError | .jsonDecodeError | .validationError | .unicodeEncodeError => true
  | _ => false

/-- `isinstance(exc, PipelineError)`: parse, ingestion and storage errors are subclasses. -/
def isPipelineError (e : Exn) : Bool :=
  match e.cls with
  | .parseError | .ingestionError | .storageError | .pipelineError => true
  | _ => false

def isOSError (e : Exn) : Bool :=
  match e.cls with
  | .osError => true
  | _ => false

end Exn

end LogAnalytics
