import Mathlib.Init

/-!
# Raised exceptions

A call that raises returns `Except.error`: the class of the exception and the
text it is raised with.
-/

namespace NemoRL

/-- The exception classes raised by the modelled code. -/
inductive ErrorKind
  | assertionError
  | attributeError
  | fileNotFoundError
  | indexError
  | keyError
  | osError
  | resourceInsufficientError
  | runtimeError
  | typeError
  | valueError
  | zeroDivisionError
  deriving DecidableEq, Repr

/-- A raised exception. -/
structure PyError where
  /-- The class of the exception. -/
  kind : ErrorKind
  /-- The text it is raised with. -/
  message : String
  deriving DecidableEq, Repr

end NemoRL
