import Dialect.Text.Range

/-!
# Diagnostics

A diagnostic says where a match that had begun could not be completed: what was
expected there, what was found, and which other places matter.
-/

set_option autoImplicit false

namespace Dialect

/-- The kinds of diagnostics. -/
inductive DiagnosticCode where
  /-- The input ended while something was expected. -/
  | E0102
  /-- Tokens are left over after the whole match. -/
  | E0103
  /-- A token is missing. -/
  | E0201
  /-- An identifier is missing. -/
  | E0202
  /-- The closing delimiter of a wrapper is missing. -/
  | E0203
  /-- A required element of a sequence or wrapper is missing. -/
  | E0301
  /-- The item after a separator is missing. -/
  | E0302
  /-- A part of a qualified name is missing. -/
  | E0303
deriving DecidableEq, Repr

namespace DiagnosticCode

/-- Every code. -/
def all : List DiagnosticCode :=
  [.E0102, .E0103, .E0201, .E0202, .E0203, .E0301, .E0302, .E0303]

def name : DiagnosticCode → String
  | .E0102 => "E0102"
  | .E0103 => "E0103"
  | .E0201 => "E0201"
  | .E0202 => "E0202"
  | .E0203 => "E0203"
  | .E0301 => "E0301"
  | .E0302 => "E0302"
  | .E0303 => "E0303"

/-- The code of the given name. -/
def ofName? (name : String) : Option DiagnosticCode := all.find? fun code => code.name == name

/-- Codes about delimiters and separators keep their own meaning at the end of the
input; the others give way to `E0102` there. -/
def isStructural : DiagnosticCode → Bool
  | .E0203 | .E0302 | .E0303 => true
  | _ => false

end DiagnosticCode

/-- Another place that matters to a diagnostic. -/
structure Related where
  message : String
  range : TextRange
deriving DecidableEq, Repr

/-- One diagnostic. -/
structure Diagnostic where
  code : DiagnosticCode
  message : String
  /-- The offending token, or an empty range at the end of the input. -/
  range : TextRange
  hint : Option String := none
  related : List Related := []
deriving DecidableEq, Repr

end Dialect
