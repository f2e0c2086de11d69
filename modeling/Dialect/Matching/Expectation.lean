import Dialect.Matching.Progress

/-!
# What was expected

When something required is missing, a diagnostic at the cursor says what was
expected there and what was found instead.
-/

set_option autoImplicit false

namespace Dialect

namespace Grammar

/-- The element that does the matching for the given one. -/
def matching (g : Grammar) (id : ElementId) : Except Fault (Element ElementId) := do
  let _ ← g.element id
  g.element (g.resolve id)

/-- What an element stands for, in the words of a message. -/
def describe (g : Grammar) (id : ElementId) : Except Fault String := do
  let element ← g.matching id
  match element.kind with
  | .token type text _ =>
      let type ← g.vocabulary.get type
      match text <|> type.value with
      | some value => return "'" ++ value ++ "'"
      | none => return type.name
  | .identifier .. | .qualified .. => return "identifier"
  | kind => return element.rule.getD kind.label

/-- The code for a required element that is missing. -/
def missingCode (g : Grammar) (id : ElementId) : Except Fault DiagnosticCode := do
  match (← g.matching id).kind with
  | .token .. => return .E0201
  | .identifier .. => return .E0202
  | _ => return .E0301

/-- The hint given when a reserved word stands where a name is expected. -/
def reservedWordHint (g : Grammar) (id : ElementId) (found : Token) :
    Except Fault (Option String) := do
  let type ← g.vocabulary.get found.kind
  if !type.isReservedWord then return none
  if !(← g.matching id).kind.isIdentifier then return none
  return some ("'" ++ found.text ++ "' is a reserved word and cannot be used as a name here")

end Grammar

namespace Cursor

/-- The diagnostic that the element is missing at the cursor. -/
def missing (c : Cursor) (g : Grammar) (code : DiagnosticCode) (id : ElementId) :
    Except Fault Diagnostic := do
  let range ← c.currentRange
  let expected ← g.describe id
  match c.current? with
  | some token =>
      return {
        code
        message := "expected " ++ expected ++ ", found '" ++ token.text ++ "'"
        range
        hint := ← g.reservedWordHint id token }
  | none =>
      return {
        code := if code.isStructural then code else .E0102
        message := "expected " ++ expected ++ ", found end of input"
        range }

end Cursor

namespace Matcher

/-- Records that the element is missing at the cursor. -/
def expected (s : Setting) (code : DiagnosticCode) (id : ElementId) : Matcher Unit := do
  let diagnostic ← (← cursor).missing s.grammar code id
  Cursor.report diagnostic

/-- Records that the element is missing at the cursor, under the code that belongs
to the element. -/
def expectedHere (s : Setting) (id : ElementId) : Matcher Unit := do
  expected s (← s.grammar.missingCode id) id

end Matcher

end Dialect
