import Dialect.Name
import Dialect.Supply

/-!
# Why a definition is refused

A vocabulary or a grammar is handed out only when every declaration in it is
sound.  Each constructor is one reason for a refusal, and `DefinitionError.message`
is its wording.
-/

set_option autoImplicit false

namespace Dialect

/-- What an ill-formed name was meant to name. -/
inductive NameRole where
  | tokenType
  | rule
deriving DecidableEq, Repr

/-- A composite that was declared without anything in it. -/
inductive Hollow where
  | sequence
  | oneOf
  | qualifiedVariant
deriving DecidableEq, Repr

/-- The reasons for refusing a vocabulary or a grammar. -/
inductive DefinitionError where
  /-- A token type is mentioned that the vocabulary does not declare. -/
  | unknownTokenType (name : String)
  /-- Two token types have one name. -/
  | duplicateTokenType (name : String)
  /-- Two rules have one name. -/
  | duplicateRule (name : String)
  /-- A name is not an identifier. -/
  | invalidName (role : NameRole) (name : String)
  /-- A rule mentions a rule that is not declared. -/
  | unresolvedReference (rule reference : String)
  /-- A composite has nothing in it. -/
  | empty (what : Hollow) (rule : String)
  /-- A part of a qualified identifier is neither an identifier nor a token. -/
  | compositePart (rule : String)
  /-- A rule can be entered again before a token is taken. -/
  | leftRecursion (rule via : String)
  /-- The rule to start from is not declared. -/
  | unknownRoot (name : String)
  /-- There are no rules at all. -/
  | noRules (dialect : String)
  /-- There are more declarations than ids. -/
  | exhausted (supply : Supply)
deriving DecidableEq, Repr

/-- How a role is worded. -/
def NameRole.label : NameRole → String
  | .tokenType => "token type"
  | .rule => "rule"

/-- How an empty composite is worded. -/
def Hollow.label : Hollow → String
  | .sequence => "sequence"
  | .oneOf => "one-of"
  | .qualifiedVariant => "qualified-identifier variant"

/-- The text shown to the author of the definition. -/
def DefinitionError.message : DefinitionError → String
  | .unknownTokenType name => "Unknown token type: " ++ name
  | .duplicateTokenType name => "Duplicate token type: " ++ name
  | .duplicateRule name => "Duplicate rule: " ++ name
  | .invalidName role name => "Invalid " ++ role.label ++ " name: " ++ Name.quoted name
  | .unresolvedReference rule reference =>
      "Unresolved reference to rule '" ++ reference ++ "' in rule '" ++ rule ++ "'"
  | .empty what rule => "Empty " ++ what.label ++ " in rule '" ++ rule ++ "'"
  | .compositePart rule =>
      "Invalid element in rule '" ++ rule ++
        "': qualified identifier parts must be identifiers or tokens"
  | .leftRecursion rule via => "Rule '" ++ rule ++ "' is left-recursive through '" ++ via ++ "'"
  | .unknownRoot name => "Unknown root rule: " ++ name
  | .noRules dialect => "Grammar '" ++ dialect ++ "' declares no rules"
  | .exhausted supply => supply.exhaustedMessage

end Dialect
