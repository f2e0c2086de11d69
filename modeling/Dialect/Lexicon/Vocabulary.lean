import Dialect.DefinitionError
import Dialect.Fault
import Dialect.Lexicon.Category

/-!
# The vocabulary of a dialect

The token types a dialect declares, numbered in the order of their declaration.
A vocabulary is made by declaring one type after the other (`Vocabulary.declare`):
names are identifiers, no name is declared twice, and there are no more types
than numbers for them.
-/

set_option autoImplicit false

namespace Dialect

/-- One declared token type. -/
structure TokenType where
  name : String
  /-- The text of a token that is always written the same way. -/
  value : Option String
  category : Category
  /-- Whether a reserved word may be read as an identifier in some places. -/
  suppressible : Bool
deriving DecidableEq, Repr

namespace TokenType

/-- A reserved keyword. -/
def keyword (name value : String) : TokenType := ⟨name, some value, .keyword, false⟩

/-- A token of one character. -/
def character (name value : String) : TokenType := ⟨name, some value, .character, false⟩

def isIdentifier (type : TokenType) : Bool := type.category == .identifier
def isKeyword (type : TokenType) : Bool := type.category == .keyword
def isChameleon (type : TokenType) : Bool := type.category == .chameleon
def isFunction (type : TokenType) : Bool := type.category == .function
def isCharacter (type : TokenType) : Bool := type.category == .character
def isReservedWord (type : TokenType) : Bool := type.category.isReservedWord
def isTrivia (type : TokenType) : Bool := type.category.isTrivia

/-- A reserved word that may be read as an identifier in some places. -/
def isSuppressible (type : TokenType) : Bool := type.suppressible && type.isReservedWord

/-- The type as a reader sees it: its text, or else its name, and its category. -/
def render (type : TokenType) : String :=
  type.value.getD type.name ++ " (" ++ type.category.name ++ ")"

end TokenType

/-- The token types of a dialect; the id of a type is its place. -/
structure Vocabulary where
  dialect : String
  types : Array TokenType
deriving DecidableEq, Repr

namespace Vocabulary

/-- The id of the type with the given name. -/
def lookup? (v : Vocabulary) (name : String) : Option TokenTypeId :=
  v.types.findIdx? fun type => type.name == name

/-- The id of the type with the given name, which a definition relies on. -/
def resolve (v : Vocabulary) (name : String) : Except DefinitionError TokenTypeId :=
  match v.lookup? name with
  | some id => .ok id
  | none => .error (.unknownTokenType name)

/-- The type with the given id. -/
def get (v : Vocabulary) (id : TokenTypeId) : Except Fault TokenType :=
  match v.types[id]? with
  | some type => .ok type
  | none => .error (.unknownTokenType id)

/-- Whether the type with the given id has a property; unknown types have none. -/
def has (v : Vocabulary) (property : TokenType → Bool) (id : TokenTypeId) : Bool :=
  v.types[id]?.any property

/-- The ids of the types with a property, in ascending order. -/
def idsWhere (v : Vocabulary) (property : TokenType → Bool) : List TokenTypeId :=
  (List.range v.types.size).filter (v.has property)

/-- The vocabulary with one more type. -/
def declare [Alphabet] (v : Vocabulary) (type : TokenType) : Except DefinitionError Vocabulary :=
  if !Name.isValid type.name then .error (.invalidName .tokenType type.name)
  else if Supply.tokenTypes.capacity ≤ v.types.size then .error (.exhausted .tokenTypes)
  else if (v.lookup? type.name).isSome then .error (.duplicateTokenType type.name)
  else .ok { v with types := v.types.push type }

/-- The vocabulary of the listed types. -/
def ofList [Alphabet] (dialect : String)
    (types : List TokenType) : Except DefinitionError Vocabulary :=
  types.foldlM declare ⟨dialect, #[]⟩

/-! ### Punctuation

The types that the matching of reserved words consults; a dialect may do without. -/

def leftParenthesis? (v : Vocabulary) : Option TokenTypeId := v.lookup? "CHR_LEFT_PARENTHESIS"
def rightParenthesis? (v : Vocabulary) : Option TokenTypeId := v.lookup? "CHR_RIGHT_PARENTHESIS"
def dot? (v : Vocabulary) : Option TokenTypeId := v.lookup? "CHR_DOT"
def comma? (v : Vocabulary) : Option TokenTypeId := v.lookup? "CHR_COMMA"

end Vocabulary

end Dialect
