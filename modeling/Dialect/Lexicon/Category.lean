/-!
# Lexical categories

The classes of tokens a dialect can declare.  Four of them are reserved words;
two carry no meaning for the grammar (`Category.isTrivia`).
-/

set_option autoImplicit false

namespace Dialect

/-- What kind of word a token type is. -/
inductive Category where
  | keyword
  | function
  | parameter
  | datatype
  | identifier
  | operator
  | character
  | literal
  | numeric
  /-- A block whose content belongs to another language. -/
  | chameleon
  | whitespace
  | comment
  | unknown
deriving DecidableEq, Repr

namespace Category

/-- Every category. -/
def all : List Category :=
  [.keyword, .function, .parameter, .datatype, .identifier, .operator, .character, .literal,
    .numeric, .chameleon, .whitespace, .comment, .unknown]

/-- The name under which a category is declared. -/
def name : Category → String
  | .keyword => "keyword"
  | .function => "function"
  | .parameter => "parameter"
  | .datatype => "datatype"
  | .identifier => "identifier"
  | .operator => "operator"
  | .character => "character"
  | .literal => "literal"
  | .numeric => "numeric"
  | .chameleon => "chameleon"
  | .whitespace => "whitespace"
  | .comment => "comment"
  | .unknown => "unknown"

/-- The category of the given name. -/
def ofName? (name : String) : Option Category :=
  all.find? fun category => category.name == name

/-- Keywords, functions, parameters and datatypes are reserved words. -/
def isReservedWord : Category → Bool
  | .keyword | .function | .parameter | .datatype => true
  | _ => false

/-- White space and comments stand between the tokens a grammar speaks about. -/
def isTrivia : Category → Bool
  | .whitespace | .comment => true
  | _ => false

theorem mem_all (category : Category) : category ∈ all := by
  cases category <;> decide

/-- Reading a category's name gives the category back. -/
theorem ofName?_name (category : Category) : ofName? category.name = some category := by
  cases category <;> decide

end Category

end Dialect
