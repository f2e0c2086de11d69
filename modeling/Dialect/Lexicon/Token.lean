import Dialect.Text.Range

/-!
# Tokens

The input of a parse: a list of tokens, each with its type, its text and the
offset at which the text starts.
-/

set_option autoImplicit false

namespace Dialect

/-- One token of the input. -/
structure Token where
  kind : TokenTypeId
  text : String
  offset : Nat
deriving DecidableEq, Repr

namespace Token

/-- The bytes the token covers. -/
def range (token : Token) : Except Fault TextRange :=
  TextRange.sized token.offset token.text.utf8ByteSize

/-- Whether two texts differ at most in the case of ASCII letters. -/
def sameWord (a b : String) : Bool :=
  a.toList.map Char.toLower == b.toList.map Char.toLower

end Token

end Dialect
