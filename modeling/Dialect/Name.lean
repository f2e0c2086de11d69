import Dialect.Unicode.DefaultIgnorable
import Dialect.Unicode.GraphemeExtend
import Dialect.Unicode.IdentifierExtension
import Dialect.Unicode.IdentifierStart
import Dialect.Unicode.Unprintable

/-!
# Names of rules and token types

A name is an identifier in the sense of Unicode: it opens with a letter or `_`
and continues with letters, digits, marks, connectors or `-` (`Name.isValid`).
Which characters these are is told by an `Alphabet`, as every version of Unicode
assigns more of them.
A name that is not one is shown quoted, with everything a reader could not see
written by number (`Name.quoted`).
-/

set_option autoImplicit false

namespace Dialect

/-- The characters that identifiers are made of. -/
class Alphabet where
  /-- The property XID_Start. -/
  starts : Char → Bool
  /-- The property XID_Continue. -/
  continues : Char → Bool
  /-- What starts an identifier may also stand inside of one. -/
  continues_of_starts : ∀ c, starts c = true → continues c = true
  /-- The sign between a rule's name and the number of one of its elements is part of no
  identifier. -/
  continues_hash : continues '#' = false

/-- The alphabet of the tables. -/
instance Unicode.alphabet : Alphabet where
  starts := identifierStart.contains
  continues c := identifierStart.contains c || identifierExtension.contains c
  continues_of_starts c started := by rw [started, Bool.true_or]
  continues_hash := by decide +kernel

namespace Name

open Unicode

/-- Whether `c` may open a name. -/
def opens [Alphabet] (c : Char) : Bool := Alphabet.starts c || c == '_'

/-- Whether `c` may stand after the first character of a name. -/
def continues [Alphabet] (c : Char) : Bool := Alphabet.continues c || c == '-'

/-- Whether `name` can name a rule or a token type. -/
def isValid [Alphabet] (name : String) : Bool :=
  match name.toList with
  | [] => false
  | first :: rest => opens first && rest.all continues

/-- The number of a code point as it is written in a quoted text: lower-case
hexadecimal between braces. -/
def byNumber (c : Char) : String :=
  "\\u\x7b" ++ String.ofList (Nat.toDigits 16 c.toNat) ++ "\x7d"

/-- Whether a reader would not see `c` as a character of its own: it is drawn onto
its neighbour, leaves no trace on the line, or has no printed form at all. -/
def hidden (c : Char) : Bool :=
  attaching c || defaultIgnorable.contains c || unprintable.contains c

/-- One character of a quoted text.  The four short escapes and the two
characters that would break the quoting come first; whatever is `hidden` is
written by number. -/
def quotedChar (c : Char) : String :=
  if c = '\x00' then "\\0"
  else if c = '\t' then "\\t"
  else if c = '\n' then "\\n"
  else if c = '\r' then "\\r"
  else if c = '"' then "\\\""
  else if c = '\\' then "\\\\"
  else if hidden c then byNumber c
  else c.toString

/-- `name` between double quotes. -/
def quoted (name : String) : String :=
  "\"" ++ String.join (name.toList.map quotedChar) ++ "\""

end Name

end Dialect
