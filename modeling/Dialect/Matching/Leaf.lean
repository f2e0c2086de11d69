import Dialect.Matching.Progress

/-!
# Matching leaves

A token element takes a token of its type.  A reserved word that may be read as an
identifier is declined when the token after it shows that it is a name here: before
a dot that cannot follow, or, for a function, before anything but the parenthesis
that must follow.  A declined word is given free, so an identifier may claim it.

An identifier element takes any identifier, and a reserved word that may be read
as one when it was given free here, when the element introduces an object, inside
a qualified name, or when the token after it may follow an identifier.

The placeholder is taken by every leaf.
-/

set_option autoImplicit false

namespace Dialect.Matcher

/-- Takes the current token as a leaf of the tree. -/
def takeLeaf (id : ElementId) : Matcher Outcome := do
  let m ← Cursor.mark
  Cursor.advance
  Cursor.complete m id
  return .fullMatch 1

/-- Gives the current word free and takes nothing. -/
def decline (word : TokenTypeId) : Matcher Outcome := do
  modify fun p => p.wave word
  return .noMatch

/-- Whether the type of the next token is the given one, if there is such a type. -/
def nextIs (next : Option Token) (type : TokenTypeId) : Bool :=
  (next.map Token.kind) == some type

/-- Whether the reserved word at the cursor qualifies a name: a dot follows it that
could not follow the element itself. -/
def qualifiesName (s : Setting) (path : Path) (next : Option Token) : Matcher Bool := do
  match s.grammar.vocabulary.dot? with
  | none => return false
  | some dot =>
      if !nextIs next dot then return false
      return !(← s.mayFollow path dot)

/-- Whether the function name at the cursor cannot be a call: the parenthesis that
must follow it does not. -/
def lacksArguments (s : Setting) (path : Path) (next : Option Token) : Matcher Bool := do
  match s.grammar.vocabulary.leftParenthesis? with
  | none => return false
  | some parenthesis =>
      if nextIs next parenthesis then return false
      s.mustFollow path parenthesis

/-- Matches a token element. -/
def token (s : Setting) (id : ElementId) (path : Path) (type : TokenTypeId)
    (text : Option String) (flavor : Option Category) : Matcher Outcome := do
  let c ← cursor
  match c.current? with
  | none => return .noMatch
  | some current =>
      if c.atPlaceholder then return ← takeLeaf id
      if current.kind ≠ type then return .noMatch
      if text.any fun text => !Token.sameWord current.text text then return .noMatch
      let word ← s.grammar.vocabulary.get current.kind
      if word.isSuppressible then
        let next := c.peek? 1
        if ← qualifiesName s path next then return ← decline current.kind
        if flavor.isNone && word.isFunction then
          if ← lacksArguments s path next then return ← decline current.kind
      takeLeaf id

/-- Whether the reserved word at the cursor is read as an identifier. -/
def acceptsReservedWord (s : Setting) (id : ElementId) (path : Path) (word : TokenTypeId) :
    Matcher Bool := do
  if (← get).isWaved word then return true
  if (← s.grammar.element id).kind.isDefinition then return true
  if (← path.enclosing s.grammar .qualifiedIdentifier).isSome then return true
  match (← cursor).peek? 1 with
  | none => return true
  | some next => s.mayFollow path next.kind

/-- Matches an identifier element. -/
def identifier (s : Setting) (id : ElementId) (path : Path) : Matcher Outcome := do
  let c ← cursor
  match c.current? with
  | none => return .noMatch
  | some current =>
      if c.atPlaceholder then return ← takeLeaf id
      let type ← s.grammar.vocabulary.get current.kind
      if type.isIdentifier then return ← takeLeaf id
      if type.isSuppressible then
        if ← acceptsReservedWord s id path current.kind then return ← takeLeaf id
      return .noMatch

end Dialect.Matcher
