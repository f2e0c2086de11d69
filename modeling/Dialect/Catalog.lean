import Dialect.Grammar.Basic
import Std.Data.TreeMap

/-!
# The catalog of loaded grammars

Grammars that have been loaded, each under the name of a dialect.  Every grammar
that enters the catalog is given a number of its own, so two loadings of one
dialect can be told apart.

A grammar is loaded at most once under a name (`Catalog.getOrLoad`): what is
already there is handed out, and only otherwise is a grammar made and stored.
-/

set_option autoImplicit false

namespace Dialect

/-- A grammar as it was loaded. -/
structure Loaded where
  /-- Which loading this is. -/
  serial : Nat
  grammar : Grammar
deriving Repr

/-- The loaded grammars by name of dialect. -/
structure Catalog where
  entries : Std.TreeMap String Loaded
  /-- How many loadings there have been. -/
  issued : Nat

namespace Catalog

/-- The catalog without grammars. -/
def empty : Catalog := ⟨∅, 0⟩

/-- The grammar under the given name. -/
def get? (c : Catalog) (dialect : String) : Option Loaded := c.entries[dialect]?

/-- The names under which grammars are stored, in ascending order. -/
def dialects (c : Catalog) : List String := c.entries.keys

/-- Gives the grammar a number of its own. -/
def issue (c : Catalog) (g : Grammar) : Loaded × Catalog :=
  (⟨c.issued, g⟩, { c with issued := c.issued + 1 })

/-- Stores a grammar under a name in place of what is there. -/
def put (c : Catalog) (dialect : String) (loaded : Loaded) : Catalog :=
  { c with entries := c.entries.insert dialect loaded }

/-- Stores a grammar under the name of its dialect in place of what is there. -/
def insert (c : Catalog) (g : Grammar) : Loaded × Catalog :=
  let (loaded, c) := c.issue g
  (loaded, c.put g.vocabulary.dialect loaded)

/-- Stores what was made under a name unless something is there by now; the answer
is what is stored afterwards. -/
def settle (c : Catalog) (dialect : String) (loaded : Loaded) : Loaded × Catalog :=
  match c.get? dialect with
  | some present => (present, c)
  | none => (loaded, c.put dialect loaded)

/-- The grammar under the given name.  One that is not there is made first, and
stored if that succeeds. -/
def getOrLoad (c : Catalog) (dialect : String) (load : Unit → Except DefinitionError Grammar) :
    Except DefinitionError Loaded × Catalog :=
  match c.get? dialect with
  | some present => (.ok present, c)
  | none =>
      match load () with
      | .error refusal => (.error refusal, c)
      | .ok g =>
          let (loaded, c) := c.issue g
          let (stored, c) := c.settle dialect loaded
          (.ok stored, c)

/-- Takes the grammar under the given name out of the catalog. -/
def remove (c : Catalog) (dialect : String) : Option Loaded × Catalog :=
  (c.get? dialect, { c with entries := c.entries.erase dialect })

end Catalog

end Dialect
