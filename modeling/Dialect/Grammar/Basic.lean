import Dialect.Grammar.Layout
import Dialect.Grammar.Reach

/-!
# Grammars

A grammar is the table of all elements of all rules of a dialect.  It is made from
rules in three steps: the rules are laid out one after the other (`Grammar.layOut`),
references are linked to the rules they name (`Grammar.link`), and the result is
refused if some rule can be entered again before a token is taken
(`Grammar.reentry?`).  The first fault met in this order is the one reported.
-/

set_option autoImplicit false

namespace Dialect

/-- The rules of a dialect, ready to parse with. -/
structure Grammar where
  vocabulary : Vocabulary
  /-- Every element, at the place that is its id. -/
  elements : Array (Element ElementId)
  /-- The first element of each rule, in the order of declaration. -/
  rules : List (String × ElementId)
  /-- Where a parse starts unless told otherwise. -/
  root : ElementId
deriving DecidableEq, Repr

namespace Grammar

/-! ### Looking things up -/

/-- The first element of the named rule. -/
def rule? (g : Grammar) (name : String) : Option ElementId := g.rules.lookup name

/-- The element with the given id. -/
def element (g : Grammar) (id : ElementId) : Except Fault (Element ElementId) :=
  match g.elements[id]? with
  | some element => .ok element
  | none => .error (.unknownElement id)

/-- The kind of the element with the given id. -/
def kind? (g : Grammar) (id : ElementId) : Option (Kind ElementId) :=
  g.elements[id]?.map Element.kind

/-- The elements that may be entered where the given one is entered. -/
def entries (g : Grammar) (id : ElementId) : List ElementId :=
  match g.kind? id with
  | some kind => kind.entries
  | none => []

/-- What the given element refers to, if it is a reference. -/
def target? (g : Grammar) (id : ElementId) : Option ElementId :=
  match g.kind? id with
  | some (.reference target) => some target
  | _ => none

/-- The element reached by following at most `steps` references. -/
def follow (g : Grammar) : Nat → ElementId → ElementId
  | 0, id => id
  | steps + 1, id =>
      match g.target? id with
      | some target => follow g steps target
      | none => id

/-- The element that does the matching for the given one.  A chain of references
visits each rule at most once. -/
def resolve (g : Grammar) (id : ElementId) : ElementId := g.follow (g.rules.length + 1) id

/-! ### Making a grammar -/

/-- Rules that have been laid out: their elements in order, and where each rule
starts. -/
structure Draft where
  elements : Layout.Block
  rules : List (String × ElementId)

/-- The draft with one more rule. -/
def Draft.add [Alphabet] (vocabulary : Vocabulary) (draft : Draft) (rule : Rule) :
    Except DefinitionError Draft := do
  if !Name.isValid rule.name then throw (.invalidName .rule rule.name)
  if (draft.rules.lookup rule.name).isSome then throw (.duplicateRule rule.name)
  let root := draft.elements.length
  let block ← Layout.block ⟨vocabulary, rule.name, root⟩ none root rule.definition
  return ⟨draft.elements ++ block, draft.rules ++ [(rule.name, root)]⟩

/-- All rules laid out one after the other. -/
def layOut [Alphabet] (vocabulary : Vocabulary)
    (rules : List Rule) : Except DefinitionError Draft :=
  rules.foldlM (Draft.add vocabulary) ⟨[], []⟩

/-- The id of the rule that a reference names. -/
def resolveMention (rules : List (String × ElementId)) (mention : Mention) :
    Except DefinitionError ElementId :=
  match rules.lookup mention.target with
  | some id => .ok id
  | none => .error (.unresolvedReference mention.rule mention.target)

/-- The elements of a draft with their references resolved. -/
def link (draft : Draft) : Except DefinitionError (List (Element ElementId)) :=
  draft.elements.mapM (Element.link (resolveMention draft.rules))

/-- Where parsing starts: at the named rule, or else at the first. -/
def startRule (rules : List (String × ElementId)) (root : Option String) :
    Except DefinitionError ElementId :=
  match root, rules with
  | some name, rules =>
      match rules.lookup name with
      | some id => .ok id
      | none => .error (.unknownRoot name)
  | none, (_, id) :: _ => .ok id
  | none, [] => .ok 0

/-- The reference through which the rule starting at `root` can be entered again
before a token is taken.  The search does not go through the rule itself. -/
def reentry? (g : Grammar) (root : ElementId) : Option ElementId :=
  let next := fun id => if id = root then [] else g.entries id
  (Reach.search next g.elements.size [] (g.entries root).reverse).find? fun id =>
    g.target? id == some root

/-- Refuses a grammar with a rule that can be entered again before a token is
taken. -/
def refuseReentry (g : Grammar) : Except DefinitionError Unit :=
  g.rules.forM fun (name, root) =>
    match g.reentry? root with
    | none => .ok ()
    | some via => .error (.leftRecursion name ((g.elements[via]?.map Element.name).getD ""))

/-- The grammar of the given rules. -/
def ofRules [Alphabet] (vocabulary : Vocabulary) (rules : List Rule) (root : Option String) :
    Except DefinitionError Grammar := do
  if rules.isEmpty then throw (.noRules vocabulary.dialect)
  let draft ← layOut vocabulary rules
  let elements ← link draft
  let root ← startRule draft.rules root
  let g : Grammar := ⟨vocabulary, elements.toArray, draft.rules, root⟩
  g.refuseReentry
  return g

end Grammar

end Dialect
