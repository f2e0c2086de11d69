import Dialect.Proofs.Grammar.Nonempty
import Dialect.Proofs.Matching.Beginning

/-!
# Spelling out an element

What it means that a stretch of the input is derived from an element, where a grammar leaves
no choice but that of an alternative (`Spells`): the reading of a grammar by its tokens
alone, without a tree and without a parser.

A grammar is `Definite` where every slot has to be filled and the first token tells the
alternatives of a choice apart.
-/

set_option autoImplicit false

namespace Dialect

open Relation

section

variable (g : Grammar) (input : Input)

mutual

/-- The tokens from one position up to another are derived from the element. -/
inductive Spells : ElementId → Nat → Nat → Prop
  /-- A token element is spelled by a token of its type, with its text if it has one. -/
  | token {id type text flavor i current}
      (stands : g.kind? id = some (.token type text flavor))
      (current_eq : input.token? i = some current) (type_eq : current.kind = type)
      (text_eq : ∀ word ∈ text, Token.sameWord current.text word = true) : Spells id i (i + 1)
  | identifier {id use isAlias object i current type}
      (stands : g.kind? id = some (.identifier use isAlias object))
      (current_eq : input.token? i = some current)
      (type_eq : g.vocabulary.types[current.kind]? = some type)
      (named : type.isIdentifier = true) : Spells id i (i + 1)
  | sequence {id slots i j} (stands : g.kind? id = some (.sequence slots))
      (items : SpellsAll (slots.map Slot.item) i j) : Spells id i j
  | wrapper {id opening slot closing repeated i m n j}
      (stands : g.kind? id = some (.wrapper opening slot closing repeated))
      (opens : Spells opening i m) (content : Spells slot.item m n) (closes : Spells closing n j) :
      Spells id i j
  | oneOf {id alternatives sortable slot i j}
      (stands : g.kind? id = some (.oneOf alternatives sortable)) (member : slot ∈ alternatives)
      (chosen : Spells slot.item i j) : Spells id i j
  | reference {id target i j} (stands : g.kind? id = some (.reference target))
      (meant : Spells target i j) : Spells id i j

/-- The tokens are derived from the elements, one behind the other. -/
inductive SpellsAll : List ElementId → Nat → Nat → Prop
  | nil (i) : SpellsAll [] i i
  | cons {id rest i m j} (first : Spells id i m) (others : SpellsAll rest m j) :
      SpellsAll (id :: rest) i j

end

end

/-! ### Definite grammars -/

/-- The element mentions another. -/
def Grammar.Mentions (g : Grammar) (x y : ElementId) : Prop :=
  ∃ kind, g.kind? x = some kind ∧ y ∈ kind.parts

/-- At the version every slot of the element is there and has to be filled, and no token
may begin two alternatives. -/
def Kind.Definite (g : Grammar) (version : Nat) : Kind ElementId → Prop
  | .token .. | .identifier .. | .reference _ => True
  | .sequence slots =>
      ∀ slot ∈ slots, slot.optional = false ∧ slot.isActive version = true
  | .wrapper _ content _ repeated =>
      repeated = false ∧ content.optional = false ∧ content.isActive version = true
  | .oneOf alternatives sortable =>
      sortable = false ∧ (∀ slot ∈ alternatives, slot.isActive version = true) ∧
        alternatives.Pairwise fun slot other => ∀ token,
          token ∈ (FirstSets.ofElement g slot.item).possible →
            token ∉ (FirstSets.ofElement g other.item).possible
  | .iteration .. | .qualified .. => False

/-- Everything that can be reached from the root is definite at the version, and no
reserved word may be read as a name. -/
structure Grammar.Definite (g : Grammar) (version : Nat) (root : ElementId) : Prop where
  kinds : ∀ id kind, ReflTransGen g.Mentions root id → g.kind? id = some kind →
    kind.Definite g version
  words : ∀ type ∈ g.vocabulary.types, type.isSuppressible = false

variable {g : Grammar} {input : Input} {version i j : Nat} {id root item : ElementId}
  {kind : Kind ElementId}

/-- What is below a definite element is definite as well. -/
theorem Grammar.Definite.below (definite : g.Definite version root)
    (stands : g.kind? root = some kind) (member : item ∈ kind.parts) :
    g.Definite version item :=
  ⟨fun id kind reached => definite.kinds id kind (.head ⟨_, stands, member⟩ reached),
    definite.words⟩

theorem Grammar.Definite.own (definite : g.Definite version root)
    (stands : g.kind? root = some kind) : kind.Definite g version :=
  definite.kinds root kind .refl stands

/-- In a definite grammar no word is suppressible. -/
theorem Grammar.Definite.plain (definite : g.Definite version root) {word : TokenTypeId}
    {type : TokenType} (found : g.vocabulary.types[word]? = some type) :
    type.isSuppressible = false :=
  definite.words type (Array.mem_of_getElem? found)

/-! ### The beginning of a spelling -/

mutual

/-- Where no composite is empty, every element is spelled by at least one token. -/
theorem Spells.lt (compact : g.Compact) {id : ElementId} {i j : Nat} :
    Spells g input id i j → i < j
  | .token .. | .identifier .. => Nat.lt_succ_self _
  | .sequence stands items =>
      items.lt compact fun none => compact _ _ stands (List.map_eq_nil_iff.1 none)
  | .wrapper _ opens content closes =>
      Nat.lt_trans (opens.lt compact) (Nat.lt_trans (content.lt compact) (closes.lt compact))
  | .oneOf _ _ chosen => chosen.lt compact
  | .reference _ meant => meant.lt compact

theorem SpellsAll.lt (compact : g.Compact) {ids : List ElementId} {i j : Nat} :
    SpellsAll g input ids i j → ids ≠ [] → i < j
  | .nil _, further => absurd rfl further
  | .cons first others, _ => Nat.lt_of_lt_of_le (first.lt compact) (others.le compact)

theorem SpellsAll.le (compact : g.Compact) {ids : List ElementId} {i j : Nat} :
    SpellsAll g input ids i j → i ≤ j
  | .nil _ => Nat.le_refl _
  | .cons first others => Nat.le_trans (Nat.le_of_lt (first.lt compact)) (others.le compact)

end

/-- The token at the position may begin a match of the element. -/
def Begins (g : Grammar) (input : Input) (id : ElementId) (i : Nat) : Prop :=
  ∃ current, input.token? i = some current ∧
    ∃ leaf, ReflTransGen g.Enters id leaf ∧ current.kind ∈ FirstSets.ownTokens g leaf

theorem Begins.of_enters {entry : ElementId} (enters : g.Enters id entry)
    (begins : Begins g input entry i) : Begins g input id i := by
  obtain ⟨current, current_eq, leaf, way, takes⟩ := begins
  exact ⟨current, current_eq, leaf, .head enters way, takes⟩

mutual

/-- A spelling begins with a token that may begin the element. -/
theorem Spells.begins (compact : g.Compact) {id : ElementId} {i j : Nat} :
    Spells g input id i j → Begins g input id i
  | .token stands current_eq type_eq text_eq =>
      ⟨_, current_eq, id, .refl, by simp [FirstSets.ownTokens, stands, type_eq]⟩
  | @Spells.identifier _ _ _ _ _ _ _ current type stands current_eq type_eq named => by
      exact ⟨_, current_eq, id, .refl,
        (FirstSets.mem_ownTokens_identifier stands type_eq).2 (Or.inl named)⟩
  | @Spells.sequence _ _ _ [] _ _ stands items => absurd rfl (compact _ _ stands)
  | @Spells.sequence _ _ _ (slot :: rest) _ _ stands items =>
      .of_enters (Grammar.enters_iff.2 ⟨_, stands, by simp [Kind.entries, Kind.leading]⟩)
        (items.begins compact rfl)
  | @Spells.wrapper _ _ _ _ _ _ repeated _ _ _ _ stands opens _ _ =>
      .of_enters (Grammar.enters_iff.2 ⟨_, stands, by cases repeated <;> simp [Kind.entries]⟩)
        (opens.begins compact)
  | .oneOf stands member chosen =>
      .of_enters (Grammar.enters_iff.2 ⟨_, stands, List.mem_map_of_mem member⟩)
        (chosen.begins compact)
  | .reference stands meant =>
      .of_enters (Grammar.enters_iff.2 ⟨_, stands, by simp [Kind.entries]⟩) (meant.begins compact)

theorem SpellsAll.begins (compact : g.Compact) {ids : List ElementId} {i j : Nat} :
    SpellsAll g input ids i j → ∀ {id rest}, ids = id :: rest → Begins g input id i
  | .cons first _, _, _, rfl => first.begins compact

end

/-- The first token of a spelling is in the first set of the element. -/
theorem Spells.mem_possible (wellFormed : g.WellFormed) (compact : g.Compact)
    (bound : id < g.elements.size) (spells : Spells g input id i j) :
    ∃ current, input.token? i = some current ∧
      current.kind ∈ (FirstSets.ofElement g id).possible := by
  obtain ⟨current, current_eq, leaf, way, takes⟩ := spells.begins compact
  exact ⟨current, current_eq, (FirstSets.mem_possible_ofElement wellFormed bound).2
    ⟨leaf, FirstSets.lt_of_mem_ownTokens takes, way, takes⟩⟩

end Dialect
