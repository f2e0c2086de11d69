import Dialect.Proofs.Matching.Leaf
import Dialect.Proofs.Prediction.FirstSets

/-!
# What a match begins with

`g.BeginsAt version token id` says that a match of the element may begin with a token of
the type in the version: elements are tried from it on, each at the token at which the one
before it is entered, until one takes the token itself.  Every match begins in this way
(`recorded_begins`).

First sets count all slots.  What they leave out stands behind a required slot that the
version does not have (`begins_or_overlooks`).
-/

set_option autoImplicit false

namespace Dialect

open Relation

/-- The elements that are tried at a token of the type when an element of the given kind is
entered there, in the given version. -/
def Kind.TriesAt (g : Grammar) (version : Nat) (token : TokenTypeId) (kind : Kind ElementId)
    (id : ElementId) : Prop :=
  match kind with
  | .oneOf alternatives _ => ∃ slot ∈ alternatives, slot.item = id ∧
      slot.isActive version = true ∧ (g.vocabulary.has TokenType.isChameleon token = true ∨
        token ∈ (FirstSets.ofElement g id).possible)
  | kind => id ∈ kind.entriesAt version

namespace Grammar

variable {g : Grammar} {version : Nat} {token : TokenTypeId} {id x y : ElementId}

/-- `y` is tried when `x` is entered at a token of the type, in the given version. -/
def TriesAt (g : Grammar) (version : Nat) (token : TokenTypeId) (x y : ElementId) : Prop :=
  ∃ kind, g.kind? x = some kind ∧ kind.TriesAt g version token y

/-- A match of the element may begin with a token of the type, in the given version. -/
def BeginsAt (g : Grammar) (version : Nat) (token : TokenTypeId) (id : ElementId) : Prop :=
  ∃ leaf, ReflTransGen (g.TriesAt version token) id leaf ∧ token ∈ FirstSets.ownTokens g leaf

/-- A match of the element may begin with a token of the type, behind a required slot that
the version does not have. -/
def Overlooks (g : Grammar) (version : Nat) (token : TokenTypeId) (id : ElementId) : Prop :=
  ∃ x y, ReflTransGen (g.TriesAt version token) id x ∧ g.PassesOver version x y ∧
    g.BeginsAt version token y

theorem TriesAt.entersAt (tries : g.TriesAt version token x y) : g.EntersAt version x y := by
  obtain ⟨kind, stands, tried⟩ := tries
  refine ⟨kind, stands, ?_⟩
  cases kind with
  | oneOf alternatives sortable =>
      obtain ⟨slot, member, rfl, active, -⟩ := tried
      exact List.mem_map_of_mem (List.mem_filter.2 ⟨member, active⟩)
  | _ => exact tried

theorem PassesOver.triesAt (passes : g.PassesOver version x y) : g.TriesAt version token x y := by
  obtain ⟨slots, stands, beyond⟩ := passes
  exact ⟨_, stands, Kind.mem_leadingAt_of_beyond beyond⟩

theorem Overlooks.beginsAt (overlooks : g.Overlooks version token id) :
    g.BeginsAt version token id := by
  obtain ⟨x, y, before, passes, leaf, after, takes⟩ := overlooks
  exact ⟨leaf, (before.tail passes.triesAt).trans after, takes⟩

/-- What may begin a match in a version is in the first set, or it is overlooked. -/
theorem begins_or_overlooks (wellFormed : g.WellFormed) (bound : id < g.elements.size)
    (begins : g.BeginsAt version token id) :
    token ∈ (FirstSets.ofElement g id).possible ∨ g.Overlooks version token id := by
  obtain ⟨leaf, way, takes⟩ := begins
  have counted : ReflTransGen g.Enters id leaf ∨ g.Overlooks version token id := by
    clear bound
    induction way using ReflTransGen.head_induction_on with
    | refl => exact Or.inl .refl
    | head tries after ih =>
        rcases ih with counted | ⟨x, y, before, passes, begins⟩
        · rcases tries.entersAt.enters_or_passesOver with enters | passes
          · exact Or.inl (.head enters counted)
          · exact Or.inr ⟨_, _, .refl, passes, leaf, after, takes⟩
        · exact Or.inr ⟨x, y, .head tries before, passes, begins⟩
  refine counted.imp_left fun enters => ?_
  exact (FirstSets.mem_possible_ofElement wellFormed bound).2
    ⟨leaf, FirstSets.lt_of_mem_ownTokens takes, enters, takes⟩

end Grammar

/-! ### The beginning of a match -/

variable {s : Setting} {input : Input} {below : Nat → ElementId → Record} {complete : Bool}
  {i j : Nat} {events : List Event} {id : ElementId} {kind : Kind ElementId}

/-- Slots that take a token begin with a slot that leads. -/
theorem filled_begins {slots : List (Slot ElementId)} {index : Nat}
    (filled : Filled s input below slots index complete i j events) (further : i < j) :
    ∃ place item whole m first, item ∈ Kind.leadingAt s.options.version slots ∧
      below place item whole i m first := by
  induction filled with
  | done index i => exact absurd further (Nat.lt_irrefl i)
  | pass inactive others ih =>
      obtain ⟨place, item, whole, m, first, leads, matched⟩ := ih further
      exact ⟨place, item, whole, m, first, by simpa [Kind.leadingAt, inactive] using leads, matched⟩
  | leave active optional others ih =>
      obtain ⟨place, item, whole, m, first, leads, matched⟩ := ih further
      exact ⟨place, item, whole, m, first, by simp [Kind.leadingAt, active, optional, leads],
        matched⟩
  | fill active matched others ih => exact ⟨_, _, _, _, _, by simp [Kind.leadingAt, active], matched⟩
  | fillPart active matched => exact ⟨_, _, _, _, _, by simp [Kind.leadingAt, active], matched⟩
  | miss active required missing => exact absurd further (Nat.lt_irrefl _)

/-- Opening delimiters begin with one of them. -/
theorem opened_begins {opening : ElementId} {ranges : List TextRange}
    (opened : Opened input below opening ranges i j events) (nonempty : ranges ≠ []) :
    ∃ first, below 0 opening true i (i + 1) first := by
  induction opened with
  | done i => exact absurd rfl nonempty
  | more others range_eq matched ih =>
      cases others with
      | done i => exact ⟨_, matched⟩
      | more => exact ih (List.cons_ne_nil _ _)

/-- A match of a composite begins with the match of an element that is tried. -/
theorem leaves_begins (composite : kind.isLeaf = false) (further : i < j)
    (leaves : kind.Leaves s input below id complete i j events) :
    ∃ place item whole m first, kind.Tries s input i item ∧ below place item whole i m first := by
  cases leaves with
  | token => cases composite
  | identifier => cases composite
  | sequence filled => exact filled_begins filled further
  | wrapper range_eq opened => exact ⟨_, _, _, _, _, by simp [Kind.Tries, Kind.entriesAt], opened⟩
  | balanced opened nonempty =>
      obtain ⟨first, matched⟩ := opened_begins opened nonempty
      refine ⟨_, _, _, _, _, ?_, matched⟩
      simp only [Kind.Tries, Kind.entriesAt]
      split <;> simp
  | bare active matched =>
      exact ⟨_, _, _, _, _, by simp [Kind.Tries, Kind.entriesAt, active], matched⟩
  | oneOf tried active admitted matched =>
      have member := Kind.mem_tried.1 (List.mem_of_getElem? tried)
      exact ⟨_, _, _, _, _, ⟨_, member, rfl, active, admitted⟩, matched⟩
  | iteration matched => exact ⟨_, _, _, _, _, by simp [Kind.Tries, Kind.entriesAt], matched⟩
  | iterationPart matched => exact ⟨_, _, _, _, _, by simp [Kind.Tries, Kind.entriesAt], matched⟩
  | qualified member named =>
      obtain ⟨matched⟩ := named
      exact ⟨_, _, _, _, _, List.mem_filterMap.2 ⟨_, member, rfl⟩, matched⟩
  | qualifiedPart member named =>
      obtain ⟨matched⟩ := named
      exact ⟨_, _, _, _, _, List.mem_filterMap.2 ⟨_, member, rfl⟩, matched⟩
  | reference matched => exact ⟨_, _, _, _, _, by simp [Kind.Tries, Kind.entriesAt], matched⟩

/-- A leaf takes one of its own tokens. -/
theorem leaves_own {current : Token} (current_eq : input.token? i = some current)
    (ordinary : (input.cursorAt i).atPlaceholder = false) (stands : s.grammar.kind? id = some kind)
    (leaf : kind.isLeaf = true) (leaves : kind.Leaves s input below id complete i j events) :
    current.kind ∈ FirstSets.ownTokens s.grammar id := by
  cases leaves with
  | @token type text flavor _ other other_eq accepted =>
      obtain rfl : other = current := Option.some.inj (other_eq.symm.trans current_eq)
      obtain ⟨type_eq, -⟩ := accepted.resolve_left (by simp [ordinary])
      simp [FirstSets.ownTokens, stands, type_eq]
  | @identifier use isAlias object _ other other_eq accepted =>
      obtain rfl : other = current := Option.some.inj (other_eq.symm.trans current_eq)
      obtain ⟨type, type_eq, named⟩ := accepted.resolve_left (by simp [ordinary])
      exact (FirstSets.mem_ownTokens_identifier stands (Vocabulary.get_eq_ok.1 type_eq)).2 named
  | _ => cases leaf

/-- What is tried at a position depends on the type of the token there. -/
theorem tries_iff {current : Token} (current_eq : input.token? i = some current)
    (ordinary : (input.cursorAt i).atPlaceholder = false) (selective : s.predictor.selective = true)
    {item : ElementId} :
    kind.Tries s input i item ↔ kind.TriesAt s.grammar s.options.version current.kind item := by
  cases kind with
  | oneOf alternatives sortable =>
      have chameleon : (∃ type, s.grammar.vocabulary.get current.kind = .ok type ∧
          type.isChameleon = true) ↔
            s.grammar.vocabulary.has TokenType.isChameleon current.kind = true := by
        simp [Vocabulary.get_eq_ok, Vocabulary.has, Option.any_eq_true]
      simp only [Kind.Tries, Kind.TriesAt, Admitted, current_eq, Option.some.injEq,
        exists_eq_left', ordinary, selective, Bool.false_eq_true, Bool.true_eq_false, false_or,
        chameleon]
      constructor
      · rintro ⟨slot, member, rfl, rest⟩
        exact ⟨slot, member, rfl, rest⟩
      · rintro ⟨slot, member, rfl, rest⟩
        exact ⟨slot, member, rfl, rest⟩
  | _ => exact Iff.rfl

/-- **Every match begins with a token with which it may begin** in the version of the parse,
unless that is the placeholder. -/
theorem recorded_begins {current : Token} (current_eq : input.token? i = some current)
    (ordinary : (input.cursorAt i).atPlaceholder = false)
    (selective : s.predictor.selective = true) (levels : Nat) {outer : Path}
    (recorded : Recorded s input levels id outer complete i j events) :
    s.grammar.BeginsAt s.options.version current.kind id := by
  induction levels generalizing id outer complete j events with
  | zero => exact recorded.elim
  | succ levels ih =>
      obtain ⟨further, kind, stands, leaves⟩ := recorded
      by_cases leaf : kind.isLeaf = true
      · exact ⟨id, .refl, leaves_own current_eq ordinary stands leaf leaves⟩
      · obtain ⟨place, item, whole, m, first, tried, matched⟩ :=
          leaves_begins (by simpa using leaf) further leaves
        obtain ⟨last, way, takes⟩ := ih matched
        have tries : s.grammar.TriesAt s.options.version current.kind id item :=
          ⟨kind, stands, (tries_iff current_eq ordinary selective).1 tried⟩
        exact ⟨last, .head tries way, takes⟩

end Dialect
