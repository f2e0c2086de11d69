import Dialect.Matching.Expectation
import Dialect.Proofs.Grammar.References
import Dialect.Proofs.Prediction.Following
import Dialect.Proofs.Prediction.Plain

/-!
# Grammars with more rules

A grammar extends another if it has the same elements and more behind them (`Grammar.Extends`).
What can be asked about an element of the smaller grammar has the same answer in the larger one:
its first sets (`Extends.ofElement_eq`), the order of its alternatives (`Extends.tried_eq`), what
it refers to (`Extends.resolve_eq`), how it is called when it is missing (`Extends.missing`), and
what may or must follow it, as long as the frames around have nothing to say (`Extends.mayFollow`,
`Extends.mustFollow`).
-/

set_option autoImplicit false

namespace Dialect

/-! ### Answers that are upheld -/

/-- What the first computation answers the second answers as well. -/
def Upholds {α : Type} (answer answer' : Except Fault α) : Prop :=
  ∀ value, answer = .ok value → answer' = .ok value

section Upholds

variable {α β : Type} {answer answer' : Except Fault α}

theorem Upholds.refl (answer : Except Fault α) : Upholds answer answer := fun _ same => same

theorem upholds_bind {next next' : α → Except Fault β} (first : Upholds answer answer')
    (second : ∀ value, Upholds (next value) (next' value)) :
    Upholds (answer >>= next) (answer' >>= next') := by
  intro result answered
  obtain ⟨value, here, further⟩ := bind_eq_ok.1 answered
  exact bind_eq_ok.2 ⟨value, first value here, second value result further⟩

theorem upholds_ite {c : Prop} [Decidable c] {other other' : Except Fault α}
    (first : Upholds answer answer') (second : Upholds other other') :
    Upholds (if c then answer else other) (if c then answer' else other') := by
  split
  · exact first
  · exact second

end Upholds

section Following

variable {version : Nat} {starts starts' : ElementId → Except Fault Bool}
  (begins : ∀ id, Upholds (starts id) (starts' id))

include begins

theorem upholds_amongSlots (slots : List (Slot ElementId)) :
    Upholds (Path.amongSlots version starts slots) (Path.amongSlots version starts' slots) := by
  induction slots with
  | nil => exact .refl _
  | cons slot rest ih =>
      unfold Path.amongSlots
      refine upholds_ite ih (upholds_bind (begins _) fun _ => upholds_ite (.refl _) ?_)
      exact upholds_ite ih (.refl _)

theorem upholds_possibleIn (slot : Nat) (kind : Kind ElementId) :
    Upholds (Path.possibleIn version starts slot kind)
      (Path.possibleIn version starts' slot kind) := by
  have answered : ∀ id, Upholds (do return some (← starts id)) (do return some (← starts' id)) :=
    fun id => upholds_bind (begins id) fun _ => .refl _
  cases kind with
  | sequence slots => exact upholds_bind (.refl _) fun later => upholds_amongSlots begins later
  | wrapper opening content closing repeated =>
      -- What is asked depends on which of the three parts the slot is.
      match slot with
      | 0 =>
          have behind := upholds_ite (c := (!content.isActive version || content.optional) = true)
            (answered closing) (.refl (pure (some false)))
          have inside := upholds_ite (c := content.isActive version = true)
            (upholds_bind (begins content.item) fun first =>
              upholds_ite (c := first = true) (.refl (pure (some true))) behind) behind
          exact upholds_ite (upholds_bind (begins opening) fun first =>
            upholds_ite (c := first = true) (.refl (pure (some true))) inside) inside
      | 1 =>
          refine upholds_ite (answered closing) (upholds_bind (begins closing) fun _ => ?_)
          exact upholds_ite (.refl _) (.refl _)
      | _ + 2 =>
          refine upholds_ite (upholds_bind (begins closing) fun _ => ?_) (.refl _)
          exact upholds_ite (.refl _) (.refl _)
  | iteration item separator =>
      refine upholds_bind (begins _) fun _ => upholds_ite (.refl _) ?_
      exact upholds_ite (.refl _) (.refl _)
  | qualified variants separator =>
      exact upholds_bind (begins _) fun _ => upholds_ite (.refl _) (.refl _)
  | _ => exact .refl _

theorem upholds_requiredIn (slot : Nat) (kind : Kind ElementId) :
    Upholds (Path.requiredIn version starts slot kind)
      (Path.requiredIn version starts' slot kind) := by
  have answered : ∀ id, Upholds (do return some (← starts id)) (do return some (← starts' id)) :=
    fun id => upholds_bind (begins id) fun _ => .refl _
  cases kind with
  | sequence slots =>
      refine upholds_bind (.refl _) fun later => ?_
      cases later.find? (Slot.isActive version) with
      | none => exact .refl _
      | some next => exact upholds_ite (.refl _) (answered _)
  | wrapper opening content closing repeated =>
      refine upholds_ite (.refl _) ?_
      match slot with
      | 0 => exact upholds_ite (upholds_ite (.refl _) (answered _)) (answered _)
      | 1 => exact answered _
      | _ + 2 => exact .refl _
  | iteration item separator => exact upholds_ite (answered _) (.refl _)
  | _ => exact .refl _

end Following

/-- No frame of the path has an answer, so that it is up to the frames around. -/
def Path.leavesOpen (kindOf : ElementId → Except Fault (Kind ElementId))
    (ask : Nat → Kind ElementId → Except Fault (Option Bool)) : Path → Bool
  | [] => true
  | frame :: outer =>
      match kindOf frame.element >>= ask frame.slot with
      | .ok none => leavesOpen kindOf ask outer
      | _ => false

namespace Grammar

/-! ### More rules -/

/-- The second grammar has the elements and the rules of the first, and perhaps more behind
them. -/
structure Extends (g h : Grammar) : Prop where
  vocabulary_eq : h.vocabulary = g.vocabulary
  elements : ∀ (id : ElementId) (element : Element ElementId),
    g.elements[id]? = some element → h.elements[id]? = some element
  rules : g.rules <+: h.rules

theorem Extends.refl (g : Grammar) : g.Extends g := ⟨rfl, fun _ _ found => found, List.prefix_rfl⟩

namespace Extends

variable {g h : Grammar} (more : g.Extends h)

include more

theorem element (id : ElementId) : Upholds (g.element id) (h.element id) := fun _ found =>
  element_eq_ok.2 (more.elements _ _ (element_eq_ok.1 found))

theorem kind?_eq {id : ElementId} {kind : Kind ElementId} (stands : g.kind? id = some kind) :
    h.kind? id = some kind := by
  obtain ⟨element, found, same⟩ := kind?_eq_some.1 stands
  exact kind?_eq_some.2 ⟨element, more.elements id element found, same⟩

theorem lt_size {id : ElementId} (bound : id < g.elements.size) : id < h.elements.size :=
  lt_of_kind?_eq_some (more.kind?_eq (kind?_of_lt bound))

/-! ### First sets -/

theorem ownTokens_eq {id : ElementId} (bound : id < g.elements.size) :
    FirstSets.ownTokens h id = FirstSets.ownTokens g id := by
  unfold FirstSets.ownTokens
  rw [kind?_of_lt bound, more.kind?_eq (kind?_of_lt bound), more.vocabulary_eq]

theorem enters {x y : ElementId} (entered : g.Enters x y) : h.Enters x y := by
  obtain ⟨kind, stands, entry⟩ := enters_iff.1 entered
  exact enters_iff.2 ⟨kind, more.kind?_eq stands, entry⟩

/-- What is entered from an element of the smaller grammar is entered there. -/
theorem enters_back {x y : ElementId} (bound : x < g.elements.size) (entered : h.Enters x y) :
    g.Enters x y := by
  obtain ⟨kind, stands, entry⟩ := enters_iff.1 entered
  have here := more.kind?_eq (kind?_of_lt bound)
  obtain rfl := Option.some.inj (here.symm.trans stands)
  exact enters_iff.2 ⟨_, kind?_of_lt bound, entry⟩

theorem requires {id : ElementId} {set : TokenSet} (requires : FirstSets.Requires g id set) :
    FirstSets.Requires h id set := by
  induction requires with
  | step stands _ ih => exact .step (more.kind?_eq stands) ih

theorem shaped {id : ElementId} {answer : Bool} (shaped : FirstSets.Shaped g id answer) :
    FirstSets.Shaped h id answer := by
  induction shaped with
  | step stands _ ih =>
      rw [← more.vocabulary_eq]
      exact .step (more.kind?_eq stands) ih

theorem reachable_iff (wellFormed : g.WellFormed) {id leaf : ElementId}
    (bound : id < g.elements.size) :
    Relation.ReflTransGen h.Enters id leaf ↔ Relation.ReflTransGen g.Enters id leaf := by
  constructor
  · intro path
    have inside : Relation.ReflTransGen g.Enters id leaf ∧ leaf < g.elements.size := by
      induction path with
      | refl => exact ⟨.refl, bound⟩
      | tail _ last ih =>
          have entered := more.enters_back ih.2 last
          exact ⟨ih.1.tail entered, wellFormed.enters_lt_size entered⟩
    exact inside.1
  · intro path
    exact Relation.ReflTransGen.mono (fun _ _ => more.enters) _ _ path

/-- **First sets do not depend on further rules.** -/
theorem ofElement_eq (wellFormed : g.WellFormed) (wellFormed' : h.WellFormed) {id : ElementId}
    (bound : id < g.elements.size) : FirstSets.ofElement h id = FirstSets.ofElement g id := by
  have plain := FirstSets.plain_ofElement wellFormed bound
  have plain' := FirstSets.plain_ofElement wellFormed' (more.lt_size bound)
  refine plain'.unique ⟨fun t => (plain.possible t).trans ?_, more.requires plain.required,
    more.shaped plain.shape⟩
  constructor
  · rintro ⟨leaf, path, own⟩
    have inside := FirstSets.lt_of_mem_ownTokens own
    exact ⟨leaf, (more.reachable_iff wellFormed bound).2 path,
      (more.ownTokens_eq inside).symm ▸ own⟩
  · rintro ⟨leaf, path, own⟩
    have path := (more.reachable_iff wellFormed bound).1 path
    have inside : leaf < g.elements.size := by
      rcases Relation.ReflTransGen.cases_tail path with rfl | ⟨_, _, last⟩
      · exact bound
      · exact wellFormed.enters_lt_size last
    exact ⟨leaf, path, more.ownTokens_eq inside ▸ own⟩

/-! ### What is asked while matching -/

section Asking

variable (wellFormed : g.WellFormed) (wellFormed' : h.WellFormed)

include wellFormed wellFormed'

theorem firstsOf (id : ElementId) : Upholds (g.firstsOf id) (h.firstsOf id) := by
  intro sets answered
  obtain ⟨element, found, same⟩ := bind_eq_ok.1 answered
  obtain rfl := pure_eq_ok.1 same
  have bound := lt_of_kind?_eq_some (kind?_of_element found)
  rw [firstsOf_of_lt (more.lt_size bound), more.ofElement_eq wellFormed wellFormed' bound]

theorem couldStart (token : TokenTypeId) (id : ElementId) :
    Upholds (g.couldStart token id) (h.couldStart token id) :=
  upholds_bind (more.firstsOf wellFormed wellFormed' id) fun _ => .refl _

theorem shouldStart (token : TokenTypeId) (id : ElementId) :
    Upholds (g.shouldStart token id) (h.shouldStart token id) :=
  upholds_bind (more.firstsOf wellFormed wellFormed' id) fun _ => .refl _

/-- The alternatives of an element of the smaller grammar are tried in the same order. -/
theorem tried_eq {id : ElementId} {kind : Kind ElementId} (stands : g.kind? id = some kind) :
    kind.tried h = kind.tried g := by
  cases kind with
  | oneOf alternatives sortable =>
      cases sortable with
      | false => rfl
      | true =>
          refine congrArg identifiersLast (List.map_congr_left fun slot member => ?_)
          have bound := wellFormed.part_lt_size stands (List.mem_map_of_mem member)
          rw [more.ofElement_eq wellFormed wellFormed' bound]
  | _ => rfl

theorem triedOf (id : ElementId) : Upholds (g.triedOf id) (h.triedOf id) := by
  intro order answered
  obtain ⟨element, found, same⟩ := bind_eq_ok.1 answered
  obtain rfl := pure_eq_ok.1 same
  rw [triedOf_of_kind? (more.kind?_eq (kind?_of_element found)),
    more.tried_eq wellFormed wellFormed' (kind?_of_element found)]

end Asking

/-! ### What follows a path -/

/-- Frames around make no difference if they have nothing to say, or are not asked. -/
theorem outward {ask ask' : Nat → Kind ElementId → Except Fault (Option Bool)}
    (asked : ∀ slot kind, Upholds (ask slot kind) (ask' slot kind)) {around : Path} (path : Path)
    (silent : path.leavesOpen g.kindAt ask = true →
      Path.outward h.kindAt ask' around = .ok false) :
    Upholds (Path.outward g.kindAt ask path) (Path.outward h.kindAt ask' (path ++ around)) := by
  induction path with
  | nil =>
      intro answer answered
      obtain rfl := pure_eq_ok.1 answered
      exact silent rfl
  | cons frame outer ih =>
      intro answer answered
      obtain ⟨kind, found, answered⟩ := bind_eq_ok.1 answered
      obtain ⟨here, told, answered⟩ := bind_eq_ok.1 answered
      have found' := upholds_bind (more.element _) (fun _ => .refl _) kind found
      have told' := asked _ _ here told
      refine bind_eq_ok.2 ⟨kind, found', bind_eq_ok.2 ⟨here, told', ?_⟩⟩
      cases here with
      | some settled => exact answered
      | none =>
          refine ih (fun opens => silent ?_) answer answered
          simp only [Path.leavesOpen, found, told, bind, Except.bind]
          exact opens

section Following

variable (wellFormed : g.WellFormed) (wellFormed' : h.WellFormed) {version : Nat}
  {token : TokenTypeId} {around : Path} (frame : Frame) (outer : Path)

include wellFormed wellFormed'

/-- **What may follow is the same**, as long as the frames around are not asked or have nothing to
say. -/
theorem mayFollow (silent :
      outer.leavesOpen g.kindAt (Path.possibleIn version (g.couldStart token)) = true →
        Path.outward h.kindAt (Path.possibleIn version (h.couldStart token)) around = .ok false) :
    Upholds (g.mayFollow version (frame :: outer) token)
      (h.mayFollow version (frame :: outer ++ around) token) :=
  more.outward (fun _ _ => upholds_possibleIn (more.couldStart wellFormed wellFormed' token) _ _)
    outer silent

/-- **What must follow is the same**, as long as the frames around have nothing to say. -/
theorem mustFollow (silent : Path.outward h.kindAt
      (Path.requiredIn version (h.shouldStart token)) around = .ok false) :
    Upholds (g.mustFollow version (frame :: outer) token)
      (h.mustFollow version (frame :: outer ++ around) token) :=
  more.outward (fun _ _ => upholds_requiredIn (more.shouldStart wellFormed wellFormed' token) _ _)
    outer fun _ => silent

end Following

/-- Frames around that are of another kind make no difference. -/
theorem nearest {kind : NodeKind} {around : Path} (other : Path.nearest h kind around = .ok none)
    (path : Path) : Upholds (Path.nearest g kind path) (Path.nearest h kind (path ++ around)) := by
  induction path with
  | nil =>
      intro answer answered
      obtain rfl := pure_eq_ok.1 answered
      exact other
  | cons frame outer ih =>
      rw [List.cons_append]
      unfold Path.nearest
      exact upholds_bind (more.element _) fun _ => upholds_ite (.refl _) ih

/-! ### What is missing -/

theorem target?_eq {id : ElementId} (bound : id < g.elements.size) :
    h.target? id = g.target? id := by
  unfold Grammar.target?
  rw [kind?_of_lt bound, more.kind?_eq (kind?_of_lt bound)]

/-- A chain of references that has come to its end is followed no further. -/
theorem follow_eq (wellFormed : g.WellFormed) {steps steps' : Nat} {id : ElementId}
    (bound : id < g.elements.size) (ends : g.target? (g.follow steps id) = none)
    (enough : steps ≤ steps') : h.follow steps' id = g.follow steps id := by
  induction steps generalizing steps' id with
  | zero =>
      cases steps' with
      | zero => rfl
      | succ steps' =>
          have here : h.target? id = none := (more.target?_eq bound).trans ends
          simp only [Grammar.follow, here]
  | succ steps ih =>
      obtain ⟨steps', rfl⟩ : ∃ further, steps' = further + 1 := ⟨steps' - 1, by omega⟩
      rw [Grammar.follow, Grammar.follow, more.target?_eq bound]
      rw [Grammar.follow] at ends
      cases found : g.target? id with
      | none => rfl
      | some target =>
          rw [found] at ends
          have stands := target?_eq_some.1 found
          exact ih (wellFormed.part_lt_size stands (List.mem_singleton_self _)) ends
            (Nat.le_of_succ_le_succ enough)

section Messages

variable (wellFormed : g.WellFormed)

include wellFormed

theorem resolve_eq {id : ElementId} (bound : id < g.elements.size) : h.resolve id = g.resolve id :=
  more.follow_eq wellFormed bound (target?_resolve wellFormed id)
    (Nat.succ_le_succ more.rules.length_le)

theorem matching (id : ElementId) : Upholds (g.matching id) (h.matching id) := by
  intro element answered
  obtain ⟨_, found, matched⟩ := bind_eq_ok.1 answered
  have bound := lt_of_kind?_eq_some (kind?_of_element found)
  refine bind_eq_ok.2 ⟨_, more.element _ _ found, ?_⟩
  rw [more.resolve_eq wellFormed bound]
  exact more.element _ _ matched

theorem describe (id : ElementId) : Upholds (g.describe id) (h.describe id) := by
  unfold Grammar.describe
  rw [more.vocabulary_eq]
  exact upholds_bind (more.matching wellFormed id) fun _ => .refl _

theorem missingCode (id : ElementId) : Upholds (g.missingCode id) (h.missingCode id) :=
  upholds_bind (more.matching wellFormed id) fun _ => .refl _

theorem reservedWordHint (id : ElementId) (found : Token) :
    Upholds (g.reservedWordHint id found) (h.reservedWordHint id found) := by
  unfold Grammar.reservedWordHint
  rw [more.vocabulary_eq]
  refine upholds_bind (.refl _) fun _ => upholds_ite (.refl _) ?_
  exact upholds_bind (more.matching wellFormed id) fun _ => .refl _

/-- An element of the smaller grammar is reported missing in the same words. -/
theorem missing {c c' : Cursor} (range : c'.currentRange = c.currentRange)
    (current : c'.current? = c.current?) (code : DiagnosticCode) (id : ElementId) :
    Upholds (c.missing g code id) (c'.missing h code id) := by
  unfold Cursor.missing
  rw [range, current]
  refine upholds_bind (.refl _) fun _ => upholds_bind (more.describe wellFormed id) fun _ => ?_
  cases c.current? with
  | none => exact .refl _
  | some token =>
      exact upholds_bind (more.reservedWordHint wellFormed id token) fun _ => .refl _

end Messages

end Extends

end Grammar

end Dialect
