import Dialect.Prediction.Predictor
import Dialect.Proofs.Prediction.FirstSets

/-!
# Answers that do not depend on the memo

A memo is faithful when it remembers nothing but what would be computed.  A question
has an answer (`Answers`) when it is given whatever faithful memo it is asked with, and
the memo it leaves is faithful again.  Predictions that are remembered answer what
predictions computed afresh do (`remembering_reliable`, `direct_reliable`).
-/

set_option autoImplicit false

namespace Dialect

/-- The slots in the order in which they are tried: alternatives that may begin with an
identifier come last in a sortable choice. -/
def Kind.tried (g : Grammar) : Kind ElementId → List (Slot ElementId)
  | .sequence slots => slots
  | .oneOf alternatives false => alternatives
  | .oneOf alternatives true =>
      identifiersLast (alternatives.map fun slot =>
        (slot, (FirstSets.ofElement g slot.item).identifierShaped))
  | _ => []

theorem mem_identifiersLast {shaped : List (Slot ElementId × Bool)} {slot : Slot ElementId} :
    slot ∈ identifiersLast shaped ↔ ∃ shape, (slot, shape) ∈ shaped := by
  simp [identifiersLast]

/-- The order of alternatives, written out. -/
theorem identifiersLast_map (alternatives : List (Slot ElementId)) (shaped : Slot ElementId → Bool) :
    identifiersLast (alternatives.map fun slot => (slot, shaped slot)) =
      alternatives.filter (fun slot => !shaped slot) ++ alternatives.filter shaped := by
  unfold identifiersLast
  rw [List.filter_map, List.filter_map, ← List.map_append, List.map_map]
  exact List.map_id _

/-- Trying alternatives in order leaves none out. -/
theorem Kind.mem_tried {g : Grammar} {alternatives : List (Slot ElementId)} {sortable : Bool}
    {slot : Slot ElementId} :
    slot ∈ (Kind.oneOf alternatives sortable).tried g ↔ slot ∈ alternatives := by
  cases sortable with
  | false => rfl
  | true => simp [Kind.tried, mem_identifiersLast]

/-- Nothing is remembered but what would be computed. -/
structure Memo.Faithful (g : Grammar) (memo : Memo) : Prop where
  firsts : FirstSets.Known g memo.firsts?
  orders : ∀ id order, memo.order? id = some order →
    ∃ kind, g.kind? id = some kind ∧ order = kind.tried g

/-- The question has this answer with every faithful memo. -/
def Answers {α : Type} (g : Grammar) (query : Query α) (answer : Except Fault α) : Prop :=
  ∀ memo, memo.Faithful g → ∃ after, after.Faithful g ∧
    query memo = match answer with
      | .ok value => .ok value after
      | .error fault => .error fault after

/-- What a question is answered with a memo. -/
def answerWith {α : Type} (query : Query α) (memo : Memo) : Except Fault α :=
  match query memo with
  | .ok value _ => .ok value
  | .error fault _ => .error fault

/-- A question that has an answer leaves some memo. -/
theorem answerWith_eq_ok {α : Type} {query : Query α} {memo : Memo} {value : α} :
    answerWith query memo = .ok value ↔ ∃ after, query memo = .ok value after := by
  unfold answerWith
  cases query memo <;> simp

/-- The memo that a question leaves. -/
def memoAfter {α : Type} (query : Query α) (memo : Memo) : Memo :=
  match query memo with
  | .ok _ after => after
  | .error _ after => after

section Answers

variable {g : Grammar} {α β : Type}

theorem Answers.answerWith_eq {query : Query α} {answer : Except Fault α}
    (answers : Answers g query answer) {memo : Memo} (faithful : memo.Faithful g) :
    answerWith query memo = answer := by
  obtain ⟨after, -, ran⟩ := answers memo faithful
  cases answer <;> simp only [answerWith, ran]

theorem Answers.memoAfter_faithful {query : Query α} {answer : Except Fault α}
    (answers : Answers g query answer) {memo : Memo} (faithful : memo.Faithful g) :
    (memoAfter query memo).Faithful g := by
  obtain ⟨after, kept, ran⟩ := answers memo faithful
  cases answer <;> simpa only [memoAfter, ran] using kept

theorem answers_pure (value : α) : Answers g (pure value) (pure value) :=
  fun memo faithful => ⟨memo, faithful, rfl⟩

theorem answers_lift (answer : Except Fault α) : Answers g (liftM answer) answer := by
  intro memo faithful
  cases answer with
  | ok value => exact ⟨memo, faithful, rfl⟩
  | error fault => exact ⟨memo, faithful, rfl⟩

theorem answers_bind {query : Query α} {answer : Except Fault α} {next : α → Query β}
    {nextAnswer : α → Except Fault β} (first : Answers g query answer)
    (second : ∀ value, Answers g (next value) (nextAnswer value)) :
    Answers g (query >>= next) (answer >>= nextAnswer) := by
  intro memo faithful
  obtain ⟨middle, kept, ran⟩ := first memo faithful
  cases answer with
  | error fault =>
      refine ⟨middle, kept, ?_⟩
      simp only [bind, EStateM.bind, ran, Except.bind]
  | ok value =>
      obtain ⟨after, keptAfter, ranNext⟩ := second value middle kept
      refine ⟨after, keptAfter, ?_⟩
      simp only [bind, EStateM.bind, ran, Except.bind]
      exact ranNext

/-- Goes on after something that needs no memo, with what it has given. -/
theorem answers_bind_lift {answer : Except Fault α} {next : α → Query β}
    {nextAnswer : α → Except Fault β}
    (second : ∀ value, answer = .ok value → Answers g (next value) (nextAnswer value)) :
    Answers g (liftM answer >>= next) (answer >>= nextAnswer) := by
  cases answer with
  | error fault => exact fun memo faithful => ⟨memo, faithful, rfl⟩
  | ok value => exact second value rfl

theorem answers_ite {c : Prop} [Decidable c] {query query' : Query α}
    {answer answer' : Except Fault α} (first : Answers g query answer)
    (second : Answers g query' answer') :
    Answers g (if c then query else query') (if c then answer else answer') := by
  split
  · exact first
  · exact second

/-- One question about each item of a list. -/
theorem answers_mapM {γ : Type} {query : γ → Query α} {answer : γ → Except Fault α} {items : List γ}
    (each : ∀ item ∈ items, Answers g (query item) (answer item)) :
    Answers g (items.mapM query) (items.mapM answer) := by
  induction items with
  | nil =>
      rw [List.mapM_nil, List.mapM_nil]
      exact answers_pure _
  | cons item rest ih =>
      rw [List.mapM_cons, List.mapM_cons]
      have others := ih fun other member => each other (List.mem_cons_of_mem _ member)
      exact answers_bind (each item List.mem_cons_self) fun value =>
        answers_bind others fun values => answers_pure (value :: values)

end Answers

namespace Memo

variable {g : Grammar} {memo : Memo}

theorem blank_faithful (g : Grammar) : g.blankMemo.Faithful g := by
  have blank : ∀ {β : Type} (id : Nat), (Array.replicate g.elements.size (none : Option β))[id]?.join
      = none := by
    intro β id
    rw [Array.getElem?_replicate]
    split <;> rfl
  refine ⟨fun id sets found => ?_, fun id order found => ?_⟩
  · rw [Memo.firsts?, Grammar.blankMemo, blank] at found
    cases found
  · rw [Memo.order?, Grammar.blankMemo, blank] at found
    cases found

theorem eq_of_join_setIfInBounds {β : Type} {entries : Array (Option β)} {id other : Nat}
    {value found : β} (stands : (entries.setIfInBounds id (some value))[other]?.join = some found) :
    other = id ∧ found = value ∨ entries[other]?.join = some found := by
  rw [Array.getElem?_setIfInBounds] at stands
  split at stands
  · rename_i same
    split at stands
    · exact Or.inl ⟨same.symm, by simpa using stands.symm⟩
    · cases stands
  · exact Or.inr stands

theorem Faithful.rememberFirsts (faithful : memo.Faithful g) {id : ElementId}
    (bound : id < g.elements.size) :
    (memo.rememberFirsts id (FirstSets.ofElement g id)).Faithful g := by
  refine ⟨fun other sets found => ?_, faithful.orders⟩
  rcases eq_of_join_setIfInBounds found with ⟨rfl, rfl⟩ | before
  · exact ⟨bound, rfl⟩
  · exact faithful.firsts other sets before

theorem Faithful.rememberOrder (faithful : memo.Faithful g) {id : ElementId}
    {kind : Kind ElementId} (stands : g.kind? id = some kind) :
    (memo.rememberOrder id (kind.tried g)).Faithful g := by
  refine ⟨faithful.firsts, fun other order found => ?_⟩
  rcases eq_of_join_setIfInBounds found with ⟨rfl, rfl⟩ | before
  · exact ⟨kind, stands, rfl⟩
  · exact faithful.orders other order before

end Memo

/-! ### Predictors -/

namespace Grammar

variable (g : Grammar)

/-- The first sets of an element of the grammar. -/
def firstsOf (id : ElementId) : Except Fault FirstSets := do
  let _ ← g.element id
  return FirstSets.ofElement g id

/-- The slots of an element of the grammar in the order in which they are tried. -/
def triedOf (id : ElementId) : Except Fault (List (Slot ElementId)) := do
  return (← g.element id).kind.tried g

end Grammar

/-- The predictor answers what follows from the grammar alone. -/
structure Predictor.Reliable (predictor : Predictor) (g : Grammar) : Prop where
  firsts : ∀ id, Answers g (predictor.firsts id) (g.firstsOf id)
  children : ∀ id, Answers g (predictor.children id) (g.triedOf id)

section Reliable

variable {g : Grammar}

theorem element_eq_ok {id : ElementId} {element : Element ElementId} :
    g.element id = .ok element ↔ g.elements[id]? = some element := by
  unfold Grammar.element
  cases found : g.elements[id]? <;> simp

theorem kind?_of_element {id : ElementId} {element : Element ElementId}
    (found : g.element id = .ok element) : g.kind? id = some element.kind := by
  rw [Grammar.kind?, element_eq_ok.1 found]
  rfl

theorem answers_firsts (wellFormed : g.WellFormed) (id : ElementId) :
    Answers g (g.firsts id) (g.firstsOf id) := by
  unfold Grammar.firsts Grammar.firstsOf
  refine answers_bind_lift fun element found => ?_
  intro memo faithful
  have bound : id < g.elements.size := Grammar.lt_of_kind?_eq_some (kind?_of_element found)
  cases remembered : memo.firsts? id with
  | some sets =>
      obtain ⟨-, rfl⟩ := faithful.firsts id sets remembered
      refine ⟨memo, faithful, ?_⟩
      simp only [bind_apply, get_apply, remembered, pure_apply]
      rfl
  | none =>
      have computed := FirstSets.compute_eq_ofElement wellFormed faithful.firsts bound
      refine ⟨_, faithful.rememberFirsts bound, ?_⟩
      simp only [bind_apply, get_apply, set_apply, remembered, computed, pure_apply]
      rfl

theorem element_of_lt {id : ElementId} (bound : id < g.elements.size) :
    ∃ element, g.element id = .ok element :=
  ⟨_, element_eq_ok.2 (Array.getElem?_eq_getElem bound)⟩

theorem element_of_kind? {id : ElementId} {kind : Kind ElementId} (stands : g.kind? id = some kind) :
    ∃ element, g.element id = .ok element ∧ element.kind = kind := by
  obtain ⟨element, found⟩ := element_of_lt (Grammar.lt_of_kind?_eq_some stands)
  exact ⟨element, found, Option.some.inj ((kind?_of_element found).symm.trans stands)⟩

theorem Grammar.firstsOf_of_lt {id : ElementId} (bound : id < g.elements.size) :
    g.firstsOf id = .ok (FirstSets.ofElement g id) := by
  obtain ⟨element, found⟩ := element_of_lt bound
  rw [Grammar.firstsOf, found]
  rfl

theorem Grammar.triedOf_of_kind? {id : ElementId} {kind : Kind ElementId}
    (stands : g.kind? id = some kind) : g.triedOf id = .ok (kind.tried g) := by
  obtain ⟨element, found, rfl⟩ := element_of_kind? stands
  rw [Grammar.triedOf, found]
  rfl

/-- Whether each of some elements may begin with an identifier is answered by the first
sets. -/
theorem answers_shapes (wellFormed : g.WellFormed) {alternatives : List (Slot ElementId)}
    (inside : ∀ slot ∈ alternatives, slot.item < g.elements.size) :
    Answers g
      (alternatives.mapM fun slot => do return (slot, (← g.firsts slot.item).identifierShaped))
      (.ok (alternatives.map fun slot =>
        (slot, (FirstSets.ofElement g slot.item).identifierShaped))) := by
  have each : ∀ slot ∈ alternatives,
      Answers g (do return (slot, (← g.firsts slot.item).identifierShaped))
        (pure (slot, (FirstSets.ofElement g slot.item).identifierShaped)) := by
    intro slot member
    have answered := answers_bind (answers_firsts wellFormed slot.item)
      fun sets => answers_pure (slot, sets.identifierShaped)
    rwa [Grammar.firstsOf_of_lt (inside slot member)] at answered
  have all := answers_mapM each
  rwa [List.mapM_pure] at all

theorem answers_children (wellFormed : g.WellFormed) (id : ElementId) :
    Answers g (g.children id) (g.triedOf id) := by
  unfold Grammar.children Grammar.triedOf
  refine answers_bind_lift fun element found => ?_
  have stands : g.kind? id = some element.kind := kind?_of_element found
  cases kind : element.kind with
  | oneOf alternatives sortable =>
      cases sortable with
      | false => exact answers_pure _
      | true =>
          rw [kind] at stands
          intro memo faithful
          -- An order that is remembered was found for this choice, so it is the same.
          cases remembered : memo.order? id with
          | some order =>
              obtain ⟨other, standsToo, rfl⟩ := faithful.orders id order remembered
              obtain rfl := Option.some.inj (stands.symm.trans standsToo)
              refine ⟨memo, faithful, ?_⟩
              simp only [bind_apply, get_apply, remembered, pure_apply]
              rfl
          | none =>
              have inside : ∀ slot ∈ alternatives, slot.item < g.elements.size := fun slot member =>
                Grammar.lt_of_isSome ((wellFormed.placed id _ stands) slot member).2
              obtain ⟨middle, kept, ran⟩ := answers_shapes wellFormed inside memo faithful
              refine ⟨_, kept.rememberOrder stands, ?_⟩
              simp only [bind_apply, get_apply, remembered, ran, modify_apply, pure_apply]
              rfl
  | _ => exact answers_pure _

/-- **Remembered predictions are right.** -/
theorem remembering_reliable (wellFormed : g.WellFormed) :
    (Predictor.remembering g).Reliable g :=
  ⟨answers_firsts wellFormed, answers_children wellFormed⟩

/-- **Computed predictions are right.** -/
theorem direct_reliable : (Predictor.direct g).Reliable g := by
  refine ⟨fun id => answers_bind (answers_lift _) fun _ => answers_pure _, fun id => ?_⟩
  refine answers_bind (answers_lift _) fun element => ?_
  cases element.kind with
  | oneOf alternatives sortable => cases sortable <;> exact answers_pure _
  | _ => exact answers_pure _

end Reliable

end Dialect
