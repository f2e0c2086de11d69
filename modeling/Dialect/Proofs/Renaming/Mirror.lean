import Dialect.Proofs.Matching.Contract
import Dialect.Proofs.Renaming.Prediction

/-!
# Parses that mirror each other

Two parses mirror each other when the second goes through the states of the first with other
names: elements are renamed, and tokens may have other indices in the input (`Mirror`).  Their
memos have nothing to do with each other; both are faithful.

`Mirror.Reflects` says of two steps that from mirrored states they come to mirrored results, be
it a value or a fault.  There is one rule for each way to put steps together and for each move of
the cursor.
-/

set_option autoImplicit false

namespace Dialect

/-! ### States that mirror each other -/

/-- The event with elements and indices renamed. -/
def Event.rename (σ : ElementId → ElementId) (index : Nat → Nat) : Event → Event
  | .tombstone => .tombstone
  | .start element first => .start (σ element) (index first)
  | .token place => .token (index place)
  | .finish => .finish
  | .diagnostic found => .diagnostic found

/-- The attempt with elements and indices renamed. -/
def Snapshot.rename (σ : ElementId → ElementId) (index : Nat → Nat) (snapshot : Snapshot) : Snapshot :=
  { snapshot with events := snapshot.events.map (Event.rename σ index) }

/-- Two parses, and what is renamed from the first to the second. -/
structure Mirror where
  source : Setting
  target : Setting
  input : Input
  input' : Input
  element : ElementId → ElementId
  index : Nat → Nat

namespace Mirror

variable (m : Mirror)

/-- The two cursors are at the same place of their inputs, with the same record but for names. -/
structure Cursors (c c' : Cursor) : Prop where
  reads : c.input = m.input
  reads' : c'.input = m.input'
  position_eq : c'.position = c.position
  marks_eq : c'.openMarks = c.openMarks
  events_eq : c'.events = c.events.map (Event.rename m.element m.index)

/-- The two states differ at most in names and in what is remembered, which is right in both. -/
structure States (p q : Progress) : Prop where
  cursors : m.Cursors p.cursor q.cursor
  same : q = { p with cursor := q.cursor, memo := q.memo }
  faithful : p.memo.Faithful m.source.grammar
  faithful' : q.memo.Faithful m.target.grammar

/-- The inputs show the same, in the same order. -/
structure Inputs : Prop where
  size_eq : m.input'.size = m.input.size
  token_eq : ∀ k, m.input'.token? k = m.input.token? k
  placeholder_eq : m.input'.placeholder = m.input.placeholder
  last_eq : m.input'.tokens.back? = m.input.tokens.back?
  index_eq : ∀ k, m.input'.indexAt k = m.index (m.input.indexAt k)

/-- Two steps come to results that go together. -/
inductive Results {α β : Type} (related : α → β → Prop) :
    EStateM.Result Fault Progress α → EStateM.Result Fault Progress β → Prop
  | ok {value value' p q} (holds : related value value') (states : m.States p q) :
      Results related (.ok value p) (.ok value' q)
  | error {fault p q} (states : m.States p q) : Results related (.error fault p) (.error fault q)

/-- From states that mirror each other two steps come to results that go together. -/
def Reflects {α β : Type} (related : α → β → Prop) (step : Matcher α) (step' : Matcher β) : Prop :=
  ∀ p q, m.States p q → m.Results related (step p) (step' q)

/-- Two moves of the cursor come to results that go together. -/
inductive Moved {α β : Type} (related : α → β → Prop) :
    EStateM.Result Fault Cursor α → EStateM.Result Fault Cursor β → Prop
  | ok {value value' c c'} (holds : related value value') (cursors : m.Cursors c c') :
      Moved related (.ok value c) (.ok value' c')
  | error {fault c c'} (cursors : m.Cursors c c') : Moved related (.error fault c) (.error fault c')

/-- From cursors that mirror each other two moves come to results that go together. -/
def Moves {α β : Type} (related : α → β → Prop) (move : Cursor.Step α) (move' : Cursor.Step β) :
    Prop :=
  ∀ c c', m.Cursors c c' → m.Moved related (move c) (move' c')

section Rules

variable {m} {α β γ δ : Type} {related : α → β → Prop} {others : γ → δ → Prop}
  {step : Matcher α} {step' : Matcher β}

/-! ### Putting steps together -/

theorem reflects_pure {value : α} {value' : β} (holds : related value value') :
    m.Reflects related (pure value) (pure value') :=
  fun _ _ states => .ok holds states

theorem reflects_throw (fault : Fault) :
    m.Reflects related (throw fault : Matcher α) (throw fault : Matcher β) :=
  fun _ _ states => .error states

theorem reflects_bind {next : α → Matcher γ} {next' : β → Matcher δ}
    (first : m.Reflects related step step')
    (second : ∀ value value', related value value' → m.Reflects others (next value) (next' value')) :
    m.Reflects others (step >>= next) (step' >>= next') := by
  intro p q states
  have both := first p q states
  rw [bind_apply, bind_apply]
  generalize step p = result, step' q = result' at both
  cases both with
  | error after => exact .error after
  | @ok value value' r t holds after =>
      exact second value value' holds r t after

/-- Going on after steps that come to the same. -/
theorem reflects_bind_eq {step step' : Matcher α} {next : α → Matcher γ} {next' : α → Matcher δ}
    (first : m.Reflects Eq step step')
    (second : ∀ value, m.Reflects others (next value) (next' value)) :
    m.Reflects others (step >>= next) (step' >>= next') := by
  refine reflects_bind first fun value value' same => ?_
  subst same
  exact second value

theorem reflects_map {step step' : Matcher α} (f : α → γ) (first : m.Reflects Eq step step') :
    m.Reflects Eq (f <$> step) (f <$> step') := by
  rw [map_eq_pure_bind, map_eq_pure_bind]
  exact reflects_bind_eq first fun _ => reflects_pure rfl

theorem reflects_ite {c : Prop} [Decidable c] {other : Matcher α} {other' : Matcher β}
    (first : m.Reflects related step step') (second : m.Reflects related other other') :
    m.Reflects related (if c then step else other) (if c then step' else other') := by
  split
  · exact first
  · exact second

/-- What is done with the state depends on neither names nor what is remembered. -/
theorem reflects_get {next : Progress → Matcher α} {next' : Progress → Matcher β}
    (reflects : ∀ p q, m.States p q → m.Results related (next p p) (next' q q)) :
    m.Reflects related (get >>= next) (get >>= next') := reflects

theorem reflects_cursor : m.Reflects m.Cursors Matcher.cursor Matcher.cursor :=
  fun _ _ states => .ok states.cursors states

/-- Checks that come to the same. -/
theorem reflects_check {answer : Except Fault α} {answer' : Except Fault α}
    (same : answer' = answer) :
    m.Reflects Eq (liftM answer : Matcher α) (liftM answer' : Matcher α) := by
  intro p q states
  subst same
  cases answer' with
  | ok value => exact .ok rfl states
  | error fault => exact .error states

/-- Checks that find values that go together. -/
theorem reflects_found {answer : Except Fault α} {answer' : Except Fault β}
    (found : (∃ value value', answer = .ok value ∧ answer' = .ok value' ∧ related value value') ∨
      ∃ fault, answer = .error fault ∧ answer' = .error fault) :
    m.Reflects related (liftM answer : Matcher α) (liftM answer' : Matcher β) := by
  intro p q states
  rcases found with ⟨value, value', rfl, rfl, holds⟩ | ⟨fault, rfl, rfl⟩
  · exact .ok holds states
  · exact .error states

theorem reflects_move {move : Cursor.Step α} {move' : Cursor.Step β} (moves : m.Moves related move move') :
    m.Reflects related (liftM move : Matcher α) (liftM move' : Matcher β) := by
  rintro ⟨c, depth, scan, waved, failure, memo⟩ ⟨c', depth', scan', waved', failure', memo'⟩
    ⟨cursors, same, faithful, faithful'⟩
  obtain ⟨rfl, rfl, rfl, rfl⟩ :
      depth' = depth ∧ scan' = scan ∧ waved' = waved ∧ failure' = failure := by
    simpa using same
  have moved := moves c c' cursors
  simp only [liftM, monadLift, MonadLift.monadLift]
  generalize move c = result, move' c' = result' at moved
  cases moved with
  | ok holds cursors => exact .ok holds ⟨cursors, rfl, faithful, faithful'⟩
  | error cursors => exact .error ⟨cursors, rfl, faithful, faithful'⟩

/-- Questions that have answers that go together. -/
theorem reflects_query {query : Query α} {query' : Query β} {answer : Except Fault α}
    {answer' : Except Fault β} (answers : Answers m.source.grammar query answer)
    (answers' : Answers m.target.grammar query' answer')
    (found : (∃ value value', answer = .ok value ∧ answer' = .ok value' ∧ related value value') ∨
      ∃ fault, answer = .error fault ∧ answer' = .error fault) :
    m.Reflects related (liftM query : Matcher α) (liftM query') := by
  rintro p q ⟨cursors, same, faithful, faithful'⟩
  obtain ⟨after, kept, ran⟩ := answers p.memo faithful
  obtain ⟨after', kept', ran'⟩ := answers' q.memo faithful'
  rcases found with ⟨value, value', rfl, rfl, holds⟩ | ⟨fault, rfl, rfl⟩
  · rw [query_eq ran, query_eq ran']
    exact .ok holds ⟨cursors, by rw [same], kept, kept'⟩
  · rw [query_eq_error ran, query_eq_error ran']
    exact .error ⟨cursors, by rw [same], kept, kept'⟩

/-- Questions that have the same answer. -/
theorem reflects_query_eq {query query' : Query α} {answer answer' : Except Fault α}
    (answers : Answers m.source.grammar query answer)
    (answers' : Answers m.target.grammar query' answer') (same : answer' = answer) :
    m.Reflects Eq (liftM query : Matcher α) (liftM query') := by
  refine reflects_query answers answers' ?_
  subst same
  cases answer' with
  | ok value => exact Or.inl ⟨value, value, rfl, rfl, rfl⟩
  | error fault => exact Or.inr ⟨fault, rfl, rfl⟩

/-- Going on after questions that are answered. -/
theorem reflects_bind_query {query : Query α} {query' : Query β} {value : α} {value' : β}
    {next : α → Matcher γ} {next' : β → Matcher δ}
    (answers : Answers m.source.grammar query (.ok value))
    (answers' : Answers m.target.grammar query' (.ok value'))
    (second : m.Reflects others (next value) (next' value')) :
    m.Reflects others (liftM query >>= next) (liftM query' >>= next') := by
  have asked : m.Reflects (fun a b => a = value ∧ b = value') (liftM query : Matcher α)
      (liftM query') :=
    reflects_query answers answers' (Or.inl ⟨value, value', rfl, rfl, rfl, rfl⟩)
  refine reflects_bind asked ?_
  rintro _ _ ⟨rfl, rfl⟩
  exact second

end Rules

/-! ### What cursors show -/

namespace Cursors

variable {m} {c c' : Cursor} (cursors : m.Cursors c c')

include cursors

theorem record_size : c'.events.size = c.events.size := by
  rw [cursors.events_eq, Array.size_map]

variable (inputs : m.Inputs)

include inputs

theorem peek?_eq (n : Nat) : c'.peek? n = c.peek? n := by
  have shown : ∀ {c : Cursor} {input : Input}, c.input = input →
      c.peek? n = input.token? (c.position + n) := by
    rintro c _ rfl
    rfl
  rw [shown cursors.reads, shown cursors.reads', cursors.position_eq, inputs.token_eq]

theorem current?_eq : c'.current? = c.current? := cursors.peek?_eq inputs 0

theorem atPlaceholder_eq : c'.atPlaceholder = c.atPlaceholder := by
  have placeholder : c'.placeholder = c.placeholder := by
    have shown := inputs.placeholder_eq
    rwa [← cursors.reads, ← cursors.reads'] at shown
  unfold Cursor.atPlaceholder
  rw [placeholder, cursors.current?_eq inputs]

theorem endOffset_eq : c'.endOffset = c.endOffset := by
  have last : c'.tokens.back? = c.tokens.back? := by
    have shown := inputs.last_eq
    rwa [← cursors.reads, ← cursors.reads'] at shown
  unfold Cursor.endOffset
  rw [last]

theorem currentRange_eq : c'.currentRange = c.currentRange := by
  unfold Cursor.currentRange
  rw [cursors.current?_eq inputs, cursors.endOffset_eq inputs]

theorem remaining_eq : c'.remaining = c.remaining := by
  have size : c'.size = c.size := by
    have shown := inputs.size_eq
    rwa [← cursors.reads, ← cursors.reads'] at shown
  unfold Cursor.remaining
  rw [size, cursors.position_eq]

/-- The index of the token at a position is renamed. -/
theorem indexAt_eq (k : Nat) :
    c'.significant[k]?.getD c'.tokens.size = m.index (c.significant[k]?.getD c.tokens.size) := by
  have shown := inputs.index_eq k
  rwa [← cursors.reads, ← cursors.reads'] at shown

end Cursors

/-! ### Moves -/

section Moves

variable {m} {α β γ δ : Type} {related : α → β → Prop} {others : γ → δ → Prop}

theorem moves_bind {move : Cursor.Step α} {move' : Cursor.Step β} {next : α → Cursor.Step γ}
    {next' : β → Cursor.Step δ} (first : m.Moves related move move')
    (second : ∀ value value', related value value' → m.Moves others (next value) (next' value')) :
    m.Moves others (move >>= next) (move' >>= next') := by
  intro c c' cursors
  have both := first c c' cursors
  rw [bind_apply, bind_apply]
  generalize move c = result, move' c' = result' at both
  cases both with
  | error after => exact .error after
  | ok holds after => exact second _ _ holds _ _ after

/-- What is done with the cursor may depend on all that mirrored cursors have in common. -/
theorem moves_get {next : Cursor → Cursor.Step α} {next' : Cursor → Cursor.Step β}
    (moves : ∀ c c', m.Cursors c c' → m.Moved related (next c c) (next' c' c')) :
    m.Moves related (get >>= next) (get >>= next') := moves

theorem moves_modify {change change' : Cursor → Cursor}
    (changes : ∀ c c', m.Cursors c c' → m.Cursors (change c) (change' c')) :
    m.Moves Eq (modify change) (modify change') :=
  fun c c' cursors => .ok rfl (changes c c' cursors)

theorem moves_handBack : m.Moves Eq Cursor.handBack Cursor.handBack := by
  intro c c' cursors
  simp only [Cursor.handBack, bind_apply, get_apply, cursors.marks_eq]
  by_cases none : c.openMarks = 0
  · simp only [none, if_true]
    exact .error cursors
  · simp only [none, if_false]
    exact .ok rfl { cursors with marks_eq := congrArg (· - 1) cursors.marks_eq }

theorem moves_mark : m.Moves Eq Cursor.mark Cursor.mark := by
  intro c c' cursors
  rw [Cursor.mark_eq, Cursor.mark_eq]
  refine .ok ?_ { cursors with marks_eq := congrArg (· + 1) cursors.marks_eq, events_eq := ?_ }
  · rw [Cursor.place, Cursor.place, cursors.position_eq, cursors.record_size]
  · change c'.events.push .tombstone = (c.events.push .tombstone).map _
    rw [cursors.events_eq, Array.map_push]
    rfl

theorem moves_release (mark : Mark) : m.Moves Eq (Cursor.release mark) (Cursor.release mark) :=
  moves_handBack

/-- Going back to a mark forgets the same part of both records. -/
theorem Cursors.shrink {c c' : Cursor} (cursors : m.Cursors c c') (position count : Nat) :
    m.Cursors { c with position, events := c.events.shrink count }
      { c' with position, events := c'.events.shrink count } := by
  refine { cursors with position_eq := rfl, events_eq := ?_ }
  apply Array.toList_inj.1
  simp only [cursors.events_eq, Array.toList_shrink, Array.toList_map, List.map_take]

theorem moves_rollback (mark : Mark) : m.Moves Eq (Cursor.rollback mark) (Cursor.rollback mark) :=
  moves_bind moves_handBack fun _ _ _ =>
    moves_modify fun _ _ cursors => cursors.shrink mark.position mark.event

/-- The attempt is the renamed one. -/
def Taken (m : Mirror) (snapshot snapshot' : Snapshot) : Prop :=
  snapshot' = snapshot.rename m.element m.index

theorem moves_takeBack (mark : Mark) :
    m.Moves m.Taken (Cursor.takeBack mark) (Cursor.takeBack mark) := by
  refine moves_get fun c c' cursors => ?_
  rw [cursors.record_size]
  by_cases stale : c.events.size < mark.event
  · simp only [if_pos stale]
    exact .error cursors
  · simp only [if_neg stale]
    refine moves_bind moves_handBack (fun _ _ _ => ?_) c c' cursors
    intro c c' cursors
    refine .ok ?_ (cursors.shrink mark.position mark.event)
    simp only [Taken, Snapshot.rename, cursors.position_eq, cursors.events_eq, Array.size_map,
      Array.map_extract]

theorem moves_restore {snapshot snapshot' : Snapshot} (taken : m.Taken snapshot snapshot') :
    m.Moves Eq (Cursor.restore snapshot) (Cursor.restore snapshot') := by
  refine moves_get fun c c' cursors => ?_
  obtain rfl := taken
  have same : (c'.position ≠ (snapshot.rename m.element m.index).start ∨
      c'.events.size ≠ (snapshot.rename m.element m.index).event) ↔
        (c.position ≠ snapshot.start ∨ c.events.size ≠ snapshot.event) := by
    rw [cursors.record_size, cursors.position_eq]
    rfl
  by_cases strayed : c.position ≠ snapshot.start ∨ c.events.size ≠ snapshot.event
  · simp only [if_pos strayed, if_pos (same.2 strayed)]
    exact .error cursors
  · simp only [if_neg strayed, if_neg (mt same.1 strayed)]
    refine .ok rfl { cursors with position_eq := rfl, events_eq := ?_ }
    rw [cursors.events_eq, Array.map_append]
    rfl

theorem moves_report (diagnostic : Diagnostic) :
    m.Moves Eq (Cursor.report diagnostic) (Cursor.report diagnostic) := by
  refine moves_modify fun c c' cursors => { cursors with events_eq := ?_ }
  rw [cursors.events_eq, Array.map_push]
  rfl

theorem amendFirst_rename (change : Diagnostic → Diagnostic) (events : List Event) :
    Event.amendFirst change (events.map (Event.rename m.element m.index)) =
      (Event.amendFirst change events).map (Event.rename m.element m.index) := by
  induction events with
  | nil => rfl
  | cons event rest ih =>
      cases event with
      | diagnostic found => rfl
      | _ => exact congrArg (_ :: ·) ih

theorem moves_annotate (related : Related) :
    m.Moves Eq (Cursor.annotate related) (Cursor.annotate related) := by
  refine moves_modify fun c c' cursors => { cursors with events_eq := ?_ }
  apply Array.toList_inj.1
  simp only [Event.amendLatest, cursors.events_eq, Array.toList_map, ← List.map_reverse,
    amendFirst_rename]

variable (inputs : m.Inputs)

include inputs

theorem moves_advance : m.Moves Eq Cursor.advance Cursor.advance := by
  refine moves_get fun c c' cursors => ?_
  have place := cursors.indexAt_eq inputs c.position
  have size : c'.significant.size = c.significant.size := by
    have shown := inputs.size_eq
    rwa [← cursors.reads, ← cursors.reads'] at shown
  rw [cursors.position_eq]
  by_cases inside : c.position < c.significant.size
  · simp only [Array.getElem?_eq_getElem inside, Array.getElem?_eq_getElem (size ▸ inside),
      Option.getD_some] at place ⊢
    refine .ok rfl { cursors with position_eq := rfl, events_eq := ?_ }
    rw [place, cursors.events_eq, Array.map_push]
    rfl
  · rw [Array.getElem?_eq_none (Nat.le_of_not_lt inside),
      Array.getElem?_eq_none (size ▸ Nat.le_of_not_lt inside)]
    exact .error cursors

theorem moves_complete (mark : Mark) (id : ElementId) :
    m.Moves Eq (Cursor.complete mark id) (Cursor.complete mark (m.element id)) := by
  refine moves_get fun c c' cursors => ?_
  have place := cursors.indexAt_eq inputs mark.position
  rw [cursors.record_size]
  by_cases stale : c.events.size ≤ mark.event
  · simp only [if_pos stale]
    exact .error cursors
  · simp only [if_neg stale, place]
    refine moves_bind moves_handBack (fun _ _ _ => ?_) c c' cursors
    refine moves_modify fun c c' cursors => { cursors with events_eq := ?_ }
    rw [cursors.events_eq, Array.map_push, Array.map_setIfInBounds]
    rfl

end Moves

end Mirror

end Dialect
