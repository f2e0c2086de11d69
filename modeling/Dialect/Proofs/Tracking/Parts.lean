import Dialect.Proofs.Matching.Guarded
import Dialect.Proofs.Tracking.Leaf

/-!
# What may go together

Where the second of two parses comes to more for an element, the first has no match of it or
an incomplete one, and the second an incomplete one (`Outcome.Outdone`).  The cursors are at
different places from there on, so a step that is tracked must leave nothing but the cursor
changed, and words that are given free (`Progress.Drifts`).  `Pairing.Attempts` is what a composite
relies on: the attempts of its parts track each other, and they keep the contract.
-/

set_option autoImplicit false

namespace Dialect

/-! ### Coming to more -/

/-- Something was matched, but not all of it. -/
def Outcome.Partly (outcome : Outcome) : Prop := ∃ n, 0 < n ∧ outcome = .partialMatch n

/-- Not all was matched, or nothing. -/
def Outcome.Short (outcome : Outcome) : Prop := outcome = .noMatch ∨ outcome.Partly

/-- The second outcome is a partial one; if that is `firm`, the first falls short as well. -/
def Outcome.Outdone (firm : Prop) (outcome outcome' : Outcome) : Prop :=
  (firm → outcome.Short) ∧ outcome'.Partly

/-- Something was matched, but not everything that was to be. -/
def Tally.Partly (tally : Tally) : Prop := tally.complete = false ∧ 0 < tally.tokens

/-- The second tally is not complete; if that is `firm`, neither is the first. -/
def Tally.Outdone (firm : Prop) (tally tally' : Tally) : Prop :=
  (firm → tally.complete = false) ∧ tally'.Partly

/-- Whether a part may be left out in its place, where it is attempted at the position: if it comes
to nothing, the element around, which was entered last, goes on without it and may yet be complete.
A sequence does so without an optional slot, a wrapper without optional content once it has been
opened, and an iteration without a separator after its first item. -/
def Setting.spares (s : Setting) (chain : Chain) (path : Path) (position : Nat) : Bool :=
  match chain, path with
  | (_, start) :: _, frame :: _ =>
      match s.grammar.kind? frame.element with
      | some (.sequence slots) => slots[frame.slot]?.any Slot.optional
      | some (.wrapper _ slot _ _) =>
          frame.slot == 1 && slot.optional && start.cursor.position < position
      | some (.iteration _ none) => start.cursor.position < position
      | _ => false
  | _, _ => false

/-- What the element comes to from the state, with levels for the depth that is left. -/
def Setting.tried (s : Setting) (id : ElementId) (outer : Path) (p : Progress) :
    EStateM.Result Fault Progress Outcome :=
  Matcher.matchElement s (s.options.maxDepth - p.depth) id outer p

/-- Whether the element is matched in full from the state. -/
def Setting.completes (s : Setting) (id : ElementId) (outer : Path) (p : Progress) : Bool :=
  match s.tried id outer p with
  | .ok outcome _ => outcome.isFull
  | _ => false

/-- Whether a part that comes to nothing at the position is left out of an element that is matched
in full. -/
def Setting.omits (s : Setting) (chain : Chain) (path : Path) (position : Nat) : Bool :=
  s.spares chain path position &&
    chain.head?.any fun (whole, start) => s.completes whole path.tail start

theorem tried_eq {s : Setting} {id : ElementId} {outer : Path} {p : Progress} {levels : Nat}
    (enough : levels + p.depth = s.options.maxDepth) :
    s.tried id outer p = Matcher.matchElement s levels id outer p := by
  rw [Setting.tried, ← enough, Nat.add_sub_cancel]

theorem Outcome.Outdone.of_short {firm : Prop} {outcome outcome' : Outcome} (short : outcome.Short)
    (partly : outcome'.Partly) : Outdone firm outcome outcome' := ⟨fun _ => short, partly⟩

theorem Tally.Partly.outcome {tally : Tally} (partly : tally.Partly) : tally.outcome.Partly := by
  refine ⟨tally.tokens, partly.2, ?_⟩
  unfold Tally.outcome
  rw [partly.1]
  rfl

/-! ### Drifting -/

/-- From `p` to `r` the cursor moves and words may be given free, and the parse is aborted at most
if it is not `calm`. -/
structure Progress.Drifts (g : Grammar) (calm : Prop) (p r : Progress) : Prop
    extends p.Keeps calm r where
  remembered : p.memo.Faithful g → r.memo.Faithful g

namespace Progress.Drifts

variable {g : Grammar} {calm : Prop} {p q r : Progress}

theorem refl : p.Drifts g calm p := ⟨.refl, id⟩

theorem trans (first : p.Drifts g calm q) (second : q.Drifts g calm r) : p.Drifts g calm r :=
  ⟨first.toKeeps.trans second.toKeeps, second.remembered ∘ first.remembered⟩

theorem of_proceeds {n : Nat} {events : List Event} (moved : Proceeds g calm p n events r) :
    p.Drifts g calm r := ⟨moved.keeps, fun _ => moved.faithful⟩

theorem moveTo (c : Cursor) : p.Drifts g calm (p.moveTo c) :=
  ⟨⟨rfl, rfl, fun _ member => member, fun _ => rfl, fun _ none => none⟩, id⟩

end Progress.Drifts

/-- The faults of a move are tame. -/
def Cursor.Tame {α : Type} (move : Cursor.Step α) : Prop :=
  ∀ c fault c', move c = .error fault c' → fault.Tame

section Tame

variable {α β : Type}

theorem tame_handBack : Cursor.Tame Cursor.handBack := by
  intro c fault c' failed
  by_cases out : c.openMarks = 0
  · simp only [Cursor.handBack, bind_apply, get_apply, if_pos out] at failed
    cases failed
    trivial
  · rw [Cursor.handBack_eq out] at failed
    cases failed

theorem tame_modify (change : Cursor → Cursor) : Cursor.Tame (modify change) := by
  intro c fault c' failed
  cases failed

theorem tame_bind {move : Cursor.Step α} {next : α → Cursor.Step β} (first : Cursor.Tame move)
    (second : ∀ value, Cursor.Tame (next value)) : Cursor.Tame (move >>= next) := by
  intro c fault c' failed
  rw [bind_apply] at failed
  cases stepped : move c with
  | error raised d =>
      rw [stepped] at failed
      cases failed
      exact first c _ _ stepped
  | ok value d =>
      rw [stepped] at failed
      exact second value d fault c' failed

theorem tame_complete (m : Mark) (id : ElementId) : Cursor.Tame (Cursor.complete m id) := by
  intro c fault c' failed
  rw [Cursor.complete, bind_apply, get_apply] at failed
  by_cases stale : c.events.size ≤ m.event
  · simp only [if_pos stale] at failed
    cases failed
    trivial
  · simp only [if_neg stale] at failed
    refine tame_bind tame_handBack ?_ c fault c' failed
    exact fun _ => tame_modify _

theorem tame_restore (snapshot : Snapshot) : Cursor.Tame (Cursor.restore snapshot) := by
  intro c fault c' failed
  rw [Cursor.restore, bind_apply, get_apply] at failed
  by_cases strayed : c.position ≠ snapshot.start ∨ c.events.size ≠ snapshot.event
  · simp only [if_pos strayed] at failed
    cases failed
    trivial
  · simp only [if_neg strayed] at failed
    cases failed

end Tame

section Drifting

variable {excused : Fault → Prop} {p : Progress} {α β : Type}

/-- Something or other comes of every step. -/
theorem ensures_any (step : Matcher α) : Ensures (fun _ => True) step p fun _ _ => True := by
  unfold Ensures
  split <;> trivial

/-- A move whose faults are excused. -/
theorem drifts_step (g : Grammar) (calm : Prop) {move : Cursor.Step α}
    (excuses : ∀ fault c, move p.cursor = .error fault c → excused fault) :
    Ensures excused (liftM move) p fun _ r => p.Drifts g calm r := by
  cases moved : move p.cursor with
  | ok result c => exact ensures_of_ok (move_eq moved) (.moveTo c)
  | error fault c => exact ensures_of_error (Pairing.move_eq_error moved) (excuses fault c moved)

/-- A move whose faults are excused, and a value after it. -/
theorem drifts_move (g : Grammar) (calm : Prop) {move : Cursor.Step α}
    (excuses : ∀ fault c, move p.cursor = .error fault c → excused fault) (value : β) :
    Ensures excused (liftM move >>= fun _ => pure value) p fun value' r =>
      p.Drifts g calm r ∧ value' = value :=
  ensures_bind (drifts_step g calm excuses) fun _ _ drifts => ensures_pure ⟨drifts, rfl⟩

/-- A missing element is reported. -/
theorem drifts_expected {s : Setting} {input : Input} (stage : Stage s input)
    (sound : p.Sound s.grammar input) {id : ElementId} (bound : id < s.grammar.elements.size)
    (code : DiagnosticCode) :
    Ensures (fun _ => True) (Matcher.expected s code id) p fun _ r =>
      p.Drifts s.grammar False r ∧ r.Sound s.grammar input := by
  have kept : Ensures (Excused s.grammar input []) (Matcher.expected s code id) p _ :=
    ensures_expected False stage sound bound code
  refine (kept.pardon fun _ _ => trivial).imp ?_
  rintro _ r ⟨found, -, moved⟩
  exact ⟨.of_proceeds moved, moved.sound sound⟩

theorem drifts_expectedHere {s : Setting} {input : Input} (stage : Stage s input)
    (sound : p.Sound s.grammar input) {id : ElementId} (bound : id < s.grammar.elements.size) :
    Ensures (fun _ => True) (Matcher.expectedHere s id) p fun _ r =>
      p.Drifts s.grammar False r ∧ r.Sound s.grammar input := by
  unfold Matcher.expectedHere
  exact ensures_bind_check (fun _ _ => trivial) fun code _ => drifts_expected stage sound bound code

end Drifting

/-! ### Attempts -/

/-- The attempt is not aborted where elements may be entered, and no token or path is to blame for a
fault. -/
def Attempt.Still (s : Setting) (input : Input) (depth : Nat) (attempt : Attempt) (id : ElementId) :
    Prop :=
  ∀ path p, path.Within s.grammar [] → p.Sound s.grammar input → p.depth = depth →
    Ensures Fault.Tame (attempt id path) p fun _ r =>
      p.Drifts s.grammar (s.Open depth) r ∧ r.Sound s.grammar input

/-- What the contract says of an outcome: the cursor has moved so far, and a match takes a token or
more. -/
structure Outcome.Honest (g : Grammar) (p : Progress) (outcome : Outcome) (r : Progress) : Prop where
  moved : ∃ events, Proceeds g False p outcome.tokens events r
  positive : outcome.isMatch = true → 0 < outcome.tokens

/-- The attempt keeps the contract at this depth. -/
def Attempt.Honest (s : Setting) (input : Input) (depth : Nat) (attempt : Attempt) : Prop :=
  ∀ id path p outcome r, id < s.grammar.elements.size → path.Within s.grammar [] →
    p.Sound s.grammar input → p.depth = depth → attempt id path p = .ok outcome r →
      outcome.Honest s.grammar p r

namespace Pairing

variable {pair : Pairing}

/-- What may go together for an element where the second parse comes to more; where that is `sure`,
the first is not without a match. -/
def Gains (pair : Pairing) (sure : Prop) (id : ElementId) (outcome outcome' : Outcome) : Prop :=
  (outcome.Short ∧ outcome'.Partly) ∧ (sure → outcome ≠ .noMatch) ∧
    pair.second.Open pair.depth ∧
    ∀ kind, pair.first.grammar.kind? id = some kind → kind.isLeaf = false

/-- The attempts of both parses, one level below the composites that make them.  It may be `sure` of
a place and a position that the second parse comes to nothing there where the first does. -/
structure Attempts (pair : Pairing) (sure : Path → Nat → Prop) (attempt attempt' : Attempt) :
    Prop where
  tracks : ∀ id path p q, id < pair.first.grammar.elements.size →
    path.Within pair.first.grammar [] → pair.Abreast p q →
      pair.Tracks (pair.Gains (sure path p.cursor.position) id) (attempt id path) (attempt' id path)
        p q
  waves : pair.gains → ∀ id path p q outcome outcome' r t,
    id < pair.first.grammar.elements.size → path.Within pair.first.grammar [] →
      pair.Abreast p q → attempt id path p = .ok outcome r → r.failure = none →
        attempt' id path q = .ok outcome' t → t.waved = r.waved
  honest : attempt.Honest pair.first pair.input pair.depth
  honest' : attempt'.Honest pair.second pair.input pair.depth
  still : pair.gains → ∀ id kind, pair.first.grammar.kind? id = some kind → kind.isLeaf = true →
    attempt.Still pair.first pair.input pair.depth id ∧
      attempt'.Still pair.second pair.input pair.depth id

end Pairing

end Dialect
