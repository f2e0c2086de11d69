import Dialect.Proofs.Matching.Qualified

/-!
# Parses side by side

A step of a parse is tracked by a step of another one (`Pairing.Tracks`) if, unless it is
aborted, the other step comes to the same and leaves the same state, up to what is
remembered.  The two parses may differ in where their predictions come from, and so in which
alternatives of a choice are passed over.

They may also differ in whether a choice keeps its best incomplete alternative.  Then the
second parse can come to more than the first (`gains`), and from there on the two cursors are
no longer at one place; all that is known is that the second parse goes on undisturbed
(`Pairing.Beside`).
-/

set_option autoImplicit false

namespace Dialect

/-- Two parses that go side by side, at some depth: the setting of the first, and what is
different in the second. -/
structure Pairing where
  first : Setting
  options : Options
  predictor : Predictor
  input : Input
  /-- How many elements are entered and not yet left. -/
  depth : Nat
  /-- Whether the second parse may come to more than the first. -/
  gains : Prop

/-- The fault is none that a token or a path could be to blame for. -/
def Fault.Tame : Fault → Prop
  | .textRange | .uncountable _ => False
  | _ => True

/-- No two values go together. -/
def Never {α : Type} (_ _ : α) : Prop := False

namespace Pairing

variable {pair : Pairing} {p q r t : Progress} {α β : Type}

/-- The setting of the second parse. -/
abbrev second (pair : Pairing) : Setting :=
  { pair.first with options := pair.options, predictor := pair.predictor }

/-- The same parses one level deeper. -/
abbrev deeper (pair : Pairing) : Pairing := { pair with depth := pair.depth + 1 }

/-- The second parse is at the same version and may go as deep as the first; the predictions of
both are right. -/
structure Fair (pair : Pairing) : Prop where
  stage : Stage pair.first pair.input
  version : pair.options.version = pair.first.options.version
  limit : pair.options.maxDepth = pair.first.options.maxDepth
  reliable : pair.predictor.Reliable pair.first.grammar

theorem Fair.stage' (fair : pair.Fair) : Stage pair.second pair.input :=
  ⟨fair.stage.wellFormed, fair.reliable, fair.stage.known⟩

/-! ### States -/

/-- A state of the first parse. -/
structure At (pair : Pairing) (p : Progress) : Prop
    extends p.Sound pair.first.grammar pair.input where
  level : p.depth = pair.depth

/-- Two states that agree in how deep they are and in whether the parse was aborted.  The second
parse keeps incomplete alternatives if it may come to more, and otherwise if the first does. -/
structure Beside (pair : Pairing) (p q : Progress) : Prop where
  depth : q.depth = p.depth
  failure : q.failure = p.failure
  keen : pair.gains → q.scan = true
  alike : ¬ pair.gains → q.scan = p.scan
  remembered : q.memo.Faithful pair.first.grammar

/-- Two states with one cursor, in which the same words have been given free. -/
structure Abreast (pair : Pairing) (p q : Progress) : Prop extends pair.At p, pair.Beside p q where
  together : q.cursor = p.cursor
  waved : q.waved = p.waved

theorem Beside.keener (beside : pair.Beside p q) (keen : p.scan = true) : q.scan = true := by
  by_cases gains : pair.gains
  · exact beside.keen gains
  · exact (beside.alike gains).trans keen

/-- Beside every state of the first parse the second may stand with the same cursor. -/
theorem At.exists_abreast (at_ : pair.At p) : ∃ q, pair.Abreast p q := by
  by_cases gains : pair.gains
  · exact ⟨{ p with scan := true }, at_, ⟨rfl, rfl, fun _ => rfl, fun none => absurd gains none,
      at_.faithful⟩, rfl, rfl⟩
  · exact ⟨p, at_, ⟨rfl, rfl, fun now => absurd now gains, fun _ => rfl, at_.faithful⟩, rfl, rfl⟩

/-- The second of two states with one cursor is a state of its parse. -/
theorem Abreast.sound' (abreast : pair.Abreast p q) : q.Sound pair.first.grammar pair.input := by
  refine ⟨?_, ?_, abreast.remembered⟩
  · rw [abreast.together, abreast.reads]
  · rw [abreast.together]
    exact abreast.inside

theorem Abreast.level' (abreast : pair.Abreast p q) : q.depth = pair.depth :=
  abreast.depth.trans abreast.level

/-- If nothing can be gained, two states with one cursor differ at most in what is remembered. -/
theorem Abreast.same (abreast : pair.Abreast p q) (even : ¬ pair.gains) :
    q = { p with memo := q.memo } := by
  obtain ⟨-, ⟨depth, failure, -, scan, -⟩, together, waved⟩ := abreast
  obtain ⟨cursor, _, _, _, _, _⟩ := q
  obtain rfl := together
  obtain rfl := depth
  obtain rfl := scan even
  obtain rfl := waved
  obtain rfl := failure
  rfl

/-- From a state of the first parse to a later one at the same depth: a parse that was
aborted is not taken up again. -/
structure Goes (pair : Pairing) (p r : Progress) : Prop extends pair.At r where
  aborted : p.failure ≠ none → r.failure ≠ none

theorem Goes.trans (first : pair.Goes p q) (second : pair.Goes q r) : pair.Goes p r :=
  ⟨second.toAt, fun failed => second.aborted (first.aborted failed)⟩

theorem Goes.going (goes : pair.Goes p r) (quiet : r.failure = none) : p.failure = none := by
  by_contra failed
  exact goes.aborted failed quiet

theorem goes_of_proceeds {calm : Prop} {n : Nat} {events : List Event} (at_ : pair.At p)
    (moved : Proceeds pair.first.grammar calm p n events r) : pair.Goes p r := by
  refine ⟨⟨moved.sound at_.toSound, moved.keeps.depth.trans at_.level⟩, fun failed => ?_⟩
  rw [moved.keeps.aborted failed]
  exact failed

/-! ### Steps that track each other -/

/-- What the second step comes to, given what the first has come to: the same, or else a
value that goes with it. -/
def Follows (pair : Pairing) (with_ : α → α → Prop) (value : α) (r : Progress) :
    EStateM.Result Fault Progress α → Prop
  | .ok value' t => (value' = value ∧ pair.Abreast r t) ∨
      (pair.gains ∧ with_ value value' ∧ pair.Beside r t)
  | .error fault _ => pair.gains ∧ fault.Tame

/-- Unless the first parse is aborted, the second step follows it. -/
def Tracks (pair : Pairing) (with_ : α → α → Prop) (step step' : Matcher α) (p q : Progress) :
    Prop :=
  ∀ value r, step p = .ok value r →
    pair.Goes p r ∧ (r.failure = none → pair.Follows with_ value r (step' q))

/-- The steps go on from states that are not at one place. -/
def Departs (pair : Pairing) (with_ : α → α → Prop) (step step' : Matcher α) (p q : Progress) :
    Prop :=
  ∀ value r, step p = .ok value r → pair.At r → r.failure = none →
    pair.Follows with_ value r (step' q)

section Rules

variable {with_ : α → α → Prop} {also : β → β → Prop} {step step' : Matcher α}
  {next next' : α → Matcher β}

theorem Follows.imp {with' : α → α → Prop} {value : α}
    {result : EStateM.Result Fault Progress α} (follows : pair.Follows with_ value r result)
    (weaker : ∀ value', pair.gains → with_ value value' → with' value value') :
    pair.Follows with' value r result := by
  cases result with
  | error fault t => exact follows
  | ok value' t =>
      exact follows.imp_right fun ⟨gains, holds, beside⟩ => ⟨gains, weaker value' gains holds, beside⟩

theorem Tracks.imp {with' : α → α → Prop} (tracks : pair.Tracks with_ step step' p q)
    (weaker : ∀ value value', pair.gains → with_ value value' → with' value value') :
    pair.Tracks with' step step' p q := fun value r ran =>
  ⟨(tracks value r ran).1, fun quiet => ((tracks value r ran).2 quiet).imp (weaker value)⟩

theorem tracks_pure (abreast : pair.Abreast p q) (value : α) :
    pair.Tracks with_ (pure value) (pure value) p q := by
  intro value' r ran
  cases ran
  exact ⟨⟨abreast.toAt, id⟩, fun _ => Or.inl ⟨rfl, abreast⟩⟩

theorem tracks_throw (fault : Fault) {step' : Matcher α} :
    pair.Tracks with_ (throw fault : Matcher α) step' p q := by
  intro value r ran
  cases ran

/-- Steps that amount to others from other states track each other as those do. -/
theorem tracks_of_eq {other other' : Matcher α} (left : step p = other r) (right : step' q = other' t)
    (failure : r.failure = p.failure) (tracks : pair.Tracks with_ other other' r t) :
    pair.Tracks with_ step step' p q := by
  intro value u ran
  rw [left] at ran
  rw [right]
  obtain ⟨goes, follows⟩ := tracks value u ran
  exact ⟨⟨goes.toAt, fun failed => goes.aborted (by rwa [failure])⟩, follows⟩

/-- Two steps go on as what they come to goes on.  From values that only go together they go
on apart. -/
theorem tracks_bind (first : pair.Tracks with_ step step' p q)
    (second : ∀ value r t, step p = .ok value r → pair.Abreast r t →
      pair.Tracks also (next value) (next' value) r t)
    (apart : ∀ value value' r t, step p = .ok value r → step' q = .ok value' t → pair.gains →
      pair.At r → r.failure = none → with_ value value' → pair.Beside r t →
        pair.Departs also (next value) (next' value') r t) :
    pair.Tracks also (step >>= next) (step' >>= next') p q := by
  intro last u ran
  obtain ⟨value, r, stepped, ran⟩ := bind_apply_eq_ok.1 ran
  obtain ⟨goes, follows⟩ := first value r stepped
  obtain ⟨t, at_⟩ := goes.toAt.exists_abreast
  have onward := (second value r t stepped at_ last u ran).1
  refine ⟨goes.trans onward, fun quiet => ?_⟩
  replace follows := follows (onward.going quiet)
  rw [bind_apply]
  cases stepped' : step' q with
  | error fault t =>
      rw [stepped'] at follows
      exact follows
  | ok value' t =>
      rw [stepped'] at follows
      rcases follows with ⟨rfl, abreast⟩ | ⟨gains, together, beside⟩
      · exact (second value' r t stepped abreast last u ran).2 quiet
      · exact apart value value' r t stepped stepped' gains goes.toAt (onward.going quiet)
          together beside last u ran onward.toAt quiet

/-- Two steps that always come to the same. -/
theorem tracks_bind_same (first : pair.Tracks Never step step' p q)
    (second : ∀ value r t, step p = .ok value r → pair.Abreast r t →
      pair.Tracks also (next value) (next' value) r t) :
    pair.Tracks also (step >>= next) (step' >>= next') p q :=
  tracks_bind first second fun _ _ _ _ _ _ _ _ _ never => never.elim

theorem tracks_ite {c : Prop} [Decidable c] {other other' : Matcher α}
    (first : c → pair.Tracks with_ step step' p q)
    (second : ¬ c → pair.Tracks with_ other other' p q) :
    pair.Tracks with_ (if c then step else other) (if c then step' else other') p q := by
  split
  · exact first ‹_›
  · exact second ‹_›

theorem tracks_map {f : α → β} (first : pair.Tracks Never step step' p q) :
    pair.Tracks Never (f <$> step) (f <$> step') p q := by
  rw [map_eq_pure_bind, map_eq_pure_bind]
  exact tracks_bind_same first fun _ _ _ _ after => tracks_pure after _

theorem tracks_cursor {next next' : Cursor → Matcher β} (abreast : pair.Abreast p q)
    (onward : pair.Tracks also (next p.cursor) (next' p.cursor) p q) :
    pair.Tracks also (Matcher.cursor >>= next) (Matcher.cursor >>= next') p q := by
  intro value r ran
  have seen : (Matcher.cursor >>= next') q = next' p.cursor q := by
    rw [← abreast.together]
    rfl
  rw [seen]
  exact onward value r ran

theorem tracks_get {next next' : Progress → Matcher β}
    (onward : pair.Tracks also (next p) (next' q) p q) :
    pair.Tracks also (get >>= next) (get >>= next') p q := onward

/-- A check that needs no state is the same for both. -/
theorem tracks_check {answer : Except Fault α}
    (onward : ∀ value, answer = .ok value → pair.Tracks also (next value) (next' value) p q) :
    pair.Tracks also (liftM answer >>= next) (liftM answer >>= next') p q := by
  cases answer with
  | ok value => exact onward value rfl
  | error fault =>
      intro value r ran
      cases ran

/-- Questions that have the same answer. -/
theorem tracks_query {query query' : Query α} {answer : Except Fault α}
    (answers : Answers pair.first.grammar query answer)
    (answers' : Answers pair.first.grammar query' answer) (abreast : pair.Abreast p q) :
    pair.Tracks Never (liftM query) (liftM query') p q := by
  obtain ⟨after, kept, asked⟩ := answers p.memo abreast.faithful
  obtain ⟨after', kept', asked'⟩ := answers' q.memo abreast.remembered
  intro value r ran
  cases answer with
  | error fault =>
      rw [query_eq_error asked] at ran
      cases ran
  | ok value =>
      rw [query_eq asked] at ran
      cases ran
      have after_ : pair.At { p with memo := after } :=
        ⟨⟨abreast.reads, abreast.inside, kept⟩, abreast.level⟩
      refine ⟨⟨after_, id⟩, fun _ => ?_⟩
      rw [query_eq asked']
      exact Or.inl ⟨rfl, after_, ⟨abreast.depth, abreast.failure, abreast.keen, abreast.alike,
        kept'⟩, abreast.together, abreast.waved⟩

/-- Goes on after questions whose answer is known. -/
theorem tracks_answer {query query' : Query α} {answer : α} {next next' : α → Matcher β}
    (answers : Answers pair.first.grammar query (.ok answer))
    (answers' : Answers pair.first.grammar query' (.ok answer)) (abreast : pair.Abreast p q)
    (onward : ∀ r t, pair.Abreast r t → pair.Tracks also (next answer) (next' answer) r t) :
    pair.Tracks also (liftM query >>= next) (liftM query' >>= next') p q := by
  refine tracks_bind_same (tracks_query answers answers' abreast) fun value r t ran after => ?_
  obtain ⟨memo, -, asked⟩ := answers p.memo abreast.faithful
  rw [query_eq asked] at ran
  cases ran
  exact onward _ t after

/-- A word is given free in both parses. -/
theorem tracks_decline (abreast : pair.Abreast p q) (word : TokenTypeId) :
    pair.Tracks Never (Matcher.decline word) (Matcher.decline word) p q := by
  intro value r ran
  cases ran
  have after : pair.At (p.wave word) :=
    ⟨⟨abreast.reads, abreast.inside, abreast.faithful⟩, abreast.level⟩
  refine ⟨⟨after, id⟩, fun _ => Or.inl ⟨rfl, after, ⟨abreast.depth, abreast.failure,
    abreast.keen, abreast.alike, abreast.remembered⟩, abreast.together, ?_⟩⟩
  show q.waved.insert (q.cursor.position, word) = p.waved.insert (p.cursor.position, word)
  rw [abreast.waved, abreast.together]

end Rules

/-! ### Moves -/

/-- The move keeps to the input. -/
def Keeps (input : Input) (move : Cursor.Step α) : Prop :=
  ∀ c value c', c.input = input → c.position ≤ input.size → move c = .ok value c' →
    c'.input = input ∧ c'.position ≤ input.size

theorem At.moveTo (at_ : pair.At p) {c : Cursor} (reads : c.input = pair.input)
    (inside : c.position ≤ pair.input.size) : pair.At (p.moveTo c) :=
  ⟨⟨reads, inside, at_.faithful⟩, at_.level⟩

theorem Beside.moveTo (beside : pair.Beside p q) (c c' : Cursor) :
    pair.Beside (p.moveTo c) (q.moveTo c') :=
  ⟨beside.depth, beside.failure, beside.keen, beside.alike, beside.remembered⟩

theorem move_eq_error {move : Cursor.Step α} {fault : Fault} {c : Cursor}
    (ran : move p.cursor = .error fault c) :
    (liftM move : Matcher α) p = .error fault (p.moveTo c) := by
  cases p
  simp only [liftM, monadLift, MonadLift.monadLift, ran]
  rfl

/-- A move is the same for cursors at one place. -/
theorem tracks_move {move : Cursor.Step α} (keeps : Keeps pair.input move)
    (abreast : pair.Abreast p q) : pair.Tracks Never (liftM move) (liftM move) p q := by
  intro value r ran
  cases moved : move p.cursor with
  | error fault c =>
      rw [move_eq_error moved] at ran
      cases ran
  | ok value' c =>
      rw [move_eq moved] at ran
      cases ran
      obtain ⟨reads, inside⟩ := keeps p.cursor value c abreast.reads abreast.inside moved
      have after := abreast.toAt.moveTo reads inside
      have moved' : move q.cursor = .ok value c := by
        rw [abreast.together]
        exact moved
      refine ⟨⟨after, id⟩, fun _ => ?_⟩
      rw [move_eq moved']
      exact Or.inl ⟨rfl, after, abreast.toBeside.moveTo c c, rfl, abreast.waved⟩

section Keeps

variable {input : Input} {m : Mark}

theorem keeps_advance : Keeps input Cursor.advance := by
  intro c value c' reads inside moved
  rw [Cursor.advance, bind_apply, get_apply] at moved
  cases found : c.significant[c.position]? with
  | none =>
      simp only [found] at moved
      cases moved
  | some index =>
      simp only [found] at moved
      cases moved
      obtain ⟨bound, -⟩ := Array.getElem?_eq_some_iff.1 found
      subst reads
      exact ⟨rfl, bound⟩

theorem keeps_handBack : Keeps input Cursor.handBack := by
  intro c value c' reads inside moved
  by_cases out : c.openMarks = 0
  · simp only [Cursor.handBack, bind_apply, get_apply, if_pos out] at moved
    cases moved
  · rw [Cursor.handBack_eq out] at moved
    cases moved
    exact ⟨reads, inside⟩

theorem keeps_bind {move : Cursor.Step α} {next : α → Cursor.Step β} (first : Keeps input move)
    (second : ∀ value, Keeps input (next value)) : Keeps input (move >>= next) := by
  intro c last c' reads inside moved
  obtain ⟨value, d, stepped, moved⟩ := bind_apply_eq_ok.1 moved
  obtain ⟨readsD, insideD⟩ := first c value d reads inside stepped
  exact second value d last c' readsD insideD moved

/-- A change to the cursor that keeps to the input. -/
theorem keeps_modify {change : Cursor → Cursor}
    (reads : ∀ c : Cursor, c.input = input → (change c).input = input)
    (inside : ∀ c : Cursor, c.position ≤ input.size → (change c).position ≤ input.size) :
    Keeps input (modify change) := by
  intro c value c' readsC insideC moved
  cases moved
  exact ⟨reads c readsC, inside c insideC⟩

theorem keeps_rollback (within : m.position ≤ input.size) : Keeps input (Cursor.rollback m) :=
  keeps_bind keeps_handBack fun _ => keeps_modify (fun _ reads => reads) fun _ _ => within

theorem keeps_report (diagnostic : Diagnostic) : Keeps input (Cursor.report diagnostic) :=
  keeps_modify (fun _ reads => reads) fun _ inside => inside

theorem keeps_annotate (related : Related) : Keeps input (Cursor.annotate related) :=
  keeps_modify (fun _ reads => reads) fun _ inside => inside

theorem keeps_restore {snapshot : Snapshot} (inside : snapshot.stop ≤ input.size) :
    Keeps input (Cursor.restore snapshot) := by
  intro c value c' reads _ moved
  rw [Cursor.restore, bind_apply, get_apply] at moved
  by_cases strayed : c.position ≠ snapshot.start ∨ c.events.size ≠ snapshot.event
  · simp only [if_pos strayed] at moved
    cases moved
  · simp only [if_neg strayed] at moved
    cases moved
    exact ⟨reads, inside⟩

theorem keeps_complete (m : Mark) (id : ElementId) : Keeps input (Cursor.complete m id) := by
  intro c value c' reads inside moved
  rw [Cursor.complete, bind_apply, get_apply] at moved
  by_cases stale : c.events.size ≤ m.event
  · simp only [if_pos stale] at moved
    cases moved
  · simp only [if_neg stale] at moved
    refine keeps_bind keeps_handBack ?_ c value c' reads inside moved
    exact fun _ => keeps_modify (fun _ reads => reads) fun _ inside => inside

end Keeps

theorem Abreast.marked (abreast : pair.Abreast p q) : pair.Abreast p.marked q.marked := by
  refine ⟨abreast.toAt.moveTo abreast.reads abreast.inside, abreast.toBeside.moveTo _ _, ?_,
    abreast.waved⟩
  show q.cursor.marked = p.cursor.marked
  rw [abreast.together]

/-- A mark is set at one place. -/
theorem tracks_mark {also : β → β → Prop} {next next' : Mark → Matcher β}
    (abreast : pair.Abreast p q)
    (onward : pair.Tracks also (next p.cursor.place) (next' p.cursor.place) p.marked q.marked) :
    pair.Tracks also (liftM Cursor.mark >>= next) (liftM Cursor.mark >>= next') p q := by
  have place : q.cursor.place = p.cursor.place := by
    rw [abreast.together]
  intro value r ran
  rw [bind_apply, move_eq Cursor.mark_eq] at ran ⊢
  rw [place]
  obtain ⟨goes, follows⟩ := onward value r ran
  exact ⟨⟨goes.toAt, goes.aborted⟩, follows⟩

end Pairing

end Dialect
