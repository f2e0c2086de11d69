import Dialect.Matching.Progress
import Dialect.Proofs.Parsing.Moves
import Dialect.Proofs.Prediction.Following

/-!
# The contract of a step

A step of a parse keeps its contract (`Ensures`) when it ends in a state as promised, or
with a fault for which the input or the path it was started on is to blame (`Excused`).

What is promised throughout is that the cursor only moves on (`Proceeds`): the record is
added to, the marks and the depth are as before, words given free stay free, and a parse
that was aborted stays aborted.  What is promised of an attempt is in addition that it
takes a token if it matches and leaves the cursor alone otherwise (`Came`).
-/

set_option autoImplicit false

namespace Dialect

/-! ### Steps that keep a contract -/

/-- The step ends in a state as promised, or with a fault that is excused. -/
def Ensures {α : Type} (excused : Fault → Prop) (step : Matcher α) (p : Progress)
    (post : α → Progress → Prop) : Prop :=
  match step p with
  | .ok value q => post value q
  | .error fault _ => excused fault

section Rules

variable {α β : Type} {excused : Fault → Prop} {p : Progress} {post : α → Progress → Prop}

theorem ensures_of_ok {step : Matcher α} {value : α} {q : Progress} (ran : step p = .ok value q)
    (holds : post value q) : Ensures excused step p post := by
  unfold Ensures
  rw [ran]
  exact holds

theorem ensures_of_error {step : Matcher α} {fault : Fault} {q : Progress}
    (ran : step p = .error fault q) (blame : excused fault) : Ensures excused step p post := by
  unfold Ensures
  rw [ran]
  exact blame

/-- What a step has come to is as promised. -/
theorem Ensures.of_ok {step : Matcher α} {value : α} {q : Progress}
    (kept : Ensures excused step p post) (ran : step p = .ok value q) : post value q := by
  unfold Ensures at kept
  rw [ran] at kept
  exact kept

theorem Ensures.imp {step : Matcher α} {post' : α → Progress → Prop}
    (kept : Ensures excused step p post) (weaker : ∀ value q, post value q → post' value q) :
    Ensures excused step p post' := by
  unfold Ensures at kept ⊢
  split at kept
  · exact weaker _ _ kept
  · exact kept

theorem Ensures.pardon {step : Matcher α} {excused' : Fault → Prop}
    (kept : Ensures excused step p post) (more : ∀ fault, excused fault → excused' fault) :
    Ensures excused' step p post := by
  unfold Ensures at kept ⊢
  split at kept
  · exact kept
  · exact more _ kept

theorem Ensures.and {step : Matcher α} {post' : α → Progress → Prop}
    (first : Ensures excused step p post) (second : Ensures excused step p post') :
    Ensures excused step p fun value q => post value q ∧ post' value q := by
  unfold Ensures at first second ⊢
  split at first
  · simp_all
  · exact first

theorem ensures_pure {value : α} (holds : post value p) :
    Ensures excused (pure value) p post :=
  ensures_of_ok rfl holds

theorem bind_of_ok {step : Matcher α} {value : α} {q : Progress} (ran : step p = .ok value q)
    (next : α → Matcher β) : (step >>= next) p = next value q := by
  rw [bind_apply, ran]

theorem bind_of_error {step : Matcher α} {fault : Fault} {q : Progress}
    (failed : step p = .error fault q) (next : α → Matcher β) :
    (step >>= next) p = .error fault q := by
  rw [bind_apply, failed]

theorem ensures_bind {step : Matcher α} {next : α → Matcher β} {post' : β → Progress → Prop}
    (first : Ensures excused step p post)
    (second : ∀ value q, post value q → Ensures excused (next value) q post') :
    Ensures excused (step >>= next) p post' := by
  unfold Ensures at first
  cases ran : step p with
  | ok value q =>
      rw [ran] at first
      have kept := second value q first
      unfold Ensures at kept ⊢
      rw [bind_apply, ran]
      exact kept
  | error fault q =>
      rw [ran] at first
      refine ensures_of_error (q := q) ?_ first
      rw [bind_apply, ran]

/-- Goes on after a step of which the result is known. -/
theorem ensures_bind_of_ok {step : Matcher α} {value : α} {q : Progress}
    (ran : step p = .ok value q) {next : α → Matcher β} {post' : β → Progress → Prop}
    (kept : Ensures excused (next value) q post') : Ensures excused (step >>= next) p post' := by
  have first : Ensures excused step p fun a r => a = value ∧ r = q :=
    ensures_of_ok ran ⟨rfl, rfl⟩
  refine ensures_bind first fun a r same => ?_
  obtain ⟨rfl, rfl⟩ := same
  exact kept

theorem ensures_map {f : α → β} {step : Matcher α} (kept : Ensures excused step p post) :
    Ensures excused (f <$> step) p fun result q => ∃ value, result = f value ∧ post value q := by
  rw [map_eq_pure_bind]
  exact ensures_bind kept fun value _ holds => ensures_pure ⟨value, rfl, holds⟩

theorem move_eq {step : Cursor.Step α} {value : α} {c : Cursor}
    (ran : step p.cursor = .ok value c) :
    (liftM step : Matcher α) p = .ok value { p with cursor := c } := by
  cases p
  simp only [liftM, monadLift, MonadLift.monadLift, ran]

theorem query_eq {query : Query α} {value : α} {memo : Memo}
    (ran : query p.memo = .ok value memo) :
    (liftM query : Matcher α) p = .ok value { p with memo } := by
  cases p
  simp only [liftM, monadLift, MonadLift.monadLift, ran]

theorem query_eq_error {query : Query α} {fault : Fault} {memo : Memo}
    (ran : query p.memo = .error fault memo) :
    (liftM query : Matcher α) p = .error fault { p with memo } := by
  cases p
  simp only [liftM, monadLift, MonadLift.monadLift, ran]

theorem cursor_eq : Matcher.cursor p = .ok p.cursor p := rfl

theorem check_eq_ok {answer : Except Fault α} {value : α} {q : Progress} :
    (liftM answer : Matcher α) p = .ok value q ↔ answer = .ok value ∧ p = q := by
  cases answer with
  | ok value' => simp [liftM, monadLift, MonadLift.monadLift]
  | error fault =>
      simp only [reduceCtorEq, false_and, iff_false]
      intro ran
      cases ran

/-- Goes on after a check that needs no state. -/
theorem ensures_bind_check {answer : Except Fault α} {next : α → Matcher β}
    {post' : β → Progress → Prop} (raises : Raises excused answer)
    (kept : ∀ value, answer = .ok value → Ensures excused (next value) p post') :
    Ensures excused (liftM answer >>= next) p post' := by
  cases answer with
  | ok value => exact ensures_bind_of_ok (q := p) rfl (kept value rfl)
  | error fault => exact ensures_of_error (q := p) rfl (raises fault rfl)

/-- Goes on after a question that has an answer. -/
theorem ensures_bind_query {g : Grammar} {query : Query α} {answer : Except Fault α}
    {next : α → Matcher β} {post' : β → Progress → Prop} (answers : Answers g query answer)
    (faithful : p.memo.Faithful g) (raises : Raises excused answer)
    (kept : ∀ value memo, answer = .ok value → memo.Faithful g →
      Ensures excused (next value) { p with memo } post') :
    Ensures excused (liftM query >>= next) p post' := by
  obtain ⟨after, keptAfter, ran⟩ := answers p.memo faithful
  cases answer with
  | ok value => exact ensures_bind_of_ok (query_eq ran) (kept value after rfl keptAfter)
  | error fault =>
      refine ensures_of_error (q := { p with memo := after }) ?_ (raises fault rfl)
      rw [bind_apply, query_eq_error ran]

end Rules

/-! ### What is to blame for a fault -/

/-- Every frame of the path is a place in the grammar, and those that are astray are among
the frames around. -/
def Path.Within (g : Grammar) (path around : Path) : Prop :=
  ∀ frame ∈ path, frame.element < g.elements.size ∧ (frame.Astray g → frame ∈ around)

/-- The fault is the fault of a token that does not fit into a source text, or of a frame
around that is astray. -/
def Excused (g : Grammar) (input : Input) (around : Path) : Fault → Prop
  | .textRange =>
      ∃ token ∈ input.tokens, TextRange.offsetLimit ≤ token.offset + token.text.utf8ByteSize
  | .uncountable number => ∃ frame ∈ around, frame.Astray g ∧ number = frame.slot + 1
  | _ => False

/-- With nothing around a token is to blame. -/
theorem beyond_of_excused {g : Grammar} {input : Input} {fault : Fault}
    (blame : Excused g input [] fault) : fault = .textRange ∧
      ∃ token ∈ input.tokens, TextRange.offsetLimit ≤ token.offset + token.text.utf8ByteSize := by
  cases fault with
  | textRange => exact ⟨rfl, blame⟩
  | uncountable number =>
      obtain ⟨frame, none, -⟩ := blame
      exact absurd none List.not_mem_nil
  | _ => exact blame.elim

/-- With nothing around, a step comes to what is promised, or a token is to blame. -/
theorem Ensures.ok_or_beyond {α : Type} {g : Grammar} {input : Input} {step : Matcher α}
    {p : Progress} {post : α → Progress → Prop} (kept : Ensures (Excused g input []) step p post) :
    (∃ value q, step p = .ok value q ∧ post value q) ∨
      ∃ q token, step p = .error .textRange q ∧ token ∈ input.tokens ∧
        TextRange.offsetLimit ≤ token.offset + token.text.utf8ByteSize := by
  unfold Ensures at kept
  split at kept
  · exact .inl ⟨_, _, ‹_›, kept⟩
  · rename_i fault q ran
    obtain ⟨rfl, token, member, beyond⟩ := beyond_of_excused kept
    exact .inr ⟨q, token, ran, member, beyond⟩

/-- What is fixed during a parse is in order: the grammar was accepted, the predictor says
what follows from it, and the vocabulary knows the tokens. -/
structure Stage (s : Setting) (input : Input) : Prop where
  wellFormed : s.grammar.WellFormed
  reliable : s.predictor.Reliable s.grammar
  known : ∀ token ∈ input.tokens, token.kind < s.grammar.vocabulary.types.size

/-- A state of a parse of the input. -/
structure Progress.Sound (g : Grammar) (input : Input) (p : Progress) : Prop where
  reads : p.cursor.input = input
  inside : p.cursor.position ≤ input.size
  faithful : p.memo.Faithful g

namespace Progress.Sound

variable {g : Grammar} {input : Input} {p : Progress}

/-! What the cursor shows is what the input has at its position. -/

theorem current_eq (sound : p.Sound g input) :
    p.cursor.current? = input.token? p.cursor.position := by
  rw [← sound.reads]
  rfl

theorem next_eq (sound : p.Sound g input) :
    p.cursor.peek? 1 = input.token? (p.cursor.position + 1) := by
  rw [← sound.reads]
  rfl

theorem placeholder_eq (sound : p.Sound g input) :
    p.cursor.atPlaceholder = (input.cursorAt p.cursor.position).atPlaceholder := by
  rw [← sound.reads]
  rfl

theorem range_eq (sound : p.Sound g input) :
    p.cursor.currentRange = (input.cursorAt p.cursor.position).currentRange := by
  rw [← sound.reads]
  rfl

theorem remaining_eq (sound : p.Sound g input) :
    p.cursor.remaining = input.size - p.cursor.position := by
  rw [← sound.reads]
  rfl

end Progress.Sound

/-! ### Moving on -/

/-- `q` comes after `p`, at the same depth.  A parse that is `calm` is not aborted in
between. -/
structure Progress.Keeps (calm : Prop) (p q : Progress) : Prop where
  depth : q.depth = p.depth
  scan : q.scan = p.scan
  waved : ∀ entry ∈ p.waved, entry ∈ q.waved
  aborted : p.failure ≠ none → q.failure = p.failure
  quiet : calm → p.failure = none → q.failure = none

namespace Progress.Keeps

variable {calm : Prop} {p q r : Progress}

theorem refl : p.Keeps calm p := ⟨rfl, rfl, fun _ member => member, fun _ => rfl, fun _ none => none⟩

theorem trans (first : p.Keeps calm q) (second : q.Keeps calm r) : p.Keeps calm r := by
  refine ⟨second.depth.trans first.depth, second.scan.trans first.scan,
    fun entry member => second.waved entry (first.waved entry member), fun failed => ?_,
    fun calm none => second.quiet calm (first.quiet calm none)⟩
  have middle := first.aborted failed
  rw [second.aborted (by rwa [middle]), middle]

end Progress.Keeps

/-- From `p` to `q` the cursor takes `n` tokens and adds the events. -/
structure Proceeds (g : Grammar) (calm : Prop) (p : Progress) (n : Nat) (events : List Event)
    (q : Progress) : Prop where
  keeps : p.Keeps calm q
  cursor : q.cursor = p.cursor.extend n events
  inside : p.cursor.position + n ≤ p.cursor.size
  faithful : q.memo.Faithful g

namespace Proceeds

variable {g : Grammar} {input : Input} {calm : Prop} {p q r : Progress} {n k : Nat}
  {events more : List Event}

theorem refl (calm : Prop) (sound : p.Sound g input) : Proceeds g calm p 0 [] p := by
  refine ⟨.refl, by simp, ?_, sound.faithful⟩
  have inside := sound.inside
  rw [← sound.reads] at inside
  exact inside

theorem trans (first : Proceeds g calm p n events q) (second : Proceeds g calm q k more r) :
    Proceeds g calm p (n + k) (events ++ more) r := by
  refine ⟨first.keeps.trans second.keeps, ?_, ?_, second.faithful⟩
  · rw [second.cursor, first.cursor, Cursor.extend_extend]
  · have inside := second.inside
    rw [first.cursor, Cursor.extend_position, Cursor.extend_size] at inside
    omega

theorem sound (moved : Proceeds g calm p n events q) (before : p.Sound g input) :
    q.Sound g input := by
  refine ⟨by rw [moved.cursor, Cursor.extend_input, before.reads], ?_, moved.faithful⟩
  have inside := moved.inside
  rw [moved.cursor, Cursor.extend_position, ← before.reads]
  exact inside

theorem stay (moved : Proceeds g calm p 0 [] q) : q.cursor = p.cursor := by
  rw [moved.cursor, Cursor.extend_zero]

theorem position (moved : Proceeds g calm p n events q) :
    q.cursor.position = p.cursor.position + n := by
  rw [moved.cursor, Cursor.extend_position]

end Proceeds

/-! ### Under a mark -/

/-- The state after a mark has been set. -/
def Progress.marked (p : Progress) : Progress := { p with cursor := p.cursor.marked }

/-- The same state with the cursor somewhere else. -/
def Progress.moveTo (p : Progress) (cursor : Cursor) : Progress := { p with cursor }

/-- The state after a move, with the cursor somewhere else. -/
theorem Proceeds.moveTo {g : Grammar} {calm : Prop} {p q : Progress} {n k : Nat}
    {events : List Event} (moved : Proceeds g calm p n events q)
    (room : p.cursor.position + k ≤ p.cursor.size) (more : List Event) :
    Proceeds g calm p k more (q.moveTo (p.cursor.extend k more)) := by
  obtain ⟨depth, scan, waved, aborted, quiet⟩ := moved.keeps
  exact ⟨⟨depth, scan, waved, aborted, quiet⟩, rfl, room, moved.faithful⟩

section Marks

variable {g : Grammar} {input : Input} {calm : Prop} {p q : Progress} {n : Nat}
  {events : List Event} {excused : Fault → Prop} {β : Type} {post : β → Progress → Prop}

theorem Progress.Sound.marked (sound : p.Sound g input) : p.marked.Sound g input :=
  ⟨sound.reads, sound.inside, sound.faithful⟩

theorem Proceeds.unmark (moved : Proceeds g calm p.marked n events q) :
    p.Keeps calm q := by
  obtain ⟨⟨depth, scan, waved, aborted, quiet⟩, -, -, -⟩ := moved
  exact ⟨depth, scan, waved, aborted, quiet⟩

/-- What is done under a mark, seen from before the mark and after it was handed back. -/
theorem Proceeds.handBack (moved : Proceeds g calm p.marked n events q) {k : Nat}
    (fewer : k ≤ n) (more : List Event) :
    Proceeds g calm p k more (q.moveTo (p.cursor.extend k more)) := by
  obtain ⟨depth, scan, waved, aborted, quiet⟩ := moved.unmark
  have inside : p.cursor.position + n ≤ p.cursor.size := moved.inside
  exact ⟨⟨depth, scan, waved, aborted, quiet⟩, rfl, by omega, moved.faithful⟩

/-- What is done under a mark that is rolled back. -/
theorem Proceeds.rolledBack (moved : Proceeds g calm p.marked n events q) :
    Proceeds g calm p 0 [] (q.moveTo p.cursor) := by
  have back := moved.handBack (Nat.zero_le n) []
  rwa [Cursor.extend_zero] at back

/-! What the moves of the cursor do when something was done under a mark. -/

theorem Progress.mark_eq (p : Progress) :
    (liftM Cursor.mark : Matcher Mark) p = .ok p.cursor.place p.marked :=
  move_eq Cursor.mark_eq

theorem Progress.rollback_eq (added : q.cursor = p.cursor.marked.extend n events) :
    (liftM (Cursor.rollback p.cursor.place) : Matcher Unit) q = .ok () (q.moveTo p.cursor) := by
  refine move_eq ?_
  rw [added]
  exact Cursor.rollback_eq

theorem Progress.release_eq (added : q.cursor = p.cursor.marked.extend n events) :
    (liftM (Cursor.release p.cursor.place) : Matcher Unit) q =
      .ok () (q.moveTo (p.cursor.extend n (.tombstone :: events))) := by
  refine move_eq ?_
  rw [added]
  exact Cursor.release_eq

theorem Progress.takeBack_eq (added : q.cursor = p.cursor.marked.extend n events) :
    (liftM (Cursor.takeBack p.cursor.place) : Matcher Snapshot) q =
      .ok ⟨p.cursor.position, p.cursor.position + n, p.cursor.events.size,
        (Event.tombstone :: events).toArray⟩ (q.moveTo p.cursor) := by
  refine move_eq ?_
  rw [added]
  exact Cursor.takeBack_eq

theorem Progress.complete_eq (sound : p.Sound g input)
    (added : q.cursor = p.cursor.marked.extend n events) (id : ElementId) :
    (liftM (Cursor.complete p.cursor.place id) : Matcher Unit) q =
      .ok () (q.moveTo (p.cursor.extend n (input.node id p.cursor.position events))) := by
  refine move_eq ?_
  rw [added, ← sound.reads]
  exact Cursor.complete_eq id

theorem ensures_mark {next : Mark → Matcher β}
    (kept : Ensures excused (next p.cursor.place) p.marked post) :
    Ensures excused (liftM Cursor.mark >>= next) p post :=
  ensures_bind_of_ok p.mark_eq kept

theorem ensures_rollback {next : Unit → Matcher β} (moved : Proceeds g calm p.marked n events q)
    (kept : Ensures excused (next ()) (q.moveTo p.cursor) post) :
    Ensures excused (liftM (Cursor.rollback p.cursor.place) >>= next) q post :=
  ensures_bind_of_ok (Progress.rollback_eq moved.cursor) kept

theorem ensures_release {next : Unit → Matcher β} (moved : Proceeds g calm p.marked n events q)
    (kept : Ensures excused (next ())
      (q.moveTo (p.cursor.extend n (.tombstone :: events))) post) :
    Ensures excused (liftM (Cursor.release p.cursor.place) >>= next) q post :=
  ensures_bind_of_ok (Progress.release_eq moved.cursor) kept

theorem ensures_takeBack {next : Snapshot → Matcher β}
    (moved : Proceeds g calm p.marked n events q)
    (kept : Ensures excused (next ⟨p.cursor.position, p.cursor.position + n,
      p.cursor.events.size, (Event.tombstone :: events).toArray⟩) (q.moveTo p.cursor) post) :
    Ensures excused (liftM (Cursor.takeBack p.cursor.place) >>= next) q post :=
  ensures_bind_of_ok (Progress.takeBack_eq moved.cursor) kept

theorem ensures_complete {next : Unit → Matcher β} (sound : p.Sound g input)
    (moved : Proceeds g calm p.marked n events q) {id : ElementId}
    (kept : Ensures excused (next ())
      (q.moveTo (p.cursor.extend n (input.node id p.cursor.position events))) post) :
    Ensures excused (liftM (Cursor.complete p.cursor.place id) >>= next) q post :=
  ensures_bind_of_ok (Progress.complete_eq sound moved.cursor id) kept

end Marks

/-! ### Attempts -/

/-- What a match leaves: whether it is complete, the positions where it begins and ends,
and what it adds to the record. -/
abbrev Record := Bool → Nat → Nat → List Event → Prop

/-- A parse that is under way and keeps the best incomplete alternative of a choice. -/
def Progress.Eager (p : Progress) : Prop := p.failure = none ∧ p.scan = true

/-- A match takes a token or more and leaves a record; without a match nothing is
recorded, and there was nothing to be had. -/
def Matched (record : Record) (idle : Prop) (first : Nat) (events : List Event) : Outcome → Prop
  | .noMatch => events = [] ∧ idle
  | .partialMatch n => 0 < n ∧ record false first (first + n) events
  | .fullMatch n => 0 < n ∧ record true first (first + n) events

/-- What comes of an attempt.  That there was nothing to be had is only known of an eager
parse that is not aborted on the way. -/
def Came (g : Grammar) (calm : Prop) (record : Record) (idle : Nat → Prop) (p : Progress)
    (outcome : Outcome) (q : Progress) : Prop :=
  ∃ events, Proceeds g calm p outcome.tokens events q ∧
    Matched record (calm → p.Eager → idle p.cursor.position) p.cursor.position events outcome

section Coming

variable {g : Grammar} {calm : Prop} {record : Record} {idle : Nat → Prop} {p q : Progress}
  {n : Nat} {events : List Event}

theorem Proceeds.eager (moved : Proceeds g calm p n events q) (quiet : calm) (eager : p.Eager) :
    q.Eager :=
  ⟨moved.keeps.quiet quiet eager.1, moved.keeps.scan.trans eager.2⟩

/-- A composite of which something was matched. -/
theorem came_of_tally (tally : Tally) (positive : 0 < tally.tokens)
    (moved : Proceeds g calm p tally.tokens events q)
    (recorded : record tally.complete p.cursor.position (p.cursor.position + tally.tokens) events) :
    Came g calm record idle p tally.outcome q := by
  obtain ⟨tokens, complete⟩ := tally
  cases complete with
  | true => exact ⟨events, moved, positive, recorded⟩
  | false => exact ⟨events, moved, positive, recorded⟩

/-- An attempt after which the cursor has been put back. -/
theorem came_of_handBack (moved : Proceeds g calm p.marked n events q)
    (nothing : calm → p.Eager → idle p.cursor.position) :
    Came g calm record idle p .noMatch (q.moveTo p.cursor) :=
  ⟨[], moved.rolledBack, rfl, nothing⟩

end Coming

/-- The path to an element of the grammar that stands at one of its own slots. -/
theorem Path.Within.push {g : Grammar} {outer around : Path} (within : outer.Within g around)
    {id : ElementId} {kind : Kind ElementId} (stands : g.kind? id = some kind) {slot : Nat}
    (own : ∀ slots, kind = .sequence slots → slot < slots.length) :
    Path.Within g (⟨id, slot⟩ :: outer) around := by
  intro frame member
  rcases List.mem_cons.1 member with rfl | further
  · refine ⟨Grammar.lt_of_kind?_eq_some stands, ?_⟩
    rintro ⟨slots, sequence, beyond, -⟩
    have same : kind = .sequence slots := Option.some.inj (stands.symm.trans sequence)
    exact absurd (own slots same) (Nat.not_lt.2 beyond)
  · exact within frame further

/-- What is agreed about attempts: at what position and depth an element may be entered
without the parse being aborted below it, what a match of an element leaves, and what is
known of an element of which nothing came at a position. -/
structure Terms where
  licence : ElementId → (position depth : Nat) → Prop
  record : ElementId → Path → Record
  idle : ElementId → (position : Nat) → Prop

/-- What a match of an element at a slot leaves. -/
abbrev Terms.below (terms : Terms) (id : ElementId) (outer : Path) : Nat → ElementId → Record :=
  fun slot item => terms.record item (⟨id, slot⟩ :: outer)

/-- In whatever state at this depth the element is attempted, something comes of it. -/
def Attempt.HonoursAt (s : Setting) (input : Input) (around : Path) (terms : Terms) (depth : Nat)
    (calm : Prop) (attempt : Attempt) (id : ElementId) : Prop :=
  ∀ (path : Path) (p : Progress), path.Within s.grammar around → p.Sound s.grammar input →
    p.depth = depth → (calm → terms.licence id p.cursor.position depth) →
      Ensures (Excused s.grammar input around) (attempt id path) p
        (Came s.grammar calm (terms.record id path) (terms.idle id) p)

/-- Whatever element is attempted, something comes of it.  If it is `calm`, the parse need only be
up to elements that may be entered. -/
def Attempt.Honours (s : Setting) (input : Input) (around : Path) (terms : Terms) (depth : Nat)
    (calm : Prop) (attempt : Attempt) : Prop :=
  ∀ id, id < s.grammar.elements.size → attempt.HonoursAt s input around terms depth calm id

theorem Attempt.Honours.leaf {s : Setting} {input : Input} {around : Path} {terms : Terms}
    {depth : Nat} {calm : Prop} {attempt : Attempt} {id : ElementId} {kind : Kind ElementId}
    (honest : attempt.Honours s input around terms depth calm)
    (stands : s.grammar.kind? id = some kind) :
    attempt.HonoursAt s input around terms depth calm id :=
  honest id (Grammar.lt_of_kind?_eq_some stands)

/-- Every match of a leaf is complete and takes one token. -/
def LeavesTakeOne (g : Grammar) (record : ElementId → Path → Record) : Prop :=
  ∀ id kind, g.kind? id = some kind → kind.isLeaf = true →
    ∀ path complete first last events, record id path complete first last events →
      complete = true ∧ last = first + 1

/-- What comes of an attempt of a leaf: nothing, or one token. -/
theorem ensures_leafAttempt {s : Setting} {input : Input} {around path : Path} {terms : Terms}
    {depth : Nat} {attempt : Attempt} {calm : Prop} {id : ElementId} {kind : Kind ElementId}
    {p : Progress} (honest : attempt.HonoursAt s input around terms depth calm id)
    (single : LeavesTakeOne s.grammar terms.record) (stands : s.grammar.kind? id = some kind)
    (leaf : kind.isLeaf = true) (within : path.Within s.grammar around)
    (sound : p.Sound s.grammar input) (level : p.depth = depth)
    (free : calm → terms.licence id p.cursor.position depth) :
    Ensures (Excused s.grammar input around) (attempt id path) p fun outcome q =>
      outcome = .noMatch ∧ Proceeds s.grammar calm p 0 [] q ∧
          (calm → p.Eager → terms.idle id p.cursor.position) ∨
        outcome = .fullMatch 1 ∧ ∃ events, Proceeds s.grammar calm p 1 events q ∧
          terms.record id path true p.cursor.position (p.cursor.position + 1) events := by
  refine (honest path p within sound level free).imp fun outcome q => ?_
  rintro ⟨events, moved, matched⟩
  cases outcome with
  | noMatch =>
      obtain ⟨rfl, nothing⟩ := matched
      exact Or.inl ⟨rfl, moved, nothing⟩
  | partialMatch n =>
      obtain ⟨impossible, -⟩ := single id kind stands leaf _ _ _ _ _ matched.2
      cases impossible
  | fullMatch n =>
      obtain ⟨-, one⟩ := single id kind stands leaf _ _ _ _ _ matched.2
      obtain rfl : n = 1 := by omega
      exact Or.inr ⟨rfl, events, moved, matched.2⟩

end Dialect
