import Dialect.Proofs.Matching.Admission
import Dialect.Proofs.Matching.Alike
import Dialect.Proofs.Matching.Best
import Dialect.Proofs.Matching.Run

/-!
# Which alternative a choice takes

A choice tries its alternatives one after the other, each at the same cursor and under a mark
(`Trial`, `Tries`).  It ends with the first trial that matches in full.  When there is none, a
parse that recovers takes the best of those that match in part, and the earliest of equally good
ones (`Best`); there the record of the trial, which has been taken back in between, is replayed.
Either way the cursor is left with what that trial recorded and nothing else (`Selects`,
`oneOf_selects`).

Going through the alternatives is a fold over their trials (`Sweeps`, `tryAlternatives_sweeps`).
-/

set_option autoImplicit false

namespace Dialect

/-! ### Trials -/

/-- One attempt of an alternative. -/
structure Trial where
  slot : Slot ElementId
  /-- Which of the alternatives it is. -/
  place : Nat
  before : Progress
  outcome : Outcome
  after : Progress

namespace Trial

/-- What was tried. -/
def choice (trial : Trial) : Slot ElementId × Nat := (trial.slot, trial.place)

/-- The alternative is attempted from the state, under a mark. -/
structure Runs (g : Grammar) (attempt : Attempt) (path : Path) (p : Progress) (trial : Trial) :
    Prop where
  starts : p.marked.Alike g trial.before
  ran : attempt trial.slot.item (path.moveTo trial.place) trial.before =
    .ok trial.outcome trial.after

/-- What the trial added to the record under its mark. -/
def Added (c : Cursor) (trial : Trial) (events : List Event) : Prop :=
  trial.after.cursor = c.marked.extend trial.outcome.tokens events

end Trial

/-- From `p` to `q` the alternatives are tried one after the other.  Each trial finds the cursor
where the first one found it. -/
inductive Tries (g : Grammar) (attempt : Attempt) (path : Path) :
    Progress → List Trial → Progress → Prop
  | done {p q} (alike : p.Alike g q) : Tries g attempt path p [] q
  | next {p q} {trial : Trial} {trials} (runs : trial.Runs g attempt path p)
      (rest : Tries g attempt path (trial.after.moveTo p.cursor) trials q) :
      Tries g attempt path p (trial :: trials) q

/-- How a choice ends that has these alternatives to try from `p` on. -/
inductive Selects (g : Grammar) (attempt : Attempt) (path : Path)
    (choices : List (Slot ElementId × Nat)) (p : Progress) :
    EStateM.Result Fault Progress Outcome → Prop
  /-- A trial matches in full, and none did before. -/
  | full {trials q later events} {trial : Trial} (tried : Tries g attempt path p trials q)
      (runs : trial.Runs g attempt path q)
      (listed : choices = trials.map Trial.choice ++ trial.choice :: later)
      (short : ∀ other ∈ trials, other.outcome.isFull = false)
      (isFull : trial.outcome.isFull = true) (added : trial.Added p.cursor events) :
      Selects g attempt path choices p (.ok trial.outcome
        (trial.after.moveTo (p.cursor.extend trial.outcome.tokens (.tombstone :: events))))
  /-- All have been tried, none matched in full, and the parse recovers: the best is taken. -/
  | best {trials q events} {trial : Trial} (tried : Tries g attempt path p trials q)
      (listed : choices = trials.map Trial.choice)
      (short : ∀ other ∈ trials, other.outcome.isFull = false)
      (scan : p.scan = true) (best : Best Trial.outcome trials trial)
      (added : trial.Added p.cursor events) :
      Selects g attempt path choices p (.ok trial.outcome
        (q.moveTo (p.cursor.extend trial.outcome.tokens (.tombstone :: events))))
  /-- All have been tried, none matched in full, and none in part if the parse recovers. -/
  | nothing {trials q} (tried : Tries g attempt path p trials q)
      (listed : choices = trials.map Trial.choice)
      (short : ∀ other ∈ trials, other.outcome.isFull = false)
      (poor : p.scan = true → ∀ other ∈ trials, other.outcome.isPartial = false) :
      Selects g attempt path choices p (.ok .noMatch (q.moveTo p.cursor))
  /-- A trial ends with a fault, and none matched in full before. -/
  | fault {trials q r slot place later fault after} (tried : Tries g attempt path p trials q)
      (listed : choices = trials.map Trial.choice ++ (slot, place) :: later)
      (short : ∀ other ∈ trials, other.outcome.isFull = false) (starts : q.marked.Alike g r)
      (failed : attempt slot.item (path.moveTo place) r = .error fault after) :
      Selects g attempt path choices p (.error fault after)

/-- The trial to fall back on when another one has been made, in a parse that recovers. -/
def Trial.keep (scan : Bool) (held : Option Trial) (trial : Trial) : Option Trial :=
  if scan then fallBack Trial.outcome held trial else held

theorem Trial.keep_eq (scan : Bool) (held : Option Trial) (trial : Trial) :
    Trial.keep scan held trial = if scan && trial.outcome.isPartial &&
        Matcher.improves trial.outcome (held.map fun other => (other.outcome, other)) then some trial
      else held := by
  cases scan <;> rfl

theorem Trial.keep_true : Trial.keep true = fallBack Trial.outcome := rfl

/-- A parse that does not recover keeps nothing. -/
theorem Trial.keep_foldl_false (trials : List Trial) :
    trials.foldl (Trial.keep false) none = none := by
  induction trials with
  | nil => rfl
  | cons trial trials ih => exact ih

/-! ### Going through the alternatives -/

section Sweeps

variable {s : Setting} {input : Input} {around outer : Path} {terms : Terms} {depth : Nat}
  {attempt : Attempt} {id : ElementId} {path : Path} {g : Grammar} {p q r : Progress}
  {trial : Trial} {trials : List Trial} {choices : List (Slot ElementId × Nat)}

theorem Progress.Alike.trans (first : p.Alike g q) (second : q.Alike g r) : p.Alike g r := by
  refine ⟨?_, first.faithful, second.faithful'⟩
  rw [second.same, first.same]

theorem Progress.Alike.marked (alike : p.Alike g q) : p.marked.Alike g q.marked := by
  refine ⟨?_, alike.faithful, alike.faithful'⟩
  rw [alike.same]
  rfl

theorem Progress.Alike.cursor_eq (alike : p.Alike g q) : q.cursor = p.cursor := by
  rw [alike.same]

theorem Progress.Alike.scan_eq (alike : p.Alike g q) : q.scan = p.scan := by
  rw [alike.same]

theorem Trial.Runs.after (alike : p.Alike g q) (runs : trial.Runs g attempt path q) :
    trial.Runs g attempt path p :=
  ⟨alike.marked.trans runs.starts, runs.ran⟩

theorem Tries.after (alike : p.Alike g q) (tried : Tries g attempt path q trials r) :
    Tries g attempt path p trials r := by
  cases tried with
  | done alike' => exact .done (alike.trans alike')
  | next runs rest =>
      rw [alike.cursor_eq] at rest
      exact .next (runs.after alike) rest

theorem Tries.cursor_eq (tried : Tries g attempt path p trials q) : q.cursor = p.cursor := by
  induction tried with
  | done alike => exact alike.cursor_eq
  | next runs rest ih => exact ih

/-- What a choice holds on to is the record of a trial, taken back at the cursor. -/
inductive Holds (c : Cursor) : Option (Outcome × Snapshot) → Option Trial → Prop
  | nothing : Holds c none none
  | snapshot {trial : Trial} {events} (added : trial.Added c events) :
      Holds c (some (trial.outcome, ⟨c.position, c.position + trial.outcome.tokens, c.events.size,
        (Event.tombstone :: events).toArray⟩)) (some trial)

theorem Holds.improves {c : Cursor} {best : Option (Outcome × Snapshot)} {held : Option Trial}
    (holds : Holds c best held) (outcome : Outcome) :
    Matcher.improves outcome best =
      Matcher.improves outcome (held.map fun other => (other.outcome, other)) := by
  cases holds <;> rfl

/-- How going through alternatives ends that has these to try from `p` on and holds on to a
trial made before. -/
inductive Sweeps (g : Grammar) (attempt : Attempt) (path : Path)
    (choices : List (Slot ElementId × Nat)) (p : Progress) (held : Option Trial) :
    EStateM.Result Fault Progress (Outcome ⊕ Option (Outcome × Snapshot)) → Prop
  | full {trials q later events} {trial : Trial} (tried : Tries g attempt path p trials q)
      (runs : trial.Runs g attempt path q)
      (listed : choices = trials.map Trial.choice ++ trial.choice :: later)
      (short : ∀ other ∈ trials, other.outcome.isFull = false)
      (isFull : trial.outcome.isFull = true) (added : trial.Added p.cursor events) :
      Sweeps g attempt path choices p held (.ok (.inl trial.outcome)
        (trial.after.moveTo (p.cursor.extend trial.outcome.tokens (.tombstone :: events))))
  | spent {trials q best} (tried : Tries g attempt path p trials q)
      (listed : choices = trials.map Trial.choice)
      (short : ∀ other ∈ trials, other.outcome.isFull = false)
      (holds : Holds p.cursor best (trials.foldl (Trial.keep p.scan) held)) :
      Sweeps g attempt path choices p held (.ok (.inr best) q)
  | fault {trials q r slot place later fault after} (tried : Tries g attempt path p trials q)
      (listed : choices = trials.map Trial.choice ++ (slot, place) :: later)
      (short : ∀ other ∈ trials, other.outcome.isFull = false) (starts : q.marked.Alike g r)
      (failed : attempt slot.item (path.moveTo place) r = .error fault after) :
      Sweeps g attempt path choices p held (.error fault after)

variable {held : Option Trial}
  {result : EStateM.Result Fault Progress (Outcome ⊕ Option (Outcome × Snapshot))}

theorem Sweeps.after (alike : p.Alike g q) (sweeps : Sweeps g attempt path choices q held result) :
    Sweeps g attempt path choices p held result := by
  cases sweeps with
  | full tried runs listed short isFull added =>
      rw [alike.cursor_eq] at added ⊢
      exact .full (tried.after alike) runs listed short isFull added
  | spent tried listed short holds =>
      rw [alike.cursor_eq, alike.scan_eq] at holds
      exact .spent (tried.after alike) listed short holds
  | fault tried listed short starts failed =>
      exact .fault (tried.after alike) listed short starts failed

/-- One more trial in front, which does not match in full. -/
theorem Sweeps.cons (runs : trial.Runs g attempt path p) (short : trial.outcome.isFull = false)
    (scan : trial.after.scan = p.scan)
    (sweeps : Sweeps g attempt path choices (trial.after.moveTo p.cursor)
      (Trial.keep p.scan held trial) result) :
    Sweeps g attempt path (trial.choice :: choices) p held result := by
  have shorts : ∀ {trials : List Trial}, (∀ other ∈ trials, other.outcome.isFull = false) →
      ∀ other ∈ trial :: trials, other.outcome.isFull = false := fun others other member => by
    rcases List.mem_cons.1 member with rfl | further
    · exact short
    · exact others other further
  cases sweeps with
  | full tried running listed others isFull added =>
      exact .full (.next runs tried) running (by rw [listed]; rfl) (shorts others) isFull added
  | spent tried listed others holds =>
      have folded : Holds p.cursor _ (List.foldl (Trial.keep trial.after.scan) _ _) := holds
      rw [scan] at folded
      exact .spent (.next runs tried) (by rw [listed]; rfl) (shorts others) folded
  | fault tried listed others starts failed =>
      exact .fault (.next runs tried) (by rw [listed]; rfl) (shorts others) starts failed

/-! What is done with the first alternative, by what comes of attempting it. -/

section TryThen

open Matcher

variable {unfiltered : Bool} {current : TokenTypeId} {slot : Slot ElementId}
  {rest : List (Slot ElementId)} {index : Nat} {best : Option (Outcome × Snapshot)}
  {outcome : Outcome} {events : List Event} {fault : Fault}

theorem tryThen_error
    (failed : attempt slot.item (path.moveTo index) p.marked = .error fault q) :
    tryThen s attempt path unfiltered current slot rest index best p = .error fault q := by
  unfold tryThen
  rw [bind_of_ok p.mark_eq, bind_of_error failed]

theorem tryThen_full (ran : attempt slot.item (path.moveTo index) p.marked = .ok outcome q)
    (isFull : outcome.isFull = true)
    (added : q.cursor = p.cursor.marked.extend outcome.tokens events) :
    tryThen s attempt path unfiltered current slot rest index best p = .ok (.inl outcome)
      (q.moveTo (p.cursor.extend outcome.tokens (.tombstone :: events))) := by
  unfold tryThen
  rw [bind_of_ok p.mark_eq, bind_of_ok ran, if_pos isFull,
    bind_of_ok (Progress.release_eq added)]
  rfl

theorem tryThen_short (ran : attempt slot.item (path.moveTo index) p.marked = .ok outcome q)
    (short : outcome.isFull = false)
    (added : q.cursor = p.cursor.marked.extend outcome.tokens events) (scan : q.scan = p.scan)
    (holds : Holds p.cursor best held) :
    ∃ best', Holds p.cursor best'
        (Trial.keep p.scan held ⟨slot, index, p.marked, outcome, q⟩) ∧
      tryThen s attempt path unfiltered current slot rest index best p =
        tryAlternatives s attempt path unfiltered current rest (index + 1) best'
          (q.moveTo p.cursor) := by
  have ended : tryThen s attempt path unfiltered current slot rest index best p = (do
      if q.scan && outcome.isPartial && improves outcome best then
        let snapshot ← Cursor.takeBack p.cursor.place
        tryAlternatives s attempt path unfiltered current rest (index + 1) (some (outcome, snapshot))
      else do
        Cursor.rollback p.cursor.place
        tryAlternatives s attempt path unfiltered current rest (index + 1) best :
      Matcher (Outcome ⊕ Option (Outcome × Snapshot))) q := by
    unfold tryThen
    rw [bind_of_ok p.mark_eq, bind_of_ok ran, if_neg (by simp [short]), bind_apply, get_apply]
  rw [ended, Trial.keep_eq, ← scan, ← holds.improves]
  dsimp only
  split
  · refine ⟨_, .snapshot added, ?_⟩
    rw [bind_of_ok (Progress.takeBack_eq added)]
  · refine ⟨best, holds, ?_⟩
    rw [bind_of_ok (Progress.rollback_eq added)]

/-- What comes of trying an alternative and going through the others. -/
theorem tryThen_sweeps (honest : attempt.Honours s input around terms depth False)
    (bound : slot.item < s.grammar.elements.size) (within : (path.moveTo index).Within s.grammar around)
    (sound : p.Sound s.grammar input) (level : p.depth = depth) (holds : Holds p.cursor best held)
    (others : ∀ {q best held}, q.Sound s.grammar input → q.depth = depth →
      Holds q.cursor best held → Sweeps s.grammar attempt path choices q held
        (tryAlternatives s attempt path unfiltered current rest (index + 1) best q)) :
    Sweeps s.grammar attempt path ((slot, index) :: choices) p held
      (tryThen s attempt path unfiltered current slot rest index best p) := by
  have came := honest slot.item bound _ p.marked within sound.marked level fun no => no.elim
  unfold Ensures at came
  cases ran : attempt slot.item (path.moveTo index) p.marked with
  | error fault after =>
      rw [tryThen_error ran]
      exact .fault (.done (.refl sound.faithful)) rfl (List.forall_mem_nil _)
        (.refl sound.faithful) ran
  | ok outcome q =>
      rw [ran] at came
      obtain ⟨events, moved, -⟩ := came
      have runs : Trial.Runs s.grammar attempt path p ⟨slot, index, p.marked, outcome, q⟩ :=
        ⟨.refl sound.faithful, ran⟩
      cases isFull : outcome.isFull with
      | true =>
          rw [tryThen_full ran isFull moved.cursor]
          exact .full
            (.done (.refl sound.faithful)) runs rfl (List.forall_mem_nil _) isFull moved.cursor
      | false =>
          obtain ⟨best', holds', went⟩ :=
            tryThen_short (s := s) ran isFull moved.cursor moved.keeps.scan holds
          rw [went]
          exact .cons runs isFull moved.keeps.scan
            (others (moved.rolledBack.sound sound) (moved.keeps.depth.trans level) holds')

end TryThen

/-- What comes of going through alternatives. -/
theorem tryAlternatives_sweeps (stage : Stage s input)
    (honest : attempt.Honours s input around terms depth False) {unfiltered : Bool}
    {current : TokenTypeId} {slots : List (Slot ElementId)} {index : Nat}
    (bound : ∀ slot ∈ slots, slot.item < s.grammar.elements.size)
    (places : ∀ place, (path.moveTo place).Within s.grammar around)
    (sound : p.Sound s.grammar input) (level : p.depth = depth)
    {best : Option (Outcome × Snapshot)} (holds : Holds p.cursor best held) :
    Sweeps s.grammar attempt path
      ((slots.zipIdx index).filter fun choice => s.lets unfiltered current choice.1) p held
      (Matcher.tryAlternatives s attempt path unfiltered current slots index best p) := by
  induction slots generalizing index p best held with
  | nil =>
      exact .spent (.done (.refl sound.faithful)) rfl (List.forall_mem_nil _) holds
  | cons slot rest ih =>
      have bound' : ∀ other ∈ rest, other.item < s.grammar.elements.size :=
        fun other member => bound other (List.mem_cons_of_mem _ member)
      rw [List.zipIdx_cons]
      -- What the filter passes over is not among the choices.
      cases lets : s.lets unfiltered current slot with
      | false =>
          rw [List.filter_cons_of_neg (by simp [lets])]
          have here : ∀ other ∈ [slot], other.item < s.grammar.elements.size := by
            simpa using bound slot List.mem_cons_self
          obtain ⟨memo, kept, passed⟩ := tryAlternatives_pass stage.reliable attempt path rest here
            (by simpa using lets) index best sound.faithful
          rw [List.singleton_append] at passed
          rw [passed]
          exact .after ⟨rfl, sound.faithful, kept⟩
            (ih bound' (p := { p with memo }) ⟨sound.reads, sound.inside, kept⟩ level holds)
      | true =>
          rw [List.filter_cons_of_pos (by simp [lets])]
          have none : ∀ other ∈ ([] : List (Slot ElementId)),
              other.item < s.grammar.elements.size := by simp
          obtain ⟨memo, kept, tried⟩ := tryAlternatives_try stage.reliable attempt path none
            (by simp) (bound slot List.mem_cons_self) lets index best sound.faithful
          rw [List.nil_append] at tried
          rw [tried]
          refine .after (q := { p with memo }) ⟨rfl, sound.faithful, kept⟩ ?_
          exact tryThen_sweeps honest (bound slot List.mem_cons_self) (places index)
            (p := { p with memo }) ⟨sound.reads, sound.inside, kept⟩ level holds
            fun soundThere levelThere holdsThere => ih bound' soundThere levelThere holdsThere

end Sweeps

/-! ### Choices -/

/-- Each alternative is listed once. -/
theorem choices_ascending (slots : List (Slot ElementId)) (tried : Slot ElementId → Bool) :
    ((slots.zipIdx.filter fun choice => tried choice.1).map Prod.snd).Pairwise (· < ·) := by
  have sublist := (List.filter_sublist (p := fun choice => tried choice.1)
    (l := slots.zipIdx)).map Prod.snd
  rw [List.zipIdx_map_snd] at sublist
  exact List.Pairwise.sublist sublist List.pairwise_lt_range'

section Choices

open Matcher

/-- What a choice does when it has gone through its alternatives. -/
def Matcher.conclude : Outcome ⊕ Option (Outcome × Snapshot) → Matcher Outcome
  | .inl outcome => return outcome
  | .inr none => return .noMatch
  | .inr (some (outcome, snapshot)) => do
      Cursor.restore snapshot
      return outcome

variable {s : Setting} {input : Input} {around outer : Path} {terms : Terms} {depth : Nat}
  {attempt : Attempt} {id : ElementId} {p : Progress}

theorem conclude_snapshot {trial : Trial} {events : List Event} {q : Progress}
    (back : q.cursor = p.cursor) :
    Matcher.conclude (.inr (some (trial.outcome, ⟨p.cursor.position,
        p.cursor.position + trial.outcome.tokens, p.cursor.events.size,
        (Event.tombstone :: events).toArray⟩))) q =
      .ok trial.outcome
        (q.moveTo (p.cursor.extend trial.outcome.tokens (.tombstone :: events))) := by
  have replayed : (liftM (Cursor.restore ⟨p.cursor.position, p.cursor.position + trial.outcome.tokens,
      p.cursor.events.size, (Event.tombstone :: events).toArray⟩) : Matcher Unit) q = .ok ()
        (q.moveTo (p.cursor.extend trial.outcome.tokens (.tombstone :: events))) :=
    move_eq (by rw [back]; exact Cursor.restore_eq)
  simp only [Matcher.conclude, bind_apply, replayed]
  rfl

/-- What a choice makes of going through its alternatives. -/
theorem Sweeps.selects {g : Grammar} {path : Path} {choices : List (Slot ElementId × Nat)}
    {step : Matcher (Outcome ⊕ Option (Outcome × Snapshot))} {q : Progress}
    (sweeps : Sweeps g attempt path choices p none (step q)) :
    Selects g attempt path choices p ((step >>= Matcher.conclude) q) := by
  rw [bind_apply]
  generalize step q = result at sweeps
  cases sweeps with
  | full tried runs listed short isFull added =>
      exact .full tried runs listed short isFull added
  | fault tried listed short starts failed => exact .fault tried listed short starts failed
  | @spent trials q best tried listed short holds =>
      dsimp only
      -- Partial matches are remembered only while scanning.
      cases scan : p.scan with
      | false =>
          rw [scan, Trial.keep_foldl_false] at holds
          cases holds
          have ended := Selects.nothing tried listed short (by simp [scan])
          rwa [← tried.cursor_eq] at ended
      | true =>
          rw [scan, Trial.keep_true] at holds
          rcases foldl_fallBack Trial.outcome trials with ⟨trial, kept, best⟩ | ⟨kept, poor⟩
          · rw [kept] at holds
            cases holds with
            | snapshot added =>
                rw [conclude_snapshot tried.cursor_eq]
                exact .best tried listed short scan best added
          · rw [kept] at holds
            cases holds
            have ended := Selects.nothing tried listed short fun _ => poor
            rwa [← tried.cursor_eq] at ended

/-- What comes of a choice where there is a token. -/
theorem oneOf_selected (stage : Stage s input)
    (honest : attempt.Honours s input around terms depth False)
    (within : outer.Within s.grammar around) {alternatives : List (Slot ElementId)}
    {sortable : Bool} (stands : s.grammar.kind? id = some (.oneOf alternatives sortable))
    (sound : p.Sound s.grammar input) (level : p.depth = depth) {current : Token}
    (here : input.token? p.cursor.position = some current) :
    Selects s.grammar attempt (outer.enter id)
      (((Kind.oneOf alternatives sortable).tried s.grammar).zipIdx.filter fun choice =>
        s.letsAt input p.cursor.position current choice.1) p
      (oneOf s attempt (outer.enter id) id p) := by
  have bound : ∀ slot ∈ (Kind.oneOf alternatives sortable).tried s.grammar,
      slot.item < s.grammar.elements.size := fun slot member =>
    Grammar.lt_of_isSome (stage.wellFormed.placed id _ stands slot (Kind.mem_tried.1 member)).2
  have places : ∀ place, ((outer.enter id).moveTo place).Within s.grammar around := fun place =>
    within.push stands nofun
  have answers := stage.reliable.children id
  rw [Grammar.triedOf_of_kind? stands] at answers
  obtain ⟨memo, kept, ran⟩ := answers p.memo sound.faithful
  obtain ⟨type, type_eq⟩ := get_of_lt (stage.known current (mem_of_token? here))
  have predictable : s.grammar.vocabulary.has TokenType.isChameleon current.kind =
      type.isChameleon := Vocabulary.has_of_get type_eq _
  have soundHere : ({ p with memo } : Progress).Sound s.grammar input :=
    ⟨sound.reads, sound.inside, kept⟩
  unfold oneOf Setting.letsAt
  rw [bind_apply, query_eq ran, predictable, ← sound.placeholder_eq]
  dsimp only
  rw [bind_apply, cursor_eq]
  dsimp only
  rw [sound.current_eq, here]
  dsimp only
  rw [type_eq]
  exact Sweeps.selects ((tryAlternatives_sweeps stage honest bound places soundHere level
    .nothing).after ⟨rfl, sound.faithful, kept⟩)

end Choices

/-! ### Choices of a grammar -/

variable {g : Grammar} {vocabulary : Vocabulary} {rules : List Rule} {root : Option String}
  {options : Options} {cancelled : Bool} {tokens : Array Token} {opened : Cursor}

/-- **A choice takes the right alternative and leaves exactly its attempt.**  At a token, from
any state of a parse of the tokens, it tries the alternatives that are active there and that the
first sets do not rule out, in the order of trying, each at most once and at the same cursor, and
ends as `Selects` says. -/
theorem oneOf_selects [Alphabet] (built : Grammar.ofRules vocabulary rules root = .ok g)
    (fresh : Cursor.ofTokens g.vocabulary tokens options.placeholder = .ok opened)
    {id : ElementId} {alternatives : List (Slot ElementId)} {sortable : Bool}
    (stands : g.kind? id = some (.oneOf alternatives sortable)) {outer : Path}
    (inside : outer.Inside g) {p : Progress} (sound : p.Sound g opened.input) {current : Token}
    (here : opened.input.token? p.cursor.position = some current) {levels : Nat}
    (enough : options.maxDepth ≤ levels + p.depth) :
    let s := g.setting options cancelled
    let choices := ((Kind.oneOf alternatives sortable).tried g).zipIdx.filter fun choice =>
      s.letsAt opened.input p.cursor.position current choice.1
    (choices.map Prod.snd).Pairwise (· < ·) ∧
      Selects g (Matcher.matchElement s levels) (outer.enter id) choices p
        (Matcher.oneOf s (Matcher.matchElement s levels) (outer.enter id) id p) := by
  have stage := stage_of_ofTokens (Grammar.ofRules_wellFormed built) fresh cancelled
  have honest : Attempt.Honours (g.setting options cancelled) opened.input outer _ p.depth False
      (Matcher.matchElement (g.setting options cancelled) levels) :=
    matchElement_honours (.leafwise _ _) stage levels p.depth enough False
  have within : outer.Within g outer := fun frame member => ⟨inside frame member, fun _ => member⟩
  exact ⟨choices_ascending _ _, oneOf_selected stage honest within stands sound rfl here⟩

/-- A rule with two alternatives that begin alike and one that does not. -/
def forkRules : List Rule :=
  [⟨"r", .oneOf [
    .required (.sequence [.required (.token "A" none none), .required (.token "B" none none)]),
    .required (.sequence [.required (.token "A" none none), .required (.token "C" none none),
      .required (.token "D" none none)]),
    .required (.token "B" none none)] false⟩]

/-- The grammar of that rule. -/
def fork : Grammar where
  vocabulary := ⟨"test", #[.keyword "A" "a", .keyword "B" "b", .keyword "C" "c", .keyword "D" "d"]⟩
  elements := #[
    ⟨0, "r", some "r", none, .oneOf [.required 1, .required 4, .required 8] false⟩,
    ⟨1, "r#1", none, some 0, .sequence [.required 2, .required 3]⟩,
    ⟨2, "r#2", none, some 1, .token 0 none none⟩,
    ⟨3, "r#3", none, some 1, .token 1 none none⟩,
    ⟨4, "r#4", none, some 0, .sequence [.required 5, .required 6, .required 7]⟩,
    ⟨5, "r#5", none, some 4, .token 0 none none⟩,
    ⟨6, "r#6", none, some 4, .token 2 none none⟩,
    ⟨7, "r#7", none, some 4, .token 3 none none⟩,
    ⟨8, "r#8", none, some 0, .token 1 none none⟩]
  rules := [("r", 0)]
  root := 0

theorem fork_built : Grammar.ofRules fork.vocabulary forkRules none = .ok fork := by
  with_unfolding_all rfl

/-- A parse of `a c` at its beginning. -/
def forkStart : Progress :=
  ⟨⟨#[⟨0, "a", 0⟩, ⟨2, "c", 1⟩], #[0, 1], none, 0, #[], 0⟩, 1, true, [], none, fork.blankMemo⟩

/-- Of the two alternatives that begin with `a` the second one gets further, and the third is not
tried. -/
theorem forkStart_selects :
    let s := fork.setting {} false
    let choices := [(.required 1, 0), (.required 4, 1)]
    Selects fork (Matcher.matchElement s s.options.maxDepth) [⟨0, 0⟩] choices forkStart
        (Matcher.oneOf s (Matcher.matchElement s s.options.maxDepth) [⟨0, 0⟩] 0 forkStart) ∧
      Matcher.answer (Matcher.oneOf s (Matcher.matchElement s s.options.maxDepth) [⟨0, 0⟩] 0)
        forkStart = .ok (.partialMatch 2, 2) := by
  have listed : ((Kind.oneOf [.required 1, .required 4, .required 8] false).tried fork).zipIdx.filter
      (fun choice => (fork.setting {} false).letsAt forkStart.cursor.input 0 ⟨0, "a", 0⟩ choice.1) =
      [(.required 1, 0), (.required 4, 1)] := by
    decide +kernel
  have fresh : Cursor.ofTokens fork.vocabulary forkStart.cursor.tokens none =
      .ok forkStart.cursor := by
    rfl
  have sound : forkStart.Sound fork forkStart.cursor.input :=
    ⟨rfl, Nat.zero_le _, Memo.blank_faithful fork⟩
  have stands : fork.kind? 0 = some (.oneOf [.required 1, .required 4, .required 8] false) := rfl
  have here : forkStart.cursor.input.token? forkStart.cursor.position = some ⟨0, "a", 0⟩ := rfl
  have inside : Path.Inside fork [] := nofun
  refine ⟨listed ▸ ?_, by decide +kernel⟩
  exact (oneOf_selects fork_built fresh stands inside sound here (Nat.le_add_right _ _)).2

end Dialect
