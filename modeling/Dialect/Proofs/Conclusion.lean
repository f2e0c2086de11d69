import Dialect.Proofs.Parse

/-!
# What a parse comes to

A parse that has matched its root comes to a tree that takes every token of the match once,
with the diagnostic of an incomplete match and, behind it, that of the tokens that are left
over (`Concluded`).  It comes to nothing else, unless it was aborted; and only tokens that
are out of order stand in its way (`parseFrom_concludes`).
-/

set_option autoImplicit false

namespace Dialect

variable {g : Grammar} {input : Input} {options : Options}
  {tokens : Array Token} {opened : Cursor} {root : ElementId} {memo : Memo}

/-! ### Reading a whole record -/

section Record

variable {record : Array Event} {node : Node} {found left : List Diagnostic} {a : Assembly}

/-- Events that are diagnostics are noted. -/
theorem reads_noting (a : Assembly) (found : List Diagnostic) :
    Reads g input (found.map .diagnostic) a (a.noting found) := by
  induction found generalizing a with
  | nil => exact reads_nil.2 rfl
  | cons first rest ih =>
      refine reads_cons.2 ⟨a.noting [first], rfl, ?_⟩
      rw [← List.singleton_append (l := rest), Assembly.noting_append]
      exact ih _

theorem ofEvents?_of_reads
    (reads : Reads g input record.toList .empty ((Assembly.empty.attach node).noting found)) :
    Node.ofEvents? g input.tokens record = .ok (some node, found) := by
  unfold Reads at reads
  unfold Node.ofEvents? Assembly.ofEvents
  rw [reads]
  simp [Assembly.attach, Assembly.empty, Assembly.noting, bind, Except.bind, pure, Except.pure]

theorem ofEvents?_of_stuck (stuck : Stuck g input record.toList .empty) :
    Node.ofEvents? g input.tokens record = .error .textRange := by
  unfold Node.ofEvents? Assembly.ofEvents
  rw [stuck.1]
  rfl

end Record

/-! ### Concluding -/

/-- The state of a parse before the first token. -/
def Cursor.begin (c : Cursor) (options : Options) (memo : Memo) : Progress :=
  ⟨c, 0, options.recovery, [], none, memo⟩

/-- A parse begins in a sound state, whatever grammar its tokens belong to. -/
theorem Cursor.sound_begin {vocabulary : Vocabulary} {placeholder : Option String}
    (fresh : Cursor.ofTokens vocabulary tokens placeholder = .ok opened)
    (faithful : memo.Faithful g) : (opened.begin options memo).Sound g opened.input := by
  obtain ⟨-, -, position_eq, -⟩ := Cursor.ofTokens_eq_ok fresh
  exact ⟨rfl, by simp [Cursor.begin, position_eq], faithful⟩

theorem start_of_opened
    (fresh : Cursor.ofTokens g.vocabulary tokens options.placeholder = .ok opened)
    (cancelled : Bool) (memo : Memo) :
    Progress.start (g.setting options cancelled) memo tokens = .ok (opened.begin options memo) :=
  bind_eq_ok.2 ⟨opened, fresh, rfl⟩

theorem start_of_fault {fault : Fault}
    (failed : Cursor.ofTokens g.vocabulary tokens options.placeholder = .error fault)
    (cancelled : Bool) (memo : Memo) :
    Progress.start (g.setting options cancelled) memo tokens = .error fault := by
  show (Cursor.ofTokens g.vocabulary tokens options.placeholder >>= _) = _
  rw [failed]
  rfl

/-- What a parse comes to, given what came of running its root and where that left it. -/
inductive Concluded (g : Grammar) (input : Input) (root : ElementId) (outcome : Outcome)
    (last : Progress) : Except Failure Parse → Prop
  | aborted {failure} (failed : last.failure = some failure) :
      Concluded g input root outcome last (.error failure)
  | noMatch {offset} (going : last.failure = none) (nothing : outcome = .noMatch) :
      Concluded g input root outcome last (.error (.noMatch offset))
  | matched {node found left} (going : last.failure = none) (isMatch : outcome.isMatch = true)
      (account : Accounted g input root outcome.isFull 0 outcome.tokens [node] found)
      (leftOver : LeftOver input outcome.tokens left)
      (assembled : Node.ofEvents? g input.tokens last.cursor.events = .ok (some node, found)) :
      Concluded g input root outcome last (.ok ⟨node, outcome, found ++ left⟩)

/-- A parse whose root has been run is concluded as its record says. -/
theorem conclude_concludes {outcome : Outcome} {last : Progress} {left : List Diagnostic}
    (builds : outcome.isMatch = true → Builds g input last.cursor.events.toList
      (Accounted g input root outcome.isFull 0 outcome.tokens))
    (leftOver : outcome.isMatch = true → LeftOver input outcome.tokens left)
    (reads : last.cursor.tokens = input.tokens) (closed : last.cursor.openMarks = 0)
    (offset : Nat) :
    (∃ answer, Concluded g input root outcome last answer ∧
      g.conclude (last.moveTo (last.cursor.extend 0 (left.map .diagnostic))) outcome offset =
        .ok answer) ∨
    g.conclude (last.moveTo (last.cursor.extend 0 (left.map .diagnostic))) outcome offset =
      .error .textRange ∧ ¬ Token.InOrder input.tokens := by
  have tokens_eq : (last.cursor.extend 0 (left.map .diagnostic)).tokens = input.tokens := reads
  have finished : (last.cursor.extend 0 (left.map .diagnostic)).finish =
      .ok (last.cursor.extend 0 (left.map .diagnostic)).events := by
    simp [Cursor.finish, closed]
  unfold Grammar.conclude
  cases failed : last.failure with
  | some failure =>
      refine Or.inl ⟨.error failure, .aborted failed, ?_⟩
      simp [Progress.moveTo, failed, pure, Except.pure]
  | none =>
      cases isMatch : outcome.isMatch with
      | false =>
          refine Or.inl ⟨.error (.noMatch offset), .noMatch failed ?_, ?_⟩
          · cases outcome <;> first | rfl | cases isMatch
          · simp [Progress.moveTo, failed, pure, Except.pure]
      | true =>
          simp only [Progress.moveTo, failed, finished, tokens_eq, Bool.not_true,
            Bool.false_eq_true, if_false]
          have record_eq : (last.cursor.extend 0 (left.map .diagnostic)).events.toList =
              last.cursor.events.toList ++ left.map .diagnostic := Cursor.extend_events
          -- The tokens left over are reported after the tree is complete and do not touch it.
          rcases builds isMatch .empty with ⟨nodes, found, account, read⟩ | stuck
          · obtain ⟨node, rfl, -⟩ := account.single
            have readAll := reads_append.2 ⟨_, read, reads_noting _ left⟩
            rw [← Assembly.noting_append, ← record_eq] at readAll
            refine Or.inl ⟨_, .matched failed isMatch account (leftOver isMatch)
              (ofEvents?_of_reads read), ?_⟩
            simp only [ofEvents?_of_reads readAll, bind, Except.bind, pure, Except.pure]
          · have failing := ofEvents?_of_stuck (record_eq ▸ stuck.before _)
            refine Or.inr ⟨?_, stuck.2⟩
            simp only [failing, bind, Except.bind]

/-- What was recorded of a match of the root is read as a tree with its account. -/
theorem matched_builds {s : Setting} (wellFormed : s.grammar.WellFormed)
    (fresh : Cursor.ofTokens s.grammar.vocabulary tokens s.options.placeholder = .ok opened)
    {levels : Nat} {outcome : Outcome} {events : List Event} (isMatch : outcome.isMatch = true)
    (matched : Matched (Recorded s opened.input levels root []) True 0 events outcome) :
    Builds s.grammar opened.input events
      (Accounted s.grammar opened.input root outcome.isFull 0 outcome.tokens) := by
  have builds : ∀ complete, Recorded s opened.input levels root [] complete 0 (0 + outcome.tokens)
      events → Builds s.grammar opened.input events
        (Accounted s.grammar opened.input root complete 0 outcome.tokens) := by
    intro complete recorded
    rw [Nat.zero_add] at recorded
    exact recorded_builds wellFormed (Cursor.ascending_of_ofTokens fresh)
      (Cursor.listed_of_ofTokens fresh) levels recorded
  cases outcome with
  | noMatch => cases isMatch
  | partialMatch n => exact builds false matched.2
  | fullMatch n => exact builds true matched.2

/-- Whatever a parse comes to, it is what running its root leads to, and no mark of the root is
left out.  It comes to nothing only if tokens are out of order, for a range that is none. -/
theorem parseFrom_concludes (wellFormed : g.WellFormed) (cancelled : Bool)
    (fresh : Cursor.ofTokens g.vocabulary tokens options.placeholder = .ok opened)
    (bound : root < g.elements.size) (faithful : memo.Faithful g) :
    (∃ outcome last answer memo',
      Matcher.run (g.setting options cancelled) root [] (opened.begin options memo) =
        .ok outcome last ∧
      last.cursor.openMarks = 0 ∧
      Concluded g opened.input root outcome last answer ∧
      Grammar.parseFrom (g.setting options cancelled) root tokens memo = .ok answer memo') ∨
    (∃ memo', Grammar.parseFrom (g.setting options cancelled) root tokens memo =
      .error .textRange memo') ∧ ¬ Token.InOrder tokens := by
  obtain ⟨rfl, -, position_eq, events_eq, marks_eq, -⟩ := Cursor.ofTokens_eq_ok fresh
  have stage : Stage (g.setting options cancelled) opened.input :=
    stage_of_ofTokens wellFormed fresh cancelled
  have sound : Progress.Sound g opened.input (opened.begin options memo) :=
    Cursor.sound_begin fresh faithful
  have started := start_of_opened fresh cancelled memo
  have kept := ensures_matchRoot_exact stage bound sound
  unfold Grammar.parseFrom
  simp only [started]
  unfold Ensures at kept
  cases ran : Matcher.matchRoot (g.setting options cancelled) root (opened.begin options memo) with
  | error fault q =>
      rw [ran] at kept
      obtain ⟨rfl, disorder⟩ := kept
      exact Or.inr ⟨⟨q.memo, rfl⟩, disorder⟩
  | ok answer q =>
      rw [ran] at kept
      obtain ⟨outcome, offset⟩ := answer
      obtain ⟨last, events, left, runs, moved, matched, leftOver, rfl⟩ := kept
      -- The run began at the first token with an empty record, so all of the record is its own.
      have record_eq : last.cursor.events.toList = events := by
        rw [moved.cursor, Cursor.extend_events]
        simp [Cursor.begin, events_eq]
      have place : last.cursor.position = outcome.tokens := by
        rw [moved.position]
        simp [Cursor.begin, position_eq]
      have builds : outcome.isMatch = true → Builds g opened.input last.cursor.events.toList
          (Accounted g opened.input root outcome.isFull 0 outcome.tokens) := by
        intro isMatch
        change Matched _ _ opened.position _ _ at matched
        rw [position_eq] at matched
        rw [record_eq]
        exact matched_builds (s := g.setting options cancelled) wellFormed fresh isMatch matched
      have marks : last.cursor.openMarks = 0 := by
        rw [moved.cursor]
        exact marks_eq
      have reads : last.cursor.tokens = opened.input.tokens := by
        rw [moved.cursor]
        rfl
      rcases conclude_concludes (g := (g.setting options cancelled).grammar) builds
        (fun isMatch => place ▸ leftOver isMatch) reads marks offset with
        ⟨answer, concluded, done⟩ | ⟨failed, disorder⟩
      · refine Or.inl ⟨outcome, last, answer, last.memo, runs, marks, concluded, ?_⟩
        simp only [done]
        rfl
      · refine Or.inr ⟨⟨last.memo, ?_⟩, disorder⟩
        simp only [failed]
        rfl

/-! ### Parses that are aborted for their depth -/

/-- An unknown rule is not too deep. -/
theorem startAt_not_deep {rule : Option String} {limit : Nat} :
    g.startAt rule ≠ .error (.depthExceeded limit) := by
  unfold Grammar.startAt
  cases rule with
  | none => exact nofun
  | some name =>
      dsimp only
      split <;> exact nofun

/-- A parse that is aborted for its depth was aborted while its root was run. -/
theorem parseFrom_deep (wellFormed : g.WellFormed) {cancelled : Bool} {root : ElementId}
    (bound : root < g.elements.size) {memo memo' : Memo} (faithful : memo.Faithful g) {limit : Nat}
    (parsed : Grammar.parseFrom (g.setting options cancelled) root tokens memo =
      .ok (.error (.depthExceeded limit)) memo') :
    ∃ opened outcome last, Cursor.ofTokens g.vocabulary tokens options.placeholder = .ok opened ∧
      Matcher.run (g.setting options cancelled) root [] (opened.begin options memo) =
        .ok outcome last ∧ last.failure = some (.depthExceeded limit) := by
  cases fresh : Cursor.ofTokens g.vocabulary tokens options.placeholder with
  | error fault =>
      unfold Grammar.parseFrom at parsed
      rw [start_of_fault fresh] at parsed
      cases parsed
  | ok opened =>
      rcases parseFrom_concludes wellFormed cancelled fresh bound faithful with
        ⟨outcome, last, answer, after, ran, -, concluded, done⟩ | ⟨⟨after, failed⟩, -⟩
      · rw [parsed] at done
        cases done
        cases concluded with
        | aborted failed => exact ⟨opened, outcome, last, rfl, ran, failed⟩
      · rw [parsed] at failed
        cases failed

end Dialect
