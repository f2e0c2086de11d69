import Dialect.Parse
import Dialect.Proofs.Matching.Run
import Dialect.Proofs.Tree.Account

/-!
# Parses

The tree of a parse that matched in full is a derivation of the grammar
(`parse_derives`).
-/

set_option autoImplicit false

namespace Dialect

variable {g : Grammar} {vocabulary : Vocabulary} {rules : List Rule} {name : Option String}
  {input : Input} {tokens : Array Token} {options : Options} {cancelled : Bool}
  {p q : Progress} {s : Setting}

/-! ### The record of a parse -/

/-- Events that are diagnostics change no node. -/
theorem reads_diagnostics {found : List Diagnostic} {a b : Assembly}
    (reads : Reads g input (found.map .diagnostic) a b) :
    b.stack = a.stack ∧ b.roots = a.roots := by
  induction found generalizing a with
  | nil =>
      obtain rfl := reads_nil.1 reads
      exact ⟨rfl, rfl⟩
  | cons first rest ih =>
      obtain ⟨middle, step, reads⟩ := reads_cons.1 reads
      obtain rfl := pure_eq_ok.1 step
      obtain ⟨stack, roots⟩ := ih reads
      exact ⟨stack, roots⟩

/-- A range is refused, in an input the tokens of which are out of order. -/
def Disordered (input : Input) (fault : Fault) : Prop :=
  fault = .textRange ∧ ¬ Token.InOrder input.tokens

/-- Only tokens that are out of order stand in the way of a parse. -/
theorem disordered_of_excused {fault : Fault} (blame : Excused g input [] fault) :
    Disordered input fault := by
  obtain ⟨rfl, token, member, beyond⟩ := beyond_of_excused blame
  exact ⟨rfl, fun ordered => absurd (ordered.fits token member) (Nat.not_lt.2 beyond)⟩

/-- No token that is in order begins behind the end of the input. -/
theorem offset_le_endOffset (ordered : Token.InOrder input.tokens) {position stop : Nat}
    {token : Token} (current : input.token? position = some token)
    (ends : (input.cursorAt position).endOffset = .ok stop) : token.offset ≤ stop := by
  unfold Cursor.endOffset at ends
  have member := mem_of_token? current
  obtain ⟨k, bound, rfl⟩ := Array.mem_iff_getElem.1 member
  have found : (input.cursorAt position).tokens.back? = some input.tokens[input.tokens.size - 1] := by
    rw [Array.back?_eq_getElem?]
    exact Array.getElem?_eq_getElem (Nat.sub_one_lt_of_lt bound)
  rw [found] at ends
  obtain ⟨range, range_eq, ends⟩ := bind_eq_ok.1 ends
  obtain rfl := pure_eq_ok.1 ends
  rw [(range_eq_ok range_eq).2]
  rcases Nat.lt_or_eq_of_le (Nat.le_sub_one_of_lt bound) with earlier | same
  · have behind := List.pairwise_iff_getElem.1 ordered.behind k (input.tokens.size - 1)
      bound (by simpa using (by omega : input.tokens.size - 1 < input.tokens.size)) earlier
    simp only [Array.getElem_toList] at behind
    omega
  · simp only [← same]
    omega

/-- What is reported when a match has ended at a position: nothing, or that tokens are left
over. -/
def LeftOver (input : Input) (position : Nat) (found : List Diagnostic) : Prop :=
  match input.token? position with
  | none => found = []
  | some _ => ∃ only, found = [only] ∧ only.code = .E0103

/-- Reporting what is left over adds at most a diagnostic to the record. -/
theorem ensures_reportLeftOver (sound : p.Sound g input) :
    Ensures (Disordered input) Matcher.reportLeftOver p fun _ q =>
      ∃ found, LeftOver input p.cursor.position found ∧
        q = p.moveTo (p.cursor.extend 0 (found.map .diagnostic)) := by
  unfold Matcher.reportLeftOver
  refine ensures_bind_of_ok cursor_eq ?_
  rw [sound.current_eq]
  cases current : input.token? p.cursor.position with
  | none => exact ensures_pure ⟨[], by simp [LeftOver, current], by simp [Progress.moveTo]⟩
  | some token =>
      have stop_eq : p.cursor.endOffset = (input.cursorAt p.cursor.position).endOffset := by
        rw [← sound.reads]
        rfl
      dsimp only
      rw [sound.range_eq, stop_eq]
      refine ensures_bind_check (fun fault raised =>
        disordered_of_excused (g := g) (raises_currentRange _ _ fault raised)) fun range range_eq => ?_
      refine ensures_bind_check (fun fault raised =>
        disordered_of_excused (g := g) (raises_endOffset _ _ fault raised)) fun stop ends => ?_
      refine ensures_bind_check (fun fault raised => ⟨between_eq_error raised, fun ordered => ?_⟩)
        fun rest _ => ?_
      · have starts : range.start = token.offset := by
          unfold Cursor.currentRange at range_eq
          change (input.cursorAt p.cursor.position).current? = some token at current
          rw [current] at range_eq
          exact (range_eq_ok range_eq).1
        -- In ordered input the rest ends no earlier than it starts.
        have straight : range.start ≤ stop := starts ▸ offset_le_endOffset ordered current ends
        simp [TextRange.between, straight] at raised
      · exact ensures_of_ok (move_eq (Cursor.report_eq _))
          ⟨[⟨.E0103, _, rest, none, []⟩], by simp [LeftOver, current], rfl⟩

/-- Matching the root is running it, and reporting what is left over if it matches. -/
theorem ensures_matchRoot_exact (stage : Stage s input) {root : ElementId}
    (bound : root < s.grammar.elements.size) (sound : p.Sound s.grammar input) :
    Ensures (Disordered input) (Matcher.matchRoot s root) p fun answer q =>
      ∃ middle events found, Matcher.run s root [] p = .ok answer.1 middle ∧
        Proceeds s.grammar False p answer.1.tokens events middle ∧
        Matched (Recorded s input s.options.maxDepth root []) True p.cursor.position events
          answer.1 ∧
        (answer.1.isMatch = true → LeftOver input middle.cursor.position found) ∧
        q = middle.moveTo (middle.cursor.extend 0 (found.map .diagnostic)) := by
  unfold Matcher.matchRoot
  refine ensures_bind_of_ok cursor_eq ?_
  rw [sound.range_eq]
  refine ensures_bind_check (fun fault raised =>
    disordered_of_excused (g := s.grammar) (raises_currentRange _ _ fault raised)) fun range _ => ?_
  have kept := run_honours (.leafwise s input) stage bound
    (fun frame none => absurd none List.not_mem_nil) sound False fun no => no.elim
  refine ensures_bind (kept.ran.pardon fun _ => disordered_of_excused) ?_
  rintro outcome middle ⟨ran, events, moved, matched⟩
  cases outcome with
  | noMatch =>
      exact ensures_pure ⟨middle, events, [], ran, moved, ⟨matched.1, trivial⟩, nofun,
        by simp [Progress.moveTo]⟩
  | partialMatch n =>
      refine ensures_bind (ensures_reportLeftOver (moved.sound sound)) ?_
      rintro - q ⟨found, left, rfl⟩
      exact ensures_pure ⟨middle, events, found, ran, moved, matched, fun _ => left, rfl⟩
  | fullMatch n =>
      refine ensures_bind (ensures_reportLeftOver (moved.sound sound)) ?_
      rintro - q ⟨found, left, rfl⟩
      exact ensures_pure ⟨middle, events, found, ran, moved, matched, fun _ => left, rfl⟩

/-- Matching the root leaves the record of the root, perhaps with a diagnostic behind it. -/
theorem ensures_matchRoot (stage : Stage s input) {root : ElementId}
    (bound : root < s.grammar.elements.size) (sound : p.Sound s.grammar input) :
    Ensures (fun _ => True) (Matcher.matchRoot s root) p fun answer q =>
      q.cursor.tokens = p.cursor.tokens ∧
        ∃ (events : List Event) (found : List Diagnostic),
          q.cursor.events.toList =
            p.cursor.events.toList ++ events ++ found.map .diagnostic ∧
          Matched (Recorded s input s.options.maxDepth root []) True p.cursor.position events
            answer.1 := by
  refine ((ensures_matchRoot_exact stage bound sound).pardon fun _ _ => trivial).imp fun answer q => ?_
  rintro ⟨middle, events, found, -, moved, matched, -, rfl⟩
  refine ⟨?_, events, found, ?_, matched⟩
  · simp only [Progress.moveTo, moved.cursor]
    rfl
  · simp only [Progress.moveTo, Cursor.extend_events, moved.cursor]

/-! ### Matching the root -/

open Matcher in
/-- Matching the root succeeds with its outcome and the offset at which the input starts, when
what is left over can be reported. -/
theorem matchRoot_eq_ok {root : ElementId} {outcome : Outcome} {offset : Nat} :
    matchRoot s root p = .ok (outcome, offset) q ↔ ∃ range middle,
      p.cursor.currentRange = .ok range ∧ range.start = offset ∧
        run s root [] p = .ok outcome middle ∧
          (if outcome.isMatch then reportLeftOver else pure ()) middle = .ok () q := by
  unfold matchRoot
  simp only [bind_apply_eq_ok, cursor_eq, check_eq_ok, EStateM.Result.ok.injEq]
  constructor
  · rintro ⟨_, _, ⟨rfl, rfl⟩, range, _, ⟨here, rfl⟩, found, middle, ran, finished⟩
    split at finished
    · obtain ⟨⟨⟩, last, reported, ended⟩ := bind_apply_eq_ok.1 finished
      cases ended
      exact ⟨range, middle, here, rfl, ran, by rwa [if_pos ‹_›]⟩
    · cases finished
      exact ⟨range, _, here, rfl, ran, by rw [if_neg ‹_›, pure_apply]⟩
  · rintro ⟨range, middle, here, rfl, ran, finished⟩
    refine ⟨_, _, ⟨rfl, rfl⟩, range, _, ⟨here, rfl⟩, outcome, middle, ran, ?_⟩
    split at finished
    · rw [if_pos ‹_›]
      exact bind_apply_eq_ok.2 ⟨(), q, finished, rfl⟩
    · cases finished
      rw [if_neg ‹_›, pure_apply]

/-! ### Derivations -/

/-- A record with the events of one node, and diagnostics behind them, is read as that
node. -/
theorem ofEvents?_holds {events : List Event} {found diagnostics : List Diagnostic}
    {record : Array Event} {root : Node}
    (record_eq : record.toList = events ++ found.map .diagnostic)
    {holds : Node → Prop} (yields : Yields g input events holds)
    (reads : Node.ofEvents? g input.tokens record = .ok (some root, diagnostics)) :
    holds root := by
  obtain ⟨last, assembled, reads⟩ := bind_eq_ok.1 reads
  unfold Assembly.ofEvents at assembled
  obtain ⟨after, folded, assembled⟩ := bind_eq_ok.1 assembled
  rw [record_eq] at folded
  obtain ⟨middle, readsEvents, readsFound⟩ := reads_append.1 folded
  obtain ⟨node, held, rfl⟩ := yields _ middle readsEvents
  obtain ⟨-, roots⟩ := reads_diagnostics readsFound
  obtain ⟨-, assembled⟩ := guard_eq_ok.1 assembled
  obtain rfl := pure_eq_ok.1 assembled
  have single : after.roots = [node] := roots
  rw [single] at reads
  obtain ⟨same, -⟩ := Prod.ext_iff.1 (pure_eq_ok.1 reads)
  obtain rfl := Option.some.inj same
  exact held

/-- The rule a parse starts from is a rule of the grammar. -/
theorem startAt_lt (wellFormed : g.WellFormed) {rule : Option String} {root : ElementId}
    (started : g.startAt rule = .ok root) : root < g.elements.size := by
  unfold Grammar.startAt at started
  cases rule with
  | none =>
      obtain rfl := Except.ok.inj started
      exact wellFormed.root_lt
  | some name =>
      dsimp only at started
      split at started
      · rename_i id found
        obtain rfl := Except.ok.inj started
        exact wellFormed.roots name id (Grammar.mem_of_lookup found)
      · cases started

/-- A parse starts from the named rule if there is one of that name. -/
theorem startAt_some_eq_ok {name : String} {root : ElementId} :
    g.startAt (some name) = .ok root ↔ g.rule? name = some root := by
  unfold Grammar.startAt
  dsimp only
  cases g.rule? name <;> simp

/-! ### Parses that succeed -/

/-- A parse succeeds if it has matched its root and its record is read as a tree. -/
theorem conclude_eq_ok_iff {outcome : Outcome} {offset : Nat} {parse : Parse} :
    g.conclude p outcome offset = .ok (.ok parse) ↔
      p.failure = none ∧ outcome.isMatch = true ∧ parse.outcome = outcome ∧ ∃ events,
        p.cursor.finish = .ok events ∧
          Node.ofEvents? g p.cursor.tokens events = .ok (some parse.root, parse.diagnostics) := by
  unfold Grammar.conclude
  cases failed : p.failure with
  | some failure => simp [pure, Except.pure]
  | none =>
      by_cases matched : outcome.isMatch = true
      · dsimp only
        rw [if_neg (by simp [matched])]
        constructor
        · intro concluded
          obtain ⟨events, finished, concluded⟩ := bind_eq_ok.1 concluded
          obtain ⟨⟨root?, diagnostics⟩, read, concluded⟩ := bind_eq_ok.1 concluded
          cases root? with
          | none => cases concluded
          | some root =>
              obtain rfl := Except.ok.inj (pure_eq_ok.1 concluded)
              exact ⟨rfl, matched, rfl, events, finished, read⟩
        · rintro ⟨-, -, rfl, events, finished, read⟩
          exact bind_eq_ok.2 ⟨events, finished, bind_eq_ok.2 ⟨_, read, rfl⟩⟩
      · simp [matched, pure, Except.pure]

/-- A parse that succeeds has matched its root and read a tree off the record. -/
theorem conclude_eq_ok {outcome : Outcome} {offset : Nat} {parse : Parse}
    (concluded : g.conclude p outcome offset = .ok (.ok parse)) :
    p.failure = none ∧ parse.outcome = outcome ∧ ∃ events diagnostics,
      p.cursor.finish = .ok events ∧
        Node.ofEvents? g p.cursor.tokens events = .ok (some parse.root, diagnostics) := by
  obtain ⟨failed, -, same, events, finished, read⟩ := conclude_eq_ok_iff.1 concluded
  exact ⟨failed, same, events, _, finished, read⟩

theorem parseFrom_eq_ok {root : ElementId} {memo memo' : Memo} {parse : Parse}
    (parsed : Grammar.parseFrom s root tokens memo = .ok (.ok parse) memo') :
    ∃ first last outcome offset, Progress.start s memo tokens = .ok first ∧
      Matcher.matchRoot s root first = .ok (outcome, offset) last ∧
        s.grammar.conclude last outcome offset = .ok (.ok parse) := by
  unfold Grammar.parseFrom at parsed
  cases begun : Progress.start s memo tokens with
  | error fault => simp [begun] at parsed
  | ok first =>
      simp only [begun] at parsed
      cases ran : Matcher.matchRoot s root first with
      | error fault last => simp [ran] at parsed
      | ok answer last =>
          obtain ⟨outcome, offset⟩ := answer
          simp only [ran] at parsed
          cases concluded : s.grammar.conclude last outcome offset with
          | error fault => simp [concluded] at parsed
          | ok answer =>
              simp only [concluded] at parsed
              cases parsed
              exact ⟨first, last, outcome, offset, rfl, ran, concluded⟩

/-- A parse against a rule of the grammar starts from its root. -/
theorem parse_of_startAt {rule : Option String} {root : ElementId}
    (started : g.startAt rule = .ok root) :
    g.parse tokens rule options cancelled =
      Grammar.parseFrom (g.setting options cancelled) root tokens := by
  unfold Grammar.parse
  rw [started]
  rfl

theorem parse_of_unknown {rule : Option String} {failure : Failure} {memo : Memo}
    (unknown : g.startAt rule = .error failure) :
    g.parse tokens rule options cancelled memo = .ok (.error failure) memo := by
  unfold Grammar.parse
  rw [unknown]
  rfl

theorem parse_eq_ok {rule : Option String} {memo memo' : Memo} {parse : Parse}
    (parsed : g.parse tokens rule options cancelled memo = .ok (.ok parse) memo') :
    ∃ root, g.startAt rule = .ok root ∧
      Grammar.parseFrom (g.setting options cancelled) root tokens memo = .ok (.ok parse) memo' := by
  cases started : g.startAt rule with
  | error failure =>
      rw [parse_of_unknown started] at parsed
      cases parsed
  | ok root =>
      rw [parse_of_startAt started] at parsed
      exact ⟨root, rfl, parsed⟩

/-- **A full match is a derivation.**  If a parse without a placeholder matches its root in
full, the tree derives exactly the tokens it took from that root, at the version of the
parse. -/
theorem parse_derives [Alphabet] (built : Grammar.ofRules vocabulary rules name = .ok g)
    (unmarked : options.placeholder = none) {rule : Option String} {memo memo' : Memo}
    (faithful : memo.Faithful g) {parse : Parse} {n : Nat}
    (parsed : g.parse tokens rule options cancelled memo = .ok (.ok parse) memo')
    (full : parse.outcome = .fullMatch n) :
    ∃ root opened, g.startAt rule = .ok root ∧
      Cursor.ofTokens g.vocabulary tokens none = .ok opened ∧
      Derives g options.version opened.input root 0 n parse.root := by
  have wellFormed := Grammar.ofRules_wellFormed built
  obtain ⟨root, started, parsed⟩ := parse_eq_ok parsed
  obtain ⟨first, last, outcome, offset, begun, ran, concluded⟩ := parseFrom_eq_ok parsed
  obtain ⟨opened, fresh, begun⟩ := bind_eq_ok.1 begun
  obtain rfl := pure_eq_ok.1 begun
  obtain ⟨tokens_eq, placeholder_eq, position_eq, events_eq, -⟩ := Cursor.ofTokens_eq_ok fresh
  have unmarkedInput : opened.input.placeholder = none := placeholder_eq.trans unmarked
  refine ⟨root, opened, started, ?_, ?_⟩
  · rw [← unmarked]
    exact fresh
  have stage : Stage (g.setting options cancelled) opened.input :=
    stage_of_ofTokens wellFormed fresh cancelled
  have sound : Progress.Sound g opened.input ⟨opened, 0, options.recovery, [], none, memo⟩ :=
    ⟨rfl, by simp [position_eq], faithful⟩
  have kept := ensures_matchRoot stage (startAt_lt wellFormed started) sound
  change Matcher.matchRoot (g.setting options cancelled) root
    ⟨opened, 0, options.recovery, [], none, memo⟩ = _ at ran
  unfold Ensures at kept
  rw [ran] at kept
  obtain ⟨reads, events, found, record_eq, matched⟩ := kept
  obtain ⟨-, outcome_eq, record, diagnostics, finished, read⟩ := conclude_eq_ok concluded
  obtain rfl := outcome_eq.symm.trans full
  obtain ⟨-, recorded⟩ := matched
  -- What was recorded of a full match reads back as a derivation.
  have yields := recorded_readable (Cursor.ascending_of_ofTokens fresh) unmarkedInput _ recorded
  simp only [position_eq, Nat.zero_add] at yields
  simp only [events_eq, Array.toList_empty, List.nil_append] at record_eq
  rw [reads] at read
  have last_eq : record = last.cursor.events := by
    unfold Cursor.finish at finished
    split at finished
    · exact (Except.ok.inj finished).symm
    · cases finished
  rw [← last_eq] at record_eq
  exact (ofEvents?_holds record_eq yields read).1

/-- Whether a parse has come to a tree of which the test holds. -/
def comesTo (test : Parse → Bool) : EStateM.Result Fault Memo (Except Failure Parse) → Bool
  | .ok (.ok parse) _ => test parse
  | _ => false

theorem exists_of_comesTo {test : Parse → Bool}
    {result : EStateM.Result Fault Memo (Except Failure Parse)} (comes : comesTo test result = true) :
    ∃ parse memo, result = .ok (.ok parse) memo ∧ test parse = true := by
  rcases result with ⟨failure | parse, memo⟩ | ⟨fault, memo⟩
  · cases comes
  · exact ⟨parse, memo, rfl, comes⟩
  · cases comes

/-- What comes of an input, but for the tree. -/
def verdict (answer : Except Fault (Except Failure Parse)) : Except Fault (Except Failure Bool) :=
  answer.map (Except.map Parse.ok)

theorem eq_of_verdict_fault {answer : Except Fault (Except Failure Parse)} {fault : Fault}
    (seen : verdict answer = .error fault) : answer = .error fault := by
  cases answer with
  | error other =>
      obtain rfl := Except.error.inj seen
      rfl
  | ok answer => cases seen

theorem eq_of_verdict_failure {answer : Except Fault (Except Failure Parse)} {failure : Failure}
    (seen : verdict answer = .ok (.error failure)) : answer = .ok (.error failure) := by
  cases answer with
  | error fault => cases seen
  | ok answer =>
      cases answer with
      | error other =>
          obtain rfl := Except.error.inj (Except.ok.inj seen)
          rfl
      | ok parse => cases Except.ok.inj seen

/-- A token before a complete wrapper. -/
def fencedTokens : Array Token := #[⟨0, "a", 0⟩, ⟨1, "b", 1⟩, ⟨2, "c", 2⟩, ⟨3, "d", 3⟩]

/-- The tree of the token and the wrapper is a derivation from the rule. -/
theorem fencedTokens_derives :
    Grammar.ofRules fenced.vocabulary fencedRules none = .ok fenced ∧ ∃ parse memo,
      fenced.parse fencedTokens none {} false fenced.blankMemo = .ok (.ok parse) memo ∧
        parse.outcome = .fullMatch 4 ∧ ∃ root opened, fenced.startAt none = .ok root ∧
          Cursor.ofTokens fenced.vocabulary fencedTokens none = .ok opened ∧
          Derives fenced (UInt32.size - 1) opened.input root 0 4 parse.root := by
  have full : comesTo (fun parse => parse.outcome = .fullMatch 4)
      (fenced.parse fencedTokens none {} false fenced.blankMemo) = true := by
    decide +kernel
  obtain ⟨parse, memo, parsed, outcome⟩ := exists_of_comesTo full
  replace outcome := of_decide_eq_true outcome
  exact ⟨fenced_built, parse, memo, parsed, outcome,
    parse_derives fenced_built rfl (Memo.blank_faithful fenced) parsed outcome⟩

end Dialect
