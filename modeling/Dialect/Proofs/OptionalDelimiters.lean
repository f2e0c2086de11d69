import Dialect.Proofs.DepthLimit
import Dialect.Proofs.Enclosing.Element
import Dialect.Proofs.Enclosing.Rules
import Dialect.Proofs.Matching.Delimiters
import Dialect.Proofs.Prediction.Bracketing

/-!
# Delimiters that may be left out

A rule that puts another one in any number of delimiters matches what the other one matches
without any: the same tokens with the same tree and the same diagnostics, two levels deeper
(`parse_undelimited`).

Opening delimiters are taken before the content is tried and are not given back, so the tokens
must not begin with one.  The closing delimiter may come wherever the content may end, whether or
not there is anything to close; so the content must not be asked for one where nothing in it has the
answer, behind a reserved word that can be read as an identifier (`looksPast`).
-/

set_option autoImplicit false

namespace Dialect

/-! ### What the wrapper leaves open -/

namespace Grammar.Wraps

variable {g : Grammar} {id item target opening closing : ElementId} {b c : TokenTypeId}
  (wraps : g.Wraps id item target opening closing b c)

include wraps

/-- Behind the content nothing but the closing delimiter may come next. -/
theorem silent (wellFormed : g.WellFormed) (version : Nat) {token : TokenTypeId}
    (other : token ≠ c) :
    Path.outward g.kindAt (Path.possibleIn version (g.couldStart token)) [⟨item, 0⟩, ⟨id, 1⟩] =
      .ok false := by
  have closes : g.couldStart token closing = .ok false := by
    rw [Grammar.couldStart_of_lt token (lt_of_kind?_eq_some wraps.ends)]
    refine congrArg Except.ok (Bool.eq_false_iff.2 fun possible => other ?_)
    exact (FirstSets.mem_possible_of_token wellFormed wraps.ends).1 possible
  have asked : Path.possibleIn version (g.couldStart token) 1
      (.wrapper opening ⟨item, false, 0⟩ closing true) = .ok none := by
    simp only [Path.possibleIn, closes]
    rfl
  rw [outward_cons wraps.refers rfl, Option.elim_none, outward_cons wraps.stands asked]
  rfl

/-- Behind the content nothing has to come next. -/
theorem undemanding (version : Nat) (token : TokenTypeId) :
    Path.outward g.kindAt (Path.requiredIn version (g.shouldStart token)) [⟨item, 0⟩, ⟨id, 1⟩] =
      .ok false := by
  rw [outward_cons wraps.refers rfl, Option.elim_none, outward_cons wraps.stands rfl]
  rfl

/-- The content is no part of a name. -/
theorem unnamed : Path.nearest g .qualifiedIdentifier [⟨item, 0⟩, ⟨id, 1⟩] = .ok none := by
  obtain ⟨reference, found, kind⟩ := element_of_kind? wraps.refers
  obtain ⟨wrapper, found', kind'⟩ := element_of_kind? wraps.stands
  simp only [Path.nearest, found, found', kind, kind', bind, Except.bind, Kind.nodeKind?]
  rfl

end Grammar.Wraps

/-! ### Running the wrapper -/

section Steps

open Matcher

variable {s : Setting} {input : Input} {id opening closing : ElementId} {slot : Slot ElementId}
  {b : TokenTypeId} {outer : Path} {p r : Progress} {outcome : Outcome} {n levels : Nat}
  {events : List Event} (quiet : p.failure = none) (free : s.Open p.depth)

include quiet free

/-- An element comes to what is done inside it. -/
theorem matchElement_inside {kind : Kind ElementId} (stands : s.grammar.kind? id = some kind)
    (ran : matchKind s (matchElement s levels) id (outer.enter id) kind p.entered = .ok outcome r)
    (level : r.depth = p.depth + 1) :
    matchElement s (levels + 1) id outer p = .ok outcome { r with depth := p.depth } := by
  obtain ⟨element, found, rfl⟩ := element_of_kind? stands
  rw [matchElement_entered quiet free found, bind_of_ok ran, bind_of_ok (leave_eq level)]
  rfl

/-- **Without opening delimiters the content stands alone**, behind the place where the wrapper
would have been opened. -/
theorem balanced_undelimited (sound : p.Sound s.grammar input)
    (stands : s.grammar.kind? opening = some (.token b none none))
    (other : ¬ input.Suits b p.cursor.position) {range : TextRange}
    (here : p.cursor.currentRange = .ok range) (active : slot.isActive s.options.version = true)
    (ran : matchElement s (levels + 1) slot.item (⟨id, 1⟩ :: outer) p.marked = .ok outcome r)
    (isMatch : outcome.isMatch = true) (added : r.cursor = p.cursor.marked.extend n events) :
    balanced s (matchElement s (levels + 1)) (outer.enter id) id opening slot closing p =
      .ok outcome (r.moveTo (p.cursor.extend n (.tombstone :: events))) := by
  have refused : matchElement s (levels + 1) opening ((outer.enter id).moveTo 0) p.marked =
      .ok .noMatch p.marked :=
    delimiter_refused (p := p.marked) quiet free levels _ stands sound.reads other
  have none : openAll (matchElement s (levels + 1)) (outer.enter id) opening
      (p.marked.cursor.remaining + 1) [] p.marked = .ok [] p.marked := by
    have marked : p.marked.cursor.currentRange = .ok range := here
    unfold openAll
    rw [bind_of_ok cursor_eq, bind_of_ok (check_eq_ok.2 ⟨marked, rfl⟩), bind_of_ok refused]
    rfl
  have filled : content s (matchElement s (levels + 1)) (outer.enter id) slot p.marked =
      .ok outcome r := by
    unfold content
    rw [if_pos active]
    exact ran
  unfold balanced
  rw [bind_of_ok p.mark_eq, bind_of_ok cursor_eq, bind_of_ok none, bind_of_ok filled]
  simp only [List.isEmpty_nil, if_true, isMatch]
  rw [bind_of_ok (Progress.release_eq added)]
  rfl

omit free in
/-- The wrapper and the reference in it are entered, the content is matched, and both are left. -/
theorem wrapper_undelimited {item target : ElementId} {c : TokenTypeId}
    (wraps : s.grammar.Wraps id item target opening closing b c) (room : s.Open (p.depth + 1))
    (sound : p.Sound s.grammar input) (other : ¬ input.Suits b p.cursor.position)
    {range : TextRange} (here : p.cursor.currentRange = .ok range)
    (ran : matchElement s levels target (⟨item, 0⟩ :: ⟨id, 1⟩ :: outer) p.entered.marked.entered =
      .ok outcome r)
    (level : r.depth = p.depth + 2) (isMatch : outcome.isMatch = true)
    (added : r.cursor = p.cursor.marked.extend n events) :
    matchElement s (levels + 2) id outer p = .ok outcome
      { r with cursor := p.cursor.extend n (.tombstone :: events), depth := p.depth } := by
  have referred : matchElement s (levels + 1) item (⟨id, 1⟩ :: outer) p.entered.marked =
      .ok outcome { r with depth := p.depth + 1 } :=
    matchElement_inside (p := p.entered.marked) quiet room wraps.refers ran level
  have active : (⟨item, false, 0⟩ : Slot ElementId).isActive s.options.version = true :=
    decide_eq_true (Nat.zero_le _)
  exact matchElement_inside quiet ⟨room.1, Nat.lt_of_succ_lt room.2⟩ wraps.stands
    (balanced_undelimited (p := p.entered) quiet room sound.entered wraps.begins other here active
      referred isMatch added) rfl

end Steps

section Runs

open Matcher

variable {g h : Grammar} {id item target opening closing : ElementId} {b c : TokenTypeId}
  {tokens : Array Token} {options : Options} {cancelled : Bool} {opened : Cursor}
  {memo memo' : Memo}

/-- Trips where a leaf looks behind a reserved word for a token of the type, beyond all the elements
that are open. -/
def looksPast (type : TokenTypeId) (s : Setting) : Guard := s.looksBeyond (· == type)

/-- The same options with so many more levels. -/
def Options.deepened (options : Options) (levels : Nat) : Options :=
  { options with maxDepth := options.maxDepth + levels }

/-- A parse of the content alone and its repetition inside the wrapper, behind the mark that the
wrapper has set. -/
def within (g h : Grammar) (options : Options) (cancelled : Bool) (input : Input)
    (id item : ElementId) : Enclosure :=
  ⟨g.setting options cancelled, h.setting (options.deepened 2) cancelled, input,
    [⟨item, 0⟩, ⟨id, 1⟩], 2, #[.tombstone], 1⟩

/-- A parse of the content alone and a parse of the wrapper that has come to its end. -/
def beside (g h : Grammar) (options : Options) (cancelled : Bool) (input : Input) : Enclosure :=
  ⟨g.setting options cancelled, h.setting (options.deepened 2) cancelled, input, [], 0,
    #[.tombstone], 0⟩

/-- The content and its repetition begin alike. -/
theorem within_begins {vocabulary : Vocabulary} {placeholder : Option String}
    (fresh : Cursor.ofTokens vocabulary tokens placeholder = .ok opened)
    (faithful : memo.Faithful g) (faithful' : memo'.Faithful h) :
    (within g h options cancelled opened.input id item).States (opened.begin options memo)
      (opened.begin options memo').entered.marked.entered := by
  obtain ⟨-, -, -, events_eq, marks_eq, -⟩ := Cursor.ofTokens_eq_ok fresh
  refine ⟨rfl, ?_, faithful, faithful'⟩
  simp [within, Enclosure.cursor, Cursor.begin, Progress.entered, Progress.marked, Cursor.marked,
    events_eq, marks_eq]

variable (more : g.Extends h) (wellFormed : g.WellFormed) (wellFormed' : h.WellFormed)
  (wraps : h.Wraps id item target opening closing b c)

include more wellFormed wellFormed' wraps

/-- The wrapper asks nothing else of its content. -/
theorem within_fair : (within g h options cancelled opened.input id item).Fair where
  more := more
  wellFormed := wellFormed
  wellFormed' := wellFormed'
  reliable := remembering_reliable wellFormed
  reliable' := remembering_reliable wellFormed'
  selective_eq := rfl
  options_eq := rfl
  cancelled_eq := rfl
  must := wraps.undemanding options.version
  unnamed := wraps.unnamed

/-- **The wrapper comes to what its content comes to**, with a gap at the front of the record. -/
theorem run_undelimited
    (fresh : Cursor.ofTokens g.vocabulary tokens options.placeholder = .ok opened)
    (bound : target < g.elements.size) (faithful : memo.Faithful g) (faithful' : memo'.Faithful h)
    (inside : (g.setting options cancelled).halts (looksPast c (g.setting options cancelled)) target
      (opened.begin options memo) = false)
    (other : ¬ opened.input.Suits b 0) {range : TextRange} (here : opened.currentRange = .ok range)
    {outcome : Outcome} {last : Progress} (isMatch : outcome.isMatch = true)
    (going : last.failure = none)
    (ran : run (g.setting options cancelled) target [] (opened.begin options memo) =
      .ok outcome last) :
    ∃ last', run (h.setting (options.deepened 2) cancelled) id [] (opened.begin options memo') =
        .ok outcome last' ∧
      (beside g h options cancelled opened.input).States last last' := by
  obtain ⟨-, -, position_eq, events_eq, marks_eq, -⟩ := Cursor.ofTokens_eq_ok fresh
  have stage : Stage (g.setting options cancelled) opened.input :=
    stage_of_ofTokens wellFormed fresh cancelled
  have sound : Progress.Sound g opened.input (opened.begin options memo) :=
    Cursor.sound_begin fresh faithful
  have sound' : Progress.Sound h opened.input (opened.begin options memo') :=
    Cursor.sound_begin fresh faithful'
  have kept := run_honours (.leafwise _ _) stage bound
    (fun frame none => absurd none List.not_mem_nil) sound False fun no => no.elim
  obtain ⟨events, moved, -⟩ := kept.of_ok ran
  have shallow : last.depth = 0 := moved.keeps.depth
  -- There is room for the wrapper and the reference where there is room for the content.
  obtain ⟨-, awake, -⟩ := open_of_match isMatch ran
  have room : (h.setting (options.deepened 2) cancelled).Open 1 :=
    ⟨awake, Nat.lt_of_lt_of_le (by decide) (Nat.le_add_left 2 _)⟩
  -- The content looks at nothing but itself, so it comes to the same behind the wrapper.
  obtain ⟨last0, guarded, alike⟩ := guarded_of_not_halts stage.reliable sound.faithful inside ran
  obtain ⟨_, r, enclosed, rfl, states⟩ := Enclosure.matchElementGuarded_carries
    (within_fair more wellFormed wellFormed' wraps)
    (fun token other => wraps.silent wellFormed' options.version (beq_eq_false_iff_ne.1 other))
    options.maxDepth [] target [] _ _ (within_begins fresh faithful faithful') _ _ guarded
  replace states := states.of_alike alike
  have level : r.depth = 2 := by
    rw [states.same]
    exact congrArg (· + 2) shallow
  have added : r.cursor = opened.marked.extend outcome.tokens events := by
    rw [states.same]
    simp [within, Enclosure.cursor, moved.cursor, Cursor.begin, Cursor.marked, Cursor.extend,
      events_eq, marks_eq]
  refine ⟨_, wrapper_undelimited (p := opened.begin options memo') rfl wraps room sound'
    (position_eq ▸ other) here enclosed level isMatch added, states.reads, ?_, states.faithful,
    states.faithful'⟩
  rw [states.same]
  simp [beside, within, Enclosure.cursor, moved.cursor, Cursor.begin, Cursor.extend, events_eq,
    marks_eq, going, shallow]

end Runs

/-! ### Reading the record -/

/-- Loops whose rounds are upheld. -/
theorem upholds_foldlM {α β : Type} {step step' : β → α → Except Fault β}
    (each : ∀ state item, Upholds (step state item) (step' state item)) (items : List α)
    (state : β) : Upholds (items.foldlM step state) (items.foldlM step' state) := by
  induction items generalizing state with
  | nil => exact .refl _
  | cons item rest ih => exact upholds_bind (each state item) ih

/-- What is read of a record is the same with more rules, and a gap at its front makes no
difference. -/
theorem Grammar.Extends.ofEvents? {g h : Grammar} (more : g.Extends h) (tokens : Array Token)
    (events : Array Event) :
    Upholds (Node.ofEvents? g tokens events)
      (Node.ofEvents? h tokens (#[.tombstone] ++ events)) := by
  have each : ∀ a event,
      Upholds (Assembly.step g tokens a event) (Assembly.step h tokens a event) := by
    intro a event
    cases event with
    | finish =>
        unfold Assembly.step
        cases a.stack with
        | nil => exact .refl _
        | cons top outer => exact upholds_bind (more.element _) fun _ => .refl _
    | _ => exact .refl _
  have read : Upholds (Assembly.ofEvents g tokens events)
      (Assembly.ofEvents h tokens (#[.tombstone] ++ events)) := by
    unfold Assembly.ofEvents
    rw [Array.toList_append, List.singleton_append, List.foldlM_cons]
    exact upholds_bind (upholds_foldlM each _ _) fun _ => .refl _
  exact upholds_bind read fun _ => .refl _

/-! ### Parses -/

/-- What is left over is reported in the same words. -/
theorem Enclosure.reportLeftOver_carries {m : Enclosure} :
    m.Carries Eq Matcher.reportLeftOver Matcher.reportLeftOver := by
  unfold Matcher.reportLeftOver
  refine carries_bind_cursor fun c reads => ?_
  rw [current?_cursor, currentRange_cursor, endOffset_cursor]
  cases c.current? with
  | none => exact carries_pure rfl
  | some token =>
      refine carries_bind_check (.refl _) fun here _ => carries_bind_check (.refl _) fun stop _ => ?_
      exact carries_bind_check (.refl _) fun range _ => carries_move (moves_report _)

section Parses

open Matcher

variable {g h : Grammar} {id item target opening closing : ElementId} {b c : TokenTypeId}
  {tokens : Array Token} {options : Options} {cancelled : Bool} {opened : Cursor}
  {memo memo' after : Memo} {parse : Parse}

/-- What the content is concluded with, the wrapper is concluded with. -/
theorem conclude_undelimited (more : g.Extends h) {last last' : Progress} {outcome : Outcome}
    {offset : Nat} (states : (beside g h options cancelled opened.input).States last last')
    (concluded : g.conclude last outcome offset = .ok (.ok parse)) :
    h.conclude last' outcome offset = .ok (.ok parse) := by
  obtain ⟨quiet, isMatch, same, events, finished, read⟩ := conclude_eq_ok_iff.1 concluded
  have cursor : last'.cursor =
      (beside g h options cancelled opened.input).cursor last.cursor := by rw [states.same]
  have closed : last.cursor.openMarks = 0 ∧ last.cursor.events = events := by
    unfold Cursor.finish at finished
    split at finished
    · exact ⟨‹_›, Except.ok.inj finished⟩
    · cases finished
  refine conclude_eq_ok_iff.2 ⟨?_, isMatch, same, #[.tombstone] ++ events, ?_, ?_⟩
  · rw [states.same, quiet]
    rfl
  · rw [cursor]
    simp [Cursor.finish, beside, Enclosure.cursor, closed]
  · rw [cursor]
    exact more.ofEvents? last.cursor.tokens events _ read

/-- A parse of the wrapper comes to what a parse of its content comes to. -/
theorem parseFrom_undelimited (more : g.Extends h) (wellFormed : g.WellFormed)
    (wellFormed' : h.WellFormed) (wraps : h.Wraps id item target opening closing b c)
    (fresh : Cursor.ofTokens g.vocabulary tokens options.placeholder = .ok opened)
    (bound : target < g.elements.size) (faithful : memo.Faithful g) (faithful' : memo'.Faithful h)
    (inside : (g.setting options cancelled).halted (looksPast c (g.setting options cancelled))
      target tokens memo = false)
    (other : ¬ opened.input.Suits b 0)
    (parsed : Grammar.parseFrom (g.setting options cancelled) target tokens memo =
      .ok (.ok parse) after) :
    answerWith (Grammar.parseFrom (h.setting (options.deepened 2) cancelled) id tokens) memo' =
      .ok (.ok parse) := by
  obtain ⟨first, last, outcome, offset, begun, ran, concluded⟩ := parseFrom_eq_ok parsed
  obtain rfl := Except.ok.inj (begun.symm.trans (start_of_opened fresh cancelled memo))
  obtain ⟨quiet, isMatch, -⟩ := conclude_eq_ok_iff.1 concluded
  have sound : Progress.Sound g opened.input (opened.begin options memo) :=
    Cursor.sound_begin fresh faithful
  have kept := ensures_matchRoot_exact (s := g.setting options cancelled)
    (stage_of_ofTokens wellFormed fresh cancelled) bound sound
  obtain ⟨middle, _, _, ran', -, -, -, moved⟩ := kept.of_ok ran
  obtain ⟨range, _, here, rfl, ran, reported⟩ := matchRoot_eq_ok.1 ran
  obtain ⟨-, rfl⟩ := EStateM.Result.ok.inj (ran'.symm.trans ran)
  rw [if_pos isMatch] at reported
  have going : middle.failure = none := by
    rw [moved] at quiet
    exact quiet
  obtain ⟨middle', ran', states⟩ := run_undelimited more wellFormed wellFormed' wraps fresh bound
    faithful faithful' (halted_of_start begun ▸ inside) other here isMatch going ran
  obtain ⟨_, last', reported', -, states⟩ :=
    Enclosure.reportLeftOver_carries _ _ states _ _ reported
  have fresh' :
      Cursor.ofTokens h.vocabulary tokens (options.deepened 2).placeholder = .ok opened := by
    rw [more.vocabulary_eq]
    exact fresh
  -- No delimiter stands in front, so the wrapper hands on what the rule inside comes to.
  have matched : matchRoot (h.setting (options.deepened 2) cancelled) id
      (opened.begin options memo') = .ok (outcome, range.start) last' :=
    matchRoot_eq_ok.2 ⟨range, middle', here, rfl, ran', by rw [if_pos isMatch]; exact reported'⟩
  have done : (h.setting (options.deepened 2) cancelled).grammar.conclude last' outcome range.start =
      .ok (.ok parse) := conclude_undelimited more states concluded
  have begun' : Progress.start (h.setting (options.deepened 2) cancelled) memo' tokens =
      .ok (opened.begin options memo') := start_of_opened fresh' cancelled memo'
  unfold answerWith Grammar.parseFrom
  simp only [begun', matched, done]

/-- What names stand for is the same with more rules. -/
theorem Grammar.Extends.rule? (more : g.Extends h) {name : String} {start : ElementId}
    (found : g.rule? name = some start) : h.rule? name = some start :=
  Grammar.lookup_of_longer more.rules found

/-- A parse that comes to a tree has not been too deep anywhere. -/
theorem not_goesTooDeep_of_parse (wellFormed : g.WellFormed) (faithful : memo.Faithful g)
    {rule : Option String}
    (parsed : answerWith (g.parse tokens rule options cancelled) memo = .ok (.ok parse)) :
    g.goesTooDeep tokens rule options cancelled memo = false := by
  by_contra deep
  rcases parse_of_goesTooDeep wellFormed faithful (Bool.not_eq_false _ ▸ deep) with
    aborted | ⟨faults, -⟩
  · cases parsed.symm.trans aborted
  · cases parsed.symm.trans faults

variable {vocabulary : Vocabulary} {rules others : List Rule} {root root' : Option String}
  {inner outer first last : String}

/-- **A rule matches in any number of delimiters what it matches without.**  Whatever a parse
against a rule comes to, a parse against the rule that puts it in delimiters comes to the same,
given two more levels; with as many levels it comes to the same or is aborted for its depth, unless
tokens that are out of order make it fault.  The tokens must not begin with an opening delimiter,
and the parse against the rule must not look past it for a closing one behind a reserved word. -/
theorem parse_undelimited [Alphabet] (built : Grammar.ofRules vocabulary rules root = .ok g)
    (built' : Grammar.ofRules vocabulary (rules ++ others) root' = .ok h)
    (member : ⟨outer, .wrapper first (.required (.reference inner)) last true⟩ ∈ rules ++ others)
    (begins : vocabulary.resolve first = .ok b) (ends : vocabulary.resolve last = .ok c)
    (fresh : Cursor.ofTokens vocabulary tokens options.placeholder = .ok opened)
    (undelimited : ¬ opened.input.Suits b 0) (faithful : memo.Faithful g)
    (faithful' : memo'.Faithful h)
    (inside : g.halted (looksPast c) tokens (some inner) options cancelled memo = false)
    (parsed : answerWith (g.parse tokens (some inner) options cancelled) memo = .ok (.ok parse)) :
    (∀ limit, options.maxDepth + 2 ≤ limit →
      answerWith (h.parse tokens (some outer) { options with maxDepth := limit } cancelled) memo' =
        .ok (.ok parse)) ∧
    (answerWith (h.parse tokens (some outer) options cancelled) memo' = .ok (.ok parse) ∨
      answerWith (h.parse tokens (some outer) options cancelled) memo' =
        .ok (.error (.depthExceeded options.maxDepth)) ∨
      answerWith (h.parse tokens (some outer) options cancelled) memo' = .error .textRange ∧
        ¬ Token.InOrder tokens) := by
  have wellFormed := Grammar.ofRules_wellFormed built
  have wellFormed' := Grammar.ofRules_wellFormed built'
  have more := Grammar.extends_of_ofRules built built'
  obtain rfl := Grammar.vocabulary_of_ofRules built
  obtain ⟨id, item, target, opening, closing, named, refers, wraps⟩ :=
    Grammar.exists_wraps built' member begins ends
  have far : answerWith (h.parse tokens (some outer) (options.deepened 2) cancelled) memo' =
      .ok (.ok parse) := by
    obtain ⟨after, ran⟩ := answerWith_eq_ok.1 parsed
    obtain ⟨start, started, ranFrom⟩ := parse_eq_ok ran
    have there := more.rule? (startAt_some_eq_ok.1 started)
    obtain rfl := Option.some.inj (there.symm.trans refers)
    rw [parse_of_startAt (startAt_some_eq_ok.2 named)]
    exact parseFrom_undelimited more wellFormed wellFormed' wraps fresh
      (startAt_lt wellFormed started) faithful faithful' (halted_of_startAt started ▸ inside)
      undelimited ranFrom
  -- Two more levels are enough; with fewer only the guard for the depth can answer differently.
  have shallow := not_goesTooDeep_of_parse wellFormed' faithful' far
  refine ⟨fun limit enough => ?_, ?_⟩
  · exact (parse_of_not_goesTooDeep wellFormed' faithful' faithful' enough shallow).trans far
  · cases deep : h.goesTooDeep tokens (some outer) options cancelled memo' with
    | true => exact .inr (parse_of_goesTooDeep wellFormed' faithful' deep)
    | false =>
        have same := parse_of_not_goesTooDeep wellFormed' faithful' faithful'
          (Nat.le_add_right options.maxDepth 2) deep
        exact .inl (same.symm.trans far)

end Parses

/-- A rule that lets a match begin with a parenthesis, and a reserved word be read as a name. -/
def looseRules : List Rule :=
  [⟨"e", .oneOf [
    .required (.sequence [.required (.token "A" none none), .required (.token "L" none none),
      .required (.identifier .reference false none), .required (.token "R" none none)]),
    .required (.token "A" none none),
    .required (.sequence [.required (.token "L" none none), .required (.token "A" none none)]),
    .required (.identifier .reference false none),
    .required (.sequence [.required (.token "K" none none), .required (.token "R" none none)])]
      false⟩]

/-- The rule in any number of parentheses. -/
def lacedRules : List Rule := [⟨"w", .wrapper "L" (.required (.reference "e")) "R" true⟩]

/-- The grammar of the first rule. -/
def loose : Grammar where
  vocabulary := ⟨"test", #[.character "L" "(", .keyword "A" "a", .character "R" ")",
    ⟨"K", some "k", .keyword, true⟩]⟩
  elements := #[
    ⟨0, "e", some "e", none,
      .oneOf [.required 1, .required 6, .required 7, .required 10, .required 11] false⟩,
    ⟨1, "e#1", none, some 0, .sequence [.required 2, .required 3, .required 4, .required 5]⟩,
    ⟨2, "e#2", none, some 1, .token 1 none none⟩,
    ⟨3, "e#3", none, some 1, .token 0 none none⟩,
    ⟨4, "e#4", none, some 1, .identifier .reference false none⟩,
    ⟨5, "e#5", none, some 1, .token 2 none none⟩,
    ⟨6, "e#6", none, some 0, .token 1 none none⟩,
    ⟨7, "e#7", none, some 0, .sequence [.required 8, .required 9]⟩,
    ⟨8, "e#8", none, some 7, .token 0 none none⟩,
    ⟨9, "e#9", none, some 7, .token 1 none none⟩,
    ⟨10, "e#10", none, some 0, .identifier .reference false none⟩,
    ⟨11, "e#11", none, some 0, .sequence [.required 12, .required 13]⟩,
    ⟨12, "e#12", none, some 11, .token 3 none none⟩,
    ⟨13, "e#13", none, some 11, .token 2 none none⟩]
  rules := [("e", 0)]
  root := 0

/-- The grammar of both rules. -/
def laced : Grammar where
  vocabulary := loose.vocabulary
  elements := loose.elements ++ #[
    ⟨14, "w", some "w", none, .wrapper 15 (.required 16) 17 true⟩,
    ⟨15, "w#1", none, some 14, .token 0 none none⟩,
    ⟨16, "w#2", none, some 14, .reference 0⟩,
    ⟨17, "w#3", none, some 14, .token 2 none none⟩]
  rules := [("e", 0), ("w", 14)]
  root := 0

theorem loose_built : Grammar.ofRules loose.vocabulary looseRules none = .ok loose := by
  with_unfolding_all rfl

theorem laced_built :
    Grammar.ofRules loose.vocabulary (looseRules ++ lacedRules) none = .ok laced := by
  with_unfolding_all rfl

/-- A reserved word in parentheses of its own: the token behind it may come next, but it is the rule
itself that says so. -/
def enclosedTokens : Array Token := #[⟨1, "a", 0⟩, ⟨0, "(", 1⟩, ⟨3, "k", 2⟩, ⟨2, ")", 3⟩]

/-- The reserved word is read as a name, with and without the rule for parentheses. -/
theorem lacedWord_undelimited :
    Grammar.ofRules loose.vocabulary looseRules none = .ok loose ∧
      Grammar.ofRules loose.vocabulary (looseRules ++ lacedRules) none = .ok laced ∧
      ∃ parse, parse.ok = true ∧
        answerWith (loose.parse enclosedTokens (some "e") {} false) loose.blankMemo =
          .ok (.ok parse) ∧
        answerWith (laced.parse enclosedTokens (some "w") { maxDepth := 514 } false)
          laced.blankMemo = .ok (.ok parse) := by
  have accepted : comesTo Parse.ok
      (loose.parse enclosedTokens (some "e") {} false loose.blankMemo) = true := by
    decide +kernel
  obtain ⟨parse, after, parsed, isOk⟩ := exists_of_comesTo accepted
  have answered := answerWith_eq_ok.2 ⟨after, parsed⟩
  let opened : Cursor := ⟨enclosedTokens, #[0, 1, 2, 3], none, 0, #[], 0⟩
  have fresh : Cursor.ofTokens loose.vocabulary enclosedTokens none = .ok opened := by
    decide +kernel
  have member : (⟨"w", .wrapper "L" (.required (.reference "e")) "R" true⟩ : Rule) ∈
      looseRules ++ lacedRules := by
    simp [lacedRules]
  have begins : loose.vocabulary.resolve "L" = .ok 0 := by decide +kernel
  have ends : loose.vocabulary.resolve "R" = .ok 2 := by decide +kernel
  have undelimited : ¬ opened.input.Suits 0 0 := by decide
  have inside : loose.halted (looksPast 2) enclosedTokens (some "e") {} false loose.blankMemo =
      false := by
    decide +kernel
  have both := parse_undelimited loose_built laced_built member begins ends fresh undelimited
    (Memo.blank_faithful loose) (Memo.blank_faithful laced) inside answered
  exact ⟨loose_built, laced_built, parse, isOk, answered, both.1 514 (by decide)⟩

/-- What the rule matches is not always matched in parentheses.  A parenthesis at the front is
taken for an opening one, and so is the placeholder; the reserved word is read as a name if a
closing parenthesis may come next; and two more levels are needed. -/
theorem lacedTokens_differ :
    Grammar.ofRules loose.vocabulary (looseRules ++ lacedRules) none = .ok laced ∧
      (verdict (answerWith (laced.parse #[⟨0, "(", 0⟩, ⟨1, "a", 1⟩] (some "e") {} false)
          laced.blankMemo) = .ok (.ok true) ∧
        verdict (answerWith (laced.parse #[⟨0, "(", 0⟩, ⟨1, "a", 1⟩] (some "w") {} false)
          laced.blankMemo) = .ok (.ok false)) ∧
      (verdict (answerWith (laced.parse #[⟨1, "a", 0⟩] (some "e")
          { placeholder := some "a" } false) laced.blankMemo) = .ok (.ok true) ∧
        verdict (answerWith (laced.parse #[⟨1, "a", 0⟩] (some "w")
          { placeholder := some "a" } false) laced.blankMemo) = .ok (.ok false)) ∧
      (verdict (answerWith (laced.parse #[⟨3, "k", 0⟩, ⟨2, ")", 1⟩] (some "e") {} false)
          laced.blankMemo) = .ok (.ok true) ∧
        verdict (answerWith (laced.parse #[⟨3, "k", 0⟩, ⟨2, ")", 1⟩] (some "w") {} false)
          laced.blankMemo) = .ok (.ok false)) ∧
      verdict (answerWith (laced.parse #[⟨1, "a", 0⟩] (some "e") { maxDepth := 3 } false)
          laced.blankMemo) = .ok (.ok true) ∧
        verdict (answerWith (laced.parse #[⟨1, "a", 0⟩] (some "w") { maxDepth := 3 } false)
          laced.blankMemo) = .ok (.error (.depthExceeded 3)) := by
  refine ⟨laced_built, ⟨?_, ?_⟩, ⟨?_, ?_⟩, ⟨?_, ?_⟩, ?_, ?_⟩ <;> decide +kernel

end Dialect
