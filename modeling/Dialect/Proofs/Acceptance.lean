import Dialect.Proofs.Accounting
import Dialect.Proofs.Matching.Definite

/-!
# What is accepted

Where the first token tells the alternatives of a grammar apart, a parse accepts exactly the
input that is spelled by the rule it starts from (`parse_accepts`).  Nothing else can come in
between than the depth of nesting, the caller, or tokens that are out of order.
-/

set_option autoImplicit false

namespace Dialect

variable {g : Grammar} {vocabulary : Vocabulary} {rules : List Rule} {name : Option String}
  {input : Input} {tokens : Array Token} {options : Options} {cancelled : Bool}

/-- What a parse answers: it was aborted by the caller or for the depth of nesting, or it
accepts the input exactly if all of it is spelled by the root. -/
def Accepts (g : Grammar) (options : Options) (cancelled : Bool) (root : ElementId)
    (input : Input) (answer : Except Failure Parse) : Prop :=
  answer = .error (.depthExceeded options.maxDepth) ∨
    cancelled = true ∧ answer = .error .cancelled ∨
    ((∃ parse, answer = .ok parse ∧ parse.ok = true) ↔ Spells g input root 0 input.size)

/-- A parse that has run its root accepts what the root spells. -/
theorem Concluded.accepts {s : Setting} (listed : input.Listed)
    (unmarked : input.placeholder = none) {root : ElementId}
    (definite : s.grammar.Definite s.options.version root) {outcome : Outcome} {last : Progress}
    (leads : s.Leads none last.failure)
    (matched : ∃ events, Matched (Recorded s input s.options.maxDepth root []) True 0 events outcome)
    (finds : ∀ j, Spells s.grammar input root 0 j → last.failure = none → outcome = .fullMatch j)
    {answer : Except Failure Parse}
    (concluded : Concluded s.grammar input root outcome last answer) :
    Accepts s.grammar s.options s.cancelled root input answer := by
  -- An answer is an abort, no match or a tree; only a tree with nothing to report accepts.
  cases concluded with
  | aborted failed =>
      rw [failed] at leads
      cases leads with
      | abort reason =>
          cases reason with
          | cancelled withdrawn => exact Or.inr (Or.inl ⟨withdrawn, rfl⟩)
          | depthExceeded => exact Or.inl rfl
  | noMatch going nothing =>
      refine Or.inr (Or.inr ⟨?_, fun spells => ?_⟩)
      · rintro ⟨parse, answered, -⟩
        cases answered
      · rw [finds _ spells going] at nothing
        cases nothing
  | matched going isMatch account leftOver assembled =>
      have ok_iff := (account.diagnosed listed isMatch leftOver).ok_iff
      refine Or.inr (Or.inr ⟨?_, fun spells => ⟨_, rfl, ok_iff.2 ?_⟩⟩)
      · rintro ⟨parse, answered, isOk⟩
        cases answered
        obtain ⟨full, whole⟩ := ok_iff.1 isOk
        obtain ⟨events, matched⟩ := matched
        cases outcome with
        | fullMatch n =>
            obtain rfl : n = input.size := whole
            have recorded := matched.2
            rw [Nat.zero_add] at recorded
            exact recorded_spells unmarked _ definite recorded
        | _ => cases full
      · obtain rfl := finds _ spells going
        exact ⟨rfl, rfl⟩

section Run

variable {s : Setting} {root : ElementId} {p last : Progress} {outcome : Outcome}

/-- Running an element at the beginning matches all that it spells, unless the parse is
aborted. -/
theorem run_finds (stage : Stage s input) (compact : s.grammar.Compact)
    (unmarked : input.placeholder = none) (selective : s.predictor.selective = true)
    (definite : s.grammar.Definite s.options.version root) (sound : p.Sound s.grammar input)
    (fresh : p.cursor.position = 0) (outside : p.depth = 0)
    (runs : Matcher.run s root [] p = .ok outcome last) {j : Nat}
    (spells : Spells s.grammar input root 0 j) (going : last.failure = none) :
    outcome = .fullMatch j := by
  rw [← fresh] at spells
  have finds := matchElement_finds stage compact unmarked selective s.options.maxDepth 0
    (Nat.le_refl _) root [] p j definite (fun frame none => absurd none List.not_mem_nil) sound
    outside spells
  rw [finds.of_ok runs going, fresh, Nat.sub_zero]

/-- A match at the beginning is recorded. -/
theorem run_matched (stage : Stage s input) (bound : root < s.grammar.elements.size)
    (sound : p.Sound s.grammar input) (fresh : p.cursor.position = 0)
    (runs : Matcher.run s root [] p = .ok outcome last) :
    ∃ events, Matched (Recorded s input s.options.maxDepth root []) True 0 events outcome := by
  have came := run_honours (.leafwise s input) stage bound
    (fun frame none => absurd none List.not_mem_nil) sound False fun no => no.elim
  obtain ⟨events, -, matched⟩ := came.of_ok runs
  rw [fresh] at matched
  refine ⟨events, ?_⟩
  cases outcome with
  | noMatch => exact ⟨matched.1, trivial⟩
  | partialMatch n => exact matched
  | fullMatch n => exact matched

end Run

/-- **A parse of a definite grammar accepts what is spelled.**  It is right about the input,
with or without recovery, unless it is aborted.  It comes to nothing only for a range that is
none, in tokens that are out of order, or for a token of an unknown type. -/
theorem parse_accepts [Alphabet] (built : Grammar.ofRules vocabulary rules name = .ok g)
    {rule : Option String}
    {root : ElementId} (started : g.startAt rule = .ok root)
    (definite : g.Definite options.version root) (unmarked : options.placeholder = none)
    (tokens : Array Token) (cancelled : Bool) {memo : Memo} (faithful : memo.Faithful g) :
    (∃ opened answer memo', Cursor.ofTokens g.vocabulary tokens none = .ok opened ∧
      g.parse tokens rule options cancelled memo = .ok answer memo' ∧
        Accepts g options cancelled root opened.input answer) ∨
    (∃ memo', g.parse tokens rule options cancelled memo = .error .textRange memo') ∧
      ¬ Token.InOrder tokens ∨
    ∃ token ∈ tokens, ¬ token.kind < g.vocabulary.types.size ∧ ∃ memo',
      g.parse tokens rule options cancelled memo = .error (.unknownTokenType token.kind) memo' := by
  have wellFormed := Grammar.ofRules_wellFormed built
  have bound := startAt_lt wellFormed started
  have parse_eq : g.parse tokens rule options cancelled memo =
      Grammar.parseFrom (g.setting options cancelled) root tokens memo := by
    unfold Grammar.parse
    rw [started]
    rfl
  rw [parse_eq]
  -- Tokens of unknown types are refused before the parse begins.
  cases fresh : Cursor.ofTokens g.vocabulary tokens none with
  | error fault =>
      obtain ⟨token, listed, unknown, rfl⟩ := Cursor.unknown_of_ofTokens fresh
      refine Or.inr (Or.inr ⟨token, listed, unknown, memo, ?_⟩)
      rw [← unmarked] at fresh
      unfold Grammar.parseFrom
      rw [start_of_fault fresh]
  | ok opened =>
      rw [← unmarked] at fresh
      have stage : Stage (g.setting options cancelled) opened.input :=
        stage_of_ofTokens wellFormed fresh cancelled
      obtain ⟨-, placeholder_eq, position_eq, -⟩ := Cursor.ofTokens_eq_ok fresh
      have plain : opened.input.placeholder = none := placeholder_eq.trans unmarked
      have sound : Progress.Sound g opened.input (opened.begin options memo) :=
        ⟨rfl, by simp [Cursor.begin, position_eq], faithful⟩
      rcases parseFrom_concludes wellFormed cancelled fresh bound faithful with
        ⟨outcome, last, answer, memo', runs, -, concluded, done⟩ | disorder
      · refine Or.inl ⟨opened, answer, memo', rfl, done, ?_⟩
        exact concluded.accepts (s := g.setting options cancelled) (Cursor.listed_of_ofTokens fresh)
          plain definite (run_leads stage.reliable sound.faithful runs)
          (run_matched stage bound sound position_eq runs) fun j spells going =>
            run_finds stage (Grammar.ofRules_compact built) plain rfl definite sound position_eq rfl
              runs spells going
      · exact Or.inr (Or.inl disorder)

/-- A word, or the same thing in parentheses. -/
def nestedRules : List Rule :=
  [⟨"r", .oneOf [.required (.token "A" none none),
    .required (.wrapper "L" (.required (.reference "r")) "R" false)] false⟩]

/-- The grammar of that rule. -/
def nested : Grammar where
  vocabulary := ⟨"test", #[.keyword "A" "a", .character "L" "(", .character "R" ")"]⟩
  elements := #[
    ⟨0, "r", some "r", none, .oneOf [.required 1, .required 2] false⟩,
    ⟨1, "r#1", none, some 0, .token 0 none none⟩,
    ⟨2, "r#2", none, some 0, .wrapper 3 (.required 4) 5 false⟩,
    ⟨3, "r#3", none, some 2, .token 1 none none⟩,
    ⟨4, "r#4", none, some 2, .reference 0⟩,
    ⟨5, "r#5", none, some 2, .token 2 none none⟩]
  rules := [("r", 0)]
  root := 0

theorem nested_built : Grammar.ofRules nested.vocabulary nestedRules none = .ok nested := by
  with_unfolding_all rfl

theorem nested_definite (version : Nat) (root : ElementId) : nested.Definite version root := by
  have apart : ((FirstSets.ofElement nested 1).possible ∩
      (FirstSets.ofElement nested 2).possible).isEmpty = true := by
    with_unfolding_all rfl
  have differ : ∀ token, token ∈ (FirstSets.ofElement nested 1).possible →
      token ∉ (FirstSets.ofElement nested 2).possible := fun token first second =>
    TokenSet.isEmpty_iff.1 apart token (TokenSet.mem_inter.2 ⟨first, second⟩)
  have each : ∀ element ∈ nested.elements, element.kind.Definite nested version := by
    simpa [nested, Kind.Definite, Slot.required, Slot.isActive] using differ
  refine ⟨fun id kind _ stands => ?_, by decide⟩
  obtain ⟨element, found, rfl⟩ := Grammar.kind?_eq_some.1 stands
  exact each element (Array.mem_of_getElem? found)

/-- A word in parentheses, the tokens at the given offsets. -/
def nestedTokens (first second third : Nat) : Array Token :=
  #[⟨1, "(", first⟩, ⟨0, "a", second⟩, ⟨2, ")", third⟩]

/-- The word in parentheses is accepted and spelled. -/
theorem nestedTokens_accepted :
    Grammar.ofRules nested.vocabulary nestedRules none = .ok nested ∧
      nested.startAt none = .ok 0 ∧ nested.Definite ({} : Options).version 0 ∧
      ∃ opened parse memo,
        Cursor.ofTokens nested.vocabulary (nestedTokens 0 1 2) none = .ok opened ∧
        nested.parse (nestedTokens 0 1 2) none {} false nested.blankMemo = .ok (.ok parse) memo ∧
        parse.ok = true ∧ Spells nested opened.input 0 0 3 := by
  have accepted : comesTo Parse.ok
      (nested.parse (nestedTokens 0 1 2) none {} false nested.blankMemo) = true := by
    decide +kernel
  have definite : nested.Definite ({} : Options).version 0 := nested_definite _ _
  have started : nested.startAt none = .ok 0 := rfl
  refine ⟨nested_built, started, definite, ?_⟩
  rcases parse_accepts nested_built started definite rfl
    (nestedTokens 0 1 2) false (Memo.blank_faithful nested) with
    ⟨opened, answer, memo, fresh, parsed, accepts⟩ | ⟨⟨memo, failed⟩, -⟩ |
      ⟨token, -, -, memo, failed⟩
  · rw [parsed] at accepted
    cases answer with
    | error failure => cases accepted
    | ok parse =>
        have size_eq : opened.input.size = 3 := by
          cases fresh
          rfl
        refine ⟨opened, parse, memo, fresh, parsed, accepted, size_eq ▸ ?_⟩
        rcases accepts with deep | ⟨-, withdrawn⟩ | exactly
        · cases deep
        · cases withdrawn
        · exact exactly.1 ⟨parse, rfl, accepted⟩
  · rw [failed] at accepted
    cases accepted
  · rw [failed] at accepted
    cases accepted

/-- Tokens that are out of order are spelled by the rule, but no parse accepts them. -/
theorem nestedTokens_refused :
    Grammar.ofRules nested.vocabulary nestedRules none = .ok nested ∧
      nested.startAt none = .ok 0 ∧ nested.Definite ({} : Options).version 0 ∧
      ∃ opened, Cursor.ofTokens nested.vocabulary (nestedTokens 10 5 0) none = .ok opened ∧
        Spells nested opened.input 0 0 opened.input.size ∧
        ∃ memo, nested.parse (nestedTokens 10 5 0) none {} false nested.blankMemo =
          .error .textRange memo := by
  have refused : (match nested.parse (nestedTokens 10 5 0) none {} false nested.blankMemo with
      | .ok _ _ => false
      | .error fault _ => decide (fault = .textRange)) = true := by
    decide +kernel
  refine ⟨nested_built, rfl, nested_definite _ _,
    ⟨nestedTokens 10 5 0, #[0, 1, 2], none, 0, #[], 0⟩, rfl, ?_, ?_⟩
  · have word : Spells nested ⟨nestedTokens 10 5 0, #[0, 1, 2], none⟩ 0 1 2 :=
      .oneOf rfl (List.mem_cons_self) (.token rfl rfl rfl nofun)
    exact .oneOf rfl (List.mem_cons_of_mem _ List.mem_cons_self)
      (.wrapper rfl (.token rfl rfl rfl nofun) (.reference rfl word) (.token rfl rfl rfl nofun))
  · split at refused
    · cases refused
    · obtain rfl := of_decide_eq_true refused
      exact ⟨_, ‹_›⟩

end Dialect
