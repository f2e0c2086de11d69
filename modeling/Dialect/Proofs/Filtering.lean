import Dialect.Proofs.Parse
import Dialect.Proofs.Renaming.Vocabulary
import Dialect.Proofs.Sharing
import Dialect.Proofs.Tracking.Filter

/-!
# Trying every alternative

A choice passes over the alternatives that cannot begin with the token at the cursor, unless the
token is a chameleon or the placeholder.  In a version that has every slot this is only a matter
of time (`parse_exhaustive`): a parse that tries every active alternative comes to the same, and
so does one that takes chameleons for ordinary tokens.  An alternative that is passed over would
have left the cursor with its record, and the words given free, as they are.

There are two exceptions.  A parse that tries more may go too deep where the other does not.  And
it may ask for the range of a token that the other never looks at, which is a fault if the token
ends where offsets can no longer be counted (`masked_not_exhaustive`).
-/

set_option autoImplicit false

namespace Dialect

open Matcher

/-! ### Chameleons -/

/-- The type of an ordinary token instead of a chameleon. -/
def TokenType.ordinary (type : TokenType) : TokenType :=
  if type.isChameleon then { type with category := .unknown } else type

/-- The vocabulary with ordinary tokens instead of chameleons. -/
def Vocabulary.withoutChameleons (vocabulary : Vocabulary) : Vocabulary :=
  { vocabulary with types := vocabulary.types.map TokenType.ordinary }

/-- The grammar with ordinary tokens instead of chameleons. -/
def Grammar.withoutChameleons (g : Grammar) : Grammar :=
  g.inVocabulary g.vocabulary.withoutChameleons

/-- Leaves cannot tell an ordinary token from a chameleon. -/
theorem TokenType.similar_ordinary (type : TokenType) : type.Similar type.ordinary := by
  obtain ⟨name, value, category, suppressible⟩ := type
  cases category <;> exact ⟨rfl, rfl, rfl, rfl, rfl, rfl, rfl⟩

theorem Vocabulary.similar_withoutChameleons (vocabulary : Vocabulary) :
    vocabulary.Similar vocabulary.withoutChameleons := by
  unfold Similar withoutChameleons
  rw [Array.toList_map, List.forall₂_map_right_iff, List.forall₂_same]
  exact fun type _ => type.similar_ordinary

/-! ### Alternatives that are passed over -/

/-- Attempts of what cannot begin with the token at the cursor come to nothing.  They leave the
cursor with its record and its marks, and the words given free, as they are, unless there is a
token that ends where offsets can no longer be counted. -/
def Setting.TriesInVain (s : Setting) (input : Input) : Prop :=
  ∀ levels id outer p current, s.options.maxDepth ≤ levels + p.depth →
    id < s.grammar.elements.size → outer.Within s.grammar [] → p.Sound s.grammar input →
    p.cursor.current? = some current → p.cursor.atPlaceholder = false →
    current.kind ∉ (FirstSets.ofElement s.grammar id).possible →
      (∃ r, matchElement s levels id outer p = .ok .noMatch r ∧ r.cursor = p.cursor ∧
        r.waved = p.waved) ∨
      (∃ r, matchElement s levels id outer p = .error .textRange r) ∧
        ∃ token ∈ input.tokens, TextRange.offsetLimit ≤ token.offset + token.text.utf8ByteSize

theorem triesInVain {s : Setting} {input : Input} (stage : Stage s input)
    (all : s.grammar.HasAll s.options.version) : s.TriesInVain input := by
  intro levels id outer p current enough bound within sound shown plain impossible
  have refused := matchElement_refuses stage.reliable stage.wellFormed levels id outer p
    (Grammar.foreign_of_not_mem stage.wellFormed all bound impossible)
    ⟨sound, ⟨current, shown, rfl⟩, plain⟩
  have kept := matchElement_honours (.leafwise s input) stage levels p.depth enough False id bound
    outer p within sound rfl False.elim
  unfold Ensures at refused kept
  cases ran : matchElement s levels id outer p with
  | ok outcome r =>
      rw [ran] at refused
      obtain ⟨rfl, rests⟩ := refused
      exact Or.inl ⟨r, rfl, rests.stay, rests.same⟩
  | error fault r =>
      rw [ran] at kept
      obtain ⟨rfl, beyond⟩ := beyond_of_excused kept
      exact Or.inr ⟨⟨r, rfl⟩, beyond⟩

/-! ### Runs -/

/-- Whether running the root trips the depth guard. -/
def Setting.tripsGuard (s : Setting) (root : ElementId) (tokens : Array Token) (memo : Memo) :
    Bool :=
  match Progress.start s memo tokens with
  | .ok p => (Progress.ofResult (run s root [] p)).failure =
      some (.depthExceeded s.options.maxDepth)
  | .error _ => false

section Runs

variable {s : Setting} {input : Input} {root : ElementId} {tokens : Array Token} {p q r : Progress}

/-- A parse that is not cancelled is aborted only for its depth. -/
theorem going_of_run (stage : Stage s input) (faithful : p.memo.Faithful s.grammar)
    (running : s.cancelled = false) (quiet : p.failure = none) {outcome : Outcome}
    (ran : run s root [] p = .ok outcome r)
    (shallow : r.failure ≠ some (.depthExceeded s.options.maxDepth)) : r.failure = none := by
  have leads := run_leads stage.reliable faithful ran
  rw [quiet] at leads
  generalize r.failure = failure at leads shallow
  cases leads with
  | stay => rfl
  | abort reason =>
      cases reason with
      | cancelled withdrawn => simp [running] at withdrawn
      | depthExceeded => exact absurd rfl shallow

/-- A run that is not aborted is followed by one that passes over alternatives. -/
theorem run_follows (stage : Stage s input) (all : s.grammar.HasAll s.options.version)
    (bound : root < s.grammar.elements.size) (sound : p.Sound s.grammar input)
    (alike : p.Alike s.grammar q) (fresh : p.depth = 0) (quiet : p.failure = none)
    {outcome : Outcome} (ran : run s.exhaustive root [] p = .ok outcome r)
    (going : r.failure = none) :
    Together (.never s.exhaustive) p (.ok outcome r) (run s root [] q) := by
  have abreast : ((Pairing.filtering s input).atDepth 0).Abreast p q := by
    refine ⟨⟨sound, fresh⟩, ⟨?_, ?_, ?_, ?_, alike.faithful'⟩, ?_, ?_⟩ <;> rw [alike.same]
    · exact False.elim
    · exact fun _ => rfl
  have attempts := Pairing.filtering_attempts stage all (Nat.add_zero s.options.maxDepth)
  rw [Pairing.Below, matchElementGuarded_never] at attempts
  have follows := (attempts.tracks root [] p q bound
    (fun frame none => absurd none List.not_mem_nil) abreast outcome r ran).2 going
  change Pairing.Follows _ _ _ _ (run s root [] q) at follows
  cases ran' : run s root [] q with
  | error fault t =>
      rw [ran'] at follows
      exact follows.1.elim
  | ok outcome' t =>
      rw [ran'] at follows
      rcases follows with ⟨rfl, after⟩ | ⟨never, -⟩
      · refine .ok ⟨after.same id, after.faithful, after.remembered⟩ ?_
        rw [quiet, going]
        exact .stay _
      · exact never.elim

/-- **Running the root comes to the same whether or not alternatives are passed over.** -/
theorem run_filtered (stage : Stage s input) (all : s.grammar.HasAll s.options.version)
    (bound : root < s.grammar.elements.size) (sound : p.Sound s.grammar input)
    (alike : p.Alike s.grammar q) (fresh : p.depth = 0) (quiet : p.failure = none)
    (shallow : (Progress.ofResult (run s.exhaustive root [] p)).failure ≠
      some (.depthExceeded s.options.maxDepth)) :
    Together (.never s.exhaustive) p (run s.exhaustive root [] p) (run s root [] q) ∨
      (∃ r, run s.exhaustive root [] p = .error .textRange r) ∧
        ∃ token ∈ input.tokens, TextRange.offsetLimit ≤ token.offset + token.text.utf8ByteSize := by
  cases running : s.cancelled with
  | true =>
      have withdrawn : s.exhaustive.cancelled = true := running
      have quiet' : q.failure = none := by
        rw [alike.same]
        exact quiet
      have left : run s.exhaustive root [] p = .ok .noMatch { p with failure := some .cancelled } :=
        matchElement_cancelled withdrawn quiet _ _ _
      have right : run s root [] q = .ok .noMatch { q with failure := some .cancelled } :=
        matchElement_cancelled running quiet' _ _ _
      rw [left, right]
      refine Or.inl (.ok ⟨by rw [alike.same], alike.faithful, alike.faithful'⟩ ?_)
      rw [quiet]
      exact .abort (.cancelled running)
  | false =>
      -- Faults end the exhaustive run only at tokens beyond the reach of text ranges.
      have kept := run_honours (.leafwise s.exhaustive input) stage.exhaustive bound
        (fun frame none => absurd none List.not_mem_nil) sound False False.elim
      unfold Ensures at kept
      cases ran : run s.exhaustive root [] p with
      | error fault r =>
          rw [ran] at kept
          obtain ⟨rfl, beyond⟩ := beyond_of_excused kept
          exact Or.inr ⟨⟨r, rfl⟩, beyond⟩
      | ok outcome r =>
          rw [ran] at shallow
          have going := going_of_run stage.exhaustive alike.faithful running quiet ran shallow
          exact Or.inl (run_follows stage all bound sound alike fresh quiet ran going)

/-- If running the root fails for a token that does not fit, so does the parse. -/
theorem parseFrom_faults {memo : Memo} (sound : p.Sound s.grammar input)
    (started : Progress.start s memo tokens = .ok p) (ran : run s root [] p = .error .textRange r) :
    answerWith (Grammar.parseFrom s root tokens) memo = .error .textRange := by
  have faults : ∃ q, matchRoot s root p = .error .textRange q := by
    unfold matchRoot
    rw [bind_apply, cursor_eq]
    dsimp only
    cases range_eq : p.cursor.currentRange with
    | error fault =>
        rw [sound.range_eq] at range_eq
        have blame : Excused s.grammar input [] fault := raises_currentRange _ _ fault range_eq
        obtain ⟨rfl, -⟩ := beyond_of_excused blame
        exact ⟨p, rfl⟩
    | ok range =>
        refine ⟨r, ?_⟩
        change (run s root [] >>= _) p = _
        rw [bind_apply, ran]
  obtain ⟨q, failed⟩ := faults
  unfold answerWith Grammar.parseFrom
  simp only [started, failed]

end Runs

/-! ### Parses -/

/-- Parses trying every active alternative of a choice. -/
def Grammar.parseExhaustive (g : Grammar) (tokens : Array Token) (rule : Option String)
    (options : Options) (cancelled : Bool) : Query (Except Failure Parse) :=
  g.parseAsking (Predictor.remembering g).exhaustive tokens rule options cancelled

section Parses

variable {g : Grammar} {options : Options} {cancelled : Bool} {tokens : Array Token}
  {memo memo' : Memo}

/-- A parse comes to the same whether or not alternatives are passed over. -/
theorem parseFrom_filtered (wellFormed : g.WellFormed) (all : g.HasAll options.version)
    {root : ElementId} (bound : root < g.elements.size) (faithful : memo.Faithful g)
    (faithful' : memo'.Faithful g)
    (shallow : (g.setting options cancelled).exhaustive.tripsGuard root tokens memo = false) :
    answerWith (Grammar.parseFrom (g.setting options cancelled) root tokens) memo' =
        answerWith (Grammar.parseFrom (g.setting options cancelled).exhaustive root tokens) memo ∨
      answerWith (Grammar.parseFrom (g.setting options cancelled).exhaustive root tokens) memo =
          .error .textRange ∧
        ∃ token ∈ tokens, TextRange.offsetLimit ≤ token.offset + token.text.utf8ByteSize := by
  by_cases together : ∀ p q,
      Progress.start (g.setting options cancelled).exhaustive memo tokens = .ok p →
      Progress.start (g.setting options cancelled).exhaustive memo' tokens = .ok q →
      p.Alike g q → Together (.never (g.setting options cancelled).exhaustive) p
        (run (g.setting options cancelled).exhaustive root [] p)
        (run (g.setting options cancelled) root [] q)
  · obtain ⟨after, -, parsed⟩ := parseFrom_together (s := (g.setting options cancelled).exhaustive)
      (g.setting options cancelled) rfl rfl faithful faithful' together
    left
    conv_lhs => unfold answerWith
    rw [parsed]
    cases answerWith (Grammar.parseFrom (g.setting options cancelled).exhaustive root tokens) memo <;>
      rfl
  · -- Where the runs do not go together, the exhaustive one has ended in a fault.
    right
    push Not at together
    obtain ⟨p, q, started, -, alike, apart⟩ := together
    obtain ⟨opened, fresh, begun⟩ := bind_eq_ok.1 started
    obtain rfl := Except.ok.inj begun
    have stage := stage_of_ofTokens wellFormed fresh cancelled
    obtain ⟨rfl, -, position, -⟩ := Cursor.ofTokens_eq_ok fresh
    have sound : Progress.Sound g opened.input
        ⟨opened, 0, options.recovery, [], none, memo⟩ :=
      ⟨rfl, by simp [position], faithful⟩
    unfold Setting.tripsGuard at shallow
    rw [started] at shallow
    have ran := run_filtered stage all bound sound alike rfl rfl (of_decide_eq_false shallow)
    obtain ⟨⟨r, failed⟩, beyond⟩ := ran.resolve_left apart
    exact ⟨parseFrom_faults sound started failed, beyond⟩

/-- Steps that mirror each other are aborted alike. -/
theorem Mirror.Results.failure_eq {m : Mirror} {α β : Type} {related : α → β → Prop}
    {result : EStateM.Result Fault Progress α} {result' : EStateM.Result Fault Progress β}
    (both : m.Results related result result') :
    (Progress.ofResult result').failure = (Progress.ofResult result).failure := by
  cases both with
  | ok holds states =>
      rw [Progress.ofResult, states.same]
      rfl
  | error states =>
      rw [Progress.ofResult, states.same]
      rfl

/-- The depth guard is tripped in both vocabularies or in neither. -/
theorem tripsGuard_inVocabulary {w : Vocabulary} (similar : g.vocabulary.Similar w)
    (wellFormed : g.WellFormed) {root : ElementId} (faithful : memo.Faithful g)
    (faithful' : memo'.Faithful (g.inVocabulary w)) :
    ((g.inVocabulary w).setting options cancelled).exhaustive.tripsGuard root tokens memo' =
      (g.setting options cancelled).exhaustive.tripsGuard root tokens memo := by
  have opened_eq : Cursor.ofTokens (g.inVocabulary w).vocabulary tokens options.placeholder =
      Cursor.ofTokens g.vocabulary tokens options.placeholder := similar.ofTokens_eq tokens _
  unfold Setting.tripsGuard Progress.start
  simp only [Setting.exhaustive, Grammar.setting, opened_eq]
  cases fresh : Cursor.ofTokens g.vocabulary tokens options.placeholder with
  | error fault => rfl
  | ok opened =>
      have fair := @fair_inVocabulary g w similar options cancelled wellFormed opened.input
      have orderly := @orderly_inVocabulary g w similar options cancelled wellFormed opened.input
      have begun := @Mirror.states_of_ofTokens (g.setting options cancelled).exhaustive
        ((g.inVocabulary w).setting options cancelled).exhaustive id tokens _ _ _ fresh
        options.recovery _ _ faithful faithful'
      have both := Mirror.matchElement_reflects fair orderly options.maxDepth root [] [] .nil _ _ begun
      exact congrArg (fun failure => decide (failure = some (.depthExceeded options.maxDepth)))
        both.failure_eq

end Parses

/-- **Passing over alternatives only saves time**, in a version that has every slot.  Unless a
parse that tries every active alternative trips the depth guard, a parse comes to the same, and so
does one that takes chameleons for ordinary tokens; or else the first fails for a token that ends
where offsets can no longer be counted.  What is passed over is tried in vain. -/
theorem parse_exhaustive [Alphabet] {vocabulary : Vocabulary} {rules : List Rule}
    {name : Option String}
    {g : Grammar} (built : Grammar.ofRules vocabulary rules name = .ok g) {options : Options}
    (all : g.HasAll options.version) (tokens : Array Token) (rule : Option String)
    (cancelled : Bool) {memo memo' memo'' : Memo} (faithful : memo.Faithful g)
    (faithful' : memo'.Faithful g) (faithful'' : memo''.Faithful g.withoutChameleons)
    (shallow : ∀ root, g.startAt rule = .ok root →
      (g.setting options cancelled).exhaustive.tripsGuard root tokens memo = false) :
    (answerWith (g.parse tokens rule options cancelled) memo' =
          answerWith (g.parseExhaustive tokens rule options cancelled) memo ∧
        answerWith (g.withoutChameleons.parse tokens rule options cancelled) memo'' =
          answerWith (g.parseExhaustive tokens rule options cancelled) memo ∨
      answerWith (g.parseExhaustive tokens rule options cancelled) memo = .error .textRange ∧
        ∃ token ∈ tokens, TextRange.offsetLimit ≤ token.offset + token.text.utf8ByteSize) ∧
    ∀ opened, Cursor.ofTokens g.vocabulary tokens options.placeholder = .ok opened →
      (g.setting options cancelled).exhaustive.TriesInVain opened.input := by
  have wellFormed := Grammar.ofRules_wellFormed built
  refine ⟨?_, fun opened fresh =>
    triesInVain (stage_of_ofTokens wellFormed fresh cancelled).exhaustive all⟩
  have similar := g.vocabulary.similar_withoutChameleons
  have wellFormed' : g.withoutChameleons.WellFormed := wellFormed.inVocabulary similar
  have started_eq : g.withoutChameleons.startAt rule = g.startAt rule := rfl
  unfold Grammar.parseExhaustive Grammar.parseAsking Grammar.parse
  rw [started_eq]
  cases started : g.startAt rule with
  | error failure => exact Or.inl ⟨rfl, rfl⟩
  | ok root =>
      have bound := startAt_lt wellFormed started
      have calm := shallow root started
      have same := @answers_inVocabulary g _ similar options cancelled tokens wellFormed root _ _
        faithful faithful''
      have plain := parseFrom_filtered wellFormed all bound faithful faithful' calm
      have tame := parseFrom_filtered wellFormed' all bound faithful'' faithful''
        ((tripsGuard_inVocabulary similar wellFormed faithful faithful'').trans calm)
      rcases plain with plain | faults
      · rcases tame with tame | ⟨failed, beyond⟩
        · exact Or.inl ⟨plain, tame.trans same⟩
        · exact Or.inr ⟨same.symm.trans failed, beyond⟩
      · exact Or.inr faults

/-- A rule with a wrapper before a chameleon, between two words. -/
def maskedRules : List Rule :=
  [⟨"r", .oneOf [.required (.sequence [.required (.token "A" none none),
    .required (.oneOf [.required (.wrapper "B" (.required (.token "C" none none)) "D" false),
      .required (.token "CH" none none)] false),
    .required (.token "E" none none)])] false⟩]

/-- The grammar of that rule. -/
def masked : Grammar where
  vocabulary := ⟨"test", #[.keyword "A" "a", .keyword "B" "b", .keyword "C" "c", .keyword "D" "d",
    ⟨"CH", none, .chameleon, false⟩, .keyword "E" "e"]⟩
  elements := #[
    ⟨0, "r", some "r", none, .oneOf [.required 1] false⟩,
    ⟨1, "r#1", none, some 0, .sequence [.required 2, .required 3, .required 9]⟩,
    ⟨2, "r#2", none, some 1, .token 0 none none⟩,
    ⟨3, "r#3", none, some 1, .oneOf [.required 4, .required 8] false⟩,
    ⟨4, "r#4", none, some 3, .wrapper 5 (.required 6) 7 false⟩,
    ⟨5, "r#5", none, some 4, .token 1 none none⟩,
    ⟨6, "r#6", none, some 4, .token 2 none none⟩,
    ⟨7, "r#7", none, some 4, .token 3 none none⟩,
    ⟨8, "r#8", none, some 3, .token 4 none none⟩,
    ⟨9, "r#9", none, some 1, .token 5 none none⟩]
  rules := [("r", 0)]
  root := 0

theorem masked_built : Grammar.ofRules masked.vocabulary maskedRules none = .ok masked := by
  with_unfolding_all rfl

theorem masked_hasAll (version : Nat) : masked.HasAll version :=
  Grammar.hasAll_of_elements (by simp [masked, Kind.slots, Slot.required, Slot.isActive])

/-- A word, the chameleon at some offset, and another word. -/
def maskedTokens (offset : Nat) (last : Token) : Array Token :=
  #[⟨0, "a", 0⟩, ⟨4, "xx", offset⟩, last]

/-- The chameleon between the words is accepted, whether or not the wrapper is tried before. -/
theorem masked_exhaustive :
    Grammar.ofRules masked.vocabulary maskedRules none = .ok masked ∧ masked.HasAll 0 ∧
      (masked.setting {} false).exhaustive.tripsGuard 0 (maskedTokens 1 ⟨5, "e", 3⟩)
        masked.blankMemo = false ∧
      verdict (answerWith (masked.parse (maskedTokens 1 ⟨5, "e", 3⟩) none {} false)
        masked.blankMemo) = .ok (.ok true) ∧
      answerWith (masked.parse (maskedTokens 1 ⟨5, "e", 3⟩) none {} false) masked.blankMemo =
        answerWith (masked.parseExhaustive (maskedTokens 1 ⟨5, "e", 3⟩) none {} false)
          masked.blankMemo ∧
      answerWith (masked.withoutChameleons.parse (maskedTokens 1 ⟨5, "e", 3⟩) none {} false)
          masked.withoutChameleons.blankMemo =
        answerWith (masked.parseExhaustive (maskedTokens 1 ⟨5, "e", 3⟩) none {} false)
          masked.blankMemo := by
  have shallow : (masked.setting {} false).exhaustive.tripsGuard 0 (maskedTokens 1 ⟨5, "e", 3⟩)
      masked.blankMemo = false := by
    decide +kernel
  have accepted : verdict (answerWith (masked.parse (maskedTokens 1 ⟨5, "e", 3⟩) none {} false)
      masked.blankMemo) = .ok (.ok true) := by
    decide +kernel
  have started : ∀ root, masked.startAt none = .ok root →
      (masked.setting {} false).exhaustive.tripsGuard root (maskedTokens 1 ⟨5, "e", 3⟩)
        masked.blankMemo = false := by
    intro root started
    obtain rfl := Except.ok.inj started
    exact shallow
  have same := (parse_exhaustive masked_built (masked_hasAll _) (maskedTokens 1 ⟨5, "e", 3⟩) none
    false (Memo.blank_faithful masked) (Memo.blank_faithful masked)
    (Memo.blank_faithful masked.withoutChameleons) started).1.resolve_right
      fun faults => absurd faults.2 (by decide)
  exact ⟨masked_built, masked_hasAll 0, shallow, accepted, same⟩

/-- The wrapper asks for the range of the token, which the chameleon does not.  So the parse fails
if the wrapper is tried before, be it for the chameleon or because every alternative is tried, and
comes to no match otherwise. -/
theorem masked_not_exhaustive :
    Grammar.ofRules masked.vocabulary maskedRules none = .ok masked ∧
      Grammar.ofRules masked.withoutChameleons.vocabulary maskedRules none =
        .ok masked.withoutChameleons ∧
      masked.HasAll 0 ∧ masked.withoutChameleons.HasAll 0 ∧
      answerWith (masked.parse (maskedTokens (TextRange.offsetLimit - 1) ⟨0, "a", 0⟩) none
        { recovery := false } false) masked.blankMemo = .error .textRange ∧
      answerWith (masked.withoutChameleons.parse
          (maskedTokens (TextRange.offsetLimit - 1) ⟨0, "a", 0⟩) none { recovery := false } false)
        masked.withoutChameleons.blankMemo = .ok (.error (.noMatch 0)) ∧
      answerWith (masked.withoutChameleons.parseExhaustive
          (maskedTokens (TextRange.offsetLimit - 1) ⟨0, "a", 0⟩) none { recovery := false } false)
        masked.withoutChameleons.blankMemo = .error .textRange ∧
      ∀ s ∈ [masked.setting { recovery := false } false,
          (masked.setting { recovery := false } false).exhaustive,
          masked.withoutChameleons.setting { recovery := false } false,
          (masked.withoutChameleons.setting { recovery := false } false).exhaustive],
        s.tripsGuard 0 (maskedTokens (TextRange.offsetLimit - 1) ⟨0, "a", 0⟩)
          s.grammar.blankMemo = false := by
  refine ⟨masked_built, by with_unfolding_all rfl, masked_hasAll 0, masked_hasAll 0,
    eq_of_verdict_fault (by decide +kernel), eq_of_verdict_failure (by decide +kernel),
    eq_of_verdict_fault (by decide +kernel), ?_⟩
  simp only [List.forall_mem_cons]
  refine ⟨by decide +kernel, by decide +kernel, by decide +kernel, by decide +kernel, nofun⟩

end Dialect
