import Dialect.Proofs.Conclusion
import Dialect.Proofs.Tracking.Element

/-!
# Recovery

With recovery a choice keeps its best incomplete alternative where it would otherwise come to
nothing.  Input that is accepted without recovery need not be accepted with it
(`recovery_loses`): a part that may be left out is kept although it is incomplete, and
ends the element it is part of; or a wrapper that is tried in vain goes on to its closing
delimiter, and gives a reserved word free on the way.

Where neither happens, recovery changes no input that is accepted (`parse_recovers`).  That is
found out from the parse without recovery alone: at each of its attempts one looks at what the same
attempt comes to with recovery, from the same state, and the parse is halted where that swerves from
it (`Setting.swerves`).
-/

set_option autoImplicit false

namespace Dialect

open Matcher

variable {g : Grammar} {vocabulary : Vocabulary} {rules : List Rule} {name : Option String}
  {input : Input} {tokens : Array Token} {opened : Cursor} {options : Options} {cancelled : Bool}
  {memo memo' : Memo} {p q r t : Progress} {id root : ElementId}

/-! ### With and without recovery -/

/-- The same setting with recovery. -/
def Setting.eager (s : Setting) : Setting :=
  { s with options := { s.options with recovery := true } }

/-- Trips at an attempt that comes to something else with recovery: other words are given free, or
something incomplete is kept of a part that comes to nothing and is left out of an element that is
matched in full. -/
def Setting.swerves (s : Setting) : Guard := fun chain id outer p =>
  match s.tried id outer p, s.eager.tried id outer { p with scan := true } with
  | .ok outcome r, .ok outcome' t =>
      t.waved != r.waved ||
        s.omits chain outer p.cursor.position && !outcome.isMatch && outcome'.isPartial
  | _, _ => false

namespace Grammar

/-- The setting of a parse without recovery. -/
def strict (g : Grammar) (options : Options) (cancelled : Bool) : Setting :=
  g.setting { options with recovery := false } cancelled

/-- The setting of a parse with recovery. -/
def lenient (g : Grammar) (options : Options) (cancelled : Bool) : Setting :=
  g.setting { options with recovery := true } cancelled

theorem stage_strict (wellFormed : g.WellFormed)
    (fresh : Cursor.ofTokens g.vocabulary tokens options.placeholder = .ok opened)
    (cancelled : Bool) : Stage (g.strict options cancelled) opened.input := by
  have stage : ∀ other : Options, other.placeholder = options.placeholder →
      Stage (g.setting other cancelled) opened.input :=
    fun other same => stage_of_ofTokens wellFormed (by rwa [same]) cancelled
  exact stage _ rfl

end Grammar

/-- A parse without recovery, and beside it one with recovery, which may come to more. -/
def Pairing.recovering (g : Grammar) (options : Options) (cancelled : Bool) (input : Input) :
    Pairing where
  first := g.strict options cancelled
  options := { options with recovery := true }
  predictor := .remembering g
  input := input
  depth := 0
  gains := True

open Pairing

/-- Beside a state without recovery the other parse keeps incomplete alternatives, and remembers
what it likes. -/
theorem Pairing.Abreast.eager {pair : Pairing} (abreast : pair.Abreast p q) (gains : pair.gains) :
    q = { p with scan := true, memo := q.memo } := by
  obtain ⟨-, ⟨depth, failure, keen, -, -⟩, together, waved⟩ := abreast
  obtain ⟨cursor, _, _, _, _, _⟩ := q
  obtain rfl := together
  obtain rfl := depth
  obtain rfl := keen gains
  obtain rfl := waved
  obtain rfl := failure
  rfl

section Recovering

variable (stage : Stage (g.strict options cancelled) input)

include stage

theorem recovering_fair : (recovering g options cancelled input).Fair where
  stage := stage
  version := rfl
  limit := rfl
  reliable := stage.reliable

/-- With recovery an attempt comes to the same whatever is remembered. -/
theorem eager_tried {levels : Nat} {path : Path} {outcome : Outcome} (faithful : p.memo.Faithful g)
    (abreast : ((recovering g options cancelled input).atDepth p.depth).Abreast p q)
    (ran : matchElement (g.lenient options cancelled) levels id path q = .ok outcome t) :
    ∃ t', matchElement (g.lenient options cancelled) levels id path { p with scan := true } =
      .ok outcome t' ∧ t'.waved = t.waved := by
  have alike : q.Alike g { p with scan := true } := by
    refine ⟨?_, abreast.remembered, faithful⟩
    rw [abreast.eager trivial]
  have reliable : (g.lenient options cancelled).predictor.Reliable g := stage.reliable
  have both : Together (.never (g.lenient options cancelled)) q _ _ :=
    matchElement_agrees reliable reliable rfl levels id path q _ alike
  have same : (g.lenient options cancelled).asking (g.lenient options cancelled).predictor =
      g.lenient options cancelled := rfl
  rw [ran, same] at both
  generalize matchElement (g.lenient options cancelled) levels id path { p with scan := true } =
    result at both ⊢
  cases both with
  | ok alike => exact ⟨_, rfl, by rw [alike.same]⟩

/-- Where the parse without recovery does not swerve, the other parse is as it should be. -/
theorem recovering_heeds :
    (recovering g options cancelled input).Heeds (g.strict options cancelled).swerves := by
  intro _ levels chain id path p q outcome outcome' r t enough _ _ abreast free ran _ ran'
  obtain ⟨t', again, waved⟩ := eager_tried stage abreast.faithful abreast ran'
  have left : (g.strict options cancelled).tried id path p = .ok outcome r :=
    (tried_eq enough).trans ran
  have enough' : levels + ({ p with scan := true } : Progress).depth =
      (g.strict options cancelled).eager.options.maxDepth := enough
  have right : (g.strict options cancelled).eager.tried id path { p with scan := true } =
      .ok outcome' t' := (tried_eq enough').trans again
  unfold Setting.swerves at free
  rw [left, right] at free
  obtain ⟨same, firm⟩ := Bool.or_eq_false_iff.1 free
  refine ⟨waved.symm.trans (by simpa using same), fun omits none => ?_⟩
  subst none
  replace omits : (g.strict options cancelled).omits chain path p.cursor.position = true := omits
  rw [omits] at firm
  simpa [Outcome.isMatch] using firm

end Recovering

/-! ### Steps that see the cursor only -/

/-- What comes of the step depends on the cursor, and only the cursor is changed. -/
def Matcher.Local {α : Type} (step : Matcher α) : Prop :=
  ∀ p q value r, q.cursor = p.cursor → step p = .ok value r →
    r = p.moveTo r.cursor ∧ step q = .ok value (q.moveTo r.cursor)

section Local

variable {α β : Type} {step : Matcher α}

theorem local_pure (value : α) : Matcher.Local (pure value) := by
  intro p q value' r together ran
  cases ran
  refine ⟨rfl, ?_⟩
  rw [pure_apply, ← together]
  rfl

theorem local_bind {next : α → Matcher β} (first : step.Local)
    (second : ∀ value, (next value).Local) : (step >>= next).Local := by
  intro p q last u together ran
  obtain ⟨value, r, stepped, ran⟩ := bind_apply_eq_ok.1 ran
  obtain ⟨left, right⟩ := first p q value r together stepped
  obtain ⟨left', right'⟩ := second value r (q.moveTo r.cursor) last u rfl ran
  rw [bind_apply, right]
  exact ⟨left'.trans (by rw [left]; rfl), right'⟩

theorem local_cursor {next : Cursor → Matcher β} (onward : ∀ c, (next c).Local) :
    (cursor >>= next).Local := by
  intro p q last u together ran
  have seen : (cursor >>= next) q = next p.cursor q := by
    rw [← together]
    rfl
  rw [seen]
  exact onward p.cursor p q last u together ran

theorem local_check (answer : Except Fault α) : Matcher.Local (liftM answer) := by
  cases answer with
  | ok value => exact local_pure value
  | error fault =>
      intro p q value r together ran
      cases ran

theorem local_move (move : Cursor.Step α) : Matcher.Local (liftM move) := by
  intro p q value r together ran
  cases moved : move p.cursor with
  | error fault c =>
      rw [move_eq_error moved] at ran
      cases ran
  | ok value' c =>
      rw [move_eq moved] at ran
      cases ran
      rw [← together] at moved
      exact ⟨rfl, move_eq moved⟩

theorem local_reportLeftOver : reportLeftOver.Local := by
  unfold reportLeftOver
  refine local_cursor fun c => ?_
  cases c.current? with
  | none => exact local_pure ()
  | some token =>
      refine local_bind (local_check _) fun here => local_bind (local_check _) fun stop => ?_
      exact local_bind (local_check _) fun range => local_move _

end Local

/-! ### Parses -/

/-- A tame fault has no excuse. -/
theorem Fault.Tame.not_excused {fault : Fault} (tame : fault.Tame) {around : Path} :
    ¬ Excused g input around fault := by
  cases fault with
  | textRange => exact tame.elim
  | uncountable number => exact tame.elim
  | _ => exact fun none => none

section Recovers

variable (stage : Stage (g.strict options cancelled) input)
  (free : (g.strict options cancelled).halts (g.strict options cancelled).swerves root p = false)
  (bound : root < g.elements.size)
  (together : (recovering g options cancelled input).Abreast p q)

include stage free bound together

/-- What is matched in full without recovery is matched in the same way with recovery. -/
theorem run_recovers {n : Nat} (quiet : r.failure = none)
    (ran : run (g.strict options cancelled) root [] p = .ok (.fullMatch n) r) :
    ∃ t, run (g.lenient options cancelled) root [] q = .ok (.fullMatch n) t ∧
      t.cursor = r.cursor ∧ t.failure = none := by
  have fair := recovering_fair stage
  have top : Path.Within g [] [] := fun frame none => absurd none List.not_mem_nil
  have below : (recovering g options cancelled input).Below _ options.maxDepth 0 [] :=
    matchElement_attempts fair (chooses_of_selective _ rfl) (recovering_heeds stage) _ 0
      (Nat.add_zero _) []
  obtain ⟨r', guarded, alike⟩ := guarded_of_not_halts stage.reliable together.faithful free ran
  rw [alike.same] at quiet ⊢
  have follows := (below.tracks root [] p q bound top together _ r' guarded).2 quiet
  have kept := run_honours (.leafwise (g.lenient options cancelled) input) fair.stage' bound
    (fun frame none => absurd none List.not_mem_nil) together.sound' False fun no => no.elim
  unfold Ensures at kept
  change Follows _ _ _ _ (run (g.lenient options cancelled) root [] q) at follows
  cases ran' : run (g.lenient options cancelled) root [] q with
  | error fault t =>
      rw [ran'] at follows kept
      exact absurd kept follows.2.not_excused
  | ok outcome t =>
      rw [ran'] at follows
      rcases follows with ⟨rfl, abreast⟩ | ⟨-, ⟨⟨short, -⟩, -⟩, -⟩
      · exact ⟨t, rfl, abreast.together, abreast.failure.trans quiet⟩
      · rcases short with same | ⟨k, -, same⟩ <;> cases same

theorem matchRoot_recovers {outcome : Outcome} {offset : Nat} (full : outcome.isFull = true)
    (quiet : r.failure = none)
    (matched : matchRoot (g.strict options cancelled) root p = .ok (outcome, offset) r) :
    ∃ t, matchRoot (g.lenient options cancelled) root q = .ok (outcome, offset) t ∧
      t.cursor = r.cursor ∧ t.failure = none := by
  obtain ⟨range, middle, here, rfl, ran, finished⟩ := matchRoot_eq_ok.1 matched
  obtain ⟨n, rfl⟩ : ∃ n, outcome = .fullMatch n := by
    cases outcome <;> first | exact ⟨_, rfl⟩ | cases full
  have going : middle.failure = none := by
    obtain ⟨left, -⟩ := local_reportLeftOver middle middle () r rfl finished
    rw [left] at quiet
    exact quiet
  obtain ⟨last, ran', cursor_eq, quiet'⟩ := run_recovers stage free bound together going ran
  obtain ⟨-, finished'⟩ := local_reportLeftOver middle last () r cursor_eq finished
  refine ⟨last.moveTo r.cursor, matchRoot_eq_ok.2 ⟨range, last, ?_, rfl, ran', finished'⟩, rfl,
    quiet'⟩
  rw [together.together]
  exact here

end Recovers

/-- What a parse comes to depends on the cursor, and on whether it was aborted. -/
theorem conclude_congr (cursor : q.cursor = p.cursor) (failure : q.failure = p.failure)
    (outcome : Outcome) (offset : Nat) :
    g.conclude q outcome offset = g.conclude p outcome offset := by
  unfold Grammar.conclude
  rw [failure, cursor]

/-- A parse that matches its root in full without recovery comes to the same with recovery, if it is
not halted. -/
theorem parseFrom_recovers (wellFormed : g.WellFormed) (bound : root < g.elements.size)
    (free : (g.strict options cancelled).halted (g.strict options cancelled).swerves root tokens
      memo = false)
    (faithful : memo.Faithful g) (faithful' : memo'.Faithful g) {parse : Parse} {after : Memo}
    (full : parse.outcome.isFull = true)
    (parsed : Grammar.parseFrom (g.strict options cancelled) root tokens memo =
      .ok (.ok parse) after) :
    ∃ after', Grammar.parseFrom (g.lenient options cancelled) root tokens memo' =
      .ok (.ok parse) after' := by
  obtain ⟨first, last, outcome, offset, begun, matched, concluded⟩ := parseFrom_eq_ok parsed
  rw [halted_of_start begun] at free
  obtain ⟨opened, fresh, begun⟩ := bind_eq_ok.1 begun
  obtain rfl := pure_eq_ok.1 begun
  obtain ⟨quiet, outcome_eq, -⟩ := conclude_eq_ok concluded
  rw [outcome_eq] at full
  have stage : Stage (g.strict options cancelled) opened.input :=
    Grammar.stage_strict wellFormed fresh cancelled
  have position : opened.position ≤ opened.input.size :=
    (Cursor.ofTokens_eq_ok fresh).2.2.1 ▸ Nat.zero_le _
  have together : (recovering g options cancelled opened.input).Abreast
      (opened.begin { options with recovery := false } memo)
      (opened.begin { options with recovery := true } memo') :=
    ⟨⟨⟨rfl, position, faithful⟩, rfl⟩, ⟨rfl, rfl, fun _ => rfl,
      fun none => absurd trivial none, faithful'⟩, rfl, rfl⟩
  obtain ⟨last', matched', cursor_eq, quiet'⟩ :=
    matchRoot_recovers stage free bound together full quiet matched
  have begun' : Progress.start (g.lenient options cancelled) memo' tokens =
      .ok (opened.begin { options with recovery := true } memo') :=
    bind_eq_ok.2 ⟨opened, fresh, rfl⟩
  refine ⟨last'.memo, ?_⟩
  unfold Grammar.parseFrom
  simp only [begun', matched', conclude_congr cursor_eq (quiet'.trans quiet.symm)]
  rw [show (g.lenient options cancelled).grammar.conclude last outcome offset = _ from concluded]

/-- **Recovery changes no input that is accepted**, if none of the attempts that are made without it
swerves with it. -/
theorem parse_recovers [Alphabet] (options : Options)
    (built : Grammar.ofRules vocabulary rules name = .ok g)
    {rule : Option String} (faithful : memo.Faithful g) (faithful' : memo'.Faithful g)
    (free : g.halted Setting.swerves tokens rule { options with recovery := false } cancelled
      memo = false)
    {parse : Parse} {after : Memo}
    (parsed : g.parse tokens rule { options with recovery := false } cancelled memo =
      .ok (.ok parse) after)
    (ok : parse.ok = true) :
    ∃ after', g.parse tokens rule { options with recovery := true } cancelled memo' =
      .ok (.ok parse) after' := by
  have wellFormed := Grammar.ofRules_wellFormed built
  obtain ⟨root, started, parsedFrom⟩ := parse_eq_ok parsed
  rw [halted_of_startAt started] at free
  have full : parse.outcome.isFull = true := by
    unfold Parse.ok at ok
    simp_all
  have kept := parseFrom_recovers wellFormed (startAt_lt wellFormed started) free faithful
    faithful' full parsedFrom
  unfold Grammar.parse
  rw [started]
  exact kept

/-- Pairs of two words in either order, and a third word. -/
def branchingRules : List Rule :=
  [⟨"r", .sequence [
    .required (.iteration (.oneOf [
      .required (.sequence [.required (.token "A" none none), .required (.token "B" none none)]),
      .required (.sequence [.required (.token "B" none none), .required (.token "A" none none)])]
      false) none),
    .required (.token "C" none none)]⟩]

/-- The grammar of that rule. -/
def branching : Grammar where
  vocabulary := ⟨"test", #[.keyword "A" "a", .keyword "B" "b", .keyword "C" "c"]⟩
  elements := #[
    ⟨0, "r", some "r", none, .sequence [.required 1, .required 9]⟩,
    ⟨1, "r#1", none, some 0, .iteration 2 none⟩,
    ⟨2, "r#2", none, some 1, .oneOf [.required 3, .required 6] false⟩,
    ⟨3, "r#3", none, some 2, .sequence [.required 4, .required 5]⟩,
    ⟨4, "r#4", none, some 3, .token 0 none none⟩,
    ⟨5, "r#5", none, some 3, .token 1 none none⟩,
    ⟨6, "r#6", none, some 2, .sequence [.required 7, .required 8]⟩,
    ⟨7, "r#7", none, some 6, .token 1 none none⟩,
    ⟨8, "r#8", none, some 6, .token 0 none none⟩,
    ⟨9, "r#9", none, some 0, .token 2 none none⟩]
  rules := [("r", 0)]
  root := 0

/-- Two pairs and the third word. -/
def branchingTokens : Array Token :=
  #[⟨0, "a", 0⟩, ⟨1, "b", 1⟩, ⟨1, "b", 2⟩, ⟨0, "a", 3⟩, ⟨2, "c", 4⟩]

/-- The pairs are parsed in the same way with and without recovery: behind them the choice is tried
in vain both times. -/
theorem branchingTokens_recover :
    Grammar.ofRules branching.vocabulary branchingRules none = .ok branching ∧
      branching.halted Setting.swerves branchingTokens none { recovery := false } false
        branching.blankMemo = false ∧
      ∃ parse after after',
        branching.parse branchingTokens none { recovery := false } false branching.blankMemo =
          .ok (.ok parse) after ∧ parse.ok = true ∧
        branching.parse branchingTokens none { recovery := true } false branching.blankMemo =
          .ok (.ok parse) after' := by
  have built : Grammar.ofRules branching.vocabulary branchingRules none = .ok branching := by
    with_unfolding_all rfl
  have free : branching.halted Setting.swerves branchingTokens none { recovery := false } false
      branching.blankMemo = false := by
    decide +kernel
  have accepted : comesTo Parse.ok (branching.parse branchingTokens none { recovery := false } false
      branching.blankMemo) = true := by
    decide +kernel
  refine ⟨built, free, ?_⟩
  obtain ⟨parse, after, parsed, ok⟩ := exists_of_comesTo accepted
  obtain ⟨after', parsed'⟩ := parse_recovers {} built (Memo.blank_faithful branching)
    (Memo.blank_faithful branching) free parsed ok
  exact ⟨parse, after, after', parsed, ok, parsed'⟩

/-! ### Where recovery changes a parse -/

/-- A word in a phrase, and before the phrase perhaps the beginning of another one. -/
def leadingRules : List Rule :=
  [⟨"r", .sequence [
    ⟨.oneOf [.required (.sequence [.required (.token "A" none none),
      .required (.token "B" none none)])] false, true, 0⟩,
    .required (.token "A" none none), .required (.token "C" none none)]⟩]

/-- The grammar of that rule. -/
def leading : Grammar where
  vocabulary := ⟨"test", #[.keyword "A" "a", .keyword "B" "b", .keyword "C" "c"]⟩
  elements := #[
    ⟨0, "r", some "r", none, .sequence [⟨1, true, 0⟩, .required 5, .required 6]⟩,
    ⟨1, "r#1", none, some 0, .oneOf [.required 2] false⟩,
    ⟨2, "r#2", none, some 1, .sequence [.required 3, .required 4]⟩,
    ⟨3, "r#3", none, some 2, .token 0 none none⟩,
    ⟨4, "r#4", none, some 2, .token 1 none none⟩,
    ⟨5, "r#5", none, some 0, .token 0 none none⟩,
    ⟨6, "r#6", none, some 0, .token 2 none none⟩]
  rules := [("r", 0)]
  root := 0

/-- The phrase alone. -/
def leadingTokens : Array Token := #[⟨0, "a", 0⟩, ⟨2, "c", 1⟩]

/-- A word between a parenthesis and a reserved word that may be read as an identifier, or
behind the parenthesis a phrase. -/
def closingRules : List Rule :=
  [⟨"r", .oneOf [
    .required (.wrapper "L" (.required (.oneOf [.required (.sequence [
      .required (.token "A" none none), .required (.token "B" none none)])] false)) "K" false),
    .required (.sequence [.required (.token "L" none none), .required (.token "A" none none),
      .required (.identifier .reference false none)]),
    .required (.sequence [.required (.token "L" none none), .required (.token "A" none none),
      .required (.token "K" none none), .required (.token "CHR_DOT" none none)])] false⟩]

/-- The grammar of that rule. -/
def closing : Grammar where
  vocabulary := ⟨"test", #[.character "L" "(", .keyword "A" "a", .keyword "B" "b",
    ⟨"K", some "k", .keyword, true⟩, .character "CHR_DOT" "."]⟩
  elements := #[
    ⟨0, "r", some "r", none, .oneOf [.required 1, .required 8, .required 12] false⟩,
    ⟨1, "r#1", none, some 0, .wrapper 2 (.required 3) 7 false⟩,
    ⟨2, "r#2", none, some 1, .token 0 none none⟩,
    ⟨3, "r#3", none, some 1, .oneOf [.required 4] false⟩,
    ⟨4, "r#4", none, some 3, .sequence [.required 5, .required 6]⟩,
    ⟨5, "r#5", none, some 4, .token 1 none none⟩,
    ⟨6, "r#6", none, some 4, .token 2 none none⟩,
    ⟨7, "r#7", none, some 1, .token 3 none none⟩,
    ⟨8, "r#8", none, some 0, .sequence [.required 9, .required 10, .required 11]⟩,
    ⟨9, "r#9", none, some 8, .token 0 none none⟩,
    ⟨10, "r#10", none, some 8, .token 1 none none⟩,
    ⟨11, "r#11", none, some 8, .identifier .reference false none⟩,
    ⟨12, "r#12", none, some 0, .sequence [.required 13, .required 14, .required 15, .required 16]⟩,
    ⟨13, "r#13", none, some 12, .token 0 none none⟩,
    ⟨14, "r#14", none, some 12, .token 1 none none⟩,
    ⟨15, "r#15", none, some 12, .token 3 none none⟩,
    ⟨16, "r#16", none, some 12, .token 4 none none⟩]
  rules := [("r", 0)]
  root := 0

/-- The reserved word and a dot behind the word. -/
def closingTokens : Array Token := #[⟨0, "(", 0⟩, ⟨1, "a", 1⟩, ⟨3, "k", 2⟩, ⟨4, ".", 3⟩]

/-- The input is accepted without recovery, but not with it. -/
def Grammar.loses (g : Grammar) (tokens : Array Token) : Bool :=
  match g.parse tokens none { recovery := false } false g.blankMemo,
      g.parse tokens none { recovery := true } false g.blankMemo with
  | .ok (.ok parse) _, .ok (.ok parse') _ => parse.ok && !parse'.ok
  | _, _ => false

/-- Recovery changes what an accepted input comes to if something incomplete is kept of a part that
may be left out, and also if a reserved word is given free that may be read as an identifier. -/
theorem recovery_loses :
    (Grammar.ofRules leading.vocabulary leadingRules none = .ok leading ∧
      leading.loses leadingTokens = true) ∧
    Grammar.ofRules closing.vocabulary closingRules none = .ok closing ∧
      closing.loses closingTokens = true := by
  decide +kernel

end Dialect
