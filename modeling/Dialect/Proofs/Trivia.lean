import Dialect.Proofs.Tree.Reindexing
import Dialect.Proofs.Renaming.Vocabulary
import Dialect.Proofs.Parse

/-!
# Trivia

Whitespace and comments may be put in and taken out anywhere before the last token that carries
meaning (`Vocabulary.Respaced`).  The tokens that carry meaning then have other indices in the
input (`counterpart`), and nothing else in a parse changes (`parse_respaced`): it comes to the
same failure, or to the same outcome with the same diagnostics and the tree with the indices
changed.

The two parses mirror each other step by step, since all that a parse sees of its input are the
tokens that carry meaning and the last token of all.  Indices are only recorded; that no others
are recorded than those of tokens that carry meaning, and the end of the input, follows as well
from a mirror, one of the parse with itself (`mentions_of_matchRoot`).
-/

set_option autoImplicit false

namespace Dialect

/-! ### Putting trivia in and taking it out -/

namespace Vocabulary

/-- Whether a token carries meaning.  One of unknown type is no trivia. -/
def means (v : Vocabulary) (token : Token) : Bool := !v.has TokenType.isTrivia token.kind

/-- Whether the type of a token is unknown. -/
def misses (v : Vocabulary) (token : Token) : Bool := v.types[token.kind]?.isNone

/-- The inputs differ only in trivia before some token that carries meaning. -/
structure Respaced (v : Vocabulary) (tokens tokens' : Array Token) : Prop where
  splits : ∃ before before' last rest, tokens.toList = before ++ last :: rest ∧
    tokens'.toList = before' ++ last :: rest ∧ v.means last = true ∧
      before'.filter v.means = before.filter v.means

/-- The place of a token of one input in the other: the index of the same token among those that
carry meaning, and the end for whatever is none of them. -/
def counterpart (v : Vocabulary) (tokens tokens' : Array Token) (index : Nat) : Nat :=
  (Cursor.meaningful v tokens'.toList 0)[
    (Cursor.meaningful v tokens.toList 0).idxOf index]?.getD tokens'.size

section Respaced

variable {v : Vocabulary} {tokens tokens' : Array Token}

theorem Respaced.filter_eq (respaced : v.Respaced tokens tokens') :
    tokens'.toList.filter v.means = tokens.toList.filter v.means := by
  obtain ⟨before, before', last, rest, split, split', -, same⟩ := respaced.splits
  rw [split, split', List.filter_append, List.filter_append, same]

theorem Respaced.back?_eq (respaced : v.Respaced tokens tokens') :
    tokens'.back? = tokens.back? := by
  obtain ⟨before, before', last, rest, split, split', -⟩ := respaced.splits
  rw [← Array.getLast?_toList, ← Array.getLast?_toList, split, split',
    List.getLast?_append_of_ne_nil _ (List.cons_ne_nil _ _),
    List.getLast?_append_of_ne_nil _ (List.cons_ne_nil _ _)]

end Respaced

end Vocabulary

namespace Cursor

variable {v : Vocabulary}

/-- The indices of the tokens that carry meaning stand beside these tokens. -/
theorem filter_means_eq (row : List Token) :
    row.filter v.means =
      ((row.zipIdx 0).filter fun entry => v.means entry.1).map Prod.fst := by
  rw [← List.zipIdx_map_fst 0 row, List.filter_map]
  simp [Function.comp_def]

theorem length_meaningful (row : List Token) :
    (meaningful v row 0).length = (row.filter v.means).length := by
  rw [filter_means_eq, meaningful, List.length_map, List.length_map]
  rfl

/-- The index of a token that carries meaning leads to it. -/
theorem getElem?_of_meaningful {row : List Token} {k i : Nat}
    (found : (meaningful v row 0)[k]? = some i) : row[i]? = (row.filter v.means)[k]? := by
  unfold meaningful at found
  rw [List.getElem?_map, Option.map_eq_some_iff] at found
  obtain ⟨⟨token, index⟩, entry, rfl⟩ := found
  have member := List.mem_of_mem_filter (List.mem_of_getElem? entry)
  rw [filter_means_eq, List.getElem?_map]
  simp only [Vocabulary.means]
  rw [entry]
  exact List.mem_zipIdx_iff_getElem?.1 member

/-- Which tokens carry meaning is found out unless the type of a token is unknown; the first such
token is to blame. -/
theorem foldlM_significant_eq (row : List Token) (first : Nat) (before : Array Nat) :
    (row.zipIdx first).foldlM (fun indices entry => do
      let type ← v.get entry.1.kind
      return if type.isTrivia then indices else indices.push entry.2) before =
    (row.find? v.misses).elim (.ok (before ++ (meaningful v row first).toArray))
      fun token => .error (.unknownTokenType token.kind) := by
  induction row generalizing first before with
  | nil => simp [meaningful, pure, Except.pure]
  | cons token rest ih =>
      rw [List.zipIdx_cons, List.foldlM_cons, List.find?_cons]
      cases known : v.types[token.kind]? with
      | none => simp [Vocabulary.get, Vocabulary.misses, known, bind, Except.bind]
      | some type =>
          have found : v.get token.kind = .ok type := Vocabulary.get_eq_ok.2 known
          have trivia : v.has TokenType.isTrivia token.kind = type.isTrivia := by
            simp [Vocabulary.has, known]
          have hit : v.misses token = false := by simp [Vocabulary.misses, known]
          rw [found, hit]
          refine (ih (first + 1) (if type.isTrivia then before else before.push first)).trans ?_
          simp only [meaningful, List.zipIdx_cons, List.filter_cons, trivia]
          cases type.isTrivia <;> simp

/-- The index at a position of an input is that of the token that carries meaning. -/
theorem indexAt_eq_getD {tokens : Array Token} {placeholder : Option String} {c : Cursor}
    (fresh : ofTokens v tokens placeholder = .ok c) (k : Nat) :
    c.input.indexAt k = (meaningful v tokens.toList 0)[k]?.getD tokens.size := by
  rw [← significant_eq fresh, Array.getElem?_toList]
  obtain ⟨rfl, -⟩ := ofTokens_eq_ok fresh
  rfl

/-- Later positions lead to no lower indices. -/
theorem indexAt_mono {tokens : Array Token} {placeholder : Option String} {c : Cursor}
    (fresh : ofTokens v tokens placeholder = .ok c) {k l : Nat} (before : k ≤ l) :
    c.input.indexAt k ≤ c.input.indexAt l := by
  have beyond : ∀ m, ¬ m < c.input.size → c.input.indexAt m = c.input.tokens.size := by
    intro m outside
    rw [Input.indexAt, Array.getElem?_eq_none (Nat.le_of_not_lt outside), Option.getD_none]
  rcases Nat.eq_or_lt_of_le before with rfl | before
  · exact Nat.le_refl _
  by_cases inside : l < c.input.size
  · exact Nat.le_of_lt (ascending_of_ofTokens fresh k l before inside)
  · rw [beyond l inside]
    by_cases inside' : k < c.input.size
    · exact Nat.le_of_lt (listed_of_ofTokens fresh k inside')
    · rw [beyond k inside']

/-- Unknown types are found among the tokens that carry meaning. -/
theorem find?_unknown (row : List Token) :
    (row.filter v.means).find? v.misses = row.find? v.misses := by
  rw [List.find?_filter]
  refine congrArg row.find? (funext fun token => ?_)
  unfold Vocabulary.means Vocabulary.misses Vocabulary.has
  cases v.types[token.kind]? <;> simp

end Cursor

/-! ### What both inputs show -/

namespace Vocabulary.Respaced

variable {v : Vocabulary} {tokens tokens' : Array Token} (respaced : v.Respaced tokens tokens')

include respaced

/-- As many tokens carry meaning. -/
theorem length_eq :
    (Cursor.meaningful v tokens'.toList 0).length =
      (Cursor.meaningful v tokens.toList 0).length := by
  rw [Cursor.length_meaningful, Cursor.length_meaningful, respaced.filter_eq]

/-- Either both inputs can be parsed at all, or the same token is to blame. -/
theorem ofTokens_cases (placeholder : Option String) :
    (∃ fault, Cursor.ofTokens v tokens placeholder = .error fault ∧
      Cursor.ofTokens v tokens' placeholder = .error fault) ∨
    ∃ opened opened', Cursor.ofTokens v tokens placeholder = .ok opened ∧
      Cursor.ofTokens v tokens' placeholder = .ok opened' := by
  have reads : ∀ row : Array Token, Cursor.significantIndices v row =
      ((row.toList.filter v.means).find? v.misses).elim
        (.ok (#[] ++ (Cursor.meaningful v row.toList 0).toArray))
        fun token => .error (.unknownTokenType token.kind) := fun row => by
    rw [Cursor.find?_unknown]
    exact Cursor.foldlM_significant_eq row.toList 0 #[]
  unfold Cursor.ofTokens
  rw [reads, reads, respaced.filter_eq]
  cases (tokens.toList.filter v.means).find? v.misses with
  | some token => exact .inl ⟨_, rfl, rfl⟩
  | none => exact .inr ⟨_, _, rfl, rfl⟩

variable {placeholder : Option String} {opened opened' : Cursor}
  (fresh : Cursor.ofTokens v tokens placeholder = .ok opened)
  (fresh' : Cursor.ofTokens v tokens' placeholder = .ok opened')

include fresh fresh'

theorem size_eq : opened'.input.size = opened.input.size := by
  have sizes : ∀ {row : Array Token} {c : Cursor}, Cursor.ofTokens v row placeholder = .ok c →
      c.input.size = (Cursor.meaningful v row.toList 0).length := fun fresh => by
    rw [← Cursor.significant_eq fresh, Array.length_toList]
    rfl
  rw [sizes fresh, sizes fresh', respaced.length_eq]

/-- The token at a position stands in the other input at the place that corresponds to its own,
and the end of one input corresponds to that of the other. -/
theorem indexAt_eq (k : Nat) :
    opened'.input.indexAt k = v.counterpart tokens tokens' (opened.input.indexAt k) := by
  have nodup : (Cursor.meaningful v tokens.toList 0).Nodup :=
    (Cursor.meaningful_sorted v tokens.toList 0).imp Nat.ne_of_lt
  have lengths := respaced.length_eq
  rw [Cursor.indexAt_eq_getD fresh, Cursor.indexAt_eq_getD fresh', Vocabulary.counterpart]
  by_cases inside : k < (Cursor.meaningful v tokens.toList 0).length
  · rw [List.getElem?_eq_getElem inside, Option.getD_some, nodup.idxOf_getElem]
  · have outside : tokens.size ∉ Cursor.meaningful v tokens.toList 0 := by
      intro member
      obtain ⟨place, here, found⟩ := List.mem_iff_getElem.1 member
      have lost := Cursor.getElem?_of_meaningful (found ▸ List.getElem?_eq_getElem here)
      rw [List.getElem?_eq_none (by simp), List.getElem?_eq_getElem
        (Cursor.length_meaningful tokens.toList ▸ here)] at lost
      cases lost
    rw [List.getElem?_eq_none (Nat.le_of_not_lt inside), Option.getD_none,
      List.idxOf_eq_length outside, List.getElem?_eq_none (by omega),
      List.getElem?_eq_none (by omega)]

/-- The tokens at a position are the same. -/
theorem tokens_eq (k : Nat) :
    tokens'[opened'.input.indexAt k]? = tokens[opened.input.indexAt k]? := by
  have lengths := respaced.length_eq
  rw [Cursor.indexAt_eq_getD fresh, Cursor.indexAt_eq_getD fresh']
  by_cases inside : k < (Cursor.meaningful v tokens.toList 0).length
  · have inside' : k < (Cursor.meaningful v tokens'.toList 0).length := by omega
    have found := Cursor.getElem?_of_meaningful (List.getElem?_eq_getElem inside)
    have found' := Cursor.getElem?_of_meaningful (List.getElem?_eq_getElem inside')
    rw [List.getElem?_eq_getElem inside, List.getElem?_eq_getElem inside', Option.getD_some,
      Option.getD_some, ← Array.getElem?_toList, ← Array.getElem?_toList, found, found',
      respaced.filter_eq]
  · rw [List.getElem?_eq_none (Nat.le_of_not_lt inside), List.getElem?_eq_none (by omega)]
    simp

/-- Both inputs show the same tokens. -/
theorem token?_eq (k : Nat) : opened'.input.token? k = opened.input.token? k := by
  have sizes := respaced.size_eq fresh fresh'
  by_cases inside : k < opened.input.size
  · rw [Input.token?_eq inside, Input.token?_eq (sizes ▸ inside)]
    obtain ⟨rfl, -⟩ := Cursor.ofTokens_eq_ok fresh
    obtain ⟨rfl, -⟩ := Cursor.ofTokens_eq_ok fresh'
    exact respaced.tokens_eq fresh fresh' k
  · have none_of : ∀ {input : Input}, ¬ k < input.size → input.token? k = none :=
      fun outside => Option.eq_none_iff_forall_ne_some.2 fun token found =>
        outside (token?_lt_size found)
    rw [none_of inside, none_of (sizes ▸ inside)]

/-- What is recorded of one input stands in the other, in the same order. -/
theorem reindexing : Reindexing (fun index => ∃ k, index = opened.input.indexAt k)
    (v.counterpart tokens tokens') tokens tokens' where
  token_eq := by
    rintro _ ⟨k, rfl⟩
    rw [← respaced.indexAt_eq fresh fresh', respaced.tokens_eq fresh fresh']
  last_eq := respaced.back?_eq
  mono := by
    rintro _ _ ⟨k, rfl⟩ ⟨l, rfl⟩ before
    rw [← respaced.indexAt_eq fresh fresh', ← respaced.indexAt_eq fresh fresh']
    rcases Nat.le_total k l with forward | backward
    · exact Cursor.indexAt_mono fresh' forward
    · have same := Nat.le_antisymm before (Cursor.indexAt_mono fresh backward)
      rw [respaced.indexAt_eq fresh fresh', respaced.indexAt_eq fresh fresh', same]

end Vocabulary.Respaced

/-! ### Parses of both inputs -/

/-- One way to parse, two inputs. -/
def Mirror.across (s : Setting) (input input' : Input) (index : Nat → Nat) : Mirror :=
  ⟨s, s, input, input', id, index⟩

section Parses

variable {s : Setting} {input input' : Input} {index : Nat → Nat}

/-- A grammar is its own image. -/
theorem Grammar.image_id (g : Grammar) : g.Image id g :=
  Grammar.image_inVocabulary (.refl g.vocabulary)

theorem Mirror.across_fair (wellFormed : s.grammar.WellFormed)
    (reliable : s.predictor.Reliable s.grammar)
    (inputs : (Mirror.across s input input' index).Inputs) :
    (Mirror.across s input input' index).Fair where
  image := s.grammar.image_id
  wellFormed := wellFormed
  wellFormed' := wellFormed
  reliable := reliable
  reliable' := reliable
  options_eq := rfl
  cancelled_eq := rfl
  inputs := inputs

theorem Mirror.across_orderly (fair : (Mirror.across s input input' index).Fair) :
    (Mirror.across s input input' index).Orderly :=
  Mirror.orderly_of_renamed fair
    (fun _ kind stands => stands.trans (congrArg some kind.rename_id.symm))
    fun k current _ bound => Mirror.letsAt_rename fair rfl (fun _ => rfl) k current bound

/-- Whatever a match of the root records of tokens are tokens that carry meaning, or the end of
the input. -/
theorem mentions_of_matchRoot (wellFormed : s.grammar.WellFormed)
    (reliable : s.predictor.Reliable s.grammar) {p q : Progress}
    (blank : p.cursor.events = #[]) (faithful : p.memo.Faithful s.grammar) {root : ElementId}
    {answer : Outcome × Nat} (ran : Matcher.matchRoot s root p = .ok answer q) :
    ∀ event ∈ q.cursor.events, event.Mentions fun index =>
      ∃ k, index = p.cursor.input.indexAt k := by
  classical
  -- an index that is not that of a token with meaning would come out changed by this
  let index : Nat → Nat := fun i => if ∃ k, i = p.cursor.input.indexAt k then i else i + 1
  have fixes : ∀ i, index i = i → ∃ k, i = p.cursor.input.indexAt k := by
    intro i fixed
    by_contra strange
    simp only [index, if_neg strange] at fixed
    omega
  have inputs : (Mirror.across s p.cursor.input p.cursor.input index).Inputs :=
    ⟨rfl, fun _ => rfl, rfl, rfl, fun k => (if_pos ⟨k, rfl⟩).symm⟩
  have fair := Mirror.across_fair wellFormed reliable inputs
  have begun : (Mirror.across s p.cursor.input p.cursor.input index).States p p :=
    ⟨⟨rfl, rfl, rfl, rfl, by rw [blank, Array.map_empty]⟩, rfl, faithful, faithful⟩
  have both := Mirror.matchRoot_reflects fair (Mirror.across_orderly fair) root p p begun
  change Mirror.Results _ _ (Matcher.matchRoot s root p) (Matcher.matchRoot s root p) at both
  rw [ran] at both
  cases both with
  | ok _ states =>
      have same : q.cursor.events = q.cursor.events.map (Event.rename id index) :=
        states.cursors.events_eq
      intro event member
      obtain ⟨place, inside, rfl⟩ := Array.mem_iff_getElem.1 member
      have fixed : q.cursor.events[place].rename id index = q.cursor.events[place] := by
        have shown := congrArg (fun events => events[place]?) same
        rw [Array.getElem?_map, Array.getElem?_eq_getElem inside] at shown
        exact (Option.some.inj shown).symm
      cases at_ : q.cursor.events[place] with
      | start element first =>
          rw [at_] at fixed
          exact fixes first (Event.start.inj fixed).2
      | token i =>
          rw [at_] at fixed
          exact fixes i (Event.token.inj fixed)
      | _ => trivial

variable {tokens tokens' : Array Token}

/-- What two parses that mirror each other amount to is the same but for the indices of tokens. -/
theorem Mirror.States.conclude_reindex {listed : Nat → Prop} {p q : Progress}
    (states : (Mirror.across s input input' index).States p q)
    (reindexing : Reindexing listed index input.tokens input'.tokens)
    (mentions : ∀ event ∈ p.cursor.events, event.Mentions listed) (outcome : Outcome)
    (offset : Nat) :
    s.grammar.conclude q outcome offset =
      (s.grammar.conclude p outcome offset).map (Except.map (Parse.reindex index)) := by
  have failure_eq : q.failure = p.failure := by rw [states.same]
  have tokens_eq : p.cursor.tokens = input.tokens := congrArg Input.tokens states.cursors.reads
  have tokens_eq' : q.cursor.tokens = input'.tokens := congrArg Input.tokens states.cursors.reads'
  have events_eq : q.cursor.events = p.cursor.events.map (Event.rename id index) :=
    states.cursors.events_eq
  unfold Grammar.conclude Cursor.finish
  rw [failure_eq, tokens_eq, tokens_eq', states.cursors.marks_eq, events_eq]
  cases p.failure with
  | some failure => rfl
  | none =>
      cases outcome.isMatch with
      | false => rfl
      | true =>
          by_cases finished : p.cursor.openMarks = 0
          · simp only [Bool.not_true, Bool.false_eq_true, if_false, finished, if_true, bind,
              Except.bind, ofEvents?_reindex reindexing mentions]
            cases Node.ofEvents? s.grammar input.tokens p.cursor.events with
            | error fault => rfl
            | ok read => obtain ⟨_ | root, diagnostics⟩ := read <;> rfl
          · simp only [finished]
            rfl

/-- Inputs that differ in trivia only are parsed alike from any element on. -/
theorem answers_parseFrom_respaced (wellFormed : s.grammar.WellFormed)
    (reliable : s.predictor.Reliable s.grammar)
    (respaced : s.grammar.vocabulary.Respaced tokens tokens') (root : ElementId) {memo : Memo}
    (faithful : memo.Faithful s.grammar) :
    Answers s.grammar (Grammar.parseFrom s root tokens')
      ((answerWith (Grammar.parseFrom s root tokens) memo).map
        (Except.map (Parse.reindex (s.grammar.vocabulary.counterpart tokens tokens')))) := by
  intro memo' faithful'
  unfold answerWith Grammar.parseFrom Progress.start
  rcases respaced.ofTokens_cases s.options.placeholder with
    ⟨fault, lost, lost'⟩ | ⟨opened, opened', fresh, fresh'⟩
  · rw [lost, lost']
    exact ⟨memo', faithful', rfl⟩
  · obtain ⟨tokens_eq, placeholder_eq, position_eq, events_eq, marks_eq, -⟩ :=
      Cursor.ofTokens_eq_ok fresh
    obtain ⟨tokens_eq', placeholder_eq', position_eq', events_eq', marks_eq', -⟩ :=
      Cursor.ofTokens_eq_ok fresh'
    have inputs : (Mirror.across s opened.input opened'.input
        (s.grammar.vocabulary.counterpart tokens tokens')).Inputs :=
      { size_eq := respaced.size_eq fresh fresh'
        token_eq := respaced.token?_eq fresh fresh'
        placeholder_eq := placeholder_eq'.trans placeholder_eq.symm
        last_eq := by
          change opened'.tokens.back? = opened.tokens.back?
          rw [tokens_eq, tokens_eq', respaced.back?_eq]
        index_eq := respaced.indexAt_eq fresh fresh' }
    have fair := Mirror.across_fair wellFormed reliable inputs
    have begun : (Mirror.across s opened.input opened'.input
        (s.grammar.vocabulary.counterpart tokens tokens')).States
          ⟨opened, 0, s.options.recovery, [], none, memo⟩
          ⟨opened', 0, s.options.recovery, [], none, memo'⟩ :=
      ⟨⟨rfl, rfl, position_eq'.trans position_eq.symm, marks_eq'.trans marks_eq.symm,
        by rw [events_eq, events_eq', Array.map_empty]⟩, rfl, faithful, faithful'⟩
    -- Both runs take the same steps; only the indices that they record differ.
    have both := Mirror.matchRoot_reflects fair (Mirror.across_orderly fair) root _ _ begun
    rw [fresh, fresh']
    simp only [bind, Except.bind, pure, Except.pure]
    change Mirror.Results _ _ (Matcher.matchRoot s root _) (Matcher.matchRoot s root _) at both
    cases ran : Matcher.matchRoot s root ⟨opened, 0, s.options.recovery, [], none, memo⟩ with
    | error fault p =>
        rw [ran] at both
        generalize Matcher.matchRoot s root _ = result' at both ⊢
        cases both with
        | error states => exact ⟨_, states.faithful', rfl⟩
    | ok value p =>
        have mentions := mentions_of_matchRoot wellFormed reliable events_eq faithful ran
        rw [ran] at both
        generalize Matcher.matchRoot s root _ = result' at both ⊢
        cases both with
        | @ok _ _ _ q holds states =>
            obtain rfl := holds
            refine ⟨q.memo, states.faithful', ?_⟩
            have reindexing := respaced.reindexing fresh fresh'
            rw [← tokens_eq, ← tokens_eq'] at reindexing
            dsimp only
            rw [states.conclude_reindex (tokens_eq ▸ tokens_eq' ▸ reindexing) mentions]
            cases s.grammar.conclude p value.1 value.2 <;> rfl

end Parses

/-- **Trivia does not influence parsing.**  Whitespace and comments may be put in and taken out
before the last token that carries meaning.  A parse from any rule, with any options, then comes
to the same failure, or to the same outcome with the same diagnostics and the same tree, in which
every token has the index of its counterpart. -/
theorem parse_respaced [Alphabet] {vocabulary : Vocabulary} {rules : List Rule}
    {root : Option String}
    {g : Grammar} (built : Grammar.ofRules vocabulary rules root = .ok g)
    {tokens tokens' : Array Token} (respaced : g.vocabulary.Respaced tokens tokens')
    (rule : Option String) (options : Options) (cancelled : Bool) {memo memo' : Memo}
    (faithful : memo.Faithful g) (faithful' : memo'.Faithful g) :
    answerWith (g.parse tokens' rule options cancelled) memo' =
      (answerWith (g.parse tokens rule options cancelled) memo).map
        (Except.map (Parse.reindex (g.vocabulary.counterpart tokens tokens'))) := by
  have wellFormed := Grammar.ofRules_wellFormed built
  unfold Grammar.parse
  cases g.startAt rule with
  | error failure => rfl
  | ok start =>
      have answers := answers_parseFrom_respaced (s := g.setting options cancelled) wellFormed
        (remembering_reliable wellFormed) respaced start faithful
      exact answers.answerWith_eq faithful'

/-- A rule with two tokens. -/
def spacedRules : List Rule :=
  [⟨"r", .sequence [.required (.token "A" none none), .required (.token "B" none none)]⟩]

/-- The grammar of that rule, in a vocabulary with whitespace and comments. -/
def spaced : Grammar where
  vocabulary := ⟨"test", #[.keyword "A" "a", .keyword "B" "b", ⟨"SPACE", none, .whitespace, false⟩,
    ⟨"NOTE", none, .comment, false⟩]⟩
  elements := #[
    ⟨0, "r", some "r", none, .sequence [.required 1, .required 2]⟩,
    ⟨1, "r#1", none, some 0, .token 0 none none⟩,
    ⟨2, "r#2", none, some 0, .token 1 none none⟩]
  rules := [("r", 0)]
  root := 0

theorem spaced_built : Grammar.ofRules spaced.vocabulary spacedRules none = .ok spaced := by
  with_unfolding_all rfl

/-- The two tokens with a space and a comment between them. -/
def spacedTokens : Array Token := #[⟨0, "a", 0⟩, ⟨2, " ", 1⟩, ⟨3, "-- b", 2⟩, ⟨1, "b", 6⟩]

/-- The same two tokens with nothing between them. -/
def bareTokens : Array Token := #[⟨0, "a", 0⟩, ⟨1, "b", 6⟩]

/-- With nothing between the tokens the tree ends behind index 1 rather than index 3. -/
theorem bareTokens_parse :
    Grammar.ofRules spaced.vocabulary spacedRules none = .ok spaced ∧
      spaced.vocabulary.Respaced spacedTokens bareTokens ∧ ∃ parse,
      answerWith (spaced.parse spacedTokens none {} false) spaced.blankMemo = .ok (.ok parse) ∧
        (parse.root.first = 0 ∧ parse.root.stop = 4) ∧
        answerWith (spaced.parse bareTokens none {} false) spaced.blankMemo =
          .ok (.ok (parse.reindex (spaced.vocabulary.counterpart spacedTokens bareTokens))) := by
  have respaced : spaced.vocabulary.Respaced spacedTokens bareTokens :=
    ⟨[⟨0, "a", 0⟩, ⟨2, " ", 1⟩, ⟨3, "-- b", 2⟩], [⟨0, "a", 0⟩], ⟨1, "b", 6⟩, [], rfl, rfl,
      by decide, by decide⟩
  have covers : comesTo (fun parse => parse.root.first = 0 ∧ parse.root.stop = 4)
      (spaced.parse spacedTokens none {} false spaced.blankMemo) = true := by
    decide +kernel
  obtain ⟨parse, memo, parsed, ends⟩ := exists_of_comesTo covers
  have answer : answerWith (spaced.parse spacedTokens none {} false) spaced.blankMemo =
      .ok (.ok parse) := by rw [answerWith, parsed]
  have same := parse_respaced spaced_built respaced none {} false
    (Memo.blank_faithful spaced) (Memo.blank_faithful spaced)
  rw [answer] at same
  exact ⟨spaced_built, respaced, parse, answer, of_decide_eq_true ends, same⟩

end Dialect
