import Dialect.Proofs.Conclusion

/-!
# What a parse accounts for

Two main statements.  A parse whose root has matched comes to a tree that accounts for every
token of the match (`parse_accounts`).  A parse that comes to a tree reports an incomplete
match by exactly one diagnostic, tokens that are left over by another one behind it, and
nothing else (`parse_diagnosed`).
-/

set_option autoImplicit false

namespace Dialect

variable {g : Grammar} {vocabulary : Vocabulary} {rules : List Rule} {name : Option String}
  {input : Input} {tokens : Array Token} {options : Options} {cancelled : Bool}

/-! ### Trees -/

/-- **The tree of a parse accounts for every token.**  If the tokens are in order and the
root has matched in a parse that was not aborted, the parse comes to a tree; it is the one
root that the record describes, and it accounts for the tokens of the match. -/
theorem parse_accounts [Alphabet] (built : Grammar.ofRules vocabulary rules name = .ok g)
    (options : Options) (cancelled : Bool)
    (known : ∀ token ∈ tokens, token.kind < g.vocabulary.types.size)
    (ordered : Token.InOrder tokens) {rule : Option String} {root : ElementId}
    (started : g.startAt rule = .ok root) {memo : Memo} (faithful : memo.Faithful g) :
    ∃ opened outcome last, Cursor.ofTokens g.vocabulary tokens options.placeholder = .ok opened ∧
      Matcher.run (g.setting options cancelled) root [] (opened.begin options memo) =
        .ok outcome last ∧
      (outcome.isMatch = true → last.failure = none → ∃ parse found memo',
        g.parse tokens rule options cancelled memo = .ok (.ok parse) memo' ∧
          parse.outcome = outcome ∧
          Node.ofEvents? g tokens last.cursor.events = .ok (some parse.root, found) ∧
          parse.root.Accounts opened.input outcome.tokens) := by
  have wellFormed := Grammar.ofRules_wellFormed built
  obtain ⟨opened, fresh⟩ := Cursor.exists_ofTokens known options.placeholder
  rcases parseFrom_concludes wellFormed cancelled fresh (startAt_lt wellFormed started) faithful with
    ⟨outcome, last, answer, memo', runs, -, concluded, done⟩ | ⟨-, disorder⟩
  · refine ⟨opened, outcome, last, fresh, runs, fun isMatch going => ?_⟩
    have parsed : g.parse tokens rule options cancelled memo = .ok answer memo' := by
      unfold Grammar.parse
      rw [started]
      exact done
    obtain ⟨rfl, -⟩ := Cursor.ofTokens_eq_ok fresh
    cases concluded with
    | aborted failed =>
        rw [going] at failed
        cases failed
    | noMatch still nothing =>
        rw [nothing] at isMatch
        cases isMatch
    | matched still matches_ account leftOver assembled =>
        exact ⟨_, _, memo', parsed, rfl, assembled, account.tiled.accounts
          (Cursor.ascending_of_ofTokens fresh) (Cursor.listed_of_ofTokens fresh) ordered⟩
  · exact absurd ordered disorder

theorem fencedTokens_inOrder : Token.InOrder fencedTokens := ⟨by decide, by decide⟩

/-- The tree of a token and a wrapper accounts for the four tokens. -/
theorem fencedTokens_accounts :
    Grammar.ofRules fenced.vocabulary fencedRules none = .ok fenced ∧
      (∀ token ∈ fencedTokens, token.kind < fenced.vocabulary.types.size) ∧
      Token.InOrder fencedTokens ∧ fenced.startAt none = .ok 0 ∧ ∃ parse opened memo,
        fenced.parse fencedTokens none {} false fenced.blankMemo = .ok (.ok parse) memo ∧
          Cursor.ofTokens fenced.vocabulary fencedTokens none = .ok opened ∧
          parse.root.Accounts opened.input 4 := by
  have known : ∀ token ∈ fencedTokens, token.kind < fenced.vocabulary.types.size := by decide
  have started : fenced.startAt none = .ok 0 := rfl
  obtain ⟨opened, outcome, last, fresh, runs, comes⟩ :=
    parse_accounts fenced_built {} false known fencedTokens_inOrder started
      (Memo.blank_faithful fenced)
  have full : (match Cursor.ofTokens fenced.vocabulary fencedTokens none with
      | .ok opened => match Matcher.run (fenced.setting {} false) 0 []
            (opened.begin {} fenced.blankMemo) with
          | .ok outcome last => decide (outcome = .fullMatch 4 ∧ last.failure = none)
          | .error _ _ => false
      | .error _ => false) = true := by
    decide +kernel
  change Cursor.ofTokens fenced.vocabulary fencedTokens none = .ok opened at fresh
  simp only [fresh, runs] at full
  obtain ⟨rfl, going⟩ := of_decide_eq_true full
  obtain ⟨parse, found, memo, parsed, -, -, accounts⟩ := comes rfl going
  exact ⟨fenced_built, known, fencedTokens_inOrder, started, parse, opened, memo, parsed, fresh,
    accounts⟩

/-! ### Diagnostics -/

/-- The range is that of the token at a position, or the empty range at the end of the
input if the position is the one behind the last token. -/
def Input.RangeAt (input : Input) (k : Nat) (range : TextRange) : Prop :=
  (∃ token, input.token? k = some token ∧ token.range = .ok range) ∨
    k = input.size ∧ ∃ stop, (input.cursorAt k).endOffset = .ok stop ∧ range = .emptyAt stop

/-- What a parse reports.  A diagnostic of tokens that are left over is the last one, and
there is one exactly if there are such tokens.  Any other reports an incomplete match, and
there is one exactly if the match is incomplete. -/
structure Parse.Diagnosed (g : Grammar) (input : Input) (parse : Parse) : Prop where
  leftOver_iff : (∃ found ∈ parse.diagnostics, found.code = .E0103) ↔
    parse.outcome.tokens < input.size
  leftOver_last : ∀ before found behind, parse.diagnostics = before ++ found :: behind →
    found.code = .E0103 → behind = [] ∧ ∀ other ∈ before, other.code ≠ .E0103
  full : parse.outcome.isFull = true → ∀ found ∈ parse.diagnostics, found.code = .E0103
  ok_iff : parse.ok = true ↔ parse.outcome.isFull = true ∧ parse.outcome.tokens = input.size
  incomplete : parse.outcome.isPartial = true → ∃ only,
    parse.diagnostics.filter (fun found => found.code ≠ .E0103) = [only] ∧
      ∃ k ≤ parse.outcome.tokens, input.RangeAt k only.range ∧
        ∀ t, k ≤ t → t < parse.outcome.tokens → Node.ClosedAt g input [parse.root] t
  atMostTwo : parse.diagnostics.length ≤ 2

theorem LeftOver.elim (listed : input.Listed) {position : Nat} {found : List Diagnostic}
    (leftOver : LeftOver input position found) :
    position < input.size ∧ (∃ only, found = [only] ∧ only.code = .E0103) ∨
      input.size ≤ position ∧ found = [] := by
  unfold LeftOver at leftOver
  cases current : input.token? position with
  | some token =>
      rw [current] at leftOver
      exact Or.inl ⟨token?_lt_size current, leftOver⟩
  | none =>
      rw [current] at leftOver
      refine Or.inr ⟨Nat.le_of_not_lt fun inside => ?_, leftOver⟩
      obtain ⟨token, found⟩ := listed.exists_token inside
      rw [current] at found
      cases found

theorem Points.rangeAt (listed : input.Listed) {k : Nat} {found : Diagnostic}
    (points : Points input k found) (inside : k ≤ input.size) : input.RangeAt k found.range := by
  obtain ⟨range_eq, -⟩ := points
  unfold Cursor.currentRange at range_eq
  cases current : (input.cursorAt k).current? with
  | some token =>
      rw [current] at range_eq
      exact Or.inl ⟨token, current, range_eq⟩
  | none =>
      rw [current] at range_eq
      obtain ⟨stop, ends, range_eq⟩ := bind_eq_ok.1 range_eq
      refine Or.inr ⟨Nat.le_antisymm inside (Nat.le_of_not_lt fun within => ?_), stop, ends,
        (pure_eq_ok.1 range_eq).symm⟩
      obtain ⟨token, found⟩ := listed.exists_token within
      rw [Input.token?, current] at found
      cases found

theorem Account.code_ne {complete : Bool} {i j : Nat} {nodes : List Node} {found : List Diagnostic}
    (account : Account g input complete i j nodes found) : ∀ other ∈ found, other.code ≠ .E0103 := by
  intro other member
  cases complete with
  | true =>
      rw [account.clean rfl] at member
      cases member
  | false =>
      obtain ⟨only, rfl, k, -, -, points, -⟩ := account.blames rfl
      obtain rfl := List.mem_singleton.1 member
      exact points.2

theorem Account.length_le_one {complete : Bool} {i j : Nat} {nodes : List Node}
    {found : List Diagnostic} (account : Account g input complete i j nodes found) :
    found.length ≤ 1 := by
  cases complete with
  | true => simp [account.clean rfl]
  | false =>
      obtain ⟨only, rfl, -⟩ := account.blames rfl
      exact Nat.le_refl 1

/-- A diagnostic of tokens that are left over is not among those of the match, so it is the one
behind them. -/
theorem last_of_leftOver {found left before behind : List Diagnostic} {last : Diagnostic}
    (others : ∀ other ∈ found, other.code ≠ .E0103) (short : left.length ≤ 1)
    (split : found ++ left = before ++ last :: behind) (code : last.code = .E0103) :
    behind = [] ∧ ∀ other ∈ before, other.code ≠ .E0103 := by
  rcases List.append_eq_append_iff.1 split with ⟨more, rfl, left_eq⟩ | ⟨more, rfl, left_eq⟩
  · rw [left_eq, List.length_append, List.length_cons] at short
    obtain rfl : more = [] := List.eq_nil_of_length_eq_zero (by omega)
    rw [List.append_nil]
    exact ⟨List.eq_nil_of_length_eq_zero (by omega), others⟩
  · cases more with
    | nil =>
        obtain rfl : last :: behind = left := left_eq
        rw [List.append_nil] at others
        exact ⟨List.eq_nil_of_length_eq_zero (by simpa using short), others⟩
    | cons head tail =>
        obtain ⟨rfl, -⟩ : last = head ∧ behind = tail ++ left := by simpa using left_eq
        exact absurd code (others last (by simp))

/-- An account of a match, followed by what is left over, is the report of a parse. -/
theorem Account.diagnosed (listed : input.Listed) {root : Node} {outcome : Outcome}
    {found left : List Diagnostic} (isMatch : outcome.isMatch = true)
    (account : Account g input outcome.isFull 0 outcome.tokens [root] found)
    (leftOver : LeftOver input outcome.tokens left) :
    Parse.Diagnosed g input ⟨root, outcome, found ++ left⟩ := by
  have inside := account.tiled.single.inside
  have others := account.code_ne
  have rest : outcome.tokens < input.size ∧ (∃ only, left = [only] ∧ only.code = .E0103) ∨
      outcome.tokens = input.size ∧ left = [] := by
    rcases leftOver.elim listed with some | ⟨beyond, none⟩
    · exact Or.inl some
    · exact Or.inr ⟨Nat.le_antisymm inside beyond, none⟩
  -- Only the report of tokens left over can come on top, so what remains is to tell its code apart.
  have short : left.length ≤ 1 := by
    rcases rest with ⟨-, only, rfl, -⟩ | ⟨-, rfl⟩
    · exact Nat.le_refl 1
    · exact Nat.zero_le 1
  constructor
  case leftOver_iff =>
    rcases rest with ⟨further, only, rfl, code⟩ | ⟨whole, rfl⟩
    · exact ⟨fun _ => further, fun _ => ⟨only, List.mem_append_right _ List.mem_cons_self, code⟩⟩
    · refine ⟨?_, fun further => absurd whole (Nat.ne_of_lt further)⟩
      rintro ⟨other, member, code⟩
      exact absurd code (others other (by simpa using member))
  case leftOver_last =>
    exact fun before last behind split code => last_of_leftOver others short split code
  case full =>
    intro complete other member
    rw [account.clean complete, List.nil_append] at member
    rcases rest with ⟨-, only, rfl, code⟩ | ⟨-, rfl⟩
    · obtain rfl := List.mem_singleton.1 member
      exact code
    · cases member
  case ok_iff =>
    unfold Parse.ok
    rw [Bool.and_eq_true, List.isEmpty_iff]
    refine and_congr_right fun complete => ?_
    rw [account.clean complete, List.nil_append]
    rcases rest with ⟨further, only, rfl, -⟩ | ⟨whole, rfl⟩
    · exact ⟨nofun, fun whole => absurd whole (Nat.ne_of_lt further)⟩
    · exact ⟨fun _ => whole, fun _ => rfl⟩
  case incomplete =>
    intro isPartial
    have incomplete : outcome.isFull = false := by
      cases outcome <;> first | rfl | cases isPartial
    obtain ⟨only, rfl, k, -, stop, points, closed⟩ := account.blames incomplete
    refine ⟨only, ?_, k, stop, points.rangeAt listed (Nat.le_trans stop inside), closed⟩
    have code := points.2
    rcases rest with ⟨-, last, rfl, leftCode⟩ | ⟨-, rfl⟩
    · simp [code, leftCode]
    · simp [code]
  case atMostTwo =>
    rw [List.length_append]
    exact Nat.add_le_add account.length_le_one short

/-- **A parse reports an incomplete match once, and nothing else but what is left over.** -/
theorem parse_diagnosed [Alphabet] (built : Grammar.ofRules vocabulary rules name = .ok g)
    {rule : Option String} {memo memo' : Memo} (faithful : memo.Faithful g) {parse : Parse}
    (parsed : g.parse tokens rule options cancelled memo = .ok (.ok parse) memo') :
    ∃ opened, Cursor.ofTokens g.vocabulary tokens options.placeholder = .ok opened ∧
      parse.Diagnosed g opened.input := by
  have wellFormed := Grammar.ofRules_wellFormed built
  obtain ⟨root, started, parsed⟩ := parse_eq_ok parsed
  obtain ⟨first, -, -, -, begun, -⟩ := parseFrom_eq_ok parsed
  obtain ⟨opened, fresh, -⟩ := bind_eq_ok.1 begun
  refine ⟨opened, fresh, ?_⟩
  change Cursor.ofTokens g.vocabulary tokens options.placeholder = .ok opened at fresh
  have bound := startAt_lt wellFormed started
  rcases parseFrom_concludes wellFormed cancelled fresh bound faithful with
    ⟨outcome, last, answer, after, -, -, concluded, done⟩ | ⟨⟨after, failed⟩, -⟩
  · rw [parsed] at done
    cases done
    cases concluded with
    | matched going isMatch account leftOver assembled =>
        exact account.diagnosed (Cursor.listed_of_ofTokens fresh) isMatch leftOver
  · rw [parsed] at failed
    cases failed

/-- The wrapper stays open, and a token is left over. -/
def unfencedTokens : Array Token := #[⟨0, "a", 0⟩, ⟨1, "b", 1⟩, ⟨3, "d", 2⟩, ⟨0, "a", 3⟩]

/-- The missing content and the token that is left over are reported, and nothing else. -/
theorem unfencedTokens_diagnosed :
    Grammar.ofRules fenced.vocabulary fencedRules none = .ok fenced ∧ ∃ parse memo opened,
      fenced.parse unfencedTokens none {} false fenced.blankMemo = .ok (.ok parse) memo ∧
        parse.outcome = .partialMatch 3 ∧
        parse.diagnostics.map Diagnostic.code = [.E0201, .E0103] ∧
        Cursor.ofTokens fenced.vocabulary unfencedTokens none = .ok opened ∧
        parse.Diagnosed fenced opened.input := by
  have comes : comesTo (fun parse => parse.outcome = .partialMatch 3 ∧
        parse.diagnostics.map Diagnostic.code = [.E0201, .E0103])
      (fenced.parse unfencedTokens none {} false fenced.blankMemo) = true := by
    decide +kernel
  obtain ⟨parse, memo, parsed, as_expected⟩ := exists_of_comesTo comes
  obtain ⟨outcome, codes⟩ := of_decide_eq_true as_expected
  obtain ⟨opened, fresh, diagnosed⟩ :=
    parse_diagnosed fenced_built (Memo.blank_faithful fenced) parsed
  exact ⟨fenced_built, parse, memo, opened, parsed, outcome, codes, fresh, diagnosed⟩

end Dialect
