import Dialect.Proofs.Accounting
import Dialect.Proofs.Enclosing.Element
import Dialect.Proofs.Matching.Counting

/-!
# Repeated wrappers count their delimiters

A repeated wrapper takes all the opening delimiters there are, its content, and a closing delimiter
for each of the opening ones, as far as there are any.  The main statement, `wrapper_balances`, says
what it comes to for any two numbers of delimiters: if there are closing ones enough the match is
complete, and nothing is reported; else exactly one diagnostic is made, where the next closing
delimiter is missing, and it names the innermost delimiter that is still open.

What the content comes to is only asked of it alone, at its place in the input: that it stands
behind opening delimiters makes no difference (`matchElement_behind`).
-/

set_option autoImplicit false

namespace Dialect

/-- Behind content that ends within the input the closing delimiters do as well. -/
theorem Input.Delimited.inside {input : Input} {b c : TokenTypeId} {first k n m : Nat}
    (delimited : input.Delimited b c first k n m) (within : first + k + n ≤ input.size) :
    first + k + n + m ≤ input.size := by
  cases m with
  | zero => exact within
  | succ m =>
      obtain ⟨last, there⟩ := (delimited.closes m (Nat.lt_succ_self m)).exists_token
      exact token?_lt_size there

/-! ### The content -/

section Content

open Matcher

variable {s : Setting} {input : Input} {id opening closing : ElementId} {slot : Slot ElementId}
  {b : TokenTypeId} {outer path : Path} {p q last : Progress} {k n levels : Nat}

/-- Content that is complete by itself is complete behind opening delimiters. -/
theorem content_complete (stage : Stage s input) (sound : p.Sound s.grammar input)
    (delimiters : ∀ j < k, input.Suits b (p.cursor.position + j))
    (stands : s.grammar.kind? id = some (.wrapper opening slot closing true))
    (active : slot.isActive s.options.version = true) (inside : outer.Inside s.grammar)
    (enough : s.options.maxDepth ≤ levels + p.depth)
    (ran : matchElement s levels slot.item (⟨id, 1⟩ :: outer)
      (p.moveTo (input.cursorAt (p.cursor.position + k))) = .ok (.fullMatch n) last)
    (quiet : last.failure = none) :
    Ensures (Excused s.grammar input [])
      (content s (matchElement s levels) (outer.enter id) slot >>= addContent s slot k)
      (p.marked.taking input opening k) fun tally last => tally = ⟨k + n, true⟩ ∧
        last.failure = none ∧ ∃ middle, (p.cursor.position + k + n ≤ input.size ∧
          Recorded s input levels slot.item (⟨id, 1⟩ :: outer) true (p.cursor.position + k)
            (p.cursor.position + k + n) middle) ∧
          Proceeds s.grammar False (p.marked.taking input opening k) n middle last := by
  have soundOpened : (p.marked.taking input opening k).Sound s.grammar input :=
    sound.marked.taking opening delimiters
  obtain ⟨last', there, states⟩ :=
    matchElement_behind stage soundOpened.reads soundOpened.faithful ran
  have silent : last'.failure = none := by
    rw [states.same, quiet]
    rfl
  have bound : slot.item < s.grammar.elements.size :=
    Grammar.lt_of_isSome (stage.wellFormed.placed id _ stands).2.1.2
  have within : Path.Within s.grammar (⟨id, 1⟩ :: outer) outer :=
    Path.Within.push (fun frame member => ⟨inside frame member, fun _ => member⟩) stands nofun
  -- The content is read behind the delimiters as it is read with nothing before it.
  have kept := matchElement_honours (.leafwise s input) stage levels p.depth enough False
    slot.item bound (⟨id, 1⟩ :: outer) (p.marked.taking input opening k) within soundOpened rfl
    (fun no => no.elim)
  obtain ⟨middle, moved, -, recorded⟩ := kept.of_ok there
  have room : p.cursor.position + k + n ≤ input.size := by
    have ends := (moved.sound soundOpened).inside
    rwa [moved.position] at ends
  have contained : content s (matchElement s levels) (outer.enter id) slot
      (p.marked.taking input opening k) = .ok (.fullMatch n) last' := by
    unfold content
    rw [if_pos active]
    exact there
  exact ensures_bind_of_ok contained
    (ensures_pure ⟨rfl, silent, middle, ⟨room, recorded⟩, moved⟩)

end Content

/-! ### The statement -/

/-- What a repeated wrapper comes to where `k` opening delimiters, content of `n` tokens and `m`
closing delimiters stand. -/
inductive Balances (g : Grammar) (input : Input) (id : ElementId) (c : TokenTypeId)
    (before : Cursor) (k n m : Nat) : EStateM.Result Fault Progress Outcome → Prop
  /-- There are closing delimiters enough: nothing is reported, and what is too many is left. -/
  | closed {q : Progress} {events : List Event} (enough : k ≤ m) (quiet : q.failure = none)
      (moved : q.cursor = before.extend (2 * k + n) events) (clean : Clean events)
      (left : ∀ j < m - k, input.Suits c (q.cursor.position + j))
      (tree : Builds g input events fun nodes found => found = [] ∧ ∃ node, nodes = [node] ∧
        node.element = id ∧ node.kind = .wrapper ∧ node.children.length = 2 * k + 1) :
      Balances g input id c before k n m (.ok (.fullMatch (2 * k + n)) q)
  /-- There are too few: this is reported once, with the innermost one that is not closed. -/
  | unclosed {q : Progress} {first behind : List Event} {only : Diagnostic} {token : Token}
      {range : TextRange} (few : m < k) (quiet : q.failure = none)
      (moved : q.cursor = before.extend (k + n + m) (first ++ .diagnostic only :: behind))
      (clean : Clean (first ++ behind)) (code : only.code = .E0203)
      (place : input.RangeAt (before.position + k + n + m) only.range)
      (related : only.related = [⟨"opened here", range⟩])
      (opened : input.token? (before.position + (k - m) - 1) = some token)
      (range_eq : token.range = .ok range) :
      Balances g input id c before k n m (.ok (.partialMatch (k + n + m)) q)
  /-- A token ends beyond the offsets that can be counted. -/
  | beyond {q : Progress} {token : Token} (member : token ∈ input.tokens)
      (far : TextRange.offsetLimit ≤ token.offset + token.text.utf8ByteSize) :
      Balances g input id c before k n m (.error .textRange q)

section Statement

open Matcher

variable {g : Grammar} {vocabulary : Vocabulary} {rules : List Rule} {root : Option String}
  {options : Options} {cancelled : Bool} {tokens : Array Token} {opened : Cursor}
  {id opening closing : ElementId} {slot : Slot ElementId} {b c : TokenTypeId} {outer : Path}
  {p last : Progress} {k n m levels : Nat}

/-- The node of a wrapper has a child for each delimiter and one for its content. -/
theorem wrapped_builds {s : Setting} {input : Input} {middle : List Event}
    (wellFormed : s.grammar.WellFormed) (ascending : input.Ascending) (listed : input.Listed)
    (stands : s.grammar.kind? id = some (.wrapper opening slot closing true))
    (begins : s.grammar.Delimiter opening b) (ends : s.grammar.Delimiter closing c)
    {first : Nat} (inside : first + (k + n + k) ≤ input.size) (positive : 1 ≤ k)
    (recorded : Recorded s input levels slot.item outer true (first + k) (first + k + n) middle) :
    Builds s.grammar input (input.wrapped id opening closing first k n k middle [])
      fun nodes found => found = [] ∧ ∃ node, nodes = [node] ∧ node.element = id ∧
        node.kind = .wrapper ∧ node.children.length = 2 * k + 1 := by
  have opens : Builds s.grammar input (input.leaves opening k first) fun nodes found =>
      found = [] ∧ nodes.length = k ∧ Row input first (first + k) nodes :=
    builds_leaves ascending listed begins.stands rfl (by omega)
  have closes : Builds s.grammar input (input.leaves closing k (first + k + n)) fun nodes found =>
      found = [] ∧ nodes.length = k ∧ Row input (first + k + n) (first + k + n + k) nodes :=
    builds_leaves ascending listed ends.stands rfl (by omega)
  have front : Builds s.grammar input (input.leaves opening k first ++ middle) fun nodes found =>
      found = [] ∧ nodes.length = k + 1 ∧ Row input first (first + k + n) nodes := by
    refine opens.append (recorded_builds wellFormed ascending listed levels recorded) ?_
    rintro nodes _ _ found ⟨rfl, length, row⟩ account
    obtain ⟨node, rfl, -⟩ := account.single
    exact ⟨account.clean rfl, by simp [length], row.append account.tiled.row⟩
  have whole : first + k + n + k = first + (k + n + k) := by omega
  -- The node has a child for each delimiter and one for the content.
  have children : Builds s.grammar input
      (input.leaves opening k first ++ middle ++ (input.leaves closing k (first + k + n) ++ []))
      fun nodes found =>
        found = [] ∧ nodes.length = 2 * k + 1 ∧ Row input first (first + (k + n + k)) nodes := by
    rw [List.append_nil, ← whole]
    refine front.append closes ?_
    rintro nodes more _ _ ⟨rfl, length, row⟩ ⟨rfl, length', row'⟩
    refine ⟨rfl, ?_, row.append row'⟩
    rw [List.length_append, length, length']
    omega
  refine builds_node ascending listed stands rfl (by omega) children (fun _ _ held => held.2.2) ?_
  rintro node nodes found covers ⟨rfl, length, -⟩
  exact ⟨rfl, node, rfl, covers.element_eq, covers.kind_eq, by rw [covers.children_eq, length]⟩

section Record

variable {s : Setting} {input : Input} {middle : List Event} {before : Cursor} (listed : input.Listed)
  (delimited : input.Delimited b c before.position k n m)
  (within : before.position + k + n ≤ input.size)
  (recorded : Recorded s input levels slot.item outer true (before.position + k)
    (before.position + k + n) middle)

include listed delimited within recorded

/-- A wrapper with closing delimiters enough. -/
theorem balances_closed (wellFormed : s.grammar.WellFormed) (ascending : input.Ascending)
    (stands : s.grammar.kind? id = some (.wrapper opening slot closing true))
    (begins : s.grammar.Delimiter opening b) (ends : s.grammar.Delimiter closing c)
    (positive : 1 ≤ k) (enough : k ≤ m) (quiet : p.failure = none)
    (moved : p.cursor = before.extend (k + n + k)
      (input.wrapped id opening closing before.position k n k middle [])) :
    Balances s.grammar input id c before k n m (.ok (.fullMatch (k + n + k)) p) := by
  have inside := delimited.inside within
  have total : k + n + k = 2 * k + n := by omega
  have tree := wrapped_builds wellFormed ascending listed stands begins ends (by omega) positive recorded
  rw [total] at moved ⊢
  refine .closed enough quiet moved (clean_wrapped (recorded_clean levels recorded) clean_nil) ?_ tree
  intro j further
  have there := delimited.closes (k + j) (by omega)
  have place : before.position + k + n + (k + j) = before.position + (2 * k + n) + j := by omega
  rwa [moved, Cursor.extend_position, ← place]

/-- A wrapper with too few closing delimiters. -/
theorem balances_unclosed {range : TextRange} {found : Diagnostic} (few : m < k)
    (quiet : p.failure = none)
    (innermost : (input.cursorAt (before.position + k - 1 - m)).currentRange = .ok range)
    (missing : Missing s input .E0203 closing (before.position + k + n + m) found)
    (moved : p.cursor = before.extend (k + n + m)
      (input.wrapped id opening closing before.position k n m middle
        [.diagnostic (found.openedAt range)])) :
    Balances s.grammar input id c before k n m (.ok (.partialMatch (k + n + m)) p) := by
  obtain ⟨token, there⟩ := (delimited.opens (k - 1 - m) (by omega)).exists_token
  have place : before.position + (k - 1 - m) = before.position + (k - m) - 1 := by omega
  have same : before.position + k - 1 - m = before.position + (k - m) - 1 := by omega
  rw [place] at there
  have range_eq : token.range = .ok range := by
    rw [Input.token?] at there
    rw [same, Cursor.currentRange, there] at innermost
    exact innermost
  let first : List Event := .start id (input.indexAt before.position) ::
    (input.leaves opening k before.position ++ middle ++
      input.leaves closing m (before.position + k + n))
  have split : p.cursor = before.extend (k + n + m)
      (first ++ .diagnostic (found.openedAt range) :: [.finish]) := by
    rw [moved, Input.wrapped, Input.node]
    simp [first]
  have clean : Clean (first ++ [.finish]) := by
    have whole : Clean (input.wrapped id opening closing before.position k n m middle []) :=
      clean_wrapped (recorded_clean levels recorded) clean_nil
    simpa [Input.wrapped, Input.node, first] using whole
  exact .unclosed few quiet split clean (missing.unrelated rfl).1
    ((missing.points (by decide)).rangeAt listed (delimited.inside within)) rfl there range_eq

/-- What the delimiters come to when they have been counted. -/
theorem counted_balances (wellFormed : s.grammar.WellFormed) (ascending : input.Ascending)
    (stands : s.grammar.kind? id = some (.wrapper opening slot closing true))
    (begins : s.grammar.Delimiter opening b) (ends : s.grammar.Delimiter closing c)
    (positive : 1 ≤ k) (quiet : last.failure = none) {outcome : Outcome}
    (counted : Counted s input id opening closing before k n m true middle last outcome p) :
    Balances s.grammar input id c before k n m (.ok outcome p) := by
  cases counted with
  | closed enough =>
      exact balances_closed listed delimited within recorded wellFormed ascending stands begins ends
        positive enough quiet rfl
  | runsOut few innermost left =>
      cases left with
      | report missing =>
          exact balances_unclosed listed delimited within recorded few quiet innermost missing rfl

end Record

/-- **Repeated wrappers count their delimiters.**  Where `k` opening delimiters, content that is
complete by itself and `m` closing delimiters stand, the match is complete if there are closing ones
enough; else it is incomplete, and the next closing delimiter is reported missing, with the place of
the innermost one that stays open. -/
theorem wrapper_balances [Alphabet] (built : Grammar.ofRules vocabulary rules root = .ok g)
    (fresh : Cursor.ofTokens g.vocabulary tokens options.placeholder = .ok opened)
    (stands : g.kind? id = some (.wrapper opening slot closing true))
    (begins : g.Delimiter opening b) (ends : g.Delimiter closing c)
    (active : slot.isActive options.version = true) (inside : outer.Inside g)
    (sound : p.Sound g opened.input) (quiet : p.failure = none)
    (delimited : opened.input.Delimited b c p.cursor.position k n m) (positive : 1 ≤ k)
    (enough : options.maxDepth ≤ levels + 1 + p.depth)
    (content : matchElement (g.setting options cancelled) levels slot.item (⟨id, 1⟩ :: outer)
      (p.entered.moveTo (opened.input.cursorAt (p.cursor.position + k))) = .ok (.fullMatch n) last)
    (going : last.failure = none) :
    Balances g opened.input id c p.cursor k n m
      (matchElement (g.setting options cancelled) (levels + 1) id outer p) := by
  have stage : Stage (g.setting options cancelled) opened.input :=
    stage_of_ofTokens (Grammar.ofRules_wellFormed built) fresh cancelled
  -- The content was entered, so there is room for the delimiters as well.
  have free : (g.setting options cancelled).Open (p.depth + 1) := (open_of_match rfl content).2
  obtain ⟨levels, rfl⟩ : ∃ further, levels = further + 1 := by
    have below : p.depth + 1 < options.maxDepth := free.2
    exact ⟨levels - 1, by omega⟩
  have soundEntered : p.entered.Sound g opened.input := ⟨sound.reads, sound.inside, sound.faithful⟩
  have deep : options.maxDepth ≤ levels + 1 + p.entered.depth := by
    rwa [Nat.add_right_comm, Nat.add_assoc] at enough
  have kept := ensures_counted outer stands quiet ⟨free.1, Nat.lt_of_succ_lt free.2⟩
    (balanced_exact stage soundEntered quiet free begins ends delimited positive
      (content_complete stage soundEntered delimited.opens stands active inside deep content going))
  rcases kept.ok_or_beyond with
    ⟨outcome, q, done, middle, last', ⟨within, recorded⟩, silent, counted⟩ |
      ⟨q, token, failed, member, far⟩
  · rw [done]
    exact counted_balances (Cursor.listed_of_ofTokens fresh) delimited within recorded
      stage.wellFormed (Cursor.ascending_of_ofTokens fresh) stands begins ends positive silent counted
  · rw [failed]
    exact .beyond member far

end Statement

/-- A rule for a token in any number of parentheses. -/
def stackedRules : List Rule :=
  [⟨"r", .oneOf [.required (.wrapper "L" (.required (.token "A" none none)) "R" true)] false⟩]

/-- The grammar of that rule. -/
def stacked : Grammar where
  vocabulary := ⟨"test", #[.character "L" "(", .keyword "A" "a", .character "R" ")"]⟩
  elements := #[
    ⟨0, "r", some "r", none, .oneOf [.required 1] false⟩,
    ⟨1, "r#1", none, some 0, .wrapper 2 (.required 3) 4 true⟩,
    ⟨2, "r#2", none, some 1, .token 0 none none⟩,
    ⟨3, "r#3", none, some 1, .token 1 none none⟩,
    ⟨4, "r#4", none, some 1, .token 2 none none⟩]
  rules := [("r", 0)]
  root := 0

theorem stacked_built : Grammar.ofRules stacked.vocabulary stackedRules none = .ok stacked := by
  with_unfolding_all rfl

/-- A parse of two opening parentheses, the second at the given offset, a token, and a closing
parenthesis. -/
def stackedStart (offset : Nat) : Progress :=
  ⟨⟨#[⟨0, "(", 0⟩, ⟨0, "(", offset⟩, ⟨1, "a", 2⟩, ⟨2, ")", 3⟩], #[0, 1, 2, 3], none, 0, #[], 0⟩,
    0, false, [], none, stacked.blankMemo⟩

theorem stackedStart_opened (offset : Nat) :
    Cursor.ofTokens stacked.vocabulary
        #[⟨0, "(", 0⟩, ⟨0, "(", offset⟩, ⟨1, "a", 2⟩, ⟨2, ")", 3⟩] none =
      .ok (stackedStart offset).cursor := by
  rfl

theorem stackedStart_sound (offset : Nat) :
    (stackedStart offset).Sound stacked (stackedStart offset).cursor.input :=
  ⟨rfl, Nat.zero_le _, Memo.blank_faithful stacked⟩

/-- With one closing parenthesis for two opening ones the first one stays open. -/
theorem stackedStart_balances :
    Balances stacked (stackedStart 1).cursor.input 1 2 (stackedStart 1).cursor 2 1 1
      (Matcher.run (stacked.setting {} false) 1 [] (stackedStart 1)) := by
  have content : (match Matcher.matchElement (stacked.setting {} false) 511 3 [⟨1, 1⟩]
        ((stackedStart 1).entered.moveTo ((stackedStart 1).cursor.input.cursorAt 2)) with
      | .ok outcome last => decide (outcome = .fullMatch 1 ∧ last.failure = none)
      | .error _ _ => false) = true := by
    decide +kernel
  have delimited : (stackedStart 1).cursor.input.Delimited 0 2 0 2 1 1 :=
    ⟨by decide, by decide, by decide, by decide⟩
  split at content
  · rename_i outcome last ran
    obtain ⟨rfl, going⟩ := of_decide_eq_true content
    exact wrapper_balances stacked_built (stackedStart_opened 1) rfl ⟨rfl, rfl⟩ ⟨rfl, rfl⟩ rfl nofun
      (stackedStart_sound 1) rfl delimited (by decide) (by decide) ran going
  · cases content

/-- The second parenthesis ends beyond the offsets that can be counted. -/
theorem stackedStart_faults :
    let p := stackedStart (TextRange.offsetLimit - 1)
    let s := stacked.setting { recovery := false } false
    Grammar.ofRules stacked.vocabulary stackedRules none = .ok stacked ∧
      p.Sound stacked p.cursor.input ∧ p.failure = none ∧ p.cursor.input.placeholder = none ∧
      p.cursor.input.Delimited 0 2 0 2 1 1 ∧
      Matcher.answer (Matcher.matchElement s (s.options.maxDepth - 1) 3 [⟨1, 1⟩])
        (p.entered.moveTo (p.cursor.input.cursorAt 2)) = .ok (.fullMatch 1, 3) ∧
      ¬ ∃ outcome q, Matcher.run s 1 [] p = .ok outcome q := by
  intro p s
  have delimited : p.cursor.input.Delimited 0 2 0 2 1 1 :=
    ⟨by decide, by decide, by decide, by decide⟩
  refine ⟨stacked_built, stackedStart_sound _, rfl, rfl, delimited, by decide +kernel, ?_⟩
  have faults : (Matcher.answer (Matcher.run s 1 []) p).isOk = false := by
    decide +kernel
  rintro ⟨outcome, q, ran⟩
  rw [Matcher.answer, ran] at faults
  cases faults

end Dialect
