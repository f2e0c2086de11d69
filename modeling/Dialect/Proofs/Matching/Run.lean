import Dialect.Proofs.Matching.Element

/-!
# The contract of a run

Matching an element of a grammar that was accepted, from whatever state a parse of the
tokens can be in, takes tokens and adds to the record, or leaves the cursor as it was
(`run_keeps`).  It ends with a fault only if a token lies beyond the offsets that can be
counted, or if the path names a slot of a sequence that cannot be counted.
-/

set_option autoImplicit false

namespace Dialect

/-! ### The setting of a run -/

/-- Elements may be entered where leaves may, and nothing is known of what was not matched. -/
def Agreement.leafwise (s : Setting) (input : Input) : Agreement s input where
  licence id _ depth := (∃ kind, s.grammar.kind? id = some kind ∧ kind.isLeaf = true) ∧ s.Open depth
  idle _ _ := True
  opens may _ := may.2
  here := by
    rintro id position depth kind item ⟨⟨found, stands, leaf⟩, -⟩ other entry
    obtain rfl : found = kind := Option.some.inj (stands.symm.trans other)
    cases found <;> simp [Kind.isLeaf, Kind.entriesAt] at leaf entry
  beyond := by
    rintro id position depth kind item later ⟨⟨found, stands, leaf⟩, -⟩ other entry
    obtain rfl : found = kind := Option.some.inj (stands.symm.trans other)
    cases found <;> simp [Kind.isLeaf, Kind.parts] at leaf entry
  leaf may stands leaf := ⟨⟨_, stands, leaf⟩, may⟩
  declined _ _ _ := trivial
  untouched _ _ _ := trivial

variable {g : Grammar} {vocabulary : Vocabulary} {rules : List Rule} {root : Option String}
  {options : Options} {cancelled : Bool} {tokens : Array Token} {opened : Cursor}

/-- The setting of a parse that asks the memo of the grammar. -/
def Grammar.setting (g : Grammar) (options : Options) (cancelled : Bool) : Setting :=
  ⟨g, .remembering g, options, cancelled⟩

/-- A cursor opened on tokens sets the stage for a parse. -/
theorem stage_of_ofTokens (wellFormed : g.WellFormed)
    (fresh : Cursor.ofTokens g.vocabulary tokens options.placeholder = .ok opened)
    (cancelled : Bool) : Stage (g.setting options cancelled) opened.input where
  wellFormed := wellFormed
  reliable := remembering_reliable wellFormed
  known := by
    have known := Cursor.known_of_ofTokens fresh
    obtain ⟨rfl, -⟩ := Cursor.ofTokens_eq_ok fresh
    exact known

/-- What comes of matching an element, under any agreement on when elements may be entered. -/
theorem run_honours {s : Setting} {input : Input} (agreement : Agreement s input)
    (stage : Stage s input) {id : ElementId} (bound : id < s.grammar.elements.size) {outer : Path}
    (inside : outer.Inside s.grammar) {p : Progress} (sound : p.Sound s.grammar input)
    (calm : Prop) (free : calm → agreement.licence id p.cursor.position p.depth) :
    Ensures (Excused s.grammar input outer) (Matcher.run s id outer) p
      (Came s.grammar calm (Recorded s input s.options.maxDepth id outer) (agreement.idle id) p) :=
  matchElement_honours agreement stage s.options.maxDepth p.depth (Nat.le_add_right _ _) calm id
    bound outer p (fun frame member => ⟨inside frame member, fun _ => member⟩) sound rfl free

/-- A step on a path of its own has no excuse when all tokens fit into a source text. -/
theorem Ensures.exists_ok {α : Type} {input : Input} {step : Matcher α} {p : Progress}
    {post : α → Progress → Prop} (kept : Ensures (Excused g input []) step p post)
    (fits : ∀ token ∈ input.tokens,
      token.offset + token.text.utf8ByteSize < TextRange.offsetLimit) :
    ∃ value q, step p = .ok value q ∧ post value q := by
  rcases kept.ok_or_beyond with done | ⟨q, token, -, member, beyond⟩
  · exact done
  · exact absurd (fits token member) (Nat.not_lt.2 beyond)

/-- What a step answers and where it leaves the cursor. -/
def Matcher.answer {α : Type} (step : Matcher α) (p : Progress) : Except Fault (α × Nat) :=
  match step p with
  | .ok value q => .ok (value, q.cursor.position)
  | .error fault _ => .error fault

/-! ### The contract -/

/-- What an outcome says of the cursor: without a match it is as before, and a match takes at
least one token, within the input, and adds to the record. -/
def Outcome.Moves (before after : Cursor) : Outcome → Prop
  | .noMatch => after = before
  | .partialMatch n | .fullMatch n =>
      0 < n ∧ after.position = before.position + n ∧ after.position ≤ after.size ∧
        (∃ added, after.events = before.events ++ added) ∧ after.openMarks = before.openMarks

theorem Came.moves {calm : Prop} {record : Record} {idle : Nat → Prop} {p q : Progress}
    {outcome : Outcome} (came : Came g calm record idle p outcome q) :
    outcome.Moves p.cursor q.cursor := by
  obtain ⟨events, moved, matched⟩ := came
  cases outcome with
  | noMatch =>
      obtain ⟨rfl, -⟩ := matched
      exact moved.stay
  | partialMatch n => exact ⟨matched.1, by rw [moved.cursor]; exact ⟨rfl, moved.inside, ⟨_, rfl⟩, rfl⟩⟩
  | fullMatch n => exact ⟨matched.1, by rw [moved.cursor]; exact ⟨rfl, moved.inside, ⟨_, rfl⟩, rfl⟩⟩

/-- **Matching an element keeps the contract.**  From any state of a parse of the tokens it
ends at the same depth, with an outcome that says how the cursor moved.  Otherwise a range is
refused, because some token ends beyond the offsets that can be counted, or the slot behind one
that the path around names, because that slot cannot be counted. -/
theorem run_keeps [Alphabet] (built : Grammar.ofRules vocabulary rules root = .ok g)
    (fresh : Cursor.ofTokens g.vocabulary tokens options.placeholder = .ok opened)
    {id : ElementId} (bound : id < g.elements.size) {outer : Path} (inside : outer.Inside g)
    {p : Progress} (sound : p.Sound g opened.input) :
    (∃ outcome q, Matcher.run (g.setting options cancelled) id outer p = .ok outcome q ∧
      q.depth = p.depth ∧ outcome.Moves p.cursor q.cursor) ∨
    (∃ q, Matcher.run (g.setting options cancelled) id outer p = .error .textRange q) ∧
      (∃ token ∈ tokens, TextRange.offsetLimit ≤ token.offset + token.text.utf8ByteSize) ∨
    ∃ frame ∈ outer, frame.Astray g ∧
      ∃ q, Matcher.run (g.setting options cancelled) id outer p =
        .error (.uncountable (frame.slot + 1)) q := by
  have stage := stage_of_ofTokens (Grammar.ofRules_wellFormed built) fresh cancelled
  have kept := run_honours (.leafwise _ _) stage bound inside sound False (fun no => no.elim)
  unfold Ensures at kept
  split at kept
  · rename_i outcome q ran
    have moves := kept.moves
    obtain ⟨events, moved, -⟩ := kept
    exact Or.inl ⟨outcome, q, ran, moved.keeps.depth, moves⟩
  · rename_i fault q ran
    obtain ⟨rfl, -⟩ := Cursor.ofTokens_eq_ok fresh
    cases fault with
    | textRange => exact Or.inr (Or.inl ⟨⟨q, ran⟩, kept⟩)
    | uncountable number =>
        obtain ⟨frame, member, astray, rfl⟩ := kept
        exact Or.inr (Or.inr ⟨frame, member, astray, q, ran⟩)
    | _ => exact kept.elim

/-- A rule with a token before a wrapper. -/
def fencedRules : List Rule :=
  [⟨"r", .oneOf [.required (.sequence [.required (.token "A" none none),
    .required (.wrapper "B" (.required (.token "C" none none)) "D" false)])] false⟩]

/-- The grammar of that rule. -/
def fenced : Grammar where
  vocabulary := ⟨"test", #[.keyword "A" "a", .keyword "B" "b", .keyword "C" "c", .keyword "D" "d"]⟩
  elements := #[
    ⟨0, "r", some "r", none, .oneOf [.required 1] false⟩,
    ⟨1, "r#1", none, some 0, .sequence [.required 2, .required 3]⟩,
    ⟨2, "r#2", none, some 1, .token 0 none none⟩,
    ⟨3, "r#3", none, some 1, .wrapper 4 (.required 5) 6 false⟩,
    ⟨4, "r#4", none, some 3, .token 1 none none⟩,
    ⟨5, "r#5", none, some 3, .token 2 none none⟩,
    ⟨6, "r#6", none, some 3, .token 3 none none⟩]
  rules := [("r", 0)]
  root := 0

theorem fenced_built : Grammar.ofRules fenced.vocabulary fencedRules none = .ok fenced := by
  with_unfolding_all rfl

/-- A parse of two tokens, the second of which has the given text and offset, at its
beginning. -/
def fencedStart (text : String) (offset : Nat) : Progress :=
  ⟨⟨#[⟨0, "a", 0⟩, ⟨1, text, offset⟩], #[0, 1], none, 0, #[], 0⟩, 0, false, [], none,
    fenced.blankMemo⟩

theorem fencedStart_opened (text : String) (offset : Nat) :
    Cursor.ofTokens fenced.vocabulary #[⟨0, "a", 0⟩, ⟨1, text, offset⟩] none =
      .ok (fencedStart text offset).cursor := by
  rfl

theorem fencedStart_sound (text : String) (offset : Nat) :
    (fencedStart text offset).Sound fenced (fencedStart text offset).cursor.input :=
  ⟨rfl, Nat.zero_le _, Memo.blank_faithful fenced⟩

/-- The contract at the beginning of a parse of two short tokens. -/
theorem fenced_keeps :
    Grammar.ofRules fenced.vocabulary fencedRules none = .ok fenced ∧
      ((∃ outcome q, Matcher.run (fenced.setting { recovery := false } false) 0 []
          (fencedStart "b" 1) = .ok outcome q ∧ q.depth = 0 ∧
          outcome.Moves (fencedStart "b" 1).cursor q.cursor) ∨
        (∃ q, Matcher.run (fenced.setting { recovery := false } false) 0 []
          (fencedStart "b" 1) = .error .textRange q) ∧
          (∃ token ∈ (fencedStart "b" 1).cursor.tokens,
            TextRange.offsetLimit ≤ token.offset + token.text.utf8ByteSize) ∨
        ∃ frame ∈ ([] : Path), frame.Astray fenced ∧
          ∃ q, Matcher.run (fenced.setting { recovery := false } false) 0 []
            (fencedStart "b" 1) = .error (.uncountable (frame.slot + 1)) q) :=
  ⟨fenced_built, run_keeps fenced_built (fencedStart_opened "b" 1) (by decide)
    (fun frame none => absurd none List.not_mem_nil) (fencedStart_sound "b" 1)⟩

/-- The wrapper cannot be matched when its opening token ends beyond the offsets that can be
counted. -/
theorem fenced_faults :
    Grammar.ofRules fenced.vocabulary fencedRules none = .ok fenced ∧
      (fencedStart "bb" (TextRange.offsetLimit - 1)).Sound fenced
        (fencedStart "bb" (TextRange.offsetLimit - 1)).cursor.input ∧
        ¬ ∃ outcome q, Matcher.run (fenced.setting { recovery := false } false) 0 []
          (fencedStart "bb" (TextRange.offsetLimit - 1)) = .ok outcome q := by
  refine ⟨fenced_built, fencedStart_sound _ _, ?_⟩
  have faults : (match Matcher.run (fenced.setting { recovery := false } false) 0 []
      (fencedStart "bb" (TextRange.offsetLimit - 1)) with
    | .ok _ _ => false
    | .error _ _ => true) = true := by
    decide +kernel
  rintro ⟨outcome, q, ran⟩
  rw [ran] at faults
  cases faults

end Dialect
