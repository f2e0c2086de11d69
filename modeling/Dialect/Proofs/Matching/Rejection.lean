import Dialect.Proofs.Matching.Beginning
import Dialect.Proofs.Matching.Eager

/-!
# Rejection by first sets

An element that is entered at a token outside its first set comes to nothing, unless the
version overlooks a required slot before one that takes the token (`rejects_iff`).
-/

set_option autoImplicit false

namespace Dialect

open Relation

variable {g : Grammar} {vocabulary : Vocabulary} {rules : List Rule} {root : Option String}
  {version : Nat} {token : TokenTypeId} {id : ElementId}

/-- Whatever a parse at the version has done so far, the element comes to nothing at a token
of the type that is not the placeholder, and the cursor stays where it is. -/
def Grammar.Rejects (g : Grammar) (version : Nat) (token : TokenTypeId) (id : ElementId) : Prop :=
  ∀ (options : Options) (cancelled : Bool) (tokens : Array Token) (opened : Cursor) (outer : Path)
    (p : Progress) (current : Token), options.version = version →
    Cursor.ofTokens g.vocabulary tokens options.placeholder = .ok opened → outer.Inside g →
    p.Sound g opened.input → p.cursor.current? = some current → current.kind = token →
    p.cursor.atPlaceholder = false →
      Ensures (Excused g opened.input outer) (Matcher.run (g.setting options cancelled) id outer) p
        fun outcome q => outcome = .noMatch ∧ q.cursor = p.cursor

/-- An element is rejected at a token with which no match of it begins. -/
theorem rejects_of_not_beginsAt (wellFormed : g.WellFormed) (bound : id < g.elements.size)
    (never : ¬ g.BeginsAt version token id) : g.Rejects version token id := by
  rintro options cancelled tokens opened outer p current rfl fresh inside sound found rfl ordinary
  have stage := stage_of_ofTokens wellFormed fresh cancelled
  refine (run_honours (.leafwise _ _) stage bound inside sound False fun no => no.elim).imp ?_
  rintro outcome q ⟨events, moved, matched⟩
  rw [sound.current_eq] at found
  rw [sound.placeholder_eq] at ordinary
  cases outcome with
  | noMatch =>
      obtain ⟨rfl, -⟩ := matched
      exact ⟨rfl, moved.stay⟩
  | partialMatch n => exact absurd (recorded_begins found ordinary rfl _ matched.2) never
  | fullMatch n => exact absurd (recorded_begins found ordinary rfl _ matched.2) never

/-! ### Tokens that a leaf takes anywhere -/

/-- What makes a grammar ordinary at a version: no element can be entered again at its own
token, the parenthesis behind a function word is no trivia, and no text is longer than a
source text can be. -/
structure Grammar.Ordinary (g : Grammar) (version : Nat) : Prop where
  acyclic : ∀ id, ¬ TransGen (g.EntersAt version) id id
  parenthesis : ∀ type ∈ g.vocabulary.leftParenthesis?,
    g.vocabulary.has TokenType.isTrivia type = false
  texts : ∀ id type text flavor, g.kind? id = some (.token type (some text) flavor) →
    text.utf8ByteSize < TextRange.offsetLimit

/-- Tokens of which a leaf of the given kind takes the first, if it is of the right type.  A
function word is followed by its parenthesis, and an identifier by nothing. -/
def Kind.sample (vocabulary : Vocabulary) (kind : Kind ElementId) (token : TokenTypeId) :
    Array Token :=
  match kind with
  | .token _ text _ =>
      (⟨token, text.getD "", 0⟩ ::
        vocabulary.leftParenthesis?.toList.map fun type => ⟨type, "(", 0⟩).toArray
  | _ => #[⟨token, "", 0⟩]

theorem lookup?_eq_some {name : String} (found : vocabulary.lookup? name = some token) :
    ∃ type, vocabulary.types[token]? = some type ∧ type.name = name := by
  obtain ⟨bound, same, -⟩ := Array.findIdx?_eq_some_iff_getElem.1 found
  exact ⟨_, Array.getElem?_eq_getElem bound, by simpa using same⟩

/-- The parenthesis is no dot. -/
theorem parenthesis_ne_dot {parenthesis dot : TokenTypeId}
    (left : vocabulary.leftParenthesis? = some parenthesis) (point : vocabulary.dot? = some dot) :
    parenthesis ≠ dot := by
  rintro rfl
  obtain ⟨type, type_eq, name_eq⟩ := lookup?_eq_some left
  obtain ⟨other, other_eq, name_eq'⟩ := lookup?_eq_some point
  obtain rfl : type = other := Option.some.inj (type_eq.symm.trans other_eq)
  rw [name_eq] at name_eq'
  exact absurd name_eq' (by decide)

/-- A token leaf takes a token of its type and text that is followed by nothing but perhaps
the parenthesis. -/
theorem tokenTakes_sample {s : Setting} {input : Input} {path : Path} {type : TokenTypeId}
    {text : Option String} {flavor : Option Category} (bound : type < s.grammar.vocabulary.types.size)
    (unmarked : input.placeholder = none)
    (first : input.token? 0 = some ⟨type, text.getD "", 0⟩)
    (next : input.token? 1 = s.grammar.vocabulary.leftParenthesis?.map fun type => ⟨type, "(", 0⟩) :
    s.tokenTakes input path type text flavor 0 = .ok true := by
  have ordinary : (input.cursorAt 0).atPlaceholder = false := by
    simp [Cursor.atPlaceholder, Input.cursorAt, unmarked]
  have same : (text.any fun word => !Token.sameWord (text.getD "") word) = false := by
    cases text <;> simp [Token.sameWord]
  obtain ⟨word, word_eq⟩ := get_of_lt bound
  -- The word in question stands alone or before a parenthesis, so it neither qualifies a name nor
  -- lacks the arguments of a function.
  have qualifies : s.qualifiesName path (input.token? 1) = .ok false := by
    unfold Setting.qualifiesName
    cases point : s.grammar.vocabulary.dot? with
    | none => rfl
    | some dot =>
        have differs : Matcher.nextIs (input.token? 1) dot = false := by
          rw [next]
          cases left : s.grammar.vocabulary.leftParenthesis? with
          | none => rfl
          | some parenthesis =>
              simpa [Matcher.nextIs] using parenthesis_ne_dot left point
        simp [differs]
  have lacks : s.lacksArguments path (input.token? 1) = .ok false := by
    unfold Setting.lacksArguments
    cases left : s.grammar.vocabulary.leftParenthesis? with
    | none => rfl
    | some parenthesis =>
        have there : Matcher.nextIs (input.token? 1) parenthesis = true := by
          rw [next, left]
          simp [Matcher.nextIs]
        simp [there]
  unfold Setting.tokenTakes
  simp [first, ordinary, same, word_eq, qualifies, lacks, pure, Except.pure, bind, Except.bind]

/-- An identifier leaf takes an identifier, or a word that may be read as one, if nothing
follows. -/
theorem identifierTakes_sample {s : Setting} {input : Input} {path : Path} {waved : Bool}
    {type : TokenType} {text : String} (unmarked : input.placeholder = none)
    (type_eq : s.grammar.vocabulary.types[token]? = some type)
    (named : type.isIdentifier = true ∨ type.isSuppressible = true)
    (first : input.token? 0 = some ⟨token, text, 0⟩) (next : input.token? 1 = none) :
    s.identifierTakes input path id waved 0 ≠ .ok false := by
  have ordinary : (input.cursorAt 0).atPlaceholder = false := by
    simp [Cursor.atPlaceholder, Input.cursorAt, unmarked]
  -- With nothing behind the word, no reading of it as a keyword can succeed.
  have reads : s.readsAsIdentifier input path id 0 ≠ .ok false := by
    intro refused
    unfold Setting.readsAsIdentifier at refused
    obtain ⟨element, -, refused⟩ := bind_eq_ok.1 refused
    split at refused
    · cases refused
    · obtain ⟨enclosing, -, refused⟩ := bind_eq_ok.1 refused
      split at refused
      · cases refused
      · simp only [Nat.zero_add, next] at refused
        cases refused
  intro refused
  unfold Setting.identifierTakes at refused
  simp only [first, ordinary, Bool.false_eq_true, if_false] at refused
  obtain ⟨other, other_eq, refused⟩ := bind_eq_ok.1 refused
  obtain rfl : other = type :=
    Option.some.inj ((Vocabulary.get_eq_ok.1 other_eq).symm.trans type_eq)
  split at refused
  · cases refused
  · rename_i plain
    rw [if_pos (named.resolve_left plain)] at refused
    split at refused
    · cases refused
    · exact reads (by simpa using refused)

/-- There are short tokens, the first of them of the given type, at which a leaf stands that
takes the first, wherever it stands. -/
def Grammar.Sampled (g : Grammar) (token : TokenTypeId) (id : ElementId) : Prop :=
  ∃ kind tokens opened text, g.kind? id = some kind ∧ kind.isLeaf = true ∧
    Cursor.ofTokens g.vocabulary tokens none = .ok opened ∧
    (∀ token ∈ tokens, token.offset + token.text.utf8ByteSize < TextRange.offsetLimit) ∧
    opened.input.token? 0 = some ⟨token, text, 0⟩ ∧
    ∀ (options : Options) (path : Path) (waved : Bool),
      (g.setting options false).takes opened.input path id kind waved 0 ≠ .ok false

theorem sampled_of_token (wellFormed : g.WellFormed) (ordinary : g.Ordinary version)
    (meaning : g.vocabulary.has TokenType.isTrivia token = false) {text : Option String}
    {flavor : Option Category} (stands : g.kind? id = some (.token token text flavor)) :
    g.Sampled token id := by
  have bound : token < g.vocabulary.types.size := wellFormed.placed id _ stands
  have known : ∀ other ∈ Kind.sample g.vocabulary (.token token text flavor) token,
      other.kind < g.vocabulary.types.size := by
    simp only [Kind.sample, List.mem_toArray, List.mem_cons, List.mem_map, Option.mem_toList]
    rintro other (rfl | ⟨parenthesis, left, rfl⟩)
    · exact bound
    · obtain ⟨type, type_eq, -⟩ := lookup?_eq_some left
      exact (Array.getElem?_eq_some_iff.1 type_eq).1
  have plain : ∀ other ∈ Kind.sample g.vocabulary (.token token text flavor) token,
      g.vocabulary.has TokenType.isTrivia other.kind = false := by
    simp only [Kind.sample, List.mem_toArray, List.mem_cons, List.mem_map, Option.mem_toList]
    rintro other (rfl | ⟨parenthesis, left, rfl⟩)
    · exact meaning
    · exact ordinary.parenthesis parenthesis left
  have short : ∀ other ∈ Kind.sample g.vocabulary (.token token text flavor) token,
      other.offset + other.text.utf8ByteSize < TextRange.offsetLimit := by
    simp only [Kind.sample, List.mem_toArray, List.mem_cons, List.mem_map]
    rintro other (rfl | ⟨parenthesis, -, rfl⟩)
    · cases text with
      | none => simp [TextRange.offsetLimit]
      | some text => simpa using ordinary.texts id token text flavor stands
    · show 0 + "(".utf8ByteSize < TextRange.offsetLimit
      decide
  -- The sample opens as an input, since all of its words are known and none of them is trivia.
  obtain ⟨opened, fresh⟩ := Cursor.exists_ofTokens known none
  have listed := Cursor.token?_of_plain fresh plain
  have first : opened.input.token? 0 = some ⟨token, text.getD "", 0⟩ := by
    rw [listed]
    simp [Kind.sample]
  have next : opened.input.token? 1 =
      g.vocabulary.leftParenthesis?.map fun type => ⟨type, "(", 0⟩ := by
    rw [listed]
    cases left : g.vocabulary.leftParenthesis? <;> simp [Kind.sample, left]
  refine ⟨_, _, opened, _, stands, rfl, fresh, short, first, fun options path waved => ?_⟩
  obtain ⟨-, unmarked, -⟩ := Cursor.ofTokens_eq_ok fresh
  have takes : (g.setting options false).tokenTakes opened.input path token text flavor 0 =
      .ok true := tokenTakes_sample bound unmarked first next
  simp only [Setting.takes, takes]
  exact fun different => by cases different

theorem sampled_of_identifier (meaning : g.vocabulary.has TokenType.isTrivia token = false)
    {use : NameUse} {isAlias : Bool} {object : Option String}
    (stands : g.kind? id = some (.identifier use isAlias object))
    (own : token ∈ FirstSets.ownTokens g id) : g.Sampled token id := by
  have bound : token < g.vocabulary.types.size := by
    simp only [FirstSets.ownTokens, stands, TokenSet.mem_ofList, Vocabulary.idsWhere,
      List.mem_filter, List.mem_range] at own
    exact own.1
  have type_eq : g.vocabulary.types[token]? = some g.vocabulary.types[token] :=
    Array.getElem?_eq_getElem bound
  have named := (FirstSets.mem_ownTokens_identifier stands type_eq).1 own
  have known : ∀ other ∈ (#[⟨token, "", 0⟩] : Array Token),
      other.kind < g.vocabulary.types.size := by
    simpa using bound
  obtain ⟨opened, fresh⟩ := Cursor.exists_ofTokens known none
  have listed := Cursor.token?_of_plain fresh (by simpa using meaning)
  refine ⟨_, _, opened, "", stands, rfl, fresh, by simp [TextRange.offsetLimit],
    by simp [listed], fun options path waved => ?_⟩
  obtain ⟨-, unmarked, -⟩ := Cursor.ofTokens_eq_ok fresh
  exact identifierTakes_sample unmarked type_eq named (by simp [listed]; rfl) (by simp [listed])

/-- For every leaf and every type of token it takes there is an input that it takes. -/
theorem sampled_of_mem_ownTokens (wellFormed : g.WellFormed) (ordinary : g.Ordinary version)
    (meaning : g.vocabulary.has TokenType.isTrivia token = false)
    (own : token ∈ FirstSets.ownTokens g id) : g.Sampled token id := by
  cases stands : g.kind? id with
  | none => simp [FirstSets.ownTokens, stands] at own
  | some kind =>
      cases kind with
      | token type text flavor =>
          obtain rfl : token = type := by simpa [FirstSets.ownTokens, stands] using own
          exact sampled_of_token wellFormed ordinary meaning stands
      | identifier use isAlias object => exact sampled_of_identifier meaning stands own
      | _ => simp [FirstSets.ownTokens, stands] at own

/-! ### Rejection -/

/-- In an ordinary grammar an element is matched at some token of every type with which a
match of it begins. -/
theorem not_rejects_of_beginsAt (wellFormed : g.WellFormed) (ordinary : g.Ordinary version)
    (meaning : g.vocabulary.has TokenType.isTrivia token = false) (bound : id < g.elements.size)
    (begins : g.BeginsAt version token id) : ¬ g.Rejects version token id := by
  intro rejects
  obtain ⟨leaf, way, own⟩ := begins
  obtain ⟨kind, tokens, opened, text, stands, isLeaf, fresh, fits, first, takes⟩ :=
    sampled_of_mem_ownTokens wellFormed ordinary meaning own
  obtain ⟨rfl, unmarked, start, -⟩ := Cursor.ofTokens_eq_ok fresh
  -- Depth to spare for every token.
  let options : Options :=
    ⟨version, true, g.elements.size * (opened.input.size + 1) + 1, none⟩
  let s := g.setting options false
  let p : Progress := ⟨opened, 0, true, [], none, g.blankMemo⟩
  have sound : p.Sound g opened.input :=
    ⟨rfl, by simp [p, start], Memo.blank_faithful g⟩
  have position : p.cursor.position = 0 := start
  have plain : (opened.input.cursorAt 0).atPlaceholder = false := by
    simp [Cursor.atPlaceholder, Input.cursorAt, Cursor.input, unmarked]
  have grasps : s.Grasps opened.input p.cursor.position id := by
    rw [position]
    refine ⟨leaf, kind, ?_, stands, isLeaf, takes options⟩
    refine ReflTransGen.mono (fun x y tries => ?_) id leaf way
    obtain ⟨other, standsThere, tried⟩ := tries
    exact ⟨other, standsThere, (tries_iff first plain rfl).2 tried⟩
  have stage : Stage s opened.input := stage_of_ofTokens wellFormed fresh false
  have inside : Path.Inside g [] := fun frame none => absurd none List.not_mem_nil
  have spare : p.depth + g.elements.size * (opened.input.size + 1 - p.cursor.position) <
      options.maxDepth := by
    rw [position]
    exact Nat.lt_succ_of_le (Nat.le_of_eq (Nat.zero_add _))
  have matched := run_grasps stage ordinary.acyclic rfl bound inside sound ⟨rfl, rfl⟩ spare grasps
  have current_eq : p.cursor.current? = some ⟨token, text, 0⟩ := by
    rw [sound.current_eq, position, first]
  have ordinaryToken : p.cursor.atPlaceholder = false := by
    rw [sound.placeholder_eq, position, plain]
  have refused := rejects options false opened.tokens opened [] p _ rfl fresh inside sound
    current_eq rfl ordinaryToken
  obtain ⟨outcome, q, ran, isMatch⟩ := matched.exists_ok fits
  obtain ⟨other, r, ranToo, none, -⟩ := refused.exists_ok fits
  cases ran.symm.trans ranToo
  rw [none] at isMatch
  cases isMatch

/-- **When a first set loses a match.**  In an accepted grammar an element that is entered
at a token outside its first set comes to nothing, if nothing is overlooked in the version
of the parse.  If the grammar is ordinary otherwise, that is the exact condition: where a
slot is overlooked, some parse takes the token. -/
theorem rejects_iff [Alphabet] (built : Grammar.ofRules vocabulary rules root = .ok g)
    (version : Nat)
    (bound : id < g.elements.size) (unexpected : token ∉ (FirstSets.ofElement g id).possible) :
    (¬ g.Overlooks version token id → g.Rejects version token id) ∧
      (g.Ordinary version → g.vocabulary.has TokenType.isTrivia token = false →
        (g.Rejects version token id ↔ ¬ g.Overlooks version token id)) := by
  have wellFormed := Grammar.ofRules_wellFormed built
  have sound : ¬ g.Overlooks version token id → g.Rejects version token id := by
    intro clear
    refine rejects_of_not_beginsAt wellFormed bound fun begins => ?_
    rcases Grammar.begins_or_overlooks wellFormed bound begins with expected | overlooked
    · exact unexpected expected
    · exact clear overlooked
  refine ⟨sound, fun ordinary meaning => ⟨fun rejects overlooked => ?_, sound⟩⟩
  exact not_rejects_of_beginsAt wellFormed ordinary meaning bound overlooked.beginsAt rejects

/-- A rule with a token that only later versions have before one that all have. -/
def lateHeadRules : List Rule :=
  [⟨"r", .sequence [⟨.token "A" none none, false, 5⟩, .required (.token "B" none none)]⟩]

/-- The grammar of that rule. -/
def lateHead : Grammar where
  vocabulary := ⟨"test", #[.keyword "A" "a", .keyword "B" "b"]⟩
  elements := #[
    ⟨0, "r", some "r", none, .sequence [⟨1, false, 5⟩, .required 2]⟩,
    ⟨1, "r#1", none, some 0, .token 0 none none⟩,
    ⟨2, "r#2", none, some 0, .token 1 none none⟩]
  rules := [("r", 0)]
  root := 0

theorem lateHead_built : Grammar.ofRules lateHead.vocabulary lateHeadRules none = .ok lateHead := by
  with_unfolding_all rfl

theorem lateHead_ordinary : lateHead.Ordinary 1 where
  acyclic := by
    refine (Grammar.ofRules_wellFormed lateHead_built).not_reentersAt_of_direct fun x y leads => ?_
    obtain ⟨element, found, refers⟩ := Option.map_eq_some_iff.1 (Grammar.target?_eq_some.1 leads)
    have direct : ∀ element ∈ lateHead.elements, element.kind.isLeaf = true ∨
        element.kind = .sequence [⟨1, false, 5⟩, .required 2] := by
      decide
    rcases direct element (Array.mem_of_getElem? found) with leaf | composite
    · rw [refers] at leaf
      cases leaf
    · rw [refers] at composite
      cases composite
  parenthesis := by decide +kernel
  texts := by
    intro id type text flavor stands
    obtain ⟨element, found, same⟩ := Option.map_eq_some_iff.1 stands
    have plain : ∀ element ∈ lateHead.elements, ∀ type text flavor,
        element.kind ≠ .token type (some text) flavor := by
      simp [lateHead]
    exact absurd same (plain element (Array.mem_of_getElem? found) type text flavor)

/-- In version 1 the rule takes a token that is not in its first set. -/
theorem lateHead_not_rejects :
    Grammar.ofRules lateHead.vocabulary lateHeadRules none = .ok lateHead ∧
      1 ∉ (FirstSets.ofElement lateHead 0).possible ∧ ¬ lateHead.Rejects 1 1 0 := by
  have unexpected : 1 ∉ (FirstSets.ofElement lateHead 0).possible := by decide +kernel
  have passes : lateHead.PassesOver 1 0 2 := ⟨_, rfl, by decide⟩
  have overlooks : lateHead.Overlooks 1 1 0 := ⟨0, 2, .refl, passes, 2, .refl, by decide⟩
  have exactly := (rejects_iff lateHead_built 1 (by decide) unexpected).2 lateHead_ordinary
    (by decide)
  exact ⟨lateHead_built, unexpected, fun rejects => exactly.1 rejects overlooks⟩

end Dialect
