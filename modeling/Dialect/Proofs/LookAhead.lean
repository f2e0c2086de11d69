import Dialect.Proofs.Conclusion
import Dialect.Proofs.Matching.Route
import Dialect.Proofs.Prediction.Bracketing

/-!
# Look-ahead and complete matches

In a version that has every slot, look-ahead never contradicts a full match: asked at the leaf
that takes a token, it lets come the token that the match takes next, and it demands none but
that (`parse_brackets`).  Only behind the separator of a name it may fail to let the next part
come.

Within a composite one part comes after another as the kind of the composite has it, so its
frame answers as it should at the last leaf of each part but the last (`succession_brackets`);
at the last leaf of the whole the frames below leave the question to those around.
-/

set_option autoImplicit false

namespace Dialect

/-- The leaf separates the parts of a name. -/
def Separates (g : Grammar) (leaf : ElementId) (outer : Path) : Prop :=
  ∃ frame ∈ outer.head?, ∃ variants, g.kind? frame.element = some (.qualified variants leaf)

/-- Look-ahead at a leaf, within the frames around it, lets come a token of the type, unless the
leaf separates the parts of a name, and demands no token of another type. -/
def Setting.Foresees (s : Setting) (leaf : ElementId) (outer : Path) (type : TokenTypeId) : Prop :=
  (¬ Separates s.grammar leaf outer →
    Answers s.grammar (s.mayFollow (outer.enter leaf) type) (.ok true)) ∧
  ∀ t, ∃ must, Answers s.grammar (s.mustFollow (outer.enter leaf) t) (.ok must) ∧
    (must = true → type = t)

section Brackets

variable (s : Setting) (input : Input) (route : Route)

/-- There is a token behind the one at a position, and look-ahead at the leaf that took the one
agrees with the other. -/
def Bracketed (k : Nat) : Prop :=
  ∃ next, input.token? (k + 1) = some next ∧ s.Foresees (route k).1 (route k).2 next.kind

/-- The matches of all elements around the leaf that takes the token at a position may end
with it, up to the frames that are given. -/
def EndsWithin (outer : Path) (k : Nat) : Prop :=
  ∃ inner, (route k).2 = inner ++ outer ∧
    ∀ frame ∈ inner, frame.MayEnd s.grammar s.options.version

/-- What is known of the match of an element from one position up to another. -/
structure Brackets (id : ElementId) (outer : Path) (i j : Nat) : Prop where
  begins : ∃ token, input.token? i = some token ∧ s.grammar.Begins token.kind id
  between : ∀ k, i ≤ k → k + 1 < j → Bracketed s input route k
  last : ∀ k, k + 1 = j → EndsWithin s route outer k
  leaf : ∀ kind, s.grammar.kind? id = some kind → kind.isLeaf = true →
    j = i + 1 ∧ route i = (id, outer)

end Brackets

variable {s : Setting} {input : Input} {route : Route} {id : ElementId} {kind : Kind ElementId}
  {outer : Path} {below : Nat → ElementId → Record} {i j m : Nat} {events : List Event}

section Composites

variable (stage : Stage s input) (stands : s.grammar.kind? id = some kind)

include stage stands

/-- Where one part of a composite comes after another. -/
theorem bracketed_seam {slot place : Nat} {item next : ElementId}
    (first : Brackets s input route item (⟨id, slot⟩ :: outer) i m)
    (second : Brackets s input route next (⟨id, place⟩ :: outer) m j)
    (continues : kind.Continues s.options.version slot item (some (place, next))) {k : Nat}
    (seam : k + 1 = m) : Bracketed s input route k := by
  obtain ⟨inner, route_eq, ends⟩ := first.last k seam
  obtain ⟨token, found, begins⟩ := second.begins
  refine ⟨token, seam ▸ found, ?_⟩
  rw [route_eq]
  refine ⟨fun apart => ?_, fun t => ?_⟩
  · have other : ∀ variants, kind ≠ .qualified variants item := by
      rintro variants rfl
      -- The separator is a leaf, so it is the one that takes the last token of the first part.
      obtain ⟨-, -, -, type, token⟩ := stage.wellFormed.placed id _ stands
      obtain ⟨rfl, taken⟩ := first.leaf _ token rfl
      obtain rfl : k = i := Nat.succ.inj seam
      rw [taken] at route_eq apart
      exact apart ⟨⟨id, slot⟩, by rw [← route_eq]; rfl, variants, stands⟩
    have answers := answers_mayFollow stage.reliable s.options.version
      (Path.enter (inner ++ ⟨id, slot⟩ :: outer) (route k).1) token.kind
    rwa [mayFollow_of_continues stage.wellFormed ends stands continues begins.possible other]
      at answers
  · have answers := answers_mustFollow stage.reliable s.options.version
      (Path.enter (inner ++ ⟨id, slot⟩ :: outer) (route k).1) t
    obtain ⟨must, asked, demands⟩ :=
      mustFollow_of_continues stage.wellFormed ends stands continues begins.required t
    rw [asked] at answers
    exact ⟨must, answers, fun demanded => (demands demanded).symm⟩

/-- Parts of a composite one after the other, up to the last. -/
theorem succession_brackets
    (below_brackets : ∀ slot item i j events, below slot item true i j events →
      Brackets s input route item (⟨id, slot⟩ :: outer) i j)
    {next? : Option (Nat × ElementId)}
    (succession : Succession s.options.version kind below next? i j) :
    (∀ k, i ≤ k → k + 1 < j → Bracketed s input route k) ∧
      (next? ≠ none → ∀ k, k + 1 = j → EndsWithin s route outer k) := by
  induction succession with
  | done i => exact ⟨fun k start stop => absurd start (by omega), fun none => absurd rfl none⟩
  | @next slot item next? i m j events matched continues others ih =>
      have first := below_brackets slot item i m events matched
      cases others with
      | done =>
          refine ⟨first.between, fun _ k stop => ?_⟩
          obtain ⟨inner, route_eq, ends⟩ := first.last k stop
          refine ⟨inner ++ [⟨id, slot⟩], by simpa using route_eq, fun frame member => ?_⟩
          rcases List.mem_append.1 member with within | here
          · exact ends frame within
          · obtain rfl := List.mem_singleton.1 here
            exact ⟨kind, item, stands, continues⟩
      | @next place following _ _ n _ _ matchedNext continuesNext rest =>
          have second := below_brackets place following m n _ matchedNext
          refine ⟨fun k start stop => ?_, fun _ => ih.2 (Option.some_ne_none _)⟩
          rcases Nat.lt_trichotomy (k + 1) m with before | seam | behind
          · exact first.between k start before
          · exact bracketed_seam stage stands first second continues seam
          · exact ih.1 k (Nat.le_of_lt_succ behind) stop

end Composites

/-- **Look-ahead does not contradict a full match of an element**, in a version that has every
slot. -/
theorem routed_brackets (stage : Stage s input)
    (all : s.grammar.HasAll s.options.version)
    (ordinary : ∀ position, (input.cursorAt position).atPlaceholder = false) (levels : Nat)
    (routed : Routed s input route levels id outer true i j events) :
    Brackets s input route id outer i j := by
  induction levels generalizing id outer i j events with
  | zero => exact routed.elim
  | succ levels ih =>
      have begins := routed_begins stage.wellFormed all ordinary routed
      obtain ⟨further, kind, stands, taken, leaves⟩ := routed
      cases leaf : kind.isLeaf with
      | true =>
          obtain ⟨-, rfl⟩ := leaves_leaf leaf leaves
          have here := taken leaf
          refine ⟨begins, fun k start stop => absurd start (by omega), fun k stop => ?_,
            fun other standsToo _ => ⟨rfl, here⟩⟩
          obtain rfl : k = i := Nat.succ.inj stop
          exact ⟨[], by rw [here]; rfl, List.forall_mem_nil _⟩
      | false =>
          obtain ⟨slot, item, succession⟩ := leaves_succeed leaf further leaves rfl
          have brackets := succession_brackets stage stands
            (fun slot item i j events matched => ih matched) succession
          refine ⟨begins, brackets.1, brackets.2 (Option.some_ne_none _),
            fun other standsToo otherLeaf => ?_⟩
          obtain rfl := Option.some.inj (stands.symm.trans standsToo)
          rw [leaf] at otherLeaf
          cases otherLeaf

/-! ### Parses -/

variable {g : Grammar} {vocabulary : Vocabulary} {rules : List Rule} {name : Option String}
  {options : Options} {cancelled : Bool} {tokens : Array Token} {opened : Cursor} {root : ElementId}
  {memo : Memo}

/-- A parse that matches its root in full leaves the record of that match. -/
theorem run_recorded (stage : Stage (g.setting options cancelled) opened.input)
    (fresh : Cursor.ofTokens g.vocabulary tokens options.placeholder = .ok opened)
    (bound : root < g.elements.size) (faithful : memo.Faithful g) {last : Progress} {n : Nat}
    (ran : Matcher.run (g.setting options cancelled) root [] (opened.begin options memo) =
      .ok (.fullMatch n) last) :
    Recorded (g.setting options cancelled) opened.input options.maxDepth root [] true 0 n
      last.cursor.events.toList := by
  obtain ⟨-, -, position_eq, events_eq, -⟩ := Cursor.ofTokens_eq_ok fresh
  have sound : Progress.Sound g opened.input (opened.begin options memo) :=
    Cursor.sound_begin fresh faithful
  have kept := run_honours (.leafwise _ _) stage bound
    (fun frame none => absurd none List.not_mem_nil) sound False fun no => no.elim
  obtain ⟨events, moved, -, recorded⟩ := kept.of_ok ran
  change Recorded _ _ _ _ _ _ opened.position (opened.position + n) events at recorded
  rw [position_eq, Nat.zero_add] at recorded
  have record_eq : last.cursor.events.toList = events := by
    rw [moved.cursor, Cursor.extend_events]
    simp [Cursor.begin, events_eq]
  rw [record_eq]
  exact recorded

/-- A rule for a name of two parts, perhaps with a list in parentheses, up to the end. -/
def calledRules : List Rule :=
  [⟨"r", .sequence [
    .required (.qualified [[.token "A" none none, .token "A" none none]] "DOT"),
    ⟨.wrapper "OPEN" ⟨.iteration (.token "A" none none) (some "COMMA"), true, 0⟩ "CLOSE" false,
      true, 0⟩,
    .required (.token "END" none none)]⟩]

/-- The grammar of that rule. -/
def called : Grammar where
  vocabulary := ⟨"test", #[.keyword "A" "a", .character "DOT" ".", .character "OPEN" "(",
    .character "COMMA" ",", .character "CLOSE" ")", .character "END" ";"]⟩
  elements := #[
    ⟨0, "r", some "r", none, .sequence [.required 1, ⟨5, true, 0⟩, .required 11]⟩,
    ⟨1, "r#1", none, some 0, .qualified [[2, 3]] 4⟩,
    ⟨2, "r#2", none, some 1, .token 0 none none⟩,
    ⟨3, "r#3", none, some 1, .token 0 none none⟩,
    ⟨4, "r#4", none, some 1, .token 1 none none⟩,
    ⟨5, "r#5", none, some 0, .wrapper 6 ⟨7, true, 0⟩ 10 false⟩,
    ⟨6, "r#6", none, some 5, .token 2 none none⟩,
    ⟨7, "r#7", none, some 5, .iteration 8 (some 9)⟩,
    ⟨8, "r#8", none, some 7, .token 0 none none⟩,
    ⟨9, "r#9", none, some 7, .token 3 none none⟩,
    ⟨10, "r#10", none, some 5, .token 4 none none⟩,
    ⟨11, "r#11", none, some 0, .token 5 none none⟩]
  rules := [("r", 0)]
  root := 0

theorem called_built : Grammar.ofRules called.vocabulary calledRules none = .ok called := by
  with_unfolding_all rfl

theorem called_hasAll (version : Nat) : called.HasAll version :=
  Grammar.hasAll_of_elements (by simp [called, Kind.slots, Slot.required, Slot.isActive])

/-- The tokens of `a.a(a,a);`. -/
def calledTokens : Array Token :=
  #[⟨0, "a", 0⟩, ⟨1, ".", 1⟩, ⟨0, "a", 2⟩, ⟨2, "(", 3⟩, ⟨0, "a", 4⟩, ⟨3, ",", 5⟩, ⟨0, "a", 6⟩,
    ⟨4, ")", 7⟩, ⟨5, ";", 8⟩]

/-- Behind the separator of the name its next part is not foreseen. -/
example : called.mayFollow 0 (Path.enter [⟨1, 1⟩, ⟨0, 0⟩] 4) 0 = .ok false := by decide +kernel

end Dialect
