import Dialect.Proofs.Matching.Delimiters

/-!
# The delimiters of a wrapper are counted

What a wrapper comes to is followed step by step where the numbers of its delimiters are known
(`Input.Delimited`), whatever its content comes to.  What has been opened is closed as far as there
are closing delimiters (`close_exact`), so all that counts of the content is whether it was complete
(`balanced_exact`).
-/

set_option autoImplicit false

namespace Dialect

/-- From a position on the input has `k` tokens that suit `b` and no more, `n` tokens of which
nothing else is said, and behind them `m` tokens that suit `c`, and no more if these are fewer than
the first. -/
structure Input.Delimited (input : Input) (b c : TokenTypeId) (first k n m : Nat) : Prop where
  opens : ∀ j < k, input.Suits b (first + j)
  begins : ¬ input.Suits b (first + k)
  closes : ∀ j < m, input.Suits c (first + k + n + j)
  ends : m < k → ¬ input.Suits c (first + k + n + m)

/-- The events of a wrapper with `k` opening and `m` closing delimiters around `n` tokens of
content, and what is recorded behind them. -/
def Input.wrapped (input : Input) (id opening closing : ElementId) (first k n m : Nat)
    (middle tail : List Event) : List Event :=
  input.node id first
    (input.leaves opening k first ++ middle ++ (input.leaves closing m (first + k + n) ++ tail))

/-- Delimiters are no diagnostics. -/
theorem clean_wrapped {input : Input} {id opening closing : ElementId} {first k n m : Nat}
    {middle tail : List Event} (inside : Clean middle) (behind : Clean tail) :
    Clean (input.wrapped id opening closing first k n m middle tail) :=
  (((clean_leaves k first).append inside).append ((clean_leaves m _).append behind)).node input id
    first

/-- The diagnostic with the place where something was opened. -/
def Diagnostic.openedAt (found : Diagnostic) (range : TextRange) : Diagnostic :=
  { found with related := [⟨"opened here", range⟩] }

/-- What is recorded where closing delimiters run out: nothing if the content was incomplete, as
that was reported. -/
inductive RunsOut (s : Setting) (input : Input) (closing : ElementId) (position : Nat)
    (range : TextRange) : Bool → List Event → Prop
  | report {found} (missing : Missing s input .E0203 closing position found) :
      RunsOut s input closing position range true [.diagnostic (found.openedAt range)]
  | silent : RunsOut s input closing position range false []

/-- A missing delimiter is reported under its own code wherever it is missing, and alone. -/
theorem Missing.unrelated {s : Setting} {input : Input} {code : DiagnosticCode} {id : ElementId}
    {position : Nat} {found : Diagnostic} (missing : Missing s input code id position found)
    (structural : code.isStructural = true) : found.code = code ∧ found.related = [] := by
  unfold Missing Cursor.missing at missing
  obtain ⟨range, -, missing⟩ := bind_eq_ok.1 missing
  obtain ⟨expected, -, missing⟩ := bind_eq_ok.1 missing
  cases current : (input.cursorAt position).current? with
  | some token =>
      simp only [current] at missing
      obtain ⟨hint, -, missing⟩ := bind_eq_ok.1 missing
      obtain rfl := pure_eq_ok.1 missing
      exact ⟨rfl, rfl⟩
  | none =>
      simp only [current] at missing
      obtain rfl := pure_eq_ok.1 missing
      exact ⟨if_pos structural, rfl⟩

/-- What a repeated wrapper comes to of which the content is complete or not. -/
inductive Counted (s : Setting) (input : Input) (id opening closing : ElementId) (before : Cursor)
    (k n m : Nat) (complete : Bool) (middle : List Event) (last : Progress) :
    Outcome → Progress → Prop
  | closed (enough : k ≤ m) :
      Counted s input id opening closing before k n m complete middle last
        (Tally.outcome ⟨k + n + k, complete⟩) (last.moveTo (before.extend (k + n + k)
          (input.wrapped id opening closing before.position k n k middle [])))
  | runsOut {range tail} (few : m < k)
      (innermost : (input.cursorAt (before.position + k - 1 - m)).currentRange = .ok range)
      (left : RunsOut s input closing (before.position + k + n + m) range complete tail) :
      Counted s input id opening closing before k n m complete middle last
        (.partialMatch (k + n + m)) (last.moveTo (before.extend (k + n + m)
          (input.wrapped id opening closing before.position k n m middle tail)))

section Wrapper

open Matcher

variable {s : Setting} {input : Input} {id opening closing : ElementId} {slot : Slot ElementId}
  {b c : TokenTypeId} {outer : Path} {p last : Progress} {k n m levels : Nat} {middle : List Event}
  (stage : Stage s input)

include stage

/-- A closing delimiter that is missing is reported with the place of the opening one. -/
theorem unclosed_exact (sound : p.Sound s.grammar input) (bound : closing < s.grammar.elements.size)
    (range : TextRange) :
    Ensures (Excused s.grammar input []) (unclosed s closing range) p fun _ q =>
      ∃ found, Missing s input .E0203 closing p.cursor.position found ∧
        q = p.moveTo (p.cursor.extend 0 [.diagnostic (found.openedAt range)]) := by
  have same : p.cursor.missing s.grammar .E0203 closing =
      (input.cursorAt p.cursor.position).missing s.grammar .E0203 closing := by
    rw [← sound.reads]
    rfl
  unfold unclosed expected
  rw [bind_assoc]
  refine ensures_bind_of_ok cursor_eq ?_
  rw [bind_assoc, same]
  refine ensures_bind_check (raises_missing stage bound _ _) fun found missing => ?_
  refine ensures_bind_of_ok (move_eq (Cursor.report_eq found)) ?_
  have annotated := Cursor.annotate_eq p.cursor 0 [] ⟨"opened here", range⟩ found
  have alone : found.related = [] := (Missing.unrelated missing rfl).2
  refine ensures_of_ok (move_eq annotated) ⟨found, missing, ?_⟩
  rw [Diagnostic.openedAt, alone, List.nil_append]
  rfl

omit stage in
/-- A wrapper is completed with the closing delimiters that were taken. -/
theorem complete_wrapped (id closing : ElementId) (sound : p.Sound s.grammar input)
    (added : last.cursor = p.cursor.marked.extend (k + n)
      (input.leaves opening k p.cursor.position ++ middle)) (count : Nat) (tail : List Event) :
    (liftM (Cursor.complete p.cursor.place id) : Matcher Unit) (last.moveTo (last.cursor.extend count
        (input.leaves closing count last.cursor.position ++ tail))) =
      .ok () (last.moveTo (p.cursor.extend (k + n + count)
        (input.wrapped id opening closing p.cursor.position k n count middle tail))) := by
  have here : last.cursor.position = p.cursor.position + k + n := by
    rw [added, Cursor.extend_position, ← Nat.add_assoc]
    rfl
  rw [here]
  refine Progress.complete_eq sound ?_ id
  rw [Progress.moveTo, added, Cursor.extend_extend]

/-- **What has been opened is closed as far as there are closing delimiters.**  If there are too
few and the content was complete, the next one is reported missing, with the innermost place that
stays open. -/
theorem close_exact (sound : p.Sound s.grammar input) (quiet : p.failure = none)
    (free : s.Open p.depth) {frame : Frame}
    (delimiter : s.grammar.Delimiter closing c) (opened : List TextRange) (tokens : Nat)
    (complete : Bool) (closes : ∀ j < m, input.Suits c (p.cursor.position + j))
    (ends : m < opened.length → ¬ input.Suits c (p.cursor.position + m)) :
    Ensures (Excused s.grammar input [])
      (close s (matchElement s (levels + 1)) (frame :: outer) closing opened ⟨tokens, complete⟩) p
      fun tally q =>
        opened.length ≤ m ∧ tally = ⟨tokens + opened.length, complete⟩ ∧
          q = p.taking input closing opened.length ∨
        ∃ range tail, opened[m]? = some range ∧
          RunsOut s input closing (p.cursor.position + m) range complete tail ∧
            tally = ⟨tokens + m, false⟩ ∧
              q = p.moveTo (p.cursor.extend m
                (input.leaves closing m p.cursor.position ++ tail)) := by
  unfold close
  refine ensures_bind_of_ok (closeAll_takes stage.wellFormed quiet free sound.reads delimiter
    opened closes ends) ?_
  rcases Nat.lt_or_ge m opened.length with few | enough
  · obtain ⟨range, others, left⟩ : ∃ range others, opened.drop m = range :: others :=
      ⟨opened[m], _, List.drop_eq_getElem_cons few⟩
    have innermost : opened[m]? = some range := by
      rw [← List.head?_drop, left]
      rfl
    rw [left, Nat.min_eq_right (Nat.le_of_lt few)]
    cases complete with
    | false =>
        refine ensures_pure (.inr ⟨range, [], innermost, .silent, rfl, ?_⟩)
        rw [List.append_nil, Progress.taking]
    | true =>
        have taken : (p.taking input closing m).Sound s.grammar input := sound.taking closing closes
        refine ensures_bind (unclosed_exact stage taken
          (Grammar.lt_of_kind?_eq_some delimiter.stands) range) ?_
        rintro _ q ⟨found, missing, rfl⟩
        refine ensures_pure (.inr ⟨range, _, innermost, .report missing, rfl, ?_⟩)
        simp only [Progress.taking, Progress.moveTo, Cursor.extend_extend, Nat.add_zero]
  · rw [List.drop_eq_nil_of_le enough, Nat.min_eq_left enough]
    exact ensures_pure (.inl ⟨enough, rfl, rfl⟩)

variable (sound : p.Sound s.grammar input) (quiet : p.failure = none) (free : s.Open p.depth)
  (begins : s.grammar.Delimiter opening b) (ends : s.grammar.Delimiter closing c)

include sound quiet free begins ends

/-- **The delimiters of a repeated wrapper are counted**, whatever its content comes to where the
opening ones end. -/
theorem balanced_exact {calm : Prop} {complete : Bool} {holds : List Event → Prop}
    (delimited : input.Delimited b c p.cursor.position k n m) (positive : 1 ≤ k)
    (contained : Ensures (Excused s.grammar input [])
      (content s (matchElement s (levels + 1)) (outer.enter id) slot >>= addContent s slot k)
      (p.marked.taking input opening k) fun tally last => tally = ⟨k + n, complete⟩ ∧
        last.failure = none ∧ ∃ middle, holds middle ∧
          Proceeds s.grammar calm (p.marked.taking input opening k) n middle last) :
    Ensures (Excused s.grammar input [])
      (balanced s (matchElement s (levels + 1)) (outer.enter id) id opening slot closing) p
      fun outcome q => ∃ middle last, holds middle ∧ last.failure = none ∧ last.depth = p.depth ∧
        Counted s input id opening closing p.cursor k n m complete middle last outcome q := by
  have soundOpened : (p.marked.taking input opening k).Sound s.grammar input :=
    sound.marked.taking opening delimited.opens
  have room : k < input.size - p.cursor.position + 1 := by
    have inside := soundOpened.inside
    have here : (p.marked.taking input opening k).cursor.position = p.cursor.position + k := rfl
    omega
  unfold balanced
  refine ensures_mark (ensures_bind_of_ok cursor_eq ?_)
  rw [sound.marked.remaining_eq]
  refine ensures_bind (openAll_takes (p := p.marked) stage.wellFormed quiet free sound.reads
    begins delimited.opens delimited.begins room []) ?_
  rintro ranges q ⟨rfl, taken, rfl, length, places⟩
  have opened : taken.isEmpty = false := by
    rw [List.isEmpty_eq_false_iff, ← List.length_pos_iff, length]
    exact positive
  rw [List.append_nil, opened, length]
  simp only [Bool.false_eq_true, if_false]
  rw [← bind_assoc]
  refine ensures_bind contained ?_
  rintro _ last ⟨rfl, silent, middle, held, moved⟩
  have added : last.cursor = p.cursor.marked.extend (k + n)
      (input.leaves opening k p.cursor.position ++ middle) := by
    rw [moved.cursor, Progress.taking, Progress.moveTo, Cursor.extend_extend]
    rfl
  have here : last.cursor.position = p.cursor.position + k + n := by
    rw [added, Cursor.extend_position, ← Nat.add_assoc]
    rfl
  have depth : last.depth = p.depth := moved.keeps.depth
  refine ensures_bind (close_exact stage (moved.sound soundOpened) silent (depth ▸ free) ends
    taken (k + n) complete (here ▸ delimited.closes) fun few => here ▸ delimited.ends (length ▸ few)) ?_
  -- Either all that was opened is closed, or the input has run out at the innermost one.
  rintro tally q (⟨enough, rfl, rfl⟩ | ⟨range, tail, innermost, left, rfl, rfl⟩)
  · rw [length] at enough ⊢
    have done := complete_wrapped id closing sound added k []
    rw [List.append_nil] at done
    exact ensures_bind_of_ok done (ensures_pure ⟨middle, last, held, silent, depth, .closed enough⟩)
  · have few : m < k := length ▸ (List.getElem?_eq_some_iff.1 innermost).1
    rw [here] at left
    exact ensures_bind_of_ok (complete_wrapped id closing sound added m tail) (ensures_pure
      ⟨middle, last, held, silent, depth, .runsOut few (places m range innermost) left⟩)

end Wrapper

section Element

open Matcher

variable {s : Setting} {input : Input} {id opening closing : ElementId} {slot : Slot ElementId}
  {b c : TokenTypeId} {outer : Path} {p : Progress} {k n m levels : Nat}

/-- A wrapper that may be entered comes to what it comes to inside. -/
theorem ensures_counted (outer : Path) {kind : Kind ElementId} (stands : s.grammar.kind? id = some kind)
    (quiet : p.failure = none) (free : s.Open p.depth) {complete : Bool} {holds : List Event → Prop}
    (inner : Ensures (Excused s.grammar input [])
      (matchKind s (matchElement s levels) id (outer.enter id) kind) p.entered
      fun outcome q => ∃ middle last, holds middle ∧ last.failure = none ∧
        last.depth = p.entered.depth ∧
          Counted s input id opening closing p.entered.cursor k n m complete middle last outcome q) :
    Ensures (Excused s.grammar input []) (matchElement s (levels + 1) id outer) p fun outcome q =>
      ∃ middle last, holds middle ∧ last.failure = none ∧
        Counted s input id opening closing p.cursor k n m complete middle last outcome q := by
  obtain ⟨element, found, kind_eq⟩ := element_of_kind? stands
  have entered := matchElement_entered quiet free found levels outer
  rw [kind_eq] at entered
  unfold Ensures
  rw [entered]
  refine ensures_bind inner ?_
  rintro outcome q ⟨middle, last, held, silent, depth, counted⟩
  have deeper : q.depth = p.depth + 1 := by cases counted <;> exact depth
  refine ensures_bind_of_ok (leave_eq deeper)
    (ensures_pure ⟨middle, { last with depth := p.depth }, held, silent, ?_⟩)
  cases counted with
  | closed enough => exact .closed enough
  | runsOut few innermost left => exact .runsOut few innermost left

end Element

end Dialect
