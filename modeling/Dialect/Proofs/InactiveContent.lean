import Mathlib.Data.Nat.Find
import Dialect.Proofs.Matching.Counting
import Dialect.Proofs.Matching.Run
import Dialect.Proofs.Prediction.Bracketing

/-!
# Wrappers whose content the version does not have

A plain wrapper passes over content that is not active, and so does look-ahead, for plain and for
repeated wrappers alike.  A repeated wrapper takes such content for content that is not there, and
reports it missing if it is required (`wrapper_passes`).
-/

set_option autoImplicit false

namespace Dialect

/-! ### Look-ahead -/

section Following

variable {g : Grammar} {version : Nat} {id opening closing : ElementId} {slot : Slot ElementId}
  {repeated : Bool} {type : TokenTypeId}

/-- Behind the opening delimiter the closing one may come at once if the content is not active. -/
theorem mayFollow_of_inactive (wellFormed : g.WellFormed)
    (stands : g.kind? id = some (.wrapper opening slot closing repeated))
    (ends : g.Delimiter closing type) (inactive : slot.isActive version = false) (outer : Path) :
    g.mayFollow version (Path.enter (outer.enter id) opening) type = .ok true := by
  have between : ∀ frame ∈ ([] : Path), frame.MayEnd g version := nofun
  exact mayFollow_of_continues wellFormed between stands (.leave (.inl inactive))
    ((FirstSets.mem_possible_of_token wellFormed ends.stands).2 rfl) nofun

end Following

/-! ### Matching -/

/-- What a repeated wrapper records of content that is not active. -/
inductive Absent (s : Setting) (input : Input) (slot : Slot ElementId) (position : Nat) :
    List Event → Prop
  | leave (optional : slot.optional = true) : Absent s input slot position []
  | miss {found} (required : slot.optional = false)
      (missing : MissingHere s input slot.item position found) :
      Absent s input slot position [.diagnostic found]

section Matching

open Matcher

variable {s : Setting} {input : Input} {id opening closing : ElementId} {slot : Slot ElementId}
  {b c : TokenTypeId} {outer : Path} {p : Progress} {k levels : Nat} (stage : Stage s input)
  (sound : p.Sound s.grammar input) (quiet : p.failure = none)
  (inactive : slot.isActive s.options.version = false)

include stage sound quiet inactive

/-- A plain wrapper is complete without content that is not active. -/
theorem wrapper_exact (free : s.Open p.depth) (begins : s.grammar.Delimiter opening b)
    (ends : s.grammar.Delimiter closing c) (opens : input.Suits b p.cursor.position)
    (closes : input.Suits c (p.cursor.position + 1)) :
    Ensures (Excused s.grammar input [])
      (wrapper s (matchElement s (levels + 1)) (outer.enter id) id opening slot closing) p
      fun outcome q => ∃ middle last, middle = [] ∧ last.failure = none ∧ last.depth = p.depth ∧
        Counted s input id opening closing p.cursor 1 0 1 true middle last outcome q := by
  have first : ∀ j < 1, input.Suits b (p.marked.cursor.position + j) := by
    intro j before
    obtain rfl := Nat.lt_one_iff.1 before
    exact opens
  have soundOpened : (p.marked.taking input opening 1).Sound s.grammar input :=
    sound.marked.taking opening first
  have taken : matchElement s (levels + 1) opening (outer.enter id) p.marked =
      .ok (.fullMatch 1) (p.marked.taking input opening 1) := by
    rw [Progress.taking, Input.leaves, Input.leaves, List.append_nil]
    exact delimiter_taken (p := p.marked) begins quiet free levels _ stage.wellFormed sound.reads opens
  have once : ∀ j < 1, input.Suits c ((p.marked.taking input opening 1).cursor.position + j) := by
    intro j before
    obtain rfl := Nat.lt_one_iff.1 before
    exact closes
  unfold wrapper
  refine ensures_mark (ensures_bind_of_ok cursor_eq ?_)
  rw [sound.marked.range_eq]
  refine ensures_bind_check (raises_currentRange input _) fun range _ => ?_
  refine ensures_bind_of_ok taken ?_
  simp only [Outcome.isMatch, Bool.not_true, Bool.false_eq_true, if_false, inactive]
  refine ensures_bind_of_ok
    (rfl : _ = EStateM.Result.ok (⟨1, true⟩ : Tally) (p.marked.taking input opening 1)) ?_
  refine ensures_bind (close_exact stage soundOpened quiet free ends [range] 1 true once
    fun few => absurd few (Nat.lt_irrefl 1)) ?_
  rintro tally q (⟨-, rfl, rfl⟩ | ⟨_, _, innermost, -⟩)
  · have added : (p.marked.taking input opening 1).cursor = p.cursor.marked.extend (1 + 0)
        (input.leaves opening 1 p.cursor.position ++ []) := by
      rw [List.append_nil]
      rfl
    have done := complete_wrapped id closing sound added 1 []
    rw [List.append_nil] at done
    exact ensures_bind_of_ok done (ensures_pure ⟨[], _, rfl, quiet, rfl, .closed (Nat.le_refl 1)⟩)
  · cases innermost

/-- A repeated wrapper takes content that is not active for content that is not there. -/
theorem content_absent (delimiters : ∀ j < k, input.Suits b (p.cursor.position + j))
    (stands : s.grammar.kind? id = some (.wrapper opening slot closing true)) :
    Ensures (Excused s.grammar input [])
      (content s (matchElement s levels) (outer.enter id) slot >>= addContent s slot k)
      (p.marked.taking input opening k) fun tally last => tally = ⟨k + 0, slot.optional⟩ ∧
        last.failure = none ∧ ∃ middle, Absent s input slot (p.cursor.position + k) middle ∧
          Proceeds s.grammar True (p.marked.taking input opening k) 0 middle last := by
  have soundOpened : (p.marked.taking input opening k).Sound s.grammar input :=
    sound.marked.taking opening delimiters
  have passed : content s (matchElement s levels) (outer.enter id) slot
      (p.marked.taking input opening k) = .ok .noMatch (p.marked.taking input opening k) := by
    unfold content
    rw [inactive]
    rfl
  refine ensures_bind_of_ok passed ?_
  unfold addContent
  cases optional : slot.optional with
  | true => exact ensures_pure ⟨rfl, quiet, [], .leave optional, .refl True soundOpened⟩
  | false =>
      have bound : slot.item < s.grammar.elements.size :=
        Grammar.lt_of_isSome (stage.wellFormed.placed id _ stands).2.1.2
      refine ensures_bind (ensures_expectedHere True stage soundOpened bound) ?_
      rintro _ last ⟨found, missing, moved⟩
      exact ensures_pure ⟨rfl, moved.keeps.quiet trivial quiet, _, .miss optional missing, moved⟩

end Matching

/-! ### The statement -/

/-- What a wrapper comes to of which `k` opening and `k` closing delimiters stand side by side. -/
inductive Passes (s : Setting) (input : Input) (item : ElementId) (before : Cursor) (k : Nat) :
    (reported : Bool) → EStateM.Result Fault Progress Outcome → Prop
  /-- The match is complete, and nothing is reported. -/
  | full {q : Progress} {events : List Event} (quiet : q.failure = none)
      (moved : q.cursor = before.extend (2 * k) events) (clean : Clean events) :
      Passes s input item before k false (.ok (.fullMatch (2 * k)) q)
  /-- Everything is matched, but the content is reported missing between the delimiters. -/
  | part {q : Progress} {first behind : List Event} {only : Diagnostic} (quiet : q.failure = none)
      (moved : q.cursor = before.extend (2 * k) (first ++ .diagnostic only :: behind))
      (clean : Clean (first ++ behind))
      (missing : MissingHere s input item (before.position + k) only) :
      Passes s input item before k true (.ok (.partialMatch (2 * k)) q)
  /-- A token ends beyond the offsets that can be counted. -/
  | beyond {reported : Bool} {q : Progress} {token : Token} (member : token ∈ input.tokens)
      (far : TextRange.offsetLimit ≤ token.offset + token.text.utf8ByteSize) :
      Passes s input item before k reported (.error .textRange q)

/-- What a repeated wrapper comes to when closing delimiters were taken as opening ones. -/
inductive Overtakes (input : Input) (k : Nat) : EStateM.Result Fault Progress Outcome → Prop
  | part {q : Progress} : Overtakes input k (.ok (.partialMatch (2 * k)) q)
  | beyond {q : Progress} {token : Token} (member : token ∈ input.tokens)
      (far : TextRange.offsetLimit ≤ token.offset + token.text.utf8ByteSize) :
      Overtakes input k (.error .textRange q)

section Statement

open Matcher

variable {s : Setting} {input : Input} {id opening closing item : ElementId} {before : Cursor}
  {k m : Nat} {last q : Progress} {outcome : Outcome} (quiet : last.failure = none) (enough : k ≤ m)

include quiet enough

/-- A wrapper that is complete without content. -/
theorem passes_full
    (counted : Counted s input id opening closing before k 0 m true [] last outcome q) :
    Passes s input item before k false (.ok outcome q) := by
  cases counted with
  | runsOut few => exact absurd enough (Nat.not_le_of_lt few)
  | closed =>
      have total : k + 0 + k = 2 * k := by omega
      rw [total]
      exact .full quiet rfl (clean_wrapped clean_nil clean_nil)

/-- A wrapper of which the content is missing. -/
theorem passes_part {found : Diagnostic}
    (missing : MissingHere s input item (before.position + k) found)
    (counted : Counted s input id opening closing before k 0 m false [.diagnostic found] last
      outcome q) :
    Passes s input item before k true (.ok outcome q) := by
  cases counted with
  | runsOut few => exact absurd enough (Nat.not_le_of_lt few)
  | closed =>
      have total : k + 0 + k = 2 * k := by omega
      have clean : Clean (input.wrapped id opening closing before.position k 0 k [] []) :=
        clean_wrapped clean_nil clean_nil
      rw [total]
      let first : List Event := .start id (input.indexAt before.position) ::
        input.leaves opening k before.position
      let behind : List Event := input.leaves closing k (before.position + k + 0) ++ [.finish]
      have split : (last.moveTo (before.extend (2 * k)
          (input.wrapped id opening closing before.position k 0 k [.diagnostic found] []))).cursor =
            before.extend (2 * k) (first ++ .diagnostic found :: behind) := by
        rw [Progress.moveTo, Input.wrapped, Input.node]
        simp [first, behind]
      have around : Clean (first ++ behind) := by
        simpa [Input.wrapped, Input.node, first, behind] using clean
      exact .part quiet split around missing

omit quiet enough in
/-- A step that goes wrong only where a token is to blame. -/
theorem passes_of_ensures {step : Matcher Outcome} {p : Progress} {reported : Bool}
    (kept : Ensures (Excused s.grammar input []) step p fun outcome q =>
      Passes s input item before k reported (.ok outcome q)) :
    Passes s input item before k reported (step p) := by
  rcases kept.ok_or_beyond with ⟨outcome, q, done, passes⟩ | ⟨q, token, failed, member, far⟩
  · rwa [done]
  · rw [failed]
    exact .beyond member far

end Statement

section Wrappers

open Matcher

variable {g : Grammar} {vocabulary : Vocabulary} {rules : List Rule} {root : Option String}
  {options : Options} {cancelled : Bool} {tokens : Array Token} {opened : Cursor}
  {s : Setting} {input : Input} {id opening closing : ElementId} {slot : Slot ElementId}
  {repeated : Bool} {b c : TokenTypeId} {p : Progress} {k : Nat}

section Forms

variable (stage : Stage s input) (sound : p.Sound s.grammar input) (quiet : p.failure = none)
  (free : s.Open (p.depth + 1)) (inactive : slot.isActive s.options.version = false)
  (begins : s.grammar.Delimiter opening b) (ends : s.grammar.Delimiter closing c) (levels : Nat)
  (outer : Path)

include stage sound quiet free inactive begins ends

/-- The plain form. -/
theorem plain_passes (stands : s.grammar.kind? id = some (.wrapper opening slot closing false))
    (opens : input.Suits b p.cursor.position) (closes : input.Suits c (p.cursor.position + 1)) :
    Passes s input slot.item p.cursor 1 false (matchElement s (levels + 2) id outer p) := by
  refine passes_of_ensures ((ensures_counted outer stands quiet
    ⟨free.1, Nat.lt_of_succ_lt free.2⟩ (wrapper_exact stage sound.entered quiet inactive free begins
      ends opens closes)).imp ?_)
  rintro outcome q ⟨_, last, rfl, silent, counted⟩
  exact passes_full silent (Nat.le_refl 1) counted

/-- What a repeated form comes to, by its opening and closing delimiters. -/
theorem repeated_counts (stands : s.grammar.kind? id = some (.wrapper opening slot closing true))
    {m : Nat} (delimited : input.Delimited b c p.cursor.position k 0 m) (positive : 1 ≤ k) :
    Ensures (Excused s.grammar input []) (matchElement s (levels + 2) id outer) p fun outcome q =>
      ∃ middle last, Absent s input slot (p.cursor.position + k) middle ∧ last.failure = none ∧
        Counted s input id opening closing p.cursor k 0 m slot.optional middle last outcome q :=
  ensures_counted outer stands quiet ⟨free.1, Nat.lt_of_succ_lt free.2⟩
    (balanced_exact stage sound.entered quiet free begins ends delimited positive
      (content_absent stage sound.entered quiet inactive delimited.opens stands))

/-- The repeated form. -/
theorem repeated_passes (stands : s.grammar.kind? id = some (.wrapper opening slot closing true))
    (positive : 1 ≤ k) (opens : ∀ j < k, input.Suits b (p.cursor.position + j))
    (closes : ∀ j < k, input.Suits c (p.cursor.position + k + j))
    (stops : ¬ input.Suits b (p.cursor.position + k)) :
    Passes s input slot.item p.cursor k (!slot.optional)
      (matchElement s (levels + 2) id outer p) := by
  have delimited : input.Delimited b c p.cursor.position k 0 k :=
    ⟨opens, stops, closes, fun few => absurd few (Nat.lt_irrefl k)⟩
  refine passes_of_ensures ((repeated_counts stage sound quiet free inactive begins ends levels outer
    stands delimited positive).imp ?_)
  rintro outcome q ⟨middle, last, absent, silent, counted⟩
  cases absent with
  | leave optional =>
      rw [optional] at counted ⊢
      exact passes_full silent (Nat.le_refl k) counted
  | miss required missing =>
      rw [required] at counted ⊢
      exact passes_part silent (Nat.le_refl k) missing counted

/-- Where closing delimiters are taken as opening ones too few are left to close them all. -/
theorem repeated_overtakes (stands : s.grammar.kind? id = some (.wrapper opening slot closing true))
    (opens : ∀ j < k, input.Suits b (p.cursor.position + j))
    (closes : ∀ j < k, input.Suits c (p.cursor.position + k + j))
    (more : input.Suits b (p.cursor.position + k)) (whole : input.size = p.cursor.position + 2 * k) :
    Overtakes input k (matchElement s (levels + 2) id outer p) := by
  have ending : ∀ type, ¬ input.Suits type (p.cursor.position + 2 * k) := by
    intro type suits
    obtain ⟨token, there⟩ := suits.exists_token
    exact absurd (token?_lt_size there) (by omega)
  -- The opening delimiters end where the first token stands that suits none.
  obtain ⟨o, first, stops⟩ : ∃ o, (∀ j < o, input.Suits b (p.cursor.position + j)) ∧
      ¬ input.Suits b (p.cursor.position + o) := by
    have some : ∃ j, ¬ input.Suits b (p.cursor.position + j) := ⟨2 * k, ending b⟩
    exact ⟨Nat.find some, fun j before => not_not.1 (Nat.find_min some before), Nat.find_spec some⟩
  have further : k < o := by
    refine Nat.lt_of_le_of_ne (Nat.le_of_not_lt fun fewer => stops (opens o fewer)) ?_
    rintro rfl
    exact stops more
  have within : o ≤ 2 * k := Nat.le_of_not_lt fun beyond => ending b (first _ beyond)
  have place : ∀ j, p.cursor.position + o + 0 + j = p.cursor.position + k + (o - k + j) := by
    intro j
    omega
  have delimited : input.Delimited b c p.cursor.position o 0 (2 * k - o) := by
    refine ⟨first, stops, fun j before => ?_, fun _ => ?_⟩
    · rw [place]
      exact closes _ (by omega)
    · have last : p.cursor.position + o + 0 + (2 * k - o) = p.cursor.position + 2 * k := by omega
      rw [last]
      exact ending c
  have kept := repeated_counts stage sound quiet free inactive begins ends levels outer stands
    delimited (Nat.zero_lt_of_lt further)
  rcases kept.ok_or_beyond with
    ⟨outcome, q, done, middle, last, -, -, counted⟩ | ⟨q, token, failed, member, far⟩
  · rw [done]
    cases counted with
    | closed enough => exact absurd enough (by omega)
    | runsOut =>
        have total : o + 0 + (2 * k - o) = 2 * k := by omega
        rw [total]
        exact .part
  · rw [failed]
    exact .beyond member far

end Forms

/-- **Content that is not active is passed over, except in repeated wrappers that require it.**
Look-ahead lets the closing delimiter come right behind the opening one, and a plain wrapper is
complete with its two delimiters.  A repeated wrapper is complete with `k` delimiters of each sort if
the content is optional; content that is required it reports missing.  This takes that the opening
delimiters end where the closing ones begin: if one of those can open as well, too few are left. -/
theorem wrapper_passes [Alphabet] (built : Grammar.ofRules vocabulary rules root = .ok g)
    (fresh : Cursor.ofTokens g.vocabulary tokens options.placeholder = .ok opened)
    (stands : g.kind? id = some (.wrapper opening slot closing repeated))
    (begins : g.Delimiter opening b) (ends : g.Delimiter closing c)
    (inactive : slot.isActive options.version = false) (sound : p.Sound g opened.input)
    (quiet : p.failure = none) (free : (g.setting options cancelled).Open (p.depth + 1))
    (levels : Nat) (outer : Path) :
    let s := g.setting options cancelled
    let first := p.cursor.position
    let result := matchElement s (levels + 2) id outer p
    (∀ memo : Memo, memo.Faithful g → ∃ memo',
      s.mayFollow (Path.enter (outer.enter id) opening) c memo = .ok true memo') ∧
    (repeated = false → opened.input.Suits b first → opened.input.Suits c (first + 1) →
      Passes s opened.input slot.item p.cursor 1 false result) ∧
    (repeated = true → ∀ k, 1 ≤ k → (∀ j < k, opened.input.Suits b (first + j)) →
      (∀ j < k, opened.input.Suits c (first + k + j)) →
        (¬ opened.input.Suits b (first + k) →
          Passes s opened.input slot.item p.cursor k (!slot.optional) result) ∧
        (opened.input.Suits b (first + k) → opened.input.size = first + 2 * k →
          Overtakes opened.input k result)) := by
  intro s first result
  have wellFormed := Grammar.ofRules_wellFormed built
  have stage : Stage s opened.input := stage_of_ofTokens wellFormed fresh cancelled
  refine ⟨fun memo faithful => ?_, ?_, ?_⟩
  · obtain ⟨memo', -, answer⟩ := answers_mayFollow stage.reliable options.version
      (Path.enter (outer.enter id) opening) c memo faithful
    have comes : s.grammar.mayFollow options.version (Path.enter (outer.enter id) opening) c = .ok true :=
      mayFollow_of_inactive wellFormed stands ends inactive outer
    rw [comes] at answer
    exact ⟨memo', answer⟩
  · rintro rfl opens closes
    exact plain_passes stage sound quiet free inactive begins ends levels outer stands opens closes
  · rintro rfl k positive opens closes
    exact ⟨repeated_passes stage sound quiet free inactive begins ends levels outer stands positive
      opens closes, repeated_overtakes stage sound quiet free inactive begins ends levels outer stands
      opens closes⟩

end Wrappers

/-- A rule for a token in parentheses that came with version 5. -/
def lateContentRules : List Rule :=
  [⟨"r", .wrapper "L" ⟨.token "A" none none, false, 5⟩ "R" true⟩]

/-- The grammar of that rule. -/
def lateContent : Grammar where
  vocabulary := ⟨"test", #[.character "L" "(", .keyword "A" "a", .character "R" ")"]⟩
  elements := #[
    ⟨0, "r", some "r", none, .wrapper 1 ⟨2, false, 5⟩ 3 true⟩,
    ⟨1, "r#1", none, some 0, .token 0 none none⟩,
    ⟨2, "r#2", none, some 0, .token 1 none none⟩,
    ⟨3, "r#3", none, some 0, .token 2 none none⟩]
  rules := [("r", 0)]
  root := 0

theorem lateContent_built :
    Grammar.ofRules lateContent.vocabulary lateContentRules none = .ok lateContent := by
  with_unfolding_all rfl

/-- A parse of `(())` at its beginning. -/
def lateContentStart : Progress :=
  ⟨⟨#[⟨0, "(", 0⟩, ⟨0, "(", 1⟩, ⟨2, ")", 2⟩, ⟨2, ")", 3⟩], #[0, 1, 2, 3], none, 0, #[], 0⟩, 0, false,
    [], none, lateContent.blankMemo⟩

/-- In version 1 look-ahead lets the parentheses stand alone, and the token is reported missing
between them. -/
theorem lateContent_missing :
    let s := lateContent.setting { version := 1 } false
    (∃ memo, s.mayFollow (Path.enter (Path.enter [] 0) 1) 2 lateContent.blankMemo = .ok true memo) ∧
      Passes s lateContentStart.cursor.input 2 lateContentStart.cursor 2 true
        (Matcher.run s 0 [] lateContentStart) := by
  intro s
  have fresh : Cursor.ofTokens lateContent.vocabulary lateContentStart.cursor.input.tokens none =
      .ok lateContentStart.cursor := by
    rfl
  have faithful := Memo.blank_faithful lateContent
  have sound : lateContentStart.Sound lateContent lateContentStart.cursor.input :=
    ⟨rfl, Nat.zero_le _, faithful⟩
  have stands : lateContent.kind? 0 = some (.wrapper 1 ⟨2, false, 5⟩ 3 true) := rfl
  have begins : lateContent.Delimiter 1 0 := ⟨rfl, rfl⟩
  have ends : lateContent.Delimiter 3 2 := ⟨rfl, rfl⟩
  have free : s.Open (lateContentStart.depth + 1) := ⟨rfl, by decide⟩
  obtain ⟨follows, -, passes⟩ := wrapper_passes lateContent_built fresh stands begins ends rfl sound
    rfl free 510 []
  exact ⟨follows _ faithful, (passes rfl 2 (by decide) (by decide) (by decide)).1 (by decide)⟩

end Dialect
