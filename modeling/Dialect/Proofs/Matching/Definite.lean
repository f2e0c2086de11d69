import Dialect.Proofs.Grammar.Spelling
import Dialect.Proofs.Matching.Alike
import Dialect.Proofs.Matching.Run

/-!
# Matching in definite grammars

In a grammar in which the first token tells alternatives apart, what is matched in full is
spelled (`recorded_spells`), and what is spelled is matched in full, whatever stands behind
it, unless the parse is aborted (`matchElement_finds`).
-/

set_option autoImplicit false

namespace Dialect

open Relation

variable {s : Setting} {input : Input} {id : ElementId} {kind : Kind ElementId} {i j : Nat}

theorem ordinary_of_unmarked (unmarked : input.placeholder = none) (position : Nat) :
    (input.cursorAt position).atPlaceholder = false := by
  simp [Cursor.atPlaceholder, Input.cursorAt, unmarked]

/-! ### What is matched is spelled -/

section Soundness

variable {below : Nat → ElementId → Record} {complete : Bool} {events : List Event}

theorem filled_spells {slots : List (Slot ElementId)} {index : Nat}
    (holds : ∀ slot ∈ slots, ∀ index i j events, below index slot.item true i j events →
      Spells s.grammar input slot.item i j)
    (filling : ∀ slot ∈ slots, slot.optional = false ∧ slot.isActive s.options.version = true)
    (filled : Filled s input below slots index complete i j events) (whole : complete = true) :
    SpellsAll s.grammar input (slots.map Slot.item) i j := by
  induction filled with
  | done index i => exact .nil i
  | pass inactive others ih =>
      rw [(filling _ List.mem_cons_self).2] at inactive
      cases inactive
  | leave active optional others ih =>
      rw [(filling _ List.mem_cons_self).1] at optional
      cases optional
  | fill active matched others ih =>
      refine .cons (holds _ List.mem_cons_self _ _ _ _ matched) (ih ?_ ?_ whole)
      · exact fun slot member => holds slot (List.mem_cons_of_mem _ member)
      · exact fun slot member => filling slot (List.mem_cons_of_mem _ member)
  | fillPart => cases whole
  | miss => cases whole

/-- The one delimiter that was opened has been closed. -/
theorem closed_single {closing : ElementId} {range : TextRange} {held : Bool}
    (closed : Closed s input below closing [range] held true i j events) :
    held = true ∧ ∃ last, below 2 closing true i j last := by
  cases closed with
  | all shut =>
      cases shut with
      | more matched others =>
          cases others with
          | done => exact ⟨rfl, _, matched⟩

/-- **A full match is spelled**, in a definite grammar without a placeholder. -/
theorem recorded_spells (unmarked : input.placeholder = none) (levels : Nat) {outer : Path}
    (definite : s.grammar.Definite s.options.version id)
    (recorded : Recorded s input levels id outer true i j events) :
    Spells s.grammar input id i j := by
  induction levels generalizing id outer i j events with
  | zero => exact recorded.elim
  | succ levels ih =>
      obtain ⟨-, kind, stands, leaves⟩ := recorded
      have own := definite.own stands
      have ordinary := ordinary_of_unmarked unmarked i
      -- The induction is on the levels, and the parts are definite again.
      have part : ∀ {item : ElementId} {place : Path} {m n : Nat} {events : List Event},
          item ∈ kind.parts → Recorded s input levels item place true m n events →
            Spells s.grammar input item m n :=
        fun member matched => ih (definite.below stands member) matched
      cases leaves with
      | @token type text flavor _ current current_eq accepted =>
          obtain ⟨type_eq, text_eq⟩ := accepted.resolve_left (by simp [ordinary])
          exact .token stands current_eq type_eq fun word same => by
            rw [Option.mem_def.1 same] at text_eq
            simpa using text_eq
      | @identifier use isAlias object _ current current_eq accepted =>
          obtain ⟨type, type_eq, named⟩ := accepted.resolve_left (by simp [ordinary])
          have found := Vocabulary.get_eq_ok.1 type_eq
          refine .identifier stands current_eq found (named.resolve_right ?_)
          simp [definite.plain found]
      | sequence filled =>
          refine .sequence stands (filled_spells (fun slot member _ _ _ _ => ?_) own filled rfl)
          exact part (List.mem_map_of_mem member)
      | @wrapper opening slot closing range held _ _ m _ first middle last _ opened contained _
          closed =>
          obtain ⟨rfl, last, closes⟩ := closed_single closed
          obtain ⟨-, required, active⟩ := own
          cases contained active with
          | fill _ matched =>
              exact .wrapper stands (part (by simp [Kind.parts]) opened)
                (part (by simp [Kind.parts]) matched) (part (by simp [Kind.parts]) closes)
          | leave optional =>
              rw [required] at optional
              cases optional
      -- These kinds are not definite.
      | balanced => cases own.1
      | bare => cases own.1
      | oneOf tried _ _ matched =>
          have member := Kind.mem_tried.1 (List.mem_of_getElem? tried)
          exact .oneOf stands member (part (List.mem_map_of_mem member) matched)
      | iteration => exact own.elim
      | qualified => exact own.elim
      | qualifiedPart => exact own.elim
      | reference matched => exact .reference stands (part (by simp [Kind.parts]) matched)

/-- In a definite grammar no slot is overlooked. -/
theorem Grammar.Definite.not_overlooks {g : Grammar} {version : Nat} {token : TokenTypeId}
    (definite : g.Definite version id) : ¬ g.Overlooks version token id := by
  rintro ⟨x, y, way, ⟨slots, stands, beyond⟩, -⟩
  have reached : ReflTransGen g.Mentions id x := by
    refine ReflTransGen.mono (fun a b tries => ?_) id x way
    obtain ⟨kind, standsThere, entry⟩ := tries.entersAt
    exact ⟨kind, standsThere, Kind.mem_parts_of_entriesAt entry⟩
  have filling := definite.kinds x _ reached stands
  cases slots with
  | nil => cases beyond
  | cons slot rest =>
      obtain ⟨required, active⟩ := filling slot List.mem_cons_self
      simp [Kind.leadingBeyond, required, active] at beyond

/-- A match in a definite grammar begins with a token of the first set. -/
theorem recorded_possible (wellFormed : s.grammar.WellFormed)
    (unmarked : input.placeholder = none) (selective : s.predictor.selective = true)
    (definite : s.grammar.Definite s.options.version id) (bound : id < s.grammar.elements.size)
    {levels : Nat} {outer : Path} (recorded : Recorded s input levels id outer complete i j events)
    {current : Token} (current_eq : input.token? i = some current) :
    current.kind ∈ (FirstSets.ofElement s.grammar id).possible := by
  have begins := recorded_begins current_eq (ordinary_of_unmarked unmarked i) selective levels
    recorded
  exact (Grammar.begins_or_overlooks wellFormed bound begins).resolve_right definite.not_overlooks

end Soundness

/-! ### What is spelled is matched -/

/-- Where an element is spelled, a match of it is full, unless the parse is aborted. -/
def Attempt.Finds (s : Setting) (input : Input) (depth : Nat) (attempt : Attempt) : Prop :=
  ∀ (id : ElementId) (path : Path) (p : Progress) (j : Nat),
    s.grammar.Definite s.options.version id → path.Inside s.grammar →
      p.Sound s.grammar input → p.depth = depth → Spells s.grammar input id p.cursor.position j →
        Ensures (fun _ => True) (attempt id path) p fun outcome q =>
          q.failure = none → outcome = .fullMatch (j - p.cursor.position)

/-- A leaf takes the token by which it is spelled. -/
theorem takes_of_spells (stage : Stage s input) (unmarked : input.placeholder = none)
    (definite : s.grammar.Definite s.options.version id)
    (stands : s.grammar.kind? id = some kind) (leaf : kind.isLeaf = true)
    (spells : Spells s.grammar input id i j) (path : Path) (waved : Bool) :
    s.takes input path id kind waved i = .ok true ∧ j = i + 1 := by
  have ordinary := ordinary_of_unmarked unmarked i
  cases spells with
  | @token _ type text flavor _ current standsToo current_eq type_eq text_eq =>
      obtain rfl := Option.some.inj (stands.symm.trans standsToo)
      obtain ⟨word, word_eq⟩ := get_of_lt (stage.known current (mem_of_token? current_eq))
      have plain := definite.plain (Vocabulary.get_eq_ok.1 word_eq)
      have same : (text.any fun text => !Token.sameWord current.text text) = false := by
        cases text with
        | none => rfl
        | some word => simpa using text_eq word rfl
      refine ⟨?_, rfl⟩
      simp [Setting.takes, Setting.tokenTakes, current_eq, ordinary, ← type_eq, same, word_eq, plain,
        bind, Except.bind, pure, Except.pure]
  | @identifier _ use isAlias object _ current type standsToo current_eq type_eq named =>
      obtain rfl := Option.some.inj (stands.symm.trans standsToo)
      refine ⟨?_, rfl⟩
      simp [Setting.takes, Setting.identifierTakes, current_eq, ordinary,
        Vocabulary.get_eq_ok.2 type_eq, named, bind, Except.bind, pure, Except.pure]
  | sequence standsToo | wrapper standsToo | oneOf standsToo | reference standsToo =>
      obtain rfl := Option.some.inj (stands.symm.trans standsToo)
      cases leaf

/-- A delimiter is spelled by one token. -/
theorem Spells.of_token {type : TokenTypeId} {text : Option String} {flavor : Option Category}
    (stands : s.grammar.kind? id = some (.token type text flavor))
    (spells : Spells s.grammar input id i j) : j = i + 1 := by
  cases spells with
  | token => rfl
  | identifier => rfl
  | sequence standsToo | wrapper standsToo | oneOf standsToo | reference standsToo =>
      cases stands.symm.trans standsToo

section Parts

variable {terms : Terms} {depth : Nat} {attempt : Attempt} {outer : Path} {p : Progress}

/-- A step of a parse that was aborted before may promise anything of a parse that goes on. -/
theorem Agree.ensures_of_aborted {α : Type} {step : Matcher α} (agree : Agree (.never s) step step)
    (faithful : p.memo.Faithful s.grammar) (aborted : p.failure ≠ none)
    (post : α → Progress → Prop) :
    Ensures (fun _ => True) step p fun value q => q.failure = none → post value q := by
  refine (agree.ensures faithful).imp ?_
  rintro value q ⟨-, leads⟩ going
  rw [going] at leads
  exact absurd leads.going aborted

/-- A move of the cursor leaves everything else as it is. -/
theorem ensures_move {α : Type} {move : Cursor.Step α} :
    Ensures (fun _ => True) (liftM move : Matcher α) p fun _ q => q.failure = p.failure := by
  cases p
  simp only [Ensures, liftM, monadLift, MonadLift.monadLift]
  split
  · rename_i ran
    split at ran <;> cases ran
    rfl
  · trivial

theorem ensures_leave :
    Ensures (fun _ => True) Matcher.leave p fun _ q => q.failure = p.failure := by
  by_cases outside : p.depth = 0
  · have failed : Matcher.leave p = .error .surplusLeave p := by
      simp only [Matcher.leave, bind_apply, get_apply, outside, if_true]
      rfl
    exact ensures_of_error failed trivial
  · have left : Matcher.leave p = .ok () { p with depth := p.depth - 1 } := by
      simp [Matcher.leave, outside]
    exact ensures_of_ok left rfl

/-- The path to a slot of an element of the grammar. -/
theorem Path.Inside.push {g : Grammar} (inside : outer.Inside g) (bound : id < g.elements.size)
    (slot : Nat) : Path.Inside g (⟨id, slot⟩ :: outer) := by
  intro frame member
  rcases List.mem_cons.1 member with rfl | further
  · exact bound
  · exact inside frame further

variable (alike : Attempt.Agrees (.never s) attempt attempt)
  (honest : ∀ around, attempt.Honours s input around terms depth False)
  (finds : Attempt.Finds s input depth attempt)

section

include honest finds

/-- What comes of an attempt of an element that is spelled here. -/
theorem ensures_found (definite : s.grammar.Definite s.options.version id)
    (bound : id < s.grammar.elements.size) {path : Path} (inside : path.Inside s.grammar)
    (sound : p.Sound s.grammar input) (level : p.depth = depth)
    (spells : Spells s.grammar input id p.cursor.position j) :
    Ensures (fun _ => True) (attempt id path) p fun outcome q =>
      Came s.grammar False (terms.record id path) (terms.idle id) p outcome q ∧
        (q.failure = none → outcome = .fullMatch (j - p.cursor.position)) := by
  have came := (honest path id bound path p (fun frame member =>
    ⟨inside frame member, fun _ => member⟩) sound level fun no => no.elim).pardon fun _ _ => trivial
  exact came.and (finds id path p j definite inside sound level spells)

/-- Goes on behind an element that is spelled: where the match ends, unless the parse is
aborted. -/
theorem ensures_found_bind (compact : s.grammar.Compact) {β : Type} {next : Outcome → Matcher β}
    {post : β → Progress → Prop} (definite : s.grammar.Definite s.options.version id)
    (bound : id < s.grammar.elements.size) {path : Path} (inside : path.Inside s.grammar)
    (sound : p.Sound s.grammar input) (level : p.depth = depth)
    (spells : Spells s.grammar input id p.cursor.position j)
    (agree : ∀ outcome, Agree (.never s) (next outcome) (next outcome))
    (behind : ∀ q, q.Sound s.grammar input → q.depth = depth → q.cursor.position = j →
      Ensures (fun _ => True) (next (.fullMatch (j - p.cursor.position))) q fun value r =>
        r.failure = none → post value r) :
    Ensures (fun _ => True) (attempt id path >>= next) p fun value r =>
      r.failure = none → post value r := by
  have further := spells.lt compact
  refine ensures_bind (ensures_found honest finds definite bound inside sound level spells) ?_
  rintro outcome q ⟨⟨events, moved, -⟩, found⟩
  by_cases going : q.failure = none
  · obtain rfl := found going
    refine behind q (moved.sound sound) (moved.keeps.depth.trans level) ?_
    rw [moved.position]
    dsimp only [Outcome.tokens]
    omega
  · exact (agree outcome).ensures_of_aborted moved.faithful going _

include alike

/-- Slots that are spelled are all filled. -/
theorem fillSlots_finds (compact : s.grammar.Compact) {slots : List (Slot ElementId)}
    (filling : ∀ slot ∈ slots, slot.optional = false ∧ slot.isActive s.options.version = true ∧
      s.grammar.Definite s.options.version slot.item ∧ slot.item < s.grammar.elements.size)
    (bound : id < s.grammar.elements.size) (inside : outer.Inside s.grammar) {index tokens : Nat}
    (sound : p.Sound s.grammar input) (level : p.depth = depth)
    (spells : SpellsAll s.grammar input (slots.map Slot.item) p.cursor.position j) :
    Ensures (fun _ => True) (Matcher.fillSlots s attempt (outer.enter id) slots index tokens) p
      fun tally q => q.failure = none → tally = ⟨tokens + (j - p.cursor.position), true⟩ := by
  induction slots generalizing index tokens p with
  | nil =>
      cases spells with
      | nil => exact ensures_pure fun _ => by simp
  | cons slot rest ih =>
      obtain ⟨required, active, definite, known⟩ := filling slot List.mem_cons_self
      have fillingRest := fun other member => filling other (List.mem_cons_of_mem _ member)
      obtain ⟨m, first, others⟩ : ∃ m, Spells s.grammar input slot.item p.cursor.position m ∧
          SpellsAll s.grammar input (rest.map Slot.item) m j := by
        cases spells with
        | cons first others => exact ⟨_, first, others⟩
      have further := first.lt compact
      have beyond := others.le compact
      unfold Matcher.fillSlots
      rw [if_neg (by simp [active])]
      refine ensures_found_bind honest finds compact definite known (inside.push bound index) sound
        level first (fun outcome => ?_) fun q soundThere levelThere here => ?_
      · cases outcome with
        | fullMatch n => exact fillSlots_agrees alike _ _ _ _
        | partialMatch n => exact agree_pure _
        | noMatch =>
            refine agree_ite (fillSlots_agrees alike _ _ _ _) (agree_ite (agree_pure _) ?_)
            exact agree_bind (expectedHere_agrees _) fun _ => agree_pure _
      · -- The first slot has taken its tokens, and the others begin where it ended.
        rw [← here] at others
        refine (ih fillingRest soundThere levelThere others).imp fun tally r filled going => ?_
        rw [filled going, here]
        congr 1
        omega

/-- A sequence that is spelled is matched in full. -/
theorem sequence_finds (compact : s.grammar.Compact) {slots : List (Slot ElementId)}
    (filling : ∀ slot ∈ slots, slot.optional = false ∧ slot.isActive s.options.version = true ∧
      s.grammar.Definite s.options.version slot.item ∧ slot.item < s.grammar.elements.size)
    (bound : id < s.grammar.elements.size) (inside : outer.Inside s.grammar) (nonempty : slots ≠ [])
    (sound : p.Sound s.grammar input) (level : p.depth = depth)
    (spells : SpellsAll s.grammar input (slots.map Slot.item) p.cursor.position j) :
    Ensures (fun _ => True) (Matcher.sequence s attempt (outer.enter id) id slots) p
      fun outcome q => q.failure = none → outcome = .fullMatch (j - p.cursor.position) := by
  have further := spells.lt compact (by simpa using nonempty)
  unfold Matcher.sequence
  refine ensures_mark (ensures_bind (fillSlots_finds alike honest finds compact filling bound
    inside sound.marked level spells) ?_)
  intro tally q filled
  by_cases going : q.failure = none
  · obtain rfl := filled going
    have taken : 0 + (j - p.marked.cursor.position) = j - p.cursor.position := Nat.zero_add _
    rw [taken, if_neg (by dsimp only; omega)]
    exact ensures_bind ensures_move fun _ r _ => ensures_pure fun _ => rfl
  · split
    · exact ensures_bind ensures_move fun _ r same => ensures_pure fun goingOn =>
        absurd (same.symm.trans goingOn) going
    · exact ensures_bind ensures_move fun _ r same => ensures_pure fun goingOn =>
        absurd (same.symm.trans goingOn) going

/-- A closing delimiter that is spelled is taken. -/
theorem close_finds (compact : s.grammar.Compact) {closing : ElementId} {range : TextRange}
    {tally : Tally} (definite : s.grammar.Definite s.options.version closing)
    (known : closing < s.grammar.elements.size) (bound : id < s.grammar.elements.size)
    (inside : outer.Inside s.grammar) (sound : p.Sound s.grammar input) (level : p.depth = depth)
    (spells : Spells s.grammar input closing p.cursor.position j) :
    Ensures (fun _ => True) (Matcher.close s attempt (outer.enter id) closing [range] tally) p
      fun closed q => q.failure = none → closed = ⟨tally.tokens + 1, tally.complete⟩ := by
  have shuts : Ensures (fun _ => True)
      (Matcher.closeAll attempt (outer.enter id) closing [range]) p fun result q =>
        q.failure = none → result = (1, []) := by
    unfold Matcher.closeAll
    refine ensures_found_bind honest finds compact definite known (inside.push bound 2) sound level
      spells (fun outcome => agree_ite ?_ (agree_pure _)) fun q _ _ _ => ensures_pure fun _ => rfl
    exact agree_bind (closeAll_agrees alike _ _ _) fun _ => agree_pure _
  unfold Matcher.close
  refine ensures_bind
    (((closeAll_agrees alike _ closing [range]).ensures sound.faithful).and shuts) ?_
  rintro ⟨closed, left⟩ q ⟨⟨faithful, -⟩, shut⟩
  by_cases going : q.failure = none
  · obtain ⟨rfl, rfl⟩ := Prod.ext_iff.1 (shut going)
    exact ensures_pure fun _ => rfl
  · refine Agree.ensures_of_aborted ?_ faithful going _
    cases left with
    | nil => exact agree_pure _
    | cons innermost others =>
        refine agree_ite (agree_bind ?_ fun _ => agree_pure _) (agree_pure _)
        exact agree_bind (expected_agrees _ _) fun _ => agree_move _

/-- A wrapper that is spelled is matched in full. -/
theorem wrapper_finds (stage : Stage s input) (compact : s.grammar.Compact)
    {opening closing : ElementId} {slot : Slot ElementId}
    (stands : s.grammar.kind? id = some (.wrapper opening slot closing false))
    (definite : s.grammar.Definite s.options.version id) (inside : outer.Inside s.grammar)
    (sound : p.Sound s.grammar input) (level : p.depth = depth) {m n : Nat}
    (opens : Spells s.grammar input opening p.cursor.position m)
    (content : Spells s.grammar input slot.item m n)
    (closes : Spells s.grammar input closing n j) :
    Ensures (fun _ => True)
      (Matcher.wrapper s attempt (outer.enter id) id opening slot closing) p
      fun outcome q => q.failure = none → outcome = .fullMatch (j - p.cursor.position) := by
  have bound := Grammar.lt_of_kind?_eq_some stands
  obtain ⟨⟨-, type, opensThere⟩, within, ⟨-, type', closesThere⟩⟩ :=
    stage.wellFormed.placed id _ stands
  obtain ⟨-, required, active⟩ := definite.own stands
  -- Both delimiters are tokens, so each takes one position.
  have first : m = p.cursor.position + 1 := opens.of_token opensThere
  have last : j = n + 1 := closes.of_token closesThere
  have further := content.lt compact
  unfold Matcher.wrapper
  refine ensures_mark (ensures_bind_of_ok cursor_eq ?_)
  refine ensures_bind_check (fun _ _ => trivial) fun range _ => ?_
  refine ensures_found_bind honest finds compact (definite.below stands (by simp [Kind.parts]))
    (Grammar.lt_of_kind?_eq_some opensThere) (inside.push bound 0) sound.marked level opens
    (fun outcome => agree_ite ?_ (enclose_agrees alike _ _ _ _ _ _)) fun q soundQ levelQ here => ?_
  · exact agree_bind (agree_move _) fun _ => agree_pure _
  rw [← here] at content
  rw [if_neg (by simp [Outcome.isMatch]), if_pos active]
  unfold Matcher.content
  rw [if_pos active]
  refine ensures_found_bind honest finds compact (definite.below stands (by simp [Kind.parts]))
    (Grammar.lt_of_isSome within.2) (inside.push bound 1) soundQ levelQ content
    (fun outcome => agree_bind (addContent_agrees _ _ _) (finish_agrees alike _ _ _ _ _))
    fun r soundR levelR there => ?_
  rw [← there] at closes
  refine ensures_bind_of_ok rfl (ensures_bind (close_finds alike honest finds compact
    (definite.below stands (by simp [Kind.parts])) (Grammar.lt_of_kind?_eq_some closesThere)
    bound inside soundR levelR closes) ?_)
  intro closed t shut
  -- An abort may still come while the wrapper is closed; then nothing is claimed.
  by_cases going : t.failure = none
  · obtain rfl := shut going
    refine ensures_bind ensures_move fun _ u _ => ensures_pure fun _ => ?_
    simp only [Tally.outcome, if_true, Outcome.fullMatch.injEq]
    omega
  · exact ensures_bind ensures_move fun _ u same => ensures_pure fun finished =>
      absurd (same.symm.trans finished) going

/-- The alternative that is spelled is the one that is taken. -/
theorem tryAlternatives_finds (stage : Stage s input) (compact : s.grammar.Compact)
    {slots : List (Slot ElementId)}
    (settled : ∀ slot ∈ slots, slot.isActive s.options.version = true ∧
      s.grammar.Definite s.options.version slot.item ∧ slot.item < s.grammar.elements.size)
    (apart : slots.Pairwise fun slot other => ∀ token,
      token ∈ (FirstSets.ofElement s.grammar slot.item).possible →
        token ∉ (FirstSets.ofElement s.grammar other.item).possible)
    (begins : ∀ slot ∈ slots, ∀ path complete i j events current,
      terms.record slot.item path complete i j events → input.token? i = some current →
        current.kind ∈ (FirstSets.ofElement s.grammar slot.item).possible)
    (bound : id < s.grammar.elements.size) (inside : outer.Inside s.grammar) {index : Nat}
    {current : Token} {unfiltered : Bool}
    (choosing : Choosing s input terms depth False False [] current unfiltered p)
    {best : Option (Outcome × Snapshot)} {chosen : Slot ElementId} (member : chosen ∈ slots)
    (spells : Spells s.grammar input chosen.item p.cursor.position j) :
    Ensures (fun _ => True)
      (Matcher.tryAlternatives s attempt (outer.enter id) unfiltered current.kind slots index best)
      p fun answer q => q.failure = none → answer = .inl (.fullMatch (j - p.cursor.position)) := by
  induction slots generalizing index p best with
  | nil => cases member
  | cons slot rest ih =>
      obtain ⟨active, definite, known⟩ := settled slot List.mem_cons_self
      obtain ⟨differs, apartRest⟩ := List.pairwise_cons.1 apart
      have place : Path.Inside s.grammar (⟨id, index⟩ :: outer) := inside.push bound index
      obtain ⟨first, first_eq, possible⟩ := spells.mem_possible stage.wellFormed compact
        (settled chosen member).2.2
      obtain rfl : first = current := Option.some.inj (first_eq.symm.trans choosing.current_eq)
      unfold Matcher.tryAlternatives
      have admits : Ensures (Excused s.grammar input [])
          (Matcher.admits s unfiltered first.kind slot) p _ := admits_honours stage choosing known
      refine ensures_bind (admits.pardon fun _ _ => trivial) ?_
      rintro admitted q ⟨asked, admission⟩
      have here : q.cursor.position = p.cursor.position := asked.position
      rw [← here] at spells admission first_eq ⊢
      have choosingHere := choosing.after asked
      -- The chosen alternative is admitted, as its first set has the token.  One before it does not
      -- have it, so it is passed over or tried in vain, and the cursor is back where it was.
      rcases List.mem_cons.1 member with rfl | later
      · obtain rfl : admitted = true :=
          admission.2 ⟨active, first, first_eq, Or.inr (Or.inr (Or.inr possible))⟩
        refine ensures_mark (ensures_found_bind honest finds compact definite known place
          choosingHere.sound.marked choosingHere.level spells (fun outcome => ?_) fun r _ _ _ => ?_)
        · exact keep_agrees
            (tryAlternatives_agrees stage.reliable stage.reliable rfl alike _ _ _ _ _) _ _ _
        · exact ensures_bind ensures_move fun _ t _ => ensures_pure fun _ => rfl
      · have settledRest := fun other member => settled other (List.mem_cons_of_mem _ member)
        have beginsRest := fun other member => begins other (List.mem_cons_of_mem _ member)
        have unexpected : first.kind ∉ (FirstSets.ofElement s.grammar slot.item).possible :=
          fun own => differs chosen later first.kind own possible
        cases admitted with
        | false => exact ih settledRest apartRest beginsRest choosingHere later spells
        | true =>
            have came := honest (⟨id, index⟩ :: outer) slot.item known (⟨id, index⟩ :: outer) q.marked
              (fun frame member => ⟨place frame member, fun _ => member⟩)
              choosingHere.sound.marked choosingHere.level fun no => no.elim
            refine ensures_mark (ensures_bind (came.pardon fun _ _ => trivial) ?_)
            rintro outcome r ⟨events, moved, matched⟩
            obtain rfl : outcome = .noMatch := by
              cases outcome with
              | noMatch => rfl
              | fullMatch n | partialMatch n =>
                  have possible := begins _ List.mem_cons_self _ _ _ _ _ _ matched.2 first_eq
                  exact absurd possible unexpected
            simp only [Outcome.isFull, Outcome.isPartial, Bool.false_eq_true, if_false,
              Bool.and_false, Bool.false_and]
            refine ensures_bind_of_ok (get_apply r) (ensures_rollback moved ?_)
            exact ih settledRest apartRest beginsRest (choosingHere.after moved.rolledBack) later
              spells

/-- A choice of which an alternative is spelled is matched in full. -/
theorem oneOf_finds (stage : Stage s input) (compact : s.grammar.Compact)
    {alternatives : List (Slot ElementId)} {sortable : Bool}
    (stands : s.grammar.kind? id = some (.oneOf alternatives sortable))
    (definite : s.grammar.Definite s.options.version id)
    (begins : ∀ slot ∈ alternatives, ∀ path complete i j events current,
      terms.record slot.item path complete i j events → input.token? i = some current →
        current.kind ∈ (FirstSets.ofElement s.grammar slot.item).possible)
    (inside : outer.Inside s.grammar) (sound : p.Sound s.grammar input) (level : p.depth = depth)
    {chosen : Slot ElementId} (member : chosen ∈ alternatives)
    (spells : Spells s.grammar input chosen.item p.cursor.position j) :
    Ensures (fun _ => True) (Matcher.oneOf s attempt (outer.enter id) id) p
      fun outcome q => q.failure = none → outcome = .fullMatch (j - p.cursor.position) := by
  obtain ⟨rfl, active, apart⟩ := definite.own stands
  have bound := Grammar.lt_of_kind?_eq_some stands
  have placed : ∀ slot ∈ alternatives, slot.item < s.grammar.elements.size := fun slot member =>
    Grammar.lt_of_isSome (stage.wellFormed.placed id _ stands slot member).2
  obtain ⟨current, current_eq, -⟩ := spells.mem_possible stage.wellFormed compact
    (placed chosen member)
  obtain ⟨type, type_eq⟩ := get_of_lt (stage.known current (mem_of_token? current_eq))
  have answers := stage.reliable.children id
  rw [Grammar.triedOf_of_kind? stands] at answers
  unfold Matcher.oneOf
  refine ensures_bind_query answers sound.faithful (raises_ok _) fun order memo same kept => ?_
  obtain rfl : alternatives = order := Except.ok.inj same
  refine ensures_bind_of_ok cursor_eq ?_
  dsimp only
  rw [sound.current_eq, sound.placeholder_eq, current_eq]
  dsimp only
  rw [type_eq]
  refine ensures_bind_of_ok rfl ?_
  have choosing : Choosing s input terms depth False False [] current
      ((input.cursorAt p.cursor.position).atPlaceholder || type.isChameleon) { p with memo } := by
    refine ⟨⟨sound.reads, sound.inside, kept⟩, level, current_eq, ?_, fun no => no.elim,
      fun no => no.elim⟩
    rw [Bool.or_eq_true_iff, type_eq]
    simp
  refine ensures_bind (tryAlternatives_finds alike honest finds stage compact
    (fun slot member => ⟨active slot member,
      definite.below stands (List.mem_map_of_mem member), placed slot member⟩)
    apart begins bound inside choosing member spells) ?_
  intro answer q found
  -- Only the first of the three endings is one of a parse that goes on.
  by_cases going : q.failure = none
  · obtain rfl := found going
    exact ensures_pure fun _ => rfl
  · rcases answer with outcome | _ | ⟨outcome, snapshot⟩
    · exact ensures_pure fun goingOn => absurd goingOn going
    · exact ensures_pure fun goingOn => absurd goingOn going
    · exact ensures_bind ensures_move fun _ r same => ensures_pure fun goingOn =>
        absurd (same.symm.trans goingOn) going

end

end Parts

/-! ### Elements -/

/-- An element that has been entered is matched in full where it is spelled. -/
theorem matchKind_finds (stage : Stage s input) (compact : s.grammar.Compact)
    (unmarked : input.placeholder = none) (selective : s.predictor.selective = true)
    {levels depth : Nat} {attempt : Attempt} (alike : Attempt.Agrees (.never s) attempt attempt)
    (honest : ∀ around,
      attempt.Honours s input around ((Agreement.leafwise s input).terms levels) depth False)
    (finds : Attempt.Finds s input depth attempt) {outer : Path} {p : Progress}
    (definite : s.grammar.Definite s.options.version id) (inside : outer.Inside s.grammar)
    (stands : s.grammar.kind? id = some kind) (composite : kind.isLeaf = false)
    (sound : p.Sound s.grammar input) (level : p.depth = depth)
    (spells : Spells s.grammar input id p.cursor.position j) :
    Ensures (fun _ => True) (Matcher.matchKind s attempt id (outer.enter id) kind) p
      fun outcome q => q.failure = none → outcome = .fullMatch (j - p.cursor.position) := by
  have bound := Grammar.lt_of_kind?_eq_some stands
  have known : ∀ item ∈ kind.parts, item < s.grammar.elements.size := fun item member =>
    stage.wellFormed.part_lt_size stands member
  have below : ∀ item ∈ kind.parts, s.grammar.Definite s.options.version item :=
    fun item member => definite.below stands member
  have own := definite.own stands
  -- What is spelled has the shape of the element that stands there, so the other shapes fall away.
  cases spells with
  | token standsToo | identifier standsToo =>
      obtain rfl := Option.some.inj (stands.symm.trans standsToo)
      cases composite
  | sequence standsToo items =>
      obtain rfl := Option.some.inj (stands.symm.trans standsToo)
      exact sequence_finds alike honest finds compact (fun slot member =>
        ⟨(own slot member).1, (own slot member).2, below _ (List.mem_map_of_mem member),
          known _ (List.mem_map_of_mem member)⟩) bound inside (compact id _ stands) sound level items
  | wrapper standsToo opens content closes =>
      obtain rfl := Option.some.inj (stands.symm.trans standsToo)
      obtain ⟨rfl, -, -⟩ := own
      exact wrapper_finds alike honest finds stage compact stands definite inside sound level opens
        content closes
  | oneOf standsToo member chosen =>
      obtain rfl := Option.some.inj (stands.symm.trans standsToo)
      refine oneOf_finds alike honest finds stage compact stands definite ?_ inside sound level
        member chosen
      intro slot member path complete i j events current recorded current_eq
      exact recorded_possible stage.wellFormed unmarked selective
        (below _ (List.mem_map_of_mem member)) (known _ (List.mem_map_of_mem member)) recorded
        current_eq
  | reference standsToo meant =>
      obtain rfl := Option.some.inj (stands.symm.trans standsToo)
      exact finds _ _ p j (below _ (by simp [Kind.parts])) (inside.push bound 0) sound level meant

/-- **What is spelled is matched in full**, unless the parse is aborted. -/
theorem matchElement_finds (stage : Stage s input) (compact : s.grammar.Compact)
    (unmarked : input.placeholder = none) (selective : s.predictor.selective = true) :
    ∀ (levels depth : Nat), s.options.maxDepth ≤ levels + depth →
      Attempt.Finds s input depth (Matcher.matchElement s levels) := by
  intro levels
  induction levels with
  | zero =>
      rintro depth enough id path p j definite inside sound rfl spells
      -- With no levels left the depth is at its limit, so the element is refused.
      have shut : ¬ (p.failure = none ∧ s.Open p.depth) := by
        rintro ⟨-, -, below⟩
        omega
      obtain ⟨failure, -, refused⟩ := matchElement_refused shut 0 id path
      exact ensures_of_ok refused nofun
  | succ levels ih =>
      rintro depth enough id path p j definite inside sound rfl spells
      by_cases may : p.failure = none ∧ s.Open p.depth
      · obtain ⟨quiet, opened⟩ := may
        obtain ⟨kind, stands⟩ : ∃ kind, s.grammar.kind? id = some kind := by
          cases spells with
          | _ standsToo => exact ⟨_, standsToo⟩
        obtain ⟨element, found, rfl⟩ := element_of_kind? stands
        cases leaf : element.kind.isLeaf with
        | true =>
            obtain ⟨takes, rfl⟩ := takes_of_spells stage unmarked definite stands leaf spells
              (path.enter id) p.atWaved
            obtain ⟨q, ran⟩ :=
              matchElement_leaf stage sound stands leaf quiet opened levels path takes
            exact ensures_of_ok ran fun _ => by rw [Nat.add_sub_cancel_left]
        | false =>
            have inner := matchKind_finds stage compact unmarked selective
              (matchElement_agrees stage.reliable stage.reliable rfl levels)
              (fun around => matchElement_honours (.leafwise s input) stage levels (p.depth + 1)
                (by omega) False) (ih (p.depth + 1) (by omega)) definite inside stands leaf sound.entered
              rfl spells
            unfold Ensures
            rw [matchElement_entered quiet opened found]
            refine ensures_bind inner fun outcome q finds => ?_
            exact ensures_bind ensures_leave fun _ r same => ensures_pure fun going =>
              finds (same.symm.trans going)
      · obtain ⟨failure, -, refused⟩ := matchElement_refused may (levels + 1) id path
        exact ensures_of_ok refused nofun

end Dialect
