import Dialect.Proofs.Matching.Run
import Dialect.Proofs.Tracking.Choice

/-!
# Elements side by side

From states with one cursor the second parse follows the first at every element
(`matchElement_attempts`), level by level.

Where it may come to more, two things are required of the attempts that the first parse makes
(`Pairing.Heeds`), so the first parse is guarded: it is halted where they do not hold.  An attempt
gives the same words free in both parses.  And where a part comes to nothing and is left out of an
element that is matched in full, the second parse keeps nothing incomplete of it.
-/

set_option autoImplicit false

namespace Dialect

/-! ### Attempts that keep the contract -/

section Guarded

variable {s : Setting} {input : Input} {guard : Guard} {levels depth : Nat} {chain : Chain}
  {p r r' : Progress}

/-- What is remembered makes no difference to how far the cursor has moved. -/
theorem Proceeds.of_alike {g : Grammar} {calm : Prop} {n : Nat} {events : List Event}
    (moved : Proceeds g calm p n events r') (alike : r.Alike g r') :
    Proceeds g calm p n events r := by
  rw [alike.same] at moved
  obtain ⟨⟨depth, scan, waved, aborted, quiet⟩, cursor, inside, -⟩ := moved
  exact ⟨⟨depth, scan, waved, aborted, quiet⟩, cursor, inside, alike.faithful⟩

theorem matchElement_honest (stage : Stage s input)
    (enough : s.options.maxDepth ≤ levels + depth) :
    Attempt.Honest s input depth (Matcher.matchElement s levels) := by
  intro id path p outcome r bound within sound level ran
  have kept := matchElement_honours (.leafwise s input) stage levels depth enough False id bound path
    p within sound level fun no => no.elim
  obtain ⟨events, moved, matched⟩ := kept.of_ok ran
  refine ⟨⟨events, moved⟩, fun isMatch => ?_⟩
  cases outcome with
  | noMatch => cases isMatch
  | partialMatch n => exact matched.1
  | fullMatch n => exact matched.1

theorem matchElementGuarded_honest (stage : Stage s input)
    (enough : s.options.maxDepth ≤ levels + depth) :
    Attempt.Honest s input depth (Matcher.matchElementGuarded s guard levels chain) := by
  intro id path p outcome r bound within sound level ran
  obtain ⟨r', plain, alike⟩ := guarded_eq_ok stage.reliable sound.faithful ran
  obtain ⟨⟨events, moved⟩, positive⟩ :=
    matchElement_honest stage enough id path p outcome r' bound within sound level plain
  exact ⟨⟨events, moved.of_alike alike⟩, positive⟩

/-- Leaves can be attempted wherever elements may be entered. -/
theorem matchElement_still (stage : Stage s input) (enough : s.options.maxDepth ≤ levels + depth)
    {id : ElementId} {kind : Kind ElementId} (stands : s.grammar.kind? id = some kind)
    (leaf : kind.isLeaf = true) :
    Attempt.Still s input depth (Matcher.matchElement s levels) id := by
  intro path p within sound level
  subst level
  by_cases may : p.failure = none ∧ s.Open p.depth
  · obtain ⟨quiet, opened⟩ := may
    obtain ⟨fewer, rfl⟩ : ∃ fewer, levels = fewer + 1 :=
      Nat.exists_eq_succ_of_ne_zero (by have := opened.2; omega)
    obtain ⟨element, found, rfl⟩ := element_of_kind? stands
    have place : (path.enter id).Within s.grammar [] :=
      within.push stands fun slots same => by rw [same] at leaf; cases leaf
    -- A path through which one can come is not astray, so nothing is to blame for a fault.
    have inner : Ensures Fault.Tame (Matcher.matchKind s (Matcher.matchElement s fewer) id
        (path.enter id) element.kind) p.entered _ :=
      ensures_leaf stage sound.entered place.inside
        (fun frame member astray => absurd ((place frame member).2 astray) List.not_mem_nil)
        (Grammar.lt_of_kind?_eq_some stands) leaf (s.Open p.depth) fun _ _ _ _ _ _ => True
    unfold Ensures
    rw [matchElement_entered quiet opened found]
    refine ensures_bind inner fun outcome q came => ?_
    obtain ⟨left, events, moved, -⟩ := came.leave
    exact ensures_bind_of_ok left (ensures_pure ⟨.of_proceeds moved, moved.sound sound⟩)
  · obtain ⟨failure, kept, refused⟩ := matchElement_refused may levels id path
    refine ensures_of_ok refused ⟨⟨⟨rfl, rfl, fun _ member => member, fun failed =>
      (kept failed).symm, fun opened none => absurd ⟨none, opened⟩ may⟩, fun kept => kept⟩,
      sound.reads, sound.inside, sound.faithful⟩

theorem matchElementGuarded_still (stage : Stage s input)
    (enough : s.options.maxDepth ≤ levels + depth) {id : ElementId} {kind : Kind ElementId}
    (stands : s.grammar.kind? id = some kind) (leaf : kind.isLeaf = true) :
    Attempt.Still s input depth (Matcher.matchElementGuarded s guard levels chain) id := by
  intro path p within sound level
  cases trips : guard chain id path p with
  | true => exact ensures_of_error (matchElementGuarded_of_trips trips levels) trivial
  | false =>
      unfold Ensures
      rw [matchElementGuarded_leaf stands leaf trips]
      exact matchElement_still stage enough stands leaf path p within sound level

end Guarded

namespace Pairing

open Matcher

variable {pair : Pairing} {sure : Path → Nat → Prop} {attempt attempt' : Attempt}
  {p q r t : Progress} {outer : Path} {id : ElementId} {kind : Kind ElementId}

/-! ### Elements that have been entered -/

/-- The same kind of element in both parses, given what is known of its choices.  The first falls
short with the second if it does not come to a full match from the `start`, or leaves nothing
out. -/
theorem tracks_matchKind {chain : Chain} {start : Progress} (fair : pair.Fair)
    (attempts : pair.Attempts
      (fun path position => pair.first.omits ((id, start) :: chain) path position = true)
      attempt attempt')
    (stands : pair.first.grammar.kind? id = some kind) (within : outer.Within pair.first.grammar [])
    (choice : ∀ alternatives sortable, kind = .oneOf alternatives sortable →
      pair.Tracks (Outcome.Outdone True) (oneOf pair.first attempt (outer.enter id) id)
        (oneOf pair.second attempt' (outer.enter id) id) p q)
    (here : start.cursor = p.cursor) (abreast : pair.Abreast p q) :
    pair.Tracks (fun outcome outcome' =>
        outcome.Outdone (pair.first.completes id outer start = true) outcome' ∧ kind.isLeaf = false)
      (matchKind pair.first attempt id (outer.enter id) kind)
      (matchKind pair.second attempt' id (outer.enter id) kind) p q := by
  by_cases leaf : kind.isLeaf = true
  · exact (tracks_leaf fair abreast leaf attempt attempt' id _).imp fun _ _ _ never => never.elim
  · have composite : kind.isLeaf = false := by simpa using leaf
    have outdone : pair.Tracks (Outcome.Outdone (pair.first.completes id outer start = true))
        (matchKind pair.first attempt id (outer.enter id) kind)
        (matchKind pair.second attempt' id (outer.enter id) kind) p q := by
      -- Parts of a name are leaves, so the runs cannot differ in a name.
      cases kind with
      | token type text flavor => cases composite
      | identifier use isAlias object => cases composite
      | sequence slots =>
          refine tracks_sequence _ fair attempts stands within
            (fun completed k slot found optional position => ?_) abreast
          simp [Setting.omits, Setting.spares, stands, found, optional, completed]
      | wrapper opening slot closing repeated =>
          have spare : pair.first.completes id outer start = true → slot.optional = true →
              ∀ position, p.cursor.position < position →
                pair.first.omits ((id, start) :: chain) (⟨id, 1⟩ :: outer) position = true := by
            intro completed optional position further
            simp [Setting.omits, Setting.spares, stands, optional, here, further, completed]
          cases repeated with
          | false => exact tracks_wrapper attempts stands within fair spare abreast
          | true => exact tracks_balanced attempts stands within fair spare abreast
      | oneOf alternatives sortable =>
          exact (choice alternatives sortable rfl).imp fun _ _ _ outdone =>
            ⟨fun _ => outdone.1 trivial, outdone.2⟩
      | iteration item separator =>
          refine tracks_iteration _ fair attempts stands within
            (fun completed none position further => ?_) abreast
          subst none
          simp [Setting.omits, Setting.spares, stands, here, further, completed]
      | qualified variants separator =>
          exact (tracks_qualified attempts stands within fair abreast).imp
            fun _ _ _ never => never.elim
      | reference target =>
          have place : Path.Within pair.first.grammar (outer.enter id) [] :=
            within.push stands fun slots same => by cases same
          exact (attempts.tracks target _ p q (fair.stage.wellFormed.part_lt_size stands
            List.mem_cons_self) place abreast).imp fun _ _ _ gained =>
              .of_short gained.1.1 gained.1.2
    exact outdone.imp fun _ _ _ both => ⟨both, composite⟩

/-! ### Entering and leaving -/

/-- What is done inside an element, and leaving it. -/
def leaving (inner : Matcher Outcome) : Matcher Outcome := do
  let outcome ← inner
  leave
  return outcome

theorem Abreast.entered (abreast : pair.Abreast p q) : pair.deeper.Abreast p.entered q.entered :=
  ⟨⟨⟨abreast.reads, abreast.inside, abreast.faithful⟩, congrArg Nat.succ abreast.level⟩,
    ⟨congrArg Nat.succ abreast.depth, abreast.failure, abreast.keen, abreast.alike,
      abreast.remembered⟩, abreast.together, abreast.waved⟩

/-- Elements that have been entered are left in both parses. -/
theorem tracks_leaving {with_ : Outcome → Outcome → Prop}
    {step step' inner inner' : Matcher Outcome}
    (left : step p = leaving inner p.entered) (right : step' q = leaving inner' q.entered)
    (tracks : pair.deeper.Tracks with_ inner inner' p.entered q.entered) :
    pair.Tracks with_ step step' p q := by
  intro outcome last ran
  rw [left, leaving] at ran
  obtain ⟨value, r, stepped, ran⟩ := bind_apply_eq_ok.1 ran
  obtain ⟨goes, follows⟩ := tracks value r stepped
  simp only [bind_apply, leave_eq goes.level, pure_apply] at ran
  cases ran
  refine ⟨⟨⟨⟨goes.reads, goes.inside, goes.faithful⟩, rfl⟩, goes.aborted⟩, fun quiet => ?_⟩
  replace follows := follows quiet
  rw [right, leaving, bind_apply]
  cases stepped' : inner' q.entered with
  | error fault t =>
      rw [stepped'] at follows
      exact follows
  | ok value' t =>
      rw [stepped'] at follows
      -- Whether or not the runs have departed, both are one level down.
      have level : t.depth = pair.depth + 1 := by
        rcases follows with ⟨-, after⟩ | ⟨-, -, beside⟩
        · exact after.level'
        · exact beside.depth.trans goes.level
      simp only [bind_apply, leave_eq level, pure_apply]
      rcases follows with ⟨rfl, after⟩ | ⟨gains, together, beside⟩
      · exact Or.inl ⟨rfl, ⟨⟨after.reads, after.inside, after.faithful⟩, rfl⟩, ⟨rfl, after.failure,
          after.keen, after.alike, after.remembered⟩, after.together, after.waved⟩
      · exact Or.inr ⟨gains, together, rfl, beside.failure, beside.keen, beside.alike,
          beside.remembered⟩

/-- Nothing is known of the second parse where the first is aborted. -/
theorem tracks_refused {with_ : Outcome → Outcome → Prop} {step step' : Matcher Outcome}
    {failure : Failure} (abreast : pair.Abreast p q)
    (refused : step p = .ok .noMatch { p with failure := some failure }) :
    pair.Tracks with_ step step' p q := by
  intro outcome r ran
  rw [refused] at ran
  cases ran
  exact ⟨⟨⟨⟨abreast.reads, abreast.inside, abreast.faithful⟩, abreast.level⟩,
    fun _ => Option.some_ne_none failure⟩, fun none => by cases none⟩

/-! ### Elements -/

/-- The same parses at another depth. -/
abbrev atDepth (pair : Pairing) (depth : Nat) : Pairing := { pair with depth }

/-- Where the guard does not trip, the second parse does not come to more for a part that is left
out of an element that is matched in full, and the same words are given free in both. -/
def Heeds (pair : Pairing) (guard : Guard) : Prop :=
  pair.gains → ∀ levels chain id path p q outcome outcome' r t,
    levels + p.depth = pair.first.options.maxDepth → id < pair.first.grammar.elements.size →
      path.Within pair.first.grammar [] → (pair.atDepth p.depth).Abreast p q →
        guard chain id path p = false →
          matchElement pair.first levels id path p = .ok outcome r → r.failure = none →
            matchElement pair.second levels id path q = .ok outcome' t →
              t.waved = r.waved ∧
                (pair.first.omits chain path p.cursor.position = true → outcome = .noMatch →
                  outcome'.isPartial = false)

/-- What the guarded parse and the one beside it are known to do below an element. -/
abbrev Below (pair : Pairing) (guard : Guard) (levels depth : Nat) (chain : Chain) : Prop :=
  (pair.atDepth depth).Attempts
    (fun path position => pair.first.omits chain path position = true)
    (matchElementGuarded pair.first guard levels chain) (matchElement pair.second levels)

/-- Choices are followed if the elements below them are. -/
def Chooses (pair : Pairing) (guard : Guard) : Prop :=
  ∀ (depth levels : Nat) (chain : Chain) (outer : Path) (id : ElementId)
    (alternatives : List (Slot ElementId)) (sortable : Bool) (p q : Progress),
    (pair.atDepth depth).Fair → pair.Below guard levels depth chain →
    pair.first.grammar.kind? id = some (.oneOf alternatives sortable) →
    outer.Within pair.first.grammar [] → (pair.atDepth depth).Abreast p q →
      (pair.atDepth depth).Tracks (Outcome.Outdone True)
        (oneOf pair.first (matchElementGuarded pair.first guard levels chain) (outer.enter id) id)
        (oneOf pair.second (matchElement pair.second levels) (outer.enter id) id) p q

theorem chooses_of_selective (guard : Guard)
    (selective : pair.predictor.selective = pair.first.predictor.selective) :
    pair.Chooses guard := by
  intro depth levels chain outer id alternatives sortable p q fair attempts stands within abreast
  exact tracks_oneOf fair attempts selective stands within abreast

section Levels

variable {guard : Guard} {levels depth : Nat} (fair : pair.Fair) (chooses : pair.Chooses guard)
  (heeds : pair.Heeds guard) (enough : levels + depth = pair.first.options.maxDepth)
  (below : ∀ fewer, levels = fewer + 1 → ∀ chain, pair.Below guard fewer (depth + 1) chain)

include fair in
theorem Fair.atDepth (depth : Nat) : (pair.atDepth depth).Fair :=
  ⟨fair.stage, fair.version, fair.limit, fair.reliable⟩

include fair heeds enough in
/-- What the guard says of an attempt that the guarded parse makes. -/
theorem heeded {chain : Chain} (bound : id < pair.first.grammar.elements.size)
    (within : outer.Within pair.first.grammar []) (gains : pair.gains)
    (abreast : (pair.atDepth depth).Abreast p q) {outcome outcome' : Outcome}
    (ran : matchElementGuarded pair.first guard levels chain id outer p = .ok outcome r)
    (quiet : r.failure = none)
    (ran' : matchElement pair.second levels id outer q = .ok outcome' t) :
    t.waved = r.waved ∧ (pair.first.omits chain outer p.cursor.position = true →
      outcome = .noMatch → outcome'.isPartial = false) := by
  have level : p.depth = depth := abreast.level
  subst level
  have free : guard chain id outer p = false := by
    by_contra trips
    rw [matchElementGuarded_of_trips (by simpa using trips)] at ran
    cases ran
  obtain ⟨r', plain, alike⟩ := guarded_eq_ok fair.stage.reliable abreast.faithful ran
  have going : r'.failure = none := by
    rw [alike.same]
    exact quiet
  obtain ⟨waved, firm⟩ := heeds gains levels chain id outer p q outcome outcome' r' t enough bound
    within abreast free plain going ran'
  exact ⟨by rw [waved, alike.same], firm⟩

include fair enough in
/-- If the guarded parse comes to a full match, so does the parse without a guard; otherwise it
falls short. -/
theorem short_of_completes {chain : Chain} (bound : id < pair.first.grammar.elements.size)
    (within : outer.Within pair.first.grammar []) (at_ : (pair.atDepth depth).At p)
    {outcome : Outcome}
    (ran : matchElementGuarded pair.first guard levels chain id outer p = .ok outcome r)
    (short : pair.first.completes id outer p = true → outcome.Short) : outcome.Short := by
  obtain ⟨-, positive⟩ := matchElementGuarded_honest fair.stage enough.ge id outer p outcome r bound
    within at_.toSound at_.level ran
  obtain ⟨r', plain, -⟩ := guarded_eq_ok fair.stage.reliable at_.faithful ran
  cases outcome with
  | noMatch => exact Or.inl rfl
  | partialMatch n => exact Or.inr ⟨n, positive rfl, rfl⟩
  | fullMatch n =>
      have level : p.depth = depth := at_.level
      refine short ?_
      rw [Setting.completes, tried_eq (level ▸ enough), plain]
      rfl

include fair chooses below in
/-- An element that is entered is followed if the elements below it are. -/
theorem tracks_entered {chain : Chain} {fewer : Nat} (same : levels = fewer + 1)
    (bound : id < pair.first.grammar.elements.size) (within : outer.Within pair.first.grammar [])
    (free : guard chain id outer p = false) (quiet : p.failure = none)
    (opens : pair.first.Open p.depth) (abreast : (pair.atDepth depth).Abreast p q) :
    (pair.atDepth depth).Tracks
      (fun outcome outcome' =>
        outcome.Outdone (pair.first.completes id outer p = true) outcome' ∧
        ∀ kind, pair.first.grammar.kind? id = some kind → kind.isLeaf = false)
      (matchElementGuarded pair.first guard levels chain id outer)
      (matchElement pair.second levels id outer) p q := by
  have attempts := below fewer same ((id, p) :: chain)
  subst same
  obtain ⟨element, found⟩ := element_of_lt bound
  have stands := kind?_of_element found
  have opens' : pair.second.Open q.depth := by
    rw [show q.depth = p.depth from abreast.depth]
    exact ⟨opens.1, Nat.lt_of_lt_of_eq opens.2 fair.limit.symm⟩
  have inner : (pair.atDepth (depth + 1)).Tracks
      (fun outcome outcome' =>
        outcome.Outdone (pair.first.completes id outer p = true) outcome' ∧
        element.kind.isLeaf = false)
      (matchKind pair.first (matchElementGuarded pair.first guard fewer
        ((id, p) :: chain)) id (outer.enter id) element.kind)
      (matchKind pair.second (matchElement pair.second fewer) id (outer.enter id) element.kind)
      p.entered q.entered := by
    refine tracks_matchKind (p := p.entered) (fair.atDepth _) attempts stands within ?_ rfl
      abreast.entered
    intro alternatives sortable same
    rw [same] at stands
    exact chooses _ _ _ _ _ _ _ _ _ (fair.atDepth _) attempts stands within abreast.entered
  have left : matchElementGuarded pair.first guard (fewer + 1) chain id outer p = leaving
      (matchKind pair.first (matchElementGuarded pair.first guard fewer
        ((id, p) :: chain)) id (outer.enter id) element.kind) p.entered :=
    (matchElementGuarded_succ free fewer).trans (matchWith_entered quiet opens found)
  have right : matchElement pair.second (fewer + 1) id outer q = leaving
      (matchKind pair.second (matchElement pair.second fewer) id (outer.enter id) element.kind)
      q.entered :=
    matchElement_entered (abreast.failure.trans quiet) opens' found fewer outer
  refine (tracks_leaving left right inner : (pair.atDepth depth).Tracks _ _ _ p q).imp ?_
  rintro outcome outcome' - ⟨outdone, composite⟩
  refine ⟨outdone, fun kind other => ?_⟩
  obtain rfl : element.kind = kind := Option.some.inj (stands.symm.trans other)
  exact composite

include fair chooses heeds enough below

/-- An element is followed if the elements below it are. -/
theorem tracks_matchElement {chain : Chain} (bound : id < pair.first.grammar.elements.size)
    (within : outer.Within pair.first.grammar []) (abreast : (pair.atDepth depth).Abreast p q) :
    (pair.atDepth depth).Tracks
      ((pair.atDepth depth).Gains (pair.first.omits chain outer p.cursor.position = true) id)
      (matchElementGuarded pair.first guard levels chain id outer)
      (matchElement pair.second levels id outer) p q := by
  have level : p.depth = depth := abreast.level
  cases trips : guard chain id outer p with
  | true =>
      intro outcome r ran
      rw [matchElementGuarded_of_trips trips] at ran
      cases ran
  | false =>
      by_cases may : p.failure = none ∧ pair.first.Open p.depth
      · obtain ⟨quiet, opens⟩ := may
        obtain ⟨fewer, same⟩ : ∃ fewer, levels = fewer + 1 :=
          Nat.exists_eq_succ_of_ne_zero (by have := opens.2; omega)
        have opens' : pair.second.Open depth :=
          ⟨opens.1, level ▸ Nat.lt_of_lt_of_eq opens.2 fair.limit.symm⟩
        intro outcome r ran
        obtain ⟨goes, follows⟩ := tracks_entered fair chooses below same bound within trips quiet
          opens abreast outcome r ran
        refine ⟨goes, fun still => ?_⟩
        replace follows := follows still
        cases ran' : matchElement pair.second levels id outer q with
        | error fault t =>
            rw [ran'] at follows
            exact follows
        | ok outcome' t =>
            rw [ran'] at follows
            refine follows.imp_right ?_
            rintro ⟨gains, ⟨⟨short, n, positive, rfl⟩, composite⟩, beside⟩
            replace short := short_of_completes fair enough bound within abreast.toAt ran short
            obtain ⟨-, firm⟩ := heeded fair heeds enough bound within gains abreast ran still ran'
            refine ⟨gains, ⟨⟨short, n, positive, rfl⟩, fun held none => ?_, opens', composite⟩,
              beside⟩
            cases firm held none
      · obtain ⟨-, failure, -, refused⟩ :=
          (enter_eq pair.first p).resolve_left fun opens => may ⟨opens.1, opens.2.1⟩
        exact tracks_refused abreast (matchElementGuarded_of_shut trips refused levels)

/-- What is attempted with some levels left is as it should be if that holds with fewer. -/
theorem attempts_of_below (chain : Chain) : pair.Below guard levels depth chain where
  tracks _ _ _ _ bound within abreast :=
    tracks_matchElement fair chooses heeds enough below bound within abreast
  waves gains _ _ _ _ _ _ _ _ bound within abreast ran quiet ran' :=
    (heeded fair heeds enough bound within gains abreast ran quiet ran').1
  honest := matchElementGuarded_honest fair.stage enough.ge
  honest' := matchElement_honest fair.stage' (fair.limit.trans enough.symm).le
  still _ _ _ stands leaf := ⟨matchElementGuarded_still fair.stage enough.ge stands leaf,
    matchElement_still fair.stage' (fair.limit.trans enough.symm).le stands leaf⟩

end Levels

/-- **At every depth the second parse follows the first**, with levels for the depth that is
left. -/
theorem matchElement_attempts {guard : Guard} (fair : pair.Fair) (chooses : pair.Chooses guard)
    (heeds : pair.Heeds guard) (levels depth : Nat)
    (enough : levels + depth = pair.first.options.maxDepth) (chain : Chain) :
    pair.Below guard levels depth chain := by
  induction levels generalizing depth chain with
  | zero =>
      exact attempts_of_below fair chooses heeds enough (fun _ none => by cases none) chain
  | succ levels ih =>
      refine attempts_of_below fair chooses heeds enough (fun fewer same chain => ?_) chain
      obtain rfl := Nat.succ.inj same
      exact ih (depth + 1) (by omega) chain

end Pairing

end Dialect
