import Dialect.Proofs.Matching.OneOf
import Dialect.Proofs.Matching.Qualified
import Dialect.Proofs.Matching.Sequence
import Dialect.Proofs.Matching.Wrapper

/-!
# Elements keep the contract

The contract of an element follows from that of the elements below it
(`matchKind_honours`), level by level (`matchElement_honours`).  What is left open is when
an element may be entered and what is known of one of which nothing came; an `Agreement`
settles both in a way that fits how elements are matched.
-/

set_option autoImplicit false

namespace Dialect

/-- When an element may be entered, and what is known of an element of which nothing came,
in agreement with how elements are matched. -/
structure Agreement (s : Setting) (input : Input) where
  licence : ElementId → (position depth : Nat) → Prop
  idle : ElementId → (position : Nat) → Prop
  opens : ∀ {id position depth}, licence id position depth → position ≤ input.size → s.Open depth
  here : ∀ {id position depth kind item}, licence id position depth →
    s.grammar.kind? id = some kind → item ∈ kind.entriesAt s.options.version →
      licence item position (depth + 1)
  beyond : ∀ {id position depth kind item later}, licence id position depth →
    s.grammar.kind? id = some kind → item ∈ kind.parts → position < later →
      licence item later (depth + 1)
  leaf : ∀ {id position depth kind}, s.Open depth → s.grammar.kind? id = some kind →
    kind.isLeaf = true → licence id position depth
  declined : ∀ {id position kind path waved}, s.grammar.kind? id = some kind →
    kind.isLeaf = true → s.takes input path id kind waved position = .ok false →
      idle id position
  untouched : ∀ {id position kind}, s.grammar.kind? id = some kind → kind.isLeaf = false →
    kind.Idles s input idle position → idle id position

/-- The terms agreed on for elements that nest no deeper than `levels`. -/
def Agreement.terms {s : Setting} {input : Input} (agreement : Agreement s input) (levels : Nat) :
    Terms :=
  ⟨agreement.licence, Recorded s input levels, agreement.idle⟩

variable {s : Setting} {input : Input} {around outer : Path} {depth levels : Nat}
  {attempt : Attempt} {calm : Prop} {id : ElementId} {kind : Kind ElementId} {p q : Progress}

/-! ### Leaves -/

theorem leaves_leaf {below : Nat → ElementId → Record} {complete : Bool} {first last : Nat}
    {events : List Event} (leaf : kind.isLeaf = true)
    (leaves : kind.Leaves s input below id complete first last events) :
    complete = true ∧ last = first + 1 := by
  cases leaves with
  | token => exact ⟨rfl, rfl⟩
  | identifier => exact ⟨rfl, rfl⟩
  | _ => cases leaf

theorem recorded_leavesTakeOne (levels : Nat) :
    LeavesTakeOne s.grammar (Recorded s input levels) := by
  intro id kind stands leaf path complete first last events recorded
  cases levels with
  | zero => exact recorded.elim
  | succ levels =>
      obtain ⟨-, other, found, leaves⟩ := recorded
      obtain rfl : other = kind := Option.some.inj (found.symm.trans stands)
      exact leaves_leaf leaf leaves

/-! ### Entering and leaving -/

/-- The state one level deeper. -/
def Progress.entered (p : Progress) : Progress := { p with depth := p.depth + 1 }

theorem Progress.Sound.entered (sound : p.Sound s.grammar input) :
    p.entered.Sound s.grammar input :=
  ⟨sound.reads, sound.inside, sound.faithful⟩

/-- An element is entered, or it is refused because the parse is aborted. -/
theorem enter_eq (s : Setting) (p : Progress) :
    (p.failure = none ∧ s.Open p.depth ∧
      Matcher.enter s p = .ok true p.entered) ∨
    (¬ (p.failure = none ∧ s.Open p.depth) ∧ ∃ failure,
      (p.failure ≠ none → p.failure = some failure) ∧
        Matcher.enter s p = .ok false { p with failure := some failure }) := by
  unfold Matcher.enter
  rw [bind_apply, get_apply]
  dsimp only
  cases failed : p.failure with
  | some failure =>
      refine Or.inr ⟨fun both => (by cases both.1), _, fun _ => rfl, ?_⟩
      rw [if_pos (by simp), ← failed]
      rfl
  | none =>
      by_cases cancelled : s.cancelled = true
      · refine Or.inr ⟨fun both => ?_, .cancelled, fun failed => absurd rfl failed, ?_⟩
        · exact absurd (both.2.1.symm.trans cancelled) Bool.false_ne_true
        · simp [cancelled]
      · have free : s.cancelled = false := by simpa using cancelled
        by_cases deep : s.options.maxDepth ≤ p.depth
        · refine Or.inr ⟨fun both => absurd both.2.2 (Nat.not_lt.2 deep),
            .depthExceeded s.options.maxDepth, fun failed => absurd rfl failed, ?_⟩
          simp [free, deep]
        · refine Or.inl ⟨rfl, ⟨free, Nat.lt_of_not_le deep⟩, ?_⟩
          simp [free, deep, failed, Progress.entered]

/-- A parse that was withdrawn is aborted where it enters the next element. -/
theorem enter_cancelled (withdrawn : s.cancelled = true) (quiet : p.failure = none) :
    Matcher.enter s p = .ok false { p with failure := some .cancelled } := by
  simp only [Matcher.enter, bind_apply, get_apply, quiet, withdrawn]
  rfl

/-- What comes of an element that is refused. -/
theorem came_of_refusal {record : Record} {idle : Nat → Prop} (sound : p.Sound s.grammar input)
    (aborted : calm → p.failure ≠ none) {failure : Option Failure}
    (kept : p.failure ≠ none → p.failure = failure) :
    Came s.grammar calm record idle p .noMatch { p with failure } := by
  have inside := (Proceeds.refl calm sound).inside
  refine ⟨[], ⟨⟨rfl, rfl, fun _ member => member, fun failed => (kept failed).symm,
    fun quiet none => absurd none (aborted quiet)⟩, Cursor.extend_zero.symm, inside,
    sound.faithful⟩, rfl, fun quiet eager => absurd eager.1 (aborted quiet)⟩

theorem leave_eq (level : q.depth = depth + 1) : Matcher.leave q = .ok () { q with depth } := by
  unfold Matcher.leave
  rw [bind_apply, get_apply]
  simp [level]

/-- What is done inside an element, seen from outside. -/
theorem Came.leave {record : Record} {idle : Nat → Prop} {outcome : Outcome}
    (came : Came s.grammar calm record idle p.entered outcome q) :
    Matcher.leave q = .ok () { q with depth := p.depth } ∧
      Came s.grammar calm record idle p outcome { q with depth := p.depth } := by
  obtain ⟨events, moved, matched⟩ := came
  have level : q.depth = p.depth + 1 := moved.keeps.depth
  obtain ⟨-, scan, waved, aborted, quiet⟩ := moved.keeps
  exact ⟨leave_eq level, events, ⟨⟨rfl, scan, waved, aborted, quiet⟩, moved.cursor, moved.inside,
    moved.faithful⟩, matched⟩

theorem Came.imp {record record' : Record} {idle idle' : Nat → Prop} {outcome : Outcome}
    (came : Came s.grammar calm record idle p outcome q)
    (leaves : ∀ complete first last events, first < last → record complete first last events →
      record' complete first last events)
    (nothing : idle p.cursor.position → idle' p.cursor.position) :
    Came s.grammar calm record' idle' p outcome q := by
  obtain ⟨events, moved, matched⟩ := came
  refine ⟨events, moved, ?_⟩
  cases outcome with
  | noMatch => exact ⟨matched.1, fun quiet eager => nothing (matched.2 quiet eager)⟩
  | partialMatch n =>
      exact ⟨matched.1, leaves _ _ _ _ (Nat.lt_add_of_pos_right matched.1) matched.2⟩
  | fullMatch n =>
      exact ⟨matched.1, leaves _ _ _ _ (Nat.lt_add_of_pos_right matched.1) matched.2⟩

namespace Matcher

/-- Matches an element, given a way to match those below it. -/
def matchWith (s : Setting) (attempt : Attempt) : Attempt := fun id outer => do
  if ← enter s then
    let element ← s.grammar.element id
    let outcome ← matchKind s attempt id (outer.enter id) element.kind
    leave
    return outcome
  return .noMatch

end Matcher

theorem matchElement_succ (levels : Nat) :
    Matcher.matchElement s (levels + 1) = Matcher.matchWith s (Matcher.matchElement s levels) := rfl

section With

variable {outer : Path}

/-- What is done with an element that may be entered is done one level deeper. -/
theorem matchWith_entered (quiet : p.failure = none) (free : s.Open p.depth)
    {element : Element ElementId} (found : s.grammar.element id = .ok element) :
    Matcher.matchWith s attempt id outer p = (do
      let outcome ← Matcher.matchKind s attempt id (outer.enter id) element.kind
      Matcher.leave
      return outcome) p.entered := by
  rcases enter_eq s p with ⟨-, -, entered⟩ | ⟨shut, -⟩
  · unfold Matcher.matchWith
    rw [bind_apply, entered, found]
    rfl
  · exact absurd ⟨quiet, free⟩ shut

theorem matchWith_of_shut (refused : Matcher.enter s p = .ok false q) :
    Matcher.matchWith s attempt id outer p = .ok .noMatch q := by
  unfold Matcher.matchWith
  rw [bind_apply, refused]
  rfl

/-- An element that may not be entered is not matched. -/
theorem matchWith_refused (shut : ¬ (p.failure = none ∧ s.Open p.depth)) :
    ∃ failure, (p.failure ≠ none → p.failure = some failure) ∧
      ∀ attempt id outer, Matcher.matchWith s attempt id outer p =
        .ok .noMatch { p with failure := some failure } := by
  rcases enter_eq s p with ⟨quiet, free, -⟩ | ⟨-, failure, kept, refused⟩
  · exact absurd ⟨quiet, free⟩ shut
  · exact ⟨failure, kept, fun _ _ _ => matchWith_of_shut refused⟩

end With

/-- An element that may be entered is matched one level deeper. -/
theorem matchElement_entered (quiet : p.failure = none) (free : s.Open p.depth)
    {element : Element ElementId} (found : s.grammar.element id = .ok element) (levels : Nat)
    (outer : Path) :
    Matcher.matchElement s (levels + 1) id outer p = (do
      let outcome ← Matcher.matchKind s (Matcher.matchElement s levels) id (outer.enter id)
        element.kind
      Matcher.leave
      return outcome) p.entered :=
  matchWith_entered quiet free found

theorem matchElement_of_shut (refused : Matcher.enter s p = .ok false q) (levels : Nat)
    (id : ElementId) (outer : Path) : Matcher.matchElement s levels id outer p = .ok .noMatch q := by
  cases levels with
  | zero =>
      simp only [Matcher.matchElement, bind_apply, refused]
      rfl
  | succ levels => exact matchWith_of_shut refused

/-- An element that may not be entered is not matched. -/
theorem matchElement_refused (shut : ¬ (p.failure = none ∧ s.Open p.depth)) (levels : Nat)
    (id : ElementId) (outer : Path) :
    ∃ failure, (p.failure ≠ none → p.failure = some failure) ∧
      Matcher.matchElement s levels id outer p =
        .ok .noMatch { p with failure := some failure } := by
  rcases enter_eq s p with ⟨quiet, free, -⟩ | ⟨-, failure, kept, refused⟩
  · exact absurd ⟨quiet, free⟩ shut
  · exact ⟨failure, kept, matchElement_of_shut refused levels id outer⟩

/-- An element that was matched was entered. -/
theorem open_of_match {outcome : Outcome} {levels : Nat} {id : ElementId} {outer : Path}
    (isMatch : outcome.isMatch = true)
    (ran : Matcher.matchElement s levels id outer p = .ok outcome q) :
    p.failure = none ∧ s.Open p.depth := by
  by_contra shut
  obtain ⟨failure, -, refused⟩ := matchElement_refused shut levels id outer
  rw [ran] at refused
  cases refused
  cases isMatch

theorem matchElement_cancelled (withdrawn : s.cancelled = true) (quiet : p.failure = none)
    (levels : Nat) (id : ElementId) (outer : Path) :
    Matcher.matchElement s levels id outer p =
      .ok .noMatch { p with failure := some .cancelled } :=
  matchElement_of_shut (enter_cancelled withdrawn quiet) levels id outer

/-! ### Steady leaves -/

theorem Progress.atWaved_mono (soundP : p.Sound s.grammar input) (soundQ : q.Sound s.grammar input)
    (position : q.cursor.position = p.cursor.position)
    (waved : ∀ entry ∈ p.waved, entry ∈ q.waved) (held : p.atWaved = true) :
    q.atWaved = true := by
  unfold Progress.atWaved at held ⊢
  rw [soundP.current_eq] at held
  rw [soundQ.current_eq, position]
  cases current : input.token? p.cursor.position with
  | none => simp [current] at held
  | some token =>
      simp only [current, Progress.isWaved, List.contains_iff_mem] at held ⊢
      rw [position]
      exact waved _ held

/-- A leaf that takes the token is matched. -/
theorem matchElement_leaf (stage : Stage s input) (sound : p.Sound s.grammar input)
    (stands : s.grammar.kind? id = some kind) (leaf : kind.isLeaf = true)
    (quiet : p.failure = none) (free : s.Open p.depth) (levels : Nat) (outer : Path)
    (takes : s.takes input (outer.enter id) id kind p.atWaved p.cursor.position = .ok true) :
    ∃ q, Matcher.matchElement s (levels + 1) id outer p = .ok (.fullMatch 1) q := by
  obtain ⟨element, found, rfl⟩ := element_of_kind? stands
  have decided : Decides s.grammar id _ p.entered
      (s.takes input (outer.enter id) id element.kind p.atWaved p.cursor.position) :=
    leaf_decides stage sound.entered leaf (Matcher.matchElement s levels) id (outer.enter id)
  rw [takes] at decided
  obtain ⟨memo, -, ran⟩ := decided
  obtain ⟨inside, -⟩ := leaves_of_takes (fun _ _ _ _ _ _ => True) takes
  rw [← sound.reads] at inside
  have took : Matcher.takeLeaf id { p.entered with memo } = _ := takeLeaf_eq inside
  rw [matchElement_entered quiet free found, bind_apply, ran, took]
  exact ⟨_, rfl⟩

/-- A leaf that was matched takes the token. -/
theorem takes_of_matchElement (stage : Stage s input) (sound : p.Sound s.grammar input)
    (stands : s.grammar.kind? id = some kind) (leaf : kind.isLeaf = true)
    (quiet : p.failure = none) (free : s.Open p.depth) {levels n : Nat} {outer : Path}
    (ran : Matcher.matchElement s (levels + 1) id outer p = .ok (.fullMatch n) q) :
    s.takes input (outer.enter id) id kind p.atWaved p.cursor.position = .ok true := by
  obtain ⟨element, found, rfl⟩ := element_of_kind? stands
  have decided : Decides s.grammar id _ p.entered
      (s.takes input (outer.enter id) id element.kind p.atWaved p.cursor.position) :=
    leaf_decides stage sound.entered leaf (Matcher.matchElement s levels) id (outer.enter id)
  rw [matchElement_entered quiet free found, bind_apply] at ran
  cases takes : s.takes input (outer.enter id) id element.kind p.atWaved p.cursor.position with
  | error fault =>
      rw [takes] at decided
      obtain ⟨r, failed⟩ := decided
      rw [failed] at ran
      cases ran
  | ok taken =>
      cases taken with
      | true => rfl
      | false =>
          rw [takes] at decided
          obtain ⟨memo, waved, -, -, passed⟩ := decided
          rw [passed] at ran
          cases ran

/-- Leaves take again what they have taken. -/
theorem matchElement_steady (stage : Stage s input) (levels : Nat) :
    Attempt.Steady s input (Matcher.matchElement s levels) := by
  intro id kind path p q n stands leaf sound ran
  by_cases may : p.failure = none ∧ s.Open p.depth
  · obtain ⟨quiet, free⟩ := may
    refine ⟨quiet, free, ?_⟩
    cases levels with
    | zero =>
        obtain ⟨-, -, entered⟩ := (enter_eq s p).resolve_right fun shut => shut.1 ⟨quiet, free⟩
        simp only [Matcher.matchElement, bind_apply, entered] at ran
        cases ran
    | succ levels =>
        have takes := takes_of_matchElement stage sound stands leaf quiet free ran
        intro r soundThere position depth quietThere waved
        refine matchElement_leaf stage soundThere stands leaf quietThere (by rwa [depth]) levels
          path ?_
        rw [position]
        exact takes_mono (Progress.atWaved_mono sound soundThere position waved) takes
  · obtain ⟨failure, -, refused⟩ := matchElement_refused may levels id path
    rw [refused] at ran
    cases ran

/-! ### Elements -/

/-- The contract of an element that has been entered. -/
theorem matchKind_honours (agreement : Agreement s input) (stage : Stage s input)
    (honest : attempt.Honours s input around (agreement.terms levels) (depth + 1) calm)
    (leafwise : attempt.HonoursLeaves s input around (agreement.terms levels) (depth + 1))
    (steady : Attempt.Steady s input attempt) (within : outer.Within s.grammar around)
    (stands : s.grammar.kind? id = some kind) (sound : p.Sound s.grammar input)
    (level : p.depth = depth + 1) (free : calm → agreement.licence id p.cursor.position depth) :
    Ensures (Excused s.grammar input around)
      (Matcher.matchKind s attempt id (outer.enter id) kind) p
      (Came s.grammar calm (kind.Leaves s input ((agreement.terms levels).below id outer) id)
        (agreement.idle id) p) := by
  have single : LeavesTakeOne s.grammar (agreement.terms levels).record :=
    recorded_leavesTakeOne levels
  -- The entries may be entered here, and all parts at later positions.
  have here : calm → ∀ item ∈ kind.entriesAt s.options.version,
      (agreement.terms levels).licence item p.cursor.position (depth + 1) :=
    fun quiet item entry => agreement.here (free quiet) stands entry
  have beyond : calm → ∀ item ∈ kind.parts, ∀ position, p.cursor.position < position →
      (agreement.terms levels).licence item position (depth + 1) :=
    fun quiet item member position further => agreement.beyond (free quiet) stands member further
  by_cases leaf : kind.isLeaf = true
  · have place : Path.Within s.grammar (outer.enter id) around := by
      apply within.push stands
      rintro slots rfl
      cases leaf
    refine (ensures_leaf stage sound place.inside (place.excused input)
      (Grammar.lt_of_kind?_eq_some stands) leaf calm _).imp
      fun outcome q came => came.imp (fun _ _ _ _ _ leaves => leaves) ?_
    rintro ⟨waved, declined⟩
    exact agreement.declined stands leaf declined
  · have composite : kind.isLeaf = false := by simpa using leaf
    have untouched : ∀ outcome q,
        Came s.grammar calm (kind.Leaves s input ((agreement.terms levels).below id outer) id)
          (kind.Idles s input (agreement.terms levels).idle) p outcome q →
        Came s.grammar calm (kind.Leaves s input ((agreement.terms levels).below id outer) id)
          (agreement.idle id) p outcome q :=
      fun outcome q came =>
        came.imp (fun _ _ _ _ _ leaves => leaves) (agreement.untouched stands composite)
    cases kind with
    | token type text flavor => exact absurd rfl leaf
    | identifier use isAlias object => exact absurd rfl leaf
    | sequence slots =>
        exact (sequence_honours stage honest within stands sound level here fun quiet slot member =>
          beyond quiet slot.item (List.mem_map_of_mem member)).imp untouched
    | wrapper opening content closing repeated =>
        cases repeated with
        | false =>
            exact (wrapper_honours stage honest single within stands sound level
              (fun quiet => here quiet opening (by simp [Kind.entriesAt]))
              fun quiet position further =>
                ⟨beyond quiet content.item (by simp [Kind.parts]) position further,
                  beyond quiet closing (by simp [Kind.parts]) position further⟩).imp untouched
        | true =>
            refine (balanced_honours stage honest single within stands sound level
              (fun quiet => ⟨here quiet opening ?_, fun active =>
                here quiet content.item (by simp [Kind.entriesAt, active])⟩)
              fun quiet position further =>
                ⟨beyond quiet opening (by simp [Kind.parts]) position further,
                  beyond quiet content.item (by simp [Kind.parts]) position further,
                  beyond quiet closing (by simp [Kind.parts]) position further⟩).imp untouched
            simp only [Kind.entriesAt]
            split <;> simp
    | oneOf alternatives sortable =>
        refine (oneOf_honours stage honest within stands sound level
          fun quiet slot member active => here quiet slot.item ?_).imp untouched
        exact List.mem_map_of_mem (List.mem_filter.2 ⟨member, active⟩)
    | iteration item separator =>
        exact (iteration_honours stage honest single within stands sound level
          (fun quiet => here quiet item (by simp [Kind.entriesAt])) fun quiet position further =>
            ⟨beyond quiet item (by simp [Kind.parts]) position further, fun between same =>
              beyond quiet between (by simp [Kind.parts, Option.mem_def.1 same]) position
                further⟩).imp untouched
    | qualified variants separator =>
        have names : NameStage s input around outer (agreement.terms levels) (depth + 1) attempt id
            separator :=
          { stage, honest := leafwise, single
            within := fun slot => within.push stands fun slots same => by cases same
            separates := (stage.wellFormed.placed id _ stands).2.2.2
            free := fun may leaf kind position stands isLeaf => agreement.leaf may stands isLeaf }
        refine (qualified_honours names steady stands sound level fun quiet => ?_).imp untouched
        obtain ⟨nonempty, filled, -⟩ := stage.wellFormed.placed id _ stands
        obtain ⟨variant, others, rfl⟩ := List.exists_cons_of_ne_nil nonempty
        obtain ⟨part, rest, rfl⟩ := List.exists_cons_of_ne_nil (filled variant (by simp)).1
        exact agreement.opens (here quiet part (by simp [Kind.entriesAt])) sound.inside
    | reference target =>
        obtain ⟨name, rule⟩ := stage.wellFormed.targets id target stands
        have place : Path.Within s.grammar (outer.enter id) around := by
          apply within.push stands
          intro slots same
          cases same
        refine (honest target (stage.wellFormed.roots name target rule) _ p place sound level
          fun quiet => here quiet target (by simp [Kind.entriesAt])).imp fun outcome q came => ?_
        refine untouched outcome q (came.imp (fun _ _ _ _ _ matched => .reference matched) ?_)
        intro nothing item tried
        obtain rfl := List.mem_singleton.1 tried
        exact nothing

/-- What an element that has been entered comes to is recorded when it is left. -/
theorem ensures_left (agreement : Agreement s input) {step : Matcher Outcome}
    (stands : s.grammar.kind? id = some kind)
    (inner : Ensures (Excused s.grammar input around) step p.entered
      (Came s.grammar calm (kind.Leaves s input ((agreement.terms levels).below id outer) id)
        (agreement.idle id) p.entered)) :
    Ensures (Excused s.grammar input around) (do
        let outcome ← step
        Matcher.leave
        return outcome) p.entered
      (Came s.grammar calm (Recorded s input (levels + 1) id outer) (agreement.idle id) p) := by
  refine ensures_bind inner fun outcome q came => ?_
  have recorded : Came s.grammar calm (Recorded s input (levels + 1) id outer)
      (agreement.idle id) p.entered outcome q :=
    came.imp (fun _ _ _ _ further leaves => ⟨further, _, stands, leaves⟩) fun nothing => nothing
  obtain ⟨left, outside⟩ := recorded.leave
  exact ensures_bind_of_ok left (ensures_pure outside)

/-- **Every element keeps the contract**, at any depth, if there are levels enough for the
depth that is left. -/
theorem matchElement_honours (agreement : Agreement s input) (stage : Stage s input) :
    ∀ (levels depth : Nat), s.options.maxDepth ≤ levels + depth → ∀ calm : Prop,
      Attempt.Honours s input around (agreement.terms levels) depth calm
        (Matcher.matchElement s levels) := by
  intro levels
  -- With no levels left the depth is at its bound, so nothing can be entered.
  induction levels with
  | zero =>
      intro depth enough calm id bound path p within sound level free
      subst level
      have shut : ¬ (p.failure = none ∧ s.Open p.depth) := by
        rintro ⟨-, -, below⟩
        omega
      obtain ⟨failure, kept, refused⟩ := matchElement_refused shut 0 id path
      exact ensures_of_ok refused (came_of_refusal sound
        (fun quiet none => shut ⟨none, agreement.opens (free quiet) sound.inside⟩) kept)
  | succ levels ih =>
      intro depth enough calm id bound path p within sound level free
      subst level
      by_cases may : p.failure = none ∧ s.Open p.depth
      · obtain ⟨quiet, opened⟩ := may
        obtain ⟨element, found⟩ := element_of_lt bound
        have stands := kind?_of_element found
        have deeper := ih (p.depth + 1) (by omega)
        have inner := matchKind_honours agreement stage (deeper calm)
          (fun _ _ stands _ => (deeper _).leaf stands) (matchElement_steady stage levels) within
          stands sound.entered rfl free
        unfold Ensures
        rw [matchElement_entered quiet opened found]
        exact ensures_left agreement stands inner
      · obtain ⟨failure, kept, refused⟩ := matchElement_refused may (levels + 1) id path
        exact ensures_of_ok refused (came_of_refusal sound
          (fun quiet none => may ⟨none, agreement.opens (free quiet) sound.inside⟩) kept)

end Dialect
