import Dialect.Proofs.Enclosing.Parts

/-!
# An element comes to the same inside others

From the constructs to whole matches: whatever an element comes to by itself, it comes to inside
something that leaves the answers about what comes next as they are
(`matchElementGuarded_carries`).  What was recorded before the element makes no difference either
(`matchElement_behind`).
-/

set_option autoImplicit false

namespace Dialect

namespace Enclosure

variable {m : Enclosure}

section Elements

open Matcher

variable (fair : m.Fair)

include fair

theorem enter_carries : m.Carries Eq (enter m.source) (enter m.target) := by
  rintro ⟨c, depth, scan, waved, failure, memo⟩ q ⟨reads, same, faithful, faithful'⟩
  rw [same]
  unfold enter
  rw [bind_apply, bind_apply, get_apply, get_apply, fair.cancelled_eq, fair.options_eq]
  dsimp only
  cases failure with
  | some failure => exact follows_ok rfl ⟨reads, rfl, faithful, faithful'⟩
  | none =>
      simp only [Option.map_none, Option.isSome_none, Bool.false_eq_true, if_false]
      by_cases withdrawn : m.source.cancelled = true
      · rw [if_pos withdrawn, if_pos withdrawn]
        exact follows_ok rfl ⟨reads, rfl, faithful, faithful'⟩
      · rw [if_neg withdrawn, if_neg withdrawn]
        by_cases deep : m.source.options.maxDepth ≤ depth
        · rw [if_pos deep, if_pos (Nat.add_le_add_right deep _)]
          exact follows_ok rfl ⟨reads, rfl, faithful, faithful'⟩
        · rw [if_neg deep, if_neg fun far => deep (Nat.le_of_add_le_add_right far)]
          refine follows_ok rfl ⟨reads, ?_, faithful, faithful'⟩
          dsimp only [Option.map_none]
          rw [Nat.add_right_comm]

omit fair in
theorem leave_carries : m.Carries Eq leave leave := by
  rintro ⟨c, depth, scan, waved, failure, memo⟩ q ⟨reads, same, faithful, faithful'⟩
  rw [same]
  unfold leave
  rw [bind_apply, bind_apply, get_apply, get_apply]
  dsimp only
  cases depth with
  | zero => rintro value after ⟨⟩
  | succ depth =>
      have inside : ¬ depth + 1 + m.depth = 0 := by omega
      rw [if_neg (Nat.succ_ne_zero depth), if_neg inside]
      refine follows_ok rfl ⟨reads, ?_, faithful, faithful'⟩
      dsimp only
      rw [Nat.add_right_comm, Nat.add_sub_cancel, Nat.add_sub_cancel]

variable {attempt attempt' : Attempt}

/-- **Each construct is matched alike inside something else.** -/
theorem matchKind_follows (attempts : m.Attempts attempt attempt') {id : ElementId} (outer : Path)
    {kind : Kind ElementId} (stands : m.source.grammar.kind? id = some kind) {p q : Progress}
    (states : m.States p q) (quiet : m.Quiet id outer p) :
    m.Follows Eq (matchKind m.source attempt id (outer.enter id) kind p)
      (matchKind m.target attempt' id (outer.enter id ++ m.around) kind q) := by
  cases kind with
  | token type text flavor => exact token_follows fair outer stands states quiet
  | identifier use isAlias object => exact identifier_follows fair outer stands states quiet
  | sequence slots => exact sequence_carries fair attempts ⟨id, 0⟩ outer id slots p q states
  | wrapper opening slot closing repeated =>
      cases repeated with
      | false => exact wrapper_carries fair attempts ⟨id, 0⟩ outer id opening slot closing p q states
      | true => exact balanced_carries fair attempts ⟨id, 0⟩ outer id opening slot closing p q states
  | oneOf alternatives sortable => exact oneOf_carries fair attempts ⟨id, 0⟩ outer id p q states
  | iteration item separator =>
      exact iteration_carries fair attempts ⟨id, 0⟩ outer id item separator p q states
  | qualified variants separator =>
      exact qualified_carries fair attempts ⟨id, 0⟩ outer id variants separator p q states
  | reference target => exact attempts target (outer.enter id) p q states

/-- An element comes to the same inside something else if what is below it does. -/
theorem matchWith_follows (attempts : m.Attempts attempt attempt') {id : ElementId} (outer : Path)
    {p q : Progress} (states : m.States p q) (quiet : m.Quiet id outer p) :
    m.Follows Eq (matchWith m.source attempt id outer p)
      (matchWith m.target attempt' id (outer ++ m.around) q) := by
  unfold matchWith
  have entering := enter_carries fair p q states
  rcases enter_eq m.source p with ⟨-, -, entered⟩ | ⟨-, failure, -, shut⟩
  · obtain ⟨_, q', entered', rfl, states⟩ := entering _ _ entered
    rw [bind_of_ok entered, bind_of_ok entered', if_pos rfl, if_pos rfl]
    refine follows_bind_check (fair.more.element id) fun element found => ?_
    refine follows_bind (matchKind_follows fair attempts outer (kind?_of_element found) states quiet)
      fun outcome _ r t same states => ?_
    subst same
    exact carries_bind_eq leave_carries (fun _ => carries_pure rfl) r t states
  · obtain ⟨_, q', shut', rfl, states⟩ := entering _ _ shut
    rw [bind_of_ok shut, bind_of_ok shut']
    exact follows_ok rfl states

/-- **What an element comes to by itself it comes to inside something else**, as long as it does not
look beyond itself for a token of one of the given types, and what is around has nothing to say
about the others. -/
theorem matchElementGuarded_carries {loud : TokenTypeId → Bool}
    (may : ∀ token, loud token = false → m.Silent token) (levels : Nat) (chain : Chain) :
    m.Attempts (matchElementGuarded m.source (m.source.looksBeyond loud) levels chain)
      (matchElement m.target levels) := by
  induction levels generalizing chain with
  | zero =>
      intro id path p q states
      cases trips : m.source.looksBeyond loud chain id path p with
      | true =>
          rw [matchElementGuarded_of_trips trips]
          exact carries_throw _ _ p q states
      | false =>
          rw [matchElementGuarded, guarded_of_not_trips trips]
          refine carries_bind_eq (enter_carries fair) (fun entered => ?_) p q states
          exact carries_ite (carries_bind_eq (carries_throw _ _) fun _ => carries_pure rfl)
            (carries_pure rfl)
  | succ levels ih =>
      intro id path p q states
      cases trips : m.source.looksBeyond loud chain id path p with
      | true =>
          rw [matchElementGuarded_of_trips trips]
          exact carries_throw _ _ p q states
      | false =>
          rw [matchElementGuarded_succ trips, matchElement_succ]
          exact matchWith_follows fair (ih _) path states (quiet_of_not_looksBeyond may trips)

/-- Something that has nothing to say makes no difference at all. -/
theorem matchElement_carries (may : ∀ token, m.Silent token) (levels : Nat) :
    m.Attempts (matchElement m.source levels) (matchElement m.target levels) := by
  have never : ∀ chain id outer p, m.source.looksBeyond (fun _ => false) chain id outer p = false := by
    simp [Setting.looksBeyond]
  rw [← matchElementGuarded_of_never never levels []]
  exact matchElementGuarded_carries fair (fun token _ => may token) levels []

end Elements

/-! ### What was recorded before -/

/-- The same parse behind another record. -/
def behind (s : Setting) (input : Input) (before : Array Event) (marks : Nat) : Enclosure :=
  ⟨s, s, input, [], 0, before, marks⟩

theorem behind_fair {s : Setting} {input : Input} (stage : Stage s input) (before : Array Event)
    (marks : Nat) : (behind s input before marks).Fair where
  more := .refl _
  wellFormed := stage.wellFormed
  wellFormed' := stage.wellFormed
  reliable := stage.reliable
  reliable' := stage.reliable
  selective_eq := rfl
  options_eq := rfl
  cancelled_eq := rfl
  must _ := rfl
  unnamed := rfl

end Enclosure

/-- **What was recorded before an element makes no difference to what it comes to.** -/
theorem matchElement_behind {s : Setting} {input : Input} (stage : Stage s input) {levels : Nat}
    {id : ElementId} {path : Path} {p : Progress} {outcome : Outcome} {last : Progress}
    (reads : p.cursor.input = input) (faithful : p.memo.Faithful s.grammar)
    (ran : Matcher.matchElement s levels id path (p.moveTo (input.cursorAt p.cursor.position)) =
      .ok outcome last) :
    ∃ last', Matcher.matchElement s levels id path p = .ok outcome last' ∧
      (Enclosure.behind s input p.cursor.events p.cursor.openMarks).States last last' := by
  have fair := Enclosure.behind_fair stage p.cursor.events p.cursor.openMarks
  have begun : (Enclosure.behind s input p.cursor.events p.cursor.openMarks).States
      (p.moveTo (input.cursorAt p.cursor.position)) p := by
    refine ⟨rfl, ?_, faithful, faithful⟩
    subst reads
    have failure : p.failure.map (Failure.deepen 0) = p.failure := by
      rcases p.failure with _ | ⟨_⟩ | ⟨_⟩ | _ | ⟨_⟩ <;> rfl
    have cursor : (Enclosure.behind s p.cursor.input p.cursor.events p.cursor.openMarks).cursor
        (p.cursor.input.cursorAt p.cursor.position) = p.cursor := by
      simp [Enclosure.behind, Enclosure.cursor, Input.cursorAt, Cursor.input]
    simp only [Progress.moveTo, cursor]
    rw [Enclosure.behind, Nat.add_zero, failure]
  obtain ⟨_, last', there, rfl, states⟩ :=
    Enclosure.matchElement_carries fair (fun _ => rfl) levels id path _ _ begun _ _ ran
  have around : path ++ (Enclosure.behind s input p.cursor.events p.cursor.openMarks).around = path :=
    List.append_nil path
  rw [around] at there
  exact ⟨last', there, states⟩

end Dialect
