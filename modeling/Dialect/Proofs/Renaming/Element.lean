import Dialect.Parse
import Dialect.Proofs.Renaming.Choice

/-!
# Images are matched alike

From the constructs to whole matches: an element is matched as its image is, as deep as the
options allow (`matchElement_reflects`), and so is the root of a parse (`matchRoot_reflects`).
-/

set_option autoImplicit false

namespace Dialect

namespace Mirror

variable {m : Mirror}

section Elements

open Matcher

variable (fair : m.Fair) (orderly : m.Orderly)

include fair

theorem enter_reflects : m.Reflects Eq (enter m.source) (enter m.target) := by
  rintro ⟨c, depth, scan, waved, failure, memo⟩ ⟨c', depth', scan', waved', failure', memo'⟩
    ⟨cursors, same, faithful, faithful'⟩
  obtain ⟨rfl, rfl, rfl, rfl⟩ :
      depth' = depth ∧ scan' = scan ∧ waved' = waved ∧ failure' = failure := by
    simpa using same
  unfold enter
  rw [bind_apply, bind_apply, get_apply, get_apply, fair.cancelled_eq, fair.options_eq]
  dsimp only
  cases failure' with
  | some failure => exact .ok rfl ⟨cursors, rfl, faithful, faithful'⟩
  | none =>
      simp only [Option.isSome_none, Bool.false_eq_true, if_false]
      by_cases withdrawn : m.source.cancelled = true
      · rw [if_pos withdrawn, if_pos withdrawn]
        exact .ok rfl ⟨cursors, rfl, faithful, faithful'⟩
      · rw [if_neg withdrawn, if_neg withdrawn]
        by_cases deep : m.source.options.maxDepth ≤ depth'
        · rw [if_pos deep, if_pos deep]
          exact .ok rfl ⟨cursors, rfl, faithful, faithful'⟩
        · rw [if_neg deep, if_neg deep]
          exact .ok rfl ⟨cursors, rfl, faithful, faithful'⟩

omit fair in
theorem leave_reflects : m.Reflects Eq leave leave := by
  rintro ⟨c, depth, scan, waved, failure, memo⟩ ⟨c', depth', scan', waved', failure', memo'⟩
    ⟨cursors, same, faithful, faithful'⟩
  obtain ⟨rfl, rfl, rfl, rfl⟩ :
      depth' = depth ∧ scan' = scan ∧ waved' = waved ∧ failure' = failure := by
    simpa using same
  unfold leave
  rw [bind_apply, bind_apply, get_apply, get_apply]
  dsimp only
  split
  · exact .error ⟨cursors, rfl, faithful, faithful'⟩
  · exact .ok rfl ⟨cursors, rfl, faithful, faithful'⟩

variable {attempt attempt' : Attempt}

include orderly

/-- **Each construct is matched like its image.** -/
theorem matchKind_reflects (attempts : m.Attempts attempt attempt') {id : ElementId}
    {outer outer' : Path} (paths : outer.Image m.element m.source.grammar outer')
    {kind kind' : Kind ElementId} (stands : m.source.grammar.kind? id = some kind)
    (image : kind.Image m.element kind') :
    m.Reflects Eq (matchKind m.source attempt id (outer.enter id) kind)
      (matchKind m.target attempt' (m.element id) (outer'.enter (m.element id)) kind') := by
  have inside := paths.enter id
  have choice : ∀ {alternatives sortable}, kind = .oneOf alternatives sortable →
      m.Reflects Eq (oneOf m.source attempt (outer.enter id) id)
        (oneOf m.target attempt' (outer'.enter (m.element id)) (m.element id)) := by
    rintro alternatives sortable rfl
    exact oneOf_reflects fair attempts paths orderly ⟨_, _, stands⟩
  cases image with
  | reordered => exact choice rfl
  | renamed =>
      cases kind with
      | token type text flavor => exact token_reflects fair inside id type text flavor
      | identifier use isAlias object => exact identifier_reflects fair inside id
      | sequence slots => exact sequence_reflects fair attempts inside id slots
      | wrapper opening slot closing repeated =>
          cases repeated with
          | false => exact wrapper_reflects fair attempts inside id opening slot closing
          | true => exact balanced_reflects fair attempts inside id opening slot closing
      | oneOf alternatives sortable => exact choice rfl
      | iteration item separator => exact iteration_reflects fair attempts inside id item separator
      | qualified variants separator =>
          exact qualified_reflects fair attempts inside id variants separator
      | reference target => exact attempts target _ _ inside

/-- **Every element is matched like its image.** -/
theorem matchElement_reflects (levels : Nat) :
    m.Attempts (matchElement m.source levels) (matchElement m.target levels) := by
  induction levels with
  | zero =>
      intro id path path' paths
      refine reflects_bind_eq (enter_reflects fair) fun entered =>
        reflects_ite ?_ (reflects_pure rfl)
      exact reflects_bind_eq (reflects_throw _) fun _ => reflects_pure rfl
  | succ levels ih =>
      intro id path path' paths
      refine reflects_bind_eq (enter_reflects fair) fun entered =>
        reflects_ite ?_ (reflects_pure rfl)
      refine reflects_bind (element_reflects fair id) fun element element' both => ?_
      refine reflects_bind_eq (matchKind_reflects fair orderly ih paths both.1 both.2)
        fun outcome => ?_
      exact reflects_bind_eq leave_reflects fun _ => reflects_pure rfl

omit orderly in
theorem reportLeftOver_reflects : m.Reflects Eq reportLeftOver reportLeftOver := by
  unfold reportLeftOver
  refine reflects_bind reflects_cursor fun c c' cursors => ?_
  rw [cursors.current?_eq fair.inputs, cursors.currentRange_eq fair.inputs,
    cursors.endOffset_eq fair.inputs]
  cases c.current? with
  | none => exact reflects_pure rfl
  | some token =>
      refine reflects_bind_eq (reflects_check rfl) fun range => ?_
      refine reflects_bind_eq (reflects_check rfl) fun stop => ?_
      exact reflects_bind_eq (reflects_check rfl) fun rest => reflects_move (moves_report _)

theorem matchRoot_reflects (root : ElementId) :
    m.Reflects Eq (matchRoot m.source root) (matchRoot m.target (m.element root)) := by
  unfold matchRoot run
  refine reflects_bind reflects_cursor fun c c' cursors => ?_
  rw [cursors.currentRange_eq fair.inputs, fair.options_eq]
  refine reflects_bind_eq (reflects_check rfl) fun range => ?_
  refine reflects_bind_eq (matchElement_reflects fair orderly _ root [] [] .nil) fun outcome => ?_
  refine reflects_ite ?_ (reflects_pure rfl)
  exact reflects_bind_eq (reportLeftOver_reflects fair) fun _ => reflects_pure rfl

end Elements

end Mirror

end Dialect
