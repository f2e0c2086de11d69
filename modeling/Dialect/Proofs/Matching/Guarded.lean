import Dialect.Parse
import Dialect.Proofs.Matching.Alike
import Dialect.Proofs.Matching.Run

/-!
# Parses that are halted

A condition on a parse is often one on what it does on the way: that an element is not entered in
a certain state, or that a question is not asked.  Such a condition is checked by a parse that is
halted as soon as it is broken (`matchElementGuarded`).  As long as that does not happen, it comes
to what the parse comes to that is not guarded (`run_of_not_halts`), so the guard says something
about that parse.
-/

set_option autoImplicit false

namespace Dialect

/-- The elements that are open, innermost first, each with the state it was matched from. -/
abbrev Chain := List (ElementId × Progress)

/-- When a parse is to be halted: as an element is about to be matched inside of others, from a
state. -/
abbrev Guard := Chain → ElementId → Path → Progress → Bool

/-- The guard that never trips. -/
def Guard.never : Guard := fun _ _ _ _ => false

namespace Matcher

/-- Halts the parse where the guard trips. -/
def guarded (guard : Guard) (chain : Chain) (attempt : Attempt) : Attempt := fun id outer => do
  if guard chain id outer (← get) then throw .tooDeep
  attempt id outer

/-- Matches an element as `matchElement` does, but halts the parse where the guard trips. -/
def matchElementGuarded (s : Setting) (guard : Guard) : (levels : Nat) → Chain → Attempt
  | 0, chain => guarded guard chain (matchElement s 0)
  | levels + 1, chain => guarded guard chain fun id outer => do
      let start ← get
      matchWith s (matchElementGuarded s guard levels ((id, start) :: chain)) id outer

end Matcher

open Matcher

/-- Whether a run of the element is halted by the guard. -/
def Setting.halts (s : Setting) (guard : Guard) (root : ElementId) (p : Progress) : Bool :=
  match matchElementGuarded s guard s.options.maxDepth [] root [] p with
  | .error .tooDeep _ => true
  | _ => false

/-- The parse that goes on may come to anything. -/
def Setting.Halt.any (s : Setting) : s.Halt := ⟨fun _ => True, fun _ _ => trivial⟩

section Guarded

variable {s : Setting} {guard : Guard} {chain : Chain} {attempt : Attempt} {id root : ElementId}
  {outer : Path} {p q r : Progress}

theorem halts_iff : s.halts guard root p = true ↔
    ∃ r, matchElementGuarded s guard s.options.maxDepth [] root [] p = .error .tooDeep r := by
  unfold Setting.halts
  split <;> simp_all

theorem guarded_of_trips (trips : guard chain id outer p = true) :
    guarded guard chain attempt id outer p = .error .tooDeep p := by
  simp only [guarded, bind_apply, get_apply, trips, if_true]
  rfl

theorem guarded_of_not_trips (free : guard chain id outer p = false) :
    guarded guard chain attempt id outer p = attempt id outer p := by
  simp only [guarded, bind_apply, get_apply, free]
  rfl

theorem matchElementGuarded_of_trips (trips : guard chain id outer p = true) (levels : Nat) :
    matchElementGuarded s guard levels chain id outer p = .error .tooDeep p := by
  cases levels <;> exact guarded_of_trips trips

/-- Where the guard does not trip, the element is matched as always, with a guard below it. -/
theorem matchElementGuarded_succ (free : guard chain id outer p = false) (levels : Nat) :
    matchElementGuarded s guard (levels + 1) chain id outer p =
      matchWith s (matchElementGuarded s guard levels ((id, p) :: chain)) id outer p := by
  rw [matchElementGuarded, guarded_of_not_trips free, bind_apply, get_apply]

theorem matchElementGuarded_of_shut (free : guard chain id outer p = false)
    (refused : enter s p = .ok false q) (levels : Nat) :
    matchElementGuarded s guard levels chain id outer p = .ok .noMatch q := by
  cases levels with
  | zero =>
      rw [matchElementGuarded, guarded_of_not_trips free]
      exact matchElement_of_shut refused 0 id outer
  | succ levels =>
      rw [matchElementGuarded_succ free]
      exact matchWith_of_shut refused

/-- A guard that never trips makes no difference. -/
theorem matchElementGuarded_of_never (never : ∀ chain id outer p, guard chain id outer p = false)
    (levels : Nat) (chain : Chain) :
    matchElementGuarded s guard levels chain = matchElement s levels := by
  induction levels generalizing chain with
  | zero =>
      funext id outer p
      exact guarded_of_not_trips (never chain id outer p)
  | succ levels ih =>
      funext id outer p
      rw [matchElementGuarded_succ (never chain id outer p), ih, matchElement_succ]

theorem matchElementGuarded_never (levels : Nat) (chain : Chain) :
    matchElementGuarded s .never levels chain = matchElement s levels :=
  matchElementGuarded_of_never (fun _ _ _ _ => rfl) levels chain

/-- Leaves are matched without a look at anything below. -/
theorem matchWith_leaf {kind : Kind ElementId} (stands : s.grammar.kind? id = some kind)
    (leaf : kind.isLeaf = true) (attempt attempt' : Attempt) (outer : Path) :
    matchWith s attempt id outer = matchWith s attempt' id outer := by
  obtain ⟨element, found, rfl⟩ := element_of_kind? stands
  have same : matchKind s attempt id (outer.enter id) element.kind =
      matchKind s attempt' id (outer.enter id) element.kind := by
    cases shape : element.kind <;> first | rfl | (rw [shape] at leaf; cases leaf)
  funext p
  by_cases may : p.failure = none ∧ s.Open p.depth
  · rw [matchWith_entered may.1 may.2 found, matchWith_entered may.1 may.2 found, same]
  · obtain ⟨failure, -, refused⟩ := matchWith_refused may
    rw [refused, refused]

/-- A leaf at which the guard does not trip is matched as always. -/
theorem matchElementGuarded_leaf {kind : Kind ElementId}
    (stands : s.grammar.kind? id = some kind) (leaf : kind.isLeaf = true)
    (free : guard chain id outer p = false) (levels : Nat) :
    matchElementGuarded s guard levels chain id outer p = matchElement s levels id outer p := by
  cases levels with
  | zero => exact guarded_of_not_trips free
  | succ levels =>
      rw [matchElementGuarded_succ free, matchElement_succ,
        matchWith_leaf stands leaf _ (matchElement s levels)]

/-- Whatever a parse comes to may stand beside one that is halted. -/
theorem together_any (agrees : Attempt.Agrees (.never s) attempt attempt)
    (alike : p.Alike s.grammar q) (id : ElementId) (outer : Path) :
    Together (.any s) p (.error .tooDeep r) (attempt id outer q) := by
  obtain ⟨leads, faithful⟩ := (agrees id outer q q (.refl alike.faithful')).follows
  refine .halted trivial ?_ faithful
  have same : q.failure = p.failure := by rw [alike.same]
  rwa [same] at leads

variable (reliable : s.predictor.Reliable s.grammar)

include reliable

/-- **A parse that is guarded comes to the same** as one that is not, unless it is halted. -/
theorem matchElementGuarded_agrees (guard : Guard) (levels : Nat) (chain : Chain) :
    Attempt.Agrees (.any s) (matchElementGuarded s guard levels chain) (matchElement s levels) := by
  induction levels generalizing chain with
  | zero =>
      intro id outer p q alike
      cases trips : guard chain id outer p with
      | true =>
          rw [matchElementGuarded_of_trips trips]
          exact together_any (matchElement_agrees reliable reliable rfl 0) alike id outer
      | false =>
          rw [matchElementGuarded, guarded_of_not_trips trips]
          exact matchElement_agrees reliable reliable rfl 0 id outer p q alike
  | succ levels ih =>
      intro id outer p q alike
      cases trips : guard chain id outer p with
      | true =>
          rw [matchElementGuarded_of_trips trips]
          exact together_any (matchElement_agrees reliable reliable rfl (levels + 1)) alike id outer
      | false =>
          rw [matchElementGuarded_succ trips]
          refine together_bind (enter_agrees p q alike) fun entered =>
            agree_ite (agree_bind (agree_check _) fun element => ?_) (agree_pure _)
          exact agree_bind (matchKind_agrees reliable reliable rfl (ih _) id _ _) fun outcome =>
            agree_bind leave_agrees fun _ => agree_pure _

/-- What a guarded match comes to, the match without the guard comes to. -/
theorem guarded_eq_ok (faithful : p.memo.Faithful s.grammar) {levels : Nat} {outcome : Outcome}
    (ran : matchElementGuarded s guard levels chain id outer p = .ok outcome r) :
    ∃ r', matchElement s levels id outer p = .ok outcome r' ∧ r.Alike s.grammar r' := by
  have both := matchElementGuarded_agrees reliable guard levels chain id outer p p (.refl faithful)
  rw [ran] at both
  generalize matchElement s levels id outer p = result at both ⊢
  cases both with
  | ok alike => exact ⟨_, rfl, alike⟩

/-- **A run that its guard does not halt is the run without a guard.** -/
theorem run_of_not_halts (faithful : p.memo.Faithful s.grammar)
    (free : s.halts guard root p = false) :
    Together (.never s) p (matchElementGuarded s guard s.options.maxDepth [] root [] p)
      (run s root [] p) := by
  have both := matchElementGuarded_agrees reliable guard s.options.maxDepth [] root [] p p
    (.refl faithful)
  unfold Setting.halts at free
  change Together _ p _ (run s root [] p) at both
  generalize matchElementGuarded s guard s.options.maxDepth [] root [] p = result,
    run s root [] p = result' at both free ⊢
  cases both with
  | ok alike leads => exact .ok alike leads
  | error alike leads => exact .error alike leads
  | halted => cases free

/-- What a run comes to that its guard does not halt, the guarded run comes to. -/
theorem guarded_of_not_halts (faithful : p.memo.Faithful s.grammar)
    (free : s.halts guard root p = false) {outcome : Outcome}
    (ran : run s root [] p = .ok outcome q) :
    ∃ r, matchElementGuarded s guard s.options.maxDepth [] root [] p = .ok outcome r ∧
      r.Alike s.grammar q := by
  have both := run_of_not_halts reliable faithful free
  rw [ran] at both
  generalize matchElementGuarded s guard s.options.maxDepth [] root [] p = result at both ⊢
  cases both with
  | ok alike leads => exact ⟨_, rfl, alike⟩
  | halted never => exact never.elim

end Guarded

/-! ### Whole parses -/

/-- Whether a parse of the tokens from the root on is halted by the guard. -/
def Setting.halted (s : Setting) (guard : Guard) (root : ElementId) (tokens : Array Token)
    (memo : Memo) : Bool :=
  match Progress.start s memo tokens with
  | .error _ => false
  | .ok p => s.halts guard root p

/-- Whether a parse is halted by the guard, also in what is given up again. -/
def Grammar.halted (g : Grammar) (guard : Setting → Guard) (tokens : Array Token)
    (rule : Option String) (options : Options) (cancelled : Bool) (memo : Memo) : Bool :=
  match g.startAt rule with
  | .error _ => false
  | .ok root =>
      (g.setting options cancelled).halted (guard (g.setting options cancelled)) root tokens memo

section Halted

variable {s : Setting} {g : Grammar} {guard : Setting → Guard} {root : ElementId}
  {tokens : Array Token} {rule : Option String} {options : Options} {cancelled : Bool} {memo : Memo}

theorem halted_of_start {guard : Guard} {p : Progress}
    (begun : Progress.start s memo tokens = .ok p) :
    s.halted guard root tokens memo = s.halts guard root p := by
  rw [Setting.halted, begun]

theorem halted_of_startAt (started : g.startAt rule = .ok root) :
    g.halted guard tokens rule options cancelled memo =
      (g.setting options cancelled).halted (guard (g.setting options cancelled)) root tokens
        memo := by
  rw [Grammar.halted, started]

theorem halted_of_unknown {failure : Failure} (unknown : g.startAt rule = .error failure) :
    g.halted guard tokens rule options cancelled memo = false := by
  rw [Grammar.halted, unknown]

end Halted

end Dialect
