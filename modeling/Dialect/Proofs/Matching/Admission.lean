import Dialect.Matching.Choice
import Dialect.Proofs.Matching.Contract

/-!
# The alternatives that are tried

Of the alternatives of a choice only those are tried that the setting lets through at the current
token (`Setting.lets`).  The others are passed over, and nothing but the memo changes on the way to
the next one that is tried (`tryAlternatives_try`).
-/

set_option autoImplicit false

namespace Dialect

/-- Whether an alternative is tried at a token of the given type. -/
def Setting.lets (s : Setting) (unfiltered : Bool) (current : TokenTypeId) (slot : Slot ElementId) :
    Bool :=
  slot.isActive s.options.version && (unfiltered || !s.predictor.selective ||
    (FirstSets.ofElement s.grammar slot.item).possible.contains current)

/-- Whether an alternative is tried at the token at a position of the input. -/
def Setting.letsAt (s : Setting) (input : Input) (k : Nat) (current : Token) :
    Slot ElementId → Bool :=
  s.lets ((input.cursorAt k).atPlaceholder ||
    s.grammar.vocabulary.has TokenType.isChameleon current.kind) current.kind

theorem Setting.active_of_lets {s : Setting} {unfiltered : Bool} {current : TokenTypeId}
    {slot : Slot ElementId} (lets : s.lets unfiltered current slot = true) :
    slot.isActive s.options.version = true := by
  unfold Setting.lets at lets
  simp_all

/-! ### Trying every alternative -/

/-- The same predictions, but every active alternative of a choice is tried. -/
def Predictor.exhaustive (predictor : Predictor) : Predictor := { predictor with selective := false }

/-- The same setting, but every active alternative of a choice is tried. -/
def Setting.exhaustive (s : Setting) : Setting := { s with predictor := s.predictor.exhaustive }

theorem Predictor.Reliable.exhaustive {g : Grammar} {predictor : Predictor}
    (reliable : predictor.Reliable g) : predictor.exhaustive.Reliable g :=
  ⟨reliable.firsts, reliable.children⟩

theorem Stage.exhaustive {s : Setting} {input : Input} (stage : Stage s input) :
    Stage s.exhaustive input :=
  ⟨stage.wellFormed, stage.reliable.exhaustive, stage.known⟩

theorem Setting.lets_exhaustive {unfiltered : Bool} {current : TokenTypeId} {slot : Slot ElementId}
    (s : Setting) : s.exhaustive.lets unfiltered current slot = slot.isActive s.options.version := by
  simp [Setting.lets, Setting.exhaustive, Predictor.exhaustive]

/-! ### Passing over alternatives -/

section Alternatives

open Matcher

variable {s : Setting} {slot : Slot ElementId} {skipped rest : List (Slot ElementId)} {p : Progress}

/-- Whether an alternative is worth trying is found out without changing more than the memo. -/
theorem admits_eq (reliable : s.predictor.Reliable s.grammar) (unfiltered : Bool)
    (current : TokenTypeId) (bound : slot.item < s.grammar.elements.size)
    (faithful : p.memo.Faithful s.grammar) :
    ∃ memo, memo.Faithful s.grammar ∧
      admits s unfiltered current slot p = .ok (s.lets unfiltered current slot) { p with memo } := by
  unfold admits Setting.lets
  cases active : slot.isActive s.options.version with
  | false => exact ⟨p.memo, faithful, rfl⟩
  | true =>
      cases wide : unfiltered || !s.predictor.selective with
      | true => exact ⟨p.memo, faithful, rfl⟩
      | false =>
          obtain ⟨memo, kept, ran⟩ := answers_couldStart reliable current slot.item p.memo faithful
          rw [Grammar.couldStart_of_lt current bound] at ran
          exact ⟨memo, kept, query_eq ran⟩

/-- Tries an alternative, and those behind it unless it matches in full. -/
def Matcher.tryThen (s : Setting) (attempt : Attempt) (path : Path) (unfiltered : Bool)
    (current : TokenTypeId) (slot : Slot ElementId) (rest : List (Slot ElementId)) (index : Nat)
    (best : Option (Outcome × Snapshot)) : Matcher (Outcome ⊕ Option (Outcome × Snapshot)) := do
  let mark ← Cursor.mark
  let outcome ← attempt slot.item (path.moveTo index)
  if outcome.isFull then
    Cursor.release mark
    return .inl outcome
  if (← get).scan && outcome.isPartial && improves outcome best then
    let snapshot ← Cursor.takeBack mark
    tryAlternatives s attempt path unfiltered current rest (index + 1) (some (outcome, snapshot))
  else do
    Cursor.rollback mark
    tryAlternatives s attempt path unfiltered current rest (index + 1) best

variable (reliable : s.predictor.Reliable s.grammar) (attempt : Attempt) (path : Path)
  {unfiltered : Bool} {current : TokenTypeId}

include reliable

/-- Alternatives that are not let through are passed over. -/
theorem tryAlternatives_pass (rest : List (Slot ElementId))
    (bound : ∀ slot ∈ skipped, slot.item < s.grammar.elements.size)
    (refused : ∀ slot ∈ skipped, s.lets unfiltered current slot = false) (index : Nat)
    (best : Option (Outcome × Snapshot)) (faithful : p.memo.Faithful s.grammar) :
    ∃ memo, memo.Faithful s.grammar ∧
      tryAlternatives s attempt path unfiltered current (skipped ++ rest) index best p =
        tryAlternatives s attempt path unfiltered current rest (index + skipped.length) best
          { p with memo } := by
  induction skipped generalizing index p with
  | nil => exact ⟨p.memo, faithful, rfl⟩
  | cons slot more ih =>
      obtain ⟨memo, kept, asked⟩ := admits_eq reliable unfiltered current
        (bound slot List.mem_cons_self) faithful
      rw [refused slot List.mem_cons_self] at asked
      obtain ⟨memo', kept', passed⟩ := @ih { p with memo }
        (fun other member => bound other (List.mem_cons_of_mem _ member))
        (fun other member => refused other (List.mem_cons_of_mem _ member)) (index + 1) kept
      refine ⟨memo', kept', ?_⟩
      rw [List.cons_append]
      conv_lhs => unfold tryAlternatives
      rw [bind_apply, asked]
      dsimp only
      rw [show index + (slot :: more).length = index + 1 + more.length by
        rw [List.length_cons]; omega]
      exact passed

/-- The first alternative that is let through is tried. -/
theorem tryAlternatives_try
    (bound : ∀ slot ∈ skipped, slot.item < s.grammar.elements.size)
    (refused : ∀ slot ∈ skipped, s.lets unfiltered current slot = false)
    (here : slot.item < s.grammar.elements.size)
    (admitted : s.lets unfiltered current slot = true) (index : Nat)
    (best : Option (Outcome × Snapshot)) (faithful : p.memo.Faithful s.grammar) :
    ∃ memo, memo.Faithful s.grammar ∧
      tryAlternatives s attempt path unfiltered current (skipped ++ slot :: rest) index best p =
        tryThen s attempt path unfiltered current slot rest (index + skipped.length) best
          { p with memo } := by
  obtain ⟨memo, kept, passed⟩ := tryAlternatives_pass reliable attempt path (slot :: rest) bound
    refused index best faithful
  obtain ⟨memo', kept', asked⟩ := admits_eq reliable unfiltered current here
    (show ({ p with memo } : Progress).memo.Faithful s.grammar from kept)
  rw [admitted] at asked
  refine ⟨memo', kept', ?_⟩
  rw [passed]
  conv_lhs => unfold tryAlternatives
  rw [bind_apply, asked]
  rfl

end Alternatives

end Dialect
