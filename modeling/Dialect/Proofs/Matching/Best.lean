import Dialect.Matching.Choice
import Mathlib.Data.List.Induction

/-!
# The best of several attempts

Where nothing matches in full, the best partial match is held on to while others are tried
(`fallBack`).  What is held in the end is the first of the best (`foldl_fallBack`).
-/

set_option autoImplicit false

namespace Dialect

theorem Outcome.exists_of_isFull {outcome : Outcome} (full : outcome.isFull = true) :
    ∃ n, outcome = .fullMatch n := by
  cases outcome with
  | fullMatch n => exact ⟨n, rfl⟩
  | _ => cases full

theorem Outcome.exists_of_isPartial {outcome : Outcome} (part : outcome.isPartial = true) :
    ∃ n, outcome = .partialMatch n := by
  cases outcome with
  | partialMatch n => exact ⟨n, rfl⟩
  | _ => cases part

theorem Outcome.eq_noMatch {outcome : Outcome} (notFull : outcome.isFull = false)
    (notPartial : outcome.isPartial = false) : outcome = .noMatch := by
  cases outcome with
  | noMatch => rfl
  | partialMatch n => cases notPartial
  | fullMatch n => cases notFull

/-- Among partial matches those with more tokens are better. -/
theorem Outcome.isBetterThan_iff_of_partial {a b : Outcome} (partialA : a.isPartial = true)
    (partialB : b.isPartial = true) : a.isBetterThan b = true ↔ b.tokens < a.tokens := by
  cases a with
  | partialMatch n =>
      cases b with
      | partialMatch k => simp [isBetterThan, compare, rank, tokens, Nat.compare_eq_gt]
      | _ => cases partialB
  | _ => cases partialA

section Best

variable {α : Type} {came : α → Outcome} {items : List α} {best : α}

/-- What came of the item is a partial match, better than each that came before it, and no worse
than each that came after it. -/
def Best (came : α → Outcome) (items : List α) (best : α) : Prop :=
  ∃ earlier later, items = earlier ++ best :: later ∧ (came best).isPartial = true ∧
    (∀ other ∈ earlier, (came other).isPartial = true →
      (came best).isBetterThan (came other) = true) ∧
    ∀ other ∈ later, (came other).isPartial = true →
      (came other).isBetterThan (came best) = false

/-- What to fall back on when one more item has been tried. -/
def fallBack (came : α → Outcome) (held : Option α) (item : α) : Option α :=
  if (came item).isPartial &&
      Matcher.improves (came item) (held.map fun other => (came other, other)) then some item
  else held

/-- One more item leaves the best one, or takes its place. -/
theorem Best.fallBack (leads : Best came items best) (last : α) :
    ∃ kept, fallBack came (some best) last = some kept ∧ Best came (items ++ [last]) kept := by
  obtain ⟨earlier, later, rfl, part, better, noWorse⟩ := leads
  -- The last item leads only if it gets further than the best, which nothing before does.
  by_cases improves : (came last).isPartial = true ∧ (came last).isBetterThan (came best) = true
  · obtain ⟨partLast, above⟩ := improves
    refine ⟨last, by simp [Dialect.fallBack, Matcher.improves, partLast, above], _, [], rfl,
      partLast, fun other member partOther => ?_, List.forall_mem_nil _⟩
    rw [Outcome.isBetterThan_iff_of_partial partLast part] at above
    rw [Outcome.isBetterThan_iff_of_partial partLast partOther]
    have atMost : (came other).tokens ≤ (came best).tokens := by
      rw [List.mem_append, List.mem_cons] at member
      rcases member with before | rfl | after
      · have below := better other before partOther
        rw [Outcome.isBetterThan_iff_of_partial part partOther] at below
        omega
      · exact Nat.le_refl _
      · have beyond := noWorse other after partOther
        rw [← Bool.not_eq_true, Outcome.isBetterThan_iff_of_partial partOther part] at beyond
        omega
    omega
  · refine ⟨best, ?_, earlier, later ++ [last], by simp, part, better, ?_⟩
    · rw [Dialect.fallBack, if_neg (by simpa [Matcher.improves] using improves)]
    · intro other member partOther
      rcases List.mem_append.1 member with before | now
      · exact noWorse other before partOther
      · obtain rfl := List.mem_singleton.1 now
        simpa using fun above => improves ⟨partOther, above⟩

/-- After all items have been tried the best one is held, or nothing if none matched in part. -/
theorem foldl_fallBack (came : α → Outcome) (items : List α) :
    (∃ best, items.foldl (fallBack came) none = some best ∧ Best came items best) ∨
      (items.foldl (fallBack came) none = none ∧
        ∀ item ∈ items, (came item).isPartial = false) := by
  induction items using List.reverseRecOn with
  | nil => exact .inr ⟨rfl, List.forall_mem_nil _⟩
  | append_singleton items last ih =>
      rw [List.foldl_append]
      rcases ih with ⟨best, held, leads⟩ | ⟨held, poor⟩
      · rw [held]
        exact .inl (leads.fallBack last)
      · rw [held]
        cases part : (came last).isPartial with
        | true =>
            refine .inl ⟨last, by simp [fallBack, Matcher.improves, part], items, [], rfl, part,
              fun other member partOther => ?_, List.forall_mem_nil _⟩
            exact absurd (poor other member) (by simp [partOther])
        | false =>
            refine .inr ⟨by simp [fallBack, part], fun other member => ?_⟩
            rcases List.mem_append.1 member with before | now
            · exact poor other before
            · obtain rfl := List.mem_singleton.1 now
              exact part

end Best

end Dialect
