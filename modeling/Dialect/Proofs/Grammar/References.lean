import Dialect.Proofs.Grammar.Entry
import Mathlib.Data.Finset.Card
import Mathlib.Data.Finset.Filter

/-!
# Chains of references

A reference stands for what it refers to, and that may be a reference again.  The way to the
element that does the matching is a chain (`Grammar.Chain`), and nothing but the grammar bounds it.

In a well-formed grammar it always ends, whether or not it begins within a rule that could be part
of a cycle: each step leads to the root of a rule, and from there fewer roots can be entered
(`card_rootsBelow_lt`), because no root can be entered from itself.  So there are no more steps than
there are rules (`WellFormed.resolve_chain`).
-/

set_option autoImplicit false

namespace Dialect.Grammar

variable {g : Grammar}

/-- Following references one by one, for as long as there is one to follow, ends at `last` after
so many steps. -/
inductive Chain (g : Grammar) : (id : ElementId) → (steps : Nat) → (last : ElementId) → Prop
  | ends {id : ElementId} (direct : g.target? id = none) : Chain g id 0 id
  | step {id target last : ElementId} {steps : Nat} (leads : g.target? id = some target)
      (further : Chain g target steps last) : Chain g id (steps + 1) last

namespace Chain

variable {id last : ElementId} {steps : Nat}

theorem target?_eq (chain : g.Chain id steps last) : g.target? last = none := by
  induction chain with
  | ends direct => exact direct
  | step _ _ ih => exact ih

/-- Whoever is ready to follow more references than the chain has gets to its end. -/
theorem follow_eq (chain : g.Chain id steps last) (more : Nat) :
    g.follow (steps + more) id = last := by
  induction chain with
  | ends direct =>
      cases more with
      | zero => rfl
      | succ more => rw [Nat.zero_add, follow, direct]
  | step leads further ih =>
      rw [Nat.add_right_comm, follow, leads]
      exact ih

end Chain

open Classical in
/-- The roots of rules that may be entered from the element before a token is taken. -/
noncomputable def rootsBelow (g : Grammar) (id : ElementId) : Finset ElementId :=
  (g.rules.map Prod.snd).toFinset.filter (Relation.TransGen g.Enters id)

theorem card_rootsBelow_le (id : ElementId) : (g.rootsBelow id).card ≤ g.rules.length := by
  classical
  calc (g.rootsBelow id).card
    _ ≤ (g.rules.map Prod.snd).toFinset.card := Finset.card_filter_le _ _
    _ ≤ (g.rules.map Prod.snd).length := List.toFinset_card_le _
    _ = g.rules.length := List.length_map _

variable (wellFormed : g.WellFormed)

include wellFormed

/-- Fewer roots may be entered from what a reference leads to. -/
theorem card_rootsBelow_lt {id target : ElementId} (found : g.target? id = some target) :
    (g.rootsBelow target).card < (g.rootsBelow id).card := by
  classical
  have stands := target?_eq_some.1 found
  have entered : g.Enters id target := enters_iff.2 ⟨_, stands, List.mem_singleton_self _⟩
  obtain ⟨name, member⟩ := wellFormed.targets id target stands
  have isRoot : target ∈ (g.rules.map Prod.snd).toFinset :=
    List.mem_toFinset.2 (List.mem_map_of_mem (f := Prod.snd) member)
  refine Finset.card_lt_card ((Finset.ssubset_iff_of_subset ?_).2 ⟨target, ?_, ?_⟩)
  · intro root below
    obtain ⟨inRules, way⟩ := Finset.mem_filter.1 below
    exact Finset.mem_filter.2 ⟨inRules, .head entered way⟩
  · exact Finset.mem_filter.2 ⟨isRoot, .single entered⟩
  · exact fun below => wellFormed.not_reenters target (Finset.mem_filter.1 below).2

/-- A chain of references ends before it has passed all roots. -/
theorem WellFormed.exists_chain (id : ElementId) :
    ∃ steps last, steps ≤ (g.rootsBelow id).card ∧ g.Chain id steps last := by
  induction roots : (g.rootsBelow id).card using Nat.strong_induction_on generalizing id with
  | _ roots ih =>
      cases found : g.target? id with
      | none => exact ⟨0, id, Nat.zero_le _, .ends found⟩
      | some target =>
          have fewer := roots ▸ card_rootsBelow_lt wellFormed found
          obtain ⟨steps, last, short, chain⟩ := ih _ fewer target rfl
          exact ⟨steps + 1, last, Nat.succ_le_of_lt (Nat.lt_of_le_of_lt short fewer),
            .step found chain⟩

/-- **A chain of references ends where `resolve` says**, after no more steps than there are
rules. -/
theorem WellFormed.resolve_chain (id : ElementId) :
    ∃ steps, steps ≤ g.rules.length ∧ g.Chain id steps (g.resolve id) := by
  obtain ⟨steps, last, short, chain⟩ := wellFormed.exists_chain id
  have few : steps ≤ g.rules.length := Nat.le_trans short (card_rootsBelow_le id)
  have reached : g.resolve id = last := by
    have enough : g.rules.length + 1 = steps + (g.rules.length + 1 - steps) := by omega
    rw [resolve, enough]
    exact chain.follow_eq _
  exact ⟨steps, few, reached ▸ chain⟩

/-- Following references leads to an element that is none. -/
theorem target?_resolve (id : ElementId) : g.target? (g.resolve id) = none :=
  (wellFormed.resolve_chain id).choose_spec.2.target?_eq

end Dialect.Grammar
