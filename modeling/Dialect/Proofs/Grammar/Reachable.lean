import Dialect.Grammar.Reach
import Mathlib.Logic.Relation

/-!
# What the search finds

`Reach.search` lists exactly the nodes below the bound that can be reached from the
nodes it starts with (`mem_search_iff`).
-/

set_option autoImplicit false

namespace Dialect.Reach

open Relation

variable {next : Nat → List Nat} {size : Nat}

/-- There is an edge from `a` to `b`. -/
def Edge (next : Nat → List Nat) (a b : Nat) : Prop := b ∈ next a

/-- Only what lies below the bound and has not been visited is listed, and only
what can be reached. -/
theorem of_mem_search {visited stack : List Nat} {id : Nat}
    (found : id ∈ search next size visited stack) :
    id < size ∧ id ∉ visited ∧ ∃ start ∈ stack, ReflTransGen (Edge next) start id := by
  fun_induction search next size visited stack with
  | case1 visited => simp at found
  | case2 visited node stack fresh ih =>
      rcases List.mem_cons.1 found with rfl | deeper
      · exact ⟨fresh.1, fresh.2, id, List.mem_cons_self, .refl⟩
      · obtain ⟨bound, unseen, start, onStack, path⟩ := ih deeper
        refine ⟨bound, fun seen => unseen (List.mem_cons_of_mem _ seen), ?_⟩
        rcases List.mem_append.1 onStack with successor | below
        · exact ⟨node, List.mem_cons_self, .head (List.mem_reverse.1 successor) path⟩
        · exact ⟨start, List.mem_cons_of_mem _ below, path⟩
  | case3 visited node stack _ ih =>
      obtain ⟨bound, unseen, start, onStack, path⟩ := ih found
      exact ⟨bound, unseen, start, List.mem_cons_of_mem _ onStack, path⟩

/-- The list is closed: what the search starts with and what follows a listed node
is listed in its turn, unless it was visited before. -/
theorem search_closed (visited stack : List Nat) :
    (∀ node ∈ stack, node < size → node ∈ visited ∨ node ∈ search next size visited stack) ∧
      ∀ a ∈ search next size visited stack, ∀ b ∈ next a, b < size →
        b ∈ visited ∨ b ∈ search next size visited stack := by
  fun_induction search next size visited stack with
  | case1 visited => simp
  | case2 visited node stack fresh ih =>
      obtain ⟨started, follows⟩ := ih
      -- The node in hand counts as visited below it and as found above it.
      have widen : ∀ b, b ∈ node :: visited ∨
          b ∈ search next size (node :: visited) ((next node).reverse ++ stack) →
          b ∈ visited ∨
            b ∈ node :: search next size (node :: visited) ((next node).reverse ++ stack) := by
        rintro b (seen | deeper)
        · rcases List.mem_cons.1 seen with rfl | older
          · exact Or.inr List.mem_cons_self
          · exact Or.inl older
        · exact Or.inr (List.mem_cons_of_mem _ deeper)
      refine ⟨fun other onStack bound => widen other ?_, fun a listed b edge bound => widen b ?_⟩
      · rcases List.mem_cons.1 onStack with rfl | below
        · exact Or.inl List.mem_cons_self
        · exact started other (List.mem_append_right _ below) bound
      · rcases List.mem_cons.1 listed with rfl | deeper
        · exact started b (List.mem_append_left _ (List.mem_reverse.2 edge)) bound
        · exact follows a deeper b edge bound
  | case3 visited node stack skipped ih =>
      obtain ⟨started, follows⟩ := ih
      refine ⟨fun other onStack bound => ?_, follows⟩
      rcases List.mem_cons.1 onStack with rfl | below
      · exact Or.inl (Decidable.not_not.1 fun unseen => skipped ⟨bound, unseen⟩)
      · exact started other below bound

/-- **The search is exact.**  When only nodes below the bound have successors, the
search lists exactly the nodes below the bound that can be reached. -/
theorem mem_search_iff (inside : ∀ a b, b ∈ next a → a < size) {stack : List Nat} {id : Nat} :
    id ∈ search next size [] stack ↔
      id < size ∧ ∃ start ∈ stack, ReflTransGen (Edge next) start id := by
  constructor
  · intro found
    obtain ⟨bound, -, reached⟩ := of_mem_search found
    exact ⟨bound, reached⟩
  · rintro ⟨bound, start, onStack, path⟩
    obtain ⟨started, follows⟩ := @search_closed next size [] stack
    induction path with
    | refl => exact (started start onStack bound).resolve_left List.not_mem_nil
    | tail _ edge ih =>
        exact (follows _ (ih (inside _ _ edge)) _ edge bound).resolve_left List.not_mem_nil

end Dialect.Reach
