/-!
# Reachable nodes

Depth-first search in a finite directed graph whose nodes are the numbers below
`size`.  `search next size [] start` lists what can be reached from
the stack `start`, each node once and in the order of the first visits; the top of
the stack is visited first, and of the successors of a node the last.
-/

set_option autoImplicit false

namespace Dialect.Reach

/-- How many edges leave the nodes that have not been visited. -/
def openEdges (next : Nat → List Nat) (size : Nat) (visited : List Nat) : Nat :=
  (((List.range size).filter (· ∉ visited)).flatMap next).length

private theorem length_flatMap_filter (next : Nat → List Nat) (nodes visited : List Nat)
    (node : Nat) (distinct : nodes.Nodup) (member : node ∈ nodes) (fresh : node ∉ visited) :
    ((nodes.filter (· ∉ node :: visited)).flatMap next).length + (next node).length =
      ((nodes.filter (· ∉ visited)).flatMap next).length := by
  induction nodes with
  | nil => simp at member
  | cons head rest ih =>
    have ⟨headFresh, restDistinct⟩ := List.nodup_cons.1 distinct
    -- The node stands in the list once: what comes after it is filtered alike in both ways.
    by_cases same : node = head
    · subst same
      have unchanged : rest.filter (· ∉ node :: visited) = rest.filter (· ∉ visited) := by
        apply List.filter_congr
        intro other inRest
        have : other ≠ node := fun eq => headFresh (eq ▸ inRest)
        simp [this]
      have stay : (node :: rest).filter (· ∉ visited) = node :: rest.filter (· ∉ visited) := by
        simp [fresh]
      have drop : (node :: rest).filter (· ∉ node :: visited) =
          rest.filter (· ∉ node :: visited) := by simp
      rw [stay, drop, unchanged, List.flatMap_cons, List.length_append, Nat.add_comm]
    · have inRest : node ∈ rest := (List.mem_cons.1 member).resolve_left same
      have later := ih restDistinct inRest
      have other : head ≠ node := fun eq => same eq.symm
      by_cases seen : head ∈ visited
      · have skip : (head :: rest).filter (· ∉ visited) = rest.filter (· ∉ visited) := by
          simp [seen]
        have skipToo : (head :: rest).filter (· ∉ node :: visited) =
            rest.filter (· ∉ node :: visited) := by simp [seen]
        rw [skip, skipToo]
        exact later
      · have keep : (head :: rest).filter (· ∉ visited) = head :: rest.filter (· ∉ visited) := by
          simp [seen]
        have keepToo : (head :: rest).filter (· ∉ node :: visited) =
            head :: rest.filter (· ∉ node :: visited) := by simp [seen, other]
        rw [keep, keepToo, List.flatMap_cons, List.flatMap_cons, List.length_append,
          List.length_append, Nat.add_assoc, later]

/-- Visiting a node closes its edges. -/
theorem openEdges_cons (next : Nat → List Nat) (size : Nat) (visited : List Nat) (node : Nat)
    (bound : node < size) (fresh : node ∉ visited) :
    openEdges next size (node :: visited) + (next node).length = openEdges next size visited :=
  length_flatMap_filter next (List.range size) visited node List.nodup_range
    (List.mem_range.2 bound) fresh

/-- The nodes reached from a stack, when the nodes in `visited` are passed over.
Each step takes a node from the stack or replaces it by the ends of edges that
were still open. -/
def search (next : Nat → List Nat) (size : Nat) (visited : List Nat) : List Nat → List Nat
  | [] => []
  | node :: stack =>
      if node < size ∧ node ∉ visited then
        node :: search next size (node :: visited) ((next node).reverse ++ stack)
      else search next size visited stack
termination_by stack => openEdges next size visited + stack.length
decreasing_by
  · rename_i fresh
    have := openEdges_cons next size visited node fresh.1 fresh.2
    simp only [List.length_append, List.length_reverse, List.length_cons]
    omega
  · simp

end Dialect.Reach
