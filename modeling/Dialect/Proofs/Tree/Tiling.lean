import Dialect.Proofs.Tree.Reading

/-!
# Trees that take every token once

A forest takes the tokens of a stretch of the input one after the other, each in a leaf of
its own, and every other node covers what is below it (`Tiled`).  From this follows what a
reader of a tree relies on: the leaves are the tokens in order, every part of the forest
takes a stretch of its own, siblings do not overlap, and the texts are those of the input
(`Tiled.accounts`).
-/

set_option autoImplicit false

namespace Dialect

/-- The tokens lie in a source text, one behind the other. -/
structure Token.InOrder (tokens : Array Token) : Prop where
  fits : ∀ token ∈ tokens, token.offset + token.text.utf8ByteSize < TextRange.offsetLimit
  behind : tokens.toList.Pairwise fun before after =>
    before.offset + before.text.utf8ByteSize ≤ after.offset

/-- Every token that carries meaning is one of the tokens. -/
def Input.Listed (input : Input) : Prop := ∀ i, i < input.size → input.indexAt i < input.tokens.size

/-- A cursor that has been opened goes through tokens only. -/
theorem Cursor.listed_of_ofTokens {vocabulary : Vocabulary} {tokens : Array Token}
    {placeholder : Option String} {c : Cursor}
    (opened : Cursor.ofTokens vocabulary tokens placeholder = .ok c) : c.input.Listed := by
  intro i inside
  have bound : i < c.significant.size := inside
  have member : c.significant[i] ∈ c.significant.toList := by simp
  rw [significant_eq opened, meaningful, List.mem_map] at member
  obtain ⟨⟨token, index⟩, member, same⟩ := member
  have listed := List.mem_zipIdx (List.mem_of_mem_filter member)
  obtain ⟨rfl, -⟩ := ofTokens_eq_ok opened
  have found : c.input.indexAt i = index := by
    simp [Input.indexAt, input, bound, ← same]
  rw [found]
  simpa [Input.tokens, input] using listed.2.1

/-- Nodes that take the tokens from one position up to another, each token in a leaf. -/
inductive Tiled (input : Input) : Nat → Nat → List Node → Prop
  | nil (i) : Tiled input i i []
  | leaf {id kind i j node others} (covers : node.Over input id kind i (i + 1) [])
      (isLeaf : kind.isLeaf = true) (rest : Tiled input (i + 1) j others) :
      Tiled input i j (node :: others)
  | inner {id kind i m j node children others} (covers : node.Over input id kind i m children)
      (isInner : kind.isLeaf = false) (below : Tiled input i m children)
      (rest : Tiled input m j others) : Tiled input i j (node :: others)

section

variable {input : Input} {i j k m : Nat} {node : Node} {nodes more : List Node}

theorem Input.Listed.exists_token (listed : input.Listed) (inside : i < input.size) :
    ∃ token, input.token? i = some token := by
  rw [Input.token?_eq inside]
  exact ⟨_, Array.getElem?_eq_getElem (listed i inside)⟩

/-- Tokens that are in order lie in the source text as they are counted. -/
theorem Token.InOrder.stop_le (ordered : Token.InOrder input.tokens) (ascending : input.Ascending)
    {before after : Token} (earlier : i < k) (before_eq : input.token? i = some before)
    (after_eq : input.token? k = some after) :
    before.offset + before.text.utf8ByteSize ≤ after.offset := by
  have inside := token?_lt_size after_eq
  rw [Input.token?_eq (Nat.lt_trans earlier inside)] at before_eq
  rw [Input.token?_eq inside] at after_eq
  obtain ⟨beforeBound, rfl⟩ := Array.getElem?_eq_some_iff.1 before_eq
  obtain ⟨afterBound, rfl⟩ := Array.getElem?_eq_some_iff.1 after_eq
  exact List.pairwise_iff_getElem.1 ordered.behind _ _ beforeBound afterBound
    (ascending i k earlier inside)

/-! ### Tilings -/

namespace Tiled

/-- Each node of the forest covers a stretch, which begins where the one before it ends. -/
theorem row (tiled : Tiled input i j nodes) : Row input i j nodes := by
  induction tiled with
  | nil i => exact .nil i
  | leaf covers isLeaf rest ih => exact .cons covers.toSpans ih
  | inner covers isInner below rest ihBelow ih => exact .cons covers.toSpans ih

theorem le (tiled : Tiled input i j nodes) : i ≤ j := tiled.row.le

theorem append (first : Tiled input i m nodes) (second : Tiled input m j more) :
    Tiled input i j (nodes ++ more) := by
  induction first with
  | nil i => exact second
  | leaf covers isLeaf rest ih => exact .leaf covers isLeaf (ih second)
  | inner covers isInner below rest ihBelow ih => exact .inner covers isInner below (ih second)

/-- A node of a forest stands on a stretch of its own. -/
theorem single (tiled : Tiled input i j [node]) : node.Spans input i j := by
  cases tiled with
  | leaf covers isLeaf rest =>
      cases rest
      exact covers.toSpans
  | inner covers isInner below rest =>
      cases rest
      exact covers.toSpans

end Tiled

theorem Node.preorder_eq (node : Node) : node.preorder = node :: Node.preorderAll node.children := by
  cases node
  rfl

theorem Node.preorderAll_append (nodes more : List Node) :
    Node.preorderAll (nodes ++ more) = Node.preorderAll nodes ++ Node.preorderAll more := by
  induction nodes with
  | nil => rfl
  | cons head rest ih => simp only [List.cons_append, Node.preorderAll, ih, List.append_assoc]

theorem Node.mem_preorderAll_of_mem (member : node ∈ nodes) : node ∈ Node.preorderAll nodes := by
  obtain ⟨before, after, rfl⟩ := List.append_of_mem member
  rw [Node.preorderAll_append, Node.preorderAll, Node.preorder_eq]
  simp

/-- Every node of a tiling, also one below another, takes a stretch of its own. -/
theorem Tiled.exists_tiled_of_mem (tiled : Tiled input i j nodes)
    (member : node ∈ Node.preorderAll nodes) :
    ∃ a b, i ≤ a ∧ b ≤ j ∧ Tiled input a b [node] := by
  induction tiled with
  | nil i => cases member
  | @leaf id kind i j head others covers isLeaf rest ih =>
      rw [Node.preorderAll, Node.preorder_eq, covers.children_eq] at member
      rcases List.mem_append.1 member with here | later
      · obtain rfl : node = head := by simpa [Node.preorderAll] using here
        exact ⟨i, i + 1, Nat.le_refl i, rest.le, .leaf covers isLeaf (.nil _)⟩
      · obtain ⟨a, b, start, stop, alone⟩ := ih later
        exact ⟨a, b, Nat.le_of_succ_le start, stop, alone⟩
  | @inner id kind i m j head children others covers isInner below rest ihBelow ih =>
      rw [Node.preorderAll, Node.preorder_eq, covers.children_eq] at member
      rcases List.mem_append.1 member with here | later
      · rcases List.mem_cons.1 here with rfl | under
        · exact ⟨i, m, Nat.le_refl i, rest.le, .inner covers isInner below (.nil _)⟩
        · obtain ⟨a, b, start, stop, alone⟩ := ihBelow under
          exact ⟨a, b, start, Nat.le_trans stop rest.le, alone⟩
      · obtain ⟨a, b, start, stop, alone⟩ := ih later
        exact ⟨a, b, Nat.le_trans below.le start, stop, alone⟩

/-! ### Leaves -/

/-- The leaves of a forest, from left to right. -/
def Node.leavesAll (nodes : List Node) : List Node :=
  (Node.preorderAll nodes).filter fun node => node.kind.isLeaf

/-- The leaves of a tree, from left to right. -/
def Node.leaves (node : Node) : List Node := node.preorder.filter fun node => node.kind.isLeaf

theorem Node.leavesAll_cons : Node.leavesAll (node :: nodes) = node.leaves ++ Node.leavesAll nodes := by
  simp [Node.leavesAll, Node.leaves, Node.preorderAll]

theorem Node.leaves_of_leaf (isLeaf : node.kind.isLeaf = true) (bare : node.children = []) :
    node.leaves = [node] := by
  simp [Node.leaves, Node.preorder_eq, bare, Node.preorderAll, isLeaf]

theorem Node.leaves_of_inner (isInner : node.kind.isLeaf = false) :
    node.leaves = Node.leavesAll node.children := by
  simp [Node.leaves, Node.leavesAll, Node.preorder_eq, isInner]

/-- What a leaf for the token at a position covers. -/
def Input.spotAt (input : Input) (i : Nat) : Nat × Nat := (input.indexAt i, input.indexAt i + 1)

/-- **The leaves of a tiling** are the tokens in order, each taken once. -/
theorem Tiled.leavesAll_eq (tiled : Tiled input i j nodes) :
    (Node.leavesAll nodes).map (fun leaf => (leaf.first, leaf.stop)) =
      (List.range' i (j - i)).map input.spotAt := by
  induction tiled with
  | nil i => simp [Node.leavesAll, Node.preorderAll]
  | @leaf id kind i j node others covers isLeaf rest ih =>
      have split : j - i = (j - (i + 1)) + 1 := by have := rest.le; omega
      have alone : node.leaves = [node] :=
        Node.leaves_of_leaf (covers.kind_eq ▸ isLeaf) covers.children_eq
      have spot : (node.first, node.stop) = input.spotAt i := by
        rw [covers.first_eq, covers.stop_eq, Nat.add_sub_cancel, Input.spotAt]
      rw [Node.leavesAll_cons, List.map_append, ih, alone, split, List.range'_succ, List.map_cons,
        List.map_cons, spot]
      rfl
  | @inner id kind i m j node children others covers isInner below rest ihBelow ih =>
      have split : j - i = (m - i) + (j - m) := by have := below.le; have := rest.le; omega
      have behind : i + (m - i) = m := by have := below.le; omega
      have under : node.leaves = Node.leavesAll children := by
        rw [Node.leaves_of_inner (covers.kind_eq ▸ isInner), covers.children_eq]
      rw [Node.leavesAll_cons, List.map_append, ih, under, ihBelow, ← List.map_append, split,
        ← List.range'_append_1, behind]

theorem Tiled.leaves_eq (tiled : Tiled input i j [node]) :
    node.leaves.map (fun leaf => (leaf.first, leaf.stop)) =
      (List.range' i (j - i)).map input.spotAt := by
  rw [← tiled.leavesAll_eq, Node.leavesAll_cons, Node.leavesAll, Node.preorderAll]
  simp

/-! ### What a reader of a tree relies on -/

/-- A node begins with its first leaf and ends with its last, in the input and in the
source text. -/
structure Node.Framed (input : Input) (node : Node) (first last : Node) : Prop where
  first_leaf : node.leaves.head? = some first
  last_leaf : node.leaves.getLast? = some last
  first_eq : node.first = first.first
  stop_eq : node.stop = last.stop
  range_start : ∃ token, input.tokens[first.first]? = some token ∧ node.range.start = token.offset
  range_stop : ∃ token, input.tokens[last.first]? = some token ∧
    node.range.stop = token.offset + token.text.utf8ByteSize

/-- The tree accounts for the first `count` tokens: each is taken by one leaf, in order,
and every other node goes from its first leaf to its last. -/
structure Node.Accounts (input : Input) (count : Nat) (root : Node) : Prop where
  inside : count ≤ input.size
  leaves_eq : root.leaves.map (fun leaf => (leaf.first, leaf.stop)) =
    (List.range count).map input.spotAt
  inner : ∀ node ∈ root.preorder, node.kind.isLeaf = false →
    node.children ≠ [] ∧ ∃ first last, node.Framed input first last
  siblings : ∀ node ∈ root.preorder, node.children.Pairwise fun before after =>
    before.stop ≤ after.first ∧ before.range.stop ≤ after.range.start
  texts_eq : (root.texts input.tokens).map some =
    (List.range count).map fun i => (input.token? i).map Token.text

/-- What a tree is that takes a stretch of the input: a leaf, or a node over a tiling. -/
theorem Tiled.exists_over (tiled : Tiled input i j [node]) :
    ∃ id, node.Over input id node.kind i j node.children ∧
      (node.kind.isLeaf = true ∧ node.children = [] ∨
        node.kind.isLeaf = false ∧ Tiled input i j node.children) := by
  cases tiled with
  | leaf covers isLeaf rest =>
      cases rest
      obtain rfl := covers.kind_eq
      have bare := covers.children_eq
      exact ⟨_, bare.symm ▸ covers, Or.inl ⟨isLeaf, bare⟩⟩
  | inner covers isInner below rest =>
      cases rest
      obtain rfl := covers.kind_eq
      obtain rfl := covers.children_eq
      exact ⟨_, covers, Or.inr ⟨isInner, below⟩⟩

/-- Siblings follow one another, in the input and in the source text. -/
theorem Tiled.pairwise (tiled : Tiled input i j nodes) (ascending : input.Ascending)
    (ordered : Token.InOrder input.tokens) :
    nodes.Pairwise fun before after =>
      before.stop ≤ after.first ∧ before.range.stop ≤ after.range.start := by
  have apart : ∀ {i m j : Nat} {head : Node} {others : List Node}, Tiled input i m [head] →
      Tiled input m j others → ∀ after ∈ others,
        head.stop ≤ after.first ∧ head.range.stop ≤ after.range.start := by
    intro i m j head others here rest after member
    obtain ⟨a, b, later, -, there⟩ := rest.exists_tiled_of_mem (Node.mem_preorderAll_of_mem member)
    obtain ⟨id, covers, -⟩ := here.exists_over
    obtain ⟨idAfter, coversAfter, -⟩ := there.exists_over
    obtain ⟨last, last_eq, stop_eq⟩ := covers.range_stop
    obtain ⟨first, first_eq, start_eq⟩ := coversAfter.range_start
    have earlier : m - 1 < a := by have := covers.nonempty; omega
    refine ⟨?_, ?_⟩
    · rw [covers.stop_eq, coversAfter.first_eq]
      exact ascending _ _ earlier (token?_lt_size first_eq)
    · rw [stop_eq, start_eq]
      exact ordered.stop_le ascending earlier last_eq first_eq
  induction tiled with
  | nil i => exact .nil
  | leaf covers isLeaf rest ih =>
      exact .cons (apart (.leaf covers isLeaf (.nil _)) rest) ih
  | inner covers isInner below rest ihBelow ih =>
      exact .cons (apart (.inner covers isInner below (.nil _)) rest) ih

/-- A node of a tiling is framed by its first leaf and its last. -/
theorem Tiled.framed (tiled : Tiled input i j [node]) :
    ∃ first last, node.Framed input first last := by
  obtain ⟨id, covers, -⟩ := tiled.exists_over
  have further := covers.nonempty
  have head := congrArg List.head? tiled.leaves_eq
  have final := congrArg List.getLast? tiled.leaves_eq
  rw [List.head?_map, List.head?_map, List.head?_range', if_neg (by omega)] at head
  rw [List.getLast?_map, List.getLast?_map, List.getLast?_range', if_neg (by omega)] at final
  obtain ⟨first, first_leaf, firstSpot⟩ := Option.map_eq_some_iff.1 head
  obtain ⟨last, last_leaf, lastSpot⟩ := Option.map_eq_some_iff.1 final
  have ends : i + (j - i) - 1 = j - 1 := by omega
  rw [ends] at lastSpot
  obtain ⟨firstFirst, -⟩ := Prod.ext_iff.1 firstSpot
  obtain ⟨lastFirst, lastStop⟩ := Prod.ext_iff.1 lastSpot
  dsimp only [Input.spotAt] at firstFirst lastFirst lastStop
  obtain ⟨start, start_eq, start_range⟩ := covers.range_start
  obtain ⟨stop, stop_eq, stop_range⟩ := covers.range_stop
  rw [Input.token?_eq (token?_lt_size start_eq), ← firstFirst] at start_eq
  rw [Input.token?_eq (token?_lt_size stop_eq), ← lastFirst] at stop_eq
  exact ⟨first, last, first_leaf, last_leaf, covers.first_eq.trans firstFirst.symm,
    covers.stop_eq.trans lastStop.symm, ⟨start, start_eq, start_range⟩, ⟨stop, stop_eq, stop_range⟩⟩

/-- The texts of a tree are those of the tokens that its leaves take. -/
theorem Tiled.texts_eq (tiled : Tiled input i j [node]) (listed : input.Listed) :
    (node.texts input.tokens).map some =
      (List.range' i (j - i)).map fun k => (input.token? k).map Token.text := by
  have spots : node.texts input.tokens =
      (node.leaves.map fun leaf => (leaf.first, leaf.stop)).flatMap fun spot =>
        (input.tokens.extract spot.1 spot.2).toList.map Token.text := by
    rw [List.flatMap_map]
    rfl
  rw [spots, tiled.leaves_eq, List.flatMap_map, List.map_flatMap, List.map_eq_flatMap]
  refine List.flatMap_congr fun k member => ?_
  have inside : k < input.size := by
    have := tiled.single.inside
    have := List.mem_range'_1.1 member
    omega
  obtain ⟨token, found⟩ := listed.exists_token inside
  have stands := found
  rw [Input.token?_eq inside] at stands
  obtain ⟨bound, rfl⟩ := Array.getElem?_eq_some_iff.1 stands
  rw [found, Input.spotAt, Array.toList_extract]
  simp [List.extract, List.take_one, bound]

/-- **A tree that takes the first tokens of the input accounts for them.** -/
theorem Tiled.accounts (tiled : Tiled input 0 j [node]) (ascending : input.Ascending)
    (listed : input.Listed) (ordered : Token.InOrder input.tokens) : node.Accounts input j where
  inside := tiled.single.inside
  leaves_eq := by rw [tiled.leaves_eq, List.range_eq_range', Nat.sub_zero]
  inner := by
    intro part member isInner
    have within : part ∈ Node.preorderAll [node] := by simpa [Node.preorderAll] using member
    obtain ⟨a, b, -, -, alone⟩ := tiled.exists_tiled_of_mem within
    refine ⟨fun bare => ?_, alone.framed⟩
    obtain ⟨id, covers, ⟨isLeaf, -⟩ | ⟨-, below⟩⟩ := alone.exists_over
    · rw [isInner] at isLeaf
      cases isLeaf
    · rw [bare] at below
      cases below
      exact absurd covers.nonempty (Nat.lt_irrefl _)
  siblings := by
    intro part member
    have within : part ∈ Node.preorderAll [node] := by simpa [Node.preorderAll] using member
    obtain ⟨a, b, -, -, alone⟩ := tiled.exists_tiled_of_mem within
    obtain ⟨id, covers, ⟨-, bare⟩ | ⟨-, below⟩⟩ := alone.exists_over
    · rw [bare]
      exact .nil
    · exact below.pairwise ascending ordered
  texts_eq := by rw [tiled.texts_eq listed, List.range_eq_range', Nat.sub_zero]

end

end Dialect
