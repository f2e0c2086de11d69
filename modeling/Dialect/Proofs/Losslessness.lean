import Dialect.Proofs.Safety

/-!
# Nothing is lost

The tree of a parse over its whole input (`Lossless.ofTree`) gives back the input and the
parse.  Its tokens are those of the input.  What remains without them, the root and the error
node is the tree of the parse.  Each token of the match stands alone in a leaf, and what the
parse did not take from the next meaningful token on is in the error node, which is the last
part of the tree (`Lossless.Keeps`, `parse_lossless`).

The proof follows the running index of `Lossless.ofNodes` through a tiling: what is emitted for
the nodes from one position up to another is described by `Lossless.Emits`, which is kept by
putting two rows of nodes behind one another and by putting a node around a row.
-/

set_option autoImplicit false

namespace Dialect

/-! ### What can be read off a lossless tree -/

/-- Whether a node of the label takes a token by itself. -/
def Label.isLeaf : Label → Bool
  | .tokenNode | .identifierNode => true
  | _ => false

@[simp] theorem Label.isLeaf_ofNodeKind (kind : NodeKind) :
    (Label.ofNodeKind kind).isLeaf = kind.isLeaf := by
  cases kind <;> rfl

theorem Label.ofNodeKind_ne_root (kind : NodeKind) : Label.ofNodeKind kind ≠ .root := by
  cases kind <;> decide

theorem Label.ofNodeKind_ne_error (kind : NodeKind) : Label.ofNodeKind kind ≠ .error := by
  cases kind <;> decide

namespace Lossless

mutual

/-- The tree without its tokens, and without the root and error nodes around the rest. -/
def stripped : Lossless → List Lossless
  | .token _ _ => []
  | .node label children =>
      if label = .root ∨ label = .error then strippedAll children
      else [.node label (strippedAll children)]

/-- Neighbouring trees without their tokens and without root and error nodes. -/
def strippedAll : List Lossless → List Lossless
  | [] => []
  | tree :: rest => stripped tree ++ strippedAll rest

end

mutual

/-- The nodes of the wanted labels in order, each with the number of tokens that come before it and
with what is in it; `next` tokens come before the tree. -/
def nodesOf (wanted : Label → Bool) (next : Nat) : Lossless → List (Nat × List Lossless)
  | .token _ _ => []
  | .node label children =>
      (if wanted label then [(next, children)] else []) ++ nodesOfAll wanted next children

/-- The nodes of the wanted labels in neighbouring trees. -/
def nodesOfAll (wanted : Label → Bool) (next : Nat) : List Lossless → List (Nat × List Lossless)
  | [] => []
  | tree :: rest => nodesOf wanted next tree ++ nodesOfAll wanted (next + tree.leaves.length) rest

end

end Lossless

namespace Node

mutual

/-- The shape of a tree and the kinds of its nodes. -/
def bare : Node → Lossless
  | ⟨_, kind, _, _, _, children⟩ => .node (Label.ofNodeKind kind) (bareAll children)

/-- The shapes of neighbouring trees. -/
def bareAll : List Node → List Lossless
  | [] => []
  | node :: rest => bare node :: bareAll rest

end

theorem bare_eq (node : Node) :
    node.bare = .node (Label.ofNodeKind node.kind) (bareAll node.children) := by
  cases node
  rfl

theorem bareAll_append (nodes more : List Node) :
    bareAll (nodes ++ more) = bareAll nodes ++ bareAll more := by
  induction nodes with
  | nil => rfl
  | cons head rest ih => simp only [List.cons_append, bareAll, ih]

end Node

namespace Lossless

variable {vocabulary : Vocabulary} {tokens : Array Token}

/-- What the tree of the input `tokens` tells of a parse that has matched the first `count` of
its meaningful tokens and come to the tree `root`. -/
structure Keeps (vocabulary : Vocabulary) (tokens : Array Token) (count : Nat) (root : Node)
    (tree : Lossless) : Prop where
  /-- The tokens are those of the input in order, each with the label of its category. -/
  leaves_of : List.Forall₂ (fun leaf token => ∃ type,
    vocabulary.types[token.kind]? = some type ∧
      leaf = (Label.ofCategory type.category, token.text)) tree.leaves tokens.toList
  /-- The other nodes are those of the parse. -/
  stripped_eq : tree.stripped = [root.bare]
  /-- The tokens of the match are there. -/
  inside : count ≤ (Cursor.meaningful vocabulary tokens.toList 0).length
  /-- There is a leaf for each token of the match, and nothing but the token is in it. -/
  leaf_nodes : tree.nodesOf Label.isLeaf 0 =
    ((Cursor.meaningful vocabulary tokens.toList 0).take count).map fun index =>
      (index, (tokens[index]?).toList.map (ofToken vocabulary))
  /-- There is an error node exactly if a meaningful token is left over.  It has everything
  from that token on. -/
  error_nodes : tree.nodesOf (· = .error) 0 =
    ((Cursor.meaningful vocabulary tokens.toList 0)[count]?).toList.map fun index =>
      (index, (tokens.toList.drop index).map (ofToken vocabulary))
  /-- The error node is the last part of the root. -/
  root_eq : ∃ children, tree = .node .root children ∧
    ∀ index, (Cursor.meaningful vocabulary tokens.toList 0)[count]? = some index →
      children.getLast? = some (.node .error ((tokens.toList.drop index).map (ofToken vocabulary)))

/-! ### Neighbouring trees -/

theorem leavesAll_append (trees more : List Lossless) :
    leavesAll (trees ++ more) = leavesAll trees ++ leavesAll more := by
  induction trees with
  | nil => rfl
  | cons tree rest ih => simp only [List.cons_append, leavesAll, ih, List.append_assoc]

theorem strippedAll_append (trees more : List Lossless) :
    strippedAll (trees ++ more) = strippedAll trees ++ strippedAll more := by
  induction trees with
  | nil => rfl
  | cons tree rest ih => simp only [List.cons_append, strippedAll, ih, List.append_assoc]

theorem nodesOfAll_append (wanted : Label → Bool) (next : Nat) (trees more : List Lossless) :
    nodesOfAll wanted next (trees ++ more) =
      nodesOfAll wanted next trees ++
        nodesOfAll wanted (next + (leavesAll trees).length) more := by
  induction trees generalizing next with
  | nil => rfl
  | cons tree rest ih =>
      simp only [List.cons_append, nodesOfAll, leavesAll, ih, List.append_assoc, List.length_append,
        Nat.add_assoc]

/-- The label and the text of the leaf of a token. -/
def leafOf (vocabulary : Vocabulary) (token : Token) : Label × String :=
  (Label.ofCategory ((vocabulary.types[token.kind]?.map TokenType.category).getD .unknown),
    token.text)

theorem leavesAll_ofToken (row : List Token) :
    leavesAll (row.map (ofToken vocabulary)) = row.map (leafOf vocabulary) := by
  induction row with
  | nil => rfl
  | cons token rest ih => simp only [List.map_cons, leavesAll, ih, ofToken, leaves, leafOf,
      List.singleton_append]

theorem strippedAll_ofToken (row : List Token) :
    strippedAll (row.map (ofToken vocabulary)) = [] := by
  induction row with
  | nil => rfl
  | cons token rest ih => simp only [List.map_cons, strippedAll, ih, ofToken, stripped,
      List.append_nil]

theorem nodesOfAll_ofToken (wanted : Label → Bool) (next : Nat) (row : List Token) :
    nodesOfAll wanted next (row.map (ofToken vocabulary)) = [] := by
  induction row generalizing next with
  | nil => rfl
  | cons token rest ih => simp only [List.map_cons, nodesOfAll, ih, ofToken, nodesOf,
      List.append_nil]

/-- Leaves are labelled by the categories of their tokens, if the types are known. -/
theorem leafOf_forall₂ (known : ∀ token ∈ tokens, token.kind < vocabulary.types.size) :
    List.Forall₂ (fun leaf token => ∃ type, vocabulary.types[token.kind]? = some type ∧
      leaf = (Label.ofCategory type.category, token.text))
      (tokens.toList.map (leafOf vocabulary)) tokens.toList := by
  rw [List.forall₂_map_left_iff, List.forall₂_same]
  intro token member
  have bound := known token (Array.mem_toList_iff.1 member)
  exact ⟨vocabulary.types[token.kind], Array.getElem?_eq_getElem bound, by simp [leafOf, bound]⟩

/-! ### What is emitted for a row of nodes -/

/-- What the leaf of the token at a position is: where it is, and what is in it. -/
def leafAt (vocabulary : Vocabulary) (input : Input) (i : Nat) : Nat × List Lossless :=
  (input.indexAt i, (input.tokens[input.indexAt i]?).toList.map (ofToken vocabulary))

/-- The trees that are emitted for nodes which cover the tokens from one position up to another,
when the next input token is `next`; `after` is the one after the last of them. -/
structure Emits (vocabulary : Vocabulary) (input : Input) (i j next : Nat) (nodes : List Node)
    (trees : List Lossless) (after : Nat) : Prop where
  forward : next ≤ after
  inside : after ≤ input.tokens.size
  leaves_eq : leavesAll trees = ((input.tokens.extract next after).toList.map (leafOf vocabulary))
  stripped_eq : strippedAll trees = Node.bareAll nodes
  leaf_nodes : nodesOfAll Label.isLeaf next trees =
    (List.range' i (j - i)).map (leafAt vocabulary input)
  error_nodes : nodesOfAll (· = .error) next trees = []

namespace Emits

variable {input : Input} {i j m next middle after : Nat} {nodes more : List Node} {node : Node}
  {trees others inside : List Lossless}

theorem length_eq (emits : Emits vocabulary input i j next nodes trees after) :
    next + (leavesAll trees).length = after := by
  have := emits.forward
  have := emits.inside
  rw [emits.leaves_eq]
  simp
  omega

theorem nil (bound : next ≤ input.tokens.size) : Emits vocabulary input i i next [] [] next where
  forward := Nat.le_refl next
  inside := bound
  leaves_eq := by simp [leavesAll]
  stripped_eq := rfl
  leaf_nodes := by simp [nodesOfAll]
  error_nodes := rfl

/-- What is emitted for one row of nodes and then for another. -/
theorem append (first : Emits vocabulary input i m next nodes trees middle)
    (second : Emits vocabulary input m j middle more others after) (start : i ≤ m) (stop : m ≤ j) :
    Emits vocabulary input i j next (nodes ++ more) (trees ++ others) after where
  forward := Nat.le_trans first.forward second.forward
  inside := second.inside
  leaves_eq := by
    have joined : input.tokens.extract next middle ++ input.tokens.extract middle after =
        input.tokens.extract (min next middle) (max middle after) := Array.extract_append_extract
    rw [Nat.min_eq_left first.forward, Nat.max_eq_right second.forward] at joined
    rw [leavesAll_append, first.leaves_eq, second.leaves_eq, ← List.map_append,
      ← Array.toList_append, joined]
  stripped_eq := by
    rw [strippedAll_append, first.stripped_eq, second.stripped_eq, Node.bareAll_append]
  leaf_nodes := by
    have split : j - i = (m - i) + (j - m) := by omega
    have behind : i + (m - i) = m := by omega
    rw [nodesOfAll_append, first.length_eq, first.leaf_nodes, second.leaf_nodes, split,
      ← List.range'_append_1, List.map_append, behind]
  error_nodes := by
    rw [nodesOfAll_append, first.length_eq, first.error_nodes, second.error_nodes]
    rfl

/-- Tokens between nodes stand by themselves. -/
theorem between (forward : next ≤ after) (inside : after ≤ input.tokens.size) :
    Emits vocabulary input i i next [] (leavesBetween vocabulary input.tokens next after) after where
  forward := forward
  inside := inside
  leaves_eq := leavesAll_ofToken _
  stripped_eq := strippedAll_ofToken _
  leaf_nodes := by
    rw [leavesBetween, nodesOfAll_ofToken, Nat.sub_self]
    rfl
  error_nodes := nodesOfAll_ofToken _ _ _

/-- The tokens before a node stand before it. -/
theorem preceded (forward : next ≤ middle) (ordered : i ≤ j)
    (emits : Emits vocabulary input i j middle nodes trees after) :
    Emits vocabulary input i j next nodes
      (leavesBetween vocabulary input.tokens next middle ++ trees) after :=
  (between forward (Nat.le_trans emits.forward emits.inside)).append emits (Nat.le_refl i) ordered

/-- A node is put around what is emitted for its children. -/
theorem enclose (isInner : node.kind.isLeaf = false)
    (emits : Emits vocabulary input i j next node.children inside after) :
    Emits vocabulary input i j next [node] [.node (Label.ofNodeKind node.kind) inside] after where
  forward := emits.forward
  inside := emits.inside
  leaves_eq := by simp only [leavesAll, leaves, List.append_nil, emits.leaves_eq]
  stripped_eq := by
    simp only [strippedAll, stripped, Label.ofNodeKind_ne_root, Label.ofNodeKind_ne_error, or_self,
      if_false, emits.stripped_eq, Node.bareAll, Node.bare_eq, List.append_nil]
  leaf_nodes := by
    simp only [nodesOfAll, nodesOf, Label.isLeaf_ofNodeKind, isInner, Bool.false_eq_true, if_false,
      List.nil_append, List.append_nil, emits.leaf_nodes]
  error_nodes := by
    simp only [nodesOfAll, nodesOf, Label.ofNodeKind_ne_error, decide_false, Bool.false_eq_true,
      if_false, List.append_nil, emits.error_nodes]

/-- A leaf is put around its token. -/
theorem leaf (vocabulary : Vocabulary) (isLeaf : node.kind.isLeaf = true)
    (bare : node.children = []) (listed : input.indexAt i < input.tokens.size) :
    Emits vocabulary input i (i + 1) (input.indexAt i) [node]
      [.node (Label.ofNodeKind node.kind)
        (leavesBetween vocabulary input.tokens (input.indexAt i) (input.indexAt i + 1))]
      (input.indexAt i + 1) where
  forward := Nat.le_succ _
  inside := listed
  leaves_eq := by
    simp only [leavesAll, leaves, leavesBetween, leavesAll_ofToken, List.append_nil]
  stripped_eq := by
    simp only [strippedAll, stripped, Label.ofNodeKind_ne_root, Label.ofNodeKind_ne_error, or_self,
      if_false, leavesBetween, strippedAll_ofToken, Node.bareAll, Node.bare_eq, bare,
      List.append_nil]
  leaf_nodes := by
    have alone : (input.tokens.extract (input.indexAt i) (input.indexAt i + 1)).toList =
        (input.tokens[input.indexAt i]?).toList := by
      simp [List.extract, listed, List.take_one]
    have once : i + 1 - i = 1 := by omega
    simp only [nodesOfAll, nodesOf, Label.isLeaf_ofNodeKind, isLeaf, if_true, leavesBetween,
      nodesOfAll_ofToken, alone, once, List.append_nil, List.range'_one, List.map_cons,
      List.map_nil, leafAt]
  error_nodes := by
    simp only [nodesOfAll, nodesOf, Label.ofNodeKind_ne_error, decide_false, Bool.false_eq_true,
      if_false, leavesBetween, nodesOfAll_ofToken, List.append_nil]

end Emits

/-! ### What is emitted for a tiling -/

section Tree

variable {input : Input} {i j k m next : Nat} {nodes children : List Node} {node : Node}

theorem ofNodes_single (next : Nat) (node : Node) :
    ofNodes vocabulary tokens next [node] = ofNode vocabulary tokens next node := by
  simp [ofNodes]

/-- A node without children is emitted with the tokens it covers. -/
theorem ofNode_of_bare (vocabulary : Vocabulary) (tokens : Array Token) (next : Nat)
    (bare : node.children = []) :
    ofNode vocabulary tokens next node =
      (leavesBetween vocabulary tokens next node.first ++
          [.node (Label.ofNodeKind node.kind)
            (leavesBetween vocabulary tokens (max next node.first) node.stop)],
        max (max next node.first) node.stop) := by
  obtain ⟨element, kind, range, first, stop, children⟩ := node
  obtain rfl : children = [] := bare
  rfl

/-- Any other node is emitted with its children. -/
theorem ofNode_of_children {inside : List Lossless} {after : Nat} (some : node.children ≠ [])
    (below : ofNodes vocabulary tokens (max next node.first) node.children = (inside, after)) :
    ofNode vocabulary tokens next node =
      (leavesBetween vocabulary tokens next node.first ++
        [.node (Label.ofNodeKind node.kind) inside], after) := by
  obtain ⟨element, kind, range, first, stop, children⟩ := node
  have further : children.isEmpty = false := by simpa using some
  unfold ofNode
  simp only at below
  simp only [further, below, Bool.false_eq_true, if_false]

/-- The token behind the one at a position is not behind the one at the next position. -/
theorem behind_le (ascending : input.Ascending) (before : k < m) (inside : m < input.size) :
    input.indexAt (m - 1) + 1 ≤ input.indexAt m :=
  ascending (m - 1) m (by omega) inside

/-- What is emitted for the nodes ends with their last token. -/
def Emitted (vocabulary : Vocabulary) (input : Input) (i j next : Nat) (nodes : List Node) : Prop :=
  ∃ trees after, ofNodes vocabulary input.tokens next nodes = (trees, after) ∧
    Emits vocabulary input i j next nodes trees after ∧
    (i < j → after = input.indexAt (j - 1) + 1)

/-- A row of nodes is emitted node by node. -/
theorem emitted_cons {trees : List Lossless} {after : Nat} (ascending : input.Ascending)
    (covers : node.Spans input i m) (rest : Tiled input m j nodes)
    (emitted : ofNode vocabulary input.tokens next node = (trees, after))
    (emits : Emits vocabulary input i m next [node] trees after)
    (after_eq : after = input.indexAt (m - 1) + 1)
    (later : (m < j → after ≤ input.indexAt m) → Emitted vocabulary input m j after nodes) :
    Emitted vocabulary input i j next (node :: nodes) := by
  have wide := covers.nonempty
  obtain ⟨more, stop, emittedRest, emitsRest, stop_eq⟩ := later fun further =>
    after_eq ▸ behind_le ascending wide (Nat.lt_of_lt_of_le further (rest.row.inside further))
  refine ⟨trees ++ more, stop, ?_, emits.append emitsRest (Nat.le_of_lt wide) rest.le, fun _ => ?_⟩
  · simp only [ofNodes, emitted, emittedRest]
  · rcases Nat.lt_or_eq_of_le rest.le with further | rfl
    · exact stop_eq further
    · cases rest with
      | nil =>
          obtain ⟨-, rfl⟩ := Prod.ext_iff.1 emittedRest
          exact after_eq
      | leaf covers isLeaf rest => exact absurd rest.le (Nat.not_succ_le_self _)
      | inner covers isInner below rest => exact absurd covers.nonempty (Nat.not_lt.2 rest.le)

/-- **A tiling is emitted with the tokens it covers** and those in between, when the next token
is not behind its first one. -/
theorem emitted_of_tiled (vocabulary : Vocabulary) (ascending : input.Ascending)
    (listed : input.Listed) (tiled : Tiled input i j nodes) (bound : next ≤ input.tokens.size)
    (starts : i < j → next ≤ input.indexAt i) : Emitted vocabulary input i j next nodes := by
  induction tiled generalizing next with
  | nil i => exact ⟨[], next, rfl, .nil bound, fun further => absurd further (Nat.lt_irrefl i)⟩
  | @leaf id kind i j node others covers isLeaf rest ih =>
      have stop : node.stop = input.indexAt i + 1 := covers.stop_eq
      have forward : next ≤ input.indexAt i := starts rest.le
      have emitted := ofNode_of_bare vocabulary input.tokens next covers.children_eq
      rw [covers.first_eq, stop, Nat.max_eq_right forward, Nat.max_eq_right (Nat.le_succ _)]
        at emitted
      have emits := (Emits.leaf vocabulary (covers.kind_eq ▸ isLeaf) covers.children_eq
        (listed i (Nat.lt_of_lt_of_le covers.nonempty covers.inside))).preceded
          forward (Nat.le_succ i)
      exact emitted_cons ascending covers.toSpans rest emitted emits rfl (ih emits.inside)
  -- An inner node begins with its first child, so trivia before it goes before the node.
  | @inner id kind i m j node children others covers isInner below rest ihBelow ih =>
      have wide := covers.nonempty
      have forward : next ≤ input.indexAt i := starts (Nat.lt_of_lt_of_le wide rest.le)
      have place := listed i (Nat.lt_of_lt_of_le wide covers.inside)
      obtain ⟨inside, after, emittedBelow, emitsBelow, after_eq⟩ :=
        ihBelow (Nat.le_of_lt place) fun _ => Nat.le_refl _
      obtain rfl := covers.children_eq
      have some : node.children ≠ [] := by
        intro none
        rw [none] at below
        cases below
        exact absurd wide (Nat.lt_irrefl _)
      rw [← Nat.max_eq_right forward, ← covers.first_eq] at emittedBelow
      have emitted := ofNode_of_children some emittedBelow
      rw [covers.first_eq] at emitted
      have emits :=
        (emitsBelow.enclose (covers.kind_eq ▸ isInner)).preceded forward (Nat.le_of_lt wide)
      exact emitted_cons ascending covers.toSpans rest emitted emits (after_eq wide)
        (ih emits.inside)

end Tree

/-! ### What is left over -/

/-- The error node from the given token on, if there is one. -/
def errorPart (vocabulary : Vocabulary) (tokens : Array Token) (first : Option Nat) : List Lossless :=
  first.toList.map fun index =>
    .node .error ((tokens.toList.drop index).map (ofToken vocabulary))

theorem strippedAll_errorPart (first : Option Nat) :
    strippedAll (errorPart vocabulary tokens first) = [] := by
  cases first with
  | none => rfl
  | some index =>
      simp only [errorPart, Option.toList_some, List.map_cons, List.map_nil, strippedAll, stripped,
        or_true, if_true, strippedAll_ofToken, List.append_nil]

theorem nodesOfAll_errorPart (wanted : Label → Bool) (next : Nat) (first : Option Nat) :
    nodesOfAll wanted next (errorPart vocabulary tokens first) =
      if wanted .error then
        first.toList.map fun index =>
          (next, (tokens.toList.drop index).map (ofToken vocabulary))
      else [] := by
  cases first with
  | none => simp [errorPart, nodesOfAll]
  | some index =>
      simp only [errorPart, Option.toList_some, List.map_cons, List.map_nil, nodesOfAll, nodesOf,
        nodesOfAll_ofToken, List.append_nil]

section LeftOver

variable {placeholder : Option String} {opened : Cursor} {count next index : Nat}

/-- A token is listed as meaningful exactly if it is not trivia. -/
theorem mem_meaningful {row : List Token} :
    index ∈ Cursor.meaningful vocabulary row 0 ↔
      ∃ token, row[index]? = some token ∧ vocabulary.has TokenType.isTrivia token.kind = false := by
  simp only [Cursor.meaningful, List.mem_map, List.mem_filter, Prod.exists,
    List.mem_zipIdx_iff_getElem?, Bool.not_eq_true']
  constructor
  · rintro ⟨token, place, ⟨found, plain⟩, rfl⟩
    exact ⟨token, found, plain⟩
  · rintro ⟨token, found, plain⟩
    exact ⟨token, index, ⟨found, plain⟩, rfl⟩

/-- What is behind the last token of a match and before the next meaningful one is trivia. -/
theorem isTrivia_of_between (fresh : Cursor.ofTokens vocabulary tokens placeholder = .ok opened)
    (behind : ∀ k < count, opened.input.indexAt k < index)
    (before : index < opened.input.indexAt count) {token : Token}
    (found : tokens[index]? = some token) :
    vocabulary.has TokenType.isTrivia token.kind = true := by
  by_contra plain
  have listed : index ∈ Cursor.meaningful vocabulary tokens.toList 0 :=
    mem_meaningful.2 ⟨token, by simpa using found, by simpa using plain⟩
  obtain ⟨k, place⟩ := List.mem_iff_getElem?.1 listed
  rw [Cursor.getElem?_meaningful fresh] at place
  by_cases inside : k < opened.input.size
  · rw [if_pos inside, Option.some.injEq] at place
    have further : ¬ k < count := fun earlier => absurd (behind k earlier) (by omega)
    have ascending := Cursor.ascending_of_ofTokens fresh
    rcases Nat.lt_or_eq_of_le (Nat.le_of_not_lt further) with later | rfl
    · have := ascending count k later inside
      omega
    · omega
  · rw [if_neg inside] at place
    cases place

/-- What is left over: trivia, and an error node for what begins with another token. -/
theorem leftOver_append {row rest : List Token}
    (plain : ∀ token ∈ row, vocabulary.has TokenType.isTrivia token.kind = true)
    (meaning : ∀ token ∈ rest.head?, vocabulary.has TokenType.isTrivia token.kind = false) :
    leftOver vocabulary (row ++ rest) = row.map (ofToken vocabulary) ++
      if rest.isEmpty then [] else [.node .error (rest.map (ofToken vocabulary))] := by
  unfold leftOver
  dsimp only
  rw [List.takeWhile_append_of_pos plain, List.dropWhile_append_of_pos plain]
  cases rest with
  | nil => simp
  | cons token rest =>
      have stays := meaning token rfl
      rw [List.takeWhile_cons_of_neg (by simpa using stays),
        List.dropWhile_cons_of_neg (by simpa using stays), List.append_nil]

/-- What a match leaves over is trivia, and then the error node from the next meaningful token
on. -/
theorem leftOver_eq (fresh : Cursor.ofTokens vocabulary tokens placeholder = .ok opened)
    (behind : ∀ k < count, opened.input.indexAt k < next)
    (forward : next ≤ opened.input.indexAt count) (inside : count ≤ opened.input.size) :
    leftOver vocabulary (tokens.toList.drop next) =
      leavesBetween vocabulary tokens next (opened.input.indexAt count) ++
        errorPart vocabulary tokens (Cursor.meaningful vocabulary tokens.toList 0)[count]? := by
  have split : tokens.toList.drop next =
      (tokens.extract next (opened.input.indexAt count)).toList ++
        tokens.toList.drop (opened.input.indexAt count) := by
    have distance : next + (opened.input.indexAt count - next) = opened.input.indexAt count :=
      Nat.add_sub_cancel' forward
    rw [Array.toList_extract, List.extract, ← distance, ← List.drop_drop, distance,
      List.take_append_drop]
  -- Between two tokens that count there is nothing but trivia.
  have plain : ∀ token ∈ (tokens.extract next (opened.input.indexAt count)).toList,
      vocabulary.has TokenType.isTrivia token.kind = true := by
    intro token member
    obtain ⟨k, bound, rfl⟩ := List.mem_iff_getElem.1 member
    have within : k < opened.input.indexAt count - next ∧ next + k < tokens.size := by
      rw [Array.length_toList, Array.size_extract] at bound
      omega
    have found : tokens[next + k]? =
        some ((tokens.extract next (opened.input.indexAt count)).toList[k]) := by
      simp [within.2]
    exact isTrivia_of_between fresh (fun t earlier => by have := behind t earlier; omega)
      (by omega) found
  obtain ⟨rfl, -⟩ := Cursor.ofTokens_eq_ok fresh
  rcases Nat.lt_or_eq_of_le inside with further | rfl
  · have listed : opened.input.indexAt count ∈ Cursor.meaningful vocabulary opened.tokens.toList 0 :=
      List.mem_iff_getElem?.2 ⟨count, by rw [Cursor.getElem?_meaningful fresh, if_pos further]⟩
    obtain ⟨token, found, meaning⟩ := mem_meaningful.1 listed
    obtain ⟨bound, rfl⟩ := List.getElem?_eq_some_iff.1 found
    have some : (opened.tokens.toList.drop (opened.input.indexAt count)).isEmpty = false := by
      rw [List.drop_eq_getElem_cons bound]
      rfl
    rw [split, leftOver_append plain (by simpa [List.head?_drop, found] using meaning), some,
      Cursor.getElem?_meaningful fresh, if_pos further]
    rfl
  · have last : opened.input.indexAt opened.input.size = opened.tokens.toList.length := by
      simp [Input.indexAt, Input.size, Cursor.input]
    rw [split, Cursor.getElem?_meaningful fresh, if_neg (Nat.lt_irrefl _),
      show opened.tokens.toList.drop (opened.input.indexAt opened.input.size) = [] by
        rw [last, List.drop_length],
      leftOver_append plain (by simp)]
    rfl

end LeftOver

/-! ### Trees of parses -/

section Parsing

variable {placeholder : Option String} {opened : Cursor} {count : Nat} {root : Node}

/-- The position behind the last token is that of the end of the input. -/
theorem indexAt_size (input : Input) : input.indexAt input.size = input.tokens.size := by
  simp [Input.indexAt, Input.size]

/-- The tokens of the error node, if there is one, are those behind the match and the trivia. -/
theorem leavesAll_error (fresh : Cursor.ofTokens vocabulary tokens placeholder = .ok opened)
    (inside : count ≤ opened.input.size) :
    leavesAll (errorPart vocabulary tokens (Cursor.meaningful vocabulary tokens.toList 0)[count]?) =
      (tokens.toList.drop (opened.input.indexAt count)).map (leafOf vocabulary) := by
  rw [Cursor.getElem?_meaningful fresh, errorPart]
  obtain ⟨rfl, -⟩ := Cursor.ofTokens_eq_ok fresh
  rcases Nat.lt_or_eq_of_le inside with further | rfl
  · rw [if_pos further, ← leavesAll_ofToken]
    simp [leavesAll, leaves]
  · rw [if_neg (Nat.lt_irrefl _), indexAt_size]
    simp [leavesAll, Cursor.input]

/-- The whole tree is what is emitted for the tree of the parse up to the next meaningful token,
and the error node. -/
theorem exists_ofTree (fresh : Cursor.ofTokens vocabulary tokens placeholder = .ok opened)
    (tiled : Tiled opened.input 0 count [root]) : ∃ trees,
      Emits vocabulary opened.input 0 count 0 [root] trees (opened.input.indexAt count) ∧
      ofTree vocabulary tokens root =
        .node .root (trees ++
          errorPart vocabulary tokens (Cursor.meaningful vocabulary tokens.toList 0)[count]?) := by
  have ascending := Cursor.ascending_of_ofTokens fresh
  have listed := Cursor.listed_of_ofTokens fresh
  have wide := tiled.single.nonempty
  have inside := tiled.single.inside
  have same : opened.input.tokens = tokens := (Cursor.ofTokens_eq_ok fresh).1
  obtain ⟨trees, after, emitted, emits, after_eq⟩ :=
    emitted_of_tiled vocabulary ascending listed tiled (Nat.zero_le _)
      fun _ => Nat.zero_le _
  have after_eq := after_eq wide
  -- Everything that counts and was taken has been emitted.
  have behind : ∀ k < count, opened.input.indexAt k < after := by
    intro k earlier
    rcases Nat.lt_or_eq_of_le (Nat.le_sub_one_of_lt earlier) with before | rfl
    · have := ascending k (count - 1) before (by omega)
      omega
    · omega
  have goesOn : after ≤ opened.input.indexAt count ∧
      opened.input.indexAt count ≤ opened.input.tokens.size := by
    rcases Nat.lt_or_eq_of_le inside with further | rfl
    · exact ⟨after_eq ▸ behind_le ascending wide further, Nat.le_of_lt (listed count further)⟩
    · rw [indexAt_size, after_eq]
      exact ⟨listed _ (Nat.sub_one_lt_of_lt wide), Nat.le_refl _⟩
  refine ⟨trees ++ leavesBetween vocabulary tokens after (opened.input.indexAt count), ?_, ?_⟩
  · rw [← same, ← List.append_nil [root]]
    exact emits.append (.between goesOn.1 goesOn.2) (Nat.zero_le _) (Nat.le_refl _)
  · rw [same, ofNodes_single] at emitted
    have left := leftOver_eq fresh behind goesOn.1 inside
    simp only [ofTree, emitted, left, List.append_assoc]

/-- **The whole tree keeps the input and the parse**, if the tree of the parse takes the first
tokens of the input, each once. -/
theorem keeps_of_tiled (fresh : Cursor.ofTokens vocabulary tokens placeholder = .ok opened)
    (tiled : Tiled opened.input 0 count [root]) :
    (ofTree vocabulary tokens root).Keeps vocabulary tokens count root := by
  obtain ⟨trees, emits, tree_eq⟩ := exists_ofTree fresh tiled
  have inside := tiled.single.inside
  have same : opened.input.tokens = tokens := (Cursor.ofTokens_eq_ok fresh).1
  have length_eq := emits.length_eq
  rw [Nat.zero_add] at length_eq
  rw [tree_eq]
  constructor
  case leaves_of =>
    have all : tokens.toList = (tokens.extract 0 (opened.input.indexAt count)).toList ++
        tokens.toList.drop (opened.input.indexAt count) := by
      simp [List.extract, List.take_append_drop]
    rw [leaves, leavesAll_append, emits.leaves_eq, leavesAll_error fresh inside, same,
      ← List.map_append, ← all]
    exact leafOf_forall₂ (Cursor.known_of_ofTokens fresh)
  case stripped_eq =>
    rw [stripped, if_pos (Or.inl rfl), strippedAll_append, emits.stripped_eq, strippedAll_errorPart]
    rfl
  case inside =>
    rw [← Cursor.significant_eq fresh, Array.length_toList]
    exact inside
  case leaf_nodes =>
    -- Leaves of nodes are exactly the tokens taken, in order.
    have taken : (Cursor.meaningful vocabulary tokens.toList 0).take count =
        (List.range' 0 count).map opened.input.indexAt := by
      refine List.ext_getElem? fun k => ?_
      rw [List.getElem?_take, Cursor.getElem?_meaningful fresh, ← List.range_eq_range', List.getElem?_map]
      by_cases earlier : k < count
      · simp [earlier, Nat.lt_of_lt_of_le earlier inside]
      · simp [earlier]
    rw [nodesOf, nodesOfAll_append, emits.leaf_nodes, nodesOfAll_errorPart, taken, List.map_map,
      ← same]
    simp only [Label.isLeaf, Bool.false_eq_true, if_false, List.nil_append, List.append_nil]
    rfl
  case error_nodes =>
    rw [nodesOf, nodesOfAll_append, emits.error_nodes, nodesOfAll_errorPart, length_eq,
      Cursor.getElem?_meaningful fresh]
    by_cases further : count < opened.input.size
    · simp [further]
    · simp [further]
  case root_eq =>
    refine ⟨_, rfl, fun index left => ?_⟩
    rw [left]
    simp [errorPart]

variable {g : Grammar} {rules : List Rule} {name : Option String} {options : Options}
  {cancelled : Bool}

/-- **The tree of a parse over its whole input loses nothing** and keeps what the parse took
apart from what it left over.  It can be made of every parse that succeeds. -/
theorem parse_lossless [Alphabet] (built : Grammar.ofRules vocabulary rules name = .ok g)
    {rule : Option String} {memo memo' : Memo} (faithful : memo.Faithful g) {parse : Parse}
    (parsed : g.parse tokens rule options cancelled memo = .ok (.ok parse) memo') :
    ∃ tree, ofTreeChecked g.vocabulary tokens parse.root = .ok tree ∧
      tree.Keeps g.vocabulary tokens parse.outcome.tokens parse.root := by
  have wellFormed := Grammar.ofRules_wellFormed built
  obtain ⟨root, started, parsed⟩ := parse_eq_ok parsed
  obtain ⟨first, -, -, -, begun, -⟩ := parseFrom_eq_ok parsed
  obtain ⟨opened, fresh, -⟩ := bind_eq_ok.1 begun
  change Cursor.ofTokens g.vocabulary tokens options.placeholder = .ok opened at fresh
  rcases parseFrom_concludes wellFormed cancelled fresh (startAt_lt wellFormed started) faithful with
    ⟨outcome, last, answer, after, -, -, concluded, done⟩ | ⟨⟨after, failed⟩, -⟩
  · rw [parsed] at done
    cases done
    cases concluded with
    | matched going isMatch account leftOver assembled =>
        have within := account.tiled.within (Cursor.ascending_of_ofTokens fresh)
          (Cursor.listed_of_ofTokens fresh)
        rw [show opened.input.tokens = tokens from (Cursor.ofTokens_eq_ok fresh).1] at within
        exact ⟨_, ofTreeChecked_eq (Cursor.known_of_ofTokens fresh) within,
          keeps_of_tiled fresh account.tiled⟩
  · rw [parsed] at failed
    cases failed

/-- A rule of two tokens. -/
def pairRules : List Rule :=
  [⟨"r", .sequence [.required (.token "A" none none), .required (.token "A" none none)]⟩]

/-- The grammar of that rule, with white space between tokens. -/
def pair : Grammar where
  vocabulary := ⟨"test", #[.keyword "A" "a", ⟨"W", none, .whitespace, false⟩]⟩
  elements := #[
    ⟨0, "r", some "r", none, .sequence [.required 1, .required 2]⟩,
    ⟨1, "r#1", none, some 0, .token 0 none none⟩,
    ⟨2, "r#2", none, some 0, .token 0 none none⟩]
  rules := [("r", 0)]
  root := 0

theorem pair_built : Grammar.ofRules pair.vocabulary pairRules none = .ok pair := by
  with_unfolding_all rfl

/-- Three tokens with white space on all sides. -/
def spacedTokens : Array Token :=
  #[⟨1, " ", 0⟩, ⟨0, "a", 1⟩, ⟨1, " ", 2⟩, ⟨0, "a", 3⟩, ⟨1, " ", 4⟩, ⟨0, "a", 5⟩, ⟨1, " ", 6⟩]

/-- Two of the tokens are matched and stand in leaves.  The third one is left over, and is in the
error node together with the white space behind it. -/
theorem spacedTokens_lossless :
    Grammar.ofRules pair.vocabulary pairRules none = .ok pair ∧ ∃ parse memo tree,
      pair.parse spacedTokens none {} false pair.blankMemo = .ok (.ok parse) memo ∧
        parse.outcome = .fullMatch 2 ∧
        ofTreeChecked pair.vocabulary spacedTokens parse.root = .ok tree ∧
        tree.Keeps pair.vocabulary spacedTokens 2 parse.root := by
  have comes : comesTo (fun parse => parse.outcome = .fullMatch 2)
      (pair.parse spacedTokens none {} false pair.blankMemo) = true := by
    decide +kernel
  obtain ⟨parse, memo, parsed, outcome⟩ := exists_of_comesTo comes
  replace outcome := of_decide_eq_true outcome
  obtain ⟨tree, read, keeps⟩ := parse_lossless pair_built (Memo.blank_faithful pair) parsed
  rw [outcome] at keeps
  exact ⟨pair_built, parse, memo, tree, parsed, outcome, read, keeps⟩

end Parsing

end Lossless

end Dialect
