import Dialect.Proofs.Accounting
import Dialect.Proofs.Sharing
import Dialect.Tree.Checked

/-!
# Parsing is safe

A parse of tokens that are in order meets no fault, and neither does a reader of its tree
(`parse_safe`).  A tree is read without a fault if every node in it covers a stretch of the
tokens (`Node.Within`), as the nodes of a tiling do.

No matcher drops a mark.  An aborted parse is concluded without a look at the marks that are out,
so that none is left is said of the run of its root.
-/

set_option autoImplicit false

namespace Dialect

/-! ### Reading trees -/

/-- Every node of the forest covers a stretch of so many tokens. -/
def Node.Within (size : Nat) (nodes : List Node) : Prop :=
  ∀ node ∈ Node.preorderAll nodes, node.first ≤ node.stop ∧ node.stop ≤ size

section Reading

variable {vocabulary : Vocabulary} {tokens : Array Token} {nodes : List Node} {node : Node}
  {first stop : Nat}

theorem Token.slice_eq_ok (ordered : first ≤ stop) (inside : stop ≤ tokens.size) :
    Token.slice tokens first stop = .ok (tokens.extract first stop).toList :=
  if_pos ⟨ordered, inside⟩

theorem Node.textsChecked_eq (within : Node.Within tokens.size [node]) :
    node.textsChecked tokens = .ok (node.texts tokens) := by
  have taken : ∀ leaf ∈ node.preorder.filter fun node => node.kind.isLeaf,
      Token.slice tokens leaf.first leaf.stop = .ok (tokens.extract leaf.first leaf.stop).toList := by
    intro leaf member
    have below : leaf ∈ Node.preorderAll [node] := by
      simpa [Node.preorderAll] using List.mem_of_mem_filter member
    exact Token.slice_eq_ok (within leaf below).1 (within leaf below).2
  unfold Node.textsChecked Node.texts
  rw [mapM_eq_ok taken]
  simp [bind, Except.bind, pure, Except.pure, List.flatMap_map]

namespace Lossless

theorem ofTokenChecked_eq {token : Token} (known : token.kind < vocabulary.types.size) :
    ofTokenChecked vocabulary token = .ok (ofToken vocabulary token) := by
  simp [ofTokenChecked, ofToken, Vocabulary.get, known, bind, Except.bind, pure, Except.pure]

theorem leavesBetweenChecked_eq (known : ∀ token ∈ tokens, token.kind < vocabulary.types.size)
    (inside : stop ≤ tokens.size) :
    leavesBetweenChecked vocabulary tokens first stop =
      .ok (leavesBetween vocabulary tokens first stop) := by
  let leafAt (index : Nat) : Lossless := ofToken vocabulary (tokens[index]?.getD ⟨0, "", 0⟩)
  have reads : ∀ index ∈ List.range' first (stop - first),
      (do ofTokenChecked vocabulary (← Assembly.tokenAt tokens index)) = .ok (leafAt index) := by
    intro index member
    have bound : index < tokens.size := by
      have := List.mem_range'_1.1 member
      omega
    have issued := known tokens[index] (Array.getElem_mem bound)
    simp [leafAt, Assembly.tokenAt, bound, ofTokenChecked_eq issued, bind, Except.bind]
  unfold leavesBetweenChecked leavesBetween
  rw [mapM_eq_ok reads]
  refine congrArg Except.ok (List.ext_getElem ?_ ?_)
  · simp
    omega
  · intro k left right
    have bound : first + k < tokens.size := by
      simp at left
      omega
    simp [leafAt, bound]

mutual

/-- Reading a node faults nowhere, and goes on within the tokens. -/
theorem ofNodeChecked_eq
    (known : ∀ token ∈ tokens, token.kind < vocabulary.types.size) (next : Nat) (node : Node)
    (within : Node.Within tokens.size [node]) (inside : next ≤ tokens.size) :
    ofNodeChecked vocabulary tokens next node = .ok (ofNode vocabulary tokens next node) ∧
      (ofNode vocabulary tokens next node).2 ≤ tokens.size := by
  obtain ⟨element, kind, range, first, stop, children⟩ := node
  have covers : first ≤ stop ∧ stop ≤ tokens.size :=
    within ⟨element, kind, range, first, stop, children⟩
      (Node.mem_preorderAll_of_mem (List.mem_singleton.2 rfl))
  have below : Node.Within tokens.size children := by
    intro part member
    apply within
    simp [Node.preorderAll, Node.preorder, member]
  have further : max next first ≤ tokens.size := by omega
  have before : leavesBetweenChecked vocabulary tokens next first = .ok _ :=
    leavesBetweenChecked_eq known (by omega)
  unfold ofNodeChecked ofNode
  simp only [before]
  cases bare : children.isEmpty with
  | true =>
      have taken : leavesBetweenChecked vocabulary tokens (max next first) stop = .ok _ :=
        leavesBetweenChecked_eq known covers.2
      simp only [taken, bind, Except.bind, pure, Except.pure, if_true]
      refine ⟨trivial, ?_⟩
      omega
  | false =>
      obtain ⟨reads, ends⟩ := ofNodesChecked_eq known (max next first) children below further
      simp only [reads, bind, Except.bind, pure, Except.pure, Bool.false_eq_true, if_false]
      exact ⟨trivial, ends⟩

/-- Reading neighbouring nodes faults nowhere, and goes on within the tokens. -/
theorem ofNodesChecked_eq
    (known : ∀ token ∈ tokens, token.kind < vocabulary.types.size) (next : Nat) (nodes : List Node)
    (within : Node.Within tokens.size nodes) (inside : next ≤ tokens.size) :
    ofNodesChecked vocabulary tokens next nodes = .ok (ofNodes vocabulary tokens next nodes) ∧
      (ofNodes vocabulary tokens next nodes).2 ≤ tokens.size := by
  cases nodes with
  | nil => exact ⟨rfl, inside⟩
  | cons head rest =>
      have here : Node.Within tokens.size [head] := by
        intro part member
        apply within
        simp only [Node.preorderAll, List.append_nil] at member
        simp [Node.preorderAll, member]
      have behind : Node.Within tokens.size rest := by
        intro part member
        apply within
        simp [Node.preorderAll, member]
      obtain ⟨reads, ends⟩ := ofNodeChecked_eq known next head here inside
      obtain ⟨readsRest, endsRest⟩ := ofNodesChecked_eq known _ rest behind ends
      unfold ofNodesChecked ofNodes
      simp only [reads, readsRest, bind, Except.bind, pure, Except.pure]
      exact ⟨trivial, endsRest⟩

end

theorem leftOverChecked_eq (left : List Token)
    (issued : ∀ token ∈ left, token.kind < vocabulary.types.size) :
    leftOverChecked vocabulary left = .ok (leftOver vocabulary left) := by
  induction left with
  | nil => rfl
  | cons head rest ih =>
      have bound := issued head List.mem_cons_self
      have later := ih fun token member => issued token (List.mem_cons_of_mem _ member)
      have reads := mapM_eq_ok fun token member => ofTokenChecked_eq (issued token member)
      have found : vocabulary.get head.kind = .ok vocabulary.types[head.kind] := by
        simp [Vocabulary.get, bound]
      have has_eq : vocabulary.has TokenType.isTrivia head.kind =
          vocabulary.types[head.kind].isTrivia := by
        simp [Vocabulary.has, bound]
      unfold leftOverChecked
      rw [found, reads, later, ofTokenChecked_eq bound]
      cases isTrivia : vocabulary.types[head.kind].isTrivia with
      | true => simp [leftOver, has_eq, isTrivia, bind, Except.bind, pure, Except.pure]
      | false => simp [leftOver, has_eq, isTrivia, bind, Except.bind, pure, Except.pure]

/-- **The whole tree is read without a fault**, with the tokens it was made from. -/
theorem ofTreeChecked_eq (known : ∀ token ∈ tokens, token.kind < vocabulary.types.size)
    (within : Node.Within tokens.size [node]) :
    ofTreeChecked vocabulary tokens node = .ok (ofTree vocabulary tokens node) := by
  obtain ⟨reads, ends⟩ := ofNodeChecked_eq known 0 node within (Nat.zero_le _)
  have left : tokens.toList.drop (ofNode vocabulary tokens 0 node).2 =
      (tokens.extract (ofNode vocabulary tokens 0 node).2 tokens.size).toList := by
    simp [List.extract]
  have issued : ∀ token ∈ tokens.toList.drop (ofNode vocabulary tokens 0 node).2,
      token.kind < vocabulary.types.size := by
    intro token member
    exact known token (Array.mem_def.2 (List.mem_of_mem_drop member))
  unfold ofTreeChecked ofTree
  simp only [reads, Token.slice_eq_ok ends (Nat.le_refl _), ← left, leftOverChecked_eq _ issued,
    bind, Except.bind, pure, Except.pure]

end Lossless

end Reading

/-- The nodes of a tiling cover stretches of the tokens. -/
theorem Tiled.within {input : Input} {i j : Nat} {nodes : List Node} (tiled : Tiled input i j nodes)
    (ascending : input.Ascending) (listed : input.Listed) :
    Node.Within input.tokens.size nodes := by
  intro node member
  obtain ⟨a, b, -, -, alone⟩ := tiled.exists_tiled_of_mem member
  have spans := alone.single
  have last : b - 1 < input.size := by
    have := spans.nonempty
    have := spans.inside
    omega
  have listed := listed (b - 1) last
  have ordered : input.indexAt a ≤ input.indexAt (b - 1) := by
    rcases Nat.eq_or_lt_of_le (Nat.le_sub_one_of_lt spans.nonempty) with same | earlier
    · rw [same]
    · exact Nat.le_of_lt (ascending _ _ earlier last)
  rw [spans.first_eq, spans.stop_eq]
  constructor <;> omega

/-! ### Parsing -/

section Parsing

variable {g : Grammar} {vocabulary : Vocabulary} {rules : List Rule} {name : Option String}
  {tokens : Array Token}

/-- Tokens are in order if each lies behind the one before it. -/
theorem Token.inOrder_of_isChain
    (fits : ∀ token ∈ tokens, token.offset + token.text.utf8ByteSize < TextRange.offsetLimit)
    (behind : tokens.toList.IsChain fun before after =>
      before.offset + before.text.utf8ByteSize ≤ after.offset) : Token.InOrder tokens := by
  let behindBy (before after : Token) : Prop :=
    before.offset + before.text.utf8ByteSize ≤ after.offset
  have transitive : IsTrans Token behindBy := by
    constructor
    intro before between after first second
    show before.offset + before.text.utf8ByteSize ≤ after.offset
    have first : before.offset + before.text.utf8ByteSize ≤ between.offset := first
    have second : between.offset + between.text.utf8ByteSize ≤ after.offset := second
    omega
  exact ⟨fits, List.isChain_iff_pairwise.1 behind⟩

/-- **Parsing is safe.**  A parse of tokens of the vocabulary, each of which lies behind the
one before it, has an answer, whatever the rule, the options and the cancellation are and
whatever parses came before it, and the memo it leaves can be handed to the next one.  The run of
its root hands back every mark it takes, also if the parse is aborted, so none is lost.  The tree
it answers with can be read together with the tokens. -/
theorem parse_safe [Alphabet] (built : Grammar.ofRules vocabulary rules name = .ok g)
    (known : ∀ token ∈ tokens, token.kind < g.vocabulary.types.size)
    (fits : ∀ token ∈ tokens, token.offset + token.text.utf8ByteSize < TextRange.offsetLimit)
    (behind : tokens.toList.IsChain fun before after =>
      before.offset + before.text.utf8ByteSize ≤ after.offset)
    (rule : Option String) (options : Options) (cancelled : Bool) {memo : Memo}
    (faithful : memo.Faithful g) :
    ∃ answer memo', g.parse tokens rule options cancelled memo = .ok answer memo' ∧
      memo'.Faithful g ∧
      (∀ root, g.startAt rule = .ok root → ∃ opened outcome last,
        Cursor.ofTokens g.vocabulary tokens options.placeholder = .ok opened ∧
          Matcher.run (g.setting options cancelled) root [] (opened.begin options memo) =
              .ok outcome last ∧
            last.cursor.openMarks = 0) ∧
      ∀ parse, answer = .ok parse →
        Lossless.ofTreeChecked g.vocabulary tokens parse.root =
            .ok (Lossless.ofTree g.vocabulary tokens parse.root) ∧
          parse.root.textsChecked tokens = .ok (parse.root.texts tokens) := by
  have wellFormed := Grammar.ofRules_wellFormed built
  have leaves := (answers_parse wellFormed tokens rule options cancelled).memoAfter_faithful faithful
  cases started : g.startAt rule with
  | error failure =>
      have refused : g.parse tokens rule options cancelled memo = .ok (.error failure) memo := by
        unfold Grammar.parse
        rw [started]
        rfl
      exact ⟨_, _, refused, faithful, nofun, nofun⟩
  | ok root =>
      obtain ⟨opened, fresh⟩ := Cursor.exists_ofTokens known options.placeholder
      rcases parseFrom_concludes wellFormed cancelled fresh (startAt_lt wellFormed started)
        faithful with ⟨outcome, last, answer, memo', runs, marks, concluded, done⟩ | ⟨-, disorder⟩
      · have parsed : g.parse tokens rule options cancelled memo = .ok answer memo' := by
          unfold Grammar.parse
          rw [started]
          exact done
        rw [memoAfter, parsed] at leaves
        refine ⟨answer, memo', parsed, leaves, ?_, ?_⟩
        · intro root' same
          obtain rfl := Except.ok.inj same
          exact ⟨opened, outcome, last, fresh, runs, marks⟩
        obtain ⟨rfl, -⟩ := Cursor.ofTokens_eq_ok fresh
        rintro parse rfl
        cases concluded with
        | matched going isMatch account leftOver assembled =>
            -- The tree covers tokens of the input only, so no lookup on the way can miss.
            have within := account.tiled.within (Cursor.ascending_of_ofTokens fresh)
              (Cursor.listed_of_ofTokens fresh)
            exact ⟨Lossless.ofTreeChecked_eq known within, Node.textsChecked_eq within⟩
      · exact absurd (Token.inOrder_of_isChain fits behind) disorder

/-- The four tokens lie one behind the other, so parsing them is safe, also with the depth used
up at once and with the parse withdrawn. -/
theorem fencedTokens_safe :
    Grammar.ofRules fenced.vocabulary fencedRules none = .ok fenced ∧
      (∀ token ∈ fencedTokens, token.kind < fenced.vocabulary.types.size) ∧
      Token.InOrder fencedTokens ∧ ∀ cancelled,
        (∃ answer memo, fenced.parse fencedTokens none { maxDepth := 1 } cancelled
          fenced.blankMemo = .ok answer memo) ∧
        ∃ opened outcome last, Cursor.ofTokens fenced.vocabulary fencedTokens none = .ok opened ∧
          Matcher.run (fenced.setting { maxDepth := 1 } cancelled) 0 []
              (opened.begin { maxDepth := 1 } fenced.blankMemo) = .ok outcome last ∧
            last.cursor.openMarks = 0 := by
  have known : ∀ token ∈ fencedTokens, token.kind < fenced.vocabulary.types.size := by decide
  refine ⟨fenced_built, known, fencedTokens_inOrder, fun cancelled => ?_⟩
  obtain ⟨answer, memo, parsed, -, marks, -⟩ := parse_safe fenced_built known (by decide) (by decide)
    none { maxDepth := 1 } cancelled (Memo.blank_faithful fenced)
  exact ⟨⟨answer, memo, parsed⟩, marks 0 rfl⟩

end Parsing

end Dialect
