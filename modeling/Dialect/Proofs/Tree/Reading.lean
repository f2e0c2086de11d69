import Dialect.Proofs.Matching.Expectation
import Dialect.Proofs.Tree.Derivation

/-!
# Reading the tree of a full match

What a full match adds to a record is read as one tree, whatever was read before
(`Yields`), and that tree is a derivation (`derives_of_recorded`).  The induction is on the
levels of `Recorded`; for each construct, what is known of the elements below it is passed
on as `Readable`.
-/

set_option autoImplicit false

namespace Dialect

/-- Nodes one after the other, which together cover the tokens from one position up to
another. -/
inductive Row (input : Input) : Nat → Nat → List Node → Prop
  | nil (i) : Row input i i []
  | cons {i m j node nodes} (first : node.Spans input i m) (others : Row input m j nodes) :
      Row input i j (node :: nodes)

namespace Row

variable {input : Input} {i m j : Nat} {node : Node} {nodes more : List Node}

theorem le (row : Row input i j nodes) : i ≤ j := by
  induction row with
  | nil => exact Nat.le_refl _
  | cons first others ih => exact Nat.le_trans (Nat.le_of_lt first.nonempty) ih

theorem inside (row : Row input i j nodes) (further : i < j) : j ≤ input.size := by
  induction row with
  | nil => exact absurd further (Nat.lt_irrefl _)
  | @cons i m j node nodes first others ih =>
      rcases Nat.lt_or_eq_of_le others.le with later | rfl
      · exact ih later
      · exact first.inside

theorem single (spans : node.Spans input i j) : Row input i j [node] := .cons spans (.nil j)

theorem append (first : Row input i m nodes) (second : Row input m j more) :
    Row input i j (nodes ++ more) := by
  induction first with
  | nil => exact second
  | cons head others ih => exact .cons head (ih second)

end Row

/-! ### Nodes that are being read -/

/-- What an open node covers when the tokens from one position up to another were taken in
it. -/
def Input.spanOf (input : Input) (i j : Nat) : Option Span :=
  if i < j then some ⟨input.indexAt i, input.indexAt (j - 1) + 1⟩ else none

theorem spanOf_join {input : Input} (ascending : input.Ascending) {i m j : Nat} (start : i ≤ m)
    (further : m < j) (inside : j ≤ input.size) :
    some (Span.join? (input.spanOf i m) ⟨input.indexAt m, input.indexAt (j - 1) + 1⟩) =
      input.spanOf i j := by
  unfold Input.spanOf
  rw [if_pos (Nat.lt_of_le_of_lt start further)]
  rcases Nat.lt_or_eq_of_le start with before | rfl
  · have earlier := ascending i m before (Nat.lt_of_lt_of_le further inside)
    have later := ascending (m - 1) (j - 1) (by omega) (by omega)
    rw [if_pos before]
    simp only [Span.join?]
    congr 2 <;> omega
  · rw [if_neg (Nat.lt_irrefl _)]
    rfl

namespace Assembly

/-- The assembly after nodes have been closed. -/
def attachAll (a : Assembly) (nodes : List Node) : Assembly := nodes.foldl attach a

/-- The assembly with one more node open, in which the tokens from one position up to
another were taken. -/
def within (a : Assembly) (input : Input) (id : ElementId) (i j : Nat) (children : List Node) :
    Assembly :=
  { a with stack := ⟨id, input.indexAt i, input.spanOf i j, children.reverse⟩ :: a.stack }

theorem attachAll_append (a : Assembly) (nodes more : List Node) :
    a.attachAll (nodes ++ more) = (a.attachAll nodes).attachAll more := by
  simp [attachAll]

/-- Nodes that are closed inside an open node become its children. -/
theorem within_attachAll {input : Input} (ascending : input.Ascending) (a : Assembly)
    (id : ElementId) {i m j : Nat} {nodes : List Node} (start : i ≤ m)
    (row : Row input m j nodes) (children : List Node) :
    (a.within input id i m children).attachAll nodes =
      a.within input id i j (children ++ nodes) := by
  induction row generalizing children with
  | nil => simp [attachAll]
  | @cons m n j node nodes first others ih =>
      have attached : (a.within input id i m children).attach node =
          a.within input id i n (children ++ [node]) := by
        have wide : node.first < node.stop := by
          have position := first.nonempty
          rw [first.first_eq, first.stop_eq]
          rcases Nat.eq_or_lt_of_le (Nat.le_sub_one_of_lt position) with same | before
          · rw [← same]
            exact Nat.lt_succ_self _
          · have := ascending m (n - 1) before (by have := first.inside; omega)
            omega
        have joined := spanOf_join ascending start first.nonempty first.inside
        rw [← first.first_eq, ← first.stop_eq] at joined
        simp only [within, attach, if_pos wide, joined, List.reverse_append, List.reverse_cons,
          List.reverse_nil, List.nil_append, List.singleton_append]
      have later := ih (Nat.le_trans start (Nat.le_of_lt first.nonempty)) (children ++ [node])
      rw [List.append_assoc, List.singleton_append] at later
      rw [← later, ← attached]
      rfl

end Assembly

variable {g : Grammar} {version : Nat} {input : Input} {i m j : Nat} {id : ElementId}
  {a b : Assembly} {events more : List Event}

/-- Reading the events leads from one assembly to another. -/
def Reads (g : Grammar) (input : Input) (events : List Event) (a b : Assembly) : Prop :=
  events.foldlM (Assembly.step g input.tokens) a = .ok b

theorem reads_nil : Reads g input [] a b ↔ b = a := by
  unfold Reads
  rw [List.foldlM_nil, pure_eq_ok]
  exact eq_comm

theorem reads_cons {event : Event} : Reads g input (event :: events) a b ↔
    ∃ middle, Assembly.step g input.tokens a event = .ok middle ∧
      Reads g input events middle b := by
  unfold Reads
  rw [List.foldlM_cons, bind_eq_ok]

theorem reads_append : Reads g input (events ++ more) a b ↔
    ∃ middle, Reads g input events a middle ∧ Reads g input more middle b := by
  unfold Reads
  rw [List.foldlM_append, bind_eq_ok]

/-- Whatever was read before, the events are read as one node with a property. -/
def Yields (g : Grammar) (input : Input) (events : List Event) (holds : Node → Prop) : Prop :=
  ∀ a b, Reads g input events a b → ∃ node, holds node ∧ b = a.attach node

/-- Whatever was read before, the events are read as a row of nodes with a property. -/
def YieldsRow (g : Grammar) (input : Input) (events : List Event) (i j : Nat)
    (holds : List Node → Prop) : Prop :=
  ∀ a b, Reads g input events a b →
    ∃ nodes, holds nodes ∧ Row input i j nodes ∧ b = a.attachAll nodes

theorem Yields.imp {holds holds' : Node → Prop} (yields : Yields g input events holds)
    (weaker : ∀ node, holds node → holds' node) : Yields g input events holds' := by
  intro a b reads
  obtain ⟨node, held, rfl⟩ := yields a b reads
  exact ⟨node, weaker node held, rfl⟩

theorem YieldsRow.nil {holds : List Node → Prop} (held : holds []) :
    YieldsRow g input [] i i holds := by
  intro a b reads
  obtain rfl := reads_nil.1 reads
  exact ⟨[], held, .nil i, rfl⟩

/-- A node on its own. -/
theorem Yields.row {holds : Node → Prop} {all : List Node → Prop}
    (yields : Yields g input events fun node => holds node ∧ node.Spans input i j)
    (combine : ∀ node, holds node → all [node]) : YieldsRow g input events i j all := by
  intro a b reads
  obtain ⟨node, ⟨held, spans⟩, rfl⟩ := yields a b reads
  exact ⟨[node], combine node held, .single spans, rfl⟩

theorem Yields.single {holds : Node → Prop}
    (yields : Yields g input events fun node => holds node ∧ node.Spans input i j) :
    YieldsRow g input events i j fun nodes => ∃ node, nodes = [node] ∧ holds node :=
  yields.row fun node held => ⟨node, rfl, held⟩

/-- One row behind the other. -/
theorem YieldsRow.append {holds others all : List Node → Prop}
    (first : YieldsRow g input events i m holds) (second : YieldsRow g input more m j others)
    (combine : ∀ nodes nodes', holds nodes → others nodes' → all (nodes ++ nodes')) :
    YieldsRow g input (events ++ more) i j all := by
  intro a b reads
  obtain ⟨middle, readsFirst, readsMore⟩ := reads_append.1 reads
  obtain ⟨nodes, held, row, rfl⟩ := first a middle readsFirst
  obtain ⟨nodes', heldMore, rowMore, rfl⟩ := second _ b readsMore
  exact ⟨nodes ++ nodes', combine _ _ held heldMore, row.append rowMore,
    (Assembly.attachAll_append a nodes nodes').symm⟩

/-- A node before a row. -/
theorem Yields.cons {holds : Node → Prop} {others all : List Node → Prop}
    (first : Yields g input events fun node => holds node ∧ node.Spans input i m)
    (second : YieldsRow g input more m j others)
    (combine : ∀ node nodes, holds node → others nodes → all (node :: nodes)) :
    YieldsRow g input (events ++ more) i j all := by
  refine first.single.append second ?_
  rintro _ nodes ⟨node, rfl, held⟩ heldOthers
  exact combine node nodes held heldOthers

/-! ### Closing a node -/

theorem Input.token?_eq (inside : i < input.size) :
    input.token? i = input.tokens[input.indexAt i]? := by
  have bound : i < input.significant.size := inside
  have found : input.significant[i]? = some input.significant[i] := Array.getElem?_eq_getElem bound
  simp only [Input.token?, Input.cursorAt, Cursor.current?, Cursor.peek?, Nat.add_zero,
    Input.indexAt, found, Option.getD_some]

theorem tokenAt_eq_ok {tokens : Array Token} {index : Nat} {token : Token} :
    Assembly.tokenAt tokens index = .ok token ↔ tokens[index]? = some token := by
  unfold Assembly.tokenAt
  cases tokens[index]? <;> simp

theorem range_eq_ok {token : Token} {range : TextRange} (found : token.range = .ok range) :
    range.start = token.offset ∧ range.stop = token.offset + token.text.utf8ByteSize := by
  unfold Token.range TextRange.sized at found
  split at found
  · obtain rfl := Except.ok.inj found
    exact ⟨rfl, rfl⟩
  · cases found

theorem between_eq_ok {start stop : Nat} {range : TextRange}
    (found : TextRange.between start stop = .ok range) :
    range.start = start ∧ range.stop = stop := by
  unfold TextRange.between at found
  split at found
  · obtain rfl := Except.ok.inj found
    exact ⟨rfl, rfl⟩
  · cases found

theorem between_eq_error {start stop : Nat} {fault : Fault}
    (failed : TextRange.between start stop = .error fault) : fault = .textRange := by
  unfold TextRange.between at failed
  split at failed
  · cases failed
  · exact (Except.error.inj failed).symm

/-- An open node that is closed covers the tokens that were taken in it. -/
theorem close_over {kind : NodeKind} {children : List Node} (further : i < j)
    (inside : j ≤ input.size) {node : Node}
    (closed : Assembly.close input.tokens kind
      ⟨id, input.indexAt i, input.spanOf i j, children.reverse⟩ = .ok node) :
    node.Over input id kind i j children := by
  unfold Assembly.close Input.spanOf at closed
  rw [if_pos further] at closed
  dsimp only at closed
  obtain ⟨first, first_eq, closed⟩ := bind_eq_ok.1 closed
  obtain ⟨firstRange, firstRange_eq, closed⟩ := bind_eq_ok.1 closed
  obtain ⟨last, last_eq, closed⟩ := bind_eq_ok.1 closed
  obtain ⟨lastRange, lastRange_eq, closed⟩ := bind_eq_ok.1 closed
  obtain ⟨range, range_eq, closed⟩ := bind_eq_ok.1 closed
  obtain rfl := pure_eq_ok.1 closed
  obtain ⟨range_start, range_stop⟩ := between_eq_ok range_eq
  rw [tokenAt_eq_ok, ← Input.token?_eq (Nat.lt_of_lt_of_le further inside)] at first_eq
  rw [Nat.add_sub_cancel, tokenAt_eq_ok, ← Input.token?_eq (by omega)] at last_eq
  exact {
    nonempty := further
    inside := inside
    first_eq := rfl
    stop_eq := rfl
    element_eq := rfl
    kind_eq := rfl
    children_eq := List.reverse_reverse children
    range_start := ⟨first, first_eq, range_start.trans (range_eq_ok firstRange_eq).1⟩
    range_stop := ⟨last, last_eq, range_stop.trans (range_eq_ok lastRange_eq).2⟩ }

/-- The end of a node closes it. -/
theorem finish_over {kind : Kind ElementId} {label : NodeKind} (stands : g.kind? id = some kind)
    (label_eq : kind.nodeKind? = some label) (further : i < j) (inside : j ≤ input.size)
    {children : List Node}
    (reads : Reads g input [.finish] (a.within input id i j children) b) :
    ∃ node, node.Over input id label i j children ∧ b = a.attach node := by
  obtain ⟨middle, finished, reads⟩ := reads_cons.1 reads
  obtain rfl := reads_nil.1 reads
  simp only [Assembly.step, Assembly.within] at finished
  obtain ⟨element, found, finished⟩ := bind_eq_ok.1 finished
  obtain rfl : element.kind = kind :=
    Option.some.inj ((kind?_of_element found).symm.trans stands)
  simp only [label_eq] at finished
  obtain ⟨node, closed, finished⟩ := bind_eq_ok.1 finished
  obtain rfl := pure_eq_ok.1 finished
  exact ⟨node, close_over further inside closed, rfl⟩

/-- The events of a node are read as that node, with what was read inside as its children. -/
theorem yields_node (ascending : input.Ascending) {kind : Kind ElementId} {label : NodeKind}
    (stands : g.kind? id = some kind) (label_eq : kind.nodeKind? = some label) (further : i < j)
    {holds : List Node → Prop} (inner : YieldsRow g input events i j holds) :
    Yields g input (input.node id i events) fun node =>
      ∃ children, holds children ∧ node.Over input id label i j children := by
  intro a b reads
  obtain ⟨opened, reads, finished⟩ := reads_append.1 reads
  obtain ⟨start, started, reads⟩ := reads_cons.1 reads
  obtain rfl : a.within input id i i [] = start := by
    rw [← pure_eq_ok.1 started]
    simp [Assembly.within, Input.spanOf]
  obtain ⟨children, held, row, rfl⟩ := inner _ opened reads
  rw [Assembly.within_attachAll ascending a id (Nat.le_refl i) row []] at finished
  obtain ⟨node, covers, rfl⟩ :=
    finish_over stands label_eq further (row.inside further) finished
  exact ⟨node, ⟨children, held, covers⟩, rfl⟩

/-- The events of a leaf are read as a node without children. -/
theorem yields_leaf {kind : Kind ElementId} {label : NodeKind} (stands : g.kind? id = some kind)
    (label_eq : kind.nodeKind? = some label) (inside : i < input.size) :
    Yields g input (input.leaf id i) fun node => node.Over input id label i (i + 1) [] := by
  intro a b reads
  obtain ⟨start, started, reads⟩ := reads_cons.1 reads
  obtain rfl := pure_eq_ok.1 started
  obtain ⟨taken, took, finished⟩ := reads_cons.1 reads
  obtain rfl : a.within input id i (i + 1) [] = taken := by
    rw [← pure_eq_ok.1 took]
    simp [Assembly.within, Assembly.take, Input.spanOf, Span.join?]
  exact finish_over stands label_eq (Nat.lt_succ_self i) inside finished

/-- A place that was kept for a node that never came is passed over. -/
theorem Yields.tombstone {holds : Node → Prop} (yields : Yields g input events holds) :
    Yields g input (.tombstone :: events) holds := by
  intro a b reads
  obtain ⟨same, passed, reads⟩ := reads_cons.1 reads
  obtain rfl := pure_eq_ok.1 passed
  exact yields a b reads

theorem YieldsRow.tombstone {holds : List Node → Prop}
    (yields : YieldsRow g input events i j holds) :
    YieldsRow g input (.tombstone :: events) i j holds := by
  intro a b reads
  obtain ⟨same, passed, reads⟩ := reads_cons.1 reads
  obtain rfl := pure_eq_ok.1 passed
  exact yields a b reads

/-! ### Constructs -/

theorem Repeats.snoc {item : ElementId} {count : Nat} {nodes : List Node} {node : Node}
    (repeats : Repeats g version input item count i m nodes)
    (last : Derives g version input item m j node) :
    Repeats g version input item (count + 1) i j (nodes ++ [node]) := by
  induction nodes generalizing i count with
  | nil =>
      cases repeats
      exact .more last (.done j)
  | cons first rest ih =>
      cases repeats with
      | more derives others => exact .more derives (ih others)

/-- Full matches below are read as derivations. -/
def Readable (g : Grammar) (version : Nat) (input : Input) (below : Nat → ElementId → Record) :
    Prop :=
  ∀ slot item i j events, below slot item true i j events →
    Yields g input events fun node => Derives g version input item i j node ∧ node.Spans input i j

section Constructs

variable {s : Setting} {below : Nat → ElementId → Record} {complete : Bool}
  (readable : Readable s.grammar s.options.version input below)

include readable

theorem filled_yields {slots : List (Slot ElementId)} {index : Nat}
    (filled : Filled s input below slots index complete i j events) (full : complete = true) :
    YieldsRow s.grammar input events i j (Fills s.grammar s.options.version input slots i j) := by
  induction filled with
  | done index i => exact .nil (.done i)
  | pass inactive others ih =>
      intro a b reads
      obtain ⟨nodes, fills, row, rfl⟩ := ih full a b reads
      exact ⟨nodes, .pass inactive fills, row, rfl⟩
  | leave active optional others ih =>
      intro a b reads
      obtain ⟨nodes, fills, row, rfl⟩ := ih full a b reads
      exact ⟨nodes, .leave optional fills, row, rfl⟩
  | fill active matched others ih =>
      exact (readable _ _ _ _ _ matched).cons (ih full)
        fun node nodes derives fills => .fill active derives fills
  | fillPart active matched => cases full
  | miss active required missing => cases full

theorem contained_yields {slot : Slot ElementId}
    (contained : Contained s input below slot complete i j events) (full : complete = true) :
    YieldsRow s.grammar input events i j
      (Encloses s.grammar s.options.version input slot i j) := by
  cases contained with
  | fill active matched =>
      subst full
      exact (readable _ _ _ _ _ matched).row fun node derives => .fill active derives
  | leave optional => exact .nil (.leave (Or.inl optional))
  | miss required missing => cases full

theorem opened_yields {opening : ElementId} {ranges : List TextRange}
    (opened : Opened input below opening ranges i j events) :
    YieldsRow s.grammar input events i j
      (Repeats s.grammar s.options.version input opening ranges.length i j) := by
  induction opened with
  | done i => exact .nil (.done i)
  | more others range_eq matched ih =>
      refine ih.append (readable _ _ _ _ _ matched).single ?_
      rintro nodes _ repeats ⟨node, rfl, derives⟩
      exact repeats.snoc derives

theorem shut_yields {closing : ElementId} {opened left : List TextRange}
    (shut : Shut below closing opened left i j events) (all : left = []) :
    YieldsRow s.grammar input events i j
      (Repeats s.grammar s.options.version input closing opened.length i j) := by
  induction shut with
  | done opened i =>
      subst all
      exact .nil (.done i)
  | more matched others ih =>
      exact (readable _ _ _ _ _ matched).cons (ih all)
        fun node nodes derives repeats => .more derives repeats

/-- A complete wrapper had complete content, and all that was opened has been closed. -/
theorem closed_yields {closing : ElementId} {opened : List TextRange} {held : Bool}
    (closed : Closed s input below closing opened held complete i j events)
    (full : complete = true) :
    held = true ∧ YieldsRow s.grammar input events i j
      (Repeats s.grammar s.options.version input closing opened.length i j) := by
  cases closed with
  | all shut => exact ⟨full, shut_yields readable shut rfl⟩
  | report shut missing => cases full
  | silent shut => cases full

/-- The content of a plain wrapper, which may be one that the version does not have. -/
theorem enclosed_yields {slot : Slot ElementId}
    (contained : slot.isActive s.options.version = true →
      Contained s input below slot true i j events)
    (passed : slot.isActive s.options.version = false → j = i ∧ events = []) :
    YieldsRow s.grammar input events i j
      (Encloses s.grammar s.options.version input slot i j) := by
  cases active : slot.isActive s.options.version with
  | true => exact contained_yields readable (contained active) rfl
  | false =>
      obtain ⟨rfl, rfl⟩ := passed active
      exact .nil (.leave (Or.inr active))

/-- One pair of delimiters with the content between them. -/
theorem wrapped_yields {opening closing : ElementId} {slot : Slot ElementId} {m n : Nat}
    {first middle last : List Event} (opened : below 0 opening true i m first)
    (encloses : YieldsRow s.grammar input middle m n
      (Encloses s.grammar s.options.version input slot m n))
    (closes : YieldsRow s.grammar input last n j
      (Repeats s.grammar s.options.version input closing 1 n j)) :
    YieldsRow s.grammar input (first ++ middle ++ last) i j fun nodes =>
      ∃ head rest tail, nodes = head :: rest ++ [tail] ∧
        Derives s.grammar s.options.version input opening i m head ∧
        Encloses s.grammar s.options.version input slot m n rest ∧
        Derives s.grammar s.options.version input closing n j tail := by
  have front : YieldsRow s.grammar input (first ++ middle) i n fun nodes =>
      ∃ head rest, nodes = head :: rest ∧
        Derives s.grammar s.options.version input opening i m head ∧
        Encloses s.grammar s.options.version input slot m n rest :=
    (readable _ _ _ _ _ opened).cons encloses
      fun head rest opens held => ⟨head, rest, rfl, opens, held⟩
  refine front.append closes ?_
  rintro _ _ ⟨head, rest, rfl, opens, held⟩ (_ | ⟨shuts, _ | _⟩)
  exact ⟨head, rest, _, rfl, opens, held, shuts⟩

/-- Any number of delimiters on both sides with the content between them. -/
theorem balanced_yields {opening closing : ElementId} {slot : Slot ElementId}
    {ranges : List TextRange} {m n : Nat} {first middle last : List Event}
    (opened : Opened input below opening ranges i m first)
    (contained : Contained s input below slot true m n middle)
    (closes : YieldsRow s.grammar input last n j
      (Repeats s.grammar s.options.version input closing ranges.length n j)) :
    YieldsRow s.grammar input (first ++ middle ++ last) i j fun nodes =>
      ∃ head rest tail, nodes = head ++ rest ++ tail ∧
        Repeats s.grammar s.options.version input opening ranges.length i m head ∧
        Encloses s.grammar s.options.version input slot m n rest ∧
        Repeats s.grammar s.options.version input closing ranges.length n j tail := by
  have front : YieldsRow s.grammar input (first ++ middle) i n fun nodes =>
      ∃ head rest, nodes = head ++ rest ∧
        Repeats s.grammar s.options.version input opening ranges.length i m head ∧
        Encloses s.grammar s.options.version input slot m n rest :=
    (opened_yields readable opened).append (contained_yields readable contained rfl)
      fun head rest opens held => ⟨head, rest, rfl, opens, held⟩
  refine front.append closes ?_
  rintro _ tail ⟨head, rest, rfl, opens, held⟩ shuts
  exact ⟨head, rest, tail, rfl, opens, held, shuts⟩

/-- What follows a complete item goes on with any list that ends in one. -/
theorem repeated_yields {item : ElementId} {separator : Option ElementId}
    (repeated : Repeated s input below item separator complete i j events)
    (full : complete = true) :
    YieldsRow s.grammar input events i j fun nodes => ∀ h node,
      Derives s.grammar s.options.version input item h i node →
        Lists s.grammar s.options.version input item separator h j (node :: nodes) := by
  induction repeated with
  | done i => exact .nil fun h node derives => .one derives
  | @more _ i m n j before events more separated matched others ih =>
      have items : YieldsRow s.grammar input (events ++ more) m j fun nodes =>
          Lists s.grammar s.options.version input item separator m j nodes :=
        (readable _ _ _ _ _ matched).cons (ih full)
          fun node nodes derives lists => lists m node derives
      cases separated with
      | none i =>
          intro a b reads
          obtain ⟨nodes, lists, row, rfl⟩ := items a b reads
          exact ⟨nodes, fun h node derives => .more derives lists, row, rfl⟩
      | some between =>
          rw [List.append_assoc]
          refine (readable _ _ _ _ _ between).cons items ?_
          intro comma nodes separates lists h node derives
          exact .separated derives separates lists
  | part separated matched => cases full
  | miss separator_eq matched missing => cases full

/-- What follows a part of a name goes on with any name that ends in one. -/
theorem joined_yields {separator : ElementId} {report : Bool} {parts : List ElementId}
    {index : Nat} (joined : Joined s input below separator report parts index complete i j events)
    (full : complete = true) :
    YieldsRow s.grammar input events i j fun nodes => ∀ h part node,
      Derives s.grammar s.options.version input part h i node →
        Names s.grammar s.options.version input separator (part :: parts) h j (node :: nodes) := by
  induction joined with
  | done index i => exact .nil fun h part node derives => .one derives
  | @more next rest index _ i j before events more separated matched others ih =>
      have names : YieldsRow s.grammar input (events ++ more) (i + 1) j fun nodes =>
          Names s.grammar s.options.version input separator (next :: rest) (i + 1) j nodes :=
        (readable _ _ _ _ _ matched).cons (ih full)
          fun node nodes derives names => names (i + 1) next node derives
      rw [List.append_assoc]
      refine (readable _ _ _ _ _ separated).cons names ?_
      intro dot nodes separates names h part node derives
      exact .more derives separates names
  | missSeparator reported => cases full
  | missPart separated reported => cases full

theorem named_yields {separator : ElementId} {report : Bool} {variant : List ElementId}
    (named : Named s input below separator report variant complete i j events)
    (full : complete = true) :
    YieldsRow s.grammar input events i j
      (Names s.grammar s.options.version input separator variant i j) := by
  cases named with
  | intro matched others =>
      exact (readable _ _ _ _ _ matched).cons (joined_yields readable others full)
        fun node nodes derives names => names _ _ node derives

/-- A full match of an element is read as a derivation, if full matches below are. -/
theorem leaves_yields (ascending : input.Ascending) (unmarked : input.placeholder = none)
    {kind : Kind ElementId} (stands : s.grammar.kind? id = some kind) (further : i < j)
    (leaves : kind.Leaves s input below id complete i j events) (full : complete = true) :
    Yields s.grammar input events fun node =>
      Derives s.grammar s.options.version input id i j node ∧ node.Spans input i j := by
  -- Without a placeholder no token is accepted in place of another one.
  have ordinary : ∀ position, ¬ (input.cursorAt position).atPlaceholder = true := by
    intro position
    simp [Cursor.atPlaceholder, Input.cursorAt, unmarked]
  cases leaves with
  | token current_eq accepted =>
      obtain ⟨type_eq, text_eq⟩ := accepted.resolve_left (ordinary _)
      refine (yields_leaf stands rfl (token?_lt_size current_eq)).imp fun node covers => ?_
      refine ⟨.token stands current_eq type_eq (fun word given => ?_) covers, covers.toSpans⟩
      obtain rfl := Option.mem_def.1 given
      exact text_eq
  | identifier current_eq accepted =>
      obtain ⟨type, type_eq, named⟩ := accepted.resolve_left (ordinary _)
      refine (yields_leaf stands rfl (token?_lt_size current_eq)).imp fun node covers => ?_
      exact ⟨.identifier stands current_eq (Vocabulary.get_eq_ok.1 type_eq) named covers,
        covers.toSpans⟩
  | sequence filled =>
      refine (yields_node ascending stands rfl further (filled_yields readable filled full)).imp ?_
      rintro node ⟨children, fills, covers⟩
      exact ⟨.sequence stands fills covers, covers.toSpans⟩
  | wrapper range_eq opened contained passed closed =>
      obtain ⟨rfl, closes⟩ := closed_yields readable closed full
      have encloses := enclosed_yields readable contained fun inactive => (passed inactive).2
      refine (yields_node ascending stands rfl further
        (wrapped_yields readable opened encloses closes)).imp ?_
      rintro node ⟨_, ⟨head, rest, last, rfl, opens, held, shuts⟩, covers⟩
      exact ⟨.wrapper stands opens held shuts covers, covers.toSpans⟩
  | balanced opened nonempty contained closed =>
      obtain ⟨rfl, closes⟩ := closed_yields readable closed full
      refine (yields_node ascending stands rfl further
        (balanced_yields readable opened contained closes)).imp ?_
      rintro node ⟨_, ⟨head, rest, last, rfl, opens, held, shuts⟩, covers⟩
      exact ⟨.balanced stands (List.length_pos_iff.2 nonempty) opens held shuts covers,
        covers.toSpans⟩
  | bare active matched =>
      subst full
      refine (readable _ _ _ _ _ matched).tombstone.imp fun node derived => ?_
      exact ⟨.bare stands active derived.1, derived.2⟩
  | oneOf tried active admitted matched =>
      subst full
      refine (readable _ _ _ _ _ matched).tombstone.imp fun node derived => ?_
      exact ⟨.oneOf stands (Kind.mem_tried.1 (List.mem_of_getElem? tried)) active derived.1,
        derived.2⟩
  | iteration matched repeated =>
      refine (yields_node ascending stands rfl further
        ((readable _ _ _ _ _ matched).cons (repeated_yields readable repeated full)
          fun node nodes derives lists => lists _ node derives)).imp ?_
      rintro node ⟨children, lists, covers⟩
      exact ⟨.iteration stands lists covers, covers.toSpans⟩
  | iterationPart matched => cases full
  | qualified member named =>
      refine (yields_node ascending stands rfl further
        (named_yields readable named rfl).tombstone).imp ?_
      rintro node ⟨children, names, covers⟩
      exact ⟨.qualified stands member names covers, covers.toSpans⟩
  | qualifiedPart member named =>
      refine (yields_node ascending stands rfl further (named_yields readable named full)).imp ?_
      rintro node ⟨children, names, covers⟩
      exact ⟨.qualified stands member names covers, covers.toSpans⟩
  | reference matched =>
      subst full
      exact (readable _ _ _ _ _ matched).imp fun node derived =>
        ⟨.reference stands derived.1, derived.2⟩

end Constructs

/-- **A full match is read as a derivation**, at any level. -/
theorem recorded_readable {s : Setting} (ascending : input.Ascending)
    (unmarked : input.placeholder = none) (levels : Nat) {outer : Path}
    (recorded : Recorded s input levels id outer true i j events) :
    Yields s.grammar input events fun node =>
      Derives s.grammar s.options.version input id i j node ∧ node.Spans input i j := by
  induction levels generalizing id outer i j events with
  | zero => exact recorded.elim
  | succ levels ih =>
      obtain ⟨further, kind, stands, leaves⟩ := recorded
      exact leaves_yields (fun slot item i j events matched => ih matched) ascending unmarked stands
        further leaves rfl

end Dialect
