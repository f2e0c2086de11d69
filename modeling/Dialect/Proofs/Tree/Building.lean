import Dialect.Proofs.Tree.Tiling

/-!
# Reading nodes and diagnostics

A stretch of a record is read as nodes and as diagnostics, whatever was read before; only
tokens that are out of order stand in the way (`Builds`).  There is one rule for each way in
which a record is put together: `builds_nil`, `builds_diagnostic`, `Builds.append`,
`Builds.tombstone`, `builds_node` and `builds_leaf`.
-/

set_option autoImplicit false

namespace Dialect

namespace Assembly

/-- The assembly after diagnostics have been met. -/
def noting (a : Assembly) (found : List Diagnostic) : Assembly :=
  { a with diagnostics := found.reverse ++ a.diagnostics }

theorem noting_append (a : Assembly) (found more : List Diagnostic) :
    a.noting (found ++ more) = (a.noting found).noting more := by
  simp [noting]

theorem attach_noting (a : Assembly) (found : List Diagnostic) (node : Node) :
    (a.noting found).attach node = (a.attach node).noting found := by
  unfold attach noting
  cases a.stack <;> rfl

/-- It makes no difference whether nodes are closed before diagnostics are met or after. -/
theorem attachAll_noting (a : Assembly) (found : List Diagnostic) (nodes : List Node) :
    (a.noting found).attachAll nodes = (a.attachAll nodes).noting found := by
  induction nodes generalizing a with
  | nil => rfl
  | cons node rest ih =>
      have later := ih (a.attach node)
      rw [← attach_noting] at later
      exact later

end Assembly

section Reading

variable {g : Grammar} {input : Input} {i j m : Nat} {id : ElementId} {a b c : Assembly}
  {events more : List Event} {holds others all : List Node → List Diagnostic → Prop}

theorem reads_single {event : Event} :
    Reads g input [event] a b ↔ Assembly.step g input.tokens a event = .ok b := by
  rw [reads_cons]
  refine ⟨?_, fun step => ⟨b, step, reads_nil.2 rfl⟩⟩
  rintro ⟨middle, step, reads⟩
  obtain rfl := reads_nil.1 reads
  exact step

/-- The events cannot be read for a range that is none, because tokens are out of order. -/
def Stuck (g : Grammar) (input : Input) (events : List Event) (a : Assembly) : Prop :=
  events.foldlM (Assembly.step g input.tokens) a = .error .textRange ∧
    ¬ Token.InOrder input.tokens

theorem Stuck.before (stuck : Stuck g input events a) (more : List Event) :
    Stuck g input (events ++ more) a := by
  refine ⟨?_, stuck.2⟩
  rw [List.foldlM_append, stuck.1]
  rfl

theorem Stuck.behind (reads : Reads g input events a b) (stuck : Stuck g input more b) :
    Stuck g input (events ++ more) a := by
  refine ⟨?_, stuck.2⟩
  unfold Reads at reads
  rw [List.foldlM_append, reads]
  exact stuck.1

/-- Whatever was read before, the events are read as nodes and diagnostics with a property,
unless tokens are out of order. -/
def Builds (g : Grammar) (input : Input) (events : List Event)
    (holds : List Node → List Diagnostic → Prop) : Prop :=
  ∀ a, (∃ nodes found, holds nodes found ∧
    Reads g input events a ((a.attachAll nodes).noting found)) ∨ Stuck g input events a

theorem Builds.imp (builds : Builds g input events holds)
    (weaker : ∀ nodes found, holds nodes found → all nodes found) :
    Builds g input events all := by
  intro a
  rcases builds a with ⟨nodes, found, held, reads⟩ | stuck
  · exact Or.inl ⟨nodes, found, weaker _ _ held, reads⟩
  · exact Or.inr stuck

theorem builds_nil (held : holds [] []) : Builds g input [] holds :=
  fun _ => Or.inl ⟨[], [], held, reads_nil.2 rfl⟩

theorem builds_diagnostic {found : Diagnostic} (held : holds [] [found]) :
    Builds g input [.diagnostic found] holds :=
  fun _ => Or.inl ⟨[], [found], held, reads_single.2 rfl⟩

theorem Builds.append (first : Builds g input events holds) (second : Builds g input more others)
    (combine : ∀ nodes nodes' found found', holds nodes found → others nodes' found' →
      all (nodes ++ nodes') (found ++ found')) : Builds g input (events ++ more) all := by
  intro a
  rcases first a with ⟨nodes, found, held, reads⟩ | stuck
  · rcases second ((a.attachAll nodes).noting found) with ⟨nodes', found', heldMore, readsMore⟩ | stuck
    · refine Or.inl ⟨_, _, combine _ _ _ _ held heldMore, reads_append.2 ⟨_, reads, ?_⟩⟩
      rw [Assembly.attachAll_noting, ← Assembly.noting_append, ← Assembly.attachAll_append] at readsMore
      exact readsMore
    · exact Or.inr (.behind reads stuck)
  · exact Or.inr (stuck.before more)

/-- A place that was kept for a node that never came is passed over. -/
theorem Builds.tombstone (builds : Builds g input events holds) :
    Builds g input (.tombstone :: events) holds := by
  have passed : Builds g input [.tombstone] fun nodes found => nodes = [] ∧ found = [] :=
    fun a => Or.inl ⟨[], [], ⟨rfl, rfl⟩, reads_single.2 rfl⟩
  refine passed.append builds ?_
  rintro _ nodes _ found ⟨rfl, rfl⟩ held
  exact held

/-! ### Nodes -/

/-- A node can be closed when the tokens are in order. -/
theorem exists_close (ascending : input.Ascending) (listed : input.Listed)
    (ordered : Token.InOrder input.tokens) (id : ElementId) (kind : NodeKind)
    (children : List Node) (further : i < j) (inside : j ≤ input.size) :
    ∃ node, Assembly.close input.tokens kind
      ⟨id, input.indexAt i, input.spanOf i j, children⟩ = .ok node := by
  obtain ⟨first, first_eq⟩ := listed.exists_token (Nat.lt_of_lt_of_le further inside)
  obtain ⟨last, last_eq⟩ := listed.exists_token (i := j - 1) (by omega)
  have fits : ∀ {i token}, input.token? i = some token →
      ∃ range, token.range = .ok range ∧ range.start = token.offset ∧
        range.stop = token.offset + token.text.utf8ByteSize := by
    intro i token found
    have fit := ordered.fits token (mem_of_token? found)
    exact ⟨_, dif_pos fit, rfl, rfl⟩
  obtain ⟨firstRange, firstRange_eq, start_eq, firstStop⟩ := fits first_eq
  obtain ⟨lastRange, lastRange_eq, lastStart, stop_eq⟩ := fits last_eq
  have straight : firstRange.start ≤ lastRange.stop := by
    rcases Nat.lt_or_eq_of_le (Nat.le_sub_one_of_lt further) with earlier | same
    · have := ordered.stop_le ascending earlier first_eq last_eq
      omega
    · rw [same, last_eq] at first_eq
      obtain rfl := Option.some.inj first_eq
      omega
  rw [Input.token?_eq (by omega), ← tokenAt_eq_ok] at first_eq last_eq
  refine ⟨⟨id, kind, ⟨_, _, straight⟩, input.indexAt i, input.indexAt (j - 1) + 1, children.reverse⟩, ?_⟩
  simp only [Assembly.close, Input.spanOf, if_pos further, first_eq, firstRange_eq,
    Nat.add_sub_cancel, last_eq, lastRange_eq, bind, Except.bind, TextRange.between,
    dif_pos straight, pure, Except.pure]

/-- Only a range that is none can keep a node that takes tokens from being closed. -/
theorem raises_close (listed : input.Listed) (id : ElementId) (kind : NodeKind)
    (children : List Node) (further : i < j) (inside : j ≤ input.size) :
    Raises (· = .textRange) (Assembly.close input.tokens kind
      ⟨id, input.indexAt i, input.spanOf i j, children⟩) := by
  have found : ∀ k < input.size, ∃ token,
      Assembly.tokenAt input.tokens (input.indexAt k) = .ok token := by
    intro k bound
    obtain ⟨token, found⟩ := listed.exists_token bound
    exact ⟨token, tokenAt_eq_ok.2 ((Input.token?_eq bound).symm.trans found)⟩
  obtain ⟨first, first_eq⟩ := found i (Nat.lt_of_lt_of_le further inside)
  obtain ⟨last, last_eq⟩ := found (j - 1) (by omega)
  simp only [Assembly.close, Input.spanOf, if_pos further, Nat.add_sub_cancel, first_eq, last_eq]
  have ranges : ∀ token : Token, Raises (· = .textRange) token.range :=
    fun _ _ raised => (range_eq_error raised).1
  refine raises_bind (raises_ok _) fun _ _ => raises_bind (ranges _) fun _ _ => ?_
  refine raises_bind (raises_ok _) fun _ _ => raises_bind (ranges _) fun _ _ => ?_
  exact raises_bind (fun _ raised => between_eq_error raised) fun _ _ => raises_ok _

/-- The end of a node is read as that node, unless tokens are out of order. -/
theorem reads_finish (ascending : input.Ascending) (listed : input.Listed) {kind : Kind ElementId}
    {label : NodeKind} (stands : g.kind? id = some kind) (label_eq : kind.nodeKind? = some label)
    (further : i < j) (inside : j ≤ input.size) (a : Assembly) (children : List Node) :
    (∃ node, node.Over input id label i j children ∧
      Reads g input [.finish] (a.within input id i j children) (a.attach node)) ∨
    Stuck g input [.finish] (a.within input id i j children) := by
  obtain ⟨element, found, rfl⟩ := Grammar.kind?_eq_some.1 stands
  have stepped : Assembly.step g input.tokens (a.within input id i j children) .finish =
      (Assembly.close input.tokens label
        ⟨id, input.indexAt i, input.spanOf i j, children.reverse⟩).map a.attach := by
    simp only [Assembly.step, Assembly.within, Grammar.element, found, bind, Except.bind, label_eq]
    cases Assembly.close .. <;> rfl
  cases closed : Assembly.close input.tokens label
      ⟨id, input.indexAt i, input.spanOf i j, children.reverse⟩ with
  | ok node =>
      rw [closed] at stepped
      exact Or.inl ⟨node, close_over further inside closed, reads_single.2 stepped⟩
  | error fault =>
      rw [closed] at stepped
      obtain rfl := raises_close listed id label children.reverse further inside fault closed
      refine Or.inr ⟨?_, fun ordered => ?_⟩
      · rw [List.foldlM_cons, stepped]
        rfl
      · obtain ⟨node, done⟩ :=
          exists_close ascending listed ordered id label children.reverse further inside
        rw [closed] at done
        cases done

/-- The events of a node are read as that node, with what was read inside as its children. -/
theorem builds_node (ascending : input.Ascending) (listed : input.Listed) {kind : Kind ElementId}
    {label : NodeKind} (stands : g.kind? id = some kind) (label_eq : kind.nodeKind? = some label)
    (further : i < j) (inner : Builds g input events holds)
    (row : ∀ nodes found, holds nodes found → Row input i j nodes)
    (combine : ∀ node children found, node.Over input id label i j children →
      holds children found → all [node] found) : Builds g input (input.node id i events) all := by
  intro a
  have opened : Reads g input [.start id (input.indexAt i)] a (a.within input id i i []) := by
    rw [reads_single]
    simp [Assembly.step, Assembly.within, Input.spanOf, pure, Except.pure]
  rcases inner (a.within input id i i []) with ⟨children, found, held, reads⟩ | stuck
  · have spread := row _ _ held
    rw [Assembly.within_attachAll ascending a id (Nat.le_refl i) spread [], List.nil_append] at reads
    have under := reads_append.2 ⟨_, opened, reads⟩
    rcases reads_finish ascending listed stands label_eq further (spread.inside further)
      (a.noting found) children with ⟨node, covers, finished⟩ | stuck
    · rw [Assembly.attach_noting] at finished
      exact Or.inl ⟨[node], found, combine _ _ _ covers held, reads_append.2 ⟨_, under, finished⟩⟩
    · exact Or.inr (.behind under stuck)
  · exact Or.inr (.before (.behind opened stuck) _)

/-- The events of a leaf are read as a node without children. -/
theorem builds_leaf (ascending : input.Ascending) (listed : input.Listed) {kind : Kind ElementId}
    {label : NodeKind} (stands : g.kind? id = some kind) (label_eq : kind.nodeKind? = some label)
    (inside : i < input.size)
    (combine : ∀ node, node.Over input id label i (i + 1) [] → all [node] []) :
    Builds g input (input.leaf id i) all := by
  intro a
  have taken : Reads g input [.start id (input.indexAt i), .token (input.indexAt i)] a
      (a.within input id i (i + 1) []) := by
    refine reads_cons.2 ⟨_, rfl, reads_single.2 ?_⟩
    simp [Assembly.step, Assembly.within, Assembly.take, Input.spanOf, Span.join?, pure, Except.pure]
  rcases reads_finish ascending listed stands label_eq (Nat.lt_succ_self i) inside a [] with
    ⟨node, covers, finished⟩ | stuck
  · exact Or.inl ⟨[node], [], combine node covers, reads_append.2 ⟨_, taken, finished⟩⟩
  · exact Or.inr (.behind taken stuck)

end Reading

end Dialect
