import Dialect.Proofs.Renaming.Parse

/-!
# Trees over other indices

The record of a parse mentions tokens by their index in the input.  When the same tokens stand
elsewhere in another input, in the same order (`Reindexing`), the record with the indices changed
is read as the tree with the indices changed (`ofEvents?_reindex`).  What counts is only where
the indices go that the record mentions.
-/

set_option autoImplicit false

namespace Dialect

/-! ### Indices changed -/

/-- The span with the indices of its first and its last token changed. -/
def Span.reindex (index : Nat → Nat) (span : Span) : Span :=
  ⟨index span.first, index (span.stop - 1) + 1⟩

/-- Where a node ends after the change, given where it began and ended before.  A node without
tokens ends where it begins. -/
def stopAfter (index : Nat → Nat) (first stop : Nat) : Nat :=
  if first < stop then index (stop - 1) + 1 else index first

mutual

/-- The tree with the indices of all tokens changed. -/
def Node.reindex (index : Nat → Nat) : Node → Node
  | ⟨element, kind, range, first, stop, children⟩ =>
      ⟨element, kind, range, index first, stopAfter index first stop,
        Node.reindexAll index children⟩

/-- The forest with the indices of all tokens changed. -/
def Node.reindexAll (index : Nat → Nat) : List Node → List Node
  | [] => []
  | node :: rest => Node.reindex index node :: Node.reindexAll index rest

end

/-- The parse with the indices of all tokens in its tree changed. -/
def Parse.reindex (index : Nat → Nat) (parse : Parse) : Parse :=
  { parse with root := parse.root.reindex index }

/-- The open node with the indices of all tokens changed. -/
def OpenNode.reindex (index : Nat → Nat) (top : OpenNode) : OpenNode :=
  ⟨top.element, index top.first, top.span.map (Span.reindex index),
    top.children.map (Node.reindex index)⟩

/-- The assembly with the indices of all tokens changed. -/
def Assembly.reindex (index : Nat → Nat) (a : Assembly) : Assembly :=
  { a with stack := a.stack.map (OpenNode.reindex index), roots := a.roots.map (Node.reindex index) }

theorem Node.reindexAll_eq_map (index : Nat → Nat) (nodes : List Node) :
    Node.reindexAll index nodes = nodes.map (Node.reindex index) := by
  induction nodes with
  | nil => rw [Node.reindexAll, List.map_nil]
  | cons node rest ih => rw [Node.reindexAll, List.map_cons, ih]

/-! ### What a record mentions -/

section Listed

variable (listed : Nat → Prop)

/-- The event mentions no other indices than those listed. -/
def Event.Mentions : Event → Prop
  | .start _ first => listed first
  | .token index => listed index
  | _ => True

/-- The span is not empty and begins and ends with tokens that are listed. -/
structure Span.Listed (span : Span) : Prop where
  first : listed span.first
  nonempty : span.first < span.stop
  last : listed (span.stop - 1)

/-- The open node was opened before a token that is listed, and covers what is listed. -/
structure OpenNode.Listed (top : OpenNode) : Prop where
  first : listed top.first
  span : ∀ span, top.span = some span → span.Listed listed

/-- All open nodes are listed. -/
def Assembly.Listed (a : Assembly) : Prop := ∀ top ∈ a.stack, top.Listed listed

end Listed

/-- What is listed in one input stands in the other as well, in the same order, and both end
alike. -/
structure Reindexing (listed : Nat → Prop) (index : Nat → Nat) (tokens tokens' : Array Token) :
    Prop where
  token_eq : ∀ i, listed i → tokens'[index i]? = tokens[i]?
  last_eq : tokens'.back? = tokens.back?
  mono : ∀ i k, listed i → listed k → i ≤ k → index i ≤ index k

section Reading

variable {listed : Nat → Prop} {index : Nat → Nat} {g : Grammar} {tokens tokens' : Array Token}

/-- A span joined with another covers what is listed if both do. -/
theorem Span.Listed.join {known : Option Span} {span : Span}
    (knownListed : ∀ old, known = some old → old.Listed listed) (spanListed : span.Listed listed) :
    (Span.join? known span).Listed listed := by
  cases known with
  | none => exact spanListed
  | some old =>
      have oldListed := knownListed old rfl
      have nonempty := spanListed.nonempty
      have nonempty' := oldListed.nonempty
      refine ⟨?_, by simp only [Span.join?]; omega, ?_⟩
      · simp only [Span.join?]
        rcases Nat.le_total old.first span.first with before | before
        · rw [Nat.min_eq_left before]; exact oldListed.first
        · rw [Nat.min_eq_right before]; exact spanListed.first
      · simp only [Span.join?]
        rcases Nat.le_total old.stop span.stop with before | before
        · rw [Nat.max_eq_right before]; exact spanListed.last
        · rw [Nat.max_eq_left before]; exact oldListed.last

namespace Assembly

theorem take_listed {a : Assembly} (listing : a.Listed listed) {span : Span}
    (spanListed : span.Listed listed) : (a.take span).Listed listed := by
  obtain ⟨_ | ⟨top, outer⟩, roots, diagnostics⟩ := a
  · exact listing
  · intro other member
    rcases List.mem_cons.1 member with rfl | later
    · refine ⟨(listing top List.mem_cons_self).first, ?_⟩
      rintro _ ⟨⟩
      exact .join (listing top List.mem_cons_self).span spanListed
    · exact listing other (List.mem_cons_of_mem _ later)

theorem attach_listed {a : Assembly} (listing : a.Listed listed) {node : Node}
    (nodeListed : node.first < node.stop → Span.Listed listed ⟨node.first, node.stop⟩) :
    (a.attach node).Listed listed := by
  obtain ⟨_ | ⟨top, outer⟩, roots, diagnostics⟩ := a
  · exact listing
  · intro other member
    rcases List.mem_cons.1 member with rfl | later
    · refine ⟨(listing top List.mem_cons_self).first, fun span covered => ?_⟩
      dsimp only at covered
      split at covered
      case isTrue wide =>
        cases covered
        exact .join (listing top List.mem_cons_self).span (nodeListed wide)
      case isFalse => exact (listing top List.mem_cons_self).span span covered
    · exact listing other (List.mem_cons_of_mem _ later)

/-- What is closed covers what is listed, if it covers anything. -/
theorem close_listed {kind : NodeKind} {top : OpenNode} (topListed : top.Listed listed)
    {node : Node} (closed : close tokens kind top = .ok node) (wide : node.first < node.stop) :
    Span.Listed listed ⟨node.first, node.stop⟩ := by
  unfold close at closed
  obtain ⟨element, first, _ | span, children⟩ := top
  · obtain ⟨offset, -, closed⟩ := bind_eq_ok.1 closed
    obtain rfl := pure_eq_ok.1 closed
    exact absurd wide (Nat.lt_irrefl _)
  · obtain ⟨token, -, closed⟩ := bind_eq_ok.1 closed
    obtain ⟨range, -, closed⟩ := bind_eq_ok.1 closed
    obtain ⟨last, -, closed⟩ := bind_eq_ok.1 closed
    obtain ⟨range', -, closed⟩ := bind_eq_ok.1 closed
    obtain ⟨whole, -, closed⟩ := bind_eq_ok.1 closed
    obtain rfl := pure_eq_ok.1 closed
    exact topListed.span span rfl

/-- Reading an event keeps everything listed. -/
theorem step_listed {a after : Assembly} (listing : a.Listed listed) {event : Event}
    (mentions : event.Mentions listed) (read : step g tokens a event = .ok after) :
    after.Listed listed := by
  cases event with
  | tombstone => obtain rfl := pure_eq_ok.1 read; exact listing
  | start element first =>
      obtain rfl := pure_eq_ok.1 read
      intro top member
      rcases List.mem_cons.1 member with rfl | later
      · exact ⟨mentions, nofun⟩
      · exact listing top later
  | token place =>
      obtain rfl := pure_eq_ok.1 read
      exact take_listed listing ⟨mentions, Nat.lt_succ_self place, mentions⟩
  | diagnostic found => obtain rfl := pure_eq_ok.1 read; exact listing
  -- What is closed is attached to what is open around it, if it makes a node.
  | finish =>
      obtain ⟨_ | ⟨top, outer⟩, roots, diagnostics⟩ := a
      · obtain rfl := pure_eq_ok.1 read
        exact listing
      · have outerListed : Assembly.Listed listed ⟨outer, roots, diagnostics⟩ :=
          fun other member => listing other (List.mem_cons_of_mem _ member)
        obtain ⟨element, -, read⟩ := bind_eq_ok.1 read
        cases kind : element.kind.nodeKind? with
        | none =>
            simp only [kind] at read
            obtain rfl := pure_eq_ok.1 read
            exact outerListed
        | some kind' =>
            simp only [kind] at read
            obtain ⟨node, closed, read⟩ := bind_eq_ok.1 read
            obtain rfl := pure_eq_ok.1 read
            exact attach_listed outerListed
              (close_listed (listing top List.mem_cons_self) closed)

end Assembly

variable (reindexing : Reindexing listed index tokens tokens')

include reindexing

theorem Reindexing.join_eq {known : Option Span} {span : Span}
    (knownListed : ∀ old, known = some old → old.Listed listed) (spanListed : span.Listed listed) :
    Span.join? (known.map (Span.reindex index)) (span.reindex index) =
      (Span.join? known span).reindex index := by
  cases known with
  | none => rfl
  | some old =>
      have oldListed := knownListed old rfl
      have nonempty := spanListed.nonempty
      have nonempty' := oldListed.nonempty
      have mono := reindexing.mono
      simp only [Span.join?, Span.reindex, Option.map_some, Span.mk.injEq]
      constructor
      · rcases Nat.le_total old.first span.first with before | before
        · rw [Nat.min_eq_left before,
            Nat.min_eq_left (mono _ _ oldListed.first spanListed.first before)]
        · rw [Nat.min_eq_right before,
            Nat.min_eq_right (mono _ _ spanListed.first oldListed.first before)]
      · rcases Nat.le_total old.stop span.stop with before | before
        · have := mono _ _ oldListed.last spanListed.last (by omega)
          rw [Nat.max_eq_right before, Nat.max_eq_right (by omega)]
        · have := mono _ _ spanListed.last oldListed.last (by omega)
          rw [Nat.max_eq_left before, Nat.max_eq_left (by omega)]

namespace Assembly

theorem take_reindex {a : Assembly} (listing : a.Listed listed) {span : Span}
    (spanListed : span.Listed listed) :
    (a.reindex index).take (span.reindex index) = (a.take span).reindex index := by
  obtain ⟨_ | ⟨top, outer⟩, roots, diagnostics⟩ := a
  · rfl
  · simp only [take, reindex, List.map_cons, OpenNode.reindex, Option.map_some,
      reindexing.join_eq (listing top List.mem_cons_self).span spanListed]

theorem attach_reindex {a : Assembly} (listing : a.Listed listed) {node : Node}
    (nodeListed : node.first < node.stop → Span.Listed listed ⟨node.first, node.stop⟩) :
    (a.reindex index).attach (node.reindex index) = (a.attach node).reindex index := by
  obtain ⟨element, kind, range, first, stop, children⟩ := node
  obtain ⟨_ | ⟨top, outer⟩, roots, diagnostics⟩ := a
  · rw [Node.reindex]
    simp only [attach, reindex, List.map_nil, List.map_cons, Node.reindex]
  · rw [Node.reindex]
    by_cases wide : first < stop
    · have spanListed : Span.Listed listed ⟨first, stop⟩ := nodeListed wide
      have later := reindexing.mono _ _ spanListed.first spanListed.last
        (Nat.le_sub_one_of_lt wide)
      have wide' : index first < index (stop - 1) + 1 := Nat.lt_succ_of_le later
      have stop_eq : stopAfter index first stop = index (stop - 1) + 1 := if_pos wide
      have joined : Span.join? (top.span.map (Span.reindex index))
          ⟨index first, index (stop - 1) + 1⟩ =
            (Span.join? top.span ⟨first, stop⟩).reindex index :=
        reindexing.join_eq (listing top List.mem_cons_self).span spanListed
      simp only [attach, reindex, List.map_cons, OpenNode.reindex, if_pos wide, Option.map_some,
        Node.reindex, stop_eq, if_pos wide', joined]
    · have narrow : ¬ index first < stopAfter index first stop := by
        rw [stopAfter, if_neg wide]
        exact Nat.lt_irrefl _
      simp only [attach, reindex, List.map_cons, OpenNode.reindex, if_neg wide, if_neg narrow,
        Node.reindex]

theorem tokenAt_reindex {i : Nat} (here : listed i) :
    tokenAt tokens' (index i) = tokenAt tokens i := by
  unfold tokenAt
  rw [reindexing.token_eq i here]

theorem emptyOffset_reindex {first : Nat} (here : listed first) :
    emptyOffset tokens' (index first) = emptyOffset tokens first := by
  unfold emptyOffset
  rw [reindexing.token_eq first here, reindexing.last_eq]

theorem close_reindex (kind : NodeKind) {top : OpenNode} (topListed : top.Listed listed) :
    close tokens' kind (top.reindex index) = (close tokens kind top).map (Node.reindex index) := by
  have children : (top.reindex index).children.reverse =
      Node.reindexAll index top.children.reverse := by
    rw [Node.reindexAll_eq_map, List.map_reverse]
    rfl
  unfold close
  rw [children]
  obtain ⟨element, first, _ | span, below⟩ := top
  · simp only [OpenNode.reindex, Option.map_none, emptyOffset_reindex reindexing topListed.first,
      map_bind_eq, map_pure_eq, Node.reindex, stopAfter, Nat.lt_irrefl, if_false]
  · have spanListed := topListed.span span rfl
    have stop_eq : stopAfter index span.first span.stop = index (span.stop - 1) + 1 :=
      if_pos spanListed.nonempty
    simp only [OpenNode.reindex, Option.map_some, Span.reindex, Nat.add_sub_cancel,
      tokenAt_reindex reindexing spanListed.first, tokenAt_reindex reindexing spanListed.last,
      map_bind_eq, map_pure_eq, Node.reindex, stop_eq]

/-- An event with its indices changed is read as the event is. -/
theorem step_reindex {a : Assembly} (listing : a.Listed listed) {event : Event}
    (mentions : event.Mentions listed) :
    step g tokens' (a.reindex index) (event.rename id index) =
      (step g tokens a event).map (Assembly.reindex index) := by
  cases event with
  | tombstone => rfl
  | start element first => rfl
  | token place =>
      refine congrArg Except.ok (Eq.trans ?_ (take_reindex reindexing listing
        ⟨mentions, Nat.lt_succ_self place, mentions⟩))
      rw [Span.reindex, Nat.add_sub_cancel]
  | diagnostic found => rfl
  | finish =>
      obtain ⟨_ | ⟨top, outer⟩, roots, diagnostics⟩ := a
      · rfl
      · have topListed := listing top List.mem_cons_self
        have outerListed : Assembly.Listed listed ⟨outer, roots, diagnostics⟩ :=
          fun other member => listing other (List.mem_cons_of_mem _ member)
        simp only [Event.rename, step, reindex, List.map_cons]
        change (g.element top.element >>= _) = _
        cases g.element top.element with
        | error fault => rfl
        | ok element =>
            simp only [bind, Except.bind]
            cases element.kind.nodeKind? with
            | none => rfl
            | some kind =>
                simp only [close_reindex reindexing kind topListed]
                -- A node without tokens does not widen what it is attached to, whatever its place.
                cases closed : close tokens kind top with
                | error fault => rfl
                | ok node =>
                    exact congrArg Except.ok (attach_reindex reindexing outerListed
                      (close_listed topListed closed))

theorem steps_reindex {events : List Event}
    (mentions : ∀ event ∈ events, event.Mentions listed) {a : Assembly}
    (listing : a.Listed listed) :
    (events.map (Event.rename id index)).foldlM (step g tokens') (a.reindex index) =
      (events.foldlM (step g tokens) a).map (Assembly.reindex index) := by
  induction events generalizing a with
  | nil => rfl
  | cons event rest ih =>
      have here := mentions event List.mem_cons_self
      rw [List.map_cons, List.foldlM_cons, List.foldlM_cons,
        step_reindex reindexing listing here]
      cases read : step g tokens a event with
      | error fault => rfl
      | ok after =>
          exact ih (fun other member => mentions other (List.mem_cons_of_mem _ member))
            (step_listed listing here read)

end Assembly

/-- **A record with its indices changed is read as the tree with its indices changed**, with the
same diagnostics. -/
theorem ofEvents?_reindex {events : Array Event}
    (mentions : ∀ event ∈ events, event.Mentions listed) :
    Node.ofEvents? g tokens' (events.map (Event.rename id index)) =
      (Node.ofEvents? g tokens events).map fun read =>
        (read.1.map (Node.reindex index), read.2) := by
  have empty : Assembly.empty = Assembly.empty.reindex index := rfl
  have listing : Assembly.empty.Listed listed := nofun
  unfold Node.ofEvents? Assembly.ofEvents
  rw [Array.toList_map, empty,
    Assembly.steps_reindex reindexing (fun event member => mentions event (by simpa using member))
      listing, ← empty]
  cases events.toList.foldlM (Assembly.step g tokens) Assembly.empty with
  | error fault => rfl
  | ok a =>
      obtain ⟨_ | ⟨top, outer⟩, roots, diagnostics⟩ := a
      · obtain _ | ⟨root, _ | ⟨other, rest⟩⟩ := roots <;> rfl
      · rfl

end Reading

end Dialect
