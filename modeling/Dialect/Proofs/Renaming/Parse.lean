import Dialect.Proofs.Renaming.Element
import Dialect.Proofs.Matching.Run
import Dialect.Proofs.Results

/-!
# Images parse alike

A parse with the image of a grammar comes to the same as a parse with the grammar itself, but for
the names of the elements in the tree (`answers_parseFrom_image`).
-/

set_option autoImplicit false

namespace Dialect

/-! ### Renamed trees -/

mutual

/-- The tree with all elements renamed. -/
def Node.rename (σ : ElementId → ElementId) : Node → Node
  | ⟨element, kind, range, first, stop, children⟩ =>
      ⟨σ element, kind, range, first, stop, Node.renameAll σ children⟩

/-- The forest with all elements renamed. -/
def Node.renameAll (σ : ElementId → ElementId) : List Node → List Node
  | [] => []
  | node :: rest => Node.rename σ node :: Node.renameAll σ rest

end

/-- The parse with all elements of the tree renamed. -/
def Parse.rename (σ : ElementId → ElementId) (parse : Parse) : Parse :=
  { parse with root := parse.root.rename σ }

/-- The open node with all elements renamed. -/
def OpenNode.rename (σ : ElementId → ElementId) (top : OpenNode) : OpenNode :=
  { top with element := σ top.element, children := top.children.map (Node.rename σ) }

/-- The assembly with all elements renamed. -/
def Assembly.rename (σ : ElementId → ElementId) (a : Assembly) : Assembly :=
  { a with stack := a.stack.map (OpenNode.rename σ), roots := a.roots.map (Node.rename σ) }

section Trees

variable {σ : ElementId → ElementId} {g h : Grammar} {tokens : Array Token}

theorem Node.renameAll_eq_map (nodes : List Node) :
    Node.renameAll σ nodes = nodes.map (Node.rename σ) := by
  induction nodes with
  | nil => rw [Node.renameAll, List.map_nil]
  | cons node rest ih => rw [Node.renameAll, List.map_cons, ih]

mutual

/-- Renaming nothing. -/
theorem Node.rename_id : (node : Node) → node.rename id = node
  | ⟨element, kind, range, first, stop, children⟩ => by
      rw [Node.rename, Node.renameAll_id children, id]

theorem Node.renameAll_id : (nodes : List Node) → Node.renameAll id nodes = nodes
  | [] => by rw [Node.renameAll]
  | node :: rest => by rw [Node.renameAll, Node.rename_id node, Node.renameAll_id rest]

end

theorem Parse.rename_id : Parse.rename id = id := by
  funext parse
  rw [Parse.rename, Node.rename_id, id]

namespace Assembly

theorem take_rename (a : Assembly) (span : Span) :
    (a.rename σ).take span = (a.take span).rename σ := by
  obtain ⟨_ | ⟨top, outer⟩, roots, diagnostics⟩ := a <;> rfl

theorem attach_rename (a : Assembly) (node : Node) :
    (a.rename σ).attach (node.rename σ) = (a.attach node).rename σ := by
  obtain ⟨element, kind, range, first, stop, children⟩ := node
  obtain ⟨_ | ⟨top, outer⟩, roots, diagnostics⟩ := a <;> rw [Node.rename] <;>
    simp only [rename, attach, List.map_nil, List.map_cons, OpenNode.rename, Node.rename]

theorem close_rename (kind : NodeKind) (top : OpenNode) :
    close tokens kind (top.rename σ) = (close tokens kind top).map (Node.rename σ) := by
  have children : (top.rename σ).children.reverse = Node.renameAll σ top.children.reverse := by
    rw [Node.renameAll_eq_map, List.map_reverse]
    rfl
  unfold close
  rw [children]
  obtain ⟨element, first, _ | span, below⟩ := top <;>
    simp only [OpenNode.rename, map_bind_eq, map_pure_eq, Node.rename]

/-- A renamed event is read as the event is. -/
theorem step_rename (image : g.Image σ h) (a : Assembly) (event : Event) :
    step h tokens (a.rename σ) (event.rename σ fun index => index) =
      (step g tokens a event).map (Assembly.rename σ) := by
  cases event with
  | tombstone => rfl
  | start element first => rfl
  | token index => exact congrArg Except.ok (take_rename a _)
  | diagnostic found => rfl
  | finish =>
      obtain ⟨_ | ⟨top, outer⟩, roots, diagnostics⟩ := a
      · rfl
      · simp only [Event.rename, step, rename, List.map_cons]
        change (h.element (σ top.element) >>= _) = _
        rcases image.element_cases top.element with
          ⟨element, element', found, found', -, same⟩ | ⟨lost, lost'⟩
        · rw [found, found']
          simp only [bind, Except.bind, same.nodeKind?_eq]
          cases element.kind.nodeKind? with
          | none => rfl
          | some kind =>
              simp only [close_rename]
              cases close tokens kind top with
              | error fault => rfl
              | ok node => exact congrArg Except.ok (attach_rename ⟨outer, roots, diagnostics⟩ node)
        · rw [lost, lost']
          rfl

theorem steps_rename (image : g.Image σ h) (events : List Event) (a : Assembly) :
    (events.map (Event.rename σ fun index => index)).foldlM (step h tokens) (a.rename σ) =
      (events.foldlM (step g tokens) a).map (Assembly.rename σ) := by
  induction events generalizing a with
  | nil => rfl
  | cons event rest ih =>
      rw [List.map_cons, List.foldlM_cons, List.foldlM_cons, step_rename image]
      cases step g tokens a event with
      | error fault => rfl
      | ok after => exact ih after

end Assembly

/-- **A renamed record is read as the renamed tree**, with the same diagnostics. -/
theorem ofEvents?_rename (image : g.Image σ h) (events : Array Event) :
    Node.ofEvents? h tokens (events.map (Event.rename σ fun index => index)) =
      (Node.ofEvents? g tokens events).map fun read => (read.1.map (Node.rename σ), read.2) := by
  have empty : Assembly.empty = Assembly.empty.rename σ := rfl
  unfold Node.ofEvents? Assembly.ofEvents
  rw [Array.toList_map, empty, Assembly.steps_rename image, ← empty]
  cases events.toList.foldlM (Assembly.step g tokens) Assembly.empty with
  | error fault => rfl
  | ok a =>
      obtain ⟨_ | ⟨top, outer⟩, roots, diagnostics⟩ := a
      · obtain _ | ⟨root, _ | ⟨other, rest⟩⟩ := roots <;> rfl
      · rfl

end Trees

/-! ### Renamed parses -/

/-- The same input, parsed in two ways. -/
def Mirror.over (s t : Setting) (σ : ElementId → ElementId) (input : Input) : Mirror :=
  ⟨s, t, input, input, σ, fun index => index⟩

theorem Mirror.over_inputs (s t : Setting) (σ : ElementId → ElementId) (input : Input) :
    (Mirror.over s t σ input).Inputs :=
  ⟨rfl, fun _ => rfl, rfl, rfl, fun _ => rfl⟩

section Parses

variable {s t : Setting} {σ : ElementId → ElementId} {tokens : Array Token}

/-- Which tokens carry meaning is the same for similar vocabularies. -/
theorem Vocabulary.Similar.significantIndices_eq {v w : Vocabulary} (similar : v.Similar w)
    (tokens : Array Token) :
    Cursor.significantIndices w tokens = Cursor.significantIndices v tokens := by
  unfold Cursor.significantIndices
  refine congrArg (fun step => List.foldlM step #[] tokens.toList.zipIdx) ?_
  funext indices ⟨token, index⟩
  dsimp only
  rcases similar.get_cases token.kind with ⟨type, type', found, found', same⟩ | ⟨fault, lost, lost'⟩
  · rw [found, found']
    simp only [bind, Except.bind, same.trivia_eq]
  · rw [lost, lost']

/-- The parses begin at the same place. -/
theorem Vocabulary.Similar.ofTokens_eq {v w : Vocabulary} (similar : v.Similar w)
    (tokens : Array Token) (placeholder : Option String) :
    Cursor.ofTokens w tokens placeholder = Cursor.ofTokens v tokens placeholder := by
  unfold Cursor.ofTokens
  rw [similar.significantIndices_eq]

/-- The parses begin in states that mirror each other. -/
theorem Mirror.states_of_ofTokens {vocabulary : Vocabulary} {placeholder : Option String}
    {opened : Cursor} (fresh : Cursor.ofTokens vocabulary tokens placeholder = .ok opened)
    (recovery : Bool) {memo memo' : Memo} (faithful : memo.Faithful s.grammar)
    (faithful' : memo'.Faithful t.grammar) :
    (Mirror.over s t σ opened.input).States ⟨opened, 0, recovery, [], none, memo⟩
      ⟨opened, 0, recovery, [], none, memo'⟩ := by
  have blank : opened.events = #[] := (Cursor.ofTokens_eq_ok fresh).2.2.2.1
  exact ⟨⟨rfl, rfl, rfl, rfl, by rw [blank, Array.map_empty]⟩, rfl, faithful, faithful'⟩

/-- What two parses that mirror each other amount to is the same but for names. -/
theorem Mirror.States.conclude_eq {input : Input} {p q : Progress}
    (image : s.grammar.Image σ t.grammar)
    (states : (Mirror.over s t σ input).States p q) (outcome : Outcome) (offset : Nat) :
    t.grammar.conclude q outcome offset =
      (s.grammar.conclude p outcome offset).map (Except.map (Parse.rename σ)) := by
  have failure_eq : q.failure = p.failure := by rw [states.same]
  have tokens_eq : q.cursor.tokens = p.cursor.tokens :=
    congrArg Input.tokens (states.cursors.reads'.trans states.cursors.reads.symm)
  have events_eq : q.cursor.events = p.cursor.events.map (Event.rename σ fun index => index) :=
    states.cursors.events_eq
  unfold Grammar.conclude Cursor.finish
  rw [failure_eq, tokens_eq, states.cursors.marks_eq, events_eq]
  cases p.failure with
  | some failure => rfl
  | none =>
      cases outcome.isMatch with
      | false => rfl
      | true =>
          by_cases finished : p.cursor.openMarks = 0
          · simp only [Bool.not_true, Bool.false_eq_true, if_false, finished, if_true, bind,
              Except.bind, ofEvents?_rename image]
            cases Node.ofEvents? s.grammar p.cursor.tokens p.cursor.events with
            | error fault => rfl
            | ok read => obtain ⟨_ | root, diagnostics⟩ := read <;> rfl
          · simp only [finished]
            rfl

/-- **A parse with the image of a grammar comes to the same but for names**, whatever has been
remembered, if the alternatives that are tried come in the same order. -/
theorem answers_parseFrom_image (image : s.grammar.Image σ t.grammar)
    (wellFormed : s.grammar.WellFormed) (wellFormed' : t.grammar.WellFormed)
    (reliable : s.predictor.Reliable s.grammar) (reliable' : t.predictor.Reliable t.grammar)
    (options_eq : t.options = s.options) (cancelled_eq : t.cancelled = s.cancelled)
    (orderly : ∀ opened,
      Cursor.ofTokens s.grammar.vocabulary tokens s.options.placeholder = .ok opened →
        (Mirror.over s t σ opened.input).Orderly)
    (root : ElementId) {memo : Memo} (faithful : memo.Faithful s.grammar) :
    Answers t.grammar (Grammar.parseFrom t (σ root) tokens)
      ((answerWith (Grammar.parseFrom s root tokens) memo).map (Except.map (Parse.rename σ))) := by
  intro memo' faithful'
  unfold answerWith Grammar.parseFrom Progress.start
  rw [image.similar.ofTokens_eq, options_eq]
  cases fresh : Cursor.ofTokens s.grammar.vocabulary tokens s.options.placeholder with
  | error fault => exact ⟨memo', faithful', rfl⟩
  | ok opened =>
      have fair : (Mirror.over s t σ opened.input).Fair :=
        ⟨image, wellFormed, wellFormed', reliable, reliable', options_eq, cancelled_eq,
          Mirror.over_inputs s t σ opened.input⟩
      have begun := @Mirror.states_of_ofTokens s t σ tokens _ _ _ fresh s.options.recovery _ _
        faithful faithful'
      have both := Mirror.matchRoot_reflects fair (orderly opened fresh) root _ _ begun
      simp only [bind, Except.bind, pure, Except.pure]
      change Mirror.Results _ _ (Matcher.matchRoot s root _) (Matcher.matchRoot t (σ root) _) at both
      generalize Matcher.matchRoot s root _ = result, Matcher.matchRoot t (σ root) _ = result'
        at both ⊢
      cases both with
      | error states => exact ⟨_, states.faithful', rfl⟩
      | @ok value _ p q holds states =>
          obtain rfl := holds
          refine ⟨q.memo, states.faithful', ?_⟩
          dsimp only
          rw [states.conclude_eq image]
          cases s.grammar.conclude p value.1 value.2 <;> rfl

/-- **An input is parsed alike with a grammar and with its image**, from the same rule on. -/
theorem parse_image {g h : Grammar} (image : g.Image σ h) (wellFormed : g.WellFormed)
    (wellFormed' : h.WellFormed) (rules : ∀ name, h.rule? name = (g.rule? name).map σ)
    (root_eq : h.root = σ g.root) {options : Options} {cancelled : Bool}
    (orderly : ∀ opened,
      Cursor.ofTokens g.vocabulary tokens options.placeholder = .ok opened →
        (Mirror.over (g.setting options cancelled) (h.setting options cancelled) σ
          opened.input).Orderly)
    (rule : Option String) {memo memo' : Memo} (faithful : memo.Faithful g)
    (faithful' : memo'.Faithful h) :
    answerWith (h.parse tokens rule options cancelled) memo' =
      (answerWith (g.parse tokens rule options cancelled) memo).map
        (Except.map (Parse.rename σ)) := by
  have parsed := fun root =>
    (@answers_parseFrom_image (g.setting options cancelled) (h.setting options cancelled) σ tokens
      image wellFormed wellFormed' (remembering_reliable wellFormed)
      (remembering_reliable wellFormed') rfl rfl orderly root memo faithful).answerWith_eq faithful'
  unfold Grammar.parse Grammar.startAt
  cases rule with
  | none =>
      rw [root_eq]
      exact parsed g.root
  | some name =>
      dsimp only
      rw [rules]
      cases g.rule? name with
      | none => rfl
      | some id => exact parsed id

end Parses

end Dialect
