import Dialect.Prediction.Overlap
import Dialect.Proofs.Matching.Alike
import Dialect.Proofs.Prediction.Traversal

/-!
# Sharing a grammar

Several threads may call on one grammar, one after the other or at the same time.  They
share its memo: who computes first sets or an order of alternatives stores them for all,
unless another has done so in the meantime.  A history is the list of the memos there have
been (`History`).  Each time a thread looks up an element it may come upon another of them,
so `TellsFirsts` and `TellsOrder` say what a thread can be told at all; what is computed in one go
is among it (`tells_compute`).  Calls that nothing comes between are part of a history as well.

None of this shows in an answer (`calls_unaffected`).  First sets are those of plain recursion,
alternatives stand in their one order, and a parse comes to what it comes to with nothing
remembered, whether calls came before it or it is told its predictions by a history that
goes on beside it.  What such a parse stores on the way is part of that history.
-/

set_option autoImplicit false

namespace Dialect

variable {g : Grammar}

/-! ### Histories -/

namespace Memo

/-- Stores first sets unless there are some by now. -/
def settleFirsts (memo : Memo) (id : ElementId) (sets : FirstSets) : Memo :=
  if (memo.firsts? id).isSome then memo else memo.rememberFirsts id sets

/-- Stores an order of alternatives unless there is one by now. -/
def settleOrder (memo : Memo) (id : ElementId) (order : List (Slot ElementId)) : Memo :=
  if (memo.order? id).isSome then memo else memo.rememberOrder id order

end Memo

/-- What a thread can be told of the first sets of an element: what some memo of the past
holds, or what it computes from what such memos hold. -/
inductive TellsFirsts (g : Grammar) (past : List Memo) (id : ElementId) : FirstSets → Prop
  | remembered {memo : Memo} {sets : FirstSets} (member : memo ∈ past)
      (holds : memo.firsts? id = some sets) : TellsFirsts g past id sets
  | computed {sets : FirstSets} (bound : id < g.elements.size)
      (reached : (FirstSets.traverse g id).Reaches
        (fun id found => ∃ memo ∈ past, memo.firsts? id = found) sets) :
      TellsFirsts g past id sets

/-- What a thread can be told of the order of the alternatives of a sortable choice: what some
memo of the past holds, or what it makes of the first sets it is told. -/
inductive TellsOrder (g : Grammar) (past : List Memo) (id : ElementId) :
    List (Slot ElementId) → Prop
  | remembered {memo : Memo} {order : List (Slot ElementId)} (member : memo ∈ past)
      (holds : memo.order? id = some order) : TellsOrder g past id order
  | sorted {told : List (Slot ElementId × FirstSets)}
      (stands : g.kind? id = some (.oneOf (told.map Prod.fst) true))
      (tells : ∀ entry ∈ told, TellsFirsts g past entry.1.item entry.2) :
      TellsOrder g past id
        (identifiersLast (told.map fun entry => (entry.1, entry.2.identifierShaped)))

/-- A call on a grammar.  Overlaps are asked for when the grammar is made. -/
inductive Call where
  | overlaps
  | lookup (id : ElementId)
  | children (id : ElementId)
  | parse (tokens : Array Token) (rule : Option String) (options : Options) (cancelled : Bool)
  | parseAll (inputs : List (Array Token)) (rule : Option String) (options : Options)
      (cancelled : Bool)

/-- The memo after a call that nothing came between. -/
def Call.leaves (g : Grammar) (memo : Memo) : Call → Memo
  | .overlaps => memoAfter g.overlaps memo
  | .lookup id => memoAfter (g.firsts id) memo
  | .children id => memoAfter (g.children id) memo
  | .parse tokens rule options cancelled =>
      memoAfter (g.parse tokens rule options cancelled) memo
  | .parseAll inputs rule options cancelled =>
      memoAfter (g.parseAll inputs rule options cancelled) memo

/-- The memos there have been since the grammar was made, the present one first.  A thread that
stores something has been told it by memos of any time before; the present one may hold
something else by then. -/
inductive History (g : Grammar) : List Memo → Prop
  | start : History g [g.blankMemo]
  | firsts {memo : Memo} {past : List Memo} {id : ElementId} {sets : FirstSets}
      (before : History g (memo :: past)) (tells : TellsFirsts g (memo :: past) id sets) :
      History g (memo.settleFirsts id sets :: memo :: past)
  | order {memo : Memo} {past : List Memo} {id : ElementId} {order : List (Slot ElementId)}
      (before : History g (memo :: past)) (tells : TellsOrder g (memo :: past) id order) :
      History g (memo.settleOrder id order :: memo :: past)
  | call {memo : Memo} {past : List Memo} (before : History g (memo :: past)) (call : Call) :
      History g (call.leaves g memo :: memo :: past)

/-! ### What is told is right -/

theorem told_firsts (wellFormed : g.WellFormed) {past : List Memo}
    (faithful : ∀ memo ∈ past, memo.Faithful g) {id : ElementId} {sets : FirstSets}
    (tells : TellsFirsts g past id sets) :
    id < g.elements.size ∧ sets = FirstSets.ofElement g id := by
  cases tells with
  | remembered member holds => exact (faithful _ member).firsts id sets holds
  | computed bound reached =>
      refine ⟨bound, FirstSets.reaches_traverse wellFormed ?_ bound reached⟩
      rintro other found ⟨memo, member, holds⟩
      exact ((faithful memo member).firsts other found holds).2

/-- What the present memo computes in one go can be told. -/
theorem tells_compute (wellFormed : g.WellFormed) {past : List Memo} {memo : Memo}
    (member : memo ∈ past) (faithful : memo.Faithful g) {id : ElementId}
    (bound : id < g.elements.size) :
    TellsFirsts g past id (FirstSets.compute g memo.firsts? id) := by
  rw [← FirstSets.run_traverse wellFormed (fun other sets found => faithful.firsts other sets found)
    bound]
  exact .computed bound (Reading.reaches_run fun _ => ⟨memo, member, rfl⟩)

theorem told_order (wellFormed : g.WellFormed) {past : List Memo}
    (faithful : ∀ memo ∈ past, memo.Faithful g) {id : ElementId} {order : List (Slot ElementId)}
    (tells : TellsOrder g past id order) :
    ∃ kind, g.kind? id = some kind ∧ order = kind.tried g := by
  cases tells with
  | remembered member holds => exact (faithful _ member).orders id order holds
  | @sorted told stands tells =>
      refine ⟨_, stands, ?_⟩
      rw [Kind.tried, List.map_map]
      refine congrArg identifiersLast (List.map_congr_left fun entry member => ?_)
      simp only [Function.comp, (told_firsts wellFormed faithful (tells entry member)).2]

theorem Memo.Faithful.settleFirsts {memo : Memo} (faithful : memo.Faithful g) {id : ElementId}
    (bound : id < g.elements.size) :
    (memo.settleFirsts id (FirstSets.ofElement g id)).Faithful g := by
  unfold Memo.settleFirsts
  split
  · exact faithful
  · exact faithful.rememberFirsts bound

theorem Memo.Faithful.settleOrder {memo : Memo} (faithful : memo.Faithful g) {id : ElementId}
    {kind : Kind ElementId} (stands : g.kind? id = some kind) :
    (memo.settleOrder id (kind.tried g)).Faithful g := by
  unfold Memo.settleOrder
  split
  · exact faithful
  · exact faithful.rememberOrder stands

/-! ### Calls that nothing comes between -/

/-- Parses with predictions from elsewhere. -/
def Grammar.parseAsking (g : Grammar) (predictor : Predictor) (tokens : Array Token)
    (rule : Option String) (options : Options) (cancelled : Bool) : Query (Except Failure Parse) :=
  match g.startAt rule with
  | .error failure => return .error failure
  | .ok root => parseFrom ⟨g, predictor, options, cancelled⟩ root tokens

/-- What a parse comes to with nothing remembered. -/
def Grammar.parsed (g : Grammar) (tokens : Array Token) (rule : Option String) (options : Options)
    (cancelled : Bool) : Except Fault (Except Failure Parse) :=
  answerWith (g.parse tokens rule options cancelled) g.blankMemo

section Calls

theorem exists_answers_bind {α β : Type} {query : Query α} {answer : Except Fault α}
    {next : α → Query β} (first : Answers g query answer)
    (second : ∀ value, ∃ nextAnswer, Answers g (next value) nextAnswer) :
    ∃ nextAnswer, Answers g (query >>= next) nextAnswer := by
  choose nextAnswer answers using second
  exact ⟨_, answers_bind first answers⟩

variable (wellFormed : g.WellFormed)

include wellFormed

theorem answers_parseAsking {predictor : Predictor} (reliable : predictor.Reliable g)
    (selective : predictor.selective = true) (tokens : Array Token) (rule : Option String)
    (options : Options) (cancelled : Bool) :
    Answers g (g.parseAsking predictor tokens rule options cancelled)
      (g.parsed tokens rule options cancelled) := by
  unfold Grammar.parseAsking Grammar.parsed Grammar.parse
  cases g.startAt rule with
  | error failure => exact answers_pure _
  | ok root =>
      exact answers_parseFrom (s := ⟨g, .remembering g, options, cancelled⟩)
        (remembering_reliable wellFormed) reliable selective root tokens

theorem answers_parse (tokens : Array Token) (rule : Option String) (options : Options)
    (cancelled : Bool) :
    Answers g (g.parse tokens rule options cancelled) (g.parsed tokens rule options cancelled) :=
  answers_parseAsking wellFormed (remembering_reliable wellFormed) rfl tokens rule options cancelled

theorem answers_parseAll (inputs : List (Array Token)) (rule : Option String) (options : Options)
    (cancelled : Bool) :
    Answers g (g.parseAll inputs rule options cancelled)
      (inputs.mapM fun tokens => g.parsed tokens rule options cancelled) :=
  answers_mapM fun tokens _ => answers_parse wellFormed tokens rule options cancelled

theorem answers_overlaps : ∃ answer, Answers g g.overlaps answer := by
  have each : ∀ element, ∃ answer, Answers g (g.overlap? element) answer := by
    intro element
    unfold Grammar.overlap?
    cases element.kind with
    | oneOf alternatives sortable =>
        have all : Answers g (alternatives.mapM fun slot => g.firsts slot.item)
            (alternatives.mapM fun slot => g.firstsOf slot.item) :=
          answers_mapM fun slot _ => answers_firsts wellFormed slot.item
        refine exists_answers_bind all fun sets => ?_
        exact ⟨_, answers_ite (answers_pure _) (answers_pure _)⟩
    | _ => exact ⟨_, answers_pure _⟩
  choose answer answers using each
  exact ⟨_, answers_bind (answers_mapM fun element _ => answers element) fun _ => answers_pure _⟩

theorem Call.leaves_faithful {memo : Memo} (faithful : memo.Faithful g) (call : Call) :
    (call.leaves g memo).Faithful g := by
  cases call with
  | overlaps =>
      obtain ⟨answer, answers⟩ := answers_overlaps wellFormed
      exact answers.memoAfter_faithful faithful
  | lookup id => exact (answers_firsts wellFormed id).memoAfter_faithful faithful
  | children id => exact (answers_children wellFormed id).memoAfter_faithful faithful
  | parse tokens rule options cancelled =>
      exact (answers_parse wellFormed tokens rule options cancelled).memoAfter_faithful faithful
  | parseAll inputs rule options cancelled =>
      exact (answers_parseAll wellFormed inputs rule options cancelled).memoAfter_faithful faithful

/-- **No history leaves a wrong memo.** -/
theorem History.faithful {past : List Memo} (history : History g past) :
    ∀ memo ∈ past, memo.Faithful g := by
  induction history with
  | start =>
      intro memo member
      obtain rfl := List.mem_singleton.1 member
      exact Memo.blank_faithful g
  | firsts before tells ih =>
      obtain ⟨bound, rfl⟩ := told_firsts wellFormed ih tells
      exact List.forall_mem_cons.2 ⟨(ih _ List.mem_cons_self).settleFirsts bound, ih⟩
  | order before tells ih =>
      obtain ⟨kind, stands, rfl⟩ := told_order wellFormed ih tells
      exact List.forall_mem_cons.2 ⟨(ih _ List.mem_cons_self).settleOrder stands, ih⟩
  | call before call ih =>
      exact List.forall_mem_cons.2 ⟨call.leaves_faithful wellFormed (ih _ List.mem_cons_self), ih⟩

end Calls

/-! ### Parses beside other calls -/

/-- Counts a question that others answer; how many there have been before it. -/
def tick : Query Nat :=
  modifyGet fun memo => (memo.told, { memo with told := memo.told + 1 })

/-- Predictions that a parse is told by a history that goes on beside it.  The same question may
be answered in another way each time it is asked. -/
def Predictor.told (g : Grammar) (firsts : Nat → ElementId → FirstSets)
    (orders : Nat → ElementId → List (Slot ElementId)) : Predictor where
  firsts id := do
    let _ ← g.element id
    return firsts (← tick) id
  children id := do
    match (← g.element id).kind with
    | .sequence slots => return slots
    | .oneOf alternatives false => return alternatives
    | .oneOf _ true => return orders (← tick) id
    | _ => return []
  selective := true

theorem answers_tick {α : Type} {next : Nat → α} {answer : α} (same : ∀ n, next n = answer) :
    Answers g (do return next (← tick)) (.ok answer) := by
  intro memo faithful
  refine ⟨{ memo with told := memo.told + 1 }, ⟨faithful.firsts, faithful.orders⟩, ?_⟩
  simp only [bind_apply, tick, modifyGet_apply, same, pure_apply]

theorem told_reliable {firsts : Nat → ElementId → FirstSets}
    {orders : Nat → ElementId → List (Slot ElementId)}
    (firsts_eq : ∀ n id, id < g.elements.size → firsts n id = FirstSets.ofElement g id)
    (orders_eq : ∀ n id alternatives, g.kind? id = some (.oneOf alternatives true) →
      orders n id = (Kind.oneOf alternatives true).tried g) :
    (Predictor.told g firsts orders).Reliable g := by
  refine ⟨fun id => answers_bind_lift fun element found => ?_,
    fun id => answers_bind_lift fun element found => ?_⟩
  · have bound := Grammar.lt_of_kind?_eq_some (kind?_of_element found)
    exact answers_tick fun n => firsts_eq n id bound
  · have stands := kind?_of_element found
    cases kind : element.kind with
    | oneOf alternatives sortable =>
        cases sortable with
        | false => exact answers_pure _
        | true => exact answers_tick fun n => orders_eq n id alternatives (kind ▸ stands)
    | _ => exact answers_pure _

/-! ### No call is affected -/

/-- What can be told from the answers to calls, after the past and beside it: nothing about
either. -/
structure Unaffected (g : Grammar) (past : List Memo) : Prop where
  /-- The first sets of an element are those of plain recursion, in every call. -/
  lookup : ∀ id, id < g.elements.size → ∃ sets, FirstSets.Plain g id sets ∧
    (∀ told, TellsFirsts g past id told → told = sets) ∧
      ∀ memo ∈ past, answerWith (g.firsts id) memo = .ok sets
  /-- The alternatives of a sortable choice stand in one order: those that may begin with an
  identifier last, otherwise as they were declared. -/
  children : ∀ id alternatives, g.kind? id = some (.oneOf alternatives true) →
    ∃ shaped : Slot ElementId → Bool,
      (∀ slot ∈ alternatives, FirstSets.Shaped g slot.item (shaped slot)) ∧
      ∃ order, order = alternatives.filter (fun slot => !shaped slot) ++ alternatives.filter shaped ∧
        (∀ told, TellsOrder g past id told → told = order) ∧
          ∀ memo ∈ past, answerWith (g.children id) memo = .ok order
  /-- A parse after the past comes to what it comes to with nothing remembered. -/
  parse : ∀ tokens rule options cancelled, ∀ memo ∈ past,
    answerWith (g.parse tokens rule options cancelled) memo =
      g.parsed tokens rule options cancelled
  /-- So does each of several parses. -/
  parseAll : ∀ inputs rule options cancelled, ∀ memo ∈ past,
    answerWith (g.parseAll inputs rule options cancelled) memo =
      inputs.mapM fun tokens => g.parsed tokens rule options cancelled
  /-- So does a parse that remembers nothing even while it goes on. -/
  forgetful : ∀ tokens rule options cancelled,
    answerWith (g.parseAsking (.direct g) tokens rule options cancelled) g.blankMemo =
      g.parsed tokens rule options cancelled
  /-- So does a parse that is told, question by question, what the past tells. -/
  beside : ∀ firsts orders,
    (∀ n id, id < g.elements.size → TellsFirsts g past id (firsts n id)) →
    (∀ n id alternatives, g.kind? id = some (.oneOf alternatives true) →
      TellsOrder g past id (orders n id)) →
    ∀ tokens rule options cancelled,
      answerWith (g.parseAsking (.told g firsts orders) tokens rule options cancelled) g.blankMemo =
        g.parsed tokens rule options cancelled

/-- **Remembering does not show.**  Whatever has been called on an accepted grammar, and whatever
is called on it at the same time, every call is answered as if it were the only one. -/
theorem calls_unaffected [Alphabet] {vocabulary : Vocabulary} {rules : List Rule}
    {name : Option String}
    (built : Grammar.ofRules vocabulary rules name = .ok g) {past : List Memo}
    (history : History g past) : Unaffected g past := by
  have wellFormed := Grammar.ofRules_wellFormed built
  have faithful := history.faithful wellFormed
  -- Any order told in the past is the order of the grammar.
  have order_eq : ∀ {id alternatives order}, g.kind? id = some (.oneOf alternatives true) →
      TellsOrder g past id order → order = (Kind.oneOf alternatives true).tried g := by
    intro id alternatives order stands tells
    obtain ⟨kind, standsToo, rfl⟩ := told_order wellFormed faithful tells
    rw [Option.some.inj (stands.symm.trans standsToo)]
  constructor
  case lookup =>
    intro id bound
    refine ⟨_, FirstSets.plain_ofElement wellFormed bound,
      fun told tells => (told_firsts wellFormed faithful tells).2, fun memo member => ?_⟩
    rw [(answers_firsts wellFormed id).answerWith_eq (faithful memo member),
      Grammar.firstsOf_of_lt bound]
  case children =>
    intro id alternatives stands
    refine ⟨fun slot => (FirstSets.ofElement g slot.item).identifierShaped, fun slot member => ?_,
      (Kind.oneOf alternatives true).tried g, identifiersLast_map _ _,
      fun told tells => order_eq stands tells, fun memo member => ?_⟩
    · have inside := Grammar.lt_of_isSome ((wellFormed.placed id _ stands) slot member).2
      exact (FirstSets.plain_ofElement wellFormed inside).shape
    · rw [(answers_children wellFormed id).answerWith_eq (faithful memo member),
        Grammar.triedOf_of_kind? stands]
  case parse =>
    intro tokens rule options cancelled memo member
    exact (answers_parse wellFormed tokens rule options cancelled).answerWith_eq
      (faithful memo member)
  case parseAll =>
    intro inputs rule options cancelled memo member
    exact (answers_parseAll wellFormed inputs rule options cancelled).answerWith_eq
      (faithful memo member)
  case forgetful =>
    intro tokens rule options cancelled
    exact (answers_parseAsking wellFormed direct_reliable rfl tokens rule options
      cancelled).answerWith_eq (Memo.blank_faithful g)
  case beside =>
    intro firsts orders firstsTold ordersTold tokens rule options cancelled
    have reliable := told_reliable
      (fun n id bound => (told_firsts wellFormed faithful (firstsTold n id bound)).2)
      (fun n id alternatives stands => order_eq stands (ordersTold n id alternatives stands))
    exact (answers_parseAsking wellFormed reliable rfl tokens rule options cancelled).answerWith_eq
      (Memo.blank_faithful g)

/-- A rule with a name before a word, in a choice that may be sorted. -/
def pickRules : List Rule :=
  [⟨"r", .oneOf [.required (.identifier .reference false none),
    .required (.token "A" none none)] true⟩]

/-- The grammar of that rule. -/
def pick : Grammar where
  vocabulary := ⟨"test", #[.keyword "A" "a", ⟨"N", none, .identifier, false⟩]⟩
  elements := #[
    ⟨0, "r", some "r", none, .oneOf [.required 1, .required 2] true⟩,
    ⟨1, "r#1", none, some 0, .identifier .reference false none⟩,
    ⟨2, "r#2", none, some 0, .token 0 none none⟩]
  rules := [("r", 0)]
  root := 0

theorem pick_built : Grammar.ofRules pick.vocabulary pickRules none = .ok pick := by
  with_unfolding_all rfl

/-- First sets computed by a thread that sees nothing remembered. -/
def pickSets (id : ElementId) : FirstSets := FirstSets.compute pick pick.blankMemo.firsts? id

theorem pickSets_told {past : List Memo} (member : pick.blankMemo ∈ past) {id : ElementId}
    (bound : id < pick.elements.size) : TellsFirsts pick past id (pickSets id) :=
  tells_compute (Grammar.ofRules_wellFormed pick_built) member (Memo.blank_faithful pick) bound

/-- The memo in which a thread has stored the first sets of the name. -/
def pickNamed : Memo := pick.blankMemo.settleFirsts 1 (pickSets 1)

/-- What another thread is told of the alternatives: it has seen the first sets of the name, but
computed those of the word before. -/
def pickTold : List (Slot ElementId × FirstSets) :=
  [(.required 1, pickSets 1), (.required 2, pickSets 2)]

/-- The memo in which that thread has stored the order of the alternatives. -/
def pickSorted : Memo :=
  pickNamed.settleOrder 0
    (identifiersLast (pickTold.map fun entry => (entry.1, entry.2.identifierShaped)))

/-- A parse after two threads have computed what they share is not affected. -/
theorem pick_unaffected :
    Grammar.ofRules pick.vocabulary pickRules none = .ok pick ∧
      pickSorted.order? 0 = some [.required 2, .required 1] ∧ ∃ memo,
        History pick [memo, pickSorted, pickNamed, pick.blankMemo] ∧
          Unaffected pick [memo, pickSorted, pickNamed, pick.blankMemo] := by
  have named : History pick [pickNamed, pick.blankMemo] :=
    .firsts .start (pickSets_told List.mem_cons_self (by decide))
  have tells : ∀ entry ∈ pickTold,
      TellsFirsts pick [pickNamed, pick.blankMemo] entry.1.item entry.2 := by
    simp only [pickTold, List.forall_mem_cons]
    refine ⟨.remembered List.mem_cons_self (by decide +kernel), ?_, nofun⟩
    exact pickSets_told (List.mem_cons_of_mem _ List.mem_cons_self) (by decide)
  have sorted : History pick [pickSorted, pickNamed, pick.blankMemo] :=
    .order named (.sorted rfl tells)
  have parsed := sorted.call (.parse #[⟨0, "a", 0⟩] none {} false)
  exact ⟨pick_built, by decide +kernel, _, parsed, calls_unaffected pick_built parsed⟩

end Dialect
