import Dialect.Proofs.Conclusion
import Dialect.Proofs.Matching.Guarded
import Dialect.Proofs.Sharing

/-!
# The depth limit

The depth limit does nothing but abort a parse (`parse_limited`).  Whether it does so can be seen
from outside: a parse of tokens that are in order is aborted for its depth exactly if the depth
guard trips (`parse_depthExceeded_iff`), be it in an alternative that is given up again.

A parse is compared with one that is halted with a fault as soon as an element would be entered
too deep (`matchElementHalting`).  As long as that does not happen, every parse that may go as
deep or deeper comes to the same (`matchElementHalting_agrees`).  Where it happens, the parse is
aborted (`matchElementHalting_aborts`) and not taken up again, whatever is still matched or given
up afterwards.
-/

set_option autoImplicit false

namespace Dialect

open Matcher

/-! ### Parses that differ in how deep they may go -/

/-- The same setting with another depth limit. -/
abbrev Setting.limited (s : Setting) (limit : Nat) : Setting :=
  { s with options := { s.options with maxDepth := limit } }

section Limited

variable {s : Setting} {limit : Nat} (attempt : Attempt) (path : Path)

theorem fillSlots_limited (slots : List (Slot ElementId)) (index tokens : Nat) :
    fillSlots (s.limited limit) attempt path slots index tokens =
      fillSlots s attempt path slots index tokens := by
  induction slots generalizing index tokens with
  | nil => rfl
  | cons slot rest ih =>
      unfold fillSlots
      simp only [ih]
      rfl

theorem repeatItem_limited (item : ElementId) (separator : Option ElementId)
    (rounds tokens : Nat) :
    repeatItem (s.limited limit) attempt path item separator rounds tokens =
      repeatItem s attempt path item separator rounds tokens := by
  induction rounds generalizing tokens with
  | zero => rfl
  | succ rounds ih =>
      unfold repeatItem
      simp only [ih]
      rfl

theorem matchParts_limited (separator : ElementId) (report : Bool) (parts : List ElementId)
    (index tokens : Nat) :
    matchParts (s.limited limit) attempt path separator report parts index tokens =
      matchParts s attempt path separator report parts index tokens := by
  induction parts generalizing index tokens with
  | nil => rfl
  | cons part rest ih =>
      unfold matchParts
      simp only [ih]
      rfl

theorem tryVariants_limited (separator : ElementId) (variants : List (List ElementId))
    (best : Option (Outcome × List ElementId)) :
    tryVariants (s.limited limit) attempt path separator variants best =
      tryVariants s attempt path separator variants best := by
  induction variants generalizing best with
  | nil => rfl
  | cons variant rest ih =>
      unfold tryVariants
      simp only [ih, matchParts_limited]

theorem tryAlternatives_limited (unfiltered : Bool) (current : TokenTypeId)
    (slots : List (Slot ElementId)) (index : Nat) (best : Option (Outcome × Snapshot)) :
    tryAlternatives (s.limited limit) attempt path unfiltered current slots index best =
      tryAlternatives s attempt path unfiltered current slots index best := by
  induction slots generalizing index best with
  | nil => rfl
  | cons slot rest ih =>
      unfold tryAlternatives
      simp only [ih]
      rfl

/-- The limit is looked at only where an element is entered. -/
theorem matchKind_limited (id : ElementId) (kind : Kind ElementId) :
    matchKind (s.limited limit) attempt id path kind = matchKind s attempt id path kind := by
  cases kind with
  | wrapper opening slot closing repeated => cases repeated <;> rfl
  | sequence slots =>
      simp only [matchKind, Matcher.sequence, fillSlots_limited]
  | oneOf alternatives sortable =>
      simp only [matchKind, oneOf, tryAlternatives_limited]
  | iteration item separator =>
      simp only [matchKind, iteration, repeatItem_limited]
  | qualified variants separator =>
      simp only [matchKind, qualified, tryVariants_limited, matchParts_limited]
  | _ => rfl

end Limited

/-! ### Halting -/

/-- Whether the depth guard trips if an element is entered in this state. -/
def Setting.trips (s : Setting) (p : Progress) : Bool :=
  p.failure.isNone && !s.cancelled && s.options.maxDepth ≤ p.depth

/-- Trips where the depth guard does. -/
def tooDeep (s : Setting) : Guard := fun _ _ _ p => s.trips p

/-- Matches an element as `matchElement` does, but halts the parse where the depth guard would
trip. -/
abbrev matchElementHalting (s : Setting) (levels : Nat) (chain : Chain) : Attempt :=
  matchElementGuarded s (tooDeep s) levels chain

section Halting

variable {s : Setting} {limit levels : Nat} {attempt : Attempt} {id : ElementId} {outer : Path}
  {p q r : Progress}

theorem trips_iff :
    s.trips p = true ↔ p.failure = none ∧ s.cancelled = false ∧ s.options.maxDepth ≤ p.depth := by
  simp [Setting.trips, and_assoc]

/-- The guard aborts the parse where it trips. -/
theorem enter_of_trips (trips : s.trips p = true) :
    enter s p = .ok false { p with failure := some (.depthExceeded s.options.maxDepth) } := by
  obtain ⟨quiet, running, deep⟩ := trips_iff.1 trips
  simp only [enter, bind_apply, get_apply, quiet, running, if_pos deep]
  rfl

/-- Where the guard does not trip, it makes no difference that one may go deeper. -/
theorem enter_limited {halt : (s.limited limit).Halt} (deeper : s.options.maxDepth ≤ limit)
    (free : s.trips p = false) (alike : p.Alike s.grammar q) :
    Together halt p (enter s p) (enter (s.limited limit) q) := by
  have same : enter s p = enter (s.limited limit) p := by
    by_cases open_ : p.failure = none ∧ s.cancelled = false
    · obtain ⟨quiet, running⟩ := open_
      have shallow : p.depth < s.options.maxDepth := by
        by_contra deep
        exact Bool.false_ne_true
          (free.symm.trans (trips_iff.2 ⟨quiet, running, Nat.le_of_not_lt deep⟩))
      have shallow' : p.depth < limit := Nat.lt_of_lt_of_le shallow deeper
      simp [enter, quiet, running, Nat.not_le.2 shallow, Nat.not_le.2 shallow']
    · cases failure : p.failure <;> cases withdrawn : s.cancelled <;>
        simp_all [enter]
  rw [same]
  exact enter_agrees p q alike

/-- A parse that is halted where an element would be entered too deep goes on as one that may go
deeper, if it does so below the element and where it is halted. -/
theorem halting_agrees {halt : (s.limited limit).Halt} (deeper : s.options.maxDepth ≤ limit)
    (reliable : s.predictor.Reliable s.grammar)
    (inner : ∀ chain, Attempt.Agrees halt (matchElementHalting s levels chain) attempt)
    (halted : ∀ id outer p q, s.trips p = true → p.Alike s.grammar q →
      Together halt p (.error .tooDeep p) (matchWith (s.limited limit) attempt id outer q))
    (chain : Chain) :
    Attempt.Agrees halt (matchElementHalting s (levels + 1) chain)
      (matchWith (s.limited limit) attempt) := by
  intro id outer p q alike
  cases trips : s.trips p with
  | true =>
      rw [matchElementHalting, matchElementGuarded, guarded_of_trips trips]
      exact halted id outer p q trips alike
  | false =>
      rw [matchElementHalting, matchElementGuarded_succ trips]
      refine together_bind (enter_limited deeper trips alike) fun entered =>
        agree_ite (agree_bind (agree_check _) fun element => ?_) (agree_pure _)
      have kind := matchKind_agrees (s := s.limited limit) reliable reliable rfl
        (inner ((id, p) :: chain)) id (outer.enter id) element.kind
      rw [matchKind_limited] at kind
      exact agree_bind kind fun outcome => agree_bind leave_agrees fun _ => agree_pure _

/-- The parse that goes on has been aborted for its depth. -/
def Setting.Halt.aborted (s : Setting) : s.Halt where
  leaves failure := failure = some (.depthExceeded s.options.maxDepth)
  kept leads aborted := by
    subst aborted
    cases leads
    rfl

/-- A parse is aborted where the guard trips. -/
theorem aborted_of_trips {step : Matcher Outcome} (trips : s.trips p = true)
    (alike : p.Alike s.grammar q)
    (refuses : ∀ r, enter s q = .ok false r → step q = .ok .noMatch r) :
    Together (.aborted s) p (.error .tooDeep p) (step q) := by
  obtain ⟨quiet, running, deep⟩ := trips_iff.1 trips
  have trips' : s.trips q = true := by
    rw [alike.same]
    exact trips
  rw [refuses _ (enter_of_trips trips')]
  refine .halted rfl ?_ alike.faithful'
  rw [quiet]
  exact .abort (.depthExceeded running)

/-- **Where the guard trips the parse is aborted for good**, whatever is still matched or given
up afterwards; and it goes on as usual as long as that does not happen. -/
theorem matchElementHalting_aborts (reliable : s.predictor.Reliable s.grammar) (levels : Nat)
    (chain : Chain) :
    Attempt.Agrees (.aborted s) (matchElementHalting s levels chain) (matchElement s levels) := by
  induction levels generalizing chain with
  | zero =>
      intro id outer p q alike
      unfold matchElementHalting matchElementGuarded
      cases trips : s.trips p with
      | true =>
          rw [guarded_of_trips trips]
          exact aborted_of_trips trips alike fun r refused =>
            matchElement_of_shut refused 0 id outer
      | false =>
          rw [guarded_of_not_trips trips]
          refine together_bind (enter_agrees p q alike) fun entered => agree_ite ?_ (agree_pure _)
          exact agree_bind (agree_throw _) fun _ => agree_pure _
  | succ levels ih =>
      refine halting_agrees (Nat.le_refl s.options.maxDepth) reliable ih ?_ chain
      intro id outer p q trips alike
      exact aborted_of_trips trips alike fun r refused => matchWith_of_shut refused

/-- **A parse that may go deeper comes to the same** as long as the guard does not trip. -/
theorem matchElementHalting_agrees (reliable : s.predictor.Reliable s.grammar)
    (deeper : s.options.maxDepth ≤ limit) {levels levels' : Nat} (more : levels ≤ levels')
    (chain : Chain) :
    Attempt.Agrees (.any (s.limited limit)) (matchElementHalting s levels chain)
      (matchElement (s.limited limit) levels') := by
  have itself : ∀ levels, Attempt.Agrees (.never (s.limited limit))
      (matchElement (s.limited limit) levels) (matchElement (s.limited limit) levels) :=
    matchElement_agrees reliable reliable rfl
  induction levels generalizing levels' chain with
  | zero =>
      intro id outer p q alike
      unfold matchElementHalting matchElementGuarded
      cases trips : s.trips p with
      | true =>
          rw [guarded_of_trips trips]
          exact together_any (itself levels') alike id outer
      | false =>
          rw [guarded_of_not_trips trips]
          -- With no levels left the first parse stops at any element that may be entered, and
          -- the second may come to whatever it does; both refuse one that may not.
          rcases enter_eq s p with ⟨-, -, entered⟩ | ⟨-, failure, -, refused⟩
          · have halted : matchElement s 0 id outer p = .error .tooDeep p.entered := by
              simp only [matchElement, bind_apply, entered]
              rfl
            rw [halted]
            exact together_any (itself levels') alike id outer
          · have both : Together (.any (s.limited limit)) p (enter s p)
                (enter (s.limited limit) q) := enter_limited deeper trips alike
            rw [refused] at both
            generalize refused' : enter (s.limited limit) q = result at both
            cases both with
            | ok alike leads =>
                rw [matchElement_of_shut refused, matchElement_of_shut refused']
                exact .ok alike leads
  | succ levels ih =>
      obtain ⟨levels', rfl⟩ : ∃ below, levels' = below + 1 := ⟨levels' - 1, by omega⟩
      refine halting_agrees deeper reliable (ih (Nat.le_of_succ_le_succ more)) ?_ chain
      intro id outer p q trips alike
      exact together_any (itself (levels' + 1)) alike id outer

end Halting

/-! ### Runs -/

/-- Whether the depth guard trips anywhere while the root is run, also in what is given up again:
whether the run is halted that is guarded so. -/
def Setting.goesTooDeep (s : Setting) (root : ElementId) (tokens : Array Token) (memo : Memo) :
    Bool :=
  s.halted (tooDeep s) root tokens memo

section Runs

variable {s : Setting} {limit : Nat} {root : ElementId} {tokens : Array Token}
  {memo memo' : Memo} {p q r last : Progress}

theorem goesTooDeep_iff (begun : Progress.start s memo tokens = .ok p) :
    s.goesTooDeep root tokens memo = true ↔
      ∃ r, matchElementHalting s s.options.maxDepth [] root [] p = .error .tooDeep r := by
  rw [Setting.goesTooDeep, halted_of_start begun]
  exact halts_iff

/-- A parse is aborted for its own limit only. -/
theorem Setting.Leads.limit_eq {deepest : Nat}
    (leads : s.Leads none (some (.depthExceeded deepest))) : deepest = s.options.maxDepth := by
  generalize same : Failure.depthExceeded deepest = failure at leads
  cases leads with
  | abort reason =>
      cases reason with
      | cancelled => cases same
      | depthExceeded => exact Failure.depthExceeded.inj same

/-- States that are alike to one are alike. -/
theorem Progress.Alike.join {g : Grammar} (left : r.Alike g p) (right : r.Alike g q) :
    p.Alike g q := by
  refine ⟨?_, left.faithful', right.faithful'⟩
  rw [right.same, left.same]

variable (reliable : s.predictor.Reliable s.grammar)

include reliable

/-- Unless the guard trips, running the root comes to the same with more depth to go. -/
theorem run_limited (deeper : s.options.maxDepth ≤ limit) (alike : p.Alike s.grammar q)
    (shallow : ∀ r, matchElementHalting s s.options.maxDepth [] root [] p ≠ .error .tooDeep r) :
    Together (.never s) p (run s root [] p) (run (s.limited limit) root [] q) := by
  have plain : Together (.aborted s) p (matchElementHalting s s.options.maxDepth [] root [] p)
      (run s root [] p) :=
    matchElementHalting_aborts reliable _ [] root [] p p (.refl alike.faithful)
  have further : Together (.any (s.limited limit)) p
      (matchElementHalting s s.options.maxDepth [] root [] p) (run (s.limited limit) root [] q) :=
    matchElementHalting_agrees reliable deeper deeper [] root [] p q alike
  generalize matchElementHalting s s.options.maxDepth [] root [] p = halting,
    run s root [] p = result, run (s.limited limit) root [] q = result' at plain further shallow ⊢
  have leads := plain.follows.1
  cases plain with
  | halted => exact absurd rfl (shallow _)
  | ok beside =>
      cases further with
      | ok beside' => exact .ok (beside.join beside') leads
  | error beside =>
      cases further with
      | error beside' => exact .error (beside.join beside') leads
      | halted => exact absurd rfl (shallow _)

/-- If the guard trips, running the root ends aborted for its depth. -/
theorem run_aborted (faithful : p.memo.Faithful s.grammar)
    (halted : matchElementHalting s s.options.maxDepth [] root [] p = .error .tooDeep r)
    {outcome : Outcome} (ran : run s root [] p = .ok outcome last) :
    last.failure = some (.depthExceeded s.options.maxDepth) := by
  have beside : Together (.aborted s) p (matchElementHalting s s.options.maxDepth [] root [] p)
      (run s root [] p) :=
    matchElementHalting_aborts reliable _ [] root [] p p (.refl faithful)
  rw [halted, ran] at beside
  cases beside with
  | halted aborted => exact aborted

/-- Unless the guard trips, running the root does not end aborted for its depth. -/
theorem run_not_aborted (faithful : p.memo.Faithful s.grammar) (quiet : p.failure = none)
    (shallow : ∀ r, matchElementHalting s s.options.maxDepth [] root [] p ≠ .error .tooDeep r)
    {outcome : Outcome} (ran : run s root [] p = .ok outcome last) :
    last.failure ≠ some (.depthExceeded s.options.maxDepth) := by
  -- A run with another limit comes to the same, and it would have been aborted for that limit.
  have both : Together (.never s) p (run s root [] p)
      (run (s.limited (s.options.maxDepth + 1)) root [] p) :=
    run_limited reliable (Nat.le_succ _) (.refl faithful) shallow
  rw [ran] at both
  generalize ran' : run (s.limited (s.options.maxDepth + 1)) root [] p = result at both
  cases both with
  | @ok _ _ t alike _ =>
      have leads := run_leads (s := s.limited (s.options.maxDepth + 1)) reliable faithful ran'
      have same : t.failure = last.failure := by rw [alike.same]
      rw [quiet, same] at leads
      intro aborted
      rw [aborted] at leads
      exact absurd leads.limit_eq (Nat.ne_of_lt (Nat.lt_succ_self _))

/-- Unless the guard trips, a parse comes to the same with more depth to go. -/
theorem parseFrom_limited (deeper : s.options.maxDepth ≤ limit)
    (faithful : memo.Faithful s.grammar) (faithful' : memo'.Faithful s.grammar)
    (shallow : s.goesTooDeep root tokens memo = false) :
    answerWith (Grammar.parseFrom (s.limited limit) root tokens) memo' =
      answerWith (Grammar.parseFrom s root tokens) memo := by
  obtain ⟨after, -, parsed⟩ := parseFrom_together (s := s) (s.limited limit) rfl rfl faithful
    faithful' fun p q begun _ alike => run_limited reliable deeper alike fun r halted =>
      Bool.false_ne_true (shallow.symm.trans ((goesTooDeep_iff begun).2 ⟨r, halted⟩))
  conv_lhs => unfold answerWith
  rw [parsed]
  cases answerWith (Grammar.parseFrom s root tokens) memo <;> rfl

end Runs

/-! ### Parses -/

section Parses

variable {g : Grammar} {vocabulary : Vocabulary} {rules : List Rule} {name : Option String}
  {tokens : Array Token} {options : Options} {cancelled : Bool} {root : ElementId}
  {memo memo' : Memo}

/-- If the guard trips, a parse is aborted for its depth, or tokens that are out of order make it
fault. -/
theorem parseFrom_aborted (wellFormed : g.WellFormed) (bound : root < g.elements.size)
    (faithful : memo.Faithful g)
    (deep : (g.setting options cancelled).goesTooDeep root tokens memo = true) :
    answerWith (Grammar.parseFrom (g.setting options cancelled) root tokens) memo =
        .ok (.error (.depthExceeded options.maxDepth)) ∨
      answerWith (Grammar.parseFrom (g.setting options cancelled) root tokens) memo =
        .error .textRange ∧ ¬ Token.InOrder tokens := by
  cases fresh : Cursor.ofTokens g.vocabulary tokens options.placeholder with
  | error fault =>
      unfold Setting.goesTooDeep Setting.halted at deep
      rw [start_of_fault fresh] at deep
      cases deep
  | ok opened =>
      obtain ⟨r, halted⟩ := (goesTooDeep_iff (start_of_opened fresh cancelled memo)).1 deep
      unfold answerWith
      rcases parseFrom_concludes wellFormed cancelled fresh bound faithful with
        ⟨outcome, last, answer, after, ran, -, concluded, done⟩ | ⟨⟨after, failed⟩, disorder⟩
      · have aborted := run_aborted (remembering_reliable wellFormed) faithful halted ran
        rw [done]
        cases concluded with
        | aborted failed =>
            obtain rfl := Option.some.inj (failed.symm.trans aborted)
            exact .inl rfl
        | noMatch going => cases going.symm.trans aborted
        | matched going => cases going.symm.trans aborted
      · rw [failed]
        exact .inr ⟨rfl, disorder⟩

/-- A parse is aborted for its depth only if the guard trips. -/
theorem goesTooDeep_of_parseFrom (wellFormed : g.WellFormed) (bound : root < g.elements.size)
    (faithful : memo.Faithful g)
    (parsed : Grammar.parseFrom (g.setting options cancelled) root tokens memo =
      .ok (.error (.depthExceeded options.maxDepth)) memo') :
    (g.setting options cancelled).goesTooDeep root tokens memo = true := by
  obtain ⟨opened, outcome, last, fresh, ran, aborted⟩ :=
    parseFrom_deep wellFormed bound faithful parsed
  by_contra shallow
  have calm : ∀ r, matchElementHalting (g.setting options cancelled) options.maxDepth [] root []
      (opened.begin options memo) ≠ .error .tooDeep r := fun r halted =>
    shallow ((goesTooDeep_iff (start_of_opened fresh cancelled memo)).2 ⟨r, halted⟩)
  exact run_not_aborted (s := g.setting options cancelled) (p := opened.begin options memo)
    (remembering_reliable wellFormed) faithful rfl calm ran aborted

/-- Whether the depth guard trips anywhere in a parse. -/
def Grammar.goesTooDeep (g : Grammar) (tokens : Array Token) (rule : Option String)
    (options : Options) (cancelled : Bool) (memo : Memo) : Bool :=
  g.halted tooDeep tokens rule options cancelled memo

section

variable {rule : Option String}

theorem goesTooDeep_of_startAt (started : g.startAt rule = .ok root) :
    g.goesTooDeep tokens rule options cancelled memo =
      (g.setting options cancelled).goesTooDeep root tokens memo :=
  halted_of_startAt started

theorem goesTooDeep_of_unknown {failure : Failure} (unknown : g.startAt rule = .error failure) :
    g.goesTooDeep tokens rule options cancelled memo = false :=
  halted_of_unknown unknown

/-- Once the guard has tripped, a parse is aborted for its depth, or tokens that are out of order
make it fault. -/
theorem parse_of_goesTooDeep (wellFormed : g.WellFormed) (faithful : memo.Faithful g)
    (deep : g.goesTooDeep tokens rule options cancelled memo = true) :
    answerWith (g.parse tokens rule options cancelled) memo =
        .ok (.error (.depthExceeded options.maxDepth)) ∨
      answerWith (g.parse tokens rule options cancelled) memo = .error .textRange ∧
        ¬ Token.InOrder tokens := by
  cases started : g.startAt rule with
  | error failure =>
      rw [goesTooDeep_of_unknown started] at deep
      cases deep
  | ok root =>
      rw [goesTooDeep_of_startAt started] at deep
      rw [parse_of_startAt started]
      exact parseFrom_aborted wellFormed (startAt_lt wellFormed started) faithful deep

/-- As long as the guard does not trip, a parse that may go deeper comes to the same. -/
theorem parse_of_not_goesTooDeep (wellFormed : g.WellFormed) (faithful : memo.Faithful g)
    (faithful' : memo'.Faithful g) {limit : Nat} (deeper : options.maxDepth ≤ limit)
    (shallow : g.goesTooDeep tokens rule options cancelled memo = false) :
    answerWith (g.parse tokens rule { options with maxDepth := limit } cancelled) memo' =
      answerWith (g.parse tokens rule options cancelled) memo := by
  cases started : g.startAt rule with
  | error failure =>
      unfold answerWith
      rw [parse_of_unknown started, parse_of_unknown started]
  | ok root =>
      rw [goesTooDeep_of_startAt started] at shallow
      rw [parse_of_startAt started, parse_of_startAt started]
      exact parseFrom_limited (s := g.setting options cancelled)
        (remembering_reliable wellFormed) deeper faithful faithful' shallow

/-- **A parse of tokens that are in order is aborted for its depth exactly if the guard trips.** -/
theorem parse_depthExceeded_iff (wellFormed : g.WellFormed) (faithful : memo.Faithful g)
    (ordered : Token.InOrder tokens) :
    answerWith (g.parse tokens rule options cancelled) memo =
        .ok (.error (.depthExceeded options.maxDepth)) ↔
      g.goesTooDeep tokens rule options cancelled memo = true := by
  constructor
  · intro aborted
    unfold answerWith at aborted
    cases started : g.startAt rule with
    | error failure =>
        rw [parse_of_unknown started] at aborted
        cases aborted
        exact absurd started startAt_not_deep
    | ok root =>
        rw [goesTooDeep_of_startAt started]
        rw [parse_of_startAt started] at aborted
        cases parsed : Grammar.parseFrom (g.setting options cancelled) root tokens memo with
        | error fault after =>
            rw [parsed] at aborted
            cases aborted
        | ok answer after =>
            rw [parsed] at aborted
            obtain rfl := Except.ok.inj aborted
            exact goesTooDeep_of_parseFrom wellFormed (startAt_lt wellFormed started) faithful parsed
  · intro deep
    exact (parse_of_goesTooDeep wellFormed faithful deep).resolve_right fun faults =>
      faults.2 ordered

end

/-- **The depth limit only ever aborts.**  A parse that is not aborted for its depth comes to the
same if it may go deeper, unless the guard has tripped and tokens that are out of order make the
parse fault, for a range that is none.  Once the guard has tripped, be it in what is given up again,
the parse is aborted for its depth or faults for such tokens; it never comes to a tree. -/
theorem parse_limited [Alphabet] (built : Grammar.ofRules vocabulary rules name = .ok g)
    (tokens : Array Token) (rule : Option String) (options : Options) (cancelled : Bool)
    {limit : Nat} (deeper : options.maxDepth ≤ limit) (faithful : memo.Faithful g)
    (faithful' : memo'.Faithful g) :
    (answerWith (g.parse tokens rule options cancelled) memo ≠
        .ok (.error (.depthExceeded options.maxDepth)) →
      answerWith (g.parse tokens rule { options with maxDepth := limit } cancelled) memo' =
          answerWith (g.parse tokens rule options cancelled) memo ∨
        g.goesTooDeep tokens rule options cancelled memo = true ∧
          answerWith (g.parse tokens rule options cancelled) memo = .error .textRange ∧
          ¬ Token.InOrder tokens) ∧
    (g.goesTooDeep tokens rule options cancelled memo = true →
      answerWith (g.parse tokens rule options cancelled) memo =
          .ok (.error (.depthExceeded options.maxDepth)) ∨
        answerWith (g.parse tokens rule options cancelled) memo = .error .textRange ∧
          ¬ Token.InOrder tokens) := by
  have wellFormed := Grammar.ofRules_wellFormed built
  have aborted : g.goesTooDeep tokens rule options cancelled memo = true → _ :=
    parse_of_goesTooDeep wellFormed faithful
  refine ⟨fun going => ?_, aborted⟩
  cases deep : g.goesTooDeep tokens rule options cancelled memo with
  | true => exact .inr ⟨rfl, (aborted deep).resolve_left going⟩
  | false => exact .inl (parse_of_not_goesTooDeep wellFormed faithful faithful' deeper deep)

end Parses

/-- A word, perhaps another word that lies deeper, and perhaps a third one. -/
def sunkenRules : List Rule :=
  [⟨"r", .sequence [.required (.token "A" none none),
    ⟨.sequence [.required (.token "B" none none)], true, 0⟩, ⟨.token "C" none none, true, 0⟩]⟩]

/-- The grammar of that rule. -/
def sunken : Grammar where
  vocabulary := ⟨"test", #[.keyword "A" "a", .keyword "B" "b", .keyword "C" "c"]⟩
  elements := #[
    ⟨0, "r", some "r", none, .sequence [.required 1, ⟨2, true, 0⟩, ⟨4, true, 0⟩]⟩,
    ⟨1, "r#1", none, some 0, .token 0 none none⟩,
    ⟨2, "r#2", none, some 0, .sequence [.required 3]⟩,
    ⟨3, "r#3", none, some 2, .token 1 none none⟩,
    ⟨4, "r#4", none, some 0, .token 2 none none⟩]
  rules := [("r", 0)]
  root := 0

theorem sunken_built : Grammar.ofRules sunken.vocabulary sunkenRules none = .ok sunken := by
  with_unfolding_all rfl

/-- The three words, the second and the third with these offsets. -/
def sunkenTokens (second third : Nat) : Array Token :=
  #[⟨0, "a", 0⟩, ⟨1, "b", second⟩, ⟨2, "c", third⟩]

/-- With two levels the second word is too deep, and with three the words are accepted, with more
as well. -/
theorem sunkenTokens_limited :
    Grammar.ofRules sunken.vocabulary sunkenRules none = .ok sunken ∧
      sunken.goesTooDeep (sunkenTokens 1 2) none { maxDepth := 2 } false sunken.blankMemo = true ∧
      answerWith (sunken.parse (sunkenTokens 1 2) none { maxDepth := 2 } false)
        sunken.blankMemo = .ok (.error (.depthExceeded 2)) ∧
      verdict (answerWith (sunken.parse (sunkenTokens 1 2) none { maxDepth := 3 } false)
        sunken.blankMemo) = .ok (.ok true) ∧
      answerWith (sunken.parse (sunkenTokens 1 2) none { maxDepth := 256 } false)
          sunken.blankMemo =
        answerWith (sunken.parse (sunkenTokens 1 2) none { maxDepth := 3 } false)
          sunken.blankMemo := by
  have faithful := Memo.blank_faithful sunken
  have ordered : Token.InOrder (sunkenTokens 1 2) := ⟨by decide, by decide⟩
  have deep : sunken.goesTooDeep (sunkenTokens 1 2) none { maxDepth := 2 } false
      sunken.blankMemo = true := by
    decide +kernel
  have accepted : verdict (answerWith (sunken.parse (sunkenTokens 1 2) none { maxDepth := 3 } false)
      sunken.blankMemo) = .ok (.ok true) := by
    decide +kernel
  have aborted := (parse_limited sunken_built (sunkenTokens 1 2) none { maxDepth := 2 } false
    (Nat.le_refl _) faithful faithful).2 deep
  have same := (parse_limited sunken_built (sunkenTokens 1 2) none { maxDepth := 3 } false
    (show 3 ≤ 256 by decide) faithful faithful).1 fun seen => by
      rw [seen] at accepted
      cases Except.ok.inj accepted
  exact ⟨sunken_built, deep, aborted.resolve_right fun faults => faults.2 ordered, accepted,
    same.resolve_right fun faults => faults.2.2 ordered⟩

/-- If the third word lies before the second, two levels are too few to see it, so that the words
are left over; and that cannot be reported.  With three levels the words are accepted. -/
theorem sunkenTokens_fault :
    Grammar.ofRules sunken.vocabulary sunkenRules none = .ok sunken ∧
      sunken.goesTooDeep (sunkenTokens 10 5) none { maxDepth := 2 } false sunken.blankMemo = true ∧
      answerWith (sunken.parse (sunkenTokens 10 5) none { maxDepth := 2 } false)
        sunken.blankMemo = .error .textRange ∧
      verdict (answerWith (sunken.parse (sunkenTokens 10 5) none { maxDepth := 3 } false)
        sunken.blankMemo) = .ok (.ok true) :=
  ⟨sunken_built, by decide +kernel, eq_of_verdict_fault (by decide +kernel), by decide +kernel⟩

end Dialect
