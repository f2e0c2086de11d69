import Dialect.Parse
import Dialect.Proofs.Matching.Contract

/-!
# Parses that ask in different ways

Two parses of the same tokens that differ in where their predictions come from go through
the same states, up to what they remember (`matchElement_agrees`), as long as all that is
predicted and remembered is right.  In particular it makes no difference what was remembered
beforehand (`answers_parseFrom`).

What is shown on the way is that a parse is aborted for no other reason than the setting
gives (`Setting.Reason`), and that it is not taken up again (`Setting.Leads`).  So the comparison
may also end before the parses do: where the first one is halted, all that is kept in mind is why
the other has been aborted (`Setting.Halt`).
-/

set_option autoImplicit false

namespace Dialect

/-! ### Steps that agree -/

/-- Why a parse in the setting may be aborted. -/
inductive Setting.Reason (s : Setting) : Failure → Prop
  | cancelled (withdrawn : s.cancelled = true) : Reason s .cancelled
  | depthExceeded (running : s.cancelled = false) : Reason s (.depthExceeded s.options.maxDepth)

/-- From one state of a parse to a later one: it was not aborted in between, or for a reason
that the setting gives. -/
inductive Setting.Leads (s : Setting) : Option Failure → Option Failure → Prop
  | stay (failure) : Leads s failure failure
  | abort {failure} (reason : s.Reason failure) : Leads s none (some failure)

/-- The same setting with predictions from elsewhere. -/
abbrev Setting.asking (s : Setting) (predictor : Predictor) : Setting := { s with predictor }

/-- Two states of a parse that differ at most in what is remembered, which is right in
both. -/
structure Progress.Alike (g : Grammar) (p q : Progress) : Prop where
  same : q = { p with memo := q.memo }
  faithful : p.memo.Faithful g
  faithful' : q.memo.Faithful g

/-- The state in which a step ends, be it with a value or with a fault. -/
def Progress.ofResult {α : Type} : EStateM.Result Fault Progress α → Progress
  | .ok _ p => p
  | .error _ p => p

/-- The failures with which a parse may go on where the one beside it has been halted for going
too deep.  Whatever the parse goes on with, the condition stays true. -/
structure Setting.Halt (s : Setting) where
  leaves : Option Failure → Prop
  kept : ∀ {before after}, s.Leads before after → leaves before → leaves after

/-- Neither parse is halted. -/
def Setting.Halt.never (s : Setting) : s.Halt := ⟨fun _ => False, fun _ => id⟩

/-- Two steps from `before` come to the same and leave states that are alike, unless the first
is halted. -/
inductive Together {s : Setting} (halt : s.Halt) (before : Progress) {α : Type} :
    EStateM.Result Fault Progress α → EStateM.Result Fault Progress α → Prop
  | ok {value p q} (alike : p.Alike s.grammar q) (leads : s.Leads before.failure p.failure) :
      Together halt before (.ok value p) (.ok value q)
  | error {fault p q} (alike : p.Alike s.grammar q) (leads : s.Leads before.failure p.failure) :
      Together halt before (.error fault p) (.error fault q)
  | halted {p result} (leaves : halt.leaves (Progress.ofResult result).failure)
      (leads : s.Leads before.failure (Progress.ofResult result).failure)
      (faithful : (Progress.ofResult result).memo.Faithful s.grammar) :
      Together halt before (.error .tooDeep p) result

/-- From states that are alike two steps come to the same, unless the first is halted. -/
def Agree {s : Setting} (halt : s.Halt) {α : Type} (step step' : Matcher α) : Prop :=
  ∀ p q, p.Alike s.grammar q → Together halt p (step p) (step' q)

theorem Progress.Alike.refl {g : Grammar} {p : Progress} (faithful : p.memo.Faithful g) :
    p.Alike g p :=
  ⟨rfl, faithful, faithful⟩

section Agree

variable {s : Setting} {halt : s.Halt} {α β : Type} {step step' : Matcher α}

theorem Setting.Leads.trans {a b c : Option Failure} (first : s.Leads a b)
    (second : s.Leads b c) : s.Leads a c := by
  cases first with
  | stay => exact second
  | abort reason =>
      cases second
      exact .abort reason

/-- A parse that has been aborted is not taken up again. -/
theorem Setting.Leads.going {failure : Option Failure} (leads : s.Leads failure none) :
    failure = none := by
  cases leads
  rfl

/-- The second parse is not taken up again either, and what it remembers is right. -/
theorem Together.follows {before : Progress} {result result' : EStateM.Result Fault Progress α}
    (both : Together halt before result result') :
    s.Leads before.failure (Progress.ofResult result').failure ∧
      (Progress.ofResult result').memo.Faithful s.grammar := by
  cases both with
  | ok alike leads | error alike leads =>
      refine ⟨?_, alike.faithful'⟩
      rw [Progress.ofResult, alike.same]
      exact leads
  | halted leaves leads faithful => exact ⟨leads, faithful⟩

theorem agree_pure (value : α) : Agree halt (pure value) (pure value) :=
  fun _ _ alike => .ok alike (.stay _)

theorem agree_throw (fault : Fault) : Agree halt (throw fault : Matcher α) (throw fault) :=
  fun _ _ alike => .error alike (.stay _)

theorem together_bind {p q : Progress} {next next' : α → Matcher β}
    (first : Together halt p (step p) (step' q))
    (second : ∀ value, Agree halt (next value) (next' value)) :
    Together halt p ((step >>= next) p) ((step' >>= next') q) := by
  rw [bind_apply, bind_apply]
  generalize step p = result, step' q = result' at first
  cases first with
  | error after leads => exact .error after leads
  | @ok value r t after leads =>
      have rest := second value r t after
      dsimp only
      generalize next value r = result, next' value t = result' at rest
      cases rest with
      | ok last further => exact .ok last (leads.trans further)
      | error last further => exact .error last (leads.trans further)
      | halted leaves further faithful =>
          exact .halted leaves (leads.trans further) faithful
  | halted leaves leads faithful =>
      cases result' with
      | error fault t => exact .halted leaves leads faithful
      | ok value t =>
          obtain ⟨further, faithful⟩ := (second value t t (.refl faithful)).follows
          exact .halted (halt.kept further leaves) (leads.trans further) faithful

theorem agree_bind {next next' : α → Matcher β} (first : Agree halt step step')
    (second : ∀ value, Agree halt (next value) (next' value)) :
    Agree halt (step >>= next) (step' >>= next') :=
  fun p q alike => together_bind (first p q alike) second

theorem agree_map (f : α → β) (agree : Agree halt step step') :
    Agree halt (f <$> step) (f <$> step') := by
  rw [map_eq_pure_bind, map_eq_pure_bind]
  exact agree_bind agree fun _ => agree_pure _

theorem agree_ite {c : Prop} [Decidable c] {other other' : Matcher α}
    (first : Agree halt step step') (second : Agree halt other other') :
    Agree halt (if c then step else other) (if c then step' else other') := by
  split
  · exact first
  · exact second

/-- What is done with the state does not depend on what is remembered. -/
theorem agree_get {next next' : Progress → Matcher β}
    (agree : ∀ p q, p.Alike s.grammar q → Together halt p (next p p) (next' q q)) :
    Agree halt (get >>= next) (get >>= next') := agree

theorem agree_cursor : Agree halt Matcher.cursor Matcher.cursor := by
  intro p q alike
  have seen : q.cursor = p.cursor := by
    rw [alike.same]
  rw [cursor_eq, cursor_eq, seen]
  exact .ok alike (.stay _)

theorem agree_check (answer : Except Fault α) :
    Agree halt (liftM answer : Matcher α) (liftM answer) := by
  intro p q alike
  cases answer with
  | ok value => exact .ok alike (.stay _)
  | error fault => exact .error alike (.stay _)

theorem agree_move (move : Cursor.Step α) : Agree halt (liftM move : Matcher α) (liftM move) := by
  rintro p q ⟨same, faithful, faithful'⟩
  rw [same]
  cases p
  simp only [liftM, monadLift, MonadLift.monadLift]
  split
  · exact .ok ⟨rfl, faithful, faithful'⟩ (.stay _)
  · exact .error ⟨rfl, faithful, faithful'⟩ (.stay _)

/-- Questions that have the same answer. -/
theorem agree_query {query query' : Query α} {answer : Except Fault α}
    (answers : Answers s.grammar query answer) (answers' : Answers s.grammar query' answer) :
    Agree halt (liftM query : Matcher α) (liftM query') := by
  rintro p q ⟨same, faithful, faithful'⟩
  obtain ⟨after, kept, ran⟩ := answers p.memo faithful
  obtain ⟨after', kept', ran'⟩ := answers' q.memo faithful'
  cases answer with
  | ok value =>
      rw [query_eq ran, query_eq ran']
      exact .ok ⟨by rw [same], kept, kept'⟩ (.stay _)
  | error fault =>
      rw [query_eq_error ran, query_eq_error ran']
      exact .error ⟨by rw [same], kept, kept'⟩ (.stay _)

/-- A step that agrees with itself aborts the parse at most for a reason. -/
theorem Agree.ensures {p : Progress} (agree : Agree halt step step)
    (faithful : p.memo.Faithful s.grammar) :
    Ensures (fun _ => True) step p fun _ q =>
      q.memo.Faithful s.grammar ∧ s.Leads p.failure q.failure := by
  have both := agree p p ⟨rfl, faithful, faithful⟩
  unfold Ensures
  generalize step p = result at both ⊢
  cases both with
  | ok alike leads => exact ⟨alike.faithful, leads⟩
  | error => trivial
  | halted => trivial

end Agree

/-! ### Leaves -/

section Matching

open Matcher

variable {s : Setting} {halt : s.Halt} {predictor : Predictor} {attempt attempt' : Attempt}

theorem takeLeaf_agrees (id : ElementId) : Agree halt (takeLeaf id) (takeLeaf id) := by
  unfold takeLeaf
  refine agree_bind (agree_move _) fun m => agree_bind (agree_move _) fun _ => ?_
  exact agree_bind (agree_move _) fun _ => agree_pure _

theorem decline_agrees (word : TokenTypeId) : Agree halt (decline word) (decline word) := by
  rintro p q ⟨same, faithful, faithful'⟩
  rw [same]
  exact .ok ⟨rfl, faithful, faithful'⟩ (.stay _)

section Asking

variable (reliable : s.predictor.Reliable s.grammar) (reliable' : predictor.Reliable s.grammar)
  (path : Path)

include reliable reliable'

theorem mayFollow_agrees (token : TokenTypeId) :
    Agree halt (liftM (s.mayFollow path token))
      (liftM ((s.asking predictor).mayFollow path token)) :=
  agree_query (answers_mayFollow reliable _ _ _) (answers_mayFollow reliable' _ _ _)

theorem mustFollow_agrees (token : TokenTypeId) :
    Agree halt (liftM (s.mustFollow path token))
      (liftM ((s.asking predictor).mustFollow path token)) :=
  agree_query (answers_mustFollow reliable _ _ _) (answers_mustFollow reliable' _ _ _)

theorem qualifiesName_agrees (next : Option Token) :
    Agree halt (qualifiesName s path next) (qualifiesName (s.asking predictor) path next) := by
  unfold qualifiesName
  dsimp only
  cases s.grammar.vocabulary.dot? with
  | none => exact agree_pure false
  | some dot =>
      refine agree_ite (agree_pure false) ?_
      exact agree_bind (mayFollow_agrees reliable reliable' path dot) fun _ => agree_pure _

theorem lacksArguments_agrees (next : Option Token) :
    Agree halt (lacksArguments s path next) (lacksArguments (s.asking predictor) path next) := by
  unfold lacksArguments
  dsimp only
  cases s.grammar.vocabulary.leftParenthesis? with
  | none => exact agree_pure false
  | some parenthesis =>
      exact agree_ite (agree_pure false) (mustFollow_agrees reliable reliable' path parenthesis)

theorem token_agrees (id : ElementId) (type : TokenTypeId) (text : Option String)
    (flavor : Option Category) :
    Agree halt (token s id path type text flavor)
      (token (s.asking predictor) id path type text flavor) := by
  unfold token
  refine agree_bind agree_cursor fun c => ?_
  dsimp only
  cases c.current? with
  | none => exact agree_pure _
  | some current =>
      refine agree_ite (takeLeaf_agrees id) (agree_ite (agree_pure _) ?_)
      refine agree_ite (agree_pure _) (agree_bind (agree_check _) fun word => ?_)
      refine agree_ite ?_ (takeLeaf_agrees id)
      refine agree_bind (qualifiesName_agrees reliable reliable' path _) fun _ => ?_
      refine agree_ite (decline_agrees _) (agree_ite ?_ (takeLeaf_agrees id))
      refine agree_bind (lacksArguments_agrees reliable reliable' path _) fun _ => ?_
      exact agree_ite (decline_agrees _) (takeLeaf_agrees id)

theorem acceptsReservedWord_agrees (id : ElementId) (word : TokenTypeId) :
    Agree halt (acceptsReservedWord s id path word)
      (acceptsReservedWord (s.asking predictor) id path word) := by
  unfold acceptsReservedWord
  refine agree_get fun p q alike => ?_
  have waved : q.isWaved word = p.isWaved word := by
    rw [alike.same]
    rfl
  rw [waved]
  refine agree_ite (agree_pure true) ?_ p q alike
  refine agree_bind (agree_check _) fun element => agree_ite (agree_pure true) ?_
  refine agree_bind (agree_check _) fun enclosing => agree_ite (agree_pure true) ?_
  refine agree_bind agree_cursor fun c => ?_
  cases c.peek? 1 with
  | none => exact agree_pure true
  | some next => exact mayFollow_agrees reliable reliable' path next.kind

theorem identifier_agrees (id : ElementId) :
    Agree halt (identifier s id path) (identifier (s.asking predictor) id path) := by
  unfold identifier
  refine agree_bind agree_cursor fun c => ?_
  dsimp only
  cases c.current? with
  | none => exact agree_pure _
  | some current =>
      refine agree_ite (takeLeaf_agrees id) (agree_bind (agree_check _) fun type => ?_)
      refine agree_ite (takeLeaf_agrees id) (agree_ite ?_ (agree_pure _))
      refine agree_bind (acceptsReservedWord_agrees reliable reliable' path id _) fun _ => ?_
      exact agree_ite (takeLeaf_agrees id) (agree_pure _)

end Asking

/-! ### Composites -/

/-- Attempts that agree on every element and path. -/
def Attempt.Agrees {s : Setting} (halt : s.Halt) (attempt attempt' : Attempt) : Prop :=
  ∀ id path, Agree halt (attempt id path) (attempt' id path)

section Parts

variable (alike : Attempt.Agrees halt attempt attempt') (path : Path)

theorem expected_agrees (code : DiagnosticCode) (id : ElementId) :
    Agree halt (expected s code id) (expected (s.asking predictor) code id) := by
  unfold expected
  refine agree_bind agree_cursor fun c => agree_bind (agree_check _) fun found => ?_
  exact agree_move _

theorem expectedHere_agrees (id : ElementId) :
    Agree halt (expectedHere s id) (expectedHere (s.asking predictor) id) := by
  unfold expectedHere
  exact agree_bind (agree_check _) fun code => expected_agrees code id

include alike

theorem fillSlots_agrees (slots : List (Slot ElementId)) (index tokens : Nat) :
    Agree halt (fillSlots s attempt path slots index tokens)
      (fillSlots (s.asking predictor) attempt' path slots index tokens) := by
  induction slots generalizing index tokens with
  | nil => exact agree_pure _
  | cons slot rest ih =>
      unfold fillSlots
      refine agree_ite (ih _ _) (agree_bind (alike _ _) fun outcome => ?_)
      cases outcome with
      | fullMatch n => exact ih _ _
      | partialMatch n => exact agree_pure _
      | noMatch =>
          refine agree_ite (ih _ _) (agree_ite (agree_pure _) ?_)
          exact agree_bind (expectedHere_agrees _) fun _ => agree_pure _

theorem sequence_agrees (id : ElementId) (slots : List (Slot ElementId)) :
    Agree halt (Matcher.sequence s attempt path id slots)
      (Matcher.sequence (s.asking predictor) attempt' path id slots) := by
  unfold Matcher.sequence
  refine agree_bind (agree_move _) fun m => ?_
  refine agree_bind (fillSlots_agrees alike path slots 0 0) fun tally => agree_ite ?_ ?_
  · exact agree_bind (agree_move _) fun _ => agree_pure _
  · exact agree_bind (agree_move _) fun _ => agree_pure _

theorem content_agrees (slot : Slot ElementId) :
    Agree halt (content s attempt path slot) (content (s.asking predictor) attempt' path slot) := by
  unfold content
  exact agree_ite (alike _ _) (agree_pure _)

omit alike in
theorem addContent_agrees (slot : Slot ElementId) (opened : Nat) (outcome : Outcome) :
    Agree halt (addContent s slot opened outcome)
      (addContent (s.asking predictor) slot opened outcome) := by
  unfold addContent
  cases outcome with
  | noMatch =>
      exact agree_ite (agree_pure _) (agree_bind (expectedHere_agrees _) fun _ => agree_pure _)
  | _ => exact agree_pure _

theorem closeAll_agrees (closing : ElementId) (opened : List TextRange) :
    Agree halt (closeAll attempt path closing opened) (closeAll attempt' path closing opened) := by
  induction opened with
  | nil => exact agree_pure _
  | cons range outer ih =>
      unfold closeAll
      refine agree_bind (alike _ _) fun outcome => agree_ite ?_ (agree_pure _)
      exact agree_bind ih fun _ => agree_pure _

theorem close_agrees (closing : ElementId) (opened : List TextRange) (tally : Tally) :
    Agree halt (close s attempt path closing opened tally)
      (close (s.asking predictor) attempt' path closing opened tally) := by
  unfold close
  refine agree_bind (closeAll_agrees alike path closing opened) fun result => ?_
  rcases result with ⟨closed, _ | ⟨innermost, others⟩⟩
  · exact agree_pure _
  · refine agree_ite ?_ (agree_pure _)
    refine agree_bind (agree_bind (expected_agrees _ _) fun _ => agree_move _) fun _ => ?_
    exact agree_pure _

theorem finish_agrees (m : Mark) (id closing : ElementId) (opened : List TextRange)
    (tally : Tally) :
    Agree halt (do
        let tally ← close s attempt path closing opened tally
        Cursor.complete m id
        return tally.outcome)
      (do
        let tally ← close (s.asking predictor) attempt' path closing opened tally
        Cursor.complete m id
        return tally.outcome) := by
  refine agree_bind (close_agrees alike path closing opened tally) fun closed => ?_
  exact agree_bind (agree_move _) fun _ => agree_pure _

theorem enclose_agrees (m : Mark) (id : ElementId) (slot : Slot ElementId) (closing : ElementId)
    (range : TextRange) :
    Agree halt (do
        let tally ←
          if slot.isActive s.options.version then
            addContent s slot 1 (← content s attempt path slot)
          else pure ⟨1, true⟩
        let tally ← close s attempt path closing [range] tally
        Cursor.complete m id
        return tally.outcome)
      (do
        let tally ←
          if slot.isActive s.options.version then
            addContent (s.asking predictor) slot 1 (← content (s.asking predictor) attempt' path slot)
          else pure ⟨1, true⟩
        let tally ← close (s.asking predictor) attempt' path closing [range] tally
        Cursor.complete m id
        return tally.outcome) := by
  refine agree_ite ?_ (agree_bind (agree_pure _) (finish_agrees alike path m id closing [range]))
  refine agree_bind (content_agrees alike path slot) fun outcome => ?_
  exact agree_bind (addContent_agrees slot 1 outcome) (finish_agrees alike path m id closing [range])

theorem wrapper_agrees (id opening : ElementId) (slot : Slot ElementId) (closing : ElementId) :
    Agree halt (wrapper s attempt path id opening slot closing)
      (wrapper (s.asking predictor) attempt' path id opening slot closing) := by
  unfold wrapper
  refine agree_bind (agree_move _) fun m => agree_bind agree_cursor fun c => ?_
  refine agree_bind (agree_check _) fun range => agree_bind (alike _ _) fun outcome => ?_
  refine agree_ite ?_ (enclose_agrees alike path m id slot closing range)
  exact agree_bind (agree_move _) fun _ => agree_pure _

theorem openAll_agrees (opening : ElementId) (rounds : Nat) (opened : List TextRange) :
    Agree halt (openAll attempt path opening rounds opened)
      (openAll attempt' path opening rounds opened) := by
  induction rounds generalizing opened with
  | zero => exact agree_throw _
  | succ rounds ih =>
      unfold openAll
      refine agree_bind agree_cursor fun c => agree_bind (agree_check _) fun range => ?_
      exact agree_bind (alike _ _) fun outcome => agree_ite (ih _) (agree_pure _)

theorem balanced_agrees (id opening : ElementId) (slot : Slot ElementId) (closing : ElementId) :
    Agree halt (balanced s attempt path id opening slot closing)
      (balanced (s.asking predictor) attempt' path id opening slot closing) := by
  unfold balanced
  refine agree_bind (agree_move _) fun m => agree_bind agree_cursor fun c => ?_
  refine agree_bind (openAll_agrees alike path opening _ _) fun opened => ?_
  refine agree_bind (content_agrees alike path slot) fun outcome => agree_ite ?_ ?_
  · refine agree_ite ?_ ?_
    · exact agree_bind (agree_move _) fun _ => agree_pure _
    · exact agree_bind (agree_move _) fun _ => agree_pure _
  · exact agree_bind (addContent_agrees slot _ outcome) (finish_agrees alike path m id closing opened)

theorem repeatItem_agrees (item : ElementId) (separator : Option ElementId) (rounds tokens : Nat) :
    Agree halt (repeatItem s attempt path item separator rounds tokens)
      (repeatItem (s.asking predictor) attempt' path item separator rounds tokens) := by
  induction rounds generalizing tokens with
  | zero => exact agree_throw _
  | succ rounds ih =>
      unfold repeatItem
      cases separator with
      | none =>
          refine agree_bind (alike _ _) fun outcome => ?_
          cases outcome with
          | fullMatch n => exact ih _
          | _ => exact agree_pure _
      | some between =>
          refine agree_bind (alike _ _) fun separated => agree_ite (agree_pure _) ?_
          refine agree_bind (alike _ _) fun outcome => ?_
          cases outcome with
          | fullMatch n => exact ih _
          | partialMatch n => exact agree_pure _
          | noMatch => exact agree_bind (expected_agrees _ _) fun _ => agree_pure _

theorem iteration_agrees (id item : ElementId) (separator : Option ElementId) :
    Agree halt (iteration s attempt path id item separator)
      (iteration (s.asking predictor) attempt' path id item separator) := by
  unfold iteration
  refine agree_bind (agree_move _) fun m => agree_bind (alike _ _) fun outcome => ?_
  cases outcome with
  | noMatch => exact agree_bind (agree_move _) fun _ => agree_pure _
  | partialMatch n => exact agree_bind (agree_move _) fun _ => agree_pure _
  | fullMatch n =>
      refine agree_bind agree_cursor fun c => ?_
      refine agree_bind (repeatItem_agrees alike path item separator _ n) fun tally => ?_
      exact agree_bind (agree_move _) fun _ => agree_pure _

omit alike in
theorem missingPart_agrees (report : Bool) (id : ElementId) :
    Agree halt (missingPart s report id) (missingPart (s.asking predictor) report id) := by
  unfold missingPart
  exact agree_ite (expected_agrees _ _) (agree_pure _)

theorem matchParts_agrees (separator : ElementId) (report : Bool) (parts : List ElementId)
    (index tokens : Nat) :
    Agree halt (matchParts s attempt path separator report parts index tokens)
      (matchParts (s.asking predictor) attempt' path separator report parts index tokens) := by
  induction parts generalizing index tokens with
  | nil => exact agree_pure _
  | cons part rest ih =>
      unfold matchParts
      dsimp only
      refine agree_ite (agree_bind (agree_pure true) fun separated => ?_)
        (agree_bind (agree_map _ (alike separator _)) fun separated => ?_)
      all_goals
        refine agree_ite ?_ (agree_bind (alike _ _) fun outcome => agree_ite ?_ (ih _ _))
        · exact agree_bind (missingPart_agrees report separator) fun _ => agree_pure _
        · exact agree_bind (missingPart_agrees report part) fun _ => agree_pure _

theorem tryVariants_agrees (separator : ElementId) (variants : List (List ElementId))
    (best : Option (Outcome × List ElementId)) :
    Agree halt (tryVariants s attempt path separator variants best)
      (tryVariants (s.asking predictor) attempt' path separator variants best) := by
  induction variants generalizing best with
  | nil => exact agree_pure _
  | cons variant rest ih =>
      unfold tryVariants
      refine agree_bind (agree_move _) fun m => ?_
      refine agree_bind (matchParts_agrees alike path separator false variant 0 0) fun outcome => ?_
      refine agree_ite (agree_bind (agree_move _) fun _ => agree_pure _) ?_
      exact agree_bind (agree_move _) fun _ => agree_ite (ih _) (ih _)

theorem qualified_agrees (id : ElementId) (variants : List (List ElementId))
    (separator : ElementId) :
    Agree halt (qualified s attempt path id variants separator)
      (qualified (s.asking predictor) attempt' path id variants separator) := by
  unfold qualified
  refine agree_bind (agree_move _) fun m => ?_
  refine agree_bind (tryVariants_agrees alike path separator _ none) fun answer => ?_
  rcases answer with outcome | _ | ⟨outcome, variant⟩
  · exact agree_bind (agree_move _) fun _ => agree_pure _
  · exact agree_bind (agree_move _) fun _ => agree_pure _
  · refine agree_bind (matchParts_agrees alike path separator true variant 0 0) fun outcome => ?_
    exact agree_bind (agree_move _) fun _ => agree_pure _

end Parts

section Elements

variable (reliable : s.predictor.Reliable s.grammar) (reliable' : predictor.Reliable s.grammar)
  (selective : predictor.selective = s.predictor.selective)

include reliable reliable' selective

theorem admits_agrees (unfiltered : Bool) (current : TokenTypeId) (slot : Slot ElementId) :
    Agree halt (admits s unfiltered current slot)
      (admits (s.asking predictor) unfiltered current slot) := by
  unfold admits
  dsimp only
  rw [selective]
  refine agree_ite (agree_pure _) (agree_ite (agree_pure _) ?_)
  exact agree_query (answers_couldStart reliable _ _) (answers_couldStart reliable' _ _)

omit reliable reliable' selective in
/-- What is done with an alternative that was tried, if the others are tried alike. -/
theorem keep_agrees {path : Path} {unfiltered : Bool} {current : TokenTypeId}
    {rest : List (Slot ElementId)} {index : Nat}
    (others : ∀ best, Agree halt (tryAlternatives s attempt path unfiltered current rest index best)
      (tryAlternatives (s.asking predictor) attempt' path unfiltered current rest index best))
    (m : Mark) (outcome : Outcome) (best : Option (Outcome × Snapshot)) :
    Agree halt (do
        if outcome.isFull then
          Cursor.release m
          return .inl outcome
        if (← get).scan && outcome.isPartial && improves outcome best then
          let snapshot ← Cursor.takeBack m
          tryAlternatives s attempt path unfiltered current rest index (some (outcome, snapshot))
        else do
          Cursor.rollback m
          tryAlternatives s attempt path unfiltered current rest index best)
      (do
        if outcome.isFull then
          Cursor.release m
          return .inl outcome
        if (← get).scan && outcome.isPartial && improves outcome best then
          let snapshot ← Cursor.takeBack m
          tryAlternatives (s.asking predictor) attempt' path unfiltered current rest index
            (some (outcome, snapshot))
        else do
          Cursor.rollback m
          tryAlternatives (s.asking predictor) attempt' path unfiltered current rest index best) := by
  refine agree_ite ?_ ?_
  · exact agree_bind (agree_move _) fun _ => agree_pure _
  · refine agree_get fun p q states => ?_
    have scanning : q.scan = p.scan := by
      rw [states.same]
    rw [scanning]
    refine agree_ite ?_ ?_ p q states
    · exact agree_bind (agree_move _) fun _ => others _
    · exact agree_bind (agree_move _) fun _ => others _

theorem tryAlternatives_agrees (alike : Attempt.Agrees halt attempt attempt') (path : Path)
    (unfiltered : Bool) (current : TokenTypeId) (slots : List (Slot ElementId)) (index : Nat)
    (best : Option (Outcome × Snapshot)) :
    Agree halt (tryAlternatives s attempt path unfiltered current slots index best)
      (tryAlternatives (s.asking predictor) attempt' path unfiltered current slots index best) := by
  induction slots generalizing index best with
  | nil => exact agree_pure _
  | cons slot rest ih =>
      unfold tryAlternatives
      refine agree_bind (admits_agrees reliable reliable' selective _ _ _) fun admitted => ?_
      refine agree_ite (ih _ _) (agree_bind (agree_move _) fun m => ?_)
      exact agree_bind (alike _ _) fun outcome => keep_agrees (ih _) m outcome best

theorem oneOf_agrees (alike : Attempt.Agrees halt attempt attempt') (path : Path) (id : ElementId) :
    Agree halt (oneOf s attempt path id) (oneOf (s.asking predictor) attempt' path id) := by
  unfold oneOf
  refine agree_bind (agree_query (reliable.children id) (reliable'.children id)) fun order => ?_
  refine agree_bind agree_cursor fun c => ?_
  dsimp only
  cases c.current? with
  | none => exact agree_pure _
  | some current =>
      refine agree_bind (agree_check _) fun type => ?_
      refine agree_bind (tryAlternatives_agrees reliable reliable' selective alike path _ _ _ _ _)
        fun answer => ?_
      rcases answer with outcome | _ | ⟨outcome, snapshot⟩
      · exact agree_pure _
      · exact agree_pure _
      · exact agree_bind (agree_move _) fun _ => agree_pure _

theorem matchKind_agrees (alike : Attempt.Agrees halt attempt attempt') (id : ElementId)
    (path : Path) (kind : Kind ElementId) :
    Agree halt (matchKind s attempt id path kind)
      (matchKind (s.asking predictor) attempt' id path kind) := by
  cases kind with
  | token type text flavor => exact token_agrees reliable reliable' path id type text flavor
  | identifier use isAlias object => exact identifier_agrees reliable reliable' path id
  | sequence slots => exact sequence_agrees alike path id slots
  | wrapper opening slot closing repeated =>
      cases repeated with
      | false => exact wrapper_agrees alike path id opening slot closing
      | true => exact balanced_agrees alike path id opening slot closing
  | oneOf alternatives sortable =>
      exact oneOf_agrees reliable reliable' selective alike path id
  | iteration item separator => exact iteration_agrees alike path id item separator
  | qualified variants separator => exact qualified_agrees alike path id variants separator
  | reference target => exact alike target path

omit reliable reliable' selective in
theorem enter_agrees : Agree halt (enter s) (enter (s.asking predictor)) := by
  rintro p q ⟨same, faithful, faithful'⟩
  rw [same]
  unfold enter
  rw [bind_apply, bind_apply, get_apply, get_apply]
  dsimp only
  cases failed : p.failure with
  | some failure => exact .ok ⟨by rw [failed], faithful, faithful'⟩ (.stay _)
  | none =>
      have going : s.Leads p.failure none := failed ▸ .stay _
      simp only [Option.isSome_none, Bool.false_eq_true, if_false]
      by_cases withdrawn : s.cancelled = true
      · rw [if_pos withdrawn, if_pos withdrawn]
        exact .ok ⟨rfl, faithful, faithful'⟩ (going.trans (.abort (.cancelled withdrawn)))
      · have running : s.cancelled = false := by simpa using withdrawn
        rw [if_neg withdrawn, if_neg withdrawn]
        by_cases deep : s.options.maxDepth ≤ p.depth
        · rw [if_pos deep, if_pos deep]
          exact .ok ⟨rfl, faithful, faithful'⟩ (going.trans (.abort (.depthExceeded running)))
        · rw [if_neg deep, if_neg deep]
          exact .ok ⟨rfl, faithful, faithful'⟩ going

omit reliable reliable' selective in
theorem leave_agrees : Agree halt leave leave := by
  rintro p q ⟨same, faithful, faithful'⟩
  rw [same]
  unfold leave
  rw [bind_apply, bind_apply, get_apply, get_apply]
  dsimp only
  split
  · exact .error ⟨rfl, faithful, faithful'⟩ (.stay _)
  · exact .ok ⟨rfl, faithful, faithful'⟩ (.stay _)

/-- **Matching does not depend on where predictions come from**, as long as they are right. -/
theorem matchElement_agrees (levels : Nat) :
    Attempt.Agrees halt (matchElement s levels) (matchElement (s.asking predictor) levels) := by
  induction levels with
  | zero =>
      intro id path
      refine agree_bind enter_agrees fun entered => agree_ite ?_ (agree_pure _)
      exact agree_bind (agree_throw _) fun _ => agree_pure _
  | succ levels ih =>
      intro id path
      refine agree_bind enter_agrees fun entered => agree_ite ?_ (agree_pure _)
      refine agree_bind (agree_check _) fun element => ?_
      refine agree_bind (matchKind_agrees reliable reliable' selective ih id _ _) fun outcome => ?_
      exact agree_bind leave_agrees fun _ => agree_pure _

omit reliable' selective in
/-- A run aborts the parse for no other reason than the setting gives. -/
theorem run_leads {root : ElementId} {p last : Progress} {outcome : Outcome}
    (faithful : p.memo.Faithful s.grammar) (runs : run s root [] p = .ok outcome last) :
    s.Leads p.failure last.failure := by
  have itself : Together (.never s) p (run s root [] p) (run s root [] p) :=
    matchElement_agrees reliable reliable rfl s.options.maxDepth root [] p p (.refl faithful)
  rw [runs] at itself
  exact itself.follows.1

omit reliable reliable' selective in
theorem reportLeftOver_agrees : Agree halt reportLeftOver reportLeftOver := by
  unfold reportLeftOver
  refine agree_bind agree_cursor fun c => ?_
  cases c.current? with
  | none => exact agree_pure _
  | some token =>
      refine agree_bind (agree_check _) fun range => agree_bind (agree_check _) fun stop => ?_
      exact agree_bind (agree_check _) fun rest => agree_move _

omit reliable reliable' selective in
/-- Matching the root comes to the same if running it does. -/
theorem matchRoot_together {s' : Setting} {root : ElementId} {p q : Progress}
    (alike : p.Alike s.grammar q)
    (runs : Together halt p (run s root [] p) (run s' root [] q)) :
    Together halt p (matchRoot s root p) (matchRoot s' root q) := by
  have seen : q.cursor = p.cursor := by
    rw [alike.same]
  unfold matchRoot
  rw [bind_apply, bind_apply, cursor_eq, cursor_eq, seen]
  dsimp only
  cases p.cursor.currentRange with
  | error fault => exact .error alike (.stay _)
  | ok range =>
      change Together halt p ((run s root [] >>= _) p) ((run s' root [] >>= _) q)
      exact together_bind runs fun outcome => agree_ite
        (agree_bind reportLeftOver_agrees fun _ => agree_pure _) (agree_pure _)

omit reliable reliable' selective in
/-- A parse of the same grammar that begins in the same way comes to the same, whatever is
remembered, if running its root does. -/
theorem parseFrom_together (s' : Setting) (grammar : s'.grammar = s.grammar)
    (begins : Progress.start s' = Progress.start s) {root : ElementId} {tokens : Array Token}
    {memo memo' : Memo} (faithful : memo.Faithful s.grammar) (faithful' : memo'.Faithful s.grammar)
    (runs : ∀ p q, Progress.start s memo tokens = .ok p → Progress.start s memo' tokens = .ok q →
      p.Alike s.grammar q → Together (.never s) p (run s root [] p) (run s' root [] q)) :
    ∃ after, after.Faithful s.grammar ∧ Grammar.parseFrom s' root tokens memo' =
      match answerWith (Grammar.parseFrom s root tokens) memo with
      | .ok answer => .ok answer after
      | .error fault => .error fault after := by
  unfold answerWith Grammar.parseFrom
  rw [begins, grammar]
  unfold Progress.start
  cases fresh : Cursor.ofTokens s.grammar.vocabulary tokens s.options.placeholder with
  | error fault => exact ⟨memo', faithful', rfl⟩
  | ok opened =>
      have alike : Progress.Alike s.grammar ⟨opened, 0, s.options.recovery, [], none, memo⟩
          ⟨opened, 0, s.options.recovery, [], none, memo'⟩ := ⟨rfl, faithful, faithful'⟩
      have both := matchRoot_together alike
        (runs _ _ (bind_eq_ok.2 ⟨opened, fresh, rfl⟩) (bind_eq_ok.2 ⟨opened, fresh, rfl⟩) alike)
      simp only [bind, Except.bind, pure, Except.pure]
      generalize matchRoot s root _ = result, matchRoot s' root _ = result' at both ⊢
      cases both with
      | halted never => exact never.elim
      | error alike => exact ⟨_, alike.faithful', rfl⟩
      | @ok value p q alike =>
          have concluded : s.grammar.conclude q value.1 value.2 =
              s.grammar.conclude p value.1 value.2 := by
            rw [alike.same]
            rfl
          refine ⟨q.memo, alike.faithful', ?_⟩
          dsimp only
          rw [concluded]
          cases s.grammar.conclude p value.1 value.2 <;> rfl

/-- **A parse has one answer**, wherever its predictions come from and whatever was remembered
before: the one it has with nothing remembered. -/
theorem answers_parseFrom (root : ElementId) (tokens : Array Token) :
    Answers s.grammar (Grammar.parseFrom (s.asking predictor) root tokens)
      (answerWith (Grammar.parseFrom s root tokens) s.grammar.blankMemo) := by
  intro memo faithful
  obtain ⟨after, kept, parsed⟩ := parseFrom_together (s := s) (s.asking predictor) rfl rfl
    (Memo.blank_faithful s.grammar) faithful
    fun p q _ _ alike => matchElement_agrees reliable reliable' selective _ root [] p q alike
  refine ⟨after, kept, parsed.trans ?_⟩
  cases answerWith (Grammar.parseFrom s root tokens) s.grammar.blankMemo <;> rfl

end Elements

end Matching

end Dialect
