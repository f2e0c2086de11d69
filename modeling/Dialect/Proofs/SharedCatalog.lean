import Dialect.Catalog
import Mathlib.Data.List.Induction

/-!
# A catalog in shared use

Any number of callers may use one catalog, one after the other or at the same time.  What a
caller asks for is carried out in atomic steps (`Call.step`).  A look-up, an insertion and a
removal are one step each.  Loading a grammar takes up to three: the caller looks whether one
is there, makes one if not, and then stores it unless there is one by now.  Between two steps
of a call any number of steps of others may come, so a run is any sequence of calls begun and
of steps taken (`run`).  The steps are the right ones: where nobody comes between, a call does to
the catalog what it does in one go (`run_alone`).

Those who race for a dialect all get one grammar (`loaders_agree`): a step of a loading call
replaces nothing, hands out what the catalog holds afterwards, and leaves it alone if the
grammar cannot be made.  As long as the dialect is neither inserted nor removed, whatever was
handed out under it is still what the catalog holds (`Settled`).
-/

set_option autoImplicit false

namespace Dialect.Catalog

/-! ### Calls and their steps -/

/-- What a caller asks of the catalog. -/
inductive Request where
  | get (dialect : String)
  | getOrLoad (dialect : String) (load : Unit → Except DefinitionError Grammar)
  | insert (g : Grammar)
  | remove (dialect : String)

/-- The name whose entry a request is about. -/
def Request.dialect : Request → String
  | .get dialect => dialect
  | .getOrLoad dialect _ => dialect
  | .insert g => g.vocabulary.dialect
  | .remove dialect => dialect

/-- Whether a request puts a grammar in place of another or takes one out. -/
def Request.overrides : Request → Bool
  | .get _ => false
  | .getOrLoad _ _ => false
  | .insert _ => true
  | .remove _ => true

/-- What a caller is told in the end: the grammar under the name, if there is one, or why
none could be made. -/
abbrev Answer := Except DefinitionError (Option Loaded)

/-- How far a call has come. -/
inductive Call where
  /-- Nothing has been done yet. -/
  | asked (request : Request)
  /-- No grammar was there, and none has been made yet. -/
  | loading (dialect : String) (load : Unit → Except DefinitionError Grammar)
  /-- A grammar has been made, but not stored. -/
  | storing (dialect : String) (load : Unit → Except DefinitionError Grammar) (made : Loaded)
  /-- The caller has its answer. -/
  | answered (request : Request) (answer : Answer)

namespace Call

/-- What was asked for. -/
def request : Call → Request
  | .asked request => request
  | .loading dialect load => .getOrLoad dialect load
  | .storing dialect load _ => .getOrLoad dialect load
  | .answered request _ => request

/-- What the caller was told, if the call is over. -/
def answer? : Call → Option Answer
  | .answered _ answer => some answer
  | _ => none

/-- The next atomic step of a call. -/
def step (c : Catalog) : Call → Call × Catalog
  | .asked (.get dialect) => (.answered (.get dialect) (.ok (c.get? dialect)), c)
  | .asked (.getOrLoad dialect load) =>
      match c.get? dialect with
      | some present => (.answered (.getOrLoad dialect load) (.ok (some present)), c)
      | none => (.loading dialect load, c)
  | .asked (.insert g) =>
      let (loaded, c) := c.insert g
      (.answered (.insert g) (.ok (some loaded)), c)
  | .asked (.remove dialect) =>
      let (removed, c) := c.remove dialect
      (.answered (.remove dialect) (.ok removed), c)
  | .loading dialect load =>
      match load () with
      | .error refusal => (.answered (.getOrLoad dialect load) (.error refusal), c)
      | .ok g =>
          let (made, c) := c.issue g
          (.storing dialect load made, c)
  | .storing dialect load made =>
      let (stored, c) := c.settle dialect made
      (.answered (.getOrLoad dialect load) (.ok (some stored)), c)
  | .answered request answer => (.answered request answer, c)

end Call

/-- A catalog and the calls on it, in the order in which they were begun. -/
structure Usage where
  catalog : Catalog
  calls : List Call

/-- What can happen next: someone else calls, or a call takes its next step. -/
inductive Move where
  | begin (request : Request)
  | advance (place : Nat)

/-- Whether a move puts a grammar in place of another under the given name or takes it out. -/
def Move.overrides (dialect : String) : Move → Bool
  | .begin request => request.overrides && request.dialect == dialect
  | .advance _ => false

/-- One move. -/
def Usage.move (u : Usage) : Move → Usage
  | .begin request => { u with calls := u.calls ++ [.asked request] }
  | .advance place =>
      match u.calls[place]? with
      | none => u
      | some call => ⟨(call.step u.catalog).2, u.calls.set place (call.step u.catalog).1⟩

/-- What a sequence of moves comes to when nobody has called before. -/
def run (c : Catalog) (moves : List Move) : Usage := moves.foldl Usage.move ⟨c, []⟩

/-! ### Calls that nobody comes between -/

/-- A request carried out in one go. -/
def Request.carryOut (c : Catalog) : Request → Answer × Catalog
  | .get dialect => (.ok (c.get? dialect), c)
  | .getOrLoad dialect load => ((c.getOrLoad dialect load).1.map some, (c.getOrLoad dialect load).2)
  | .insert g => (.ok (some (c.insert g).1), (c.insert g).2)
  | .remove dialect => (.ok (c.remove dialect).1, (c.remove dialect).2)

/-- The steps of a call that nobody comes between carry out the request. -/
theorem run_alone (c : Catalog) (request : Request) :
    run c [.begin request, .advance 0, .advance 0, .advance 0] =
      ⟨(request.carryOut c).2, [.answered request (request.carryOut c).1]⟩ := by
  cases request with
  | getOrLoad dialect load =>
      simp only [run, List.foldl, Usage.move, List.nil_append, List.getElem?_cons_zero,
        List.set_cons_zero, Call.step, Request.carryOut, getOrLoad]
      cases c.get? dialect with
      | some present => rfl
      | none =>
          cases made : load () with
          | error refusal => simp only [made]; rfl
          | ok g => simp only [made]; rfl
  | _ => rfl

/-! ### What one step does -/

@[simp] theorem get?_put (c : Catalog) (dialect name : String) (loaded : Loaded) :
    (c.put dialect loaded).get? name = if dialect = name then some loaded else c.get? name := by
  simp [get?, put, Std.TreeMap.getElem?_insert]

@[simp] theorem get?_issue (c : Catalog) (g : Grammar) (name : String) :
    (c.issue g).2.get? name = c.get? name := rfl

theorem get?_remove (c : Catalog) (dialect name : String) :
    (c.remove dialect).2.get? name = if dialect = name then none else c.get? name := by
  simp [get?, remove, Std.TreeMap.getElem?_erase]

/-- The two ways to store what was made: something is there by now, or nothing is. -/
theorem settle_cases (c : Catalog) (dialect : String) (made : Loaded) :
    (∃ present, c.get? dialect = some present ∧ c.settle dialect made = (present, c)) ∨
      (c.get? dialect = none ∧ c.settle dialect made = (made, c.put dialect made)) := by
  unfold settle
  cases found : c.get? dialect with
  | some present => exact .inl ⟨present, rfl, rfl⟩
  | none => exact .inr ⟨rfl, rfl⟩

theorem get?_settle_self (c : Catalog) (dialect : String) (made : Loaded) :
    (c.settle dialect made).2.get? dialect = some (c.settle dialect made).1 := by
  obtain ⟨present, found, stored⟩ | ⟨-, stored⟩ := settle_cases c dialect made
  · rw [stored, found]
  · simp [stored]

theorem get?_settle_of_ne (c : Catalog) {dialect name : String} (made : Loaded)
    (other : name ≠ dialect) : (c.settle dialect made).2.get? name = c.get? name := by
  obtain ⟨present, -, stored⟩ | ⟨-, stored⟩ := settle_cases c dialect made
  · rw [stored]
  · simp [stored, other.symm]

/-- What is there stays when something is stored beside it. -/
theorem get?_settle_of_some {c : Catalog} {name : String} {present : Loaded}
    (found : c.get? name = some present) (dialect : String) (made : Loaded) :
    (c.settle dialect made).2.get? name = some present := by
  by_cases same : name = dialect
  · subst same
    obtain ⟨settled, found', stored⟩ | ⟨vacant, -⟩ := settle_cases c name made
    · rw [stored, ← found]
    · simp [found] at vacant
  · rw [get?_settle_of_ne c made same, found]

namespace Call

variable {c : Catalog} {call : Call}

@[simp] theorem request_step (c : Catalog) (call : Call) :
    (call.step c).1.request = call.request := by
  cases call with
  | asked asked =>
      cases asked with
      | getOrLoad dialect load => simp only [step]; cases c.get? dialect <;> rfl
      | _ => rfl
  | loading dialect load => simp only [step]; cases load () <;> rfl
  | storing dialect load made => rfl
  | answered asked answer => rfl

/-- A call that is over does nothing any more. -/
theorem step_of_answered {answer : Answer} (ended : call.answer? = some answer) :
    call.step c = (call, c) := by
  cases call with
  | answered asked told => rfl
  | _ => cases ended

/-- Whatever is asked for, entries under other names stay as they are. -/
theorem get?_step_of_ne {name : String} (other : name ≠ call.request.dialect) :
    (call.step c).2.get? name = c.get? name := by
  cases call with
  | asked asked =>
      cases asked with
      | get dialect => rfl
      | getOrLoad dialect load => simp only [step]; cases c.get? dialect <;> rfl
      | insert g => exact (get?_put _ _ _ _).trans (if_neg other.symm)
      | remove dialect => exact (get?_remove _ _ _).trans (if_neg other.symm)
  | loading dialect load => simp only [step]; cases load () <;> rfl
  | storing dialect load made => exact get?_settle_of_ne c made other
  | answered asked answer => rfl

/-- Only insertions and removals replace what is there. -/
theorem get?_step_of_some (keeps : call.request.overrides = false) {name : String}
    {present : Loaded} (found : c.get? name = some present) :
    (call.step c).2.get? name = some present := by
  cases call with
  | asked asked =>
      cases asked with
      | get dialect => exact found
      | getOrLoad dialect load => simp only [step]; cases c.get? dialect <;> exact found
      | insert g => cases keeps
      | remove dialect => cases keeps
  | loading dialect load => simp only [step]; cases load () <;> exact found
  | storing dialect load made => exact get?_settle_of_some found dialect made
  | answered asked answer => exact found

/-- A look-up hands out what is there. -/
theorem answer_get {dialect : String} (asks : call.request = .get dialect)
    (still : call.answer? = none) :
    (call.step c).1.answer? = some (.ok (c.get? dialect)) ∧ (call.step c).2 = c := by
  cases call with
  | asked asked => cases asks; exact ⟨rfl, rfl⟩
  | answered asked answer => cases still
  | _ => cases asks

/-- The last step of a loading call hands out what the catalog then holds, or tells why no
grammar could be made and leaves the catalog as it is. -/
theorem answer_getOrLoad {dialect : String} {load : Unit → Except DefinitionError Grammar}
    (asks : call.request = .getOrLoad dialect load) (still : call.answer? = none)
    {answer : Answer} (told : (call.step c).1.answer? = some answer) :
    (∃ stored, answer = .ok (some stored) ∧ (call.step c).2.get? dialect = some stored) ∨
      (∃ refusal, answer = .error refusal ∧ load () = .error refusal ∧
        (call.step c).2 = c) := by
  cases call with
  | asked asked =>
      cases asks
      simp only [step] at told ⊢
      cases found : c.get? dialect with
      | some present => simp_all [answer?]
      | none => simp_all [answer?]
  | loading dialect' load' =>
      cases asks
      simp only [step] at told ⊢
      cases made : load () with
      | error refusal => simp_all [answer?]
      | ok g => simp_all [answer?]
  | storing dialect' load' made =>
      cases asks
      cases told
      exact .inl ⟨_, rfl, get?_settle_self c dialect made⟩
  | answered asked answer => cases still

/-- What a look-up or a loading call hands out is what the catalog then holds. -/
theorem get?_of_handed (keeps : call.request.overrides = false) (still : call.answer? = none)
    {loaded : Loaded} (told : (call.step c).1.answer? = some (.ok (some loaded))) :
    (call.step c).2.get? call.request.dialect = some loaded := by
  cases asks : call.request with
  | get dialect =>
      obtain ⟨answered, same⟩ := answer_get (c := c) asks still
      rw [told] at answered
      rw [same]
      exact (Except.ok.inj (Option.some.inj answered)).symm
  | getOrLoad dialect load =>
      obtain ⟨stored, same, holds⟩ | ⟨refusal, same, -⟩ := answer_getOrLoad asks still told
      · cases same; exact holds
      · cases same
  | insert g => rw [asks] at keeps; cases keeps
  | remove dialect => rw [asks] at keeps; cases keeps

/-- What waits to be stored has been made as the call asks. -/
def Stems : Call → Prop
  | .storing _ load made => load () = .ok made.grammar
  | _ => True

theorem stems_step (stems : call.Stems) : (call.step c).1.Stems := by
  cases call with
  | asked asked =>
      cases asked with
      | getOrLoad dialect load => simp only [step]; cases c.get? dialect <;> trivial
      | _ => trivial
  | loading dialect load =>
      simp only [step]
      cases made : load () with
      | error refusal => trivial
      | ok g => exact made
  | storing dialect load made => trivial
  | answered asked answer => exact stems

/-- A call whose grammar cannot be made changes nothing in any of its steps. -/
theorem catalog_of_refused {dialect : String} {load : Unit → Except DefinitionError Grammar}
    (asks : call.request = .getOrLoad dialect load) (stems : call.Stems)
    {refusal : DefinitionError} (refused : load () = .error refusal) :
    (call.step c).2 = c := by
  cases call with
  | asked asked => cases asks; simp only [step]; cases c.get? dialect <;> rfl
  | loading dialect' load' => cases asks; simp only [step, refused]
  | storing dialect' load' made => cases asks; exact absurd (refused.symm.trans stems) nofun
  | answered asked answer => rfl

end Call

/-! ### What a run preserves -/

/-- What holds when nobody has called and is kept by every move holds after every run. -/
theorem run_induction {c : Catalog} {P : Usage → Prop} {moves : List Move} (start : P ⟨c, []⟩)
    (keeps : ∀ u, ∀ move ∈ moves, P u → P (u.move move)) : P (run c moves) := by
  exact List.foldlRecOn moves Usage.move start fun u holds move member =>
    keeps u move member holds

/-- A call after a move was there before, has just been begun, or has just taken a step. -/
theorem Usage.mem_calls_move {u : Usage} {move : Move} {call : Call}
    (member : call ∈ (u.move move).calls) :
    call ∈ u.calls ∨ (∃ request, move = .begin request ∧ call = .asked request) ∨
      ∃ stepping ∈ u.calls, call = (stepping.step u.catalog).1 ∧
        (u.move move).catalog = (stepping.step u.catalog).2 := by
  cases move with
  | begin request =>
      rcases List.mem_append.mp member with old | new
      · exact .inl old
      · exact .inr (.inl ⟨request, rfl, by simpa using new⟩)
  | advance place =>
      simp only [move] at member ⊢
      cases found : u.calls[place]? with
      | none => simp only [found] at member; exact .inl member
      | some stepping =>
          simp only [found] at member
          rcases List.mem_or_eq_of_mem_set member with old | new
          · exact .inl old
          · exact .inr (.inr ⟨stepping, List.mem_of_getElem? found, new, rfl⟩)

/-- After a move the catalog is as it was or as the step of a call has left it. -/
theorem Usage.catalog_move (u : Usage) (move : Move) :
    (u.move move).catalog = u.catalog ∨
      ∃ stepping ∈ u.calls, (u.move move).catalog = (stepping.step u.catalog).2 := by
  cases move with
  | begin request => exact .inl rfl
  | advance place =>
      simp only [Usage.move]
      cases found : u.calls[place]? with
      | none => exact .inl rfl
      | some stepping => exact .inr ⟨stepping, List.mem_of_getElem? found, rfl⟩

/-- A property of calls that holds of those just begun and is kept by their steps holds of
every call of a run. -/
theorem forall_calls_run {c : Catalog} {P : Call → Prop} {moves : List Move}
    (starts : ∀ request, .begin request ∈ moves → P (.asked request))
    (keeps : ∀ c call, P call → P (call.step c).1) : ∀ call ∈ (run c moves).calls, P call := by
  refine run_induction (P := fun u => ∀ call ∈ u.calls, P call) nofun ?_
  intro u move present before call member
  obtain old | ⟨request, rfl, rfl⟩ | ⟨stepping, there, rfl, -⟩ := Usage.mem_calls_move member
  · exact before call old
  · exact starts request present
  · exact keeps u.catalog stepping (before stepping there)

/-- Whoever looked for a dialect or loaded it was handed what the catalog holds. -/
def Usage.Settled (dialect : String) (u : Usage) : Prop :=
  ∀ call ∈ u.calls, call.request.dialect = dialect → ∀ loaded,
    call.answer? = some (.ok (some loaded)) → u.catalog.get? dialect = some loaded

/-- As long as a dialect is neither inserted nor removed, a move does not change what the
catalog holds under it, once it holds something. -/
theorem Usage.get?_move {u : Usage} {dialect : String}
    (quiet : ∀ call ∈ u.calls, call.request.dialect = dialect → call.request.overrides = false)
    (move : Move) {present : Loaded} (found : u.catalog.get? dialect = some present) :
    (u.move move).catalog.get? dialect = some present := by
  obtain same | ⟨stepping, there, stepped⟩ := u.catalog_move move
  · rw [same, found]
  · rw [stepped]
    by_cases about : stepping.request.dialect = dialect
    · exact Call.get?_step_of_some (quiet stepping there about) found
    · rw [Call.get?_step_of_ne (Ne.symm about), found]

theorem Usage.Settled.move {u : Usage} {dialect : String} (settled : u.Settled dialect)
    (quiet : ∀ call ∈ u.calls, call.request.dialect = dialect → call.request.overrides = false)
    (move : Move) : (u.move move).Settled dialect := by
  have kept : ∀ call ∈ u.calls, call.request.dialect = dialect → ∀ loaded,
      call.answer? = some (.ok (some loaded)) →
      (u.move move).catalog.get? dialect = some loaded := fun call old about loaded told =>
    get?_move quiet move (settled call old about loaded told)
  intro call member about loaded told
  obtain old | ⟨request, rfl, rfl⟩ | ⟨stepping, there, rfl, stepped⟩ := mem_calls_move member
  · exact kept call old about loaded told
  · cases told
  · rw [Call.request_step] at about
    cases still : stepping.answer? with
    | some answer =>
        rw [Call.step_of_answered still] at told
        exact kept stepping there about loaded told
    | none =>
        rw [stepped, ← about]
        exact Call.get?_of_handed (quiet stepping there about) still told

/-- In a run without insertion and removal under a name, no call overrides what is there. -/
theorem quiet_run {c : Catalog} {moves : List Move} {dialect : String}
    (quiet : ∀ move ∈ moves, move.overrides dialect = false) :
    ∀ call ∈ (run c moves).calls, call.request.dialect = dialect →
      call.request.overrides = false := by
  refine forall_calls_run (fun request begun about => ?_) fun c call keeps => ?_
  · have same : request.dialect = dialect := about
    have still := quiet (.begin request) begun
    rw [Move.overrides, same, beq_self_eq_true, Bool.and_true] at still
    exact still
  · simpa only [Call.request_step] using keeps

theorem settled_run {c : Catalog} {moves : List Move} {dialect : String}
    (quiet : ∀ move ∈ moves, move.overrides dialect = false) :
    (run c moves).Settled dialect := by
  induction moves using List.reverseRecOn with
  | nil => exact nofun
  | append_singleton before last ih =>
      have quiet' : ∀ move ∈ before, move.overrides dialect = false := fun move member =>
        quiet move (List.mem_append_left _ member)
      rw [run, List.foldl_append]
      exact (ih quiet').move (quiet_run quiet') last

/-! ### Those who race agree -/

/-- However the steps of any number of calls follow one another: a step of a call touches no
entry but that of its own dialect, and a step of a loading call replaces none at all; the last
one hands out what the catalog then holds, and a call whose grammar cannot be made changes
nothing.  In a run without insertion and removal under a name, whoever looked for it or loaded
it and was handed a grammar was handed the same one. -/
theorem loaders_agree (c : Catalog) (moves : List Move) :
    (∀ place call, (run c moves).calls[place]? = some call →
      let before := (run c moves).catalog
      let after := ((run c moves).move (.advance place)).catalog
      (∀ name, name ≠ call.request.dialect → after.get? name = before.get? name) ∧
      ∀ dialect load, call.request = .getOrLoad dialect load →
        (∀ name present, before.get? name = some present → after.get? name = some present) ∧
        (∀ refusal, load () = .error refusal → after = before) ∧
        (call.answer? = none → ∀ answer,
          ((run c moves).move (.advance place)).calls[place]? =
            some (.answered (.getOrLoad dialect load) answer) →
          (∃ stored, answer = .ok (some stored) ∧ after.get? dialect = some stored) ∨
            ∃ refusal, answer = .error refusal ∧ load () = .error refusal ∧ after = before)) ∧
    ∀ dialect, (∀ move ∈ moves, move.overrides dialect = false) →
      ∀ one ∈ (run c moves).calls, ∀ other ∈ (run c moves).calls,
        one.request.dialect = dialect → other.request.dialect = dialect →
        ∀ loaded loaded', one.answer? = some (.ok (some loaded)) →
          other.answer? = some (.ok (some loaded')) → loaded = loaded' := by
  refine ⟨fun place call found => ?_, fun dialect quiet one there other there' about about'
    loaded loaded' told told' => ?_⟩
  · have stems : call.Stems := forall_calls_run (fun _ _ => trivial)
      (fun c call => Call.stems_step) call (List.mem_of_getElem? found)
    have moved : (run c moves).move (.advance place) =
        ⟨(call.step (run c moves).catalog).2,
          (run c moves).calls.set place (call.step (run c moves).catalog).1⟩ := by
      simp only [Usage.move, found]
    have stepped : ((run c moves).calls.set place
        (call.step (run c moves).catalog).1)[place]? =
          some (call.step (run c moves).catalog).1 :=
      List.getElem?_set_self (List.getElem?_eq_some_iff.mp found).1
    simp only [moved, stepped]
    refine ⟨fun name other => Call.get?_step_of_ne other, fun dialect load asks =>
      ⟨fun name present => Call.get?_step_of_some (by rw [asks]; rfl),
        fun refusal => Call.catalog_of_refused asks stems, fun still answer ended => ?_⟩⟩
    exact Call.answer_getOrLoad asks still (by rw [Option.some.inj ended]; rfl)
  · -- With no other move on the name, the first grammar stored is the one that all are handed.
    have settled := settled_run (c := c) quiet
    exact Option.some.inj ((settled one there about loaded told).symm.trans
      (settled other there' about' loaded' told'))

/-- A grammar of one word. -/
def oneWord : Grammar where
  vocabulary := ⟨"one word", #[.keyword "A" "a"]⟩
  elements := #[⟨0, "r", some "r", none, .token 0 none none⟩]
  rules := [("r", 0)]
  root := 0

/-- Two callers race for a dialect while a third fails to make it; a fourth looks for it when
they are done.  The second caller has made its grammar first, but the first one stores its own. -/
def race : List Move :=
  [.begin (.getOrLoad "one word" fun _ => .ok oneWord),
    .begin (.getOrLoad "one word" fun _ => .ok oneWord),
    .begin (.getOrLoad "one word" fun _ => .error (.noRules "one word")),
    .advance 0, .advance 1, .advance 2, .advance 1, .advance 0, .advance 2, .advance 0,
    .advance 1, .begin (.get "one word"), .advance 3]

/-- In the race everyone but the third caller is handed the grammar that the first one made. -/
theorem race_agrees :
    ((run empty race).calls.map Call.answer? =
      [some (.ok (some ⟨1, oneWord⟩)), some (.ok (some ⟨1, oneWord⟩)),
        some (.error (.noRules "one word")), some (.ok (some ⟨1, oneWord⟩))]) ∧
    ∀ one ∈ (run empty race).calls, ∀ other ∈ (run empty race).calls,
      one.request.dialect = "one word" → other.request.dialect = "one word" →
      ∀ loaded loaded', one.answer? = some (.ok (some loaded)) →
        other.answer? = some (.ok (some loaded')) → loaded = loaded' :=
  ⟨by rfl, (loaders_agree empty race).2 "one word" (by decide)⟩

end Dialect.Catalog
