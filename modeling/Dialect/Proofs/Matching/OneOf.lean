import Dialect.Matching.Choice
import Dialect.Proofs.Matching.Leaf

/-!
# Choices keep the contract
-/

set_option autoImplicit false

namespace Dialect

variable {s : Setting} {input : Input} {around outer : Path} {terms : Terms} {depth : Nat}
  {attempt : Attempt} {calm keen : Prop} {id : ElementId} {p q r : Progress}

/-- The state after a question, which has changed at most the memo. -/
theorem Proceeds.ofMemo (calm : Prop) (sound : p.Sound s.grammar input) {memo : Memo}
    (faithful : memo.Faithful s.grammar) :
    Proceeds s.grammar calm p 0 [] { p with memo } := by
  have inside := (Proceeds.refl calm sound).inside
  exact ⟨⟨rfl, rfl, fun _ member => member, fun _ => rfl, fun _ none => none⟩,
    Cursor.extend_zero.symm, inside, faithful⟩

/-- What is known where alternatives are tried: the token there and whether it can be
predicted, and that active alternatives may be entered.  A `keen` parse keeps a partial match
whenever there is one. -/
structure Choosing (s : Setting) (input : Input) (terms : Terms) (depth : Nat)
    (calm keen : Prop) (order : List (Slot ElementId)) (current : Token) (unfiltered : Bool)
    (p : Progress) : Prop where
  sound : p.Sound s.grammar input
  level : p.depth = depth
  current_eq : input.token? p.cursor.position = some current
  unpredictable : unfiltered = true ↔
    (input.cursorAt p.cursor.position).atPlaceholder = true ∨
      ∃ type, s.grammar.vocabulary.get current.kind = .ok type ∧ type.isChameleon = true
  free : calm → ∀ slot ∈ order, slot.isActive s.options.version = true →
    terms.licence slot.item p.cursor.position depth
  keenly : keen → calm ∧ p.Eager

theorem Choosing.after {order : List (Slot ElementId)} {current : Token} {unfiltered : Bool}
    (choosing : Choosing s input terms depth calm keen order current unfiltered p)
    (moved : Proceeds s.grammar calm p 0 [] q) :
    Choosing s input terms depth calm keen order current unfiltered q := by
  obtain ⟨sound, level, current_eq, unpredictable, free, keenly⟩ := choosing
  have eager : keen → calm ∧ q.Eager := fun now =>
    ⟨(keenly now).1, moved.eager (keenly now).1 (keenly now).2⟩
  rw [← moved.stay] at current_eq unpredictable free
  exact ⟨moved.sound sound, moved.keeps.depth.trans level, current_eq, unpredictable, free, eager⟩

/-- The alternatives that are tried are those that are active and that nothing rules out. -/
theorem admits_honours (stage : Stage s input) {order : List (Slot ElementId)} {current : Token}
    {unfiltered : Bool}
    (choosing : Choosing s input terms depth calm keen order current unfiltered p)
    {slot : Slot ElementId} (bound : slot.item < s.grammar.elements.size) :
    Ensures (Excused s.grammar input around) (Matcher.admits s unfiltered current.kind slot) p
      fun admitted q => Proceeds s.grammar calm p 0 [] q ∧ (admitted = true ↔
        slot.isActive s.options.version = true ∧
          Admitted s input slot p.cursor.position) := by
  obtain ⟨sound, -, current_eq, unpredictable, -, -⟩ := choosing
  unfold Matcher.admits
  by_cases active : slot.isActive s.options.version = true
  · rw [if_neg (by simp [active])]
    by_cases free : (unfiltered || !s.predictor.selective) = true
    · rw [if_pos free]
      refine ensures_pure ⟨.refl calm sound, fun _ => ⟨active, current, current_eq, ?_⟩,
        fun _ => rfl⟩
      rcases Bool.or_eq_true_iff.1 free with unfiltered | unselective
      · rcases unpredictable.1 unfiltered with placeholder | chameleon
        · exact Or.inr (Or.inl placeholder)
        · exact Or.inr (Or.inr (Or.inl chameleon))
      · exact Or.inl (by simpa using unselective)
    · rw [if_neg free]
      have answers := answers_couldStart stage.reliable current.kind slot.item
      rw [Grammar.couldStart_of_lt _ bound] at answers
      obtain ⟨memo, kept, ran⟩ := settles_query answers sound.faithful
      refine ensures_of_ok ran ⟨.ofMemo calm sound kept, fun begins => ⟨active, ?_⟩, ?_⟩
      · exact ⟨current, current_eq, Or.inr (Or.inr (Or.inr begins))⟩
      · -- The predictor was asked, so none of the reasons not to ask it holds.
        rintro ⟨-, other, other_eq, unselective | placeholder | chameleon | begins⟩
        · exact absurd (Bool.or_eq_true_iff.2 (Or.inr (by simp [unselective]))) free
        · exact absurd (Bool.or_eq_true_iff.2 (Or.inl (unpredictable.2 (Or.inl placeholder)))) free
        · obtain rfl : other = current := Option.some.inj (other_eq.symm.trans current_eq)
          exact absurd (Bool.or_eq_true_iff.2 (Or.inl (unpredictable.2 (Or.inr chameleon)))) free
        · obtain rfl : other = current := Option.some.inj (other_eq.symm.trans current_eq)
          exact begins
  · have inactive : slot.isActive s.options.version = false := by simpa using active
    rw [if_pos (by simp [inactive])]
    exact ensures_pure ⟨.refl calm sound, fun impossible => absurd impossible Bool.false_ne_true,
      fun both => absurd both.1 active⟩

/-! ### Alternatives -/

/-- What the match of an alternative leaves. -/
def Chosen (s : Setting) (input : Input) (below : Nat → ElementId → Record)
    (order : List (Slot ElementId)) : Record := fun complete i j events =>
  ∃ index slot, order[index]? = some slot ∧ slot.isActive s.options.version = true ∧
    Admitted s input slot i ∧ below index slot.item complete i j events

/-- What is kept of the best alternative so far can be replayed at the cursor. -/
def Kept (s : Setting) (input : Input) (below : Nat → ElementId → Record)
    (order : List (Slot ElementId)) (c : Cursor) (best : Option (Outcome × Snapshot)) : Prop :=
  ∀ outcome snapshot, best = some (outcome, snapshot) → ∃ n events,
    outcome = .partialMatch n ∧ 0 < n ∧ c.position + n ≤ c.size ∧
    snapshot = ⟨c.position, c.position + n, c.events.size,
      (Event.tombstone :: events).toArray⟩ ∧
    Chosen s input below order false c.position (c.position + n) events

/-- A partial match is kept by taking it back. -/
theorem kept_of_partial {below : Nat → ElementId → Record} {order : List (Slot ElementId)}
    {n : Nat} {events : List Event} (positive : 0 < n)
    (moved : Proceeds s.grammar calm p.marked n events q)
    (chosen : Chosen s input below order false p.cursor.position (p.cursor.position + n) events) :
    Kept s input below order p.cursor (some (.partialMatch n, ⟨p.cursor.position,
      p.cursor.position + n, p.cursor.events.size, (Event.tombstone :: events).toArray⟩)) := by
  intro outcome snapshot same
  cases same
  exact ⟨n, events, rfl, positive, moved.inside, rfl, chosen⟩

/-- Nothing came of the alternatives that are tried at the position, apart from those that
are left. -/
def Spent (s : Setting) (input : Input) (idle : ElementId → (position : Nat) → Prop)
    (order left : List (Slot ElementId)) (position : Nat) : Prop :=
  ∀ slot ∈ order, slot.isActive s.options.version = true → Admitted s input slot position →
    slot ∈ left ∨ idle slot.item position

theorem Spent.pass {idle : ElementId → (position : Nat) → Prop}
    {order rest : List (Slot ElementId)} {slot : Slot ElementId} {position : Nat}
    (spent : Spent s input idle order (slot :: rest) position)
    (nothing : slot.isActive s.options.version = true → Admitted s input slot position →
      idle slot.item position) : Spent s input idle order rest position := by
  intro other member active admitted
  rcases spent other member active admitted with listed | idle
  · rcases List.mem_cons.1 listed with rfl | behind
    · exact Or.inr (nothing active admitted)
    · exact Or.inl behind
  · exact Or.inr idle

/-- How the trying of alternatives ends: with a full match, or back at the cursor with the
best partial match. -/
def Tried (s : Setting) (input : Input) (calm keen : Prop) (terms : Terms) (id : ElementId)
    (outer : Path) (order : List (Slot ElementId)) (p : Progress) :
    Outcome ⊕ Option (Outcome × Snapshot) → Progress → Prop
  | .inl outcome, q => ∃ n events, outcome = .fullMatch n ∧ 0 < n ∧
      Proceeds s.grammar calm p n (.tombstone :: events) q ∧
      Chosen s input (terms.below id outer) order true p.cursor.position (p.cursor.position + n)
        events
  | .inr best, q => Proceeds s.grammar calm p 0 [] q ∧
      Kept s input (terms.below id outer) order p.cursor best ∧
      (keen → best = none → Spent s input terms.idle order [] p.cursor.position)

theorem Tried.after {order : List (Slot ElementId)} (moved : Proceeds s.grammar calm p 0 [] q)
    {answer : Outcome ⊕ Option (Outcome × Snapshot)}
    (came : Tried s input calm keen terms id outer order q answer r) :
    Tried s input calm keen terms id outer order p answer r := by
  cases answer with
  | inl outcome =>
      obtain ⟨n, events, same, positive, movedOn, chosen⟩ := came
      have both := moved.trans movedOn
      rw [Nat.zero_add, List.nil_append] at both
      rw [moved.stay] at chosen
      exact ⟨n, events, same, positive, both, chosen⟩
  | inr best =>
      obtain ⟨movedOn, kept, spent⟩ := came
      rw [moved.stay] at kept spent
      exact ⟨moved.trans movedOn, kept, spent⟩

/-- What comes of trying alternatives, the first ones of which were tried before. -/
theorem tryAlternatives_honours (stage : Stage s input)
    (honest : attempt.Honours s input around terms depth calm)
    (within : outer.Within s.grammar around) {kind : Kind ElementId}
    (stands : s.grammar.kind? id = some kind) (other : ∀ slots, kind ≠ .sequence slots)
    {order slots : List (Slot ElementId)}
    (inside : ∀ slot ∈ order, slot.item < s.grammar.elements.size) {index : Nat}
    (left : order.drop index = slots) {current : Token} {unfiltered : Bool}
    (choosing : Choosing s input terms depth calm keen order current unfiltered p)
    {best : Option (Outcome × Snapshot)}
    (kept : Kept s input (terms.below id outer) order p.cursor best)
    (spent : keen → best = none → Spent s input terms.idle order slots p.cursor.position) :
    Ensures (Excused s.grammar input around)
      (Matcher.tryAlternatives s attempt (outer.enter id) unfiltered current.kind slots index best)
      p (Tried s input calm keen terms id outer order p) := by
  induction slots generalizing index p best with
  | nil => exact ensures_pure ⟨.refl calm choosing.sound, kept, spent⟩
  | cons slot rest ih =>
      have leftRest : order.drop (index + 1) = rest := by
        rw [← List.drop_drop, left]
        rfl
      have found : order[index]? = some slot := by
        have first : (order.drop index)[0]? = some slot := by simp [left]
        simpa using first
      have member : slot ∈ order := List.mem_of_getElem? found
      have place : Path.Within s.grammar (⟨id, index⟩ :: outer) around :=
        within.push stands fun slots same => absurd same (other slots)
      unfold Matcher.tryAlternatives
      refine ensures_bind (admits_honours stage choosing (inside slot member)) ?_
      rintro admitted q ⟨asked, admission⟩
      have choosingHere := choosing.after asked
      rw [← asked.stay] at kept spent admission
      -- Going on with the other alternatives from a state back at the cursor.
      have goOn : ∀ {r : Progress} {better : Option (Outcome × Snapshot)},
          Proceeds s.grammar calm q 0 [] r →
          Kept s input (terms.below id outer) order q.cursor better →
          (keen → better = none → Spent s input terms.idle order rest q.cursor.position) →
          Ensures (Excused s.grammar input around)
            (Matcher.tryAlternatives s attempt (outer.enter id) unfiltered current.kind rest
              (index + 1) better) r (Tried s input calm keen terms id outer order p) := by
        intro r better moved keptBetter spentRest
        rw [← moved.stay] at keptBetter spentRest
        exact (ih leftRest (choosingHere.after moved) keptBetter spentRest).imp
          fun _ _ came => (came.after moved).after asked
      cases admitted with
      | false =>
          refine goOn (.refl calm choosingHere.sound) kept fun now none => (spent now none).pass ?_
          intro active admissible
          exact absurd (admission.2 ⟨active, admissible⟩) Bool.false_ne_true
      | true =>
          obtain ⟨active, admissible⟩ := admission.1 rfl
          refine ensures_mark ?_
          refine ensures_bind (honest slot.item (inside slot member) _ q.marked place
            choosingHere.sound.marked choosingHere.level
            fun quiet => choosingHere.free quiet slot member active) ?_
          rintro outcome r ⟨events, moved, matched⟩
          cases outcome with
          | fullMatch n =>
              have released := moved.handBack (Nat.le_refl n) (.tombstone :: events)
              have full : Tried s input calm keen terms id outer order q (.inl (.fullMatch n)) _ :=
                ⟨n, events, rfl, matched.1, released, index, slot, found, active, admissible,
                  matched.2⟩
              exact ensures_release moved (ensures_pure (full.after asked))
          | noMatch =>
              simp only [Outcome.isFull, Outcome.isPartial, Bool.false_eq_true, if_false,
                Bool.and_false, Bool.false_and]
              refine ensures_bind_of_ok (get_apply r) ?_
              refine ensures_rollback moved (goOn moved.rolledBack kept fun now none => ?_)
              have keenly := choosingHere.keenly now
              exact (spent now none).pass fun _ _ => matched.2 keenly.1 keenly.2
          | partialMatch n =>
              simp only [Outcome.isFull, Outcome.isPartial, Bool.false_eq_true, if_false,
                Bool.and_true]
              refine ensures_bind_of_ok (get_apply r) ?_
              split
              · refine ensures_takeBack moved (goOn moved.rolledBack ?_ fun _ none => by cases none)
                exact kept_of_partial matched.1 moved
                  ⟨index, slot, found, active, admissible, matched.2⟩
              · rename_i passedOver
                refine ensures_rollback moved (goOn moved.rolledBack kept fun now none => ?_)
                -- A keen parse would have kept this partial match.
                have keenly := choosingHere.keenly now
                have scanning : r.scan = true := (moved.rolledBack.eager keenly.1 keenly.2).2
                refine absurd ?_ passedOver
                simp [scanning, none, Matcher.improves]

/-! ### Choices -/

/-- The best partial match is replayed at the cursor at which it was taken. -/
theorem ensures_restore {excused : Fault → Prop} {next : Unit → Matcher Outcome}
    {post : Outcome → Progress → Prop} {n : Nat} {events : List Event}
    (back : q.cursor = p.cursor)
    (kept : Ensures excused (next ()) (q.moveTo (p.cursor.extend n (.tombstone :: events))) post) :
    Ensures excused (liftM (Cursor.restore ⟨p.cursor.position, p.cursor.position + n,
      p.cursor.events.size, (Event.tombstone :: events).toArray⟩) >>= next) q post := by
  refine ensures_bind_of_ok (move_eq ?_) kept
  rw [back]
  exact Cursor.restore_eq

/-- What comes of a choice. -/
theorem oneOf_honours (stage : Stage s input)
    (honest : attempt.Honours s input around terms depth calm)
    (within : outer.Within s.grammar around) {alternatives : List (Slot ElementId)}
    {sortable : Bool} (stands : s.grammar.kind? id = some (.oneOf alternatives sortable))
    (sound : p.Sound s.grammar input) (level : p.depth = depth)
    (leads : calm → ∀ slot ∈ alternatives, slot.isActive s.options.version = true →
      terms.licence slot.item p.cursor.position depth) :
    Ensures (Excused s.grammar input around)
      (Matcher.oneOf s attempt (outer.enter id) id) p
      (Came s.grammar calm
        ((Kind.oneOf alternatives sortable).Leaves s input (terms.below id outer) id)
        ((Kind.oneOf alternatives sortable).Idles s input terms.idle) p) := by
  have inside : ∀ slot ∈ (Kind.oneOf alternatives sortable).tried s.grammar,
      slot.item < s.grammar.elements.size := fun slot member =>
    Grammar.lt_of_isSome (stage.wellFormed.placed id _ stands slot (Kind.mem_tried.1 member)).2
  have answers := stage.reliable.children id
  rw [Grammar.triedOf_of_kind? stands] at answers
  unfold Matcher.oneOf
  refine ensures_bind_query answers sound.faithful (raises_ok _) fun order memo same kept => ?_
  cases same
  have asked := Proceeds.ofMemo calm sound kept
  refine ensures_bind_of_ok cursor_eq ?_
  dsimp only
  rw [sound.current_eq, sound.placeholder_eq]
  cases token_eq : input.token? p.cursor.position with
  | none =>
      refine ensures_pure ⟨[], asked, rfl, fun _ _ item => ?_⟩
      rintro ⟨slot, -, -, -, current, current_eq, -⟩
      rw [token_eq] at current_eq
      cases current_eq
  | some current =>
      obtain ⟨type, type_eq⟩ := get_of_lt (stage.known current (mem_of_token? token_eq))
      have unpredictable : ((input.cursorAt p.cursor.position).atPlaceholder || type.isChameleon) =
          true ↔ (input.cursorAt p.cursor.position).atPlaceholder = true ∨
            ∃ type, s.grammar.vocabulary.get current.kind = .ok type ∧ type.isChameleon = true := by
        rw [Bool.or_eq_true_iff, type_eq]
        simp
      have choosing : Choosing s input terms depth calm (calm ∧ p.Eager)
          ((Kind.oneOf alternatives sortable).tried s.grammar) current
          ((input.cursorAt p.cursor.position).atPlaceholder || type.isChameleon) p :=
        ⟨sound, level, token_eq, unpredictable,
          fun quiet slot member active => leads quiet slot (Kind.mem_tried.1 member) active,
          fun both => both⟩
      dsimp only
      rw [type_eq]
      refine ensures_bind_of_ok rfl ?_
      refine ensures_bind (tryAlternatives_honours stage honest within stands (by simp) inside
        List.drop_zero (choosing.after asked) (fun outcome snapshot none => by cases none)
        fun _ _ slot member _ _ => Or.inl member) ?_
      intro answer q came
      replace came := Tried.after asked came
      -- A full match, nothing to take, or the record of the best partial match.
      rcases answer with outcome | _ | ⟨outcome, snapshot⟩
      · obtain ⟨n, events, rfl, positive, moved, chosen⟩ := came
        obtain ⟨index, slot, tried, active, admitted, recorded⟩ := chosen
        exact ensures_pure ⟨_, moved, positive, .oneOf tried active admitted recorded⟩
      · obtain ⟨moved, -, spent⟩ := came
        refine ensures_pure ⟨[], moved, rfl, fun quiet eager item => ?_⟩
        rintro ⟨slot, member, rfl, active, admitted⟩
        exact (spent ⟨quiet, eager⟩ rfl slot (Kind.mem_tried.2 member) active admitted).resolve_left
          List.not_mem_nil
      · obtain ⟨moved, keptBest, -⟩ := came
        obtain ⟨n, events, rfl, positive, room, rfl, chosen⟩ := keptBest outcome snapshot rfl
        obtain ⟨index, slot, tried, active, admitted, recorded⟩ := chosen
        exact ensures_restore moved.stay (ensures_pure ⟨_, moved.moveTo room _, positive,
          .oneOf tried active admitted recorded⟩)

end Dialect
