import Dialect.Proofs.Matching.Admission
import Dialect.Proofs.Tracking.Composite

/-!
# Choices side by side

The parts of a qualified identifier are leaves, so both parses come to the same for it.

Of a choice both parses try the same alternatives, from the same place.  Where the second comes
to more for one of them, that one is incomplete, so it is taken back in both; the second parse
may keep it (`Bests`) and come to it at the end, if no alternative is matched in full.
-/

set_option autoImplicit false

namespace Dialect

namespace Pairing

open Matcher

variable {pair : Pairing} {sure : Path → Nat → Prop} {attempt attempt' : Attempt}
  {p q r t : Progress} {path outer : Path} {id : ElementId} {α β : Type}

/-! ### Qualified identifiers -/

section Qualified

variable {variants : List (List ElementId)} {separator : ElementId}
  (attempts : pair.Attempts sure attempt attempt')
  (stands : pair.first.grammar.kind? id = some (.qualified variants separator))
  (within : outer.Within pair.first.grammar []) (fair : pair.Fair)

omit attempts stands within fair in
theorem tracks_missingPart (abreast : pair.Abreast p q) (report : Bool) (part : ElementId) :
    pair.Tracks Never (missingPart pair.first report part) (missingPart pair.second report part)
      p q := by
  unfold missingPart
  exact tracks_ite (fun _ => tracks_expected abreast _ _) fun _ => tracks_pure abreast _

include attempts stands within fair

theorem tracks_matchParts (report : Bool) {parts : List ElementId} (index tokens : Nat)
    (leaves : ∀ part ∈ parts, ∃ kind, pair.first.grammar.kind? part = some kind ∧
      kind.isLeaf = true) (abreast : pair.Abreast p q) :
    pair.Tracks Never
      (matchParts pair.first attempt (outer.enter id) separator report parts index tokens)
      (matchParts pair.second attempt' (outer.enter id) separator report parts index tokens) p q := by
  obtain ⟨-, -, -, type, separates⟩ := fair.stage.wellFormed.placed id _ stands
  have place : ∀ slot, Path.Within pair.first.grammar (⟨id, slot⟩ :: outer) [] := fun slot =>
    within.push stands fun slots same => by cases same
  induction parts generalizing index tokens p q with
  | nil => exact tracks_pure abreast _
  | cons part rest ih =>
      obtain ⟨kind, standsPart, leaf⟩ := leaves part List.mem_cons_self
      have onward := fun {p q : Progress} (index tokens : Nat) (after : pair.Abreast p q) =>
        ih index tokens (fun other member => leaves other (List.mem_cons_of_mem _ member)) after
      unfold matchParts
      dsimp only
      refine tracks_ite (fun _ => tracks_bind_same (tracks_pure abreast true) ?_) fun _ =>
        tracks_bind_same (tracks_map (attempts.leaf separates rfl (place index) abreast)) ?_
      all_goals
        intro separated r t _ after
        refine tracks_ite (fun _ => ?_) fun _ => ?_
        · exact tracks_bind_same (tracks_missingPart after report separator)
            fun _ _ _ _ last => tracks_pure last _
        · refine tracks_bind_same (attempts.leaf standsPart leaf (place index) after)
            fun _ _ _ _ later => tracks_ite (fun _ => ?_) fun _ => onward _ _ later
          exact tracks_bind_same (tracks_missingPart later report part)
            fun _ _ _ _ last => tracks_pure last _

theorem tracks_tryVariants {among : List (List ElementId)}
    (leaves : ∀ variant ∈ among, ∀ part ∈ variant, ∃ kind,
      pair.first.grammar.kind? part = some kind ∧ kind.isLeaf = true)
    (best : Option (Outcome × List ElementId)) (abreast : pair.Abreast p q) :
    pair.Tracks Never (tryVariants pair.first attempt (outer.enter id) separator among best)
      (tryVariants pair.second attempt' (outer.enter id) separator among best) p q := by
  induction among generalizing best p q with
  | nil => exact tracks_pure abreast _
  | cons variant rest ih =>
      have onward := fun {p q : Progress} best (after : pair.Abreast p q) =>
        ih (fun other member => leaves other (List.mem_cons_of_mem _ member)) best after
      unfold tryVariants
      refine tracks_mark abreast ?_
      refine tracks_bind_same (tracks_matchParts attempts stands within fair false 0 0
        (leaves variant List.mem_cons_self) abreast.marked) fun outcome r t _ after => ?_
      refine tracks_ite (fun _ => ?_) fun _ => ?_
      · exact tracks_bind_same (tracks_move keeps_handBack after)
          fun _ _ _ _ last => tracks_pure last _
      · refine tracks_bind_same (tracks_move (keeps_rollback abreast.inside) after)
          fun _ _ _ _ last => ?_
        exact tracks_ite (fun _ => onward _ last) fun _ => onward _ last

omit attempts stands within fair in
/-- The variant that is kept is one of those that were tried. -/
theorem kept_of_tryVariants (s : Setting) {among : List (List ElementId)}
    (best : Option (Outcome × List ElementId)) :
    Ensures (fun _ => True) (tryVariants s attempt path separator among best) p fun answer _ =>
      ∀ outcome variant, answer = .inr (some (outcome, variant)) →
        variant ∈ among ∨ best = some (outcome, variant) := by
  induction among generalizing best p with
  | nil =>
      refine ensures_pure fun outcome variant same => Or.inr ?_
      exact Sum.inr.inj same
  | cons first rest ih =>
      have onward := fun best {p} => (@ih p best).imp fun answer _ kept outcome variant same =>
        (kept outcome variant same).imp_left (List.mem_cons_of_mem first)
      unfold tryVariants
      refine ensures_bind (ensures_any _) fun m q _ => ensures_bind (ensures_any _) fun came r _ => ?_
      split
      · refine ensures_bind (ensures_any _) fun _ t _ => ensures_pure ?_
        exact fun outcome variant same => by cases same
      · refine ensures_bind (ensures_any _) fun _ t _ => ?_
        split
        · refine (onward _).imp fun answer _ kept outcome variant same => ?_
          rcases kept outcome variant same with listed | chosen
          · exact Or.inl listed
          · cases chosen
            exact Or.inl List.mem_cons_self
        · exact onward _

omit attempts stands within fair in
theorem mem_of_tryVariants {s : Setting} {among : List (List ElementId)} {outcome : Outcome}
    {variant : List ElementId} (ran : tryVariants s attempt path separator among none p =
      .ok (.inr (some (outcome, variant))) q) : variant ∈ among := by
  have kept : Ensures _ (tryVariants s attempt path separator among none) p _ :=
    kept_of_tryVariants s none
  exact (kept.of_ok ran outcome variant rfl).resolve_right nofun

theorem tracks_qualified (abreast : pair.Abreast p q) :
    pair.Tracks Never (qualified pair.first attempt (outer.enter id) id variants separator)
      (qualified pair.second attempt' (outer.enter id) id variants separator) p q := by
  have leaves : ∀ variant ∈ longestFirst variants, ∀ part ∈ variant, ∃ kind,
      pair.first.grammar.kind? part = some kind ∧ kind.isLeaf = true := by
    intro variant member part inVariant
    exact ((fair.stage.wellFormed.placed id _ stands).2.1 variant (mem_longestFirst.1 member)).2
      part inVariant |>.2
  unfold qualified
  refine tracks_mark abreast ?_
  refine tracks_bind_same (tracks_tryVariants attempts stands within fair leaves none
    abreast.marked) ?_
  rintro (outcome | _ | ⟨outcome, variant⟩) r t ran after
  · exact tracks_bind_same (tracks_move (keeps_complete _ id) after)
      fun _ _ _ _ last => tracks_pure last _
  · exact tracks_bind_same (tracks_move (keeps_rollback abreast.inside) after)
      fun _ _ _ _ last => tracks_pure last _
  · have member := mem_of_tryVariants ran
    refine tracks_bind_same (tracks_matchParts attempts stands within fair true 0 0
      (leaves variant member) after) fun _ _ _ _ later => ?_
    exact tracks_bind_same (tracks_move (keeps_complete _ id) later)
      fun _ _ _ _ last => tracks_pure last _

end Qualified

/-! ### Alternatives -/

/-- The best incomplete alternative once one more has been tried. -/
def better (scan : Bool) (outcome : Outcome) (snapshot : Snapshot)
    (best : Option (Outcome × Snapshot)) : Option (Outcome × Snapshot) :=
  if scan && outcome.isPartial && improves outcome best then some (outcome, snapshot) else best

/-- Whether an alternative is tried is found out in a state of the parse. -/
theorem At.asked (at_ : pair.At p) (fair : pair.Fair) (unfiltered : Bool) (current : TokenTypeId)
    {slot : Slot ElementId} (bound : slot.item < pair.first.grammar.elements.size) :
    ∃ u, pair.At u ∧
      admits pair.first unfiltered current slot p =
        .ok (pair.first.lets unfiltered current slot) u := by
  obtain ⟨memo, faithful, asked⟩ :=
    admits_eq fair.stage.reliable unfiltered current bound at_.faithful
  exact ⟨{ p with memo }, ⟨⟨at_.reads, at_.inside, faithful⟩, at_.level⟩, asked⟩

/-- What is kept of the alternatives in both parses: the same, or something incomplete in the
second. -/
structure Bests (pair : Pairing) (best best' : Option (Outcome × Snapshot)) : Prop where
  kept : ∀ outcome snapshot, best = some (outcome, snapshot) →
    outcome.Partly ∧ snapshot.stop ≤ pair.input.size
  ahead : best' = best ∨ pair.gains ∧
    ∃ outcome snapshot, best' = some (outcome, snapshot) ∧ outcome.Partly

section Bests

variable {best best' : Option (Outcome × Snapshot)} {outcome outcome' : Outcome}
  {snapshot snapshot' : Snapshot}

theorem better_kept (bests : pair.Bests best best') (scan : Bool)
    (short : outcome = .noMatch ∨ outcome.Partly) (inside : snapshot.stop ≤ pair.input.size) :
    ∀ value taken, better scan outcome snapshot best = some (value, taken) →
      value.Partly ∧ taken.stop ≤ pair.input.size := by
  intro value taken same
  unfold better at same
  split at same
  · rename_i improved
    cases same
    refine ⟨short.resolve_left ?_, inside⟩
    rintro rfl
    simp [Outcome.isPartial] at improved
  · exact bests.kept value taken same

/-- An alternative of which both parses come to the same. -/
theorem Bests.same (bests : pair.Bests best best') {scan scan' : Bool}
    (keener : scan = true → scan' = true) (alike : ¬ pair.gains → scan' = scan)
    (short : outcome = .noMatch ∨ outcome.Partly) (inside : snapshot.stop ≤ pair.input.size) :
    pair.Bests (better scan outcome snapshot best) (better scan' outcome snapshot best') := by
  refine ⟨better_kept bests scan short inside, ?_⟩
  rcases short with rfl | ⟨n, positive, rfl⟩
  · simpa [better, Outcome.isPartial] using bests.ahead
  · have found : ∃ outcome snapshot', some (Outcome.partialMatch n, snapshot) =
        some (outcome, snapshot') ∧ outcome.Partly := ⟨_, _, rfl, n, positive, rfl⟩
    rcases bests.ahead with rfl | ⟨gains, chosen⟩
    · -- Only the second run can be scanning alone: it then remembers what the first one drops.
      by_cases equal : scan' = scan
      · exact Or.inl (by rw [equal])
      · have gains : pair.gains := by
          by_contra none
          exact equal (alike none)
        have idle : scan = false := by
          by_contra keen
          have keen : scan = true := by simpa using keen
          exact equal ((keener keen).trans keen.symm)
        rw [idle]
        unfold better
        split
        · exact Or.inr ⟨gains, found⟩
        · exact Or.inl rfl
    · refine Or.inr ⟨gains, ?_⟩
      unfold better
      split
      · exact found
      · exact chosen

/-- An alternative for which the second parse comes to more. -/
theorem Bests.gained (bests : pair.Bests best best') {scan scan' : Bool}
    (keener : scan = true → scan' = true) (gains : pair.gains)
    (short : outcome = .noMatch ∨ outcome.Partly) (partly : outcome'.Partly)
    (inside : snapshot.stop ≤ pair.input.size) :
    pair.Bests (better scan outcome snapshot best) (better scan' outcome' snapshot' best') := by
  refine ⟨better_kept bests scan short inside, ?_⟩
  obtain ⟨n, positive, rfl⟩ := partly
  by_cases keen : scan' = true
  · refine Or.inr ⟨gains, ?_⟩
    unfold better
    split
    · exact ⟨_, _, rfl, n, positive, rfl⟩
    · rename_i passed
      rcases bests.ahead with rfl | ⟨-, chosen⟩
      · cases best' with
        | none => simp [keen, Outcome.isPartial, improves] at passed
        | some kept => exact ⟨kept.1, kept.2, rfl, (bests.kept kept.1 kept.2 rfl).1⟩
      · exact chosen
  · have idle : scan' = false := by simpa using keen
    have idle' : scan = false := by
      by_contra on
      exact keen (keener (by simpa using on))
    rw [idle, idle']
    exact bests.ahead

end Bests

/-- The snapshot of an attempt under a mark that took `n` tokens and added the events. -/
def taken (p : Progress) (n : Nat) (events : List Event) : Snapshot :=
  ⟨p.cursor.position, p.cursor.position + n, p.cursor.events.size,
    (Event.tombstone :: events).toArray⟩

/-- After an attempt under a mark that is not a full match, the next alternatives are tried from
the same place. -/
theorem keep_eq {n : Nat} {events : List Event} (here : r.cursor = p.cursor.marked.extend n events)
    (next : Option (Outcome × Snapshot) → Matcher α) (outcome : Outcome)
    (best : Option (Outcome × Snapshot)) :
    (do
      if (← get).scan && outcome.isPartial && improves outcome best then
        let snapshot ← Cursor.takeBack p.cursor.place
        next (some (outcome, snapshot))
      else do
        Cursor.rollback p.cursor.place
        next best : Matcher α) r =
      next (better r.scan outcome (taken p n events) best) (r.moveTo p.cursor) := by
  have back : Cursor.rollback p.cursor.place r.cursor = .ok () p.cursor := by
    rw [here]
    exact Cursor.rollback_eq
  have took : Cursor.takeBack p.cursor.place r.cursor = .ok (taken p n events) p.cursor := by
    rw [here]
    exact Cursor.takeBack_eq
  rw [bind_apply, get_apply]
  unfold better
  dsimp only
  split
  · rw [bind_apply, move_eq took]
    rfl
  · rw [bind_apply, move_eq back]
    rfl

/-- What is recorded of an attempt lies within the input. -/
theorem At.taken_inside {n : Nat} {events : List Event} (at_ : pair.At r)
    (here : r.cursor = p.cursor.marked.extend n events) :
    (taken p n events).stop ≤ pair.input.size := by
  have inside := at_.inside
  rw [here] at inside
  exact inside

/-- What goes together of trying alternatives: different alternatives that are kept. -/
def Chosen (pair : Pairing) :
    (Outcome ⊕ Option (Outcome × Snapshot)) → (Outcome ⊕ Option (Outcome × Snapshot)) → Prop
  | .inr best, .inr best' => pair.Bests best best' ∧ best' ≠ best
  | _, _ => False

/-- Where no alternative is left both parses come to what they kept. -/
theorem tracks_untried {best best' : Option (Outcome × Snapshot)}
    (bests : pair.Bests best best') (abreast : pair.Abreast p q) :
    pair.Tracks pair.Chosen (pure (.inr best)) (pure (.inr best')) p q := by
  intro value r ran
  cases ran
  refine ⟨⟨abreast.toAt, fun failed => failed⟩, fun _ => ?_⟩
  by_cases same : best' = best
  · exact Or.inl ⟨by rw [same], abreast⟩
  · exact Or.inr ⟨(bests.ahead.resolve_left same).1, ⟨bests, same⟩, abreast.toBeside⟩

/-- What is done with the outcome of an alternative: a full match is taken, and otherwise the
next alternatives are tried, with what is kept so far. -/
def settle (m : Mark) (outcome : Outcome) (best : Option (Outcome × Snapshot))
    (next : Option (Outcome × Snapshot) → Matcher (Outcome ⊕ Option (Outcome × Snapshot))) :
    Matcher (Outcome ⊕ Option (Outcome × Snapshot)) := do
  if outcome.isFull then
    Cursor.release m
    return .inl outcome
  if (← get).scan && outcome.isPartial && improves outcome best then
    let snapshot ← Cursor.takeBack m
    next (some (outcome, snapshot))
  else do
    Cursor.rollback m
    next best

section Settle

variable {best best' : Option (Outcome × Snapshot)} {outcome : Outcome}
  {u w : Progress} {events : List Event}
  {next next' : Option (Outcome × Snapshot) → Matcher (Outcome ⊕ Option (Outcome × Snapshot))}
  (onward : ∀ {best best' : Option (Outcome × Snapshot)} {p q : Progress},
    pair.Bests best best' → pair.Abreast p q → p.cursor = u.cursor →
      pair.Tracks pair.Chosen (next best) (next' best') p q)
  (bests : pair.Bests best best') (start : pair.Abreast u w)
  (here : r.cursor = u.cursor.marked.extend outcome.tokens events)

include onward bests start here

/-- Both parses go on to the next alternative from the place of the one before. -/
theorem tracks_settle (later : pair.Abreast r t)
    (short : outcome.isFull = false → outcome = .noMatch ∨ outcome.Partly) :
    pair.Tracks pair.Chosen (settle u.cursor.place outcome best next)
      (settle u.cursor.place outcome best' next') r t := by
  unfold settle
  refine tracks_ite (fun _ => ?_) fun unfull => ?_
  · exact tracks_bind_same (tracks_move keeps_handBack later) fun _ _ _ _ last => tracks_pure last _
  · have there : t.cursor = u.cursor.marked.extend outcome.tokens events :=
      later.together.trans here
    have unfull : outcome.isFull = false := by simpa using unfull
    refine tracks_of_eq (keep_eq here _ outcome best) (keep_eq there _ outcome best') rfl
      (onward ?_ ⟨later.toAt.moveTo start.reads start.inside,
        later.toBeside.moveTo u.cursor u.cursor, rfl, later.waved⟩ rfl)
    exact bests.same later.keener later.alike (short unfull) (later.toAt.taken_inside here)

/-- So do they where the second has come to more for that one. -/
theorem departs_settle {n : Nat} {events' : List Event} (at_ : pair.At r)
    (beside : pair.Beside r t) (waved : t.waved = r.waved) (gains : pair.gains)
    (there : t.cursor = u.cursor.marked.extend n events')
    (short : outcome = .noMatch ∨ outcome.Partly) (positive : 0 < n) :
    pair.Departs pair.Chosen (settle u.cursor.place outcome best next)
      (settle u.cursor.place (.partialMatch n) best' next') r t := by
  have unfull : ¬ outcome.isFull = true := by
    rcases short with rfl | ⟨n, -, rfl⟩ <;> exact Bool.false_ne_true
  have unfull' : ¬ (Outcome.partialMatch n).isFull = true := Bool.false_ne_true
  unfold settle
  rw [if_neg unfull, if_neg unfull']
  intro value x chosen _ still
  rw [keep_eq here _ outcome best] at chosen
  rw [keep_eq there _ _ best']
  have gained : pair.Bests (better r.scan outcome (taken u outcome.tokens events) best)
      (better t.scan (.partialMatch n) (taken u n events') best') :=
    bests.gained beside.keener gains short ⟨n, positive, rfl⟩ (at_.taken_inside here)
  exact ((onward gained ⟨at_.moveTo start.reads start.inside,
    beside.moveTo u.cursor u.cursor, rfl, waved⟩ rfl) value x chosen).2 still

end Settle

section Alternatives

variable (fair : pair.Fair) (attempts : pair.Attempts sure attempt attempt')

include attempts in
/-- An alternative is tried in both parses, and those behind it unless it matches in full. -/
theorem tracks_tryThen {kind : Kind ElementId}
    (stands : pair.first.grammar.kind? id = some kind) (other : ∀ slots, kind ≠ .sequence slots)
    (within : outer.Within pair.first.grammar []) {unfiltered : Bool} {current : TokenTypeId}
    {slot : Slot ElementId} (bound : slot.item < pair.first.grammar.elements.size)
    {rest : List (Slot ElementId)} {index : Nat} {best best' : Option (Outcome × Snapshot)}
    (onward : ∀ {best best' : Option (Outcome × Snapshot)} {r t : Progress},
      pair.Bests best best' → pair.Abreast r t → r.cursor = p.cursor →
      pair.Tracks pair.Chosen
        (tryAlternatives pair.first attempt (outer.enter id) unfiltered current rest (index + 1)
          best)
        (tryAlternatives pair.second attempt' (outer.enter id) unfiltered current rest (index + 1)
          best') r t)
    (bests : pair.Bests best best') (abreast : pair.Abreast p q) :
    pair.Tracks pair.Chosen
      (tryThen pair.first attempt (outer.enter id) unfiltered current slot rest index best)
      (tryThen pair.second attempt' (outer.enter id) unfiltered current slot rest index best')
      p q := by
  have place : Path.Within pair.first.grammar (⟨id, index⟩ :: outer) [] :=
    within.push stands fun slots same => absurd same (other slots)
  unfold tryThen
  refine tracks_mark abreast (tracks_bind (attempts.tracks slot.item _ _ _ bound place
    abreast.marked) (fun outcome r t ran later => ?_) ?_)
  · obtain ⟨⟨events, moved⟩, positive⟩ := attempts.honest slot.item _ _ outcome r
      bound place abreast.marked.toSound abreast.marked.level ran
    refine tracks_settle onward bests abreast moved.cursor later fun unfull => ?_
    cases outcome with
    | noMatch => exact Or.inl rfl
    | partialMatch n => exact Or.inr ⟨n, positive rfl, rfl⟩
    | fullMatch n => cases unfull
  · -- The second run gets further in this alternative, and goes back like the first.
    intro outcome outcome' r t ran ran' gains at_ quiet gained beside
    obtain ⟨⟨short, n', positive', rfl⟩, -⟩ := gained
    obtain ⟨⟨events, moved⟩, -⟩ := attempts.honest slot.item _ _ outcome r bound place
      abreast.marked.toSound abreast.marked.level ran
    obtain ⟨⟨events', moved'⟩, -⟩ := attempts.honest' slot.item _ _ _ t bound place
      abreast.marked.sound' abreast.marked.level' ran'
    have there : t.cursor = p.cursor.marked.extend n' events' := by
      rw [← abreast.together]
      exact moved'.cursor
    have waved := attempts.waves gains slot.item _ _ _ _ _ r t bound place abreast.marked ran quiet
      ran'
    exact departs_settle onward bests abreast moved.cursor at_ beside waved gains there short positive'

section Selective

variable (selective : pair.predictor.selective = pair.first.predictor.selective)

include fair selective

theorem tracks_admits (abreast : pair.Abreast p q) (unfiltered : Bool) (current : TokenTypeId)
    (slot : Slot ElementId) :
    pair.Tracks Never (admits pair.first unfiltered current slot)
      (admits pair.second unfiltered current slot) p q := by
  unfold admits
  rw [show pair.second.options.version = pair.first.options.version from fair.version,
    show pair.second.predictor.selective = pair.first.predictor.selective from selective]
  refine tracks_ite (fun _ => tracks_pure abreast _) fun _ => ?_
  refine tracks_ite (fun _ => tracks_pure abreast _) fun _ => ?_
  exact tracks_query (answers_couldStart fair.stage.reliable _ _)
    (answers_couldStart fair.reliable _ _) abreast

include attempts

theorem tracks_tryAlternatives {kind : Kind ElementId}
    (stands : pair.first.grammar.kind? id = some kind) (other : ∀ slots, kind ≠ .sequence slots)
    (within : outer.Within pair.first.grammar []) (unfiltered : Bool) (current : TokenTypeId)
    {slots : List (Slot ElementId)}
    (inside : ∀ slot ∈ slots, slot.item < pair.first.grammar.elements.size)
    (index : Nat) {best best' : Option (Outcome × Snapshot)}
    (bests : pair.Bests best best') (abreast : pair.Abreast p q) :
    pair.Tracks pair.Chosen
      (tryAlternatives pair.first attempt (outer.enter id) unfiltered current slots index best)
      (tryAlternatives pair.second attempt' (outer.enter id) unfiltered current slots index best')
      p q := by
  induction slots generalizing index best best' p q with
  | nil => exact tracks_untried bests abreast
  | cons slot rest ih =>
      have onward : ∀ {best best' : Option (Outcome × Snapshot)} {p q : Progress},
          pair.Bests best best' → pair.Abreast p q →
          pair.Tracks pair.Chosen
            (tryAlternatives pair.first attempt (outer.enter id) unfiltered current rest (index + 1)
              best)
            (tryAlternatives pair.second attempt' (outer.enter id) unfiltered current rest
              (index + 1) best') p q :=
        ih (fun other member => inside other (List.mem_cons_of_mem _ member)) (index + 1)
      unfold tryAlternatives
      refine tracks_bind_same (tracks_admits fair selective abreast unfiltered current slot)
        fun _ _ _ _ after => tracks_ite (fun _ => onward bests after) fun _ => ?_
      exact tracks_tryThen attempts stands other within (inside slot List.mem_cons_self)
        (fun bests after _ => onward bests after) bests after

end Selective

include fair attempts

/-- What is kept ends within the input. -/
theorem ensures_inside {kind : Kind ElementId}
    (stands : pair.first.grammar.kind? id = some kind) (other : ∀ slots, kind ≠ .sequence slots)
    (within : outer.Within pair.first.grammar []) (unfiltered : Bool) (current : TokenTypeId)
    {slots : List (Slot ElementId)}
    (inside : ∀ slot ∈ slots, slot.item < pair.first.grammar.elements.size) (index : Nat)
    {best : Option (Outcome × Snapshot)}
    (kept : ∀ snapshot ∈ best.map Prod.snd, snapshot.stop ≤ pair.input.size) (at_ : pair.At p) :
    Ensures (fun _ => True)
      (tryAlternatives pair.first attempt (outer.enter id) unfiltered current slots index best) p
      fun answer _ => ∀ outcome snapshot, answer = .inr (some (outcome, snapshot)) →
        snapshot.stop ≤ pair.input.size := by
  induction slots generalizing index best p with
  | nil =>
      refine ensures_pure fun outcome snapshot same => kept snapshot ?_
      rw [Sum.inr.inj same]
      rfl
  | cons slot rest ih =>
      have bound := inside slot List.mem_cons_self
      have place : Path.Within pair.first.grammar (⟨id, index⟩ :: outer) [] :=
        within.push stands fun slots same => absurd same (other slots)
      have onward := fun {best : Option (Outcome × Snapshot)} {p : Progress} => @ih p
        (fun other member => inside other (List.mem_cons_of_mem _ member)) (index + 1) best
      unfold tryAlternatives
      obtain ⟨u, after, asked⟩ := at_.asked fair unfiltered current bound
      refine ensures_bind_of_ok asked ?_
      split
      · -- What is passed over changes nothing but what is remembered.
        exact onward kept after
      · refine ensures_mark (ensures_bind (ensures_any _).ran fun outcome r both => ?_)
        have marked : pair.At u.marked := after.moveTo after.reads after.inside
        obtain ⟨⟨events, moved⟩, -⟩ := attempts.honest slot.item _ _ outcome r bound place
          marked.toSound marked.level both.1
        have here : r.cursor = u.cursor.marked.extend outcome.tokens events := moved.cursor
        have later := goes_of_proceeds marked moved
        split
        · exact ensures_bind (ensures_any _) fun _ _ _ => ensures_pure fun _ _ same => by cases same
        · unfold Ensures
          rw [keep_eq here _ outcome best]
          refine onward (fun snapshot member => ?_) (later.toAt.moveTo after.reads after.inside)
          unfold better at member
          split at member
          · obtain rfl : taken u outcome.tokens events = snapshot := by simpa using member
            exact later.toAt.taken_inside here
          · exact kept snapshot member

/-- A choice is followed if the alternatives are that are tried at the token at the cursor. -/
theorem tracks_oneOf_of_tries {alternatives : List (Slot ElementId)} {sortable : Bool}
    (stands : pair.first.grammar.kind? id = some (.oneOf alternatives sortable))
    (within : outer.Within pair.first.grammar [])
    (tries : ∀ {unfiltered : Bool} {current : Token} {u w : Progress},
      u.cursor.current? = some current → (u.cursor.atPlaceholder = true → unfiltered = true) →
      pair.Bests none none → pair.Abreast u w →
      pair.Tracks pair.Chosen
        (tryAlternatives pair.first attempt (outer.enter id) unfiltered current.kind
          ((Kind.oneOf alternatives sortable).tried pair.first.grammar) 0 none)
        (tryAlternatives pair.second attempt' (outer.enter id) unfiltered current.kind
          ((Kind.oneOf alternatives sortable).tried pair.first.grammar) 0 none) u w)
    (abreast : pair.Abreast p q) :
    pair.Tracks (Outcome.Outdone True) (oneOf pair.first attempt (outer.enter id) id)
      (oneOf pair.second attempt' (outer.enter id) id) p q := by
  have inside : ∀ slot ∈ (Kind.oneOf alternatives sortable).tried pair.first.grammar,
      slot.item < pair.first.grammar.elements.size := fun slot member =>
    fair.stage.wellFormed.part_lt_size stands (List.mem_map_of_mem (Kind.mem_tried.1 member))
  have answers := fair.stage.reliable.children id
  have answers' := fair.reliable.children id
  rw [Grammar.triedOf_of_kind? stands] at answers answers'
  unfold oneOf
  refine tracks_answer answers answers' abreast fun u w after => tracks_cursor after ?_
  cases shown : u.cursor.current? with
  | none => exact tracks_pure after _
  | some current =>
      have blank : pair.Bests none none := ⟨nofun, Or.inl rfl⟩
      refine tracks_check fun type _ => ?_
      refine tracks_bind (tries shown (fun marked => by simp [marked]) blank after) ?_ ?_
      · rintro (outcome | _ | ⟨outcome, snapshot⟩) r t ran later
        · exact tracks_pure later _
        · exact tracks_pure later _
        · have stops := ensures_inside fair attempts stands (by simp) within
            (u.cursor.atPlaceholder || type.isChameleon) current.kind inside 0
            (by simp : ∀ snapshot ∈ (none : Option (Outcome × Snapshot)).map Prod.snd,
              snapshot.stop ≤ pair.input.size) after.toAt
          exact tracks_bind_same
            (tracks_move (keeps_restore (stops.of_ok ran outcome snapshot rfl)) later)
            fun _ _ _ _ last => tracks_pure last _
      · -- The runs differ only if neither has found a full match and the second one has something
        -- better to restore.
        rintro (outcome | best) (outcome' | best') r t - - gains at_ quiet chosen beside
        · exact chosen.elim
        · exact chosen.elim
        · exact chosen.elim
        · obtain ⟨bests, differ⟩ := chosen
          obtain ⟨-, outcome', snapshot', rfl, partly'⟩ := bests.ahead.resolve_left differ
          refine departs_of_drifts at_ beside gains quiet trivial ?_
            (drifts_move _ _ (fun fault c failed => tame_restore _ _ _ _ failed) outcome')
            fun value value' short same => .of_short short (same ▸ partly')
          cases best with
          | none => exact ensures_pure (Or.inl rfl)
          | some kept =>
              exact ensures_bind (ensures_any _) fun _ _ _ =>
                ensures_pure (Or.inr (bests.kept kept.1 kept.2 rfl).1)

/-- Choices are followed by choices if both parses pass over the same alternatives. -/
theorem tracks_oneOf (selective : pair.predictor.selective = pair.first.predictor.selective)
    {alternatives : List (Slot ElementId)} {sortable : Bool}
    (stands : pair.first.grammar.kind? id = some (.oneOf alternatives sortable))
    (within : outer.Within pair.first.grammar []) (abreast : pair.Abreast p q) :
    pair.Tracks (Outcome.Outdone True) (oneOf pair.first attempt (outer.enter id) id)
      (oneOf pair.second attempt' (outer.enter id) id) p q := by
  refine tracks_oneOf_of_tries fair attempts stands within (fun _ _ blank after => ?_) abreast
  exact tracks_tryAlternatives fair attempts selective stands (by simp) within _ _
    (fun slot member => fair.stage.wellFormed.part_lt_size stands
      (List.mem_map_of_mem (Kind.mem_tried.1 member))) 0 blank after

end Alternatives

end Pairing

end Dialect
