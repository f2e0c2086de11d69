import Dialect.Proofs.Matching.Element
import Dialect.Proofs.Tracking.Parts

/-!
# Composites side by side

A composite tracks the same composite if the attempts of its parts track each other.  Where
the second parse comes to more for a part than the first, the composite is at its end in
both: the first has no match or an incomplete one, and the second an incomplete one.

There is one exception.  A part that may be left out ends nothing when it comes to nothing, so the
first composite may be matched in full; unless it is required of those parts that the second parse
does not come to more there (`sure`), as it is where the first composite is held to fall short
(`firm`).  A wrapper goes on to its closing delimiters, which are taken at different places then;
whatever words that gives free, neither parse is aborted (`Attempt.Still`).
-/

set_option autoImplicit false

namespace Dialect

namespace Pairing

open Matcher

variable {pair : Pairing} {sure : Path → Nat → Prop} {attempt attempt' : Attempt}
  {p q r t : Progress} {path outer : Path} {id : ElementId} {α β : Type}

/-- Something or other is known of what comes of a step, if that is firm. -/
theorem ensures_if {firm : Prop} {holds : α → Prop} {step : Matcher α}
    (kept : firm → Ensures (fun _ => True) step p fun value _ => holds value) :
    Ensures (fun _ => True) step p fun value _ => firm → holds value := by
  by_cases firmly : firm
  · exact (kept firmly).imp fun _ _ held _ => held
  · exact (ensures_any step).imp fun _ _ _ now => absurd now firmly

/-- Where only the cursor moves in the second parse, the two stay beside each other. -/
theorem departs_of_drifts {with_ : α → α → Prop} {holds holds' : α → Prop} {calm : Prop}
    {step step' : Matcher α} (at_ : pair.At r) (beside : pair.Beside r t) (gains : pair.gains)
    (quiet : r.failure = none) (calmly : calm)
    (left : Ensures (fun _ => True) step r fun value _ => holds value)
    (right : Ensures Fault.Tame step' t fun value w =>
      t.Drifts pair.first.grammar calm w ∧ holds' value)
    (together : ∀ value value', holds value → holds' value' → with_ value value') :
    pair.Departs with_ step step' r t := by
  intro value u ran onward still
  unfold Ensures at right
  cases ran' : step' t with
  | error fault w =>
      rw [ran'] at right
      exact ⟨gains, right⟩
  | ok value' w =>
      rw [ran'] at right
      obtain ⟨drifts', held'⟩ := right
      refine Or.inr ⟨gains, together value value' (left.of_ok ran) held', ?_⟩
      refine ⟨?_, ?_, fun gains => ?_, fun even => absurd gains even,
        drifts'.remembered beside.remembered⟩
      · rw [drifts'.depth, beside.depth, at_.level, onward.level]
      · rw [still]
        exact drifts'.quiet calmly (beside.failure.trans quiet)
      · rw [drifts'.scan, beside.keen gains]

theorem tracks_expected (abreast : pair.Abreast p q) (code : DiagnosticCode) (id : ElementId) :
    pair.Tracks Never (expected pair.first code id) (expected pair.second code id) p q := by
  unfold expected
  refine tracks_cursor abreast (tracks_check fun found _ => ?_)
  exact tracks_move (keeps_report found) abreast

theorem tracks_expectedHere (abreast : pair.Abreast p q) (id : ElementId) :
    pair.Tracks Never (expectedHere pair.first id) (expectedHere pair.second id) p q := by
  unfold expectedHere
  exact tracks_check fun code _ => tracks_expected abreast code id

/-- A part that is a leaf comes to the same in both parses. -/
theorem Attempts.leaf (attempts : pair.Attempts sure attempt attempt') {kind : Kind ElementId}
    (stands : pair.first.grammar.kind? id = some kind) (leaf : kind.isLeaf = true)
    (within : path.Within pair.first.grammar []) (abreast : pair.Abreast p q) :
    pair.Tracks Never (attempt id path) (attempt' id path) p q := by
  refine (attempts.tracks id path p q (Grammar.lt_of_kind?_eq_some stands) within abreast).imp ?_
  rintro outcome outcome' - ⟨-, -, -, composite⟩
  rw [composite kind stands] at leaf
  cases leaf

section Honest

variable {outcome : Outcome} (attempts : pair.Attempts sure attempt attempt')
  (bound : id < pair.first.grammar.elements.size) (within : path.Within pair.first.grammar [])
  (at_ : pair.At p) (ran : attempt id path p = .ok outcome r)

include attempts bound within at_ ran

/-- A match takes a token or more. -/
theorem Attempts.positive (isMatch : outcome.isMatch = true) : 0 < outcome.tokens :=
  (attempts.honest id path p outcome r bound within at_.toSound at_.level ran).positive isMatch

theorem Attempts.lands : pair.At r := by
  obtain ⟨⟨events, moved⟩, -⟩ :=
    attempts.honest id path p outcome r bound within at_.toSound at_.level ran
  exact (goes_of_proceeds at_ moved).toAt

/-- The cursor is behind what was taken. -/
theorem Attempts.position : r.cursor.position = p.cursor.position + outcome.tokens := by
  obtain ⟨⟨events, moved⟩, -⟩ :=
    attempts.honest id path p outcome r bound within at_.toSound at_.level ran
  exact moved.position

end Honest

section Composites

variable {firm : Prop} (at_ : pair.At r) (beside : pair.Beside r t) (gains : pair.gains)
  (quiet : r.failure = none)

include at_ beside gains quiet

/-- A composite of which nothing was matched is undone, where the second parse matched a part
of it. -/
theorem departs_rollback {outcome : Outcome} {m : Mark} {move : Cursor.Step Unit}
    (tame : Cursor.Tame move) (partly : outcome.Partly) :
    pair.Departs (Outcome.Outdone firm) (do Cursor.rollback m; return .noMatch)
      (do move; return outcome) r t := by
  have undone : Ensures (fun _ => True) (do Cursor.rollback m; return .noMatch : Matcher Outcome) r
      fun value _ => value.Short :=
    ensures_bind (ensures_any _) fun _ _ _ => ensures_pure (Or.inl rfl)
  refine departs_of_drifts at_ beside gains quiet trivial undone
    (drifts_move _ _ (fun fault c failed => tame _ _ _ failed) outcome) ?_
  rintro value value' short rfl
  exact .of_short short partly

/-- A composite of which the second parse matched a part is kept. -/
theorem departs_keep {outcome outcome' : Outcome} {move : Cursor.Step Unit}
    (tame : Cursor.Tame move) (partly : firm → outcome.Partly) (partly' : outcome'.Partly) :
    pair.Departs (Outcome.Outdone firm) (do move; return outcome) (do move; return outcome')
      r t := by
  have kept : Ensures (fun _ => True) (do move; return outcome : Matcher Outcome) r fun value _ =>
      firm → value.Short :=
    ensures_bind (ensures_any _) fun _ _ _ => ensures_pure fun firmly => Or.inr (partly firmly)
  refine departs_of_drifts at_ beside gains quiet trivial kept
    (drifts_move _ _ (fun fault c failed => tame _ _ _ failed) outcome') ?_
  rintro value value' short rfl
  exact ⟨short, partly'⟩

/-- Incomplete composites are recorded. -/
theorem departs_complete {tally tally' : Tally} (m : Mark) (id : ElementId)
    (partly : firm → tally.Partly) (partly' : tally'.Partly) :
    pair.Departs (Outcome.Outdone firm) (do Cursor.complete m id; return tally.outcome)
      (do Cursor.complete m id; return tally'.outcome) r t :=
  departs_keep at_ beside gains quiet (tame_complete m id) (fun firmly => (partly firmly).outcome)
    partly'.outcome

end Composites

/-! ### Sequences -/

/-- A required slot that nothing fills ends a sequence. -/
theorem short_unfilled (s : Setting) (id : ElementId) (tokens : Nat) :
    Ensures (fun _ => True) (if tokens = 0 then return ⟨0, false⟩ else do
        expectedHere s id
        return ⟨tokens, false⟩ : Matcher Tally) r fun tally _ => tally.complete = false := by
  split
  · exact ensures_pure rfl
  · exact ensures_bind (ensures_any _) fun _ _ _ => ensures_pure rfl

section Sequences

variable (firm : Prop) (fair : pair.Fair) (attempts : pair.Attempts sure attempt attempt')

include fair attempts

theorem tracks_fillSlots {slots : List (Slot ElementId)} {index tokens : Nat}
    (inside : ∀ slot ∈ slots, slot.item < pair.first.grammar.elements.size)
    (within : ∀ k, k < slots.length → Path.Within pair.first.grammar (⟨id, index + k⟩ :: outer) [])
    (spare : firm → ∀ k slot, slots[k]? = some slot → slot.optional = true →
      ∀ position, sure (⟨id, index + k⟩ :: outer) position)
    (abreast : pair.Abreast p q) :
    pair.Tracks (Tally.Outdone firm) (fillSlots pair.first attempt (outer.enter id) slots index tokens)
      (fillSlots pair.second attempt' (outer.enter id) slots index tokens) p q := by
  induction slots generalizing index tokens p q with
  | nil => exact tracks_pure abreast _
  | cons slot rest ih =>
      have here := inside slot List.mem_cons_self
      have place : Path.Within pair.first.grammar (⟨id, index⟩ :: outer) [] :=
        within 0 (Nat.succ_pos _)
      have onward : ∀ {taken : Nat} {r t : Progress}, pair.Abreast r t →
          pair.Tracks (Tally.Outdone firm)
            (fillSlots pair.first attempt (outer.enter id) rest (index + 1) taken)
            (fillSlots pair.second attempt' (outer.enter id) rest (index + 1) taken) r t := by
        intro taken r t
        have next : ∀ k, index + (k + 1) = index + 1 + k := fun k => by omega
        refine ih (fun other member => inside other (List.mem_cons_of_mem _ member))
          (fun k bound => ?_) fun firmly k other found => ?_
        · exact next k ▸ within (k + 1) (Nat.succ_lt_succ bound)
        · exact next k ▸ spare firmly (k + 1) other found
      unfold fillSlots
      rw [show pair.second.options.version = pair.first.options.version from fair.version]
      refine tracks_ite (fun _ => onward abreast) fun _ => ?_
      refine tracks_bind (attempts.tracks slot.item _ p q here place abreast)
        (fun outcome r t _ after => ?_) ?_
      · cases outcome with
        | fullMatch n => exact onward after
        | partialMatch n => exact tracks_pure after _
        | noMatch =>
            refine tracks_ite (fun _ => onward after) fun _ => ?_
            refine tracks_ite (fun _ => tracks_pure after _) fun _ => ?_
            exact tracks_bind_same (tracks_expectedHere after _) fun _ _ _ _ later =>
              tracks_pure later _
      · -- The second run fills the slot where the first falls short: from here on it is ahead.
        rintro outcome outcome' r t - - gains at_ quiet ⟨⟨short, n', positive', rfl⟩, held, -⟩ beside
        refine departs_of_drifts at_ beside gains quiet trivial (ensures_if fun firmly => ?_)
          (ensures_pure ⟨.refl, rfl, Nat.add_pos_right tokens positive'⟩) fun _ _ => And.intro
        rcases short with rfl | ⟨n, positive, rfl⟩
        · have required : ¬ slot.optional = true := fun optional =>
            held (spare firmly 0 slot rfl optional _) rfl
          rw [if_neg required]
          exact short_unfilled pair.first slot.item tokens
        · exact ensures_pure rfl

theorem tracks_sequence {slots : List (Slot ElementId)}
    (stands : pair.first.grammar.kind? id = some (.sequence slots))
    (within : outer.Within pair.first.grammar [])
    (spare : firm → ∀ k slot, slots[k]? = some slot → slot.optional = true →
      ∀ position, sure (⟨id, k⟩ :: outer) position)
    (abreast : pair.Abreast p q) :
    pair.Tracks (Outcome.Outdone firm) (Matcher.sequence pair.first attempt (outer.enter id) id slots)
      (Matcher.sequence pair.second attempt' (outer.enter id) id slots) p q := by
  unfold Matcher.sequence
  refine tracks_mark abreast ?_
  refine tracks_bind (tracks_fillSlots firm fair attempts ?_ (fun k bound => ?_) ?_ abreast.marked)
    (fun tally r t _ after => ?_) ?_
  · exact fun slot member => fair.stage.wellFormed.part_lt_size stands (List.mem_map_of_mem member)
  · refine within.push stands fun other same => ?_
    cases same
    rwa [Nat.zero_add]
  · simpa only [Nat.zero_add] using spare
  · refine tracks_ite (fun _ => ?_) fun _ => ?_
    · exact tracks_bind_same (tracks_move (keeps_rollback abreast.inside) after)
        fun _ _ _ _ last => tracks_pure last _
    · exact tracks_bind_same (tracks_move (keeps_complete _ id) after)
        fun _ _ _ _ last => tracks_pure last _
  · -- If the first run has taken nothing it goes back, while the second one keeps what it has
    -- taken.
    rintro tally tally' r t - - gains at_ quiet ⟨short, partly'⟩ beside
    rw [if_neg (Nat.ne_of_gt partly'.2)]
    by_cases none : tally.tokens = 0
    · rw [if_pos none]
      exact departs_rollback at_ beside gains quiet (tame_complete _ id) partly'.outcome
    · rw [if_neg none]
      exact departs_complete at_ beside gains quiet _ id
        (fun firmly => ⟨short firmly, Nat.pos_of_ne_zero none⟩) partly'

end Sequences

/-! ### Iterations -/

section Iterations

variable (firm : Prop) {item : ElementId} {separator : Option ElementId} (fair : pair.Fair)
  (attempts : pair.Attempts sure attempt attempt')
  (stands : pair.first.grammar.kind? id = some (.iteration item separator))
  (within : outer.Within pair.first.grammar [])

include fair attempts stands within

/-- Further items, behind the place where the iteration has begun. -/
theorem tracks_repeatItem {start : Nat} (spare : firm → separator = none →
      ∀ position, start < position → sure (⟨id, 0⟩ :: outer) position)
    (rounds : Nat) {tokens : Nat} (positive : 0 < tokens) (further : start < p.cursor.position)
    (abreast : pair.Abreast p q) :
    pair.Tracks (fun tally tally' => (firm → tally.Partly) ∧ tally'.Partly)
      (repeatItem pair.first attempt (outer.enter id) item separator rounds tokens)
      (repeatItem pair.second attempt' (outer.enter id) item separator rounds tokens) p q := by
  have bound : item < pair.first.grammar.elements.size :=
    fair.stage.wellFormed.part_lt_size stands List.mem_cons_self
  have place : ∀ slot, Path.Within pair.first.grammar (⟨id, slot⟩ :: outer) [] := fun slot =>
    within.push stands fun slots same => by cases same
  induction rounds generalizing tokens p q with
  | zero => exact tracks_throw _
  | succ rounds ih =>
      unfold repeatItem
      cases separator with
      | none =>
          refine tracks_bind (attempts.tracks item _ p q bound (place 0) abreast)
            (fun outcome r t ran after => ?_) ?_
          · have moved := attempts.position bound (place 0) abreast.toAt ran
            cases outcome with
            | fullMatch n => exact ih (Nat.add_pos_left positive n) (by omega) after
            | _ => exact tracks_pure after _
          · rintro outcome outcome' r t - - gains at_ quiet ⟨⟨short, n', positive', rfl⟩, held, -⟩ beside
            refine departs_of_drifts at_ beside gains quiet trivial (ensures_if fun firmly => ?_)
              (ensures_pure ⟨.refl, rfl, Nat.add_pos_right tokens positive'⟩) fun _ _ => And.intro
            -- An item that may be left out cannot be missing in the first run alone.
            rcases short with rfl | ⟨n, -, rfl⟩
            · exact absurd rfl (held (spare firmly rfl _ further))
            · exact ensures_pure ⟨rfl, Nat.add_pos_left positive n⟩
      | some between =>
          obtain ⟨-, type, separates⟩ :=
            (fair.stage.wellFormed.placed id _ stands).2 between rfl
          refine tracks_bind_same (attempts.leaf separates rfl (place 1) abreast)
            fun separated r t ran after => tracks_ite (fun _ => tracks_pure after _) fun _ => ?_
          have moved := attempts.position (Grammar.lt_of_kind?_eq_some separates) (place 1)
            abreast.toAt ran
          refine tracks_bind (attempts.tracks item _ r t bound (place 0) after)
            (fun outcome u w ran' later => ?_) ?_
          · have moved' := attempts.position bound (place 0) after.toAt ran'
            cases outcome with
            | fullMatch n => exact ih (by omega) (by omega) later
            | partialMatch n => exact tracks_pure later _
            | noMatch =>
                exact tracks_bind_same (tracks_expected later _ _) fun _ _ _ _ last =>
                  tracks_pure last _
          · rintro outcome outcome' u w - - gains at_ quiet ⟨⟨short, n', positive', rfl⟩, -⟩ beside
            refine departs_of_drifts at_ beside gains quiet trivial (ensures_if fun _ => ?_)
              (ensures_pure ⟨.refl, rfl, Nat.add_pos_right _ positive'⟩) fun _ _ => And.intro
            rcases short with rfl | ⟨n, -, rfl⟩
            · exact ensures_bind (ensures_any _) fun _ _ _ =>
                ensures_pure ⟨rfl, Nat.succ_pos tokens⟩
            · exact ensures_pure ⟨rfl, Nat.add_pos_left (Nat.succ_pos tokens) n⟩

theorem tracks_iteration (spare : firm → separator = none →
      ∀ position, p.cursor.position < position → sure (⟨id, 0⟩ :: outer) position)
    (abreast : pair.Abreast p q) :
    pair.Tracks (Outcome.Outdone firm)
      (iteration pair.first attempt (outer.enter id) id item separator)
      (iteration pair.second attempt' (outer.enter id) id item separator) p q := by
  have bound : item < pair.first.grammar.elements.size :=
    fair.stage.wellFormed.part_lt_size stands List.mem_cons_self
  have place : Path.Within pair.first.grammar (⟨id, 0⟩ :: outer) [] :=
    within.push stands fun slots same => by cases same
  unfold iteration
  refine tracks_mark abreast ?_
  refine tracks_bind (attempts.tracks item _ _ _ bound place abreast.marked)
    (fun outcome r t ran after => ?_) ?_
  · cases outcome with
    | noMatch =>
        exact tracks_bind_same (tracks_move (keeps_rollback abreast.inside) after)
          fun _ _ _ _ last => tracks_pure last _
    | partialMatch n =>
        exact tracks_bind_same (tracks_move (keeps_complete _ id) after)
          fun _ _ _ _ last => tracks_pure last _
    | fullMatch n =>
        have positive : 0 < n := attempts.positive bound place abreast.marked.toAt ran rfl
        have moved := attempts.position bound place abreast.marked.toAt ran
        have further : p.cursor.position < r.cursor.position := by
          rw [moved]
          exact Nat.lt_add_of_pos_right positive
        refine tracks_cursor after ?_
        refine tracks_bind (tracks_repeatItem firm fair attempts stands within spare _ positive further
          after) (fun tally u w _ later => ?_) ?_
        · exact tracks_bind_same (tracks_move (keeps_complete _ id) later)
            fun _ _ _ _ last => tracks_pure last _
        · rintro tally tally' u w - - gains at_ quiet ⟨partly, partly'⟩ beside
          exact departs_complete at_ beside gains quiet _ id partly partly'
  · -- They differ in the first item already.
    rintro outcome outcome' r t - - gains at_ quiet ⟨⟨short, n', positive', rfl⟩, -⟩ beside
    rcases short with rfl | ⟨n, positive, rfl⟩
    · exact departs_rollback at_ beside gains quiet (tame_complete _ id) ⟨n', positive', rfl⟩
    · exact departs_keep at_ beside gains quiet (tame_complete _ id)
        (fun _ => ⟨n, positive, rfl⟩) ⟨n', positive', rfl⟩

end Iterations

/-! ### Wrappers -/

section Closing

variable {s : Setting} {input : Input} {closing : ElementId} {depth : Nat}
  (still : attempt.Still s input depth closing) (within : (path.moveTo 2).Within s.grammar [])

include still within

theorem drifts_closeAll (sound : p.Sound s.grammar input) (level : p.depth = depth)
    (opened : List TextRange) :
    Ensures Fault.Tame (closeAll attempt path closing opened) p fun _ r =>
      p.Drifts s.grammar (s.Open depth) r := by
  induction opened generalizing p with
  | nil => exact ensures_pure .refl
  | cons range outer ih =>
      unfold closeAll
      refine ensures_bind (still _ p within sound level) fun outcome q both => ?_
      obtain ⟨drifts, sound'⟩ := both
      split
      · refine ensures_bind (ih sound' (drifts.depth.trans level)) fun result r further => ?_
        exact ensures_pure (drifts.trans further)
      · exact ensures_pure drifts

/-- An incomplete wrapper is closed without a report. -/
theorem drifts_close (sound : p.Sound s.grammar input) (level : p.depth = depth)
    (opened : List TextRange) {tally : Tally} (partly : tally.Partly) :
    Ensures Fault.Tame (close s attempt path closing opened tally) p fun closed r =>
      p.Drifts s.grammar (s.Open depth) r ∧ closed.Partly := by
  obtain ⟨short, positive⟩ := partly
  unfold close
  refine ensures_bind (drifts_closeAll still within sound level opened) ?_
  rintro ⟨closed, _ | ⟨innermost, others⟩⟩ r drifts
  · exact ensures_pure ⟨drifts, short, Nat.add_pos_left positive closed⟩
  · dsimp only
    rw [short, if_neg (by decide)]
    exact ensures_pure ⟨drifts, rfl, Nat.add_pos_left positive closed⟩

theorem drifts_finish (sound : p.Sound s.grammar input) (level : p.depth = depth)
    (opened : List TextRange) (m : Mark) (id : ElementId) {tally : Tally} (partly : tally.Partly) :
    Ensures Fault.Tame (do
      let tally ← close s attempt path closing opened tally
      Cursor.complete m id
      return tally.outcome) p fun outcome r =>
        p.Drifts s.grammar (s.Open depth) r ∧ outcome.Partly := by
  refine ensures_bind (drifts_close still within sound level opened partly) fun closed q both => ?_
  obtain ⟨drifts, partly⟩ := both
  have completes : Ensures Fault.Tame _ q fun outcome r =>
      q.Drifts s.grammar (s.Open depth) r ∧ outcome = closed.outcome :=
    drifts_move _ _ (fun fault c failed => tame_complete m id _ _ _ failed) closed.outcome
  refine completes.imp fun outcome r later => ?_
  rw [later.2]
  exact ⟨drifts.trans later.1, partly.outcome⟩

end Closing

/-- What falls short is tallied as incomplete, unless it may be left out. -/
theorem drifts_addContent {s : Setting} {input : Input} (stage : Stage s input)
    (sound : r.Sound s.grammar input) {slot : Slot ElementId}
    (bound : slot.item < s.grammar.elements.size) {opened : Nat} (nonempty : 0 < opened)
    {outcome : Outcome} (short : outcome = .noMatch ∧ slot.optional = false ∨ outcome.Partly) :
    Ensures (fun _ => True) (addContent s slot opened outcome) r fun tally u =>
      (r.Drifts s.grammar False u ∧ u.Sound s.grammar input) ∧ tally.Partly := by
  rcases short with ⟨rfl, required⟩ | ⟨n, -, rfl⟩
  · unfold addContent
    rw [required]
    refine ensures_bind (drifts_expectedHere stage sound bound) fun _ u reported => ?_
    exact ensures_pure ⟨reported, rfl, nonempty⟩
  · exact ensures_pure ⟨⟨.refl, sound⟩, rfl, Nat.add_pos_left nonempty n⟩

section Wrappers

variable {firm : Prop} {opening closing : ElementId} {slot : Slot ElementId} {repeated : Bool}
  (fair : pair.Fair)
  (attempts : pair.Attempts sure attempt attempt')
  (stands : pair.first.grammar.kind? id = some (.wrapper opening slot closing repeated))
  (within : outer.Within pair.first.grammar [])

include attempts stands within

/-- What goes together for the content of a wrapper. -/
theorem tracks_content (fair : pair.Fair) (abreast : pair.Abreast p q) :
    pair.Tracks (pair.Gains (sure (⟨id, 1⟩ :: outer) p.cursor.position) slot.item)
      (content pair.first attempt (outer.enter id) slot)
      (content pair.second attempt' (outer.enter id) slot) p q := by
  have bound : slot.item < pair.first.grammar.elements.size :=
    fair.stage.wellFormed.part_lt_size stands (by simp [Kind.parts])
  unfold content
  rw [show pair.second.options.version = pair.first.options.version from fair.version]
  exact tracks_ite (fun _ => attempts.tracks slot.item _ p q bound (within.wrapper stands 1) abreast)
    fun _ => tracks_pure abreast _

/-- What the second parse comes to for the content is where its cursor has moved. -/
theorem sound_content (fair : pair.Fair) (abreast : pair.Abreast p q) {outcome : Outcome}
    (ran : content pair.second attempt' (outer.enter id) slot q = .ok outcome t) :
    t.Sound pair.first.grammar pair.input := by
  have bound : slot.item < pair.first.grammar.elements.size :=
    fair.stage.wellFormed.part_lt_size stands (by simp [Kind.parts])
  unfold content at ran
  split at ran
  · obtain ⟨⟨events, moved⟩, -⟩ := attempts.honest' slot.item _ q outcome t bound
      (within.wrapper stands 1) abreast.sound' abreast.level' ran
    exact moved.sound abreast.sound'
  · cases ran
    exact abreast.sound'

omit attempts stands within in
theorem tracks_addContent (abreast : pair.Abreast p q) (slot : Slot ElementId) (opened : Nat)
    (outcome : Outcome) :
    pair.Tracks Never (addContent pair.first slot opened outcome)
      (addContent pair.second slot opened outcome) p q := by
  unfold addContent
  cases outcome with
  | noMatch =>
      refine tracks_ite (fun _ => tracks_pure abreast _) fun _ => ?_
      exact tracks_bind_same (tracks_expectedHere abreast _) fun _ _ _ _ after =>
        tracks_pure after _
  | _ => exact tracks_pure abreast _

theorem tracks_closeAll (fair : pair.Fair) (abreast : pair.Abreast p q) (opened : List TextRange) :
    pair.Tracks Never (closeAll attempt (outer.enter id) closing opened)
      (closeAll attempt' (outer.enter id) closing opened) p q := by
  obtain ⟨-, -, -, type, closes⟩ := fair.stage.wellFormed.placed id _ stands
  induction opened generalizing p q with
  | nil => exact tracks_pure abreast _
  | cons range others ih =>
      unfold closeAll
      refine tracks_bind_same (attempts.leaf closes rfl (within.wrapper stands 2) abreast)
        fun _ _ _ _ after => tracks_ite (fun _ => ?_) fun _ => tracks_pure after _
      exact tracks_bind_same (ih after) fun _ _ _ _ later => tracks_pure later _

/-- A wrapper is closed and recorded in both parses. -/
theorem tracks_finish (fair : pair.Fair) {with_ : Outcome → Outcome → Prop}
    (abreast : pair.Abreast p q) (m : Mark) (opened : List TextRange) (tally : Tally) :
    pair.Tracks with_ (do
        let tally ← close pair.first attempt (outer.enter id) closing opened tally
        Cursor.complete m id
        return tally.outcome)
      (do
        let tally ← close pair.second attempt' (outer.enter id) closing opened tally
        Cursor.complete m id
        return tally.outcome) p q := by
  refine tracks_bind_same ?_ fun closed r t _ after => ?_
  · unfold close
    refine tracks_bind_same (tracks_closeAll attempts stands within fair abreast opened) ?_
    rintro ⟨closed, _ | ⟨innermost, others⟩⟩ r t - after
    · exact tracks_pure after _
    · refine tracks_ite (fun _ => ?_) fun _ => tracks_pure after _
      refine tracks_bind_same ?_ fun _ _ _ _ later => tracks_pure later _
      exact tracks_bind_same (tracks_expected after _ _) fun _ _ _ _ later =>
        tracks_move (keeps_annotate _) later
  · exact tracks_bind_same (tracks_move (keeps_complete m id) after) fun _ _ _ _ last =>
      tracks_pure last _

/-- The content of a wrapper is tallied, and the wrapper is closed and recorded. -/
theorem tracks_enclose (fair : pair.Fair) {with_ : Outcome → Outcome → Prop}
    (abreast : pair.Abreast p q) (m : Mark) (opened : List TextRange) (outcome : Outcome) :
    pair.Tracks with_ (do
        let tally ← addContent pair.first slot opened.length outcome
        let tally ← close pair.first attempt (outer.enter id) closing opened tally
        Cursor.complete m id
        return tally.outcome)
      (do
        let tally ← addContent pair.second slot opened.length outcome
        let tally ← close pair.second attempt' (outer.enter id) closing opened tally
        Cursor.complete m id
        return tally.outcome) p q :=
  tracks_bind_same (tracks_addContent abreast slot _ outcome) fun tally _ _ _ after =>
    tracks_finish attempts stands within fair after m opened tally

/-- Where the second parse comes to more for the content, both wrappers are incomplete. -/
theorem departs_enclose (fair : pair.Fair) {held : Prop} {outcome outcome' : Outcome}
    (spare : firm → slot.optional = true → held) (gains : pair.gains) (at_ : pair.At r)
    (beside : pair.Beside r t) (quiet : r.failure = none)
    (sound' : t.Sound pair.first.grammar pair.input)
    (gained : pair.Gains held slot.item outcome outcome') (m : Mark) {opened : List TextRange}
    (nonempty : 0 < opened.length) :
    pair.Departs (Outcome.Outdone firm) (do
        let tally ← addContent pair.first slot opened.length outcome
        let tally ← close pair.first attempt (outer.enter id) closing opened tally
        Cursor.complete m id
        return tally.outcome)
      (do
        let tally ← addContent pair.second slot opened.length outcome'
        let tally ← close pair.second attempt' (outer.enter id) closing opened tally
        Cursor.complete m id
        return tally.outcome) r t := by
  obtain ⟨-, -, -, type, closes⟩ := fair.stage.wellFormed.placed id _ stands
  obtain ⟨still, still'⟩ := attempts.still gains closing _ closes rfl
  obtain ⟨⟨short, n', positive', rfl⟩, sure, opens, -⟩ := gained
  have bound : slot.item < pair.first.grammar.elements.size :=
    fair.stage.wellFormed.part_lt_size stands (by simp [Kind.parts])
  have place : ((outer.enter id).moveTo 2).Within pair.first.grammar [] := within.wrapper stands 2
  refine departs_of_drifts at_ beside gains quiet opens (ensures_if fun firmly => ?_)
    (drifts_finish still' place sound' (beside.depth.trans at_.level) opened m id
      ⟨rfl, Nat.add_pos_right _ positive'⟩) fun outcome outcome' partly partly' =>
        ⟨fun firmly => Or.inr (partly firmly), partly'⟩
  have required : outcome = .noMatch ∧ slot.optional = false ∨ outcome.Partly := by
    refine short.imp_left fun none => ⟨none, ?_⟩
    by_contra optional
    exact sure (spare firmly (by simpa using optional)) none
  refine ensures_bind (drifts_addContent fair.stage at_.toSound bound nonempty required) ?_
  rintro tally u ⟨⟨drifts, sound⟩, partly⟩
  exact ((drifts_finish still place sound (drifts.depth.trans at_.level) opened m id
    partly).pardon fun _ _ => trivial).imp fun _ _ both => both.2

theorem tracks_wrapper (fair : pair.Fair)
    (spare : firm → slot.optional = true →
      ∀ position, p.cursor.position < position → sure (⟨id, 1⟩ :: outer) position)
    (abreast : pair.Abreast p q) :
    pair.Tracks (Outcome.Outdone firm)
      (wrapper pair.first attempt (outer.enter id) id opening slot closing)
      (wrapper pair.second attempt' (outer.enter id) id opening slot closing) p q := by
  obtain ⟨⟨-, type, opens⟩, -, -⟩ := fair.stage.wellFormed.placed id _ stands
  unfold wrapper
  refine tracks_mark abreast (tracks_cursor abreast.marked (tracks_check fun range _ => ?_))
  refine tracks_bind_same (attempts.leaf opens rfl (within.wrapper stands 0) abreast.marked)
    fun opened r t ran after => tracks_ite (fun _ => ?_) fun isMatch => ?_
  · exact tracks_bind_same (tracks_move (keeps_rollback abreast.inside) after)
      fun _ _ _ _ last => tracks_pure last _
  · -- The content stands behind the opening delimiter.
    have bound := Grammar.lt_of_kind?_eq_some opens
    have positive := attempts.positive bound (within.wrapper stands 0) abreast.marked.toAt ran
      (by simpa using isMatch)
    have moved := attempts.position bound (within.wrapper stands 0) abreast.marked.toAt ran
    have further : p.cursor.position < r.cursor.position := by
      rw [moved]
      exact Nat.lt_add_of_pos_right positive
    rw [show pair.second.options.version = pair.first.options.version from fair.version]
    refine tracks_ite (fun _ => ?_) fun _ => ?_
    · refine tracks_bind (tracks_content attempts stands within fair after)
        (fun outcome u w _ later => ?_) ?_
      · exact tracks_enclose attempts stands within fair later _ [range] outcome
      · rintro outcome outcome' u w - ran' gains at_ quiet gained beside
        have single : 0 < [range].length := Nat.one_pos
        exact departs_enclose attempts stands within fair
          (fun firmly optional => spare firmly optional _ further) gains at_ beside quiet
          (sound_content attempts stands within fair after ran') gained _ single
    · exact tracks_bind_same (tracks_pure after _) fun tally _ _ _ later =>
        tracks_finish attempts stands within fair later _ [range] tally

theorem tracks_openAll (fair : pair.Fair) (abreast : pair.Abreast p q) (rounds : Nat)
    (opened : List TextRange) :
    pair.Tracks Never (openAll attempt (outer.enter id) opening rounds opened)
      (openAll attempt' (outer.enter id) opening rounds opened) p q := by
  obtain ⟨⟨-, type, opens⟩, -, -⟩ := fair.stage.wellFormed.placed id _ stands
  induction rounds generalizing opened p q with
  | zero => exact tracks_throw _
  | succ rounds ih =>
      unfold openAll
      refine tracks_cursor abreast (tracks_check fun range _ => ?_)
      refine tracks_bind_same (attempts.leaf opens rfl (within.wrapper stands 0) abreast)
        fun _ _ _ _ after => tracks_ite (fun _ => ih after _) fun _ => tracks_pure after _

/-- Every opening delimiter that is taken is behind the cursor. -/
theorem position_of_openAll (fair : pair.Fair) (at_ : pair.At p) (rounds : Nat)
    {opened all : List TextRange}
    (ran : openAll attempt (outer.enter id) opening rounds opened p = .ok all r) :
    p.cursor.position + all.length ≤ r.cursor.position + opened.length := by
  obtain ⟨⟨-, type, opens⟩, -, -⟩ := fair.stage.wellFormed.placed id _ stands
  have bound := Grammar.lt_of_kind?_eq_some opens
  induction rounds generalizing opened p with
  | zero => cases ran
  | succ rounds ih =>
      unfold openAll at ran
      obtain ⟨c, _, here, ran⟩ := bind_apply_eq_ok.1 ran
      obtain ⟨rfl, rfl⟩ := EStateM.Result.ok.inj (cursor_eq.symm.trans here)
      obtain ⟨range, _, checked, ran⟩ := bind_apply_eq_ok.1 ran
      obtain ⟨-, rfl⟩ := check_eq_ok.1 checked
      obtain ⟨outcome, q, attempted, ran⟩ := bind_apply_eq_ok.1 ran
      have onward := attempts.lands bound (within.wrapper stands 0) at_ attempted
      have moved := attempts.position bound (within.wrapper stands 0) at_ attempted
      split at ran
      · have positive := attempts.positive bound (within.wrapper stands 0) at_ attempted ‹_›
        have further := ih onward ran
        rw [List.length_cons] at further
        omega
      · cases ran
        omega

theorem tracks_balanced (fair : pair.Fair)
    (spare : firm → slot.optional = true →
      ∀ position, p.cursor.position < position → sure (⟨id, 1⟩ :: outer) position)
    (abreast : pair.Abreast p q) :
    pair.Tracks (Outcome.Outdone firm)
      (balanced pair.first attempt (outer.enter id) id opening slot closing)
      (balanced pair.second attempt' (outer.enter id) id opening slot closing) p q := by
  unfold balanced
  refine tracks_mark abreast (tracks_cursor abreast.marked ?_)
  refine tracks_bind_same (tracks_openAll attempts stands within fair abreast.marked _ [])
    fun opened r t ran after => ?_
  have moved := position_of_openAll attempts stands within fair abreast.marked.toAt _ ran
  refine tracks_bind (tracks_content attempts stands within fair after)
    (fun outcome u w _ later => ?_) ?_
  · refine tracks_ite (fun _ => tracks_ite (fun _ => ?_) fun _ => ?_) fun _ => ?_
    · exact tracks_bind_same (tracks_move keeps_handBack later) fun _ _ _ _ last =>
        tracks_pure last _
    · exact tracks_bind_same (tracks_move (keeps_rollback abreast.inside) later)
        fun _ _ _ _ last => tracks_pure last _
    · exact tracks_enclose attempts stands within fair later _ opened outcome
  · rintro outcome outcome' u w - ran' gains at_ quiet gained beside
    cases opened with
    | nil =>
        obtain ⟨⟨short, n', positive', rfl⟩, -⟩ := gained
        rcases short with rfl | ⟨n, positive, rfl⟩
        · exact departs_rollback at_ beside gains quiet tame_handBack ⟨n', positive', rfl⟩
        · exact departs_keep at_ beside gains quiet tame_handBack (fun _ => ⟨n, positive, rfl⟩)
            ⟨n', positive', rfl⟩
    | cons range others =>
        have further : p.cursor.position < r.cursor.position := by
          have here : p.marked.cursor.position = p.cursor.position := rfl
          rw [here, List.length_cons, List.length_nil] at moved
          omega
        exact departs_enclose attempts stands within fair
          (fun firmly optional => spare firmly optional _ further) gains at_ beside quiet
          (sound_content attempts stands within fair after ran') gained _ (Nat.succ_pos _)

end Wrappers

end Pairing

end Dialect
