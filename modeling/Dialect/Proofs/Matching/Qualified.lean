import Dialect.Matching.Choice
import Dialect.Proofs.Matching.Leaf

/-!
# Qualified identifiers keep the contract

When no variant fits, the one that got furthest is matched once more, this time to report
where it stops.  The second pass would break the contract if it took nothing.  It does
not: the first part of the variant is a leaf, and what a leaf has taken once it takes
again (`Attempt.Steady`), for all that was given free in between.
-/

set_option autoImplicit false

namespace Dialect

/-! ### Leaves take again what they have taken -/

/-- Elements at this depth may be entered. -/
def Setting.Open (s : Setting) (depth : Nat) : Prop :=
  s.cancelled = false ∧ depth < s.options.maxDepth

/-- The element is matched at the cursor now and whenever the parse comes back to it. -/
def Certain (s : Setting) (input : Input) (attempt : Attempt) (id : ElementId) (path : Path)
    (p : Progress) : Prop :=
  ∀ q : Progress, q.Sound s.grammar input → q.cursor.position = p.cursor.position →
    q.depth = p.depth → q.failure = none → (∀ entry ∈ p.waved, entry ∈ q.waved) →
      ∃ r, attempt id path q = .ok (.fullMatch 1) r

/-- A leaf that is matched once is matched again. -/
def Attempt.Steady (s : Setting) (input : Input) (attempt : Attempt) : Prop :=
  ∀ (id : ElementId) (kind : Kind ElementId) (path : Path) (p q : Progress) (n : Nat),
    s.grammar.kind? id = some kind → kind.isLeaf = true → p.Sound s.grammar input →
      attempt id path p = .ok (.fullMatch n) q →
        p.failure = none ∧ s.Open p.depth ∧ Certain s input attempt id path p

theorem Certain.mono {s : Setting} {input : Input} {attempt : Attempt} {id : ElementId}
    {path : Path} {p q : Progress} (certain : Certain s input attempt id path p)
    (position : q.cursor.position = p.cursor.position) (depth : q.depth = p.depth)
    (waved : ∀ entry ∈ p.waved, entry ∈ q.waved) : Certain s input attempt id path q :=
  fun r sound there level quiet further => certain r sound (there.trans position)
    (level.trans depth) quiet fun entry member => further entry (waved entry member)

/-- The result of a step together with the run that led to it. -/
theorem Ensures.ran {α : Type} {excused : Fault → Prop} {step : Matcher α} {p : Progress}
    {post : α → Progress → Prop} (kept : Ensures excused step p post) :
    Ensures excused step p fun value q => step p = .ok value q ∧ post value q := by
  unfold Ensures at kept ⊢
  split at kept
  · rename_i value q ran
    exact ⟨ran, kept⟩
  · exact kept

theorem Proceeds.imp {g : Grammar} {calm calm' : Prop} {p q : Progress} {n : Nat}
    {events : List Event} (moved : Proceeds g calm p n events q) (weaker : calm' → calm) :
    Proceeds g calm' p n events q := by
  obtain ⟨depth, scan, waved, aborted, quiet⟩ := moved.keeps
  exact ⟨⟨depth, scan, waved, aborted, fun calm => quiet (weaker calm)⟩, moved.cursor,
    moved.inside, moved.faithful⟩

variable {s : Setting} {input : Input} {around outer : Path} {terms : Terms} {depth : Nat}
  {attempt : Attempt} {calm keen : Prop} {id separator : ElementId}
  {variants : List (List ElementId)} {report : Bool} {p q r : Progress}

/-! ### Parts -/

/-- A missing part of a name is reported, or passed over in silence. -/
theorem missingPart_honours (calm : Prop) (stage : Stage s input)
    (sound : p.Sound s.grammar input) {item : ElementId}
    (bound : item < s.grammar.elements.size) (report : Bool) :
    Ensures (Excused s.grammar input around) (Matcher.missingPart s report item) p fun _ q =>
      ∃ events, Reported s input report item p.cursor.position events ∧
        Proceeds s.grammar calm p 0 events q := by
  unfold Matcher.missingPart
  cases report with
  | false => exact ensures_pure ⟨[], rfl, .refl calm sound⟩
  | true =>
      refine (ensures_expected calm stage sound bound .E0303).imp fun _ q => ?_
      rintro ⟨found, missing, reported⟩
      exact ⟨_, ⟨found, missing, rfl⟩, reported⟩

/-- Whatever leaf is attempted, something comes of it, and the parse is not aborted where leaves
may be entered. -/
def Attempt.HonoursLeaves (s : Setting) (input : Input) (around : Path) (terms : Terms)
    (depth : Nat) (attempt : Attempt) : Prop :=
  ∀ id kind, s.grammar.kind? id = some kind → kind.isLeaf = true →
    attempt.HonoursAt s input around terms depth (s.Open depth) id

/-- What is fixed while the parts of a name are matched: they are leaves, they stand at
slots of the name, and they may be entered. -/
structure NameStage (s : Setting) (input : Input) (around outer : Path) (terms : Terms)
    (depth : Nat) (attempt : Attempt) (id separator : ElementId) : Prop where
  stage : Stage s input
  honest : attempt.HonoursLeaves s input around terms depth
  single : LeavesTakeOne s.grammar terms.record
  within : ∀ slot, Path.Within s.grammar (⟨id, slot⟩ :: outer) around
  separates : ∃ type, s.grammar.kind? separator = some (.token type none none)
  free : s.Open depth → ∀ leaf kind position, s.grammar.kind? leaf = some kind →
    kind.isLeaf = true → terms.licence leaf position depth

/-- What the parts behind the first come to when `tokens` were taken before them. -/
def Joining (s : Setting) (input : Input) (terms : Terms) (depth : Nat) (id : ElementId)
    (outer : Path) (separator : ElementId) (report : Bool) (parts : List ElementId)
    (index tokens : Nat) (p : Progress) (outcome : Outcome) (q : Progress) : Prop :=
  ∃ n complete events, outcome = Tally.outcome ⟨tokens + n, complete⟩ ∧
    Proceeds s.grammar (s.Open depth) p n events q ∧
    Joined s input (terms.below id outer) separator report
      parts index complete p.cursor.position (p.cursor.position + n) events

namespace Joining

variable {part : ElementId} {rest : List ElementId} {index tokens : Nat} {outcome : Outcome}
  {before events : List Event}

/-- A separator and a part are followed by others. -/
theorem more (moved : Proceeds s.grammar (s.Open depth) p 1 before q)
    (separated : terms.below id outer index separator true p.cursor.position
      (p.cursor.position + 1) before)
    (movedOn : Proceeds s.grammar (s.Open depth) q 1 events r)
    (matched : terms.below id outer index part true q.cursor.position (q.cursor.position + 1) events)
    {t : Progress}
    (others : Joining s input terms depth id outer separator report rest (index + 1) (tokens + 1 + 1)
      r outcome t) :
    Joining s input terms depth id outer separator report (part :: rest) index tokens p outcome t := by
  obtain ⟨n, complete, more, rfl, movedFurther, joined⟩ := others
  have both := moved.trans movedOn
  rw [both.position, Nat.add_assoc] at joined
  rw [moved.position] at matched
  refine ⟨2 + n, complete, _, ?_, both.trans movedFurther, .more separated matched joined⟩
  rw [Nat.add_assoc tokens 1 1, Nat.add_assoc tokens (1 + 1) n]

/-- The separator is missed. -/
theorem missSeparator (stage : Stage s input) (bound : separator < s.grammar.elements.size)
    (sound : p.Sound s.grammar input) (moved : Proceeds s.grammar (s.Open depth) p 0 [] q) :
    Ensures (Excused s.grammar input around) (do
      Matcher.missingPart s report separator
      return .partialMatch tokens) q
      (Joining s input terms depth id outer separator report (part :: rest) index tokens p) := by
  have here : q.cursor.position = p.cursor.position := moved.position
  refine ensures_bind (missingPart_honours (s.Open depth) stage (moved.sound sound) bound
    report) ?_
  rintro - r ⟨events, reported, movedOn⟩
  rw [here] at reported
  exact ensures_pure ⟨0, false, events, rfl, moved.trans movedOn, .missSeparator reported⟩

/-- The separator is taken and the part behind it is missed. -/
theorem missPart (stage : Stage s input) (bound : part < s.grammar.elements.size)
    (sound : p.Sound s.grammar input) (moved : Proceeds s.grammar (s.Open depth) p 1 before q)
    (separated : terms.below id outer index separator true p.cursor.position
      (p.cursor.position + 1) before)
    (nothing : Proceeds s.grammar (s.Open depth) q 0 [] r) :
    Ensures (Excused s.grammar input around) (do
      Matcher.missingPart s report part
      return .partialMatch (tokens + 1)) r
      (Joining s input terms depth id outer separator report (part :: rest) index tokens p) := by
  have both := moved.trans nothing
  have there : r.cursor.position = p.cursor.position + 1 := both.position
  refine ensures_bind (missingPart_honours (s.Open depth) stage (both.sound sound) bound
    report) ?_
  rintro - t ⟨events, reported, movedOn⟩
  rw [there] at reported
  have all := both.trans movedOn
  rw [List.append_nil] at all
  exact ensures_pure ⟨1, false, _, rfl, all, .missPart separated reported⟩

end Joining

/-- The parts behind the first come to what is promised. -/
theorem joinParts_honours
    (names : NameStage s input around outer terms depth attempt id separator)
    {parts : List ElementId}
    (leaves : ∀ part ∈ parts, ∃ kind, s.grammar.kind? part = some kind ∧ kind.isLeaf = true)
    {index tokens : Nat} (behind : index ≠ 0) (sound : p.Sound s.grammar input)
    (level : p.depth = depth) :
    Ensures (Excused s.grammar input around)
      (Matcher.matchParts s attempt (outer.enter id) separator report parts index tokens) p
      (Joining s input terms depth id outer separator report parts index tokens p) := by
  obtain ⟨stage, honest, single, within, ⟨type, separates⟩, free⟩ := names
  induction parts generalizing index tokens p with
  | nil => exact ensures_pure ⟨0, true, [], rfl, .refl _ sound, .done _ _⟩
  | cons part rest ih =>
      obtain ⟨kind, stands, leaf⟩ := leaves part List.mem_cons_self
      unfold Matcher.matchParts
      simp only [if_neg behind, if_neg (Nat.succ_ne_zero tokens)]
      refine ensures_bind (ensures_map (ensures_leafAttempt (honest _ _ separates rfl) single
        separates rfl (within index) sound level fun may => free may _ _ _ separates rfl)) ?_
      rintro separated q ⟨outcome, rfl, ⟨rfl, moved, -⟩ | ⟨rfl, before, moved, separated⟩⟩
      · exact Joining.missSeparator stage (Grammar.lt_of_kind?_eq_some separates) sound moved
      · have soundNext := moved.sound sound
        have levelNext : q.depth = depth := moved.keeps.depth.trans level
        simp only [Outcome.isMatch, Bool.not_true, Bool.false_eq_true, if_false]
        refine ensures_bind (ensures_leafAttempt (honest _ _ stands leaf) single stands leaf
          (within index) soundNext levelNext fun may => free may _ _ _ stands leaf) ?_
        rintro outcome r (⟨rfl, movedOn, -⟩ | ⟨rfl, events, movedOn, matched⟩)
        · exact Joining.missPart stage (Grammar.lt_of_kind?_eq_some stands) sound moved separated
            movedOn
        · simp only [Bool.not_true, Bool.false_eq_true, if_false]
          exact (ih (fun other member => leaves other (List.mem_cons_of_mem _ member))
            (Nat.succ_ne_zero index) (movedOn.sound soundNext)
            (movedOn.keeps.depth.trans levelNext)).imp fun _ _ others =>
              others.more moved separated movedOn matched

/-- What comes of the parts of a variant: nothing, if the first part is not there, or what
`Named` says. -/
theorem nameParts_honours
    (names : NameStage s input around outer terms depth attempt id separator)
    (steady : Attempt.Steady s input attempt) {part : ElementId} {rest : List ElementId}
    (leaves : ∀ other ∈ part :: rest, ∃ kind,
      s.grammar.kind? other = some kind ∧ kind.isLeaf = true)
    (sound : p.Sound s.grammar input) (level : p.depth = depth) :
    Ensures (Excused s.grammar input around)
      (Matcher.matchParts s attempt (outer.enter id) separator report (part :: rest) 0 0) p
      fun outcome q =>
        (outcome = .noMatch ∧ (∃ events, Proceeds s.grammar (s.Open depth) p 0 events q) ∧
          (s.Open depth → p.Eager → terms.idle part p.cursor.position) ∧
          ¬ ∃ r, attempt part (⟨id, 0⟩ :: outer) p = .ok (.fullMatch 1) r) ∨
        ∃ n complete events, 0 < n ∧ outcome = Tally.outcome ⟨n, complete⟩ ∧
          Proceeds s.grammar (s.Open depth) p n events q ∧
          Named s input (terms.below id outer) separator report
            (part :: rest) complete p.cursor.position (p.cursor.position + n) events ∧
          p.failure = none ∧ s.Open depth ∧
          Certain s input attempt part (⟨id, 0⟩ :: outer) p := by
  obtain ⟨kind, stands, leaf⟩ := leaves part List.mem_cons_self
  unfold Matcher.matchParts
  dsimp only
  rw [if_pos rfl]
  refine ensures_bind_of_ok rfl ?_
  simp only [Bool.not_true, Bool.false_eq_true, if_false, if_true]
  refine ensures_bind (ensures_leafAttempt (names.honest _ _ stands leaf) names.single stands leaf
    (names.within 0) sound level fun may => names.free may _ _ _ stands leaf).ran ?_
  rintro outcome q ⟨ran, ⟨rfl, moved, nothing⟩ | ⟨rfl, events, moved, recorded⟩⟩
  · simp only [Outcome.isMatch, Bool.not_false, if_true]
    refine ensures_bind (missingPart_honours (s.Open depth) names.stage (moved.sound sound)
      (Grammar.lt_of_kind?_eq_some stands) report) ?_
    rintro - r ⟨events, -, reported⟩
    refine ensures_pure (Or.inl ⟨rfl, ⟨_, moved.trans reported⟩, nothing, ?_⟩)
    rintro ⟨r, other⟩
    rw [show attempt part (⟨id, 0⟩ :: outer) p = _ from ran] at other
    cases other
  · have here : q.cursor.position = p.cursor.position + 1 := moved.position
    -- A leaf that was taken once is taken whenever it is tried at this position again.
    obtain ⟨quiet, may, certain⟩ := steady part kind _ p q 1 stands leaf sound ran
    simp only [Outcome.isMatch, Bool.not_true, Bool.false_eq_true, if_false]
    refine (joinParts_honours names
      (fun other member => leaves other (List.mem_cons_of_mem _ member)) Nat.one_ne_zero
      (moved.sound sound) (moved.keeps.depth.trans level)).imp ?_
    rintro outcome r ⟨n, complete, more, rfl, movedOn, joined⟩
    rw [here, Nat.add_assoc] at joined
    rw [level] at may
    exact Or.inr ⟨1 + n, complete, _, by omega, rfl, moved.trans movedOn,
      .intro recorded joined, quiet, may, certain⟩

/-! ### Variants -/

theorem mem_insertVariant {α : Type} {variant other : List α} {variants : List (List α)} :
    other ∈ Matcher.insertVariant variant variants ↔ other = variant ∨ other ∈ variants := by
  induction variants with
  | nil => simp [Matcher.insertVariant]
  | cons first rest ih =>
      unfold Matcher.insertVariant
      split
      · simp
      · simp only [List.mem_cons, ih]
        tauto

/-- Putting the variants into order keeps all of them. -/
theorem mem_longestFirst {α : Type} {variant : List α} {variants : List (List α)} :
    variant ∈ Matcher.longestFirst variants ↔ variant ∈ variants := by
  induction variants with
  | nil => simp [Matcher.longestFirst]
  | cons first rest ih =>
      have unfolded : Matcher.longestFirst (first :: rest) =
          Matcher.insertVariant first (Matcher.longestFirst rest) := rfl
      rw [unfolded, mem_insertVariant, ih, List.mem_cons]

/-- What is known of the best variant so far: its first part is matched again, and
elements may be entered. -/
def Repeatable (s : Setting) (input : Input) (attempt : Attempt) (path : Path) (depth : Nat)
    (variants : List (List ElementId)) (p : Progress)
    (best : Option (Outcome × List ElementId)) : Prop :=
  ∀ outcome variant, best = some (outcome, variant) →
    variant ∈ variants ∧ p.failure = none ∧ s.Open depth ∧
      ∃ part rest, variant = part :: rest ∧ Certain s input attempt part path p

theorem Repeatable.mono {path : Path} {p q : Progress}
    {best : Option (Outcome × List ElementId)}
    (repeatable : Repeatable s input attempt path depth variants p best)
    (moved : Proceeds s.grammar (s.Open depth) p 0 [] q) :
    Repeatable s input attempt path depth variants q best := by
  intro outcome variant same
  obtain ⟨member, quiet, may, part, rest, rfl, certain⟩ := repeatable outcome variant same
  exact ⟨member, moved.keeps.quiet may quiet, may, part, rest, rfl,
    certain.mono moved.position moved.keeps.depth moved.keeps.waved⟩

/-- Nothing came of the variants, apart from those that are left. -/
def Unnamed (idle : ElementId → (position : Nat) → Prop) (variants left : List (List ElementId))
    (position : Nat) : Prop :=
  ∀ variant ∈ variants, ∀ part ∈ variant.head?, variant ∈ left ∨ idle part position

theorem Unnamed.pass {idle : ElementId → (position : Nat) → Prop} {part : ElementId}
    {parts : List ElementId} {rest : List (List ElementId)} {position : Nat}
    (unnamed : Unnamed idle variants ((part :: parts) :: rest) position)
    (nothing : idle part position) : Unnamed idle variants rest position := by
  intro variant member first heads
  rcases unnamed variant member first heads with listed | idle
  · rcases List.mem_cons.1 listed with rfl | behind
    · obtain rfl : part = first := Option.some.inj heads
      exact Or.inr nothing
    · exact Or.inl behind
  · exact Or.inr idle

/-- How the trying of variants ends: with a full match, or back at the cursor with a
variant that is matched again. -/
def VariantsTried (s : Setting) (input : Input) (keen : Prop) (terms : Terms) (depth : Nat)
    (attempt : Attempt) (id : ElementId) (outer : Path) (variants : List (List ElementId))
    (separator : ElementId) (p : Progress) :
    Outcome ⊕ Option (Outcome × List ElementId) → Progress → Prop
  | .inl outcome, q => ∃ n events, outcome = .fullMatch n ∧ 0 < n ∧
      Proceeds s.grammar (s.Open depth) p n (.tombstone :: events) q ∧
      ∃ variant ∈ variants, Named s input (terms.below id outer) separator false variant true
        p.cursor.position (p.cursor.position + n) events
  | .inr best, q => Proceeds s.grammar (s.Open depth) p 0 [] q ∧
      Repeatable s input attempt (⟨id, 0⟩ :: outer) depth variants q best ∧
      (keen → best = none → Unnamed terms.idle variants [] p.cursor.position)

theorem VariantsTried.after (moved : Proceeds s.grammar (s.Open depth) p 0 [] q)
    {answer : Outcome ⊕ Option (Outcome × List ElementId)}
    (came : VariantsTried s input keen terms depth attempt id outer variants separator q answer r) :
    VariantsTried s input keen terms depth attempt id outer variants separator p answer r := by
  cases answer with
  | inl outcome =>
      obtain ⟨n, events, rfl, positive, movedOn, named⟩ := came
      have both := moved.trans movedOn
      rw [Nat.zero_add, List.nil_append] at both
      rw [moved.stay] at named
      exact ⟨n, events, rfl, positive, both, named⟩
  | inr best =>
      obtain ⟨movedOn, kept, spent⟩ := came
      rw [moved.stay] at spent
      exact ⟨moved.trans movedOn, kept, spent⟩

/-- What comes of trying variants, of which the others were tried before. -/
theorem tryVariants_honours
    (names : NameStage s input around outer terms depth attempt id separator)
    (steady : Attempt.Steady s input attempt)
    (filled : ∀ variant ∈ variants, variant ≠ [] ∧ ∀ part ∈ variant, ∃ kind,
      s.grammar.kind? part = some kind ∧ kind.isLeaf = true)
    {left : List (List ElementId)} (among : ∀ variant ∈ left, variant ∈ variants)
    (sound : p.Sound s.grammar input) (level : p.depth = depth)
    (keenly : keen → s.Open depth ∧ p.Eager) {best : Option (Outcome × List ElementId)}
    (kept : Repeatable s input attempt (⟨id, 0⟩ :: outer) depth variants p best)
    (spent : keen → best = none → Unnamed terms.idle variants left p.cursor.position) :
    Ensures (Excused s.grammar input around)
      (Matcher.tryVariants s attempt (outer.enter id) separator left best) p
      (VariantsTried s input keen terms depth attempt id outer variants separator p) := by
  induction left generalizing p best with
  | nil => exact ensures_pure ⟨.refl _ sound, kept, spent⟩
  | cons variant rest ih =>
      have member := among variant List.mem_cons_self
      obtain ⟨nonempty, leaves⟩ := filled variant member
      obtain ⟨part, parts, rfl⟩ := List.exists_cons_of_ne_nil nonempty
      -- Going on with the other variants from a state back at the cursor.
      have goOn : ∀ {q : Progress} {better : Option (Outcome × List ElementId)},
          Proceeds s.grammar (s.Open depth) p 0 [] q →
          Repeatable s input attempt (⟨id, 0⟩ :: outer) depth variants q better →
          (keen → better = none → Unnamed terms.idle variants rest p.cursor.position) →
          Ensures (Excused s.grammar input around)
            (Matcher.tryVariants s attempt (outer.enter id) separator rest better) q
            (VariantsTried s input keen terms depth attempt id outer variants separator p) := by
        intro q better moved keptBetter spentRest
        have keenlyThere : keen → s.Open depth ∧ q.Eager := fun now =>
          ⟨(keenly now).1, moved.eager (keenly now).1 (keenly now).2⟩
        rw [← moved.stay] at spentRest
        exact (ih (fun other inRest => among other (List.mem_cons_of_mem _ inRest))
          (moved.sound sound) (moved.keeps.depth.trans level) keenlyThere keptBetter
          spentRest).imp fun _ _ came => came.after moved
      unfold Matcher.tryVariants
      refine ensures_mark ?_
      refine ensures_bind (nameParts_honours names steady leaves sound.marked level) ?_
      rintro outcome r (⟨rfl, ⟨events, moved⟩, nothing, -⟩ |
        ⟨n, complete, events, positive, rfl, moved, named, quiet, may, certain⟩)
      · simp only [Outcome.isFull, Outcome.isPartial, Bool.false_eq_true, if_false,
          Bool.false_and]
        refine ensures_rollback moved (goOn moved.rolledBack (kept.mono moved.rolledBack) ?_)
        exact fun now none => (spent now none).pass (nothing (keenly now).1 (keenly now).2)
      · cases complete with
        | true =>
            have released := moved.handBack (Nat.le_refl _) (.tombstone :: events)
            exact ensures_release moved (ensures_pure ⟨n, events, rfl, positive, released,
              _, member, named⟩)
        | false =>
            have back := moved.rolledBack
            refine ensures_rollback moved ?_
            split
            · refine goOn back (fun outcome variant same => ?_) fun _ none => by cases none
              cases same
              have again : Certain s input attempt part (⟨id, 0⟩ :: outer) (r.moveTo p.cursor) :=
                Certain.mono certain rfl back.keeps.depth back.keeps.waved
              exact ⟨member, back.keeps.quiet may quiet, may, part, parts, rfl, again⟩
            · rename_i passedOver
              refine goOn back (kept.mono back) fun _ none => absurd ?_ passedOver
              rw [none]
              rfl

/-- What comes of a qualified identifier. -/
theorem qualified_honours
    (names : NameStage s input around outer terms depth attempt id separator)
    (steady : Attempt.Steady s input attempt)
    (stands : s.grammar.kind? id = some (.qualified variants separator))
    (sound : p.Sound s.grammar input) (level : p.depth = depth) (free : calm → s.Open depth) :
    Ensures (Excused s.grammar input around)
      (Matcher.qualified s attempt (outer.enter id) id variants separator) p
      (Came s.grammar calm
        ((Kind.qualified variants separator).Leaves s input (terms.below id outer) id)
        ((Kind.qualified variants separator).Idles s input terms.idle) p) := by
  obtain ⟨-, placed, -⟩ := names.stage.wellFormed.placed id _ stands
  have filled : ∀ variant ∈ variants, variant ≠ [] ∧ ∀ part ∈ variant, ∃ kind,
      s.grammar.kind? part = some kind ∧ kind.isLeaf = true := by
    intro variant member
    obtain ⟨nonempty, parts⟩ := placed variant member
    exact ⟨nonempty, fun part inside => (parts part inside).2⟩
  unfold Matcher.qualified
  refine ensures_mark ?_
  have keenly : calm ∧ p.Eager → s.Open depth ∧ p.marked.Eager :=
    fun both => ⟨free both.1, both.2⟩
  refine ensures_bind (tryVariants_honours names steady filled
    (fun variant member => mem_longestFirst.1 member) sound.marked level keenly
    (fun outcome variant none => by cases none)
    fun _ _ variant member part _ => Or.inl (mem_longestFirst.2 member)) ?_
  rintro (outcome | _ | ⟨outcome, variant⟩) q came
  · obtain ⟨n, events, rfl, positive, moved, variant, member, named⟩ := came
    refine ensures_complete sound moved (ensures_pure ?_)
    exact ⟨_, (moved.handBack (Nat.le_refl _) _).imp free, positive, .qualified member named⟩
  · obtain ⟨moved, -, spent⟩ := came
    refine ensures_rollback moved (ensures_pure (came_of_handBack (moved.imp free) ?_))
    intro quiet eager part tried
    obtain ⟨variant, member, heads⟩ := List.mem_filterMap.1 tried
    exact (spent ⟨quiet, eager⟩ rfl variant member part heads).resolve_left List.not_mem_nil
  · -- The best variant is tried again with the cursor back in place; its first part is certain to
    -- be taken, so the second trial cannot come to nothing.
    obtain ⟨moved, repeatable, -⟩ := came
    obtain ⟨member, quiet, -, part, rest, rfl, certain⟩ := repeatable _ _ rfl
    have soundAgain := moved.sound sound.marked
    have levelAgain : q.depth = depth := moved.keeps.depth.trans level
    refine ensures_bind (nameParts_honours names steady (filled _ member).2 soundAgain
      levelAgain) ?_
    rintro outcome r (⟨rfl, -, -, missing⟩ |
      ⟨n, complete, events, positive, rfl, movedOn, named, -, -, -⟩)
    · exact absurd (certain q soundAgain rfl rfl quiet fun entry member => member) missing
    · have back : q.cursor.position = p.cursor.position := moved.position
      have both := moved.trans movedOn
      rw [Nat.zero_add, List.nil_append] at both
      rw [back] at named
      refine ensures_complete sound both (ensures_pure ?_)
      exact came_of_tally ⟨n, complete⟩ positive
        ((both.handBack (Nat.le_refl _) _).imp free) (.qualifiedPart member named)

end Dialect
