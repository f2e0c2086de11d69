import Dialect.Proofs.Matching.Best
import Dialect.Proofs.Matching.Naming
import Dialect.Proofs.Matching.Run

/-!
# The longest name that fits

A qualified identifier tries its variants from the longest to the shortest.  What comes of a
variant depends on the input and on where it is tried, not on what was tried before
(`exists_told`).  So the variant that is taken is the first, in the order of declaration, of the
longest that match in full; failing that, of those that got furthest the longest is matched once
more, gets equally far, and is reported where it ends (`Resolves`, `qualified_resolves`).

Where it ends there may be no offset that can be counted, and then nothing can be reported
(`dotted_faults`).
-/

set_option autoImplicit false

namespace Dialect

/-! ### The order of the variants -/

/-- Of the items that fit, no one is above the item, and each one before it is below it. -/
def Foremost {α : Type} (fits : α → Prop) (below : α → α → Prop) (items : List α) (item : α) :
    Prop :=
  ∃ earlier later, items = earlier ++ item :: later ∧ fits item ∧
    (∀ other ∈ earlier, fits other → below other item) ∧
    ∀ other ∈ later, fits other → ¬ below item other

section Order

open Matcher

variable {α : Type} {variants : List (List α)} {variant : List α}

/-- A variant is put behind the longer ones and before the others. -/
theorem insertVariant_split
    (ordered : variants.Pairwise fun longer shorter => shorter.length ≤ longer.length)
    (variant : List α) :
    ∃ front back, variants = front ++ back ∧
      insertVariant variant variants = front ++ variant :: back ∧
      (∀ other ∈ front, variant.length < other.length) ∧
      ∀ other ∈ back, other.length ≤ variant.length := by
  induction variants with
  | nil => exact ⟨[], [], rfl, rfl, List.forall_mem_nil _, List.forall_mem_nil _⟩
  | cons first rest ih =>
      obtain ⟨bound, orderedRest⟩ := List.pairwise_cons.1 ordered
      unfold insertVariant
      by_cases fits : first.length ≤ variant.length
      · refine ⟨[], first :: rest, rfl, if_pos fits, List.forall_mem_nil _, fun other member => ?_⟩
        rcases List.mem_cons.1 member with rfl | further
        · exact fits
        · exact (bound other further).trans fits
      · obtain ⟨front, back, same, inserted, longer, rest⟩ := ih orderedRest
        refine ⟨first :: front, back, by rw [same]; rfl, ?_, fun other member => ?_, rest⟩
        · rw [if_neg fits, inserted]
          rfl
        · rcases List.mem_cons.1 member with rfl | further
          · exact Nat.lt_of_not_le fits
          · exact longer other further

theorem longestFirst_ordered (variants : List (List α)) :
    (longestFirst variants).Pairwise fun longer shorter => shorter.length ≤ longer.length := by
  induction variants with
  | nil => exact .nil
  | cons variant rest ih =>
      obtain ⟨front, back, same, inserted, longer, noLonger⟩ := insertVariant_split ih variant
      rw [show longestFirst (variant :: rest) = front ++ variant :: back from inserted]
      rw [same] at ih
      obtain ⟨inFront, inBack, across⟩ := List.pairwise_append.1 ih
      refine List.pairwise_append.2 ⟨inFront, List.pairwise_cons.2 ⟨noLonger, inBack⟩,
        fun one first other second => ?_⟩
      rcases List.mem_cons.1 second with rfl | behind
      · exact Nat.le_of_lt (longer one first)
      · exact across one first other behind

/-- Of two places in one list, the second is the first, or behind it, or before it. -/
theorem split_cases {β : Type} {front back earlier later : List β} {one other : β}
    (same : front ++ one :: back = earlier ++ other :: later) :
    (earlier = front ∧ other = one ∧ later = back) ∨
      (∃ between, earlier = front ++ one :: between ∧ back = between ++ other :: later) ∨
      ∃ between, front = earlier ++ other :: between ∧ later = between ++ one :: back := by
  rcases List.append_eq_append_iff.1 same with ⟨between, rfl, tail⟩ | ⟨between, rfl, tail⟩
  · cases between with
    | nil =>
        obtain ⟨rfl, rfl⟩ := List.cons.inj tail
        exact .inl ⟨List.append_nil _, rfl, rfl⟩
    | cons head between =>
        obtain ⟨rfl, rfl⟩ := List.cons.inj tail
        exact .inr (.inl ⟨between, rfl, rfl⟩)
  · cases between with
    | nil =>
        obtain ⟨rfl, rfl⟩ := List.cons.inj tail
        exact .inl ⟨(List.append_nil _).symm, rfl, rfl⟩
    | cons head between =>
        obtain ⟨rfl, rfl⟩ := List.cons.inj tail
        exact .inr (.inr ⟨between, rfl, rfl⟩)

/-- A variant is tried behind those that are longer, or as long and declared before it, and
before the others. -/
theorem longestFirst_split {earlier later : List (List α)}
    (split : longestFirst variants = earlier ++ variant :: later) :
    ∃ before after, variants = before ++ variant :: after ∧
      (∀ other ∈ before, (variant.length ≤ other.length → other ∈ earlier) ∧
        (other.length < variant.length → other ∈ later)) ∧
      ∀ other ∈ after, (variant.length < other.length → other ∈ earlier) ∧
        (other.length ≤ variant.length → other ∈ later) := by
  induction variants generalizing earlier later with
  | nil => simp [longestFirst] at split
  | cons first rest ih =>
      obtain ⟨front, back, same, inserted, longer, noLonger⟩ :=
        insertVariant_split (longestFirst_ordered rest) first
      -- The first variant is the one split at, stands before it or stands behind it.
      rcases split_cases (inserted.symm.trans split) with ⟨rfl, rfl, rfl⟩ | ⟨between, rfl, rfl⟩ |
        ⟨between, rfl, rfl⟩
      · refine ⟨[], rest, rfl, List.forall_mem_nil _, fun other member => ?_⟩
        have placed : other ∈ earlier ++ later := same ▸ mem_longestFirst.2 member
        rcases List.mem_append.1 placed with inFront | inBack
        · exact ⟨fun _ => inFront, fun short => absurd short (Nat.not_le.2 (longer other inFront))⟩
        · exact ⟨fun long => absurd long (Nat.not_lt.2 (noLonger other inBack)), fun _ => inBack⟩
      · obtain ⟨before, after, rfl, placedBefore, placedAfter⟩ :=
          ih (by rw [same, List.append_assoc])
        have grows : ∀ {other}, other ∈ front ++ between → other ∈ front ++ first :: between :=
          fun member => by simp only [List.mem_append, List.mem_cons] at member ⊢; tauto
        refine ⟨first :: before, after, rfl, fun other member => ?_, fun other member =>
          (placedAfter other member).imp_left fun long => grows ∘ long⟩
        rcases List.mem_cons.1 member with rfl | further
        · exact ⟨fun _ => by simp, fun short =>
            absurd (noLonger variant (by simp)) (Nat.not_le.2 short)⟩
        · exact (placedBefore other further).imp_left fun long => grows ∘ long
      · obtain ⟨before, after, rfl, placedBefore, placedAfter⟩ :=
          @ih earlier (between ++ back) (by rw [same, List.append_assoc]; rfl)
        have grows : ∀ {other}, other ∈ between ++ back → other ∈ between ++ first :: back :=
          fun member => by simp only [List.mem_append, List.mem_cons] at member ⊢; tauto
        refine ⟨first :: before, after, rfl, fun other member => ?_, fun other member =>
          (placedAfter other member).imp_right fun short => grows ∘ short⟩
        rcases List.mem_cons.1 member with rfl | further
        · exact ⟨fun long => absurd (longer variant (by simp)) (Nat.not_lt.2 long),
            fun _ => by simp⟩
        · exact (placedBefore other further).imp_right fun short => grows ∘ short

/-- The first variant that fits in the order of trying is the longest one that does, the first
declared among equals. -/
theorem foremost_of_first {fits : List α → Prop} {earlier later : List (List α)}
    (split : longestFirst variants = earlier ++ variant :: later) (here : fits variant)
    (none : ∀ other ∈ earlier, ¬ fits other) :
    Foremost fits (fun one other => one.length < other.length) variants variant := by
  obtain ⟨before, after, rfl, placedBefore, placedAfter⟩ := longestFirst_split split
  refine ⟨before, after, rfl, here, fun other member fitting => ?_, fun other member fitting long =>
    none other ((placedAfter other member).1 long) fitting⟩
  exact Nat.lt_of_not_le fun long => none other ((placedBefore other member).1 long) fitting

/-- Whether one variant got less far than another, or as far and is shorter. -/
def Behind (came : List α → Outcome) (one other : List α) : Prop :=
  (came one).tokens < (came other).tokens ∨
    (came one).tokens = (came other).tokens ∧ one.length < other.length

/-- The best variant in the order of trying is the one that got furthest, the longest of those,
and the first declared among equals. -/
theorem foremost_of_best {came : List α → Outcome}
    (best : Best came (longestFirst variants) variant) :
    Foremost (fun one => (came one).isPartial = true) (Behind came) variants variant := by
  obtain ⟨earlier, later, split, part, better, noWorse⟩ := best
  obtain ⟨before, after, rfl, placedBefore, placedAfter⟩ := longestFirst_split split
  have less : ∀ other ∈ earlier, (came other).isPartial = true →
      (came other).tokens < (came variant).tokens := fun other member partOther =>
    (Outcome.isBetterThan_iff_of_partial part partOther).1 (better other member partOther)
  have noMore : ∀ other ∈ later, (came other).isPartial = true →
      (came other).tokens ≤ (came variant).tokens := fun other member partOther => by
    have worse := noWorse other member partOther
    rw [← Bool.not_eq_true, Outcome.isBetterThan_iff_of_partial partOther part] at worse
    omega
  refine ⟨before, after, rfl, part, fun other member partOther => ?_,
    fun other member partOther => ?_⟩
  · rcases Nat.lt_or_ge other.length variant.length with short | long
    · have atMost := noMore other ((placedBefore other member).2 short) partOther
      unfold Behind
      omega
    · exact .inl (less other ((placedBefore other member).1 long) partOther)
  · unfold Behind
    rcases Nat.lt_or_ge variant.length other.length with long | short
    · have under := less other ((placedAfter other member).1 long) partOther
      omega
    · have atMost := noMore other ((placedAfter other member).2 short) partOther
      omega

end Order

/-! ### Trying variants -/

/-- From `p` to `q` the variants are tried one after the other, each at the same cursor. -/
inductive Rehearsed (trial : List ElementId → Matcher Outcome) :
    Progress → List (List ElementId) → Progress → Prop
  | done {p} : Rehearsed trial p [] p
  | next {p variant tried outcome q r} (ran : trial variant p.marked = .ok outcome q)
      (rest : Rehearsed trial (q.moveTo p.cursor) tried r) :
      Rehearsed trial p (variant :: tried) r

/-- A state in which variants are tried at the position and the depth. -/
structure Ready (s : Setting) (input : Input) (position depth : Nat) (p : Progress) : Prop where
  sound : p.Sound s.grammar input
  place : p.cursor.position = position
  level : p.depth = depth
  quiet : s.Open depth → p.failure = none

/-- The trial comes to what is told of it and records no diagnostic. -/
def Tells (s : Setting) (p : Progress) (result : EStateM.Result Fault Progress Outcome) :
    Except Fault Outcome → Prop
  | .ok outcome => ∃ events q, result = .ok outcome q ∧ Clean events ∧
      Proceeds s.grammar (s.Open p.depth) p outcome.tokens events q
  | .error fault => ∃ q, result = .error fault q

section Trials

open Matcher

variable {s : Setting} {input : Input} {outer : Path} {name separator : ElementId}
  {variants : List (List ElementId)} {variant : List ElementId} {p q : Progress}
  {position depth levels : Nat}

theorem Ready.marked (ready : Ready s input position depth p) :
    Ready s input position depth p.marked :=
  ⟨ready.sound.marked, ready.place, ready.level, ready.quiet⟩

/-- After a trial that was taken back everything is ready for the next one. -/
theorem Ready.rolledBack (ready : Ready s input position depth p) {calm : Prop} {n : Nat}
    {events : List Event} (free : s.Open depth → calm)
    (moved : Proceeds s.grammar calm p.marked n events q) :
    Ready s input position depth (q.moveTo p.cursor) :=
  ⟨moved.rolledBack.sound ready.sound, ready.place, moved.keeps.depth.trans ready.level,
    fun may => moved.keeps.quiet (free may) (ready.quiet may)⟩

theorem tokens_nameOutcome (variant : List ElementId) (n : Nat) :
    (nameOutcome variant n).tokens = n := by
  unfold nameOutcome broken
  split
  · rfl
  · split
    · next none => exact none.symm
    · rfl

theorem eq_of_nameOutcome {k n : Nat} (full : nameOutcome variant k = .fullMatch n) :
    n = 2 * variant.length - 1 := by
  unfold nameOutcome broken at full
  split at full
  · next all => exact (Outcome.fullMatch.inj full).symm.trans all
  · split at full <;> cases full

variable (outer name separator) in
/-- Where nothing may be entered, no variant matches. -/
theorem matchParts_shut (shut : ¬ s.Open p.depth) (nonempty : variant ≠ []) (levels : Nat) :
    ∃ failure, (p.failure ≠ none → p.failure = some failure) ∧
      matchParts s (matchElement s levels) (outer.enter name) separator false variant 0 0 p =
        .ok .noMatch { p with failure := some failure } := by
  obtain ⟨part, rest, rfl⟩ := List.exists_cons_of_ne_nil nonempty
  obtain ⟨failure, kept, refused⟩ := matchElement_refused (p := p) (fun both => shut both.2) levels
    part ((outer.enter name).moveTo 0)
  refine ⟨failure, kept, ?_⟩
  unfold matchParts
  dsimp only
  rw [if_pos rfl, pure_bind, if_neg (by simp), if_pos rfl, bind_apply, refused]
  rfl

variable (stage : Stage s input)
  (named : s.grammar.kind? name = some (.qualified variants separator))
  (enough : s.options.maxDepth ≤ levels + depth)

include stage named

theorem filled_of_named : ∀ variant ∈ variants, variant ≠ [] ∧ ∀ part ∈ variant,
    ∃ kind, s.grammar.kind? part = some kind ∧ kind.isLeaf = true := by
  obtain ⟨-, placed, -⟩ := stage.wellFormed.placed name _ named
  exact fun variant member => ⟨(placed variant member).1,
    fun part inside => ((placed variant member).2 part inside).2⟩

include enough

/-- **What comes of trying a variant does not depend on the state.**  A full match takes all parts
with the separators between them, and only a frame around that is astray can be in the way. -/
theorem exists_told (member : variant ∈ variants) (inside : outer.Inside s.grammar)
    (position : Nat) :
    ∃ told, (∀ p, Ready s input position depth p →
        Tells s p (matchParts s (matchElement s levels) (outer.enter name) separator false variant
          0 0 p) told) ∧
      (∀ n, told = .ok (.fullMatch n) → n = 2 * variant.length - 1) ∧
      ∀ fault, told = .error fault → ∃ frame ∈ outer, frame.Astray s.grammar ∧
        fault = .uncountable (frame.slot + 1) := by
  obtain ⟨nonempty, leaves⟩ := filled_of_named stage named variant member
  -- Where no element may be entered every variant is refused alike.
  by_cases free : s.Open depth
  · obtain ⟨below, rfl⟩ : ∃ below, levels = below + 1 :=
      ⟨levels - 1, by have := free.2; omega⟩
    have entered : Path.Inside s.grammar (outer.enter name) := fun frame member => by
      rcases List.mem_cons.1 member with rfl | further
      · exact Grammar.lt_of_kind?_eq_some named
      · exact inside frame further
    have raises : Raises (fun fault => ∃ frame ∈ outer, frame.Astray s.grammar ∧
          fault = .uncountable (frame.slot + 1))
        (s.fitting input (outer.enter name) (nameItems separator variant 0) position) :=
      raises_fitting stage entered named
        (fun frame member stray => ⟨frame, member, stray, rfl⟩) _ _
    refine ⟨(s.fitting input (outer.enter name) (nameItems separator variant 0) position).map
      (nameOutcome variant), fun p ready => ?_, fun n full => ?_, fun fault stopped => ?_⟩
    · have freeHere : s.Open p.depth := ready.level.symm ▸ free
      rcases matchParts_silent outer stage named ready.sound leaves (ready.quiet free)
        freeHere below with ⟨fault, q, stops, failed⟩ | ⟨n, events, q, fits, ran, -, clean, moved⟩
      · rw [ready.place] at stops
        rw [stops, failed]
        exact ⟨q, rfl⟩
      · rw [ready.place] at fits
        rw [fits, ran]
        refine ⟨events, q, rfl, clean, ?_⟩
        rw [tokens_nameOutcome]
        exact moved.imp fun _ => trivial
    · cases fits : s.fitting input (outer.enter name) (nameItems separator variant 0) position with
      | error fault => rw [fits] at full; cases full
      | ok k =>
          rw [fits] at full
          exact eq_of_nameOutcome (Except.ok.inj full)
    · cases fits : s.fitting input (outer.enter name) (nameItems separator variant 0) position with
      | error raised =>
          rw [fits] at stopped
          obtain rfl := Except.error.inj stopped
          exact raises raised fits
      | ok k => rw [fits] at stopped; cases stopped
  · refine ⟨.ok .noMatch, fun p ready => ?_, nofun, nofun⟩
    have shut : ¬ s.Open p.depth := ready.level.symm ▸ free
    obtain ⟨failure, kept, ran⟩ := matchParts_shut outer name separator shut nonempty
      levels
    rw [ran]
    have inside := (Proceeds.refl True ready.sound).inside
    exact ⟨[], _, rfl, fun _ => List.not_mem_nil, ⟨rfl, rfl, fun _ member => member,
      fun failed => (kept failed).symm, fun may => absurd may shut⟩, Cursor.extend_zero.symm, inside,
      ready.sound.faithful⟩

/-- Matching a variant once more comes to the same, and reports where it stops. -/
theorem matchParts_repeats (member : variant ∈ variants) (ready : Ready s input position depth p)
    {n : Nat} (tells : Tells s p (matchParts s (matchElement s levels) (outer.enter name) separator
      false variant 0 0 p) (.ok (.partialMatch n))) :
    ∃ item events q, item < s.grammar.elements.size ∧ Clean events ∧
      Proceeds s.grammar True p n events q ∧
      matchParts s (matchElement s levels) (outer.enter name) separator true variant 0 0 p = (do
        expected s .E0303 item
        return .partialMatch n : Matcher Outcome) q := by
  obtain ⟨nonempty, leaves⟩ := filled_of_named stage named variant member
  obtain ⟨-, placed, -, type, separates⟩ := stage.wellFormed.placed name _ named
  obtain ⟨events, q, ran, -, -⟩ := tells
  by_cases free : s.Open p.depth
  · obtain ⟨below, rfl⟩ : ∃ below, levels = below + 1 :=
      ⟨levels - 1, by have := free.2; have := ready.level; omega⟩
    have quiet : p.failure = none := ready.quiet (ready.level ▸ free)
    rcases matchParts_silent outer stage named ready.sound leaves quiet free below with
      ⟨fault, q, -, failed⟩ | ⟨k, events, q, fits, ran', atMost, -, -⟩
    · rw [failed] at ran
      cases ran
    · rw [ran'] at ran
      have same : nameOutcome variant k = .partialMatch n := (EStateM.Result.ok.inj ran).1
      obtain rfl : k = n := by rw [← tokens_nameOutcome variant k, same]; rfl
      -- A partial match has stopped before the last part, so there is an item to report.
      have short : k < 2 * variant.length - 1 := by
        refine Nat.lt_of_le_of_ne atMost fun all => ?_
        rw [nameOutcome, if_pos all] at same
        cases same
      obtain ⟨item, events, q, member, clean, moved, reported⟩ :=
        matchParts_reporting stage named ready.sound leaves quiet free below fits short
      rw [nameOutcome, if_neg (Nat.ne_of_lt short)] at same
      refine ⟨item.1, events, q, ?_, clean, moved, by rw [reported, same]⟩
      rcases mem_nameItems member with separating | part
      · exact separating ▸ Grammar.lt_of_kind?_eq_some separates
      · obtain ⟨kind, stands, -⟩ := leaves item.1 part
        exact Grammar.lt_of_kind?_eq_some stands
  · obtain ⟨failure, -, refused⟩ := matchParts_shut outer name separator free nonempty
      levels
    rw [refused] at ran
    cases ran

end Trials

/-! ### Trying the variants in order -/

/-- What came of a variant, if it came to an end. -/
def outcomeOf (told : List ElementId → Except Fault Outcome) (variant : List ElementId) : Outcome :=
  match told variant with
  | .ok outcome => outcome
  | .error _ => .noMatch

/-- How trying the variants in order ends that are left, one being held on to. -/
inductive Tested (s : Setting) (told : List ElementId → Except Fault Outcome) (p : Progress)
    (left : List (List ElementId)) (held : Option (List ElementId)) :
    EStateM.Result Fault Progress (Outcome ⊕ Option (Outcome × List ElementId)) → Prop
  | full {earlier variant later n events q} (split : left = earlier ++ variant :: later)
      (short : ∀ other ∈ earlier, (outcomeOf told other).isFull = false)
      (outcome : told variant = .ok (.fullMatch n)) (clean : Clean events)
      (moved : Proceeds s.grammar (s.Open p.depth) p n (.tombstone :: events) q) :
      Tested s told p left held (.ok (.inl (.fullMatch n)) q)
  | fault {variant fault q} (member : variant ∈ left) (failed : told variant = .error fault) :
      Tested s told p left held (.error fault q)
  | spent {q} (short : ∀ other ∈ left, (outcomeOf told other).isFull = false)
      (moved : Proceeds s.grammar (s.Open p.depth) p 0 [] q) :
      Tested s told p left held (.ok (.inr ((left.foldl (fallBack (outcomeOf told)) held).map
        fun variant => (outcomeOf told variant, variant))) q)

section Tests

open Matcher

variable {s : Setting} {input : Input} {separator : ElementId} {variant : List ElementId}
  {p q : Progress} {position depth : Nat}

/-- One more variant in front, which does not match in full. -/
theorem Tested.cons {told : List ElementId → Except Fault Outcome}
    {left : List (List ElementId)} {held : Option (List ElementId)}
    {result : EStateM.Result Fault Progress (Outcome ⊕ Option (Outcome × List ElementId))}
    (back : Proceeds s.grammar (s.Open p.depth) p 0 [] q)
    (short : (outcomeOf told variant).isFull = false)
    (tested : Tested s told q left (fallBack (outcomeOf told) held variant) result) :
    Tested s told p (variant :: left) held result := by
  have shorts : ∀ {others : List (List ElementId)},
      (∀ other ∈ others, (outcomeOf told other).isFull = false) →
      ∀ other ∈ variant :: others, (outcomeOf told other).isFull = false :=
    fun shortOthers other member => by
      rcases List.mem_cons.1 member with rfl | further
      · exact short
      · exact shortOthers other further
  have level : q.depth = p.depth := back.keeps.depth
  cases tested with
  | full split others outcome clean moved =>
      rw [level] at moved
      have both := back.trans moved
      rw [Nat.zero_add, List.nil_append] at both
      exact .full (by rw [split]; rfl) (shorts others) outcome clean both
  | fault member failed => exact .fault (List.mem_cons_of_mem _ member) failed
  | spent others moved =>
      rw [level] at moved
      exact .spent (shorts others) (back.trans moved)

/-! What is done with the first variant, by what comes of trying it. -/

section First

variable {attempt : Attempt} {path : Path} {rest : List (List ElementId)}
  {best : Option (Outcome × List ElementId)} {outcome : Outcome} {events : List Event}
  {fault : Fault} {n : Nat}

theorem tryVariants_error
    (failed : matchParts s attempt path separator false variant 0 0 p.marked = .error fault q) :
    tryVariants s attempt path separator (variant :: rest) best p = .error fault q := by
  unfold tryVariants
  rw [bind_of_ok p.mark_eq, bind_of_error failed]

theorem tryVariants_full
    (ran : matchParts s attempt path separator false variant 0 0 p.marked = .ok (.fullMatch n) q)
    (added : q.cursor = p.cursor.marked.extend n events) :
    tryVariants s attempt path separator (variant :: rest) best p =
      .ok (.inl (.fullMatch n)) (q.moveTo (p.cursor.extend n (.tombstone :: events))) := by
  unfold tryVariants
  rw [bind_of_ok p.mark_eq, bind_of_ok ran,
    if_pos (show (Outcome.fullMatch n).isFull = true from rfl),
    bind_of_ok (Progress.release_eq added)]
  rfl

theorem tryVariants_short
    (ran : matchParts s attempt path separator false variant 0 0 p.marked = .ok outcome q)
    (short : outcome.isFull = false)
    (added : q.cursor = p.cursor.marked.extend outcome.tokens events) :
    tryVariants s attempt path separator (variant :: rest) best p =
      tryVariants s attempt path separator rest
        (if outcome.isPartial && improves outcome best then some (outcome, variant) else best)
        (q.moveTo p.cursor) := by
  conv_lhs => unfold tryVariants
  rw [bind_of_ok p.mark_eq, bind_of_ok ran, if_neg (by simp [short]),
    bind_of_ok (Progress.rollback_eq added)]
  split <;> rfl

end First

/-- What comes of trying the variants that are left. -/
theorem tryVariants_tested {attempt : Attempt} {path : Path}
    {told : List ElementId → Except Fault Outcome} {left : List (List ElementId)}
    (tells : ∀ variant ∈ left, ∀ p, Ready s input position depth p →
      Tells s p (matchParts s attempt path separator false variant 0 0 p) (told variant))
    (ready : Ready s input position depth p) (held : Option (List ElementId)) :
    Tested s told p left held (tryVariants s attempt path separator left
      (held.map fun variant => (outcomeOf told variant, variant)) p) := by
  induction left generalizing p held with
  | nil => exact .spent (List.forall_mem_nil _) (.refl _ ready.sound)
  | cons variant rest ih =>
      have here := tells variant List.mem_cons_self p.marked ready.marked
      cases answer : told variant with
      | error fault =>
          rw [answer] at here
          obtain ⟨q, failed⟩ := here
          rw [tryVariants_error failed]
          exact .fault List.mem_cons_self answer
      | ok outcome =>
          rw [answer] at here
          obtain ⟨events, q, ran, clean, moved⟩ := here
          have came : outcomeOf told variant = outcome := by rw [outcomeOf, answer]
          cases isFull : outcome.isFull with
          | true =>
              obtain ⟨n, rfl⟩ := Outcome.exists_of_isFull isFull
              rw [tryVariants_full ran moved.cursor]
              exact .full rfl (List.forall_mem_nil _) answer clean
                (moved.handBack (Nat.le_refl n) _)
          | false =>
              -- What is held becomes the better of the two, as in the comparison of outcomes.
              have kept : (if outcome.isPartial && improves outcome (held.map fun variant =>
                  (outcomeOf told variant, variant)) then some (outcome, variant)
                else held.map fun variant => (outcomeOf told variant, variant)) =
                  (fallBack (outcomeOf told) held variant).map fun variant =>
                    (outcomeOf told variant, variant) := by
                unfold fallBack
                rw [came]
                split <;> simp [came]
              rw [tryVariants_short ran isFull moved.cursor, kept]
              exact .cons moved.rolledBack (by rw [came, isFull])
                (ih (fun other member => tells other (List.mem_cons_of_mem _ member))
                  (ready.rolledBack (fun may => ready.level.symm ▸ may) moved) _)

/-- What is told of a trial is what it answers. -/
theorem Tells.answer {step : Matcher Outcome} {told : Except Fault Outcome}
    (tells : Tells s p (step p) told) :
    answer step p = told.map fun outcome => (outcome, p.cursor.position + outcome.tokens) := by
  cases told with
  | error fault =>
      obtain ⟨q, failed⟩ := tells
      simp only [Matcher.answer, failed]
      rfl
  | ok outcome =>
      obtain ⟨events, q, ran, -, moved⟩ := tells
      simp only [Matcher.answer, ran, moved.position]
      rfl

end Tests

/-! ### Qualified identifiers -/

/-- How a qualified identifier ends when each variant comes to what is said. -/
inductive Resolves (input : Input) (id : ElementId) (variants : List (List ElementId))
    (came : List ElementId → Outcome) (p : Progress) :
    EStateM.Result Fault Progress Outcome → Prop
  /-- The longest variant that matches in full is taken, and nothing is reported. -/
  | full {variant events q}
      (foremost : Foremost (fun one => (came one).isFull = true)
        (fun one other => one.length < other.length) variants variant)
      (outcome : came variant = .fullMatch (2 * variant.length - 1)) (clean : Clean events)
      (left : q.cursor = p.cursor.extend (2 * variant.length - 1)
        (input.node id p.cursor.position (.tombstone :: events))) :
      Resolves input id variants came p (.ok (.fullMatch (2 * variant.length - 1)) q)
  /-- No variant matches in full.  The one that gets furthest is taken, and it is reported where
  it ends. -/
  | reported {variant n events diagnostic q}
      (short : ∀ other ∈ variants, (came other).isFull = false)
      (foremost : Foremost (fun one => (came one).isPartial = true) (Behind came) variants variant)
      (outcome : came variant = .partialMatch n) (clean : Clean events)
      (anchored : (input.cursorAt (p.cursor.position + n)).currentRange = .ok diagnostic.range)
      (left : q.cursor = p.cursor.extend n
        (input.node id p.cursor.position (events ++ [.diagnostic diagnostic]))) :
      Resolves input id variants came p (.ok (.partialMatch n) q)
  /-- The same, but where it ends nothing can be reported. -/
  | beyond {variant n fault q} (short : ∀ other ∈ variants, (came other).isFull = false)
      (foremost : Foremost (fun one => (came one).isPartial = true) (Behind came) variants variant)
      (outcome : came variant = .partialMatch n)
      (misfit : (input.cursorAt (p.cursor.position + n)).currentRange = .error fault) :
      Resolves input id variants came p (.error fault q)
  /-- No variant matches. -/
  | nothing {q} (none : ∀ other ∈ variants, came other = .noMatch)
      (left : q.cursor = p.cursor) : Resolves input id variants came p (.ok .noMatch q)

section Qualified

open Matcher

variable {s : Setting} {input : Input} {outer : Path} {name separator : ElementId}
  {variants : List (List ElementId)} {p q : Progress} {position depth levels : Nat}

/-- Trying variants leaves everything ready for others. -/
theorem Rehearsed.ready {trial : List ElementId → Matcher Outcome}
    {tried : List (List ElementId)}
    (tells : ∀ variant ∈ tried, ∃ told, ∀ p, Ready s input position depth p →
      Tells s p (trial variant p) told)
    (rehearsed : Rehearsed trial p tried q) (ready : Ready s input position depth p) :
    Ready s input position depth q := by
  induction rehearsed with
  | done => exact ready
  | @next p variant tried outcome r q ran rest ih =>
      obtain ⟨told, tells_here⟩ := tells variant List.mem_cons_self
      have here := tells_here p.marked ready.marked
      rw [ran] at here
      have moved : ∃ events, Proceeds s.grammar (s.Open p.depth) p.marked outcome.tokens events r := by
        cases told with
        | error fault =>
            obtain ⟨_, impossible⟩ := here
            cases impossible
        | ok told =>
            obtain ⟨events, _, same, -, moved⟩ := here
            cases same
            exact ⟨events, moved⟩
      obtain ⟨events, moved⟩ := moved
      exact ih (fun other member => tells other (List.mem_cons_of_mem _ member))
        (ready.rolledBack (fun may => ready.level.symm ▸ may) moved)

variable (stage : Stage s input)
  (named : s.grammar.kind? name = some (.qualified variants separator))
  (enough : s.options.maxDepth ≤ levels + depth)

include stage named enough

/-- The variant that got furthest is matched once more under the mark, and what is missing is
reported. -/
theorem report_resolves {came : List ElementId → Outcome} {variant : List ElementId}
    (ready : Ready s input position depth p) (readyAgain : Ready s input position depth q)
    (back : q.cursor = p.cursor.marked) (member : variant ∈ variants)
    (tells : Tells s q (matchParts s (matchElement s levels) (outer.enter name) separator false
      variant 0 0 q) (.ok (came variant)))
    (short : ∀ other ∈ variants, (came other).isFull = false)
    (foremost : Foremost (fun one => (came one).isPartial = true) (Behind came) variants variant) :
    Resolves input name variants came p ((do
      let outcome ← matchParts s (matchElement s levels) (outer.enter name) separator true variant
        0 0
      Cursor.complete p.cursor.place name
      return outcome : Matcher Outcome) q) := by
  have part : (came variant).isPartial = true := by
    obtain ⟨_, _, _, part, _⟩ := foremost
    exact part
  obtain ⟨n, came_eq⟩ := Outcome.exists_of_isPartial part
  rw [came_eq] at tells
  obtain ⟨item, events, r, bound, clean, moved, ran⟩ :=
    matchParts_repeats stage named enough member readyAgain tells
  have there : r.cursor = p.cursor.marked.extend n events := by rw [moved.cursor, back]
  have place : r.cursor.position = p.cursor.position + n := by rw [there]; rfl
  have anchored := expected_anchored stage .E0303 bound (moved.sound readyAgain.sound)
  rw [place] at anchored
  rw [bind_apply, ran, bind_apply]
  -- The report fails only where its range cannot be given.
  cases range_eq : (input.cursorAt (p.cursor.position + n)).currentRange with
  | error fault =>
      rw [range_eq] at anchored
      rw [anchored]
      exact .beyond short foremost came_eq range_eq
  | ok range =>
      rw [range_eq] at anchored
      obtain ⟨found, -, rfl, reported⟩ := anchored
      have added : (r.moveTo (r.cursor.extend 0 [.diagnostic found])).cursor =
          p.cursor.marked.extend n (events ++ [.diagnostic found]) := by
        rw [Progress.moveTo, there, Cursor.extend_extend, Nat.add_zero]
      rw [reported]
      dsimp only
      rw [pure_apply]
      dsimp only
      rw [bind_of_ok (Progress.complete_eq ready.sound added name)]
      exact .reported short foremost came_eq clean range_eq rfl

/-- What comes of a qualified identifier of which no variant ends with a fault. -/
theorem qualified_resolved {came : List ElementId → Outcome}
    (ready : Ready s input position depth p)
    (tells : ∀ variant ∈ variants, ∀ p, Ready s input position depth p →
      Tells s p (matchParts s (matchElement s levels) (outer.enter name) separator false variant
        0 0 p) (.ok (came variant)))
    (whole : ∀ variant ∈ variants, ∀ n, came variant = .fullMatch n → n = 2 * variant.length - 1) :
    Resolves input name variants came p
      (qualified s (matchElement s levels) (outer.enter name) name variants separator p) := by
  have tested := tryVariants_tested
    (fun variant member => tells variant (mem_longestFirst.1 member)) ready.marked none
  unfold qualified
  rw [bind_of_ok p.mark_eq, bind_apply]
  rw [Option.map_none] at tested
  generalize tryVariants s _ _ _ _ none p.marked = result at tested
  cases tested with
  | fault member failed => cases failed
  | @full earlier variant later n events q split short outcome clean moved =>
      have came_eq : came variant = .fullMatch n := Except.ok.inj outcome
      have member : variant ∈ variants := mem_longestFirst.1 (split ▸ by simp)
      obtain rfl := whole variant member n came_eq
      dsimp only
      rw [bind_of_ok (Progress.complete_eq ready.sound moved.cursor name)]
      refine .full (foremost_of_first split (by rw [came_eq]; rfl) fun other before => ?_) came_eq
        clean rfl
      exact Bool.not_eq_true _ ▸ short other before
  -- No variant is whole: the best is tried once more, this time with its report.
  | @spent q short moved =>
      have back : q.cursor = p.cursor.marked := moved.stay
      have readyAgain : Ready s input position depth q := by
        refine ⟨moved.sound ready.sound.marked, ?_, moved.keeps.depth.trans ready.level,
          fun may => moved.keeps.quiet (ready.level.symm ▸ may) (ready.quiet may)⟩
        rw [back]
        exact ready.place
      have shorts : ∀ other ∈ variants, (came other).isFull = false :=
        fun other member => short other (mem_longestFirst.2 member)
      rcases foldl_fallBack came (longestFirst variants) with ⟨variant, kept, best⟩ | ⟨kept, poor⟩
      · have foremost := foremost_of_best best
        have member : variant ∈ variants := by
          obtain ⟨_, _, split, -⟩ := foremost
          rw [split]
          simp
        have held : (longestFirst variants).foldl
            (fallBack (outcomeOf fun variant => .ok (came variant))) none = some variant := kept
        rw [held]
        exact report_resolves stage named enough ready readyAgain back member
          (tells variant member q readyAgain) shorts foremost
      · have held : (longestFirst variants).foldl
            (fallBack (outcomeOf fun variant => .ok (came variant))) none = none := kept
        rw [held]
        dsimp only [Option.map_none]
        rw [bind_of_ok (Progress.rollback_eq moved.cursor)]
        exact .nothing (fun other member => Outcome.eq_noMatch (shorts other member)
          (poor other (mem_longestFirst.2 member))) rfl

end Qualified

section Settings

variable {g : Grammar} {vocabulary : Vocabulary} {rules : List Rule} {root : Option String}
  {options : Options} {cancelled : Bool} {tokens : Array Token} {opened : Cursor}

/-- **A qualified identifier takes the longest variant that fits.**  From any state of a parse of
the tokens that is not aborted: what comes of a variant does not depend on which variants were
tried before; it comes to an end unless a frame of the path around is astray, the next slot of which
cannot be counted; and if each variant does, the element ends as `Resolves` says. -/
theorem qualified_resolves [Alphabet] (built : Grammar.ofRules vocabulary rules root = .ok g)
    (fresh : Cursor.ofTokens g.vocabulary tokens options.placeholder = .ok opened)
    {id separator : ElementId} {variants : List (List ElementId)}
    (stands : g.kind? id = some (.qualified variants separator)) {outer : Path}
    (inside : outer.Inside g) {p : Progress} (sound : p.Sound g opened.input)
    (quiet : p.failure = none) {levels : Nat} (enough : options.maxDepth ≤ levels + p.depth) :
    let s := g.setting options cancelled
    let attempt := Matcher.matchElement s levels
    let trial := fun variant =>
      Matcher.matchParts s attempt (outer.enter id) separator false variant 0 0
    (∀ tried q, (∀ variant ∈ tried, variant ∈ variants) → Rehearsed trial p tried q →
      ∀ variant ∈ variants,
        Matcher.answer (trial variant) q.marked = Matcher.answer (trial variant) p.marked) ∧
    (∀ variant ∈ variants,
      (∃ outcome, Matcher.answer (trial variant) p.marked =
        .ok (outcome, p.cursor.position + outcome.tokens)) ∨
      ∃ frame ∈ outer, frame.Astray g ∧
        Matcher.answer (trial variant) p.marked = .error (.uncountable (frame.slot + 1))) ∧
    ∀ came : List ElementId → Outcome,
      (∀ variant ∈ variants, Matcher.answer (trial variant) p.marked =
        .ok (came variant, p.cursor.position + (came variant).tokens)) →
      Resolves opened.input id variants came p
        (Matcher.qualified s attempt (outer.enter id) id variants separator p) := by
  have stage := stage_of_ofTokens (Grammar.ofRules_wellFormed built) fresh cancelled
  have ready : Ready (g.setting options cancelled) opened.input p.cursor.position p.depth p :=
    ⟨sound, rfl, rfl, fun _ => quiet⟩
  have exists_told := fun variant (member : variant ∈ variants) =>
    exists_told stage stands enough member inside p.cursor.position
  refine ⟨fun tried q among rehearsed variant member => ?_, fun variant member => ?_,
    fun came answers => ?_⟩
  · obtain ⟨told, tells, -⟩ := exists_told variant member
    have readyThere := rehearsed.ready (fun other inTried =>
      (exists_told other (among other inTried)).imp fun _ both => both.1) ready
    rw [(tells _ readyThere.marked).answer, (tells _ ready.marked).answer]
    exact congrArg _ (funext fun outcome => by rw [readyThere.marked.place]; rfl)
  · obtain ⟨told, tells, -, astray⟩ := exists_told variant member
    rw [(tells _ ready.marked).answer]
    cases told with
    | error fault =>
        obtain ⟨frame, member, stray, rfl⟩ := astray fault rfl
        exact .inr ⟨frame, member, stray, rfl⟩
    | ok outcome => exact .inl ⟨outcome, rfl⟩
  · -- Every trial tells its answer wherever it begins at this position, so the runs of the loop
    -- tell the same ones.
    have told_came : ∀ variant ∈ variants, ∀ told, Tells (g.setting options cancelled) p.marked
        (Matcher.matchParts (g.setting options cancelled)
          (Matcher.matchElement (g.setting options cancelled) levels) (outer.enter id) separator
          false variant 0 0 p.marked) told → told = .ok (came variant) := by
      intro variant member told tells
      have same := (tells.answer).symm.trans (answers variant member)
      cases told with
      | error fault => cases same
      | ok outcome => cases same; rfl
    refine qualified_resolved stage stands enough ready (fun variant member q readyThere => ?_)
      fun variant member n full => ?_
    · obtain ⟨told, tells, -⟩ := exists_told variant member
      rw [← told_came variant member told (tells _ ready.marked)]
      exact tells q readyThere
    · obtain ⟨told, tells, whole, -⟩ := exists_told variant member
      exact whole n (by rw [told_came variant member told (tells _ ready.marked), full])

end Settings

/-- A rule for names of two and of three parts. -/
def dottedRules : List Rule :=
  [⟨"r", .oneOf [.required (.qualified [[.token "A" none none, .token "A" none none],
    [.token "A" none none, .token "A" none none, .token "A" none none]] "DOT")] false⟩]

/-- The grammar of that rule. -/
def dotted : Grammar where
  vocabulary := ⟨"test", #[.keyword "A" "a", .character "DOT" "."]⟩
  elements := #[
    ⟨0, "r", some "r", none, .oneOf [.required 1] false⟩,
    ⟨1, "r#1", none, some 0, .qualified [[2, 3], [4, 5, 6]] 7⟩,
    ⟨2, "r#2", none, some 1, .token 0 none none⟩,
    ⟨3, "r#3", none, some 1, .token 0 none none⟩,
    ⟨4, "r#4", none, some 1, .token 0 none none⟩,
    ⟨5, "r#5", none, some 1, .token 0 none none⟩,
    ⟨6, "r#6", none, some 1, .token 0 none none⟩,
    ⟨7, "r#7", none, some 1, .token 1 none none⟩]
  rules := [("r", 0)]
  root := 0

theorem dotted_built : Grammar.ofRules dotted.vocabulary dottedRules none = .ok dotted := by
  with_unfolding_all rfl

/-- A parse of tokens without trivia where the name begins. -/
def dottedStart (tokens : Array Token) : Progress :=
  ⟨⟨tokens, Array.range tokens.size, none, 0, #[], 0⟩, 1, false, [], none, dotted.blankMemo⟩

theorem dottedStart_sound (tokens : Array Token) :
    (dottedStart tokens).Sound dotted (dottedStart tokens).cursor.input :=
  ⟨rfl, Nat.zero_le _, Memo.blank_faithful dotted⟩

/-- A variant tried where the name begins. -/
def dottedTrial (tokens : Array Token) (variant : List ElementId) : Except Fault (Outcome × Nat) :=
  let s := dotted.setting { recovery := false } false
  Matcher.answer (Matcher.matchParts s (Matcher.matchElement s s.options.maxDepth) [⟨1, 0⟩] 7 false
    variant 0 0) (dottedStart tokens).marked

/-- On `a . a` the variant of three parts is tried first, and the one of two parts is taken. -/
theorem dotted_resolves :
    let tokens := #[⟨0, "a", 0⟩, ⟨1, ".", 1⟩, ⟨0, "a", 2⟩]
    let s := dotted.setting { recovery := false } false
    let came := fun variant : List ElementId =>
      if variant.length = 2 then .fullMatch 3 else .partialMatch 3
    Resolves (dottedStart tokens).cursor.input 1 [[2, 3], [4, 5, 6]] came (dottedStart tokens)
      (Matcher.qualified s (Matcher.matchElement s s.options.maxDepth) [⟨1, 0⟩] 1
        [[2, 3], [4, 5, 6]] 7 (dottedStart tokens)) := by
  intro tokens s came
  have fresh : Cursor.ofTokens dotted.vocabulary tokens none =
      .ok (dottedStart tokens).cursor := by
    rfl
  have pair : dottedTrial tokens [2, 3] = .ok (.fullMatch 3, 3) := by decide +kernel
  have triple : dottedTrial tokens [4, 5, 6] = .ok (.partialMatch 3, 3) := by decide +kernel
  have stands : dotted.kind? 1 = some (.qualified [[2, 3], [4, 5, 6]] 7) := rfl
  have inside : Path.Inside dotted [] := nofun
  have enough : s.options.maxDepth ≤ s.options.maxDepth + (dottedStart tokens).depth :=
    Nat.le_add_right _ _
  refine (qualified_resolves dotted_built fresh stands inside (dottedStart_sound tokens) rfl
    enough).2.2 came fun variant member => ?_
  rcases List.mem_cons.1 member with rfl | further
  · exact pair
  · obtain rfl := List.mem_singleton.1 further
    exact triple

/-- A variant matches in part, but what comes next cannot be reported, as it ends beyond the
offsets that can be counted. -/
theorem dotted_faults :
    let tokens := #[⟨0, "a", 0⟩, ⟨0, "aa", TextRange.offsetLimit - 1⟩]
    let s := dotted.setting { recovery := false } false
    Grammar.ofRules dotted.vocabulary dottedRules none = .ok dotted ∧
      (dottedStart tokens).Sound dotted (dottedStart tokens).cursor.input ∧
      (dottedStart tokens).failure = none ∧
      dottedTrial tokens [2, 3] = .ok (.partialMatch 1, 1) ∧
      dottedTrial tokens [4, 5, 6] = .ok (.partialMatch 1, 1) ∧
      ¬ ∃ outcome q, Matcher.qualified s (Matcher.matchElement s s.options.maxDepth) [⟨1, 0⟩] 1
        [[2, 3], [4, 5, 6]] 7 (dottedStart tokens) = .ok outcome q := by
  intro tokens s
  refine ⟨dotted_built, dottedStart_sound _, rfl, by decide +kernel, by decide +kernel, ?_⟩
  have faults : (Matcher.answer (Matcher.qualified s (Matcher.matchElement s s.options.maxDepth)
      [⟨1, 0⟩] 1 [[2, 3], [4, 5, 6]] 7) (dottedStart tokens)).isOk = false := by
    decide +kernel
  rintro ⟨outcome, q, ran⟩
  rw [Matcher.answer, ran] at faults
  cases faults

end Dialect
