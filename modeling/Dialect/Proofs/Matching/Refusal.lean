import Dialect.Proofs.Grammar.Versions
import Dialect.Proofs.Matching.Admission
import Dialect.Proofs.Matching.Element

/-!
# Attempts of what cannot begin here

An element is foreign to a type of tokens if no leaf that may be entered where the element is
entered takes tokens of the type (`Grammar.Foreign`).  Nothing comes of attempting it at such a
token, and the attempt leaves no trace: the cursor, the record and the words given free are as
before (`matchElement_refuses`).  A word is given free only by a token element of its own type,
and so far none that is tried on the way gets.

In a version that has every slot an element is foreign to all types but those that can come
first in it (`foreign_of_not_mem`).
-/

set_option autoImplicit false

namespace Dialect

open Relation

namespace Grammar

variable {g : Grammar} {version : Nat} {type : TokenTypeId} {id item : ElementId}

/-- No leaf that may be entered where the element is entered takes tokens of the type. -/
def Foreign (g : Grammar) (version : Nat) (type : TokenTypeId) (id : ElementId) : Prop :=
  ∀ leaf, ReflTransGen (g.EntersAt version) id leaf → type ∉ FirstSets.ownTokens g leaf

theorem Foreign.entry (foreign : g.Foreign version type id) {kind : Kind ElementId}
    (stands : g.kind? id = some kind) (entry : item ∈ kind.entriesAt version) :
    g.Foreign version type item :=
  fun leaf way => foreign leaf (.head ⟨kind, stands, entry⟩ way)

/-- An element is foreign to what cannot come first in it. -/
theorem foreign_of_not_mem (wellFormed : g.WellFormed) (all : g.HasAll version)
    (bound : id < g.elements.size) (impossible : type ∉ (FirstSets.ofElement g id).possible) :
    g.Foreign version type id := by
  intro leaf way takes
  refine impossible ((FirstSets.mem_possible_ofElement wellFormed bound).2 ⟨leaf, ?_, ?_, takes⟩)
  · exact FirstSets.lt_of_mem_ownTokens takes
  · exact ReflTransGen.mono (fun _ _ => all.enters) _ _ way

end Grammar

/-! ### Coming to nothing -/

/-- The cursor stands at a token of the type, which is not the placeholder. -/
structure Progress.Faces (g : Grammar) (input : Input) (type : TokenTypeId) (p : Progress) : Prop
    extends p.Sound g input where
  current : ∃ token, p.cursor.current? = some token ∧ token.kind = type
  plain : p.cursor.atPlaceholder = false

/-- From `p` to `r` nothing changes but what is remembered, and that the parse may be aborted. -/
structure Progress.Rests (g : Grammar) (p r : Progress) : Prop extends Proceeds g False p 0 [] r where
  same : r.waved = p.waved

/-- An attempt from `p` came to nothing. -/
def Refused (g : Grammar) (p : Progress) (outcome : Outcome) (r : Progress) : Prop :=
  outcome = .noMatch ∧ p.Rests g r

section Resting

variable {g : Grammar} {input : Input} {type : TokenTypeId} {p q r : Progress}

theorem Progress.Rests.refl (sound : p.Sound g input) : p.Rests g p := ⟨.refl False sound, rfl⟩

theorem Progress.Rests.trans (first : p.Rests g q) (second : q.Rests g r) : p.Rests g r :=
  ⟨first.toProceeds.trans second.toProceeds, second.same.trans first.same⟩

theorem Progress.Rests.rolledBack (rests : p.marked.Rests g r) : p.Rests g (r.moveTo p.cursor) :=
  ⟨rests.toProceeds.rolledBack, rests.same⟩

theorem Progress.Faces.after (faces : p.Faces g input type) (rests : p.Rests g r) :
    r.Faces g input type := by
  refine ⟨rests.toProceeds.sound faces.toSound, ?_, ?_⟩
  · rw [rests.stay]
    exact faces.current
  · rw [rests.stay]
    exact faces.plain

theorem Progress.Faces.marked (faces : p.Faces g input type) : p.marked.Faces g input type :=
  ⟨faces.toSound.marked, faces.current, faces.plain⟩

/-- An attempt that came to nothing under a mark comes to nothing. -/
theorem refused_giveUp (rests : p.marked.Rests g r) :
    Ensures (fun _ => True)
      (do Cursor.rollback p.cursor.place; return Outcome.noMatch : Matcher Outcome) r
      (Refused g p) :=
  ensures_rollback rests.toProceeds (ensures_pure ⟨rfl, rests.rolledBack⟩)

end Resting

/-- Attempts of foreign elements come to nothing. -/
def Attempt.Refuses (s : Setting) (input : Input) (type : TokenTypeId) (attempt : Attempt) : Prop :=
  ∀ id path p, s.grammar.Foreign s.options.version type id → p.Faces s.grammar input type →
    Ensures (fun _ => True) (attempt id path) p (Refused s.grammar p)

open Matcher

variable {s : Setting} {input : Input} {type : TokenTypeId} {attempt : Attempt} {path : Path}
  {id : ElementId} {p : Progress}

/-! ### Leaves -/

section Leaves

variable (foreign : type ∉ FirstSets.ownTokens s.grammar id) (faces : p.Faces s.grammar input type)

include foreign faces

/-- A token element does not get to look at a word of another type. -/
theorem token_refuses {own : TokenTypeId} {text : Option String} {flavor : Option Category}
    (stands : s.grammar.kind? id = some (.token own text flavor)) :
    Ensures (fun _ => True) (token s id path own text flavor) p (Refused s.grammar p) := by
  obtain ⟨current, shown, rfl⟩ := faces.current
  have differs : current.kind ≠ own := by simpa [FirstSets.ownTokens, stands] using foreign
  unfold token
  refine ensures_bind_of_ok cursor_eq ?_
  simp only [shown, faces.plain, Bool.false_eq_true, if_false, if_pos differs]
  exact ensures_pure ⟨rfl, .refl faces.toSound⟩

/-- An identifier element takes neither identifiers of this type nor words that may be read
as such. -/
theorem identifier_refuses {use : NameUse} {isAlias : Bool} {object : Option String}
    (stands : s.grammar.kind? id = some (.identifier use isAlias object)) :
    Ensures (fun _ => True) (identifier s id path) p (Refused s.grammar p) := by
  obtain ⟨current, shown, rfl⟩ := faces.current
  unfold identifier
  refine ensures_bind_of_ok cursor_eq ?_
  simp only [shown, faces.plain, Bool.false_eq_true, if_false]
  refine ensures_bind_check (fun _ _ => trivial) fun type found => ?_
  have own := FirstSets.mem_ownTokens_identifier stands (Vocabulary.get_eq_ok.1 found)
  obtain ⟨identifier, suppressible⟩ := not_or.1 fun either => foreign (own.2 either)
  rw [if_neg identifier, if_neg suppressible]
  exact ensures_pure ⟨rfl, .refl faces.toSound⟩

end Leaves

/-! ### Composites -/

section Composites

variable (refuses : attempt.Refuses s input type)

include refuses

theorem fillSlots_refuses {slots : List (Slot ElementId)}
    (foreign : ∀ item ∈ Kind.leadingAt s.options.version slots,
      s.grammar.Foreign s.options.version type item)
    (index : Nat) (faces : p.Faces s.grammar input type) :
    Ensures (fun _ => True) (fillSlots s attempt path slots index 0) p fun tally r =>
      tally.tokens = 0 ∧ p.Rests s.grammar r := by
  induction slots generalizing index p with
  | nil => exact ensures_pure ⟨rfl, .refl faces.toSound⟩
  | cons slot rest ih =>
      unfold fillSlots
      by_cases active : slot.isActive s.options.version = true
      · rw [Kind.leadingAt, if_pos active] at foreign
        obtain ⟨here, behind⟩ := List.forall_mem_cons.1 foreign
        simp only [active, Bool.not_true, Bool.false_eq_true, if_false]
        refine ensures_bind (refuses slot.item _ p here faces) ?_
        rintro outcome q ⟨rfl, rests⟩
        by_cases optional : slot.optional = true
        · rw [if_pos optional] at behind
          simp only [optional, if_true]
          exact (ih behind (index + 1) (faces.after rests)).imp fun tally r both =>
            ⟨both.1, rests.trans both.2⟩
        · simp only [optional, Bool.false_eq_true, if_false, if_true]
          exact ensures_pure ⟨rfl, rests⟩
      · rw [Kind.leadingAt, if_neg active] at foreign
        simp only [active, Bool.not_false, if_true]
        exact ih foreign (index + 1) faces

omit refuses in
/-- An alternative that comes to nothing leaves the cursor to those behind it. -/
theorem tryThen_refused {unfiltered : Bool} {slot : Slot ElementId} {rest : List (Slot ElementId)}
    {index : Nat} {best : Option (Outcome × Snapshot)}
    (kept : Ensures (fun _ => True) (attempt slot.item (path.moveTo index)) p.marked
      (Refused s.grammar p.marked)) :
    (∃ fault q, tryThen s attempt path unfiltered type slot rest index best p = .error fault q) ∨
    ∃ q, p.Rests s.grammar q ∧ tryThen s attempt path unfiltered type slot rest index best p =
      tryAlternatives s attempt path unfiltered type rest (index + 1) best q := by
  unfold tryThen
  rw [bind_apply, move_eq Cursor.mark_eq]
  dsimp only
  rw [bind_apply]
  change Ensures _ _ { p with cursor := p.cursor.marked } _ at kept
  unfold Ensures at kept
  cases attempted : attempt slot.item (path.moveTo index) { p with cursor := p.cursor.marked } with
  | error fault q => exact Or.inl ⟨fault, q, rfl⟩
  | ok outcome q =>
      rw [attempted] at kept
      obtain ⟨rfl, rests⟩ := kept
      have back : Cursor.rollback p.cursor.place q.cursor = .ok () p.cursor := by
        rw [rests.cursor]
        exact Cursor.rollback_eq
      refine Or.inr ⟨q.moveTo p.cursor, rests.rolledBack, ?_⟩
      have unfull : ¬ Outcome.noMatch.isFull = true := Bool.false_ne_true
      have worse : ¬ (q.scan && Outcome.noMatch.isPartial && improves Outcome.noMatch best) = true := by
        simp [Outcome.isPartial]
      dsimp only
      rw [if_neg unfull, bind_apply, get_apply]
      dsimp only
      rw [if_neg worse, bind_apply, move_eq back]
      rfl

/-- A foreign alternative is passed over or comes to nothing; the ones behind it are tried from
the same place. -/
theorem tryAlternatives_refused (reliable : s.predictor.Reliable s.grammar) (unfiltered : Bool)
    {slot : Slot ElementId} (bound : slot.item < s.grammar.elements.size)
    (foreign : slot.isActive s.options.version = true →
      s.grammar.Foreign s.options.version type slot.item)
    (rest : List (Slot ElementId)) (index : Nat) (best : Option (Outcome × Snapshot))
    (faces : p.Faces s.grammar input type) :
    (∃ fault q,
      tryAlternatives s attempt path unfiltered type (slot :: rest) index best p = .error fault q) ∨
    ∃ q, p.Rests s.grammar q ∧
      tryAlternatives s attempt path unfiltered type (slot :: rest) index best p =
        tryAlternatives s attempt path unfiltered type rest (index + 1) best q := by
  cases admitted : s.lets unfiltered type slot with
  | false =>
      obtain ⟨memo, faithful, passed⟩ := tryAlternatives_pass reliable attempt path rest
        (show ∀ other ∈ [slot], other.item < s.grammar.elements.size by simpa using bound)
        (by simpa using admitted) index best faces.faithful
      exact Or.inr ⟨_, ⟨.ofMemo False faces.toSound faithful, rfl⟩, passed⟩
  | true =>
      obtain ⟨memo, faithful, tried⟩ := tryAlternatives_try reliable attempt path
        (show ∀ other ∈ ([] : List (Slot ElementId)), other.item < s.grammar.elements.size by simp)
        (by simp) bound admitted index best faces.faithful
      have looked : p.Rests s.grammar { p with memo } :=
        ⟨.ofMemo False faces.toSound faithful, rfl⟩
      have kept := refuses slot.item (path.moveTo index) _ (foreign (s.active_of_lets admitted))
        (faces.after looked).marked
      rcases tryThen_refused kept with ⟨fault, q, failed⟩ | ⟨q, rests, same⟩
      · exact Or.inl ⟨fault, q, tried.trans failed⟩
      · exact Or.inr ⟨q, looked.trans rests, tried.trans same⟩

/-- No alternative is there. -/
theorem tryAlternatives_refuses (reliable : s.predictor.Reliable s.grammar) (unfiltered : Bool)
    {slots : List (Slot ElementId)}
    (bound : ∀ slot ∈ slots, slot.item < s.grammar.elements.size)
    (foreign : ∀ slot ∈ slots, slot.isActive s.options.version = true →
      s.grammar.Foreign s.options.version type slot.item)
    (index : Nat) (best : Option (Outcome × Snapshot)) (faces : p.Faces s.grammar input type) :
    Ensures (fun _ => True) (tryAlternatives s attempt path unfiltered type slots index best) p
      fun answer q => answer = .inr best ∧ p.Rests s.grammar q := by
  induction slots generalizing index p with
  | nil => exact ensures_pure ⟨rfl, .refl faces.toSound⟩
  | cons slot rest ih =>
      rcases tryAlternatives_refused refuses reliable unfiltered (bound slot List.mem_cons_self)
        (foreign slot List.mem_cons_self) rest index best faces with
        ⟨fault, q, failed⟩ | ⟨q, rests, same⟩
      · exact ensures_of_error failed trivial
      · unfold Ensures
        rw [same]
        exact (ih (fun other member => bound other (List.mem_cons_of_mem _ member))
          (fun other member => foreign other (List.mem_cons_of_mem _ member)) (index + 1)
          (faces.after rests)).imp fun answer r both => ⟨both.1, rests.trans both.2⟩

/-- A foreign delimiter is not taken once. -/
theorem openAll_refuses {opening : ElementId}
    (foreign : s.grammar.Foreign s.options.version type opening) (rounds : Nat)
    (opened : List TextRange) (faces : p.Faces s.grammar input type) :
    Ensures (fun _ => True) (openAll attempt path opening (rounds + 1) opened) p
      fun answer q => answer = opened ∧ p.Rests s.grammar q := by
  unfold openAll
  refine ensures_bind_of_ok cursor_eq (ensures_bind_check (fun _ _ => trivial) fun range _ => ?_)
  refine ensures_bind (refuses opening _ _ foreign faces) ?_
  rintro outcome q ⟨rfl, rests⟩
  exact ensures_pure ⟨rfl, rests⟩

/-- Content that is not active or foreign is not there. -/
theorem content_refuses {slot : Slot ElementId}
    (foreign : slot.isActive s.options.version = true →
      s.grammar.Foreign s.options.version type slot.item) (faces : p.Faces s.grammar input type) :
    Ensures (fun _ => True) (content s attempt path slot) p (Refused s.grammar p) := by
  unfold content
  by_cases active : slot.isActive s.options.version = true
  · rw [if_pos active]
    exact refuses slot.item _ p (foreign active) faces
  · rw [if_neg active]
    exact ensures_pure ⟨rfl, .refl faces.toSound⟩

/-- A name does not begin without its first part. -/
theorem matchParts_refuses {separator first : ElementId} {others : List ElementId}
    (foreign : s.grammar.Foreign s.options.version type first)
    (faces : p.Faces s.grammar input type) :
    Ensures (fun _ => True) (matchParts s attempt path separator false (first :: others) 0 0) p
      (Refused s.grammar p) := by
  unfold matchParts
  simp only [if_true, pure_bind, Bool.not_true, Bool.false_eq_true, if_false]
  refine ensures_bind (refuses first _ _ foreign faces) ?_
  rintro outcome q ⟨rfl, rests⟩
  exact ensures_pure ⟨rfl, rests⟩

/-- Variants whose first parts are all foreign leave nothing to fall back on. -/
theorem tryVariants_refuses {separator : ElementId} {variants : List (List ElementId)}
    (begins : ∀ variant ∈ variants, ∃ first others, variant = first :: others ∧
      s.grammar.Foreign s.options.version type first) (faces : p.Faces s.grammar input type) :
    Ensures (fun _ => True) (tryVariants s attempt path separator variants none) p
      fun answer q => answer = .inr none ∧ p.Rests s.grammar q := by
  induction variants generalizing p with
  | nil => exact ensures_pure ⟨rfl, .refl faces.toSound⟩
  | cons variant rest ih =>
      obtain ⟨first, others, rfl, foreign⟩ := begins variant List.mem_cons_self
      unfold tryVariants
      refine ensures_mark (ensures_bind (matchParts_refuses refuses foreign faces.marked) ?_)
      rintro outcome q ⟨rfl, rests⟩
      refine ensures_rollback rests.toProceeds ?_
      have back := rests.rolledBack
      exact (ih (fun other member => begins other (List.mem_cons_of_mem _ member))
        (faces.after back)).imp fun answer r both => ⟨both.1, back.trans both.2⟩

variable {kind : Kind ElementId}
  (foreign : ∀ item ∈ kind.entriesAt s.options.version, s.grammar.Foreign s.options.version type item)
  (faces : p.Faces s.grammar input type)

include foreign faces

/-- None of the slots that are tried is filled. -/
theorem sequence_refuses {slots : List (Slot ElementId)} (shape : kind = .sequence slots) :
    Ensures (fun _ => True) (Matcher.sequence s attempt path id slots) p (Refused s.grammar p) := by
  subst shape
  unfold Matcher.sequence
  refine ensures_mark (ensures_bind (fillSlots_refuses refuses foreign 0 faces.marked) ?_)
  rintro tally q ⟨none, rests⟩
  rw [if_pos none]
  exact refused_giveUp rests

/-- The opening delimiter is not there. -/
theorem wrapper_refuses {opening closing : ElementId} {slot : Slot ElementId}
    (shape : kind = .wrapper opening slot closing false) :
    Ensures (fun _ => True) (wrapper s attempt path id opening slot closing) p
      (Refused s.grammar p) := by
  subst shape
  have here := foreign opening (by simp [Kind.entriesAt])
  unfold wrapper
  refine ensures_mark (ensures_bind_of_ok cursor_eq ?_)
  refine ensures_bind_check (fun _ _ => trivial) fun range _ => ?_
  refine ensures_bind (refuses opening _ _ here faces.marked) ?_
  rintro outcome q ⟨rfl, rests⟩
  exact refused_giveUp rests

/-- Neither an opening delimiter nor the content is there. -/
theorem balanced_refuses {opening closing : ElementId} {slot : Slot ElementId}
    (shape : kind = .wrapper opening slot closing true) :
    Ensures (fun _ => True) (balanced s attempt path id opening slot closing) p
      (Refused s.grammar p) := by
  subst shape
  have here := foreign opening (by simp only [Kind.entriesAt]; split <;> simp)
  unfold balanced
  refine ensures_mark (ensures_bind_of_ok cursor_eq ?_)
  refine ensures_bind (openAll_refuses refuses here _ [] faces.marked) ?_
  rintro opened q ⟨rfl, rests⟩
  refine ensures_bind (content_refuses refuses
    (fun active => foreign _ (by simp [Kind.entriesAt, active])) (faces.marked.after rests)) ?_
  rintro outcome r ⟨rfl, still⟩
  exact refused_giveUp (rests.trans still)

/-- There is no first item. -/
theorem iteration_refuses {item : ElementId} {separator : Option ElementId}
    (shape : kind = .iteration item separator) :
    Ensures (fun _ => True) (iteration s attempt path id item separator) p
      (Refused s.grammar p) := by
  subst shape
  unfold iteration
  refine ensures_mark (ensures_bind
    (refuses item _ _ (foreign item List.mem_cons_self) faces.marked) ?_)
  rintro outcome q ⟨rfl, rests⟩
  exact refused_giveUp rests

/-- None of the variants begins. -/
theorem qualified_refuses (wellFormed : s.grammar.WellFormed)
    (stands : s.grammar.kind? id = some kind) {variants : List (List ElementId)}
    {separator : ElementId} (shape : kind = .qualified variants separator) :
    Ensures (fun _ => True) (qualified s attempt path id variants separator) p
      (Refused s.grammar p) := by
  subst shape
  have begins : ∀ variant ∈ longestFirst variants, ∃ first others, variant = first :: others ∧
      s.grammar.Foreign s.options.version type first := by
    intro variant member
    have listed := mem_longestFirst.1 member
    have nonempty := ((wellFormed.placed id _ stands).2.1 variant listed).1
    obtain ⟨first, others, rfl⟩ := List.exists_cons_of_ne_nil nonempty
    exact ⟨first, others, rfl, foreign first (List.mem_filterMap.2 ⟨_, listed, rfl⟩)⟩
  unfold qualified
  refine ensures_mark (ensures_bind (tryVariants_refuses refuses begins faces.marked) ?_)
  rintro answer q ⟨rfl, rests⟩
  exact refused_giveUp rests

/-- No alternative of a choice is there. -/
theorem oneOf_refuses (reliable : s.predictor.Reliable s.grammar)
    (wellFormed : s.grammar.WellFormed) (stands : s.grammar.kind? id = some kind)
    {alternatives : List (Slot ElementId)} {sortable : Bool}
    (shape : kind = .oneOf alternatives sortable) :
    Ensures (fun _ => True) (oneOf s attempt path id) p (Refused s.grammar p) := by
  subst shape
  have answers := reliable.children id
  rw [Grammar.triedOf_of_kind? stands] at answers
  unfold oneOf
  refine ensures_bind_query answers faces.faithful (fun _ _ => trivial) fun order memo same kept => ?_
  cases same
  have looked : p.Rests s.grammar { p with memo } := ⟨.ofMemo False faces.toSound kept, rfl⟩
  have after := faces.after looked
  obtain ⟨current, shown, rfl⟩ := after.current
  refine ensures_bind_of_ok cursor_eq ?_
  simp only [shown]
  refine ensures_bind_check (fun _ _ => trivial) fun word _ => ?_
  refine ensures_bind (tryAlternatives_refuses refuses reliable _ (fun slot member => ?_)
    (fun slot member active => ?_) 0 none after) ?_
  · exact wellFormed.part_lt_size stands (List.mem_map_of_mem (Kind.mem_tried.1 member))
  · exact foreign _ (List.mem_map_of_mem
      (List.mem_filter.2 ⟨Kind.mem_tried.1 member, active⟩))
  · rintro answer q ⟨rfl, rests⟩
    exact ensures_pure ⟨rfl, looked.trans rests⟩

end Composites

/-! ### Elements -/

/-- An element that has been entered comes to nothing if what may be entered below it does. -/
theorem matchKind_refuses (reliable : s.predictor.Reliable s.grammar)
    (wellFormed : s.grammar.WellFormed) (refuses : attempt.Refuses s input type)
    {kind : Kind ElementId} (stands : s.grammar.kind? id = some kind)
    (foreign : s.grammar.Foreign s.options.version type id) (faces : p.Faces s.grammar input type) :
    Ensures (fun _ => True) (matchKind s attempt id path kind) p (Refused s.grammar p) := by
  have below : ∀ item ∈ kind.entriesAt s.options.version,
      s.grammar.Foreign s.options.version type item := fun item entry => foreign.entry stands entry
  have own := foreign id .refl
  cases kind with
  | token word text flavor => exact token_refuses own faces stands
  | identifier use isAlias object => exact identifier_refuses own faces stands
  | sequence slots => exact sequence_refuses refuses below faces rfl
  | wrapper opening slot closing repeated =>
      cases repeated with
      | false => exact wrapper_refuses refuses below faces rfl
      | true => exact balanced_refuses refuses below faces rfl
  | oneOf alternatives sortable =>
      exact oneOf_refuses refuses below faces reliable wellFormed stands rfl
  | iteration item separator => exact iteration_refuses refuses below faces rfl
  | qualified variants separator =>
      exact qualified_refuses refuses below faces wellFormed stands rfl
  | reference target => exact refuses target path p (below target List.mem_cons_self) faces

/-- An element that may not be entered comes to nothing. -/
theorem refused_of_failure {failure : Failure} (faces : p.Faces s.grammar input type)
    (kept : p.failure ≠ none → p.failure = some failure) :
    Refused s.grammar p .noMatch { p with failure := some failure } := by
  have inside := (Progress.Rests.refl faces.toSound).inside
  exact ⟨rfl, ⟨⟨rfl, rfl, fun _ member => member, fun failed => (kept failed).symm,
    False.elim⟩, Cursor.extend_zero.symm, inside, faces.faithful⟩, rfl⟩

/-- **Nothing comes of attempting an element at a token that is foreign to it**, and nothing
changes but what is remembered and whether the parse is aborted. -/
theorem matchElement_refuses (reliable : s.predictor.Reliable s.grammar)
    (wellFormed : s.grammar.WellFormed) (levels : Nat) :
    Attempt.Refuses s input type (matchElement s levels) := by
  -- The fault for lack of levels is not excluded here: a fault is no match either.
  induction levels with
  | zero =>
      intro id path p foreign faces
      unfold matchElement
      rcases enter_eq s p with ⟨-, -, entered⟩ | ⟨-, failure, kept, refused⟩
      · exact ensures_bind_of_ok entered (ensures_of_error (q := p.entered) rfl trivial)
      · exact ensures_bind_of_ok refused (ensures_pure (refused_of_failure faces kept))
  | succ levels ih =>
      intro id path p foreign faces
      unfold matchElement
      rcases enter_eq s p with ⟨-, -, entered⟩ | ⟨-, failure, kept, refused⟩
      · refine ensures_bind_of_ok entered (ensures_bind_check (fun _ _ => trivial) ?_)
        intro element found
        refine ensures_bind (matchKind_refuses reliable wellFormed ih (kind?_of_element found)
          foreign ⟨faces.toSound.entered, faces.current, faces.plain⟩) ?_
        rintro outcome q ⟨rfl, rests⟩
        obtain ⟨⟨⟨depth, scan, waved, aborted, quiet⟩, cursor, inside, faithful⟩, same⟩ := rests
        exact ensures_bind_of_ok (leave_eq depth) (ensures_pure ⟨rfl,
          ⟨⟨rfl, scan, waved, aborted, quiet⟩, cursor, inside, faithful⟩, same⟩)
      · exact ensures_bind_of_ok refused (ensures_pure (refused_of_failure faces kept))

end Dialect
