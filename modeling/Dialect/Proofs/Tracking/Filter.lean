import Dialect.Proofs.Matching.Refusal
import Dialect.Proofs.Tracking.Element

/-!
# Passing over alternatives beside trying them all

The first parse tries every active alternative of a choice, the second passes over those that
cannot begin with the token at the cursor (`Pairing.filtering`).  In a version that has every slot
such an alternative is foreign to the token, so nothing comes of trying it, and the second parse
follows the first (`filtering_attempts`).  At most the first is aborted on the way to where the
second already stands (`tracks_late`).
-/

set_option autoImplicit false

namespace Dialect

/-- An active alternative that is passed over is foreign to the token. -/
theorem foreign_of_not_lets {s : Setting} {unfiltered : Bool} {current : TokenTypeId}
    {slot : Slot ElementId} (wellFormed : s.grammar.WellFormed)
    (all : s.grammar.HasAll s.options.version) (bound : slot.item < s.grammar.elements.size)
    (active : slot.isActive s.options.version = true)
    (passed : s.lets unfiltered current slot = false) :
    unfiltered = false ∧ s.grammar.Foreign s.options.version current slot.item := by
  unfold Setting.lets at passed
  rw [active, Bool.true_and] at passed
  obtain ⟨filtered, impossible⟩ := Bool.or_eq_false_iff.1 passed
  refine ⟨(Bool.or_eq_false_iff.1 filtered).1, ?_⟩
  exact Grammar.foreign_of_not_mem wellFormed all bound fun possible =>
    Bool.false_ne_true (impossible.symm.trans possible)

namespace Pairing

open Matcher

variable {pair : Pairing} {p q r t : Progress} {α : Type}

theorem Abreast.remember (abreast : pair.Abreast p q) {memo memo' : Memo}
    (faithful : memo.Faithful pair.first.grammar) (faithful' : memo'.Faithful pair.first.grammar) :
    pair.Abreast { p with memo } { q with memo := memo' } :=
  ⟨⟨⟨abreast.reads, abreast.inside, faithful⟩, abreast.level⟩, ⟨abreast.depth, abreast.failure,
    abreast.keen, abreast.alike, faithful'⟩, abreast.together, abreast.waved⟩

/-- The first step goes on to where the second stands already, unless it is aborted on the way. -/
theorem tracks_late {with_ : α → α → Prop} {step step' other other' : Matcher α}
    (left : step p = other r) (right : step' q = other' t) (goes : pair.Goes p r)
    (abreast : r.failure = none → pair.Abreast r t)
    (onward : ∀ {t}, pair.Abreast r t → pair.Tracks with_ other other' r t) :
    pair.Tracks with_ step step' p q := by
  intro value u ran
  rw [left] at ran
  rw [right]
  obtain ⟨_, at_⟩ := goes.toAt.exists_abreast
  have further := (onward at_ value u ran).1
  exact ⟨goes.trans further, fun quiet =>
    (onward (abreast (further.going quiet)) value u ran).2 quiet⟩

/-- A first parse that has come to nothing is where it was, beside the second. -/
theorem Abreast.rested (abreast : pair.Abreast p q) (rests : p.Rests pair.first.grammar r)
    (quiet : r.failure = none) {memo : Memo} (faithful : memo.Faithful pair.first.grammar) :
    pair.Abreast r { q with memo } := by
  have goes := goes_of_proceeds abreast.toAt rests.toProceeds
  have scan : r.scan = p.scan := rests.keeps.scan
  refine ⟨goes.toAt, ⟨abreast.depth.trans rests.keeps.depth.symm, ?_, ?_, ?_, faithful⟩,
    abreast.together.trans rests.stay.symm, abreast.waved.trans rests.same.symm⟩
  · exact (abreast.failure.trans (goes.going quiet)).trans quiet.symm
  · exact abreast.keen
  · exact fun none => (abreast.alike none).trans scan.symm

/-- Trying all alternatives beside passing over some. -/
def filtering (s : Setting) (input : Input) : Pairing where
  first := s.exhaustive
  options := s.options
  predictor := s.predictor
  input := input
  depth := 0
  gains := False

variable {s : Setting} {input : Input} {depth : Nat}

theorem filtering_fair (stage : Stage s input) (depth : Nat) :
    ((filtering s input).atDepth depth).Fair :=
  ⟨stage.exhaustive, rfl, rfl, stage.reliable⟩

section Filtering

variable {sure : Path → Nat → Prop} {attempt attempt' : Attempt} {outer : Path} {id : ElementId}
  (stage : Stage s input) (all : s.grammar.HasAll s.options.version)
  (attempts : ((filtering s input).atDepth depth).Attempts sure attempt attempt')
  (refuses : ∀ type, attempt.Refuses s.exhaustive input type)

include stage all attempts refuses

/-- The alternatives that the second parse passes over are tried in vain by the first. -/
theorem tracks_tryAlternatives_filtered {kind : Kind ElementId}
    (stands : s.grammar.kind? id = some kind) (other : ∀ slots, kind ≠ .sequence slots)
    (within : outer.Within s.grammar []) {unfiltered : Bool} {current : Token}
    {slots : List (Slot ElementId)} (inside : ∀ slot ∈ slots, slot.item < s.grammar.elements.size)
    (active : ∀ slot ∈ slots, slot.isActive s.options.version = true)
    (index : Nat) {best best' : Option (Outcome × Snapshot)}
    (bests : ((filtering s input).atDepth depth).Bests best best')
    (abreast : ((filtering s input).atDepth depth).Abreast p q)
    (shown : p.cursor.current? = some current)
    (plain : p.cursor.atPlaceholder = true → unfiltered = true) :
    ((filtering s input).atDepth depth).Tracks
      ((filtering s input).atDepth depth).Chosen
      (tryAlternatives s.exhaustive attempt (outer.enter id) unfiltered current.kind slots index best)
      (tryAlternatives s attempt' (outer.enter id) unfiltered current.kind slots index best') p q := by
  induction slots generalizing index best best' p q with
  | nil => exact tracks_untried bests abreast
  | cons slot rest ih =>
      have bound := inside slot List.mem_cons_self
      have onward : ∀ {best best' : Option (Outcome × Snapshot)} {r t : Progress},
          ((filtering s input).atDepth depth).Bests best best' →
          ((filtering s input).atDepth depth).Abreast r t → r.cursor = p.cursor →
          ((filtering s input).atDepth depth).Tracks
            ((filtering s input).atDepth depth).Chosen
            (tryAlternatives s.exhaustive attempt (outer.enter id) unfiltered current.kind rest
              (index + 1) best)
            (tryAlternatives s attempt' (outer.enter id) unfiltered current.kind rest
              (index + 1) best') r t := fun bests after here =>
        ih (fun other member => inside other (List.mem_cons_of_mem _ member))
          (fun other member => active other (List.mem_cons_of_mem _ member))
          (index + 1) bests after (here ▸ shown) (here ▸ plain)
      cases lets : s.lets unfiltered current.kind slot with
      | true =>
          have none : ∀ other ∈ ([] : List (Slot ElementId)),
              other.item < s.grammar.elements.size := by simp
          obtain ⟨memo, faithful, tried⟩ := tryAlternatives_try stage.exhaustive.reliable attempt
            (outer.enter id) none (by simp) bound
            (s.lets_exhaustive.trans (active slot List.mem_cons_self)) index best abreast.faithful
          obtain ⟨memo', faithful', tried'⟩ := tryAlternatives_try stage.reliable attempt'
            (outer.enter id) none (by simp) bound lets index best' abreast.remembered
          exact tracks_of_eq tried tried' rfl (tracks_tryThen attempts stands other within bound
            onward bests (abreast.remember faithful faithful'))
      -- The exhaustive run tries what the other one passes over, and is refused by the token.
      | false =>
          obtain ⟨filtered, foreign⟩ := foreign_of_not_lets stage.wellFormed all bound
            (active slot List.mem_cons_self) lets
          have unmarked : p.cursor.atPlaceholder = false := by
            by_contra marked
            rw [filtered] at plain
            exact Bool.false_ne_true (plain (by simpa using marked))
          obtain ⟨memo, faithful, passed⟩ := tryAlternatives_pass stage.reliable attempt'
            (outer.enter id) rest
            (show ∀ other ∈ [slot], other.item < s.grammar.elements.size by simpa using bound)
            (by simpa using lets) index best' abreast.remembered
          rcases tryAlternatives_refused (refuses current.kind) stage.exhaustive.reliable unfiltered
            bound (fun _ => foreign) rest index best
            ⟨abreast.toSound, ⟨current, shown, rfl⟩, unmarked⟩ with
            ⟨fault, r, failed⟩ | ⟨r, rests, tried⟩
          · intro value x ran
            cases failed.symm.trans ran
          · exact tracks_late tried passed (goes_of_proceeds abreast.toAt rests.toProceeds)
              (fun quiet => abreast.rested rests quiet faithful)
              fun after => onward bests after rests.stay

theorem tracks_oneOf_filtered {alternatives : List (Slot ElementId)} {sortable : Bool}
    (stands : s.grammar.kind? id = some (.oneOf alternatives sortable))
    (within : outer.Within s.grammar [])
    (abreast : ((filtering s input).atDepth depth).Abreast p q) :
    ((filtering s input).atDepth depth).Tracks (Outcome.Outdone True)
      (oneOf s.exhaustive attempt (outer.enter id) id) (oneOf s attempt' (outer.enter id) id) p q := by
  refine tracks_oneOf_of_tries (filtering_fair stage depth) attempts stands within
    (fun shown plain blank after => ?_) abreast
  exact tracks_tryAlternatives_filtered stage all attempts refuses stands (by simp) within
    (fun slot member => stage.wellFormed.part_lt_size stands
      (List.mem_map_of_mem (Kind.mem_tried.1 member)))
    (fun slot member => all id _ stands slot (Kind.mem_tried.1 member)) 0 blank after shown plain

end Filtering

/-- **Passing over alternatives makes no difference**, in a version that has every slot. -/
theorem filtering_attempts (stage : Stage s input) (all : s.grammar.HasAll s.options.version)
    {levels : Nat} (enough : levels + depth = s.options.maxDepth) :
    (filtering s input).Below .never levels depth [] := by
  have chooses : (filtering s input).Chooses .never := by
    intro depth levels chain outer id alternatives sortable p q _ attempts stands within abreast
    refine tracks_oneOf_filtered stage all attempts (fun type => ?_) stands within abreast
    rw [matchElementGuarded_never]
    exact matchElement_refuses stage.exhaustive.reliable stage.wellFormed levels
  exact matchElement_attempts (filtering_fair stage 0) chooses False.elim levels depth enough []

end Pairing

end Dialect
