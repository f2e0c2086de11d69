import Dialect.Proofs.Grammar.Reachable
import Dialect.Proofs.Grammar.WellFormed

/-!
# Entering elements without taking a token

`g.Enters x y` says that `y` may be entered at the token at which `x` is entered, all
slots being counted; `g.EntersAt version x y` counts the active slots only, which is
what a parse at that version does.

No element of an accepted grammar leads back to itself through the first relation
(`WellFormed.not_reenters`).  At a version it can: a sequence passes over a required
slot that came later, to slots that the check on acceptance never looked at.
`reenters_at_iff` says that this is the only way.
-/

set_option autoImplicit false

namespace Dialect

open Relation

namespace Kind

/-- The slots of a list that may be filled at the token at which the list is entered:
the active ones up to and including the first that must be filled. -/
def leadingAt (version : Nat) : List (Slot ElementId) → List ElementId
  | [] => []
  | slot :: rest =>
      if slot.isActive version then
        slot.item :: if slot.optional then leadingAt version rest else []
      else leadingAt version rest

/-- The leading slots that stand behind a required slot which the version does not
have. -/
def leadingBeyond (version : Nat) : List (Slot ElementId) → List ElementId
  | [] => []
  | slot :: rest =>
      if slot.optional then leadingBeyond version rest
      else if slot.isActive version then []
      else leadingAt version rest

/-- The elements that may be entered at the token at which this one is entered, in the
given version. -/
def entriesAt (version : Nat) : Kind ElementId → List ElementId
  | .token .. | .identifier .. => []
  | .sequence slots => leadingAt version slots
  | .wrapper opening content _ repeated =>
      if repeated && content.isActive version then [opening, content.item] else [opening]
  | .oneOf alternatives _ => (alternatives.filter (Slot.isActive version)).map Slot.item
  | .iteration item _ => [item]
  | .qualified variants _ => variants.filterMap List.head?
  | .reference target => [target]

theorem exists_of_mem_leading {slots : List (Slot ElementId)} {id : ElementId}
    (leads : id ∈ leading slots) : ∃ slot ∈ slots, slot.item = id := by
  induction slots with
  | nil => simp [leading] at leads
  | cons slot rest ih =>
      rcases List.mem_cons.1 leads with rfl | later
      · exact ⟨slot, List.mem_cons_self, rfl⟩
      · split at later
        · obtain ⟨other, member, same⟩ := ih later
          exact ⟨other, List.mem_cons_of_mem _ member, same⟩
        · cases later

theorem exists_of_mem_leadingAt {version : Nat} {slots : List (Slot ElementId)} {id : ElementId}
    (leads : id ∈ leadingAt version slots) :
    ∃ slot ∈ slots, slot.isActive version = true ∧ slot.item = id := by
  induction slots with
  | nil => simp [leadingAt] at leads
  | cons slot rest ih =>
      have later : id ∈ leadingAt version rest →
          ∃ slot' ∈ slot :: rest, slot'.isActive version = true ∧ slot'.item = id := by
        intro inRest
        obtain ⟨other, member, found⟩ := ih inRest
        exact ⟨other, List.mem_cons_of_mem _ member, found⟩
      unfold leadingAt at leads
      split at leads
      · rename_i active
        rcases List.mem_cons.1 leads with rfl | behind
        · exact ⟨slot, List.mem_cons_self, active, rfl⟩
        · split at behind
          · exact later behind
          · cases behind
      · exact later leads

/-- A leading slot of a version leads in every version, or it stands behind a required
slot which the version does not have. -/
theorem mem_leadingAt {version : Nat} {slots : List (Slot ElementId)} {id : ElementId}
    (leads : id ∈ leadingAt version slots) :
    id ∈ leading slots ∨ id ∈ leadingBeyond version slots := by
  induction slots with
  | nil => simp [leadingAt] at leads
  | cons slot rest ih =>
      unfold leadingAt at leads
      unfold leading leadingBeyond
      by_cases optional : slot.optional = true <;> by_cases active : slot.isActive version = true
      · simp only [optional, active, if_true, List.mem_cons] at leads ⊢
        exact leads.elim (fun same => Or.inl (Or.inl same)) fun later =>
          (ih later).imp Or.inr fun beyond => beyond
      · simp only [optional, active, if_true, if_false, List.mem_cons, Bool.false_eq_true]
          at leads ⊢
        exact (ih leads).imp Or.inr fun beyond => beyond
      · simp only [optional, active, if_true, if_false, List.mem_cons, Bool.false_eq_true]
          at leads ⊢
        exact Or.inl leads
      · simp only [optional, active, if_false, Bool.false_eq_true] at leads ⊢
        exact Or.inr leads

theorem mem_leadingAt_of_beyond {version : Nat} {slots : List (Slot ElementId)} {id : ElementId}
    (beyond : id ∈ leadingBeyond version slots) : id ∈ leadingAt version slots := by
  induction slots with
  | nil => simp [leadingBeyond] at beyond
  | cons slot rest ih =>
      unfold leadingBeyond at beyond
      unfold leadingAt
      by_cases optional : slot.optional = true <;> by_cases active : slot.isActive version = true
      · simp only [optional, active, if_true] at beyond ⊢
        exact List.mem_cons_of_mem _ (ih beyond)
      · simp only [optional, active, if_true, if_false, Bool.false_eq_true] at beyond ⊢
        exact ih beyond
      · simp [optional, active] at beyond
      · simp only [optional, active, if_false, Bool.false_eq_true] at beyond ⊢
        exact beyond

/-- What a version adds to the entries stands behind a required slot of a sequence. -/
theorem mem_entries_or_beyond {version : Nat} {kind : Kind ElementId} {id : ElementId}
    (entry : id ∈ kind.entriesAt version) :
    id ∈ kind.entries ∨ ∃ slots, kind = .sequence slots ∧ id ∈ leadingBeyond version slots := by
  cases kind with
  | sequence slots => exact (mem_leadingAt entry).imp_right fun beyond => ⟨slots, rfl, beyond⟩
  | wrapper opening content closing repeated =>
      refine Or.inl ?_
      simp only [entriesAt] at entry
      simp only [entries]
      cases repeated <;> cases active : content.isActive version <;> simp_all
  | oneOf alternatives sortable =>
      obtain ⟨slot, member, rfl⟩ := List.mem_map.1 entry
      exact Or.inl (List.mem_map_of_mem (List.mem_filter.1 member).1)
  | _ => exact Or.inl entry

end Kind

namespace Grammar

variable {g : Grammar} {version : Nat}

/-- `y` may be entered at the token at which `x` is entered, all slots being counted. -/
def Enters (g : Grammar) (x y : ElementId) : Prop := y ∈ g.entries x

/-- `y` may be entered at the token at which `x` is entered, in the given version. -/
def EntersAt (g : Grammar) (version : Nat) (x y : ElementId) : Prop :=
  ∃ kind, g.kind? x = some kind ∧ y ∈ kind.entriesAt version

/-- `x` is a sequence in which `y` comes to lead because the version does not have a
required slot before it. -/
def PassesOver (g : Grammar) (version : Nat) (x y : ElementId) : Prop :=
  ∃ slots, g.kind? x = some (.sequence slots) ∧ y ∈ Kind.leadingBeyond version slots

theorem enters_iff {x y : ElementId} :
    g.Enters x y ↔ ∃ kind, g.kind? x = some kind ∧ y ∈ kind.entries := by
  unfold Enters entries
  cases found : g.kind? x <;> simp

/-- Nothing is entered from where no element stands. -/
theorem Enters.lt_size {x y : ElementId} (enters : g.Enters x y) : x < g.elements.size := by
  obtain ⟨kind, found, -⟩ := enters_iff.1 enters
  exact lt_of_kind?_eq_some found

theorem target?_eq_some {x y : ElementId} :
    g.target? x = some y ↔ g.kind? x = some (.reference y) := by
  unfold target?
  cases found : g.kind? x with
  | none => simp
  | some kind => cases kind <;> simp

theorem PassesOver.entersAt {x y : ElementId} (passes : g.PassesOver version x y) :
    g.EntersAt version x y := by
  obtain ⟨slots, found, beyond⟩ := passes
  exact ⟨_, found, Kind.mem_leadingAt_of_beyond beyond⟩

/-- What a version adds to the entries of an element stands in a sequence that passes
over a required slot. -/
theorem EntersAt.enters_or_passesOver {x y : ElementId} (enters : g.EntersAt version x y) :
    g.Enters x y ∨ g.PassesOver version x y := by
  obtain ⟨kind, found, entry⟩ := enters
  rcases Kind.mem_entries_or_beyond entry with counted | ⟨slots, rfl, beyond⟩
  · exact Or.inl (enters_iff.2 ⟨kind, found, counted⟩)
  · exact Or.inr ⟨slots, found, beyond⟩

end Grammar

/-! ### Parts -/

namespace Kind

variable {kind : Kind ElementId} {id : ElementId}

/-- The elements an element mentions. -/
def parts : Kind ElementId → List ElementId
  | .token .. | .identifier .. => []
  | .sequence slots => slots.map Slot.item
  | .wrapper opening content closing _ => [opening, content.item, closing]
  | .oneOf alternatives _ => alternatives.map Slot.item
  | .iteration item separator => item :: separator.toList
  | .qualified variants separator => separator :: variants.flatten
  | .reference target => [target]

theorem mem_parts_of_entries (entry : id ∈ kind.entries) : id ∈ kind.parts := by
  cases kind with
  | sequence slots =>
      obtain ⟨slot, member, rfl⟩ := exists_of_mem_leading entry
      exact List.mem_map_of_mem member
  | wrapper opening content closing repeated =>
      have either : id = opening ∨ id = content.item := by
        simp only [entries] at entry
        split at entry <;> simp_all
      rcases either with rfl | rfl
      · exact List.mem_cons_self
      · exact List.mem_cons_of_mem _ List.mem_cons_self
  | iteration item separator =>
      obtain rfl := List.mem_singleton.1 entry
      exact List.mem_cons_self
  | qualified variants separator =>
      obtain ⟨variant, member, first⟩ := List.mem_filterMap.1 entry
      exact List.mem_cons_of_mem _ (List.mem_flatten.2 ⟨variant, member, List.mem_of_head? first⟩)
  | _ => exact entry

theorem mem_parts_of_entriesAt {version : Nat} (entry : id ∈ kind.entriesAt version) :
    id ∈ kind.parts := by
  rcases mem_entries_or_beyond entry with counted | ⟨slots, rfl, beyond⟩
  · exact mem_parts_of_entries counted
  · obtain ⟨slot, member, -, rfl⟩ := exists_of_mem_leadingAt (mem_leadingAt_of_beyond beyond)
    exact List.mem_map_of_mem member

/-- The parts of an element that is no reference lie after it. -/
theorem Placed.parts_contained {vocabulary : Vocabulary}
    {look : ElementId → Option (Kind ElementId)} {own : ElementId}
    (placed : kind.Placed vocabulary look own) (member : id ∈ kind.parts)
    (direct : kind ≠ .reference id) : Contains look own id := by
  have delimits : ∀ delimiter, Delimits look own delimiter → Contains look own delimiter := by
    rintro delimiter ⟨after, type, found⟩
    exact ⟨after, by simp [found]⟩
  cases kind with
  | token type text flavor => exact absurd member List.not_mem_nil
  | identifier use isAlias object => exact absurd member List.not_mem_nil
  | sequence slots =>
      obtain ⟨slot, inSlots, rfl⟩ := List.mem_map.1 member
      exact placed slot inSlots
  | wrapper opening content closing repeated =>
      obtain ⟨opens, contains, closes⟩ := placed
      simp only [parts, List.mem_cons, List.not_mem_nil, or_false] at member
      rcases member with rfl | rfl | rfl
      · exact delimits _ opens
      · exact contains
      · exact delimits _ closes
  | oneOf alternatives sortable =>
      obtain ⟨slot, inSlots, rfl⟩ := List.mem_map.1 member
      exact placed slot inSlots
  | iteration item separator =>
      rcases List.mem_cons.1 member with rfl | separates
      · exact placed.1
      · exact delimits id (placed.2 id (Option.mem_toList.1 separates))
  | qualified variants separator =>
      rcases List.mem_cons.1 member with rfl | part
      · exact delimits _ placed.2.2
      · obtain ⟨variant, inVariants, inVariant⟩ := List.mem_flatten.1 part
        obtain ⟨after, kind, found, -⟩ := (placed.2.1 variant inVariants).2 id inVariant
        exact ⟨after, by simp [found]⟩
  | reference target =>
      obtain rfl := List.mem_singleton.1 member
      exact absurd rfl direct

end Kind

namespace Grammar

variable {g : Grammar} {version : Nat}

namespace WellFormed

variable (wellFormed : g.WellFormed)

include wellFormed

/-- A part lies after the element that mentions it, unless that is a reference. -/
theorem lt_of_part {x y : ElementId} {kind : Kind ElementId} (stands : g.kind? x = some kind)
    (member : y ∈ kind.parts) : x < y ∨ g.target? x = some y := by
  by_cases direct : kind = .reference y
  · exact Or.inr (target?_eq_some.2 (direct ▸ stands))
  · exact Or.inl ((wellFormed.placed x kind stands).parts_contained member direct).1

/-- Whatever an element mentions stands in the grammar. -/
theorem part_lt_size {x y : ElementId} {kind : Kind ElementId} (stands : g.kind? x = some kind)
    (member : y ∈ kind.parts) : y < g.elements.size := by
  by_cases direct : kind = .reference y
  · obtain ⟨name, rule⟩ := wellFormed.targets x y (direct ▸ stands)
    exact wellFormed.roots name y rule
  · exact lt_of_isSome ((wellFormed.placed x kind stands).parts_contained member direct).2

/-- An entry lies after the element it is entered from, unless a reference leads to it. -/
theorem lt_of_enters {x y : ElementId} (enters : g.Enters x y) :
    x < y ∨ g.target? x = some y := by
  obtain ⟨kind, found, entry⟩ := enters_iff.1 enters
  exact wellFormed.lt_of_part found (Kind.mem_parts_of_entries entry)

/-- A way through entries either goes upwards or takes a reference. -/
theorem lt_or_exists_target {x y : ElementId} (path : TransGen g.Enters x y) :
    x < y ∨ ∃ via root, ReflTransGen g.Enters x via ∧ g.target? via = some root ∧
      ReflTransGen g.Enters root y := by
  induction path with
  | single enters =>
      exact (wellFormed.lt_of_enters enters).imp_right fun leads => ⟨x, _, .refl, leads, .refl⟩
  | tail path enters ih =>
      rcases ih with upwards | ⟨via, root, before, leads, after⟩
      · exact (wellFormed.lt_of_enters enters).imp (Nat.lt_trans upwards)
          fun leads => ⟨_, _, path.to_reflTransGen, leads, .refl⟩
      · exact Or.inr ⟨via, root, before, leads, after.tail enters⟩

/-- Where no element refers to a rule, none can be entered again in any version. -/
theorem not_reentersAt_of_direct (direct : ∀ x y, g.target? x ≠ some y) (id : ElementId) :
    ¬ TransGen (g.EntersAt version) id id := by
  have upwards : ∀ y, TransGen (g.EntersAt version) id y → id < y := by
    have step : ∀ x y, g.EntersAt version x y → x < y := by
      rintro x y ⟨kind, stands, entry⟩
      exact (wellFormed.lt_of_part stands (Kind.mem_parts_of_entriesAt entry)).resolve_right
        (direct x y)
    intro y path
    induction path with
    | single enters => exact step _ _ enters
    | tail path enters ih => exact Nat.lt_trans ih (step _ _ enters)
  exact fun cycle => Nat.lt_irrefl id (upwards id cycle)

end WellFormed

/-- A way that starts at `root` and does not end there has a last part that stays away
from `root`. -/
theorem exists_avoiding {root via : ElementId} (path : ReflTransGen g.Enters root via) :
    via = root ∨ ∃ first ∈ g.entries root,
      ReflTransGen (Reach.Edge fun id => if id = root then [] else g.entries id) first via := by
  induction path with
  | refl => exact Or.inl rfl
  | @tail before via _ enters ih =>
      by_cases start : before = root
      · exact Or.inr ⟨via, start ▸ enters, .refl⟩
      · obtain ⟨first, entry, avoiding⟩ := ih.resolve_left start
        have edge : via ∈ (if before = root then [] else g.entries before) := by
          rw [if_neg start]
          exact enters
        exact Or.inr ⟨first, entry, avoiding.tail edge⟩

/-- The search for a re-entry misses none. -/
theorem reentry?_ne_none {root via : ElementId} (path : ReflTransGen g.Enters root via)
    (leads : g.target? via = some root) : g.reentry? root ≠ none := by
  intro clear
  have entry : root ∈ g.entries via := enters_iff.2 ⟨_, target?_eq_some.1 leads, by simp [Kind.entries]⟩
  have reached : ∃ first ∈ (g.entries root).reverse,
      ReflTransGen (Reach.Edge fun id => if id = root then [] else g.entries id) first via := by
    rcases exists_avoiding path with rfl | ⟨first, member, avoiding⟩
    · exact ⟨via, List.mem_reverse.2 entry, .refl⟩
    · exact ⟨first, List.mem_reverse.2 member, avoiding⟩
  have inside : ∀ a b, b ∈ (if a = root then [] else g.entries a) → a < g.elements.size := by
    intro a b follows
    split at follows
    · cases follows
    · exact Enters.lt_size follows
  have listed := (Reach.mem_search_iff inside).2 ⟨Enters.lt_size entry, reached⟩
  have refused := List.find?_eq_none.1 clear via listed
  simp [leads] at refused

/-- A rule that no way leads back to is not refused. -/
theorem reentry?_eq_none {root : ElementId} (acyclic : ¬ TransGen g.Enters root root) :
    g.reentry? root = none := by
  unfold reentry?
  rw [List.find?_eq_none]
  intro via listed leads
  obtain ⟨-, -, first, entry, path⟩ := Reach.of_mem_search listed
  have enters : g.Enters root first := List.mem_reverse.1 entry
  have enters_of_edge : ∀ a b, Reach.Edge (fun id => if id = root then [] else g.entries id) a b →
      g.Enters a b := by
    intro a b edge
    have edge : b ∈ (if a = root then [] else g.entries a) := edge
    split at edge
    · cases edge
    · exact edge
  have onwards : ReflTransGen g.Enters first via := ReflTransGen.mono enters_of_edge _ _ path
  have back : g.Enters via root :=
    enters_iff.2 ⟨_, target?_eq_some.1 (by simpa using leads), List.mem_cons_self⟩
  exact acyclic ((TransGen.head' enters onwards).tail back)

/-- **No element of an accepted grammar can be entered again at the token at which it was
entered**, when all slots are counted. -/
theorem WellFormed.not_reenters (wellFormed : g.WellFormed) (id : ElementId) :
    ¬ TransGen g.Enters id id := by
  intro cycle
  obtain ⟨via, root, before, leads, after⟩ :=
    (wellFormed.lt_or_exists_target cycle).resolve_left (Nat.lt_irrefl id)
  obtain ⟨name, member⟩ := wellFormed.targets via root (target?_eq_some.1 leads)
  exact reentry?_ne_none (after.trans before) leads (wellFormed.noReentry name root member)

/-- A way through the entries of a version is a way through entries that count all
slots, or it passes over a required slot. -/
theorem transGen_enters_or_passesOver {x y : ElementId}
    (path : TransGen (g.EntersAt version) x y) :
    TransGen g.Enters x y ∨ ∃ a b, ReflTransGen (g.EntersAt version) x a ∧
      g.PassesOver version a b ∧ ReflTransGen (g.EntersAt version) b y := by
  induction path with
  | single enters =>
      exact enters.enters_or_passesOver.imp .single fun passes => ⟨_, _, .refl, passes, .refl⟩
  | tail path enters ih =>
      rcases ih with counted | ⟨a, b, before, passes, after⟩
      · exact enters.enters_or_passesOver.imp counted.tail
          fun passes => ⟨_, _, path.to_reflTransGen, passes, .refl⟩
      · exact Or.inr ⟨a, b, before, passes, after.tail enters⟩

/-- **When an element can be entered again.**  In an accepted grammar some element can be
entered again at its own token in a version exactly if some sequence passes over a
required slot, which the version does not have, to a slot that leads back to the
sequence. -/
theorem reenters_at_iff [Alphabet] {vocabulary : Vocabulary} {rules : List Rule}
    {root : Option String}
    (built : ofRules vocabulary rules root = .ok g) (version : Nat) :
    (∃ id, TransGen (g.EntersAt version) id id) ↔
      ∃ x y, g.PassesOver version x y ∧ ReflTransGen (g.EntersAt version) y x := by
  constructor
  · rintro ⟨id, cycle⟩
    rcases transGen_enters_or_passesOver cycle with counted | ⟨a, b, before, passes, after⟩
    · exact absurd counted ((ofRules_wellFormed built).not_reenters id)
    · exact ⟨a, b, passes, after.trans before⟩
  · rintro ⟨x, y, passes, back⟩
    exact ⟨x, .head' passes.entersAt back⟩

/-- A rule that refers to itself behind a token which only later versions have. -/
def lateStartRules : List Rule :=
  [⟨"r", .sequence [⟨.token "A" none none, false, 5⟩, .required (.reference "r")]⟩]

/-- The grammar of that rule. -/
def lateStart : Grammar where
  vocabulary := ⟨"test", #[.keyword "A" "a"]⟩
  elements := #[
    ⟨0, "r", some "r", none, .sequence [⟨1, false, 5⟩, .required 2]⟩,
    ⟨1, "r#1", none, some 0, .token 0 none none⟩,
    ⟨2, "r#2", none, some 0, .reference 0⟩]
  rules := [("r", 0)]
  root := 0

/-- The grammar is accepted although its rule can be entered again in version 1. -/
theorem lateStart_reenters :
    ofRules lateStart.vocabulary lateStartRules none = .ok lateStart ∧
      ∃ id, TransGen (lateStart.EntersAt 1) id id := by
  have built : ofRules lateStart.vocabulary lateStartRules none = .ok lateStart := by
    decide +kernel
  have passes : lateStart.PassesOver 1 0 2 := ⟨_, rfl, by decide⟩
  have back : lateStart.EntersAt 1 2 0 := ⟨_, rfl, by decide⟩
  exact ⟨built, (reenters_at_iff built 1).2 ⟨0, 2, passes, .single back⟩⟩

end Grammar

end Dialect
