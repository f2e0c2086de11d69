import Dialect.Proofs.Matching.Record

/-!
# What is matched after what

A full match of a composite is a succession of matches of its parts, each at its slot.  Which
part may come after which, and which may come last, continues from the kind of the composite
(`Kind.Continues`), and every full match keeps to it (`leaves_succeed`).
-/

set_option autoImplicit false

namespace Dialect

/-- Slots, numbered from `index` on, of which the first to be filled is the given one; those
before it, or all of them if none is given, may stay empty. -/
inductive Upcoming (version : Nat) :
    List (Slot ElementId) → (index : Nat) → Option (Nat × ElementId) → Prop
  | done (index) : Upcoming version [] index none
  | skip {slot rest index next?} (may : slot.isActive version = false ∨ slot.optional = true)
      (others : Upcoming version rest (index + 1) next?) :
      Upcoming version (slot :: rest) index next?
  | fill {slot rest index} (active : slot.isActive version = true) :
      Upcoming version (slot :: rest) index (some (index, slot.item))

/-- What may be matched next in an element of the kind, after the given item at the given slot:
an item at a slot, or nothing if the match may end. -/
inductive Kind.Continues (version : Nat) :
    Kind ElementId → (slot : Nat) → (item : ElementId) → Option (Nat × ElementId) → Prop
  | sequence {slots index slot next?} (here : slots[index]? = some slot)
      (upcoming : Upcoming version (slots.drop (index + 1)) (index + 1) next?) :
      Continues version (.sequence slots) index slot.item next?
  | reopen {opening content closing} :
      Continues version (.wrapper opening content closing true) 0 opening (some (0, opening))
  | fill {opening content closing repeated} (active : content.isActive version = true) :
      Continues version (.wrapper opening content closing repeated) 0 opening
        (some (1, content.item))
  | leave {opening content closing repeated}
      (may : content.isActive version = false ∨ content.optional = true) :
      Continues version (.wrapper opening content closing repeated) 0 opening (some (2, closing))
  | close {opening content closing repeated} :
      Continues version (.wrapper opening content closing repeated) 1 content.item
        (some (2, closing))
  | bare {opening content closing} :
      Continues version (.wrapper opening content closing true) 1 content.item none
  | reclose {opening content closing} :
      Continues version (.wrapper opening content closing true) 2 closing (some (2, closing))
  | closed {opening content closing repeated} :
      Continues version (.wrapper opening content closing repeated) 2 closing none
  | oneOf {alternatives sortable index item} :
      Continues version (.oneOf alternatives sortable) index item none
  | again {item} : Continues version (.iteration item none) 0 item (some (0, item))
  | separate {item separator} :
      Continues version (.iteration item (some separator)) 0 item (some (1, separator))
  | separated {item separator} :
      Continues version (.iteration item (some separator)) 1 separator (some (0, item))
  | listed {item separator} : Continues version (.iteration item separator) 0 item none
  | join {variants separator index part} :
      Continues version (.qualified variants separator) index part (some (index + 1, separator))
  | joined {variants separator index part} :
      Continues version (.qualified variants separator) index separator (some (index, part))
  | named {variants separator index part} :
      Continues version (.qualified variants separator) index part none
  | reference {target} : Continues version (.reference target) 0 target none

/-- Parts of a composite that are matched in full one after the other, up to the last. -/
inductive Succession (version : Nat) (kind : Kind ElementId) (below : Nat → ElementId → Record) :
    Option (Nat × ElementId) → Nat → Nat → Prop
  | done (i) : Succession version kind below none i i
  | next {slot item next? i m j events} (matched : below slot item true i m events)
      (continues : kind.Continues version slot item next?)
      (others : Succession version kind below next? m j) :
      Succession version kind below (some (slot, item)) i j

section Leaves

variable {s : Setting} {input : Input} {below : Nat → ElementId → Record} {complete : Bool}
  {i j m n : Nat} {events : List Event} {id : ElementId} {kind : Kind ElementId}

/-- Slots that are filled one after the other, being the last ones of a sequence. -/
theorem filled_succeed {slots rest : List (Slot ElementId)} {index : Nat}
    (filled : Filled s input below rest index complete i j events) (full : complete = true)
    (last : slots.drop index = rest) :
    ∃ next?, Upcoming s.options.version rest index next? ∧
      Succession s.options.version (.sequence slots) below next? i j := by
  induction filled with
  | done index i => exact ⟨none, .done index, .done i⟩
  | pass inactive others ih =>
      obtain ⟨next?, upcoming, succeed⟩ := ih full (by rw [← List.tail_drop, last, List.tail_cons])
      exact ⟨next?, .skip (.inl inactive) upcoming, succeed⟩
  | leave active optional others ih =>
      obtain ⟨next?, upcoming, succeed⟩ := ih full (by rw [← List.tail_drop, last, List.tail_cons])
      exact ⟨next?, .skip (.inr optional) upcoming, succeed⟩
  | @fill slot rest index _ i m j events more active matched others ih =>
      have later : slots.drop (index + 1) = rest := by
        rw [← List.tail_drop, last, List.tail_cons]
      have here : slots[index]? = some slot := by
        rw [← List.head?_drop, last, List.head?_cons]
      obtain ⟨next?, upcoming, succeed⟩ := ih full later
      exact ⟨_, .fill active, .next matched (.sequence here (later ▸ upcoming)) succeed⟩
  | fillPart active matched => cases full
  | miss active required missing => cases full

variable {opening closing : ElementId} {content : Slot ElementId} {repeated : Bool}

/-- The closing delimiters of a repeated wrapper. -/
theorem shut_succeed {opened left : List TextRange}
    (shut : Shut below closing opened left i j events) (all : left = []) (nonempty : opened ≠ []) :
    Succession s.options.version (.wrapper opening content closing true) below (some (2, closing))
      i j := by
  induction shut with
  | done opened i => exact absurd all nonempty
  | @more range outer left i j events more matched others ih =>
      cases outer with
      | nil =>
          cases others
          exact .next matched .closed (.done _)
      | cons _ _ => exact .next matched .reclose (ih all (List.cons_ne_nil _ _))

/-- The content of a wrapper, behind an opening delimiter. -/
theorem contained_succeed (contained : Contained s input below content complete m n events)
    (full : complete = true)
    (closes : Succession s.options.version (.wrapper opening content closing repeated) below
      (some (2, closing)) n j) :
    ∃ next?, (Kind.wrapper opening content closing repeated).Continues s.options.version 0 opening
        next? ∧
      Succession s.options.version (.wrapper opening content closing repeated) below next? m j := by
  cases contained with
  | fill active matched =>
      subst full
      exact ⟨_, .fill active, .next matched .close closes⟩
  | leave optional => exact ⟨_, .leave (.inr optional), closes⟩
  | miss required missing => cases full

/-- The opening delimiters of a repeated wrapper, before the rest of it. -/
theorem opened_succeed {ranges : List TextRange}
    (opened : Opened input below opening ranges i m events) (nonempty : ranges ≠ [])
    {next? : Option (Nat × ElementId)}
    (continues : (Kind.wrapper opening content closing true).Continues s.options.version 0 opening next?)
    (others : Succession s.options.version (.wrapper opening content closing true) below next? m
      j) :
    Succession s.options.version (.wrapper opening content closing true) below (some (0, opening))
      i j := by
  -- The last delimiter is recorded outermost, so the succession is built from its end.
  induction opened generalizing next? with
  | done i => exact absurd rfl nonempty
  | @more ranges i m events more range before range_eq matched ih =>
      have last := Succession.next matched continues others
      cases before with
      | done i => exact last
      | more => exact ih (List.cons_ne_nil _ _) .reopen last

/-- The items of an iteration behind a first one. -/
theorem repeated_succeed {item : ElementId} {separator : Option ElementId}
    (repeated : Repeated s input below item separator complete i j events)
    (full : complete = true) :
    ∃ next?, (Kind.iteration item separator).Continues s.options.version 0 item next? ∧
      Succession s.options.version (.iteration item separator) below next? i j := by
  induction repeated with
  | done i => exact ⟨none, .listed, .done i⟩
  | more separated matched others ih =>
      obtain ⟨next?, continues, succeed⟩ := ih full
      cases separated with
      | none => exact ⟨_, .again, .next matched continues succeed⟩
      | some between =>
          exact ⟨_, .separate, .next between .separated (.next matched continues succeed)⟩
  | part separated matched => cases full
  | miss separator_eq matched missing => cases full

/-- The parts of a name behind the one at the slot before. -/
theorem joined_succeed {variants : List (List ElementId)} {separator : ElementId} {report : Bool}
    {parts : List ElementId} {index before : Nat} (place : index = before + 1)
    (joined : Joined s input below separator report parts index complete i j events)
    (full : complete = true) (part : ElementId) :
    ∃ next?, (Kind.qualified variants separator).Continues s.options.version before part next? ∧
      Succession s.options.version (.qualified variants separator) below next? i j := by
  induction joined generalizing before part with
  | done index i => exact ⟨none, .named, .done i⟩
  | @more next rest index _ i j _ _ _ separated matched others ih =>
      obtain ⟨next?, continues, succeed⟩ := ih rfl full next
      exact ⟨_, place ▸ .join, .next separated .joined (.next matched continues succeed)⟩
  | missSeparator reported => cases full
  | missPart separated reported => cases full

theorem named_succeed {variants : List (List ElementId)} {separator : ElementId} {report : Bool}
    {variant : List ElementId}
    (named : Named s input below separator report variant complete i j events)
    (full : complete = true) :
    ∃ part, Succession s.options.version (.qualified variants separator) below (some (0, part))
      i j := by
  cases named with
  | @intro part rest _ _ _ _ _ matched others =>
      obtain ⟨next?, continues, succeed⟩ := joined_succeed (Nat.zero_add 1).symm others full part
      exact ⟨part, .next matched continues succeed⟩

/-- **A full match of a composite is a succession of matches of its parts**, of which there is
at least one. -/
theorem leaves_succeed (composite : kind.isLeaf = false) (further : i < j)
    (leaves : kind.Leaves s input below id complete i j events) (full : complete = true) :
    ∃ slot item, Succession s.options.version kind below (some (slot, item)) i j := by
  cases leaves with
  | token => cases composite
  | identifier => cases composite
  | sequence filled =>
      obtain ⟨next?, -, succeed⟩ := filled_succeed filled full List.drop_zero
      cases succeed with
      | done => exact absurd further (Nat.lt_irrefl i)
      | next matched continues others => exact ⟨_, _, .next matched continues others⟩
  | @wrapper opening content closing range held _ _ m _ first middle last range_eq opened contained
      passed closed =>
      subst full
      cases closed with
      | all shut =>
          obtain _ | ⟨matched, others⟩ := shut
          cases others
          -- The closing delimiter ends the chain; the content comes before it or is passed over.
          have closes : Succession s.options.version (.wrapper opening content closing false) below
              (some (2, closing)) m (m + 1) := .next matched .closed (.done _)
          cases active : content.isActive s.options.version with
          | true =>
              obtain ⟨next?, continues, succeed⟩ :=
                contained_succeed (contained active) rfl closes
              exact ⟨_, _, .next opened continues succeed⟩
          | false =>
              obtain ⟨-, rfl, -⟩ := passed active
              exact ⟨_, _, .next opened (.leave (.inl active)) closes⟩
  | balanced opened nonempty contained closed =>
      subst full
      cases closed with
      | all shut =>
          obtain ⟨next?, continues, succeed⟩ :=
            contained_succeed contained rfl (shut_succeed shut rfl nonempty)
          exact ⟨_, _, opened_succeed opened nonempty continues succeed⟩
  | bare active matched => exact ⟨_, _, .next (full ▸ matched) .bare (.done j)⟩
  | oneOf tried active admitted matched => exact ⟨_, _, .next (full ▸ matched) .oneOf (.done j)⟩
  | iteration matched repeated =>
      obtain ⟨next?, continues, succeed⟩ := repeated_succeed repeated full
      exact ⟨_, _, .next matched continues succeed⟩
  | iterationPart matched => cases full
  | qualified member named => exact ⟨0, named_succeed named rfl⟩
  | qualifiedPart member named => exact ⟨0, named_succeed named full⟩
  | reference matched => exact ⟨_, _, .next (full ▸ matched) .reference (.done j)⟩

end Leaves

end Dialect
