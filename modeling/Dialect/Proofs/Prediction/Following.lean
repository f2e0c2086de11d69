import Dialect.Prediction.Path
import Dialect.Proofs.Prediction.Answers
import Dialect.Proofs.Results

/-!
# What may follow has an answer

What may or must come after a place in the grammar is settled by the path to it and by
computed first sets (`answers_mayFollow`, `answers_mustFollow`).  The only thing that
can be wrong with the question is a frame at a slot that its sequence does not have and
that cannot be counted (`Frame.Astray`).
-/

set_option autoImplicit false

namespace Dialect

/-! ### Answers computed from the grammar -/

namespace Grammar

variable (g : Grammar)

/-- Whether a match of the element may begin with the token type. -/
def couldStart (token : TokenTypeId) (id : ElementId) : Except Fault Bool := do
  return (← g.firstsOf id).possible.contains token

/-- Whether every match of the element begins with the token type. -/
def shouldStart (token : TokenTypeId) (id : ElementId) : Except Fault Bool := do
  return (← g.firstsOf id).required.contains token

/-- The kind of an element of the grammar. -/
def kindAt (id : ElementId) : Except Fault (Kind ElementId) := do
  return (← g.element id).kind

/-- Whether the token type may come right after the innermost element of a path. -/
def mayFollow (version : Nat) (path : Path) (token : TokenTypeId) : Except Fault Bool :=
  path.mayPrecede version g.kindAt (g.couldStart token)

/-- Whether the token type must come right after the innermost element of a path. -/
def mustFollow (version : Nat) (path : Path) (token : TokenTypeId) : Except Fault Bool :=
  path.mustPrecede version g.kindAt (g.shouldStart token)

variable {g}

theorem couldStart_of_lt (token : TokenTypeId) {id : ElementId} (bound : id < g.elements.size) :
    g.couldStart token id = .ok ((FirstSets.ofElement g id).possible.contains token) := by
  rw [couldStart, firstsOf_of_lt bound]
  rfl

theorem shouldStart_of_lt (token : TokenTypeId) {id : ElementId} (bound : id < g.elements.size) :
    g.shouldStart token id = .ok ((FirstSets.ofElement g id).required.contains token) := by
  rw [shouldStart, firstsOf_of_lt bound]
  rfl

end Grammar

section Asking

variable {g : Grammar} {version : Nat} {starts : ElementId → Query Bool}
  {startsOf : ElementId → Except Fault Bool}

theorem answers_amongSlots (asked : ∀ id, Answers g (starts id) (startsOf id))
    (slots : List (Slot ElementId)) :
    Answers g (Path.amongSlots version starts slots) (Path.amongSlots version startsOf slots) := by
  induction slots with
  | nil => exact answers_pure none
  | cons slot rest ih =>
      unfold Path.amongSlots
      refine answers_ite ih (answers_bind (asked _) fun begins => ?_)
      exact answers_ite (answers_pure _) (answers_ite ih (answers_pure _))

theorem answers_possibleIn (asked : ∀ id, Answers g (starts id) (startsOf id)) (slot : Nat)
    (kind : Kind ElementId) :
    Answers g (Path.possibleIn version starts slot kind)
      (Path.possibleIn version startsOf slot kind) := by
  cases kind with
  | sequence slots =>
      exact answers_bind (answers_lift _) fun later => answers_amongSlots asked later
  | wrapper opening content closing repeated =>
      have closes : Answers g (do return some (← starts closing))
          (do return some (← startsOf closing)) :=
        answers_bind (asked _) fun _ => answers_pure _
      -- One case each for the opening delimiter, the content and the closing delimiter.
      match slot with
      | 0 =>
          have behindOpening := answers_ite (c := (!content.isActive version || content.optional) = true)
            closes (answers_pure (some false))
          have atContent := answers_ite (c := content.isActive version = true)
            (answers_bind (asked content.item) fun begins =>
              answers_ite (c := begins = true) (answers_pure (some true)) behindOpening)
            behindOpening
          exact answers_ite
            (answers_bind (asked opening) fun begins =>
              answers_ite (c := begins = true) (answers_pure (some true)) atContent)
            atContent
      | 1 =>
          refine answers_ite closes (answers_bind (asked _) fun begins => ?_)
          exact answers_ite (answers_pure _) (answers_pure _)
      | _ + 2 =>
          refine answers_ite (answers_bind (asked _) fun begins => ?_) (answers_pure _)
          exact answers_ite (answers_pure _) (answers_pure _)
  | iteration item separator =>
      refine answers_bind (asked _) fun begins => ?_
      exact answers_ite (answers_pure _) (answers_ite (answers_pure _) (answers_pure _))
  | qualified variants separator =>
      refine answers_bind (asked _) fun begins => ?_
      exact answers_ite (answers_pure _) (answers_pure _)
  | _ => exact answers_pure _

theorem answers_requiredIn (asked : ∀ id, Answers g (starts id) (startsOf id)) (slot : Nat)
    (kind : Kind ElementId) :
    Answers g (Path.requiredIn version starts slot kind)
      (Path.requiredIn version startsOf slot kind) := by
  have begins : ∀ id, Answers g (do return some (← starts id)) (do return some (← startsOf id)) :=
    fun id => answers_bind (asked id) fun _ => answers_pure _
  cases kind with
  | sequence slots =>
      refine answers_bind (answers_lift _) fun later => ?_
      cases later.find? (Slot.isActive version) with
      | none => exact answers_pure _
      | some next => exact answers_ite (answers_pure _) (begins _)
  | wrapper opening content closing repeated =>
      refine answers_ite (answers_pure _) ?_
      match slot with
      | 0 => exact answers_ite (answers_ite (answers_pure _) (begins _)) (begins _)
      | 1 => exact begins _
      | _ + 2 => exact answers_pure _
  | iteration item separator => exact answers_ite (begins _) (answers_pure _)
  | _ => exact answers_pure _

theorem answers_outward {ask : Nat → Kind ElementId → Query (Option Bool)}
    {askOf : Nat → Kind ElementId → Except Fault (Option Bool)}
    (asked : ∀ slot kind, Answers g (ask slot kind) (askOf slot kind)) (path : Path) :
    Answers g (Path.outward g.kindOf ask path) (Path.outward g.kindAt askOf path) := by
  induction path with
  | nil => exact answers_pure false
  | cons frame outer ih =>
      unfold Path.outward
      refine answers_bind (answers_bind (answers_lift _) fun _ => answers_pure _) fun kind => ?_
      refine answers_bind (asked _ _) fun answer => ?_
      cases answer with
      | none => exact ih
      | some settled => exact answers_pure settled

variable {predictor : Predictor}

theorem answers_couldStart (reliable : predictor.Reliable g) (token : TokenTypeId)
    (id : ElementId) : Answers g (predictor.couldStart token id) (g.couldStart token id) :=
  answers_bind (reliable.firsts id) fun _ => answers_pure _

theorem answers_shouldStart (reliable : predictor.Reliable g) (token : TokenTypeId)
    (id : ElementId) : Answers g (predictor.shouldStart token id) (g.shouldStart token id) :=
  answers_bind (reliable.firsts id) fun _ => answers_pure _

/-- **What may follow is settled by the grammar.** -/
theorem answers_mayFollow (reliable : predictor.Reliable g) (version : Nat) (path : Path)
    (token : TokenTypeId) :
    Answers g (predictor.mayFollow g version path token) (g.mayFollow version path token) :=
  answers_outward (answers_possibleIn (answers_couldStart reliable token)) path.ancestors

/-- **What must follow is settled by the grammar.** -/
theorem answers_mustFollow (reliable : predictor.Reliable g) (version : Nat) (path : Path)
    (token : TokenTypeId) :
    Answers g (predictor.mustFollow g version path token) (g.mustFollow version path token) :=
  answers_outward (answers_requiredIn (answers_shouldStart reliable token)) path.ancestors

end Asking

/-! ### Questions that cannot be answered -/

/-- A frame at a slot that its sequence does not have and that cannot be counted. -/
def Frame.Astray (g : Grammar) (frame : Frame) : Prop :=
  ∃ slots, g.kind? frame.element = some (.sequence slots) ∧ slots.length ≤ frame.slot ∧
    countLimit ≤ frame.slot + 1

/-- Every frame of the path is a place in the grammar. -/
def Path.Inside (g : Grammar) (path : Path) : Prop :=
  ∀ frame ∈ path, frame.element < g.elements.size

/-- Every fault is one of those allowed. -/
def Raises {α : Type} (allowed : Fault → Prop) (answer : Except Fault α) : Prop :=
  ∀ fault, answer = .error fault → allowed fault

section Raising

variable {α β : Type} {allowed : Fault → Prop}

theorem raises_ok (value : α) : Raises allowed (.ok value) := by
  intro fault raised
  cases raised

theorem raises_bind {answer : Except Fault α} {next : α → Except Fault β}
    (first : Raises allowed answer) (second : ∀ value, answer = .ok value →
      Raises allowed (next value)) : Raises allowed (answer >>= next) := by
  cases answer with
  | ok value => exact second value rfl
  | error fault =>
      intro raised same
      exact first raised (by simpa [bind, Except.bind] using same)

theorem raises_ite {c : Prop} [Decidable c] {answer answer' : Except Fault α}
    (first : Raises allowed answer) (second : Raises allowed answer') :
    Raises allowed (if c then answer else answer') := by
  split
  · exact first
  · exact second

theorem Raises.exists_ok {answer : Except Fault α} (never : Raises (fun _ => False) answer) :
    ∃ value, answer = .ok value := by
  cases answer with
  | ok value => exact ⟨value, rfl⟩
  | error fault => exact (never fault rfl).elim

variable {g : Grammar} {version : Nat} {starts : ElementId → Except Fault Bool}

theorem raises_begins (quiet : ∀ id, id < g.elements.size → Raises allowed (starts id))
    {id : ElementId} (bound : id < g.elements.size) :
    Raises allowed (do return some (← starts id)) :=
  raises_bind (quiet id bound) fun _ _ => raises_ok _

theorem raises_amongSlots (quiet : ∀ id, id < g.elements.size → Raises allowed (starts id))
    {slots : List (Slot ElementId)} (inside : ∀ slot ∈ slots, slot.item < g.elements.size) :
    Raises allowed (Path.amongSlots version starts slots) := by
  induction slots with
  | nil => exact raises_ok _
  | cons slot rest ih =>
      have others := ih fun other member => inside other (List.mem_cons_of_mem _ member)
      unfold Path.amongSlots
      refine raises_ite others (raises_bind (quiet _ (inside slot List.mem_cons_self)) fun _ _ => ?_)
      exact raises_ite (raises_ok _) (raises_ite others (raises_ok _))

theorem raises_slotsAfter {slots : List (Slot ElementId)} {slot : Nat}
    (astray : slots.length ≤ slot → countLimit ≤ slot + 1 → allowed (.uncountable (slot + 1))) :
    Raises allowed (Path.slotsAfter slots slot) := by
  intro fault raised
  unfold Path.slotsAfter at raised
  split at raised
  · cases raised
  · rename_i missing
    cases raised
    apply astray <;> omega

theorem mem_of_slotsAfter {slots later : List (Slot ElementId)} {slot : Nat}
    (found : Path.slotsAfter slots slot = .ok later) {other : Slot ElementId}
    (member : other ∈ later) : other ∈ slots := by
  unfold Path.slotsAfter at found
  split at found
  · cases found
    exact List.mem_of_mem_drop member
  · cases found

theorem raises_possibleIn (quiet : ∀ id, id < g.elements.size → Raises allowed (starts id))
    {id : ElementId} {kind : Kind ElementId} (placed : kind.Placed g.vocabulary g.kind? id)
    {slot : Nat} (astray : ∀ slots, kind = .sequence slots → slots.length ≤ slot →
      countLimit ≤ slot + 1 → allowed (.uncountable (slot + 1))) :
    Raises allowed (Path.possibleIn version starts slot kind) := by
  cases kind with
  | sequence slots =>
      refine raises_bind (raises_slotsAfter (astray slots rfl)) fun later found => ?_
      exact raises_amongSlots quiet fun other member =>
        Grammar.lt_of_isSome (placed other (mem_of_slotsAfter found member)).2
  | wrapper opening content closing repeated =>
      obtain ⟨⟨-, openingType, opens⟩, ⟨-, stands⟩, ⟨-, closingType, closes⟩⟩ := placed
      have atOpening := quiet _ (Grammar.lt_of_kind?_eq_some opens)
      have atContent := quiet _ (Grammar.lt_of_isSome stands)
      have atClosing := raises_begins quiet (Grammar.lt_of_kind?_eq_some closes)
      have closing := quiet _ (Grammar.lt_of_kind?_eq_some closes)
      -- In front of the content, in it and behind it different parts are asked.
      match slot with
      | 0 =>
          have behindOpening := raises_ite
            (c := (!content.isActive version || content.optional) = true)
            atClosing (raises_ok (some false))
          have inContent := raises_ite (c := content.isActive version = true)
            (raises_bind atContent fun begins _ =>
              raises_ite (c := begins = true) (raises_ok (some true)) behindOpening)
            behindOpening
          exact raises_ite (raises_bind atOpening fun begins _ =>
            raises_ite (c := begins = true) (raises_ok (some true)) inContent) inContent
      | 1 =>
          refine raises_ite atClosing (raises_bind closing fun _ _ => ?_)
          exact raises_ite (raises_ok _) (raises_ok _)
      | _ + 2 =>
          refine raises_ite (raises_bind closing fun _ _ => ?_) (raises_ok _)
          exact raises_ite (raises_ok _) (raises_ok _)
  | iteration item separator =>
      have again : (if slot = 0 then separator.getD item else item) < g.elements.size := by
        have atItem := Grammar.lt_of_isSome placed.1.2
        cases separator with
        | none => simpa using atItem
        | some between =>
            obtain ⟨-, type, stands⟩ := placed.2 between rfl
            split
            · exact Grammar.lt_of_kind?_eq_some stands
            · exact atItem
      refine raises_bind (quiet _ again) fun _ _ => ?_
      exact raises_ite (raises_ok _) (raises_ite (raises_ok _) (raises_ok _))
  | qualified variants separator =>
      obtain ⟨-, -, -, type, stands⟩ := placed
      refine raises_bind (quiet _ (Grammar.lt_of_kind?_eq_some stands)) fun _ _ => ?_
      exact raises_ite (raises_ok _) (raises_ok _)
  | _ => exact raises_ok _

theorem raises_requiredIn (quiet : ∀ id, id < g.elements.size → Raises allowed (starts id))
    {id : ElementId} {kind : Kind ElementId} (placed : kind.Placed g.vocabulary g.kind? id)
    {slot : Nat} (astray : ∀ slots, kind = .sequence slots → slots.length ≤ slot →
      countLimit ≤ slot + 1 → allowed (.uncountable (slot + 1))) :
    Raises allowed (Path.requiredIn version starts slot kind) := by
  cases kind with
  | sequence slots =>
      refine raises_bind (raises_slotsAfter (astray slots rfl)) fun later found => ?_
      cases next : later.find? (Slot.isActive version) with
      | none => exact raises_ok _
      | some other =>
          have member := mem_of_slotsAfter found (List.mem_of_find?_eq_some next)
          exact raises_ite (raises_ok _)
            (raises_begins quiet (Grammar.lt_of_isSome (placed other member).2))
  | wrapper opening content closing repeated =>
      obtain ⟨-, ⟨-, stands⟩, ⟨-, closingType, closes⟩⟩ := placed
      have atContent := raises_begins quiet (Grammar.lt_of_isSome stands)
      have atClosing := raises_begins quiet (Grammar.lt_of_kind?_eq_some closes)
      refine raises_ite (raises_ok _) ?_
      match slot with
      | 0 => exact raises_ite (raises_ite (raises_ok _) atContent) atClosing
      | 1 => exact atClosing
      | _ + 2 => exact raises_ok _
  | iteration item separator =>
      exact raises_ite (raises_begins quiet (Grammar.lt_of_isSome placed.1.2)) (raises_ok _)
  | _ => exact raises_ok _

/-- Asking along a path goes wrong only at a frame that is astray. -/
theorem raises_outward (wellFormed : g.WellFormed)
    {ask : Nat → Kind ElementId → Except Fault (Option Bool)}
    (asked : ∀ {id kind slot}, kind.Placed g.vocabulary g.kind? id →
      (∀ slots, kind = .sequence slots → slots.length ≤ slot →
        countLimit ≤ slot + 1 → allowed (.uncountable (slot + 1))) →
      Raises allowed (ask slot kind))
    {path : Path} (inside : path.Inside g)
    (astray : ∀ frame ∈ path, frame.Astray g → allowed (.uncountable (frame.slot + 1))) :
    Raises allowed (Path.outward g.kindAt ask path) := by
  induction path with
  | nil => exact raises_ok false
  | cons frame outer ih =>
      have others := ih (fun other member => inside other (List.mem_cons_of_mem _ member))
        fun other member => astray other (List.mem_cons_of_mem _ member)
      obtain ⟨element, found⟩ := element_of_lt (inside frame List.mem_cons_self)
      have kindFound : g.kindAt frame.element = .ok element.kind := by
        simp [Grammar.kindAt, found, bind, Except.bind, pure, Except.pure]
      have stands := kind?_of_element found
      unfold Path.outward
      refine raises_bind (by rw [kindFound]; exact raises_ok _) fun kind same => ?_
      rw [kindFound] at same
      cases same
      refine raises_bind (asked (wellFormed.placed _ _ stands) fun slots sequence beyond limit => ?_)
        fun answer _ => ?_
      · exact astray frame List.mem_cons_self ⟨slots, sequence ▸ stands, beyond, limit⟩
      · cases answer with
        | none => exact others
        | some settled => exact raises_ok settled

theorem raises_mayFollow (wellFormed : g.WellFormed) {path : Path} (inside : path.Inside g)
    (astray : ∀ frame ∈ path, frame.Astray g → allowed (.uncountable (frame.slot + 1)))
    (version : Nat) (token : TokenTypeId) : Raises allowed (g.mayFollow version path token) := by
  have quiet : ∀ id, id < g.elements.size → Raises allowed (g.couldStart token id) := by
    intro id bound
    rw [Grammar.couldStart_of_lt token bound]
    exact raises_ok _
  refine raises_outward wellFormed (fun placed stray => raises_possibleIn quiet placed stray) ?_ ?_
  · exact fun frame member => inside frame (List.mem_of_mem_tail member)
  · exact fun frame member => astray frame (List.mem_of_mem_tail member)

theorem raises_mustFollow (wellFormed : g.WellFormed) {path : Path} (inside : path.Inside g)
    (astray : ∀ frame ∈ path, frame.Astray g → allowed (.uncountable (frame.slot + 1)))
    (version : Nat) (token : TokenTypeId) : Raises allowed (g.mustFollow version path token) := by
  have quiet : ∀ id, id < g.elements.size → Raises allowed (g.shouldStart token id) := by
    intro id bound
    rw [Grammar.shouldStart_of_lt token bound]
    exact raises_ok _
  refine raises_outward wellFormed (fun placed stray => raises_requiredIn quiet placed stray) ?_ ?_
  · exact fun frame member => inside frame (List.mem_of_mem_tail member)
  · exact fun frame member => astray frame (List.mem_of_mem_tail member)

end Raising

end Dialect
