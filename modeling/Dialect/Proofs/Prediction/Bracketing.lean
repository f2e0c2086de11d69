import Dialect.Proofs.Matching.Succession
import Dialect.Proofs.Prediction.Following

/-!
# What follows agrees with what may and must follow

Look-ahead asks the frames from the inside out.  Where a match goes on, the frame of the
composite answers that what comes next may come, and that nothing else must come; where a match
may end, it rules out nothing and demands nothing, so that the frames around decide
(`possibleIn_allows`, `requiredIn_demands`).
-/

set_option autoImplicit false

namespace Dialect

/-- The answer rules out nothing where a match may end, and it lets come what comes next. -/
def Allows : Option (Nat × ElementId) → Option Bool → Prop
  | none, answer => answer ≠ some false
  | some _, answer => answer = some true

/-- The answer demands nothing where a match may end, and it demands nothing that what comes
next does not begin with. -/
def Demands (begins : ElementId → Bool) : Option (Nat × ElementId) → Option Bool → Prop
  | none, answer => answer ≠ some true
  | some (_, item), answer => ∃ must, answer = some must ∧ (must = true → begins item = true)

theorem allows_true (next? : Option (Nat × ElementId)) : Allows next? (some true) := by
  cases next? with
  | none => simp [Allows]
  | some place => rfl

theorem demands_false (begins : ElementId → Bool) (next? : Option (Nat × ElementId)) :
    Demands begins next? (some false) := by
  cases next? with
  | none => simp [Demands]
  | some place => exact ⟨false, rfl, by simp⟩

section Frames

variable {version : Nat} {starts : ElementId → Except Fault Bool} {begins : ElementId → Bool}
  {slots : List (Slot ElementId)} {slot index : Nat} {item : ElementId}
  {next? : Option (Nat × ElementId)} {kind : Kind ElementId}

theorem amongSlots_allows
    (answered : ∀ slot ∈ slots, starts slot.item = .ok (begins slot.item))
    (upcoming : Upcoming version slots index next?)
    (coming : ∀ place ∈ next?, begins place.2 = true) :
    ∃ answer, Path.amongSlots version starts slots = .ok answer ∧ Allows next? answer := by
  induction upcoming with
  | done index => exact ⟨none, rfl, by simp [Allows]⟩
  | @skip slot rest index next? may others ih =>
      obtain ⟨here, further⟩ := List.forall_mem_cons.1 answered
      obtain ⟨answer, rest_eq, allows⟩ := ih further coming
      unfold Path.amongSlots
      cases active : slot.isActive version with
      | false => exact ⟨answer, rest_eq, allows⟩
      | true =>
          have optional : slot.optional = true := may.resolve_left (by simp [active])
          cases first : begins slot.item with
          | true => exact ⟨some true, by simp [here, first, bind, Except.bind, pure, Except.pure],
              allows_true next?⟩
          | false => exact ⟨answer, by simp [here, first, optional, bind, Except.bind, rest_eq],
              allows⟩
  | @fill slot rest index active =>
      have first : begins slot.item = true := coming _ rfl
      refine ⟨some true, ?_, rfl⟩
      simp [Path.amongSlots, active, answered slot List.mem_cons_self, first, bind, Except.bind,
        pure, Except.pure]

/-- The first slot that the version has is one that may stay empty, or what comes next. -/
theorem find?_of_upcoming (upcoming : Upcoming version slots index next?) :
    (slots.find? (Slot.isActive version) = none ∧ next? = none) ∨
      ∃ slot, slots.find? (Slot.isActive version) = some slot ∧ slot ∈ slots ∧
        (slot.optional = true ∨ ∃ place, next? = some (place, slot.item)) := by
  induction upcoming with
  | done index => exact .inl ⟨rfl, rfl⟩
  | @skip slot rest index next? may others ih =>
      cases active : slot.isActive version with
      | false =>
          rw [List.find?_cons_of_neg (by simp [active])]
          refine ih.imp_right ?_
          rintro ⟨other, found, member, rest⟩
          exact ⟨other, found, List.mem_cons_of_mem _ member, rest⟩
      | true =>
          exact .inr ⟨slot, List.find?_cons_of_pos active, List.mem_cons_self,
            .inl (may.resolve_left (by simp [active]))⟩
  | fill active =>
      exact .inr ⟨_, List.find?_cons_of_pos active, List.mem_cons_self, .inr ⟨_, rfl⟩⟩

theorem slotsAfter_of_lt (bound : index < slots.length) :
    Path.slotsAfter slots index = .ok (slots.drop (index + 1)) :=
  if_pos (.inl bound)

section Wrapper

variable {opening closing : ElementId} {content : Slot ElementId} {repeated : Bool}
  (opens : starts opening = .ok (begins opening))
  (holds : starts content.item = .ok (begins content.item))
  (closes : starts closing = .ok (begins closing))

include holds closes

/-- What the frame of a plain wrapper answers to whether a token must come. -/
theorem requiredIn_wrapper (slot : Nat) :
    Path.requiredIn version starts slot (.wrapper opening content closing false) = .ok
      (match slot with
      | 0 =>
          if content.isActive version then
            if content.optional then some false else some (begins content.item)
          else some (begins closing)
      | 1 => some (begins closing)
      | _ => none) := by
  match slot with
  | 0 =>
      cases active : content.isActive version <;> cases optional : content.optional <;>
        simp [Path.requiredIn, holds, closes, active, optional, bind, Except.bind, pure,
          Except.pure]
  | 1 => simp [Path.requiredIn, closes, bind, Except.bind, pure, Except.pure]
  | _ + 2 => rfl

include opens

/-- What the frame of a wrapper answers to whether a token may come. -/
theorem possibleIn_wrapper (slot : Nat) :
    Path.possibleIn version starts slot (.wrapper opening content closing repeated) = .ok
      (match slot with
      | 0 =>
          if repeated && begins opening then some true
          else if content.isActive version && begins content.item then some true
          else if !content.isActive version || content.optional then some (begins closing)
          else some false
      | 1 => if repeated && !begins closing then none else some (begins closing)
      | _ => if repeated && begins closing then some true else none) := by
  match slot with
  | 0 =>
      cases repeated <;> cases active : content.isActive version <;>
        cases first : begins opening <;> cases second : begins content.item <;>
        cases optional : content.optional <;>
        simp [Path.possibleIn, opens, holds, closes, active, first, second, optional, bind,
          Except.bind, pure, Except.pure]
  | 1 =>
      cases repeated <;> cases last : begins closing <;>
        simp [Path.possibleIn, closes, last, bind, Except.bind, pure, Except.pure]
  | _ + 2 =>
      cases repeated <;> cases last : begins closing <;>
        simp [Path.possibleIn, closes, last, bind, Except.bind, pure, Except.pure]

end Wrapper

/-- The frame of a wrapper lets come what comes next. -/
theorem possibleIn_allows_wrapper {opening closing : ElementId} {content : Slot ElementId}
    {repeated : Bool}
    (answered : ∀ id ∈ [opening, content.item, closing], starts id = .ok (begins id))
    (continues : (Kind.wrapper opening content closing repeated).Continues version slot item next?)
    (coming : ∀ place ∈ next?, begins place.2 = true) :
    ∃ answer, Path.possibleIn version starts slot (.wrapper opening content closing repeated) =
      .ok answer ∧ Allows next? answer := by
  refine ⟨_, possibleIn_wrapper (answered _ (by simp)) (answered _ (by simp))
    (answered _ (by simp)) slot, ?_⟩
  cases continues with
  | reopen =>
      have first : begins _ = true := coming _ rfl
      simp [Allows, first]
  | fill active =>
      have first : begins _ = true := coming _ rfl
      simp [Allows, active, first]
  | leave may =>
      have first : begins _ = true := coming _ rfl
      simp [Allows, first, may]
  | close =>
      have first : begins _ = true := coming _ rfl
      simp [Allows, first]
  | reclose =>
      have first : begins _ = true := coming _ rfl
      simp [Allows, first]
  | bare =>
      simp only [Allows]
      split <;> simp_all
  | closed =>
      simp only [Allows]
      split <;> simp

/-- **A frame lets come what comes next**, and rules out nothing where a match may end.  The
frame of a name does not know its parts, so it is not asked behind a separator. -/
theorem possibleIn_allows (answered : ∀ id ∈ kind.parts, starts id = .ok (begins id))
    (continues : kind.Continues version slot item next?)
    (coming : ∀ place ∈ next?, begins place.2 = true)
    (apart : next? ≠ none → ∀ variants, kind ≠ .qualified variants item) :
    ∃ answer, Path.possibleIn version starts slot kind = .ok answer ∧ Allows next? answer := by
  cases kind with
  | token => cases continues
  | identifier => cases continues
  | sequence slots =>
      obtain @⟨_, _, _, _, here, upcoming⟩ := continues
      have bound := (List.getElem?_eq_some_iff.1 here).1
      obtain ⟨answer, among, allows⟩ := amongSlots_allows
        (fun slot member => answered slot.item
          (List.mem_map_of_mem (List.mem_of_mem_drop member))) upcoming coming
      refine ⟨answer, ?_, allows⟩
      simp [Path.possibleIn, slotsAfter_of_lt bound, bind, Except.bind, among]
  | wrapper opening content closing repeated =>
      exact possibleIn_allows_wrapper answered continues coming
  | oneOf alternatives sortable =>
      cases continues
      exact ⟨none, rfl, by simp [Allows]⟩
  | iteration item separator =>
      have asked : starts (if slot = 0 then separator.getD item else item) =
          .ok (begins (if slot = 0 then separator.getD item else item)) := by
        refine answered _ ?_
        cases separator <;> by_cases at_item : slot = 0 <;> simp [Kind.parts, at_item]
      simp only [Path.possibleIn, asked, bind, Except.bind]
      cases continues with
      | again =>
          have first : begins item = true := coming _ rfl
          exact ⟨some true, by simp [first, pure, Except.pure], rfl⟩
      | separate =>
          have first : begins _ = true := coming _ rfl
          exact ⟨some true, by simp [first, pure, Except.pure], rfl⟩
      | separated =>
          have first : begins item = true := coming _ rfl
          exact ⟨some true, by simp [first, pure, Except.pure], rfl⟩
      -- Nothing follows in the list: any answer but a refusal is allowed, whatever the separator.
      | listed =>
          cases begins (if 0 = 0 then separator.getD item else item) with
          | true => exact ⟨some true, rfl, allows_true none⟩
          | false => exact ⟨none, rfl, by simp [Allows]⟩
  | qualified variants separator =>
      have asked := answered separator List.mem_cons_self
      simp only [Path.possibleIn, asked, bind, Except.bind]
      cases continues with
      | join =>
          have first : begins separator = true := coming _ rfl
          exact ⟨some true, by simp [first, pure, Except.pure], rfl⟩
      | joined => exact absurd rfl (apart (Option.some_ne_none _) variants)
      | named =>
          cases begins separator with
          | true => exact ⟨some true, rfl, allows_true none⟩
          | false => exact ⟨none, rfl, by simp [Allows]⟩
  | reference target =>
      cases continues
      exact ⟨none, rfl, by simp [Allows]⟩

/-- The frame of a wrapper demands nothing that what comes next does not begin with. -/
theorem requiredIn_demands_wrapper {opening closing : ElementId} {content : Slot ElementId}
    {repeated : Bool}
    (answered : ∀ id ∈ [opening, content.item, closing], starts id = .ok (begins id))
    (continues :
      (Kind.wrapper opening content closing repeated).Continues version slot item next?) :
    ∃ answer, Path.requiredIn version starts slot (.wrapper opening content closing repeated) =
      .ok answer ∧ Demands begins next? answer := by
  cases repeated with
  | true => exact ⟨some false, rfl, demands_false begins next?⟩
  | false =>
      refine ⟨_, requiredIn_wrapper (answered _ (by simp)) (answered _ (by simp)) slot, ?_⟩
      cases continues with
      | fill active =>
          simp only [active, if_true]
          cases content.optional with
          | true => exact demands_false begins _
          | false => exact ⟨_, rfl, id⟩
      | leave may =>
          cases active : content.isActive version with
          | true =>
              have optional : content.optional = true := may.resolve_left (by simp [active])
              simp only [optional, if_true]
              exact demands_false begins _
          | false => exact ⟨_, rfl, id⟩
      | close => exact ⟨_, rfl, id⟩
      | closed => simp [Demands]

/-- **A frame demands nothing that what comes next does not begin with**, and demands nothing
where a match may end. -/
theorem requiredIn_demands (answered : ∀ id ∈ kind.parts, starts id = .ok (begins id))
    (continues : kind.Continues version slot item next?) :
    ∃ answer, Path.requiredIn version starts slot kind = .ok answer ∧
      Demands begins next? answer := by
  cases kind with
  | token => cases continues
  | identifier => cases continues
  | sequence slots =>
      obtain @⟨_, _, _, _, here, upcoming⟩ := continues
      have bound := (List.getElem?_eq_some_iff.1 here).1
      simp only [Path.requiredIn, slotsAfter_of_lt bound]
      rcases find?_of_upcoming upcoming with ⟨nothing, rfl⟩ | ⟨first, found, member, may⟩
      · exact ⟨none, by simp [nothing, bind, Except.bind, pure, Except.pure], by simp [Demands]⟩
      · have asked := answered first.item (List.mem_map_of_mem (List.mem_of_mem_drop member))
        -- The first active slot that may be left demands nothing.
        cases optional : first.optional with
        | true =>
            exact ⟨some false, by simp [found, optional, bind, Except.bind, pure, Except.pure],
              demands_false begins next?⟩
        | false =>
            obtain ⟨place, rfl⟩ := may.resolve_left (by simp [optional])
            exact ⟨some (begins first.item),
              by simp [found, optional, asked, bind, Except.bind, pure, Except.pure], _, rfl, id⟩
  | wrapper opening content closing repeated =>
      exact requiredIn_demands_wrapper answered continues
  | oneOf alternatives sortable =>
      cases continues
      exact ⟨none, rfl, by simp [Demands]⟩
  | iteration item separator =>
      have asked := answered item (by simp [Kind.parts])
      cases continues with
      | separated =>
          exact ⟨some (begins item), by simp [Path.requiredIn, asked, bind, Except.bind, pure,
            Except.pure], _, rfl, id⟩
      | _ => exact ⟨some false, rfl, demands_false begins _⟩
  | qualified variants separator => exact ⟨some false, rfl, demands_false begins next?⟩
  | reference target =>
      cases continues
      exact ⟨none, rfl, by simp [Demands]⟩

end Frames

/-! ### Asking from the inside out -/

section Paths

variable {g : Grammar} {version : Nat} {inner outer : Path}
  {ask : Nat → Kind ElementId → Except Fault (Option Bool)}

theorem outward_cons {id : ElementId} {slot : Nat} {kind : Kind ElementId} {answer : Option Bool}
    (stands : g.kind? id = some kind) (asked : ask slot kind = .ok answer) :
    Path.outward g.kindAt ask (⟨id, slot⟩ :: outer) =
      answer.elim (Path.outward g.kindAt ask outer) .ok := by
  obtain ⟨element, found, rfl⟩ := element_of_kind? stands
  cases answer <;>
    simp [Path.outward, Grammar.kindAt, found, asked, bind, Except.bind, pure, Except.pure]

/-- Frames that answer nothing else leave the question to those around them, or answer it. -/
theorem outward_append {settled : Bool} (each : ∀ frame ∈ inner, ∃ kind answer,
      g.kind? frame.element = some kind ∧ ask frame.slot kind = .ok answer ∧
        answer ≠ some (!settled)) :
    Path.outward g.kindAt ask (inner ++ outer) = .ok settled ∨
      Path.outward g.kindAt ask (inner ++ outer) = Path.outward g.kindAt ask outer := by
  induction inner with
  | nil => exact .inr rfl
  | cons frame inner ih =>
      obtain ⟨⟨kind, answer, stands, asked, other⟩, further⟩ := List.forall_mem_cons.1 each
      rw [List.cons_append, outward_cons stands asked]
      cases answer with
      | none => exact ih further
      | some answer =>
          have same : answer = settled := by cases answer <;> cases settled <;> simp_all
          exact .inl (congrArg Except.ok same)

/-- A match of the frame's element may end with what stands at the slot of the frame. -/
def Frame.MayEnd (g : Grammar) (version : Nat) (frame : Frame) : Prop :=
  ∃ kind item, g.kind? frame.element = some kind ∧ kind.Continues version frame.slot item none

variable (wellFormed : g.WellFormed) (ends : ∀ frame ∈ inner, frame.MayEnd g version)
  {id item next leaf : ElementId} {slot place : Nat} {kind : Kind ElementId}
  (stands : g.kind? id = some kind)
  (continues : kind.Continues version slot item (some (place, next))) {token : TokenTypeId}

include wellFormed ends stands continues

/-- **What comes next may come**, for all that look-ahead says at the last leaf of what came
before. -/
theorem mayFollow_of_continues (possible : token ∈ (FirstSets.ofElement g next).possible)
    (apart : ∀ variants, kind ≠ .qualified variants item) :
    g.mayFollow version (Path.enter (inner ++ ⟨id, slot⟩ :: outer) leaf) token = .ok true := by
  have answered : ∀ {id kind}, g.kind? id = some kind → ∀ part ∈ kind.parts,
      g.couldStart token part = .ok ((FirstSets.ofElement g part).possible.contains token) :=
    fun stands part member => Grammar.couldStart_of_lt token (wellFormed.part_lt_size stands member)
  obtain ⟨answer, asked, rfl⟩ := possibleIn_allows (answered stands) continues
    (fun place same => by cases same; exact possible) fun _ => apart
  have around : Path.outward g.kindAt (Path.possibleIn version (g.couldStart token))
      (⟨id, slot⟩ :: outer) = .ok true := outward_cons stands asked
  have each : ∀ frame ∈ inner, ∃ kind answer, g.kind? frame.element = some kind ∧
      Path.possibleIn version (g.couldStart token) frame.slot kind = .ok answer ∧
        answer ≠ some (!true) := by
    intro frame member
    obtain ⟨kind, item, stands, last⟩ := ends frame member
    obtain ⟨answer, asked, allows⟩ := possibleIn_allows (answered stands) last
      (fun place none => by cases none) fun impossible => absurd rfl impossible
    exact ⟨kind, answer, stands, asked, allows⟩
  -- A frame below may answer first, but then it answers the same.
  rcases outward_append each with settled | further
  · exact settled
  · exact further.trans around

/-- **Nothing else must come**, for all that look-ahead says at the last leaf of what came
before. -/
theorem mustFollow_of_continues
    (required : ∀ t ∈ (FirstSets.ofElement g next).required, t = token) (t : TokenTypeId) :
    ∃ must, g.mustFollow version (Path.enter (inner ++ ⟨id, slot⟩ :: outer) leaf) t = .ok must ∧
      (must = true → t = token) := by
  have answered : ∀ {id kind}, g.kind? id = some kind → ∀ part ∈ kind.parts,
      g.shouldStart t part = .ok ((FirstSets.ofElement g part).required.contains t) :=
    fun stands part member => Grammar.shouldStart_of_lt t (wellFormed.part_lt_size stands member)
  obtain ⟨answer, asked, must, rfl, begins⟩ := requiredIn_demands (answered stands) continues
  have around : Path.outward g.kindAt (Path.requiredIn version (g.shouldStart t))
      (⟨id, slot⟩ :: outer) = .ok must := outward_cons stands asked
  have each : ∀ frame ∈ inner, ∃ kind answer, g.kind? frame.element = some kind ∧
      Path.requiredIn version (g.shouldStart t) frame.slot kind = .ok answer ∧
        answer ≠ some (!false) := by
    intro frame member
    obtain ⟨kind, item, stands, last⟩ := ends frame member
    obtain ⟨answer, asked, demands⟩ := requiredIn_demands (answered stands) last
    exact ⟨kind, answer, stands, asked, demands⟩
  rcases outward_append each with settled | further
  · exact ⟨false, settled, by simp⟩
  · exact ⟨must, further.trans around, fun demanded => required t (begins demanded)⟩

end Paths

end Dialect
