import Dialect.Proofs.Grammar.Versions
import Dialect.Proofs.Matching.Beginning
import Dialect.Proofs.Prediction.Plain

/-!
# Where each token was taken

A route says for every token which leaf takes it and which frames are around that leaf, and
`Routed` says that a match goes along it.  Whatever is matched is matched along some route
(`exists_routed`).

In a version that has every slot, a match begins with a token that the first sets of the
element name as possible, and with the one that they require if they require any
(`routed_begins`).
-/

set_option autoImplicit false

namespace Dialect

/-- For each position the leaf that takes the token there, and the frames around the leaf. -/
abbrev Route := Nat → ElementId × Path

/-- What a match of an element leaves, when elements nest no deeper than `levels` and every
token is taken by the leaf and within the frames that the route gives. -/
def Routed (s : Setting) (input : Input) (route : Route) :
    (levels : Nat) → ElementId → Path → Record
  | 0, _, _ => fun _ _ _ _ => False
  | levels + 1, id, outer => fun complete i j events =>
      i < j ∧ ∃ kind, s.grammar.kind? id = some kind ∧
        (kind.isLeaf = true → route i = (id, outer)) ∧
        kind.Leaves s input
          (fun slot item => Routed s input route levels item (⟨id, slot⟩ :: outer))
          id complete i j events

/-! ### Putting routes together -/

/-- The property holds of some route and of every other that agrees with it from one position
up to another. -/
def Routable (holds : Route → Prop) (i j : Nat) : Prop :=
  i ≤ j ∧ ∃ route : Route, ∀ other : Route, (∀ k, i ≤ k → k < j → other k = route k) → holds other

section Routable

variable {holds holds' : Route → Prop} {i m j : Nat}

theorem Routable.exists (routable : Routable holds i j) : ∃ route, holds route := by
  obtain ⟨-, route, local_⟩ := routable
  exact ⟨route, local_ route fun _ _ _ => rfl⟩

theorem routable_of_all (forward : i ≤ j) (always : ∀ route, holds route) : Routable holds i j :=
  ⟨forward, fun _ => (0, []), fun other _ => always other⟩

theorem Routable.imp (routable : Routable holds i j)
    (weaker : ∀ route, holds route → holds' route) : Routable holds' i j := by
  obtain ⟨forward, route, local_⟩ := routable
  exact ⟨forward, route, fun other same => weaker other (local_ other same)⟩

/-- Two routes one behind the other. -/
theorem Routable.append (first : Routable holds i m) (second : Routable holds' m j)
    {both : Route → Prop} (combine : ∀ route, holds route → holds' route → both route) :
    Routable both i j := by
  obtain ⟨forward, before, localBefore⟩ := first
  obtain ⟨onward, behind, localBehind⟩ := second
  -- Neither property looks beyond its own positions, so both hold of the joined route.
  refine ⟨Nat.le_trans forward onward, fun k => if k < m then before k else behind k,
    fun other same => combine other (localBefore other fun k start stop => ?_)
      (localBehind other fun k start stop => ?_)⟩
  · exact (same k start (Nat.lt_of_lt_of_le stop onward)).trans (if_pos stop)
  · exact (same k (Nat.le_trans forward start) stop).trans (if_neg (Nat.not_lt.2 start))

end Routable

section Leaves

variable {s : Setting} {input : Input} {below : Nat → ElementId → Record}
  {along : Route → Nat → ElementId → Record} {complete : Bool} {i j : Nat} {events : List Event}
  {id : ElementId} {kind : Kind ElementId}
  (routable : ∀ slot item complete i j events, below slot item complete i j events →
    Routable (fun route => along route slot item complete i j events) i j)

include routable

theorem filled_routable {slots : List (Slot ElementId)} {index : Nat}
    (filled : Filled s input below slots index complete i j events) :
    Routable (fun route => Filled s input (along route) slots index complete i j events) i j := by
  induction filled with
  | done index i => exact routable_of_all (Nat.le_refl i) fun _ => .done index i
  | pass inactive others ih => exact ih.imp fun _ further => .pass inactive further
  | leave active optional others ih => exact ih.imp fun _ further => .leave active optional further
  | fill active matched others ih =>
      exact (routable _ _ _ _ _ _ matched).append ih fun _ first further =>
        .fill active first further
  | fillPart active matched =>
      exact (routable _ _ _ _ _ _ matched).imp fun _ first => .fillPart active first
  | miss active required missing =>
      exact routable_of_all (Nat.le_refl _) fun _ => .miss active required missing

theorem contained_routable {slot : Slot ElementId}
    (contained : Contained s input below slot complete i j events) :
    Routable (fun route => Contained s input (along route) slot complete i j events) i j := by
  cases contained with
  | fill active matched =>
      exact (routable _ _ _ _ _ _ matched).imp fun _ held => .fill active held
  | leave optional => exact routable_of_all (Nat.le_refl i) fun _ => .leave optional
  | miss required missing =>
      exact routable_of_all (Nat.le_refl i) fun _ => .miss required missing

theorem opened_routable {opening : ElementId} {ranges : List TextRange}
    (opened : Opened input below opening ranges i j events) :
    Routable (fun route => Opened input (along route) opening ranges i j events) i j := by
  induction opened with
  | done i => exact routable_of_all (Nat.le_refl i) fun _ => .done i
  | more others range_eq matched ih =>
      exact ih.append (routable _ _ _ _ _ _ matched) fun _ before last =>
        .more before range_eq last

theorem shut_routable {closing : ElementId} {opened left : List TextRange}
    (shut : Shut below closing opened left i j events) :
    Routable (fun route => Shut (along route) closing opened left i j events) i j := by
  induction shut with
  | done opened i => exact routable_of_all (Nat.le_refl i) fun _ => .done opened i
  | more matched others ih =>
      exact (routable _ _ _ _ _ _ matched).append ih fun _ first further => .more first further

theorem closed_routable {closing : ElementId} {opened : List TextRange} {held : Bool}
    (closed : Closed s input below closing opened held complete i j events) :
    Routable (fun route => Closed s input (along route) closing opened held complete i j events)
      i j := by
  cases closed with
  | all shut => exact (shut_routable routable shut).imp fun _ shut => .all shut
  | report shut missing =>
      exact (shut_routable routable shut).imp fun _ shut => .report shut missing
  | silent shut => exact (shut_routable routable shut).imp fun _ shut => .silent shut

theorem separated_routable {separator : Option ElementId}
    (separated : Separated below separator i j events) :
    Routable (fun route => Separated (along route) separator i j events) i j := by
  cases separated with
  | none => exact routable_of_all (Nat.le_refl i) fun _ => .none i
  | some matched => exact (routable _ _ _ _ _ _ matched).imp fun _ between => .some between

theorem repeated_routable {item : ElementId} {separator : Option ElementId}
    (repeated : Repeated s input below item separator complete i j events) :
    Routable (fun route => Repeated s input (along route) item separator complete i j events)
      i j := by
  induction repeated with
  | done i => exact routable_of_all (Nat.le_refl i) fun _ => .done i
  | more separated matched others ih =>
      have items := (routable _ _ _ _ _ _ matched).append ih fun _ first further =>
        And.intro first further
      exact (separated_routable routable separated).append items fun _ between items =>
        .more between items.1 items.2
  | part separated matched =>
      exact (separated_routable routable separated).append (routable _ _ _ _ _ _ matched)
        fun _ between last => .part between last
  | miss separator_eq matched missing =>
      exact (routable _ _ _ _ _ _ matched).imp fun _ between => .miss separator_eq between missing

theorem joined_routable {separator : ElementId} {report : Bool} {parts : List ElementId}
    {index : Nat} (joined : Joined s input below separator report parts index complete i j events) :
    Routable (fun route =>
      Joined s input (along route) separator report parts index complete i j events) i j := by
  induction joined with
  | done index i => exact routable_of_all (Nat.le_refl i) fun _ => .done index i
  | more separated matched others ih =>
      have parts := (routable _ _ _ _ _ _ matched).append ih fun _ first further =>
        And.intro first further
      exact (routable _ _ _ _ _ _ separated).append parts fun _ between parts =>
        .more between parts.1 parts.2
  | missSeparator reported =>
      exact routable_of_all (Nat.le_refl _) fun _ => .missSeparator reported
  | missPart separated reported =>
      exact (routable _ _ _ _ _ _ separated).imp fun _ between => .missPart between reported

theorem named_routable {separator : ElementId} {report : Bool} {variant : List ElementId}
    (named : Named s input below separator report variant complete i j events) :
    Routable (fun route => Named s input (along route) separator report variant complete i j events)
      i j := by
  cases named with
  | intro matched others =>
      exact (routable _ _ _ _ _ _ matched).append (joined_routable routable others)
        fun _ first further => .intro first further

/-- What is matched of an element of the kind is matched along some route if that is so below
it. -/
theorem leaves_routable (leaves : kind.Leaves s input below id complete i j events) :
    Routable (fun route => kind.Leaves s input (along route) id complete i j events) i j := by
  cases leaves with
  | token current_eq accepted =>
      exact routable_of_all (Nat.le_succ i) fun _ => .token current_eq accepted
  | identifier current_eq accepted =>
      exact routable_of_all (Nat.le_succ i) fun _ => .identifier current_eq accepted
  | sequence filled =>
      exact (filled_routable routable filled).imp fun _ filled => .sequence filled
  | @wrapper opening content closing range held _ _ m _ _ middle _ range_eq opened contained passed
      closed =>
      -- Content that is not active takes no part in the route, so it bounds nothing.
      have inner : Routable (fun route => content.isActive s.options.version = true →
          Contained s input (along route) content held (i + 1) m middle) (i + 1) m := by
        cases active : content.isActive s.options.version with
        | true =>
            exact (contained_routable routable (contained active)).imp fun _ contained _ => contained
        | false =>
            obtain ⟨-, rfl, -⟩ := passed active
            exact routable_of_all (Nat.le_refl _) fun _ impossible => by cases impossible
      have behind := inner.append (closed_routable routable closed) fun _ contained closed =>
        And.intro contained closed
      exact (routable _ _ _ _ _ _ opened).append behind fun _ opened behind =>
        .wrapper range_eq opened behind.1 passed behind.2
  | balanced opened nonempty contained closed =>
      have behind := (contained_routable routable contained).append
        (closed_routable routable closed) fun _ contained closed => And.intro contained closed
      exact (opened_routable routable opened).append behind fun _ opened behind =>
        .balanced opened nonempty behind.1 behind.2
  | bare active matched => exact (routable _ _ _ _ _ _ matched).imp fun _ held => .bare active held
  | oneOf tried active admitted matched =>
      exact (routable _ _ _ _ _ _ matched).imp fun _ chosen => .oneOf tried active admitted chosen
  | iteration matched repeated =>
      exact (routable _ _ _ _ _ _ matched).append (repeated_routable routable repeated)
        fun _ first further => .iteration first further
  | iterationPart matched =>
      exact (routable _ _ _ _ _ _ matched).imp fun _ first => .iterationPart first
  | qualified member named =>
      exact (named_routable routable named).imp fun _ named => .qualified member named
  | qualifiedPart member named =>
      exact (named_routable routable named).imp fun _ named => .qualifiedPart member named
  | reference matched => exact (routable _ _ _ _ _ _ matched).imp fun _ held => .reference held

end Leaves

variable {s : Setting} {input : Input} {complete : Bool} {i j : Nat} {events : List Event}
  {id item : ElementId} {kind : Kind ElementId}

/-- What a leaf leaves is the same whatever is below it. -/
theorem Kind.Leaves.of_leaf {below below' : Nat → ElementId → Record} (leaf : kind.isLeaf = true)
    (leaves : kind.Leaves s input below id complete i j events) :
    kind.Leaves s input below' id complete i j events := by
  cases leaves with
  | token current_eq accepted => exact .token current_eq accepted
  | identifier current_eq accepted => exact .identifier current_eq accepted
  | _ => cases leaf

theorem recorded_routable (levels : Nat) {outer : Path}
    (recorded : Recorded s input levels id outer complete i j events) :
    Routable (fun route => Routed s input route levels id outer complete i j events) i j := by
  induction levels generalizing id outer complete i j events with
  | zero => exact recorded.elim
  | succ levels ih =>
      obtain ⟨further, kind, stands, leaves⟩ := recorded
      cases leaf : kind.isLeaf with
      | true =>
          refine ⟨Nat.le_of_lt further, fun _ => (id, outer), fun route same => ?_⟩
          exact ⟨further, kind, stands, fun _ => same i (Nat.le_refl i) further,
            leaves.of_leaf leaf⟩
      | false =>
          have below : ∀ slot item complete i j events,
              Recorded s input levels item (⟨id, slot⟩ :: outer) complete i j events →
              Routable (fun route =>
                Routed s input route levels item (⟨id, slot⟩ :: outer) complete i j events) i j :=
            fun slot item complete i j events matched => ih matched
          exact (leaves_routable below leaves).imp fun route leaves =>
            ⟨further, kind, stands, fun composite => by simp [leaf] at composite, leaves⟩

/-- **Whatever is matched is matched along some route.** -/
theorem exists_routed {levels : Nat} {outer : Path}
    (recorded : Recorded s input levels id outer complete i j events) :
    ∃ route, Routed s input route levels id outer complete i j events :=
  (recorded_routable levels recorded).exists

/-! ### What a match along a route begins with -/

theorem Kind.Tries.mem_entriesAt (tries : kind.Tries s input i item) :
    item ∈ kind.entriesAt s.options.version := by
  cases kind with
  | oneOf alternatives sortable =>
      obtain ⟨slot, member, rfl, active, -⟩ := tries
      exact List.mem_map_of_mem (List.mem_filter.2 ⟨member, active⟩)
  | _ => exact tries

/-- In a version that has every slot of an element, what is entered first is one of those on
which it depends with what every match begins, if there are any. -/
theorem Kind.mem_anchors {version : Nat}
    (active : ∀ slot ∈ kind.slots, slot.isActive version = true)
    (entry : item ∈ kind.entriesAt version) (anchored : kind.anchors ≠ []) :
    item ∈ kind.anchors := by
  cases kind with
  | token => exact absurd rfl anchored
  | identifier => exact absurd rfl anchored
  | sequence slots =>
      cases slots with
      | nil => exact absurd rfl anchored
      | cons slot rest =>
          have here := active slot List.mem_cons_self
          cases optional : slot.optional with
          | true => simp [anchors, optional] at anchored
          | false => simpa [anchors, entriesAt, leadingAt, optional, here] using entry
  | wrapper opening content closing repeated =>
      cases repeated with
      | false => exact entry
      | true => exact absurd rfl anchored
  | oneOf alternatives sortable =>
      obtain ⟨slot, member, rfl⟩ := List.mem_map.1 entry
      exact List.mem_map_of_mem (List.mem_filter.1 member).1
  | _ => exact entry

namespace FirstSets

theorem mem_of_mem_common {sets : List TokenSet} {set : TokenSet} {t : TokenTypeId}
    (inAll : t ∈ common sets) (member : set ∈ sets) : t ∈ set := by
  cases sets with
  | nil => cases member
  | cons first rest =>
      obtain ⟨inFirst, inRest⟩ := mem_common.1 inAll
      rcases List.mem_cons.1 member with rfl | further
      · exact inFirst
      · exact inRest set further

/-- What a leaf requires is the only token it takes. -/
theorem eq_of_requiredBy {g : Grammar} {below : ElementId → TokenSet} {t own : TokenTypeId}
    (stands : g.kind? id = some kind) (leaf : kind.isLeaf = true) (takes : own ∈ ownTokens g id)
    (requires : t ∈ requiredBy below kind) : t = own := by
  cases kind with
  | token type text flavor =>
      have same : own = type := by simpa [ownTokens, stands] using takes
      exact (TokenSet.mem_singleton.1 requires).trans same.symm
  | identifier use isAlias object => exact absurd requires (TokenSet.not_mem_empty t)
  | _ => cases leaf

/-- What a composite requires is required by each of its anchors, of which there is one. -/
theorem required_of_requiredBy {below : ElementId → TokenSet} {t : TokenTypeId}
    (composite : kind.isLeaf = false) (requires : t ∈ requiredBy below kind) :
    kind.anchors ≠ [] ∧ ∀ anchor ∈ kind.anchors, t ∈ below anchor := by
  have inAll : t ∈ common (kind.anchors.map below) := by
    cases kind with
    | token => cases composite
    | _ => exact requires
  refine ⟨fun none => ?_, fun anchor member => ?_⟩
  · rw [none] at inAll
    exact TokenSet.not_mem_empty t inAll
  · exact mem_of_mem_common inAll (List.mem_map_of_mem member)

end FirstSets

/-- The token type may begin the element, and the element requires no other. -/
structure Grammar.Begins (g : Grammar) (token : TokenTypeId) (id : ElementId) : Prop where
  possible : token ∈ (FirstSets.ofElement g id).possible
  required : ∀ t ∈ (FirstSets.ofElement g id).required, t = token

/-- **A match begins with a token that the first sets allow**, in a version that has every
slot. -/
theorem routed_begins (wellFormed : s.grammar.WellFormed)
    (all : s.grammar.HasAll s.options.version)
    (ordinary : ∀ position, (input.cursorAt position).atPlaceholder = false) {route : Route}
    {levels : Nat} {outer : Path}
    (routed : Routed s input route levels id outer complete i j events) :
    ∃ token, input.token? i = some token ∧ s.grammar.Begins token.kind id := by
  induction levels generalizing id outer complete j events with
  | zero => exact routed.elim
  | succ levels ih =>
      obtain ⟨further, kind, stands, -, leaves⟩ := routed
      have possible_iff := fun t => FirstSets.mem_possible_iff wellFormed stands (t := t)
      have required_eq := FirstSets.required_ofElement wellFormed stands
      cases leaf : kind.isLeaf with
      | true =>
          obtain ⟨token, found⟩ : ∃ token, input.token? i = some token := by
            cases leaves with
            | token current_eq accepted => exact ⟨_, current_eq⟩
            | identifier current_eq accepted => exact ⟨_, current_eq⟩
            | _ => cases leaf
          have own := leaves_own found (ordinary i) stands leaf leaves
          exact ⟨token, found, (possible_iff _).2 (.inl own), fun t requires =>
            FirstSets.eq_of_requiredBy stands leaf own (required_eq ▸ requires)⟩
      | false =>
          obtain ⟨place, item, whole, m, first, tries, matched⟩ := leaves_begins leaf further leaves
          obtain ⟨token, found, begins⟩ := ih matched
          have entry := tries.mem_entriesAt
          -- All slots being there, the first sets count the item among the entries.
          have entered : item ∈ kind.entries := by
            obtain ⟨other, standsToo, entered⟩ :=
              Grammar.enters_iff.1 (all.enters ⟨kind, stands, entry⟩)
            obtain rfl := Option.some.inj (stands.symm.trans standsToo)
            exact entered
          refine ⟨token, found, (possible_iff _).2 (.inr ⟨item, entered, begins.possible⟩),
            fun t requires => ?_⟩
          obtain ⟨anchored, each⟩ :=
            FirstSets.required_of_requiredBy leaf (required_eq ▸ requires)
          exact begins.required t (each item (Kind.mem_anchors (all id kind stands) entry anchored))

end Dialect
