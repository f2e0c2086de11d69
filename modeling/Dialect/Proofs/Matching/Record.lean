import Dialect.Proofs.Matching.Contract
import Dialect.Matching.Expectation

/-!
# What a match leaves

The record of a match, described by the kind of the element.  Each construct is given by
what the matches of the elements below it leave (`below`, by slot and element), so that
`Recorded` can be put together level by level, in the way in which elements are matched.
-/

set_option autoImplicit false

namespace Dialect

section Leaves

variable (s : Setting) (input : Input)

/-- The diagnostic that the element is missing at a position. -/
def Missing (code : DiagnosticCode) (id : ElementId) (position : Nat) (found : Diagnostic) :
    Prop :=
  (input.cursorAt position).missing s.grammar code id = .ok found

/-- The diagnostic that the element is missing, under the code that belongs to it. -/
def MissingHere (id : ElementId) (position : Nat) (found : Diagnostic) : Prop :=
  ∃ code, s.grammar.missingCode id = .ok code ∧ Missing s input code id position found

/-- The alternative is tried at a position: there is a token, and the predictor rules
nothing out, or the token cannot be predicted, or the alternative may begin with it. -/
def Admitted (slot : Slot ElementId) (position : Nat) : Prop :=
  ∃ current, input.token? position = some current ∧
    (s.predictor.selective = false ∨ (input.cursorAt position).atPlaceholder = true ∨
      (∃ type, s.grammar.vocabulary.get current.kind = .ok type ∧ type.isChameleon = true) ∨
      current.kind ∈ (FirstSets.ofElement s.grammar slot.item).possible)

variable (below : Nat → ElementId → Record)

/-- How slots are filled one after the other, from the slot with the given number on. -/
inductive Filled : List (Slot ElementId) → Nat → Record
  | done (index i) : Filled [] index true i i []
  | pass {slot rest index complete i j events} (inactive : slot.isActive s.options.version = false)
      (others : Filled rest (index + 1) complete i j events) :
      Filled (slot :: rest) index complete i j events
  | leave {slot rest index complete i j events} (active : slot.isActive s.options.version = true)
      (optional : slot.optional = true) (others : Filled rest (index + 1) complete i j events) :
      Filled (slot :: rest) index complete i j events
  | fill {slot rest index complete i m j events more}
      (active : slot.isActive s.options.version = true)
      (matched : below index slot.item true i m events)
      (others : Filled rest (index + 1) complete m j more) :
      Filled (slot :: rest) index complete i j (events ++ more)
  | fillPart {slot rest index i j events} (active : slot.isActive s.options.version = true)
      (matched : below index slot.item false i j events) :
      Filled (slot :: rest) index false i j events
  | miss {slot rest index i found} (active : slot.isActive s.options.version = true)
      (required : slot.optional = false) (missing : MissingHere s input slot.item i found) :
      Filled (slot :: rest) index false i i [.diagnostic found]

/-- The content of a wrapper, behind opening delimiters. -/
inductive Contained (slot : Slot ElementId) : Record
  | fill {complete i j events} (active : slot.isActive s.options.version = true)
      (matched : below 1 slot.item complete i j events) : Contained slot complete i j events
  | leave {i} (optional : slot.optional = true) : Contained slot true i i []
  | miss {i found} (required : slot.optional = false)
      (missing : MissingHere s input slot.item i found) :
      Contained slot false i i [.diagnostic found]

/-- Opening delimiters one after the other, with their ranges, innermost first. -/
inductive Opened (opening : ElementId) : List TextRange → Nat → Nat → List Event → Prop
  | done (i) : Opened opening [] i i []
  | more {ranges i j events more range} (others : Opened opening ranges i j events)
      (range_eq : (input.cursorAt j).currentRange = .ok range)
      (matched : below 0 opening true j (j + 1) more) :
      Opened opening (range :: ranges) i (j + 1) (events ++ more)

/-- Closing delimiters one after the other, and the opening ones that stay open. -/
inductive Shut (closing : ElementId) :
    List TextRange → List TextRange → Nat → Nat → List Event → Prop
  | done (opened i) : Shut closing opened opened i i []
  | more {range outer left i j events more} (matched : below 2 closing true i (i + 1) events)
      (others : Shut closing outer left (i + 1) j more) :
      Shut closing (range :: outer) left i j (events ++ more)

/-- The end of a wrapper whose content was complete or not. -/
inductive Closed (closing : ElementId) (opened : List TextRange) : Bool → Record
  | all {complete i j events} (shut : Shut below closing opened [] i j events) :
      Closed closing opened complete complete i j events
  | report {range outer i j events found} (shut : Shut below closing opened (range :: outer) i j events)
      (missing : Missing s input .E0203 closing j found) :
      Closed closing opened true false i j (events ++
        [.diagnostic { found with related := found.related ++ [⟨"opened here", range⟩] }])
  | silent {range outer i j events} (shut : Shut below closing opened (range :: outer) i j events) :
      Closed closing opened false false i j events

/-- What stands between two items: a separator, if there is one. -/
inductive Separated : Option ElementId → Nat → Nat → List Event → Prop
  | none (i) : Separated none i i []
  | some {between i events} (matched : below 1 between true i (i + 1) events) :
      Separated (some between) i (i + 1) events

/-- The items that follow a complete item. -/
inductive Repeated (item : ElementId) (separator : Option ElementId) : Record
  | done (i) : Repeated item separator true i i []
  | more {complete i m n j before events more} (separated : Separated below separator i m before)
      (matched : below 0 item true m n events)
      (others : Repeated item separator complete n j more) :
      Repeated item separator complete i j (before ++ events ++ more)
  | part {i m j before events} (separated : Separated below separator i m before)
      (matched : below 0 item false m j events) :
      Repeated item separator false i j (before ++ events)
  | miss {between i before found} (separator_eq : separator = some between)
      (matched : below 1 between true i (i + 1) before)
      (missing : Missing s input .E0302 item (i + 1) found) :
      Repeated item separator false i (i + 1) (before ++ [.diagnostic found])

/-- The events that tell of a missing part of a name, if that is to be reported. -/
def Reported (report : Bool) (id : ElementId) (position : Nat) (events : List Event) : Prop :=
  if report then ∃ found, Missing s input .E0303 id position found ∧ events = [.diagnostic found]
  else events = []

/-- The parts of a name behind the first, each with its separator. -/
inductive Joined (separator : ElementId) (report : Bool) : List ElementId → Nat → Record
  | done (index i) : Joined separator report [] index true i i []
  | more {part rest index complete i j before events more}
      (separated : below index separator true i (i + 1) before)
      (matched : below index part true (i + 1) (i + 2) events)
      (others : Joined separator report rest (index + 1) complete (i + 2) j more) :
      Joined separator report (part :: rest) index complete i j (before ++ events ++ more)
  | missSeparator {part rest index i events} (reported : Reported s input report separator i events) :
      Joined separator report (part :: rest) index false i i events
  | missPart {part rest index i before events}
      (separated : below index separator true i (i + 1) before)
      (reported : Reported s input report part (i + 1) events) :
      Joined separator report (part :: rest) index false i (i + 1) (before ++ events)

/-- The parts of a variant of a name. -/
inductive Named (separator : ElementId) (report : Bool) : List ElementId → Record
  | intro {part rest complete i j events more} (matched : below 0 part true i (i + 1) events)
      (others : Joined s input below separator report rest 1 complete (i + 1) j more) :
      Named separator report (part :: rest) complete i j (events ++ more)

end Leaves

namespace Kind

variable (s : Setting) (input : Input) (below : Nat → ElementId → Record)

/-- What a match of an element of the given kind leaves. -/
inductive Leaves (id : ElementId) : Kind ElementId → Record
  | token {type text flavor i current} (current_eq : input.token? i = some current)
      (accepted : (input.cursorAt i).atPlaceholder = true ∨
        current.kind = type ∧ text.all (Token.sameWord current.text) = true) :
      Leaves id (.token type text flavor) true i (i + 1) (input.leaf id i)
  | identifier {use isAlias object i current} (current_eq : input.token? i = some current)
      (accepted : (input.cursorAt i).atPlaceholder = true ∨
        ∃ type, s.grammar.vocabulary.get current.kind = .ok type ∧
          (type.isIdentifier = true ∨ type.isSuppressible = true)) :
      Leaves id (.identifier use isAlias object) true i (i + 1) (input.leaf id i)
  | sequence {slots complete i j events} (filled : Filled s input below slots 0 complete i j events) :
      Leaves id (.sequence slots) complete i j (input.node id i events)
  | wrapper {opening slot closing range held complete i m j first middle last}
      (range_eq : (input.cursorAt i).currentRange = .ok range)
      (opened : below 0 opening true i (i + 1) first)
      (contained : slot.isActive s.options.version = true →
        Contained s input below slot held (i + 1) m middle)
      (passed : slot.isActive s.options.version = false → held = true ∧ m = i + 1 ∧ middle = [])
      (closed : Closed s input below closing [range] held complete m j last) :
      Leaves id (.wrapper opening slot closing false) complete i j
        (input.node id i (first ++ middle ++ last))
  | balanced {opening slot closing ranges held complete i m n j first middle last}
      (opened : Opened input below opening ranges i m first) (nonempty : ranges ≠ [])
      (contained : Contained s input below slot held m n middle)
      (closed : Closed s input below closing ranges held complete n j last) :
      Leaves id (.wrapper opening slot closing true) complete i j
        (input.node id i (first ++ middle ++ last))
  | bare {opening slot closing complete i j events} (active : slot.isActive s.options.version = true)
      (matched : below 1 slot.item complete i j events) :
      Leaves id (.wrapper opening slot closing true) complete i j (.tombstone :: events)
  | oneOf {alternatives sortable index slot complete i j events}
      (tried : ((Kind.oneOf alternatives sortable).tried s.grammar)[index]? = some slot)
      (active : slot.isActive s.options.version = true) (admitted : Admitted s input slot i)
      (matched : below index slot.item complete i j events) :
      Leaves id (.oneOf alternatives sortable) complete i j (.tombstone :: events)
  | iteration {item separator complete i m j events more} (matched : below 0 item true i m events)
      (repeated : Repeated s input below item separator complete m j more) :
      Leaves id (.iteration item separator) complete i j (input.node id i (events ++ more))
  | iterationPart {item separator i j events} (matched : below 0 item false i j events) :
      Leaves id (.iteration item separator) false i j (input.node id i events)
  | qualified {variants separator variant i j events} (member : variant ∈ variants)
      (named : Named s input below separator false variant true i j events) :
      Leaves id (.qualified variants separator) true i j (input.node id i (.tombstone :: events))
  | qualifiedPart {variants separator variant complete i j events} (member : variant ∈ variants)
      (named : Named s input below separator true variant complete i j events) :
      Leaves id (.qualified variants separator) complete i j (input.node id i events)
  | reference {target complete i j events} (matched : below 0 target complete i j events) :
      Leaves id (.reference target) complete i j events

end Kind

/-- The elements that are tried at the position at which an element of the given kind is
entered. -/
def Kind.Tries (s : Setting) (input : Input) (position : Nat) (kind : Kind ElementId)
    (id : ElementId) : Prop :=
  match kind with
  | .oneOf alternatives _ => ∃ slot ∈ alternatives, slot.item = id ∧
      slot.isActive s.options.version = true ∧ Admitted s input slot position
  | kind => id ∈ kind.entriesAt s.options.version

/-- Nothing came of any element that is tried at the position. -/
def Kind.Idles (s : Setting) (input : Input) (idle : ElementId → (position : Nat) → Prop)
    (kind : Kind ElementId) (position : Nat) : Prop :=
  ∀ id, kind.Tries s input position id → idle id position

/-- What a match of an element leaves, when elements nest no deeper than `levels`. -/
def Recorded (s : Setting) (input : Input) : (levels : Nat) → ElementId → Path → Record
  | 0, _, _ => fun _ _ _ _ => False
  | levels + 1, id, outer => fun complete i j events =>
      i < j ∧ ∃ kind, s.grammar.kind? id = some kind ∧
        kind.Leaves s input (fun slot item => Recorded s input levels item (⟨id, slot⟩ :: outer))
          id complete i j events

end Dialect
