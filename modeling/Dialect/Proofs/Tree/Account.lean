import Dialect.Proofs.Matching.Run
import Dialect.Proofs.Tree.Building

/-!
# What a match accounts for

What a match adds to a record is read as one tree that takes every token of the match once.
A complete match comes without a diagnostic, and any other with exactly one, which points at
the place where the match stopped, or at a place behind which only closing delimiters were
taken (`Account`).

The main statement is `recorded_builds`.  The induction is on the levels of `Recorded`; for
each construct, what is known of the elements below it is passed on as `Accountable`.
-/

set_option autoImplicit false

namespace Dialect

section

variable (g : Grammar) (input : Input)

/-- The diagnostic is about the token at a position, or about the end of the input, and
does not speak of tokens that are left over. -/
def Points (k : Nat) (found : Diagnostic) : Prop :=
  (input.cursorAt k).currentRange = .ok found.range ∧ found.code ≠ .E0103

/-- The node is a leaf of the element that takes the token at a position. -/
structure Node.Takes (id : ElementId) (t : Nat) (node : Node) : Prop where
  isLeaf : node.kind.isLeaf = true
  element_eq : node.element = id
  spot_eq : (node.first, node.stop) = input.spotAt t

/-- The token at a position is taken by the closing delimiter of a wrapper in the forest. -/
def Node.ClosedAt (nodes : List Node) (t : Nat) : Prop :=
  ∃ node ∈ Node.preorderAll nodes, ∃ opening slot closing repeated,
    g.kind? node.element = some (.wrapper opening slot closing repeated) ∧
      ∃ leaf ∈ node.children, leaf.Takes input closing t

/-- The diagnostic points at a place of the match behind which only closing delimiters were
taken. -/
def Blames (i j : Nat) (nodes : List Node) (found : Diagnostic) : Prop :=
  ∃ k, i ≤ k ∧ k ≤ j ∧ Points input k found ∧ ∀ t, k ≤ t → t < j → Node.ClosedAt g input nodes t

/-- What is made of a match from one position to another: a forest that takes its tokens,
and a diagnostic unless the match is complete. -/
structure Account (complete : Bool) (i j : Nat) (nodes : List Node) (found : List Diagnostic) :
    Prop where
  tiled : Tiled input i j nodes
  clean : complete = true → found = []
  blames : complete = false → ∃ only, found = [only] ∧ Blames g input i j nodes only

/-- What is made of a match of an element: one tree, which is a leaf of the element if the
element is one. -/
structure Accounted (id : ElementId) (complete : Bool) (i j : Nat) (nodes : List Node)
    (found : List Diagnostic) : Prop extends Account g input complete i j nodes found where
  single : ∃ node, nodes = [node] ∧ ∀ kind, g.kind? id = some kind → kind.isLeaf = true →
    node.kind.isLeaf = true ∧ node.element = id

/-- What is made of the end of a wrapper whose content was complete or not. -/
structure Ending (closing : ElementId) (held complete : Bool) (i j : Nat) (nodes : List Node)
    (found : List Diagnostic) : Prop where
  tiled : Tiled input i j nodes
  closes : ∀ t, i ≤ t → t < j → ∃ leaf ∈ nodes, leaf.Takes input closing t
  reports : complete = held ∧ found = [] ∨
    held = true ∧ complete = false ∧ ∃ only, found = [only] ∧ Points input j only

end

/-! ### Putting accounts together -/

section

variable {g : Grammar} {input : Input} {id : ElementId} {complete held : Bool} {i j m : Nat}
  {nodes more : List Node} {node : Node} {found others : List Diagnostic}

theorem Node.ClosedAt.mono {t : Nat} (closed : Node.ClosedAt g input nodes t)
    (within : ∀ node ∈ Node.preorderAll nodes, node ∈ Node.preorderAll more) :
    Node.ClosedAt g input more t := by
  obtain ⟨node, member, closes⟩ := closed
  exact ⟨node, within node member, closes⟩

namespace Account

theorem nil (i : Nat) : Account g input true i i [] [] := ⟨.nil i, fun _ => rfl, nofun⟩

/-- Something that is missing is reported where it is missing. -/
theorem missing {only : Diagnostic} (points : Points input i only) :
    Account g input false i i [] [only] :=
  ⟨.nil i, nofun, fun _ => ⟨only, rfl, i, Nat.le_refl i, Nat.le_refl i, points,
    fun _ start stop => absurd start (Nat.not_le.2 stop)⟩⟩

/-- A complete match is followed by another. -/
theorem append (first : Account g input true i m nodes found)
    (second : Account g input complete m j more others) :
    Account g input complete i j (nodes ++ more) (found ++ others) := by
  obtain rfl := first.clean rfl
  refine ⟨first.tiled.append second.tiled, second.clean, fun broken => ?_⟩
  obtain ⟨only, rfl, k, start, stop, points, closed⟩ := second.blames broken
  refine ⟨only, rfl, k, Nat.le_trans first.tiled.le start, stop, points, fun t after before => ?_⟩
  exact (closed t after before).mono fun node member => by simp [Node.preorderAll_append, member]

/-- A node over a match. -/
theorem enclose {label : NodeKind} (inner : Account g input complete i j nodes found)
    (covers : node.Over input id label i j nodes) (isInner : label.isLeaf = false) :
    Account g input complete i j [node] found := by
  refine ⟨.inner covers isInner inner.tiled (.nil j), inner.clean, fun broken => ?_⟩
  obtain ⟨only, found_eq, k, start, stop, points, closed⟩ := inner.blames broken
  refine ⟨only, found_eq, k, start, stop, points, fun t after before => ?_⟩
  exact (closed t after before).mono fun below member => by
    simp [Node.preorderAll, Node.preorder_eq, covers.children_eq, member]

/-- A wrapper around a match: what is taken behind the match are closing delimiters. -/
theorem wrapper {opening closing : ElementId} {slot : Slot ElementId} {repeated : Bool}
    (stands : g.kind? id = some (.wrapper opening slot closing repeated))
    (inner : Account g input held i m nodes found)
    (ending : Ending input closing held complete m j more others)
    (covers : node.Over input id .wrapper i j (nodes ++ more)) :
    Account g input complete i j [node] (found ++ others) := by
  have closed : ∀ t, m ≤ t → t < j → Node.ClosedAt g input [node] t := by
    intro t start stop
    obtain ⟨leaf, member, takes⟩ := ending.closes t start stop
    refine ⟨node, by simp [Node.preorderAll, Node.preorder_eq], opening, slot, closing, repeated,
      covers.element_eq ▸ stands, leaf, ?_, takes⟩
    rw [covers.children_eq]
    exact List.mem_append_right nodes member
  have inside : ∀ t, Node.ClosedAt g input nodes t → Node.ClosedAt g input [node] t :=
    fun t there => there.mono fun below member => by
      simp [Node.preorderAll, Node.preorder_eq, covers.children_eq, Node.preorderAll_append, member]
  refine ⟨.inner covers rfl (inner.tiled.append ending.tiled) (.nil j), fun full => ?_,
    fun broken => ?_⟩
  · rcases ending.reports with ⟨rfl, rfl⟩ | ⟨-, rfl, -⟩
    · rw [inner.clean full, List.append_nil]
    · cases full
  · rcases ending.reports with ⟨rfl, rfl⟩ | ⟨rfl, -, only, rfl, points⟩
    · obtain ⟨only, rfl, k, start, stop, points, closedInside⟩ := inner.blames broken
      refine ⟨only, rfl, k, start, Nat.le_trans stop ending.tiled.le, points, fun t after before => ?_⟩
      rcases Nat.lt_or_ge t m with within | behind
      · exact inside t (closedInside t after within)
      · exact closed t behind before
    · rw [inner.clean rfl]
      exact ⟨only, rfl, j, Nat.le_trans inner.tiled.le ending.tiled.le, Nat.le_refl j, points,
        fun _ start stop => absurd start (Nat.not_le.2 stop)⟩

end Account

/-- What is recorded of a complete match and of the match behind it. -/
theorem Builds.account_append {events events' : List Event}
    (first : Builds g input events (Account g input true i m))
    (second : Builds g input events' (Account g input complete m j)) :
    Builds g input (events ++ events') (Account g input complete i j) :=
  first.append second fun _ _ _ _ account account' => account.append account'

/-- A match of a leaf. -/
theorem accounted_of_leaf {label : NodeKind} (isLeaf : label.isLeaf = true)
    (covers : node.Over input id label i (i + 1) []) : Accounted g input id true i (i + 1) [node] [] where
  tiled := .leaf covers isLeaf (.nil _)
  clean _ := rfl
  blames := nofun
  single := ⟨node, rfl, fun _ _ _ => ⟨covers.kind_eq ▸ isLeaf, covers.element_eq⟩⟩

/-- A match of an element that is no leaf. -/
theorem Account.accounted {kind : Kind ElementId} (stands : g.kind? id = some kind)
    (isInner : kind.isLeaf = false) (account : Account g input complete i j [node] found) :
    Accounted g input id complete i j [node] found := by
  refine ⟨account, node, rfl, fun other there isLeaf => ?_⟩
  obtain rfl := Option.some.inj (stands.symm.trans there)
  rw [isInner] at isLeaf
  cases isLeaf

end

/-! ### Reports of what is missing -/

section Missing

variable {s : Setting} {input : Input} {id : ElementId} {i : Nat} {found : Diagnostic}

theorem Missing.points {code : DiagnosticCode} (missing : Missing s input code id i found)
    (other : code ≠ .E0103) : Points input i found := by
  unfold Missing Cursor.missing at missing
  obtain ⟨range, range_eq, missing⟩ := bind_eq_ok.1 missing
  obtain ⟨expected, -, missing⟩ := bind_eq_ok.1 missing
  cases current : (input.cursorAt i).current? with
  | some token =>
      simp only [current] at missing
      obtain ⟨hint, -, missing⟩ := bind_eq_ok.1 missing
      obtain rfl := pure_eq_ok.1 missing
      exact ⟨range_eq, other⟩
  | none =>
      simp only [current] at missing
      obtain rfl := pure_eq_ok.1 missing
      refine ⟨range_eq, ?_⟩
      dsimp only
      split
      · exact other
      · decide

theorem MissingHere.points (missing : MissingHere s input id i found) : Points input i found := by
  obtain ⟨code, code_eq, missing⟩ := missing
  refine missing.points ?_
  rintro rfl
  unfold Grammar.missingCode at code_eq
  obtain ⟨element, -, code_eq⟩ := bind_eq_ok.1 code_eq
  split at code_eq <;> cases pure_eq_ok.1 code_eq

end Missing

/-! ### Constructs -/

/-- Matches below are read as trees and diagnostics. -/
def Accountable (g : Grammar) (input : Input) (below : Nat → ElementId → Record) : Prop :=
  ∀ slot item complete i j events, below slot item complete i j events →
    Builds g input events (Accounted g input item complete i j)

section Constructs

variable {s : Setting} {input : Input} {below : Nat → ElementId → Record} {complete : Bool}
  {i j m : Nat} {events : List Event} (accountable : Accountable s.grammar input below)

include accountable

theorem Accountable.account {slot : Nat} {item : ElementId}
    (matched : below slot item complete i j events) :
    Builds s.grammar input events (Account s.grammar input complete i j) :=
  (accountable _ _ _ _ _ _ matched).imp fun _ _ accounted => accounted.toAccount

theorem filled_builds {slots : List (Slot ElementId)} {index : Nat}
    (filled : Filled s input below slots index complete i j events) :
    Builds s.grammar input events (Account s.grammar input complete i j) := by
  induction filled with
  | done index i => exact builds_nil (.nil i)
  | pass inactive others ih => exact ih
  | leave active optional others ih => exact ih
  | fill active matched others ih =>
      exact (accountable.account matched).account_append ih
  | fillPart active matched => exact accountable.account matched
  | miss active required missing => exact builds_diagnostic (.missing missing.points)

theorem contained_builds {slot : Slot ElementId}
    (contained : Contained s input below slot complete i j events) :
    Builds s.grammar input events (Account s.grammar input complete i j) := by
  cases contained with
  | fill active matched => exact accountable.account matched
  | leave optional => exact builds_nil (.nil i)
  | miss required missing => exact builds_diagnostic (.missing missing.points)

theorem opened_builds {opening : ElementId} {ranges : List TextRange}
    (opened : Opened input below opening ranges i j events) :
    Builds s.grammar input events (Account s.grammar input true i j) := by
  induction opened with
  | done i => exact builds_nil (.nil i)
  | more others range_eq matched ih =>
      exact ih.account_append (accountable.account matched)

/-- Closing delimiters are read as leaves of the closing element. -/
theorem shut_builds {closing : ElementId} {type : TokenTypeId}
    (stands : s.grammar.kind? closing = some (.token type none none)) {opened left : List TextRange}
    (shut : Shut below closing opened left i j events) (held : Bool) :
    Builds s.grammar input events (Ending input closing held held i j) := by
  induction shut with
  | done opened i =>
      exact builds_nil ⟨.nil i, fun t start stop => absurd start (Nat.not_le.2 stop), Or.inl ⟨rfl, rfl⟩⟩
  | @more range outer left i j events more matched others ih =>
      refine (accountable _ _ _ _ _ _ matched).append ih ?_
      rintro nodes nodes' found found' first rest
      obtain ⟨leaf, rfl, own⟩ := first.single
      obtain ⟨isLeaf, element_eq⟩ := own _ stands rfl
      obtain rfl := first.clean rfl
      refine ⟨first.tiled.append rest.tiled, fun t start stop => ?_, rest.reports⟩
      rcases Nat.lt_or_eq_of_le start with later | rfl
      · obtain ⟨node, member, takes⟩ := rest.closes t later stop
        exact ⟨node, List.mem_cons_of_mem _ member, takes⟩
      · have covers := first.tiled.single
        refine ⟨leaf, List.mem_cons_self, isLeaf, element_eq, ?_⟩
        rw [covers.first_eq, covers.stop_eq, Nat.add_sub_cancel]
        rfl

theorem closed_builds {closing : ElementId} {type : TokenTypeId}
    (stands : s.grammar.kind? closing = some (.token type none none)) {opened : List TextRange}
    {held : Bool} (closed : Closed s input below closing opened held complete i j events) :
    Builds s.grammar input events (Ending input closing held complete i j) := by
  cases closed with
  | all shut => exact shut_builds accountable stands shut _
  | silent shut => exact shut_builds accountable stands shut _
  | @report range outer i j events found shut missing =>
      have points : Points input j { found with related := found.related ++ [⟨"opened here", range⟩] } :=
        missing.points (by decide)
      have told : Builds s.grammar input [.diagnostic _] fun nodes found =>
          nodes = [] ∧ ∃ only, found = [only] ∧ Points input j only :=
        builds_diagnostic ⟨rfl, _, rfl, points⟩
      refine (shut_builds accountable stands shut true).append told ?_
      rintro nodes _ found _ ending ⟨rfl, only, rfl, points⟩
      rw [List.append_nil]
      rcases ending.reports with ⟨-, rfl⟩ | ⟨-, broken, -⟩
      · exact ⟨ending.tiled, ending.closes, Or.inr ⟨rfl, rfl, only, rfl, points⟩⟩
      · cases broken

theorem separated_builds {separator : Option ElementId}
    (separated : Separated below separator i j events) :
    Builds s.grammar input events (Account s.grammar input true i j) := by
  cases separated with
  | none i => exact builds_nil (.nil i)
  | some matched => exact accountable.account matched

theorem repeated_builds {item : ElementId} {separator : Option ElementId}
    (repeated : Repeated s input below item separator complete i j events) :
    Builds s.grammar input events (Account s.grammar input complete i j) := by
  induction repeated with
  | done i => exact builds_nil (.nil i)
  | more separated matched others ih =>
      exact ((separated_builds accountable separated).account_append
        (accountable.account matched)).account_append ih
  | part separated matched =>
      exact (separated_builds accountable separated).account_append (accountable.account matched)
  | miss separator_eq matched missing =>
      exact (accountable.account matched).account_append
        (builds_diagnostic (.missing (missing.points (by decide))))

omit accountable in
theorem reported_builds {id : ElementId} {report : Bool} (reports : report = true)
    (reported : Reported s input report id i events) :
    Builds s.grammar input events (Account s.grammar input false i i) := by
  subst reports
  obtain ⟨found, missing, rfl⟩ := reported
  exact builds_diagnostic (.missing (missing.points (by decide)))

/-- The parts of a name: an incomplete one is accounted for if what is missing is reported. -/
theorem joined_builds {separator : ElementId} {report : Bool} {parts : List ElementId}
    {index : Nat} (joined : Joined s input below separator report parts index complete i j events)
    (told : complete = true ∨ report = true) :
    Builds s.grammar input events (Account s.grammar input complete i j) := by
  induction joined with
  | done index i => exact builds_nil (.nil i)
  | more separated matched others ih =>
      exact ((accountable.account separated).account_append
        (accountable.account matched)).account_append (ih told)
  | missSeparator reported => exact reported_builds (told.resolve_left nofun) reported
  | missPart separated reported =>
      exact (accountable.account separated).account_append
        (reported_builds (told.resolve_left nofun) reported)

theorem named_builds {separator : ElementId} {report : Bool} {variant : List ElementId}
    (named : Named s input below separator report variant complete i j events)
    (told : complete = true ∨ report = true) :
    Builds s.grammar input events (Account s.grammar input complete i j) := by
  cases named with
  | intro matched others =>
      exact (accountable.account matched).account_append (joined_builds accountable others told)

omit accountable

/-- The node of a construct that is accounted for. -/
theorem node_builds (ascending : input.Ascending) (listed : input.Listed) {id : ElementId}
    {kind : Kind ElementId} {label : NodeKind} (stands : s.grammar.kind? id = some kind)
    (label_eq : kind.nodeKind? = some label) (isInner : kind.isLeaf = false)
    (further : i < j) (builds : Builds s.grammar input events (Account s.grammar input complete i j)) :
    Builds s.grammar input (input.node id i events) (Accounted s.grammar input id complete i j) := by
  refine builds_node ascending listed stands label_eq further builds
    (fun _ _ account => account.tiled.row) fun node children found covers account => ?_
  have inner : label.isLeaf = false := by
    cases kind <;> cases label_eq <;> first | rfl | cases isInner
  exact (account.enclose covers inner).accounted stands isInner

/-- The node of a wrapper, given what was taken up to its content and what was taken to
close it. -/
theorem wrapper_builds (ascending : input.Ascending) (listed : input.Listed)
    {id opening closing : ElementId} {slot : Slot ElementId} {repeated held : Bool}
    (stands : s.grammar.kind? id = some (.wrapper opening slot closing repeated)) (further : i < j)
    {more : List Event}
    (front : Builds s.grammar input events (Account s.grammar input held i m))
    (closes : Builds s.grammar input more (Ending input closing held complete m j)) :
    Builds s.grammar input (input.node id i (events ++ more))
      (Accounted s.grammar input id complete i j) := by
  have inner : Builds s.grammar input (events ++ more) fun nodes found =>
      ∃ first last before behind, nodes = first ++ last ∧ found = before ++ behind ∧
        Account s.grammar input held i m first before ∧
        Ending input closing held complete m j last behind :=
    front.append closes fun first last before behind account ending =>
      ⟨first, last, before, behind, rfl, rfl, account, ending⟩
  refine builds_node ascending listed stands rfl further inner ?_ ?_
  · rintro _ _ ⟨first, last, before, behind, rfl, -, account, ending⟩
    exact (account.tiled.append ending.tiled).row
  · rintro node _ _ covers ⟨first, last, before, behind, rfl, rfl, account, ending⟩
    exact (account.wrapper stands ending covers).accounted stands rfl

/-- A match of an element is accounted for, if matches below are. -/
theorem leaves_builds (accountable : Accountable s.grammar input below)
    (wellFormed : s.grammar.WellFormed) (ascending : input.Ascending) (listed : input.Listed)
    {id : ElementId} {kind : Kind ElementId} (stands : s.grammar.kind? id = some kind)
    (further : i < j) (leaves : kind.Leaves s input below id complete i j events) :
    Builds s.grammar input events (Accounted s.grammar input id complete i j) := by
  -- A choice, a reference and a repeated wrapper without delimiters pass on what they matched.
  have pass : ∀ {slot : Nat} {item : ElementId} {events : List Event}, kind.isLeaf = false →
      below slot item complete i j events →
        Builds s.grammar input events (Accounted s.grammar input id complete i j) := by
    intro slot item events isInner matched
    refine (accountable _ _ _ _ _ _ matched).imp fun nodes found accounted => ?_
    obtain ⟨node, rfl, -⟩ := accounted.single
    exact accounted.toAccount.accounted stands isInner
  cases leaves with
  | token current_eq accepted =>
      exact builds_leaf ascending listed stands rfl (token?_lt_size current_eq)
        fun node covers => accounted_of_leaf rfl covers
  | identifier current_eq accepted =>
      exact builds_leaf ascending listed stands rfl (token?_lt_size current_eq)
        fun node covers => accounted_of_leaf rfl covers
  | sequence filled =>
      exact node_builds ascending listed stands rfl rfl further (filled_builds accountable filled)
  | @wrapper opening slot closing range held complete i m j first middle last range_eq opened
      contained passed closed =>
      obtain ⟨-, -, -, type, closing_eq⟩ := wellFormed.placed _ _ stands
      have inside : Builds s.grammar input middle (Account s.grammar input held (i + 1) m) := by
        cases active : slot.isActive s.options.version with
        | true => exact contained_builds accountable (contained active)
        | false =>
            obtain ⟨rfl, rfl, rfl⟩ := passed active
            exact builds_nil (.nil _)
      exact wrapper_builds ascending listed stands further
        ((accountable.account opened).account_append inside)
        (closed_builds accountable closing_eq closed)
  | balanced opened nonempty contained closed =>
      obtain ⟨-, -, -, type, closing_eq⟩ := wellFormed.placed _ _ stands
      exact wrapper_builds ascending listed stands further
        ((opened_builds accountable opened).account_append (contained_builds accountable contained))
        (closed_builds accountable closing_eq closed)
  | bare active matched => exact (pass rfl matched).tombstone
  | oneOf tried active admitted matched => exact (pass rfl matched).tombstone
  | iteration matched repeated =>
      exact node_builds ascending listed stands rfl rfl further
        ((accountable.account matched).account_append (repeated_builds accountable repeated))
  | iterationPart matched =>
      exact node_builds ascending listed stands rfl rfl further (accountable.account matched)
  | qualified member named =>
      exact node_builds ascending listed stands rfl rfl further
        (named_builds accountable named (Or.inl rfl)).tombstone
  | qualifiedPart member named =>
      exact node_builds ascending listed stands rfl rfl further
        (named_builds accountable named (Or.inr rfl))
  | reference matched => exact pass rfl matched

end Constructs

/-- **A match is accounted for**, at any level. -/
theorem recorded_builds {s : Setting} {input : Input} (wellFormed : s.grammar.WellFormed)
    (ascending : input.Ascending) (listed : input.Listed) (levels : Nat) {id : ElementId}
    {outer : Path} {complete : Bool} {i j : Nat} {events : List Event}
    (recorded : Recorded s input levels id outer complete i j events) :
    Builds s.grammar input events (Accounted s.grammar input id complete i j) := by
  induction levels generalizing id outer complete i j events with
  | zero => exact recorded.elim
  | succ levels ih =>
      obtain ⟨further, kind, stands, leaves⟩ := recorded
      exact leaves_builds (fun slot item complete i j events matched => ih matched) wellFormed
        ascending listed stands further leaves

end Dialect
