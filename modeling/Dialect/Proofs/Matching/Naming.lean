import Dialect.Proofs.Matching.Element

/-!
# How far a name goes

The elements of a variant of a qualified identifier are leaves: its parts, with the separator
between them (`nameItems`).  How many of them take the tokens from a position on does not depend
on the state of the parse (`Setting.fitting`): an identifier that is part of a name takes any
word that may be read as one, whether or not the word has been given free (`takes_of_named`).
So matching the parts of a variant goes equally far whenever it is done, and whether or not it
reports where it stops (`matchParts_spelled`, `Spelled.sums`).
-/

set_option autoImplicit false

namespace Dialect

variable {s : Setting} {input : Input} {outer path : Path} {id name separator : ElementId}
  {kind : Kind ElementId} {variants : List (List ElementId)} {p q : Progress}

/-! ### Leaves of a name -/

/-- Within a name it makes no difference whether the word was given free. -/
theorem takes_of_named (named : s.grammar.kind? name = some (.qualified variants separator))
    (stands : s.grammar.kind? id = some kind) (slot : Nat) (outer : Path) (waved : Bool)
    (position : Nat) :
    s.takes input (Path.enter (⟨name, slot⟩ :: outer) id) id kind waved position =
      s.takes input (Path.enter (⟨name, slot⟩ :: outer) id) id kind false position := by
  cases kind with
  | identifier use isAlias object =>
      obtain ⟨around, foundName, around_eq⟩ := element_of_kind? named
      obtain ⟨leaf, foundLeaf, -⟩ := element_of_kind? stands
      have enclosed : Path.enclosing s.grammar .qualifiedIdentifier
          (Path.enter (⟨name, slot⟩ :: outer) id) = .ok (some ⟨name, slot⟩) := by
        simp [Path.enclosing, Path.enter, Path.ancestors, Path.nearest, foundName, around_eq,
          Kind.nodeKind?, bind, Except.bind, pure, Except.pure]
      have reads : s.readsAsIdentifier input (Path.enter (⟨name, slot⟩ :: outer) id) id position =
          .ok true := by
        unfold Setting.readsAsIdentifier
        rw [foundLeaf, enclosed]
        cases defines : leaf.kind.isDefinition <;>
          simp [defines, bind, Except.bind, pure, Except.pure]
      simp only [Setting.takes, Setting.identifierTakes, reads]
      cases waved <;> rfl
  | _ => rfl

/-- A leaf that takes the token at the cursor changes nothing else but what is remembered. -/
theorem matchElement_takes (stage : Stage s input) (sound : p.Sound s.grammar input)
    (stands : s.grammar.kind? id = some kind) (leaf : kind.isLeaf = true)
    (quiet : p.failure = none) (free : s.Open p.depth) (levels : Nat) (outer : Path)
    (takes : s.takes input (outer.enter id) id kind p.atWaved p.cursor.position = .ok true) :
    ∃ memo, memo.Faithful s.grammar ∧ p.cursor.position < p.cursor.size ∧
      Matcher.matchElement s (levels + 1) id outer p = .ok (.fullMatch 1)
        { p with cursor := p.cursor.extend 1 (input.leaf id p.cursor.position), memo } := by
  obtain ⟨element, found, rfl⟩ := element_of_kind? stands
  have decided : Decides s.grammar id _ p.entered
      (s.takes input (outer.enter id) id element.kind p.atWaved p.cursor.position) :=
    leaf_decides stage sound.entered leaf (Matcher.matchElement s levels) id (outer.enter id)
  rw [takes] at decided
  obtain ⟨memo, kept, ran⟩ := decided
  obtain ⟨below, -⟩ := leaves_of_takes (fun _ _ _ _ _ _ => True) takes
  rw [← sound.reads] at below
  have took : Matcher.takeLeaf id { p.entered with memo } = _ := takeLeaf_eq below
  rw [matchElement_entered quiet free found, bind_apply, ran, took]
  refine ⟨memo, kept, below, ?_⟩
  rw [← sound.reads]
  rfl

/-- A leaf takes the token at the cursor, or passes it over, or ends with a fault, as the answer
says. -/
def TakesOne (g : Grammar) (input : Input) (id : ElementId) (p : Progress)
    (result : EStateM.Result Fault Progress Outcome) : Except Fault Bool → Prop
  | .ok true => ∃ q, result = .ok (.fullMatch 1) q ∧
      Proceeds g True p 1 (input.leaf id p.cursor.position) q
  | .ok false => ∃ q, result = .ok .noMatch q ∧ Proceeds g True p 0 [] q
  | .error fault => ∃ q, result = .error fault q

theorem matchElement_takesOne (stage : Stage s input) (sound : p.Sound s.grammar input)
    (stands : s.grammar.kind? id = some kind) (leaf : kind.isLeaf = true)
    (quiet : p.failure = none) (free : s.Open p.depth) (levels : Nat) (outer : Path) :
    TakesOne s.grammar input id p (Matcher.matchElement s (levels + 1) id outer p)
      (s.takes input (outer.enter id) id kind p.atWaved p.cursor.position) := by
  obtain ⟨element, found, rfl⟩ := element_of_kind? stands
  have decided : Decides s.grammar id _ p.entered
      (s.takes input (outer.enter id) id element.kind p.atWaved p.cursor.position) :=
    leaf_decides stage sound.entered leaf (Matcher.matchElement s levels) id (outer.enter id)
  have entered := matchElement_entered quiet free found levels outer
  -- What the leaf decides on its token is what the run comes to.
  cases takes : s.takes input (outer.enter id) id element.kind p.atWaved p.cursor.position with
  | error fault =>
      rw [takes] at decided
      obtain ⟨r, failed⟩ := decided
      rw [entered, bind_apply, failed]
      exact ⟨r, rfl⟩
  | ok taken =>
      cases taken with
      | true =>
          obtain ⟨memo, kept, below, ran⟩ :=
            matchElement_takes stage sound stands leaf quiet free levels outer takes
          rw [ran]
          exact ⟨_, rfl, ⟨rfl, rfl, fun _ member => member, fun _ => rfl, fun _ none => none⟩, rfl,
            below, kept⟩
      | false =>
          rw [takes] at decided
          obtain ⟨memo, waved, kept, free, passed⟩ := decided
          rw [entered, bind_apply, passed]
          exact ⟨_, rfl, ⟨rfl, rfl, free, fun _ => rfl, fun _ none => none⟩,
            Cursor.extend_zero.symm, (Proceeds.refl True sound).inside, kept⟩

/-! ### The elements of a name -/

/-- The elements of a variant from place `index` on, each with the slot at which it stands. -/
def nameItems (separator : ElementId) : List ElementId → (index : Nat) → List (ElementId × Nat)
  | [], _ => []
  | part :: rest, 0 => (part, 0) :: nameItems separator rest 1
  | part :: rest, index + 1 =>
      (separator, index + 1) :: (part, index + 1) :: nameItems separator rest (index + 2)

theorem length_nameItems_succ (separator : ElementId) (parts : List ElementId) (index : Nat) :
    (nameItems separator parts (index + 1)).length = 2 * parts.length := by
  induction parts generalizing index with
  | nil => rfl
  | cons part rest ih =>
      simp only [nameItems, List.length_cons, ih]
      omega

theorem length_nameItems (separator : ElementId) (parts : List ElementId) :
    (nameItems separator parts 0).length = 2 * parts.length - 1 := by
  cases parts with
  | nil => rfl
  | cons part rest =>
      simp only [nameItems, List.length_cons, length_nameItems_succ]
      omega

namespace Setting

variable (s : Setting) (input : Input) (path : Path)

/-- Whether an element of a name takes the token at a position. -/
def itemTakes (item : ElementId × Nat) (position : Nat) : Except Fault Bool :=
  match s.grammar.kind? item.1 with
  | some kind => s.takes input ((path.moveTo item.2).enter item.1) item.1 kind false position
  | none => return false

/-- How many elements of a name take the tokens from a position on, one after the other. -/
def fitting : List (ElementId × Nat) → (position : Nat) → Except Fault Nat
  | [], _ => return 0
  | item :: rest, position => do
      if ← s.itemTakes input path item position then
        return (← fitting rest (position + 1)) + 1
      else return 0

end Setting

/-- What is said of a variant that `tokens` were taken for when an element is missing. -/
def broken (tokens : Nat) : Outcome := if tokens = 0 then .noMatch else .partialMatch tokens

/-- How matching the elements of a name goes on from `p`, `tokens` having been taken before. -/
inductive Spelled (s : Setting) (input : Input) (path : Path) (report : Bool) :
    List (ElementId × Nat) → (tokens : Nat) → Progress →
      EStateM.Result Fault Progress Outcome → Prop
  | done {tokens p} : Spelled s input path report [] tokens p (.ok (.fullMatch tokens) p)
  | fault {item rest tokens p fault q}
      (raised : s.itemTakes input path item p.cursor.position = .error fault) :
      Spelled s input path report (item :: rest) tokens p (.error fault q)
  | miss {item rest tokens p q}
      (declined : s.itemTakes input path item p.cursor.position = .ok false)
      (moved : Proceeds s.grammar True p 0 [] q) :
      Spelled s input path report (item :: rest) tokens p ((do
        Matcher.missingPart s report item.1
        return broken tokens : Matcher Outcome) q)
  | take {item rest tokens p q result}
      (taken : s.itemTakes input path item p.cursor.position = .ok true)
      (moved : Proceeds s.grammar True p 1 (input.leaf item.1 p.cursor.position) q)
      (others : Spelled s input path report rest (tokens + 1) q result) :
      Spelled s input path report (item :: rest) tokens p result

/-- Records none of whose events is a diagnostic. -/
def Clean (events : List Event) : Prop := ∀ diagnostic, Event.diagnostic diagnostic ∉ events

theorem Clean.leaf (input : Input) (id : ElementId) (position : Nat) {events : List Event}
    (clean : Clean events) : Clean (input.leaf id position ++ events) := by
  intro diagnostic member
  rcases List.mem_append.1 member with own | further
  · simp [Input.leaf] at own
  · exact clean diagnostic further

/-- What a name comes to, by how many of its elements fit. -/
theorem Spelled.sums {report : Bool} {items : List (ElementId × Nat)} {tokens : Nat}
    {result : EStateM.Result Fault Progress Outcome}
    (spelled : Spelled s input path report items tokens p result)
    (sound : p.Sound s.grammar input) :
    (∃ fault q, s.fitting input path items p.cursor.position = .error fault ∧
      result = .error fault q) ∨
    (∃ events q, s.fitting input path items p.cursor.position = .ok items.length ∧ Clean events ∧
      Proceeds s.grammar True p items.length events q ∧
      result = .ok (.fullMatch (tokens + items.length)) q) ∨
    ∃ n item events q, s.fitting input path items p.cursor.position = .ok n ∧
      items[n]? = some item ∧ Clean events ∧ Proceeds s.grammar True p n events q ∧
      result = (do
        Matcher.missingPart s report item.1
        return broken (tokens + n) : Matcher Outcome) q := by
  induction spelled with
  | @done tokens p =>
      exact .inr (.inl ⟨[], p, rfl, fun _ => List.not_mem_nil, .refl True sound, rfl⟩)
  | @fault item rest tokens p fault q raised =>
      exact .inl ⟨fault, q, by simp [Setting.fitting, raised, bind, Except.bind], rfl⟩
  | @miss item rest tokens p q declined moved =>
      exact .inr (.inr ⟨0, item, [], q,
        by simp [Setting.fitting, declined, bind, Except.bind, pure, Except.pure], rfl,
        fun _ => List.not_mem_nil, moved, rfl⟩)
  | @take item rest tokens p q result taken moved others ih =>
      -- One item more has been taken, so both sides count one more.
      have fits : s.fitting input path (item :: rest) p.cursor.position =
          (do return (← s.fitting input path rest q.cursor.position) + 1) := by
        rw [moved.position]
        simp [Setting.fitting, taken, bind, Except.bind]
      rcases ih (moved.sound sound) with ⟨fault, t, stops, failed⟩ |
        ⟨events, t, all, clean, movedOn, ended⟩ | ⟨n, missed, events, t, some, found, clean,
          movedOn, ended⟩
      · exact .inl ⟨fault, t, by rw [fits, stops]; rfl, failed⟩
      · refine .inr (.inl ⟨_, t, by rw [fits, all]; rfl, clean.leaf input item.1 p.cursor.position, ?_, ?_⟩)
        · rw [List.length_cons, Nat.add_comm]
          exact moved.trans movedOn
        · rw [ended, List.length_cons, Nat.add_assoc, Nat.add_comm 1]
      · refine .inr (.inr ⟨n + 1, missed, _, t, by rw [fits, some]; rfl, found,
          clean.leaf input item.1 p.cursor.position, ?_, ?_⟩)
        · rw [Nat.add_comm]
          exact moved.trans movedOn
        · rw [ended, Nat.add_assoc, Nat.add_comm 1]

/-! ### Matching the parts of a name -/

section Parts

variable (stage : Stage s input)
  (named : s.grammar.kind? name = some (.qualified variants separator)) {report : Bool}
  {levels slot tokens : Nat} {item : ElementId} {rest : List (ElementId × Nat)}

include stage named

theorem item_takesOne (sound : p.Sound s.grammar input)
    (leaf : ∃ kind, s.grammar.kind? item = some kind ∧ kind.isLeaf = true)
    (quiet : p.failure = none) (free : s.Open p.depth) (levels slot : Nat) (outer : Path) :
    TakesOne s.grammar input item p
      (Matcher.matchElement s (levels + 1) item ((outer.enter name).moveTo slot) p)
      (s.itemTakes input (outer.enter name) (item, slot) p.cursor.position) := by
  obtain ⟨kind, stands, leaf⟩ := leaf
  have takesOne := matchElement_takesOne stage sound stands leaf quiet free levels
    ((outer.enter name).moveTo slot)
  have same : s.takes input (((outer.enter name).moveTo slot).enter item) item kind p.atWaved
      p.cursor.position = _ := takes_of_named named stands slot outer p.atWaved p.cursor.position
  rw [same] at takesOne
  rw [Setting.itemTakes, stands]
  exact takesOne

/-- An element of a name that is attempted before the others. -/
theorem spelled_item {next : Matcher Outcome} (sound : p.Sound s.grammar input)
    (leaf : ∃ kind, s.grammar.kind? item = some kind ∧ kind.isLeaf = true)
    (quiet : p.failure = none) (free : s.Open p.depth)
    (others : ∀ q, q.Sound s.grammar input → q.failure = none → q.depth = p.depth →
      Spelled s input (outer.enter name) report rest (tokens + 1) q (next q)) :
    Spelled s input (outer.enter name) report ((item, slot) :: rest) tokens p ((do
      let outcome ← Matcher.matchElement s (levels + 1) item ((outer.enter name).moveTo slot)
      if !outcome.isMatch then
        Matcher.missingPart s report item
        return broken tokens
      next : Matcher Outcome) p) := by
  have takesOne := item_takesOne stage named sound leaf quiet free levels slot outer
  rw [bind_apply]
  cases answer : s.itemTakes input (outer.enter name) (item, slot) p.cursor.position with
  | error fault =>
      rw [answer] at takesOne
      obtain ⟨q, failed⟩ := takesOne
      rw [failed]
      exact .fault answer
  | ok taken =>
      rw [answer] at takesOne
      cases taken with
      | false =>
          obtain ⟨q, passed, moved⟩ := takesOne
          rw [passed]
          exact .miss answer moved
      | true =>
          obtain ⟨q, took, moved⟩ := takesOne
          rw [took]
          exact .take answer moved (others q (moved.sound sound)
            (moved.keeps.quiet trivial quiet) moved.keeps.depth)

/-- The parts of a variant from place `index` on are matched element by element. -/
theorem matchParts_spelled {parts : List ElementId} (sound : p.Sound s.grammar input)
    (leaves : ∀ part ∈ parts, ∃ kind, s.grammar.kind? part = some kind ∧ kind.isLeaf = true)
    (quiet : p.failure = none) (free : s.Open p.depth) {index : Nat}
    (begun : index = 0 ↔ tokens = 0) :
    Spelled s input (outer.enter name) report (nameItems separator parts index) tokens p
      (Matcher.matchParts s (Matcher.matchElement s (levels + 1)) (outer.enter name) separator
        report parts index tokens p) := by
  obtain ⟨-, -, -, type, separates⟩ := stage.wellFormed.placed name _ named
  induction parts generalizing index tokens p with
  | nil => exact .done
  | cons part rest ih =>
      have here := leaves part List.mem_cons_self
      have further : ∀ other ∈ rest, ∃ kind, s.grammar.kind? other = some kind ∧
          kind.isLeaf = true := fun other member => leaves other (List.mem_cons_of_mem _ member)
      -- Only the first part stands without a separator before it.
      cases index with
      | zero =>
          obtain rfl := begun.1 rfl
          exact spelled_item stage named sound here quiet free fun q soundHere quietHere level =>
            ih soundHere further quietHere (level ▸ free) (by simp)
      | succ index =>
          have some : tokens ≠ 0 := fun none => Nat.succ_ne_zero index (begun.2 none)
          have broken_eq : broken tokens = .partialMatch tokens := if_neg some
          unfold Matcher.matchParts
          dsimp only
          rw [if_neg (Nat.succ_ne_zero index), if_neg (Nat.succ_ne_zero index), map_eq_pure_bind,
            bind_assoc]
          simp only [pure_bind, ← broken_eq]
          refine spelled_item stage named sound ⟨_, separates, rfl⟩ quiet free
            fun q soundHere quietHere level => ?_
          exact spelled_item stage named soundHere here quietHere (level ▸ free)
            fun r soundThere quietThere deep =>
              ih soundThere further quietThere (deep ▸ level ▸ free) (by simp)

/-- What a variant comes to if so many of its elements fit. -/
def nameOutcome (variant : List ElementId) (n : Nat) : Outcome :=
  if n = 2 * variant.length - 1 then .fullMatch n else broken n

variable (outer) in
/-- Matching a variant in silence goes as far as its elements fit. -/
theorem matchParts_silent {variant : List ElementId} (sound : p.Sound s.grammar input)
    (leaves : ∀ part ∈ variant, ∃ kind, s.grammar.kind? part = some kind ∧ kind.isLeaf = true)
    (quiet : p.failure = none) (free : s.Open p.depth) (levels : Nat) :
    (∃ fault q, s.fitting input (outer.enter name) (nameItems separator variant 0)
        p.cursor.position = .error fault ∧
      Matcher.matchParts s (Matcher.matchElement s (levels + 1)) (outer.enter name) separator false
        variant 0 0 p = .error fault q) ∨
    ∃ n events q, s.fitting input (outer.enter name) (nameItems separator variant 0)
        p.cursor.position = .ok n ∧
      Matcher.matchParts s (Matcher.matchElement s (levels + 1)) (outer.enter name) separator false
        variant 0 0 p = .ok (nameOutcome variant n) q ∧
      n ≤ 2 * variant.length - 1 ∧ Clean events ∧ Proceeds s.grammar True p n events q := by
  have spelled : Spelled s input (outer.enter name) false (nameItems separator variant 0) 0 p
      (Matcher.matchParts s (Matcher.matchElement s (levels + 1)) (outer.enter name) separator false
        variant 0 0 p) :=
    matchParts_spelled stage named sound leaves quiet free Iff.rfl
  rcases spelled.sums sound with ⟨fault, q, stops, failed⟩ |
      ⟨events, q, all, clean, moved, ended⟩ | ⟨n, item, events, q, some, found, clean, moved, ended⟩
  · exact .inl ⟨fault, q, stops, failed⟩
  · rw [length_nameItems] at all moved ended
    refine .inr ⟨_, events, q, all, ?_, Nat.le_refl _, clean, moved⟩
    rw [ended, nameOutcome, if_pos rfl, Nat.zero_add]
  · have short := (List.getElem?_eq_some_iff.1 found).1
    rw [length_nameItems] at short
    refine .inr ⟨n, events, q, some, ?_, Nat.le_of_lt short, clean, moved⟩
    rw [ended, nameOutcome, if_neg (Nat.ne_of_lt short), Nat.zero_add]
    rfl

/-- Matching a variant once more goes equally far and reports where it stops. -/
theorem matchParts_reporting {variant : List ElementId} (sound : p.Sound s.grammar input)
    (leaves : ∀ part ∈ variant, ∃ kind, s.grammar.kind? part = some kind ∧ kind.isLeaf = true)
    (quiet : p.failure = none) (free : s.Open p.depth) (levels : Nat) {n : Nat}
    (fits : s.fitting input (outer.enter name) (nameItems separator variant 0)
      p.cursor.position = .ok n) (short : n < 2 * variant.length - 1) :
    ∃ item events q, item ∈ nameItems separator variant 0 ∧ Clean events ∧
      Proceeds s.grammar True p n events q ∧
      Matcher.matchParts s (Matcher.matchElement s (levels + 1)) (outer.enter name) separator true
        variant 0 0 p = (do
          Matcher.expected s .E0303 item.1
          return broken n : Matcher Outcome) q := by
  have spelled : Spelled s input (outer.enter name) true (nameItems separator variant 0) 0 p
      (Matcher.matchParts s (Matcher.matchElement s (levels + 1)) (outer.enter name) separator true
        variant 0 0 p) :=
    matchParts_spelled stage named sound leaves quiet free Iff.rfl
  rcases spelled.sums sound with ⟨fault, q, stops, -⟩ |
      ⟨events, q, all, -, -, -⟩ | ⟨k, item, events, q, some, found, clean, moved, ended⟩
  · rw [fits] at stops
    cases stops
  · rw [fits, length_nameItems] at all
    cases all
    exact absurd short (Nat.lt_irrefl _)
  · rw [fits] at some
    cases some
    rw [Nat.zero_add] at ended
    exact ⟨item, events, q, List.mem_of_getElem? found, clean, moved, ended⟩

end Parts

/-! ### Reporting where a name stops -/

theorem mem_nameItems {item : ElementId × Nat} {parts : List ElementId} {index : Nat}
    (member : item ∈ nameItems separator parts index) : item.1 = separator ∨ item.1 ∈ parts := by
  induction parts generalizing index with
  | nil => cases member
  | cons part rest ih =>
      cases index with
      | zero =>
          rcases List.mem_cons.1 member with rfl | further
          · exact .inr List.mem_cons_self
          · exact (ih further).imp_right (List.mem_cons_of_mem _)
      | succ index =>
          rcases List.mem_cons.1 member with rfl | further
          · exact .inl rfl
          · rcases List.mem_cons.1 further with rfl | behind
            · exact .inr List.mem_cons_self
            · exact (ih behind).imp_right (List.mem_cons_of_mem _)

/-- A fault is raised by asking for an element of a name only if a frame around is astray. -/
theorem raises_fitting (stage : Stage s input) {allowed : Fault → Prop}
    (inside : Path.Inside s.grammar (⟨name, 0⟩ :: outer))
    (named : s.grammar.kind? name = some (.qualified variants separator))
    (astray : ∀ frame ∈ outer, frame.Astray s.grammar → allowed (.uncountable (frame.slot + 1)))
    (items : List (ElementId × Nat)) (position : Nat) :
    Raises allowed (s.fitting input (outer.enter name) items position) := by
  induction items generalizing position with
  | nil => exact raises_ok 0
  | cons item rest ih =>
      have asked : Raises allowed (s.itemTakes input (outer.enter name) item position) := by
        unfold Setting.itemTakes
        cases stands : s.grammar.kind? item.1 with
        | none => exact raises_ok false
        | some kind =>
            have bound := Grammar.lt_of_kind?_eq_some stands
            refine raises_takes stage (fun frame member => ?_) (fun frame member stray => ?_) bound
              kind false position
            · rcases List.mem_cons.1 member with rfl | further
              · exact bound
              · rcases List.mem_cons.1 further with rfl | beyond
                · exact inside ⟨name, 0⟩ List.mem_cons_self
                · exact inside frame (List.mem_cons_of_mem _ beyond)
            · -- The frames of the leaf and of the name cannot be astray.
              rcases List.mem_cons.1 member with rfl | further
              · obtain ⟨-, -, -, beyond⟩ := stray
                exact absurd beyond (show ¬ countLimit ≤ 0 + 1 by decide)
              · rcases List.mem_cons.1 further with rfl | beyond
                · obtain ⟨slots, sequence, -⟩ := stray
                  cases named.symm.trans sequence
                · exact astray frame beyond stray
      unfold Setting.fitting
      refine raises_bind asked fun taken _ => raises_ite ?_ (raises_ok 0)
      exact raises_bind (ih _) fun _ _ => raises_ok _

end Dialect
