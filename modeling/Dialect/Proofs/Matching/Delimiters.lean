import Dialect.Proofs.Matching.Clean
import Dialect.Proofs.Tree.Building

/-!
# Delimiters

A delimiter is a token of a type that no identifier can claim (`Grammar.Delimiter`).  Whether it is
matched depends on the type of the current token alone, and matching it changes nothing but the
cursor (`delimiter_taken`, `delimiter_refused`).

So the loops of a wrapper can be followed token by token: as many opening delimiters are taken as
there are (`openAll_takes`), and as many closing ones as there are, but no more than were opened
(`closeAll_takes`).
-/

set_option autoImplicit false

namespace Dialect

namespace Input

variable (input : Input)

/-- The token at a position is taken as one of the type: it has the type, or it is the
placeholder. -/
def Suits (type : TokenTypeId) (position : Nat) : Prop :=
  (input.token? position).map Token.kind = some type ∨
    (input.cursorAt position).atPlaceholder = true

instance (type : TokenTypeId) (position : Nat) : Decidable (input.Suits type position) :=
  inferInstanceAs (Decidable (_ ∨ _))

/-- The events of leaves of one element that take the tokens from a position on. -/
def leaves (id : ElementId) : (count first : Nat) → List Event
  | 0, _ => []
  | count + 1, first => input.leaf id first ++ leaves id count (first + 1)

/-- The events of leaves of the listed elements, which take one token each from a position on. -/
def leavesOf : (ids : List ElementId) → (first : Nat) → List Event
  | [], _ => []
  | id :: rest, first => input.leaf id first ++ leavesOf rest (first + 1)

/-- The ranges are those of the tokens before a position, the last one first. -/
def RangesBefore (last : Nat) (ranges : List TextRange) : Prop :=
  ∀ (j : Nat) (range : TextRange), ranges[j]? = some range →
    (input.cursorAt (last - 1 - j)).currentRange = .ok range

end Input

/-- Where a delimiter is taken there is a token. -/
theorem Input.Suits.exists_token {input : Input} {type : TokenTypeId} {position : Nat}
    (suits : input.Suits type position) : ∃ token, input.token? position = some token := by
  rcases suits with same | marked
  · obtain ⟨token, there, -⟩ := Option.map_eq_some_iff.1 same
    exact ⟨token, there⟩
  · unfold Cursor.atPlaceholder at marked
    split at marked
    · exact ⟨_, ‹_›⟩
    · cases marked

/-- The element is a token of the given type, which is no reserved word that can be read as an
identifier. -/
structure Grammar.Delimiter (g : Grammar) (id : ElementId) (type : TokenTypeId) : Prop where
  stands : g.kind? id = some (.token type none none)
  held : g.vocabulary.has TokenType.isSuppressible type = false

/-! ### Rows of leaves -/

section Leaves

variable {g : Grammar} {input : Input} {id : ElementId}

theorem leavesOf_append (ids others : List ElementId) (first : Nat) :
    input.leavesOf (ids ++ others) first =
      input.leavesOf ids first ++ input.leavesOf others (first + ids.length) := by
  induction ids generalizing first with
  | nil => rfl
  | cons id rest ih =>
      simp only [List.cons_append, Input.leavesOf, ih, List.length_cons, List.append_assoc,
        Nat.add_comm rest.length, Nat.add_assoc]

/-- Leaves of one element are leaves of that element over and over. -/
theorem leaves_eq (id : ElementId) (count first : Nat) :
    input.leaves id count first = input.leavesOf (List.replicate count id) first := by
  induction count generalizing first with
  | zero => rfl
  | succ count ih => rw [Input.leaves, ih, List.replicate_succ, Input.leavesOf]

theorem clean_leavesOf (ids : List ElementId) (first : Nat) : Clean (input.leavesOf ids first) := by
  induction ids generalizing first with
  | nil => exact clean_nil
  | cons id rest ih => exact (ih (first + 1)).leaf input id first

theorem clean_leaves (count first : Nat) : Clean (input.leaves id count first) := by
  rw [leaves_eq]
  exact clean_leavesOf _ first

/-- Leaves that are taken one after the other are read as nodes without children. -/
theorem builds_leavesOf (ascending : input.Ascending) (listed : input.Listed)
    {ids : List ElementId} (leaves : ∀ id ∈ ids, ∃ kind label, g.kind? id = some kind ∧
      kind.nodeKind? = some label) {first : Nat} (inside : first + ids.length ≤ input.size) :
    Builds g input (input.leavesOf ids first) fun nodes found =>
      found = [] ∧ nodes.map Node.element = ids ∧ (∀ node ∈ nodes, node.children = []) ∧
        Row input first (first + ids.length) nodes := by
  induction ids generalizing first with
  | nil => exact builds_nil ⟨rfl, rfl, nofun, .nil first⟩
  | cons id rest ih =>
      rw [List.length_cons] at inside ⊢
      obtain ⟨kind, label, stands, label_eq⟩ := leaves id List.mem_cons_self
      have leaf : Builds g input (input.leaf id first) fun nodes found =>
          found = [] ∧ ∃ node, nodes = [node] ∧ node.Over input id label first (first + 1) [] :=
        builds_leaf ascending listed stands label_eq (by omega) fun node covers =>
          ⟨rfl, node, rfl, covers⟩
      have room : first + 1 + rest.length ≤ input.size := by omega
      refine leaf.append (ih (fun other member => leaves other (List.mem_cons_of_mem _ member))
        room) ?_
      rintro _ nodes _ _ ⟨rfl, node, rfl, covers⟩ ⟨rfl, elements, bare, row⟩
      have whole : first + 1 + rest.length = first + (rest.length + 1) := by omega
      refine ⟨rfl, by simp [covers.element_eq, elements], ?_, .cons covers.toSpans (whole ▸ row)⟩
      exact List.forall_mem_cons.2 ⟨covers.children_eq, bare⟩

/-- Leaves of one element are read as so many nodes. -/
theorem builds_leaves (ascending : input.Ascending) (listed : input.Listed)
    {kind : Kind ElementId} {label : NodeKind} (stands : g.kind? id = some kind)
    (label_eq : kind.nodeKind? = some label) {count first : Nat}
    (inside : first + count ≤ input.size) :
    Builds g input (input.leaves id count first) fun nodes found =>
      found = [] ∧ nodes.length = count ∧ Row input first (first + count) nodes := by
  have room : first + (List.replicate count id).length ≤ input.size := by
    rwa [List.length_replicate]
  have row := builds_leavesOf ascending listed
    (fun other member => ⟨kind, label, (List.eq_of_mem_replicate member).symm ▸ stands, label_eq⟩)
    room
  rw [leaves_eq]
  refine row.imp ?_
  rintro nodes found ⟨rfl, elements, -, row⟩
  rw [List.length_replicate] at row
  refine ⟨rfl, ?_, row⟩
  rw [← List.length_map (f := Node.element), elements, List.length_replicate]

end Leaves

section Delimiters

open Matcher

variable {s : Setting} {input : Input} {id : ElementId} {type : TokenTypeId} {p : Progress}
  (delimiter : s.grammar.Delimiter id type)

include delimiter

/-- A delimiter takes the current token if it has the type or is the placeholder. -/
theorem token_taken (wellFormed : s.grammar.WellFormed) (path : Path) {current : Token}
    (here : p.cursor.current? = some current)
    (suits : current.kind = type ∨ p.cursor.atPlaceholder = true) :
    token s id path type none none p = takeLeaf id p := by
  obtain ⟨word, found⟩ := get_of_lt (wellFormed.placed id _ delimiter.stands)
  have held : word.isSuppressible = false := by
    have known := delimiter.held
    rwa [Vocabulary.has, Vocabulary.get_eq_ok.1 found] at known
  unfold token
  rw [bind_of_ok cursor_eq, here]
  by_cases marked : p.cursor.atPlaceholder = true
  · simp only [marked, if_true]
  · simp only [marked, Bool.false_eq_true, if_false, suits.resolve_right marked, ne_eq,
      not_true_eq_false, Option.any_none]
    rw [found]
    refine (bind_of_ok (rfl : _ = EStateM.Result.ok word p) _).trans ?_
    rw [if_neg (by simp [held])]

omit delimiter in
/-- A delimiter is not matched at a token of another type. -/
theorem token_refused (path : Path) (unmarked : p.cursor.atPlaceholder = false)
    (other : ∀ current, p.cursor.current? = some current → current.kind ≠ type) :
    token s id path type none none p = .ok .noMatch p := by
  unfold token
  rw [bind_of_ok cursor_eq]
  cases here : p.cursor.current? with
  | none => rfl
  | some current =>
      simp only [unmarked, Bool.false_eq_true, if_false, ne_eq, other current here,
        not_false_eq_true, if_true]
      rfl

variable (quiet : p.failure = none) (free : s.Open p.depth) (levels : Nat) (outer : Path)

include quiet free

/-- **A delimiter is taken where its token stands**, and nothing changes but the cursor. -/
theorem delimiter_taken (wellFormed : s.grammar.WellFormed) (reads : p.cursor.input = input)
    (here : input.Suits type p.cursor.position) :
    matchElement s (levels + 1) id outer p =
      .ok (.fullMatch 1) (p.moveTo (p.cursor.extend 1 (input.leaf id p.cursor.position))) := by
  obtain ⟨element, found, kind_eq⟩ := element_of_kind? delimiter.stands
  obtain ⟨current, there⟩ := here.exists_token
  have inside : p.entered.cursor.position < p.entered.cursor.size := by
    have within := token?_lt_size there
    rwa [← reads] at within
  have stands : p.entered.cursor.current? = some current := by
    rw [← there, ← reads]
    rfl
  have suits : current.kind = type ∨ p.entered.cursor.atPlaceholder = true := by
    refine here.imp (fun same => ?_) fun marked => ?_
    · rw [there] at same
      exact Option.some.inj same
    · rwa [← reads] at marked
  have taken : matchKind s (matchElement s levels) id (outer.enter id) element.kind p.entered =
      .ok (.fullMatch 1)
        (p.entered.moveTo (p.cursor.extend 1 (input.leaf id p.cursor.position))) := by
    rw [kind_eq, matchKind, token_taken delimiter wellFormed _ stands suits, takeLeaf_eq inside,
      ← reads]
    rfl
  rw [matchElement_entered quiet free found, bind_of_ok taken, bind_of_ok (leave_eq rfl)]
  rfl

omit delimiter in
/-- **A delimiter is refused where no token stands that suits it**, and nothing changes. -/
theorem delimiter_refused (stands : s.grammar.kind? id = some (.token type none none))
    (reads : p.cursor.input = input) (other : ¬ input.Suits type p.cursor.position) :
    matchElement s (levels + 1) id outer p = .ok .noMatch p := by
  obtain ⟨element, found, kind_eq⟩ := element_of_kind? stands
  subst reads
  have unmarked : p.entered.cursor.atPlaceholder = false :=
    Bool.eq_false_iff.2 fun marked => other (.inr marked)
  have refused : matchKind s (matchElement s levels) id (outer.enter id) element.kind p.entered =
      .ok .noMatch p.entered := by
    rw [kind_eq, matchKind, token_refused _ unmarked fun current there same =>
      other (.inl (Option.map_eq_some_iff.2 ⟨current, there, same⟩))]
  rw [matchElement_entered quiet free found, bind_of_ok refused, bind_of_ok (leave_eq rfl)]
  rfl

end Delimiters

/-! ### The loops of a wrapper -/

section Loops

open Matcher

variable {s : Setting} {input : Input} {opening closing : ElementId} {type : TokenTypeId}
  {p : Progress} {levels : Nat} {frame : Frame} {outer : Path}
  (wellFormed : s.grammar.WellFormed) (quiet : p.failure = none)
  (free : s.Open p.depth) (reads : p.cursor.input = input)

/-- The state after so many leaves of one element have been taken. -/
def Progress.taking (p : Progress) (input : Input) (id : ElementId) (count : Nat) : Progress :=
  p.moveTo (p.cursor.extend count (input.leaves id count p.cursor.position))

theorem Progress.taking_zero (id : ElementId) : p.taking input id 0 = p := by
  rw [taking, Input.leaves, Cursor.extend_zero]
  rfl

/-- Leaves are taken one by one. -/
theorem Progress.taking_succ (id : ElementId) (count : Nat) :
    Progress.taking (p.moveTo (p.cursor.extend 1 (input.leaf id p.cursor.position))) input id count =
      p.taking input id (count + 1) := by
  unfold taking
  simp only [Progress.moveTo, Cursor.extend_position, Cursor.extend_extend, Input.leaves,
    Nat.add_comm 1 count]

/-- Leaves are taken at tokens. -/
theorem Progress.Sound.taking {g : Grammar} (sound : p.Sound g input) (id : ElementId) {count : Nat}
    (tokens : ∀ j < count, input.Suits type (p.cursor.position + j)) :
    (p.taking input id count).Sound g input := by
  refine ⟨sound.reads, ?_, sound.faithful⟩
  have inside := sound.inside
  cases count with
  | zero => exact inside
  | succ count =>
      obtain ⟨last, there⟩ := (tokens count (Nat.lt_succ_self count)).exists_token
      exact token?_lt_size there

include wellFormed quiet free reads

/-- **As many opening delimiters are taken as there are**, with the ranges of their tokens, unless a
token has no range. -/
theorem openAll_takes (delimiter : s.grammar.Delimiter opening type) {k rounds : Nat}
    (opens : ∀ j < k, input.Suits type (p.cursor.position + j))
    (ends : ¬ input.Suits type (p.cursor.position + k)) (enough : k < rounds)
    (opened : List TextRange) :
    Ensures (Excused s.grammar input [])
      (openAll (matchElement s (levels + 1)) (frame :: outer) opening rounds opened) p
      fun ranges q => q = p.taking input opening k ∧ ∃ taken, ranges = taken ++ opened ∧
        taken.length = k ∧ input.RangesBefore (p.cursor.position + k) taken := by
  obtain ⟨rounds, rfl⟩ : ∃ further, rounds = further + 1 := ⟨rounds - 1, by omega⟩
  have range_eq : p.cursor.currentRange = (input.cursorAt p.cursor.position).currentRange := by
    rw [← reads]
    rfl
  induction k generalizing p rounds opened with
  | zero =>
      refine ensures_bind_of_ok cursor_eq ?_
      rw [range_eq]
      refine ensures_bind_check (raises_currentRange input _) fun range _ => ?_
      refine ensures_bind_of_ok (delimiter_refused quiet free levels _ delimiter.stands reads ends) ?_
      exact ensures_pure ⟨(p.taking_zero opening).symm, [], rfl, rfl, nofun⟩
  | succ k ih =>
      obtain ⟨rounds, rfl⟩ : ∃ further, rounds = further + 1 := ⟨rounds - 1, by omega⟩
      refine ensures_bind_of_ok cursor_eq ?_
      rw [range_eq]
      refine ensures_bind_check (raises_currentRange input _) fun range ranged => ?_
      refine ensures_bind_of_ok (delimiter_taken delimiter quiet free levels _ wellFormed reads
        (opens 0 (Nat.succ_pos k))) ?_
      -- The others stand one position further on.
      have whole : p.cursor.position + 1 + k = p.cursor.position + (k + 1) := by omega
      have later : ∀ j < k, input.Suits type (p.cursor.position + 1 + j) := by
        intro j before
        have there := opens (j + 1) (Nat.succ_lt_succ before)
        rwa [Nat.add_assoc, Nat.add_comm 1]
      refine (ih (p := p.moveTo (p.cursor.extend 1 (input.leaf opening p.cursor.position))) quiet free
        reads later (whole ▸ ends) (range :: opened) rounds (by omega) (by rw [← reads]; rfl)).imp ?_
      rintro ranges q ⟨rfl, taken, rfl, length, ranges_eq⟩
      refine ⟨p.taking_succ opening k, taken ++ [range], by simp, by simp [length], ?_⟩
      intro j found place
      rcases Nat.lt_or_ge j k with before | behind
      · rw [List.getElem?_append_left (by omega)] at place
        rw [← whole]
        exact ranges_eq j found place
      · rw [List.getElem?_append_right (by omega), length] at place
        obtain ⟨inside, rfl⟩ := List.getElem?_eq_some_iff.1 place
        obtain rfl : j = k := by
          rw [List.length_singleton] at inside
          omega
        have here : p.cursor.position + (j + 1) - 1 - j = p.cursor.position := by omega
        simpa [here] using ranged

/-- **As many closing delimiters are taken as there are**, but no more than were opened. -/
theorem closeAll_takes (delimiter : s.grammar.Delimiter closing type) {m : Nat}
    (opened : List TextRange) (closes : ∀ j < m, input.Suits type (p.cursor.position + j))
    (ends : m < opened.length → ¬ input.Suits type (p.cursor.position + m)) :
    closeAll (matchElement s (levels + 1)) (frame :: outer) closing opened p =
      .ok (min opened.length m, opened.drop m)
        (p.taking input closing (min opened.length m)) := by
  induction opened generalizing p m with
  | nil =>
      rw [List.length_nil, Nat.zero_min, List.drop_nil, p.taking_zero closing]
      rfl
  | cons range others ih =>
      unfold closeAll
      cases m with
      | zero =>
          have other : ¬ input.Suits type p.cursor.position := ends (Nat.succ_pos _)
          rw [bind_of_ok (delimiter_refused quiet free levels _ delimiter.stands reads other),
            Nat.min_zero, List.drop_zero, p.taking_zero closing]
          rfl
      | succ m =>
          have later : ∀ j < m, input.Suits type (p.cursor.position + 1 + j) := by
            intro j before
            have there := closes (j + 1) (Nat.succ_lt_succ before)
            rwa [Nat.add_assoc, Nat.add_comm 1]
          have whole : p.cursor.position + 1 + m = p.cursor.position + (m + 1) := by omega
          have rest := ih (p := p.moveTo (p.cursor.extend 1 (input.leaf closing p.cursor.position)))
            quiet free reads later (fun few => whole ▸ ends (Nat.succ_lt_succ few))
          rw [p.taking_succ closing] at rest
          rw [bind_of_ok (delimiter_taken delimiter quiet free levels _ wellFormed reads
            (closes 0 (Nat.succ_pos m))), List.length_cons, Nat.succ_min_succ, List.drop_succ_cons]
          exact bind_of_ok rest _

end Loops

end Dialect
