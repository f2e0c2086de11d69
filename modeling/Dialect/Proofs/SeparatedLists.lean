import Dialect.Proofs.Accounting
import Dialect.Proofs.Matching.Counting
import Dialect.Proofs.Matching.Run
import Dialect.Proofs.Matching.Separated

/-!
# Separated lists of any length

An iteration of leaves with a separator ends in one of two ways, and they differ in no more than
whether a separator was taken last.  If none follows an item the list is complete, and nothing is
reported.  If one does, and no item behind it, the separator is kept, the match is incomplete, and
exactly one diagnostic is made, where the item is missing (`iteration_lists`).
-/

set_option autoImplicit false

namespace Dialect

/-! ### The nodes of lists -/

/-- A node of an iteration, with leaves of the listed elements as its children. -/
structure Node.Holds (id : ElementId) (ids : List ElementId) (node : Node) : Prop where
  element_eq : node.element = id
  kind_eq : node.kind = .iteration
  children_eq : node.children.map Node.element = ids
  bare : ∀ child ∈ node.children, child.children = []

/-- The record of an iteration that has taken leaves of the listed elements, and made a note of what
is missing behind them. -/
def Input.iterated (input : Input) (id : ElementId) (ids : List ElementId) (first : Nat)
    (notes : List Diagnostic) : List Event :=
  input.node id first (input.leavesOf ids first ++ notes.map .diagnostic)

/-- What was noted is all that is reported. -/
theorem mem_iterated {input : Input} {id : ElementId} {ids : List ElementId} {first : Nat}
    {notes : List Diagnostic} {found : Diagnostic}
    (member : .diagnostic found ∈ input.iterated id ids first notes) : found ∈ notes := by
  rcases List.mem_append.1 member with inside | last
  · rcases List.mem_cons.1 inside with head | further
    · cases head
    · rcases List.mem_append.1 further with leaf | note
      · exact absurd leaf (clean_leavesOf ids first found)
      · simpa using note
  · simp at last

/-- Without a note nothing is reported. -/
theorem clean_iterated (input : Input) (id : ElementId) (ids : List ElementId) (first : Nat) :
    Clean (input.iterated id ids first []) :=
  fun _ member => List.not_mem_nil (mem_iterated member)

theorem builds_notes {g : Grammar} {input : Input} (notes : List Diagnostic) :
    Builds g input (notes.map .diagnostic) fun nodes found => nodes = [] ∧ found = notes := by
  induction notes with
  | nil => exact builds_nil ⟨rfl, rfl⟩
  | cons note rest ih =>
      have one : Builds g input [.diagnostic note] fun nodes found => nodes = [] ∧ found = [note] :=
        builds_diagnostic ⟨rfl, rfl⟩
      refine one.append ih ?_
      rintro _ _ _ _ ⟨rfl, rfl⟩ ⟨rfl, rfl⟩
      exact ⟨rfl, rfl⟩

/-- The record of an iteration is read as its node, and what was noted is kept. -/
theorem builds_iterated {g : Grammar} {input : Input} (ascending : input.Ascending)
    (listed : input.Listed) {id : ElementId} {kind : Kind ElementId}
    (stands : g.kind? id = some kind) (label_eq : kind.nodeKind? = some .iteration)
    {ids : List ElementId} (leaves : ∀ id ∈ ids, ∃ kind label, g.kind? id = some kind ∧
      kind.nodeKind? = some label) {first : Nat} (inside : first + ids.length ≤ input.size)
    (positive : 0 < ids.length) (notes : List Diagnostic) :
    Builds g input (input.iterated id ids first notes) fun nodes found =>
      found = notes ∧ ∃ node, nodes = [node] ∧ node.Holds id ids := by
  have children : Builds g input (input.leavesOf ids first ++ notes.map .diagnostic)
      fun nodes found => found = notes ∧ nodes.map Node.element = ids ∧
        (∀ node ∈ nodes, node.children = []) ∧ Row input first (first + ids.length) nodes := by
    refine (builds_leavesOf ascending listed leaves inside).append (builds_notes notes) ?_
    rintro nodes _ _ _ ⟨rfl, elements, bare, row⟩ ⟨rfl, rfl⟩
    rw [List.append_nil]
    exact ⟨rfl, elements, bare, row⟩
  refine builds_node ascending listed stands label_eq (Nat.lt_add_of_pos_right positive) children
    (fun _ _ held => held.2.2.2) ?_
  rintro node nodes found covers ⟨rfl, elements, bare, -⟩
  have children_eq := covers.children_eq
  exact ⟨rfl, node, rfl, covers.element_eq, covers.kind_eq, children_eq ▸ elements,
    children_eq ▸ bare⟩

/-! ### The statement -/

/-- What an iteration comes to where a complete list stands: nothing is reported. -/
inductive ListEnds (g : Grammar) (input : Input) (id item between : ElementId) (before : Cursor)
    (k : Nat) : EStateM.Result Fault Progress Outcome → Prop
  | whole {q : Progress} {events : List Event} (quiet : q.failure = none)
      (moved : q.cursor = before.extend (2 * k + 1) events) (clean : Clean events)
      (tree : Builds g input events fun nodes found => found = [] ∧ ∃ node, nodes = [node] ∧
        node.Holds id (listIds item between k) ∧ node.children.length = 2 * k + 1) :
      ListEnds g input id item between before k (.ok (.fullMatch (2 * k + 1)) q)

/-- What an iteration comes to where a list ends with a separator. -/
inductive ListLacks (g : Grammar) (input : Input) (id item between : ElementId) (before : Cursor)
    (k : Nat) : EStateM.Result Fault Progress Outcome → Prop
  /-- The separator is kept, and the item behind it is reported missing, and nothing else. -/
  | reported {q : Progress} {only : Diagnostic} (quiet : q.failure = none)
      (moved : q.cursor = before.extend (2 * k + 2) (input.iterated id
        (listIds item between k ++ [between]) before.position [only]))
      (alone : ∀ other, .diagnostic other ∈ input.iterated id (listIds item between k ++ [between])
        before.position [only] → other = only)
      (code : only.code = .E0302)
      (place : input.RangeAt (before.position + 2 * k + 2) only.range)
      (tree : Builds g input (input.iterated id (listIds item between k ++ [between])
        before.position [only]) fun nodes found => found = [only] ∧ ∃ node, nodes = [node] ∧
          node.Holds id (listIds item between k ++ [between])) :
      ListLacks g input id item between before k (.ok (.partialMatch (2 * k + 2)) q)
  /-- The token where the item is missing, or at the end of the input the last token, ends beyond
  the offsets that can be counted. -/
  | beyond {q : Progress} {token : Token}
      (there : input.token? (before.position + 2 * k + 2) = some token ∨
        input.token? (before.position + 2 * k + 2) = none ∧ input.tokens.back? = some token)
      (far : TextRange.offsetLimit ≤ token.offset + token.text.utf8ByteSize) :
      ListLacks g input id item between before k (.error .textRange q)

/-- The elements of a list are leaves. -/
theorem leaves_of_listIds {g : Grammar} {item between : ElementId} {kind : Kind ElementId}
    {type : TokenTypeId} (stands : g.kind? item = some kind) (leaf : kind.isLeaf = true)
    (delimiter : g.Delimiter between type) (k : Nat) :
    ∀ id ∈ listIds item between k ++ [between], ∃ kind label,
      g.kind? id = some kind ∧ kind.nodeKind? = some label := by
  intro id member
  have known : id = item ∨ id = between := by
    simp only [listIds, List.mem_append, List.mem_cons, List.mem_flatten, List.mem_replicate,
      List.not_mem_nil, or_false] at member
    rcases member with (rfl | ⟨_, ⟨-, rfl⟩, member⟩) | rfl
    · exact .inl rfl
    · simp only [List.mem_cons, List.not_mem_nil, or_false] at member
      exact member.symm
    · exact .inr rfl
  rcases known with rfl | rfl
  · cases kind with
    | token => exact ⟨_, _, stands, rfl⟩
    | identifier => exact ⟨_, _, stands, rfl⟩
    | _ => cases leaf
  · exact ⟨_, _, delimiter.stands, rfl⟩

section Runs

open Matcher

variable {s : Setting} {input : Input} {id item between : ElementId} {kind : Kind ElementId}
  {type : TokenTypeId} {outer : Path} {p : Progress} {k : Nat} (stage : Stage s input)
  (stands : s.grammar.kind? id = some (.iteration item (some between)))
  (itemStands : s.grammar.kind? item = some kind) (leaf : kind.isLeaf = true)
  (delimiter : s.grammar.Delimiter between type) (sound : p.Sound s.grammar input)
  (quiet : p.failure = none) (free : s.Open (p.depth + 1))
  (listing : Listing s input ((outer.enter id).moveTo 0) item kind type p k)

include stage stands itemStands leaf delimiter sound quiet free listing

/-- The list is taken, and the iteration is completed with what its loop adds behind it. -/
theorem list_taken (levels : Nat) :
    ∃ q rest, p.entered.marked.Passes s.grammar (2 * k + 1)
        (input.leavesOf (listIds item between k) p.cursor.position) q ∧
      (∀ fault r, repeatItem s (matchElement s (levels + 1)) (outer.enter id) item (some between)
          (rest + 1) (2 * k + 1) q = .error fault r →
        matchElement s (levels + 2) id outer p = .error fault r) ∧
      ∀ tally r n events, repeatItem s (matchElement s (levels + 1)) (outer.enter id) item
          (some between) (rest + 1) (2 * k + 1) q = .ok tally r →
        r.depth = q.depth → r.cursor = q.cursor.extend n events →
        matchElement s (levels + 2) id outer p = .ok tally.outcome
          { r with
            cursor := p.cursor.extend (2 * k + 1 + n) (input.node id p.cursor.position
              (input.leavesOf (listIds item between k) p.cursor.position ++ events))
            depth := p.depth } := by
  obtain ⟨element, found, kind_eq⟩ := element_of_kind? stands
  have open_here : s.Open p.depth := ⟨free.1, Nat.lt_of_succ_lt free.2⟩
  obtain ⟨q, rest, passed, ran⟩ := iteration_takes (p := p.entered) stage itemStands leaf delimiter
    sound.entered quiet free ⟨listing.items, listing.separators⟩ levels id
  rw [matchElement_entered quiet open_here found, kind_eq, matchKind]
  refine ⟨q, rest, passed, fun fault r failed => ?_,
    fun tally r n events looped depth added => ?_⟩
  · exact bind_of_error (ran.trans (bind_of_error failed _)) _
  · have whole : r.cursor = p.entered.cursor.marked.extend (2 * k + 1 + n)
        (input.leavesOf (listIds item between k) p.cursor.position ++ events) := by
      rw [added, passed.cursor, Cursor.extend_extend]
      rfl
    have closed := Progress.complete_eq sound.entered whole id
    have done := ran.trans ((bind_of_ok looped _).trans (bind_of_ok closed _))
    refine (bind_of_ok done _).trans (bind_of_ok (leave_eq ?_) _)
    exact depth.trans passed.depth

variable (ascending : input.Ascending) (listed : input.Listed)

include ascending listed

/-- A list that no separator follows is complete. -/
theorem list_ends (ends : ¬ input.Suits type (p.cursor.position + 2 * k + 1)) (levels : Nat) :
    ListEnds s.grammar input id item between p.cursor k
      (matchElement s (levels + 2) id outer p) := by
  obtain ⟨q, rest, passed, -, completed⟩ := list_taken stage stands itemStands leaf delimiter sound
    quiet free listing levels
  have soundThere : q.Sound s.grammar input := passed.sound sound.entered.marked
  have place : q.cursor.position = p.cursor.position + 2 * k + 1 := passed.position
  rw [← place] at ends
  have looped : repeatItem s (matchElement s (levels + 1)) (outer.enter id) item (some between)
      (rest + 1) (2 * k + 1) q = .ok ⟨2 * k + 1, true⟩ q :=
    repeatItem_ends (passed.failure.trans quiet) (passed.depth.symm ▸ free) delimiter.stands
      soundThere.reads ends levels rest _
  rw [completed _ q 0 [] looped rfl Cursor.extend_zero.symm]
  have length := length_listIds item between k
  have inside := listing.inside
  have tree := builds_iterated ascending listed stands rfl
    (fun other member => leaves_of_listIds itemStands leaf delimiter k other
      (List.mem_append_left _ member))
    (show p.cursor.position + _ ≤ input.size by omega) (by omega) []
  refine .whole (passed.failure.trans quiet) rfl (clean_iterated input id _ _) (tree.imp ?_)
  rintro nodes found ⟨rfl, node, rfl, holds⟩
  refine ⟨rfl, node, rfl, holds, ?_⟩
  rw [← List.length_map (f := Node.element), holds.children_eq, length]

/-- A list that ends with a separator lacks an item. -/
theorem list_lacks (separates : input.Suits type (p.cursor.position + 2 * k + 1))
    (refused : s.accepts input ((outer.enter id).moveTo 0) item kind p
      (p.cursor.position + 2 * k + 2) = .ok false) (levels : Nat) :
    ListLacks s.grammar input id item between p.cursor k
      (matchElement s (levels + 2) id outer p) := by
  obtain ⟨q, rest, passed, failed, completed⟩ := list_taken stage stands itemStands leaf delimiter
    sound quiet free listing levels
  have soundThere : q.Sound s.grammar input := passed.sound sound.entered.marked
  have place : q.cursor.position = p.cursor.position + 2 * k + 1 := passed.position
  have next : p.cursor.position + 2 * k + 2 = q.cursor.position + 1 := by rw [place]
  have refusedThere : s.accepts input ((outer.enter id).moveTo 0) item kind q
      (q.cursor.position + 1) = .ok false := by
    rw [passed.accepts_eq, ← next]
    exact refused
  obtain ⟨token, there⟩ := separates.exists_token
  have inside := token?_lt_size there
  rw [← place] at separates
  have lacks := repeatItem_lacks stage itemStands leaf delimiter soundThere
    (passed.failure.trans quiet) (passed.depth.symm ▸ free) separates refusedThere levels rest
    (2 * k + 1)
  -- The missing item is reported behind the last separator, if there is a range for it.
  cases ranged : (input.cursorAt (q.cursor.position + 1)).currentRange with
  | error fault =>
      rw [ranged] at lacks
      obtain ⟨r, looped⟩ := lacks
      rw [failed fault r looped]
      obtain ⟨rfl, token, there, far⟩ := currentRange_eq_error ranged
      rw [← next] at there
      exact .beyond there far
  | ok range =>
      rw [ranged] at lacks
      obtain ⟨found, r, missing, rfl, silent, depth, moved, looped⟩ := lacks
      rw [completed _ r 1 _ looped depth moved]
      have events_eq : input.node id p.cursor.position
          (input.leavesOf (listIds item between k) p.cursor.position ++
            (input.leaf between q.cursor.position ++ [.diagnostic found])) =
          input.iterated id (listIds item between k ++ [between]) p.cursor.position [found] := by
        rw [Input.iterated, leavesOf_append, length_listIds, ← Nat.add_assoc, ← place]
        simp [Input.leavesOf]
      have length := length_listIds item between k
      have tree := builds_iterated ascending listed stands rfl
        (leaves_of_listIds itemStands leaf delimiter k) (show p.cursor.position + _ ≤ input.size by
          simp only [List.length_append, length, List.length_singleton]
          omega) (by simp) [found]
      rw [← next] at missing
      refine .reported silent ?_ (fun _ member => List.mem_singleton.1 (mem_iterated member))
        (missing.unrelated rfl).1 ((missing.points (by decide)).rangeAt listed (by omega)) tree
      rw [events_eq]

end Runs

section Statement

open Matcher

variable {g : Grammar} {vocabulary : Vocabulary} {rules : List Rule} {root : Option String}
  {options : Options} {cancelled : Bool} {tokens : Array Token} {opened : Cursor}
  {id item between : ElementId} {kind : Kind ElementId} {type : TokenTypeId} {outer : Path}
  {p : Progress} {k levels : Nat}

/-- **Separated lists of any length.**  Where items stand with separators between them, the
iteration takes them all.  If no separator follows, it is complete and nothing is reported.  If one
does, and no item behind it, the separator is taken as well, and the missing item is reported at its
place, which must have a range for that. -/
theorem iteration_lists [Alphabet] (built : Grammar.ofRules vocabulary rules root = .ok g)
    (fresh : Cursor.ofTokens g.vocabulary tokens options.placeholder = .ok opened)
    (stands : g.kind? id = some (.iteration item (some between)))
    (itemStands : g.kind? item = some kind) (leaf : kind.isLeaf = true)
    (delimiter : g.Delimiter between type) (sound : p.Sound g opened.input)
    (quiet : p.failure = none) (free : (g.setting options cancelled).Open (p.depth + 1))
    (enough : options.maxDepth ≤ levels + p.depth)
    (listing : Listing (g.setting options cancelled) opened.input ((outer.enter id).moveTo 0) item
      kind type p k) :
    (¬ opened.input.Suits type (p.cursor.position + 2 * k + 1) →
      ListEnds g opened.input id item between p.cursor k
        (matchElement (g.setting options cancelled) levels id outer p)) ∧
    (opened.input.Suits type (p.cursor.position + 2 * k + 1) →
      (g.setting options cancelled).accepts opened.input ((outer.enter id).moveTo 0) item kind p
        (p.cursor.position + 2 * k + 2) = .ok false →
      ListLacks g opened.input id item between p.cursor k
        (matchElement (g.setting options cancelled) levels id outer p)) := by
  have stage : Stage (g.setting options cancelled) opened.input :=
    stage_of_ofTokens (Grammar.ofRules_wellFormed built) fresh cancelled
  have ascending := Cursor.ascending_of_ofTokens fresh
  have listed := Cursor.listed_of_ofTokens fresh
  obtain ⟨levels, rfl⟩ : ∃ further, levels = further + 2 := by
    have below : p.depth + 1 < options.maxDepth := free.2
    exact ⟨levels - 2, by omega⟩
  exact ⟨fun ends => list_ends stage stands itemStands leaf delimiter sound quiet free listing
      ascending listed ends levels,
    fun separates refused => list_lacks stage stands itemStands leaf delimiter sound quiet free
      listing ascending listed separates refused levels⟩

end Statement

/-- A rule for a list with commas. -/
def commaRules : List Rule :=
  [⟨"r", .oneOf [.required (.iteration (.token "A" none none) (some "COMMA"))] false⟩]

/-- The grammar of that rule. -/
def commas : Grammar where
  vocabulary := ⟨"test", #[.keyword "A" "a", .character "COMMA" ",", .keyword "B" "b"]⟩
  elements := #[
    ⟨0, "r", some "r", none, .oneOf [.required 1] false⟩,
    ⟨1, "r#1", none, some 0, .iteration 2 (some 3)⟩,
    ⟨2, "r#2", none, some 1, .token 0 none none⟩,
    ⟨3, "r#3", none, some 1, .token 1 none none⟩]
  rules := [("r", 0)]
  root := 0

theorem commas_built : Grammar.ofRules commas.vocabulary commaRules none = .ok commas := by
  with_unfolding_all rfl

/-- A parse of an item, a comma, and one token more. -/
def commaStart (last : Token) : Progress :=
  ⟨⟨#[⟨0, "a", 0⟩, ⟨1, ",", 1⟩, last], #[0, 1, 2], none, 0, #[], 0⟩, 0, false, [], none,
    commas.blankMemo⟩

theorem commaStart_sound (last : Token) :
    (commaStart last).Sound commas (commaStart last).cursor.input :=
  ⟨rfl, Nat.zero_le _, Memo.blank_faithful commas⟩

/-- A second item makes a list of two, and another token leaves the list with a comma. -/
theorem commaStart_lists :
    ListEnds commas (commaStart ⟨0, "a", 2⟩).cursor.input 1 2 3 (commaStart ⟨0, "a", 2⟩).cursor 1
      (Matcher.run (commas.setting {} false) 1 [] (commaStart ⟨0, "a", 2⟩)) ∧
    ListLacks commas (commaStart ⟨2, "b", 2⟩).cursor.input 1 2 3 (commaStart ⟨2, "b", 2⟩).cursor 0
      (Matcher.run (commas.setting {} false) 1 [] (commaStart ⟨2, "b", 2⟩)) := by
  constructor
  · have listing : Listing (commas.setting {} false) (commaStart ⟨0, "a", 2⟩).cursor.input [⟨1, 0⟩] 2
        (.token 0 none none) 1 (commaStart ⟨0, "a", 2⟩) 1 :=
      ⟨fun | 0, _ => rfl | 1, _ => rfl, by decide⟩
    have fresh : Cursor.ofTokens commas.vocabulary (commaStart ⟨0, "a", 2⟩).cursor.tokens none =
        .ok (commaStart ⟨0, "a", 2⟩).cursor := rfl
    exact (iteration_lists commas_built fresh rfl rfl rfl ⟨rfl, rfl⟩ (commaStart_sound _) rfl
      ⟨rfl, by decide⟩ (by decide) listing).1 (by decide)
  · have listing : Listing (commas.setting {} false) (commaStart ⟨2, "b", 2⟩).cursor.input [⟨1, 0⟩] 2
        (.token 0 none none) 1 (commaStart ⟨2, "b", 2⟩) 0 :=
      ⟨fun | 0, _ => rfl, nofun⟩
    have fresh : Cursor.ofTokens commas.vocabulary (commaStart ⟨2, "b", 2⟩).cursor.tokens none =
        .ok (commaStart ⟨2, "b", 2⟩).cursor := rfl
    exact (iteration_lists commas_built fresh rfl rfl rfl ⟨rfl, rfl⟩ (commaStart_sound _) rfl
      ⟨rfl, by decide⟩ (by decide) listing).2 (by decide) rfl

/-- The token behind the comma ends beyond the offsets that can be counted. -/
theorem commaStart_faults :
    let p := commaStart ⟨2, "b", TextRange.offsetLimit - 1⟩
    let s := commas.setting { recovery := false } false
    Grammar.ofRules commas.vocabulary commaRules none = .ok commas ∧
      p.Sound commas p.cursor.input ∧ p.failure = none ∧ p.cursor.input.placeholder = none ∧
      Listing s p.cursor.input [⟨1, 0⟩] 2 (.token 0 none none) 1 p 0 ∧
      p.cursor.input.Suits 1 1 ∧
      s.accepts p.cursor.input [⟨1, 0⟩] 2 (.token 0 none none) p 2 = .ok false ∧
      ¬ ∃ outcome q, Matcher.run s 1 [] p = .ok outcome q := by
  intro p s
  have listing : Listing s p.cursor.input [⟨1, 0⟩] 2 (.token 0 none none) 1 p 0 :=
    ⟨fun | 0, _ => rfl, nofun⟩
  refine ⟨commas_built, commaStart_sound _, rfl, rfl, listing, by decide, rfl, ?_⟩
  have faults : (Matcher.answer (Matcher.run s 1 []) p).isOk = false := by
    decide +kernel
  rintro ⟨outcome, q, ran⟩
  rw [Matcher.answer, ran] at faults
  cases faults

end Dialect
