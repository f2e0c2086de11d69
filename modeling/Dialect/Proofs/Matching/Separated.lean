import Dialect.Proofs.Matching.Delimiters

/-!
# Lists with separators

An iteration of leaves with a separator is followed round by round.  A round that takes a separator
and an item leaves everything but the cursor as it was (`repeatItem_round`), so any number of rounds
can be told in advance from the input (`repeatItem_rounds`).  There are two ways out of the loop: no
separator stands where the next round would begin (`repeatItem_ends`), or there is one and no item
behind it (`repeatItem_lacks`).
-/

set_option autoImplicit false

namespace Dialect

/-! ### Tokens that are taken one after the other -/

/-- `q` is the state after so many tokens have been taken as the events say.  Nothing else has
changed but what is remembered. -/
def Progress.Passes (g : Grammar) (p : Progress) (n : Nat) (events : List Event) (q : Progress) :
    Prop :=
  p.cursor.position + n ≤ p.cursor.size ∧ ∃ memo, memo.Faithful g ∧
    q = { p with cursor := p.cursor.extend n events, memo }

/-- Whether a leaf takes the token at a position, if the parse gets there without giving a word
free on the way. -/
def Setting.accepts (s : Setting) (input : Input) (path : Path) (id : ElementId)
    (kind : Kind ElementId) (p : Progress) (position : Nat) : Except Fault Bool :=
  s.takes input (path.enter id) id kind (p.moveTo (input.cursorAt position)).atWaved position

namespace Progress.Passes

variable {g : Grammar} {p q r : Progress} {n k : Nat} {events more : List Event}

theorem refl {input : Input} (sound : p.Sound g input) : p.Passes g 0 [] p :=
  ⟨(Proceeds.refl True sound).inside, p.memo, sound.faithful, by rw [Cursor.extend_zero]⟩

theorem trans (first : p.Passes g n events q) (second : q.Passes g k more r) :
    p.Passes g (n + k) (events ++ more) r := by
  obtain ⟨-, _, -, rfl⟩ := first
  obtain ⟨room, memo, faithful, rfl⟩ := second
  refine ⟨?_, memo, faithful, ?_⟩
  · rw [← Nat.add_assoc]
    exact room
  · rw [← Cursor.extend_extend]

theorem cursor (passed : p.Passes g n events q) : q.cursor = p.cursor.extend n events := by
  obtain ⟨-, _, -, rfl⟩ := passed
  rfl

theorem position (passed : p.Passes g n events q) :
    q.cursor.position = p.cursor.position + n := by
  rw [passed.cursor, Cursor.extend_position]

theorem failure (passed : p.Passes g n events q) : q.failure = p.failure := by
  obtain ⟨-, _, -, rfl⟩ := passed
  rfl

theorem depth (passed : p.Passes g n events q) : q.depth = p.depth := by
  obtain ⟨-, _, -, rfl⟩ := passed
  rfl

theorem sound {input : Input} (passed : p.Passes g n events q) (sound : p.Sound g input) :
    q.Sound g input := by
  obtain ⟨room, _, faithful, rfl⟩ := passed
  have reads := sound.reads
  subst reads
  exact ⟨rfl, room, faithful⟩

/-- What a leaf accepts is not changed by tokens that were taken before. -/
theorem accepts_eq {s : Setting} {input : Input} (passed : p.Passes g n events q) (path : Path)
    (id : ElementId) (kind : Kind ElementId) (position : Nat) :
    s.accepts input path id kind q position = s.accepts input path id kind p position := by
  obtain ⟨-, _, -, rfl⟩ := passed
  rfl

end Progress.Passes

/-- A leaf that is asked at the cursor answers as it does at that position. -/
theorem takes_of_accepts {s : Setting} {input : Input} {p : Progress} (reads : p.cursor.input = input)
    {path : Path} {id : ElementId} {kind : Kind ElementId} {taken : Except Fault Bool}
    (accepts : s.accepts input path id kind p p.cursor.position = taken) :
    s.takes input (path.enter id) id kind p.atWaved p.cursor.position = taken := by
  subst reads
  exact accepts

/-! ### The loop of an iteration -/

section Loop

open Matcher

variable {s : Setting} {input : Input} {item between : ElementId} {kind : Kind ElementId}
  {type : TokenTypeId} {path : Path} {p : Progress}
  (stage : Stage s input) (stands : s.grammar.kind? item = some kind) (leaf : kind.isLeaf = true)
  (delimiter : s.grammar.Delimiter between type) (sound : p.Sound s.grammar input)
  (quiet : p.failure = none) (free : s.Open p.depth)

include stage sound quiet free

include stands leaf in
/-- An item that is accepted is taken. -/
theorem item_passes (accepted : s.accepts input path item kind p p.cursor.position = .ok true)
    (levels : Nat) :
    ∃ q, p.Passes s.grammar 1 (input.leaf item p.cursor.position) q ∧
      matchElement s (levels + 1) item path p = .ok (.fullMatch 1) q := by
  obtain ⟨memo, faithful, below, ran⟩ := matchElement_takes stage sound stands leaf quiet free levels
    path (takes_of_accepts sound.reads accepted)
  exact ⟨_, ⟨below, memo, faithful, rfl⟩, ran⟩

include delimiter in
/-- A separator is taken where its token stands. -/
theorem separator_passes (separates : input.Suits type p.cursor.position) (levels : Nat)
    (path : Path) :
    ∃ q, p.Passes s.grammar 1 (input.leaf between p.cursor.position) q ∧
      matchElement s (levels + 1) between path p = .ok (.fullMatch 1) q := by
  have taken := delimiter_taken delimiter quiet free levels path stage.wellFormed sound.reads separates
  obtain ⟨token, there⟩ := separates.exists_token
  have below := token?_lt_size there
  rw [← sound.reads] at below
  exact ⟨_, ⟨below, p.memo, sound.faithful, rfl⟩, taken⟩

include stands leaf delimiter

/-- **One round** takes a separator and an item. -/
theorem repeatItem_round (separates : input.Suits type p.cursor.position)
    (accepted : s.accepts input (path.moveTo 0) item kind p (p.cursor.position + 1) = .ok true)
    (levels rounds tokens : Nat) :
    ∃ q, p.Passes s.grammar 2 (input.leavesOf [between, item] p.cursor.position) q ∧
      repeatItem s (matchElement s (levels + 1)) path item (some between) (rounds + 1) tokens p =
        repeatItem s (matchElement s (levels + 1)) path item (some between) rounds (tokens + 2) q := by
  obtain ⟨middle, first, took⟩ :=
    separator_passes stage delimiter sound quiet free separates levels (path.moveTo 1)
  rw [← first.accepts_eq, ← first.position] at accepted
  obtain ⟨q, second, tookItem⟩ := item_passes stage stands leaf (first.sound sound)
    (first.failure.trans quiet) (first.depth.symm ▸ free) accepted levels
  refine ⟨q, ?_, ?_⟩
  · have both := first.trans second
    rwa [first.position] at both
  · rw [repeatItem, bind_of_ok took]
    exact bind_of_ok tookItem _

/-- **Any number of rounds** take as many separators and items. -/
theorem repeatItem_rounds {k : Nat}
    (separates : ∀ j < k, input.Suits type (p.cursor.position + 2 * j))
    (accepted : ∀ j < k, s.accepts input (path.moveTo 0) item kind p
      (p.cursor.position + (2 * j + 1)) = .ok true) (levels rounds tokens : Nat) :
    ∃ q, p.Passes s.grammar (2 * k)
        (input.leavesOf (List.replicate k [between, item]).flatten p.cursor.position) q ∧
      repeatItem s (matchElement s (levels + 1)) path item (some between) (k + rounds) tokens p =
        repeatItem s (matchElement s (levels + 1)) path item (some between) rounds (tokens + 2 * k)
          q := by
  induction k generalizing p tokens with
  | zero =>
      rw [Nat.zero_add]
      exact ⟨p, .refl sound, rfl⟩
  | succ k ih =>
      obtain ⟨middle, first, begun⟩ := repeatItem_round stage stands leaf delimiter sound quiet free
        (separates 0 (Nat.succ_pos k)) (accepted 0 (Nat.succ_pos k)) levels (k + rounds) tokens
      -- The other rounds begin two positions further on.
      have place : middle.cursor.position = p.cursor.position + 2 := first.position
      have further : ∀ j, p.cursor.position + 2 + 2 * j = p.cursor.position + 2 * (j + 1) := by
        intro j
        omega
      have separatesThere : ∀ j < k, input.Suits type (middle.cursor.position + 2 * j) := by
        intro j before
        rw [place, further]
        exact separates (j + 1) (Nat.succ_lt_succ before)
      have acceptedThere : ∀ j < k, s.accepts input (path.moveTo 0) item kind middle
          (middle.cursor.position + (2 * j + 1)) = .ok true := by
        intro j before
        rw [first.accepts_eq, place, ← Nat.add_assoc, further]
        exact accepted (j + 1) (Nat.succ_lt_succ before)
      obtain ⟨q, others, ended⟩ := ih (first.sound sound) (first.failure.trans quiet)
        (first.depth.symm ▸ free) separatesThere acceptedThere (tokens + 2)
      have events_eq : input.leavesOf (List.replicate (k + 1) [between, item]).flatten
          p.cursor.position = input.leavesOf [between, item] p.cursor.position ++
            input.leavesOf (List.replicate k [between, item]).flatten (p.cursor.position + 2) :=
        leavesOf_append [between, item] _ p.cursor.position
      refine ⟨q, ?_, ?_⟩
      · have all := first.trans others
        rwa [place, ← events_eq, Nat.add_comm 2, ← Nat.mul_succ] at all
      · have rounds_eq : k + 1 + rounds = k + rounds + 1 := Nat.add_right_comm k 1 rounds
        have tokens_eq : tokens + 2 * (k + 1) = tokens + 2 + 2 * k := by omega
        rw [rounds_eq, tokens_eq]
        exact begun.trans ended

omit stage stands leaf delimiter sound in
/-- The loop ends where no separator stands. -/
theorem repeatItem_ends (separator : s.grammar.kind? between = some (.token type none none))
    (reads : p.cursor.input = input) (ends : ¬ input.Suits type p.cursor.position)
    (levels rounds tokens : Nat) :
    repeatItem s (matchElement s (levels + 1)) path item (some between) (rounds + 1) tokens p =
      .ok ⟨tokens, true⟩ p := by
  rw [repeatItem, bind_of_ok (delimiter_refused quiet free levels _ separator reads ends)]
  rfl

/-- **A separator without an item behind it is kept**, and the item is reported missing, unless
there is no range for the place. -/
theorem repeatItem_lacks (separates : input.Suits type p.cursor.position)
    (refused : s.accepts input (path.moveTo 0) item kind p (p.cursor.position + 1) = .ok false)
    (levels rounds tokens : Nat) :
    match (input.cursorAt (p.cursor.position + 1)).currentRange with
    | .ok range => ∃ found q, Missing s input .E0302 item (p.cursor.position + 1) found ∧
        found.range = range ∧ q.failure = none ∧ q.depth = p.depth ∧
        q.cursor = p.cursor.extend 1 (input.leaf between p.cursor.position ++ [.diagnostic found]) ∧
        repeatItem s (matchElement s (levels + 1)) path item (some between) (rounds + 1) tokens p =
          .ok ⟨tokens + 1, false⟩ q
    | .error fault => ∃ q,
        repeatItem s (matchElement s (levels + 1)) path item (some between) (rounds + 1) tokens p =
          .error fault q := by
  obtain ⟨middle, first, took⟩ :=
    separator_passes stage delimiter sound quiet free separates levels (path.moveTo 1)
  have soundThere : middle.Sound s.grammar input := first.sound sound
  have quietThere : middle.failure = none := first.failure.trans quiet
  -- The separator stays taken: the item is missed behind it.
  rw [← first.accepts_eq, ← first.position] at refused
  have declined := matchElement_takesOne stage soundThere stands leaf quietThere
    (first.depth.symm ▸ free) levels (path.moveTo 0)
  rw [takes_of_accepts soundThere.reads refused] at declined
  obtain ⟨last, passed, moved⟩ := declined
  have soundLast : last.Sound s.grammar input := moved.sound soundThere
  have bound : item < s.grammar.elements.size := Grammar.lt_of_kind?_eq_some stands
  have place : last.cursor.position = p.cursor.position + 1 := by
    rw [moved.stay, first.position]
  have anchored := expected_anchored stage .E0302 bound soundLast
  rw [place] at anchored
  rw [repeatItem, bind_of_ok took]
  cases ranged : (input.cursorAt (p.cursor.position + 1)).currentRange with
  | error fault =>
      rw [ranged] at anchored
      exact ⟨last, (bind_of_ok passed _).trans (bind_of_error anchored _)⟩
  | ok range =>
      rw [ranged] at anchored
      obtain ⟨found, missing, at_range, reported⟩ := anchored
      refine ⟨found, _, missing, at_range, ?_, ?_, ?_,
        (bind_of_ok passed _).trans (bind_of_ok reported _)⟩
      · exact moved.keeps.quiet trivial quietThere
      · exact moved.keeps.depth.trans first.depth
      · rw [Progress.moveTo, moved.stay, first.cursor, Cursor.extend_extend]

end Loop

/-! ### Lists -/

/-- The leaves of a list of `k` items and one more. -/
def listIds (item between : ElementId) (k : Nat) : List ElementId :=
  item :: (List.replicate k [between, item]).flatten

theorem length_listIds (item between : ElementId) (k : Nat) :
    (listIds item between k).length = 2 * k + 1 := by
  simp [listIds, Nat.mul_comm]

/-- From the cursor on the input has `k` items with a separator behind each, and one item more. -/
structure Listing (s : Setting) (input : Input) (path : Path) (item : ElementId)
    (kind : Kind ElementId) (type : TokenTypeId) (p : Progress) (k : Nat) : Prop where
  items : ∀ j ≤ k, s.accepts input path item kind p (p.cursor.position + 2 * j) = .ok true
  separators : ∀ j < k, input.Suits type (p.cursor.position + 2 * j + 1)

/-- A list lies within the input. -/
theorem Listing.inside {s : Setting} {input : Input} {path : Path} {item : ElementId}
    {kind : Kind ElementId} {type : TokenTypeId} {p : Progress} {k : Nat}
    (listing : Listing s input path item kind type p k) :
    p.cursor.position + 2 * k < input.size :=
  (leaves_of_takes (fun _ _ _ _ _ _ => True) (listing.items k (Nat.le_refl k))).1

section List

open Matcher

variable {s : Setting} {input : Input} {id item between : ElementId} {kind : Kind ElementId}
  {type : TokenTypeId} {path : Path} {p : Progress} {k : Nat}

/-- **An iteration takes a list**, and comes to what its loop comes to behind it. -/
theorem iteration_takes (stage : Stage s input) (stands : s.grammar.kind? item = some kind)
    (leaf : kind.isLeaf = true) (delimiter : s.grammar.Delimiter between type)
    (sound : p.Sound s.grammar input) (quiet : p.failure = none) (free : s.Open p.depth)
    (listing : Listing s input (path.moveTo 0) item kind type p k) (levels : Nat) (id : ElementId) :
    ∃ q rest, p.marked.Passes s.grammar (2 * k + 1)
        (input.leavesOf (listIds item between k) p.cursor.position) q ∧
      iteration s (matchElement s (levels + 1)) path id item (some between) p = (do
        let tally ← repeatItem s (matchElement s (levels + 1)) path item (some between) (rest + 1)
          (2 * k + 1)
        Cursor.complete p.cursor.place id
        return tally.outcome : Matcher Outcome) q := by
  obtain ⟨middle, first, took⟩ := item_passes stage stands leaf sound.marked quiet free
    (listing.items 0 (Nat.zero_le k)) levels
  have soundThere : middle.Sound s.grammar input := first.sound sound.marked
  have place : middle.cursor.position = p.cursor.position + 1 := first.position
  -- From behind the first item on, separators and items stand as the rounds expect them.
  have separates : ∀ j < k, input.Suits type (middle.cursor.position + 2 * j) := by
    intro j before
    rw [place, Nat.add_right_comm]
    exact listing.separators j before
  have accepted : ∀ j < k, s.accepts input (path.moveTo 0) item kind middle
      (middle.cursor.position + (2 * j + 1)) = .ok true := by
    intro j before
    have same : p.cursor.position + 1 + (2 * j + 1) = p.cursor.position + 2 * (j + 1) := by omega
    rw [first.accepts_eq, place, same]
    exact listing.items (j + 1) before
  have room : k ≤ middle.cursor.remaining := by
    have inside := listing.inside
    rw [soundThere.remaining_eq, place]
    omega
  obtain ⟨rest, rounds_eq⟩ : ∃ rest, middle.cursor.remaining + 1 = k + (rest + 1) :=
    ⟨middle.cursor.remaining - k, by omega⟩
  obtain ⟨q, others, ended⟩ := repeatItem_rounds stage stands leaf delimiter soundThere
    (first.failure.trans quiet) (first.depth.symm ▸ free) separates accepted levels (rest + 1) 1
  refine ⟨q, rest, ?_, ?_⟩
  · have all := first.trans others
    rwa [place, Nat.add_comm 1] at all
  · rw [Nat.add_comm 1] at ended
    unfold iteration
    rw [bind_of_ok p.mark_eq, bind_of_ok took]
    refine (bind_of_ok cursor_eq _).trans ?_
    rw [rounds_eq]
    simp only [bind_apply, ended]

end List

end Dialect
