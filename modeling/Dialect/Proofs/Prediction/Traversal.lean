import Dialect.Proofs.Prediction.Plain

/-!
# Computing first sets while others do

First sets are computed by three searches that walk along the entries of an element.  They
look up what is remembered of every element they come to, one at a time, so two that look
at different times may see different things.  Two guards keep the searches from going round:
the first visits no element twice (`collect`), the others do not go below an element that is
on the way down to it already (`require`, `check`).  The bound on the depth is never met.

Whatever a search sees, if it is nothing or right, the search comes to the first sets of the
element (`reaches_traverse`): in an accepted grammar no guard hides anything.  With one memo
throughout it is `FirstSets.compute` (`run_traverse`).
-/

set_option autoImplicit false

namespace Dialect

open Relation

/-! ### Looking up one element at a time -/

/-- A computation that looks up, one after the other, what is remembered of elements. -/
inductive Reading (α : Type) where
  | done (value : α)
  | look (id : ElementId) (next : Option FirstSets → Reading α)

namespace Reading

variable {α β : Type}

/-- Goes on with the value of a computation. -/
def andThen : Reading α → (α → Reading β) → Reading β
  | .done value, f => f value
  | .look id next, f => .look id fun found => (next found).andThen f

instance : Monad Reading where
  pure := .done
  bind := andThen

/-- What is remembered of an element at the moment. -/
def consult (id : ElementId) : Reading (Option FirstSets) := .look id .done

/-- The value if nothing changes while it is computed. -/
def run (known : ElementId → Option FirstSets) : Reading α → α
  | .done value => value
  | .look id next => (next (known id)).run known

/-- The computation may come to the value if `sees` tells what may be seen of an element,
each time it is looked up. -/
inductive Reaches (sees : ElementId → Option FirstSets → Prop) : Reading α → α → Prop
  | done (value : α) : Reaches sees (.done value) value
  | look {id : ElementId} {found : Option FirstSets} {next : Option FirstSets → Reading α}
      {value : α} (seen : sees id found) (rest : Reaches sees (next found) value) :
      Reaches sees (.look id next) value

section Reaches

variable {sees : ElementId → Option FirstSets → Prop} {reading : Reading α}

theorem reaches_pure {value other : α} :
    Reaches sees (pure value : Reading α) other ↔ other = value := by
  constructor
  · rintro ⟨⟩
    rfl
  · rintro rfl
    exact .done _

theorem reaches_consult {id : ElementId} {found : Option FirstSets} :
    Reaches sees (consult id) found ↔ sees id found := by
  constructor
  · rintro (_ | ⟨seen, ⟨⟩⟩)
    exact seen
  · exact fun seen => .look seen (.done _)

theorem reaches_bind {next : α → Reading β} {value : β} :
    Reaches sees (reading >>= next) value ↔
      ∃ middle, Reaches sees reading middle ∧ Reaches sees (next middle) value := by
  constructor
  · intro reached
    induction reading with
    | done middle => exact ⟨middle, .done _, reached⟩
    | look id rest ih =>
        cases reached with
        | look seen reached =>
            obtain ⟨middle, first, second⟩ := ih _ reached
            exact ⟨middle, .look seen first, second⟩
  · rintro ⟨middle, first, second⟩
    induction first with
    | done => exact second
    | look seen _ ih => exact .look seen (ih second)

/-- What a computation comes to with one memo throughout is among what it may come to. -/
theorem reaches_run {known : ElementId → Option FirstSets} (seen : ∀ id, sees id (known id)) :
    Reaches sees reading (reading.run known) := by
  induction reading with
  | done value => exact .done value
  | look id next ih => exact .look (seen id) (ih _)

end Reaches

end Reading

/-! ### The searches -/

namespace FirstSets

open Reading

section Searches

variable (g : Grammar)

/-- Puts the tokens that may come first in an element into the bucket, unless the element has
been visited.  Sets that are remembered are taken as they are. -/
def collect : (depth : Nat) → ElementId → List ElementId × TokenSet →
    Reading (List ElementId × TokenSet)
  | 0, _, state => return state
  | depth + 1, id, (visited, bucket) => do
      if id ∈ visited then return (visited, bucket)
      match ← consult id with
      | some sets => return (id :: visited, bucket ∪ sets.possible)
      | none =>
          (g.entries id).foldlM (fun state entry => collect depth entry state)
            (id :: visited, bucket ∪ ownTokens g id)

/-- What the sets of the listed elements have in common with what was found before, up to the
point at which nothing is left. -/
def intersectAll (f : ElementId → Reading TokenSet) :
    Option TokenSet → List ElementId → Reading TokenSet
  | found, [] => return found.getD ∅
  | found, id :: rest => do
      let set ← f id
      let left := found.elim set (· ∩ set)
      if left.isEmpty then return left
      intersectAll f (some left) rest

/-- The tokens with which every match of an element begins.  Below an element on the path to
it, nothing is required. -/
def require : (depth : Nat) → (path : List ElementId) → ElementId → Reading TokenSet
  | 0, _, _ => return ∅
  | depth + 1, path, id => do
      match ← consult id with
      | some sets => return sets.required
      | none =>
          if id ∈ path then return ∅
          match g.kind? id with
          | some (.token type ..) => return .singleton type
          | some kind => intersectAll (require depth (id :: path)) none kind.anchors
          | none => return ∅

/-- Whether a match of an element may begin with an identifier.  Below an element on the path
to it, none is looked for. -/
def check : (depth : Nat) → (path : List ElementId) → ElementId → Reading Bool
  | 0, _, _ => return false
  | depth + 1, path, id => do
      match ← consult id with
      | some sets => return sets.identifierShaped
      | none =>
          if id ∈ path then return false
          match g.kind? id with
          | some (.token type ..) => return g.vocabulary.has TokenType.isIdentifier type
          | some (.identifier ..) => return true
          | some kind => kind.entries.anyM (check depth (id :: path))
          | none => return false

/-- The first sets of an element, computed from the grammar and from what is remembered when
it is looked up. -/
def traverse (id : ElementId) : Reading FirstSets := do
  let (_, possible) ← collect g g.elements.size id ([], ∅)
  let required ← require g g.elements.size [] id
  let identifierShaped ← check g g.elements.size [] id
  return { possible, required, identifierShaped }

end Searches

/-! ### What the searches come to -/

/-- All that can be seen of an element is nothing or its first sets. -/
def Trusted (g : Grammar) (sees : ElementId → Option FirstSets → Prop) : Prop :=
  ∀ id sets, sees id (some sets) → sets = ofElement g id

/-- What may come first in a visited element is in the bucket, unless the element is still
under way. -/
def Gathered (g : Grammar) (underWay : ElementId → Prop)
    (state : List ElementId × TokenSet) : Prop :=
  ∀ y ∈ state.1, ¬ underWay y → ∀ t ∈ (ofElement g y).possible, t ∈ state.2

section Gathered

variable {g : Grammar} {underWay : ElementId → Prop} {id : ElementId} {visited : List ElementId}
  {bucket : TokenSet}

/-- An element that is remembered is done with at once. -/
theorem Gathered.add (gathered : Gathered g underWay (visited, bucket)) :
    Gathered g underWay (id :: visited, bucket ∪ (ofElement g id).possible) := by
  intro y member finished t possible
  rcases List.mem_cons.1 member with rfl | before
  · exact TokenSet.mem_union.2 (Or.inr possible)
  · exact TokenSet.mem_union.2 (Or.inl (gathered y before finished t possible))

/-- An element that is not is under way while its entries are searched. -/
theorem Gathered.begin (gathered : Gathered g underWay (visited, bucket)) (own : TokenSet) :
    Gathered g (fun y => underWay y ∨ y = id) (id :: visited, bucket ∪ own) := by
  intro y member finished t possible
  rcases List.mem_cons.1 member with rfl | before
  · exact absurd (Or.inr rfl) finished
  · have settled := gathered y before fun inProgress => finished (Or.inl inProgress)
    exact TokenSet.mem_union.2 (Or.inl (settled t possible))

end Gathered

/-- From one state of the first search to another what may come first in the listed elements
has been added. -/
structure Gathers (g : Grammar) (underWay : ElementId → Prop) (ids : List ElementId)
    (before after : List ElementId × TokenSet) : Prop where
  gathered : Gathered g underWay after
  added : ∀ t, t ∈ after.2 ↔ t ∈ before.2 ∨ ∃ y ∈ ids, t ∈ (ofElement g y).possible

variable {g : Grammar} {sees : ElementId → Option FirstSets → Prop}

theorem reaches_gatherAll {underWay : ElementId → Prop}
    {step : List ElementId × TokenSet → ElementId → Reading (List ElementId × TokenSet)}
    {ids : List ElementId}
    (each : ∀ y ∈ ids, ∀ before after, Gathered g underWay before →
      Reaches sees (step before y) after → Gathers g underWay [y] before after)
    {before after : List ElementId × TokenSet} (gathered : Gathered g underWay before)
    (reached : Reaches sees (ids.foldlM step before) after) :
    Gathers g underWay ids before after := by
  induction ids generalizing before with
  | nil =>
      rw [List.foldlM_nil] at reached
      obtain rfl := reaches_pure.1 reached
      exact ⟨gathered, by simp⟩
  | cons id rest ih =>
      rw [List.foldlM_cons] at reached
      obtain ⟨middle, first, others⟩ := reaches_bind.1 reached
      have one := each id List.mem_cons_self before middle gathered first
      have all := ih (fun y member => each y (List.mem_cons_of_mem _ member)) one.gathered others
      refine ⟨all.gathered, fun t => ?_⟩
      rw [all.added, one.added]
      simp [or_assoc]

/-- **The first search misses nothing.**  An element it does not visit again is not one that is
under way, since those lie above and no element can be entered again. -/
theorem reaches_collect (wellFormed : g.WellFormed) (trusted : Trusted g sees) {depth : Nat}
    {id : ElementId} {underWay : ElementId → Prop} {before after : List ElementId × TokenSet}
    (bound : id < g.elements.size) (deep : g.height id < depth)
    (above : ∀ y, underWay y → TransGen g.Enters y id) (gathered : Gathered g underWay before)
    (reached : Reaches sees (collect g depth id before) after) :
    Gathers g underWay [id] before after := by
  induction depth generalizing id underWay before after with
  | zero => exact absurd deep (Nat.not_lt_zero _)
  | succ depth ih =>
      obtain ⟨visited, bucket⟩ := before
      unfold collect at reached
      split at reached
      · -- An element that was visited before is finished: were it still under way, it would enter
        -- itself.
        rename_i member
        obtain rfl := reaches_pure.1 reached
        have behind : ¬ underWay id := fun inProgress =>
          wellFormed.not_reenters id (above id inProgress)
        refine ⟨gathered, fun t => ?_⟩
        simpa using gathered id member behind t
      · obtain ⟨found, seen, reached⟩ := reaches_bind.1 reached
        cases found with
        | some sets =>
            obtain rfl := reaches_pure.1 reached
            obtain rfl := trusted id sets (reaches_consult.1 seen)
            exact ⟨gathered.add, fun t => by simp⟩
        | none =>
            have stands := Grammar.kind?_of_lt bound
            have entries_eq : g.entries id = g.elements[id].kind.entries := by
              simp [Grammar.entries, stands]
            have each : ∀ y ∈ g.entries id, ∀ before after,
                Gathered g (fun y => underWay y ∨ y = id) before →
                  Reaches sees (collect g depth y before) after →
                    Gathers g (fun y => underWay y ∨ y = id) [y] before after := by
              intro y enters before after ready visits
              have lower := wellFormed.height_lt_of_enters enters
              refine ih (wellFormed.enters_lt_size enters) (by omega) ?_ ready visits
              rintro z (inProgress | rfl)
              · exact (above z inProgress).tail enters
              · exact .single enters
            have all := reaches_gatherAll each (gathered.begin (ownTokens g id)) reached
            have added : ∀ t, t ∈ after.2 ↔ t ∈ bucket ∨ t ∈ (ofElement g id).possible := by
              intro t
              rw [all.added, mem_possible_iff wellFormed stands, entries_eq, TokenSet.mem_union,
                or_assoc]
            refine ⟨fun y member finished t possible => ?_, by simpa using added⟩
            by_cases own : y = id
            · exact (added t).2 (Or.inr (own ▸ possible))
            · have behind : ¬ (underWay y ∨ y = id) := fun inProgress => inProgress.elim finished own
              exact all.gathered y member behind t possible

theorem common_narrowed (found : Option TokenSet) (set : TokenSet) (sets : List TokenSet) :
    common (found.elim set (· ∩ set) :: sets) = common (found.toList ++ set :: sets) := by
  cases found with
  | none => rfl
  | some earlier =>
      apply TokenSet.ext
      intro t
      simp [mem_common, and_assoc]

theorem common_of_isEmpty {set : TokenSet} (nothing : set.isEmpty = true) (sets : List TokenSet) :
    common (set :: sets) = set := by
  apply TokenSet.ext
  intro t
  simp [mem_common, TokenSet.isEmpty_iff.1 nothing t]

/-- Intersecting one set after the other misses nothing by stopping when nothing is left. -/
theorem reaches_intersectAll {f : ElementId → Reading TokenSet} {value : ElementId → TokenSet}
    {ids : List ElementId} (each : ∀ y ∈ ids, ∀ set, Reaches sees (f y) set → set = value y)
    {found : Option TokenSet} {set : TokenSet}
    (reached : Reaches sees (intersectAll f found ids) set) :
    set = common (found.toList ++ ids.map value) := by
  induction ids generalizing found with
  | nil =>
      obtain rfl := reaches_pure.1 reached
      cases found <;> rfl
  | cons id rest ih =>
      unfold intersectAll at reached
      obtain ⟨first, visited, reached⟩ := reaches_bind.1 reached
      obtain rfl := each id List.mem_cons_self first visited
      rw [List.map_cons, ← common_narrowed]
      dsimp only at reached
      split at reached
      · rename_i nothing
        obtain rfl := reaches_pure.1 reached
        exact (common_of_isEmpty nothing _).symm
      · exact ih (fun y member => each y (List.mem_cons_of_mem _ member)) reached

/-- What lies on the path to an element lies above its entries, as does the element. -/
theorem above_entry {path : List ElementId} {id y : ElementId}
    (above : ∀ z ∈ path, TransGen g.Enters z id) (enters : g.Enters id y) :
    ∀ z ∈ id :: path, TransGen g.Enters z y :=
  List.forall_mem_cons.2 ⟨.single enters, fun z member => (above z member).tail enters⟩

/-- **The second search is plain recursion.** -/
theorem reaches_require (wellFormed : g.WellFormed) (trusted : Trusted g sees) {depth : Nat}
    {path : List ElementId} {id : ElementId} {set : TokenSet} (bound : id < g.elements.size)
    (deep : g.height id < depth) (above : ∀ y ∈ path, TransGen g.Enters y id)
    (reached : Reaches sees (require g depth path id) set) :
    set = (ofElement g id).required := by
  induction depth generalizing id path set with
  | zero => exact absurd deep (Nat.not_lt_zero _)
  | succ depth ih =>
      unfold require at reached
      obtain ⟨found, seen, reached⟩ := reaches_bind.1 reached
      cases found with
      | some sets =>
          obtain rfl := reaches_pure.1 reached
          rw [trusted id sets (reaches_consult.1 seen)]
      | none =>
          have stands := Grammar.kind?_of_lt bound
          -- No way leads back, so the guard against cycles never answers.
          have fresh : id ∉ path := fun member => wellFormed.not_reenters id (above id member)
          have below : ∀ y ∈ g.elements[id].kind.anchors, ∀ set,
              Reaches sees (require g depth (id :: path) y) set →
                set = (ofElement g y).required := by
            intro y anchor set visits
            have enters : g.Enters id y :=
              Grammar.enters_iff.2 ⟨_, stands, Kind.mem_entries_of_mem_anchors anchor⟩
            have lower := wellFormed.height_lt_of_enters enters
            exact ih (wellFormed.enters_lt_size enters) (by omega) (above_entry above enters) visits
          rw [required_ofElement wellFormed stands]
          generalize g.elements[id].kind = kind at stands below ⊢
          simp only [fresh, if_false, stands] at reached
          cases kind with
          | token type text flavor => exact reaches_pure.1 reached
          | _ => exact reaches_intersectAll below reached

/-- Asking one element after the other misses nothing by stopping at the first that says yes. -/
theorem reaches_any {f : ElementId → Reading Bool} {value : ElementId → Bool} {ids : List ElementId}
    (each : ∀ y ∈ ids, ∀ answer, Reaches sees (f y) answer → answer = value y) {answer : Bool}
    (reached : Reaches sees (ids.anyM f) answer) : answer = ids.any value := by
  induction ids with
  | nil => exact reaches_pure.1 reached
  | cons id rest ih =>
      rw [List.anyM] at reached
      obtain ⟨first, visited, reached⟩ := reaches_bind.1 reached
      obtain rfl := each id List.mem_cons_self first visited
      rw [List.any_cons]
      cases shaped : value id with
      | true =>
          rw [shaped] at reached
          exact reaches_pure.1 reached
      | false =>
          rw [shaped] at reached
          exact ih (fun y member => each y (List.mem_cons_of_mem _ member)) reached

/-- **The third search is plain recursion.** -/
theorem reaches_check (wellFormed : g.WellFormed) (trusted : Trusted g sees) {depth : Nat}
    {path : List ElementId} {id : ElementId} {answer : Bool} (bound : id < g.elements.size)
    (deep : g.height id < depth) (above : ∀ y ∈ path, TransGen g.Enters y id)
    (reached : Reaches sees (check g depth path id) answer) :
    answer = (ofElement g id).identifierShaped := by
  induction depth generalizing id path answer with
  | zero => exact absurd deep (Nat.not_lt_zero _)
  | succ depth ih =>
      unfold check at reached
      obtain ⟨found, seen, reached⟩ := reaches_bind.1 reached
      cases found with
      | some sets =>
          obtain rfl := reaches_pure.1 reached
          rw [trusted id sets (reaches_consult.1 seen)]
      | none =>
          have stands := Grammar.kind?_of_lt bound
          -- As for required types, the guard against cycles never answers.
          have fresh : id ∉ path := fun member => wellFormed.not_reenters id (above id member)
          have below : ∀ y ∈ g.elements[id].kind.entries, ∀ answer,
              Reaches sees (check g depth (id :: path) y) answer →
                answer = (ofElement g y).identifierShaped := by
            intro y entry answer visits
            have enters : g.Enters id y := Grammar.enters_iff.2 ⟨_, stands, entry⟩
            have lower := wellFormed.height_lt_of_enters enters
            exact ih (wellFormed.enters_lt_size enters) (by omega) (above_entry above enters) visits
          rw [shape_eq_shapedBy wellFormed stands]
          generalize g.elements[id].kind = kind at stands below ⊢
          simp only [fresh, if_false, stands] at reached
          cases kind with
          | token type text flavor => exact reaches_pure.1 reached
          | identifier use isAlias object => exact reaches_pure.1 reached
          | _ => exact reaches_any below reached

/-- **Whatever is seen, if it is right, the sets come out right.** -/
theorem reaches_traverse (wellFormed : g.WellFormed) (trusted : Trusted g sees) {id : ElementId}
    (bound : id < g.elements.size) {sets : FirstSets}
    (reached : Reaches sees (traverse g id) sets) : sets = ofElement g id := by
  have deep := wellFormed.height_lt_size bound
  unfold traverse at reached
  obtain ⟨⟨visited, possible⟩, first, reached⟩ := reaches_bind.1 reached
  obtain ⟨required, second, reached⟩ := reaches_bind.1 reached
  obtain ⟨identifierShaped, third, reached⟩ := reaches_bind.1 reached
  obtain rfl := reaches_pure.1 reached
  have idle : ∀ y, (fun _ : ElementId => False) y → TransGen g.Enters y id := fun _ no => no.elim
  have added := (reaches_collect wellFormed trusted bound deep idle
    (fun y none => absurd none List.not_mem_nil) first).added
  have possible_eq : possible = (ofElement g id).possible := by
    apply TokenSet.ext
    intro t
    simpa using added t
  have nowhere : ∀ y ∈ ([] : List ElementId), TransGen g.Enters y id := by simp
  rw [possible_eq, reaches_require wellFormed trusted bound deep nowhere second,
    reaches_check wellFormed trusted bound deep nowhere third]

/-- **With one memo throughout the searches compute what `compute` does**, if nothing is
remembered but what was computed. -/
theorem run_traverse (wellFormed : g.WellFormed) {known : ElementId → Option FirstSets}
    (right : Known g known) {id : ElementId} (bound : id < g.elements.size) :
    (traverse g id).run known = compute g known id := by
  have trusted : Trusted g fun id found => found = known id :=
    fun id sets found => (right id sets found.symm).2
  rw [compute_eq_ofElement wellFormed right bound]
  exact reaches_traverse wellFormed trusted bound (reaches_run fun _ => rfl)

end FirstSets

end Dialect
