import Mathlib.Data.List.FinRange
import Mathlib.Data.List.Sort
import Dialect.Proofs.Prediction.Overlaps

/-!
# Finding overlaps in one pass

The alternatives of a choice need not be compared in pairs.  One pass over them is enough if it
keeps, for each token type, an index of the alternatives met so far that may begin with it: a
new alternative is compared with those that are listed under one of its own token types
(`SinglePass.scan`).  What the pass comes to is what the comparison in pairs finds
(`answers_scan`).

Pairs that are told apart by their shape are skipped on the way, and the pass goes on with the
next pair under the same token type, so a type may be skipped for one pair and reported for
another.
-/

set_option autoImplicit false

namespace Dialect

/-! ### Loops of questions -/

section Loops

variable {g : Grammar} {α σ : Type}

/-- Goes on after a question that has an answer. -/
theorem answers_next {query : Query α} {next : α → Query σ} {value : α} {answer : Except Fault σ}
    (first : Answers g query (.ok value)) (second : Answers g (next value) answer) :
    Answers g (query >>= next) answer := by
  intro memo faithful
  obtain ⟨middle, kept, ran⟩ := first memo faithful
  obtain ⟨after, keptAfter, ranNext⟩ := second middle kept
  exact ⟨after, keptAfter, by simp only [bind_apply, ran, ranNext]⟩

/-- A loop of questions, each of which has an answer, keeps what each round keeps. -/
theorem answers_foldlM (step : σ → α → Query σ) (items : List α) (start : σ)
    (holds : List α → σ → Prop)
    (each : ∀ done item rest state, done ++ item :: rest = items → holds done state →
      ∃ next, Answers g (step state item) (.ok next) ∧ holds (done ++ [item]) next)
    (begins : holds [] start) :
    ∃ last, Answers g (items.foldlM step start) (.ok last) ∧ holds items last := by
  have onwards : ∀ rest done state, done ++ rest = items → holds done state →
      ∃ last, Answers g (rest.foldlM step state) (.ok last) ∧ holds items last := by
    intro rest
    induction rest with
    | nil =>
        rintro done state rfl held
        rw [List.append_nil]
        exact ⟨state, answers_pure state, held⟩
    | cons item rest ih =>
        intro done state split held
        obtain ⟨next, answers, heldNext⟩ := each done item rest state split held
        obtain ⟨last, answersRest, heldLast⟩ := ih (done ++ [item]) next (by simpa using split) heldNext
        refine ⟨last, ?_, heldLast⟩
        rw [List.foldlM_cons]
        exact answers_next answers answersRest
  exact onwards items [] start rfl begins

end Loops

/-! ### The pass -/

/-- What a pass over `n` alternatives has met and found. -/
structure SinglePass (n : Nat) where
  /-- The alternatives met so far that may begin with a token of the type. -/
  met : TokenTypeId → List (Fin n)
  places : List (Fin n)
  tokens : List TokenTypeId

namespace SinglePass

section Model

variable {n : Nat}

/-- A pass that has met nothing. -/
def fresh (n : Nat) : SinglePass n := ⟨fun _ => [], [], []⟩

/-- Lists an alternative under a token type. -/
def list (pass : SinglePass n) (own : Fin n) (type : TokenTypeId) : SinglePass n :=
  { pass with met := fun t => if t = type then pass.met t ++ [own] else pass.met t }

/-- Reports two alternatives that may begin with the same token type. -/
def report (pass : SinglePass n) (earlier own : Fin n) (type : TokenTypeId) : SinglePass n :=
  { pass with
    places := (pass.places.insert earlier).insert own
    tokens := pass.tokens.insert type }

variable (g : Grammar) (alternatives : List (Slot ElementId)) (sortable : Bool)

/-- Compares an alternative with an earlier one that is listed under the same token type. -/
def compare (own : Fin alternatives.length) (sets : FirstSets) (type : TokenTypeId)
    (pass : SinglePass alternatives.length) (earlier : Fin alternatives.length) :
    Query (SinglePass alternatives.length) := do
  if sortable then
    let others ← g.firsts alternatives[earlier].item
    if others.identifierShaped != sets.identifierShaped then return pass
  return pass.report earlier own type

/-- Compares an alternative with all that are listed under one of its token types, and then
lists it there itself. -/
def meet (own : Fin alternatives.length) (sets : FirstSets)
    (pass : SinglePass alternatives.length) (type : TokenTypeId) :
    Query (SinglePass alternatives.length) := do
  let compared ← (pass.met type).foldlM (compare g alternatives sortable own sets type) pass
  return compared.list own type

/-- Goes through the token types an alternative may begin with. -/
def visit (pass : SinglePass alternatives.length) (own : Fin alternatives.length) :
    Query (SinglePass alternatives.length) := do
  let sets ← g.firsts alternatives[own].item
  sets.possible.toList.foldlM (meet g alternatives sortable own sets) pass

/-- Goes through the alternatives and tells what was found, in the order of declaration and of
the token types. -/
def scan (element : Element ElementId) : Query (Option Overlap) := do
  let pass ← (List.finRange alternatives.length).foldlM (visit g alternatives sortable)
    (fresh alternatives.length)
  if pass.places.isEmpty then return none
  return some {
    element := element.id
    name := element.name
    alternatives := (pass.places.mergeSort (· ≤ ·)).map fun place => alternatives[place].item
    tokens := pass.tokens.mergeSort (· ≤ ·) }

end Model

/-- The pass over the alternatives of one element, if it is a choice. -/
def detectAt (g : Grammar) (element : Element ElementId) : Query (Option Overlap) :=
  match element.kind with
  | .oneOf alternatives sortable => scan g alternatives sortable element
  | _ => return none

/-- Goes through all elements of a grammar, one after the other. -/
def detect (g : Grammar) : Query (List Overlap) := do
  return (← g.elements.toList.mapM (detectAt g)).filterMap id

/-! ### What the pass finds -/

open Overlap

section Found

variable {n : Nat}

/-- The pass has listed the given alternatives under the given token types, and of the given
conflicts it has found all and no others. -/
structure Finds (listed : Fin n → TokenTypeId → Prop)
    (conflicts : Fin n → Fin n → TokenTypeId → Prop) (pass : SinglePass n) : Prop where
  met : ∀ place t, place ∈ pass.met t ↔ listed place t
  found : Collects conflicts pass.places (· ∈ pass.tokens)
  places_nodup : pass.places.Nodup
  tokens_nodup : pass.tokens.Nodup

variable {listed listed' : Fin n → TokenTypeId → Prop}
  {conflicts conflicts' : Fin n → Fin n → TokenTypeId → Prop} {pass : SinglePass n}

theorem Finds.congr (finds : pass.Finds listed conflicts)
    (sameListed : ∀ place t, listed place t ↔ listed' place t)
    (same : ∀ i j t, conflicts i j t ↔ conflicts' i j t) : pass.Finds listed' conflicts' :=
  ⟨fun place t => (finds.met place t).trans (sameListed place t), finds.found.congr same,
    finds.places_nodup, finds.tokens_nodup⟩

theorem finds_fresh (n : Nat) : (fresh n).Finds (fun _ _ => False) (fun _ _ _ => False) :=
  ⟨by simp [fresh], ⟨by simp [fresh], by simp [fresh]⟩, .nil, .nil⟩

theorem Finds.list (finds : pass.Finds listed conflicts) (own : Fin n) (type : TokenTypeId) :
    (pass.list own type).Finds (fun place t => listed place t ∨ place = own ∧ t = type)
      conflicts := by
  refine ⟨fun place t => ?_, finds.found, finds.places_nodup, finds.tokens_nodup⟩
  by_cases here : t = type
  · simp [SinglePass.list, here, finds.met]
  · simp [SinglePass.list, here, finds.met]

theorem Finds.report (finds : pass.Finds listed conflicts) (earlier own : Fin n)
    (type : TokenTypeId) :
    (pass.report earlier own type).Finds listed
      (fun i j t => conflicts i j t ∨ i = earlier ∧ j = own ∧ t = type) := by
  refine ⟨finds.met, ⟨fun place => ?_, fun t => ?_⟩, (finds.places_nodup.insert).insert,
    finds.tokens_nodup.insert⟩
  · simp only [SinglePass.report, List.mem_insert_iff, finds.found.places]
    constructor
    · rintro (rfl | rfl | ⟨i, j, t, among, at_⟩)
      · exact ⟨earlier, place, type, .inr ⟨rfl, rfl, rfl⟩, .inr rfl⟩
      · exact ⟨place, own, type, .inr ⟨rfl, rfl, rfl⟩, .inl rfl⟩
      · exact ⟨i, j, t, .inl among, at_⟩
    · rintro ⟨i, j, t, among | ⟨rfl, rfl, rfl⟩, at_⟩
      · exact .inr (.inr ⟨i, j, t, among, at_⟩)
      · exact at_.elim (fun first => .inr (.inl first)) .inl
  · simp only [SinglePass.report, List.mem_insert_iff, finds.found.tokens]
    constructor
    · rintro (rfl | ⟨i, j, among⟩)
      · exact ⟨earlier, own, .inr ⟨rfl, rfl, rfl⟩⟩
      · exact ⟨i, j, .inl among⟩
    · rintro ⟨i, j, among | ⟨-, -, rfl⟩⟩
      · exact .inr ⟨i, j, among⟩
      · exact .inl rfl

end Found

section Rounds

variable {g : Grammar} {alternatives : List (Slot ElementId)} (sortable : Bool)
  {listed : Fin alternatives.length → TokenTypeId → Prop}
  {conflicts : Fin alternatives.length → Fin alternatives.length → TokenTypeId → Prop}
  {pass : SinglePass alternatives.length}

/-- The first sets of the alternative at a place. -/
abbrev setsAt (g : Grammar) (alternatives : List (Slot ElementId))
    (place : Fin alternatives.length) : FirstSets :=
  FirstSets.ofElement g alternatives[place].item

/-- The alternatives before a place have been listed and compared with each other. -/
abbrev UpTo (g : Grammar) (alternatives : List (Slot ElementId)) (sortable : Bool) (place : Nat) :
    SinglePass alternatives.length → Prop :=
  Finds (fun i t => i.val < place ∧ t ∈ (setsAt g alternatives i).possible) fun i j t =>
    i < j ∧ j.val < place ∧ t ∈ shared sortable (setsAt g alternatives i) (setsAt g alternatives j)

variable (known : ∀ place, Answers g (g.firsts alternatives[place].item)
  (.ok (setsAt g alternatives place)))

include known

/-- A pair under a token type is reported, unless the two are told apart by their shape. -/
theorem compare_finds {own earlier : Fin alternatives.length} {type : TokenTypeId}
    (finds : pass.Finds listed conflicts) (before : type ∈ (setsAt g alternatives earlier).possible)
    (here : type ∈ (setsAt g alternatives own).possible) :
    ∃ next,
      Answers g (compare g alternatives sortable own (setsAt g alternatives own) type pass earlier)
        (.ok next) ∧
      next.Finds listed fun i j t => conflicts i j t ∨ i = earlier ∧ j = own ∧ t = type ∧
        t ∈ shared sortable (setsAt g alternatives i) (setsAt g alternatives j) := by
  -- Only sortable alternatives are told apart by their shape.
  by_cases apart : sortable = true ∧ (setsAt g alternatives earlier).identifierShaped ≠
      (setsAt g alternatives own).identifierShaped
  · refine ⟨pass, ?_, finds.congr (fun _ _ => Iff.rfl) fun i j t => ?_⟩
    · obtain ⟨rfl, differ⟩ := apart
      refine answers_next (known earlier) ?_
      rw [if_pos (bne_iff_ne.2 differ)]
      exact answers_pure pass
    · refine ⟨.inl, fun either => either.resolve_right ?_⟩
      rintro ⟨rfl, rfl, -, inCommon⟩
      exact (mem_shared.1 inCommon).2.2 apart
  · refine ⟨pass.report earlier own type, ?_,
      (finds.report earlier own type).congr (fun _ _ => Iff.rfl) fun i j t => ?_⟩
    · cases sortable with
      | false => exact answers_pure _
      | true =>
          have alike : (setsAt g alternatives earlier).identifierShaped =
              (setsAt g alternatives own).identifierShaped := by simpa using apart
          refine answers_next (known earlier) ?_
          rw [if_neg (by simp [alike])]
          exact answers_pure _
    · refine or_congr_right (and_congr_right ?_)
      rintro rfl
      refine and_congr_right ?_
      rintro rfl
      refine (and_iff_left_of_imp ?_).symm
      rintro rfl
      exact mem_shared.2 ⟨before, here, apart⟩

/-- An alternative is compared with all that are listed under a token type. -/
theorem meet_finds {own : Fin alternatives.length} {type : TokenTypeId}
    (finds : pass.Finds listed conflicts)
    (before : ∀ place, listed place type → type ∈ (setsAt g alternatives place).possible)
    (here : type ∈ (setsAt g alternatives own).possible) :
    ∃ next,
      Answers g (meet g alternatives sortable own (setsAt g alternatives own) pass type)
        (.ok next) ∧
      next.Finds (fun place t => listed place t ∨ place = own ∧ t = type) fun i j t =>
        conflicts i j t ∨ listed i type ∧ j = own ∧ t = type ∧
          t ∈ shared sortable (setsAt g alternatives i) (setsAt g alternatives j) := by
  obtain ⟨compared, answers, found⟩ := answers_foldlM (g := g)
    (compare g alternatives sortable own (setsAt g alternatives own) type) (pass.met type) pass
    (fun done state => state.Finds listed fun i j t => conflicts i j t ∨ i ∈ done ∧ j = own ∧
      t = type ∧ t ∈ shared sortable (setsAt g alternatives i) (setsAt g alternatives j))
    (by
      intro done earlier rest state split held
      have member : earlier ∈ pass.met type := split ▸ by simp
      obtain ⟨next, answers, found⟩ :=
        compare_finds sortable known held (before _ ((finds.met _ _).1 member)) here
      refine ⟨next, answers, found.congr (fun _ _ => Iff.rfl) fun i j t => ?_⟩
      rw [List.mem_append, List.mem_singleton]
      tauto)
    (finds.congr (fun _ _ => Iff.rfl) fun i j t => by simp)
  refine ⟨compared.list own type, answers_next answers (answers_pure _), ?_⟩
  refine (found.list own type).congr (fun _ _ => Iff.rfl) fun i j t => ?_
  rw [finds.met]

/-- Going through the token types of an alternative compares it with all before it. -/
theorem visit_finds {own : Fin alternatives.length}
    (finds : UpTo g alternatives sortable own.val pass) :
    ∃ next, Answers g (visit g alternatives sortable pass own) (.ok next) ∧
      UpTo g alternatives sortable (own.val + 1) next := by
  let sets := setsAt g alternatives own
  obtain ⟨next, answers, found⟩ := answers_foldlM (g := g)
    (meet g alternatives sortable own sets) sets.possible.toList pass
    (fun done state => state.Finds
      (fun i t => i.val < own.val ∧ t ∈ (setsAt g alternatives i).possible ∨ i = own ∧ t ∈ done)
      fun i j t => (i < j ∧ j.val < own.val ∧
          t ∈ shared sortable (setsAt g alternatives i) (setsAt g alternatives j)) ∨
        i < own ∧ j = own ∧ t ∈ done ∧
          t ∈ shared sortable (setsAt g alternatives i) (setsAt g alternatives j))
    (by
      intro done type rest state split held
      have member : type ∈ sets.possible.toList := split ▸ by simp
      have once : type ∉ done := by
        have nodup : sets.possible.toList.Nodup := sets.possible.toList_ascending.nodup
        rw [← split] at nodup
        exact fun earlier => (List.nodup_append.1 nodup).2.2 _ earlier _ List.mem_cons_self rfl
      obtain ⟨next, answers, found⟩ := meet_finds sortable known held
        (by
          rintro place (⟨-, possible⟩ | ⟨-, earlier⟩)
          · exact possible
          · exact absurd earlier once)
        (TokenSet.mem_toList.1 member)
      refine ⟨next, answers, found.congr (fun i t => ?_) fun i j t => ?_⟩
      · rw [List.mem_append, List.mem_singleton]
        tauto
      · rw [List.mem_append, List.mem_singleton]
        constructor
        · rintro ((before | among) | ⟨⟨earlier, -⟩ | ⟨-, twice⟩, rfl, rfl, inCommon⟩)
          · exact .inl before
          · exact .inr ⟨among.1, among.2.1, .inl among.2.2.1, among.2.2.2⟩
          · exact .inr ⟨earlier, rfl, .inr rfl, inCommon⟩
          · exact absurd twice once
        · rintro (before | ⟨earlier, rfl, member | rfl, inCommon⟩)
          · exact .inl (.inl before)
          · exact .inl (.inr ⟨earlier, rfl, member, inCommon⟩)
          · exact .inr ⟨.inl ⟨earlier, (mem_shared.1 inCommon).1⟩, rfl, rfl, inCommon⟩)
    (finds.congr (fun i t => by simp) fun i j t => by simp)
  -- The own types are all met, so `own` now counts as visited.
  refine ⟨next, answers_next (known own) answers, found.congr (fun i t => ?_) fun i j t => ?_⟩
  · rw [TokenSet.mem_toList, Nat.lt_succ_iff_lt_or_eq, or_and_right, ← Fin.ext_iff]
    refine or_congr_right (and_congr_right ?_)
    rintro rfl
    exact Iff.rfl
  · rw [TokenSet.mem_toList, Nat.lt_succ_iff_lt_or_eq, or_and_right, and_or_left, ← Fin.ext_iff]
    refine or_congr_right ?_
    constructor
    · rintro ⟨earlier, rfl, -, inCommon⟩
      exact ⟨earlier, rfl, inCommon⟩
    · rintro ⟨earlier, rfl, inCommon⟩
      exact ⟨earlier, rfl, (mem_shared.1 inCommon).2.1, inCommon⟩

/-- **The pass finds every conflict between two alternatives, and nothing else.** -/
theorem visitAll_finds :
    ∃ last, Answers g ((List.finRange alternatives.length).foldlM (visit g alternatives sortable)
        (fresh alternatives.length)) (.ok last) ∧
      UpTo g alternatives sortable alternatives.length last := by
  obtain ⟨last, answers, found⟩ := answers_foldlM (g := g)
    (visit g alternatives sortable) (List.finRange alternatives.length) (fresh alternatives.length)
    (fun done state => UpTo g alternatives sortable done.length state)
    (by
      intro done own rest state split held
      have place : own.val = done.length := by
        have inside : done.length < (List.finRange alternatives.length).length := by
          rw [← split]; simp
        have here : (List.finRange alternatives.length)[done.length] = own := by
          simp [← split]
        rw [← here, List.getElem_finRange]
        rfl
      rw [← place] at held
      obtain ⟨next, answers, found⟩ := visit_finds sortable known held
      rw [place] at found
      exact ⟨next, answers, by simpa using found⟩)
    ((finds_fresh _).congr (fun i t => by simp) fun i j t => by simp)
  rw [List.length_finRange] at found
  exact ⟨last, answers, found⟩

end Rounds

/-! ### What the pass tells -/

/-- Sorting what has no repetition gives the ascending list of the same members. -/
theorem mergeSort_eq_of_mem_iff {α : Type} [LinearOrder α] {found ascending : List α}
    (nodup : found.Nodup) (sorted : ascending.Pairwise (· < ·))
    (same : ∀ x, x ∈ found ↔ x ∈ ascending) : found.mergeSort (· ≤ ·) = ascending := by
  have perm : found.Perm ascending := (List.perm_ext_iff_of_nodup nodup sorted.nodup).2 same
  exact ((List.mergeSort_perm found _).trans perm).eq_of_pairwise'
    (List.pairwise_mergeSort' (· ≤ ·) found) (sorted.imp le_of_lt)

/-- The items of a list with their places, place by place. -/
theorem zipIdx_eq_map_finRange {α : Type} (items : List α) :
    items.zipIdx = (List.finRange items.length).map fun place => (items[place], place.val) := by
  apply List.ext_getElem
  · simp
  · simp

section Telling

variable {g : Grammar} {alternatives : List (Slot ElementId)} {sortable : Bool}

theorem getElem?_setsOf (place : Fin alternatives.length) :
    (setsOf g alternatives)[place.val]? = some (setsAt g alternatives place) := by
  simp [setsAt]

/-- The conflicts among the alternatives are those of two places. -/
theorem conflict_iff {i j : Nat} {t : TokenTypeId} :
    Conflict sortable (setsOf g alternatives) i j t ↔
      ∃ a b : Fin alternatives.length, a.val = i ∧ b.val = j ∧ a < b ∧
        t ∈ shared sortable (setsAt g alternatives a) (setsAt g alternatives b) := by
  constructor
  · rintro ⟨before, earlier, own, found, there, inCommon⟩
    have inside := (List.getElem?_eq_some_iff.1 found).1
    have bound := (List.getElem?_eq_some_iff.1 there).1
    rw [List.length_map] at inside bound
    have first := getElem?_setsOf (g := g) (⟨i, inside⟩ : Fin alternatives.length)
    have second := getElem?_setsOf (g := g) (⟨j, bound⟩ : Fin alternatives.length)
    obtain rfl := Option.some.inj (found.symm.trans first)
    obtain rfl := Option.some.inj (there.symm.trans second)
    exact ⟨⟨i, inside⟩, ⟨j, bound⟩, rfl, rfl, before, mem_shared.2 inCommon⟩
  · rintro ⟨a, b, rfl, rfl, before, inCommon⟩
    exact ⟨before, _, _, getElem?_setsOf a, getElem?_setsOf b, mem_shared.1 inCommon⟩

variable {pass : SinglePass alternatives.length}

/-- The pass finds the places that the comparison in pairs finds. -/
theorem UpTo.mem_places_iff (finds : UpTo g alternatives sortable alternatives.length pass)
    (place : Fin alternatives.length) :
    place ∈ pass.places ↔
      place.val ∈ (compareAll sortable (setsOf g alternatives)).places := by
  rw [finds.found.places, (compareAll_collects _ _).places]
  constructor
  · rintro ⟨i, j, t, ⟨before, -, inCommon⟩, at_⟩
    exact ⟨i, j, t, conflict_iff.2 ⟨i, j, rfl, rfl, before, inCommon⟩,
      at_.imp (congrArg Fin.val) (congrArg Fin.val)⟩
  · rintro ⟨i, j, t, conflict, at_⟩
    obtain ⟨a, b, rfl, rfl, before, inCommon⟩ := conflict_iff.1 conflict
    exact ⟨a, b, t, ⟨before, b.isLt, inCommon⟩, at_.imp Fin.ext Fin.ext⟩

/-- The pass finds the token types that the comparison in pairs finds. -/
theorem UpTo.mem_tokens_iff (finds : UpTo g alternatives sortable alternatives.length pass)
    (t : TokenTypeId) :
    t ∈ pass.tokens ↔ t ∈ (compareAll sortable (setsOf g alternatives)).tokens := by
  rw [finds.found.tokens, (compareAll_collects _ _).tokens]
  constructor
  · rintro ⟨i, j, before, -, inCommon⟩
    exact ⟨i, j, conflict_iff.2 ⟨i, j, rfl, rfl, before, inCommon⟩⟩
  · rintro ⟨i, j, conflict⟩
    obtain ⟨a, b, rfl, rfl, before, inCommon⟩ := conflict_iff.1 conflict
    exact ⟨a, b, before, b.isLt, inCommon⟩

/-- Found places are places of alternatives. -/
theorem lt_of_mem_places {place : Nat}
    (member : place ∈ (compareAll sortable (setsOf g alternatives)).places) :
    place < alternatives.length := by
  obtain ⟨i, j, t, conflict, at_⟩ := ((compareAll_collects _ _).places place).1 member
  obtain ⟨a, b, rfl, rfl, -⟩ := conflict_iff.1 conflict
  rcases at_ with rfl | rfl
  · exact a.isLt
  · exact b.isLt

/-- **The pass over the alternatives of a choice tells what the comparison in pairs does.** -/
theorem answers_scan (known : ∀ place : Fin alternatives.length,
      Answers g (g.firsts alternatives[place].item) (.ok (setsAt g alternatives place)))
    (element : Element ElementId) :
    Answers g (scan g alternatives sortable element)
      (.ok (ofChoice? element alternatives sortable (setsOf g alternatives))) := by
  obtain ⟨pass, answers, finds⟩ := visitAll_finds sortable known
  let pairs := compareAll sortable (setsOf g alternatives)
  -- The pass lists places as it finds them; sorted, they are in the order of the alternatives.
  have places_eq : (alternatives.zipIdx.filter fun entry => entry.2 ∈ pairs.places).map
        (fun entry => entry.1.item) =
      (pass.places.mergeSort (· ≤ ·)).map fun place => alternatives[place].item := by
    have sorted := (List.pairwise_lt_finRange alternatives.length).filter
      fun place => decide (place.val ∈ pairs.places)
    rw [mergeSort_eq_of_mem_iff finds.places_nodup sorted
        (by simpa using fun place => UpTo.mem_places_iff finds place),
      zipIdx_eq_map_finRange, List.filter_map, List.map_map]
    rfl
  have tokens_eq : pairs.tokens.toList = pass.tokens.mergeSort (· ≤ ·) :=
    (mergeSort_eq_of_mem_iff finds.tokens_nodup pairs.tokens.toList_ascending
      (by simpa using fun t => UpTo.mem_tokens_iff finds t)).symm
  have empty_iff : pairs.places.isEmpty = pass.places.isEmpty := by
    rw [Bool.eq_iff_iff, List.isEmpty_iff, List.isEmpty_iff, List.eq_nil_iff_forall_not_mem,
      List.eq_nil_iff_forall_not_mem]
    constructor
    · exact fun none place member => none _ ((UpTo.mem_places_iff finds place).1 member)
    · exact fun none place member =>
        none ⟨place, lt_of_mem_places member⟩ ((UpTo.mem_places_iff finds _).2 member)
  refine answers_next answers ?_
  show Answers g _ (.ok (if pairs.places.isEmpty then none else some (Overlap.mk element.id
    element.name ((alternatives.zipIdx.filter fun entry => entry.2 ∈ pairs.places).map
      fun entry => entry.1.item) pairs.tokens.toList)))
  rw [empty_iff, places_eq, tokens_eq]
  split
  · exact answers_pure _
  · exact answers_pure _

end Telling

/-- **One pass over each choice tells what follows from the first sets.** -/
theorem answers_detect {g : Grammar} (wellFormed : g.WellFormed) :
    Answers g (detect g) (.ok (g.elements.toList.filterMap (Overlap.of? g))) := by
  have each : ∀ element ∈ g.elements.toList,
      Answers g (detectAt g element) (pure (Overlap.of? g element)) := by
    intro element member
    obtain ⟨id, found⟩ := List.mem_iff_getElem?.1 member
    have stands : g.kind? id = some element.kind :=
      Grammar.kind?_eq_some.2 ⟨element, Array.getElem?_toList ▸ found, rfl⟩
    unfold detectAt Overlap.of?
    cases kind : element.kind with
    | oneOf alternatives sortable =>
        rw [kind] at stands
        refine answers_scan (fun place => ?_) element
        have inside : alternatives[place].item < g.elements.size :=
          wellFormed.part_lt_size stands (List.mem_map_of_mem (List.getElem_mem _))
        exact Grammar.firstsOf_of_lt inside ▸ answers_firsts wellFormed alternatives[place].item
    | _ => exact answers_pure _
  have all := answers_mapM each
  rw [List.mapM_pure] at all
  refine answers_next all ?_
  rw [List.filterMap_map]
  exact answers_pure _

end SinglePass

end Dialect
