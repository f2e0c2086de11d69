import Mathlib.Algebra.BigOperators.Group.List.Basic
import Mathlib.Algebra.Ring.Nat
import Mathlib.Logic.Equiv.Defs

/-!
# Items that stand one after the other

Items of some width are put one behind the other (`places`).  Putting them in another order moves
each of them as a whole: there is a permutation of the places that takes every item to where it
stands in the other order, and leaves everything around them in place (`exists_shuffle`).
-/

set_option autoImplicit false

namespace Dialect

variable {α : Type} (width : α → Nat)

/-- The items with the places where they begin, the first at `start`. -/
def places : (start : Nat) → List α → List (Nat × α)
  | _, [] => []
  | start, item :: rest => (start, item) :: places (start + width item) rest

/-- The width of all items. -/
def extent (items : List α) : Nat := (items.map width).sum

section Places

variable {width} {start : Nat} {items others : List α}

@[simp] theorem extent_nil : extent width ([] : List α) = 0 := rfl

@[simp] theorem extent_cons (item : α) (rest : List α) :
    extent width (item :: rest) = width item + extent width rest := by
  simp [extent]

theorem extent_append (first second : List α) :
    extent width (first ++ second) = extent width first + extent width second := by
  simp [extent]

theorem extent_perm (perm : items.Perm others) : extent width items = extent width others :=
  (perm.map width).sum_eq

theorem places_append (start : Nat) (first second : List α) :
    places width start (first ++ second) =
      places width start first ++ places width (start + extent width first) second := by
  induction first generalizing start with
  | nil => rfl
  | cons item rest ih =>
      rw [List.cons_append, places, places, ih, extent_cons, Nat.add_assoc, List.cons_append]

/-- Each item stands somewhere, and nothing else does. -/
theorem exists_mem_places {item : α} :
    (∃ place, (place, item) ∈ places width start items) ↔ item ∈ items := by
  induction items generalizing start with
  | nil => simp [places]
  | cons first rest ih => simp [places, exists_or, ih]

/-- Every item stands between the places where the first begins and the last ends. -/
theorem bounds_of_mem_places {place : Nat × α} (member : place ∈ places width start items) :
    start ≤ place.1 ∧ place.1 + width place.2 ≤ start + extent width items := by
  induction items generalizing start with
  | nil => cases member
  | cons item rest ih =>
      rw [extent_cons]
      rcases List.mem_cons.1 member with rfl | later
      · dsimp only
        omega
      · have := ih later
        omega

/-- Every place between belongs to an item. -/
theorem exists_place {x : Nat} (behind : start ≤ x) (inside : x < start + extent width items) :
    ∃ place ∈ places width start items, ∃ j < width place.2, x = place.1 + j := by
  induction items generalizing start with
  | nil =>
      rw [extent_nil] at inside
      omega
  | cons item rest ih =>
      by_cases here : x < start + width item
      · exact ⟨_, List.mem_cons_self, x - start, by dsimp only; omega, by dsimp only; omega⟩
      · rw [extent_cons] at inside
        obtain ⟨place, member, found⟩ := @ih (start + width item) (by omega) (by omega)
        exact ⟨place, List.mem_cons_of_mem _ member, found⟩

variable (width) in
/-- The permutation takes every item from its place in one order to its place in the other, and
leaves the places around them alone. -/
structure Shuffles (start : Nat) (items others : List α) (σ : Equiv.Perm Nat) : Prop where
  around : ∀ x, x < start ∨ start + extent width items ≤ x → σ x = x
  slides : ∀ place ∈ places width start items, ∀ j < width place.2, σ (place.1 + j) = σ place.1 + j
  perm : (places width start others).Perm
    ((places width start items).map fun place => (σ place.1, place.2))

/-- An item is moved as a whole. -/
theorem Shuffles.slides_from {σ : Equiv.Perm Nat} (shuffles : Shuffles width start items others σ)
    {place : Nat × α} (member : place ∈ places width start items) {x : Nat} (behind : place.1 ≤ x)
    (before : x < place.1 + width place.2) : σ x = σ place.1 + (x - place.1) := by
  have moved := shuffles.slides place member (x - place.1) (by omega)
  rwa [Nat.add_sub_cancel' behind] at moved

/-- The place of an item with others before it. -/
theorem mem_places_middle {before after : List α} {item : α} :
    (start + extent width before, item) ∈ places width start (before ++ item :: after) := by
  rw [places_append, places]
  exact List.mem_append_right _ List.mem_cons_self

/-- **An item that is replaced by one as wide leaves the others where they are.** -/
theorem places_replace {before after : List α} {item item' : α} (same : width item' = width item)
    {place : Nat × α} (member : place ∈ places width start (before ++ item :: after)) :
    place = (start + extent width before, item) ∨
      place ∈ places width start (before ++ item' :: after) ∧
        (place.1 + width place.2 ≤ start + extent width before ∨
          start + extent width before + width item ≤ place.1) := by
  rw [places_append, places] at member ⊢
  rw [same]
  rcases List.mem_append.1 member with front | own
  · exact .inr ⟨List.mem_append_left _ front, .inl (bounds_of_mem_places front).2⟩
  · rcases List.mem_cons.1 own with rfl | back
    · exact .inl rfl
    · exact .inr ⟨by simp [back], .inr (bounds_of_mem_places back).1⟩

/-- Two neighbours change places. -/
def exchange (start first second : Nat) : Equiv.Perm Nat where
  toFun x := if x < start then x else if x < start + first then x + second
    else if x < start + first + second then x - first else x
  invFun x := if x < start then x else if x < start + second then x + first
    else if x < start + second + first then x - second else x
  left_inv x := by
    dsimp only
    split_ifs <;> omega
  right_inv x := by
    dsimp only
    split_ifs <;> omega

theorem exchange_around {start first second x : Nat}
    (around : x < start ∨ start + first + second ≤ x) : exchange start first second x = x := by
  unfold exchange
  dsimp only [Equiv.coe_fn_mk]
  split_ifs <;> omega

theorem exchange_first (start second : Nat) {first j : Nat} (inside : j < first) :
    exchange start first second (start + j) = start + second + j := by
  unfold exchange
  dsimp only [Equiv.coe_fn_mk]
  split_ifs <;> omega

theorem exchange_second (start first : Nat) {second j : Nat} (inside : j < second) :
    exchange start first second (start + first + j) = start + j := by
  unfold exchange
  dsimp only [Equiv.coe_fn_mk]
  split_ifs <;> omega

/-- The first item stays, and its neighbours are put in order behind it. -/
theorem Shuffles.cons {item : α} {σ : Equiv.Perm Nat} (wide : 0 < width item)
    (shuffles : Shuffles width (start + width item) items others σ) :
    Shuffles width start (item :: items) (item :: others) σ := by
  obtain ⟨around, slides, moved⟩ := shuffles
  have here : σ start = start := around start (by omega)
  refine ⟨fun x outside => around x ?_, fun place member j inside => ?_, ?_⟩
  · rw [extent_cons] at outside
    omega
  · rcases List.mem_cons.1 member with rfl | later
    · dsimp only at inside ⊢
      rw [here, around _ (by omega)]
    · exact slides place later j inside
  · rw [places, places, List.map_cons]
    dsimp only
    rw [here]
    exact moved.cons _

/-- The first two items change places. -/
theorem shuffles_exchange {first second : α} {rest : List α} (wide : 0 < width first)
    (wide' : 0 < width second) : Shuffles width start (second :: first :: rest)
      (first :: second :: rest) (exchange start (width second) (width first)) := by
  -- Items behind the two keep their places.
  have behind : ∀ place ∈ places width (start + width second + width first) rest, ∀ j,
      exchange start (width second) (width first) (place.1 + j) = place.1 + j := by
    intro place member j
    have := (bounds_of_mem_places member).1
    exact exchange_around (by omega)
  have first_eq : exchange start (width second) (width first) start = start + width first := by
    simpa using exchange_first start (width first) wide'
  have second_eq : exchange start (width second) (width first) (start + width second) = start := by
    simpa using exchange_second start (width second) wide
  refine ⟨fun x outside => ?_, fun place member j inside => ?_, ?_⟩
  · simp only [extent_cons] at outside
    exact exchange_around (by omega)
  · rcases List.mem_cons.1 member with rfl | member
    · dsimp only at inside ⊢
      rw [exchange_first _ _ inside, first_eq]
    · rcases List.mem_cons.1 member with rfl | later
      · dsimp only at inside ⊢
        rw [exchange_second _ _ inside, second_eq]
      · rw [behind place later j]
        exact congrArg (· + j) (behind place later 0).symm
  · simp only [places, List.map_cons, first_eq, second_eq]
    have others : (places width (start + width second + width first) rest).map
        (fun place => (exchange start (width second) (width first) place.1, place.2)) =
          places width (start + width first + width second) rest := by
      rw [Nat.add_right_comm start (width first)]
      refine (List.map_congr_left fun place member => ?_).trans (List.map_id _)
      exact Prod.ext (behind place member 0) rfl
    rw [others]
    exact .swap _ _ _

/-- Items are put in one order and from there in another. -/
theorem Shuffles.trans {middle : List α} {σ τ : Equiv.Perm Nat}
    (same : extent width items = extent width middle) (first : Shuffles width start items middle σ)
    (second : Shuffles width start middle others τ) :
    Shuffles width start items others (σ.trans τ) := by
  obtain ⟨around, slides, moved⟩ := first
  obtain ⟨around', slides', moved'⟩ := second
  rw [← same] at around'
  refine ⟨fun x outside => ?_, fun place member j inside => ?_, ?_⟩
  · rw [Equiv.trans_apply, around x outside, around' x outside]
  · have there := moved.mem_iff.2 (List.mem_map_of_mem member)
    rw [Equiv.trans_apply, slides place member j inside, slides' _ there j inside]
    rfl
  · refine (moved'.trans (moved.map _)).trans (.of_eq ?_)
    rw [List.map_map]
    rfl

variable (width) in
/-- **Items can be put in any order.** -/
theorem exists_shuffle (perm : items.Perm others) (positive : ∀ item ∈ items, 0 < width item)
    (start : Nat) : ∃ σ, Shuffles width start items others σ := by
  induction perm generalizing start with
  | nil => exact ⟨.refl _, fun _ _ => rfl, nofun, .refl _⟩
  | @cons item items others perm ih =>
      obtain ⟨σ, shuffles⟩ := ih (fun other member =>
        positive other (List.mem_cons_of_mem _ member)) (start + width item)
      exact ⟨σ, shuffles.cons (positive item List.mem_cons_self)⟩
  | swap first second rest =>
      exact ⟨_, shuffles_exchange (positive first (by simp)) (positive second (by simp))⟩
  | @trans items middle others first second ihFirst ihSecond =>
      obtain ⟨σ, shuffles⟩ := ihFirst positive start
      obtain ⟨τ, shuffles'⟩ :=
        ihSecond (fun item member => positive item (first.mem_iff.2 member)) start
      exact ⟨σ.trans τ, shuffles.trans (extent_perm first) shuffles'⟩

end Places

end Dialect
