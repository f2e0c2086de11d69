import Dialect.Supply

/-!
# Sets of token types

A set of token types is a number with one bit for each type, so two sets with
the same members are equal (`TokenSet.ext`).
-/

set_option autoImplicit false

namespace Dialect

/-- A finite set of token types. -/
structure TokenSet where
  /-- Bit `t` is set when `t` is a member. -/
  bits : Nat
deriving DecidableEq, Repr

namespace TokenSet

/-- Whether `t` is a member. -/
def contains (s : TokenSet) (t : TokenTypeId) : Bool := s.bits.testBit t

instance : Membership TokenTypeId TokenSet where
  mem s t := s.contains t = true

instance (s : TokenSet) (t : TokenTypeId) : Decidable (t ∈ s) :=
  inferInstanceAs (Decidable (s.contains t = true))

/-- The set without members. -/
def empty : TokenSet := ⟨0⟩

instance : EmptyCollection TokenSet := ⟨empty⟩

/-- The set with the one member `t`. -/
def singleton (t : TokenTypeId) : TokenSet := ⟨1 <<< t⟩

/-- The members of either set. -/
def union (s u : TokenSet) : TokenSet := ⟨s.bits ||| u.bits⟩

instance : Union TokenSet := ⟨union⟩

/-- The members of both sets. -/
def inter (s u : TokenSet) : TokenSet := ⟨s.bits &&& u.bits⟩

instance : Inter TokenSet := ⟨inter⟩

/-- Whether the set has no member. -/
def isEmpty (s : TokenSet) : Bool := s.bits == 0

/-- The set of the listed token types. -/
def ofList (ts : List TokenTypeId) : TokenSet :=
  ts.foldl (fun s t => s ∪ singleton t) ∅

/-- The members in ascending order. -/
def toList (s : TokenSet) : List TokenTypeId :=
  (List.range (s.bits.log2 + 1)).filter s.contains

theorem mem_iff {s : TokenSet} {t : TokenTypeId} : t ∈ s ↔ s.bits.testBit t = true := Iff.rfl

/-- Sets with the same members are equal. -/
@[ext] theorem ext {s u : TokenSet} (same : ∀ t, t ∈ s ↔ t ∈ u) : s = u := by
  cases s with | mk a => cases u with | mk b =>
  have bits : a = b := Nat.eq_of_testBit_eq fun t => by
    have := same t
    simp only [mem_iff] at this
    exact Bool.eq_iff_iff.2 this
  rw [bits]

@[simp] theorem not_mem_empty (t : TokenTypeId) : t ∉ (∅ : TokenSet) := by
  simp [mem_iff, EmptyCollection.emptyCollection, empty]

@[simp] theorem mem_singleton {t u : TokenTypeId} : t ∈ singleton u ↔ t = u := by
  simp only [mem_iff, singleton, Nat.one_shiftLeft, Nat.testBit_two_pow, decide_eq_true_eq]
  exact eq_comm

@[simp] theorem mem_union {s u : TokenSet} {t : TokenTypeId} : t ∈ s ∪ u ↔ t ∈ s ∨ t ∈ u := by
  simp [mem_iff, Union.union, union, Nat.testBit_or]

@[simp] theorem mem_inter {s u : TokenSet} {t : TokenTypeId} : t ∈ s ∩ u ↔ t ∈ s ∧ t ∈ u := by
  simp [mem_iff, Inter.inter, inter, Nat.testBit_and]

theorem isEmpty_iff {s : TokenSet} : s.isEmpty = true ↔ ∀ t, t ∉ s := by
  constructor
  · intro zero t
    have : s.bits = 0 := by simpa [isEmpty] using zero
    simp [mem_iff, this]
  · intro none
    have : s = ∅ := ext fun t => by simp [none t]
    rw [this]; rfl

@[simp] theorem mem_ofList {ts : List TokenTypeId} {t : TokenTypeId} : t ∈ ofList ts ↔ t ∈ ts := by
  have general : ∀ (s : TokenSet), t ∈ ts.foldl (fun s t => s ∪ singleton t) s ↔ t ∈ s ∨ t ∈ ts := by
    induction ts with
    | nil => simp
    | cons u rest ih => intro s; simp [ih, or_assoc]
  simp [ofList, general]

@[simp] theorem mem_toList {s : TokenSet} {t : TokenTypeId} : t ∈ s.toList ↔ t ∈ s := by
  simp only [toList, List.mem_filter, List.mem_range]
  constructor
  · exact fun both => both.2
  · intro member
    refine ⟨?_, member⟩
    have positive : s.bits.testBit t = true := member
    have : 2 ^ t ≤ s.bits := Nat.ge_two_pow_of_testBit positive
    exact Nat.lt_succ_of_le ((Nat.le_log2 (by have := Nat.two_pow_pos t; omega)).2 this)

end TokenSet

end Dialect
