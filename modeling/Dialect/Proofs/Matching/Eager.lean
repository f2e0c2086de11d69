import Dialect.Proofs.Grammar.Height
import Dialect.Proofs.Matching.Run

/-!
# What an eager parse does not miss

Where no element can be entered again at its own token, the depth at which an element is
entered and the tokens that are left bound how deep the parse can go below it.  With that
much depth to spare the parse is not aborted, and if it keeps incomplete alternatives, an
element comes to nothing only if no leaf that is tried takes the token (`run_grasps`).
-/

set_option autoImplicit false

namespace Dialect

open Relation

/-- `y` is tried at the position when `x` is entered there. -/
def Setting.Tries (s : Setting) (input : Input) (position : Nat) (x y : ElementId) : Prop :=
  ∃ kind, s.grammar.kind? x = some kind ∧ kind.Tries s input position y

/-- Some leaf that is tried at the position takes the token there, whatever is around it. -/
def Setting.Grasps (s : Setting) (input : Input) (position : Nat) (id : ElementId) : Prop :=
  ∃ leaf kind, ReflTransGen (s.Tries input position) id leaf ∧
    s.grammar.kind? leaf = some kind ∧ kind.isLeaf = true ∧
      ∀ path waved, s.takes input path leaf kind waved position ≠ .ok false

namespace Grammar

variable {g : Grammar} {version : Nat}

/-- How many elements may be entered, one from the other, at the token at which the given
one is entered, in the given version. -/
noncomputable def heightAt (g : Grammar) (version : Nat) (id : ElementId) : Nat :=
  Dialect.height (g.EntersAt version) g.elements.size id

end Grammar

/-- Elements may be entered where the depth that is left is enough for the elements that may
be entered at this token, and for as many elements as there are at each token behind it. -/
def Agreement.spacious (s : Setting) (input : Input) (wellFormed : s.grammar.WellFormed)
    (acyclic : ∀ id, ¬ TransGen (s.grammar.EntersAt s.options.version) id id) :
    Agreement s input where
  licence id position depth :=
    ((∃ kind, s.grammar.kind? id = some kind ∧ kind.isLeaf = true) ∧ s.Open depth) ∨
      (id < s.grammar.elements.size ∧ s.cancelled = false ∧ (position ≤ input.size →
        depth + s.grammar.heightAt s.options.version id + 1 +
          s.grammar.elements.size * (input.size - position) ≤ s.options.maxDepth))
  idle id position := ¬ s.Grasps input position id
  opens := by
    rintro id position depth (⟨-, free⟩ | ⟨-, running, spare⟩) inside
    · exact free
    · have spare := spare inside
      exact ⟨running, by omega⟩
  here := by
    rintro id position depth kind item (⟨⟨found, stands, leaf⟩, -⟩ | ⟨-, running, spare⟩) other entry
    · obtain rfl : found = kind := Option.some.inj (stands.symm.trans other)
      cases found <;> simp [Kind.isLeaf, Kind.entriesAt] at leaf entry
    · have bound := wellFormed.part_lt_size other (Kind.mem_parts_of_entriesAt entry)
      have lower := height_lt_of_edge acyclic ⟨kind, other, entry⟩ bound
      refine Or.inr ⟨bound, running, fun inside => ?_⟩
      have spare := spare inside
      unfold Grammar.heightAt at spare ⊢
      omega
  beyond := by
    rintro id position depth kind item later (⟨⟨found, stands, leaf⟩, -⟩ | ⟨-, running, spare⟩)
      other member further
    · obtain rfl : found = kind := Option.some.inj (stands.symm.trans other)
      cases found <;> simp [Kind.isLeaf, Kind.parts] at leaf member
    · have bound := wellFormed.part_lt_size other member
      have height := height_lt_size acyclic bound
      refine Or.inr ⟨bound, running, fun inside => ?_⟩
      have spare := spare (by omega)
      have fewer : s.grammar.elements.size * (input.size - later) + s.grammar.elements.size ≤
          s.grammar.elements.size * (input.size - position) := by
        rw [← Nat.mul_succ]
        exact Nat.mul_le_mul_left _ (by omega)
      unfold Grammar.heightAt at spare ⊢
      omega
  leaf free stands isLeaf := Or.inl ⟨⟨_, stands, isLeaf⟩, free⟩
  declined := by
    rintro id position kind path waved stands leaf declined ⟨last, other, way, found, -, takes⟩
    rcases ReflTransGen.cases_head way with rfl | ⟨next, ⟨third, standsToo, tried⟩, -⟩
    · obtain rfl : other = kind := Option.some.inj (found.symm.trans stands)
      exact takes path waved declined
    · obtain rfl : third = kind := Option.some.inj (standsToo.symm.trans stands)
      cases third <;> simp [Kind.isLeaf, Kind.Tries, Kind.entriesAt] at leaf tried
  untouched := by
    rintro id position kind stands composite idles ⟨last, other, way, found, leaf, takes⟩
    rcases ReflTransGen.cases_head way with rfl | ⟨next, ⟨third, standsToo, tried⟩, after⟩
    · obtain rfl : other = kind := Option.some.inj (found.symm.trans stands)
      exact absurd (leaf.symm.trans composite) (by decide)
    · obtain rfl : third = kind := Option.some.inj (standsToo.symm.trans stands)
      exact idles next tried ⟨last, other, after, found, leaf, takes⟩

variable {s : Setting} {input : Input} {id : ElementId} {p : Progress}

/-- **An eager parse with depth to spare misses nothing**: an element is matched wherever
some leaf that is tried there takes the token. -/
theorem run_grasps (stage : Stage s input)
    (acyclic : ∀ id, ¬ TransGen (s.grammar.EntersAt s.options.version) id id)
    (running : s.cancelled = false) (bound : id < s.grammar.elements.size) {outer : Path}
    (inside : outer.Inside s.grammar) (sound : p.Sound s.grammar input) (eager : p.Eager)
    (spare : p.depth + s.grammar.elements.size * (input.size + 1 - p.cursor.position) <
      s.options.maxDepth) (grasps : s.Grasps input p.cursor.position id) :
    Ensures (Excused s.grammar input outer) (Matcher.run s id outer) p
      fun outcome _ => outcome.isMatch = true := by
  have height : s.grammar.heightAt s.options.version id < s.grammar.elements.size :=
    height_lt_size acyclic bound
  have licence : (Agreement.spacious s input stage.wellFormed acyclic).licence id
      p.cursor.position p.depth := by
    refine Or.inr ⟨bound, running, fun within => ?_⟩
    have split : input.size + 1 - p.cursor.position = input.size - p.cursor.position + 1 := by
      omega
    rw [split, Nat.mul_succ] at spare
    omega
  refine (run_honours (.spacious s input stage.wellFormed acyclic) stage bound inside sound True
    fun _ => licence).imp fun outcome q => ?_
  rintro ⟨events, -, matched⟩
  cases outcome with
  | noMatch => exact absurd grasps (matched.2 trivial eager)
  | partialMatch n => rfl
  | fullMatch n => rfl

end Dialect
