import Dialect.Proofs.Acceptance
import Dialect.Proofs.Grammar.Versions
import Dialect.Proofs.Matching.Eager
import Dialect.Proofs.Matching.Guarded

/-!
# How deeply elements nest

In a version that has every slot, no element of an accepted grammar is entered while it is open
at the same position: nothing changes if a parse is halted as soon as that happens
(`run_enters_once`).  So elements nest no deeper than there are elements and positions, and a
parse that may go that deep is never aborted for its depth (`parse_nests`).
-/

set_option autoImplicit false

namespace Dialect

open Relation Matcher

variable {s : Setting} {input : Input} {levels depth : Nat} {chain : Chain}
  {open_ : List (ElementId × Nat)} {id : ElementId} {kind : Kind ElementId} {outer : Path}
  {p q : Progress}

/-! ### Entering once -/

/-- Where the elements of the chain were entered. -/
def Chain.places (chain : Chain) : List (ElementId × Nat) :=
  chain.map fun entry => (entry.1, entry.2.cursor.position)

/-- Trips where an element is matched that was entered at the same position and is still open. -/
def reentering : Guard := fun chain id _ p => (id, p.cursor.position) ∈ chain.places

/-- Running the root comes to the same if it is halted as soon as an element is entered that is
open at the same position; and it is not halted. -/
def Setting.EntersOnce (s : Setting) (root : ElementId) (p : Progress) : Prop :=
  Together (.never s) p (matchElementGuarded s reentering s.options.maxDepth [] root [] p)
      (run s root [] p) ∧
    s.halts reentering root p = false

/-! ### Chains -/

/-- No leaf is open while others are matched. -/
def Composites (g : Grammar) (open_ : List (ElementId × Nat)) : Prop :=
  ∀ entry ∈ open_, ∀ kind, g.kind? entry.1 = some kind → kind.isLeaf = false

theorem Composites.cons {g : Grammar} (composites : Composites g open_)
    (stands : g.kind? id = some kind) (composite : kind.isLeaf = false) (position : Nat) :
    Composites g ((id, position) :: open_) := by
  refine List.forall_mem_cons.2 ⟨fun other found => ?_, composites⟩
  obtain rfl : kind = other := Option.some.inj (stands.symm.trans found)
  exact composite

/-- A leaf is not entered inside of itself. -/
theorem Composites.free (composites : Composites s.grammar chain.places)
    (stands : s.grammar.kind? id = some kind) (leaf : kind.isLeaf = true) :
    reentering chain id outer p = false :=
  decide_eq_false fun member =>
    Bool.false_ne_true ((composites _ member kind stands).symm.trans leaf)

/-- Leaves are matched in the same way inside whatever chain. -/
theorem matchElementGuarded_reentering_leaf (composites : Composites s.grammar chain.places)
    (stands : s.grammar.kind? id = some kind) (leaf : kind.isLeaf = true) (levels : Nat)
    (outer : Path) :
    matchElementGuarded s reentering levels chain id outer = matchElement s levels id outer :=
  funext fun _ => matchElementGuarded_leaf stands leaf (composites.free stands leaf) levels

/-- Leaves take again what they have taken. -/
theorem reentering_steady (stage : Stage s input) (composites : Composites s.grammar chain.places)
    (levels : Nat) : Attempt.Steady s input (matchElementGuarded s reentering levels chain) := by
  intro id kind path p q n stands leaf sound ran
  have same := matchElementGuarded_reentering_leaf composites stands leaf levels path
  rw [same] at ran
  obtain ⟨quiet, free, certain⟩ := matchElement_steady stage levels id kind path p q n stands leaf
    sound ran
  refine ⟨quiet, free, ?_⟩
  unfold Certain at certain ⊢
  rwa [same]

/-! ### The contract -/

/-- Elements may be entered inside of the open ones where there is depth to spare.  Those that were
entered at the same position are higher than all that may be entered below. -/
def Agreement.once (s : Setting) (input : Input) (wellFormed : s.grammar.WellFormed)
    (acyclic : ∀ id, ¬ TransGen (s.grammar.EntersAt s.options.version) id id)
    (open_ : List (ElementId × Nat)) (level : Nat) : Agreement s input where
  licence id position depth :=
    (Agreement.spacious s input wellFormed acyclic).licence id position depth ∧
      ((∃ kind, s.grammar.kind? id = some kind ∧ kind.isLeaf = true) ∨ ∀ entry ∈ open_,
        entry.2 < position ∨ entry.2 = position ∧
          s.grammar.heightAt s.options.version id + depth <
            s.grammar.heightAt s.options.version entry.1 + level)
  idle := (Agreement.spacious s input wellFormed acyclic).idle
  opens may := (Agreement.spacious s input wellFormed acyclic).opens may.1
  here := by
    rintro id position depth kind item ⟨spare, behind⟩ stands entry
    refine ⟨(Agreement.spacious s input wellFormed acyclic).here spare stands entry, Or.inr ?_⟩
    have bound := wellFormed.part_lt_size stands (Kind.mem_parts_of_entriesAt entry)
    have lower : s.grammar.heightAt s.options.version item <
        s.grammar.heightAt s.options.version id :=
      height_lt_of_edge acyclic ⟨kind, stands, entry⟩ bound
    rcases behind with ⟨found, other, leaf⟩ | behind
    · obtain rfl : found = kind := Option.some.inj (other.symm.trans stands)
      cases found <;> simp [Kind.isLeaf, Kind.entriesAt] at leaf entry
    · exact fun entry member => (behind entry member).imp_right fun ⟨same, higher⟩ =>
        ⟨same, by omega⟩
  beyond := by
    rintro id position depth kind item later ⟨spare, behind⟩ stands part further
    refine ⟨(Agreement.spacious s input wellFormed acyclic).beyond spare stands part further,
      Or.inr ?_⟩
    rcases behind with ⟨found, other, leaf⟩ | behind
    · obtain rfl : found = kind := Option.some.inj (other.symm.trans stands)
      cases found <;> simp [Kind.isLeaf, Kind.parts] at leaf part
    · intro entry member
      rcases behind entry member with before | ⟨same, -⟩
      · exact Or.inl (Nat.lt_trans before further)
      · exact Or.inl (same ▸ further)
  leaf free stands isLeaf :=
    ⟨(Agreement.spacious s input wellFormed acyclic).leaf free stands isLeaf,
      Or.inl ⟨_, stands, isLeaf⟩⟩
  declined := (Agreement.spacious s input wellFormed acyclic).declined
  untouched := (Agreement.spacious s input wellFormed acyclic).untouched

/-- What is licensed inside of some elements is licensed inside of one more, one level deeper. -/
theorem Agreement.once_cons {wellFormed : s.grammar.WellFormed}
    {acyclic : ∀ id, ¬ TransGen (s.grammar.EntersAt s.options.version) id id} {position : Nat}
    (free : (Agreement.once s input wellFormed acyclic open_ depth).licence id position depth) :
    (Agreement.once s input wellFormed acyclic ((id, position) :: open_) (depth + 1)).licence
      id position depth := by
  refine ⟨free.1, free.2.imp_right fun behind => List.forall_mem_cons.2 ⟨Or.inr ⟨rfl, ?_⟩, ?_⟩⟩
  · exact Nat.lt_succ_self _
  · exact fun entry member => (behind entry member).imp_right fun ⟨same, higher⟩ =>
      ⟨same, Nat.lt_succ_of_lt higher⟩

/-- What is licensed is not open. -/
theorem Agreement.once_not_mem {wellFormed : s.grammar.WellFormed}
    {acyclic : ∀ id, ¬ TransGen (s.grammar.EntersAt s.options.version) id id} {position : Nat}
    (composites : Composites s.grammar open_)
    (free : (Agreement.once s input wellFormed acyclic open_ depth).licence id position depth) :
    (id, position) ∉ open_ := by
  intro member
  rcases free.2 with ⟨kind, stands, leaf⟩ | behind
  · exact Bool.false_ne_true ((composites _ member kind stands).symm.trans leaf)
  · rcases behind _ member with before | ⟨-, higher⟩
    · exact Nat.lt_irrefl _ before
    · exact Nat.lt_irrefl _ higher

/-- What is licensed does not trip the guard. -/
theorem reentering_of_licence {wellFormed : s.grammar.WellFormed}
    {acyclic : ∀ id, ¬ TransGen (s.grammar.EntersAt s.options.version) id id}
    (composites : Composites s.grammar chain.places)
    (free : (Agreement.once s input wellFormed acyclic chain.places depth).licence id
      p.cursor.position depth) : reentering chain id outer p = false :=
  decide_eq_false (Agreement.once_not_mem composites free)

/-- Leaves keep the contract inside whatever chain. -/
theorem reentering_leafwise (agreement : Agreement s input) (stage : Stage s input)
    (composites : Composites s.grammar chain.places) {around : Path} (levels depth : Nat)
    (enough : s.options.maxDepth ≤ levels + depth) :
    Attempt.HonoursLeaves s input around (agreement.terms levels) depth
      (matchElementGuarded s reentering levels chain) := by
  intro id kind stands leaf path
  rw [matchElementGuarded_reentering_leaf composites stands leaf]
  exact (matchElement_honours agreement stage levels depth enough _).leaf stands path

/-- **What is licensed is matched without being entered twice**, and keeps the contract. -/
theorem reentering_honours (stage : Stage s input)
    (acyclic : ∀ id, ¬ TransGen (s.grammar.EntersAt s.options.version) id id) (around : Path)
    (levels depth : Nat) (enough : s.options.maxDepth ≤ levels + depth)
    (composites : Composites s.grammar chain.places) :
    Attempt.Honours s input around
      ((Agreement.once s input stage.wellFormed acyclic chain.places depth).terms levels) depth True
      (matchElementGuarded s reentering levels chain) := by
  induction levels generalizing depth chain with
  | zero =>
      intro id bound path p within sound level free
      have kept := matchElement_honours (.once s input stage.wellFormed acyclic chain.places depth)
        stage 0 depth enough True id bound path p within sound level free
      subst level
      unfold Ensures
      rwa [matchElementGuarded,
        guarded_of_not_trips (reentering_of_licence composites (free trivial))]
  | succ levels ih =>
      intro id bound path p within sound level free
      subst level
      obtain ⟨element, found⟩ := element_of_lt bound
      have stands := kind?_of_element found
      have untripped : reentering chain id path p = false :=
        reentering_of_licence composites (free trivial)
      by_cases leaf : element.kind.isLeaf = true
      · unfold Ensures
        rw [matchElementGuarded_leaf stands leaf untripped]
        exact matchElement_honours _ stage (levels + 1) p.depth enough True id bound path p within
          sound rfl free
      unfold Ensures
      rw [matchElementGuarded_succ untripped]
      by_cases may : p.failure = none ∧ s.Open p.depth
      · obtain ⟨quiet, opened⟩ := may
        -- Below the element the chain is longer by it, and what is licensed is lower or further on.
        have longer : Composites s.grammar (Chain.places ((id, p) :: chain)) :=
          composites.cons stands (by simpa using leaf) p.cursor.position
        have inner := matchKind_honours _ stage (ih (p.depth + 1) (by omega) longer)
          (reentering_leafwise _ stage longer levels (p.depth + 1) (by omega))
          (reentering_steady stage longer levels) within stands sound.entered rfl
          fun quiet => Agreement.once_cons (free quiet)
        rw [matchWith_entered quiet opened found]
        exact ensures_left (.once s input stage.wellFormed acyclic chain.places p.depth) stands inner
      · obtain ⟨failure, kept, refused⟩ := matchWith_refused may
        refine ensures_of_ok (refused _ id path) (came_of_refusal sound (fun _ none => may ?_) kept)
        exact ⟨none, (Agreement.once s input stage.wellFormed acyclic chain.places p.depth).opens
          (free trivial) sound.inside⟩

/-! ### Runs -/

section Runs

variable {root : ElementId}

variable (stage : Stage s input)
  (acyclic : ∀ id, ¬ TransGen (s.grammar.EntersAt s.options.version) id id)
  (bound : root < s.grammar.elements.size) (sound : p.Sound s.grammar input)
  (fresh : p.depth = 0) (quiet : p.failure = none)
  (room : s.grammar.elements.size * (input.size + 1) ≤ s.options.maxDepth)

include stage acyclic bound fresh room in
/-- The root may be entered where there is room for every element at every position. -/
theorem spacious_root (running : s.cancelled = false) :
    (Agreement.spacious s input stage.wellFormed acyclic).licence root p.cursor.position
      p.depth := by
  have height : s.grammar.heightAt s.options.version root < s.grammar.elements.size :=
    height_lt_size acyclic bound
  have fewer : s.grammar.elements.size * (input.size - p.cursor.position) ≤
      s.grammar.elements.size * input.size := Nat.mul_le_mul_left _ (Nat.sub_le _ _)
  rw [Nat.mul_succ] at room
  exact Or.inr ⟨bound, running, fun _ => by omega⟩

include stage acyclic bound sound fresh quiet room

/-- **With room for every element at every position no parse is aborted for its depth.** -/
theorem run_not_deep {outcome : Outcome} (ran : run s root [] p = .ok outcome q) (limit : Nat) :
    q.failure ≠ some (.depthExceeded limit) := by
  cases running : s.cancelled with
  | true =>
      rw [run, matchElement_cancelled running quiet] at ran
      cases ran
      exact nofun
  | false =>
      have kept := run_honours (.spacious s input stage.wellFormed acyclic) stage bound
        (fun frame none => absurd none List.not_mem_nil) sound True
        fun _ => spacious_root stage acyclic bound fresh room running
      obtain ⟨events, moved, -⟩ := kept.of_ok ran
      rw [moved.keeps.quiet trivial quiet]
      exact nofun

/-- **No element is entered while it is open at the same position.** -/
theorem run_enters_once : s.EntersOnce root p := by
  have going : s.halts reentering root p = false := by
    unfold Setting.halts
    cases running : s.cancelled with
    | true =>
        rw [matchElementGuarded_of_shut (decide_eq_false List.not_mem_nil)
          (enter_cancelled running quiet)]
    | false =>
        -- At the root nothing has been entered yet, and there is room for all that can be.
        have licence : (Agreement.once s input stage.wellFormed acyclic [] 0).licence root
            p.cursor.position 0 :=
          ⟨fresh ▸ spacious_root stage acyclic bound fresh room running,
            Or.inr fun entry none => absurd none List.not_mem_nil⟩
        have outermost : Composites s.grammar (Chain.places []) :=
          fun entry none => absurd none List.not_mem_nil
        have kept := reentering_honours stage acyclic [] s.options.maxDepth 0 le_rfl outermost root
          bound [] p (fun frame none => absurd none List.not_mem_nil) sound fresh fun _ => licence
        unfold Ensures at kept
        split
        · rename_i halted
          rw [halted] at kept
          exact kept.elim
        · rfl
  exact ⟨run_of_not_halts stage.reliable sound.faithful going, going⟩

end Runs

/-! ### Parses -/

variable {g : Grammar} {vocabulary : Vocabulary} {rules : List Rule} {name : Option String}
  {tokens : Array Token} {options : Options}

/-- **Nesting is bounded by the input.**  In a version that has every slot, a parse that may go as
deep as there are elements at every position and at the end is never aborted for its depth; for
no element is entered while it is open at the same position. -/
theorem parse_nests [Alphabet] (built : Grammar.ofRules vocabulary rules name = .ok g)
    (all : g.HasAll options.version)
    (room : ∀ opened, Cursor.ofTokens g.vocabulary tokens options.placeholder = .ok opened →
      g.elements.size * (opened.size + 1) ≤ options.maxDepth)
    (rule : Option String) (cancelled : Bool) {memo : Memo} (faithful : memo.Faithful g) :
    (∀ limit memo', g.parse tokens rule options cancelled memo ≠
      .ok (.error (.depthExceeded limit)) memo') ∧
    ∀ root opened, g.startAt rule = .ok root →
      Cursor.ofTokens g.vocabulary tokens options.placeholder = .ok opened →
        (g.setting options cancelled).EntersOnce root (opened.begin options memo) := by
  have wellFormed := Grammar.ofRules_wellFormed built
  have acyclic := wellFormed.not_reentersAt all
  have begun : ∀ opened, Cursor.ofTokens g.vocabulary tokens options.placeholder = .ok opened →
      Stage (g.setting options cancelled) opened.input ∧
        (opened.begin options memo).Sound g opened.input := by
    intro opened fresh
    have position := (Cursor.ofTokens_eq_ok fresh).2.2.1
    exact ⟨stage_of_ofTokens wellFormed fresh cancelled,
      ⟨rfl, position ▸ Nat.zero_le _, faithful⟩⟩
  -- There are as many levels as pairs of an element and a position.
  constructor
  · intro limit memo' parsed
    unfold Grammar.parse at parsed
    cases started : g.startAt rule with
    | error failure =>
        rw [started] at parsed
        cases parsed
        exact startAt_not_deep started
    | ok root =>
        rw [started] at parsed
        obtain ⟨opened, outcome, last, fresh, ran, failed⟩ :=
          parseFrom_deep wellFormed (startAt_lt wellFormed started) faithful parsed
        obtain ⟨stage, sound⟩ := begun opened fresh
        exact run_not_deep stage acyclic (startAt_lt wellFormed started) sound rfl rfl
          (room opened fresh) ran limit failed
  · intro root opened started fresh
    obtain ⟨stage, sound⟩ := begun opened fresh
    exact run_enters_once stage acyclic (startAt_lt wellFormed started) sound rfl rfl
      (room opened fresh)

theorem nested_hasAll (version : Nat) : nested.HasAll version :=
  Grammar.hasAll_of_elements (by simp [nested, Kind.slots, Slot.required, Slot.isActive])

/-- Options that leave room for six elements at four positions. -/
def nestedOptions : Options := { maxDepth := 6 * (3 + 1) }

/-- A word in parentheses nests no deeper than that. -/
theorem nestedTokens_nest :
    Grammar.ofRules nested.vocabulary nestedRules none = .ok nested ∧
      nested.HasAll nestedOptions.version ∧ nested.elements.size = 6 ∧
      ∃ opened, Cursor.ofTokens nested.vocabulary (nestedTokens 0 1 2) none = .ok opened ∧
        opened.size = 3 ∧
        (∀ limit memo, nested.parse (nestedTokens 0 1 2) none nestedOptions false
          nested.blankMemo ≠ .ok (.error (.depthExceeded limit)) memo) ∧
        (nested.setting nestedOptions false).EntersOnce 0
          (opened.begin nestedOptions nested.blankMemo) := by
  have room : ∀ opened, Cursor.ofTokens nested.vocabulary (nestedTokens 0 1 2)
      nestedOptions.placeholder = .ok opened →
        nested.elements.size * (opened.size + 1) ≤ nestedOptions.maxDepth := by
    intro opened fresh
    cases fresh
    decide
  obtain ⟨shallow, once⟩ := parse_nests nested_built (nested_hasAll _) room none false
    (Memo.blank_faithful nested)
  exact ⟨nested_built, nested_hasAll _, rfl, _, rfl, rfl, shallow, once 0 _ rfl rfl⟩

end Dialect
