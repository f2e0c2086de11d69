import Dialect.Proofs.Grammar.Retrieval

/-!
# The names of elements

The elements of a rule are named after it: the first one has the name of the rule, and those
behind it the name and their number in the rule, delimiters and separators among them
(`Rule.elementNames`).  The sign between name and number is part of no rule's name, so a name
tells both the rule and the number (`Rule.elementName_inj`).

As rules have names of their own, a name stands for one element of a grammar, and as the numbers
are counted within a rule, what the elements of a rule are called does not depend on any other
rule (`ofRules_names`).
-/

set_option autoImplicit false

namespace Dialect

/-! ### The sign between name and number -/

namespace Name

theorem continues_hash [Alphabet] : continues '#' = false := by
  rw [continues, Alphabet.continues_hash]
  rfl

theorem opens_hash [Alphabet] : opens '#' = false := by
  have starts : Alphabet.starts '#' = false := by
    by_contra started
    have continued := Alphabet.continues_of_starts '#' (by simpa using started)
    exact Bool.false_ne_true (Alphabet.continues_hash.symm.trans continued)
  rw [opens, starts]
  rfl

/-- The sign that separates a name from a number is no part of any name. -/
theorem hash_notMem [Alphabet] {name : String}
    (valid : isValid name = true) : '#' ∉ name.toList := by
  unfold isValid at valid
  cases letters : name.toList with
  | nil => exact List.not_mem_nil
  | cons first rest =>
      rw [letters] at valid
      obtain ⟨opened, continued⟩ := Bool.and_eq_true_iff.1 valid
      intro member
      rcases List.mem_cons.1 member with rfl | later
      · exact Bool.false_ne_true (opens_hash.symm.trans opened)
      · have passed := List.all_eq_true.1 continued '#' later
        exact Bool.false_ne_true (continues_hash.symm.trans passed)

end Name

/-! ### The elements of one rule -/

namespace Rule

/-- What the element of a rule with the given number is called.  The first one has number 0. -/
def elementName (rule : Rule) : Nat → String
  | 0 => rule.name
  | number + 1 => rule.name ++ "#" ++ Nat.repr (number + 1)

/-- The names of all elements of a rule, in order. -/
def elementNames (rule : Rule) : List String :=
  (List.range (Grammar.ruleWidth rule)).map rule.elementName

variable {rule other : Rule} {k j : Nat}

theorem toList_elementName_succ (rule : Rule) (k : Nat) :
    (rule.elementName (k + 1)).toList = rule.name.toList ++ '#' :: Nat.toDigits 10 (k + 1) := by
  simp [elementName]

/-- Names with a number are the names of no rules. -/
theorem elementName_succ_ne [Alphabet] (valid : Name.isValid other.name = true) :
    rule.elementName (k + 1) ≠ other.name := by
  intro same
  apply Name.hash_notMem valid
  rw [← same, toList_elementName_succ]
  exact List.mem_append_right _ List.mem_cons_self

/-- **A name tells the rule and the number.** -/
theorem elementName_inj [Alphabet] (valid : Name.isValid rule.name = true)
    (valid' : Name.isValid other.name = true) (same : rule.elementName k = other.elementName j) :
    rule.name = other.name ∧ k = j := by
  cases k with
  | zero =>
      cases j with
      | zero => exact ⟨same, rfl⟩
      | succ j => exact absurd same.symm (elementName_succ_ne valid)
  | succ k =>
      cases j with
      | zero => exact absurd same (elementName_succ_ne valid')
      | succ j =>
          have digits : '#' ∉ Nat.toDigits 10 (k + 1) := fun member =>
            absurd (Nat.isDigit_of_mem_toDigits (by decide) (by decide) member) (by decide)
          have letters := congrArg String.toList same
          rw [toList_elementName_succ, toList_elementName_succ] at letters
          obtain ⟨names, -, numbers⟩ :=
            (List.append_cons_inj_of_notMem (Name.hash_notMem valid) digits).1 letters
          refine ⟨String.toList_inj.1 names, ?_⟩
          calc
            k + 1 = Nat.ofDigitChars 10 (Nat.toDigits 10 (k + 1)) 0 :=
              Nat.ofDigitChars_ten_toDigits.symm
            _ = Nat.ofDigitChars 10 (Nat.toDigits 10 (j + 1)) 0 := by rw [numbers]
            _ = j + 1 := Nat.ofDigitChars_ten_toDigits

end Rule

namespace Layout

variable {vocabulary : Vocabulary} {scope : Scope} {parent : Option ElementId} {id : ElementId}
  {definition : Definition} {block : Block}

/-- An element is called by its number in the rule. -/
theorem element_name (rule : Rule) (root k : Nat) (kind : Kind Mention) :
    (element ⟨vocabulary, rule.name, root⟩ parent (root + k) kind).name = rule.elementName k := by
  cases k with
  | zero => simp [element, Rule.elementName]
  | succ k => simp [element, Rule.elementName]

/-- All elements of a block are made for the scope of the block. -/
theorem exists_element_of_mem [Alphabet]
    (laid : Layout.block scope parent id definition = .ok block)
    {member : Element Mention} (inBlock : member ∈ block) :
    ∃ above own kind, member = element scope above own kind := by
  -- the block beside itself, where nothing is asked of the second element of each pair
  have carries : Carries scope scope (fun own => own) 0 0 (id + block.length) fun member _ =>
      ∃ above own kind, member = element scope above own kind :=
    ⟨rfl, rfl, fun own _ _ => (Nat.zero_add own).symm,
      fun above own kind _ _ => ⟨above, own, kind, rfl⟩⟩
  have beside := block_carried carries laid laid (by simp) (Nat.zero_le id) (by omega)
    (Nat.le_refl _)
  exact List.forall₂_same.1 beside member inBlock

/-- **The elements of the block of a rule are called by their numbers.** -/
theorem name_of_getElem? [Alphabet] {rule : Rule} {root k : Nat}
    (laid : Layout.block ⟨vocabulary, rule.name, root⟩ none root rule.definition = .ok block)
    {member : Element Mention} (found : block[k]? = some member) :
    member.name = rule.elementName k := by
  obtain ⟨above, own, kind, rfl⟩ := exists_element_of_mem laid (List.mem_of_getElem? found)
  have numbered := along_iff.1 (block_lays laid).numbered k _ found
  rw [element_id] at numbered
  rw [numbered, element_name]

end Layout

/-! ### The elements of a grammar -/

namespace Grammar

/-- The names of the element with the given id and of all below it, in order. -/
def namesFrom (g : Grammar) (id : ElementId) : List String :=
  (preorderFrom g.outline g.elements.size id).filterMap fun below =>
    g.elements[below]?.map Element.name

/-- The names of the elements of the named rule. -/
def namesOf (g : Grammar) (rule : String) : Option (List String) := (g.rule? rule).map g.namesFrom

section Built

variable [Alphabet] {vocabulary : Vocabulary} {rules : List Rule} {root : Option String}
  {g : Grammar}
  (built : ofRules vocabulary rules root = .ok g)

include built

/-- The elements of a rule are called by their numbers. -/
theorem name_of_mem_places {start : Nat} {rule : Rule}
    (member : (start, rule) ∈ places ruleWidth 0 rules) {k : Nat} (inside : k < ruleWidth rule) :
    g.elements[start + k]?.map Element.name = some (rule.elementName k) := by
  obtain ⟨draft, elements, from_, -, laid, linked, -, rfl, -⟩ := ofRules_eq_ok built
  obtain ⟨block, laidBlock, stands⟩ := (layOut_lines laid).blocks _ member
  have bound : k < block.length := (Layout.block_length laidBlock).symm ▸ inside
  have found : block[k]? = some block[k] := List.getElem?_eq_getElem bound
  obtain ⟨after, there, done⟩ :=
    (getElem?_of_mapM_eq_ok linked).2 _ _ ((stands k bound).trans found)
  obtain ⟨kind, -, rfl⟩ := map_eq_ok.1 done
  simp [there, Layout.name_of_getElem? laidBlock found]

/-- Every element is one of a rule and has the name for its number there. -/
theorem exists_rule_of_getElem? {id : ElementId} {element : Element ElementId}
    (found : g.elements[id]? = some element) :
    ∃ start rule k, (start, rule) ∈ places ruleWidth 0 rules ∧ id = start + k ∧
      element.name = rule.elementName k := by
  have bound : id < 0 + extent ruleWidth rules := by
    rw [Nat.zero_add, ← size_eq_of_ofRules built]
    exact (Array.getElem?_eq_some_iff.1 found).1
  obtain ⟨⟨start, rule⟩, member, k, inside, rfl⟩ := exists_place (Nat.zero_le id) bound
  have named := name_of_mem_places built member inside
  rw [found, Option.map_some] at named
  exact ⟨start, rule, k, member, rfl, Option.some.inj named⟩

/-- Rules are called by identifiers. -/
theorem isValid_of_mem_places {start : Nat} {rule : Rule}
    (member : (start, rule) ∈ places ruleWidth 0 rules) : Name.isValid rule.name = true := by
  obtain ⟨draft, -, -, -, laid, -⟩ := ofRules_eq_ok built
  exact (layOut_laysOut laid).named rule (exists_mem_places.1 ⟨start, member⟩)

/-- **A name stands for one element.** -/
theorem id_eq_of_name_eq {id id' : ElementId} {element element' : Element ElementId}
    (found : g.elements[id]? = some element) (found' : g.elements[id']? = some element')
    (same : element.name = element'.name) : id = id' := by
  obtain ⟨start, rule, k, member, rfl, named⟩ := exists_rule_of_getElem? built found
  obtain ⟨start', rule', k', member', rfl, named'⟩ := exists_rule_of_getElem? built found'
  obtain ⟨names, rfl⟩ := Rule.elementName_inj (isValid_of_mem_places built member)
    (isValid_of_mem_places built member') (named.symm.trans (same.trans named'))
  have starts := rule?_of_mem_places built member
  rw [names, rule?_of_mem_places built member'] at starts
  rw [Option.some.inj starts]

/-- No name is given twice. -/
theorem names_nodup : (g.elements.toList.map Element.name).Nodup := by
  refine List.pairwise_iff_getElem.2 fun i j first second before same => ?_
  rw [List.getElem_map, List.getElem_map] at same
  have i_eq_j : i = j := id_eq_of_name_eq built (by simp) (by simp) same
  exact Nat.ne_of_lt before i_eq_j

/-- **The elements of a rule have the names that come from the rule.** -/
theorem namesOf_eq {rule : Rule} (member : rule ∈ rules) :
    g.namesOf rule.name = some rule.elementNames := by
  obtain ⟨start, stands⟩ : ∃ start, (start, rule) ∈ places ruleWidth 0 rules :=
    exists_mem_places.2 member
  have inside : ∀ k ∈ List.range (ruleWidth rule),
      (g.elements[start + k]?.map Element.name) = some (rule.elementName k) :=
    fun k bound => name_of_mem_places built stands (List.mem_range.1 bound)
  rw [namesOf, rule?_of_mem_places built stands, Option.map_some, namesFrom,
    (block_of_ofRules built stands).2, List.range'_eq_map_range, List.filterMap_map,
    Rule.elementNames]
  refine congrArg some ((List.filterMap_congr inside).trans ?_)
  exact congrFun List.filterMap_eq_map' _

/-- **Element names identify elements and are stable.**  No two elements of a grammar have the same
name, whichever rules they belong to.  The elements of a rule are called by its name and the numbers
counted within it, so they are called the same in every grammar that has the rule, whatever other
rules there are and wherever among them the rule is written. -/
theorem ofRules_names :
    (g.elements.toList.map Element.name).Nodup ∧
    (∀ rule ∈ rules, g.namesOf rule.name = some rule.elementNames) ∧
    ∀ {vocabulary' : Vocabulary} {rules' : List Rule} {root' : Option String} {h : Grammar},
      ofRules vocabulary' rules' root' = .ok h →
        ∀ rule ∈ rules, rule ∈ rules' → h.namesOf rule.name = g.namesOf rule.name := by
  refine ⟨names_nodup built, fun rule member => namesOf_eq built member,
    fun built' rule member member' => ?_⟩
  rw [namesOf_eq built member, namesOf_eq built' member']

end Built

/-- The second of the two rules behind another one. -/
def wordRules : List Rule := [⟨"word", .token "A" none none⟩, dropRules[1]]

/-- The grammar of these rules, where the elements of the rule have other ids. -/
def word : Grammar where
  vocabulary := drop.vocabulary
  elements := #[
    ⟨0, "word", some "word", none, .token 0 none none⟩,
    ⟨1, "name", some "name", none, .oneOf [.required 2, ⟨7, false, 2⟩] true⟩,
    ⟨2, "name#1", none, some 1, .qualified [[3, 4], [5]] 6⟩,
    ⟨3, "name#2", none, some 2, .identifier .reference false none⟩,
    ⟨4, "name#3", none, some 2, .identifier .reference false (some "t")⟩,
    ⟨5, "name#4", none, some 2, .token 0 none none⟩,
    ⟨6, "name#5", none, some 2, .token 2 none none⟩,
    ⟨7, "name#6", none, some 1, .token 3 none none⟩]
  rules := [("word", 0), ("name", 1)]
  root := 0

/-- The elements of the rule are called the same with another rule before it. -/
theorem dropRules_named :
    ofRules drop.vocabulary dropRules none = .ok drop ∧
      ofRules word.vocabulary wordRules none = .ok word ∧
      (drop.elements.toList.map Element.name).Nodup ∧
      drop.namesOf "name" =
        some ["name", "name#1", "name#2", "name#3", "name#4", "name#5", "name#6"] ∧
      word.namesOf "name" = drop.namesOf "name" := by
  have built : ofRules drop.vocabulary dropRules none = .ok drop := by with_unfolding_all rfl
  have built' : ofRules word.vocabulary wordRules none = .ok word := by with_unfolding_all rfl
  obtain ⟨distinct, named, stable⟩ := ofRules_names built
  have here : dropRules[1] ∈ dropRules := List.getElem_mem _
  have there : dropRules[1] ∈ wordRules := by simp [wordRules]
  refine ⟨built, built', distinct, (named _ here).trans ?_, stable built' _ here there⟩
  with_unfolding_all rfl

end Grammar

end Dialect
