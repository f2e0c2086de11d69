import Dialect.Proofs.Grammar.References
import Dialect.Proofs.Grammar.Validity
import Dialect.Proofs.Matching.Run

/-!
# Every element can be named where it is missing

What is expected where an element is missing is said in terms of the element that does the matching,
so saying it means following references.  No step count guards this; that it comes to an end rests
on the check that no rule can be entered again before a token is taken.  `references_end` puts
together what follows for the grammars that were accepted: how long a chain of references can be,
where it ends, and that a missing element can be described, has a code, and can be reported.
-/

set_option autoImplicit false

namespace Dialect

variable {g : Grammar} {vocabulary : Vocabulary} {rules : List Rule} {root : Option String}
  {id : ElementId}

/-- The rules of a grammar are those it was made of. -/
theorem names_of_ofRules [Alphabet] (built : Grammar.ofRules vocabulary rules root = .ok g) :
    g.rules.map Prod.fst = rules.map Rule.name := by
  obtain ⟨draft, -, -, -, laid, -, -, rfl, -⟩ := Grammar.ofRules_eq_ok built
  exact (Grammar.layOut_laysOut laid).names_eq

/-- What reporting a missing element comes to: a diagnostic is recorded at the cursor, unless the
token there has no range. -/
inductive Noted (p : Progress) : EStateM.Result Fault Progress Unit → Prop
  | recorded {found : Diagnostic} (anchored : p.cursor.currentRange = .ok found.range) :
      Noted p (.ok () (p.moveTo (p.cursor.extend 0 [.diagnostic found])))
  | beyond {fault : Fault} (misplaced : p.cursor.currentRange = .error fault) :
      Noted p (.error fault p)

/-- A missing element is reported, whatever the code. -/
theorem expected_noted {s : Setting} {input : Input} (stage : Stage s input)
    (bound : id < s.grammar.elements.size) {p : Progress} (sound : p.Sound s.grammar input)
    (code : DiagnosticCode) : Noted p (Matcher.expected s code id p) := by
  have anchored := expected_anchored stage code bound sound
  rw [← sound.range_eq] at anchored
  cases ranged : p.cursor.currentRange with
  | error fault =>
      rw [ranged] at anchored
      rw [anchored]
      exact .beyond ranged
  | ok range =>
      rw [ranged] at anchored
      obtain ⟨found, -, rfl, reported⟩ := anchored
      rw [reported]
      exact .recorded ranged

/-- **Chains of references end.**  From an element of an accepted grammar there are no more
references to follow than the grammar has rules, and the last one leads to an element that is none.
So a missing element can be described, has a code, and is reported from every state of a parse. -/
theorem references_end [Alphabet] (built : Grammar.ofRules vocabulary rules root = .ok g)
    (bound : id < g.elements.size) :
    (∃ steps, steps ≤ rules.length ∧ g.Chain id steps (g.resolve id)) ∧
    (∃ element, g.element (g.resolve id) = .ok element ∧
      ∀ target, element.kind ≠ .reference target) ∧
    (∃ words, g.describe id = .ok words) ∧
    (∃ code, g.missingCode id = .ok code) ∧
    ∀ {options : Options} {tokens : Array Token} {opened : Cursor} {p : Progress}
      (cancelled : Bool) (code : DiagnosticCode),
      Cursor.ofTokens g.vocabulary tokens options.placeholder = .ok opened →
      p.Sound g opened.input →
      Noted p (Matcher.expected (g.setting options cancelled) code id p) := by
  have wellFormed := Grammar.ofRules_wellFormed built
  obtain ⟨steps, few, chain⟩ := wellFormed.resolve_chain id
  have count : g.rules.length = rules.length := by
    simpa using congrArg List.length (names_of_ofRules built)
  refine ⟨⟨steps, count ▸ few, chain⟩, ?_, describe_ok wellFormed bound,
    missingCode_ok wellFormed bound, fun cancelled code fresh sound =>
      expected_noted (stage_of_ofTokens wellFormed fresh cancelled) bound sound code⟩
  obtain ⟨last, reached⟩ := element_of_lt (wellFormed.follow_lt (g.rules.length + 1) bound)
  refine ⟨last, reached, fun target refers => ?_⟩
  have leads : g.target? (g.resolve id) = some target :=
    Grammar.target?_eq_some.2 (refers ▸ kind?_of_element reached)
  rw [chain.target?_eq] at leads
  cases leads

/-- Rules that refer to one another, down to a token. -/
def relayedRules : List Rule :=
  [⟨"a", .reference "b"⟩, ⟨"b", .reference "c"⟩, ⟨"c", .token "A" none none⟩]

/-- The grammar of those rules. -/
def relayed : Grammar where
  vocabulary := ⟨"test", #[.keyword "A" "a"]⟩
  elements := #[
    ⟨0, "a", some "a", none, .reference 1⟩,
    ⟨1, "b", some "b", none, .reference 2⟩,
    ⟨2, "c", some "c", none, .token 0 none none⟩]
  rules := [("a", 0), ("b", 1), ("c", 2)]
  root := 0

/-- A parse of nothing. -/
def relayedStart : Progress :=
  ⟨⟨#[], #[], none, 0, #[], 0⟩, 0, false, [], none, relayed.blankMemo⟩

/-- From the first rule to the token there are two references to follow, and the token that is
missing at the end of an empty input is reported. -/
theorem relayed_references_end :
    (∃ steps, steps ≤ 3 ∧ relayed.Chain 0 steps 2) ∧
      Noted relayedStart (Matcher.expected (relayed.setting {} false) .E0301 0 relayedStart) := by
  have built : Grammar.ofRules relayed.vocabulary relayedRules none = .ok relayed := by
    with_unfolding_all rfl
  have fresh : Cursor.ofTokens relayed.vocabulary #[] ({} : Options).placeholder =
      .ok relayedStart.cursor := rfl
  have sound : relayedStart.Sound relayed relayedStart.cursor.input :=
    ⟨rfl, Nat.zero_le _, Memo.blank_faithful relayed⟩
  obtain ⟨chain, -, -, -, reported⟩ := references_end built
    (show 0 < relayed.elements.size by decide)
  exact ⟨chain, reported false .E0301 fresh sound⟩

end Dialect
