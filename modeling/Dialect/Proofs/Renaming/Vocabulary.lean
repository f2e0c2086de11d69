import Dialect.Proofs.Renaming.Parse

/-!
# Grammars in another vocabulary

A grammar may be put in another vocabulary as long as leaves cannot tell the two apart
(`Vocabulary.Similar`).  What the token types are may still differ in whether they are
chameleons.  A parse that tries every active alternative of a choice does not look at that, so it
comes to the same in both vocabularies (`answers_inVocabulary`).
-/

set_option autoImplicit false

namespace Dialect

/-- The grammar in another vocabulary. -/
def Grammar.inVocabulary (g : Grammar) (vocabulary : Vocabulary) : Grammar := { g with vocabulary }

section Vocabulary

variable {g : Grammar} {w : Vocabulary} (similar : g.vocabulary.Similar w) {options : Options}
  {cancelled : Bool} {tokens : Array Token}

include similar

theorem Grammar.WellFormed.inVocabulary (wellFormed : g.WellFormed) :
    (g.inVocabulary w).WellFormed where
  placed id kind stands := by
    have placed := wellFormed.placed id kind stands
    cases kind with
    | token type text flavor =>
        show type < w.types.size
        rw [similar.size_eq]
        exact placed
    | _ => exact placed
  targets := wellFormed.targets
  roots := wellFormed.roots
  root_lt := wellFormed.root_lt
  noReentry := wellFormed.noReentry

theorem Grammar.image_inVocabulary : g.Image id (g.inVocabulary w) where
  similar := similar
  size_eq := rfl
  rules_length := rfl
  elements place element found := by
    refine ⟨element, found, rfl, ?_⟩
    have renamed : element.kind.Image id (element.kind.rename id id) := .renamed _
    rwa [Kind.rename_id] at renamed
  beyond _ _ := rfl

variable (wellFormed : g.WellFormed)

include wellFormed

/-- Trying every active alternative in both vocabularies. -/
theorem fair_inVocabulary (input : Input) :
    (Mirror.over (g.setting options cancelled).exhaustive
      ((g.inVocabulary w).setting options cancelled).exhaustive id input).Fair where
  image := Grammar.image_inVocabulary similar
  wellFormed := wellFormed
  wellFormed' := wellFormed.inVocabulary similar
  reliable := (remembering_reliable wellFormed).exhaustive
  reliable' := (remembering_reliable (wellFormed.inVocabulary similar)).exhaustive
  options_eq := rfl
  cancelled_eq := rfl
  inputs := Mirror.over_inputs _ _ _ _

/-- The same alternatives are tried, whatever the tokens are. -/
theorem orderly_inVocabulary (input : Input) :
    (Mirror.over (g.setting options cancelled).exhaustive
      ((g.inVocabulary w).setting options cancelled).exhaustive id input).Orderly := by
  refine Mirror.orderly_of_renamed (fair_inVocabulary similar wellFormed input)
    (fun id kind stands => ?_) fun k current slot _ => ?_
  · exact stands.trans (congrArg some kind.rename_id.symm)
  · have active : ∀ s : Setting, s.exhaustive.letsAt input k current slot =
        slot.isActive s.options.version := fun s => s.lets_exhaustive
    exact (active ((g.inVocabulary w).setting options cancelled)).trans
      (active (g.setting options cancelled)).symm

/-- **A parse that tries every active alternative comes to the same in both vocabularies.** -/
theorem answers_inVocabulary (root : ElementId) {memo memo' : Memo} (faithful : memo.Faithful g)
    (faithful' : memo'.Faithful (g.inVocabulary w)) :
    answerWith (Grammar.parseFrom ((g.inVocabulary w).setting options cancelled).exhaustive root
        tokens) memo' =
      answerWith (Grammar.parseFrom (g.setting options cancelled).exhaustive root tokens) memo := by
  have same := @answers_parseFrom_image (g.setting options cancelled).exhaustive
    ((g.inVocabulary w).setting options cancelled).exhaustive id tokens
    (Grammar.image_inVocabulary similar) wellFormed (wellFormed.inVocabulary similar)
    (remembering_reliable wellFormed).exhaustive
    (remembering_reliable (wellFormed.inVocabulary similar)).exhaustive rfl rfl
    (fun opened _ => orderly_inVocabulary similar wellFormed opened.input) root memo faithful
  rw [Parse.rename_id] at same
  refine (same.answerWith_eq faithful').trans ?_
  cases answerWith (Grammar.parseFrom (g.setting options cancelled).exhaustive root tokens) memo with
  | error fault => rfl
  | ok answer => cases answer <;> rfl

end Vocabulary

end Dialect
