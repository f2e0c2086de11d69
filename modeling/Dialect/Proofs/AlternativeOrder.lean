import Dialect.Proofs.Prediction.Overlaps
import Dialect.Proofs.Renaming.Parse
import Dialect.Proofs.Renaming.Reordering

/-!
# The order of alternatives

The order in which the alternatives of a choice are written makes no difference if no overlap is
told of it (`ofRules_alternatives_perm`).  At every token that can be predicted at most one of
them is tried (`filter_tried_perm`): two that may begin with the same token type are told of,
unless only one of them may begin with an identifier, and then they are put in order whatever the
order in which they were written.
-/

set_option autoImplicit false

namespace Dialect

section Apart

variable {g : Grammar} {alternatives order : List (Slot ElementId)} {sortable : Bool}

/-- If no two items of a list are let through, the same are let through whatever their order. -/
theorem filter_eq_of_perm {α : Type} {lets : α → Bool} {order others : List α}
    (perm : others.Perm order) (apart : order.Pairwise fun a b => ¬ (lets a = true ∧ lets b = true)) :
    others.filter lets = order.filter lets := by
  have none : (order.filter lets).Pairwise fun _ _ => False := by
    refine (apart.filter lets).imp_of_mem fun first second both => both ⟨?_, ?_⟩
    · exact (List.mem_filter.1 first).2
    · exact (List.mem_filter.1 second).2
  have moved := perm.filter lets
  exact moved.eq_of_pairwise (fun _ _ _ _ never => never.elim) ((moved.pairwise_iff id).2 none) none

/-- No two of the alternatives overlap. -/
abbrev Apart (g : Grammar) (sortable : Bool) (alternatives : List (Slot ElementId)) : Prop :=
  alternatives.Pairwise fun earlier own => (Overlap.shared sortable
    (FirstSets.ofElement g earlier.item) (FirstSets.ofElement g own.item)).isEmpty = true

/-- Alternatives of which nothing is told are apart. -/
theorem apart_of_untold {x : ElementId} {element : Element ElementId}
    (found : g.elements[x]? = some element) (kind : element.kind = .oneOf alternatives sortable)
    (untold : ∀ overlap ∈ g.elements.toList.filterMap (Overlap.of? g),
      overlap.element ≠ element.id) : Apart g sortable alternatives := by
  have nothing : Overlap.of? g element = none := by
    by_contra told
    obtain ⟨overlap, told⟩ := Option.ne_none_iff_exists'.1 told
    have listed : element ∈ g.elements.toList :=
      List.mem_of_getElem? (Array.getElem?_toList ▸ found)
    refine untold overlap (List.mem_filterMap.2 ⟨element, listed, told⟩) ?_
    unfold Overlap.of? at told
    rw [kind] at told
    unfold Overlap.ofChoice? at told
    dsimp only at told
    split at told
    · cases told
    · rw [← Option.some.inj told]
  unfold Overlap.of? at nothing
  rw [kind] at nothing
  unfold Overlap.ofChoice? at nothing
  dsimp only at nothing
  split at nothing
  · rename_i empty
    exact List.pairwise_map.1 (Overlap.compareAll_places_eq_nil.1 (List.isEmpty_iff.1 empty))
  · cases nothing

/-- **Of alternatives that are apart at most one of each shape is tried**, so those that are tried
come in the same order whatever the order in which they were written. -/
theorem filter_tried_perm {lets : Slot ElementId → Bool} {current : TokenTypeId}
    (perm : order.Perm alternatives) (apart : Apart g sortable alternatives)
    (takes : ∀ slot, lets slot = true → current ∈ (FirstSets.ofElement g slot.item).possible) :
    ((Kind.oneOf order sortable).tried g).filter lets =
      ((Kind.oneOf alternatives sortable).tried g).filter lets := by
  cases sortable with
  | false =>
      refine filter_eq_of_perm perm (apart.imp fun nothing both => ?_)
      exact TokenSet.isEmpty_iff.1 nothing current
        (TokenSet.mem_inter.2 ⟨takes _ both.1, takes _ both.2⟩)
  | true =>
      -- Sorting puts identifiers last, so the order is kept within each shape only.
      have shapes : ∀ wanted : Bool,
          (order.filter fun slot =>
            (FirstSets.ofElement g slot.item).identifierShaped == wanted).filter lets =
          (alternatives.filter fun slot =>
            (FirstSets.ofElement g slot.item).identifierShaped == wanted).filter lets := by
        intro wanted
        refine filter_eq_of_perm (perm.filter _) ?_
        refine (apart.filter _).imp_of_mem fun {a b} first second nothing both => ?_
        have same : (FirstSets.ofElement g a.item).identifierShaped =
            (FirstSets.ofElement g b.item).identifierShaped := by
          rw [eq_of_beq (List.mem_filter.1 first).2, eq_of_beq (List.mem_filter.1 second).2]
        simp only [Overlap.shared, same, bne_self_eq_false, Bool.and_false] at nothing
        exact TokenSet.isEmpty_iff.1 nothing current
          (TokenSet.mem_inter.2 ⟨takes _ both.1, takes _ both.2⟩)
      have unshaped := shapes false
      have shaped := shapes true
      simp only [beq_false, beq_true] at unshaped shaped
      rw [Kind.tried, Kind.tried, identifiersLast_map, identifiersLast_map, List.filter_append,
        List.filter_append, unshaped, shaped]

end Apart

/-- The token is neither the placeholder nor a chameleon: what begins there can be predicted. -/
def Token.Predictable (vocabulary : Vocabulary) (placeholder : Option String) (token : Token) : Prop :=
  placeholder ≠ some token.text ∧ vocabulary.has TokenType.isChameleon token.kind = false

namespace Grammar

section Reordered

variable {σ : Equiv.Perm ElementId} {x : ElementId} {g h : Grammar} {options : Options}
  {cancelled : Bool} {tokens : Array Token} {opened : Cursor}

/-- At a token that can be predicted only alternatives that may begin with it are tried. -/
theorem mem_possible_of_letsAt
    (predictable : ∀ token ∈ tokens, token.Predictable g.vocabulary options.placeholder)
    (fresh : Cursor.ofTokens g.vocabulary tokens options.placeholder = .ok opened) {k : Nat}
    {current : Token} (found : opened.input.token? k = some current) {slot : Slot ElementId}
    (admitted : (g.setting options cancelled).letsAt opened.input k current slot = true) :
    current.kind ∈ (FirstSets.ofElement g slot.item).possible := by
  obtain ⟨tokens_eq, placeholder_eq, -⟩ := Cursor.ofTokens_eq_ok fresh
  have listed : current ∈ tokens := tokens_eq ▸ mem_of_token? found
  obtain ⟨other, ordinary⟩ := predictable current listed
  have shown : (opened.input.cursorAt k).current? = some current := found
  have marked : (opened.input.cursorAt k).placeholder = options.placeholder := placeholder_eq
  have unmarked : (opened.input.cursorAt k).atPlaceholder = false := by
    unfold Cursor.atPlaceholder
    rw [shown, marked]
    cases placeholder : options.placeholder with
    | none => rfl
    | some text => exact beq_false_of_ne fun same => other (placeholder.trans (congrArg some same))
  have filtered : (g.setting options cancelled).lets false current.kind slot = true := by
    rw [← admitted, Setting.letsAt, unmarked, Bool.false_or]
    exact congrArg (fun unfiltered => Setting.lets _ unfiltered current.kind slot) ordinary.symm
  exact (Bool.and_eq_true_iff.1 filtered).2

variable (reordered : Reordered σ x g h) (wellFormed : g.WellFormed) (wellFormed' : h.WellFormed)

include reordered wellFormed wellFormed'

/-- **The alternatives that are tried come in the same order.** -/
theorem Reordered.orderly
    (apart : ∀ alternatives sortable, g.kind? x = some (.oneOf alternatives sortable) →
      Apart g sortable alternatives)
    (predictable : ∀ token ∈ tokens, token.Predictable g.vocabulary options.placeholder)
    (fresh : Cursor.ofTokens g.vocabulary tokens options.placeholder = .ok opened) :
    (Mirror.over (g.setting options cancelled) (h.setting options cancelled) σ
      opened.input).Orderly := by
  have fair : (Mirror.over (g.setting options cancelled) (h.setting options cancelled) σ
      opened.input).Fair :=
    ⟨reordered.image, wellFormed, wellFormed', remembering_reliable wellFormed,
      remembering_reliable wellFormed', rfl, rfl, Mirror.over_inputs _ _ _ _⟩
  have same := fun k current (slot : Slot ElementId) bound =>
    @Mirror.letsAt_rename _ fair rfl (fun type =>
      congrArg (fun vocabulary : Vocabulary => vocabulary.has TokenType.isChameleon type)
        reordered.vocabulary_eq) k current slot bound
  intro id order order' choice tried tried' k current found
  -- All other choices are images of their own, with their alternatives in the same order.
  by_cases own : id = x
  · subst own
    obtain ⟨alternatives, sortable, stands⟩ := choice
    obtain ⟨kind', stands', follows⟩ := reordered.image.exists_kind stands
    obtain ⟨written, perm, rfl⟩ : ∃ written : List (Slot ElementId), written.Perm alternatives ∧
        kind' = .oneOf (written.map (Slot.rename σ)) sortable := by
      cases follows with
      | renamed => exact ⟨alternatives, .refl _, rfl⟩
      | reordered perm => exact ⟨_, perm, rfl⟩
    have bound : ∀ slot ∈ written, slot.item < g.elements.size := fun slot member =>
      wellFormed.part_lt_size stands (List.mem_map_of_mem (perm.mem_iff.1 member))
    have order_eq : order = (Kind.oneOf alternatives sortable).tried g :=
      Except.ok.inj (tried.symm.trans (triedOf_of_kind? stands))
    have order_eq' : order' = ((Kind.oneOf written sortable).tried g).map (Slot.rename σ) :=
      (Except.ok.inj (tried'.symm.trans (triedOf_of_kind? stands'))).trans
        (tried_rename reordered.image wellFormed wellFormed' sortable bound)
    rw [order_eq, order_eq', List.filter_map]
    refine congrArg _ (Eq.trans (List.filter_congr fun slot member => ?_)
      (filter_tried_perm perm (apart _ _ stands) fun slot =>
        mem_possible_of_letsAt predictable fresh found))
    exact same k current slot (bound slot (Kind.mem_tried.1 member))
  · have ⟨alternatives, sortable, stands⟩ := choice
    exact Mirror.filter_tried fair stands (reordered.renames id _ own stands) choice tried tried'
      fun slot bound => same k current slot bound

end Reordered

/-- **The order in which alternatives are written makes no difference** if no overlap is told of
the choice.  The rules with the alternatives in another order are accepted too, and every input
without placeholder and chameleons is parsed alike with both grammars, but for the ids of
elements. -/
theorem ofRules_alternatives_perm [Alphabet] {vocabulary : Vocabulary} {rules others : List Rule}
    {x : Nat}
    (permutes : Rule.Permutes x rules others) {root : Option String} {g : Grammar}
    (built : ofRules vocabulary rules root = .ok g) {memo : Memo} (faithful : memo.Faithful g)
    {told : List Overlap} (asked : answerWith g.overlaps memo = .ok told)
    (untold : ∀ overlap ∈ told, overlap.element ≠ x) :
    ∃ h σ, ofRules vocabulary others root = .ok h ∧ g.Reordered σ x h ∧
      ∀ tokens rule options cancelled memo memo',
        (∀ token ∈ tokens, token.Predictable vocabulary options.placeholder) →
        memo.Faithful g → memo'.Faithful h →
          answerWith (h.parse tokens rule options cancelled) memo' =
            (answerWith (g.parse tokens rule options cancelled) memo).map
              (Except.map (Parse.rename σ)) := by
  obtain ⟨h, σ, built', reordered⟩ := ofRules_reordered permutes built
  have wellFormed := ofRules_wellFormed built
  have wellFormed' := ofRules_wellFormed built'
  have vocabulary_eq : g.vocabulary = vocabulary := by
    obtain ⟨_, _, _, -, -, -, -, rfl, -⟩ := ofRules_eq_ok built
    rfl
  rw [(answers_overlaps_of wellFormed).answerWith_eq faithful] at asked
  have told_eq := Except.ok.inj asked
  -- The choice is not reported, so none of its alternatives overlap.
  have apart : ∀ alternatives sortable, g.kind? x = some (.oneOf alternatives sortable) →
      Apart g sortable alternatives := by
    intro alternatives sortable stands
    obtain ⟨element, found, kind⟩ := kind?_eq_some.1 stands
    refine apart_of_untold found kind ?_
    rw [told_eq, id_eq_of_ofRules built found]
    exact untold
  have rules_eq : ∀ name, h.rule? name = (g.rule? name).map σ := by
    intro name
    unfold rule?
    rw [reordered.rules_eq]
    cases found : g.rules.lookup name with
    | none => rfl
    | some id => exact congrArg some (reordered.fixed _ (mem_of_lookup found)).symm
  refine ⟨h, σ, built', reordered, ?_⟩
  intro tokens rule options cancelled memo memo' predictable faithful faithful'
  exact parse_image reordered.image wellFormed wellFormed' rules_eq
    (reordered.root_eq.trans reordered.root_fixed.symm)
    (fun opened fresh => reordered.orderly wellFormed wellFormed' apart
      (vocabulary_eq ▸ predictable) fresh) rule faithful faithful'

/-- A name, or else the word that may also be read as one. -/
def switchAlternatives : List (Slot Definition) :=
  [.required (.identifier .reference false none), .required (.token "ON" none none)]

/-- One of the alternatives and an end. -/
def switchRules (alternatives : List (Slot Definition)) : List Rule :=
  [⟨"entry", .sequence
    [.required (.oneOf alternatives true), .required (.token "END" none none)]⟩]

/-- The grammar of the rules with the name in front. -/
def switch : Grammar where
  vocabulary := ⟨"test", #[⟨"ON", some "on", .keyword, true⟩, .keyword "END" "end"]⟩
  elements := #[
    ⟨0, "entry", some "entry", none, .sequence [.required 1, .required 4]⟩,
    ⟨1, "entry#1", none, some 0, .oneOf [.required 2, .required 3] true⟩,
    ⟨2, "entry#2", none, some 1, .identifier .reference false none⟩,
    ⟨3, "entry#3", none, some 1, .token 0 none none⟩,
    ⟨4, "entry#4", none, some 0, .token 1 none none⟩]
  rules := [("entry", 0)]
  root := 0

/-- The word and the end. -/
def switchTokens : Array Token := #[⟨0, "on", 0⟩, ⟨1, "end", 3⟩]

/-- The word is put in front of the name however the two were written. -/
theorem switch_unordered :
    Rule.Permutes 1 (switchRules switchAlternatives) (switchRules switchAlternatives.reverse) ∧
      ofRules switch.vocabulary (switchRules switchAlternatives) none = .ok switch ∧
      answerWith switch.overlaps switch.blankMemo = .ok [] ∧
      ∃ h σ, ofRules switch.vocabulary (switchRules switchAlternatives.reverse) none = .ok h ∧
        switch.Reordered σ 1 h ∧
        answerWith (h.parse switchTokens none {} false) h.blankMemo =
          (answerWith (switch.parse switchTokens none {} false) switch.blankMemo).map
            (Except.map (Parse.rename σ)) := by
  have permutes : Rule.Permutes 1 (switchRules switchAlternatives)
      (switchRules switchAlternatives.reverse) :=
    @Rule.Permutes.inside [] [] _ _ _ _
      (@Definition.Permutes.sequence [] _ (.required (.oneOf switchAlternatives true)) _ _
        (.here (List.reverse_perm switchAlternatives).symm))
  have built : ofRules switch.vocabulary (switchRules switchAlternatives) none = .ok switch := by
    with_unfolding_all rfl
  have asked : answerWith switch.overlaps switch.blankMemo = .ok [] := by
    with_unfolding_all rfl
  obtain ⟨h, σ, built', reordered, parsed⟩ :=
    ofRules_alternatives_perm permutes built (Memo.blank_faithful switch) asked nofun
  have predictable : ∀ token ∈ switchTokens,
      token.Predictable switch.vocabulary ({} : Options).placeholder := by
    unfold Token.Predictable
    decide
  exact ⟨permutes, built, asked, h, σ, built', reordered,
    parsed switchTokens none {} false _ _ predictable (Memo.blank_faithful switch)
      (Memo.blank_faithful h)⟩

end Grammar

end Dialect
