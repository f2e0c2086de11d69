import Dialect.Proofs.Enclosing.Extension
import Dialect.Proofs.Grammar.Retrieval

/-!
# Rules behind others

Rules are laid out one behind the other, and what a name stands for does not change when more
rules follow.  So the grammar of some rules is extended by that of the same rules with others
behind them (`Grammar.extends_of_ofRules`).

Among these others may be one that puts a rule in any number of delimiters
(`Grammar.exists_wraps`).
-/

set_option autoImplicit false

namespace Dialect

/-- What is linked stays linked when more names are known. -/
theorem Element.link_mono {resolve resolve' : Mention → Except DefinitionError ElementId}
    (known : ∀ mention id, resolve mention = .ok id → resolve' mention = .ok id)
    {element : Element Mention} {linked : Element ElementId}
    (done : element.link resolve = .ok linked) : element.link resolve' = .ok linked := by
  obtain ⟨kind, kindDone, rfl⟩ := map_eq_ok.1 done
  refine map_eq_ok.2 ⟨kind, ?_, rfl⟩
  generalize element.kind = declared at kindDone
  cases declared with
  | reference mention =>
      obtain ⟨id, found, rfl⟩ := map_eq_ok.1 kindDone
      exact map_eq_ok.2 ⟨id, known mention id found, rfl⟩
  | _ => exact kindDone

namespace Grammar

variable {vocabulary : Vocabulary} {rules more : List Rule}

/-! ### More rules behind -/

section Drafts

variable {before after : Draft}

/-- One more rule is laid out behind what has been laid out. -/
theorem add_extends [Alphabet] {rule : Rule}
    (added : Draft.add vocabulary before rule = .ok after) :
    before.elements <+: after.elements ∧ before.rules <+: after.rules := by
  obtain ⟨-, -, block, -, rfl⟩ := add_eq_ok.1 added
  exact ⟨List.prefix_append _ _, List.prefix_append _ _⟩

/-- More rules are laid out behind what has been laid out. -/
theorem layOut_extends [Alphabet] (laid : layOut vocabulary rules = .ok before)
    (laidMore : layOut vocabulary (rules ++ more) = .ok after) :
    before.elements <+: after.elements ∧ before.rules <+: after.rules := by
  rw [layOut, List.foldlM_append] at laidMore
  obtain ⟨middle, laid', added⟩ := bind_eq_ok.1 laidMore
  obtain rfl := Except.ok.inj (laid.symm.trans laid')
  refine foldlM_induction (fun draft => before.elements <+: draft.elements ∧
    before.rules <+: draft.rules) added ⟨List.prefix_rfl, List.prefix_rfl⟩ ?_
  rintro _ _ _ step ⟨elements, names⟩
  have further := add_extends step
  exact ⟨elements.trans further.1, names.trans further.2⟩

/-- What a name stands for does not change when more names follow. -/
theorem lookup_of_longer {entries entries' : List (String × ElementId)} (first : entries <+: entries')
    {name : String} {id : ElementId} (found : entries.lookup name = some id) :
    entries'.lookup name = some id := by
  obtain ⟨others, rfl⟩ := first
  rw [List.lookup_append, found]
  rfl

end Drafts

/-- **A grammar is extended by that of the same rules with more behind them.** -/
theorem extends_of_ofRules [Alphabet] {root root' : Option String} {g h : Grammar}
    (built : ofRules vocabulary rules root = .ok g)
    (built' : ofRules vocabulary (rules ++ more) root' = .ok h) : g.Extends h := by
  obtain ⟨draft, elements, start, -, laid, linked, -, rfl, -⟩ := ofRules_eq_ok built
  obtain ⟨draft', elements', start', -, laid', linked', -, rfl, -⟩ := ofRules_eq_ok built'
  obtain ⟨first, names⟩ := layOut_extends laid laid'
  refine ⟨rfl, fun id element found => ?_, names⟩
  obtain ⟨written, stood, done⟩ := exists_written linked (by simpa using found)
  have stood' : draft'.elements[id]? = some written := by
    obtain ⟨others, same⟩ := first
    rw [← stood, ← same]
    exact List.getElem?_append_left (List.getElem?_eq_some_iff.1 stood).1
  obtain ⟨_, there', done'⟩ := (getElem?_of_mapM_eq_ok linked').2 id _ stood'
  have same := Element.link_mono (fun mention id resolved =>
    resolveMention_eq_ok.2 (lookup_of_longer names (resolveMention_eq_ok.1 resolved))) done
  obtain rfl := Except.ok.inj (same.symm.trans done')
  simpa using there'

/-! ### A rule in delimiters -/

/-- An element that stands for any number of delimiters around a reference. -/
structure Wraps (g : Grammar) (id item target opening closing : ElementId) (b c : TokenTypeId) :
    Prop where
  stands : g.kind? id = some (.wrapper opening ⟨item, false, 0⟩ closing true)
  refers : g.kind? item = some (.reference target)
  begins : g.kind? opening = some (.token b none none)
  ends : g.kind? closing = some (.token c none none)

variable {root name : Option String} {g : Grammar} {inner outer first last : String}
  {b c : TokenTypeId}

/-- The element of a token definition asks for that token. -/
theorem Renders.token [Alphabet] (renders : g.Renders rules) {id : ElementId} {type : TokenTypeId}
    (declared : g.vocabulary.resolve first = .ok type)
    (stands : written rules id = some (.token first none none)) :
    g.kind? id = some (.token type none none) := by
  obtain ⟨laid, kind, laidOut, there, linked⟩ := renders.stands id _ stands
  cases laidOut with
  | token resolved =>
      obtain rfl := Except.ok.inj (declared.symm.trans resolved)
      cases linked
      exact there

/-- **A rule that puts another in any number of delimiters** comes to a wrapper around a reference
to the root of the other. -/
theorem exists_wraps [Alphabet] (built : ofRules vocabulary rules root = .ok g)
    (member : ⟨outer, .wrapper first (.required (.reference inner)) last true⟩ ∈ rules)
    (declared : vocabulary.resolve first = .ok b) (declared' : vocabulary.resolve last = .ok c) :
    ∃ id item target opening closing, g.rule? outer = some id ∧ g.rule? inner = some target ∧
      g.Wraps id item target opening closing b c := by
  have renders := renders_of_ofRules built
  obtain rfl := vocabulary_of_ofRules built
  obtain ⟨⟨_, id⟩, inRules, rfl, written⟩ := exists_right renders.roots member
  obtain ⟨laid, kind, laidOut, stands, linked⟩ := renders.stands id _ written
  cases laidOut with
  | @wrapper _ _ _ _ opening slot closing opens fills closes =>
      cases linked
      obtain ⟨item, optional, since⟩ := slot
      obtain ⟨same, filled⟩ := fills
      cases same
      obtain ⟨laid, kind, laidOut, refers, linked⟩ := renders.stands item _ filled
      cases laidOut with
      | @reference _ mention names =>
          obtain ⟨target, resolved, rfl⟩ := map_eq_ok.1 linked
          exact ⟨id, item, target, opening, closing, lookup_of_mem renders.distinct inRules,
            names ▸ resolveMention_eq_ok.1 resolved, stands, refers,
            renders.token declared opens, renders.token declared' closes⟩

end Grammar

end Dialect
