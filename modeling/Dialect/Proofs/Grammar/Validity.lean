import Dialect.Proofs.Grammar.Height
import Dialect.Proofs.Grammar.Layout

/-!
# Which grammars are accepted

`Rule.Valid` says of a list of rules what their author has to observe, in terms of the
definitions as they are written.  The rules are accepted exactly if they are valid
(`ofRules_accepts_iff`), as long as there are ids for their elements.

The last condition is that no definition leads back to itself (`Definition.Leads`).  On the
elements of a grammar this is what the search for a re-entry decides: the ways from an element
to those entered with it are the ways from its definition to those it leads to, but for
delimiters and parts of names, at which every way ends.
-/

set_option autoImplicit false

namespace Dialect

open Relation

/-! ### What a list of rules has to be -/

namespace Definition

/-- The definitions in the leading slots of a list: those up to and including the first that
must be filled. -/
def leading : List (Slot Definition) → List Definition
  | [] => []
  | slot :: rest => slot.item :: if slot.optional then leading rest else []

/-- The second definition may be the first thing to be matched for the first one. -/
inductive Leads (rules : List Rule) : Definition → Definition → Prop
  | sequence {slots item} (member : item ∈ leading slots) : Leads rules (.sequence slots) item
  | oneOf {alternatives sortable slot} (member : slot ∈ alternatives) :
      Leads rules (.oneOf alternatives sortable) slot.item
  | iteration {item separator} : Leads rules (.iteration item separator) item
  | wrapper {opening content closing} :
      Leads rules (.wrapper opening content closing true) content.item
  | reference {rule} (member : rule ∈ rules) : Leads rules (.reference rule.name) rule.definition

end Definition

namespace Rule

/-- The definitions of all elements of the rules, in order. -/
def preorder (rules : List Rule) : List Definition :=
  rules.flatMap fun rule => rule.definition.preorder

/-- One of the rules has this name. -/
def Declares (rules : List Rule) (name : String) : Prop := ∃ rule ∈ rules, rule.name = name

/-- What a list of rules has to be for a grammar to be made of it. -/
structure Valid [Alphabet] (vocabulary : Vocabulary) (rules : List Rule)
    (root : Option String) : Prop where
  nonempty : rules ≠ []
  named : ∀ rule ∈ rules, Name.isValid rule.name = true
  distinct : (rules.map Rule.name).Nodup
  sound : ∀ part ∈ preorder rules, part.Sound vocabulary.Declares (Declares rules)
  rooted : ∀ name ∈ root, Declares rules name
  acyclic : ∀ definition, ¬ TransGen (Definition.Leads rules) definition definition

end Rule

/-! ### Laying out a list of rules -/

/-- Something stands in each of two lists beside each item of the other. -/
theorem exists_left {α β : Type} {related : α → β → Prop} {xs : List α} {ys : List β}
    (all : List.Forall₂ related xs ys) {y : β} (member : y ∈ ys) : ∃ x ∈ xs, related x y := by
  induction all with
  | nil => cases member
  | cons here rest ih =>
      rcases List.mem_cons.1 member with rfl | later
      · exact ⟨_, List.mem_cons_self, here⟩
      · obtain ⟨x, inRest, found⟩ := ih later
        exact ⟨x, List.mem_cons_of_mem _ inRest, found⟩

theorem exists_right {α β : Type} {related : α → β → Prop} {xs : List α} {ys : List β}
    (all : List.Forall₂ related xs ys) {x : α} (member : x ∈ xs) : ∃ y ∈ ys, related x y :=
  exists_left all.flip member

namespace Grammar

variable {vocabulary : Vocabulary} {rules : List Rule} {rule : Rule} {draft : Draft}

/-- The draft is what the rules were laid out as. -/
structure Draft.LaysOut [Alphabet] (vocabulary : Vocabulary) (rules : List Rule)
    (draft : Draft) : Prop where
  lays : Layout.Lays vocabulary 0 (Rule.preorder rules) draft.elements
  named : ∀ rule ∈ rules, Name.isValid rule.name = true
  distinct : (rules.map Rule.name).Nodup
  names_eq : draft.rules.map Prod.fst = rules.map Rule.name
  roots : ∀ written, Layout.Written written 0 (Rule.preorder rules) →
    List.Forall₂ (fun rule entry => entry.1 = rule.name ∧ written entry.2 = some rule.definition)
      rules draft.rules

theorem layOut_append [Alphabet] : layOut vocabulary (rules ++ [rule]) =
    layOut vocabulary rules >>= fun draft => Draft.add vocabulary draft rule := by
  simp [layOut, List.foldlM_append]

theorem preorder_append : Rule.preorder (rules ++ [rule]) =
    Rule.preorder rules ++ rule.definition.preorder := by
  simp [Rule.preorder]

/-- A name is not taken if no rule so far has it. -/
theorem lookup_isSome_iff {entries : List (String × ElementId)} {name : String} :
    (entries.lookup name).isSome = true ↔ name ∈ entries.map Prod.fst := by
  induction entries with
  | nil => simp
  | cons entry rest ih =>
      obtain ⟨known, id⟩ := entry
      by_cases same : name = known
      · subst same
        simp
      · have differs : (name == known) = false := by simpa using same
        simp only [List.lookup_cons, differs, ih, List.map_cons, List.mem_cons, same, false_or]

theorem add_laysOut [Alphabet] {next : Draft} (laid : draft.LaysOut vocabulary rules)
    (added : Draft.add vocabulary draft rule = .ok next) :
    next.LaysOut vocabulary (rules ++ [rule]) := by
  obtain ⟨valid, fresh, block, laidBlock, rfl⟩ := add_eq_ok.1 added
  rw [lookup_isSome_iff, laid.names_eq] at fresh
  have blocks := Layout.block_lays laidBlock
  constructor
  case lays =>
    rw [preorder_append]
    refine laid.lays.append ?_
    rw [Nat.zero_add]
    exact blocks
  case named =>
    intro other member
    rcases List.mem_append.1 member with earlier | new
    · exact laid.named other earlier
    · obtain rfl := List.mem_singleton.1 new
      exact valid
  case distinct =>
    rw [List.map_append, List.map_singleton]
    exact laid.distinct.append (List.nodup_singleton _) (by simpa using fresh)
  case names_eq => simp [laid.names_eq]
  -- The element of the rule comes right behind those of the rules before it.
  case roots =>
    intro written stands
    rw [preorder_append] at stands
    obtain ⟨standsBefore, standsBlock⟩ := Layout.along_append.1 stands
    rw [Nat.zero_add, ← laid.lays.length_eq] at standsBlock
    refine List.rel_append (laid.roots written standsBefore) (.cons ?_ .nil)
    exact ⟨rfl, Layout.written_own standsBlock⟩

/-- **A draft is what its rules were laid out as.** -/
theorem layOut_laysOut [Alphabet] (laid : layOut vocabulary rules = .ok draft) :
    draft.LaysOut vocabulary rules := by
  induction rules using List.reverseRecOn generalizing draft with
  | nil =>
      obtain rfl := pure_eq_ok.1 laid
      exact ⟨.nil, by simp, .nil, rfl, fun _ _ => .nil⟩
  | append_singleton rules rule ih =>
      rw [layOut_append] at laid
      obtain ⟨before, laidBefore, added⟩ := bind_eq_ok.1 laid
      exact add_laysOut (ih laidBefore) added

/-- Sound rules with names of their own are laid out as long as there are ids. -/
theorem exists_layOut [Alphabet] (named : ∀ rule ∈ rules, Name.isValid rule.name = true)
    (distinct : (rules.map Rule.name).Nodup)
    (sound : ∀ part ∈ Rule.preorder rules, Layout.Layable vocabulary part)
    (fits : (Rule.preorder rules).length ≤ Supply.elements.capacity) :
    ∃ draft, layOut vocabulary rules = .ok draft := by
  induction rules using List.reverseRecOn with
  | nil => exact ⟨_, rfl⟩
  | append_singleton rules rule ih =>
      rw [preorder_append, List.length_append] at fits
      rw [preorder_append, List.forall_mem_append] at sound
      rw [List.map_append, List.map_singleton, List.nodup_append] at distinct
      obtain ⟨distinct, -, fresh⟩ := distinct
      have valid : Name.isValid rule.name = true := named rule (by simp)
      obtain ⟨draft, laid⟩ := ih (fun other member => named other (List.mem_append_left _ member))
        distinct sound.1 (by omega)
      have laysOut := layOut_laysOut laid
      have length := laysOut.lays.length_eq
      obtain ⟨block, laidBlock⟩ : ∃ block,
          Layout.block ⟨vocabulary, rule.name, draft.elements.length⟩ none draft.elements.length
            rule.definition = .ok block :=
        Layout.exists_block none draft.elements.length sound.2 (by omega)
      -- The name of the last rule is free, since names are distinct.
      have untaken : ¬ (draft.rules.lookup rule.name).isSome = true := by
        rw [lookup_isSome_iff, laysOut.names_eq]
        intro taken
        exact fresh _ taken rule.name (by simp) rfl
      rw [layOut_append]
      exact ⟨_, bind_eq_ok.2 ⟨draft, laid, add_eq_ok.2 ⟨valid, untaken, block, laidBlock, rfl⟩⟩⟩

/-! ### Elements and what was written for them -/

/-- What was written for the element with the given id. -/
def written (rules : List Rule) (id : ElementId) : Option Definition := (Rule.preorder rules)[id]?

/-- The grammar is what the rules come to: each element is what was written for it, with what
a reference names in the place of the name. -/
structure Renders [Alphabet] (g : Grammar) (rules : List Rule) : Prop where
  size_eq : g.elements.size = (Rule.preorder rules).length
  sound : ∀ part ∈ Rule.preorder rules, Layout.Layable g.vocabulary part
  distinct : (g.rules.map Prod.fst).Nodup
  roots : List.Forall₂
    (fun rule entry => entry.1 = rule.name ∧ written rules entry.2 = some rule.definition)
    rules g.rules
  stands : ∀ id definition, written rules id = some definition → ∃ laid kind,
    Layout.LaidOut g.vocabulary (written rules) definition laid ∧ g.kind? id = some kind ∧
      laid.link (resolveMention g.rules) = .ok kind

theorem written_all (rules : List Rule) :
    Layout.Written (written rules) 0 (Rule.preorder rules) := by
  refine Layout.along_iff.2 fun k definition found => ?_
  rw [Nat.zero_add]
  exact found

/-- A draft whose references have been linked is what its rules come to. -/
theorem Draft.LaysOut.renders [Alphabet] (laid : draft.LaysOut vocabulary rules)
    {elements : List (Element ElementId)} (linked : link draft = .ok elements)
    (start : ElementId) : Renders ⟨vocabulary, elements.toArray, draft.rules, start⟩ rules where
  size_eq := by simp [link_length linked, laid.lays.length_eq]
  sound := laid.lays.sound
  distinct := laid.names_eq ▸ laid.distinct
  roots := laid.roots _ (written_all rules)
  stands := by
    intro id definition found
    have bound : id < draft.elements.length := by
      rw [laid.lays.length_eq]
      exact (List.getElem?_eq_some_iff.1 found).1
    have there : draft.elements[id]? = some draft.elements[id] := List.getElem?_eq_getElem bound
    obtain ⟨after, stands, done⟩ := link_kind linked there
    obtain ⟨definition', found', laidOut⟩ :=
      Layout.along_iff.1 (laid.lays.laidOut _ (written_all rules)) id _ there
    rw [Nat.zero_add, found] at found'
    obtain rfl := Option.some.inj found'
    exact ⟨_, after.kind, laidOut, by simp [kind?, stands], done⟩

section Renders

variable {g : Grammar} {x y : ElementId} {definition other : Definition}

theorem lookup_of_mem {entries : List (String × ElementId)}
    (distinct : (entries.map Prod.fst).Nodup) {name : String} {id : ElementId}
    (member : (name, id) ∈ entries) : entries.lookup name = some id := by
  induction entries with
  | nil => cases member
  | cons entry rest ih =>
      obtain ⟨known, first⟩ := entry
      rw [List.map_cons, List.nodup_cons] at distinct
      rcases List.mem_cons.1 member with same | later
      · obtain ⟨rfl, rfl⟩ := Prod.mk.inj same
        exact List.lookup_cons_self
      · have differs : name ≠ known := by
          rintro rfl
          exact distinct.1 (List.mem_map.2 ⟨_, later, rfl⟩)
        have different : (name == known) = false := by simpa using differs
        simp only [List.lookup_cons, different]
        exact ih distinct.2 later

/-- What leads in a list of slots is what was written for what leads in the laid-out list. -/
theorem leading_filled {slots : List (Slot Definition)} {laid : List (Slot ElementId)}
    (filled : List.Forall₂ (Layout.FilledAs (written rules)) slots laid) :
    List.Forall₂ (fun item id => written rules id = some item) (Definition.leading slots)
      (Kind.leading laid) := by
  induction filled with
  | nil => exact .nil
  | @cons slot laid slots others fills rest ih =>
      have optional : laid.optional = slot.optional := by
        rw [fills.1]
        rfl
      unfold Definition.leading Kind.leading
      refine .cons fills.2 ?_
      rw [optional]
      cases slot.optional with
      | true => exact ih
      | false => exact .nil

/-- **Where a definition leads, its element can be entered.** -/
theorem Renders.enters_of_leads [Alphabet] (renders : g.Renders rules)
    (found : written rules x = some definition)
    (leads : Definition.Leads rules definition other) :
    ∃ y, g.Enters x y ∧ written rules y = some other := by
  obtain ⟨laid, kind, laidOut, stands, linked⟩ := renders.stands x definition found
  cases leads with
  | sequence member =>
      cases laidOut with
      | sequence filled =>
          obtain rfl := Except.ok.inj linked
          obtain ⟨y, leads, written⟩ := exists_right (leading_filled filled) member
          exact ⟨y, enters_iff.2 ⟨_, stands, leads⟩, written⟩
  | oneOf member =>
      cases laidOut with
      | oneOf filled =>
          obtain rfl := Except.ok.inj linked
          obtain ⟨slot, inSlots, -, written⟩ := exists_right filled member
          exact ⟨slot.item, enters_iff.2 ⟨_, stands, List.mem_map_of_mem inSlots⟩, written⟩
  | iteration =>
      cases laidOut with
      | iteration repeats separates =>
          obtain rfl := Except.ok.inj linked
          exact ⟨_, enters_iff.2 ⟨_, stands, List.mem_cons_self⟩, repeats⟩
  | wrapper =>
      cases laidOut with
      | wrapper opens filled closes =>
          obtain rfl := Except.ok.inj linked
          exact ⟨_, enters_iff.2 ⟨_, stands, by simp [Kind.entries]⟩, filled.2⟩
  | @reference rule member =>
      cases laidOut with
      | @reference name mention names =>
          obtain ⟨⟨name, id⟩, inEntries, rfl, written⟩ := exists_right renders.roots member
          have looked : g.rules.lookup mention.target = some id :=
            names ▸ lookup_of_mem renders.distinct inEntries
          obtain ⟨target, resolved, rfl⟩ := map_eq_ok.1 linked
          obtain rfl : target = id :=
            Except.ok.inj (resolved.symm.trans (resolveMention_eq_ok.2 looked))
          exact ⟨target, enters_iff.2 ⟨_, stands, List.mem_cons_self⟩, written⟩

/-- What is entered from an element is an entry of what its definition was laid out as. -/
theorem Renders.exists_entry [Alphabet] (renders : g.Renders rules)
    (found : written rules x = some definition)
    (enters : g.Enters x y) : ∃ laid kind,
      Layout.LaidOut g.vocabulary (written rules) definition laid ∧
        laid.link (resolveMention g.rules) = .ok kind ∧ y ∈ kind.entries := by
  obtain ⟨laid, kind, laidOut, stands, linked⟩ := renders.stands x definition found
  obtain ⟨kind', stands', entry⟩ := enters_iff.1 enters
  obtain rfl := Option.some.inj (stands.symm.trans stands')
  exact ⟨laid, kind, laidOut, linked, entry⟩

/-- **Where an element can be entered, its definition leads**, unless what is entered is a
leaf. -/
theorem Renders.leads_of_enters [Alphabet] (renders : g.Renders rules)
    (found : written rules x = some definition) (enters : g.Enters x y) :
    ∃ other, written rules y = some other ∧
      (Definition.Leads rules definition other ∨ other.isPart = true) := by
  obtain ⟨laid, kind, laidOut, linked, entry⟩ := renders.exists_entry found enters
  cases laidOut with
  | token resolved =>
      obtain rfl := Except.ok.inj linked
      cases entry
  | identifier =>
      obtain rfl := Except.ok.inj linked
      cases entry
  | sequence filled =>
      obtain rfl := Except.ok.inj linked
      obtain ⟨item, leads, written⟩ := exists_left (leading_filled filled) entry
      exact ⟨item, written, Or.inl (.sequence leads)⟩
  | @wrapper opening content closing repeated first inner last opens filled closes =>
      obtain rfl := Except.ok.inj linked
      cases repeated with
      | false =>
          -- A delimiter is entered as well, and no definition leads to one.
          obtain rfl : y = first := by simpa [Kind.entries] using entry
          exact ⟨_, opens, Or.inr rfl⟩
      | true =>
          rcases (by simpa [Kind.entries] using entry : y = first ∨ y = inner.item) with rfl | rfl
          · exact ⟨_, opens, Or.inr rfl⟩
          · exact ⟨_, filled.2, Or.inl .wrapper⟩
  | oneOf filled =>
      obtain rfl := Except.ok.inj linked
      obtain ⟨slot, inSlots, rfl⟩ := List.mem_map.1 entry
      obtain ⟨source, member, -, written⟩ := exists_left filled inSlots
      exact ⟨_, written, Or.inl (.oneOf member)⟩
  | iteration repeats separates =>
      obtain rfl := Except.ok.inj linked
      obtain rfl := List.mem_singleton.1 entry
      exact ⟨_, repeats, Or.inl .iteration⟩
  | qualified named joins =>
      obtain rfl := Except.ok.inj linked
      obtain ⟨laidVariant, inLaid, first⟩ := List.mem_filterMap.1 entry
      obtain ⟨variant, inVariants, parts⟩ := exists_left named inLaid
      obtain ⟨part, inVariant, written⟩ := exists_left parts (List.mem_of_head? first)
      -- Parts of a name are leaves, at which every way ends.
      obtain ⟨-, areParts, -⟩ := renders.sound _ (List.mem_of_getElem? found)
      exact ⟨part, written, Or.inr ((areParts variant inVariants).2 part inVariant)⟩
  | @reference name mention names =>
      obtain ⟨target, resolved, rfl⟩ := map_eq_ok.1 linked
      obtain rfl := List.mem_singleton.1 entry
      obtain ⟨rule, member, named, written⟩ :=
        exists_left renders.roots (mem_of_lookup (resolveMention_eq_ok.1 resolved))
      obtain rfl : name = rule.name := names.symm.trans named
      exact ⟨_, written, Or.inl (.reference member)⟩

/-! ### Ways -/

/-- A way from a definition goes through the elements of the grammar. -/
theorem Renders.exists_way [Alphabet] (renders : g.Renders rules)
    (found : written rules x = some definition)
    (way : TransGen (Definition.Leads rules) definition other) :
    ∃ y, TransGen g.Enters x y ∧ written rules y = some other := by
  induction way with
  | single leads =>
      obtain ⟨y, enters, written⟩ := renders.enters_of_leads found leads
      exact ⟨y, .single enters, written⟩
  | tail _ leads ih =>
      obtain ⟨between, before, written⟩ := ih
      obtain ⟨y, enters, written⟩ := renders.enters_of_leads written leads
      exact ⟨y, before.tail enters, written⟩

/-- Nothing is entered from a leaf. -/
theorem Renders.not_enters_of_isPart [Alphabet] (renders : g.Renders rules)
    (found : written rules x = some definition) (isPart : definition.isPart = true) :
    ¬ g.Enters x y := by
  intro enters
  obtain ⟨laid, kind, laidOut, linked, entry⟩ := renders.exists_entry found enters
  cases laidOut with
  | token resolved =>
      obtain rfl := Except.ok.inj linked
      cases entry
  | identifier =>
      obtain rfl := Except.ok.inj linked
      cases entry
  | _ => cases isPart

/-- A way through the elements of the grammar that can go on is a way from definition to
definition. -/
theorem Renders.leads_of_way [Alphabet] (renders : g.Renders rules)
    (found : written rules x = some definition)
    (way : TransGen g.Enters x y) {z : ElementId} (further : g.Enters y z) :
    ∃ other, written rules y = some other ∧
      TransGen (Definition.Leads rules) definition other := by
  induction way generalizing z with
  | single enters =>
      obtain ⟨other, written, leads | isPart⟩ := renders.leads_of_enters found enters
      · exact ⟨other, written, .single leads⟩
      · exact absurd further (renders.not_enters_of_isPart written isPart)
  | tail _ enters ih =>
      obtain ⟨between, written, before⟩ := ih enters
      obtain ⟨other, written, leads | isPart⟩ := renders.leads_of_enters written enters
      · exact ⟨other, written, before.tail leads⟩
      · exact absurd further (renders.not_enters_of_isPart written isPart)

theorem mem_of_leading {slots : List (Slot Definition)} {item : Definition}
    (member : item ∈ Definition.leading slots) : ∃ slot ∈ slots, slot.item = item := by
  induction slots with
  | nil => cases member
  | cons slot rest ih =>
      rcases List.mem_cons.1 member with rfl | later
      · exact ⟨slot, List.mem_cons_self, rfl⟩
      · split at later
        · obtain ⟨other, inRest, same⟩ := ih later
          exact ⟨other, List.mem_cons_of_mem _ inRest, same⟩
        · cases later

/-- A definition leads to smaller ones, unless it is a reference. -/
theorem lt_or_eq_of_leads (leads : Definition.Leads rules definition other) :
    sizeOf other < sizeOf definition ∨ ∃ rule ∈ rules, other = rule.definition := by
  have item_lt : ∀ slot : Slot Definition, sizeOf slot.item < sizeOf slot := by
    rintro ⟨item, optional, since⟩
    simp only [Slot.mk.sizeOf_spec]
    omega
  cases leads with
  | @sequence slots item member =>
      obtain ⟨slot, inSlots, rfl⟩ := mem_of_leading member
      have := List.sizeOf_lt_of_mem inSlots
      have := item_lt slot
      simp only [Definition.sequence.sizeOf_spec]
      omega
  | @oneOf alternatives sortable slot member =>
      have := List.sizeOf_lt_of_mem member
      have := item_lt slot
      simp only [Definition.oneOf.sizeOf_spec]
      omega
  | iteration =>
      simp only [Definition.iteration.sizeOf_spec]
      omega
  | @wrapper opening content closing =>
      have := item_lt content
      simp only [Definition.wrapper.sizeOf_spec]
      omega
  | reference member => exact Or.inr ⟨_, member, rfl⟩

/-- A way from a definition goes down in it, or through a rule. -/
theorem lt_or_exists_rule (way : TransGen (Definition.Leads rules) definition other) :
    sizeOf other < sizeOf definition ∨ ∃ rule ∈ rules,
      ReflTransGen (Definition.Leads rules) definition rule.definition ∧
        ReflTransGen (Definition.Leads rules) rule.definition other := by
  induction way with
  | single leads =>
      rcases lt_or_eq_of_leads leads with smaller | ⟨rule, member, rfl⟩
      · exact Or.inl smaller
      · exact Or.inr ⟨rule, member, .single leads, .refl⟩
  | tail way leads ih =>
      rcases lt_or_eq_of_leads leads with smaller | ⟨rule, member, rfl⟩
      · rcases ih with down | ⟨rule, member, before, after⟩
        · exact Or.inl (Nat.lt_trans smaller down)
        · exact Or.inr ⟨rule, member, before, after.tail leads⟩
      · exact Or.inr ⟨rule, member, way.to_reflTransGen.tail leads, .refl⟩

theorem height_lt_of_way (wellFormed : g.WellFormed) (way : TransGen g.Enters x y) :
    g.height y < g.height x := by
  induction way with
  | single enters => exact wellFormed.height_lt_of_enters enters
  | tail _ enters ih => exact Nat.lt_trans (wellFormed.height_lt_of_enters enters) ih

/-- **No definition leads back to itself in an accepted grammar.** -/
theorem Renders.acyclic [Alphabet] (renders : g.Renders rules) (wellFormed : g.WellFormed)
    (definition : Definition) : ¬ TransGen (Definition.Leads rules) definition definition := by
  -- The definition of an element that led back to itself would be that of a lower element too.
  have descent : ∀ height x definition, g.height x = height →
      written rules x = some definition →
        ¬ TransGen (Definition.Leads rules) definition definition := by
    intro height
    induction height using Nat.strong_induction_on with
    | _ height ih =>
        rintro x definition rfl found cycle
        obtain ⟨y, way, written⟩ := renders.exists_way found cycle
        exact ih _ (height_lt_of_way wellFormed way) y definition rfl written cycle
  intro cycle
  obtain ⟨rule, member, before, after⟩ :=
    (lt_or_exists_rule cycle).resolve_left (Nat.lt_irrefl _)
  obtain ⟨⟨name, root⟩, -, -, written⟩ := exists_right renders.roots member
  exact descent _ root rule.definition rfl written (.trans_left (.trans_right after cycle) before)

/-- **No rule is refused** when no definition leads back to itself. -/
theorem Renders.reentry?_eq_none [Alphabet] (renders : g.Renders rules)
    (acyclic : ∀ definition, ¬ TransGen (Definition.Leads rules) definition definition)
    {name : String} {root : ElementId} (member : (name, root) ∈ g.rules) :
    g.reentry? root = none := by
  obtain ⟨rule, -, -, written⟩ := exists_left renders.roots member
  refine Grammar.reentry?_eq_none fun cycle => ?_
  obtain ⟨first, enters, -⟩ := TransGen.head'_iff.1 cycle
  obtain ⟨other, written', way⟩ := renders.leads_of_way written cycle enters
  obtain rfl := Option.some.inj (written.symm.trans written')
  exact acyclic _ way

end Renders

/-! ### Acceptance -/

section Acceptance

/-- A rule is declared exactly if its name can be looked up. -/
theorem Renders.declares_iff [Alphabet] {g : Grammar} (renders : g.Renders rules) {name : String} :
    Rule.Declares rules name ↔ ∃ id, g.rules.lookup name = some id := by
  constructor
  · rintro ⟨rule, member, rfl⟩
    obtain ⟨⟨name, id⟩, inEntries, rfl, -⟩ := exists_right renders.roots member
    exact ⟨id, lookup_of_mem renders.distinct inEntries⟩
  · rintro ⟨id, found⟩
    obtain ⟨rule, member, named, -⟩ := exists_left renders.roots (mem_of_lookup found)
    exact ⟨rule, member, named.symm⟩

/-- What the references of a grammar name is declared. -/
theorem Renders.declares_of_reference [Alphabet] {g : Grammar} (renders : g.Renders rules)
    {name : String}
    (member : .reference name ∈ Rule.preorder rules) : Rule.Declares rules name := by
  obtain ⟨id, found⟩ := List.mem_iff_getElem?.1 member
  obtain ⟨laid, kind, laidOut, -, linked⟩ := renders.stands id _ found
  cases laidOut with
  | @reference name mention names =>
      obtain ⟨target, resolved, -⟩ := map_eq_ok.1 linked
      exact renders.declares_iff.2 ⟨target, names ▸ resolveMention_eq_ok.1 resolved⟩

/-- Every element of a grammar stands at the place that is its id. -/
theorem id_eq_of_ofRules [Alphabet] {root : Option String} {g : Grammar}
    (built : ofRules vocabulary rules root = .ok g) {id : ElementId} {element : Element ElementId}
    (found : g.elements[id]? = some element) : element.id = id := by
  obtain ⟨draft, elements, start, -, laid, linked, -, rfl, -⟩ := ofRules_eq_ok built
  obtain ⟨written, stood, done⟩ := exists_written linked (by simpa using found)
  have numbered := Layout.along_iff.1 (layOut_laysOut laid).lays.numbered id written stood
  rw [(link_eq_ok done).1, numbered, Nat.zero_add]

/-- A draft can be linked if every reference names a rule. -/
theorem Draft.LaysOut.exists_link [Alphabet] (laid : draft.LaysOut vocabulary rules)
    (declared : ∀ name, .reference name ∈ Rule.preorder rules → Rule.Declares rules name) :
    ∃ elements, link draft = .ok elements := by
  refine exists_mapM_eq_ok fun element member => ?_
  have resolves : ∃ kind, element.kind.link (resolveMention draft.rules) = .ok kind := by
    obtain ⟨id, stands⟩ := List.mem_iff_getElem?.1 member
    obtain ⟨definition, found, laidOut⟩ :=
      Layout.along_iff.1 (laid.lays.laidOut _ (written_all rules)) id element stands
    generalize element.kind = kind at laidOut
    cases laidOut with
    | @reference name mention names =>
        obtain ⟨rule, inRules, named⟩ := declared name (List.mem_of_getElem? found)
        have taken : (draft.rules.lookup mention.target).isSome = true := by
          rw [lookup_isSome_iff, laid.names_eq, names, ← named]
          exact List.mem_map_of_mem inRules
        obtain ⟨target, looked⟩ := Option.isSome_iff_exists.1 taken
        exact ⟨_, map_eq_ok.2 ⟨target, resolveMention_eq_ok.2 looked, rfl⟩⟩
    | _ => exact ⟨_, rfl⟩
  obtain ⟨kind, linked⟩ := resolves
  exact ⟨_, map_eq_ok.2 ⟨kind, linked, rfl⟩⟩

/-- **The valid grammars are accepted, and no others.** -/
theorem ofRules_accepts_iff [Alphabet] (vocabulary : Vocabulary) (rules : List Rule)
    (root : Option String)
    (fits : (Rule.preorder rules).length ≤ Supply.elements.capacity) :
    (∃ g, ofRules vocabulary rules root = .ok g) ↔ Rule.Valid vocabulary rules root := by
  constructor
  · rintro ⟨g, built⟩
    have wellFormed := ofRules_wellFormed built
    obtain ⟨draft, elements, start, nonempty, laid, linked, started, rfl, -⟩ := ofRules_eq_ok built
    have laysOut := layOut_laysOut laid
    have renders := laysOut.renders linked start
    refine ⟨nonempty, laysOut.named, laysOut.distinct, ?_, ?_, renders.acyclic wellFormed⟩
    · intro part member
      refine (renders.sound part member).of_reference ?_
      rintro name rfl
      exact renders.declares_of_reference member
    · intro name rooted
      obtain rfl := Option.mem_def.1 rooted
      cases found : draft.rules.lookup name with
      | none => simp [startRule, found] at started
      | some id => exact renders.declares_iff.2 ⟨id, found⟩
  · -- Each stage succeeds on valid rules; the checks of the stages before it are passed by then.
    intro valid
    have layable : ∀ part ∈ Rule.preorder rules, Layout.Layable vocabulary part := by
      intro part member
      refine (valid.sound part member).of_reference ?_
      rintro name rfl
      obtain ⟨rule, inRules, rfl⟩ := valid.sound _ member
      exact valid.named rule inRules
    obtain ⟨draft, laid⟩ := exists_layOut valid.named valid.distinct layable fits
    have laysOut := layOut_laysOut laid
    obtain ⟨elements, linked⟩ := laysOut.exists_link fun name => valid.sound (.reference name)
    obtain ⟨start, started⟩ : ∃ start, startRule draft.rules root = .ok start := by
      cases root with
      | none => cases entries : draft.rules <;> exact ⟨_, rfl⟩
      | some name =>
          have renders := laysOut.renders linked 0
          obtain ⟨id, found⟩ := renders.declares_iff.1 (valid.rooted name rfl)
          have found : draft.rules.lookup name = some id := found
          exact ⟨id, by simp [startRule, found]⟩
    have renders := laysOut.renders linked start
    have passed : refuseReentry ⟨vocabulary, elements.toArray, draft.rules, start⟩ = .ok () := by
      refine forM_eq_ok ?_
      rintro ⟨name, id⟩ member
      simp only [renders.reentry?_eq_none valid.acyclic member]
    have nonempty : ¬ rules.isEmpty = true := by simpa using valid.nonempty
    unfold ofRules
    exact ⟨_, guard_eq_ok.2 ⟨nonempty, bind_eq_ok.2 ⟨draft, laid, bind_eq_ok.2 ⟨elements, linked,
      bind_eq_ok.2 ⟨start, started, bind_eq_ok.2 ⟨(), passed, rfl⟩⟩⟩⟩⟩⟩

/-- Two rules, the second of which leads back to itself behind a token that may be left
out; the first one leads into the cycle without being part of it. -/
def windingRules : List Rule :=
  [⟨"entry", .sequence [.required (.reference "loop")]⟩,
    ⟨"loop", .sequence [⟨.token "A" none none, true, 0⟩, .required (.reference "loop")]⟩]

/-- The two rules are refused, for the cycle that the first one is not part of. -/
theorem windingRules_refused :
    (Rule.preorder windingRules).length ≤ Supply.elements.capacity ∧
      ¬ ∃ g, ofRules ⟨"test", #[.keyword "A" "a"]⟩ windingRules none = .ok g := by
  have fits : (Rule.preorder windingRules).length ≤ Supply.elements.capacity := by decide
  refine ⟨fits, fun accepted => ?_⟩
  have valid := (ofRules_accepts_iff _ windingRules none fits).1 accepted
  have onwards : Definition.Leads windingRules windingRules[1].definition (.reference "loop") :=
    .sequence (by simp [Definition.leading, Slot.required])
  have back : Definition.Leads windingRules (.reference windingRules[1].name)
      windingRules[1].definition :=
    .reference (by simp)
  exact valid.acyclic _ (.tail (.single onwards) back)

end Acceptance

end Grammar

end Dialect
