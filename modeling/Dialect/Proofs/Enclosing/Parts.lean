import Dialect.Matching.Element
import Dialect.Proofs.Enclosing.Basic
import Dialect.Proofs.Matching.Guarded

/-!
# Elements are matched alike inside others

Given a parse and its repetition inside something that asks the same things (`Enclosure.Fair`), and
elements below that are matched alike (`Enclosure.Attempts`), each construct comes to the same in
both.  A leaf does where the look behind a reserved word finds its answer in the element itself, or
finds none around it (`Enclosure.Quiet`).
-/

set_option autoImplicit false

namespace Dialect

/-! ### Looking beyond -/

/-- The type of the token behind the reserved word at the cursor, if the leaf takes the word or not
depending on whether a token of that type may come next: a token element that stands there asks
about a dot, and an identifier about any token, unless it takes the word anyway. -/
def Setting.looksFor (s : Setting) (id : ElementId) (path : Path) (p : Progress) :
    Option TokenTypeId :=
  match p.cursor.current?, p.cursor.peek? 1 with
  | some current, some next =>
      let has property := s.grammar.vocabulary.has property current.kind
      if p.cursor.atPlaceholder || !has TokenType.isSuppressible then none
      else match s.grammar.kind? id with
        | some (.token type text _) =>
            if current.kind ≠ type || text.any fun text => !Token.sameWord current.text text then none
            else s.grammar.vocabulary.dot?.filter fun dot => next.kind == dot
        | some (.identifier use isAlias object) =>
            if has TokenType.isIdentifier || p.isWaved current.kind ||
                (Kind.identifier use isAlias object : Kind ElementId).isDefinition ||
                path.enclosing s.grammar .qualifiedIdentifier ≠ .ok none then none
            else some next.kind
        | _ => none
  | _, _ => none

/-- Whether it is up to what is around a path if a token of the type may come next. -/
def Setting.leavesOpen (s : Setting) (outer : Path) (token : TokenTypeId) : Bool :=
  outer.leavesOpen s.grammar.kindAt
    (Path.possibleIn s.options.version (s.grammar.couldStart token))

/-- Trips where a leaf would look behind a reserved word for one of the given token types, beyond
all the elements that are open. -/
def Setting.looksBeyond (s : Setting) (loud : TokenTypeId → Bool) : Guard := fun _ id outer p =>
  (s.looksFor id (outer.enter id) p).any fun token => loud token && s.leavesOpen outer token

namespace Enclosure

/-- What is around has nothing to say about whether the token type may come next. -/
def Silent (m : Enclosure) (token : TokenTypeId) : Prop :=
  Path.outward m.target.grammar.kindAt
    (Path.possibleIn m.source.options.version (m.target.grammar.couldStart token)) m.around = .ok false

/-- Where the leaf looks beyond all the elements that are open, what is around has nothing to
say. -/
def Quiet (m : Enclosure) (id : ElementId) (outer : Path) (p : Progress) : Prop :=
  ∀ token, m.source.looksFor id (outer.enter id) p = some token →
    m.source.leavesOpen outer token = true → m.Silent token

theorem quiet_of_not_looksBeyond {m : Enclosure} {loud : TokenTypeId → Bool}
    (may : ∀ token, loud token = false → m.Silent token) {chain : Chain} {id : ElementId}
    {outer : Path} {p : Progress} (free : m.source.looksBeyond loud chain id outer p = false) :
    m.Quiet id outer p := by
  intro token sought opens
  refine may token ?_
  simpa [Setting.looksBeyond, sought, opens] using free

/-- The repetition asks the same things, and what is around it has nothing to say about what must
come after a word, and is no qualified name. -/
structure Fair (m : Enclosure) : Prop where
  more : m.source.grammar.Extends m.target.grammar
  wellFormed : m.source.grammar.WellFormed
  wellFormed' : m.target.grammar.WellFormed
  reliable : m.source.predictor.Reliable m.source.grammar
  reliable' : m.target.predictor.Reliable m.target.grammar
  selective_eq : m.target.predictor.selective = m.source.predictor.selective
  options_eq : m.target.options =
    { m.source.options with maxDepth := m.source.options.maxDepth + m.depth }
  cancelled_eq : m.target.cancelled = m.source.cancelled
  must : ∀ token, Path.outward m.target.grammar.kindAt (Path.requiredIn m.source.options.version
    (m.target.grammar.shouldStart token)) m.around = .ok false
  unnamed : Path.nearest m.target.grammar .qualifiedIdentifier m.around = .ok none

/-- An element is matched inside something else as it is matched alone. -/
def Attempts (m : Enclosure) (attempt attempt' : Attempt) : Prop :=
  ∀ id path, m.Carries Eq (attempt id path) (attempt' id (path ++ m.around))

variable {m : Enclosure}

/-- What is remembered makes no difference. -/
theorem States.of_alike {p p' q : Progress} (states : m.States p q)
    (alike : p.Alike m.source.grammar p') : m.States p' q := by
  obtain ⟨reads, same, faithful, faithful'⟩ := states
  refine ⟨?_, ?_, alike.faithful', faithful'⟩
  all_goals rw [alike.same]
  · exact reads
  · exact same

theorem Fair.version_eq (fair : m.Fair) : m.target.options.version = m.source.options.version := by
  rw [fair.options_eq]

section Leaves

open Matcher

variable (fair : m.Fair) (frame : Frame) (outer : Path)

theorem takeLeaf_carries (id : ElementId) : m.Carries Eq (takeLeaf id) (takeLeaf id) := by
  unfold takeLeaf
  refine carries_bind (carries_move moves_mark) fun mark _ same => ?_
  obtain rfl := same
  refine carries_bind_eq (carries_move moves_advance) fun _ => ?_
  exact carries_bind_eq (carries_move (moves_complete mark id)) fun _ => carries_pure rfl

theorem decline_carries (word : TokenTypeId) : m.Carries Eq (decline word) (decline word) := by
  rintro p q ⟨reads, same, faithful, faithful'⟩
  refine follows_ok rfl ⟨reads, ?_, faithful, faithful'⟩
  change q.wave word = _
  rw [same]
  rfl

include fair

theorem mustFollow_carries (token : TokenTypeId) :
    m.Carries Eq (liftM (m.source.mustFollow (frame :: outer) token))
      (liftM (m.target.mustFollow (frame :: outer ++ m.around) token)) := by
  refine carries_query (answers_mustFollow fair.reliable _ _ _)
    (answers_mustFollow fair.reliable' _ _ _) ?_
  rw [fair.version_eq]
  exact fair.more.mustFollow fair.wellFormed fair.wellFormed' frame outer (fair.must token)

theorem mayFollow_carries {token : TokenTypeId}
    (silent : m.source.leavesOpen outer token = true → m.Silent token) :
    m.Carries Eq (liftM (m.source.mayFollow (frame :: outer) token))
      (liftM (m.target.mayFollow (frame :: outer ++ m.around) token)) := by
  refine carries_query (answers_mayFollow fair.reliable _ _ _)
    (answers_mayFollow fair.reliable' _ _ _) ?_
  rw [fair.version_eq]
  exact fair.more.mayFollow fair.wellFormed fair.wellFormed' frame outer silent

theorem qualifiesName_carries {next : Option Token}
    (silent : ∀ token, next = some token → m.source.grammar.vocabulary.dot? = some token.kind →
      m.source.leavesOpen outer token.kind = true → m.Silent token.kind) :
    m.Carries Eq (qualifiesName m.source (frame :: outer) next)
      (qualifiesName m.target (frame :: outer ++ m.around) next) := by
  unfold qualifiesName
  rw [fair.more.vocabulary_eq]
  cases sought : m.source.grammar.vocabulary.dot? with
  | none => exact carries_pure rfl
  | some dot =>
      dsimp only
      by_cases isNext : nextIs next dot = true
      · rw [isNext]
        obtain ⟨token, there, rfl⟩ : ∃ token, next = some token ∧ token.kind = dot := by
          simpa [nextIs] using isNext
        have asked := mayFollow_carries fair frame outer (silent token there sought)
        exact carries_bind_eq asked fun _ => carries_pure rfl
      · rw [Bool.not_eq_true] at isNext
        rw [isNext]
        exact carries_pure rfl

theorem lacksArguments_carries (next : Option Token) :
    m.Carries Eq (lacksArguments m.source (frame :: outer) next)
      (lacksArguments m.target (frame :: outer ++ m.around) next) := by
  unfold lacksArguments
  rw [fair.more.vocabulary_eq]
  cases m.source.grammar.vocabulary.leftParenthesis? with
  | none => exact carries_pure rfl
  | some parenthesis =>
      exact carries_ite (carries_pure rfl) (mustFollow_carries fair frame outer parenthesis)

/-- The types of tokens are those of the one vocabulary. -/
theorem get_upholds (type : TokenTypeId) :
    Upholds (m.source.grammar.vocabulary.get type) (m.target.grammar.vocabulary.get type) := by
  rw [fair.more.vocabulary_eq]
  exact .refl _

/-- A token element takes the word at the cursor in both parses, or in neither. -/
theorem token_follows {id : ElementId} {type : TokenTypeId} {text : Option String}
    {flavor : Option Category} (stands : m.source.grammar.kind? id = some (.token type text flavor))
    {p q : Progress} (states : m.States p q) (quiet : m.Quiet id outer p) :
    m.Follows Eq (token m.source id (outer.enter id) type text flavor p)
      (token m.target id (outer.enter id ++ m.around) type text flavor q) := by
  have there : q.cursor = m.cursor p.cursor := by rw [states.same]
  unfold token
  rw [bind_of_ok cursor_eq, bind_of_ok cursor_eq, there, current?_cursor, atPlaceholder_cursor,
    peek?_cursor]
  cases here : p.cursor.current? with
  | none => exact follows_ok rfl states
  | some current =>
      have takes := takeLeaf_carries (m := m) id
      dsimp only
      by_cases marked : p.cursor.atPlaceholder = true
      · rw [if_pos marked, if_pos marked]
        exact takes p q states
      rw [if_neg marked, if_neg marked]
      by_cases other : current.kind ≠ type
      · rw [if_pos other, if_pos other]
        exact follows_ok rfl states
      rw [if_neg other, if_neg other]
      by_cases differs : (text.any fun text => !Token.sameWord current.text text) = true
      · rw [if_pos differs, if_pos differs]
        exact follows_ok rfl states
      rw [if_neg differs, if_neg differs]
      refine follows_bind_check (get_upholds fair _) fun word found => ?_
      by_cases suppressible : word.isSuppressible = true
      · rw [if_pos suppressible, if_pos suppressible]
        have silent : ∀ next, p.cursor.peek? 1 = some next →
            m.source.grammar.vocabulary.dot? = some next.kind →
              m.source.leavesOpen outer next.kind = true → m.Silent next.kind := by
          refine fun next behind dot => quiet next.kind ?_
          have sought : m.source.grammar.vocabulary.has TokenType.isSuppressible current.kind =
              true := (Vocabulary.has_of_get found _).trans suppressible
          simp_all [Setting.looksFor]
        refine carries_bind_eq (qualifiesName_carries fair ⟨id, 0⟩ outer silent) (fun _ => ?_) p q states
        refine carries_ite (decline_carries _) (carries_ite ?_ takes)
        refine carries_bind_eq (lacksArguments_carries fair ⟨id, 0⟩ outer _) fun _ => ?_
        exact carries_ite (decline_carries _) takes
      · rw [if_neg suppressible, if_neg suppressible]
        exact takes p q states

/-- A reserved word at the cursor is read as an identifier in both parses, or in neither. -/
theorem acceptsReservedWord_follows {id : ElementId} {use : NameUse} {isAlias : Bool}
    {object : Option String} {p q : Progress} (states : m.States p q) (quiet : m.Quiet id outer p)
    (stands : m.source.grammar.kind? id = some (.identifier use isAlias object)) {current : Token}
    (here : p.cursor.current? = some current) (unmarked : ¬ p.cursor.atPlaceholder = true)
    {type : TokenType} (found : m.source.grammar.vocabulary.get current.kind = .ok type)
    (reserved : ¬ type.isIdentifier = true) (suppressible : type.isSuppressible = true) :
    m.Follows Eq (acceptsReservedWord m.source id (outer.enter id) current.kind p)
      (acceptsReservedWord m.target id (outer.enter id ++ m.around) current.kind q) := by
  unfold acceptsReservedWord
  have waved : q.isWaved current.kind = p.isWaved current.kind := by
    rw [states.same]
    rfl
  have cursor_eq' : q.cursor = m.cursor p.cursor := by rw [states.same]
  rw [bind_apply, bind_apply, get_apply, get_apply]
  dsimp only
  rw [waved]
  by_cases free : p.isWaved current.kind = true
  · rw [if_pos free, if_pos free]
    exact follows_ok rfl states
  rw [if_neg free, if_neg free]
  refine follows_bind_check (fair.more.element id) fun element known => ?_
  by_cases defines : element.kind.isDefinition = true
  · rw [if_pos defines, if_pos defines]
    exact follows_ok rfl states
  rw [if_neg defines, if_neg defines]
  refine follows_bind_check (fair.more.nearest fair.unnamed outer) fun name around => ?_
  by_cases named : name.isSome = true
  · rw [if_pos named, if_pos named]
    exact follows_ok rfl states
  rw [if_neg named, if_neg named, bind_of_ok Dialect.cursor_eq, bind_of_ok Dialect.cursor_eq,
    cursor_eq', peek?_cursor]
  cases behind : p.cursor.peek? 1 with
  | none => exact follows_ok rfl states
  | some next =>
      -- Only what may follow looks at the frames around, and the leaf asks for nothing else.
      have sought : m.source.looksFor id (outer.enter id) p = some next.kind := by
        have kind : element.kind = .identifier use isAlias object :=
          Option.some.inj ((kind?_of_element known).symm.trans stands)
        rw [kind] at defines
        have suppressed : m.source.grammar.vocabulary.has TokenType.isSuppressible current.kind =
            true := (Vocabulary.has_of_get found _).trans suppressible
        have other : m.source.grammar.vocabulary.has TokenType.isIdentifier current.kind = false :=
          (Vocabulary.has_of_get found _).trans (by simpa using reserved)
        have unnamed : (outer.enter id).enclosing m.source.grammar .qualifiedIdentifier = .ok none := by
          simp_all
        simp_all [Setting.looksFor]
      exact mayFollow_carries fair ⟨id, 0⟩ outer (quiet next.kind sought) p q states

/-- An identifier element takes the word at the cursor in both parses, or in neither. -/
theorem identifier_follows {id : ElementId} {use : NameUse} {isAlias : Bool} {object : Option String}
    (stands : m.source.grammar.kind? id = some (.identifier use isAlias object)) {p q : Progress}
    (states : m.States p q) (quiet : m.Quiet id outer p) :
    m.Follows Eq (identifier m.source id (outer.enter id) p)
      (identifier m.target id (outer.enter id ++ m.around) q) := by
  have there : q.cursor = m.cursor p.cursor := by rw [states.same]
  unfold identifier
  rw [bind_of_ok cursor_eq, bind_of_ok cursor_eq, there, current?_cursor, atPlaceholder_cursor]
  cases here : p.cursor.current? with
  | none => exact follows_ok rfl states
  | some current =>
      have takes := takeLeaf_carries (m := m) id
      dsimp only
      by_cases marked : p.cursor.atPlaceholder = true
      · rw [if_pos marked, if_pos marked]
        exact takes p q states
      rw [if_neg marked, if_neg marked]
      refine follows_bind_check (get_upholds fair _) fun type found => ?_
      by_cases identifier : type.isIdentifier = true
      · rw [if_pos identifier, if_pos identifier]
        exact takes p q states
      rw [if_neg identifier, if_neg identifier]
      -- Reserved words are the only ones for which the surroundings are asked.
      by_cases suppressible : type.isSuppressible = true
      · rw [if_pos suppressible, if_pos suppressible]
        refine follows_bind (acceptsReservedWord_follows fair outer states quiet stands here marked
          found identifier suppressible) fun accepts _ r t same states => ?_
        subst same
        exact carries_ite takes (carries_pure rfl) r t states
      · rw [if_neg suppressible, if_neg suppressible]
        exact follows_ok rfl states

end Leaves

/-! ### What is missing -/

section Missing

open Matcher

variable (fair : m.Fair)

include fair

/-- An element that is missing is reported in the same words. -/
theorem missing_upholds (c : Cursor) (code : DiagnosticCode) (id : ElementId) :
    Upholds (c.missing m.source.grammar code id) ((m.cursor c).missing m.target.grammar code id) :=
  fair.more.missing fair.wellFormed rfl rfl code id

theorem expected_carries (code : DiagnosticCode) (id : ElementId) :
    m.Carries Eq (expected m.source code id) (expected m.target code id) := by
  unfold expected
  refine carries_bind_cursor fun c _ => ?_
  refine carries_bind_check (missing_upholds fair c code id) fun diagnostic _ => ?_
  exact carries_move (moves_report diagnostic)

theorem expectedHere_carries (id : ElementId) :
    m.Carries Eq (expectedHere m.source id) (expectedHere m.target id) := by
  unfold expectedHere
  exact carries_bind_check (fair.more.missingCode fair.wellFormed id) fun code _ =>
    expected_carries fair code id

theorem addContent_carries (slot : Slot ElementId) (opened : Nat) (outcome : Outcome) :
    m.Carries Eq (addContent m.source slot opened outcome)
      (addContent m.target slot opened outcome) := by
  unfold addContent
  cases outcome with
  | noMatch =>
      refine carries_ite (carries_pure rfl) ?_
      exact carries_bind_eq (expectedHere_carries fair slot.item) fun _ => carries_pure rfl
  | _ => exact carries_pure rfl

theorem missingPart_carries (report : Bool) (id : ElementId) :
    m.Carries Eq (missingPart m.source report id) (missingPart m.target report id) := by
  unfold missingPart
  exact carries_ite (expected_carries fair _ _) (carries_pure rfl)

/-- The diagnostic that gets the related place has just been made. -/
theorem unclosed_carries (closing : ElementId) (range : TextRange) :
    m.Carries Eq (unclosed m.source closing range) (unclosed m.target closing range) := by
  have together : ∀ s, unclosed s closing range = (do
      let diagnostic ← (← Matcher.cursor).missing s.grammar .E0203 closing
      (do Cursor.report diagnostic; Cursor.annotate ⟨"opened here", range⟩ : Cursor.Step Unit)) := by
    intro s
    unfold unclosed expected
    rw [bind_assoc]
    refine congrArg (Matcher.cursor >>= ·) (funext fun c => ?_)
    rw [bind_assoc]
    rfl
  rw [together, together]
  refine carries_bind_cursor fun c _ => ?_
  refine carries_bind_check (missing_upholds fair c _ closing) fun diagnostic _ => ?_
  exact carries_move (moves_report_annotate diagnostic _)

end Missing

/-! ### Composites -/

section Composites

open Matcher

variable {attempt attempt' : Attempt} (fair : m.Fair) (attempts : m.Attempts attempt attempt')
  (frame : Frame) (outer : Path)

include attempts

/-- A part in its place is matched alike. -/
theorem Attempts.at (id : ElementId) (slot : Nat) :
    m.Carries Eq (attempt id (Path.moveTo slot (frame :: outer)))
      (attempt' id (Path.moveTo slot (frame :: outer ++ m.around))) :=
  attempts id (Path.moveTo slot (frame :: outer))

omit attempts in
/-- A node is completed, and the outcome is the given one. -/
theorem finish_carries (mark : Mark) (id : ElementId) (outcome : Outcome) :
    m.Carries Eq (do Cursor.complete mark id; return outcome : Matcher Outcome)
      (do Cursor.complete (m.mark mark) id; return outcome : Matcher Outcome) :=
  carries_bind_eq (carries_move (moves_complete mark id)) fun _ => carries_pure rfl

omit attempts in
/-- Nothing has been matched, and the mark is rolled back. -/
theorem giveUp_carries (mark : Mark) (outcome : Outcome) :
    m.Carries Eq (do Cursor.rollback mark; return outcome : Matcher Outcome)
      (do Cursor.rollback (m.mark mark); return outcome : Matcher Outcome) :=
  carries_bind_eq (carries_move (moves_rollback mark)) fun _ => carries_pure rfl

omit attempts in
/-- Something is done under a mark. -/
theorem marked_carries {next next' : Mark → Matcher Outcome}
    (carries : ∀ mark, m.Carries Eq (next mark) (next' (m.mark mark))) :
    m.Carries Eq (liftM Cursor.mark >>= next) (liftM Cursor.mark >>= next') := by
  refine carries_bind (carries_move moves_mark) fun mark _ same => ?_
  obtain rfl := same
  exact carries mark

include fair

theorem fillSlots_carries (slots : List (Slot ElementId)) (index tokens : Nat) :
    m.Carries Eq (fillSlots m.source attempt (frame :: outer) slots index tokens)
      (fillSlots m.target attempt' (frame :: outer ++ m.around) slots index tokens) := by
  induction slots generalizing index tokens with
  | nil => exact carries_pure rfl
  | cons slot rest ih =>
      unfold fillSlots
      rw [fair.version_eq]
      refine carries_ite (ih _ _) ?_
      refine carries_bind_eq (attempts.at frame outer slot.item index) fun outcome => ?_
      cases outcome with
      | fullMatch n => exact ih _ _
      | partialMatch n => exact carries_pure rfl
      | noMatch =>
          refine carries_ite (ih _ _) (carries_ite (carries_pure rfl) ?_)
          exact carries_bind_eq (expectedHere_carries fair slot.item) fun _ => carries_pure rfl

theorem sequence_carries (id : ElementId) (slots : List (Slot ElementId)) :
    m.Carries Eq (Matcher.sequence m.source attempt (frame :: outer) id slots)
      (Matcher.sequence m.target attempt' (frame :: outer ++ m.around) id slots) := by
  refine marked_carries fun mark => ?_
  refine carries_bind_eq (fillSlots_carries fair attempts frame outer slots 0 0) fun tally => ?_
  exact carries_ite (giveUp_carries mark _) (finish_carries mark id _)

theorem content_carries (slot : Slot ElementId) :
    m.Carries Eq (content m.source attempt (frame :: outer) slot)
      (content m.target attempt' (frame :: outer ++ m.around) slot) := by
  unfold content
  rw [fair.version_eq]
  exact carries_ite (attempts.at frame outer slot.item 1) (carries_pure rfl)

omit fair in
theorem closeAll_carries (closing : ElementId) (opened : List TextRange) :
    m.Carries Eq (closeAll attempt (frame :: outer) closing opened)
      (closeAll attempt' (frame :: outer ++ m.around) closing opened) := by
  induction opened with
  | nil => exact carries_pure rfl
  | cons range others ih =>
      unfold closeAll
      refine carries_bind_eq (attempts.at frame outer closing 2) fun outcome => ?_
      exact carries_ite (carries_bind_eq ih fun _ => carries_pure rfl) (carries_pure rfl)

theorem close_carries (closing : ElementId) (opened : List TextRange) (tally : Tally) :
    m.Carries Eq (close m.source attempt (frame :: outer) closing opened tally)
      (close m.target attempt' (frame :: outer ++ m.around) closing opened tally) := by
  unfold close
  refine carries_bind_eq (closeAll_carries attempts frame outer closing opened) fun result => ?_
  rcases result with ⟨closed, _ | ⟨innermost, others⟩⟩
  · exact carries_pure rfl
  · refine carries_ite ?_ (carries_pure rfl)
    exact carries_bind_eq (unclosed_carries fair closing innermost) fun _ => carries_pure rfl

/-- What was opened is closed, and the node is completed. -/
theorem conclude_carries (mark : Mark) (id closing : ElementId) (opened : List TextRange)
    (tally : Tally) :
    m.Carries Eq (do
        let tally ← close m.source attempt (frame :: outer) closing opened tally
        Cursor.complete mark id
        return tally.outcome)
      (do
        let tally ← close m.target attempt' (frame :: outer ++ m.around) closing opened tally
        Cursor.complete (m.mark mark) id
        return tally.outcome) :=
  carries_bind_eq (close_carries fair attempts frame outer closing opened tally) fun closed =>
    finish_carries mark id closed.outcome

theorem wrapper_carries (id opening : ElementId) (slot : Slot ElementId) (closing : ElementId) :
    m.Carries Eq (wrapper m.source attempt (frame :: outer) id opening slot closing)
      (wrapper m.target attempt' (frame :: outer ++ m.around) id opening slot closing) := by
  refine marked_carries fun mark => carries_bind_cursor fun c _ => ?_
  refine carries_bind_check (.refl c.currentRange) fun range _ => ?_
  refine carries_bind_eq (attempts.at frame outer opening 0) fun outcome => ?_
  refine carries_ite (giveUp_carries mark _) ?_
  have concludes := conclude_carries fair attempts frame outer mark id closing [range]
  rw [fair.version_eq]
  refine carries_ite ?_ (carries_bind_eq (carries_pure rfl) concludes)
  refine carries_bind_eq (content_carries fair attempts frame outer slot) fun outcome => ?_
  exact carries_bind_eq (addContent_carries fair slot 1 outcome) concludes

omit fair in
theorem openAll_carries (opening : ElementId) (rounds : Nat) (opened : List TextRange) :
    m.Carries Eq (openAll attempt (frame :: outer) opening rounds opened)
      (openAll attempt' (frame :: outer ++ m.around) opening rounds opened) := by
  induction rounds generalizing opened with
  | zero => exact carries_throw _ _
  | succ rounds ih =>
      refine carries_bind_cursor fun c _ => ?_
      refine carries_bind_check (.refl c.currentRange) fun range _ => ?_
      refine carries_bind_eq (attempts.at frame outer opening 0) fun outcome => ?_
      exact carries_ite (ih _) (carries_pure rfl)

theorem balanced_carries (id opening : ElementId) (slot : Slot ElementId) (closing : ElementId) :
    m.Carries Eq (balanced m.source attempt (frame :: outer) id opening slot closing)
      (balanced m.target attempt' (frame :: outer ++ m.around) id opening slot closing) := by
  refine marked_carries fun mark => carries_bind_cursor fun c _ => ?_
  refine carries_bind_eq (openAll_carries attempts frame outer opening _ _) fun opened => ?_
  refine carries_bind_eq (content_carries fair attempts frame outer slot) fun outcome => ?_
  refine carries_ite (carries_ite ?_ (giveUp_carries mark _)) ?_
  · exact carries_bind_eq (carries_move (moves_release mark)) fun _ => carries_pure rfl
  · exact carries_bind_eq (addContent_carries fair slot _ outcome)
      (conclude_carries fair attempts frame outer mark id closing opened)

theorem repeatItem_carries (item : ElementId) (separator : Option ElementId)
    (rounds tokens : Nat) :
    m.Carries Eq (repeatItem m.source attempt (frame :: outer) item separator rounds tokens)
      (repeatItem m.target attempt' (frame :: outer ++ m.around) item separator rounds tokens) := by
  induction rounds generalizing tokens with
  | zero => exact carries_throw _ _
  | succ rounds ih =>
      cases separator with
      | none =>
          refine carries_bind_eq (attempts.at frame outer item 0) fun outcome => ?_
          cases outcome with
          | fullMatch n => exact ih _
          | _ => exact carries_pure rfl
      | some between =>
          refine carries_bind_eq (attempts.at frame outer between 1) fun separated => ?_
          refine carries_ite (carries_pure rfl) ?_
          refine carries_bind_eq (attempts.at frame outer item 0) fun outcome => ?_
          cases outcome with
          | fullMatch n => exact ih _
          | partialMatch n => exact carries_pure rfl
          | noMatch =>
              exact carries_bind_eq (expected_carries fair _ item) fun _ => carries_pure rfl

theorem iteration_carries (id item : ElementId) (separator : Option ElementId) :
    m.Carries Eq (iteration m.source attempt (frame :: outer) id item separator)
      (iteration m.target attempt' (frame :: outer ++ m.around) id item separator) := by
  refine marked_carries fun mark => ?_
  refine carries_bind_eq (attempts.at frame outer item 0) fun outcome => ?_
  cases outcome with
  | noMatch => exact giveUp_carries mark _
  | partialMatch n => exact finish_carries mark id _
  | fullMatch n =>
      refine carries_bind_cursor fun c _ => ?_
      refine carries_bind_eq (repeatItem_carries fair attempts frame outer item separator _ n)
        fun tally => ?_
      exact finish_carries mark id _

theorem matchParts_carries (separator : ElementId) (report : Bool) (parts : List ElementId)
    (index tokens : Nat) :
    m.Carries Eq (matchParts m.source attempt (frame :: outer) separator report parts index tokens)
      (matchParts m.target attempt' (frame :: outer ++ m.around) separator report parts index
        tokens) := by
  induction parts generalizing index tokens with
  | nil => exact carries_pure rfl
  | cons part rest ih =>
      unfold matchParts
      dsimp only
      refine carries_ite (carries_bind_eq (carries_pure rfl) fun separated => ?_)
        (carries_bind_eq (carries_map _ (attempts.at frame outer separator index))
          fun separated => ?_)
      all_goals
        refine carries_ite ?_
          (carries_bind_eq (attempts.at frame outer part index) fun outcome => carries_ite ?_ (ih _ _))
        · exact carries_bind_eq (missingPart_carries fair report separator) fun _ =>
            carries_pure rfl
        · exact carries_bind_eq (missingPart_carries fair report part) fun _ => carries_pure rfl

theorem tryVariants_carries (separator : ElementId) (variants : List (List ElementId))
    (best : Option (Outcome × List ElementId)) :
    m.Carries Eq (tryVariants m.source attempt (frame :: outer) separator variants best)
      (tryVariants m.target attempt' (frame :: outer ++ m.around) separator variants best) := by
  induction variants generalizing best with
  | nil => exact carries_pure rfl
  | cons variant rest ih =>
      refine carries_bind (carries_move moves_mark) fun mark _ same => ?_
      obtain rfl := same
      refine carries_bind_eq (matchParts_carries fair attempts frame outer separator false variant 0 0)
        fun outcome => ?_
      refine carries_ite (carries_bind_eq (carries_move (moves_release mark)) fun _ =>
        carries_pure rfl) ?_
      refine carries_bind_eq (carries_move (moves_rollback mark)) fun _ => ?_
      exact carries_ite (ih _) (ih _)

theorem qualified_carries (id : ElementId) (variants : List (List ElementId))
    (separator : ElementId) :
    m.Carries Eq (qualified m.source attempt (frame :: outer) id variants separator)
      (qualified m.target attempt' (frame :: outer ++ m.around) id variants separator) := by
  refine marked_carries fun mark => ?_
  refine carries_bind_eq (tryVariants_carries fair attempts frame outer separator _ none)
    fun answer => ?_
  rcases answer with outcome | _ | ⟨outcome, variant⟩
  · exact finish_carries mark id _
  · exact giveUp_carries mark _
  · refine carries_bind_eq (matchParts_carries fair attempts frame outer separator true variant 0 0)
      fun outcome => ?_
    exact finish_carries mark id _

/-! ### Choices -/

omit attempts in
/-- An alternative is worth trying in both parses, or in neither. -/
theorem admits_carries (unfiltered : Bool) (current : TokenTypeId) (slot : Slot ElementId) :
    m.Carries Eq (admits m.source unfiltered current slot)
      (admits m.target unfiltered current slot) := by
  unfold admits
  rw [fair.version_eq, fair.selective_eq]
  refine carries_ite (carries_pure rfl) (carries_ite (carries_pure rfl) ?_)
  exact carries_query (answers_couldStart fair.reliable _ _) (answers_couldStart fair.reliable' _ _)
    (fair.more.couldStart fair.wellFormed fair.wellFormed' current slot.item)

/-- The answer with the record of the best attempt to be replayed in the longer record. -/
def Settles (m : Enclosure) (answer answer' : Outcome ⊕ Option (Outcome × Snapshot)) : Prop :=
  answer' = answer.map id (Option.map (Prod.map id m.snapshot))

theorem tryAlternatives_carries (unfiltered : Bool) (current : TokenTypeId)
    (slots : List (Slot ElementId)) (index : Nat) (best : Option (Outcome × Snapshot)) :
    m.Carries m.Settles
      (tryAlternatives m.source attempt (frame :: outer) unfiltered current slots index best)
      (tryAlternatives m.target attempt' (frame :: outer ++ m.around) unfiltered current slots index
        (best.map (Prod.map id m.snapshot))) := by
  induction slots generalizing index best with
  | nil => exact carries_pure rfl
  | cons slot rest ih =>
      unfold tryAlternatives
      refine carries_bind_eq (admits_carries fair unfiltered current slot) fun admitted => ?_
      refine carries_ite (ih _ _) ?_
      refine carries_bind (carries_move moves_mark) fun mark _ same => ?_
      obtain rfl := same
      refine carries_bind_eq (attempts.at frame outer slot.item index) fun outcome => ?_
      refine carries_ite (carries_bind_eq (carries_move (moves_release mark)) fun _ =>
        carries_pure rfl) ?_
      intro p q states
      have improves_eq : improves outcome (best.map (Prod.map id m.snapshot)) =
          improves outcome best := by
        cases best <;> rfl
      have scan : q.scan = p.scan := by rw [states.same]
      rw [bind_apply, bind_apply, get_apply, get_apply]
      dsimp only
      rw [scan, improves_eq]
      refine carries_ite ?_ ?_ p q states
      · refine carries_bind (carries_move (moves_takeBack mark)) fun snapshot _ same => ?_
        obtain rfl := same
        exact ih _ (some (outcome, snapshot))
      · exact carries_bind_eq (carries_move (moves_rollback mark)) fun _ => ih _ best

theorem oneOf_carries (id : ElementId) :
    m.Carries Eq (oneOf m.source attempt (frame :: outer) id)
      (oneOf m.target attempt' (frame :: outer ++ m.around) id) := by
  have children : m.Carries Eq (liftM (m.source.predictor.children id))
      (liftM (m.target.predictor.children id)) :=
    carries_query (fair.reliable.children id) (fair.reliable'.children id)
      (fair.more.triedOf fair.wellFormed fair.wellFormed' id)
  refine carries_bind_eq children fun alternatives => carries_bind_cursor fun c _ => ?_
  rw [current?_cursor, atPlaceholder_cursor]
  cases c.current? with
  | none => exact carries_pure rfl
  | some current =>
      refine carries_bind_check (get_upholds fair _) fun type _ => ?_
      refine carries_bind (tryAlternatives_carries fair attempts frame outer _ _ alternatives 0 none)
        fun answer _ same => ?_
      obtain rfl := same
      rcases answer with outcome | _ | ⟨outcome, snapshot⟩
      · exact carries_pure rfl
      · exact carries_pure rfl
      · exact carries_bind_eq (carries_move (moves_restore snapshot)) fun _ => carries_pure rfl

end Composites

end Enclosure

end Dialect
