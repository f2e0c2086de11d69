import Dialect.Matching.Element
import Dialect.Proofs.Matching.Expectation

/-!
# Leaves

Whether a leaf takes the token at the cursor depends on the input, on the place of the
leaf in the grammar, and on whether the word at the cursor was given free
(`Setting.takes`).  A word that is given free stays free, so a leaf that takes a token
once would take it again (`takes_of_waved`).
-/

set_option autoImplicit false

namespace Dialect

/-! ### What a leaf takes -/

namespace Setting

variable (s : Setting) (input : Input) (path : Path)

/-- Whether a reserved word before the given token qualifies a name. -/
def qualifiesName (next : Option Token) : Except Fault Bool :=
  match s.grammar.vocabulary.dot? with
  | none => return false
  | some dot => do
      if !Matcher.nextIs next dot then return false
      return !(← s.grammar.mayFollow s.options.version path dot)

/-- Whether a function name before the given token cannot be a call. -/
def lacksArguments (next : Option Token) : Except Fault Bool :=
  match s.grammar.vocabulary.leftParenthesis? with
  | none => return false
  | some parenthesis => do
      if Matcher.nextIs next parenthesis then return false
      s.grammar.mustFollow s.options.version path parenthesis

/-- Whether a token element takes the token at a position. -/
def tokenTakes (type : TokenTypeId) (text : Option String) (flavor : Option Category)
    (position : Nat) : Except Fault Bool :=
  match input.token? position with
  | none => return false
  | some current => do
      if (input.cursorAt position).atPlaceholder then return true
      if current.kind ≠ type then return false
      if text.any fun text => !Token.sameWord current.text text then return false
      let word ← s.grammar.vocabulary.get current.kind
      if word.isSuppressible then
        let next := input.token? (position + 1)
        if ← s.qualifiesName path next then return false
        if flavor.isNone && word.isFunction then
          if ← s.lacksArguments path next then return false
      return true

/-- Whether a reserved word that was not given free is read as an identifier. -/
def readsAsIdentifier (id : ElementId) (position : Nat) : Except Fault Bool := do
  if (← s.grammar.element id).kind.isDefinition then return true
  if (← path.enclosing s.grammar .qualifiedIdentifier).isSome then return true
  match input.token? (position + 1) with
  | none => return true
  | some next => s.grammar.mayFollow s.options.version path next.kind

/-- Whether an identifier element takes the token at a position. -/
def identifierTakes (id : ElementId) (waved : Bool) (position : Nat) : Except Fault Bool :=
  match input.token? position with
  | none => return false
  | some current => do
      if (input.cursorAt position).atPlaceholder then return true
      let type ← s.grammar.vocabulary.get current.kind
      if type.isIdentifier then return true
      if type.isSuppressible then
        if waved then return true
        return ← s.readsAsIdentifier input path id position
      return false

/-- Whether a leaf takes the token at a position; `waved` tells whether the word there was
given free. -/
def takes (id : ElementId) (kind : Kind ElementId) (waved : Bool) (position : Nat) :
    Except Fault Bool :=
  match kind with
  | .token type text flavor => s.tokenTakes input path type text flavor position
  | .identifier .. => s.identifierTakes input path id waved position
  | _ => return false

end Setting

/-- Whether the word at the cursor was given free. -/
def Progress.atWaved (p : Progress) : Bool :=
  match p.cursor.current? with
  | none => false
  | some current => p.isWaved current.kind

/-! ### Settled questions -/

/-- The step gives this answer and changes nothing but the memo. -/
def Settles {α : Type} (g : Grammar) (step : Matcher α) (p : Progress)
    (answer : Except Fault α) : Prop :=
  ∃ memo, memo.Faithful g ∧ step p = match answer with
    | .ok value => .ok value { p with memo }
    | .error fault => .error fault { p with memo }

section Settles

variable {g : Grammar} {α β : Type} {p : Progress}

theorem settles_pure (faithful : p.memo.Faithful g) (value : α) :
    Settles g (pure value) p (pure value) :=
  ⟨p.memo, faithful, rfl⟩

theorem settles_check (faithful : p.memo.Faithful g) (answer : Except Fault α) :
    Settles g (liftM answer) p answer := by
  cases answer with
  | ok value => exact ⟨p.memo, faithful, rfl⟩
  | error fault => exact ⟨p.memo, faithful, rfl⟩

theorem settles_query {query : Query α} {answer : Except Fault α}
    (answers : Answers g query answer) (faithful : p.memo.Faithful g) :
    Settles g (liftM query) p answer := by
  obtain ⟨after, kept, ran⟩ := answers p.memo faithful
  refine ⟨after, kept, ?_⟩
  cases answer with
  | ok value => exact query_eq ran
  | error fault => exact query_eq_error ran

theorem settles_bind {step : Matcher α} {answer : Except Fault α} {next : α → Matcher β}
    {nextAnswer : α → Except Fault β} (first : Settles g step p answer)
    (second : ∀ value memo, memo.Faithful g →
      Settles g (next value) { p with memo } (nextAnswer value)) :
    Settles g (step >>= next) p (answer >>= nextAnswer) := by
  obtain ⟨middle, kept, ran⟩ := first
  cases answer with
  | error fault =>
      refine ⟨middle, kept, ?_⟩
      rw [bind_apply, ran]
      rfl
  | ok value =>
      obtain ⟨after, keptAfter, ranNext⟩ := second value middle kept
      refine ⟨after, keptAfter, ?_⟩
      rw [bind_apply, ran]
      exact ranNext

theorem settles_ite {c : Prop} [Decidable c] {step step' : Matcher α}
    {answer answer' : Except Fault α} (first : Settles g step p answer)
    (second : Settles g step' p answer') :
    Settles g (if c then step else step') p (if c then answer else answer') := by
  split
  · exact first
  · exact second

variable {s : Setting} {input : Input}

theorem settles_qualifiesName (stage : Stage s input) (faithful : p.memo.Faithful s.grammar)
    (path : Path) (next : Option Token) :
    Settles s.grammar (Matcher.qualifiesName s path next) p (s.qualifiesName path next) := by
  unfold Matcher.qualifiesName Setting.qualifiesName
  cases s.grammar.vocabulary.dot? with
  | none => exact settles_pure faithful false
  | some dot =>
      refine settles_ite (settles_pure faithful false) ?_
      refine settles_bind (settles_query (answers_mayFollow stage.reliable _ _ _) faithful) ?_
      exact fun value memo kept => settles_pure kept _

theorem settles_lacksArguments (stage : Stage s input) (faithful : p.memo.Faithful s.grammar)
    (path : Path) (next : Option Token) :
    Settles s.grammar (Matcher.lacksArguments s path next) p (s.lacksArguments path next) := by
  unfold Matcher.lacksArguments Setting.lacksArguments
  cases s.grammar.vocabulary.leftParenthesis? with
  | none => exact settles_pure faithful false
  | some parenthesis =>
      refine settles_ite (settles_pure faithful false) ?_
      exact settles_query (answers_mustFollow stage.reliable _ _ _) faithful

theorem settles_get {next : Progress → Matcher α} {answer : Except Fault α}
    (settles : Settles g (next p) p answer) : Settles g (get >>= next) p answer := settles

theorem settles_cursor {next : Cursor → Matcher α} {answer : Except Fault α}
    (settles : Settles g (next p.cursor) p answer) :
    Settles g (Matcher.cursor >>= next) p answer := settles

theorem settles_acceptsReservedWord (stage : Stage s input) (sound : p.Sound s.grammar input)
    (id : ElementId) (path : Path) {word : TokenTypeId} (held : p.isWaved word = false) :
    Settles s.grammar (Matcher.acceptsReservedWord s id path word) p
      (s.readsAsIdentifier input path id p.cursor.position) := by
  unfold Matcher.acceptsReservedWord Setting.readsAsIdentifier
  refine settles_get ?_
  rw [held]
  refine settles_bind (settles_check sound.faithful _) fun element memo kept => ?_
  refine settles_ite (settles_pure kept true) ?_
  refine settles_bind (settles_check kept _) fun enclosing memo kept => ?_
  refine settles_ite (settles_pure kept true) (settles_cursor ?_)
  rw [← sound.next_eq]
  cases p.cursor.peek? 1 with
  | none => exact settles_pure kept true
  | some next => exact settles_query (answers_mayFollow stage.reliable _ _ _) kept

end Settles

/-! ### Leaves at the cursor -/

/-- The step takes the token as a leaf, or takes nothing, or ends with a fault, as the
answer says.  A word may be given free on the way. -/
def Decides (g : Grammar) (id : ElementId) (step : Matcher Outcome) (p : Progress) :
    Except Fault Bool → Prop
  | .ok true => ∃ memo, memo.Faithful g ∧ step p = Matcher.takeLeaf id { p with memo }
  | .ok false => ∃ memo waved, memo.Faithful g ∧ (∀ entry ∈ p.waved, entry ∈ waved) ∧
      step p = .ok .noMatch { p with memo, waved }
  | .error fault => ∃ q, step p = .error fault q

section Decides

variable {g : Grammar} {id : ElementId} {p : Progress}

theorem decides_take (faithful : p.memo.Faithful g) :
    Decides g id (Matcher.takeLeaf id) p (pure true) :=
  ⟨p.memo, faithful, rfl⟩

theorem decides_pass (faithful : p.memo.Faithful g) :
    Decides g id (pure .noMatch) p (pure false) :=
  ⟨p.memo, p.waved, faithful, fun _ member => member, rfl⟩

theorem decides_decline (faithful : p.memo.Faithful g) (word : TokenTypeId) :
    Decides g id (Matcher.decline word) p (pure false) :=
  ⟨p.memo, _, faithful, fun _ member => List.mem_insert_of_mem member, rfl⟩

theorem decides_cursor {next : Cursor → Matcher Outcome} {answer : Except Fault Bool}
    (decides : Decides g id (next p.cursor) p answer) :
    Decides g id (Matcher.cursor >>= next) p answer := decides

theorem decides_bind {α : Type} {step : Matcher α} {answer : Except Fault α}
    {next : α → Matcher Outcome} {nextAnswer : α → Except Fault Bool}
    (first : Settles g step p answer)
    (second : ∀ value memo, answer = .ok value → memo.Faithful g →
      Decides g id (next value) { p with memo } (nextAnswer value)) :
    Decides g id (step >>= next) p (answer >>= nextAnswer) := by
  obtain ⟨middle, kept, ran⟩ := first
  cases answer with
  | error fault =>
      refine ⟨{ p with memo := middle }, ?_⟩
      rw [bind_apply, ran]
  | ok value =>
      have ranNext : (step >>= next) p = next value { p with memo := middle } := by
        rw [bind_apply, ran]
      have decided := second value middle rfl kept
      show Decides g id (step >>= next) p (nextAnswer value)
      unfold Decides at decided ⊢
      rw [ranNext]
      exact decided

theorem decides_ite {c : Prop} [Decidable c] {step step' : Matcher Outcome}
    {answer answer' : Except Fault Bool} (first : c → Decides g id step p answer)
    (second : ¬ c → Decides g id step' p answer') :
    Decides g id (if c then step else step') p (if c then answer else answer') := by
  split
  · exact first ‹_›
  · exact second ‹_›

variable {s : Setting} {input : Input}

/-- A token element does what is said of the token at the cursor. -/
theorem token_decides (stage : Stage s input) (sound : p.Sound s.grammar input) (path : Path)
    (type : TokenTypeId) (text : Option String) (flavor : Option Category) :
    Decides s.grammar id (Matcher.token s id path type text flavor) p
      (s.tokenTakes input path type text flavor p.cursor.position) := by
  unfold Matcher.token Setting.tokenTakes
  refine decides_cursor ?_
  rw [sound.current_eq, sound.placeholder_eq, sound.next_eq]
  cases input.token? p.cursor.position with
  | none => exact decides_pass sound.faithful
  | some current =>
      refine decides_ite (fun _ => decides_take sound.faithful) fun _ => ?_
      refine decides_ite (fun _ => decides_pass sound.faithful) fun _ => ?_
      refine decides_ite (fun _ => decides_pass sound.faithful) fun _ => ?_
      refine decides_bind (settles_check sound.faithful _) fun word memo _ kept => ?_
      refine decides_ite (fun _ => ?_) fun _ => decides_take kept
      refine decides_bind (settles_qualifiesName stage kept _ _) fun qualifies memo _ kept => ?_
      refine decides_ite (fun _ => decides_decline kept _) fun _ => ?_
      refine decides_ite (fun _ => ?_) fun _ => decides_take kept
      refine decides_bind (settles_lacksArguments stage kept _ _) fun lacks memo _ kept => ?_
      exact decides_ite (fun _ => decides_decline kept _) fun _ => decides_take kept

/-- An identifier element does what is said of the token at the cursor. -/
theorem identifier_decides (stage : Stage s input) (sound : p.Sound s.grammar input)
    (path : Path) :
    Decides s.grammar id (Matcher.identifier s id path) p
      (s.identifierTakes input path id p.atWaved p.cursor.position) := by
  unfold Matcher.identifier Setting.identifierTakes
  refine decides_cursor ?_
  rw [sound.current_eq, sound.placeholder_eq]
  cases found : input.token? p.cursor.position with
  | none => exact decides_pass sound.faithful
  | some current =>
      have atWaved_eq : p.atWaved = p.isWaved current.kind := by
        unfold Progress.atWaved
        rw [sound.current_eq, found]
      refine decides_ite (fun _ => decides_take sound.faithful) fun _ => ?_
      refine decides_bind (settles_check sound.faithful _) fun type memo _ kept => ?_
      refine decides_ite (fun _ => decides_take kept) fun _ => ?_
      refine decides_ite (fun _ => ?_) fun _ => decides_pass kept
      rw [atWaved_eq]
      -- A word that was given free is taken without a look at what follows.
      cases held : p.isWaved current.kind with
      | true =>
          have accepts : Settles s.grammar
              (Matcher.acceptsReservedWord s id path current.kind) { p with memo } (pure true) := by
            unfold Matcher.acceptsReservedWord
            refine settles_get ?_
            rw [show Progress.isWaved { p with memo } current.kind = true from held]
            exact settles_pure kept true
          exact decides_bind accepts fun value memo same kept => by
            cases same
            exact decides_take kept
      | false =>
          have accepts := settles_acceptsReservedWord (p := { p with memo }) stage
            ⟨sound.reads, sound.inside, kept⟩ id path held
          rw [← bind_pure (s.readsAsIdentifier input path id p.cursor.position)]
          refine decides_bind accepts fun value memo _ kept => ?_
          cases value with
          | true => exact decides_take kept
          | false => exact decides_pass kept

end Decides

/-! ### What is said of a leaf -/

section Takes

variable {s : Setting} {input : Input} {around path : Path} {id : ElementId}
  {kind : Kind ElementId} {position : Nat}

/-- A word that is given free is taken by every leaf that would take it otherwise. -/
theorem takes_of_waved (takes : s.takes input path id kind false position = .ok true) :
    s.takes input path id kind true position = .ok true := by
  cases kind with
  | identifier use isAlias object =>
      simp only [Setting.takes, Setting.identifierTakes] at takes ⊢
      cases found : input.token? position with
      | none => simp [found] at takes
      | some current =>
          simp only [found] at takes ⊢
          by_cases placeholder : (input.cursorAt position).atPlaceholder = true
          · simp only [placeholder, if_true]
            rfl
          · simp only [placeholder, Bool.false_eq_true, if_false] at takes ⊢
            obtain ⟨type, type_eq, takes⟩ := bind_eq_ok.1 takes
            refine bind_eq_ok.2 ⟨type, type_eq, ?_⟩
            by_cases identifier : type.isIdentifier = true
            · simp only [identifier, if_true]
              rfl
            · by_cases suppressible : type.isSuppressible = true
              · simp only [identifier, suppressible, Bool.false_eq_true, if_false, if_true]
                rfl
              · simp [identifier, suppressible, pure, Except.pure] at takes
  | _ => exact takes

theorem takes_mono {waved waved' : Bool} (more : waved = true → waved' = true)
    (takes : s.takes input path id kind waved position = .ok true) :
    s.takes input path id kind waved' position = .ok true := by
  cases waved with
  | true =>
      rw [more rfl]
      exact takes
  | false =>
      cases waved' with
      | true => exact takes_of_waved takes
      | false => exact takes

theorem raises_nearest {g : Grammar} {allowed : Fault → Prop} (kind : NodeKind) {path : Path}
    (inside : path.Inside g) : Raises allowed (Path.nearest g kind path) := by
  induction path with
  | nil => exact raises_ok _
  | cons frame outer ih =>
      obtain ⟨element, found⟩ := element_of_lt (inside frame List.mem_cons_self)
      unfold Path.nearest
      rw [found]
      refine raises_bind (raises_ok element) fun _ _ => raises_ite (raises_ok _) ?_
      exact ih fun other member => inside other (List.mem_cons_of_mem _ member)

theorem Path.Within.inside {g : Grammar} (within : path.Within g around) : path.Inside g :=
  fun frame member => (within frame member).1

theorem Path.Within.excused {g : Grammar} (within : path.Within g around) (input : Input) :
    ∀ frame ∈ path, frame.Astray g → Excused g input around (.uncountable (frame.slot + 1)) :=
  fun frame member astray => ⟨frame, (within frame member).2 astray, astray, rfl⟩

section Raising

variable {allowed : Fault → Prop} (stage : Stage s input) (inside : path.Inside s.grammar)
  (astray : ∀ frame ∈ path, frame.Astray s.grammar → allowed (.uncountable (frame.slot + 1)))

include stage inside astray

theorem raises_tokenTakes (type : TokenTypeId) (text : Option String) (flavor : Option Category)
    (position : Nat) : Raises allowed (s.tokenTakes input path type text flavor position) := by
  have mayFollow := raises_mayFollow stage.wellFormed inside astray s.options.version
  have mustFollow := raises_mustFollow stage.wellFormed inside astray s.options.version
  have qualifies : ∀ next, Raises allowed (s.qualifiesName path next) := by
    intro next
    unfold Setting.qualifiesName
    cases s.grammar.vocabulary.dot? with
    | none => exact raises_ok _
    | some dot =>
        exact raises_ite (raises_ok _) (raises_bind (mayFollow dot) fun _ _ => raises_ok _)
  have lacks : ∀ next, Raises allowed (s.lacksArguments path next) := by
    intro next
    unfold Setting.lacksArguments
    cases s.grammar.vocabulary.leftParenthesis? with
    | none => exact raises_ok _
    | some parenthesis => exact raises_ite (raises_ok _) (mustFollow parenthesis)
  unfold Setting.tokenTakes
  cases found : input.token? position with
  | none => exact raises_ok _
  | some current =>
      obtain ⟨word, word_eq⟩ := get_of_lt (stage.known current (mem_of_token? found))
      -- Only the two questions about what follows can fault.
      refine raises_ite (raises_ok _) (raises_ite (raises_ok _) (raises_ite (raises_ok _) ?_))
      rw [word_eq]
      refine raises_bind (raises_ok word) fun _ _ => raises_ite ?_ (raises_ok _)
      refine raises_bind (qualifies _) fun _ _ => raises_ite (raises_ok _) ?_
      refine raises_ite ?_ (raises_ok _)
      exact raises_bind (lacks _) fun _ _ => raises_ite (raises_ok _) (raises_ok _)

theorem raises_identifierTakes (bound : id < s.grammar.elements.size) (waved : Bool)
    (position : Nat) : Raises allowed (s.identifierTakes input path id waved position) := by
  have mayFollow := raises_mayFollow stage.wellFormed inside astray s.options.version
  have reads : Raises allowed (s.readsAsIdentifier input path id position) := by
    obtain ⟨element, element_eq⟩ := element_of_lt bound
    unfold Setting.readsAsIdentifier
    rw [element_eq]
    refine raises_bind (raises_ok element) fun _ _ => raises_ite (raises_ok _) ?_
    refine raises_bind (raises_nearest _ fun frame member => ?_) fun _ _ => ?_
    · exact inside frame (List.mem_of_mem_tail member)
    · refine raises_ite (raises_ok _) ?_
      cases input.token? (position + 1) with
      | none => exact raises_ok _
      | some next => exact mayFollow next.kind
  unfold Setting.identifierTakes
  cases found : input.token? position with
  | none => exact raises_ok _
  | some current =>
      obtain ⟨type, type_eq⟩ := get_of_lt (stage.known current (mem_of_token? found))
      refine raises_ite (raises_ok _) ?_
      rw [type_eq]
      refine raises_bind (raises_ok type) fun _ _ => raises_ite (raises_ok _) ?_
      refine raises_ite (raises_ite (raises_ok _) ?_) (raises_ok _)
      exact reads

theorem raises_takes (bound : id < s.grammar.elements.size) (kind : Kind ElementId) (waved : Bool)
    (position : Nat) : Raises allowed (s.takes input path id kind waved position) := by
  cases kind with
  | token type text flavor => exact raises_tokenTakes stage inside astray type text flavor position
  | identifier use isAlias object =>
      exact raises_identifierTakes stage inside astray bound waved position
  | _ => exact raises_ok _

end Raising

/-- A leaf that takes the token leaves a record of it. -/
theorem leaves_of_takes {waved : Bool} (below : Nat → ElementId → Record)
    (takes : s.takes input path id kind waved position = .ok true) :
    position < input.size ∧
      kind.Leaves s input below id true position (position + 1) (input.leaf id position) := by
  cases kind with
  | token type text flavor =>
      simp only [Setting.takes, Setting.tokenTakes] at takes
      cases found : input.token? position with
      | none => simp [found] at takes
      | some current =>
          refine ⟨token?_lt_size found, .token found ?_⟩
          simp only [found] at takes
          -- Each check that was passed leaves what the record has to show for it.
          by_cases placeholder : (input.cursorAt position).atPlaceholder = true
          · exact Or.inl placeholder
          · by_cases same : current.kind = type
            · by_cases text_eq : text.any (fun text => !Token.sameWord current.text text) = true
              · simp [placeholder, same, text_eq, pure, Except.pure] at takes
              · refine Or.inr ⟨same, ?_⟩
                cases text <;> simp_all
            · simp [placeholder, same, pure, Except.pure] at takes
  | identifier use isAlias object =>
      simp only [Setting.takes, Setting.identifierTakes] at takes
      cases found : input.token? position with
      | none => simp [found] at takes
      | some current =>
          simp only [found] at takes
          refine ⟨token?_lt_size found, .identifier found ?_⟩
          by_cases placeholder : (input.cursorAt position).atPlaceholder = true
          · exact Or.inl placeholder
          · simp only [placeholder, Bool.false_eq_true, if_false] at takes
            obtain ⟨type, type_eq, takes⟩ := bind_eq_ok.1 takes
            refine Or.inr ⟨type, type_eq, ?_⟩
            by_cases identifier : type.isIdentifier = true
            · exact Or.inl identifier
            · by_cases suppressible : type.isSuppressible = true
              · exact Or.inr suppressible
              · simp [identifier, suppressible, pure, Except.pure] at takes
  | _ => simp [Setting.takes, pure, Except.pure] at takes

variable {p : Progress} {attempt : Attempt}

/-- A leaf is taken as a node of its own. -/
theorem takeLeaf_eq (inside : p.cursor.position < p.cursor.size) :
    Matcher.takeLeaf id p = .ok (.fullMatch 1)
      { p with cursor := p.cursor.extend 1 (p.cursor.input.leaf id p.cursor.position) } := by
  have advanced : Cursor.advance p.cursor.marked = _ := Cursor.advance_eq inside
  unfold Matcher.takeLeaf
  rw [bind_apply, move_eq Cursor.mark_eq]
  dsimp only
  rw [bind_apply, move_eq advanced]
  dsimp only
  rw [bind_apply, move_eq (Cursor.complete_eq id)]
  rfl

/-- A leaf does what is said of it. -/
theorem leaf_decides (stage : Stage s input) (sound : p.Sound s.grammar input)
    (leaf : kind.isLeaf = true) (attempt : Attempt) (id : ElementId) (path : Path) :
    Decides s.grammar id (Matcher.matchKind s attempt id path kind) p
      (s.takes input path id kind p.atWaved p.cursor.position) := by
  cases kind with
  | token type text flavor => exact token_decides stage sound path type text flavor
  | identifier use isAlias object => exact identifier_decides stage sound path
  | _ => cases leaf

/-- What comes of a leaf: nothing is to blame for a fault but a path that is astray. -/
theorem ensures_leaf {excused : Fault → Prop} (stage : Stage s input)
    (sound : p.Sound s.grammar input) (inside : path.Inside s.grammar)
    (astray : ∀ frame ∈ path, frame.Astray s.grammar → excused (.uncountable (frame.slot + 1)))
    (bound : id < s.grammar.elements.size) (leaf : kind.isLeaf = true) (calm : Prop)
    (below : Nat → ElementId → Record) :
    Ensures excused (Matcher.matchKind s attempt id path kind) p
      (Came s.grammar calm (kind.Leaves s input below id)
        (fun i => ∃ waved, s.takes input path id kind waved i = .ok false) p) := by
  have decided := leaf_decides stage sound leaf attempt id path
  have raises := raises_takes stage inside astray bound kind p.atWaved p.cursor.position
  -- The leaf is decided by its token; what is left is to say what each decision leaves behind.
  cases takes : s.takes input path id kind p.atWaved p.cursor.position with
  | error fault =>
      rw [takes] at decided
      obtain ⟨q, ran⟩ := decided
      exact ensures_of_error ran (raises fault takes)
  | ok taken =>
      rw [takes] at decided
      cases taken with
      | false =>
          obtain ⟨memo, waved, kept, free, ran⟩ := decided
          have inside := (Proceeds.refl calm sound).inside
          exact ensures_of_ok ran ⟨[], ⟨⟨rfl, rfl, free, fun _ => rfl, fun _ none => none⟩,
            Cursor.extend_zero.symm, inside, kept⟩, rfl, fun _ _ => ⟨_, takes⟩⟩
      | true =>
          obtain ⟨memo, kept, ran⟩ := decided
          obtain ⟨inside, leaves⟩ := leaves_of_takes below takes
          rw [← sound.reads] at inside
          have took : Matcher.takeLeaf id { p with memo } = _ := takeLeaf_eq inside
          refine ensures_of_ok (ran.trans took) ⟨_, ⟨⟨rfl, rfl, fun _ member => member, fun _ => rfl,
            fun _ none => none⟩, rfl, inside, kept⟩, Nat.one_pos, ?_⟩
          show kind.Leaves s input below id true p.cursor.position (p.cursor.position + 1)
            (p.cursor.input.leaf id p.cursor.position)
          rw [sound.reads]
          exact leaves

end Takes

end Dialect
