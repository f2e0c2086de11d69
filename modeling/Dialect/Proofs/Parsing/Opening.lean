import Dialect.Proofs.Parsing.Moves

/-!
# Opening a cursor

A cursor can be opened on tokens whose types the vocabulary knows.  It goes through those
that are not trivia, in their order (`significant_eq`).
-/

set_option autoImplicit false

namespace Dialect

theorem Vocabulary.get_eq_ok {vocabulary : Vocabulary} {id : TokenTypeId} {type : TokenType} :
    vocabulary.get id = .ok type ↔ vocabulary.types[id]? = some type := by
  unfold Vocabulary.get
  cases vocabulary.types[id]? <;> simp

theorem Vocabulary.get_eq_error {vocabulary : Vocabulary} {id : TokenTypeId} {fault : Fault}
    (unknown : vocabulary.get id = .error fault) :
    ¬ id < vocabulary.types.size ∧ fault = .unknownTokenType id := by
  unfold Vocabulary.get at unknown
  split at unknown
  · cases unknown
  · rename_i missing
    exact ⟨fun bound => by simp [bound] at missing, (Except.error.inj unknown).symm⟩

theorem Vocabulary.has_of_get {v : Vocabulary} {id : TokenTypeId} {type : TokenType}
    (known : v.get id = .ok type) (property : TokenType → Bool) :
    v.has property id = property type := by
  unfold Vocabulary.get at known
  split at known
  · cases known
    simp_all [Vocabulary.has]
  · cases known

theorem get_of_lt {vocabulary : Vocabulary} {type : TokenTypeId}
    (bound : type < vocabulary.types.size) : ∃ found, vocabulary.get type = .ok found :=
  ⟨_, Vocabulary.get_eq_ok.2 (Array.getElem?_eq_getElem bound)⟩

/-- The tokens that carry meaning are listed in their order. -/
def Input.Ascending (input : Input) : Prop :=
  ∀ i k, i < k → k < input.size → input.indexAt i < input.indexAt k

namespace Cursor

variable {vocabulary : Vocabulary}

/-- The indices of the tokens that are not trivia, when the first token has the given one. -/
def meaningful (vocabulary : Vocabulary) (tokens : List Token) (first : Nat) : List Nat :=
  ((tokens.zipIdx first).filter fun entry =>
    !vocabulary.has TokenType.isTrivia entry.1.kind).map Prod.snd

/-- Going through tokens adds the indices of those that are not trivia. -/
theorem foldlM_significant {tokens : List Token} {first : Nat} {before after : Array Nat}
    (done : (tokens.zipIdx first).foldlM (fun indices (token, index) => do
      let type ← vocabulary.get token.kind
      return if type.isTrivia then indices else indices.push index) before = .ok after) :
    (∀ token ∈ tokens, token.kind < vocabulary.types.size) ∧
      after.toList = before.toList ++ meaningful vocabulary tokens first := by
  induction tokens generalizing first before with
  | nil =>
      obtain rfl := pure_eq_ok.1 done
      simp [meaningful]
  | cons token rest ih =>
      rw [List.zipIdx_cons, List.foldlM_cons] at done
      obtain ⟨middle, step, done⟩ := bind_eq_ok.1 done
      obtain ⟨type, type_eq, step⟩ := bind_eq_ok.1 step
      obtain rfl := pure_eq_ok.1 step
      rw [Vocabulary.get_eq_ok] at type_eq
      obtain ⟨known, listed⟩ := ih done
      refine ⟨?_, ?_⟩
      · intro other member
        rcases List.mem_cons.1 member with rfl | later
        · exact (Array.getElem?_eq_some_iff.1 type_eq).1
        · exact known other later
      · have trivia : vocabulary.has TokenType.isTrivia token.kind = type.isTrivia := by
          simp [Vocabulary.has, type_eq]
        rw [listed]
        simp only [meaningful, List.zipIdx_cons, List.filter_cons, trivia]
        cases type.isTrivia <;> simp

variable {tokens : Array Token} {placeholder : Option String} {c : Cursor}

/-- What a cursor is when it has just been opened. -/
theorem ofTokens_eq_ok (opened : ofTokens vocabulary tokens placeholder = .ok c) :
    c.tokens = tokens ∧ c.placeholder = placeholder ∧ c.position = 0 ∧ c.events = #[] ∧
      c.openMarks = 0 ∧ significantIndices vocabulary tokens = .ok c.significant := by
  obtain ⟨significant, found, opened⟩ := bind_eq_ok.1 opened
  obtain rfl := pure_eq_ok.1 opened
  exact ⟨rfl, rfl, rfl, rfl, rfl, found⟩

/-- **The tokens a cursor goes through** are those that are not trivia. -/
theorem significant_eq (opened : ofTokens vocabulary tokens placeholder = .ok c) :
    c.significant.toList = meaningful vocabulary tokens.toList 0 := by
  obtain ⟨-, -, -, -, -, found⟩ := ofTokens_eq_ok opened
  simpa using (foldlM_significant found).2

theorem known_of_ofTokens (opened : ofTokens vocabulary tokens placeholder = .ok c) :
    ∀ token ∈ tokens, token.kind < vocabulary.types.size := by
  obtain ⟨-, -, -, -, -, found⟩ := ofTokens_eq_ok opened
  simpa using (foldlM_significant found).1

/-- A cursor can be opened on tokens whose types are known. -/
theorem exists_ofTokens (known : ∀ token ∈ tokens, token.kind < vocabulary.types.size)
    (placeholder : Option String) : ∃ c, ofTokens vocabulary tokens placeholder = .ok c := by
  have folds : ∀ (rest : List Token) (first : Nat) (before : Array Nat),
      (∀ token ∈ rest, token.kind < vocabulary.types.size) →
      ∃ after, (rest.zipIdx first).foldlM (fun indices (token, index) => do
        let type ← vocabulary.get token.kind
        return if type.isTrivia then indices else indices.push index) before =
          (.ok after : Except Fault (Array Nat)) := by
    intro rest
    induction rest with
    | nil => exact fun first before _ => ⟨before, rfl⟩
    | cons token rest ih =>
        intro first before known
        have bound := known token List.mem_cons_self
        have type_eq : vocabulary.get token.kind = .ok vocabulary.types[token.kind] :=
          Vocabulary.get_eq_ok.2 (Array.getElem?_eq_getElem bound)
        obtain ⟨after, done⟩ := ih (first + 1)
          (if vocabulary.types[token.kind].isTrivia then before else before.push first)
          fun other member => known other (List.mem_cons_of_mem _ member)
        refine ⟨after, ?_⟩
        rw [List.zipIdx_cons, List.foldlM_cons]
        refine bind_eq_ok.2 ⟨_, bind_eq_ok.2 ⟨_, type_eq, rfl⟩, done⟩
  obtain ⟨significant, found⟩ := folds tokens.toList 0 #[] (by simpa using known)
  exact ⟨_, bind_eq_ok.2 ⟨significant, found, rfl⟩⟩

/-- Only a token of an unknown type is refused. -/
theorem unknown_of_ofTokens {fault : Fault}
    (refused : ofTokens vocabulary tokens placeholder = .error fault) :
    ∃ token ∈ tokens, ¬ token.kind < vocabulary.types.size ∧
      fault = .unknownTokenType token.kind := by
  unfold ofTokens at refused
  cases found : significantIndices vocabulary tokens with
  | ok significant =>
      rw [found] at refused
      cases refused
  | error other =>
      rw [found] at refused
      obtain rfl := Except.error.inj refused
      obtain ⟨⟨token, index⟩, member, before, failed⟩ := exists_of_foldlM_eq_error found
      have listed : token ∈ tokens :=
        Array.mem_toList_iff.1 (List.fst_mem_of_mem_zipIdx member)
      refine ⟨token, listed, ?_⟩
      dsimp only at failed
      cases type_eq : vocabulary.get token.kind with
      | ok type =>
          rw [type_eq] at failed
          cases failed
      | error unknown =>
          rw [type_eq] at failed
          obtain rfl := Except.error.inj failed
          exact Vocabulary.get_eq_error type_eq

/-- Without trivia the cursor goes through all tokens. -/
theorem token?_of_plain (opened : ofTokens vocabulary tokens placeholder = .ok c)
    (plain : ∀ token ∈ tokens, vocabulary.has TokenType.isTrivia token.kind = false)
    (position : Nat) : c.input.token? position = tokens[position]? := by
  have all : c.significant.toList = List.range tokens.size := by
    rw [significant_eq opened, meaningful, List.filter_eq_self.2, List.zipIdx_map_snd,
      List.range_eq_range', Array.length_toList]
    rintro ⟨token, index⟩ member
    have listed : token ∈ tokens :=
      Array.mem_toList_iff.1 (List.fst_mem_of_mem_zipIdx member)
    simp [plain token listed]
  have found : c.significant[position]? = (List.range tokens.size)[position]? := by
    rw [← all, Array.getElem?_toList]
  obtain ⟨rfl, -⟩ := ofTokens_eq_ok opened
  simp only [Input.token?, Input.cursorAt, current?, peek?, input, Nat.add_zero, found]
  by_cases inside : position < c.tokens.size
  · simp [List.getElem?_range inside]
  · rw [List.getElem?_eq_none (by simpa using inside), Array.getElem?_eq_none (by omega)]

/-- The token at a position is the meaningful one of that number. -/
theorem getElem?_meaningful (opened : ofTokens vocabulary tokens placeholder = .ok c) (k : Nat) :
    (meaningful vocabulary tokens.toList 0)[k]? =
      if k < c.input.size then some (c.input.indexAt k) else none := by
  rw [← significant_eq opened, Array.getElem?_toList]
  by_cases inside : k < c.significant.size
  · simp [Input.indexAt, Input.size, input, inside]
  · simp [Input.size, input, inside]

/-- The tokens that carry meaning are listed in ascending order. -/
theorem meaningful_sorted (vocabulary : Vocabulary) (row : List Token) (first : Nat) :
    (meaningful vocabulary row first).Pairwise (· < ·) := by
  have listed : (meaningful vocabulary row first).Sublist ((row.zipIdx first).map Prod.snd) :=
    List.filter_sublist.map _
  rw [List.zipIdx_map_snd] at listed
  exact (List.pairwise_lt_range').sublist listed

theorem ascending_of_ofTokens (opened : ofTokens vocabulary tokens placeholder = .ok c) :
    c.input.Ascending := by
  have sorted := meaningful_sorted vocabulary tokens.toList 0
  rw [← significant_eq opened] at sorted
  intro i k before inside
  have bound : k < c.significant.size := inside
  have earlier : i < c.significant.size := Nat.lt_trans before bound
  have ordered := List.pairwise_iff_getElem.1 sorted i k earlier bound before
  simpa [Input.indexAt, input, bound, earlier] using ordered

end Cursor

end Dialect
