import Dialect.Proofs.Tracking.Basic

/-!
# Leaves side by side

From states with one cursor a leaf comes to the same in both parses (`tracks_leaf`).
-/

set_option autoImplicit false

namespace Dialect

namespace Pairing

open Matcher

variable {pair : Pairing} {p q : Progress} {path : Path} {id : ElementId}

theorem tracks_takeLeaf (abreast : pair.Abreast p q) (id : ElementId) :
    pair.Tracks Never (takeLeaf id) (takeLeaf id) p q := by
  unfold takeLeaf
  refine tracks_mark abreast ?_
  refine tracks_bind_same (tracks_move keeps_advance abreast.marked) fun _ r t _ after => ?_
  refine tracks_bind_same (tracks_move (keeps_complete _ id) after) fun _ r t _ after => ?_
  exact tracks_pure after _

section Asking

variable (fair : pair.Fair)

include fair

theorem tracks_mayFollow (abreast : pair.Abreast p q) (path : Path) (token : TokenTypeId) :
    pair.Tracks Never (liftM (pair.first.mayFollow path token))
      (liftM (pair.second.mayFollow path token)) p q := by
  refine tracks_query (answers_mayFollow fair.stage.reliable _ _ _) ?_ abreast
  rw [← fair.version]
  exact answers_mayFollow fair.reliable _ _ _

theorem tracks_mustFollow (abreast : pair.Abreast p q) (path : Path) (token : TokenTypeId) :
    pair.Tracks Never (liftM (pair.first.mustFollow path token))
      (liftM (pair.second.mustFollow path token)) p q := by
  refine tracks_query (answers_mustFollow fair.stage.reliable _ _ _) ?_ abreast
  rw [← fair.version]
  exact answers_mustFollow fair.reliable _ _ _

theorem tracks_qualifiesName (abreast : pair.Abreast p q) (path : Path) (next : Option Token) :
    pair.Tracks Never (qualifiesName pair.first path next) (qualifiesName pair.second path next)
      p q := by
  unfold qualifiesName
  dsimp only
  cases pair.first.grammar.vocabulary.dot? with
  | none => exact tracks_pure abreast false
  | some dot =>
      refine tracks_ite (fun _ => tracks_pure abreast false) fun _ => ?_
      exact tracks_bind_same (tracks_mayFollow fair abreast path dot)
        fun _ _ _ _ after => tracks_pure after _

theorem tracks_lacksArguments (abreast : pair.Abreast p q) (path : Path) (next : Option Token) :
    pair.Tracks Never (lacksArguments pair.first path next) (lacksArguments pair.second path next)
      p q := by
  unfold lacksArguments
  dsimp only
  cases pair.first.grammar.vocabulary.leftParenthesis? with
  | none => exact tracks_pure abreast false
  | some parenthesis =>
      exact tracks_ite (fun _ => tracks_pure abreast false) fun _ =>
        tracks_mustFollow fair abreast path parenthesis

theorem tracks_token (abreast : pair.Abreast p q) (id : ElementId) (path : Path)
    (type : TokenTypeId) (text : Option String) (flavor : Option Category) :
    pair.Tracks Never (token pair.first id path type text flavor)
      (token pair.second id path type text flavor) p q := by
  unfold token
  refine tracks_cursor abreast ?_
  dsimp only
  cases p.cursor.current? with
  | none => exact tracks_pure abreast _
  | some current =>
      refine tracks_ite (fun _ => tracks_takeLeaf abreast id) fun _ => ?_
      refine tracks_ite (fun _ => tracks_pure abreast _) fun _ => ?_
      refine tracks_ite (fun _ => tracks_pure abreast _) fun _ => tracks_check fun word _ => ?_
      refine tracks_ite (fun _ => ?_) fun _ => tracks_takeLeaf abreast id
      refine tracks_bind_same (tracks_qualifiesName fair abreast path _) fun _ _ _ _ after => ?_
      refine tracks_ite (fun _ => tracks_decline after _) fun _ => ?_
      refine tracks_ite (fun _ => ?_) fun _ => tracks_takeLeaf after id
      refine tracks_bind_same (tracks_lacksArguments fair after path _) fun _ _ _ _ after => ?_
      exact tracks_ite (fun _ => tracks_decline after _) fun _ => tracks_takeLeaf after id

theorem tracks_acceptsReservedWord (abreast : pair.Abreast p q) (id : ElementId) (path : Path)
    (word : TokenTypeId) :
    pair.Tracks Never (acceptsReservedWord pair.first id path word)
      (acceptsReservedWord pair.second id path word) p q := by
  have waved : q.isWaved word = p.isWaved word := by
    unfold Progress.isWaved
    rw [abreast.waved, abreast.together]
  unfold acceptsReservedWord
  refine tracks_get ?_
  rw [waved]
  refine tracks_ite (fun _ => tracks_pure abreast true) fun _ => tracks_check fun element _ => ?_
  refine tracks_ite (fun _ => tracks_pure abreast true) fun _ => tracks_check fun around _ => ?_
  refine tracks_ite (fun _ => tracks_pure abreast true) fun _ => tracks_cursor abreast ?_
  cases p.cursor.peek? 1 with
  | none => exact tracks_pure abreast true
  | some next => exact tracks_mayFollow fair abreast path next.kind

theorem tracks_identifier (abreast : pair.Abreast p q) (id : ElementId) (path : Path) :
    pair.Tracks Never (identifier pair.first id path) (identifier pair.second id path) p q := by
  unfold identifier
  refine tracks_cursor abreast ?_
  dsimp only
  cases p.cursor.current? with
  | none => exact tracks_pure abreast _
  | some current =>
      refine tracks_ite (fun _ => tracks_takeLeaf abreast id) fun _ => tracks_check fun type _ => ?_
      refine tracks_ite (fun _ => tracks_takeLeaf abreast id) fun _ => ?_
      refine tracks_ite (fun _ => ?_) fun _ => tracks_pure abreast _
      refine tracks_bind_same (tracks_acceptsReservedWord fair abreast id path _)
        fun _ _ _ _ after => ?_
      exact tracks_ite (fun _ => tracks_takeLeaf after id) fun _ => tracks_pure after _

/-- **Leaves come to the same**, whatever is attempted below composites. -/
theorem tracks_leaf (abreast : pair.Abreast p q) {kind : Kind ElementId}
    (leaf : kind.isLeaf = true) (attempt attempt' : Attempt) (id : ElementId) (path : Path) :
    pair.Tracks Never (matchKind pair.first attempt id path kind)
      (matchKind pair.second attempt' id path kind) p q := by
  cases kind with
  | token type text flavor => exact tracks_token fair abreast id path type text flavor
  | identifier use isAlias object => exact tracks_identifier fair abreast id path
  | _ => cases leaf

end Asking

end Pairing

end Dialect
