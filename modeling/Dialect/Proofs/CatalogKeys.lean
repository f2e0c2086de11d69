import Dialect.Proofs.SharedCatalog

/-!
# The names a catalog keeps its grammars under

An insertion stores a grammar under the name of its dialect.  Loading stores what was made
under the name that was asked for, whatever dialect that is of.  So a catalog keeps each
grammar under its own name (`Catalog.Keyed`) as long as no request misfiles one
(`Request.Misfiles`), and no longer: what a request leaves behind and hands out is as it
should be at every point of a run exactly if none of the run misfiles (`keyed_iff`).
-/

set_option autoImplicit false

namespace Dialect.Catalog

/-- Every grammar is kept under the name of its own dialect. -/
def Keyed (c : Catalog) : Prop :=
  ∀ name loaded, c.get? name = some loaded → loaded.grammar.vocabulary.dialect = name

/-- A grammar of another dialect is made for a name that nothing is kept under. -/
def Request.Misfiles (c : Catalog) : Request → Prop
  | .getOrLoad dialect load =>
      c.get? dialect = none ∧ ∃ g, load () = .ok g ∧ g.vocabulary.dialect ≠ dialect
  | _ => False

/-- A request leaves a keyed catalog and hands out nothing but a grammar of the dialect it
is about. -/
def Request.Fits (c : Catalog) (request : Request) : Prop :=
  (request.carryOut c).2.Keyed ∧ ∀ loaded, (request.carryOut c).1 = .ok (some loaded) →
    loaded.grammar.vocabulary.dialect = request.dialect

/-- What is kept after requests that were carried out one after the other. -/
def carryOutAll (c : Catalog) (requests : List Request) : Catalog :=
  requests.foldl (fun c request => (request.carryOut c).2) c

/-! ### One request -/

theorem keyed_empty : empty.Keyed := by
  intro name loaded found
  simp [get?, empty] at found

theorem Keyed.put {c : Catalog} (keyed : c.Keyed) {dialect : String} {loaded : Loaded}
    (own : loaded.grammar.vocabulary.dialect = dialect) : (c.put dialect loaded).Keyed := by
  intro name stored found
  rw [get?_put] at found
  split at found
  · next same =>
      cases found
      exact own.trans same
  · exact keyed name stored found

theorem Keyed.remove {c : Catalog} (keyed : c.Keyed) (dialect : String) :
    (c.remove dialect).2.Keyed := by
  intro name stored found
  rw [get?_remove] at found
  split at found
  · cases found
  · exact keyed name stored found

/-- Loading where nothing is kept stores what was made, and hands it out. -/
theorem getOrLoad_of_vacant {c : Catalog} {dialect : String}
    {load : Unit → Except DefinitionError Grammar} {g : Grammar}
    (vacant : c.get? dialect = none) (made : load () = .ok g) :
    c.getOrLoad dialect load =
      (.ok (c.issue g).1, (c.issue g).2.put dialect (c.issue g).1) := by
  have settled : (c.issue g).2.settle dialect (c.issue g).1 =
      ((c.issue g).1, (c.issue g).2.put dialect (c.issue g).1) := by
    obtain ⟨present, found, -⟩ | ⟨-, stored⟩ := settle_cases (c.issue g).2 dialect (c.issue g).1
    · rw [get?_issue, vacant] at found
      cases found
    · exact stored
  simp only [getOrLoad, vacant, made, settled]

/-- In a keyed catalog, only loading for a vacant name can go wrong, and only if what is made
is of another dialect. -/
theorem Keyed.fits {c : Catalog} (keyed : c.Keyed) {request : Request}
    (files : ¬ request.Misfiles c) : request.Fits c := by
  cases request with
  | get dialect =>
      refine ⟨keyed, fun loaded handed => ?_⟩
      exact keyed dialect loaded (Except.ok.inj handed)
  | getOrLoad dialect load =>
      simp only [Request.Fits, Request.carryOut]
      cases found : c.get? dialect with
      | some present =>
          simp only [getOrLoad, found]
          refine ⟨keyed, fun loaded handed => ?_⟩
          cases handed
          exact keyed dialect present found
      | none =>
          cases made : load () with
          | error refusal =>
              simp only [getOrLoad, found, made]
              refine ⟨keyed, fun loaded handed => ?_⟩
              cases handed
          | ok g =>
              -- The loader does not misfile: what it made is called what was asked for.
              have own : g.vocabulary.dialect = dialect :=
                not_not.mp fun other => files ⟨found, g, made, other⟩
              simp only [getOrLoad_of_vacant found made]
              refine ⟨Keyed.put (c := (c.issue g).2) keyed own, fun loaded handed => ?_⟩
              cases handed
              exact own
  | insert g =>
      refine ⟨Keyed.put (c := (c.issue g).2) keyed rfl, fun loaded handed => ?_⟩
      cases handed
      rfl
  | remove dialect =>
      refine ⟨keyed.remove dialect, fun loaded handed => ?_⟩
      exact keyed dialect loaded (Except.ok.inj handed)

/-- Whoever misfiles a grammar is handed it, and the catalog keeps it under a name that is
not its own. -/
theorem Request.Misfiles.stores {c : Catalog} {request : Request} (misfiles : request.Misfiles c) :
    ∃ loaded, (request.carryOut c).1 = .ok (some loaded) ∧
      (request.carryOut c).2.get? request.dialect = some loaded ∧
      loaded.grammar.vocabulary.dialect ≠ request.dialect := by
  cases request with
  | getOrLoad dialect load =>
      obtain ⟨vacant, g, made, other⟩ := misfiles
      refine ⟨(c.issue g).1, ?_, ?_, other⟩ <;>
        simp only [Request.carryOut, Request.dialect, getOrLoad_of_vacant vacant made]
      · rfl
      · rw [get?_put, if_pos rfl]
  | get dialect => exact misfiles.elim
  | insert g => exact misfiles.elim
  | remove dialect => exact misfiles.elim

/-- A request that fits does not misfile. -/
theorem Request.Fits.files {c : Catalog} {request : Request} (fits : request.Fits c) :
    ¬ request.Misfiles c := by
  intro misfiles
  obtain ⟨loaded, handed, -, other⟩ := misfiles.stores
  exact other (fits.2 loaded handed)

/-! ### A run -/

theorem carryOutAll_append_singleton (c : Catalog) (before : List Request) (request : Request) :
    carryOutAll c (before ++ [request]) = (request.carryOut (carryOutAll c before)).2 := by
  simp [carryOutAll]

/-- A run without misfiling keeps the catalog keyed. -/
theorem keyed_carryOutAll {requests : List Request}
    (files : ∀ before request after, requests = before ++ request :: after →
      ¬ request.Misfiles (carryOutAll empty before)) :
    (carryOutAll empty requests).Keyed := by
  induction requests using List.reverseRecOn with
  | nil => exact keyed_empty
  | append_singleton before last ih =>
      rw [carryOutAll_append_singleton]
      have keyed : (carryOutAll empty before).Keyed := by
        refine ih fun earlier request later same => ?_
        exact files earlier request (later ++ [last]) (by rw [same]; simp)
      exact (keyed.fits (files before last [] rfl)).1

/-- Of any requests, carried out one after the other on a catalog that was empty: each one
leaves every grammar under the name of its own dialect and hands out only a grammar of the
dialect it is about, exactly if none of them loads a grammar of another dialect for a name
that nothing is kept under. -/
theorem keyed_iff (requests : List Request) :
    (∀ before request after, requests = before ++ request :: after →
      (request.carryOut (carryOutAll empty before)).2.Keyed ∧
      ∀ loaded, (request.carryOut (carryOutAll empty before)).1 = .ok (some loaded) →
        loaded.grammar.vocabulary.dialect = request.dialect) ↔
    ∀ before request after, requests = before ++ request :: after →
      ¬ request.Misfiles (carryOutAll empty before) := by
  constructor
  · intro fits before request after split
    exact Request.Fits.files (fits before request after split)
  · intro files before request after split
    refine Keyed.fits (keyed_carryOutAll fun earlier one later same => ?_)
      (files before request after split)
    exact files earlier one (later ++ request :: after) (by rw [split, same]; simp)

/-- One who asks for "two words" and makes the grammar of "one word" finds it under the name
that was asked for. -/
theorem one_word_misfiled :
    let request : Request := .getOrLoad "two words" fun _ => .ok oneWord
    (request.carryOut empty).2.get? "two words" = some ⟨0, oneWord⟩ ∧
      ¬ (request.carryOut empty).2.Keyed ∧
      ¬ ∀ before asked after, [request] = before ++ asked :: after →
        (asked.carryOut (carryOutAll empty before)).2.Keyed ∧
        ∀ loaded, (asked.carryOut (carryOutAll empty before)).1 = .ok (some loaded) →
          loaded.grammar.vocabulary.dialect = asked.dialect := by
  intro request
  have stored : (request.carryOut empty).2.get? "two words" = some ⟨0, oneWord⟩ := by rfl
  refine ⟨stored, fun keyed => ?_, fun fits => ?_⟩
  · exact absurd (keyed _ _ stored) (by decide)
  · exact (keyed_iff [request]).mp fits [] request [] rfl
      ⟨by rfl, oneWord, rfl, by decide⟩

end Dialect.Catalog
