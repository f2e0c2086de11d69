import Dialect.Proofs.Matching.Naming

/-!
# A complete match reports nothing

Diagnostics are made where something is missing, and what is missing makes a match incomplete.  So
the record of a complete match has no diagnostic in it, whether or not it can be read as a tree
(`recorded_clean`).  The induction is on the levels of `Recorded`.
-/

set_option autoImplicit false

namespace Dialect

theorem clean_nil : Clean [] := fun _ => List.not_mem_nil

theorem Clean.append {events more : List Event} (clean : Clean events) (others : Clean more) :
    Clean (events ++ more) := by
  intro diagnostic member
  rcases List.mem_append.1 member with front | behind
  · exact clean diagnostic front
  · exact others diagnostic behind

/-- A place that was kept for a node that never came is no diagnostic. -/
theorem Clean.tombstone {events : List Event} (clean : Clean events) :
    Clean (.tombstone :: events) := by
  intro diagnostic member
  rcases List.mem_cons.1 member with head | further
  · cases head
  · exact clean diagnostic further

/-- Neither the beginning nor the end of a node is a diagnostic. -/
theorem Clean.node {events : List Event} (clean : Clean events) (input : Input) (id : ElementId)
    (position : Nat) : Clean (input.node id position events) := by
  intro diagnostic member
  rcases List.mem_append.1 member with inside | last
  · rcases List.mem_cons.1 inside with head | further
    · cases head
    · exact clean diagnostic further
  · simp at last

section Constructs

variable {s : Setting} {input : Input} {below : Nat → ElementId → Record}
  (clean : ∀ slot item i j events, below slot item true i j events → Clean events)
  {i j : Nat} {events : List Event}

include clean

theorem filled_clean {slots : List (Slot ElementId)} {index : Nat} {complete : Bool}
    (filled : Filled s input below slots index complete i j events) (full : complete = true) :
    Clean events := by
  induction filled with
  | done => exact clean_nil
  | pass inactive others ih => exact ih full
  | leave active optional others ih => exact ih full
  | fill active matched others ih => exact (clean _ _ _ _ _ matched).append (ih full)
  | fillPart => cases full
  | miss => cases full

theorem opened_clean {opening : ElementId} {ranges : List TextRange}
    (opened : Opened input below opening ranges i j events) : Clean events := by
  induction opened with
  | done => exact clean_nil
  | more others range_eq matched ih => exact ih.append (clean _ _ _ _ _ matched)

theorem shut_clean {closing : ElementId} {opened left : List TextRange}
    (shut : Shut below closing opened left i j events) : Clean events := by
  induction shut with
  | done => exact clean_nil
  | more matched others ih => exact (clean _ _ _ _ _ matched).append ih

theorem repeated_clean {item : ElementId} {separator : Option ElementId} {complete : Bool}
    (repeated : Repeated s input below item separator complete i j events)
    (full : complete = true) : Clean events := by
  induction repeated with
  | done => exact clean_nil
  | more separated matched others ih =>
      refine .append (.append ?_ (clean _ _ _ _ _ matched)) (ih full)
      cases separated with
      | none => exact clean_nil
      | some between => exact clean _ _ _ _ _ between
  | part => cases full
  | miss => cases full

theorem joined_clean {separator : ElementId} {report : Bool} {parts : List ElementId} {index : Nat}
    {complete : Bool} (joined : Joined s input below separator report parts index complete i j events)
    (full : complete = true) : Clean events := by
  induction joined with
  | done => exact clean_nil
  | more separated matched others ih =>
      exact ((clean _ _ _ _ _ separated).append (clean _ _ _ _ _ matched)).append (ih full)
  | missSeparator => cases full
  | missPart => cases full

theorem named_clean {separator : ElementId} {report : Bool} {variant : List ElementId}
    (named : Named s input below separator report variant true i j events) : Clean events := by
  cases named with
  | intro matched others =>
      exact (clean _ _ _ _ _ matched).append (joined_clean clean others rfl)

/-- A complete match reports nothing, if complete matches below do not. -/
theorem leaves_clean {id : ElementId} {kind : Kind ElementId} {complete : Bool}
    (leaves : kind.Leaves s input below id complete i j events) (full : complete = true) :
    Clean events := by
  subst full
  -- Wrappers of both kinds end alike, so what they take is clean for one reason.
  have whole : ∀ {slot opening ranges closing held m n first middle last},
      Opened input below opening ranges i m first →
        (held = true → Clean middle) → Closed s input below closing ranges held true n j last →
          Clean (input.node slot i (first ++ middle ++ last)) := by
    intro slot opening ranges closing held m n first middle last opened contained closed
    refine (((opened_clean clean opened).append (contained ?_)).append ?_).node input slot i
    · cases closed; rfl
    · cases closed with | all shut => exact shut_clean clean shut
  have content : ∀ {slot : Slot ElementId} {held m n middle},
      Contained s input below slot held m n middle → held = true → Clean middle := by
    intro slot held m n middle contained full
    cases contained with
    | fill active matched => exact clean _ _ _ _ _ (full ▸ matched)
    | leave => exact clean_nil
    | miss => cases full
  cases leaves with
  | token => exact clean_nil.leaf input id i
  | identifier => exact clean_nil.leaf input id i
  | sequence filled => exact (filled_clean clean filled rfl).node input id i
  | @wrapper opening slot _ _ held _ _ m _ first middle last range_eq opened contained passed closed =>
      refine whole (.more (.done i) range_eq opened) (fun full => ?_) closed
      by_cases active : slot.isActive s.options.version = true
      · exact content (contained active) full
      · rw [(passed (by simpa using active)).2.2]
        exact clean_nil
  | balanced opened nonempty contained closed => exact whole opened (content contained) closed
  | bare active matched => exact (clean _ _ _ _ _ matched).tombstone
  | oneOf tried active admitted matched => exact (clean _ _ _ _ _ matched).tombstone
  | iteration matched repeated =>
      exact ((clean _ _ _ _ _ matched).append (repeated_clean clean repeated rfl)).node input id i
  | qualified member named => exact (named_clean clean named).tombstone.node input id i
  | qualifiedPart member named => exact (named_clean clean named).node input id i
  | reference matched => exact clean _ _ _ _ _ matched

end Constructs

/-- **The record of a complete match has no diagnostic in it.** -/
theorem recorded_clean {s : Setting} {input : Input} (levels : Nat) {id : ElementId} {outer : Path}
    {i j : Nat} {events : List Event} (recorded : Recorded s input levels id outer true i j events) :
    Clean events := by
  induction levels generalizing id outer i j events with
  | zero => exact recorded.elim
  | succ levels ih =>
      obtain ⟨-, kind, -, leaves⟩ := recorded
      exact leaves_clean (fun _ _ _ _ _ matched => ih matched) leaves rfl

end Dialect
