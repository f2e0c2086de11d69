import Dialect.Proofs.Parsing.Moves

/-!
# Moves under a mark

Under a mark the cursor makes moves of any kind (`Cursor.Move`), further marks among them, which
are handed back innermost first.  No move reaches below the innermost mark that is out, so the
record from before the first mark stays as it was (`Cursor.Under`, `Under.makeAll`).

There is one exception.  A related place goes to the latest diagnostic of the whole record, which
may stand before the mark.  The places for which this happens are the stray ones
(`Cursor.strays`).
-/

set_option autoImplicit false

namespace Dialect

/-! ### Amending the latest diagnostic -/

/-- The diagnostic with further related places. -/
def Diagnostic.relating (places : List Related) (found : Diagnostic) : Diagnostic :=
  { found with related := found.related ++ places }

namespace Event

/-- Whether the event is a diagnostic. -/
def isDiagnostic : Event → Bool
  | .diagnostic _ => true
  | _ => false

variable {change after : Diagnostic → Diagnostic} {events more : List Event}

@[simp] theorem length_amendFirst : (amendFirst change events).length = events.length := by
  induction events with
  | nil => rfl
  | cons event rest ih => cases event <;> simp [amendFirst, ih]

/-- The first diagnostic of two lists is that of the first list, if it has any. -/
theorem amendFirst_append :
    amendFirst change (events ++ more) =
      if events.any isDiagnostic then amendFirst change events ++ more
      else events ++ amendFirst change more := by
  induction events with
  | nil => rfl
  | cons event rest ih =>
      cases event with
      | diagnostic found => simp [amendFirst, isDiagnostic]
      | _ =>
          simp only [List.cons_append, amendFirst, ih, List.any_cons, isDiagnostic, Bool.false_or]
          split <;> rfl

theorem amendFirst_amendFirst :
    amendFirst after (amendFirst change events) = amendFirst (after ∘ change) events := by
  induction events with
  | nil => rfl
  | cons event rest ih => cases event <;> simp [amendFirst, ih]

/-- Related places are added to nothing exactly if there are none, or no diagnostic. -/
theorem amendFirst_relating_eq_self_iff {places : List Related} :
    amendFirst (Diagnostic.relating places) events = events ↔
      places = [] ∨ events.any isDiagnostic = false := by
  induction events with
  | nil => simp [amendFirst]
  | cons event rest ih =>
      cases event with
      | diagnostic found =>
          simp only [amendFirst, List.cons.injEq, and_true, Event.diagnostic.injEq, List.any_cons,
            isDiagnostic, Bool.true_or, Bool.true_eq_false, or_false]
          constructor
          · intro same
            have related := congrArg Diagnostic.related same
            simpa [Diagnostic.relating] using related
          · rintro rfl
            simp [Diagnostic.relating]
      | _ => simp [amendFirst, isDiagnostic, ih]

/-- A list of events in which the latest diagnostic has been given related places. -/
def amended (places : List Related) (events : List Event) : List Event :=
  (amendFirst (Diagnostic.relating places) events.reverse).reverse

theorem toList_amendLatest (places : List Related) (events : Array Event) :
    (amendLatest (Diagnostic.relating places) events).toList = amended places events.toList := by
  simp [amendLatest, amended]

variable {places further : List Related}

@[simp] theorem length_amended : (amended places events).length = events.length := by
  simp [amended]

theorem amended_eq_self_iff :
    amended places events = events ↔ places = [] ∨ events.any isDiagnostic = false := by
  rw [amended, List.reverse_eq_iff, amendFirst_relating_eq_self_iff, List.any_reverse]

@[simp] theorem amended_nil : amended [] events = events := amended_eq_self_iff.2 (.inl rfl)

/-- Places that are added one after the other are added together. -/
theorem amended_amended :
    amended further (amended places events) = amended (places ++ further) events := by
  have together : Diagnostic.relating further ∘ Diagnostic.relating places =
      Diagnostic.relating (places ++ further) := by
    funext found
    simp [Diagnostic.relating]
  simp [amended, amendFirst_amendFirst, together]

/-- The latest diagnostic of two lists is that of the second list, if it has any. -/
theorem amended_append :
    amended places (events ++ more) =
      if more.any isDiagnostic then events ++ amended places more
      else amended places events ++ more := by
  simp only [amended, List.reverse_append, amendFirst_append, List.any_reverse]
  split <;> simp

end Event

namespace Cursor

/-! ### Moves -/

/-- A move under a mark.  What hands a mark back is about the innermost one that is out. -/
inductive Move where
  | advance
  | mark
  | rollback
  | takeBack
  | restore (snapshot : Snapshot)
  | release
  | complete (element : ElementId)
  | report (diagnostic : Diagnostic)
  | annotate (related : Related)
deriving DecidableEq, Repr

/-- Hands the innermost mark back.  The marks are those that were set under the first one, so
without any there is none to hand back. -/
def handInnermost {α : Type} (step : Mark → Step α) : List Mark → Step (List Mark)
  | [] => throw .surplusMark
  | m :: outer => do
      let _ ← step m
      return outer

/-- Makes a move.  The marks that are out are listed innermost first. -/
def Move.make (marks : List Mark) : Move → Step (List Mark)
  | .advance => do
      Cursor.advance
      return marks
  | .mark => do
      let m ← Cursor.mark
      return m :: marks
  | .rollback => handInnermost Cursor.rollback marks
  | .takeBack => handInnermost Cursor.takeBack marks
  | .restore snapshot => do
      Cursor.restore snapshot
      return marks
  | .release => handInnermost Cursor.release marks
  | .complete element => handInnermost (fun m => Cursor.complete m element) marks
  | .report diagnostic => do
      Cursor.report diagnostic
      return marks
  | .annotate related => do
      Cursor.annotate related
      return marks

/-- Makes moves one after the other. -/
def makeAll : List Mark → List Move → Step (List Mark)
  | marks, [] => return marks
  | marks, move :: rest => do
      let marks ← move.make marks
      makeAll marks rest

/-- Whether a diagnostic has been recorded since a mark. -/
def reportedSince (d : Cursor) (m : Mark) : Bool :=
  (d.events.toList.drop m.event).any Event.isDiagnostic

/-- The related places that a move adds to a diagnostic from before a mark. -/
def Move.strays (m : Mark) (d : Cursor) : Move → List Related
  | .annotate related => if d.reportedSince m then [] else [related]
  | _ => []

/-- The related places that moves add to a diagnostic from before a mark. -/
def strays (m : Mark) : List Mark → List Move → Cursor → List Related
  | _, [], _ => []
  | marks, move :: rest, d =>
      move.strays m d ++
        match move.make marks d with
        | .ok marks d => strays m marks rest d
        | .error _ _ => []

/-! ### What the steps come to when they succeed -/

section Steps

variable {d e : Cursor} {m : Mark}

theorem handBack_eq_ok (done : handBack d = .ok () e) :
    d.openMarks ≠ 0 ∧ e = { d with openMarks := d.openMarks - 1 } := by
  by_cases none : d.openMarks = 0
  · simp only [handBack, bind_apply, get_apply, if_pos none] at done
    cases done
  · rw [handBack_eq none] at done
    cases done
    exact ⟨none, rfl⟩

theorem advance_eq_ok (done : advance d = .ok () e) :
    ∃ index, e = { d with position := d.position + 1, events := d.events.push (.token index) } := by
  cases here : d.significant[d.position]? with
  | none =>
      simp only [advance, bind_apply, get_apply, here] at done
      cases done
  | some index =>
      simp only [advance, bind_apply, get_apply, here, set_apply] at done
      cases done
      exact ⟨index, rfl⟩

theorem rollback_eq_ok (done : rollback m d = .ok () e) :
    d.openMarks ≠ 0 ∧ e = { d with
      position := m.position, events := d.events.shrink m.event, openMarks := d.openMarks - 1 } := by
  obtain ⟨_, middle, back, done⟩ := bind_apply_eq_ok.1 done
  obtain ⟨out, rfl⟩ := handBack_eq_ok back
  cases done
  exact ⟨out, rfl⟩

theorem takeBack_eq_ok {snapshot : Snapshot} (done : takeBack m d = .ok snapshot e) :
    d.openMarks ≠ 0 ∧
      snapshot = ⟨m.position, d.position, m.event, d.events.extract m.event d.events.size⟩ ∧
        e = { d with
          position := m.position, events := d.events.shrink m.event
          openMarks := d.openMarks - 1 } := by
  simp only [takeBack, bind_apply, get_apply] at done
  split at done
  · cases done
  · obtain ⟨_, middle, back, done⟩ := bind_apply_eq_ok.1 done
    obtain ⟨out, rfl⟩ := handBack_eq_ok back
    cases done
    exact ⟨out, rfl, rfl⟩

theorem restore_eq_ok {snapshot : Snapshot} (done : restore snapshot d = .ok () e) :
    e = { d with position := snapshot.stop, events := d.events ++ snapshot.events } := by
  simp only [restore, bind_apply, get_apply] at done
  split at done
  · cases done
  · cases done
    rfl

theorem complete_eq_ok {element : ElementId} (done : complete m element d = .ok () e) :
    d.openMarks ≠ 0 ∧ ∃ first, e = { d with
      events := (d.events.setIfInBounds m.event (.start element first)).push .finish
      openMarks := d.openMarks - 1 } := by
  simp only [complete, bind_apply, get_apply] at done
  split at done
  · cases done
  · obtain ⟨_, middle, back, done⟩ := bind_apply_eq_ok.1 done
    obtain ⟨out, rfl⟩ := handBack_eq_ok back
    cases done
    exact ⟨out, _, rfl⟩

theorem handInnermost_eq_ok {α : Type} {step : Mark → Step α} {marks left : List Mark}
    (done : handInnermost step marks d = .ok left e) :
    ∃ m value, marks = m :: left ∧ step m d = .ok value e := by
  cases marks with
  | nil => cases done
  | cons m outer =>
      obtain ⟨value, middle, stepped, done⟩ := bind_apply_eq_ok.1 done
      cases done
      exact ⟨m, value, rfl, stepped⟩

end Steps

/-! ### What stays as it was -/

/-- A cursor under a mark that was set at `c`: behind the place that the mark keeps, `added` has
been recorded, and the marks that are out keep places there.  Before it nothing has changed but
for the stray places. -/
structure Under (c : Cursor) (strays : List Related) (added : List Event) (marks : List Mark)
    (d : Cursor) : Prop where
  input_eq : d.input = c.input
  openMarks_eq : d.openMarks = c.openMarks + 1 + marks.length
  events_eq : d.events.toList = Event.amended strays c.events.toList ++ .tombstone :: added
  inner : ∀ m ∈ marks, c.events.size < m.event

/-- The cursor at which the first mark was set, with the stray places in its record and the marks
that are out. -/
def origin (c : Cursor) (places : List Related) (marks : List Mark) : Cursor :=
  { c with
    events := (Event.amended places c.events.toList).toArray
    openMarks := c.openMarks + marks.length }

theorem origin_self (c : Cursor) : origin c [] [] = c := by
  simp [origin]

theorem under_marked (c : Cursor) : Under c [] [] [] c.marked where
  input_eq := rfl
  openMarks_eq := rfl
  events_eq := by simp [marked]
  inner := nofun

namespace Under

variable {c d e : Cursor} {places : List Related} {added : List Event} {marks left : List Mark}
  {m : Mark}

theorem size_eq (under : Under c places added marks d) :
    d.events.size = c.events.size + 1 + added.length := by
  rw [← Array.length_toList, under.events_eq]
  simp
  omega

/-- What is recorded in addition stands behind the mark. -/
theorem record (under : Under c places added marks d) (position : Nat) {events : Array Event}
    {more : List Event} (grown : events.toList = d.events.toList ++ more) :
    Under c places (added ++ more) marks { d with position, events } := by
  refine ⟨under.input_eq, under.openMarks_eq, ?_, under.inner⟩
  rw [grown, under.events_eq, List.append_assoc, List.cons_append]

/-- The innermost mark is handed back, and the record is changed behind the first one only. -/
theorem handBack (under : Under c places added (m :: left) d) (position : Nat)
    {events : Array Event} {behind : List Event}
    (changed : events.toList = Event.amended places c.events.toList ++ .tombstone :: behind) :
    Under c places behind left { d with position, events, openMarks := d.openMarks - 1 } := by
  refine ⟨under.input_eq, ?_, changed, fun other member => ?_⟩
  · show d.openMarks - 1 = c.openMarks + 1 + left.length
    rw [under.openMarks_eq, List.length_cons]
    omega
  · exact under.inner other (List.mem_cons_of_mem m member)

/-- The record up to a mark under the first one. -/
theorem take_eq (under : Under c places added (m :: left) d) :
    d.events.toList.take m.event =
      Event.amended places c.events.toList ++
        .tombstone :: added.take (m.event - c.events.size - 1) := by
  have behind := under.inner m List.mem_cons_self
  have length : m.event - c.events.size = (m.event - c.events.size - 1) + 1 := by omega
  rw [under.events_eq, List.take_append, List.take_of_length_le (by simp; omega)]
  simp only [Event.length_amended, Array.length_toList]
  rw [length, List.take_succ_cons]
  simp

/-- The record with the place of a mark under the first one filled. -/
theorem set_eq (under : Under c places added (m :: left) d) (event : Event) :
    d.events.toList.set m.event event =
      Event.amended places c.events.toList ++
        .tombstone :: added.set (m.event - c.events.size - 1) event := by
  have behind := under.inner m List.mem_cons_self
  have length : m.event - c.events.size = (m.event - c.events.size - 1) + 1 := by omega
  rw [under.events_eq, List.set_append_right _ _ (by simp; omega)]
  simp only [Event.length_amended, Array.length_toList]
  rw [length, List.set_cons_succ]
  simp

theorem reportedSince_eq (under : Under c places added marks d) :
    d.reportedSince c.place = added.any Event.isDiagnostic := by
  unfold reportedSince
  rw [under.events_eq, place_event, List.drop_append_of_le_length (by simp),
    List.drop_of_length_le (by simp)]
  simp [Event.isDiagnostic]

/-- **A move under a mark** changes nothing before it but by a stray place. -/
theorem make {move : Move} (under : Under c places added marks d)
    (made : move.make marks d = .ok left e) :
    ∃ added, Under c (places ++ move.strays c.place d) added left e := by
  cases move with
  | annotate related =>
      cases made
      have annotated : (Event.amendLatest (Diagnostic.relating [related]) d.events).toList =
          Event.amended [related]
            (Event.amended places c.events.toList ++ .tombstone :: added) := by
        rw [Event.toList_amendLatest, under.events_eq]
      simp only [Move.strays, under.reportedSince_eq]
      cases reported : added.any Event.isDiagnostic with
      | false =>
          -- The latest diagnostic is from before the mark.
          refine ⟨added, under.input_eq, under.openMarks_eq, annotated.trans ?_, under.inner⟩
          rw [Event.amended_append, if_neg (by simp [Event.isDiagnostic, reported]),
            Event.amended_amended]
          rfl
      | true =>
          refine ⟨Event.amended [related] added, under.input_eq, under.openMarks_eq,
            annotated.trans ?_, under.inner⟩
          have behind : Event.amended [related] ([.tombstone] ++ added) =
              [.tombstone] ++ Event.amended [related] added := by
            rw [Event.amended_append, if_pos reported]
          rw [Event.amended_append, if_pos (by simp [reported]), if_pos rfl, List.append_nil]
          exact congrArg (Event.amended places c.events.toList ++ ·) behind
  | advance =>
      obtain ⟨_, _, advanced, made⟩ := bind_apply_eq_ok.1 made
      obtain ⟨index, rfl⟩ := advance_eq_ok advanced
      cases made
      simp only [Move.strays, List.append_nil]
      exact ⟨_, under.record _ (Array.toList_push ..)⟩
  | mark =>
      cases made
      simp only [Move.strays, List.append_nil]
      refine ⟨added ++ [.tombstone], under.input_eq, ?_, ?_, ?_⟩
      · show d.openMarks + 1 = c.openMarks + 1 + (marks.length + 1)
        rw [under.openMarks_eq]
        omega
      · show (d.events.push .tombstone).toList = _
        simp [under.events_eq]
      · intro m member
        rcases List.mem_cons.1 member with rfl | outer
        · show c.events.size < d.events.size
          rw [under.size_eq]
          omega
        · exact under.inner m outer
  | rollback =>
      obtain ⟨m, _, rfl, rolled⟩ := handInnermost_eq_ok made
      obtain ⟨-, rfl⟩ := rollback_eq_ok rolled
      simp only [Move.strays, List.append_nil]
      exact ⟨_, under.handBack _ (Array.toList_shrink.trans under.take_eq)⟩
  | takeBack =>
      obtain ⟨m, _, rfl, taken⟩ := handInnermost_eq_ok made
      obtain ⟨-, -, rfl⟩ := takeBack_eq_ok taken
      simp only [Move.strays, List.append_nil]
      exact ⟨_, under.handBack _ (Array.toList_shrink.trans under.take_eq)⟩
  | restore snapshot =>
      obtain ⟨_, _, restored, made⟩ := bind_apply_eq_ok.1 made
      obtain rfl := restore_eq_ok restored
      cases made
      simp only [Move.strays, List.append_nil]
      exact ⟨_, under.record _ (Array.toList_append ..)⟩
  | release =>
      obtain ⟨m, _, rfl, released⟩ := handInnermost_eq_ok made
      obtain ⟨-, rfl⟩ := handBack_eq_ok released
      simp only [Move.strays, List.append_nil]
      exact ⟨_, under.handBack _ under.events_eq⟩
  | complete element =>
      obtain ⟨m, _, rfl, completed⟩ := handInnermost_eq_ok made
      obtain ⟨-, first, rfl⟩ := complete_eq_ok completed
      simp only [Move.strays, List.append_nil]
      have filled := under.set_eq (.start element first)
      rw [← Array.toList_setIfInBounds] at filled
      refine ⟨added.set (m.event - c.events.size - 1) (.start element first) ++ [.finish],
        under.handBack _ ?_⟩
      rw [Array.toList_push, filled, List.append_assoc, List.cons_append]
  | report diagnostic =>
      cases made
      simp only [Move.strays, List.append_nil]
      exact ⟨_, under.record _ (Array.toList_push ..)⟩

/-- **Moves under a mark** change nothing before it but by the stray places. -/
theorem makeAll {moves : List Move} (under : Under c places added marks d)
    (made : makeAll marks moves d = .ok left e) :
    ∃ added, Under c (places ++ strays c.place marks moves d) added left e := by
  induction moves generalizing places added marks d with
  | nil =>
      cases made
      rw [strays, List.append_nil]
      exact ⟨added, under⟩
  | cons move rest ih =>
      obtain ⟨_, _, first, others⟩ := bind_apply_eq_ok.1 made
      obtain ⟨_, next⟩ := under.make first
      rw [strays, first, ← List.append_assoc]
      exact ih next others

theorem back_eq (under : Under c places added marks d) :
    { d with
      position := c.position, events := d.events.shrink c.events.size
      openMarks := d.openMarks - 1 } = origin c places marks := by
  have same := under.input_eq
  simp only [input, Input.mk.injEq] at same
  have events : d.events.shrink c.events.size = (Event.amended places c.events.toList).toArray := by
    apply Array.toList_inj.1
    rw [Array.toList_shrink, under.events_eq]
    simp
  have marks : d.openMarks - 1 = c.openMarks + marks.length := by
    rw [under.openMarks_eq]
    omega
  rw [events, marks, same.1, same.2.1, same.2.2]
  rfl

theorem openMarks_ne (under : Under c places added marks d) : d.openMarks ≠ 0 := by
  rw [under.openMarks_eq]
  omega

/-- **Rolling back to the first mark** undoes everything but the stray places. -/
theorem rollback_eq (under : Under c places added marks d) :
    rollback c.place d = .ok () (origin c places marks) := by
  rw [← under.back_eq]
  simp only [rollback, bind_apply, handBack_eq under.openMarks_ne, modify_apply]
  rfl

/-- **Taking back what was done under the first mark** hands it out as it was recorded. -/
theorem takeBack_eq (under : Under c places added marks d) :
    takeBack c.place d =
      .ok ⟨c.position, d.position, c.events.size, (.tombstone :: added).toArray⟩
        (origin c places marks) := by
  have inRecord : ¬ d.events.size < c.place.event := by
    rw [place_event, under.size_eq]
    omega
  have taken : d.events.extract c.events.size d.events.size = (.tombstone :: added).toArray := by
    apply Array.toList_inj.1
    have length : (Event.tombstone :: added).length ≤ d.events.size - c.events.size := by
      rw [under.size_eq, List.length_cons]
      omega
    simpa [under.events_eq] using List.take_of_length_le length
  rw [← under.back_eq]
  simp only [takeBack, bind_apply, get_apply, if_neg inRecord, handBack_eq under.openMarks_ne,
    modifyGet_apply]
  simp only [place, taken]

end Under

end Cursor

end Dialect
