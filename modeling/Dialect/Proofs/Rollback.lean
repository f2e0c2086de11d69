import Mathlib.Logic.Relation
import Dialect.Proofs.Parsing.Marks

/-!
# Going back

Rolling back to a mark undoes whatever was done under it, but for related places that went to a
diagnostic from before the mark (`rollback_undoes`).  None does if related places are only added
right behind the diagnostic they belong to (`Prompt`).

An attempt that was taken back can be replayed whenever the cursor is back where it began, whatever
else has been tried and given up in between (`Detour`).  The replayed record is the one that was
taken back, and what is done with it is done as if it had never been (`restore_replays`).
-/

set_option autoImplicit false

namespace Dialect.Cursor

/-! ### Rolling back -/

section Undoing

variable {c begun last : Cursor} {m : Mark} {moves : List Move} {marks : List Mark}

/-- Moves under a mark that has just been set. -/
theorem under_of_mark (marked : mark c = .ok m begun)
    (made : makeAll [] moves begun = .ok marks last) :
    m = c.place ∧ ∃ added, Under c (strays m [] moves begun) added marks last := by
  rw [mark_eq] at marked
  cases marked
  exact ⟨rfl, (under_marked c).makeAll made⟩

/-- **Rolling back undoes everything but stray places.**  Whatever moves are made under a mark,
rolling back to it brings back the position and the record from before it, except that the latest
diagnostic of this record has got the related places which were added while there was no later
one.  So the record is as before exactly if there were none, or no diagnostic to get them. -/
theorem rollback_undoes (marked : mark c = .ok m begun)
    (made : makeAll [] moves begun = .ok marks last) :
    ∃ back, rollback m last = .ok () back ∧
      back.input = c.input ∧ back.position = c.position ∧
      back.openMarks = c.openMarks + marks.length ∧
      back.events.toList = Event.amended (strays m [] moves begun) c.events.toList ∧
      (back.events = c.events ↔
        strays m [] moves begun = [] ∨ c.events.toList.any Event.isDiagnostic = false) := by
  obtain ⟨rfl, added, under⟩ := under_of_mark marked made
  refine ⟨_, under.rollback_eq, rfl, rfl, rfl, rfl, ?_⟩
  rw [← Event.amended_eq_self_iff, ← Array.toList_inj]
  rfl

/-- A diagnostic that was made before a mark is set. -/
def overdue : Diagnostic where
  code := .E0201
  message := "expected 'a', found end of input"
  range := .emptyAt 0

/-- A related place that is added to it under the mark is still there after rolling back. -/
theorem overdue_outlives_rollback :
    let c : Cursor := ⟨#[], #[], none, 0, #[.diagnostic overdue], 0⟩
    let moves : List Move := [.annotate ⟨"opened here", .emptyAt 0⟩]
    ∃ begun last, mark c = .ok c.place begun ∧ makeAll [] moves begun = .ok [] last ∧
      ∃ back, rollback c.place last = .ok () back ∧ back.position = c.position ∧
        back.events ≠ c.events := by
  intro c moves
  obtain ⟨back, rolled, -, position, -, -, same⟩ :=
    rollback_undoes (mark_eq (c := c)) (rfl : makeAll [] moves c.marked = .ok [] _)
  have stray : ¬ (strays c.place [] moves c.marked = [] ∨
      c.events.toList.any Event.isDiagnostic = false) := by decide
  exact ⟨_, _, rfl, rfl, back, rolled, position, fun unchanged => stray (same.1 unchanged)⟩

end Undoing

/-! ### Related places that do not stray -/

/-- Related places are only added right behind the diagnostic they belong to; `reported` tells
whether one was made just before. -/
def Prompt : (reported : Bool) → List Move → Prop
  | _, [] => True
  | _, .report _ :: rest => Prompt true rest
  | reported, .annotate _ :: rest => reported = true ∧ Prompt true rest
  | _, _ :: rest => Prompt false rest

/-- The last event of the record is a diagnostic. -/
def EndsReported (d : Cursor) : Prop :=
  ∃ earlier found, d.events.toList = earlier ++ [.diagnostic found]

theorem EndsReported.reportedSince {c d : Cursor} {places : List Related} {added : List Event}
    {marks : List Mark} (ends : EndsReported d) (under : Under c places added marks d) :
    d.reportedSince c.place = true := by
  obtain ⟨earlier, found, events_eq⟩ := ends
  have inside : c.events.size ≤ earlier.length := by
    have size := under.size_eq
    rw [← Array.length_toList, events_eq, List.length_append, List.length_singleton] at size
    omega
  unfold Cursor.reportedSince
  rw [events_eq, place_event, List.drop_append_of_le_length inside]
  simp [Event.isDiagnostic]

theorem endsReported_report (d : Cursor) (found : Diagnostic) :
    EndsReported { d with events := d.events.push (.diagnostic found) } :=
  ⟨d.events.toList, found, Array.toList_push ..⟩

theorem EndsReported.annotate {d : Cursor} (ends : EndsReported d) (related : Related) :
    EndsReported { d with
      events := Event.amendLatest (Diagnostic.relating [related]) d.events } := by
  obtain ⟨earlier, found, events_eq⟩ := ends
  refine ⟨earlier, found.relating [related], ?_⟩
  rw [Event.toList_amendLatest, events_eq, Event.amended_append]
  simp [Event.isDiagnostic, Event.amended, Event.amendFirst]

/-- No related place strays if each belongs to a diagnostic made just before. -/
theorem strays_of_prompt {c d e : Cursor} {places : List Related} {added : List Event}
    {marks left : List Mark} {moves : List Move} {reported : Bool}
    (under : Under c places added marks d) (made : makeAll marks moves d = .ok left e)
    (prompt : Prompt reported moves) (ends : reported = true → EndsReported d) :
    strays c.place marks moves d = [] := by
  induction moves generalizing places added marks d reported with
  | nil => rfl
  | cons move rest ih =>
      obtain ⟨_, _, first, others⟩ := bind_apply_eq_ok.1 made
      obtain ⟨_, next⟩ := under.make first
      rw [strays, first]
      cases move with
      | report found =>
          cases first
          exact ih next others prompt fun _ => endsReported_report d found
      | annotate related =>
          obtain ⟨rfl, prompt⟩ := prompt
          have later := (ends rfl).reportedSince under
          cases first
          have none := ih next others prompt fun _ => (ends rfl).annotate related
          simpa [Move.strays, later] using none
      | _ => exact ih next others prompt (absurd · Bool.false_ne_true)

/-! ### Replaying -/

/-- An attempt that is opened by a mark and given up at its end, rolled back or taken back.  The
marks set under its own are handed back by then. -/
inductive Detour (c d : Cursor) : Prop
  | rolledBack {m : Mark} {begun last : Cursor} {moves : List Move}
      (marked : mark c = .ok m begun) (made : makeAll [] moves begun = .ok [] last)
      (prompt : Prompt false moves) (ended : rollback m last = .ok () d)
  | takenBack {m : Mark} {begun last : Cursor} {moves : List Move} {snapshot : Snapshot}
      (marked : mark c = .ok m begun) (made : makeAll [] moves begun = .ok [] last)
      (prompt : Prompt false moves) (ended : takeBack m last = .ok snapshot d)

/-- **A detour leads back to where it began.** -/
theorem Detour.eq {c d : Cursor} (detour : Detour c d) : d = c := by
  have undone : ∀ {m : Mark} {begun last : Cursor} {moves : List Move},
      mark c = .ok m begun → makeAll [] moves begun = .ok [] last → Prompt false moves →
        m = c.place ∧ ∃ added, Under c [] added [] last := by
    intro m begun last moves marked made prompt
    rw [mark_eq] at marked
    cases marked
    obtain ⟨added, under⟩ := (under_marked c).makeAll made
    rw [strays_of_prompt (under_marked c) made prompt (absurd · Bool.false_ne_true)] at under
    exact ⟨rfl, added, under⟩
  cases detour with
  | rolledBack marked made prompt ended =>
      obtain ⟨rfl, added, under⟩ := undone marked made prompt
      rw [under.rollback_eq, origin_self] at ended
      cases ended
      rfl
  | takenBack marked made prompt ended =>
      obtain ⟨rfl, added, under⟩ := undone marked made prompt
      rw [under.takeBack_eq, origin_self] at ended
      cases ended
      rfl

theorem detours_eq {c d : Cursor} (detours : Relation.ReflTransGen Detour c d) : d = c := by
  induction detours with
  | refl => rfl
  | tail _ detour ih => exact detour.eq.trans ih

/-- An attempt that was taken back is replayed where it began, as if its mark had been released. -/
theorem Under.restore_eq {c d : Cursor} {places : List Related} {added : List Event}
    (under : Under c places added [] d) :
    restore ⟨c.position, d.position, c.events.size, (.tombstone :: added).toArray⟩
        (origin c places []) =
      .ok () { d with openMarks := d.openMarks - 1 } := by
  have same := under.input_eq
  simp only [input, Input.mk.injEq] at same
  have events : (Event.amended places c.events.toList).toArray ++ (Event.tombstone :: added).toArray =
      d.events := by
    apply Array.toList_inj.1
    rw [under.events_eq]
    simp
  have marks : d.openMarks - 1 = c.openMarks := by
    rw [under.openMarks_eq]
    simp
  simp [restore, origin, events, marks, same]

/-- A mark that keeps a place in the record can be handed back as a node. -/
theorem exists_complete {d : Cursor} {m : Mark} (inRecord : m.event < d.events.size)
    (out : d.openMarks ≠ 0) (element : ElementId) :
    complete m element d = .ok () { d with
      events := (d.events.setIfInBounds m.event
        (.start element (d.input.indexAt m.position))).push .finish
      openMarks := d.openMarks - 1 } := by
  simp only [complete, bind_apply, get_apply, if_neg (Nat.not_le.2 inRecord), handBack_eq out,
    modify_apply]
  rfl

/-- **An attempt that was taken back can be replayed.**  Whatever moves are made under a mark, they
can be taken back; and after any number of detours the snapshot is replayed, with the position and
the record as they were just before it was taken.  It is as if the mark had been released instead,
and completing a mark from further out comes to the same record as it would have then. -/
theorem restore_replays {c begun before : Cursor} {m : Mark} {moves : List Move}
    (marked : mark c = .ok m begun) (made : makeAll [] moves begun = .ok [] before) :
    ∃ snapshot back, takeBack m before = .ok snapshot back ∧
      ∀ last, Relation.ReflTransGen Detour back last →
        ∃ restored, restore snapshot last = .ok () restored ∧
          restored.position = before.position ∧ restored.events = before.events ∧
          release m before = .ok () restored ∧
          ∀ (outer : Mark) (element : ElementId), outer.event < c.events.size → c.openMarks ≠ 0 →
            ∃ replayed kept, complete outer element restored = .ok () replayed ∧
              complete outer element before = .ok () kept ∧ replayed.events = kept.events := by
  obtain ⟨rfl, added, under⟩ := under_of_mark marked made
  refine ⟨_, _, under.takeBack_eq, fun last detours => ?_⟩
  obtain rfl := detours_eq detours
  refine ⟨_, under.restore_eq, rfl, rfl, handBack_eq under.openMarks_ne, ?_⟩
  intro outer element further out
  have inRecord : outer.event < before.events.size := by
    rw [under.size_eq]
    omega
  have still : before.openMarks - 1 ≠ 0 := by
    rw [under.openMarks_eq]
    simpa using out
  exact ⟨_, _, exists_complete (d := { before with openMarks := before.openMarks - 1 }) inRecord
    still element, exists_complete inRecord under.openMarks_ne element, rfl⟩

/-- An attempt that took a token and missed another is replayed after a longer one that came to
nothing, and is part of the node that is completed around it. -/
theorem overdue_replayed :
    let c : Cursor := ⟨#[⟨0, "b", 0⟩, ⟨0, "b", 1⟩], #[0, 1], none, 0, #[.tombstone], 1⟩
    let moves : List Move := [.advance, .report overdue]
    ∃ begun before, mark c = .ok c.place begun ∧ makeAll [] moves begun = .ok [] before ∧
      ∃ snapshot, takeBack c.place before = .ok snapshot c ∧ Detour c c ∧
        ∃ restored, restore snapshot c = .ok () restored ∧
          restored.position = 1 ∧ restored.events = before.events ∧
          ∃ replayed, complete ⟨0, 0⟩ 7 restored = .ok () replayed ∧ replayed.events =
            #[.start 7 0, .tombstone, .token 0, .diagnostic overdue, .finish] := by
  intro c moves
  obtain ⟨snapshot, back, taken, replays⟩ :=
    restore_replays (mark_eq (c := c)) (rfl : makeAll [] moves c.marked = .ok [] _)
  obtain rfl : back = c := by
    cases taken
    rfl
  have tried : makeAll [] [.advance, .mark, .advance, .release] c.marked = .ok [] _ := rfl
  have detour : Detour c c := .rolledBack mark_eq tried trivial rfl
  obtain ⟨restored, done, position, events, -, outwards⟩ := replays c (.single detour)
  obtain ⟨replayed, kept, completed, instead, same⟩ :=
    outwards ⟨0, 0⟩ 7 (by decide) (by decide)
  refine ⟨_, _, rfl, rfl, snapshot, taken, detour, restored, done, position, events, replayed,
    completed, same.trans ?_⟩
  cases instead
  rfl

end Dialect.Cursor
