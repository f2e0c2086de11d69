import Mathlib.Control.Monad.Basic

/-!
# Results that may be errors

How a computation in `Except` that has succeeded splits into its steps.
-/

set_option autoImplicit false

namespace Dialect

variable {ε α β : Type}

/-- Two steps succeed together when the first succeeds and the second succeeds with
its result. -/
theorem bind_eq_ok {x : Except ε α} {f : α → Except ε β} {b : β} :
    (x >>= f) = .ok b ↔ ∃ a, x = .ok a ∧ f a = .ok b := by
  cases x with
  | error e => simp [bind, Except.bind]
  | ok a => simp [bind, Except.bind]

/-- What is made of a result is there when the result is. -/
theorem map_eq_ok {x : Except ε α} {f : α → β} {b : β} :
    x.map f = .ok b ↔ ∃ a, x = .ok a ∧ f a = b := by
  cases x <;> simp [Except.map]

/-- What is made of the result of two steps is made of what the second comes to. -/
theorem map_bind_eq {γ : Type} {x : Except ε α} {f : α → Except ε β} {g : β → γ} :
    (x >>= f).map g = x >>= fun a => (f a).map g := by
  cases x <;> rfl

theorem map_pure_eq {a : α} {f : α → β} :
    (pure a : Except ε α).map f = pure (f a) := rfl

@[simp] theorem throw_ne_ok {e : ε} {a : α} : (throw e : Except ε α) ≠ .ok a := by
  simp [throw, throwThe, MonadExceptOf.throw]

@[simp] theorem pure_eq_ok {a b : α} : (pure a : Except ε α) = .ok b ↔ a = b := by
  simp [pure, Except.pure]

/-- What comes after a check succeeds when the check is passed. -/
theorem guard_eq_ok {c : Prop} [Decidable c] {e : ε} {f : PUnit → Except ε β} {b : β} :
    (if c then (throw e : Except ε PUnit) >>= f else f ⟨⟩) = .ok b ↔ ¬ c ∧ f ⟨⟩ = .ok b := by
  by_cases refused : c <;> simp [refused, bind_eq_ok]

/-- When every item of a list has been turned into something, what stands at a place
came from what stood there. -/
theorem getElem?_of_mapM_eq_ok {f : α → Except ε β} {xs : List α} {ys : List β}
    (done : xs.mapM f = .ok ys) :
    ys.length = xs.length ∧
      ∀ (k : Nat) (x : α), xs[k]? = some x → ∃ y, ys[k]? = some y ∧ f x = .ok y := by
  induction xs generalizing ys with
  | nil =>
      rw [List.mapM_nil] at done
      obtain rfl := pure_eq_ok.1 done
      simp
  | cons head rest ih =>
      rw [List.mapM_cons] at done
      obtain ⟨first, firstDone, done⟩ := bind_eq_ok.1 done
      obtain ⟨others, othersDone, done⟩ := bind_eq_ok.1 done
      obtain rfl := pure_eq_ok.1 done
      obtain ⟨length, each⟩ := ih othersDone
      refine ⟨by simp [length], fun k x found => ?_⟩
      cases k with
      | zero =>
          obtain rfl : head = x := by simpa using found
          exact ⟨first, rfl, firstDone⟩
      | succ k => exact each k x (by simpa using found)

/-- Steps that all succeed, one for each item of a list, succeed together. -/
theorem mapM_eq_ok {f : α → Except ε β} {result : α → β} {xs : List α}
    (each : ∀ x ∈ xs, f x = .ok (result x)) : xs.mapM f = .ok (xs.map result) := by
  induction xs with
  | nil => rfl
  | cons head rest ih =>
      rw [List.mapM_cons, each head List.mem_cons_self,
        ih fun x member => each x (List.mem_cons_of_mem _ member)]
      rfl

/-- Steps that can all be made, one for each item of a list, can be made together. -/
theorem exists_mapM_eq_ok {f : α → Except ε β} {xs : List α}
    (each : ∀ x ∈ xs, ∃ y, f x = .ok y) : ∃ ys, xs.mapM f = .ok ys := by
  induction xs with
  | nil => exact ⟨[], rfl⟩
  | cons head rest ih =>
      obtain ⟨first, done⟩ := each head List.mem_cons_self
      obtain ⟨others, doneRest⟩ := ih fun x member => each x (List.mem_cons_of_mem _ member)
      rw [List.mapM_cons]
      exact ⟨_, bind_eq_ok.2 ⟨first, done, bind_eq_ok.2 ⟨others, doneRest, rfl⟩⟩⟩

/-- A check of every item of a list has been passed by each of them. -/
theorem of_forM_eq_ok {f : α → Except ε Unit} {xs : List α} (done : xs.forM f = .ok ⟨⟩) :
    ∀ x ∈ xs, f x = .ok ⟨⟩ := by
  induction xs with
  | nil => simp
  | cons head rest ih =>
      rw [List.forM_eq_forM, List.forM_cons] at done
      obtain ⟨_, firstDone, othersDone⟩ := bind_eq_ok.1 done
      intro x member
      rcases List.mem_cons.1 member with rfl | later
      · exact firstDone
      · exact ih othersDone x later

/-- A check that every item of a list passes is passed by the list. -/
theorem forM_eq_ok {f : α → Except ε Unit} {xs : List α} (each : ∀ x ∈ xs, f x = .ok ⟨⟩) :
    xs.forM f = .ok ⟨⟩ := by
  induction xs with
  | nil => rfl
  | cons head rest ih =>
      have others := ih fun x member => each x (List.mem_cons_of_mem _ member)
      rw [List.forM_eq_forM, List.forM_cons]
      exact bind_eq_ok.2 ⟨⟨⟩, each head List.mem_cons_self, others⟩

/-- What holds at first and is kept by every step of a fold holds at its end. -/
theorem foldlM_induction (holds : β → Prop) {f : β → α → Except ε β} {xs : List α} {b c : β}
    (done : xs.foldlM f b = .ok c) (start : holds b)
    (step : ∀ b x c, f b x = .ok c → holds b → holds c) : holds c := by
  induction xs generalizing b with
  | nil =>
      rw [List.foldlM_nil] at done
      obtain rfl := pure_eq_ok.1 done
      exact start
  | cons head rest ih =>
      rw [List.foldlM_cons] at done
      obtain ⟨middle, stepDone, restDone⟩ := bind_eq_ok.1 done
      exact ih restDone (step _ _ _ stepDone start)

/-- A fold that fails fails at a step. -/
theorem exists_of_foldlM_eq_error {f : β → α → Except ε β} {xs : List α} {b : β} {e : ε}
    (failed : xs.foldlM f b = .error e) : ∃ x ∈ xs, ∃ c, f c x = .error e := by
  induction xs generalizing b with
  | nil => cases failed
  | cons head rest ih =>
      rw [List.foldlM_cons] at failed
      cases step : f b head with
      | error other =>
          rw [step] at failed
          obtain rfl := Except.error.inj failed
          exact ⟨head, List.mem_cons_self, b, step⟩
      | ok middle =>
          rw [step] at failed
          obtain ⟨x, later, found⟩ := ih failed
          exact ⟨x, List.mem_cons_of_mem _ later, found⟩

/-! ### Steps with a state -/

section Steps

variable {σ : Type} (s : σ)

@[simp] theorem pure_apply (a : α) : (pure a : EStateM ε σ α) s = .ok a s := rfl

@[simp] theorem bind_apply (x : EStateM ε σ α) (f : α → EStateM ε σ β) :
    (x >>= f) s = match x s with
      | .ok a s => f a s
      | .error e s => .error e s := by
  simp only [bind, EStateM.bind]
  cases x s <;> rfl

@[simp] theorem get_apply : (get : EStateM ε σ σ) s = .ok s s := rfl

@[simp] theorem set_apply (t : σ) : (set t : EStateM ε σ PUnit) s = .ok ⟨⟩ t := rfl

@[simp] theorem modifyGet_apply (f : σ → α × σ) :
    (modifyGet f : EStateM ε σ α) s = .ok (f s).1 (f s).2 := rfl

@[simp] theorem modify_apply (f : σ → σ) : (modify f : EStateM ε σ PUnit) s = .ok ⟨⟩ (f s) := rfl

variable {s} in
/-- Two steps succeed together when the first succeeds and the second succeeds after it. -/
theorem bind_apply_eq_ok {x : EStateM ε σ α} {f : α → EStateM ε σ β} {t : σ} {b : β} :
    (x >>= f) s = .ok b t ↔ ∃ a u, x s = .ok a u ∧ f a u = .ok b t := by
  rw [bind_apply]
  cases x s <;> simp [and_assoc]

end Steps

end Dialect
