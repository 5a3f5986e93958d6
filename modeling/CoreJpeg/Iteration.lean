import Mathlib.Data.List.Induction

namespace CoreJpeg.Iteration

/-!
# Loops that may fail

A loop whose iterations may end it is a step function into `Except`.  This
module has the runs of such a function for a number of iterations, the
invariants of these runs, and the two arguments that decide whether a loop
ends: a measure that every iteration lowers, and a set of states that no
iteration leaves.  Every result is stated for an arbitrary state and failure.
-/

/-- A computation ends well when both of its parts do. -/
theorem bind_eq_ok {Failure Value Result : Type}
    {first : Except Failure Value} {rest : Value → Except Failure Result}
    {result : Result} :
    (first >>= rest) = .ok result ↔
      ∃ value, first = .ok value ∧ rest value = .ok result := by
  cases first with
  | error failure => simp [bind, Except.bind]
  | ok value => simp [bind, Except.bind]

variable {State Failure : Type}

/-- The state after a number of iterations, unless one of them has failed. -/
def iterate (step : State → Except Failure State) :
    Nat → State → Except Failure State
  | 0, state => .ok state
  | count + 1, state => do
      let next ← step state
      iterate step count next

section Runs

variable {step : State → Except Failure State}
variable {state next reached : State} {failure : Failure}

@[simp] theorem iterate_zero : iterate step 0 state = .ok state := rfl

theorem iterate_ok
    (stepped : step state = .ok next)
    (count : Nat) :
    iterate step (count + 1) state = iterate step count next := by
  simp [iterate, stepped, bind, Except.bind]

theorem iterate_error
    (failed : step state = .error failure)
    (count : Nat) :
    iterate step (count + 1) state = .error failure := by
  simp [iterate, failed, bind, Except.bind]

/-- The iterations are made one after the other. -/
theorem iterate_add (first second : Nat) :
    iterate step (first + second) state =
      (iterate step first state >>= iterate step second) := by
  induction first generalizing state with
  | zero =>
      rw [Nat.zero_add]
      rfl
  | succ first inductionHypothesis =>
      rw [Nat.add_right_comm]
      cases stepped : step state with
      | error failure =>
          rw [iterate_error stepped, iterate_error stepped]
          rfl
      | ok next =>
          rw [iterate_ok stepped, iterate_ok stepped, inductionHypothesis]

theorem iterate_succ (count : Nat) :
    iterate step (count + 1) state = (iterate step count state >>= step) := by
  have last : iterate step 1 = step := by
    funext other
    cases stepped : step other with
    | error failure => exact iterate_error stepped 0
    | ok next => exact iterate_ok stepped 0
  rw [iterate_add, last]

/-- A loop that has ended stays so. -/
theorem iterate_ended
    {count : Nat}
    (ended : iterate step count state = .error failure)
    (more : Nat) :
    iterate step (count + more) state = .error failure := by
  rw [iterate_add, ended]
  rfl

/-- What every iteration keeps holds in every state that a run reaches. -/
theorem iterate_invariant
    {Invariant : State → Prop}
    (keeps :
      ∀ state next, Invariant state → step state = .ok next → Invariant next)
    (start : Invariant state)
    {count : Nat}
    (isReached : iterate step count state = .ok reached) :
    Invariant reached := by
  induction count generalizing state with
  | zero =>
      obtain rfl := Except.ok.inj isReached
      exact start
  | succ count inductionHypothesis =>
      cases stepped : step state with
      | error failure =>
          rw [iterate_error stepped] at isReached
          cases isReached
      | ok next =>
          rw [iterate_ok stepped] at isReached
          exact inductionHypothesis (keeps state next start stepped) isReached

/-- A run that ends has come to the iteration that ended it. -/
theorem last_of_ended
    {count : Nat}
    (ended : iterate step count state = .error failure) :
    ∃ before last, iterate step before state = .ok last ∧
      step last = .error failure := by
  induction count with
  | zero =>
      cases ended
  | succ count inductionHypothesis =>
      rw [iterate_succ] at ended
      cases isReached : iterate step count state with
      | error other =>
          rw [isReached] at ended
          obtain rfl := Except.error.inj ended
          exact inductionHypothesis isReached
      | ok last =>
          rw [isReached] at ended
          exact ⟨count, last, isReached, ended⟩

/-- A loop ends when all of its iterations lower a number. -/
theorem ends_of_lowers
    (work : State → Nat)
    (lowers :
      ∀ count reached next, iterate step count state = .ok reached →
        step reached = .ok next → work next < work reached) :
    ∃ count failure, iterate step count state = .error failure := by
  induction isWork : work state using Nat.strongRecOn
    generalizing state with
  | _ left inductionHypothesis =>
      cases stepped : step state with
      | error failure =>
          exact ⟨1, failure, iterate_error stepped 0⟩
      | ok next =>
          have less := lowers 0 state next rfl stepped
          obtain ⟨count, failure, ended⟩ :=
            inductionHypothesis (work next) (by omega)
              (fun count reached later isReached =>
                lowers (count + 1) reached later
                  (by rw [iterate_ok stepped, isReached]))
              rfl
          exact ⟨count + 1, failure, by rw [iterate_ok stepped, ended]⟩

/-- A loop that cannot leave a set of states goes on forever there. -/
theorem goes_on
    {Stays : State → Prop}
    (stays :
      ∀ state, Stays state → ∃ next, step state = .ok next ∧ Stays next)
    (start : Stays state)
    (count : Nat) :
    ∃ reached, iterate step count state = .ok reached := by
  induction count generalizing state with
  | zero =>
      exact ⟨state, rfl⟩
  | succ count inductionHypothesis =>
      obtain ⟨next, stepped, here⟩ := stays state start
      obtain ⟨reached, isReached⟩ := inductionHypothesis here
      exact ⟨reached, by rw [iterate_ok stepped, isReached]⟩

/-- Where a loop goes on forever, it has not ended before. -/
theorem not_ended
    {before : Nat}
    (isReached : iterate step before state = .ok reached)
    (goesOn : ∀ count, ∃ later, iterate step count reached = .ok later)
    (count : Nat) :
    iterate step count state ≠ .error failure := by
  intro ended
  obtain ⟨later, isLater⟩ := goesOn count
  have stays := iterate_ended ended before
  rw [Nat.add_comm, iterate_add, isReached] at stays
  have both : Except.ok later = Except.error failure :=
    isLater.symm.trans stays
  cases both

end Runs

end CoreJpeg.Iteration
