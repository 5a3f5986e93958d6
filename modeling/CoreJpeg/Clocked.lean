import Mathlib.Data.List.Induction

namespace CoreJpeg

/-!
# Runs of synchronous circuits

A clocked circuit is a next-state function applied once per clock edge.  This
module fixes the finite runs of such a function, the observations collected
along a run, and the conditions an environment meets in every cycle of a run.
Every result is stated for an arbitrary state, input and observation type.

The two induction rules are the ones the circuit modules use: an invariant of
every admissible cycle holds after every admissible run, and a fact relating
the past inputs to the present state may be extended one cycle at a time.
Cycles without effect may be left out of a run.
-/

namespace Clocked

variable {State Input Observation : Type}

/-- The state reached after a finite list of input cycles. -/
def run (step : State → Input → State) : State → List Input → State
  | state, [] => state
  | state, cycle :: rest => run step (step state cycle) rest

/-- All observations made along a run, in cycle order. -/
def observe
    (step : State → Input → State)
    (observation : State → Input → List Observation) :
    State → List Input → List Observation
  | _, [] => []
  | state, cycle :: rest =>
      observation state cycle ++
        observe step observation (step state cycle) rest

/-- How many cycles of a run are productive. -/
def tally
    (step : State → Input → State)
    (productive : State → Input → Bool) :
    State → List Input → Nat
  | _, [] => 0
  | state, cycle :: rest =>
      (productive state cycle).toNat +
        tally step productive (step state cycle) rest

/-- Every cycle of a run meets a condition on its state and its input. -/
def Along
    (step : State → Input → State)
    (allowed : State → Input → Prop) :
    State → List Input → Prop
  | _, [] => True
  | state, cycle :: rest =>
      allowed state cycle ∧ Along step allowed (step state cycle) rest

/-- The condition of a finite run can be evaluated cycle by cycle. -/
instance decidableAlong
    (step : State → Input → State)
    (allowed : State → Input → Prop)
    [decide : ∀ state cycle, Decidable (allowed state cycle)] :
    ∀ state cycles, Decidable (Along step allowed state cycles)
  | _, [] => isTrue trivial
  | state, cycle :: rest =>
      have := decidableAlong step allowed (step state cycle) rest
      inferInstanceAs
        (Decidable (allowed state cycle ∧
          Along step allowed (step state cycle) rest))

section Append

variable {step : State → Input → State}
variable {observation : State → Input → List Observation}
variable {allowed : State → Input → Prop}

@[simp] theorem run_nil (state : State) :
    run step state [] = state := rfl

@[simp] theorem run_cons
    (state : State) (cycle : Input) (rest : List Input) :
    run step state (cycle :: rest) =
      run step (step state cycle) rest := rfl

/-- A run over a concatenation continues from the intermediate state. -/
@[simp] theorem run_append
    (state : State) (first second : List Input) :
    run step state (first ++ second) =
      run step (run step state first) second := by
  induction first generalizing state with
  | nil =>
      rfl
  | cons cycle rest inductionHypothesis =>
      exact inductionHypothesis (step state cycle)

@[simp] theorem observe_nil (state : State) :
    observe step observation state [] = [] := rfl

@[simp] theorem observe_cons
    (state : State) (cycle : Input) (rest : List Input) :
    observe step observation state (cycle :: rest) =
      observation state cycle ++
        observe step observation (step state cycle) rest := rfl

/-- Observations over a concatenation are the concatenated observations. -/
@[simp] theorem observe_append
    (state : State) (first second : List Input) :
    observe step observation state (first ++ second) =
      observe step observation state first ++
        observe step observation (run step state first) second := by
  induction first generalizing state with
  | nil =>
      rfl
  | cons cycle rest inductionHypothesis =>
      simp [inductionHypothesis, List.append_assoc]

/-- Observations may be translated one cycle at a time. -/
theorem observe_map
    {Translated : Type}
    (translate : Observation → Translated)
    (state : State)
    (cycles : List Input) :
    observe step (fun state cycle => (observation state cycle).map translate)
        state cycles =
      (observe step observation state cycles).map translate := by
  induction cycles generalizing state with
  | nil =>
      rfl
  | cons cycle rest inductionHypothesis =>
      rw [observe_cons, observe_cons, List.map_append, inductionHypothesis]

/-- A projection that commutes with the steps commutes with the runs. -/
theorem run_projected
    {Outer : Type}
    {outer : Outer → Input → Outer}
    (project : Outer → State)
    (commutes :
      ∀ state cycle, project (outer state cycle) = step (project state) cycle)
    (state : Outer)
    (cycles : List Input) :
    project (run outer state cycles) = run step (project state) cycles := by
  induction cycles generalizing state with
  | nil =>
      rfl
  | cons cycle rest inductionHypothesis =>
      rw [run_cons, run_cons, inductionHypothesis, commutes]

/-- What a projection observes is what its own run observes. -/
theorem observe_projected
    {Outer : Type}
    {outer : Outer → Input → Outer}
    (project : Outer → State)
    (commutes :
      ∀ state cycle, project (outer state cycle) = step (project state) cycle)
    (state : Outer)
    (cycles : List Input) :
    observe outer (fun state cycle => observation (project state) cycle)
        state cycles =
      observe step observation (project state) cycles := by
  induction cycles generalizing state with
  | nil =>
      rfl
  | cons cycle rest inductionHypothesis =>
      rw [observe_cons, observe_cons, inductionHypothesis, commutes]

@[simp] theorem along_nil (state : State) :
    Along step allowed state [] := trivial

@[simp] theorem along_cons
    (state : State) (cycle : Input) (rest : List Input) :
    Along step allowed state (cycle :: rest) ↔
      allowed state cycle ∧
        Along step allowed (step state cycle) rest := Iff.rfl

/-- A condition on a projection is met along the projection's own run. -/
theorem along_projected
    {Outer : Type}
    {outer : Outer → Input → Outer}
    (project : Outer → State)
    (commutes :
      ∀ state cycle, project (outer state cycle) = step (project state) cycle)
    (state : Outer)
    (cycles : List Input) :
    Along outer (fun state cycle => allowed (project state) cycle) state
        cycles ↔
      Along step allowed (project state) cycles := by
  induction cycles generalizing state with
  | nil =>
      rfl
  | cons cycle rest inductionHypothesis =>
      rw [along_cons, along_cons, inductionHypothesis, commutes]

/-- A concatenated run meets a condition when both of its parts do. -/
@[simp] theorem along_append
    (state : State) (first second : List Input) :
    Along step allowed state (first ++ second) ↔
      Along step allowed state first ∧
        Along step allowed (run step state first) second := by
  induction first generalizing state with
  | nil =>
      simp
  | cons cycle rest inductionHypothesis =>
      simp [inductionHypothesis, and_assoc]

/-- The empty condition is met along every run. -/
theorem along_true (state : State) (cycles : List Input) :
    Along step (fun _ _ => True) state cycles := by
  induction cycles generalizing state with
  | nil =>
      trivial
  | cons cycle rest inductionHypothesis =>
      exact ⟨trivial, inductionHypothesis (step state cycle)⟩

/-- A weaker condition is met along every run that meets a stronger one. -/
theorem Along.mono
    {weaker : State → Input → Prop}
    (weakens : ∀ state cycle, allowed state cycle → weaker state cycle)
    {state : State}
    {cycles : List Input}
    (along : Along step allowed state cycles) :
    Along step weaker state cycles := by
  induction cycles generalizing state with
  | nil =>
      trivial
  | cons cycle rest inductionHypothesis =>
      exact ⟨weakens state cycle along.1, inductionHypothesis along.2⟩

/-- Two conditions met along a run are met together. -/
theorem Along.both
    {other : State → Input → Prop}
    {state : State}
    {cycles : List Input}
    (first : Along step allowed state cycles)
    (second : Along step other state cycles) :
    Along step
      (fun state cycle => allowed state cycle ∧ other state cycle)
      state cycles := by
  induction cycles generalizing state with
  | nil =>
      trivial
  | cons cycle rest inductionHypothesis =>
      exact ⟨⟨first.1, second.1⟩,
        inductionHypothesis first.2 second.2⟩

end Append

section Induction

variable {step : State → Input → State}
variable {allowed : State → Input → Prop}

/--
An invariant of every admissible cycle holds after every admissible run.
-/
theorem run_invariant
    {invariant : State → Prop}
    (preserved :
      ∀ state cycle,
        invariant state → allowed state cycle →
          invariant (step state cycle))
    {state : State}
    (initially : invariant state)
    {cycles : List Input}
    (along : Along step allowed state cycles) :
    invariant (run step state cycles) := by
  induction cycles generalizing state with
  | nil =>
      exact initially
  | cons cycle rest inductionHypothesis =>
      exact inductionHypothesis
        (preserved state cycle initially along.1) along.2

/-- An invariant of every cycle holds after every run. -/
theorem run_always
    {invariant : State → Prop}
    (preserved :
      ∀ state cycle, invariant state → invariant (step state cycle))
    {state : State}
    (initially : invariant state)
    (cycles : List Input) :
    invariant (run step state cycles) := by
  induction cycles generalizing state with
  | nil =>
      exact initially
  | cons cycle rest inductionHypothesis =>
      exact inductionHypothesis (preserved state cycle initially)

/--
What an invariant shows of every admissible cycle is met along every
admissible run.
-/
theorem along_invariant
    {invariant : State → Prop}
    {shown : State → Input → Prop}
    (preserved :
      ∀ state cycle,
        invariant state → allowed state cycle →
          invariant (step state cycle))
    (observed :
      ∀ state cycle,
        invariant state → allowed state cycle → shown state cycle)
    {state : State}
    (initially : invariant state)
    {cycles : List Input}
    (along : Along step allowed state cycles) :
    Along step shown state cycles := by
  induction cycles generalizing state with
  | nil =>
      trivial
  | cons cycle rest inductionHypothesis =>
      exact ⟨observed state cycle initially along.1,
        inductionHypothesis (preserved state cycle initially along.1)
          along.2⟩

/--
A fact about the past inputs and the present state holds after every
admissible run when one further cycle extends it.
-/
theorem run_induction
    {motive : List Input → State → Prop}
    {state : State}
    (initially : motive [] state)
    (extend :
      ∀ past cycle,
        Along step allowed state past →
        allowed (run step state past) cycle →
        motive past (run step state past) →
          motive (past ++ [cycle]) (step (run step state past) cycle))
    (cycles : List Input)
    (along : Along step allowed state cycles) :
    motive cycles (run step state cycles) := by
  induction cycles using List.reverseRecOn with
  | nil =>
      exact initially
  | append_singleton past cycle inductionHypothesis =>
      rw [along_append] at along
      have now := extend past cycle along.1 along.2.1
        (inductionHypothesis along.1)
      simpa using now

/--
Items that a circuit holds are neither lost, duplicated nor reordered over a
run when they are not in any of its cycles.
-/
theorem conserved
    {Item : Type}
    {invariant : State → Prop}
    (holds : State → List Item)
    (received delivered : State → Input → List Item)
    (preserved :
      ∀ state cycle,
        invariant state → allowed state cycle →
          invariant (step state cycle))
    (balanced :
      ∀ state cycle,
        invariant state → allowed state cycle →
          holds state ++ received state cycle =
            delivered state cycle ++ holds (step state cycle))
    {state : State}
    (initially : invariant state)
    {cycles : List Input}
    (along : Along step allowed state cycles) :
    holds state ++ observe step received state cycles =
      observe step delivered state cycles ++
        holds (run step state cycles) := by
  induction cycles generalizing state with
  | nil =>
      simp
  | cons cycle rest inductionHypothesis =>
      have now := balanced state cycle initially along.1
      have later :=
        inductionHypothesis (preserved state cycle initially along.1)
          along.2
      rw [observe_cons, observe_cons, run_cons, ← List.append_assoc, now,
        List.append_assoc, later, List.append_assoc]

/--
A potential that productive cycles use up bounds the number of them.
-/
theorem tally_le_potential
    {invariant : State → Prop}
    {productive : State → Input → Bool}
    {potential : State → Nat}
    (preserved :
      ∀ state cycle,
        invariant state → allowed state cycle →
          invariant (step state cycle))
    (uses :
      ∀ state cycle,
        invariant state → allowed state cycle →
          (productive state cycle).toNat + potential (step state cycle) ≤
            potential state)
    {state : State}
    (initially : invariant state)
    {cycles : List Input}
    (along : Along step allowed state cycles) :
    tally step productive state cycles ≤ potential state := by
  induction cycles generalizing state with
  | nil =>
      exact Nat.zero_le _
  | cons cycle rest inductionHypothesis =>
      have used := uses state cycle initially along.1
      have later :=
        inductionHypothesis (preserved state cycle initially along.1)
          along.2
      simp only [tally]
      omega

end Induction

/-! ## Cycles that leave no trace -/

section Hidden

variable {Other : Type}
variable {step : State → Input → State} {other : Other → Input → Other}
variable {hidden : Input → Bool} {allowed : State → Input → Prop}
variable {related : State → Other → Prop}

/-- A run is related to the run without its hidden cycles. -/
theorem related_without_hidden
    (stutters :
      ∀ state partner cycle, related state partner →
        allowed state cycle → hidden cycle = true →
          related (step state cycle) partner)
    (matched :
      ∀ state partner cycle, related state partner →
        allowed state cycle → hidden cycle = false →
          related (step state cycle) (other partner cycle))
    {state : State}
    {partner : Other}
    (initially : related state partner)
    {cycles : List Input}
    (along : Along step allowed state cycles) :
    related (run step state cycles)
      (run other partner (cycles.filter fun cycle => !hidden cycle)) := by
  induction cycles generalizing state partner with
  | nil =>
      exact initially
  | cons cycle rest inductionHypothesis =>
      cases isHidden : hidden cycle with
      | true =>
          rw [List.filter_cons_of_neg (by simp [isHidden])]
          exact inductionHypothesis
            (stutters state partner cycle initially along.1 isHidden) along.2
      | false =>
          rw [List.filter_cons_of_pos (by simp [isHidden])]
          exact inductionHypothesis
            (matched state partner cycle initially along.1 isHidden) along.2

/-- A run shows what the run without its hidden cycles shows. -/
theorem observe_without_hidden
    {observation : State → Input → List Observation}
    {seen : Other → Input → List Observation}
    (stutters :
      ∀ state partner cycle, related state partner →
        allowed state cycle → hidden cycle = true →
          related (step state cycle) partner)
    (matched :
      ∀ state partner cycle, related state partner →
        allowed state cycle → hidden cycle = false →
          related (step state cycle) (other partner cycle))
    (silent :
      ∀ state cycle, hidden cycle = true → observation state cycle = [])
    (shown :
      ∀ state partner cycle, related state partner →
        allowed state cycle → hidden cycle = false →
          observation state cycle = seen partner cycle)
    {state : State}
    {partner : Other}
    (initially : related state partner)
    {cycles : List Input}
    (along : Along step allowed state cycles) :
    observe step observation state cycles =
      observe other seen partner
        (cycles.filter fun cycle => !hidden cycle) := by
  induction cycles generalizing state partner with
  | nil =>
      rfl
  | cons cycle rest inductionHypothesis =>
      cases isHidden : hidden cycle with
      | true =>
          rw [List.filter_cons_of_neg (by simp [isHidden]), observe_cons,
            silent state cycle isHidden, List.nil_append]
          exact inductionHypothesis
            (stutters state partner cycle initially along.1 isHidden) along.2
      | false =>
          rw [List.filter_cons_of_pos (by simp [isHidden]), observe_cons,
            observe_cons,
            shown state partner cycle initially along.1 isHidden,
            inductionHypothesis
              (matched state partner cycle initially along.1 isHidden)
              along.2]

end Hidden

/-! ## Endless runs -/

section Endless

variable {step : State → Input → State}

/-- The state before the `n`-th cycle of an endless run. -/
def trace (step : State → Input → State) (state : State)
    (cycles : Nat → Input) : Nat → State
  | 0 => state
  | n + 1 => step (trace step state cycles n) (cycles n)

/-- An invariant of every cycle holds at every time of an endless run. -/
theorem trace_invariant
    {invariant : State → Prop}
    {state : State}
    {cycles : Nat → Input}
    (initially : invariant state)
    (preserved :
      ∀ n, invariant (trace step state cycles n) →
        invariant (trace step state cycles (n + 1)))
    (n : Nat) :
    invariant (trace step state cycles n) := by
  induction n with
  | zero =>
      exact initially
  | succ n inductionHypothesis =>
      exact preserved n inductionHypothesis

/--
What holds at one time of an endless run and is kept for as long as nothing
disturbs it holds until then.
-/
theorem trace_until
    {holds : State → Prop}
    {undisturbed : Nat → Prop}
    {state : State}
    {cycles : Nat → Input}
    {first last : Nat}
    (initially : holds (trace step state cycles first))
    (kept :
      ∀ n, first ≤ n → undisturbed n → holds (trace step state cycles n) →
        holds (trace step state cycles (n + 1)))
    (later : first ≤ last)
    (quiet : ∀ n, first ≤ n → n < last → undisturbed n) :
    holds (trace step state cycles last) := by
  induction later with
  | refl =>
      exact initially
  | step later inductionHypothesis =>
      exact kept _ later (quiet _ later (Nat.lt_succ_self _))
        (inductionHypothesis fun m after before =>
          quiet m after (Nat.lt_succ_of_lt before))

/--
A rank that is lower at some later time, as long as a goal is not met, leads to
the goal.
-/
theorem reaches_of_rank
    {rank : Nat → Nat}
    {goal : Nat → Prop}
    (falls :
      ∀ n, ¬ goal n → ∃ later, n ≤ later ∧ (goal later ∨ rank later < rank n))
    (n : Nat) :
    ∃ later, n ≤ later ∧ goal later := by
  induction bound : rank n using Nat.strongRecOn generalizing n with
  | _ bound inductionHypothesis =>
      subst bound
      by_cases met : goal n
      · exact ⟨n, Nat.le_refl n, met⟩
      · obtain ⟨later, after, reached | lower⟩ := falls n met
        · exact ⟨later, after, reached⟩
        · obtain ⟨last, behind, reached⟩ :=
            inductionHypothesis (rank later) lower later rfl
          exact ⟨last, Nat.le_trans after behind, reached⟩

end Endless

end Clocked

end CoreJpeg
