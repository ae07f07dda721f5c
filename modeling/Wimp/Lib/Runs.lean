import Mathlib.Data.List.Induction

/-!
# Runs of partial step functions

A transition system is a partial function from a state and a label to the
next state; the label resolves every choice of the environment, and an
undefined step is a label which the state does not admit.  A run feeds a
finite list of labels to the step function.

Invariants are proved once, by induction at the end of the run.  A history
invariant may also mention the labels consumed so far.
-/

namespace Wimp.Lib.Runs

universe u v

variable {State : Type u} {Label : Type v}

/-- The state reached by a finite list of labels, when all are admitted. -/
def run (step : State → Label → Option State) :
    State → List Label → Option State
  | state, [] => some state
  | state, label :: rest =>
      (step state label).bind fun next => run step next rest

variable {step : State → Label → Option State}

@[simp]
theorem run_nil (state : State) : run step state [] = some state :=
  rfl

theorem run_cons (state : State) (label : Label) (rest : List Label) :
    run step state (label :: rest) =
      (step state label).bind fun next => run step next rest :=
  rfl

/-- A run over a concatenation passes through an intermediate state. -/
theorem run_append_eq_some_iff
    {start finish : State} {first second : List Label} :
    run step start (first ++ second) = some finish ↔
      ∃ middle,
        run step start first = some middle ∧
          run step middle second = some finish := by
  induction first generalizing start with
  | nil => simp
  | cons label rest induction =>
      rw [List.cons_append, run_cons, run_cons]
      cases stepped : step start label with
      | none => simp
      | some next =>
          simp only [Option.bind_some]
          exact induction

/-- A run which ends with one more label. -/
theorem run_concat_eq_some_iff
    {start finish : State} {labels : List Label} {label : Label} :
    run step start (labels ++ [label]) = some finish ↔
      ∃ middle,
        run step start labels = some middle ∧
          step middle label = some finish := by
  rw [run_append_eq_some_iff]
  constructor
  · rintro ⟨middle, ran, last⟩
    rw [run_cons] at last
    refine ⟨middle, ran, ?_⟩
    cases stepped : step middle label with
    | none => simp [stepped] at last
    | some next => simpa [stepped] using last
  · rintro ⟨middle, ran, last⟩
    exact ⟨middle, ran, by rw [run_cons, last]; rfl⟩

/-- Induction at the end of a run, with the consumed labels in view. -/
theorem run_induction
    {start : State} {motive : List Label → State → Prop}
    (initial : motive [] start)
    (preserved :
      ∀ labels middle label next,
        run step start labels = some middle → motive labels middle →
          step middle label = some next → motive (labels ++ [label]) next)
    {labels : List Label} {finish : State}
    (ran : run step start labels = some finish) :
    motive labels finish := by
  induction labels using List.reverseRecOn generalizing finish with
  | nil =>
      rw [run_nil, Option.some.injEq] at ran
      subst finish
      exact initial
  | append_singleton labels label induction =>
      rcases run_concat_eq_some_iff.mp ran with ⟨middle, earlier, last⟩
      exact preserved labels middle label finish earlier
        (induction earlier) last

/-- A state property preserved by every step holds throughout a run. -/
theorem run_invariant
    {invariant : State → Prop}
    (preserved :
      ∀ state label next,
        invariant state → step state label = some next → invariant next)
    {start finish : State} {labels : List Label}
    (initial : invariant start)
    (ran : run step start labels = some finish) :
    invariant finish :=
  run_induction (motive := fun _ state => invariant state) initial
    (fun _ middle label next _ holds stepped =>
      preserved middle label next holds stepped) ran

/-! ## Conditions on the steps of a run -/

/-- Every step of the run satisfies a condition on state and label. -/
def Along (step : State → Label → Option State)
    (condition : State → Label → Prop) : State → List Label → Prop
  | _, [] => True
  | state, label :: rest =>
      condition state label ∧
        ∀ next, step state label = some next →
          Along step condition next rest

instance decidableAlong
    {condition : State → Label → Prop}
    [∀ state label, Decidable (condition state label)] :
    ∀ state labels, Decidable (Along step condition state labels)
  | _, [] => inferInstanceAs (Decidable True)
  | state, label :: rest =>
      have : ∀ next, Decidable (Along step condition next rest) :=
        fun next => decidableAlong next rest
      inferInstanceAs
        (Decidable
          (condition state label ∧
            ∀ next ∈ step state label, Along step condition next rest))

/-- A condition along a run extended by one step. -/
theorem along_concat_iff
    {condition : State → Label → Prop}
    {start finish : State} {labels : List Label} {label : Label}
    (ran : run step start labels = some finish) :
    Along step condition start (labels ++ [label]) ↔
      Along step condition start labels ∧ condition finish label := by
  induction labels generalizing start with
  | nil =>
      rw [run_nil, Option.some.injEq] at ran
      subst ran
      simp [Along]
  | cons first rest induction =>
      rw [run_cons] at ran
      cases stepped : step start first with
      | none => simp [stepped] at ran
      | some next =>
          rw [stepped, Option.bind_some] at ran
          have tail := induction ran
          rw [List.cons_append]
          simp only [Along, stepped, Option.some.injEq, forall_eq']
          rw [tail, and_assoc]

/-- Induction at the end of a run all of whose steps meet a condition. -/
theorem run_induction_along
    {condition : State → Label → Prop}
    {start : State} {motive : List Label → State → Prop}
    (initial : motive [] start)
    (preserved :
      ∀ labels middle label next,
        motive labels middle → condition middle label →
          step middle label = some next → motive (labels ++ [label]) next)
    {labels : List Label} {finish : State}
    (along : Along step condition start labels)
    (ran : run step start labels = some finish) :
    motive labels finish := by
  refine run_induction
    (motive := fun labels state =>
      Along step condition start labels → motive labels state)
    (fun _ => initial) ?_ ran along
  intro labels middle label next earlier holds stepped extended
  rcases (along_concat_iff earlier).mp extended with ⟨before, last⟩
  exact preserved labels middle label next (holds before) last stepped

/-- A condition along a run implies every weaker one. -/
theorem Along.imp
    {condition weaker : State → Label → Prop}
    (implies : ∀ state label, condition state label → weaker state label)
    {start : State} {labels : List Label}
    (along : Along step condition start labels) :
    Along step weaker start labels := by
  induction labels generalizing start with
  | nil => trivial
  | cons label rest induction =>
      exact
        ⟨implies start label along.1,
          fun next stepped => induction (along.2 next stepped)⟩

/-- A potential which every step uses up bounds the length of a run. -/
theorem length_add_le_of_decreasing
    {condition : State → Label → Prop} (invariant : State → Prop)
    (potential : State → Nat)
    (decreases :
      ∀ state label next, invariant state → condition state label →
        step state label = some next →
          invariant next ∧ potential next < potential state)
    {start finish : State} {labels : List Label} (initial : invariant start)
    (along : Along step condition start labels)
    (ran : run step start labels = some finish) :
    invariant finish ∧
      labels.length + potential finish ≤ potential start := by
  refine
    run_induction_along
      (motive := fun labels state =>
        invariant state ∧
          labels.length + potential state ≤ potential start)
      ⟨initial, by simp⟩ ?_ along ran
  intro labels state label next earlier admitted stepped
  rcases decreases state label next earlier.1 admitted stepped with
    ⟨holds, less⟩
  refine ⟨holds, ?_⟩
  have bound := earlier.2
  rw [List.length_append, List.length_singleton]
  omega

/-! ## Runs which come to rest -/

/-- The labels of a finite run, and other ones behind them for ever. -/
def restLabels (labels : List Label) (rest : Nat → Label) (time : Nat) :
    Label :=
  labels[time]?.getD (rest (time - labels.length))

/-- The states of a finite run, the last one of which lasts for ever. -/
def restStates (step : State → Label → Option State) (start : State)
    (labels : List Label) (time : Nat) : State :=
  (run step start (labels.take time)).getD start

@[simp]
theorem restLabels_add (labels : List Label) (rest : Nat → Label)
    (turn : Nat) :
    restLabels labels rest (labels.length + turn) = rest turn := by
  simp [restLabels]

theorem restStates_of_le
    {start finish : State} {labels : List Label}
    (ran : run step start labels = some finish) {time : Nat}
    (past : labels.length ≤ time) :
    restStates step start labels time = finish := by
  rw [restStates, List.take_of_length_le past, ran, Option.getD_some]

/--
A finite run whose last state admits the labels behind it without a change is
an infinite one.
-/
theorem step_restStates
    {start finish : State} {labels : List Label} {rest : Nat → Label}
    (ran : run step start labels = some finish)
    (rests : ∀ turn, step finish (rest turn) = some finish) (time : Nat) :
    step (restStates step start labels time)
        (restLabels labels rest time) =
      some (restStates step start labels (time + 1)) := by
  rcases Nat.lt_or_ge time labels.length with before | past
  · have split : labels.take (time + 1) ++ labels.drop (time + 1) = labels :=
      List.take_append_drop (time + 1) labels
    rw [← split, run_append_eq_some_iff] at ran
    rcases ran with ⟨next, ran, -⟩
    have present : labels[time]? = some labels[time] :=
      List.getElem?_eq_getElem before
    have last := ran
    rw [List.take_succ_eq_append_getElem before, run_concat_eq_some_iff]
      at last
    rcases last with ⟨middle, earlier, stepped⟩
    rw [restStates, restStates, restLabels, ran, earlier, present,
      Option.getD_some, Option.getD_some, Option.getD_some, stepped]
  · have absent : labels[time]? = none := List.getElem?_eq_none past
    rw [restStates_of_le ran past, restStates_of_le ran (Nat.le_succ_of_le
      past), restLabels, absent, Option.getD_none]
    exact rests _

end Wimp.Lib.Runs
