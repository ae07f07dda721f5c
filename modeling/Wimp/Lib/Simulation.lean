import Wimp.Lib.Runs

/-!
# Systems seen through an abstraction

A concrete system implements an abstract one when, seen through a function of
its states, each of its steps is a step of the abstract system or does not
show.  Then what is seen of a concrete run is an abstract run: whatever holds
of all abstract runs holds of the concrete ones.

The steps of both systems may be restricted by conditions, and the concrete
states by an invariant.
-/

namespace Wimp.Lib.Simulation

open Wimp.Lib.Runs

universe u v w x

variable {Concrete : Type u} {Label : Type v}
variable {Abstract : Type w} {Event : Type x}

/-- From one abstract state to another by at most one admitted step. -/
inductive AtMostOnce (step : Abstract → Event → Option Abstract)
    (condition : Abstract → Event → Prop) (state : Abstract) :
    Abstract → Prop where
  | stutters : AtMostOnce step condition state state
  | steps (event : Event) (next : Abstract)
      (admitted : condition state event)
      (stepped : step state event = some next) :
      AtMostOnce step condition state next

/-- From one abstract state to another by a run of admitted steps. -/
def Reaches (step : Abstract → Event → Option Abstract)
    (condition : Abstract → Event → Prop) (start finish : Abstract) :
    Prop :=
  ∃ events,
    Along step condition start events ∧
      run step start events = some finish

variable {step : Concrete → Label → Option Concrete}
variable {condition : Concrete → Label → Prop}
variable {abstractStep : Abstract → Event → Option Abstract}
variable {abstractCondition : Abstract → Event → Prop}

theorem Reaches.refl (state : Abstract) :
    Reaches abstractStep abstractCondition state state :=
  ⟨[], trivial, rfl⟩

/-- What admitted steps preserve is preserved by at most one of them. -/
theorem AtMostOnce.preserves
    {motive : Abstract → Prop} {state next : Abstract}
    (moves : AtMostOnce abstractStep abstractCondition state next)
    (holds : motive state)
    (preserved :
      ∀ event next, abstractCondition state event →
        abstractStep state event = some next → motive next) :
    motive next := by
  cases moves with
  | stutters => exact holds
  | steps event next admitted stepped =>
      exact preserved event next admitted stepped

/-- A run goes on by at most one step. -/
theorem Reaches.extend
    {start middle finish : Abstract}
    (reaches : Reaches abstractStep abstractCondition start middle)
    (moves : AtMostOnce abstractStep abstractCondition middle finish) :
    Reaches abstractStep abstractCondition start finish := by
  cases moves with
  | stutters => exact reaches
  | steps event next admitted stepped =>
      rcases reaches with ⟨events, along, ran⟩
      exact
        ⟨events ++ [event], (along_concat_iff ran).mpr ⟨along, admitted⟩,
          run_concat_eq_some_iff.mpr ⟨middle, ran, stepped⟩⟩

/-- What holds along all abstract runs holds of what they reach. -/
theorem Reaches.induction
    {motive : Abstract → Prop} {start finish : Abstract}
    (reaches : Reaches abstractStep abstractCondition start finish)
    (initial : motive start)
    (preserved :
      ∀ state event next, motive state → abstractCondition state event →
        abstractStep state event = some next → motive next) :
    motive finish := by
  rcases reaches with ⟨events, along, ran⟩
  exact
    run_induction_along (motive := fun _ state => motive state) initial
      (fun _ state event next holds admitted stepped =>
        preserved state event next holds admitted stepped)
      along ran

/--
The invariant holds along every concrete run, and what is seen of the run is
an abstract one.
-/
theorem reaches_of_run
    {invariant : Concrete → Prop} (abstraction : Concrete → Abstract)
    (preserved :
      ∀ state label next, invariant state → condition state label →
        step state label = some next →
          invariant next ∧
            AtMostOnce abstractStep abstractCondition (abstraction state)
              (abstraction next))
    {start finish : Concrete} {labels : List Label}
    (initial : invariant start)
    (along : Along step condition start labels)
    (ran : run step start labels = some finish) :
    invariant finish ∧
      Reaches abstractStep abstractCondition (abstraction start)
        (abstraction finish) := by
  refine
    run_induction_along
      (motive := fun _ state =>
        invariant state ∧
          Reaches abstractStep abstractCondition (abstraction start)
            (abstraction state))
      ⟨initial, Reaches.refl _⟩ ?_ along ran
  intro _ state label next earlier admitted stepped
  rcases earlier with ⟨holds, reaches⟩
  rcases preserved state label next holds admitted stepped with
    ⟨holdsNext, moves⟩
  exact ⟨holdsNext, reaches.extend moves⟩

end Wimp.Lib.Simulation
