import Mathlib.Logic.Function.Basic
import Wimp.Lib.Runs

/-!
# Operations inside critical sections

Threads share a state and a lock.  An operation is a program of small steps
on the state.  A thread starts an operation inside its critical section only,
and stays inside until the operation has returned.

As long as the lock lets one thread in at a time, the operations are atomic:
whatever the interleaving of the small steps, the operations which have
returned had the effects and the results which they have when they are
executed as a whole, in the order of their returns, and the one operation
which may be under way goes on to the end which it has from there.
-/

namespace Wimp.Lib.Critical

open Wimp.Lib.Runs

universe u v w x y z

/-- Operations in small steps, each of which may be undefined. -/
structure Program (State : Type u) (Operation : Type v) (Point : Type w)
    (Result : Type x) where
  start : Operation → Point
  micro : Point → State → Option (State × (Point ⊕ Result))

/-- A lock: the steps of its threads, and who is inside. -/
structure Guard (Lock : Type y) (Thread : Type z) where
  move : Lock → Thread → Option Lock
  inside : Lock → Thread → Bool

/-- The threads, the lock and the state which they share. -/
structure Config (Lock : Type y) (Thread : Type z) (State : Type u)
    (Operation : Type v) (Point : Type w) (Result : Type x) where
  lock : Lock
  state : State
  pending : Thread → Option (Operation × Point) := fun _ => none
  /-- The calls which have returned, in order. -/
  returned : List (Thread × Operation × Result) := []

/-- A step of the lock, the start of an operation, and one of its steps. -/
inductive Action (Thread : Type z) (Operation : Type v) where
  | move (thread : Thread)
  | call (thread : Thread) (operation : Operation)
  | work (thread : Thread)
deriving DecidableEq, Repr

section Machine

variable {Lock : Type y} {Thread : Type z} {State : Type u}
variable {Operation : Type v} {Point : Type w} {Result : Type x}
variable [DecidableEq Thread]

/-- A thread goes on to another point of its operation. -/
def Config.setPending
    (config : Config Lock Thread State Operation Point Result)
    (thread : Thread) (pending : Option (Operation × Point)) :
    Config Lock Thread State Operation Point Result :=
  { config with pending := Function.update config.pending thread pending }

/-- One step of one thread. -/
def step (guard : Guard Lock Thread)
    (program : Program State Operation Point Result)
    (config : Config Lock Thread State Operation Point Result) :
    Action Thread Operation →
      Option (Config Lock Thread State Operation Point Result)
  | .move thread =>
      match config.pending thread with
      | some _ => none
      | none =>
          (guard.move config.lock thread).map fun lock =>
            { config with lock }
  | .call thread operation =>
      match config.pending thread with
      | some _ => none
      | none =>
          if guard.inside config.lock thread then
            some
              (config.setPending thread
                (some (operation, program.start operation)))
          else none
  | .work thread =>
      match config.pending thread with
      | none => none
      | some (operation, point) =>
          (program.micro point config.state).map fun
            | (state, .inl next) =>
                { config.setPending thread (some (operation, next)) with
                  state }
            | (state, .inr result) =>
                { config.setPending thread none with
                  state
                  returned :=
                    config.returned ++ [(thread, operation, result)] }

end Machine

/-! ## Whole operations -/

section Operations

variable {Thread : Type z} {State : Type u} {Operation : Type v}
variable {Point : Type w} {Result : Type x}
variable {program : Program State Operation Point Result}

/-- An operation at a point runs to its end, with nobody in between. -/
inductive Completes (program : Program State Operation Point Result) :
    State → Point → State → Result → Prop where
  | last {state after : State} {point : Point} {result : Result}
      (made : program.micro point state = some (after, .inr result)) :
      Completes program state point after result
  | next {state middle after : State} {point further : Point}
      {result : Result}
      (made : program.micro point state = some (middle, .inl further))
      (rest : Completes program middle further after result) :
      Completes program state point after result

/-- An operation has one end. -/
theorem Completes.unique
    {state first second : State} {point : Point} {left right : Result}
    (one : Completes program state point first left)
    (other : Completes program state point second right) :
    first = second ∧ left = right := by
  induction one with
  | last made =>
      cases other with
      | last again =>
          rcases Prod.mk.inj (Option.some.inj (made.symm.trans again)) with
            ⟨rfl, equal⟩
          exact ⟨rfl, Sum.inr.inj equal⟩
      | next again rest =>
          rcases Prod.mk.inj (Option.some.inj (made.symm.trans again)) with
            ⟨-, equal⟩
          cases equal
  | next made rest induction =>
      cases other with
      | last again =>
          rcases Prod.mk.inj (Option.some.inj (made.symm.trans again)) with
            ⟨-, equal⟩
          cases equal
      | next again further =>
          rcases Prod.mk.inj (Option.some.inj (made.symm.trans again)) with
            ⟨rfl, equal⟩
          cases equal
          exact induction further

/-- A step on the way changes nothing about the end. -/
theorem completes_iff_of_micro
    {state middle after : State} {point further : Point} {result : Result}
    (made : program.micro point state = some (middle, .inl further)) :
    Completes program middle further after result ↔
      Completes program state point after result := by
  constructor
  · exact Completes.next made
  · intro completes
    cases completes with
    | last again =>
        rcases Prod.mk.inj (Option.some.inj (made.symm.trans again)) with
          ⟨-, equal⟩
        cases equal
    | next again rest =>
        rcases Prod.mk.inj (Option.some.inj (made.symm.trans again)) with
          ⟨rfl, equal⟩
        cases equal
        exact rest

/--
The calls of a history, each of them executed as a whole in a state which
allows it.
-/
inductive Effects (program : Program State Operation Point Result)
    (allowed : State → Operation → Prop) (first : State) :
    List (Thread × Operation × Result) → State → Prop where
  | nil : Effects program allowed first [] first
  | concat {history : List (Thread × Operation × Result)}
      {before after : State} {thread : Thread} {operation : Operation}
      {result : Result}
      (earlier : Effects program allowed first history before)
      (allows : allowed before operation)
      (completes :
        Completes program before (program.start operation) after result) :
      Effects program allowed first
        (history ++ [(thread, operation, result)]) after

end Operations

/-! ## The rule -/

section Rule

variable {Lock : Type y} {Thread : Type z} {State : Type u}
variable {Operation : Type v} {Point : Type w} {Result : Type x}
variable [DecidableEq Thread]
variable {guard : Guard Lock Thread}
variable {program : Program State Operation Point Result}
variable {allowed : State → Operation → Prop}
variable {config next : Config Lock Thread State Operation Point Result}

/-- Calls are started in states which allow them. -/
def Allows (allowed : State → Operation → Prop)
    (config : Config Lock Thread State Operation Point Result) :
    Action Thread Operation → Prop
  | .call _ operation => allowed config.state operation
  | _ => True

/-- No operation is under way. -/
def Quiet (config : Config Lock Thread State Operation Point Result) :
    Prop :=
  ∀ thread, config.pending thread = none

/--
The calls which have returned had their effects as a whole, and an operation
under way has the end which it has from there.
-/
structure Atomic (guard : Guard Lock Thread)
    (program : Program State Operation Point Result)
    (allowed : State → Operation → Prop) (first : State)
    (config : Config Lock Thread State Operation Point Result)
    (base : State) : Prop where
  effects : Effects program allowed first config.returned base
  quiet : Quiet config → config.state = base
  pending :
    ∀ thread operation point,
      config.pending thread = some (operation, point) →
        guard.inside config.lock thread = true ∧
          allowed base operation ∧
          ∀ after result,
            Completes program config.state point after result ↔
              Completes program base (program.start operation) after result

/-- What the lock promises: one thread at most is inside. -/
structure Excludes (guard : Guard Lock Thread) (sound : Lock → Prop) :
    Prop where
  single :
    ∀ lock first second, sound lock → guard.inside lock first = true →
      guard.inside lock second = true → first = second
  stays :
    ∀ lock thread after, sound lock → guard.move lock thread = some after →
      sound after ∧
        ∀ other, other ≠ thread →
          guard.inside after other = guard.inside lock other

variable {sound : Lock → Prop} {first base : State}

omit [DecidableEq Thread] in
/-- While a thread is inside, nobody else has an operation under way. -/
theorem Atomic.pending_unique
    (atomic : Atomic guard program allowed first config base)
    (excludes : Excludes guard sound) (locked : sound config.lock)
    {thread other : Thread} (inside : guard.inside config.lock thread = true)
    (busy : config.pending other ≠ none) : other = thread := by
  rcases Option.ne_none_iff_exists'.mp busy with ⟨⟨operation, point⟩, under⟩
  exact excludes.single _ _ _ locked
    (atomic.pending other operation point under).1 inside

/-- Every step keeps the operations atomic. -/
theorem Atomic.of_step
    (atomic : Atomic guard program allowed first config base)
    (excludes : Excludes guard sound) (locked : sound config.lock)
    {action : Action Thread Operation} (allows : Allows allowed config action)
    (stepped : step guard program config action = some next) :
    sound next.lock ∧ ∃ base, Atomic guard program allowed first next base := by
  cases action with
  | move thread =>
      rw [step] at stepped
      split at stepped
      · cases stepped
      rename_i idle
      rcases Option.map_eq_some_iff.mp stepped with ⟨lock, moved, rfl⟩
      rcases excludes.stays _ _ _ locked moved with ⟨locked_now, others⟩
      refine ⟨locked_now, base, atomic.effects, atomic.quiet, ?_⟩
      intro other operation point under
      rcases atomic.pending other operation point under with
        ⟨inside, allows, ends⟩
      have different : other ≠ thread := by
        rintro rfl
        cases idle.symm.trans under
      exact ⟨(others other different).trans inside, allows, ends⟩
  | call thread operation =>
      rw [step] at stepped
      split at stepped
      · cases stepped
      rename_i idle
      split at stepped
      case isFalse => cases stepped
      rename_i inside
      cases stepped
      have quiet : Quiet config := by
        intro other
        by_contra busy
        have same := atomic.pending_unique excludes locked inside busy
        subst same
        exact busy idle
      have settled := atomic.quiet quiet
      refine ⟨locked, base, atomic.effects, ?_, ?_⟩
      · intro nobody
        have here := nobody thread
        dsimp only [Config.setPending] at here
        rw [Function.update_self] at here
        cases here
      · intro other started point under
        dsimp only [Config.setPending] at under ⊢
        by_cases same : other = thread
        · subst same
          rw [Function.update_self] at under
          cases under
          refine ⟨inside, settled ▸ allows, fun after result => ?_⟩
          rw [settled]
        · rw [Function.update_of_ne same, quiet other] at under
          cases under
  | work thread =>
      rw [step] at stepped
      split at stepped
      · cases stepped
      rename_i operation point under
      rcases Option.map_eq_some_iff.mp stepped with
        ⟨⟨state, outcome⟩, made, rfl⟩
      rcases atomic.pending thread operation point under with
        ⟨inside, admitted, ends⟩
      have alone (other : Thread) (different : other ≠ thread) :
          config.pending other = none := by
        by_contra busy
        exact different
          (atomic.pending_unique excludes locked inside busy)
      cases outcome with
      | inl further =>
          refine ⟨locked, base, atomic.effects, ?_, ?_⟩
          · intro nobody
            have here := nobody thread
            dsimp only [Config.setPending] at here
            rw [Function.update_self] at here
            cases here
          · intro other started now later
            dsimp only [Config.setPending] at later ⊢
            by_cases same : other = thread
            · subst same
              rw [Function.update_self] at later
              cases later
              refine ⟨inside, admitted, fun after result => ?_⟩
              rw [completes_iff_of_micro made]
              exact ends after result
            · rw [Function.update_of_ne same, alone other same] at later
              cases later
      | inr result =>
          have completes := (ends state result).mp (.last made)
          refine ⟨locked, state,
            atomic.effects.concat admitted completes, fun _ => rfl, ?_⟩
          intro other started now later
          dsimp only [Config.setPending] at later
          by_cases same : other = thread
          · subst same
            rw [Function.update_self] at later
            cases later
          · rw [Function.update_of_ne same, alone other same] at later
            cases later

/-- The operations of every run are atomic. -/
theorem atomic_of_run
    {lock : Lock} (excludes : Excludes guard sound) (locked : sound lock)
    {actions : List (Action Thread Operation)}
    (allows :
      Along (step guard program) (Allows allowed)
        ({ lock, state := first } :
          Config Lock Thread State Operation Point Result)
        actions)
    (ran :
      run (step guard program) { lock, state := first } actions =
        some config) :
    sound config.lock ∧
      ∃ base, Atomic guard program allowed first config base := by
  refine run_induction_along
    (motive := fun _ config =>
      sound config.lock ∧
        ∃ base, Atomic guard program allowed first config base)
    ?_ ?_ allows ran
  · refine ⟨locked, first, .nil, fun _ => rfl, ?_⟩
    intro thread operation point under
    cases under
  · rintro _ middle action next ⟨locked, base, atomic⟩ allows stepped
    exact atomic.of_step excludes locked allows stepped

end Rule

end Wimp.Lib.Critical
