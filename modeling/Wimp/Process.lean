import Wimp.Lib.ByteRegion
import Wimp.Lib.Runs
import Mathlib.Data.Finset.Card
import Mathlib.Data.Fintype.Card
import Mathlib.Logic.Function.Basic

/-!
# Initialization and shutdown of the library

Threads count their uses of the library in `s_init_ref_counter`.  The counter
is tested and changed by separate atomic operations, and the call into the
underlying library stands between them.  Two threads which start together
both find the counter at zero.

The counter and the library agree as long as no thread finds the counter at
zero during another call, and the counter only falls to zero when no other
thread is between its test of the counter and its next change.
-/

namespace Wimp.Process

open Wimp.Lib.ByteRegion
open Wimp.Lib.Runs

/-! ## The threads -/

/-- A call into the underlying library. -/
inductive LibraryCall where
  /-- `p_libsys_init`. -/
  | init
  /-- `p_libsys_shutdown`. -/
  | shutdown
deriving DecidableEq, Repr

/-- Where a thread is in its current `wimp_init` or `wimp_shutdown`. -/
inductive Phase where
  /-- Before `wimp_init`, or after `wimp_shutdown`. -/
  | outside
  /-- The counter was zero. -/
  | initialising
  /-- In front of `p_atomic_int_inc`. -/
  | counting
  /-- After `wimp_init`, and in front of `wimp_shutdown`. -/
  | inside
  /-- Behind `p_atomic_int_dec_and_test`. -/
  | released
  /-- The counter was zero again. -/
  | shuttingDown
  /-- In front of the assertion. -/
  | asserting
deriving DecidableEq, Repr

/-- Between the first test of the counter and the last call of the library. -/
def Phase.midway : Phase → Bool
  | .initialising | .counting | .released | .shuttingDown => true
  | .outside | .inside | .asserting => false

/-- In front of the increment, or of the test behind the decrement. -/
def Phase.pending : Phase → Bool
  | .counting | .released => true
  | .outside | .initialising | .inside | .shuttingDown | .asserting => false

/-- The threads and the library.  The calls are listed with the latest first. -/
structure Config (Thread : Type) where
  initRefCounter : Int := 0
  phase : Thread → Phase := fun _ => .outside
  calls : List LibraryCall := []

variable {Thread : Type} [DecidableEq Thread]

/-- A thread moves on. -/
def Config.move (config : Config Thread) (thread : Thread) (phase : Phase) :
    Config Thread :=
  { config with phase := Function.update config.phase thread phase }

/-- The library is called. -/
def Config.call (config : Config Thread) (call : LibraryCall) :
    Config Thread :=
  { config with calls := call :: config.calls }

/-- The counter is changed, and wraps around at its ends. -/
def Config.add (config : Config Thread) (change : Int) : Config Thread :=
  { config with initRefCounter := addInt32 config.initRefCounter change }

/--
The next atomic operation or library call of a thread, in `wimp_init` and
`wimp_shutdown`; `none` is the failed assertion.
-/
def step (config : Config Thread) (thread : Thread) :
    Option (Config Thread) :=
  match config.phase thread with
  | .outside =>
      if config.initRefCounter = 0 then
        some (config.move thread .initialising)
      else some (config.move thread .counting)
  | .initialising => some ((config.move thread .counting).call .init)
  | .counting => some ((config.move thread .inside).add 1)
  | .inside => some ((config.move thread .released).add (-1))
  | .released =>
      if config.initRefCounter = 0 then
        some (config.move thread .shuttingDown)
      else some (config.move thread .asserting)
  | .shuttingDown =>
      some ((config.move thread .asserting).call .shutdown)
  | .asserting =>
      if 0 ≤ config.initRefCounter then some (config.move thread .outside)
      else none

/-- No thread has used the library yet. -/
def start : Config Thread := {}

/-! ## What is expected of the library -/

/-- The library is initialised after the calls. -/
def Initialised (calls : List LibraryCall) : Prop :=
  calls.head? = some .init

instance (calls : List LibraryCall) : Decidable (Initialised calls) :=
  inferInstanceAs (Decidable (_ = _))

/-- The two calls alternate, and the earliest is an initialization. -/
def Alternates : List LibraryCall → Prop
  | [] => True
  | .init :: earlier => ¬ Initialised earlier ∧ Alternates earlier
  | .shutdown :: earlier => Initialised earlier ∧ Alternates earlier

/--
The calls alternate, and the library is initialised while a thread is between
`wimp_init` and `wimp_shutdown`.
-/
structure Safe (config : Config Thread) : Prop where
  alternates : Alternates config.calls
  initialised :
    ∀ thread, config.phase thread = .inside → Initialised config.calls

/--
The condition on the next operation of a thread.  It tests the counter for
`wimp_init` at zero only when no other thread is between the test and the
increment of an own `wimp_init`, or between the decrement and the end of the
test of an own `wimp_shutdown`.  It takes the counter to zero only when no
other thread is in front of its increment or of the test after its decrement.
-/
def Undisturbed (config : Config Thread) (thread : Thread) : Prop :=
  (config.phase thread = .outside → config.initRefCounter = 0 →
    ∀ other, other ≠ thread → (config.phase other).midway = false) ∧
  (config.phase thread = .inside → config.initRefCounter = 1 →
    ∀ other, other ≠ thread → (config.phase other).pending = false)

instance [Fintype Thread] (config : Config Thread) (thread : Thread) :
    Decidable (Undisturbed config thread) :=
  inferInstanceAs (Decidable (_ ∧ _))

/-! ## Small facts -/

omit [DecidableEq Thread] in
@[simp]
theorem initialised_init (calls : List LibraryCall) :
    Initialised (.init :: calls) :=
  rfl

omit [DecidableEq Thread] in
@[simp]
theorem not_initialised_shutdown (calls : List LibraryCall) :
    ¬ Initialised (.shutdown :: calls) := by
  intro initialised
  cases initialised

section Updates

variable (config : Config Thread) (thread : Thread) (phase : Phase)
  (call : LibraryCall) (change : Int)

@[simp]
theorem move_initRefCounter :
    (config.move thread phase).initRefCounter = config.initRefCounter :=
  rfl

@[simp]
theorem move_calls : (config.move thread phase).calls = config.calls :=
  rfl

@[simp]
theorem move_phase_self :
    (config.move thread phase).phase thread = phase :=
  Function.update_self ..

@[simp]
theorem move_phase_of_ne {other : Thread} (different : other ≠ thread) :
    (config.move thread phase).phase other = config.phase other :=
  Function.update_of_ne different ..

omit [DecidableEq Thread]

@[simp]
theorem call_initRefCounter :
    (config.call call).initRefCounter = config.initRefCounter :=
  rfl

@[simp]
theorem call_calls : (config.call call).calls = call :: config.calls :=
  rfl

@[simp]
theorem call_phase : (config.call call).phase = config.phase :=
  rfl

@[simp]
theorem add_initRefCounter :
    (config.add change).initRefCounter =
      addInt32 config.initRefCounter change :=
  rfl

@[simp]
theorem add_calls : (config.add change).calls = config.calls :=
  rfl

@[simp]
theorem add_phase : (config.add change).phase = config.phase :=
  rfl

end Updates

/-! ### What a thread does in a given phase -/

section Steps

variable {config : Config Thread} {thread : Thread}

theorem step_initialising (phase : config.phase thread = .initialising) :
    step config thread =
      some ((config.move thread .counting).call .init) := by
  rw [step, phase]

theorem step_counting (phase : config.phase thread = .counting) :
    step config thread = some ((config.move thread .inside).add 1) := by
  rw [step, phase]

theorem step_inside (phase : config.phase thread = .inside) :
    step config thread =
      some ((config.move thread .released).add (-1)) := by
  rw [step, phase]

theorem step_released_zero
    (phase : config.phase thread = .released)
    (counter : config.initRefCounter = 0) :
    step config thread = some (config.move thread .shuttingDown) := by
  rw [step, phase]
  exact if_pos counter

theorem step_shuttingDown (phase : config.phase thread = .shuttingDown) :
    step config thread =
      some ((config.move thread .asserting).call .shutdown) := by
  rw [step, phase]

end Steps

/-! ## The situations of undisturbed runs -/

/-- A thread is not in the middle of anything. -/
def Idle (config : Config Thread) (thread : Thread) : Prop :=
  config.phase thread = .outside ∨ config.phase thread = .asserting

/--
The counter is zero unless the library is in use, and at zero at most one
thread is on the way between the two.
-/
inductive Situation (config : Config Thread) : Prop where
  /-- Nobody uses the library. -/
  | closed
      (counter : config.initRefCounter = 0)
      (off : ¬ Initialised config.calls)
      (idle : ∀ thread, Idle config thread)
  /-- One thread found the counter at zero. -/
  | opening (opener : Thread)
      (counter : config.initRefCounter = 0)
      (way :
        config.phase opener = .initialising ∧
            ¬ Initialised config.calls ∨
          config.phase opener = .counting ∧ Initialised config.calls)
      (idle : ∀ thread, thread ≠ opener → Idle config thread)
  /-- The library is in use by the threads which the counter counts. -/
  | used (holders : Finset Thread)
      (counted : config.initRefCounter = holders.card)
      (nonempty : holders.Nonempty)
      (on : Initialised config.calls)
      (inside :
        ∀ thread, config.phase thread = .inside ↔ thread ∈ holders)
      (settled :
        ∀ thread, config.phase thread ≠ .initialising ∧
          config.phase thread ≠ .shuttingDown)
  /-- One thread took the counter to zero. -/
  | closing (closer : Thread)
      (counter : config.initRefCounter = 0)
      (way :
        config.phase closer = .released ∨
          config.phase closer = .shuttingDown)
      (on : Initialised config.calls)
      (idle : ∀ thread, thread ≠ closer → Idle config thread)

/-- The invariant of undisturbed runs. -/
structure Invariant (config : Config Thread) : Prop where
  alternates : Alternates config.calls
  situation : Situation config

omit [DecidableEq Thread] in
theorem invariant_start : Invariant (start : Config Thread) :=
  ⟨trivial, .closed rfl (fun on => by cases on) fun _ => Or.inl rfl⟩

omit [DecidableEq Thread] in
theorem Idle.not_inside
    {config : Config Thread} {thread : Thread} (idle : Idle config thread) :
    config.phase thread ≠ .inside := by
  rcases idle with outside | asserting
  · rw [outside]
    decide
  · rw [asserting]
    decide

omit [DecidableEq Thread] in
theorem Invariant.safe
    {config : Config Thread} (invariant : Invariant config) :
    Safe config := by
  refine ⟨invariant.alternates, ?_⟩
  intro thread inside
  cases invariant.situation with
  | closed counter off idle => exact absurd inside (idle thread).not_inside
  | opening opener counter way idle =>
      rcases eq_or_ne thread opener with rfl | different
      · rcases way with ⟨phase, -⟩ | ⟨phase, -⟩
        · rw [inside] at phase
          cases phase
        · rw [inside] at phase
          cases phase
      · exact absurd inside (idle thread different).not_inside
  | used holders counted nonempty on inside settled => exact on
  | closing closer counter way on idle => exact on

/-- The other threads stay as they are. -/
theorem Idle.move_of_ne
    {config : Config Thread} {thread other : Thread}
    (idle : Idle config other) (different : other ≠ thread)
    (phase : Phase) :
    Idle (config.move thread phase) other := by
  rw [Idle, move_phase_of_ne config thread phase different]
  exact idle

/-! ## One step -/

/-- At zero, nobody else tests the counter during an opening or a closing. -/
theorem step_of_idle
    {config next : Config Thread} {thread busy : Thread}
    (counter : config.initRefCounter = 0) (idle : Idle config thread)
    (different : thread ≠ busy)
    (occupied : (config.phase busy).midway = true)
    (undisturbed : Undisturbed config thread)
    (stepped : step config thread = some next) :
    next = config.move thread .outside := by
  rcases idle with outside | asserting
  · exfalso
    rw [undisturbed.1 outside counter busy different.symm] at occupied
    cases occupied
  · rw [step, asserting] at stepped
    simp only [counter, le_refl, if_true, Option.some.injEq] at stepped
    exact stepped.symm

theorem Invariant.step_closed
    {config next : Config Thread} {thread : Thread}
    (alternates : Alternates config.calls)
    (counter : config.initRefCounter = 0)
    (off : ¬ Initialised config.calls)
    (idle : ∀ thread, Idle config thread)
    (stepped : step config thread = some next) :
    Invariant next := by
  rcases idle thread with outside | asserting
  · rw [step, outside] at stepped
    simp only [counter, if_true, Option.some.injEq] at stepped
    subst stepped
    refine ⟨alternates, .opening thread counter (Or.inl ⟨?_, off⟩) ?_⟩
    · exact move_phase_self ..
    · exact fun other different => (idle other).move_of_ne different _
  · rw [step, asserting] at stepped
    simp only [counter, le_refl, if_true, Option.some.injEq] at stepped
    subst stepped
    refine ⟨alternates, .closed counter off ?_⟩
    intro other
    rcases eq_or_ne other thread with rfl | different
    · exact Or.inl (move_phase_self ..)
    · exact (idle other).move_of_ne different _

theorem Invariant.step_opening
    {config next : Config Thread} {thread opener : Thread}
    (alternates : Alternates config.calls)
    (counter : config.initRefCounter = 0)
    (way :
      config.phase opener = .initialising ∧ ¬ Initialised config.calls ∨
        config.phase opener = .counting ∧ Initialised config.calls)
    (idle : ∀ thread, thread ≠ opener → Idle config thread)
    (undisturbed : Undisturbed config thread)
    (stepped : step config thread = some next) :
    Invariant next := by
  rcases eq_or_ne thread opener with rfl | different
  · rcases way with ⟨phase, off⟩ | ⟨phase, on⟩
    · simp only [step, phase, Option.some.injEq] at stepped
      subst stepped
      refine ⟨⟨off, alternates⟩, .opening thread counter (Or.inr ?_) ?_⟩
      · exact ⟨move_phase_self .., rfl⟩
      · exact fun other apart => (idle other apart).move_of_ne apart _
    · simp only [step, phase, Option.some.injEq] at stepped
      subst stepped
      refine ⟨alternates, .used {thread} ?_ ?_ on ?_ ?_⟩
      · rw [add_initRefCounter, move_initRefCounter, counter,
          Finset.card_singleton]
        rfl
      · exact Finset.singleton_nonempty thread
      · intro other
        rw [add_phase, Finset.mem_singleton]
        rcases eq_or_ne other thread with rfl | apart
        · rw [move_phase_self]
          exact iff_of_true rfl rfl
        · rw [move_phase_of_ne config thread _ apart]
          exact iff_of_false (idle other apart).not_inside apart
      · intro other
        rw [add_phase]
        rcases eq_or_ne other thread with rfl | apart
        · rw [move_phase_self]
          decide
        · rw [move_phase_of_ne config thread _ apart]
          rcases idle other apart with phase | phase
          · rw [phase]
            decide
          · rw [phase]
            decide
  · have occupied : (config.phase opener).midway = true := by
      rcases way with ⟨phase, -⟩ | ⟨phase, -⟩ <;> rw [phase] <;> rfl
    have same :=
      step_of_idle counter (idle thread different) different occupied
        undisturbed stepped
    subst same
    refine ⟨alternates, .opening opener counter ?_ ?_⟩
    · rw [move_phase_of_ne config thread _ different.symm]
      exact way
    · intro other apart
      rcases eq_or_ne other thread with rfl | distinct
      · exact Or.inl (move_phase_self ..)
      · exact (idle other apart).move_of_ne distinct _

theorem Invariant.step_closing
    {config next : Config Thread} {thread closer : Thread}
    (alternates : Alternates config.calls)
    (counter : config.initRefCounter = 0)
    (way :
      config.phase closer = .released ∨
        config.phase closer = .shuttingDown)
    (on : Initialised config.calls)
    (idle : ∀ thread, thread ≠ closer → Idle config thread)
    (undisturbed : Undisturbed config thread)
    (stepped : step config thread = some next) :
    Invariant next := by
  rcases eq_or_ne thread closer with rfl | different
  · rcases way with phase | phase
    · rw [step, phase] at stepped
      simp only [counter, if_true, Option.some.injEq] at stepped
      subst stepped
      refine ⟨alternates, .closing thread counter (Or.inr ?_) on ?_⟩
      · exact move_phase_self ..
      · exact fun other apart => (idle other apart).move_of_ne apart _
    · simp only [step, phase, Option.some.injEq] at stepped
      subst stepped
      refine ⟨⟨on, alternates⟩, .closed counter ?_ ?_⟩
      · exact not_initialised_shutdown config.calls
      · intro other
        rcases eq_or_ne other thread with rfl | apart
        · exact Or.inr (move_phase_self ..)
        · exact (idle other apart).move_of_ne apart _
  · have occupied : (config.phase closer).midway = true := by
      rcases way with phase | phase <;> rw [phase] <;> rfl
    have same :=
      step_of_idle counter (idle thread different) different occupied
        undisturbed stepped
    subst same
    refine ⟨alternates, .closing closer counter ?_ on ?_⟩
    · rw [move_phase_of_ne config thread _ different.symm]
      exact way
    · intro other apart
      rcases eq_or_ne other thread with rfl | distinct
      · exact Or.inl (move_phase_self ..)
      · exact (idle other apart).move_of_ne distinct _

/-- A thread which moves between the settled phases changes no holder. -/
theorem Situation.used_move
    {config : Config Thread} {thread : Thread} {phase : Phase}
    {holders : Finset Thread}
    (counted : config.initRefCounter = holders.card)
    (nonempty : holders.Nonempty) (on : Initialised config.calls)
    (inside :
      ∀ thread, config.phase thread = .inside ↔ thread ∈ holders)
    (settled :
      ∀ thread, config.phase thread ≠ .initialising ∧
        config.phase thread ≠ .shuttingDown)
    (apart : thread ∉ holders) (still : phase ≠ .inside)
    (calm : phase ≠ .initialising ∧ phase ≠ .shuttingDown) :
    Situation (config.move thread phase) := by
  refine .used holders counted nonempty on ?_ ?_
  · intro other
    rcases eq_or_ne other thread with rfl | different
    · rw [move_phase_self]
      exact iff_of_false still apart
    · rw [move_phase_of_ne config thread _ different]
      exact inside other
  · intro other
    rcases eq_or_ne other thread with rfl | different
    · rw [move_phase_self]
      exact calm
    · rw [move_phase_of_ne config thread _ different]
      exact settled other

/-- A thread which enters is counted with the others. -/
theorem Situation.used_enter
    {config : Config Thread} {thread : Thread} {holders : Finset Thread}
    (few : ∀ threads : Finset Thread, threads.card < 2 ^ 31)
    (counted : config.initRefCounter = holders.card)
    (on : Initialised config.calls)
    (inside :
      ∀ thread, config.phase thread = .inside ↔ thread ∈ holders)
    (settled :
      ∀ thread, config.phase thread ≠ .initialising ∧
        config.phase thread ≠ .shuttingDown)
    (fresh : thread ∉ holders) :
    Situation ((config.move thread .inside).add 1) := by
  refine .used (insert thread holders) ?_ ?_ on ?_ ?_
  · have card := Finset.card_insert_of_notMem fresh
    have bound := few (insert thread holders)
    rw [add_initRefCounter, move_initRefCounter,
      addInt32_of_fits (by omega) (by omega)]
    omega
  · exact Finset.insert_nonempty ..
  · intro other
    rw [add_phase, Finset.mem_insert]
    rcases eq_or_ne other thread with rfl | different
    · rw [move_phase_self]
      simp
    · rw [move_phase_of_ne config thread _ different, inside other]
      simp [different]
  · intro other
    rw [add_phase]
    rcases eq_or_ne other thread with rfl | different
    · rw [move_phase_self]
      decide
    · rw [move_phase_of_ne config thread _ different]
      exact settled other

/-- The last holder leaves, and nobody else is on the way. -/
theorem Situation.closing_of_last
    {config : Config Thread} {thread : Thread} {holders : Finset Thread}
    (counted : config.initRefCounter = holders.card)
    (on : Initialised config.calls)
    (inside :
      ∀ thread, config.phase thread = .inside ↔ thread ∈ holders)
    (settled :
      ∀ thread, config.phase thread ≠ .initialising ∧
        config.phase thread ≠ .shuttingDown)
    (holder : thread ∈ holders) (last : config.initRefCounter = 1)
    (alone :
      ∀ other, other ≠ thread → (config.phase other).pending = false) :
    Situation ((config.move thread .released).add (-1)) := by
  have single : holders = {thread} := by
    have one : holders.card = 1 := by omega
    rcases Finset.card_eq_one.mp one with ⟨only, same⟩
    subst same
    rw [Finset.mem_singleton.mp holder]
  refine .closing thread ?_ (Or.inl ?_) on ?_
  · rw [add_initRefCounter, move_initRefCounter, last]
    rfl
  · exact move_phase_self ..
  · intro other different
    rw [Idle, add_phase, move_phase_of_ne config thread _ different]
    have free := alone other different
    have calm := settled other
    have out : config.phase other ≠ .inside := by
      rw [Ne, inside other, single, Finset.mem_singleton]
      exact different
    cases here : config.phase other with
    | outside => exact Or.inl rfl
    | asserting => exact Or.inr rfl
    | initialising => exact absurd here calm.1
    | shuttingDown => exact absurd here calm.2
    | inside => exact absurd here out
    | counting =>
        rw [here] at free
        cases free
    | released =>
        rw [here] at free
        cases free

/-- A holder leaves, and others stay. -/
theorem Situation.used_leave
    {config : Config Thread} {thread : Thread} {holders : Finset Thread}
    (few : ∀ threads : Finset Thread, threads.card < 2 ^ 31)
    (counted : config.initRefCounter = holders.card)
    (on : Initialised config.calls)
    (inside :
      ∀ thread, config.phase thread = .inside ↔ thread ∈ holders)
    (settled :
      ∀ thread, config.phase thread ≠ .initialising ∧
        config.phase thread ≠ .shuttingDown)
    (holder : thread ∈ holders) (others : config.initRefCounter ≠ 1) :
    Situation ((config.move thread .released).add (-1)) := by
  have card := Finset.card_erase_of_mem holder
  have positive := Finset.card_pos.mpr ⟨thread, holder⟩
  refine .used (holders.erase thread) ?_ ?_ on ?_ ?_
  · have bound := few holders
    rw [add_initRefCounter, move_initRefCounter,
      addInt32_of_fits (by omega) (by omega)]
    omega
  · apply Finset.card_pos.mp
    omega
  · intro other
    rw [add_phase, Finset.mem_erase]
    rcases eq_or_ne other thread with rfl | different
    · rw [move_phase_self]
      simp
    · rw [move_phase_of_ne config thread _ different, inside other]
      simp [different]
  · intro other
    rw [add_phase]
    rcases eq_or_ne other thread with rfl | different
    · rw [move_phase_self]
      decide
    · rw [move_phase_of_ne config thread _ different]
      exact settled other

theorem Invariant.step_used
    {config next : Config Thread} {thread : Thread}
    {holders : Finset Thread}
    (few : ∀ threads : Finset Thread, threads.card < 2 ^ 31)
    (alternates : Alternates config.calls)
    (counted : config.initRefCounter = holders.card)
    (nonempty : holders.Nonempty) (on : Initialised config.calls)
    (inside :
      ∀ thread, config.phase thread = .inside ↔ thread ∈ holders)
    (settled :
      ∀ thread, config.phase thread ≠ .initialising ∧
        config.phase thread ≠ .shuttingDown)
    (undisturbed : Undisturbed config thread)
    (stepped : step config thread = some next) :
    Invariant next := by
  have positive : 0 < config.initRefCounter := by
    have card := Finset.card_pos.mpr nonempty
    omega
  have notInside (phase : Phase) (here : config.phase thread = phase)
      (other : phase ≠ .inside) : thread ∉ holders := by
    rw [← inside thread, here]
    exact other
  cases phase : config.phase thread with
  | initialising => exact absurd phase (settled thread).1
  | shuttingDown => exact absurd phase (settled thread).2
  | outside =>
      rw [step, phase] at stepped
      simp only [positive.ne', if_false, Option.some.injEq] at stepped
      subst stepped
      refine ⟨alternates, Situation.used_move counted nonempty on inside
        settled (notInside _ phase (by decide)) (by decide) ?_⟩
      decide
  | released =>
      rw [step, phase] at stepped
      simp only [positive.ne', if_false, Option.some.injEq] at stepped
      subst stepped
      refine ⟨alternates, Situation.used_move counted nonempty on inside
        settled (notInside _ phase (by decide)) (by decide) ?_⟩
      decide
  | asserting =>
      rw [step, phase] at stepped
      simp only [positive.le, if_true, Option.some.injEq] at stepped
      subst stepped
      refine ⟨alternates, Situation.used_move counted nonempty on inside
        settled (notInside _ phase (by decide)) (by decide) ?_⟩
      decide
  | counting =>
      have fresh := notInside _ phase (by decide)
      simp only [step, phase, Option.some.injEq] at stepped
      subst stepped
      exact ⟨alternates, .used_enter few counted on inside settled fresh⟩
  | inside =>
      have holder : thread ∈ holders := (inside thread).mp phase
      simp only [step, phase, Option.some.injEq] at stepped
      subst stepped
      refine ⟨alternates, ?_⟩
      by_cases last : config.initRefCounter = 1
      · exact
          .closing_of_last counted on inside settled holder last
            (undisturbed.2 phase last)
      · exact .used_leave few counted on inside settled holder last

/-- An undisturbed step keeps the invariant. -/
theorem invariant_step
    {config next : Config Thread} {thread : Thread}
    (few : ∀ threads : Finset Thread, threads.card < 2 ^ 31)
    (invariant : Invariant config) (undisturbed : Undisturbed config thread)
    (stepped : step config thread = some next) :
    Invariant next := by
  cases invariant.situation with
  | closed counter off idle =>
      exact .step_closed invariant.alternates counter off idle stepped
  | opening opener counter way idle =>
      exact
        .step_opening invariant.alternates counter way idle undisturbed
          stepped
  | used holders counted nonempty on inside settled =>
      exact
        .step_used few invariant.alternates counted nonempty on inside
          settled undisturbed stepped
  | closing closer counter way on idle =>
      exact
        .step_closing invariant.alternates counter way on idle undisturbed
          stepped

/-! ## Steps which disturb another thread -/

omit [DecidableEq Thread] in
theorem not_safe_of_init
    {config : Config Thread} (on : Initialised config.calls) :
    ¬ Safe (config.call .init) :=
  fun safe => safe.alternates.1 on

omit [DecidableEq Thread] in
theorem not_safe_of_shutdown
    {config : Config Thread} (off : ¬ Initialised config.calls) :
    ¬ Safe (config.call .shutdown) :=
  fun safe => off safe.alternates.1

/--
A thread which finds the counter at zero beside another one can initialise
the library a second time.
-/
theorem exists_unsafe_of_test
    {config : Config Thread} {thread other : Thread}
    (situation : Situation config) (different : other ≠ thread)
    (busy : (config.phase other).midway = true) :
    ∃ rest final,
      run step (config.move thread .initialising) rest = some final ∧
        ¬ Safe final := by
  -- the library is initialised, or the other thread is about to do it
  have ready :
      Initialised config.calls ∨
        config.phase other = .initialising := by
    have notIdle : ¬ Idle config other := by
      rintro (phase | phase) <;> rw [phase] at busy <;> cases busy
    cases situation with
    | closed zero off idle => exact absurd (idle other) notIdle
    | opening opener zero way idle =>
        rcases eq_or_ne other opener with rfl | apart
        · tauto
        · exact absurd (idle other apart) notIdle
    | used holders counted nonempty on inside settled => exact Or.inl on
    | closing closer zero way on idle => exact Or.inl on
  rcases ready with on | initialising
  · refine ⟨[thread],
      ((config.move thread .initialising).move thread .counting).call .init,
      ?_, not_safe_of_init on⟩
    rw [run_cons, step_initialising (move_phase_self ..)]
    rfl
  · have second :
        ((((config.move thread .initialising).move other .counting).call
          .init).phase thread) = .initialising := by
      rw [call_phase, move_phase_of_ne _ other _ different.symm,
        move_phase_self]
    have ran :
        run step (config.move thread .initialising) [other, thread] =
          some
            (((((config.move thread .initialising).move other
              .counting).call .init).move thread .counting).call .init) := by
      rw [run_cons, step_initialising, Option.bind_some, run_cons,
        step_initialising second, Option.bind_some, run_nil]
      rw [move_phase_of_ne config thread _ different, initialising]
    exact ⟨_, _, ran, not_safe_of_init rfl⟩

/--
While a thread is in front of its test of the counter at zero, it can shut the
library down under a thread in front of its increment.
-/
theorem exists_unsafe_of_counting
    {config : Config Thread} {thread other : Thread}
    (released : config.phase thread = .released)
    (counter : config.initRefCounter = 0) (different : other ≠ thread)
    (counting : config.phase other = .counting) :
    ∃ rest final, run step config rest = some final ∧ ¬ Safe final := by
  have closed :
      step (config.move thread .shuttingDown) thread =
        some
          (((config.move thread .shuttingDown).move thread .asserting).call
            .shutdown) :=
    step_shuttingDown (move_phase_self ..)
  have counted :
      step
          (((config.move thread .shuttingDown).move thread .asserting).call
            .shutdown)
          other =
        some
          (((((config.move thread .shuttingDown).move thread
            .asserting).call .shutdown).move other .inside).add 1) := by
    apply step_counting
    rw [call_phase, move_phase_of_ne _ thread _ different,
      move_phase_of_ne _ thread _ different, counting]
  have ran :
      run step config [thread, thread, other] =
        some
          (((((config.move thread .shuttingDown).move thread
            .asserting).call .shutdown).move other .inside).add 1) := by
    rw [run_cons, step_released_zero released counter, Option.bind_some,
      run_cons, closed, Option.bind_some, run_cons, counted,
      Option.bind_some, run_nil]
  refine ⟨_, _, ran, ?_⟩
  intro safe
  have on := safe.initialised other (by rw [add_phase, move_phase_self])
  cases on

/-- Two threads in front of this test can shut the library down twice. -/
theorem exists_unsafe_of_released
    {config : Config Thread} {thread other : Thread}
    (released : config.phase thread = .released)
    (counter : config.initRefCounter = 0) (different : other ≠ thread)
    (also : config.phase other = .released) :
    ∃ rest final, run step config rest = some final ∧ ¬ Safe final := by
  have tested :
      step (config.move thread .shuttingDown) other =
        some
          ((config.move thread .shuttingDown).move other
            .shuttingDown) := by
    apply step_released_zero
    · rw [move_phase_of_ne _ thread _ different, also]
    · exact counter
  have closed :
      step
          ((config.move thread .shuttingDown).move other .shuttingDown)
          thread =
        some
          ((((config.move thread .shuttingDown).move other
            .shuttingDown).move thread .asserting).call .shutdown) := by
    apply step_shuttingDown
    rw [move_phase_of_ne _ other _ different.symm, move_phase_self]
  have again :
      step
          ((((config.move thread .shuttingDown).move other
            .shuttingDown).move thread .asserting).call .shutdown)
          other =
        some
          ((((((config.move thread .shuttingDown).move other
            .shuttingDown).move thread .asserting).call .shutdown).move
              other .asserting).call .shutdown) := by
    apply step_shuttingDown
    rw [call_phase, move_phase_of_ne _ thread _ different,
      move_phase_self]
  have ran :
      run step config [thread, other, thread, other] =
        some
          ((((((config.move thread .shuttingDown).move other
            .shuttingDown).move thread .asserting).call .shutdown).move
              other .asserting).call .shutdown) := by
    rw [run_cons, step_released_zero released counter, Option.bind_some,
      run_cons, tested, Option.bind_some, run_cons, closed,
      Option.bind_some, run_cons, again, Option.bind_some, run_nil]
  exact ⟨_, _, ran, not_safe_of_shutdown (not_initialised_shutdown _)⟩

/-! ## Runs -/

/--
In every state of an undisturbed run the calls alternate, starting with an
initialization, and the library is initialised while it is used.  Every other
step leads to a state in which the threads can go on to break this.  There are
fewer threads than the counter can count.
-/
theorem safe_of_undisturbed
    (few : ∀ threads : Finset Thread, threads.card < 2 ^ 31)
    {threads : List Thread} {config : Config Thread}
    (undisturbed : Along step Undisturbed start threads)
    (reached : run step start threads = some config) :
    Safe config ∧
      ∀ thread next, step config thread = some next →
        ¬ Undisturbed config thread →
          ∃ rest final, run step next rest = some final ∧ ¬ Safe final := by
  have invariant : Invariant config :=
    run_induction_along (motive := fun _ config => Invariant config)
      invariant_start
      (fun _ _ _ _ invariant undisturbed stepped =>
        invariant_step few invariant undisturbed stepped)
      undisturbed reached
  refine ⟨invariant.safe, ?_⟩
  intro thread next stepped disturbed
  rw [Undisturbed, not_and_or] at disturbed
  rcases disturbed with test | release
  · push Not at test
    rcases test with ⟨outside, counter, other, different, busy⟩
    rw [step, outside] at stepped
    simp only [counter, if_true, Option.some.injEq] at stepped
    subst stepped
    exact
      exists_unsafe_of_test invariant.situation different
        (Bool.eq_true_of_not_eq_false busy)
  · push Not at release
    rcases release with ⟨inside, counter, other, different, busy⟩
    rw [step_inside inside] at stepped
    cases stepped
    have zero :
        ((config.move thread .released).add (-1)).initRefCounter = 0 := by
      rw [add_initRefCounter, move_initRefCounter, counter]
      rfl
    have released :
        ((config.move thread .released).add (-1)).phase thread =
          .released :=
      move_phase_self ..
    have same :
        ((config.move thread .released).add (-1)).phase other =
          config.phase other :=
      move_phase_of_ne _ thread _ different
    cases phase : config.phase other with
    | counting =>
        exact
          exists_unsafe_of_counting released zero different
            (same.trans phase)
    | released =>
        exact
          exists_unsafe_of_released released zero different
            (same.trans phase)
    | outside | initialising | inside | shuttingDown | asserting =>
        exact absurd (by rw [phase]; rfl) busy

/--
The second thread enters beside the first, which leaves before it; the second
closes the library and opens it again while the first is on its way out.
-/
private def overlapping : List (Fin 2) :=
  [0, 0, 0, 1, 1, 0, 0, 1, 1, 1, 1, 1, 1, 0, 1]

theorem safe_of_undisturbed_turns :
    ∃ config : Config (Fin 2),
      run step start overlapping = some config ∧ Safe config := by
  have few (threads : Finset (Fin 2)) : threads.card < 2 ^ 31 :=
    (Finset.card_le_univ threads).trans_lt (by decide)
  have defined :
      (run step (start : Config (Fin 2)) overlapping).isSome := by
    decide +kernel
  have undisturbed :
      Along step Undisturbed (start : Config (Fin 2)) overlapping := by
    decide +kernel
  rcases Option.isSome_iff_exists.mp defined with ⟨config, reached⟩
  exact
    ⟨config, reached, (safe_of_undisturbed few undisturbed reached).1⟩

/-- Two threads both find the counter at zero. -/
theorem not_safe_of_race :
    ∃ config : Config (Fin 2),
      run step start [0, 1, 0, 1] = some config ∧ ¬ Safe config := by
  have called :
      (run step (start : Config (Fin 2)) [0, 1, 0, 1]).map Config.calls =
        some [.init, .init] := by
    decide +kernel
  rcases Option.map_eq_some_iff.mp called with ⟨config, reached, calls⟩
  refine ⟨config, reached, ?_⟩
  intro safe
  have alternates := safe.alternates
  rw [calls] at alternates
  exact alternates.1 rfl

end Wimp.Process
