import Wimp.Data.Exclusion.Events
import Wimp.Data.Segments.Names

/-!
# Runs of sessions

Along every run of guarded calls the sessions of every slot follow one
another.  Without the condition two processes can be in sessions of one slot
at once.
-/

namespace Wimp.Data.Exclusion

open Wimp.Lib.ByteRegion
open Wimp.Lib.Runs
open Wimp.Lib.SharedMemory
open Wimp.Data.Registry
open Wimp.Data.Sessions
open Wimp.Data.Segments (nameN nameT)
open Wimp.Data.Table (SlotIndex)

variable {count : Nat} {config next : Config count}
variable {system : System CString}

/-! ## Runs -/

/-- At first there are no sessions and no slots in use. -/
theorem invariant_initial
    (system : System CString) (maker : Fin count) (tableName : CString) :
    Invariant (Config.initial system maker tableName) := by
  have atFirst := Segments.invariant_initial system maker tableName
  have free (slot : SlotIndex) :
      ¬ Used (Config.initial system maker tableName).table[slot] := by
    simp [Config.initial, Config.table, Segments.Config.initial,
      Table.Config.setProcess, Used]
  constructor
  case registered => exact atFirst.registered
  case sound => exact atFirst.sound
  case tableKept => exact atFirst.tableKept
  case made => exact fun slot used => absurd used (free slot)
  case apart => exact fun slot _ used => absurd used (free slot)
  case linked =>
    intro process name slot alive found
    exact absurd
      (atFirst.registered.used ⟨alive, Or.inr ⟨name, found⟩⟩) (free slot)
  case lockedMade =>
    intro segment locked
    cases locked
  case inside =>
    intro process alive session member
    cases member
  case single => exact fun process alive => List.nodup_nil
  case serial => exact fun slot used => absurd used (free slot)
  case resting => exact fun slot used => absurd used (free slot)
  case busyLocked => exact fun slot used => absurd used (free slot)

/-- It does not matter who waits. -/
theorem Invariant.setWaiting
    (invariant : Invariant config) (caller : Fin count)
    (wanted : Option (CString × Nat)) :
    Invariant (config.setWaiting caller wanted) where
  registered := invariant.registered
  sound := invariant.sound
  tableKept := invariant.tableKept
  made := invariant.made
  apart := invariant.apart
  linked := invariant.linked
  lockedMade := invariant.lockedMade
  inside := by
    intro process alive session member
    rcases invariant.inside process alive session member with
      ⟨attached, slot, inSession⟩
    exact
      ⟨attached, slot, inSession.found, inSession.handle, inSession.locked,
        inSession.busy⟩
  single := invariant.single
  serial := invariant.serial
  resting := invariant.resting
  busyLocked := invariant.busyLocked

/-- One guarded step keeps the invariant. -/
theorem Invariant.of_step
    (invariant : Invariant config) {asserts : Bool} {action : Action count}
    (admissible : Admissible config action) (clean : Clean config action)
    (stepped : step asserts system config action = some next) :
    Invariant next := by
  rcases transition_of_step stepped with ⟨alive, transition⟩
  cases transition with
  | called action next called =>
      exact invariant.of_call admissible clean called
  | waits caller name address blocked => exact invariant.setWaiting _ _
  | accessed caller name address next entered =>
      exact invariant.of_enter alive entered
  | resumed caller name address next waiting entered =>
      exact (invariant.setWaiting caller none).of_enter alive entered
  | allocated caller position size next allocated =>
      exact invariant.of_alloc alive admissible allocated
  | stopped caller position next stopped =>
      exact invariant.of_stopAccess alive stopped

/-- The calls which keep the sessions of the slots apart. -/
def Guarded (config : Config count) (action : Action count) : Prop :=
  Admissible config action ∧ Clean config action

instance (config : Config count) (action : Action count) :
    Decidable (Guarded config action) :=
  inferInstanceAs (Decidable (_ ∧ _))

/--
Along every run of guarded calls the sessions of every slot follow one
another, and its allocations do not overlap.
-/
theorem serialized_of_guarded
    (asserts : Bool) (system : System CString) (maker : Fin count)
    (tableName : CString) {actions : List (Action count)}
    (guarded :
      Along (step asserts system) Guarded (.initial system maker tableName)
        actions)
    (ran :
      run (step asserts system) (.initial system maker tableName) actions =
        some config) :
    AllSerialized config :=
  (run_induction_along (motive := fun _ config => Invariant config)
    (invariant_initial system maker tableName)
    (fun _ _ _ _ invariant guarded stepped =>
      invariant.of_step guarded.1 guarded.2 stepped)
    guarded ran).allSerialized

/-! ## Three runs -/

/-- The state behind a `wimp_data_init` in a system in memory. -/
def start (createdOwned : Bool) (maker : Fin count) : Config count :=
  .initial (memorySystem createdOwned) maker nameT

/-- Two processes work on the arena of a slot, and the second one waits. -/
def passed (first second : Fin 2) : List (Action 2) :=
  [.call (.linkToProcess second true),
    .call (.reserve first nameN 64 true true true),
    .call (.linkToData second nameN true true), .access first nameN 4096,
    .alloc first 0 16, .access second nameN 8192, .alloc first 0 8,
    .stopAccess first 0, .resume second, .alloc second 0 4,
    .stopAccess second 0]

theorem serialized_passed :
    ∃ config,
      run (step true (memorySystem true)) (start true 0) (passed 0 1) =
          some config ∧
        AllSerialized config := by
  rcases Option.isSome_iff_exists.mp
    (show
      (run (step true (memorySystem true)) (start true 0)
        (passed 0 1)).isSome by decide +kernel) with
    ⟨config, ran⟩
  exact ⟨config, ran,
    serialized_of_guarded true (memorySystem true) 0 nameT
      (by decide +kernel) ran⟩

/--
The process which reserved a name is not linked any more when a third one
links to it.
-/
def removed (first second third : Fin 3) : List (Action 3) :=
  [.call (.linkToProcess second true), .call (.linkToProcess third true),
    .call (.reserve first nameN 64 true true true),
    .call (.linkToData second nameN true true),
    .call (.unlinkFromData first nameN),
    .call (.linkToData third nameN true true), .access second nameN 4096,
    .access third nameN 8192]

/-- A process links to a name, but its segment does not open. -/
def unopened (first second : Fin 2) : List (Action 2) :=
  [.call (.linkToProcess second true),
    .call (.reserve first nameN 64 true true true),
    .call (.linkToData second nameN false true), .access first nameN 4096,
    .access second nameN 0]

/-- A process is in its first session, which is one of the slot. -/
def atFirst (config : Config count) (slot : SlotIndex)
    (process : Fin count) : Bool :=
  !(config.process process).dead &&
    ((config.sessions process)[0]?.any fun session =>
      indexOf (config.process process) session.name.val = some slot)

theorem inside_of_atFirst
    {slot : SlotIndex} {process : Fin count}
    (first : atFirst config slot process = true) :
    Inside config slot process 0 := by
  rcases (Bool.and_eq_true_iff).mp first with ⟨alive, opened⟩
  rcases (Option.any_eq_true _ _).mp opened with ⟨session, at_first, found⟩
  exact
    ⟨by simpa using alive, session, at_first, of_decide_eq_true found⟩

/-- Two processes in sessions of one slot are not serialized. -/
theorem not_allSerialized_of_two
    {slot : SlotIndex} {first second : Fin count}
    (used : Used config.table[slot]) (different : first ≠ second)
    (insideFirst : atFirst config slot first = true)
    (insideSecond : atFirst config slot second = true) :
    ¬ AllSerialized config := by
  intro all
  have both :=
    (all slot used).exclusive first second 0 0
      (inside_of_atFirst insideFirst) (inside_of_atFirst insideSecond)
  exact different both.1

/-- Two processes are in sessions of slot 0 at once. -/
theorem not_serialized_removed :
    (Along (step true (memorySystem true)) Admissible (start true 0)
          (removed 0 1 2) ∧
      ∃ config,
        run (step true (memorySystem true)) (start true 0)
              (removed 0 1 2) =
            some config ∧
          ¬ AllSerialized config) ∧
      ∀ createdOwned,
        Along (step true (memorySystem createdOwned)) Admissible
            (start createdOwned 0) (unopened 0 1) ∧
          ∃ config,
            run (step true (memorySystem createdOwned))
                  (start createdOwned 0) (unopened 0 1) =
                some config ∧
              ¬ AllSerialized config := by
  refine ⟨⟨by decide +kernel, ?_⟩, fun createdOwned => ⟨?_, ?_⟩⟩
  case refine_1 =>
    have last :
        (run (step true (memorySystem true)) (start true 0)
            (removed 0 1 2)).map
            (fun config =>
              (decide (Used config.table[(0 : SlotIndex)]),
                atFirst config 0 1, atFirst config 0 2)) =
          some (true, true, true) := by
      decide +kernel
    rcases Option.map_eq_some_iff.mp last with ⟨config, ran, left⟩
    rcases Prod.mk.inj left with ⟨used, both⟩
    rcases Prod.mk.inj both with ⟨second, third⟩
    exact ⟨config, ran,
      not_allSerialized_of_two (of_decide_eq_true used) (by decide) second
        third⟩
  case refine_2 =>
    revert createdOwned
    decide +kernel
  case refine_3 =>
    have last :
        ∀ createdOwned,
          (run (step true (memorySystem createdOwned))
              (start createdOwned 0) (unopened 0 1)).map
              (fun config =>
                (decide (Used config.table[(0 : SlotIndex)]),
                  atFirst config 0 0, atFirst config 0 1)) =
            some (true, true, true) := by
      decide +kernel
    rcases Option.map_eq_some_iff.mp (last createdOwned) with
      ⟨config, ran, left⟩
    rcases Prod.mk.inj left with ⟨used, both⟩
    rcases Prod.mk.inj both with ⟨first, second⟩
    exact ⟨config, ran,
      not_allSerialized_of_two (of_decide_eq_true used) (by decide) first
        second⟩

end Wimp.Data.Exclusion
