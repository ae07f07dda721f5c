import Wimp.Lib.Runs
import Wimp.Network.Routes

/-!
# Order across the network

The instructions from one process for another one all take the same route,
and every stage of it is a queue.  As long as no server adds an instruction
for itself, whatever the other process has consumed of them is a prefix of
what the one has added.

A loopback breaks this at its own server: the node which it leaves in the
incoming queue refers to a released buffer, and finds there whatever arrives
at that address later on, in front of its turn.
-/

namespace Wimp.Network.Order

open Wimp.Lib.ByteRegion
open Wimp.Lib.Runs
open Wimp.Lib.Relay
open Wimp.Instr.Codec
open Wimp.Network.Machine
open Wimp.Network.Stages
open Wimp.Network.Routes

variable {count : Nat} {topology : Topology count}

/-- The instructions from one server for another process, in some log. -/
def between (topology : Topology count) (source : Fin count)
    (dest : CString) (log : List Bytes) : List Bytes :=
  log.filter (fromTo (topology.name source) dest)

/-- Instructions of a class enter at the server of its source. -/
theorem enters_of_route
    {source : Fin count} {dest : CString} {path : List (Stage count)}
    {ending : Stage count}
    (route : Route topology dest source path ending)
    (action : Action count) :
    Enters (fromTo (topology.name source) dest) path
      (eventOf topology action) := by
  cases action with
  | add node other instr args block granted =>
      intro belongs
      rcases (fromTo_instrBytes _ _ _ _ _ _).mp belongs with ⟨same, -⟩
      rw [route.head, topology.name_injective node source same]
  | read node => trivial
  | send node results granted => trivial
  | deliver node other block granted => trivial

/-- A relay of the configuration on which a class is on its route. -/
structure OnRoute (topology : Topology count) (config : Config count)
    (member : Bytes → Bool) (path : List (Stage count))
    (relay : Queues (Stage count) Bytes) : Prop where
  well : Well topology config
  tracks : Tracks topology config relay
  follows : Follows member path relay

/-- Every orderly step keeps the class on its route. -/
theorem onRoute_of_step
    {config next : Config count} {action : Action count}
    {source : Fin count} {dest : CString} {path : List (Stage count)}
    {ending : Stage count} {relay : Queues (Stage count) Bytes}
    (route : Route topology dest source path ending)
    (on :
      OnRoute topology config (fromTo (topology.name source) dest) path
        relay)
    (orderly : Orderly config action)
    (stepped : step topology config action = some next) :
    ∃ after,
      OnRoute topology next (fromTo (topology.name source) dest) path
        after := by
  have well := well_of_step on.well orderly stepped
  rcases exists_event_of_step on.well on.tracks orderly stepped with
    tracks | ⟨tracks, -⟩
  · exact ⟨_, well, tracks,
      follows_act (route.isLine _) on.follows
        (enters_of_route route action)⟩
  · exact ⟨relay, well, tracks, on.follows⟩

/-- What has been consumed is a prefix of what has been added. -/
theorem OnRoute.consumed_begins
    {config : Config count} {source : Fin count} {dest : CString}
    {path : List (Stage count)} {ending : Stage count}
    {relay : Queues (Stage count) Bytes}
    (route : Route topology dest source path ending)
    (on :
      OnRoute topology config (fromTo (topology.name source) dest) path
        relay)
    (target : Fin count) :
    between topology source dest (config.servers target).consumed <+:
      between topology source dest (config.added source) := by
  have consumed := (on.tracks target).consumed
  have added := (on.tracks source).added
  have entry := on.follows.entry
  rw [route.head] at entry
  by_cases here : Stage.consumed target ∈ path
  · rcases List.getElem?_of_mem here with ⟨index, place⟩
    have begins := on.follows.arrived_begins place
    rw [route.head, entry, arrived, entering, consumed, added] at begins
    exact begins
  · have nothing := (on.follows.outside _ here).1
    rw [arrived, consumed] at nothing
    have empty :
        between topology source dest (config.servers target).consumed =
          [] :=
      nothing
    rw [empty]
    exact List.nil_prefix

/--
In every run without self-addressed instructions, what a server has consumed
of the instructions from another one is a prefix of those added for it.
-/
theorem consumed_begins_of_orderly
    {config : Config count} {actions : List (Action count)}
    (source target : Fin count)
    (orderly : Along (step topology) Orderly topology.started actions)
    (ran : run (step topology) topology.started actions = some config) :
    between topology source (topology.name target)
        (config.servers target).consumed <+:
      between topology source (topology.name target)
        (config.added source) := by
  rcases exists_route topology (topology.name target) source with
    ⟨path, ending, route⟩
  have kept :
      ∃ relay,
        OnRoute topology config
          (fromTo (topology.name source) (topology.name target)) path
          relay :=
    run_induction_along
      (motive := fun _ config =>
        ∃ relay,
          OnRoute topology config
            (fromTo (topology.name source) (topology.name target)) path
            relay)
      ⟨Queues.empty, well_started, tracks_started, follows_empty path⟩
      (fun _ _ _ _ ⟨_, on⟩ orderly stepped =>
        onRoute_of_step route on orderly stepped)
      orderly ran
  rcases kept with ⟨relay, on⟩
  exact on.consumed_begins route target

/-! ## A child and its parent -/

/-- The child adds two instructions for its parent and sends them. -/
def sendsTwo : List (Action 2) :=
  [.add child (.ofBytes [0x62]) (.ofBytes [0x78]) [] (some 0) true,
    .add child (.ofBytes [0x62]) (.ofBytes [0x79]) [] (some 1) true,
    .send child [14] true,
    .send child [14] true]

/-- The instructions arrive, and the parent reads once. -/
def arrivesAt (first second : Server.Machine.Address) : List (Action 2) :=
  [.deliver child root first true, .deliver child root second true,
    .read root]

/-- The parent adds an instruction for itself and sends it. -/
def loopsBack : List (Action 2) :=
  [.add root (.ofBytes [0x62]) (.ofBytes [0x7a]) [] (some 0) true,
    .send root [] true]

theorem consumed_begins_two :
    ∃ config,
      run (step pairTopology) pairTopology.started
          (sendsTwo ++ arrivesAt 0 1) = some config ∧
        between pairTopology child (pairTopology.name root)
            (config.servers root).consumed <+:
          between pairTopology child (pairTopology.name root)
            (config.added child) := by
  rcases Option.isSome_iff_exists.mp
    (show (run (step pairTopology) pairTopology.started
        (sendsTwo ++ arrivesAt 0 1)).isSome by decide +kernel) with
    ⟨config, ran⟩
  exact ⟨config, ran,
    consumed_begins_of_orderly child root (by decide +kernel) ran⟩

/--
The node which the loopback has left at the parent finds the second
instruction, which has arrived at its address, and the parent consumes that
one first.
-/
theorem not_consumed_begins_loopback :
    ∃ config,
      run (step pairTopology) pairTopology.started
          (loopsBack ++ sendsTwo ++ arrivesAt 1 0) = some config ∧
        Reaches pairTopology child (pairTopology.name root) ∧
        ¬ between pairTopology child (pairTopology.name root)
            (config.servers root).consumed <+:
          between pairTopology child (pairTopology.name root)
            (config.added child) := by
  have logs :
      (run (step pairTopology) pairTopology.started
          (loopsBack ++ sendsTwo ++ arrivesAt 1 0)).map
          (fun config =>
            (between pairTopology child (pairTopology.name root)
                (config.servers root).consumed,
              between pairTopology child (pairTopology.name root)
                (config.added child))) =
        some
          ([instrBytes [0x61] [0x62] [0x79] []],
            [instrBytes [0x61] [0x62] [0x78] [],
              instrBytes [0x61] [0x62] [0x79] []]) := by
    decide +kernel
  rcases Option.map_eq_some_iff.mp logs with ⟨config, ran, left⟩
  rcases Prod.mk.inj left with ⟨consumed, added⟩
  refine ⟨config, ran, Or.inr (Or.inl (by decide +kernel)), ?_⟩
  rw [consumed, added]
  decide +kernel

end Wimp.Network.Order
