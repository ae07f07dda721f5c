import Wimp.Network.Order
import Wimp.Server.Health

/-!
# Delivery across the network

When every server keeps running its loops and every link keeps delivering,
each added instruction reaches the end of its route: it is consumed by the
server it is addressed to when the route leads there, and otherwise dropped
at the root of the tree.  It crosses each link of the route once, and no
other one.

The servers stay alive as long as no instruction is added which the reader
cannot decode, such as one whose size is a multiple of 256, and none which a
server adds for itself.  The receivers go on as long as no server which is
reached is told to exit; behind such an instruction its link delivers nothing
more, and fairness asks nothing of it.
-/

namespace Wimp.Network.Delivery

open Wimp.Lib.ByteRegion
open Wimp.Lib.Forest
open Wimp.Lib.Runs (run restStates restLabels restLabels_add
  restStates_of_le step_restStates)
open Wimp.Lib.Relay
open Wimp.Instr.Codec
open Wimp.Server.Health
open Wimp.Server.Queues (viewStep_of_step)
open Wimp.Network.Machine
open Wimp.Network.Stages
open Wimp.Network.Routes
open Wimp.Network.Order

variable {count : Nat} {topology : Topology count}

/-! ## Living networks -/

/-- An added instruction can be decoded. -/
def Decodable (config : Config count) : Action count → Prop
  | .add node dest instr args _ _ =>
      Scanned
        (instrBytes (config.servers node).server.processName dest instr
          args)
  | .read _ => True
  | .send _ _ _ => True
  | .deliver _ _ _ _ => True

instance (config : Config count) (action : Action count) :
    Decidable (Decodable config action) :=
  match action with
  | .add .. => inferInstanceAs (Decidable (Scanned _))
  | .read .. => inferInstanceAs (Decidable True)
  | .send .. => inferInstanceAs (Decidable True)
  | .deliver .. => inferInstanceAs (Decidable True)

/-- A network in which every server is alive, and what is on the links. -/
structure Living (topology : Topology count) (config : Config count) :
    Prop where
  well : Well topology config
  healthy : ∀ node, Healthy (config.servers node)
  carried :
    ∀ node connection, ∀ item ∈ (config.servers node).handed connection,
      Scanned item ∧
        ∃ other, topology.connection node other = some connection

theorem living_started : Living topology topology.started where
  well := well_started
  healthy node := healthy_started (topology.server node)
  carried _ _ _ member := by cases member

variable {config next : Config count}

/-- A step of one server leaves every server alive. -/
theorem Living.setServer
    (living : Living topology config) {node : Fin count}
    {server : Server.Machine.Config} {action : Server.Machine.Action}
    (orderly : Server.Queues.Orderly (config.servers node) action)
    (scanned :
      ∀ bytes, brought (config.servers node) action = some bytes →
        Scanned bytes)
    (passes :
      ∀ results granted, action = .send results granted →
        server.control ≠ .blocked)
    (stepped :
      Server.Machine.step (config.servers node) action = some server) :
    Living topology (config.setServer node server) := by
  have sound := living.well.sound node
  constructor
  case well => exact living.well.setServer orderly passes stepped
  case healthy =>
    intro other
    by_cases same : other = node
    · subst same
      simp only [Config.setServer, Function.update_self]
      exact healthy_of_step sound (living.healthy other) orderly scanned
        passes stepped
    · simp only [Config.setServer, Function.update_of_ne same]
      exact living.healthy other
  case carried =>
    intro other connection item member
    by_cases same : other = node
    · subst same
      simp only [Config.setServer, Function.update_self] at member
      rcases handed_cases (viewStep_of_step sound orderly passes stepped)
        member with before | ⟨sent, dest, data, target, rfl⟩
      · exact living.carried other connection item before
      · rw [(living.well.placed other).sendTarget_eq] at target
        exact ⟨(living.healthy other).scanned sent,
          exists_connected_of_target topology target⟩
    · simp only [Config.setServer, Function.update_of_ne same] at member
      exact living.carried other connection item member

/-- An orderly step of decodable instructions leaves every server alive. -/
theorem living_of_step
    {action : Action count} (living : Living topology config)
    (orderly : Orderly config action) (decodable : Decodable config action)
    (stepped : step topology config action = some next) :
    Living topology next := by
  have well := well_of_step living.well orderly stepped
  cases step_cases stepped with
  | added node dest instr args block granted server moved =>
      have after :=
        living.setServer orderly.1
          (fun bytes brings => Option.some.inj brings ▸ decodable)
          (by simp) moved
      exact ⟨well, after.healthy, after.carried⟩
  | read node server moved =>
      have runs : Server.Queues.Orderly (config.servers node) .read :=
        trivial
      exact living.setServer runs (fun _ brings => by cases brings)
        (by simp) moved
  | sent node results granted server clean moved passes =>
      have runs :
          Server.Queues.Orderly (config.servers node)
            (.send results granted) :=
        clean
      have after :=
        living.setServer runs (fun _ brings => by cases brings)
          (fun _ _ _ => passes) moved
      exact ⟨well, after.healthy, after.carried⟩
  | delivered node other block granted connection item server connected
      pending moved =>
      have runs :
          Server.Queues.Orderly (config.servers other)
            (.receive item block granted) :=
        orderly
      have scanned : Scanned item :=
        (living.carried node connection item
          (List.mem_of_getElem? pending)).1
      have after :=
        living.setServer runs
          (fun bytes brings => Option.some.inj brings ▸ scanned)
          (by simp) moved
      exact ⟨well, after.healthy, after.carried⟩

/-! ## Fair runs -/

/-- A server which does not die from some time on. -/
def Lives (trace : Nat → Config count) (time : Nat) (node : Fin count) :
    Prop :=
  ∀ later, time ≤ later → ((trace later).servers node).control = .ready

/--
An infinite run in which every server that lives keeps reading and sending,
and the links to it keep delivering until their receivers stop.
-/
structure FairRun (topology : Topology count) (trace : Nat → Config count)
    (actions : Nat → Action count) : Prop where
  begins : trace 0 = topology.started
  steps :
    ∀ time,
      step topology (trace time) (actions time) = some (trace (time + 1))
  reads :
    ∀ time node, Lives trace time node →
      ∃ later, time ≤ later ∧ actions later = .read node
  sends :
    ∀ time node, Lives trace time node →
      ∃ later, time ≤ later ∧
        ∃ results granted, actions later = .send node results granted
  delivers :
    ∀ time node other connection, Lives trace time other →
      topology.connection node other = some connection →
        ¬ Stopped topology (trace time) node other connection →
          (trace time).delivered node connection <
            (((trace time).servers node).handed connection).length →
            ∃ later, time ≤ later ∧
              ∃ block granted,
                actions later = .deliver node other block granted

/-- No server which is reached is told to exit. -/
def SparesRecievers (topology : Topology count) : Action count → Prop
  | .add node dest instr args _ _ =>
      Reaches topology node dest →
        ¬ ExitsFor dest
          (instrBytes (topology.name node).val dest instr args)
  | .read _ => True
  | .send _ _ _ => True
  | .deliver _ _ _ _ => True

/--
Every instruction which is added in the run is orderly and decodable, and
stops no receiver.
-/
def Careful (topology : Topology count) (trace : Nat → Config count)
    (actions : Nat → Action count) : Prop :=
  ∀ time,
    Orderly (trace time) (actions time) ∧
      Decodable (trace time) (actions time) ∧
        SparesRecievers topology (actions time)

/-- The relay of a run. -/
def relayOf (topology : Topology count) (actions : Nat → Action count) :
    Nat → Queues (Stage count) Bytes
  | 0 => Queues.empty
  | time + 1 =>
      act (onward topology) (relayOf topology actions time)
        (eventOf topology (actions time))

variable {trace : Nat → Config count} {actions : Nat → Action count}

theorem runs_relayOf :
    Runs (onward topology) (relayOf topology actions)
      fun time => eventOf topology (actions time) :=
  fun _ => rfl

/-- No server ever dies, and the relay tracks the network. -/
theorem living_of_careful
    (fair : FairRun topology trace actions)
    (careful : Careful topology trace actions)
    (time : Nat) :
    Living topology (trace time) ∧
      Tracks topology (trace time) (relayOf topology actions time) := by
  induction time with
  | zero =>
      rw [fair.begins]
      exact ⟨living_started, tracks_started⟩
  | succ time induction =>
      rcases induction with ⟨living, tracks⟩
      rcases careful time with ⟨orderly, decodable, -⟩
      have after := living_of_step living orderly decodable (fair.steps time)
      refine ⟨after, ?_⟩
      rcases exists_event_of_step living.well tracks orderly
        (fair.steps time) with passed | ⟨-, node, fault, dead⟩
      · exact passed
      · rw [(after.healthy node).ready] at dead
        cases dead

/-- Every server lives for ever. -/
theorem lives_of_careful
    (fair : FairRun topology trace actions)
    (careful : Careful topology trace actions)
    (time : Nat) (node : Fin count) : Lives trace time node :=
  fun later _ =>
    ((living_of_careful fair careful later).1.healthy node).ready

/-! ## Receivers which go on -/

section Receivers

variable {source : Fin count} {dest : CString} {path : List (Stage count)}
variable {ending : Stage count}

/-- The class of a route follows it through the whole run. -/
theorem follows_of_route
    (route : Route topology dest source path ending)
    (actions : Nat → Action count) (time : Nat) :
    Follows (fromTo (topology.name source) dest) path
      (relayOf topology actions time) := by
  induction time with
  | zero => exact follows_empty path
  | succ time induction =>
      exact follows_act (route.isLine _) induction
        (enters_of_route route (actions time))

/-- A stage which has seen the class is on its route. -/
theorem mem_of_arrived
    (route : Route topology dest source path ending) {stage : Stage count}
    {time : Nat}
    (seen :
      between topology source dest
          ((relayOf topology actions time).history stage) ≠
        []) :
    stage ∈ path := by
  by_contra off
  exact seen ((follows_of_route route actions time).outside stage off).1

/-- A decodable instruction only tells its own destination to exit. -/
theorem dest_of_exitsFor
    {sender dest process : CString} {item : Bytes}
    (scanned : Scanned item) (belongs : fromTo sender dest item = true)
    (exits : ExitsFor process item) : dest = process := by
  rcases scanned with ⟨cut, rfl⟩
  rcases (fromTo_iff _ _ _).mp belongs with ⟨rest, split⟩
  simp only [ExitsFor, Reciever.Machine.exitSignal,
    wimpInstrGetFromBuffer_scanned,
    ScannedBuffer.decoded, Option.bind_eq_bind, Option.bind_some] at exits
  rcases Option.bind_eq_some_iff.mp exits with ⟨named, -, addressed⟩
  split at addressed
  · have text :
        cString (cut.bytes.drop wimpInstructionDestOffset) =
          some dest.val := by
      rw [split, cString_terminated dest.2]
    have name : cString (terminated process.val) = some process.val := by
      simpa using cString_terminated process.2 []
    have compared := strcmpEq_of_cString text name
    rw [wimpInstructionDestOffset] at compared
    rw [compared, Option.some.injEq, decide_eq_true_iff] at addressed
    exact Subtype.ext addressed
  · cases addressed

/-- What is on its way does not stop the receiver which it reaches. -/
def Harmless (topology : Topology count) (item : Bytes) : Prop :=
  ∃ source dest,
    fromTo (topology.name source) dest item = true ∧
      (Reaches topology source dest → ¬ ExitsFor dest item)

/-- Only harmless instructions are on their way in a network. -/
def Peaceful (topology : Topology count) (config : Config count) : Prop :=
  ∀ node, CarriesOnly (Harmless topology) (config.servers node)

theorem Peaceful.setServer
    (peaceful : Peaceful topology config) (well : Well topology config)
    {node : Fin count} {server : Server.Machine.Config}
    {action : Server.Machine.Action}
    (orderly : Server.Queues.Orderly (config.servers node) action)
    (brings :
      ∀ bytes, brought (config.servers node) action = some bytes →
        Harmless topology bytes)
    (passes :
      ∀ results granted, action = .send results granted →
        server.control ≠ .blocked)
    (stepped :
      Server.Machine.step (config.servers node) action = some server) :
    Peaceful topology (config.setServer node server) := by
  intro other
  by_cases same : other = node
  · subst same
    simp only [Config.setServer, Function.update_self]
    exact carries_of_viewStep (peaceful other) brings
      (viewStep_of_step (well.sound other) orderly passes stepped)
  · simp only [Config.setServer, Function.update_of_ne same]
    exact peaceful other

/-- A step which spares the receivers leaves the network peaceful. -/
theorem peaceful_of_step
    {action : Action count} (peaceful : Peaceful topology config)
    (well : Well topology config) (orderly : Orderly config action)
    (spares : SparesRecievers topology action)
    (stepped : step topology config action = some next) :
    Peaceful topology next := by
  cases step_cases stepped with
  | added node dest instr args block granted server moved =>
      have placed :
          (config.servers node).server.processName = topology.name node :=
        (well.placed node).name
      refine peaceful.setServer well orderly.1 ?_ (by simp) moved
      intro bytes brings
      rcases Option.some.inj brings with rfl
      rw [placed]
      exact ⟨node, dest, (fromTo_instrBytes _ _ _ _ _ _).mpr ⟨rfl, rfl⟩,
        spares⟩
  | read node server moved =>
      have runs : Server.Queues.Orderly (config.servers node) .read :=
        trivial
      exact peaceful.setServer well runs (fun _ brings => by cases brings)
        (by simp) moved
  | sent node results granted server clean moved passes =>
      have runs :
          Server.Queues.Orderly (config.servers node)
            (.send results granted) :=
        clean
      exact peaceful.setServer well runs (fun _ brings => by cases brings)
        (fun _ _ _ => passes) moved
  | delivered node other block granted connection item server connected
      pending moved =>
      have runs :
          Server.Queues.Orderly (config.servers other)
            (.receive item block granted) :=
        orderly
      have harmless :=
        (peaceful node).handed connection item
          (List.mem_of_getElem? pending)
      exact peaceful.setServer well runs
        (fun bytes brings => Option.some.inj brings ▸ harmless)
        (by simp) moved

theorem peaceful_of_careful
    (fair : FairRun topology trace actions)
    (careful : Careful topology trace actions) (time : Nat) :
    Peaceful topology (trace time) := by
  induction time with
  | zero =>
      rw [fair.begins]
      exact fun node => carries_started _ (topology.server node)
  | succ time induction =>
      rcases careful time with ⟨orderly, -, spares⟩
      exact peaceful_of_step induction
        (living_of_careful fair careful time).1.well orderly spares
        (fair.steps time)

/-- No receiver ever stops. -/
theorem runs_of_careful
    (fair : FairRun topology trace actions)
    (careful : Careful topology trace actions) (time : Nat)
    {node other : Fin count} {connection : ProcessTable.PSocket}
    (connected : topology.connection node other = some connection) :
    ¬ Stopped topology (trace time) node other connection := by
  rintro ⟨item, member, exits⟩
  have handed := List.mem_of_mem_take member
  rcases living_of_careful fair careful time with ⟨living, tracks⟩
  rcases (peaceful_of_careful fair careful time node).handed connection
    item handed with ⟨source, dest, belongs, spares⟩
  have scanned := (living.carried node connection item handed).1
  have named := dest_of_exitsFor scanned belongs exits
  rcases exists_route topology dest source with ⟨path, ending, route⟩
  have onPath : .link node other ∈ path := by
    apply mem_of_arrived route
    rw [(tracks node).handed other connection connected]
    exact List.ne_nil_of_mem (List.mem_filter.mpr ⟨handed, belongs⟩)
  exact spares (route.reaches_of_link onPath named.symm) (named ▸ exits)

end Receivers

/-! ## Served stages -/

/-- The stage hands everything on. -/
def Passes (topology : Topology count) : Stage count → Prop
  | .outgoing _ => True
  | .link node other => (topology.connection node other).isSome
  | .incoming _ => True
  | .consumed _ => False
  | .dropped _ => False

/-- A fair run serves each stage which hands something on. -/
theorem served_of_careful
    (fair : FairRun topology trace actions)
    (careful : Careful topology trace actions)
    {stage : Stage count} (passes : Passes topology stage) :
    Served (relayOf topology actions)
      (fun time => eventOf topology (actions time)) stage := by
  intro time filled
  cases stage with
  | outgoing node =>
      rcases fair.sends time node (lives_of_careful fair careful time node)
        with ⟨later, after, results, granted, sends⟩
      exact ⟨later, after, congrArg (eventOf topology) sends⟩
  | link node other =>
      rcases Option.isSome_iff_exists.mp passes with
        ⟨connection, connected⟩
      have tracks := (living_of_careful fair careful time).2 node
      rw [tracks.carried other connection connected] at filled
      have pending :
          (trace time).delivered node connection <
            (((trace time).servers node).handed connection).length := by
        by_contra past
        exact filled (List.drop_eq_nil_of_le (Nat.not_lt.mp past))
      rcases fair.delivers time node other connection
        (lives_of_careful fair careful time other) connected
        (runs_of_careful fair careful time connected) pending with
        ⟨later, after, block, granted, delivers⟩
      exact ⟨later, after, congrArg (eventOf topology) delivers⟩
  | incoming node =>
      rcases fair.reads time node (lives_of_careful fair careful time node)
        with ⟨later, after, reads⟩
      exact ⟨later, after, congrArg (eventOf topology) reads⟩
  | consumed node => exact passes.elim
  | dropped node => exact passes.elim

/-- A stage which hands something on hands everything on. -/
theorem isSome_onward
    {stage : Stage count} (passes : Passes topology stage)
    (instruction : Bytes) :
    (onward topology stage instruction).isSome := by
  cases stage with
  | outgoing node =>
      rw [onward]
      split <;> rfl
  | link node other => rfl
  | incoming node =>
      rw [onward]
      split_ifs <;> rfl
  | consumed node => exact passes.elim
  | dropped node => exact passes.elim

/-- The links of a route are connected. -/
theorem connected_of_route
    {dest : CString} {source node other : Fin count}
    {path : List (Stage count)} {ending : Stage count}
    (route : Route topology dest source path ending)
    (member : .link node other ∈ path) :
    (topology.connection node other).isSome := by
  have connected {node other : Fin count}
      (hops : topology.hop node dest.val = some other) :
      (topology.connection node other).isSome := by
    rcases exists_target_of_hop topology hops with ⟨data, -, leadsTo⟩
    rw [leadsTo.connected]
    rfl
  induction route with
  | dropped node root => simp at member
  | reached node target hops named =>
      simp only [List.mem_cons, Stage.link.injEq, reduceCtorEq, false_or,
        List.not_mem_nil, or_false] at member
      rcases member with ⟨rfl, rfl⟩
      exact connected hops
  | climbed node above path ending hops foreign rest induction =>
      simp only [List.mem_cons, Stage.link.injEq, reduceCtorEq,
        false_or] at member
      rcases member with ⟨rfl, rfl⟩ | behind
      · exact connected hops
      · exact induction behind

/-- Only the end of a route hands nothing on. -/
theorem passes_of_route
    {dest : CString} {source : Fin count} {path : List (Stage count)}
    {ending : Stage count}
    (route : Route topology dest source path ending)
    {index : Nat} {stage following : Stage count}
    (here : path[index]? = some stage)
    (next : path[index + 1]? = some following) :
    Passes topology stage := by
  -- any instruction of the class shows where the stage leads
  have belongs :
      fromTo (topology.name source) dest
          (instrBytes (topology.name source).val dest.val [] []) = true :=
    (fromTo_instrBytes _ _ _ _ _ _).mpr ⟨rfl, rfl⟩
  have leads :=
    (route.isLine (topology.name source)).onward index stage here _ belongs
  rw [next] at leads
  cases stage with
  | outgoing node => trivial
  | link node other =>
      exact connected_of_route route (List.mem_of_getElem? here)
  | incoming node => trivial
  | consumed node => cases leads
  | dropped node => cases leads

/-! ## Delivery -/

/-- What is added arrives in the log in the end, in order and once. -/
structure ArrivesIn (log added : Nat → List Bytes) : Prop where
  once : ∀ time, log time <+: added time
  arrives : ∀ time, ∃ later, time ≤ later ∧ added time <+: log later

/--
Where the instructions from a server for another process go in a run, and
which links they cross on the way.
-/
structure Delivered (topology : Topology count)
    (trace : Nat → Config count) (source : Fin count) (dest : CString) :
    Prop where
  consumed :
    Reaches topology source dest →
      ∃ target, topology.name target = dest ∧
        ArrivesIn
          (fun time =>
            between topology source dest
              ((trace time).servers target).consumed)
          fun time => between topology source dest ((trace time).added source)
  dropped :
    ¬ Reaches topology source dest →
      ∃ root, IsRoot topology source root ∧
        ArrivesIn
          (fun time =>
            between topology source dest ((trace time).dropped root))
          fun time => between topology source dest ((trace time).added source)
  consumed_only :
    ∀ time other,
      between topology source dest ((trace time).servers other).consumed ≠
          [] →
        topology.name other = dest ∧ Reaches topology source dest
  dropped_only :
    ∀ time other,
      between topology source dest ((trace time).dropped other) ≠ [] →
        IsRoot topology source other ∧ ¬ Reaches topology source dest
  crossed :
    ∀ time node connection,
      between topology source dest
          (((trace time).servers node).handed connection) <+:
        between topology source dest ((trace time).added source)
  hops :
    ∃ hops : List (Fin count × Fin count),
      hops.length ≤ depth topology.parent source + 1 ∧
        ∀ time node connection,
          between topology source dest
              (((trace time).servers node).handed connection) ≠ [] →
            ∃ other, (node, other) ∈ hops ∧
              topology.connection node other = some connection

section Delivered

variable {source : Fin count} {dest : CString} {path : List (Stage count)}
variable {ending : Stage count}

/-- What has arrived at a stage of the route has been added before. -/
theorem arrived_begins_added
    (fair : FairRun topology trace actions)
    (careful : Careful topology trace actions)
    (route : Route topology dest source path ending) (stage : Stage count)
    (time : Nat) :
    between topology source dest
        ((relayOf topology actions time).history stage) <+:
      between topology source dest ((trace time).added source) := by
  have follows := follows_of_route route actions time
  have added := ((living_of_careful fair careful time).2 source).added
  have entry := follows.entry
  rw [route.head] at entry
  by_cases here : stage ∈ path
  · rcases List.getElem?_of_mem here with ⟨index, place⟩
    have begins := follows.arrived_begins place
    rw [route.head, entry, arrived, entering, added] at begins
    exact begins
  · have nothing := (follows.outside stage here).1
    have empty :
        between topology source dest
            ((relayOf topology actions time).history stage) =
          [] :=
      nothing
    rw [empty]
    exact List.nil_prefix

/-- What has been added arrives at the end of the route. -/
theorem exists_arrived
    (fair : FairRun topology trace actions)
    (careful : Careful topology trace actions)
    (route : Route topology dest source path ending) (time : Nat) :
    ∃ later, time ≤ later ∧
      between topology source dest ((trace time).added source) <+:
        between topology source dest
          ((relayOf topology actions later).history ending) := by
  rcases List.getElem?_of_mem route.ending_mem with ⟨index, place⟩
  rcases runs_relayOf.delivered (route.isLine (topology.name source))
    (follows_of_route route actions)
    (fun index stage following here next =>
      have passes := passes_of_route route here next
      ⟨served_of_careful fair careful passes, isSome_onward passes⟩)
    place time with ⟨later, after, begins⟩
  refine ⟨later, after, ?_⟩
  have added := ((living_of_careful fair careful time).2 source).added
  have entry := (follows_of_route route actions time).entry
  rw [entry, route.head, entering, added] at begins
  exact begins

/-- Whatever has been handed over has gone to a link of the topology. -/
theorem exists_connected
    (fair : FairRun topology trace actions)
    (careful : Careful topology trace actions)
    {time : Nat} {node : Fin count} {connection : ProcessTable.PSocket}
    (seen :
      between topology source dest
          (((trace time).servers node).handed connection) ≠
        []) :
    ∃ other, topology.connection node other = some connection := by
  rcases List.exists_mem_of_ne_nil _ seen with ⟨item, member⟩
  exact
    ((living_of_careful fair careful time).1.carried node connection item
      (List.mem_of_mem_filter member)).2

/-- A route which ends at a log brings everything there. -/
theorem arrivesIn_of_route
    (fair : FairRun topology trace actions)
    (careful : Careful topology trace actions)
    (route : Route topology dest source path ending)
    (log : Config count → List Bytes)
    (shown :
      ∀ time,
        (relayOf topology actions time).history ending = log (trace time)) :
    ArrivesIn (fun time => between topology source dest (log (trace time)))
      fun time => between topology source dest ((trace time).added source)
    where
  once time := by
    rw [← shown]
    exact arrived_begins_added fair careful route ending time
  arrives time := by
    rcases exists_arrived fair careful route time with
      ⟨later, after, begins⟩
    rw [shown] at begins
    exact ⟨later, after, begins⟩

/--
In a fair run of decodable instructions without self-addressed ones, every
added instruction goes where its route ends, once and unchanged.
-/
theorem delivered_of_careful
    (fair : FairRun topology trace actions)
    (careful : Careful topology trace actions)
    (source : Fin count) (dest : CString) :
    Delivered topology trace source dest := by
  rcases exists_route topology dest source with ⟨path, ending, route⟩
  have tracks (time : Nat) := (living_of_careful fair careful time).2
  constructor
  case consumed =>
    intro reaches
    rcases route.ending_of_reaches reaches with ⟨target, named, rfl⟩
    exact ⟨target, named,
      arrivesIn_of_route fair careful route
        (fun config => (config.servers target).consumed)
        fun time => (tracks time target).consumed⟩
  case dropped =>
    intro lost
    rcases route.ending_of_not_reaches lost with ⟨root, isRoot, rfl⟩
    exact ⟨root, isRoot,
      arrivesIn_of_route fair careful route
        (fun config => config.dropped root)
        fun time => (tracks time root).dropped⟩
  case consumed_only =>
    intro time other seen
    have shown := (tracks time other).consumed
    have member : .consumed other ∈ path := by
      apply mem_of_arrived route
      rw [shown]
      exact seen
    rw [route.consumed_mem_iff] at member
    by_cases reaches : Reaches topology source dest
    · rcases route.ending_of_reaches reaches with ⟨target, named, ends⟩
      cases ends.symm.trans member
      exact ⟨named, reaches⟩
    · rcases route.ending_of_not_reaches reaches with ⟨root, -, ends⟩
      cases ends.symm.trans member
  case dropped_only =>
    intro time other seen
    have shown := (tracks time other).dropped
    have member : .dropped other ∈ path := by
      apply mem_of_arrived route
      rw [shown]
      exact seen
    rw [route.dropped_mem_iff] at member
    by_cases reaches : Reaches topology source dest
    · rcases route.ending_of_reaches reaches with ⟨target, -, ends⟩
      cases ends.symm.trans member
    · rcases route.ending_of_not_reaches reaches with ⟨root, isRoot, ends⟩
      cases ends.symm.trans member
      exact ⟨isRoot, reaches⟩
  case crossed =>
    intro time node connection
    by_cases seen :
      between topology source dest
          (((trace time).servers node).handed connection) = []
    · rw [seen]
      exact List.nil_prefix
    · rcases exists_connected fair careful seen with ⟨other, connected⟩
      have shown := (tracks time node).handed other connection connected
      have begins :=
        arrived_begins_added fair careful route (.link node other) time
      rw [shown] at begins
      exact begins
  case hops =>
    refine ⟨hopsOf path, route.length_hopsOf, ?_⟩
    intro time node connection seen
    rcases exists_connected fair careful seen with ⟨other, connected⟩
    refine ⟨other, (mem_hopsOf_iff path node other).mpr ?_, connected⟩
    apply mem_of_arrived route
    rw [(tracks time node).handed other connection connected]
    exact seen

end Delivered

/-! ## A child and its parent -/

/-- A server which is alive and has nothing to do. -/
def AtRest (config : Config count) (node : Fin count) : Prop :=
  (config.servers node).control = .ready ∧
    (config.servers node).server.incomingmsg = [] ∧
    (config.servers node).server.outgoingmsg = []

instance (config : Config count) (node : Fin count) :
    Decidable (AtRest config node) :=
  inferInstanceAs (Decidable (_ ∧ _ ∧ _))

/-- The loops of a server, each run once. -/
def serves (node : Fin count) (turn : Nat) : Action count :=
  if turn % 2 = 0 then .read node else .send node [] true

/-- The loops of a server at rest change nothing. -/
theorem step_serves
    {node : Fin count} (atRest : AtRest config node) (turn : Nat) :
    step topology config (serves node turn) = some config := by
  rcases atRest with ⟨ready, incoming, outgoing⟩
  have same : config.setServer node (config.servers node) = config := by
    simp [Config.setServer]
  unfold serves
  split_ifs
  · simp [step, Server.Machine.step, ready, incoming, same]
  · simp [step, Server.Machine.step, ready, outgoing, same,
      Server.Queues.lost]

theorem careful_serves (config : Config count) (node : Fin count)
    (turn : Nat) :
    Orderly config (serves node turn) ∧
      Decodable config (serves node turn) := by
  unfold serves
  split_ifs <;> exact ⟨trivial, trivial⟩

theorem spares_serves (node : Fin count) (turn : Nat) :
    SparesRecievers topology (serves node turn) := by
  unfold serves
  split_ifs <;> trivial

/-- The links of the pair. -/
theorem connection_pair (node other : Fin 2) :
    pairTopology.connection node other =
      if node = child ∧ other = root then some 7 else none := by
  revert node other
  decide +kernel

/-- The child adds an instruction for its parent, which consumes it. -/
def deliversOne : List (Action 2) :=
  [.add child (.ofBytes [0x62]) (.ofBytes [0x78]) [] (some 0) true,
    .send child [14] true,
    .deliver child root 0 true,
    .read root]

/-- Both servers take turns. -/
def rounds (turn : Nat) : Action 2 :=
  serves (if turn % 4 < 2 then child else root) turn

/-- Behind the delivery nothing is left to do. -/
theorem rests_deliversOne :
    ∃ config,
      run (step pairTopology) pairTopology.started deliversOne =
          some config ∧
        (∀ node, AtRest config node) ∧
        config.delivered child 7 =
          ((config.servers child).handed 7).length := by
  have rests :
      (run (step pairTopology) pairTopology.started deliversOne).map
          (fun config =>
            decide
              ((∀ node, AtRest config node) ∧
                config.delivered child 7 =
                  ((config.servers child).handed 7).length)) =
        some true := by
    decide +kernel
  rcases Option.map_eq_some_iff.mp rests with ⟨config, ran, holds⟩
  exact ⟨config, ran, of_decide_eq_true holds⟩

/-- The states of the run which delivers one instruction. -/
def deliversOneTrace : Nat → Config 2 :=
  restStates (step pairTopology) pairTopology.started deliversOne

/-- A server is served in each round of turns. -/
theorem rounds_eq (node : Fin 2) :
    ∃ offset, ∀ turn,
      rounds (4 * turn + offset) = .read node ∧
        rounds (4 * turn + offset + 1) = .send node [] true := by
  have places : node = child ∨ node = root := by
    revert node
    decide +kernel
  rcases places with rfl | rfl
  · refine ⟨0, fun turn => ⟨?_, ?_⟩⟩
    · rw [rounds, if_pos (by omega), serves, if_pos (by omega)]
    · rw [rounds, if_pos (by omega), serves, if_neg (by omega)]
  · refine ⟨2, fun turn => ⟨?_, ?_⟩⟩
    · rw [rounds, if_neg (by omega), serves, if_pos (by omega)]
    · rw [rounds, if_neg (by omega), serves, if_neg (by omega)]

theorem fair_deliversOne :
    FairRun pairTopology deliversOneTrace (restLabels deliversOne rounds) := by
  rcases rests_deliversOne with ⟨config, ran, atRest, delivered⟩
  have turn (time : Nat) : time ≤ deliversOne.length + time :=
    Nat.le_add_left time _
  constructor
  case begins => rfl
  case steps =>
    exact step_restStates ran fun turn => step_serves (atRest _) turn
  case reads =>
    intro time node _
    rcases rounds_eq node with ⟨offset, rounds⟩
    refine ⟨deliversOne.length + (4 * time + offset), by omega, ?_⟩
    rw [restLabels_add]
    exact (rounds time).1
  case sends =>
    intro time node _
    rcases rounds_eq node with ⟨offset, rounds⟩
    refine ⟨deliversOne.length + (4 * time + offset + 1), by omega, [], true,
      ?_⟩
    rw [restLabels_add]
    exact (rounds time).2
  case delivers =>
    intro time node other connection _ connected _ pending
    rw [connection_pair] at connected
    split_ifs at connected with here
    rcases here with ⟨rfl, rfl⟩
    cases connected
    rcases Nat.lt_or_ge time 3 with early | late
    · exact ⟨2, Nat.le_of_lt_succ early, 0, true, rfl⟩
    · -- the only instruction has been delivered
      exfalso
      rcases Nat.eq_or_lt_of_le late with rfl | past
      · revert pending
        decide +kernel
      · rw [deliversOneTrace, restStates_of_le ran past, delivered]
          at pending
        exact Nat.lt_irrefl _ pending

/-- The only instruction of the run does not tell anybody to exit. -/
theorem spares_deliversOne (time : Nat) :
    SparesRecievers pairTopology (restLabels deliversOne rounds time) := by
  rw [restLabels]
  cases found : deliversOne[time]? with
  | none => exact spares_serves _ _
  | some action =>
      have member := List.mem_of_getElem? found
      simp only [deliversOne, List.mem_cons, List.not_mem_nil, or_false]
        at member
      rcases member with rfl | rfl | rfl | rfl
      · intro reaches
        decide +kernel
      · trivial
      · trivial
      · trivial

theorem careful_deliversOne :
    Careful pairTopology deliversOneTrace
      (restLabels deliversOne rounds) := by
  intro time
  have early :
      ∀ time < 4,
        Orderly (deliversOneTrace time)
            (restLabels deliversOne rounds time) ∧
          Decodable (deliversOneTrace time)
            (restLabels deliversOne rounds time) := by
    decide +kernel
  rcases Nat.lt_or_ge time 4 with before | late
  · rcases early time before with ⟨orderly, decodable⟩
    exact ⟨orderly, decodable, spares_deliversOne time⟩
  · rcases Nat.exists_eq_add_of_le late with ⟨turn, rfl⟩
    have label :
        restLabels deliversOne rounds (4 + turn) = rounds turn :=
      restLabels_add deliversOne rounds turn
    have serving := spares_deliversOne (4 + turn)
    rw [label] at serving ⊢
    rcases careful_serves (deliversOneTrace (4 + turn))
      (if turn % 4 < 2 then child else root) turn with
      ⟨orderly, decodable⟩
    exact ⟨orderly, decodable, serving⟩

theorem delivered_one :
    Delivered pairTopology deliversOneTrace child
      (pairTopology.name root) :=
  delivered_of_careful fair_deliversOne careful_deliversOne child _

/-- The child adds an instruction of 256 bytes for its parent. -/
def diesAt256 : List (Action 2) :=
  [.add child (.ofBytes [0x62]) (.ofBytes [0x78]) (List.replicate 242 0)
      (some 0) true,
    .send child [] true]

/-- The child is dead, and its parent has nothing to do. -/
theorem rests_diesAt256 :
    ∃ config,
      run (step pairTopology) pairTopology.started diesAt256 =
          some config ∧
        (config.servers child).control = .fault .nullPointer ∧
        AtRest config root ∧
        (config.servers child).handed 7 = [] ∧
        (∀ node, (config.servers node).consumed = []) ∧
        between pairTopology child (pairTopology.name root)
            (config.added child) ≠
          [] := by
  have rests :
      (run (step pairTopology) pairTopology.started diesAt256).map
          (fun config =>
            decide
              ((config.servers child).control = .fault .nullPointer ∧
                AtRest config root ∧
                (config.servers child).handed 7 = [] ∧
                (∀ node, (config.servers node).consumed = []) ∧
                between pairTopology child (pairTopology.name root)
                    (config.added child) ≠
                  [])) =
        some true := by
    decide +kernel
  rcases Option.map_eq_some_iff.mp rests with ⟨config, ran, holds⟩
  exact ⟨config, ran, of_decide_eq_true holds⟩

/--
An instruction of 256 bytes kills the server which sends it, so that a fair
run never brings it to its destination.
-/
theorem not_delivered_256 :
    ∃ trace actions,
      FairRun pairTopology trace actions ∧
        Reaches pairTopology child (pairTopology.name root) ∧
        ¬ Delivered pairTopology trace child (pairTopology.name root) := by
  rcases rests_diesAt256 with
    ⟨config, ran, dead, atRest, unsent, unconsumed, waits⟩
  have reaches : Reaches pairTopology child (pairTopology.name root) :=
    Or.inr (Or.inl (by decide +kernel))
  refine ⟨restStates (step pairTopology) pairTopology.started diesAt256,
    restLabels diesAt256 (serves root), ?_, reaches, ?_⟩
  · have places (node : Fin 2) : node = child ∨ node = root := by
      revert node
      decide +kernel
    have dies (time : Nat) :
        ¬ Lives
          (restStates (step pairTopology) pairTopology.started diesAt256)
          time child := by
      intro lives
      have alive := lives (diesAt256.length + time) (Nat.le_add_left time _)
      rw [restStates_of_le ran (Nat.le_add_right _ time), dead] at alive
      cases alive
    constructor
    case begins => rfl
    case steps => exact step_restStates ran fun turn => step_serves atRest turn
    case reads =>
      intro time node lives
      rcases places node with rfl | rfl
      · exact absurd lives (dies time)
      · refine ⟨diesAt256.length + 2 * time, by omega, ?_⟩
        rw [restLabels_add, serves, if_pos (by omega)]
    case sends =>
      intro time node lives
      rcases places node with rfl | rfl
      · exact absurd lives (dies time)
      · refine ⟨diesAt256.length + (2 * time + 1), by omega, [], true, ?_⟩
        rw [restLabels_add, serves, if_neg (by omega)]
    case delivers =>
      intro time node other connection lives connected _ pending
      rw [connection_pair] at connected
      split_ifs at connected with here
      rcases here with ⟨rfl, rfl⟩
      cases connected
      exfalso
      rcases Nat.lt_or_ge time 2 with early | late
      · have unsentYet :
            ∀ time < 2,
              (((restStates (step pairTopology) pairTopology.started
                diesAt256 time).servers child).handed 7).length = 0 := by
          decide +kernel
        rw [unsentYet time early] at pending
        exact Nat.not_lt_zero _ pending
      · rw [restStates_of_le ran late, unsent] at pending
        exact Nat.not_lt_zero _ pending
  · intro delivered
    rcases delivered.consumed reaches with ⟨target, -, arrivesIn⟩
    rcases arrivesIn.arrives 2 with ⟨later, after, begins⟩
    rw [restStates_of_le ran (Nat.le_refl 2), restStates_of_le ran after,
      unconsumed] at begins
    exact waits (List.prefix_nil.mp begins)

end Wimp.Network.Delivery
