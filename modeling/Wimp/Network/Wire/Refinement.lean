import Mathlib.Logic.Function.Basic
import Wimp.Lib.Simulation
import Wimp.Network.Wire.Streams

/-!
# The network on the wire implements the network of instructions

Every step of the network on the wire, seen through `abstraction`, is a step
of the network of `Wimp.Network.Machine` or does not show: an addition and an
iteration of the read loop are what they are, the call which completes an
instruction is its transmission, the step by which a receiver appends an
instruction is its delivery, and all other send calls and steps of receivers
do not show.
-/

namespace Wimp.Network.Wire

open Wimp.Lib.ByteRegion
open Wimp.Lib.Runs
open Wimp.Lib.Simulation
open Wimp.Instr.Codec
open Wimp.ProcessTable
open Wimp.Reciever.Machine (RecieverConfig Input)
open Wimp.Reciever.Stream
open Wimp.Reciever.Delivery
open Wimp.Server.Machine (Address)
open Wimp.Server.Queues
open Wimp.Server.Health
open Wimp.Network.Machine (Topology)
open Wimp.Network.Stages (Orderly Well)
open Wimp.Network.Delivery (Decodable Living)
open Wimp.Network.Transfer

variable {count : Nat} {asserts : Bool} {topology : Topology count}
variable {config next : Config count}

/-- The actions of the network of instructions which its results are about. -/
def Regular (config : Network.Machine.Config count)
    (action : Network.Machine.Action count) : Prop :=
  Orderly config action ∧ Decodable config action

/-- What careful runs keep of the servers and the streams between them. -/
structure Streaming (asserts : Bool) (topology : Topology count)
    (config : Config count) : Prop where
  genuine : ∀ node, Genuine (config.servers node)
  settled : ∀ node, Settled (config.servers node)
  clean : ∀ node, -1 ∉ config.sending node
  sending :
    ∀ node,
      Sending (config.servers node) (config.sending node)
        (config.wire node)
  recieving :
    ∀ node other connection,
      topology.connection node other = some connection →
      ∃ inputs,
        Recieving asserts (topology.name other)
          (config.recievers node connection) (config.taken node connection)
          (config.wire node connection) inputs

/-- What careful runs of the network on the wire keep. -/
structure Reliable (asserts : Bool) (topology : Topology count)
    (config : Config count) : Prop extends
    Streaming asserts topology config where
  living : Living topology (abstraction config)

theorem reliable_started : Reliable asserts topology (started topology) where
  living := Network.Delivery.living_started
  genuine node := carries_started Sendable (topology.server node)
  settled _ _ := rfl
  clean _ := List.not_mem_nil
  sending _ := .idle
  recieving _ _ _ _ :=
    ⟨[], rfl, fun _ member => (List.not_mem_nil member).elim, rfl,
      List.prefix_rfl⟩

/-! ## The servers -/

theorem Reliable.sound
    (reliable : Reliable asserts topology config) (node : Fin count) :
    Sound (config.servers node) :=
  reliable.living.well.sound node

/-- A careful addition is an orderly one of something which can be sent. -/
theorem Careful.add
    {node : Fin count} {dest instr : CString} {args : Bytes}
    {block : Option Address} {granted : Bool}
    (careful : Careful config (.add node dest instr args block granted)) :
    Regular (abstraction config) (.add node dest instr args block granted) ∧
      ∀ bytes,
        brought (config.servers node)
            (.add dest instr args block granted) = some bytes →
          Sendable bytes := by
  rcases careful with ⟨foreign, allocated, given, deliverable⟩
  have sendable :
      Sendable
        (instrBytes (config.servers node).server.processName dest instr
          args) :=
    ⟨_, deliverable, rfl⟩
  have small := deliverable.2.2.2.2
  refine
    ⟨⟨⟨⟨foreign, allocated, given, small.1⟩, small.2⟩,
        sendable.scanned⟩, ?_⟩
  intro bytes brings
  exact Option.some.inj brings ▸ sendable

/-- A step of a server leaves it genuine and settled. -/
theorem Reliable.server_step
    (reliable : Reliable asserts topology config) {node : Fin count}
    {action : Server.Machine.Action} {server : Server.Machine.Config}
    (orderly : Server.Queues.Orderly (config.servers node) action)
    (brings :
      ∀ bytes, brought (config.servers node) action = some bytes →
        Sendable bytes)
    (passes :
      ∀ results granted, action = .send results granted →
        server.control ≠ .blocked)
    (stepped :
      Server.Machine.step (config.servers node) action = some server) :
    Genuine server ∧ Settled server :=
  ⟨carries_of_viewStep (reliable.genuine node) brings
      (viewStep_of_step (reliable.sound node) orderly passes stepped),
    settled_of_step (reliable.sound node) (reliable.settled node) orderly
      passes stepped⟩

/-- Additions and reads leave the connections alone. -/
theorem accepted_of_local
    {config next : Server.Machine.Config} {action : Server.Machine.Action}
    (stepped : Server.Machine.step config action = some next)
    (stays :
      action = .read ∨
        ∃ dest instr args block granted,
          action = .add dest instr args block granted) :
    next.accepted = config.accepted := by
  cases Server.Machine.step_cases stepped with
  | added dest instr args block granted control fresh =>
      unfold Server.Machine.wimpServerAdd
      split <;> rfl
  | received instruction block granted alive free counts => rfl
  | readNothing control empty => rfl
  | read node rest next control queue outcome => cases outcome <;> rfl
  | sendNothing granted control empty => rfl
  | send node rest results granted next control queue outcome =>
      rcases stays with same | ⟨_, _, _, _, _, same⟩ <;> cases same
  | ping processName result next control checked =>
      rcases stays with same | ⟨_, _, _, _, _, same⟩ <;> cases same

/-! ## The receivers -/

/-- A connection which leads to a server carries what was handed to it. -/
theorem Reliable.carries
    (reliable : Reliable asserts topology config) (node : Fin count)
    (connection : PSocket) :
    Carries ((config.servers node).handed connection)
      (config.wire node connection) := by
  rcases
    (reliable.sending node).exists_part (reliable.sound node)
      (reliable.settled node) (reliable.clean node) connection with
    ⟨part, split, nothing | ⟨front, member, begins, less⟩⟩
  · exact ⟨part, split, Or.inl nothing⟩
  · have sendable :=
      (reliable.genuine node).queued front (List.mem_append_right _ member)
    exact ⟨part, split, Or.inr ⟨front, sendable, begins, less⟩⟩

/-- The step of a receiver, as far as it is known. -/
theorem Reliable.recieving_step
    (reliable : Reliable asserts topology config)
    {node other : Fin count} {input : Input} {connection : PSocket}
    {reciever : RecieverConfig}
    (connected : topology.connection node other = some connection)
    (granted : Granted input)
    (arrives :
      config.taken node connection ++ received input <+:
        config.wire node connection)
    (moved :
      Reciever.Machine.step asserts (topology.name other)
        (config.recievers node connection) input = some reciever) :
    ∃ inputs,
      Recieving asserts (topology.name other) reciever
        (config.taken node connection ++ received input)
        (config.wire node connection) inputs := by
  rcases reliable.recieving node other connection connected with
    ⟨inputs, recieving⟩
  exact ⟨_, recieving.step granted arrives moved⟩

/-- The other receivers do not notice. -/
theorem Reliable.recieving_setReciever
    (reliable : Reliable asserts topology config)
    {node other : Fin count} {input : Input} {connection : PSocket}
    {reciever : RecieverConfig}
    (connected : topology.connection node other = some connection)
    (granted : Granted input)
    (arrives :
      config.taken node connection ++ received input <+:
        config.wire node connection)
    (moved :
      Reciever.Machine.step asserts (topology.name other)
        (config.recievers node connection) input = some reciever)
    {first second : Fin count} {place : PSocket}
    (leads : topology.connection first second = some place) :
    ∃ inputs,
      Recieving asserts (topology.name second)
        ((config.setReciever node connection input reciever).recievers first
          place)
        ((config.setReciever node connection input reciever).taken first
          place)
        (config.wire first place) inputs := by
  rw [Config.setReciever]
  by_cases here : first = node
  · subst here
    by_cases there : place = connection
    · subst there
      rcases Network.Machine.connection_injective topology connected leads
        with rfl
      simp only [Function.update_self]
      exact reliable.recieving_step connected granted arrives moved
    · simp only [Function.update_self, Function.update_of_ne there]
      exact reliable.recieving first second place leads
  · simp only [Function.update_of_ne here]
    exact reliable.recieving first second place leads

/-- What a receiver appends is the next instruction on its connection. -/
theorem Reliable.pending
    (reliable : Reliable asserts topology config)
    {node other : Fin count} {input : Input} {connection : PSocket}
    {reciever : RecieverConfig} {instruction : Bytes}
    (connected : topology.connection node other = some connection)
    (granted : Granted input)
    (arrives :
      config.taken node connection ++ received input <+:
        config.wire node connection)
    (moved :
      Reciever.Machine.step asserts (topology.name other)
        (config.recievers node connection) input = some reciever)
    (something :
      enqueued (config.recievers node connection) input =
        some (instruction, true)) :
    ((config.servers node).handed connection)[
        (config.recievers node connection).queue.length]? =
      some instruction := by
  rcases
    reliable.recieving_step connected granted arrives moved with
    ⟨inputs, recieving⟩
  have begins :=
    (recieving.queue_prefix (topology.name other).2
      ((reliable.genuine node).handed connection)
      (reliable.carries node connection)).1
  rw [queue_of_something moved something] at begins
  rcases begins with ⟨rest, whole⟩
  rw [← whole, List.append_assoc, List.getElem?_append_right (by simp)]
  simp

/-- A receiver which goes on has not stopped the deliveries. -/
theorem Reliable.runs
    (reliable : Reliable asserts topology config)
    {node other : Fin count} {input : Input} {connection : PSocket}
    {reciever : RecieverConfig}
    (connected : topology.connection node other = some connection)
    (moved :
      Reciever.Machine.step asserts (topology.name other)
        (config.recievers node connection) input = some reciever) :
    ¬ Network.Machine.Stopped topology (abstraction config) node other
      connection := by
  rcases reliable.recieving node other connection connected with
    ⟨inputs, recieving⟩
  have nameFree := (topology.name other).2
  have sendable := (reliable.genuine node).handed connection
  have carries := reliable.carries node connection
  have begins := (recieving.queue_prefix nameFree sendable carries).1
  have received :
      ((config.servers node).handed connection).take
          (config.recievers node connection).queue.length =
        (config.recievers node connection).queue :=
    (List.prefix_iff_eq_take.mp begins).symm
  rintro ⟨item, member, exits⟩
  change
    item ∈
      ((config.servers node).handed connection).take
        (config.recievers node connection).queue.length
    at member
  rw [received] at member
  exact recieving.noExit nameFree sendable carries moved item member exits

/-- What a careful receiver appends is granted a node. -/
theorem granted_of_enqueued
    {reciever : RecieverConfig} {input : Input} {instruction : Bytes}
    {given : Bool} (granted : Granted input)
    (something : enqueued reciever input = some (instruction, given)) :
    given = true := by
  cases input with
  | node node =>
      rcases Option.map_eq_some_iff.mp something with ⟨bytes, -, same⟩
      rw [← (Prod.mk.inj same).2]
      exact granted
  | tau => cases something
  | active flag => cases something
  | receive received => cases something
  | malloc block => cases something

/-! ## Every step is matched -/

/-- A step of a receiver changes at most how much is delivered. -/
theorem abstraction_setReciever
    (node : Fin count) (connection : PSocket) (input : Input)
    (reciever : RecieverConfig) :
    abstraction (config.setReciever node connection input reciever) =
      { abstraction config with
        delivered :=
          Function.update (abstraction config).delivered node
            (Function.update ((abstraction config).delivered node)
              connection reciever.queue.length) } := by
  simp only [abstraction, Config.setReciever, Network.Machine.Config.mk.injEq,
    true_and, and_true]
  funext first place
  by_cases here : first = node
  · subst here
    by_cases there : place = connection
    · subst there
      simp
    · simp [Function.update_of_ne there]
  · simp [Function.update_of_ne here]

/-- Every careful step is a regular step of the network or does not show. -/
theorem matched_of_step
    {action : Action count} (reliable : Reliable asserts topology config)
    (careful : Careful config action)
    (stepped : step asserts topology config action = some next) :
    AtMostOnce (Network.Machine.step topology) Regular (abstraction config)
      (abstraction next) := by
  cases step_cases stepped with
  | added node dest instr args block granted server idle moved =>
      refine .steps (.add node dest instr args block granted) _
        careful.add.1 ?_
      exact congrArg (Option.map _) moved
  | read node server idle moved =>
      have regular : Regular (abstraction config) (.read node) :=
        ⟨trivial, trivial⟩
      exact .steps _ _ regular (congrArg (Option.map _) moved)
  | begun node sendres granted server clean moved blocked =>
      exact .stutters
  | sent node sendres granted server clean moved passes =>
      have regular :
          Regular (abstraction config)
            (.send node (config.sending node ++ sendres.toList) granted) :=
        ⟨trivial, trivial⟩
      refine .steps _ _ regular ?_
      rw [Network.Machine.step, if_neg clean]
      refine (congrArg (Option.bind · _) moved).trans ?_
      exact if_neg passes
  | recieved node other input block connection reciever connected arrives
      moved nothing =>
      have same :
          abstraction (config.setReciever node connection input reciever) =
            abstraction config := by
        rw [abstraction_setReciever, queue_of_nothing moved nothing]
        have kept :=
          Function.update_eq_self connection
            ((abstraction config).delivered node)
        have unchanged :=
          Function.update_eq_self node (abstraction config).delivered
        rw [← kept] at unchanged
        exact congrArg
          (fun delivered => { abstraction config with delivered })
          unchanged
      rw [same]
      exact .stutters
  | enqueued node other input block connection reciever instruction given
      server connected arrives moved something last =>
      rcases granted_of_enqueued careful something with rfl
      have regular :
          Regular (abstraction config) (.deliver node other block true) :=
        ⟨rfl, trivial⟩
      refine .steps _ _ regular ?_
      have pending :=
        reliable.pending connected careful arrives moved something
      have longer : reciever.queue.length =
          (abstraction config).delivered node connection + 1 := by
        rw [queue_of_something moved something, List.length_append]
        rfl
      have seen :=
        @abstraction_setReciever _ config node connection input reciever
      rw [longer] at seen
      rw [Network.Machine.step, connected]
      dsimp only
      rw [if_neg (reliable.runs connected moved)]
      have found :
          (((abstraction config).servers node).handed connection)[
              (abstraction config).delivered node connection]? =
            some instruction :=
        pending
      rw [found]
      refine (congrArg (Option.map _) last).trans ?_
      have outside :
          abstraction
              ((config.setReciever node connection input reciever).setServer
                other server) =
            (abstraction
                (config.setReciever node connection input
                  reciever)).setServer other server :=
        rfl
      rw [outside, seen]
      rfl

/-! ## Whole runs -/

/-- A step of a server which leaves its connections alone. -/
theorem Streaming.setServer
    (streaming : Streaming asserts topology config) {node : Fin count}
    {server : Server.Machine.Config} (genuine : Genuine server)
    (settled : Settled server)
    (sending :
      Sending server (config.sending node) (config.wire node)) :
    Streaming asserts topology (config.setServer node server) where
  genuine := by
    rw [Config.setServer, Function.forall_update_iff config.servers
      fun _ server => Genuine server]
    exact ⟨genuine, fun other _ => streaming.genuine other⟩
  settled := by
    rw [Config.setServer, Function.forall_update_iff config.servers
      fun _ server => Settled server]
    exact ⟨settled, fun other _ => streaming.settled other⟩
  clean := streaming.clean
  sending := by
    rw [Config.setServer, Function.forall_update_iff config.servers
      fun other server =>
        Sending server (config.sending other) (config.wire other)]
    exact ⟨sending, fun other _ => streaming.sending other⟩
  recieving := streaming.recieving

/-- A send call which adds to the connections of a server. -/
theorem Streaming.call
    (streaming : Streaming asserts topology config) {node : Fin count}
    {server : Server.Machine.Config} {results : List Int}
    {wire : PSocket → Bytes} (genuine : Genuine server)
    (settled : Settled server) (clean : -1 ∉ results)
    (sending : Sending server results wire)
    (grows :
      ∀ connection, config.wire node connection <+: wire connection) :
    Streaming asserts topology
      { config.setServer node server with
        wire := Function.update config.wire node wire
        sending := Function.update config.sending node results } where
  genuine := by
    rw [Config.setServer, Function.forall_update_iff config.servers
      fun _ server => Genuine server]
    exact ⟨genuine, fun other _ => streaming.genuine other⟩
  settled := by
    rw [Config.setServer, Function.forall_update_iff config.servers
      fun _ server => Settled server]
    exact ⟨settled, fun other _ => streaming.settled other⟩
  clean := by
    rw [Function.forall_update_iff config.sending
      fun _ results => -1 ∉ results]
    exact ⟨clean, fun other _ => streaming.clean other⟩
  sending other := by
    by_cases same : other = node
    · subst same
      simp only [Config.setServer, Function.update_self]
      exact sending
    · simp only [Config.setServer, Function.update_of_ne same]
      exact streaming.sending other
  recieving first second place leads := by
    rcases streaming.recieving first second place leads with
      ⟨inputs, recieving⟩
    refine ⟨inputs, recieving.extend ?_⟩
    by_cases same : first = node
    · subst same
      simp only [Function.update_self]
      exact grows place
    · simp only [Function.update_of_ne same]
      exact List.prefix_rfl

/-- A careful step keeps what is known about the streams. -/
theorem streaming_of_step
    {action : Action count} (reliable : Reliable asserts topology config)
    (careful : Careful config action)
    (stepped : step asserts topology config action = some next) :
    Streaming asserts topology next := by
  cases step_cases stepped with
  | added node dest instr args block granted server idle moved =>
      rcases
        reliable.server_step careful.add.1.1.1 careful.add.2 (by simp)
          moved with
        ⟨genuine, settled⟩
      have sending := reliable.sending node
      rw [idle] at sending
      have kept := accepted_of_local moved (Or.inr ⟨_, _, _, _, _, rfl⟩)
      have still : Sending server (config.sending node) (config.wire node) := by
        rw [idle, sending.eq_accepted, ← kept]
        exact .idle
      have after := reliable.setServer genuine settled still
      exact ⟨after.genuine, after.settled, after.clean, after.sending,
        after.recieving⟩
  | read node server idle moved =>
      have orderly : Server.Queues.Orderly (config.servers node) .read :=
        trivial
      rcases
        reliable.server_step orderly (fun _ brings => by cases brings)
          (by simp) moved with
        ⟨genuine, settled⟩
      have sending := reliable.sending node
      rw [idle] at sending
      have kept := accepted_of_local moved (Or.inl rfl)
      refine reliable.setServer genuine settled ?_
      rw [idle, sending.eq_accepted, ← kept]
      exact .idle
  | begun node sendres granted server clean moved blocked =>
      have same : config.setServer node (config.servers node) = config := by
        rw [Config.setServer, Function.update_eq_self]
      have after :=
        reliable.call (reliable.genuine node) (reliable.settled node) clean
          (sending_of_blocked moved blocked) fun connection =>
            (reliable.sending node).accepted_begins moved connection
      rw [same] at after
      exact after
  | sent node sendres granted server clean moved passes =>
      have orderly :
          Server.Queues.Orderly (config.servers node)
            (.send (config.sending node ++ sendres.toList) granted) :=
        clean
      rcases
        reliable.server_step orderly (fun _ brings => by cases brings)
          (fun _ _ _ => passes) moved with
        ⟨genuine, settled⟩
      have after :=
        reliable.call genuine settled List.not_mem_nil .idle
          fun connection =>
            (reliable.sending node).accepted_begins moved connection
      exact ⟨after.genuine, after.settled, after.clean, after.sending,
        after.recieving⟩
  | recieved node other input block connection reciever connected arrives
      moved nothing =>
      exact ⟨reliable.genuine, reliable.settled, reliable.clean,
        reliable.sending, fun _ _ _ leads =>
          reliable.recieving_setReciever connected careful arrives moved
            leads⟩
  | enqueued node other input block connection reciever instruction given
      server connected arrives moved something last =>
      rcases granted_of_enqueued careful something with rfl
      have pending :=
        reliable.pending connected careful arrives moved something
      have sendable :=
        (reliable.genuine node).handed connection instruction
          (List.mem_of_getElem? pending)
      have orderly :
          Server.Queues.Orderly (config.servers other)
            (.receive instruction block true) :=
        rfl
      rcases
        reliable.server_step orderly
          (fun _ brings => Option.some.inj brings ▸ sendable)
          (by simp) last with
        ⟨genuine, settled⟩
      have after :
          Streaming asserts topology
            (config.setReciever node connection input reciever) :=
        ⟨reliable.genuine, reliable.settled, reliable.clean,
          reliable.sending, fun _ _ _ leads =>
            reliable.recieving_setReciever connected careful arrives moved
              leads⟩
      exact after.setServer genuine settled
        ((reliable.sending other).receive last)

/-- A careful step keeps the network reliable. -/
theorem reliable_of_step
    {action : Action count} (reliable : Reliable asserts topology config)
    (careful : Careful config action)
    (stepped : step asserts topology config action = some next) :
    Reliable asserts topology next where
  toStreaming := streaming_of_step reliable careful stepped
  living :=
    (matched_of_step reliable careful stepped).preserves reliable.living
      fun _ _ regular moved =>
        Network.Delivery.living_of_step reliable.living regular.1 regular.2
          moved

/-- Careful runs are reliable, and runs of the network of instructions. -/
theorem reliable_of_run
    {actions : List (Action count)}
    (careful :
      Along (step asserts topology) Careful (started topology) actions)
    (ran :
      run (step asserts topology) (started topology) actions = some config) :
    Reliable asserts topology config ∧
      Reaches (Network.Machine.step topology) Regular topology.started
        (abstraction config) :=
  reaches_of_run abstraction
    (fun _ _ _ reliable careful stepped =>
      ⟨reliable_of_step reliable careful stepped,
        matched_of_step reliable careful stepped⟩)
    reliable_started careful ran

end Wimp.Network.Wire
