import Wimp.Network.Order
import Wimp.Network.Wire.Refinement

/-!
# From one end of the network to the other

What is proved about the network of instructions holds on the wire.  However
the send calls cut the instructions, however the packets cut the streams, and
however servers and receivers interleave, the servers stay alive, the
receivers stay inside their buffers, and what one server consumes of the
instructions of another is, unchanged, the first of those which were added for
it.
-/

namespace Wimp.Network.Wire

open Wimp.Lib.ByteRegion
open Wimp.Lib.Runs
open Wimp.Lib.Simulation
open Wimp.Instr.Codec
open Wimp.ProcessTable
open Wimp.Reciever.Machine (RecieverConfig Input)
open Wimp.Reciever.Delivery
open Wimp.Network.Machine (Topology child root pairTopology)
open Wimp.Network.Order

variable {count : Nat} {asserts : Bool} {topology : Topology count}
variable {config next : Config count}

/--
Every careful run of the network on the wire is, seen without the streams and
the receivers, a run of the network of instructions.
-/
theorem refines_of_careful
    {actions : List (Action count)}
    (careful :
      Along (step asserts topology) Careful (started topology) actions)
    (ran :
      run (step asserts topology) (started topology) actions =
        some config) :
    Reaches (Network.Machine.step topology) Regular topology.started
      (abstraction config) :=
  (reliable_of_run careful ran).2

/-- What the network on the wire guarantees. -/
structure EndToEnd (topology : Topology count) (config : Config count) :
    Prop where
  /-- The servers have not died. -/
  alive : ∀ node, (config.servers node).control = .ready
  /-- The receivers have not left their buffers. -/
  inside :
    ∀ node other connection,
      topology.connection node other = some connection →
        (config.recievers node connection).control ≠ .fault ∧
          (config.recievers node connection).control ≠ .aborted
  /-- Nothing is consumed twice, changed, or out of order. -/
  in_order :
    ∀ source target,
      between topology source (topology.name target)
          (config.servers target).consumed <+:
        between topology source (topology.name target)
          (config.added source)
  /-- A receiver has enqueued the first of what was handed over. -/
  enqueued :
    ∀ node other connection,
      topology.connection node other = some connection →
        (config.recievers node connection).queue <+:
          (config.servers node).handed connection
  /-- A receiver which waits for more has enqueued everything. -/
  complete :
    ∀ node other connection,
      topology.connection node other = some connection →
        config.sending node = [] →
          config.taken node connection = config.wire node connection →
            AwaitsPacket (config.recievers node connection) →
              (config.recievers node connection).queue =
                (config.servers node).handed connection
  /-- A receiver stops only when its process is told to exit. -/
  stops :
    ∀ node other connection,
      topology.connection node other = some connection →
        (config.recievers node connection).control = .stopped →
          ∃ instruction,
            Exits (topology.name other) instruction ∧
              instruction.bytes ∈
                (config.recievers node connection).queue

/-- On the route from one server to another nothing is lost on the way. -/
theorem consumed_begins_of_reaches
    (reaches :
      Reaches (Network.Machine.step topology) Regular topology.started
        (abstraction config))
    (source target : Fin count) :
    between topology source (topology.name target)
        (config.servers target).consumed <+:
      between topology source (topology.name target)
        (config.added source) := by
  rcases Network.Routes.exists_route topology (topology.name target) source
    with ⟨path, ending, route⟩
  have kept :
      ∃ relay,
        OnRoute topology (abstraction config)
          (Network.Routes.fromTo (topology.name source)
            (topology.name target))
          path relay :=
    reaches.induction
      (motive := fun state =>
        ∃ relay,
          OnRoute topology state
            (Network.Routes.fromTo (topology.name source)
              (topology.name target))
            path relay)
      ⟨_, Network.Stages.well_started, Network.Stages.tracks_started,
        Lib.Relay.follows_empty path⟩
      fun _ _ _ ⟨_, on⟩ regular stepped =>
        onRoute_of_step route on regular.1 stepped
  rcases kept with ⟨relay, on⟩
  exact on.consumed_begins route target

/-- A receiver which waits for more has enqueued everything. -/
theorem Reliable.queue_eq
    (reliable : Reliable asserts topology config)
    {node other : Fin count} {connection : PSocket}
    (connected : topology.connection node other = some connection)
    (idle : config.sending node = [])
    (used : config.taken node connection = config.wire node connection)
    (awaits : AwaitsPacket (config.recievers node connection)) :
    (config.recievers node connection).queue =
      (config.servers node).handed connection := by
  rcases reliable.recieving node other connection connected with
    ⟨inputs, recieving⟩
  have sending := reliable.sending node
  rw [idle] at sending
  have whole :
      config.wire node connection =
        ((config.servers node).handed connection).flatten := by
    rw [sending.eq_accepted, reliable.settled node connection]
  exact
    recieving.queue_eq (topology.name other).2
      ((reliable.genuine node).handed connection) whole used awaits

/-- The guarantees hold in every state of every careful run. -/
theorem endToEnd_of_careful
    {actions : List (Action count)}
    (careful :
      Along (step asserts topology) Careful (started topology) actions)
    (ran :
      run (step asserts topology) (started topology) actions =
        some config) :
    EndToEnd topology config := by
  rcases reliable_of_run careful ran with ⟨reliable, reaches⟩
  constructor
  case alive =>
    intro node
    exact (reliable.living.healthy node).ready
  case in_order => exact consumed_begins_of_reaches reaches
  case inside =>
    intro node other connection connected
    rcases reliable.recieving node other connection connected with
      ⟨inputs, recieving⟩
    exact
      (recieving.queue_prefix (topology.name other).2
        ((reliable.genuine node).handed connection)
        (reliable.carries node connection)).2
  case enqueued =>
    intro node other connection connected
    rcases reliable.recieving node other connection connected with
      ⟨inputs, recieving⟩
    exact
      (recieving.queue_prefix (topology.name other).2
        ((reliable.genuine node).handed connection)
        (reliable.carries node connection)).1
  case complete =>
    intro node other connection connected idle used awaits
    exact reliable.queue_eq connected idle used awaits
  case stops =>
    intro node other connection connected stopped
    rcases reliable.recieving node other connection connected with
      ⟨inputs, recieving⟩
    exact
      recieving.stops (topology.name other).2
        ((reliable.genuine node).handed connection)
        (reliable.carries node connection) stopped

/-! ## A child and its parent -/

/--
The child sends an instruction of 14 bytes in two calls.  The receiver of its
parent takes three bytes in between, and the others behind the second call.
-/
def arrivesInParts : List (Action 2) :=
  let bytes := instrBytes [0x61] [0x62] [0x78] []
  let recieves (input : Input) : Action 2 := .recieve child root input 1
  [.add child (.ofBytes [0x62]) (.ofBytes [0x78]) [] (some 0) true,
    .send child (some 5) true] ++
  [.active true, .receive (.packet (bytes.take 3)), .tau, .tau,
    .tau].map recieves ++
  [.send child (some 9) true] ++
  [.receive (.packet (bytes.drop 3)), .tau,
    .malloc (some (List.replicate 14 0)), .tau, .tau,
    .node true].map recieves ++
  [.read root]

theorem careful_arrivesInParts :
    Along (step true pairTopology) Careful (started pairTopology)
      arrivesInParts := by
  decide +kernel

theorem ran_arrivesInParts :
    ∃ config,
      run (step true pairTopology) (started pairTopology) arrivesInParts =
          some config ∧
        (config.servers root).consumed =
          [instrBytes [0x61] [0x62] [0x78] []] := by
  have logs :
      (run (step true pairTopology) (started pairTopology)
          arrivesInParts).map
          (fun config => (config.servers root).consumed) =
        some [instrBytes [0x61] [0x62] [0x78] []] := by
    decide +kernel
  exact Option.map_eq_some_iff.mp logs

theorem refines_arrivesInParts :
    ∃ config,
      run (step true pairTopology) (started pairTopology) arrivesInParts =
          some config ∧
        Reaches (Network.Machine.step pairTopology) Regular
          pairTopology.started (abstraction config) := by
  rcases ran_arrivesInParts with ⟨config, ran, -⟩
  exact ⟨config, ran, refines_of_careful careful_arrivesInParts ran⟩

theorem endToEnd_arrivesInParts :
    ∃ config,
      run (step true pairTopology) (started pairTopology) arrivesInParts =
          some config ∧
        (config.servers root).consumed =
            [instrBytes [0x61] [0x62] [0x78] []] ∧
          EndToEnd pairTopology config := by
  rcases ran_arrivesInParts with ⟨config, ran, consumed⟩
  exact
    ⟨config, ran, consumed,
      endToEnd_of_careful careful_arrivesInParts ran⟩

end Wimp.Network.Wire
