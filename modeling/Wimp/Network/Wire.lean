import Wimp.Network.Delivery
import Wimp.Network.Transfer
import Wimp.Reciever.Delivery

/-!
# Networks on the wire

The network of `Wimp.Network.Machine` hands complete instructions from one
server to the next.  Here a connection is a stream of bytes.  The send loop of
a server makes one send call at a time, and a call may accept any part of what
is left of an instruction.  At the far end a receiver of the peer runs its
loop, takes bytes off the stream in packets of any size, builds instructions
from them and appends these to the incoming queue of its server.  Servers and
receivers interleave in any way.

Seen without the streams and the receivers, the network on the wire is the
network of `Wimp.Network.Machine`, which has delivered what the receivers have
enqueued.
-/

namespace Wimp.Network.Wire

open Wimp.Lib.ByteRegion
open Wimp.Instr.Codec
open Wimp.ProcessTable
open Wimp.Reciever.Machine (RecieverConfig Input)
open Wimp.Reciever.Stream (received)
open Wimp.Reciever.Delivery (Deliverable Granted)
open Wimp.Server.Machine (Address)
open Wimp.Server.Queues (lost)
open Wimp.Network.Machine (Topology)

variable {count : Nat}

/-- The servers, what is on their connections, and the receivers. -/
structure Config (count : Nat) where
  servers : Fin count → Server.Machine.Config
  /-- The instructions which each server has added. -/
  added : Fin count → List Bytes := fun _ => []
  /-- The instructions which each server has dropped. -/
  dropped : Fin count → List Bytes := fun _ => []
  /-- The results of the send calls for an instruction which is being sent. -/
  sending : Fin count → List Int := fun _ => []
  /-- The bytes which each connection has accepted. -/
  wire : Fin count → PSocket → Bytes := fun _ _ => []
  /-- The bytes which the receiver has taken off each connection. -/
  taken : Fin count → PSocket → Bytes := fun _ _ => []
  recievers : Fin count → PSocket → RecieverConfig := fun _ _ => {}

/-- What the servers and the receivers do. -/
inductive Action (count : Nat) where
  | add (node : Fin count) (dest instr : CString) (args : Bytes)
      (block : Option Address) (granted : Bool)
  | read (node : Fin count)
  | send (node : Fin count) (sendres : Option Int) (granted : Bool)
  | recieve (node other : Fin count) (input : Input) (block : Address)
deriving DecidableEq, Repr

/-- A server makes a step. -/
def Config.setServer (config : Config count) (node : Fin count)
    (server : Server.Machine.Config) : Config count :=
  { config with servers := Function.update config.servers node server }

/-- A receiver makes a step and takes bytes off its connection. -/
def Config.setReciever (config : Config count) (node : Fin count)
    (connection : PSocket) (input : Input) (reciever : RecieverConfig) :
    Config count :=
  { config with
    taken :=
      Function.update config.taken node
        (Function.update (config.taken node) connection
          (config.taken node connection ++ received input))
    recievers :=
      Function.update config.recievers node
        (Function.update (config.recievers node) connection reciever) }

/-- The instruction which a step of a receiver appends to the queue. -/
def enqueued (reciever : RecieverConfig) : Input → Option (Bytes × Bool)
  | .node granted =>
      reciever.state.instruction.instruction.map fun instruction =>
        (instruction, granted)
  | _ => none

/--
One step of a server, one send call of its send loop, or one step of a
receiver.  While a send is under way the thread of the server is inside its
send loop.
-/
def step (asserts : Bool) (topology : Topology count)
    (config : Config count) : Action count → Option (Config count)
  | .add node dest instr args block granted =>
      if config.sending node = [] then
        (Server.Machine.step (config.servers node)
            (.add dest instr args block granted)).map fun server =>
          { config.setServer node server with
            added :=
              Function.update config.added node
                (config.added node ++
                  [instrBytes (topology.name node).val dest instr args]) }
      else none
  | .read node =>
      if config.sending node = [] then
        (Server.Machine.step (config.servers node) .read).map
          (config.setServer node)
      else none
  | .send node sendres granted =>
      let results := config.sending node ++ sendres.toList
      if -1 ∈ results then none
      else
        (Server.Machine.step (config.servers node)
            (.send results granted)).map fun server =>
          let wire := Function.update config.wire node server.accepted
          if server.control = .blocked then
            -- the loop waits for the result of its next call
            { config with
              wire
              sending := Function.update config.sending node results }
          else
            { config.setServer node server with
              wire
              sending := Function.update config.sending node []
              dropped :=
                Function.update config.dropped node
                  (config.dropped node ++ lost (config.servers node)) }
  | .recieve node other input block =>
      match topology.connection node other with
      | none => none
      | some connection =>
          if config.taken node connection ++ received input <+:
              config.wire node connection then
            (Reciever.Machine.step asserts (topology.name other)
                (config.recievers node connection) input).bind
              fun reciever =>
                let next :=
                  config.setReciever node connection input reciever
                match enqueued (config.recievers node connection) input with
                | none => some next
                | some (instruction, granted) =>
                    (Server.Machine.step (config.servers other)
                        (.receive instruction block granted)).map
                      (next.setServer other)
          else none

/-- The network before anything has been added. -/
def started (topology : Topology count) : Config count :=
  { servers := fun node => Server.Machine.started (topology.server node) }

/-- What is seen of the network without its streams and receivers. -/
def abstraction (config : Config count) : Network.Machine.Config count where
  servers := config.servers
  delivered node connection :=
    (config.recievers node connection).queue.length
  added := config.added
  dropped := config.dropped

/-- The steps of the network, one constructor for each outcome. -/
inductive Transition (asserts : Bool) (topology : Topology count)
    (config : Config count) : Action count → Config count → Prop where
  | added (node : Fin count) (dest instr : CString) (args : Bytes)
      (block : Option Address) (granted : Bool)
      (server : Server.Machine.Config)
      (idle : config.sending node = [])
      (stepped :
        Server.Machine.step (config.servers node)
          (.add dest instr args block granted) = some server) :
      Transition asserts topology config
        (.add node dest instr args block granted)
        { config.setServer node server with
          added :=
            Function.update config.added node
              (config.added node ++
                [instrBytes (topology.name node).val dest instr args]) }
  | read (node : Fin count) (server : Server.Machine.Config)
      (idle : config.sending node = [])
      (stepped :
        Server.Machine.step (config.servers node) .read = some server) :
      Transition asserts topology config (.read node)
        (config.setServer node server)
  | begun (node : Fin count) (sendres : Option Int) (granted : Bool)
      (server : Server.Machine.Config)
      (clean : -1 ∉ config.sending node ++ sendres.toList)
      (stepped :
        Server.Machine.step (config.servers node)
          (.send (config.sending node ++ sendres.toList) granted) =
          some server)
      (blocked : server.control = .blocked) :
      Transition asserts topology config (.send node sendres granted)
        { config with
          wire := Function.update config.wire node server.accepted
          sending :=
            Function.update config.sending node
              (config.sending node ++ sendres.toList) }
  | sent (node : Fin count) (sendres : Option Int) (granted : Bool)
      (server : Server.Machine.Config)
      (clean : -1 ∉ config.sending node ++ sendres.toList)
      (stepped :
        Server.Machine.step (config.servers node)
          (.send (config.sending node ++ sendres.toList) granted) =
          some server)
      (passes : server.control ≠ .blocked) :
      Transition asserts topology config (.send node sendres granted)
        { config.setServer node server with
          wire := Function.update config.wire node server.accepted
          sending := Function.update config.sending node []
          dropped :=
            Function.update config.dropped node
              (config.dropped node ++ lost (config.servers node)) }
  | recieved (node other : Fin count) (input : Input) (block : Address)
      (connection : PSocket) (reciever : RecieverConfig)
      (connected : topology.connection node other = some connection)
      (arrives :
        config.taken node connection ++ received input <+:
          config.wire node connection)
      (moved :
        Reciever.Machine.step asserts (topology.name other)
          (config.recievers node connection) input = some reciever)
      (nothing :
        enqueued (config.recievers node connection) input = none) :
      Transition asserts topology config (.recieve node other input block)
        (config.setReciever node connection input reciever)
  | enqueued (node other : Fin count) (input : Input) (block : Address)
      (connection : PSocket) (reciever : RecieverConfig)
      (instruction : Bytes) (granted : Bool)
      (server : Server.Machine.Config)
      (connected : topology.connection node other = some connection)
      (arrives :
        config.taken node connection ++ received input <+:
          config.wire node connection)
      (moved :
        Reciever.Machine.step asserts (topology.name other)
          (config.recievers node connection) input = some reciever)
      (something :
        Wire.enqueued (config.recievers node connection) input =
          some (instruction, granted))
      (stepped :
        Server.Machine.step (config.servers other)
          (.receive instruction block granted) = some server) :
      Transition asserts topology config (.recieve node other input block)
        ((config.setReciever node connection input reciever).setServer other
          server)

/-- Every step is one of the transitions. -/
theorem step_cases
    {asserts : Bool} {topology : Topology count}
    {config next : Config count} {action : Action count}
    (stepped : step asserts topology config action = some next) :
    Transition asserts topology config action next := by
  cases action with
  | add node dest instr args block granted =>
      rw [step] at stepped
      split_ifs at stepped with idle
      rcases Option.map_eq_some_iff.mp stepped with ⟨server, moved, rfl⟩
      exact .added node dest instr args block granted server idle moved
  | read node =>
      rw [step] at stepped
      split_ifs at stepped with idle
      rcases Option.map_eq_some_iff.mp stepped with ⟨server, moved, rfl⟩
      exact .read node server idle moved
  | send node sendres granted =>
      rw [step] at stepped
      dsimp only at stepped
      split_ifs at stepped with clean
      rcases Option.map_eq_some_iff.mp stepped with ⟨server, moved, rfl⟩
      split_ifs with blocked
      · exact .begun node sendres granted server clean moved blocked
      · exact .sent node sendres granted server clean moved blocked
  | recieve node other input block =>
      rw [step] at stepped
      split at stepped
      · cases stepped
      · rename_i connection connected
        split_ifs at stepped with arrives
        rcases Option.bind_eq_some_iff.mp stepped with
          ⟨reciever, moved, rest⟩
        dsimp only at rest
        split at rest
        · rename_i nothing
          cases rest
          exact .recieved node other input block connection reciever
            connected arrives moved nothing
        · rename_i instruction granted something
          rcases Option.map_eq_some_iff.mp rest with ⟨server, last, rfl⟩
          exact .enqueued node other input block connection reciever
            instruction granted server connected arrives moved something
            last

/-! ## Careful networks -/

/--
The actions which move instructions: an instruction is added for another
process and can be framed and decoded, every allocation succeeds, and no
receive call fails.
-/
def Careful (config : Config count) : Action count → Prop
  | .add node dest instr args block granted =>
      dest ≠ (config.servers node).server.processName ∧ block.isSome ∧
        granted = true ∧
          Deliverable
            (.instr
              { source := (config.servers node).server.processName.val
                dest := dest.val
                instr := instr.val
                args })
  | .read _ => True
  | .send _ _ _ => True
  | .recieve _ _ input _ => Granted input

instance (input : Input) : Decidable (Granted input) :=
  match input with
  | .tau => inferInstanceAs (Decidable True)
  | .active _ => inferInstanceAs (Decidable (_ = _))
  | .receive (.packet _) => inferInstanceAs (Decidable (_ ≠ _))
  | .receive .closed => inferInstanceAs (Decidable False)
  | .receive .failed => inferInstanceAs (Decidable False)
  | .malloc _ => inferInstanceAs (Decidable (_ = _))
  | .node _ => inferInstanceAs (Decidable (_ = _))

instance (config : Config count) (action : Action count) :
    Decidable (Careful config action) :=
  match action with
  | .add .. => inferInstanceAs (Decidable (_ ∧ _ ∧ _ ∧ _))
  | .read .. => inferInstanceAs (Decidable True)
  | .send .. => inferInstanceAs (Decidable True)
  | .recieve .. => inferInstanceAs (Decidable (Granted _))

end Wimp.Network.Wire
