import Wimp.Lib.Forest
import Wimp.Server.Queues

/-!
# Networks of servers

The servers of a program are connected by sockets.  A table entry holds the
connection to the server which it names; what is handed to the connection
comes out, in order, at a receiver of that server, which appends it to the
incoming queue.  The links are reliable: a send call neither fails nor blocks
for ever, and complete items arrive unchanged.  A receiver stops behind an
instruction which tells its own process to exit.

Every server adds instructions of its own, runs the read loop and runs the
send loop, one popped node at a time.  The configuration keeps a record of
the instructions which each server added and of those which it dropped
because they had nowhere to go.
-/

namespace Wimp.Network.Machine

open Wimp.Lib.ByteRegion
open Wimp.Lib.Forest
open Wimp.Instr.Codec
open Wimp.ProcessTable
open Wimp.Utility.HashTable
open Wimp.Reciever.Machine (exitSignal)
open Wimp.Server.Machine
open Wimp.Server.Queues (lost)

variable {count : Nat}

/-! ## The topology -/

/-- The data of an entry in the process table of a server. -/
def entry (server : Fin count → WimpServer) (node : Fin count)
    (name : Bytes) : Option WimpProcessData :=
  wimpProcessTableGet (server node).ptable (some name)

/-- The server of a name. -/
def serverOf (server : Fin count → WimpServer) (name : Bytes) :
    Option (Fin count) :=
  (List.finRange count).find? fun node =>
    (server node).processName.val = name

/-- The server to which a node passes what it cannot route itself. -/
def parentOf (server : Fin count → WimpServer) (node : Fin count) :
    Option (Fin count) :=
  (server node).parent.bind fun parent => serverOf server parent.val

/--
Servers with distinct names whose parents form a forest.  Every table entry
is active and names a server, no two entries of a table share a connection,
and a parent is in the table of its child.
-/
structure Topology (count : Nat) where
  server : Fin count → WimpServer
  name_injective :
    ∀ first second, (server first).processName =
      (server second).processName → first = second
  entry_active :
    ∀ node name data, entry server node name = some data →
      data.processActive = true
  entry_server :
    ∀ node name data, entry server node name = some data →
      (serverOf server name).isSome
  entry_connection :
    ∀ node first second left right,
      entry server node first = some left →
        entry server node second = some right →
          left.processConnection = right.processConnection →
            first = second
  parent_listed :
    ∀ node parent, (server node).parent = some parent →
      (entry server node parent.val).isSome
  acyclic : Acyclic (parentOf server)

namespace Topology

variable (topology : Topology count)

/-- The name of a server. -/
def name (node : Fin count) : CString :=
  (topology.server node).processName

/-- The parent of a server. -/
def parent (node : Fin count) : Option (Fin count) :=
  parentOf topology.server node

/-- A name is in the process table of a server. -/
def Listed (node : Fin count) (name : Bytes) : Prop :=
  (entry topology.server node name).isSome

instance (node : Fin count) (name : Bytes) :
    Decidable (topology.Listed node name) :=
  inferInstanceAs (Decidable (_ = _))

/-- The connection from a server to another one. -/
def connection (node other : Fin count) : Option PSocket :=
  (entry topology.server node (topology.name other).val).map
    WimpProcessData.processConnection

/--
The server to which an instruction goes from another one which it is not
addressed to.
-/
def hop (node : Fin count) (dest : Bytes) : Option (Fin count) :=
  if topology.Listed node dest then serverOf topology.server dest
  else topology.parent node

end Topology

/-! ## The servers at work -/

/-- The servers, and how far each connection has been delivered. -/
structure Config (count : Nat) where
  servers : Fin count → Server.Machine.Config
  delivered : Fin count → PSocket → Nat := fun _ _ => 0
  /-- The instructions which each server has added. -/
  added : Fin count → List Bytes := fun _ => []
  /-- The instructions which each server has dropped. -/
  dropped : Fin count → List Bytes := fun _ => []

/-- What the servers and the links do. -/
inductive Action (count : Nat) where
  | add (node : Fin count) (dest instr : CString) (args : Bytes)
      (block : Option Address) (granted : Bool)
  | read (node : Fin count)
  | send (node : Fin count) (results : List Int) (granted : Bool)
  | deliver (node other : Fin count) (block : Address) (granted : Bool)
deriving DecidableEq, Repr

/-- The exit test of the receivers of a process. -/
def ExitsFor (process : CString) (item : Bytes) : Prop :=
  exitSignal process.val
      { instruction := some item, instructionBytes := item.length } =
    some true

instance (process : CString) (item : Bytes) :
    Decidable (ExitsFor process item) :=
  inferInstanceAs (Decidable (_ = _))

/-- The receiver of a connection has received an exit for its process. -/
def Stopped (topology : Topology count) (config : Config count)
    (node other : Fin count) (connection : PSocket) : Prop :=
  ∃ item ∈
      ((config.servers node).handed connection).take
        (config.delivered node connection),
    ExitsFor (topology.name other) item

instance (topology : Topology count) (config : Config count)
    (node other : Fin count) (connection : PSocket) :
    Decidable (Stopped topology config node other connection) :=
  inferInstanceAs (Decidable (∃ _ ∈ _, _))

/-- A server makes a step. -/
def Config.setServer (config : Config count) (node : Fin count)
    (server : Server.Machine.Config) : Config count :=
  { config with servers := Function.update config.servers node server }

/-- One step of one server or of one link. -/
def step (topology : Topology count) (config : Config count) :
    Action count → Option (Config count)
  | .add node dest instr args block granted =>
      (Server.Machine.step (config.servers node)
          (.add dest instr args block granted)).map fun server =>
        { config.setServer node server with
          added :=
            Function.update config.added node
              (config.added node ++
                [instrBytes (topology.name node).val dest instr args]) }
  | .read node =>
      (Server.Machine.step (config.servers node) .read).map
        (config.setServer node)
  | .send node results granted =>
      if -1 ∈ results then none
      else
        (Server.Machine.step (config.servers node)
            (.send results granted)).bind fun server =>
          if server.control = .blocked then none
          else
            some
              { config.setServer node server with
                dropped :=
                  Function.update config.dropped node
                    (config.dropped node ++ lost (config.servers node)) }
  | .deliver node other block granted =>
      match topology.connection node other with
      | none => none
      | some connection =>
          if Stopped topology config node other connection then none
          else
            match
              ((config.servers node).handed connection)[
                config.delivered node connection]? with
            | none => none
            | some item =>
                (Server.Machine.step (config.servers other)
                    (.receive item block granted)).map fun server =>
                  { config.setServer other server with
                    delivered :=
                      Function.update config.delivered node
                        (Function.update (config.delivered node) connection
                          (config.delivered node connection + 1)) }

/-- The network before anything has been added. -/
def Topology.started (topology : Topology count) : Config count :=
  { servers := fun node => Server.Machine.started (topology.server node) }

/-- The steps of the network, one constructor for each action. -/
inductive Transition (topology : Topology count) (config : Config count) :
    Action count → Config count → Prop where
  | added (node : Fin count) (dest instr : CString) (args : Bytes)
      (block : Option Address) (granted : Bool)
      (server : Server.Machine.Config)
      (stepped :
        Server.Machine.step (config.servers node)
          (.add dest instr args block granted) = some server) :
      Transition topology config (.add node dest instr args block granted)
        { config.setServer node server with
          added :=
            Function.update config.added node
              (config.added node ++
                [instrBytes (topology.name node).val dest instr args]) }
  | read (node : Fin count) (server : Server.Machine.Config)
      (stepped :
        Server.Machine.step (config.servers node) .read = some server) :
      Transition topology config (.read node) (config.setServer node server)
  | sent (node : Fin count) (results : List Int) (granted : Bool)
      (server : Server.Machine.Config)
      (clean : -1 ∉ results)
      (stepped :
        Server.Machine.step (config.servers node)
          (.send results granted) = some server)
      (passes : server.control ≠ .blocked) :
      Transition topology config (.send node results granted)
        { config.setServer node server with
          dropped :=
            Function.update config.dropped node
              (config.dropped node ++ lost (config.servers node)) }
  | delivered (node other : Fin count) (block : Address) (granted : Bool)
      (connection : PSocket) (item : Bytes)
      (server : Server.Machine.Config)
      (connected : topology.connection node other = some connection)
      (pending :
        ((config.servers node).handed connection)[
          config.delivered node connection]? = some item)
      (stepped :
        Server.Machine.step (config.servers other)
          (.receive item block granted) = some server)
      (runs : ¬ Stopped topology config node other connection) :
      Transition topology config (.deliver node other block granted)
        { config.setServer other server with
          delivered :=
            Function.update config.delivered node
              (Function.update (config.delivered node) connection
                (config.delivered node connection + 1)) }

/-- Every step is one of the transitions. -/
theorem step_cases
    {topology : Topology count} {config next : Config count}
    {action : Action count}
    (stepped : step topology config action = some next) :
    Transition topology config action next := by
  cases action with
  | add node dest instr args block granted =>
      rcases Option.map_eq_some_iff.mp stepped with ⟨server, moved, rfl⟩
      exact .added node dest instr args block granted server moved
  | read node =>
      rcases Option.map_eq_some_iff.mp stepped with ⟨server, moved, rfl⟩
      exact .read node server moved
  | send node results granted =>
      simp only [step] at stepped
      split at stepped
      · cases stepped
      · rename_i clean
        rcases Option.bind_eq_some_iff.mp stepped with
          ⟨server, moved, passed⟩
        split at passed
        · cases passed
        · rename_i passes
          cases passed
          exact .sent node results granted server clean moved passes
  | deliver node other block granted =>
      simp only [step] at stepped
      split at stepped
      · cases stepped
      · rename_i connection connected
        split at stepped
        · cases stepped
        rename_i runs
        split at stepped
        · cases stepped
        · rename_i item pending
          rcases Option.map_eq_some_iff.mp stepped with
            ⟨server, moved, rfl⟩
          exact .delivered node other block granted connection item server
            connected pending moved runs

/-! ## Names and routes -/

theorem name_of_serverOf
    {server : Fin count → WimpServer} {name : Bytes} {node : Fin count}
    (found : serverOf server name = some node) :
    (server node).processName.val = name := by
  simpa using List.find?_some found

variable (topology : Topology count)

/-- A name is the name of at most one server. -/
theorem serverOf_eq_some_iff (name : Bytes) (node : Fin count) :
    serverOf topology.server name = some node ↔
      (topology.name node).val = name := by
  constructor
  · exact name_of_serverOf
  · intro named
    have present :
        (serverOf topology.server name).isSome := by
      rw [serverOf, List.find?_isSome]
      refine ⟨node, List.mem_finRange node, ?_⟩
      exact decide_eq_true named
    rcases Option.isSome_iff_exists.mp present with ⟨other, found⟩
    have same := (name_of_serverOf found).trans named.symm
    rw [found, topology.name_injective other node (Subtype.ext same)]

/-- A listed name is the name of the server to which its entry leads. -/
theorem exists_of_listed
    {node : Fin count} {name : Bytes} (listed : topology.Listed node name) :
    ∃ other, serverOf topology.server name = some other ∧
      (topology.name other).val = name := by
  rcases Option.isSome_iff_exists.mp listed with ⟨data, found⟩
  rcases Option.isSome_iff_exists.mp
    (topology.entry_server node name data found) with ⟨other, same⟩
  exact ⟨other, same, name_of_serverOf same⟩

/-- The active connection which leads to a server. -/
structure LeadsTo (node other : Fin count) (data : WimpProcessData) :
    Prop where
  active : data.processActive = true
  connected :
    topology.connection node other = some data.processConnection

/-- An entry leads to the server of its name. -/
theorem leadsTo_of_entry
    {node other : Fin count} {name : Bytes} {data : WimpProcessData}
    (found : entry topology.server node name = some data)
    (named : serverOf topology.server name = some other) :
    LeadsTo topology node other data := by
  constructor
  case active => exact topology.entry_active node name data found
  case connected =>
    rw [Topology.connection, (serverOf_eq_some_iff topology _ _).mp named,
      found]
    rfl

/-- A hop is made over the connection which the send loop looks up. -/
theorem exists_target_of_hop
    {node other : Fin count} {dest : Bytes}
    (hops : topology.hop node dest = some other) :
    ∃ data,
      sendTarget (topology.server node) dest = some data ∧
        LeadsTo topology node other data := by
  unfold Topology.hop at hops
  split_ifs at hops with listed
  · rcases Option.isSome_iff_exists.mp listed with ⟨data, found⟩
    refine ⟨data, ?_, leadsTo_of_entry topology found hops⟩
    rw [sendTarget, ← entry, found, Option.some_or]
  · rcases Option.bind_eq_some_iff.mp hops with ⟨parent, above, named⟩
    rcases Option.isSome_iff_exists.mp
      (topology.parent_listed node parent above) with ⟨data, found⟩
    refine ⟨data, ?_, leadsTo_of_entry topology found named⟩
    rw [sendTarget, ← entry, Option.not_isSome_iff_eq_none.mp listed,
      Option.none_or, above]
    exact found

/-- Where no hop is possible, the send loop looks up nothing. -/
theorem target_none_of_hop
    {node : Fin count} {dest : Bytes}
    (root : topology.hop node dest = none) :
    sendTarget (topology.server node) dest = none := by
  unfold Topology.hop at root
  split_ifs at root with listed
  · rcases exists_of_listed topology listed with ⟨other, found, -⟩
    rw [root] at found
    cases found
  · rw [sendTarget, ← entry, Option.not_isSome_iff_eq_none.mp listed,
      Option.none_or]
    cases above : (topology.server node).parent with
    | none => rfl
    | some parent =>
        -- a parent would be the next hop
        rcases exists_of_listed topology
          (topology.parent_listed node parent above) with
          ⟨other, found, -⟩
        rw [Topology.parent, parentOf, above, Option.bind_some, found]
          at root
        cases root

/-- Whatever the send loop looks up leads to another server. -/
theorem exists_connected_of_target
    {node : Fin count} {dest : Bytes} {data : WimpProcessData}
    (target : sendTarget (topology.server node) dest = some data) :
    ∃ other,
      topology.connection node other = some data.processConnection := by
  cases hops : topology.hop node dest with
  | none =>
      rw [target_none_of_hop topology hops] at target
      cases target
  | some other =>
      rcases exists_target_of_hop topology hops with ⟨_, found, leadsTo⟩
      cases found.symm.trans target
      exact ⟨other, leadsTo.connected⟩

/-- The connections of a server lead to different servers. -/
theorem connection_injective
    {node first second : Fin count} {connection : PSocket}
    (left : topology.connection node first = some connection)
    (right : topology.connection node second = some connection) :
    first = second := by
  rcases Option.map_eq_some_iff.mp left with ⟨one, here, rfl⟩
  rcases Option.map_eq_some_iff.mp right with ⟨two, there, same⟩
  apply topology.name_injective
  apply Subtype.ext
  exact topology.entry_connection node _ _ one two here there same.symm

/-! ## A child and its parent -/

/-- The data of the connection from the child to its parent. -/
def upward : WimpProcessData :=
  { processDomain := [], processPort := 0, processConnection := 7
    processActive := true, processRelation := .parent }

/-- The server `b`, which has no parent and knows nobody. -/
def parentB : WimpServer :=
  { processName := .ofBytes [0x62] }

/-- The server `a`, whose parent is `b`. -/
def childA : WimpServer :=
  { processName := .ofBytes [0x61]
    parent := some (.ofBytes [0x62])
    ptable :=
      { hashTable :=
          (hashStringAdd (hashStringCreate _ _) [0x62] upward true).1
        tableLength := 1 } }

/-- The node of the parent. -/
def root : Fin 2 := Fin.last 1

/-- The node of the child. -/
def child : Fin 2 := root.rev

/-- The servers of a child and its parent. -/
def pair (node : Fin 2) : WimpServer :=
  if node = root then parentB else childA

/-- The only entry is that of the parent at its child. -/
theorem entry_pair (node : Fin 2) (name : Bytes) :
    entry pair node name =
      if node ≠ root ∧ name = [0x62] then some upward else none := by
  unfold entry pair
  by_cases top : node = root
  · simp [top, parentB, wimpProcessTableGet, wimpCreateProcessTable]
  · by_cases same : name = [0x62]
    · simp [top, same, childA, wimpProcessTableGet,
        hashStringFind_add_self (hashStringFind_create _)]
    · simp [top, same, childA, wimpProcessTableGet,
        hashStringFind_add_of_ne _ same]

theorem eq_of_entry_pair
    {node : Fin 2} {name : Bytes} {data : WimpProcessData}
    (found : entry pair node name = some data) :
    node ≠ root ∧ name = [0x62] ∧ data = upward := by
  rw [entry_pair] at found
  split_ifs at found with here
  exact ⟨here.1, here.2, (Option.some.inj found).symm⟩

theorem parentOf_pair (node : Fin 2) :
    parentOf pair node = if node = root then none else some root := by
  revert node
  decide +kernel

theorem acyclic_pair : Acyclic (parentOf pair) := by
  have top (ancestor : Fin 2) : ¬ Ancestor (parentOf pair) root ancestor :=
    not_ancestor_of_root (parentOf_pair root) ancestor
  intro node cycle
  by_cases same : node = root
  · exact top node (same ▸ cycle)
  · have leads : parentOf pair node = some root := by
      rw [parentOf_pair, if_neg same]
    rcases (ancestor_iff_of_parent leads node).mp cycle with equal | above
    · exact same equal
    · exact top node above

/-- A child and its parent as a topology. -/
def pairTopology : Topology 2 where
  server := pair
  name_injective := by decide +kernel
  entry_active node name data found := by
    rw [(eq_of_entry_pair found).2.2]
    rfl
  entry_server node name data found := by
    rw [(eq_of_entry_pair found).2.1]
    decide +kernel
  entry_connection node first second left right here there _ :=
    (eq_of_entry_pair here).2.1.trans (eq_of_entry_pair there).2.1.symm
  parent_listed node parent leads := by
    unfold pair at leads
    split_ifs at leads with top
    · cases leads
    · cases leads
      rw [entry_pair, if_pos ⟨top, by decide +kernel⟩]
      rfl
  acyclic := acyclic_pair

end Wimp.Network.Machine
