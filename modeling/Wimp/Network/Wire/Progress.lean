import Wimp.Network.Wire.Arrival

/-!
# Receivers do not get stuck

A receiver which is served by its connection makes a bounded number of steps,
and as long as it has not taken and enqueued everything that its connection
has accepted, it can make another one.  So every longest run of its steps ends
with everything delivered, unless an exit instruction has stopped it.
-/

namespace Wimp.Network.Wire

open Wimp.Lib.ByteRegion
open Wimp.Lib.Runs
open Wimp.Instr.Codec
open Wimp.ProcessTable
open Wimp.Reciever.Machine
  (RecieverConfig Input Received wimpMessageBufferBytes)
open Wimp.Reciever.Stream
open Wimp.Reciever.Window (unread)
open Wimp.Reciever.Delivery
open Wimp.Server.Machine (Address Heap)
open Wimp.Network.Machine (Topology child root pairTopology)

/-! ## Memory -/

/-- Only finitely many addresses are live. -/
def Bounded (heap : Heap) : Prop :=
  ∃ bound : Nat, ∀ address : Nat, bound ≤ address → heap address = none

theorem Bounded.update
    {heap : Heap} (bounded : Bounded heap) (address : Nat)
    (block : Option Bytes) :
    Bounded (Function.update heap address block) := by
  rcases bounded with ⟨bound, free⟩
  refine ⟨max bound (address + 1), fun other behind => ?_⟩
  have elsewhere : other ≠ address := by omega
  rw [Function.update_of_ne elsewhere]
  exact free other (by omega)

/-- There is always an address which is not live. -/
theorem Bounded.exists_free {heap : Heap} (bounded : Bounded heap) :
    ∃ address, heap address = none := by
  rcases bounded with ⟨bound, free⟩
  exact ⟨bound, free bound (Nat.le_refl _)⟩

section Servers

open Wimp.Server.Machine

variable {config next : Server.Machine.Config}

theorem bounded_releaseNode
    (bounded : Bounded config.heap) (node : WimpInstrNode)
    (rest : List WimpInstrNode) :
    Bounded (releaseNode config node rest).heap := by
  unfold releaseNode wimpInstrNodeFree
  cases node.instruction with
  | none => exact bounded
  | some address =>
      dsimp only
      split_ifs
      · exact bounded.update address none
      · exact bounded

/-- Every step of a server allocates or releases at most one block. -/
theorem bounded_of_step
    {action : Server.Machine.Action} (bounded : Bounded config.heap)
    (stepped : Server.Machine.step config action = some next) :
    Bounded next.heap := by
  cases Server.Machine.step_cases stepped with
  | added dest instr args block granted control fresh =>
      unfold wimpServerAdd
      split
      · exact bounded
      · cases block with
        | none => exact bounded
        | some address => exact bounded.update address _
  | received instruction block granted alive free counts =>
      exact bounded.update block _
  | readNothing control empty => exact bounded
  | read node rest next control queue outcome =>
      cases outcome with
      | routed buffer dest result decoded foreign => exact bounded
      | consumed buffer dest result heap decoded own freed =>
          unfold wimpInstrNodeFree at freed
          split at freed
          · cases freed
            exact bounded
          · split_ifs at freed
            cases freed
            exact bounded.update _ none
      | faulted fault failed => exact bounded
      | doubleFree buffer dest result fault decoded freed => exact bounded
  | sendNothing granted control empty => exact bounded
  | send node rest results granted next control queue outcome =>
      cases outcome with
      | faulted fault failed => exact bounded
      | looped buffer dest result decoded own =>
          refine bounded_releaseNode ?_ node rest
          exact bounded
      | dropped buffer dest result decoded foreign unreachable =>
          exact bounded_releaseNode bounded node rest
      | transmitted buffer dest result data _ sent decoded foreign target
          active loop =>
          split
          · refine bounded_releaseNode ?_ node rest
            exact bounded
          · exact bounded
          · exact bounded
  | ping processName result next control checked =>
      unfold wimpServerCheckProcessListening at checked
      split at checked
      · split_ifs at checked
        cases checked
        exact bounded
      · split_ifs at checked
        · split at checked
          · cases checked
          · split_ifs at checked
            · cases checked
              exact bounded
            · dsimp only at checked
              split at checked <;> cases checked <;> exact bounded
        · cases checked
          exact bounded

end Servers

variable {count : Nat} {asserts : Bool} {topology : Topology count}
variable {config next : Config count}

/-- The servers of a network use finitely many addresses. -/
def AllBounded (config : Config count) : Prop :=
  ∀ node, Bounded (config.servers node).heap

theorem bounded_setServer
    (bounded : AllBounded config)
    {node : Fin count} {action : Server.Machine.Action}
    {server : Server.Machine.Config}
    (stepped :
      Server.Machine.step (config.servers node) action = some server) :
    AllBounded (config.setServer node server) := by
  rw [AllBounded, Config.setServer, Function.forall_update_iff config.servers
    fun _ server => Bounded server.heap]
  exact
    ⟨bounded_of_step (bounded node) stepped, fun other _ => bounded other⟩

theorem allBounded_of_step
    {action : Action count} (bounded : AllBounded config)
    (stepped : step asserts topology config action = some next) :
    AllBounded next := by
  cases step_cases stepped with
  | added node dest instr args block granted server idle moved =>
      exact bounded_setServer bounded moved
  | read node server idle moved => exact bounded_setServer bounded moved
  | begun node sendres granted server clean moved blocked => exact bounded
  | sent node sendres granted server clean moved passes =>
      exact bounded_setServer bounded moved
  | recieved node other input block connection reciever connected arrives
      moved nothing =>
      exact bounded
  | enqueued node other input block connection reciever instruction given
      server connected arrives moved something last =>
      have within :
          AllBounded (config.setReciever node connection input reciever) :=
        bounded
      exact bounded_setServer within last

theorem allBounded_of_run
    {actions : List (Action count)}
    (ran :
      run (step asserts topology) (started topology) actions =
        some config) :
    AllBounded config := by
  refine
    run_induction (motive := fun _ config => AllBounded config) ?_ ?_ ran
  · exact fun _ => ⟨0, fun _ _ => rfl⟩
  · intro _ config action next _ bounded stepped
    exact allBounded_of_step bounded stepped

/-! ## One receiver -/

section Reciever

variable {processName taken wire : Bytes} {reciever after : RecieverConfig}
variable {inputs : List Input} {input : Input}

/-- A stream cut into packets of one byte. -/
def singles (bytes : Bytes) : List Bytes :=
  bytes.map fun byte => [byte]

@[simp]
theorem flatten_singles (bytes : Bytes) : (singles bytes).flatten = bytes := by
  induction bytes with
  | nil => rfl
  | cons byte rest induction =>
      rw [singles, List.map_cons, List.flatten_cons, ← singles, induction]
      rfl

/--
A bound on the steps which a receiver makes with what is left on its stream.
-/
def potential (reciever : RecieverConfig) (left : Nat) : Nat :=
  10 * left + 8 * (unread reciever).length + rank reciever.control

/-- The receiver has used up its stream, or an exit has stopped it. -/
def Drained (reciever : RecieverConfig) (taken wire : Bytes) : Prop :=
  reciever.control = .stopped ∨ taken = wire ∧ AwaitsPacket reciever

/-- A receiver takes nonempty packets which fit its buffer. -/
theorem admissible_of_run
    (ran :
      run (Reciever.Machine.step asserts processName) {} inputs =
        some reciever) :
    ∀ bytes ∈ packets inputs,
      0 < bytes.length ∧ bytes.length ≤ wimpMessageBufferBytes := by
  refine
    run_induction
      (motive := fun inputs _ =>
        ∀ bytes ∈ packets inputs,
          0 < bytes.length ∧ bytes.length ≤ wimpMessageBufferBytes)
      (fun _ member => by cases member) ?_ ran
  intro inputs reciever input after earlier admissible moved bytes member
  rw [packets_concat] at member
  rcases List.mem_append.mp member with before | last
  · exact admissible bytes before
  · cases Reciever.Machine.step_cases moved with
    | polled received control fits size =>
        cases received with
        | packet packet => exact List.mem_singleton.mp last ▸ fits
        | closed => cases last
        | failed => cases last
    | polledNothing received control fits size =>
        cases received with
        | packet packet => exact List.mem_singleton.mp last ▸ fits
        | closed => cases last
        | failed => cases last
    | headerReceive read received control exhausted fits =>
        cases received with
        | packet packet => exact List.mem_singleton.mp last ▸ fits
        | closed => cases last
        | failed => cases last
    | refilled received control fits =>
        cases received with
        | packet packet => exact List.mem_singleton.mp last ▸ fits
        | closed => cases last
        | failed => cases last
    | _ => cases last

/-- A receiver which is served packets of one byte from now on. -/
theorem Recieving.serve
    (recieving :
      Recieving asserts processName reciever taken wire inputs)
    (nameFree : NulFree processName) {handed : List Bytes}
    (sendable : ∀ bytes ∈ handed, Sendable bytes)
    (carries : Carries handed wire) :
    ∃ items later,
      (∀ item ∈ items, Deliverable item) ∧
        taken ++ later = encode items ∧ wire <+: taken ++ later := by
  rcases recieving.exists_served nameFree sendable carries with
    ⟨items, -, -, later, deliverable, -, stream, within, -⟩
  exact ⟨items, later, deliverable, stream, stream.symm ▸ within⟩

/-- A packet has at least one byte. -/
theorem length_packet_le (granted : Granted input) :
    (packet input).length ≤ (packet input).flatten.length := by
  cases input with
  | receive received =>
      cases received with
      | packet bytes =>
          have nonempty := List.length_pos_of_ne_nil granted
          simp only [packet, List.flatten_singleton, List.length_singleton]
          omega
      | closed => exact granted.elim
      | failed => exact granted.elim
  | tau => exact Nat.zero_le _
  | active flag => exact Nat.zero_le _
  | malloc block => exact Nat.zero_le _
  | node granted => exact Nat.zero_le _

/-- Every step uses up some of what is left. -/
theorem Recieving.potential_lt
    (recieving :
      Recieving asserts processName reciever taken wire inputs)
    (nameFree : NulFree processName) {handed : List Bytes}
    (sendable : ∀ bytes ∈ handed, Sendable bytes)
    (carries : Carries handed wire) (granted : Granted input)
    (arrives : taken ++ received input <+: wire)
    (moved :
      Reciever.Machine.step asserts processName reciever input =
        some after) :
    potential after (wire.length - (taken ++ received input).length) <
      potential reciever (wire.length - taken.length) := by
  rcases recieving.serve nameFree sendable carries with
    ⟨items, later, deliverable, stream, within⟩
  rcases (List.prefix_append_right_inj taken).mp (arrives.trans within) with
    ⟨rest, split⟩
  rw [received_of_granted granted] at split
  have ahead : (packet input ++ singles rest).flatten = later := by
    rw [List.flatten_append, flatten_singles, split]
  rw [← ahead] at stream
  rcases recieving.served nameFree deliverable stream with
    ⟨done, remaining, served⟩
  have progressed :=
    progressed_of_step nameFree
      (fun item member =>
        deliverable item
          (served.items_eq ▸ List.mem_append_right _ member))
      granted served.filled served.tracked served.aligned moved
  have less := progressed.work_lt
  have fits := arrives.length_le
  have paid := length_packet_le granted
  rw [received_of_granted granted] at fits ⊢
  simp only [work, List.flatten_append, List.length_append,
    singles, List.length_map] at less
  simp only [potential, List.length_append] at fits ⊢
  omega

/-- Only a receiver which waits for a packet takes one. -/
theorem awaitsPacket_of_step
    {received : Received}
    (moved :
      Reciever.Machine.step asserts processName reciever
        (.receive received) = some after) :
    AwaitsPacket reciever := by
  cases Reciever.Machine.step_cases moved with
  | polled _ control admissible size => simp [AwaitsPacket, control]
  | polledNothing _ control admissible size => simp [AwaitsPacket, control]
  | headerReceive read _ control exhausted admissible =>
      simpa [AwaitsPacket, control] using exhausted
  | refilled _ control admissible => simp [AwaitsPacket, control]

/-- A receiver which has not used up its stream can make another step. -/
theorem Recieving.exists_step
    (recieving :
      Recieving asserts processName reciever taken wire inputs)
    (nameFree : NulFree processName) {handed : List Bytes}
    (sendable : ∀ bytes ∈ handed, Sendable bytes)
    (carries : Carries handed wire)
    (unfinished : ¬ Drained reciever taken wire) :
    ∃ input after,
      Granted input ∧ taken ++ received input <+: wire ∧
        Reciever.Machine.step asserts processName reciever input =
          some after := by
  rcases recieving.serve nameFree sendable carries with
    ⟨items, later, deliverable, stream, within⟩
  rw [← flatten_singles later] at stream
  rcases recieving.served nameFree deliverable stream with
    ⟨done, remaining, served⟩
  have packeted :
      ∀ bytes ∈ packets inputs ++ singles later,
        0 < bytes.length ∧ bytes.length ≤ wimpMessageBufferBytes := by
    intro bytes member
    rcases List.mem_append.mp member with before | behind
    · exact admissible_of_run recieving.ran bytes before
    · rcases List.mem_map.mp behind with ⟨byte, -, rfl⟩
      rw [List.length_singleton]
      decide
  have going :
      ¬ Finished (packets inputs ++ singles later) inputs reciever := by
    rintro (stopped | ⟨used, awaits⟩)
    · exact unfinished (Or.inl stopped)
    · have nothing := List.self_eq_append_right.mp used
      rw [singles, List.map_eq_nil_iff] at nothing
      rw [nothing, List.append_nil] at within
      exact unfinished
        (Or.inr
          ⟨recieving.begins.eq_of_length_le within.length_le, awaits⟩)
  rcases
    served.exists_step deliverable packeted
      ⟨recieving.granted, List.prefix_append _ _⟩ going with
    ⟨input, serves, moves⟩
  rcases Option.isSome_iff_exists.mp moves with ⟨after, moved⟩
  have granted :=
    serves.granted input (List.mem_append_right _ (List.mem_singleton_self _))
  refine ⟨input, after, granted, ?_, moved⟩
  have next := serves.in_order
  rw [packets_concat, List.prefix_append_right_inj] at next
  cases input with
  | receive received =>
      have awaits := awaitsPacket_of_step moved
      have more : taken ≠ wire := fun used =>
        unfinished (Or.inr ⟨used, awaits⟩)
      rcases recieving.begins with ⟨ahead, rfl⟩
      cases received with
      | packet bytes =>
          cases ahead with
          | nil => exact absurd (List.append_nil _).symm more
          | cons first rest =>
              rw [List.prefix_append_right_inj] at within ⊢
              rcases within with ⟨others, rfl⟩
              rcases next with ⟨_, same⟩
              cases same
              exact ⟨rest, rfl⟩
      | closed => exact granted.elim
      | failed => exact granted.elim
  | tau => simpa [received] using recieving.begins
  | active flag => simpa [received] using recieving.begins
  | malloc block => simpa [received] using recieving.begins
  | node given => simpa [received] using recieving.begins

end Reciever

/-! ## The receivers of a network -/

/-- What a receiver can still do on its own. -/
def work (config : Config count) (node : Fin count) (connection : PSocket) :
    Nat :=
  potential (config.recievers node connection)
    ((config.wire node connection).length -
      (config.taken node connection).length)

/-- The steps of the receiver of one server for another. -/
def Recieves (node other : Fin count) (action : Action count) : Prop :=
  ∃ input block, action = .recieve node other input block

/-- A receiver at work leaves the connections of its servers alone. -/
theorem frame_of_recieves
    {node other : Fin count} {connection : PSocket} {action : Action count}
    (connected : topology.connection node other = some connection)
    (recieves : Recieves node other action)
    (stepped : step asserts topology config action = some next) :
    next.wire = config.wire ∧ next.sending = config.sending ∧
      ∀ place,
        (next.servers node).handed place =
          (config.servers node).handed place := by
  rcases recieves with ⟨input, block, rfl⟩
  cases step_cases stepped with
  | recieved _ _ _ _ place reciever leads arrives moved nothing =>
      exact ⟨rfl, rfl, fun _ => rfl⟩
  | enqueued _ _ _ _ place reciever instruction granted server leads arrives
      moved something last =>
      refine ⟨rfl, rfl, fun place => ?_⟩
      have kept : server.handed = (config.servers other).handed := by
        cases Server.Machine.step_cases last with
        | received _ _ _ alive free counts => rfl
      by_cases same : node = other
      · subst same
        simp only [Config.setServer, Function.update_self]
        rw [kept]
      · simp only [Config.setServer, Function.update_of_ne same]
        rfl

/-- A step of a receiver uses up some of the work which it has. -/
theorem work_lt_of_recieves
    {node other : Fin count} {connection : PSocket} {action : Action count}
    (reliable : Reliable asserts topology config)
    (connected : topology.connection node other = some connection)
    (recieves : Recieves node other action)
    (careful : Careful config action)
    (stepped : step asserts topology config action = some next) :
    work next node connection < work config node connection := by
  rcases recieves with ⟨input, block, rfl⟩
  rcases reliable.recieving node other connection connected with
    ⟨inputs, recieving⟩
  have less {reciever : RecieverConfig}
      (arrives :
        config.taken node connection ++ received input <+:
          config.wire node connection)
      (moved :
        Reciever.Machine.step asserts (topology.name other)
          (config.recievers node connection) input = some reciever) :
      work (config.setReciever node connection input reciever) node
          connection <
        work config node connection := by
    simp only [work, Config.setReciever, Function.update_self]
    exact
      recieving.potential_lt (topology.name other).2
        ((reliable.genuine node).handed connection)
        (reliable.carries node connection) careful arrives moved
  cases step_cases stepped with
  | recieved _ _ _ _ place reciever leads arrives moved nothing =>
      cases connected.symm.trans leads
      exact less arrives moved
  | enqueued _ _ _ _ place reciever instruction granted server leads arrives
      moved something last =>
      cases connected.symm.trans leads
      exact less arrives moved

/-- A receiver which is not done can make a step of the network. -/
theorem exists_step_of_not_drained
    {node other : Fin count} {connection : PSocket}
    (reliable : Reliable asserts topology config)
    (bounded : AllBounded config)
    (connected : topology.connection node other = some connection)
    (unfinished :
      ¬ Drained (config.recievers node connection)
          (config.taken node connection) (config.wire node connection)) :
    ∃ action next,
      Recieves node other action ∧ Careful config action ∧
        step asserts topology config action = some next := by
  rcases reliable.recieving node other connection connected with
    ⟨inputs, recieving⟩
  rcases
    recieving.exists_step (topology.name other).2
      ((reliable.genuine node).handed connection)
      (reliable.carries node connection) unfinished with
    ⟨input, reciever, granted, arrives, moved⟩
  rcases (bounded other).exists_free with ⟨block, free⟩
  refine ⟨.recieve node other input block, ?_⟩
  cases brings : enqueued (config.recievers node connection) input with
  | none =>
      refine ⟨config.setReciever node connection input reciever,
        ⟨input, block, rfl⟩, granted, ?_⟩
      simp only [step, connected, if_pos arrives, moved, Option.bind_some,
        brings]
  | some pair =>
      rcases pair with ⟨instruction, given⟩
      rcases granted_of_enqueued granted brings with rfl
      have pending :=
        reliable.pending connected granted arrives moved brings
      have sendable :=
        (reliable.genuine node).handed connection instruction
          (List.mem_of_getElem? pending)
      have fresh :
          Server.Machine.Fresh (config.servers other).heap (some block) ∧
            Server.Machine.HeaderCounts instruction :=
        ⟨fun _ same => Option.some.inj same ▸ free, sendable.headerCounts⟩
      have received :
          Server.Machine.step (config.servers other)
              (.receive instruction block true) =
            some
              (Server.Machine.receiveInstruction (config.servers other)
                instruction block true) := by
        have ready := (reliable.living.healthy other).ready
        have alive : (config.servers other).control = .ready := ready
        simp only [Server.Machine.step, alive, if_pos fresh]
      refine
        ⟨(config.setReciever node connection input reciever).setServer other
            (Server.Machine.receiveInstruction (config.servers other)
              instruction block true),
          ⟨input, block, rfl⟩, granted, ?_⟩
      simp only [step, connected, if_pos arrives, moved, Option.bind_some,
        brings]
      exact congrArg (Option.map _) received

/--
The receiver of one server for another makes a bounded number of steps, is
never stuck before it is done, and is done when everything is delivered.
-/
structure Drains (asserts : Bool) (topology : Topology count)
    (config : Config count) (node other : Fin count)
    (connection : PSocket) : Prop where
  bounded :
    ∀ actions final,
      Along (step asserts topology)
          (fun state action =>
            Careful state action ∧ Recieves node other action)
          config actions →
        run (step asserts topology) config actions = some final →
          actions.length ≤ work config node connection
  progress :
    ∀ actions final,
      Along (step asserts topology)
          (fun state action =>
            Careful state action ∧ Recieves node other action)
          config actions →
        run (step asserts topology) config actions = some final →
          ¬ Drained (final.recievers node connection)
              (final.taken node connection)
              (final.wire node connection) →
            ∃ action next,
              Recieves node other action ∧ Careful final action ∧
                step asserts topology final action = some next
  complete :
    ∀ actions final,
      Along (step asserts topology)
          (fun state action =>
            Careful state action ∧ Recieves node other action)
          config actions →
        run (step asserts topology) config actions = some final →
          Drained (final.recievers node connection)
              (final.taken node connection)
              (final.wire node connection) →
            config.sending node = [] →
              (final.recievers node connection).control = .stopped ∨
                (final.recievers node connection).queue =
                  (config.servers node).handed connection

/--
In every state of every careful run, every receiver can be left to finish its
work.
-/
theorem drains_of_careful
    {actions : List (Action count)} {node other : Fin count}
    {connection : PSocket}
    (careful :
      Along (step asserts topology) Careful (started topology) actions)
    (ran :
      run (step asserts topology) (started topology) actions = some config)
    (connected : topology.connection node other = some connection) :
    Drains asserts topology config node other connection := by
  have reliable := (reliable_of_run careful ran).1
  have bounded := allBounded_of_run ran
  have kept {labels : List (Action count)} {final : Config count}
      (along :
        Along (step asserts topology)
          (fun state action =>
            Careful state action ∧ Recieves node other action)
          config labels)
      (finished :
        run (step asserts topology) config labels = some final) :=
    length_add_le_of_decreasing
      (fun state : Config count =>
        Reliable asserts topology state ∧ AllBounded state ∧
          state.wire = config.wire ∧ state.sending = config.sending ∧
            ∀ place,
              (state.servers node).handed place =
                (config.servers node).handed place)
      (fun state => work state node connection)
      (fun state action next holds admitted stepped =>
        have frame :=
          frame_of_recieves connected admitted.2 stepped
        ⟨⟨reliable_of_step holds.1 admitted.1 stepped,
            allBounded_of_step holds.2.1 stepped,
            frame.1.trans holds.2.2.1, frame.2.1.trans holds.2.2.2.1,
            fun place =>
              (frame.2.2 place).trans (holds.2.2.2.2 place)⟩,
          work_lt_of_recieves holds.1 connected admitted.2 admitted.1
            stepped⟩)
      ⟨reliable, bounded, rfl, rfl, fun _ => rfl⟩ along finished
  constructor
  case bounded =>
    intro labels final along finished
    have spent := (kept along finished).2
    omega
  case progress =>
    intro labels final along finished unfinished
    rcases (kept along finished).1 with ⟨trusted, free, -⟩
    exact exists_step_of_not_drained trusted free connected unfinished
  case complete =>
    intro labels final along finished drained idle
    rcases (kept along finished).1 with ⟨trusted, -, -, sending, handed⟩
    rcases drained with stopped | ⟨used, awaits⟩
    · exact Or.inl stopped
    · have everything :=
        trusted.queue_eq connected (sending ▸ idle) used awaits
      exact Or.inr (everything.trans (handed connection))

/-- The receiver of the parent, in the middle of an instruction. -/
theorem drains_inParts :
    ∃ config,
      run (step true pairTopology) (started pairTopology)
          (arrivesInParts.take 8) =
          some config ∧
        Drains true pairTopology config child root 7 := by
  rcases Option.isSome_iff_exists.mp
    (show
      (run (step true pairTopology) (started pairTopology)
        (arrivesInParts.take 8)).isSome by decide +kernel) with
    ⟨config, ran⟩
  have careful :
      Along (step true pairTopology) Careful (started pairTopology)
        (arrivesInParts.take 8) := by
    decide +kernel
  exact
    ⟨config, ran, drains_of_careful careful ran (by decide +kernel)⟩

end Wimp.Network.Wire
