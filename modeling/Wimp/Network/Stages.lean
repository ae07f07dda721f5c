import Wimp.Lib.Relay
import Wimp.Network.Machine

/-!
# The network as a relay

An instruction on its way is in the outgoing queue of a server, on a link, in
the incoming queue of a server, or at one of the places where its way ends:
among the instructions which a server has consumed or dropped.  Each step of
the network lets an instruction enter the relay of these stages, or passes
the front of one stage on to the next one.
-/

namespace Wimp.Network.Stages

open Wimp.Lib.ByteRegion
open Wimp.Lib.Relay
open Wimp.Instr.Codec
open Wimp.ProcessTable
open Wimp.Reciever.Machine (wimpRecieverPing)
open Wimp.Server.Machine (sendTarget Address)
open Wimp.Server.Queues
open Wimp.Network.Machine

variable {count : Nat}

/-- The stages of an instruction on its way. -/
inductive Stage (count : Nat) where
  | outgoing (node : Fin count)
  | link (node other : Fin count)
  | incoming (node : Fin count)
  | consumed (node : Fin count)
  | dropped (node : Fin count)
deriving DecidableEq, Repr

/-- The name which an instruction is addressed to. -/
def destination (instruction : Bytes) : Bytes :=
  (destOf instruction).getD []

/-- Where the front of a stage goes. -/
def onward (topology : Topology count) :
    Stage count → Bytes → Option (Stage count)
  | .outgoing node, instruction =>
      match topology.hop node (destination instruction) with
      | none => some (.dropped node)
      | some other => some (.link node other)
  | .link _ other, _ => some (.incoming other)
  | .incoming node, instruction =>
      if destination instruction = (topology.name node).val then
        some (.consumed node)
      else some (.outgoing node)
  | .consumed _, _ => none
  | .dropped _, _ => none

/-- What an action means for the relay. -/
def eventOf (topology : Topology count) :
    Action count → Event (Stage count) Bytes
  | .add node dest instr args _ _ =>
      .enter (.outgoing node)
        (instrBytes (topology.name node).val dest instr args)
  | .read node => .pass (.incoming node)
  | .send node _ _ => .pass (.outgoing node)
  | .deliver node other _ _ => .pass (.link node other)

/--
The actions which move instructions in order: an instruction is added for
another process, its size fits its header and is not taken for a ping, and
every allocation succeeds.
-/
def Orderly (config : Config count) : Action count → Prop
  | .add node dest instr args block granted =>
      Server.Queues.Orderly (config.servers node)
          (.add dest instr args block granted) ∧
        totalBytes (config.servers node).server.processName dest instr
            args ≠
          wimpRecieverPing
  | .read _ => True
  | .send _ _ _ => True
  | .deliver _ _ _ granted => granted = true

instance (config : Config count) (action : Action count) :
    Decidable (Orderly config action) :=
  match action with
  | .add .. =>
      inferInstanceAs (Decidable ((_ ∧ _ ∧ _ ∧ _) ∧ _))
  | .read .. => inferInstanceAs (Decidable True)
  | .send .. => inferInstanceAs (Decidable True)
  | .deliver .. => inferInstanceAs (Decidable (_ = _))

/-! ## What the network keeps -/

/-- Sound servers in their places, and links which know what they carry. -/
structure Well (topology : Topology count) (config : Config count) :
    Prop where
  sound : ∀ node, Sound (config.servers node)
  placed :
    ∀ node,
      SameServer (Server.Machine.started (topology.server node))
        (config.servers node)
  inside :
    ∀ node connection,
      config.delivered node connection ≤
        ((config.servers node).handed connection).length

/--
What a relay shows of a server: its queues, its links as far as they have
been delivered, and its records.
-/
structure Shows (topology : Topology count)
    (relay : Queues (Stage count) Bytes) (node : Fin count) (seen : View)
    (delivered : PSocket → Nat) (dropped added : List Bytes) : Prop where
  outgoing : relay.queue (.outgoing node) = seen.outgoing
  incoming : relay.queue (.incoming node) = seen.incoming
  carried :
    ∀ other connection, topology.connection node other = some connection →
      relay.queue (.link node other) =
        (seen.handed connection).drop (delivered connection)
  handed :
    ∀ other connection, topology.connection node other = some connection →
      relay.history (.link node other) = seen.handed connection
  consumed : relay.history (.consumed node) = seen.consumed
  dropped : relay.history (.dropped node) = dropped
  added : relay.entered (.outgoing node) = added

/-- The relay of a configuration. -/
def Tracks (topology : Topology count) (config : Config count)
    (relay : Queues (Stage count) Bytes) : Prop :=
  ∀ node,
    Shows topology relay node (view (config.servers node))
      (config.delivered node) (config.dropped node) (config.added node)

/-- The server which has a stage. -/
def Stage.server : Stage count → Fin count
  | .outgoing node => node
  | .link node _ => node
  | .incoming node => node
  | .consumed node => node
  | .dropped node => node

variable {topology : Topology count} {config next : Config count}

theorem well_started : Well topology topology.started where
  sound node := sound_started (topology.server node)
  placed _ := SameServer.refl _
  inside _ _ := Nat.zero_le _

theorem tracks_started :
    Tracks topology topology.started Queues.empty := by
  intro node
  constructor
  all_goals first | rfl | exact fun _ _ _ => rfl

/-! ## Steps -/

/-- No step of a server takes back what has been handed to a link. -/
theorem handed_setServer
    {node : Fin count} {server : Server.Machine.Config}
    {action : Server.Machine.Action}
    (moved : ViewStep (config.servers node) action server)
    (other : Fin count) (connection : PSocket) :
    (config.servers other).handed connection <+:
      ((config.setServer node server).servers other).handed connection := by
  by_cases same : other = node
  · subst same
    simp only [Config.setServer, Function.update_self]
    exact handed_of_viewStep moved connection
  · simp only [Config.setServer, Function.update_of_ne same]
    exact List.prefix_rfl

/-- A step of one server leaves every server sound and in its place. -/
theorem Well.setServer
    (well : Well topology config) {node : Fin count}
    {server : Server.Machine.Config} {action : Server.Machine.Action}
    (orderly : Server.Queues.Orderly (config.servers node) action)
    (passes :
      ∀ results granted, action = .send results granted →
        server.control ≠ .blocked)
    (stepped :
      Server.Machine.step (config.servers node) action = some server) :
    Well topology (config.setServer node server) := by
  have moved :=
    viewStep_of_step (well.sound node) orderly passes stepped
  constructor
  case sound =>
    intro other
    by_cases same : other = node
    · subst same
      simp only [Config.setServer, Function.update_self]
      exact sound_of_step (well.sound other) orderly passes stepped
    · simp only [Config.setServer, Function.update_of_ne same]
      exact well.sound other
  case placed =>
    intro other
    by_cases same : other = node
    · subst same
      simp only [Config.setServer, Function.update_self]
      exact (well.placed other).trans (sameServer_of_step orderly stepped)
    · simp only [Config.setServer, Function.update_of_ne same]
      exact well.placed other
  case inside =>
    intro other connection
    exact (well.inside other connection).trans
      (handed_setServer moved other connection).length_le

/-- An orderly step of the network keeps it well. -/
theorem well_of_step
    {action : Action count} (well : Well topology config)
    (orderly : Orderly config action)
    (stepped : step topology config action = some next) :
    Well topology next := by
  cases step_cases stepped with
  | added node dest instr args block granted server moved =>
      have after := well.setServer orderly.1 (by simp) moved
      exact ⟨after.sound, after.placed, after.inside⟩
  | read node server moved =>
      have runs : Server.Queues.Orderly (config.servers node) .read :=
        trivial
      exact well.setServer runs (by simp) moved
  | sent node results granted server clean moved passes =>
      have runs :
          Server.Queues.Orderly (config.servers node)
            (.send results granted) :=
        clean
      have after := well.setServer runs (fun _ _ _ => passes) moved
      exact ⟨after.sound, after.placed, after.inside⟩
  | delivered node other block granted connection item server connected
      pending moved =>
      have runs :
          Server.Queues.Orderly (config.servers other)
            (.receive item block granted) :=
        orderly
      have after := well.setServer runs (by simp) moved
      have grows :=
        handed_setServer
          (viewStep_of_step (well.sound other) runs (by simp) moved)
      refine ⟨after.sound, after.placed, ?_⟩
      intro first place
      by_cases here : first = node
      · subst here
        by_cases there : place = connection
        · -- the delivered item was there
          subst there
          rcases List.getElem?_eq_some_iff.mp pending with ⟨inside, -⟩
          simp only [Function.update_self]
          exact inside.trans_le (grows first place).length_le
        · simp only [Function.update_self, Function.update_of_ne there]
          exact after.inside first place
      · simp only [Function.update_of_ne here]
        exact after.inside first place

/-! ## Steps as events -/

variable {relay : Queues (Stage count) Bytes} {node : Fin count}
variable {seen : View} {delivered : PSocket → Nat}
variable {dropped added : List Bytes}

/-- What happens at the stages of one server is not seen at the others. -/
theorem Shows.congr
    {after : Queues (Stage count) Bytes}
    (shown : Shows topology relay node seen delivered dropped added)
    (queue :
      ∀ stage : Stage count, stage.server = node →
        after.queue stage = relay.queue stage)
    (history :
      ∀ stage : Stage count, stage.server = node →
        after.history stage = relay.history stage)
    (entered :
      after.entered (.outgoing node) = relay.entered (.outgoing node)) :
    Shows topology after node seen delivered dropped added where
  outgoing := (queue _ rfl).trans shown.outgoing
  incoming := (queue _ rfl).trans shown.incoming
  carried other connection connected :=
    (queue _ rfl).trans (shown.carried other connection connected)
  handed other connection connected :=
    (history _ rfl).trans (shown.handed other connection connected)
  consumed := (history _ rfl).trans shown.consumed
  dropped := (history _ rfl).trans shown.dropped
  added := entered.trans shown.added

theorem Shows.put_of_ne
    (shown : Shows topology relay node seen delivered dropped added)
    {stage : Stage count} (apart : stage.server ≠ node)
    (instruction : Bytes) :
    Shows topology (put relay stage instruction) node seen delivered dropped
      added := by
  have other (place : Stage count) (here : place.server = node) :
      place ≠ stage := by
    rintro rfl
    exact apart here
  apply shown.congr
  · intro place here
    simp [put, other place here]
  · intro place here
    simp [put, other place here]
  · rfl

/-- An instruction enters elsewhere. -/
theorem Shows.enter_of_ne
    (shown : Shows topology relay node seen delivered dropped added)
    {entry : Fin count} (apart : entry ≠ node) (instruction : Bytes) :
    Shows topology
      (act (onward topology) relay (.enter (.outgoing entry) instruction))
      node seen delivered dropped added := by
  have elsewhere : (Stage.outgoing entry).server ≠ node := apart
  have after := shown.put_of_ne elsewhere instruction
  apply after.congr
  · exact fun _ _ => rfl
  · exact fun _ _ => rfl
  · simp [act, put, apart.symm]

theorem Shows.take_of_ne
    (shown : Shows topology relay node seen delivered dropped added)
    {stage : Stage count} (apart : stage.server ≠ node)
    (rest : List Bytes) :
    Shows topology (take relay stage rest) node seen delivered dropped
      added := by
  apply shown.congr
  · intro place here
    have other : place ≠ stage := by
      rintro rfl
      exact apart here
    simp [take, other]
  · exact fun _ _ => rfl
  · rfl

/-- An instruction enters the outgoing queue. -/
theorem Shows.enter
    (shown : Shows topology relay node seen delivered dropped added)
    (instruction : Bytes) :
    Shows topology
      (act (onward topology) relay (.enter (.outgoing node) instruction))
      node { seen with outgoing := seen.outgoing ++ [instruction] }
      delivered dropped (added ++ [instruction]) where
  outgoing := by simp [act, put, shown.outgoing]
  incoming := by simp [act, put, shown.incoming]
  carried other connection connected := by
    simp [act, put, shown.carried other connection connected]
  handed other connection connected := by
    simp [act, put, shown.handed other connection connected]
  consumed := by simp [act, put, shown.consumed]
  dropped := by simp [act, put, shown.dropped]
  added := by simp [act, shown.added]

/-- An instruction is routed from the incoming to the outgoing queue. -/
theorem Shows.route
    (shown : Shows topology relay node seen delivered dropped added)
    (instruction : Bytes) (rest : List Bytes) :
    Shows topology
      (put (take relay (.incoming node) rest) (.outgoing node) instruction)
      node
      { seen with
        incoming := rest, outgoing := seen.outgoing ++ [instruction] }
      delivered dropped added where
  outgoing := by simp [put, take, shown.outgoing]
  incoming := by simp [put, take]
  carried other connection connected := by
    simp [put, take, shown.carried other connection connected]
  handed other connection connected := by
    simp [put, take, shown.handed other connection connected]
  consumed := by simp [put, take, shown.consumed]
  dropped := by simp [put, take, shown.dropped]
  added := shown.added

/-- An instruction is consumed. -/
theorem Shows.consume
    (shown : Shows topology relay node seen delivered dropped added)
    (instruction : Bytes) (rest : List Bytes) :
    Shows topology
      (put (take relay (.incoming node) rest) (.consumed node) instruction)
      node
      { seen with
        incoming := rest, consumed := seen.consumed ++ [instruction] }
      delivered dropped added where
  outgoing := by simp [put, take, shown.outgoing]
  incoming := by simp [put, take]
  carried other connection connected := by
    simp [put, take, shown.carried other connection connected]
  handed other connection connected := by
    simp [put, take, shown.handed other connection connected]
  consumed := by simp [put, take, shown.consumed]
  dropped := by simp [put, take, shown.dropped]
  added := shown.added

/-- An instruction is dropped. -/
theorem Shows.drop
    (shown : Shows topology relay node seen delivered dropped added)
    (instruction : Bytes) (rest : List Bytes) :
    Shows topology
      (put (take relay (.outgoing node) rest) (.dropped node) instruction)
      node { seen with outgoing := rest } delivered
      (dropped ++ [instruction]) added where
  outgoing := by simp [put, take]
  incoming := by simp [put, take, shown.incoming]
  carried other connection connected := by
    simp [put, take, shown.carried other connection connected]
  handed other connection connected := by
    simp [put, take, shown.handed other connection connected]
  consumed := by simp [put, take, shown.consumed]
  dropped := by simp [put, take, shown.dropped]
  added := shown.added

/-- An instruction is handed to a link. -/
theorem Shows.transmit
    (shown : Shows topology relay node seen delivered dropped added)
    {other : Fin count} {connection : PSocket}
    (connected : topology.connection node other = some connection)
    (inside : delivered connection ≤ (seen.handed connection).length)
    (instruction : Bytes) (rest : List Bytes) :
    Shows topology
      (put (take relay (.outgoing node) rest) (.link node other)
        instruction)
      node
      { seen with
        outgoing := rest
        handed :=
          Function.update seen.handed connection
            (seen.handed connection ++ [instruction]) }
      delivered dropped added where
  outgoing := by simp [put, take]
  incoming := by simp [put, take, shown.incoming]
  carried third place leads := by
    by_cases same : third = other
    · subst same
      cases leads.symm.trans connected
      simp [put, take, shown.carried third connection connected,
        List.drop_append_of_le_length inside]
    · have apart : place ≠ connection := by
        rintro rfl
        exact same (connection_injective topology leads connected)
      simp [put, take, same, apart, shown.carried third place leads]
  handed third place leads := by
    by_cases same : third = other
    · subst same
      cases leads.symm.trans connected
      simp [put, take, shown.handed third connection connected]
    · have apart : place ≠ connection := by
        rintro rfl
        exact same (connection_injective topology leads connected)
      simp [put, take, same, apart, shown.handed third place leads]
  consumed := by simp [put, take, shown.consumed]
  dropped := by simp [put, take, shown.dropped]
  added := shown.added

/-- An instruction leaves a link. -/
theorem Shows.leave
    (shown : Shows topology relay node seen delivered dropped added)
    {other : Fin count} {connection : PSocket}
    (connected : topology.connection node other = some connection) :
    Shows topology
      (take relay (.link node other)
        ((seen.handed connection).drop (delivered connection + 1)))
      node seen
      (Function.update delivered connection (delivered connection + 1))
      dropped added where
  outgoing := by simp [take, shown.outgoing]
  incoming := by simp [take, shown.incoming]
  carried third place leads := by
    by_cases same : third = other
    · subst same
      cases leads.symm.trans connected
      simp [take]
    · have apart : place ≠ connection := by
        rintro rfl
        exact same (connection_injective topology leads connected)
      simp [take, same, apart, shown.carried third place leads]
  handed := shown.handed
  consumed := shown.consumed
  dropped := shown.dropped
  added := shown.added

/-- An instruction arrives at a server. -/
theorem Shows.arrive
    (shown : Shows topology relay node seen delivered dropped added)
    (instruction : Bytes) :
    Shows topology (put relay (.incoming node) instruction) node
      { seen with incoming := seen.incoming ++ [instruction] } delivered
      dropped added where
  outgoing := by simp [put, shown.outgoing]
  incoming := by simp [put, shown.incoming]
  carried other connection connected := by
    simp [put, shown.carried other connection connected]
  handed other connection connected := by
    simp [put, shown.handed other connection connected]
  consumed := by simp [put, shown.consumed]
  dropped := by simp [put, shown.dropped]
  added := shown.added

/-! ## Tracking the network -/

/-- A change at one server, followed by the relay. -/
theorem tracks_setServer
    {after : Queues (Stage count) Bytes} {server : Server.Machine.Config}
    (own :
      Shows topology after node (view server) (config.delivered node) dropped
        added)
    (elsewhere :
      ∀ other ≠ node,
        Shows topology after other (view (config.servers other))
          (config.delivered other) (config.dropped other)
          (config.added other)) :
    Tracks topology
      { config.setServer node server with
        dropped := Function.update config.dropped node dropped
        added := Function.update config.added node added }
      after := by
  intro other
  by_cases same : other = node
  · subst same
    simpa only [Config.setServer, Function.update_self] using own
  · simpa only [Config.setServer, Function.update_of_ne same] using
      elsewhere other same

/-- A change inside a server is not seen elsewhere. -/
theorem Tracks.elsewhere
    (tracks : Tracks topology config relay) (stage following : Stage count)
    (leaves : stage.server = node) (joins : following.server = node)
    (instruction : Bytes) (rest : List Bytes) (other : Fin count)
    (apart : other ≠ node) :
    Shows topology (put (take relay stage rest) following instruction) other
      (view (config.servers other)) (config.delivered other)
      (config.dropped other) (config.added other) := by
  have left : stage.server ≠ other := fun same => apart (same ▸ leaves)
  have joined : following.server ≠ other := fun same => apart (same ▸ joins)
  exact ((tracks other).take_of_ne left rest).put_of_ne joined instruction

/-- A read instruction is consumed or routed, unless the server dies. -/
theorem tracks_read
    (well : Well topology config) (tracks : Tracks topology config relay)
    {server : Server.Machine.Config}
    (moved : ViewStep (config.servers node) .read server) :
    Tracks topology (config.setServer node server)
        (act (onward topology) relay (.pass (.incoming node))) ∨
      Tracks topology (config.setServer node server) relay ∧
        ∃ fault, server.control = .fault fault := by
  have own := tracks node
  have named : (config.servers node).server.processName =
      topology.name node := (well.placed node).name
  have same : config.setServer node server =
      { config.setServer node server with
        dropped :=
          Function.update config.dropped node (config.dropped node)
        added := Function.update config.added node (config.added node) } := by
    simp [Config.setServer]
  rw [same]
  cases moved with
  | readNothing empty =>
      left
      rw [act_pass_of_empty (own.incoming.trans empty)]
      apply tracks_setServer own
      exact fun other _ => tracks other
  | routed buffer dest rest server front destined foreign moved =>
      left
      have leads :
          onward topology (.incoming node) buffer =
            some (.outgoing node) := by
        rw [named] at foreign
        rw [onward, destination, destined, Option.getD_some,
          if_neg foreign]
      rw [act_pass (own.incoming.trans front) leads]
      apply tracks_setServer
      · rw [moved]
        exact own.route buffer rest
      · exact tracks.elsewhere (.incoming node) (.outgoing node) rfl rfl
          buffer rest
  | consumed buffer rest server front destined moved =>
      left
      have leads :
          onward topology (.incoming node) buffer =
            some (.consumed node) := by
        rw [named] at destined
        rw [onward, destination, destined, Option.getD_some, if_pos rfl]
      rw [act_pass (own.incoming.trans front) leads]
      apply tracks_setServer
      · rw [moved]
        exact own.consume buffer rest
      · exact tracks.elsewhere (.incoming node) (.consumed node) rfl rfl
          buffer rest
  | stoppedRead fault server control kept =>
      right
      refine ⟨?_, fault, control⟩
      apply tracks_setServer
      · rw [kept]
        exact own
      · exact fun other _ => tracks other

/--
A sent instruction is dropped or handed to the link of its hop, unless the
server dies.
-/
theorem tracks_send
    (well : Well topology config) (tracks : Tracks topology config relay)
    {server : Server.Machine.Config} {results : List Int} {granted : Bool}
    (moved :
      ViewStep (config.servers node) (.send results granted) server) :
    let after :=
      { config.setServer node server with
        dropped :=
          Function.update config.dropped node
            (config.dropped node ++ lost (config.servers node)) }
    Tracks topology after
        (act (onward topology) relay (.pass (.outgoing node))) ∨
      Tracks topology after relay ∧
        ∃ fault, server.control = .fault fault := by
  intro after
  have own := tracks node
  have target (dest : Bytes) :
      sendTarget (config.servers node).server dest =
        sendTarget (topology.server node) dest :=
    (well.placed node).sendTarget_eq dest
  have same : after =
      { config.setServer node server with
        dropped :=
          Function.update config.dropped node
            (config.dropped node ++ lost (config.servers node))
        added := Function.update config.added node (config.added node) } := by
    simp [after, Config.setServer]
  rw [same]
  cases moved with
  | sendNothing granted empty kept =>
      left
      rw [act_pass_of_empty (own.outgoing.trans empty), kept,
        List.append_nil]
      apply tracks_setServer own
      exact fun other _ => tracks other
  | dropped buffer dest rest results granted server front destined foreign
      unreachable gone moved =>
      left
      have leads :
          onward topology (.outgoing node) buffer =
            some (.dropped node) := by
        rw [onward, destination, destined, Option.getD_some]
        cases hops : topology.hop node dest with
        | none => rfl
        | some other =>
            -- the connection of a hop is active
            rcases exists_target_of_hop topology hops with
              ⟨data, found, leadsTo⟩
            rw [target] at unreachable
            have inactive := unreachable data found
            rw [leadsTo.active] at inactive
            exact absurd inactive.symm Bool.false_ne_true
      rw [act_pass (own.outgoing.trans front) leads, gone]
      apply tracks_setServer
      · rw [moved]
        exact own.drop buffer rest
      · exact tracks.elsewhere (.outgoing node) (.dropped node) rfl rfl
          buffer rest
  | transmitted buffer dest rest results granted data server front destined
      foreign sends active kept moved =>
      left
      rw [target] at sends
      cases hops : topology.hop node dest with
      | none =>
          rw [target_none_of_hop topology hops] at sends
          cases sends
      | some other =>
          rcases exists_target_of_hop topology hops with
            ⟨data, found, leadsTo⟩
          cases found.symm.trans sends
          have leads :
              onward topology (.outgoing node) buffer =
                some (.link node other) := by
            rw [onward, destination, destined, Option.getD_some, hops]
          rw [act_pass (own.outgoing.trans front) leads, kept,
            List.append_nil]
          apply tracks_setServer
          · rw [moved]
            exact own.transmit leadsTo.connected
              (well.inside node data.processConnection) buffer rest
          · exact tracks.elsewhere (.outgoing node) (.link node other) rfl
              rfl buffer rest
  | stoppedSend results granted fault server control kept same =>
      right
      refine ⟨?_, fault, control⟩
      rw [kept, List.append_nil]
      apply tracks_setServer
      · rw [same]
        exact own
      · exact fun other _ => tracks other

/-- A delivered instruction leaves its link and arrives. -/
theorem tracks_deliver
    (tracks : Tracks topology config relay)
    {other : Fin count} {connection : PSocket} {item : Bytes}
    {server : Server.Machine.Config} {block : Address} {granted : Bool}
    (connected : topology.connection node other = some connection)
    (pending :
      ((config.servers node).handed connection)[
        config.delivered node connection]? = some item)
    (moved :
      ViewStep (config.servers other) (.receive item block granted)
        server) :
    Tracks topology
      { config.setServer other server with
        delivered :=
          Function.update config.delivered node
            (Function.update (config.delivered node) connection
              (config.delivered node connection + 1)) }
      (act (onward topology) relay (.pass (.link node other))) := by
  have front :
      relay.queue (.link node other) =
        item ::
          ((view (config.servers node)).handed connection).drop
            (config.delivered node connection + 1) := by
    rw [(tracks node).carried other connection connected]
    rcases List.getElem?_eq_some_iff.mp pending with ⟨inside, here⟩
    rw [← here]
    exact List.drop_eq_getElem_cons inside
  rw [act_pass front rfl]
  have left :
      Tracks topology
        { config with
          delivered :=
            Function.update config.delivered node
              (Function.update (config.delivered node) connection
                (config.delivered node connection + 1)) }
        (take relay (.link node other)
          (((view (config.servers node)).handed connection).drop
            (config.delivered node connection + 1))) := by
    intro third
    by_cases same : third = node
    · subst same
      simpa only [Function.update_self] using
        (tracks third).leave connected
    · simp only [Function.update_of_ne same]
      apply (tracks third).take_of_ne
      exact fun here => same here.symm
  cases moved with
  | received _ _ server moved =>
      intro third
      by_cases same : third = other
      · subst same
        simp only [Config.setServer, Function.update_self]
        rw [moved]
        exact (left third).arrive item
      · simp only [Config.setServer, Function.update_of_ne same]
        apply (left third).put_of_ne
        exact fun here => same here.symm

/--
An orderly step of the network is an event of its relay, unless a server
dies in it.
-/
theorem exists_event_of_step
    {action : Action count} (well : Well topology config)
    (tracks : Tracks topology config relay)
    (orderly : Orderly config action)
    (stepped : step topology config action = some next) :
    Tracks topology next
        (act (onward topology) relay (eventOf topology action)) ∨
      Tracks topology next relay ∧
        ∃ node fault, (next.servers node).control = .fault fault := by
  cases step_cases stepped with
  | added node dest instr args block granted server moved =>
      left
      have seen :=
        viewStep_of_step (well.sound node) orderly.1 (by simp) moved
      cases seen with
      | added _ _ _ _ server moved =>
          have same : config.dropped =
              Function.update config.dropped node (config.dropped node) := by
            simp
          rw [Config.setServer, same]
          apply tracks_setServer
          · rw [moved, (well.placed node).name]
            exact (tracks node).enter _
          · intro other apart
            exact (tracks other).enter_of_ne apart.symm _
  | read node server moved =>
      have runs : Server.Queues.Orderly (config.servers node) .read :=
        trivial
      rcases tracks_read well tracks
        (viewStep_of_step (well.sound node) runs (by simp) moved) with
        passed | ⟨stays, fault, dead⟩
      · exact Or.inl passed
      · refine Or.inr ⟨stays, node, fault, ?_⟩
        simpa only [Config.setServer, Function.update_self] using dead
  | sent node results granted server clean moved passes =>
      have runs :
          Server.Queues.Orderly (config.servers node)
            (.send results granted) :=
        clean
      rcases tracks_send well tracks
        (viewStep_of_step (well.sound node) runs (fun _ _ _ => passes)
          moved) with
        passed | ⟨stays, fault, dead⟩
      · exact Or.inl passed
      · refine Or.inr ⟨stays, node, fault, ?_⟩
        simpa only [Config.setServer, Function.update_self] using dead
  | delivered node other block granted connection item server connected
      pending moved =>
      left
      have runs :
          Server.Queues.Orderly (config.servers other)
            (.receive item block granted) :=
        orderly
      exact tracks_deliver tracks connected pending
        (viewStep_of_step (well.sound other) runs (by simp) moved)

end Wimp.Network.Stages
