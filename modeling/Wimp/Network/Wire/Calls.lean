import Mathlib.Data.List.Forall2
import Wimp.Network.Wire.Arrival

/-!
# What the callers see

A caller hands a destination, a name and arguments to `wimp_server_add`, and a
caller at the destination decodes what it consumes with
`wimp_instr_get_from_node`.  Through all the writing, cutting, framing and
routing in between the decoded instructions are, in order, those of the calls.
-/

namespace Wimp.Network.Wire

open Wimp.Lib.ByteRegion
open Wimp.Lib.Runs
open Wimp.Lib.Simulation
open Wimp.Instr.Codec
open Wimp.Instr.RoundTrip
open Wimp.ProcessTable
open Wimp.Reciever.Delivery (Deliverable)
open Wimp.Server.Queues
open Wimp.Server.Health (brought handed_cases)
open Wimp.Network.Machine (Topology child root pairTopology)
open Wimp.Network.Routes (fromTo fromTo_instrBytes)
open Wimp.Network.Order

variable {count : Nat} {asserts : Bool} {topology : Topology count}
variable {config next : Config count}

/-- What a caller hands to `wimp_server_add`. -/
structure Call where
  dest : CString
  instr : CString
  args : Bytes
deriving DecidableEq, Repr

/-- The instruction of a call at a server. -/
def Call.instruction (source : CString) (call : Call) : Instruction :=
  { source := source.val
    dest := call.dest.val
    instr := call.instr.val
    args := call.args }

/-- The call of an action at a server. -/
def callOf (source : Fin count) : Action count → Option Call
  | .add node dest instr args _ _ =>
      if node = source then some { dest, instr, args } else none
  | _ => none

/-- The calls at a server, in their order. -/
def calls (source : Fin count) (actions : List (Action count)) : List Call :=
  actions.filterMap (callOf source)

/-- The calls at a server for one process. -/
def callsFor (source : Fin count) (dest : CString)
    (actions : List (Action count)) : List Call :=
  (calls source actions).filter fun call => call.dest = dest

/-- The reader finds the names and the arguments of a call in a node. -/
def Decodes (source : CString) (call : Call) (instruction : Bytes) : Prop :=
  ∃ result,
    wimpInstrGetFromNode instruction = some result ∧
      Denotes instruction result source.val call.dest.val call.instr.val
        call.args

/-! ## Calls and added instructions -/

/-- What careful calls have added to the outgoing queues. -/
structure Added (topology : Topology count) (config : Config count)
    (actions : List (Action count)) : Prop where
  bytes :
    ∀ source,
      config.added source =
        (calls source actions).map fun call =>
          (call.instruction (topology.name source)).bytes
  deliverable :
    ∀ source, ∀ call ∈ calls source actions,
      Deliverable (.instr (call.instruction (topology.name source)))

/-- Only additions are calls. -/
theorem added_of_step
    {action : Action count}
    (stepped : step asserts topology config action = some next)
    (source : Fin count) :
    next.added source =
      config.added source ++
        (callOf source action).toList.map fun call =>
          (call.instruction (topology.name source)).bytes := by
  cases step_cases stepped with
  | added node dest instr args block granted server idle moved =>
      by_cases here : node = source
      · subst here
        simp [callOf, Call.instruction, Instruction.bytes]
      · simp [callOf, here, Ne.symm here]
  | read node server idle moved => simp [callOf, Config.setServer]
  | begun node sendres granted server clean moved blocked => simp [callOf]
  | sent node sendres granted server clean moved passes =>
      simp [callOf, Config.setServer]
  | recieved node other input block connection reciever connected arrives
      moved nothing =>
      simp [callOf, Config.setReciever]
  | enqueued node other input block connection reciever instruction granted
      server connected arrives moved something last =>
      simp [callOf, Config.setReciever, Config.setServer]

/-- A server keeps its name. -/
theorem Reliable.processName
    (reliable : Reliable asserts topology config) (node : Fin count) :
    (config.servers node).server.processName = topology.name node :=
  (reliable.living.well.placed node).name

/-- A careful call can be framed and decoded. -/
theorem deliverable_of_callOf
    (reliable : Reliable asserts topology config) {action : Action count}
    (careful : Careful config action) {source : Fin count} {call : Call}
    (calls : callOf source action = some call) :
    Deliverable (.instr (call.instruction (topology.name source))) := by
  cases action with
  | add node dest instr args block granted =>
      simp only [callOf] at calls
      split at calls
      case isFalse => cases calls
      case isTrue here =>
        cases calls
        rw [← here, ← reliable.processName node]
        exact careful.2.2.2
  | read node => cases calls
  | send node sendres granted => cases calls
  | recieve node other input block => cases calls

theorem added_of_careful
    {actions : List (Action count)}
    (careful :
      Along (step asserts topology) Careful (started topology) actions)
    (ran :
      run (step asserts topology) (started topology) actions =
        some config) :
    Added topology config actions := by
  refine
    (run_induction_along
      (motive := fun actions config =>
        Reliable asserts topology config ∧ Added topology config actions)
      ⟨reliable_started, fun _ => rfl, nofun⟩ ?_ careful ran).2
  rintro actions middle action next ⟨reliable, added⟩ careful stepped
  have more (source : Fin count) :
      calls source (actions ++ [action]) =
        calls source actions ++ (callOf source action).toList := by
    rw [calls, List.filterMap_append]
    cases found : callOf source action <;> simp [found, calls]
  refine ⟨reliable_of_step reliable careful stepped, ?_, ?_⟩
  · intro source
    rw [added_of_step stepped source, more, List.map_append,
      added.bytes source]
  · intro source call member
    rw [more] at member
    rcases List.mem_append.mp member with before | new
    · exact added.deliverable source call before
    · exact
        deliverable_of_callOf reliable careful
          (Option.mem_toList.mp new)

/-- The instruction of a deliverable call is decoded as that call. -/
theorem decodes_of_deliverable
    {source : CString} {call : Call}
    (deliverable : Deliverable (.instr (call.instruction source))) :
    Decodes source call (call.instruction source).bytes := by
  rcases deliverable with
    ⟨sourceFree, destFree, instrFree, readable, small, -⟩
  rcases denotes_of_readable sourceFree destFree instrFree small readable
    with ⟨result, read, -, denotes⟩
  refine ⟨result, ?_, denotes⟩
  rw [wimpInstrGetFromNode, Instruction.length_bytes]
  exact read

/-- The added instructions for a process are those of the calls for it. -/
theorem Added.between_eq
    {actions : List (Action count)}
    (added : Added topology config actions) (source : Fin count)
    (dest : CString) :
    between topology source dest (config.added source) =
      (callsFor source dest actions).map fun call =>
        (call.instruction (topology.name source)).bytes := by
  rw [between, added.bytes source, List.filter_map, callsFor]
  congr 1
  apply List.filter_congr
  intro call _
  have belongs :=
    fromTo_instrBytes (topology.name source) dest (topology.name source)
      call.dest call.instr.val call.args
  have same :
      fromTo (topology.name source) dest
          (call.instruction (topology.name source)).bytes = true ↔
        call.dest = dest :=
    belongs.trans ⟨fun both => both.2, fun same => ⟨rfl, same⟩⟩
  rw [Function.comp_apply, Bool.eq_iff_iff, same, decide_eq_true_iff]

/-! ## Nothing is invented -/

/-- An instruction is in a place of a server or handed to a connection. -/
def Holds (server : Server.Machine.Config) (bytes : Bytes) : Prop :=
  bytes ∈
      (view server).incoming ++ (view server).outgoing ++
        (view server).consumed ∨
    ∃ connection, bytes ∈ server.handed connection

/-- What a server holds behind a step it held before or was brought. -/
theorem holds_of_viewStep
    {server after : Server.Machine.Config} {action : Server.Machine.Action}
    (moved : ViewStep server action after) {bytes : Bytes}
    (holds : Holds after bytes) :
    Holds server bytes ∨ brought server action = some bytes := by
  rcases holds with member | ⟨connection, member⟩
  · cases moved with
    | added dest instr args block next moved =>
        rw [moved] at member
        simp only [List.mem_append, List.mem_singleton] at member
        by_cases new :
            bytes = instrBytes server.server.processName dest instr args
        · exact .inr (by rw [brought, new])
        · refine .inl (.inl ?_)
          simp only [List.mem_append]
          tauto
    | received instruction block next moved =>
        rw [moved] at member
        simp only [List.mem_append, List.mem_singleton] at member
        by_cases new : bytes = instruction
        · exact .inr (by rw [brought, new])
        · refine .inl (.inl ?_)
          simp only [List.mem_append]
          tauto
    | readNothing empty => exact .inl (.inl member)
    | routed buffer dest rest next front named foreign moved =>
        rw [moved] at member
        refine .inl (.inl ?_)
        simp only [List.mem_append, List.mem_singleton] at member
        simp only [List.mem_append, front, List.mem_cons]
        tauto
    | consumed buffer rest next front named moved =>
        rw [moved] at member
        refine .inl (.inl ?_)
        simp only [List.mem_append, List.mem_singleton] at member
        simp only [List.mem_append, front, List.mem_cons]
        tauto
    | sendNothing granted empty kept => exact .inl (.inl member)
    | dropped buffer dest rest results granted next front named foreign
        unreachable gone moved =>
        rw [moved] at member
        refine .inl (.inl ?_)
        simp only [List.mem_append] at member
        simp only [List.mem_append, front, List.mem_cons]
        tauto
    | transmitted buffer dest rest results granted data next front named
        foreign target active kept moved =>
        rw [moved] at member
        refine .inl (.inl ?_)
        simp only [List.mem_append] at member
        simp only [List.mem_append, front, List.mem_cons]
        tauto
    | stoppedRead fault next control same =>
        rw [same] at member
        exact .inl (.inl member)
    | stoppedSend results granted fault next control kept same =>
        rw [same] at member
        exact .inl (.inl member)
  · left
    rcases handed_cases moved member with before | ⟨waits, -⟩
    · exact .inr ⟨connection, before⟩
    · left
      simp only [List.mem_append]
      exact .inl (.inr waits)

/-- A server only consumes what is addressed to it. -/
theorem consumed_of_viewStep
    {server after : Server.Machine.Config} {action : Server.Machine.Action}
    (moved : ViewStep server action after) {bytes : Bytes}
    (member : bytes ∈ after.consumed) :
    bytes ∈ server.consumed ∨
      destOf bytes = some server.server.processName.val := by
  have member : bytes ∈ (view after).consumed := member
  cases moved with
  | added dest instr args block next moved =>
      rw [moved] at member
      exact .inl member
  | received instruction block next moved =>
      rw [moved] at member
      exact .inl member
  | readNothing empty => exact .inl member
  | routed buffer dest rest next front named foreign moved =>
      rw [moved] at member
      exact .inl member
  | consumed buffer rest next front named moved =>
      rw [moved] at member
      rcases List.mem_append.mp member with before | new
      · exact .inl before
      · rw [List.mem_singleton.mp new]
        exact .inr named
  | sendNothing granted empty kept => exact .inl member
  | dropped buffer dest rest results granted next front named foreign
      unreachable gone moved =>
      rw [moved] at member
      exact .inl member
  | transmitted buffer dest rest results granted data next front named
      foreign target active kept moved =>
      rw [moved] at member
      exact .inl member
  | stoppedRead fault next control same =>
      rw [same] at member
      exact .inl member
  | stoppedSend results granted fault next control kept same =>
      rw [same] at member
      exact .inl member

/-- Every instruction was added, and is consumed where it is addressed to. -/
structure Traced (topology : Topology count)
    (config : Network.Machine.Config count) : Prop where
  held :
    ∀ node bytes, Holds (config.servers node) bytes →
      ∃ source, bytes ∈ config.added source
  addressed :
    ∀ node, ∀ bytes ∈ (config.servers node).consumed,
      destOf bytes = some (topology.name node).val

/-- A step of a server keeps the instructions traced. -/
theorem Traced.setServer
    {state : Network.Machine.Config count}
    (traced : Traced topology state)
    (well : Network.Stages.Well topology state) {node : Fin count}
    {action : Server.Machine.Action} {server : Server.Machine.Config}
    (moved : ViewStep (state.servers node) action server)
    {added : Fin count → List Bytes}
    (grows : ∀ source, state.added source ⊆ added source)
    (brings :
      ∀ bytes, brought (state.servers node) action = some bytes →
        ∃ source, bytes ∈ added source)
    (delivered : Fin count → PSocket → Nat)
    (dropped : Fin count → List Bytes) :
    Traced topology
      { servers := Function.update state.servers node server
        delivered, added, dropped } := by
  constructor
  case held =>
    intro other bytes holds
    have before
        (holds : Holds (state.servers other) bytes) :
        ∃ source, bytes ∈ added source := by
      rcases traced.held other bytes holds with ⟨source, member⟩
      exact ⟨source, grows source member⟩
    by_cases same : other = node
    · subst same
      simp only [Function.update_self] at holds
      rcases holds_of_viewStep moved holds with old | new
      · exact before old
      · exact brings bytes new
    · simp only [Function.update_of_ne same] at holds
      exact before holds
  case addressed =>
    intro other bytes member
    by_cases same : other = node
    · subst same
      simp only [Function.update_self] at member
      rcases consumed_of_viewStep moved member with before | here
      · exact traced.addressed other bytes before
      · rw [here, (well.placed other).name]
        rfl
    · simp only [Function.update_of_ne same] at member
      exact traced.addressed other bytes member

/-- A step of the network of instructions keeps them traced. -/
theorem traced_of_step
    {state after : Network.Machine.Config count}
    {action : Network.Machine.Action count}
    (traced : Traced topology state)
    (well : Network.Stages.Well topology state)
    (orderly : Network.Stages.Orderly state action)
    (stepped : Network.Machine.step topology state action = some after) :
    Traced topology after := by
  cases Network.Machine.step_cases stepped with
  | added node dest instr args block granted server moved =>
      have name :
          (state.servers node).server.processName = topology.name node :=
        (well.placed node).name
      apply
        traced.setServer well
          (viewStep_of_step (well.sound node) orderly.1 (by simp) moved)
      · intro source
        by_cases same : source = node
        · subst same
          simp only [Function.update_self]
          exact List.subset_append_left _ _
        · simp only [Function.update_of_ne same]
          exact List.Subset.refl _
      · intro bytes brings
        refine ⟨node, ?_⟩
        rw [brought, Option.some.injEq, name] at brings
        simp only [Function.update_self, ← brings]
        exact List.mem_append_right _ (List.mem_singleton_self _)
  | read node server moved =>
      have runs :
          Server.Queues.Orderly (state.servers node) .read :=
        trivial
      exact
        traced.setServer well
          (viewStep_of_step (well.sound node) runs (by simp) moved)
          (fun _ => List.Subset.refl _) nofun _ _
  | sent node results granted server clean moved passes =>
      have runs :
          Server.Queues.Orderly (state.servers node)
            (.send results granted) :=
        clean
      exact
        traced.setServer well
          (viewStep_of_step (well.sound node) runs (fun _ _ _ => passes)
            moved)
          (fun _ => List.Subset.refl _) nofun _ _
  | delivered node other block granted connection item server connected
      pending moved =>
      have runs :
          Server.Queues.Orderly (state.servers other)
            (.receive item block granted) :=
        orderly
      apply
        traced.setServer well
          (viewStep_of_step (well.sound other) runs (by simp) moved)
          (fun _ => List.Subset.refl _)
      intro bytes brings
      rw [brought, Option.some.injEq] at brings
      rw [← brings]
      exact
        traced.held node item
          (.inr ⟨connection, List.mem_of_getElem? pending⟩)

theorem traced_of_reaches
    {state : Network.Machine.Config count}
    (reaches :
      Reaches (Network.Machine.step topology) Regular topology.started
        state) :
    Traced topology state := by
  refine
    (reaches.induction
      (motive := fun state =>
        Network.Stages.Well topology state ∧ Traced topology state)
      ⟨Network.Stages.well_started, ?_, nofun⟩ ?_).2
  · intro node bytes holds
    rcases holds with member | ⟨connection, member⟩ <;> cases member
  · rintro state action after ⟨well, traced⟩ ⟨orderly, -⟩ stepped
    exact
      ⟨Network.Stages.well_of_step well orderly stepped,
        traced_of_step traced well orderly stepped⟩

/-! ## From call to call -/

/-- What callers may rely on. -/
structure Conveyed (topology : Topology count)
    (actions : List (Action count)) (config : Config count) : Prop where
  /-- What arrives from a server are its first calls, in order. -/
  in_order :
    ∀ source target, ∃ first,
      first <+: callsFor source (topology.name target) actions ∧
        List.Forall₂ (Decodes (topology.name source)) first
          (between topology source (topology.name target)
            (config.servers target).consumed)
  /-- Everything which arrives is a call for the process at some server. -/
  genuine :
    ∀ target, ∀ bytes ∈ (config.servers target).consumed,
      ∃ source, ∃ call ∈ callsFor source (topology.name target) actions,
        Decodes (topology.name source) call bytes

/--
In every careful run the reader finds, in the instructions which a process
consumes, the calls which other processes have made for it: those of one
process in their order and from the first one on, and nothing else.
-/
theorem conveyed_of_careful
    {actions : List (Action count)}
    (careful :
      Along (step asserts topology) Careful (started topology) actions)
    (ran :
      run (step asserts topology) (started topology) actions =
        some config) :
    Conveyed topology actions config := by
  have added := added_of_careful careful ran
  have reaches := refines_of_careful careful ran
  have traced := traced_of_reaches reaches
  constructor
  case in_order =>
    intro source target
    have begins := consumed_begins_of_reaches reaches source target
    rw [added.between_eq source, List.prefix_iff_eq_take, ← List.map_take]
      at begins
    generalize List.length (between _ _ _ _) = size at begins
    refine ⟨_, List.take_prefix size _, ?_⟩
    rw [begins, List.forall₂_map_right_iff, List.forall₂_same]
    intro call member
    have listed := List.mem_filter.mp (List.mem_of_mem_take member)
    exact decodes_of_deliverable (added.deliverable source call listed.1)
  case genuine =>
    intro target bytes member
    have holds : Holds ((abstraction config).servers target) bytes :=
      .inl (List.mem_append_right _ member)
    rcases traced.held target bytes holds with ⟨source, stored⟩
    have stored : bytes ∈ config.added source := stored
    rw [added.bytes source] at stored
    rcases List.mem_map.mp stored with ⟨call, called, rfl⟩
    have named := traced.addressed target _ member
    have dest : call.dest = topology.name target := by
      rw [Call.instruction, Instruction.bytes, destOf,
        Server.Ownership.cString_dest, Option.some.injEq] at named
      exact Subtype.ext named
    refine ⟨source, call, ?_, ?_⟩
    · exact List.mem_filter.mpr ⟨called, decide_eq_true dest⟩
    · exact
        decodes_of_deliverable (added.deliverable source call called)

theorem conveyed_arrivesInParts :
    ∃ config,
      run (step true pairTopology) (started pairTopology) arrivesInParts =
          some config ∧
        Conveyed pairTopology arrivesInParts config := by
  rcases ran_arrivesInParts with ⟨config, ran, -⟩
  exact ⟨config, ran, conveyed_of_careful careful_arrivesInParts ran⟩

end Wimp.Network.Wire
