import Wimp.Server.Queues

/-!
# Servers which do not die

A server dies when it decodes a queued buffer which the reader does not stay
inside of, or whose first byte is zero, so that the reader returns no
destination.  As long as only instructions of the scanned shape come into its
queues, it does not die, and each of its loops can always make its next
iteration.
-/

namespace Wimp.Server.Health

open Wimp.Lib.ByteRegion
open Wimp.Lib.Ownership
open Wimp.Instr.Codec
open Wimp.ProcessTable
open Wimp.Server.Machine
open Wimp.Server.Ownership
open Wimp.Server.Queues

/-- A node whose buffer has the scanned shape and the size of the node. -/
def Legible (config : Config) (node : WimpInstrNode) : Prop :=
  ∃ buffer,
    nodeBytes config node = some buffer ∧
      node.instructionBytes = buffer.length ∧ Scanned buffer

/-- A server which is alive and can decode what it has queued. -/
structure Healthy (config : Config) : Prop where
  ready : config.control = .ready
  legible : ∀ node ∈ queued config, Legible config node

/-! ## Decoding -/

/-- Bytes with a terminator start with a string. -/
theorem isSome_cString {bytes : Bytes} (ends : 0 ∈ bytes) :
    (cString bytes).isSome := by
  induction bytes with
  | nil => cases ends
  | cons byte rest induction =>
      rw [cString]
      split_ifs with zero
      · rfl
      · have tail : 0 ∈ rest :=
          (List.mem_cons.mp ends).resolve_left fun same => zero same.symm
        rw [Option.isSome_map]
        exact induction tail

/-- A legible node is decoded. -/
theorem exists_nodeDest
    {config : Config} {node : WimpInstrNode}
    (legible : Legible config node) :
    ∃ decoded, nodeDest config.heap node = .ok decoded := by
  rcases legible with ⟨buffer, refers, size, cut, rfl⟩
  rcases Option.bind_eq_some_iff.mp refers with ⟨address, points, live⟩
  have read := wimpInstrGetFromBuffer_scanned cut
  have found :
      nodeMeta config.heap node = .ok (cut.bytes, cut.decoded) := by
    simp only [nodeMeta, points, live, size, read]
  have ends : (0 : UInt8) ∈ cut.bytes.drop 4 := by
    rw [ScannedBuffer.bytes, List.drop_left' cut.header_length]
    simp [terminated]
  rcases Option.isSome_iff_exists.mp (isSome_cString ends) with
    ⟨dest, named⟩
  have destination :
      destProcess cut.bytes cut.decoded = .ok dest := by
    simp only [destProcess, ScannedBuffer.decoded, named]
  refine ⟨(cut.bytes, cut.decoded, dest), ?_⟩
  simp only [nodeDest, found, destination, bind, Except.bind, pure,
    Except.pure]

/-! ## What comes into the queues -/

/-- The instruction which a call brings into the queues. -/
def brought (config : Config) : Action → Option Bytes
  | .add dest instr args _ _ =>
      some (instrBytes config.server.processName dest instr args)
  | .receive instruction _ _ => some instruction
  | .read => none
  | .send _ _ => none
  | .ping _ _ => none

/-- Where a queued node comes from. -/
inductive Descends (config : Config) (action : Action) (next : Config)
    (node : WimpInstrNode) : Prop where
  | kept (member : node ∈ queued config)
      (same : nodeBytes next node = nodeBytes config node)
  | new (bytes : Bytes) (brings : brought config action = some bytes)
      (refers : nodeBytes next node = some bytes)
      (size : node.instructionBytes = bytes.length)

variable {config next : Config}

theorem nodeBytes_allocate
    (owned : Owned config) {address : Address}
    (free : config.heap address = none) {node : WimpInstrNode}
    (member : node ∈ queued config) (block : Option Bytes) :
    content (Function.update config.heap address block)
        WimpInstrNode.instruction node =
      nodeBytes config node :=
  content_update_of_free free (owned.owns.live node member) block

/-- A released node is forgotten, and the others stay. -/
theorem descends_released
    (owned : Owned config) (action : Action) {node : WimpInstrNode}
    {rest : List WimpInstrNode}
    (queue : config.server.outgoingmsg = node :: rest)
    {other : WimpInstrNode}
    (member : other ∈ queued (releaseNode config node rest)) :
    Descends config action (releaseNode config node rest) other := by
  have perm :
      (queued config).Perm
        (node :: (config.server.incomingmsg ++ rest)) := by
    rw [queued, queue]
    exact List.perm_middle
  rcases owns_released owned perm with ⟨address, -, freed, -, kept⟩
  rw [releaseNode, freed] at member ⊢
  apply Descends.kept
  · exact perm.mem_iff.mpr (List.mem_cons_of_mem _ member)
  · exact kept other member

/-- Every node of the queues was there or has just come in. -/
theorem descends_of_step
    {action : Action} (sound : Sound config)
    (orderly : Orderly config action)
    (passes : ∀ results granted, action = .send results granted →
      next.control ≠ .blocked)
    (stepped : step config action = some next)
    {node : WimpInstrNode} (member : node ∈ queued next) :
    Descends config action next node := by
  have owned := sound.invariant.owned
  cases step_cases stepped with
  | added dest instr args block granted control fresh =>
      rcases orderly with ⟨-, allocated, rfl, -⟩
      rcases Option.isSome_iff_exists.mp allocated with ⟨address, rfl⟩
      have free : config.heap address = none := fresh address rfl
      rw [wimpServerAdd_granted, wimpInstrQueueAdd, if_pos rfl] at member ⊢
      rw [queued, ← List.append_assoc] at member
      rcases List.mem_append.mp member with old | single
      · exact .kept old (nodeBytes_allocate owned free old _)
      · cases List.mem_singleton.mp single
        refine .new _ rfl ?_ (length_instrBytes _ _ _ _).symm
        simp [nodeBytes, content]
  | received instruction block granted alive free counts =>
      have granted : granted = true := orderly
      have news : node ∈ queued config ∨
          node = { instruction := some block
                   instructionBytes := instruction.length } := by
        simpa [queued, receiveInstruction, wimpInstrQueueAdd, granted,
          or_assoc, or_comm, or_left_comm] using member
      rcases news with old | rfl
      · exact .kept old (nodeBytes_allocate owned free old _)
      · refine .new instruction rfl ?_ rfl
        simp [nodeBytes, content, receiveInstruction]
  | readNothing control empty => exact .kept member rfl
  | read first rest next control queue outcome =>
      have perm :
          (queued config).Perm
            (first :: (rest ++ config.server.outgoingmsg)) := by
        rw [queued, queue]
        exact List.Perm.refl _
      cases outcome with
      | routed buffer dest result decoded foreign =>
          apply Descends.kept
          · rw [queued, ← List.append_assoc] at member
            rcases List.mem_append.mp member with old | single
            · exact perm.mem_iff.mpr (List.mem_cons_of_mem _ old)
            · cases List.mem_singleton.mp single
              exact perm.mem_iff.mpr (List.mem_cons_self ..)
          · rfl
      | consumed buffer dest result heap decoded own freed =>
          rcases owns_released owned perm with ⟨address, -, released, -, kept⟩
          cases freed.symm.trans released
          apply Descends.kept
          · exact perm.mem_iff.mpr (List.mem_cons_of_mem _ member)
          · exact kept node member
      | faulted fault failed => exact .kept member rfl
      | doubleFree buffer dest result fault decoded freed =>
          exact .kept member rfl
  | sendNothing granted control empty => exact .kept member rfl
  | send first rest results granted next control queue outcome =>
      cases outcome with
      | faulted fault failed => exact .kept member rfl
      | looped buffer dest result decoded own =>
          -- nothing in the outgoing queue is addressed to the server
          rcases cString_of_nodeDest decoded with ⟨refers, named⟩
          rw [own] at named
          have inside : first ∈ config.server.outgoingmsg := by
            rw [queue]
            exact List.mem_cons_self ..
          exact absurd named
            (sound.invariant.foreign first inside buffer refers)
      | dropped buffer dest result decoded foreign unreachable =>
          exact descends_released owned _ queue member
      | transmitted buffer dest result data results sent decoded foreign
          target active loop =>
          have transmitted :
              Owned
                (config.transmit data.processConnection buffer
                  sent.accepted) :=
            (sound.invariant.transmit _ _ _).owned
          cases status : sent.status with
          | finished =>
              simp only [status] at member
              cases descends_released transmitted .read queue member with
              | kept old same => exact .kept old same
              | new bytes brings refers size => cases brings
          | blocked =>
              simp only [status] at member
              exact .kept member rfl
          | outOfBounds =>
              simp only [status] at member
              exact .kept member rfl
  | ping processName result next control checked => exact orderly.elim

/-! ## Staying alive -/

theorem control_releaseNode
    (owned : Owned config) {node : WimpInstrNode}
    {rest : List WimpInstrNode}
    (queue : config.server.outgoingmsg = node :: rest) :
    (releaseNode config node rest).control = config.control := by
  have perm :
      (queued config).Perm
        (node :: (config.server.incomingmsg ++ rest)) := by
    rw [queued, queue]
    exact List.perm_middle
  rcases owns_released owned perm with ⟨address, -, freed, -, -⟩
  rw [releaseNode, freed]

theorem Healthy.incoming
    (healthy : Healthy config) {node : WimpInstrNode}
    {rest : List WimpInstrNode}
    (queue : config.server.incomingmsg = node :: rest) :
    ∃ decoded, nodeDest config.heap node = .ok decoded := by
  apply exists_nodeDest (healthy.legible node ?_)
  rw [queued, queue]
  exact List.mem_append_left _ (List.mem_cons_self ..)

theorem Healthy.outgoing
    (healthy : Healthy config) {node : WimpInstrNode}
    {rest : List WimpInstrNode}
    (queue : config.server.outgoingmsg = node :: rest) :
    ∃ decoded, nodeDest config.heap node = .ok decoded := by
  apply exists_nodeDest (healthy.legible node ?_)
  rw [queued, queue]
  exact List.mem_append_right _ (List.mem_cons_self ..)

/-- A healthy server survives every orderly step. -/
theorem ready_of_step
    {action : Action} (sound : Sound config) (healthy : Healthy config)
    (orderly : Orderly config action)
    (passes : ∀ results granted, action = .send results granted →
      next.control ≠ .blocked)
    (stepped : step config action = some next) :
    next.control = .ready := by
  have owned := sound.invariant.owned
  cases step_cases stepped with
  | added dest instr args block granted control fresh =>
      rcases Option.isSome_iff_exists.mp orderly.2.1 with ⟨address, rfl⟩
      rw [wimpServerAdd_granted]
      exact control
  | received instruction block granted alive free counts =>
      exact healthy.ready
  | readNothing control empty => exact control
  | read node rest next control queue outcome =>
      cases outcome with
      | routed buffer dest result decoded foreign => exact control
      | consumed buffer dest result heap decoded own freed => exact control
      | faulted fault failed =>
          rcases healthy.incoming queue with ⟨decoded, found⟩
          cases found.symm.trans failed
      | doubleFree buffer dest result fault decoded freed =>
          have perm :
              (queued config).Perm
                (node :: (rest ++ config.server.outgoingmsg)) := by
            rw [queued, queue]
            exact List.Perm.refl _
          rcases owns_released owned perm with ⟨address, -, released, -⟩
          cases freed.symm.trans released
  | sendNothing granted control empty => exact control
  | send node rest results granted next control queue outcome =>
      cases outcome with
      | faulted fault failed =>
          rcases healthy.outgoing queue with ⟨decoded, found⟩
          cases found.symm.trans failed
      | looped buffer dest result decoded own =>
          rcases cString_of_nodeDest decoded with ⟨refers, named⟩
          rw [own] at named
          have inside : node ∈ config.server.outgoingmsg := by
            rw [queue]
            exact List.mem_cons_self ..
          exact absurd named
            (sound.invariant.foreign node inside buffer refers)
      | dropped buffer dest result decoded foreign unreachable =>
          exact (control_releaseNode owned queue).trans control
      | transmitted buffer dest result data results sent decoded foreign
          target active loop =>
          have transmitted :
              Owned
                (config.transmit data.processConnection buffer
                  sent.accepted) :=
            (sound.invariant.transmit _ _ _).owned
          cases status : sent.status with
          | finished =>
              have kept := control_releaseNode transmitted queue
              exact kept.trans control
          | blocked =>
              simp only [status] at passes
              exact absurd rfl (passes results granted rfl)
          | outOfBounds =>
              exact absurd status
                (sound.sendLoop_inside queue decoded orderly loop)
  | ping processName result next control checked => exact orderly.elim

/--
A server stays healthy when only instructions of the scanned shape come into
its queues.
-/
theorem healthy_of_step
    {action : Action} (sound : Sound config) (healthy : Healthy config)
    (orderly : Orderly config action)
    (scanned : ∀ bytes, brought config action = some bytes → Scanned bytes)
    (passes : ∀ results granted, action = .send results granted →
      next.control ≠ .blocked)
    (stepped : step config action = some next) : Healthy next where
  ready := ready_of_step sound healthy orderly passes stepped
  legible node member := by
    cases descends_of_step sound orderly passes stepped member with
    | kept old same =>
        rcases healthy.legible node old with ⟨buffer, refers, size, shape⟩
        exact ⟨buffer, same.trans refers, size, shape⟩
    | new bytes brings refers size =>
        exact ⟨bytes, refers, size, scanned bytes brings⟩

/-- What has been queued can be decoded. -/
theorem Healthy.scanned
    (healthy : Healthy config) {bytes : Bytes}
    (member : bytes ∈ (view config).outgoing) : Scanned bytes := by
  rcases List.mem_map.mp member with ⟨node, inside, rfl⟩
  rcases healthy.legible node (List.mem_append_right _ inside) with
    ⟨buffer, refers, -, shape⟩
  have same : bytesOf config.heap node = buffer := by
    rw [nodeBytes] at refers
    rw [bytesOf, refers, Option.getD_some]
  exact same ▸ shape

/--
Only what has been queued is handed to a connection, and only to one which
the send loop looks up.
-/
theorem handed_cases
    {action : Action} (moved : ViewStep config action next)
    {connection : PSocket} {item : Bytes}
    (member : item ∈ next.handed connection) :
    item ∈ config.handed connection ∨
      item ∈ (view config).outgoing ∧
        ∃ dest data,
          sendTarget config.server dest = some data ∧
            data.processConnection = connection := by
  have old (same : (view next).handed = (view config).handed) :
      item ∈ config.handed connection ∨
        item ∈ (view config).outgoing ∧
          ∃ dest data,
            sendTarget config.server dest = some data ∧
              data.processConnection = connection := by
    have untouched : next.handed connection = config.handed connection :=
      congrFun same connection
    exact Or.inl (untouched ▸ member)
  cases moved with
  | added dest instr args block next moved => exact old (by rw [moved])
  | received instruction block next moved => exact old (by rw [moved])
  | readNothing empty => exact Or.inl member
  | routed buffer dest rest next front named foreign moved =>
      exact old (by rw [moved])
  | consumed buffer rest next front named moved =>
      exact old (by rw [moved])
  | sendNothing granted empty none => exact Or.inl member
  | dropped buffer dest rest results granted next front named foreign
      unreachable gone moved =>
      exact old (by rw [moved])
  | transmitted buffer dest rest results granted data next front named
      foreign target active none moved =>
      have grown :
          next.handed =
            Function.update config.handed data.processConnection
              (config.handed data.processConnection ++ [buffer]) :=
        congrArg View.handed moved
      rw [grown] at member
      by_cases same : connection = data.processConnection
      · rw [same, Function.update_self] at member
        rcases List.mem_append.mp member with before | single
        · exact Or.inl (same ▸ before)
        · rw [front, List.mem_singleton.mp single]
          exact Or.inr
            ⟨List.mem_cons_self .., dest, data, target, same.symm⟩
      · rw [Function.update_of_ne same] at member
        exact Or.inl member
  | stoppedRead fault next control same => exact old (by rw [same])
  | stoppedSend results granted fault next control none same =>
      exact old (by rw [same])

theorem healthy_started (server : WimpServer) : Healthy (started server) where
  ready := rfl
  legible _ member := by cases member

/-! ## What a server carries -/

/-- Only such instructions are queued, and handed to connections. -/
structure CarriesOnly (allowed : Bytes → Prop) (config : Config) : Prop where
  queued :
    ∀ bytes ∈ (view config).incoming ++ (view config).outgoing,
      allowed bytes
  handed :
    ∀ connection, ∀ bytes ∈ config.handed connection, allowed bytes

theorem carries_started (allowed : Bytes → Prop) (server : WimpServer) :
    CarriesOnly allowed (started server) where
  queued _ member := by cases member
  handed _ _ member := by cases member

/-- A server carries what comes in, and nothing else. -/
theorem carries_of_viewStep
    {allowed : Bytes → Prop} {action : Action}
    (carries : CarriesOnly allowed config)
    (brings :
      ∀ bytes, brought config action = some bytes → allowed bytes)
    (moved : ViewStep config action next) :
    CarriesOnly allowed next := by
  have queued := carries.queued
  constructor
  case handed =>
    intro connection bytes member
    rcases handed_cases moved member with before | ⟨waits, -⟩
    · exact carries.handed connection bytes before
    · exact queued bytes (List.mem_append_right _ waits)
  case queued =>
    intro bytes member
    cases moved with
    | added dest instr args block next moved =>
        rw [moved, ← List.append_assoc] at member
        rcases List.mem_append.mp member with before | new
        · exact queued bytes before
        · rw [List.mem_singleton.mp new]
          exact brings _ rfl
    | received instruction block next moved =>
        rw [moved] at member
        rcases List.mem_append.mp member with behind | before
        · rcases List.mem_append.mp behind with before | new
          · exact queued bytes (List.mem_append_left _ before)
          · rw [List.mem_singleton.mp new]
            exact brings _ rfl
        · exact queued bytes (List.mem_append_right _ before)
    | readNothing empty => exact queued bytes member
    | routed buffer dest rest next front named foreign moved =>
        rw [moved] at member
        apply queued bytes
        rw [front]
        simp only [List.mem_append, List.mem_cons, List.not_mem_nil,
          or_false] at member ⊢
        tauto
    | consumed buffer rest next front named moved =>
        rw [moved] at member
        apply queued bytes
        rw [front]
        exact List.mem_cons_of_mem _ member
    | sendNothing granted empty kept => exact queued bytes member
    | dropped buffer dest rest results granted next front named foreign
        unreachable gone moved =>
        rw [moved] at member
        apply queued bytes
        rw [front]
        rcases List.mem_append.mp member with before | behind
        · exact List.mem_append_left _ before
        · exact List.mem_append_right _ (List.mem_cons_of_mem _ behind)
    | transmitted buffer dest rest results granted data next front named
        foreign target active kept moved =>
        rw [moved] at member
        apply queued bytes
        rw [front]
        rcases List.mem_append.mp member with before | behind
        · exact List.mem_append_left _ before
        · exact List.mem_append_right _ (List.mem_cons_of_mem _ behind)
    | stoppedRead fault next control same =>
        rw [same] at member
        exact queued bytes member
    | stoppedSend results granted fault next control kept same =>
        rw [same] at member
        exact queued bytes member

end Wimp.Server.Health
