import Wimp.Server.Ownership
import Wimp.Server.SendStream

/-!
# What a server does to its queues

Seen from outside, a server is a pair of queues of instructions together with
the record of what it has consumed and of what it has handed to its
connections.  As long as the queued nodes own their buffers, each step of the
server moves one instruction from one of these places to another, whatever
happens on the heap.
-/

namespace Wimp.Server.Queues

open Wimp.Lib.ByteRegion
open Wimp.Lib.Ownership
open Wimp.Instr.Codec
open Wimp.ProcessTable
open Wimp.Server.Machine
open Wimp.Server.Ownership
open Wimp.Server.SendStream (sendLoop_cases)

/-- The buffer behind a node. -/
def bytesOf (heap : Heap) (node : WimpInstrNode) : Bytes :=
  (content heap WimpInstrNode.instruction node).getD []

/-- A server as its peers see it. -/
structure View where
  incoming : List Bytes
  outgoing : List Bytes
  consumed : List Bytes
  handed : PSocket → List Bytes

/-- The instructions in the places of a server. -/
def view (config : Config) : View :=
  { incoming := config.server.incomingmsg.map (bytesOf config.heap)
    outgoing := config.server.outgoingmsg.map (bytesOf config.heap)
    consumed := config.consumed
    handed := config.handed }

/-- The instruction which the next iteration of the send loop drops. -/
def lost (config : Config) : List Bytes :=
  match config.server.outgoingmsg with
  | [] => []
  | node :: _ =>
      match nodeDest config.heap node with
      | .error _ => []
      | .ok (buffer, _, dest) =>
          if dest = config.server.processName then []
          else
            match sendTarget config.server dest with
            | none => [buffer]
            | some data => if data.processActive then [] else [buffer]

/-- What a step does to the places of a server. -/
inductive ViewStep (config : Config) : Action → Config → Prop where
  | added (dest instr : CString) (args : Bytes) (block : Option Address)
      (next : Config)
      (moved :
        view next =
          { view config with
            outgoing :=
              (view config).outgoing ++
                [instrBytes config.server.processName dest instr args] }) :
      ViewStep config (.add dest instr args block true) next
  | received (instruction : Bytes) (block : Address) (next : Config)
      (moved :
        view next =
          { view config with
            incoming := (view config).incoming ++ [instruction] }) :
      ViewStep config (.receive instruction block true) next
  | readNothing (empty : (view config).incoming = []) :
      ViewStep config .read config
  | routed (buffer dest : Bytes) (rest : List Bytes) (next : Config)
      (front : (view config).incoming = buffer :: rest)
      (named : destOf buffer = some dest)
      (foreign : dest ≠ config.server.processName)
      (moved :
        view next =
          { view config with
            incoming := rest
            outgoing := (view config).outgoing ++ [buffer] }) :
      ViewStep config .read next
  | consumed (buffer : Bytes) (rest : List Bytes) (next : Config)
      (front : (view config).incoming = buffer :: rest)
      (named : destOf buffer = some config.server.processName.val)
      (moved :
        view next =
          { view config with
            incoming := rest
            consumed := (view config).consumed ++ [buffer] }) :
      ViewStep config .read next
  | sendNothing (granted : Bool) (empty : (view config).outgoing = [])
      (kept : lost config = []) :
      ViewStep config (.send [] granted) config
  | dropped (buffer dest : Bytes) (rest : List Bytes)
      (results : List Int) (granted : Bool) (next : Config)
      (front : (view config).outgoing = buffer :: rest)
      (named : destOf buffer = some dest)
      (foreign : dest ≠ config.server.processName)
      (unreachable :
        ∀ data ∈ sendTarget config.server dest,
          data.processActive = false)
      (gone : lost config = [buffer])
      (moved : view next = { view config with outgoing := rest }) :
      ViewStep config (.send results granted) next
  | transmitted (buffer dest : Bytes) (rest : List Bytes)
      (results : List Int) (granted : Bool) (data : WimpProcessData)
      (next : Config)
      (front : (view config).outgoing = buffer :: rest)
      (named : destOf buffer = some dest)
      (foreign : dest ≠ config.server.processName)
      (target : sendTarget config.server dest = some data)
      (active : data.processActive = true)
      (kept : lost config = [])
      (moved :
        view next =
          { view config with
            outgoing := rest
            handed :=
              Function.update (view config).handed data.processConnection
                ((view config).handed data.processConnection ++
                  [buffer]) }) :
      ViewStep config (.send results granted) next
  | stoppedRead (fault : Fault) (next : Config)
      (control : next.control = .fault fault)
      (same : view next = view config) :
      ViewStep config .read next
  | stoppedSend (results : List Int) (granted : Bool) (fault : Fault)
      (next : Config) (control : next.control = .fault fault)
      (kept : lost config = [])
      (same : view next = view config) :
      ViewStep config (.send results granted) next

/-! ## Headers -/

/-- Every queued instruction counts itself in its header. -/
def Framed (config : Config) : Prop :=
  ∀ bytes ∈ (view config).incoming ++ (view config).outgoing,
    HeaderCounts bytes

/-- The owned queues of a server whose instructions are framed. -/
structure Sound (config : Config) : Prop where
  invariant : Invariant config
  framed : Framed config

/-- A formatted instruction of admissible size counts itself. -/
theorem headerCounts_instrBytes
    {process dest instr args : Bytes}
    (small : totalBytes process dest instr args < 2 ^ 31) :
    HeaderCounts (instrBytes process dest instr args) := by
  have header := int32At_append []
    (instrBytes process dest instr args)
    (by rw [length_instrBytes, totalBytes]; omega)
  rw [List.nil_append, List.length_nil] at header
  rw [HeaderCounts, header, instrBytes, List.take_left' (length_toLE 4 _),
    ofLE_toLE_of_lt (by omega), toInt32_of_lt small, ← instrBytes,
    length_instrBytes]

/-- A decoded node is the front of its queue as the peers see it. -/
theorem bytesOf_of_nodeDest
    {config : Config} {node : WimpInstrNode} {buffer dest : Bytes}
    {result : WimpInstrMeta}
    (decoded : nodeDest config.heap node = .ok (buffer, result, dest)) :
    bytesOf config.heap node = buffer ∧ destOf buffer = some dest := by
  rcases cString_of_nodeDest decoded with ⟨refers, named⟩
  refine ⟨?_, named⟩
  rw [bytesOf]
  rw [nodeBytes] at refers
  rw [refers]
  rfl

/-- The decoded size of a framed instruction is the size of its buffer. -/
theorem totalBytes_of_nodeDest
    {config : Config} {node : WimpInstrNode} {buffer dest : Bytes}
    {result : WimpInstrMeta}
    (decoded : nodeDest config.heap node = .ok (buffer, result, dest))
    (counts : HeaderCounts buffer) :
    result.totalBytes = buffer.length ∧ buffer.length < 2 ^ 31 := by
  rcases live_of_nodeDest decoded with ⟨address, -, live, read, named⟩
  unfold destProcess at named
  split at named
  · cases named
  · rename_i pointer points
    rcases header_of_read read points with ⟨-, total, word, size⟩
    have counted := counts
    rw [HeaderCounts, word, Option.some.injEq] at counted
    have upper : (buffer.length : Int) < 2 ^ 31 := by
      unfold int32At at word
      rcases Option.map_eq_some_iff.mp word with ⟨bytes, -, rfl⟩
      rw [← counted]
      exact toInt32_lt _
    refine ⟨?_, by omega⟩
    rw [size, counted, toSizeT_natCast (by omega)]

/-- A loop without errors stays inside a buffer of the counted size. -/
theorem sendLoop_inside
    {buffer : Bytes} {sentBytes : Nat} {results : List Int} {sent : Sent}
    (clean : -1 ∉ results) (small : buffer.length < 2 ^ 31)
    (inside : sentBytes ≤ buffer.length)
    (loop :
      sendLoop buffer buffer.length sentBytes results = some sent) :
    sent.status ≠ .outOfBounds := by
  induction results generalizing sentBytes sent with
  | nil =>
      cases sendLoop_cases loop with
      | finished done => nofun
      | outOfBounds more outside =>
          rw [slice_eq_none_iff, bytesToSend,
            subSizeT_of_le inside (by omega)] at outside
          split at outside <;> omega
      | blocked more => nofun
  | cons sendres rest induction =>
      cases sendLoop_cases loop with
      | continued chunk _ _ tail more sliced admissible tailLoop =>
          rw [List.mem_cons, not_or] at clean
          rcases (slice_eq_some_iff _ _ _ _).mp sliced with
            ⟨before, after, split, position, length⟩
          have total := congrArg List.length split
          rw [List.length_append, List.length_append] at total
          rcases admissible with failed | ⟨positive, bounded⟩
          · exact absurd failed.symm clean.1
          · have converted : toSizeT sendres = sendres.toNat := by
              unfold toSizeT
              omega
            rw [converted, addSizeT_of_lt (by omega)] at tailLoop
            have tailInside :=
              induction clean.2
                (show sentBytes + sendres.toNat ≤ buffer.length by omega)
                tailLoop
            exact tailInside

/-! ## The steps -/

/--
The calls which move instructions in order: an instruction is added for
another process and counts itself, every allocation succeeds, and no send
call fails.
-/
def Orderly (config : Config) : Action → Prop
  | .add dest instr args block granted =>
      dest ≠ config.server.processName ∧ block.isSome ∧ granted = true ∧
        totalBytes config.server.processName dest instr args < 2 ^ 31
  | .receive _ _ granted => granted = true
  | .read => True
  | .send results _ => -1 ∉ results
  | .ping _ _ => False

variable {config next : Config}

theorem addsForeign_of_orderly
    {action : Action} (orderly : Orderly config action) :
    AddsForeign config action := by
  cases action with
  | add dest instr args block granted => exact ⟨orderly.1, orderly.2.1⟩
  | receive instruction block granted => trivial
  | read => trivial
  | send results granted => trivial
  | ping processName result => trivial

/-- An allocation is not seen by the nodes which are queued already. -/
theorem map_bytesOf_allocate
    (owned : Owned config) {address : Address}
    (free : config.heap address = none) (block : Option Bytes)
    {nodes : List WimpInstrNode} (within : nodes ⊆ queued config) :
    nodes.map (bytesOf (Function.update config.heap address block)) =
      nodes.map (bytesOf config.heap) := by
  apply List.map_congr_left
  intro node member
  rw [bytesOf, content_update_of_free free
    (owned.owns.live node (within member)), bytesOf]

theorem bytesOf_allocated
    (heap : Heap) (address : Address) (bytes : Bytes) (size : Nat) :
    bytesOf (Function.update heap address (some bytes))
        { instruction := some address, instructionBytes := size } =
      bytes := by
  simp [bytesOf, content]

/-- The release of a node is not seen by the others. -/
theorem map_bytesOf_release
    {heap after : Heap} {nodes others : List WimpInstrNode}
    (kept :
      ∀ other ∈ others,
        content after WimpInstrNode.instruction other =
          content heap WimpInstrNode.instruction other)
    (within : nodes ⊆ others) :
    nodes.map (bytesOf after) = nodes.map (bytesOf heap) := by
  apply List.map_congr_left
  intro node member
  rw [bytesOf, kept node (within member), bytesOf]

/-- A released node leaves the outgoing queue. -/
theorem view_releaseNode
    (owned : Owned config) {node : WimpInstrNode}
    {rest : List WimpInstrNode}
    (queue : config.server.outgoingmsg = node :: rest) :
    view (releaseNode config node rest) =
      { view config with outgoing := rest.map (bytesOf config.heap) } := by
  have perm :
      (queued config).Perm
        (node :: (config.server.incomingmsg ++ rest)) := by
    rw [queued, queue]
    exact List.perm_middle
  rcases owns_released owned perm with ⟨address, -, freed, -, kept⟩
  rw [releaseNode, freed]
  have incoming := map_bytesOf_release kept
    (List.subset_append_left config.server.incomingmsg rest)
  have outgoing := map_bytesOf_release kept
    (List.subset_append_right config.server.incomingmsg rest)
  simp only [view, incoming, outgoing]

/-- The front of a queue as the peers see it. -/
theorem outgoing_of_queue
    {node : WimpInstrNode} {rest : List WimpInstrNode} {buffer : Bytes}
    (queue : config.server.outgoingmsg = node :: rest)
    (same : bytesOf config.heap node = buffer) :
    (view config).outgoing =
      buffer :: rest.map (bytesOf config.heap) := by
  rw [view, queue, List.map_cons, same]

theorem incoming_of_queue
    {node : WimpInstrNode} {rest : List WimpInstrNode} {buffer : Bytes}
    (queue : config.server.incomingmsg = node :: rest)
    (same : bytesOf config.heap node = buffer) :
    (view config).incoming =
      buffer :: rest.map (bytesOf config.heap) := by
  rw [view, queue, List.map_cons, same]

theorem viewStep_of_added
    (sound : Sound config) {dest instr : CString} {args : Bytes}
    {block : Option Address} {granted : Bool}
    (orderly : Orderly config (.add dest instr args block granted))
    (fresh : Fresh config.heap block) :
    ViewStep config (.add dest instr args block granted)
      (wimpServerAdd config dest instr args block granted) := by
  rcases orderly with ⟨-, allocated, rfl, -⟩
  rcases Option.isSome_iff_exists.mp allocated with ⟨address, rfl⟩
  have free : config.heap address = none := fresh address rfl
  apply ViewStep.added
  rw [wimpServerAdd_granted]
  have incoming := map_bytesOf_allocate sound.invariant.owned free
    (some (instrBytes config.server.processName dest instr args))
    (List.subset_append_left config.server.incomingmsg
      config.server.outgoingmsg)
  have outgoing := map_bytesOf_allocate sound.invariant.owned free
    (some (instrBytes config.server.processName dest instr args))
    (List.subset_append_right config.server.incomingmsg
      config.server.outgoingmsg)
  simp only [view, wimpInstrQueueAdd, if_true, List.map_append,
    List.map_singleton, bytesOf_allocated, incoming, outgoing]

theorem viewStep_of_received
    (sound : Sound config) {instruction : Bytes} {block : Address}
    (free : config.heap block = none) :
    ViewStep config (.receive instruction block true)
      (receiveInstruction config instruction block true) := by
  apply ViewStep.received
  have incoming := map_bytesOf_allocate sound.invariant.owned free
    (some instruction)
    (List.subset_append_left config.server.incomingmsg
      config.server.outgoingmsg)
  have outgoing := map_bytesOf_allocate sound.invariant.owned free
    (some instruction)
    (List.subset_append_right config.server.incomingmsg
      config.server.outgoingmsg)
  simp only [view, receiveInstruction, wimpInstrQueueAdd, if_true,
    List.map_append, List.map_singleton, bytesOf_allocated, incoming,
    outgoing]

theorem viewStep_of_read
    (sound : Sound config) {node : WimpInstrNode}
    {rest : List WimpInstrNode}
    (queue : config.server.incomingmsg = node :: rest)
    (outcome : ReadOutcome config node rest next) :
    ViewStep config .read next := by
  cases outcome with
  | routed buffer dest result decoded foreign =>
      rcases bytesOf_of_nodeDest decoded with ⟨same, named⟩
      apply ViewStep.routed buffer dest _ _ (incoming_of_queue queue same)
        named foreign
      simp only [view, List.map_append, List.map_singleton, same]
  | consumed buffer dest result heap decoded own freed =>
      rcases bytesOf_of_nodeDest decoded with ⟨same, named⟩
      rw [own] at named
      have perm :
          (queued config).Perm
            (node :: (rest ++ config.server.outgoingmsg)) := by
        rw [queued, queue]
        exact List.Perm.refl _
      rcases owns_released sound.invariant.owned perm with
        ⟨address, -, released, -, kept⟩
      cases freed.symm.trans released
      have incoming := map_bytesOf_release kept
        (List.subset_append_left rest config.server.outgoingmsg)
      have outgoing := map_bytesOf_release kept
        (List.subset_append_right rest config.server.outgoingmsg)
      apply ViewStep.consumed buffer _ _ (incoming_of_queue queue same)
        named
      simp only [view, incoming, outgoing]
  | faulted fault failed => exact .stoppedRead fault _ rfl rfl
  | doubleFree buffer dest result fault decoded freed =>
      exact .stoppedRead fault _ rfl rfl

/-- A decoded node of a sound server is sent within its buffer. -/
theorem Sound.sendLoop_inside
    (sound : Sound config) {node : WimpInstrNode}
    {rest : List WimpInstrNode} {buffer dest : Bytes}
    {result : WimpInstrMeta} {results : List Int} {sent : Sent}
    (queue : config.server.outgoingmsg = node :: rest)
    (decoded : nodeDest config.heap node = .ok (buffer, result, dest))
    (clean : -1 ∉ results)
    (loop : sendLoop buffer result.totalBytes 0 results = some sent) :
    sent.status ≠ .outOfBounds := by
  have counts : HeaderCounts buffer := by
    apply sound.framed
    rw [outgoing_of_queue queue (bytesOf_of_nodeDest decoded).1]
    exact List.mem_append_right _ (List.mem_cons_self ..)
  rcases totalBytes_of_nodeDest decoded counts with ⟨total, small⟩
  rw [total] at loop
  exact Queues.sendLoop_inside clean small (Nat.zero_le _) loop

theorem viewStep_of_send
    (sound : Sound config) {node : WimpInstrNode}
    {rest : List WimpInstrNode} {results : List Int} {granted : Bool}
    (clean : -1 ∉ results)
    (queue : config.server.outgoingmsg = node :: rest)
    (outcome : SendOutcome config node rest granted results next)
    (passes : next.control ≠ .blocked) :
    ViewStep config (.send results granted) next := by
  cases outcome with
  | faulted fault failed =>
      have kept : lost config = [] := by
        rw [lost, queue]
        dsimp only
        rw [failed]
      exact .stoppedSend [] granted fault _ rfl kept rfl
  | looped buffer dest result decoded own =>
      -- nothing in the outgoing queue is addressed to the server
      rcases cString_of_nodeDest decoded with ⟨refers, named⟩
      rw [own] at named
      have member : node ∈ config.server.outgoingmsg := by
        rw [queue]
        exact List.mem_cons_self ..
      exact absurd named
        (sound.invariant.foreign node member buffer refers)
  | dropped buffer dest result decoded foreign unreachable =>
      rcases bytesOf_of_nodeDest decoded with ⟨same, named⟩
      have gone : lost config = [buffer] := by
        rw [lost, queue]
        dsimp only
        rw [decoded]
        dsimp only
        rw [if_neg foreign]
        split
        · rfl
        · rename_i data target
          rw [unreachable data target, if_neg Bool.false_ne_true]
      exact .dropped buffer dest _ _ granted _
        (outgoing_of_queue queue same) named foreign unreachable gone
        (view_releaseNode sound.invariant.owned queue)
  | transmitted buffer dest result data results sent decoded foreign target
      active loop =>
      rcases bytesOf_of_nodeDest decoded with ⟨same, named⟩
      have front := outgoing_of_queue queue same
      have inside := sound.sendLoop_inside queue decoded clean loop
      have transmitted :
          Owned
            (config.transmit data.processConnection buffer sent.accepted) :=
        (sound.invariant.transmit _ _ _).owned
      have kept : lost config = [] := by
        rw [lost, queue]
        dsimp only
        rw [decoded]
        dsimp only
        rw [if_neg foreign, target]
        exact if_pos active
      cases status : sent.status with
      | finished =>
          apply ViewStep.transmitted buffer dest _ _ granted data _ front
            named foreign target active kept
          exact view_releaseNode transmitted queue
      | blocked =>
          simp only [status] at passes
          exact absurd rfl passes
      | outOfBounds => exact absurd status inside

/-- Every orderly step moves instructions between the places. -/
theorem viewStep_of_step
    {action : Action} (sound : Sound config)
    (orderly : Orderly config action)
    (passes : ∀ results granted, action = .send results granted →
      next.control ≠ .blocked)
    (stepped : step config action = some next) :
    ViewStep config action next := by
  cases step_cases stepped with
  | added dest instr args block granted control fresh =>
      exact viewStep_of_added sound orderly fresh
  | received instruction block granted alive free counts =>
      cases orderly
      exact viewStep_of_received sound free
  | readNothing control empty =>
      apply ViewStep.readNothing
      rw [view, empty]
      rfl
  | read node rest next control queue outcome =>
      exact viewStep_of_read sound queue outcome
  | sendNothing granted control empty =>
      apply ViewStep.sendNothing
      · rw [view, empty]
        rfl
      · rw [lost, empty]
  | send node rest results granted next control queue outcome =>
      exact viewStep_of_send sound orderly queue outcome
        (passes results granted rfl)
  | ping processName result next control checked => exact orderly.elim

/-- An orderly step keeps the queues owned and framed. -/
theorem sound_of_step
    {action : Action} (sound : Sound config)
    (orderly : Orderly config action)
    (passes : ∀ results granted, action = .send results granted →
      next.control ≠ .blocked)
    (stepped : step config action = some next) : Sound next := by
  have framed := sound.framed
  constructor
  case invariant =>
    exact invariant_of_step sound.invariant (addsForeign_of_orderly orderly)
      stepped
  case framed =>
    cases viewStep_of_step sound orderly passes stepped with
    | added dest instr args block next moved =>
        rw [Framed, moved]
        intro bytes member
        rcases List.mem_append.mp member with before | behind
        · exact framed bytes (List.mem_append_left _ before)
        · rcases List.mem_append.mp behind with before | new
          · exact framed bytes (List.mem_append_right _ before)
          · rw [List.mem_singleton.mp new]
            exact headerCounts_instrBytes orderly.2.2.2
    | received instruction block next moved =>
        rw [Framed, moved]
        intro bytes member
        rcases List.mem_append.mp member with behind | before
        · rcases List.mem_append.mp behind with before | new
          · exact framed bytes (List.mem_append_left _ before)
          · rw [List.mem_singleton.mp new]
            cases step_cases stepped with
            | received _ _ _ alive free counts => exact counts
        · exact framed bytes (List.mem_append_right _ before)
    | readNothing empty => exact framed
    | routed buffer dest rest next front named foreign moved =>
        rw [Framed, moved]
        intro bytes member
        apply framed
        rw [front]
        simp only [List.mem_append, List.mem_cons, List.not_mem_nil,
          or_false] at member ⊢
        tauto
    | consumed buffer rest next front named moved =>
        rw [Framed, moved]
        intro bytes member
        apply framed
        rw [front]
        exact List.mem_cons_of_mem _ member
    | sendNothing granted empty kept => exact framed
    | dropped buffer dest rest results granted next front named foreign
        unreachable gone moved =>
        rw [Framed, moved]
        intro bytes member
        apply framed
        rw [front]
        rcases List.mem_append.mp member with before | behind
        · exact List.mem_append_left _ before
        · exact List.mem_append_right _ (List.mem_cons_of_mem _ behind)
    | transmitted buffer dest rest results granted data next front named
        foreign target active kept moved =>
        rw [Framed, moved]
        intro bytes member
        apply framed
        rw [front]
        rcases List.mem_append.mp member with before | behind
        · exact List.mem_append_left _ before
        · exact List.mem_append_right _ (List.mem_cons_of_mem _ behind)
    | stoppedRead fault next control same =>
        rw [Framed, same]
        exact framed
    | stoppedSend results granted fault next control kept same =>
        rw [Framed, same]
        exact framed

/-- The name and the tables of a server. -/
structure SameServer (config next : Config) : Prop where
  name : next.server.processName = config.server.processName
  parent : next.server.parent = config.server.parent
  ptable : next.server.ptable = config.server.ptable

theorem SameServer.refl (config : Config) : SameServer config config :=
  ⟨rfl, rfl, rfl⟩

theorem SameServer.trans
    {last : Config} (first : SameServer config next)
    (second : SameServer next last) : SameServer config last where
  name := second.name.trans first.name
  parent := second.parent.trans first.parent
  ptable := second.ptable.trans first.ptable

/-- The same server looks an instruction up in the same way. -/
theorem SameServer.sendTarget_eq
    (same : SameServer config next) (dest : Bytes) :
    sendTarget next.server dest = sendTarget config.server dest := by
  rw [sendTarget, sendTarget, same.parent, same.ptable]

theorem sameServer_releaseNode
    (node : WimpInstrNode) (rest : List WimpInstrNode) :
    SameServer config (releaseNode config node rest) := by
  unfold releaseNode
  split <;> exact ⟨rfl, rfl, rfl⟩

/-- Instructions come and go, and the tables stay. -/
theorem sameServer_of_step
    {action : Action} (orderly : Orderly config action)
    (stepped : step config action = some next) :
    SameServer config next := by
  cases step_cases stepped with
  | added dest instr args block granted control fresh =>
      unfold wimpServerAdd
      split <;> exact ⟨rfl, rfl, rfl⟩
  | received instruction block granted alive free counts =>
      exact ⟨rfl, rfl, rfl⟩
  | readNothing control empty => exact ⟨rfl, rfl, rfl⟩
  | read node rest next control queue outcome =>
      cases outcome <;> exact ⟨rfl, rfl, rfl⟩
  | sendNothing granted control empty => exact ⟨rfl, rfl, rfl⟩
  | send node rest results granted next control queue outcome =>
      cases outcome with
      | faulted fault failed => exact ⟨rfl, rfl, rfl⟩
      | looped buffer dest result decoded own =>
          have released :=
            @sameServer_releaseNode
              { config with
                server :=
                  { config.server with
                    incomingmsg :=
                      wimpInstrQueueAdd config.server.incomingmsg
                        node.instruction result.totalBytes granted } }
              node rest
          exact ⟨released.name, released.parent, released.ptable⟩
      | dropped buffer dest result decoded foreign unreachable =>
          exact sameServer_releaseNode node rest
      | transmitted buffer dest result data results sent decoded foreign
          target active loop =>
          split
          · have released :=
              @sameServer_releaseNode
                (config.transmit data.processConnection buffer
                  sent.accepted)
                node rest
            exact ⟨released.name, released.parent, released.ptable⟩
          · exact ⟨rfl, rfl, rfl⟩
          · exact ⟨rfl, rfl, rfl⟩
  | ping processName result next control checked => exact orderly.elim

/-- What has been handed to a connection stays on record. -/
theorem handed_of_viewStep
    {action : Action} (moved : ViewStep config action next)
    (connection : PSocket) :
    config.handed connection <+: next.handed connection := by
  have kept (same : (view next).handed = (view config).handed) :
      config.handed connection <+: next.handed connection := by
    have untouched : next.handed connection = config.handed connection :=
      congrFun same connection
    exact untouched.symm ▸ List.prefix_rfl
  cases moved with
  | added dest instr args block next moved => exact kept (by rw [moved])
  | received instruction block next moved => exact kept (by rw [moved])
  | readNothing empty => exact List.prefix_rfl
  | routed buffer dest rest next front named foreign moved =>
      exact kept (by rw [moved])
  | consumed buffer rest next front named moved =>
      exact kept (by rw [moved])
  | sendNothing granted empty none => exact List.prefix_rfl
  | dropped buffer dest rest results granted next front named foreign
      unreachable gone moved =>
      exact kept (by rw [moved])
  | transmitted buffer dest rest results granted data next front named
      foreign target active none moved =>
      have grown :
          next.handed =
            Function.update config.handed data.processConnection
              (config.handed data.processConnection ++ [buffer]) :=
        congrArg View.handed moved
      by_cases same : connection = data.processConnection
      · rw [grown, same, Function.update_self]
        exact List.prefix_append _ _
      · have untouched :
            next.handed connection = config.handed connection := by
          rw [grown, Function.update_of_ne same]
        exact untouched.symm ▸ List.prefix_rfl
  | stoppedRead fault next control same => exact kept (by rw [same])
  | stoppedSend results granted fault next control none same =>
      exact kept (by rw [same])

theorem sound_started (server : WimpServer) : Sound (started server) where
  invariant := invariant_started server
  framed := fun _ member => nomatch member

end Wimp.Server.Queues
