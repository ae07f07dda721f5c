import Wimp.Lib.Ownership
import Wimp.Server.Machine

/-!
# Ownership of the instruction buffers

Every node in the two queues of a server should own its buffer: the buffer is
live, and no other node refers to it.  A buffer enters a queue when it is
allocated, moves from the incoming to the outgoing queue when it is routed,
and leaves the queues when it is released.

The loopback branch of the send loop breaks this: it appends a second node
for the buffer of the popped one, and the popped node is released behind it
like any other.  A server which never adds an instruction for itself, and
whose allocations succeed, owns its queued buffers in every run.
-/

namespace Wimp.Server.Ownership

open Wimp.Lib.ByteRegion
open Wimp.Lib.Runs
open Wimp.Lib.Ownership
open Wimp.Instr.Codec
open Wimp.Server.Machine

/-- The nodes of both queues. -/
def queued (config : Config) : List WimpInstrNode :=
  config.server.incomingmsg ++ config.server.outgoingmsg

/--
The queued nodes own their buffers, and no step has used or released a
buffer which was not live.
-/
structure Owned (config : Config) : Prop where
  owns : Owns config.heap WimpInstrNode.instruction (queued config)
  no_double_free : config.control ≠ .fault .doubleFree
  no_use_after_free : config.control ≠ .fault .useAfterFree

/-- The bytes a node refers to. -/
def nodeBytes (config : Config) (node : WimpInstrNode) : Option Bytes :=
  content config.heap WimpInstrNode.instruction node

/-- No outgoing instruction is addressed to the server itself. -/
def Foreign (config : Config) : Prop :=
  ∀ node ∈ config.server.outgoingmsg, ∀ bytes,
    nodeBytes config node = some bytes →
      cString (bytes.drop wimpInstructionDestOffset) ≠
        some config.server.processName.val

/--
An instruction is added for another process, and the allocation of its
buffer succeeds.
-/
def AddsForeign (config : Config) : Action → Prop
  | .add dest _ _ block _ =>
      dest ≠ config.server.processName ∧ block.isSome
  | _ => True

instance (config : Config) (action : Action) :
    Decidable (AddsForeign config action) :=
  match action with
  | .add .. => inferInstanceAs (Decidable (_ ∧ _))
  | .receive .. => inferInstanceAs (Decidable True)
  | .read .. => inferInstanceAs (Decidable True)
  | .send .. => inferInstanceAs (Decidable True)
  | .ping .. => inferInstanceAs (Decidable True)

/-- What a run without self-addressed instructions keeps. -/
structure Invariant (config : Config) : Prop where
  owned : Owned config
  foreign : Foreign config

/-! ## The pieces -/

/-- The destination of a formatted instruction is read back. -/
theorem cString_dest (process : Bytes) (dest : CString)
    (instr args : Bytes) :
    cString
        ((instrBytes process dest instr args).drop
          wimpInstructionDestOffset) =
      some dest.val := by
  rw [instrBytes, wimpInstructionDestOffset,
    List.drop_left' (length_toLE 4 _), cString_terminated dest.2]

/-- The destination of a decoded node is the string behind its header. -/
theorem cString_of_nodeDest
    {config : Config} {node : WimpInstrNode} {buffer dest : Bytes}
    {result : WimpInstrMeta}
    (decoded : nodeDest config.heap node = .ok (buffer, result, dest)) :
    nodeBytes config node = some buffer ∧
      cString (buffer.drop wimpInstructionDestOffset) = some dest := by
  rcases live_of_nodeDest decoded with ⟨address, points, live, read, named⟩
  refine ⟨by rw [nodeBytes, content, points]; exact live, ?_⟩
  unfold destProcess at named
  split at named
  · cases named
  · rename_i pointer points
    rw [(header_of_read read points).1] at named
    split at named
    · cases named
    · rename_i text terminated
      rw [Except.ok.injEq] at named
      rw [← named]
      exact terminated

/-- Decoding an owned node does not use a released buffer. -/
theorem ne_ownership_of_nodeDest
    {heap : Heap} {node : WimpInstrNode} {fault : Fault}
    (live : (content heap WimpInstrNode.instruction node).isSome)
    (failed : nodeDest heap node = .error fault) :
    fault ≠ .useAfterFree ∧ fault ≠ .doubleFree := by
  rcases Option.isSome_iff_exists.mp live with ⟨buffer, found⟩
  rcases Option.bind_eq_some_iff.mp found with ⟨address, points, live⟩
  cases read :
      wimpInstrGetFromBuffer (some buffer) node.instructionBytes with
  | none =>
      simp only [nodeDest, nodeMeta, points, live, read, bind, Except.bind,
        Except.error.injEq] at failed
      rw [← failed]
      decide
  | some result =>
      simp only [nodeDest, nodeMeta, points, live, read, bind, Except.bind]
        at failed
      unfold destProcess at failed
      split at failed
      · rename_i fault' none
        split at none
        · rw [Except.error.injEq] at none failed
          rw [← failed, ← none]
          decide
        · split at none
          · rw [Except.error.injEq] at none failed
            rw [← failed, ← none]
            decide
          · cases none
      · cases failed

/-! ## Preservation -/

/-- Only the queues, the heap and the way the thread ended matter. -/
theorem Invariant.congr
    {config next : Config} (invariant : Invariant config)
    (heap : next.heap = config.heap)
    (incoming : next.server.incomingmsg = config.server.incomingmsg)
    (outgoing : next.server.outgoingmsg = config.server.outgoingmsg)
    (name : next.server.processName = config.server.processName)
    (control : next.control ≠ .fault .doubleFree ∧
      next.control ≠ .fault .useAfterFree) :
    Invariant next := by
  rcases invariant with ⟨⟨owns, -, -⟩, foreign⟩
  constructor
  case owned =>
    refine ⟨?_, control.1, control.2⟩
    rw [queued, heap, incoming, outgoing]
    exact owns
  case foreign =>
    unfold Foreign nodeBytes at foreign ⊢
    rw [heap, outgoing, name]
    exact foreign

/-- The thread may die of other faults. -/
theorem Invariant.fail
    {config : Config} (invariant : Invariant config) {fault : Fault}
    (other : fault ≠ .useAfterFree ∧ fault ≠ .doubleFree) :
    Invariant (config.fail fault) :=
  invariant.congr rfl rfl rfl rfl
    (by simp [Config.fail, other.1, other.2])

theorem Invariant.transmit
    {config : Config} (invariant : Invariant config)
    (connection : ProcessTable.PSocket) (item accepted : Bytes) :
    Invariant (config.transmit connection item accepted) :=
  invariant.congr rfl rfl rfl rfl
    ⟨invariant.owned.no_double_free, invariant.owned.no_use_after_free⟩

private theorem invariant_added
    {config : Config} (invariant : Invariant config)
    {dest instr : CString} {args : Bytes} {block : Option Address}
    (granted : Bool)
    (foreignDest : dest ≠ config.server.processName ∧ block.isSome)
    (fresh : Fresh config.heap block) :
    Invariant (wimpServerAdd config dest instr args block granted) := by
  rcases invariant with ⟨⟨owns, noDouble, noUse⟩, foreign⟩
  rcases foreignDest with ⟨other, allocated⟩
  rcases Option.isSome_iff_exists.mp allocated with ⟨address, rfl⟩
  have free : config.heap address = none := fresh address rfl
  rw [wimpServerAdd_granted]
  generalize bundle :
    instrBytes config.server.processName dest instr args = bytes
  -- what the old nodes refer to is unchanged
  have kept :
      ∀ node ∈ config.server.outgoingmsg,
        content (Function.update config.heap address (some bytes))
            WimpInstrNode.instruction node =
          content config.heap WimpInstrNode.instruction node :=
    fun node member => content_update_of_free free
      (owns.live node (List.mem_append_right _ member)) _
  cases granted with
  | false =>
      refine ⟨⟨owns.allocate free _, noDouble, noUse⟩, ?_⟩
      intro node member found refers
      rw [nodeBytes, kept node member] at refers
      exact foreign node member found refers
  | true =>
      refine ⟨⟨?_, noDouble, noUse⟩, ?_⟩
      · have appended := owns.allocate_append free bytes
          { instruction := some address
            instructionBytes :=
              totalBytes config.server.processName dest instr args }
          rfl
        rw [queued, List.append_assoc] at appended
        exact appended
      · intro node member found refers
        rcases List.mem_append.mp member with old | new
        · rw [nodeBytes, kept node old] at refers
          exact foreign node old found refers
        · rw [List.mem_singleton.mp new] at refers
          simp only [nodeBytes, content, Option.bind_some,
            Function.update_self, Option.some.injEq] at refers
          rw [← refers, ← bundle, cString_dest]
          intro same
          exact other (Subtype.ext (Option.some.inj same))

private theorem invariant_received
    {config : Config} (invariant : Invariant config)
    {instruction : Bytes} {block : Address} (granted : Bool)
    (free : config.heap block = none) :
    Invariant (receiveInstruction config instruction block granted) := by
  rcases invariant with ⟨⟨owns, noDouble, noUse⟩, foreign⟩
  constructor
  case owned =>
    refine ⟨?_, noDouble, noUse⟩
    cases granted with
    | false => exact owns.allocate free _
    | true =>
        refine (owns.allocate_append free instruction
          { instruction := some block
            instructionBytes := instruction.length } rfl).perm ?_
        simp only [queued, receiveInstruction, wimpInstrQueueAdd, if_true,
          List.append_assoc]
        exact List.perm_append_comm.append_left _
  case foreign =>
    intro node member found refers
    have live := owns.live node (List.mem_append_right _ member)
    have kept := content_update_of_free free live (some instruction)
    rw [nodeBytes] at refers
    exact foreign node member found (kept.symm.trans refers)

/-- A node at the front of either queue is released with its block. -/
theorem owns_released
    {config : Config} {node : WimpInstrNode} {others : List WimpInstrNode}
    (owned : Owned config)
    (perm : (queued config).Perm (node :: others)) :
    ∃ address,
      node.instruction = some address ∧
        wimpInstrNodeFree config.heap node =
          .ok (Function.update config.heap address none) ∧
        Owns (Function.update config.heap address none)
          WimpInstrNode.instruction others ∧
        ∀ other ∈ others,
          content (Function.update config.heap address none)
              WimpInstrNode.instruction other =
            content config.heap WimpInstrNode.instruction other := by
  have owns := owned.owns.perm perm
  rcases owns.exists_address (List.mem_cons_self ..) with
    ⟨address, block, points, live, -⟩
  exact
    ⟨address, points, wimpInstrNodeFree_of_live points live,
      owns.release points, fun other member =>
        owns.content_release points member⟩

private theorem invariant_released
    {config : Config} (invariant : Invariant config)
    {node : WimpInstrNode} {rest : List WimpInstrNode}
    (queue : config.server.outgoingmsg = node :: rest) :
    Invariant (releaseNode config node rest) := by
  rcases invariant with ⟨owned, foreign⟩
  have perm :
      (queued config).Perm
        (node :: (config.server.incomingmsg ++ rest)) := by
    rw [queued, queue]
    exact List.perm_middle
  rcases owns_released owned perm with ⟨address, points, freed, owns, kept⟩
  rw [releaseNode, freed]
  refine ⟨⟨owns, owned.no_double_free, owned.no_use_after_free⟩, ?_⟩
  intro other member found refers
  refine foreign other (by rw [queue]; exact List.mem_cons_of_mem _ member)
    found ?_
  rw [nodeBytes, ← kept other (List.mem_append_right _ member)]
  exact refers

private theorem invariant_read
    {config next : Config} (invariant : Invariant config)
    {node : WimpInstrNode} {rest : List WimpInstrNode}
    (queue : config.server.incomingmsg = node :: rest)
    (outcome : ReadOutcome config node rest next) :
    Invariant next := by
  have owned := invariant.owned
  have perm :
      (queued config).Perm
        (node :: (rest ++ config.server.outgoingmsg)) := by
    rw [queued, queue]
    exact List.Perm.refl _
  rcases owns_released owned perm with ⟨address, points, freed, owns, kept⟩
  cases outcome with
  | routed buffer dest result decoded foreign =>
      constructor
      case owned =>
        refine
          ⟨owned.owns.perm (perm.trans ?_), owned.no_double_free,
            owned.no_use_after_free⟩
        change (node :: (rest ++ config.server.outgoingmsg)).Perm
          (rest ++ (config.server.outgoingmsg ++ [node]))
        rw [← List.append_assoc]
        exact (List.perm_append_singleton node _).symm
      case foreign =>
        intro other member found refers
        rcases List.mem_append.mp member with old | new
        · exact invariant.foreign other old found refers
        · rw [List.mem_singleton.mp new] at refers
          rcases cString_of_nodeDest decoded with ⟨refersTo, text⟩
          rcases Option.some.inj (refersTo.symm.trans refers) with rfl
          rw [text]
          exact fun same => foreign (Option.some.inj same)
  | consumed buffer dest result heap decoded own released =>
      rw [freed, Except.ok.injEq] at released
      subst released
      refine
        ⟨⟨owns, owned.no_double_free, owned.no_use_after_free⟩, ?_⟩
      intro other member found refers
      refine invariant.foreign other member found ?_
      rw [nodeBytes, ← kept other (List.mem_append_right _ member)]
      exact refers
  | faulted fault failed =>
      exact invariant.fail
        (ne_ownership_of_nodeDest
          (owned.owns.live node (perm.mem_iff.mpr (List.mem_cons_self ..)))
          failed)
  | doubleFree buffer dest result fault decoded failed =>
      rw [freed] at failed
      cases failed

private theorem invariant_sent
    {config next : Config} (invariant : Invariant config)
    {node : WimpInstrNode} {rest : List WimpInstrNode}
    {results : List Int} {granted : Bool}
    (queue : config.server.outgoingmsg = node :: rest)
    (outcome : SendOutcome config node rest granted results next) :
    Invariant next := by
  have member : node ∈ config.server.outgoingmsg := by
    rw [queue]
    exact List.mem_cons_self ..
  cases outcome with
  | faulted fault failed =>
      exact invariant.fail
        (ne_ownership_of_nodeDest
          (invariant.owned.owns.live node
            (List.mem_append_right _ member)) failed)
  | looped buffer dest result decoded own =>
      -- nothing in the outgoing queue is addressed to the server
      rcases cString_of_nodeDest decoded with ⟨refers, text⟩
      rw [own] at text
      exact absurd text (invariant.foreign node member buffer refers)
  | dropped buffer dest result decoded foreign unreachable =>
      exact invariant_released invariant queue
  | transmitted buffer dest result data results sent decoded foreign
      target active loop =>
      have transmitted :=
        invariant.transmit data.processConnection buffer sent.accepted
      cases sent.status with
      | finished => exact invariant_released transmitted queue
      | blocked => exact transmitted.congr rfl rfl rfl rfl (by simp)
      | outOfBounds => exact transmitted.fail (by simp)

private theorem invariant_ping
    {config next : Config} (invariant : Invariant config)
    {processName : CString} {result : Option Int}
    (checked :
      wimpServerCheckProcessListening config processName result =
        some next) :
    Invariant next := by
  unfold wimpServerCheckProcessListening at checked
  split at checked
  · split_ifs at checked
    rcases Option.some.inj checked with rfl
    exact invariant
  · rename_i procdat found
    split_ifs at checked
    · split at checked
      · cases checked
      · rename_i result
        have transmitted :=
          invariant.transmit procdat.processConnection wimpPing
            (wimpPing.take result.toNat)
        dsimp only at checked
        split_ifs at checked
        · rcases Option.some.inj checked with rfl
          exact transmitted
        · split at checked
          · rcases Option.some.inj checked with rfl
            exact transmitted.fail (by simp)
          · rcases Option.some.inj checked with rfl
            exact transmitted.congr rfl rfl rfl rfl
              ⟨transmitted.owned.no_double_free,
                transmitted.owned.no_use_after_free⟩
    · rcases Option.some.inj checked with rfl
      exact invariant

/-- A step which adds nothing for the server itself keeps the invariant. -/
theorem invariant_of_step
    {config next : Config} {action : Action}
    (invariant : Invariant config)
    (foreign : AddsForeign config action)
    (stepped : step config action = some next) :
    Invariant next := by
  cases step_cases stepped with
  | added dest instr args block granted control fresh =>
      exact invariant_added invariant granted foreign fresh
  | received instruction block granted alive free counts =>
      exact invariant_received invariant granted free
  | readNothing control empty => exact invariant
  | read node rest next control queue outcome =>
      exact invariant_read invariant queue outcome
  | sendNothing granted control empty => exact invariant
  | send node rest results granted next control queue outcome =>
      exact invariant_sent invariant queue outcome
  | ping processName result next control checked =>
      exact invariant_ping invariant checked

/-! ## Whole runs -/

theorem invariant_started (server : WimpServer) :
    Invariant (started server) := by
  constructor
  case owned =>
    exact ⟨owns_nil, by simp [started], by simp [started]⟩
  case foreign =>
    intro node member
    exact absurd member (by simp [started])

/--
In every run in which no instruction is added for the server itself and no
bundle allocation fails, the queued nodes own their buffers and no buffer is
released twice.
-/
theorem owned_of_addsForeign
    {server : WimpServer} {actions : List Action} {config : Config}
    (foreign : Along step AddsForeign (started server) actions)
    (ran : run step (started server) actions = some config) :
    Owned config :=
  (run_induction_along (motive := fun _ config => Invariant config)
    (invariant_started server)
    (fun _ _ _ _ invariant foreign stepped =>
      invariant_of_step invariant foreign stepped)
    foreign ran).owned

/-- The server `a`, with an empty process table. -/
def serverA : WimpServer :=
  { processName := .ofBytes [0x61] }

/-- One instruction is dropped, one is added and one from `c` is routed. -/
private def twoQueued : List Action :=
  [.add (.ofBytes [0x62]) (.ofBytes [0x78]) [] (some 0) true,
    .send [] true,
    .receive (instrBytes [0x63] [0x62] [0x79] []) 1 true,
    .add (.ofBytes [0x62]) (.ofBytes [0x78]) [] (some 0) true, .read]

theorem owned_dropped :
    ∃ config,
      run step (started serverA) twoQueued = some config ∧
        config.server.outgoingmsg = [⟨some 0, 14⟩, ⟨some 1, 14⟩] ∧
          Owned config := by
  have queued :
      (run step (started serverA) twoQueued).map
          (fun config => config.server.outgoingmsg) =
        some [⟨some 0, 14⟩, ⟨some 1, 14⟩] := by
    decide +kernel
  rcases Option.map_eq_some_iff.mp queued with ⟨config, ran, two⟩
  exact ⟨config, ran, two, owned_of_addsForeign (by decide +kernel) ran⟩

/--
An instruction for the server itself: behind the send loop the incoming queue
holds a node for a buffer which was released.
-/
theorem not_owned_loopback :
    ∃ config,
      run step (started serverA)
          [.add (.ofBytes [0x61]) (.ofBytes [0x78]) [] (some 0) true,
            .send [] true] = some config ∧
        ¬ Owned config := by
  have looped :
      (run step (started serverA)
          [.add (.ofBytes [0x61]) (.ofBytes [0x78]) [] (some 0) true,
            .send [] true]).map
          (fun config => (config.server.incomingmsg, config.heap 0)) =
        some ([⟨some 0, 14⟩], none) := by
    decide +kernel
  rcases Option.map_eq_some_iff.mp looped with ⟨config, ran, left⟩
  rcases Prod.mk.inj left with ⟨incoming, freed⟩
  refine ⟨config, ran, fun owned => ?_⟩
  have live := owned.owns.live ⟨some 0, 14⟩
    (by simp [queued, incoming])
  simp [content, freed] at live

/--
Every loopback leaves a released buffer in the incoming queue, so that no
run which takes that branch keeps its buffers.
-/
theorem not_owned_of_looped
    {config : Config} {node : WimpInstrNode} {rest : List WimpInstrNode}
    {buffer dest : Bytes} {result : WimpInstrMeta}
    (decoded : nodeDest config.heap node = .ok (buffer, result, dest)) :
    ¬ Owned
      (releaseNode
        { config with
          server :=
            { config.server with
              incomingmsg :=
                wimpInstrQueueAdd config.server.incomingmsg
                  node.instruction result.totalBytes true } }
        node rest) := by
  rcases live_of_nodeDest decoded with ⟨address, points, live, -, -⟩
  intro owned
  have freed := wimpInstrNodeFree_of_live points live
  rw [releaseNode, freed] at owned
  have dangling := owned.owns.live
    { instruction := node.instruction
      instructionBytes := result.totalBytes }
    (by simp [queued, wimpInstrQueueAdd])
  simp [content, points] at dangling

end Wimp.Server.Ownership
