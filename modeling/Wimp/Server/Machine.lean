import Wimp.ProcessTable
import Wimp.Reciever.Machine

/-!
# The server and its two queues

A server owns an incoming and an outgoing queue of instruction nodes.  Its
thread adds instructions, runs the read loop and sends; receivers append to
the incoming queue.  The module embeds one iteration of each loop as a step.
A call of `wimp_server_send_instructions` is a sequence of `send` steps which
ends when the outgoing queue is empty, and a pass of the read loop is such a
sequence of `read` steps.

Instruction buffers live in a heap.  The environment chooses the address of
every allocation among the addresses which are not live, so that a released
address may be handed out again.  A step which follows a `NULL` pointer,
leaves a buffer, uses a released buffer or releases one twice ends in a fault.

The logs of consumed instructions and of the bytes on the connections record
what the outside world sees.
-/

namespace Wimp.Server.Machine

open Wimp.Lib.ByteRegion
open Wimp.Instr.Codec
open Wimp.ProcessTable
open Wimp.Reciever.Machine (wimpMessageBufferBytes wimpRecieverPing)

/-- The bytes of `WIMP_RECIEVER_PING`. -/
def wimpPing : Bytes := toLE 4 wimpRecieverPing

/-- The address of an instruction buffer. -/
abbrev Address := Nat

/-- The live instruction buffers. -/
abbrev Heap := Address → Option Bytes

/-- `WimpInstrNode`, with the fields of its `WimpInstr`. -/
structure WimpInstrNode where
  instruction : Option Address
  instructionBytes : Nat
deriving DecidableEq, Repr

/-- `WimpServer`; `parent` is `none` when it is `NULL`. -/
structure WimpServer where
  processName : CString
  parent : Option CString := none
  ptable : WimpProcessTable := wimpCreateProcessTable
  incomingmsg : List WimpInstrNode := []
  outgoingmsg : List WimpInstrNode := []
deriving DecidableEq, Repr

/-- What can go wrong with a pointer. -/
inductive Fault where
  | nullPointer
  | outOfBounds
  | useAfterFree
  | doubleFree
deriving DecidableEq, Repr

/-- The server thread is between two steps, inside a send call, or dead. -/
inductive Control where
  | ready
  | blocked
  | fault (fault : Fault)
deriving DecidableEq, Repr

/-- A server with its memory and its logs. -/
structure Config where
  server : WimpServer
  heap : Heap := fun _ => none
  control : Control := .ready
  consumed : List Bytes := []
  handed : PSocket → List Bytes := fun _ => []
  accepted : PSocket → Bytes := fun _ => []

/-- The thread dies where it stands. -/
def Config.fail (config : Config) (fault : Fault) : Config :=
  { config with control := .fault fault }

/-! ## Queues and buffers -/

/--
`wimp_instr_queue_add`; `granted` tells whether the node is allocated.
-/
def wimpInstrQueueAdd (queue : List WimpInstrNode)
    (instr : Option Address) (bytes : Nat) (granted : Bool) :
    List WimpInstrNode :=
  if granted then
    queue ++ [{ instruction := instr, instructionBytes := bytes }]
  else
    queue

/-- `wimp_instr_node_free`. -/
def wimpInstrNodeFree (heap : Heap) (node : WimpInstrNode) :
    Except Fault Heap :=
  match node.instruction with
  | none => .ok heap
  | some address =>
      if (heap address).isSome then
        .ok (Function.update heap address none)
      else
        .error .doubleFree

/-- The buffer of a node together with what the reader finds in it. -/
def nodeMeta (heap : Heap) (node : WimpInstrNode) :
    Except Fault (Bytes × WimpInstrMeta) :=
  match node.instruction with
  | none => .ok ([], {})
  | some address =>
      match heap address with
      | none => .error .useAfterFree
      | some buffer =>
          match
            wimpInstrGetFromBuffer (some buffer) node.instructionBytes with
          | none => .error .outOfBounds
          | some result => .ok (buffer, result)

/-- The string behind `meta.dest_process`. -/
def destProcess (buffer : Bytes) (result : WimpInstrMeta) :
    Except Fault Bytes :=
  match result.destProcess with
  | none => .error .nullPointer
  | some pointer =>
      match cString (buffer.drop pointer) with
      | none => .error .outOfBounds
      | some dest => .ok dest

/-- A node decoded as far as both loops of the server look at it. -/
def nodeDest (heap : Heap) (node : WimpInstrNode) :
    Except Fault (Bytes × WimpInstrMeta × Bytes) := do
  let (buffer, result) ← nodeMeta heap node
  let dest ← destProcess buffer result
  return (buffer, result, dest)

/-! ## Adding, receiving and reading -/

/--
`wimp_server_add`, given the address returned by `malloc` for the bundle.
-/
def wimpServerAdd (config : Config) (dest instr : CString) (args : Bytes)
    (block : Option Address) (granted : Bool) : Config :=
  match
    wimpServerBundleInstr
      (fun size => block.map fun _ => List.replicate size 0)
      config.server.processName dest instr args with
  | none => config.fail .outOfBounds
  | some bundle =>
      { config with
        heap :=
          match block with
          | none => config.heap
          | some address => Function.update config.heap address bundle.instr
        server :=
          { config.server with
            outgoingmsg :=
              wimpInstrQueueAdd config.server.outgoingmsg block bundle.size
                granted } }

/-- A receiver appends a completed instruction to the incoming queue. -/
def receiveInstruction (config : Config) (instruction : Bytes)
    (block : Address) (granted : Bool) : Config :=
  { config with
    heap := Function.update config.heap block (some instruction)
    server :=
      { config.server with
        incomingmsg :=
          wimpInstrQueueAdd config.server.incomingmsg (some block)
            instruction.length granted } }

/--
`wimp_server_instr_routed`: an instruction for another process joins the
outgoing queue.
-/
def wimpServerInstrRouted (server : WimpServer) (destProcess : Bytes)
    (instrnode : WimpInstrNode) : Option WimpServer :=
  if destProcess ≠ server.processName then
    some { server with outgoingmsg := server.outgoingmsg ++ [instrnode] }
  else
    none

/-- One iteration of the read loop, on a popped node. -/
def readNode (config : Config) (node : WimpInstrNode)
    (rest : List WimpInstrNode) : Except Fault Config := do
  let (buffer, _, dest) ← nodeDest config.heap node
  let server := { config.server with incomingmsg := rest }
  match wimpServerInstrRouted server dest node with
  | some server => return { config with server }
  | none =>
      let heap ← wimpInstrNodeFree config.heap node
      return { config with
        server, heap, consumed := config.consumed ++ [buffer] }

/-! ## Sending -/

/-- A `p_socket_send` result for a request of the given size. -/
def SendResult (requested : Nat) (result : Int) : Prop :=
  result = -1 ∨ 1 ≤ result ∧ result ≤ requested

instance (requested : Nat) (result : Int) :
    Decidable (SendResult requested result) :=
  inferInstanceAs (Decidable (_ ∨ _))

/-- How a send loop ends; it is blocked when no further result arrives. -/
inductive SendStatus where
  | finished
  | blocked
  | outOfBounds
deriving DecidableEq, Repr

/-- The bytes a send loop got accepted, and how it ended. -/
structure Sent where
  accepted : Bytes
  status : SendStatus
deriving DecidableEq, Repr

/-- `bytes_to_send`. -/
def bytesToSend (totalBytes sentBytes : Nat) : Nat :=
  let missing := subSizeT totalBytes sentBytes
  if missing > wimpMessageBufferBytes then wimpMessageBufferBytes
  else missing

/--
The loop `while (sent_bytes < total_bytes)` of
`wimp_server_send_instructions`, given the results of its send calls.  The
result is added to the unsigned offset, whatever its sign.
-/
def sendLoop (buffer : Bytes) (totalBytes sentBytes : Nat)
    (results : List Int) : Option Sent :=
  if sentBytes < totalBytes then
    match slice buffer sentBytes (bytesToSend totalBytes sentBytes) with
    | none =>
        if results = [] then some ⟨[], .outOfBounds⟩ else none
    | some chunk =>
        match results with
        | [] => some ⟨[], .blocked⟩
        | sendres :: results =>
            if SendResult chunk.length sendres then
              (sendLoop buffer totalBytes
                  (addSizeT sentBytes (toSizeT sendres)) results).map
                fun sent =>
                  { sent with
                    accepted :=
                      chunk.take sendres.toNat ++ sent.accepted }
            else
              none
  else if results = [] then
    some ⟨[], .finished⟩
  else
    none

/--
Where an instruction for another process goes: to its destination when that
is in the process table, and otherwise to the parent.
-/
def sendTarget (server : WimpServer) (dest : Bytes) :
    Option WimpProcessData :=
  (wimpProcessTableGet server.ptable (some dest)).or
    (wimpProcessTableGet server.ptable (server.parent.map Subtype.val))

/-- An item is handed to a connection, which accepts some bytes. -/
def Config.transmit (config : Config) (connection : PSocket)
    (item accepted : Bytes) : Config :=
  { config with
    handed :=
      Function.update config.handed connection
        (config.handed connection ++ [item])
    accepted :=
      Function.update config.accepted connection
        (config.accepted connection ++ accepted) }

/-- The end of an iteration of the send loop. -/
def releaseNode (config : Config) (node : WimpInstrNode)
    (rest : List WimpInstrNode) : Config :=
  match wimpInstrNodeFree config.heap node with
  | .error fault => config.fail fault
  | .ok heap =>
      { config with
        heap
        server := { config.server with outgoingmsg := rest } }

/-- One iteration of `wimp_server_send_instructions`, on a popped node. -/
def sendNode (config : Config) (node : WimpInstrNode)
    (rest : List WimpInstrNode) (results : List Int) (granted : Bool) :
    Option Config :=
  match nodeDest config.heap node with
  | .error fault =>
      if results = [] then some (config.fail fault) else none
  | .ok (buffer, result, dest) =>
      if dest = config.server.processName then
        -- loopback: the same buffer joins the incoming queue
        let server :=
          { config.server with
            incomingmsg :=
              wimpInstrQueueAdd config.server.incomingmsg node.instruction
                result.totalBytes granted }
        if results = [] then
          some (releaseNode { config with server } node rest)
        else none
      else
        match sendTarget config.server dest with
        | none =>
            if results = [] then some (releaseNode config node rest)
            else none
        | some data =>
            if data.processActive then
              match sendLoop buffer result.totalBytes 0 results with
              | none => none
              | some sent =>
                  let config :=
                    config.transmit data.processConnection buffer
                      sent.accepted
                  match sent.status with
                  | .finished => some (releaseNode config node rest)
                  | .blocked => some { config with control := .blocked }
                  | .outOfBounds => some (config.fail .outOfBounds)
            else
              if results = [] then some (releaseNode config node rest)
              else none

/--
`wimp_server_check_process_listening`, given the result of its send call when
it makes one.  The record whose active flag it clears is released with its
entry.
-/
def wimpServerCheckProcessListening (config : Config)
    (processName : CString) (result : Option Int) : Option Config :=
  match wimpProcessTableGet config.server.ptable (some processName.val) with
  | none => if result = none then some config else none
  | some procdat =>
      if procdat.processActive then
        match result with
        | none => none
        | some result =>
            if SendResult wimpPing.length result then
              let config :=
                config.transmit procdat.processConnection wimpPing
                  (wimpPing.take result.toNat)
              if result ≠ -1 then
                some config
              else
                match
                  wimpProcessTableRemove config.server.ptable
                    processName with
                | none => some (config.fail .nullPointer)
                | some (ptable, _) =>
                    some
                      { config with
                        server := { config.server with ptable } }
            else none
      else
        if result = none then some config else none

/-! ## The server as a transition system -/

/-- The calls of the server thread and of the receivers. -/
inductive Action where
  | add (dest instr : CString) (args : Bytes) (block : Option Address)
      (granted : Bool)
  | receive (instruction : Bytes) (block : Address) (granted : Bool)
  | read
  | send (results : List Int) (granted : Bool)
  | ping (processName : CString) (result : Option Int)
deriving DecidableEq, Repr

/-- `malloc` returns an address which is not live. -/
def Fresh (heap : Heap) (block : Option Address) : Prop :=
  ∀ address ∈ block, heap address = none

instance (heap : Heap) (block : Option Address) :
    Decidable (Fresh heap block) :=
  inferInstanceAs (Decidable (∀ address ∈ block, _))

/-- A receiver allocates as many bytes as the header says. -/
def HeaderCounts (instruction : Bytes) : Prop :=
  int32At instruction 0 = some (instruction.length : Int)

instance (instruction : Bytes) : Decidable (HeaderCounts instruction) :=
  inferInstanceAs (Decidable (_ = _))

/-- One step of a server; a server which died makes none. -/
def step (config : Config) (action : Action) : Option Config :=
  match config.control with
  | .fault _ => none
  | .blocked =>
      match action with
      | .receive instruction block granted =>
          if Fresh config.heap block ∧ HeaderCounts instruction then
            some (receiveInstruction config instruction block granted)
          else none
      | _ => none
  | .ready =>
      match action with
      | .add dest instr args block granted =>
          if Fresh config.heap block then
            some (wimpServerAdd config dest instr args block granted)
          else none
      | .receive instruction block granted =>
          if Fresh config.heap block ∧ HeaderCounts instruction then
            some (receiveInstruction config instruction block granted)
          else none
      | .read =>
          match config.server.incomingmsg with
          | [] => some config
          | node :: rest =>
              match readNode config node rest with
              | .error fault => some (config.fail fault)
              | .ok next => some next
      | .send results granted =>
          match config.server.outgoingmsg with
          | [] => if results = [] then some config else none
          | node :: rest => sendNode config node rest results granted
      | .ping processName result =>
          wimpServerCheckProcessListening config processName result

/-- A server with empty queues. -/
def started (server : WimpServer) : Config :=
  { server := { server with incomingmsg := [], outgoingmsg := [] } }

/-! ## The pieces -/

/-- A granted bundle is the formatted instruction. -/
theorem wimpServerAdd_granted
    (config : Config) (dest instr : CString) (args : Bytes)
    (address : Address) (granted : Bool) :
    wimpServerAdd config dest instr args (some address) granted =
      { config with
        heap :=
          Function.update config.heap address
            (some
              (instrBytes config.server.processName dest instr args))
        server :=
          { config.server with
            outgoingmsg :=
              wimpInstrQueueAdd config.server.outgoingmsg (some address)
                (totalBytes config.server.processName dest instr args)
                granted } } := by
  rw [wimpServerAdd, wimpServerBundleInstr_granted rfl (by simp)]

/-- A live node is released without a fault. -/
theorem wimpInstrNodeFree_of_live
    {heap : Heap} {node : WimpInstrNode} {address : Address}
    {block : Bytes} (points : node.instruction = some address)
    (live : heap address = some block) :
    wimpInstrNodeFree heap node =
      .ok (Function.update heap address none) := by
  simp [wimpInstrNodeFree, points, live]

/-! ## What a step can do -/

/-- The buffer of a node, when the node could be decoded. -/
theorem live_of_nodeDest
    {heap : Heap} {node : WimpInstrNode} {buffer dest : Bytes}
    {result : WimpInstrMeta}
    (decoded : nodeDest heap node = .ok (buffer, result, dest)) :
    ∃ address,
      node.instruction = some address ∧ heap address = some buffer ∧
        wimpInstrGetFromBuffer (some buffer) node.instructionBytes =
          some result ∧
        destProcess buffer result = .ok dest := by
  unfold nodeDest at decoded
  cases found : nodeMeta heap node with
  | error fault => simp [found, bind, Except.bind] at decoded
  | ok pair =>
      rcases pair with ⟨content, decodedMeta⟩
      simp only [found, bind, Except.bind] at decoded
      cases named : destProcess content decodedMeta with
      | error fault => simp [named] at decoded
      | ok text =>
          simp only [named, pure, Except.pure, Except.ok.injEq,
            Prod.mk.injEq] at decoded
          rcases decoded with ⟨rfl, rfl, rfl⟩
          unfold nodeMeta at found
          split at found
          · -- a `NULL` instruction names no destination
            rw [Except.ok.injEq, Prod.mk.injEq] at found
            rw [← found.2] at named
            simp [destProcess] at named
          · rename_i address pointer
            split at found
            · simp at found
            · rename_i live
              split at found
              · simp at found
              · rename_i read
                rw [Except.ok.injEq, Prod.mk.injEq] at found
                rcases found with ⟨rfl, rfl⟩
                exact ⟨address, pointer, live, read, named⟩

/-- What one iteration of the read loop can do. -/
inductive ReadOutcome (config : Config) (node : WimpInstrNode)
    (rest : List WimpInstrNode) : Config → Prop where
  | routed (buffer dest : Bytes) (result : WimpInstrMeta)
      (decoded : nodeDest config.heap node = .ok (buffer, result, dest))
      (foreign : dest ≠ config.server.processName) :
      ReadOutcome config node rest
        { config with
          server :=
            { config.server with
              incomingmsg := rest
              outgoingmsg := config.server.outgoingmsg ++ [node] } }
  | consumed (buffer dest : Bytes) (result : WimpInstrMeta) (heap : Heap)
      (decoded : nodeDest config.heap node = .ok (buffer, result, dest))
      (own : dest = config.server.processName)
      (freed : wimpInstrNodeFree config.heap node = .ok heap) :
      ReadOutcome config node rest
        { config with
          server := { config.server with incomingmsg := rest }
          heap
          consumed := config.consumed ++ [buffer] }
  | faulted (fault : Fault)
      (failed : nodeDest config.heap node = .error fault) :
      ReadOutcome config node rest (config.fail fault)
  | doubleFree (buffer dest : Bytes) (result : WimpInstrMeta)
      (fault : Fault)
      (decoded : nodeDest config.heap node = .ok (buffer, result, dest))
      (freed : wimpInstrNodeFree config.heap node = .error fault) :
      ReadOutcome config node rest (config.fail fault)

/-- What one iteration of the send loop can do. -/
inductive SendOutcome (config : Config) (node : WimpInstrNode)
    (rest : List WimpInstrNode) (granted : Bool) :
    List Int → Config → Prop where
  | faulted (fault : Fault)
      (failed : nodeDest config.heap node = .error fault) :
      SendOutcome config node rest granted [] (config.fail fault)
  | looped (buffer dest : Bytes) (result : WimpInstrMeta)
      (decoded : nodeDest config.heap node = .ok (buffer, result, dest))
      (own : dest = config.server.processName) :
      SendOutcome config node rest granted []
        (releaseNode
          { config with
            server :=
              { config.server with
                incomingmsg :=
                  wimpInstrQueueAdd config.server.incomingmsg
                    node.instruction result.totalBytes granted } }
          node rest)
  | dropped (buffer dest : Bytes) (result : WimpInstrMeta)
      (decoded : nodeDest config.heap node = .ok (buffer, result, dest))
      (foreign : dest ≠ config.server.processName)
      (unreachable :
        ∀ data ∈ sendTarget config.server dest,
          data.processActive = false) :
      SendOutcome config node rest granted []
        (releaseNode config node rest)
  | transmitted (buffer dest : Bytes) (result : WimpInstrMeta)
      (data : WimpProcessData) (results : List Int) (sent : Sent)
      (decoded : nodeDest config.heap node = .ok (buffer, result, dest))
      (foreign : dest ≠ config.server.processName)
      (target : sendTarget config.server dest = some data)
      (active : data.processActive = true)
      (loop : sendLoop buffer result.totalBytes 0 results = some sent) :
      SendOutcome config node rest granted results
        (match sent.status with
        | .finished =>
            releaseNode
              (config.transmit data.processConnection buffer sent.accepted)
              node rest
        | .blocked =>
            { config.transmit data.processConnection buffer
                sent.accepted with
              control := .blocked }
        | .outOfBounds =>
            (config.transmit data.processConnection buffer
              sent.accepted).fail .outOfBounds)

/-- The steps of a server, one constructor for each call and outcome. -/
inductive Transition (config : Config) : Action → Config → Prop where
  | added (dest instr : CString) (args : Bytes) (block : Option Address)
      (granted : Bool)
      (control : config.control = .ready)
      (fresh : Fresh config.heap block) :
      Transition config (.add dest instr args block granted)
        (wimpServerAdd config dest instr args block granted)
  | received (instruction : Bytes) (block : Address) (granted : Bool)
      (alive : ∀ fault, config.control ≠ .fault fault)
      (fresh : config.heap block = none)
      (counts : HeaderCounts instruction) :
      Transition config (.receive instruction block granted)
        (receiveInstruction config instruction block granted)
  | readNothing
      (control : config.control = .ready)
      (empty : config.server.incomingmsg = []) :
      Transition config .read config
  | read (node : WimpInstrNode) (rest : List WimpInstrNode)
      (next : Config)
      (control : config.control = .ready)
      (queue : config.server.incomingmsg = node :: rest)
      (outcome : ReadOutcome config node rest next) :
      Transition config .read next
  | sendNothing (granted : Bool)
      (control : config.control = .ready)
      (empty : config.server.outgoingmsg = []) :
      Transition config (.send [] granted) config
  | send (node : WimpInstrNode) (rest : List WimpInstrNode)
      (results : List Int) (granted : Bool) (next : Config)
      (control : config.control = .ready)
      (queue : config.server.outgoingmsg = node :: rest)
      (outcome : SendOutcome config node rest granted results next) :
      Transition config (.send results granted) next
  | ping (processName : CString) (result : Option Int) (next : Config)
      (control : config.control = .ready)
      (checked :
        wimpServerCheckProcessListening config processName result =
          some next) :
      Transition config (.ping processName result) next

/-- The outcome of a popped node in the read loop. -/
theorem readNode_cases
    {config next : Config} {node : WimpInstrNode}
    {rest : List WimpInstrNode}
    (step :
      (match readNode config node rest with
        | .error fault => some (config.fail fault)
        | .ok next => some next) = some next) :
    ReadOutcome config node rest next := by
  unfold readNode at step
  cases decoded : nodeDest config.heap node with
  | error fault =>
      simp only [decoded, bind, Except.bind, Option.some.injEq] at step
      rw [← step]
      exact .faulted fault decoded
  | ok triple =>
      rcases triple with ⟨buffer, result, dest⟩
      simp only [decoded, bind, Except.bind] at step
      by_cases own : dest = config.server.processName
      · simp only [wimpServerInstrRouted, own, ne_eq, not_true_eq_false,
          if_false] at step
        cases freed : wimpInstrNodeFree config.heap node with
        | error fault =>
            simp only [freed, Option.some.injEq] at step
            rw [← step]
            exact .doubleFree buffer dest result fault decoded freed
        | ok heap =>
            simp only [freed, pure, Except.pure, Option.some.injEq]
              at step
            rw [← step]
            exact .consumed buffer dest result heap decoded own freed
      · simp only [wimpServerInstrRouted, ne_eq, own, not_false_eq_true,
          if_true, pure, Except.pure, Option.some.injEq] at step
        rw [← step]
        exact .routed buffer dest result decoded own

/-- The outcome of a popped node in the send loop. -/
theorem sendNode_cases
    {config next : Config} {node : WimpInstrNode}
    {rest : List WimpInstrNode} {results : List Int} {granted : Bool}
    (step : sendNode config node rest results granted = some next) :
    SendOutcome config node rest granted results next := by
  unfold sendNode at step
  split at step
  · rename_i fault failed
    split_ifs at step with none
    rw [Option.some.injEq] at step
    rw [none, ← step]
    exact .faulted fault failed
  · rename_i buffer result dest decoded
    by_cases own : dest = config.server.processName
    · rw [if_pos own] at step
      dsimp only at step
      split_ifs at step with nothing
      rw [Option.some.injEq] at step
      rw [nothing, ← step]
      exact .looped buffer dest result decoded own
    · rw [if_neg own] at step
      split at step
      · rename_i missing
        split_ifs at step with nothing
        rw [Option.some.injEq] at step
        rw [nothing, ← step]
        exact .dropped buffer dest result decoded own (by simp [missing])
      · rename_i data target
        by_cases active : data.processActive = true
        · rw [if_pos active] at step
          split at step
          · cases step
          · rename_i sent loop
            have outcome : SendOutcome config node rest granted results _ :=
              .transmitted buffer dest result data results sent decoded own
                target active loop
            cases status : sent.status with
            | finished =>
                simp only [status, Option.some.injEq] at step outcome
                rw [← step]
                exact outcome
            | blocked =>
                simp only [status, Option.some.injEq] at step outcome
                rw [← step]
                exact outcome
            | outOfBounds =>
                simp only [status, Option.some.injEq] at step outcome
                rw [← step]
                exact outcome
        · rw [if_neg active] at step
          split_ifs at step with nothing
          rw [Option.some.injEq] at step
          rw [nothing, ← step]
          refine .dropped buffer dest result decoded own ?_
          intro other member
          rw [target] at member
          rcases Option.some.inj member with rfl
          simpa using active

/-- Every step is one of the transitions. -/
theorem step_cases
    {config next : Config} {action : Action}
    (stepped : step config action = some next) :
    Transition config action next := by
  unfold step at stepped
  split at stepped
  · cases stepped
  · rename_i control
    split at stepped
    · split_ifs at stepped with ready
      cases stepped
      exact .received _ _ _ (by simp [control])
        (ready.1 _ rfl) ready.2
    · cases stepped
  · rename_i control
    split at stepped
    · split_ifs at stepped with fresh
      cases stepped
      exact .added _ _ _ _ _ control fresh
    · split_ifs at stepped with ready
      cases stepped
      exact .received _ _ _ (by simp [control])
        (ready.1 _ rfl) ready.2
    · split at stepped
      · rename_i empty
        cases stepped
        exact .readNothing control empty
      · rename_i node rest queue
        exact .read node rest next control queue (readNode_cases stepped)
    · split at stepped
      · rename_i empty
        split_ifs at stepped with none
        cases stepped
        rw [none]
        exact .sendNothing _ control empty
      · rename_i node rest queue
        exact .send node rest _ _ next control queue
          (sendNode_cases stepped)
    · exact .ping _ _ next control stepped

end Wimp.Server.Machine
