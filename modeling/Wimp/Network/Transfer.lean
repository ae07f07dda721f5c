import Wimp.Server.Health

/-!
# Sends under way

A send loop makes one send call after the other, and receivers may be at work
in between.  The module follows a send from call to call: after each of them
the connections have accepted what the loop, blocked behind that call, got
accepted.  What is accepted grows from call to call, whatever receivers append
meanwhile, and a loop which has finished has had the whole instruction
accepted.
-/

namespace Wimp.Network.Transfer

open Wimp.Lib.ByteRegion
open Wimp.Instr.Codec
open Wimp.ProcessTable
open Wimp.Server.Machine
open Wimp.Server.Ownership
open Wimp.Server.SendStream
open Wimp.Server.Queues

variable {config next : Config}

/--
The results of the send calls made so far for the node at the front of the
outgoing queue, and what the connections have accepted behind them.
-/
inductive Sending (config : Config) :
    List Int → (PSocket → Bytes) → Prop where
  | idle : Sending config [] config.accepted
  | under (node : WimpInstrNode) (rest : List WimpInstrNode)
      (buffer dest : Bytes) (result : WimpInstrMeta)
      (data : WimpProcessData) (results : List Int) (sent : Sent)
      (queue : config.server.outgoingmsg = node :: rest)
      (decoded : nodeDest config.heap node = .ok (buffer, result, dest))
      (foreign : dest ≠ config.server.processName)
      (target : sendTarget config.server dest = some data)
      (active : data.processActive = true)
      (loop : sendLoop buffer result.totalBytes 0 results = some sent)
      (blocked : sent.status = .blocked) :
      Sending config results
        (config.transmit data.processConnection buffer
          sent.accepted).accepted

/-- What has been handed over has been accepted as a whole. -/
def Settled (config : Config) : Prop :=
  ∀ connection,
    config.accepted connection = (config.handed connection).flatten

/-! ## The loop from call to call -/

/-- More calls only add to what a loop gets accepted. -/
theorem begins_of_sendLoop
    {buffer : Bytes} {totalBytes sentBytes : Nat}
    {results more : List Int} {sent longer : Sent}
    (loop : sendLoop buffer totalBytes sentBytes results = some sent)
    (goesOn :
      sendLoop buffer totalBytes sentBytes (results ++ more) =
        some longer) :
    sent.accepted <+: longer.accepted := by
  induction results generalizing sentBytes sent longer with
  | nil =>
      cases sendLoop_cases loop with
      | finished done => exact List.nil_prefix
      | outOfBounds before outside => exact List.nil_prefix
      | blocked before => exact List.nil_prefix
  | cons sendres rest induction =>
      cases sendLoop_cases loop with
      | continued chunk _ _ tail before sliced admissible tailLoop =>
          cases sendLoop_cases goesOn with
          | continued other _ _ longerTail _ otherSliced _ longerLoop =>
              rcases Option.some.inj (sliced.symm.trans otherSliced) with rfl
              exact
                (List.prefix_append_right_inj _).mpr
                  (induction tailLoop longerLoop)

/-- A loop which is blocked has not had the whole buffer accepted. -/
theorem length_lt_of_blocked
    {buffer : Bytes} {sentBytes : Nat} {results : List Int} {sent : Sent}
    (clean : -1 ∉ results) (small : buffer.length < 2 ^ 31)
    (inside : sentBytes ≤ buffer.length)
    (loop : sendLoop buffer buffer.length sentBytes results = some sent)
    (blocked : sent.status = .blocked) :
    sentBytes + sent.accepted.length < buffer.length := by
  induction results generalizing sentBytes sent with
  | nil =>
      cases sendLoop_cases loop with
      | finished done => cases blocked
      | outOfBounds before outside => cases blocked
      | blocked before => exact before
  | cons sendres rest induction =>
      cases sendLoop_cases loop with
      | continued chunk _ _ tail before sliced admissible tailLoop =>
          rw [List.mem_cons, not_or] at clean
          rcases admissible.resolve_left (Ne.symm clean.1) with
            ⟨positive, bounded⟩
          rcases (slice_eq_some_iff _ _ _ _).mp sliced with
            ⟨front, back, split, position, length⟩
          have total := congrArg List.length split
          rw [List.length_append, List.length_append] at total
          have converted : toSizeT sendres = sendres.toNat := by
            unfold toSizeT
            omega
          rw [converted, addSizeT_of_lt (by omega)] at tailLoop
          have shorter := induction clean.2 (by omega) tailLoop blocked
          rw [List.length_append, List.length_take]
          omega

/-! ## Calls of a server -/

@[simp]
theorem accepted_releaseNode
    (node : WimpInstrNode) (rest : List WimpInstrNode) :
    (releaseNode config node rest).accepted = config.accepted := by
  unfold releaseNode
  split <;> rfl

@[simp]
theorem handed_releaseNode
    (node : WimpInstrNode) (rest : List WimpInstrNode) :
    (releaseNode config node rest).handed = config.handed := by
  unfold releaseNode
  split <;> rfl

@[simp]
theorem accepted_transmit (connection : PSocket) (item accepted : Bytes) :
    (config.transmit connection item accepted).accepted =
      Function.update config.accepted connection
        (config.accepted connection ++ accepted) :=
  rfl

@[simp]
theorem handed_transmit (connection : PSocket) (item accepted : Bytes) :
    (config.transmit connection item accepted).handed =
      Function.update config.handed connection
        (config.handed connection ++ [item]) :=
  rfl

/-- A released node does not block the thread. -/
theorem releaseNode_ne_blocked
    {config : Config} (control : config.control = .ready)
    (node : WimpInstrNode) (rest : List WimpInstrNode) :
    (releaseNode config node rest).control ≠ .blocked := by
  unfold releaseNode
  split
  · exact Control.noConfusion
  · exact control.symm ▸ Control.noConfusion

/-- A transmission adds to what its connection has accepted. -/
theorem begins_transmit
    (connection other : PSocket) (item accepted : Bytes) :
    config.accepted other <+:
      (config.transmit connection item accepted).accepted other := by
  rw [accepted_transmit]
  by_cases same : other = connection
  · rw [same, Function.update_self]
    exact List.prefix_append _ _
  · simp only [Function.update_of_ne same, List.prefix_rfl]

/-- A transmission of more adds more to what its connection has accepted. -/
theorem transmit_begins
    (connection other : PSocket) (item : Bytes) {accepted longer : Bytes}
    (begins : accepted <+: longer) :
    (config.transmit connection item accepted).accepted other <+:
      (config.transmit connection item longer).accepted other := by
  rw [accepted_transmit, accepted_transmit]
  by_cases same : other = connection
  · rw [same, Function.update_self, Function.update_self]
    exact (List.prefix_append_right_inj _).mpr begins
  · simp only [Function.update_of_ne same, List.prefix_rfl]

/-- A call which blocks the thread is under way. -/
theorem sending_of_blocked
    {results : List Int} {granted : Bool}
    (stepped : step config (.send results granted) = some next)
    (blocked : next.control = .blocked) :
    Sending config results next.accepted := by
  cases step_cases stepped with
  | sendNothing _ control empty => cases control.symm.trans blocked
  | send node rest _ _ _ control queue outcome =>
      cases outcome with
      | faulted fault failed => cases blocked
      | looped buffer dest result decoded own =>
          refine absurd blocked (releaseNode_ne_blocked ?_ node rest)
          exact control
      | dropped buffer dest result decoded foreign unreachable =>
          exact absurd blocked (releaseNode_ne_blocked control node rest)
      | transmitted buffer dest result data _ sent decoded foreign target
          active loop =>
          cases status : sent.status with
          | finished =>
              simp only [status] at blocked
              refine absurd blocked (releaseNode_ne_blocked ?_ node rest)
              exact control
          | blocked =>
              exact .under node rest buffer dest result data results sent
                queue decoded foreign target active loop status
          | outOfBounds =>
              simp only [status] at blocked
              cases blocked

/-- What is accepted during a send grows from call to call. -/
theorem Sending.accepted_begins
    {results more : List Int} {granted : Bool} {wire : PSocket → Bytes}
    (sending : Sending config results wire)
    (stepped : step config (.send (results ++ more) granted) = some next)
    (connection : PSocket) :
    wire connection <+: next.accepted connection := by
  generalize calls : results ++ more = made at stepped
  cases step_cases stepped with
  | sendNothing _ control empty =>
      cases sending with
      | idle => exact List.prefix_rfl
      | under node rest buffer dest result data _ sent queue decoded foreign
          target active loop blocked =>
          cases queue.symm.trans empty
  | send node rest _ _ _ control queue outcome =>
      cases sending with
      | idle =>
          cases outcome with
          | faulted fault failed => exact List.prefix_rfl
          | looped buffer dest result decoded own =>
              simp only [accepted_releaseNode, List.prefix_rfl]
          | dropped buffer dest result decoded foreign unreachable =>
              simp only [accepted_releaseNode, List.prefix_rfl]
          | transmitted buffer dest result data _ sent decoded foreign
              target active loop =>
              have begins :=
                @begins_transmit config data.processConnection
                  connection buffer sent.accepted
              split
              · rw [accepted_releaseNode]
                exact begins
              · exact begins
              · exact begins
      | under first others buffer dest result data _ sent begun decoded
          foreign target active loop blocked =>
          -- the same node is still at the front of the queue
          cases begun.symm.trans queue
          cases outcome with
          | faulted fault failed => cases decoded.symm.trans failed
          | looped _ _ _ found own =>
              cases decoded.symm.trans found
              exact absurd own foreign
          | dropped _ _ _ found _ unreachable =>
              cases decoded.symm.trans found
              rw [unreachable data target] at active
              cases active
          | transmitted _ _ _ _ _ longer found _ other _ goesOn =>
              subst calls
              cases decoded.symm.trans found
              cases target.symm.trans other
              have begins :=
                @transmit_begins config data.processConnection
                  connection buffer _ _
                  (begins_of_sendLoop loop goesOn)
              split
              · rw [accepted_releaseNode]
                exact begins
              · exact begins
              · exact begins

/-- Before the first call nothing has been accepted. -/
theorem Sending.eq_accepted
    {wire : PSocket → Bytes} (sending : Sending config [] wire) :
    wire = config.accepted := by
  cases sending with
  | idle => rfl
  | under node rest buffer dest result data _ sent queue decoded foreign
      target active loop blocked =>
      have nothing : sent.accepted = [] := by
        cases sendLoop_cases loop <;> rfl
      rw [nothing, accepted_transmit, List.append_nil,
        Function.update_eq_self]

/-- A new block is not seen by a node which can be decoded. -/
theorem nodeDest_allocate
    {heap : Heap} {address : Address} {node : WimpInstrNode}
    {buffer dest : Bytes} {result : WimpInstrMeta}
    (free : heap address = none) (block : Option Bytes)
    (decoded : nodeDest heap node = .ok (buffer, result, dest)) :
    nodeDest (Function.update heap address block) node =
      .ok (buffer, result, dest) := by
  rcases live_of_nodeDest decoded with ⟨place, points, live, -, -⟩
  have elsewhere : place ≠ address := by
    rintro rfl
    cases free.symm.trans live
  rw [← decoded]
  simp only [nodeDest, nodeMeta, points, Function.update_of_ne elsewhere]

/-- A send under way is not disturbed by a receiver. -/
theorem Sending.receive
    {results : List Int} {wire : PSocket → Bytes} {instruction : Bytes}
    {block : Address} {granted : Bool}
    (sending : Sending config results wire)
    (stepped :
      step config (.receive instruction block granted) = some next) :
    Sending next results wire := by
  cases step_cases stepped with
  | received _ _ _ alive free counts =>
      cases sending with
      | idle => exact .idle
      | under node rest buffer dest result data _ sent queue decoded foreign
          target active loop blocked =>
          exact .under node rest buffer dest result data results sent queue
            (nodeDest_allocate free _ decoded) foreign target active loop
            blocked

/-! ## What the connections carry -/

/-- A node at the front of a sound server counts its bytes. -/
theorem totalBytes_of_front
    (sound : Sound config) {node : WimpInstrNode}
    {rest : List WimpInstrNode} {buffer dest : Bytes}
    {result : WimpInstrMeta}
    (queue : config.server.outgoingmsg = node :: rest)
    (decoded : nodeDest config.heap node = .ok (buffer, result, dest)) :
    result.totalBytes = buffer.length ∧ buffer.length < 2 ^ 31 ∧
      buffer ∈ (view config).outgoing := by
  have member : buffer ∈ (view config).outgoing := by
    rw [outgoing_of_queue queue (bytesOf_of_nodeDest decoded).1]
    exact List.mem_cons_self ..
  have counted :=
    totalBytes_of_nodeDest decoded
      (sound.framed buffer (List.mem_append_right _ member))
  exact ⟨counted.1, counted.2, member⟩

/-- A transmission of a whole instruction leaves everything settled. -/
theorem Settled.transmit
    (settled : Settled config) (connection : PSocket) (item : Bytes) :
    Settled (config.transmit connection item item) := by
  intro other
  rw [accepted_transmit, handed_transmit]
  by_cases same : other = connection
  · subst same
    rw [Function.update_self, Function.update_self, settled,
      List.flatten_concat]
  · rw [Function.update_of_ne same, Function.update_of_ne same, settled]

/-- Every orderly step which does not block leaves everything settled. -/
theorem settled_of_step
    {action : Action} (sound : Sound config) (settled : Settled config)
    (orderly : Orderly config action)
    (passes :
      ∀ results granted, action = .send results granted →
        next.control ≠ .blocked)
    (stepped : step config action = some next) :
    Settled next := by
  cases step_cases stepped with
  | added dest instr args block granted control fresh =>
      unfold wimpServerAdd
      split <;> exact settled
  | received instruction block granted alive free counts => exact settled
  | readNothing control empty => exact settled
  | read node rest next control queue outcome =>
      cases outcome <;> exact settled
  | sendNothing granted control empty => exact settled
  | send node rest results granted next control queue outcome =>
      cases outcome with
      | faulted fault failed => exact settled
      | looped buffer dest result decoded own =>
          intro connection
          rw [accepted_releaseNode, handed_releaseNode]
          exact settled connection
      | dropped buffer dest result decoded foreign unreachable =>
          intro connection
          rw [accepted_releaseNode, handed_releaseNode]
          exact settled connection
      | transmitted buffer dest result data _ sent decoded foreign target
          active loop =>
          rcases totalBytes_of_front sound queue decoded with
            ⟨total, small, -⟩
          have inside := sound.sendLoop_inside queue decoded orderly loop
          cases status : sent.status with
          | finished =>
              rw [total] at loop
              have whole :=
                (sendLoop_of_clean orderly (by omega) (Nat.zero_le _)
                  (Nat.le_refl _) loop).2 status
              rw [whole, List.drop_zero]
              intro connection
              rw [accepted_releaseNode, handed_releaseNode]
              exact settled.transmit _ _ connection
          | blocked =>
              simp only [status] at passes
              exact absurd rfl (passes results granted rfl)
          | outOfBounds => exact absurd status inside
  | ping processName result next control checked => exact orderly.elim

/--
Behind complete instructions a connection carries at most the beginning of
one which is queued.
-/
theorem Sending.exists_part
    {results : List Int} {wire : PSocket → Bytes}
    (sending : Sending config results wire) (sound : Sound config)
    (settled : Settled config) (clean : -1 ∉ results)
    (connection : PSocket) :
    ∃ part,
      wire connection = (config.handed connection).flatten ++ part ∧
        (part = [] ∨
          ∃ front ∈ (view config).outgoing,
            part <+: front ∧ part.length < front.length) := by
  cases sending with
  | idle =>
      exact ⟨[], by rw [settled, List.append_nil], Or.inl rfl⟩
  | under node rest buffer dest result data _ sent queue decoded foreign
      target active loop blocked =>
      rcases totalBytes_of_front sound queue decoded with
        ⟨total, small, member⟩
      rw [total] at loop
      rw [accepted_transmit]
      by_cases same : connection = data.processConnection
      · subst same
        have begins :=
          (sendLoop_of_clean clean (by omega) (Nat.zero_le _)
            (Nat.le_refl _) loop).1
        have shorter :=
          length_lt_of_blocked clean small (Nat.zero_le _) loop blocked
        rw [List.drop_zero] at begins
        rw [Nat.zero_add] at shorter
        refine
          ⟨sent.accepted, ?_, Or.inr ⟨buffer, member, begins, shorter⟩⟩
        rw [Function.update_self, settled]
      · refine ⟨[], ?_, Or.inl rfl⟩
        rw [Function.update_of_ne same, settled, List.append_nil]

end Wimp.Network.Transfer
