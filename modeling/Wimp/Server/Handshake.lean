import Wimp.Server.AcceptAlone
import Wimp.Server.AcceptEveryone

/-!
# The handshake between receivers and a server

A receiver connects to a server, sends a handshake with the name of its
process and waits for the answer; the accept loop of the server takes one
connection after the other, judges its handshake and answers those which it
accepts.  Receivers and server interleave in any way, and what is sent is on
its way until it is received.

A connection has the number of its receiver.  A receiver which has given up
has released its address and its socket, except where the source forgets the
address.  One which reads an error that no call has reported, or which copies
a name past its buffer, dies.
-/

namespace Wimp.Server.Handshake

open Wimp.Lib.ByteRegion
open Wimp.Lib.Runs
open Wimp.ProcessTable
open Wimp.Server.Machine
open Wimp.Server.Accept
open Wimp.Server.AcceptAlone
open Wimp.Server.AcceptEveryone
open Wimp.Reciever.Machine (wimpMessageBufferBytes Received)

/-- `WIMP_REC_TRY_COUNT`. -/
def wimpRecTryCount : Nat := 5

/-- The answer of the server, a header without a name. -/
def answer : Bytes := handshakeHeader ++ toLE 4 0

/-- Where control stands in `wimp_reciever_init`. -/
inductive Control where
  | addressing
  | opening
  | connecting (numTries : Nat)
  | sending
  | recieving
  | success
  | fail
  | fault
deriving DecidableEq, Repr

/-- A call of `wimp_reciever_init`, with what it holds. -/
structure RecieverInit where
  control : Control := .addressing
  /-- `rec_address` has not been released. -/
  recAddress : Bool := false
  /-- `recsock` has not been released. -/
  recsock : Bool := false
  /-- A failed call has written `err`, which nothing else initialises. -/
  err : Bool := false
deriving DecidableEq, Repr

/-- The call fails and releases its address and its socket. -/
def RecieverInit.giveUp (reciever : RecieverInit) : RecieverInit :=
  { reciever with control := .fail, recAddress := false, recsock := false }

/--
The handshake has not been received.  This call does not report an error: the
one which is read and released is that of a failed `p_socket_connect`.
-/
def RecieverInit.noHandshake (reciever : RecieverInit) : RecieverInit :=
  if reciever.err then reciever.giveUp
  else { reciever with control := .fault }

/-- The call with its handshake asks for the address. -/
def RecieverInit.newAddress (reciever : RecieverInit) (granted : Bool) :
    Option Bytes → RecieverInit
  | none => { reciever with control := .fault }
  | some _ =>
      if granted then
        { reciever with control := .opening, recAddress := true }
      else { reciever with control := .fail }

/-- What a receiver with this name sends when it gets that far. -/
def sentHandshake (processName : CString) : Bytes :=
  (wimpCreateHandshake processName).getD []

/-- A server in its accept loop, the receivers, and what is on its way. -/
structure World where
  server : AcceptConfig
  recievers : PSocket → RecieverInit := fun _ => {}
  /-- The connections which the server has not accepted yet. -/
  backlog : List PSocket := []
  toServer : PSocket → Bytes := fun _ => []
  toReciever : PSocket → Bytes := fun _ => []

/--
What happens at a receiver, and the rounds of the accept loop.  A round with a
handshake receives some of the bytes on the connection; its answer may be
accepted in part.
-/
inductive Action where
  | address (con : PSocket) (granted : Bool)
  | socket (con : PSocket) (granted : Bool)
  | connect (con : PSocket) (made : Bool)
  | send (con : PSocket) (sent : Nat)
  | recieve (con : PSocket) (received : Received)
  | refused
  | silent
  | accept (count sent : Nat)
deriving DecidableEq, Repr

/-- A receiver makes a step. -/
def World.setReciever (world : World) (con : PSocket)
    (reciever : RecieverInit) : World :=
  { world with recievers := Function.update world.recievers con reciever }

/-- `wimp_reciever_init` on the received handshake. -/
def checkHandshake (reciever : RecieverInit) (bytes : Bytes) :
    RecieverInit :=
  let recbuffer :=
    bytes ++ List.replicate (wimpMessageBufferBytes - bytes.length) 0
  if int32At recbuffer 0 ≠ some (toInt32 wimpRecieverHandshake) then
    reciever.giveUp
  else { reciever with control := .success }

/-- The answer goes out when the round has accepted its connection. -/
def World.reply (world : World) (con : PSocket) (server : AcceptConfig)
    (sent : Nat) : World :=
  if server.activated = world.server.activated then { world with server }
  else
    { world with
      server
      toReciever :=
        Function.update world.toReciever con
          (world.toReciever con ++ answer.take sent) }

/-- One step of a receiver or one round of the accept loop. -/
def step (pnames : List CString) (names : PSocket → CString)
    (world : World) : Action → Option World
  | .address con granted =>
      let reciever := world.recievers con
      if reciever.control = .addressing then
        some
          (world.setReciever con
            (reciever.newAddress granted (wimpCreateHandshake (names con))))
      else none
  | .socket con granted =>
      let reciever := world.recievers con
      if reciever.control = .opening then
        some
          (world.setReciever con
            (if granted then
              { reciever with control := .connecting 0, recsock := true }
            else
              -- the address is not released here
              { reciever with control := .fail, err := true }))
      else none
  | .connect con made =>
      let reciever := world.recievers con
      match reciever.control with
      | .connecting numTries =>
          if made then
            some
              { world.setReciever con { reciever with control := .sending } with
                backlog := world.backlog ++ [con] }
          else if numTries + 1 < wimpRecTryCount then
            some
              (world.setReciever con
                { reciever with
                  control := .connecting (numTries + 1), err := true })
          else
            some (world.setReciever con { reciever.giveUp with err := true })
      | _ => none
  | .send con sent =>
      let reciever := world.recievers con
      if reciever.control = .sending then
        some
          { world.setReciever con { reciever with control := .recieving } with
            toServer :=
              Function.update world.toServer con
                ((sentHandshake (names con)).take sent) }
      else none
  | .recieve con received =>
      let reciever := world.recievers con
      if reciever.control = .recieving ∧ received.Admissible ∧
          received.bytes <+: world.toReciever con then
        some
          { world.setReciever con
              (if received.size ≤ 0 then reciever.noHandshake
              else checkHandshake reciever received.bytes) with
            toReciever :=
              Function.update world.toReciever con
                ((world.toReciever con).drop received.bytes.length) }
      else none
  | .refused =>
      (acceptStep pnames world.server .refused).map fun server =>
        { world with server }
  | .silent =>
      match world.backlog with
      | [] => none
      | con :: backlog =>
          (acceptStep pnames world.server (.silent con)).map fun server =>
            { world with server, backlog }
  | .accept count sent =>
      match world.backlog with
      | [] => none
      | con :: backlog =>
          let bytes := (world.toServer con).take count
          if received :
              0 < bytes.length ∧ bytes.length ≤ wimpMessageBufferBytes then
            (acceptStep pnames world.server
                (.handshake con ⟨bytes, received⟩)).map fun server =>
              { world.reply con server sent with
                backlog
                toServer :=
                  Function.update world.toServer con
                    ((world.toServer con).drop count) }
          else none

/-- A server in front of its first round, and receivers yet to start. -/
def started (server : WimpServer) (recbuffer : WimpMsgBuffer) : World :=
  { server := acceptStart server recbuffer }

/-- The connection of an activation. -/
def Activated (world : World) (con : PSocket) : Prop :=
  ∃ activation ∈ world.server.activated, activation.con = con

/-! ## What the steps do -/

/-- The connection has been made. -/
def Control.Connected : Control → Prop
  | .addressing => False
  | .opening => False
  | .connecting _ => False
  | .sending => True
  | .recieving => True
  | .success => True
  | .fail => True
  | .fault => True

@[simp]
theorem setReciever_recievers
    (world : World) (con : PSocket) (reciever : RecieverInit) :
    (world.setReciever con reciever).recievers =
      Function.update world.recievers con reciever :=
  rfl

@[simp]
theorem setReciever_server
    (world : World) (con : PSocket) (reciever : RecieverInit) :
    (world.setReciever con reciever).server = world.server :=
  rfl

/-- Only a valid answer makes a receiver return success. -/
theorem checkHandshake_control
    (reciever : RecieverInit) (bytes : Bytes) :
    (checkHandshake reciever bytes).control = .success ∨
      (checkHandshake reciever bytes).control = .fail := by
  unfold checkHandshake
  dsimp only
  split_ifs
  · exact .inr rfl
  · exact .inl rfl

/-- A receiver without a handshake never returns success. -/
theorem noHandshake_control (reciever : RecieverInit) :
    reciever.noHandshake.control = .fail ∨
      reciever.noHandshake.control = .fault := by
  unfold RecieverInit.noHandshake
  split_ifs
  · exact .inl rfl
  · exact .inr rfl

/-- With its address a receiver has not connected yet. -/
theorem newAddress_control
    (reciever : RecieverInit) (granted : Bool) (header : Option Bytes) :
    ¬ (reciever.newAddress granted header).control.Connected ∨
      (reciever.newAddress granted header).control = .fail ∨
      (reciever.newAddress granted header).control = .fault := by
  cases header with
  | none => exact .inr (.inr rfl)
  | some header =>
      cases granted with
      | false => exact .inr (.inl rfl)
      | true => exact .inl not_false

theorem newAddress_unsuccessful
    (reciever : RecieverInit) (granted : Bool) (header : Option Bytes) :
    (reciever.newAddress granted header).control ≠ .success := by
  intro success
  rcases newAddress_control reciever granted header with
    unconnected | fail | fault
  · rw [success] at unconnected
    exact unconnected trivial
  · cases fail.symm.trans success
  · cases fault.symm.trans success

/-- A round without an activation sends no answer. -/
theorem reply_of_idle
    {world : World} {server : AcceptConfig} (con : PSocket) (sent : Nat)
    (log : server.activated = world.server.activated) :
    world.reply con server sent = { world with server } :=
  if_pos log

/-- A round with an activation sends its answer. -/
theorem reply_of_activated
    {world : World} {server : AcceptConfig} {activation : Activation}
    (con : PSocket) (sent : Nat)
    (log :
      server.activated = world.server.activated ++ [activation]) :
    world.reply con server sent =
      { world with
        server
        toReciever :=
          Function.update world.toReciever con
            (world.toReciever con ++ answer.take sent) } := by
  apply if_neg
  rw [log]
  simp

theorem address_cases
    {pnames : List CString} {names : PSocket → CString}
    {world next : World} {con : PSocket} {granted : Bool}
    (stepped :
      step pnames names world (.address con granted) = some next) :
    (world.recievers con).control = .addressing ∧
      next =
        world.setReciever con
          ((world.recievers con).newAddress granted
            (wimpCreateHandshake (names con))) := by
  unfold step at stepped
  dsimp only at stepped
  split at stepped
  case isFalse => cases stepped
  case isTrue control =>
    exact ⟨control, (Option.some.inj stepped).symm⟩

/-- A round with a handshake takes the first waiting connection. -/
theorem accept_cases
    {pnames : List CString} {names : PSocket → CString}
    {world next : World} {count sent : Nat}
    (stepped : step pnames names world (.accept count sent) = some next) :
    ∃ con backlog server, ∃ handshake : Handshake,
      world.backlog = con :: backlog ∧
        handshake.val = (world.toServer con).take count ∧
        acceptStep pnames world.server (.handshake con handshake) =
          some server ∧
        next =
          { world.reply con server sent with
            backlog
            toServer :=
              Function.update world.toServer con
                ((world.toServer con).drop count) } := by
  unfold step at stepped
  cases waiting : world.backlog with
  | nil => simp [waiting] at stepped
  | cons con backlog =>
      simp only [waiting] at stepped
      split at stepped
      case isFalse => cases stepped
      case isTrue received =>
        rcases Option.map_eq_some_iff.mp stepped with
          ⟨server, accepted, rfl⟩
        exact
          ⟨con, backlog, server, ⟨_, received⟩, rfl, rfl, accepted, rfl⟩

/-- A round without a handshake takes the first waiting connection too. -/
theorem silent_cases
    {pnames : List CString} {names : PSocket → CString}
    {world next : World}
    (stepped : step pnames names world .silent = some next) :
    ∃ con backlog server,
      world.backlog = con :: backlog ∧
        acceptStep pnames world.server (.silent con) = some server ∧
        next = { world with server, backlog } := by
  unfold step at stepped
  cases waiting : world.backlog with
  | nil => simp [waiting] at stepped
  | cons con backlog =>
      simp only [waiting] at stepped
      rcases Option.map_eq_some_iff.mp stepped with
        ⟨server, accepted, rfl⟩
      exact ⟨con, backlog, server, rfl, accepted, rfl⟩

/-! ## What holds at any time -/

/-- What the receivers and the server know about each other. -/
structure Consistent (pnames : List CString) (names : PSocket → CString)
    (server : WimpServer) (recbuffer : WimpMsgBuffer) (world : World) :
    Prop where
  served :
    ∃ arrivals,
      run (acceptStep pnames) (acceptStart server recbuffer) arrivals =
        some world.server
  distinct : (world.backlog ++ world.server.sockets).Nodup
  connected :
    ∀ con ∈ world.backlog ++ world.server.sockets,
      (world.recievers con).control.Connected
  activated :
    (world.server.activated.map Activation.con).Sublist
      world.server.sockets
  unanswered : ∀ con, ¬ Activated world con → world.toReciever con = []
  pending :
    ∀ con ∉ world.server.sockets,
      world.toServer con <+: sentHandshake (names con)
  handshake :
    ∀ activation ∈ world.server.activated,
      activation.handshake.val <+: sentHandshake (names activation.con)
  success :
    ∀ con, (world.recievers con).control = .success →
      Activated world con

section Steps

variable {pnames : List CString} {names : PSocket → CString}
variable {server : WimpServer} {recbuffer : WimpMsgBuffer}
variable {world next : World}

theorem consistent_started (pnames : List CString)
    (names : PSocket → CString) (server : WimpServer)
    (recbuffer : WimpMsgBuffer) :
    Consistent pnames names server recbuffer
      (started server recbuffer) where
  served := ⟨[], rfl⟩
  distinct := List.nodup_nil
  connected := nofun
  activated := List.Sublist.refl []
  unanswered _ _ := rfl
  pending _ _ := List.nil_prefix
  handshake := nofun
  success := nofun

/-- A receiver goes on; it reads what has been sent to it. -/
theorem consistent_setReciever
    (consistent : Consistent pnames names server recbuffer world)
    {con : PSocket} {reciever : RecieverInit} {left : Bytes}
    (connected :
      (world.recievers con).control.Connected →
        reciever.control.Connected)
    (success : reciever.control = .success → Activated world con)
    (unanswered : ¬ Activated world con → left = []) :
    Consistent pnames names server recbuffer
      { world.setReciever con reciever with
        toReciever := Function.update world.toReciever con left } := by
  constructor
  case served => exact consistent.served
  case distinct => exact consistent.distinct
  case connected =>
    intro other member
    have before := consistent.connected other member
    by_cases same : other = con
    · subst same
      simpa using connected before
    · simpa [same] using before
  case activated => exact consistent.activated
  case unanswered =>
    intro other inactive
    by_cases same : other = con
    · subst same
      simpa using unanswered inactive
    · simpa [same] using consistent.unanswered other inactive
  case pending => exact consistent.pending
  case handshake => exact consistent.handshake
  case success =>
    intro other done
    by_cases same : other = con
    · subst same
      exact success (by simpa using done)
    · exact consistent.success other (by simpa [same] using done)

/-- A receiver goes on without reading. -/
theorem consistent_setReciever_unread
    (consistent : Consistent pnames names server recbuffer world)
    (con : PSocket) (reciever : RecieverInit)
    (connected :
      (world.recievers con).control.Connected →
        reciever.control.Connected)
    (success : reciever.control = .success → Activated world con) :
    Consistent pnames names server recbuffer
      (world.setReciever con reciever) := by
  have read :=
    consistent_setReciever consistent connected success
      (consistent.unanswered con)
  rwa [Function.update_eq_self] at read

theorem consistent_newAddress
    (consistent : Consistent pnames names server recbuffer world)
    {con : PSocket}
    (addressing : (world.recievers con).control = .addressing)
    (granted : Bool) (header : Option Bytes) :
    Consistent pnames names server recbuffer
      (world.setReciever con
        ((world.recievers con).newAddress granted header)) := by
  apply consistent_setReciever_unread consistent
  · simp [addressing, Control.Connected]
  · intro success
    exact absurd success (newAddress_unsuccessful _ granted header)

/-- A receiver which has connected waits to be accepted. -/
theorem consistent_connect
    (consistent : Consistent pnames names server recbuffer world)
    {con : PSocket}
    (unconnected : ¬ (world.recievers con).control.Connected)
    {reciever : RecieverInit} (sending : reciever.control = .sending) :
    Consistent pnames names server recbuffer
      { world.setReciever con reciever with
        backlog := world.backlog ++ [con] } := by
  have fresh : con ∉ world.backlog ++ world.server.sockets :=
    fun member => unconnected (consistent.connected con member)
  have moved :=
    consistent_setReciever_unread consistent con reciever
      (fun before => absurd before unconnected) (by simp [sending])
  have order :
      (world.backlog ++ [con] ++ world.server.sockets).Perm
        (con :: (world.backlog ++ world.server.sockets)) := by
    rw [List.append_assoc]
    exact List.perm_middle
  constructor
  case served => exact moved.served
  case distinct =>
    exact order.nodup_iff.mpr
      (List.nodup_cons.mpr ⟨fresh, consistent.distinct⟩)
  case connected =>
    intro other member
    rcases List.mem_cons.mp (order.mem_iff.mp member) with rfl | member
    · simp [sending, Control.Connected]
    · exact moved.connected other member
  case activated => exact moved.activated
  case unanswered => exact moved.unanswered
  case pending => exact moved.pending
  case handshake => exact moved.handshake
  case success => exact moved.success

/-- A receiver which has connected sends its handshake, or a part of it. -/
theorem consistent_send
    (consistent : Consistent pnames names server recbuffer world)
    {con : PSocket} {reciever : RecieverInit}
    (recieving : reciever.control = .recieving) (sent : Nat) :
    Consistent pnames names server recbuffer
      { world.setReciever con reciever with
        toServer :=
          Function.update world.toServer con
            ((sentHandshake (names con)).take sent) } := by
  have moved :=
    consistent_setReciever_unread consistent con reciever
      (by simp [recieving, Control.Connected]) (by simp [recieving])
  constructor
  case served => exact moved.served
  case distinct => exact moved.distinct
  case connected => exact moved.connected
  case activated => exact moved.activated
  case unanswered => exact moved.unanswered
  case pending =>
    intro other outside
    by_cases same : other = con
    · subst same
      simpa using List.take_prefix sent _
    · simpa [same] using consistent.pending other outside
  case handshake => exact moved.handshake
  case success => exact moved.success

/--
A round takes connections out of the backlog; what it activates was sent on
one of them, and only these are answered.
-/
theorem consistent_round
    (consistent : Consistent pnames names server recbuffer world)
    {incoming : Incoming} {config : AcceptConfig} {backlog : List PSocket}
    {toServer toReciever : PSocket → Bytes}
    (taken : List PSocket) (activations : List Activation)
    (round : acceptStep pnames world.server incoming = some config)
    (waiting : world.backlog = taken ++ backlog)
    (sockets : config.sockets = world.server.sockets ++ taken)
    (log : config.activated = world.server.activated ++ activations)
    (new : (activations.map Activation.con).Sublist taken)
    (handshake :
      ∀ activation ∈ activations,
        activation.handshake.val <+: sentHandshake (names activation.con))
    (pending :
      ∀ con ∉ config.sockets, toServer con = world.toServer con)
    (unanswered :
      ∀ con, (∀ activation ∈ activations, activation.con ≠ con) →
        toReciever con = world.toReciever con) :
    Consistent pnames names server recbuffer
      { world with server := config, backlog, toServer, toReciever } := by
  have order :
      (backlog ++ config.sockets).Perm
        (world.backlog ++ world.server.sockets) := by
    rw [waiting, sockets, ← List.append_assoc, List.append_assoc taken]
    exact List.perm_append_comm
  constructor
  case served =>
    rcases consistent.served with ⟨arrivals, ran⟩
    exact
      ⟨arrivals ++ [incoming],
        run_concat_eq_some_iff.mpr ⟨world.server, ran, round⟩⟩
  case distinct => exact order.nodup_iff.mpr consistent.distinct
  case connected =>
    intro con member
    exact consistent.connected con (order.mem_iff.mp member)
  case activated =>
    show (config.activated.map Activation.con).Sublist config.sockets
    rw [log, sockets, List.map_append]
    exact consistent.activated.append new
  case unanswered =>
    intro con inactive
    have absent (activation : Activation)
        (member : activation ∈ config.activated) : activation.con ≠ con :=
      fun same => inactive ⟨activation, member, same⟩
    rw [log] at absent
    rw [← consistent.unanswered con]
    · apply unanswered
      intro activation member
      exact absent activation (List.mem_append_right _ member)
    · rintro ⟨activation, member, same⟩
      exact absent activation (List.mem_append_left _ member) same
  case pending =>
    intro con outside
    have before : con ∉ world.server.sockets := by
      intro member
      apply outside
      show con ∈ config.sockets
      rw [sockets]
      exact List.mem_append_left _ member
    have unsent := consistent.pending con before
    rwa [← pending con outside] at unsent
  case handshake =>
    intro activation member
    have member : activation ∈ world.server.activated ++ activations :=
      log ▸ member
    rcases List.mem_append.mp member with old | new
    · exact consistent.handshake activation old
    · exact handshake activation new
  case success =>
    intro con done
    rcases consistent.success con done with ⟨activation, member, same⟩
    refine ⟨activation, ?_, same⟩
    show activation ∈ config.activated
    rw [log]
    exact List.mem_append_left _ member

/-- A connection in the backlog has not been accepted. -/
theorem Consistent.not_taken
    (consistent : Consistent pnames names server recbuffer world)
    {con : PSocket} (waiting : con ∈ world.backlog) :
    con ∉ world.server.sockets ∧ ¬ Activated world con := by
  have outside : con ∉ world.server.sockets := fun taken =>
    (List.nodup_append.mp consistent.distinct).2.2 con waiting con taken
      rfl
  refine ⟨outside, ?_⟩
  rintro ⟨activation, member, rfl⟩
  exact
    outside
      (consistent.activated.subset (List.mem_map_of_mem member))

/-- A round with a handshake activates its own connection or none. -/
theorem consistent_accept
    (consistent : Consistent pnames names server recbuffer world)
    {count sent : Nat}
    (stepped :
      step pnames names world (.accept count sent) = some next) :
    Consistent pnames names server recbuffer next := by
  rcases accept_cases stepped with
    ⟨con, backlog, config, handshake, waiting, received, round, rfl⟩
  rcases round_of_step round with ⟨change, sockets, -⟩
  have outside : con ∉ world.server.sockets :=
    (consistent.not_taken (waiting ▸ List.mem_cons_self ..)).1
  have pending :
      ∀ other ∉ config.sockets,
        Function.update world.toServer con
            ((world.toServer con).drop count) other =
          world.toServer other := by
    intro other away
    apply Function.update_of_ne
    rintro rfl
    apply away
    rw [sockets]
    exact List.mem_append_right _ (List.mem_singleton_self _)
  cases change with
  | idle _ _ same log _ _ =>
      rw [reply_of_idle con sent log]
      exact
        consistent_round consistent [con] [] round waiting sockets
          (by simpa using log) (by simp) (by simp) pending
          (fun _ _ => rfl)
  | activated _ _ pname _ expected reads present same log _ =>
      rw [reply_of_activated con sent log]
      apply
        consistent_round consistent [con] _ round waiting sockets log
          (List.Sublist.refl _) ?_ pending
      · intro other others
        apply Function.update_of_ne
        exact (others _ (List.mem_singleton_self _)).symm
      · intro activation member
        rw [List.mem_singleton.mp member, received]
        exact (List.take_prefix _ _).trans (consistent.pending con outside)

/-- Every step keeps what the receivers and the server know. -/
theorem consistent_of_step
    {action : Action}
    (consistent : Consistent pnames names server recbuffer world)
    (stepped : step pnames names world action = some next) :
    Consistent pnames names server recbuffer next := by
  cases action with
  | address con granted =>
      rcases address_cases stepped with ⟨control, rfl⟩
      exact consistent_newAddress consistent control granted _
  | socket con granted =>
      simp only [step] at stepped
      split at stepped
      case isFalse => cases stepped
      case isTrue control =>
        cases stepped
        apply consistent_setReciever_unread consistent
        · simp [control, Control.Connected]
        · cases granted <;> simp
  | connect con made =>
      simp only [step] at stepped
      split at stepped
      case h_2 => cases stepped
      case h_1 numTries control =>
        have unconnected : ¬ (world.recievers con).control.Connected := by
          simp [control, Control.Connected]
        split_ifs at stepped with made retry
        · cases stepped
          exact consistent_connect consistent unconnected rfl
        · cases stepped
          exact
            consistent_setReciever_unread consistent con _
              (fun before => absurd before unconnected) nofun
        · cases stepped
          exact
            consistent_setReciever_unread consistent con _
              (fun before => absurd before unconnected) nofun
  | send con sent =>
      simp only [step] at stepped
      split at stepped
      case isFalse => cases stepped
      case isTrue control =>
        cases stepped
        exact consistent_send consistent rfl sent
  | recieve con received =>
      simp only [step] at stepped
      split at stepped
      case isFalse => cases stepped
      case isTrue enabled =>
        rcases enabled with ⟨-, -, waiting⟩
        cases stepped
        have answered (success : 0 < received.size) :
            Activated world con := by
          by_contra inactive
          rw [consistent.unanswered con inactive,
            List.prefix_nil] at waiting
          cases received with
          | packet bytes =>
              rw [show bytes = [] from waiting] at success
              cases success
          | closed => cases success
          | failed => cases success
        apply consistent_setReciever consistent
        · intro _
          split_ifs with size
          · rcases noHandshake_control (world.recievers con)
              with control | control <;>
              simp [control, Control.Connected]
          · rcases checkHandshake_control (world.recievers con)
                received.bytes with control | control <;>
              simp [control, Control.Connected]
        · split_ifs with size
          · rcases noHandshake_control (world.recievers con)
              with control | control <;>
              simp [control]
          · exact fun _ => answered (by omega)
        · intro inactive
          rw [consistent.unanswered con inactive, List.drop_nil]
  | refused =>
      rcases Option.map_eq_some_iff.mp stepped with ⟨config, round, rfl⟩
      rcases round_of_step round with ⟨change, sockets, -⟩
      cases change with
      | idle _ _ same log _ _ =>
          exact
            consistent_round consistent [] [] round rfl sockets
              (by simpa using log) (by simp) (by simp) (fun _ _ => rfl)
              (fun _ _ => rfl)
  | silent =>
      rcases silent_cases stepped with
        ⟨con, backlog, config, waiting, round, rfl⟩
      rcases round_of_step round with ⟨change, sockets, -⟩
      cases change with
      | idle _ _ same log _ _ =>
          exact
            consistent_round consistent [con] [] round waiting sockets
              (by simpa using log) (by simp) (by simp) (fun _ _ => rfl)
              (fun _ _ => rfl)
  | accept count sent => exact consistent_accept consistent stepped

theorem consistent_of_run
    {actions : List Action}
    (ran :
      run (step pnames names) (started server recbuffer) actions =
        some world) :
    Consistent pnames names server recbuffer world :=
  run_invariant
    (fun _ _ _ consistent stepped => consistent_of_step consistent stepped)
    (consistent_started pnames names server recbuffer) ran

end Steps

/-! ## Handshakes received in full -/

/-- The names which fit the send buffer behind their header. -/
def FitsHandshake (processName : CString) : Prop :=
  sizeofHandshakeHeader + (processName.val.length + 1) <
    wimpMessageBufferBytes

instance (processName : CString) : Decidable (FitsHandshake processName) :=
  inferInstanceAs (Decidable (_ < _))

/-- The names whose size is an `int32_t`. -/
def ShortName (processName : CString) : Prop :=
  processName.val.length + 1 < 2 ^ 31

instance (processName : CString) : Decidable (ShortName processName) :=
  inferInstanceAs (Decidable (_ < _))

/-- A handshake with a name which fits is read as that name. -/
theorem reads_sentHandshake
    {handshake : Handshake} {processName : CString}
    (fits : FitsHandshake processName)
    (created : handshake.val = sentHandshake processName)
    (recbuffer : WimpMsgBuffer) :
    Reads (pSocketReceive recbuffer handshake).val processName := by
  have headerLength : handshakeHeader.length = 4 := rfl
  have carried :
      handshake.val =
        handshakeHeader ++ toLE 4 (processName.val.length + 1) ++
          terminated processName.val := by
    rw [created, sentHandshake, wimpCreateHandshake_of_fits fits]
    rfl
  have header :
      (handshakeHeader ++ toLE 4 (processName.val.length + 1)).length =
        sizeofHandshakeHeader := by
    rw [List.length_append, length_toLE]
    rfl
  have long : sizeofHandshakeHeader ≤ handshake.val.length := by
    rw [carried, List.length_append, header]
    exact Nat.le_add_right _ _
  constructor
  · rw [take_received recbuffer handshake
      (le_trans (by decide) long), carried, List.append_assoc,
      List.take_left' headerLength]
  · rw [drop_received recbuffer handshake long, carried,
      List.drop_left' header]
    exact List.prefix_append _ _

/-- A name which overruns the buffer leaves a handshake without a header. -/
theorem bad_header_of_overrun
    {handshake : Handshake} {processName : CString}
    (short : ShortName processName) (overruns : ¬ FitsHandshake processName)
    (created : handshake.val = sentHandshake processName)
    (recbuffer : WimpMsgBuffer) :
    (pSocketReceive recbuffer handshake).val.take 4 ≠ handshakeHeader := by
  have zeros :
      handshake.val = List.replicate sizeofHandshakeHeader 0 := by
    rw [created, sentHandshake,
      wimpCreateHandshake_of_overruns short overruns]
    rfl
  rw [take_received recbuffer handshake (by rw [zeros]; decide), zeros]
  decide

/-- A handshake received in full is only read as the name sent in it. -/
theorem eq_of_reads_sentHandshake
    {handshake : Handshake} {processName procName : CString}
    {recbuffer : WimpMsgBuffer} (short : ShortName processName)
    (created : handshake.val = sentHandshake processName)
    (reads : Reads (pSocketReceive recbuffer handshake).val procName) :
    FitsHandshake processName ∧ procName = processName := by
  by_cases fits : FitsHandshake processName
  · exact
      ⟨fits,
        reads_unique reads (reads_sentHandshake fits created recbuffer)⟩
  · exact
      absurd reads.1 (bad_header_of_overrun short fits created recbuffer)

/-- The name of an activation was read from what its connection sent. -/
theorem reads_of_run
    {pnames : List CString} {server : WimpServer}
    {recbuffer : WimpMsgBuffer} {arrivals : List Incoming}
    {config : AcceptConfig}
    (ran :
      run (acceptStep pnames) (acceptStart server recbuffer) arrivals =
        some config) :
    ∀ activation ∈ config.activated, ∃ before,
      Reads (pSocketReceive before activation.handshake).val
        activation.procName := by
  refine
    run_induction
      (motive := fun _ config =>
        ∀ activation ∈ config.activated, ∃ before,
          Reads (pSocketReceive before activation.handshake).val
            activation.procName) nofun ?_ ran
  intro arrivals config incoming next earlier read stepped
  cases (round_of_step stepped).1 with
  | idle _ _ _ log _ _ =>
      rw [log]
      exact read
  | activated con handshake pname _ _ reads _ _ log _ =>
      rw [log]
      intro activation member
      rcases List.mem_append.mp member with old | new
      · exact read activation old
      · rw [List.mem_singleton.mp new]
        exact ⟨config.recbuffer, reads⟩

/-! ## What success means to a receiver -/

/-- The server has made one process active on the connection. -/
structure Registered (pnames : List CString) (names : PSocket → CString)
    (world : World) (con : PSocket) (activation : Activation) : Prop where
  listed : activation ∈ world.server.activated ∧ activation.con = con
  only :
    ∀ other ∈ world.server.activated, other.con = con →
      other = activation
  expected : activation.procName ∈ pnames
  active :
    ∃ procdat,
      wimpProcessTableGet world.server.server.ptable
          (some activation.procName.val) = some procdat ∧
        procdat.processActive = true
  sent : activation.handshake.val <+: sentHandshake (names con)
  named :
    ShortName (names con) →
      activation.handshake.val = sentHandshake (names con) →
        activation.procName = names con

/--
A receiver whose `wimp_reciever_init` returns success is registered at the
server, once and for an expected process, whatever else has happened and
however its handshake was delivered; it is registered under its own name when
this is short and the handshake was received in full.
-/
theorem registered_of_success
    {pnames : List CString} {names : PSocket → CString}
    {server : WimpServer} {recbuffer : WimpMsgBuffer}
    {actions : List Action} {world : World}
    (ran :
      run (step pnames names) (started server recbuffer) actions =
        some world)
    {con : PSocket}
    (done : (world.recievers con).control = .success) :
    ∃ activation, Registered pnames names world con activation := by
  have consistent := consistent_of_run ran
  rcases consistent.served with ⟨arrivals, served⟩
  have logged := logged_of_run served
  rcases consistent.success con done with ⟨activation, member, rfl⟩
  refine ⟨activation, ?_⟩
  constructor
  case listed => exact ⟨member, rfl⟩
  case only =>
    have once : (world.server.activated.map Activation.con).Nodup :=
      consistent.activated.nodup logged.distinct
    intro other stored same
    exact List.inj_on_of_nodup_map once stored member same
  case expected => exact logged.expected activation member
  case active =>
    rcases logged.active activation member with
      ⟨procdat, found, active, -⟩
    exact ⟨procdat, found, active⟩
  case sent => exact consistent.handshake activation member
  case named =>
    intro short whole
    rcases reads_of_run served activation member with ⟨before, reads⟩
    exact (eq_of_reads_sentHandshake short whole reads).2

/-- A server which expects the processes `a` and `b`. -/
private def serverOfPair : WimpServer :=
  let procdat : WimpProcessData :=
    { processDomain := []
      processPort := 0
      processConnection := 0
      processRelation := .child }
  let ptable :=
    (wimpProcessTableAdd wimpCreateProcessTable [97] procdat true).1
  { processName := .ofBytes [115]
    ptable := (wimpProcessTableAdd ptable [98] procdat true).1 }

/-- The first two connections are those of `a` and of `b`. -/
private def namesOfPair : PSocket → CString
  | 1 => .ofBytes [97]
  | _ => .ofBytes [98]

/--
The receiver of `a` is refused once and accepted while that of `b` is still
connecting.
-/
theorem registered_after_retry :
    ∃ actions world activation,
      run (step [.ofBytes [97], .ofBytes [98]] namesOfPair)
            (started serverOfPair wimpZeroBuffer) actions =
          some world ∧
        Registered [.ofBytes [97], .ofBytes [98]] namesOfPair world 1
          activation := by
  let actions : List Action :=
    [.address 1 true, .address 2 true, .socket 1 true, .connect 1 false,
      .connect 1 true, .socket 2 true, .send 1 10, .connect 2 false,
      .accept 10 8, .connect 2 true,
      .recieve 1 (.packet (handshakeHeader ++ [0, 0, 0, 0]))]
  have success :
      (run (step [.ofBytes [97], .ofBytes [98]] namesOfPair)
          (started serverOfPair wimpZeroBuffer) actions).map
          (fun world => (world.recievers 1).control) =
        some .success := by
    decide +kernel
  rcases Option.map_eq_some_iff.mp success with ⟨world, ran, done⟩
  rcases registered_of_success ran done with ⟨activation, registered⟩
  exact ⟨actions, world, activation, ran, registered⟩

end Wimp.Server.Handshake
