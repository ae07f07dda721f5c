import Wimp.Server.Handshake

/-!
# Agreement of the receivers and the server

Where every handshake and every answer arrives whole, the accept loop decides
about a connection by the name of its receiver alone, and the receiver learns
of the decision: it returns success when it is accepted, and waits for an
answer when it is not.
-/

namespace Wimp.Server.Handshake

open Wimp.Lib.ByteRegion
open Wimp.Lib.Runs
open Wimp.ProcessTable
open Wimp.Server.Machine
open Wimp.Server.Accept
open Wimp.Server.AcceptAlone
open Wimp.Server.AcceptEveryone
open Wimp.Reciever.Machine (wimpMessageBufferBytes Received)

/-- Everything which is sent arrives in one piece, and no name is too long. -/
def Whole (names : PSocket → CString) (world : World) : Action → Prop
  | .send con sent =>
      ShortName (names con) ∧ (sentHandshake (names con)).length ≤ sent
  | .recieve con received => received = .packet (world.toReciever con)
  | .silent => False
  | .accept count sent =>
      answer.length ≤ sent ∧
        ∀ con ∈ world.backlog.head?,
          (world.toServer con).length ≤ count
  | _ => True

instance (names : PSocket → CString) (world : World) :
    ∀ action, Decidable (Whole names world action)
  | .address _ _ => inferInstanceAs (Decidable True)
  | .socket _ _ => inferInstanceAs (Decidable True)
  | .connect _ _ => inferInstanceAs (Decidable True)
  | .send _ _ => inferInstanceAs (Decidable (_ ∧ _ ≤ _))
  | .recieve _ _ => inferInstanceAs (Decidable (_ = _))
  | .refused => inferInstanceAs (Decidable True)
  | .silent => inferInstanceAs (Decidable False)
  | .accept _ _ => inferInstanceAs (Decidable (_ ∧ ∀ con ∈ _, _))

/-- The names which a server accepts. -/
def Expected (pnames : List CString) (ptable : WimpProcessTable)
    (processName : CString) : Prop :=
  FitsHandshake processName ∧ processName ∈ pnames ∧
    (wimpProcessTableGet ptable (some processName.val)).isSome

instance (pnames : List CString) (ptable : WimpProcessTable)
    (processName : CString) :
    Decidable (Expected pnames ptable processName) :=
  inferInstanceAs (Decidable (_ ∧ _ ∧ _))

/-- The receiver has returned success, or will on what has been sent to it. -/
def Answered (world : World) (con : PSocket) : Prop :=
  (world.recievers con).control = .success ∨
    (world.recievers con).control = .recieving ∧
      world.toReciever con = answer

/-- Where a connection stands when everything arrives whole. -/
inductive Stage (pnames : List CString) (names : PSocket → CString)
    (ptable : WimpProcessTable) (world : World) (con : PSocket) :
    Prop where
  | unconnected
      (outside : con ∉ world.backlog ∧ con ∉ world.server.sockets)
      (control :
        ¬ (world.recievers con).control.Connected ∨
          (world.recievers con).control = .fail ∨
          (world.recievers con).control = .fault)
      (silent : world.toServer con = [] ∧ world.toReciever con = [])
  | connected
      (waiting : con ∈ world.backlog)
      (control : (world.recievers con).control = .sending)
      (silent : world.toServer con = [] ∧ world.toReciever con = [])
  | sent
      (waiting : con ∈ world.backlog)
      (control : (world.recievers con).control = .recieving)
      (short : ShortName (names con))
      (sent : world.toServer con = sentHandshake (names con))
      (silent : world.toReciever con = [])
  | rejected
      (taken : con ∈ world.server.sockets)
      (unexpected : ¬ Expected pnames ptable (names con))
      (inactive : ¬ Activated world con)
      (control : (world.recievers con).control = .recieving)
      (silent : world.toReciever con = [])
  | accepted
      (taken : con ∈ world.server.sockets)
      (expected : Expected pnames ptable (names con))
      (active : Activated world con)
      (answered : Answered world con)

/-! ## Answers -/

/-- The answer of the server is a valid one. -/
theorem checkHandshake_answer (reciever : RecieverInit) :
    (checkHandshake reciever answer).control = .success := by
  have valid :
      int32At
          (answer ++
            List.replicate (wimpMessageBufferBytes - answer.length) 0) 0 =
        some (toInt32 wimpRecieverHandshake) := by
    apply (int32At_eq_iff _ (by decide)).mpr
    · rw [List.take_append_of_le_length (by decide)]
      decide
    · rw [List.length_append]
      exact Nat.le_add_right_of_le (by decide)
  rw [checkHandshake]
  exact congrArg RecieverInit.control (if_neg (not_not.mpr valid))

/-- A receiver returns success on the answer which waits for it. -/
theorem success_of_answer
    (pnames : List CString) (names : PSocket → CString) {world : World}
    {con : PSocket}
    (control : (world.recievers con).control = .recieving)
    (waiting : world.toReciever con = answer) :
    ∃ next,
      step pnames names world (.recieve con (.packet answer)) = some next ∧
        (next.recievers con).control = .success := by
  have enabled :
      (world.recievers con).control = .recieving ∧
        (Received.packet answer).Admissible ∧
        (Received.packet answer).bytes <+: world.toReciever con := by
    refine ⟨control, by decide, ?_⟩
    rw [waiting]
    exact List.prefix_rfl
  refine ⟨_, if_pos enabled, ?_⟩
  simp only [setReciever_recievers, Function.update_self]
  rw [if_neg (by decide)]
  exact checkHandshake_answer _

/-! ## Steps of other connections -/

/-- Nothing about a connection has changed. -/
structure Untouched (con : PSocket) (world next : World) : Prop where
  backlog : con ∈ next.backlog ↔ con ∈ world.backlog
  sockets : con ∈ next.server.sockets ↔ con ∈ world.server.sockets
  active : Activated next con ↔ Activated world con
  reciever : next.recievers con = world.recievers con
  toServer : next.toServer con = world.toServer con
  toReciever : next.toReciever con = world.toReciever con

theorem stage_of_untouched
    {pnames : List CString} {names : PSocket → CString}
    {ptable : WimpProcessTable} {world next : World} {con : PSocket}
    (untouched : Untouched con world next)
    (stage : Stage pnames names ptable world con) :
    Stage pnames names ptable next con := by
  rcases untouched with
    ⟨backlog, sockets, active, reciever, toServer, toReciever⟩
  cases stage with
  | unconnected outside control silent =>
      refine .unconnected ?_ ?_ ?_
      · rwa [backlog, sockets]
      · rwa [reciever]
      · rwa [toServer, toReciever]
  | connected waiting control silent =>
      refine .connected (backlog.mpr waiting) ?_ ?_
      · rwa [reciever]
      · rwa [toServer, toReciever]
  | sent waiting control short sent silent =>
      refine .sent (backlog.mpr waiting) ?_ short ?_ ?_
      · rwa [reciever]
      · rwa [toServer]
      · rwa [toReciever]
  | rejected taken unexpected inactive control silent =>
      refine
        .rejected (sockets.mpr taken) unexpected
          (fun activated => inactive (active.mp activated)) ?_ ?_
      · rwa [reciever]
      · rwa [toReciever]
  | accepted taken expected activated answered =>
      refine
        .accepted (sockets.mpr taken) expected (active.mpr activated) ?_
      rwa [Answered, reciever, toReciever]

/-- A receiver goes on and leaves the others alone. -/
theorem untouched_setReciever
    (world : World) {con other : PSocket} (apart : other ≠ con)
    (reciever : RecieverInit) :
    Untouched other world (world.setReciever con reciever) := by
  constructor <;> simp [World.setReciever, Activated, apart]

/-! ## The decision -/

/-- A whole handshake is accepted exactly when its name is expected. -/
theorem log_of_whole
    {pnames : List CString} {ptable : WimpProcessTable}
    {config next : AcceptConfig} {con : PSocket} {handshake : Handshake}
    {processName : CString}
    (same : SameNames config.server.ptable ptable)
    (short : ShortName processName)
    (created : handshake.val = sentHandshake processName)
    (stepped :
      acceptStep pnames config (.handshake con handshake) = some next) :
    Expected pnames ptable processName ∧
        next.activated =
          config.activated ++
            [{ procName := processName, con, handshake }] ∨
      ¬ Expected pnames ptable processName ∧
        next.activated = config.activated := by
  cases (round_of_step stepped).1 with
  | idle _ _ _ log _ unread =>
      refine .inr ⟨?_, log⟩
      rintro ⟨fits, listed, present⟩
      have absent :=
        unread con handshake rfl processName listed
          (reads_sentHandshake fits created config.recbuffer)
      rw [← same, absent] at present
      cases present
  | activated _ _ pname _ listed reads present _ log _ =>
      rcases eq_of_reads_sentHandshake short created reads with
        ⟨fits, rfl⟩
      refine .inl ⟨⟨fits, listed, ?_⟩, log⟩
      rwa [← same]

/-! ## Agreement in every run -/

/-- The connections are at their stages, and active under their own names. -/
structure Agreed (pnames : List CString) (names : PSocket → CString)
    (ptable : WimpProcessTable) (world : World) : Prop where
  table : SameNames world.server.server.ptable ptable
  stage : ∀ con, Stage pnames names ptable world con
  named :
    ∀ activation ∈ world.server.activated,
      activation.procName = names activation.con

section Steps

variable {pnames : List CString} {names : PSocket → CString}
variable {ptable : WimpProcessTable} {world next : World}

theorem agreed_started (pnames : List CString) (names : PSocket → CString)
    (server : WimpServer) (recbuffer : WimpMsgBuffer) :
    Agreed pnames names server.ptable (started server recbuffer) where
  table _ := rfl
  stage con :=
    .unconnected ⟨List.not_mem_nil, List.not_mem_nil⟩
      (.inl (by simp [started, Control.Connected])) ⟨rfl, rfl⟩
  named := nofun

/-- A step of a receiver moves its own connection only. -/
theorem agreed_of_untouched
    (agreed : Agreed pnames names ptable world) (con : PSocket)
    (server : next.server = world.server)
    (others : ∀ other, other ≠ con → Untouched other world next)
    (stage :
      Stage pnames names ptable world con →
        Stage pnames names ptable next con) :
    Agreed pnames names ptable next := by
  constructor
  case table => rw [server]; exact agreed.table
  case stage =>
    intro other
    by_cases same : other = con
    · rw [same]
      exact stage (agreed.stage con)
    · exact stage_of_untouched (others other same) (agreed.stage other)
  case named => rw [server]; exact agreed.named

/-- Before it has connected a receiver is alone. -/
theorem agreed_unconnected
    (agreed : Agreed pnames names ptable world) {con : PSocket}
    (unconnected : ¬ (world.recievers con).control.Connected)
    {reciever : RecieverInit}
    (control :
      ¬ reciever.control.Connected ∨ reciever.control = .fail ∨
        reciever.control = .fault) :
    Agreed pnames names ptable (world.setReciever con reciever) := by
  refine agreed_of_untouched agreed con rfl ?_ ?_
  · intro other apart
    exact untouched_setReciever world apart reciever
  · intro stage
    cases stage with
    | unconnected outside _ silent =>
        exact .unconnected outside (by simpa using control) silent
    | connected _ before _ =>
        rw [before] at unconnected
        exact absurd trivial unconnected
    | sent _ before _ _ _ =>
        rw [before] at unconnected
        exact absurd trivial unconnected
    | rejected _ _ _ before _ =>
        rw [before] at unconnected
        exact absurd trivial unconnected
    | accepted _ _ _ answered =>
        rcases answered with before | ⟨before, -⟩ <;>
          · rw [before] at unconnected
            exact absurd trivial unconnected

theorem agreed_connect
    (agreed : Agreed pnames names ptable world) {con : PSocket}
    {numTries : Nat}
    (connecting : (world.recievers con).control = .connecting numTries)
    {reciever : RecieverInit} (sending : reciever.control = .sending) :
    Agreed pnames names ptable
      { world.setReciever con reciever with
        backlog := world.backlog ++ [con] } := by
  refine agreed_of_untouched agreed con rfl ?_ ?_
  · intro other apart
    have untouched := untouched_setReciever world apart reciever
    exact
      { untouched with
        backlog := by simp [apart] }
  · intro stage
    cases stage with
    | unconnected outside control silent =>
        exact
          .connected
            (List.mem_append_right _ (List.mem_singleton_self con))
            (by simpa using sending) silent
    | connected _ before _ => simp [before] at connecting
    | sent _ before _ _ _ => simp [before] at connecting
    | rejected _ _ _ before _ => simp [before] at connecting
    | accepted _ _ _ answered =>
        rcases answered with before | ⟨before, -⟩ <;>
          simp [before] at connecting

theorem agreed_send
    (agreed : Agreed pnames names ptable world) {con : PSocket}
    (sending : (world.recievers con).control = .sending)
    {reciever : RecieverInit} (recieving : reciever.control = .recieving)
    {sent : Nat}
    (short : ShortName (names con))
    (whole : (sentHandshake (names con)).length ≤ sent) :
    Agreed pnames names ptable
      { world.setReciever con reciever with
        toServer :=
          Function.update world.toServer con
            ((sentHandshake (names con)).take sent) } := by
  refine agreed_of_untouched agreed con rfl ?_ ?_
  · intro other apart
    have untouched := untouched_setReciever world apart reciever
    exact
      { untouched with
        toServer := by simp [apart] }
  · intro stage
    cases stage with
    | unconnected _ control _ =>
        simp [sending, Control.Connected] at control
    | connected waiting _ silent =>
        exact
          .sent waiting (by simpa using recieving) short
            (by simp [List.take_of_length_le whole]) silent.2
    | sent _ before _ _ _ => simp [before] at sending
    | rejected _ _ _ before _ => simp [before] at sending
    | accepted _ _ _ answered =>
        rcases answered with before | ⟨before, -⟩ <;>
          simp [before] at sending

/-- The only whole packet which a receiver finds is the answer. -/
theorem agreed_recieve
    (agreed : Agreed pnames names ptable world) {con : PSocket}
    (recieving : (world.recievers con).control = .recieving)
    (present : world.toReciever con ≠ [])
    {reciever : RecieverInit} {left : Bytes}
    (success :
      world.toReciever con = answer → reciever.control = .success) :
    Agreed pnames names ptable
      { world.setReciever con reciever with
        toReciever := Function.update world.toReciever con left } := by
  refine agreed_of_untouched agreed con rfl ?_ ?_
  · intro other apart
    have untouched := untouched_setReciever world apart reciever
    exact
      { untouched with
        toReciever := by simp [apart] }
  · intro stage
    cases stage with
    | unconnected _ _ silent => exact absurd silent.2 present
    | connected _ _ silent => exact absurd silent.2 present
    | sent _ _ _ _ silent => exact absurd silent present
    | rejected _ _ _ _ silent => exact absurd silent present
    | accepted taken expected active answered =>
        refine .accepted taken expected active (.inl ?_)
        rcases answered with before | ⟨-, waiting⟩
        · simp [before] at recieving
        · simpa using success waiting

/-- What the round receives in whole is the handshake of the connection. -/
theorem sent_of_waiting
    {server : WimpServer} {recbuffer : WimpMsgBuffer}
    (consistent : Consistent pnames names server recbuffer world)
    (agreed : Agreed pnames names ptable world) {con : PSocket}
    (waiting : con ∈ world.backlog) (nonempty : world.toServer con ≠ []) :
    (world.recievers con).control = .recieving ∧
      ShortName (names con) ∧
        world.toServer con = sentHandshake (names con) ∧
        world.toReciever con = [] := by
  rcases consistent.not_taken waiting with ⟨outside, inactive⟩
  cases agreed.stage con with
  | unconnected away _ _ => exact absurd waiting away.1
  | connected _ _ silent => exact absurd silent.1 nonempty
  | sent _ control short sent silent =>
      exact ⟨control, short, sent, silent⟩
  | rejected taken _ _ _ _ => exact absurd taken outside
  | accepted taken _ _ _ => exact absurd taken outside

/-- A round on a whole handshake decides about its connection. -/
theorem agreed_accept
    {server : WimpServer} {recbuffer : WimpMsgBuffer}
    (consistent : Consistent pnames names server recbuffer world)
    (agreed : Agreed pnames names ptable world) {count sent : Nat}
    (whole : Whole names world (.accept count sent))
    (stepped :
      step pnames names world (.accept count sent) = some next) :
    Agreed pnames names ptable next := by
  rcases accept_cases stepped with
    ⟨con, backlog, config, handshake, waiting, received, round, rfl⟩
  rcases round_of_step round with ⟨-, sockets, -⟩
  rcases whole with ⟨answered, handshakes⟩
  have first : con ∈ world.backlog := waiting ▸ List.mem_cons_self ..
  have everything : handshake.val = world.toServer con := by
    rw [received]
    apply List.take_of_length_le
    apply handshakes con
    rw [waiting]
    rfl
  have nonempty : world.toServer con ≠ [] := by
    rw [← everything]
    exact List.ne_nil_of_length_pos handshake.property.1
  rcases sent_of_waiting consistent agreed first nonempty with
    ⟨control, short, created, silent⟩
  have inactive := (consistent.not_taken first).2
  have taken : con ∈ config.sockets := by
    rw [sockets]
    exact List.mem_append_right _ (List.mem_singleton_self con)
  have table :=
    sameNames_of_step pnames ptable world.server _ config agreed.table round
  have backlogOf (other : PSocket) (apart : other ≠ con) :
      other ∈ backlog ↔ other ∈ world.backlog := by
    rw [waiting, List.mem_cons, or_iff_right apart]
  have socketsOf (other : PSocket) (apart : other ≠ con) :
      other ∈ config.sockets ↔ other ∈ world.server.sockets := by
    rw [sockets, List.mem_append]
    exact or_iff_left (by simpa [socketOf] using apart)
  rcases log_of_whole agreed.table short (everything.trans created)
      round with
    ⟨expected, log⟩ | ⟨unexpected, log⟩
  · rw [reply_of_activated con sent log]
    constructor
    case table => exact table
    case stage =>
      intro other
      by_cases same : other = con
      · rw [same]
        refine .accepted taken expected ?_ (.inr ⟨control, ?_⟩)
        · refine ⟨{ procName := names con, con, handshake }, ?_, rfl⟩
          show _ ∈ config.activated
          rw [log]
          exact List.mem_append_right _ (List.mem_singleton_self _)
        · simp [silent, List.take_of_length_le answered]
      · apply stage_of_untouched _ (agreed.stage other)
        constructor
        · exact backlogOf other same
        · exact socketsOf other same
        · simp [Activated, log, Ne.symm same]
        · rfl
        · simp [same]
        · simp [same]
    case named =>
      intro activation member
      have member : activation ∈ config.activated := member
      rw [log] at member
      rcases List.mem_append.mp member with old | new
      · exact agreed.named activation old
      · rw [List.mem_singleton.mp new]
  · rw [reply_of_idle con sent log]
    constructor
    case table => exact table
    case stage =>
      intro other
      by_cases same : other = con
      · rw [same]
        refine .rejected taken unexpected ?_ control silent
        rintro ⟨activation, member, connection⟩
        exact inactive ⟨activation, log ▸ member, connection⟩
      · apply stage_of_untouched _ (agreed.stage other)
        constructor
        · exact backlogOf other same
        · exact socketsOf other same
        · simp [Activated, log]
        · rfl
        · simp [same]
        · rfl
    case named =>
      intro activation member
      exact agreed.named activation (log ▸ member)

/-- Every step keeps the agreement when what it delivers is whole. -/
theorem agreed_of_step
    {server : WimpServer} {recbuffer : WimpMsgBuffer} {action : Action}
    (consistent : Consistent pnames names server recbuffer world)
    (agreed : Agreed pnames names ptable world)
    (whole : Whole names world action)
    (stepped : step pnames names world action = some next) :
    Agreed pnames names ptable next := by
  cases action with
  | address con granted =>
      rcases address_cases stepped with ⟨control, rfl⟩
      apply agreed_unconnected agreed
      · rw [control]
        exact not_false
      · exact newAddress_control _ granted _
  | socket con granted =>
      simp only [step] at stepped
      split at stepped
      case isFalse => cases stepped
      case isTrue control =>
        cases stepped
        apply agreed_unconnected agreed
        · simp [control, Control.Connected]
        · cases granted <;> simp [Control.Connected]
  | connect con made =>
      simp only [step] at stepped
      split at stepped
      case h_2 => cases stepped
      case h_1 numTries control =>
        have unconnected : ¬ (world.recievers con).control.Connected := by
          simp [control, Control.Connected]
        split_ifs at stepped with made retry
        · cases stepped
          exact agreed_connect agreed control rfl
        · cases stepped
          exact agreed_unconnected agreed unconnected (.inl not_false)
        · cases stepped
          exact agreed_unconnected agreed unconnected (.inr (.inl rfl))
  | send con sent =>
      simp only [step] at stepped
      split at stepped
      case isFalse => cases stepped
      case isTrue control =>
        cases stepped
        exact agreed_send agreed control rfl whole.1 whole.2
  | recieve con received =>
      simp only [step] at stepped
      split at stepped
      case isFalse => cases stepped
      case isTrue enabled =>
        rcases enabled with ⟨control, admissible, -⟩
        have packet : received = .packet (world.toReciever con) := whole
        subst packet
        cases stepped
        have present : world.toReciever con ≠ [] :=
          List.ne_nil_of_length_pos admissible.1
        apply agreed_recieve agreed control present
        · intro waiting
          rw [if_neg (by simpa [Received.size] using present)]
          rw [show (Received.packet (world.toReciever con)).bytes =
            answer from waiting]
          exact checkHandshake_answer _
  | refused =>
      rcases Option.map_eq_some_iff.mp stepped with ⟨config, round, rfl⟩
      rcases round_of_step round with ⟨change, sockets, -⟩
      cases change with
      | idle _ _ same log _ _ =>
          constructor
          case table =>
            exact
              sameNames_of_step pnames ptable world.server .refused config
                agreed.table round
          case stage =>
            intro con
            apply stage_of_untouched _ (agreed.stage con)
            constructor
            · rfl
            · simp [sockets, socketOf]
            · simp [Activated, log]
            · rfl
            · rfl
            · rfl
          case named =>
            intro activation member
            exact agreed.named activation (log ▸ member)
  | silent => exact whole.elim
  | accept count sent => exact agreed_accept consistent agreed whole stepped

end Steps

theorem agreed_of_run
    {pnames : List CString} {names : PSocket → CString}
    {server : WimpServer} {recbuffer : WimpMsgBuffer}
    {actions : List Action} {world : World}
    (whole :
      Along (step pnames names) (Whole names) (started server recbuffer)
        actions)
    (ran :
      run (step pnames names) (started server recbuffer) actions =
        some world) :
    Agreed pnames names server.ptable world := by
  refine
    (run_induction_along
      (motive := fun _ world =>
        Consistent pnames names server recbuffer world ∧
          Agreed pnames names server.ptable world)
      ⟨consistent_started pnames names server recbuffer,
        agreed_started pnames names server recbuffer⟩
      ?_ whole ran).2
  rintro _ world action next ⟨consistent, agreed⟩ whole stepped
  exact
    ⟨consistent_of_step consistent stepped,
      agreed_of_step consistent agreed whole stepped⟩

/-! ## What is agreed about a connection -/

/-- An accepted receiver has its answer. -/
theorem Agreed.answered
    {pnames : List CString} {names : PSocket → CString}
    {server : WimpServer} {recbuffer : WimpMsgBuffer} {world : World}
    {ptable : WimpProcessTable}
    (agreed : Agreed pnames names ptable world)
    (consistent : Consistent pnames names server recbuffer world)
    {con : PSocket} (active : Activated world con) :
    Answered world con := by
  cases agreed.stage con with
  | unconnected away _ _ =>
      rcases active with ⟨activation, member, rfl⟩
      exact absurd
        (consistent.activated.subset (List.mem_map_of_mem member)) away.2
  | connected waiting _ _ =>
      exact absurd active (consistent.not_taken waiting).2
  | sent waiting _ _ _ _ =>
      exact absurd active (consistent.not_taken waiting).2
  | rejected _ _ inactive _ _ => exact absurd active inactive
  | accepted _ _ _ answered => exact answered

/-- The two sides of a connection which the accept loop has taken. -/
structure SameDecision (pnames : List CString)
    (names : PSocket → CString) (ptable : WimpProcessTable)
    (world : World) (con : PSocket) : Prop where
  decided :
    Activated world con ↔ Expected pnames ptable (names con)
  named :
    ∀ activation ∈ world.server.activated, activation.con = con →
      activation.procName = names con
  accepted : Activated world con → Answered world con
  rejected :
    ¬ Activated world con →
      (world.recievers con).control = .recieving ∧
        world.toReciever con = []

/--
When everything arrives whole, the server has accepted a connection exactly
when the name of its receiver fits the buffer, is expected and is in the
table.  An accepted receiver has returned success or has its answer waiting;
one which is not accepted waits for an answer which was never sent.
-/
theorem sameDecision_of_run
    {pnames : List CString} {names : PSocket → CString}
    {server : WimpServer} {recbuffer : WimpMsgBuffer}
    {actions : List Action} {world : World}
    (whole :
      Along (step pnames names) (Whole names) (started server recbuffer)
        actions)
    (ran :
      run (step pnames names) (started server recbuffer) actions =
        some world)
    {con : PSocket} (taken : con ∈ world.server.sockets) :
    SameDecision pnames names server.ptable world con := by
  have agreed := agreed_of_run whole ran
  have named :
      ∀ activation ∈ world.server.activated, activation.con = con →
        activation.procName = names con := by
    rintro activation member rfl
    exact agreed.named activation member
  have outside (waiting : con ∈ world.backlog) :
      con ∉ world.server.sockets :=
    ((consistent_of_run ran).not_taken waiting).1
  cases agreed.stage con with
  | unconnected away _ _ => exact absurd taken away.2
  | connected waiting _ _ => exact absurd taken (outside waiting)
  | sent waiting _ _ _ _ => exact absurd taken (outside waiting)
  | rejected _ unexpected inactive control silent =>
      exact
        ⟨iff_of_false inactive unexpected, named,
          fun active => absurd active inactive,
          fun _ => ⟨control, silent⟩⟩
  | accepted _ expected active answered =>
      exact
        ⟨iff_of_true active expected, named, fun _ => answered,
          fun inactive => absurd active inactive⟩

/-- A server which expects the processes `a` and `b`. -/
private def serverOfPeers : WimpServer :=
  let procdat : WimpProcessData :=
    { processDomain := []
      processPort := 0
      processConnection := 0
      processRelation := .child }
  let ptable :=
    (wimpProcessTableAdd wimpCreateProcessTable [97] procdat true).1
  { processName := .ofBytes [115]
    ptable := (wimpProcessTableAdd ptable [98] procdat true).1 }

/-- The connections of `a`, of `b`, and of a stranger. -/
private def namesOfPeers : PSocket → CString
  | 1 => .ofBytes [97]
  | 2 => .ofBytes [98]
  | _ => .ofBytes [99]

/-- All three connect before the first of them is accepted. -/
private def actionsOfPeers : List Action :=
  [.address 1 true, .address 2 true, .address 3 true, .socket 3 true,
    .socket 1 true, .socket 2 true, .connect 1 false, .connect 1 true,
    .connect 3 true, .connect 2 true, .send 3 10, .send 1 10, .send 2 10,
    .accept 512 8, .accept 512 8,
    .recieve 1 (.packet (handshakeHeader ++ [0, 0, 0, 0])),
    .accept 512 8]

private theorem whole_actionsOfPeers :
    Along (step [.ofBytes [97], .ofBytes [98]] namesOfPeers)
      (Whole namesOfPeers) (started serverOfPeers wimpZeroBuffer)
      actionsOfPeers := by
  decide +kernel

/-- The server and the stranger agree. -/
theorem sameDecision_stranger :
    ∃ world,
      run (step [.ofBytes [97], .ofBytes [98]] namesOfPeers)
            (started serverOfPeers wimpZeroBuffer) actionsOfPeers =
          some world ∧
        SameDecision [.ofBytes [97], .ofBytes [98]] namesOfPeers
          serverOfPeers.ptable world 3 := by
  have taken :
      (run (step [.ofBytes [97], .ofBytes [98]] namesOfPeers)
          (started serverOfPeers wimpZeroBuffer) actionsOfPeers).map
          (fun world => world.server.sockets) =
        some [1, 3, 2] := by
    decide +kernel
  rcases Option.map_eq_some_iff.mp taken with ⟨world, ran, sockets⟩
  refine ⟨world, ran, ?_⟩
  apply sameDecision_of_run whole_actionsOfPeers ran
  rw [sockets]
  decide

/-! ## Everyone is served -/

/-- An expected process is connected to its own receiver, which knows. -/
structure Served (pnames : List CString) (names : PSocket → CString)
    (world : World) (pname : CString) (con : PSocket) : Prop where
  own : names con = pname
  record :
    ∃ procdat,
      wimpProcessTableGet world.server.server.ptable (some pname.val) =
          some procdat ∧
        procdat.processActive = true ∧ procdat.processConnection = con
  succeeds :
    (world.recievers con).control = .success ∨
      ∃ next,
        step pnames names world (.recieve con (.packet answer)) =
            some next ∧
          (next.recievers con).control = .success

/--
When everything arrives whole and no two receivers use one name, a successful
accept has connected every expected process to its own receiver, and each of
these receivers has returned success or does so with its next step.
-/
theorem served_of_success
    {pnames : List CString} {names : PSocket → CString}
    {server : WimpServer} {recbuffer : WimpMsgBuffer}
    {actions : List Action} {world : World} {arrivals : List Incoming}
    (whole :
      Along (step pnames names) (Whole names) (started server recbuffer)
        actions)
    (ran :
      run (step pnames names) (started server recbuffer) actions =
        some world)
    (own :
      ∀ con ∈ world.server.sockets, ∀ other ∈ world.server.sockets,
        names con = names other → con = other)
    (returned :
      wimpServerProcessAccept server recbuffer pnames true true arrivals =
        some (world.server, .success)) :
    ∀ pname ∈ pnames, ∃ con, Served pnames names world pname con := by
  have consistent := consistent_of_run ran
  have agreed := agreed_of_run whole ran
  rcases run_of_success returned with ⟨served, counted⟩
  have logged := logged_of_run served
  have taken (activation : Activation)
      (member : activation ∈ world.server.activated) :
      activation.con ∈ world.server.sockets :=
    consistent.activated.subset (List.mem_map_of_mem member)
  have connections : (world.server.activated.map Activation.con).Nodup :=
    consistent.activated.nodup logged.distinct
  have once : (world.server.activated.map Activation.procName).Nodup := by
    apply List.Nodup.map_on _ (connections.of_map Activation.con)
    intro first memFirst second memSecond same
    rw [agreed.named first memFirst, agreed.named second memSecond] at same
    exact
      List.inj_on_of_nodup_map connections memFirst memSecond
        (own _ (taken first memFirst) _ (taken second memSecond) same)
  have subset :
      world.server.activated.map Activation.procName ⊆ pnames := by
    intro name member
    rcases List.mem_map.mp member with ⟨activation, stored, rfl⟩
    exact logged.expected activation stored
  have everyone :
      (world.server.activated.map Activation.procName).Perm pnames := by
    apply (once.subperm subset).perm_of_length_le
    rw [List.length_map, ← logged.counted, counted]
  intro pname listed
  rcases List.mem_map.mp (everyone.mem_iff.mpr listed) with
    ⟨activation, stored, rfl⟩
  rcases logged.active activation stored with
    ⟨procdat, found, active, last, lastStored, same, connection⟩
  have lastOne : last = activation :=
    List.inj_on_of_nodup_map once lastStored stored same
  refine ⟨activation.con, ?_⟩
  constructor
  case own => exact (agreed.named activation stored).symm
  case record => exact ⟨procdat, found, active, lastOne ▸ connection⟩
  case succeeds =>
    have answered :=
      agreed.answered consistent ⟨activation, stored, rfl⟩
    rcases answered with done | ⟨control, waiting⟩
    · exact .inl done
    · exact .inr (success_of_answer pnames names control waiting)

/-- Both processes are served beside the stranger. -/
theorem served_pair :
    ∃ world,
      run (step [.ofBytes [97], .ofBytes [98]] namesOfPeers)
            (started serverOfPeers wimpZeroBuffer) actionsOfPeers =
          some world ∧
        ∀ pname ∈ [CString.ofBytes [97], .ofBytes [98]], ∃ con,
          Served [.ofBytes [97], .ofBytes [98]] namesOfPeers world pname
            con := by
  have ended :
      (run (step [.ofBytes [97], .ofBytes [98]] namesOfPeers)
          (started serverOfPeers wimpZeroBuffer) actionsOfPeers).map
          (fun world =>
            (world.server.sockets, world.server.i,
              world.server.acceptedCount)) =
        some ([1, 3, 2], 2, 2) := by
    decide +kernel
  rcases Option.map_eq_some_iff.mp ended with ⟨world, ran, seen⟩
  simp only [Prod.mk.injEq] at seen
  rcases seen with ⟨sockets, rounds, counted⟩
  rcases (consistent_of_run ran).served with ⟨arrivals, served⟩
  have returned :
      wimpServerProcessAccept serverOfPeers wimpZeroBuffer
          [.ofBytes [97], .ofBytes [98]] true true arrivals =
        some (world.server, .success) := by
    simp [wimpServerProcessAccept, served, rounds, counted]
  refine ⟨world, ran, ?_⟩
  apply served_of_success whole_actionsOfPeers ran _ returned
  rw [sockets]
  decide +kernel

end Wimp.Server.Handshake
