import Wimp.Server.Accept
import Mathlib.Data.List.Nodup
import Mathlib.Data.List.Perm.Subperm

/-!
# Who is connected after a successful accept

Success is judged by the number of accepted handshakes alone.  The number is
right for the wrong reason when a name is accepted twice, and a connection
becomes that of a process which it did not name when its handshake is
completed by what an earlier one left in the buffer.  Apart from these two
cases success means that every expected process is connected.
-/

namespace Wimp.Server.AcceptEveryone

open Wimp.Lib.ByteRegion
open Wimp.Lib.Runs
open Wimp.ProcessTable
open Wimp.Server.Machine
open Wimp.Server.Accept

/-- The bytes of a handshake carry a name behind a complete header. -/
def Carries (handshake : Handshake) (procName : CString) : Prop :=
  handshake.val.take 4 = handshakeHeader ∧
    sizeofHandshakeHeader ≤ handshake.val.length ∧
      CString.ofBytes (handshake.val.drop sizeofHandshakeHeader) = procName

instance (handshake : Handshake) (procName : CString) :
    Decidable (Carries handshake procName) :=
  inferInstanceAs (Decidable (_ ∧ _ ∧ _))

/-- Everyone who is expected, and nobody else, is connected once. -/
structure EveryoneConnected (pnames : List CString) (server : WimpServer)
    (arrivals : List Incoming) (config : AcceptConfig) : Prop where
  connected :
    ∀ pname ∈ pnames, ∃ con handshake procdat,
      Incoming.handshake con handshake ∈ arrivals ∧
        Carries handshake pname ∧
        wimpProcessTableGet config.server.ptable (some pname.val) =
          some procdat ∧
        procdat.processActive = true ∧ procdat.processConnection = con
  others :
    ∀ name, (∀ pname ∈ pnames, name ≠ pname.val) →
      wimpProcessTableGet config.server.ptable (some name) =
        wimpProcessTableGet server.ptable (some name)
  once :
    ∀ pname ∈ pnames,
      (config.activated.map Activation.procName).count pname = 1

/--
A handshake from which the loop reads an expected name carries that name, and
the process is not active yet.
-/
def Clean (pnames : List CString) (config : AcceptConfig) :
    Incoming → Prop
  | .handshake _ handshake =>
      ∀ pname ∈ pnames,
        Reads (pSocketReceive config.recbuffer handshake).val pname →
          Carries handshake pname ∧
            ∀ procdat ∈
                wimpProcessTableGet config.server.ptable (some pname.val),
              procdat.processActive = false
  | _ => True

/-- A receiver of this library sends a handshake which carries its name. -/
theorem carries_wimpCreateHandshake
    {handshake : Handshake} {processName : CString}
    (fits :
      sizeofHandshakeHeader + (processName.val.length + 1) <
        Reciever.Machine.wimpMessageBufferBytes)
    (created : wimpCreateHandshake processName = some handshake.val) :
    Carries handshake processName := by
  have headerLength : handshakeHeader.length = 4 := rfl
  have created :=
    Option.some.inj (created.symm.trans (wimpCreateHandshake_of_fits fits))
  refine ⟨?_, ?_, ?_⟩
  · rw [created, List.append_assoc, List.take_left' headerLength]
  · rw [created, List.length_append, List.length_append, length_toLE,
      headerLength]
    exact Nat.le_add_right _ _
  · have behind :
        handshake.val.drop sizeofHandshakeHeader =
          terminated processName.val := by
      rw [created]
      exact List.drop_left' (by rw [List.length_append, length_toLE]; rfl)
    rw [behind]
    exact CString.ofBytes_terminated processName

instance (pnames : List CString) (config : AcceptConfig) :
    ∀ incoming, Decidable (Clean pnames config incoming)
  | .refused => inferInstanceAs (Decidable True)
  | .silent _ => inferInstanceAs (Decidable True)
  | .handshake _ handshake =>
      inferInstanceAs
        (Decidable
          (∀ pname ∈ pnames,
            Reads (pSocketReceive config.recbuffer handshake).val pname →
              Carries handshake pname ∧
                ∀ procdat ∈
                    wimpProcessTableGet config.server.ptable
                      (some pname.val),
                  procdat.processActive = false))

/-! ## What a round changes -/

/-- A round activates one expected process or none. -/
inductive Round (pnames : List CString) (config : AcceptConfig) :
    Incoming → AcceptConfig → Prop where
  | idle (incoming : Incoming) (next : AcceptConfig)
      (server : next.server = config.server)
      (log : next.activated = config.activated)
      (count : next.acceptedCount = config.acceptedCount)
      (unread :
        ∀ con handshake, incoming = .handshake con handshake →
          ∀ pname ∈ pnames,
            Reads (pSocketReceive config.recbuffer handshake).val pname →
              wimpProcessTableGet config.server.ptable
                (some pname.val) = none) :
      Round pnames config incoming next
  | activated (con : PSocket) (handshake : Handshake) (pname : CString)
      (next : AcceptConfig)
      (expected : pname ∈ pnames)
      (reads :
        Reads (pSocketReceive config.recbuffer handshake).val pname)
      (present :
        (wimpProcessTableGet config.server.ptable
          (some pname.val)).isSome)
      (server : next.server = activate config.server pname con)
      (log :
        next.activated =
          config.activated ++ [{ procName := pname, con, handshake }])
      (count : next.acceptedCount = config.acceptedCount + 1) :
      Round pnames config (.handshake con handshake) next

/-- The sockets of the connections which arrived. -/
def socketOf : Incoming → Option PSocket
  | .refused => none
  | .silent con => some con
  | .handshake con _ => some con

/-- Every step of the loop is a round on a new socket. -/
theorem round_of_step
    {pnames : List CString} {config next : AcceptConfig}
    {incoming : Incoming}
    (stepped : acceptStep pnames config incoming = some next) :
    Round pnames config incoming next ∧
      next.sockets = config.sockets ++ (socketOf incoming).toList ∧
      ∀ con ∈ socketOf incoming, con ∉ config.sockets := by
  unfold acceptStep at stepped
  split at stepped
  case isFalse => cases stepped
  cases incoming with
  | refused =>
      cases stepped
      exact
        ⟨.idle _ _ rfl rfl rfl nofun, by simp [socketOf],
          by simp [socketOf]⟩
  | silent con =>
      simp only at stepped
      split at stepped
      · cases stepped
      · rename_i fresh
        cases stepped
        exact
          ⟨.idle _ _ rfl rfl rfl nofun, rfl, by simpa [socketOf] using fresh⟩
  | handshake con handshake =>
      simp only at stepped
      split at stepped
      · cases stepped
      rename_i fresh
      rcases Option.map_eq_some_iff.mp stepped with
        ⟨verdict, judged, rfl⟩
      have accepts (pname : CString) (expected : pname ∈ pnames)
          (reads :
            Reads (pSocketReceive config.recbuffer handshake).val pname)
          (other : verdict ≠ .accepted pname) :
          wimpProcessTableGet config.server.ptable (some pname.val) =
            none := by
        by_contra present
        have accepted :=
          judge_eq_accepted_iff.mpr
            ⟨expected, reads, Option.isSome_iff_ne_none.mpr present⟩
        rw [judged, Option.some.injEq] at accepted
        exact other accepted
      refine ⟨?_, ?_, by simpa [socketOf] using fresh⟩
      · cases verdict with
        | accepted procName =>
            rcases judge_eq_accepted_iff.mp judged with
              ⟨expected, reads, present⟩
            exact
              .activated con handshake procName _ expected reads present
                rfl rfl rfl
        | badHeader =>
            refine .idle _ _ rfl rfl rfl ?_
            rintro _ _ ⟨⟩ pname expected reads
            exact accepts pname expected reads nofun
        | unexpected =>
            refine .idle _ _ rfl rfl rfl ?_
            rintro _ _ ⟨⟩ pname expected reads
            exact accepts pname expected reads nofun
        | missing procName =>
            refine .idle _ _ rfl rfl rfl ?_
            rintro _ _ ⟨⟩ pname expected reads
            exact accepts pname expected reads nofun
      · cases verdict <;> rfl

/-! ## The log of a run -/

/-- The record of an activated process. -/
theorem get_activate
    (server : WimpServer) (pname : CString) (con : PSocket)
    (name : Bytes) :
    wimpProcessTableGet (activate server pname con).ptable (some name) =
      (wimpProcessTableGet server.ptable (some name)).map fun procdat =>
        if name = pname.val then
          { procdat with processConnection := con, processActive := true }
        else procdat :=
  wimpProcessTableGet_modify server.ptable pname.val name _

/-- What the log says about the table and the arrivals. -/
structure Logged (pnames : List CString) (server : WimpServer)
    (arrivals : List Incoming) (config : AcceptConfig) : Prop where
  counted : config.acceptedCount = config.activated.length
  expected :
    ∀ activation ∈ config.activated, activation.procName ∈ pnames
  arrived :
    ∀ activation ∈ config.activated,
      Incoming.handshake activation.con activation.handshake ∈ arrivals
  sockets :
    config.sockets = arrivals.filterMap socketOf
  distinct : config.sockets.Nodup
  untouched :
    ∀ name,
      (∀ activation ∈ config.activated, name ≠ activation.procName.val) →
        wimpProcessTableGet config.server.ptable (some name) =
          wimpProcessTableGet server.ptable (some name)
  active :
    ∀ activation ∈ config.activated, ∃ procdat,
      wimpProcessTableGet config.server.ptable
            (some activation.procName.val) = some procdat ∧
        procdat.processActive = true ∧
        ∃ last ∈ config.activated,
          last.procName = activation.procName ∧
            procdat.processConnection = last.con

theorem logged_start
    (pnames : List CString) (server : WimpServer)
    (recbuffer : WimpMsgBuffer) :
    Logged pnames server [] (acceptStart server recbuffer) := by
  constructor <;> simp [acceptStart]

theorem logged_of_step
    {pnames : List CString} {server : WimpServer}
    {arrivals : List Incoming} {config next : AcceptConfig}
    {incoming : Incoming}
    (logged : Logged pnames server arrivals config)
    (stepped : acceptStep pnames config incoming = some next) :
    Logged pnames server (arrivals ++ [incoming]) next := by
  rcases round_of_step stepped with ⟨round, sockets, fresh⟩
  have socketsNext :
      next.sockets = (arrivals ++ [incoming]).filterMap socketOf := by
    rw [sockets, logged.sockets, List.filterMap_append]
    cases found : socketOf incoming <;> simp [found]
  have distinctNext : next.sockets.Nodup := by
    rw [sockets]
    cases found : socketOf incoming with
    | none => simpa using logged.distinct
    | some con =>
        have new := fresh con found
        rw [Option.toList_some, ← List.concat_eq_append]
        exact List.Nodup.concat new logged.distinct
  cases round with
  | idle _ _ server log count _ =>
      constructor
      case counted => rw [count, log, logged.counted]
      case expected => rw [log]; exact logged.expected
      case arrived =>
        rw [log]
        intro activation member
        exact List.mem_append_left _ (logged.arrived activation member)
      case sockets => exact socketsNext
      case distinct => exact distinctNext
      case untouched => rw [log, server]; exact logged.untouched
      case active => rw [log, server]; exact logged.active
  | activated con handshake pname _ expected reads present server log
      count =>
      have record (name : Bytes) :
          wimpProcessTableGet next.server.ptable (some name) =
            (wimpProcessTableGet config.server.ptable (some name)).map
              fun procdat =>
                if name = pname.val then
                  { procdat with
                    processConnection := con, processActive := true }
                else procdat := by
        rw [server]
        exact get_activate config.server pname con name
      constructor
      case counted => rw [count, log, logged.counted, List.length_append]; rfl
      case expected =>
        rw [log]
        intro activation member
        rcases List.mem_append.mp member with old | new
        · exact logged.expected activation old
        · rw [List.mem_singleton.mp new]
          exact expected
      case arrived =>
        rw [log]
        intro activation member
        rcases List.mem_append.mp member with old | new
        · exact List.mem_append_left _ (logged.arrived activation old)
        · rw [List.mem_singleton.mp new]
          exact List.mem_append_right _ (List.mem_singleton_self _)
      case sockets => exact socketsNext
      case distinct => exact distinctNext
      case untouched =>
        rw [log]
        intro name absent
        have different : name ≠ pname.val :=
          absent _ (List.mem_append_right _ (List.mem_singleton_self _))
        have earlier := logged.untouched name fun activation member =>
          absent activation (List.mem_append_left _ member)
        rw [record, earlier]
        simp [different]
      case active =>
        rw [log]
        intro activation member
        by_cases here : activation.procName = pname
        · rcases Option.isSome_iff_exists.mp present with ⟨procdat, found⟩
          refine
            ⟨{ procdat with processConnection := con, processActive := true },
              ?_, rfl, _,
              List.mem_append_right _ (List.mem_singleton_self _),
              here.symm, rfl⟩
          rw [record, here, found, Option.map_some, if_pos rfl]
        · have old : activation ∈ config.activated := by
            rcases List.mem_append.mp member with old | new
            · exact old
            · rw [List.mem_singleton.mp new] at here
              exact absurd rfl here
          have apart : activation.procName.val ≠ pname.val := fun same =>
            here (Subtype.ext same)
          rcases logged.active activation old with
            ⟨procdat, found, active, last, member, same, connection⟩
          refine ⟨procdat, ?_, active, last,
            List.mem_append_left _ member, same, connection⟩
          rw [record, found, Option.map_some, if_neg apart]

/-- Every run of the loop keeps its log. -/
theorem logged_of_run
    {pnames : List CString} {server : WimpServer}
    {recbuffer : WimpMsgBuffer} {arrivals : List Incoming}
    {config : AcceptConfig}
    (ran :
      run (acceptStep pnames) (acceptStart server recbuffer) arrivals =
        some config) :
    Logged pnames server arrivals config :=
  run_induction
    (motive := fun arrivals config => Logged pnames server arrivals config)
    (logged_start pnames server recbuffer)
    (fun _ _ _ _ _ logged stepped => logged_of_step logged stepped) ran

/-! ## Clean runs -/

/-- The expected processes are in the table and not active. -/
def Waiting (pnames : List CString) (server : WimpServer) : Prop :=
  ∀ pname ∈ pnames, ∃ procdat,
    wimpProcessTableGet server.ptable (some pname.val) = some procdat ∧
      procdat.processActive = false

/-- A buffer is read as one name at most. -/
theorem reads_unique
    {recbuffer : Bytes} {first second : CString}
    (readsFirst : Reads recbuffer first)
    (readsSecond : Reads recbuffer second) :
    first = second :=
  CString.eq_of_prefix readsFirst.2 readsSecond.2

/-- The names of the log are the active ones among the expected. -/
theorem mem_log_iff
    {pnames : List CString} {server : WimpServer}
    {arrivals : List Incoming} {config : AcceptConfig}
    (waiting : Waiting pnames server)
    (logged : Logged pnames server arrivals config)
    {pname : CString} (expected : pname ∈ pnames) :
    ∃ procdat,
      wimpProcessTableGet config.server.ptable (some pname.val) =
          some procdat ∧
        (procdat.processActive = true ↔
          pname ∈ config.activated.map Activation.procName) := by
  by_cases member : pname ∈ config.activated.map Activation.procName
  · rcases List.mem_map.mp member with ⟨activation, stored, rfl⟩
    rcases logged.active activation stored with
      ⟨procdat, found, active, -⟩
    exact ⟨procdat, found, by simp [active, member]⟩
  · rcases waiting pname expected with ⟨procdat, found, inactive⟩
    refine ⟨procdat, ?_, by simp [inactive, member]⟩
    rw [logged.untouched, found]
    intro activation stored same
    apply member
    exact List.mem_map.mpr ⟨activation, stored, (Subtype.ext same).symm⟩

/-- The log names nobody twice, and every handshake carries its name. -/
def CleanLog (log : List Activation) : Prop :=
  (log.map Activation.procName).Nodup ∧
    ∀ activation ∈ log, Carries activation.handshake activation.procName

theorem cleanLog_concat_iff (log : List Activation) (last : Activation) :
    CleanLog (log ++ [last]) ↔
      CleanLog log ∧
        (Carries last.handshake last.procName ∧
          last.procName ∉ log.map Activation.procName) := by
  have names :
      ((log ++ [last]).map Activation.procName).Nodup ↔
        (log.map Activation.procName).Nodup ∧
          last.procName ∉ log.map Activation.procName := by
    rw [List.map_append, List.map_singleton, ← List.concat_eq_append,
      List.nodup_concat]
    exact and_comm
  rw [CleanLog, names, CleanLog]
  simp only [List.mem_append, List.mem_singleton, or_imp, forall_and,
    forall_eq]
  tauto

/-- A clean round extends a clean log to a clean log. -/
theorem cleanLog_step_iff
    {pnames : List CString} {server : WimpServer}
    {arrivals : List Incoming} {config next : AcceptConfig}
    {incoming : Incoming}
    (waiting : Waiting pnames server)
    (logged : Logged pnames server arrivals config)
    (stepped : acceptStep pnames config incoming = some next) :
    CleanLog next.activated ↔
      CleanLog config.activated ∧ Clean pnames config incoming := by
  cases (round_of_step stepped).1 with
  | idle _ _ server log count unread =>
      have clean : Clean pnames config incoming := by
        cases incoming with
        | refused => trivial
        | silent con => trivial
        | handshake con handshake =>
            intro pname expected reads
            rcases mem_log_iff waiting logged expected with
              ⟨procdat, found, -⟩
            rw [unread con handshake rfl pname expected reads] at found
            cases found
      rw [log]
      simp [clean]
  | activated con handshake pname _ expected reads present server log
      count =>
      rcases mem_log_iff waiting logged expected with
        ⟨procdat, found, active⟩
      have clean :
          Clean pnames config (.handshake con handshake) ↔
            Carries handshake pname ∧
              pname ∉ config.activated.map Activation.procName := by
        rw [← active, Bool.not_eq_true]
        constructor
        · intro clean
          rcases clean pname expected reads with ⟨carries, inactive⟩
          exact ⟨carries, inactive procdat found⟩
        · rintro ⟨carries, inactive⟩ other - readsOther
          have same := reads_unique reads readsOther
          subst same
          refine ⟨carries, ?_⟩
          intro record stored
          rw [found] at stored
          cases stored
          exact inactive
      rw [log, cleanLog_concat_iff, clean]

/-- The clean runs are those with a clean log. -/
theorem cleanLog_iff_along
    {pnames : List CString} {server : WimpServer}
    {recbuffer : WimpMsgBuffer} {arrivals : List Incoming}
    {config : AcceptConfig}
    (waiting : Waiting pnames server)
    (ran :
      run (acceptStep pnames) (acceptStart server recbuffer) arrivals =
        some config) :
    CleanLog config.activated ↔
      Along (acceptStep pnames) (Clean pnames)
        (acceptStart server recbuffer) arrivals := by
  refine run_induction
    (motive := fun arrivals config =>
      CleanLog config.activated ↔
        Along (acceptStep pnames) (Clean pnames)
          (acceptStart server recbuffer) arrivals) ?_ ?_ ran
  · simp [acceptStart, CleanLog, Along]
  · intro arrivals middle incoming next earlier holds stepped
    rw [along_concat_iff earlier, ← holds]
    exact cleanLog_step_iff waiting (logged_of_run earlier) stepped

/-! ## Success -/

/-- A round only gives another reason to fail. -/
theorem failureReason_of_step
    (pnames : List CString) (config : AcceptConfig) (incoming : Incoming)
    (next : AcceptConfig) (failing : config.failureReason ≠ .success)
    (stepped : acceptStep pnames config incoming = some next) :
    next.failureReason ≠ .success := by
  unfold acceptStep at stepped
  split at stepped
  case isFalse => cases stepped
  cases incoming with
  | refused =>
      cases stepped
      exact failing
  | silent con =>
      simp only at stepped
      split at stepped
      · cases stepped
      · cases stepped
        exact failing
  | handshake con handshake =>
      simp only at stepped
      split at stepped
      · cases stepped
      · rcases Option.map_eq_some_iff.mp stepped with ⟨verdict, -, rfl⟩
        cases verdict with
        | unexpected => nofun
        | badHeader => exact failing
        | missing procName => exact failing
        | accepted procName => exact failing

/-- A successful accept ran its loop and counted as many as it expected. -/
theorem run_of_success
    {server : WimpServer} {recbuffer : WimpMsgBuffer}
    {pnames : List CString} {granted listening : Bool}
    {arrivals : List Incoming} {config : AcceptConfig}
    (returned :
      wimpServerProcessAccept server recbuffer pnames granted listening
        arrivals = some (config, .success)) :
    run (acceptStep pnames) (acceptStart server recbuffer) arrivals =
        some config ∧
      config.acceptedCount = pnames.length := by
  unfold wimpServerProcessAccept at returned
  split at returned
  · split at returned <;> simp at returned
  split at returned
  · split at returned <;> simp at returned
  rcases Option.bind_eq_some_iff.mp returned with ⟨last, ran, finished⟩
  split at finished
  · cases finished
  split at finished
  · have failing : last.failureReason ≠ .success :=
      run_induction
        (motive := fun _ config => config.failureReason ≠ .success)
        (by simp [acceptStart])
        (fun _ middle label next _ => failureReason_of_step pnames middle
          label next) ran
    simp only [Option.some.injEq, Prod.mk.injEq] at finished
    exact absurd finished.2 failing
  · rename_i same
    cases finished
    exact ⟨ran, Decidable.not_not.mp same⟩

/-- Where the images do not repeat, one image has one origin. -/
theorem eq_of_nodup_filterMap
    {Source Image : Type*} {image : Source → Option Image}
    {sources : List Source} (distinct : (sources.filterMap image).Nodup)
    {first second : Source} (memFirst : first ∈ sources)
    (memSecond : second ∈ sources) {value : Image}
    (imageFirst : image first = some value)
    (imageSecond : image second = some value) :
    first = second := by
  induction sources with
  | nil => cases memFirst
  | cons source rest induction =>
      have other (origin : Source) (member : origin ∈ rest)
          (same : image origin = some value)
          (here : image source = some value) : False := by
        rw [List.filterMap_cons_some here, List.nodup_cons] at distinct
        exact distinct.1 (List.mem_filterMap.mpr ⟨origin, member, same⟩)
      have below : (rest.filterMap image).Nodup :=
        distinct.sublist ((List.sublist_cons_self source rest).filterMap _)
      rcases List.mem_cons.mp memFirst with rfl | inFirst
      · rcases List.mem_cons.mp memSecond with rfl | inSecond
        · rfl
        · exact (other second inSecond imageSecond imageFirst).elim
      · rcases List.mem_cons.mp memSecond with rfl | inSecond
        · exact (other first inFirst imageFirst imageSecond).elim
        · exact induction below inFirst inSecond

/-- With the expected count, a clean log means that everyone is connected. -/
theorem everyoneConnected_iff_cleanLog
    {pnames : List CString} {server : WimpServer}
    {arrivals : List Incoming} {config : AcceptConfig}
    (logged : Logged pnames server arrivals config)
    (counted : config.acceptedCount = pnames.length) :
    EveryoneConnected pnames server arrivals config ↔
      CleanLog config.activated := by
  have subset :
      config.activated.map Activation.procName ⊆ pnames := by
    intro name member
    rcases List.mem_map.mp member with ⟨activation, stored, rfl⟩
    exact logged.expected activation stored
  constructor
  · intro everyone
    have once : (config.activated.map Activation.procName).Nodup := by
      apply List.nodup_iff_count_le_one.mpr
      intro name
      by_cases expected : name ∈ pnames
      · exact (everyone.once name expected).le
      · rw [List.count_eq_zero_of_not_mem fun member =>
          expected (subset member)]
        exact Nat.zero_le 1
    refine ⟨once, ?_⟩
    intro activation stored
    rcases everyone.connected activation.procName
        (logged.expected activation stored) with
      ⟨con, handshake, procdat, arrived, carries, found, -, connection⟩
    rcases logged.active activation stored with
      ⟨record, foundAgain, -, last, lastStored, same, lastConnection⟩
    have lastOne : last = activation :=
      List.inj_on_of_nodup_map once lastStored stored same
    rw [found, Option.some.injEq] at foundAgain
    rw [← foundAgain, connection, lastOne] at lastConnection
    subst lastConnection
    have sockets : (arrivals.filterMap socketOf).Nodup := by
      rw [← logged.sockets]
      exact logged.distinct
    have unique :=
      eq_of_nodup_filterMap sockets arrived
        (logged.arrived activation stored) rfl rfl
    rw [Incoming.handshake.injEq] at unique
    rw [← unique.2]
    exact carries
  · rintro ⟨once, carry⟩
    have all : (config.activated.map Activation.procName).Perm pnames := by
      apply (once.subperm subset).perm_of_length_le
      rw [List.length_map, ← logged.counted, counted]
    constructor
    case connected =>
      intro pname expected
      rcases List.mem_map.mp (all.mem_iff.mpr expected) with
        ⟨activation, stored, rfl⟩
      rcases logged.active activation stored with
        ⟨procdat, found, active, last, lastStored, same, connection⟩
      have lastOne : last = activation :=
        List.inj_on_of_nodup_map once lastStored stored same
      rw [lastOne] at connection
      exact
        ⟨activation.con, activation.handshake, procdat,
          logged.arrived activation stored, carry activation stored, found,
          active, connection⟩
    case others =>
      intro name outside
      apply logged.untouched
      intro activation stored
      exact outside _ (logged.expected activation stored)
    case once =>
      intro pname expected
      exact List.count_eq_one_of_mem once (all.mem_iff.mpr expected)

/--
An accept which returns success has connected everyone exactly when no round
read an expected name from a handshake which does not carry it, or the name of
a process which was active already.
-/
theorem everyoneConnected_iff
    {server : WimpServer} {recbuffer : WimpMsgBuffer}
    {pnames : List CString} {granted listening : Bool}
    {arrivals : List Incoming} {config : AcceptConfig}
    (waiting : Waiting pnames server)
    (returned :
      wimpServerProcessAccept server recbuffer pnames granted listening
        arrivals = some (config, .success)) :
    EveryoneConnected pnames server arrivals config ↔
      Along (acceptStep pnames) (Clean pnames)
        (acceptStart server recbuffer) arrivals := by
  rcases run_of_success returned with ⟨ran, counted⟩
  rw [← cleanLog_iff_along waiting ran]
  exact everyoneConnected_iff_cleanLog (logged_of_run ran) counted

/-- A server which knows the processes `a` and `b`. -/
private def serverOfTwo : WimpServer :=
  let procdat : WimpProcessData :=
    { processDomain := []
      processPort := 0
      processConnection := 0
      processRelation := .child }
  let ptable :=
    (wimpProcessTableAdd wimpCreateProcessTable [97] procdat true).1
  { processName := .ofBytes [115]
    ptable := (wimpProcessTableAdd ptable [98] procdat true).1 }

private theorem waiting_serverOfTwo :
    Waiting [.ofBytes [97], .ofBytes [98]] serverOfTwo := by
  have each :
      ∀ pname ∈ [CString.ofBytes [97], .ofBytes [98]],
        (wimpProcessTableGet serverOfTwo.ptable (some pname.val)).map
          WimpProcessData.processActive = some false := by
    decide +kernel
  intro pname expected
  rcases Option.map_eq_some_iff.mp (each pname expected) with
    ⟨procdat, found, inactive⟩
  exact ⟨procdat, found, inactive⟩

/-- The handshake which a receiver sends for a one-letter name. -/
private def handshakeOf (letter : UInt8) : Handshake :=
  ⟨handshakeHeader ++ [2, 0, 0, 0, letter, 0], by
    simp [handshakeHeader, Reciever.Machine.wimpMessageBufferBytes]⟩

/-- An unexpected name between two expected ones does no harm. -/
theorem everyoneConnected_two :
    ∃ config,
      wimpServerProcessAccept serverOfTwo wimpZeroBuffer
            [.ofBytes [97], .ofBytes [98]] true true
            [.handshake 1 (handshakeOf 98), .handshake 2 (handshakeOf 99),
              .handshake 3 (handshakeOf 97)] =
          some (config, .success) ∧
        EveryoneConnected [.ofBytes [97], .ofBytes [98]] serverOfTwo
          [.handshake 1 (handshakeOf 98), .handshake 2 (handshakeOf 99),
            .handshake 3 (handshakeOf 97)] config := by
  have success :
      (wimpServerProcessAccept serverOfTwo wimpZeroBuffer
          [.ofBytes [97], .ofBytes [98]] true true
          [.handshake 1 (handshakeOf 98), .handshake 2 (handshakeOf 99),
            .handshake 3 (handshakeOf 97)]).map Prod.snd =
        some .success := by
    decide +kernel
  rcases Option.map_eq_some_iff.mp success with
    ⟨⟨config, result⟩, returned, rfl⟩
  refine ⟨config, returned, ?_⟩
  exact
    (everyoneConnected_iff waiting_serverOfTwo returned).mpr
      (by decide +kernel)

/-- Two connections of `a` count as one of `a` and one of `b`. -/
theorem not_everyoneConnected_twice :
    [CString.ofBytes [97], .ofBytes [98]].Nodup ∧
      Waiting [.ofBytes [97], .ofBytes [98]] serverOfTwo ∧
        ∃ config,
          wimpServerProcessAccept serverOfTwo wimpZeroBuffer
                [.ofBytes [97], .ofBytes [98]] true true
                [.handshake 1 (handshakeOf 97),
                  .handshake 2 (handshakeOf 97)] =
              some (config, .success) ∧
            ¬ EveryoneConnected [.ofBytes [97], .ofBytes [98]] serverOfTwo
                [.handshake 1 (handshakeOf 97),
                  .handshake 2 (handshakeOf 97)] config := by
  refine ⟨by decide +kernel, waiting_serverOfTwo, ?_⟩
  have success :
      (wimpServerProcessAccept serverOfTwo wimpZeroBuffer
          [.ofBytes [97], .ofBytes [98]] true true
          [.handshake 1 (handshakeOf 97),
            .handshake 2 (handshakeOf 97)]).map
          (fun (config, result) =>
            (config.activated.map Activation.procName, result)) =
        some ([.ofBytes [97], .ofBytes [97]], .success) := by
    decide +kernel
  rcases Option.map_eq_some_iff.mp success with
    ⟨⟨config, result⟩, returned, seen⟩
  simp only [Prod.mk.injEq] at seen
  rcases seen with ⟨log, rfl⟩
  refine ⟨config, returned, ?_⟩
  intro everyone
  have once := everyone.once (.ofBytes [97]) (List.mem_cons_self ..)
  rw [log] at once
  revert once
  decide +kernel

end Wimp.Server.AcceptEveryone
