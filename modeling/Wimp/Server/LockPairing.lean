import Wimp.Server.WaitResponse

/-!
# Lock pairing while waiting for a response

As long as the server is in its wait loop, the queue keeps its handles, every
lock function follows the discipline, and no mutex is misused, however the
receivers interleave.  `wimp_instr_queue_prepend_queue` ends this: it
exchanges the two records, handles included, while the server holds the data
mutex.  The unlock call behind it then names a mutex of the temporary queue,
which the server never locked, the incoming queue keeps the handles of the
temporary queue, and the mutexes which are freed are those of the incoming
queue, the locked one among them.

Hence the pairing holds in every run in which nothing answers the call, and it
is broken in every run in which the call gets past its last unlock.
-/

namespace Wimp.Server.LockPairing

open Wimp.Lib.ByteRegion
open Wimp.Lib.Mutex
open Wimp.Lib.Runs
open Wimp.Instr.Codec
open Wimp.Instr.Queue
open Wimp.Server.WaitResponse

variable {count : Nat} {instr : CString}
variable {config next : Config count} {action : Action count}

/--
Each mutex which the server unlocked was one it held, no mutex in use was
freed, and at the return the queue has the mutexes it had at the call.
-/
structure LockPaired (config : Config count) : Prop where
  unlocks : ∀ mutex, Misuse.unlock .server mutex ∉ config.misuses
  frees : ∀ mutex, Misuse.free mutex ∉ config.misuses
  handles :
    config.server = .returned →
      config.incoming.handle = Mutex.incoming

/-! ## The phases of the call -/

/-- The two queues have not been exchanged yet. -/
def Before : ServerControl → Prop
  | .lock _ => True
  | .scan => True
  | .unlock _ _ => True
  | .relock _ => True
  | .prepend => True
  | _ => False

/-- The call has made its last unlock. -/
def Left : ServerControl → Prop
  | .lastUnlock code => code.rest = []
  | .free => True
  | .returned => True
  | _ => False

/-- The mutexes which the server holds at the end of the current piece. -/
def serverFinal : ServerControl → Finset QueueMutex
  | .lock _ => {.data}
  | .scan => {.data}
  | .relock _ => {.data}
  | .prepend => {.data}
  | _ => ∅

/-- The mutexes which a receiver holds at the end of the current piece. -/
def recieverFinal : RecieverControl → Finset QueueMutex
  | .lock _ _ => {.lowprio, .data}
  | .add _ => {.lowprio, .data}
  | _ => ∅

/--
A thread holds what its place in the code says: inside a lock function it
keeps to the discipline, and elsewhere it holds the final mutexes.
-/
def Fits (code : Option LockCode) (final held : Finset QueueMutex) : Prop :=
  match code with
  | some code => Disciplined Mutex.incoming held code final
  | none => held = final

theorem fits_enter
    {held final : Finset QueueMutex} {calls : List (Command QueueMutex)}
    (follows : run follow held calls = some final) :
    Fits (some { rest := calls }) final held :=
  Disciplined.enter follows

/-- From the end of one lock function the server enters the next piece. -/
theorem fits_finish_server
    {control : ServerControl} {code : LockCode}
    {held : Finset QueueMutex} (before : Before control)
    (inside : control.code = some code) (ended : code.rest = [])
    (fits : Fits control.code (serverFinal control) held) :
    Before control.finish ∧
      Fits control.finish.code (serverFinal control.finish) held := by
  rw [inside] at fits
  have final := Disciplined.final_eq fits ended
  subst final
  cases control with
  | lock code => exact ⟨trivial, rfl⟩
  | unlock disconnect code =>
      cases disconnect with
      | false => exact ⟨trivial, fits_enter follow_highPrioLock⟩
      | true => exact ⟨trivial, fits_enter follow_highPrioLock⟩
  | relock code => exact ⟨trivial, rfl⟩
  | lastUnlock code => cases before
  | _ => cases inside

theorem fits_finish_reciever
    {control : RecieverControl} {code : LockCode}
    {held : Finset QueueMutex}
    (inside : control.code = some code) (ended : code.rest = [])
    (fits : Fits control.code (recieverFinal control) held) :
    Fits control.finish.code (recieverFinal control.finish) held := by
  rw [inside] at fits
  have final := Disciplined.final_eq fits ended
  subst final
  cases control with
  | lock instruction code => rfl
  | unlock code => rfl
  | _ => cases inside

theorem fits_resume_server
    {control : ServerControl} {code following : LockCode}
    {held : Finset QueueMutex} (before : Before control)
    (inside : control.code = some code)
    (disciplined :
      Disciplined Mutex.incoming held following (serverFinal control)) :
    Before (control.resume following) ∧
      Fits (control.resume following).code
        (serverFinal (control.resume following)) held := by
  cases control with
  | lock code => exact ⟨trivial, disciplined⟩
  | unlock disconnect code => exact ⟨trivial, disciplined⟩
  | relock code => exact ⟨trivial, disciplined⟩
  | lastUnlock code => cases before
  | _ => cases inside

theorem fits_resume_reciever
    {control : RecieverControl} {code following : LockCode}
    {held : Finset QueueMutex}
    (inside : control.code = some code)
    (disciplined :
      Disciplined Mutex.incoming held following
        (recieverFinal control)) :
    Fits (control.resume following).code
      (recieverFinal (control.resume following)) held := by
  cases control with
  | lock instruction code => exact disciplined
  | unlock code => exact disciplined
  | _ => cases inside

/-! ## Before the exchange -/

/-- The mutexes as long as the queues have not been exchanged. -/
structure Paired (config : Config count)
    (held : Thread count → Finset QueueMutex) : Prop where
  incoming : config.incoming.handle = Mutex.incoming
  tmpqueue : config.tmpqueue.handle = Mutex.tmpqueue
  agrees : Agrees Mutex.incoming config.holder held
  untouched : ∀ field, config.holder (.tmpqueue field) = none
  server :
    Fits config.server.code (serverFinal config.server) (held .server)
  recievers :
    ∀ number,
      Fits (config.recievers number).code
        (recieverFinal (config.recievers number))
        (held (.reciever number))
  misuses : config.misuses = []

/-- Nothing but the mutexes and the places in the code matters. -/
theorem Paired.of_server
    {held : Thread count → Finset QueueMutex}
    (paired : Paired config held)
    (incoming : next.incoming.handle = config.incoming.handle)
    (tmpqueue : next.tmpqueue.handle = config.tmpqueue.handle)
    (holder : next.holder = config.holder)
    (misuses : next.misuses = config.misuses)
    (recievers : next.recievers = config.recievers)
    (server :
      Fits next.server.code (serverFinal next.server) (held .server)) :
    Paired next held := by
  constructor
  case incoming => rw [incoming, paired.incoming]
  case tmpqueue => rw [tmpqueue, paired.tmpqueue]
  case agrees =>
    rw [holder]
    exact paired.agrees
  case untouched =>
    rw [holder]
    exact paired.untouched
  case server => exact server
  case recievers =>
    rw [recievers]
    exact paired.recievers
  case misuses => rw [misuses, paired.misuses]

/-- A call of a disciplined thread misuses nothing and stays paired. -/
theorem Paired.call
    {held : Thread count → Finset QueueMutex}
    (paired : Paired config held) {thread : Thread count}
    {code : LockCode} {final : Finset QueueMutex}
    (disciplined :
      Disciplined Mutex.incoming (held thread) code final)
    {advanced : Advance QueueMutex Mutex (Thread count)}
    (made :
      code.advance config.incoming.handle config.holder thread =
        some advanced) :
    ∃ slots,
      Disciplined Mutex.incoming slots advanced.code final ∧
        Agrees Mutex.incoming advanced.holder
          (Function.update held thread slots) ∧
        (∀ field, advanced.holder (.tmpqueue field) = none) ∧
        (config.afterCall thread advanced).misuses = [] := by
  rw [paired.incoming] at made
  rcases paired.agrees.advance (fun _ _ => Mutex.incoming.inj) disciplined
      made with
    ⟨proper, slots, agrees, following⟩
  refine ⟨slots, following, agrees, ?_, ?_⟩
  · intro field
    cases owned : advanced.holder (.tmpqueue field) with
    | none => rfl
    | some owner =>
        rcases holder_of_advance made owned with earlier | ⟨-, awaited⟩
        · rw [paired.untouched field] at earlier
          cases earlier
        · rcases disciplined.awaits _ awaited with ⟨slot, _, _, same⟩
          cases same
  · simp [Config.afterCall, proper, paired.misuses]

/-- The calls keep lock functions and mutexes together. -/
theorem Paired.serverCall
    {held : Thread count → Finset QueueMutex}
    (paired : Paired config held) (before : Before config.server)
    {code : LockCode} (inside : config.server.code = some code)
    {advanced : Advance QueueMutex Mutex (Thread count)}
    (made :
      code.advance config.incoming.handle config.holder .server =
        some advanced) :
    Before (config.server.resume advanced.code) ∧
      ∃ held,
        Paired
          { config.afterCall .server advanced with
            server := config.server.resume advanced.code } held := by
  have fits := paired.server
  rw [inside] at fits
  rcases paired.call fits made with
    ⟨slots, following, agrees, untouched, misuses⟩
  rcases fits_resume_server before inside following with
    ⟨resumed, fits⟩
  refine ⟨resumed, Function.update held .server slots, ?_⟩
  constructor
  case incoming => exact paired.incoming
  case tmpqueue => exact paired.tmpqueue
  case agrees => exact agrees
  case untouched => exact untouched
  case server =>
    rw [Function.update_self]
    exact fits
  case recievers =>
    intro number
    have other : Thread.reciever number ≠ .server := nofun
    rw [Function.update_of_ne other]
    exact paired.recievers number
  case misuses => exact misuses

/-- A receiver enters another piece of its loop. -/
theorem Paired.setReciever
    {held : Thread count → Finset QueueMutex}
    (paired : Paired config held) {number : Fin count}
    {control : RecieverControl}
    (fits :
      Fits control.code (recieverFinal control)
        (held (.reciever number))) :
    Paired (config.setReciever number control) held := by
  constructor
  case incoming => exact paired.incoming
  case tmpqueue => exact paired.tmpqueue
  case agrees => exact paired.agrees
  case untouched => exact paired.untouched
  case server => exact paired.server
  case recievers =>
    intro other
    show Fits (Function.update config.recievers number control other).code
      _ _
    by_cases same : other = number
    · subst same
      simpa [Config.setReciever] using fits
    · simpa [Config.setReciever, Function.update_of_ne same] using
        paired.recievers other
  case misuses => exact paired.misuses

theorem Paired.recieverCall
    {held : Thread count → Finset QueueMutex}
    (paired : Paired config held) {number : Fin count}
    {code : LockCode}
    (inside : (config.recievers number).code = some code)
    {advanced : Advance QueueMutex Mutex (Thread count)}
    (made :
      code.advance config.incoming.handle config.holder
        (.reciever number) = some advanced) :
    ∃ held,
      Paired
        ((config.afterCall (.reciever number) advanced).setReciever number
          ((config.recievers number).resume advanced.code)) held := by
  have fits := paired.recievers number
  rw [inside] at fits
  rcases paired.call fits made with
    ⟨slots, following, agrees, untouched, misuses⟩
  refine ⟨Function.update held (.reciever number) slots, ?_⟩
  constructor
  case incoming => exact paired.incoming
  case tmpqueue => exact paired.tmpqueue
  case agrees => exact agrees
  case untouched => exact untouched
  case server =>
    have other : Thread.server ≠ .reciever number := nofun
    rw [Function.update_of_ne other]
    exact paired.server
  case recievers =>
    intro other
    show Fits
      (Function.update config.recievers number
        ((config.recievers number).resume advanced.code) other).code _ _
    by_cases same : other = number
    · subst same
      simpa [Config.setReciever, Config.afterCall] using
        fits_resume_reciever inside following
    · have distinct : Thread.reciever other ≠ .reciever number :=
        fun equal => same (Thread.reciever.inj equal)
      simpa [Config.setReciever, Config.afterCall,
        Function.update_of_ne same, Function.update_of_ne distinct] using
        paired.recievers other
  case misuses => exact misuses

/-! ## Every phase -/

/-- The server unlocked a mutex which it did not hold. -/
def Misused (config : Config count) : Prop :=
  ∃ mutex, Misuse.unlock .server mutex ∈ config.misuses

/-- Only receivers misused a mutex. -/
def RecieversMisuse (config : Config count) : Prop :=
  ∀ misuse ∈ config.misuses, ∃ number mutex,
    misuse = .unlock (.reciever number) mutex

/-- What every run keeps, phase by phase. -/
inductive Invariant (config : Config count) : Prop where
  | before (control : Before config.server)
      (held : Thread count → Finset QueueMutex)
      (paired : Paired config held)
  | exchanged
      (control :
        config.server =
          .lastUnlock { rest := wimpInstrQueueHighPrioUnlock })
      (incoming : config.incoming.handle = Mutex.tmpqueue)
      (unheld : ∀ field, config.holder (.tmpqueue field) ≠ some .server)
      (clean : RecieversMisuse config)
  | left (control : Left config.server) (misused : Misused config)
  | fault (control : config.server = .fault)
      (clean : RecieversMisuse config)

theorem invariant_called (nodes : List Bytes) :
    Invariant (called nodes : Config count) := by
  refine .before trivial (fun _ => ∅) ?_
  constructor
  case incoming =>
    ext field
    cases field <;> rfl
  case tmpqueue =>
    ext field
    cases field <;> rfl
  case agrees =>
    intro thread slot
    simp [called]
  case untouched => exact fun _ => rfl
  case server => exact fits_enter follow_highPrioLock
  case recievers => exact fun _ => rfl
  case misuses => rfl

/-- The step of a scan stays in front of the exchange, or is a fault. -/
theorem invariant_scanNode
    {held : Thread count → Finset QueueMutex}
    (control : config.server = .scan) (paired : Paired config held)
    (outcome : ScanOutcome instr config next) : Invariant next := by
  have fits := paired.server
  rw [control] at fits
  have owned : held .server = {.data} := fits
  have leaving :
      Fits (some { rest := wimpInstrQueueHighPrioUnlock }) ∅
        (held .server) := by
    rw [owned]
    exact fits_enter follow_highPrioUnlock
  cases outcome with
  | exhausted empty =>
      exact .before trivial held
        (paired.of_server rfl rfl rfl rfl rfl leaving)
  | undecodable currentnode nodes front check =>
      refine .fault rfl ?_
      simp [RecieversMisuse, paired.misuses]
  | response currentnode nodes front check =>
      exact .before trivial held
        (paired.of_server (handle_nodes _ _) rfl rfl rfl rfl leaving)
  | exit currentnode nodes front other check =>
      exact .before trivial held
        (paired.of_server (handle_nodes _ _) rfl rfl rfl rfl leaving)
  | passed currentnode nodes front other check =>
      refine .before ?_ held
        (paired.of_server (handle_nodes _ _) (handle_nodes _ _) rfl rfl rfl
          paired.server)
      rw [control]
      trivial

/-- The exchange hands the mutexes of the temporary queue over. -/
theorem invariant_prepend
    {held : Thread count → Finset QueueMutex}
    (paired : Paired config held) :
    Invariant (prependTmpqueue config) := by
  rw [prependTmpqueue_eq]
  refine .exchanged rfl ?_ ?_ ?_
  · rw [← paired.tmpqueue]
    apply handle_nodes
  · intro field
    show config.holder (.tmpqueue field) ≠ _
    rw [paired.untouched field]
    exact nofun
  · simp [RecieversMisuse, paired.misuses]

/-- The unlock behind the exchange is the server's first misuse. -/
theorem misused_of_exchanged
    {code : LockCode}
    (control :
      config.server = .lastUnlock { rest := wimpInstrQueueHighPrioUnlock })
    (incoming : config.incoming.handle = Mutex.tmpqueue)
    (unheld : ∀ field, config.holder (.tmpqueue field) ≠ some .server)
    (inside : config.server.code = some code)
    {advanced : Advance QueueMutex Mutex (Thread count)}
    (made :
      code.advance config.incoming.handle config.holder .server =
        some advanced) :
    Left (config.server.resume advanced.code) ∧
      Misused (config.afterCall .server advanced) := by
  rw [control] at inside ⊢
  cases inside
  rw [incoming] at made
  simp only [Code.advance, wimpInstrQueueHighPrioUnlock,
    Option.some.injEq] at made
  subst made
  refine ⟨rfl, .tmpqueue .data, ?_⟩
  simp [Config.afterCall, unheld .data]

/-- A call of a receiver adds a misuse of its own at most. -/
theorem RecieversMisuse.call
    (clean : RecieversMisuse config) (number : Fin count)
    (advanced : Advance QueueMutex Mutex (Thread count)) :
    RecieversMisuse (config.afterCall (.reciever number) advanced) := by
  intro misuse member
  rcases List.mem_append.mp member with earlier | latest
  · exact clean misuse earlier
  · rcases Option.map_eq_some_iff.mp (Option.mem_toList.mp latest) with
      ⟨mutex, -, same⟩
    exact ⟨number, mutex, same.symm⟩

/-- A misuse stays on record. -/
theorem Misused.call
    (misused : Misused config) (thread : Thread count)
    (advanced : Advance QueueMutex Mutex (Thread count)) :
    Misused (config.afterCall thread advanced) := by
  rcases misused with ⟨mutex, member⟩
  exact ⟨mutex, List.mem_append_left _ member⟩

/-- A step in front of the exchange. -/
theorem invariant_of_before
    {held : Thread count → Finset QueueMutex}
    (control : Before config.server) (paired : Paired config held)
    (transition : Transition instr config action next) :
    Invariant next := by
  cases transition with
  | serverFinish code inside ended =>
      rcases fits_finish_server control inside ended paired.server with
        ⟨control, fits⟩
      exact .before control held
        (paired.of_server rfl rfl rfl rfl rfl fits)
  | serverCall code inside advanced made =>
      rcases paired.serverCall control inside made with
        ⟨control, held, paired⟩
      exact .before control held paired
  | scan standing =>
      exact invariant_scanNode standing paired (scanNode_cases ..)
  | prepend standing => exact invariant_prepend paired
  | free standing =>
      rw [standing] at control
      cases control
  | recieve number instruction standing =>
      have fits := paired.recievers number
      rw [standing] at fits
      have owned : held (.reciever number) = ∅ := fits
      refine .before control held (paired.setReciever ?_)
      rw [owned]
      exact fits_enter follow_lowPrioLock
  | recieverFinish number granted code inside ended =>
      exact .before control held
        (paired.setReciever
          (fits_finish_reciever inside ended (paired.recievers number)))
  | recieverCall number granted code inside advanced made =>
      rcases paired.recieverCall inside made with ⟨held, paired⟩
      exact .before control held paired
  | add number granted instruction standing =>
      have fits := paired.recievers number
      rw [standing] at fits
      have owned : held (.reciever number) = {.lowprio, .data} := fits
      refine .before control held (Paired.setReciever ?_ ?_)
      · exact paired.of_server (handle_wimpInstrQueueAdd ..) rfl rfl rfl rfl
          paired.server
      · rw [owned]
        exact fits_enter follow_lowPrioUnlock

/-- A step between the exchange and the last unlock, or that unlock. -/
theorem invariant_of_exchanged
    (control :
      config.server = .lastUnlock { rest := wimpInstrQueueHighPrioUnlock })
    (incoming : config.incoming.handle = Mutex.tmpqueue)
    (unheld : ∀ field, config.holder (.tmpqueue field) ≠ some .server)
    (clean : RecieversMisuse config)
    (transition : Transition instr config action next) :
    Invariant next := by
  cases transition with
  | serverFinish code inside ended =>
      rw [control] at inside
      cases inside
      cases ended
  | serverCall code inside advanced made =>
      rcases misused_of_exchanged control incoming unheld inside made
        with ⟨left, misused⟩
      exact .left left misused
  | scan standing => exact nomatch control.symm.trans standing
  | prepend standing => exact nomatch control.symm.trans standing
  | free standing => exact nomatch control.symm.trans standing
  | recieve number instruction standing =>
      exact .exchanged control incoming unheld clean
  | recieverFinish number granted code inside ended =>
      exact .exchanged control incoming unheld clean
  | recieverCall number granted code inside advanced made =>
      refine .exchanged control incoming ?_ (clean.call number advanced)
      intro field owned
      rcases holder_of_advance made owned with earlier | ⟨same, -⟩
      · exact unheld field earlier
      · cases same
  | add number granted instruction standing =>
      refine .exchanged control ?_ unheld clean
      rw [← incoming]
      apply handle_wimpInstrQueueAdd

/-- A step behind the last unlock. -/
theorem invariant_of_left
    (control : Left config.server) (misused : Misused config)
    (transition : Transition instr config action next) :
    Invariant next := by
  cases transition with
  | serverFinish code inside ended =>
      cases standing : config.server with
      | lastUnlock code => exact .left trivial misused
      | free => simp [standing, ServerControl.code] at inside
      | returned => simp [standing, ServerControl.code] at inside
      | _ => simp [standing, Left] at control
  | serverCall code inside advanced made =>
      cases standing : config.server with
      | lastUnlock finished =>
          simp only [standing, ServerControl.code, Option.some.injEq]
            at inside
          simp only [standing, Left, inside] at control
          simp [Code.advance, control] at made
      | free => simp [standing, ServerControl.code] at inside
      | returned => simp [standing, ServerControl.code] at inside
      | _ => simp [standing, Left] at control
  | scan standing => simp [standing, Left] at control
  | prepend standing => simp [standing, Left] at control
  | free standing =>
      rcases misused with ⟨mutex, member⟩
      exact .left trivial ⟨mutex, List.mem_append_left _ member⟩
  | recieve number instruction standing => exact .left control misused
  | recieverFinish number granted code inside ended =>
      exact .left control misused
  | recieverCall number granted code inside advanced made =>
      exact .left control (misused.call (.reciever number) advanced)
  | add number granted instruction standing =>
      exact .left control misused

/-- One step keeps the invariant. -/
theorem invariant_of_step
    (invariant : Invariant config)
    (stepped : step instr config action = some next) : Invariant next := by
  rcases step_cases stepped with ⟨healthy, transition⟩
  cases invariant with
  | before control held paired =>
      exact invariant_of_before control paired transition
  | exchanged control incoming unheld clean =>
      exact invariant_of_exchanged control incoming unheld clean transition
  | left control misused => exact invariant_of_left control misused transition
  | fault control clean => exact absurd control healthy

theorem RecieversMisuse.lockPaired
    (clean : RecieversMisuse config)
    (running : config.server ≠ .returned) : LockPaired config := by
  constructor
  case unlocks =>
    intro mutex member
    rcases clean _ member with ⟨number, other, same⟩
    cases same
  case frees =>
    intro mutex member
    rcases clean _ member with ⟨number, other, same⟩
    cases same
  case handles => exact fun returned => absurd returned running

/-- The pairing is kept exactly up to the last unlock. -/
theorem lockPaired_iff
    {nodes : List Bytes} {actions : List (Action count)}
    (ran :
      run (step instr) (called nodes) actions = some config) :
    LockPaired config ↔ ¬ Left config.server := by
  have invariant : Invariant config :=
    run_invariant (fun _ _ _ holds stepped =>
      invariant_of_step holds stepped) (invariant_called nodes) ran
  cases invariant with
  | before control held paired =>
      have running : ¬ Left config.server := by
        intro left
        cases standing : config.server <;>
          simp_all [Before, Left]
      refine iff_of_true (RecieversMisuse.lockPaired ?_ ?_) running
      · simp [RecieversMisuse, paired.misuses]
      · intro returned
        simp [returned, Before] at control
  | exchanged control incoming unheld clean =>
      refine iff_of_true (clean.lockPaired ?_) ?_
      · simp [control]
      · simp [control, Left, wimpInstrQueueHighPrioUnlock]
  | left control misused =>
      rcases misused with ⟨mutex, member⟩
      exact iff_of_false (fun paired => paired.unlocks mutex member)
        (not_not_intro control)
  | fault control clean =>
      refine iff_of_true (clean.lockPaired ?_) ?_
      · simp [control]
      · simp [control, Left]

/-! ## Runs without an answer -/

/-- The instruction ends the wait: it is the awaited one or `exit`. -/
def Answers (instr : CString) (buffer : Bytes) : Prop :=
  nodeCheck buffer instr.val = some true ∨
    nodeCheck buffer wimpInstructionExit = some true

instance (instr : CString) (buffer : Bytes) :
    Decidable (Answers instr buffer) :=
  inferInstanceAs (Decidable (_ ∨ _))

/-- No receiver comes with an instruction which ends the wait. -/
def Unanswered (instr : CString) : Action count → Prop
  | .recieve _ instruction => ¬ Answers instr instruction
  | _ => True

instance (instr : CString) (action : Action count) :
    Decidable (Unanswered instr action) :=
  match action with
  | .recieve _ _ => inferInstanceAs (Decidable (¬ _))
  | .server => inferInstanceAs (Decidable True)
  | .reciever _ _ => inferInstanceAs (Decidable True)

/-- The server is in the wait loop, which does not end. -/
def Loops : ServerControl → Prop
  | .lock _ => True
  | .scan => True
  | .unlock disconnect _ => disconnect = false
  | .fault => True
  | _ => False

/-- The instruction which a receiver is about to append. -/
def pending : RecieverControl → Option Bytes
  | .lock instruction _ => some instruction
  | .add instruction => some instruction
  | _ => none

/-- Nothing that is queued or under way ends the wait. -/
structure Listening (instr : CString) (config : Config count) : Prop where
  loops : Loops config.server
  incoming : ∀ node ∈ config.incoming.nodes, ¬ Answers instr node
  recievers :
    ∀ number, ∀ instruction ∈ pending (config.recievers number),
      ¬ Answers instr instruction

theorem listening_scanNode
    (listening : Listening instr config)
    (outcome : ScanOutcome instr config next) : Listening instr next := by
  rcases listening with ⟨loops, incoming, recievers⟩
  cases outcome with
  | exhausted empty => exact ⟨rfl, incoming, recievers⟩
  | undecodable currentnode nodes front check =>
      refine ⟨trivial, ?_, recievers⟩
      intro node member
      exact incoming node (front ▸ List.mem_cons_of_mem _ member)
  | response currentnode nodes front check =>
      exact absurd (Or.inl check)
        (incoming currentnode (front ▸ List.mem_cons_self ..))
  | exit currentnode nodes front other check =>
      exact absurd (Or.inr check)
        (incoming currentnode (front ▸ List.mem_cons_self ..))
  | passed currentnode nodes front other check =>
      refine ⟨loops, ?_, recievers⟩
      intro node member
      exact incoming node (front ▸ List.mem_cons_of_mem _ member)

/-- The mutexes do not matter to a server which listens. -/
theorem Listening.of_incoming
    (listening : Listening instr config)
    (server : next.server = config.server)
    (recievers : next.recievers = config.recievers)
    (incoming : ∀ node ∈ next.incoming.nodes, ¬ Answers instr node) :
    Listening instr next :=
  ⟨server ▸ listening.loops, incoming, recievers ▸ listening.recievers⟩

/-- A receiver whose pending instruction is harmless. -/
theorem Listening.setReciever
    (listening : Listening instr config) {number : Fin count}
    {control : RecieverControl}
    (harmless :
      ∀ instruction ∈ pending control, ¬ Answers instr instruction) :
    Listening instr (config.setReciever number control) := by
  refine ⟨listening.loops, listening.incoming, ?_⟩
  intro other
  show ∀ instruction ∈
    pending (Function.update config.recievers number control other), _
  by_cases same : other = number
  · subst same
    simpa using harmless
  · simpa [Function.update_of_ne same] using listening.recievers other

theorem listening_of_step
    (listening : Listening instr config)
    (unanswered : Unanswered instr action)
    (stepped : step instr config action = some next) :
    Listening instr next := by
  rcases step_cases stepped with ⟨healthy, transition⟩
  have loops := listening.loops
  cases transition with
  | serverFinish code inside ended =>
      refine ⟨?_, listening.incoming, listening.recievers⟩
      cases standing : config.server with
      | lock code => trivial
      | unlock disconnect code =>
          rw [standing] at loops
          cases loops
          trivial
      | _ => simp_all [Loops, ServerControl.code]
  | serverCall code inside advanced made =>
      refine ⟨?_, listening.incoming, listening.recievers⟩
      cases standing : config.server with
      | lock code => trivial
      | unlock disconnect code =>
          rw [standing] at loops
          exact loops
      | _ => simp_all [Loops, ServerControl.code]
  | scan standing =>
      exact listening_scanNode listening (scanNode_cases ..)
  | prepend standing => simp [standing, Loops] at loops
  | free standing => simp [standing, Loops] at loops
  | recieve number instruction standing =>
      apply listening.setReciever
      rintro pending ⟨⟩
      exact unanswered
  | recieverFinish number granted code inside ended =>
      apply listening.setReciever
      have harmless := listening.recievers number
      cases standing : config.recievers number with
      | lock instruction code =>
          rw [standing] at harmless
          exact harmless
      | unlock code => exact nofun
      | _ => simp [standing, RecieverControl.code] at inside
  | recieverCall number granted code inside advanced made =>
      have after :
          Listening instr
            (config.afterCall (.reciever number) advanced) :=
        listening.of_incoming rfl rfl listening.incoming
      apply after.setReciever
      have harmless := listening.recievers number
      cases standing : config.recievers number with
      | lock instruction code =>
          rw [standing] at harmless
          exact harmless
      | unlock code => exact nofun
      | _ => simp [standing, RecieverControl.code] at inside
  | add number granted instruction standing =>
      have harmless := listening.recievers number
      rw [standing] at harmless
      have after :
          Listening instr
            { config with
              incoming :=
                wimpInstrQueueAdd config.incoming instruction granted
              arrived :=
                if granted then config.arrived ++ [instruction]
                else config.arrived } := by
        refine listening.of_incoming rfl rfl ?_
        intro node member
        simp only [wimpInstrQueueAdd] at member
        split at member
        · rcases List.mem_append.mp member with earlier | latest
          · exact listening.incoming node earlier
          · rw [List.mem_singleton] at latest
            subst latest
            exact harmless node rfl
        · exact listening.incoming node member
      apply after.setReciever
      exact fun _ member => nomatch member

theorem listening_called
    {nodes : List Bytes} (harmless : ∀ node ∈ nodes, ¬ Answers instr node) :
    Listening instr (called nodes : Config count) :=
  ⟨trivial, harmless, fun _ _ member => nomatch member⟩

theorem listening_of_unanswered
    {nodes : List Bytes} {actions : List (Action count)}
    (harmless : ∀ node ∈ nodes, ¬ Answers instr node)
    (unanswered :
      Along (step instr) (fun _ => Unanswered instr) (called nodes) actions)
    (ran : run (step instr) (called nodes) actions = some config) :
    Listening instr config :=
  run_induction_along
    (motive := fun _ config => Listening instr config)
    (listening_called harmless)
    (fun _ _ _ _ listening unanswered stepped =>
      listening_of_step listening unanswered stepped)
    unanswered ran

/--
The pairing holds in every run in which nothing ends the wait, and it is
broken in every run in which the call gets past its last unlock.
-/
theorem lockPaired_of_unanswered
    {nodes : List Bytes} {actions : List (Action count)}
    (ran : run (step instr) (called nodes) actions = some config) :
    ((∀ node ∈ nodes, ¬ Answers instr node) →
        Along (step instr) (fun _ => Unanswered instr) (called nodes)
          actions →
        LockPaired config) ∧
      (Left config.server → ¬ LockPaired config) := by
  refine ⟨fun harmless unanswered => ?_, fun left paired => ?_⟩
  · apply (lockPaired_iff ran).mpr
    have loops := (listening_of_unanswered harmless unanswered ran).loops
    intro left
    cases standing : config.server <;> simp_all [Loops, Left]
  · exact (lockPaired_iff ran).mp paired left

/-! ## Two waits -/

/-- An instruction of 14 bytes with the given name, sent by `b` to `a`. -/
def named (instr : Bytes) : Bytes := instrBytes [0x62] [0x61] instr []

/-- A receiver hands an instruction over while the server waits for `x`. -/
def passing : List (Action 1) :=
  .recieve 0 (named [0x79]) ::
    List.replicate 12 (.reciever 0 true) ++ List.replicate 12 .server

/-- An instruction of another name leaves everything paired. -/
theorem lockPaired_passing :
    ∃ config,
      run (step (.ofBytes [0x78])) (called []) passing = some config ∧
        LockPaired config := by
  rcases Option.isSome_iff_exists.mp
    (show (run (step (.ofBytes [0x78])) (called []) passing).isSome by
      decide +kernel) with ⟨config, ran⟩
  exact ⟨config, ran,
    (lockPaired_of_unanswered ran).1 nofun (by decide +kernel)⟩

/--
The awaited instruction is in the queue: the call unlocks a mutex which it
does not hold, frees one which it has left locked, and returns with other
mutexes in the queue.
-/
theorem not_lockPaired_answered :
    ∃ config : Config 0,
      run (step (.ofBytes [0x78])) (called [named [0x78]])
            (List.replicate 19 .server) = some config ∧
        config.server = .returned ∧
        config.misuses =
          [.unlock .server (.tmpqueue .data), .free (.incoming .data)] ∧
        config.incoming.handle = Mutex.tmpqueue ∧
        ¬ LockPaired config := by
  have last :
      (run (step (.ofBytes [0x78])) (called [named [0x78]] : Config 0)
            (List.replicate 19 .server)).map
          (fun config =>
            (config.server, config.misuses, config.incoming)) =
        some
          (.returned,
            [.unlock .server (.tmpqueue .data), .free (.incoming .data)],
            (called [] : Config 0).tmpqueue) := by
    decide +kernel
  rcases Option.map_eq_some_iff.mp last with ⟨config, ran, left⟩
  rcases Prod.mk.inj left with ⟨server, rest⟩
  rcases Prod.mk.inj rest with ⟨misuses, incoming⟩
  refine ⟨config, ran, server, misuses, ?_, fun paired => ?_⟩
  · rw [incoming]
    ext field
    cases field <;> rfl
  · apply paired.unlocks (.tmpqueue .data)
    simp [misuses]

end Wimp.Server.LockPairing
