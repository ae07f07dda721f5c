import Mathlib.Data.List.Infix
import Wimp.Instr.Queue

/-!
# The priority lock of a queue

Threads of high and of low priority share the three mutexes of one queue.
Each thread goes round: it calls its lock function, works in the critical
section, and calls its unlock function.  A thread of low priority first takes
`_lowpriomutex`, so that of all of them one alone competes with the threads
of high priority for `_nextmutex`.

The mutexes are taken in the order `_lowpriomutex`, `_nextmutex`,
`_datamutex`, which rules out a deadlock.  They are plain mutexes, which do
not remember who came first: a thread of low priority which comes back takes
a free `_nextmutex` in front of a waiting thread of high priority.
-/

namespace Wimp.Instr.PriorityLock

open Wimp.Lib.Mutex
open Wimp.Lib.Runs
open Wimp.Instr.Queue

/-- The two kinds of threads on a queue. -/
inductive Priority where
  | high
  | low
deriving DecidableEq, Repr

namespace Priority

/-- The lock function of a thread. -/
def lock : Priority → List (Command QueueMutex)
  | .high => wimpInstrQueueHighPrioLock
  | .low => wimpInstrQueueLowPrioLock

/-- The unlock function of a thread. -/
def unlock : Priority → List (Command QueueMutex)
  | .high => wimpInstrQueueHighPrioUnlock
  | .low => wimpInstrQueueLowPrioUnlock

/-- The mutexes which a thread holds in the critical section. -/
def inside : Priority → Finset QueueMutex
  | .high => {.data}
  | .low => {.lowprio, .data}

theorem follow_lock (priority : Priority) :
    run follow ∅ priority.lock = some priority.inside := by
  cases priority with
  | high => exact follow_highPrioLock
  | low => exact follow_lowPrioLock

theorem follow_unlock (priority : Priority) :
    run follow priority.inside priority.unlock = some ∅ := by
  cases priority with
  | high => exact follow_highPrioUnlock
  | low => exact follow_lowPrioUnlock

end Priority

/-- The rest of a lock function; the mutexes are named by their fields. -/
abbrev LockCode := Code QueueMutex QueueMutex

/-- Where a thread stands in its round. -/
inductive Control where
  | idle
  | lock (code : LockCode)
  | critical
  | unlock (code : LockCode)
deriving DecidableEq, Repr

/-- The threads and the mutexes of one queue. -/
structure Config (Thread : Type) where
  control : Thread → Control := fun _ => .idle
  holder : QueueMutex → Option Thread := fun _ => none
  /-- The threads which have taken `_nextmutex`, in order. -/
  passed : List Thread := []
  /-- The threads whose lock calls have returned, in order. -/
  entered : List Thread := []

variable {Thread : Type} [DecidableEq Thread]
variable {priority : Thread → Priority} {config next : Config Thread}
variable {thread : Thread}

/-- One thread goes on to another place. -/
def Config.setControl (config : Config Thread) (thread : Thread)
    (control : Control) : Config Thread :=
  { config with control := Function.update config.control thread control }

/-- The code takes `_nextmutex` in its next step. -/
def takesNext (code : LockCode) : Bool :=
  code.rest.head? = some (.lock .next) ∧ code.awaited.isSome

/-- One step of one thread; a thread which waits for a held mutex has none. -/
def step (priority : Thread → Priority) (config : Config Thread)
    (thread : Thread) : Option (Config Thread) :=
  match config.control thread with
  | .idle =>
      some
        (config.setControl thread
          (.lock { rest := (priority thread).lock }))
  | .lock code =>
      if code.rest = [] then
        some
          { config.setControl thread .critical with
            entered := config.entered ++ [thread] }
      else
        (code.advance id config.holder thread).map fun advanced =>
          { config.setControl thread (.lock advanced.code) with
            holder := advanced.holder
            passed :=
              if takesNext code then config.passed ++ [thread]
              else config.passed }
  | .critical =>
      some
        (config.setControl thread
          (.unlock { rest := (priority thread).unlock }))
  | .unlock code =>
      if code.rest = [] then
        some (config.setControl thread .idle)
      else
        (code.advance id config.holder thread).map fun advanced =>
          { config.setControl thread (.unlock advanced.code) with
            holder := advanced.holder }

/-! ## What is asked of the lock -/

/-- The mutex a thread waits for. -/
def Control.waits : Control → Option QueueMutex
  | .lock code => code.awaited
  | .unlock code => code.awaited
  | _ => none

/-- The thread waits for a mutex which is held. -/
def Blocked (config : Config Thread) (thread : Thread) : Prop :=
  ∃ mutex, (config.control thread).waits = some mutex ∧
    config.holder mutex ≠ none

/-- The thread holds `_nextmutex` or `_datamutex`, or waits for one. -/
def Engaged (config : Config Thread) (thread : Thread) : Prop :=
  ∃ mutex ∈ [QueueMutex.data, .next],
    config.holder mutex = some thread ∨
      (config.control thread).waits = some mutex

/--
One thread at most is in the critical section, one thread of low priority at
most is engaged with the inner mutexes, and whenever a thread is blocked,
some thread which has entered its round is not and has a step.
-/
structure Safe (priority : Thread → Priority) (config : Config Thread) :
    Prop where
  exclusive :
    ∀ first second, config.control first = .critical →
      config.control second = .critical → first = second
  single :
    ∀ first second, priority first = .low → priority second = .low →
      Engaged config first → Engaged config second → first = second
  live :
    ∀ thread, Blocked config thread →
      ∃ other, config.control other ≠ .idle ∧ ¬ Blocked config other ∧
        (step priority config other).isSome

/-- The threads of low priority among some threads. -/
def lows (priority : Thread → Priority) (threads : List Thread) :
    List Thread :=
  threads.filter (priority · = .low)

/-! ## What a step can do -/

/-- The steps of a thread, by its place in its round. -/
inductive Transition (priority : Thread → Priority)
    (config : Config Thread) (thread : Thread) : Config Thread → Prop where
  | start (control : config.control thread = .idle) :
      Transition priority config thread
        (config.setControl thread
          (.lock { rest := (priority thread).lock }))
  | lockCall (code : LockCode)
      (control : config.control thread = .lock code)
      (advanced : Advance QueueMutex QueueMutex Thread)
      (made : code.advance id config.holder thread = some advanced) :
      Transition priority config thread
        { config.setControl thread (.lock advanced.code) with
          holder := advanced.holder
          passed :=
            if takesNext code then config.passed ++ [thread]
            else config.passed }
  | enter (code : LockCode)
      (control : config.control thread = .lock code)
      (ended : code.rest = []) :
      Transition priority config thread
        { config.setControl thread .critical with
          entered := config.entered ++ [thread] }
  | leave (control : config.control thread = .critical) :
      Transition priority config thread
        (config.setControl thread
          (.unlock { rest := (priority thread).unlock }))
  | unlockCall (code : LockCode)
      (control : config.control thread = .unlock code)
      (advanced : Advance QueueMutex QueueMutex Thread)
      (made : code.advance id config.holder thread = some advanced) :
      Transition priority config thread
        { config.setControl thread (.unlock advanced.code) with
          holder := advanced.holder }
  | stop (code : LockCode)
      (control : config.control thread = .unlock code)
      (ended : code.rest = []) :
      Transition priority config thread (config.setControl thread .idle)

theorem step_cases (stepped : step priority config thread = some next) :
    Transition priority config thread next := by
  unfold step at stepped
  split at stepped
  · rename_i control
    cases stepped
    exact .start control
  · rename_i code control
    split at stepped
    · rename_i ended
      cases stepped
      exact .enter code control ended
    · rcases Option.map_eq_some_iff.mp stepped with ⟨advanced, made, rfl⟩
      exact .lockCall code control advanced made
  · rename_i control
    cases stepped
    exact .leave control
  · rename_i code control
    split at stepped
    · rename_i ended
      cases stepped
      exact .stop code control ended
    · rcases Option.map_eq_some_iff.mp stepped with ⟨advanced, made, rfl⟩
      exact .unlockCall code control advanced made

/-! ## Where the threads stand -/

/-- The order in which the mutexes are taken. -/
def rank : QueueMutex → Nat
  | .lowprio => 0
  | .next => 1
  | .data => 2

/-- A thread holds what its place in its round says. -/
def Stands (priority : Priority) (held : Finset QueueMutex) :
    Control → Prop
  | .idle => held = ∅
  | .lock code =>
      code.rest <:+ priority.lock ∧
        Disciplined id held code priority.inside
  | .critical => held = priority.inside
  | .unlock code =>
      code.rest <:+ priority.unlock ∧ Disciplined id held code ∅

/-- Lock functions take the mutexes in their order. -/
theorem rank_lt_of_lock (priority : Priority) :
    ∀ rest ∈ priority.lock.tails,
      ∀ slot ∈ [QueueMutex.data, .next, .lowprio],
        rest.head? = some (.lock slot) →
          ∀ other ∈ heldBefore priority.inside rest,
            rank other < rank slot := by
  cases priority <;> decide

/-- Unlock functions take nothing. -/
theorem head?_unlock_ne (priority : Priority) :
    ∀ rest ∈ priority.unlock.tails,
      ∀ slot ∈ [QueueMutex.data, .next, .lowprio],
        rest.head? ≠ some (.lock slot) := by
  cases priority <;> decide

/-- The inner mutexes are taken behind `_lowpriomutex`. -/
theorem lowprio_mem_of_lock :
    ∀ rest ∈ Priority.low.lock.tails,
      rest.length ≤ 3 →
        QueueMutex.lowprio ∈ heldBefore Priority.low.inside rest := by
  decide

/-- In front of `_lowpriomutex` a thread has taken nothing else. -/
theorem length_le_of_lock :
    ∀ rest ∈ Priority.low.lock.tails,
      ∀ mutex ∈ [QueueMutex.data, .next],
        mutex ∈ heldBefore Priority.low.inside rest ∨
            rest.head? = some (.lock mutex) →
          rest.length ≤ 3 := by
  decide

/-- The inner mutexes are given back in front of `_lowpriomutex`. -/
theorem lowprio_mem_of_unlock :
    ∀ rest ∈ Priority.low.unlock.tails,
      ∀ mutex ∈ [QueueMutex.data, .next],
        mutex ∈ heldBefore ∅ rest →
          QueueMutex.lowprio ∈ heldBefore ∅ rest := by
  decide

/-- `_nextmutex` is taken with three calls left. -/
theorem length_of_next (priority : Priority) :
    ∀ rest ∈ priority.lock.tails,
      rest.head? = some (.lock .next) → rest.length = 3 := by
  cases priority <;> decide

/-- Only the call on `_nextmutex` has three calls left. -/
theorem head?_of_length (priority : Priority) :
    ∀ rest ∈ priority.lock.tails,
      rest.length = 3 → rest.head? = some (.lock .next) := by
  cases priority <;> decide

variable {held : Finset QueueMutex} {control : Control}

/-- What a thread waits for is the mutex of its next call. -/
theorem head?_of_awaited
    {code : LockCode} {final : Finset QueueMutex}
    (disciplined : Disciplined id held code final) {mutex : QueueMutex}
    (awaited : code.awaited = some mutex) :
    code.rest.head? = some (.lock mutex) := by
  rcases disciplined.awaits mutex awaited with ⟨slot, rest, calls, rfl⟩
  rw [calls]
  rfl

theorem mem_mutexes (mutex : QueueMutex) :
    mutex ∈ [QueueMutex.data, .next, .lowprio] := by
  cases mutex <;> decide

/-- A thread waits for a mutex above those which it holds. -/
theorem Stands.rank_lt
    {priority : Priority} (stands : Stands priority held control)
    {mutex : QueueMutex} (waiting : control.waits = some mutex) :
    ∀ other ∈ held, rank other < rank mutex := by
  cases control with
  | idle => cases waiting
  | critical => cases waiting
  | lock code =>
      rcases stands with ⟨suffix, disciplined⟩
      have head := head?_of_awaited disciplined waiting
      rw [held_eq_of_follows disciplined.follows]
      exact rank_lt_of_lock priority code.rest
        ((List.mem_tails _ _).mpr suffix) mutex (mem_mutexes mutex) head
  | unlock code =>
      rcases stands with ⟨suffix, disciplined⟩
      have head := head?_of_awaited disciplined waiting
      exact absurd head
        (head?_unlock_ne priority code.rest
          ((List.mem_tails _ _).mpr suffix) mutex (mem_mutexes mutex))

/-- A thread of low priority which is engaged holds `_lowpriomutex`. -/
theorem Stands.lowprio_mem
    (stands : Stands .low held control) {mutex : QueueMutex}
    (inner : mutex ∈ [QueueMutex.data, .next])
    (engaged : mutex ∈ held ∨ control.waits = some mutex) :
    QueueMutex.lowprio ∈ held := by
  cases control with
  | idle =>
      rcases engaged with owned | waiting
      · rw [show held = ∅ from stands] at owned
        cases owned
      · cases waiting
  | critical =>
      rw [show held = {.lowprio, .data} from stands]
      decide
  | lock code =>
      rcases stands with ⟨suffix, disciplined⟩
      have place := (List.mem_tails _ _).mpr suffix
      rw [held_eq_of_follows disciplined.follows] at engaged ⊢
      apply lowprio_mem_of_lock code.rest place
      apply length_le_of_lock code.rest place mutex inner
      exact engaged.imp_right (head?_of_awaited disciplined)
  | unlock code =>
      rcases stands with ⟨suffix, disciplined⟩
      have place := (List.mem_tails _ _).mpr suffix
      rcases engaged with owned | waiting
      · rw [held_eq_of_follows disciplined.follows] at owned ⊢
        exact lowprio_mem_of_unlock code.rest place mutex inner owned
      · have head := head?_of_awaited disciplined waiting
        exact absurd head
          (head?_unlock_ne .low code.rest place mutex (mem_mutexes mutex))

/-! ## Places and mutexes -/

/-- The mutexes and the places of all threads agree. -/
structure Placed (priority : Thread → Priority) (config : Config Thread)
    (held : Thread → Finset QueueMutex) : Prop where
  agrees : Agrees id config.holder held
  stands :
    ∀ thread,
      Stands (priority thread) (held thread) (config.control thread)

variable {holds : Thread → Finset QueueMutex}

/-- A thread goes on to a place which fits what it holds. -/
theorem Placed.setControl
    (placed : Placed priority config holds) {control : Control}
    (controls :
      next.control = Function.update config.control thread control)
    (holder : next.holder = config.holder)
    (stands : Stands (priority thread) (holds thread) control) :
    Placed priority next holds := by
  constructor
  case agrees =>
    rw [holder]
    exact placed.agrees
  case stands =>
    intro other
    rw [controls]
    by_cases same : other = thread
    · subst same
      rw [Function.update_self]
      exact stands
    · rw [Function.update_of_ne same]
      exact placed.stands other

/-- A call on a mutex moves the thread which makes it. -/
theorem Placed.call
    (placed : Placed priority config holds) {control : Control}
    {slots : Finset QueueMutex}
    (controls :
      next.control = Function.update config.control thread control)
    (agrees :
      Agrees id next.holder (Function.update holds thread slots))
    (stands : Stands (priority thread) slots control) :
    ∃ holds, Placed priority next holds := by
  refine ⟨Function.update holds thread slots, agrees, ?_⟩
  intro other
  rw [controls]
  by_cases same : other = thread
  · subst same
    rw [Function.update_self, Function.update_self]
    exact stands
  · rw [Function.update_of_ne same, Function.update_of_ne same]
    exact placed.stands other

theorem placed_of_transition
    (placed : Placed priority config holds)
    (transition : Transition priority config thread next) :
    ∃ holds, Placed priority next holds := by
  have stands := placed.stands thread
  cases transition with
  | start control =>
      rw [control] at stands
      refine ⟨holds, placed.setControl rfl rfl ⟨List.suffix_refl _, ?_⟩⟩
      apply Disciplined.enter
      rw [show holds thread = ∅ from stands]
      exact (priority thread).follow_lock
  | lockCall code control advanced made =>
      rw [control] at stands
      rcases stands with ⟨suffix, disciplined⟩
      rcases placed.agrees.advance Function.injective_id disciplined made
        with ⟨-, slots, agrees, following⟩
      exact placed.call rfl agrees
        ⟨(suffix_of_advance made).trans suffix, following⟩
  | enter code control ended =>
      rw [control] at stands
      exact ⟨holds, placed.setControl rfl rfl
        (stands.2.final_eq ended)⟩
  | leave control =>
      rw [control] at stands
      refine ⟨holds, placed.setControl rfl rfl ⟨List.suffix_refl _, ?_⟩⟩
      apply Disciplined.enter
      rw [show holds thread = (priority thread).inside from stands]
      exact (priority thread).follow_unlock
  | unlockCall code control advanced made =>
      rw [control] at stands
      rcases stands with ⟨suffix, disciplined⟩
      rcases placed.agrees.advance Function.injective_id disciplined made
        with ⟨-, slots, agrees, following⟩
      exact placed.call rfl agrees
        ⟨(suffix_of_advance made).trans suffix, following⟩
  | stop code control ended =>
      rw [control] at stands
      exact ⟨holds, placed.setControl rfl rfl
        (stands.2.final_eq ended)⟩

omit [DecidableEq Thread] in
/-- A thread in the critical section holds the data mutex. -/
theorem Placed.data_mem
    (placed : Placed priority config holds)
    (critical : config.control thread = .critical) :
    QueueMutex.data ∈ holds thread := by
  have stands := placed.stands thread
  rw [critical] at stands
  rw [show holds thread = (priority thread).inside from stands]
  cases priority thread <;> decide

omit [DecidableEq Thread] in
/-- An engaged thread of low priority holds `_lowpriomutex`. -/
theorem Placed.lowprio_mem
    (placed : Placed priority config holds)
    (low : priority thread = .low) (engaged : Engaged config thread) :
    QueueMutex.lowprio ∈ holds thread := by
  have stands := placed.stands thread
  rw [low] at stands
  rcases engaged with ⟨mutex, inner, holding | waiting⟩
  · exact stands.lowprio_mem inner
      (Or.inl ((placed.agrees thread mutex).mp holding))
  · exact stands.lowprio_mem inner (Or.inr waiting)

/-- A thread which is not blocked has a step. -/
theorem step_isSome
    (running : ¬ Blocked config thread) :
    (step priority config thread).isSome := by
  have free :
      ∀ mutex ∈ (config.control thread).waits,
        config.holder mutex = none := by
    intro mutex waiting
    by_contra taken
    exact running ⟨mutex, waiting, taken⟩
  unfold step
  split
  · rfl
  · rename_i code control
    rw [control] at free
    split
    · rfl
    · rename_i more
      rw [Option.isSome_map]
      exact advance_isSome more free
  · rfl
  · rename_i code control
    rw [control] at free
    split
    · rfl
    · rename_i more
      rw [Option.isSome_map]
      exact advance_isSome more free

omit [DecidableEq Thread] in
/-- A thread which holds a mutex is inside its round. -/
theorem Placed.not_idle
    (placed : Placed priority config holds)
    (holding : (holds thread).Nonempty) :
    config.control thread ≠ .idle := by
  intro idle
  have stands := placed.stands thread
  rw [idle] at stands
  rw [show holds thread = ∅ from stands] at holding
  exact Finset.not_nonempty_empty holding

theorem rank_le (mutex : QueueMutex) : rank mutex ≤ 2 := by
  cases mutex <;> decide

/-- What the places of the threads say about the lock. -/
theorem Placed.safe
    (placed : Placed priority config holds) : Safe priority config := by
  constructor
  case exclusive =>
    intro first second left right
    exact placed.agrees.unique (placed.data_mem left)
      (placed.data_mem right)
  case single =>
    intro first second left right one other
    exact placed.agrees.unique (placed.lowprio_mem left one)
      (placed.lowprio_mem right other)
  case live =>
    rintro thread ⟨mutex, waiting, taken⟩
    rcases placed.agrees.exists_running
        (fun thread mutex waiting =>
          (placed.stands thread).rank_lt waiting)
        rank_le waiting taken with
      ⟨owner, holding, running⟩
    have free : ¬ Blocked config owner := by
      rintro ⟨wanted, next, blocked⟩
      exact blocked (running wanted next)
    exact ⟨owner, placed.not_idle holding, free, step_isSome free⟩

/-! ## Who enters in front of whom -/

/-- The thread has taken `_nextmutex`, and its lock call has not returned. -/
def Between (config : Config Thread) (thread : Thread) : Prop :=
  ∃ code, config.control thread = .lock code ∧ code.rest.length ≤ 2

/--
The threads of low priority enter in the order in which they have taken
`_nextmutex`, and one of them at most has not entered yet.
-/
inductive Ordered (priority : Thread → Priority)
    (config : Config Thread) : Prop where
  | level
      (same : lows priority config.passed = lows priority config.entered)
      (nobody :
        ∀ thread, priority thread = .low → ¬ Between config thread)
  | ahead (thread : Thread) (low : priority thread = .low)
      (between : Between config thread)
      (last :
        lows priority config.passed =
          lows priority config.entered ++ [thread])

omit [DecidableEq Thread] in
/-- One thread of low priority at most is between. -/
theorem Placed.between_unique
    (placed : Placed priority config holds) {first second : Thread}
    (left : priority first = .low) (right : priority second = .low)
    (one : ∃ code, config.control first = .lock code ∧
      code.rest.length ≤ 3)
    (other : ∃ code, config.control second = .lock code ∧
      code.rest.length ≤ 3) : first = second := by
  have holding (thread : Thread) (low : priority thread = .low)
      (inside : ∃ code, config.control thread = .lock code ∧
        code.rest.length ≤ 3) : QueueMutex.lowprio ∈ holds thread := by
    rcases inside with ⟨code, control, short⟩
    have stands := placed.stands thread
    rw [low, control] at stands
    rcases stands with ⟨suffix, disciplined⟩
    rw [held_eq_of_follows disciplined.follows]
    exact lowprio_mem_of_lock code.rest
      ((List.mem_tails _ _).mpr suffix) short
  exact placed.agrees.unique (holding first left one)
    (holding second right other)

omit [DecidableEq Thread] in
theorem Between.within {config : Config Thread}
    (between : Between config thread) :
    ∃ code, config.control thread = .lock code ∧
      code.rest.length ≤ 3 := by
  rcases between with ⟨code, control, short⟩
  exact ⟨code, control, by omega⟩

/-- A step changes the place of its own thread only. -/
theorem between_of_ne {other : Thread} (apart : other ≠ thread)
    {control : Control}
    (controls :
      next.control = Function.update config.control thread control) :
    Between next other ↔ Between config other := by
  unfold Between
  rw [controls, Function.update_of_ne apart]

theorem between_self {control : Control}
    (controls :
      next.control = Function.update config.control thread control) :
    Between next thread ↔
      ∃ code, control = .lock code ∧ code.rest.length ≤ 2 := by
  unfold Between
  rw [controls, Function.update_self]

omit [DecidableEq Thread] in
/-- A step which neither takes `_nextmutex` nor enters. -/
theorem Ordered.of_same
    (ordered : Ordered priority config)
    (passed :
      lows priority next.passed = lows priority config.passed)
    (entered :
      lows priority next.entered = lows priority config.entered)
    (between :
      ∀ thread, priority thread = .low →
        (Between next thread ↔ Between config thread)) :
    Ordered priority next := by
  cases ordered with
  | level same nobody =>
      apply Ordered.level
      · rw [passed, entered, same]
      · intro thread low
        rw [between thread low]
        exact nobody thread low
  | ahead thread low here last =>
      apply Ordered.ahead thread low
      · exact (between thread low).mpr here
      · rw [passed, entered, last]

omit [DecidableEq Thread] in
theorem lows_concat_of_high {thread : Thread}
    (high : priority thread ≠ .low) (threads : List Thread) :
    lows priority (threads ++ [thread]) = lows priority threads := by
  simp [lows, high]

omit [DecidableEq Thread] in
theorem lows_concat_of_low {thread : Thread}
    (low : priority thread = .low) (threads : List Thread) :
    lows priority (threads ++ [thread]) =
      lows priority threads ++ [thread] := by
  simp [lows, low]

/-- A step of a thread of high priority leaves the others as they are. -/
theorem Ordered.of_high
    (ordered : Ordered priority config) {control : Control}
    (high : priority thread ≠ .low)
    (controls :
      next.control = Function.update config.control thread control)
    (passed :
      next.passed = config.passed ∨
        next.passed = config.passed ++ [thread])
    (entered :
      next.entered = config.entered ∨
        next.entered = config.entered ++ [thread]) :
    Ordered priority next := by
  apply ordered.of_same
  · rcases passed with same | more
    · rw [same]
    · rw [more, lows_concat_of_high high]
  · rcases entered with same | more
    · rw [same]
    · rw [more, lows_concat_of_high high]
  · intro other low
    apply between_of_ne _ controls
    rintro rfl
    exact high low

/-- A step which leaves its thread on the same side of `_nextmutex`. -/
theorem Ordered.of_beside
    (ordered : Ordered priority config) {control : Control}
    (controls :
      next.control = Function.update config.control thread control)
    (passed : next.passed = config.passed)
    (entered : next.entered = config.entered)
    (side :
      (∃ code, control = .lock code ∧ code.rest.length ≤ 2) ↔
        Between config thread) :
    Ordered priority next := by
  apply ordered.of_same (by rw [passed]) (by rw [entered])
  intro other low
  by_cases same : other = thread
  · subst same
    rw [between_self controls, side]
  · exact between_of_ne same controls

omit [DecidableEq Thread] in
theorem not_between
    (other : ∀ code, config.control thread ≠ .lock code) :
    ¬ Between config thread := by
  rintro ⟨code, control, -⟩
  exact other code control

/-- A call inside a lock function takes `_nextmutex` or stays beside it. -/
theorem ordered_of_lockCall
    (placed : Placed priority config holds)
    (ordered : Ordered priority config)
    (low : priority thread = .low) {code : LockCode}
    (control : config.control thread = .lock code)
    {advanced : Advance QueueMutex QueueMutex Thread}
    (made : code.advance id config.holder thread = some advanced)
    (controls :
      next.control =
        Function.update config.control thread (.lock advanced.code))
    (passed :
      next.passed =
        if takesNext code then config.passed ++ [thread]
        else config.passed)
    (entered : next.entered = config.entered) :
    Ordered priority next := by
  have stands := placed.stands thread
  rw [control] at stands
  have place := (List.mem_tails _ _).mpr stands.1
  by_cases takes : takesNext code = true
  · rw [if_pos takes] at passed
    have taking :
        code.rest.head? = some (.lock .next) ∧
          code.awaited.isSome = true := by
      simpa [takesNext] using takes
    have three := length_of_next _ code.rest place taking.1
    rcases rest_of_advance made with ⟨nothing, -⟩ | ⟨command, calls, -⟩
    · rw [nothing] at taking
      cases taking.2
    · have two : advanced.code.rest.length = 2 := by
        rw [calls, List.length_cons] at three
        omega
      cases ordered with
      | level same nobody =>
          apply Ordered.ahead thread low
          · rw [between_self controls]
            exact ⟨advanced.code, rfl, two.le⟩
          · rw [passed, entered, lows_concat_of_low low, same]
      | ahead first left between last =>
          -- two threads would hold `_lowpriomutex`
          have same :=
            placed.between_unique left low between.within
              ⟨code, control, three.le⟩
          subst same
          rcases between with ⟨found, there, short⟩
          rw [control] at there
          cases there
          omega
  · rw [if_neg takes] at passed
    apply ordered.of_beside controls passed entered
    have here :
        Between config thread ↔ code.rest.length ≤ 2 := by
      constructor
      · rintro ⟨found, there, short⟩
        rw [control] at there
        cases there
        exact short
      · exact fun short => ⟨code, control, short⟩
    rw [here]
    have beside :
        advanced.code.rest.length ≤ 2 ↔ code.rest.length ≤ 2 := by
      rcases rest_of_advance made with
        ⟨-, same⟩ | ⟨command, calls, awaited⟩
      · rw [same]
      · have other : code.rest.length ≠ 3 := by
          intro three
          have head := head?_of_length _ code.rest place three
          apply takes
          rw [calls, List.head?_cons, Option.some.injEq] at head
          simp [takesNext, calls, head, awaited _ head]
        rw [calls, List.length_cons] at other ⊢
        omega
    rw [← beside]
    constructor
    · rintro ⟨found, same, short⟩
      cases same
      exact short
    · exact fun short => ⟨advanced.code, rfl, short⟩

/-- A lock call which returns enters behind those which passed before. -/
theorem ordered_of_enter
    (placed : Placed priority config holds)
    (ordered : Ordered priority config)
    (low : priority thread = .low) {code : LockCode}
    (control : config.control thread = .lock code)
    (ended : code.rest = [])
    (controls :
      next.control = Function.update config.control thread .critical)
    (passed : next.passed = config.passed)
    (entered : next.entered = config.entered ++ [thread]) :
    Ordered priority next := by
  have here : Between config thread :=
    ⟨code, control, by rw [ended]; exact Nat.zero_le 2⟩
  cases ordered with
  | level same nobody => exact absurd here (nobody thread low)
  | ahead first left between last =>
      have same :=
        placed.between_unique left low between.within here.within
      subst same
      apply Ordered.level
      · rw [passed, entered, lows_concat_of_low low, last]
      · intro other right there
        by_cases same : other = first
        · subst same
          rw [between_self controls] at there
          rcases there with ⟨_, impossible, -⟩
          cases impossible
        · rw [between_of_ne same controls] at there
          exact same
            (placed.between_unique right left there.within between.within)

theorem ordered_of_transition
    (placed : Placed priority config holds)
    (ordered : Ordered priority config)
    (transition : Transition priority config thread next) :
    Ordered priority next := by
  by_cases low : priority thread = .low
  · cases transition with
    | start control =>
        refine ordered.of_beside rfl rfl rfl ?_
        refine iff_of_false ?_ (not_between ?_)
        · rintro ⟨code, same, short⟩
          cases same
          rw [low] at short
          exact absurd short (by decide)
        · simp [control]
    | lockCall code control advanced made =>
        exact ordered_of_lockCall placed ordered low control made rfl rfl
          rfl
    | enter code control ended =>
        exact ordered_of_enter placed ordered low control ended rfl rfl rfl
    | leave control =>
        refine ordered.of_beside rfl rfl rfl (iff_of_false ?_ ?_)
        · rintro ⟨code, impossible, -⟩
          cases impossible
        · exact not_between (by simp [control])
    | unlockCall code control advanced made =>
        refine ordered.of_beside rfl rfl rfl (iff_of_false ?_ ?_)
        · rintro ⟨code, impossible, -⟩
          cases impossible
        · exact not_between (by simp [control])
    | stop code control ended =>
        refine ordered.of_beside rfl rfl rfl (iff_of_false ?_ ?_)
        · rintro ⟨code, impossible, -⟩
          cases impossible
        · exact not_between (by simp [control])
  · cases transition with
    | start control => exact ordered.of_high low rfl (Or.inl rfl) (Or.inl rfl)
    | lockCall code control advanced made =>
        refine ordered.of_high low rfl ?_ (Or.inl rfl)
        dsimp only
        split
        · exact Or.inr rfl
        · exact Or.inl rfl
    | enter code control ended =>
        exact ordered.of_high low rfl (Or.inl rfl) (Or.inr rfl)
    | leave control => exact ordered.of_high low rfl (Or.inl rfl) (Or.inl rfl)
    | unlockCall code control advanced made =>
        exact ordered.of_high low rfl (Or.inl rfl) (Or.inl rfl)
    | stop code control ended =>
        exact ordered.of_high low rfl (Or.inl rfl) (Or.inl rfl)

/-! ## Every run -/

/-- What every run keeps. -/
structure Invariant (priority : Thread → Priority)
    (config : Config Thread) : Prop where
  placed : ∃ holds, Placed priority config holds
  ordered : Ordered priority config

theorem invariant_of_step
    (invariant : Invariant priority config)
    (stepped : step priority config thread = some next) :
    Invariant priority next := by
  rcases invariant with ⟨⟨holds, placed⟩, ordered⟩
  have transition := step_cases stepped
  exact
    ⟨placed_of_transition placed transition,
      ordered_of_transition placed ordered transition⟩

omit [DecidableEq Thread] in
theorem invariant_initial :
    Invariant priority ({} : Config Thread) := by
  constructor
  case placed =>
    refine ⟨fun _ => ∅, ?_, fun _ => rfl⟩
    intro thread slot
    simp
  case ordered =>
    apply Ordered.level rfl
    intro thread _
    exact not_between (by simp)

theorem invariant_of_run
    {threads : List Thread}
    (ran : run (step priority) {} threads = some config) :
    Invariant priority config :=
  run_invariant (fun _ _ _ holds stepped => invariant_of_step holds stepped)
    invariant_initial ran

/-- Who has passed stays on record. -/
theorem passed_prefix
    {threads : List Thread}
    (ran : run (step priority) config threads = some next) :
    config.passed <+: next.passed := by
  have grows :
      ∀ middle thread following, config.passed <+: middle.passed →
        step priority middle thread = some following →
          config.passed <+: following.passed := by
    intro middle thread following earlier stepped
    refine earlier.trans ?_
    cases step_cases stepped with
    | lockCall code control advanced made =>
        dsimp only
        split
        · exact List.prefix_append _ _
        · exact List.prefix_rfl
    | _ => exact List.prefix_rfl
  exact run_invariant grows List.prefix_rfl ran

/--
Of the threads of low priority which enter between two states, all but the
first at most have taken `_nextmutex` between them.
-/
def BoundedOvertaking (priority : Thread → Priority)
    (start finish : Config Thread) : Prop :=
  ∃ waiting taken,
    waiting.length ≤ 1 ∧ finish.passed = start.passed ++ taken ∧
      lows priority finish.entered <+:
        lows priority start.entered ++ waiting ++ lows priority taken

omit [DecidableEq Thread] in
/-- At most one thread of low priority has passed and not entered. -/
theorem Ordered.exists_waiting (ordered : Ordered priority config) :
    ∃ waiting, waiting.length ≤ 1 ∧
      lows priority config.passed =
        lows priority config.entered ++ waiting := by
  cases ordered with
  | level same nobody =>
      exact ⟨[], Nat.zero_le 1, by rw [same, List.append_nil]⟩
  | ahead thread low between last =>
      exact ⟨[thread], Nat.le_refl 1, last⟩

/--
In every state which any interleaving reaches, the critical section is
exclusive, one thread of low priority at most is engaged with the inner
mutexes, and there is no deadlock.  On every way further on, the threads of
low priority which enter, all but the first at most, have to take
`_nextmutex` themselves.
-/
theorem safe_of_run
    {threads : List Thread}
    (ran : run (step priority) {} threads = some config) :
    Safe priority config ∧
      ∀ more finish, run (step priority) config more = some finish →
        BoundedOvertaking priority config finish := by
  rcases invariant_of_run ran with ⟨⟨holds, placed⟩, ordered⟩
  refine ⟨placed.safe, fun more finish further => ?_⟩
  have later : run (step priority) {} (threads ++ more) = some finish :=
    run_append_eq_some_iff.mpr ⟨config, ran, further⟩
  rcases ordered.exists_waiting with ⟨waiting, one, behind⟩
  rcases (invariant_of_run later).ordered.exists_waiting with
    ⟨rest, -, entered⟩
  rcases passed_prefix further with ⟨taken, grown⟩
  refine ⟨waiting, taken, one, grown.symm, rest, ?_⟩
  rw [← entered, ← grown, ← behind]
  exact List.filter_append ..

/-! ## Two overtakers -/

/-- One thread of high priority and two of low priority. -/
def threePriorities (thread : Fin 3) : Priority :=
  if thread = 0 then .high else .low

/-- The first low thread takes `_nextmutex`, and the high one waits for it. -/
def untilWaiting : List (Fin 3) :=
  List.replicate 5 1 ++ List.replicate 2 0

/-- The first low thread goes its round, and the second one enters. -/
def whileWaiting : List (Fin 3) :=
  List.replicate 8 1 ++ List.replicate 9 2

theorem safe_untilWaiting :
    ∃ config,
      run (step threePriorities) {} untilWaiting = some config ∧
        Safe threePriorities config ∧
          ∀ more finish,
            run (step threePriorities) config more = some finish →
              BoundedOvertaking threePriorities config finish := by
  rcases Option.isSome_iff_exists.mp
    (show (run (step threePriorities) {} untilWaiting).isSome by
      decide +kernel) with ⟨config, ran⟩
  exact ⟨config, ran, safe_of_run ran⟩

/--
Two threads of low priority enter one after the other, while the thread of
high priority waits for `_nextmutex` all the time.
-/
theorem overtaken_twice :
    ∃ start finish,
      run (step threePriorities) {} untilWaiting = some start ∧
        run (step threePriorities) start whileWaiting = some finish ∧
        0 ∉ whileWaiting ∧
        (start.control 0).waits = some .next ∧
        (finish.control 0).waits = some .next ∧
        start.entered = [] ∧ finish.entered = [1, 2] := by
  have before :
      (run (step threePriorities) {} untilWaiting).map
          (fun config => ((config.control 0).waits, config.entered)) =
        some (some .next, []) := by
    decide +kernel
  have after :
      (run (step threePriorities) {} (untilWaiting ++ whileWaiting)).map
          (fun config => ((config.control 0).waits, config.entered)) =
        some (some .next, [1, 2]) := by
    decide +kernel
  rcases Option.map_eq_some_iff.mp before with ⟨start, ran, standing⟩
  rcases Option.map_eq_some_iff.mp after with ⟨finish, whole, left⟩
  rcases run_append_eq_some_iff.mp whole with ⟨middle, same, further⟩
  rw [ran] at same
  cases same
  rcases Prod.mk.inj standing with ⟨waiting, nobody⟩
  rcases Prod.mk.inj left with ⟨still, both⟩
  exact ⟨start, finish, ran, further, by decide, waiting, still, nobody,
    both⟩

end Wimp.Instr.PriorityLock
