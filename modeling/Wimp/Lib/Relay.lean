import Mathlib.Data.List.Infix
import Mathlib.Data.List.Nodup
import Mathlib.Data.Nat.Find
import Mathlib.Data.Nat.Init
import Mathlib.Logic.Function.Basic

/-!
# Relays of queues

A relay is a collection of stages, each a first-in first-out queue of
messages.  Messages enter from outside at the back of a stage; the front
message of a stage passes to the back of the stage to which it leads next,
and stays where it is when it leads nowhere.  The relay remembers what has
ever arrived at each stage.

A class of messages which all follow one path of stages without repetition
keeps its order all along the path.  When moreover every stage of the path is
served again and again, each message of the class reaches the end of the
path.
-/

namespace Wimp.Lib.Relay

universe u v

/-- The queues of a relay and what has happened to them. -/
structure Queues (Stage : Type u) (Message : Type v) where
  queue : Stage → List Message
  /-- Everything that has ever been put into the stage. -/
  history : Stage → List Message
  /-- Everything that has entered the stage from outside. -/
  entered : Stage → List Message

/-- What happens to a relay in one step. -/
inductive Event (Stage : Type u) (Message : Type v) where
  | idle
  | enter (stage : Stage) (message : Message)
  | pass (stage : Stage)
deriving DecidableEq, Repr

variable {Stage : Type u} {Message : Type v}
variable {onward : Stage → Message → Option Stage}
variable {relay : Queues Stage Message} {member : Message → Bool}
variable {path : List Stage}

/-- A relay in which nothing has happened. -/
def Queues.empty : Queues Stage Message :=
  { queue := fun _ => [], history := fun _ => [], entered := fun _ => [] }

/-! ## Lines of stages -/

/-- Every message of the class follows the path, up to its end. -/
structure Line (onward : Stage → Message → Option Stage)
    (member : Message → Bool) (path : List Stage) : Prop where
  nodup : path.Nodup
  onward :
    ∀ index stage, path[index]? = some stage →
      ∀ message, member message = true →
        onward stage message = path[index + 1]?

/-- The messages of the class which have arrived at a stage. -/
def arrived (member : Message → Bool) (relay : Queues Stage Message) :
    Option Stage → List Message
  | none => []
  | some stage => (relay.history stage).filter member

/-- The messages of the class which wait at a stage. -/
def waiting (member : Message → Bool) (relay : Queues Stage Message)
    (stage : Stage) : List Message :=
  (relay.queue stage).filter member

/-- The messages of the class which have entered at a stage. -/
def entering (member : Message → Bool) (relay : Queues Stage Message) :
    Option Stage → List Message
  | none => []
  | some stage => (relay.entered stage).filter member

/-- The messages which enter from outside enter at the head of the path. -/
def Enters (member : Message → Bool) (path : List Stage) :
    Event Stage Message → Prop
  | .enter stage message => member message = true → path[0]? = some stage
  | _ => True

/-- The class is on its path only, and nothing of it is lost on the way. -/
structure Follows (member : Message → Bool) (path : List Stage)
    (relay : Queues Stage Message) : Prop where
  outside :
    ∀ stage ∉ path,
      arrived member relay (some stage) = [] ∧
        waiting member relay stage = []
  entry : arrived member relay path[0]? = entering member relay path[0]?
  conserved :
    ∀ index stage, path[index]? = some stage →
      arrived member relay (some stage) =
        arrived member relay path[index + 1]? ++
          waiting member relay stage

theorem line_nil : Line onward member [] where
  nodup := List.nodup_nil
  onward index stage here := by
    rw [List.getElem?_nil] at here
    cases here

/-- A stage in front of a path, which leads to its first stage. -/
theorem Line.cons
    (isLine : Line onward member path) {stage : Stage}
    (fresh : stage ∉ path)
    (leads :
      ∀ message, member message = true →
        onward stage message = path[0]?) :
    Line onward member (stage :: path) where
  nodup := List.nodup_cons.mpr ⟨fresh, isLine.nodup⟩
  onward index other here message belongs := by
    cases index with
    | zero =>
        rw [List.getElem?_cons_zero, Option.some.injEq] at here
        rw [← here, List.getElem?_cons_succ]
        exact leads message belongs
    | succ index =>
        rw [List.getElem?_cons_succ] at here ⊢
        exact isLine.onward index other here message belongs

/-- A stage occurs once in a path. -/
theorem Line.index_eq
    (isLine : Line onward member path)
    {first second : Nat} {stage : Stage}
    (left : path[first]? = some stage)
    (right : path[second]? = some stage) : first = second := by
  rcases List.getElem?_eq_some_iff.mp left with ⟨inside, here⟩
  rcases List.getElem?_eq_some_iff.mp right with ⟨within, there⟩
  exact isLine.nodup.getElem_inj_iff.mp (here.trans there.symm)

/-- Another place of the path holds another stage. -/
theorem Line.getElem?_ne
    (isLine : Line onward member path)
    {first second : Nat} {stage : Stage}
    (here : path[first]? = some stage) (apart : second ≠ first) :
    path[second]? ≠ some stage :=
  fun there => apart (isLine.index_eq there here)

theorem follows_empty (path : List Stage) :
    Follows member path (Queues.empty : Queues Stage Message) := by
  have nothing (stage : Option Stage) :
      arrived member (Queues.empty : Queues Stage Message) stage = [] := by
    cases stage <;> rfl
  constructor
  case outside => exact fun _ _ => ⟨rfl, rfl⟩
  case entry =>
    rw [nothing]
    cases path[0]? <;> rfl
  case conserved =>
    intro index stage _
    rw [nothing, nothing]
    rfl

/-- The class sees only what arrives, what waits and what enters. -/
theorem Follows.congr
    {next : Queues Stage Message} (follows : Follows member path relay)
    (arrivals : arrived member next = arrived member relay)
    (waits : waiting member next = waiting member relay)
    (entries : entering member next = entering member relay) :
    Follows member path next := by
  constructor
  case outside =>
    rw [arrivals, waits]
    exact follows.outside
  case entry =>
    rw [arrivals, entries]
    exact follows.entry
  case conserved =>
    rw [arrivals, waits]
    exact follows.conserved

/-- What has come further along the path is a prefix of what has entered. -/
theorem Follows.arrived_begins
    (follows : Follows member path relay)
    {index : Nat} {stage : Stage} (here : path[index]? = some stage) :
    arrived member relay (some stage) <+:
      arrived member relay path[0]? := by
  induction index generalizing stage with
  | zero =>
      rw [here]
  | succ index induction =>
      rcases List.getElem?_eq_some_iff.mp here with ⟨inside, -⟩
      rcases List.getElem?_eq_some_iff.mpr
        ⟨Nat.lt_of_succ_lt inside, rfl⟩ with before
      have step := follows.conserved index _ before
      rw [here] at step
      refine List.IsPrefix.trans ?_ (induction before)
      rw [step]
      exact List.prefix_append _ _

/-! ## Events -/

variable [DecidableEq Stage]

/-- A message joins the back of a stage. -/
def put (relay : Queues Stage Message) (stage : Stage)
    (message : Message) : Queues Stage Message :=
  { relay with
    queue :=
      Function.update relay.queue stage (relay.queue stage ++ [message])
    history :=
      Function.update relay.history stage
        (relay.history stage ++ [message]) }

/-- The front of a stage leaves it. -/
def take (relay : Queues Stage Message) (stage : Stage)
    (rest : List Message) : Queues Stage Message :=
  { relay with queue := Function.update relay.queue stage rest }

/-- The relay behind an event. -/
def act (onward : Stage → Message → Option Stage)
    (relay : Queues Stage Message) :
    Event Stage Message → Queues Stage Message
  | .idle => relay
  | .enter stage message =>
      { put relay stage message with
        entered :=
          Function.update relay.entered stage
            (relay.entered stage ++ [message]) }
  | .pass stage =>
      match relay.queue stage with
      | [] => relay
      | message :: rest =>
          match onward stage message with
          | none => relay
          | some following => put (take relay stage rest) following message

/-- The front message of a stage is handed on. -/
theorem act_pass
    {stage following : Stage} {message : Message} {rest : List Message}
    (front : relay.queue stage = message :: rest)
    (leads : onward stage message = some following) :
    act onward relay (.pass stage) =
      put (take relay stage rest) following message := by
  simp only [act, front, leads]

theorem act_pass_of_empty
    {stage : Stage} (empty : relay.queue stage = []) :
    act onward relay (.pass stage) = relay := by
  simp only [act, empty]

/-- A stage either stays as it is or hands its front message on. -/
theorem pass_cases (onward : Stage → Message → Option Stage)
    (relay : Queues Stage Message) (stage : Stage) :
    act onward relay (.pass stage) = relay ∨
      ∃ following message rest,
        relay.queue stage = message :: rest ∧
          onward stage message = some following ∧
          act onward relay (.pass stage) =
            put (take relay stage rest) following message := by
  cases front : relay.queue stage with
  | nil => exact Or.inl (act_pass_of_empty front)
  | cons message rest =>
      cases leads : onward stage message with
      | none => exact Or.inl (by simp only [act, front, leads])
      | some following =>
          exact Or.inr
            ⟨following, message, rest, rfl, leads, act_pass front leads⟩

/-- One message of the class, or nothing. -/
def single (member : Message → Bool) (message : Message) : List Message :=
  [message].filter member

theorem arrived_put_self (stage : Stage) (message : Message) :
    arrived member (put relay stage message) (some stage) =
      arrived member relay (some stage) ++ single member message := by
  simp [arrived, put, single]

theorem arrived_put_of_ne {stage : Stage} {other : Option Stage}
    (different : other ≠ some stage) (message : Message) :
    arrived member (put relay stage message) other =
      arrived member relay other := by
  cases other with
  | none => rfl
  | some other =>
      have apart : other ≠ stage := fun same => different (same ▸ rfl)
      simp [arrived, put, apart]

theorem waiting_put_self (stage : Stage) (message : Message) :
    waiting member (put relay stage message) stage =
      waiting member relay stage ++ single member message := by
  simp [waiting, put, single]

theorem waiting_put_of_ne {stage other : Stage}
    (different : other ≠ stage) (message : Message) :
    waiting member (put relay stage message) other =
      waiting member relay other := by
  simp [waiting, put, different]

@[simp]
theorem arrived_take (stage : Stage) (rest : List Message)
    (other : Option Stage) :
    arrived member (take relay stage rest) other =
      arrived member relay other := by
  cases other <;> rfl

theorem waiting_take_of_ne {stage other : Stage}
    (different : other ≠ stage) (rest : List Message) :
    waiting member (take relay stage rest) other =
      waiting member relay other := by
  simp [waiting, take, different]

/-- The front of a stage is what leaves it. -/
theorem waiting_take_self {stage : Stage} {message : Message}
    {rest : List Message} (front : relay.queue stage = message :: rest) :
    waiting member relay stage =
      single member message ++
        waiting member (take relay stage rest) stage := by
  simp only [waiting, take, front, Function.update_self, single]
  rw [← List.filter_append, List.singleton_append]

theorem single_of_not_member {message : Message}
    (other : member message = false) : single member message = [] := by
  simp [single, other]

theorem single_of_member {message : Message}
    (belongs : member message = true) : single member message = [message] := by
  simp [single, belongs]

/-- A message of another class is not seen by the class. -/
theorem arrived_put_of_not_member
    {message : Message} (other : member message = false) (stage : Stage)
    (place : Option Stage) :
    arrived member (put relay stage message) place =
      arrived member relay place := by
  by_cases same : place = some stage
  · rw [same, arrived_put_self, single_of_not_member other,
      List.append_nil]
  · exact arrived_put_of_ne same message

theorem waiting_put_of_not_member
    {message : Message} (other : member message = false)
    (stage place : Stage) :
    waiting member (put relay stage message) place =
      waiting member relay place := by
  by_cases same : place = stage
  · rw [same, waiting_put_self, single_of_not_member other,
      List.append_nil]
  · exact waiting_put_of_ne same message

theorem waiting_take_of_not_member
    {stage : Stage} {message : Message} {rest : List Message}
    (front : relay.queue stage = message :: rest)
    (other : member message = false) (place : Stage) :
    waiting member (take relay stage rest) place =
      waiting member relay place := by
  by_cases same : place = stage
  · rw [same, waiting_take_self front, single_of_not_member other,
      List.nil_append]
  · exact waiting_take_of_ne same rest

/-! ## Classes in motion -/

/-- A message enters from outside. -/
theorem follows_enter
    (isLine : Line onward member path)
    (follows : Follows member path relay)
    {stage : Stage} {message : Message}
    (enters : member message = true → path[0]? = some stage) :
    Follows member path (act onward relay (.enter stage message)) := by
  have arrivals :
      arrived member (act onward relay (.enter stage message)) =
        arrived member (put relay stage message) := by
    ext1 other
    cases other <;> rfl
  have waits :
      waiting member (act onward relay (.enter stage message)) =
        waiting member (put relay stage message) := rfl
  have entries (other : Option Stage) :
      entering member (act onward relay (.enter stage message)) other =
        if other = some stage then
          entering member relay other ++ single member message
        else entering member relay other := by
    cases other with
    | none => rfl
    | some other =>
        by_cases same : other = stage
        · subst same
          simp [entering, act, single]
        · simp [entering, act, same]
  cases belongs : member message with
  | false =>
      apply follows.congr
      · rw [arrivals]
        ext1 other
        exact arrived_put_of_not_member belongs stage other
      · rw [waits]
        ext1 other
        exact waiting_put_of_not_member belongs stage other
      · ext1 other
        rw [entries, single_of_not_member belongs, List.append_nil,
          ite_self]
  | true =>
      have head := enters belongs
      constructor
      case outside =>
        intro other off
        have apart : other ≠ stage := by
          rintro rfl
          exact off (List.mem_of_getElem? head)
        rw [arrivals, waits, waiting_put_of_ne apart,
          arrived_put_of_ne (fun same => apart (Option.some.inj same))]
        exact follows.outside other off
      case entry =>
        have entry := follows.entry
        rw [arrivals, entries, if_pos head]
        rw [head] at entry ⊢
        rw [arrived_put_self, entry]
      case conserved =>
        intro index other here
        have onwards : path[index + 1]? ≠ some stage :=
          isLine.getElem?_ne head (Nat.succ_ne_zero index)
        have law := follows.conserved index other here
        rw [arrivals, waits, arrived_put_of_ne onwards]
        by_cases same : other = stage
        · subst same
          rw [arrived_put_self, waiting_put_self, law, List.append_assoc]
        · rw [waiting_put_of_ne same,
            arrived_put_of_ne (fun equal => same (Option.some.inj equal)),
            law]

/-- The front message of a stage passes on. -/
theorem follows_pass
    (isLine : Line onward member path)
    (follows : Follows member path relay)
    {stage following : Stage} {message : Message} {rest : List Message}
    (front : relay.queue stage = message :: rest)
    (leads : onward stage message = some following) :
    Follows member path (put (take relay stage rest) following message) := by
  cases belongs : member message with
  | false =>
      apply follows.congr
      · ext1 other
        rw [arrived_put_of_not_member belongs, arrived_take]
      · ext1 other
        rw [waiting_put_of_not_member belongs,
          waiting_take_of_not_member front belongs]
      · ext1 other
        cases other <;> rfl
  | true =>
      have left :
          waiting member relay stage =
            [message] ++ waiting member (take relay stage rest) stage := by
        rw [← single_of_member belongs]
        exact waiting_take_self front
      -- a message of the class waits on the path only
      have on : stage ∈ path := by
        by_contra off
        rw [(follows.outside stage off).2] at left
        cases left
      rcases List.getElem?_of_mem on with ⟨place, here⟩
      have there : path[place + 1]? = some following := by
        rw [← isLine.onward place stage here message belongs, leads]
      have apart : following ≠ stage := by
        rintro rfl
        exact Nat.succ_ne_self place (isLine.index_eq there here)
      constructor
      case outside =>
        intro other off
        have otherStage : other ≠ stage := fun same => off (same ▸ on)
        have otherNext : other ≠ following := by
          rintro rfl
          exact off (List.mem_of_getElem? there)
        rw [arrived_put_of_ne
            (fun same => otherNext (Option.some.inj same)),
          waiting_put_of_ne otherNext, arrived_take,
          waiting_take_of_ne otherStage]
        exact follows.outside other off
      case entry =>
        have start : path[0]? ≠ some following :=
          isLine.getElem?_ne there (Nat.succ_ne_zero place).symm
        rw [arrived_put_of_ne start, arrived_take]
        exact follows.entry
      case conserved =>
        intro index other where_
        have law := follows.conserved index other where_
        by_cases first : other = stage
        · -- the stage which the message leaves
          subst first
          have same := isLine.index_eq where_ here
          subst same
          rw [there] at law ⊢
          rw [arrived_put_of_ne
              (fun equal => apart (Option.some.inj equal).symm),
            arrived_put_self, waiting_put_of_ne apart.symm, arrived_take,
            arrived_take, law, left, single_of_member belongs,
            List.append_assoc]
        · have onwards : path[index + 1]? ≠ some following := by
            intro equal
            apply first
            have same := isLine.index_eq equal there
            rw [Nat.succ.inj same, here] at where_
            exact (Option.some.inj where_).symm
          rw [arrived_put_of_ne onwards, arrived_take]
          by_cases second : other = following
          · -- the stage which the message joins
            subst second
            rw [arrived_put_self, waiting_put_self, arrived_take,
              waiting_take_of_ne apart, law, List.append_assoc]
          · rw [arrived_put_of_ne
                (fun equal => second (Option.some.inj equal)),
              waiting_put_of_ne second, arrived_take,
              waiting_take_of_ne first, law]

/-- Every event keeps the class on its path. -/
theorem follows_act
    (isLine : Line onward member path)
    (follows : Follows member path relay)
    {event : Event Stage Message} (enters : Enters member path event) :
    Follows member path (act onward relay event) := by
  cases event with
  | idle => exact follows
  | enter stage message => exact follows_enter isLine follows enters
  | pass stage =>
      rcases pass_cases onward relay stage with
        same | ⟨following, message, rest, front, leads, passed⟩
      · rw [same]
        exact follows
      · rw [passed]
        exact follows_pass isLine follows front leads

/-! ## Served lines -/

theorem arrived_begins_put (stage : Stage) (place : Option Stage)
    (message : Message) :
    arrived member relay place <+:
      arrived member (put relay stage message) place := by
  by_cases same : place = some stage
  · rw [same, arrived_put_self]
    exact List.prefix_append _ _
  · rw [arrived_put_of_ne same]

/-- What has arrived stays on record. -/
theorem arrived_begins_act (event : Event Stage Message)
    (place : Option Stage) :
    arrived member relay place <+:
      arrived member (act onward relay event) place := by
  cases event with
  | idle => exact List.prefix_rfl
  | enter stage message =>
      cases place with
      | none => exact List.prefix_rfl
      | some place => exact arrived_begins_put stage (some place) message
  | pass stage =>
      rcases pass_cases onward relay stage with
        same | ⟨following, message, rest, -, -, passed⟩
      · rw [same]
      · rw [passed, ← arrived_take stage rest place]
        exact arrived_begins_put following place message

theorem queue_prefix_put (stage other : Stage) (message : Message) :
    relay.queue other <+: (put relay stage message).queue other := by
  by_cases same : other = stage
  · subst same
    simp [put]
  · simp [put, same]

/-- A stage which is not served only grows. -/
theorem queue_prefix_act
    {event : Event Stage Message} {stage : Stage}
    (unserved : event ≠ .pass stage) :
    relay.queue stage <+: (act onward relay event).queue stage := by
  cases event with
  | idle => exact List.prefix_rfl
  | enter entry message => exact queue_prefix_put entry stage message
  | pass other =>
      have apart : stage ≠ other := fun same => unserved (same ▸ rfl)
      rcases pass_cases onward relay other with
        same | ⟨following, message, rest, -, -, passed⟩
      · rw [same]
      · have kept :
            relay.queue stage = (take relay other rest).queue stage := by
          simp [take, apart]
        rw [passed, kept]
        exact queue_prefix_put following stage message

/-- An infinite run of a relay. -/
def Runs (onward : Stage → Message → Option Stage)
    (trace : Nat → Queues Stage Message)
    (events : Nat → Event Stage Message) : Prop :=
  ∀ time, trace (time + 1) = act onward (trace time) (events time)

/-- A stage which is not empty is served some time later. -/
def Served (trace : Nat → Queues Stage Message)
    (events : Nat → Event Stage Message) (stage : Stage) : Prop :=
  ∀ time, (trace time).queue stage ≠ [] →
    ∃ later, time ≤ later ∧ events later = .pass stage

variable {trace : Nat → Queues Stage Message}
variable {events : Nat → Event Stage Message}

/-- What has arrived by one time has arrived by every later time. -/
theorem Runs.arrived_begins
    (runs : Runs onward trace events) (place : Option Stage)
    {time later : Nat} (order : time ≤ later) :
    arrived member (trace time) place <+:
      arrived member (trace later) place := by
  induction later, order using Nat.le_induction with
  | base => exact List.prefix_rfl
  | succ later order induction =>
      rw [runs later]
      exact induction.trans (arrived_begins_act (events later) place)

/-- Until a stage is served, it keeps its queue in front. -/
theorem Runs.queue_prefix
    (runs : Runs onward trace events) {stage : Stage} {time later : Nat}
    (order : time ≤ later)
    (unserved :
      ∀ between, time ≤ between → between < later →
        events between ≠ .pass stage) :
    (trace time).queue stage <+: (trace later).queue stage := by
  induction later, order using Nat.le_induction with
  | base => exact List.prefix_rfl
  | succ later order induction =>
      rw [runs later]
      have earlier :=
        induction fun between after before =>
          unserved between after (Nat.lt_succ_of_lt before)
      exact earlier.trans
        (queue_prefix_act (unserved later order (Nat.lt_succ_self later)))

/-- The first time at which a stage that is not empty is served. -/
theorem Served.first
    {stage : Stage} (served : Served trace events stage) {time : Nat}
    (filled : (trace time).queue stage ≠ []) :
    ∃ later, time ≤ later ∧ events later = .pass stage ∧
      ∀ between, time ≤ between → between < later →
        events between ≠ .pass stage := by
  classical
  have some_ : ∃ later, time ≤ later ∧ events later = .pass stage :=
    served time filled
  refine ⟨Nat.find some_, (Nat.find_spec some_).1,
    (Nat.find_spec some_).2, ?_⟩
  intro between after before passed
  exact Nat.find_min some_ before ⟨after, passed⟩

/-- A served stage hands on all that waits in it. -/
theorem Runs.drained
    (runs : Runs onward trace events)
    {stage following : Stage} (served : Served trace events stage)
    (hands : ∀ message, (onward stage message).isSome)
    (leads :
      ∀ message, member message = true →
        onward stage message = some following)
    {time : Nat} {front back : List Message}
    (queue : (trace time).queue stage = front ++ back) :
    ∃ later, time ≤ later ∧
      (arrived member (trace time) (some following)).length +
          (front.filter member).length ≤
        (arrived member (trace later) (some following)).length := by
  induction front generalizing time back with
  | nil => exact ⟨time, Nat.le_refl time, by simp⟩
  | cons message front induction =>
      have filled : (trace time).queue stage ≠ [] := by
        rw [queue]
        exact List.cons_ne_nil _ _
      rcases served.first filled with ⟨turn, after, passed, unserved⟩
      rcases runs.queue_prefix after unserved with ⟨added, grown⟩
      have head :
          (trace turn).queue stage = message :: (front ++ back ++ added) := by
        rw [← grown, queue]
        rfl
      rcases Option.isSome_iff_exists.mp (hands message) with ⟨next, goes⟩
      have moved :
          trace (turn + 1) =
            put (take (trace turn) stage (front ++ back ++ added)) next
              message := by
        rw [runs turn, passed]
        exact act_pass head goes
      -- the rest of the front is still in front
      have remains :
          ∃ rest, (trace (turn + 1)).queue stage = front ++ rest := by
        have grows :
            front ++ back ++ added <+: (trace (turn + 1)).queue stage := by
          have pushed :
              (take (trace turn) stage (front ++ back ++ added)).queue
                  stage <+: (trace (turn + 1)).queue stage := by
            rw [moved]
            exact queue_prefix_put next stage message
          simpa [take] using pushed
        rcases grows with ⟨more, grows⟩
        refine ⟨back ++ added ++ more, ?_⟩
        rw [← grows]
        simp only [List.append_assoc]
      rcases remains with ⟨rest, remains⟩
      rcases induction remains with ⟨later, order, bound⟩
      refine ⟨later, by omega, ?_⟩
      have before :
          (arrived member (trace time) (some following)).length ≤
            (arrived member (trace turn) (some following)).length :=
        (runs.arrived_begins (some following) after).length_le
      have arrival :
          (arrived member (trace turn) (some following)).length +
              (single member message).length ≤
            (arrived member (trace (turn + 1)) (some following)).length := by
        rw [moved]
        cases belongs : member message with
        | false =>
            rw [arrived_put_of_not_member belongs, arrived_take,
              single_of_not_member belongs]
            exact Nat.le_refl _
        | true =>
            have same : next = following :=
              Option.some.inj (goes.symm.trans (leads message belongs))
            rw [same, arrived_put_self, arrived_take, List.length_append]
      have split :
          ((message :: front).filter member).length =
            (single member message).length +
              (front.filter member).length := by
        rw [single, ← List.length_append, ← List.filter_append,
          List.singleton_append]
      omega

/--
On a path whose stages are all served, everything of the class which has
entered by some time arrives at each stage in the end.
-/
theorem Runs.delivered
    (runs : Runs onward trace events)
    (isLine : Line onward member path)
    (follows : ∀ time, Follows member path (trace time))
    (served :
      ∀ index stage following, path[index]? = some stage →
        path[index + 1]? = some following →
          Served trace events stage ∧
            ∀ message, (onward stage message).isSome)
    {index : Nat} {stage : Stage} (here : path[index]? = some stage)
    (time : Nat) :
    ∃ later, time ≤ later ∧
      arrived member (trace time) path[0]? <+:
        arrived member (trace later) (some stage) := by
  have counted :
      ∃ later, time ≤ later ∧
        (arrived member (trace time) path[0]?).length ≤
          (arrived member (trace later) (some stage)).length := by
    induction index generalizing stage with
    | zero =>
        refine ⟨time, Nat.le_refl time, ?_⟩
        rw [here]
    | succ index induction =>
        rcases List.getElem?_eq_some_iff.mp here with ⟨inside, -⟩
        have before : path[index]? = some path[index] :=
          List.getElem?_eq_getElem (Nat.lt_of_succ_lt inside)
        rcases induction before with ⟨later, order, enough⟩
        rcases served index _ stage before here with ⟨serves, hands⟩
        have leads (message : Message) (belongs : member message = true) :
            onward path[index] message = some stage := by
          rw [isLine.onward index _ before message belongs, here]
        have whole :
            (trace later).queue path[index] =
              (trace later).queue path[index] ++ [] :=
          (List.append_nil _).symm
        rcases runs.drained serves hands leads whole with
          ⟨last, after, bound⟩
        refine ⟨last, by omega, ?_⟩
        have law := (follows later).conserved index _ before
        rw [here] at law
        rw [law, List.length_append] at enough
        exact enough.trans bound
  rcases counted with ⟨later, order, enough⟩
  refine ⟨later, order, ?_⟩
  exact List.prefix_of_prefix_length_le
    (runs.arrived_begins path[0]? order)
    ((follows later).arrived_begins here) enough

end Wimp.Lib.Relay
