import Mathlib.Data.List.Basic

/-!
# Histories of a shared object

Callers work on a shared object in sessions.  A caller opens a session with a
copy of the object, changes the copy, and closes the session with the copy it
leaves.  A history of such events is serial when the sessions follow each
other: a session opens with the state which was left, and only its caller
changes and closes it.

In a serial history no change is lost.  A measure of the state which no change
lowers puts all changes in order, so that changes of a growing position cover
disjoint ranges.
-/

namespace Wimp.Lib.SerialHistory

universe u v w

variable {Caller : Type u} {State : Type v} {Label : Type w}

/-- What happens to the shared object. -/
inductive Event (Caller : Type u) (State : Type v) (Label : Type w) where
  | opened (caller : Caller) (state : State)
  | changed (caller : Caller) (before : State) (label : Label)
      (after : State)
  | closed (caller : Caller) (state : State)

/-- The object at rest, or in the session of a caller. -/
inductive Phase (Caller : Type u) (State : Type v) where
  | idle (state : State)
  | busy (caller : Caller) (state : State)

namespace Phase

/-- The state of the object, or of the copy of its session. -/
def state : Phase Caller State → State
  | idle state => state
  | busy _ state => state

end Phase

/-- The phase behind a history, whose newest event comes first. -/
def phase (start : State) :
    List (Event Caller State Label) → Phase Caller State
  | [] => .idle start
  | .opened caller state :: _ => .busy caller state
  | .changed caller _ _ after :: _ => .busy caller after
  | .closed _ state :: _ => .idle state

/-- The events which may follow in a phase. -/
def Follows (apply : State → Label → State → Prop) :
    Phase Caller State → Event Caller State Label → Prop
  | .idle left, .opened _ state => state = left
  | .busy owner current, .changed caller before label after =>
      caller = owner ∧ before = current ∧ apply before label after
  | .busy owner current, .closed caller state =>
      caller = owner ∧ state = current
  | _, _ => False

/-- Every event follows in the phase behind the earlier ones. -/
def Serial (apply : State → Label → State → Prop) (start : State) :
    List (Event Caller State Label) → Prop
  | [] => True
  | event :: earlier =>
      Follows apply (phase start earlier) event ∧ Serial apply start earlier

/-- The state which the last session left. -/
def left (start : State) : List (Event Caller State Label) → State
  | [] => start
  | .closed _ state :: _ => state
  | _ :: earlier => left start earlier

variable {apply : State → Label → State → Prop} {start : State}

/-- At rest, the object is as the last session left it. -/
theorem left_of_idle
    {history : List (Event Caller State Label)} {state : State}
    (idle : phase start history = .idle state) :
    left start history = state := by
  cases history with
  | nil =>
      cases idle
      rfl
  | cons event earlier =>
      cases event with
      | opened caller current => cases idle
      | changed caller before label after => cases idle
      | closed caller current =>
          cases idle
          rfl

/-- A session opens with the state which was left. -/
theorem opened_eq_left
    {later earlier : List (Event Caller State Label)} {caller : Caller}
    {state : State}
    (serial : Serial apply start (later ++ .opened caller state :: earlier)) :
    state = left start earlier := by
  induction later with
  | nil =>
      have follows : Follows apply (phase start earlier)
          (.opened caller state) := serial.1
      cases phased : phase start earlier with
      | idle current =>
          rw [phased] at follows
          exact follows.trans (left_of_idle phased).symm
      | busy owner current =>
          rw [phased] at follows
          exact follows.elim
  | cons event later induction => exact induction serial.2

/-! ## Changes in order -/

section Ordered

variable {position : State → Nat}
variable (grows :
  ∀ (before : State) (label : Label) (after : State),
    apply before label after → position before ≤ position after)

include grows

/-- The position of the object never falls. -/
theorem position_le
    {history : List (Event Caller State Label)}
    (serial : Serial apply start history)
    {caller : Caller} {before : State} {label : Label} {after : State}
    (member : Event.changed caller before label after ∈ history) :
    position after ≤ position (phase start history).state := by
  induction history with
  | nil => cases member
  | cons event earlier induction =>
      rcases serial with ⟨follows, serial⟩
      rcases List.mem_cons.mp member with rfl | old
      · exact Nat.le_refl _
      · have before_event := induction serial old
        cases phased : phase start earlier with
        | idle current =>
            rw [phased] at follows before_event
            cases event with
            | opened other state =>
                rw [show state = current from follows]
                exact before_event
            | changed other first label last => exact follows.elim
            | closed other state => exact follows.elim
        | busy owner current =>
            rw [phased] at follows before_event
            cases event with
            | opened other state => exact follows.elim
            | changed other first label last =>
                rcases follows with ⟨-, rfl, applied⟩
                exact Nat.le_trans before_event (grows _ _ _ applied)
            | closed other state =>
                rw [show state = current from follows.2]
                exact before_event

/-- A change ends where every later one begins, or before. -/
theorem changed_le
    {later earlier : List (Event Caller State Label)}
    {first second : Caller} {before after start' finish : State}
    {label label' : Label}
    (serial : Serial apply start
      (later ++ .changed second start' label' finish :: earlier))
    (member : Event.changed first before label after ∈ earlier) :
    position after ≤ position start' := by
  induction later with
  | nil =>
      rcases serial with ⟨follows, serial⟩
      have reached := position_le grows serial member
      cases phased : phase start earlier with
      | idle current =>
          rw [phased] at follows
          exact follows.elim
      | busy owner current =>
          rw [phased] at follows reached
          rw [follows.2.1]
          exact reached
  | cons event later induction => exact induction serial.2

end Ordered

/-- Every change in a serial history is one of the object. -/
theorem apply_of_mem
    {history : List (Event Caller State Label)}
    (serial : Serial apply start history)
    {caller : Caller} {before : State} {label : Label} {after : State}
    (member : Event.changed caller before label after ∈ history) :
    apply before label after := by
  induction history with
  | nil => cases member
  | cons event earlier induction =>
      rcases serial with ⟨follows, serial⟩
      rcases List.mem_cons.mp member with rfl | old
      · cases phased : phase start earlier with
        | idle current =>
            rw [phased] at follows
            exact follows.elim
        | busy owner current =>
            rw [phased] at follows
            exact follows.2.2
      · exact induction serial old

end Wimp.Lib.SerialHistory
