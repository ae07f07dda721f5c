import Mathlib.Data.Finset.Basic
import Wimp.Lib.Runs

/-!
# Threads which take and release mutexes

A plain mutex is free or held by one thread, and it is not recursive.  A
thread runs a straight line of lock and unlock calls.  A call names a slot,
the field of a record in which the handle of the mutex is stored, and the
handle is read when the call is made: a thread which waits goes on waiting
for the mutex it has read, whatever the slot holds later.

While the slots keep their handles, a discipline on the code is enough for
correct pairing.  The discipline mentions only the slots which the thread
itself holds, so that it is checked on the code of each thread alone, and the
rule of this module carries it over every interleaving.
-/

namespace Wimp.Lib.Mutex

open Wimp.Lib.Runs

universe u v w

/-- A call on the mutex which a slot names. -/
inductive Command (Slot : Type u) where
  | lock (slot : Slot)
  | unlock (slot : Slot)
deriving DecidableEq, Repr

/-- The calls a thread has still to make, and the mutex it waits for. -/
structure Code (Slot : Type u) (Mutex : Type v) where
  rest : List (Command Slot)
  awaited : Option Mutex := none
deriving DecidableEq, Repr

/-- The outcome of one step of a thread inside its code. -/
structure Advance (Slot : Type u) (Mutex : Type v) (Thread : Type w) where
  holder : Mutex → Option Thread
  code : Code Slot Mutex
  /-- The mutex which was unlocked without being held by the caller. -/
  misused : Option Mutex

variable {Slot : Type u} {Mutex : Type v} {Thread : Type w}
variable {handle : Slot → Mutex} {holder : Mutex → Option Thread}
variable {held : Thread → Finset Slot} {thread : Thread}

/-- The slots which each thread holds, as the mutexes see it. -/
def Agrees (handle : Slot → Mutex) (holder : Mutex → Option Thread)
    (held : Thread → Finset Slot) : Prop :=
  ∀ thread slot, holder (handle slot) = some thread ↔ slot ∈ held thread

/-- No two threads hold the same slot. -/
theorem Agrees.unique
    (agrees : Agrees handle holder held) {first second : Thread}
    {slot : Slot} (left : slot ∈ held first) (right : slot ∈ held second) :
    first = second := by
  apply Option.some.inj
  rw [← (agrees first slot).mpr left, (agrees second slot).mpr right]

/-! ## The discipline -/

section Discipline

variable [DecidableEq Slot]

/--
What a call does to the slots which its thread holds: it locks none of them
again and unlocks none but them.
-/
def follow (held : Finset Slot) : Command Slot → Option (Finset Slot)
  | .lock slot => if slot ∈ held then none else some (insert slot held)
  | .unlock slot => if slot ∈ held then some (held.erase slot) else none

/-- Code which, from the slots held now, keeps to the discipline. -/
structure Disciplined (handle : Slot → Mutex) (held : Finset Slot)
    (code : Code Slot Mutex) (final : Finset Slot) : Prop where
  follows : run follow held code.rest = some final
  awaits :
    ∀ mutex ∈ code.awaited, ∃ slot rest,
      code.rest = .lock slot :: rest ∧ mutex = handle slot

/-- Code which has not been entered waits for nothing. -/
theorem Disciplined.enter
    {final slots : Finset Slot} {calls : List (Command Slot)}
    (follows : run follow slots calls = some final) :
    Disciplined handle slots { rest := calls } final :=
  ⟨follows, nofun⟩

/-- At its end the code has left its thread with the final slots. -/
theorem Disciplined.final_eq
    {final slots : Finset Slot} {code : Code Slot Mutex}
    (disciplined : Disciplined handle slots code final)
    (finished : code.rest = []) : slots = final := by
  apply Option.some.inj
  rw [← disciplined.follows, finished]
  rfl

/-- The slots held in front of a piece of code, from those held behind it. -/
def heldBefore (final : Finset Slot) : List (Command Slot) → Finset Slot
  | [] => final
  | .lock slot :: rest => (heldBefore final rest).erase slot
  | .unlock slot :: rest => insert slot (heldBefore final rest)

/-- The code that is left tells which slots its thread holds. -/
theorem held_eq_of_follows
    {slots final : Finset Slot} {rest : List (Command Slot)}
    (follows : run follow slots rest = some final) :
    slots = heldBefore final rest := by
  induction rest generalizing slots with
  | nil => exact Option.some.inj follows
  | cons command rest induction =>
      rw [run_cons] at follows
      cases command with
      | lock slot =>
          rw [follow] at follows
          split at follows
          · cases follows
          · rename_i free
            rw [heldBefore, ← induction follows,
              Finset.erase_insert free]
      | unlock slot =>
          rw [follow] at follows
          split at follows
          · rename_i owned
            rw [heldBefore, ← induction follows,
              Finset.insert_erase owned]
          · cases follows

end Discipline

/-! ## Ordered locking -/

/--
When every thread waits for a mutex of a higher rank than those which it
holds, a thread that waits in vain leads to a holder which does not.
-/
theorem Agrees.exists_running
    (agrees : Agrees handle holder held)
    {waits : Thread → Option Slot} {rank : Slot → Nat} {bound : Nat}
    (ordered :
      ∀ thread slot, waits thread = some slot →
        ∀ other ∈ held thread, rank other < rank slot)
    (limit : ∀ slot, rank slot ≤ bound)
    {thread : Thread} {slot : Slot} (waiting : waits thread = some slot)
    (taken : holder (handle slot) ≠ none) :
    ∃ owner,
      (held owner).Nonempty ∧
        ∀ wanted, waits owner = some wanted →
          holder (handle wanted) = none := by
  -- the rank of the awaited mutex grows from each owner to the next
  induction above : bound - rank slot using Nat.strong_induction_on
      generalizing thread slot with
  | _ above induction =>
      rcases Option.ne_none_iff_exists'.mp taken with ⟨owner, holds⟩
      have owned : slot ∈ held owner := (agrees owner slot).mp holds
      by_cases stuck :
          ∃ wanted, waits owner = some wanted ∧
            holder (handle wanted) ≠ none
      · rcases stuck with ⟨wanted, next, blocked⟩
        have higher := ordered owner wanted next slot owned
        have top := limit wanted
        exact induction (bound - rank wanted) (by omega) next blocked rfl
      · refine ⟨owner, ⟨slot, owned⟩, ?_⟩
        intro wanted next
        by_contra blocked
        exact stuck ⟨wanted, next, blocked⟩

/-! ## The steps of a thread -/

variable [DecidableEq Mutex] [DecidableEq Thread]

/--
One step of a thread inside its code.  A lock call reads the handle and then
waits until the mutex is free; an unlock call frees the mutex, whoever holds
it, and is reported when that is not the caller.
-/
def Code.advance (handle : Slot → Mutex) (holder : Mutex → Option Thread)
    (thread : Thread) (code : Code Slot Mutex) :
    Option (Advance Slot Mutex Thread) :=
  match code.rest with
  | [] => none
  | .lock slot :: rest =>
      match code.awaited with
      | none =>
          some
            { holder
              code := { code with awaited := some (handle slot) }
              misused := none }
      | some mutex =>
          if holder mutex = none then
            some
              { holder := Function.update holder mutex (some thread)
                code := { rest }
                misused := none }
          else none
  | .unlock slot :: rest =>
      some
        { holder := Function.update holder (handle slot) none
          code := { rest }
          misused :=
            if holder (handle slot) = some thread then none
            else some (handle slot) }

/-- A step makes nobody a holder but the thread which waited. -/
theorem holder_of_advance
    {code : Code Slot Mutex} {next : Advance Slot Mutex Thread}
    (advanced : code.advance handle holder thread = some next)
    {mutex : Mutex} {owner : Thread}
    (held : next.holder mutex = some owner) :
    holder mutex = some owner ∨
      owner = thread ∧ code.awaited = some mutex := by
  unfold Code.advance at advanced
  split at advanced
  · cases advanced
  · split at advanced
    · cases advanced
      exact Or.inl held
    · rename_i waited awaited
      split at advanced
      · cases advanced
        by_cases same : mutex = waited
        · subst same
          simp only [Function.update_self, Option.some.injEq] at held
          exact Or.inr ⟨held.symm, awaited⟩
        · simp only [Function.update_of_ne same] at held
          exact Or.inl held
      · cases advanced
  · rename_i slot rest _
    cases advanced
    by_cases same : mutex = handle slot
    · simp [same] at held
    · simp only [Function.update_of_ne same] at held
      exact Or.inl held

/-- Only a mutex which is held stops a thread inside its code. -/
theorem advance_isSome
    {code : Code Slot Mutex} (more : code.rest ≠ [])
    (free : ∀ mutex ∈ code.awaited, holder mutex = none) :
    (code.advance handle holder thread).isSome := by
  unfold Code.advance
  split
  · contradiction
  · split
    · rfl
    · rename_i mutex awaited
      rw [if_pos (free mutex awaited)]
      rfl
  · rfl

/-- A step begins to wait for a lock, or it makes the next call. -/
theorem rest_of_advance
    {code : Code Slot Mutex} {next : Advance Slot Mutex Thread}
    (advanced : code.advance handle holder thread = some next) :
    (code.awaited = none ∧ next.code.rest = code.rest) ∨
      ∃ command,
        code.rest = command :: next.code.rest ∧
          ∀ slot, command = .lock slot → code.awaited.isSome := by
  unfold Code.advance at advanced
  split at advanced
  · cases advanced
  · rename_i slot rest calls
    split at advanced
    · rename_i nothing
      cases advanced
      exact Or.inl ⟨nothing, rfl⟩
    · rename_i mutex awaited
      split at advanced
      · cases advanced
        exact Or.inr ⟨.lock slot, calls, fun _ _ => by rw [awaited]; rfl⟩
      · cases advanced
  · rename_i slot rest calls
    cases advanced
    exact Or.inr ⟨.unlock slot, calls, nofun⟩

/-- A step leaves the calls behind it in place. -/
theorem suffix_of_advance
    {code : Code Slot Mutex} {next : Advance Slot Mutex Thread}
    (advanced : code.advance handle holder thread = some next) :
    next.code.rest <:+ code.rest := by
  rcases rest_of_advance advanced with ⟨-, same⟩ | ⟨command, calls, -⟩
  · exact ⟨[], same⟩
  · rw [calls]
    exact List.suffix_cons _ _

variable [DecidableEq Slot]

theorem Agrees.lock
    (injective : Function.Injective handle)
    (agrees : Agrees handle holder held) {slot : Slot}
    (free : holder (handle slot) = none) :
    Agrees handle (Function.update holder (handle slot) (some thread))
      (Function.update held thread (insert slot (held thread))) := by
  intro other wanted
  by_cases same : wanted = slot
  · subst same
    rw [Function.update_self]
    by_cases caller : other = thread
    · simp [caller]
    · have nobody : wanted ∉ held other := by
        rw [← agrees other wanted, free]
        exact nofun
      simp [Function.update_of_ne caller, nobody, Ne.symm caller]
  · rw [Function.update_of_ne (fun equal => same (injective equal)),
      agrees other wanted]
    by_cases caller : other = thread
    · subst caller
      simp [same]
    · rw [Function.update_of_ne caller]

theorem Agrees.unlock
    (injective : Function.Injective handle)
    (agrees : Agrees handle holder held) {slot : Slot}
    (owned : slot ∈ held thread) :
    Agrees handle (Function.update holder (handle slot) none)
      (Function.update held thread ((held thread).erase slot)) := by
  intro other wanted
  by_cases same : wanted = slot
  · subst same
    rw [Function.update_self]
    by_cases caller : other = thread
    · simp [caller]
    · have nobody : wanted ∉ held other := fun also =>
        caller (agrees.unique also owned)
      simp [Function.update_of_ne caller, nobody]
  · rw [Function.update_of_ne (fun equal => same (injective equal)),
      agrees other wanted]
    by_cases caller : other = thread
    · subst caller
      simp [same]
    · rw [Function.update_of_ne caller]

/--
The rule of the discipline: a step of one thread misuses no mutex, and
afterwards the mutexes agree with the slots again.
-/
theorem Agrees.advance
    (injective : Function.Injective handle)
    (agrees : Agrees handle holder held)
    {code : Code Slot Mutex} {final : Finset Slot}
    (disciplined : Disciplined handle (held thread) code final)
    {next : Advance Slot Mutex Thread}
    (advanced : code.advance handle holder thread = some next) :
    next.misused = none ∧
      ∃ slots,
        Agrees handle next.holder (Function.update held thread slots) ∧
          Disciplined handle slots next.code final := by
  rcases disciplined with ⟨follows, awaits⟩
  unfold Code.advance at advanced
  split at advanced
  · cases advanced
  · rename_i slot rest calls
    split at advanced
    · -- the handle is read, and nothing is held yet
      cases advanced
      refine ⟨rfl, held thread, ?_, follows, ?_⟩
      · rw [Function.update_eq_self]
        exact agrees
      · rintro mutex ⟨⟩
        exact ⟨slot, rest, calls, rfl⟩
    · rename_i mutex awaited
      rcases awaits mutex awaited with ⟨_, _, same, rfl⟩
      rw [calls] at same
      cases same
      split at advanced
      · rename_i free
        cases advanced
        rw [calls, run_cons, follow] at follows
        split at follows
        · cases follows
        · exact ⟨rfl, _, agrees.lock injective free, follows, nofun⟩
      · cases advanced
  · rename_i slot rest calls
    rw [calls, run_cons, follow] at follows
    split at follows
    · rename_i owned
      cases advanced
      refine ⟨if_pos ((agrees thread slot).mpr owned), _,
        agrees.unlock injective owned, follows, nofun⟩
    · cases follows

end Wimp.Lib.Mutex
