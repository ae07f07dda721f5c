import Mathlib.Data.List.Nodup
import Mathlib.Logic.Function.Basic

/-!
# Chains of cells in a heap

A cell holds a pointer to the next one.  A segment is a list of addresses
whose cells follow one another from a pointer up to another pointer; a chain
is a segment which ends in the null pointer.  A pointer starts one chain at
most, and a chain never comes back to a cell of its own.

A segment only depends on its own cells, so that it survives every change
elsewhere, and it grows at its end when its last cell is made to point to a
cell of another place.
-/

namespace Wimp.Lib.Chain

universe u v

variable {Address : Type u} {Cell : Type v}
variable {heap following : Address → Option Cell}
variable {next : Cell → Option Address}
variable {start stop : Option Address} {list : List Address}

/-- The cells of the list lead from one pointer to another one. -/
def Segment (heap : Address → Option Cell) (next : Cell → Option Address) :
    Option Address → List Address → Option Address → Prop
  | start, [], stop => start = stop
  | start, address :: rest, stop =>
      start = some address ∧
        ∃ cell, heap address = some cell ∧
          Segment heap next (next cell) rest stop

/-- A cell can be reached from a pointer. -/
inductive Reaches (heap : Address → Option Cell)
    (next : Cell → Option Address) : Option Address → Address → Prop where
  | here (address : Address) : Reaches heap next (some address) address
  | there {address target : Address} {cell : Cell}
      (live : heap address = some cell)
      (reach : Reaches heap next (next cell) target) :
      Reaches heap next (some address) target

theorem segment_append_iff
    {first second : List Address} :
    Segment heap next start (first ++ second) stop ↔
      ∃ middle,
        Segment heap next start first middle ∧
          Segment heap next middle second stop := by
  induction first generalizing start with
  | nil => simp [Segment]
  | cons address rest induction =>
      simp only [List.cons_append, Segment]
      constructor
      · rintro ⟨points, cell, live, tail⟩
        rcases induction.mp tail with ⟨middle, front, back⟩
        exact ⟨middle, ⟨points, cell, live, front⟩, back⟩
      · rintro ⟨middle, ⟨points, cell, live, front⟩, back⟩
        exact ⟨points, cell, live, induction.mpr ⟨middle, front, back⟩⟩

/-- A segment depends on its own cells only. -/
theorem Segment.congr
    (segment : Segment heap next start list stop)
    (agree : ∀ address ∈ list, following address = heap address) :
    Segment following next start list stop := by
  induction list generalizing start with
  | nil => exact segment
  | cons address rest induction =>
      rcases segment with ⟨points, cell, live, tail⟩
      refine ⟨points, cell, ?_, ?_⟩
      · rw [agree address (List.mem_cons_self ..), live]
      · exact induction tail fun other member =>
          agree other (List.mem_cons_of_mem _ member)

/-- The cells of a segment are live. -/
theorem Segment.live
    (segment : Segment heap next start list stop) {address : Address}
    (member : address ∈ list) : ∃ cell, heap address = some cell := by
  induction list generalizing start with
  | nil => cases member
  | cons first rest induction =>
      rcases segment with ⟨points, cell, live, tail⟩
      rcases List.mem_cons.mp member with rfl | later
      · exact ⟨cell, live⟩
      · exact induction tail later

/-- A pointer starts one chain. -/
theorem Segment.unique
    {other : List Address} (left : Segment heap next start list none)
    (right : Segment heap next start other none) : list = other := by
  induction list generalizing start other with
  | nil =>
      rw [show start = none from left] at right
      cases other with
      | nil => rfl
      | cons address rest => cases right.1
  | cons address rest induction =>
      rcases left with ⟨points, cell, live, tail⟩
      rw [points] at right
      cases other with
      | nil => cases right
      | cons first others =>
          rcases right with ⟨same, found, here, others_⟩
          cases same
          rw [live, Option.some.injEq] at here
          subst here
          rw [induction tail others_]

/-- A chain does not come back to its cells. -/
theorem Segment.nodup
    (segment : Segment heap next start list none) : list.Nodup := by
  induction list generalizing start with
  | nil => exact List.nodup_nil
  | cons address rest induction =>
      have whole := segment
      rcases segment with ⟨points, cell, live, tail⟩
      rw [List.nodup_cons]
      refine ⟨fun again => ?_, induction tail⟩
      -- the second visit would start the same chain over
      rcases List.append_of_mem again with ⟨before, after, split⟩
      rw [split] at tail
      rcases segment_append_iff.mp tail with ⟨middle, -, back⟩
      have start_ : middle = start := back.1.trans points.symm
      rw [start_] at back
      have same := congrArg List.length (back.unique whole)
      rw [split] at same
      simp at same
      omega

/-- What can be reached from a pointer is on its chain. -/
theorem Segment.reaches_iff
    (segment : Segment heap next start list none) (target : Address) :
    Reaches heap next start target ↔ target ∈ list := by
  induction list generalizing start with
  | nil =>
      rw [show start = none from segment]
      refine iff_of_false nofun ?_
      exact List.not_mem_nil
  | cons address rest induction =>
      rcases segment with ⟨points, cell, live, tail⟩
      rw [List.mem_cons, ← induction tail, points]
      constructor
      · intro reach
        cases reach with
        | here => exact Or.inl rfl
        | there here further =>
            rw [live, Option.some.injEq] at here
            subst here
            exact Or.inr further
      · rintro (rfl | further)
        · exact .here target
        · exact .there live further

variable [DecidableEq Address]

/-- Other cells may change. -/
theorem Segment.update
    (segment : Segment heap next start list stop) {address : Address}
    (apart : address ∉ list) (cell : Option Cell) :
    Segment (Function.update heap address cell) next start list stop := by
  apply segment.congr
  intro other member
  apply Function.update_of_ne
  rintro rfl
  exact apart member

/-- The last cell of a chain is made to point to one more cell. -/
theorem Segment.concat
    {last added : Address} {lastCell addedCell : Cell}
    (segment : Segment heap next start (list ++ [last]) none)
    (points : next lastCell = some added)
    (live : heap added = some addedCell) (ends : next addedCell = none)
    (apart : added ≠ last) :
    Segment (Function.update heap last (some lastCell)) next start
      (list ++ [last] ++ [added]) none := by
  have distinct := segment.nodup
  rcases segment_append_iff.mp segment with ⟨middle, front, here⟩
  have outside : last ∉ list := by
    intro member
    rw [List.nodup_append] at distinct
    exact distinct.2.2 last member last (List.mem_singleton_self last) rfl
  rw [List.append_assoc]
  refine segment_append_iff.mpr ⟨middle, front.update outside _, ?_⟩
  refine ⟨here.1, lastCell, Function.update_self .., points, addedCell, ?_,
    ends⟩
  rw [Function.update_of_ne apart]
  exact live

end Wimp.Lib.Chain
