import Wimp.Lib.ByteRegion

/-!
# The simple arena

An arena is a region of a known capacity together with an allocation pointer
into it.  Arenas lie in shared memory, so that the pointer to the region is
stored next to plain sizes.
-/

namespace Wimp.Utility.SimpleArena

open Wimp.Lib.ByteRegion

/-- `SArena`; the null pointer to the region is zero. -/
structure SArena where
  arenaSize : Nat := 0
  arenaCapacity : Nat := 0
  arenaPointer : Nat := 0
  data : Nat := 0
deriving DecidableEq, Repr

/-- `sarena`. -/
def sarena : SArena :=
  { arenaSize := 0, arenaCapacity := 0, arenaPointer := 0, data := 0 }

/--
`sarena_init`, with its success flag.  An arena with a capacity or a region
is left as it is, and the allocation pointer is never set.
-/
def sarenaInit (arena : SArena) (ptr capacity : Nat) : SArena × Bool :=
  if arena.arenaCapacity ≠ 0 ∨ arena.data ≠ 0 then
    (arena, false)
  else
    ({ arena with
        arenaCapacity := capacity
        arenaSize := 0
        data := ptr }, true)

/--
`sarena_alloc`, with the pointer it returns.  A request which overruns the
arena fails its assertion, and one which fills it up gets the null pointer.
-/
def sarenaAlloc (arena : SArena) (size : Nat) : Option (SArena × Nat) :=
  let newArenaPtr := addSizeT arena.arenaPointer size
  if arena.arenaCapacity < newArenaPtr then none
  else if arena.arenaCapacity ≤ newArenaPtr then some (arena, 0)
  else
    some
      ({ arena with
          arenaPointer := newArenaPtr
          arenaSize := addSizeT arena.arenaSize size },
        arena.arenaPointer)

/-! ## Arenas at rest -/

/-- An arena as it lies in the shared table: nobody's region, and in bounds. -/
structure AtRest (arena : SArena) : Prop where
  noData : arena.data = 0
  inside : arena.arenaPointer ≤ arena.arenaCapacity

theorem atRest_sarenaInit
    {arena : SArena} (atRest : AtRest arena) (capacity : Nat) :
    AtRest (sarenaInit arena 0 capacity).1 := by
  unfold sarenaInit
  split
  · exact atRest
  · rename_i blank
    rw [not_or, Decidable.not_not, Decidable.not_not] at blank
    have inside := atRest.inside
    rw [blank.1] at inside
    exact ⟨rfl, inside.trans (Nat.zero_le capacity)⟩

/-- The arena is blank, or has the capacity already and nothing inside. -/
def Reusable (arena : SArena) (capacity : Nat) : Prop :=
  arena.arenaCapacity = 0 ∨
    arena.arenaCapacity = capacity ∧ arena.arenaSize = 0 ∧
      arena.arenaPointer = 0

instance (arena : SArena) (capacity : Nat) :
    Decidable (Reusable arena capacity) :=
  inferInstanceAs (Decidable (_ ∨ _))

/-- Initialization gives an empty arena exactly when the arena is reusable. -/
theorem sarenaInit_eq_empty_iff
    {arena : SArena} (atRest : AtRest arena) (capacity : Nat) :
    (sarenaInit arena 0 capacity).1 = { arenaCapacity := capacity } ↔
      Reusable arena capacity := by
  rcases arena with ⟨arenaSize, arenaCapacity, arenaPointer, data⟩
  have noData : data = 0 := atRest.noData
  have inside : arenaPointer ≤ arenaCapacity := atRest.inside
  subst noData
  by_cases blank : arenaCapacity = 0
  · subst blank
    have start : arenaPointer = 0 := Nat.le_zero.mp inside
    subst start
    exact iff_of_true rfl (Or.inl rfl)
  · rw [sarenaInit, if_pos (Or.inl blank)]
    simp only [SArena.mk.injEq, Reusable, blank, false_or, and_true]
    tauto

end Wimp.Utility.SimpleArena
