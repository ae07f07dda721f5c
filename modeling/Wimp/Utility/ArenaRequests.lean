import Wimp.Utility.SimpleArena
import Mathlib.Algebra.BigOperators.Group.List.Basic
import Mathlib.Algebra.Order.BigOperators.Group.List

/-!
# Sequences of arena requests

Without its assertion, `sarena_alloc` decides by one comparison whether a
request is granted.  The sum in it wraps around at the end of `size_t`, a
request which fills the arena to its end is refused, and the answer to a
refused request is the offset zero, which is also the offset of the first
granted one.
-/

namespace Wimp.Utility.SimpleArena

open Wimp.Lib.ByteRegion

/-! ## The allocator without its assertion -/

/-- The request passes the bound check of `sarena_alloc`. -/
def Passes (arena : SArena) (size : Nat) : Prop :=
  addSizeT arena.arenaPointer size < arena.arenaCapacity

instance (arena : SArena) (size : Nat) : Decidable (Passes arena size) :=
  inferInstanceAs (Decidable (_ < _))

/--
`sarena_alloc` compiled without its assertion, with the pointer it returns.
-/
def sarenaAllocUnchecked (arena : SArena) (size : Nat) : SArena × Nat :=
  let newArenaPtr := addSizeT arena.arenaPointer size
  if arena.arenaCapacity ≤ newArenaPtr then (arena, 0)
  else
    ({ arena with
        arenaPointer := newArenaPtr
        arenaSize := addSizeT arena.arenaSize size },
      arena.arenaPointer)

/-- The assertion only stops requests which overrun the arena. -/
theorem sarenaAlloc_eq_unchecked (arena : SArena) (size : Nat) :
    sarenaAlloc arena size =
      if arena.arenaCapacity < addSizeT arena.arenaPointer size then none
      else some (sarenaAllocUnchecked arena size) := by
  unfold sarenaAlloc sarenaAllocUnchecked
  dsimp only
  split_ifs <;> rfl

/-- `sarena_alloc` as it was compiled, with its assertion or without it. -/
def sarenaAllocCompiled (asserts : Bool) (arena : SArena) (size : Nat) :
    Option (SArena × Nat) :=
  if asserts then sarenaAlloc arena size
  else some (sarenaAllocUnchecked arena size)

/-- A call which returns has done what the one without assertion does. -/
theorem eq_unchecked_of_compiled
    {asserts : Bool} {arena : SArena} {size : Nat}
    {result : SArena × Nat}
    (allocated : sarenaAllocCompiled asserts arena size = some result) :
    result = sarenaAllocUnchecked arena size := by
  unfold sarenaAllocCompiled at allocated
  split at allocated
  · rw [sarenaAlloc_eq_unchecked] at allocated
    split at allocated
    · cases allocated
    · exact (Option.some.inj allocated).symm
  · exact (Option.some.inj allocated).symm

/-- An allocation stays inside the capacity, whether it is checked or not. -/
theorem spec_of_compiled
    {asserts : Bool} {arena after : SArena} {size pointer : Nat}
    (inside : arena.arenaPointer ≤ arena.arenaCapacity)
    (allocated :
      sarenaAllocCompiled asserts arena size = some (after, pointer)) :
    after.arenaCapacity = arena.arenaCapacity ∧
      after.arenaPointer ≤ after.arenaCapacity := by
  have result := eq_unchecked_of_compiled allocated
  unfold sarenaAllocUnchecked at result
  dsimp only at result
  split at result
  · cases result
    exact ⟨rfl, inside⟩
  · rename_i room
    cases result
    exact ⟨rfl, Nat.le_of_not_le room⟩

theorem sarenaAllocUnchecked_of_passes
    {arena : SArena} {size : Nat} (passes : Passes arena size) :
    sarenaAllocUnchecked arena size =
      ({ arena with
          arenaPointer := addSizeT arena.arenaPointer size
          arenaSize := addSizeT arena.arenaSize size },
        arena.arenaPointer) := by
  have room : ¬ arena.arenaCapacity ≤ addSizeT arena.arenaPointer size :=
    Nat.not_le.mpr passes
  simp only [sarenaAllocUnchecked, if_neg room]

theorem sarenaAllocUnchecked_of_not_passes
    {arena : SArena} {size : Nat} (refused : ¬ Passes arena size) :
    sarenaAllocUnchecked arena size = (arena, 0) := by
  have full : arena.arenaCapacity ≤ addSizeT arena.arenaPointer size :=
    Nat.not_lt.mp refused
  simp only [sarenaAllocUnchecked, if_pos full]

/-! ## Requests and their answers -/

/-- A request with its answer, and the arena before and behind it. -/
structure Answer where
  size : Nat
  pointer : Nat
  granted : Bool
  before : SArena
  after : SArena
deriving DecidableEq, Repr

/-- The answer to one request. -/
def answerTo (arena : SArena) (size : Nat) : Answer :=
  { size
    pointer := (sarenaAllocUnchecked arena size).2
    granted := decide (Passes arena size)
    before := arena
    after := (sarenaAllocUnchecked arena size).1 }

/-- The answers to a sequence of requests. -/
def answers (arena : SArena) : List Nat → List Answer
  | [] => []
  | size :: rest =>
      answerTo arena size :: answers (answerTo arena size).after rest

/-- The sum of the sizes which were granted, without wrapping around. -/
def grantedSum (served : List Answer) : Nat :=
  ((served.filter Answer.granted).map Answer.size).sum

/-- Two answers give ranges which do not meet. -/
def Apart (first second : Answer) : Prop :=
  first.pointer + first.size ≤ second.pointer ∨
    second.pointer + second.size ≤ first.pointer

instance (first second : Answer) : Decidable (Apart first second) :=
  inferInstanceAs (Decidable (_ ∨ _))

/--
The law of the allocator.  A request is granted exactly when there is room
for it, the granted ranges lie inside the arena and do not meet, and a
refusal changes nothing and is told apart from every grant.
-/
structure Lawful (capacity : Nat) (served : List Answer) : Prop where
  exact :
    ∀ earlier answer later, served = earlier ++ answer :: later →
      (answer.granted = true ↔
        grantedSum earlier + answer.size ≤ capacity)
  inside :
    ∀ answer ∈ served, answer.granted = true →
      answer.pointer + answer.size ≤ capacity
  apart :
    served.Pairwise fun first second =>
      first.granted = true → second.granted = true → Apart first second
  refused :
    ∀ answer ∈ served, answer.granted = false →
      answer.after = answer.before ∧
        ∀ other ∈ served, other.granted = true →
          answer.pointer ≠ other.pointer

variable {arena : SArena} {sizes : List Nat}

theorem granted_iff (arena : SArena) (size : Nat) :
    (answerTo arena size).granted = true ↔ Passes arena size :=
  decide_eq_true_iff

theorem refused_iff (arena : SArena) (size : Nat) :
    (answerTo arena size).granted = false ↔ ¬ Passes arena size :=
  decide_eq_false_iff_not

/-- Every answer is the answer to some request. -/
theorem exists_of_mem_answers
    {answer : Answer} (member : answer ∈ answers arena sizes) :
    ∃ before, answer = answerTo before answer.size ∧
      answer.size ∈ sizes := by
  induction sizes generalizing arena with
  | nil => cases member
  | cons size rest induction =>
      rcases List.mem_cons.mp member with rfl | later
      · exact ⟨arena, rfl, List.mem_cons_self ..⟩
      · rcases induction later with ⟨before, same, inside⟩
        exact ⟨before, same, List.mem_cons_of_mem _ inside⟩

/-- A refused request changes nothing and gets the offset zero. -/
theorem unchanged_of_refused
    {answer : Answer} (member : answer ∈ answers arena sizes)
    (refused : answer.granted = false) :
    answer.after = answer.before ∧ answer.pointer = 0 := by
  rcases exists_of_mem_answers member with ⟨before, same, -⟩
  rw [same, refused_iff] at refused
  have result := sarenaAllocUnchecked_of_not_passes refused
  rw [same]
  simp only [answerTo, result, and_self]

/-- The first grant is at the allocation pointer. -/
theorem exists_first_grant
    {answer : Answer} (member : answer ∈ answers arena sizes)
    (granted : answer.granted = true) :
    ∃ first ∈ answers arena sizes,
      first.granted = true ∧ first.pointer = arena.arenaPointer := by
  induction sizes generalizing arena with
  | nil => cases member
  | cons size rest induction =>
      by_cases passes : Passes arena size
      · refine ⟨answerTo arena size, List.mem_cons_self .., ?_, ?_⟩
        · exact (granted_iff arena size).mpr passes
        · rw [answerTo, sarenaAllocUnchecked_of_passes passes]
      · have same : (answerTo arena size).after = arena := by
          rw [answerTo, sarenaAllocUnchecked_of_not_passes passes]
        rw [answers, same, List.mem_cons] at member
        rcases member with rfl | later
        · exact absurd ((granted_iff arena size).mp granted) passes
        · rcases induction later with ⟨first, inside, found⟩
          refine ⟨first, ?_, found⟩
          rw [answers, same]
          exact List.mem_cons_of_mem _ inside

@[simp]
theorem map_size_answers (arena : SArena) (sizes : List Nat) :
    (answers arena sizes).map Answer.size = sizes := by
  induction sizes generalizing arena with
  | nil => rfl
  | cons size rest induction =>
      rw [answers, List.map_cons, induction]
      rfl

theorem grantedSum_cons_of_granted
    {answer : Answer} (granted : answer.granted = true)
    (served : List Answer) :
    grantedSum (answer :: served) = answer.size + grantedSum served := by
  rw [grantedSum, List.filter_cons_of_pos granted, List.map_cons,
    List.sum_cons, grantedSum]

theorem grantedSum_of_refused
    {served : List Answer}
    (refused : ∀ answer ∈ served, answer.granted = false) :
    grantedSum served = 0 := by
  have none : served.filter Answer.granted = [] := by
    rw [List.filter_eq_nil_iff]
    intro answer member
    rw [refused answer member]
    exact Bool.false_ne_true
  rw [grantedSum, none]
  rfl

/-! ## Requests which fit -/

/-- A request which fits is granted, and the pointer passes behind it. -/
theorem answerTo_of_fits
    {size : Nat} (small : arena.arenaCapacity < 2 ^ 64)
    (fits : arena.arenaPointer + size < arena.arenaCapacity) :
    (answerTo arena size).granted = true ∧
      (answerTo arena size).pointer = arena.arenaPointer ∧
      (answerTo arena size).after.arenaPointer =
        arena.arenaPointer + size ∧
      (answerTo arena size).after.arenaCapacity =
        arena.arenaCapacity := by
  have sum : addSizeT arena.arenaPointer size = arena.arenaPointer + size :=
    addSizeT_of_lt (by omega)
  have passes : Passes arena size := by
    rw [Passes, sum]
    exact fits
  have result := sarenaAllocUnchecked_of_passes passes
  rw [sum] at result
  refine ⟨(granted_iff arena size).mpr passes, ?_, ?_, ?_⟩
  · rw [answerTo, result]
  · rw [answerTo, result]
  · rw [answerTo, result]

/-- Requests which fit together are granted one behind the other. -/
theorem granted_of_fits
    (small : arena.arenaCapacity < 2 ^ 64)
    (fits : arena.arenaPointer + sizes.sum < arena.arenaCapacity) :
    (∀ answer ∈ answers arena sizes,
        answer.granted = true ∧ arena.arenaPointer ≤ answer.pointer ∧
          answer.pointer + answer.size ≤
            arena.arenaPointer + sizes.sum) ∧
      (answers arena sizes).Pairwise fun first second =>
        first.pointer + first.size ≤ second.pointer := by
  induction sizes generalizing arena with
  | nil =>
      constructor
      · intro answer member
        cases member
      · exact List.Pairwise.nil
  | cons size rest induction =>
      rw [List.sum_cons] at fits
      have first : arena.arenaPointer + size < arena.arenaCapacity := by
        omega
      rcases answerTo_of_fits small first with
        ⟨granted, pointer, moved, capacity⟩
      have served :=
        @induction (answerTo arena size).after
          (by rw [capacity]; exact small)
          (by rw [capacity, moved]; omega)
      rw [moved] at served
      rw [answers, List.sum_cons]
      constructor
      · intro answer member
        rcases List.mem_cons.mp member with rfl | later
        · refine ⟨granted, by omega, ?_⟩
          rw [pointer]
          show arena.arenaPointer + size ≤ _
          omega
        · rcases served.1 answer later with ⟨also, above, below⟩
          exact ⟨also, by omega, by omega⟩
      · rw [List.pairwise_cons]
        refine ⟨?_, served.2⟩
        intro answer later
        have above := (served.1 answer later).2.1
        rw [pointer]
        exact above

/-- Requests which the check grants as it should fit together. -/
theorem fits_of_granted
    (small : arena.arenaCapacity < 2 ^ 64)
    (granted :
      ∀ answer ∈ answers arena sizes, answer.granted = true)
    (bounded :
      ∀ earlier answer later,
        answers arena sizes = earlier ++ answer :: later →
          arena.arenaPointer + (grantedSum earlier + answer.size) ≤
            arena.arenaCapacity) :
    sizes = [] ∨ arena.arenaPointer + sizes.sum < arena.arenaCapacity := by
  induction sizes generalizing arena with
  | nil => exact Or.inl rfl
  | cons size rest induction =>
      right
      have head := bounded [] (answerTo arena size) _ rfl
      change arena.arenaPointer + (0 + size) ≤ arena.arenaCapacity at head
      have passes : Passes arena size :=
        (granted_iff arena size).mp (granted _ (List.mem_cons_self ..))
      rw [Passes, addSizeT_of_lt (by omega)] at passes
      rcases answerTo_of_fits small passes with
        ⟨allowed, -, moved, capacity⟩
      have tail :=
        @induction (answerTo arena size).after
          (by rw [capacity]; exact small)
          (fun answer member =>
            granted answer (List.mem_cons_of_mem _ member))
          (by
            intro earlier answer later split
            have whole :=
              bounded (answerTo arena size :: earlier) answer later
                (by rw [answers, split]; rfl)
            rw [grantedSum_cons_of_granted allowed] at whole
            change arena.arenaPointer + (size + _ + _) ≤ _ at whole
            rw [moved, capacity]
            omega)
      rw [List.sum_cons]
      rcases tail with rfl | fits
      · simpa using passes
      · rw [moved, capacity] at fits
        omega

/-! ## The law -/

/-- The arena before any request. -/
def emptyArena (capacity : Nat) : SArena :=
  { arenaCapacity := capacity }

/-- Requests which fit together are answered lawfully. -/
theorem lawful_of_fits
    {capacity : Nat} (small : capacity < 2 ^ 64)
    (fits : sizes.sum < capacity) :
    Lawful capacity (answers (emptyArena capacity) sizes) := by
  have served :=
    @granted_of_fits (emptyArena capacity) sizes small
      (by rw [emptyArena, Nat.zero_add]; exact fits)
  constructor
  case exact =>
    intro earlier answer later split
    have granted : answer.granted = true := by
      apply (served.1 answer ?_).1
      rw [split]
      exact List.mem_append_right _ (List.mem_cons_self ..)
    refine iff_of_true granted ?_
    -- the sizes granted so far are the sizes so far
    have all : earlier.filter Answer.granted = earlier := by
      rw [List.filter_eq_self]
      intro other member
      apply (served.1 other ?_).1
      rw [split]
      exact List.mem_append_left _ member
    have sizesSplit := congrArg (List.map Answer.size) split
    rw [map_size_answers, List.map_append, List.map_cons] at sizesSplit
    have total := congrArg List.sum sizesSplit
    rw [List.sum_append, List.sum_cons] at total
    rw [grantedSum, all]
    omega
  case inside =>
    intro answer member _
    have below := (served.1 answer member).2.2
    rw [emptyArena, Nat.zero_add] at below
    omega
  case apart =>
    exact served.2.imp fun before _ _ => Or.inl before
  case refused =>
    intro answer member refused
    rw [(served.1 answer member).1] at refused
    cases refused

/-- Requests each of which is too large leave the empty arena as it is. -/
theorem refused_of_large
    {capacity : Nat} (bounded : ∀ size ∈ sizes, size < 2 ^ 64)
    (large : ∀ size ∈ sizes, capacity < size) :
    ∀ answer ∈ answers (emptyArena capacity) sizes,
      answer.granted = false := by
  induction sizes with
  | nil =>
      intro answer member
      cases member
  | cons size rest induction =>
      have sum : addSizeT (emptyArena capacity).arenaPointer size = size := by
        have wide : size < 2 ^ 64 := bounded size (List.mem_cons_self ..)
        rw [emptyArena, addSizeT_of_lt (by simpa using wide), Nat.zero_add]
      have refused : ¬ Passes (emptyArena capacity) size := by
        rw [Passes, sum]
        exact Nat.lt_asymm (large size (List.mem_cons_self ..))
      have same :
          (answerTo (emptyArena capacity) size).after =
            emptyArena capacity := by
        rw [answerTo, sarenaAllocUnchecked_of_not_passes refused]
      intro answer member
      rw [answers, same] at member
      rcases List.mem_cons.mp member with rfl | later
      · exact (refused_iff _ _).mpr refused
      · apply induction ?_ ?_ answer later
        · exact fun other inside =>
            bounded other (List.mem_cons_of_mem _ inside)
        · exact fun other inside =>
            large other (List.mem_cons_of_mem _ inside)

/-- Requests each of which is too large are refused lawfully. -/
theorem lawful_of_large
    {capacity : Nat} (bounded : ∀ size ∈ sizes, size < 2 ^ 64)
    (large : ∀ size ∈ sizes, capacity < size) :
    Lawful capacity (answers (emptyArena capacity) sizes) := by
  have refused := refused_of_large bounded large
  constructor
  case exact =>
    intro earlier answer later split
    have member : answer ∈ answers (emptyArena capacity) sizes := by
      rw [split]
      exact List.mem_append_right _ (List.mem_cons_self ..)
    rw [refused answer member]
    refine iff_of_false Bool.false_ne_true ?_
    rcases exists_of_mem_answers member with ⟨-, -, requested⟩
    have wide := large _ requested
    omega
  case inside =>
    intro answer member granted
    rw [refused answer member] at granted
    cases granted
  case apart =>
    apply List.pairwise_of_forall_mem_list
    intro first inside second _ granted
    rw [refused first inside] at granted
    cases granted
  case refused =>
    intro answer member notGranted
    refine ⟨(unchanged_of_refused member notGranted).1, ?_⟩
    intro other inside granted
    rw [refused other inside] at granted
    cases granted

/-- Under the law, a grant rules out every refusal. -/
theorem Lawful.granted_of_granted
    {capacity : Nat}
    (lawful : Lawful capacity (answers (emptyArena capacity) sizes))
    {granted : Answer}
    (member : granted ∈ answers (emptyArena capacity) sizes)
    (allowed : granted.granted = true) :
    ∀ answer ∈ answers (emptyArena capacity) sizes,
      answer.granted = true := by
  intro answer inside
  by_contra refused
  rw [Bool.not_eq_true] at refused
  -- the first grant begins where a refusal points to
  rcases exists_first_grant member allowed with
    ⟨first, found, given, start⟩
  apply (lawful.refused answer inside refused).2 first found given
  rw [(unchanged_of_refused inside refused).2, start]
  rfl

/--
A sequence of requests is answered lawfully exactly when the sizes sum to less
than the capacity, or every one of them is larger than the capacity.
-/
theorem lawful_iff
    {capacity : Nat} (small : capacity < 2 ^ 64)
    (bounded : ∀ size ∈ sizes, 0 < size ∧ size < 2 ^ 64) :
    Lawful capacity (answers (emptyArena capacity) sizes) ↔
      sizes.sum < capacity ∨ ∀ size ∈ sizes, capacity < size := by
  constructor
  · intro lawful
    by_cases some :
        ∃ answer ∈ answers (emptyArena capacity) sizes,
          answer.granted = true
    · rcases some with ⟨answer, member, allowed⟩
      have granted := lawful.granted_of_granted member allowed
      have fits :=
        @fits_of_granted (emptyArena capacity) sizes small granted
          (by
            intro earlier other later split
            have inside : other ∈ answers (emptyArena capacity) sizes := by
              rw [split]
              exact List.mem_append_right _ (List.mem_cons_self ..)
            have room :=
              (lawful.exact earlier other later split).mp
                (granted other inside)
            show 0 + _ ≤ capacity
            rw [Nat.zero_add]
            exact room)
      rcases fits with rfl | fits
      · cases member
      · left
        rw [emptyArena, Nat.zero_add] at fits
        exact fits
    · right
      intro size requested
      rw [← map_size_answers (emptyArena capacity) sizes] at requested
      rcases List.mem_map.mp requested with ⟨answer, member, rfl⟩
      have refused :
          ∀ other ∈ answers (emptyArena capacity) sizes,
            other.granted = false := by
        intro other inside
        rw [← Bool.not_eq_true]
        exact fun granted => some ⟨other, inside, granted⟩
      rcases List.append_of_mem member with ⟨earlier, later, split⟩
      have nothing : grantedSum earlier = 0 := by
        apply grantedSum_of_refused
        intro other inside
        apply refused other
        rw [split]
        exact List.mem_append_left _ inside
      have room := lawful.exact earlier answer later split
      rw [refused answer member, nothing, Nat.zero_add] at room
      exact Nat.lt_of_not_le fun fits =>
        Bool.false_ne_true (room.mpr fits)
  · rintro (fits | large)
    · exact lawful_of_fits small fits
    · exact lawful_of_large (fun size member => (bounded size member).2) large

theorem lawful_twice :
    Lawful 16 (answers (emptyArena 16) [4, 8]) :=
  (lawful_iff (by decide) (by decide)).mpr (Or.inl (by decide))

/-- A request which fills the empty arena exactly is refused. -/
theorem not_lawful_full :
    ¬ Lawful 16 (answers (emptyArena 16) [16]) := by
  intro lawful
  have granted :=
    (lawful.exact [] (answerTo (emptyArena 16) 16) [] rfl).mpr (by decide)
  have refused : (answerTo (emptyArena 16) 16).granted = false := by
    decide
  rw [granted] at refused
  cases refused

end Wimp.Utility.SimpleArena
