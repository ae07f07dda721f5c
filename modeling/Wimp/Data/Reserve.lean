import Wimp.Data.Table

/-!
# Reserving a slot in the memory of the table

A reservation writes to the table before it asks for the segment, and the
length of the name is not looked at.  The table is taken here as the bytes it
consists of, padding included, so that a name which runs on over the following
slots is seen in all of them.
-/

namespace Wimp.Data.Reserve

open Wimp.Data.Table
open Wimp.Lib.ByteRegion

/-! ## The bytes of the table -/

/-- `TABLE_LENGTH`. -/
def tableLength : Nat :=
  WimpDataSlot.bytes * wimpMaxSharedSlots

/-- The address of a slot in the table. -/
def address (index : SlotIndex) : Nat :=
  WimpDataSlot.bytes * index

/-- The offset of the size in a slot. -/
def sizeOffset : Nat := 8

/-- The offset of the arena in a slot. -/
def arenaOffset : Nat := 16

/-- The bytes of a slot. -/
def slotAt (memory : Bytes) (index : SlotIndex) : Bytes :=
  (memory.drop (address index)).take WimpDataSlot.bytes

/-- The share counter of a slot. -/
def shareCounterAt (memory : Bytes) (index : SlotIndex) : Option Int :=
  int32At memory (address index)

/-- The first slot whose share counter is zero. -/
def findFreeSlot (memory : Bytes) : Option SlotIndex :=
  (List.finRange wimpMaxSharedSlots).find? fun index =>
    shareCounterAt memory index = some 0

/-- `sarena_init` of the arena at an address, with a null region. -/
def sarenaInitAt (memory : Bytes) (arena capacity : Nat) : Option Bytes :=
  if WimpDataSlot.field memory (arena + 8) 8 ≠ 0 ∨
      WimpDataSlot.field memory (arena + 24) 8 ≠ 0 then
    some memory
  else do
    let memory ← splice memory (arena + 8) (toLE 8 capacity)
    let memory ← splice memory arena (toLE 8 0)
    splice memory (arena + 24) (toLE 8 0)

/-- The table, the caller and the success flag behind a reservation. -/
structure Reserved where
  memory : Bytes
  process : Process
  success : Bool
deriving DecidableEq, Repr

/--
`wimp_data_reserve` on the bytes of the table, given what
`wimp_create_fresh_shm` returns; `none` is a write outside the table.
-/
def wimpDataReserveBytes (reservedName : CString) (size : Nat)
    (fresh : ShmResult) (granted : Bool) (memory : Bytes)
    (process : Process) : Option Reserved :=
  match findFreeSlot memory with
  | none => some ⟨memory, process, false⟩
  | some index => do
      let slot := address index
      let memory ←
        splice memory (slot + WimpDataSlot.nameOffset)
          (terminated reservedName.val)
      if fresh.err ∨ fresh.size < size then
        return ⟨memory, process, false⟩
      let memory ← sarenaInitAt memory (slot + arenaOffset) size
      let process :=
        { process with
          dataTableCache :=
            put process.dataTableCache index fresh.handle }
      let shareCounter ← shareCounterAt memory index
      let memory ←
        splice memory slot (toLE 4 (toSizeT (addInt32 shareCounter 1)))
      let memory ← splice memory (slot + sizeOffset) (toLE 8 size)
      return ⟨memory, process.cacheName reservedName index granted, true⟩

/--
A failure leaves everything as it was; a success changes one free slot, which
then carries the name with its terminator.
-/
def Atomic (reservedName : CString) (memory : Bytes) (process : Process)
    (result : Option Reserved) : Prop :=
  ∃ reserved,
    result = some reserved ∧
      (reserved.success = false →
        reserved.memory = memory ∧ reserved.process = process) ∧
      (reserved.success = true →
        ∃ index,
          shareCounterAt memory index = some 0 ∧
            slotAt reserved.memory index ≠ slotAt memory index ∧
            (∀ other, other ≠ index →
              slotAt reserved.memory other = slotAt memory other) ∧
            terminated reservedName.val <+:
              (slotAt reserved.memory index).drop WimpDataSlot.nameOffset)

/-! ## Writes to one slot -/

theorem address_add_le (index : SlotIndex) :
    address index + WimpDataSlot.bytes ≤ tableLength := by
  have below := index.isLt
  simp only [address, WimpDataSlot.bytes, WimpDataSlot.nameOffset,
    wimpSharedSlotMaxNameBytes, tableLength, wimpMaxSharedSlots] at below ⊢
  omega

/-- A write inside a slot leaves the other slots as they are. -/
theorem slotAt_of_splice
    {memory source result : Bytes} {offset : Nat} {index : SlotIndex}
    (copied : splice memory offset source = some result)
    (above : address index ≤ offset)
    (below :
      offset + source.length ≤ address index + WimpDataSlot.bytes)
    {other : SlotIndex} (different : other ≠ index) :
    slotAt result other = slotAt memory other := by
  apply window_of_splice copied
  have apart : (other : Nat) < index ∨ (index : Nat) < other := by
    rcases Nat.lt_or_gt_of_ne (Fin.val_ne_of_ne different) with lower | upper
    · exact Or.inl lower
    · exact Or.inr upper
  simp only [address, WimpDataSlot.bytes, WimpDataSlot.nameOffset,
    wimpSharedSlotMaxNameBytes] at above below ⊢
  omega

/-- What follows the write stays as it is. -/
theorem drop_of_splice
    {memory source result : Bytes} {offset start : Nat}
    (copied : splice memory offset source = some result)
    (behind : offset + source.length ≤ start) :
    result.drop start = memory.drop start := by
  have window :=
    @window_of_splice memory source result offset copied start
      memory.length (Or.inr behind)
  have length := length_of_splice copied
  rw [List.take_of_length_le, List.take_of_length_le] at window
  · exact window
  · rw [List.length_drop]
    omega
  · rw [List.length_drop]
    omega

/-- A write inside the table succeeds. -/
theorem exists_splice
    {memory source : Bytes} {offset : Nat}
    (fits : offset + source.length ≤ memory.length) :
    ∃ result, splice memory offset source = some result :=
  ⟨_, if_pos fits⟩

/--
Only the part of a slot between its share counter and its name was written to.
-/
structure Confined (index : SlotIndex) (memory after : Bytes) : Prop where
  length : after.length = memory.length
  others :
    ∀ other, other ≠ index → slotAt after other = slotAt memory other
  counter : shareCounterAt after index = shareCounterAt memory index
  name :
    after.drop (address index + WimpDataSlot.nameOffset) =
      memory.drop (address index + WimpDataSlot.nameOffset)

theorem Confined.refl (index : SlotIndex) (memory : Bytes) :
    Confined index memory memory :=
  ⟨rfl, fun _ _ => rfl, rfl, rfl⟩

theorem Confined.trans
    {index : SlotIndex} {memory middle after : Bytes}
    (first : Confined index memory middle)
    (second : Confined index middle after) :
    Confined index memory after :=
  ⟨second.length.trans first.length,
    fun other different =>
      (second.others other different).trans (first.others other different),
    second.counter.trans first.counter, second.name.trans first.name⟩

/-- A write behind the share counter leaves it as it is. -/
theorem shareCounterAt_of_splice
    {memory source result : Bytes} {offset : Nat} {index : SlotIndex}
    (copied : splice memory offset source = some result)
    (above : address index + 4 ≤ offset) :
    shareCounterAt result index = shareCounterAt memory index := by
  rw [shareCounterAt, int32At, slice, length_of_splice copied,
    window_of_splice copied (Or.inl above)]
  rfl

theorem confined_of_splice
    {memory source result : Bytes} {offset : Nat} {index : SlotIndex}
    (copied : splice memory offset source = some result)
    (above : address index + 4 ≤ offset)
    (below :
      offset + source.length ≤
        address index + WimpDataSlot.nameOffset) :
    Confined index memory result := by
  refine ⟨length_of_splice copied, ?_,
    shareCounterAt_of_splice copied above, drop_of_splice copied below⟩
  intro other different
  apply slotAt_of_splice copied (by omega) _ different
  rw [WimpDataSlot.bytes]
  omega

/-- The arena of a slot is initialised inside the slot. -/
theorem sarenaInitAt_spec
    {memory : Bytes} (sized : memory.length = tableLength)
    (index : SlotIndex) (capacity : Nat) :
    ∃ after,
      sarenaInitAt memory (address index + arenaOffset) capacity =
          some after ∧
        Confined index memory after := by
  have room := address_add_le index
  rw [← sized] at room
  unfold sarenaInitAt
  split
  · exact ⟨memory, rfl, .refl index memory⟩
  · simp only [arenaOffset, WimpDataSlot.bytes, WimpDataSlot.nameOffset,
      wimpSharedSlotMaxNameBytes] at room ⊢
    rcases @exists_splice memory (toLE 8 capacity)
      (address index + 16 + 8) (by rw [length_toLE]; omega) with
      ⟨first, firstCopied⟩
    have firstLength := length_of_splice firstCopied
    rcases @exists_splice first (toLE 8 0) (address index + 16)
      (by rw [length_toLE]; omega) with ⟨second, secondCopied⟩
    have secondLength := length_of_splice secondCopied
    rcases @exists_splice second (toLE 8 0) (address index + 16 + 24)
      (by rw [length_toLE]; omega) with ⟨third, thirdCopied⟩
    refine ⟨third, ?_, ?_⟩
    · rw [firstCopied]
      show ((splice first (address index + 16) (toLE 8 0)).bind _) = _
      rw [secondCopied]
      exact thirdCopied
    · have inArena (offset value : Nat) (small : offset ≤ 24) :
          address index + 4 ≤ address index + 16 + offset ∧
            address index + 16 + offset + (toLE 8 value).length ≤
              address index + WimpDataSlot.nameOffset := by
        rw [length_toLE, WimpDataSlot.nameOffset]
        omega
      have capacityPlace := inArena 8 capacity (by omega)
      have sizePlace := inArena 0 0 (by omega)
      have dataPlace := inArena 24 0 (by omega)
      exact
        (confined_of_splice firstCopied capacityPlace.1
          capacityPlace.2).trans
          ((confined_of_splice secondCopied sizePlace.1
            sizePlace.2).trans
            (confined_of_splice thirdCopied dataPlace.1 dataPlace.2))

/-! ## One reservation -/

theorem shareCounterAt_of_findFreeSlot
    {memory : Bytes} {index : SlotIndex}
    (found : findFreeSlot memory = some index) :
    shareCounterAt memory index = some 0 := by
  simpa using List.find?_some found

/-- A name which fits is reserved in the free slot alone. -/
theorem atomic_of_fits
    {reservedName : CString} {size : Nat} {fresh : ShmResult}
    {granted : Bool} {memory : Bytes} {process : Process}
    {index : SlotIndex}
    (sized : memory.length = tableLength)
    (found : findFreeSlot memory = some index)
    (obtained : ¬ (fresh.err ∨ fresh.size < size))
    (fits : reservedName.val.length < wimpSharedSlotMaxNameBytes) :
    Atomic reservedName memory process
      (wimpDataReserveBytes reservedName size fresh granted memory
        process) := by
  have room := address_add_le index
  rw [← sized] at room
  simp only [WimpDataSlot.bytes, WimpDataSlot.nameOffset,
    wimpSharedSlotMaxNameBytes] at room fits
  have free := shareCounterAt_of_findFreeSlot found
  rcases @exists_splice memory (terminated reservedName.val)
    (address index + WimpDataSlot.nameOffset)
    (by
      rw [length_terminated, WimpDataSlot.nameOffset]
      omega) with ⟨named, nameCopied⟩
  have namedLength := length_of_splice nameCopied
  rcases sarenaInitAt_spec (namedLength.trans sized) index size with
    ⟨ready, arenaDone, arenaConfined⟩
  have readyLength := arenaConfined.length.trans namedLength
  have before : shareCounterAt ready index = some 0 := by
    rw [arenaConfined.counter, ← free]
    apply shareCounterAt_of_splice nameCopied
    rw [WimpDataSlot.nameOffset]
    omega
  rcases @exists_splice ready (toLE 4 (toSizeT (addInt32 0 1)))
    (address index) (by rw [length_toLE]; omega) with
    ⟨counted, counterCopied⟩
  have countedLength := length_of_splice counterCopied
  rcases @exists_splice counted (toLE 8 size)
    (address index + sizeOffset)
    (by rw [length_toLE, sizeOffset]; omega) with ⟨after, sizeCopied⟩
  have sizeConfined : Confined index counted after := by
    apply confined_of_splice sizeCopied
    · rw [sizeOffset]
      omega
    · rw [length_toLE, sizeOffset, WimpDataSlot.nameOffset]
      omega
  have result :
      ∃ next,
        wimpDataReserveBytes reservedName size fresh granted memory
          process = some ⟨after, next, true⟩ := by
    simp only [wimpDataReserveBytes, found, Option.bind_eq_bind,
      nameCopied, Option.bind_some, if_neg obtained, arenaDone, before,
      counterCopied, sizeCopied, Option.pure_def, Option.some.injEq]
    exact ⟨_, rfl⟩
  rcases result with ⟨next, result⟩
  refine ⟨⟨after, next, true⟩, result, ?_, ?_⟩
  · intro failed
    cases failed
  · intro _
    refine ⟨index, free, ?_, ?_, ?_⟩
    · -- the counter is one behind the reservation
      have one : shareCounterAt after index = some 1 := by
        have start := prefix_drop_of_splice counterCopied
        rw [List.prefix_iff_eq_take, length_toLE] at start
        rw [sizeConfined.counter, shareCounterAt, int32At, slice,
          if_pos (by omega), ← start]
        decide +kernel
      intro same
      have equal :
          shareCounterAt after index = shareCounterAt memory index := by
        have word (bytes : Bytes) (sized : bytes.length = memory.length) :
            shareCounterAt bytes index =
              some (toInt32 (ofLE ((slotAt bytes index).take 4))) := by
          rw [shareCounterAt, int32At, slice, if_pos (by omega), slotAt,
            List.take_take]
          rfl
        rw [word memory rfl, word after _, same]
        rw [length_of_splice sizeCopied, countedLength, readyLength]
      rw [one, free] at equal
      cases equal
    · intro other different
      rw [sizeConfined.others other different,
        slotAt_of_splice counterCopied (Nat.le_refl _) _ different,
        arenaConfined.others other different,
        slotAt_of_splice nameCopied (Nat.le_add_right ..) _ different]
      · rw [length_terminated, WimpDataSlot.bytes,
          wimpSharedSlotMaxNameBytes]
        omega
      · rw [length_toLE, WimpDataSlot.bytes, WimpDataSlot.nameOffset]
        omega
    · have tail :
          after.drop (address index + WimpDataSlot.nameOffset) =
            named.drop (address index + WimpDataSlot.nameOffset) := by
        rw [sizeConfined.name, drop_of_splice counterCopied _,
          arenaConfined.name]
        rw [length_toLE, WimpDataSlot.nameOffset]
        omega
      have start := prefix_drop_of_splice nameCopied
      rw [slotAt, List.drop_take, List.drop_drop, tail,
        List.prefix_take_iff]
      refine ⟨start, ?_⟩
      rw [length_terminated, WimpDataSlot.bytes,
        wimpSharedSlotMaxNameBytes]
      omega

/--
A reservation is atomic exactly when there is no free slot, or the segment is
there and the name with its terminator fits into the field, or the segment is
not there and the bytes from the name of the free slot on are those of the
terminated name already.
-/
theorem reserve_atomic_iff
    {memory : Bytes} (sized : memory.length = tableLength)
    (reservedName : CString) (size : Nat) (fresh : ShmResult)
    (granted : Bool) (process : Process) :
    Atomic reservedName memory process
        (wimpDataReserveBytes reservedName size fresh granted memory
          process) ↔
      ∀ index, findFreeSlot memory = some index →
        if fresh.err ∨ fresh.size < size then
          terminated reservedName.val <+:
            memory.drop (address index + WimpDataSlot.nameOffset)
        else reservedName.val.length < wimpSharedSlotMaxNameBytes := by
  cases found : findFreeSlot memory with
  | none =>
      refine iff_of_true ?_ (fun index some => by cases some)
      refine ⟨⟨memory, process, false⟩, ?_, fun _ => ⟨rfl, rfl⟩, ?_⟩
      · simp only [wimpDataReserveBytes, found]
      · intro success
        cases success
  | some index =>
      simp only [Option.some.injEq, forall_eq']
      by_cases refused : fresh.err ∨ fresh.size < size
      · rw [if_pos refused]
        have inside :
            address index + WimpDataSlot.nameOffset ≤ memory.length := by
          have room := address_add_le index
          rw [WimpDataSlot.bytes] at room
          omega
        rw [← splice_eq_some_self_iff _ _ inside]
        constructor
        · rintro ⟨reserved, result, unchanged, -⟩
          simp only [wimpDataReserveBytes, found,
            Option.bind_eq_bind, Option.bind_eq_some_iff,
            if_pos refused, Option.pure_def, Option.some.injEq] at result
          rcases result with ⟨named, copied, rfl⟩
          have same : named = memory := (unchanged rfl).1
          rw [copied, same]
        · intro same
          refine ⟨⟨memory, process, false⟩, ?_, fun _ => ⟨rfl, rfl⟩, ?_⟩
          · simp only [wimpDataReserveBytes, found, Option.bind_eq_bind,
              same, Option.bind_some, if_pos refused, Option.pure_def]
          · intro success
            cases success
      · rw [if_neg refused]
        constructor
        · rintro ⟨reserved, result, -, success⟩
          simp only [wimpDataReserveBytes, found,
            Option.bind_eq_bind, Option.bind_eq_some_iff,
            if_neg refused, Option.pure_def, Option.some.injEq] at result
          rcases result with
            ⟨_, _, _, _, _, _, _, _, after, _, rfl⟩
          rcases success rfl with ⟨slot, -, -, -, named⟩
          -- the name field has no room for a longer name
          change _ <+: (slotAt after slot).drop _ at named
          have short := named.length_le
          rw [length_terminated, List.length_drop] at short
          have bound : (slotAt after slot).length ≤ WimpDataSlot.bytes :=
            List.length_take_le ..
          rw [WimpDataSlot.bytes] at bound
          omega
        · exact atomic_of_fits sized found refused

/-- The table before any reservation. -/
def blankMemory : Bytes :=
  List.replicate tableLength 0

/-- A short name and a segment of the size asked for. -/
theorem reserve_atomic_short :
    Atomic (.ofBytes [97]) blankMemory {}
      (wimpDataReserveBytes (.ofBytes [97]) 8 ⟨some (1, 8), false⟩ true
        blankMemory {}) := by
  apply (reserve_atomic_iff (List.length_replicate ..) _ _ _ _ _).mpr
  intro index _
  rw [if_neg (by decide)]
  decide

/-- The name stays in the table when the segment cannot be created. -/
theorem not_reserve_atomic_failed :
    ¬ Atomic (.ofBytes [97]) blankMemory {}
      (wimpDataReserveBytes (.ofBytes [97]) 8 ⟨none, true⟩ true
        blankMemory {}) := by
  have written :
      (wimpDataReserveBytes (.ofBytes [97]) 8 ⟨none, true⟩ true
        blankMemory {}).map
          (fun reserved =>
            (reserved.success, decide (reserved.memory = blankMemory))) =
        some (false, false) := by
    decide +kernel
  rintro ⟨reserved, result, unchanged, -⟩
  rw [result, Option.map_some, Option.some.injEq, Prod.mk.injEq,
    decide_eq_false_iff_not] at written
  exact written.2 (unchanged written.1).1

end Wimp.Data.Reserve
