import Wimp.Data.Exclusion

/-!
# Calls on the table while sessions are open

A guarded call leaves the entries and handles which the open sessions of its
caller use.  A slot which comes into use gets a segment of its own, and every
link leads to the segment of its slot, so that all the processes of a slot
take the same lock.
-/

namespace Wimp.Data.Exclusion

open Wimp.Lib.ByteRegion
open Wimp.Lib.SharedMemory
open Wimp.Utility.HashTable
open Wimp.Data.Registry
open Wimp.Data.RefCount (Holds)
open Wimp.Data.Segments
  (SystemMemory TableKept openForLink_of_found openForLink_of_idle pShmFree
    pShmNew pShmNew_of_present wimpCreateFreshShm)
open Wimp.Data.Sessions
open Wimp.Data.Table
  (DataTable PShm Process SlotIndex getElem_put_of_ne getElem_put_self put)

variable {count : Nat} {config next : Config count}

/-! ## The segments of the handles -/

/-- Handles keep their segments, and no segment is lost. -/
structure Extends (memory next : SystemMemory) : Prop where
  handles :
    ∀ (handle : Nat) (record : Handle CString),
      memory.handles[handle]? = some record →
        next.handles[handle]? = some record
  segments : memory.segments.length ≤ next.segments.length

theorem Extends.refl (memory : SystemMemory) : Extends memory memory :=
  ⟨fun _ _ => id, Nat.le_refl _⟩

theorem extends_of_away
    {name : CString} {memory following : SystemMemory}
    (away : Away name memory following) : Extends memory following :=
  ⟨away.handles, away.length_segments_le⟩

theorem Extends.segmentAt
    {memory following : SystemMemory} (grows : Extends memory following)
    {shm : Option PShm} {segment : Nat}
    (behind : segmentAt memory shm = some segment) :
    segmentAt following shm = some segment := by
  rcases Option.map_eq_some_iff.mp behind with ⟨record, opened, rfl⟩
  rcases Option.bind_eq_some_iff.mp opened with ⟨handle, rfl, found⟩
  show (following.handles[handle]?).map Handle.segment = _
  rw [grows.handles handle record found]
  rfl

/-! ## Calls on the table -/

/--
What a call on the table does to the sessions: memory only grows, the caller
keeps what its sessions use, an entry which it gets leads to the segment of
the slot, and a slot which comes into use has a segment of its own.
-/
structure Proceeds (config : Config count) (base : Segments.Config count)
    (caller : Fin count) (slot : SlotIndex) (following : Table.WimpDataSlot)
    (process : Process) (reservation : Option (CString × Nat)) :
    Prop where
  effect :
    Effect config.base.base base.base caller slot following process
      reservation
  sound : Sound base.memory
  tableKept : TableKept base
  grows : Extends config.base.memory base.memory
  keeps :
    process.dead = false → ∀ session ∈ config.sessions caller, ∀ other,
      indexOf (config.process caller) session.name.val = some other →
        indexOf process session.name.val = some other ∧
          process.dataTableCache[other] =
            (config.process caller).dataTableCache[other]
  attached :
    process.dead = false →
      (config.process caller).isTableLinked = true →
        process.isTableLinked = true
  reaches :
    process.dead = false → ∀ (name : Bytes) (other : SlotIndex),
      indexOf process name = some other →
        (indexOf (config.process caller) name = some other ∧
            process.dataTableCache[other] =
              (config.process caller).dataTableCache[other]) ∨
          other = slot ∧
            (Used config.table[slot] →
              segmentAt base.memory process.dataTableCache[slot] =
                some (config.lifetimes slot).segment)
  fresh :
    ¬ Used config.table[slot] → Used following →
      ∃ segment,
        segmentAt base.memory process.dataTableCache[slot] =
            some segment ∧
          config.base.memory.segments.length ≤ segment ∧
            segment < base.memory.segments.length

section Calls

variable {base : Segments.Config count} {caller : Fin count}
variable {slot : SlotIndex} {following : Table.WimpDataSlot}
variable {process : Process} {reservation : Option (CString × Nat)}

theorem Proceeds.process_of_ne
    (proceeds :
      Proceeds config base caller slot following process reservation)
    {other : Fin count} (different : other ≠ caller) :
    (config.proceed base caller).process other = config.process other :=
  proceeds.effect.process_of_ne different

theorem Proceeds.process_self
    (proceeds :
      Proceeds config base caller slot following process reservation) :
    (config.proceed base caller).process caller = process :=
  proceeds.effect.process_self

/-- A slot which was in use goes on with its life. -/
theorem lifetime_of_used
    {other : SlotIndex} (used : Used config.table[other]) :
    (config.proceed base caller).lifetimes other =
      config.lifetimes other := by
  show begun config.base base caller config.lifetimes other = _
  rw [begun, if_neg]
  exact fun fresh => fresh.1 used

/-- A slot in use after a call was in use before, or is new. -/
theorem Proceeds.used_cases
    (proceeds :
      Proceeds config base caller slot following process reservation)
    (registered : Registered config.base.base) {other : SlotIndex}
    (used : Used (config.proceed base caller).table[other]) :
    (Used config.table[other] ∧
        (config.proceed base caller).table[other].dataArena =
          config.table[other].dataArena) ∨
      other = slot ∧ ¬ Used config.table[slot] ∧ Used following ∧
        ∃ segment,
          segmentAt base.memory process.dataTableCache[slot] =
              some segment ∧
            config.base.memory.segments.length ≤ segment ∧
              segment < base.memory.segments.length ∧
                (config.proceed base caller).lifetimes slot =
                  ⟨segment,
                    content
                      (config.proceed base caller).table[slot].dataArena,
                    []⟩ := by
  have entry : (config.proceed base caller).table[other] = _ :=
    proceeds.effect.getElem other
  by_cases same : other = slot
  · subst same
    rw [if_pos rfl] at entry
    have used_following : Used following := entry ▸ used
    rcases proceeds.effect.used_cases registered used_following with
      ⟨before, content⟩ | ⟨name, size, reserves, -, -, -⟩
    · left
      refine ⟨before, ?_⟩
      rw [entry]
      exact content.dataArena
    · right
      have free : ¬ Used config.table[other] := by
        have effect := proceeds.effect
        rw [reserves] at effect
        exact effect.of_reservation.2.1
      rcases proceeds.fresh free used_following with
        ⟨segment, behind, new, made⟩
      refine ⟨rfl, free, used_following, segment, behind, new, made, ?_⟩
      show begun config.base base caller config.lifetimes other = _
      rw [begun, if_pos ⟨free, used⟩]
      have own : base.base.processes caller = process :=
        proceeds.process_self
      rw [own, behind]
      rfl
  · rw [if_neg same] at entry
    left
    rw [entry] at used ⊢
    exact ⟨used, rfl⟩

/-- The phase of a slot which was in use stays. -/
theorem phaseOf_of_used
    {other : SlotIndex} (used : Used config.table[other]) :
    phaseOf (config.proceed base caller) other = phaseOf config other := by
  rw [phaseOf, lifetime_of_used used, phaseOf]

/-- A process finds its entries in slots which are in use. -/
theorem Invariant.used_of_found
    (invariant : Invariant config) {owner : Fin count} {name : Bytes}
    {other : SlotIndex} (alive : (config.process owner).dead = false)
    (found : indexOf (config.process owner) name = some other) :
    Used config.table[other] :=
  invariant.registered.used ⟨alive, Or.inr ⟨name, found⟩⟩

/-- A session goes on through a call which keeps what it uses. -/
theorem InSession.proceed
    {owner : Fin count} {session : Session} {other : SlotIndex}
    (inSession : InSession config owner session other)
    (used : Used config.table[other])
    (found :
      indexOf ((config.proceed base caller).process owner)
          session.name.val = some other)
    (handle :
      ((config.proceed base caller).process owner).dataTableCache[other] =
        (config.process owner).dataTableCache[other]) :
    InSession (config.proceed base caller) owner session other := by
  constructor
  case found => exact found
  case handle => rw [handle, inSession.handle]
  case locked =>
    show config.locked ((config.proceed base caller).lifetimes other).segment
      = true
    rw [lifetime_of_used used]
    exact inSession.locked
  case busy =>
    rw [phaseOf_of_used used]
    exact inSession.busy

/-- A call on the table keeps the invariant. -/
theorem Invariant.of_proceeds
    (invariant : Invariant config)
    (proceeds :
      Proceeds config base caller slot following process reservation) :
    Invariant (config.proceed base caller) := by
  have registered : Registered base.base :=
    invariant.registered.of_effect slot proceeds.effect
  have wasAlive : (config.process caller).dead = false :=
    proceeds.effect.alive
  have cases {other : SlotIndex}
      (used : Used (config.proceed base caller).table[other]) :=
    proceeds.used_cases invariant.registered used
  constructor
  case registered => exact registered
  case sound => exact proceeds.sound
  case tableKept => exact proceeds.tableKept
  case made =>
    intro other used
    rcases cases used with
      ⟨before, -⟩ | ⟨rfl, -, -, segment, -, -, made, life⟩
    · rw [lifetime_of_used before]
      exact Nat.lt_of_lt_of_le (invariant.made other before)
        proceeds.grows.segments
    · rw [life]
      exact made
  case apart =>
    intro first second usedFirst usedSecond same
    rcases cases usedFirst with
      ⟨before, -⟩ | ⟨rfl, -, -, segment, -, new, -, life⟩
    · rcases cases usedSecond with
        ⟨beforeSecond, -⟩ | ⟨rfl, -, -, segment, -, new, -, life⟩
      · rw [lifetime_of_used before, lifetime_of_used beforeSecond] at same
        exact invariant.apart first second before beforeSecond same
      · rw [lifetime_of_used before, life] at same
        have old := invariant.made first before
        have equal : (config.lifetimes first).segment = segment := same
        omega
    · rcases cases usedSecond with
        ⟨beforeSecond, -⟩ | ⟨rfl, -, -, other, -, -, -, -⟩
      · rw [life, lifetime_of_used beforeSecond] at same
        have old := invariant.made second beforeSecond
        have equal : segment = (config.lifetimes second).segment := same
        omega
      · rfl
  case linked =>
    intro owner name other alive found
    by_cases own : owner = caller
    · subst own
      rw [proceeds.process_self] at alive found ⊢
      rcases proceeds.reaches alive name other found with
        ⟨before, cache⟩ | ⟨rfl, behind⟩
      · have used := invariant.used_of_found wasAlive before
        rw [cache, lifetime_of_used used]
        exact proceeds.grows.segmentAt
          (invariant.linked owner name other wasAlive before)
      · have used : Used (config.proceed base owner).table[other] := by
          have self : base.base.processes owner = process :=
            proceeds.process_self
          have joins : Linked (base.base.processes owner) other := by
            rw [self]
            exact ⟨alive, Or.inr ⟨name, found⟩⟩
          exact registered.used joins
        rcases cases used with
          ⟨before, -⟩ | ⟨-, -, -, segment, reached, -, -, life⟩
        · rw [lifetime_of_used before]
          exact behind before
        · rw [life]
          exact reached
    · rw [proceeds.process_of_ne own] at alive found ⊢
      have used := invariant.used_of_found alive found
      rw [lifetime_of_used used]
      exact proceeds.grows.segmentAt
        (invariant.linked owner name other alive found)
  case lockedMade =>
    intro segment locked
    exact Nat.lt_of_lt_of_le (invariant.lockedMade segment locked)
      proceeds.grows.segments
  case inside =>
    intro owner alive session member
    by_cases own : owner = caller
    · subst own
      rw [proceeds.process_self] at alive
      rcases invariant.inside owner wasAlive session member with
        ⟨attached, other, inSession⟩
      have used := invariant.used_of_found wasAlive inSession.found
      rcases proceeds.keeps alive session member other inSession.found with
        ⟨found, cache⟩
      rw [proceeds.process_self]
      refine ⟨proceeds.attached alive attached, other, ?_⟩
      apply inSession.proceed used
      · rw [proceeds.process_self]
        exact found
      · rw [proceeds.process_self]
        exact cache
    · have unchanged := proceeds.process_of_ne own
      rw [unchanged] at alive
      rcases invariant.inside owner alive session member with
        ⟨attached, other, inSession⟩
      have used := invariant.used_of_found alive inSession.found
      rw [unchanged]
      refine ⟨attached, other, ?_⟩
      apply inSession.proceed used
      · rw [unchanged]
        exact inSession.found
      · rw [unchanged]
  case single =>
    intro owner alive
    by_cases own : owner = caller
    · subst own
      rw [proceeds.process_self] at alive ⊢
      have same :
          ((config.sessions owner).map fun session =>
              indexOf process session.name.val) =
            (config.sessions owner).map fun session =>
              indexOf (config.process owner) session.name.val := by
        apply List.map_congr_left
        intro session member
        rcases (invariant.inside owner wasAlive session member).2 with
          ⟨other, inSession⟩
        rw [inSession.found]
        exact (proceeds.keeps alive session member other
          inSession.found).1
      show ((config.sessions owner).map _).Nodup
      rw [same]
      exact invariant.single owner wasAlive
    · rw [proceeds.process_of_ne own] at alive ⊢
      exact invariant.single owner alive
  case serial =>
    intro other used
    rcases cases used with ⟨before, -⟩ | ⟨rfl, -, -, segment, -, -, -, life⟩
    · rw [lifetime_of_used before]
      exact invariant.serial other before
    · rw [life]
      trivial
  case resting =>
    intro other used arena idle
    rcases cases used with
      ⟨before, kept⟩ | ⟨rfl, -, -, segment, -, -, -, life⟩
    · rw [phaseOf_of_used before] at idle
      rw [kept]
      exact invariant.resting other before arena idle
    · rw [phaseOf, life] at idle
      cases idle
      rfl
  case busyLocked =>
    intro other used owner arena busy
    rcases cases used with ⟨before, -⟩ | ⟨rfl, -, -, segment, -, -, -, life⟩
    · rw [phaseOf_of_used before] at busy
      rw [lifetime_of_used before]
      exact invariant.busyLocked other before owner arena busy
    · rw [phaseOf, life] at busy
      cases busy

end Calls

/-! ## The calls, one by one -/

section Kinds

variable {base : Segments.Config count} {caller : Fin count}
variable {system : System CString}

/-- No call but detaching takes the table from an alive process. -/
theorem attached_of_step
    {before after : Table.Config count} {action : Table.Action count}
    (stays : ∀ process, action ≠ .unlinkFromProcess process)
    (stepped : Table.step before action = some after)
    {process : Fin count}
    (attached : (before.processes process).isTableLinked = true) :
    (after.processes process).isTableLinked = true := by
  have called {caller : Fin count}
      {operation : DataTable → Process → Table.Outcome}
      (keeps : ∀ table process,
        (operation table process).process.isTableLinked =
          process.isTableLinked)
      (ran : before.call caller operation = some after) :
      (after.processes process).isTableLinked = true := by
    rcases call_cases ran with ⟨-, -, processes⟩ | ⟨-, -, processes⟩
    · rw [processes]
      by_cases own : process = caller
      · subst own
        rw [Function.update_self]
        exact attached
      · rw [Function.update_of_ne own]
        exact attached
    · rw [processes]
      by_cases own : process = caller
      · subst own
        rw [Function.update_self]
        exact (keeps _ _).trans attached
      · rw [Function.update_of_ne own]
        exact attached
  unfold Table.step at stepped
  split at stepped
  · cases stepped
  cases action with
  | linkToProcess caller =>
      cases stepped
      show (Function.update before.processes caller _ process).isTableLinked
        = true
      by_cases own : process = caller
      · subst own
        rw [Function.update_self, Table.wimpDataLinkToProcess,
          if_pos attached]
        exact attached
      · rw [Function.update_of_ne own]
        exact attached
  | reserve caller name size fresh granted =>
      apply called _ stepped
      intro table process
      unfold Table.wimpDataReserve
      repeat' split
      all_goals rfl
  | linkToData caller name opened granted =>
      apply called _ stepped
      intro table process
      unfold Table.wimpDataLinkToData
      repeat' split
      all_goals rfl
  | unlinkFromData caller name =>
      apply called _ stepped
      intro table process
      unfold Table.wimpDataUnlinkFromData
      dsimp only
      repeat' split
      all_goals rfl
  | unlinkFromProcess caller => exact absurd rfl (stays caller)

/-- A call which only kills its caller, or leaves it as it was. -/
theorem proceeds_of_idle
    {process : Process}
    (idle : Idle config.base.base base.base caller process)
    (sound : Sound base.memory) (tableKept : TableKept base)
    (grows : Extends config.base.memory base.memory)
    (attached :
      (config.process caller).isTableLinked = true →
        process.isTableLinked = true) :
    Proceeds config base caller 0 config.table[(0 : SlotIndex)] process
      none := by
  have index (name : Bytes) :
      indexOf process name = indexOf (config.process caller) name := by
    rw [indexOf, idle.map]
    rfl
  constructor
  case effect => exact idle.effect
  case sound => exact sound
  case tableKept => exact tableKept
  case grows => exact grows
  case keeps =>
    intro _ session member other found
    rw [index, idle.cache]
    exact ⟨found, rfl⟩
  case attached => exact fun _ => attached
  case reaches =>
    intro _ name other found
    rw [index] at found
    rw [idle.cache]
    exact Or.inl ⟨found, rfl⟩
  case fresh => exact fun free used => absurd used free

/-- An entry which is there is not hidden by a new one. -/
theorem indexOf_cacheName_of_found
    {process : Process} {name : CString} {slot found : SlotIndex}
    {granted : Bool} {other : Bytes}
    (present : indexOf process other = some found) :
    indexOf (process.cacheName name slot granted) other = some found := by
  unfold indexOf Process.cacheName
  rcases eq_or_ne other name.val with rfl | different
  · have there :
        (hashStringFind process.dataTableCacheMap name.val).isSome := by
      rw [← Option.isSome_map]
      exact Option.isSome_of_eq_some present
    rw [hashStringAdd, if_pos there]
    exact present
  · rw [hashStringFind_add_of_ne _ different]
    exact present

/-- A segment which a reservation can use is a new one. -/
theorem length_le_of_wimpCreateFreshShm
    {first second : Bool} {memory : SystemMemory} {name : CString}
    {size : Nat}
    (succeeds :
      Succeeds
        (wimpCreateFreshShm system memory name size first second).2 size) :
    ∃ segment,
      segmentAt
          (wimpCreateFreshShm system memory name size first second).1
          (wimpCreateFreshShm system memory name size first
            second).2.handle =
        some segment ∧
      memory.segments.length ≤ segment ∧
        segment <
          (wimpCreateFreshShm system memory name size first
            second).1.segments.length := by
  rcases Segments.wimpCreateFreshShm_of_succeeds system name size first
      second succeeds with
    ⟨-, handle, segment, owned, fresh, opened, -, made, new, -⟩
  refine ⟨segment, ?_, new, (List.getElem?_eq_some_iff.mp made).1⟩
  rw [fresh, segmentAt, Option.bind_some, opened]
  rfl

/-- An idle call leaves the segments alone. -/
theorem Invariant.proceeds_of_step
    (invariant : Invariant config) {tables : Table.Config count}
    {process : Process} {action : Table.Action count}
    (stays : ∀ process, action ≠ .unlinkFromProcess process)
    (stepped : Table.step config.base.base action = some tables)
    (idle : Idle config.base.base tables caller process) :
    Proceeds config { config.base with base := tables } caller 0
      config.table[(0 : SlotIndex)] process none := by
  have kept (attached : (config.process caller).isTableLinked = true) :
      process.isTableLinked = true := by
    have still := attached_of_step stays stepped attached
    rwa [idle.effect.process_self] at still
  exact @proceeds_of_idle _ config { config.base with base := tables } caller
    process idle invariant.sound
    (invariant.tableKept.of_idle invariant.registered idle)
    (Extends.refl _) kept

/-- A call which does nothing. -/
theorem Invariant.proceeds_self
    (invariant : Invariant config)
    (alive : (config.process caller).dead = false) :
    Proceeds config config.base caller 0 config.table[(0 : SlotIndex)]
      (config.process caller) none :=
  proceeds_of_idle
    (invariant.registered.idle alive
      (Function.update_eq_self caller config.base.base.processes).symm
      rfl rfl rfl)
    invariant.sound invariant.tableKept (Extends.refl _) id

/-- Attaching opens the table, and gives no handle of a slot. -/
theorem Invariant.proceeds_linkToProcess
    (invariant : Invariant config)
    (alive : (config.process caller).dead = false) {opens : Bool}
    (linked : config.base.linkToProcess system caller opens = some base) :
    ∃ slot following process reservation,
      Proceeds config base caller slot following process reservation := by
  have tableKept :=
    invariant.tableKept.of_linkToProcess invariant.registered alive linked
  rw [invariant.tableKept.linkToProcess_eq alive] at linked
  split at linked
  · cases linked
    exact ⟨_, _, _, _, invariant.proceeds_self alive⟩
  split at linked
  case isFalse =>
    cases linked
    exact ⟨_, _, _, _, invariant.proceeds_self alive⟩
  cases linked
  refine
    ⟨0, config.table[(0 : SlotIndex)],
      Table.wimpDataLinkToProcess (config.process caller), none, ?_⟩
  constructor
  case effect => exact effect_of_linkToProcess invariant.registered alive
  case sound =>
    exact Segments.sound_pShmNew system config.base.tableName
      Segments.tableLength true invariant.sound
  case tableKept => exact tableKept
  case grows =>
    exact extends_of_away
      (Segments.away_pShmNew system config.base.tableName
        Segments.tableLength true config.base.memory)
  case keeps =>
    intro _ session member other found
    have attached := (invariant.inside caller alive session member).1
    rw [Table.wimpDataLinkToProcess, if_pos attached]
    exact ⟨found, rfl⟩
  case attached =>
    intro _ attached
    rw [Table.wimpDataLinkToProcess, if_pos attached]
    exact attached
  case reaches =>
    intro _ name other found
    rcases linkToProcess_cases (config.process caller) with
      same | ⟨-, nothing, -⟩
    · rw [same] at found ⊢
      exact Or.inl ⟨found, rfl⟩
    · rw [nothing] at found
      cases found
  case fresh => exact fun free used => absurd used free

/-- A new handle and a new entry leave those of the other slots alone. -/
theorem keeps_cacheName
    {process : Process} {slot : SlotIndex} {name : CString}
    {shm : Option PShm} {granted : Bool}
    (apart : ∀ text, indexOf process text ≠ some slot)
    {text : Bytes} {other : SlotIndex}
    (found : indexOf process text = some other) :
    indexOf
          { ({ process with
                dataTableCache :=
                  put process.dataTableCache slot shm }).cacheName name slot
                granted with
            dead := false } text =
        some other ∧
      (put process.dataTableCache slot shm)[other] =
        process.dataTableCache[other] := by
  have different : other ≠ slot := by
    rintro rfl
    exact apart text found
  refine ⟨?_, getElem_put_of_ne _ _ different⟩
  exact @indexOf_cacheName_of_found
    { process with dataTableCache := put process.dataTableCache slot shm }
    name slot other granted text found

/-- The entries of a process after it got a handle of a slot. -/
theorem reaches_cacheName
    {process : Process} {slot : SlotIndex} {name : CString}
    {shm : Option PShm} {granted : Bool}
    (apart : ∀ text, indexOf process text ≠ some slot)
    {text : Bytes} {other : SlotIndex}
    (found :
      indexOf
          { ({ process with
                dataTableCache :=
                  put process.dataTableCache slot shm }).cacheName name slot
                granted with
            dead := false } text =
        some other) :
    indexOf process text = some other ∧
        (put process.dataTableCache slot shm)[other] =
          process.dataTableCache[other] ∨
      other = slot := by
  have cases := @indexOf_cacheName
    { process with dataTableCache := put process.dataTableCache slot shm }
    name slot other granted text found
  rcases cases with before | ⟨-, here⟩
  · have different : other ≠ slot := by
      rintro rfl
      exact apart text before
    exact Or.inl ⟨before, getElem_put_of_ne _ _ different⟩
  · exact Or.inr here

/-- Nobody finds a slot which is not in use. -/
theorem Invariant.apart_of_unused
    (invariant : Invariant config)
    (alive : (config.process caller).dead = false) {slot : SlotIndex}
    (unused : ¬ Used config.table[slot]) (text : Bytes) :
    indexOf (config.process caller) text ≠ some slot := fun found =>
  unused (invariant.used_of_found alive found)

/-- Nobody finds a slot without a handle of its segment. -/
theorem Invariant.apart_of_null
    (invariant : Invariant config)
    (alive : (config.process caller).dead = false) {slot : SlotIndex}
    (null : (config.process caller).dataTableCache[slot] = none)
    (text : Bytes) :
    indexOf (config.process caller) text ≠ some slot := by
  intro found
  have behind := invariant.linked caller text slot alive found
  rw [null] at behind
  cases behind

/-- A reservation makes a segment of its own. -/
theorem Invariant.proceeds_reserve
    (invariant : Invariant config) {name : CString} {size : Nat}
    {first second granted : Bool}
    (alive : (config.process caller).dead = false)
    (new : New config.table name)
    (clean :
      Clean config
        (.call (.reserve caller name size first second granted)))
    (reserved :
      config.base.reserve system caller name size first second
          granted =
        some base) :
    ∃ slot following process reservation,
      Proceeds config base caller slot following process reservation := by
  have allowed :
      Allowed config.base.base
        (.reserve caller name size
          (wimpCreateFreshShm system config.base.memory name size first
            second).2 granted) :=
    fun free => ⟨(clean free).1, fun _ => new⟩
  have tableKept :=
    invariant.tableKept.of_reserve invariant.registered alive allowed
      (fun free => (clean free).2) reserved
  rcases Option.map_eq_some_iff.mp reserved with ⟨tables, stepped, rfl⟩
  have called := stepped
  have living : (config.base.base.processes caller).dead = false := alive
  rw [Table.step, if_neg (by simp [Table.Action.caller, living])] at called
  cases reserve_cases invariant.registered alive allowed called with
  | idle process none idle =>
      have idled :=
        invariant.proceeds_of_step (by intro _ equal; cases equal) stepped
          idle
      split
      · exact ⟨_, _, _, _, idled⟩
      · rename_i slot free
        rcases none with detached | full
        · rw [if_neg (by
            rw [detached]
            exact fun both => Bool.false_ne_true both.1)]
          exact ⟨_, _, _, _, idled⟩
        · rw [full] at free
          cases free
  | failed slot attached free fails effect =>
      have fits := (clean (by rw [Config.table, free]; rfl)).1
      have named :
          (Table.copyName config.base.base.table slot name).isSome =
            true := by
        rw [copyName_of_fits _ slot fits]
        rfl
      have unused : ¬ Used config.table[slot] := free_of_findFree free
      rw [free] at tableKept ⊢
      dsimp only at tableKept ⊢
      rw [if_pos ⟨attached, named⟩, if_neg fails] at tableKept ⊢
      exact
        ⟨slot, _, _, _,
          { effect := effect
            sound :=
              Segments.sound_pShmFree system
                (Segments.sound_wimpCreateFreshShm system name size
                  first second invariant.sound) _
            tableKept := tableKept
            grows :=
              extends_of_away
                (Segments.away_free_wimpCreateFreshShm system name size
                  first second config.base.memory)
            keeps := fun _ session member other found => ⟨found, rfl⟩
            attached := fun _ => id
            reaches := fun _ text other found => Or.inl ⟨found, rfl⟩
            fresh := fun free used => absurd used free }⟩
  | succeeded slot attached free succeeds effect =>
      have fits := (clean (by rw [Config.table, free]; rfl)).1
      have named :
          (Table.copyName config.base.base.table slot name).isSome =
            true := by
        rw [copyName_of_fits _ slot fits]
        rfl
      have unused : ¬ Used config.table[slot] := free_of_findFree free
      have apart := invariant.apart_of_unused alive unused
      rw [free] at tableKept ⊢
      dsimp only at tableKept ⊢
      rw [if_pos ⟨attached, named⟩, if_pos succeeds] at tableKept ⊢
      refine
        ⟨slot, _, _, _,
          { effect := effect
            sound :=
              Segments.sound_wimpCreateFreshShm system name size first
                second invariant.sound
            tableKept := tableKept
            grows :=
              extends_of_away
                (Segments.away_wimpCreateFreshShm system name size
                  first second config.base.memory)
            keeps := fun _ session member other found =>
              keeps_cacheName apart found
            attached := fun _ => id
            reaches := ?_
            fresh := ?_ }⟩
      · intro _ text other found
        rcases reaches_cacheName apart found with before | here
        · exact Or.inl before
        · exact Or.inr ⟨here, fun used => absurd used unused⟩
      · intro _ _
        have fresh := length_le_of_wimpCreateFreshShm succeeds
        show ∃ segment, segmentAt _ (put _ slot _)[slot] = some segment ∧ _
        rw [getElem_put_self]
        exact fresh

/-- A link opens the segment which the reservation made. -/
theorem Invariant.proceeds_linkToData
    (invariant : Invariant config) {name : CString} {opens granted : Bool}
    (alive : (config.process caller).dead = false)
    (clean :
      Clean config (.call (.linkToData caller name opens granted)))
    (linked :
      config.base.linkToData system caller name opens granted =
        some base) :
    ∃ slot following process reservation,
      Proceeds config base caller slot following process reservation := by
  have allowed :
      Allowed config.base.base
        (.linkToData caller name
          (config.base.openForLink system caller name opens).2 granted) :=
    fun slot used named => (clean slot used named).1
  have tableKept :=
    invariant.tableKept.of_linkToData invariant.registered alive allowed
      linked
  rcases Option.map_eq_some_iff.mp linked with ⟨tables, stepped, rfl⟩
  have called := stepped
  have living : (config.base.base.processes caller).dead = false := alive
  rw [Table.step, if_neg (by simp [Table.Action.caller, living])] at called
  cases linkToData_cases invariant.registered alive allowed called with
  | idle process none idle =>
      rw [openForLink_of_idle none]
      exact ⟨_, _, _, _,
        invariant.proceeds_of_step (by intro _ equal; cases equal) stepped
          idle⟩
  | linked slot attached found free effect =>
      rcases used_named_of_findName invariant.registered.allNamed found with
        ⟨used, named⟩
      have released : ¬ Holds (config.process caller) slot := by
        intro holding
        have cached : (config.process caller).dataTableCache[slot] = none :=
          free
        rw [Holds, cached] at holding
        cases holding
      rcases (clean slot used named).2 released with ⟨rfl, present⟩
      rw [openForLink_of_found attached found free] at effect tableKept ⊢
      have apart := invariant.apart_of_null alive free
      have opened :=
        pShmNew_of_present system name config.base.base.table[slot].size
          true present
      refine
        ⟨slot, _, _, _,
          { effect := effect
            sound :=
              Segments.sound_pShmNew system name _ true invariant.sound
            tableKept := tableKept
            grows :=
              extends_of_away
                (Segments.away_pShmNew system name _ true
                  config.base.memory)
            keeps := fun _ session member other there =>
              keeps_cacheName apart there
            attached := fun _ => id
            reaches := ?_
            fresh := fun unused => absurd used unused }⟩
      intro _ text other there
      rcases reaches_cacheName apart there with before | here
      · exact Or.inl before
      · refine Or.inr ⟨here, fun _ => ?_⟩
        show segmentAt _ (put _ slot _)[slot] = _
        rw [getElem_put_self]
        show ((pShmNew system config.base.memory name _ true).1.handles[
          config.base.memory.handles.length]?).map Handle.segment = _
        rw [opened.2.2 rfl]
        rfl

/-- Freeing a handle takes no segment from another one. -/
theorem extends_pShmFree (memory : SystemMemory) (shm : Option PShm) :
    Extends memory (pShmFree system memory shm) := by
  cases shm with
  | none => exact Extends.refl memory
  | some handle =>
      constructor
      case handles =>
        intro other record opened
        rwa [Segments.handles_pShmFree]
      case segments =>
        exact (congrArg List.length
          (system.segments_close memory handle)).ge

/-- Whoever unlinks a name has no session under it. -/
theorem Invariant.proceeds_unlinkFromData
    (invariant : Invariant config) {name : CString}
    (alive : (config.process caller).dead = false)
    (admissible :
      Admissible config (.call (.unlinkFromData caller name)))
    (clean : Clean config (.call (.unlinkFromData caller name)))
    (unlinked : config.base.unlinkFromData system caller name = some base) :
    ∃ slot following process reservation,
      Proceeds config base caller slot following process reservation := by
  have allowed :
      Allowed config.base.base (.unlinkFromData caller name) := by
    intro slot used named
    refine ⟨alive, ?_⟩
    rcases clean slot used named with holding | present
    · exact Or.inl holding
    · exact Or.inr ⟨name.val, present⟩
  have tableKept :=
    invariant.tableKept.of_unlinkFromData invariant.registered alive allowed
      unlinked
  rcases Option.map_eq_some_iff.mp unlinked with ⟨tables, stepped, rfl⟩
  have called := stepped
  have living : (config.base.base.processes caller).dead = false := alive
  rw [Table.step, if_neg (by simp [Table.Action.caller, living])] at called
  cases unlinkFromData_cases invariant.registered alive allowed called with
  | idle process none idle =>
      have idled :=
        invariant.proceeds_of_step (by intro _ equal; cases equal) stepped
          idle
      split
      · rename_i slot found
        rcases none with detached | missing
        · rw [if_neg (by rw [detached]; exact Bool.false_ne_true)]
          exact ⟨_, _, _, _, idled⟩
        · rw [missing] at found
          cases found
      · exact ⟨_, _, _, _, idled⟩
  | unlinked slot following process attached found named last process_cases
      effect =>
      have used := (used_named_of_findName invariant.registered.allNamed
        found).1
      -- Every other name of the caller leads to another slot.
      have different {text : Bytes} {other : SlotIndex}
          (there : indexOf (config.process caller) text = some other)
          (apart : text ≠ name.val) : other ≠ slot := by
        rintro rfl
        rcases invariant.registered.entries caller text other alive there
          with ⟨own, rfl, namedOwn⟩
        exact apart (congrArg Subtype.val (named_unique namedOwn named))
      rw [found] at tableKept ⊢
      dsimp only at tableKept ⊢
      rw [if_pos attached] at tableKept ⊢
      refine
        ⟨slot, following, process, _,
          { effect := effect
            sound := Segments.sound_pShmFree system invariant.sound _
            tableKept := tableKept
            grows := extends_pShmFree _ _
            keeps := ?_
            attached := ?_
            reaches := ?_
            fresh := fun unused => absurd used unused }⟩
      · intro lives session member other there
        have apart : session.name.val ≠ name.val := fun same =>
          admissible session member (Subtype.ext same)
        rcases process_cases with dies | ⟨cache, -, remembers⟩
        · cases dies.symm.trans lives
        · refine ⟨(remembers _ apart).trans there, ?_⟩
          rw [cache, getElem_put_of_ne _ _ (different there apart)]
          rfl
      · intro _ before
        have still := attached_of_step (by intro _ equal; cases equal)
          stepped before
        rwa [effect.process_self] at still
      · intro lives text other there
        rcases process_cases with dies | ⟨cache, forgets, remembers⟩
        · cases dies.symm.trans lives
        · have apart : text ≠ name.val := by
            rintro rfl
            cases forgets.symm.trans there
          have before := (remembers text apart).symm.trans there
          left
          refine ⟨before, ?_⟩
          rw [cache, getElem_put_of_ne _ _ (different before apart)]
          rfl

/-- A write changes the contents of a segment alone. -/
theorem Invariant.proceeds_write
    (invariant : Invariant config) {name : CString} {offset : Nat}
    {bytes : Bytes} (alive : (config.process caller).dead = false)
    (wrote : config.base.write caller name offset bytes = some base) :
    ∃ slot following process reservation,
      Proceeds config base caller slot following process reservation := by
  have tableKept :=
    invariant.tableKept.of_write invariant.registered alive wrote
  have dies :
      ∃ slot following process reservation,
        Proceeds config
          { config.base with
            base :=
              config.base.base.setProcess caller
                { config.base.base.processes caller with dead := true } }
          caller slot following process reservation := by
    have idle :
        Idle config.base.base
          (config.base.base.setProcess caller
            { config.base.base.processes caller with dead := true })
          caller { config.process caller with dead := true } :=
      invariant.registered.idle alive rfl rfl rfl rfl
    exact ⟨_, _, _, _,
      proceeds_of_idle idle invariant.sound
        (invariant.tableKept.of_idle invariant.registered idle)
        (Extends.refl _) id⟩
  unfold Segments.Config.write at wrote
  dsimp only at wrote
  split at wrote
  case isFalse =>
    cases wrote
    exact dies
  split at wrote
  · cases wrote
    exact ⟨_, _, _, _, invariant.proceeds_self alive⟩
  split at wrote
  · cases wrote
    exact dies
  rcases Option.bind_eq_some_iff.mp wrote with ⟨record, opened, wrote⟩
  rcases Option.bind_eq_some_iff.mp wrote with ⟨before, found, wrote⟩
  rcases Option.bind_eq_some_iff.mp wrote with ⟨contents, spliced, wrote⟩
  cases wrote
  refine ⟨_, _, config.process caller, _, proceeds_of_idle ?_ ?_ tableKept ?_
    id⟩
  · exact invariant.registered.idle alive
      (Function.update_eq_self caller config.base.base.processes).symm
      rfl rfl rfl
  · exact invariant.sound.write record.segment contents
  · refine ⟨fun _ _ => id, ?_⟩
    show _ ≤ (config.base.memory.segments.set _ _).length
    rw [List.length_set]

/-- Every guarded call on the table proceeds. -/
theorem Invariant.exists_proceeds
    (invariant : Invariant config) {action : Segments.Action count}
    (admissible : Admissible config (.call action))
    (clean : Clean config (.call action))
    (stepped : Segments.step system config.base action = some base) :
    ∃ slot following process reservation,
      Proceeds config base action.caller slot following process
        reservation := by
  unfold Segments.step at stepped
  split at stepped
  · cases stepped
  rename_i notDead
  have alive : (config.process action.caller).dead = false :=
    Bool.eq_false_iff.mpr notDead
  cases action with
  | linkToProcess caller opens =>
      exact invariant.proceeds_linkToProcess alive stepped
  | reserve caller name size first second granted =>
      exact invariant.proceeds_reserve alive admissible clean stepped
  | linkToData caller name opens granted =>
      exact invariant.proceeds_linkToData alive clean stepped
  | unlinkFromData caller name =>
      exact invariant.proceeds_unlinkFromData alive admissible clean stepped
  | write caller name offset bytes =>
      exact invariant.proceeds_write alive stepped

/-- Every guarded call on the table keeps the sessions apart. -/
theorem Invariant.of_call
    (invariant : Invariant config) {action : Segments.Action count}
    (admissible : Admissible config (.call action))
    (clean : Clean config (.call action))
    (called : config.call system action = some next) :
    Invariant next := by
  rcases Option.map_eq_some_iff.mp called with ⟨base, stepped, rfl⟩
  rcases invariant.exists_proceeds admissible clean stepped with
    ⟨slot, following, process, reservation, proceeds⟩
  exact invariant.of_proceeds proceeds

end Kinds

end Wimp.Data.Exclusion
