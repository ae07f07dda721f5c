import Wimp.Data.Registry
import Wimp.Lib.SharedMemory

/-!
# The segments of the data table

The table lies in a segment of shared memory, and the data of a slot lies in
one which has the name of the slot.  A process attaches to the table by its
name.  A reservation makes the segment of its slot anew: whatever has the name
is opened, owned and closed, and then the name is opened again.  A process
which links to a slot opens its name.

The calls on shared memory belong to the system, of which only its promises
are used.
-/

namespace Wimp.Data.Segments

open Wimp.Lib.ByteRegion
open Wimp.Lib.SharedMemory
open Wimp.Data.Registry
open Wimp.Data.Table
  (PShm Process ShmResult SlotIndex WimpDataSlot copyName findFree findName
    wimpDataLinkToProcess wimpMaxSharedSlots)

/-! ## The shared memory calls -/

/-- The segments of the system. -/
abbrev SystemMemory := Memory CString

/-- What is in the segment of a name. -/
def contentsOf (memory : SystemMemory) (name : CString) : Bytes :=
  ((memory.names name).bind fun segment => memory.segments[segment]?).getD []

/-- `p_shm_new`, unless it fails. -/
def pShmNew (system : System CString) (memory : SystemMemory)
    (name : CString) (length : Nat) (works : Bool) :
    SystemMemory × ShmResult :=
  if works then
    let opened := system.openSegment memory name length
    (opened,
      { shm := some (memory.handles.length, (contentsOf opened name).length)
        err := false })
  else
    (memory, { shm := none, err := true })

/-- `p_shm_take_ownership`; the null handle owns nothing. -/
def pShmTakeOwnership (system : System CString) (memory : SystemMemory)
    (shm : Option PShm) : SystemMemory :=
  match shm with
  | some handle => system.takeOwnership memory handle
  | none => memory

/-- `p_shm_free`. -/
def pShmFree (system : System CString) (memory : SystemMemory)
    (shm : Option PShm) : SystemMemory :=
  match shm with
  | some handle => system.close memory handle
  | none => memory

/--
`wimp_create_fresh_shm`, given whether its two `p_shm_new` work.  An error of
the first is not cleared by the second.
-/
def wimpCreateFreshShm (system : System CString) (memory : SystemMemory)
    (name : CString) (length : Nat) (first second : Bool) :
    SystemMemory × ShmResult :=
  let (memory, shm) := pShmNew system memory name length first
  let memory :=
    pShmFree system (pShmTakeOwnership system memory shm.handle) shm.handle
  let (memory, fresh) := pShmNew system memory name length second
  (memory, { fresh with err := shm.err || fresh.err })

/-! ## The processes and their segments -/

/-- `TABLE_LENGTH`. -/
def tableLength : Nat :=
  WimpDataSlot.bytes * wimpMaxSharedSlots

/--
The processes of one table with the segments of the system, and what the
holders of the slots wrote last.  The table itself is the contents of its
segment, and everybody who is attached has a handle of this segment.
-/
structure Config (count : Nat) where
  tableName : CString
  tableSegment : Nat
  base : Table.Config count := {}
  memory : SystemMemory := {}
  written : SlotIndex → Bytes := fun _ => []

/-- The calls of the processes, and their writes to shared data. -/
inductive Action (count : Nat) where
  | linkToProcess (caller : Fin count) (opens : Bool)
  | reserve (caller : Fin count) (reservedName : CString) (size : Nat)
      (first second granted : Bool)
  | linkToData (caller : Fin count) (name : CString)
      (opens granted : Bool)
  | unlinkFromData (caller : Fin count) (name : CString)
  | write (caller : Fin count) (name : CString) (offset : Nat)
      (bytes : Bytes)
deriving DecidableEq, Repr

/-- The process which makes a call. -/
def Action.caller {count : Nat} : Action count → Fin count
  | .linkToProcess caller _ => caller
  | .reserve caller _ _ _ _ _ => caller
  | .linkToData caller _ _ _ => caller
  | .unlinkFromData caller _ => caller
  | .write caller _ _ _ => caller

namespace Config

variable {count : Nat}

/--
The processes behind a `wimp_data_init` of one of them, which has made the
table in fresh memory.
-/
def initial (system : System CString) (maker : Fin count)
    (tableName : CString) : Config count :=
  let created :=
    wimpCreateFreshShm system {} tableName tableLength true true
  { tableName
    tableSegment := (created.1.names tableName).getD 0
    base :=
      ({} : Table.Config count).setProcess maker (wimpDataLinkToProcess {})
    memory := created.1 }

/--
`wimp_data_link_to_process` under the name of the table.  A process which is
led to another segment than that of the table is not one of this table.
-/
def linkToProcess (system : System CString) (config : Config count)
    (caller : Fin count) (opens : Bool) : Option (Config count) :=
  if (config.base.processes caller).isTableLinked then some config
  else
    let opened :=
      pShmNew system config.memory config.tableName tableLength opens
    if opened.2.err then some config
    else if opened.1.names config.tableName = some config.tableSegment then
      (Table.step config.base (.linkToProcess caller)).map fun base =>
        { config with base, memory := opened.1 }
    else none

/--
`wimp_data_reserve` with its shared memory calls, which are made for the first
free slot once it is named.  A segment which is not used is closed again.
-/
def reserve (system : System CString) (config : Config count)
    (caller : Fin count) (name : CString) (size : Nat)
    (first second granted : Bool) : Option (Config count) :=
  let created :=
    wimpCreateFreshShm system config.memory name size first second
  (Table.step config.base
    (.reserve caller name size created.2 granted)).map fun base =>
    match findFree config.base.table with
    | none => { config with base }
    | some slot =>
        if (config.base.processes caller).isTableLinked ∧
            (copyName config.base.table slot name).isSome then
          if Succeeds created.2 size then
            { config with
              base
              memory := created.1
              written :=
                Function.update config.written slot
                  (contentsOf created.1 name) }
          else
            { config with
              base
              memory := pShmFree system created.1 created.2.handle }
        else { config with base }

/--
The `p_shm_new` of `wimp_data_link_to_data`, which is made for a slot that the
process is not linked to.
-/
def openForLink (system : System CString) (config : Config count)
    (caller : Fin count) (name : CString) (opens : Bool) :
    SystemMemory × ShmResult :=
  let process := config.base.processes caller
  match findName config.base.table name with
  | some (some slot) =>
      if process.isTableLinked ∧ process.dataTableCache[slot] = none then
        pShmNew system config.memory name config.base.table[slot].size opens
      else (config.memory, { shm := none, err := true })
  | _ => (config.memory, { shm := none, err := true })

/-- `wimp_data_link_to_data` with its `p_shm_new`. -/
def linkToData (system : System CString) (config : Config count)
    (caller : Fin count) (name : CString) (opens granted : Bool) :
    Option (Config count) :=
  let opened := config.openForLink system caller name opens
  (Table.step config.base
    (.linkToData caller name opened.2 granted)).map fun base =>
    { config with base, memory := opened.1 }

/-- `wimp_data_unlink_from_data` with its `p_shm_free`. -/
def unlinkFromData (system : System CString) (config : Config count)
    (caller : Fin count) (name : CString) : Option (Config count) :=
  let process := config.base.processes caller
  (Table.step config.base (.unlinkFromData caller name)).map fun base =>
    match findName config.base.table name with
    | some (some slot) =>
        if process.isTableLinked then
          { config with
            base
            memory :=
              pShmFree system config.memory process.dataTableCache[slot] }
        else { config with base }
    | _ => { config with base }

/--
A write to the data of a name.  A name without an entry has no data, and a
process which writes through the null handle dies.
-/
def write (config : Config count) (caller : Fin count) (name : CString)
    (offset : Nat) (bytes : Bytes) : Option (Config count) :=
  let process := config.base.processes caller
  let dies :=
    { config with
      base := config.base.setProcess caller { process with dead := true } }
  if process.isTableLinked then
    match indexOf process name.val with
    | none => some config
    | some slot =>
        match process.dataTableCache[slot] with
        | none => some dies
        | some handle => do
            let record ← config.memory.handles[handle]?
            let contents ← config.memory.segments[record.segment]?
            let contents ← splice contents offset bytes
            some
              { config with
                memory := config.memory.write record.segment contents
                written := Function.update config.written slot contents }
  else some dies

end Config

variable {count : Nat}

/-- One call of one process; a dead process makes none. -/
def step (system : System CString) (config : Config count)
    (action : Action count) : Option (Config count) :=
  if (config.base.processes action.caller).dead then none
  else
    match action with
    | .linkToProcess caller opens =>
        config.linkToProcess system caller opens
    | .reserve caller name size first second granted =>
        config.reserve system caller name size first second granted
    | .linkToData caller name opens granted =>
        config.linkToData system caller name opens granted
    | .unlinkFromData caller name =>
        config.unlinkFromData system caller name
    | .write caller name offset bytes =>
        config.write caller name offset bytes

/-- No call gives the table another name. -/
theorem tableName_of_step
    {system : System CString} {config next : Config count}
    {action : Action count}
    (stepped : step system config action = some next) :
    next.tableName = config.tableName := by
  unfold step at stepped
  split at stepped
  · cases stepped
  cases action with
  | linkToProcess caller opens =>
      change config.linkToProcess system caller opens = some next at stepped
      unfold Config.linkToProcess at stepped
      dsimp only at stepped
      split_ifs at stepped
      · cases stepped
        rfl
      · cases stepped
        rfl
      · rcases Option.map_eq_some_iff.mp stepped with ⟨base, -, rfl⟩
        rfl
  | reserve caller name size first second granted =>
      rcases Option.map_eq_some_iff.mp stepped with ⟨base, -, rfl⟩
      split
      · rfl
      · split_ifs <;> rfl
  | linkToData caller name opens granted =>
      rcases Option.map_eq_some_iff.mp stepped with ⟨base, -, rfl⟩
      rfl
  | unlinkFromData caller name =>
      rcases Option.map_eq_some_iff.mp stepped with ⟨base, -, rfl⟩
      split
      · split_ifs <;> rfl
      · rfl
  | write caller name offset bytes =>
      change config.write caller name offset bytes = some next at stepped
      unfold Config.write at stepped
      dsimp only at stepped
      split at stepped
      case isFalse =>
        cases stepped
        rfl
      split at stepped
      · cases stepped
        rfl
      split at stepped
      · cases stepped
        rfl
      rcases Option.bind_eq_some_iff.mp stepped with ⟨record, -, stepped⟩
      rcases Option.bind_eq_some_iff.mp stepped with ⟨old, -, stepped⟩
      rcases Option.bind_eq_some_iff.mp stepped with ⟨new, -, stepped⟩
      cases stepped
      rfl

/-! ## Calls on the table -/

section Calls

variable {system : System CString} {config next : Config count}

theorem step_of_reserve
    {caller : Fin count} {name : CString}
    {size : Nat} {first second granted : Bool}
    (reserved :
      config.reserve system caller name size first second granted =
        some next) :
    Table.step config.base
        (.reserve caller name size
          (wimpCreateFreshShm system config.memory name size first
            second).2 granted) =
      some next.base := by
  rcases Option.map_eq_some_iff.mp reserved with ⟨base, stepped, rfl⟩
  rw [stepped]
  split
  · rfl
  · split
    · split <;> rfl
    · rfl

theorem step_of_linkToProcess
    {caller : Fin count} {opens : Bool}
    (linked : config.linkToProcess system caller opens = some next) :
    next.base = config.base ∨
      Table.step config.base (.linkToProcess caller) = some next.base := by
  unfold Config.linkToProcess at linked
  dsimp only at linked
  split_ifs at linked
  · cases linked
    exact Or.inl rfl
  · cases linked
    exact Or.inl rfl
  · rcases Option.map_eq_some_iff.mp linked with ⟨base, stepped, rfl⟩
    exact Or.inr stepped

theorem step_of_unlinkFromData
    {caller : Fin count} {name : CString}
    (unlinked : config.unlinkFromData system caller name = some next) :
    Table.step config.base (.unlinkFromData caller name) =
      some next.base := by
  rcases Option.map_eq_some_iff.mp unlinked with ⟨base, stepped, rfl⟩
  rw [stepped]
  split
  · split <;> rfl
  · rfl

/-- The call on the table which a call makes, with the segments it gets. -/
def tableAction (system : System CString) (config : Config count) :
    Action count → Option (Table.Action count)
  | .linkToProcess caller _ => some (.linkToProcess caller)
  | .reserve caller name size first second granted =>
      some
        (.reserve caller name size
          (wimpCreateFreshShm system config.memory name size first second).2
          granted)
  | .linkToData caller name opens granted =>
      some
        (.linkToData caller name
          (config.openForLink system caller name opens).2 granted)
  | .unlinkFromData caller name => some (.unlinkFromData caller name)
  | .write _ _ _ _ => none

/-- What a call reserves, when it is a reservation which succeeds. -/
def reservationOf (system : System CString) (config : Config count)
    (action : Action count) : Option (CString × Nat) :=
  (tableAction system config action).bind (reservation config.base)

/-- A write changes no slot, and no process but one which has no handle. -/
theorem base_of_write
    {caller : Fin count} {name : CString} {offset : Nat} {bytes : Bytes}
    (wrote : config.write caller name offset bytes = some next) :
    next.base = config.base ∨
      next.base =
        config.base.setProcess caller
          { config.base.processes caller with dead := true } := by
  unfold Config.write at wrote
  dsimp only at wrote
  split at wrote
  case isFalse =>
    cases wrote
    exact Or.inr rfl
  split at wrote
  · cases wrote
    exact Or.inl rfl
  split at wrote
  · cases wrote
    exact Or.inr rfl
  rcases Option.bind_eq_some_iff.mp wrote with ⟨record, -, wrote⟩
  rcases Option.bind_eq_some_iff.mp wrote with ⟨old, -, wrote⟩
  rcases Option.bind_eq_some_iff.mp wrote with ⟨new, -, wrote⟩
  cases wrote
  exact Or.inl rfl

/-- Every allowed call works on one slot of the table. -/
theorem affected_of_step
    {action : Action count} (registered : Registered config.base)
    (allowed :
      ∀ call ∈ tableAction system config action, Allowed config.base call)
    (stepped : step system config action = some next) :
    Affected config.base next.base action.caller
      (reservationOf system config action) := by
  unfold step at stepped
  split at stepped
  · cases stepped
  rename_i notDead
  have alive : (config.base.processes action.caller).dead = false := by
    simpa using notDead
  have unchanged {base : Table.Config count} {caller : Fin count}
      (living : (config.base.processes caller).dead = false)
      (same : base = config.base) :
      Affected config.base base caller none := by
    subst same
    exact affected_at 0
      (registered.idle living
        (Function.update_eq_self caller config.base.processes).symm rfl rfl
        rfl).effect
  cases action with
  | linkToProcess caller opens =>
      rcases step_of_linkToProcess stepped with same | called
      · exact unchanged alive same
      · exact Registry.affected_of_step registered (allowed _ rfl) called
  | reserve caller name size first second granted =>
      exact Registry.affected_of_step registered (allowed _ rfl)
        (step_of_reserve stepped)
  | linkToData caller name opens granted =>
      rcases Option.map_eq_some_iff.mp stepped with ⟨base, called, rfl⟩
      exact Registry.affected_of_step registered (allowed _ rfl) called
  | unlinkFromData caller name =>
      exact Registry.affected_of_step registered (allowed _ rfl)
        (step_of_unlinkFromData stepped)
  | write caller name offset bytes =>
      rcases base_of_write stepped with same | died
      · exact unchanged alive same
      · have idle :
            Idle config.base next.base caller
              { config.base.processes caller with dead := true } :=
          registered.idle alive (by rw [died]; rfl) (by rw [died]; rfl) rfl rfl
        exact affected_at 0 idle.effect

end Calls

/-! ## What the shared memory calls do -/

section MemoryRules

variable (system : System CString) {memory : SystemMemory}
variable (name : CString) (length : Nat) (first second works : Bool)

theorem contentsOf_of_names
    {segment : Nat} {contents : Bytes}
    (found : memory.names name = some segment)
    (holds : memory.segments[segment]? = some contents) :
    contentsOf memory name = contents := by
  rw [contentsOf, found, Option.bind_some, holds, Option.getD_some]

theorem away_pShmNew (memory : SystemMemory) :
    Away name memory (pShmNew system memory name length works).1 := by
  cases works with
  | true => exact away_openSegment system memory name length
  | false => exact Away.refl name memory

theorem sound_pShmNew (sound : Sound memory) :
    Sound (pShmNew system memory name length works).1 := by
  cases works with
  | true => exact sound.openSegment system name length
  | false => exact sound

/-- A name which is there is opened where it leads to. -/
theorem pShmNew_of_present
    {segment : Nat} (present : memory.names name = some segment) :
    (pShmNew system memory name length works).1.names = memory.names ∧
      (pShmNew system memory name length works).1.segments =
        memory.segments ∧
      (works = true →
        (pShmNew system memory name length works).1.handles[
            memory.handles.length]? =
          some ⟨name, segment, false⟩) := by
  cases works with
  | false => exact ⟨rfl, rfl, fun working => nomatch working⟩
  | true =>
      show
        (system.openSegment memory name length).names = _ ∧
          (system.openSegment memory name length).segments = _ ∧
            (_ → (system.openSegment memory name length).handles[_]? = _)
      rw [system.openSegment_of_present memory name segment length present]
      exact ⟨rfl, rfl, fun _ => List.getElem?_concat_length ..⟩

theorem sound_pShmFree
    (sound : Sound memory) (shm : Option PShm) :
    Sound (pShmFree system memory shm) := by
  cases shm with
  | some handle => exact sound.close system handle
  | none => exact sound

/-- Freeing what was opened under a name touches no other name. -/
theorem away_pShmFree_pShmNew (memory : SystemMemory) :
    let opened := pShmNew system memory name length works
    Away name memory (pShmFree system opened.1 opened.2.handle) := by
  cases works with
  | true =>
      rcases handle_openSegment system memory name length with
        ⟨segment, owned, opened, -⟩
      exact (away_openSegment system memory name length).trans
        (away_close system opened)
  | false => exact Away.refl name memory

/-- The system after the first half of a reservation. -/
def discarded (memory : SystemMemory) : SystemMemory :=
  if first then system.discard memory name length else memory

/-- A fresh segment is opened where the old one was discarded. -/
theorem wimpCreateFreshShm_eq (memory : SystemMemory) :
    wimpCreateFreshShm system memory name length first second =
      let fresh :=
        pShmNew system (discarded system name length first memory) name
          length second
      (fresh.1, { fresh.2 with err := !first || fresh.2.err }) := by
  cases first <;> rfl

theorem away_discarded (memory : SystemMemory) :
    Away name memory (discarded system name length first memory) := by
  cases first with
  | true => exact away_discard system memory name length
  | false => exact Away.refl name memory

theorem sound_discarded (sound : Sound memory) :
    Sound (discarded system name length first memory) := by
  cases first with
  | true => exact sound.discard system name length
  | false => exact sound

theorem away_wimpCreateFreshShm (memory : SystemMemory) :
    Away name memory
      (wimpCreateFreshShm system memory name length first second).1 := by
  rw [wimpCreateFreshShm_eq]
  exact (away_discarded system name length first memory).trans
    (away_pShmNew system name length second _)

theorem sound_wimpCreateFreshShm (sound : Sound memory) :
    Sound
      (wimpCreateFreshShm system memory name length first second).1 := by
  rw [wimpCreateFreshShm_eq]
  exact sound_pShmNew system name length second
    (sound_discarded system name length first sound)

/-- A segment which could not be used is freed. -/
theorem away_free_wimpCreateFreshShm (memory : SystemMemory) :
    let created :=
      wimpCreateFreshShm system memory name length first second
    Away name memory (pShmFree system created.1 created.2.handle) := by
  rw [wimpCreateFreshShm_eq]
  exact (away_discarded system name length first memory).trans
    (away_pShmFree_pShmNew system name length second _)

/-- Without its first half a reservation destroys no segment. -/
theorem names_free_wimpCreateFreshShm
    {segment : Nat} (present : memory.names name = some segment) :
    let created :=
      wimpCreateFreshShm system memory name length false second
    (pShmFree system created.1 created.2.handle).names name =
      some segment := by
  cases second with
  | true =>
      have opened := (pShmNew_of_present system name length true present)
      show
        (system.close (pShmNew system memory name length true).1
          memory.handles.length).names name = some segment
      rw [close_of_not_owned system (opened.2.2 rfl) rfl, opened.1]
      exact present
  | false => exact present

/-- A segment which can be used is new, and has the name. -/
theorem wimpCreateFreshShm_of_succeeds
    {size : Nat}
    (succeeds :
      Succeeds
        (wimpCreateFreshShm system memory name length first second).2
        size) :
    first = true ∧
      ∃ handle segment owned,
        let created :=
          wimpCreateFreshShm system memory name length first second
        created.2.handle = some handle ∧
          created.1.handles[handle]? = some ⟨name, segment, owned⟩ ∧
            created.1.names name = some segment ∧
              created.1.segments[segment]? =
                  some (contentsOf created.1 name) ∧
                memory.segments.length ≤ segment ∧
                  (system.Owning → owned = true) := by
  have noError := not_or.mp succeeds |>.1
  rw [wimpCreateFreshShm_eq] at noError
  have isFirst : first = true := by
    cases first with
    | true => rfl
    | false => exact absurd rfl noError
  have isSecond : second = true := by
    cases second with
    | true => rfl
    | false =>
        subst isFirst
        exact absurd rfl noError
  subst isFirst isSecond
  rcases system.openSegment_of_absent
      (system.discard memory name length) name length
      (names_discard system memory name length) with
    ⟨contents, owned, opened⟩
  have found :
      (system.openSegment (system.discard memory name length) name
          length).names name =
        some (system.discard memory name length).segments.length := by
    rw [opened]
    exact Function.update_self ..
  have made :
      (system.openSegment (system.discard memory name length) name
          length).segments[
            (system.discard memory name length).segments.length]? =
        some contents := by
    rw [opened]
    exact List.getElem?_concat_length ..
  refine ⟨rfl, (system.discard memory name length).handles.length,
    (system.discard memory name length).segments.length, owned, ?_⟩
  rw [wimpCreateFreshShm_eq]
  have record :
      (system.openSegment (system.discard memory name length) name
          length).handles[
            (system.discard memory name length).handles.length]? =
        some
          ⟨name, (system.discard memory name length).segments.length,
            owned⟩ := by
    rw [opened]
    exact List.getElem?_concat_length ..
  refine ⟨rfl, record, found, ?_,
    (away_discard system memory name length).length_segments_le,
    fun owning =>
      owning _ name length (names_discard system memory name length) _
        record⟩
  show
    (system.openSegment (system.discard memory name length) name
        length).segments[_]? =
      some
        (contentsOf
          (system.openSegment (system.discard memory name length) name
            length) name)
  rw [contentsOf_of_names name found made]
  exact made

end MemoryRules

/-- Freeing a handle forgets none. -/
@[simp]
theorem handles_pShmFree
    (system : System CString) (memory : SystemMemory) (shm : Option PShm) :
    (pShmFree system memory shm).handles = memory.handles := by
  cases shm with
  | some handle => exact system.handles_close memory handle
  | none => rfl

section Links

variable {config : Config count} {system : System CString}
variable {caller : Fin count} {name : CString} {opens : Bool}

/-- A link which comes to nothing opens no segment. -/
theorem openForLink_of_idle
    (none :
      (config.base.processes caller).isTableLinked = false ∨
        findName config.base.table name = some none ∨
          ∃ slot, findName config.base.table name = some (some slot) ∧
            (config.base.processes caller).dataTableCache[slot].isSome) :
    (config.openForLink system caller name opens).1 = config.memory := by
  unfold Config.openForLink
  dsimp only
  rcases none with detached | missing | ⟨slot, found, cached⟩
  · rw [detached]
    split <;> simp
  · rw [missing]
  · rw [found]
    dsimp only
    rw [if_neg]
    rintro ⟨-, empty⟩
    rw [empty] at cached
    cases cached

/-- A link opens the name of the slot which it finds. -/
theorem openForLink_of_found
    {slot : SlotIndex}
    (attached : (config.base.processes caller).isTableLinked = true)
    (found : findName config.base.table name = some (some slot))
    (free : (config.base.processes caller).dataTableCache[slot] = none) :
    config.openForLink system caller name opens =
      pShmNew system config.memory name config.base.table[slot].size
        opens := by
  unfold Config.openForLink
  rw [found]
  exact if_pos ⟨attached, free⟩

end Links

end Wimp.Data.Segments
