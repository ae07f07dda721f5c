import Wimp.Lib.Runs
import Wimp.Data.Segments.TableName

/-!
# Names of live slots

As long as a reservation makes no name again which is in use, neither that of
a slot nor that of the table, a name leads every process to the slot and to
the segment which its holders share.
-/

namespace Wimp.Data.Segments

open Wimp.Lib.ByteRegion
open Wimp.Lib.Runs
open Wimp.Lib.SharedMemory
open Wimp.Utility.HashTable
open Wimp.Data.Registry
open Wimp.Data.RefCount (Holds)
open Wimp.Data.Table
  (PShm Process SlotIndex WimpDataSlot copyName findFree findName
    getElem_put_of_ne getElem_put_self put wimpDataLinkToProcess
    wimpSharedSlotMaxNameBytes)

variable {count : Nat}

/-! ## Names of live slots -/

/--
Names identify the slots in use.  Each of them has a name of its own, and the
name leads to a segment which has what the holders of the slot wrote.  A name
in the hash table of a process leads to the slot of that name, for which the
process has a handle of its segment; and a process which has a handle of a
slot finds it by its name.
-/
structure Identified (config : Config count) : Prop where
  distinct :
    ∀ (first second : SlotIndex) (name : CString),
      Used config.base.table[first] → Used config.base.table[second] →
        Named config.base.table[first] name →
          Named config.base.table[second] name → first = second
  segments :
    ∀ slot : SlotIndex, Used config.base.table[slot] →
      ∃ name segment,
        Named config.base.table[slot] name ∧
          config.memory.names name = some segment ∧
            config.memory.segments[segment]? = some (config.written slot)
  indexed :
    ∀ process (name : Bytes) (slot : SlotIndex),
      (config.base.processes process).dead = false →
        indexOf (config.base.processes process) name = some slot →
          Used config.base.table[slot] ∧
            ∃ (text : CString) (handle : PShm) (record : Handle CString),
              text.val = name ∧ Named config.base.table[slot] text ∧
                (config.base.processes process).dataTableCache[slot] =
                    some handle ∧
                  config.memory.handles[handle]? = some record ∧
                    config.memory.names text = some record.segment
  held :
    ∀ process (slot : SlotIndex),
      (config.base.processes process).dead = false →
        Holds (config.base.processes process) slot →
          ∃ name : CString,
            Named config.base.table[slot] name ∧
              indexOf (config.base.processes process) name.val = some slot

/-- Only holders unlink; any name may be reserved. -/
def Admissible (config : Config count) : Action count → Prop
  | .unlinkFromData caller name =>
      ∀ slot : SlotIndex, Used config.base.table[slot] →
        Named config.base.table[slot] name →
          Holds (config.base.processes caller) slot
  | _ => True

/--
No name is made again which is in use, for a slot or for the table, names fit
their fields, the segments of links and the entries of the hash tables are
granted, counters have room, and a handle which owns its segment is only
closed by the last holder.
-/
def Clean (config : Config count) : Action count → Prop
  | .reserve _ reservedName _ first _ granted =>
      (findFree config.base.table).isSome →
        reservedName.val.length < wimpSharedSlotMaxNameBytes ∧
          (first = true →
            New config.base.table reservedName ∧
              reservedName ≠ config.tableName) ∧
            granted = true
  | .linkToData caller name opens granted =>
      ∀ slot : SlotIndex, Used config.base.table[slot] →
        Named config.base.table[slot] name →
          config.base.table[slot].shareCounter + 1 < 2 ^ 31 ∧
            (¬ Holds (config.base.processes caller) slot →
              opens = true ∧ granted = true)
  | .unlinkFromData caller name =>
      ∀ slot : SlotIndex, Used config.base.table[slot] →
        Named config.base.table[slot] name →
          ∀ handle ∈ (config.base.processes caller).dataTableCache[slot],
            ∀ record ∈ config.memory.handles[handle]?,
              record.owned = true →
                config.base.table[slot].shareCounter = 1
  | _ => True

instance (config : Config count) :
    ∀ action, Decidable (Admissible config action)
  | .unlinkFromData _ _ =>
      inferInstanceAs (Decidable (∀ _ : SlotIndex, _ → _ → Holds _ _))
  | .linkToProcess _ _ | .reserve _ _ _ _ _ _ | .linkToData _ _ _ _
  | .write _ _ _ _ => inferInstanceAs (Decidable True)

instance (config : Config count) :
    ∀ action, Decidable (Clean config action)
  | .reserve _ _ _ _ _ _ =>
      inferInstanceAs
        (Decidable (_ → _ < _ ∧ (_ → New _ _ ∧ _ ≠ _) ∧ _ = true))
  | .linkToData _ _ _ _ =>
      inferInstanceAs
        (Decidable
          (∀ _ : SlotIndex, _ → _ →
            _ < _ ∧ (¬ Holds _ _ → _ = true ∧ _ = true)))
  | .unlinkFromData caller _ =>
      inferInstanceAs
        (Decidable
          (∀ slot : SlotIndex, _ → _ →
            ∀ handle ∈
                (config.base.processes caller).dataTableCache[slot],
              ∀ _ ∈ config.memory.handles[handle]?, _ = true → _ = _))
  | .linkToProcess _ _ | .write _ _ _ _ => inferInstanceAs (Decidable True)

/-! ## The invariant -/

/-- A process has a handle of a slot exactly when it finds it by a name. -/
def Paired (process : Process) : Prop :=
  ∀ slot, Holds process slot ↔ ∃ name, indexOf process name = some slot

/-- What holds between the calls. -/
structure Invariant (config : Config count) : Prop where
  registered : Registered config.base
  sound : Sound config.memory
  tableKept : TableKept config
  paired :
    ∀ process, (config.base.processes process).dead = false →
      Paired (config.base.processes process)
  segments :
    ∀ (slot : SlotIndex) (name : CString),
      Used config.base.table[slot] → Named config.base.table[slot] name →
        ∃ segment,
          config.memory.names name = some segment ∧
            config.memory.segments[segment]? = some (config.written slot)
  handles :
    ∀ process (slot : SlotIndex) (handle : PShm),
      (config.base.processes process).dead = false →
        (config.base.processes process).dataTableCache[slot] =
            some handle →
          ∃ record : Handle CString,
            config.memory.handles[handle]? = some record ∧
              Named config.base.table[slot] record.name ∧
                config.memory.names record.name = some record.segment

variable {config next : Config count}

theorem Invariant.identified
    (invariant : Invariant config) : Identified config := by
  constructor
  case distinct => exact invariant.registered.distinct
  case segments =>
    intro slot used
    rcases invariant.registered.allNamed slot used with ⟨name, named⟩
    rcases invariant.segments slot name used named with
      ⟨segment, found, contents⟩
    exact ⟨name, segment, named, found, contents⟩
  case indexed =>
    intro process name slot alive present
    refine ⟨invariant.registered.used ⟨alive, Or.inr ⟨name, present⟩⟩, ?_⟩
    rcases invariant.registered.entries process name slot alive present with
      ⟨text, same, named⟩
    have holding := (invariant.paired process alive slot).mpr
      ⟨name, present⟩
    rcases Option.isSome_iff_exists.mp holding with ⟨handle, cached⟩
    rcases invariant.handles process slot handle alive cached with
      ⟨record, opened, own, found⟩
    have equal := named_unique own named
    rw [equal] at found
    exact ⟨text, handle, record, same, named, cached, opened, found⟩
  case held =>
    intro process slot alive holding
    rcases (invariant.paired process alive slot).mp holding with
      ⟨name, present⟩
    rcases invariant.registered.entries process name slot alive present with
      ⟨text, rfl, named⟩
    exact ⟨text, named, present⟩

theorem invariant_initial
    (system : System CString) (maker : Fin count) (tableName : CString) :
    Invariant (Config.initial system maker tableName) := by
  have blank (process : Fin count) :
      (∀ slot, ¬ Holds
          ((Config.initial system maker tableName).base.processes process)
          slot) ∧
        ∀ name,
          indexOf
              ((Config.initial system maker tableName).base.processes
                process) name =
            none := by
    by_cases same : process = maker
    · subst same
      simp [Config.initial, Table.Config.setProcess, wimpDataLinkToProcess,
        Holds, indexOf]
    · simp [Config.initial, Table.Config.setProcess, same, Holds, indexOf]
  have free (slot : SlotIndex) :
      ¬ Used (Config.initial system maker tableName).base.table[slot] := by
    simp [Config.initial, Table.Config.setProcess, Used]
  constructor
  case registered =>
    exact registered_initial.of_effect 0
      (effect_of_linkToProcess registered_initial rfl)
  case sound =>
    exact sound_wimpCreateFreshShm system tableName tableLength true true
      sound_empty
  case tableKept => exact tableKept_initial system maker tableName
  case paired =>
    intro process alive slot
    refine iff_of_false ((blank process).1 slot) ?_
    rintro ⟨name, found⟩
    rw [(blank process).2] at found
    cases found
  case segments =>
    intro slot name used
    exact absurd used (free slot)
  case handles =>
    intro process slot handle alive cached
    have holding :
        Holds
          ((Config.initial system maker tableName).base.processes process)
          slot := by
      rw [Holds, cached]
      rfl
    exact absurd holding ((blank process).1 slot)

/-! ## One call -/

section CallRules

variable {caller : Fin count} {slot : SlotIndex}
variable {following : WimpDataSlot} {process : Process}
variable {reservation : Option (CString × Nat)}

/-- A slot which stays in use keeps what it has. -/
theorem sameContent_of_used
    (registered : Registered config.base)
    (effect :
      Effect config.base next.base caller slot following process
        reservation)
    (before : Used config.base.table[slot]) (after : Used following) :
    SameContent config.base.table[slot] following := by
  rcases effect.used_cases registered after with
    ⟨-, same⟩ | ⟨name, size, reserves, -, -, -⟩
  · exact same
  · rw [reserves] at effect
    exact absurd before effect.of_reservation.2.1

/--
A call keeps the invariant when the names of the slots which stay in use keep
their segments, a reserved slot gets one, and the caller has handles of the
slots which it finds.
-/
theorem Invariant.of_effect
    (invariant : Invariant config)
    (effect :
      Effect config.base next.base caller slot following process
        reservation)
    (sound : Sound next.memory) (tableKept : TableKept next)
    (paired : process.dead = false → Paired process)
    (names :
      ∀ (other : SlotIndex) (name : CString) (segment : Nat),
        Used config.base.table[other] → (other = slot → Used following) →
          Named config.base.table[other] name →
            config.memory.names name = some segment →
              next.memory.names name = some segment)
    (segments :
      ∀ (segment : Nat) (contents : Bytes),
        config.memory.segments[segment]? = some contents →
          next.memory.segments[segment]? = some contents)
    (handles :
      ∀ (handle : Nat) (record : Handle CString),
        config.memory.handles[handle]? = some record →
          next.memory.handles[handle]? = some record)
    (written :
      ∀ other : SlotIndex, Used config.base.table[other] →
        next.written other = config.written other)
    (own :
      Used following → ¬ Used config.base.table[slot] →
        ∀ name, Named following name →
          ∃ segment,
            next.memory.names name = some segment ∧
              next.memory.segments[segment]? = some (next.written slot))
    (cached :
      process.dead = false → ∀ (other : SlotIndex) (handle : PShm),
        process.dataTableCache[other] = some handle →
          (config.base.processes caller).dataTableCache[other] =
              some handle ∨
            other = slot ∧
              ∃ record : Handle CString,
                next.memory.handles[handle]? = some record ∧
                  Named following record.name ∧
                    next.memory.names record.name =
                      some record.segment) :
    Invariant next := by
  have registered : Registered next.base :=
    invariant.registered.of_effect slot effect
  -- The slots which stay in use keep their names.
  have stays (other : SlotIndex) (name : CString)
      (before : Used config.base.table[other])
      (after : Used next.base.table[other]) :
      (other = slot → Used following) ∧
        (Named next.base.table[other] name ↔
          Named config.base.table[other] name) := by
    rw [effect.getElem] at after ⊢
    split at after
    · rename_i same
      subst same
      have content :=
        sameContent_of_used invariant.registered effect before after
      rw [if_pos rfl, Named, content.name]
      exact ⟨fun _ => after, Iff.rfl⟩
    · rename_i different
      rw [if_neg different]
      exact ⟨fun same => absurd same different, Iff.rfl⟩
  -- A handle which a process has already is still a handle of its slot.
  have kept (member : Fin count) (other : SlotIndex) (handle : PShm)
      (aliveBefore : (config.base.processes member).dead = false)
      (cachedBefore :
        (config.base.processes member).dataTableCache[other] =
          some handle)
      (after : Used next.base.table[other]) :
      ∃ record : Handle CString,
        next.memory.handles[handle]? = some record ∧
          Named next.base.table[other] record.name ∧
            next.memory.names record.name = some record.segment := by
    rcases invariant.handles member other handle aliveBefore cachedBefore
      with ⟨record, opened, named, found⟩
    have holding : Holds (config.base.processes member) other := by
      rw [Holds, cachedBefore]
      rfl
    have before :=
      invariant.registered.used ⟨aliveBefore, Or.inl holding⟩
    rcases stays other record.name before after with ⟨inUse, same⟩
    exact ⟨record, handles handle record opened, same.mpr named,
      names other record.name record.segment before inUse named found⟩
  constructor
  case registered => exact registered
  case sound => exact sound
  case tableKept => exact tableKept
  case paired =>
    intro member alive
    by_cases same : member = caller
    · subst same
      rw [effect.process_self] at alive ⊢
      exact paired alive
    · rw [effect.process_of_ne same] at alive ⊢
      exact invariant.paired member alive
  case segments =>
    intro other name after named
    by_cases before : Used config.base.table[other]
    · rcases stays other name before after with ⟨inUse, same⟩
      rcases invariant.segments other name before (same.mp named) with
        ⟨segment, found, contents⟩
      refine ⟨segment, ?_, ?_⟩
      · exact names other name segment before inUse (same.mp named) found
      · rw [written other before]
        exact segments segment _ contents
    · rw [effect.getElem] at after named
      split at after
      · rename_i here
        subst here
        rw [if_pos rfl] at named
        exact own after before name named
      · exact absurd after before
  case handles =>
    intro member other handle alive cachedNow
    have holding : Holds (next.base.processes member) other := by
      rw [Holds, cachedNow]
      rfl
    have after := registered.used ⟨alive, Or.inl holding⟩
    by_cases same : member = caller
    · subst same
      rw [effect.process_self] at alive cachedNow
      rcases cached alive other handle cachedNow with
        cachedBefore | ⟨rfl, record, opened, named, found⟩
      · exact kept member other handle effect.alive cachedBefore after
      · refine ⟨record, opened, ?_, found⟩
        rw [effect.getElem, if_pos rfl]
        exact named
    · rw [effect.process_of_ne same] at alive cachedNow
      exact kept member other handle alive cachedNow after

end CallRules

/-! ## Handles and entries of one process -/

theorem paired_of_same
    {before process : Process} (paired : Paired before)
    (cache : process.dataTableCache = before.dataTableCache)
    (map : process.dataTableCacheMap = before.dataTableCacheMap) :
    Paired process := by
  intro slot
  have same := paired slot
  rw [Holds, cache]
  simp only [indexOf, map]
  exact same

/-- A process gets a handle together with the entry for it. -/
theorem paired_cacheName
    {process : Process} (paired : Paired process) {slot : SlotIndex}
    {name : CString} (absent : indexOf process name.val = none)
    (handle : PShm) :
    Paired
      { ({ process with
            dataTableCache :=
              put process.dataTableCache slot (some handle) }).cacheName
            name slot true with
        dead := false } := by
  have missing : hashStringFind process.dataTableCacheMap name.val = none :=
    Option.map_eq_none_iff.mp absent
  have added (text : Bytes) :
      (hashStringFind
            (hashStringAdd process.dataTableCacheMap name.val slot true).1
            text).map HashStringEntry.value =
        if text = name.val then some slot else indexOf process text := by
    split
    · rename_i same
      rw [same, hashStringFind_add_self missing]
      rfl
    · rename_i different
      rw [hashStringFind_add_of_ne _ different, indexOf]
  intro other
  show
    (put process.dataTableCache slot (some handle))[other].isSome ↔
      ∃ text : Bytes,
        (hashStringFind
            (hashStringAdd process.dataTableCacheMap name.val slot true).1
            text).map HashStringEntry.value =
          some other
  simp only [added]
  by_cases same : other = slot
  · subst same
    rw [getElem_put_self]
    exact iff_of_true rfl ⟨name.val, if_pos rfl⟩
  · rw [getElem_put_of_ne _ _ same]
    refine (paired other).trans ⟨?_, ?_⟩
    · rintro ⟨text, present⟩
      refine ⟨text, ?_⟩
      rw [if_neg]
      · exact present
      · rintro rfl
        rw [absent] at present
        cases present
    · rintro ⟨text, present⟩
      split at present
      · cases present
        exact absurd rfl same
      · exact ⟨text, present⟩

/-- A process gives a handle back together with the entry for it. -/
theorem paired_of_unlink
    {before process : Process} (paired : Paired before)
    {slot : SlotIndex} {name : CString}
    (only :
      ∀ other text, indexOf before text = some other →
        (other = slot ↔ text = name.val))
    (cache :
      process.dataTableCache = put before.dataTableCache slot none)
    (forgets : indexOf process name.val = none)
    (remembers :
      ∀ other, other ≠ name.val →
        indexOf process other = indexOf before other) :
    Paired process := by
  intro other
  by_cases same : other = slot
  · subst same
    have nothing : ¬ Holds process other := by
      rw [RefCount.holds_set_self cache]
      exact nofun
    apply iff_of_false nothing
    rintro ⟨text, present⟩
    by_cases equal : text = name.val
    · subst equal
      rw [forgets] at present
      cases present
    · rw [remembers text equal] at present
      exact equal ((only other text present).mp rfl)
  · rw [RefCount.holds_set_of_ne same cache, paired other]
    constructor
    · rintro ⟨text, present⟩
      refine ⟨text, ?_⟩
      rw [remembers]
      · exact present
      · exact fun equal => same ((only other text present).mpr equal)
    · rintro ⟨text, present⟩
      refine ⟨text, ?_⟩
      rw [← remembers]
      · exact present
      · rintro rfl
        rw [forgets] at present
        cases present

/-- Nobody finds a name which no slot in use has. -/
theorem Invariant.absent_of_new
    (invariant : Invariant config) {caller : Fin count}
    (alive : (config.base.processes caller).dead = false)
    {name : CString} (new : New config.base.table name) :
    indexOf (config.base.processes caller) name.val = none := by
  cases present :
      indexOf (config.base.processes caller) name.val with
  | none => rfl
  | some slot =>
      have used :=
        invariant.registered.used ⟨alive, Or.inr ⟨name.val, present⟩⟩
      rcases invariant.registered.entries caller name.val slot alive
          present with ⟨text, same, named⟩
      have equal : text = name := Subtype.ext same
      subst equal
      exact absurd named (new slot used)

/-- The entries of a slot are those of its name. -/
theorem Invariant.only
    (invariant : Invariant config) {caller : Fin count}
    (alive : (config.base.processes caller).dead = false)
    {slot : SlotIndex} {name : CString}
    (usedSlot : Used config.base.table[slot])
    (namedSlot : Named config.base.table[slot] name)
    (other : SlotIndex) (text : Bytes)
    (present :
      indexOf (config.base.processes caller) text = some other) :
    other = slot ↔ text = name.val := by
  have used :=
    invariant.registered.used ⟨alive, Or.inr ⟨text, present⟩⟩
  rcases invariant.registered.entries caller text other alive present with
    ⟨own, rfl, named⟩
  constructor
  · rintro rfl
    exact congrArg Subtype.val (named_unique named namedSlot)
  · intro same
    have equal : own = name := Subtype.ext same
    subst equal
    exact invariant.registered.distinct other slot own used usedSlot named
      namedSlot

/-! ## The steps -/

variable {caller : Fin count} {system : System CString}

/-- A call which leaves the segments and the links of its caller alone. -/
theorem Invariant.of_idle
    (invariant : Invariant config) {base : Table.Config count}
    {process : Process} (idle : Idle config.base base caller process) :
    Invariant { config with base } := by
  apply invariant.of_effect idle.effect
  case sound => exact invariant.sound
  case tableKept => exact invariant.tableKept.of_idle invariant.registered idle
  case paired =>
    intro _
    exact paired_of_same (invariant.paired caller idle.effect.alive)
      idle.cache idle.map
  case names => exact fun _ _ _ _ _ _ found => found
  case segments => exact fun _ _ found => found
  case handles => exact fun _ _ found => found
  case written => exact fun _ _ => rfl
  case own => exact fun used unused => absurd used unused
  case cached =>
    intro _ other handle cached
    rw [idle.cache] at cached
    exact Or.inl cached

theorem Invariant.of_linkToProcess
    (invariant : Invariant config)
    (alive : (config.base.processes caller).dead = false) {opens : Bool}
    (linked : config.linkToProcess system caller opens = some next) :
    Invariant next := by
  have tableKept :=
    invariant.tableKept.of_linkToProcess invariant.registered alive linked
  rw [invariant.tableKept.linkToProcess_eq alive] at linked
  split at linked
  · cases linked
    exact invariant
  split at linked
  case isFalse =>
    cases linked
    exact invariant
  cases linked
  have opened :=
    pShmNew_of_present system config.tableName tableLength true
      invariant.tableKept.found
  have away :=
    away_pShmNew system config.tableName tableLength true config.memory
  apply invariant.of_effect
    (effect_of_linkToProcess invariant.registered alive)
  case sound =>
    exact sound_pShmNew system config.tableName tableLength true
      invariant.sound
  case tableKept => exact tableKept
  case paired =>
    intro _
    rcases linkToProcess_cases (config.base.processes caller) with
      same | ⟨released, nothing, -⟩
    · rw [same]
      exact invariant.paired caller alive
    · intro slot
      apply iff_of_false (released slot)
      rintro ⟨name, present⟩
      rw [nothing] at present
      cases present
  case names =>
    intro _ name segment _ _ _ found
    show
      (pShmNew system config.memory config.tableName tableLength
        true).1.names name = _
    rw [opened.1]
    exact found
  case segments => exact away.segments
  case handles => exact away.handles
  case written => exact fun _ _ => rfl
  case own => exact fun used unused => absurd used unused
  case cached =>
    intro _ slot handle cached
    rcases linkToProcess_cases (config.base.processes caller) with
      same | ⟨released, -, -⟩
    · rw [same] at cached
      exact Or.inl cached
    · have holding :
          Holds (wimpDataLinkToProcess (config.base.processes caller))
            slot := by
        rw [Holds, cached]
        rfl
      exact absurd holding (released slot)

section Reservations

variable {base : Table.Config count} {name : CString} {size : Nat}
variable {first second : Bool}

/-- A segment which is not used was nobody's, and is closed again. -/
theorem Invariant.of_failed
    (invariant : Invariant config)
    (alive : (config.base.processes caller).dead = false)
    (new : first = true → New config.base.table name)
    (free : findFree config.base.table = some slot)
    (effect :
      Effect config.base base caller slot
        (withName config.base.table[slot] name)
        { config.base.processes caller with dead := false } none)
    (tableKept :
      let created :=
        wimpCreateFreshShm system config.memory name size first second
      TableKept
        { config with
          base, memory := pShmFree system created.1 created.2.handle }) :
    let created :=
      wimpCreateFreshShm system config.memory name size first second
    Invariant
      { config with
        base, memory := pShmFree system created.1 created.2.handle } := by
  have away :=
    away_free_wimpCreateFreshShm system name size first second
      config.memory
  apply invariant.of_effect effect
  case sound =>
    exact sound_pShmFree system
      (sound_wimpCreateFreshShm system name size first second
        invariant.sound) _
  case tableKept => exact tableKept
  case paired =>
    intro _
    exact paired_of_same (invariant.paired caller alive) rfl rfl
  case names =>
    intro other text segment used _ has found
    by_cases same : text = name
    · subst same
      cases first with
      | true => exact absurd has (new rfl other used)
      | false =>
          exact names_free_wimpCreateFreshShm system text size second found
    · rw [← found]
      exact away.names text same
  case segments => exact away.segments
  case handles => exact away.handles
  case written => exact fun _ _ => rfl
  case own => exact fun used => absurd used (free_of_findFree free)
  case cached => exact fun _ _ _ cached => Or.inl cached

/-- A reserved slot gets a segment which nobody has. -/
theorem Invariant.of_succeeded
    (invariant : Invariant config)
    (alive : (config.base.processes caller).dead = false)
    (new : first = true → New config.base.table name)
    (free : findFree config.base.table = some slot)
    (succeeds :
      Succeeds
        (wimpCreateFreshShm system config.memory name size first second).2
        size)
    (effect :
      Effect config.base base caller slot
        (reservedSlot config.base.table[slot] name size)
        { ({ config.base.processes caller with
              dataTableCache :=
                put (config.base.processes caller).dataTableCache slot
                  (wimpCreateFreshShm system config.memory name size first
                    second).2.handle }).cacheName name slot true with
          dead := false }
        (some (name, size)))
    (tableKept :
      let created :=
        wimpCreateFreshShm system config.memory name size first second
      TableKept
        { config with
          base
          memory := created.1
          written :=
            Function.update config.written slot
              (contentsOf created.1 name) }) :
    let created :=
      wimpCreateFreshShm system config.memory name size first second
    Invariant
      { config with
        base
        memory := created.1
        written :=
          Function.update config.written slot
            (contentsOf created.1 name) } := by
  have away :=
    away_wimpCreateFreshShm system name size first second config.memory
  rcases wimpCreateFreshShm_of_succeeds system name size first second
      succeeds with
    ⟨isFirst, handle, segment, owned, fresh, opened, found, contents, -, -⟩
  have namedSlot :
      Named (reservedSlot config.base.table[slot] name size) name :=
    named_withName config.base.table[slot] name
  apply invariant.of_effect effect
  case sound =>
    exact sound_wimpCreateFreshShm system name size first second
      invariant.sound
  case tableKept => exact tableKept
  case paired =>
    intro _
    rw [fresh]
    exact paired_cacheName (invariant.paired caller alive)
      (invariant.absent_of_new alive (new isFirst)) handle
  case names =>
    intro other text number used _ has foundText
    rw [← foundText]
    apply away.names
    rintro rfl
    exact new isFirst other used has
  case segments => exact away.segments
  case handles => exact away.handles
  case written =>
    intro other used
    apply Function.update_of_ne
    rintro rfl
    exact free_of_findFree free used
  case own =>
    intro _ _ text has
    have equal := named_unique has namedSlot
    subst equal
    refine ⟨segment, found, ?_⟩
    show _ = some (Function.update config.written slot _ slot)
    rw [Function.update_self]
    exact contents
  case cached =>
    intro _ other cachedHandle cached
    rcases cached_cacheName cached with before | ⟨same, now⟩
    · exact Or.inl before
    · refine Or.inr ⟨same, ⟨name, segment, owned⟩, ?_, namedSlot, found⟩
      cases fresh.symm.trans now
      exact opened

/-- A reservation makes a segment which nobody has, or none. -/
theorem Invariant.of_reserve
    (invariant : Invariant config) {granted : Bool}
    (alive : (config.base.processes caller).dead = false)
    (clean :
      Clean config (.reserve caller name size first second granted))
    (reserved :
      config.reserve system caller name size first second granted =
        some next) :
    Invariant next := by
  have allowed :
      Allowed config.base
        (.reserve caller name size
          (wimpCreateFreshShm system config.memory name size first
            second).2 granted) := by
    intro free
    refine ⟨(clean free).1, fun succeeds => ((clean free).2.1 ?_).1⟩
    exact (wimpCreateFreshShm_of_succeeds system name size first second
      succeeds).1
  have tableKept :=
    invariant.tableKept.of_reserve invariant.registered alive allowed
      (fun free isFirst => ((clean free).2.1 isFirst).2) reserved
  rcases Option.map_eq_some_iff.mp reserved with ⟨base, stepped, rfl⟩
  rw [Table.step, if_neg (by simp [Table.Action.caller, alive])] at stepped
  have named (slot : SlotIndex)
      (free : findFree config.base.table = some slot) :
      (copyName config.base.table slot name).isSome = true := by
    rw [copyName_of_fits _ slot (clean (by rw [free]; rfl)).1]
    rfl
  cases reserve_cases invariant.registered alive allowed stepped with
  | idle process none idle =>
      split
      · exact invariant.of_idle idle
      · rename_i slot free
        rcases none with detached | full
        · rw [if_neg (by simp [detached])]
          exact invariant.of_idle idle
        · rw [full] at free
          cases free
  | failed slot attached free fails effect =>
      have guards := clean (by rw [free]; rfl)
      rw [free] at tableKept ⊢
      dsimp only at tableKept ⊢
      rw [if_pos ⟨attached, named slot free⟩, if_neg fails]
        at tableKept ⊢
      exact
        invariant.of_failed alive (fun isFirst => (guards.2.1 isFirst).1)
          free effect tableKept
  | succeeded slot attached free succeeds effect =>
      have guards := clean (by rw [free]; rfl)
      rw [free] at tableKept ⊢
      dsimp only at tableKept ⊢
      rw [if_pos ⟨attached, named slot free⟩, if_pos succeeds]
        at tableKept ⊢
      rw [guards.2.2] at effect
      exact
        invariant.of_succeeded alive
          (fun isFirst => (guards.2.1 isFirst).1) free succeeds effect
          tableKept

end Reservations

/-- A link opens the segment which the holders of the slot share. -/
theorem Invariant.of_linkToData
    (invariant : Invariant config) {name : CString} {opens granted : Bool}
    (alive : (config.base.processes caller).dead = false)
    (clean : Clean config (.linkToData caller name opens granted))
    (linked :
      config.linkToData system caller name opens granted =
        some next) :
    Invariant next := by
  have allowed :
      Allowed config.base
        (.linkToData caller name
          (config.openForLink system caller name opens).2 granted) :=
    fun slot used named => (clean slot used named).1
  have tableKept :=
    invariant.tableKept.of_linkToData invariant.registered alive allowed
      linked
  rcases Option.map_eq_some_iff.mp linked with ⟨base, stepped, rfl⟩
  rw [Table.step, if_neg (by simp [Table.Action.caller, alive])] at stepped
  cases linkToData_cases invariant.registered alive allowed stepped with
  | idle process none idle =>
      rw [openForLink_of_idle none]
      exact invariant.of_idle idle
  | linked slot attached found free effect =>
      rcases used_named_of_findName invariant.registered.allNamed found with
        ⟨used, named⟩
      have released :
          ¬ Holds (config.base.processes caller) slot := by
        rw [Holds, free]
        exact Bool.false_ne_true
      rcases (clean slot used named).2 released with ⟨opensTrue, isGranted⟩
      subst opensTrue isGranted
      rw [openForLink_of_found attached found free] at effect tableKept ⊢
      rcases invariant.segments slot name used named with
        ⟨segment, present, contents⟩
      have away :=
        away_pShmNew system name config.base.table[slot].size true
          config.memory
      have opened :=
        pShmNew_of_present system name config.base.table[slot].size true
          present
      apply invariant.of_effect effect
      case sound =>
        exact sound_pShmNew system name _ true invariant.sound
      case tableKept => exact tableKept
      case paired =>
        intro _
        apply paired_cacheName (invariant.paired caller alive)
        cases absent :
            indexOf (config.base.processes caller) name.val with
        | none => rfl
        | some other =>
            have here := (invariant.only alive used named other name.val
              absent).mpr rfl
            subst here
            exact absurd
              ((invariant.paired caller alive other).mpr ⟨_, absent⟩)
              released
      case names =>
        intro other text number _ _ _ foundText
        show (pShmNew system config.memory name _ true).1.names text = _
        rw [opened.1]
        exact foundText
      case segments => exact away.segments
      case handles => exact away.handles
      case written => exact fun _ _ => rfl
      case own => exact fun _ unused => absurd used unused
      case cached =>
        intro _ other handle cached
        rcases cached_cacheName cached with before | ⟨same, now⟩
        · exact Or.inl before
        · refine Or.inr ⟨same, ⟨name, segment, false⟩, ?_, named, ?_⟩
          · cases now
            exact opened.2.2 rfl
          · show (pShmNew system config.memory name _ true).1.names name = _
            rw [opened.1]
            exact present

/-- A holder which is not the last leaves the segment behind. -/
theorem Invariant.of_unlinkFromData
    (invariant : Invariant config) {name : CString}
    (alive : (config.base.processes caller).dead = false)
    (admissible : Admissible config (.unlinkFromData caller name))
    (clean : Clean config (.unlinkFromData caller name))
    (unlinked : config.unlinkFromData system caller name = some next) :
    Invariant next := by
  have allowed : Allowed config.base (.unlinkFromData caller name) :=
    fun slot used named => ⟨alive, Or.inl (admissible slot used named)⟩
  have tableKept :=
    invariant.tableKept.of_unlinkFromData invariant.registered alive allowed
      unlinked
  rcases Option.map_eq_some_iff.mp unlinked with ⟨base, stepped, rfl⟩
  rw [Table.step, if_neg (by simp [Table.Action.caller, alive])] at stepped
  cases unlinkFromData_cases invariant.registered alive allowed stepped with
  | idle process none idle =>
      split
      · rename_i slot found
        rcases none with detached | missing
        · rw [if_neg (by simp [detached])]
          exact invariant.of_idle idle
        · rw [missing] at found
          cases found
      · exact invariant.of_idle idle
  | unlinked slot following process attached found named last process_cases
      effect =>
      have used := (used_named_of_findName invariant.registered.allNamed
        found).1
      rw [found] at tableKept ⊢
      dsimp only at tableKept ⊢
      rw [if_pos attached] at tableKept ⊢
      have freed :
          Away name config.memory
              (pShmFree system config.memory
                (config.base.processes caller).dataTableCache[slot]) ∧
            (config.base.table[slot].shareCounter ≠ 1 →
              pShmFree system config.memory
                  (config.base.processes caller).dataTableCache[slot] =
                config.memory) := by
        cases cached :
            (config.base.processes caller).dataTableCache[slot] with
        | none => exact ⟨Away.refl name config.memory, fun _ => rfl⟩
        | some handle =>
            rcases invariant.handles caller slot handle alive cached with
              ⟨record, opened, own, -⟩
            have equal := named_unique own named
            refine ⟨equal ▸ away_close system opened, fun more => ?_⟩
            apply close_of_not_owned system opened
            apply Bool.eq_false_iff.mpr
            intro owned
            exact more
              (clean slot used named handle cached record opened owned)
      rcases freed with ⟨away, more⟩
      apply invariant.of_effect effect
      case sound => exact sound_pShmFree system invariant.sound _
      case tableKept => exact tableKept
      case paired =>
        intro lives
        rcases process_cases with dies | ⟨cache, forgets, remembers⟩
        · rw [dies] at lives
          cases lives
        · exact paired_of_unlink (invariant.paired caller alive)
            (invariant.only alive used named) cache forgets remembers
      case names =>
        intro other text segment usedOther inUse has foundText
        by_cases same : text = name
        · subst same
          have here := invariant.registered.distinct other slot text
            usedOther used has named
          rw [more (last (inUse here))]
          exact foundText
        · rw [← foundText]
          exact away.names text same
      case segments => exact away.segments
      case handles => exact away.handles
      case written => exact fun _ _ => rfl
      case own => exact fun _ unused => absurd used unused
      case cached =>
        intro lives other handle cached
        rcases process_cases with dies | ⟨cache, -, -⟩
        · rw [dies] at lives
          cases lives
        · left
          by_cases same : other = slot
          · subst same
            rw [cache, getElem_put_self] at cached
            cases cached
          · rw [cache, getElem_put_of_ne _ _ same] at cached
            exact cached

/-- A write through a handle reaches the segment of its slot alone. -/
theorem Invariant.of_write
    (invariant : Invariant config) {name : CString} {offset : Nat}
    {bytes : Bytes}
    (alive : (config.base.processes caller).dead = false)
    (wrote : config.write caller name offset bytes = some next) :
    Invariant next := by
  have dies :
      Invariant
        { config with
          base :=
            config.base.setProcess caller
              { config.base.processes caller with dead := true } } :=
    invariant.of_idle (invariant.registered.idle alive rfl rfl rfl rfl)
  have tableKept :=
    invariant.tableKept.of_write invariant.registered alive wrote
  unfold Config.write at wrote
  dsimp only at wrote
  split at wrote
  case isFalse =>
    cases wrote
    exact dies
  split at wrote
  · cases wrote
    exact invariant
  rename_i slot present
  split at wrote
  · cases wrote
    exact dies
  rename_i handle cached
  rcases Option.bind_eq_some_iff.mp wrote with ⟨record, opened, wrote⟩
  rcases Option.bind_eq_some_iff.mp wrote with ⟨before, found, wrote⟩
  rcases Option.bind_eq_some_iff.mp wrote with ⟨contents, spliced, wrote⟩
  cases wrote
  rcases invariant.handles caller slot handle alive cached with
    ⟨own, openedOwn, named, pointed⟩
  cases opened.symm.trans openedOwn
  have used :=
    invariant.registered.used ⟨alive, Or.inr ⟨name.val, present⟩⟩
  constructor
  case registered => exact invariant.registered
  case sound => exact invariant.sound.write record.segment contents
  case tableKept => exact tableKept
  case paired => exact invariant.paired
  case handles => exact invariant.handles
  case segments =>
    intro other text usedOther has
    rcases invariant.segments other text usedOther has with
      ⟨segment, foundOther, holds⟩
    refine ⟨segment, foundOther, ?_⟩
    show
      (config.memory.segments.set record.segment contents)[segment]? =
        some (Function.update config.written slot contents other)
    by_cases same : other = slot
    · subst same
      have equal := named_unique has named
      subst equal
      cases foundOther.symm.trans pointed
      rw [Function.update_self]
      exact List.getElem?_set_self (List.getElem?_eq_some_iff.mp found).1
    · rw [Function.update_of_ne same, List.getElem?_set_ne]
      · exact holds
      · rintro rfl
        have equal :=
          invariant.sound.injective text record.name _ foundOther pointed
        subst equal
        exact same (invariant.registered.distinct other slot _ usedOther
          used has named)

/-- One guarded step keeps the invariant. -/
theorem Invariant.of_step
    (invariant : Invariant config) {action : Action count}
    (admissible : Admissible config action) (clean : Clean config action)
    (stepped : step system config action = some next) :
    Invariant next := by
  unfold step at stepped
  split at stepped
  · cases stepped
  rename_i notDead
  have alive : (config.base.processes action.caller).dead = false := by
    simpa using notDead
  cases action with
  | linkToProcess caller opens =>
      exact invariant.of_linkToProcess alive stepped
  | reserve caller name size first second granted =>
      exact invariant.of_reserve alive clean stepped
  | linkToData caller name opens granted =>
      exact invariant.of_linkToData alive clean stepped
  | unlinkFromData caller name =>
      exact invariant.of_unlinkFromData alive admissible clean stepped
  | write caller name offset bytes => exact invariant.of_write alive stepped

/-- The calls which keep the names apart. -/
def Guarded (config : Config count) (action : Action count) : Prop :=
  Admissible config action ∧ Clean config action

instance (config : Config count) (action : Action count) :
    Decidable (Guarded config action) :=
  inferInstanceAs (Decidable (_ ∧ _))

/-- Along every run of guarded calls the names identify the slots in use. -/
theorem identified_of_guarded
    (system : System CString) (maker : Fin count) (tableName : CString)
    {actions : List (Action count)}
    (guarded :
      Along (step system) Guarded (.initial system maker tableName) actions)
    (ran :
      run (step system) (.initial system maker tableName) actions =
        some config) :
    Identified config :=
  (run_induction_along (motive := fun _ config => Invariant config)
    (invariant_initial system maker tableName)
    (fun _ _ _ _ invariant guarded stepped =>
      invariant.of_step guarded.1 guarded.2 stepped)
    guarded ran).identified

/-! ## Two runs -/

/-- The name `n`. -/
def nameN : CString := .ofBytes [0x6e]

/-- The name `t`, which the table has. -/
def nameT : CString := .ofBytes [0x74]

/-- The state behind a `wimp_data_init` in a system in memory. -/
def start {count : Nat} (createdOwned : Bool) (maker : Fin count) :
    Config count :=
  .initial (memorySystem createdOwned) maker nameT

/-- Two processes share a segment until the one which made it is the last. -/
def shared (first second : Fin 2) : List (Action 2) :=
  [.linkToProcess second true, .reserve first nameN 4 true true true,
    .linkToData second nameN true true, .write second nameN 1 [7, 8],
    .write first nameN 0 [5], .unlinkFromData second nameN]

theorem identified_shared :
    ∃ config,
      run (step (memorySystem true)) (start true 0) (shared 0 1) =
          some config ∧
        Identified config := by
  rcases Option.isSome_iff_exists.mp
    (show
      (run (step (memorySystem true)) (start true 0) (shared 0 1)).isSome
      by decide +kernel) with
    ⟨config, ran⟩
  exact ⟨config, ran,
    identified_of_guarded (memorySystem true) 0 nameT (by decide +kernel)
      ran⟩

/-- A second process reserves the name which the first one has written to. -/
def reservedTwice (first second : Fin 2) : List (Action 2) :=
  [.linkToProcess second true, .reserve first nameN 4 true true true,
    .write first nameN 0 [5], .reserve second nameN 4 true true true]

/-- Two slots in use have the name. -/
theorem not_identified_reservedTwice :
    Along (step (memorySystem true)) Admissible (start true 0)
        (reservedTwice 0 1) ∧
      ∃ config,
        run (step (memorySystem true)) (start true 0) (reservedTwice 0 1) =
            some config ∧
          ¬ Identified config := by
  refine ⟨by decide +kernel, ?_⟩
  have last :
      (run (step (memorySystem true)) (start true 0)
          (reservedTwice 0 1)).map
          (fun config =>
            let named (slot : SlotIndex) : Bool :=
              Used config.base.table[slot] ∧
                Named config.base.table[slot] nameN
            (named 0, named 1)) =
        some (true, true) := by
    decide +kernel
  rcases Option.map_eq_some_iff.mp last with ⟨config, ran, left⟩
  rcases Prod.mk.inj left with ⟨first, second⟩
  refine ⟨config, ran, fun identified => ?_⟩
  have one := of_decide_eq_true first
  have two := of_decide_eq_true second
  have equal :=
    identified.distinct 0 1 nameN one.1 two.1 one.2 two.2
  cases equal

end Wimp.Data.Segments
