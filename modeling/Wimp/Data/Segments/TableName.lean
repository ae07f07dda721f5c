import Wimp.Data.Segments

/-!
# The name of the table

The table is found by its name, and its name is one among those of the system:
a reservation of this name would make another segment of it, and who attaches
later would get another table.  As long as nobody reserves the name of the
table, it leads to the table, and everybody who attaches shares it.
-/

namespace Wimp.Data.Segments

open Wimp.Lib.ByteRegion
open Wimp.Lib.SharedMemory
open Wimp.Data.Registry
open Wimp.Data.RefCount (Holds)
open Wimp.Data.Table
  (PShm Process SlotIndex WimpDataSlot getElem_put_of_ne getElem_put_self put
    wimpDataLinkToProcess)

variable {count : Nat} {config next : Config count}

/--
The name of the table leads to its segment, and neither a slot in use nor a
handle in the cache of a process has this name.
-/
structure TableKept (config : Config count) : Prop where
  found : config.memory.names config.tableName = some config.tableSegment
  slots :
    ∀ slot : SlotIndex, Used config.base.table[slot] →
      ¬ Named config.base.table[slot] config.tableName
  handles :
    ∀ process (slot : SlotIndex) (handle : PShm),
      (config.base.processes process).dead = false →
        (config.base.processes process).dataTableCache[slot] =
            some handle →
          ∃ record : Handle CString,
            config.memory.handles[handle]? = some record ∧
              record.name ≠ config.tableName

/-- The handles of a process which got one more. -/
theorem cached_cacheName
    {process : Process} {slot other : SlotIndex} {name : CString}
    {shm : Option PShm} {granted dead : Bool} {handle : PShm}
    (cached :
      ({ ({ process with
              dataTableCache :=
                put process.dataTableCache slot shm }).cacheName name slot
              granted with
          dead } : Process).dataTableCache[other] =
        some handle) :
    process.dataTableCache[other] = some handle ∨
      other = slot ∧ shm = some handle := by
  change (put process.dataTableCache slot shm)[other] = some handle at cached
  by_cases same : other = slot
  · subst same
    rw [getElem_put_self] at cached
    exact Or.inr ⟨rfl, cached⟩
  · rw [getElem_put_of_ne _ _ same] at cached
    exact Or.inl cached

/-- The segment of a table which was just made has its name. -/
theorem names_initial
    (system : System CString) (maker : Fin count) (tableName : CString) :
    (Config.initial system maker tableName).memory.names tableName =
      some (Config.initial system maker tableName).tableSegment := by
  rcases handle_openSegment system
      (system.discard {} tableName tableLength) tableName tableLength with
    ⟨segment, owned, -, found⟩
  have named :
      (wimpCreateFreshShm system {} tableName tableLength true
        true).1.names tableName = some segment := by
    rw [wimpCreateFreshShm_eq]
    exact found
  show _ = some (((wimpCreateFreshShm system {} tableName tableLength true
    true).1.names tableName).getD 0)
  rw [named]
  exact named

theorem tableKept_initial
    (system : System CString) (maker : Fin count) (tableName : CString) :
    TableKept (Config.initial system maker tableName) := by
  constructor
  case found => exact names_initial system maker tableName
  case slots =>
    intro slot used
    simp [Config.initial, Table.Config.setProcess, Used] at used
  case handles =>
    intro process slot handle alive cached
    by_cases same : process = maker
    · subst same
      simp [Config.initial, Table.Config.setProcess,
        wimpDataLinkToProcess] at cached
    · simp [Config.initial, Table.Config.setProcess, same] at cached

section Steps

variable {system : System CString} {caller : Fin count}

/--
A call keeps the name of the table when it reserves another one, and the
handle which its caller gets has another one.
-/
theorem TableKept.of_effect
    (kept : TableKept config) (registered : Registered config.base)
    {base : Table.Config count} {memory : SystemMemory}
    {written : SlotIndex → Bytes} {slot : SlotIndex}
    {following : WimpDataSlot} {process : Process}
    {reservation : Option (CString × Nat)}
    (effect :
      Effect config.base base caller slot following process reservation)
    (names :
      memory.names config.tableName = config.memory.names config.tableName)
    (handles :
      ∀ (handle : Nat) (record : Handle CString),
        config.memory.handles[handle]? = some record →
          memory.handles[handle]? = some record)
    (apart :
      ∀ name size, reservation = some (name, size) →
        name ≠ config.tableName)
    (cached :
      process.dead = false → ∀ (other : SlotIndex) (handle : PShm),
        process.dataTableCache[other] = some handle →
          (config.base.processes caller).dataTableCache[other] =
              some handle ∨
            ∃ record : Handle CString,
              memory.handles[handle]? = some record ∧
                record.name ≠ config.tableName) :
    TableKept { config with base, memory, written } := by
  have old (member : Fin count) (other : SlotIndex) (handle : PShm)
      (alive : (config.base.processes member).dead = false)
      (before :
        (config.base.processes member).dataTableCache[other] =
          some handle) :
      ∃ record : Handle CString,
        memory.handles[handle]? = some record ∧
          record.name ≠ config.tableName := by
    rcases kept.handles member other handle alive before with
      ⟨record, opened, different⟩
    exact ⟨record, handles handle record opened, different⟩
  constructor
  case found => exact names.trans kept.found
  case slots =>
    intro other used named
    change Used base.table[other] at used
    change Named base.table[other] config.tableName at named
    rw [effect.getElem] at used named
    by_cases same : other = slot
    · subst same
      rw [if_pos rfl] at used named
      rcases effect.used_cases registered used with
        ⟨before, content⟩ | ⟨name, size, reserves, -, following_eq, -⟩
      · rw [Named, content.name] at named
        exact kept.slots other before named
      · rw [following_eq] at named
        have own := named_withName config.base.table[other] name
        exact apart name size reserves (named_unique own named)
    · rw [if_neg same] at used named
      exact kept.slots other used named
  case handles =>
    intro member other handle alive present
    change (base.processes member).dead = false at alive
    change (base.processes member).dataTableCache[other] = some handle
      at present
    by_cases same : member = caller
    · subst same
      rw [effect.process_self] at alive present
      rcases cached alive other handle present with before | new
      · exact old member other handle effect.alive before
      · exact new
    · rw [effect.process_of_ne same] at alive present
      exact old member other handle alive present

/-- A call which leaves the segments and the links of its caller alone. -/
theorem TableKept.of_idle
    (kept : TableKept config) (registered : Registered config.base)
    {base : Table.Config count} {process : Process}
    (idle : Idle config.base base caller process) :
    TableKept { config with base } := by
  apply kept.of_effect registered idle.effect
  case names => rfl
  case handles => exact fun _ _ => id
  case apart => exact fun _ _ reserves => nomatch reserves
  case cached =>
    intro _ other handle cached
    rw [idle.cache] at cached
    exact Or.inl cached

/-- Everybody who attaches while the name is kept gets the table. -/
theorem TableKept.linkToProcess_eq
    (kept : TableKept config)
    (alive : (config.base.processes caller).dead = false) (opens : Bool) :
    config.linkToProcess system caller opens =
      if (config.base.processes caller).isTableLinked then some config
      else if opens then
        some
          { config with
            base :=
              config.base.setProcess caller
                (wimpDataLinkToProcess (config.base.processes caller))
            memory :=
              (pShmNew system config.memory config.tableName tableLength
                true).1 }
      else some config := by
  unfold Config.linkToProcess
  split
  · rfl
  cases opens with
  | false => rfl
  | true =>
      have opened :=
        pShmNew_of_present system config.tableName tableLength true
          kept.found
      dsimp only
      rw [if_neg (by simp [pShmNew]), opened.1, if_pos kept.found,
        Table.step, if_neg (by simp [Table.Action.caller, alive])]
      rfl

/-- Attaching opens the name of the table once more. -/
theorem TableKept.of_linkToProcess
    (kept : TableKept config) (registered : Registered config.base)
    (alive : (config.base.processes caller).dead = false) {opens : Bool}
    (linked : config.linkToProcess system caller opens = some next) :
    TableKept next := by
  rw [kept.linkToProcess_eq alive] at linked
  split at linked
  · cases linked
    exact kept
  split at linked
  · cases linked
    have opened :=
      pShmNew_of_present system config.tableName tableLength true kept.found
    apply kept.of_effect registered
      (effect_of_linkToProcess registered alive)
    case names => rw [opened.1]
    case handles =>
      exact (away_pShmNew system config.tableName tableLength true
        config.memory).handles
    case apart => exact fun _ _ reserves => nomatch reserves
    case cached =>
      intro _ slot handle cached
      rcases linkToProcess_cases (config.base.processes caller) with
        same | ⟨released, -, -⟩
      · rw [same] at cached
        exact Or.inl cached
      · have holding :
            Holds (wimpDataLinkToProcess (config.base.processes caller))
              slot := by
          rw [Holds, cached]
          rfl
        exact absurd holding (released slot)
  · cases linked
    exact kept

/-- A reservation of another name does not touch the table's. -/
theorem TableKept.of_reserve
    (kept : TableKept config) (registered : Registered config.base)
    {name : CString} {size : Nat} {first second granted : Bool}
    (alive : (config.base.processes caller).dead = false)
    (allowed :
      Allowed config.base
        (.reserve caller name size
          (wimpCreateFreshShm system config.memory name size first second).2
          granted))
    (apart :
      (Table.findFree config.base.table).isSome → first = true →
        name ≠ config.tableName)
    (reserved :
      config.reserve system caller name size first second granted =
        some next) :
    TableKept next := by
  rcases Option.map_eq_some_iff.mp reserved with ⟨base, stepped, rfl⟩
  rw [Table.step, if_neg (by simp [Table.Action.caller, alive])] at stepped
  have named (slot : SlotIndex)
      (free : Table.findFree config.base.table = some slot) :
      (Table.copyName config.base.table slot name).isSome = true := by
    rw [copyName_of_fits _ slot (allowed (by rw [free]; rfl)).1]
    rfl
  cases reserve_cases registered alive allowed stepped with
  | idle process none idle =>
      split
      · exact kept.of_idle registered idle
      · rename_i slot free
        rcases none with detached | full
        · rw [if_neg (by simp [detached])]
          exact kept.of_idle registered idle
        · rw [full] at free
          cases free
  | failed slot attached free fails effect =>
      rw [free]
      dsimp only
      rw [if_pos ⟨attached, named slot free⟩, if_neg fails]
      have away :=
        away_free_wimpCreateFreshShm system name size first second
          config.memory
      apply kept.of_effect registered effect
      case names =>
        by_cases same : name = config.tableName
        · cases first with
          | true => exact absurd same (apart (by rw [free]; rfl) rfl)
          | false =>
              rw [kept.found, ← same]
              exact names_free_wimpCreateFreshShm system name size second
                (by rw [same]; exact kept.found)
        · exact away.names config.tableName (Ne.symm same)
      case handles => exact away.handles
      case apart =>
        intro own number reserves
        cases reserves
      case cached => exact fun _ _ _ cached => Or.inl cached
  | succeeded slot attached free succeeds effect =>
      rw [free]
      dsimp only
      rw [if_pos ⟨attached, named slot free⟩, if_pos succeeds]
      have away :=
        away_wimpCreateFreshShm system name size first second config.memory
      rcases wimpCreateFreshShm_of_succeeds system name size first second
          succeeds with
        ⟨isFirst, handle, segment, owned, fresh, opened, -⟩
      have different := apart (by rw [free]; rfl) isFirst
      apply kept.of_effect registered effect
      case names => exact away.names config.tableName different.symm
      case handles => exact away.handles
      case apart =>
        intro own number reserves
        cases reserves
        exact different
      case cached =>
        intro _ other own cached
        rcases cached_cacheName cached with before | ⟨-, now⟩
        · exact Or.inl before
        · cases fresh.symm.trans now
          exact Or.inr ⟨_, opened, different⟩

/-- Links open the names of slots, which are not the table's. -/
theorem TableKept.of_linkToData
    (kept : TableKept config) (registered : Registered config.base)
    {name : CString} {opens granted : Bool}
    (alive : (config.base.processes caller).dead = false)
    (allowed :
      Allowed config.base
        (.linkToData caller name
          (config.openForLink system caller name opens).2 granted))
    (linked :
      config.linkToData system caller name opens granted = some next) :
    TableKept next := by
  rcases Option.map_eq_some_iff.mp linked with ⟨base, stepped, rfl⟩
  rw [Table.step, if_neg (by simp [Table.Action.caller, alive])] at stepped
  cases linkToData_cases registered alive allowed stepped with
  | idle process none idle =>
      rw [openForLink_of_idle none]
      exact kept.of_idle registered idle
  | linked slot attached found free effect =>
      rcases used_named_of_findName registered.allNamed found with
        ⟨used, named⟩
      have different : name ≠ config.tableName := by
        rintro rfl
        exact kept.slots slot used named
      rw [openForLink_of_found attached found free] at effect ⊢
      have away :=
        away_pShmNew system name config.base.table[slot].size opens
          config.memory
      apply kept.of_effect registered effect
      case names => exact away.names config.tableName different.symm
      case handles => exact away.handles
      case apart =>
        intro own number reserves
        cases reserves
      case cached =>
        intro _ other handle cached
        rcases cached_cacheName cached with before | ⟨-, now⟩
        · exact Or.inl before
        · cases opens with
          | false => cases now
          | true =>
              rcases handle_openSegment system config.memory name
                  config.base.table[slot].size with
                ⟨segment, owned, opened, -⟩
              cases now
              exact Or.inr ⟨_, opened, different⟩

/-- A handle which is closed has not the name of the table. -/
theorem TableKept.of_unlinkFromData
    (kept : TableKept config) (registered : Registered config.base)
    {name : CString}
    (alive : (config.base.processes caller).dead = false)
    (allowed : Allowed config.base (.unlinkFromData caller name))
    (unlinked : config.unlinkFromData system caller name = some next) :
    TableKept next := by
  rcases Option.map_eq_some_iff.mp unlinked with ⟨base, stepped, rfl⟩
  rw [Table.step, if_neg (by simp [Table.Action.caller, alive])] at stepped
  cases unlinkFromData_cases registered alive allowed stepped with
  | idle process none idle =>
      split
      · rename_i slot found
        rcases none with detached | missing
        · rw [if_neg (by simp [detached])]
          exact kept.of_idle registered idle
        · rw [missing] at found
          cases found
      · exact kept.of_idle registered idle
  | unlinked slot following process attached found named last process_cases
      effect =>
      rw [found]
      dsimp only
      rw [if_pos attached]
      have freed :
          (pShmFree system config.memory
              (config.base.processes caller).dataTableCache[slot]).names
              config.tableName =
            config.memory.names config.tableName := by
        cases cached :
            (config.base.processes caller).dataTableCache[slot] with
        | none => rfl
        | some handle =>
            rcases kept.handles caller slot handle alive cached with
              ⟨record, opened, different⟩
            exact (away_close system opened).names config.tableName
              different.symm
      apply kept.of_effect registered effect
      case names => exact freed
      case handles =>
        intro handle record opened
        rwa [handles_pShmFree]
      case apart =>
        intro own number reserves
        cases reserves
      case cached =>
        intro lives other handle cached
        rcases process_cases with dies | ⟨cache, -, -⟩
        · cases dies.symm.trans lives
        · left
          by_cases same : other = slot
          · subst same
            rw [cache, getElem_put_self] at cached
            cases cached
          · rw [cache, getElem_put_of_ne _ _ same] at cached
            exact cached

/-- A write goes through a handle, and changes no name. -/
theorem TableKept.of_write
    (kept : TableKept config) (registered : Registered config.base)
    {name : CString} {offset : Nat} {bytes : Bytes}
    (alive : (config.base.processes caller).dead = false)
    (wrote : config.write caller name offset bytes = some next) :
    TableKept next := by
  have dies :
      TableKept
        { config with
          base :=
            config.base.setProcess caller
              { config.base.processes caller with dead := true } } :=
    kept.of_idle registered (registered.idle alive rfl rfl rfl rfl)
  unfold Config.write at wrote
  dsimp only at wrote
  split at wrote
  case isFalse =>
    cases wrote
    exact dies
  split at wrote
  · cases wrote
    exact kept
  split at wrote
  · cases wrote
    exact dies
  rcases Option.bind_eq_some_iff.mp wrote with ⟨record, opened, wrote⟩
  rcases Option.bind_eq_some_iff.mp wrote with ⟨before, found, wrote⟩
  rcases Option.bind_eq_some_iff.mp wrote with ⟨contents, spliced, wrote⟩
  cases wrote
  exact ⟨kept.found, kept.slots, kept.handles⟩

end Steps

end Wimp.Data.Segments
