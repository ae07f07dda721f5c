import Wimp.Data.Segments.Names

/-!
# What keeps the segments in the system

On most systems a segment which is created belongs to the handle that created
it, and its name leaves the system when that handle is closed.  As long as
nobody crashes inside a call, the handle of a slot in use which owns its
segment is then in the cache of some process, and the names in the system are
those of the slots in use and of the table: no segment outlives its slot.
-/

namespace Wimp.Data.Segments

open Wimp.Lib.ByteRegion
open Wimp.Lib.Runs
open Wimp.Lib.SharedMemory
open Wimp.Data.Registry
open Wimp.Data.RefCount (Holds)
open Wimp.Data.Table
  (DataTable Outcome PShm Process ShmResult SlotIndex WimpDataSlot clearSlot
    findName getElem_put_of_ne getElem_put_self put wimpDataLinkToData
    wimpDataReserve wimpDataUnlinkFromData wimpSharedSlotMaxNameBytes)

variable {count : Nat}

/-! ## The processes -/

/--
Every slot has a name, which may be empty.  Only a process with the table has
handles, and only a crash inside a call kills one.
-/
structure Orderly (base : Table.Config count) : Prop where
  named : ∀ slot : SlotIndex, ∃ name, Named base.table[slot] name
  detached :
    ∀ process, (base.processes process).isTableLinked = false →
      ∀ slot, ¬ Holds (base.processes process) slot
  dead :
    base.lost = false → ∀ process, (base.processes process).dead = true →
      (base.processes process).isTableLinked = false

theorem orderly_initial : Orderly ({} : Table.Config count) where
  named := by
    intro slot
    refine ⟨.ofBytes [], List.replicate 63 0, ?_⟩
    rw [Table.getElem_replicate]
    rfl
  detached := fun _ _ slot => RefCount.not_holds_blank rfl slot
  dead := by simp

section Calls

variable {base next : Table.Config count} {caller : Fin count}

theorem Orderly.setProcess
    (orderly : Orderly base) {process : Process}
    (detached :
      process.isTableLinked = false → ∀ slot, ¬ Holds process slot)
    (dead : process.dead = true → process.isTableLinked = false) :
    Orderly (base.setProcess caller process) where
  named := orderly.named
  detached := by
    intro member
    by_cases same : member = caller
    · subst same
      simpa [Table.Config.setProcess] using detached
    · simpa [Table.Config.setProcess, same] using
        orderly.detached member
  dead := by
    intro kept member
    by_cases same : member = caller
    · subst same
      simpa [Table.Config.setProcess] using dead
    · simpa [Table.Config.setProcess, same] using
        orderly.dead kept member

/-- Only a call which crashes loses the lock or kills its caller. -/
theorem alive_of_call
    {operation : DataTable → Process → Outcome}
    (attached : (base.processes caller).isTableLinked = true)
    (called : base.call caller operation = some next) :
    base.lost = false ∧
      next.lost =
        (operation base.table (base.processes caller)).crashed ∧
        (next.processes caller).dead = next.lost := by
  unfold Table.Config.call at called
  dsimp only at called
  rw [if_pos attached] at called
  split at called
  · cases called
  · rename_i kept
    cases called
    exact
      ⟨by simpa using kept, rfl, by simp [Table.Config.setProcess]⟩

/-- A call which keeps the names of the slots. -/
theorem Orderly.call
    (orderly : Orderly base) {operation : DataTable → Process → Outcome}
    (attached :
      (operation base.table (base.processes caller)).process.isTableLinked =
        (base.processes caller).isTableLinked)
    (named :
      ∀ slot : SlotIndex, ∃ name,
        Named
          (operation base.table (base.processes caller)).table[slot] name)
    (called : base.call caller operation = some next) : Orderly next := by
  unfold Table.Config.call at called
  dsimp only at called
  split at called
  · rename_i linked
    split at called
    · cases called
    · cases called
      constructor
      case named => exact named
      case detached =>
        intro member
        by_cases same : member = caller
        · subst same
          simp [Table.Config.setProcess, attached, linked]
        · simpa [Table.Config.setProcess, same] using
            orderly.detached member
      case dead =>
        rename_i kept
        intro survives member
        by_cases same : member = caller
        · subst same
          simp only [Table.Config.setProcess, Function.update_self]
          intro died
          exact absurd (died.symm.trans survives) (by decide)
        · simpa [Table.Config.setProcess, same] using
            orderly.dead (by simpa using kept) member
  · rename_i unlinked
    cases called
    have released : (base.processes caller).isTableLinked = false := by
      simpa using unlinked
    exact orderly.setProcess (fun _ => orderly.detached caller released)
      fun _ => released

theorem named_put
    {table : DataTable} {slot : SlotIndex} {following : WimpDataSlot}
    (named : ∀ other : SlotIndex, ∃ name, Named table[other] name)
    (here : ∃ name, Named following name) (other : SlotIndex) :
    ∃ name, Named (put table slot following)[other] name := by
  rw [getElem_set_slot]
  split
  · exact here
  · exact named other

/-- Names fit their slots, and nobody gives up the whole table. -/
def Fits (base : Table.Config count) : Table.Action count → Prop
  | .reserve _ reservedName _ _ _ =>
      (Table.findFree base.table).isSome →
        reservedName.val.length < wimpSharedSlotMaxNameBytes
  | .unlinkFromProcess _ => False
  | _ => True

theorem Orderly.step
    (orderly : Orderly base) {action : Table.Action count}
    (fits : Fits base action)
    (stepped : Table.step base action = some next) : Orderly next := by
  unfold Table.step at stepped
  split at stepped
  · cases stepped
  rename_i notDead
  cases action with
  | linkToProcess caller =>
      cases stepped
      apply orderly.setProcess
      case detached =>
        intro detached
        unfold Table.wimpDataLinkToProcess at detached
        split at detached
        · rename_i attached
          rw [attached] at detached
          cases detached
        · cases detached
      case dead =>
        intro died
        unfold Table.wimpDataLinkToProcess at died
        split at died <;> exact absurd died notDead
  | reserve caller name size fresh granted =>
      refine orderly.call ?attached ?named stepped
      case attached =>
        rw [wimpDataReserve_eq size fresh granted _ _ fits]
        split
        · rfl
        · split <;> rfl
      case named =>
        rw [wimpDataReserve_eq size fresh granted _ _ fits]
        split
        · exact orderly.named
        · rename_i slot _
          split
          · exact named_put orderly.named
              ⟨name, named_withName base.table[slot] name⟩
          · exact named_put orderly.named
              ⟨name, named_withName base.table[slot] name⟩
  | linkToData caller name opened granted =>
      refine orderly.call ?attached ?named stepped
      case attached =>
        unfold wimpDataLinkToData
        split
        · rfl
        · rfl
        · split <;> rfl
      case named =>
        unfold wimpDataLinkToData
        split
        · exact orderly.named
        · exact orderly.named
        · rename_i slot _
          dsimp only
          split
          · exact orderly.named
          · exact named_put orderly.named (orderly.named slot)
  | unlinkFromData caller name =>
      refine orderly.call ?attached ?named stepped
      case attached =>
        unfold wimpDataUnlinkFromData
        split
        · rfl
        · rfl
        · dsimp only
          split <;> rfl
      case named =>
        unfold wimpDataUnlinkFromData
        split
        · exact orderly.named
        · exact orderly.named
        · rename_i slot _
          dsimp only
          split
          · exact named_put orderly.named (orderly.named slot)
          · apply named_put orderly.named
            split
            · exact ⟨.ofBytes [], List.replicate 63 0, rfl⟩
            · exact orderly.named slot
  | unlinkFromProcess caller => exact fits.elim

end Calls

/-! ## Names in the system -/

/-- A handle which was opened and closed again leaves the names as before. -/
theorem names_pShmFree_pShmNew
    {system : System CString} (owning : system.Owning)
    (memory : SystemMemory) (name : CString) (length : Nat)
    (works : Bool) :
    let opened := pShmNew system memory name length works
    (pShmFree system opened.1 opened.2.handle).names name =
      memory.names name := by
  cases works with
  | false => rfl
  | true =>
      show
        (system.close (system.openSegment memory name length)
          memory.handles.length).names name = memory.names name
      cases found : memory.names name with
      | some segment =>
          have opened :=
            pShmNew_of_present system name length true found
          have record :
              (system.openSegment memory name length).handles[
                  memory.handles.length]? =
                some ⟨name, segment, false⟩ :=
            opened.2.2 rfl
          rw [close_of_not_owned system record rfl,
            system.openSegment_of_present memory name segment length found]
          exact found
      | none =>
          rcases handle_openSegment system memory name length with
            ⟨segment, owned, record, leads⟩
          have isOwned : owned = true :=
            owning memory name length found _ record
          exact
            system.names_close_of_owned _ _ ⟨name, segment, owned⟩ record
              isOwned leads

/-- A reservation which fails brings no name into the system. -/
theorem names_of_fails
    {system : System CString} (owning : system.Owning)
    {memory : SystemMemory} {name other : CString} {length : Nat}
    {first second : Bool}
    (present :
      let created :=
        wimpCreateFreshShm system memory name length first second
      ((pShmFree system created.1 created.2.handle).names other).isSome) :
    (memory.names other).isSome := by
  by_cases same : other = name
  · subst same
    have before :=
      names_pShmFree_pShmNew owning
        (discarded system other length first memory) other length second
    rw [wimpCreateFreshShm_eq] at present
    have left :
        ((discarded system other length first memory).names
          other).isSome := by
      rw [← before]
      exact present
    cases first with
    | true =>
        have gone := names_discard system memory other length
        change ((system.discard memory other length).names other).isSome
          at left
        rw [gone] at left
        cases left
    | false => exact left
  · have away :=
      away_free_wimpCreateFreshShm system name length first second memory
    rw [← away.names other same]
    exact present

/-! ## Owners -/

/-- Some process has the handle of the slot which owns its segment. -/
def HasOwner (config : Config count) (slot : SlotIndex) : Prop :=
  ∃ process handle record,
    (config.base.processes process).dataTableCache[slot] = some handle ∧
      config.memory.handles[handle]? = some record ∧ record.owned = true

/--
The slots in use have owners, and their names and that of the table are all
there are.
-/
structure Accounted (config : Config count) : Prop where
  owner :
    ∀ slot : SlotIndex, Used config.base.table[slot] →
      HasOwner config slot
  names :
    ∀ name, (config.memory.names name).isSome →
      name = config.tableName ∨
        ∃ slot : SlotIndex,
          Used config.base.table[slot] ∧
            Named config.base.table[slot] name

variable {config next : Config count}

theorem accounted_initial
    (system : System CString) (maker : Fin count) (tableName : CString) :
    Accounted (Config.initial system maker tableName) where
  owner := by
    intro slot used
    simp [Config.initial, Table.Config.setProcess, Used] at used
  names := by
    intro name present
    left
    by_contra different
    have away :=
      away_wimpCreateFreshShm system tableName tableLength true true {}
    change ((wimpCreateFreshShm system {} tableName tableLength true
      true).1.names name).isSome at present
    rw [away.names name different] at present
    cases present

section CallRules

variable {caller : Fin count} {slot : SlotIndex}
variable {following : WimpDataSlot} {process : Process}
variable {reservation : Option (CString × Nat)}

/--
A call keeps the account when its caller keeps its handles of the other slots,
a slot which comes into use has an owner and a name, and one which goes out of
use takes its name along.
-/
theorem Accounted.of_effect
    (accounted : Accounted config) (registered : Registered config.base)
    (effect :
      Effect config.base next.base caller slot following process
        reservation)
    (handles :
      ∀ (handle : Nat) (record : Handle CString),
        config.memory.handles[handle]? = some record →
          next.memory.handles[handle]? = some record)
    (tableName : next.tableName = config.tableName)
    (keeps :
      ∀ other, other ≠ slot →
        process.dataTableCache[other] =
          (config.base.processes caller).dataTableCache[other])
    (own : Used following → HasOwner next slot)
    (names :
      ∀ name, (next.memory.names name).isSome →
        Used following ∧ Named following name ∨
          (config.memory.names name).isSome ∧
            (Used config.base.table[slot] →
              Named config.base.table[slot] name → Used following)) :
    Accounted next := by
  constructor
  case owner =>
    intro other used
    rw [effect.getElem] at used
    split at used
    · rename_i same
      subst same
      exact own used
    · rename_i different
      rcases accounted.owner other used with
        ⟨member, handle, record, cached, opened, owned⟩
      refine ⟨member, handle, record, ?_, handles handle record opened,
        owned⟩
      by_cases same : member = caller
      · subst same
        rw [effect.process_self, keeps other different]
        exact cached
      · rw [effect.process_of_ne same]
        exact cached
  case names =>
    intro name present
    rcases names name present with ⟨used, named⟩ | ⟨before, stays⟩
    · refine Or.inr ⟨slot, ?_⟩
      rw [effect.getElem, if_pos rfl]
      exact ⟨used, named⟩
    · rw [tableName]
      rcases accounted.names name before with
        isTable | ⟨other, used, named⟩
      · exact Or.inl isTable
      refine Or.inr ⟨other, ?_⟩
      rw [effect.getElem]
      split
      · rename_i same
        subst same
        have after := stays used named
        have content := sameContent_of_used registered effect used after
        rw [Named, content.name]
        exact ⟨after, named⟩
      · exact ⟨used, named⟩

/-- The owner of a slot which its caller does not touch stays its owner. -/
theorem HasOwner.of_effect
    (owner : HasOwner config slot)
    (effect :
      Effect config.base next.base caller slot following process
        reservation)
    (handles :
      ∀ (handle : Nat) (record : Handle CString),
        config.memory.handles[handle]? = some record →
          next.memory.handles[handle]? = some record)
    (keeps :
      ∀ handle record,
        (config.base.processes caller).dataTableCache[slot] = some handle →
          config.memory.handles[handle]? = some record →
            record.owned = true →
              process.dataTableCache[slot] = some handle) :
    HasOwner next slot := by
  rcases owner with ⟨member, handle, record, cached, opened, owned⟩
  refine ⟨member, handle, record, ?_, handles handle record opened, owned⟩
  by_cases same : member = caller
  · subst same
    rw [effect.process_self]
    exact keeps handle record cached opened owned
  · rw [effect.process_of_ne same]
    exact cached

end CallRules

/-! ## The steps -/

section Steps

variable {caller : Fin count} {system : System CString}

/-- What the account is about has not changed. -/
theorem Accounted.of_same
    (accounted : Accounted config)
    (table : next.base.table = config.base.table)
    (tableName : next.tableName = config.tableName)
    (caches :
      ∀ process (slot : SlotIndex),
        (next.base.processes process).dataTableCache[slot] =
          (config.base.processes process).dataTableCache[slot])
    (handles : next.memory.handles = config.memory.handles)
    (names : next.memory.names = config.memory.names) :
    Accounted next where
  owner := by
    intro slot used
    rw [table] at used
    rcases accounted.owner slot used with
      ⟨member, handle, record, cached, opened, owned⟩
    refine ⟨member, handle, record, ?_, ?_, owned⟩
    · rw [caches]
      exact cached
    · rw [handles]
      exact opened
  names := by
    rw [names, table, tableName]
    exact accounted.names

theorem caches_setProcess
    {base : Table.Config count} {process : Process}
    (cache :
      ∀ slot : SlotIndex,
        process.dataTableCache[slot] =
          (base.processes caller).dataTableCache[slot])
    (member : Fin count) (slot : SlotIndex) :
    ((base.setProcess caller process).processes member).dataTableCache[
        slot] =
      (base.processes member).dataTableCache[slot] := by
  by_cases same : member = caller
  · subst same
    simpa [Table.Config.setProcess] using cache slot
  · simp [Table.Config.setProcess, same]

/-- A process which gets the table has the handles it had, none. -/
theorem cache_linkToProcess
    {process : Process}
    (detached :
      process.isTableLinked = false → ∀ slot, ¬ Holds process slot)
    (slot : SlotIndex) :
    (Table.wimpDataLinkToProcess process).dataTableCache[slot] =
      process.dataTableCache[slot] := by
  unfold Table.wimpDataLinkToProcess
  split
  · rfl
  · rename_i unlinked
    have nothing := detached (by simpa using unlinked) slot
    rw [Holds, Option.not_isSome_iff_eq_none] at nothing
    rw [nothing]
    exact Table.getElem_replicate ..

theorem Accounted.of_idle
    (accounted : Accounted config) {base : Table.Config count}
    {process : Process} (idle : Idle config.base base caller process) :
    Accounted { config with base } := by
  refine accounted.of_same ?_ rfl ?_ rfl rfl
  · rw [idle.effect.table]
    exact Table.put_getElem_self ..
  · intro member slot
    by_cases same : member = caller
    · subst same
      rw [idle.effect.process_self, idle.cache]
    · rw [idle.effect.process_of_ne same]

/-- Attaching opens the name of the table, and gives no other handle. -/
theorem Accounted.of_linkToProcess
    (accounted : Accounted config) (invariant : Invariant config)
    (orderly : Orderly config.base)
    (alive : (config.base.processes caller).dead = false) {opens : Bool}
    (linked : config.linkToProcess system caller opens = some next) :
    Accounted next := by
  have registered := invariant.registered
  rw [invariant.tableKept.linkToProcess_eq alive] at linked
  split at linked
  · cases linked
    exact accounted
  split at linked
  case isFalse =>
    cases linked
    exact accounted
  cases linked
  have effect := effect_of_linkToProcess registered alive
  have cache := cache_linkToProcess (orderly.detached caller)
  have away :=
    away_pShmNew system config.tableName tableLength true config.memory
  have opened :=
    pShmNew_of_present system config.tableName tableLength true
      invariant.tableKept.found
  apply accounted.of_effect registered effect
  case handles => exact away.handles
  case tableName => rfl
  case keeps => exact fun other _ => cache other
  case own =>
    intro used
    apply (accounted.owner 0 used).of_effect effect
    case handles => exact away.handles
    case keeps =>
      intro handle record cached _ _
      rw [cache]
      exact cached
  case names =>
    intro name present
    change ((pShmNew system config.memory config.tableName tableLength
      true).1.names name).isSome at present
    rw [opened.1] at present
    exact Or.inr ⟨present, fun used _ => used⟩

theorem Accounted.of_reserve
    (accounted : Accounted config) (owning : system.Owning)
    (registered : Registered config.base)
    {name : CString} {size : Nat} {first second granted : Bool}
    (alive : (config.base.processes caller).dead = false)
    (clean :
      Clean config (.reserve caller name size first second granted))
    (reserved :
      config.reserve system caller name size first second granted =
        some next) :
    Accounted next := by
  rcases Option.map_eq_some_iff.mp reserved with ⟨base, stepped, rfl⟩
  rw [Table.step, if_neg (by simp [Table.Action.caller, alive])]
    at stepped
  have allowed :
      Allowed config.base
        (.reserve caller name size
          (wimpCreateFreshShm system config.memory name size first
            second).2 granted) := by
    intro free
    refine ⟨(clean free).1, fun succeeds => ((clean free).2.1 ?_).1⟩
    exact (wimpCreateFreshShm_of_succeeds system name size first second
      succeeds).1
  cases reserve_cases registered alive allowed stepped with
  | idle process none idle =>
      split
      · exact accounted.of_idle idle
      · rename_i slot free
        rcases none with detached | full
        · rw [if_neg (by simp [detached])]
          exact accounted.of_idle idle
        · rw [full] at free
          cases free
  | failed slot attached free fails effect =>
      have guards := clean (by rw [free]; rfl)
      have named :
          (Table.copyName config.base.table slot name).isSome = true := by
        rw [copyName_of_fits _ slot guards.1]
        rfl
      have unused := free_of_findFree free
      rw [free]
      dsimp only
      rw [if_pos ⟨attached, named⟩, if_neg fails]
      have away :=
        away_free_wimpCreateFreshShm system name size first second
          config.memory
      apply accounted.of_effect registered effect
      case handles => exact away.handles
      case tableName => rfl
      case keeps => exact fun _ _ => rfl
      case own => exact fun used => absurd used unused
      case names =>
        intro other present
        exact Or.inr
          ⟨names_of_fails owning present, fun used _ => absurd used unused⟩
  | succeeded slot attached free succeeds effect =>
      have guards := clean (by rw [free]; rfl)
      have named :
          (Table.copyName config.base.table slot name).isSome = true := by
        rw [copyName_of_fits _ slot guards.1]
        rfl
      have unused := free_of_findFree free
      rw [free]
      dsimp only
      rw [if_pos ⟨attached, named⟩, if_pos succeeds]
      have away :=
        away_wimpCreateFreshShm system name size first second config.memory
      rcases wimpCreateFreshShm_of_succeeds system name size first second
          succeeds with
        ⟨isFirst, handle, segment, owned, fresh, opened, found, -, -,
          ownedOf⟩
      apply accounted.of_effect registered effect
      case handles => exact away.handles
      case tableName => rfl
      case keeps =>
        intro other different
        exact getElem_put_of_ne _ _ different
      case own =>
        intro _
        refine ⟨caller, handle, _, ?_, opened, ownedOf owning⟩
        rw [effect.process_self, ← fresh]
        exact getElem_put_self ..
      case names =>
        intro other present
        by_cases same : other = name
        · subst same
          have counter := shareCounter_reservedSlot unused other size
          refine Or.inl ⟨?_, named_withName config.base.table[slot] other⟩
          rw [Used, counter]
          exact one_ne_zero
        · rw [away.names other same] at present
          exact Or.inr ⟨present, fun used _ => absurd used unused⟩

theorem Accounted.of_linkToData
    (accounted : Accounted config) (invariant : Invariant config)
    {name : CString} {opens granted : Bool}
    (alive : (config.base.processes caller).dead = false)
    (clean : Clean config (.linkToData caller name opens granted))
    (linked :
      config.linkToData system caller name opens granted = some next) :
    Accounted next := by
  have registered := invariant.registered
  rcases Option.map_eq_some_iff.mp linked with ⟨base, stepped, rfl⟩
  rw [Table.step, if_neg (by simp [Table.Action.caller, alive])]
    at stepped
  have allowed :
      Allowed config.base
        (.linkToData caller name
          (config.openForLink system caller name opens).2 granted) :=
    fun slot used named => (clean slot used named).1
  cases linkToData_cases registered alive allowed stepped with
  | idle process none idle =>
      rw [openForLink_of_idle none]
      exact accounted.of_idle idle
  | linked slot attached found free effect =>
      rcases used_named_of_findName registered.allNamed found with
        ⟨used, named⟩
      have room := (clean slot used named).1
      have counted := registered.counted slot
      rw [openForLink_of_found attached found free] at effect ⊢
      rcases invariant.segments slot name used named with
        ⟨segment, present, contents⟩
      have away :=
        away_pShmNew system name config.base.table[slot].size opens
          config.memory
      have opened :=
        pShmNew_of_present system name config.base.table[slot].size opens
          present
      apply accounted.of_effect registered effect
      case handles => exact away.handles
      case tableName => rfl
      case keeps =>
        intro other different
        exact getElem_put_of_ne _ _ different
      case own =>
        intro _
        apply (accounted.owner slot used).of_effect effect
        case handles => exact away.handles
        case keeps =>
          intro handle record cached
          rw [free] at cached
          cases cached
      case names =>
        intro other present
        change ((pShmNew system config.memory name _ opens).1.names
          other).isSome at present
        rw [opened.1] at present
        refine Or.inr ⟨present, fun _ _ => ?_⟩
        show addInt32 config.base.table[slot].shareCounter 1 ≠ 0
        rw [addInt32_of_fits (by omega) (by omega)]
        omega

/-- The last holder of a slot has the handle which owns its segment. -/
theorem owned_of_last
    (registered : Registered config.base) (orderly : Orderly config.base)
    (kept : config.base.lost = false) {slot : SlotIndex}
    (owner : HasOwner config slot)
    (alive : (config.base.processes caller).dead = false)
    (holding : Holds (config.base.processes caller) slot)
    (last : config.base.table[slot].shareCounter ≤ 1) :
    ∃ handle record,
      (config.base.processes caller).dataTableCache[slot] = some handle ∧
        config.memory.handles[handle]? = some record ∧
          record.owned = true := by
  rcases owner with ⟨member, handle, record, cached, opened, owned⟩
  have holds : Holds (config.base.processes member) slot := by
    rw [Holds, cached]
    rfl
  have lives : (config.base.processes member).dead = false := by
    by_contra died
    exact orderly.detached member
      (orderly.dead kept member (by simpa using died)) slot holds
  have same : member = caller := by
    by_contra different
    have counted := registered.counted slot
    have two : 1 < (linkers config.base slot).card := by
      apply Finset.one_lt_card.mpr
      exact
        ⟨member, mem_linkers.mpr ⟨lives, Or.inl holds⟩, caller,
          mem_linkers.mpr ⟨alive, Or.inl holding⟩, different⟩
    omega
  subst same
  exact ⟨handle, record, cached, opened, owned⟩

/-- A lock which was lost stays lost. -/
theorem kept_of_call
    {base following : Table.Config count}
    {operation : DataTable → Process → Outcome}
    (called : base.call caller operation = some following)
    (kept : following.lost = false) : base.lost = false := by
  unfold Table.Config.call at called
  dsimp only at called
  split at called
  · split at called
    · cases called
    · rename_i notLost
      simpa using notLost
  · cases called
    exact kept

/-- A slot which goes out of use had one holder at most. -/
theorem shareCounter_le_of_effect
    (registered : Registered config.base) {base : Table.Config count}
    {slot : SlotIndex} {following : WimpDataSlot} {process : Process}
    (effect :
      Effect config.base base caller slot following process none)
    (used : Used config.base.table[slot]) (unused : ¬ Used following) :
    config.base.table[slot].shareCounter ≤ 1 := by
  have zero : following.shareCounter = 0 := Decidable.not_not.mp unused
  have counted := registered.counted slot
  cases effect.move with
  | kept counter same keeps nothing =>
      rw [counter] at zero
      omega
  | reserved first free name size reserves following_eq new =>
      exact absurd used free
  | joined usedToo room counter same nothing =>
      rw [counter] at zero
      omega
  | left held lets counter same nothing =>
      rw [counter] at zero
      omega

theorem Accounted.of_unlinkFromData
    (accounted : Accounted config) (invariant : Invariant config)
    (orderly : Orderly config.base) {name : CString}
    (alive : (config.base.processes caller).dead = false)
    (admissible : Admissible config (.unlinkFromData caller name))
    (clean : Clean config (.unlinkFromData caller name))
    (unlinked : config.unlinkFromData system caller name = some next)
    (kept : next.base.lost = false) :
    Accounted next := by
  have registered := invariant.registered
  rcases Option.map_eq_some_iff.mp unlinked with ⟨base, stepped, rfl⟩
  rw [Table.step, if_neg (by simp [Table.Action.caller, alive])]
    at stepped
  have allowed : Allowed config.base (.unlinkFromData caller name) :=
    fun slot used named => ⟨alive, Or.inl (admissible slot used named)⟩
  cases unlinkFromData_cases registered alive allowed stepped with
  | idle process none idle =>
      split
      · rename_i slot found
        rcases none with detached | missing
        · rw [if_neg (by simp [detached])]
          exact accounted.of_idle idle
        · rw [missing] at found
          cases found
      · exact accounted.of_idle idle
  | unlinked slot following process attached found named last process_cases
      effect =>
      have used := (used_named_of_findName registered.allNamed found).1
      have holding := admissible slot used named
      rw [found] at kept ⊢
      dsimp only at kept ⊢
      rw [if_pos attached] at kept ⊢
      rcases alive_of_call attached stepped with ⟨keptBefore, -, survives⟩
      have cache :
          process.dataTableCache =
            put (config.base.processes caller).dataTableCache slot none := by
        rcases process_cases with died | ⟨cache, -, -⟩
        · rw [effect.process_self, died, kept] at survives
          cases survives
        · exact cache
      rcases Option.isSome_iff_exists.mp holding with ⟨handle, cached⟩
      rcases invariant.handles caller slot handle alive cached with
        ⟨record, opened, own, leads⟩
      have equal := named_unique own named
      have away := away_close system opened
      rw [cached]
      apply accounted.of_effect registered effect
      case handles => exact away.handles
      case tableName => rfl
      case keeps =>
        intro other different
        rw [cache]
        exact getElem_put_of_ne _ _ different
      case own =>
        intro stays
        apply (accounted.owner slot used).of_effect effect
        case handles => exact away.handles
        case keeps =>
          intro handle record cached opened owned
          exact absurd
            (clean slot used named handle cached record opened owned)
            (last stays)
      case names =>
        intro other present
        change ((system.close config.memory handle).names other).isSome
          at present
        refine
          Or.inr ⟨isSome_names_of_close system present,
            fun _ namedOther => ?_⟩
        -- The last holder would have taken the name along.
        by_contra unused
        rcases owned_of_last registered orderly keptBefore
            (accounted.owner slot used) alive holding
            (shareCounter_le_of_effect registered effect used unused) with
          ⟨ownHandle, ownRecord, ownCached, ownOpened, owned⟩
        cases cached.symm.trans ownCached
        cases opened.symm.trans ownOpened
        have gone :=
          system.names_close_of_owned _ _ record opened owned leads
        rw [named_unique namedOther own, gone] at present
        cases present

/-- A write changes no name, and kills nobody who has the table. -/
theorem memory_of_write
    (invariant : Invariant config) {name : CString} {offset : Nat}
    {bytes : Bytes}
    (alive : (config.base.processes caller).dead = false)
    (wrote : config.write caller name offset bytes = some next) :
    next.memory.names = config.memory.names ∧
      next.memory.handles = config.memory.handles ∧
        (next.base = config.base ∨
          (config.base.processes caller).isTableLinked = false ∧
            next.base =
              config.base.setProcess caller
                { config.base.processes caller with dead := true }) := by
  unfold Config.write at wrote
  dsimp only at wrote
  split at wrote
  case isFalse =>
    rename_i detached
    cases wrote
    exact ⟨rfl, rfl, Or.inr ⟨by simpa using detached, rfl⟩⟩
  split at wrote
  · cases wrote
    exact ⟨rfl, rfl, Or.inl rfl⟩
  rename_i slot present
  have holding :=
    (invariant.paired caller alive slot).mpr ⟨name.val, present⟩
  rcases Option.isSome_iff_exists.mp holding with ⟨handle, cached⟩
  rw [cached] at wrote
  dsimp only at wrote
  rcases Option.bind_eq_some_iff.mp wrote with ⟨record, opened, wrote⟩
  rcases Option.bind_eq_some_iff.mp wrote with ⟨before, found, wrote⟩
  rcases Option.bind_eq_some_iff.mp wrote with ⟨contents, spliced, wrote⟩
  cases wrote
  exact ⟨rfl, rfl, Or.inl rfl⟩

end Steps

/-! ## Whole runs -/

/-- The invariant, with the account of the segments. -/
structure Audited (config : Config count) : Prop where
  invariant : Invariant config
  orderly : Orderly config.base
  accounted : config.base.lost = false → Accounted config

theorem audited_initial
    (system : System CString) (maker : Fin count) (tableName : CString) :
    Audited (Config.initial system maker tableName) where
  invariant := invariant_initial system maker tableName
  orderly := by
    have fits : Fits ({} : Table.Config count) (.linkToProcess maker) :=
      trivial
    exact orderly_initial.step fits rfl
  accounted := fun _ => accounted_initial system maker tableName

theorem Audited.of_step
    (audited : Audited config) {system : System CString}
    (owning : system.Owning) {action : Action count}
    (guarded : Guarded config action)
    (stepped : step system config action = some next) : Audited next := by
  have invariant : Invariant next :=
    audited.invariant.of_step guarded.1 guarded.2 stepped
  have registered := audited.invariant.registered
  have tableName := tableName_of_step stepped
  unfold step at stepped
  split at stepped
  · cases stepped
  rename_i notDead
  have alive : (config.base.processes action.caller).dead = false := by
    simpa using notDead
  cases action with
  | linkToProcess caller opens =>
      have linked : config.linkToProcess system caller opens = some next :=
        stepped
      rcases step_of_linkToProcess linked with same | called
      · refine ⟨invariant, ?_, ?_⟩
        · rw [same]
          exact audited.orderly
        · intro kept
          rw [same] at kept
          exact (audited.accounted kept).of_linkToProcess audited.invariant
            audited.orderly alive linked
      · have fits : Fits config.base (.linkToProcess caller) := trivial
        refine ⟨invariant, audited.orderly.step fits called, ?_⟩
        intro kept
        have before : config.base.lost = false := by
          change (config.base.processes caller).dead = false at alive
          rw [Table.step, if_neg (by simp [Table.Action.caller, alive]),
            Option.some.injEq] at called
          rw [← called] at kept
          exact kept
        exact (audited.accounted before).of_linkToProcess audited.invariant
          audited.orderly alive linked
  | reserve caller name size first second granted =>
      have called := step_of_reserve stepped
      have fits :
          Fits config.base
            (.reserve caller name size
              (wimpCreateFreshShm system config.memory name size first
                second).2 granted) :=
        fun free => (guarded.2 free).1
      refine ⟨invariant, audited.orderly.step fits called, ?_⟩
      intro kept
      change (config.base.processes caller).dead = false at alive
      rw [Table.step, if_neg (by simp [Table.Action.caller, alive])]
        at called
      exact (audited.accounted (kept_of_call called kept)).of_reserve
        owning registered alive guarded.2 stepped
  | linkToData caller name opens granted =>
      rcases Option.map_eq_some_iff.mp stepped with ⟨base, called, rfl⟩
      have fits :
          Fits config.base
            (.linkToData caller name
              (config.openForLink system caller name opens).2 granted) :=
        trivial
      refine ⟨invariant, audited.orderly.step fits called, ?_⟩
      intro kept
      change (config.base.processes caller).dead = false at alive
      rw [Table.step, if_neg (by simp [Table.Action.caller, alive])]
        at called
      exact (audited.accounted (kept_of_call called kept)).of_linkToData
        audited.invariant alive guarded.2 stepped
  | unlinkFromData caller name =>
      have called := step_of_unlinkFromData stepped
      have fits : Fits config.base (.unlinkFromData caller name) := trivial
      refine ⟨invariant, audited.orderly.step fits called, ?_⟩
      intro kept
      change (config.base.processes caller).dead = false at alive
      rw [Table.step, if_neg (by simp [Table.Action.caller, alive])]
        at called
      exact (audited.accounted (kept_of_call called kept)).of_unlinkFromData
        audited.invariant audited.orderly alive guarded.1 guarded.2 stepped
        kept
  | write caller name offset bytes =>
      rcases memory_of_write audited.invariant alive stepped with
        ⟨names, handles, same | ⟨detached, died⟩⟩
      · refine ⟨invariant, ?_, ?_⟩
        · rw [same]
          exact audited.orderly
        · intro kept
          rw [same] at kept
          exact (audited.accounted kept).of_same (by rw [same]) tableName
            (fun _ _ => by rw [same]) handles names
      · refine ⟨invariant, ?_, ?_⟩
        · rw [died]
          exact audited.orderly.setProcess
            (fun _ => audited.orderly.detached caller detached)
            fun _ => detached
        · intro kept
          rw [died] at kept
          refine (audited.accounted kept).of_same (by rw [died]; rfl)
            tableName ?_ handles names
          rw [died]
          exact caches_setProcess fun _ => rfl

/-- Every guarded run keeps the account. -/
theorem audited_of_run
    {system : System CString} (owning : system.Owning)
    {maker : Fin count} {tableName : CString}
    {actions : List (Action count)}
    (guarded :
      Along (step system) Guarded (.initial system maker tableName) actions)
    (ran :
      run (step system) (.initial system maker tableName) actions =
        some config) :
    Audited config ∧ config.tableName = tableName :=
  run_induction_along
    (motive := fun _ config =>
      Audited config ∧ config.tableName = tableName)
    ⟨audited_initial system maker tableName, rfl⟩
    (fun _ _ _ _ audited guarded stepped =>
      ⟨audited.1.of_step owning guarded stepped,
        (tableName_of_step stepped).trans audited.2⟩)
    guarded ran

end Wimp.Data.Segments
