import Wimp.Data.Segments.Accounting

/-!
# The end of the data table

`wimp_data_free` is the last call of the process which made the table.  It
links to the slots in use which it is not linked to yet, owns and closes all
their segments, and then clears the table.  It looks at the name of every slot,
also of the free ones, which a reservation that failed has left behind.

Without such leftovers the call takes exactly the names of the slots in use out
of the system, except where the segment could not be opened.  A leftover of a
name that is in use can bring a segment back whose slot has been freed before.

The handle of the table itself is forgotten without being closed.  Its name is
the one which always stays in the system.
-/

namespace Wimp.Data.Segments

open Wimp.Lib.ByteRegion
open Wimp.Lib.Runs
open Wimp.Lib.SharedMemory
open Wimp.Utility.HashTable
open Wimp.Utility.SimpleArena (sarena)
open Wimp.Data.Registry
open Wimp.Data.RefCount (Holds)
open Wimp.Data.Table
  (DataTable PShm Process ShmResult SlotIndex WimpDataSlot findName
    getElem_put_of_ne getElem_put_self memoryFrom put wimpMaxSharedSlots
    wimpSharedSlotMaxNameBytes)

variable {count : Nat}

/-! ## The call -/

/-- The string at the name of a slot, undefined when it leaves the table. -/
def nameOf (table : DataTable) (slot : SlotIndex) : Option CString :=
  let bytes := table[slot].name ++ memoryFrom table (slot + 1)
  if 0 ∈ bytes then some (.ofBytes bytes) else none

/-- What the first loop of `wimp_data_free` links to. -/
def linkResidual (system : System CString) (caller : Fin count)
    (opens granted : SlotIndex → Bool) (config : Config count)
    (slot : SlotIndex) : Option (Config count) :=
  if (config.base.processes caller).dataTableCache[slot] = none then do
    let name ← nameOf config.base.table slot
    if name.val = [] then
      some config
    else
      config.linkToData system caller name (opens slot) (granted slot)
  else some config

/-- One round of the first loop of `wimp_data_free`. -/
def freeSlot (system : System CString) (caller : Fin count)
    (opens granted : SlotIndex → Bool) (config : Config count)
    (slot : SlotIndex) : Option (Config count) :=
  if 0 ≤ config.base.table[slot].shareCounter then do
    let config ← linkResidual system caller opens granted config slot
    let process := config.base.processes caller
    if process.dead then none
    else
      let shm := process.dataTableCache[slot]
      some
        { config with
          base :=
            config.base.setProcess caller
              { process with
                dataTableCache := put process.dataTableCache slot none }
          memory :=
            pShmFree system (pShmTakeOwnership system config.memory shm)
              shm }
  else some config

/-- The second loop of `wimp_data_free`, on one slot. -/
def resetSlot (slot : WimpDataSlot) : WimpDataSlot :=
  { slot with
    shareCounter := 0
    size := 0
    dataArena := sarena
    name := List.replicate wimpSharedSlotMaxNameBytes 0 }

/-- The rest of `wimp_data_free` behind its first loop. -/
def resetTable (config : Config count) (caller : Fin count) :
    Config count :=
  { config with
    base :=
      { config.base with
        table := config.base.table.map resetSlot }.setProcess caller
        { config.base.processes caller with
          dataTableCacheMap := hashStringCreate _ _
          isTableLinked := false } }

/--
`wimp_data_free` while no other process makes a call, given which segments can
be opened and which entries of the hash table are granted.  The handle of the
table is forgotten without being owned or closed.
-/
def Config.wimpDataFree (system : System CString) (config : Config count)
    (caller : Fin count) (opens granted : SlotIndex → Bool) :
    Option (Config count) :=
  if (config.base.processes caller).isTableLinked then
    ((List.finRange wimpMaxSharedSlots).foldlM
      (freeSlot system caller opens granted) config).map
        fun config => resetTable config caller
  else some config

/-- No free slot has kept the name of a slot in use. -/
def Settled (table : DataTable) : Prop :=
  ∀ slot : SlotIndex, ¬ Used table[slot] →
    ∀ name ∈ nameOf table slot, name.val ≠ [] → New table name

instance (table : DataTable) : Decidable (Settled table) :=
  inferInstanceAs
    (Decidable (∀ _ : SlotIndex, _ → ∀ name ∈ nameOf _ _, _ ≠ _ → New _ _))

/-- The call takes this name of the slot out of the system. -/
def Residual (config : Config count) (caller : Fin count)
    (opens : SlotIndex → Bool) (slot : SlotIndex) (name : CString) : Prop :=
  Used config.base.table[slot] ∧ Named config.base.table[slot] name ∧
    (Holds (config.base.processes caller) slot ∨
      name.val ≠ [] ∧ opens slot = true)

/-! ## The first loop -/

/--
The call is on its way: it has come to some slots, of which it has cleared some
or all, and has taken the released names out of the system.
-/
structure Sweeping (config : Config count) (caller : Fin count)
    (released : CString → Prop) (reached cleared : List SlotIndex)
    (mid : Config count) : Prop where
  names : ∀ slot : SlotIndex,
    mid.base.table[slot].name = config.base.table[slot].name
  used : ∀ slot : SlotIndex,
    Used mid.base.table[slot] ↔ Used config.base.table[slot]
  kept : mid.base.lost = false
  alive : (mid.base.processes caller).dead = false
  attached : (mid.base.processes caller).isTableLinked = true
  others :
    ∀ other, other ≠ caller →
      mid.base.processes other = config.base.processes other
  ahead :
    ∀ slot : SlotIndex, slot ∉ reached →
      mid.base.table[slot] = config.base.table[slot] ∧
        (mid.base.processes caller).dataTableCache[slot] =
          (config.base.processes caller).dataTableCache[slot]
  emptied :
    ∀ slot ∈ cleared,
      (mid.base.processes caller).dataTableCache[slot] = none
  gone : ∀ name, released name → mid.memory.names name = none
  stays :
    ∀ name, ¬ released name →
      mid.memory.names name = config.memory.names name
  segments : mid.memory.segments = config.memory.segments
  handles :
    ∀ (handle : Nat) (record : Handle CString),
      config.memory.handles[handle]? = some record →
        ∃ owned, mid.memory.handles[handle]? = some { record with owned }

/-- The names of the slots which have been cleared. -/
def Released (config : Config count) (caller : Fin count)
    (opens : SlotIndex → Bool) (cleared : List SlotIndex)
    (name : CString) : Prop :=
  ∃ slot ∈ cleared, Residual config caller opens slot name

section Loop

variable {config mid : Config count} {caller : Fin count}
variable {system : System CString}
variable {opens : SlotIndex → Bool} {cleared : List SlotIndex}
variable {slot : SlotIndex}

theorem nameOf_of_named
    {table : DataTable} {name : CString} (named : Named table[slot] name) :
    nameOf table slot = some name := by
  rcases named with ⟨rest, split⟩
  have bytes :
      table[slot].name ++ memoryFrom table (slot + 1) =
        terminated name.val ++ (rest ++ memoryFrom table (slot + 1)) := by
    rw [← split, List.append_assoc]
  have same :
      CString.ofBytes
          (terminated name.val ++ (rest ++ memoryFrom table (slot + 1))) =
        name := by
    have alone := congrArg Subtype.val (CString.ofBytes_terminated name)
    apply Subtype.ext
    show List.takeWhile _ _ = _
    change List.takeWhile _ _ = _ at alone
    rw [List.takeWhile_append, alone, if_neg]
    rw [length_terminated]
    omega
  rw [nameOf, bytes, if_pos (by simp [terminated]), same]

/-- A name of a slot is the only one it has. -/
theorem released_cons_iff
    {record : Handle CString}
    (here : Residual config caller opens slot record.name)
    (name : CString) :
    Released config caller opens (slot :: cleared) name ↔
      name = record.name ∨ Released config caller opens cleared name := by
  constructor
  · rintro ⟨other, member, residual⟩
    rcases List.mem_cons.mp member with rfl | member
    · exact Or.inl (named_unique residual.2.1 here.2.1)
    · exact Or.inr ⟨other, member, residual⟩
  · rintro (rfl | ⟨other, member, residual⟩)
    · exact ⟨slot, List.mem_cons_self .., here⟩
    · exact ⟨other, List.mem_cons_of_mem _ member, residual⟩

theorem released_cons_of_none
    (nothing : ∀ name, ¬ Residual config caller opens slot name) :
    Released config caller opens (slot :: cleared) =
      Released config caller opens cleared := by
  funext name
  rw [Released, Released, List.exists_mem_cons_iff]
  simp [nothing name]

variable (system) in
/-- The last part of a round clears the slot. -/
theorem Sweeping.clear
    (sweeping :
      Sweeping config caller (Released config caller opens cleared)
        (slot :: cleared) cleared mid)
    (here :
      match (mid.base.processes caller).dataTableCache[slot] with
      | some handle =>
          ∃ record, mid.memory.handles[handle]? = some record ∧
            mid.memory.names record.name = some record.segment ∧
              Residual config caller opens slot record.name
      | none => ∀ name, ¬ Residual config caller opens slot name) :
    Sweeping config caller
      (Released config caller opens (slot :: cleared))
      (slot :: cleared) (slot :: cleared)
      { mid with
        base :=
          mid.base.setProcess caller
            { mid.base.processes caller with
              dataTableCache :=
                put (mid.base.processes caller).dataTableCache slot none }
        memory :=
          pShmFree system
            (pShmTakeOwnership system mid.memory
              (mid.base.processes caller).dataTableCache[slot])
            (mid.base.processes caller).dataTableCache[slot] } := by
  constructor
  case names => exact sweeping.names
  case used => exact sweeping.used
  case kept => exact sweeping.kept
  case alive => simpa [Table.Config.setProcess] using sweeping.alive
  case attached => simpa [Table.Config.setProcess] using sweeping.attached
  case others =>
    intro other different
    simpa [Table.Config.setProcess, different] using
      sweeping.others other different
  case ahead =>
    intro other notReached
    rcases sweeping.ahead other notReached with ⟨entry, cache⟩
    refine ⟨entry, ?_⟩
    have different : other ≠ slot := by
      rintro rfl
      exact notReached (List.mem_cons_self ..)
    simp only [Table.Config.setProcess, Function.update_self]
    rw [getElem_put_of_ne _ _ different]
    exact cache
  case emptied =>
    intro other member
    simp only [Table.Config.setProcess, Function.update_self]
    by_cases same : other = slot
    · subst same
      exact getElem_put_self ..
    · rw [getElem_put_of_ne _ _ same]
      exact sweeping.emptied other
        ((List.mem_cons.mp member).resolve_left same)
  case gone =>
    intro name
    cases cached : (mid.base.processes caller).dataTableCache[slot] with
    | none =>
        rw [cached] at here
        rw [released_cons_of_none here]
        exact sweeping.gone name
    | some handle =>
        rw [cached] at here
        rcases here with ⟨record, opened, leads, residual⟩
        rw [released_cons_iff residual]
        rintro (rfl | released)
        · exact names_close_takeOwnership system opened leads
        · show
            (system.close (system.takeOwnership mid.memory handle)
              handle).names name = _
          rcases system.names_close
              (system.takeOwnership mid.memory handle) handle name with
            same | ⟨gone, -⟩
          · rw [same, system.names_takeOwnership]
            exact sweeping.gone name released
          · exact gone
  case stays =>
    intro name
    cases cached : (mid.base.processes caller).dataTableCache[slot] with
    | none =>
        rw [cached] at here
        rw [released_cons_of_none here]
        exact sweeping.stays name
    | some handle =>
        rw [cached] at here
        rcases here with ⟨record, opened, -, residual⟩
        rw [released_cons_iff residual]
        intro survives
        show
          (system.close (system.takeOwnership mid.memory handle)
            handle).names name = _
        rw [names_close_of_apart system
            (record_takeOwnership system opened)
            fun _ same => survives (Or.inl same),
          system.names_takeOwnership]
        exact sweeping.stays name fun released => survives (Or.inr released)
  case segments =>
    rw [← sweeping.segments]
    cases (mid.base.processes caller).dataTableCache[slot] with
    | none => rfl
    | some handle =>
        exact (system.segments_close _ handle).trans
          (system.segments_takeOwnership mid.memory handle)
  case handles =>
    intro other record opened
    rcases sweeping.handles other record opened with ⟨owned, found⟩
    cases (mid.base.processes caller).dataTableCache[slot] with
    | none => exact ⟨owned, found⟩
    | some handle =>
        show
          ∃ owned,
            (system.close (system.takeOwnership mid.memory handle)
                handle).handles[other]? =
              some { record with owned }
        rw [system.handles_close, system.handles_takeOwnership,
          List.getElem?_modify, found]
        by_cases same : handle = other
        · exact ⟨true, by simp [same]⟩
        · exact ⟨owned, by simp [same]⟩

/-- The link of a slot which the call knows by its own name. -/
theorem linkToData_of_found
    {name : CString} {works entry : Bool}
    (kept : mid.base.lost = false)
    (alive : (mid.base.processes caller).dead = false)
    (attached : (mid.base.processes caller).isTableLinked = true)
    (found : findName mid.base.table name = some (some slot))
    (free : (mid.base.processes caller).dataTableCache[slot] = none) :
    let opened :=
      pShmNew system mid.memory name mid.base.table[slot].size works
    mid.linkToData system caller name works entry =
      some
        { mid with
          base :=
            { mid.base with
              table :=
                put mid.base.table slot
                  { mid.base.table[slot] with
                    shareCounter :=
                      addInt32 mid.base.table[slot].shareCounter 1 }
              lost := false }.setProcess caller
              { ({ mid.base.processes caller with
                    dataTableCache :=
                      put (mid.base.processes caller).dataTableCache slot
                        opened.2.handle }).cacheName name slot entry with
                dead := false }
          memory := opened.1 } := by
  have opens :
      mid.openForLink system caller name works =
        pShmNew system mid.memory name mid.base.table[slot].size works :=
    openForLink_of_found attached found free
  have notDead : ¬ (mid.base.processes caller).dead = true := by
    rw [alive]
    exact Bool.false_ne_true
  have notLost : ¬ mid.base.lost = true := by
    rw [kept]
    exact Bool.false_ne_true
  have noHandle :
      ¬ (mid.base.processes caller).dataTableCache[slot].isSome = true := by
    rw [free]
    exact Bool.false_ne_true
  unfold Config.linkToData
  rw [opens]
  simp only [Table.step, Table.Action.caller, if_neg notDead,
    Table.Config.call, if_pos attached, if_neg notLost,
    Table.wimpDataLinkToData, found, if_neg noHandle, Option.map_some,
    Table.Outcome.crashed]
  rfl

/-- A name which no slot in use has is not linked to. -/
theorem linkToData_of_missing
    {name : CString} {works entry : Bool}
    (kept : mid.base.lost = false)
    (alive : (mid.base.processes caller).dead = false)
    (attached : (mid.base.processes caller).isTableLinked = true)
    (missing : findName mid.base.table name = some none) :
    mid.linkToData system caller name works entry = some mid := by
  have opens :
      mid.openForLink system caller name works =
        (mid.memory, { shm := none, err := true }) := by
    unfold Config.openForLink
    rw [missing]
  have notDead : ¬ (mid.base.processes caller).dead = true := by
    rw [alive]
    exact Bool.false_ne_true
  have notLost : ¬ mid.base.lost = true := by
    rw [kept]
    exact Bool.false_ne_true
  have same :
      { mid.base.processes caller with dead := false } =
        mid.base.processes caller := by
    rw [← alive]
  unfold Config.linkToData
  rw [opens]
  simp only [Table.step, Table.Action.caller, if_neg notDead,
    Table.Config.call, if_pos attached, if_neg notLost,
    Table.wimpDataLinkToData, missing, Option.map_some,
    Table.Outcome.crashed, Table.Config.setProcess]
  rw [show (Table.Ending.fail == Table.Ending.crash) = false from rfl, same,
    Function.update_eq_self, ← kept]

/-- What the middle of a round needs of the state in which the call began. -/
structure Closable (config : Config count) (caller : Fin count) : Prop where
  invariant : Invariant config
  orderly : Orderly config.base
  alive : (config.base.processes caller).dead = false
  settled : Settled config.base.table

/-- The slots in use keep their names, and the others have none of them. -/
theorem Sweeping.allNamed
    {released : CString → Prop} {reached : List SlotIndex}
    (sweeping : Sweeping config caller released reached cleared mid)
    (closable : Closable config caller) : AllNamed mid.base.table := by
  intro other used
  rcases closable.invariant.registered.allNamed other
      ((sweeping.used other).mp used) with ⟨name, named⟩
  exact ⟨name, by rw [Named, sweeping.names]; exact named⟩

/-- A counter of a slot in use does not come to zero when it grows. -/
theorem addInt32_one_ne_zero
    {counter : Int} (lower : 0 ≤ counter) (upper : counter < 2 ^ 31) :
    addInt32 counter 1 ≠ 0 := by
  unfold addInt32 Int.bmod
  dsimp only
  split_ifs <;> omega

/-- A link in the middle of a round. -/
theorem Sweeping.link
    (closable : Closable config caller)
    (sweeping :
      Sweeping config caller (Released config caller opens cleared)
        (slot :: cleared) cleared mid)
    (entry : mid.base.table[slot] = config.base.table[slot])
    (used : Used config.base.table[slot]) (name : CString) (works : Bool)
    (shm : Option PShm) {memory : SystemMemory}
    (new : slot ∉ cleared)
    (names : memory.names = mid.memory.names)
    (segments : memory.segments = mid.memory.segments)
    (handles :
      ∀ (handle : Nat) (record : Handle CString),
        mid.memory.handles[handle]? = some record →
          memory.handles[handle]? = some record) :
    Sweeping config caller (Released config caller opens cleared)
      (slot :: cleared) cleared
      { mid with
        base :=
          { mid.base with
            table :=
              put mid.base.table slot
                { mid.base.table[slot] with
                  shareCounter :=
                    addInt32 mid.base.table[slot].shareCounter 1 }
            lost := false }.setProcess caller
            { ({ mid.base.processes caller with
                  dataTableCache :=
                    put (mid.base.processes caller).dataTableCache slot
                      shm }).cacheName name slot works with
              dead := false }
        memory } := by
  have counted := closable.invariant.registered.counted slot
  have bounded := closable.invariant.registered.bounded slot
  constructor
  case names =>
    intro other
    show (put mid.base.table slot _)[other].name = _
    rw [getElem_set_slot, ← sweeping.names other]
    split
    · rename_i same
      rw [same]
    · rfl
  case used =>
    intro other
    show Used (put mid.base.table slot _)[other] ↔ _
    rw [getElem_set_slot]
    split
    · rename_i same
      subst same
      refine iff_of_true ?_ used
      rw [entry]
      exact addInt32_one_ne_zero (by omega) (by omega)
    · exact sweeping.used other
  case kept => rfl
  case alive => simp [Table.Config.setProcess]
  case attached =>
    simpa [Table.Config.setProcess, Process.cacheName] using
      sweeping.attached
  case others =>
    intro other different
    simpa [Table.Config.setProcess, different] using
      sweeping.others other different
  case ahead =>
    intro other notReached
    rcases sweeping.ahead other notReached with ⟨same, cache⟩
    have different : other ≠ slot := by
      rintro rfl
      exact notReached (List.mem_cons_self ..)
    constructor
    · show (put mid.base.table slot _)[other] = _
      rw [getElem_put_of_ne _ _ different]
      exact same
    · simp only [Table.Config.setProcess, Function.update_self,
        Process.cacheName]
      rw [getElem_put_of_ne _ _ different]
      exact cache
  case emptied =>
    intro other member
    have different : other ≠ slot := by
      rintro rfl
      exact new member
    simp only [Table.Config.setProcess, Function.update_self,
      Process.cacheName]
    rw [getElem_put_of_ne _ _ different]
    exact sweeping.emptied other member
  case gone =>
    rw [names]
    exact sweeping.gone
  case stays =>
    rw [names]
    exact sweeping.stays
  case segments =>
    rw [segments]
    exact sweeping.segments
  case handles =>
    intro handle record opened
    rcases sweeping.handles handle record opened with ⟨owned, found⟩
    exact ⟨owned, handles handle _ found⟩

/-- A slot in use which has not been cleared still has its segment. -/
theorem Sweeping.names_eq
    (closable : Closable config caller)
    (sweeping :
      Sweeping config caller (Released config caller opens cleared) cleared
        cleared mid)
    (new : slot ∉ cleared) (used : Used config.base.table[slot])
    {name : CString} (named : Named config.base.table[slot] name) :
    mid.memory.names name = config.memory.names name := by
  apply sweeping.stays
  rintro ⟨other, member, usedOther, namedOther, -⟩
  have same :=
    closable.invariant.registered.distinct other slot name usedOther used
      namedOther named
  exact new (same ▸ member)

variable (system) in
theorem exists_linkResidual
    (closable : Closable config caller)
    (granted : SlotIndex → Bool)
    (sweeping :
      Sweeping config caller (Released config caller opens cleared) cleared
        cleared mid)
    (new : slot ∉ cleared) :
    ∃ next,
      linkResidual system caller opens granted mid slot = some next ∧
        Sweeping config caller (Released config caller opens cleared)
          (slot :: cleared) cleared next ∧
        match (next.base.processes caller).dataTableCache[slot] with
        | some handle =>
            ∃ record, next.memory.handles[handle]? = some record ∧
              next.memory.names record.name = some record.segment ∧
                Residual config caller opens slot record.name
        | none => ∀ name, ¬ Residual config caller opens slot name := by
  rcases sweeping.ahead slot new with ⟨entry, cache⟩
  have reached :
      Sweeping config caller (Released config caller opens cleared)
        (slot :: cleared) cleared mid :=
    { sweeping with
      ahead := fun other notReached =>
        sweeping.ahead other fun member =>
          notReached (List.mem_cons_of_mem _ member) }
  cases cached : (mid.base.processes caller).dataTableCache[slot] with
  | some handle =>
      refine ⟨mid, ?_, reached, ?_⟩
      · rw [linkResidual, if_neg (by simp [cached])]
      · rw [cached]
        dsimp only
        rw [cached] at cache
        rcases closable.invariant.handles caller slot handle closable.alive
            cache.symm with ⟨record, opened, named, found⟩
        rcases sweeping.handles handle record opened with ⟨owned, openedMid⟩
        have holding : Holds (config.base.processes caller) slot := by
          rw [Holds, ← cache]
          rfl
        have used :=
          closable.invariant.registered.used
            ⟨closable.alive, Or.inl holding⟩
        have same := sweeping.names_eq closable new used named
        exact
          ⟨_, openedMid, same.trans found, used, named, Or.inl holding⟩
  | none =>
      rw [cached] at cache
      have free : ¬ Holds (config.base.processes caller) slot := by
        rw [Holds, ← cache]
        exact Bool.false_ne_true
      rcases closable.orderly.named slot with ⟨name, named⟩
      have namedMid : Named mid.base.table[slot] name := by
        rw [entry]
        exact named
      rw [linkResidual, if_pos cached, nameOf_of_named namedMid]
      simp only [Option.bind_eq_bind, Option.bind_some]
      by_cases blank : name.val = []
      · refine ⟨mid, if_pos blank, reached, ?_⟩
        rw [cached]
        rintro other ⟨-, namedOther, holding | ⟨text, -⟩⟩
        · exact free holding
        · rw [named_unique namedOther named] at text
          exact text blank
      rw [if_neg blank]
      by_cases used : Used config.base.table[slot]
      · have found : findName mid.base.table name = some (some slot) := by
          rcases findName_spec (sweeping.allNamed closable) name with
            ⟨other, found, usedOther, namedOther⟩ | ⟨-, none⟩
          · rw [Named, sweeping.names] at namedOther
            have same :=
              closable.invariant.registered.distinct other slot name
                ((sweeping.used other).mp usedOther) used namedOther named
            rwa [same] at found
          · exact absurd namedMid (none slot ((sweeping.used slot).mpr used))
        rcases closable.invariant.segments slot name used named with
          ⟨segment, leads, -⟩
        have present :=
          (sweeping.names_eq closable new used named).trans leads
        have away :=
          away_pShmNew system name mid.base.table[slot].size (opens slot)
            mid.memory
        rcases pShmNew_of_present system name mid.base.table[slot].size
            (opens slot) present with ⟨names, segments, opened⟩
        refine ⟨_, linkToData_of_found sweeping.kept sweeping.alive
          sweeping.attached found cached,
          reached.link closable entry used name (granted slot) _ new names
            segments away.handles, ?_⟩
        simp only [Table.Config.setProcess, Function.update_self,
          Process.cacheName]
        rw [getElem_put_self]
        cases works : opens slot with
        | true =>
            rw [works] at opened names
            exact
              ⟨_, opened rfl, (congrFun names name).trans present, used,
                named, Or.inr ⟨blank, works⟩⟩
        | false =>
            rintro other ⟨-, -, holding | ⟨-, opening⟩⟩
            · exact free holding
            · cases works.symm.trans opening
      · have missing : findName mid.base.table name = some none := by
          rcases findName_spec (sweeping.allNamed closable) name with
            ⟨other, -, usedOther, namedOther⟩ | ⟨missing, -⟩
          · rw [Named, sweeping.names] at namedOther
            exact absurd namedOther
              (closable.settled slot used name (nameOf_of_named named)
                blank other ((sweeping.used other).mp usedOther))
          · exact missing
        refine ⟨mid,
          linkToData_of_missing sweeping.kept sweeping.alive
            sweeping.attached missing, reached, ?_⟩
        rw [cached]
        rintro other ⟨usedToo, -, -⟩
        exact used usedToo

variable (system) in
/-- One round takes the name of one slot out of the system. -/
theorem exists_freeSlot
    (closable : Closable config caller)
    (granted : SlotIndex → Bool)
    (sweeping :
      Sweeping config caller (Released config caller opens cleared) cleared
        cleared mid)
    (new : slot ∉ cleared) :
    ∃ next,
      freeSlot system caller opens granted mid slot = some next ∧
        Sweeping config caller
          (Released config caller opens (slot :: cleared))
          (slot :: cleared) (slot :: cleared) next := by
  rcases exists_linkResidual system closable granted sweeping new with
    ⟨linked, linking, reached, here⟩
  have counted := closable.invariant.registered.counted slot
  have nonneg : 0 ≤ mid.base.table[slot].shareCounter := by
    rw [(sweeping.ahead slot new).1]
    omega
  refine ⟨_, ?_, reached.clear system here⟩
  rw [freeSlot, if_pos nonneg, linking]
  simp only [Option.bind_eq_bind, Option.bind_some]
  rw [if_neg]
  rw [reached.alive]
  exact Bool.false_ne_true

variable (system) in
theorem exists_freeLoop
    (closable : Closable config caller)
    (granted : SlotIndex → Bool)
    {slots : List SlotIndex} (distinct : slots.Nodup)
    (apart : ∀ slot ∈ slots, slot ∉ cleared)
    (sweeping :
      Sweeping config caller (Released config caller opens cleared) cleared
        cleared mid) :
    ∃ next,
      slots.foldlM (freeSlot system caller opens granted) mid = some next ∧
        ∃ all, (∀ slot, slot ∈ all ↔ slot ∈ slots ∨ slot ∈ cleared) ∧
          Sweeping config caller (Released config caller opens all) all all
            next := by
  induction slots generalizing mid cleared with
  | nil => exact ⟨mid, rfl, cleared, by simp, sweeping⟩
  | cons slot rest induction =>
      rcases exists_freeSlot system closable granted sweeping
          (apart slot (List.mem_cons_self ..)) with
        ⟨after, freed, further⟩
      have others : ∀ other ∈ rest, other ∉ slot :: cleared := by
        intro other member here
        rcases List.mem_cons.mp here with rfl | before
        · exact (List.nodup_cons.mp distinct).1 member
        · exact apart other (List.mem_cons_of_mem _ member) before
      rcases induction (List.nodup_cons.mp distinct).2 others further with
        ⟨next, ran, all, complete, swept⟩
      refine ⟨next, ?_, all, ?_, swept⟩
      · rw [List.foldlM_cons, freed]
        exact ran
      · intro other
        rw [complete, List.mem_cons, List.mem_cons]
        tauto

end Loop

/-! ## The end of a run -/

variable {config next : Config count} {caller : Fin count}
variable {system : System CString}

theorem sweeping_start
    (closable : Closable config caller)
    (kept : config.base.lost = false)
    (attached : (config.base.processes caller).isTableLinked = true)
    (opens : SlotIndex → Bool) :
    Sweeping config caller (Released config caller opens []) [] []
      config where
  names := fun _ => rfl
  used := fun _ => Iff.rfl
  kept := kept
  alive := closable.alive
  attached := attached
  others := fun _ _ => rfl
  ahead := fun _ _ => ⟨rfl, rfl⟩
  emptied := nofun
  gone := fun _ released => by
    rcases released with ⟨slot, member, -⟩
    cases member
  stays := fun _ _ => rfl
  segments := rfl
  handles := fun _ record opened => ⟨record.owned, opened⟩

variable (system) in
/-- The call frees every slot, and takes the residual names away. -/
theorem exists_wimpDataFree
    (closable : Closable config caller)
    (kept : config.base.lost = false)
    (attached : (config.base.processes caller).isTableLinked = true)
    (opens granted : SlotIndex → Bool) :
    ∃ next,
      config.wimpDataFree system caller opens granted = some next ∧
        next.base.table = Vector.replicate _ {} ∧
          next.base.processes =
            Function.update config.base.processes caller {} ∧
            next.memory.segments = config.memory.segments ∧
              ∀ name,
                (next.memory.names name).isSome ↔
                  (config.memory.names name).isSome ∧
                    ∀ slot : SlotIndex,
                      ¬ Residual config caller opens slot name := by
  have start := sweeping_start closable kept attached opens
  rcases exists_freeLoop system closable granted
      (List.nodup_finRange wimpMaxSharedSlots) (by simp) start with
    ⟨swept, ran, all, complete, sweeping⟩
  have every (slot : SlotIndex) : slot ∈ all :=
    (complete slot).mpr (Or.inl (List.mem_finRange slot))
  have empty :
      (swept.base.processes caller).dataTableCache =
        Vector.replicate _ none := by
    apply Vector.ext
    intro index inside
    rw [Vector.getElem_replicate]
    exact sweeping.emptied ⟨index, inside⟩ (every _)
  refine ⟨resetTable swept caller, ?_, ?_, ?_, sweeping.segments, ?_⟩
  · rw [Config.wimpDataFree, if_pos attached, ran]
    rfl
  · apply Vector.ext
    intro index inside
    simp [resetTable, Table.Config.setProcess, resetSlot, sarena]
  · funext member
    by_cases same : member = caller
    · subst same
      simp [resetTable, Table.Config.setProcess, empty, sweeping.alive]
    · simpa [resetTable, Table.Config.setProcess, same] using
        sweeping.others member same
  · intro name
    show (swept.memory.names name).isSome ↔ _
    by_cases released : Released config caller opens all name
    · rw [sweeping.gone name released]
      rcases released with ⟨slot, -, residual⟩
      exact iff_of_false (by simp) fun both => both.2 slot residual
    · rw [sweeping.stays name released]
      refine (and_iff_left ?_).symm
      intro slot residual
      exact released ⟨slot, every slot, residual⟩

/-- The name `m`. -/
private def nameM : CString :=
  .ofBytes [0x6d]

/-- Two processes share `n`, and the second one has `m` for itself. -/
private def sharedAndOwn (first second : Fin 2) : List (Action 2) :=
  [.linkToProcess second true, .reserve first nameN 4 true true true,
    .linkToData second nameN true true,
    .reserve second nameM 8 true true true, .write second nameM 0 [5]]

/-- A reservation of `n` fails, and the next one gets an earlier slot. -/
private def leftover (caller : Fin 1) : List (Action 1) :=
  [.reserve caller nameM 4 true true true,
    .reserve caller nameN 4 true false true, .unlinkFromData caller nameM,
    .reserve caller nameN 4 true true true]

/-- The free slot brings `n` back into the system. -/
example :
    ((run (step (memorySystem true)) (start true 0) (leftover 0)).bind
        fun config =>
          config.wimpDataFree (memorySystem true) 0 (fun _ => true)
            fun _ => true).map
      (fun next => (next.memory.names nameN).isSome) =
      some true := by
  decide +kernel

end Wimp.Data.Segments
