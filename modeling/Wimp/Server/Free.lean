import Wimp.Lib.Ownership
import Wimp.Lib.Runs
import Wimp.Server.Machine
import Wimp.Utility.HashIteration
import Mathlib.Data.List.Perm.Subperm

/-!
# Closing a server

`wimp_server_free` walks the process table and adds an exit instruction for
every child before it sends its outgoing queue a last time.  The walk misses
the last bucket of the table, so that a child whose name falls into that
bucket is never told.
-/

namespace Wimp.Server.Free

open Wimp.Lib.ByteRegion
open Wimp.Lib.Ownership
open Wimp.Lib.Runs
open Wimp.Instr.Codec
open Wimp.ProcessTable
open Wimp.Utility.HashTable
open Wimp.Server.Machine

/-! ## The closing loop -/

/-- What one `wimp_server_add` is granted: its bundle and its queue node. -/
structure Grant where
  block : Option Address
  node : Bool
deriving DecidableEq, Repr

/--
The loop of `wimp_server_free` over the walked entries.  The grants are those
of its `wimp_server_add` calls, one for each; `none` stands for grants which
do not fit.
-/
def closingLoop (config : Config) :
    List (HashStringEntry WimpProcessData) → List Grant → Option Config
  | [], grants => if grants = [] then some config else none
  | entry :: rest, grants =>
      if entry.value.processRelation = .child then
        match grants with
        | [] => none
        | grant :: grants =>
            (step config
              (.add (.ofBytes entry.key) (.ofBytes wimpInstructionExit) []
                grant.block grant.node)).bind
              fun next => closingLoop next rest grants
      else closingLoop config rest grants

/--
`wimp_server_free` up to its final `wimp_server_send_instructions`.
-/
def wimpServerFree (config : Config) (grants : List Grant) :
    Option Config :=
  (hashStringIter config.server.ptable.hashTable).bind
    fun entries => closingLoop config entries grants

/-! ## Tables built by additions -/

/-- A successful `wimp_process_table_add`. -/
def addStep (table : WimpProcessTable)
    (process : CString × WimpProcessData) : Option WimpProcessTable :=
  if (wimpProcessTableAdd table process.1.val process.2 true).2 then
    some (wimpProcessTableAdd table process.1.val process.2 true).1
  else none

/-- A successful addition is of a new name. -/
theorem addStep_eq_some
    {table next : WimpProcessTable} {process : CString × WimpProcessData}
    (added : addStep table process = some next) :
    hashStringFind table.hashTable process.1.val = none ∧
      next =
        { hashTable :=
            (hashStringAdd table.hashTable process.1.val
              { process.2 with processActive := false } true).1
          tableLength := table.tableLength + 1 } := by
  cases found : hashStringFind table.hashTable process.1.val with
  | some entry => simp [addStep, wimpProcessTableAdd, found] at added
  | none =>
      simp only [addStep, wimpProcessTableAdd, found, Option.isSome_none,
        Bool.false_eq_true, if_false, if_true, Option.some.injEq] at added
      exact ⟨rfl, added.symm⟩

/-- A table in order whose names are strings. -/
structure Named (table : WimpProcessTable) : Prop where
  wellFormed : WellFormed table.hashTable
  nulFree :
    ∀ name,
      (hashStringFind table.hashTable name).isSome → NulFree name

theorem named_create : Named wimpCreateProcessTable := by
  refine ⟨wellFormed_create, ?_⟩
  intro name found
  simp [wimpCreateProcessTable] at found

theorem named_of_addStep
    (table : WimpProcessTable) (process : CString × WimpProcessData)
    (next : WimpProcessTable)
    (named : Named table) (added : addStep table process = some next) :
    Named next := by
  rcases process with ⟨name, processData⟩
  rcases addStep_eq_some added with ⟨-, rfl⟩
  refine ⟨wellFormed_add named.wellFormed _ _ _, ?_⟩
  intro other present
  rcases eq_or_ne other name.val with rfl | different
  · exact name.property
  · rw [hashStringFind_add_of_ne _ different] at present
    exact named.nulFree other present

/-! ## Children -/

/-- The name of an entry whose relation is `WIMP_Process_Child`. -/
def Child (table : WimpProcessTable) (name : Bytes) : Prop :=
  ∃ entry,
    hashStringFind table.hashTable name = some entry ∧
      entry.value.processRelation = .child

/-- The names of the children among some entries. -/
def childNames (entries : List (HashStringEntry WimpProcessData)) :
    List Bytes :=
  (entries.filter fun entry => entry.value.processRelation = .child).map
    HashStringEntry.key

/-- The walk sees the children outside the last bucket. -/
theorem mem_childNames_visited
    {table : WimpProcessTable} (wellFormed : WellFormed table.hashTable)
    (name : Bytes) :
    name ∈ childNames (visited table.hashTable) ↔
      Child table name ∧
        (hashStringHash wimpProcessTableMaxLength name : Nat) ≠ 127 := by
  rw [childNames, List.mem_map]
  constructor
  · rintro ⟨entry, member, rfl⟩
    rcases List.mem_filter.mp member with ⟨seen, child⟩
    have stored := mem_entries_of_visited seen
    refine ⟨⟨entry, (mem_entries_iff_find wellFormed).mp stored, ?_⟩, ?_⟩
    · simpa using child
    · exact (mem_visited_iff wellFormed stored).mp seen
  · rintro ⟨⟨entry, found, child⟩, bucket⟩
    have key := key_of_hashStringFind found
    subst key
    have stored := (mem_entries_iff_find wellFormed).mpr found
    refine ⟨entry, List.mem_filter.mpr ⟨?_, by simpa using child⟩, rfl⟩
    exact (mem_visited_iff wellFormed stored).mpr bucket

theorem nodup_childNames_visited
    {table : WimpProcessTable}
    (wellFormed : WellFormed table.hashTable) :
    (childNames (visited table.hashTable)).Nodup := by
  have distinct := nodup_keys_entries wellFormed
  rw [← visited_append_unvisited, List.map_append] at distinct
  exact distinct.of_append_left.sublist (List.filter_sublist.map _)

/-- The instruction which tells a child to exit. -/
def exitBytes (process name : Bytes) : Bytes :=
  instrBytes process name wimpInstructionExit []

/--
The closing put exactly one exit instruction for each child, and nothing else,
behind the outgoing queue.
-/
def TellsChildren (config next : Config) : Prop :=
  ∃ children : List Bytes,
    children.Nodup ∧
      (∀ name, name ∈ children ↔ Child config.server.ptable name) ∧
      ∃ added,
        next.server.outgoingmsg = config.server.outgoingmsg ++ added ∧
          added.map (content next.heap WimpInstrNode.instruction) =
            children.map fun name =>
              some (exitBytes config.server.processName name)

/-! ## What the loop adds -/

/-- The buffers which a call with a grant puts behind the queue. -/
def queued (bytes : Bytes) (grant : Grant) : List (Option Bytes) :=
  if grant.node then [grant.block.map fun _ => bytes] else []

/-- The buffers which the calls of the loop put behind the queue. -/
def outcomes (process : Bytes) :
    List Bytes → List Grant → List (Option Bytes)
  | name :: names, grant :: grants =>
      queued (exitBytes process name) grant ++
        outcomes process names grants
  | _, _ => []

/-- Live blocks keep their content. -/
def Keeps (heap following : Heap) : Prop :=
  ∀ address, (heap address).isSome → following address = heap address

/-- A handle of a live block still refers to its content. -/
theorem content_of_keeps
    {heap following : Heap} (keeps : Keeps heap following)
    {node : WimpInstrNode}
    (live :
      ∀ address, node.instruction = some address →
        (heap address).isSome) :
    content following WimpInstrNode.instruction node =
      content heap WimpInstrNode.instruction node := by
  unfold content
  cases points : node.instruction with
  | none => rfl
  | some address => exact keeps address (live address points)

/-- One call changes only the queue and a block of its own. -/
theorem step_add_spec
    {config next : Config} {dest instr : CString} {args : Bytes}
    {grant : Grant} (ready : config.control = .ready)
    (stepped :
      step config (.add dest instr args grant.block grant.node) =
        some next) :
    next.control = .ready ∧
      next.server.processName = config.server.processName ∧
      Keeps config.heap next.heap ∧
      ∃ added,
        next.server.outgoingmsg = config.server.outgoingmsg ++ added ∧
          (∀ node ∈ added, ∀ address, node.instruction = some address →
            (next.heap address).isSome) ∧
          added.map (content next.heap WimpInstrNode.instruction) =
            queued
              (instrBytes config.server.processName dest instr args)
              grant := by
  simp only [step, ready] at stepped
  split at stepped
  case isFalse => cases stepped
  case isTrue fresh =>
    rw [Option.some.injEq] at stepped
    subst stepped
    rcases grant with ⟨block, node⟩
    cases block with
    | none =>
        have refused :
            wimpServerAdd config dest instr args none node =
              { config with
                server :=
                  { config.server with
                    outgoingmsg :=
                      wimpInstrQueueAdd config.server.outgoingmsg none 0
                        node } } := rfl
        rw [refused]
        refine ⟨ready, rfl, fun _ _ => rfl, ?_⟩
        cases node with
        | false => exact ⟨[], by simp [wimpInstrQueueAdd], by simp, rfl⟩
        | true => exact ⟨[⟨none, 0⟩], by simp [wimpInstrQueueAdd], by simp, rfl⟩
    | some address =>
        rw [wimpServerAdd_granted]
        refine ⟨ready, rfl, ?_, ?_⟩
        · intro other live
          have apart : other ≠ address := by
            rintro rfl
            rw [fresh other rfl] at live
            cases live
          exact Function.update_of_ne apart _ _
        · cases node with
          | false => exact ⟨[], by simp [wimpInstrQueueAdd], by simp, rfl⟩
          | true =>
              exact
                ⟨_, rfl, by simp, by simp [content, queued]⟩

/-- The loop appends what its calls put behind the queue. -/
theorem closingLoop_spec
    {config next : Config}
    {entries : List (HashStringEntry WimpProcessData)}
    {grants : List Grant} (ready : config.control = .ready)
    (strings : ∀ entry ∈ entries, NulFree entry.key)
    (closed : closingLoop config entries grants = some next) :
    grants.length = (childNames entries).length ∧
      Keeps config.heap next.heap ∧
      ∃ added,
        next.server.outgoingmsg = config.server.outgoingmsg ++ added ∧
          added.map (content next.heap WimpInstrNode.instruction) =
            outcomes config.server.processName (childNames entries)
              grants := by
  induction entries generalizing config grants with
  | nil =>
      rw [closingLoop] at closed
      split at closed
      · rename_i empty
        rw [Option.some.injEq] at closed
        subst closed empty
        exact ⟨rfl, fun _ _ => rfl, [], by simp, rfl⟩
      · cases closed
  | cons entry rest induction =>
      have others : ∀ entry ∈ rest, NulFree entry.key :=
        fun entry member => strings entry (List.mem_cons_of_mem _ member)
      unfold closingLoop at closed
      split at closed
      case isFalse notChild =>
        have same : childNames (entry :: rest) = childNames rest := by
          simp [childNames, notChild]
        rw [same]
        exact induction ready others closed
      case isTrue child =>
        have split :
            childNames (entry :: rest) = entry.key :: childNames rest := by
          simp [childNames, child]
        rcases grants with _ | ⟨grant, grants⟩
        · cases closed
        rcases Option.bind_eq_some_iff.mp closed with
          ⟨middle, stepped, closed⟩
        rcases step_add_spec ready stepped with
          ⟨middleReady, sameName, keeps, first, appended, live, contents⟩
        rcases induction middleReady others closed with
          ⟨lengths, later, second, extended, remaining⟩
        have key : (CString.ofBytes entry.key).val = entry.key :=
          CString.val_ofBytes (strings entry (List.mem_cons_self ..))
        have kept :
            first.map (content next.heap WimpInstrNode.instruction) =
              first.map
                (content middle.heap WimpInstrNode.instruction) := by
          apply List.map_congr_left
          intro node member
          exact content_of_keeps later (live node member)
        rw [split]
        refine ⟨by simp [lengths], ?_, first ++ second, ?_, ?_⟩
        · intro address present
          have before := keeps address present
          rw [later address (by rwa [before]), before]
        · rw [extended, appended, List.append_assoc]
        · rw [List.map_append, kept, contents, remaining, sameName, key]
          rfl

/-! ## Who is told -/

/-- Calls which are all granted queue one buffer for each name. -/
theorem outcomes_of_granted
    (process : Bytes) {names : List Bytes} {grants : List Grant}
    (lengths : grants.length = names.length)
    (granted : ∀ grant ∈ grants, grant.block.isSome ∧ grant.node) :
    outcomes process names grants =
      names.map fun name => some (exitBytes process name) := by
  induction names generalizing grants with
  | nil => rcases grants with _ | _ <;> rfl
  | cons name names induction =>
      rcases grants with _ | ⟨⟨block, node⟩, grants⟩
      · cases lengths
      · have here := granted _ (List.mem_cons_self ..)
        rcases Option.isSome_iff_exists.mp here.1 with ⟨address, points⟩
        have rest :=
          induction (Nat.succ.inj lengths) fun grant member =>
            granted grant (List.mem_cons_of_mem _ member)
        simp only at points here
        rw [outcomes, rest, queued, here.2, points]
        rfl

/-- No more than one buffer is queued for each name. -/
theorem length_outcomes_le
    (process : Bytes) (names : List Bytes) (grants : List Grant) :
    (outcomes process names grants).length ≤ names.length := by
  induction names generalizing grants with
  | nil => simp [outcomes]
  | cons name names induction =>
      rcases grants with _ | ⟨grant, grants⟩
      · simp [outcomes]
      · have rest := induction grants
        have one : (queued (exitBytes process name) grant).length ≤ 1 := by
          unfold queued
          split <;> simp
        rw [outcomes, List.length_append, List.length_cons]
        omega

/-- Where each name has its buffer, every call was granted. -/
theorem granted_of_outcomes
    (process : Bytes) {names : List Bytes} {grants : List Grant}
    (lengths : grants.length = names.length)
    (all : (outcomes process names grants).length = names.length)
    (buffers : ∀ bytes ∈ outcomes process names grants, bytes.isSome) :
    ∀ grant ∈ grants, grant.block.isSome ∧ grant.node := by
  induction names generalizing grants with
  | nil =>
      have empty : grants = [] := by simpa using lengths
      simp [empty]
  | cons name names induction =>
      rcases grants with _ | ⟨⟨block, node⟩, grants⟩
      · cases lengths
      · have fewer := length_outcomes_le process names grants
        rw [outcomes] at all buffers
        cases node with
        | false =>
            simp only [queued, List.length_append, List.length_cons] at all
            simp at all
            omega
        | true =>
            intro grant member
            have rest :=
              induction (Nat.succ.inj lengths)
                (by simpa [queued] using all)
                fun bytes member =>
                  buffers bytes (List.mem_append_right _ member)
            rcases List.mem_cons.mp member with rfl | later
            · refine ⟨?_, rfl⟩
              have here := buffers (block.map fun _ => exitBytes process name)
                (by simp [queued])
              simpa using here
            · exact rest grant later

/--
A closing server tells every child exactly when no child falls into the last
bucket of the table and every call of the loop gets its bundle and its node.
-/
theorem tellsChildren_iff
    {processes : List (CString × WimpProcessData)}
    {config next : Config} {grants : List Grant}
    (built :
      run addStep wimpCreateProcessTable processes =
        some config.server.ptable)
    (ready : config.control = .ready)
    (closed : wimpServerFree config grants = some next) :
    TellsChildren config next ↔
      (∀ name, Child config.server.ptable name →
        (hashStringHash wimpProcessTableMaxLength name : Nat) ≠ 127) ∧
        ∀ grant ∈ grants, grant.block.isSome ∧ grant.node := by
  have named : Named config.server.ptable :=
    run_invariant named_of_addStep named_create built
  rw [wimpServerFree, hashStringIter_eq, Option.bind_some] at closed
  have strings :
      ∀ entry ∈ visited config.server.ptable.hashTable,
        NulFree entry.key := by
    intro entry member
    apply named.nulFree
    rw [(mem_entries_iff_find named.wellFormed).mp
      (mem_entries_of_visited member)]
    rfl
  rcases closingLoop_spec ready strings closed with
    ⟨lengths, -, added, appended, contents⟩
  have distinct := nodup_childNames_visited named.wellFormed
  have seen := mem_childNames_visited named.wellFormed
  constructor
  · rintro ⟨children, nodup, exact, others, same, told⟩
    rw [appended, List.append_cancel_left_eq] at same
    subst same
    rw [contents] at told
    have count :
        (outcomes config.server.processName
          (childNames (visited config.server.ptable.hashTable))
            grants).length = children.length := by
      rw [told, List.length_map]
    have fewer := length_outcomes_le config.server.processName
      (childNames (visited config.server.ptable.hashTable)) grants
    -- The walked children are all children, as there are no fewer of them.
    have perm :
        (childNames (visited config.server.ptable.hashTable)).Perm
          children := by
      apply List.Subperm.perm_of_length_le
      · apply distinct.subperm
        intro name member
        exact (exact name).mpr ((seen name).mp member).1
      · omega
    constructor
    · intro name child
      have member := perm.mem_iff.mpr ((exact name).mpr child)
      exact ((seen name).mp member).2
    · apply granted_of_outcomes config.server.processName lengths
      · rw [count, perm.length_eq]
      · intro bytes member
        rw [told] at member
        rcases List.mem_map.mp member with ⟨name, -, rfl⟩
        rfl
  · rintro ⟨early, granted⟩
    refine ⟨_, distinct, ?_, added, appended, ?_⟩
    · intro name
      rw [seen name]
      exact ⟨And.left, fun child => ⟨child, early name child⟩⟩
    · rw [contents]
      exact outcomes_of_granted _ lengths granted

/-- The data of a child which did not connect. -/
private def childData : WimpProcessData :=
  { processDomain := []
    processPort := 0
    processConnection := 0
    processRelation := .child }

/-- A server whose table holds a given child alone. -/
private def parentOf (name : CString) : Config :=
  { server :=
      { processName := .ofBytes [115]
        ptable :=
          (wimpProcessTableAdd wimpCreateProcessTable name.val childData
            true).1 } }

private theorem built_parentOf (name : CString) :
    run addStep wimpCreateProcessTable [(name, childData)] =
      some (parentOf name).server.ptable := by
  simp [run, addStep, wimpProcessTableAdd, wimpCreateProcessTable,
    parentOf]

private theorem child_parentOf (name : CString) (other : Bytes) :
    Child (parentOf name).server.ptable other ↔ other = name.val := by
  have absent :
      hashStringFind wimpCreateProcessTable.hashTable name.val = none :=
    hashStringFind_create name.val
  have table :
      (parentOf name).server.ptable.hashTable =
        (hashStringAdd wimpCreateProcessTable.hashTable name.val childData
          true).1 := by
    simp [parentOf, wimpProcessTableAdd, absent, childData]
  rw [Child, table]
  constructor
  · rintro ⟨entry, found, -⟩
    by_contra different
    rw [hashStringFind_add_of_ne _ different] at found
    simp [wimpCreateProcessTable] at found
  · rintro rfl
    exact ⟨_, hashStringFind_add_self absent childData, rfl⟩

/-- The child `a` falls into a bucket in the middle of the table. -/
theorem tellsChildren_middle :
    ∃ next,
      wimpServerFree (parentOf (.ofBytes [97])) [⟨some 0, true⟩] =
          some next ∧
        TellsChildren (parentOf (.ofBytes [97])) next := by
  have walked :
      hashStringIter
          (parentOf (.ofBytes [97])).server.ptable.hashTable =
        some [{ key := [97], value := childData }] := by
    decide +kernel
  have closed :
      ∃ next,
        wimpServerFree (parentOf (.ofBytes [97])) [⟨some 0, true⟩] =
          some next := by
    rw [wimpServerFree, walked]
    exact ⟨_, rfl⟩
  rcases closed with ⟨next, closed⟩
  refine ⟨next, closed, ?_⟩
  apply (tellsChildren_iff (built_parentOf _) rfl closed).mpr
  constructor
  · intro name child
    rw [(child_parentOf _ name).mp child]
    decide +kernel
  · simp

/-- The child `gc` falls into the last bucket and is not told. -/
theorem not_tellsChildren_last :
    run addStep wimpCreateProcessTable
          [(.ofBytes [103, 99], childData)] =
        some (parentOf (.ofBytes [103, 99])).server.ptable ∧
      ∃ next,
        wimpServerFree (parentOf (.ofBytes [103, 99])) [] = some next ∧
          ¬ TellsChildren (parentOf (.ofBytes [103, 99])) next := by
  have walked :
      hashStringIter
          (parentOf (.ofBytes [103, 99])).server.ptable.hashTable =
        some [] := by
    decide +kernel
  refine ⟨built_parentOf _, parentOf (.ofBytes [103, 99]), ?_, ?_⟩
  · rw [wimpServerFree, walked]
    rfl
  · rintro ⟨children, -, exact, added, appended, told⟩
    have nothing : added = [] := by
      simpa using appended
    subst nothing
    have none : children = [] := by simpa using told.symm
    subst none
    cases (exact _).mpr ((child_parentOf _ _).mpr rfl)

end Wimp.Server.Free
