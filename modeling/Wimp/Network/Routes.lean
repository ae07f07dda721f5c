import Wimp.Network.Stages

/-!
# The route of an instruction

An instruction climbs from its source towards the root until it meets a
server which knows its destination, which is where it goes from there.  When
no server on the way knows the destination, the root drops it.  The route of
an instruction therefore depends on its source and its destination only.
-/

namespace Wimp.Network.Routes

open Wimp.Lib.ByteRegion
open Wimp.Lib.Forest
open Wimp.Lib.Relay
open Wimp.Instr.Codec
open Wimp.Network.Machine
open Wimp.Network.Stages

variable {count : Nat}

/-! ## Classes of instructions -/

/-- The instructions from one process for another one. -/
def fromTo (source dest : CString) (instruction : Bytes) : Bool :=
  (terminated dest.val ++ terminated source.val).isPrefixOf
    (instruction.drop wimpInstructionDestOffset)

theorem fromTo_iff (source dest : CString) (instruction : Bytes) :
    fromTo source dest instruction = true ↔
      ∃ rest,
        instruction.drop wimpInstructionDestOffset =
          terminated dest.val ++ (terminated source.val ++ rest) := by
  rw [fromTo, List.isPrefixOf_iff_prefix]
  constructor
  · rintro ⟨rest, split⟩
    exact ⟨rest, by rw [← split, List.append_assoc]⟩
  · rintro ⟨rest, split⟩
    exact ⟨rest, by rw [split, List.append_assoc]⟩

/-- The instructions of a class are addressed to one name. -/
theorem destination_of_fromTo
    {source dest : CString} {instruction : Bytes}
    (belongs : fromTo source dest instruction = true) :
    destination instruction = dest.val := by
  rcases (fromTo_iff source dest instruction).mp belongs with ⟨rest, split⟩
  rw [destination, destOf, split, cString_terminated dest.2,
    Option.getD_some]

/-- The class of an added instruction. -/
theorem fromTo_instrBytes
    (source dest process other : CString) (instr args : Bytes) :
    fromTo source dest (instrBytes process.val other.val instr args) = true ↔
      process = source ∧ other = dest := by
  rw [fromTo_iff, instrBytes, wimpInstructionDestOffset,
    List.drop_left' (length_toLE 4 _)]
  constructor
  · rintro ⟨rest, split⟩
    rcases terminated_append_inj other.2 dest.2 split with ⟨first, tail⟩
    rcases terminated_append_inj process.2 source.2 tail with ⟨second, -⟩
    exact ⟨Subtype.ext second, Subtype.ext first⟩
  · rintro ⟨rfl, rfl⟩
    exact ⟨_, rfl⟩

/-! ## Routes -/

/--
The stages of an instruction which is in the outgoing queue of a server that
it is not addressed to, and the stage where its way ends.
-/
inductive Route (topology : Topology count) (dest : CString) :
    Fin count → List (Stage count) → Stage count → Prop where
  | dropped (node : Fin count)
      (root : topology.hop node dest.val = none) :
      Route topology dest node [.outgoing node, .dropped node]
        (.dropped node)
  | reached (node other : Fin count)
      (hops : topology.hop node dest.val = some other)
      (named : topology.name other = dest) :
      Route topology dest node
        [.outgoing node, .link node other, .incoming other,
          .consumed other]
        (.consumed other)
  | climbed (node above : Fin count) (path : List (Stage count))
      (ending : Stage count)
      (hops : topology.hop node dest.val = some above)
      (foreign : topology.name above ≠ dest)
      (rest : Route topology dest above path ending) :
      Route topology dest node
        (.outgoing node :: .link node above :: .incoming above :: path)
        ending

/--
The destination is a proper ancestor of the server, or in the process table
of the server or of one of its ancestors.
-/
def Reaches (topology : Topology count) (node : Fin count)
    (dest : CString) : Prop :=
  (∃ ancestor, Ancestor topology.parent node ancestor ∧
      topology.name ancestor = dest) ∨
    topology.Listed node dest.val ∨
    ∃ ancestor, Ancestor topology.parent node ancestor ∧
      topology.Listed ancestor dest.val

/-- The root of the tree of a server. -/
def IsRoot (topology : Topology count) (node root : Fin count) : Prop :=
  topology.parent root = none ∧
    (root = node ∨ Ancestor topology.parent node root)

variable {topology : Topology count} {dest : CString} {node : Fin count}
variable {path : List (Stage count)} {ending : Stage count}

/-- A hop to another server than the destination goes to the parent. -/
theorem parent_of_hop
    {above : Fin count} (hops : topology.hop node dest.val = some above)
    (foreign : topology.name above ≠ dest) :
    ¬ topology.Listed node dest.val ∧ topology.parent node = some above := by
  unfold Topology.hop at hops
  split_ifs at hops with listed
  · exact absurd (Subtype.ext (name_of_serverOf hops)) foreign
  · exact ⟨listed, hops⟩

/-- Only a root cannot make a hop. -/
theorem root_of_hop (root : topology.hop node dest.val = none) :
    ¬ topology.Listed node dest.val ∧ topology.parent node = none := by
  unfold Topology.hop at root
  split_ifs at root with listed
  · rcases exists_of_listed topology listed with ⟨other, found, -⟩
    rw [root] at found
    cases found
  · exact ⟨listed, root⟩

/-- Every destination has a route from every server. -/
theorem exists_route
    (topology : Topology count) (dest : CString) (node : Fin count) :
    ∃ path ending, Route topology dest node path ending := by
  induction node using topology.acyclic.induction with
  | step node induction =>
      cases hops : topology.hop node dest.val with
      | none => exact ⟨_, _, .dropped node hops⟩
      | some other =>
          by_cases named : topology.name other = dest
          · exact ⟨_, _, .reached node other hops named⟩
          · rcases induction other (parent_of_hop hops named).2 with
              ⟨path, ending, rest⟩
            exact ⟨_, _, .climbed node other path ending hops named rest⟩

theorem Route.head
    (route : Route topology dest node path ending) :
    path[0]? = some (.outgoing node) := by
  cases route <;> rfl

/-! ## The stages of a route -/

theorem Route.outgoing_mem
    (route : Route topology dest node path ending) {other : Fin count}
    (member : .outgoing other ∈ path) :
    other = node ∨ Ancestor topology.parent node other := by
  induction route with
  | dropped node root => left; simpa using member
  | reached node target hops named => left; simpa using member
  | climbed node above path ending hops foreign rest induction =>
      simp only [List.mem_cons, Stage.outgoing.injEq, reduceCtorEq,
        false_or] at member
      rcases member with same | behind
      · exact Or.inl same
      · exact Or.inr
          ((ancestor_iff_of_parent (parent_of_hop hops foreign).2
            other).mpr (induction behind))

theorem Route.link_mem
    (route : Route topology dest node path ending)
    {other next : Fin count} (member : .link other next ∈ path) :
    other = node ∨ Ancestor topology.parent node other := by
  induction route with
  | dropped node root => simp at member
  | reached node target hops named => left; simp_all
  | climbed node above path ending hops foreign rest induction =>
      simp only [List.mem_cons, Stage.link.injEq, reduceCtorEq,
        false_or] at member
      rcases member with same | behind
      · exact Or.inl same.1
      · exact Or.inr
          ((ancestor_iff_of_parent (parent_of_hop hops foreign).2
            other).mpr (induction behind))

theorem Route.incoming_mem
    (route : Route topology dest node path ending) {other : Fin count}
    (member : .incoming other ∈ path) :
    Ancestor topology.parent node other ∨ topology.name other = dest := by
  induction route with
  | dropped node root => simp at member
  | reached node target hops named => right; simp_all
  | climbed node above path ending hops foreign rest induction =>
      have climb :=
        ancestor_iff_of_parent (parent_of_hop hops foreign).2 other
      simp only [List.mem_cons, Stage.incoming.injEq, reduceCtorEq,
        false_or] at member
      rcases member with same | behind
      · exact Or.inl (climb.mpr (Or.inl same))
      · rcases induction behind with higher | named
        · exact Or.inl (climb.mpr (Or.inr higher))
        · exact Or.inr named

/-- An instruction is consumed where its route ends, and nowhere else. -/
theorem Route.consumed_mem_iff
    (route : Route topology dest node path ending) (other : Fin count) :
    .consumed other ∈ path ↔ ending = .consumed other := by
  induction route with
  | dropped node root => simp
  | reached node target hops named => simp [eq_comm]
  | climbed node above path ending hops foreign rest induction =>
      simpa using induction

/-- An instruction is dropped where its route ends, and nowhere else. -/
theorem Route.dropped_mem_iff
    (route : Route topology dest node path ending) (other : Fin count) :
    .dropped other ∈ path ↔ ending = .dropped other := by
  induction route with
  | dropped node root => simp [eq_comm]
  | reached node target hops named => simp
  | climbed node above path ending hops foreign rest induction =>
      simpa using induction

theorem Route.ending_mem
    (route : Route topology dest node path ending) : ending ∈ path := by
  induction route with
  | dropped node root => simp
  | reached node target hops named => simp
  | climbed node above path ending hops foreign rest induction =>
      simp [induction]

/-- The class of the instructions on a route follows it. -/
theorem Route.isLine
    (route : Route topology dest node path ending) (source : CString) :
    Line (onward topology) (fromTo source dest) path := by
  induction route with
  | dropped node root =>
      have last : Line (onward topology) (fromTo source dest)
          [Stage.dropped node] :=
        line_nil.cons List.not_mem_nil fun _ _ => rfl
      apply last.cons (by simp)
      intro instruction belongs
      rw [onward, destination_of_fromTo belongs, root]
      rfl
  | reached node target hops named =>
      have last : Line (onward topology) (fromTo source dest)
          [Stage.consumed target] :=
        line_nil.cons List.not_mem_nil fun _ _ => rfl
      have second : Line (onward topology) (fromTo source dest)
          [Stage.incoming target, .consumed target] := by
        apply last.cons (by simp)
        intro instruction belongs
        rw [onward, destination_of_fromTo belongs, named, if_pos rfl]
        rfl
      have third : Line (onward topology) (fromTo source dest)
          [Stage.link node target, .incoming target, .consumed target] :=
        second.cons (by simp) fun _ _ => rfl
      apply third.cons (by simp)
      intro instruction belongs
      rw [onward, destination_of_fromTo belongs, hops]
      rfl
  | climbed node above path ending hops foreign rest induction =>
      have leads := (parent_of_hop hops foreign).2
      have higher : Ancestor topology.parent node above :=
        (ancestor_iff_of_parent leads above).mpr (Or.inl rfl)
      have below (other : Fin count)
          (within : other = above ∨ Ancestor topology.parent above other) :
          other ≠ node := by
        rintro rfl
        exact topology.acyclic other
          ((ancestor_iff_of_parent leads other).mpr within)
      have first : Line (onward topology) (fromTo source dest)
          (.incoming above :: path) := by
        apply induction.cons
        · intro member
          rcases rest.incoming_mem member with cycle | named
          · exact topology.acyclic above cycle
          · exact foreign named
        · intro instruction belongs
          rw [rest.head, onward, destination_of_fromTo belongs, if_neg]
          exact fun same => foreign (Subtype.ext same.symm)
      have second : Line (onward topology) (fromTo source dest)
          (.link node above :: .incoming above :: path) := by
        apply first.cons
        · intro member
          rcases List.mem_cons.mp member with same | behind
          · cases same
          · exact below node (rest.link_mem behind) rfl
        · exact fun _ _ => rfl
      apply second.cons
      · intro member
        simp only [List.mem_cons, reduceCtorEq, false_or] at member
        exact below node (rest.outgoing_mem member) rfl
      · intro instruction belongs
        rw [onward, destination_of_fromTo belongs, hops]
        rfl

/-! ## Where a route ends -/

/-- What a server reaches through its parent. -/
theorem reaches_iff_of_parent
    {above : Fin count} (unlisted : ¬ topology.Listed node dest.val)
    (leads : topology.parent node = some above)
    (foreign : topology.name above ≠ dest) :
    Reaches topology node dest ↔ Reaches topology above dest := by
  unfold Reaches
  simp only [ancestor_iff_of_parent leads, or_and_right, exists_or,
    exists_eq_left, foreign, unlisted, false_or]

theorem not_reaches_of_root (root : topology.hop node dest.val = none) :
    ¬ Reaches topology node dest := by
  rcases root_of_hop root with ⟨unlisted, top⟩
  rintro (⟨ancestor, above, -⟩ | listed | ⟨ancestor, above, -⟩)
  · exact not_ancestor_of_root top ancestor above
  · exact unlisted listed
  · exact not_ancestor_of_root top ancestor above

theorem reaches_of_hop
    {other : Fin count} (hops : topology.hop node dest.val = some other)
    (named : topology.name other = dest) : Reaches topology node dest := by
  unfold Topology.hop at hops
  split_ifs at hops with listed
  · exact Or.inr (Or.inl listed)
  · exact Or.inl
      ⟨other, (ancestor_iff_of_parent hops other).mpr (Or.inl rfl), named⟩

/-- A route ends at its destination when that can be reached. -/
theorem Route.ending_of_reaches
    (route : Route topology dest node path ending)
    (reaches : Reaches topology node dest) :
    ∃ target, topology.name target = dest ∧ ending = .consumed target := by
  induction route with
  | dropped node root => exact absurd reaches (not_reaches_of_root root)
  | reached node target hops named => exact ⟨target, named, rfl⟩
  | climbed node above path ending hops foreign rest induction =>
      rcases parent_of_hop hops foreign with ⟨unlisted, leads⟩
      exact induction
        ((reaches_iff_of_parent unlisted leads foreign).mp reaches)

/-- A route ends at the root when the destination cannot be reached. -/
theorem Route.ending_of_not_reaches
    (route : Route topology dest node path ending)
    (lost : ¬ Reaches topology node dest) :
    ∃ root, IsRoot topology node root ∧ ending = .dropped root := by
  induction route with
  | dropped node root =>
      exact ⟨node, ⟨(root_of_hop root).2, Or.inl rfl⟩, rfl⟩
  | reached node target hops named =>
      exact absurd (reaches_of_hop hops named) lost
  | climbed node above path ending hops foreign rest induction =>
      rcases parent_of_hop hops foreign with ⟨unlisted, leads⟩
      rw [reaches_iff_of_parent unlisted leads foreign] at lost
      rcases induction lost with ⟨root, ⟨top, within⟩, same⟩
      exact ⟨root,
        ⟨top, Or.inr ((ancestor_iff_of_parent leads root).mpr within)⟩,
        same⟩

/-- A link to the destination is only on a route which reaches it. -/
theorem Route.reaches_of_link
    (route : Route topology dest node path ending)
    {other next : Fin count} (member : .link other next ∈ path)
    (named : topology.name next = dest) : Reaches topology node dest := by
  induction route with
  | dropped node root => simp at member
  | reached node target hops same => exact reaches_of_hop hops same
  | climbed node above path ending hops foreign rest induction =>
      rcases parent_of_hop hops foreign with ⟨unlisted, leads⟩
      simp only [List.mem_cons, Stage.link.injEq, reduceCtorEq,
        false_or] at member
      rcases member with ⟨-, rfl⟩ | behind
      · exact absurd named foreign
      · exact (reaches_iff_of_parent unlisted leads foreign).mpr
          (induction behind)

/-! ## The hops of a route -/

/-- The links among some stages. -/
def hopsOf (path : List (Stage count)) : List (Fin count × Fin count) :=
  path.filterMap fun
    | .link node other => some (node, other)
    | _ => none

theorem mem_hopsOf_iff (path : List (Stage count)) (node other : Fin count) :
    (node, other) ∈ hopsOf path ↔ .link node other ∈ path := by
  rw [hopsOf, List.mem_filterMap]
  constructor
  · rintro ⟨stage, member, same⟩
    cases stage with
    | link first second =>
        cases same
        exact member
    | outgoing => cases same
    | incoming => cases same
    | consumed => cases same
    | dropped => cases same
  · exact fun member => ⟨_, member, rfl⟩

/-- A route makes one hop more at most than its source has ancestors. -/
theorem Route.length_hopsOf
    (route : Route topology dest node path ending) :
    (hopsOf path).length ≤ depth topology.parent node + 1 := by
  induction route with
  | dropped node root => exact Nat.zero_le _
  | reached node target hops named => exact Nat.le_add_left 1 _
  | climbed node above path ending hops foreign rest induction =>
      have deeper :
          depth topology.parent node = depth topology.parent above + 1 :=
        depth_of_parent topology.acyclic (parent_of_hop hops foreign).2
      rw [deeper]
      exact Nat.succ_le_succ induction

end Wimp.Network.Routes
