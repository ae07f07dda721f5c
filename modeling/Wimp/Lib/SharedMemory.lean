import Mathlib.Logic.Function.Basic
import Wimp.Lib.ByteRegion

/-!
# Named shared memory

A segment of shared memory has a name in the system, and processes use it
through handles.  Opening a name gives a handle of its segment, which is
created when there is none.  Closing a handle which owns its segment takes the
name out of the system; whoever still has a handle keeps the segment, but
nobody finds it again.

What the calls of a system promise is a structure of laws.  What a created
segment contains, whether the handle that created it owns it, and what closing
an owner does to a name which leads to another segment by now, is left to the
system.  Segments and handles are told apart by their positions among all that
were ever made.
-/

namespace Wimp.Lib.SharedMemory

open Wimp.Lib.ByteRegion

universe u

/-- A handle of a segment, with the name under which it was opened. -/
structure Handle (Name : Type u) where
  name : Name
  segment : Nat
  owned : Bool
deriving DecidableEq, Repr

/-- The names of the system, and all segments and handles made so far. -/
@[ext]
structure Memory (Name : Type u) where
  names : Name → Option Nat := fun _ => none
  segments : List Bytes := []
  handles : List (Handle Name) := []

/-- The contents of a segment are replaced. -/
def Memory.write {Name : Type u} (memory : Memory Name) (segment : Nat)
    (contents : Bytes) : Memory Name :=
  { memory with segments := memory.segments.set segment contents }

variable {Name : Type u} [DecidableEq Name]

/--
The calls of a system on its segments, with what they promise.  A name which
is there is opened, and one which is not is created.  A handle can be made an
owner, and an owner takes the name of its segment along when it is closed.
-/
structure System (Name : Type u) [DecidableEq Name] where
  openSegment : Memory Name → Name → Nat → Memory Name
  takeOwnership : Memory Name → Nat → Memory Name
  close : Memory Name → Nat → Memory Name
  openSegment_of_present :
    ∀ (memory : Memory Name) (name : Name) (segment length : Nat),
      memory.names name = some segment →
        openSegment memory name length =
          { memory with
            handles := memory.handles ++ [⟨name, segment, false⟩] }
  openSegment_of_absent :
    ∀ (memory : Memory Name) (name : Name) (length : Nat),
      memory.names name = none →
        ∃ contents owned,
          openSegment memory name length =
            { names :=
                Function.update memory.names name
                  (some memory.segments.length)
              segments := memory.segments ++ [contents]
              handles :=
                memory.handles ++ [⟨name, memory.segments.length, owned⟩] }
  names_takeOwnership :
    ∀ (memory : Memory Name) (handle : Nat),
      (takeOwnership memory handle).names = memory.names
  segments_takeOwnership :
    ∀ (memory : Memory Name) (handle : Nat),
      (takeOwnership memory handle).segments = memory.segments
  handles_takeOwnership :
    ∀ (memory : Memory Name) (handle : Nat),
      (takeOwnership memory handle).handles =
        memory.handles.modify handle fun record =>
          { record with owned := true }
  names_close :
    ∀ (memory : Memory Name) (handle : Nat) (name : Name),
      (close memory handle).names name = memory.names name ∨
        (close memory handle).names name = none ∧
          ∃ record ∈ memory.handles[handle]?,
            record.owned = true ∧ record.name = name
  names_close_of_owned :
    ∀ (memory : Memory Name) (handle : Nat),
      ∀ record ∈ memory.handles[handle]?, record.owned = true →
        memory.names record.name = some record.segment →
          (close memory handle).names record.name = none
  segments_close :
    ∀ (memory : Memory Name) (handle : Nat),
      (close memory handle).segments = memory.segments
  handles_close :
    ∀ (memory : Memory Name) (handle : Nat),
      (close memory handle).handles = memory.handles

variable {memory : Memory Name} {system : System Name}

/-! ## Names and segments -/

/-- Names point to segments which exist, and no two to the same one. -/
structure Sound (memory : Memory Name) : Prop where
  present :
    ∀ name segment, memory.names name = some segment →
      segment < memory.segments.length
  injective :
    ∀ first second segment, memory.names first = some segment →
      memory.names second = some segment → first = second

omit [DecidableEq Name] in
theorem sound_empty : Sound ({} : Memory Name) where
  present := fun _ _ found => nomatch found
  injective := fun _ _ _ found => nomatch found

theorem Sound.openSegment
    (sound : Sound memory) (system : System Name) (name : Name)
    (length : Nat) :
    Sound (system.openSegment memory name length) := by
  cases found : memory.names name with
  | some segment =>
      rw [system.openSegment_of_present memory name segment length found]
      exact ⟨sound.present, sound.injective⟩
  | none =>
      rcases system.openSegment_of_absent memory name length found with
        ⟨contents, owned, opened⟩
      rw [opened]
      constructor
      case present =>
        intro other segment named
        dsimp only at named
        rw [List.length_append, List.length_singleton]
        by_cases same : other = name
        · subst same
          rw [Function.update_self, Option.some.injEq] at named
          omega
        · rw [Function.update_of_ne same] at named
          have old := sound.present other segment named
          omega
      case injective =>
        -- The new segment is none of those which the old names point to.
        intro first second segment namedFirst namedSecond
        dsimp only at namedFirst namedSecond
        by_cases isFirst : first = name
        · by_cases isSecond : second = name
          · exact isFirst.trans isSecond.symm
          · subst isFirst
            rw [Function.update_self, Option.some.injEq] at namedFirst
            rw [Function.update_of_ne isSecond] at namedSecond
            have old := sound.present second segment namedSecond
            omega
        · by_cases isSecond : second = name
          · subst isSecond
            rw [Function.update_self, Option.some.injEq] at namedSecond
            rw [Function.update_of_ne isFirst] at namedFirst
            have old := sound.present first segment namedFirst
            omega
          · rw [Function.update_of_ne isFirst] at namedFirst
            rw [Function.update_of_ne isSecond] at namedSecond
            exact sound.injective first second segment namedFirst namedSecond

omit [DecidableEq Name] in
/-- Fewer names are as sound as before. -/
theorem Sound.of_names
    {next : Memory Name} (sound : Sound memory)
    (fewer :
      ∀ name segment, next.names name = some segment →
        memory.names name = some segment)
    (segments : next.segments.length = memory.segments.length) :
    Sound next where
  present := fun name segment found => by
    rw [segments]
    exact sound.present name segment (fewer name segment found)
  injective := fun first second segment namedFirst namedSecond =>
    sound.injective first second segment (fewer first segment namedFirst)
      (fewer second segment namedSecond)

theorem Sound.takeOwnership
    (sound : Sound memory) (system : System Name) (handle : Nat) :
    Sound (system.takeOwnership memory handle) := by
  apply sound.of_names
  · intro name segment found
    rwa [system.names_takeOwnership] at found
  · rw [system.segments_takeOwnership]

theorem Sound.close
    (sound : Sound memory) (system : System Name) (handle : Nat) :
    Sound (system.close memory handle) := by
  apply sound.of_names
  · intro name segment found
    rcases system.names_close memory handle name with same | ⟨gone, -⟩
    · rwa [same] at found
    · cases gone.symm.trans found
  · rw [system.segments_close]

omit [DecidableEq Name] in
theorem Sound.write
    (sound : Sound memory) (segment : Nat) (contents : Bytes) :
    Sound (memory.write segment contents) :=
  sound.of_names (fun _ _ => id) (List.length_set ..)

/-! ## What stays -/

/-- Nothing changed but the segment of one name; what was made is kept. -/
structure Away (name : Name) (memory next : Memory Name) : Prop where
  names : ∀ other, other ≠ name → next.names other = memory.names other
  segments :
    ∀ (segment : Nat) (contents : Bytes),
      memory.segments[segment]? = some contents →
        next.segments[segment]? = some contents
  handles :
    ∀ (handle : Nat) (record : Handle Name),
      memory.handles[handle]? = some record →
        next.handles[handle]? = some record

omit [DecidableEq Name] in
theorem Away.refl (name : Name) (memory : Memory Name) :
    Away name memory memory :=
  ⟨fun _ _ => rfl, fun _ _ => id, fun _ _ => id⟩

omit [DecidableEq Name] in
theorem Away.trans
    {name : Name} {next last : Memory Name}
    (first : Away name memory next) (second : Away name next last) :
    Away name memory last where
  names := fun other different =>
    (second.names other different).trans (first.names other different)
  segments := fun segment contents found =>
    second.segments segment contents (first.segments segment contents found)
  handles := fun handle record found =>
    second.handles handle record (first.handles handle record found)

omit [DecidableEq Name] in
/-- No segment is lost. -/
theorem Away.length_segments_le
    {name : Name} {next : Memory Name} (away : Away name memory next) :
    memory.segments.length ≤ next.segments.length := by
  by_contra fewer
  have shorter := Nat.not_le.mp fewer
  have stays :=
    away.segments next.segments.length _ (List.getElem?_eq_getElem shorter)
  exact Nat.lt_irrefl _ (List.getElem?_eq_some_iff.mp stays).1

omit [DecidableEq Name] in
/-- What is at a position of a list stays there when the list grows. -/
theorem getElem?_append_of_some
    {Value : Type u} {values : List Value} {position : Nat} {value : Value}
    (found : values[position]? = some value) (more : List Value) :
    (values ++ more)[position]? = some value := by
  rw [List.getElem?_append_left (List.getElem?_eq_some_iff.mp found).1]
  exact found

theorem away_openSegment
    (system : System Name) (memory : Memory Name) (name : Name)
    (length : Nat) :
    Away name memory (system.openSegment memory name length) := by
  cases found : memory.names name with
  | some segment =>
      rw [system.openSegment_of_present memory name segment length found]
      constructor
      case names => exact fun other different => rfl
      case segments => exact fun segment contents found => found
      case handles =>
        exact fun handle record opened => getElem?_append_of_some opened _
  | none =>
      rcases system.openSegment_of_absent memory name length found with
        ⟨contents, owned, opened⟩
      rw [opened]
      constructor
      case names =>
        exact fun other different => Function.update_of_ne different _ _
      case segments =>
        exact fun segment contents found => getElem?_append_of_some found _
      case handles =>
        exact fun handle record opened => getElem?_append_of_some opened _

/-- A closed handle takes at most its own name along, as an owner. -/
theorem names_close_of_apart
    (system : System Name) {handle : Nat} {record : Handle Name}
    (opened : memory.handles[handle]? = some record) {name : Name}
    (apart : record.owned = true → name ≠ record.name) :
    (system.close memory handle).names name = memory.names name := by
  rcases system.names_close memory handle name with
    same | ⟨-, own, found, owned, named⟩
  · exact same
  · cases opened.symm.trans found
    exact absurd named.symm (apart owned)

/-- Closing a handle brings no name back. -/
theorem isSome_names_of_close
    (system : System Name) {handle : Nat} {name : Name}
    (present : ((system.close memory handle).names name).isSome) :
    (memory.names name).isSome := by
  rcases system.names_close memory handle name with same | ⟨gone, -⟩
  · rwa [same] at present
  · rw [gone] at present
    cases present

theorem away_close
    (system : System Name) {handle : Nat} {record : Handle Name}
    (opened : memory.handles[handle]? = some record) :
    Away record.name memory (system.close memory handle) := by
  constructor
  case names =>
    intro other different
    exact names_close_of_apart system opened fun _ => different
  case segments =>
    intro segment contents found
    rwa [system.segments_close]
  case handles =>
    intro other own found
    rwa [system.handles_close]

/-- A handle which is newer than the memory may take ownership. -/
theorem Away.takeOwnership
    {name : Name} {next : Memory Name} (away : Away name memory next)
    (system : System Name) {handle : Nat}
    (new : memory.handles.length ≤ handle) :
    Away name memory (system.takeOwnership next handle) where
  names := by
    rw [system.names_takeOwnership]
    exact away.names
  segments := by
    rw [system.segments_takeOwnership]
    exact away.segments
  handles := by
    intro other record found
    have older := (List.getElem?_eq_some_iff.mp found).1
    have different : handle ≠ other := by omega
    rw [system.handles_takeOwnership, List.getElem?_modify,
      away.handles other record found]
    simp [different]

/-! ## New handles -/

/-- A new handle belongs to the segment of its name. -/
theorem handle_openSegment
    (system : System Name) (memory : Memory Name) (name : Name)
    (length : Nat) :
    ∃ segment owned,
      (system.openSegment memory name length).handles[
          memory.handles.length]? =
        some ⟨name, segment, owned⟩ ∧
      (system.openSegment memory name length).names name =
        some segment := by
  cases found : memory.names name with
  | some segment =>
      rw [system.openSegment_of_present memory name segment length found]
      exact ⟨segment, false, List.getElem?_concat_length .., found⟩
  | none =>
      rcases system.openSegment_of_absent memory name length found with
        ⟨contents, owned, opened⟩
      rw [opened]
      exact ⟨_, owned, List.getElem?_concat_length ..,
        Function.update_self ..⟩

theorem record_takeOwnership
    (system : System Name) {handle : Nat} {record : Handle Name}
    (opened : memory.handles[handle]? = some record) :
    (system.takeOwnership memory handle).handles[handle]? =
      some { record with owned := true } := by
  rw [system.handles_takeOwnership, List.getElem?_modify, opened]
  simp

/-- A handle which took ownership takes the name of its segment along. -/
theorem names_close_takeOwnership
    (system : System Name) {handle : Nat} {record : Handle Name}
    (opened : memory.handles[handle]? = some record)
    (leads : memory.names record.name = some record.segment) :
    (system.close (system.takeOwnership memory handle) handle).names
        record.name =
      none := by
  apply system.names_close_of_owned _ _ { record with owned := true }
  · exact record_takeOwnership system opened
  · rfl
  · rw [system.names_takeOwnership]
    exact leads

/-- Whatever has a name is opened, owned and closed. -/
def System.discard (system : System Name) (memory : Memory Name)
    (name : Name) (length : Nat) : Memory Name :=
  system.close
    (system.takeOwnership (system.openSegment memory name length)
      memory.handles.length)
    memory.handles.length

theorem names_discard
    (system : System Name) (memory : Memory Name) (name : Name)
    (length : Nat) :
    (system.discard memory name length).names name = none := by
  rcases handle_openSegment system memory name length with
    ⟨segment, owned, opened, leads⟩
  exact names_close_takeOwnership system opened leads

theorem away_discard
    (system : System Name) (memory : Memory Name) (name : Name)
    (length : Nat) :
    Away name memory (system.discard memory name length) := by
  rcases handle_openSegment system memory name length with
    ⟨segment, owned, opened, -⟩
  have taken := (away_openSegment system memory name length)
    |>.takeOwnership system (Nat.le_refl memory.handles.length)
  exact taken.trans
    (away_close system (record_takeOwnership system opened))

theorem Sound.discard
    (sound : Sound memory) (system : System Name) (name : Name)
    (length : Nat) : Sound (system.discard memory name length) :=
  ((sound.openSegment system name length).takeOwnership system _).close
    system _

/-- A handle which owns nothing leaves the names alone. -/
theorem close_of_not_owned
    (system : System Name) {handle : Nat} {record : Handle Name}
    (opened : memory.handles[handle]? = some record)
    (notOwned : record.owned = false) :
    system.close memory handle = memory := by
  apply Memory.ext
  · funext name
    apply names_close_of_apart system opened
    intro owned
    rw [notOwned] at owned
    cases owned
  · exact system.segments_close memory handle
  · exact system.handles_close memory handle

/-- What a system promises whose created segments belong to their handles. -/
def System.Owning (system : System Name) : Prop :=
  ∀ (memory : Memory Name) (name : Name) (length : Nat),
    memory.names name = none →
      ∀ record ∈
          (system.openSegment memory name length).handles[
            memory.handles.length]?,
        record.owned = true

/-! ## A system in memory -/

namespace Memory

/--
A new handle of the segment of a name.  A segment which has to be created is
zeroed, and its handle owns it or not.
-/
def openSegment (createdOwned : Bool) (memory : Memory Name) (name : Name)
    (length : Nat) : Memory Name :=
  match memory.names name with
  | some segment =>
      { memory with
        handles := memory.handles ++ [⟨name, segment, false⟩] }
  | none =>
      { names :=
          Function.update memory.names name (some memory.segments.length)
        segments := memory.segments ++ [List.replicate length 0]
        handles :=
          memory.handles ++
            [⟨name, memory.segments.length, createdOwned⟩] }

omit [DecidableEq Name] in
/-- The handle owns its segment from now on. -/
def takeOwnership (memory : Memory Name) (handle : Nat) : Memory Name :=
  { memory with
    handles :=
      memory.handles.modify handle fun record =>
        { record with owned := true } }

/-- A handle is closed, and takes the name of a segment it owns along. -/
def close (memory : Memory Name) (handle : Nat) : Memory Name :=
  { memory with
    names := fun name =>
      if (memory.handles[handle]?).any fun record =>
          record.owned ∧ record.name = name
      then none
      else memory.names name }

end Memory

/-- A system which does what it promises and no more. -/
def memorySystem (createdOwned : Bool) : System Name where
  openSegment := Memory.openSegment createdOwned
  takeOwnership := Memory.takeOwnership
  close := Memory.close
  openSegment_of_present := by
    intro memory name segment length present
    rw [Memory.openSegment, present]
  openSegment_of_absent := by
    intro memory name length absent
    refine ⟨List.replicate length 0, createdOwned, ?_⟩
    rw [Memory.openSegment, absent]
  names_takeOwnership := fun _ _ => rfl
  segments_takeOwnership := fun _ _ => rfl
  handles_takeOwnership := fun _ _ => rfl
  names_close := by
    intro memory handle name
    rcases found : memory.handles[handle]? with _ | record
    · exact Or.inl (by simp [Memory.close, found])
    by_cases owner : record.owned = true ∧ record.name = name
    · exact
        Or.inr ⟨by simp [Memory.close, found, owner], record, rfl, owner⟩
    · exact Or.inl (by simp [Memory.close, found, owner])
  names_close_of_owned := by
    intro memory handle record found owned _
    rw [Option.mem_def] at found
    simp [Memory.close, found, owned]
  segments_close := fun _ _ => rfl
  handles_close := fun _ _ => rfl

theorem owning_memorySystem :
    (memorySystem true : System Name).Owning := by
  intro memory name length absent record opened
  change record ∈
    (Memory.openSegment true memory name length).handles[_]? at opened
  rw [Memory.openSegment, absent, Option.mem_def,
    List.getElem?_concat_length] at opened
  cases opened
  rfl

end Wimp.Lib.SharedMemory
