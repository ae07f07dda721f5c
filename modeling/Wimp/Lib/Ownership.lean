import Mathlib.Data.List.Nodup
import Mathlib.Logic.Function.Basic

/-!
# Ownership of heap blocks by handles

A heap maps addresses to the contents of live blocks.  A list of handles owns
its blocks when every handle points to a live block and no two point to the
same one.  The rules below say how ownership survives an allocation, a
release, and any rearrangement of the handles; what a handle refers to is
unchanged in each case.
-/

namespace Wimp.Lib.Ownership

variable {Address Content Handle : Type*}
variable {heap : Address → Option Content}
variable {pointer : Handle → Option Address}

/-- The live content a handle refers to. -/
def content (heap : Address → Option Content)
    (pointer : Handle → Option Address) (handle : Handle) :
    Option Content :=
  (pointer handle).bind heap

/-- The handles own pairwise different live blocks. -/
structure Owns (heap : Address → Option Content)
    (pointer : Handle → Option Address) (handles : List Handle) :
    Prop where
  live : ∀ handle ∈ handles, (content heap pointer handle).isSome
  distinct : (handles.map pointer).Nodup

theorem owns_nil : Owns heap pointer [] := by
  constructor <;> simp

/-- An owning handle points somewhere. -/
theorem Owns.exists_address
    {handles : List Handle} (owns : Owns heap pointer handles)
    {handle : Handle} (member : handle ∈ handles) :
    ∃ address block,
      pointer handle = some address ∧ heap address = some block ∧
        content heap pointer handle = some block := by
  rcases Option.isSome_iff_exists.mp (owns.live handle member) with
    ⟨block, found⟩
  rcases Option.bind_eq_some_iff.mp found with ⟨address, points, live⟩
  exact ⟨address, block, points, live, found⟩

/-- Ownership does not depend on the order of the handles. -/
theorem Owns.perm
    {handles others : List Handle} (owns : Owns heap pointer handles)
    (perm : handles.Perm others) :
    Owns heap pointer others where
  live := fun handle member => owns.live handle (perm.mem_iff.mpr member)
  distinct := (perm.map pointer).nodup_iff.mp owns.distinct

variable [DecidableEq Address]

/-- A live handle is not affected by an update of a free address. -/
theorem content_update_of_free
    {address : Address} (free : heap address = none)
    {handle : Handle} (live : (content heap pointer handle).isSome)
    (block : Option Content) :
    content (Function.update heap address block) pointer handle =
      content heap pointer handle := by
  unfold content at live ⊢
  cases points : pointer handle with
  | none => rfl
  | some other =>
      rw [points, Option.bind_some] at live
      rw [Option.bind_some, Option.bind_some, Function.update_of_ne]
      rintro rfl
      simp [free] at live

/-- Ownership survives an allocation elsewhere. -/
theorem Owns.allocate
    {handles : List Handle} (owns : Owns heap pointer handles)
    {address : Address} (free : heap address = none)
    (block : Option Content) :
    Owns (Function.update heap address block) pointer handles where
  live := fun handle member => by
    rw [content_update_of_free free (owns.live handle member)]
    exact owns.live handle member
  distinct := owns.distinct

/-- A handle to a block allocated just now may be added. -/
theorem Owns.allocate_append
    {handles : List Handle} (owns : Owns heap pointer handles)
    {address : Address} (free : heap address = none) (block : Content)
    (handle : Handle) (points : pointer handle = some address) :
    Owns (Function.update heap address (some block)) pointer
      (handles ++ [handle]) where
  live := by
    intro other member
    rcases List.mem_append.mp member with old | new
    · exact (owns.allocate free (some block)).live other old
    · rw [List.mem_singleton.mp new, content, points]
      simp
  distinct := by
    rw [List.map_append, List.map_singleton, points,
      List.nodup_append]
    refine ⟨owns.distinct, List.nodup_singleton _, ?_⟩
    intro pointed member other single
    rcases List.mem_singleton.mp single with rfl
    rcases List.mem_map.mp member with ⟨old, oldMember, rfl⟩
    rcases owns.exists_address oldMember with
      ⟨oldAddress, oldBlock, oldPoints, live, -⟩
    rw [oldPoints]
    rintro equal
    rw [Option.some.injEq] at equal
    rw [equal, free] at live
    cases live

/-- The other owners do not see the release of a block. -/
theorem Owns.content_release
    {handles : List Handle} {handle : Handle}
    (owns : Owns heap pointer (handle :: handles))
    {address : Address} (points : pointer handle = some address)
    {other : Handle} (member : other ∈ handles) :
    content (Function.update heap address none) pointer other =
      content heap pointer other := by
  have different : pointer other ≠ some address := by
    intro same
    have distinct := owns.distinct
    rw [List.map_cons, List.nodup_cons, points] at distinct
    exact distinct.1 (List.mem_map.mpr ⟨other, member, same⟩)
  unfold content
  cases pointed : pointer other with
  | none => rfl
  | some otherAddress =>
      rw [Option.bind_some, Option.bind_some, Function.update_of_ne]
      rintro rfl
      exact different pointed

/-- An owner may release its block and be forgotten. -/
theorem Owns.release
    {handles : List Handle} {handle : Handle}
    (owns : Owns heap pointer (handle :: handles))
    {address : Address} (points : pointer handle = some address) :
    Owns (Function.update heap address none) pointer handles where
  live := fun other member => by
    rw [owns.content_release points member]
    exact owns.live other (List.mem_cons_of_mem _ member)
  distinct := by
    have distinct := owns.distinct
    rw [List.map_cons, List.nodup_cons] at distinct
    exact distinct.2

end Wimp.Lib.Ownership
