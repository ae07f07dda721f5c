import Mathlib.Data.Set.Card
import Mathlib.Data.Fintype.Card
import Mathlib.Logic.Relation

/-!
# Forests given by parents

A partial parent function on finitely many nodes is a forest when no node is
its own proper ancestor.  The depth of a node is the number of its proper
ancestors, and a statement about all nodes may be proved from the roots
downwards.
-/

namespace Wimp.Lib.Forest

universe u

variable {Node : Type u} {parent : Node → Option Node}

/-- The second node is a proper ancestor of the first one. -/
def Ancestor (parent : Node → Option Node) : Node → Node → Prop :=
  Relation.TransGen fun node above => parent node = some above

/-- No node is its own proper ancestor. -/
def Acyclic (parent : Node → Option Node) : Prop :=
  ∀ node, ¬ Ancestor parent node node

/-- The number of the proper ancestors. -/
noncomputable def depth (parent : Node → Option Node) (node : Node) : Nat :=
  Set.ncard {ancestor | Ancestor parent node ancestor}

/-- An ancestor is the parent or an ancestor of the parent. -/
theorem ancestor_iff (node ancestor : Node) :
    Ancestor parent node ancestor ↔
      ∃ above, parent node = some above ∧
        (ancestor = above ∨ Ancestor parent above ancestor) := by
  unfold Ancestor
  rw [Relation.TransGen.head'_iff]
  simp only [Relation.reflTransGen_iff_eq_or_transGen]

theorem ancestor_iff_of_parent
    {node above : Node} (leads : parent node = some above)
    (ancestor : Node) :
    Ancestor parent node ancestor ↔
      ancestor = above ∨ Ancestor parent above ancestor := by
  rw [ancestor_iff]
  constructor
  · rintro ⟨other, same, below⟩
    rw [leads, Option.some.injEq] at same
    exact same ▸ below
  · exact fun below => ⟨above, leads, below⟩

theorem not_ancestor_of_root
    {node : Node} (root : parent node = none) (ancestor : Node) :
    ¬ Ancestor parent node ancestor := by
  rw [ancestor_iff]
  rintro ⟨above, leads, -⟩
  rw [root] at leads
  cases leads

theorem Ancestor.trans
    {first second third : Node} (left : Ancestor parent first second)
    (right : Ancestor parent second third) : Ancestor parent first third :=
  Relation.TransGen.trans left right

variable [Finite Node]

/-- A node has one proper ancestor more than its parent. -/
theorem depth_of_parent
    (acyclic : Acyclic parent) {node above : Node}
    (leads : parent node = some above) :
    depth parent node = depth parent above + 1 := by
  have ancestors :
      {ancestor | Ancestor parent node ancestor} =
        insert above {ancestor | Ancestor parent above ancestor} := by
    ext ancestor
    exact ancestor_iff_of_parent leads ancestor
  unfold depth
  rw [ancestors, Set.ncard_insert_of_notMem]
  exact acyclic above

/-- From the roots downwards. -/
theorem Acyclic.induction
    (acyclic : Acyclic parent) {motive : Node → Prop}
    (step :
      ∀ node, (∀ above, parent node = some above → motive above) →
        motive node)
    (node : Node) : motive node := by
  have transitive :
      IsTrans Node fun above node => Ancestor parent node above :=
    ⟨fun _ _ _ first second => second.trans first⟩
  have irreflexive :
      Std.Irrefl fun above node => Ancestor parent node above :=
    ⟨acyclic⟩
  have founded :=
    Finite.wellFounded_of_trans_of_irrefl
      fun above node => Ancestor parent node above
  induction node using founded.induction with
  | _ node above =>
      exact step node fun other leads =>
        above other ((ancestor_iff_of_parent leads other).mpr (Or.inl rfl))

end Wimp.Lib.Forest
