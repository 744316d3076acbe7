import ThreeAddress.Proofs.Actions

/-!
# Merging pending lists

Where branches of control flow join, their pending lists are merged, two at a time and in an order that
the grammar dictates. The merges that lead to a list form a tree (`MergeTree`).

* `indices_merged`: **the merged list is the lists at the leaves, one after another.** The shape of the
  tree does not matter (`merged_congr`), so merging is associative.
* `performAll_backpatches`: patching lists one after another is patching their concatenation.
* `merge_trees`: hence **the lists can be patched without being merged**, in any order.
-/

namespace ThreeAddress

/-- The merges that lead from given lists to a single one. -/
inductive MergeTree where
  | leaf (list : PendingList)
  | join (left right : MergeTree)
deriving DecidableEq, Repr

namespace MergeTree

/-- The list that the merges lead to. -/
def merged : MergeTree → PendingList
  | leaf list => list
  | join left right => left.merged.merge right.merged

/-- The given lists, from left to right. -/
def leaves : MergeTree → List PendingList
  | leaf list => [list]
  | join left right => left.leaves ++ right.leaves

/-- **Merging puts the given lists one after another.** -/
theorem indices_merged (tree : MergeTree) :
    tree.merged.indices = tree.leaves.flatMap PendingList.indices := by
  induction tree with
  | leaf list => exact (List.flatMap_singleton _ _).symm
  | join left right ihl ihr =>
    rw [merged, leaves, PendingList.indices_merge, ihl, ihr, List.flatMap_append]

theorem merged_congr {tree tree' : MergeTree}
    (h : tree.leaves.flatMap PendingList.indices = tree'.leaves.flatMap PendingList.indices) :
    tree.merged = tree'.merged := by
  rw [← indices_merged, ← indices_merged] at h
  exact congrArg PendingList.mk h

end MergeTree

namespace PendingList

open MergeTree

theorem merge_assoc (x y z : PendingList) : (x.merge y).merge z = x.merge (y.merge z) := by
  have hshape : (join (join (leaf x) (leaf y)) (leaf z)).merged =
      (join (leaf x) (join (leaf y) (leaf z))).merged := merged_congr rfl
  exact hshape

theorem empty_merge (x : PendingList) : empty.merge x = x := by
  have hshape : (join (leaf empty) (leaf x)).merged = (leaf x).merged := merged_congr rfl
  exact hshape

theorem merge_empty (x : PendingList) : x.merge empty = x := by
  have hshape : (join (leaf x) (leaf empty)).merged = (leaf x).merged := merged_congr rfl
  exact hshape

end PendingList

/-- **Patching lists one after another** to the same target is patching their concatenation. -/
theorem Builder.performAll_backpatches (target : ℕ) (lists : List PendingList) : ∀ b : Builder,
    b.performAll (lists.map fun list => .backpatch list target) =
      (b.backpatch ⟨lists.flatMap PendingList.indices⟩ target).value := by
  induction lists with
  | nil => intro b; rfl
  | cons list lists ih =>
    intro b
    rw [List.map_cons, performAll_cons, ih, List.flatMap_cons, backpatch_append]
    rfl

/-- **Trees of merges.** The merged list is the concatenation of the given lists from left to right,
whatever the shape of the tree is and wherever empty lists stand in it; so merging is associative, and the
empty list is neutral on both sides. Patching the merged list makes the same builder as patching the given
lists one after another to the same target, in any order. -/
theorem merge_trees (tree : MergeTree) :
    tree.merged.indices = tree.leaves.flatMap PendingList.indices ∧
    (∀ x y z : PendingList, (x.merge y).merge z = x.merge (y.merge z)) ∧
    (∀ x : PendingList, PendingList.empty.merge x = x ∧ x.merge .empty = x) ∧
    (∀ (b : Builder) (target : ℕ) (order : List PendingList), order.Perm tree.leaves →
      b.performAll (order.map fun list => .backpatch list target) =
        (b.backpatch tree.merged target).value) := by
  have hindices := tree.indices_merged
  refine ⟨hindices, PendingList.merge_assoc, fun x => ⟨x.empty_merge, x.merge_empty⟩, ?_⟩
  intro b target order horder
  rw [Builder.performAll_backpatches]
  -- the concatenation in the other order has the same entries, and these decide
  refine Builder.backpatch_congr target fun i _ _ => ?_
  rw [hindices, List.mem_flatMap, List.mem_flatMap]
  exact exists_congr fun list => and_congr_left' horder.mem_iff

/-- Four lists, two of them empty and one with an index that names no instruction, are merged from right
to left. Patched in another order, they leave the same builder. -/
theorem merge_trees_empty_lists :
    let tree : MergeTree :=
      .join (.leaf ∅) (.join (.leaf ⟨[3]⟩) (.join (.leaf ∅) (.leaf ⟨[1, 8, 3]⟩)))
    let b := (Builder.empty 3).append [.goto none, .assign "x" "1", .branch "GEI" "x" "5"]
    tree.merged.indices = [3, 1, 8, 3] ∧
    b.performAll [.backpatch ⟨[1, 8, 3]⟩ 4, .backpatch ∅ 4, .backpatch ⟨[3]⟩ 4, .backpatch ∅ 4] =
      (b.backpatch tree.merged 4).value ∧
    (b.backpatch tree.merged 4).value.unresolved = [] := by
  intro tree b
  obtain ⟨hindices, -, -, hpatched⟩ := merge_trees tree
  have horder : [⟨[1, 8, 3]⟩, ∅, ⟨[3]⟩, ∅].Perm tree.leaves := by decide
  exact ⟨hindices, hpatched b 4 _ horder, by decide⟩

end ThreeAddress
