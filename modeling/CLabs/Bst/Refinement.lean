import CLabs.Bst.Heap
import CLabs.Lib.Run

/-!
# CLabs.Bst.Refinement

A program that works on one tree with `insert` and `remove`, starting from the null
pointer, and what the tree is for: a **multiset of keys**.

The tree starts in a heap `h₀` that may hold other data. Along a run the heap consists of
that data, untouched, and of the nodes of the tree (`Represents`), so the result on
`destroy` at the end is that the heap is `h₀` again.

Each call is given a fuel of one more than the number of live cells, which is always
enough (`Holds.length_le`).
-/

namespace CLabs.Bst

open CLabs.Lib

/-- A change of the tree. -/
inductive Op
  | insert (k : Int)
  | remove (k : Int)
  deriving Repr, DecidableEq

/-- `root = insert(root, k)` or `root = remove(root, k)`. -/
def step (A : Allocator) (s : Heap × Ptr) : Op → Option (Heap × Ptr)
  | .insert k => insert A (s.1.size + 1) s.1 s.2 k
  | .remove k => remove (s.1.size + 1) s.1 s.2 k

/-- A sequence of changes. -/
def runOps (A : Allocator) (s : Heap × Ptr) (ops : List Op) : Option (Heap × Ptr) :=
  ops.foldlM (step A) s

/-- What a change does to the multiset of keys. -/
def Op.apply (m : Multiset Int) : Op → Multiset Int
  | .insert k => k ::ₘ m
  | .remove k => m.erase k

/-- The multiset that a sequence of changes leaves. -/
def contents (ops : List Op) : Multiset Int := ops.foldl Op.apply 0

/-- The heap is `h₀` with a tree of its own in it, whose keys are `m`. -/
structure Represents (h₀ : Heap) (s : Heap × Ptr) (t : SearchTree Addr Int) (m : Multiset Int) :
    Prop where
  root_eq : s.2 = root t
  holds : Holds s.1 t
  ordered : t.Ordered
  keys_eq : (t.keys : Multiset Int) = m
  new : ∀ a ∈ t.labels, h₀.find? a = none
  others : ∀ a ∉ t.labels, s.1.find? a = h₀.find? a

namespace Represents

variable {h₀ : Heap} {s : Heap × Ptr} {t : SearchTree Addr Int} {m : Multiset Int}

theorem init (h₀ : Heap) : Represents h₀ (h₀, none) .leaf 0 where
  root_eq := rfl
  holds := holds_leaf
  ordered := List.Pairwise.nil
  keys_eq := rfl
  new := fun _ ha => absurd ha List.not_mem_nil
  others := fun _ _ => rfl

theorem fuel (hs : Represents h₀ s t m) : t.labels.length < s.1.size + 1 :=
  Nat.lt_succ_of_le hs.holds.length_le

theorem mem_keys_iff (hs : Represents h₀ s t m) (k : Int) : k ∈ t.keys ↔ k ∈ m := by
  rw [← hs.keys_eq, Multiset.mem_coe]

theorem insert (A : Allocator) (hs : Represents h₀ s t m) (k : Int) :
    ∃ s', step A s (.insert k) = some s' ∧
      Represents h₀ s' (t.insert (A.alloc s.1) k) (k ::ₘ m) := by
  obtain ⟨h', hrun, hholds, hsame⟩ := insert_spec A hs.holds hs.fuel k
  have hmem : ∀ a, a ∈ (t.insert (A.alloc s.1) k).labels ↔ a = A.alloc s.1 ∨ a ∈ t.labels := by
    intro a
    rw [(SearchTree.labels_insert_perm _ k t).mem_iff, List.mem_cons]
  refine ⟨(h', root (t.insert (A.alloc s.1) k)), ?_, rfl, hholds, hs.ordered.insert _ k, ?_, ?_, ?_⟩
  · rw [step, hs.root_eq, hrun]
  · rw [← hs.keys_eq, Multiset.cons_coe, Multiset.coe_eq_coe]
    exact SearchTree.keys_insert_perm _ k t
  · intro a ha
    rcases (hmem a).mp ha with rfl | ha
    · -- a fresh cell is no node of the tree, so it was free at the start as well
      have hfree := A.fresh s.1
      have hout : A.alloc s.1 ∉ t.labels := fun hin => by
        have hlive := hs.holds.live hin
        rw [OrdMap.mem_iff, hfree] at hlive
        exact absurd hlive (by simp)
      rw [← hs.others _ hout, hfree]
    · exact hs.new a ha
  · intro a ha
    rw [hsame a ha]
    exact hs.others a fun hin => ha ((hmem a).mpr (Or.inr hin))

theorem remove (A : Allocator) (hs : Represents h₀ s t m) (k : Int) :
    ∃ s', step A s (.remove k) = some s' ∧ Represents h₀ s' (t.remove k) (m.erase k) := by
  obtain ⟨h', hrun, hholds, hsame⟩ := remove_spec hs.holds hs.fuel k
  refine ⟨(h', root (t.remove k)), ?_, rfl, hholds, hs.ordered.remove k, ?_, ?_, ?_⟩
  · rw [step, hs.root_eq, hrun]
  · rw [← hs.keys_eq]
    exact (hs.ordered.keys_remove k).2
  · exact fun a ha => hs.new a (SearchTree.labels_remove_subset k t ha)
  · intro a ha
    rw [hsame a ha]
    by_cases hin : a ∈ t.labels
    · rw [if_pos hin, hs.new a hin]
    · rw [if_neg hin, hs.others a hin]

/-- One change of the tree is one change of the multiset. -/
theorem step (A : Allocator) (hs : Represents h₀ s t m) (op : Op) :
    ∃ s', Bst.step A s op = some s' ∧ ∃ t', Represents h₀ s' t' (op.apply m) := by
  cases op with
  | insert k =>
      obtain ⟨s', hstep, hs'⟩ := hs.insert A k
      exact ⟨s', hstep, _, hs'⟩
  | remove k =>
      obtain ⟨s', hstep, hs'⟩ := hs.remove A k
      exact ⟨s', hstep, _, hs'⟩

/-- Every sequence of changes goes through. -/
theorem runOps (A : Allocator) (h₀ : Heap) (ops : List Op) :
    ∃ s, Bst.runOps A (h₀, none) ops = some s ∧ ∃ t, Represents h₀ s t (contents ops) :=
  foldlM_simulates (fun s m => ∃ t, Represents h₀ s t m)
    (fun _ _ op _ ⟨_, hs⟩ => hs.step A op) ⟨.leaf, init h₀⟩

theorem search (hs : Represents h₀ s t m) (k : Int) :
    ∃ q, Bst.search (s.1.size + 1) s.1 s.2 k = some q ∧ (q ≠ none ↔ k ∈ m) ∧
      ∀ a, q = some a → ∃ n, s.1.find? a = some n ∧ n.k = k := by
  refine ⟨t.find? k, ?_, ?_, fun a ha => ?_⟩
  · rw [hs.root_eq]
    exact search_spec hs.holds hs.fuel k
  · rw [← hs.mem_keys_iff, ← hs.ordered.isSome_find?_iff, Option.isSome_iff_ne_none]
  · exact hs.holds.cell (SearchTree.mem_entries_of_find? ha)

end Represents

/-- **The tree refines a multiset.** After every sequence of `insert` and `remove` calls
the traversal yields the keys of the multiset in order, `search` decides membership in it
and points at a node with the key, and a `remove` of a key that is not in it changes
neither the heap nor the root. -/
theorem tree_refines_multiset (A : Allocator) (h₀ : Heap) (ops : List Op) :
    ∃ h p keys, runOps A (h₀, none) ops = some (h, p) ∧
      inorder (h.size + 1) h p = some keys ∧
      keys.Pairwise (· ≤ ·) ∧ (keys : Multiset Int) = contents ops ∧
      (∀ k ∉ contents ops, remove (h.size + 1) h p k = some (h, p)) ∧
      ∀ k, ∃ q, search (h.size + 1) h p k = some q ∧ (q ≠ none ↔ k ∈ contents ops) ∧
        ∀ a, q = some a → ∃ n, h.find? a = some n ∧ n.k = k := by
  obtain ⟨⟨h, p⟩, hrun, t, hs⟩ := Represents.runOps A h₀ ops
  refine ⟨h, p, t.keys, hrun, ?_, hs.ordered, hs.keys_eq, fun k hk => ?_, hs.search⟩
  · rw [show p = root t from hs.root_eq]
    exact inorder_spec hs.holds hs.fuel
  · rw [show p = root t from hs.root_eq]
    exact remove_absent hs.holds hs.ordered hs.fuel fun hmem => hk ((hs.mem_keys_iff k).mp hmem)

/-- **No node is lost.** When the tree is destroyed after any sequence of calls, the heap is
what it was before the first one. -/
theorem destroy_restores_heap (A : Allocator) (h₀ : Heap) (ops : List Op) :
    ∃ h p, runOps A (h₀, none) ops = some (h, p) ∧ destroy (h.size + 1) h p = some h₀ := by
  obtain ⟨⟨h, p⟩, hrun, t, hs⟩ := Represents.runOps A h₀ ops
  obtain ⟨h', hdestroy, hfree⟩ := destroy_spec hs.holds hs.fuel
  refine ⟨h, p, hrun, ?_⟩
  have heq : h' = h₀ := by
    ext1 a
    rw [hfree a]
    split_ifs with ha
    · exact (hs.new a ha).symm
    · exact hs.others a ha
  rw [show p = root t from hs.root_eq, ← heq]
  exact hdestroy

-- the driver's tree, before and after the removal of its root
example : ((runOps default (∅, none) ([5, 10, 2, 7, 13, 1, 3, 4, 0].map .insert)).bind
    fun s => inorder 20 s.1 s.2) = some [0, 1, 2, 3, 4, 5, 7, 10, 13] := by decide +kernel

example : ((runOps default (∅, none) ([5, 10, 2, 7, 13, 1, 3, 4, 0].map .insert ++ [.remove 5])).bind
    fun s => inorder 20 s.1 s.2) = some [0, 1, 2, 3, 4, 7, 10, 13] := by decide +kernel

end CLabs.Bst
