import CLabs.Bst.Shape

/-!
# CLabs.Bst.Placement

**Where equal keys are.** `insert` goes to the left for smaller keys only, so equals of a key end
up on its right. `remove` does not know of this rule: when it takes out a node with two children
it moves up the largest node of the left subtree, and equals of that node stay behind on its left.

`placement_kept_iff` says for which runs the rule holds throughout.
-/

namespace CLabs.Bst

open CLabs.Lib

/-- The rule of `insert`: the keys on the left of a node are smaller than its key, and those on
its right are not. -/
def Placed (h : Heap) (p : Ptr) : Prop :=
  ∀ a ∈ nodes h p, ∀ n, h.find? a = some n →
    (∀ e ∈ cells h n.pl, e.2 < n.k) ∧ ∀ e ∈ cells h n.pr, n.k ≤ e.2

/-- The node that `search` finds for the key misses a child, or one node in its left subtree has
a larger key than all others there. -/
def Removable (h : Heap) (p : Ptr) (k : Int) : Prop :=
  ∀ a n, search (h.size + 1) h p k = some (some a) → h.find? a = some n →
    n.pl = none ∨ n.pr = none ∨ ∃ e ∈ cells h n.pl, ∀ e' ∈ cells h n.pl, e' ≠ e → e'.2 < e.2

/-- The changes that keep the rule. -/
def Op.Allowed (s : Heap × Ptr) : Op → Prop
  | .insert _ => True
  | .remove k => Removable s.1 s.2 k

variable {h : Heap} {t : SearchTree Addr Int} {k : Int}

/-! ### The rule on trees -/

theorem Holds.forall_cells_iff (ht : Holds h t) {P : Int → Prop} :
    (∀ e ∈ cells h (root t), P e.2) ↔ ∀ k ∈ t.keys, P k := by
  simp only [ht.mem_cells_iff, SearchTree.keys, List.forall_mem_map]

theorem Holds.placed_iff (ht : Holds h t) : Placed h (root t) ↔ t.Placed := by
  simp only [Placed, ht.mem_nodes_iff]
  induction t with
  | leaf => simp [SearchTree.Placed]
  | node q m l r ihl ihr =>
      obtain ⟨hq, hl, hr, -⟩ := holds_node.mp ht
      rw [SearchTree.placed_node, ← ihl hl, ← ihr hr, ← hl.forall_cells_iff, ← hr.forall_cells_iff,
        SearchTree.labels_node]
      simp only [List.forall_mem_append, List.forall_mem_cons, hq, Option.some.injEq, forall_eq']
      constructor
      · rintro ⟨hleft, ⟨hlm, hmr⟩, hright⟩
        exact ⟨hlm, hmr, hleft, hright⟩
      · rintro ⟨hlm, hmr, hleft, hright⟩
        exact ⟨hleft, ⟨hlm, hmr⟩, hright⟩

theorem Holds.topOnce_iff (ht : Holds h t) (hord : t.Ordered) :
    (∃ e ∈ cells h (root t), ∀ e' ∈ cells h (root t), e' ≠ e → e'.2 < e.2) ↔ t.TopOnce := by
  simp only [ht.mem_cells_iff]
  cases t with
  | leaf => simp [SearchTree.entries, SearchTree.TopOnce]
  | node q m l r =>
      obtain ⟨last, hlast⟩ := SearchTree.maxNode?_node q m l r
      have hentries := SearchTree.entries_dropMax hlast
      have hnodup := ht.nodup
      rw [SearchTree.labels_dropMax hlast] at hnodup
      rw [SearchTree.Ordered, SearchTree.keys_dropMax hlast] at hord
      rw [SearchTree.topOnce_iff hlast]
      constructor
      · rintro ⟨e, he, htop⟩
        have hle : e.2 ≤ last.2 := by
          rw [hentries, List.mem_append, List.mem_singleton] at he
          rcases he with he | rfl
          · exact (List.pairwise_append.mp hord).2.2 _ (List.mem_map_of_mem he) _ (by simp)
          · exact le_refl _
        -- so the node with the larger key is the last one
        have heq : last = e := by
          by_contra hne
          exact absurd (htop last (by simp [hentries]) hne) (not_lt.mpr hle)
        subst heq
        intro k hk
        obtain ⟨e', he', rfl⟩ := List.mem_map.mp hk
        refine htop e' (by simp [hentries, he']) fun heq => ?_
        subst heq
        exact (List.disjoint_of_nodup_append hnodup) (List.mem_map_of_mem he') (by simp)
      · intro hlt
        refine ⟨last, by simp [hentries], fun e' he' hne => ?_⟩
        rw [hentries, List.mem_append, List.mem_singleton] at he'
        exact hlt _ (List.mem_map_of_mem (he'.resolve_right hne))

theorem root_eq_none_iff : root t = none ↔ t = .leaf := by
  cases t with
  | leaf => simp
  | node q m l r => simp

theorem Holds.removable_iff (ht : Holds h t) (hord : t.Ordered) :
    Removable h (root t) k ↔ t.Removable k := by
  simp only [Removable, search_spec ht (Nat.lt_succ_of_le ht.length_le), Option.some.injEq]
  induction t with
  | leaf => simp [SearchTree.find?, SearchTree.Removable]
  | node q m l r ihl ihr =>
      obtain ⟨hq, hl, hr, -⟩ := holds_node.mp ht
      obtain ⟨hol, hor, -, -⟩ := SearchTree.ordered_node.mp hord
      unfold SearchTree.find? SearchTree.Removable
      by_cases hm : m = k
      · rw [if_pos hm, if_pos hm]
        rw [← hl.topOnce_iff hol, ← root_eq_none_iff, ← root_eq_none_iff]
        constructor
        · exact fun hall => hall q _ rfl hq
        · intro hcond a n ha hn
          obtain rfl := Option.some.inj ha
          obtain rfl := Option.some.inj (hq.symm.trans hn)
          exact hcond
      · rw [if_neg hm, if_neg hm]
        by_cases hlt : k < m
        · rw [if_pos hlt, if_pos hlt]
          exact ihl hl hol
        · rw [if_neg hlt, if_neg hlt]
          exact ihr hr hor

/-! ### Runs -/

/-- One change of a tree that follows the rule. -/
theorem Represents.placed_step {h₀ : Heap} {s : Heap × Ptr} {m : Multiset Int} (A : Allocator)
    (hs : Represents h₀ s t m) (op : Op) :
    ∃ s', Bst.step A s op = some s' ∧ (∃ t' m', Represents h₀ s' t' m') ∧
      (Placed s.1 s.2 → (Placed s'.1 s'.2 ↔ op.Allowed s)) := by
  cases op with
  | insert k =>
      obtain ⟨s', hstep, hs'⟩ := hs.insert A k
      refine ⟨s', hstep, ⟨_, _, hs'⟩, fun hplaced => iff_of_true ?_ trivial⟩
      rw [hs.root_eq, hs.holds.placed_iff] at hplaced
      rw [hs'.root_eq, hs'.holds.placed_iff]
      exact hplaced.insert _ k
  | remove k =>
      obtain ⟨s', hstep, hs'⟩ := hs.remove A k
      refine ⟨s', hstep, ⟨_, _, hs'⟩, fun hplaced => ?_⟩
      rw [hs.root_eq, hs.holds.placed_iff] at hplaced
      rw [hs'.root_eq, hs'.holds.placed_iff, hplaced.remove_iff, Op.Allowed, hs.root_eq,
        hs.holds.removable_iff hs.ordered]

/-- **The runs that follow the rule of `insert`.** In a sequence of `insert` and `remove` calls from
the null pointer the keys are placed by the rule after each call, iff each `remove` finds a node
that misses a child or whose left subtree has its largest key once. -/
theorem placement_kept_iff (A : Allocator) (h₀ : Heap) (ops : List Op) :
    (∀ past rest, ops = past ++ rest →
      ∃ s, runOps A (h₀, none) past = some s ∧ Placed s.1 s.2) ↔
      ∀ past op rest, ops = past ++ op :: rest →
        ∃ s, runOps A (h₀, none) past = some s ∧ op.Allowed s := by
  refine foldlM_always_iff (fun s => ∃ t m, Represents h₀ s t m) (fun s => Placed s.1 s.2)
    (fun s op => op.Allowed s) (fun s op ⟨t, m, hs⟩ => hs.placed_step A op)
    ⟨_, _, Represents.init h₀⟩ ?_
  exact (holds_leaf (h := h₀)).placed_iff.mpr trivial

/-- **An equal key on the left.** The root 5 has the left subtree 2, 2. Its removal moves up the
second 2, and the first one is then on its left. -/
theorem remove_misplaces_equal :
    ∃ h a n b, runOps default (∅, none) [.insert 5, .insert 2, .insert 2, .insert 7, .remove 5] =
        some (h, some a) ∧
      h.find? a = some n ∧ n.k = 2 ∧ (b, 2) ∈ cells h n.pl ∧ ¬ Placed h (some a) := by
  have hend : (runOps default (∅, none)
      [.insert 5, .insert 2, .insert 2, .insert 7, .remove 5]).map
        (fun s => (s.2, s.1.find? 4, s.1.find? 2)) =
      some (some 4, some ⟨2, some 2, some 8⟩, some ⟨2, none, none⟩) := by decide +kernel
  obtain ⟨⟨h, p⟩, hrun, hstate⟩ := Option.map_eq_some_iff.mp hend
  obtain ⟨rfl, hroot, hleft⟩ : p = some 4 ∧ h.find? 4 = some ⟨2, some 2, some 8⟩ ∧
      h.find? 2 = some ⟨2, none, none⟩ := by simpa using hstate
  have hcell : ((2 : Addr), (2 : Int)) ∈ cells h (some 2) := ⟨⟨[], rfl⟩, _, hleft, rfl⟩
  refine ⟨h, 4, _, 2, hrun, hroot, rfl, hcell, fun hplaced => ?_⟩
  exact absurd ((hplaced 4 ⟨[], rfl⟩ _ hroot).1 _ hcell) (by decide)

end CLabs.Bst
