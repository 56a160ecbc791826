import Mathlib.Data.Multiset.AddSub
import Mathlib.Order.Basic
import Mathlib.Tactic

/-!
# CLabs.Lib.SearchTree

**Binary search trees with duplicate keys.** A node carries a key and a label; the label
stands for the identity of the node and takes no part in the ordering.

A tree is `Ordered` when its keys are sorted in order of traversal. Equal keys may
therefore lie on either side of each other. This is what the operations keep:
`insert` puts a new key after its equals, and `remove` of a node with two children
moves the largest node of the left subtree up, which may leave equals of it behind on the
left.

Trees built by `insert` alone are more than ordered: equals of a key are never on its left
(`Placed`). `Placed.remove_iff` says which removals keep this.
-/

namespace CLabs.Lib

/-- A binary tree with labelled keys. -/
inductive SearchTree (α κ : Type*)
  | leaf
  | node (label : α) (key : κ) (left right : SearchTree α κ)
  deriving Repr, DecidableEq

namespace SearchTree

variable {α κ : Type*}

/-- Labels and keys in order. -/
def entries : SearchTree α κ → List (α × κ)
  | leaf => []
  | node a m l r => l.entries ++ (a, m) :: r.entries

/-- The keys in order. -/
def keys (t : SearchTree α κ) : List κ := t.entries.map Prod.snd

/-- The labels in order. -/
def labels (t : SearchTree α κ) : List α := t.entries.map Prod.fst

@[simp] theorem keys_leaf : (leaf : SearchTree α κ).keys = [] := rfl

@[simp] theorem keys_node (a : α) (m : κ) (l r : SearchTree α κ) :
    (node a m l r).keys = l.keys ++ m :: r.keys := by
  simp [keys, entries]

@[simp] theorem labels_leaf : (leaf : SearchTree α κ).labels = [] := rfl

@[simp] theorem labels_node (a : α) (m : κ) (l r : SearchTree α κ) :
    (node a m l r).labels = l.labels ++ a :: r.labels := by
  simp [labels, entries]

theorem notMem_labels_node {a b : α} {m : κ} {l r : SearchTree α κ} :
    b ∉ (node a m l r).labels ↔ b ∉ l.labels ∧ b ≠ a ∧ b ∉ r.labels := by
  rw [labels_node, List.mem_append, List.mem_cons, not_or, not_or]

/-! ### The largest node -/

/-- The last entry in order. -/
def maxNode? : SearchTree α κ → Option (α × κ)
  | leaf => none
  | node a m _ leaf => some (a, m)
  | node _ _ _ (node b n l r) => (node b n l r).maxNode?

/-- The tree without its last entry. -/
def dropMax : SearchTree α κ → SearchTree α κ
  | leaf => leaf
  | node _ _ l leaf => l
  | node a m l (node b n l' r') => node a m l (node b n l' r').dropMax

theorem maxNode?_node_of_ne (a : α) (m : κ) (l : SearchTree α κ) {r : SearchTree α κ}
    (hr : r ≠ leaf) : (node a m l r).maxNode? = r.maxNode? := by
  cases r with
  | leaf => exact absurd rfl hr
  | node b n l' r' => rfl

theorem dropMax_node_of_ne (a : α) (m : κ) (l : SearchTree α κ) {r : SearchTree α κ}
    (hr : r ≠ leaf) : (node a m l r).dropMax = node a m l r.dropMax := by
  cases r with
  | leaf => exact absurd rfl hr
  | node b n l' r' => rfl

theorem maxNode?_node (a : α) (m : κ) (l r : SearchTree α κ) :
    ∃ e, (node a m l r).maxNode? = some e := by
  induction r generalizing a m l with
  | leaf => exact ⟨(a, m), rfl⟩
  | node b n l' r' _ ih => exact ih b n l'

theorem entries_dropMax {t : SearchTree α κ} {e : α × κ} (h : t.maxNode? = some e) :
    t.entries = t.dropMax.entries ++ [e] := by
  induction t with
  | leaf => exact absurd h (by simp [maxNode?])
  | node a m l r _ ih =>
      cases r with
      | leaf =>
          obtain rfl := Option.some.inj h
          rfl
      | node b n l' r' =>
          have hr := ih h
          show l.entries ++ (a, m) :: (node b n l' r').entries =
            (l.entries ++ (a, m) :: (node b n l' r').dropMax.entries) ++ [e]
          rw [hr, List.append_assoc, List.cons_append]

theorem labels_dropMax {t : SearchTree α κ} {e : α × κ} (h : t.maxNode? = some e) :
    t.labels = t.dropMax.labels ++ [e.1] := by
  simp [labels, entries_dropMax h]

theorem keys_dropMax {t : SearchTree α κ} {e : α × κ} (h : t.maxNode? = some e) :
    t.keys = t.dropMax.keys ++ [e.2] := by
  simp [keys, entries_dropMax h]

/-! ### Operations -/

/-- The children of a removed node as one tree. -/
def join (l r : SearchTree α κ) : SearchTree α κ :=
  match l, r with
  | leaf, r => r
  | l, leaf => l
  | l, r =>
      match l.maxNode? with
      | some (a, m) => node a m l.dropMax r
      | none => r

theorem join_of_maxNode? {l r : SearchTree α κ} {e : α × κ} (he : l.maxNode? = some e)
    (hr : r ≠ leaf) : join l r = node e.1 e.2 l.dropMax r := by
  cases l with
  | leaf => exact absurd he (by simp [maxNode?])
  | node a m l₁ r₁ =>
      cases r with
      | leaf => exact absurd rfl hr
      | node b n l₂ r₂ => simp only [join, he]

theorem entries_join (l r : SearchTree α κ) : (join l r).entries = l.entries ++ r.entries := by
  cases l with
  | leaf => rfl
  | node a m l₁ r₁ =>
      cases r with
      | leaf => exact (List.append_nil _).symm
      | node b n l₂ r₂ =>
          obtain ⟨e, he⟩ := maxNode?_node a m l₁ r₁
          rw [join_of_maxNode? he (by simp), entries_dropMax he, List.append_assoc]
          rfl

theorem labels_join (l r : SearchTree α κ) : (join l r).labels = l.labels ++ r.labels := by
  simp [labels, entries_join]

variable [LinearOrder κ]

/-- Insert a key after the keys equal to it. -/
def insert (a : α) (k : κ) : SearchTree α κ → SearchTree α κ
  | leaf => node a k leaf leaf
  | node b m l r => if k < m then node b m (l.insert a k) r else node b m l (r.insert a k)

/-- Remove one node with the given key, if there is one. -/
def remove (k : κ) : SearchTree α κ → SearchTree α κ
  | leaf => leaf
  | node a m l r =>
      if m = k then join l r
      else if k < m then node a m (l.remove k) r
      else node a m l (r.remove k)

/-- The label of a node with the given key. -/
def find? (k : κ) : SearchTree α κ → Option α
  | leaf => none
  | node a m l r => if m = k then some a else if k < m then l.find? k else r.find? k

/-! ### Order -/

/-- The keys are sorted. -/
def Ordered (t : SearchTree α κ) : Prop := t.keys.Pairwise (· ≤ ·)

theorem ordered_node {a : α} {m : κ} {l r : SearchTree α κ} :
    (node a m l r).Ordered ↔ l.Ordered ∧ r.Ordered ∧
      (∀ k ∈ l.keys, k ≤ m) ∧ ∀ k ∈ r.keys, m ≤ k := by
  rw [Ordered, keys_node, List.pairwise_append, List.pairwise_cons]
  constructor
  · intro ⟨hl, ⟨hm, hr⟩, hlr⟩
    exact ⟨hl, hr, fun k hk => hlr k hk m List.mem_cons_self, hm⟩
  · intro ⟨hl, hr, hlm, hm⟩
    refine ⟨hl, ⟨hm, hr⟩, fun k hk k' hk' => ?_⟩
    rcases List.mem_cons.mp hk' with rfl | hk'
    · exact hlm k hk
    · exact (hlm k hk).trans (hm k' hk')

theorem entries_insert_perm (a : α) (k : κ) (t : SearchTree α κ) :
    (t.insert a k).entries.Perm ((a, k) :: t.entries) := by
  induction t with
  | leaf => exact List.Perm.refl _
  | node b m l r ihl ihr =>
      unfold insert
      by_cases hlt : k < m
      · rw [if_pos hlt]
        exact ihl.append_right _
      · rw [if_neg hlt]
        calc l.entries ++ (b, m) :: (r.insert a k).entries
            |>.Perm (l.entries ++ (b, m) :: (a, k) :: r.entries) := (ihr.cons _).append_left _
          _ |>.Perm (l.entries ++ (a, k) :: (b, m) :: r.entries) :=
              (List.Perm.swap _ _ _).append_left _
          _ |>.Perm ((a, k) :: (l.entries ++ (b, m) :: r.entries)) := List.perm_middle

theorem keys_insert_perm (a : α) (k : κ) (t : SearchTree α κ) :
    (t.insert a k).keys.Perm (k :: t.keys) :=
  (entries_insert_perm a k t).map Prod.snd

theorem labels_insert_perm (a : α) (k : κ) (t : SearchTree α κ) :
    (t.insert a k).labels.Perm (a :: t.labels) :=
  (entries_insert_perm a k t).map Prod.fst

theorem Ordered.insert {t : SearchTree α κ} (h : t.Ordered) (a : α) (k : κ) : (t.insert a k).Ordered := by
  induction t with
  | leaf => simp [SearchTree.insert, Ordered]
  | node b m l r ihl ihr =>
      obtain ⟨hl, hr, hlm, hmr⟩ := ordered_node.mp h
      unfold SearchTree.insert
      by_cases hlt : k < m
      · rw [if_pos hlt]
        refine ordered_node.mpr ⟨ihl hl, hr, fun k' hk' => ?_, hmr⟩
        rcases List.mem_cons.mp ((keys_insert_perm a k l).mem_iff.mp hk') with rfl | hk'
        · exact hlt.le
        · exact hlm k' hk'
      · rw [if_neg hlt]
        refine ordered_node.mpr ⟨hl, ihr hr, hlm, fun k' hk' => ?_⟩
        rcases List.mem_cons.mp ((keys_insert_perm a k r).mem_iff.mp hk') with rfl | hk'
        · exact not_lt.mp hlt
        · exact hmr k' hk'

/-- In an ordered tree a key other than the root's is on the side the comparison says. -/
theorem Ordered.mem_keys_iff {a : α} {m k : κ} {l r : SearchTree α κ} (h : (node a m l r).Ordered)
    (hne : m ≠ k) : k ∈ (node a m l r).keys ↔ if k < m then k ∈ l.keys else k ∈ r.keys := by
  obtain ⟨-, -, hlm, hmr⟩ := ordered_node.mp h
  rw [keys_node, List.mem_append, List.mem_cons]
  split_ifs with hlt
  · constructor
    · intro hcases
      rcases hcases with hk | rfl | hk
      · exact hk
      · exact absurd rfl hne
      · exact absurd (hmr k hk) (not_le.mpr hlt)
    · exact Or.inl
  · constructor
    · intro hcases
      rcases hcases with hk | rfl | hk
      · exact absurd (lt_of_le_of_ne (hlm k hk) (Ne.symm hne)) hlt
      · exact absurd rfl hne
      · exact hk
    · exact fun hk => Or.inr (Or.inr hk)

/-! ### Removal -/

/-- A removal takes entries out and moves none past another. -/
theorem entries_remove_sublist (k : κ) (t : SearchTree α κ) :
    (t.remove k).entries.Sublist t.entries := by
  induction t with
  | leaf => exact List.Sublist.refl _
  | node a m l r ihl ihr =>
      unfold remove
      split_ifs
      · rw [entries_join]
        exact (List.sublist_cons_self _ _).append_left _
      · exact ihl.append_right _
      · exact (ihr.cons_cons _).append_left _

theorem labels_remove_subset (k : κ) (t : SearchTree α κ) : (t.remove k).labels ⊆ t.labels :=
  ((entries_remove_sublist k t).map Prod.fst).subset

/-- Removing a key that is not there changes nothing. -/
theorem Ordered.remove_of_notMem {t : SearchTree α κ} {k : κ} (h : t.Ordered) (hk : k ∉ t.keys) :
    t.remove k = t := by
  induction t with
  | leaf => rfl
  | node a m l r ihl ihr =>
      obtain ⟨hl, hr, -, -⟩ := ordered_node.mp h
      have hne : m ≠ k := by
        intro heq
        subst heq
        exact hk (by simp)
      rw [h.mem_keys_iff hne] at hk
      unfold remove
      rw [if_neg hne]
      by_cases hlt : k < m
      · rw [if_pos hlt] at hk ⊢
        rw [ihl hl hk]
      · rw [if_neg hlt] at hk ⊢
        rw [ihr hr hk]

/-- Removing a key that is there takes one entry with that key out, and keeps the rest in
order. -/
theorem Ordered.entries_remove {t : SearchTree α κ} {k : κ} (h : t.Ordered) (hk : k ∈ t.keys) :
    ∃ before a after, t.entries = before ++ (a, k) :: after ∧
      (t.remove k).entries = before ++ after := by
  induction t with
  | leaf => exact absurd hk List.not_mem_nil
  | node a m l r ihl ihr =>
      obtain ⟨hl, hr, -, -⟩ := ordered_node.mp h
      unfold remove
      by_cases hm : m = k
      · subst hm
        rw [if_pos rfl]
        exact ⟨l.entries, a, r.entries, rfl, entries_join l r⟩
      · rw [h.mem_keys_iff hm] at hk
        rw [if_neg hm]
        by_cases hlt : k < m
        · rw [if_pos hlt] at hk ⊢
          obtain ⟨before, b, after, hbefore, hafter⟩ := ihl hl hk
          refine ⟨before, b, after ++ (a, m) :: r.entries, ?_, ?_⟩
          · show l.entries ++ _ = _
            rw [hbefore, List.append_assoc, List.cons_append]
          · show (l.remove k).entries ++ _ = _
            rw [hafter, List.append_assoc]
        · rw [if_neg hlt] at hk ⊢
          obtain ⟨before, b, after, hbefore, hafter⟩ := ihr hr hk
          refine ⟨l.entries ++ (a, m) :: before, b, after, ?_, ?_⟩
          · show l.entries ++ (a, m) :: r.entries = _
            rw [hbefore, List.append_assoc, List.cons_append]
          · show l.entries ++ (a, m) :: (r.remove k).entries = _
            rw [hafter, List.append_assoc, List.cons_append]

/-- The keys after a removal. -/
theorem Ordered.keys_remove {t : SearchTree α κ} (h : t.Ordered) (k : κ) :
    (t.remove k).keys.Sublist t.keys ∧ ((t.remove k).keys : Multiset κ) = (t.keys : Multiset κ).erase k := by
  by_cases hk : k ∈ t.keys
  · obtain ⟨before, a, after, hbefore, hafter⟩ := h.entries_remove hk
    have hkeys : t.keys = before.map Prod.snd ++ k :: after.map Prod.snd := by
      simp [keys, hbefore]
    have hkeys' : (t.remove k).keys = before.map Prod.snd ++ after.map Prod.snd := by
      simp [keys, hafter]
    rw [hkeys, hkeys']
    refine ⟨List.Sublist.append_left (List.sublist_cons_self _ _) _, ?_⟩
    rw [Multiset.coe_erase, Multiset.coe_eq_coe]
    exact ((List.perm_middle.erase k).trans (by rw [List.erase_cons_head])).symm
  · rw [h.remove_of_notMem hk]
    exact ⟨List.Sublist.refl _, (Multiset.erase_of_notMem (by simpa using hk)).symm⟩

theorem Ordered.remove {t : SearchTree α κ} (h : t.Ordered) (k : κ) : (t.remove k).Ordered :=
  List.Pairwise.sublist (h.keys_remove k).1 h

/-! ### Search -/

/-- A label that is found belongs to a node with the key. -/
theorem mem_entries_of_find? {t : SearchTree α κ} {k : κ} {a : α} (h : t.find? k = some a) :
    (a, k) ∈ t.entries := by
  induction t with
  | leaf => exact absurd h (by simp [find?])
  | node b m l r ihl ihr =>
      unfold find? at h
      show (a, k) ∈ l.entries ++ (b, m) :: r.entries
      rw [List.mem_append, List.mem_cons]
      split_ifs at h with hm hlt
      · obtain rfl := Option.some.inj h
        exact Or.inr (Or.inl (by rw [hm]))
      · exact Or.inl (ihl h)
      · exact Or.inr (Or.inr (ihr h))

/-- In an ordered tree every key is found. -/
theorem Ordered.isSome_find?_iff {t : SearchTree α κ} {k : κ} (h : t.Ordered) :
    (t.find? k).isSome = true ↔ k ∈ t.keys := by
  induction t with
  | leaf => simp [find?]
  | node a m l r ihl ihr =>
      obtain ⟨hl, hr, -, -⟩ := ordered_node.mp h
      unfold find?
      by_cases hm : m = k
      · subst hm
        simp
      · rw [if_neg hm, h.mem_keys_iff hm]
        split_ifs
        · exact ihl hl
        · exact ihr hr

/-! ### Placement -/

/-- Smaller keys are on the left of a key, and its equals on the right. -/
def Placed : SearchTree α κ → Prop
  | leaf => True
  | node _ m l r => (∀ k ∈ l.keys, k < m) ∧ (∀ k ∈ r.keys, m ≤ k) ∧ l.Placed ∧ r.Placed

/-- The largest key occurs once. -/
def TopOnce (t : SearchTree α κ) : Prop := ∃ before m, t.keys = before ++ [m] ∧ ∀ k ∈ before, k < m

/-- The node that a removal takes out has a child only, or a left subtree whose largest key
occurs once. -/
def Removable (k : κ) : SearchTree α κ → Prop
  | leaf => True
  | node _ m l r =>
      if m = k then l = leaf ∨ r = leaf ∨ l.TopOnce
      else if k < m then l.Removable k
      else r.Removable k

theorem placed_node {a : α} {m : κ} {l r : SearchTree α κ} :
    (node a m l r).Placed ↔
      (∀ k ∈ l.keys, k < m) ∧ (∀ k ∈ r.keys, m ≤ k) ∧ l.Placed ∧ r.Placed := Iff.rfl

theorem topOnce_iff {t : SearchTree α κ} {e : α × κ} (h : t.maxNode? = some e) :
    t.TopOnce ↔ ∀ k ∈ t.dropMax.keys, k < e.2 := by
  constructor
  · rintro ⟨before, m, hkeys, hlt⟩
    rw [keys_dropMax h] at hkeys
    obtain ⟨rfl, hm⟩ := List.append_inj' hkeys rfl
    obtain rfl : e.2 = m := List.singleton_inj.mp hm
    exact hlt
  · intro hlt
    exact ⟨_, _, keys_dropMax h, hlt⟩

theorem keys_remove_subset (k : κ) (t : SearchTree α κ) : (t.remove k).keys ⊆ t.keys :=
  ((entries_remove_sublist k t).map Prod.snd).subset

theorem Placed.insert {t : SearchTree α κ} (h : t.Placed) (a : α) (k : κ) :
    (t.insert a k).Placed := by
  induction t with
  | leaf => simp [SearchTree.insert, Placed]
  | node b m l r ihl ihr =>
      obtain ⟨hlm, hmr, hl, hr⟩ := h
      unfold SearchTree.insert
      by_cases hlt : k < m
      · rw [if_pos hlt]
        refine ⟨fun k' hk' => ?_, hmr, ihl hl, hr⟩
        rcases List.mem_cons.mp ((keys_insert_perm a k l).mem_iff.mp hk') with rfl | hk'
        · exact hlt
        · exact hlm k' hk'
      · rw [if_neg hlt]
        refine ⟨hlm, fun k' hk' => ?_, hl, ihr hr⟩
        rcases List.mem_cons.mp ((keys_insert_perm a k r).mem_iff.mp hk') with rfl | hk'
        · exact not_lt.mp hlt
        · exact hmr k' hk'

theorem Placed.dropMax {t : SearchTree α κ} (h : t.Placed) : t.dropMax.Placed := by
  induction t with
  | leaf => exact h
  | node a m l r _ ih =>
      obtain ⟨hlm, hmr, hl, hr⟩ := h
      cases r with
      | leaf => exact hl
      | node b n l' r' =>
          obtain ⟨e, he⟩ := maxNode?_node b n l' r'
          refine ⟨hlm, fun k hk => hmr k ?_, hl, ih hr⟩
          rw [keys_dropMax he]
          exact List.mem_append_left _ hk

/-- Equals of the node that moves up stay behind on its left. -/
theorem Placed.join_iff {a : α} {m : κ} {l r : SearchTree α κ} (h : (node a m l r).Placed) :
    (join l r).Placed ↔ l = leaf ∨ r = leaf ∨ l.TopOnce := by
  obtain ⟨hlm, hmr, hl, hr⟩ := h
  cases l with
  | leaf => exact iff_of_true hr (.inl rfl)
  | node b n l₁ r₁ =>
      cases r with
      | leaf => exact iff_of_true hl (.inr (.inl rfl))
      | node c n' l₂ r₂ =>
          obtain ⟨e, he⟩ := maxNode?_node b n l₁ r₁
          have hem : e.2 < m := hlm e.2 (by simp [keys_dropMax he])
          rw [join_of_maxNode? he (by simp), placed_node, topOnce_iff he]
          constructor
          · intro ⟨hlt, _⟩
            exact .inr (.inr hlt)
          · rintro (hleaf | hleaf | hlt)
            · exact absurd hleaf (by simp)
            · exact absurd hleaf (by simp)
            · exact ⟨hlt, fun k hk => hem.le.trans (hmr k hk), hl.dropMax, hr⟩

/-- **The removals that keep the placement of keys.** -/
theorem Placed.remove_iff {t : SearchTree α κ} (h : t.Placed) (k : κ) :
    (t.remove k).Placed ↔ t.Removable k := by
  induction t with
  | leaf => exact iff_of_true h trivial
  | node a m l r ihl ihr =>
      obtain ⟨hlm, hmr, hl, hr⟩ := placed_node.mp h
      unfold SearchTree.remove Removable
      by_cases hm : m = k
      · rw [if_pos hm, if_pos hm]
        exact h.join_iff
      · rw [if_neg hm, if_neg hm]
        by_cases hlt : k < m
        · rw [if_pos hlt, if_pos hlt, ← ihl hl, placed_node]
          constructor
          · exact fun hnode => hnode.2.2.1
          · exact fun hrec => ⟨fun k' hk' => hlm k' (keys_remove_subset k l hk'), hmr, hrec, hr⟩
        · rw [if_neg hlt, if_neg hlt, ← ihr hr, placed_node]
          constructor
          · exact fun hnode => hnode.2.2.2
          · exact fun hrec => ⟨hlm, fun k' hk' => hmr k' (keys_remove_subset k r hk'), hl, hrec⟩

end SearchTree

end CLabs.Lib
