import CLabs.Bst.Refinement
import Mathlib.Data.Set.Basic

/-!
# CLabs.Bst.Shape

**The tree as a graph of pointers.** `Holds` says that a heap holds a given tree. Here the tree is
what the pointers make of it: `follow` walks along `pl` and `pr`, and a pointer is `WellFormed`
when every node that can be reached from it is live and is reached in one way only, and the keys
are sorted. Both descriptions agree (`wellFormed_iff`): a walk visits different live cells, so it
ends within the size of the heap, and the pointers unfold to a tree.

`remove_keeps_shape` is the result on `remove` in these terms: no node is shared, lost or left
dangling.
-/

namespace CLabs.Bst

open CLabs.Lib

/-! ### Walking along pointers -/

/-- Which pointer of a node. -/
inductive Side
  | left
  | right
  deriving Repr, DecidableEq

/-- `n.pl` or `n.pr`. -/
def Node.child (n : Node) : Side → Ptr
  | .left => n.pl
  | .right => n.pr

/-- `q->pl` or `q->pr`, if there is something to read. -/
def child (h : Heap) (q : Ptr) (side : Side) : Ptr := do
  let a ← q
  let n ← h.find? a
  n.child side

/-- Where a path leads to. -/
def follow (h : Heap) (p : Ptr) (path : List Side) : Ptr := path.foldl (child h) p

/-- The nodes that can be reached. -/
def nodes (h : Heap) (p : Ptr) : Set Addr := {a | ∃ path, follow h p path = some a}

/-- The nodes that can be reached, with their keys. -/
def cells (h : Heap) (p : Ptr) : Set (Addr × Int) :=
  {e | e.1 ∈ nodes h p ∧ ∃ n, h.find? e.1 = some n ∧ n.k = e.2}

/-- A pointer to a search tree. -/
structure WellFormed (h : Heap) (p : Ptr) : Prop where
  live : ∀ a ∈ nodes h p, a ∈ h
  once : ∀ a path path', follow h p path = some a → follow h p path' = some a → path = path'
  sorted : ∃ keys, inorder (h.size + 1) h p = some keys ∧ keys.Pairwise (· ≤ ·)

variable {h h' : Heap} {p : Ptr} {t : SearchTree Addr Int} {a b : Addr} {path path' : List Side}

theorem mem_nodes : a ∈ nodes h p ↔ ∃ path, follow h p path = some a := Iff.rfl

@[simp] theorem follow_nil : follow h p [] = p := rfl

theorem follow_append : follow h p (path ++ path') = follow h (follow h p path) path' :=
  List.foldl_append

@[simp] theorem follow_none : follow h none path = none := by
  induction path with
  | nil => rfl
  | cons side path ih => exact ih

theorem follow_cons {n : Node} (ha : h.find? a = some n) (side : Side) :
    follow h (some a) (side :: path) = follow h (n.child side) path := by
  have hchild : child h (some a) side = n.child side := by simp [child, ha]
  rw [follow, List.foldl_cons, hchild]
  rfl

/-- A walk from a node ends there or goes on from one of its children. -/
theorem follow_eq_some_iff {n : Node} (ha : h.find? a = some n) :
    follow h (some a) path = some b ↔
      path = [] ∧ b = a ∨ ∃ side rest, path = side :: rest ∧ follow h (n.child side) rest = some b := by
  cases path with
  | nil => simp [eq_comm]
  | cons side rest => simp [follow_cons ha]

theorem follow_take_isSome (hpath : follow h p path = some a) (i : Nat) :
    ∃ b, follow h p (path.take i) = some b := by
  rw [← path.take_append_drop i, follow_append] at hpath
  cases hb : follow h p (path.take i) with
  | some b => exact ⟨b, rfl⟩
  | none => simp [hb] at hpath

/-! ### Trees that a heap holds -/

theorem Holds.mem_nodes_iff (ht : Holds h t) : a ∈ nodes h (root t) ↔ a ∈ t.labels := by
  induction t with
  | leaf => simp [nodes]
  | node q m l r ihl ihr =>
      obtain ⟨hq, hl, hr, -⟩ := holds_node.mp ht
      rw [SearchTree.labels_node, List.mem_append, List.mem_cons, ← ihl hl, ← ihr hr]
      simp only [mem_nodes, root_node, follow_eq_some_iff hq]
      constructor
      · rintro ⟨path, ⟨-, rfl⟩ | ⟨side, rest, -, hrest⟩⟩
        · exact .inr (.inl rfl)
        · cases side with
          | left => exact .inl ⟨rest, hrest⟩
          | right => exact .inr (.inr ⟨rest, hrest⟩)
      · rintro (⟨rest, hrest⟩ | rfl | ⟨rest, hrest⟩)
        · exact ⟨.left :: rest, .inr ⟨_, _, rfl, hrest⟩⟩
        · exact ⟨[], .inl ⟨rfl, rfl⟩⟩
        · exact ⟨.right :: rest, .inr ⟨_, _, rfl, hrest⟩⟩

theorem Holds.mem_cells_iff (ht : Holds h t) {e : Addr × Int} :
    e ∈ cells h (root t) ↔ e ∈ t.entries := by
  constructor
  · rintro ⟨hmem, n, hn, hkey⟩
    obtain ⟨⟨a, k⟩, hentry, rfl⟩ := List.mem_map.mp (ht.mem_nodes_iff.mp hmem)
    obtain ⟨n', hn', rfl⟩ := ht.cell hentry
    rw [hn] at hn'
    obtain rfl := Option.some.inj hn'
    rwa [← Prod.eta e, ← hkey]
  · intro hentry
    exact ⟨ht.mem_nodes_iff.mpr (List.mem_map_of_mem hentry), ht.cell hentry⟩

theorem Holds.once (ht : Holds h t) (hpath : follow h (root t) path = some a)
    (hpath' : follow h (root t) path' = some a) : path = path' := by
  induction t generalizing path path' with
  | leaf => simp at hpath
  | node q m l r ihl ihr =>
      obtain ⟨hq, hl, hr, hql, hqr, hlr⟩ := holds_node.mp ht
      -- a node below the root is in the subtree that its path begins with
      have hsub : ∀ side rest, follow h (Node.child ⟨m, root l, root r⟩ side) rest = some a →
          a ∈ match side with | .left => l.labels | .right => r.labels := by
        intro side rest hrest
        cases side with
        | left => exact hl.mem_nodes_iff.mp ⟨rest, hrest⟩
        | right => exact hr.mem_nodes_iff.mp ⟨rest, hrest⟩
      rw [root_node, follow_eq_some_iff hq] at hpath hpath'
      rcases hpath with ⟨rfl, rfl⟩ | ⟨side, rest, rfl, hrest⟩
      · rcases hpath' with ⟨rfl, -⟩ | ⟨side', rest', rfl, hrest'⟩
        · rfl
        · cases side' with
          | left => exact absurd (hsub _ _ hrest') hql
          | right => exact absurd (hsub _ _ hrest') hqr
      · rcases hpath' with ⟨rfl, rfl⟩ | ⟨side', rest', rfl, hrest'⟩
        · cases side with
          | left => exact absurd (hsub _ _ hrest) hql
          | right => exact absurd (hsub _ _ hrest) hqr
        · cases side with
          | left =>
              cases side' with
              | left => rw [ihl hl hrest hrest']
              | right => exact absurd (hsub _ _ hrest') (hlr (hsub _ _ hrest))
          | right =>
              cases side' with
              | left => exact absurd (hsub _ _ hrest) (hlr (hsub _ _ hrest'))
              | right => rw [ihr hr hrest hrest']

/-! ### Unfolding pointers to a tree -/

/-- A walk visits different live cells. -/
theorem length_lt_size (hlive : ∀ a ∈ nodes h p, a ∈ h)
    (honce : ∀ a path path', follow h p path = some a → follow h p path' = some a → path = path')
    (hpath : follow h p path = some a) : path.length < h.size := by
  let visited := (List.range (path.length + 1)).map fun i => (follow h p (path.take i)).getD 0
  have hnodup : visited.Nodup := by
    refine List.Nodup.map_on (fun i hi j hj heq => ?_) List.nodup_range
    obtain ⟨b, hb⟩ := follow_take_isSome hpath i
    obtain ⟨c, hc⟩ := follow_take_isSome hpath j
    rw [hb, hc] at heq
    have hbc : b = c := heq
    have htake := congrArg List.length (honce b _ _ hb (hbc ▸ hc))
    rw [List.length_take, List.length_take] at htake
    have := List.mem_range.mp hi
    have := List.mem_range.mp hj
    omega
  have hmem : ∀ b ∈ visited, b ∈ h := by
    intro b hb
    obtain ⟨i, -, rfl⟩ := List.mem_map.mp hb
    obtain ⟨b, hb⟩ := follow_take_isSome hpath i
    rw [hb]
    exact hlive b ⟨_, hb⟩
  simpa [visited] using OrdMap.length_le_size hnodup hmem

/-- Pointers whose walks are short, live and do not meet unfold to a tree. -/
theorem exists_holds_of_depth (n : Nat) (hlive : ∀ a ∈ nodes h p, a ∈ h)
    (honce : ∀ a path path', follow h p path = some a → follow h p path' = some a → path = path')
    (hdepth : ∀ a path, follow h p path = some a → path.length < n) :
    ∃ t, Holds h t ∧ root t = p := by
  induction n generalizing p with
  | zero =>
      cases p with
      | none => exact ⟨.leaf, holds_leaf, rfl⟩
      | some a => exact absurd (hdepth a [] rfl) (Nat.not_lt_zero _)
  | succ n ih =>
      cases p with
      | none => exact ⟨.leaf, holds_leaf, rfl⟩
      | some q =>
          obtain ⟨c, hc⟩ := OrdMap.mem_iff_exists.mp (hlive q ⟨[], rfl⟩)
          have hchild : ∀ side, ∃ t, Holds h t ∧ root t = c.child side := by
            intro side
            refine ih (fun a ⟨path, hpath⟩ => hlive a ⟨side :: path, ?_⟩) (fun a path path' hp hp' => ?_)
              fun a path hpath => ?_
            · rwa [follow_cons hc]
            · have := honce a (side :: path) (side :: path') (by rwa [follow_cons hc])
                (by rwa [follow_cons hc])
              exact (List.cons.inj this).2
            · have := hdepth a (side :: path) (by rwa [follow_cons hc])
              exact Nat.lt_of_succ_lt_succ this
          obtain ⟨l, hl, hroot⟩ := hchild .left
          obtain ⟨r, hr, hroot'⟩ := hchild .right
          -- the labels of a subtree are reached through its side
          have hreach : ∀ {side s}, Holds h s → root s = c.child side → ∀ a ∈ s.labels,
              ∃ path, follow h (some q) (side :: path) = some a := by
            intro side s hs hside a ha
            obtain ⟨path, hpath⟩ := hs.mem_nodes_iff.mpr ha
            exact ⟨path, by rw [follow_cons hc, ← hside, hpath]⟩
          refine ⟨.node q c.k l r, holds_node.mpr ⟨?_, hl, hr, fun hq => ?_, fun hq => ?_, ?_⟩, rfl⟩
          · rw [hc, hroot, hroot']
            rfl
          · obtain ⟨path, hpath⟩ := hreach hl hroot q hq
            exact absurd (honce q [] _ rfl hpath) (by simp)
          · obtain ⟨path, hpath⟩ := hreach hr hroot' q hq
            exact absurd (honce q [] _ rfl hpath) (by simp)
          · intro a hal har
            obtain ⟨path, hpath⟩ := hreach hl hroot a hal
            obtain ⟨path', hpath'⟩ := hreach hr hroot' a har
            exact absurd (honce a _ _ hpath hpath') (by simp)

/-- **Well-formed pointers are those to the ordered trees that the heap holds.** -/
theorem wellFormed_iff : WellFormed h p ↔ ∃ t, Holds h t ∧ root t = p ∧ t.Ordered := by
  constructor
  · intro hwf
    obtain ⟨t, ht, rfl⟩ := exists_holds_of_depth h.size hwf.live hwf.once
      fun a path hpath => length_lt_size hwf.live hwf.once hpath
    obtain ⟨keys, hkeys, hsorted⟩ := hwf.sorted
    rw [inorder_spec ht (Nat.lt_succ_of_le ht.length_le)] at hkeys
    obtain rfl := Option.some.inj hkeys
    exact ⟨t, ht, rfl, hsorted⟩
  · rintro ⟨t, ht, rfl, hord⟩
    exact ⟨fun a ha => ht.live (ht.mem_nodes_iff.mp ha), fun a path path' => ht.once,
      t.keys, inorder_spec ht (Nat.lt_succ_of_le ht.length_le), hord⟩

/-! ### Removal -/

/-- The nodes after the removal of a key that is there. -/
theorem nodes_remove {k : Int} (ht : Holds h t) (hord : t.Ordered) (ht' : Holds h' (t.remove k))
    (hk : k ∈ t.keys) :
    ∃ a, (a, k) ∈ t.entries ∧ a ∉ (t.remove k).labels ∧
      nodes h' (root (t.remove k)) = nodes h (root t) \ {a} := by
  obtain ⟨before, a, after, hentries, hentries'⟩ := hord.entries_remove hk
  have hlabels : t.labels = before.map Prod.fst ++ a :: after.map Prod.fst := by
    simp [SearchTree.labels, hentries]
  have hlabels' : (t.remove k).labels = before.map Prod.fst ++ after.map Prod.fst := by
    simp [SearchTree.labels, hentries']
  have hnodup := ht.nodup
  rw [hlabels] at hnodup
  have hfresh : a ∉ (t.remove k).labels := by
    rw [hlabels']
    exact (List.nodup_cons.mp (List.nodup_middle.mp hnodup)).1
  refine ⟨a, by simp [hentries], hfresh, Set.ext fun b => ?_⟩
  rw [Set.mem_sdiff, Set.mem_singleton_iff, ht'.mem_nodes_iff, ht.mem_nodes_iff]
  constructor
  · intro hb
    exact ⟨SearchTree.labels_remove_subset k t hb, fun heq => hfresh (heq ▸ hb)⟩
  · rintro ⟨hb, hne⟩
    rw [hlabels] at hb
    rw [hlabels']
    simpa [hne] using hb

/-- **Nodes are neither shared, lost nor left dangling.** From a well-formed tree `remove` returns
a well-formed tree. If the key occurs, one node with the key is taken out and freed, and otherwise
none; the other nodes keep their keys, and the rest of the heap is as before. -/
theorem remove_keeps_shape (hwf : WellFormed h p) (k : Int) :
    ∃ h' p', remove (h.size + 1) h p k = some (h', p') ∧ WellFormed h' p' ∧
      ((∃ a, (a, k) ∈ cells h p) →
        ∃ a, (a, k) ∈ cells h p ∧ nodes h' p' = nodes h p \ {a} ∧ a ∉ h') ∧
      ((∀ a, (a, k) ∉ cells h p) → nodes h' p' = nodes h p) ∧
      (∀ a ∈ nodes h' p', ∃ n n', h.find? a = some n ∧ h'.find? a = some n' ∧ n'.k = n.k) ∧
      ∀ a ∉ nodes h p, h'.find? a = h.find? a := by
  obtain ⟨t, ht, rfl, hord⟩ := wellFormed_iff.mp hwf
  obtain ⟨h', hrun, ht', hother⟩ := remove_spec ht (Nat.lt_succ_of_le ht.length_le) k
  have hoccurs : (∃ a, (a, k) ∈ cells h (root t)) ↔ k ∈ t.keys := by
    simp only [ht.mem_cells_iff, SearchTree.keys, List.mem_map]
    constructor
    · rintro ⟨a, ha⟩
      exact ⟨(a, k), ha, rfl⟩
    · rintro ⟨⟨a, k⟩, ha, rfl⟩
      exact ⟨a, ha⟩
  refine ⟨h', root (t.remove k), hrun, wellFormed_iff.mpr ⟨_, ht', rfl, hord.remove k⟩,
    fun hk => ?_, fun hk => ?_, fun a ha => ?_, fun a ha => ?_⟩
  · obtain ⟨a, hentry, hfresh, hnodes⟩ := nodes_remove ht hord ht' (hoccurs.mp hk)
    refine ⟨a, ht.mem_cells_iff.mpr hentry, hnodes, ?_⟩
    have hlabel : a ∈ t.labels := List.mem_map_of_mem hentry
    rw [OrdMap.mem_iff, hother a hfresh, if_pos hlabel]
    simp
  · have habsent : k ∉ t.keys := fun hmem => (hoccurs.mpr hmem).elim hk
    ext a
    rw [ht'.mem_nodes_iff, ht.mem_nodes_iff, hord.remove_of_notMem habsent]
  · obtain ⟨⟨a, m⟩, hentry, rfl⟩ := List.mem_map.mp (ht'.mem_nodes_iff.mp ha)
    obtain ⟨n', hn', hkey'⟩ := ht'.cell hentry
    obtain ⟨n, hn, hkey⟩ := ht.cell ((SearchTree.entries_remove_sublist k t).subset hentry)
    exact ⟨n, n', hn, hn', by rw [hkey, hkey']⟩
  · rw [ht.mem_nodes_iff] at ha
    rw [hother a fun hmem => ha (SearchTree.labels_remove_subset k t hmem), if_neg ha]

/-- The hypothesis can be met: the tree of the test driver. -/
theorem remove_keeps_shape_driver :
    ∃ h p, runOps default (∅, none) ([5, 10, 2, 7, 13, 1, 3, 4, 0].map .insert) = some (h, p) ∧
      ∃ h' p', remove (h.size + 1) h p 5 = some (h', p') ∧ WellFormed h' p' := by
  obtain ⟨⟨h, p⟩, hrun, t, hs⟩ := Represents.runOps default ∅
    ([5, 10, 2, 7, 13, 1, 3, 4, 0].map .insert)
  have hwf : WellFormed h p := wellFormed_iff.mpr ⟨t, hs.holds, hs.root_eq.symm, hs.ordered⟩
  obtain ⟨h', p', hremove, hwf', -⟩ := remove_keeps_shape hwf 5
  exact ⟨h, p, hrun, h', p', hremove, hwf'⟩

end CLabs.Bst
