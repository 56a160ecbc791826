import CLabs.Lib.OrdMap
import CLabs.Lib.SearchTree

/-!
# CLabs.Bst.Heap

The binary search tree of `test.cc`, on an explicit heap: nodes are cells with two
pointers, and the functions read, write, allocate and free cells as the source does.

* A dereference of a null pointer or of a cell that is not live is undefined in the
  source; here the function then has no result (`none`).
* The functions are recursive in the source. The recursion is bounded by `fuel`, and
  running out of it is no result either; the specifications below say how much is
  enough, and that there is a result.
* `new` may return any address that is not in use: the allocator is a parameter.
* What is only printed (`debug`) is left out.

`Rep` says that the heap holds a tree of `CLabs.Lib.SearchTree` whose labels are the
addresses of the nodes, and each function is shown to refine the operation on trees
with the same name.
-/

namespace CLabs.Bst

open CLabs.Lib

/-! ### The program -/

/-- An address. -/
abbrev Addr := Nat

/-- `node*`; `none` is `nullptr`. -/
abbrev Ptr := Option Addr

/-- `node`. -/
structure Node where
  k : Int
  pl : Ptr
  pr : Ptr
  deriving Repr, DecidableEq

/-- The live cells. -/
abbrev Heap := OrdMap Addr Node

/-- Where `new` puts a node. -/
structure Allocator where
  alloc : Heap → Addr
  fresh : ∀ h : Heap, h.find? (alloc h) = none

/-- An allocator that goes past every address in use. -/
instance : Inhabited Allocator where
  default :=
    { alloc := fun h => (h.entries.map Prod.fst).sum + 1
      fresh := fun h => by
        rw [Option.eq_none_iff_forall_ne_some]
        intro n hn
        have hmem : (h.entries.map Prod.fst).sum + 1 ∈ h.entries.map Prod.fst :=
          List.mem_map.mpr ⟨_, OrdMap.find?_eq_some_iff.mp hn, rfl⟩
        exact absurd (List.le_sum_of_mem hmem) (Nat.not_succ_le_self _) }

/-- `p->pl = q`. -/
def setLeft (h : Heap) (p : Addr) (q : Ptr) : Option Heap :=
  match h.find? p with
  | none => none
  | some n => some (h.insert p { n with pl := q })

/-- `p->pr = q`. -/
def setRight (h : Heap) (p : Addr) (q : Ptr) : Option Heap :=
  match h.find? p with
  | none => none
  | some n => some (h.insert p { n with pr := q })

/-- `insert`. -/
def insert (A : Allocator) : Nat → Heap → Ptr → Int → Option (Heap × Ptr)
  | 0, _, _, _ => none
  | _ + 1, h, none, k => some (h.insert (A.alloc h) ⟨k, none, none⟩, some (A.alloc h))
  | fuel + 1, h, some p, k => do
      let n ← h.find? p
      if k < n.k then
        let (h, q) ← insert A fuel h n.pl k
        let h ← setLeft h p q
        return (h, some p)
      else
        let (h, q) ← insert A fuel h n.pr k
        let h ← setRight h p q
        return (h, some p)

/-- `search`. -/
def search : Nat → Heap → Ptr → Int → Option Ptr
  | 0, _, _, _ => none
  | _ + 1, _, none, _ => some none
  | fuel + 1, h, some p, k => do
      let n ← h.find? p
      if n.k = k then return some p
      else if k < n.k then search fuel h n.pl k
      else search fuel h n.pr k

/-- `inorder`: the keys in the order in which the nodes are visited. -/
def inorder : Nat → Heap → Ptr → Option (List Int)
  | 0, _, _ => none
  | _ + 1, _, none => some []
  | fuel + 1, h, some p => do
      let n ← h.find? p
      let left ← inorder fuel h n.pl
      let right ← inorder fuel h n.pr
      return left ++ n.k :: right

/-- `destroy`. -/
def destroy : Nat → Heap → Ptr → Option Heap
  | 0, _, _ => none
  | _ + 1, h, none => some h
  | fuel + 1, h, some p => do
      let n ← h.find? p
      let h ← destroy fuel h n.pl
      -- the children are gone, the node itself is still there to be read
      let n ← h.find? p
      let h ← destroy fuel h n.pr
      return h.erase p

/-- `findmax`. -/
def findmax : Nat → Heap → Ptr → Option Ptr
  | 0, _, _ => none
  | _ + 1, _, none => some none
  | fuel + 1, h, some p => do
      let n ← h.find? p
      if n.pr = none then return some p
      else findmax fuel h n.pr

/-- `removemax`. -/
def removemax : Nat → Heap → Ptr → Addr → Option (Heap × Ptr)
  | 0, _, _, _ => none
  | _ + 1, h, none, _ => some (h, none)
  | fuel + 1, h, some p, pm => do
      if p = pm then
        let m ← h.find? pm
        return (h, m.pl)
      else
        let n ← h.find? p
        let (h, q) ← removemax fuel h n.pr pm
        let h ← setRight h p q
        return (h, some p)

/-- `remove`. -/
def remove : Nat → Heap → Ptr → Int → Option (Heap × Ptr)
  | 0, _, _, _ => none
  | _ + 1, h, none, _ => some (h, none)
  | fuel + 1, h, some p, k => do
      let n ← h.find? p
      if n.k = k then
        if n.pl = none then return (h.erase p, n.pr)
        else if n.pr = none then return (h.erase p, n.pl)
        else
          let pm ← findmax fuel h n.pl
          let pm ← pm
          let (h, q) ← removemax fuel h n.pl pm
          let h ← setLeft h pm q
          -- `p->pr` is read after the write to `pm->pl`
          let n ← h.find? p
          let h ← setRight h pm n.pr
          return (h.erase p, some pm)
      else if k < n.k then
        let (h, q) ← remove fuel h n.pl k
        let h ← setLeft h p q
        return (h, some p)
      else if n.k < k then
        let (h, q) ← remove fuel h n.pr k
        let h ← setRight h p q
        return (h, some p)
      else return (h, some p)

/-! ### Trees in the heap -/

/-- The pointer to a tree. -/
def root : SearchTree Addr Int → Ptr
  | .leaf => none
  | .node p _ _ _ => some p

/-- The heap holds the tree, every node in a cell of its own. -/
def Holds (h : Heap) : SearchTree Addr Int → Prop
  | .leaf => True
  | .node p k l r =>
      h.find? p = some ⟨k, root l, root r⟩ ∧ Holds h l ∧ Holds h r ∧
        p ∉ l.labels ∧ p ∉ r.labels ∧ l.labels.Disjoint r.labels

@[simp] theorem root_leaf : root .leaf = none := rfl

@[simp] theorem root_node (p : Addr) (k : Int) (l r : SearchTree Addr Int) :
    root (.node p k l r) = some p := rfl

variable {h h' : Heap} {t l r : SearchTree Addr Int} {p : Addr} {k m : Int} {fuel : Nat}

theorem holds_leaf : Holds h .leaf := trivial

theorem holds_node : Holds h (.node p k l r) ↔
    h.find? p = some ⟨k, root l, root r⟩ ∧ Holds h l ∧ Holds h r ∧
      p ∉ l.labels ∧ p ∉ r.labels ∧ l.labels.Disjoint r.labels := Iff.rfl

theorem Holds.cell (ht : Holds h t) {a : Addr} (ha : (a, k) ∈ t.entries) :
    ∃ n, h.find? a = some n ∧ n.k = k := by
  induction t with
  | leaf => exact absurd ha List.not_mem_nil
  | node p m l r ihl ihr =>
      obtain ⟨hp, hl, hr, -⟩ := holds_node.mp ht
      rcases List.mem_append.mp ha with ha | ha
      · exact ihl hl ha
      · rcases List.mem_cons.mp ha with ha | ha
        · obtain ⟨rfl, rfl⟩ := Prod.mk.inj ha
          exact ⟨_, hp, rfl⟩
        · exact ihr hr ha

theorem Holds.live (ht : Holds h t) {a : Addr} (ha : a ∈ t.labels) : a ∈ h := by
  obtain ⟨⟨a, k⟩, he, rfl⟩ := List.mem_map.mp ha
  obtain ⟨n, hn, -⟩ := ht.cell he
  exact OrdMap.mem_iff_exists.mpr ⟨n, hn⟩

theorem Holds.nodup (ht : Holds h t) : t.labels.Nodup := by
  induction t with
  | leaf => exact List.nodup_nil
  | node p m l r ihl ihr =>
      obtain ⟨-, hl, hr, hpl, hpr, hlr⟩ := holds_node.mp ht
      rw [SearchTree.labels_node, List.nodup_append', List.nodup_cons]
      refine ⟨ihl hl, ⟨hpr, ihr hr⟩, ?_⟩
      rw [List.disjoint_cons_right]
      exact ⟨hpl, hlr⟩

/-- Only the cells of a tree matter to it. -/
theorem Holds.frame (ht : Holds h t) (hsame : ∀ a ∈ t.labels, h'.find? a = h.find? a) :
    Holds h' t := by
  induction t with
  | leaf => trivial
  | node p m l r ihl ihr =>
      obtain ⟨hp, hl, hr, hfresh⟩ := holds_node.mp ht
      refine holds_node.mpr ⟨?_, ihl hl fun a ha => hsame a (by simp [ha]),
        ihr hr fun a ha => hsame a (by simp [ha]), hfresh⟩
      rw [hsame p (by simp), hp]

/-- Two separate trees and a cell of its own that points at them. -/
theorem Holds.write (hl : Holds h l) (hr : Holds h r) (hpl : p ∉ l.labels)
    (hpr : p ∉ r.labels) (hlr : l.labels.Disjoint r.labels) (k : Int) :
    Holds (h.insert p ⟨k, root l, root r⟩) (.node p k l r) := by
  have hother : ∀ a, a ≠ p → (h.insert p ⟨k, root l, root r⟩).find? a = h.find? a :=
    fun a ha => by rw [OrdMap.find?_insert, if_neg ha]
  refine holds_node.mpr ⟨by rw [OrdMap.find?_insert, if_pos rfl],
    hl.frame fun a ha => hother a ?_, hr.frame fun a ha => hother a ?_, hpl, hpr, hlr⟩
  · intro heq
    subst heq
    exact hpl ha
  · intro heq
    subst heq
    exact hpr ha

/-- A call with a fuel of one more than the number of live cells has enough of it. -/
theorem Holds.length_le (ht : Holds h t) : t.labels.length ≤ h.size :=
  OrdMap.length_le_size ht.nodup fun _ ha => ht.live ha

theorem setLeft_eq {n : Node} (hp : h.find? p = some n) (q : Ptr) :
    setLeft h p q = some (h.insert p { n with pl := q }) := by
  rw [setLeft, hp]

theorem setRight_eq {n : Node} (hp : h.find? p = some n) (q : Ptr) :
    setRight h p q = some (h.insert p { n with pr := q }) := by
  rw [setRight, hp]

theorem Holds.notMem_left (ht : Holds h (.node p m l r)) {a : Addr} (ha : a = p ∨ a ∈ r.labels) :
    a ∉ l.labels := by
  obtain ⟨-, -, -, hpl, -, hlr⟩ := holds_node.mp ht
  rcases ha with rfl | ha
  · exact hpl
  · exact fun hmem => hlr hmem ha

theorem Holds.notMem_right (ht : Holds h (.node p m l r)) {a : Addr}
    (ha : a = p ∨ a ∈ l.labels) : a ∉ r.labels := by
  obtain ⟨-, -, -, -, hpr, hlr⟩ := holds_node.mp ht
  rcases ha with rfl | ha
  · exact hpr
  · exact hlr ha

/-- `p->pl = q` after a call on the left subtree, which has left the rest of the tree alone. -/
theorem Holds.writeLeft {l' : SearchTree Addr Int} (ht : Holds h (.node p m l r))
    (hl' : Holds h' l')
    (hout : ∀ a, a = p ∨ a ∈ r.labels → a ∉ l'.labels ∧ h'.find? a = h.find? a) :
    ∃ h₂, setLeft h' p (root l') = some h₂ ∧ Holds h₂ (.node p m l' r) ∧
      ∀ a, a ≠ p → h₂.find? a = h'.find? a := by
  obtain ⟨hp, -, hr, -, hpr, -⟩ := holds_node.mp ht
  obtain ⟨hpl', hp'⟩ := hout p (Or.inl rfl)
  have hr' : Holds h' r := hr.frame fun a ha => (hout a (Or.inr ha)).2
  refine ⟨_, setLeft_eq (hp'.trans hp) _, hl'.write hr' hpl' hpr ?_ m, fun a ha => ?_⟩
  · exact fun a ha hmem => (hout a (Or.inr hmem)).1 ha
  · exact OrdMap.find?_insert_of_ne _ _ ha

/-- `p->pr = q` after a call on the right subtree. -/
theorem Holds.writeRight {r' : SearchTree Addr Int} (ht : Holds h (.node p m l r))
    (hr' : Holds h' r')
    (hout : ∀ a, a = p ∨ a ∈ l.labels → a ∉ r'.labels ∧ h'.find? a = h.find? a) :
    ∃ h₂, setRight h' p (root r') = some h₂ ∧ Holds h₂ (.node p m l r') ∧
      ∀ a, a ≠ p → h₂.find? a = h'.find? a := by
  obtain ⟨hp, hl, -, hpl, -, -⟩ := holds_node.mp ht
  obtain ⟨hpr', hp'⟩ := hout p (Or.inl rfl)
  have hl' : Holds h' l := hl.frame fun a ha => (hout a (Or.inr ha)).2
  refine ⟨_, setRight_eq (hp'.trans hp) _, hl'.write hr' hpl hpr' ?_ m, fun a ha => ?_⟩
  · exact fun a ha => (hout a (Or.inr ha)).1
  · exact OrdMap.find?_insert_of_ne _ _ ha

/-- Fuel for a node is fuel for both subtrees after one call. -/
theorem fuel_of_node (hfuel : (SearchTree.node p m l r).labels.length < fuel) :
    ∃ n, fuel = n + 1 ∧ l.labels.length < n ∧ r.labels.length < n := by
  rw [SearchTree.labels_node, List.length_append, List.length_cons] at hfuel
  cases fuel with
  | zero => exact absurd hfuel (Nat.not_lt_zero _)
  | succ n => exact ⟨n, rfl, by omega, by omega⟩

/-! ### Reading -/

theorem search_spec (ht : Holds h t) (hfuel : t.labels.length < fuel) (k : Int) :
    search fuel h (root t) k = some (t.find? k) := by
  induction t generalizing fuel with
  | leaf =>
      cases fuel with
      | zero => exact absurd hfuel (Nat.not_lt_zero _)
      | succ fuel => rfl
  | node p m l r ihl ihr =>
      obtain ⟨fuel, rfl, hfl, hfr⟩ := fuel_of_node hfuel
      obtain ⟨hp, hl, hr, -⟩ := holds_node.mp ht
      simp only [root_node, search, hp, Option.bind_eq_bind, Option.bind_some, SearchTree.find?]
      split_ifs with hm hlt
      · rfl
      · exact ihl hl hfl
      · exact ihr hr hfr

theorem inorder_spec (ht : Holds h t) (hfuel : t.labels.length < fuel) :
    inorder fuel h (root t) = some t.keys := by
  induction t generalizing fuel with
  | leaf =>
      cases fuel with
      | zero => exact absurd hfuel (Nat.not_lt_zero _)
      | succ fuel => rfl
  | node p m l r ihl ihr =>
      obtain ⟨fuel, rfl, hfl, hfr⟩ := fuel_of_node hfuel
      obtain ⟨hp, hl, hr, -⟩ := holds_node.mp ht
      simp only [root_node, inorder, hp, Option.bind_eq_bind, Option.bind_some,
        ihl hl hfl, ihr hr hfr]
      rw [SearchTree.keys_node]
      rfl

theorem findmax_spec (ht : Holds h t) (hfuel : t.labels.length < fuel) :
    findmax fuel h (root t) = some (t.maxNode?.map Prod.fst) := by
  induction t generalizing fuel with
  | leaf =>
      cases fuel with
      | zero => exact absurd hfuel (Nat.not_lt_zero _)
      | succ fuel => rfl
  | node p m l r _ ih =>
      obtain ⟨fuel, rfl, hfl, hfr⟩ := fuel_of_node hfuel
      obtain ⟨hp, -, hr, -⟩ := holds_node.mp ht
      simp only [root_node, findmax, hp, Option.bind_eq_bind, Option.bind_some]
      cases r with
      | leaf => rfl
      | node q n l' r' => exact ih hr hfr

/-! ### Writing

Each specification says what tree the heap holds after the call, and what has happened to
the cells that are not in that tree. -/

theorem removemax_spec {e : Addr × Int} (ht : Holds h t) (he : t.maxNode? = some e)
    (hfuel : t.labels.length < fuel) :
    ∃ h', removemax fuel h (root t) e.1 = some (h', root t.dropMax) ∧ Holds h' t.dropMax ∧
      ∀ a ∉ t.dropMax.labels, h'.find? a = h.find? a := by
  induction t generalizing fuel with
  | leaf => exact absurd he (by simp [SearchTree.maxNode?])
  | node p m l r _ ih =>
      obtain ⟨fuel, rfl, hfl, hfr⟩ := fuel_of_node hfuel
      obtain ⟨hp, hl, hr, -, hpr, -⟩ := holds_node.mp ht
      by_cases hleaf : r = .leaf
      · subst hleaf
        obtain rfl := Option.some.inj he
        refine ⟨h, ?_, hl, fun _ _ => rfl⟩
        simp only [root_node, removemax, if_pos, hp, Option.bind_eq_bind, Option.bind_some]
        rfl
      · rw [SearchTree.maxNode?_node_of_ne p m l hleaf] at he
        rw [SearchTree.dropMax_node_of_ne p m l hleaf]
        have hmax := SearchTree.labels_dropMax he
        have hsub : r.dropMax.labels ⊆ r.labels := by
          rw [hmax]
          exact List.subset_append_left _ _
        have hne : p ≠ e.1 := by
          intro heq
          subst heq
          exact hpr (by simp [hmax])
        obtain ⟨h₁, hrun, hr₁, hsame⟩ := ih hr he hfr
        obtain ⟨h₂, hset, hnode, hother⟩ := ht.writeRight hr₁ fun a ha => by
          have hnot : a ∉ r.dropMax.labels := fun hmem => ht.notMem_right ha (hsub hmem)
          exact ⟨hnot, hsame a hnot⟩
        refine ⟨h₂, ?_, hnode, fun a ha => ?_⟩
        · simp only [root_node, removemax, if_neg hne, hp, Option.bind_eq_bind,
            Option.bind_some, hrun, hset]
          rfl
        · rw [SearchTree.notMem_labels_node] at ha
          rw [hother a ha.2.1, hsame a ha.2.2]

/-- A live cell stays out of a tree that only gains a new node. -/
theorem notMem_labels_insert (A : Allocator) {a : Addr} (ha : a ∈ h) (hl : a ∉ l.labels) (k : Int) :
    a ∉ (l.insert (A.alloc h) k).labels := by
  rw [(SearchTree.labels_insert_perm _ k l).mem_iff, List.mem_cons, not_or]
  refine ⟨?_, hl⟩
  intro heq
  subst heq
  rw [OrdMap.mem_iff, A.fresh] at ha
  exact absurd ha (by simp)

theorem insert_spec (A : Allocator) (ht : Holds h t) (hfuel : t.labels.length < fuel) (k : Int) :
    ∃ h', insert A fuel h (root t) k = some (h', root (t.insert (A.alloc h) k)) ∧
      Holds h' (t.insert (A.alloc h) k) ∧
      ∀ a ∉ (t.insert (A.alloc h) k).labels, h'.find? a = h.find? a := by
  induction t generalizing fuel with
  | leaf =>
      cases fuel with
      | zero => exact absurd hfuel (Nat.not_lt_zero _)
      | succ fuel =>
          refine ⟨_, rfl, holds_leaf.write holds_leaf List.not_mem_nil List.not_mem_nil
            (List.disjoint_nil_left _) k, fun a ha => ?_⟩
          exact OrdMap.find?_insert_of_ne _ _ fun heq => ha (by simp [SearchTree.insert, heq])
  | node p m l r ihl ihr =>
      obtain ⟨fuel, rfl, hfl, hfr⟩ := fuel_of_node hfuel
      obtain ⟨hp, hl, hr, -⟩ := holds_node.mp ht
      simp only [root_node, insert, hp, Option.bind_eq_bind, Option.bind_some, SearchTree.insert]
      by_cases hlt : k < m
      · obtain ⟨h₁, hrun, hl₁, hsame⟩ := ihl hl hfl
        obtain ⟨h₂, hset, hnode, hother⟩ := ht.writeLeft hl₁ fun a ha => by
          have hlive : a ∈ h := ht.live (by rcases ha with rfl | ha <;> simp [*])
          have hnot := notMem_labels_insert A hlive (ht.notMem_left ha) k
          exact ⟨hnot, hsame a hnot⟩
        simp only [if_pos hlt, hrun, Option.bind_some, hset]
        refine ⟨h₂, rfl, hnode, fun a ha => ?_⟩
        rw [SearchTree.notMem_labels_node] at ha
        rw [hother a ha.2.1, hsame a ha.1]
      · obtain ⟨h₁, hrun, hr₁, hsame⟩ := ihr hr hfr
        obtain ⟨h₂, hset, hnode, hother⟩ := ht.writeRight hr₁ fun a ha => by
          have hlive : a ∈ h := ht.live (by rcases ha with rfl | ha <;> simp [*])
          have hnot := notMem_labels_insert A hlive (ht.notMem_right ha) k
          exact ⟨hnot, hsame a hnot⟩
        simp only [if_neg hlt, hrun, Option.bind_some, hset]
        refine ⟨h₂, rfl, hnode, fun a ha => ?_⟩
        rw [SearchTree.notMem_labels_node] at ha
        rw [hother a ha.2.1, hsame a ha.2.2]

/-- The two-children branch of `remove`: the largest node of the left subtree takes the
place of the removed node. -/
theorem remove_splice {e : Addr × Int} (ht : Holds h (.node p k l r)) (he : l.maxNode? = some e)
    (hfuel : l.labels.length < fuel) :
    ∃ h₁ h₂ h₃, removemax fuel h (root l) e.1 = some (h₁, root l.dropMax) ∧
      setLeft h₁ e.1 (root l.dropMax) = some h₂ ∧ h₂.find? p = some ⟨k, root l, root r⟩ ∧
      setRight h₂ e.1 (root r) = some h₃ ∧ Holds h₃ (.node e.1 e.2 l.dropMax r) ∧
      ∀ a ∉ (SearchTree.node e.1 e.2 l.dropMax r).labels, h₃.find? a = h.find? a := by
  obtain ⟨hp, hl, hr, hpl, -, hlr⟩ := holds_node.mp ht
  have hmax := SearchTree.labels_dropMax he
  have hsub : l.dropMax.labels ⊆ l.labels := by
    rw [hmax]
    exact List.subset_append_left _ _
  have hmem : e.1 ∈ l.labels := by simp [hmax]
  have hdrop : e.1 ∉ l.dropMax.labels := by
    have hnodup := hl.nodup
    rw [hmax] at hnodup
    exact fun h => (List.disjoint_of_nodup_append hnodup) h (List.mem_singleton_self _)
  have hne : p ≠ e.1 := by
    intro heq
    subst heq
    exact hpl hmem
  obtain ⟨h₁, hrun, hl₁, hsame⟩ := removemax_spec hl he hfuel
  obtain ⟨c, hc, hck⟩ := hl.cell (k := e.2) (a := e.1) (by simp [SearchTree.entries_dropMax he])
  have hc₁ : h₁.find? e.1 = some c := (hsame _ hdrop).trans hc
  -- the cell of the largest node is written twice, the other cells not at all
  have hother : ∀ a, a ≠ e.1 → ∀ n, (h₁.insert e.1 n).find? a = h₁.find? a :=
    fun a ha n => OrdMap.find?_insert_of_ne _ _ ha
  have hl₂ : Holds (h₁.insert e.1 { c with pl := root l.dropMax }) l.dropMax :=
    hl₁.frame fun a ha => hother a (fun heq => hdrop (heq ▸ ha)) _
  have hr₂ : Holds (h₁.insert e.1 { c with pl := root l.dropMax }) r := by
    refine hr.frame fun a ha => ?_
    rw [hother a (fun heq => hlr hmem (heq ▸ ha)), hsame a fun h => hlr (hsub h) ha]
  refine ⟨h₁, _, _, hrun, setLeft_eq hc₁ _, ?_, setRight_eq (OrdMap.find?_insert_self _ _ _) _,
    ?_, fun a ha => ?_⟩
  · exact (hother p hne _).trans ((hsame p fun h => hpl (hsub h)).trans hp)
  · rw [← hck]
    exact hl₂.write hr₂ hdrop (hlr hmem) (fun a ha => hlr (hsub ha)) _
  · rw [SearchTree.notMem_labels_node] at ha
    rw [OrdMap.find?_insert_of_ne _ _ ha.2.1, hother a ha.2.1, hsame a ha.1]

/-- Freeing the removed node once its children are joined. -/
theorem Holds.free (hj : Holds h' (l.join r)) (hpl : p ∉ l.labels) (hpr : p ∉ r.labels)
    (hsame : ∀ a ∉ (l.join r).labels, h'.find? a = h.find? a) :
    Holds (h'.erase p) (l.join r) ∧ ∀ a ∉ (l.join r).labels, (h'.erase p).find? a =
      if a ∈ (SearchTree.node p k l r).labels then none else h.find? a := by
  have hp : p ∉ (l.join r).labels := by simp [SearchTree.labels_join, hpl, hpr]
  refine ⟨hj.frame fun a ha => OrdMap.find?_erase_of_ne _ ?_, fun a ha => ?_⟩
  · intro heq
    subst heq
    exact hp ha
  · have hmem : a ∈ (SearchTree.node p k l r).labels ↔ a = p := by
      rw [SearchTree.labels_join, List.mem_append, not_or] at ha
      simp [ha]
    rw [OrdMap.find?_erase, hsame a ha]
    simp only [hmem]

/-- The three ways in which `remove` takes out the node it is called on. -/
theorem remove_root (ht : Holds h (.node p k l r)) (hfuel : l.labels.length < fuel) :
    ∃ h', remove (fuel + 1) h (some p) k = some (h', root (l.join r)) ∧ Holds h' (l.join r) ∧
      ∀ a ∉ (l.join r).labels,
        h'.find? a = if a ∈ (SearchTree.node p k l r).labels then none else h.find? a := by
  obtain ⟨hp, hl, hr, hpl, hpr, hlr⟩ := holds_node.mp ht
  simp only [remove, hp, Option.bind_eq_bind, Option.bind_some, if_pos]
  cases l with
  | leaf => exact ⟨_, rfl, Holds.free hr hpl hpr fun _ _ => rfl⟩
  | node q n l₁ r₁ =>
      cases r with
      | leaf => exact ⟨_, rfl, Holds.free hl hpl hpr fun _ _ => rfl⟩
      | node q' n' l₂ r₂ =>
          obtain ⟨e, he⟩ := SearchTree.maxNode?_node q n l₁ r₁
          obtain ⟨h₁, h₂, h₃, hrun, hleft, hp₂, hright, hj, hsame⟩ := remove_splice ht he hfuel
          rw [← SearchTree.join_of_maxNode? he (by simp)] at hj hsame
          have hroot : root ((SearchTree.node q n l₁ r₁).join (.node q' n' l₂ r₂)) = some e.1 := by
            rw [SearchTree.join_of_maxNode? he (by simp), root_node]
          refine ⟨h₃.erase p, ?_, hj.free hpl hpr hsame⟩
          rw [hroot, if_neg (by simp), if_neg (by simp), findmax_spec hl hfuel, he]
          simp only [Option.map_some, Option.bind_some, hrun, hleft, hp₂, hright]
          rfl

/-- What the heap is after a `remove`: the removed node is freed, and the cells that are in
neither tree are as before. -/
theorem remove_spec (ht : Holds h t) (hfuel : t.labels.length < fuel) (k : Int) :
    ∃ h', remove fuel h (root t) k = some (h', root (t.remove k)) ∧ Holds h' (t.remove k) ∧
      ∀ a ∉ (t.remove k).labels, h'.find? a = if a ∈ t.labels then none else h.find? a := by
  induction t generalizing fuel with
  | leaf =>
      cases fuel with
      | zero => exact absurd hfuel (Nat.not_lt_zero _)
      | succ fuel => exact ⟨h, rfl, holds_leaf, fun a _ => (if_neg List.not_mem_nil).symm⟩
  | node p m l r ihl ihr =>
      obtain ⟨fuel, rfl, hfl, hfr⟩ := fuel_of_node hfuel
      by_cases hm : m = k
      · subst hm
        rw [SearchTree.remove, if_pos rfl]
        exact remove_root ht hfl
      obtain ⟨hp, hl, hr, -⟩ := holds_node.mp ht
      simp only [root_node, remove, hp, Option.bind_eq_bind, Option.bind_some, if_neg hm,
        SearchTree.remove]
      by_cases hlt : k < m
      · obtain ⟨h₁, hrun, hl₁, hsame⟩ := ihl hl hfl
        have hsub := SearchTree.labels_remove_subset k l
        obtain ⟨h₂, hset, hnode, hother⟩ := ht.writeLeft hl₁ fun a ha => by
          have hnot : a ∉ (l.remove k).labels := fun hmem => ht.notMem_left ha (hsub hmem)
          exact ⟨hnot, (hsame a hnot).trans (if_neg (ht.notMem_left ha))⟩
        simp only [if_pos hlt, hrun, Option.bind_some, hset]
        refine ⟨h₂, rfl, hnode, fun a ha => ?_⟩
        rw [SearchTree.notMem_labels_node] at ha
        rw [hother a ha.2.1, hsame a ha.1]
        simp [ha.2]
      · have hgt : m < k := lt_of_le_of_ne (not_lt.mp hlt) hm
        obtain ⟨h₁, hrun, hr₁, hsame⟩ := ihr hr hfr
        have hsub := SearchTree.labels_remove_subset k r
        obtain ⟨h₂, hset, hnode, hother⟩ := ht.writeRight hr₁ fun a ha => by
          have hnot : a ∉ (r.remove k).labels := fun hmem => ht.notMem_right ha (hsub hmem)
          exact ⟨hnot, (hsame a hnot).trans (if_neg (ht.notMem_right ha))⟩
        simp only [if_neg hlt, if_pos hgt, hrun, Option.bind_some, hset]
        refine ⟨h₂, rfl, hnode, fun a ha => ?_⟩
        rw [SearchTree.notMem_labels_node] at ha
        rw [hother a ha.2.1, hsame a ha.2.2]
        simp [ha.1, ha.2.1]

/-- A `remove` of a key that is not in the tree writes back what is there. -/
theorem remove_absent (ht : Holds h t) (hord : t.Ordered) (hfuel : t.labels.length < fuel)
    (hk : k ∉ t.keys) : remove fuel h (root t) k = some (h, root t) := by
  induction t generalizing fuel with
  | leaf =>
      cases fuel with
      | zero => exact absurd hfuel (Nat.not_lt_zero _)
      | succ fuel => rfl
  | node p m l r ihl ihr =>
      obtain ⟨fuel, rfl, hfl, hfr⟩ := fuel_of_node hfuel
      obtain ⟨hp, hl, hr, -⟩ := holds_node.mp ht
      obtain ⟨hol, hor, -, -⟩ := SearchTree.ordered_node.mp hord
      have hm : m ≠ k := by
        intro heq
        subst heq
        exact hk (by simp)
      rw [hord.mem_keys_iff hm] at hk
      simp only [root_node, remove, hp, Option.bind_eq_bind, Option.bind_some, if_neg hm]
      by_cases hlt : k < m
      · rw [if_pos hlt] at hk
        simp only [if_pos hlt, ihl hl hol hfl hk, Option.bind_some, setLeft_eq hp,
          OrdMap.insert_of_find? hp]
        rfl
      · have hgt : m < k := lt_of_le_of_ne (not_lt.mp hlt) hm
        rw [if_neg hlt] at hk
        simp only [if_neg hlt, if_pos hgt, ihr hr hor hfr hk, Option.bind_some, setRight_eq hp,
          OrdMap.insert_of_find? hp]
        rfl

/-- `destroy` frees the nodes of the tree and no other cell. -/
theorem destroy_spec (ht : Holds h t) (hfuel : t.labels.length < fuel) :
    ∃ h', destroy fuel h (root t) = some h' ∧
      ∀ a, h'.find? a = if a ∈ t.labels then none else h.find? a := by
  induction t generalizing fuel h with
  | leaf =>
      cases fuel with
      | zero => exact absurd hfuel (Nat.not_lt_zero _)
      | succ fuel => exact ⟨h, rfl, fun a => (if_neg List.not_mem_nil).symm⟩
  | node p m l r ihl ihr =>
      obtain ⟨fuel, rfl, hfl, hfr⟩ := fuel_of_node hfuel
      obtain ⟨hp, hl, hr, hpl, hpr, hlr⟩ := holds_node.mp ht
      obtain ⟨h₁, hrun₁, hfree₁⟩ := ihl hl hfl
      have hp₁ : h₁.find? p = some ⟨m, root l, root r⟩ := by rw [hfree₁ p, if_neg hpl, hp]
      have hr₁ : Holds h₁ r :=
        hr.frame fun a ha => by rw [hfree₁ a, if_neg fun h => hlr h ha]
      obtain ⟨h₂, hrun₂, hfree₂⟩ := ihr hr₁ hfr
      refine ⟨h₂.erase p, ?_, fun a => ?_⟩
      · simp only [root_node, destroy, hp, Option.bind_eq_bind, Option.bind_some, hrun₁, hp₁,
          hrun₂]
        rfl
      · rw [OrdMap.find?_erase, hfree₂ a, hfree₁ a]
        simp only [SearchTree.labels_node, List.mem_append, List.mem_cons]
        split_ifs <;> simp_all

end CLabs.Bst
