import Mathlib.Data.List.GetD
import Mathlib.Tactic

/-!
# CLabs.Lib.Memory

**Memory by address.** A memory gives the cell at every address. `store` writes a list of
cells from an address on and `load` reads so many cells from an address on; a write changes
what is read at its own addresses and nothing else.
-/

namespace CLabs.Lib

variable {β : Type*}

/-- Write `cells` at the addresses from `p` on. -/
def store (m : Nat → β) (p : Nat) (cells : List β) : Nat → β :=
  fun a => if p ≤ a then cells.getD (a - p) (m a) else m a

/-- The `n` cells from address `p` on. -/
def load (m : Nat → β) (p n : Nat) : List β := (List.range n).map fun i => m (p + i)

section

variable {m : Nat → β} {p : Nat} {cells : List β}

@[simp] theorem store_nil : store m p [] = m := by
  funext a
  simp [store]

/-- Writes do not reach below their address. -/
theorem store_of_lt {a : Nat} (h : a < p) : store m p cells a = m a := by
  rw [store, if_neg (by omega)]

/-- Writes end with their last cell. -/
theorem store_of_le {a : Nat} (h : p + cells.length ≤ a) : store m p cells a = m a := by
  rw [store, if_pos (by omega), List.getD_eq_default _ _ (by omega)]

theorem store_of_outside {a : Nat} (h : p ≤ a → p + cells.length ≤ a) :
    store m p cells a = m a := by
  by_cases hp : p ≤ a
  · exact store_of_le (h hp)
  · exact store_of_lt (by omega)

theorem store_add {i : Nat} (h : i < cells.length) : store m p cells (p + i) = cells[i] := by
  rw [store, if_pos (by omega), Nat.add_sub_cancel_left, List.getD_eq_getElem _ _ h]

/-- Two writes, one after the other, are one. -/
theorem store_append (cells' : List β) :
    store m p (cells ++ cells') = store (store m p cells) (p + cells.length) cells' := by
  funext a
  by_cases hbelow : a < p + cells.length
  · rw [store_of_lt hbelow]
    by_cases hp : p ≤ a
    · rw [store, store, if_pos hp, if_pos hp, List.getD_append _ _ _ _ (by omega)]
    · rw [store_of_lt (by omega), store_of_lt (by omega)]
  · have ha : p ≤ a := by omega
    rw [store, if_pos ha, List.getD_append_right _ _ _ _ (by omega), store, if_pos (by omega),
      store_of_le (by omega), Nat.sub_sub]

/-- A write over one of the same length. -/
theorem store_store {cells' : List β} (h : cells.length = cells'.length) :
    store (store m p cells) p cells' = store m p cells' := by
  funext a
  by_cases hp : p ≤ a ∧ a < p + cells'.length
  · obtain ⟨i, rfl⟩ := Nat.exists_eq_add_of_le hp.1
    rw [store_add (by omega), store_add (by omega)]
  · rw [store_of_outside (by omega), store_of_outside (by omega), store_of_outside (by omega)]

end

/-! ### Reading -/

section

variable {m : Nat → β} {p : Nat} {cells : List β}

@[simp] theorem length_load (m : Nat → β) (p n : Nat) : (load m p n).length = n := by
  rw [load, List.length_map, List.length_range]

theorem getElem_load {n i : Nat} (h : i < (load m p n).length) : (load m p n)[i] = m (p + i) := by
  simp [load]

/-- What is read depends on the cells read only. -/
theorem load_congr {m' : Nat → β} {n : Nat} (h : ∀ a, p ≤ a → a < p + n → m a = m' a) :
    load m p n = load m' p n := by
  refine List.map_congr_left fun i hi => ?_
  have hlt := List.mem_range.mp hi
  exact h (p + i) (by omega) (by omega)

theorem load_add (m : Nat → β) (p a b : Nat) :
    load m p (a + b) = load m p a ++ load m (p + a) b := by
  rw [load, List.range_add, List.map_append, List.map_map]
  congr 1
  refine List.map_congr_left fun i _ => ?_
  rw [Function.comp_apply, ← Nat.add_assoc]

/-- A write is read back. -/
theorem load_store : load (store m p cells) p cells.length = cells := by
  refine List.ext_getElem (length_load _ _ _) fun i hi hi' => ?_
  rw [getElem_load, store_add hi']

theorem load_store_append (cells' : List β) :
    load (store m p (cells ++ cells')) p cells.length = cells := by
  rw [store_append]
  exact (load_congr fun a _ ha => store_of_lt ha).trans load_store

/-- A read over a place that has been written. -/
theorem load_store_within {k n : Nat} (h : k + cells.length ≤ n) :
    load (store m (p + k) cells) p n =
      load m p k ++ (cells ++ load m (p + k + cells.length) (n - (k + cells.length))) := by
  have hn : n = k + (cells.length + (n - (k + cells.length))) := by omega
  nth_rewrite 1 [hn]
  rw [load_add, load_add, load_store]
  congr 1
  · exact load_congr fun a _ ha => store_of_lt ha
  · congr 1
    exact load_congr fun a ha _ => store_of_le ha

/-- Writing what is there. -/
theorem store_eq_self (h : load m p cells.length = cells) : store m p cells = m := by
  funext a
  by_cases hp : p ≤ a ∧ a < p + cells.length
  · obtain ⟨i, rfl⟩ := Nat.exists_eq_add_of_le hp.1
    have hi : i < cells.length := by omega
    have hcell := getElem_load (m := m) (p := p) (n := cells.length) (i := i) (by simpa using hi)
    rw [store_add hi, ← hcell]
    simp only [h]
  · exact store_of_outside (by omega)

end

end CLabs.Lib
