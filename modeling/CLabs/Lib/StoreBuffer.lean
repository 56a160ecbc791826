import Mathlib.Tactic

/-!
# CLabs.Lib.StoreBuffer

**Total store order**: a memory with one store buffer per thread. A store goes to the end of the
buffer of its thread and to the memory at some later time, when the buffer is flushed from its
front; a load sees the memory as it would be with the thread's own buffer flushed.

Writes and flushes of a thread do not change what it sees except for the variable that is written
(`read_write_self`, `read_flush_self`). The memory changes only at variables for which a store is
pending (`mem_flush_of_not_pending`), and what another thread sees changes with it (`drain_congr`);
so invariants are kept by naming the variables that each buffer may hold.
-/

namespace CLabs.Lib

variable {τ κ ν : Type*} [DecidableEq τ] [DecidableEq κ]

/-- The memory with the stores of a buffer done, oldest first. -/
def drain (mem : κ → ν) (buf : List (κ × ν)) : κ → ν :=
  buf.foldl (fun mem e => Function.update mem e.1 e.2) mem

theorem drain_append (mem : κ → ν) (buf : List (κ × ν)) (k : κ) (v : ν) :
    drain mem (buf ++ [(k, v)]) = Function.update (drain mem buf) k v := by
  rw [drain, List.foldl_append]
  rfl

/-- A buffer does to a variable what it does to it in any memory that agrees there. -/
theorem drain_congr {mem mem' : κ → ν} {k : κ} (h : mem k = mem' k) (buf : List (κ × ν)) :
    drain mem buf k = drain mem' buf k := by
  induction buf generalizing mem mem' with
  | nil => exact h
  | cons e buf ih =>
      refine ih ?_
      dsimp only
      by_cases hk : k = e.1
      · subst hk
        rw [Function.update_self, Function.update_self]
      · rw [Function.update_of_ne hk, Function.update_of_ne hk, h]

/-- A memory and the buffers of the threads, with the oldest store first. -/
@[ext] structure Tso (τ κ ν : Type*) where
  mem : κ → ν
  buf : τ → List (κ × ν)

namespace Tso

variable {m m' : Tso τ κ ν} {t t' : τ} {k k' : κ} {v : ν}

/-- What the thread `t` loads from `k`. -/
def read (m : Tso τ κ ν) (t : τ) (k : κ) : ν := drain m.mem (m.buf t) k

/-- The thread `t` stores `v` in `k`. -/
def write (m : Tso τ κ ν) (t : τ) (k : κ) (v : ν) : Tso τ κ ν :=
  { m with buf := Function.update m.buf t (m.buf t ++ [(k, v)]) }

/-- The oldest store of the thread `t` reaches the memory, if there is one. -/
def flush (m : Tso τ κ ν) (t : τ) : Option (Tso τ κ ν) :=
  match m.buf t with
  | [] => none
  | (k, v) :: rest => some ⟨Function.update m.mem k v, Function.update m.buf t rest⟩

/-- The thread `t` has a store to `k` in its buffer. -/
def Pending (m : Tso τ κ ν) (t : τ) (k : κ) : Prop := ∃ v, (k, v) ∈ m.buf t

omit [DecidableEq τ] in
theorem read_of_buf_nil (h : m.buf t = []) : m.read t = m.mem := by
  funext k
  rw [read, h]
  rfl

omit [DecidableEq τ] [DecidableEq κ] in
theorem buf_eq_nil_iff : m.buf t = [] ↔ ∀ k, ¬ m.Pending t k := by
  constructor
  · intro h k ⟨v, hv⟩
    rw [h] at hv
    exact absurd hv List.not_mem_nil
  · intro h
    refine List.eq_nil_iff_forall_not_mem.mpr fun e he => h e.1 ⟨e.2, he⟩

theorem flush_isSome_iff : (m.flush t).isSome ↔ m.buf t ≠ [] := by
  unfold flush
  split
  next h => simp [h]
  next h => simp [h]

/-! ### Stores -/

omit [DecidableEq κ] in
@[simp] theorem mem_write : (m.write t k v).mem = m.mem := rfl

omit [DecidableEq κ] in
theorem buf_write_self : (m.write t k v).buf t = m.buf t ++ [(k, v)] :=
  Function.update_self _ _ _

omit [DecidableEq κ] in
theorem buf_write_of_ne (h : t' ≠ t) : (m.write t k v).buf t' = m.buf t' :=
  Function.update_of_ne h _ _

theorem read_write_self : (m.write t k v).read t = Function.update (m.read t) k v := by
  funext k'
  rw [read, buf_write_self, mem_write, drain_append]
  rfl

omit [DecidableEq κ] in
theorem pending_write : (m.write t k v).Pending t' k' ↔ m.Pending t' k' ∨ t' = t ∧ k' = k := by
  by_cases ht : t' = t
  · subst ht
    simp only [Pending, buf_write_self, List.mem_append, List.mem_singleton, Prod.mk.injEq,
      true_and, exists_or, exists_and_left, exists_eq, and_true]
  · simp only [Pending, buf_write_of_ne ht, ht, false_and, or_false]

/-! ### Flushes -/

theorem flush_eq_some_iff :
    m.flush t = some m' ↔
      ∃ k v rest, m.buf t = (k, v) :: rest ∧
        m' = ⟨Function.update m.mem k v, Function.update m.buf t rest⟩ := by
  unfold flush
  split
  next h => simp [h]
  next k v rest h =>
    rw [Option.some.injEq]
    constructor
    · intro heq
      exact ⟨k, v, rest, h, heq.symm⟩
    · rintro ⟨k', v', rest', h', rfl⟩
      obtain ⟨hkv, rfl⟩ := List.cons.inj (h.symm.trans h')
      obtain ⟨rfl, rfl⟩ := Prod.mk.inj hkv
      rfl

theorem buf_flush_of_ne (h : m.flush t = some m') (ht : t' ≠ t) : m'.buf t' = m.buf t' := by
  obtain ⟨k, v, rest, -, rfl⟩ := flush_eq_some_iff.mp h
  exact Function.update_of_ne ht _ _

theorem length_buf_flush (h : m.flush t = some m') : (m'.buf t).length + 1 = (m.buf t).length := by
  obtain ⟨k, v, rest, hbuf, rfl⟩ := flush_eq_some_iff.mp h
  dsimp only
  rw [hbuf, Function.update_self, List.length_cons]

theorem Pending.of_flush (h : m.flush t = some m') (hp : m'.Pending t' k) : m.Pending t' k := by
  by_cases ht : t' = t
  · subst ht
    obtain ⟨k', v, rest, hbuf, rfl⟩ := flush_eq_some_iff.mp h
    obtain ⟨v', hv'⟩ := hp
    refine ⟨v', ?_⟩
    dsimp only at hv'
    rw [Function.update_self] at hv'
    rw [hbuf]
    exact List.mem_cons_of_mem _ hv'
  · rwa [Pending, buf_flush_of_ne h ht] at hp

theorem buf_flush_of_nil (h : m.flush t = some m') (hbuf : m.buf t' = []) : m'.buf t' = [] :=
  buf_eq_nil_iff.mpr fun k hp => buf_eq_nil_iff.mp hbuf k (hp.of_flush h)

theorem read_flush_self (h : m.flush t = some m') : m'.read t = m.read t := by
  obtain ⟨k, v, rest, hbuf, rfl⟩ := flush_eq_some_iff.mp h
  funext k'
  rw [read, read, hbuf]
  dsimp only
  rw [Function.update_self]
  rfl

theorem mem_flush_of_not_pending (h : m.flush t = some m') (hp : ¬ m.Pending t k) :
    m'.mem k = m.mem k := by
  obtain ⟨k', v, rest, hbuf, rfl⟩ := flush_eq_some_iff.mp h
  refine Function.update_of_ne ?_ _ _
  rintro rfl
  exact hp ⟨v, by rw [hbuf]; exact List.mem_cons_self⟩

end Tso

end CLabs.Lib
