import Mathlib.Data.Nat.Notation
import Mathlib.Logic.Function.Basic

/-!
# CLabs.Lib.Probing

**Open addressing without removal.** A table is a function from slots to entries, and each key
has a path through the slots. The search for a key follows its path up to the first slot that
is empty or holds the key (`EndsAt`), and a new key is stored where its search ends.

The paths of different keys may cross in any way. What keeps the table usable is that every
entry lies where the search for its key ends (`Findable`). Storing keeps this, because it only
fills slots: a slot that did not end a search before does not end it later. A findable table is
a map from keys to entries (`Represents`), and a search ends at the entry of its key, or at an
empty slot if there is none.
-/

namespace CLabs.Lib

/-- How entries are looked for: their keys, and the slots that are tried for a key. -/
structure Probing (K E ι : Type*) where
  key : E → K
  path : K → ℕ → ι

namespace Probing

variable {K E ι : Type*} (P : Probing K E ι)

/-- The slot is empty or holds the key. -/
def Stops (t : ι → Option E) (k : K) (i : ι) : Prop := ∀ entry, t i = some entry → P.key entry = k

/-- The search for the key ends at the slot. -/
def EndsAt (t : ι → Option E) (k : K) (i : ι) : Prop :=
  ∃ n, P.path k n = i ∧ P.Stops t k i ∧ ∀ m < n, ¬ P.Stops t k (P.path k m)

/-- Every entry lies where the search for its key ends. -/
def Findable (t : ι → Option E) : Prop :=
  ∀ i entry, t i = some entry → P.EndsAt t (P.key entry) i

/-- The table holds the entries of a map, and they can be found. -/
structure Represents (t : ι → Option E) (m : K → Option E) : Prop where
  findable : P.Findable t
  content : ∀ k entry, m k = some entry ↔ P.key entry = k ∧ ∃ i, t i = some entry

variable {P} {t : ι → Option E} {m : K → Option E} {k k' : K} {i j : ι} {entry : E}

theorem EndsAt.unique (hi : P.EndsAt t k i) (hj : P.EndsAt t k j) : i = j := by
  obtain ⟨n, rfl, hstops, hbefore⟩ := hi
  obtain ⟨n', rfl, hstops', hbefore'⟩ := hj
  rcases Nat.lt_trichotomy n n' with hlt | rfl | hlt
  · exact absurd hstops (hbefore' n hlt)
  · rfl
  · exact absurd hstops' (hbefore n' hlt)

theorem EndsAt.key_eq (hi : P.EndsAt t k i) (hentry : t i = some entry) : P.key entry = k := by
  obtain ⟨n, -, hstops, -⟩ := hi
  exact hstops entry hentry

/-! ### Storing in an empty slot -/

theorem ne_of_occupied (hempty : t i = none) (hentry : t j = some entry) : j ≠ i := by
  rintro rfl
  rw [hempty] at hentry
  exact absurd hentry (by simp)

section

variable [DecidableEq ι] {new : E} (hempty : t i = none)

include hempty

/-- A slot that does not end a search is occupied, so it is not the one that is filled. -/
theorem not_stops_store (h : ¬ P.Stops t k j) : ¬ P.Stops (Function.update t i (some new)) k j := by
  simp only [Stops, not_forall] at h ⊢
  obtain ⟨entry, hentry, hkey⟩ := h
  exact ⟨entry, by rwa [Function.update_of_ne (ne_of_occupied hempty hentry)], hkey⟩

theorem EndsAt.store (h : P.EndsAt t k j)
    (hstops : P.Stops (Function.update t i (some new)) k j) :
    P.EndsAt (Function.update t i (some new)) k j := by
  obtain ⟨n, hpath, -, hbefore⟩ := h
  exact ⟨n, hpath, hstops, fun m hm => not_stops_store hempty (hbefore m hm)⟩

theorem EndsAt.store_self (h : P.EndsAt t (P.key new) i) :
    P.EndsAt (Function.update t i (some new)) (P.key new) i := by
  refine h.store hempty fun entry hentry => ?_
  rw [Function.update_self] at hentry
  rw [Option.some.inj hentry]

theorem EndsAt.store_of_occupied (h : P.EndsAt t k j) (hentry : t j = some entry) :
    P.EndsAt (Function.update t i (some new)) k j := by
  refine h.store hempty fun entry' hentry' => ?_
  rw [Function.update_of_ne (ne_of_occupied hempty hentry)] at hentry'
  exact h.key_eq hentry'

theorem Findable.store (h : P.Findable t) (hend : P.EndsAt t (P.key new) i) :
    P.Findable (Function.update t i (some new)) := by
  intro j entry hentry
  by_cases hj : j = i
  · subst hj
    rw [Function.update_self] at hentry
    rw [← Option.some.inj hentry]
    exact hend.store_self hempty
  · rw [Function.update_of_ne hj] at hentry
    exact (h j entry hentry).store_of_occupied hempty hentry

end

/-! ### Tables as maps -/

namespace Represents

theorem empty : P.Represents (fun _ => none) fun _ => none :=
  ⟨fun i entry hentry => absurd hentry (by simp), fun k entry => by simp⟩

/-- The search for a key of the map ends at its entry. -/
theorem endsAt (h : P.Represents t m) (hk : m k = some entry) :
    ∃ i, P.EndsAt t k i ∧ t i = some entry := by
  obtain ⟨rfl, i, hi⟩ := (h.content k entry).mp hk
  exact ⟨i, h.findable i entry hi, hi⟩

/-- What the search for a key finds is its entry in the map. -/
theorem lookup (h : P.Represents t m) (hend : P.EndsAt t k i) : m k = t i := by
  cases hentry : t i with
  | some entry => exact (h.content k entry).mpr ⟨hend.key_eq hentry, i, hentry⟩
  | none =>
      rw [Option.eq_none_iff_forall_ne_some]
      intro entry hk
      obtain ⟨j, hj, hjentry⟩ := h.endsAt hk
      rw [← hend.unique hj, hentry] at hjentry
      exact absurd hjentry (by simp)

theorem store [DecidableEq ι] [DecidableEq K] {new : E} (h : P.Represents t m)
    (hend : P.EndsAt t (P.key new) i) (hempty : t i = none) :
    P.Represents (Function.update t i (some new)) (Function.update m (P.key new) (some new)) := by
  refine ⟨h.findable.store hempty hend, fun k entry => ?_⟩
  by_cases hk : k = P.key new
  · subst hk
    have habsent : m (P.key new) = none := (h.lookup hend).trans hempty
    rw [Function.update_self]
    constructor
    · intro hentry
      obtain rfl := Option.some.inj hentry
      exact ⟨rfl, i, Function.update_self _ _ _⟩
    · rintro ⟨hkey, j, hj⟩
      by_cases hji : j = i
      · rwa [hji, Function.update_self] at hj
      · rw [Function.update_of_ne hji] at hj
        have := (h.content _ entry).mpr ⟨hkey, j, hj⟩
        rw [habsent] at this
        exact absurd this (by simp)
  · rw [Function.update_of_ne hk, h.content]
    refine and_congr_right fun hkey => ⟨?_, ?_⟩
    · rintro ⟨j, hj⟩
      exact ⟨j, by rwa [Function.update_of_ne (ne_of_occupied hempty hj)]⟩
    · rintro ⟨j, hj⟩
      by_cases hji : j = i
      · rw [hji, Function.update_self] at hj
        rw [← hkey, ← Option.some.inj hj] at hk
        exact absurd rfl hk
      · exact ⟨j, by rwa [Function.update_of_ne hji] at hj⟩

end Represents

end Probing

end CLabs.Lib
