import Mathlib.Tactic

/-!
# CLabs.Lib.TextEdit

**Editing a text.** `removeMatches` removes all matches of a pattern from a text, from left
to right: at each position that is not inside an earlier match, the pattern is given by how
many characters it matches there, and what it does not match is kept.

`LineAt` says that a text has a given line between a given beginning and a given end.
-/

namespace CLabs.Lib

variable {α : Type*}

/-! ### Removing matches -/

/-- `removeMatches`, with so many characters of a match still to be passed over. -/
def removeFrom (length : List α → Nat) : Nat → List α → List α
  | _, [] => []
  | skip + 1, _ :: s => removeFrom length skip s
  | 0, c :: s =>
      match length (c :: s) with
      | 0 => c :: removeFrom length 0 s
      | n + 1 => removeFrom length n s

/-- The text without the matches of a pattern; `length` is the number of characters that it
matches at the start of a text, 0 if it does not match there. -/
def removeMatches (length : List α → Nat) (s : List α) : List α := removeFrom length 0 s

section

variable {length : List α → Nat}

theorem removeFrom_eq (n : Nat) (s : List α) :
    removeFrom length n s = removeMatches length (s.drop n) := by
  induction s generalizing n with
  | nil => cases n <;> rfl
  | cons c s ih =>
      cases n with
      | zero => rfl
      | succ n => exact ih n

@[simp] theorem removeMatches_nil : removeMatches length [] = [] := rfl

/-- A character at which there is no match is kept. -/
theorem removeMatches_cons {c : α} {s : List α} (h : length (c :: s) = 0) :
    removeMatches length (c :: s) = c :: removeMatches length s := by
  rw [removeMatches, removeFrom, h]
  rfl

/-- A match is removed. -/
theorem removeMatches_append {found s : List α} (hne : found ≠ [])
    (h : length (found ++ s) = found.length) :
    removeMatches length (found ++ s) = removeMatches length s := by
  cases found with
  | nil => exact absurd rfl hne
  | cons c found =>
      have hlength : length (c :: (found ++ s)) = found.length + 1 := h
      rw [List.cons_append, removeMatches, removeFrom, hlength]
      show removeFrom length found.length (found ++ s) = _
      rw [removeFrom_eq, List.drop_left]

/-- **Removing matches twice.** If no match is made by removing what comes after, nothing is
left to be removed. -/
theorem removeMatches_idem
    (h : ∀ c s, length (c :: s) = 0 → length (c :: removeMatches length s) = 0) (s : List α) :
    removeMatches length (removeMatches length s) = removeMatches length s := by
  have hfrom : ∀ n, removeMatches length (removeFrom length n s) = removeFrom length n s := by
    induction s with
    | nil => exact fun n => by cases n <;> rfl
    | cons c s ih =>
        intro n
        cases n with
        | succ n => exact ih n
        | zero =>
            rw [removeFrom]
            cases hlength : length (c :: s) with
            | zero =>
                have hnone : length (c :: removeFrom length 0 s) = 0 := h c s hlength
                dsimp only
                rw [removeMatches_cons hnone, ih 0]
            | succ n => exact ih n
  exact hfrom 0

end

/-! ### Lines -/

/-- `l` is a line of `s`, with `before` before it and `after` after it; `nl` ends a line. -/
structure LineAt (nl : α) (s before l after : List α) : Prop where
  text : s = before ++ (l ++ after)
  starts : before = [] ∨ ∃ t, before = t ++ [nl]
  ends : after = [] ∨ ∃ t, after = nl :: t
  single : nl ∉ l

/-- `l` is a line of `s`. -/
def IsLine (nl : α) (s l : List α) : Prop := ∃ before after, LineAt nl s before l after

theorem IsLine.isInfix {nl : α} {s l : List α} (h : IsLine nl s l) : l <:+: s := by
  obtain ⟨before, after, hline⟩ := h
  exact ⟨before, after, by rw [hline.text, List.append_assoc]⟩

end CLabs.Lib
