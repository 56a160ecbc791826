import Mathlib.Data.List.Infix
import Mathlib.Data.List.TakeWhile
import Mathlib.Tactic

/-!
# CLabs.Lib.CString

**Strings in buffers.** A buffer is the list of its bytes. A C string in it is what comes
before the first NUL, and `vsnprintf` is given by what it writes for a formatted text: as
much of the text as there is room for, then a NUL; it returns the length of the whole text.
-/

namespace CLabs.Lib

/-- A text as bytes. -/
def ascii (s : String) : List UInt8 := s.toList.map fun c => UInt8.ofNat c.toNat

/-- The C string at the start of a buffer. -/
def cstr (buf : List UInt8) : List UInt8 := buf.takeWhile (· != 0)

/-- Write at the start of a buffer. -/
def overwrite (buf bytes : List UInt8) : List UInt8 := bytes ++ buf.drop bytes.length

/-- `vsnprintf(buf, size, ...)` of arguments that print as `text`. -/
def vsnprintf (buf : List UInt8) (size : Nat) (text : List UInt8) : List UInt8 × Int :=
  (if size = 0 then buf else overwrite buf (text.take (size - 1) ++ [0]), text.length)

/-! ### Reading back -/

theorem cstr_append {text : List UInt8} (h : 0 ∉ text) (rest : List UInt8) :
    cstr (text ++ rest) = text ++ cstr rest := by
  refine List.takeWhile_append_of_pos fun c hc => ?_
  exact bne_iff_ne.mpr fun hzero => h (hzero ▸ hc)

@[simp] theorem cstr_zero (rest : List UInt8) : cstr (0 :: rest) = [] := rfl

/-- A string ends where its NUL is. -/
theorem cstr_append_zero {text : List UInt8} (h : 0 ∉ text) (rest : List UInt8) :
    cstr (text ++ 0 :: rest) = text := by
  rw [cstr_append h, cstr_zero, List.append_nil]

/-- What `vsnprintf` leaves in the buffer, as a string. -/
theorem cstr_vsnprintf {text : List UInt8} (h : 0 ∉ text) (buf : List UInt8) {size : Nat}
    (hsize : 0 < size) : cstr (vsnprintf buf size text).1 = text.take (size - 1) := by
  have hzero : 0 ∉ text.take (size - 1) := fun hmem => h (List.mem_of_mem_take hmem)
  rw [vsnprintf, if_neg (by omega), overwrite, List.append_assoc]
  exact cstr_append_zero hzero _

/-! ### Overwriting

What is read from a buffer of which only the beginning has been written: a NUL has to come
from what was there before. -/

/-- A buffer that holds the empty string. The byte after the buffer is a NUL. -/
def StartsNul (bytes : List UInt8) : Prop := bytes.headD 0 = 0

theorem startsNul_iff {bytes : List UInt8} : StartsNul bytes ↔ cstr bytes = [] := by
  cases bytes with
  | nil => exact iff_of_true rfl rfl
  | cons c bytes =>
      rw [StartsNul, List.headD_cons, cstr, List.takeWhile_eq_nil_iff]
      simp

/-- A buffer is its string and what comes from the NUL on. -/
theorem exists_cstr_append (bytes : List UInt8) :
    ∃ rest, bytes = cstr bytes ++ rest ∧ StartsNul rest := by
  refine ⟨bytes.dropWhile (· != 0), (List.takeWhile_append_dropWhile ..).symm, ?_⟩
  cases hrest : bytes.dropWhile (· != 0) with
  | nil => rfl
  | cons c rest =>
      have hnul := List.head?_dropWhile_not (· != 0) bytes
      rw [hrest] at hnul
      simpa [StartsNul] using hnul

theorem zero_notMem_cstr (bytes : List UInt8) : 0 ∉ cstr bytes := by
  intro hmem
  exact absurd (List.mem_takeWhile_imp hmem) (by decide)

/-- The string read is empty iff a NUL comes first. -/
theorem cstr_overwrite_eq_nil_iff {buf written : List UInt8} :
    cstr (overwrite buf written) = [] ↔
      (written = [] ∧ StartsNul buf) ∨ written.head? = some 0 := by
  rw [← startsNul_iff, overwrite]
  cases written with
  | nil => simp
  | cons c written => simp [StartsNul]

/-- The string read is `out` iff the buffer goes on with what is missing of it and a NUL. -/
theorem cstr_overwrite_eq_iff {buf written out : List UInt8} (hwritten : written <+: out) :
    cstr (overwrite buf written) = out ↔
      0 ∉ out ∧ ∃ rest, buf.drop written.length = out.drop written.length ++ rest ∧
        StartsNul rest := by
  obtain ⟨missing, rfl⟩ := hwritten
  rw [overwrite, List.drop_left]
  constructor
  · intro h
    obtain ⟨rest, hrest, hnul⟩ := exists_cstr_append (written ++ buf.drop written.length)
    rw [h, List.append_assoc] at hrest
    exact ⟨h ▸ zero_notMem_cstr _, rest, List.append_cancel_left hrest, hnul⟩
  · rintro ⟨hzero, rest, hbuf, hnul⟩
    rw [hbuf, ← List.append_assoc, cstr_append hzero, startsNul_iff.mp hnul, List.append_nil]

/-! ### Parts of a text -/

/-- A part of a text that starts with its first `c` is in a prefix of it only if the prefix is
long enough. -/
theorem infix_take_iff {before part : List UInt8} {c : UInt8} (hbefore : c ∉ before)
    (hpart : part.head? = some c) {n : Nat} :
    part <:+: (before ++ part).take n ↔ (before ++ part).length ≤ n := by
  constructor
  · rintro ⟨s, t, hsplit⟩
    obtain ⟨rest, rfl⟩ := List.head?_eq_some_iff.mp hpart
    -- the first character of the part is not in `before`
    have hle : before.length ≤ s.length := by
      by_contra hlt
      have hstart : s ++ [c] <+: before ++ c :: rest :=
        List.IsPrefix.trans ⟨rest ++ t, by rw [← hsplit]; simp⟩ (List.take_prefix n _)
      have hin : s ++ [c] <+: before :=
        List.prefix_of_prefix_length_le hstart (List.prefix_append _ _) (by simp; omega)
      exact hbefore (hin.subset (by simp))
    have hlen := congrArg List.length hsplit
    simp only [List.length_append, List.length_take] at hlen ⊢
    omega
  · intro h
    rw [List.take_of_length_le h]
    exact (List.suffix_append before part).isInfix

end CLabs.Lib
