import CLabs.Lib.CString
import CLabs.Lib.Loop

/-!
# CLabs.Server.StringFormat

`string_format` of `server.hpp`, which `rclient.cc` has as a member of `hello_world`.

It prints into a `std::string` that it has resized to the room there is, and returns that
string when the text fits. The string keeps the size of the room: after the text there is
the NUL of `vsnprintf` and what `resize` has filled in.
-/

namespace CLabs.Server

open CLabs.Lib

/-- `str.resize(size)`. -/
def resize (str : List UInt8) (size : Nat) : List UInt8 :=
  str.take size ++ List.replicate (size - str.length) 0

/-- The variables of the loop. -/
structure Attempt where
  size : Nat
  str : List UInt8
  deriving Repr, DecidableEq

/-- One round, for arguments that print as `text`. -/
def attempt (text : List UInt8) (a : Attempt) : ForInStep Attempt :=
  let printed := vsnprintf (resize a.str a.size) a.size text
  let n := printed.2
  if n > -1 ∧ n < a.size then .done { a with str := printed.1 }
  else .yield ⟨if n > -1 then (n + 1).toNat else a.size * 2, printed.1⟩

/-- `string_format`, for so many rounds at most. -/
def stringFormat (rounds : Nat) (text : List UInt8) : Option (List UInt8) :=
  (runLoop (attempt text) rounds ⟨256, []⟩).map Attempt.str

/-! ### Rounds -/

theorem length_resize (str : List UInt8) (size : Nat) : (resize str size).length = size := by
  rw [resize, List.length_append, List.length_take, List.length_replicate]
  omega

/-- A round with room for the text and its NUL is the last. -/
theorem attempt_of_lt {text : List UInt8} {a : Attempt} (h : text.length < a.size) :
    attempt text a =
      .done { a with str := text ++ 0 :: (resize a.str a.size).drop (text.length + 1) } := by
  have htake : text.take (a.size - 1) = text := List.take_of_length_le (by omega)
  have hfits : ((text.length : Int) > -1 ∧ (text.length : Int) < a.size) := by omega
  unfold attempt vsnprintf
  dsimp only
  rw [if_pos hfits, if_neg (by omega), htake, overwrite, List.length_append, List.append_assoc]
  rfl

/-- A round without asks for that room. -/
theorem attempt_of_le {text : List UInt8} {a : Attempt} (h : a.size ≤ text.length) :
    ∃ str, attempt text a = .yield ⟨text.length + 1, str⟩ := by
  have hnot : ¬ ((text.length : Int) > -1 ∧ (text.length : Int) < a.size) := by omega
  unfold attempt vsnprintf
  dsimp only
  rw [if_neg hnot, if_pos (by omega)]
  exact ⟨_, rfl⟩

/-- **What `string_format` returns.** The text, filled with NULs to 256 bytes or to one byte
more than the text; two rounds are enough. -/
theorem stringFormat_eq (text : List UInt8) :
    stringFormat 2 text =
      some (text ++ List.replicate (max 256 (text.length + 1) - text.length) 0) := by
  unfold stringFormat
  by_cases h : text.length < 256
  · have hfill : (resize [] 256).drop (text.length + 1) =
        List.replicate (255 - text.length) 0 := by
      rw [resize, List.take_nil, List.nil_append, List.length_nil, List.drop_replicate]
      congr 1
      omega
    rw [runLoop, attempt_of_lt h]
    show some (text ++ 0 :: (resize [] 256).drop (text.length + 1)) = _
    rw [hfill, ← List.replicate_succ]
    congr 3
    omega
  · obtain ⟨str, hfirst⟩ := @attempt_of_le text ⟨256, []⟩ (by simpa using h)
    have hrest : (resize str (text.length + 1)).drop (text.length + 1) = [] := by
      rw [List.drop_eq_nil_iff, length_resize]
    rw [runLoop, hfirst]
    dsimp only
    rw [runLoop, attempt_of_lt (by simp)]
    show some (text ++ 0 :: (resize str (text.length + 1)).drop (text.length + 1)) = _
    rw [hrest, show max 256 (text.length + 1) - text.length = 1 by omega]
    rfl

/-- **`string_format` never returns the text.** Its loop ends, and there is at least one NUL
after the text. -/
theorem stringFormat_ne (text : List UInt8) :
    (∃ rounds, stringFormat rounds text =
      some (text ++ List.replicate (max 256 (text.length + 1) - text.length) 0)) ∧
    ¬ ∃ rounds, stringFormat rounds text = some text := by
  refine ⟨⟨2, stringFormat_eq text⟩, ?_⟩
  rintro ⟨rounds, h⟩
  obtain ⟨r, hr, rfl⟩ := Option.map_eq_some_iff.mp h
  obtain ⟨r', hr', hstr⟩ := Option.map_eq_some_iff.mp (stringFormat_eq r.str)
  obtain rfl := runLoop_inj hr hr'
  have hlen := congrArg List.length hstr
  rw [List.length_append, List.length_replicate] at hlen
  omega

/-- `ok` comes back with 254 NULs after it. -/
theorem stringFormat_ok :
    stringFormat 2 (ascii "ok") = some (ascii "ok" ++ List.replicate 254 0) ∧
      stringFormat 2 (ascii "ok") ≠ some (ascii "ok") := by
  have hok : stringFormat 2 (ascii "ok") = some (ascii "ok" ++ List.replicate 254 0) :=
    stringFormat_eq (ascii "ok")
  refine ⟨hok, fun h => ?_⟩
  have hlen := congrArg List.length (Option.some.inj (hok.symm.trans h))
  rw [List.length_append, List.length_replicate] at hlen
  omega

end CLabs.Server
