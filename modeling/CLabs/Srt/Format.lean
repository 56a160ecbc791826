import CLabs.Lib.CString
import CLabs.Lib.Memory

/-!
# CLabs.Srt.Format

`format` of `srt.cc` and the shell commands that `main` makes with it.

A text that does not fit in the first buffer is printed a second time into one that is large
enough, but the bound passed to `vsnprintf` is still the size of the first. So no text comes
out longer than 511 bytes.
-/

namespace CLabs.Srt

open CLabs.Lib

/-- `new char[size]`, for the block allocated as number `k`; `garbage` is what is in the
blocks. -/
def newChars (garbage : Nat → Nat → UInt8) (k size : Nat) : List UInt8 := load (garbage k) 0 size

/-- `format` of arguments that print as `text`. -/
def format (garbage : Nat → Nat → UInt8) (text : List UInt8) : List UInt8 :=
  let size := 512
  let printed := vsnprintf (newChars garbage 0 size) size text
  let nsize := printed.2
  let buffer :=
    if (size : Int) ≤ nsize then
      -- `size` where the new buffer has `nsize + 1`
      (vsnprintf (newChars garbage 1 (nsize + 1).toNat) size text).1
    else printed.1
  cstr buffer

/-- The text of the command that asks for the encoding. -/
def fileText (file : List UInt8) : List UInt8 :=
  ascii "file -bi " ++ (ascii "\"" ++ file ++ ascii "\"")

/-- The text of the command that tells the user. -/
def zenityText (file charset : List UInt8) : List UInt8 :=
  ascii "zenity --info --text=" ++
    (ascii "'Filename: " ++ file ++ ascii "\\nEncoding: [" ++ charset ++ ascii "]'")

/-- The command that `main` runs to learn the encoding. -/
def fileCommand (garbage : Nat → Nat → UInt8) (file : List UInt8) : List UInt8 :=
  format garbage (fileText file)

/-- The last command of `main`. -/
def zenityCommand (garbage : Nat → Nat → UInt8) (file charset : List UInt8) : List UInt8 :=
  format garbage (zenityText file charset)

/-! ### Truncation -/

/-- Whatever was in the buffers, the result is the start of the text. -/
theorem format_eq_take (garbage : Nat → Nat → UInt8) {text : List UInt8} (h : 0 ∉ text) :
    format garbage text = text.take 511 := by
  unfold format
  dsimp only
  split_ifs
  · exact cstr_vsnprintf h _ (by decide)
  · exact cstr_vsnprintf h _ (by decide)

theorem zero_notMem_fileText {file : List UInt8} (h : 0 ∉ file) : 0 ∉ fileText file := by
  have hlit : 0 ∉ ascii "file -bi " ∧ 0 ∉ ascii "\"" := by decide
  simp [fileText, hlit.1, hlit.2, h]

theorem zero_notMem_zenityText {file charset : List UInt8} (hfile : 0 ∉ file)
    (hcharset : 0 ∉ charset) : 0 ∉ zenityText file charset := by
  have hlit : 0 ∉ ascii "zenity --info --text=" ∧ 0 ∉ ascii "'Filename: " ∧
      0 ∉ ascii "\\nEncoding: [" ∧ 0 ∉ ascii "]'" := by decide
  simp [zenityText, hlit.1, hlit.2.1, hlit.2.2.1, hlit.2.2.2, hfile, hcharset]

theorem format_eq_self_iff (garbage : Nat → Nat → UInt8) {text : List UInt8} (h : 0 ∉ text) :
    format garbage text = text ↔ text.length < 512 := by
  rw [format_eq_take garbage h, List.take_eq_self_iff]
  omega

theorem quoted_fileCommand_iff (garbage : Nat → Nat → UInt8) {file : List UInt8} (h : 0 ∉ file) :
    ascii "\"" ++ file ++ ascii "\"" <:+: fileCommand garbage file ↔
      (fileText file).length < 512 := by
  -- no quote comes before the one that opens the name
  have hopen : 34 ∉ ascii "file -bi " := by decide
  rw [fileCommand, format_eq_take garbage (zero_notMem_fileText h), fileText,
    infix_take_iff hopen rfl]
  omega

theorem quoted_zenityCommand_iff (garbage : Nat → Nat → UInt8) {file charset : List UInt8}
    (hfile : 0 ∉ file) (hcharset : 0 ∉ charset) :
    ascii "'Filename: " ++ file ++ ascii "\\nEncoding: [" ++ charset ++ ascii "]'" <:+:
        zenityCommand garbage file charset ↔
      (zenityText file charset).length < 512 := by
  have hopen : 39 ∉ ascii "zenity --info --text=" := by decide
  rw [zenityCommand, format_eq_take garbage (zero_notMem_zenityText hfile hcharset), zenityText,
    infix_take_iff hopen rfl]
  omega

/-- **When `format` returns its text.** Exactly if the text has less than 512 bytes; and a
command has the whole file name between its quotes exactly if all of it has. -/
theorem format_whole_iff (garbage : Nat → Nat → UInt8) {text file charset : List UInt8}
    (htext : 0 ∉ text) (hfile : 0 ∉ file) (hcharset : 0 ∉ charset) :
    (format garbage text = text ↔ text.length < 512) ∧
    (ascii "\"" ++ file ++ ascii "\"" <:+: fileCommand garbage file ↔
      (fileText file).length < 512) ∧
    (ascii "'Filename: " ++ file ++ ascii "\\nEncoding: [" ++ charset ++ ascii "]'" <:+:
        zenityCommand garbage file charset ↔
      (zenityText file charset).length < 512) :=
  ⟨format_eq_self_iff garbage htext, quoted_fileCommand_iff garbage hfile,
    quoted_zenityCommand_iff garbage hfile hcharset⟩

/-- A short name is whole in its command. -/
theorem format_whole_iff_short :
    format (fun _ _ => 7) (ascii "ok") = ascii "ok" ∧
      ascii "\"" ++ ascii "a.srt" ++ ascii "\"" <:+: fileCommand (fun _ _ => 7) (ascii "a.srt") := by
  have h := @format_whole_iff (fun _ _ => 7) (ascii "ok") (ascii "a.srt") (ascii "utf-8")
    (by decide) (by decide) (by decide)
  exact ⟨h.1.mpr (by decide), h.2.1.mpr (by decide)⟩

/-- A name of 501 letters. -/
def longName : List UInt8 := List.replicate 501 97

theorem zero_notMem_longName : 0 ∉ longName :=
  fun h => absurd (List.eq_of_mem_replicate h) (by decide)

theorem length_fileText_longName : (fileText longName).length = 512 := by
  have hlit : (ascii "file -bi ").length = 9 ∧ (ascii "\"").length = 1 := by decide
  have hname : longName.length = 501 := List.length_replicate
  simp only [fileText, List.length_append, hlit.1, hlit.2, hname]

/-- Its command is cut before the closing quote. -/
theorem fileCommand_cut :
    format (fun _ _ => 7) (fileText longName) ≠ fileText longName ∧
      ¬ ascii "\"" ++ longName ++ ascii "\"" <:+: fileCommand (fun _ _ => 7) longName := by
  have hlen := length_fileText_longName
  refine ⟨?_, ?_⟩
  · rw [ne_eq, format_eq_self_iff _ (zero_notMem_fileText zero_notMem_longName)]
    omega
  · rw [quoted_fileCommand_iff _ zero_notMem_longName]
    omega

end CLabs.Srt
