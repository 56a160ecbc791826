import CLabs.Lib.CString

/-!
# CLabs.Srt.Convert

`toutf8` of `srt.cc`: replace the content of a file by its conversion to UTF-8.

* `iconv` is given by what it makes of a content: the characters it finds, each as the bytes
  it is in UTF-8, and whether it could read all of the content. It writes them one by one as
  long as the next one fits. `iconv_open` may fail, and `iconv` then writes nothing.
* `dst` is an array on the stack that nothing initialises, and its end is no end for the
  `std::string` made of it: that reads on to the first NUL. `stack` is what the memory from
  `dst` on holds, as far as the scan may come; the byte after it is a NUL.
* Reading and writing a file succeed.
-/

namespace CLabs.Srt

open CLabs.Lib

/-! ### Files -/

/-- The contents of the files, by name. -/
abbrev Files := List UInt8 → List UInt8

/-- `read_file`. -/
def readFile (fs : Files) (file : List UInt8) : List UInt8 := fs file

/-- `write_file`. -/
def writeFile (fs : Files) (file content : List UInt8) : Files := Function.update fs file content

/-! ### `iconv` -/

/-- What a converter makes of a content. -/
structure Conversion where
  /-- The characters it finds, in UTF-8. -/
  chars : List (List UInt8)
  /-- It does not stop at a byte that it cannot read. -/
  complete : Bool

/-- `iconv_open("UTF-8//TRANSLIT", charset)`, with the converter it gives if it does not fail. -/
abbrev IconvOpen := List UInt8 → Option (List UInt8 → Conversion)

/-- Write characters as long as there is room. -/
def fill : List (List UInt8) → Nat → List UInt8
  | [], _ => []
  | c :: cs, room => if c.length ≤ room then c ++ fill cs (room - c.length) else []

/-- `iconv`: what it writes, and whether it returns without an error. -/
def iconv (conv : Option (List UInt8 → Conversion)) (src : List UInt8) (dstlen : Nat) :
    List UInt8 × Bool :=
  match conv with
  | none => ([], false)
  | some convert =>
      (fill (convert src).chars dstlen,
        (convert src).complete && (convert src).chars.flatten.length ≤ dstlen)

/-- `out` is the complete conversion of a content. -/
def Converts (iconvOpen : IconvOpen) (charset content out : List UInt8) : Prop :=
  ∃ convert, iconvOpen charset = some convert ∧ (convert content).complete = true ∧
    out = (convert content).chars.flatten

/-! ### `toutf8` -/

section

variable (iconvOpen : IconvOpen) (stack : List UInt8)

/-- What `iconv` puts into `dst`. -/
def converted (charset content : List UInt8) : List UInt8 :=
  -- the error is not looked at
  (iconv (iconvOpen charset) content (content.length * 2)).1

/-- `toutf8`. -/
def toutf8 (fs : Files) (file charset : List UInt8) : Bool × Files :=
  let content := readFile fs file
  let dst := overwrite stack (converted iconvOpen charset content)
  let out := cstr dst
  if out.length > 0 then (true, writeFile fs file out) else (false, fs)

/-- All or nothing: the file has its complete conversion, or it is as it was. -/
def AllOrNothing (fs : Files) (file charset : List UInt8) : Prop :=
  ((toutf8 iconvOpen stack fs file charset).1 = true →
    Converts iconvOpen charset (fs file) ((toutf8 iconvOpen stack fs file charset).2 file)) ∧
  ((toutf8 iconvOpen stack fs file charset).1 = false →
    (toutf8 iconvOpen stack fs file charset).2 = fs)

/-- What the stack must hold for `toutf8` to be right on a content: a NUL at its start, if
nothing is converted; or, after what is converted, the rest of the complete conversion and a
NUL. (For a conversion that fits, the rest is empty.) The other case is a conversion that
itself starts with a NUL. -/
def StackSuits (charset content : List UInt8) : Prop :=
  (converted iconvOpen charset content = [] ∧ StartsNul stack) ∨
  (converted iconvOpen charset content).head? = some 0 ∨
  ∃ out rest, Converts iconvOpen charset content out ∧ 0 ∉ out ∧
    stack.drop (converted iconvOpen charset content).length =
      out.drop (converted iconvOpen charset content).length ++ rest ∧
    StartsNul rest

end

/-- `toutf8` leaves the files alone or writes something into this one. -/
theorem toutf8_cases (iconvOpen : IconvOpen) (stack : List UInt8) (fs : Files)
    (file charset : List UInt8) :
    toutf8 iconvOpen stack fs file charset = (false, fs) ∨
      ∃ out, toutf8 iconvOpen stack fs file charset = (true, writeFile fs file out) := by
  unfold toutf8
  dsimp only
  split_ifs
  · exact Or.inr ⟨_, rfl⟩
  · exact Or.inl rfl

/-! ### Buffers -/

theorem fill_isPrefix (chars : List (List UInt8)) (room : Nat) :
    fill chars room <+: chars.flatten := by
  induction chars generalizing room with
  | nil => exact List.prefix_rfl
  | cons c cs ih =>
      rw [fill]
      split_ifs
      · exact (List.prefix_append_right_inj c).mpr (ih _)
      · exact List.nil_prefix

/-- What is converted is the beginning of the complete conversion. -/
theorem converted_isPrefix {iconvOpen : IconvOpen} {charset content out : List UInt8}
    (h : Converts iconvOpen charset content out) : converted iconvOpen charset content <+: out := by
  obtain ⟨convert, hopen, -, rfl⟩ := h
  rw [converted, hopen]
  exact fill_isPrefix _ _

/-! ### When it is all or nothing -/

section

variable {iconvOpen : IconvOpen} {stack : List UInt8}

theorem allOrNothing_iff_cstr {fs : Files} {file charset : List UInt8} :
    AllOrNothing iconvOpen stack fs file charset ↔
      cstr (overwrite stack (converted iconvOpen charset (fs file))) = [] ∨
        Converts iconvOpen charset (fs file)
          (cstr (overwrite stack (converted iconvOpen charset (fs file)))) := by
  unfold AllOrNothing toutf8 readFile
  dsimp only
  generalize cstr (overwrite stack (converted iconvOpen charset (fs file))) = out
  by_cases hout : out = []
  · rw [if_neg (by simp [hout])]
    simp [hout]
  · rw [if_pos (List.length_pos_iff.mpr hout)]
    simp [hout, writeFile]

end

/-- **When `toutf8` is all or nothing.** -/
theorem toutf8_allOrNothing_iff (iconvOpen : IconvOpen) (stack : List UInt8) (fs : Files)
    (file charset : List UInt8) :
    AllOrNothing iconvOpen stack fs file charset ↔ StackSuits iconvOpen stack charset (fs file) := by
  rw [allOrNothing_iff_cstr, cstr_overwrite_eq_nil_iff, StackSuits, or_assoc]
  refine or_congr_right (or_congr_right ?_)
  constructor
  · intro h
    obtain ⟨hzero, rest, hstack, hnul⟩ := (cstr_overwrite_eq_iff (converted_isPrefix h)).mp rfl
    exact ⟨_, rest, h, hzero, hstack, hnul⟩
  · rintro ⟨out, rest, hconverts, hzero, hstack, hnul⟩
    have hout := (cstr_overwrite_eq_iff (converted_isPrefix hconverts)).mpr ⟨hzero, rest, hstack, hnul⟩
    exact hout ▸ hconverts

/-! ### Contents that come out wrong -/

/-- The UTF-8 form of a byte of `windows-1252`, for ASCII and the euro sign. -/
def windows1252Char (c : UInt8) : Option (List UInt8) :=
  if c < 128 then some [c] else if c = 128 then some [0xE2, 0x82, 0xAC] else none

/-- An `iconv` that knows one charset, as far as `windows1252Char` does. -/
def sampleIconv : IconvOpen := fun charset =>
  if charset = ascii "windows-1252" then
    some fun content =>
      ⟨(content.map windows1252Char).reduceOption, (content.map windows1252Char).all Option.isSome⟩
  else none

/-- Two euro signs do not fit: over a stack of NULs one of them is written, and `true`
returned. A charset that `iconv` does not know turns the file into what the stack holds. -/
theorem toutf8_loses_content :
    ((toutf8 sampleIconv [] (fun _ => [128, 128]) (ascii "a.srt") (ascii "windows-1252")).1 = true ∧
      (toutf8 sampleIconv [] (fun _ => [128, 128]) (ascii "a.srt") (ascii "windows-1252")).2
        (ascii "a.srt") = [0xE2, 0x82, 0xAC] ∧
      ¬ AllOrNothing sampleIconv [] (fun _ => [128, 128]) (ascii "a.srt")
        (ascii "windows-1252")) ∧
    ((toutf8 sampleIconv (ascii "stale") (fun _ => [65]) (ascii "a.srt") (ascii "binary")).1 = true ∧
      (toutf8 sampleIconv (ascii "stale") (fun _ => [65]) (ascii "a.srt") (ascii "binary")).2
        (ascii "a.srt") = ascii "stale") := by
  refine ⟨⟨by decide, by decide, fun h => ?_⟩, by decide, by decide⟩
  obtain ⟨convert, hopen, -, hout⟩ := h.1 (by decide)
  obtain rfl := Option.some.inj hopen
  exact absurd hout (by decide)

end CLabs.Srt
