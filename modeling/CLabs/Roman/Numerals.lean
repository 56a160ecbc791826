import CLabs.Lib.CString
import CLabs.Lib.Greedy
import Mathlib.Data.List.Sort

/-!
# CLabs.Roman.Numerals

The conversion to Roman numerals in `main` of `test.cc`, and how its numerals read.

The table has a string for each digit of each decade, and the loop takes them from the
largest down. So a numeral is one string for each digit of the number, after an `M` for
every thousand (`numeral_eq`), and its value is the sum of theirs, because no string starts
with a symbol larger than the last one before it (`value_append`). The string for 8 is the
one for 7.
-/

namespace CLabs.Roman

open CLabs.Lib

/-! ### The conversion -/

/-- `mr`, in the order of its keys. -/
def mr : List (UInt32 × List UInt8) :=
  [(1, ascii "I"), (2, ascii "II"), (3, ascii "III"), (4, ascii "IV"), (5, ascii "V"),
    (6, ascii "VI"), (7, ascii "VII"), (8, ascii "VII"), (9, ascii "IX"), (10, ascii "X"),
    (20, ascii "XX"), (30, ascii "XXX"), (40, ascii "XL"), (50, ascii "L"), (60, ascii "LX"),
    (70, ascii "LXX"), (80, ascii "LXXX"), (90, ascii "XC"),
    (100, ascii "C"), (200, ascii "CC"), (300, ascii "CCC"), (400, ascii "CD"),
    (500, ascii "D"), (600, ascii "DC"), (700, ascii "DCC"), (800, ascii "DCCC"),
    (900, ascii "CM"), (1000, ascii "M")]

/-- `mr[d]`; a key that is not there gets the empty string. -/
def entry (d : UInt32) : List UInt8 := (mr.lookup d).getD []

/-- `vd`: the keys, sorted from the largest down. -/
def vd : List UInt32 := (mr.map Prod.fst).insertionSort (· > ·)

/-- One round of the loop over `vd`: what is left of the number, and the strings pushed. -/
def round (s : UInt32 × List (List UInt8)) (d : UInt32) : UInt32 × List (List UInt8) :=
  let a := s.1 / d
  let x := s.2 ++ List.replicate a.toNat (entry d)
  if a > 0 then (s.1 - a * d, x) else (s.1, x)

/-- The strings pushed for `n`, as they are printed. -/
def numeral (n : UInt32) : List UInt8 := (vd.foldl round (n, [])).2.flatten

/-! ### Reading a numeral -/

/-- The value of a symbol. -/
def symbolValue (c : UInt8) : Int :=
  if c = 73 then 1 else if c = 86 then 5 else if c = 88 then 10 else if c = 76 then 50
  else if c = 67 then 100 else if c = 68 then 500 else if c = 77 then 1000 else 0

/-- The value of a numeral: a symbol before a larger one is subtracted, otherwise added. -/
def value : List UInt8 → Int
  | [] => 0
  | [c] => symbolValue c
  | c :: d :: s =>
      if symbolValue c < symbolValue d then value (d :: s) - symbolValue c
      else symbolValue c + value (d :: s)

theorem value_cons_cons (c d : UInt8) (s : List UInt8) : value (c :: d :: s) =
    if symbolValue c < symbolValue d then value (d :: s) - symbolValue c
    else symbolValue c + value (d :: s) := by
  rw [value]

/-- The first symbol is at most `bound`. -/
def StartsBelow (bound : Int) (s : List UInt8) : Prop := ∀ c ∈ s.head?, symbolValue c ≤ bound

/-- All symbols are at least `bound`. -/
def Above (bound : Int) (s : List UInt8) : Prop := ∀ c ∈ s, bound ≤ symbolValue c

instance (bound : Int) (s : List UInt8) : Decidable (StartsBelow bound s) :=
  Option.decidableForallMem s.head?

instance (bound : Int) (s : List UInt8) : Decidable (Above bound s) :=
  List.decidableBAll (fun c => bound ≤ symbolValue c) s

theorem StartsBelow.append {bound : Int} {s t : List UInt8} (hs : StartsBelow bound s)
    (ht : StartsBelow bound t) : StartsBelow bound (s ++ t) := by
  cases s with
  | nil => exact ht
  | cons c s => exact hs

theorem StartsBelow.mono {bound bound' : Int} {s : List UInt8} (h : StartsBelow bound s)
    (hle : bound ≤ bound') : StartsBelow bound' s :=
  fun c hc => (h c hc).trans hle

/-- **Values add up.** -/
theorem value_append {bound : Int} {s t : List UInt8} (hs : Above bound s)
    (ht : StartsBelow bound t) : value (s ++ t) = value s + value t := by
  induction s with
  | nil => rw [List.nil_append, value, Int.zero_add]
  | cons c s ih =>
      have hrest := ih fun d hd => hs d (List.mem_cons_of_mem c hd)
      cases s with
      | nil =>
          cases t with
          | nil => rw [List.append_nil, value, value, Int.add_zero]
          | cons d t =>
              -- the last symbol before `t` is not subtracted
              have hle : symbolValue d ≤ symbolValue c :=
                (ht d rfl).trans (hs c List.mem_cons_self)
              show value (c :: d :: t) = value [c] + value (d :: t)
              rw [value_cons_cons, if_neg (not_lt.mpr hle), value]
      | cons d s =>
          have hrest' : value (d :: (s ++ t)) = value (d :: s) + value t := hrest
          show value (c :: d :: (s ++ t)) = value (c :: d :: s) + value t
          rw [value_cons_cons, value_cons_cons, hrest']
          split_ifs
          · omega
          · omega

/-! ### The loop -/

theorem round_eq (v : UInt32) (x : List (List UInt8)) (d : UInt32) :
    round (v, x) d = (v % d, x ++ List.replicate (v.toNat / d.toNat) (entry d)) := by
  have hdiv : (v / d).toNat = v.toNat / d.toNat := UInt32.toNat_div v d
  have hrest : v - v / d * d = v % d := by
    have hle : v.toNat / d.toNat * d.toNat ≤ v.toNat := Nat.div_mul_le_self _ _
    have hmul : (v / d * d).toNat = v.toNat / d.toNat * d.toNat := by
      rw [UInt32.toNat_mul, hdiv]
      exact Nat.mod_eq_of_lt (hle.trans_lt v.toNat_lt)
    apply UInt32.toNat_inj.mp
    rw [UInt32.toNat_sub_of_le _ _ (UInt32.le_iff_toNat_le.mpr (hmul ▸ hle)), hmul,
      UInt32.toNat_mod]
    have hsum := Nat.div_add_mod' v.toNat d.toNat
    omega
  unfold round
  simp only [hdiv]
  split_ifs with h
  · rw [hrest]
  · -- nothing was taken, and the number is its own remainder
    have hzero : v / d = 0 := by
      rw [gt_iff_lt, UInt32.lt_iff_toNat_lt] at h
      apply UInt32.toNat_inj.mp
      exact Nat.eq_zero_of_not_pos h
    rw [← hrest, hzero, UInt32.zero_mul, UInt32.sub_zero]

/-- The strings the loop pushes are those of the coins paid out. -/
theorem foldl_round (ds : List UInt32) (v : UInt32) (x : List (List UInt8)) :
    (ds.foldl round (v, x)).2
      = x ++ (greedy (ds.map UInt32.toNat) v.toNat).map (fun d => entry (UInt32.ofNat d)) := by
  induction ds generalizing v x with
  | nil => simp [greedy]
  | cons d ds ih => simp [round_eq, ih, greedy]

theorem vd_eq : vd.map UInt32.toNat
    = 1000 :: (multiples 100 9 ++ (multiples 10 9 ++ (multiples 1 9 ++ []))) := by
  decide

/-- The string for `k` units of `b`. -/
def piece (b k : Nat) : List UInt8 :=
  ((coin b k).map fun d => entry (UInt32.ofNat d)).flatten

/-- **A numeral, digit by digit.** -/
theorem numeral_eq (n : UInt32) : numeral n =
    (List.replicate (n.toNat / 1000) (ascii "M")).flatten
      ++ (piece 100 (n.toNat % 1000 / 100)
        ++ (piece 10 (n.toNat % 100 / 10) ++ piece 1 (n.toNat % 10))) := by
  have hthousand : n.toNat % 1000 < (9 + 1) * 100 := Nat.mod_lt _ (by decide)
  have hhundred : n.toNat % 1000 % 100 < (9 + 1) * 10 := Nat.mod_lt _ (by decide)
  have hten : n.toNat % 1000 % 100 % 10 < (9 + 1) * 1 := Nat.mod_lt _ (by decide)
  unfold numeral
  rw [foldl_round, vd_eq, greedy, greedy_multiples (by decide) hthousand,
    greedy_multiples (by decide) hhundred, greedy_multiples (by decide) hten]
  have h100 : n.toNat % 1000 % 100 = n.toNat % 100 := by omega
  have h10 : n.toNat % 100 % 10 = n.toNat % 10 := by omega
  have hentry : entry 1000 = ascii "M" := by decide
  simp [piece, greedy, h100, h10, hentry]

/-! ### The value of a numeral -/

/-- The value of the string for `k` units of `b`. -/
def pieceValue (b k : Nat) : Int := if b = 1 ∧ k = 8 then 7 else k * b

theorem piece_spec {b k : Nat} (hb : b ∈ [1, 10, 100]) (hk : k < 10) :
    value (piece b k) = pieceValue b k ∧ Above b (piece b k) ∧ StartsBelow (5 * b) (piece b k) := by
  revert k
  revert b
  decide

theorem startsBelow_thousands (q : Nat) {t : List UInt8} (ht : StartsBelow 1000 t) :
    StartsBelow 1000 ((List.replicate q (ascii "M")).flatten ++ t) := by
  induction q with
  | zero => exact ht
  | succ q ih =>
      rw [List.replicate_succ, List.flatten_cons, List.append_assoc]
      exact StartsBelow.append (by decide) ih

theorem value_thousands (q : Nat) {t : List UInt8} (ht : StartsBelow 1000 t) :
    value ((List.replicate q (ascii "M")).flatten ++ t) = 1000 * q + value t := by
  induction q with
  | zero => simp
  | succ q ih =>
      have hM : Above 1000 (ascii "M") := by decide
      have hvalue : value (ascii "M") = 1000 := by decide
      rw [List.replicate_succ, List.flatten_cons, List.append_assoc,
        value_append hM (startsBelow_thousands q ht), ih, hvalue]
      push_cast
      ring

/-- **The value of a numeral** is the number, but one less where the last digit is 8. -/
theorem value_numeral (n : UInt32) :
    value (numeral n) = n.toNat - if n.toNat % 10 = 8 then 1 else 0 := by
  obtain ⟨hvalue₁, -, hbelow₁⟩ :=
    piece_spec (b := 1) (k := n.toNat % 10) (by simp) (Nat.mod_lt _ (by decide))
  obtain ⟨hvalue₂, habove₂, hbelow₂⟩ :=
    piece_spec (b := 10) (k := n.toNat % 100 / 10) (by simp) (by omega)
  obtain ⟨hvalue₃, habove₃, hbelow₃⟩ :=
    piece_spec (b := 100) (k := n.toNat % 1000 / 100) (by simp) (by omega)
  -- no string starts above the strings before it
  have hstart₂ := hbelow₂.append (hbelow₁.mono (by decide))
  have hstart₃ := hbelow₃.append (hstart₂.mono (by decide))
  rw [numeral_eq, value_thousands _ (hstart₃.mono (by decide)),
    value_append habove₃ (hstart₂.mono (by decide)),
    value_append habove₂ (hbelow₁.mono (by decide)), hvalue₁, hvalue₂, hvalue₃]
  unfold pieceValue
  rw [if_neg (by simp), if_neg (by simp)]
  split_ifs <;> omega

/-! ### Whether a numeral says which number it is for -/

/-- The numeral of a number that ends in 8 is the one of the number before. -/
theorem numeral_eq_of_eight {n m : UInt32} (hn : n.toNat % 10 = 8)
    (hm : n.toNat = m.toNat + 1) : numeral n = numeral m := by
  have hm' : m.toNat % 10 = 7 := by omega
  have hthousands : n.toNat / 1000 = m.toNat / 1000 := by omega
  have hhundreds : n.toNat % 1000 / 100 = m.toNat % 1000 / 100 := by omega
  have htens : n.toNat % 100 / 10 = m.toNat % 100 / 10 := by omega
  have hsame : piece 1 8 = piece 1 7 := by decide
  rw [numeral_eq, numeral_eq m, hthousands, hhundreds, htens, hn, hm', hsame]

theorem eq_of_numeral_eq {n m : UInt32} (h₇ : n.toNat % 10 ≠ 7) (h₈ : n.toNat % 10 ≠ 8)
    (h : numeral n = numeral m) : n = m := by
  have hvalue : value (numeral n) = value (numeral m) := by rw [h]
  rw [value_numeral, value_numeral, if_neg h₈] at hvalue
  apply UInt32.toNat_inj.mp
  split_ifs at hvalue with hm
  · omega
  · omega

/-- **How faithful the numerals are.** A numeral reads as its number unless that ends in 8,
and belongs to no other number unless its number ends in 7 or 8. -/
theorem numeral_faithful_iff (n : UInt32) :
    (value (numeral n) = n.toNat ↔ n.toNat % 10 ≠ 8)
      ∧ ((∀ m, numeral n = numeral m → n = m) ↔ n.toNat % 10 ≠ 7 ∧ n.toNat % 10 ≠ 8) := by
  refine ⟨?_, ?_, ?_⟩
  · rw [value_numeral]
    split_ifs with h
    · simp [h]
    · simp [h]
  · intro hunique
    have hlt : n.toNat < 4294967296 := n.toNat_lt
    refine ⟨fun h₇ => ?_, fun h₈ => ?_⟩
    · -- the next number has the same numeral
      have hnext : (UInt32.ofNat (n.toNat + 1)).toNat = n.toNat + 1 :=
        UInt32.toNat_ofNat_of_lt' (by unfold UInt32.size; omega)
      have heq := hunique _ (numeral_eq_of_eight (by omega) hnext).symm
      have hnat : n.toNat = n.toNat + 1 := (congrArg UInt32.toNat heq).trans hnext
      omega
    · have hprev : (UInt32.ofNat (n.toNat - 1)).toNat = n.toNat - 1 :=
        UInt32.toNat_ofNat_of_lt' (by unfold UInt32.size; omega)
      have hsucc : n.toNat = (UInt32.ofNat (n.toNat - 1)).toNat + 1 := by omega
      have heq := hunique _ (numeral_eq_of_eight h₈ hsucc)
      have hnat : n.toNat = n.toNat - 1 := (congrArg UInt32.toNat heq).trans hprev
      omega
  · intro h m
    exact eq_of_numeral_eq h.1 h.2

/-- 8 is printed as `VII`, which reads as 7 and is printed for 7 as well. -/
theorem numeral_eight : numeral 8 = ascii "VII" ∧ value (numeral 8) = 7
    ∧ numeral 7 = numeral 8 := by
  rw [numeral_eq 8, numeral_eq 7]
  decide

end CLabs.Roman
