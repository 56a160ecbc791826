import CLabs.Sniffer.Sessions

/-!
# CLabs.Sniffer.Ids

**Ids identify connections.** The sniffer's table is keyed by the text `get_id` makes of
the endpoints, the follower's by the endpoints themselves. The text is a sequence of
decimal fields, each but the last followed by a character that is not a digit. So the
fields can be read back one after the other (`decimal_append_cons_inj`), and two streams
of the follower have two ids.
-/

namespace CLabs.Sniffer

open CLabs.Lib CLabs.Tcp

/-! ### Fields

A field that does not contain the separator after it can be read back. -/

theorem append_cons_inj {field field' : StdString} {sep : UInt8} (h : sep ∉ field)
    (h' : sep ∉ field') {s t : StdString} :
    field ++ sep :: s = field' ++ sep :: t ↔ field = field' ∧ s = t := by
  induction field generalizing field' with
  | nil =>
      cases field' with
      | nil => simp
      | cons c field' =>
          -- the separator would be the first character of the other field
          refine iff_of_false (fun heq => ?_) (by simp)
          exact h' ((List.cons.inj heq).1 ▸ List.mem_cons_self)
  | cons c field ih =>
      cases field' with
      | nil =>
          refine iff_of_false (fun heq => ?_) (by simp)
          exact h ((List.cons.inj heq).1 ▸ List.mem_cons_self)
      | cons c' field' =>
          have hrest := ih (fun hmem => h (List.mem_cons_of_mem c hmem))
            (fun hmem => h' (List.mem_cons_of_mem c' hmem))
          simp only [List.cons_append, List.cons.injEq, hrest, and_assoc]

/-! ### Decimal fields -/

/-- The characters of a decimal field. -/
def IsDigit (c : UInt8) : Prop := 48 ≤ c ∧ c ≤ 57

instance instDecidableIsDigit (c : UInt8) : Decidable (IsDigit c) :=
  inferInstanceAs (Decidable (_ ∧ _))

theorem toNat_of_isDigit {c : Char} (h : c.isDigit = true) : 48 ≤ c.toNat ∧ c.toNat ≤ 57 := by
  rw [Char.isDigit, Bool.and_eq_true, decide_eq_true_eq, decide_eq_true_eq, ge_iff_le,
    UInt32.le_iff_toNat_le, UInt32.le_iff_toNat_le] at h
  exact h

theorem isDigit_of_mem_decimal {n : Nat} {c : UInt8} (h : c ∈ decimal n) : IsDigit c := by
  obtain ⟨d, hd, rfl⟩ := List.mem_map.mp h
  have hbounds := toNat_of_isDigit (Nat.isDigit_of_mem_toDigits (by omega) (by omega) hd)
  rw [IsDigit, UInt8.le_iff_toNat_le, UInt8.le_iff_toNat_le,
    UInt8.toNat_ofNat_of_lt' (by unfold UInt8.size; omega)]
  exact hbounds

/-- The digits of a field as characters again. -/
theorem map_decimal (n : Nat) :
    ((decimal n).map fun c => Char.ofNat c.toNat) = Nat.toDigits 10 n := by
  rw [decimal, List.map_map]
  refine (List.map_congr_left fun d hd => ?_).trans (List.map_id _)
  have hbounds := toNat_of_isDigit (Nat.isDigit_of_mem_toDigits (by omega) (by omega) hd)
  rw [Function.comp_apply, UInt8.toNat_ofNat_of_lt' (by unfold UInt8.size; omega), Char.ofNat_toNat]
  rfl

/-- Printing in decimal is injective. -/
theorem decimal_injective {m n : Nat} (h : decimal m = decimal n) : m = n := by
  rw [← Nat.ofDigitChars_ten_toDigits (n := m), ← Nat.ofDigitChars_ten_toDigits (n := n),
    ← map_decimal, ← map_decimal, h]

/-- A field followed by a separator can be read back. -/
theorem decimal_append_cons_inj {m n : Nat} {sep : UInt8} (hsep : ¬ IsDigit sep)
    {s t : StdString} : decimal m ++ sep :: s = decimal n ++ sep :: t ↔ m = n ∧ s = t := by
  have hnot : ∀ k, sep ∉ decimal k := fun k hmem => hsep (isDigit_of_mem_decimal hmem)
  rw [append_cons_inj (hnot m) (hnot n)]
  constructor
  · rintro ⟨hfield, hrest⟩
    exact ⟨decimal_injective hfield, hrest⟩
  · rintro ⟨rfl, rfl⟩
    exact ⟨rfl, rfl⟩

/-! ### Addresses -/

/-- An address followed by a separator can be read back. -/
theorem addrToString_append_cons_inj {a b : UInt32} {sep : UInt8} (hsep : ¬ IsDigit sep)
    {s t : StdString} :
    addrToString a ++ sep :: s = addrToString b ++ sep :: t ↔ a = b ∧ s = t := by
  have hdot : ¬ IsDigit 46 := by decide
  have hlit : lit "." = [46] := by decide
  simp only [addrToString, hlit, List.append_assoc, List.cons_append, List.nil_append,
    decimal_append_cons_inj hdot, decimal_append_cons_inj hsep]
  constructor
  · rintro ⟨h3, h2, h1, h0, hrest⟩
    refine ⟨UInt32.toNat_inj.mp ?_, hrest⟩
    have ha := a.toNat_lt
    have hb := b.toNat_lt
    omega
  · rintro ⟨rfl, rfl⟩
    exact ⟨rfl, rfl, rfl, rfl, rfl⟩

/-! ### Ids -/

/-- **`get_id` is injective.** -/
theorem getId_injective {info info' : StreamInfo} (h : getId info = getId info') : info = info' := by
  have hcolon : ¬ IsDigit 58 := by decide
  have hbar : ¬ IsDigit 124 := by decide
  have hlit : lit ":" = [58] ∧ lit "|" = [124] := by decide
  simp only [getId, hlit.1, hlit.2, List.append_assoc, List.cons_append, List.nil_append,
    addrToString_append_cons_inj hcolon, decimal_append_cons_inj hbar] at h
  obtain ⟨hclient, hcport, hserver, hsport⟩ := h
  obtain ⟨clientAddr, serverAddr, clientPort, serverPort⟩ := info
  obtain ⟨clientAddr', serverAddr', clientPort', serverPort'⟩ := info'
  obtain rfl : clientAddr = clientAddr' := hclient
  obtain rfl : serverAddr = serverAddr' := hserver
  obtain rfl : clientPort = clientPort' := UInt16.toNat_inj.mp hcport
  obtain rfl : serverPort = serverPort' := UInt16.toNat_inj.mp (decimal_injective hsport)
  rfl

/-- **Ids identify connections.** Two connections with one id have the same endpoints, and
of the streams that the follower keeps at a time no two have one id. -/
theorem ids_identify (env : Env) :
    (∀ info info' : StreamInfo, getId info = getId info' →
      info.clientAddr = info'.clientAddr ∧ info.clientPort = info'.clientPort ∧
        info.serverAddr = info'.serverAddr ∧ info.serverPort = info'.serverPort) ∧
    ∀ (inputs : List Input) (key key' : StreamInfo) (stream stream' : TCPCapStream),
      (inputs.foldl (System.step env) System.init).follower.sessions.find? key = some stream →
      (inputs.foldl (System.step env) System.init).follower.sessions.find? key' = some stream' →
      key ≠ key' → getId stream.info ≠ getId stream'.info := by
  constructor
  · intro info info' h
    obtain rfl := getId_injective h
    exact ⟨rfl, rfl, rfl, rfl⟩
  · intro inputs key key' stream stream' hstream hstream' hne hid
    have hwf := (System.Tracked.run env inputs).wf
    have hinfo := getId_injective hid
    rw [hwf.info_eq key stream hstream, hwf.info_eq key' stream' hstream'] at hinfo
    exact hne (StreamInfo.swap_injective hinfo)

/-- Two ports of the client `1` connect to the server `2:80`. -/
def twoConnections : List Input :=
  [.packet ⟨some ⟨1, 2⟩, some ⟨5000, 80, 99, 0, 0x02, none⟩⟩ 0,
    .packet ⟨some ⟨1, 2⟩, some ⟨5001, 80, 7, 0, 0x02, none⟩⟩ 0]

/-- Both are kept, under two ids. -/
theorem ids_identify_twoConnections :
    ∃ stream stream',
      (twoConnections.foldl (System.step sampleEnv) System.init).follower.sessions.find?
          ⟨2, 1, 80, 5000⟩ = some stream ∧
        (twoConnections.foldl (System.step sampleEnv) System.init).follower.sessions.find?
            ⟨2, 1, 80, 5001⟩ = some stream' ∧
          getId stream.info ≠ getId stream'.info :=
  ⟨_, _, rfl, rfl, (ids_identify sampleEnv).2 twoConnections ⟨2, 1, 80, 5000⟩ ⟨2, 1, 80, 5001⟩ _ _
    rfl rfl (by decide)⟩

end CLabs.Sniffer
