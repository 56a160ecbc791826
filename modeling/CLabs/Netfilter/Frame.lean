import CLabs.Netfilter.Hooks

/-!
# CLabs.Netfilter.Frame

**What `hook_func_out` changes.** It means to replace `irr` at the start of a payload by
`ale`, and to change nothing else but the TOS byte and the checksums. It uses functions for
strings: `strncmp` compares three bytes also where the payload has one or two, and `strcpy`
writes a NUL after the three letters.
-/

namespace CLabs.Netfilter

open CLabs.Lib

/-- The payload starts with `irr`. -/
def PayloadStarts (m : Nat → UInt8) : Prop :=
  payloadAt m + 3 ≤ totLen m 0 ∧ load m (payloadAt m) 3 = ascii "irr"

/-- The places that the filter means to change. -/
def Meant (m : Nat → UInt8) (a : Nat) : Prop :=
  a = 1 ∨ (a = 10 ∨ a = 11) ∨ (a = tcpAt m + 16 ∨ a = tcpAt m + 17) ∨
    (PayloadStarts m ∧ payloadAt m ≤ a ∧ a < payloadAt m + 3)

/-- Nothing else is changed, and the letters are replaced. -/
structure RewritesOnly (m m' : Nat → UInt8) : Prop where
  frame : ∀ a, ¬ Meant m a → m' a = m a
  replaced : PayloadStarts m → load m' (payloadAt m) 3 = ascii "ale"

section

variable {skb : SkBuff}

theorem payloadAt_ge {m : Nat → UInt8} (hdoff : 5 ≤ doff m (tcpAt m)) :
    tcpAt m + 20 ≤ payloadAt m := by
  have hpayload : payloadAt m = tcpAt m + doff m (tcpAt m) * 4 := rfl
  omega

/-- The checksums and the TOS byte are before the payload. -/
theorem rewritePacket_of_ge (h : TcpPacket skb) (hdoff : 5 ≤ doff skb.mem (tcpAt skb.mem))
    {a : Nat} (ha : payloadAt skb.mem ≤ a) :
    (rewritePacket skb (tcpAt skb.mem) (payloadAt skb.mem)).mem a =
      rewritePayload skb.mem (payloadAt skb.mem) a := by
  have htcp := h.tcpAt_ge
  have hpayload := payloadAt_ge hdoff
  exact rewritePacket_of_ne h.atHeader (by omega) (by omega) (by omega)

theorem not_meant_of_ge (h : TcpPacket skb) (hdoff : 5 ≤ doff skb.mem (tcpAt skb.mem)) {a : Nat}
    (ha : payloadAt skb.mem ≤ a) (hnot : PayloadStarts skb.mem → payloadAt skb.mem + 3 ≤ a) :
    ¬ Meant skb.mem a := by
  have htcp := h.tcpAt_ge
  have hpayload := payloadAt_ge hdoff
  rintro (h1 | h2 | h3 | ⟨hstarts, -, hlt⟩)
  · omega
  · omega
  · omega
  · have hge := hnot hstarts
    omega

/-- Elsewhere only the payload is rewritten. -/
theorem rewritePacket_of_not_meant (h : TcpPacket skb) {a : Nat} (ha : ¬ Meant skb.mem a) :
    (rewritePacket skb (tcpAt skb.mem) (payloadAt skb.mem)).mem a =
      rewritePayload skb.mem (payloadAt skb.mem) a := by
  unfold Meant at ha
  simp only [not_or] at ha
  exact rewritePacket_of_ne h.atHeader ha.1 ha.2.1 ha.2.2.1

/-- Without `irr` in the memory at the payload nothing is replaced. -/
theorem rewritesOnly_of_ne (h : TcpPacket skb)
    (hirr : load skb.mem (payloadAt skb.mem) 3 ≠ ascii "irr") :
    RewritesOnly skb.mem (rewritePacket skb (tcpAt skb.mem) (payloadAt skb.mem)).mem where
  frame := by
    intro a ha
    rw [rewritePacket_of_not_meant h ha, rewritePayload_eq, if_neg hirr]
  replaced := fun hstarts => absurd hstarts.2 hirr

/-- With `irr` at the start of the payload and a NUL after it only the letters are replaced. -/
theorem rewritesOnly_of_eq (h : TcpPacket skb) (hdoff : 5 ≤ doff skb.mem (tcpAt skb.mem))
    (hstarts : PayloadStarts skb.mem) (hnul : skb.mem (payloadAt skb.mem + 3) = 0) :
    RewritesOnly skb.mem (rewritePacket skb (tcpAt skb.mem) (payloadAt skb.mem)).mem where
  frame := by
    intro a ha
    rw [rewritePacket_of_not_meant h ha, rewritePayload_eq, if_pos hstarts.2]
    have hout : ¬ (payloadAt skb.mem ≤ a ∧ a < payloadAt skb.mem + 3) := fun hin =>
      ha (Or.inr (Or.inr (Or.inr ⟨hstarts, hin⟩)))
    by_cases heq : a = payloadAt skb.mem + 3
    · -- the NUL falls on a NUL
      rw [heq, hnul]
      exact store_add (i := 3) (by decide)
    · have hlen : (ascii "ale" ++ [0]).length = 4 := by decide
      exact store_of_outside (by omega)
  replaced := by
    intro _
    have hmem : load (rewritePacket skb (tcpAt skb.mem) (payloadAt skb.mem)).mem
        (payloadAt skb.mem) 3 = load (rewritePayload skb.mem (payloadAt skb.mem))
          (payloadAt skb.mem) 3 :=
      load_congr fun a ha _ => rewritePacket_of_ge h hdoff ha
    rw [hmem, rewritePayload_eq, if_pos hstarts.2]
    exact load_store_append [0]

/-- A rewrite of anything else is not meant. -/
theorem not_rewritesOnly (h : TcpPacket skb) (hdoff : 5 ≤ doff skb.mem (tcpAt skb.mem))
    (hirr : load skb.mem (payloadAt skb.mem) 3 = ascii "irr")
    (hbad : ¬ (payloadAt skb.mem + 3 ≤ totLen skb.mem 0 ∧ skb.mem (payloadAt skb.mem + 3) = 0)) :
    ¬ RewritesOnly skb.mem (rewritePacket skb (tcpAt skb.mem) (payloadAt skb.mem)).mem := by
  intro hrewrites
  by_cases hwhole : payloadAt skb.mem + 3 ≤ totLen skb.mem 0
  · -- the byte after the letters has become a NUL
    have hframe := hrewrites.frame (payloadAt skb.mem + 3)
      (not_meant_of_ge h hdoff (by omega) fun _ => le_rfl)
    rw [rewritePacket_of_ge h hdoff (by omega), rewritePayload_eq, if_pos hirr] at hframe
    refine hbad ⟨hwhole, hframe.symm.trans ?_⟩
    exact store_add (i := 3) (by decide)
  · -- the payload is shorter than what was compared
    have hframe := hrewrites.frame (payloadAt skb.mem)
      (not_meant_of_ge h hdoff le_rfl fun hstarts => absurd hstarts.1 hwhole)
    rw [rewritePacket_of_ge h hdoff le_rfl, rewritePayload_eq, if_pos hirr] at hframe
    have hnew : store skb.mem (payloadAt skb.mem) (ascii "ale" ++ [0]) (payloadAt skb.mem) = 97 :=
      store_add (i := 0) (by decide)
    have hold : skb.mem (payloadAt skb.mem) = 105 := (List.cons.inj hirr).1
    rw [hnew, hold] at hframe
    exact absurd hframe (by decide)

end

/-- **When the filter changes only what it means to.** Exactly if the three bytes at the
payload are not `irr`, or all three are of the payload and the byte after them is a NUL. -/
theorem rewrites_only_iff {skb : SkBuff} (h : TcpPacket skb) (hfilter : ToFilter skb)
    (hdoff : 5 ≤ doff skb.mem (tcpAt skb.mem)) :
    (∃ skb', hookFuncOut skb = some (.accept, skb') ∧ RewritesOnly skb.mem skb'.mem) ↔
      (load skb.mem (payloadAt skb.mem) 3 = ascii "irr" →
        payloadAt skb.mem + 3 ≤ totLen skb.mem 0 ∧ skb.mem (payloadAt skb.mem + 3) = 0) := by
  rw [hookFuncOut_eq h hfilter]
  constructor
  · rintro ⟨skb', heq, hrewrites⟩ hirr
    by_contra hbad
    obtain rfl := (Prod.mk.inj (Option.some.inj heq)).2
    exact not_rewritesOnly h hdoff hirr hbad hrewrites
  · intro hsafe
    refine ⟨_, rfl, ?_⟩
    by_cases hirr : load skb.mem (payloadAt skb.mem) 3 = ascii "irr"
    · obtain ⟨hwhole, hnul⟩ := hsafe hirr
      exact rewritesOnly_of_eq h hdoff ⟨hwhole, hirr⟩ hnul
    · exact rewritesOnly_of_ne h hirr

/-! ### Packets -/

/-- A packet from `10.0.0.1:12345` to `10.0.0.2:8888` with headers of 20 bytes, and what is
in memory after it. -/
def samplePacket (payload after : List UInt8) : SkBuff where
  mem := fun a =>
    ([0x45, 0, 0, UInt8.ofNat (40 + payload.length), 0, 0, 0, 0, 64, 6, 0, 0,
        10, 0, 0, 1, 10, 0, 0, 2] ++
      [0x30, 0x39, 0x22, 0xB8, 0, 0, 0, 1, 0, 0, 0, 0, 0x50, 0x18, 0xFF, 0xFF, 0, 0, 0, 0] ++
      payload ++ after).getD a 0
  networkHeader := 0
  len := 40 + payload.length
  frags := []
  tailroom := 0

/-- A payload that is not meant. -/
theorem rewrites_only_iff_ok :
    ∃ skb', hookFuncOut (samplePacket (ascii "ok") []) = some (.accept, skb') ∧
      RewritesOnly (samplePacket (ascii "ok") []).mem skb'.mem :=
  (rewrites_only_iff ⟨rfl, rfl, by decide, by decide⟩ ⟨by decide, by decide⟩ (by decide)).mpr
    (by decide)

/-- `irrx` loses its last letter, and of the payload `i` the letter is changed if `rr` comes
after the packet. -/
theorem irrx_overwritten :
    (∃ skb', hookFuncOut (samplePacket (ascii "irrx") []) = some (.accept, skb') ∧
      (samplePacket (ascii "irrx") []).mem 43 = 120 ∧ skb'.mem 43 = 0 ∧
        ¬ RewritesOnly (samplePacket (ascii "irrx") []).mem skb'.mem) ∧
    ∃ skb', hookFuncOut (samplePacket (ascii "i") (ascii "rr")) = some (.accept, skb') ∧
      (samplePacket (ascii "i") (ascii "rr")).mem 40 = 105 ∧ skb'.mem 40 = 97 := by
  refine ⟨⟨_, hookFuncOut_eq ⟨rfl, rfl, by decide, by decide⟩ ⟨by decide, by decide⟩, by decide,
    by decide, ?_⟩, ⟨_, hookFuncOut_eq ⟨rfl, rfl, by decide, by decide⟩ ⟨by decide, by decide⟩,
    by decide, by decide⟩⟩
  exact not_rewritesOnly ⟨rfl, rfl, by decide, by decide⟩ (by decide) (by decide) (by decide)

end CLabs.Netfilter
