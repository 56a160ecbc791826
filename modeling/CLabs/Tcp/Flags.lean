import CLabs.Tcp.Follower

/-!
# CLabs.Tcp.Flags

**Which flags matter.** A packet sequence is followed twice, the second time with other
`PSH`, `URG`, `ECE` and `CWR` bits. `callback` and `generic_process` test `SYN`, `ACK`,
`FIN` and `RST` one by one with `get_flag`, and none of them sees the difference
(`genericProcess_variant`). `update` however recognises the second packet of a
handshake by comparing the whole flags field with `SYN | ACK`, so there an unrelated bit
decides whether the connection is followed at all: the two runs agree as long as this
comparison comes out the same in both (`follow_variants`), and `follow_hidden` is a
connection that is lost by an `ECE` bit.
-/

namespace CLabs.Tcp

open CLabs.Lib

/-! ### Packets that differ in unrelated flags -/

/-- The flags for congestion and urgency. -/
def Flag.unrelated : List Flag := [.PSH, .URG, .ECE, .CWR]

/-- The segments differ in these flags only. -/
structure TCP.Variant (tcp tcp' : TCP) : Prop where
  header : tcp' = { tcp with flags := tcp'.flags }
  flags : ∀ i < 12, i ∉ Flag.unrelated.map Flag.bit →
    tcp'.flags.getLsbD i = tcp.flags.getLsbD i

/-- The packets differ in these flags of their segments only. -/
structure PDU.Variant (pdu pdu' : PDU) : Prop where
  ip : pdu'.ip = pdu.ip
  tcp : Option.Rel TCP.Variant pdu.tcp pdu'.tcp

section

variable {tcp tcp' : TCP} (h : tcp.Variant tcp')

include h

theorem TCP.Variant.getFlag {f : Flag} (hf : f ∉ Flag.unrelated) :
    tcp'.getFlag f = tcp.getFlag f := by
  refine h.flags f.bit (by cases f <;> decide) fun hmem => hf ?_
  cases f <;> first | decide | exact absurd hmem (by decide)

theorem TCP.Variant.opens : tcp'.opens = tcp.opens := by
  unfold TCP.opens
  rw [h.getFlag (by decide), h.getFlag (by decide)]

theorem TCP.Variant.packetInfo (ip : IP) :
    CLabs.Tcp.packetInfo ip tcp' = CLabs.Tcp.packetInfo ip tcp := by
  rw [h.header]
  rfl

theorem TCP.Variant.new (ip : IP) (identifier : UInt64) :
    TCPCapStream.new ip tcp' identifier = TCPCapStream.new ip tcp identifier := by
  rw [h.header]
  rfl

theorem genericProcess_variant (finSent : Bool) (my : Half) :
    genericProcess finSent my tcp' = genericProcess finSent my tcp := by
  unfold genericProcess
  rw [h.getFlag (by decide), h.getFlag (by decide), h.header]

/-- An established stream does not see the difference, and neither does one whose
handshake the two segments complete alike. -/
theorem update_variant (s : TCPCapStream) (ip : IP)
    (halike : s.synAckSent = false → (tcp.flags = synAckFlags ↔ tcp'.flags = synAckFlags)) :
    s.update ip tcp' = s.update ip tcp := by
  cases hack : s.synAckSent with
  | false =>
      rw [TCPCapStream.update_opening hack, TCPCapStream.update_opening hack]
      simp only [halike hack]
      rw [h.header]
  | true =>
      have hside : s.sideOf ip tcp' = s.sideOf ip tcp := by
        rw [h.header]
        rfl
      rw [TCPCapStream.update_established hack, TCPCapStream.update_established hack, hside,
        genericProcess_variant h]

theorem receive_variant (s : TCPCapStream) (ip : IP)
    (halike : s.synAckSent = false → (tcp.flags = synAckFlags ↔ tcp'.flags = synAckFlags)) :
    s.receive ip tcp' = s.receive ip tcp := by
  have hcap : ∀ s : TCPCapStream, s.cap ip tcp' = s.cap ip tcp := by
    intro s
    rw [h.header]
    rfl
  unfold TCPCapStream.receive
  rw [update_variant h s ip halike]
  simp only [hcap]

end

/-! ### Runs -/

/-- If the packet reaches a session that is still in its handshake, then the two segments
both have exactly the flags `SYN` and `ACK`, or neither has. -/
def Follower.Alike (f : Follower) (pdu pdu' : PDU) : Prop :=
  ∀ ip tcp tcp' key s, pdu = ⟨some ip, some tcp⟩ → pdu' = ⟨some ip, some tcp'⟩ →
    f.lookup (packetInfo ip tcp) = some (key, s) → s.synAckSent = false →
    (tcp.flags = synAckFlags ↔ tcp'.flags = synAckFlags)

theorem Follower.alike_of_iff (f : Follower) {ip : IP} {tcp tcp' : TCP}
    (h : tcp.flags = synAckFlags ↔ tcp'.flags = synAckFlags) :
    f.Alike ⟨some ip, some tcp⟩ ⟨some ip, some tcp'⟩ := by
  intro _ _ _ _ _ hpdu hpdu' _ _
  cases hpdu
  cases hpdu'
  exact h

/-- The step lemma. -/
theorem Follower.step_variant (f : Follower) {pdu pdu' : PDU} (h : pdu.Variant pdu')
    (halike : f.Alike pdu pdu') : f.step pdu = f.step pdu' := by
  obtain ⟨ip?, tcp?⟩ := pdu
  obtain ⟨ip?', tcp?'⟩ := pdu'
  obtain ⟨rfl, htcp⟩ := h
  cases htcp with
  | none => rfl
  | some htcp =>
      rename_i tcp tcp'
      cases ip?' with
      | none => rfl
      | some ip =>
          rw [f.step_eq, f.step_eq, htcp.packetInfo, htcp.opens, htcp.new]
          cases hlook : f.lookup (packetInfo ip tcp) with
          | none => rfl
          | some entry =>
              obtain ⟨key, s⟩ := entry
              dsimp only
              rw [receive_variant htcp s ip fun hack =>
                halike ip tcp tcp' key s rfl rfl hlook hack]

/-- **Following a stream under other flags.** The packets come in two variants. If at every
packet of a session in its handshake the variants agree on being exactly `SYN | ACK`,
then the follower calls the functors in the same way, with the same payloads. -/
theorem follow_variants (packets : List (PDU × PDU))
    (hvariant : ∀ packet ∈ packets, packet.1.Variant packet.2)
    (halike : ∀ past packet rest, packets = past ++ packet :: rest →
      (Follower.init.follow (past.map Prod.fst)).1.Alike packet.1 packet.2) :
    (Follower.init.follow (packets.map Prod.fst)).2 =
      (Follower.init.follow (packets.map Prod.snd)).2 := by
  have hruns : Follower.init.follow (packets.map Prod.fst) =
      Follower.init.follow (packets.map Prod.snd) := by
    refine run_lockstep packets fun past packet rest hsplit => ?_
    refine Follower.step_variant _ (hvariant packet ?_) (halike past packet rest hsplit)
    rw [hsplit]
    exact List.mem_append_right _ List.mem_cons_self
  rw [hruns]

/-- A connection whose client announces `ECE` and `CWR` and pushes its data, and the same
connection without these bits. -/
def pushedConnection : List (PDU × PDU) :=
  [(⟨some ⟨1, 2⟩, some ⟨5000, 80, 100, 0, 0xC2, none⟩⟩,
      ⟨some ⟨1, 2⟩, some ⟨5000, 80, 100, 0, 0x02, none⟩⟩),
    (⟨some ⟨2, 1⟩, some ⟨80, 5000, 300, 101, 0x12, none⟩⟩,
      ⟨some ⟨2, 1⟩, some ⟨80, 5000, 300, 101, 0x12, none⟩⟩),
    (⟨some ⟨1, 2⟩, some ⟨5000, 80, 101, 301, 0x18, some ⟨1, [71, 69, 84]⟩⟩⟩,
      ⟨some ⟨1, 2⟩, some ⟨5000, 80, 101, 301, 0x10, some ⟨1, [71, 69, 84]⟩⟩⟩)]

theorem follow_variants_pushed :
    (Follower.init.follow (pushedConnection.map Prod.fst)).2 =
      (Follower.init.follow (pushedConnection.map Prod.snd)).2 := by
  have hpackets : ∀ packet ∈ pushedConnection, packet.1.Variant packet.2 ∧
      ∀ f : Follower, f.Alike packet.1 packet.2 := by
    simp only [pushedConnection, List.forall_mem_cons, List.not_mem_nil, false_implies,
      implies_true, and_true]
    refine ⟨⟨⟨rfl, .some ⟨rfl, by decide⟩⟩, fun f => f.alike_of_iff (by decide)⟩,
      ⟨⟨rfl, .some ⟨rfl, by decide⟩⟩, fun f => f.alike_of_iff (by decide)⟩,
      ⟨⟨rfl, .some ⟨rfl, by decide⟩⟩, fun f => f.alike_of_iff (by decide)⟩⟩
  refine follow_variants pushedConnection (fun packet hmem => (hpackets packet hmem).1)
    fun past packet rest hsplit => (hpackets packet ?_).2 _
  rw [hsplit]
  exact List.mem_append_right _ List.mem_cons_self

/-- A connection, and the same connection with an `ECE` bit in the server's `SYN | ACK`. -/
def markedConnection : List (PDU × PDU) :=
  [(⟨some ⟨1, 2⟩, some ⟨5000, 80, 100, 0, 0x02, none⟩⟩,
      ⟨some ⟨1, 2⟩, some ⟨5000, 80, 100, 0, 0x02, none⟩⟩),
    (⟨some ⟨2, 1⟩, some ⟨80, 5000, 300, 101, 0x12, none⟩⟩,
      ⟨some ⟨2, 1⟩, some ⟨80, 5000, 300, 101, 0x52, none⟩⟩),
    (⟨some ⟨1, 2⟩, some ⟨5000, 80, 101, 301, 0x10, some ⟨1, [71, 69, 84]⟩⟩⟩,
      ⟨some ⟨1, 2⟩, some ⟨5000, 80, 101, 301, 0x10, some ⟨1, [71, 69, 84]⟩⟩⟩)]

/-- The client's data is reported for the first, and nothing is for the second. -/
theorem follow_hidden :
    (∀ packet ∈ markedConnection, packet.1.Variant packet.2) ∧
      (Follower.init.follow (markedConnection.map Prod.fst)).2 ≠
        (Follower.init.follow (markedConnection.map Prod.snd)).2 := by
  refine ⟨?_, by decide⟩
  simp only [markedConnection, List.forall_mem_cons, List.not_mem_nil, false_implies,
    implies_true, and_true]
  exact ⟨⟨rfl, .some ⟨rfl, by decide⟩⟩, ⟨rfl, .some ⟨rfl, by decide⟩⟩,
    ⟨rfl, .some ⟨rfl, by decide⟩⟩⟩

end CLabs.Tcp
