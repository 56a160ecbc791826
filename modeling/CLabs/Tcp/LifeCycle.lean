import CLabs.Tcp.Follower

/-!
# CLabs.Tcp.LifeCycle

**The life of a session**, over every run of the follower: it begins with a `SYN`
that is handed the next identifier, the functors are called for it only once a
`SYN|ACK` of the same connection has followed, and the call of `end_fun` is the last
call for its identifier.

`History` relates the packets read so far, the table, and the calls made so far. Its
step lemmas follow the three cases of `Follower.step_cases`; the hypothesis of all
of them is that the identifiers handed out are distinct, which `handedOut_nodup`
provides as long as the 64-bit counter has not gone round.
-/

namespace CLabs.Tcp

open CLabs.Lib

/-! ### Identifiers -/

/-- The packet asks for a new connection. -/
def PDU.opens (pdu : PDU) : Bool :=
  match pdu.ip, pdu.tcp with
  | some _, some tcp => tcp.opens
  | _, _ => false

/-- The packet has the flags `SYN` and `ACK`, and no other. -/
def PDU.isSynAck (pdu : PDU) : Bool :=
  match pdu.ip, pdu.tcp with
  | some _, some tcp => tcp.flags == synAckFlags
  | _, _ => false

/-- The identifiers handed out over a run, in order. -/
def Follower.handedOut : Follower → List PDU → List UInt64
  | _, [] => []
  | f, pdu :: pdus => (f.handsOut pdu).toList ++ (f.step pdu).1.handedOut pdus

theorem Follower.handedOut_append (f : Follower) (pdus pdus' : List PDU) :
    f.handedOut (pdus ++ pdus') = f.handedOut pdus ++ (f.follow pdus).1.handedOut pdus' := by
  induction pdus generalizing f with
  | nil => rfl
  | cons pdu pdus ih =>
      show (f.handsOut pdu).toList ++ (f.step pdu).1.handedOut (pdus ++ pdus') = _
      rw [ih, ← List.append_assoc]
      rfl

theorem Follower.handedOut_snoc (f : Follower) (pdus : List PDU) (pdu : PDU) :
    f.handedOut (pdus ++ [pdu]) =
      f.handedOut pdus ++ ((f.follow pdus).1.handsOut pdu).toList := by
  rw [handedOut_append]
  simp [handedOut]

/-- The identifiers are handed out by counting. -/
theorem handedOut_eq (pdus : List PDU) :
    ∃ n, Follower.init.handedOut pdus = (List.range n).map UInt64.ofNat ∧
      (Follower.init.follow pdus).1.lastIdentifier = UInt64.ofNat n ∧
      n ≤ pdus.countP PDU.opens := by
  induction pdus using List.reverseRecOn with
  | nil => exact ⟨0, rfl, rfl, le_rfl⟩
  | append_singleton pdus pdu ih =>
      obtain ⟨n, hlist, hlast, hle⟩ := ih
      have hcount : (pdus ++ [pdu]).countP PDU.opens =
          pdus.countP PDU.opens + (if pdu.opens then 1 else 0) := by
        rw [List.countP_append, List.countP_singleton]
      rw [Follower.handedOut_snoc, Follower.follow_snoc, hcount, hlist]
      obtain ⟨hnone, heq⟩ | ⟨ip, tcp, key, s, -, -, -, hnone, heq⟩ |
          ⟨ip, tcp, rfl, -, hopen, hsome, heq⟩ := (Follower.init.follow pdus).1.step_cases pdu
      · exact ⟨n, by rw [hnone]; simp, by rw [heq, hlast], by omega⟩
      · exact ⟨n, by rw [hnone]; simp, by rw [heq]; exact hlast, by omega⟩
      · refine ⟨n + 1, ?_, ?_, ?_⟩
        · rw [hsome, hlast, List.range_succ, List.map_append]
          rfl
        · rw [heq]
          show (Follower.init.follow pdus).1.lastIdentifier + 1 = _
          rw [hlast, UInt64.ofNat_add]
          rfl
        · have : PDU.opens ⟨some ip, some tcp⟩ = true := hopen
          rw [this]
          simpa using hle

theorem handedOut_nodup {pdus : List PDU} (h : pdus.countP PDU.opens < 2 ^ 64) :
    (Follower.init.handedOut pdus).Nodup := by
  obtain ⟨n, hlist, -, hle⟩ := handedOut_eq pdus
  rw [hlist]
  refine List.Nodup.map_on (fun a ha b hb hab => ?_) List.nodup_range
  have hlt : ∀ m ∈ List.range n, m < 2 ^ 64 := fun m hm => by
    have := List.mem_range.mp hm
    omega
  have := congrArg UInt64.toNat hab
  rwa [UInt64.toNat_ofNat_of_lt' (hlt a ha), UInt64.toNat_ofNat_of_lt' (hlt b hb)] at this

/-! ### The beginning of a session -/

/-- The packets contain the `SYN` that was handed the identifier of `s`. -/
def Created (pdus : List PDU) (s : TCPCapStream) : Prop :=
  ∃ before syn after, pdus = before ++ syn :: after ∧ syn.opens = true ∧
    syn.isBetween s.info = true ∧
    (Follower.init.follow before).1.handsOut syn = some s.identifier

/-- The packets contain the `SYN` that was handed the identifier of `s`, and after it a
`SYN|ACK` between the same endpoints. -/
def Established (pdus : List PDU) (s : TCPCapStream) : Prop :=
  ∃ before syn after, pdus = before ++ syn :: after ∧ syn.opens = true ∧
    syn.isBetween s.info = true ∧
    (Follower.init.follow before).1.handsOut syn = some s.identifier ∧
    ∃ synAck ∈ after, synAck.isSynAck = true ∧ synAck.isBetween s.info = true

section

variable {pdus : List PDU} {s t : TCPCapStream}

theorem Created.mem_handedOut (h : Created pdus s) :
    s.identifier ∈ Follower.init.handedOut pdus := by
  obtain ⟨before, syn, after, rfl, -, -, hsome⟩ := h
  rw [Follower.handedOut_append]
  refine List.mem_append_right _ ?_
  show s.identifier ∈ ((Follower.init.follow before).1.handsOut syn).toList ++ _
  rw [hsome]
  exact List.mem_append_left _ (List.mem_singleton.mpr rfl)

theorem Created.snoc (h : Created pdus s) (pdu : PDU) (hinfo : t.info = s.info)
    (hid : t.identifier = s.identifier) : Created (pdus ++ [pdu]) t := by
  obtain ⟨before, syn, after, rfl, hopen, hsyn, hsome⟩ := h
  exact ⟨before, syn, after ++ [pdu], by simp, hopen, by rwa [hinfo], by rwa [hid]⟩

theorem Established.snoc (h : Established pdus s) (pdu : PDU) (hinfo : t.info = s.info)
    (hid : t.identifier = s.identifier) : Established (pdus ++ [pdu]) t := by
  obtain ⟨before, syn, after, rfl, hopen, hsyn, hsome, synAck, hmem, hack, hends⟩ := h
  exact ⟨before, syn, after ++ [pdu], by simp, hopen, by rwa [hinfo], by rwa [hid], synAck,
    List.mem_append_left _ hmem, hack, by rwa [hinfo]⟩

/-- A `SYN|ACK` establishes a session that has been created. -/
theorem Created.established (h : Created pdus s) {pdu : PDU} (hack : pdu.isSynAck = true)
    (hends : pdu.isBetween s.info = true) (hinfo : t.info = s.info)
    (hid : t.identifier = s.identifier) : Established (pdus ++ [pdu]) t := by
  obtain ⟨before, syn, after, rfl, hopen, hsyn, hsome⟩ := h
  exact ⟨before, syn, after ++ [pdu], by simp, hopen, by rwa [hinfo], by rwa [hid], pdu,
    List.mem_append_right _ (List.mem_singleton.mpr rfl), hack, by rwa [hinfo]⟩

end

/-! ### The history of a run -/

/-- The call is one of `end_fun`. -/
def Event.isFin : Event → Bool
  | data _ => false
  | fin _ => true

/-- The call is one of `end_fun` for the identifier. -/
def Event.ends (identifier : UInt64) (e : Event) : Bool :=
  e.isFin && e.stream.identifier == identifier

/-- `later` is not a call for the stream that `earlier` ended. -/
def Event.Precedes (earlier later : Event) : Prop :=
  earlier.isFin = true → later.stream.identifier ≠ earlier.stream.identifier

/-- What relates the packets read, the table and the calls made. -/
structure History (pdus : List PDU) (f : Follower) (events : List Event) : Prop where
  created : ∀ key s, f.sessions.find? key = some s → Created pdus s
  established : ∀ key s, f.sessions.find? key = some s → s.synAckSent = true → Established pdus s
  /-- Stored streams are told apart by their identifiers. -/
  distinct : ∀ key s key' s', f.sessions.find? key = some s → f.sessions.find? key' = some s' →
    s.identifier = s'.identifier → key = key'
  handedOut : ∀ e ∈ events, e.stream.identifier ∈ Follower.init.handedOut pdus
  /-- No stored stream has been ended. -/
  unended : ∀ e ∈ events, e.isFin = true →
    ∀ key s, f.sessions.find? key = some s → s.identifier ≠ e.stream.identifier
  ordered : events.Pairwise Event.Precedes

theorem History.nil : History [] Follower.init [] where
  created _ _ h := by simp [Follower.init] at h
  established _ _ h := by simp [Follower.init] at h
  distinct _ _ _ _ h := by simp [Follower.init] at h
  handedOut _ h := absurd h List.not_mem_nil
  unended _ h := absurd h List.not_mem_nil
  ordered := List.Pairwise.nil

section

variable {pdus : List PDU} {f : Follower} {events : List Event}

theorem History.skip (h : History pdus f events) (pdu : PDU) :
    History (pdus ++ [pdu]) f (events ++ []) := by
  rw [List.append_nil]
  refine { h with created := ?_, established := ?_, handedOut := ?_ }
  · intro key s hs
    exact (h.created key s hs).snoc pdu rfl rfl
  · intro key s hs hack
    exact (h.established key s hs hack).snoc pdu rfl rfl
  · intro e he
    rw [Follower.handedOut_snoc]
    exact List.mem_append_left _ (h.handedOut e he)

/-- The calls for one packet: at most one of each functor, `end_fun` last. -/
theorem receive_ordered (s : TCPCapStream) (ip : IP) (tcp : TCP) :
    (s.receive ip tcp).2.Pairwise Event.Precedes := by
  rw [TCPCapStream.receive_snd]
  split_ifs <;> simp [Event.Precedes, Event.isFin]

/-- A call of `end_fun` means that the stream leaves the table. -/
theorem finSent_of_mem_receive {s : TCPCapStream} {ip : IP} {tcp : TCP} {e : Event}
    (he : e ∈ (s.receive ip tcp).2) (hfin : e.isFin = true) :
    (s.receive ip tcp).1.finSent = true := by
  by_contra hlive
  rw [TCPCapStream.receive_snd, if_neg hlive, List.append_nil] at he
  split_ifs at he
  · rw [List.mem_singleton.mp he] at hfin
    exact absurd hfin (by simp [Event.isFin])
  · exact absurd he List.not_mem_nil

/-- The packet that completes a handshake is a `SYN|ACK`. -/
theorem flags_of_receive {s : TCPCapStream} {ip : IP} {tcp : TCP}
    (hbefore : s.synAckSent = false) (hlive : s.finSent = false)
    (hafter : (s.receive ip tcp).1.synAckSent = true) : tcp.flags = synAckFlags := by
  rw [TCPCapStream.receive_opening hbefore hlive] at hafter
  by_contra hne
  rw [if_neg hne, hbefore] at hafter
  exact absurd hafter (by decide)

/-- An entry of the table after a packet was one before, at the same key and with the same
identity. -/
theorem Follower.find?_store_receive {ip : IP} {tcp : TCP} {key k : StreamInfo}
    {s t : TCPCapStream} (hs : f.sessions.find? key = some s)
    (ht : (f.store key (s.receive ip tcp).1).sessions.find? k = some t) :
    ∃ t₀, f.sessions.find? k = some t₀ ∧ t.info = t₀.info ∧ t.identifier = t₀.identifier ∧
      (t = t₀ ∨ (k = key ∧ t₀ = s ∧ t = (s.receive ip tcp).1)) := by
  rw [Follower.find?_store] at ht
  split_ifs at ht with hk
  · obtain rfl := Option.some.inj ht
    exact ⟨s, by rw [hk, hs], by simp, by simp, Or.inr ⟨hk, rfl, rfl⟩⟩
  · exact ⟨t, ht, rfl, rfl, Or.inl rfl⟩

/-- A packet that finds a stream is one between its endpoints. -/
theorem Follower.WF.isBetween (hwf : f.WF) {ip : IP} {tcp : TCP} {key : StreamInfo}
    {s : TCPCapStream} (hs : f.sessions.find? key = some s)
    (hkey : key = packetInfo ip tcp ∨ key = (packetInfo ip tcp).swap) :
    PDU.isBetween s.info ⟨some ip, some tcp⟩ = true := by
  show s.info.sameEnds (packetInfo ip tcp) = true
  rw [StreamInfo.sameEnds_iff, hwf.info_eq key s hs, StreamInfo.swap_swap]
  rcases hkey with rfl | rfl
  · exact Or.inr rfl
  · exact Or.inl rfl

/-- A stored stream keeps what the history says of it when a packet reaches it. -/
theorem History.reach (h : History pdus f events) (hwf : f.WF) {ip : IP} {tcp : TCP}
    {key : StreamInfo} {s : TCPCapStream} (hs : f.sessions.find? key = some s)
    (hkey : key = packetInfo ip tcp ∨ key = (packetInfo ip tcp).swap) :
    History (pdus ++ [⟨some ip, some tcp⟩]) (f.store key (s.receive ip tcp).1)
      (events ++ (s.receive ip tcp).2) where
  created := by
    intro k t ht
    obtain ⟨t₀, ht₀, hinfo, hid, -⟩ := Follower.find?_store_receive hs ht
    exact (h.created k t₀ ht₀).snoc _ hinfo hid
  established := by
    intro k t ht hack
    obtain ⟨t₀, ht₀, hinfo, hid, rfl | ⟨rfl, rfl, rfl⟩⟩ := Follower.find?_store_receive hs ht
    · exact (h.established k t ht₀ hack).snoc _ rfl rfl
    · by_cases hbefore : t₀.synAckSent = true
      · exact (h.established k t₀ hs hbefore).snoc _ hinfo hid
      · -- the handshake is completed by this very packet
        have hflags := flags_of_receive (Bool.not_eq_true _ ▸ hbefore) (hwf.live k t₀ hs) hack
        exact (h.created k t₀ hs).established (by simpa [PDU.isSynAck] using hflags)
          (hwf.isBetween hs hkey) hinfo hid
  distinct := by
    intro k t k' t' ht ht' hids
    obtain ⟨t₀, ht₀, -, hid, -⟩ := Follower.find?_store_receive hs ht
    obtain ⟨t₀', ht₀', -, hid', -⟩ := Follower.find?_store_receive hs ht'
    exact h.distinct k t₀ k' t₀' ht₀ ht₀' (by rw [← hid, ← hid', hids])
  handedOut := by
    intro e he
    rw [Follower.handedOut_snoc]
    refine List.mem_append_left _ ?_
    rcases List.mem_append.mp he with he | he
    · exact h.handedOut e he
    · rw [(TCPCapStream.mem_receive he).2]
      exact (h.created key s hs).mem_handedOut
  unended := by
    intro e he hfin k t ht
    obtain ⟨t₀, ht₀, -, hid, -⟩ := Follower.find?_store_receive hs ht
    rw [hid]
    rcases List.mem_append.mp he with he | he
    · exact h.unended e he hfin k t₀ ht₀
    · have hgone := finSent_of_mem_receive he hfin
      rw [(TCPCapStream.mem_receive he).2]
      intro hids
      have hk := h.distinct k t₀ key s ht₀ hs hids
      rw [Follower.find?_store, if_pos hk, if_pos hgone] at ht
      exact absurd ht (by simp)
  ordered := by
    refine List.pairwise_append.mpr ⟨h.ordered, receive_ordered s ip tcp, ?_⟩
    intro e he e' he' hfin
    rw [(TCPCapStream.mem_receive he').2]
    exact h.unended e he hfin key s hs

/-- A new session has an identifier that has not been seen. -/
theorem History.opened (h : History pdus f events) {ip : IP} {tcp : TCP}
    (hopen : tcp.opens = true) (hpdus : (Follower.init.follow pdus).1 = f)
    (hsome : f.handsOut ⟨some ip, some tcp⟩ = some f.lastIdentifier)
    (hnodup : (Follower.init.handedOut (pdus ++ [⟨some ip, some tcp⟩])).Nodup) (last : UInt64) :
    History (pdus ++ [⟨some ip, some tcp⟩])
      ⟨f.sessions.insert (packetInfo ip tcp).swap (.new ip tcp f.lastIdentifier), last⟩
      (events ++ []) := by
  rw [List.append_nil]
  have hfresh : f.lastIdentifier ∉ Follower.init.handedOut pdus := by
    rw [Follower.handedOut_snoc, hpdus, hsome] at hnodup
    intro hmem
    exact (List.nodup_append.mp hnodup).2.2 _ hmem _ (List.mem_singleton.mpr rfl) rfl
  -- so no stream of the table has it
  have hother : ∀ key s, f.sessions.find? key = some s → f.lastIdentifier ≠ s.identifier := by
    intro key s hs hid
    rw [hid] at hfresh
    exact hfresh (h.created key s hs).mem_handedOut
  have hends : StreamInfo.sameEnds (TCPCapStream.new ip tcp f.lastIdentifier).info
      (packetInfo ip tcp) = true :=
    StreamInfo.sameEnds_iff.mpr (Or.inl rfl)
  refine ⟨?_, ?_, ?_, ?_, ?_, h.ordered⟩
  · intro key s hs
    rw [OrdMap.find?_insert] at hs
    split_ifs at hs
    · obtain rfl := Option.some.inj hs
      exact ⟨pdus, _, [], rfl, hopen, hends, by rw [hpdus]; exact hsome⟩
    · exact (h.created key s hs).snoc _ rfl rfl
  · intro key s hs hack
    rw [OrdMap.find?_insert] at hs
    split_ifs at hs
    · obtain rfl := Option.some.inj hs
      exact absurd hack (by simp [TCPCapStream.new])
    · exact (h.established key s hs hack).snoc _ rfl rfl
  · intro key s key' s' hs hs' hids
    rw [OrdMap.find?_insert] at hs hs'
    split_ifs at hs hs' with hkey hkey' hkey'
    · rw [hkey, hkey']
    · obtain rfl := Option.some.inj hs
      exact absurd hids (hother key' s' hs')
    · obtain rfl := Option.some.inj hs'
      exact absurd hids.symm (hother key s hs)
    · exact h.distinct key s key' s' hs hs' hids
  · intro e he
    rw [Follower.handedOut_snoc]
    exact List.mem_append_left _ (h.handedOut e he)
  · intro e he hfin key s hs
    rw [OrdMap.find?_insert] at hs
    split_ifs at hs
    · obtain rfl := Option.some.inj hs
      intro hids
      change f.lastIdentifier = e.stream.identifier at hids
      rw [hids] at hfresh
      exact hfresh (h.handedOut e he)
    · exact h.unended e he hfin key s hs

end

/-- **Every run has a history.** -/
theorem history_follow {pdus : List PDU} (hnodup : (Follower.init.handedOut pdus).Nodup) :
    History pdus (Follower.init.follow pdus).1 (Follower.init.follow pdus).2 := by
  induction pdus using List.reverseRecOn with
  | nil => exact History.nil
  | append_singleton pdus pdu ih =>
      have hpre : (Follower.init.handedOut pdus).Nodup := by
        rw [Follower.handedOut_snoc] at hnodup
        exact (List.nodup_append.mp hnodup).1
      have h := ih hpre
      rw [Follower.follow_snoc]
      obtain ⟨-, heq⟩ | ⟨ip, tcp, key, s, rfl, hs, hkey, -, heq⟩ |
          ⟨ip, tcp, rfl, -, hopen, hsome, heq⟩ := (Follower.init.follow pdus).1.step_cases pdu
      · rw [heq]
        exact h.skip pdu
      · rw [heq]
        exact h.reach (Follower.WF.init.follow pdus) hs hkey
      · rw [heq]
        exact h.opened hopen rfl hsome hnodup _

/-- A functor is called for an established stream only. -/
theorem History.established_of_mem_step {pdus : List PDU} {f : Follower} {events : List Event}
    (h : History pdus f events) (hwf : f.WF) {pdu : PDU} {e : Event} (he : e ∈ (f.step pdu).2) :
    Established pdus e.stream := by
  obtain ⟨-, heq⟩ | ⟨ip, tcp, key, s, rfl, hs, -, -, heq⟩ | ⟨ip, tcp, -, -, -, -, heq⟩ :=
    f.step_cases pdu
  · rw [heq] at he
    exact absurd he List.not_mem_nil
  · rw [heq] at he
    obtain ⟨hinfo, hid⟩ := TCPCapStream.mem_receive he
    have hack : s.synAckSent = true := by
      by_contra hopening
      rw [Bool.not_eq_true] at hopening
      rw [TCPCapStream.receive_opening hopening (hwf.live key s hs)] at he
      exact absurd he List.not_mem_nil
    obtain ⟨before, syn, after, hpdus, hopen, hsyn, hsome, synAck, hmem, hflags, hends⟩ :=
      h.established key s hs hack
    exact ⟨before, syn, after, hpdus, hopen, by rwa [hinfo], by rwa [hid], synAck, hmem, hflags,
      by rwa [hinfo]⟩
  · rw [heq] at he
    exact absurd he List.not_mem_nil

/-- `end_fun` is called once for an identifier at most. -/
theorem countP_ends_le_one {events : List Event} (h : events.Pairwise Event.Precedes)
    (identifier : UInt64) : events.countP (Event.ends identifier) ≤ 1 := by
  have hends : ∀ {e : Event}, e.ends identifier = true ↔
      e.isFin = true ∧ e.stream.identifier = identifier := by
    simp [Event.ends]
  induction events with
  | nil => simp
  | cons e events ih =>
      obtain ⟨hhead, htail⟩ := List.pairwise_cons.mp h
      by_cases he : e.ends identifier = true
      · have hnone : events.countP (Event.ends identifier) = 0 := by
          rw [List.countP_eq_zero]
          intro e' he' hlater
          exact hhead e' he' (hends.mp he).1 ((hends.mp hlater).2.trans (hends.mp he).2.symm)
        rw [List.countP_cons_of_pos he, hnone]
      · rw [List.countP_cons_of_neg he]
        exact ih htail

/-- **Session life cycle.** At every point of a run the table has one entry for a
connection and stores a stream under its swapped information; the identifiers handed
out are distinct; every call is for a stream whose `SYN` and `SYN|ACK` have been
read; `end_fun` is called at most once for an identifier, and last. -/
theorem follow_lifeCycle (pdus : List PDU) (hcount : pdus.countP PDU.opens < 2 ^ 64) :
    (∀ before, before <+: pdus →
      (∀ key ∈ (Follower.init.follow before).1.sessions,
        key.swap ∈ (Follower.init.follow before).1.sessions → key.swap = key) ∧
      (∀ key s, (Follower.init.follow before).1.sessions.find? key = some s →
        s.info = key.swap)) ∧
    (Follower.init.handedOut pdus).Nodup ∧
    (∀ before pdu after, pdus = before ++ pdu :: after →
      ∀ e ∈ ((Follower.init.follow before).1.step pdu).2, Established before e.stream) ∧
    (∀ identifier, (Follower.init.follow pdus).2.countP (Event.ends identifier) ≤ 1) ∧
    (Follower.init.follow pdus).2.Pairwise Event.Precedes := by
  have hnodup := handedOut_nodup hcount
  have h := history_follow hnodup
  refine ⟨?_, hnodup, ?_, countP_ends_le_one h.ordered, h.ordered⟩
  · intro before _
    exact ⟨(Follower.WF.init.follow before).swap_unique,
      (Follower.WF.init.follow before).info_eq⟩
  · intro before pdu after hpdus e he
    have hbefore : (Follower.init.handedOut before).Nodup := by
      rw [hpdus, Follower.handedOut_append] at hnodup
      exact (List.nodup_append.mp hnodup).1
    exact (history_follow hbefore).established_of_mem_step (Follower.WF.init.follow before) he

/-- Two connections of the same endpoints, one after the other; the first is ended by a
`FIN` that carries data. -/
def reconnection : List PDU :=
  let client : IP := ⟨1, 2⟩
  let server : IP := ⟨2, 1⟩
  [⟨some client, some ⟨5000, 80, 10, 0, 0x02, none⟩⟩,
    ⟨some server, some ⟨80, 5000, 20, 11, 0x12, none⟩⟩,
    ⟨some client, some ⟨5000, 80, 11, 21, 0x11, some ⟨0, [71]⟩⟩⟩,
    ⟨some client, some ⟨5000, 80, 90, 0, 0x02, none⟩⟩]

theorem reconnection_lifeCycle :
    (Follower.init.handedOut reconnection = [0, 1] ∧
      (Follower.init.follow reconnection).2.map Event.isFin = [false, true]) ∧
    (Follower.init.handedOut reconnection).Nodup ∧
    (Follower.init.follow reconnection).2.Pairwise Event.Precedes :=
  have h := follow_lifeCycle reconnection (by decide)
  ⟨by decide, h.2.1, h.2.2.2.2⟩

end CLabs.Tcp
