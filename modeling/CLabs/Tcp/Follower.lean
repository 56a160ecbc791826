import CLabs.Lib.Run
import CLabs.Tcp.Stream

/-!
# CLabs.Tcp.Follower

The model of `TCPCapStreamFollower` (`tcpcap_stream.hpp`): the table of sessions
and the `callback` every sniffed packet goes through.

`callback` is generic in its two functors, as the source's template is: a functor
is a state transformer of an arbitrary world `ω`. `step` is the instance that
records the calls as `Event`s, and `callback_eq_step` says that this loses
nothing: whatever the functors do, the sessions evolve in the same way and the
world is the one the recorded calls lead to. Results about the follower are
therefore stated about `step` and its runs.
-/

namespace CLabs.Tcp

open CLabs.Lib

/-- A sniffed packet: what `find_pdu<IP>` and `find_pdu<TCP>` find in it. -/
structure PDU where
  ip : Option IP
  tcp : Option TCP
  deriving Repr, DecidableEq

/-- `TCPCapStreamFollower`. -/
structure Follower where
  sessions : OrdMap StreamInfo TCPCapStream
  lastIdentifier : UInt64
  deriving DecidableEq

/-- The constructor `TCPCapStreamFollower()`. -/
def Follower.init : Follower := ⟨∅, 0⟩

/-- The stream information `callback` builds from a packet. -/
def packetInfo (ip : IP) (tcp : TCP) : StreamInfo :=
  ⟨ip.srcAddr, ip.dstAddr, tcp.sport, tcp.dport⟩

section

variable {ω : Type*} (dataFun endFun : ω → TCPCapStream → ω)

/-- The part of `callback` after the lookup: `it` points at the entry of `key`. -/
def Follower.process (f : Follower) (w : ω) (ip : IP) (tcp : TCP) (key : StreamInfo)
    (stream : TCPCapStream) : Follower × ω :=
  let updated := stream.update ip tcp
  let stream := if updated.2.1 then (updated.1.cap ip tcp).1 else updated.1
  let w := if updated.2.1 then dataFun w updated.1 else w
  if stream.isFinished then ({ f with sessions := f.sessions.erase key }, endFun w stream)
  else ({ f with sessions := f.sessions.insert key stream }, w)

/-- `callback`. It always returns `true`, which keeps `follow_streams` going. -/
def Follower.callback (f : Follower) (w : ω) (pdu : PDU) : Follower × ω :=
  match pdu.ip, pdu.tcp with
  | some ip, some tcp =>
      let info := packetInfo ip tcp
      match f.sessions.find? info with
      | some stream => f.process dataFun endFun w ip tcp info stream
      | none =>
          let info := info.swap
          match f.sessions.find? info with
          | some stream => f.process dataFun endFun w ip tcp info stream
          | none =>
              if tcp.getFlag .SYN && !tcp.getFlag .ACK then
                ({ sessions := f.sessions.emplace info (.new ip tcp f.lastIdentifier)
                   lastIdentifier := f.lastIdentifier + 1 }, w)
              else (f, w)
  | _, _ => (f, w)

end

/-! ### Endpoints -/

/-- The information is about the two endpoints of `pair`, in one order or the other. -/
def StreamInfo.sameEnds (pair info : StreamInfo) : Bool := info == pair || info == pair.swap

/-- The packet is exchanged between the two endpoints. -/
def PDU.isBetween (pair : StreamInfo) (pdu : PDU) : Bool :=
  match pdu.ip, pdu.tcp with
  | some ip, some tcp => pair.sameEnds (packetInfo ip tcp)
  | _, _ => false

/-- Only packets with both headers are between two endpoints. -/
theorem PDU.eq_of_isBetween {pair : StreamInfo} {pdu : PDU} (h : pdu.isBetween pair = true) :
    ∃ ip tcp, pdu = ⟨some ip, some tcp⟩ ∧ pair.sameEnds (packetInfo ip tcp) = true := by
  obtain ⟨_ | ip, _ | tcp⟩ := pdu
  · exact absurd h Bool.false_ne_true
  · exact absurd h Bool.false_ne_true
  · exact absurd h Bool.false_ne_true
  · exact ⟨ip, tcp, rfl, h⟩

theorem StreamInfo.sameEnds_iff {pair info : StreamInfo} :
    pair.sameEnds info = true ↔ info = pair ∨ info = pair.swap := by
  simp [sameEnds]

theorem StreamInfo.sameEnds_swap {pair info : StreamInfo} :
    pair.sameEnds info.swap = pair.sameEnds info := by
  rw [Bool.eq_iff_iff, sameEnds_iff, sameEnds_iff]
  constructor
  · intro hcases
    rcases hcases with h | h
    · exact Or.inr (by rw [← h, swap_swap])
    · exact Or.inl (swap_injective h)
  · intro hcases
    rcases hcases with h | h
    · exact Or.inr (by rw [h])
    · exact Or.inl (by rw [h, swap_swap])

/-! ### Recorded calls -/

/-- A call of one of the functors, with the stream it was given. -/
inductive Event
  /-- `data_fun(stream)`. -/
  | data (stream : TCPCapStream)
  /-- `end_fun(stream)`. -/
  | fin (stream : TCPCapStream)
  deriving DecidableEq

/-- The stream a functor was called with. -/
def Event.stream : Event → TCPCapStream
  | data stream => stream
  | fin stream => stream

/-- One packet through the follower, recording the calls. -/
def Follower.step (f : Follower) (pdu : PDU) : Follower × List Event :=
  f.callback (fun w s => w ++ [.data s]) (fun w s => w ++ [.fin s]) [] pdu

/-- `follow_streams` over a list of packets. -/
def Follower.follow (f : Follower) (pdus : List PDU) : Follower × List Event :=
  run Follower.step f pdus

theorem Follower.follow_snoc (f : Follower) (pdus : List PDU) (pdu : PDU) :
    f.follow (pdus ++ [pdu]) =
      (((f.follow pdus).1.step pdu).1, (f.follow pdus).2 ++ ((f.follow pdus).1.step pdu).2) :=
  run_snoc f pdus pdu

section

variable {ω : Type*} (dataFun endFun : ω → TCPCapStream → ω)

/-- Carry out a recorded call. -/
def Event.apply (w : ω) : Event → ω
  | data stream => dataFun w stream
  | fin stream => endFun w stream

theorem Follower.process_eq_recorded (f : Follower) (w : ω) (ip : IP) (tcp : TCP)
    (key : StreamInfo) (stream : TCPCapStream) :
    let recorded := f.process (fun w s => w ++ [Event.data s]) (fun w s => w ++ [Event.fin s])
      [] ip tcp key stream
    f.process dataFun endFun w ip tcp key stream =
      (recorded.1, recorded.2.foldl (Event.apply dataFun endFun) w) := by
  unfold Follower.process
  dsimp only
  split_ifs <;> rfl

/-- **The functors cannot influence the sessions**, and what they do to the world is
exactly the recorded calls carried out in order. -/
theorem Follower.callback_eq_step (f : Follower) (w : ω) (pdu : PDU) :
    f.callback dataFun endFun w pdu =
      ((f.step pdu).1, (f.step pdu).2.foldl (Event.apply dataFun endFun) w) := by
  obtain ⟨_ | ip, _ | tcp⟩ := pdu
  · rfl
  · rfl
  · rfl
  · unfold Follower.step Follower.callback
    dsimp only
    cases f.sessions.find? (packetInfo ip tcp) with
    | some stream => exact f.process_eq_recorded dataFun endFun w ip tcp _ stream
    | none =>
        cases f.sessions.find? (packetInfo ip tcp).swap with
        | some stream => exact f.process_eq_recorded dataFun endFun w ip tcp _ stream
        | none => dsimp only; split_ifs <;> rfl

end

/-! ### One packet, by cases

`callback` does three things that concern different data: it looks a session up, it
passes the packet to the stream found (`receive`), and it puts the stream back unless
it is finished (`store`). `step_eq` composes them. -/

/-- The two lookups of `callback`: the entry found, with the key it is stored under. -/
def Follower.lookup (f : Follower) (info : StreamInfo) : Option (StreamInfo × TCPCapStream) :=
  match f.sessions.find? info with
  | some stream => some (info, stream)
  | none => (f.sessions.find? info.swap).map fun stream => (info.swap, stream)

/-- What `callback` does with the stream it found: the stream afterwards, and the calls
made on the way. -/
def TCPCapStream.receive (s : TCPCapStream) (ip : IP) (tcp : TCP) : TCPCapStream × List Event :=
  let updated := s.update ip tcp
  let s' := if updated.2.1 then (updated.1.cap ip tcp).1 else updated.1
  (s', (if updated.2.1 then [.data updated.1] else []) ++ (if s'.finSent then [.fin s'] else []))

/-- The entry of `key` after the packet: a finished stream leaves the table. -/
def Follower.store (f : Follower) (key : StreamInfo) (s : TCPCapStream) : Follower :=
  { f with sessions := if s.finSent then f.sessions.erase key else f.sessions.insert key s }

/-- The packet starts a connection: `SYN` without `ACK`. -/
def TCP.opens (tcp : TCP) : Bool := tcp.getFlag .SYN && !tcp.getFlag .ACK

theorem Follower.process_eq_store (f : Follower) (ip : IP) (tcp : TCP) (key : StreamInfo)
    (s : TCPCapStream) :
    f.process (fun w s => w ++ [Event.data s]) (fun w s => w ++ [Event.fin s]) [] ip tcp key s =
      (f.store key (s.receive ip tcp).1, (s.receive ip tcp).2) := by
  unfold Follower.process Follower.store TCPCapStream.receive TCPCapStream.isFinished
  dsimp only
  split_ifs <;> rfl

theorem Follower.step_eq (f : Follower) (ip : IP) (tcp : TCP) :
    f.step ⟨some ip, some tcp⟩ =
      match f.lookup (packetInfo ip tcp) with
      | some (key, s) => (f.store key (s.receive ip tcp).1, (s.receive ip tcp).2)
      | none =>
          if tcp.opens then
            (⟨f.sessions.insert (packetInfo ip tcp).swap (.new ip tcp f.lastIdentifier),
              f.lastIdentifier + 1⟩, [])
          else (f, []) := by
  unfold Follower.step Follower.callback Follower.lookup TCP.opens
  dsimp only
  cases f.sessions.find? (packetInfo ip tcp) with
  | some s => exact f.process_eq_store ip tcp _ s
  | none =>
      cases hswap : f.sessions.find? (packetInfo ip tcp).swap with
      | some s => exact f.process_eq_store ip tcp _ s
      | none =>
          dsimp only [Option.map_none]
          rw [OrdMap.emplace_of_find?_eq_none hswap]

theorem Follower.lookup_eq_some {f : Follower} {info key : StreamInfo} {s : TCPCapStream}
    (h : f.lookup info = some (key, s)) :
    f.sessions.find? key = some s ∧ (key = info ∨ key = info.swap) := by
  unfold Follower.lookup at h
  cases hfind : f.sessions.find? info with
  | some s' =>
      simp only [hfind, Option.some.injEq, Prod.mk.injEq] at h
      obtain ⟨rfl, rfl⟩ := h
      exact ⟨hfind, Or.inl rfl⟩
  | none =>
      simp only [hfind, Option.map_eq_some_iff, Prod.mk.injEq] at h
      obtain ⟨s', hs', rfl, rfl⟩ := h
      exact ⟨hs', Or.inr rfl⟩

theorem Follower.lookup_eq_none {f : Follower} {info : StreamInfo} :
    f.lookup info = none ↔
      f.sessions.find? info = none ∧ f.sessions.find? info.swap = none := by
  unfold Follower.lookup
  cases f.sessions.find? info <;> simp

/-- The identifier a packet makes the follower hand out, if it opens a session. -/
def Follower.handsOut (f : Follower) (pdu : PDU) : Option UInt64 :=
  match pdu.ip, pdu.tcp with
  | some ip, some tcp =>
      if (f.lookup (packetInfo ip tcp)).isNone && tcp.opens then some f.lastIdentifier else none
  | _, _ => none

/-- Everything a packet can do: nothing, reach a session, or open one. -/
theorem Follower.step_cases (f : Follower) (pdu : PDU) :
    (f.handsOut pdu = none ∧ f.step pdu = (f, [])) ∨
      (∃ ip tcp key s, pdu = ⟨some ip, some tcp⟩ ∧ f.sessions.find? key = some s ∧
        (key = packetInfo ip tcp ∨ key = (packetInfo ip tcp).swap) ∧ f.handsOut pdu = none ∧
        f.step pdu = (f.store key (s.receive ip tcp).1, (s.receive ip tcp).2)) ∨
      (∃ ip tcp, pdu = ⟨some ip, some tcp⟩ ∧ f.lookup (packetInfo ip tcp) = none ∧
        tcp.opens = true ∧ f.handsOut pdu = some f.lastIdentifier ∧
        f.step pdu = (⟨f.sessions.insert (packetInfo ip tcp).swap (.new ip tcp f.lastIdentifier),
          f.lastIdentifier + 1⟩, [])) := by
  obtain ⟨_ | ip, _ | tcp⟩ := pdu
  · exact Or.inl ⟨rfl, rfl⟩
  · exact Or.inl ⟨rfl, rfl⟩
  · exact Or.inl ⟨rfl, rfl⟩
  · have heq := f.step_eq ip tcp
    cases hlook : f.lookup (packetInfo ip tcp) with
    | some entry =>
        obtain ⟨key, s⟩ := entry
        obtain ⟨hfind, hkey⟩ := lookup_eq_some hlook
        refine Or.inr (Or.inl ⟨ip, tcp, key, s, rfl, hfind, hkey, ?_, by rw [heq, hlook]⟩)
        simp [handsOut, hlook]
    | none =>
        simp only [hlook] at heq
        by_cases hopen : tcp.opens = true
        · refine Or.inr (Or.inr ⟨ip, tcp, rfl, hlook, hopen, ?_, by rw [heq, if_pos hopen]⟩)
          simp [handsOut, hlook, hopen]
        · refine Or.inl ⟨?_, by rw [heq, if_neg hopen]⟩
          simp [handsOut, hopen]

theorem Follower.find?_store (f : Follower) (key key' : StreamInfo) (s : TCPCapStream) :
    (f.store key s).sessions.find? key' =
      if key' = key then (if s.finSent then none else some s) else f.sessions.find? key' := by
  unfold Follower.store
  by_cases hkey : key' = key
  · subst hkey
    rw [if_pos rfl]
    dsimp only
    split_ifs <;> simp
  · rw [if_neg hkey]
    dsimp only
    split_ifs
    · exact OrdMap.find?_erase_of_ne _ hkey
    · exact OrdMap.find?_insert_of_ne _ _ hkey

/-! ### What a stream keeps, and when it speaks -/

namespace TCPCapStream

variable (s : TCPCapStream) (ip : IP) (tcp : TCP)

/-- Until the handshake is over the functors are not called. -/
theorem receive_opening {s : TCPCapStream} (h : s.synAckSent = false) (hlive : s.finSent = false)
    (ip : IP) (tcp : TCP) :
    s.receive ip tcp =
      (if tcp.flags = synAckFlags then
        { s with
          server := { s.server with seq := tcp.seq + 1 }
          client := { s.client with seq := tcp.ackSeq }
          synAckSent := true }
      else s, []) := by
  unfold receive
  rw [update_opening h]
  split_ifs <;> simp [hlive]

/-- After it, a segment changes the direction of its sender only, and a payload that
was handed out is forgotten together with the pending fragments. -/
theorem receive_established {s : TCPCapStream} (h : s.synAckSent = true) (ip : IP) (tcp : TCP) :
    s.receive ip tcp =
      let side := s.sideOf ip tcp
      let p := genericProcess s.finSent (s.half side) tcp
      let s' :=
        { s.setHalf side (if p.addedSome then ⟨p.half.seq, [], ∅⟩ else p.half) with
          finSent := p.finSent }
      (s', (if p.addedSome then [.data { s.setHalf side p.half with finSent := p.finSent }] else []) ++
        (if p.finSent then [.fin s'] else [])) := by
  unfold receive
  rw [update_established h]
  dsimp only
  generalize genericProcess s.finSent (s.half (s.sideOf ip tcp)) tcp = p
  by_cases hadd : p.addedSome = true
  · have hside : ({ s.setHalf (s.sideOf ip tcp) p.half with finSent := p.finSent } :
        TCPCapStream).sideOf ip tcp = s.sideOf ip tcp := by
      simp [sideOf, fromClient]
    simp only [hadd, if_true, cap_eq, hside]
    cases s.sideOf ip tcp <;> rfl
  · simp only [hadd, if_false, Bool.false_eq_true]

theorem genericProcess_finSent_eq_false {finSent : Bool} {tcp : TCP} (my : Half)
    (hsent : finSent = false) (hopen : tcp.getFlag .FIN = false ∧ tcp.getFlag .RST = false) :
    (genericProcess finSent my tcp).finSent = false := by
  unfold genericProcess
  cases tcp.innerPdu with
  | none => simp [hsent, hopen]
  | some raw =>
      dsimp only
      split_ifs <;> simp [hsent, hopen]

/-- The same for a segment that does not close the connection. -/
theorem receive_open {s : TCPCapStream} {ip : IP} {tcp : TCP} (hack : s.synAckSent = true)
    (hlive : s.finSent = false) (hopen : tcp.getFlag .FIN = false ∧ tcp.getFlag .RST = false) :
    let p := genericProcess s.finSent (s.half (s.sideOf ip tcp)) tcp
    s.receive ip tcp =
      (s.setHalf (s.sideOf ip tcp) (if p.addedSome then ⟨p.half.seq, [], ∅⟩ else p.half),
        if p.addedSome then [.data (s.setHalf (s.sideOf ip tcp) p.half)] else []) := by
  have hfin := genericProcess_finSent_eq_false (s.half (s.sideOf ip tcp)) hlive hopen
  have hkeep : ∀ g : Half, ({ s.setHalf (s.sideOf ip tcp) g with finSent := false } :
      TCPCapStream) = s.setHalf (s.sideOf ip tcp) g := by
    intro g
    rw [← hlive]
    cases s.sideOf ip tcp <;> rfl
  rw [receive_established hack]
  simp only [hfin, hkeep, Bool.false_eq_true, if_false, List.append_nil]

@[simp] theorem update_info : (s.update ip tcp).1.info = s.info := by
  unfold update
  dsimp only
  split_ifs <;> rfl

@[simp] theorem update_identifier : (s.update ip tcp).1.identifier = s.identifier := by
  unfold update
  dsimp only
  split_ifs <;> rfl

@[simp] theorem cap_info : (s.cap ip tcp).1.info = s.info := by
  simp [cap_eq]

@[simp] theorem cap_identifier : (s.cap ip tcp).1.identifier = s.identifier := by
  simp [cap_eq]

@[simp] theorem receive_info : (s.receive ip tcp).1.info = s.info := by
  unfold receive
  dsimp only
  split_ifs <;> simp

@[simp] theorem receive_identifier : (s.receive ip tcp).1.identifier = s.identifier := by
  unfold receive
  dsimp only
  split_ifs <;> simp

theorem receive_snd :
    (s.receive ip tcp).2 =
      (if (s.update ip tcp).2.1 then [.data (s.update ip tcp).1] else []) ++
        (if (s.receive ip tcp).1.finSent then [.fin (s.receive ip tcp).1] else []) := rfl

/-- A functor is called with the stream the packet belongs to. -/
theorem mem_receive {s : TCPCapStream} {ip : IP} {tcp : TCP} {e : Event}
    (he : e ∈ (s.receive ip tcp).2) :
    e.stream.info = s.info ∧ e.stream.identifier = s.identifier := by
  rw [receive_snd] at he
  rcases List.mem_append.mp he with hdata | hfin
  · split_ifs at hdata
    · rw [List.mem_singleton.mp hdata]
      exact ⟨update_info s ip tcp, update_identifier s ip tcp⟩
    · exact absurd hdata List.not_mem_nil
  · split_ifs at hfin
    · rw [List.mem_singleton.mp hfin]
      exact ⟨receive_info s ip tcp, receive_identifier s ip tcp⟩
    · exact absurd hfin List.not_mem_nil

end TCPCapStream

/-! ### The table of sessions -/

/-- What holds of the table between two packets. -/
structure Follower.WF (f : Follower) : Prop where
  /-- A connection has one entry, whichever way round its endpoints are given. -/
  swap_unique : ∀ key ∈ f.sessions, key.swap ∈ f.sessions → key.swap = key
  /-- A stream is stored under its information with the endpoints exchanged. -/
  info_eq : ∀ key s, f.sessions.find? key = some s → s.info = key.swap
  /-- Finished streams are gone. -/
  live : ∀ key s, f.sessions.find? key = some s → s.finSent = false

theorem Follower.WF.init : Follower.init.WF where
  swap_unique key hkey := by simp [Follower.init, OrdMap.mem_iff] at hkey
  info_eq key s hs := by simp [Follower.init] at hs
  live key s hs := by simp [Follower.init] at hs

theorem Follower.WF.store {f : Follower} (h : f.WF) {key : StreamInfo} {s s' : TCPCapStream}
    (hs : f.sessions.find? key = some s) (hinfo : s'.info = s.info) : (f.store key s').WF := by
  have hmem : ∀ {k}, k ∈ (f.store key s').sessions → k ∈ f.sessions := by
    intro k hk
    rw [OrdMap.mem_iff, find?_store] at hk
    by_cases hkey : k = key
    · rw [hkey]
      exact OrdMap.mem_iff_exists.mpr ⟨s, hs⟩
    · rw [if_neg hkey] at hk
      exact OrdMap.mem_iff.mpr hk
  refine ⟨fun k hk hk' => h.swap_unique k (hmem hk) (hmem hk'), fun k t ht => ?_, fun k t ht => ?_⟩
  · rw [find?_store] at ht
    split_ifs at ht with hkey
    · obtain rfl := Option.some.inj ht
      rw [hinfo, hkey, h.info_eq key s hs]
    · exact h.info_eq k t ht
  · rw [find?_store] at ht
    split_ifs at ht with hkey hfin
    · obtain rfl := Option.some.inj ht
      simpa using hfin
    · exact h.live k t ht

theorem Follower.WF.insert_new {f : Follower} (h : f.WF) {ip : IP} {tcp : TCP}
    (hnone : f.lookup (packetInfo ip tcp) = none) (identifier last : UInt64) :
    Follower.WF ⟨f.sessions.insert (packetInfo ip tcp).swap (.new ip tcp identifier), last⟩ := by
  obtain ⟨hinfo, hswap⟩ := lookup_eq_none.mp hnone
  refine ⟨fun k hk hk' => ?_, fun k t ht => ?_, fun k t ht => ?_⟩
  · rw [OrdMap.mem_insert] at hk hk'
    rcases hk with rfl | hk
    · rcases hk' with hk' | hk'
      · exact hk'
      · rw [StreamInfo.swap_swap, OrdMap.mem_iff, hinfo] at hk'
        exact absurd hk' (by simp)
    · rcases hk' with hk' | hk'
      · obtain rfl := StreamInfo.swap_injective hk'
        rw [OrdMap.mem_iff, hinfo] at hk
        exact absurd hk (by simp)
      · exact h.swap_unique k hk hk'
  · rw [OrdMap.find?_insert] at ht
    split_ifs at ht with hkey
    · obtain rfl := Option.some.inj ht
      rw [hkey]
      rfl
    · exact h.info_eq k t ht
  · rw [OrdMap.find?_insert] at ht
    split_ifs at ht with hkey
    · obtain rfl := Option.some.inj ht
      rfl
    · exact h.live k t ht

theorem Follower.WF.step {f : Follower} (h : f.WF) (pdu : PDU) : (f.step pdu).1.WF := by
  obtain ⟨-, heq⟩ | ⟨ip, tcp, key, s, -, hs, -, -, heq⟩ | ⟨ip, tcp, -, hnone, -, -, heq⟩ :=
    f.step_cases pdu
  · rw [heq]
    exact h
  · rw [heq]
    exact h.store hs (s.receive_info ip tcp)
  · rw [heq]
    exact h.insert_new hnone _ _

/-- **The table is well formed at every point of every run.** -/
theorem Follower.WF.follow {f : Follower} (h : f.WF) (pdus : List PDU) : (f.follow pdus).1.WF :=
  run_invariant Follower.WF (fun _ => True) (fun _ pdu _ h => h.step pdu) h (fun _ _ => trivial)

/-! ### Packets of a connection and of others -/

/-- A packet between other endpoints leaves the entries of a pair alone, and no call
for it shows a stream of the pair. -/
theorem Follower.WF.step_foreign {f : Follower} (h : f.WF) {pair : StreamInfo} {pdu : PDU}
    (hpdu : pdu.isBetween pair = false) :
    (∀ key, pair.sameEnds key = true →
      (f.step pdu).1.sessions.find? key = f.sessions.find? key) ∧
    ∀ e ∈ (f.step pdu).2, pair.sameEnds e.stream.info = false := by
  obtain ⟨-, heq⟩ | ⟨ip, tcp, key, s, rfl, hs, hkey, -, heq⟩ | ⟨ip, tcp, rfl, -, -, -, heq⟩ :=
    f.step_cases pdu
  · rw [heq]
    exact ⟨fun _ _ => rfl, fun e he => absurd he List.not_mem_nil⟩
  · -- the entry reached is not one of the pair's, and its calls carry its own endpoints
    have hother : pair.sameEnds key = false := by
      rcases hkey with rfl | rfl
      · exact hpdu
      · rw [StreamInfo.sameEnds_swap]
        exact hpdu
    rw [heq]
    refine ⟨fun key' hkey' => ?_, fun e he => ?_⟩
    · rw [find?_store, if_neg]
      intro hkeys
      rw [hkeys, hother] at hkey'
      exact absurd hkey' (by decide)
    · rw [(TCPCapStream.mem_receive he).1, h.info_eq key s hs, StreamInfo.sameEnds_swap, hother]
  · rw [heq]
    refine ⟨fun key' hkey' => ?_, fun e he => absurd he List.not_mem_nil⟩
    refine OrdMap.find?_insert_of_ne _ _ ?_
    intro hkeys
    rw [hkeys, StreamInfo.sameEnds_swap] at hkey'
    exact absurd (hpdu.symm.trans hkey') (by decide)

/-- A packet of a stored connection reaches its entry, in either direction. -/
theorem Follower.WF.step_own {f : Follower} (h : f.WF) {key : StreamInfo} {s : TCPCapStream}
    (hs : f.sessions.find? key = some s) {ip : IP} {tcp : TCP}
    (hends : s.info.sameEnds (packetInfo ip tcp) = true) :
    f.step ⟨some ip, some tcp⟩ = (f.store key (s.receive ip tcp).1, (s.receive ip tcp).2) := by
  have hlook : f.lookup (packetInfo ip tcp) = some (key, s) := by
    rw [h.info_eq key s hs, StreamInfo.sameEnds_iff, StreamInfo.swap_swap] at hends
    unfold lookup
    rcases hends with hinfo | hinfo
    · rw [hinfo]
      cases hswap : f.sessions.find? key.swap with
      | none => simp [hs]
      | some t =>
          have hkey := h.swap_unique key (OrdMap.mem_iff_exists.mpr ⟨s, hs⟩)
            (OrdMap.mem_iff_exists.mpr ⟨t, hswap⟩)
          rw [hkey, hs] at hswap
          rw [hkey, Option.some.inj hswap]
    · rw [hinfo, hs]
  rw [step_eq, hlook]

end CLabs.Tcp
