import CLabs.Tcp.Follower

/-!
# CLabs.Tcp.Isolation

**Connections are isolated in the follower.** All connections share one table and
one identifier counter. What the functors are shown of the streams between two
endpoints is nevertheless a function of the packets exchanged between those two
endpoints: `follow_between` compares a run with the run of these packets alone.

The identifier of a stream counts the connections opened before it, so it is the
one thing that does depend on the rest; `anon` erases it. The proof is an
unwinding: `SameBetween` relates two followers that agree, up to identifiers, on
the two keys the pair can be stored under.
-/

namespace CLabs.Tcp

open CLabs.Lib

/-! ### Streams without their identifier -/

/-- The stream with its identifier erased. -/
def TCPCapStream.anon (s : TCPCapStream) : TCPCapStream := { s with identifier := 0 }

/-- The call with the identifier of its stream erased. -/
def Event.anon : Event → Event
  | data stream => data stream.anon
  | fin stream => fin stream.anon

namespace TCPCapStream

variable (s : TCPCapStream) (ip : IP) (tcp : TCP)

theorem update_anon :
    s.anon.update ip tcp = ((s.update ip tcp).1.anon, (s.update ip tcp).2) := by
  unfold update anon fromClient
  dsimp only
  split_ifs <;> rfl

theorem cap_anon : (s.anon.cap ip tcp).1 = (s.cap ip tcp).1.anon := by
  unfold cap anon fromClient
  dsimp only
  split_ifs <;> rfl

/-- No part of `callback` that works on a stream reads its identifier. -/
theorem receive_anon :
    s.anon.receive ip tcp = ((s.receive ip tcp).1.anon, (s.receive ip tcp).2.map Event.anon) := by
  unfold receive
  rw [update_anon]
  dsimp only
  rw [cap_anon]
  by_cases hadd : (s.update ip tcp).2.1 = true
  · simp only [hadd, if_true]
    by_cases hfin : ((s.update ip tcp).1.cap ip tcp).1.finSent = true
    · simp [hfin, anon, Event.anon]
    · simp [hfin, anon, Event.anon]
  · simp only [hadd, if_false, Bool.false_eq_true]
    by_cases hfin : (s.update ip tcp).1.finSent = true
    · simp [hfin, anon, Event.anon]
    · simp [hfin, anon]

theorem receive_fst_anon : (s.receive ip tcp).1.anon = (s.anon.receive ip tcp).1 := by
  rw [receive_anon]

theorem receive_finSent_anon :
    (s.receive ip tcp).1.finSent = (s.anon.receive ip tcp).1.finSent := by
  rw [receive_anon]
  rfl

theorem new_anon (identifier : UInt64) : (new ip tcp identifier).anon = new ip tcp 0 := rfl

end TCPCapStream

/-! ### The calls of a pair of endpoints -/

/-- What is seen of a call by an observer of the two endpoints. -/
def Event.between (pair : StreamInfo) (e : Event) : Option Event :=
  if pair.sameEnds e.stream.info then some e.anon else none

/-- The calls for a stream are seen as they are, or not at all. -/
theorem receive_between (pair : StreamInfo) (s : TCPCapStream) (ip : IP) (tcp : TCP) :
    (s.receive ip tcp).2.filterMap (Event.between pair) =
      if pair.sameEnds s.info then (s.anon.receive ip tcp).2 else [] := by
  have hinfo : ∀ e ∈ (s.receive ip tcp).2, e.stream.info = s.info := fun e he =>
    (TCPCapStream.mem_receive he).1
  rw [TCPCapStream.receive_anon]
  split_ifs with hends
  · rw [← List.filterMap_eq_map]
    refine List.filterMap_congr fun e he => ?_
    rw [Event.between, hinfo e he, if_pos hends]
    rfl
  · refine List.filterMap_eq_nil_iff.mpr fun e he => ?_
    rw [Event.between, hinfo e he, if_neg hends]

/-! ### Followers that agree on a pair -/

/-- The stream stored for a key, up to its identifier. -/
def Follower.view (f : Follower) (key : StreamInfo) : Option TCPCapStream :=
  (f.sessions.find? key).map TCPCapStream.anon

/-- The two followers hold the same streams between the two endpoints. -/
structure SameBetween (pair : StreamInfo) (f g : Follower) : Prop where
  view_eq : ∀ key, pair.sameEnds key = true → f.view key = g.view key
  wf : f.WF

theorem Follower.view_store (f : Follower) (key key' : StreamInfo) (s : TCPCapStream) :
    (f.store key s).view key' =
      if key' = key then (if s.finSent then none else some s.anon) else f.view key' := by
  unfold view
  rw [find?_store]
  split_ifs <;> rfl

theorem Follower.view_insert (f : Follower) (key key' : StreamInfo) (s : TCPCapStream)
    (last : UInt64) :
    (Follower.mk (f.sessions.insert key s) last).view key' =
      if key' = key then some s.anon else f.view key' := by
  unfold view
  rw [OrdMap.find?_insert]
  split_ifs <;> rfl

/-- What the lookups find is determined by the two views. -/
theorem Follower.lookup_view (f : Follower) (info : StreamInfo) :
    (f.lookup info).map (fun entry => (entry.1, entry.2.anon)) =
      match f.view info with
      | some s => some (info, s)
      | none => (f.view info.swap).map fun s => (info.swap, s) := by
  unfold lookup view
  cases f.sessions.find? info with
  | some s => rfl
  | none => cases f.sessions.find? info.swap <;> rfl

theorem SameBetween.lookup_eq {pair : StreamInfo} {f g : Follower} (h : SameBetween pair f g)
    (info : StreamInfo) (hinfo : pair.sameEnds info = true) :
    (f.lookup info).map (fun entry => (entry.1, entry.2.anon)) =
      (g.lookup info).map (fun entry => (entry.1, entry.2.anon)) := by
  rw [Follower.lookup_view, Follower.lookup_view, h.view_eq info hinfo,
    h.view_eq info.swap (by rwa [StreamInfo.sameEnds_swap])]

/-! ### Unwinding -/

/-- A packet of another connection changes nothing the observer can see. -/
theorem SameBetween.step_other {pair : StreamInfo} {f g : Follower} (h : SameBetween pair f g)
    {pdu : PDU} (hpdu : pdu.isBetween pair = false) :
    SameBetween pair (f.step pdu).1 g ∧ (f.step pdu).2.filterMap (Event.between pair) = [] := by
  obtain ⟨hfind, hinfo⟩ := h.wf.step_foreign hpdu
  refine ⟨⟨fun key hkey => ?_, h.wf.step pdu⟩, List.filterMap_eq_nil_iff.mpr fun e he => ?_⟩
  · rw [← h.view_eq key hkey, Follower.view, hfind key hkey]
    rfl
  · rw [Event.between, hinfo e he]
    rfl

/-- A packet of the pair does the same to both followers. -/
theorem SameBetween.step_same {pair : StreamInfo} {f g : Follower} (h : SameBetween pair f g)
    {pdu : PDU} (hpdu : pdu.isBetween pair = true) :
    SameBetween pair (f.step pdu).1 (g.step pdu).1 ∧
      (f.step pdu).2.filterMap (Event.between pair) =
        (g.step pdu).2.filterMap (Event.between pair) := by
  obtain ⟨ip, tcp, rfl, hends⟩ := PDU.eq_of_isBetween hpdu
  suffices hstep : (∀ key, pair.sameEnds key = true →
        (f.step ⟨some ip, some tcp⟩).1.view key = (g.step ⟨some ip, some tcp⟩).1.view key) ∧
      (f.step ⟨some ip, some tcp⟩).2.filterMap (Event.between pair) =
        (g.step ⟨some ip, some tcp⟩).2.filterMap (Event.between pair) from
    ⟨⟨hstep.1, h.wf.step _⟩, hstep.2⟩
  rw [Follower.step_eq, Follower.step_eq]
  have hlook := h.lookup_eq (packetInfo ip tcp) hends
  cases hf : f.lookup (packetInfo ip tcp) with
  | some entry =>
      obtain ⟨key, s⟩ := entry
      rw [hf] at hlook
      obtain ⟨⟨key', t⟩, hg, hentry⟩ := Option.map_eq_some_iff.mp hlook.symm
      obtain ⟨rfl, hanon⟩ := Prod.mk.inj hentry
      change t.anon = s.anon at hanon
      rw [hg]
      refine ⟨fun k hk => ?_, ?_⟩
      · rw [Follower.view_store, Follower.view_store, h.view_eq k hk,
          TCPCapStream.receive_fst_anon, ← hanon, ← TCPCapStream.receive_fst_anon,
          TCPCapStream.receive_finSent_anon, ← hanon, ← TCPCapStream.receive_finSent_anon]
      · have hinfo : t.info = s.info := by
          show t.anon.info = s.anon.info
          rw [hanon]
        rw [receive_between, receive_between, hanon, hinfo]
  | none =>
      rw [hf] at hlook
      have hg : g.lookup (packetInfo ip tcp) = none := Option.map_eq_none_iff.mp hlook.symm
      rw [hg]
      -- a new stream carries the counter, which `anon` erases
      by_cases hopen : tcp.opens = true
      · simp only [hopen, if_true]
        refine ⟨fun k hk => ?_, trivial⟩
        rw [Follower.view_insert, Follower.view_insert, h.view_eq k hk, TCPCapStream.new_anon,
          TCPCapStream.new_anon]
      · simp only [hopen, if_false, Bool.false_eq_true]
        exact ⟨h.view_eq, trivial⟩

/-- **Isolation.** Whatever else is on the network, the functors see of the streams
between two endpoints what they would see if only the packets between those two had
been captured. -/
theorem follow_between (pdus : List PDU) (pair : StreamInfo) :
    (Follower.init.follow pdus).2.filterMap (Event.between pair) =
      (Follower.init.follow (pdus.filter (PDU.isBetween pair))).2.filterMap
        (Event.between pair) := by
  unfold Follower.follow
  refine run_unwinding (SameBetween pair) ?_ ?_ ?_ pdus
  · intro f g pdu h hpdu
    exact h.step_same hpdu
  · intro f g pdu h hpdu
    exact h.step_other hpdu
  · exact ⟨fun _ _ => rfl, Follower.WF.init⟩

end CLabs.Tcp
