import CLabs.Sniffer.Http
import CLabs.Tcp.Follower

/-!
# CLabs.Sniffer.Sessions

**The follower and the sniffer as one system.** Both keep a table of connections: the
follower's is keyed by endpoints, the sniffer's by the text `get_id` makes of them. The
sniffer's is filled by `data_fun` and emptied by `end_fun` and by `gc`, so that it must
not keep a connection the follower has forgotten. `sessions_subset` says that it does
not, whatever is captured and whenever `gc` runs.
-/

namespace CLabs.Sniffer

open CLabs.Lib CLabs.Tcp

/-- The follower with its two functors' state. -/
structure System where
  follower : Follower
  globals : Globals

/-- The system before the first packet. -/
def System.init : System := ⟨Follower.init, Globals.init⟩

/-- What happens to the system. -/
inductive Input
  /-- A packet is captured: `callback(pdu, http_cap, http_fin)`. The signal handler runs
  `gc` so many times after the call of `http_cap`. -/
  | packet (pdu : PDU) (collections : Nat)
  /-- `gc` is run by the signal handler. -/
  | collect

/-- `http_cap`, and `gc` runs that come before the next call. -/
def capThenCollect (env : Env) (collections : Nat) (g : Globals) (tcp : TCPCapStream) : Globals :=
  (gc env)^[collections] (httpCap env g tcp)

/-- One input. -/
def System.step (env : Env) (s : System) : Input → System
  | .packet pdu collections =>
      let called := s.follower.callback (capThenCollect env collections) httpFin s.globals pdu
      ⟨called.1, called.2⟩
  | .collect => { s with globals := gc env s.globals }

/-- Every session of the sniffer belongs to a stream of the follower. -/
structure System.Tracked (s : System) : Prop where
  wf : s.follower.WF
  live : ∀ id ∈ s.globals.sessions,
    ∃ key stream, s.follower.sessions.find? key = some stream ∧ id = getId stream.info

section

variable (env : Env)

theorem mem_gc {g : Globals} {id : StdString} (h : id ∈ (gc env g).sessions) :
    id ∈ g.sessions := by
  obtain ⟨st, hst⟩ := OrdMap.mem_iff_exists.mp h
  exact OrdMap.mem_iff_exists.mpr ⟨st, find?_gc env g hst⟩

theorem mem_iterate_gc {collections : Nat} {g : Globals} {id : StdString}
    (h : id ∈ ((gc env)^[collections] g).sessions) : id ∈ g.sessions := by
  induction collections generalizing g with
  | zero => exact h
  | succ n ih => exact mem_gc env (ih h)

/-- After the call of `data_fun` for a stream its id may be in the table; otherwise the
table has not grown. -/
theorem mem_capThenCollect {collections : Nat} {g : Globals} {tcp : TCPCapStream} {id : StdString}
    (h : id ∈ (capThenCollect env collections g tcp).sessions) :
    id = getId tcp.info ∨ id ∈ g.sessions := by
  by_cases hid : id = getId tcp.info
  · exact Or.inl hid
  · have hcapture := mem_gc env (mem_iterate_gc env h)
    rw [OrdMap.mem_iff, find?_capture_of_ne env g tcp hid, ← OrdMap.mem_iff] at hcapture
    exact Or.inr hcapture

/-- The calls made for one packet of a stream add no id but its own, and that one is gone
when the stream is finished. -/
theorem mem_receive_calls {collections : Nat} {g : Globals} {s : TCPCapStream} {ip : IP}
    {tcp : TCP} {id : StdString}
    (h : id ∈ ((s.receive ip tcp).2.foldl
      (Event.apply (capThenCollect env collections) httpFin) g).sessions) :
    (id ≠ getId s.info → id ∈ g.sessions) ∧
      ((s.receive ip tcp).1.finSent = true → id ≠ getId s.info) := by
  rw [TCPCapStream.receive_snd, List.foldl_append] at h
  generalize hg' : List.foldl (Event.apply (capThenCollect env collections) httpFin) g
    (if (s.update ip tcp).2.1 then [.data (s.update ip tcp).1] else []) = g' at h
  have hdata : id ∈ g'.sessions → id ≠ getId s.info → id ∈ g.sessions := by
    intro hmem hne
    rw [← hg'] at hmem
    split_ifs at hmem
    · rcases mem_capThenCollect env hmem with hid | hmem
      · rw [TCPCapStream.update_info] at hid
        exact absurd hid hne
      · exact hmem
    · exact hmem
  by_cases hfin : (s.receive ip tcp).1.finSent = true
  · rw [if_pos hfin] at h
    have herase : id ∈ g'.sessions.erase (getId (s.receive ip tcp).1.info) := h
    rw [TCPCapStream.receive_info, OrdMap.mem_erase] at herase
    exact ⟨hdata herase.2, fun _ => herase.1⟩
  · rw [if_neg hfin] at h
    exact ⟨hdata h, fun hfin' => absurd hfin' hfin⟩

theorem System.Tracked.packet {s : System} (h : s.Tracked) (pdu : PDU) (collections : Nat) :
    (s.step env (.packet pdu collections)).Tracked := by
  have heq := s.follower.callback_eq_step (capThenCollect env collections) httpFin s.globals pdu
  have hwf := h.wf.step pdu
  unfold System.step
  dsimp only
  rw [heq]
  refine ⟨hwf, ?_⟩
  dsimp only
  obtain ⟨-, hstep⟩ | ⟨ip, tcp, key, stream, -, hstream, -, -, hstep⟩ |
      ⟨ip, tcp, -, hnone, -, -, hstep⟩ := s.follower.step_cases pdu
  · rw [hstep]
    exact h.live
  · rw [hstep]
    intro id hid
    obtain ⟨hold, hgone⟩ := mem_receive_calls env hid
    by_cases hown : id = getId stream.info
    · -- the stream's own id: then the stream is not finished, and stays
      have hfin : (stream.receive ip tcp).1.finSent = false := by
        by_contra hfin
        exact hgone (Bool.not_eq_false _ ▸ hfin) hown
      refine ⟨key, (stream.receive ip tcp).1, ?_, by rw [TCPCapStream.receive_info, hown]⟩
      rw [Follower.find?_store, if_pos rfl, hfin]
      rfl
    · -- another id: its stream is stored under another key
      obtain ⟨key', stream', hstream', hid'⟩ := h.live id (hold hown)
      refine ⟨key', stream', ?_, hid'⟩
      rw [Follower.find?_store, if_neg]
      · exact hstream'
      · intro hkey
        rw [hkey, hstream] at hstream'
        obtain rfl := Option.some.inj hstream'
        exact hown hid'
  · rw [hstep]
    intro id hid
    obtain ⟨key, stream, hstream, hid'⟩ := h.live id hid
    refine ⟨key, stream, ?_, hid'⟩
    -- the new key was not in the table
    refine (OrdMap.find?_insert_of_ne _ _ fun hkey => ?_).trans hstream
    rw [hkey, (Follower.lookup_eq_none.mp hnone).2] at hstream
    exact absurd hstream (by simp)

theorem System.Tracked.collect {s : System} (h : s.Tracked) :
    (s.step env .collect).Tracked := by
  exact ⟨h.wf, fun id hid => h.live id (mem_gc env hid)⟩

/-- What one input keeps, a run keeps. -/
theorem System.Tracked.run (inputs : List Input) :
    (inputs.foldl (System.step env) System.init).Tracked := by
  induction inputs using List.reverseRecOn with
  | nil =>
      refine ⟨Follower.WF.init, fun id hid => ?_⟩
      simp [System.init, Globals.init, OrdMap.mem_iff] at hid
  | append_singleton inputs input ih =>
      rw [List.foldl_append]
      cases input with
      | packet pdu collections => exact ih.packet env pdu collections
      | collect => exact ih.collect env

/-- **No finished connection stays in the sniffer's table.** After every sequence of
packets and `gc` runs, each of its keys is the id of a stream in the follower's table. -/
theorem sessions_subset (inputs : List Input) :
    ∀ id ∈ (inputs.foldl (System.step env) System.init).globals.sessions,
      ∃ key stream,
        (inputs.foldl (System.step env) System.init).follower.sessions.find? key = some stream ∧
          id = getId stream.info :=
  (System.Tracked.run env inputs).live

end

/-- The client `1:5000` of the server `2:80` connects and sends one byte. -/
def sampleInputs : List Input :=
  [.packet ⟨some ⟨1, 2⟩, some ⟨5000, 80, 99, 0, 0x02, none⟩⟩ 0,
    .packet ⟨some ⟨2, 1⟩, some ⟨80, 5000, 20, 100, 0x12, none⟩⟩ 0,
    .packet ⟨some ⟨1, 2⟩, some ⟨5000, 80, 100, 21, 0x18, some ⟨0, [65]⟩⟩⟩ 1]

/-- Its session is in the sniffer's table, and its stream in the follower's. -/
theorem sessions_subset_sampleInputs :
    getId ⟨1, 2, 5000, 80⟩ ∈
        (sampleInputs.foldl (System.step sampleEnv) System.init).globals.sessions ∧
      ∃ key stream,
        (sampleInputs.foldl (System.step sampleEnv) System.init).follower.sessions.find? key =
            some stream ∧
          getId ⟨1, 2, 5000, 80⟩ = getId stream.info := by
  have hmem : getId ⟨1, 2, 5000, 80⟩ ∈
      (sampleInputs.foldl (System.step sampleEnv) System.init).globals.sessions := by decide
  exact ⟨hmem, sessions_subset sampleEnv sampleInputs _ hmem⟩

end CLabs.Sniffer
