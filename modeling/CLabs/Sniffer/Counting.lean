import CLabs.Sniffer.Stats

/-!
# CLabs.Sniffer.Counting

**What `http_cap` counts, and where.** There are two places for the bytes of a call: the
counters of the session, and the counters of a record.

* A session that has been recognised counts into the last record. The client's payload is
  counted once for each of the six methods, and both payloads go to the counter that the
  session's state names, so the sums are right only if there is next to nothing to count
  (`bytes_counted_iff`).
* A session that is recognised by the call hands its counters over to the record and starts
  afresh. For a connection that is new this happens to a local copy, and the session
  stored keeps the bytes and the state `UNKNOWN` (`session_updated_iff`).
-/

namespace CLabs.Sniffer

open CLabs.Lib CLabs.Tcp

/-! ### Sums over the records -/

/-- The sum of a counter over all records. -/
def total (counter : Stream → Nat) (stats : List Stream) : Nat := (stats.map counter).sum

theorem total_concat (counter : Stream → Nat) (records : List Stream) (back : Stream) :
    total counter (records ++ [back]) = total counter records + counter back := by
  simp [total]

theorem Stream.counter_addSize (record st : Stream) (state : Flow) (size : Nat) {flow : Flow}
    (hflow : flow ≠ .UNKNOWN) :
    (record.addSize st state size).counter flow =
      record.counter flow + if state = flow then size else 0 := by
  cases flow with
  | UNKNOWN => exact absurd rfl hflow
  | CLIENT => cases state <;> rfl
  | SERVER => cases state <;> rfl

section

variable {i : Inspection} {flow : Flow}

theorem Inspection.count_ne_nil (h : i.stats ≠ []) (payload : StdString) :
    (i.count payload).stats ≠ [] := by
  unfold Inspection.count Inspection.statSize
  split_ifs
  · split <;> simp [h]
  · exact h

theorem Inspection.count_total (h : i.stats ≠ []) (hflow : flow ≠ .UNKNOWN)
    (payload : StdString) :
    total (Stream.counter flow) (i.count payload).stats =
      total (Stream.counter flow) i.stats + if i.st.state = flow then payload.length else 0 := by
  unfold Inspection.count
  by_cases hlen : payload.length > 0
  · obtain ⟨records, back, hstats⟩ := (List.eq_nil_or_concat' i.stats).resolve_left h
    rw [if_pos hlen, Inspection.statSize, hstats, List.getLast?_concat]
    dsimp only
    rw [List.dropLast_concat, total_concat, total_concat, Stream.counter_addSize _ _ _ _ hflow,
      add_assoc]
  · have hzero : payload.length = 0 := by omega
    rw [if_neg hlen, hzero, ite_self, add_zero]

theorem foldl_count_total (hflow : flow ≠ .UNKNOWN) (payloads : List StdString) :
    ∀ {i : Inspection}, i.stats ≠ [] →
      total (Stream.counter flow) (payloads.foldl Inspection.count i).stats =
        total (Stream.counter flow) i.stats +
          if i.st.state = flow then (payloads.map List.length).sum else 0 := by
  induction payloads with
  | nil => intro i _; simp
  | cons payload payloads ih =>
      intro i h
      rw [List.foldl_cons, ih (Inspection.count_ne_nil h payload), i.count_st,
        Inspection.count_total h hflow, List.map_cons, List.sum_cons]
      split_ifs <;> omega

end

/-! ### There is a record to count in -/

section

variable (env : Env)

theorem inspectBoth_ne_nil {i : Inspection} (h : i.stats ≠ []) (client server : StdString) :
    (inspectBoth env client server i).stats ≠ [] := by
  by_cases hunknown : i.st.state = .UNKNOWN
  · rcases inspectBoth_unknown env hunknown client server with hsame | ⟨flow, data, -, hstat⟩
    · rwa [hsame]
    · rw [hstat]
      exact List.concat_ne_nil _ _
  · rw [inspectBoth_count env hunknown]
    exact List.foldlRecOn (motive := fun i' : Inspection => i'.stats ≠ []) _ _ h
      fun i' h' payload _ => Inspection.count_ne_nil h' payload

/-- A recognised session has left a record. -/
def Globals.Recorded (s : Globals) : Prop :=
  ∀ id st, s.sessions.find? id = some st → st.state ≠ .UNKNOWN → s.stats ≠ []

variable {env} {s : Globals}

theorem Globals.Recorded.gc (h : s.Recorded) : (gc env s).Recorded := by
  intro id st hst hknown
  rw [gc_stats]
  exact h id st (find?_gc env s hst) hknown

theorem Globals.Recorded.capture (h : s.Recorded) (tcp : TCPCapStream) :
    (capture env s tcp).Recorded := by
  intro id st hst hknown
  by_cases hid : id = getId tcp.info
  · rw [hid] at hst
    cases hfind : s.sessions.find? (getId tcp.info) with
    | none =>
        -- what is stored for a new connection is not recognised
        obtain ⟨i, -, -, hstate, -, hfind', -⟩ := capture_new env hfind
        rw [hfind'] at hst
        obtain rfl := Option.some.inj hst
        exact absurd hstate hknown
    | some stored =>
        obtain ⟨i, hstats, -, hstate, -, hfind', hstats'⟩ := capture_known env hfind
        rw [hfind'] at hst
        obtain rfl := Option.some.inj hst
        rw [hstats']
        by_cases hunknown : i.st.state = .UNKNOWN
        · rcases inspectBoth_unknown env hunknown tcp.client.payload tcp.server.payload with
            hsame | ⟨flow, data, -, hstat⟩
          · rw [hsame] at hknown
            exact absurd hunknown hknown
          · rw [hstat]
            exact List.concat_ne_nil _ _
        · refine inspectBoth_ne_nil env ?_ _ _
          rw [hstats]
          exact h _ stored hfind (hstate ▸ hunknown)
  · rw [find?_capture_of_ne env s tcp hid] at hst
    obtain ⟨i, hstats, -, hstats'⟩ := httpCap_stats env s tcp
    rw [httpCap, gc_stats] at hstats'
    rw [hstats']
    exact inspectBoth_ne_nil env (hstats ▸ h id st hst hknown) _ _

theorem afterCalls_recorded (env : Env) (calls : List Call) : (afterCalls env calls).Recorded := by
  refine List.foldlRecOn (motive := Globals.Recorded) calls (Globals.call env) ?_ ?_
  · intro id st hst
    exact absurd hst (by simp [Globals.init])
  · intro s h call _
    cases call with
    | cap tcp => exact (h.capture tcp).gc
    | fin tcp =>
        intro id st hst hknown
        exact h id st (OrdMap.find?_of_find?_erase hst) hknown
    | collect => exact h.gc

end

/-! ### Counting into the records -/

/-- What one call adds to the sum of a counter. -/
theorem httpCap_total (env : Env) {s : Globals} (hs : s.Recorded) {tcp : TCPCapStream} {st : Stream}
    (h : s.sessions.find? (getId tcp.info) = some st) (hknown : st.state ≠ .UNKNOWN)
    (flow : Flow) (hflow : flow ≠ .UNKNOWN) :
    total (Stream.counter flow) (httpCap env s tcp).stats =
      total (Stream.counter flow) s.stats +
        if st.state = flow then 6 * tcp.client.payload.length + tcp.server.payload.length
        else 0 := by
  obtain ⟨i, hstats, -, hstate, -, -, hstats'⟩ := capture_known env h
  rw [httpCap, gc_stats, hstats', inspectBoth_count env (hstate ▸ hknown),
    foldl_count_total hflow _ (hstats ▸ hs _ st h hknown), sum_counted, hstats, hstate]

/-- **Bytes of a recognised session.** In every state the sniffer can reach, a call for a
recognised session counts the client's bytes as sent and the server's as received, each
once, iff the client has none and the server's, if there are any, meet the state
`SERVER`. -/
theorem bytes_counted_iff (env : Env) (calls : List Call) (tcp : TCPCapStream) {st : Stream}
    (h : (afterCalls env calls).sessions.find? (getId tcp.info) = some st)
    (hknown : st.state ≠ .UNKNOWN) :
    (total Stream.sent (httpCap env (afterCalls env calls) tcp).stats =
          total Stream.sent (afterCalls env calls).stats + tcp.client.payload.length ∧
        total Stream.recv (httpCap env (afterCalls env calls) tcp).stats =
          total Stream.recv (afterCalls env calls).stats + tcp.server.payload.length) ↔
      tcp.client.payload = [] ∧ (tcp.server.payload = [] ∨ st.state = .SERVER) := by
  have hrecorded := afterCalls_recorded env calls
  have hsent : total Stream.sent (httpCap env (afterCalls env calls) tcp).stats = _ :=
    httpCap_total env hrecorded h hknown .CLIENT (by decide)
  have hrecv : total Stream.recv (httpCap env (afterCalls env calls) tcp).stats = _ :=
    httpCap_total env hrecorded h hknown .SERVER (by decide)
  rw [hsent, hrecv, ← List.length_eq_zero_iff, ← List.length_eq_zero_iff]
  show total Stream.sent _ + _ = total Stream.sent _ + _ ∧
    total Stream.recv _ + _ = total Stream.recv _ + _ ↔ _
  rw [Nat.add_left_cancel_iff, Nat.add_left_cancel_iff]
  cases hstate : st.state with
  | UNKNOWN => exact absurd hstate hknown
  | CLIENT =>
      rw [if_pos rfl, if_neg (by decide)]
      simp only [reduceCtorEq, or_false]
      omega
  | SERVER =>
      rw [if_neg (by decide), if_pos rfl]
      simp only [or_true, and_true]
      omega

/-- A connection on which the server sends. -/
def served (payload : StdString) : TCPCapStream :=
  ⟨⟨0, [], ∅⟩, ⟨0, payload, ∅⟩, ⟨1, 2, 5000, 80⟩, 0, true, false⟩

/-- It is recognised as a server's, by its second call. -/
def servedCalls : List Call :=
  [.cap (served (lit "HTTP/\r\n\r\n")), .cap (served (lit "HTTP/\r\n\r\n"))]

/-- Two more bytes of the server are counted right. -/
theorem bytes_counted_iff_served :
    let s := afterCalls sampleEnv servedCalls
    total Stream.sent (httpCap sampleEnv s (served [1, 2])).stats = total Stream.sent s.stats + 0 ∧
      total Stream.recv (httpCap sampleEnv s (served [1, 2])).stats =
        total Stream.recv s.stats + 2 := by
  have hst : (afterCalls sampleEnv servedCalls).sessions.find? (getId (served [1, 2]).info) =
      some ⟨getId ⟨1, 2, 5000, 80⟩, [], ⟨0, 0⟩, ⟨0, 0⟩, 0, 0, .SERVER⟩ := by decide
  exact (bytes_counted_iff sampleEnv servedCalls (served [1, 2]) hst (by decide)).mpr
    ⟨rfl, Or.inr rfl⟩

/-- A connection that is recognised as a client's, by its second call. -/
def recognisedCalls : List Call :=
  [.cap (shown 5000 (lit "GET \r\n\r\n")), .cap (shown 5000 (lit "GET \r\n\r\n"))]

/-- Its session. -/
def recognisedStream : Stream := ⟨getId ⟨1, 2, 5000, 80⟩, [], ⟨0, 0⟩, ⟨0, 0⟩, 0, 0, .CLIENT⟩

/-- One byte of the client is counted six times. -/
theorem byte_counted_six_times :
    (afterCalls sampleEnv recognisedCalls).sessions.find? (getId (shown 5000 [1]).info) =
        some recognisedStream ∧
      recognisedStream.isExpired SECS_TO_EXPIRE (sampleEnv.clock 0) = false ∧
      total Stream.sent
          (httpCap sampleEnv (afterCalls sampleEnv recognisedCalls) (shown 5000 [1])).stats =
        total Stream.sent (afterCalls sampleEnv recognisedCalls).stats + 6 := by
  decide

/-! ### Handing a session over to a record -/

/-- A call that appends one record recognises the session: the session it leaves has the state
of the record and nothing counted. -/
theorem inspectBoth_appends (env : Env) {i : Inspection} {client server : StdString}
    {record : Stream} (h : (inspectBoth env client server i).stats = i.stats ++ [record]) :
    i.st.state = .UNKNOWN ∧ record.state ≠ .UNKNOWN ∧
      (inspectBoth env client server i).st.state = record.state ∧
      (inspectBoth env client server i).st.sent = 0 ∧
      (inspectBoth env client server i).st.recv = 0 := by
  by_cases hunknown : i.st.state = .UNKNOWN
  · rcases inspectBoth_unknown env hunknown client server with hsame | ⟨flow, data, hflow, hstat⟩
    · rw [hsame] at h
      exact absurd h (by simp)
    · rw [hstat] at h ⊢
      obtain rfl := List.singleton_inj.mp (List.append_cancel_left h)
      exact ⟨hunknown, hflow, rfl, rfl, rfl⟩
  · -- a recognised session appends nothing
    have hlen := (inspectBoth_known env hunknown client server).1.length
    rw [h, List.length_append, List.length_singleton] at hlen
    omega

/-- **No update is lost.** A call appends a record, and the session is still there after it.
The session then has the state of the record and nothing counted, iff the connection
was known before the call. -/
theorem session_updated_iff (env : Env) (s : Globals) (tcp : TCPCapStream) {record st : Stream}
    (happend : (httpCap env s tcp).stats = s.stats ++ [record])
    (hid : record.id = getId tcp.info)
    (hst : (httpCap env s tcp).sessions.find? record.id = some st) :
    (st.state = record.state ∧ st.sent = 0 ∧ st.recv = 0) ↔ record.id ∈ s.sessions := by
  have hst := find?_gc env (capture env s tcp) hst
  rw [httpCap, gc_stats] at happend
  rw [hid] at hst ⊢
  cases hfind : s.sessions.find? (getId tcp.info) with
  | none =>
      obtain ⟨i, hstats, -, hstate, -, hfind', hstats'⟩ := capture_new env hfind
      refine iff_of_false (fun hupdated => ?_) (by rw [OrdMap.mem_iff, hfind]; simp)
      rw [hfind'] at hst
      obtain rfl := Option.some.inj hst
      rw [hstats', ← hstats] at happend
      obtain ⟨-, hrecord, -⟩ := inspectBoth_appends env happend
      exact hrecord (hupdated.1.symm.trans hstate)
  | some stored =>
      obtain ⟨i, hstats, -, hstate, -, hfind', hstats'⟩ := capture_known env hfind
      refine iff_of_true ?_ (OrdMap.mem_iff_exists.mpr ⟨stored, hfind⟩)
      rw [hfind'] at hst
      obtain rfl := Option.some.inj hst
      rw [hstats', ← hstats] at happend
      exact (inspectBoth_appends env happend).2.2

/-- The record that the second call of `recognisedCalls` appends. -/
def recognisedRecord : Stream :=
  ⟨getId ⟨1, 2, 5000, 80⟩, clientRecord sampleEnv (lit "GET ") (lit "GET "), ⟨0, 0⟩, ⟨0, 0⟩, 16, 0,
    .CLIENT⟩

theorem session_updated_iff_second :
    (recognisedStream.state = recognisedRecord.state ∧ recognisedStream.sent = 0 ∧
        recognisedStream.recv = 0) ↔
      recognisedRecord.id ∈
        (httpCap sampleEnv .init (shown 5000 (lit "GET \r\n\r\n"))).sessions :=
  session_updated_iff sampleEnv (httpCap sampleEnv .init (shown 5000 (lit "GET \r\n\r\n")))
    (shown 5000 (lit "GET \r\n\r\n")) (by decide) (by decide) (by decide)

/-- The record of a first request, and the session stored with it. -/
theorem new_session_not_updated :
    (httpCap sampleEnv .init (shown 5000 (lit "GET \r\n\r\n"))).stats.map
        (fun record => (record.id, record.state, record.sent)) =
      [(getId ⟨1, 2, 5000, 80⟩, .CLIENT, 8)] ∧
    ((httpCap sampleEnv .init (shown 5000 (lit "GET \r\n\r\n"))).sessions.find?
        (getId ⟨1, 2, 5000, 80⟩)).map (fun st => (st.state, st.sent)) = some (.UNKNOWN, 8) := by
  decide

end CLabs.Sniffer
