import CLabs.Sniffer.Http

/-!
# CLabs.Sniffer.Stats

**Which records of `Stream::stats` a call of `http_cap` changes.** A call appends a record
for its own connection at most, with one exception: `stat(flow, size)` adds to
`stats.back()`, whichever connection that record belongs to. `stats_separate_iff` says
that records of other connections are left alone in a run exactly if this never
happens (`Mixes`), and `stats_mixed` is a run in which it does.
-/

namespace CLabs.Sniffer

open CLabs.Lib CLabs.Tcp

/-- The counter that a record of a flow is counted in. -/
def Stream.counter (flow : Flow) (record : Stream) : Nat :=
  match flow with
  | .CLIENT => record.sent
  | .SERVER => record.recv
  | .UNKNOWN => 0

section

variable (env : Env)

/-! ### A session that is not recognised -/

/-- From the state `UNKNOWN` a record is appended, and the search ends, or nothing
happens. -/
theorem httpInspect_unknown {i : Inspection} (h : i.st.state = .UNKNOWN) (flow : Flow)
    (hflow : flow ≠ .UNKNOWN) (payload mark : StdString) :
    httpInspect env i flow payload mark = (false, i) ∨
      ∃ data, httpInspect env i flow payload mark = (true, i.stat env flow data) := by
  unfold httpInspect
  rw [h]
  by_cases hlen : payload.length > 0
  · rw [if_pos hlen]
    cases header payload mark with
    | none => exact Or.inl rfl
    | some data =>
        cases flow with
        | CLIENT => exact Or.inr ⟨_, rfl⟩
        | SERVER => exact Or.inr ⟨_, rfl⟩
        | UNKNOWN => exact absurd rfl hflow
  · rw [if_neg hlen]
    exact Or.inl rfl

theorem inspectMethods_unknown {i : Inspection} (h : i.st.state = .UNKNOWN)
    (payload : StdString) (marks : List StdString) :
    inspectMethods env payload marks i = (false, i) ∨
      ∃ data, inspectMethods env payload marks i = (true, i.stat env .CLIENT data) := by
  induction marks with
  | nil => exact Or.inl rfl
  | cons mark marks ih =>
      unfold inspectMethods
      rcases httpInspect_unknown env h .CLIENT (by decide) payload mark with
        hnone | ⟨data, hdata⟩
      · rw [hnone]
        exact ih
      · rw [hdata]
        exact Or.inr ⟨data, rfl⟩

/-- Everything a call can do with such a session. -/
theorem inspectBoth_unknown {i : Inspection} (h : i.st.state = .UNKNOWN)
    (client server : StdString) :
    inspectBoth env client server i = i ∨
      ∃ flow data, flow ≠ .UNKNOWN ∧ inspectBoth env client server i = i.stat env flow data := by
  unfold inspectBoth
  rcases inspectMethods_unknown env h client methods with hnone | ⟨data, hdata⟩
  · rw [hnone]
    rcases httpInspect_unknown env h .SERVER (by decide) server (lit "HTTP/") with
      hnone' | ⟨data, hdata⟩
    · exact Or.inl (congrArg Prod.snd hnone')
    · exact Or.inr ⟨.SERVER, data, by decide, congrArg Prod.snd hdata⟩
  · rw [hdata]
    exact Or.inr ⟨.CLIENT, data, by decide, rfl⟩

/-! ### A session that is recognised -/

/-- What `http_inspect` does with a payload of a recognised session. -/
def Inspection.count (i : Inspection) (payload : StdString) : Inspection :=
  if payload.length > 0 then i.statSize i.st.state payload.length else i

theorem Inspection.count_st (i : Inspection) (payload : StdString) :
    (i.count payload).st = i.st := by
  unfold Inspection.count Inspection.statSize
  split_ifs
  · split <;> rfl
  · rfl

/-- A recognised session is never recognised again; its payload is counted. -/
theorem httpInspect_known {i : Inspection} (h : i.st.state ≠ .UNKNOWN) (flow : Flow)
    (payload mark : StdString) :
    httpInspect env i flow payload mark = (false, i.count payload) := by
  unfold httpInspect Inspection.count
  by_cases hlen : payload.length > 0
  · rw [if_pos hlen, if_pos hlen]
    cases hstate : i.st.state with
    | UNKNOWN => exact absurd hstate h
    | CLIENT => rfl
    | SERVER => rfl
  · rw [if_neg hlen, if_neg hlen]

/-- Each of the methods counts the payload. -/
theorem inspectMethods_known (payload : StdString) (marks : List StdString) :
    ∀ {i : Inspection}, i.st.state ≠ .UNKNOWN →
      inspectMethods env payload marks i =
        (false, (List.replicate marks.length payload).foldl Inspection.count i) := by
  induction marks with
  | nil => intro i _; rfl
  | cons mark marks ih =>
      intro i h
      unfold inspectMethods
      rw [httpInspect_known env h]
      exact ih (by rwa [i.count_st])

theorem foldl_count_st (i : Inspection) (payloads : List StdString) :
    (payloads.foldl Inspection.count i).st = i.st := by
  induction payloads generalizing i with
  | nil => rfl
  | cons payload payloads ih => rw [List.foldl_cons, ih, i.count_st]

/-- The payloads that a call counts: the client's for each of the methods, then the
server's. -/
def counted (client server : StdString) : List StdString :=
  List.replicate methods.length client ++ [server]

theorem sum_counted (client server : StdString) :
    ((counted client server).map List.length).sum = 6 * client.length + server.length := by
  rw [counted, List.map_append, List.map_replicate, List.sum_append, List.sum_replicate,
    smul_eq_mul]
  rfl

/-- Everything a call does with a recognised session. -/
theorem inspectBoth_count {i : Inspection} (h : i.st.state ≠ .UNKNOWN)
    (client server : StdString) :
    inspectBoth env client server i = (counted client server).foldl Inspection.count i := by
  unfold inspectBoth counted
  rw [inspectMethods_known env client methods h, List.foldl_append]
  dsimp only
  rw [if_neg Bool.false_ne_true, httpInspect_known env (by rwa [foldl_count_st])]
  rfl

/-- `size` bytes have been added to the counter of the last record, if there is one, and
nothing else has changed but its time. -/
structure Inspection.Added (i i' : Inspection) (size : Nat) : Prop where
  st_eq : i'.st = i.st
  nil : i.stats = [] → i'.stats = []
  concat : ∀ records back, i.stats = records ++ [back] →
    ∃ back', i'.stats = records ++ [back'] ∧
      back'.id = back.id ∧ back'.data = back.data ∧ back'.state = back.state ∧
      back'.counter i.st.state = back.counter i.st.state + size

theorem Inspection.Added.refl (i : Inspection) : i.Added i 0 :=
  ⟨rfl, id, fun _ back hstats => ⟨back, hstats, rfl, rfl, rfl, rfl⟩⟩

theorem Inspection.Added.trans {i i' i'' : Inspection} {size size' : Nat}
    (h : i.Added i' size) (h' : i'.Added i'' size') : i.Added i'' (size + size') := by
  refine ⟨h'.st_eq.trans h.st_eq, fun hnil => h'.nil (h.nil hnil), fun records back hstats => ?_⟩
  obtain ⟨back', hstats', hid, hdata, hstate, hcount⟩ := h.concat records back hstats
  obtain ⟨back'', hstats'', hid', hdata', hstate', hcount'⟩ := h'.concat records back' hstats'
  rw [h.st_eq] at hcount'
  exact ⟨back'', hstats'', hid'.trans hid, hdata'.trans hdata, hstate'.trans hstate, by omega⟩

theorem Inspection.Added.length {i i' : Inspection} {size : Nat} (h : i.Added i' size) :
    i'.stats.length = i.stats.length := by
  rcases List.eq_nil_or_concat' i.stats with hnil | ⟨records, back, hstats⟩
  · rw [hnil, h.nil hnil]
  · obtain ⟨back', hstats', -⟩ := h.concat records back hstats
    rw [hstats, hstats', List.length_append, List.length_append]
    rfl

theorem Inspection.statSize_added {i : Inspection} (h : i.st.state ≠ .UNKNOWN) (size : Nat) :
    i.Added (i.statSize i.st.state size) size := by
  unfold Inspection.statSize
  refine ⟨by split <;> rfl, fun hnil => by rw [hnil]; exact hnil, fun records back hstats => ?_⟩
  rw [hstats, List.getLast?_concat]
  refine ⟨back.addSize i.st i.st.state size, by simp, ?_⟩
  cases hstate : i.st.state with
  | UNKNOWN => exact absurd hstate h
  | CLIENT => exact ⟨rfl, rfl, rfl, rfl⟩
  | SERVER => exact ⟨rfl, rfl, rfl, rfl⟩

theorem Inspection.count_added {i : Inspection} (h : i.st.state ≠ .UNKNOWN)
    (payload : StdString) : i.Added (i.count payload) payload.length := by
  unfold Inspection.count
  split_ifs with hlen
  · exact i.statSize_added h payload.length
  · have hzero : payload.length = 0 := by omega
    rw [hzero]
    exact Inspection.Added.refl i

theorem foldl_count_added (payloads : List StdString) :
    ∀ {i : Inspection}, i.st.state ≠ .UNKNOWN →
      i.Added (payloads.foldl Inspection.count i) (payloads.map List.length).sum := by
  induction payloads with
  | nil => intro i _; exact Inspection.Added.refl i
  | cons payload payloads ih =>
      intro i h
      rw [List.foldl_cons, List.map_cons, List.sum_cons]
      exact (i.count_added h payload).trans (ih (by rwa [i.count_st]))

theorem inspectBoth_known {i : Inspection} (h : i.st.state ≠ .UNKNOWN)
    (client server : StdString) :
    i.Added (inspectBoth env client server i) (6 * client.length + server.length) ∧
      (client = [] → server = [] → inspectBoth env client server i = i) := by
  rw [inspectBoth_count env h, ← sum_counted]
  refine ⟨foldl_count_added _ h, ?_⟩
  intro hclient hserver
  rw [hclient, hserver]
  rfl

/-! ### One call -/

/-- Every record of another connection is where it was, and as it was. -/
def KeepsOthers (id : StdString) (stats stats' : List Stream) : Prop :=
  ∀ (n : Nat) (record : Stream), stats[n]? = some record → record.id ≠ id → stats'[n]? = some record

/-- The call is for a recognised session with data to count, and the last record is not
one of its connection. -/
def Mixes (s : Globals) (tcp : TCPCapStream) : Prop :=
  ∃ st back, s.sessions.find? (getId tcp.info) = some st ∧ st.state ≠ .UNKNOWN ∧
    s.stats.getLast? = some back ∧ back.id ≠ getId tcp.info ∧
    (tcp.client.payload ≠ [] ∨ tcp.server.payload ≠ [])

theorem keepsOthers_of_isPrefix {id : StdString} {stats stats' : List Stream}
    (h : stats <+: stats') : KeepsOthers id stats stats' := by
  intro n record hrecord _
  obtain ⟨rest, rfl⟩ := h
  have hlt : n < stats.length := (List.getElem?_eq_some_iff.mp hrecord).1
  rw [List.getElem?_append_left hlt, hrecord]

/-- When only the last record is changed, the others are kept iff it is the connection's
own or did not change. -/
theorem keepsOthers_concat_iff {id : StdString} {records : List Stream} {back back' : Stream} :
    KeepsOthers id (records ++ [back]) (records ++ [back']) ↔ back.id = id ∨ back' = back := by
  constructor
  · intro h
    by_cases hid : back.id = id
    · exact Or.inl hid
    · have hlast := h records.length back (by simp) hid
      rw [List.getElem?_concat_length] at hlast
      exact Or.inr (Option.some.inj hlast)
  · intro h n record hrecord hid
    by_cases hlt : n < records.length
    · rw [List.getElem?_append_left hlt] at hrecord ⊢
      exact hrecord
    · have hn : n = records.length := by
        have := (List.getElem?_eq_some_iff.mp hrecord).1
        rw [List.length_append, List.length_singleton] at this
        omega
      rw [hn, List.getElem?_concat_length] at hrecord ⊢
      obtain rfl := Option.some.inj hrecord
      rcases h with hown | hsame
      · exact absurd hown hid
      · rw [hsame]

theorem inspectBoth_keepsOthers_iff (i : Inspection) (id client server : StdString) :
    KeepsOthers id i.stats (inspectBoth env client server i).stats ↔
      i.st.state = .UNKNOWN ∨ (∀ back, i.stats.getLast? = some back → back.id = id) ∨
        (client = [] ∧ server = []) := by
  by_cases hunknown : i.st.state = .UNKNOWN
  · refine iff_of_true (keepsOthers_of_isPrefix ?_) (Or.inl hunknown)
    rcases inspectBoth_unknown env hunknown client server with hsame | ⟨flow, data, -, hstat⟩
    · rw [hsame]
    · rw [hstat]
      exact List.prefix_append _ _
  obtain ⟨hadded, hsame⟩ := inspectBoth_known env hunknown client server
  rcases List.eq_nil_or_concat' i.stats with hnil | ⟨records, back, hstats⟩
  · refine iff_of_true ?_ (Or.inr (Or.inl fun back hback => ?_))
    · intro n record hrecord
      rw [hnil] at hrecord
      exact absurd hrecord (by simp)
    · rw [hnil] at hback
      exact absurd hback (by simp)
  obtain ⟨back', hstats', -, -, -, hcount⟩ := hadded.concat records back hstats
  rw [hstats', hstats, keepsOthers_concat_iff, List.getLast?_concat]
  constructor
  · intro hcases
    rcases hcases with hown | hsame'
    · refine Or.inr (Or.inl fun b hb => ?_)
      rw [← Option.some.inj hb, hown]
    · -- the counter has not moved, so there was nothing to count
      rw [hsame'] at hcount
      have hclient : client.length = 0 := by omega
      have hserver : server.length = 0 := by omega
      exact Or.inr (Or.inr ⟨List.eq_nil_of_length_eq_zero hclient,
        List.eq_nil_of_length_eq_zero hserver⟩)
  · intro hcases
    rcases hcases with hunknown' | hown | ⟨hclient, hserver⟩
    · exact absurd hunknown' hunknown
    · exact Or.inl (hown back rfl)
    · rw [hsame hclient hserver, hstats] at hstats'
      exact Or.inr (List.singleton_inj.mp (List.append_cancel_left hstats')).symm

/-- A call for a session that is known inspects what `countPayload` makes of it. -/
theorem capture_counted {g : Globals} {tcp : TCPCapStream} {st : Stream}
    (h : g.sessions.find? (getId tcp.info) = some st) {counted : Stream × Nat}
    (hcounted : countPayload env st tcp.client.payload tcp.server.payload (g.reads + 2) = counted) :
    (capture env g tcp).sessions.find? (getId tcp.info) =
        some (inspectBoth env tcp.client.payload tcp.server.payload
          ⟨counted.1, g.stats, counted.2⟩).st ∧
      (capture env g tcp).stats = (inspectBoth env tcp.client.payload tcp.server.payload
          ⟨counted.1, g.stats, counted.2⟩).stats := by
  simp only [capture, h, hcounted, OrdMap.find?_insert_self, and_self]

/-- What a call does with a session that is known. -/
theorem capture_known {g : Globals} {tcp : TCPCapStream} {st : Stream}
    (h : g.sessions.find? (getId tcp.info) = some st) :
    ∃ i : Inspection, i.stats = g.stats ∧ i.st.id = st.id ∧ i.st.state = st.state ∧
      i.st.initial = st.initial ∧
      (capture env g tcp).sessions.find? (getId tcp.info) =
        some (inspectBoth env tcp.client.payload tcp.server.payload i).st ∧
      (capture env g tcp).stats =
        (inspectBoth env tcp.client.payload tcp.server.payload i).stats := by
  obtain ⟨counted, hcounted⟩ : ∃ counted, countPayload env st tcp.client.payload
      tcp.server.payload (g.reads + 2) = counted := ⟨_, rfl⟩
  obtain ⟨hfind, hstats⟩ := capture_counted env h hcounted
  have hsame : counted.1.id = st.id ∧ counted.1.state = st.state ∧
      counted.1.initial = st.initial := by
    rw [← hcounted, countPayload]
    split_ifs <;> exact ⟨rfl, rfl, rfl⟩
  exact ⟨⟨counted.1, g.stats, counted.2⟩, rfl, hsame.1, hsame.2.1, hsame.2.2, hfind, hstats⟩

/-- What a call does with a connection that is new: what is stored is not what is
inspected. -/
theorem capture_new {g : Globals} {tcp : TCPCapStream}
    (h : g.sessions.find? (getId tcp.info) = none) :
    ∃ i : Inspection, i.stats = g.stats ∧ i.st.id = getId tcp.info ∧ i.st.state = .UNKNOWN ∧
      i.st.initial = env.clock g.reads ∧
      (capture env g tcp).sessions.find? (getId tcp.info) = some i.st ∧
      (capture env g tcp).stats =
        (inspectBoth env tcp.client.payload tcp.server.payload i).stats := by
  unfold capture
  dsimp only
  rw [h]
  dsimp only
  rw [OrdMap.emplace_of_find?_eq_none h, OrdMap.find?_insert_self]
  let st : Stream :=
    { newStream env g.reads with
      id := getId tcp.info
      sent := tcp.client.payload.length
      recv := tcp.server.payload.length }
  exact ⟨⟨st, g.stats, g.reads + 2⟩, rfl, rfl, rfl, rfl, rfl, rfl⟩

/-- The records after `http_cap`, by what `http_inspect` makes of the session. -/
theorem httpCap_stats (s : Globals) (tcp : TCPCapStream) :
    ∃ i : Inspection, i.stats = s.stats ∧
      i.st.state = ((s.sessions.find? (getId tcp.info)).map Stream.state).getD .UNKNOWN ∧
      (httpCap env s tcp).stats =
        (inspectBoth env tcp.client.payload tcp.server.payload i).stats := by
  rw [httpCap, gc_stats]
  cases hfind : s.sessions.find? (getId tcp.info) with
  | none =>
      obtain ⟨i, hstats, -, hstate, -, -, hstats'⟩ := capture_new env hfind
      exact ⟨i, hstats, hstate, hstats'⟩
  | some stored =>
      obtain ⟨i, hstats, -, hstate, -, -, hstats'⟩ := capture_known env hfind
      exact ⟨i, hstats, hstate, hstats'⟩

/-- The step lemma. -/
theorem httpCap_keepsOthers_iff (s : Globals) (tcp : TCPCapStream) :
    KeepsOthers (getId tcp.info) s.stats (httpCap env s tcp).stats ↔ ¬ Mixes s tcp := by
  obtain ⟨i, hstats, hstate, hcap⟩ := httpCap_stats env s tcp
  rw [hcap, ← hstats, inspectBoth_keepsOthers_iff, hstats, hstate]
  unfold Mixes
  cases hfind : s.sessions.find? (getId tcp.info) with
  | none => simp
  | some stored =>
      rw [Option.map_some, Option.getD_some]
      constructor
      · intro h ⟨st, back, hst, hknown, hback, hid, hdata⟩
        obtain rfl := Option.some.inj hst
        rcases h with hunknown | hown | ⟨hclient, hserver⟩
        · exact hknown hunknown
        · exact hid (hown back hback)
        · exact hdata.elim (absurd hclient) (absurd hserver)
      · intro hmix
        by_contra h
        simp only [not_or, not_forall, not_and_or] at h
        obtain ⟨hknown, ⟨back, hback, hid⟩, hdata⟩ := h
        exact hmix ⟨stored, back, rfl, hknown, hback, hid, hdata⟩

end

/-! ### Whole runs -/

/-- A call of the sniffer's functions. -/
inductive Call
  | cap (tcp : TCPCapStream)
  | fin (tcp : TCPCapStream)
  | collect

/-- Carry out a call. -/
def Globals.call (env : Env) (s : Globals) : Call → Globals
  | .cap tcp => httpCap env s tcp
  | .fin tcp => httpFin s tcp
  | .collect => gc env s

/-- The state after a sequence of calls. -/
def afterCalls (env : Env) (calls : List Call) : Globals :=
  calls.foldl (Globals.call env) Globals.init

/-- **Statistics of different connections**, over whole runs: every call of `http_cap` leaves
the records of the other connections alone iff none of them counts data of a
recognised session while the last record is another connection's. -/
theorem stats_separate_iff (env : Env) (calls : List Call) :
    (∀ past tcp rest, calls = past ++ .cap tcp :: rest →
      KeepsOthers (getId tcp.info) (afterCalls env past).stats
        (afterCalls env (past ++ [.cap tcp])).stats) ↔
    ∀ past tcp rest, calls = past ++ .cap tcp :: rest → ¬ Mixes (afterCalls env past) tcp := by
  have hcall : ∀ past tcp, afterCalls env (past ++ [.cap tcp]) =
      httpCap env (afterCalls env past) tcp := by
    intro past tcp
    rw [afterCalls, List.foldl_append]
    rfl
  constructor
  · intro h past tcp rest hsplit
    have hkeeps := h past tcp rest hsplit
    rw [hcall] at hkeeps
    exact (httpCap_keepsOthers_iff env _ tcp).mp hkeeps
  · intro h past tcp rest hsplit
    rw [hcall]
    exact (httpCap_keepsOthers_iff env _ tcp).mpr (h past tcp rest hsplit)

/-- A stream as `data_fun` is shown it, with the client's bytes. -/
def shown (clientPort : UInt16) (payload : StdString) : TCPCapStream :=
  ⟨⟨0, payload, ∅⟩, ⟨0, [], ∅⟩, ⟨1, 2, clientPort, 80⟩, 0, true, false⟩

/-- The connection from port 5000 is recognised, then the one from port 5001 sends a
request, then one more byte comes on the first. -/
def mixedCalls : List Call :=
  [.cap (shown 5000 (lit "GET \r\n\r\n")), .cap (shown 5000 (lit "GET \r\n\r\n")),
    .cap (shown 5001 (lit "GET \r\n\r\n"))]

/-- The byte is counted, six times over, in the record of the other connection. -/
theorem stats_mixed :
    ¬ KeepsOthers (getId (shown 5000 [1]).info) (afterCalls sampleEnv mixedCalls).stats
      (httpCap sampleEnv (afterCalls sampleEnv mixedCalls) (shown 5000 [1])).stats ∧
    (afterCalls sampleEnv mixedCalls).stats.map (fun record => (record.id, record.sent)) =
      [(getId ⟨1, 2, 5000, 80⟩, 8), (getId ⟨1, 2, 5000, 80⟩, 16), (getId ⟨1, 2, 5001, 80⟩, 8)] ∧
    (httpCap sampleEnv (afterCalls sampleEnv mixedCalls) (shown 5000 [1])).stats.map
        (fun record => (record.id, record.sent)) =
      [(getId ⟨1, 2, 5000, 80⟩, 8), (getId ⟨1, 2, 5000, 80⟩, 16), (getId ⟨1, 2, 5001, 80⟩, 14)] := by
  refine ⟨fun hkeeps => ?_, by decide, by decide⟩
  exact (httpCap_keepsOthers_iff _ _ _).mp hkeeps
    ⟨_, _, rfl, by decide, rfl, by decide, Or.inl (by decide)⟩

end CLabs.Sniffer
