import CLabs.Sniffer.Sessions
import CLabs.Sniffer.Stats
import CLabs.Tcp.InOrder

/-!
# CLabs.Sniffer.Segmentation

**How the requests recorded depend on the way a stream is cut into segments.** The follower
hands each segment of an in-order client to `http_cap` by itself, and the payload is
capped after the call. `http_inspect` therefore looks for a request in single segments
(`recognise`), not in the stream: `request_cut_in_two` is a request that is recorded
when it comes in one segment and missed when it comes in two.

What is recorded for a new connection is what is recognised in its first segment, and the first
of what is recognised in the later ones (`requests_capturing`).
-/

namespace CLabs.Sniffer

open CLabs.Lib CLabs.Tcp

/-! ### Requests -/

/-- The request that `http_cap` finds in a client payload, taken by itself. -/
def recognise (env : Env) (payload : StdString) : Option StdString :=
  methods.findSome? fun mark => (header payload mark).map (clientRecord env mark)

/-- The text of a record, if it is a client record of the connection. -/
def Stream.request (id : StdString) (record : Stream) : Option StdString :=
  if record.id = id ∧ record.state = .CLIENT then some record.data else none

/-- The texts of the client records of a connection. -/
def requests (id : StdString) (stats : List Stream) : List StdString :=
  stats.filterMap (Stream.request id)

/-- All clock readings lie within the time in which a session does not expire. -/
def NoExpiry (env : Env) : Prop :=
  ∀ m n, (env.clock n).sec ≤ (env.clock m).sec + SECS_TO_EXPIRE

theorem requests_append (id : StdString) (stats stats' : List Stream) :
    requests id (stats ++ stats') = requests id stats ++ requests id stats' :=
  List.filterMap_append

theorem requests_added {i i' : Inspection} {size : Nat} (h : i.Added i' size) (id : StdString) :
    requests id i'.stats = requests id i.stats := by
  rcases List.eq_nil_or_concat' i.stats with hnil | ⟨records, back, hstats⟩
  · rw [hnil, h.nil hnil]
  · obtain ⟨back', hstats', hid, hdata, hstate, -⟩ := h.concat records back hstats
    have hrequest : back'.request id = back.request id := by
      rw [Stream.request, hid, hdata, hstate, Stream.request]
    rw [hstats, hstats', requests_append, requests_append]
    simp only [requests, List.filterMap_cons, hrequest]

section

variable (env : Env)

/-! ### One payload -/

theorem inspectMethods_eq {i : Inspection} (h : i.st.state = .UNKNOWN) {payload : StdString}
    (hpayload : payload ≠ []) (marks : List StdString) :
    inspectMethods env payload marks i =
      match marks.findSome? fun mark => (header payload mark).map (clientRecord env mark) with
      | none => (false, i)
      | some data => (true, i.stat env .CLIENT data) := by
  have hlen : payload.length > 0 := List.length_pos_of_ne_nil hpayload
  induction marks with
  | nil => rfl
  | cons mark marks ih =>
      unfold inspectMethods httpInspect
      dsimp only
      rw [if_pos hlen, h, List.findSome?_cons]
      cases header payload mark with
      | none => exact ih
      | some data => rfl

/-- A session that is not recognised yet, and a client payload. -/
theorem inspectBoth_eq {i : Inspection} (h : i.st.state = .UNKNOWN) {payload : StdString}
    (hpayload : payload ≠ []) :
    inspectBoth env payload [] i =
      match recognise env payload with
      | none => i
      | some data => i.stat env .CLIENT data := by
  unfold inspectBoth recognise
  dsimp only
  rw [inspectMethods_eq env h hpayload]
  cases methods.findSome? fun mark => (header payload mark).map (clientRecord env mark) with
  | none => rfl
  | some data => rfl

/-! ### One call -/

/-- Recording a request of the session adds it to the connection's requests. -/
theorem requests_stat (i : Inspection) (data : StdString) :
    requests i.st.id (i.stat env .CLIENT data).stats = requests i.st.id i.stats ++ [data] := by
  show requests i.st.id (i.stats ++ [{ i.st with data := data, state := .CLIENT }]) = _
  rw [requests_append]
  simp [requests, Stream.request]

/-- The connection has a session in the given state, begun at a time the clock showed. -/
def HasSession (g : Globals) (id : StdString) (flow : Flow) : Prop :=
  ∃ st n, g.sessions.find? id = some st ∧ st.id = id ∧ st.state = flow ∧ st.initial = env.clock n

variable {env}

theorem HasSession.gc (hclock : NoExpiry env) {g : Globals} {id : StdString} {flow : Flow}
    (h : HasSession env g id flow) : HasSession env (gc env g) id flow := by
  obtain ⟨st, n, hst, hid, hflow, hinitial⟩ := h
  refine ⟨st, n, find?_gc_of_live env (fun m => ?_) hst, hid, hflow, hinitial⟩
  have := hclock n m
  simp only [Stream.isExpired, hinitial, decide_eq_false_iff_not, not_lt]
  exact this

section

variable {g : Globals} {tcp : TCPCapStream} (hclock : NoExpiry env)

include hclock

/-- The first call for a connection records a request it recognises; the session it stores
is a copy made before. -/
theorem httpCap_new (hserver : tcp.server.payload = []) (hclient : tcp.client.payload ≠ [])
    (h : g.sessions.find? (getId tcp.info) = none) :
    HasSession env (httpCap env g tcp) (getId tcp.info) .UNKNOWN ∧
      requests (getId tcp.info) (httpCap env g tcp).stats =
        requests (getId tcp.info) g.stats ++ (recognise env tcp.client.payload).toList := by
  obtain ⟨i, hstats, hid, hstate, hinitial, hfind, hstats'⟩ := capture_new env h
  rw [hserver, inspectBoth_eq env hstate hclient] at hstats'
  rw [httpCap, gc_stats]
  refine ⟨HasSession.gc hclock ⟨i.st, g.reads, hfind, hid, hstate, hinitial⟩, ?_⟩
  rw [hstats', ← hstats, ← hid]
  cases recognise env tcp.client.payload with
  | none => exact (List.append_nil _).symm
  | some data => exact requests_stat env i data

/-- A later call, before a request has been recognised. -/
theorem httpCap_unknown (hserver : tcp.server.payload = []) (hclient : tcp.client.payload ≠ [])
    (h : HasSession env g (getId tcp.info) .UNKNOWN) :
    HasSession env (httpCap env g tcp) (getId tcp.info)
        (if (recognise env tcp.client.payload).isSome then .CLIENT else .UNKNOWN) ∧
      requests (getId tcp.info) (httpCap env g tcp).stats =
        requests (getId tcp.info) g.stats ++ (recognise env tcp.client.payload).toList := by
  obtain ⟨st, n, hst, hid, hflow, hinitial⟩ := h
  obtain ⟨i, hstats, hid', hstate, hinitial', hfind, hstats'⟩ := capture_known env hst
  rw [hserver, inspectBoth_eq env (hstate.trans hflow) hclient] at hfind hstats'
  rw [httpCap, gc_stats]
  cases hrecognise : recognise env tcp.client.payload with
  | none =>
      rw [hrecognise] at hfind hstats'
      refine ⟨HasSession.gc hclock ⟨i.st, n, hfind, hid'.trans hid, hstate.trans hflow,
        hinitial'.trans hinitial⟩, ?_⟩
      rw [hstats']
      show requests _ i.stats = _
      rw [hstats]
      exact (List.append_nil _).symm
  | some data =>
      rw [hrecognise] at hfind hstats'
      refine ⟨HasSession.gc hclock ⟨_, _, hfind, hid'.trans hid, rfl, rfl⟩, ?_⟩
      rw [hstats', ← hstats, ← hid, ← hid']
      exact requests_stat env i data

/-- And after. -/
theorem httpCap_client (h : HasSession env g (getId tcp.info) .CLIENT) :
    HasSession env (httpCap env g tcp) (getId tcp.info) .CLIENT ∧
      requests (getId tcp.info) (httpCap env g tcp).stats =
        requests (getId tcp.info) g.stats := by
  obtain ⟨st, n, hst, hid, hflow, hinitial⟩ := h
  obtain ⟨i, hstats, hid', hstate, hinitial', hfind, hstats'⟩ := capture_known env hst
  have hknown : i.st.state ≠ .UNKNOWN := by
    rw [hstate, hflow]
    decide
  have hadded := (inspectBoth_known env hknown tcp.client.payload tcp.server.payload).1
  rw [hadded.st_eq] at hfind
  rw [httpCap, gc_stats]
  refine ⟨HasSession.gc hclock ⟨i.st, n, hfind, hid'.trans hid, hstate.trans hflow,
    hinitial'.trans hinitial⟩, ?_⟩
  rw [hstats', requests_added hadded, hstats]

end

/-! ### Whole streams -/

/-- The system after a sequence of packets, without signals. -/
def System.capturing (env : Env) (s : System) (pdus : List PDU) : System :=
  pdus.foldl (fun s pdu => s.step env (.packet pdu 0)) s

/-- A segment in order is one call of `http_cap` with its bytes. -/
theorem step_inOrder (env : Env) {s : System} {info : StreamInfo} {seq : UInt32} {bytes : StdString}
    {pdu : PDU} (h : s.follower.Expects info seq) (hpdu : pdu.Sends info seq bytes) :
    ∃ shown : TCPCapStream, shown.info = info ∧ shown.client.payload = bytes ∧
      shown.server.payload = [] ∧
      (s.step env (.packet pdu 0)).follower.Expects info (seq + UInt32.ofNat bytes.length) ∧
      (s.step env (.packet pdu 0)).globals = httpCap env s.globals shown := by
  obtain ⟨shown, hevents, hinfo, hclient, hserver, hexpects⟩ := h.step hpdu
  have heq := s.follower.callback_eq_step (capThenCollect env 0) httpFin s.globals pdu
  rw [hevents] at heq
  refine ⟨shown, hinfo, hclient, hserver, ?_, ?_⟩
  · rw [System.step, heq]
    exact hexpects
  · rw [System.step, heq]
    rfl

section

variable {info : StreamInfo} (hclock : NoExpiry env)

include hclock

/-- Once a request has been recognised, no more are recorded. -/
theorem requests_capturing_client {cut : List StdString} :
    ∀ {pdus : List PDU} {seq : UInt32} {s : System}, InOrder info seq pdus cut →
      s.follower.Expects info seq → HasSession env s.globals (getId info) .CLIENT →
      requests (getId info) (s.capturing env pdus).globals.stats =
        requests (getId info) s.globals.stats := by
  induction cut with
  | nil =>
      intro pdus seq s hpdus _ _
      obtain rfl := inOrder_nil_iff.mp hpdus
      rfl
  | cons bytes cut ih =>
      intro pdus seq s hpdus hexpects hsession
      obtain ⟨pdu, rest, rfl, hsends, hrest⟩ := inOrder_cons_iff.mp hpdus
      obtain ⟨shown, rfl, rfl, -, hexpects', hglobals⟩ := step_inOrder env hexpects hsends
      obtain ⟨hsession', hrequests⟩ := httpCap_client hclock hsession
      rw [← hglobals] at hsession' hrequests
      rw [← hrequests]
      exact ih hrest hexpects' hsession'

/-- Before that, the first request recognised is recorded. -/
theorem requests_capturing_unknown {cut : List StdString} :
    ∀ {pdus : List PDU} {seq : UInt32} {s : System}, InOrder info seq pdus cut →
      s.follower.Expects info seq → HasSession env s.globals (getId info) .UNKNOWN →
      requests (getId info) (s.capturing env pdus).globals.stats =
        requests (getId info) s.globals.stats ++ (cut.findSome? (recognise env)).toList := by
  induction cut with
  | nil =>
      intro pdus seq s hpdus _ _
      obtain rfl := inOrder_nil_iff.mp hpdus
      exact (List.append_nil _).symm
  | cons bytes cut ih =>
      intro pdus seq s hpdus hexpects hsession
      obtain ⟨pdu, rest, rfl, hsends, hrest⟩ := inOrder_cons_iff.mp hpdus
      obtain ⟨shown, rfl, rfl, hserver, hexpects', hglobals⟩ := step_inOrder env hexpects hsends
      obtain ⟨hsession', hrequests⟩ :=
        httpCap_unknown hclock hserver (PDU.Sends.ne_nil hsends) hsession
      rw [← hglobals] at hsession' hrequests
      rw [List.findSome?_cons]
      cases hfound : recognise env shown.client.payload with
      | none =>
          rw [hfound] at hsession' hrequests
          rw [show requests (getId shown.info) s.globals.stats = _ from
            (hrequests.trans (List.append_nil _)).symm]
          exact ih hrest hexpects' hsession'
      | some data =>
          rw [hfound] at hsession' hrequests
          exact (requests_capturing_client hclock hrest hexpects' hsession').trans hrequests

end

/-- A new connection: the first segment is inspected by itself, and then the rest. -/
theorem requests_capturing {info : StreamInfo} {seq : UInt32} {s : System} {pdus : List PDU}
    {cut : List StdString} (hclock : NoExpiry env) (hexpects : s.follower.Expects info seq)
    (hnew : s.globals.sessions.find? (getId info) = none) (hpdus : InOrder info seq pdus cut) :
    requests (getId info) (s.capturing env pdus).globals.stats =
      requests (getId info) s.globals.stats ++
        ((cut.head?.bind (recognise env)).toList ++
          (cut.tail.findSome? (recognise env)).toList) := by
  cases cut with
  | nil =>
      obtain rfl := inOrder_nil_iff.mp hpdus
      exact (List.append_nil _).symm
  | cons bytes cut =>
      obtain ⟨pdu, rest, rfl, hsends, hrest⟩ := inOrder_cons_iff.mp hpdus
      obtain ⟨shown, rfl, rfl, hserver, hexpects', hglobals⟩ := step_inOrder env hexpects hsends
      obtain ⟨hsession, hrequests⟩ :=
        httpCap_new hclock hserver (PDU.Sends.ne_nil hsends) hnew
      rw [← hglobals] at hsession hrequests
      rw [← List.append_assoc]
      refine (requests_capturing_unknown hclock hrest hexpects' hsession).trans ?_
      rw [hrequests]
      rfl

end

/-! ### Two cuts of a request -/

/-- The client `1:5000` of the server `2:80` sends `bytes` at `seq`. -/
def samplePdu (seq : UInt32) (bytes : StdString) : PDU :=
  ⟨some ⟨1, 2⟩, some ⟨5000, 80, seq, 21, 0x18, some ⟨0, bytes⟩⟩⟩

/-- The system when its `SYN` and the `SYN|ACK` have been captured. -/
def sampleSystem : System :=
  System.init.capturing sampleEnv
    [⟨some ⟨1, 2⟩, some ⟨5000, 80, 99, 0, 0x02, none⟩⟩,
      ⟨some ⟨2, 1⟩, some ⟨80, 5000, 20, 100, 0x12, none⟩⟩]

theorem sampleEnv_noExpiry : NoExpiry sampleEnv := by
  intro m n
  show (0 : Int) ≤ 0 + 3600
  decide

theorem sampleSystem_expects : sampleSystem.follower.Expects ⟨1, 2, 5000, 80⟩ 100 :=
  ⟨Follower.WF.init.follow [⟨some ⟨1, 2⟩, some ⟨5000, 80, 99, 0, 0x02, none⟩⟩,
      ⟨some ⟨2, 1⟩, some ⟨80, 5000, 20, 100, 0x12, none⟩⟩], _, rfl, rfl, rfl, rfl⟩

theorem samplePdu_sends {seq : UInt32} {bytes : StdString} (hne : bytes ≠ [])
    (hsize : bytes.length ≤ 65535) :
    (samplePdu seq bytes).Sends ⟨1, 2, 5000, 80⟩ seq bytes :=
  ⟨_, _, _, rfl, rfl, by simp [TCP.getFlag, Flag.bit], by simp [TCP.getFlag, Flag.bit], rfl, rfl,
    rfl, hne, hsize⟩

/-- A request that is recorded when it comes in one segment, and not when it comes in two. -/
theorem request_cut_in_two :
    (sampleSystem.follower.Expects ⟨1, 2, 5000, 80⟩ 100 ∧ NoExpiry sampleEnv) ∧
    InOrder ⟨1, 2, 5000, 80⟩ 100 [samplePdu 100 (lit "GET \r\n\r\n")] [lit "GET \r\n\r\n"] ∧
    InOrder ⟨1, 2, 5000, 80⟩ 100
      [samplePdu 100 (lit "GET "), samplePdu 104 (lit "\r\n\r\n")]
      [lit "GET ", lit "\r\n\r\n"] ∧
    [lit "GET \r\n\r\n"].flatten = [lit "GET ", lit "\r\n\r\n"].flatten ∧
    (requests (getId ⟨1, 2, 5000, 80⟩) (sampleSystem.capturing sampleEnv
      [samplePdu 100 (lit "GET \r\n\r\n")]).globals.stats).length = 1 ∧
    (requests (getId ⟨1, 2, 5000, 80⟩) (sampleSystem.capturing sampleEnv
      [samplePdu 100 (lit "GET "), samplePdu 104 (lit "\r\n\r\n")]).globals.stats).length = 0 := by
  refine ⟨⟨sampleSystem_expects, sampleEnv_noExpiry⟩, ?_, ?_, by decide, by decide, by decide⟩
  · exact ⟨samplePdu_sends (by decide) (by decide), trivial⟩
  · exact ⟨samplePdu_sends (by decide) (by decide), samplePdu_sends (by decide) (by decide), trivial⟩

end CLabs.Sniffer
