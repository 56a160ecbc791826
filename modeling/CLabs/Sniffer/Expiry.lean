import CLabs.Sniffer.Stats

/-!
# CLabs.Sniffer.Expiry

**When a session expires.** A session has two times. `touch` resets `last` with every call of
`http_cap`, but `is_expired` looks at `initial`, which is read when the session is created and
when a request or a response is recognised. A connection that stays busy for longer than
`SECS_TO_EXPIRE` therefore expires in the middle of it: `http_cap` stops counting its bytes, and
`gc` erases it.

`active_sessions_kept_iff` says in which runs this does not happen, and `busy_session_erased` is a
run in which it does.
-/

namespace CLabs.Sniffer

open CLabs.Lib CLabs.Tcp

section

variable (env : Env)

/-! ### Counting -/

/-- The sizes of the payloads are in the counters of the session, or in those of a record that the
session has handed them over to. -/
def Adds (s : Globals) (tcp : TCPCapStream) (st : Stream) : Prop :=
  (∃ st', (capture env s tcp).sessions.find? (getId tcp.info) = some st' ∧
    (capture env s tcp).stats.length = s.stats.length ∧
    st'.sent = st.sent + tcp.client.payload.length ∧
    st'.recv = st.recv + tcp.server.payload.length) ∨
  ∃ record, (capture env s tcp).stats = s.stats ++ [record] ∧
    record.sent = st.sent + tcp.client.payload.length ∧
    record.recv = st.recv + tcp.server.payload.length

/-- The counters of a session stay where they are, or go to a record. -/
theorem inspectBoth_counters (client server : StdString) (i : Inspection) :
    (inspectBoth env client server i).st = i.st ∧
        (inspectBoth env client server i).stats.length = i.stats.length ∨
      ∃ record, (inspectBoth env client server i).stats = i.stats ++ [record] ∧
        record.sent = i.st.sent ∧ record.recv = i.st.recv := by
  by_cases hunknown : i.st.state = .UNKNOWN
  · rcases inspectBoth_unknown env hunknown client server with hsame | ⟨flow, data, -, hstat⟩
    · rw [hsame]
      exact .inl ⟨rfl, rfl⟩
    · rw [hstat]
      exact .inr ⟨_, rfl, rfl, rfl⟩
  · have hadded := (inspectBoth_known env hunknown client server).1
    exact .inl ⟨hadded.st_eq, hadded.length⟩

theorem countPayload_adds_iff (st : Stream) (client server : StdString) (reads : Nat) :
    ((countPayload env st client server reads).1.sent = st.sent + client.length ∧
      (countPayload env st client server reads).1.recv = st.recv + server.length) ↔
      (env.clock reads).sec ≤ st.initial.sec + SECS_TO_EXPIRE ∨ client = [] ∧ server = [] := by
  unfold countPayload
  by_cases hexpired : st.isExpired SECS_TO_EXPIRE (env.clock reads)
  · rw [if_pos hexpired]
    simp only [Stream.isExpired, decide_eq_true_eq] at hexpired
    simp [not_le.mpr hexpired]
  · rw [if_neg hexpired]
    simp only [Stream.isExpired, decide_eq_true_eq, not_lt] at hexpired
    exact iff_of_true ⟨rfl, rfl⟩ (.inl hexpired)

/-- A call counts its bytes exactly if it does not find the session expired, or has none. -/
theorem adds_iff {s : Globals} {tcp : TCPCapStream} {st : Stream}
    (h : s.sessions.find? (getId tcp.info) = some st) :
    Adds env s tcp st ↔
      (env.clock (s.reads + 2)).sec ≤ st.initial.sec + SECS_TO_EXPIRE ∨
        tcp.client.payload = [] ∧ tcp.server.payload = [] := by
  rw [← countPayload_adds_iff]
  generalize hcounted : countPayload env st tcp.client.payload tcp.server.payload (s.reads + 2) =
    counted
  obtain ⟨hfind, hcapture⟩ := capture_counted env h hcounted
  unfold Adds
  rw [hfind, hcapture]
  rcases inspectBoth_counters env tcp.client.payload tcp.server.payload
    ⟨counted.1, s.stats, counted.2⟩ with ⟨hst, hlen⟩ | ⟨record, hstats, hsent, hrecv⟩
  · rw [hst, hlen]
    constructor
    · rintro (⟨st', hst', -, hadded⟩ | ⟨record, hstats, -⟩)
      · obtain rfl := Option.some.inj hst'
        exact hadded
      · rw [hstats] at hlen
        simp at hlen
    · exact fun hadded => .inl ⟨_, rfl, rfl, hadded⟩
  · rw [hstats]
    dsimp only at hsent hrecv
    rw [← hsent, ← hrecv]
    constructor
    · rintro (⟨st', -, hlen, -⟩ | ⟨record', hrecord, hadded⟩)
      · simp at hlen
      · obtain rfl := List.singleton_inj.mp (List.append_cancel_left hrecord)
        exact hadded
    · exact fun hadded => .inr ⟨record, rfl, hadded⟩

/-! ### Runs -/

/-- `http_cap` was called for the connection at time `t`. -/
def CalledAt (calls : List Call) (id : StdString) (t : Int) : Prop :=
  ∃ past tcp rest, calls = past ++ .cap tcp :: rest ∧ getId tcp.info = id ∧
    t = (env.clock (afterCalls env past).reads).sec

/-- The state in which a call runs `gc`, if it does. -/
def Call.collecting (s : Globals) : Call → Option Globals
  | .cap tcp => some (capture env s tcp)
  | .fin _ => none
  | .collect => some s

/-- `gc` erases no session that was called for within `SECS_TO_EXPIRE`. -/
def GcKeepsActive (calls : List Call) (g : Globals) : Prop :=
  ∀ id st ts t, Examined env g id st ts → CalledAt env calls id t → ts.sec ≤ t + SECS_TO_EXPIRE →
    (gc env g).sessions.find? id = some st

/-- If `gc` is due, the sessions that were called for within `SECS_TO_EXPIRE` have their `initial`
within this time as well. -/
def GcMeetsYoung (calls : List Call) (g : Globals) : Prop :=
  ∀ id st ts t, Examined env g id st ts → CalledAt env calls id t → ts.sec ≤ t + SECS_TO_EXPIRE →
    Sweeps env g → ts.sec ≤ st.initial.sec + SECS_TO_EXPIRE

/-- `http_cap` counts the bytes of a session that was called for within `SECS_TO_EXPIRE`. -/
def CapCountsActive (past : List Call) (tcp : TCPCapStream) : Prop :=
  ∀ st t, (afterCalls env past).sessions.find? (getId tcp.info) = some st →
    CalledAt env past (getId tcp.info) t →
    (env.clock (afterCalls env past).reads).sec ≤ t + SECS_TO_EXPIRE →
    Adds env (afterCalls env past) tcp st

/-- If there are bytes to count, a session that was called for within `SECS_TO_EXPIRE` has its
`initial` within this time as well, when the call looks at it. -/
def CapMeetsYoung (past : List Call) (tcp : TCPCapStream) : Prop :=
  ∀ st t, (afterCalls env past).sessions.find? (getId tcp.info) = some st →
    CalledAt env past (getId tcp.info) t →
    (env.clock (afterCalls env past).reads).sec ≤ t + SECS_TO_EXPIRE →
    (env.clock ((afterCalls env past).reads + 2)).sec ≤ st.initial.sec + SECS_TO_EXPIRE ∨
      tcp.client.payload = [] ∧ tcp.server.payload = []

theorem gcKeepsActive_iff (calls : List Call) (g : Globals) :
    GcKeepsActive env calls g ↔ GcMeetsYoung env calls g := by
  refine forall₄_congr fun id st ts t => forall₃_congr fun hexamined _ _ => ?_
  exact find?_gc_iff env hexamined

theorem capCountsActive_iff (past : List Call) (tcp : TCPCapStream) :
    CapCountsActive env past tcp ↔ CapMeetsYoung env past tcp := by
  refine forall₂_congr fun st t => forall₃_congr fun hst _ _ => ?_
  exact adds_iff env hst

/-- **Active sessions.** In a run of the sniffer's functions, `gc` erases no session and `http_cap`
counts the bytes of every session that was called for at most `SECS_TO_EXPIRE` ago, iff whenever
`gc` is due or there are bytes to count, the `initial` of such a session is at most
`SECS_TO_EXPIRE` ago as well. -/
theorem active_sessions_kept_iff (calls : List Call) :
    (∀ past call rest, calls = past ++ call :: rest →
      (∀ g, call.collecting env (afterCalls env past) = some g →
        GcKeepsActive env (past ++ [call]) g) ∧
      ∀ tcp, call = .cap tcp → CapCountsActive env past tcp) ↔
    ∀ past call rest, calls = past ++ call :: rest →
      (∀ g, call.collecting env (afterCalls env past) = some g →
        GcMeetsYoung env (past ++ [call]) g) ∧
      ∀ tcp, call = .cap tcp → CapMeetsYoung env past tcp := by
  simp only [gcKeepsActive_iff, capCountsActive_iff]

end

/-- A clock that goes forward by 3000 seconds between the calls of `busyCalls`. -/
def busyEnv : Env :=
  { sampleEnv with clock := fun n => ⟨if n < 4 then 0 else if n < 11 then 3000 else 6000, 0⟩ }

/-- A connection that sends a byte every 3000 seconds. -/
def busyCalls : List Call := List.replicate 2 (.cap (shown 5000 [1]))

/-- **A busy session is erased.** The third call comes 3000 seconds after the second. Its byte is
not counted, and its `gc` erases the session. -/
theorem busy_session_erased :
    (∀ m n, m ≤ n → (busyEnv.clock m).sec ≤ (busyEnv.clock n).sec) ∧
      CalledAt busyEnv busyCalls (getId (shown 5000 [1]).info) 3000 ∧
      (busyEnv.clock (afterCalls busyEnv busyCalls).reads).sec = 6000 ∧
      ((afterCalls busyEnv busyCalls).sessions.find? (getId (shown 5000 [1]).info)).map Stream.sent =
        some 2 ∧
      ((capture busyEnv (afterCalls busyEnv busyCalls) (shown 5000 [1])).sessions.find?
        (getId (shown 5000 [1]).info)).map Stream.sent = some 2 ∧
      (capture busyEnv (afterCalls busyEnv busyCalls) (shown 5000 [1])).stats = [] ∧
      (httpCap busyEnv (afterCalls busyEnv busyCalls) (shown 5000 [1])).sessions.find?
        (getId (shown 5000 [1]).info) = none := by
  refine ⟨fun m n hle => ?_, ?_, by decide, by decide, by decide, by decide, by decide⟩
  · show (if m < 4 then (0 : Int) else if m < 11 then 3000 else 6000) ≤
      if n < 4 then (0 : Int) else if n < 11 then 3000 else 6000
    split_ifs <;> omega
  · exact ⟨[.cap (shown 5000 [1])], shown 5000 [1], [], rfl, rfl, by decide⟩

end CLabs.Sniffer
