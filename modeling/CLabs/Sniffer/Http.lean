import CLabs.Lib.OrdMap
import CLabs.Sniffer.Text
import CLabs.Tcp.Stream

/-!
# CLabs.Sniffer.Http

The model of the HTTP sniffer (`sniffer.cpp`): the table of sessions, the vector
`Stream::stats` of records, and the functions that change them.

* `Env` holds what comes from outside the program: the clock, `boost::regex_search` and
  `write_json`. The clock is a sequence of readings, and every reading of the source
  takes the next one; nothing is assumed about how they relate.
* `http_cap` hands `http_inspect` a pointer: to the session's entry in the table if there
  is one, and otherwise to a local variable, a copy of which has been put in the table.
  The model passes the stream pointed at by value and stores it back in the first case
  only.
* What is only printed is left out.
-/

namespace CLabs.Sniffer

open CLabs.Lib CLabs.Tcp

/-! ### Data -/

/-- `timespec`. -/
structure Timespec where
  sec : Int
  nsec : Int
  deriving Repr, DecidableEq

/-- `SECS_TO_EXPIRE`. -/
def SECS_TO_EXPIRE : Int := 3600

/-- `SECS_TO_GC`. -/
def SECS_TO_GC : Int := 300

/-- `Flow`. -/
inductive Flow
  | UNKNOWN | CLIENT | SERVER
  deriving Repr, DecidableEq

/-- `Stream`: a session of the table, or a record of `stats`. -/
structure Stream where
  id : StdString
  data : StdString
  initial : Timespec
  last : Timespec
  sent : Nat
  recv : Nat
  state : Flow
  deriving Repr, DecidableEq

/-- The parts of the program's surroundings that the sniffer calls. -/
structure Env where
  /-- The successive readings of the real-time clock. -/
  clock : Nat → Timespec
  /-- `regex_search(data, what, pattern)`: the string `what[1]` when there is a match. -/
  regexSearch : StdString → StdString → Option StdString
  /-- `write_json` of a tree with one child, given by its name and its leaves. -/
  writeJson : StdString → List (StdString × StdString) → StdString

/-- The global variables of the sniffer. -/
structure Globals where
  sessions : OrdMap StdString Stream
  stats : List Stream
  /-- The static variable `last` of `gc`, once `gc` has been called. -/
  gcLast : Option Int
  /-- Number of clock readings made. -/
  reads : Nat
  deriving DecidableEq

/-- Their values before the first packet. -/
def Globals.init : Globals := ⟨∅, [], none, 0⟩

/-! ### `Stream` -/

/-- The constructor `Stream()`; it reads the clock twice. -/
def newStream (env : Env) (reads : Nat) : Stream :=
  ⟨[], [], env.clock reads, env.clock (reads + 1), 0, 0, .UNKNOWN⟩

/-- `is_expired(secs)`, at the clock reading `ts`. -/
def Stream.isExpired (st : Stream) (secs : Int) (ts : Timespec) : Bool :=
  st.initial.sec + secs < ts.sec

/-- What `http_inspect` works on: the stream its pointer points at, the records, and the
clock. -/
structure Inspection where
  st : Stream
  stats : List Stream
  reads : Nat
  deriving DecidableEq

/-- `stat(flow, data)`: append a record and start counting afresh. -/
def Inspection.stat (env : Env) (i : Inspection) (flow : Flow) (data : StdString) : Inspection where
  stats := i.stats ++ [{ i.st with data := data, state := flow }]
  st :=
    { i.st with
      sent := 0
      recv := 0
      state := flow
      -- the record's own constructor has read the clock twice
      initial := env.clock (i.reads + 2)
      last := env.clock (i.reads + 3) }
  reads := i.reads + 4

/-- The record at the back after `stat(flow, size)`. -/
def Stream.addSize (record st : Stream) (flow : Flow) (size : Nat) : Stream :=
  match flow with
  | .CLIENT => { record with sent := record.sent + size, last := st.last }
  | .SERVER => { record with recv := record.recv + size, last := st.last }
  | .UNKNOWN => record

/-- `stat(flow, size)`: add to the record at the back of `stats`. (The source calls
`back()` on an empty vector when there is none.) -/
def Inspection.statSize (i : Inspection) (flow : Flow) (size : Nat) : Inspection :=
  match i.stats.getLast? with
  | none => i
  | some back => { i with stats := i.stats.dropLast ++ [back.addSize i.st flow size] }

/-! ### Recognising HTTP -/

/-- `http_command`. -/
def httpCommand (env : Env) (pattern data : StdString) : StdString :=
  (env.regexSearch pattern data).getD []

/-- The text of the record of a request. -/
def clientRecord (env : Env) (mark data : StdString) : StdString :=
  let uri := httpCommand env (mark ++ lit "\\s*?(\\S+).*?") data
  let host := httpCommand env (lit "^Host:\\s*?(\\S+).*?") data
  env.writeJson (lit "json")
    [(lit "method", trim mark), (lit "uri", encode64 uri), (lit "host", host)]

/-- The text of the record of a response. -/
def serverRecord (env : Env) (mark data : StdString) : StdString :=
  let status := httpCommand env (mark ++ lit "\\d+\\.\\d+\\s*?(\\S+).*?") data
  let version := httpCommand env (mark ++ lit "(\\d+\\.\\d+)\\s*?\\S+.*?") data
  env.writeJson (lit "json") [(lit "status", status), (lit "version", version)]

/-- The part of the payload that a record is made of: from the mark on, when a blank line
follows it. (`limit` is a position in the payload and is used as a length.) -/
def header (payload mark : StdString) : Option StdString :=
  match find payload mark 0 with
  | none => none
  | some found =>
      match find payload (lit "\r\n\r\n") found with
      | none => none
      | some limit => some (substr payload found limit)

/-- `http_inspect`. -/
def httpInspect (env : Env) (i : Inspection) (flow : Flow) (payload mark : StdString) :
    Bool × Inspection :=
  if payload.length > 0 then
    match i.st.state with
    | .UNKNOWN =>
        match header payload mark with
        | none => (false, i)
        | some data =>
            match flow with
            | .CLIENT => (true, i.stat env .CLIENT (clientRecord env mark data))
            | .SERVER => (true, i.stat env .SERVER (serverRecord env mark data))
            | .UNKNOWN => (true, i)
    | .CLIENT => (false, i.statSize .CLIENT payload.length)
    | .SERVER => (false, i.statSize .SERVER payload.length)
  else (false, i)

/-- The marks of a request. -/
def methods : List StdString :=
  [lit "GET ", lit "POST ", lit "PUT ", lit "DELETE ", lit "HEAD ", lit "OPTIONS "]

/-- The loop over the methods, which ends with the first that is recognised. -/
def inspectMethods (env : Env) (payload : StdString) : List StdString → Inspection →
    Bool × Inspection
  | [], i => (false, i)
  | method :: rest, i =>
      let inspected := httpInspect env i .CLIENT payload method
      if inspected.1 then inspected else inspectMethods env payload rest inspected.2

/-- Both payloads of a call. -/
def inspectBoth (env : Env) (client server : StdString) (i : Inspection) : Inspection :=
  let inspected := inspectMethods env client methods i
  if inspected.1 then inspected.2
  else (httpInspect env inspected.2 .SERVER server (lit "HTTP/")).2

/-! ### Sessions -/

/-- The loop of `gc` over the table: one clock reading for each session. -/
def sweep (env : Env) (entries : List (StdString × Stream)) (sessions : OrdMap StdString Stream)
    (reads : Nat) : OrdMap StdString Stream × Nat :=
  entries.foldl (fun (swept : OrdMap StdString Stream × Nat) entry =>
    (if entry.2.isExpired SECS_TO_EXPIRE (env.clock swept.2) then swept.1.erase entry.1
      else swept.1, swept.2 + 1)) (sessions, reads)

/-- `gc`. -/
def gc (env : Env) (s : Globals) : Globals :=
  -- the static variable is set by the first call
  let last := s.gcLast.getD (env.clock s.reads).sec
  let reads := if s.gcLast.isNone then s.reads + 1 else s.reads
  let now := (env.clock reads).sec
  if now - last > SECS_TO_GC then
    let swept := sweep env s.sessions.entries s.sessions (reads + 1)
    { s with
      sessions := swept.1
      gcLast := some (env.clock swept.2).sec
      reads := swept.2 + 1 }
  else { s with gcLast := some last, reads := reads + 1 }

/-- `http_fin`. -/
def httpFin (s : Globals) (tcp : TCPCapStream) : Globals :=
  { s with sessions := s.sessions.erase (getId tcp.info) }

/-- A session that is known: count the payloads, unless it has expired. -/
def countPayload (env : Env) (stored : Stream) (client server : StdString) (reads : Nat) :
    Stream × Nat :=
  if stored.isExpired SECS_TO_EXPIRE (env.clock reads) then (stored, reads + 1)
  else
    ({ stored with
        sent := stored.sent + client.length
        recv := stored.recv + server.length
        last := env.clock (reads + 1) }, reads + 2)

/-- `http_cap` up to the call of `gc`. -/
def capture (env : Env) (s : Globals) (tcp : TCPCapStream) : Globals :=
  let client := tcp.client.payload
  let server := tcp.server.payload
  let id := getId tcp.info
  match s.sessions.find? id with
  | some stored =>
      -- the local variable is constructed in this case too
      let counted := countPayload env stored client server (s.reads + 2)
      let i := inspectBoth env client server ⟨counted.1, s.stats, counted.2⟩
      { s with sessions := s.sessions.insert id i.st, stats := i.stats, reads := i.reads }
  | none =>
      let st :=
        { newStream env s.reads with id := id, sent := client.length, recv := server.length }
      let i := inspectBoth env client server ⟨st, s.stats, s.reads + 2⟩
      { s with sessions := s.sessions.emplace id st, stats := i.stats, reads := i.reads }

/-- `http_cap`. -/
def httpCap (env : Env) (s : Globals) (tcp : TCPCapStream) : Globals := gc env (capture env s tcp)

/-! ### What the functions do to the table -/

section

variable (env : Env)

theorem sweep_append (entries entries' : List (StdString × Stream))
    (sessions : OrdMap StdString Stream) (reads : Nat) :
    sweep env (entries ++ entries') sessions reads =
      sweep env entries' (sweep env entries sessions reads).1 (sweep env entries sessions reads).2 :=
  List.foldl_append

/-- Each session takes one reading. -/
theorem sweep_reads (entries : List (StdString × Stream)) (sessions : OrdMap StdString Stream)
    (reads : Nat) : (sweep env entries sessions reads).2 = reads + entries.length := by
  induction entries generalizing sessions reads with
  | nil => rfl
  | cons entry entries ih =>
      rw [List.length_cons, show reads + (entries.length + 1) = reads + 1 + entries.length by omega]
      exact ih _ _

theorem find?_sweep_of_ne {id : StdString} {entries : List (StdString × Stream)}
    (h : ∀ entry ∈ entries, entry.1 ≠ id) (sessions : OrdMap StdString Stream) (reads : Nat) :
    (sweep env entries sessions reads).1.find? id = sessions.find? id := by
  induction entries generalizing sessions reads with
  | nil => rfl
  | cons entry entries ih =>
      refine (ih (fun e he => h e (List.mem_cons_of_mem _ he)) _ _).trans ?_
      dsimp only
      split_ifs
      · exact OrdMap.find?_erase_of_ne _ (h entry List.mem_cons_self).symm
      · rfl

/-- What becomes of one session, by the reading at which it is examined. -/
theorem find?_sweep_eq {sessions : OrdMap StdString Stream}
    {before after : List (StdString × Stream)} {id : StdString} {st : Stream}
    (h : sessions.entries = before ++ (id, st) :: after) (reads : Nat) :
    (sweep env sessions.entries sessions reads).1.find? id =
      if st.isExpired SECS_TO_EXPIRE (env.clock (reads + before.length)) then none else some st := by
  have hsorted := sessions.sorted
  rw [h, List.pairwise_append, List.pairwise_cons] at hsorted
  have hbefore : ∀ entry ∈ before, entry.1 ≠ id := fun entry he =>
    (hsorted.2.2 entry he _ List.mem_cons_self).ne
  have hafter : ∀ entry ∈ after, entry.1 ≠ id := fun entry he => (hsorted.2.1.1 entry he).ne'
  have hst : sessions.find? id = some st := OrdMap.find?_eq_some_iff.mpr (by rw [h]; simp)
  rw [h, sweep_append, ← List.singleton_append, sweep_append, find?_sweep_of_ne env hafter,
    sweep_reads]
  show (if st.isExpired SECS_TO_EXPIRE (env.clock (reads + before.length)) then _ else _ :
    OrdMap StdString Stream).find? id = _
  split_ifs
  · exact OrdMap.find?_erase_self _ _
  · rw [find?_sweep_of_ne env hbefore, hst]

/-- The number of the reading that `gc` takes as the present time. -/
def Globals.nowRead (g : Globals) : Nat := if g.gcLast.isNone then g.reads + 1 else g.reads

/-- `gc` is due. -/
def Sweeps (g : Globals) : Prop :=
  (env.clock g.nowRead).sec - g.gcLast.getD (env.clock g.reads).sec > SECS_TO_GC

/-- The session is in the table, and `gc` examines it, if it is due, at the reading `ts`. -/
def Examined (g : Globals) (id : StdString) (st : Stream) (ts : Timespec) : Prop :=
  ∃ before after, g.sessions.entries = before ++ (id, st) :: after ∧
    ts = env.clock (g.nowRead + 1 + before.length)

/-- `gc` erases a session exactly if it is due and finds the session expired. -/
theorem find?_gc_iff {g : Globals} {id : StdString} {st : Stream} {ts : Timespec}
    (h : Examined env g id st ts) :
    (gc env g).sessions.find? id = some st ↔
      (Sweeps env g → ts.sec ≤ st.initial.sec + SECS_TO_EXPIRE) := by
  obtain ⟨before, after, hentries, rfl⟩ := h
  have hst : g.sessions.find? id = some st := OrdMap.find?_eq_some_iff.mpr (by rw [hentries]; simp)
  unfold gc
  dsimp only
  rw [← Globals.nowRead]
  by_cases hdue : Sweeps env g
  · have hdue' := hdue
    unfold Sweeps at hdue'
    rw [if_pos hdue']
    dsimp only
    rw [find?_sweep_eq env hentries]
    simp [hdue, Stream.isExpired]
  · have hdue' := hdue
    unfold Sweeps at hdue'
    rw [if_neg hdue']
    exact iff_of_true hst fun h => absurd h hdue

/-- A session that is not expired at any time stays. -/
theorem find?_gc_of_live {g : Globals} {id : StdString} {st : Stream}
    (hlive : ∀ n, st.isExpired SECS_TO_EXPIRE (env.clock n) = false)
    (h : g.sessions.find? id = some st) : (gc env g).sessions.find? id = some st := by
  obtain ⟨before, after, hentries⟩ := List.append_of_mem (OrdMap.find?_eq_some_iff.mp h)
  refine (find?_gc_iff env ⟨before, after, hentries, rfl⟩).mpr fun _ => ?_
  have hnot := hlive (g.nowRead + 1 + before.length)
  simpa [Stream.isExpired] using hnot

variable (s : Globals) (tcp : TCPCapStream)

/-- `sweep` only erases, and only sessions it found expired. -/
theorem find?_sweep (entries : List (StdString × Stream)) (sessions : OrdMap StdString Stream)
    (reads : Nat) {id : StdString} {st : Stream}
    (h : (sweep env entries sessions reads).1.find? id = some st) :
    sessions.find? id = some st := by
  induction entries generalizing sessions reads with
  | nil => exact h
  | cons entry entries ih =>
      have hrest := ih _ _ h
      dsimp only at hrest
      split_ifs at hrest
      · rw [OrdMap.find?_erase] at hrest
        split_ifs at hrest
        exact hrest
      · exact hrest

theorem find?_gc {id : StdString} {st : Stream} (h : (gc env s).sessions.find? id = some st) :
    s.sessions.find? id = some st := by
  unfold gc at h
  dsimp only at h
  generalize (if s.gcLast.isNone then s.reads + 1 else s.reads) = reads at h
  split_ifs at h
  · exact find?_sweep env _ _ _ h
  · exact h

@[simp] theorem gc_stats : (gc env s).stats = s.stats := by
  unfold gc
  dsimp only
  split_ifs <;> rfl

/-- `http_cap` stores nothing under another id. -/
theorem find?_capture_of_ne {id : StdString} (hne : id ≠ getId tcp.info) :
    (capture env s tcp).sessions.find? id = s.sessions.find? id := by
  unfold capture
  dsimp only
  cases hfind : s.sessions.find? (getId tcp.info) with
  | some stored => exact OrdMap.find?_insert_of_ne _ _ hne
  | none =>
      dsimp only
      rw [OrdMap.emplace_of_find?_eq_none hfind]
      exact OrdMap.find?_insert_of_ne _ _ hne

end

/-! ### An environment -/

/-- The compact form of `write_json`, for texts without characters to escape. -/
def compactJson (name : StdString) (leaves : List (StdString × StdString)) : StdString :=
  let field (leaf : StdString × StdString) : StdString :=
    lit "\"" ++ leaf.1 ++ lit "\":\"" ++ leaf.2 ++ lit "\""
  lit "\x7b\"" ++ name ++ lit "\":\x7b" ++ (lit ",").intercalate (leaves.map field) ++ lit "\x7d\x7d"

/-- A standing clock. The regular expressions do not match, as on data in which nothing
but blanks follows the mark. -/
def sampleEnv : Env := ⟨fun _ => ⟨0, 0⟩, fun _ _ => none, compactJson⟩

end CLabs.Sniffer
