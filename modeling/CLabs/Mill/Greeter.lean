import CLabs.Lib.CString
import CLabs.Lib.MachineInt
import CLabs.Lib.Memory
import CLabs.Lib.Run

/-!
# CLabs.Mill.Greeter

`test.c` of the `libmill` directory: a server that asks every client for its name and greets it. A
coroutine for each connection (`dialogue`) reports to one that counts (`statistics`).

Design points:

* A client is given by what it sends before the deadline and by which of the calls on its connection
  fail. `errno` is looked at right after each call, so that a `Bool` is enough.
* `outbuf` is 256 bytes at an address `p` of the stack. `tcpsend` gets the length that `snprintf`
  returns, and reads that many bytes from `p` on, whatever is there.
* The channel has no buffer: sending on it and receiving from it is one action of the two
  coroutines. Which of the waiting coroutines comes next is left open.
* The counters are `int`s, and there is no next state if one of them overflows.

`dialogue_reply` is about one dialogue and `statistics_count` about all of them together.
-/

namespace CLabs.Mill

open CLabs.Lib

/-! ### One dialogue -/

/-- What is sent on the channel. -/
inductive Op
  | CONN_ESTABLISHED | CONN_SUCCEEDED | CONN_FAILED
  deriving Repr, DecidableEq

/-- A client, as the calls of `dialogue` meet it. -/
structure Client where
  incoming : List UInt8
  askFails : Bool
  askFlushFails : Bool
  replyFails : Bool
  replyFlushFails : Bool
  deriving Repr, DecidableEq

/-- Every call that sends or flushes goes through. -/
def Client.Reliable (c : Client) : Prop :=
  c.askFails = false ∧ c.askFlushFails = false ∧ c.replyFails = false ∧ c.replyFlushFails = false

/-- `sizeof(inbuf)`, and `sizeof(outbuf)`. -/
def BUF : Nat := 256

/-- `tcprecvuntil(as, inbuf, sizeof(inbuf), "\r", 1, deadline)`: what is in `inbuf` up to the
delimiter; `none` if it fails. -/
def tcprecvuntil (incoming : List UInt8) : Option (List UInt8) :=
  let start := incoming.take BUF
  if start.any (· == 13) then some (start.takeWhile (· != 13) ++ [13]) else none

/-- `snprintf(outbuf, sizeof(outbuf), ...)` of arguments that print as `text`, with `outbuf` at
`p`. -/
def snprintf (mem : Nat → UInt8) (p : Nat) (text : List UInt8) : (Nat → UInt8) × Nat :=
  (store mem p (text.take (BUF - 1) ++ [0]), text.length)

/-- `"Hello, %s!\r\n"`. -/
def greeting (name : List UInt8) : List UInt8 := ascii "Hello, " ++ name ++ ascii "!\r\n"

/-- `"What's your name?\r\n"`. -/
def question : List UInt8 := ascii "What's your name?\r\n"

/-- The answer that is handed to `tcpsend`. -/
def reply (mem : Nat → UInt8) (p : Nat) (inbuf : List UInt8) : List UInt8 :=
  let printed := snprintf mem p (greeting (cstr inbuf))
  load printed.1 p printed.2

/-- `dialogue` between its two reports: what was sent, and what is reported at the end. -/
def dialogue (mem : Nat → UInt8) (p : Nat) (c : Client) : List (List UInt8) × Op :=
  if c.askFails then ([], .CONN_FAILED)
  else if c.askFlushFails then ([question], .CONN_FAILED)
  else
    match tcprecvuntil c.incoming with
    | none => ([question], .CONN_FAILED)
    | some received =>
        -- `inbuf[sz - 1] = 0`
        let inbuf := received.dropLast ++ [0]
        if c.replyFails then ([question], .CONN_FAILED)
        else if c.replyFlushFails then ([question, reply mem p inbuf], .CONN_FAILED)
        else ([question, reply mem p inbuf], .CONN_SUCCEEDED)

/-! ### The answer -/

theorem length_greeting (name : List UInt8) : (greeting name).length = name.length + 10 := by
  have hparts : (ascii "Hello, ").length = 7 ∧ (ascii "!\r\n").length = 3 := by decide
  rw [greeting, List.length_append, List.length_append, hparts.1, hparts.2]
  omega

theorem zero_notMem_greeting {name : List UInt8} (h : 0 ∉ name) : 0 ∉ greeting name := by
  have hparts : 0 ∉ ascii "Hello, " ∧ 0 ∉ ascii "!\r\n" := by decide
  simp only [greeting, List.mem_append, not_or]
  exact ⟨⟨hparts.1, h⟩, hparts.2⟩

section

variable (mem : Nat → UInt8) (p : Nat) {inbuf : List UInt8}

theorem reply_of_fits (h : (cstr inbuf).length ≤ 245) :
    reply mem p inbuf = greeting (cstr inbuf) := by
  have hlen := length_greeting (cstr inbuf)
  have htake : (greeting (cstr inbuf)).take (BUF - 1) = greeting (cstr inbuf) :=
    List.take_of_length_le (by rw [hlen, BUF]; omega)
  rw [reply, snprintf, htake]
  exact load_store_append [0]

/-- A name that does not fit: the greeting is cut and ended by a NUL, and what follows comes from
behind `outbuf`. -/
theorem reply_of_cut (h : 246 ≤ (cstr inbuf).length) :
    reply mem p inbuf =
      (greeting (cstr inbuf)).take (BUF - 1) ++
        0 :: load mem (p + BUF) ((cstr inbuf).length - 246) := by
  have hlen := length_greeting (cstr inbuf)
  have hwritten : ((greeting (cstr inbuf)).take (BUF - 1) ++ [0]).length = BUF := by
    rw [List.length_append, List.length_take, hlen]
    simp only [BUF, List.length_singleton]
    omega
  have hsplit : (greeting (cstr inbuf)).length = BUF + ((cstr inbuf).length - 246) := by
    rw [hlen, BUF]
    omega
  have hfirst := @load_store _ mem p ((greeting (cstr inbuf)).take (BUF - 1) ++ [0])
  rw [hwritten] at hfirst
  have hbehind : load (store mem p ((greeting (cstr inbuf)).take (BUF - 1) ++ [0])) (p + BUF)
      ((cstr inbuf).length - 246) = load mem (p + BUF) ((cstr inbuf).length - 246) :=
    load_congr fun a ha _ => store_of_le (by rwa [hwritten])
  rw [reply, snprintf]
  dsimp only
  rw [hsplit, load_add, hfirst, hbehind, List.append_assoc, List.singleton_append]

theorem reply_eq_greeting_iff :
    reply mem p inbuf = greeting (cstr inbuf) ↔ (cstr inbuf).length ≤ 245 := by
  refine ⟨fun heq => ?_, reply_of_fits mem p⟩
  by_contra hlong
  refine zero_notMem_greeting (zero_notMem_cstr inbuf) ?_
  rw [← heq, reply_of_cut mem p (by omega)]
  simp

end

/-! ### The line that is read -/

theorem tcprecvuntil_line {line : List UInt8} (hline : 13 ∉ line) (hlen : line.length < BUF)
    (rest : List UInt8) : tcprecvuntil (line ++ 13 :: rest) = some (line ++ [13]) := by
  obtain ⟨k, hk⟩ : ∃ k, BUF = line.length + (k + 1) := ⟨BUF - line.length - 1, by omega⟩
  have htake : (line ++ 13 :: rest).take BUF = line ++ 13 :: rest.take k := by
    rw [hk, List.take_length_add_append, List.take_succ_cons]
  have hwhile : (line ++ 13 :: rest.take k).takeWhile (· != 13) = line := by
    rw [List.takeWhile_append_of_pos, List.takeWhile_cons_of_neg (by decide), List.append_nil]
    intro c hc
    exact bne_iff_ne.mpr fun h => hline (h ▸ hc)
  rw [tcprecvuntil, htake, if_pos (by simp), hwhile]

theorem tcprecvuntil_none {incoming : List UInt8} (h : 13 ∉ incoming.take BUF) :
    tcprecvuntil incoming = none := by
  rw [tcprecvuntil]
  exact if_neg (by simpa using h)

/-- The first line of what comes, if it is short enough. -/
theorem exists_line {incoming : List UInt8} (h : 13 ∈ incoming.take BUF) :
    ∃ line rest, incoming = line ++ 13 :: rest ∧ 13 ∉ line ∧ line.length < BUF := by
  obtain ⟨line, rest, hsplit, hline⟩ := List.eq_append_cons_of_mem h
  refine ⟨line, rest ++ incoming.drop BUF, ?_, hline, ?_⟩
  · rw [← List.cons_append, ← List.append_assoc, ← hsplit, List.take_append_drop]
  · have hlen := congrArg List.length hsplit
    rw [List.length_take, List.length_append, List.length_cons] at hlen
    omega

section

variable (mem : Nat → UInt8) (p : Nat) (c : Client)

theorem dialogue_of_line (hreliable : c.Reliable) {line rest : List UInt8}
    (hincoming : c.incoming = line ++ 13 :: rest) (hline : 13 ∉ line) (hlen : line.length < BUF) :
    dialogue mem p c = ([question, reply mem p (line ++ [0])], .CONN_SUCCEEDED) := by
  obtain ⟨hask, haskFlush, hreply, hreplyFlush⟩ := hreliable
  unfold dialogue
  rw [hask, haskFlush, hincoming, tcprecvuntil_line hline hlen, hreply, hreplyFlush]
  simp

theorem cstr_line (line : List UInt8) : cstr (line ++ [0]) = cstr line := by
  obtain ⟨rest, hsplit, hnul⟩ := exists_cstr_append line
  have hzero := zero_notMem_cstr line
  nth_rewrite 1 [hsplit]
  rw [List.append_assoc, cstr_append hzero]
  cases rest with
  | nil => exact List.append_nil _
  | cons b rest =>
      obtain rfl : b = 0 := hnul
      rw [List.cons_append, cstr_zero, List.append_nil]

/-- When a dialogue is reported as a success. -/
theorem dialogue_succeeds_iff :
    (dialogue mem p c).2 = .CONN_SUCCEEDED ↔ c.Reliable ∧ 13 ∈ c.incoming.take BUF := by
  constructor
  · intro h
    by_cases hmem : 13 ∈ c.incoming.take BUF
    · refine ⟨?_, hmem⟩
      unfold dialogue at h
      obtain ⟨line, rest, hincoming, hline, hlen⟩ := exists_line hmem
      rw [hincoming, tcprecvuntil_line hline hlen] at h
      dsimp only at h
      split_ifs at h with hask haskFlush hreply hreplyFlush
      exact ⟨by simpa using hask, by simpa using haskFlush, by simpa using hreply,
        by simpa using hreplyFlush⟩
    · unfold dialogue at h
      rw [tcprecvuntil_none hmem] at h
      split_ifs at h
  · intro ⟨hreliable, hmem⟩
    obtain ⟨line, rest, hincoming, hline, hlen⟩ := exists_line hmem
    rw [dialogue_of_line mem p c hreliable hincoming hline hlen]

end

/-- **A dialogue.** It is reported as a success exactly if all calls on the connection go through and
a carriage return is among the first 256 bytes that come. The client is then sent the question and
the greeting for its name, which ends at the first NUL, exactly if the name has at most 245 bytes;
for each byte above 246 one byte of the stack behind `outbuf` is sent. -/
theorem dialogue_reply (mem : Nat → UInt8) (p : Nat) (c : Client) :
    ((dialogue mem p c).2 = .CONN_SUCCEEDED ↔ c.Reliable ∧ 13 ∈ c.incoming.take BUF) ∧
      ∀ line rest, c.Reliable → c.incoming = line ++ 13 :: rest → 13 ∉ line → line.length < BUF →
        ((dialogue mem p c).1 = [question, greeting (cstr line)] ↔ (cstr line).length ≤ 245) ∧
          (246 ≤ (cstr line).length → (dialogue mem p c).1 =
            [question, (greeting (cstr line)).take (BUF - 1) ++
              0 :: load mem (p + BUF) ((cstr line).length - 246)]) := by
  refine ⟨dialogue_succeeds_iff mem p c, fun line rest hreliable hincoming hline hlen => ?_⟩
  rw [dialogue_of_line mem p c hreliable hincoming hline hlen]
  have hiff := @reply_eq_greeting_iff mem p (line ++ [0])
  have hcut := @reply_of_cut mem p (line ++ [0])
  rw [cstr_line] at hiff hcut
  refine ⟨?_, fun hlong => by rw [hcut hlong]⟩
  rw [← hiff]
  simp

/-- A client that answers `Bob`. -/
theorem dialogue_reply_bob :
    (dialogue (fun _ => 0) 0 ⟨ascii "Bob\r\n", false, false, false, false⟩).1 =
      [question, ascii "Hello, Bob!\r\n"] := by
  have hreply := (dialogue_reply (fun _ => 0) 0 ⟨ascii "Bob\r\n", false, false, false, false⟩).2
    (ascii "Bob") [10] ⟨rfl, rfl, rfl, rfl⟩ rfl (by decide) (by decide)
  exact hreply.1.mpr (by decide)

/-! ### All dialogues -/

/-- The variables of `statistics`. -/
structure Stats where
  connections : I32
  active : I32
  failed : I32
  deriving Repr, DecidableEq

/-- A round of `statistics`. -/
def Stats.count (s : Stats) (op : Op) : Option Stats := do
  let s ←
    if op = .CONN_ESTABLISHED then do
      let connections ← checked (s.connections.val + 1)
      let active ← checked (s.active.val + 1)
      some { s with connections := connections, active := active }
    else do
      let active ← checked (s.active.val - 1)
      some { s with active := active }
  if op = .CONN_FAILED then do
    let failed ← checked (s.failed.val + 1)
    some { s with failed := failed }
  else some s

/-- Where a dialogue is. -/
inductive Place
  /-- Before its first report. -/
  | accepted (c : Client)
  | talking (c : Client)
  /-- Before its last report. -/
  | ending (op : Op)
  | closed (op : Op)
  deriving Repr, DecidableEq

/-- The process: the counters, what was printed of them and the dialogues. -/
structure Greeter where
  stats : Stats
  printed : List Stats
  dialogues : List Place
  deriving Repr, DecidableEq

inductive GreeterAction
  /-- `main` accepts a connection. -/
  | accept (c : Client)
  /-- The dialogue with this number reports, or talks to its client. -/
  | advance (i : Nat)

/-- `statistics` receives, and the dialogues are then as given. -/
def Greeter.receive (g : Greeter) (op : Op) (dialogues : List Place) : Option Greeter :=
  (g.stats.count op).map fun stats => ⟨stats, g.printed ++ [stats], dialogues⟩

section

variable (mem : Nat → UInt8) (p : Nat)

def Greeter.step (g : Greeter) : GreeterAction → Option Greeter
  | .accept c => some { g with dialogues := g.dialogues ++ [.accepted c] }
  | .advance i =>
      match g.dialogues[i]? with
      | none => none
      | some (.accepted c) => g.receive .CONN_ESTABLISHED (g.dialogues.set i (.talking c))
      | some (.talking c) =>
          some { g with dialogues := g.dialogues.set i (.ending (dialogue mem p c).2) }
      | some (.ending op) => g.receive op (g.dialogues.set i (.closed op))
      | some (.closed _) => none

def Greeter.start : Greeter := ⟨⟨I32.zero, I32.zero, I32.zero⟩, [], []⟩

/-- What an action can do. -/
inductive Greeter.Move (g : Greeter) : GreeterAction → Greeter → Prop
  | accept (c : Client) : Move g (.accept c) { g with dialogues := g.dialogues ++ [.accepted c] }
  | establish {i : Nat} {c : Client} {before after : List Place} {stats : Stats}
      (hdialogues : g.dialogues = before ++ .accepted c :: after)
      (hcount : g.stats.count .CONN_ESTABLISHED = some stats) :
      Move g (.advance i) ⟨stats, g.printed ++ [stats], before ++ .talking c :: after⟩
  | talk {i : Nat} {c : Client} {before after : List Place}
      (hdialogues : g.dialogues = before ++ .talking c :: after) :
      Move g (.advance i) { g with dialogues := before ++ .ending (dialogue mem p c).2 :: after }
  | close {i : Nat} {op : Op} {before after : List Place} {stats : Stats}
      (hdialogues : g.dialogues = before ++ .ending op :: after)
      (hcount : g.stats.count op = some stats) :
      Move g (.advance i) ⟨stats, g.printed ++ [stats], before ++ .closed op :: after⟩

variable {mem p} {g g' : Greeter} {a : GreeterAction}

theorem Greeter.step_move (h : g.step mem p a = some g') : g.Move mem p a g' := by
  cases a with
  | accept c =>
      obtain rfl := Option.some.inj h
      exact .accept c
  | advance i =>
      unfold Greeter.step at h
      dsimp only at h
      split at h
      next => exact absurd h (by simp)
      next c hplace =>
        obtain ⟨stats, hcount, rfl⟩ := Option.map_eq_some_iff.mp h
        obtain ⟨before, after, hdialogues, hset, -⟩ := exists_split_getElem? hplace
        rw [hset]
        exact .establish hdialogues hcount
      next c hplace =>
        obtain rfl := Option.some.inj h
        obtain ⟨before, after, hdialogues, hset, -⟩ := exists_split_getElem? hplace
        rw [hset]
        exact .talk hdialogues
      next op hplace =>
        obtain ⟨stats, hcount, rfl⟩ := Option.map_eq_some_iff.mp h
        obtain ⟨before, after, hdialogues, hset, -⟩ := exists_split_getElem? hplace
        rw [hset]
        exact .close hdialogues hcount
      next => exact absurd h (by simp)

/-! What the counters stand for. -/

def Place.isEstablished : Place → Bool
  | accepted _ => false
  | talking _ => true
  | ending _ => true
  | closed _ => true

def Place.isActive : Place → Bool
  | accepted _ => false
  | talking _ => true
  | ending _ => true
  | closed _ => false

def Place.hasFailed : Place → Bool
  | accepted _ => false
  | talking _ => false
  | ending _ => false
  | closed op => op = .CONN_FAILED

/-- What is reported at the end is not a beginning. -/
def Place.Reports : Place → Prop
  | accepted _ => True
  | talking _ => True
  | ending op => op ≠ .CONN_ESTABLISHED
  | closed op => op ≠ .CONN_ESTABLISHED

/-- Counters that fit together. -/
def Stats.Sound (s : Stats) : Prop :=
  0 ≤ s.active.val ∧ 0 ≤ s.failed.val ∧ s.active.val + s.failed.val ≤ s.connections.val

/-- The counters are those of these dialogues. -/
structure Stats.Counts (s : Stats) (dialogues : List Place) : Prop where
  connections : s.connections.val = dialogues.countP Place.isEstablished
  active : s.active.val = dialogues.countP Place.isActive
  failed : s.failed.val = dialogues.countP Place.hasFailed

structure Greeter.Counts (g : Greeter) : Prop where
  stats : g.stats.Counts g.dialogues
  reports : ∀ place ∈ g.dialogues, place.Reports
  printed : ∀ s ∈ g.printed, s.Sound

/-- A round that does not overflow. -/
theorem Stats.count_eq_some_iff {s s' : Stats} {op : Op} :
    s.count op = some s' ↔
      s'.connections.val = s.connections.val + (if op = .CONN_ESTABLISHED then 1 else 0) ∧
        s'.active.val = s.active.val + (if op = .CONN_ESTABLISHED then 1 else -1) ∧
        s'.failed.val = s.failed.val + (if op = .CONN_FAILED then 1 else 0) := by
  obtain ⟨connections', active', failed'⟩ := s'
  unfold Stats.count
  cases op with
  | CONN_ESTABLISHED =>
      simp only [reduceIte, reduceCtorEq, Option.bind_eq_bind, Option.bind_eq_some_iff,
        checked_eq_some_iff, Option.some.injEq, existsAndEq, Stats.mk.injEq,
        true_and]
      rw [Subtype.ext_iff]
      omega
  | CONN_SUCCEEDED =>
      simp only [reduceIte, reduceCtorEq, Option.bind_eq_bind, Option.bind_eq_some_iff,
        checked_eq_some_iff, Option.some.injEq, existsAndEq, Stats.mk.injEq,
        true_and]
      rw [Subtype.ext_iff, Subtype.ext_iff]
      omega
  | CONN_FAILED =>
      simp only [reduceIte, reduceCtorEq, Option.bind_eq_bind, Option.bind_eq_some_iff,
        checked_eq_some_iff, Option.some.injEq, existsAndEq, Stats.mk.injEq,
        true_and, and_true]
      rw [Subtype.ext_iff]
      omega

theorem countP_sound (l : List Place) :
    l.countP Place.isActive + l.countP Place.hasFailed ≤ l.countP Place.isEstablished := by
  induction l with
  | nil => rfl
  | cons place l ih =>
      rw [List.countP_cons, List.countP_cons, List.countP_cons]
      cases place with
      | accepted c => simpa [Place.isActive, Place.hasFailed, Place.isEstablished] using ih
      | talking c =>
          simp only [Place.isActive, Place.hasFailed, Place.isEstablished, if_true,
            Bool.false_eq_true, if_false]
          omega
      | ending op =>
          simp only [Place.isActive, Place.hasFailed, Place.isEstablished, if_true,
            Bool.false_eq_true, if_false]
          omega
      | closed op =>
          simp only [Place.isActive, Place.isEstablished, if_true, Bool.false_eq_true, if_false]
          split_ifs <;> omega

theorem Stats.Counts.sound {s : Stats} {l : List Place} (h : s.Counts l) : s.Sound := by
  have hle := countP_sound l
  have hconnections := h.connections
  have hactive := h.active
  have hfailed := h.failed
  refine ⟨?_, ?_, ?_⟩ <;> omega

/-- A dialogue goes to its next place. -/
theorem countP_replace (q : Place → Bool) (before after : List Place) (x y : Place) :
    (before ++ y :: after).countP q + (if q x then 1 else 0) =
      (before ++ x :: after).countP q + if q y then 1 else 0 := by
  rw [List.countP_append, List.countP_cons, List.countP_append, List.countP_cons]
  omega

theorem Stats.Counts.replace {s s' : Stats} {before after : List Place} {x y : Place}
    (h : s.Counts (before ++ x :: after))
    (hconnections : s'.connections.val + (if x.isEstablished then 1 else 0) =
      s.connections.val + if y.isEstablished then 1 else 0)
    (hactive : s'.active.val + (if x.isActive then 1 else 0) =
      s.active.val + if y.isActive then 1 else 0)
    (hfailed : s'.failed.val + (if x.hasFailed then 1 else 0) =
      s.failed.val + if y.hasFailed then 1 else 0) :
    s'.Counts (before ++ y :: after) := by
  constructor
  · have hcount := countP_replace Place.isEstablished before after x y
    rw [h.connections] at hconnections
    split_ifs at hconnections hcount <;> omega
  · have hcount := countP_replace Place.isActive before after x y
    rw [h.active] at hactive
    split_ifs at hactive hcount <;> omega
  · have hcount := countP_replace Place.hasFailed before after x y
    rw [h.failed] at hfailed
    split_ifs at hfailed hcount <;> omega

theorem dialogue_ne_established (mem : Nat → UInt8) (p : Nat) (c : Client) :
    (dialogue mem p c).2 ≠ .CONN_ESTABLISHED := by
  unfold dialogue
  cases tcprecvuntil c.incoming with
  | none =>
      dsimp only
      split_ifs <;> decide
  | some received =>
      dsimp only
      split_ifs <;> simp

theorem reports_replace {before after : List Place} {x y : Place}
    (h : ∀ place ∈ before ++ x :: after, place.Reports) (hy : y.Reports) :
    ∀ place ∈ before ++ y :: after, place.Reports := by
  intro place hmem
  simp only [List.mem_append, List.mem_cons] at hmem h
  rcases hmem with hbefore | rfl | hafter
  · exact h place (.inl hbefore)
  · exact hy
  · exact h place (.inr (.inr hafter))

theorem Greeter.Counts.receive {g : Greeter} (h : g.Counts) {stats : Stats}
    {dialogues : List Place} (hstats : stats.Counts dialogues)
    (hreports : ∀ place ∈ dialogues, place.Reports) :
    Greeter.Counts ⟨stats, g.printed ++ [stats], dialogues⟩ := by
  refine ⟨hstats, hreports, fun s hmem => ?_⟩
  rcases List.mem_append.mp hmem with hold | hnew
  · exact h.printed s hold
  · rw [List.mem_singleton.mp hnew]
    exact hstats.sound

theorem Greeter.Counts.move (h : g.Counts) (hmove : g.Move mem p a g') : g'.Counts := by
  have hstats := h.stats
  have hreports := h.reports
  cases hmove with
  | accept c =>
      refine ⟨⟨?_, ?_, ?_⟩, fun place hmem => ?_, h.printed⟩
      · simpa [Place.isEstablished] using hstats.connections
      · simpa [Place.isActive] using hstats.active
      · simpa [Place.hasFailed] using hstats.failed
      · rcases List.mem_append.mp hmem with hold | hnew
        · exact hreports place hold
        · rw [List.mem_singleton.mp hnew]
          trivial
  | establish hdialogues hcount =>
      rw [hdialogues] at hstats hreports
      obtain ⟨hconnections, hactive, hfailed⟩ := Stats.count_eq_some_iff.mp hcount
      refine h.receive (hstats.replace ?_ ?_ ?_) (reports_replace hreports trivial)
      · simpa [Place.isEstablished] using hconnections
      · simpa [Place.isActive] using hactive
      · simpa [Place.hasFailed] using hfailed
  | @talk i c before after hdialogues =>
      rw [hdialogues] at hstats hreports
      exact ⟨hstats.replace rfl rfl rfl,
        reports_replace hreports (dialogue_ne_established mem p c), h.printed⟩
  | @close i op before after stats hdialogues hcount =>
      rw [hdialogues] at hstats hreports
      have hop : op ≠ .CONN_ESTABLISHED := hreports (.ending op) (by simp)
      obtain ⟨hconnections, hactive, hfailed⟩ := Stats.count_eq_some_iff.mp hcount
      rw [if_neg hop] at hconnections hactive
      refine h.receive (hstats.replace ?_ ?_ ?_) (reports_replace hreports hop)
      · simpa [Place.isEstablished] using hconnections
      · simp only [Place.isActive, if_true, Bool.false_eq_true, if_false]
        omega
      · simpa [Place.hasFailed] using hfailed

theorem Greeter.counts_of_run {actions : List GreeterAction}
    (hrun : actions.foldlM (Greeter.step mem p) Greeter.start = some g) : g.Counts := by
  refine foldlM_invariant _ (fun _ _ _ hg hstep => hg.move (Greeter.step_move hstep)) ?_ hrun
  exact ⟨⟨rfl, rfl, rfl⟩, fun place hmem => absurd hmem (by simp [Greeter.start]),
    fun s hmem => absurd hmem (by simp [Greeter.start])⟩

/-! ### Overflow -/

theorem Greeter.isSome_receive {op : Op} {dialogues : List Place} :
    (g.receive op dialogues).isSome ↔ (g.stats.count op).isSome := by
  rw [Greeter.receive, Option.isSome_map]

/-- One more dialogue can begin as long as the number of all fits. -/
theorem Stats.Counts.begins_iff {s : Stats} {l : List Place} (h : s.Counts l) :
    (s.count .CONN_ESTABLISHED).isSome ↔ l.countP Place.isEstablished < 2147483647 := by
  have hconnections := h.connections
  have hsound := h.sound
  constructor
  · intro hsome
    obtain ⟨s', hs'⟩ := Option.isSome_iff_exists.mp hsome
    have hnext := (Stats.count_eq_some_iff.mp hs').1
    have hbound := s'.connections.property
    rw [if_pos rfl] at hnext
    omega
  · intro hlt
    obtain ⟨hactive, hfailed, hle⟩ := hsound
    have hcount : s.count .CONN_ESTABLISHED =
        some ⟨⟨s.connections.val + 1, by omega⟩, ⟨s.active.val + 1, by omega⟩, s.failed⟩ :=
      Stats.count_eq_some_iff.mpr ⟨rfl, rfl, (add_zero _).symm⟩
    rw [hcount, Option.isSome_some]

/-- A dialogue that has begun can always end. -/
theorem Stats.Counts.ends {s : Stats} {l : List Place} (h : s.Counts l) {op : Op}
    (hop : op ≠ .CONN_ESTABLISHED) (hmem : .ending op ∈ l) : (s.count op).isSome := by
  have hactive := h.active
  have hpos : 0 < l.countP Place.isActive := List.countP_pos_iff.mpr ⟨_, hmem, rfl⟩
  obtain ⟨-, hfailed, hle⟩ := h.sound
  have hconnections := s.connections.property
  have hbound := s.active.property
  have hsame : s.connections.val =
      s.connections.val + (if op = .CONN_ESTABLISHED then 1 else 0) := by
    rw [if_neg hop, add_zero]
  have hless : s.active.val + -1 =
      s.active.val + (if op = .CONN_ESTABLISHED then 1 else -1) := by
    rw [if_neg hop]
  have hcount : s.count op =
      some ⟨s.connections, ⟨s.active.val + -1, by omega⟩,
        ⟨s.failed.val + (if op = .CONN_FAILED then 1 else 0), by split_ifs <;> omega⟩⟩ :=
    Stats.count_eq_some_iff.mpr ⟨hsame, hless, rfl⟩
  rw [hcount, Option.isSome_some]

end

/-- **The statistics.** However the dialogues are interleaved, all that `statistics` has printed
fits together: no number is negative, and the active and the failed connections are not more than
all of them. The counters are the numbers of dialogues that have begun, that have begun and not
ended, and that have failed. The only report that overflows is the beginning of a dialogue after
2147483647 others. -/
theorem statistics_count {mem : Nat → UInt8} {p : Nat} {actions : List GreeterAction} {g : Greeter}
    (hrun : actions.foldlM (Greeter.step mem p) Greeter.start = some g) :
    (∀ s ∈ g.printed, s.Sound) ∧
      g.stats.Counts g.dialogues ∧
      (∀ i c, g.dialogues[i]? = some (.accepted c) →
        ((g.step mem p (.advance i)).isSome ↔
          g.dialogues.countP Place.isEstablished < 2147483647)) ∧
      ∀ i op, g.dialogues[i]? = some (.ending op) → (g.step mem p (.advance i)).isSome := by
  have hcounts := Greeter.counts_of_run hrun
  refine ⟨hcounts.printed, hcounts.stats, fun i c hplace => ?_, fun i op hplace => ?_⟩
  · rw [Greeter.step, hplace]
    exact Greeter.isSome_receive.trans hcounts.stats.begins_iff
  · have hmem := List.mem_of_getElem? hplace
    rw [Greeter.step, hplace]
    exact Greeter.isSome_receive.mpr (hcounts.stats.ends (hcounts.reports _ hmem) hmem)

/-- A client that says nothing and one whose dialogue is about to end, before a third begins. -/
theorem statistics_count_silent : ∃ g,
    [GreeterAction.accept ⟨[], false, false, false, false⟩, .advance 0,
        .accept ⟨[], false, false, false, false⟩, .advance 0, .advance 1, .advance 0, .advance 1,
        .accept ⟨[], false, false, false, false⟩].foldlM
          (Greeter.step (fun _ => 0) 0) Greeter.start = some g ∧
      g.stats = ⟨⟨2, by decide⟩, ⟨1, by decide⟩, ⟨1, by decide⟩⟩ ∧ (∀ s ∈ g.printed, s.Sound) ∧
      (g.step (fun _ => 0) 0 (.advance 2)).isSome ∧
      (g.step (fun _ => 0) 0 (.advance 1)).isSome := by
  have hcount := @statistics_count (fun _ => 0) 0
    [.accept ⟨[], false, false, false, false⟩, .advance 0,
      .accept ⟨[], false, false, false, false⟩, .advance 0, .advance 1, .advance 0, .advance 1,
      .accept ⟨[], false, false, false, false⟩] _ rfl
  exact ⟨_, rfl, rfl, hcount.1, (hcount.2.2.1 2 _ rfl).mpr (by decide), hcount.2.2.2 1 _ rfl⟩

end CLabs.Mill
