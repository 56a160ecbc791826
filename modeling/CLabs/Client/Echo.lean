import CLabs.Client.DoRead
import CLabs.Lib.Run

/-!
# CLabs.Client.Echo

**`tcpclient.c` and `tcpserver.c` as one system.** The client writes its buffer to the socket and
reads the same amount back, `NOREQUESTS` times. The server receives up to 1000 bytes and sends them
back, for ever.

Design points:

* The connection has room for `capUp` bytes on the way to the server and for `capDown` bytes on the
  way back. `write` and `sendto` block until all of their bytes have found room; `read` and
  `recvfrom` return whatever part of what has arrived. An action moves one or more bytes.
* A read of the client is one round of `doRead` (`again`).
* `mesg[n] = 0` is a write behind the end of `mesg` if `n` is 1000. `overrun` records it. It comes
  after `sendto` and a `printf`, as an action of its own (`terminate`): the client may have read the
  bytes before.
* The client does not read while it writes. What the server does after the client has closed the
  connection, and failing calls, are left out.

`echo_returns_buffer` says what holds in every run, and `echo_progress_iff` how much room the
connection needs for the two not to wait for each other.
-/

namespace CLabs.Client

open CLabs.Lib

/-! ### The two programs -/

/-- `BUFSIZE`. -/
def BUFSIZE : Nat := 1024

/-- `NOREQUESTS`. -/
def NOREQUESTS : Nat := 10

/-- The size of `mesg`. -/
def MESG : Nat := 1000

/-- `fillBuf`: the characters that it writes. -/
def fillBuf (size : Nat) : List UInt8 :=
  ((List.range size).foldl (fun (s : UInt8 × List UInt8) i =>
    if i % 64 = 0 then (if i ≠ 0 then s.1 + 1 else s.1, s.2 ++ [10])
    else (s.1, s.2 ++ [s.1])) (97, [])).2

/-- Where `echoTest` is. -/
inductive Phase
  /-- In `write`, with so many bytes written. -/
  | writing (written : Nat)
  /-- In `doRead`, before a read. -/
  | reading (bpt count amtread : Nat)
  | finished
  deriving Repr, DecidableEq

/-- Where the server is: before `recvfrom`, in `sendto` for `n` bytes with some left, or before
`mesg[n] = 0`. -/
inductive Server
  | receiving
  | sending (n : Nat) (rest : List UInt8)
  | sent (n : Nat)
  deriving Repr, DecidableEq

/-- The client, the server and the connection. -/
structure Echo where
  mem : Nat → UInt8
  i : Nat
  phase : Phase
  up : List UInt8
  server : Server
  down : List UInt8
  overrun : Bool

inductive EchoAction
  | write (k : Nat)
  | read (k : Nat)
  | recv (k : Nat)
  | send (k : Nat)
  | terminate
  deriving Repr, DecidableEq

/-- `doRead` has returned. -/
def Echo.returned (s : Echo) : Echo :=
  if s.i + 1 < NOREQUESTS then { s with i := s.i + 1, phase := .writing 0 }
  else { s with i := s.i + 1, phase := .finished }

/-- What `read` finds on the socket. -/
def piece (data : List UInt8) (h : data ≠ []) : Socket :=
  ⟨[data], by simpa using h, .closes⟩

section

variable (capUp capDown buf : Nat)

def Echo.write (s : Echo) (k : Nat) : Option Echo :=
  match s.phase with
  | .writing written =>
      if 0 < k ∧ written + k ≤ BUFSIZE ∧ s.up.length + k ≤ capUp then
        some { s with
          up := s.up ++ load s.mem (buf + written) k
          phase := if written + k < BUFSIZE then .writing (written + k)
            else .reading buf BUFSIZE 0 }
      else none
  | .reading _ _ _ => none
  | .finished => none

def Echo.read (s : Echo) (k : Nat) : Option Echo :=
  match s.phase with
  | .reading bpt count amtread =>
      if h : k ≤ count ∧ k ≤ s.down.length ∧ s.down.take k ≠ [] then
        match again BUFSIZE ⟨piece (s.down.take k) h.2.2, s.mem, bpt, count, amtread, false⟩ with
        | .yield r => some { s with
            mem := r.mem
            down := s.down.drop k
            phase := .reading r.bpt r.count r.amtread }
        | .done r => some (Echo.returned { s with mem := r.mem, down := s.down.drop k })
      else none
  | .writing _ => none
  | .finished => none

def Echo.recv (s : Echo) (k : Nat) : Option Echo :=
  match s.server with
  | .receiving =>
      if 0 < k ∧ k ≤ MESG ∧ k ≤ s.up.length then
        some { s with up := s.up.drop k, server := .sending k (s.up.take k) }
      else none
  | .sending _ _ => none
  | .sent _ => none

def Echo.send (s : Echo) (k : Nat) : Option Echo :=
  match s.server with
  | .sending n rest =>
      if 0 < k ∧ k ≤ rest.length ∧ s.down.length + k ≤ capDown then
        let s := { s with down := s.down ++ rest.take k }
        if k < rest.length then some { s with server := .sending n (rest.drop k) }
        else some { s with server := .sent n }
      else none
  | .receiving => none
  | .sent _ => none

/-- `mesg[n] = 0`. -/
def Echo.terminate (s : Echo) : Option Echo :=
  match s.server with
  | .sent n => some { s with server := .receiving, overrun := s.overrun || n == MESG }
  | .receiving => none
  | .sending _ _ => none

def Echo.step (s : Echo) : EchoAction → Option Echo
  | .write k => s.write capUp buf k
  | .read k => s.read k
  | .recv k => s.recv k
  | .send k => s.send capDown k
  | .terminate => s.terminate

/-- `main` has filled the buffer and the connection is there. -/
def Echo.start (mem : Nat → UInt8) : Echo :=
  { mem := store mem buf (fillBuf BUFSIZE)
    i := 0
    phase := .writing 0
    up := []
    server := .receiving
    down := []
    overrun := false }

end

theorem length_fillBuf (size : Nat) : (fillBuf size).length = size := by
  unfold fillBuf
  induction size with
  | zero => rfl
  | succ size ih =>
      rw [List.range_succ, List.foldl_append, List.foldl_cons, List.foldl_nil]
      split
      · simpa using ih
      · simpa using ih

/-! ### What an action can do -/

/-- A round of `doRead` that gets some of the bytes it asks for. -/
theorem again_piece {data : List UInt8} (h : data ≠ []) {count : Nat} (hle : data.length ≤ count)
    (n bpt amtread : Nat) (mem : Nat → UInt8) :
    ∃ sock, again n ⟨piece data h, mem, bpt, count, amtread, false⟩ =
      if amtread + data.length < n then
        .yield ⟨sock, store mem bpt data, bpt + data.length, count - data.length,
          amtread + data.length, false⟩
      else .done ⟨sock, store mem bpt data, bpt, count, amtread + data.length, false⟩ := by
  refine ⟨⟨[], by simp, .closes⟩, ?_⟩
  rw [again, piece, Socket.read, dif_neg (not_lt.mpr hle)]

section

variable {capUp capDown buf : Nat}

/-- What an action can do. -/
inductive Echo.Move (capUp capDown buf : Nat) (s : Echo) : EchoAction → Echo → Prop
  | write {k written : Nat} (hphase : s.phase = .writing written) (hpos : 0 < k)
      (hle : written + k ≤ BUFSIZE) (hroom : s.up.length + k ≤ capUp) :
      Move capUp capDown buf s (.write k) { s with
        up := s.up ++ load s.mem (buf + written) k
        phase := if written + k < BUFSIZE then .writing (written + k)
          else .reading buf BUFSIZE 0 }
  | readMore {k bpt count amtread : Nat} (hphase : s.phase = .reading bpt count amtread)
      (hpos : 0 < k) (hcount : k ≤ count) (hdown : k ≤ s.down.length)
      (hmore : amtread + k < BUFSIZE) :
      Move capUp capDown buf s (.read k) { s with
        mem := store s.mem bpt (s.down.take k)
        down := s.down.drop k
        phase := .reading (bpt + k) (count - k) (amtread + k) }
  | readLast {k bpt count amtread : Nat} (hphase : s.phase = .reading bpt count amtread)
      (hpos : 0 < k) (hcount : k ≤ count) (hdown : k ≤ s.down.length)
      (hlast : BUFSIZE ≤ amtread + k) :
      Move capUp capDown buf s (.read k) (Echo.returned { s with
        mem := store s.mem bpt (s.down.take k)
        down := s.down.drop k })
  | recv {k : Nat} (hserver : s.server = .receiving) (hpos : 0 < k) (hle : k ≤ MESG)
      (hup : k ≤ s.up.length) :
      Move capUp capDown buf s (.recv k)
        { s with up := s.up.drop k, server := .sending k (s.up.take k) }
  | sendSome {k n : Nat} {rest : List UInt8} (hserver : s.server = .sending n rest) (hpos : 0 < k)
      (hless : k < rest.length) (hroom : s.down.length + k ≤ capDown) :
      Move capUp capDown buf s (.send k)
        { s with down := s.down ++ rest.take k, server := .sending n (rest.drop k) }
  | sendAll {n : Nat} {rest : List UInt8} (hserver : s.server = .sending n rest)
      (hpos : 0 < rest.length) (hroom : s.down.length + rest.length ≤ capDown) :
      Move capUp capDown buf s (.send rest.length)
        { s with down := s.down ++ rest, server := .sent n }
  | terminate {n : Nat} (hserver : s.server = .sent n) :
      Move capUp capDown buf s .terminate
        { s with server := .receiving, overrun := s.overrun || n == MESG }

variable {s s' : Echo} {a : EchoAction} {mem : Nat → UInt8}

theorem write_move {k : Nat} (h : s.write capUp buf k = some s') :
    s.Move capUp capDown buf (.write k) s' := by
  unfold Echo.write at h
  split at h
  next written hphase =>
    split at h
    next hguard =>
      obtain rfl := Option.some.inj h
      exact .write hphase hguard.1 hguard.2.1 hguard.2.2
    next => exact absurd h (by simp)
  next => exact absurd h (by simp)
  next => exact absurd h (by simp)

theorem read_move {k : Nat} (h : s.read k = some s') : s.Move capUp capDown buf (.read k) s' := by
  unfold Echo.read at h
  split at h
  next bpt count amtread hphase =>
    split at h
    next hguard =>
      obtain ⟨hcount, hdown, hne⟩ := hguard
      have hlen : (s.down.take k).length = k := by
        rw [List.length_take, min_eq_left hdown]
      have hpos : 0 < k := by
        rw [← hlen]
        exact List.length_pos_of_ne_nil hne
      have hle : (s.down.take k).length ≤ count := by rwa [hlen]
      obtain ⟨sock, hagain⟩ := again_piece hne hle BUFSIZE bpt amtread s.mem
      rw [hagain, hlen] at h
      by_cases hmore : amtread + k < BUFSIZE
      · rw [if_pos hmore] at h
        obtain rfl := Option.some.inj h
        exact .readMore hphase hpos hcount hdown hmore
      · rw [if_neg hmore] at h
        obtain rfl := Option.some.inj h
        exact .readLast hphase hpos hcount hdown (not_lt.mp hmore)
    next => exact absurd h (by simp)
  next => exact absurd h (by simp)
  next => exact absurd h (by simp)

theorem recv_move {k : Nat} (h : s.recv k = some s') : s.Move capUp capDown buf (.recv k) s' := by
  unfold Echo.recv at h
  split at h
  next hserver =>
    split at h
    next hguard =>
      obtain rfl := Option.some.inj h
      exact .recv hserver hguard.1 hguard.2.1 hguard.2.2
    next => exact absurd h (by simp)
  next => exact absurd h (by simp)
  next => exact absurd h (by simp)

theorem send_move {k : Nat} (h : s.send capDown k = some s') :
    s.Move capUp capDown buf (.send k) s' := by
  unfold Echo.send at h
  split at h
  next n rest hserver =>
    split at h
    next hguard =>
      obtain ⟨hpos, hle, hroom⟩ := hguard
      dsimp only at h
      split at h
      next hless =>
        obtain rfl := Option.some.inj h
        exact .sendSome hserver hpos hless hroom
      next hall =>
        obtain rfl : k = rest.length := by omega
        obtain rfl := Option.some.inj h
        rw [List.take_length]
        exact .sendAll hserver hpos hroom
    next => exact absurd h (by simp)
  next => exact absurd h (by simp)
  next => exact absurd h (by simp)

theorem terminate_move (h : s.terminate = some s') : s.Move capUp capDown buf .terminate s' := by
  unfold Echo.terminate at h
  split at h
  next n hserver =>
    obtain rfl := Option.some.inj h
    exact .terminate hserver
  next => exact absurd h (by simp)
  next => exact absurd h (by simp)

theorem Echo.step_move (h : s.step capUp capDown buf a = some s') :
    s.Move capUp capDown buf a s' := by
  cases a with
  | write k => exact write_move h
  | read k => exact read_move h
  | recv k => exact recv_move h
  | send k => exact send_move h
  | terminate => exact terminate_move h

/-! ### Nothing is lost on the way -/

/-- What the server has in its hands. -/
def Server.rest : Server → List UInt8
  | receiving => []
  | sending _ rest => rest
  | sent _ => []

/-- How many bytes of the buffer have come back. -/
def Phase.back : Phase → Nat
  | writing _ => 0
  | reading _ _ amtread => amtread
  | finished => BUFSIZE

/-- How many bytes of the buffer have been written. -/
def Phase.out : Phase → Nat
  | writing written => written
  | reading _ _ _ => BUFSIZE
  | finished => BUFSIZE

/-- The variables of `echoTest` and `doRead` fit together. -/
def Phase.Fits (buf i : Nat) : Phase → Prop
  | writing written => i < NOREQUESTS ∧ written < BUFSIZE
  | reading bpt count amtread => i < NOREQUESTS ∧ amtread < BUFSIZE ∧ bpt = buf + amtread ∧
      count = BUFSIZE - amtread
  | finished => i = NOREQUESTS

/-- On the way, from the client's end to the server and back, is what has been written and not read
yet. -/
structure Echo.Flow (buf : Nat) (mem : Nat → UInt8) (s : Echo) : Prop where
  mem_eq : s.mem = mem
  flow : s.down ++ (s.server.rest ++ s.up) =
    load mem (buf + s.phase.back) (s.phase.out - s.phase.back)
  fits : s.phase.Fits buf s.i
  sending : ∀ n rest, s.server = .sending n rest → rest ≠ []

theorem Phase.Fits.back_le {i : Nat} {phase : Phase} (h : phase.Fits buf i) :
    phase.back ≤ phase.out ∧ phase.out ≤ BUFSIZE := by
  cases phase with
  | writing written => exact ⟨Nat.zero_le _, h.2.le⟩
  | reading bpt count amtread => exact ⟨h.2.1.le, le_rfl⟩
  | finished => exact ⟨le_rfl, le_rfl⟩

/-- So many bytes are on the way. -/
theorem Echo.Flow.length (h : s.Flow buf mem) :
    s.phase.back + (s.down.length + s.server.rest.length + s.up.length) = s.phase.out := by
  have hlen := congrArg List.length h.flow
  rw [List.length_append, List.length_append, length_load] at hlen
  have hle := h.fits.back_le
  omega

/-- The bytes that arrive are those that are in the buffer at their place. -/
theorem Echo.Flow.take_down (h : s.Flow buf mem) {k : Nat} (hk : k ≤ s.down.length) :
    s.down.take k = load mem (buf + s.phase.back) k ∧
      s.down.drop k ++ (s.server.rest ++ s.up) =
        load mem (buf + s.phase.back + k) (s.phase.out - (s.phase.back + k)) := by
  have hlen := h.length
  have hsplit : s.phase.out - s.phase.back = k + (s.phase.out - (s.phase.back + k)) := by omega
  have hflow := h.flow
  rw [← List.take_append_drop k s.down, List.append_assoc, hsplit, load_add] at hflow
  exact List.append_inj hflow (by rw [List.length_take, length_load, min_eq_left hk])

section

variable (h : s.Flow buf mem)

include h

theorem Echo.Flow.write {k written : Nat} (hphase : s.phase = .writing written)
    (hle : written + k ≤ BUFSIZE) :
    Echo.Flow buf mem { s with
      up := s.up ++ load s.mem (buf + written) k
      phase := if written + k < BUFSIZE then .writing (written + k)
        else .reading buf BUFSIZE 0 } := by
  have hflow := h.flow
  have hfits := h.fits
  rw [hphase] at hflow hfits
  have hup : s.down ++ (s.server.rest ++ (s.up ++ load s.mem (buf + written) k)) =
      load mem buf (written + k) := by
    rw [h.mem_eq, load_add, ← List.append_assoc, ← List.append_assoc, List.append_assoc s.down,
      hflow]
    rfl
  refine ⟨h.mem_eq, ?_, ?_, h.sending⟩
  · dsimp only
    rw [hup]
    split_ifs with hmore
    · rfl
    · obtain hfull : written + k = BUFSIZE := by omega
      rw [hfull]
      rfl
  · dsimp only
    split_ifs with hmore
    · exact ⟨hfits.1, hmore⟩
    · exact ⟨hfits.1, by decide, rfl, rfl⟩

theorem Echo.Flow.readMore {k bpt count amtread : Nat}
    (hphase : s.phase = .reading bpt count amtread) (hdown : k ≤ s.down.length)
    (hmore : amtread + k < BUFSIZE) :
    Echo.Flow buf mem { s with
      mem := store s.mem bpt (s.down.take k)
      down := s.down.drop k
      phase := .reading (bpt + k) (count - k) (amtread + k) } := by
  obtain ⟨htake, hdrop⟩ := h.take_down hdown
  have hfits := h.fits
  rw [hphase] at htake hdrop hfits
  obtain ⟨hi, -, rfl, rfl⟩ := hfits
  refine ⟨?_, ?_, ⟨hi, hmore, by omega, by omega⟩, h.sending⟩
  · dsimp only
    rw [htake, h.mem_eq]
    exact store_eq_self (by rw [length_load]; rfl)
  · dsimp only
    rw [hdrop]
    simp only [Phase.back, Phase.out, Nat.add_assoc]

theorem Echo.Flow.readLast {k bpt count amtread : Nat}
    (hphase : s.phase = .reading bpt count amtread) (hcount : k ≤ count)
    (hdown : k ≤ s.down.length) (hlast : BUFSIZE ≤ amtread + k) :
    Echo.Flow buf mem (Echo.returned { s with
      mem := store s.mem bpt (s.down.take k)
      down := s.down.drop k }) := by
  obtain ⟨htake, hdrop⟩ := h.take_down hdown
  have hfits := h.fits
  rw [hphase] at htake hdrop hfits
  obtain ⟨hi, -, rfl, rfl⟩ := hfits
  have hmem : store s.mem (buf + amtread) (s.down.take k) = mem := by
    rw [htake, h.mem_eq]
    exact store_eq_self (by rw [length_load]; rfl)
  -- the whole buffer has come back, so that nothing is on the way
  have hnone : BUFSIZE - (amtread + k) = 0 := by omega
  have hempty : s.down.drop k ++ (s.server.rest ++ s.up) = [] := by
    rw [hdrop]
    simp only [Phase.back, Phase.out, hnone]
    rfl
  unfold Echo.returned
  dsimp only
  split_ifs with hnext
  · exact ⟨hmem, hempty, ⟨hnext, by decide⟩, h.sending⟩
  · refine ⟨hmem, ?_, ?_, h.sending⟩
    · dsimp only
      rw [hempty]
      rfl
    · change s.i + 1 = NOREQUESTS
      omega

theorem Echo.Flow.move (hmove : s.Move capUp capDown buf a s') : s'.Flow buf mem := by
  cases hmove with
  | write hphase hpos hle hroom => exact h.write hphase hle
  | readMore hphase hpos hcount hdown hmore => exact h.readMore hphase hdown hmore
  | readLast hphase hpos hcount hdown hlast => exact h.readLast hphase hcount hdown hlast
  | @recv k hserver hpos hle hup =>
      refine ⟨h.mem_eq, ?_, h.fits, ?_⟩
      · dsimp only [Server.rest]
        rw [List.take_append_drop, ← h.flow, hserver]
        rfl
      · intro n rest heq
        obtain ⟨-, rfl⟩ := Server.sending.inj heq
        refine List.ne_nil_of_length_pos ?_
        rw [List.length_take, min_eq_left hup]
        exact hpos
  | @sendSome k n rest hserver hpos hless hroom =>
      refine ⟨h.mem_eq, ?_, h.fits, ?_⟩
      · dsimp only [Server.rest]
        rw [List.append_assoc, ← List.append_assoc (rest.take k), List.take_append_drop, ← h.flow,
          hserver]
        rfl
      · intro n' rest' heq
        obtain ⟨-, rfl⟩ := Server.sending.inj heq
        refine List.ne_nil_of_length_pos ?_
        rw [List.length_drop]
        omega
  | @sendAll n rest hserver hpos hroom =>
      refine ⟨h.mem_eq, ?_, h.fits, fun n rest heq => absurd heq (by simp)⟩
      dsimp only [Server.rest]
      rw [List.append_assoc, List.nil_append, ← h.flow, hserver]
      rfl
  | terminate hserver =>
      refine ⟨h.mem_eq, ?_, h.fits, fun n rest heq => absurd heq (by simp)⟩
      rw [← h.flow, hserver]
      rfl

end

theorem Echo.Flow.start (buf : Nat) (mem : Nat → UInt8) :
    (Echo.start buf mem).Flow buf (store mem buf (fillBuf BUFSIZE)) where
  mem_eq := rfl
  flow := rfl
  fits := ⟨show 0 < NOREQUESTS by decide, show 0 < BUFSIZE by decide⟩
  sending n rest heq := absurd heq (by simp [Echo.start])

theorem Echo.Flow.run {actions : List EchoAction} (h : s.Flow buf mem)
    (hrun : actions.foldlM (Echo.step capUp capDown buf) s = some s') : s'.Flow buf mem :=
  foldlM_invariant _ (fun _ _ _ hs hstep => hs.move (Echo.step_move hstep)) h hrun

/-! ### Runs come to an end -/

/-- What the server has still to do with what it has received. -/
def Server.hops : Server → Nat
  | receiving => 0
  | sending _ rest => 2 * rest.length + 1
  | sent _ => 1

/-- The ways that are still before the bytes of all requests: a byte goes from the client to the
connection, to the server, to the connection and back, and may have a `terminate` of its own. -/
def Echo.hops (s : Echo) : Nat :=
  5 * (BUFSIZE - s.phase.out) + 4 * s.up.length + s.server.hops + s.down.length +
    5 * BUFSIZE * (NOREQUESTS - 1 - s.i)

theorem Echo.hops_move (h : s.Flow buf mem) (hmove : s.Move capUp capDown buf a s') :
    s'.hops < s.hops := by
  have hfits := h.fits
  cases hmove with
  | @write k written hphase hpos hle hroom =>
      have hout : (if written + k < BUFSIZE then Phase.writing (written + k)
          else .reading buf BUFSIZE 0).out = written + k := by
        split_ifs with hmore
        · rfl
        · exact (hle.antisymm (not_lt.mp hmore)).symm
      simp only [Echo.hops, List.length_append, length_load]
      rw [hout, hphase]
      simp only [Phase.out]
      omega
  | @readMore k bpt count amtread hphase hpos hcount hdown hmore =>
      simp only [Echo.hops, List.length_drop, hphase, Phase.out]
      omega
  | @readLast k bpt count amtread hphase hpos hcount hdown hlast =>
      rw [hphase] at hfits
      have hi : s.i < NOREQUESTS := hfits.1
      unfold Echo.returned
      dsimp only
      split_ifs with hnext
      · -- a request more is begun, and its price is taken from the requests to come
        obtain ⟨j, hj⟩ : ∃ j, NOREQUESTS - 1 - s.i = j + 1 := ⟨NOREQUESTS - 2 - s.i, by omega⟩
        have hj' : NOREQUESTS - 1 - (s.i + 1) = j := by omega
        simp only [Echo.hops, List.length_drop, hphase, Phase.out, hj, hj', Nat.mul_add]
        omega
      · have hlastRequest : NOREQUESTS - 1 - (s.i + 1) = NOREQUESTS - 1 - s.i := by omega
        simp only [Echo.hops, List.length_drop, hphase, Phase.out, hlastRequest]
        omega
  | @recv k hserver hpos hle hup =>
      simp only [Echo.hops, Server.hops, List.length_drop, List.length_take, hserver]
      omega
  | @sendSome k n rest hserver hpos hless hroom =>
      simp only [Echo.hops, Server.hops, List.length_append, List.length_drop, List.length_take,
        hserver]
      omega
  | @sendAll n rest hserver hpos hroom =>
      simp only [Echo.hops, Server.hops, List.length_append, hserver]
      omega
  | terminate hserver =>
      simp only [Echo.hops, Server.hops, hserver]
      omega

theorem Echo.hops_start (buf : Nat) (mem : Nat → UInt8) :
    (Echo.start buf mem).hops = 5 * BUFSIZE * NOREQUESTS := by
  simp [Echo.hops, Echo.start, Phase.out, Server.hops, BUFSIZE, NOREQUESTS]

theorem Echo.hops_run {actions : List EchoAction} (h : s.Flow buf mem)
    (hrun : actions.foldlM (Echo.step capUp capDown buf) s = some s') :
    actions.length + s'.hops ≤ s.hops := by
  induction actions generalizing s with
  | nil =>
      obtain rfl := Option.some.inj hrun
      simp
  | cons a actions ih =>
      rw [List.foldlM_cons] at hrun
      obtain ⟨s₁, hstep, hrest⟩ := Option.bind_eq_some_iff.mp hrun
      have hmove := Echo.step_move hstep
      have hlt := Echo.hops_move h hmove
      have hle := ih (h.move hmove) hrest
      rw [List.length_cons]
      omega

/-! ### The end of `mesg` -/

/-- The byte behind `mesg` has been written, or will be before the next `recvfrom`. -/
def Echo.Overruns (s : Echo) : Prop :=
  s.overrun = true ∨ s.server = .sent MESG ∨ ∃ rest, s.server = .sending MESG rest

theorem Echo.overruns_move (hmove : s.Move capUp capDown buf a s') :
    s'.Overruns ↔ s.Overruns ∨ a = .recv MESG := by
  cases hmove with
  | write hphase hpos hle hroom => simp [Echo.Overruns]
  | readMore hphase hpos hcount hdown hmore => simp [Echo.Overruns]
  | readLast hphase hpos hcount hdown hlast =>
      unfold Echo.returned
      dsimp only
      split_ifs
      · simp [Echo.Overruns]
      · simp [Echo.Overruns]
  | recv hserver hpos hle hup => simp [Echo.Overruns, hserver]
  | sendSome hserver hpos hless hroom => simp [Echo.Overruns, hserver]
  | sendAll hserver hpos hroom => simp [Echo.Overruns, hserver]
  | terminate hserver => simp [Echo.Overruns, hserver]

theorem Echo.overruns_run {actions : List EchoAction}
    (hrun : actions.foldlM (Echo.step capUp capDown buf) s = some s') :
    s'.Overruns ↔ s.Overruns ∨ .recv MESG ∈ actions := by
  induction actions generalizing s with
  | nil =>
      obtain rfl := Option.some.inj hrun
      simp
  | cons a actions ih =>
      rw [List.foldlM_cons] at hrun
      obtain ⟨s₁, hstep, hrest⟩ := Option.bind_eq_some_iff.mp hrun
      rw [ih hrest, Echo.overruns_move (Echo.step_move hstep), List.mem_cons, or_assoc,
        eq_comm (a := a)]

end

/-! ### Room on the connection -/

section

variable {capUp capDown buf : Nat} {s : Echo} {mem : Nat → UInt8}

theorem isSome_read {bpt count amtread : Nat} (hphase : s.phase = .reading bpt count amtread)
    (hcount : 1 ≤ count) (hdown : s.down ≠ []) : (s.read 1).isSome := by
  have hlen := List.length_pos_of_ne_nil hdown
  have hne : s.down.take 1 ≠ [] := by
    refine List.ne_nil_of_length_pos ?_
    rw [List.length_take]
    omega
  unfold Echo.read
  rw [hphase]
  dsimp only
  rw [dif_pos ⟨hcount, hlen, hne⟩]
  split <;> rfl

theorem isSome_recv (hserver : s.server = .receiving) (hup : s.up ≠ []) : (s.recv 1).isSome := by
  unfold Echo.recv
  rw [hserver]
  dsimp only
  rw [if_pos ⟨Nat.one_pos, by decide, List.length_pos_of_ne_nil hup⟩]
  rfl

theorem isSome_send {n : Nat} {rest : List UInt8} (hserver : s.server = .sending n rest)
    (hrest : rest ≠ []) (hroom : s.down.length + 1 ≤ capDown) : (s.send capDown 1).isSome := by
  unfold Echo.send
  rw [hserver]
  dsimp only
  rw [if_pos ⟨Nat.one_pos, List.length_pos_of_ne_nil hrest, hroom⟩]
  split <;> rfl

theorem isSome_write {written : Nat} (hphase : s.phase = .writing written)
    (hless : written + 1 ≤ BUFSIZE) (hroom : s.up.length + 1 ≤ capUp) :
    (s.write capUp buf 1).isSome := by
  unfold Echo.write
  rw [hphase]
  dsimp only
  rw [if_pos ⟨Nat.one_pos, hless, hroom⟩]
  rfl

/-- With enough room somebody can always go on. -/
theorem Echo.Flow.enabled (h : s.Flow buf mem) (hup : 0 < capUp) (hdown : 0 < capDown)
    (hroom : BUFSIZE - 1 ≤ capUp + capDown) (hphase : s.phase ≠ .finished) :
    ∃ a, (s.step capUp capDown buf a).isSome := by
  have hlen := h.length
  have hfits := h.fits
  by_contra hstuck
  push Not at hstuck
  cases hserver : s.server with
  | receiving =>
      have hnoUp : s.up = [] := by
        by_contra hne
        exact hstuck (.recv 1) (isSome_recv hserver hne)
      rw [hnoUp, hserver] at hlen
      cases hcases : s.phase with
      | finished => exact hphase hcases
      | writing written =>
          rw [hcases] at hfits
          refine hstuck (.write 1) (isSome_write hcases hfits.2 ?_)
          rw [hnoUp]
          exact hup
      | reading bpt count amtread =>
          rw [hcases] at hlen hfits
          obtain ⟨-, hless, -, rfl⟩ := hfits
          simp only [Phase.back, Phase.out, Server.rest, List.length_nil] at hlen
          refine hstuck (.read 1) (isSome_read hcases (by omega) ?_)
          exact List.ne_nil_of_length_pos (by omega)
  | sent n =>
      refine hstuck .terminate ?_
      change s.terminate.isSome
      rw [Echo.terminate, hserver]
      rfl
  | sending n rest =>
      have hrest := h.sending n rest hserver
      have hpos := List.length_pos_of_ne_nil hrest
      have hfull : capDown ≤ s.down.length := by
        by_contra hless
        exact hstuck (.send 1) (isSome_send hserver hrest (by omega))
      have hne : s.down ≠ [] := List.ne_nil_of_length_pos (by omega)
      cases hcases : s.phase with
      | finished => exact hphase hcases
      | reading bpt count amtread =>
          rw [hcases] at hfits
          obtain ⟨-, hless, -, rfl⟩ := hfits
          exact hstuck (.read 1) (isSome_read hcases (by omega) hne)
      | writing written =>
          -- both directions are full, the server has a byte in its hands and the client another
          rw [hcases] at hlen hfits
          have hless := hfits.2
          have hfullUp : capUp ≤ s.up.length := by
            by_contra hroomUp
            exact hstuck (.write 1) (isSome_write hcases hless (by omega))
          simp only [Phase.back, Phase.out, hserver, Server.rest] at hlen
          omega

/-- With enough room every run can be continued until the client has finished. -/
theorem Echo.Flow.finishes (h : s.Flow buf mem) (hup : 0 < capUp) (hdown : 0 < capDown)
    (hroom : BUFSIZE - 1 ≤ capUp + capDown) :
    ∃ (actions : List EchoAction) (s' : Echo),
      actions.foldlM (Echo.step capUp capDown buf) s = some s' ∧ s'.phase = .finished := by
  induction hhops : s.hops using Nat.strong_induction_on generalizing s with
  | h hops ih =>
      by_cases hfinished : s.phase = .finished
      · exact ⟨[], s, rfl, hfinished⟩
      · obtain ⟨a, ha⟩ := h.enabled hup hdown hroom hfinished
        obtain ⟨s₁, hstep⟩ := Option.isSome_iff_exists.mp ha
        have hmove := Echo.step_move hstep
        have hless := Echo.hops_move h hmove
        obtain ⟨actions, s', hrun, hphase⟩ := ih s₁.hops (by omega) (h.move hmove) rfl
        exact ⟨a :: actions, s', (foldlM_cons_of_some hstep actions).trans hrun, hphase⟩

end

/-! ### Whole runs -/

/-- **The echo.** However the bytes are cut and the two programs take turns, a run has at most
51200 actions; the client's buffer is in every state what `fillBuf` has made it; and when the client
has finished, nothing is left on the way, the server is before `recvfrom` or `mesg[n] = 0`, and it
has written behind `mesg`, or is about to, exactly if some `recvfrom` returned 1000 bytes. -/
theorem echo_returns_buffer {capUp capDown buf : Nat} {s : Echo} {mem : Nat → UInt8}
    {actions : List EchoAction}
    (hrun : actions.foldlM (Echo.step capUp capDown buf) (Echo.start buf mem) = some s) :
    actions.length ≤ 5 * BUFSIZE * NOREQUESTS ∧ load s.mem buf BUFSIZE = fillBuf BUFSIZE ∧
      (s.phase = .finished → s.up = [] ∧ s.down = [] ∧
        (s.server = .receiving ∨ ∃ n, s.server = .sent n) ∧
        (s.overrun = true ∨ s.server = .sent MESG ↔ .recv MESG ∈ actions)) := by
  have hflow := (Echo.Flow.start buf mem).run hrun
  refine ⟨?_, ?_, fun hfinished => ?_⟩
  · have hhops := Echo.hops_run (.start buf mem) hrun
    rw [Echo.hops_start] at hhops
    omega
  · rw [hflow.mem_eq]
    have hload := @load_store _ mem buf (fillBuf BUFSIZE)
    rwa [length_fillBuf] at hload
  · have hlen := hflow.length
    rw [hfinished] at hlen
    simp only [Phase.back, Phase.out] at hlen
    have hsent : ∀ n rest, s.server ≠ .sending n rest := by
      intro n rest hserver
      have hpos := List.length_pos_of_ne_nil (hflow.sending n rest hserver)
      rw [hserver, Server.rest] at hlen
      omega
    refine ⟨List.length_eq_zero_iff.mp (by omega), List.length_eq_zero_iff.mp (by omega), ?_, ?_⟩
    · cases hserver : s.server with
      | receiving => exact .inl rfl
      | sending n rest => exact absurd hserver (hsent n rest)
      | sent n => exact .inr ⟨n, rfl⟩
    · have hoverruns := Echo.overruns_run hrun
      simpa [Echo.Overruns, hsent, Echo.start] using hoverruns

/-- A request that is received in a piece of 1000 bytes, and any run from there to the end. -/
theorem echo_returns_buffer_whole : ∃ actions s,
    (.write 1024 :: .recv 1000 :: actions).foldlM (Echo.step 1024 1024 0)
        (Echo.start 0 fun _ => 0) = some s ∧
      s.phase = .finished ∧ s.down = [] ∧ (s.overrun = true ∨ s.server = .sent MESG) := by
  obtain ⟨s₁, hfirst⟩ : ∃ s₁, [EchoAction.write 1024, .recv 1000].foldlM (Echo.step 1024 1024 0)
      (Echo.start 0 fun _ => 0) = some s₁ := Option.isSome_iff_exists.mp (by decide +kernel)
  obtain ⟨actions, s, hrest, hfinished⟩ := ((Echo.Flow.start 0 fun _ => 0).run hfirst).finishes
    (show 0 < 1024 by decide) (show 0 < 1024 by decide) (by decide)
  have hrun : (.write 1024 :: .recv 1000 :: actions).foldlM (Echo.step 1024 1024 0)
      (Echo.start 0 fun _ => 0) = some s := (foldlM_append_of_some hfirst actions).trans hrest
  obtain ⟨-, hdown, -, hoverrun⟩ := (echo_returns_buffer hrun).2.2 hfinished
  exact ⟨actions, s, hrun, hfinished, hdown, hoverrun.mpr (by simp [MESG])⟩

/-! ### Too little room

The connection can be filled in both directions before the client reads. -/

section

variable {capUp capDown : Nat} (buf : Nat) (mem : Nat → UInt8)

/-- So many bytes have come back as far as the connection, the server holds some and some are on the
way to it. -/
def filled (down : Nat) (held : List UInt8) (up : Nat) : Echo :=
  { Echo.start buf mem with
    phase := .writing (down + held.length + up)
    up := load (Echo.start buf mem).mem (buf + down + held.length) up
    server := if held = [] then .receiving else .sending held.length held
    down := load (Echo.start buf mem).mem buf down }

/-- The byte at a place of the buffer. -/
def byteAt (j : Nat) : List UInt8 := load (Echo.start buf mem).mem (buf + j) 1

theorem byteAt_ne_nil (j : Nat) : byteAt buf mem j ≠ [] :=
  List.ne_nil_of_length_pos (by rw [byteAt, length_load]; decide)

theorem step_write {down up : Nat} {held : List UInt8}
    (hless : down + held.length + up + 1 < BUFSIZE) (hroom : up < capUp) :
    (filled buf mem down held up).step capUp capDown buf (.write 1) =
      some (filled buf mem down held (up + 1)) := by
  change (filled buf mem down held up).write capUp buf 1 = _
  unfold Echo.write filled
  dsimp only
  rw [if_pos ⟨Nat.one_pos, hless.le, by rw [length_load]; exact hroom⟩, if_pos hless, load_add]
  simp only [Nat.add_assoc]

theorem step_recv (down : Nat) :
    (filled buf mem down [] 1).step capUp capDown buf (.recv 1) =
      some (filled buf mem down (byteAt buf mem down) 0) := by
  have hlen : (byteAt buf mem down).length = 1 := length_load _ _ _
  change (filled buf mem down [] 1).recv 1 = _
  unfold Echo.recv filled
  rw [if_pos rfl, if_neg (byteAt_ne_nil buf mem down)]
  dsimp only
  rw [if_pos ⟨Nat.one_pos, by decide, by rw [length_load]⟩, hlen]
  rfl

theorem step_send {down : Nat} (hroom : down < capDown) :
    (filled buf mem down (byteAt buf mem down) 0).step capUp capDown buf (.send 1) =
      some { filled buf mem (down + 1) [] 0 with server := .sent 1 } := by
  have hlen : (byteAt buf mem down).length = 1 := length_load _ _ _
  change (filled buf mem down (byteAt buf mem down) 0).send capDown 1 = _
  unfold Echo.send filled
  rw [if_neg (byteAt_ne_nil buf mem down)]
  dsimp only
  rw [hlen, if_pos ⟨Nat.one_pos, le_rfl, by rw [length_load]; exact hroom⟩,
    if_neg (lt_irrefl 1), List.take_of_length_le (by rw [hlen]), load_add]
  rfl

theorem step_terminate (down : Nat) :
    ({ filled buf mem (down + 1) [] 0 with server := .sent 1 } : Echo).step capUp capDown buf
      .terminate = some (filled buf mem (down + 1) [] 0) := rfl

theorem run_relay {j : Nat} (hup : 0 < capUp) (hj : j ≤ capDown) (hless : j < BUFSIZE) :
    ∃ actions : List EchoAction,
      actions.foldlM (Echo.step capUp capDown buf) (Echo.start buf mem) =
        some (filled buf mem j [] 0) := by
  induction j with
  | zero => exact ⟨[], rfl⟩
  | succ j ih =>
      obtain ⟨actions, hrun⟩ := ih (by omega) (by omega)
      refine ⟨actions ++ [.write 1, .recv 1, .send 1, .terminate], ?_⟩
      rw [foldlM_append_of_some hrun,
        foldlM_cons_of_some (step_write buf mem (by simpa using hless) hup),
        foldlM_cons_of_some (step_recv buf mem j),
        foldlM_cons_of_some (step_send buf mem (by omega)),
        foldlM_cons_of_some (step_terminate buf mem j)]
      rfl

theorem run_fill {down : Nat} {held : List UInt8} {up : Nat} (hup : up ≤ capUp)
    (hless : down + held.length + up < BUFSIZE) :
    (List.replicate up (.write 1)).foldlM (Echo.step capUp capDown buf)
        (filled buf mem down held 0) = some (filled buf mem down held up) := by
  induction up with
  | zero => rfl
  | succ up ih =>
      rw [List.replicate_succ', foldlM_append_of_some (ih (by omega) (by omega)),
        foldlM_cons_of_some (step_write buf mem (by omega) (by omega))]
      rfl

/-- Everything is full. -/
theorem stuck_of_filled {held : List UInt8} (hheld : held ≠ []) (a : EchoAction) :
    (filled buf mem capDown held capUp).step capUp capDown buf a = none := by
  cases a with
  | write k =>
      change (filled buf mem capDown held capUp).write capUp buf k = none
      unfold Echo.write filled
      dsimp only
      rw [if_neg]
      rw [length_load]
      omega
  | read k => rfl
  | recv k =>
      change (filled buf mem capDown held capUp).recv k = none
      unfold Echo.recv filled
      rw [if_neg hheld]
  | send k =>
      change (filled buf mem capDown held capUp).send capDown k = none
      unfold Echo.send filled
      rw [if_neg hheld]
      dsimp only
      rw [if_neg]
      rw [length_load]
      omega
  | terminate =>
      change (filled buf mem capDown held capUp).terminate = none
      unfold Echo.terminate filled
      rw [if_neg hheld]

end

/-- **Room on the connection.** On a connection with some room in each direction, in no run do the
client and the server come to wait for each other, exactly if the two directions have room for
`BUFSIZE - 1` bytes together. -/
theorem echo_progress_iff {capUp capDown : Nat} (hup : 0 < capUp) (hdown : 0 < capDown) (buf : Nat)
    (mem : Nat → UInt8) :
    (∀ (actions : List EchoAction) (s : Echo),
      actions.foldlM (Echo.step capUp capDown buf) (Echo.start buf mem) = some s →
        s.phase ≠ .finished → ∃ a, (s.step capUp capDown buf a).isSome) ↔
      BUFSIZE - 1 ≤ capUp + capDown := by
  constructor
  · intro h
    by_contra hsmall
    have hroom : capDown + 1 + capUp < BUFSIZE := by omega
    obtain ⟨actions, hrun⟩ := run_relay buf mem hup (le_refl capDown) (by omega)
    have hlen : (byteAt buf mem capDown).length = 1 := length_load _ _ _
    let last : List EchoAction := .write 1 :: .recv 1 :: List.replicate capUp (.write 1)
    have hwhole : (actions ++ last).foldlM (Echo.step capUp capDown buf) (Echo.start buf mem) =
        some (filled buf mem capDown (byteAt buf mem capDown) capUp) := by
      have hless : capDown + ([] : List UInt8).length + 0 + 1 < BUFSIZE := by
        rw [List.length_nil]
        omega
      rw [foldlM_append_of_some hrun, foldlM_cons_of_some (step_write buf mem hless hup),
        foldlM_cons_of_some (step_recv buf mem capDown),
        run_fill buf mem le_rfl (by rw [hlen]; exact hroom)]
    obtain ⟨a, ha⟩ := h _ _ hwhole (by simp [filled])
    rw [stuck_of_filled buf mem (byteAt_ne_nil buf mem capDown)] at ha
    exact absurd ha (by simp)
  · intro hroom actions s hrun hphase
    exact ((Echo.Flow.start buf mem).run hrun).enabled hup hdown hroom hphase

/-- Room for 511 bytes each way is not enough. -/
theorem echo_progress_iff_short :
    ¬ ∀ (actions : List EchoAction) (s : Echo),
      actions.foldlM (Echo.step 511 511 0) (Echo.start 0 fun _ => 0) = some s →
        s.phase ≠ .finished → ∃ a, (s.step 511 511 0 a).isSome := by
  rw [echo_progress_iff (by decide) (by decide)]
  decide

end CLabs.Client
