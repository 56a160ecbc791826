import CLabs.Lib.Loop
import CLabs.Lib.Memory

/-!
# CLabs.Client.DoRead

`doRead` of `tcpclient.c`: read from a socket until so many bytes have come.

* The peer is given by the pieces in which its bytes arrive and by what it does then. A
  `read` returns the next piece, or the part of it that was asked for; so the sizes that the
  successive reads return are any numbers between one and the count asked for, as TCP may
  split the bytes. After the last piece `read` returns 0 for ever (`closes`) or fails
  (`fails`).
* The counters are `int`s of the source that stay between 0 and `amountNeeded`.
* The `goto` is a loop that need not end: it is run with a bound on its rounds.
-/

namespace CLabs.Client

open CLabs.Lib

/-! ### The socket -/

/-- What a peer does after its last byte. -/
inductive Fate
  | closes | fails
  deriving Repr, DecidableEq

/-- A connected socket. -/
structure Socket where
  /-- What arrives, in the pieces in which it does. -/
  arriving : List (List UInt8)
  nonempty : ∀ piece ∈ arriving, piece ≠ []
  fate : Fate

/-- All bytes that the peer still sends. -/
def Socket.sent (s : Socket) : List UInt8 := s.arriving.flatten

/-- What `read` gives: a result below zero, or so many bytes. -/
inductive ReadResult
  | error
  | bytes (data : List UInt8)
  deriving Repr, DecidableEq

theorem nonempty_tail {piece : List UInt8} {rest : List (List UInt8)}
    (h : ∀ p ∈ piece :: rest, p ≠ []) : ∀ p ∈ rest, p ≠ [] :=
  fun p hp => h p (List.mem_cons_of_mem piece hp)

theorem nonempty_drop {piece : List UInt8} {rest : List (List UInt8)} {count : Nat}
    (h : ∀ p ∈ piece :: rest, p ≠ []) (hlt : count < piece.length) :
    ∀ p ∈ piece.drop count :: rest, p ≠ [] := by
  intro p hp
  rcases List.mem_cons.mp hp with rfl | hp
  · exact List.ne_nil_of_length_pos (by rw [List.length_drop]; omega)
  · exact nonempty_tail h p hp

/-- `read(sock, _, count)`. -/
def Socket.read (s : Socket) (count : Nat) : ReadResult × Socket :=
  match s with
  | ⟨[], h, .closes⟩ => (.bytes [], ⟨[], h, .closes⟩)
  | ⟨[], h, .fails⟩ => (.error, ⟨[], h, .fails⟩)
  | ⟨piece :: rest, h, fate⟩ =>
      if hlt : count < piece.length then
        (.bytes (piece.take count), ⟨piece.drop count :: rest, nonempty_drop h hlt, fate⟩)
      else (.bytes piece, ⟨rest, nonempty_tail h, fate⟩)

/-- A `read` that asks for something: the next bytes, the end of file or a failure. -/
theorem Socket.read_cases (s : Socket) {count : Nat} (hcount : 0 < count) :
    (s.sent = [] ∧ s.fate = .closes ∧ s.read count = (.bytes [], s)) ∨
    (s.sent = [] ∧ s.fate = .fails ∧ s.read count = (.error, s)) ∨
    ∃ data s', s.read count = (.bytes data, s') ∧ s.sent = data ++ s'.sent ∧ s'.fate = s.fate ∧
      0 < data.length ∧ data.length ≤ count := by
  obtain ⟨arriving, hne, fate⟩ := s
  cases arriving with
  | nil =>
      cases fate with
      | closes => exact Or.inl ⟨rfl, rfl, rfl⟩
      | fails => exact Or.inr (Or.inl ⟨rfl, rfl, rfl⟩)
  | cons piece rest =>
      refine Or.inr (Or.inr ?_)
      have hpos := List.length_pos_of_ne_nil (hne piece List.mem_cons_self)
      rw [Socket.read]
      by_cases hlt : count < piece.length
      · rw [dif_pos hlt]
        refine ⟨_, _, rfl, ?_, rfl, ?_, ?_⟩
        · simp only [Socket.sent, List.flatten_cons]
          rw [← List.append_assoc, List.take_append_drop]
        · rw [List.length_take]
          omega
        · rw [List.length_take]
          omega
      · rw [dif_neg hlt]
        exact ⟨_, _, rfl, rfl, rfl, hpos, by omega⟩

/-! ### The loop -/

/-- The variables of `doRead`, with the memory its buffer is in. -/
structure Reading where
  sock : Socket
  mem : Nat → UInt8
  bpt : Nat
  count : Nat
  amtread : Nat
  /-- `exit(1)` was called. -/
  exited : Bool

/-- From the label `again` on. -/
def again (amountNeeded : Nat) (r : Reading) : ForInStep Reading :=
  match r.sock.read r.count with
  | (.error, sock) => .done { r with sock := sock, exited := true }
  | (.bytes data, sock) =>
      let r := { r with sock := sock, mem := store r.mem r.bpt data }
      let amtread := r.amtread + data.length
      if amtread < amountNeeded then
        .yield { r with
          amtread := amtread, count := r.count - data.length, bpt := r.bpt + data.length }
      else .done { r with amtread := amtread }

/-- `doRead(sock, buf, amountNeeded)`, for so many reads at most; `none` if they are not
enough. -/
def doRead (reads : Nat) (sock : Socket) (mem : Nat → UInt8) (buf amountNeeded : Nat) :
    Option Reading :=
  runLoop (again amountNeeded) reads ⟨sock, mem, buf, amountNeeded, 0, false⟩

/-! ### What a read does to the loop -/

section

variable (sock : Socket) (mem : Nat → UInt8) (buf amountNeeded : Nat)

/-- The state before a read. -/
structure Progress (r : Reading) : Prop where
  short : r.amtread < amountNeeded
  count_eq : r.count = amountNeeded - r.amtread
  bpt_eq : r.bpt = buf + r.amtread
  /-- What has been read is in the buffer. -/
  mem_eq : r.mem = store mem buf (sock.sent.take r.amtread)
  /-- What has not been read is still to come. -/
  sent_eq : sock.sent = sock.sent.take r.amtread ++ r.sock.sent
  read_eq : (sock.sent.take r.amtread).length = r.amtread
  fate_eq : r.sock.fate = sock.fate
  running : r.exited = false

/-- The state in which `doRead` returns. -/
structure Returned (r : Reading) : Prop where
  running : r.exited = false
  mem_eq : r.mem = store mem buf (sock.sent.take amountNeeded)

variable {sock mem buf amountNeeded}

theorem Progress.start (h : 0 < amountNeeded) :
    Progress sock mem buf amountNeeded ⟨sock, mem, buf, amountNeeded, 0, false⟩ where
  short := h
  count_eq := rfl
  bpt_eq := rfl
  mem_eq := by simp
  sent_eq := by simp
  read_eq := by simp
  fate_eq := rfl
  running := rfl

/-- All that was sent is what has been read and what is to come. -/
theorem Progress.length_sent {r : Reading} (h : Progress sock mem buf amountNeeded r) :
    sock.sent.length = r.amtread + r.sock.sent.length := by
  have hlen := congrArg List.length h.sent_eq
  rwa [List.length_append, h.read_eq] at hlen

/-- The bytes of a read follow those read before. -/
theorem Progress.take_add {r : Reading} (h : Progress sock mem buf amountNeeded r)
    {data : List UInt8} {sock' : Socket} (hsent : r.sock.sent = data ++ sock'.sent) :
    sock.sent.take (r.amtread + data.length) = sock.sent.take r.amtread ++ data := by
  rw [List.take_add]
  congr 1
  rw [h.sent_eq, List.drop_left' h.read_eq, hsent, List.take_left]

/-- **One read.** At the end of file nothing changes; a failure ends the program; other
reads make progress or are the last. -/
theorem Progress.again_cases {r : Reading} (h : Progress sock mem buf amountNeeded r) :
    (r.sock.sent = [] ∧ sock.fate = .closes ∧ again amountNeeded r = .yield r) ∨
    (r.sock.sent = [] ∧ sock.fate = .fails ∧
      ∃ r', again amountNeeded r = .done r' ∧ r'.exited = true) ∨
    (∃ r', again amountNeeded r = .yield r' ∧ Progress sock mem buf amountNeeded r' ∧
      r'.count < r.count) ∨
    ∃ r', again amountNeeded r = .done r' ∧ Returned sock mem buf amountNeeded r' ∧
      amountNeeded ≤ sock.sent.length := by
  have hshort := h.short
  have hcount := h.count_eq
  have hpos : 0 < r.count := by omega
  unfold again
  obtain ⟨hnil, hfate, hread⟩ | ⟨hnil, hfate, hread⟩ |
    ⟨data, sock', hread, hsent, hfate, hdata, hle⟩ := r.sock.read_cases hpos
  · refine Or.inl ⟨hnil, h.fate_eq ▸ hfate, ?_⟩
    rw [hread]
    dsimp only
    rw [if_pos (by simpa using hshort)]
    simp
  · refine Or.inr (Or.inl ⟨hnil, h.fate_eq ▸ hfate, ?_⟩)
    rw [hread]
    exact ⟨_, rfl, rfl⟩
  · refine Or.inr (Or.inr ?_)
    have htake := h.take_add hsent
    have hmem : store r.mem r.bpt data =
        store mem buf (sock.sent.take (r.amtread + data.length)) := by
      rw [htake, store_append, h.read_eq, ← h.mem_eq, h.bpt_eq]
    have hlen : sock.sent.length = r.amtread + data.length + sock'.sent.length := by
      rw [h.length_sent, hsent, List.length_append]
      omega
    rw [hread]
    dsimp only
    by_cases hmore : r.amtread + data.length < amountNeeded
    · rw [if_pos hmore]
      refine Or.inl ⟨_, rfl, ?_, by dsimp only; omega⟩
      exact
        { short := hmore
          count_eq := by dsimp only; omega
          bpt_eq := by dsimp only; rw [h.bpt_eq, Nat.add_assoc]
          mem_eq := hmem
          sent_eq := by
            dsimp only
            rw [htake, List.append_assoc, ← hsent]
            exact h.sent_eq
          read_eq := by
            dsimp only
            rw [htake, List.length_append, h.read_eq]
          fate_eq := hfate.trans h.fate_eq
          running := h.running }
    · rw [if_neg hmore]
      refine Or.inr ⟨_, rfl, ⟨h.running, ?_⟩, by omega⟩
      -- the reads never ask for more than is needed
      have hexact : r.amtread + data.length = amountNeeded := by omega
      dsimp only
      rw [hmem, hexact]

/-- A read after which the loop goes on makes progress, unless it met the end of file. -/
theorem Progress.yield {r r' : Reading} (h : Progress sock mem buf amountNeeded r)
    (hopen : r.sock.sent = [] → sock.fate ≠ .closes) (hyield : again amountNeeded r = .yield r') :
    Progress sock mem buf amountNeeded r' ∧ r'.count < r.count := by
  obtain ⟨hnil, hfate, -⟩ | ⟨-, -, s, hs, -⟩ | ⟨s, hs, hs', hlt⟩ | ⟨s, hs, -, -⟩ := h.again_cases
  · exact absurd hfate (hopen hnil)
  · exact absurd (hs.symm.trans hyield) (by simp)
  · obtain rfl := ForInStep.yield.inj (hs.symm.trans hyield)
    exact ⟨hs', hlt⟩
  · exact absurd (hs.symm.trans hyield) (by simp)

/-! ### Runs -/

/-- A peer that sends enough is read to the end, and the buffer is filled. -/
theorem doRead_of_enough (hpos : 0 < amountNeeded) (henough : amountNeeded ≤ sock.sent.length) :
    ∃ reads r, doRead reads sock mem buf amountNeeded = some r ∧
      Returned sock mem buf amountNeeded r := by
  have hmore : ∀ r, Progress sock mem buf amountNeeded r → r.sock.sent ≠ [] := by
    intro r h hnil
    have hlen := h.length_sent
    have hshort := h.short
    rw [hnil, List.length_nil] at hlen
    omega
  refine runLoop_total Reading.count (Progress sock mem buf amountNeeded) _ ?_ ?_
    (Progress.start hpos)
  · intro r r' h hyield
    exact h.yield (fun hnil => absurd hnil (hmore r h)) hyield
  · intro r r' h hdone
    obtain ⟨hnil, -, -⟩ | ⟨hnil, -, -⟩ | ⟨s, hs, -, -⟩ | ⟨s, hs, hs', -⟩ := h.again_cases
    · exact absurd hnil (hmore r h)
    · exact absurd hnil (hmore r h)
    · exact absurd (hs.symm.trans hdone) (by simp)
    · obtain rfl := ForInStep.done.inj (hs.symm.trans hdone)
      exact hs'

/-- A peer that fails ends the program at the latest when its bytes are read. -/
theorem doRead_of_fails (hpos : 0 < amountNeeded) (hfate : sock.fate = .fails) :
    ∃ reads r, doRead reads sock mem buf amountNeeded = some r := by
  have hclose : sock.fate ≠ .closes := by rw [hfate]; decide
  obtain ⟨reads, r, hr, -⟩ := runLoop_total Reading.count (Progress sock mem buf amountNeeded)
    (fun _ => True) (fun _ _ h hyield => h.yield (fun _ => hclose) hyield)
    (fun _ _ _ _ => trivial) (Progress.start hpos)
  exact ⟨reads, r, hr⟩

/-- A peer that closes too early is read for ever. -/
theorem doRead_of_closes (hpos : 0 < amountNeeded) (hfate : sock.fate = .closes)
    (hshort : sock.sent.length < amountNeeded) (reads : Nat) :
    doRead reads sock mem buf amountNeeded = none := by
  refine runLoop_diverges (Progress sock mem buf amountNeeded) (fun r h => ?_)
    (Progress.start hpos) reads
  obtain ⟨-, -, hs⟩ | ⟨-, hfails, -⟩ | ⟨s, hs, hs', -⟩ | ⟨s, -, -, henough⟩ := h.again_cases
  · exact ⟨r, hs, h⟩
  · rw [hfate] at hfails
    exact absurd hfails (by decide)
  · exact ⟨s, hs, hs'⟩
  · omega

end

/-- **When `doRead` finishes.** It stops after finitely many reads, with the first bytes sent
in the buffer if enough were sent, exactly if enough are sent or the peer fails. -/
theorem doRead_finishes_iff {amountNeeded : Nat} (hpos : 0 < amountNeeded) (sock : Socket)
    (mem : Nat → UInt8) (buf : Nat) :
    ((∃ reads r, doRead reads sock mem buf amountNeeded = some r) ∧
      (amountNeeded ≤ sock.sent.length →
        ∃ reads r, doRead reads sock mem buf amountNeeded = some r ∧ r.exited = false ∧
          r.mem = store mem buf (sock.sent.take amountNeeded))) ↔
      amountNeeded ≤ sock.sent.length ∨ sock.fate = .fails := by
  constructor
  · rintro ⟨⟨reads, r, hr⟩, -⟩
    by_contra hnot
    obtain ⟨hshort, hfate⟩ := not_or.mp hnot
    have hcloses : sock.fate = .closes := by
      cases hcases : sock.fate with
      | closes => rfl
      | fails => exact absurd hcases hfate
    rw [doRead_of_closes hpos hcloses (by omega)] at hr
    exact absurd hr (by simp)
  · intro h
    have hfill : amountNeeded ≤ sock.sent.length →
        ∃ reads r, doRead reads sock mem buf amountNeeded = some r ∧ r.exited = false ∧
          r.mem = store mem buf (sock.sent.take amountNeeded) := by
      intro henough
      obtain ⟨reads, r, hr, hreturned⟩ := doRead_of_enough hpos henough
      exact ⟨reads, r, hr, hreturned.running, hreturned.mem_eq⟩
    refine ⟨?_, hfill⟩
    rcases h with henough | hfails
    · obtain ⟨reads, r, hr, -⟩ := hfill henough
      exact ⟨reads, r, hr⟩
    · exact doRead_of_fails hpos hfails

/-- Four bytes in two pieces, three of which are asked for. -/
def splitPeer : Socket := ⟨[[10, 11], [12, 13]], by decide, .closes⟩

theorem doRead_finishes_iff_splitPeer :
    (0 < 3 ∧ 3 ≤ splitPeer.sent.length) ∧
      (∃ reads r, doRead reads splitPeer (fun _ => 0) 100 3 = some r) :=
  ⟨by decide, ((doRead_finishes_iff (by decide) splitPeer (fun _ => 0) 100).mpr
    (Or.inl (by decide))).1⟩

/-- A peer that sends one byte and closes. -/
def earlyPeer : Socket := ⟨[[10]], by decide, .closes⟩

/-- No number of reads is enough for two bytes of it. -/
theorem doRead_hangs :
    ¬ ∃ reads r, doRead reads earlyPeer (fun _ => 0) 100 2 = some r := by
  rintro ⟨reads, r, hr⟩
  rw [doRead_of_closes (by decide) rfl (by decide)] at hr
  exact absurd hr (by simp)

end CLabs.Client
