import CLabs.Lib.Loop
import CLabs.Lib.MachineInt
import CLabs.Lib.OrdMap
import CLabs.Tcp.SeqNumbers
import Mathlib.Data.Prod.Lex

/-!
# CLabs.Tcp.Stream

The model of `TCPCapStream` (`tcpcap_stream.cpp`): one TCP connection, with a
reassembly buffer for each of its two directions.

Design points:

* The fields the source keeps per direction (`client_seq`, `client_payload_`,
  `client_frags` and their `server_` twins) are grouped in `Half`; the source
  passes exactly these three by reference to `generic_process`.
* A `RawPDU` is a heap object. It is modelled by its bytes together with the
  identity of the object, and every function that frees an object or erases a
  prefix of a byte vector reports it in a log of `MemOp`s. An erase beyond the
  end of a vector is undefined in the source; the model keeps nothing of such a
  vector, and the log tells the cases apart.
* The drain loop of `generic_process` is a `whileLoop` over the state it mutates
  (`Drain`). Its iterator wraps from the end of the map to its beginning, so the
  loop's termination is not a walk over the map: it is carried by `drainMeasure`
  (`drainBody_decreases`).
-/

namespace CLabs.Tcp

open CLabs.Lib

/-! ### Packets -/

/-- `RawPDU`: a payload taken from a packet. -/
structure RawPDU where
  /-- Identity of the heap object. -/
  ident : Nat
  /-- Its bytes. -/
  payload : List UInt8
  deriving Repr, DecidableEq

/-- `RawPDU::payload_size`: the vector's size, converted to `uint32_t`. -/
def RawPDU.payloadSize (raw : RawPDU) : UInt32 := UInt32.ofNat raw.payload.length

theorem payloadSize_toNat {raw : RawPDU} (h : raw.payload.length < 4294967296) :
    raw.payloadSize.toNat = raw.payload.length :=
  UInt32.toNat_ofNat_of_lt' h

/-- `payload().erase(begin, begin + n)`. -/
def RawPDU.erasePrefix (raw : RawPDU) (n : UInt32) : RawPDU :=
  { raw with payload := raw.payload.drop n.toNat }

/-- The fields of an `IP` header that the stream code reads. -/
structure IP where
  srcAddr : UInt32
  dstAddr : UInt32
  deriving Repr, DecidableEq

/-- `TCP::Flags`. -/
inductive Flag
  | FIN | SYN | RST | PSH | ACK | URG | ECE | CWR
  deriving Repr, DecidableEq

/-- Position of a flag in the flags field. -/
def Flag.bit : Flag → Nat
  | FIN => 0
  | SYN => 1
  | RST => 2
  | PSH => 3
  | ACK => 4
  | URG => 5
  | ECE => 6
  | CWR => 7

/-- The fields of a `TCP` header that the stream code reads, with the payload the
segment owns. -/
structure TCP where
  sport : UInt16
  dport : UInt16
  seq : UInt32
  ackSeq : UInt32
  /-- The eight flags and, above them, the four reserved bits. -/
  flags : BitVec 12
  /-- `inner_pdu`: absent when the segment carries no data. -/
  innerPdu : Option RawPDU
  deriving Repr, DecidableEq

/-- `TCP::get_flag`. -/
def TCP.getFlag (tcp : TCP) (f : Flag) : Bool := tcp.flags.getLsbD f.bit

/-- `TCP::SYN | TCP::ACK` as a whole flags field. -/
def synAckFlags : BitVec 12 := 0x12

/-! ### Stream identification -/

/-- `TCPCapStream::StreamInfo`. -/
structure StreamInfo where
  clientAddr : UInt32
  serverAddr : UInt32
  clientPort : UInt16
  serverPort : UInt16
  deriving Repr, DecidableEq

namespace StreamInfo

/-- The endpoints exchanged, as `callback` does between its two lookups. -/
def swap (info : StreamInfo) : StreamInfo :=
  ⟨info.serverAddr, info.clientAddr, info.serverPort, info.clientPort⟩

@[simp] theorem swap_swap (info : StreamInfo) : info.swap.swap = info := rfl

theorem swap_injective {a b : StreamInfo} (h : a.swap = b.swap) : a = b := by
  rw [← swap_swap a, h, swap_swap]

/-- `StreamInfo::operator<`. -/
def less (info rhs : StreamInfo) : Bool :=
  if info.clientAddr = rhs.clientAddr then
    if info.serverAddr = rhs.serverAddr then
      if info.clientPort = rhs.clientPort then info.serverPort < rhs.serverPort
      else info.clientPort < rhs.clientPort
    else info.serverAddr < rhs.serverAddr
  else info.clientAddr < rhs.clientAddr

/-- The key `operator<` compares lexicographically. -/
def toLexKey (info : StreamInfo) : UInt32 ×ₗ UInt32 ×ₗ UInt16 ×ₗ UInt16 :=
  toLex (info.clientAddr, toLex (info.serverAddr, toLex (info.clientPort, info.serverPort)))

instance : LinearOrder StreamInfo :=
  LinearOrder.lift' toLexKey fun a b h => by
    cases a; cases b
    simpa [toLexKey] using h

/-- The order the sessions are sorted by is the source's `operator<`. -/
theorem lt_iff_less {a b : StreamInfo} : a < b ↔ a.less b = true := by
  change a.toLexKey < b.toLexKey ↔ _
  unfold less toLexKey
  rw [Prod.Lex.toLex_lt_toLex, Prod.Lex.toLex_lt_toLex, Prod.Lex.toLex_lt_toLex]
  split_ifs with hc hs hp <;> simp [*]

end StreamInfo

/-! ### Stream state -/

/-- What `TCPCapStream` keeps for one direction. -/
structure Half where
  /-- `client_seq` / `server_seq`: the next sequence number expected. -/
  seq : UInt32
  /-- `client_payload_` / `server_payload_`. -/
  payload : List UInt8
  /-- `client_frags` / `server_frags`: segments that arrived too early. -/
  frags : OrdMap UInt32 RawPDU
  deriving DecidableEq

/-- `TCPCapStream`. -/
structure TCPCapStream where
  client : Half
  server : Half
  info : StreamInfo
  identifier : UInt64
  synAckSent : Bool
  finSent : Bool
  deriving DecidableEq

/-- The constructor `TCPCapStream(ip, tcp, identifier)`. -/
def TCPCapStream.new (ip : IP) (tcp : TCP) (identifier : UInt64) : TCPCapStream where
  client := ⟨tcp.seq, [], ∅⟩
  server := ⟨0, [], ∅⟩
  info := ⟨ip.srcAddr, ip.dstAddr, tcp.sport, tcp.dport⟩
  identifier := identifier
  synAckSent := false
  finSent := false

/-- `is_finished`. -/
def TCPCapStream.isFinished (s : TCPCapStream) : Bool := s.finSent

/-- A memory operation of the stream code. -/
inductive MemOp
  /-- `delete raw`. -/
  | delete (raw : RawPDU)
  /-- Erase the first `count` bytes of a vector that holds `size`. -/
  | erase (count size : Nat)
  deriving Repr, DecidableEq

/-! ### Fragments -/

/-- `erase_iterator`: remove the entry at `it` and step to the next position,
wrapping to the beginning. -/
def eraseIterator {κ ν : Type} [LinearOrder κ] (it : κ) (cont : OrdMap κ ν) :
    Option κ × OrdMap κ ν :=
  match cont.next it with
  | some output => (some output, cont.erase it)
  | none => ((cont.erase it).begin, cont.erase it)

@[simp] theorem eraseIterator_snd {κ ν : Type} [LinearOrder κ] (it : κ) (cont : OrdMap κ ν) :
    (eraseIterator it cont).2 = cont.erase it := by
  unfold eraseIterator
  split <;> rfl

/-- Erasing the first entry steps to the new first entry. -/
theorem eraseIterator_fst_of_begin {κ ν : Type} [LinearOrder κ] {it : κ} {cont : OrdMap κ ν}
    (h : cont.begin = some it) : (eraseIterator it cont).1 = (cont.erase it).begin := by
  unfold eraseIterator
  rw [OrdMap.next_of_begin h]
  split
  · rename_i output hout
    exact hout.symm
  · rfl

/-- `safe_insert`: of two segments at one position the larger is kept. -/
def safeInsert (frags : OrdMap UInt32 RawPDU) (seq : UInt32) (raw : RawPDU) :
    OrdMap UInt32 RawPDU × List MemOp :=
  match frags.find? seq with
  | none => (frags.insert seq raw, [])
  | some stored =>
      if stored.payloadSize > raw.payloadSize then (frags, [.delete raw])
      else (frags.insert seq raw, [.delete stored])

/-- The segment `safe_insert` leaves at the position. -/
def kept (stored? : Option RawPDU) (raw : RawPDU) : RawPDU :=
  match stored? with
  | none => raw
  | some stored => if stored.payloadSize > raw.payloadSize then stored else raw

theorem find?_safeInsert (frags : OrdMap UInt32 RawPDU) (seq key : UInt32) (raw : RawPDU) :
    (safeInsert frags seq raw).1.find? key =
      if key = seq then some (kept (frags.find? seq) raw) else frags.find? key := by
  unfold safeInsert kept
  cases hf : frags.find? seq with
  | none => simp only [OrdMap.find?_insert]
  | some stored =>
      dsimp only
      split_ifs with hsize hkey hkey
      · rw [hkey, hf]
      · rfl
      · rw [hkey, OrdMap.find?_insert_self]
      · rw [OrdMap.find?_insert_of_ne _ _ hkey]

theorem mem_safeInsert {frags : OrdMap UInt32 RawPDU} {seq key : UInt32} {raw : RawPDU} :
    key ∈ (safeInsert frags seq raw).1 ↔ key = seq ∨ key ∈ frags := by
  rw [OrdMap.mem_iff, OrdMap.mem_iff, find?_safeInsert]
  split_ifs with h <;> simp [h]

/-- What holds of the fragments and of the segment put in holds of the fragments after. -/
theorem forall_safeInsert {P : UInt32 → RawPDU → Prop} {frags : OrdMap UInt32 RawPDU}
    {seq : UInt32} {raw : RawPDU} (hfrags : ∀ key stored, frags.find? key = some stored → P key stored)
    (hraw : P seq raw) {key : UInt32} {stored : RawPDU}
    (h : (safeInsert frags seq raw).1.find? key = some stored) : P key stored := by
  rw [find?_safeInsert] at h
  by_cases hkey : key = seq
  · rw [if_pos hkey] at h
    obtain rfl := Option.some.inj h
    rw [hkey]
    unfold kept
    cases hold : frags.find? seq with
    | none => exact hraw
    | some old =>
        dsimp only
        split
        · exact hfrags seq old hold
        · exact hraw
  · rw [if_neg hkey] at h
    exact hfrags key stored h

theorem size_safeInsert (frags : OrdMap UInt32 RawPDU) (seq : UInt32) (raw : RawPDU) :
    (safeInsert frags seq raw).1.size ≤ frags.size + (if seq ∈ frags then 0 else 1) := by
  unfold safeInsert
  cases hf : frags.find? seq with
  | none =>
      rw [if_neg (by rw [OrdMap.mem_iff, hf]; simp)]
      exact frags.size_insert_le seq raw
  | some stored =>
      have hmem : seq ∈ frags := OrdMap.mem_iff_exists.mpr ⟨stored, hf⟩
      rw [if_pos hmem]
      dsimp only
      split_ifs
      · exact le_rfl
      · exact (OrdMap.size_insert_of_mem hmem raw).le

/-! ### The drain loop

`Drain` is what the `while` loop of `generic_process` reads and writes. The three
branches of its body are `sliceFragment`, `dropFragment` and `takeFragment`. -/

/-- State of the drain loop. -/
structure Drain where
  mySeq : UInt32
  pload : List UInt8
  frags : OrdMap UInt32 RawPDU
  /-- The iterator: the key it points at, `none` at `frags.end()`. -/
  it : Option UInt32
  addedSome : Bool
  mem : List MemOp

/-- The fragment starts before `my_seq` and ends after it: cut off what has been
seen and put the rest at `my_seq`. -/
def sliceFragment (d : Drain) (key : UInt32) (raw : RawPDU) : Drain :=
  let count := subtractSequenceNumbers d.mySeq key
  let inserted := safeInsert d.frags d.mySeq (raw.erasePrefix count)
  let erased := eraseIterator key inserted.1
  { d with
    frags := erased.2
    it := erased.1
    mem := d.mem ++ .erase count.toNat raw.payload.length :: inserted.2 }

/-- The whole fragment has been seen: erase it. -/
def dropFragment (d : Drain) (key : UInt32) (raw : RawPDU) : Drain :=
  let erased := eraseIterator key d.frags
  { d with frags := erased.2, it := erased.1, mem := d.mem ++ [.delete raw] }

/-- The fragment starts at `my_seq`: add its bytes to the payload. -/
def takeFragment (d : Drain) (key : UInt32) (raw : RawPDU) : Drain :=
  let erased := eraseIterator key d.frags
  { mySeq := d.mySeq + raw.payloadSize
    pload := d.pload ++ raw.payload
    frags := erased.2
    it := erased.1
    addedSome := true
    mem := d.mem ++ [.delete raw] }

/-- One round of the loop, its condition included. -/
def drainBody (d : Drain) : ForInStep Drain :=
  match d.it with
  | none => .done d
  | some key =>
      match d.frags.find? key with
      -- an iterator that is not at the end points at an entry
      | none => .done d
      | some raw =>
          if compareSeqNumbers key d.mySeq ≤ 0 then
            if compareSeqNumbers key d.mySeq < 0 then
              let fragmentEnd := addSequenceNumbers key raw.payloadSize
              if compareSeqNumbers fragmentEnd d.mySeq > 0 then
                .yield (sliceFragment d key raw)
              else
                .yield (dropFragment d key raw)
            else
              let d' := takeFragment d key raw
              if d'.frags.isEmpty then .done d' else .yield d'
          else .done d

/-- Everything a further round can do. -/
theorem drainBody_yield {d d' : Drain} (h : drainBody d = .yield d') :
    ∃ key raw, d.it = some key ∧ d.frags.find? key = some raw ∧
      ((compareSeqNumbers key d.mySeq < 0 ∧
          0 < compareSeqNumbers (addSequenceNumbers key raw.payloadSize) d.mySeq ∧
          d' = sliceFragment d key raw) ∨
        (compareSeqNumbers key d.mySeq < 0 ∧
          compareSeqNumbers (addSequenceNumbers key raw.payloadSize) d.mySeq ≤ 0 ∧
          d' = dropFragment d key raw) ∨
        (key = d.mySeq ∧ d' = takeFragment d key raw)) := by
  unfold drainBody at h
  cases hit : d.it with
  | none => simp [hit] at h
  | some key =>
      simp only [hit] at h
      cases hraw : d.frags.find? key with
      | none => simp [hraw] at h
      | some raw =>
          simp only [hraw] at h
          refine ⟨key, raw, rfl, hraw, ?_⟩
          by_cases hle : compareSeqNumbers key d.mySeq ≤ 0
          · rw [if_pos hle] at h
            by_cases hlt : compareSeqNumbers key d.mySeq < 0
            · rw [if_pos hlt] at h
              by_cases hend : compareSeqNumbers (addSequenceNumbers key raw.payloadSize) d.mySeq > 0
              · rw [if_pos hend] at h
                exact Or.inl ⟨hlt, hend, (ForInStep.yield.inj h).symm⟩
              · rw [if_neg hend] at h
                exact Or.inr (Or.inl ⟨hlt, not_lt.mp hend, (ForInStep.yield.inj h).symm⟩)
            · rw [if_neg hlt] at h
              have hkey := compareSeqNumbers_eq_zero_iff.mp (le_antisymm hle (not_lt.mp hlt))
              by_cases hempty : (takeFragment d key raw).frags.isEmpty = true
              · simp [hempty] at h
              · simp only [hempty, if_false, Bool.false_eq_true] at h
                exact Or.inr (Or.inr ⟨hkey, (ForInStep.yield.inj h).symm⟩)
          · simp [hle] at h

/-- Everything the last round can do: the condition fails, or the `break` after a
fragment that was the only one. -/
theorem drainBody_done {d d' : Drain} (h : drainBody d = .done d') :
    (d' = d ∧ ∀ key raw, d.it = some key → d.frags.find? key = some raw →
        0 < compareSeqNumbers key d.mySeq) ∨
      (∃ raw, d.it = some d.mySeq ∧ d.frags.find? d.mySeq = some raw ∧
        d' = takeFragment d d.mySeq raw ∧ d'.frags.isEmpty = true) := by
  unfold drainBody at h
  cases hit : d.it with
  | none =>
      simp only [hit, ForInStep.done.injEq] at h
      exact Or.inl ⟨h.symm, by simp⟩
  | some key =>
      simp only [hit] at h
      cases hraw : d.frags.find? key with
      | none =>
          simp only [hraw, ForInStep.done.injEq] at h
          refine Or.inl ⟨h.symm, fun key' raw' hkey' hraw' => ?_⟩
          obtain rfl := Option.some.inj hkey'
          rw [hraw] at hraw'
          exact absurd hraw' (by simp)
      | some raw =>
          simp only [hraw] at h
          by_cases hle : compareSeqNumbers key d.mySeq ≤ 0
          · rw [if_pos hle] at h
            by_cases hlt : compareSeqNumbers key d.mySeq < 0
            · rw [if_pos hlt] at h
              split at h <;> exact absurd h (by simp)
            · rw [if_neg hlt] at h
              obtain rfl := compareSeqNumbers_eq_zero_iff.mp (le_antisymm hle (not_lt.mp hlt))
              by_cases hempty : (takeFragment d d.mySeq raw).frags.isEmpty = true
              · simp only [hempty, if_true, ForInStep.done.injEq] at h
                exact Or.inr ⟨raw, rfl, hraw, h.symm, h ▸ hempty⟩
              · simp [hempty] at h
          · rw [if_neg hle, ForInStep.done.injEq] at h
            refine Or.inl ⟨h.symm, fun key' raw' hkey' _ => ?_⟩
            obtain rfl := Option.some.inj hkey'
            exact not_le.mp hle

/-- What every round makes smaller. A slice moves a fragment to `my_seq` without
shortening the map, so fragments away from `my_seq` count twice. -/
def drainMeasure (d : Drain) : Nat := 2 * d.frags.size - if d.mySeq ∈ d.frags then 1 else 0

theorem drainBody_decreases : Decreases drainBody drainMeasure := by
  intro d d' h
  obtain ⟨key, raw, -, hraw, hcases⟩ := drainBody_yield h
  have hkey : key ∈ d.frags := OrdMap.mem_iff_exists.mpr ⟨raw, hraw⟩
  have herase := OrdMap.size_erase_lt hkey
  unfold drainMeasure
  rcases hcases with ⟨hlt, -, rfl⟩ | ⟨-, -, rfl⟩ | ⟨rfl, rfl⟩
  · -- the slice: one entry leaves a key other than `my_seq`, one may enter at it
    simp only [sliceFragment, eraseIterator_snd]
    have hne : d.mySeq ≠ key := by
      intro heq
      subst heq
      rw [compareSeqNumbers_self] at hlt
      exact absurd hlt (lt_irrefl _)
    generalize hsliced : raw.erasePrefix (subtractSequenceNumbers d.mySeq key) = sliced
    have hinserted := size_safeInsert d.frags d.mySeq sliced
    have hmy : d.mySeq ∈ (safeInsert d.frags d.mySeq sliced).1.erase key :=
      OrdMap.mem_erase.mpr ⟨hne, mem_safeInsert.mpr (Or.inl rfl)⟩
    have hkey' := OrdMap.size_erase_lt
      (mem_safeInsert.mpr (Or.inr hkey) : key ∈ (safeInsert d.frags d.mySeq sliced).1)
    rw [if_pos hmy]
    split_ifs at hinserted ⊢ <;> omega
  · simp only [dropFragment, eraseIterator_snd]
    by_cases hmy : d.mySeq ∈ d.frags
    · by_cases hmy' : d.mySeq ∈ d.frags.erase key
      · simp only [hmy, hmy', if_true]
        have := OrdMap.size_erase_lt hmy'
        omega
      · simp only [hmy, hmy', if_true, if_false]
        omega
    · simp only [hmy, if_false]
      split_ifs <;> omega
  · simp only [takeFragment, eraseIterator_snd, hkey, if_true]
    split_ifs <;> omega

/-- The `while` loop of `generic_process`. -/
def drain (d : Drain) : Drain := whileLoop drainBody drainMeasure drainBody_decreases d

/-- **The loop ends**, whatever the map, `my_seq` and the iterator: it goes round at most
twice for each fragment it starts with, and once more to find that it is done. -/
theorem drain_terminates (d : Drain) :
    runLoop drainBody (2 * d.frags.size + 1) d = some (drain d) :=
  runLoop_mono (runLoop_eq_whileLoop drainBody_decreases d)
    (Nat.succ_le_succ (Nat.sub_le _ _))

/-- **What the three branches of the loop keep, the loop keeps.** -/
theorem drain_rule (inv : Drain → Prop)
    (hslice : ∀ d key raw, inv d → d.frags.find? key = some raw →
      compareSeqNumbers key d.mySeq < 0 →
      0 < compareSeqNumbers (addSequenceNumbers key raw.payloadSize) d.mySeq →
      inv (sliceFragment d key raw))
    (hdrop : ∀ d key raw, inv d → d.frags.find? key = some raw → inv (dropFragment d key raw))
    (htake : ∀ d raw, inv d → d.frags.find? d.mySeq = some raw →
      inv (takeFragment d d.mySeq raw))
    {d : Drain} (h : inv d) : inv (drain d) := by
  refine whileLoop_rule drainBody_decreases inv inv ?_ ?_ h
  · intro d₁ d₂ h₁ hbody
    obtain ⟨key, raw, -, hraw, hcases⟩ := drainBody_yield hbody
    rcases hcases with ⟨hlt, hend, rfl⟩ | ⟨-, -, rfl⟩ | ⟨rfl, rfl⟩
    · exact hslice d₁ key raw h₁ hraw hlt hend
    · exact hdrop d₁ key raw h₁ hraw
    · exact htake d₁ raw h₁ hraw
  · intro d₁ d₂ h₁ hbody
    rcases drainBody_done hbody with ⟨rfl, -⟩ | ⟨raw, -, hraw, rfl, -⟩
    · exact h₁
    · exact htake d₁ raw h₁ hraw

/-- A loop that is at `my_seq` takes the fragment there. -/
theorem drainBody_take {d : Drain} {raw : RawPDU} (hit : d.it = some d.mySeq)
    (hfind : d.frags.find? d.mySeq = some raw) :
    drainBody d =
      if (takeFragment d d.mySeq raw).frags.isEmpty then .done (takeFragment d d.mySeq raw)
      else .yield (takeFragment d d.mySeq raw) := by
  unfold drainBody
  rw [hit]
  dsimp only
  rw [hfind]
  dsimp only
  rw [compareSeqNumbers_self, if_pos le_rfl, if_neg (lt_irrefl _)]

/-- A loop at a fragment after `my_seq`, or at the end of the map, is left. -/
theorem drainBody_stop {d : Drain}
    (h : ∀ key, d.it = some key → key ∈ d.frags → 0 < compareSeqNumbers key d.mySeq) :
    drainBody d = .done d := by
  unfold drainBody
  cases hit : d.it with
  | none => rfl
  | some key =>
      dsimp only
      cases hfind : d.frags.find? key with
      | none => rfl
      | some raw =>
          have hpos := h key hit (OrdMap.mem_iff_exists.mpr ⟨raw, hfind⟩)
          dsimp only
          rw [if_neg (not_le.mpr hpos)]

/-! ### The iterator without a wrap

Where the sequence numbers do not wrap, the loop is at the least key or has nothing to do,
and each round erases the least key. -/

/-- The iterator is at the beginning of the map, or no fragment can be used. -/
def Drain.AtBegin (d : Drain) : Prop := d.it = d.frags.begin ∨ ∀ key ∈ d.frags, d.mySeq < key

section

variable {d : Drain} {key : UInt32} {raw : RawPDU}

/-- A round that is entered works on the least key. -/
theorem Drain.AtBegin.begin_eq (h : d.AtBegin) (hit : d.it = some key)
    (hfind : d.frags.find? key = some raw) (hle : key ≤ d.mySeq) :
    d.frags.begin = some key := by
  rcases h with hbegin | hafter
  · rw [← hbegin, hit]
  · exact absurd (hafter key (OrdMap.mem_iff_exists.mpr ⟨raw, hfind⟩)) hle.not_gt

theorem sliceFragment_atBegin (h : d.frags.begin = some key) (hlt : key < d.mySeq) :
    (sliceFragment d key raw).AtBegin := by
  obtain ⟨hmem, hleast⟩ := OrdMap.begin_eq_some_iff.mp h
  -- the fragment put back at `my_seq` lies behind the one erased
  have hfirst : (safeInsert d.frags d.mySeq
      (raw.erasePrefix (subtractSequenceNumbers d.mySeq key))).1.begin = some key := by
    refine OrdMap.begin_eq_some_iff.mpr ⟨mem_safeInsert.mpr (Or.inr hmem), fun key' hkey' => ?_⟩
    rcases mem_safeInsert.mp hkey' with rfl | hkey'
    · exact hlt.le
    · exact hleast key' hkey'
  left
  simp only [sliceFragment, eraseIterator_snd]
  exact eraseIterator_fst_of_begin hfirst

theorem dropFragment_atBegin (h : d.frags.begin = some key) : (dropFragment d key raw).AtBegin := by
  left
  simp only [dropFragment, eraseIterator_snd]
  exact eraseIterator_fst_of_begin h

theorem takeFragment_atBegin (h : d.frags.begin = some key) : (takeFragment d key raw).AtBegin := by
  left
  simp only [takeFragment, eraseIterator_snd]
  exact eraseIterator_fst_of_begin h

/-- When the loop stops at its fragment, all of them lie after `my_seq`. -/
theorem Drain.AtBegin.after (h : d.AtBegin)
    (hexit : ∀ key raw, d.it = some key → d.frags.find? key = some raw → d.mySeq < key) :
    ∀ key ∈ d.frags, d.mySeq < key := by
  rcases h with hbegin | hafter
  · intro key hkey
    cases hfirst : d.frags.begin with
    | none => exact absurd hkey (OrdMap.begin_eq_none_iff.mp hfirst key)
    | some first =>
        obtain ⟨hmem, hleast⟩ := OrdMap.begin_eq_some_iff.mp hfirst
        obtain ⟨raw, hraw⟩ := OrdMap.mem_iff_exists.mp hmem
        exact lt_of_lt_of_le (hexit first raw (hbegin.trans hfirst) hraw) (hleast key hkey)
  · exact hafter

end

/-! ### Processing a segment -/

/-- What a call of `generic_process` leaves behind. -/
structure Processed where
  half : Half
  finSent : Bool
  /-- The value returned. -/
  addedSome : Bool
  mem : List MemOp

/-- The segment as it enters the fragment map: a part that lies before `my_seq` is
sliced off. -/
def entrySegment (mySeq seq : UInt32) (raw : RawPDU) : UInt32 × RawPDU × List MemOp :=
  if compareSeqNumbers seq mySeq < 0 then
    let diff := subtractSequenceNumbers mySeq seq
    (mySeq, raw.erasePrefix diff, [.erase diff.toNat raw.payload.length])
  else (seq, raw, [])

/-- The fragment map and iterator the drain loop starts with. -/
def startDrain (my : Half) (seq : UInt32) (raw : RawPDU) : Drain :=
  let entry := entrySegment my.seq seq raw
  let inserted := safeInsert my.frags entry.1 entry.2.1
  { mySeq := my.seq
    pload := my.payload
    frags := inserted.1
    it := if my.seq ∈ inserted.1 then some my.seq else none
    addedSome := false
    mem := entry.2.2 ++ inserted.2 }

theorem startDrain_atBegin {my : Half} {seq : UInt32} {raw : RawPDU}
    (hafter : ∀ key ∈ my.frags, my.seq < key) (hle : my.seq ≤ (entrySegment my.seq seq raw).1) :
    (startDrain my seq raw).AtBegin := by
  unfold startDrain
  generalize entrySegment my.seq seq raw = entry at hle
  by_cases hmem : my.seq ∈ (safeInsert my.frags entry.1 entry.2.1).1
  · left
    dsimp only
    rw [if_pos hmem]
    refine (OrdMap.begin_eq_some_iff.mpr ⟨hmem, fun key hkey => ?_⟩).symm
    rcases mem_safeInsert.mp hkey with rfl | hkey
    · exact hle
    · exact (hafter key hkey).le
  · right
    intro key hkey
    dsimp only at hkey ⊢
    rcases mem_safeInsert.mp hkey with rfl | hkey'
    · exact lt_of_le_of_ne hle (fun heq => hmem (heq ▸ hkey))
    · exact hafter key hkey'

/-- `generic_process`, on the direction `my` of the sender. (The source passes the
other direction's sequence number too, and does not use it.) -/
def genericProcess (finSent : Bool) (my : Half) (tcp : TCP) : Processed :=
  let finSent := finSent || tcp.getFlag .FIN || tcp.getFlag .RST
  match tcp.innerPdu with
  | none => ⟨my, finSent, false, []⟩
  | some raw =>
      let chunkEnd := addSequenceNumbers tcp.seq raw.payloadSize
      if compareSeqNumbers chunkEnd my.seq ≥ 0 then
        let d := drain (startDrain my tcp.seq raw)
        ⟨⟨d.mySeq, d.pload, d.frags⟩, finSent, d.addedSome, d.mem⟩
      else ⟨my, finSent, false, [.delete raw]⟩

/-- A segment goes through the drain loop when its end is not before `my_seq`, and is
dropped otherwise. -/
theorem genericProcess_cases (finSent : Bool) (my : Half) (tcp : TCP) :
    (∃ raw d, tcp.innerPdu = some raw ∧
        0 ≤ compareSeqNumbers (addSequenceNumbers tcp.seq raw.payloadSize) my.seq ∧
        d = drain (startDrain my tcp.seq raw) ∧
        (genericProcess finSent my tcp).half = ⟨d.mySeq, d.pload, d.frags⟩ ∧
        (genericProcess finSent my tcp).addedSome = d.addedSome ∧
        (genericProcess finSent my tcp).mem = d.mem) ∨
      ((∀ raw, tcp.innerPdu = some raw →
          compareSeqNumbers (addSequenceNumbers tcp.seq raw.payloadSize) my.seq < 0) ∧
        (genericProcess finSent my tcp).half = my ∧
        (genericProcess finSent my tcp).addedSome = false ∧
        (genericProcess finSent my tcp).mem = tcp.innerPdu.toList.map .delete) := by
  unfold genericProcess
  cases hraw : tcp.innerPdu with
  | none => exact Or.inr ⟨fun raw hsome => absurd hsome (by simp), rfl, rfl, rfl⟩
  | some raw =>
      dsimp only
      by_cases hge : compareSeqNumbers (addSequenceNumbers tcp.seq raw.payloadSize) my.seq ≥ 0
      · rw [if_pos hge]
        exact Or.inl ⟨raw, _, rfl, hge, rfl, rfl, rfl, rfl⟩
      · rw [if_neg hge]
        refine Or.inr ⟨fun raw' hsome => ?_, rfl, rfl, rfl⟩
        obtain rfl := Option.some.inj hsome
        exact not_le.mp hge

namespace TCPCapStream

/-- The test by which `update` and `cap` attribute a segment to the client. -/
def fromClient (s : TCPCapStream) (ip : IP) (tcp : TCP) : Bool :=
  ip.srcAddr == s.info.clientAddr && tcp.sport == s.info.clientPort

/-- `update`: the stream afterwards, whether a stored payload changed, and the
memory operations. -/
def update (s : TCPCapStream) (ip : IP) (tcp : TCP) : TCPCapStream × Bool × List MemOp :=
  if !s.synAckSent then
    if tcp.flags = synAckFlags then
      ({ s with
          server := { s.server with seq := tcp.seq + 1 }
          client := { s.client with seq := tcp.ackSeq }
          synAckSent := true }, false, [])
    else (s, false, [])
  else if s.fromClient ip tcp then
    let p := genericProcess s.finSent s.client tcp
    ({ s with client := p.half, finSent := p.finSent }, p.addedSome, p.mem)
  else
    let p := genericProcess s.finSent s.server tcp
    ({ s with server := p.half, finSent := p.finSent }, p.addedSome, p.mem)

/-- `free_fragments`. -/
def freeFragments (frags : OrdMap UInt32 RawPDU) : OrdMap UInt32 RawPDU × List MemOp :=
  (∅, frags.entries.map fun e => .delete e.2)

/-- `cap`: forget the payload and the pending fragments of the sender. -/
def cap (s : TCPCapStream) (ip : IP) (tcp : TCP) : TCPCapStream × List MemOp :=
  if s.fromClient ip tcp then
    let freed := freeFragments s.client.frags
    ({ s with client := { s.client with frags := freed.1, payload := [] } }, freed.2)
  else
    let freed := freeFragments s.server.frags
    ({ s with server := { s.server with frags := freed.1, payload := [] } }, freed.2)

end TCPCapStream

/-! ### Directions

`update` and `cap` treat the two directions alike. The lemmas below restate them
over the direction of the sender, so that what follows is said once for both. -/

/-- A direction of a connection, named after its sender. -/
inductive Side
  | client | server
  deriving Repr, DecidableEq

namespace TCPCapStream

/-- What the stream keeps for a direction. -/
def half (s : TCPCapStream) : Side → Half
  | .client => s.client
  | .server => s.server

/-- Replace what the stream keeps for a direction. -/
def setHalf (s : TCPCapStream) (side : Side) (h : Half) : TCPCapStream :=
  match side with
  | .client => { s with client := h }
  | .server => { s with server := h }

/-- The direction a segment belongs to. -/
def sideOf (s : TCPCapStream) (ip : IP) (tcp : TCP) : Side :=
  if s.fromClient ip tcp then .client else .server

section

variable (s : TCPCapStream) (side : Side) (h : Half)

@[simp] theorem half_setHalf : (s.setHalf side h).half side = h := by
  cases side <;> rfl

theorem half_setHalf_of_ne {side side' : Side} (hne : side' ≠ side) :
    (s.setHalf side h).half side' = s.half side' := by
  cases side <;> cases side' <;> first | rfl | exact absurd rfl hne

@[simp] theorem setHalf_info : (s.setHalf side h).info = s.info := by
  cases side <;> rfl

@[simp] theorem setHalf_identifier : (s.setHalf side h).identifier = s.identifier := by
  cases side <;> rfl

@[simp] theorem setHalf_synAckSent : (s.setHalf side h).synAckSent = s.synAckSent := by
  cases side <;> rfl

@[simp] theorem setHalf_finSent : (s.setHalf side h).finSent = s.finSent := by
  cases side <;> rfl

end

/-- `update` once the handshake is over. -/
theorem update_established {s : TCPCapStream} (h : s.synAckSent = true) (ip : IP) (tcp : TCP) :
    s.update ip tcp =
      let p := genericProcess s.finSent (s.half (s.sideOf ip tcp)) tcp
      ({ s.setHalf (s.sideOf ip tcp) p.half with finSent := p.finSent }, p.addedSome, p.mem) := by
  unfold update sideOf
  simp only [h, Bool.not_true, Bool.false_eq_true, if_false]
  by_cases hc : s.fromClient ip tcp = true
  · simp [hc, half, setHalf, h]
  · simp [hc, half, setHalf, h]

/-- `update` before that. -/
theorem update_opening {s : TCPCapStream} (h : s.synAckSent = false) (ip : IP) (tcp : TCP) :
    s.update ip tcp =
      (if tcp.flags = synAckFlags then
        { s with
          server := { s.server with seq := tcp.seq + 1 }
          client := { s.client with seq := tcp.ackSeq }
          synAckSent := true }
      else s, false, []) := by
  unfold update
  simp only [h, Bool.not_false, if_true]
  split <;> rfl

theorem cap_eq (s : TCPCapStream) (ip : IP) (tcp : TCP) :
    s.cap ip tcp =
      (s.setHalf (s.sideOf ip tcp) ⟨(s.half (s.sideOf ip tcp)).seq, [], ∅⟩,
        (freeFragments (s.half (s.sideOf ip tcp)).frags).2) := by
  unfold cap sideOf
  by_cases hc : s.fromClient ip tcp = true
  · simp [hc, half, setHalf, freeFragments]
  · simp [hc, half, setHalf, freeFragments]

end TCPCapStream

end CLabs.Tcp
