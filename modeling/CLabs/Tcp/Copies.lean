import CLabs.Tcp.Follower
import CLabs.Tcp.Ownership

/-!
# CLabs.Tcp.Copies

Copying, assigning and destroying streams: the copy constructor, `operator=`, the destructor and
`clone_fragments` of `tcpcap_stream.cpp`. A session map keeps its streams by value, so that each of
them has been copied.

* Objects get their identities in the order in which they are allocated. A copy allocates one for
  each fragment; a packet brings one if it has a payload.
* A packet whose payload no stream took over deletes it itself.
* `operator=` puts the clones in the place of the pointers that the target held. It does not delete
  what they point at, and the copy constructor has nothing to delete.

`copy_behaves` is about what a copy does. `streams_own` is about who owns the objects of a program
with any number of streams, `follower_frees` about those of a follower.
-/

namespace CLabs.Tcp

open CLabs.Lib

/-! ### Copying -/

/-- A round of the loop of `clone_fragments`: the new map, and the identity of the next object. -/
def cloneEntry (st : OrdMap UInt32 RawPDU × Nat) (e : UInt32 × RawPDU) :
    OrdMap UInt32 RawPDU × Nat :=
  (st.1.emplace e.1 ⟨st.2, e.2.payload⟩, st.2 + 1)

/-- `clone_fragments`. -/
def cloneFragments (next : Nat) (frags : OrdMap UInt32 RawPDU) : OrdMap UInt32 RawPDU × Nat :=
  frags.entries.foldl cloneEntry (∅, next)

namespace TCPCapStream

/-- `operator=`, and the copy constructor: every member is taken from `rhs`, so that the stream that
is assigned to does not matter. -/
def copy (next : Nat) (rhs : TCPCapStream) : TCPCapStream × Nat :=
  let clientFrags := cloneFragments next rhs.client.frags
  let serverFrags := cloneFragments clientFrags.2 rhs.server.frags
  ({ rhs with
      client := { rhs.client with frags := clientFrags.1 }
      server := { rhs.server with frags := serverFrags.1 } }, serverFrags.2)

/-- The destructor. -/
def destructor (s : TCPCapStream) : List MemOp :=
  (freeFragments s.client.frags).2 ++ (freeFragments s.server.frags).2

end TCPCapStream

/-! ### Without identities -/

def RawPDU.forget (raw : RawPDU) : RawPDU := { raw with ident := 0 }

@[simp] theorem RawPDU.payload_forget (raw : RawPDU) : raw.forget.payload = raw.payload := rfl

@[simp] theorem RawPDU.payloadSize_forget (raw : RawPDU) :
    raw.forget.payloadSize = raw.payloadSize := rfl

/-- The clones of the entries `l`, which come after those of `m`. -/
theorem foldl_cloneEntry {l : List (UInt32 × RawPDU)} {m : OrdMap UInt32 RawPDU} (next : Nat)
    (h : ((m.entries ++ l).map Prod.fst).Pairwise (· < ·)) :
    (l.foldl cloneEntry (m, next)).1.entries.map (fun e => (e.1, e.2.forget)) =
        (m.entries ++ l).map (fun e => (e.1, e.2.forget)) ∧
      (l.foldl cloneEntry (m, next)).1.entries.map (fun e => e.2.ident) =
        m.entries.map (fun e => e.2.ident) ++ List.range' next l.length ∧
      (l.foldl cloneEntry (m, next)).2 = next + l.length := by
  induction l generalizing m next with
  | nil => simp
  | cons e l ih =>
      have hlast : ∀ e' ∈ m.entries, e'.1 < e.1 := by
        rw [List.map_append, List.pairwise_append] at h
        exact fun e' he' => h.2.2 _ (List.mem_map_of_mem he') _ (by simp)
      have hentries := OrdMap.entries_emplace_of_lt (⟨next, e.2.payload⟩ : RawPDU) hlast
      -- the keys are the same as before
      have hsorted : (((m.emplace e.1 ⟨next, e.2.payload⟩).entries ++ l).map Prod.fst).Pairwise
          (· < ·) := by
        rw [hentries]
        simpa using h
      obtain ⟨hforget, hident, hnext⟩ := ih (next + 1) hsorted
      rw [List.foldl_cons, cloneEntry]
      refine ⟨hforget.trans ?_, hident.trans ?_, hnext.trans ?_⟩
      · rw [hentries]
        simp [RawPDU.forget]
      · rw [hentries, List.length_cons, List.range'_succ]
        simp
      · rw [List.length_cons]
        omega

section

variable (next : Nat) (frags : OrdMap UInt32 RawPDU)

theorem clone_spec :
    (cloneFragments next frags).1.mapValues RawPDU.forget = frags.mapValues RawPDU.forget ∧
      idents (cloneFragments next frags).1 = (Multiset.range frags.size).map (next + ·) ∧
      (cloneFragments next frags).2 = next + frags.size := by
  obtain ⟨hforget, hident, hnext⟩ :=
    @foldl_cloneEntry frags.entries ∅ next (List.pairwise_map.mpr frags.sorted)
  refine ⟨?_, ?_, hnext⟩
  · rw [OrdMap.mk.injEq]
    exact hforget
  · rw [idents, OrdMap.values, Multiset.map_coe, List.map_map]
    refine (congrArg Multiset.ofList hident).trans ?_
    rw [List.range'_eq_map_range]
    rfl

end

/-! ### A copy behaves like the original

Nothing that the stream code does depends on the identity of an object. -/

def MemOp.forget : MemOp → MemOp
  | delete raw => .delete raw.forget
  | erase count size => .erase count size

def forgetFrags (frags : OrdMap UInt32 RawPDU) : OrdMap UInt32 RawPDU :=
  frags.mapValues RawPDU.forget

def Half.forget (my : Half) : Half := { my with frags := forgetFrags my.frags }

def TCP.forget (tcp : TCP) : TCP := { tcp with innerPdu := tcp.innerPdu.map RawPDU.forget }

def Drain.forget (d : Drain) : Drain :=
  { d with frags := forgetFrags d.frags, mem := d.mem.map MemOp.forget }

def Processed.forget (p : Processed) : Processed :=
  { p with half := p.half.forget, mem := p.mem.map MemOp.forget }

def TCPCapStream.forget (s : TCPCapStream) : TCPCapStream :=
  { s with client := s.client.forget, server := s.server.forget }

section

variable (frags : OrdMap UInt32 RawPDU) (key seq : UInt32) (raw : RawPDU) (d : Drain)

theorem find?_forgetFrags : (forgetFrags frags).find? key = (frags.find? key).map RawPDU.forget :=
  OrdMap.find?_mapValues _ _ _

theorem safeInsert_forget :
    safeInsert (forgetFrags frags) seq raw.forget =
      (forgetFrags (safeInsert frags seq raw).1, (safeInsert frags seq raw).2.map MemOp.forget) := by
  unfold safeInsert
  rw [find?_forgetFrags]
  cases frags.find? seq with
  | none => exact Prod.ext (OrdMap.mapValues_insert _ _ _ _).symm rfl
  | some stored =>
      dsimp only [Option.map_some]
      rw [RawPDU.payloadSize_forget, RawPDU.payloadSize_forget]
      by_cases hsize : stored.payloadSize > raw.payloadSize
      · rw [if_pos hsize, if_pos hsize]
        rfl
      · rw [if_neg hsize, if_neg hsize]
        exact Prod.ext (OrdMap.mapValues_insert _ _ _ _).symm rfl

theorem eraseIterator_forget :
    eraseIterator key (forgetFrags frags) =
      ((eraseIterator key frags).1, forgetFrags (eraseIterator key frags).2) := by
  unfold eraseIterator
  rw [forgetFrags, OrdMap.next_mapValues, ← OrdMap.mapValues_erase, OrdMap.begin_mapValues]
  cases frags.next key with
  | none => rfl
  | some output => rfl

theorem sliceFragment_forget :
    sliceFragment d.forget key raw.forget = (sliceFragment d key raw).forget := by
  have hinserted := safeInsert_forget d.frags d.mySeq
    (raw.erasePrefix (subtractSequenceNumbers d.mySeq key))
  have herased := eraseIterator_forget (safeInsert d.frags d.mySeq
    (raw.erasePrefix (subtractSequenceNumbers d.mySeq key))).1 key
  unfold sliceFragment Drain.forget
  dsimp only
  rw [show raw.forget.erasePrefix (subtractSequenceNumbers d.mySeq key) =
    (raw.erasePrefix (subtractSequenceNumbers d.mySeq key)).forget from rfl, hinserted]
  dsimp only
  rw [herased, List.map_append]
  rfl

theorem dropFragment_forget :
    dropFragment d.forget key raw.forget = (dropFragment d key raw).forget := by
  unfold dropFragment Drain.forget
  simp only [eraseIterator_forget, List.map_append]
  rfl

theorem takeFragment_forget :
    takeFragment d.forget key raw.forget = (takeFragment d key raw).forget := by
  unfold takeFragment Drain.forget
  simp only [eraseIterator_forget, List.map_append]
  rfl

theorem drainBody_forget : drainBody d.forget = mapStep Drain.forget (drainBody d) := by
  unfold drainBody
  cases hit : d.it with
  | none =>
      have hit' : d.forget.it = none := hit
      rw [hit']
      rfl
  | some key =>
      have hit' : d.forget.it = some key := hit
      have hfind : d.forget.frags.find? key = (d.frags.find? key).map RawPDU.forget :=
        find?_forgetFrags d.frags key
      rw [hit']
      dsimp only
      rw [hfind]
      cases d.frags.find? key with
      | none => rfl
      | some raw =>
          have hseq : d.forget.mySeq = d.mySeq := rfl
          have hempty : (takeFragment d key raw).forget.frags.isEmpty =
            (takeFragment d key raw).frags.isEmpty := OrdMap.isEmpty_mapValues _ _
          dsimp only [Option.map_some]
          rw [sliceFragment_forget, dropFragment_forget, takeFragment_forget, hseq,
            RawPDU.payloadSize_forget, hempty]
          split_ifs <;> rfl

theorem drain_forget : drain d.forget = (drain d).forget :=
  whileLoop_map drainBody_decreases drainBody_decreases Drain.forget drainBody_forget d

theorem startDrain_forget (my : Half) :
    startDrain my.forget seq raw.forget = (startDrain my seq raw).forget := by
  have hentry : entrySegment my.seq seq raw.forget =
      ((entrySegment my.seq seq raw).1, (entrySegment my.seq seq raw).2.1.forget,
        (entrySegment my.seq seq raw).2.2.map MemOp.forget) := by
    unfold entrySegment
    split_ifs <;> rfl
  have hinserted := safeInsert_forget my.frags (entrySegment my.seq seq raw).1
    (entrySegment my.seq seq raw).2.1
  unfold startDrain Drain.forget
  dsimp only [Half.forget]
  rw [hentry]
  dsimp only
  rw [hinserted, List.map_append]
  congr 1
  exact if_congr (OrdMap.mem_mapValues _ _ _) rfl rfl

theorem genericProcess_forget (finSent : Bool) (my : Half) (tcp : TCP) :
    genericProcess finSent my.forget tcp.forget = (genericProcess finSent my tcp).forget := by
  unfold genericProcess
  rw [show tcp.forget.innerPdu = tcp.innerPdu.map RawPDU.forget from rfl]
  cases tcp.innerPdu with
  | none => rfl
  | some raw =>
      have hseq : my.forget.seq = my.seq := rfl
      have hdrain : drain (startDrain my.forget tcp.forget.seq raw.forget) =
          (drain (startDrain my tcp.seq raw)).forget := by
        rw [← drain_forget, ← startDrain_forget]
        rfl
      dsimp only [Option.map_some]
      rw [hdrain, hseq, RawPDU.payloadSize_forget, show tcp.forget.seq = tcp.seq from rfl]
      split_ifs <;> rfl

end

namespace TCPCapStream

variable (s : TCPCapStream) (ip : IP) (tcp : TCP)

theorem update_forget :
    s.forget.update ip tcp.forget =
      ((s.update ip tcp).1.forget, (s.update ip tcp).2.1, (s.update ip tcp).2.2.map MemOp.forget) := by
  have hclient : genericProcess s.forget.finSent s.forget.client tcp.forget =
      (genericProcess s.finSent s.client tcp).forget := genericProcess_forget _ _ _
  have hserver : genericProcess s.forget.finSent s.forget.server tcp.forget =
      (genericProcess s.finSent s.server tcp).forget := genericProcess_forget _ _ _
  unfold update
  rw [hclient, hserver, show s.forget.synAckSent = s.synAckSent from rfl,
    show tcp.forget.flags = tcp.flags from rfl,
    show s.forget.fromClient ip tcp.forget = s.fromClient ip tcp from rfl]
  split_ifs <;> rfl

theorem cap_forget : (s.forget.cap ip tcp.forget).1 = (s.cap ip tcp).1.forget := by
  unfold cap
  rw [show s.forget.fromClient ip tcp.forget = s.fromClient ip tcp from rfl]
  split_ifs <;> rfl

theorem copy_forget (next : Nat) : (s.copy next).1.forget = s.forget := by
  unfold copy forget Half.forget forgetFrags
  dsimp only
  rw [(clone_spec _ _).1, (clone_spec _ _).1]

end TCPCapStream

/-! A caller's view of a call: the stream afterwards, and what `update` returns. -/

def Call.respond (s : TCPCapStream) : Call → TCPCapStream × List Bool
  | update ip tcp => ((s.update ip tcp).1, [(s.update ip tcp).2.1])
  | cap ip tcp => ((s.cap ip tcp).1, [])

def Call.forget : Call → Call
  | update ip tcp => .update ip tcp.forget
  | cap ip tcp => .cap ip tcp.forget

theorem Call.respond_forget (s : TCPCapStream) (call : Call) :
    call.forget.respond s.forget = ((call.respond s).1.forget, (call.respond s).2) := by
  cases call with
  | update ip tcp =>
      show ((s.forget.update ip tcp.forget).1, [(s.forget.update ip tcp.forget).2.1]) = _
      rw [s.update_forget ip tcp]
      rfl
  | cap ip tcp => exact Prod.ext (s.cap_forget ip tcp) rfl

/-- Streams and calls that differ in identities only. -/
theorem Call.respond_alike {s t : TCPCapStream} {call call' : Call} (hs : s.forget = t.forget)
    (hcall : call.forget = call'.forget) :
    (call.respond s).1.forget = (call'.respond t).1.forget ∧
      (call.respond s).2 = (call'.respond t).2 := by
  have hrespond := (call.respond_forget s).symm
  rw [hs, hcall, call'.respond_forget t] at hrespond
  exact Prod.ext_iff.mp hrespond

theorem run_alike {s t : TCPCapStream} {calls calls' : List Call} (hs : s.forget = t.forget)
    (hcalls : calls.map Call.forget = calls'.map Call.forget) :
    (run Call.respond s calls).1.forget = (run Call.respond t calls').1.forget ∧
      (run Call.respond s calls).2 = (run Call.respond t calls').2 := by
  induction calls generalizing s t calls' with
  | nil =>
      obtain rfl := List.map_eq_nil_iff.mp hcalls.symm
      exact ⟨hs, rfl⟩
  | cons call calls ih =>
      cases calls' with
      | nil => exact absurd hcalls (by simp)
      | cons call' calls' =>
          obtain ⟨hcall, hrest⟩ := List.cons.inj hcalls
          obtain ⟨hnext, hflags⟩ := Call.respond_alike hs hcall
          obtain ⟨hend, hmore⟩ := ih hnext hrest
          rw [run_cons, run_cons, hflags, hmore]
          exact ⟨hend, rfl⟩

/-- **A copy behaves like the original.** Given calls with packets of the same contents, `update`
returns the same on both, and they are in the same state at the end, but for the identity of the
fragments. -/
theorem copy_behaves (s : TCPCapStream) (next : Nat) {calls calls' : List Call}
    (hcalls : calls.map Call.forget = calls'.map Call.forget) :
    (run Call.respond (s.copy next).1 calls).1.forget = (run Call.respond s calls').1.forget ∧
      (run Call.respond (s.copy next).1 calls).2 = (run Call.respond s calls').2 :=
  run_alike (s.copy_forget next) hcalls

/-- A stream with a fragment that waits, and its copy; then comes what was missing. -/
theorem copy_behaves_gap :
    let s := (run Call.exec (.new ⟨1, 2⟩ ⟨5000, 80, 100, 0, 0x02, none⟩ 0)
      (overlappingCalls.take 2)).1
    (run Call.respond (s.copy 5).1
        [.update ⟨1, 2⟩ ⟨5000, 80, 101, 8, 0x10, some ⟨6, [1, 2]⟩⟩]).2 =
      (run Call.respond s [.update ⟨1, 2⟩ ⟨5000, 80, 101, 8, 0x10, some ⟨7, [1, 2]⟩⟩]).2 :=
  (copy_behaves _ 5 rfl).2

/-! ### Who owns the objects -/

theorem range_clone (next : Nat) (frags : OrdMap UInt32 RawPDU) :
    Multiset.range (cloneFragments next frags).2 =
      Multiset.range next + idents (cloneFragments next frags).1 := by
  rw [(clone_spec next frags).2.1, (clone_spec next frags).2.2, Multiset.range_add]

/-- A copy holds the objects that were allocated for it. -/
theorem TCPCapStream.range_copy (s : TCPCapStream) (next : Nat) :
    Multiset.range (s.copy next).2 = Multiset.range next + (s.copy next).1.held := by
  have hclient := range_clone next s.client.frags
  have hserver := range_clone (cloneFragments next s.client.frags).2 s.server.frags
  rw [hclient, add_assoc] at hserver
  exact hserver

theorem TCPCapStream.deleted_destructor (s : TCPCapStream) : deleted s.destructor = s.held := by
  rw [destructor, deleted_append, freeFragments_conserves, freeFragments_conserves]
  rfl

/-- A packet, with a new object for its payload. -/
def TCP.allocate (next : Nat) (tcp : TCP) : TCP × Nat :=
  match tcp.innerPdu with
  | none => (tcp, next)
  | some raw => ({ tcp with innerPdu := some ⟨next, raw.payload⟩ }, next + 1)

theorem TCP.range_allocate (next : Nat) (tcp : TCP) :
    Multiset.range (tcp.allocate next).2 = Multiset.range next + (tcp.allocate next).1.released := by
  unfold allocate
  cases hraw : tcp.innerPdu with
  | none =>
      dsimp only
      rw [released, hraw]
      exact (add_zero _).symm
  | some raw =>
      dsimp only
      rw [Multiset.range_succ, ← Multiset.singleton_add, add_comm]
      rfl

/-- A program with streams. -/
structure Streams where
  /-- Identity of the next object. -/
  next : Nat
  streams : List TCPCapStream
  /-- Objects that were deleted. -/
  freed : Multiset Nat
  /-- Objects that the targets of assignments held. -/
  lost : Multiset Nat

inductive StreamOp
  | create (ip : IP) (tcp : TCP) (identifier : UInt64)
  /-- `TCPCapStream(streams[i])`. -/
  | copy (i : Nat)
  /-- `streams[i] = streams[j]`. -/
  | assign (i j : Nat)
  | update (i : Nat) (ip : IP) (tcp : TCP)
  | cap (i : Nat) (ip : IP) (tcp : TCP)
  | destroy (i : Nat)
  deriving DecidableEq

namespace Streams

/-- The objects that the streams hold. -/
def held (g : Streams) : Multiset Nat := (g.streams.map TCPCapStream.held).sum

def start : Streams := ⟨0, [], 0, 0⟩

def step (g : Streams) : StreamOp → Option Streams
  | .create ip tcp identifier => some { g with streams := g.streams ++ [.new ip tcp identifier] }
  | .copy i =>
      (g.streams[i]?).map fun rhs =>
        let copied := rhs.copy g.next
        { g with next := copied.2, streams := g.streams ++ [copied.1] }
  | .assign i j =>
      (g.streams[i]?).bind fun this =>
        (g.streams[j]?).map fun rhs =>
          let copied := rhs.copy g.next
          { g with
            next := copied.2
            streams := g.streams.set i copied.1
            lost := g.lost + this.held }
  | .update i ip tcp =>
      (g.streams[i]?).map fun s =>
        let packet := tcp.allocate g.next
        let updated := (Call.update ip packet.1).exec s
        { g with
          next := packet.2
          streams := g.streams.set i updated.1
          -- before the handshake is over `update` leaves the payload to the packet
          freed := g.freed + deleted updated.2 + if s.synAckSent then 0 else packet.1.released }
  | .cap i ip tcp =>
      (g.streams[i]?).map fun s =>
        let capped := (Call.cap ip tcp).exec s
        { g with streams := g.streams.set i capped.1, freed := g.freed + deleted capped.2 }
  | .destroy i =>
      (g.streams[i]?).map fun s =>
        { g with streams := g.streams.eraseIdx i, freed := g.freed + deleted s.destructor }

/-- Each object is held by one stream, or was deleted once, or was lost. -/
def Owned (g : Streams) : Prop := g.held + g.freed + g.lost = Multiset.range g.next

variable {g g' : Streams} {op : StreamOp}

theorem held_append (l : List TCPCapStream) (s : TCPCapStream) :
    ((l ++ [s]).map TCPCapStream.held).sum = (l.map TCPCapStream.held).sum + s.held := by
  simp

theorem held_split (past rest : List TCPCapStream) (s : TCPCapStream) :
    ((past ++ s :: rest).map TCPCapStream.held).sum =
      ((past ++ rest).map TCPCapStream.held).sum + s.held := by
  simp only [List.map_append, List.map_cons, List.sum_append, List.sum_cons]
  abel

/-- One of the streams is replaced. What it held, and what is new, is in the stream that replaces it,
deleted or lost. -/
theorem Owned.set (h : g.Owned) {i : Nat} {s s' : TCPCapStream} (hs : g.streams[i]? = some s)
    {next : Nat} {new freed lost : Multiset Nat}
    (hnew : Multiset.range next = Multiset.range g.next + new)
    (hheld : s'.held + freed + lost = s.held + new) :
    Owned ⟨next, g.streams.set i s', g.freed + freed, g.lost + lost⟩ := by
  obtain ⟨past, rest, hsplit, hset, -⟩ := exists_split_getElem? hs
  unfold Owned held at h ⊢
  rw [hsplit, held_split] at h
  dsimp only
  rw [hset, held_split, hnew, ← h]
  calc ((past ++ rest).map TCPCapStream.held).sum + s'.held + (g.freed + freed) + (g.lost + lost)
      = ((past ++ rest).map TCPCapStream.held).sum + g.freed + g.lost +
          (s'.held + freed + lost) := by abel
    _ = _ := by
        rw [hheld]
        abel

theorem step_owned (h : g.Owned) (hstep : g.step op = some g') : g'.Owned := by
  cases op with
  | create ip tcp identifier =>
      obtain rfl := Option.some.inj hstep
      unfold Owned held at h ⊢
      rw [held_append, show (TCPCapStream.new ip tcp identifier).held = 0 from rfl, add_zero]
      exact h
  | copy i =>
      obtain ⟨rhs, -, rfl⟩ := Option.map_eq_some_iff.mp hstep
      unfold Owned held at h ⊢
      dsimp only
      rw [held_append, rhs.range_copy, ← h]
      abel
  | assign i j =>
      obtain ⟨this, hthis, hrhs⟩ := Option.bind_eq_some_iff.mp hstep
      obtain ⟨rhs, -, rfl⟩ := Option.map_eq_some_iff.mp hrhs
      have hset := h.set hthis (rhs.range_copy g.next)
        (show (rhs.copy g.next).1.held + 0 + this.held = _ by rw [add_zero, add_comm])
      rwa [add_zero] at hset
  | update i ip tcp =>
      obtain ⟨s, hs, rfl⟩ := Option.map_eq_some_iff.mp hstep
      have hcall := (Call.update ip (tcp.allocate g.next).1).exec_conserves s
      -- the payload goes to the stream, or stays with the packet
      have hpayload : (Call.update ip (tcp.allocate g.next).1).released s +
          (if s.synAckSent then 0 else (tcp.allocate g.next).1.released) =
            (tcp.allocate g.next).1.released := by
        rw [Call.released]
        split_ifs <;> simp
      have hset := h.set hs (tcp.range_allocate g.next)
        (show _ + (_ + _) + 0 = _ by rw [add_zero, ← add_assoc, hcall, add_assoc, hpayload])
      rwa [add_zero, ← add_assoc] at hset
  | cap i ip tcp =>
      obtain ⟨s, hs, rfl⟩ := Option.map_eq_some_iff.mp hstep
      have hcall := (Call.cap ip tcp).exec_conserves s
      have hset := h.set hs (add_zero _).symm
        (show _ + 0 = s.held + 0 by rw [hcall, add_zero, Call.released])
      rwa [add_zero] at hset
  | destroy i =>
      obtain ⟨s, hs, rfl⟩ := Option.map_eq_some_iff.mp hstep
      obtain ⟨past, rest, hsplit, -, herase⟩ := exists_split_getElem? hs
      unfold Owned held at h ⊢
      dsimp only
      rw [herase, s.deleted_destructor, ← h, hsplit, held_split]
      abel

theorem step_lost (hstep : g.step op = some g') (hop : ∀ i j, op ≠ .assign i j) :
    g'.lost = g.lost := by
  cases op with
  | create ip tcp identifier =>
      obtain rfl := Option.some.inj hstep
      rfl
  | assign i j => exact absurd rfl (hop i j)
  | copy i =>
      obtain ⟨rhs, -, rfl⟩ := Option.map_eq_some_iff.mp hstep
      rfl
  | update i ip tcp =>
      obtain ⟨s, -, rfl⟩ := Option.map_eq_some_iff.mp hstep
      rfl
  | cap i ip tcp =>
      obtain ⟨s, -, rfl⟩ := Option.map_eq_some_iff.mp hstep
      rfl
  | destroy i =>
      obtain ⟨s, -, rfl⟩ := Option.map_eq_some_iff.mp hstep
      rfl

theorem run_lost {ops : List StreamOp} (hrun : ops.foldlM step g = some g')
    (hops : ∀ i j, .assign i j ∉ ops) : g'.lost = g.lost := by
  induction ops generalizing g with
  | nil =>
      obtain rfl := Option.some.inj hrun
      rfl
  | cons op ops ih =>
      rw [List.foldlM_cons] at hrun
      obtain ⟨g₁, hstep, hrest⟩ := Option.bind_eq_some_iff.mp hrun
      rw [ih hrest fun i j hmem => hops i j (List.mem_cons_of_mem _ hmem)]
      exact step_lost hstep fun i j heq => hops i j (heq ▸ List.mem_cons_self)

end Streams

/-- **Who owns the objects.** After any sequence of copies, assignments, calls and destructions each
object that was ever allocated is held by one fragment of one stream, or was deleted, or was lost,
and that once: no two streams share an object, none is deleted twice, and none that is held was
deleted. Lost is what the target of an assignment held, also if it is assigned to itself; without
assignments nothing is. -/
theorem streams_own {ops : List StreamOp} {g : Streams}
    (hrun : ops.foldlM Streams.step Streams.start = some g) :
    g.held + g.freed + g.lost = Multiset.range g.next ∧
      ((∀ i j, .assign i j ∉ ops) → g.lost = 0) := by
  have hstart : Streams.start.Owned := rfl
  have howned := foldlM_invariant Streams.Owned (fun _ _ _ hg => Streams.step_owned hg) hstart hrun
  exact ⟨howned, Streams.run_lost hrun⟩

/-- A stream with a fragment that waits is copied, and the copy is assigned to it; then both are
destroyed. -/
theorem streams_own_assigned : ∃ g : Streams,
    [StreamOp.create ⟨1, 2⟩ ⟨5000, 80, 100, 0, 0x02, none⟩ 0,
        .update 0 ⟨2, 1⟩ ⟨80, 5000, 7, 101, 0x12, none⟩,
        .update 0 ⟨1, 2⟩ ⟨5000, 80, 103, 8, 0x10, some ⟨0, [3, 4]⟩⟩,
        .copy 0, .assign 0 1, .destroy 1, .destroy 0].foldlM Streams.step Streams.start = some g ∧
      g.held = 0 ∧ g.freed = {1, 2} ∧ g.lost = {0} ∧
      g.held + g.freed + g.lost = Multiset.range 3 :=
  ⟨_, rfl, rfl, by decide, by decide, (@streams_own
    [.create ⟨1, 2⟩ ⟨5000, 80, 100, 0, 0x02, none⟩ 0,
      .update 0 ⟨2, 1⟩ ⟨80, 5000, 7, 101, 0x12, none⟩,
      .update 0 ⟨1, 2⟩ ⟨5000, 80, 103, 8, 0x10, some ⟨0, [3, 4]⟩⟩,
      .copy 0, .assign 0 1, .destroy 1, .destroy 0] _ rfl).1⟩

/-! ### The objects of a follower

The map of sessions destroys a stream that is erased, and all of them at the end. -/

/-- The memory operations of `callback` on the stream it found. -/
def TCPCapStream.receiveMem (s : TCPCapStream) (ip : IP) (tcp : TCP) : List MemOp :=
  let updated := s.update ip tcp
  let capped := if updated.2.1 then updated.1.cap ip tcp else (updated.1, [])
  updated.2.2 ++ capped.2 ++ if capped.1.isFinished then capped.1.destructor else []

namespace Follower

/-- The memory operations of `callback`. -/
def memOps (f : Follower) (pdu : PDU) : List MemOp :=
  match pdu.ip, pdu.tcp with
  | some ip, some tcp =>
      ((f.lookup (packetInfo ip tcp)).map fun found => found.2.receiveMem ip tcp).getD []
  | _, _ => []

/-- The object that a stream takes over from a packet. -/
def takes (f : Follower) (pdu : PDU) : Multiset Nat :=
  match pdu.ip, pdu.tcp with
  | some ip, some tcp =>
      ((f.lookup (packetInfo ip tcp)).map fun found => (Call.update ip tcp).released found.2).getD 0
  | _, _ => 0

/-- `~TCPCapStreamFollower`. -/
def destructor (f : Follower) : List MemOp := f.sessions.entries.flatMap fun e => e.2.destructor

/-- `follow_streams`, and then the end of the follower. -/
def memory : Follower → List PDU → List MemOp
  | f, [] => f.destructor
  | f, pdu :: pdus => f.memOps pdu ++ memory (f.step pdu).1 pdus

/-- The objects taken over in a run. -/
def taken : Follower → List PDU → Multiset Nat
  | _, [] => 0
  | f, pdu :: pdus => f.takes pdu + taken (f.step pdu).1 pdus

def held (f : Follower) : Multiset Nat := (f.sessions.values.map TCPCapStream.held).sum

theorem deleted_destructor (f : Follower) : deleted f.destructor = f.held := by
  unfold destructor held OrdMap.values
  induction f.sessions.entries with
  | nil => rfl
  | cons e entries ih =>
      rw [List.flatMap_cons, deleted_append, ih, e.2.deleted_destructor]
      simp

end Follower

/-- What a stream holds in the table after a packet: a finished one is destroyed. -/
theorem TCPCapStream.receive_conserves (s : TCPCapStream) (ip : IP) (tcp : TCP) :
    (if (s.receive ip tcp).1.finSent then 0 else (s.receive ip tcp).1.held) +
        deleted (s.receiveMem ip tcp) = s.held + (Call.update ip tcp).released s := by
  have hupdate : (s.update ip tcp).1.held + deleted (s.update ip tcp).2.2 =
    s.held + (Call.update ip tcp).released s := (Call.update ip tcp).exec_conserves s
  obtain ⟨capped, hcapped, hheld⟩ : ∃ capped : TCPCapStream × List MemOp,
      (if (s.update ip tcp).2.1 then (s.update ip tcp).1.cap ip tcp
        else ((s.update ip tcp).1, [])) = capped ∧
        capped.1.held + deleted capped.2 = (s.update ip tcp).1.held := by
    refine ⟨_, rfl, ?_⟩
    split_ifs
    · exact ((Call.cap ip tcp).exec_conserves (s.update ip tcp).1).trans (add_zero _)
    · exact add_zero _
  have hreceive : (s.receive ip tcp).1 = capped.1 := by
    rw [← hcapped, apply_ite Prod.fst]
    rfl
  rw [hreceive, receiveMem, hcapped, ← hupdate, ← hheld, isFinished]
  simp only [deleted_append]
  by_cases hfin : capped.1.finSent = true
  · rw [if_pos hfin, if_pos hfin, deleted_destructor]
    abel
  · rw [if_neg hfin, if_neg hfin, deleted_nil]
    abel

namespace Follower

theorem held_of_find? {f : Follower} {key : StreamInfo} {s : TCPCapStream}
    (h : f.sessions.find? key = some s) :
    f.held = s.held + ((f.sessions.erase key).values.map TCPCapStream.held).sum := by
  rw [held, OrdMap.values_of_find? h, Multiset.map_cons, Multiset.sum_cons]

theorem held_store (f : Follower) (key : StreamInfo) (s : TCPCapStream) :
    (f.store key s).held =
      (if s.finSent then 0 else s.held) +
        ((f.sessions.erase key).values.map TCPCapStream.held).sum := by
  unfold store held
  by_cases hfin : s.finSent = true
  · rw [if_pos hfin, if_pos hfin, zero_add]
  · rw [if_neg hfin, if_neg hfin, OrdMap.values_insert, Multiset.map_cons, Multiset.sum_cons]

theorem step_conserves (f : Follower) (pdu : PDU) :
    (f.step pdu).1.held + deleted (f.memOps pdu) = f.held + f.takes pdu := by
  obtain ⟨_ | ip, _ | tcp⟩ := pdu
  · rfl
  · rfl
  · rfl
  · rw [f.step_eq ip tcp, memOps, takes]
    dsimp only
    cases hlookup : f.lookup (packetInfo ip tcp) with
    | some found =>
        obtain ⟨key, s⟩ := found
        have hreceive := s.receive_conserves ip tcp
        dsimp only [Option.map_some, Option.getD_some]
        rw [held_store, held_of_find? (lookup_eq_some hlookup).1, add_right_comm, hreceive,
          add_right_comm]
    | none =>
        have hnone := (lookup_eq_none.mp hlookup).2
        dsimp only [Option.map_none, Option.getD_none]
        split_ifs
        · rw [deleted_nil]
          unfold held
          dsimp only
          rw [OrdMap.values_insert, OrdMap.erase_of_find?_eq_none hnone, Multiset.map_cons,
            Multiset.sum_cons]
          exact congrArg (· + 0) (zero_add _)
        · rfl

theorem memory_conserves (f : Follower) (pdus : List PDU) :
    deleted (f.memory pdus) = f.held + f.taken pdus := by
  induction pdus generalizing f with
  | nil => exact f.deleted_destructor.trans (add_zero _).symm
  | cons pdu pdus ih =>
      rw [memory, taken, deleted_append, ih, ← add_assoc, add_comm (deleted _), f.step_conserves,
        add_assoc]

end Follower

/-- **A follower leaks nothing.** Whatever packets it is given, when it is gone the objects that were
deleted are those that its streams took over, each as often as it was taken over, and so once if
every packet brings an object of its own. -/
theorem follower_frees (pdus : List PDU) :
    deleted (Follower.init.memory pdus) = Follower.init.taken pdus :=
  (Follower.init.memory_conserves pdus).trans (zero_add _)

end CLabs.Tcp
