import CLabs.Tcp.EraseBounds

/-!
# CLabs.Tcp.Ownership

**Who owns the payload objects.** `update` takes the `RawPDU` out of the packet with
`release_inner_pdu`, so from there on the stream has to delete it, once. In between it may
only be held by an entry of a fragment map.

The argument is a conservation law. Every function of the stream turns the objects it
holds and the one it was handed into objects held and objects deleted, as an equation of
multisets of identities (`Call.exec_conserves`). Over a run that starts without
fragments, what was released is then what is held together with what has been deleted
(`run_conserves`), and if no two packets carried the same object, each of them is on
exactly one of the two sides (`objects_owned_once`).
-/

namespace CLabs.Tcp

open CLabs.Lib

/-! ### Identities -/

/-- The objects held by a fragment map. -/
def idents (frags : OrdMap UInt32 RawPDU) : Multiset Nat := frags.values.map RawPDU.ident

/-- The object an operation deletes. -/
def MemOp.deletes : MemOp → Option Nat
  | delete raw => some raw.ident
  | erase _ _ => none

/-- The objects deleted, each as often as it was. -/
def deleted (mem : List MemOp) : Multiset Nat := mem.filterMap MemOp.deletes

@[simp] theorem deleted_nil : deleted [] = 0 := rfl

@[simp] theorem deleted_delete (raw : RawPDU) (mem : List MemOp) :
    deleted (.delete raw :: mem) = raw.ident ::ₘ deleted mem := rfl

@[simp] theorem deleted_erase (count size : Nat) (mem : List MemOp) :
    deleted (.erase count size :: mem) = deleted mem := rfl

@[simp] theorem deleted_append (mem mem' : List MemOp) :
    deleted (mem ++ mem') = deleted mem + deleted mem' := by
  rw [deleted, List.filterMap_append]
  rfl

@[simp] theorem idents_empty : idents ∅ = 0 := rfl

/-- Erasing an entry lets go of its object. -/
theorem idents_of_find? {frags : OrdMap UInt32 RawPDU} {key : UInt32} {raw : RawPDU}
    (h : frags.find? key = some raw) : idents frags = raw.ident ::ₘ idents (frags.erase key) := by
  rw [idents, OrdMap.values_of_find? h, Multiset.map_cons]
  rfl

theorem idents_insert (frags : OrdMap UInt32 RawPDU) (key : UInt32) (raw : RawPDU) :
    idents (frags.insert key raw) = raw.ident ::ₘ idents (frags.erase key) := by
  rw [idents, OrdMap.values_insert, Multiset.map_cons]
  rfl

/-! ### Functions that pass objects on -/

/-- `safe_insert` keeps one of the two objects at the position and deletes the other. -/
theorem safeInsert_conserves (frags : OrdMap UInt32 RawPDU) (seq : UInt32) (raw : RawPDU) :
    idents (safeInsert frags seq raw).1 + deleted (safeInsert frags seq raw).2 =
      raw.ident ::ₘ idents frags := by
  unfold safeInsert
  cases hstored : frags.find? seq with
  | none =>
      show idents (frags.insert seq raw) + 0 = _
      rw [add_zero, idents_insert, OrdMap.erase_of_find?_eq_none hstored]
  | some stored =>
      dsimp only
      split_ifs
      · show idents frags + raw.ident ::ₘ 0 = _
        rw [add_comm]
        rfl
      · show idents (frags.insert seq raw) + stored.ident ::ₘ 0 = _
        rw [idents_insert, idents_of_find? hstored, Multiset.cons_add, add_comm]
        rfl

/-- What the drain loop holds, and what it and the steps before it have deleted. -/
def Drain.owned (d : Drain) : Multiset Nat := idents d.frags + deleted d.mem

theorem sliceFragment_owned {d : Drain} {key : UInt32} {raw : RawPDU} (hne : key ≠ d.mySeq)
    (h : d.frags.find? key = some raw) : (sliceFragment d key raw).owned = d.owned := by
  -- the sliced object is at `my_seq`, or has been deleted there; its old entry goes
  have hinserted := safeInsert_conserves d.frags d.mySeq
    (raw.erasePrefix (subtractSequenceNumbers d.mySeq key))
  have herased : (safeInsert d.frags d.mySeq
      (raw.erasePrefix (subtractSequenceNumbers d.mySeq key))).1.find? key = some raw := by
    rw [find?_safeInsert, if_neg hne, h]
  rw [idents_of_find? herased, Multiset.cons_add] at hinserted
  have hheld := (Multiset.cons_inj_right _).mp hinserted
  unfold Drain.owned
  simp only [sliceFragment, eraseIterator_snd, deleted_append, deleted_erase]
  rw [← hheld]
  abel

theorem dropFragment_owned {d : Drain} {key : UInt32} {raw : RawPDU}
    (h : d.frags.find? key = some raw) : (dropFragment d key raw).owned = d.owned := by
  unfold Drain.owned
  simp only [dropFragment, eraseIterator_snd, deleted_append, deleted_delete, deleted_nil]
  rw [idents_of_find? h, Multiset.cons_zero, ← Multiset.singleton_add]
  abel

theorem takeFragment_owned {d : Drain} {key : UInt32} {raw : RawPDU}
    (h : d.frags.find? key = some raw) : (takeFragment d key raw).owned = d.owned :=
  dropFragment_owned h

theorem drain_owned (d : Drain) : (drain d).owned = d.owned := by
  refine drain_rule (fun d' => d'.owned = d.owned) ?_ ?_ ?_ rfl
  · intro d₁ key raw howned hraw hlt _
    refine (sliceFragment_owned (fun heq => ?_) hraw).trans howned
    rw [heq, compareSeqNumbers_self] at hlt
    exact absurd hlt (lt_irrefl _)
  · exact fun d₁ key raw howned hraw => (dropFragment_owned hraw).trans howned
  · exact fun d₁ raw howned hraw => (takeFragment_owned hraw).trans howned

/-- The object a segment hands over. -/
def TCP.released (tcp : TCP) : Multiset Nat := tcp.innerPdu.toList.map RawPDU.ident

theorem startDrain_owned (my : Half) (seq : UInt32) (raw : RawPDU) :
    (startDrain my seq raw).owned = raw.ident ::ₘ idents my.frags := by
  have hident : (entrySegment my.seq seq raw).2.1.ident = raw.ident := by
    unfold entrySegment
    split_ifs <;> rfl
  have hentry : deleted (entrySegment my.seq seq raw).2.2 = 0 := by
    unfold entrySegment
    split_ifs <;> rfl
  unfold Drain.owned
  simp only [startDrain, deleted_append]
  rw [hentry, zero_add, safeInsert_conserves, hident]

theorem genericProcess_conserves (finSent : Bool) (my : Half) (tcp : TCP) :
    idents (genericProcess finSent my tcp).half.frags +
        deleted (genericProcess finSent my tcp).mem = idents my.frags + tcp.released := by
  rcases genericProcess_cases finSent my tcp with
    ⟨raw, d, hraw, -, rfl, hhalf, -, hmem⟩ | ⟨-, hhalf, -, hmem⟩
  · rw [hhalf, hmem, TCP.released, hraw]
    have howned := (drain_owned (startDrain my tcp.seq raw)).trans (startDrain_owned _ _ _)
    exact howned.trans (Multiset.singleton_add _ _ ▸ add_comm _ _)
  · rw [hhalf, hmem, TCP.released]
    cases tcp.innerPdu <;> rfl

theorem freeFragments_conserves (frags : OrdMap UInt32 RawPDU) :
    deleted (TCPCapStream.freeFragments frags).2 = idents frags := by
  simp [TCPCapStream.freeFragments, deleted, idents, OrdMap.values, List.filterMap_map,
    MemOp.deletes, Function.comp_def]

/-! ### Calls -/

/-- The objects held by the two fragment maps of a stream. -/
def TCPCapStream.held (s : TCPCapStream) : Multiset Nat :=
  idents s.client.frags + idents s.server.frags

/-- What a stream holds, by the direction that a call changes. -/
theorem TCPCapStream.held_setHalf (s : TCPCapStream) (side : Side) (h : Half) :
    ∃ other, s.held = idents (s.half side).frags + other ∧
      (s.setHalf side h).held = idents h.frags + other := by
  cases side with
  | client => exact ⟨_, rfl, rfl⟩
  | server => exact ⟨_, add_comm _ _, add_comm _ _⟩

/-- The object a call takes over: that of the segment, once the stream is
established. Before that `update` does not look at the payload. -/
def Call.released (s : TCPCapStream) : Call → Multiset Nat
  | update _ tcp => if s.synAckSent then tcp.released else 0
  | cap _ _ => 0

/-- **One call**, on any stream. -/
theorem Call.exec_conserves (s : TCPCapStream) (call : Call) :
    (call.exec s).1.held + deleted (call.exec s).2 = s.held + call.released s := by
  cases call with
  | update ip tcp =>
      show (s.update ip tcp).1.held + deleted (s.update ip tcp).2.2 = _
      cases hack : s.synAckSent with
      | false =>
          rw [TCPCapStream.update_opening hack, released, hack, if_neg Bool.false_ne_true]
          dsimp only
          split_ifs <;> rfl
      | true =>
          rw [TCPCapStream.update_established hack, released, hack, if_pos rfl]
          obtain ⟨other, hbefore, hafter⟩ := s.held_setHalf (s.sideOf ip tcp)
            (genericProcess s.finSent (s.half (s.sideOf ip tcp)) tcp).half
          have hprocess := genericProcess_conserves s.finSent (s.half (s.sideOf ip tcp)) tcp
          show (s.setHalf _ _).held + _ = _
          rw [hafter, hbefore, add_right_comm, hprocess, add_right_comm]
  | cap ip tcp =>
      show (s.cap ip tcp).1.held + deleted (s.cap ip tcp).2 = s.held + 0
      rw [TCPCapStream.cap_eq, freeFragments_conserves]
      obtain ⟨other, hbefore, hafter⟩ := s.held_setHalf (s.sideOf ip tcp)
        ⟨(s.half (s.sideOf ip tcp)).seq, [], ∅⟩
      rw [hafter, hbefore, idents_empty, zero_add, add_zero, add_comm]

/-- The objects taken over in a run. -/
def released : TCPCapStream → List Call → Multiset Nat
  | _, [] => 0
  | s, call :: calls => call.released s + released (call.exec s).1 calls

/-- **A run**, from any stream. -/
theorem run_conserves (s : TCPCapStream) (calls : List Call) :
    (run Call.exec s calls).1.held + deleted (run Call.exec s calls).2 =
      s.held + released s calls := by
  induction calls generalizing s with
  | nil => rfl
  | cons call calls ih =>
      have hcall := call.exec_conserves s
      rw [run_cons, released, deleted_append, add_left_comm, ih, ← add_assoc s.held, ← hcall]
      abel

/-- What ownership asks: the objects held are distinct and alive, and each object taken
over is either held by one entry and never deleted, or held by none and deleted
once. -/
structure OwnedOnce (released held deleted : Multiset Nat) : Prop where
  distinct : held.Nodup
  alive : ∀ ident ∈ held, ident ∉ deleted
  once : ∀ ident ∈ released,
    (held.count ident = 1 ∧ deleted.count ident = 0) ∨
      (held.count ident = 0 ∧ deleted.count ident = 1)

/-- **Every object is owned once.** The stream starts without fragments, whatever its
sequence numbers; the calls are any that do not hand over one object twice. -/
theorem objects_owned_once (s : TCPCapStream) (calls : List Call) (hempty : s.held = 0)
    (hdistinct : (released s calls).Nodup) :
    OwnedOnce (released s calls) (run Call.exec s calls).1.held
      (deleted (run Call.exec s calls).2) := by
  have hconserves := run_conserves s calls
  rw [hempty, zero_add] at hconserves
  rw [← hconserves] at hdistinct ⊢
  obtain ⟨hheld, -, hdisjoint⟩ := Multiset.nodup_add.mp hdistinct
  refine ⟨hheld, fun ident => Multiset.disjoint_left.mp hdisjoint, fun ident hmem => ?_⟩
  have hcount := Multiset.count_eq_one_of_mem hdistinct hmem
  rw [Multiset.count_add] at hcount
  omega

/-- A handshake, and client segments that are kept, replaced by a larger one at the same
position, sliced in the drain loop, and left waiting; then the server's fragment is
freed. -/
def overlappingCalls : List Call :=
  [.update ⟨2, 1⟩ ⟨80, 5000, 7, 101, 0x12, none⟩,
    .update ⟨1, 2⟩ ⟨5000, 80, 103, 8, 0x10, some ⟨1, [3, 4]⟩⟩,
    .update ⟨1, 2⟩ ⟨5000, 80, 103, 8, 0x10, some ⟨2, [3, 4, 5]⟩⟩,
    .update ⟨1, 2⟩ ⟨5000, 80, 120, 8, 0x10, some ⟨3, [20]⟩⟩,
    .update ⟨1, 2⟩ ⟨5000, 80, 101, 8, 0x10, some ⟨4, [1, 2, 3, 4]⟩⟩,
    .update ⟨2, 1⟩ ⟨80, 5000, 10, 101, 0x10, some ⟨5, [9]⟩⟩,
    .cap ⟨2, 1⟩ ⟨80, 5000, 10, 101, 0x10, none⟩]

theorem objects_owned_once_overlapping :
    OwnedOnce
      (released (.new ⟨1, 2⟩ ⟨5000, 80, 100, 0, 0x02, none⟩ 0) overlappingCalls)
      (run Call.exec (.new ⟨1, 2⟩ ⟨5000, 80, 100, 0, 0x02, none⟩ 0) overlappingCalls).1.held
      (deleted
        (run Call.exec (.new ⟨1, 2⟩ ⟨5000, 80, 100, 0, 0x02, none⟩ 0) overlappingCalls).2) :=
  objects_owned_once _ _ rfl (by decide)

end CLabs.Tcp
