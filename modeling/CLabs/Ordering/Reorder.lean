import CLabs.Ordering.Experiment

/-!
# CLabs.Ordering.Reorder

What the experiment of `ordering.cpp` finds: with the fence between the store and the load of a
worker `main` never detects a reorder, however the threads are scheduled and the buffers are
flushed; without it, a reorder can be detected (`reorder_detected_iff`).

The invariant for the fenced program (`Fenced`) says where a worker's store of 1 is. Until the fence
it may be in the worker's buffer; after it, it is in the memory, and stays there until `main`
resets the variable. So of two workers that have both loaded, the one that loaded last found the
other's store.
-/

namespace CLabs.Ordering

open CLabs.Lib

/-! ### Where the stores are -/

/-- The worker has answered in this iteration. -/
def State.Done (s : State) (i : Side) : Prop := asked s.main i = 1 ∧ s.busy i = 0

/-- The worker is past its fence. -/
def State.Fenced (s : State) (i : Side) : Prop :=
  (s.worker i).pc = .loading ∨ (s.worker i).pc = .saving ∨ (s.worker i).pc = .posting ∨ s.Done i

/-- The worker has loaded `v` in this iteration. -/
def State.Seen (s : State) (i : Side) (v : ℤ) : Prop :=
  ((s.worker i).pc = .saving ∨ (s.worker i).pc = .posting) ∧ v = (s.worker i).loaded ∨
    s.Done i ∧ v = s.memory.mem i.result

theorem State.Seen.fenced {s : State} {i : Side} {v : ℤ} (h : s.Seen i v) : s.Fenced i := by
  rcases h with ⟨hpc | hpc, -⟩ | ⟨hdone, -⟩
  · exact Or.inr (Or.inl hpc)
  · exact Or.inr (Or.inr (Or.inl hpc))
  · exact Or.inr (Or.inr (Or.inr hdone))

/-- The stores of one worker. -/
structure WorkerOk (s : State) (i : Side) : Prop where
  pending : ∀ k, s.memory.Pending (.worker i) k →
    (s.worker i).pc = .fencing ∧ k = i.own ∨ (s.worker i).pc = .posting ∧ k = i.result
  stored : (s.worker i).pc = .fencing → s.memory.read (.worker i) i.own = 1
  published : s.Fenced i → s.memory.mem i.own = 1
  saved : (s.worker i).pc = .posting →
    s.memory.read (.worker i) i.result = (s.worker i).loaded

/-- A step keeps what holds of a worker, and what it has seen it saw before. -/
def Keeps (s s' : State) (i : Side) : Prop := WorkerOk s' i ∧ ∀ v, s'.Seen i v → s.Seen i v

theorem done_pc {s : State} {i : Side} (h : s.Done i) : (s.worker i).pc = .waiting := by
  have hbusy := h.2
  rw [State.busy] at hbusy
  by_contra hpc
  rw [if_neg hpc] at hbusy
  omega

section

variable {s s' : State} {i : Side}

/-- Nothing changes for a worker whose variables and buffer stay as they are. -/
theorem WorkerOk.frame (h : WorkerOk s i) (hworker : s'.worker i = s.worker i)
    (hdone : s'.Done i → s.Done i) (hbuf : s'.memory.buf (.worker i) = s.memory.buf (.worker i))
    (hmem : ∀ k, k = i.own ∨ k = i.result → s'.memory.mem k = s.memory.mem k) : Keeps s s' i := by
  have hread : ∀ k, k = i.own ∨ k = i.result →
      s'.memory.read (.worker i) k = s.memory.read (.worker i) k := by
    intro k hk
    rw [Tso.read, Tso.read, hbuf]
    exact drain_congr (hmem k hk) _
  refine ⟨⟨?_, ?_, ?_, ?_⟩, ?_⟩
  · intro k hk
    rw [hworker]
    exact h.pending k (by rwa [Tso.Pending, hbuf] at hk)
  · intro hpc
    rw [hworker] at hpc
    rw [hread _ (Or.inl rfl)]
    exact h.stored hpc
  · intro hfenced
    rw [hmem _ (Or.inl rfl)]
    refine h.published ?_
    rw [State.Fenced, hworker] at hfenced
    exact hfenced.imp id (Or.imp id (Or.imp id hdone))
  · intro hpc
    rw [hworker] at hpc ⊢
    rw [hread _ (Or.inr rfl)]
    exact h.saved hpc
  · intro v hv
    rw [State.Seen, hworker, hmem _ (Or.inr rfl)] at hv
    exact hv.imp id (And.imp hdone id)

/-- Nothing is known of a worker that has not stored yet. -/
theorem Keeps.of_early (hpc : (s'.worker i).pc.early = true) (hdone : ¬ s'.Done i)
    (hbuf : s'.memory.buf (.worker i) = []) : Keeps s s' i := by
  have hfenced : ¬ s'.Fenced i := by
    rintro (h | h | h | h)
    · simp [h, WorkerPc.early] at hpc
    · simp [h, WorkerPc.early] at hpc
    · simp [h, WorkerPc.early] at hpc
    · exact hdone h
  refine ⟨⟨fun k hk => ?_, fun h => ?_, fun h => absurd h hfenced, fun h => ?_⟩,
    fun v hv => absurd hv.fenced hfenced⟩
  · exact absurd hk (Tso.buf_eq_nil_iff.mp hbuf k)
  · simp [h, WorkerPc.early] at hpc
  · simp [h, WorkerPc.early] at hpc

theorem not_done_of_pc (hpc : (s.worker i).pc ≠ .waiting) : ¬ s.Done i :=
  fun hdone => hpc (done_pc hdone)

/-- Between the fence and the store of the result, and before the first store, the buffer is
empty. -/
theorem WorkerOk.buf_nil (h : WorkerOk s i) (hfencing : (s.worker i).pc ≠ .fencing)
    (hposting : (s.worker i).pc ≠ .posting) : s.memory.buf (.worker i) = [] := by
  refine Tso.buf_eq_nil_iff.mpr fun k hk => ?_
  rcases h.pending k hk with ⟨hpc, -⟩ | ⟨hpc, -⟩
  · exact hfencing hpc
  · exact hposting hpc

/-- The other workers do not notice when one moves. -/
theorem keeps_others {t : State} {w : Worker} (hall : ∀ j, WorkerOk s j)
    (hworker : t.worker = s.worker) (hmain : t.main = s.main)
    (hsema : ∀ j, j ≠ i → t.beginSema j = s.beginSema j) (hmem : t.memory.mem = s.memory.mem)
    (hbuf : ∀ j, j ≠ i → t.memory.buf (.worker j) = s.memory.buf (.worker j))
    (hi : Keeps s (t.setWorker i w) i) (j : Side) : Keeps s (t.setWorker i w) j := by
  by_cases hj : j = i
  · exact hj ▸ hi
  · have hsame : (t.setWorker i w).worker j = s.worker j := by
      rw [setWorker_worker_of_ne t w hj, hworker]
    refine (hall j).frame hsame ?_ (hbuf j hj) fun k _ => congrFun hmem k
    intro ⟨hasked, hbusy⟩
    refine ⟨by rwa [setWorker_main, hmain] at hasked, ?_⟩
    rwa [State.busy, hsame, setWorker_beginSema, hsema j hj] at hbusy

end

/-! ### The steps of a worker -/

section

variable {s : State} {i : Side}

theorem WorkerOk.store (h : WorkerOk s i) (hpc : (s.worker i).pc = .storing) :
    Keeps s ({ s with memory := s.memory.write (.worker i) i.own 1 }.setWorker i
      { s.worker i with pc := .fencing }) i := by
  have hbuf := h.buf_nil (by simp [hpc]) (by simp [hpc])
  refine ⟨⟨fun k hk => ?_, fun _ => ?_, fun hfenced => ?_, by simp⟩, fun v hv => ?_⟩
  · rcases Tso.pending_write.mp hk with hk | ⟨-, rfl⟩
    · exact absurd hk (Tso.buf_eq_nil_iff.mp hbuf k)
    · exact Or.inl ⟨by rw [setWorker_worker_self], rfl⟩
  · rw [setWorker_memory, Tso.read_write_self, Function.update_self]
  · have hdone := not_done_of_pc (s := State.setWorker
      { s with memory := s.memory.write (.worker i) i.own 1 } i
      { s.worker i with pc := .fencing }) (i := i) (by simp)
    simp [State.Fenced, hdone] at hfenced
  · have hdone := not_done_of_pc (s := State.setWorker
      { s with memory := s.memory.write (.worker i) i.own 1 } i
      { s.worker i with pc := .fencing }) (i := i) (by simp)
    simp [State.Seen, hdone] at hv

theorem WorkerOk.fence (h : WorkerOk s i) (hpc : (s.worker i).pc = .fencing)
    (hbuf : s.memory.buf (.worker i) = []) :
    Keeps s (s.setWorker i { s.worker i with pc := .loading }) i := by
  refine ⟨⟨fun k hk => ?_, by simp, fun _ => ?_, by simp⟩, fun v hv => ?_⟩
  · exact absurd hk (Tso.buf_eq_nil_iff.mp hbuf k)
  · -- the store has left the buffer
    rw [setWorker_memory, ← Tso.read_of_buf_nil hbuf]
    exact h.stored hpc
  · have hdone := not_done_of_pc (s := s.setWorker i { s.worker i with pc := .loading }) (i := i)
      (by simp)
    simp [State.Seen, hdone] at hv

theorem WorkerOk.load (h : WorkerOk s i) (hpc : (s.worker i).pc = .loading) (v : ℤ) :
    WorkerOk (s.setWorker i { s.worker i with loaded := v, pc := .saving }) i := by
  have hbuf := h.buf_nil (by simp [hpc]) (by simp [hpc])
  refine ⟨fun k hk => ?_, by simp, fun _ => h.published (Or.inl hpc), by simp⟩
  exact absurd hk (Tso.buf_eq_nil_iff.mp hbuf k)

theorem WorkerOk.save (h : WorkerOk s i) (hpc : (s.worker i).pc = .saving) :
    Keeps s ({ s with memory := s.memory.write (.worker i) i.result (s.worker i).loaded }.setWorker i
      { s.worker i with pc := .posting }) i := by
  have hbuf := h.buf_nil (by simp [hpc]) (by simp [hpc])
  refine ⟨⟨fun k hk => ?_, by simp, fun _ => h.published (Or.inr (Or.inl hpc)), fun _ => ?_⟩,
    fun v hv => ?_⟩
  · rcases Tso.pending_write.mp hk with hk | ⟨-, rfl⟩
    · exact absurd hk (Tso.buf_eq_nil_iff.mp hbuf k)
    · exact Or.inr ⟨by rw [setWorker_worker_self], rfl⟩
  · rw [setWorker_memory, Tso.read_write_self, Function.update_self, setWorker_worker_self]
  · rcases hv with ⟨-, hv⟩ | ⟨hdone, -⟩
    · rw [setWorker_worker_self] at hv
      exact Or.inl ⟨Or.inl hpc, hv⟩
    · exact absurd (done_pc hdone) (by simp)

theorem WorkerOk.post (h : WorkerOk s i) (hpc : (s.worker i).pc = .posting)
    (hbuf : s.memory.buf (.worker i) = []) :
    Keeps s ({ s with endSema := s.endSema + 1 }.setWorker i
      { s.worker i with pc := .waiting }) i := by
  refine ⟨⟨fun k hk => ?_, by simp, fun _ => h.published (Or.inr (Or.inr (Or.inl hpc))), by simp⟩,
    fun v hv => ?_⟩
  · exact absurd hk (Tso.buf_eq_nil_iff.mp hbuf k)
  · rcases hv with ⟨hpc', -⟩ | ⟨-, hv⟩
    · simp at hpc'
    · -- what was loaded has left the buffer
      have hsaved := h.saved hpc
      rw [Tso.read_of_buf_nil hbuf] at hsaved
      exact Or.inl ⟨Or.inr hpc, hv.trans hsaved⟩

end

/-! ### Flushes -/

section

variable {s : State} {i : Side} {m : Tso Thread Var ℤ}

/-- A flush of the worker's own buffer. -/
theorem WorkerOk.flush_self (h : WorkerOk s i) (hflush : s.memory.flush (.worker i) = some m) :
    Keeps s { s with memory := m } i := by
  refine ⟨⟨fun k hk => h.pending k (hk.of_flush hflush), fun hpc => ?_, fun hfenced => ?_,
    fun hpc => ?_⟩, fun v hv => ?_⟩
  · rw [Tso.read_flush_self hflush]
    exact h.stored hpc
  · have hfenced' : s.Fenced i := hfenced
    rw [Tso.mem_flush_of_not_pending hflush]
    · exact h.published hfenced'
    · -- past the fence only the result can be in the buffer
      intro hk
      rcases h.pending _ hk with ⟨hpc, -⟩ | ⟨-, heq⟩
      · rcases hfenced' with hpc' | hpc' | hpc' | hdone
        · simp [hpc] at hpc'
        · simp [hpc] at hpc'
        · simp [hpc] at hpc'
        · exact absurd (done_pc hdone) (by simp [hpc])
      · cases i <;> simp [Side.own, Side.result] at heq
  · rw [Tso.read_flush_self hflush]
    exact h.saved hpc
  · rcases hv with hv | ⟨hdone, hv⟩
    · exact Or.inl hv
    · have hdone' : s.Done i := hdone
      have hbuf := h.buf_nil (by simp [done_pc hdone']) (by simp [done_pc hdone'])
      rw [Tso.mem_flush_of_not_pending hflush (Tso.buf_eq_nil_iff.mp hbuf _)] at hv
      exact Or.inr ⟨hdone', hv⟩

/-- A flush of the other worker's buffer. -/
theorem WorkerOk.flush_other {j : Side} (h : WorkerOk s i) (hj : WorkerOk s j) (hne : i ≠ j)
    (hflush : s.memory.flush (.worker j) = some m) : Keeps s { s with memory := m } i := by
  refine h.frame rfl id (Tso.buf_flush_of_ne hflush (by simpa using hne)) fun k hk => ?_
  refine Tso.mem_flush_of_not_pending hflush fun hpending => ?_
  have hkj : k = j.own ∨ k = j.result := by
    rcases hj.pending k hpending with ⟨-, hk⟩ | ⟨-, hk⟩
    · exact Or.inl hk
    · exact Or.inr hk
  rcases hk with rfl | rfl <;> cases i <;> cases j <;> simp_all [Side.own, Side.result]

end

/-! ### The steps of `main` -/

section

variable {s s' : State} {i : Side}

theorem not_done_of_asked (hasked : asked s.main i = 0) : ¬ s.Done i := by
  intro hdone
  rw [hdone.1] at hasked
  exact absurd hasked (by simp)

/-- While a worker is not asked, it waits with an empty buffer, and nothing is known of it. -/
theorem Rounds.keeps_unasked (h : Rounds s') (hasked : asked s'.main i = 0) : Keeps s s' i := by
  obtain ⟨-, hpc⟩ := h.counts.idle hasked
  have hearly : (s'.worker i).pc.early = true := by
    rw [hpc]
    rfl
  exact .of_early hearly (not_done_of_asked hasked) (h.buffers.worker i hearly)

/-- Nothing is known either of the worker that `main` posts to. -/
theorem Rounds.keeps_posted (h : Rounds s) (hasked : asked s.main i = 0) {pc : MainPc} :
    Keeps s { s with
      beginSema := Function.update s.beginSema i (s.beginSema i + 1), main := pc } i := by
  obtain ⟨-, hpc⟩ := h.counts.idle hasked
  have hearly : (s.worker i).pc.early = true := by
    rw [hpc]
    rfl
  refine .of_early hearly (fun hdone => ?_) (h.buffers.worker i hearly)
  have hbusy := hdone.2
  simp [State.busy] at hbusy

/-- `main` goes on while the workers stay as they are. -/
theorem WorkerOk.main (h : WorkerOk s i) {beginSema : Side → ℕ} {endSema : ℕ} {pc : MainPc}
    (hasked : asked pc i = asked s.main i) (hsema : beginSema i = s.beginSema i) :
    Keeps s { s with beginSema := beginSema, endSema := endSema, main := pc } i := by
  refine h.frame rfl ?_ rfl fun _ _ => rfl
  intro ⟨hone, hbusy⟩
  refine ⟨hasked.symm.trans hone, ?_⟩
  rw [State.busy] at hbusy ⊢
  rwa [← hsema]

end

/-! ### The invariant -/

/-- What holds of every state of the fenced program. -/
structure Fenced (s : State) : Prop where
  rounds : Rounds s
  worker : ∀ i, WorkerOk s i
  /-- Of two workers that have loaded, one has seen the other's store. -/
  seen : ∀ v v', s.Seen .one v → s.Seen .two v' → ¬ (v = 0 ∧ v' = 0)
  checking : s.main = .checkTwo → s.memory.mem .r1 = 0
  undetected : s.detected = 0

theorem Fenced.start (random : Side → MersenneTwister) : Fenced (start random) where
  rounds := ⟨.start random, .start random⟩
  worker i := by
    refine (Keeps.of_early (s := Ordering.start random) rfl ?_ rfl).1
    exact not_done_of_asked rfl
  seen v v' h _ := by
    have hfenced := h.fenced
    rcases hfenced with h | h | h | h
    · simp [Ordering.start] at h
    · simp [Ordering.start] at h
    · simp [Ordering.start] at h
    · exact absurd h (not_done_of_asked rfl)
  checking h := by simp [Ordering.start] at h
  undetected := rfl

/-- A step that shows neither worker anything new. -/
theorem Fenced.of_keeps {s s' : State} (h : Fenced s) (hrounds : Rounds s')
    (hkeeps : ∀ i, Keeps s s' i) (hchecking : s'.main = .checkTwo → s'.memory.mem .r1 = 0)
    (hdetected : s'.detected = s.detected) : Fenced s' where
  rounds := hrounds
  worker i := (hkeeps i).1
  seen v v' hone htwo := h.seen v v' ((hkeeps .one).2 v hone) ((hkeeps .two).2 v' htwo)
  checking := hchecking
  undetected := hdetected.trans h.undetected

/-- A worker moves while `main` stays where it is. -/
theorem Fenced.of_worker {s t : State} {i : Side} {w : Worker} (h : Fenced s)
    (hrounds : Rounds (t.setWorker i w)) (hworker : t.worker = s.worker) (hmain : t.main = s.main)
    (hdetected : t.detected = s.detected)
    (hsema : ∀ j, j ≠ i → t.beginSema j = s.beginSema j) (hmem : t.memory.mem = s.memory.mem)
    (hbuf : ∀ j, j ≠ i → t.memory.buf (.worker j) = s.memory.buf (.worker j))
    (hi : Keeps s (t.setWorker i w) i) : Fenced (t.setWorker i w) := by
  refine h.of_keeps hrounds (keeps_others h.worker hworker hmain hsema hmem hbuf hi) ?_ hdetected
  intro hpc
  rw [setWorker_memory, hmem]
  exact h.checking (by rwa [setWorker_main, hmain] at hpc)

/-- A flush. -/
theorem Fenced.flush {s : State} {t : Thread} {m : Tso Thread Var ℤ} (h : Fenced s)
    (hrounds : Rounds { s with memory := m }) (hflush : s.memory.flush t = some m) :
    Fenced { s with memory := m } := by
  cases t with
  | main =>
      -- the buffer of `main` is not empty: no worker has been asked
      have hasked : ∀ i, asked s.main i = 0 := by
        have hbuf : s.memory.buf .main ≠ [] :=
          Tso.flush_isSome_iff.mp (by rw [hflush]; rfl)
        intro i
        by_cases hreset : s.main = .resetY
        · rw [hreset]
          rfl
        · by_cases hpost : s.main = .postOne
          · rw [hpost]
            rfl
          · exact absurd (h.rounds.buffers.main hreset hpost) hbuf
      refine h.of_keeps hrounds (fun i => hrounds.keeps_unasked (hasked i)) (fun hpc => ?_) rfl
      have hone := hasked .one
      rw [show s.main = .checkTwo from hpc] at hone
      exact absurd hone (by decide)
  | worker j =>
      refine h.of_keeps hrounds (fun i => ?_) (fun hpc => ?_) rfl
      · by_cases hij : i = j
        · subst hij
          exact (h.worker i).flush_self hflush
        · exact (h.worker i).flush_other (h.worker j) hij hflush
      · -- both workers have answered, and have nothing in their buffers
        have hpc' : s.main = .checkTwo := hpc
        have hbusy := h.rounds.counts.over (by rw [hpc']; rfl) j
        have hdone : s.Done j := ⟨by rw [hpc']; rfl, hbusy⟩
        have hbuf := h.rounds.buffers.worker j (by rw [done_pc hdone]; rfl)
        exact absurd hbuf (Tso.flush_isSome_iff.mp (by rw [hflush]; rfl))

/-- The load of a worker: if the other one has loaded before, it is past its fence, and its store
is seen. -/
theorem Fenced.load {s : State} {i : Side} (h : Fenced s)
    (hpc : (s.worker i).pc = .loading)
    (hrounds : Rounds (s.setWorker i
      { s.worker i with loaded := s.memory.read (.worker i) i.other.own, pc := .saving })) :
    Fenced (s.setWorker i
      { s.worker i with loaded := s.memory.read (.worker i) i.other.own, pc := .saving }) := by
  have hbuf := (h.worker i).buf_nil (by simp [hpc]) (by simp [hpc])
  have hload := (h.worker i).load hpc (s.memory.read (.worker i) i.other.own)
  have hother : ∀ j, j ≠ i → Keeps s (s.setWorker i
      { s.worker i with loaded := s.memory.read (.worker i) i.other.own, pc := .saving }) j := by
    intro j hj
    refine (h.worker j).frame (setWorker_worker_of_ne _ _ hj) ?_ rfl fun _ _ => rfl
    intro ⟨hasked, hbusy⟩
    exact ⟨hasked, by rwa [busy_setWorker_of_ne hj] at hbusy⟩
  have hself : ∀ v, State.Seen (s.setWorker i
      { s.worker i with loaded := s.memory.read (.worker i) i.other.own, pc := .saving }) i v →
      v = s.memory.mem i.other.own := by
    intro v hv
    rcases hv with ⟨-, hv⟩ | ⟨hdone, -⟩
    · rw [setWorker_worker_self] at hv
      rw [hv, Tso.read_of_buf_nil hbuf]
    · exact absurd (done_pc hdone) (by simp)
  refine ⟨hrounds, fun j => ?_, fun v v' hone htwo hzero => ?_, h.checking, h.undetected⟩
  · by_cases hj : j = i
    · exact hj ▸ hload
    · exact (hother j hj).1
  · cases i with
    | one =>
        have hstored := (h.worker .two).published ((hother .two (by decide)).2 v' htwo).fenced
        exact absurd (hzero.1.symm.trans ((hself v hone).trans hstored)) (by decide)
    | two =>
        have hstored := (h.worker .one).published ((hother .one (by decide)).2 v hone).fenced
        exact absurd (hzero.2.symm.trans ((hself v' htwo).trans hstored)) (by decide)

/-- When `main` checks, it sees what the workers have seen. -/
theorem Fenced.check {s : State} (h : Fenced s) (htaken : taken s.main = 2) (i : Side) :
    s.Seen i (s.memory.read .main i.result) := by
  have hmain : s.memory.buf .main = [] := by
    refine h.rounds.buffers.main ?_ ?_ <;> intro hpc <;> simp [hpc, taken] at htaken
  have hasked : asked s.main i = 1 := by
    cases hpc : s.main <;> simp_all [taken, asked]
  rw [Tso.read_of_buf_nil hmain]
  exact Or.inr ⟨⟨hasked, h.rounds.counts.over htaken i⟩, rfl⟩

/-- **A step of the fenced program.** -/
theorem Fenced.move {s s' : State} {a : Action} (h : Fenced s) (hmove : Move true s a s') :
    Fenced s' := by
  have hrounds : Rounds s' := ⟨h.rounds.counts.move hmove, h.rounds.buffers.move hmove⟩
  have hworker := h.worker
  cases hmove with
  | flush hflush => exact h.flush hrounds hflush
  | @wait i hpc hsema =>
      refine h.of_worker hrounds rfl rfl rfl (fun j hj => Function.update_of_ne hj _ _) rfl
        (fun _ _ => rfl) ?_
      exact .of_early (by simp [WorkerPc.early]) (not_done_of_pc (by simp))
        ((hworker i).buf_nil (by simp [hpc]) (by simp [hpc]))
  | @delay i hpc random pc hnext =>
      refine h.of_worker hrounds rfl rfl rfl (fun _ _ => rfl) rfl (fun _ _ => rfl) ?_
      refine .of_early ?_ (not_done_of_pc ?_) ((hworker i).buf_nil (by simp [hpc]) (by simp [hpc]))
      · rcases hnext with rfl | rfl <;> simp [WorkerPc.early]
      · rcases hnext with rfl | rfl <;> simp
  | @store i hpc =>
      exact h.of_worker hrounds rfl rfl rfl (fun _ _ => rfl) rfl
        (fun j hj => Tso.buf_write_of_ne (by simpa using hj)) ((hworker i).store hpc)
  | @fence i hpc hbuf =>
      exact h.of_worker hrounds rfl rfl rfl (fun _ _ => rfl) rfl (fun _ _ => rfl)
        ((hworker i).fence hpc (hbuf rfl))
  | load hpc => exact h.load hpc hrounds
  | @save i hpc =>
      exact h.of_worker hrounds rfl rfl rfl (fun _ _ => rfl) rfl
        (fun j hj => Tso.buf_write_of_ne (by simpa using hj)) ((hworker i).save hpc)
  | @post i hpc hbuf =>
      exact h.of_worker hrounds rfl rfl rfl (fun _ _ => rfl) rfl (fun _ _ => rfl)
        ((hworker i).post hpc hbuf)
  | resetX _ | resetY _ =>
      exact h.of_keeps hrounds (fun i => hrounds.keeps_unasked rfl) (by simp) rfl
  | postOne hpc _ =>
      refine h.of_keeps hrounds (fun i => ?_) (by simp) rfl
      cases i with
      | one => exact h.rounds.keeps_posted (by rw [hpc]; rfl)
      | two => exact hrounds.keeps_unasked rfl
  | postTwo hpc =>
      refine h.of_keeps hrounds (fun i => ?_) (by simp) rfl
      cases i with
      | one => exact (hworker .one).main (by rw [hpc]; rfl) (Function.update_of_ne (by decide) _ _)
      | two => exact h.rounds.keeps_posted (by rw [hpc]; rfl)
  | waitFirst hpc _ | waitSecond hpc _ =>
      refine h.of_keeps hrounds (fun i => (hworker i).main ?_ rfl) (by simp) rfl
      rw [hpc]
      rfl
  | checkOneZero hpc hzero =>
      have hbuf := h.rounds.buffers.main (by simp [hpc]) (by simp [hpc])
      rw [Tso.read_of_buf_nil hbuf] at hzero
      refine h.of_keeps hrounds (fun i => (hworker i).main ?_ rfl) (fun _ => hzero) rfl
      rw [hpc]
      rfl
  | checkOne hpc =>
      exact h.of_keeps hrounds (fun i => hrounds.keeps_unasked rfl) (by simp) rfl
  | checkTwo hpc =>
      have htaken : taken s.main = 2 := by
        rw [hpc]
        rfl
      have hbuf := h.rounds.buffers.main (by simp [hpc]) (by simp [hpc])
      have hone : s.memory.read .main .r1 = 0 := by
        rw [Tso.read_of_buf_nil hbuf]
        exact h.checking hpc
      have htwo : s.memory.read .main .r2 ≠ 0 := fun hzero =>
        h.seen _ _ (h.check htaken .one) (h.check htaken .two) ⟨hone, hzero⟩
      refine h.of_keeps hrounds (fun i => hrounds.keeps_unasked rfl) (by simp) ?_
      exact if_neg htwo

/-- However the fenced program is scheduled, it detects nothing. -/
theorem Fenced.of_run {random : Side → MersenneTwister} {actions : List Action} {s : State}
    (hrun : actions.foldlM (step true) (Ordering.start random) = some s) : Fenced s :=
  foldlM_invariant Fenced (fun _ _ _ h hstep => h.move (step_move hstep)) (.start random) hrun

/-! ### With and without the fence -/

/-- **The experiment.** However the threads are scheduled and the buffers flushed, a reorder is
detected only if there is no fence; and without it there are schedules that detect one. -/
theorem reorder_detected_iff (fence : Bool) {random : Side → MersenneTwister}
    (hends : ∀ i, DelayEnds (random i)) :
    (∃ (actions : List Action) (s : State),
      actions.foldlM (step fence) (start random) = some s ∧ s.detected ≠ 0) ↔ fence = false := by
  constructor
  · intro ⟨actions, s, hrun, hdetected⟩
    cases fence with
    | true => exact absurd (Fenced.of_run hrun).undetected hdetected
    | false => rfl
  · rintro rfl
    obtain ⟨actions, s, hrun, hdetected, -⟩ := reorder_run hends
    exact ⟨actions, s, hrun, by rw [hdetected]; decide⟩

/-- With the generators of the source. -/
theorem reorder_detected_iff_seeded :
    (∃ (actions : List Action) (s : State),
      actions.foldlM (step false) (start seeded) = some s ∧ s.detected ≠ 0) ∧
    ¬ ∃ (actions : List Action) (s : State),
      actions.foldlM (step true) (start seeded) = some s ∧ s.detected ≠ 0 :=
  ⟨(reorder_detected_iff false seeded_delayEnds).mpr rfl,
    mt (reorder_detected_iff true seeded_delayEnds).mp (by decide)⟩

end CLabs.Ordering
