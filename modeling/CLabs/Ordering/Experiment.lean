import CLabs.Lib.Run
import CLabs.Lib.StoreBuffer
import CLabs.Ordering.Seeds

/-!
# CLabs.Ordering.Experiment

The threads of `ordering.cpp`. In every iteration `main` clears `X` and `Y` and lets two workers
go; each sets its own variable and then loads the other's. `main` counts the iterations in which
both loaded 0, which no order of the four accesses explains.

* The program is about an x86, so the memory is one with store buffers (`CLabs.Lib.Tso`). Stores of
  all three threads are buffered, and a buffer is flushed one store at a time, at any moment.
* `sem_wait` and `sem_post` are locked instructions: they go through only when the thread's own
  buffer is empty. So does `mfence`, which is in the program if `USE_CPU_FENCE` is 1.
* `r1 = Y` is a load and a store.
* The counters of `main` do not wrap around.

A scheduler picks any thread, or any buffer to flush, at every step. This module has the model,
what holds of the semaphores along every run (`Rounds`), and that no run gets stuck
(`run_keeps_going`).
-/

namespace CLabs.Ordering

open CLabs.Lib

/-! ### The threads -/

/-- The shared variables. -/
inductive Var
  | X | Y | r1 | r2
  deriving Repr, DecidableEq

/-- The two workers: `thread1Func` and `thread2Func`. -/
inductive Side
  | one | two
  deriving Repr, DecidableEq

/-- The threads. -/
inductive Thread
  | main
  | worker (i : Side)
  deriving Repr, DecidableEq

def Side.other : Side → Side
  | one => two
  | two => one

/-- The variable that a worker sets. -/
def Side.own : Side → Var
  | one => .X
  | two => .Y

/-- The variable in which a worker leaves what it loaded. -/
def Side.result : Side → Var
  | one => .r1
  | two => .r2

/-- Where a worker is in its loop: before `sem_wait`, in the random delay, before the store of 1,
before the fence, before the load, before the store of the loaded value, before `sem_post`. -/
inductive WorkerPc
  | waiting | delaying | storing | fencing | loading | saving | posting
  deriving Repr, DecidableEq

/-- A worker. -/
structure Worker where
  pc : WorkerPc
  random : MersenneTwister
  /-- The register between the load and the store of `r1 = Y`. -/
  loaded : ℤ

/-- Where `main` is in its loop. -/
inductive MainPc
  | resetX | resetY | postOne | postTwo | waitFirst | waitSecond | checkOne | checkTwo
  deriving Repr, DecidableEq

/-- The whole program. -/
@[ext] structure State where
  memory : Tso Thread Var ℤ
  beginSema : Side → ℕ
  endSema : ℕ
  worker : Side → Worker
  main : MainPc
  detected : ℕ
  iterations : ℕ

/-- The state in which `main` enters its loop, with the workers' generators. -/
def start (random : Side → MersenneTwister) : State where
  memory := ⟨fun _ => 0, fun _ => []⟩
  beginSema := fun _ => 0
  endSema := 0
  worker i := ⟨.waiting, random i, 0⟩
  main := .resetX
  detected := 0
  iterations := 1

/-- The generators of the source: seeded with 1 and with 2. -/
def seeded : Side → MersenneTwister
  | .one => .new 1
  | .two => .new 2

def State.setWorker (s : State) (i : Side) (w : Worker) : State :=
  { s with worker := Function.update s.worker i w }

section

variable (s : State) (i : Side) (w : Worker)

@[simp] theorem setWorker_memory : (s.setWorker i w).memory = s.memory := rfl
@[simp] theorem setWorker_beginSema : (s.setWorker i w).beginSema = s.beginSema := rfl
@[simp] theorem setWorker_endSema : (s.setWorker i w).endSema = s.endSema := rfl
@[simp] theorem setWorker_main : (s.setWorker i w).main = s.main := rfl
@[simp] theorem setWorker_detected : (s.setWorker i w).detected = s.detected := rfl
@[simp] theorem setWorker_iterations : (s.setWorker i w).iterations = s.iterations := rfl

@[simp] theorem setWorker_worker_self : (s.setWorker i w).worker i = w := by
  simp [State.setWorker]

variable {i} in
theorem setWorker_worker_of_ne {j : Side} (h : j ≠ i) : (s.setWorker i w).worker j = s.worker j := by
  simp [State.setWorker, h]

end

/-- The buffer of the thread is empty. -/
def State.drained (s : State) (t : Thread) : Bool := (s.memory.buf t).isEmpty

/-- The next step of a worker; `none` if it has to wait. -/
def workerStep (fence : Bool) (s : State) (i : Side) : Option State :=
  let w := s.worker i
  match w.pc with
  | .waiting =>
      if 0 < s.beginSema i ∧ s.drained (.worker i) then
        some ({ s with beginSema := Function.update s.beginSema i (s.beginSema i - 1) }.setWorker i
          { w with pc := .delaying })
      else none
  | .delaying =>
      let (r, random) := w.random.integer
      -- `while (random.integer() % 8 != 0) {}`
      some (s.setWorker i
        { w with random := random, pc := if r % 8 ≠ 0 then .delaying else .storing })
  | .storing =>
      some ({ s with memory := s.memory.write (.worker i) i.own 1 }.setWorker i
        { w with pc := .fencing })
  | .fencing =>
      if fence && !s.drained (.worker i) then none
      else some (s.setWorker i { w with pc := .loading })
  | .loading =>
      some (s.setWorker i
        { w with loaded := s.memory.read (.worker i) i.other.own, pc := .saving })
  | .saving =>
      some ({ s with memory := s.memory.write (.worker i) i.result w.loaded }.setWorker i
        { w with pc := .posting })
  | .posting =>
      if s.drained (.worker i) then
        some ({ s with endSema := s.endSema + 1 }.setWorker i { w with pc := .waiting })
      else none

/-- The next step of `main`. -/
def mainStep (s : State) : Option State :=
  match s.main with
  | .resetX => some { s with memory := s.memory.write .main .X 0, main := .resetY }
  | .resetY => some { s with memory := s.memory.write .main .Y 0, main := .postOne }
  | .postOne =>
      if s.drained .main then
        some { s with
          beginSema := Function.update s.beginSema .one (s.beginSema .one + 1), main := .postTwo }
      else none
  | .postTwo =>
      if s.drained .main then
        some { s with
          beginSema := Function.update s.beginSema .two (s.beginSema .two + 1), main := .waitFirst }
      else none
  | .waitFirst =>
      if 0 < s.endSema ∧ s.drained .main then
        some { s with endSema := s.endSema - 1, main := .waitSecond }
      else none
  | .waitSecond =>
      if 0 < s.endSema ∧ s.drained .main then
        some { s with endSema := s.endSema - 1, main := .checkOne }
      else none
  | .checkOne =>
      if s.memory.read .main .r1 = 0 then some { s with main := .checkTwo }
      else some { s with iterations := s.iterations + 1, main := .resetX }
  | .checkTwo =>
      some { s with
        detected := if s.memory.read .main .r2 = 0 then s.detected + 1 else s.detected
        iterations := s.iterations + 1
        main := .resetX }

/-- What a scheduler can pick. -/
inductive Action
  | main
  | worker (i : Side)
  | flush (t : Thread)
  deriving Repr, DecidableEq

/-- One step of the program. -/
def step (fence : Bool) (s : State) : Action → Option State
  | .main => mainStep s
  | .worker i => workerStep fence s i
  | .flush t => (s.memory.flush t).map fun memory => { s with memory := memory }

/-! ### What a step can do -/

theorem drained_iff {s : State} {t : Thread} : s.drained t = true ↔ s.memory.buf t = [] :=
  List.isEmpty_iff

/-- The steps, with what must hold before each. -/
inductive Move (fence : Bool) (s : State) : Action → State → Prop
  | flush {t : Thread} {m : Tso Thread Var ℤ} (h : s.memory.flush t = some m) :
      Move fence s (.flush t) { s with memory := m }
  | wait {i : Side} (hpc : (s.worker i).pc = .waiting) (hsema : 0 < s.beginSema i) :
      Move fence s (.worker i)
        ({ s with beginSema := Function.update s.beginSema i (s.beginSema i - 1) }.setWorker i
          { s.worker i with pc := .delaying })
  | delay {i : Side} (hpc : (s.worker i).pc = .delaying) (random : MersenneTwister)
      {pc : WorkerPc} (hnext : pc = .delaying ∨ pc = .storing) :
      Move fence s (.worker i) (s.setWorker i { s.worker i with random := random, pc := pc })
  | store {i : Side} (hpc : (s.worker i).pc = .storing) :
      Move fence s (.worker i)
        ({ s with memory := s.memory.write (.worker i) i.own 1 }.setWorker i
          { s.worker i with pc := .fencing })
  | fence {i : Side} (hpc : (s.worker i).pc = .fencing)
      (hbuf : fence = true → s.memory.buf (.worker i) = []) :
      Move fence s (.worker i) (s.setWorker i { s.worker i with pc := .loading })
  | load {i : Side} (hpc : (s.worker i).pc = .loading) :
      Move fence s (.worker i)
        (s.setWorker i
          { s.worker i with loaded := s.memory.read (.worker i) i.other.own, pc := .saving })
  | save {i : Side} (hpc : (s.worker i).pc = .saving) :
      Move fence s (.worker i)
        ({ s with memory := s.memory.write (.worker i) i.result (s.worker i).loaded }.setWorker i
          { s.worker i with pc := .posting })
  | post {i : Side} (hpc : (s.worker i).pc = .posting) (hbuf : s.memory.buf (.worker i) = []) :
      Move fence s (.worker i)
        ({ s with endSema := s.endSema + 1 }.setWorker i { s.worker i with pc := .waiting })
  | resetX (hpc : s.main = .resetX) :
      Move fence s .main { s with memory := s.memory.write .main .X 0, main := .resetY }
  | resetY (hpc : s.main = .resetY) :
      Move fence s .main { s with memory := s.memory.write .main .Y 0, main := .postOne }
  | postOne (hpc : s.main = .postOne) (hbuf : s.memory.buf .main = []) :
      Move fence s .main
        { s with
          beginSema := Function.update s.beginSema .one (s.beginSema .one + 1), main := .postTwo }
  | postTwo (hpc : s.main = .postTwo) :
      Move fence s .main
        { s with
          beginSema := Function.update s.beginSema .two (s.beginSema .two + 1), main := .waitFirst }
  | waitFirst (hpc : s.main = .waitFirst) (hsema : 0 < s.endSema) :
      Move fence s .main { s with endSema := s.endSema - 1, main := .waitSecond }
  | waitSecond (hpc : s.main = .waitSecond) (hsema : 0 < s.endSema) :
      Move fence s .main { s with endSema := s.endSema - 1, main := .checkOne }
  | checkOneZero (hpc : s.main = .checkOne) (hzero : s.memory.read .main .r1 = 0) :
      Move fence s .main { s with main := .checkTwo }
  | checkOne (hpc : s.main = .checkOne) :
      Move fence s .main { s with iterations := s.iterations + 1, main := .resetX }
  | checkTwo (hpc : s.main = .checkTwo) :
      Move fence s .main
        { s with
          detected := if s.memory.read .main .r2 = 0 then s.detected + 1 else s.detected
          iterations := s.iterations + 1
          main := .resetX }

theorem workerStep_move {fence : Bool} {s s' : State} {i : Side}
    (h : workerStep fence s i = some s') : Move fence s (.worker i) s' := by
  unfold workerStep at h
  dsimp only at h
  split at h
  next hpc =>
    split at h
    next hguard => exact Option.some.inj h ▸ .wait hpc hguard.1
    next => exact absurd h (by simp)
  next hpc =>
    refine Option.some.inj h ▸ .delay hpc _ ?_
    split
    · exact Or.inl rfl
    · exact Or.inr rfl
  next hpc => exact Option.some.inj h ▸ .store hpc
  next hpc =>
    split at h
    next => exact absurd h (by simp)
    next hguard =>
      refine Option.some.inj h ▸ .fence hpc fun hfence => ?_
      rw [hfence, Bool.true_and, Bool.not_eq_true', Bool.not_eq_false] at hguard
      exact drained_iff.mp hguard
  next hpc => exact Option.some.inj h ▸ .load hpc
  next hpc => exact Option.some.inj h ▸ .save hpc
  next hpc =>
    split at h
    next hguard => exact Option.some.inj h ▸ .post hpc (drained_iff.mp hguard)
    next => exact absurd h (by simp)

theorem mainStep_move {fence : Bool} {s s' : State} (h : mainStep s = some s') :
    Move fence s .main s' := by
  unfold mainStep at h
  split at h
  next hpc => exact Option.some.inj h ▸ .resetX hpc
  next hpc => exact Option.some.inj h ▸ .resetY hpc
  next hpc =>
    split at h
    next hguard => exact Option.some.inj h ▸ .postOne hpc (drained_iff.mp hguard)
    next => exact absurd h (by simp)
  next hpc =>
    split at h
    next => exact Option.some.inj h ▸ .postTwo hpc
    next => exact absurd h (by simp)
  next hpc =>
    split at h
    next hguard => exact Option.some.inj h ▸ .waitFirst hpc hguard.1
    next => exact absurd h (by simp)
  next hpc =>
    split at h
    next hguard => exact Option.some.inj h ▸ .waitSecond hpc hguard.1
    next => exact absurd h (by simp)
  next hpc =>
    split at h
    next hzero => exact Option.some.inj h ▸ .checkOneZero hpc hzero
    next => exact Option.some.inj h ▸ .checkOne hpc
  next hpc => exact Option.some.inj h ▸ .checkTwo hpc

/-- **What a step can do.** -/
theorem step_move {fence : Bool} {s s' : State} {a : Action} (h : step fence s a = some s') :
    Move fence s a s' := by
  cases a with
  | main => exact mainStep_move h
  | worker i => exact workerStep_move h
  | flush t =>
      obtain ⟨m, hm, rfl⟩ := Option.map_eq_some_iff.mp h
      exact .flush hm

/-! ### Rounds -/

/-- How often `main` has posted to a worker in this iteration. -/
def asked : MainPc → Side → ℕ
  | .resetX, _ | .resetY, _ | .postOne, _ => 0
  | .postTwo, .one => 1
  | .postTwo, .two => 0
  | .waitFirst, _ | .waitSecond, _ | .checkOne, _ | .checkTwo, _ => 1

/-- How many answers `main` has taken. -/
def taken : MainPc → ℕ
  | .waitSecond => 1
  | .checkOne | .checkTwo => 2
  | _ => 0

/-- 1 from the post to a worker to its own post. -/
def State.busy (s : State) (i : Side) : ℕ :=
  s.beginSema i + if (s.worker i).pc = .waiting then 0 else 1

section

variable {s : State} {i : Side} {w : Worker}

theorem busy_eq_of_not_waiting (h : (s.worker i).pc ≠ .waiting) : s.busy i = s.beginSema i + 1 := by
  rw [State.busy, if_neg h]

theorem busy_setWorker_of_ne {j : Side} (h : j ≠ i) : (s.setWorker i w).busy j = s.busy j := by
  rw [State.busy, setWorker_worker_of_ne s w h, setWorker_beginSema]
  rfl

/-- A worker that takes what `main` posted is as busy as before. -/
theorem busy_wait (hpc : (s.worker i).pc = .waiting) (hsema : 0 < s.beginSema i)
    (hw : w.pc ≠ .waiting) (j : Side) :
    ({ s with beginSema := Function.update s.beginSema i (s.beginSema i - 1) }.setWorker i w).busy j =
      s.busy j := by
  by_cases hj : j = i
  · subst hj
    rw [busy_eq_of_not_waiting (by rwa [setWorker_worker_self]), State.busy, if_pos hpc,
      setWorker_beginSema]
    dsimp only
    rw [Function.update_self]
    omega
  · rw [busy_setWorker_of_ne hj]
    simp [State.busy, hj]

/-- A worker that goes on inside its loop stays busy. -/
theorem busy_setWorker (hpc : (s.worker i).pc ≠ .waiting) (hw : w.pc ≠ .waiting) (j : Side) :
    (s.setWorker i w).busy j = s.busy j := by
  by_cases hj : j = i
  · subst hj
    rw [busy_eq_of_not_waiting hpc, busy_eq_of_not_waiting (by rwa [setWorker_worker_self]),
      setWorker_beginSema]
  · exact busy_setWorker_of_ne hj

end

/-- The semaphores and the places of the threads agree. -/
structure Counts (s : State) : Prop where
  busy_le : ∀ i, s.busy i ≤ asked s.main i
  sum : s.busy .one + s.busy .two + s.endSema + taken s.main =
    asked s.main .one + asked s.main .two

theorem Counts.congr {s s' : State} (h : Counts s) (hbusy : ∀ i, s'.busy i = s.busy i)
    (hend : s'.endSema = s.endSema) (hmain : s'.main = s.main) : Counts s' where
  busy_le i := by rw [hbusy, hmain]; exact h.busy_le i
  sum := by rw [hbusy, hbusy, hend, hmain]; exact h.sum

/-- While `main` has asked nobody, nobody is busy. -/
theorem Counts.idle {s : State} (h : Counts s) {i : Side} (hasked : asked s.main i = 0) :
    s.beginSema i = 0 ∧ (s.worker i).pc = .waiting := by
  have hle := h.busy_le i
  rw [hasked, State.busy] at hle
  by_cases hpc : (s.worker i).pc = .waiting
  · exact ⟨by omega, hpc⟩
  · rw [if_neg hpc] at hle
    omega

theorem Counts.start (random : Side → MersenneTwister) : Counts (start random) where
  busy_le i := by simp [State.busy, Ordering.start]
  sum := by simp [State.busy, Ordering.start, taken, asked]

/-- Which worker `main` posts to, and when. -/
theorem Counts.posted {s : State} (h : Counts s) {i : Side} {pc : MainPc}
    (hpc : asked s.main i = 0) (hasked : ∀ j, asked pc j = asked s.main j + if j = i then 1 else 0)
    (htaken : taken pc = taken s.main) :
    Counts { s with beginSema := Function.update s.beginSema i (s.beginSema i + 1), main := pc } := by
  have hbusy : ∀ j, State.busy
      { s with beginSema := Function.update s.beginSema i (s.beginSema i + 1), main := pc } j =
        s.busy j + if j = i then 1 else 0 := by
    intro j
    by_cases hj : j = i
    · subst hj
      simp only [State.busy, Function.update_self, if_true]
      omega
    · simp [State.busy, hj]
  constructor
  · intro j
    rw [hbusy, hasked]
    exact Nat.add_le_add_right (h.busy_le j) _
  · have hsum := h.sum
    rw [hbusy, hbusy, hasked, hasked, htaken]
    dsimp only
    omega

/-- A step of `main` that leaves the workers alone. -/
theorem Counts.of_main {s : State} {memory : Tso Thread Var ℤ} {endSema detected iterations : ℕ}
    {pc : MainPc} (hle : ∀ i, s.busy i ≤ asked pc i)
    (hsum : s.busy .one + s.busy .two + endSema + taken pc = asked pc .one + asked pc .two) :
    Counts { s with memory := memory, endSema := endSema, main := pc, detected := detected,
                    iterations := iterations } :=
  ⟨hle, hsum⟩

/-- When `main` has taken both answers, the round is over. -/
theorem Counts.over {s : State} (h : Counts s) (htaken : taken s.main = 2) (i : Side) :
    s.busy i = 0 := by
  have hsum := h.sum
  have hasked : asked s.main .one ≤ 1 ∧ asked s.main .two ≤ 1 := by
    cases s.main <;> decide
  cases i <;> omega

/-- A worker is no longer busy, and has told `main` so. -/
theorem Counts.answered {s s' : State} (h : Counts s) (i : Side) (hself : s'.busy i + 1 = s.busy i)
    (hothers : ∀ j, j ≠ i → s'.busy j = s.busy j) (hend : s'.endSema = s.endSema + 1)
    (hmain : s'.main = s.main) : Counts s' := by
  have hle := h.busy_le
  have hsum := h.sum
  constructor
  · intro j
    rw [hmain]
    by_cases hj : j = i
    · subst hj
      exact (Nat.le_succ _).trans (hself.trans_le (hle j))
    · rw [hothers j hj]
      exact hle j
  · rw [hend, hmain]
    cases i with
    | one =>
        rw [hothers .two (by decide)]
        omega
    | two =>
        rw [hothers .one (by decide)]
        omega

/-- **The semaphores along a step.** -/
theorem Counts.move {fence : Bool} {s s' : State} {a : Action} (h : Counts s)
    (hmove : Move fence s a s') : Counts s' := by
  have hle := h.busy_le
  have hsum := h.sum
  cases hmove with
  | flush _ => exact h.congr (fun _ => rfl) rfl rfl
  | wait hpc hsema => exact h.congr (busy_wait hpc hsema (by simp)) rfl rfl
  | delay hpc random hnext =>
      refine h.congr (busy_setWorker (by simp [hpc]) ?_) rfl rfl
      rcases hnext with rfl | rfl <;> simp
  | store hpc => exact h.congr (busy_setWorker (by simp [hpc]) (by simp)) rfl rfl
  | fence hpc _ => exact h.congr (busy_setWorker (by simp [hpc]) (by simp)) rfl rfl
  | load hpc => exact h.congr (busy_setWorker (by simp [hpc]) (by simp)) rfl rfl
  | save hpc => exact h.congr (busy_setWorker (by simp [hpc]) (by simp)) rfl rfl
  | @post i hpc _ =>
      refine h.answered i ?_ (fun j hj => busy_setWorker_of_ne hj) rfl rfl
      simp [State.busy, hpc]
  | resetX hpc | resetY hpc =>
      rw [hpc] at hle hsum
      exact .of_main hle hsum
  | postOne hpc _ =>
      exact h.posted (by rw [hpc]; rfl) (fun j => by rw [hpc]; cases j <;> rfl) (by rw [hpc]; rfl)
  | postTwo hpc =>
      exact h.posted (by rw [hpc]; rfl) (fun j => by rw [hpc]; cases j <;> rfl) (by rw [hpc]; rfl)
  | waitFirst hpc hsema | waitSecond hpc hsema =>
      rw [hpc] at hle hsum
      simp only [taken, asked] at hsum
      exact .of_main hle (by simp only [taken, asked]; omega)
  | checkOneZero hpc _ =>
      rw [hpc] at hle hsum
      exact .of_main hle hsum
  | checkOne hpc | checkTwo hpc =>
      have hover := h.over (by rw [hpc]; rfl)
      rw [hpc, hover, hover] at hsum
      refine .of_main (fun i => (hover i).trans_le (Nat.zero_le _)) ?_
      rw [hover, hover]
      simp only [taken, asked] at hsum ⊢
      omega

/-- The places of a worker before its first store. -/
def WorkerPc.early : WorkerPc → Bool
  | .waiting | .delaying | .storing => true
  | _ => false

/-- Where the buffers are empty. -/
structure Buffers (s : State) : Prop where
  main : s.main ≠ .resetY → s.main ≠ .postOne → s.memory.buf .main = []
  worker : ∀ i, (s.worker i).pc.early = true → s.memory.buf (.worker i) = []

theorem Buffers.start (random : Side → MersenneTwister) : Buffers (start random) :=
  ⟨fun _ _ => rfl, fun _ _ => rfl⟩

/-- A worker that moves on without a store, to a place where its buffer is as it has to be. -/
theorem Buffers.setWorker {s : State} (h : Buffers s) {i : Side} {w : Worker}
    (hw : w.pc.early = true → s.memory.buf (.worker i) = []) : Buffers (s.setWorker i w) := by
  refine ⟨h.main, fun j hj => ?_⟩
  by_cases hji : j = i
  · subst hji
    rw [setWorker_worker_self] at hj
    exact hw hj
  · rw [setWorker_worker_of_ne s w hji] at hj
    exact h.worker j hj

/-- A worker that stores something. -/
theorem Buffers.stores {s : State} (h : Buffers s) {i : Side} {w : Worker} {k : Var} {v : ℤ}
    (hw : w.pc.early = false) :
    Buffers ({ s with memory := s.memory.write (.worker i) k v }.setWorker i w) := by
  constructor
  · intro hresetY hpostOne
    rw [setWorker_memory, Tso.buf_write_of_ne (by simp)]
    exact h.main hresetY hpostOne
  · intro j hj
    by_cases hji : j = i
    · subst hji
      rw [setWorker_worker_self, hw] at hj
      exact absurd hj (by simp)
    · rw [setWorker_worker_of_ne _ _ hji] at hj
      rw [setWorker_memory, Tso.buf_write_of_ne (by simpa using hji)]
      exact h.worker j hj

theorem Buffers.move {fence : Bool} {s s' : State} {a : Action} (h : Buffers s)
    (hmove : Move fence s a s') : Buffers s' := by
  cases hmove with
  | flush hm =>
      exact ⟨fun hresetY hpostOne => Tso.buf_flush_of_nil hm (h.main hresetY hpostOne),
        fun i hi => Tso.buf_flush_of_nil hm (h.worker i hi)⟩
  | @wait i hpc _ =>
      have h' : Buffers
          { s with beginSema := Function.update s.beginSema i (s.beginSema i - 1) } :=
        ⟨h.main, h.worker⟩
      exact h'.setWorker fun _ => h.worker i (by rw [hpc]; rfl)
  | delay hpc _ _ => exact h.setWorker fun _ => h.worker _ (by rw [hpc]; rfl)
  | store _ => exact h.stores rfl
  | fence _ _ => exact h.setWorker (by simp [WorkerPc.early])
  | load _ => exact h.setWorker (by simp [WorkerPc.early])
  | save _ => exact h.stores rfl
  | post _ hbuf =>
      have h' : Buffers { s with endSema := s.endSema + 1 } := ⟨h.main, h.worker⟩
      exact h'.setWorker fun _ => hbuf
  | resetX hpc | resetY hpc =>
      refine ⟨by simp, fun i hi => ?_⟩
      dsimp only
      rw [Tso.buf_write_of_ne (by simp)]
      exact h.worker i hi
  | postOne _ hbuf => exact ⟨fun _ _ => hbuf, h.worker⟩
  | postTwo hpc | waitFirst hpc _ | waitSecond hpc _ | checkOneZero hpc _ | checkOne hpc
  | checkTwo hpc =>
      exact ⟨fun _ _ => h.main (by simp [hpc]) (by simp [hpc]), h.worker⟩

/-- What holds of every state of a run. -/
structure Rounds (s : State) : Prop where
  counts : Counts s
  buffers : Buffers s

theorem rounds_of_run {fence : Bool} {random : Side → MersenneTwister} {actions : List Action}
    {s : State} (hrun : actions.foldlM (step fence) (start random) = some s) : Rounds s := by
  refine foldlM_invariant Rounds (fun s a s' h hstep => ?_) ⟨.start random, .start random⟩ hrun
  have hmove := step_move hstep
  exact ⟨h.counts.move hmove, h.buffers.move hmove⟩

/-! ### No run gets stuck -/

/-- A worker that is busy can go on, or its buffer can be flushed. -/
theorem worker_enabled {s : State} (fence : Bool) {i : Side}
    (hbusy : s.busy i ≠ 0) : ∃ a, (step fence s a).isSome := by
  by_cases hbuf : s.memory.buf (.worker i) = []
  · refine ⟨.worker i, ?_⟩
    have hdrained := drained_iff.mpr hbuf
    simp only [step, workerStep]
    split
    next hpc =>
      have hsema : 0 < s.beginSema i := by
        rw [State.busy, if_pos hpc] at hbusy
        omega
      simp [hsema, hdrained]
    all_goals simp [hdrained]
  · refine ⟨.flush (.worker i), ?_⟩
    simpa [step] using Tso.flush_isSome_iff.mpr hbuf

theorem Rounds.enabled {s : State} (h : Rounds s) (fence : Bool) :
    ∃ a, (step fence s a).isSome := by
  by_cases hbuf : s.memory.buf .main = []
  · have hdrained := drained_iff.mpr hbuf
    by_cases hmain : (mainStep s).isSome
    · exact ⟨.main, hmain⟩
    · -- `main` waits for an answer that has not come: somebody is busy
      have hwaits : s.endSema = 0 ∧ taken s.main < asked s.main .one + asked s.main .two := by
        unfold mainStep at hmain
        split at hmain <;> simp_all [taken, asked]
        split at hmain <;> simp at hmain
      have hsum := h.counts.sum
      by_cases hone : s.busy .one = 0
      · exact worker_enabled fence (i := .two) (by omega)
      · exact worker_enabled fence hone
  · refine ⟨.flush .main, ?_⟩
    simpa [step] using Tso.flush_isSome_iff.mpr hbuf

/-! ### Every step but a delay takes the iteration on -/

/-- The stores that are still in the buffers. -/
def State.buffered (s : State) : ℕ :=
  (s.memory.buf .main).length + (s.memory.buf (.worker .one)).length +
    (s.memory.buf (.worker .two)).length

/-- How far `main` is in its iteration. A store counts twice, once for its flush. -/
def MainPc.weight : MainPc → ℕ
  | .resetX => 0
  | .resetY => 2
  | .postOne => 4
  | .postTwo => 5
  | .waitFirst => 6
  | .waitSecond => 7
  | .checkOne => 8
  | .checkTwo => 9

def WorkerPc.weight : WorkerPc → ℕ
  | .waiting => 0
  | .delaying => 1
  | .storing => 2
  | .fencing => 4
  | .loading => 5
  | .saving => 6
  | .posting => 8

/-- How far a worker is in the iteration: not asked yet, busy, or done. -/
def State.weight (s : State) (i : Side) : ℕ :=
  if s.busy i = 0 then 9 * asked s.main i else (s.worker i).pc.weight

/-- All that was done up to now. -/
def State.achieved (s : State) : ℕ :=
  28 * s.iterations + s.main.weight + s.weight .one + s.weight .two

/-- The action is a round of a random delay. -/
def State.delays (s : State) : Action → Bool
  | .worker i => (s.worker i).pc = .delaying
  | _ => false

theorem buffered_write (s : State) (t : Thread) (k : Var) (v : ℤ) :
    State.buffered { s with memory := s.memory.write t k v } = s.buffered + 1 := by
  rcases t with _ | (_ | _) <;>
    simp [State.buffered, Tso.buf_write_self, Tso.buf_write_of_ne] <;> omega

theorem buffered_flush {s : State} {t : Thread} {m : Tso Thread Var ℤ}
    (h : s.memory.flush t = some m) : State.buffered { s with memory := m } + 1 = s.buffered := by
  have hlength := Tso.length_buf_flush h
  have hothers : ∀ t', t' ≠ t → m.buf t' = s.memory.buf t' := fun t' => Tso.buf_flush_of_ne h
  simp only [State.buffered]
  rcases t with _ | (_ | _)
  · rw [hothers (.worker .one) (by simp), hothers (.worker .two) (by simp)]
    omega
  · rw [hothers .main (by simp), hothers (.worker .two) (by simp)]
    omega
  · rw [hothers .main (by simp), hothers (.worker .one) (by simp)]
    omega

theorem weight_of_busy {s : State} {i : Side} (h : s.busy i ≠ 0) :
    s.weight i = (s.worker i).pc.weight := by
  rw [State.weight, if_neg h]

theorem weight_congr {s s' : State} {i : Side} (hbusy : s'.busy i = s.busy i)
    (hasked : asked s'.main i = asked s.main i) (hworker : s'.worker i = s.worker i) :
    s'.weight i = s.weight i := by
  rw [State.weight, State.weight, hbusy, hasked, hworker]

/-- A busy worker goes on. -/
theorem achieved_of_busy {s s' : State} {i : Side} (hbusy : ∀ j, s'.busy j = s.busy j)
    (hi : s.busy i ≠ 0) (hothers : ∀ j, j ≠ i → s'.worker j = s.worker j) (hmain : s'.main = s.main)
    (hiterations : s'.iterations = s.iterations) :
    s'.achieved + (s.worker i).pc.weight = s.achieved + (s'.worker i).pc.weight := by
  have hbefore : s.weight i = (s.worker i).pc.weight := weight_of_busy hi
  have hafter : s'.weight i = (s'.worker i).pc.weight := weight_of_busy (by rwa [hbusy])
  have hsame : ∀ j, j ≠ i → s'.weight j = s.weight j := fun j hj =>
    weight_congr (hbusy j) (by rw [hmain]) (hothers j hj)
  simp only [State.achieved, hmain, hiterations]
  cases i with
  | one =>
      rw [hsame .two (by decide)]
      omega
  | two =>
      rw [hsame .one (by decide)]
      omega

/-- More was done, or the same with fewer stores left to flush. -/
def Advances (s s' : State) : Prop := s.achieved + s'.buffered < s'.achieved + s.buffered

section

variable {s s' : State} {i : Side} {pc : WorkerPc}

/-- A worker goes on inside its loop. -/
theorem achieved_setWorker (w : Worker) (hpc : (s.worker i).pc = pc) (hbefore : pc ≠ .waiting)
    (hafter : w.pc ≠ .waiting) :
    (s.setWorker i w).achieved + pc.weight = s.achieved + w.pc.weight := by
  subst hpc
  have hbusy : s.busy i ≠ 0 := by
    rw [busy_eq_of_not_waiting hbefore]
    omega
  have h := achieved_of_busy (busy_setWorker hbefore hafter) hbusy
    (fun j => setWorker_worker_of_ne s w) rfl rfl
  rwa [setWorker_worker_self] at h

/-- It goes on without a store. -/
theorem advances_setWorker (w : Worker) (hpc : (s.worker i).pc = pc) (hbefore : pc ≠ .waiting)
    (hafter : w.pc ≠ .waiting) (hweight : pc.weight < w.pc.weight) :
    Advances s (s.setWorker i w) := by
  have hachieved := achieved_setWorker w hpc hbefore hafter
  have hbuffered : (s.setWorker i w).buffered = s.buffered := rfl
  rw [Advances, hbuffered]
  omega

/-- It goes on with a store. -/
theorem advances_store (k : Var) (v : ℤ) (w : Worker) (hpc : (s.worker i).pc = pc)
    (hbefore : pc ≠ .waiting) (hafter : w.pc ≠ .waiting) (hweight : pc.weight + 1 < w.pc.weight) :
    Advances s ({ s with memory := s.memory.write (.worker i) k v }.setWorker i w) := by
  have hachieved := achieved_setWorker (s := { s with memory := s.memory.write (.worker i) k v }) w
    hpc hbefore hafter
  have hmemory : State.achieved { s with memory := s.memory.write (.worker i) k v } =
    s.achieved := rfl
  have hbuffered : State.buffered
      ({ s with memory := s.memory.write (.worker i) k v }.setWorker i w) = s.buffered + 1 :=
    buffered_write s (.worker i) k v
  rw [Advances, hbuffered]
  omega

/-- It takes what `main` posted. -/
theorem advances_wait (hpc : (s.worker i).pc = .waiting) (hsema : 0 < s.beginSema i) :
    Advances s
      ({ s with beginSema := Function.update s.beginSema i (s.beginSema i - 1) }.setWorker i
        { s.worker i with pc := .delaying }) := by
  have hachieved := achieved_of_busy
    (busy_wait hpc hsema (w := { s.worker i with pc := .delaying }) (by simp))
    (by rw [State.busy]; omega) (fun j => setWorker_worker_of_ne _ _) rfl rfl
  rw [setWorker_worker_self, hpc] at hachieved
  change _ + 0 = s.achieved + 1 at hachieved
  exact Nat.add_lt_add_right (by omega) s.buffered

/-- It is done. -/
theorem Counts.advances_post (h : Counts s) (hpc : (s.worker i).pc = .posting) :
    Advances s ({ s with endSema := s.endSema + 1 }.setWorker i
      { s.worker i with pc := .waiting }) := by
  have hbusy := busy_eq_of_not_waiting (s := s) (i := i) (by simp [hpc])
  have hbefore : s.weight i = 8 := by
    rw [weight_of_busy (by omega), hpc]
    rfl
  have hafter : State.weight ({ s with endSema := s.endSema + 1 }.setWorker i
      { s.worker i with pc := .waiting }) i = 9 := by
    have hle := h.busy_le i
    have hone : asked s.main i ≤ 1 := by
      cases s.main <;> cases i <;> decide
    simp only [State.weight, State.busy, setWorker_worker_self, setWorker_beginSema, setWorker_main]
    rw [if_pos (by simp; omega)]
    omega
  have hsame : ∀ j, j ≠ i → State.weight ({ s with endSema := s.endSema + 1 }.setWorker i
      { s.worker i with pc := .waiting }) j = s.weight j := fun j hj =>
    weight_congr (busy_setWorker_of_ne hj) rfl (setWorker_worker_of_ne _ _ hj)
  refine Nat.add_lt_add_right ?_ s.buffered
  simp only [State.achieved, setWorker_main, setWorker_iterations]
  cases i with
  | one =>
      rw [hafter, hsame .two (by decide)]
      omega
  | two =>
      rw [hafter, hsame .one (by decide)]
      omega

/-- `main` goes on and leaves the workers where they are. -/
theorem achieved_of_main (hbusy : ∀ i, s'.busy i = s.busy i) (hworker : s'.worker = s.worker)
    (hasked : ∀ i, asked s'.main i = asked s.main i) (hiterations : s'.iterations = s.iterations) :
    s'.achieved + s.main.weight = s.achieved + s'.main.weight := by
  have hsame : ∀ i, s'.weight i = s.weight i := fun i =>
    weight_congr (hbusy i) (hasked i) (by rw [hworker])
  simp only [State.achieved, hsame, hiterations]
  omega

theorem advances_main {pc : MainPc} {endSema : ℕ} (hasked : ∀ i, asked pc i = asked s.main i)
    (hweight : s.main.weight < pc.weight) :
    Advances s { s with endSema := endSema, main := pc } := by
  have hachieved := @achieved_of_main s { s with endSema := endSema, main := pc } (fun _ => rfl)
    rfl hasked rfl
  change _ = s.achieved + pc.weight at hachieved
  exact Nat.add_lt_add_right (by omega) s.buffered

theorem advances_reset {pc : MainPc} {k : Var} (hasked : ∀ i, asked pc i = asked s.main i)
    (hweight : s.main.weight + 1 < pc.weight) :
    Advances s { s with memory := s.memory.write .main k 0, main := pc } := by
  have hachieved := @achieved_of_main s
    { s with memory := s.memory.write .main k 0, main := pc } (fun _ => rfl) rfl hasked rfl
  have hbuffered : State.buffered { s with memory := s.memory.write .main k 0, main := pc } =
    s.buffered + 1 := buffered_write s .main k 0
  change _ = s.achieved + pc.weight at hachieved
  rw [Advances, hbuffered]
  omega

/-- `main` posts to a worker that is not busy. -/
theorem Counts.advances_posted {pc : MainPc} (h : Counts s) (hasked : asked s.main i = 0)
    (hothers : ∀ j, j ≠ i → asked pc j = asked s.main j) (hpc : s.main.weight < pc.weight) :
    Advances s
      { s with beginSema := Function.update s.beginSema i (s.beginSema i + 1), main := pc } := by
  obtain ⟨hsema, hwaiting⟩ := h.idle hasked
  have hbefore : s.weight i = 0 := by
    rw [State.weight, State.busy, hsema, if_pos hwaiting, hasked]
    rfl
  have hafter : State.weight
      { s with beginSema := Function.update s.beginSema i (s.beginSema i + 1), main := pc } i =
        0 := by
    rw [weight_of_busy (by simp [State.busy])]
    dsimp only
    rw [hwaiting]
    rfl
  have hsame : ∀ j, j ≠ i → State.weight
      { s with beginSema := Function.update s.beginSema i (s.beginSema i + 1), main := pc } j =
        s.weight j := fun j hj =>
    weight_congr (by simp [State.busy, hj]) (hothers j hj) rfl
  refine Nat.add_lt_add_right ?_ s.buffered
  simp only [State.achieved]
  cases i with
  | one =>
      rw [hafter, hsame .two (by decide)]
      omega
  | two =>
      rw [hafter, hsame .one (by decide)]
      omega

/-- At the end of an iteration both workers are done. -/
theorem Counts.weight_over (h : Counts s) (htaken : taken s.main = 2) (i : Side) :
    s.weight i = 9 := by
  have hasked : asked s.main i = 1 := by
    cases hmain : s.main <;> simp_all [taken, asked]
  rw [State.weight, if_pos (h.over htaken i), hasked]

/-- The next iteration begins. -/
theorem Counts.achieved_next (h : Counts s) (htaken : taken s.main = 2)
    (hbusy : ∀ i, s'.busy i = s.busy i) (hmain : s'.main = .resetX)
    (hiterations : s'.iterations = s.iterations + 1) : s.achieved < s'.achieved := by
  have hzero : ∀ i, s'.weight i = 0 := by
    intro i
    rw [State.weight, hbusy, if_pos (h.over htaken i), hmain]
    rfl
  have hbefore : s.main.weight ≤ 9 := by
    cases s.main <;> decide
  have hafter : s'.main.weight = 0 := by
    rw [hmain]
    rfl
  simp only [State.achieved, h.weight_over htaken, hzero, hafter, hiterations]
  omega

end

/-- **Every step but a round of a delay takes the iteration on.** -/
theorem Counts.advances {fence : Bool} {s s' : State} {a : Action} (h : Counts s)
    (hmove : Move fence s a s') (hdelay : s.delays a = false) : Advances s s' := by
  cases hmove with
  | flush hm =>
      have hbuffered := buffered_flush hm
      exact Nat.add_lt_add_left (by omega) s.achieved
  | wait hpc hsema => exact advances_wait hpc hsema
  | delay hpc _ _ => simp [State.delays, hpc] at hdelay
  | store hpc => exact advances_store _ _ _ hpc (by simp) (by simp) (by simp [WorkerPc.weight])
  | fence hpc _ => exact advances_setWorker _ hpc (by simp) (by simp) (by simp [WorkerPc.weight])
  | load hpc => exact advances_setWorker _ hpc (by simp) (by simp) (by simp [WorkerPc.weight])
  | save hpc => exact advances_store _ _ _ hpc (by simp) (by simp) (by simp [WorkerPc.weight])
  | post hpc _ => exact h.advances_post hpc
  | resetX hpc => exact advances_reset (fun i => by rw [hpc]; rfl) (by rw [hpc]; decide)
  | resetY hpc => exact advances_reset (fun i => by rw [hpc]; rfl) (by rw [hpc]; decide)
  | postOne hpc _ =>
      exact h.advances_posted (by rw [hpc]; rfl)
        (fun j hj => by cases j <;> simp_all [asked]) (by rw [hpc]; decide)
  | postTwo hpc =>
      exact h.advances_posted (by rw [hpc]; rfl)
        (fun j hj => by cases j <;> simp_all [asked]) (by rw [hpc]; decide)
  | waitFirst hpc _ => exact advances_main (fun i => by rw [hpc]; rfl) (by rw [hpc]; decide)
  | waitSecond hpc _ => exact advances_main (fun i => by rw [hpc]; rfl) (by rw [hpc]; decide)
  | checkOneZero hpc _ => exact advances_main (fun i => by rw [hpc]; rfl) (by rw [hpc]; decide)
  | checkOne hpc | checkTwo hpc =>
      refine Nat.add_lt_add_right ?_ s.buffered
      exact h.achieved_next (by rw [hpc]; rfl) (fun _ => rfl) rfl rfl

/-- A round of a delay undoes nothing. -/
theorem achieved_delay {fence : Bool} {s s' : State} {a : Action} (hmove : Move fence s a s')
    (hdelay : s.delays a = true) : s.achieved + s'.buffered ≤ s'.achieved + s.buffered := by
  cases hmove with
  | @delay i hpc random pc hnext =>
      have hachieved := achieved_setWorker { s.worker i with random := random, pc := pc } hpc
        (by simp) (by rcases hnext with rfl | rfl <;> simp)
      have hweight : WorkerPc.delaying.weight ≤ pc.weight := by
        rcases hnext with rfl | rfl <;> decide
      change _ = s.achieved + pc.weight at hachieved
      exact Nat.add_le_add_right (by omega) s.buffered
  | wait hpc _ | store hpc | fence hpc _ | load hpc | save hpc | post hpc _ =>
      simp [State.delays, hpc] at hdelay
  | _ => simp [State.delays] at hdelay

/-- How many of the actions of a run are not rounds of a delay. -/
def efforts (fence : Bool) : State → List Action → ℕ
  | _, [] => 0
  | s, a :: as =>
      (if s.delays a then 0 else 1) +
        match step fence s a with
        | none => 0
        | some s' => efforts fence s' as

theorem efforts_cons {fence : Bool} {s s' : State} {a : Action} (h : step fence s a = some s')
    (as : List Action) :
    efforts fence s (a :: as) = (if s.delays a then 0 else 1) + efforts fence s' as := by
  rw [efforts, h]

/-- Along a run. -/
theorem efforts_le {fence : Bool} {s s' : State} {actions : List Action} (hs : Counts s)
    (hrun : actions.foldlM (step fence) s = some s') :
    s.achieved + s'.buffered + efforts fence s actions ≤ s'.achieved + s.buffered := by
  induction actions generalizing s with
  | nil =>
      obtain rfl := Option.some.inj hrun
      exact le_rfl
  | cons a actions ih =>
      rw [List.foldlM_cons] at hrun
      obtain ⟨s₁, hs₁, hrest⟩ := Option.bind_eq_some_iff.mp hrun
      have hmove := step_move hs₁
      have hrun₁ := ih (hs.move hmove) hrest
      rw [efforts_cons hs₁]
      cases hdelay : s.delays a with
      | true =>
          have hstep := achieved_delay hmove hdelay
          simp only [if_true]
          omega
      | false =>
          have hstep := hs.advances hmove hdelay
          rw [Advances] at hstep
          simp only [Bool.false_eq_true, if_false]
          omega

/-! ### An iteration

Without the fence both workers can load before either of their stores has left its buffer. -/

/-- The rounds of a delay come to an end: some result of the generator is a multiple of 8. -/
def DelayEnds (g : MersenneTwister) : Prop := ∃ k, ∃ r ∈ (g.integers k).2, r % 8 = 0

/-- The generators of the source. -/
theorem seeded_delayEnds (i : Side) : DelayEnds (seeded i) := by
  cases i with
  | one => exact ⟨_, delay_of_seeds.1⟩
  | two => exact ⟨_, delay_of_seeds.2⟩

theorem setWorker_setWorker (s : State) (i : Side) (w w' : Worker) :
    (s.setWorker i w).setWorker i w' = s.setWorker i w' := by
  simp [State.setWorker]

theorem step_delaying (fence : Bool) {s : State} {i : Side} (hpc : (s.worker i).pc = .delaying) :
    step fence s (.worker i) = some (s.setWorker i
      { s.worker i with
        random := (s.worker i).random.integer.2
        pc := if (s.worker i).random.integer.1 % 8 ≠ 0 then .delaying else .storing }) := by
  simp only [step, workerStep, hpc]

/-- The state in which the worker has finished its delay. -/
def State.delayed (s : State) (i : Side) (random : MersenneTwister) : State :=
  s.setWorker i { s.worker i with random := random, pc := .storing }

/-- A worker finishes its delay, whatever the others have done. -/
theorem delay_run (fence : Bool) {g : MersenneTwister} (hends : DelayEnds g) :
    ∃ (rounds : ℕ) (random : MersenneTwister), ∀ (s : State) (i : Side),
      (s.worker i).pc = .delaying → (s.worker i).random = g →
      (List.replicate rounds (Action.worker i)).foldlM (step fence) s =
        some (s.delayed i random) := by
  obtain ⟨k, hk⟩ := hends
  induction k generalizing g with
  | zero =>
      obtain ⟨r, hr, -⟩ := hk
      exact absurd hr (by simp [integers_zero])
  | succ k ih =>
      by_cases hlast : g.integer.1 % 8 = 0
      · refine ⟨1, g.integer.2, fun s i hpc hg => ?_⟩
        rw [List.replicate_one, foldlM_cons_of_some (step_delaying fence hpc), hg,
          if_neg (not_not.mpr hlast)]
        rfl
      · obtain ⟨r, hr, hzero⟩ := hk
        rw [integers_succ, List.mem_cons] at hr
        have hlater := hr.resolve_left fun heq => hlast (heq ▸ hzero)
        obtain ⟨rounds, random, hrest⟩ := ih ⟨r, hlater, hzero⟩
        refine ⟨rounds + 1, random, fun s i hpc hg => ?_⟩
        rw [List.replicate_succ, foldlM_cons_of_some (step_delaying fence hpc), hrest _ i]
        · rw [State.delayed, setWorker_setWorker, setWorker_worker_self]
          rfl
        · rw [setWorker_worker_self, hg, if_pos hlast]
        · rw [setWorker_worker_self, hg]

/-- `main` begins an iteration, and the first worker takes up its delay. -/
def opening : List Action :=
  [.main, .main, .flush .main, .flush .main, .main, .main, .worker .one]

/-- The first worker stores and loads, but its store stays in the buffer. -/
def firstHalf : List Action :=
  [.worker .one, .worker .one, .worker .one, .worker .one, .worker .two]

/-- The second worker does the same; then all stores reach the memory and `main` checks. -/
def secondHalf : List Action :=
  [.worker .two, .worker .two, .worker .two, .worker .two,
    .flush (.worker .one), .flush (.worker .one), .flush (.worker .two), .flush (.worker .two),
    .worker .one, .worker .two, .main, .main, .main, .main]

/-- One value for each worker. -/
def Side.pick {α : Type} (a b : α) : Side → α
  | one => a
  | two => b

/-- After `opening`. -/
def firstDelaying (random : Side → MersenneTwister) : State where
  memory := ⟨fun _ => 0, fun _ => []⟩
  beginSema := Side.pick 0 1
  endSema := 0
  worker := Side.pick ⟨.delaying, random .one, 0⟩ ⟨.waiting, random .two, 0⟩
  main := .waitFirst
  detected := 0
  iterations := 1

/-- After `firstHalf`: the stores of the first worker are in its buffer. -/
def secondDelaying (random : Side → MersenneTwister) (g₁ : MersenneTwister) : State where
  memory := ⟨fun _ => 0, Function.update (fun _ => []) (.worker .one) [(.X, 1), (.r1, 0)]⟩
  beginSema := Side.pick 0 0
  endSema := 0
  worker := Side.pick ⟨.posting, g₁, 0⟩ ⟨.delaying, random .two, 0⟩
  main := .waitFirst
  detected := 0
  iterations := 1

theorem opening_run (random : Side → MersenneTwister) :
    opening.foldlM (step false) (start random) = some (firstDelaying random) := by
  refine congrArg some (State.ext (Tso.ext ?_ ?_) ?_ rfl ?_ rfl rfl rfl)
  · funext k
    cases k <;> rfl
  · funext t
    rcases t with _ | (_ | _) <;> rfl
  · funext i
    cases i <;> rfl
  · funext i
    cases i <;> rfl

theorem firstHalf_run (random : Side → MersenneTwister) (g₁ : MersenneTwister) :
    firstHalf.foldlM (step false) ((firstDelaying random).delayed .one g₁) =
      some (secondDelaying random g₁) := by
  refine congrArg some (State.ext (Tso.ext rfl ?_) ?_ rfl ?_ rfl rfl rfl)
  · funext t
    rcases t with _ | (_ | _) <;> rfl
  · funext i
    cases i <;> rfl
  · funext i
    cases i <;> rfl

theorem secondHalf_run (random : Side → MersenneTwister) (g₁ g₂ : MersenneTwister) :
    ∃ s, secondHalf.foldlM (step false) ((secondDelaying random g₁).delayed .two g₂) = some s ∧
      s.detected = 1 ∧ s.iterations = 2 :=
  ⟨_, rfl, rfl, rfl⟩

/-- Both loads come before both stores. -/
theorem reorder_run {random : Side → MersenneTwister} (hends : ∀ i, DelayEnds (random i)) :
    ∃ (actions : List Action) (s : State),
      actions.foldlM (step false) (start random) = some s ∧ s.detected = 1 ∧ s.iterations = 2 := by
  obtain ⟨n₁, g₁, hone⟩ := delay_run false (hends .one)
  obtain ⟨n₂, g₂, htwo⟩ := delay_run false (hends .two)
  obtain ⟨s, hsecond, hend⟩ := secondHalf_run random g₁ g₂
  refine ⟨opening ++ (List.replicate n₁ (.worker .one) ++ (firstHalf ++
    (List.replicate n₂ (.worker .two) ++ secondHalf))), s, ?_, hend⟩
  rw [foldlM_append_of_some (opening_run random),
    foldlM_append_of_some (hone (firstDelaying random) .one rfl rfl),
    foldlM_append_of_some (firstHalf_run random g₁),
    foldlM_append_of_some (htwo (secondDelaying random g₁) .two rfl rfl)]
  exact hsecond

/-! ### The experiment keeps going -/

/-- **The experiment keeps going.** In every state that a run reaches, some thread can go on or
some buffer can be flushed; and of the actions of the run, at most 28 per iteration are not rounds
of the random delays. -/
theorem run_keeps_going {fence : Bool} {random : Side → MersenneTwister} {actions : List Action}
    {s : State} (hrun : actions.foldlM (step fence) (start random) = some s) :
    (∃ a, (step fence s a).isSome) ∧
      efforts fence (start random) actions ≤ 28 * s.iterations := by
  refine ⟨(rounds_of_run hrun).enabled fence, ?_⟩
  have hbound := efforts_le (.start random) hrun
  have hstart : (start random).achieved = 28 ∧ (start random).buffered = 0 := ⟨rfl, rfl⟩
  have hworker : ∀ i, s.weight i ≤ 9 := by
    intro i
    rw [State.weight]
    split
    · cases s.main <;> cases i <;> decide
    · cases (s.worker i).pc <;> decide
  have hone := hworker .one
  have htwo := hworker .two
  have hmain : s.main.weight ≤ 9 := by
    cases s.main <;> decide
  have hend : s.achieved = 28 * s.iterations + s.main.weight + s.weight .one + s.weight .two := rfl
  omega

/-- After a whole iteration of the program. -/
theorem run_keeps_going_iteration : ∃ (actions : List Action) (s : State),
    actions.foldlM (step false) (start seeded) = some s ∧ s.iterations = 2 ∧
      (∃ a, (step false s a).isSome) ∧ efforts false (start seeded) actions ≤ 28 * s.iterations := by
  obtain ⟨actions, s, hrun, -, hiterations⟩ := reorder_run seeded_delayEnds
  exact ⟨actions, s, hrun, hiterations, run_keeps_going hrun⟩

end CLabs.Ordering
