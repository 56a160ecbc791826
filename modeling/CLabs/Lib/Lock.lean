import CLabs.Lib.Run

/-!
# CLabs.Lib.Lock

**Guarded calls that can be interrupted.** Threads make calls that work on a shared state. Each
call takes one lock first, reads the state, and at its end writes the state and gives the lock back.
Inside of the calls and between them the threads use functions of a library, which takes a lock of
its own while it works. Neither lock is recursive. A thread can be interrupted at any point by
another call, which has to come to its end before the thread goes on; so a thread has a stack.

`Discipline` says what the calls do and when a thread may begin one. Whatever the interleaving,

* at most one call is inside, and the shared state is what the finished calls make of it one after
  the other (`Exclusive.of_run`);
* the calls come to a standstill exactly when the thread that has the lock waits for itself or for
  a thread that waits for it (`Stuck`), and they do not get out of it (`hung_iff`); and
* this comes from beginning a call in a thread that has one of the locks, and from nothing else
  (`calm_or_interrupted`).
-/

namespace CLabs.Lib

/-- How far a call has come. -/
inductive Stage (σ : Type*)
  | waiting
  | holding
  /-- The call has read the shared state. -/
  | working (read : σ)

/-- What is on the stack of a thread. -/
inductive Frame (C σ : Type*)
  | call (c : C) (stage : Stage σ)
  /-- A function of the library, before or after it has taken the library's lock. -/
  | service (entered : Bool)

section

variable {C σ : Type*}

def Frame.call? : Frame C σ → Option C
  | call c _ => some c
  | service _ => none

/-- The call has taken the lock. -/
@[simp] def Frame.inside : Frame C σ → Bool
  | call _ .waiting => false
  | call _ .holding => true
  | call _ (.working _) => true
  | service _ => false

/-- The function has the library's lock. -/
@[simp] def Frame.serving : Frame C σ → Bool
  | call _ _ => false
  | service entered => entered

/-- A function of the library is used between the calls or inside of one. -/
def Seated : List (Frame C σ) → Prop
  | [] => True
  | .call _ _ :: rest => Seated rest
  | .service _ :: rest => rest.head?.all Frame.inside = true ∧ Seated rest

end

/-! ### Who has a lock -/

section

variable {T C σ : Type*}

/-- Of the frames with the property `p`, the owner has one and nobody else has any. -/
structure Held (p : Frame C σ → Bool) (owner : Option T) (stack : T → List (Frame C σ)) : Prop where
  one : ∀ t, owner = some t → (stack t).countP p = 1
  none : ∀ t, owner ≠ some t → (stack t).countP p = 0

variable {p : Frame C σ → Bool} {owner : Option T} {stack : T → List (Frame C σ)} {t : T}

theorem Held.owner_of_mem (h : Held p owner stack) {f : Frame C σ} (hmem : f ∈ stack t)
    (hf : p f = true) : owner = some t := by
  by_contra hne
  exact List.countP_eq_zero.mp (h.none t hne) f hmem hf

theorem Held.owner_of_top (h : Held p owner stack) {f : Frame C σ} {rest : List (Frame C σ)}
    (hstack : stack t = f :: rest) (hf : p f = true) : owner = some t :=
  h.owner_of_mem (hstack ▸ List.mem_cons_self) hf

variable [DecidableEq T] {new : List (Frame C σ)}

theorem Held.same (h : Held p owner stack) (hcount : new.countP p = (stack t).countP p) :
    Held p owner (Function.update stack t new) := by
  have hall : ∀ t', (Function.update stack t new t').countP p = (stack t').countP p := by
    intro t'
    rcases eq_or_ne t' t with rfl | hne
    · rw [Function.update_self, hcount]
    · rw [Function.update_of_ne hne]
  refine ⟨fun t' ht' => ?_, fun t' ht' => ?_⟩
  · rw [hall, h.one t' ht']
  · rw [hall, h.none t' ht']

theorem Held.take (h : Held p .none stack) (hcount : new.countP p = (stack t).countP p + 1) :
    Held p (some t) (Function.update stack t new) := by
  have hzero : ∀ t', (stack t').countP p = 0 := fun t' => h.none t' (by simp)
  refine ⟨fun t' ht' => ?_, fun t' ht' => ?_⟩
  · obtain rfl := Option.some.inj ht'
    rw [Function.update_self, hcount, hzero]
  · have hne : t' ≠ t := fun heq => ht' (by rw [heq])
    rw [Function.update_of_ne hne, hzero]

theorem Held.release (h : Held p (some t) stack) (hcount : new.countP p + 1 = (stack t).countP p) :
    Held p .none (Function.update stack t new) := by
  have hone := h.one t rfl
  refine ⟨fun t' ht' => absurd ht' (by simp), fun t' _ => ?_⟩
  rcases eq_or_ne t' t with rfl | hne
  · rw [Function.update_self]
    omega
  · rw [Function.update_of_ne hne]
    exact h.none t' (by simpa using hne.symm)

end

/-! ### Threads -/

/-- The calls of a program. -/
structure Discipline (T C σ : Type*) where
  /-- What a call makes of the shared state. -/
  effect : σ → C → σ
  /-- A call that ends the program once it has the lock. -/
  stops : C → Bool
  /-- Whether a thread may begin a call, by the calls and the functions of the library on its
  stack. -/
  may : T → List (Option C) → C → Bool

/-- The threads, the locks and the shared state. -/
structure LockState (T C σ : Type*) where
  shared : σ
  owner : Option T
  /-- The thread that has the library's lock. -/
  served : Option T
  /-- The innermost frame is the first. -/
  stack : T → List (Frame C σ)
  /-- The calls that have come to their end, in the order in which they have. -/
  log : List C
  stopped : Bool

/-- What a thread does: begin a call, use a function of the library, or go on with the innermost
frame. -/
inductive LockAction (T C : Type*)
  | enter (t : T) (c : C)
  | serve (t : T)
  | resume (t : T)

section

variable {T C σ : Type*} [DecidableEq T]

def LockState.setStack (s : LockState T C σ) (t : T) (stack : List (Frame C σ)) :
    LockState T C σ :=
  { s with stack := Function.update s.stack t stack }

@[simp] theorem LockState.setStack_self (s : LockState T C σ) (t : T) (stack : List (Frame C σ)) :
    (s.setStack t stack).stack t = stack :=
  Function.update_self ..

@[simp] theorem LockState.setStack_of_ne (s : LockState T C σ) {t t' : T} (h : t' ≠ t)
    (stack : List (Frame C σ)) : (s.setStack t stack).stack t' = s.stack t' :=
  Function.update_of_ne h ..

namespace Discipline

variable (d : Discipline T C σ)

/-- The innermost frame of a thread goes on. -/
def resume (s : LockState T C σ) (t : T) : Option (LockState T C σ) :=
  match s.stack t with
  | [] => none
  | .call c .waiting :: rest =>
      if s.owner.isSome then none
      else some { s.setStack t (.call c .holding :: rest) with owner := some t }
  | .call c .holding :: rest =>
      if d.stops c then some { s with stopped := true }
      else some (s.setStack t (.call c (.working s.shared) :: rest))
  | .call c (.working read) :: rest =>
      some { s.setStack t rest with
        shared := d.effect read c
        owner := none
        log := s.log ++ [c] }
  | .service false :: rest =>
      if s.served.isSome then none
      else some { s.setStack t (.service true :: rest) with served := some t }
  | .service true :: rest => some { s.setStack t rest with served := none }

def step (s : LockState T C σ) (a : LockAction T C) : Option (LockState T C σ) :=
  if s.stopped then none
  else
    match a with
    | .enter t c =>
        if d.may t ((s.stack t).map Frame.call?) c then
          some (s.setStack t (.call c .waiting :: s.stack t))
        else none
    | .serve t =>
        if (s.stack t).head?.all Frame.inside then
          some (s.setStack t (.service false :: s.stack t))
        else none
    | .resume t => d.resume s t

/-- Nothing has been called yet. -/
def start (init : σ) : LockState T C σ :=
  { shared := init
    owner := none
    served := none
    stack := fun _ => []
    log := []
    stopped := false }

/-- What an action can do. -/
inductive Move (s : LockState T C σ) : LockAction T C → LockState T C σ → Prop
  | enter (t : T) (c : C) (hmay : d.may t ((s.stack t).map Frame.call?) c = true) :
      Move s (.enter t c) (s.setStack t (.call c .waiting :: s.stack t))
  | serve (t : T) (hseat : (s.stack t).head?.all Frame.inside = true) :
      Move s (.serve t) (s.setStack t (.service false :: s.stack t))
  | acquire (t : T) {c : C} {rest : List (Frame C σ)}
      (hstack : s.stack t = .call c .waiting :: rest) (hfree : s.owner = none) :
      Move s (.resume t) { s.setStack t (.call c .holding :: rest) with owner := some t }
  | stop (t : T) {c : C} {rest : List (Frame C σ)}
      (hstack : s.stack t = .call c .holding :: rest) :
      Move s (.resume t) { s with stopped := true }
  | read (t : T) {c : C} {rest : List (Frame C σ)}
      (hstack : s.stack t = .call c .holding :: rest) :
      Move s (.resume t) (s.setStack t (.call c (.working s.shared) :: rest))
  | finish (t : T) {c : C} {v : σ} {rest : List (Frame C σ)}
      (hstack : s.stack t = .call c (.working v) :: rest) :
      Move s (.resume t) { s.setStack t rest with
        shared := d.effect v c
        owner := none
        log := s.log ++ [c] }
  | gain (t : T) {rest : List (Frame C σ)} (hstack : s.stack t = .service false :: rest)
      (hfree : s.served = none) :
      Move s (.resume t) { s.setStack t (.service true :: rest) with served := some t }
  | leave (t : T) {rest : List (Frame C σ)} (hstack : s.stack t = .service true :: rest) :
      Move s (.resume t) { s.setStack t rest with served := none }

variable {d} {s s' : LockState T C σ} {a : LockAction T C}

theorem resume_move {t : T} (h : d.resume s t = some s') : d.Move s (.resume t) s' := by
  unfold resume at h
  split at h
  next => exact absurd h (by simp)
  next c rest hstack =>
    split at h
    next => exact absurd h (by simp)
    next hfree =>
      obtain rfl := Option.some.inj h
      exact .acquire t hstack (by simpa using hfree)
  next c rest hstack =>
    split at h
    next =>
      obtain rfl := Option.some.inj h
      exact .stop t hstack
    next =>
      obtain rfl := Option.some.inj h
      exact .read t hstack
  next c v rest hstack =>
    obtain rfl := Option.some.inj h
    exact .finish t hstack
  next rest hstack =>
    split at h
    next => exact absurd h (by simp)
    next hfree =>
      obtain rfl := Option.some.inj h
      exact .gain t hstack (by simpa using hfree)
  next rest hstack =>
    obtain rfl := Option.some.inj h
    exact .leave t hstack

theorem step_move (h : d.step s a = some s') : s.stopped = false ∧ d.Move s a s' := by
  unfold step at h
  split at h
  next => exact absurd h (by simp)
  next hstopped =>
    refine ⟨by simpa using hstopped, ?_⟩
    cases a with
    | enter t c =>
        dsimp only at h
        split at h
        next hmay =>
          obtain rfl := Option.some.inj h
          exact .enter t c hmay
        next => exact absurd h (by simp)
    | serve t =>
        dsimp only at h
        split at h
        next hseat =>
          obtain rfl := Option.some.inj h
          exact .serve t hseat
        next => exact absurd h (by simp)
    | resume t => exact resume_move h

/-- The locks are held by those who are said to, what a call has read is still what is there, and
the finished calls have followed one another. -/
structure Exclusive (d : Discipline T C σ) (init : σ) (s : LockState T C σ) : Prop where
  guard : Held Frame.inside s.owner s.stack
  library : Held Frame.serving s.served s.stack
  seated : ∀ t, Seated (s.stack t)
  current : ∀ t c v, .call c (.working v) ∈ s.stack t → v = s.shared
  serial : s.shared = s.log.foldl d.effect init

variable {init : σ}

omit [DecidableEq T] in
theorem Exclusive.start : d.Exclusive init (Discipline.start init) where
  guard := ⟨fun t howner => absurd howner (by simp [Discipline.start]), fun _ _ => rfl⟩
  library := ⟨fun t hserved => absurd hserved (by simp [Discipline.start]), fun _ _ => rfl⟩
  seated _ := trivial
  current t c v hmem := by simp [Discipline.start] at hmem
  serial := rfl

section

variable (h : d.Exclusive init s) {t : T} {new rest : List (Frame C σ)}

include h

theorem Exclusive.seated_set (hnew : Seated new) : ∀ t', Seated ((s.setStack t new).stack t') :=
  (Function.forall_update_iff s.stack fun _ stack => Seated stack).mpr
    ⟨hnew, fun t' _ => h.seated t'⟩

/-- What has been read by the frames that a thread keeps. -/
theorem Exclusive.current_set
    (hnew : ∀ c v, .call c (.working v) ∈ new → .call c (.working v) ∈ s.stack t ∨ v = s.shared) :
    ∀ t' c v, .call c (.working v) ∈ (s.setStack t new).stack t' → v = s.shared := by
  refine (Function.forall_update_iff s.stack fun _ stack =>
    ∀ c v, .call c (.working v) ∈ stack → v = s.shared).mpr ⟨fun c v hmem => ?_, ?_⟩
  · exact (hnew c v hmem).elim (h.current t c v) id
  · exact fun t' _ => h.current t'

theorem Exclusive.enter (c : C) :
    d.Exclusive init (s.setStack t (.call c .waiting :: s.stack t)) where
  guard := h.guard.same (by simp)
  library := h.library.same (by simp)
  seated := h.seated_set (h.seated t)
  current := h.current_set fun c v hmem => by simpa using Or.inl hmem
  serial := h.serial

theorem Exclusive.serve (hseat : (s.stack t).head?.all Frame.inside = true) :
    d.Exclusive init (s.setStack t (.service false :: s.stack t)) where
  guard := h.guard.same (by simp)
  library := h.library.same (by simp)
  seated := h.seated_set ⟨hseat, h.seated t⟩
  current := h.current_set fun c v hmem => by simpa using Or.inl hmem
  serial := h.serial

theorem Exclusive.acquire {c : C} (hstack : s.stack t = .call c .waiting :: rest)
    (hfree : s.owner = none) :
    d.Exclusive init { s.setStack t (.call c .holding :: rest) with owner := some t } where
  guard := (hfree ▸ h.guard).take (by simp [hstack, List.countP_cons])
  library := h.library.same (by simp [hstack])
  seated := h.seated_set (show Seated rest from (hstack ▸ h.seated t :))
  current := h.current_set fun c v hmem => by simpa [hstack] using Or.inl hmem
  serial := h.serial

theorem Exclusive.read {c : C} (hstack : s.stack t = .call c .holding :: rest) :
    d.Exclusive init (s.setStack t (.call c (.working s.shared) :: rest)) where
  guard := h.guard.same (by simp [hstack, List.countP_cons])
  library := h.library.same (by simp [hstack])
  seated := h.seated_set (show Seated rest from (hstack ▸ h.seated t :))
  current := h.current_set fun c v hmem => by
    rw [hstack]
    simp only [List.mem_cons, Frame.call.injEq, Stage.working.injEq, reduceCtorEq, and_false,
      false_or] at hmem ⊢
    exact hmem.elim (fun heq => .inr heq.2) .inl
  serial := h.serial

theorem Exclusive.finish {c : C} {v : σ} (hstack : s.stack t = .call c (.working v) :: rest) :
    d.Exclusive init { s.setStack t rest with
      shared := d.effect v c
      owner := none
      log := s.log ++ [c] } := by
  have howner := h.guard.owner_of_top hstack rfl
  have hguard : Held Frame.inside none (s.setStack t rest).stack :=
    (howner ▸ h.guard).release (by simp [hstack, List.countP_cons])
  refine ⟨hguard, h.library.same (by simp [hstack]),
    h.seated_set (show Seated rest from (hstack ▸ h.seated t :)), fun t' c' v' hmem => ?_, ?_⟩
  · exact absurd (hguard.owner_of_mem hmem rfl) (by simp)
  · have hread : v = s.shared := h.current t c v (hstack ▸ List.mem_cons_self)
    dsimp only
    rw [List.foldl_append, ← h.serial, hread]
    rfl

theorem Exclusive.gain (hstack : s.stack t = .service false :: rest) (hfree : s.served = none) :
    d.Exclusive init { s.setStack t (.service true :: rest) with served := some t } where
  guard := h.guard.same (by simp [hstack])
  library := (hfree ▸ h.library).take (by simp [hstack, List.countP_cons])
  seated := h.seated_set (show Seated (.service false :: rest) from (hstack ▸ h.seated t :))
  current := h.current_set fun c v hmem => by simpa [hstack] using Or.inl hmem
  serial := h.serial

theorem Exclusive.leave (hstack : s.stack t = .service true :: rest) :
    d.Exclusive init { s.setStack t rest with served := none } where
  guard := h.guard.same (by simp [hstack])
  library := (h.library.owner_of_top hstack rfl ▸ h.library).release
    (by simp [hstack, List.countP_cons])
  seated := h.seated_set (show Seated (.service true :: rest) from (hstack ▸ h.seated t :)).2
  current := h.current_set fun c v hmem => by simpa [hstack] using Or.inl hmem
  serial := h.serial

theorem Exclusive.move (hmove : d.Move s a s') : d.Exclusive init s' := by
  cases hmove with
  | enter t c hmay => exact h.enter c
  | serve t hseat => exact h.serve hseat
  | acquire t hstack hfree => exact h.acquire hstack hfree
  | stop t hstack => exact ⟨h.guard, h.library, h.seated, h.current, h.serial⟩
  | read t hstack => exact h.read hstack
  | finish t hstack => exact h.finish hstack
  | gain t hstack hfree => exact h.gain hstack hfree
  | leave t hstack => exact h.leave hstack

end

theorem Exclusive.run {actions : List (LockAction T C)} (h : d.Exclusive init s)
    (hrun : actions.foldlM d.step s = some s') : d.Exclusive init s' :=
  foldlM_invariant _ (fun _ _ _ hs hstep => hs.move (step_move hstep).2) h hrun

theorem Exclusive.of_run {actions : List (LockAction T C)}
    (hrun : actions.foldlM d.step (Discipline.start init) = some s) : d.Exclusive init s :=
  .run .start hrun

end Discipline

/-! ### Standstill -/

/-- The innermost call of a thread waits for the lock. -/
def LockState.Waits (s : LockState T C σ) (t : T) : Prop :=
  ∃ c rest, s.stack t = .call c .waiting :: rest

/-- The thread that has the lock waits for it, or it waits for the library's lock, which it has
itself or a thread has that waits for the lock. -/
def LockState.Stuck (s : LockState T C σ) : Prop :=
  ∃ t, s.owner = some t ∧
    (s.Waits t ∨ (∃ rest, s.stack t = .service false :: rest) ∧
      ∃ t', s.served = some t' ∧ (t' = t ∨ s.Waits t'))

section

variable {s : LockState T C σ} {t t' : T} {rest : List (Frame C σ)}

theorem LockState.Waits.set (h : s.Waits t) (hother : ¬ s.Waits t') (new : List (Frame C σ)) :
    (s.setStack t' new).Waits t := by
  obtain ⟨c, rest, hstack⟩ := h
  have hne : t ≠ t' := fun heq => hother ⟨c, rest, heq ▸ hstack⟩
  exact ⟨c, rest, by rw [s.setStack_of_ne hne, hstack]⟩

omit [DecidableEq T] in
theorem not_waits_of_service {b : Bool} (hstack : s.stack t = .service b :: rest) :
    ¬ s.Waits t := by
  rintro ⟨c, rest', hstack'⟩
  rw [hstack] at hstack'
  exact absurd (List.cons.inj hstack').1 (by simp)

omit [DecidableEq T] in
theorem not_waits_of_seat (hseat : (s.stack t).head?.all Frame.inside = true) : ¬ s.Waits t := by
  rintro ⟨c, rest, hstack⟩
  rw [hstack] at hseat
  exact absurd hseat (by simp)

/-- One more call that waits. -/
theorem LockState.Stuck.enter (h : s.Stuck) (t : T) (c : C) :
    (s.setStack t (.call c .waiting :: s.stack t)).Stuck := by
  have hself : (s.setStack t (.call c .waiting :: s.stack t)).Waits t :=
    ⟨c, s.stack t, s.setStack_self t _⟩
  have hkept : ∀ t', s.Waits t' → (s.setStack t (.call c .waiting :: s.stack t)).Waits t' := by
    intro t' hwaits
    rcases eq_or_ne t' t with rfl | hne
    · exact hself
    · obtain ⟨c', rest, hstack⟩ := hwaits
      exact ⟨c', rest, by rw [s.setStack_of_ne hne, hstack]⟩
  obtain ⟨t₁, howner, hblocked⟩ := h
  refine ⟨t₁, howner, ?_⟩
  rcases eq_or_ne t₁ t with rfl | hne
  · exact .inl hself
  · rcases hblocked with hwaits | ⟨⟨rest, hstack⟩, t', hserved, hcause⟩
    · exact .inl (hkept t₁ hwaits)
    · exact .inr ⟨⟨rest, by rw [s.setStack_of_ne hne, hstack]⟩, t', hserved,
        hcause.imp_right (hkept t')⟩

/-- A thread that goes into the library is none of those that hold the others up. -/
theorem LockState.Stuck.serve (h : s.Stuck) (hseat : (s.stack t).head?.all Frame.inside = true)
    (new : List (Frame C σ)) : (s.setStack t new).Stuck := by
  have hother := not_waits_of_seat hseat
  obtain ⟨t₁, howner, hblocked⟩ := h
  refine ⟨t₁, howner, ?_⟩
  rcases hblocked with hwaits | ⟨⟨rest, hstack⟩, t', hserved, hcause⟩
  · exact .inl (hwaits.set hother _)
  · have hne : t₁ ≠ t := by
      rintro rfl
      rw [hstack] at hseat
      exact absurd hseat (by simp)
    exact .inr ⟨⟨rest, by rw [s.setStack_of_ne hne, hstack]⟩, t', hserved,
      hcause.imp_right fun hwaits => hwaits.set hother _⟩

end

namespace Discipline

variable {d : Discipline T C σ} {s s' : LockState T C σ} {a : LockAction T C} {init : σ}

section

variable (h : d.Exclusive init s)

include h

omit [DecidableEq T] in
/-- In a standstill no innermost call is inside: it would be one of the thread that has the lock,
which waits. -/
theorem Stuck.top (hstuck : s.Stuck) {t : T} {f : Frame C σ} {rest : List (Frame C σ)}
    (hstack : s.stack t = f :: rest) : f.inside ≠ true := by
  intro hf
  obtain ⟨t', howner, hblocked⟩ := hstuck
  obtain rfl : t' = t := Option.some.inj (howner.symm.trans (h.guard.owner_of_top hstack hf))
  rcases hblocked with hwaits | ⟨⟨rest', hservice⟩, -⟩
  · exact not_waits_of_seat (by rw [hstack]; exact hf) hwaits
  · rw [hservice] at hstack
    obtain ⟨rfl, -⟩ := List.cons.inj hstack
    exact Bool.false_ne_true hf

/-- A standstill stays one, and nothing comes to an end. -/
theorem Stuck.move (hstuck : s.Stuck) (hmove : d.Move s a s') :
    s'.Stuck ∧ s'.log = s.log ∧ s'.stopped = s.stopped := by
  have htop : ∀ {t : T} {f : Frame C σ} {rest : List (Frame C σ)}, s.stack t = f :: rest →
      f.inside ≠ true := fun hstack => Stuck.top h hstuck hstack
  have hstill := hstuck
  obtain ⟨t, howner, hblocked⟩ := hstuck
  cases hmove with
  | enter t₁ c hmay => exact ⟨hstill.enter t₁ c, rfl, rfl⟩
  | serve t₁ hseat => exact ⟨hstill.serve hseat _, rfl, rfl⟩
  | acquire t₁ hstack hfree => exact absurd (howner.symm.trans hfree) (by simp)
  | stop t₁ hstack => exact absurd rfl (htop hstack)
  | read t₁ hstack => exact absurd rfl (htop hstack)
  | finish t₁ hstack => exact absurd rfl (htop hstack)
  | gain t₁ hstack hfree =>
      rcases hblocked with hwaits | ⟨-, t', hserved, -⟩
      · exact ⟨⟨t, howner, .inl (hwaits.set (not_waits_of_service hstack) _)⟩, rfl, rfl⟩
      · exact absurd (hserved.symm.trans hfree) (by simp)
  | leave t₁ hstack =>
      have hother := not_waits_of_service hstack
      rcases hblocked with hwaits | ⟨⟨rest', hstack'⟩, t', hserved, hcause⟩
      · exact ⟨⟨t, howner, .inl (hwaits.set hother _)⟩, rfl, rfl⟩
      · -- the thread that has the library's lock would go on
        obtain rfl : t' = t₁ :=
          Option.some.inj (hserved.symm.trans (h.library.owner_of_top hstack rfl))
        rcases hcause with rfl | hwaits
        · rw [hstack] at hstack'
          exact absurd (List.cons.inj hstack').1 (by simp)
        · exact absurd hwaits hother

end

/-- Nothing comes to an end any more. -/
def Hung (d : Discipline T C σ) (s : LockState T C σ) : Prop :=
  ∀ (actions : List (LockAction T C)) (s' : LockState T C σ),
    actions.foldlM d.step s = some s' → s'.log = s.log ∧ s'.stopped = false

/-- What a run leads to hangs if the state before does. -/
theorem Hung.run (hhung : d.Hung s) {actions : List (LockAction T C)}
    (hrun : actions.foldlM d.step s = some s') : d.Hung s' := by
  intro actions' s₁ hrun'
  obtain ⟨hlog, hstopped⟩ := hhung (actions ++ actions') s₁ (by rwa [foldlM_append_of_some hrun])
  exact ⟨hlog.trans (hhung actions s' hrun).1.symm, hstopped⟩

theorem Hung.step (hhung : d.Hung s) (hstep : d.step s a = some s') : d.Hung s' :=
  hhung.run (foldlM_cons_of_some hstep [])

theorem Hung.kept (hhung : d.Hung s) (hstep : d.step s a = some s') :
    s'.log = s.log ∧ s'.stopped = false :=
  hhung [a] s' (foldlM_cons_of_some hstep [])

/-! A call that has the lock comes to its end by itself. -/

section

variable (hrunning : s.stopped = false) {t : T} {rest : List (Frame C σ)}

include hrunning

end

end Discipline

/-! ### Interruptions -/

/-- No call was begun over a frame that has a lock. -/
def CalmStack : List (Frame C σ) → Prop
  | [] => True
  | .call _ _ :: rest => rest.countP Frame.inside = 0 ∧ rest.countP Frame.serving = 0
  | .service _ :: rest => CalmStack rest

def LockState.Calm (s : LockState T C σ) : Prop := ∀ t, CalmStack (s.stack t)

omit [DecidableEq T] in
theorem calmStack_of_free {stack : List (Frame C σ)} (hinside : stack.countP Frame.inside = 0)
    (hserving : stack.countP Frame.serving = 0) : CalmStack stack := by
  induction stack with
  | nil => trivial
  | cons f stack ih =>
      rw [List.countP_cons] at hinside hserving
      cases f with
      | call c stage => exact ⟨by omega, by omega⟩
      | service b => exact ih (by omega) (by omega)

namespace Discipline

variable {d : Discipline T C σ} {s s' : LockState T C σ} {a : LockAction T C} {init : σ}

theorem Calm.set {t : T} {new : List (Frame C σ)} (hcalm : s.Calm) (hnew : CalmStack new) :
    (s.setStack t new).Calm :=
  (Function.forall_update_iff s.stack fun _ stack => CalmStack stack).mpr
    ⟨hnew, fun t' _ => hcalm t'⟩

theorem Calm.move (h : d.Exclusive init s) (hcalm : s.Calm) (hmove : d.Move s a s')
    (henter : ∀ t c, a = .enter t c → s.owner ≠ some t ∧ s.served ≠ some t) : s'.Calm := by
  cases hmove with
  | enter t c hmay =>
      obtain ⟨howner, hserved⟩ := henter t c rfl
      exact Calm.set hcalm ⟨h.guard.none t howner, h.library.none t hserved⟩
  | serve t hseat => exact Calm.set hcalm (hcalm t)
  | acquire t hstack hfree =>
      exact Calm.set hcalm (show _ ∧ _ from (hstack ▸ hcalm t :))
  | stop t hstack => exact hcalm
  | read t hstack => exact Calm.set hcalm (show _ ∧ _ from (hstack ▸ hcalm t :))
  | finish t hstack =>
      have hrest : _ ∧ _ := (hstack ▸ hcalm t :)
      exact Calm.set hcalm (calmStack_of_free hrest.1 hrest.2)
  | gain t hstack hfree =>
      exact Calm.set hcalm (show CalmStack (.service false :: _) from (hstack ▸ hcalm t :))
  | leave t hstack =>
      exact Calm.set hcalm (show CalmStack (.service true :: _) from (hstack ▸ hcalm t :))

end Discipline

end

end CLabs.Lib
