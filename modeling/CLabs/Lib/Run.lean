import Mathlib.Tactic

/-!
# CLabs.Lib.Run

**Runs of a machine with outputs.** A machine is a step function from a state and
an input to the next state and a list of outputs; `run` feeds it a list of inputs
and collects what it puts out.

Besides the equations for `run`, there are three proof rules. `run_invariant` is the
rule for invariants of the state. `run_unwinding` is the two-run rule: when a relation
between two states is kept by every visible input on both sides, and by every invisible
input on the left side alone, then a run and the same run without its invisible inputs
show the same observations. `run_lockstep` compares two runs whose inputs differ but do
the same step by step.

The rules for `foldlM` are for a machine without outputs whose steps may fail.
`foldlM_simulates` is forward simulation, `foldlM_refines` and `foldlM_invariant` are about
runs that are known to go through, and `foldlM_always_iff` says when a property holds all
along a run.
-/

namespace CLabs.Lib

variable {σ ι ε ο : Type*}

/-- Feed `is` to the machine one by one, collecting the outputs. -/
def run (step : σ → ι → σ × List ε) : σ → List ι → σ × List ε
  | s, [] => (s, [])
  | s, i :: is => ((run step (step s i).1 is).1, (step s i).2 ++ (run step (step s i).1 is).2)

variable {step : σ → ι → σ × List ε}

@[simp] theorem run_nil (s : σ) : run step s [] = (s, []) := rfl

theorem run_cons (s : σ) (i : ι) (is : List ι) :
    run step s (i :: is) =
      ((run step (step s i).1 is).1, (step s i).2 ++ (run step (step s i).1 is).2) := rfl

theorem run_append (s : σ) (is js : List ι) :
    run step s (is ++ js) =
      ((run step (run step s is).1 js).1,
        (run step s is).2 ++ (run step (run step s is).1 js).2) := by
  induction is generalizing s with
  | nil => simp
  | cons i is ih => simp only [List.cons_append, run_cons, ih, List.append_assoc]

theorem run_snoc (s : σ) (is : List ι) (i : ι) :
    run step s (is ++ [i]) =
      ((step (run step s is).1 i).1, (run step s is).2 ++ (step (run step s is).1 i).2) := by
  rw [run_append, run_cons]
  simp

/-- A state invariant kept by every allowed input holds after every run of them. -/
theorem run_invariant (inv : σ → Prop) (ok : ι → Prop)
    (hstep : ∀ s i, ok i → inv s → inv (step s i).1) {s : σ} (hs : inv s) :
    ∀ {is : List ι}, (∀ i ∈ is, ok i) → inv (run step s is).1 := by
  intro is
  induction is generalizing s with
  | nil => intro _; exact hs
  | cons i is ih =>
      intro hok
      rw [run_cons]
      exact ih (hstep s i (hok i List.mem_cons_self) hs)
        (fun j hj => hok j (List.mem_cons_of_mem _ hj))

/-- **Unwinding.** `seen` selects the visible inputs and `obs` what is observed of
an output. -/
theorem run_unwinding (rel : σ → σ → Prop) {seen : ι → Bool} {obs : ε → Option ο}
    (hseen : ∀ s t i, rel s t → seen i = true →
      rel (step s i).1 (step t i).1 ∧
        (step s i).2.filterMap obs = (step t i).2.filterMap obs)
    (hunseen : ∀ s t i, rel s t → seen i = false →
      rel (step s i).1 t ∧ (step s i).2.filterMap obs = [])
    {s t : σ} (hst : rel s t) (is : List ι) :
    (run step s is).2.filterMap obs = (run step t (is.filter seen)).2.filterMap obs := by
  induction is generalizing s t with
  | nil => rfl
  | cons i is ih =>
      by_cases hi : seen i = true
      · obtain ⟨hrel, hobs⟩ := hseen s t i hst hi
        rw [List.filter_cons_of_pos hi, run_cons, run_cons, List.filterMap_append,
          List.filterMap_append, hobs, ih hrel]
      · obtain ⟨hrel, hobs⟩ := hunseen s t i hst (by simpa using hi)
        rw [List.filter_cons_of_neg hi, run_cons, List.filterMap_append, hobs,
          List.nil_append, ih hrel]

/-- **Lockstep.** Two runs over inputs that differ are the same, if each pair of inputs does
the same in the state the first run has reached. -/
theorem run_lockstep {s : σ} (pairs : List (ι × ι))
    (h : ∀ past pair rest, pairs = past ++ pair :: rest →
      step (run step s (past.map Prod.fst)).1 pair.1 =
        step (run step s (past.map Prod.fst)).1 pair.2) :
    run step s (pairs.map Prod.fst) = run step s (pairs.map Prod.snd) := by
  induction pairs generalizing s with
  | nil => rfl
  | cons pair pairs ih =>
      have hfirst := h [] pair pairs rfl
      have hrest : run step (step s pair.1).1 (pairs.map Prod.fst) =
          run step (step s pair.1).1 (pairs.map Prod.snd) :=
        ih fun past next rest hsplit => h (pair :: past) next rest (by rw [hsplit]; rfl)
      rw [List.map_cons, List.map_cons, run_cons, run_cons, hrest,
        show step s pair.2 = step s pair.1 from hfirst.symm]

/-! ### Steps that may fail -/

/-- The ways to pick an input of a list: the first one, or one of the rest. -/
theorem forall_split_cons {i : ι} {is : List ι} {P : List ι → ι → List ι → Prop} :
    (∀ past j rest, i :: is = past ++ j :: rest → P past j rest) ↔
      P [] i is ∧ ∀ past j rest, is = past ++ j :: rest → P (i :: past) j rest := by
  constructor
  · intro h
    exact ⟨h [] i is rfl, fun past j rest hsplit => h (i :: past) j rest (by rw [hsplit]; rfl)⟩
  · intro ⟨hfirst, hrest⟩ past j rest hsplit
    cases past with
    | nil =>
        obtain ⟨rfl, rfl⟩ := List.cons.inj hsplit
        exact hfirst
    | cons i' past =>
        obtain ⟨rfl, htail⟩ := List.cons.inj hsplit
        exact hrest past j rest htail

/-- The same from the other end: one of the first inputs, or the last one. -/
theorem forall_split_snoc {i : ι} {is : List ι} {P : List ι → ι → Prop} :
    (∀ past j rest, is ++ [i] = past ++ j :: rest → P past j) ↔
      (∀ past j rest, is = past ++ j :: rest → P past j) ∧ P is i := by
  constructor
  · intro h
    refine ⟨fun past j rest hsplit => h past j (rest ++ [i]) ?_, h is i [] rfl⟩
    rw [hsplit, List.append_assoc, List.cons_append]
  · intro ⟨hfirst, hlast⟩ past j rest hsplit
    rcases rest.eq_nil_or_concat with rfl | ⟨rest, k, rfl⟩
    · obtain ⟨rfl, hj⟩ := List.append_inj' hsplit rfl
      obtain rfl := List.singleton_inj.mp hj
      exact hlast
    · rw [List.concat_eq_append, ← List.cons_append, ← List.append_assoc] at hsplit
      exact hfirst past j rest (List.append_inj' hsplit rfl).1

/-- The ways to cut a list in two. -/
theorem forall_cut_cons {i : ι} {is : List ι} {P : List ι → List ι → Prop} :
    (∀ past rest, i :: is = past ++ rest → P past rest) ↔
      P [] (i :: is) ∧ ∀ past rest, is = past ++ rest → P (i :: past) rest := by
  constructor
  · intro h
    exact ⟨h [] (i :: is) rfl, fun past rest hsplit => h (i :: past) rest (by rw [hsplit]; rfl)⟩
  · intro ⟨hall, hrest⟩ past rest hsplit
    cases past with
    | nil =>
        obtain rfl : i :: is = rest := hsplit
        exact hall
    | cons i' past =>
        obtain ⟨rfl, htail⟩ := List.cons.inj hsplit
        exact hrest past rest htail

/-- The place of a list that is set, or taken out. -/
theorem exists_split_getElem? {is : List ι} {n : Nat} {i : ι} (h : is[n]? = some i) :
    ∃ past rest, is = past ++ i :: rest ∧ (∀ j, is.set n j = past ++ j :: rest) ∧
      is.eraseIdx n = past ++ rest := by
  obtain ⟨hn, rfl⟩ := List.getElem?_eq_some_iff.mp h
  refine ⟨is.take n, is.drop (n + 1), ?_, fun j => ?_, List.eraseIdx_eq_take_drop_succ _ _⟩
  · rw [List.cons_getElem_drop_succ, List.take_append_drop]
  · exact List.set_eq_take_append_cons_drop.trans (if_pos hn)

theorem foldlM_cons_of_some {step : σ → ι → Option σ} {s s₁ : σ} {i : ι} (h : step s i = some s₁)
    (is : List ι) : (i :: is).foldlM step s = is.foldlM step s₁ := by
  rw [List.foldlM_cons, h]
  rfl

theorem foldlM_append_of_some {step : σ → ι → Option σ} {s s₁ : σ} {is : List ι}
    (h : is.foldlM step s = some s₁) (js : List ι) :
    (is ++ js).foldlM step s = js.foldlM step s₁ := by
  rw [List.foldlM_append, h]
  rfl

theorem foldlM_snoc (step : σ → ι → Option σ) (s : σ) (is : List ι) (i : ι) :
    (is ++ [i]).foldlM step s = (is.foldlM step s).bind fun s₁ => step s₁ i := by
  simp only [List.foldlM_append, List.foldlM_cons, List.foldlM_nil, Option.bind_eq_bind,
    Option.pure_def, Option.bind_fun_some]

/-- A run of steps that may fail is completed iff no step fails in the state reached. -/
theorem foldlM_isSome_iff {step : σ → ι → Option σ} {s : σ} {is : List ι} :
    (is.foldlM step s).isSome ↔
      ∀ past i rest s', is = past ++ i :: rest → past.foldlM step s = some s' →
        (step s' i).isSome := by
  have hswap : (∀ past i rest s', is = past ++ i :: rest → past.foldlM step s = some s' →
      (step s' i).isSome) ↔ ∀ past i rest, is = past ++ i :: rest →
        ∀ s', past.foldlM step s = some s' → (step s' i).isSome :=
    ⟨fun h past i rest hsplit s' => h past i rest s' hsplit,
      fun h past i rest s' hsplit => h past i rest hsplit s'⟩
  rw [hswap]
  clear hswap
  induction is generalizing s with
  | nil => simp
  | cons i is ih =>
      rw [forall_split_cons]
      cases hstep : step s i with
      | none =>
          refine iff_of_false (by simp [hstep]) fun h => ?_
          have hfirst := h.1 s rfl
          rw [hstep] at hfirst
          exact absurd hfirst (by simp)
      | some s₁ =>
          simp only [foldlM_cons_of_some hstep]
          refine ih.trans (and_iff_right fun s' hs' => ?_).symm
          obtain rfl := Option.some.inj hs'
          simp [hstep]

/-- **Forward simulation.** A step that may fail does not fail on related states, and leads
to states that are related again; then no run fails, and it ends where the
specification's run ends. -/
theorem foldlM_simulates {τ : Type*} {step : σ → ι → Option σ} {spec : τ → ι → τ}
    (rel : σ → τ → Prop) {is : List ι}
    (hstep : ∀ s t, ∀ i ∈ is, rel s t → ∃ s', step s i = some s' ∧ rel s' (spec t i))
    {s : σ} {t : τ} (hst : rel s t) :
    ∃ s', is.foldlM step s = some s' ∧ rel s' (is.foldl spec t) := by
  induction is generalizing s t with
  | nil => exact ⟨s, rfl, hst⟩
  | cons i is ih =>
      obtain ⟨s₁, hs₁, hrel⟩ := hstep s t i List.mem_cons_self hst
      obtain ⟨s', hs', hend⟩ := ih (fun s t j hj => hstep s t j (List.mem_cons_of_mem i hj)) hrel
      refine ⟨s', ?_, hend⟩
      rw [List.foldlM_cons, hs₁]
      exact hs'

/-- Simulation of a run that goes through, by a step that does not fail. -/
theorem foldlM_refines {τ : Type*} {step : σ → ι → Option σ} {spec : τ → ι → τ}
    (rel : σ → τ → Prop) (hstep : ∀ s t i s', rel s t → step s i = some s' → rel s' (spec t i))
    {is : List ι} {s s' : σ} {t : τ} (hst : rel s t) (hrun : is.foldlM step s = some s') :
    rel s' (is.foldl spec t) := by
  induction is generalizing s t with
  | nil =>
      obtain rfl := Option.some.inj hrun
      exact hst
  | cons i is ih =>
      rw [List.foldlM_cons] at hrun
      obtain ⟨s₁, hs₁, hrest⟩ := Option.bind_eq_some_iff.mp hrun
      exact ih (hstep s t i s₁ hst hs₁) hrest

/-- What every step keeps, a run that goes through keeps. -/
theorem foldlM_invariant {step : σ → ι → Option σ} (inv : σ → Prop)
    (hstep : ∀ s i s', inv s → step s i = some s' → inv s') {is : List ι} {s s' : σ} (hs : inv s)
    (hrun : is.foldlM step s = some s') : inv s' :=
  @foldlM_refines _ _ Unit _ (fun _ _ => ()) (fun s _ => inv s) (fun s _ i s' => hstep s i s') _ _ _
    () hs hrun

/-- **When a property holds all along a run.** Every step goes through, and keeps the property
exactly if it is allowed; then the property holds in all states of a run exactly if all steps of
the run are allowed where they are taken. -/
theorem foldlM_always_iff {step : σ → ι → Option σ} (inv good : σ → Prop) (allowed : σ → ι → Prop)
    (hstep : ∀ s i, inv s →
      ∃ s', step s i = some s' ∧ inv s' ∧ (good s → (good s' ↔ allowed s i)))
    {is : List ι} {s : σ} (hinv : inv s) (hgood : good s) :
    (∀ past rest, is = past ++ rest → ∃ s', past.foldlM step s = some s' ∧ good s') ↔
      ∀ past i rest, is = past ++ i :: rest →
        ∃ s', past.foldlM step s = some s' ∧ allowed s' i := by
  induction is generalizing s with
  | nil =>
      refine iff_of_true (fun past rest hsplit => ?_) fun past i rest hsplit => ?_
      · obtain ⟨rfl, -⟩ := List.append_eq_nil_iff.mp hsplit.symm
        exact ⟨s, rfl, hgood⟩
      · exact absurd hsplit (by simp)
  | cons i is ih =>
      obtain ⟨s₁, hs₁, hinv₁, hiff⟩ := hstep s i hinv
      rw [forall_split_cons, forall_cut_cons]
      simp only [foldlM_cons_of_some hs₁]
      constructor
      · intro ⟨_, hrest⟩
        -- the first step is allowed because the state after it is good
        obtain ⟨s', hs', hgood₁⟩ := hrest [] is rfl
        obtain rfl := Option.some.inj hs'
        exact ⟨⟨s, rfl, (hiff hgood).mp hgood₁⟩, (ih hinv₁ hgood₁).mp hrest⟩
      · intro ⟨⟨s', hs', hallowed⟩, hrest⟩
        obtain rfl := Option.some.inj hs'
        exact ⟨⟨s, rfl, hgood⟩, (ih hinv₁ ((hiff hgood).mpr hallowed)).mpr hrest⟩

/-- Steps that all go through. -/
theorem foldlM_eq_foldl {step : σ → ι → Option σ} {spec : σ → ι → σ} {is : List ι}
    (h : ∀ s, ∀ i ∈ is, step s i = some (spec s i)) (s : σ) :
    is.foldlM step s = some (is.foldl spec s) := by
  obtain ⟨s', hs', rfl⟩ := foldlM_simulates Eq
    (fun s t i hi hst => ⟨spec s i, h s i hi, by rw [hst]⟩) (rfl : s = s)
  exact hs'

end CLabs.Lib
