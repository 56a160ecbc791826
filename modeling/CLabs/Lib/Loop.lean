import Mathlib.Tactic

/-!
# CLabs.Lib.Loop

**Loops with a decreasing measure.** A loop body maps the loop state either to
`.yield s` (go round again) or to `.done s` (the condition failed, or a `break`).

`runLoop` executes a body for a bounded number of rounds and answers `none` when
they do not suffice. A body whose rounds all decrease a measure never needs more
rounds than the measure of its start state (`runLoop_isSome`), so `whileLoop`
can hand out the final state itself: its value involves no default and no fuel
left to the caller. Proofs about a loop go through `whileLoop_rule`, the usual
rule with an invariant and an exit condition.

A loop that ends only from some of its states is run by `runLoop` itself:
`runLoop_total` is the rule for a state from which it ends, `runLoop_diverges` the one
for a state from which it does not.
-/

namespace CLabs.Lib

variable {σ : Type*}

/-- Run `body` for at most `fuel` rounds. -/
def runLoop (body : σ → ForInStep σ) : Nat → σ → Option σ
  | 0, _ => none
  | fuel + 1, s =>
      match body s with
      | .done s' => some s'
      | .yield s' => runLoop body fuel s'

/-- Every further round of `body` decreases `μ`. -/
def Decreases (body : σ → ForInStep σ) (μ : σ → Nat) : Prop :=
  ∀ s s', body s = .yield s' → μ s' < μ s

section

variable {body : σ → ForInStep σ} {μ : σ → Nat}

theorem runLoop_isSome (h : Decreases body μ) :
    ∀ {fuel : Nat} {s : σ}, μ s < fuel → (runLoop body fuel s).isSome := by
  intro fuel
  induction fuel with
  | zero => intro s hs; omega
  | succ fuel ih =>
      intro s hs
      rw [runLoop]
      cases hb : body s with
      | done s' => rfl
      | yield s' =>
          have := h s s' hb
          exact ih (by omega)

/-- Fuel beyond what a run needs does not change its result. -/
theorem runLoop_mono :
    ∀ {fuel fuel' : Nat} {s r : σ}, runLoop body fuel s = some r → fuel ≤ fuel' →
      runLoop body fuel' s = some r := by
  intro fuel
  induction fuel with
  | zero => intro fuel' s r hr _; simp [runLoop] at hr
  | succ fuel ih =>
      intro fuel' s r hr hle
      obtain ⟨fuel', rfl⟩ : ∃ n, fuel' = n + 1 := ⟨fuel' - 1, by omega⟩
      rw [runLoop] at hr ⊢
      cases hb : body s with
      | done s' => rw [hb] at hr; exact hr
      | yield s' =>
          rw [hb] at hr
          exact ih hr (by omega)

/-- A run has one result. -/
theorem runLoop_inj {fuel fuel' : Nat} {s r r' : σ} (h : runLoop body fuel s = some r)
    (h' : runLoop body fuel' s = some r') : r = r' := by
  have hr := runLoop_mono h (le_max_left fuel fuel')
  have hr' := runLoop_mono h' (le_max_right fuel fuel')
  exact Option.some.inj (hr.symm.trans hr')

/-- **Total correctness.** An invariant whose further rounds keep it and decrease `ν`, and
which is sufficient for the exit condition at every exit, gives an end of the run. -/
theorem runLoop_total (ν : σ → Nat) (inv exit : σ → Prop)
    (hyield : ∀ s s', inv s → body s = .yield s' → inv s' ∧ ν s' < ν s)
    (hdone : ∀ s s', inv s → body s = .done s' → exit s') {s : σ} (hs : inv s) :
    ∃ fuel r, runLoop body fuel s = some r ∧ exit r := by
  induction hν : ν s using Nat.strong_induction_on generalizing s with
  | _ n ih =>
      cases hb : body s with
      | done s' => exact ⟨1, s', by rw [runLoop, hb], hdone s s' hs hb⟩
      | yield s' =>
          obtain ⟨hs', hlt⟩ := hyield s s' hs hb
          obtain ⟨fuel, r, hr, hexit⟩ := ih (ν s') (hν ▸ hlt) hs' rfl
          exact ⟨fuel + 1, r, by rw [runLoop, hb]; exact hr, hexit⟩

/-- **Divergence.** From states that all go round again the loop does not end. -/
theorem runLoop_diverges (inv : σ → Prop) (hyield : ∀ s, inv s → ∃ s', body s = .yield s' ∧ inv s')
    {s : σ} (hs : inv s) (fuel : Nat) : runLoop body fuel s = none := by
  induction fuel generalizing s with
  | zero => rfl
  | succ fuel ih =>
      obtain ⟨s', hb, hs'⟩ := hyield s hs
      rw [runLoop, hb]
      exact ih hs'

/-- The final state of the loop started in `s`. -/
def whileLoop (body : σ → ForInStep σ) (μ : σ → Nat) (h : Decreases body μ) (s : σ) : σ :=
  (runLoop body (μ s + 1) s).get (runLoop_isSome h (Nat.lt_succ_self _))

theorem runLoop_eq_whileLoop (h : Decreases body μ) (s : σ) :
    runLoop body (μ s + 1) s = some (whileLoop body μ h s) :=
  (Option.some_get _).symm

theorem whileLoop_of_done (h : Decreases body μ) {s s' : σ} (hb : body s = .done s') :
    whileLoop body μ h s = s' := by
  have hr := runLoop_eq_whileLoop h s
  rw [runLoop, hb] at hr
  exact (Option.some.inj hr).symm

theorem whileLoop_of_yield (h : Decreases body μ) {s s' : σ} (hb : body s = .yield s') :
    whileLoop body μ h s = whileLoop body μ h s' := by
  have hr := runLoop_eq_whileLoop h s
  rw [runLoop, hb] at hr
  have hr' := runLoop_mono (runLoop_eq_whileLoop h s') (Nat.succ_le_of_lt (h s s' hb))
  exact Option.some.inj (hr.symm.trans hr')

/-- **The loop rule.** An invariant kept by every further round and sufficient for
the exit condition at every exit gives the exit condition of the final state. -/
theorem whileLoop_rule (h : Decreases body μ) (inv exit : σ → Prop)
    (hyield : ∀ s s', inv s → body s = .yield s' → inv s')
    (hdone : ∀ s s', inv s → body s = .done s' → exit s')
    {s : σ} (hs : inv s) : exit (whileLoop body μ h s) := by
  induction hμ : μ s using Nat.strong_induction_on generalizing s with
  | _ n ih =>
      cases hb : body s with
      | done s' =>
          rw [whileLoop_of_done h hb]
          exact hdone s s' hs hb
      | yield s' =>
          rw [whileLoop_of_yield h hb]
          exact ih (μ s') (hμ ▸ h s s' hb) (hyield s s' hs hb) rfl

/-- The outcome of a round, with another state. -/
def mapStep {τ : Type*} (f : σ → τ) : ForInStep σ → ForInStep τ
  | .done s => .done (f s)
  | .yield s => .yield (f s)

/-- A map from the states of one loop to those of another that every round respects. -/
theorem whileLoop_map {τ : Type*} {body' : τ → ForInStep τ} {μ' : τ → Nat} (h : Decreases body μ)
    (h' : Decreases body' μ') (f : σ → τ) (hbody : ∀ s, body' (f s) = mapStep f (body s)) (s : σ) :
    whileLoop body' μ' h' (f s) = f (whileLoop body μ h s) := by
  induction hμ : μ s using Nat.strong_induction_on generalizing s with
  | _ n ih =>
      have hb' := hbody s
      cases hb : body s with
      | done s' =>
          rw [hb] at hb'
          rw [whileLoop_of_done h hb, whileLoop_of_done h' hb']
      | yield s' =>
          rw [hb] at hb'
          rw [whileLoop_of_yield h hb, whileLoop_of_yield h' hb']
          exact ih (μ s') (hμ ▸ h s s' hb) s' rfl

end

end CLabs.Lib
