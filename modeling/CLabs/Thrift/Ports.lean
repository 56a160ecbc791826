import CLabs.Thrift.Calculator

/-!
# CLabs.Thrift.Ports

The calculators in Java and Python that `thrift-minimal` has beside the one in C++.

* A Java `int` wraps around. An operation that is none of the enumeration's is read as `null`; the
  `switch` on it throws, and the `default` of the source, with its `Unknown operation`, is not
  reached.
* The Python server is one of Python 2: its integers have no bounds and its division rounds down. A
  result that is no `i32` is put into the log, and throws when it is sent.
* `getStruct` without an entry returns `null` in Java and throws in Python.
* What a client gets from a handler that throws what the service does not declare, or that returns
  `null`, is made by the Thrift runtime (`Runtime`). All that is assumed of it is that the client
  does not take it for a response.

`ports_agree_iff` says for which requests they answer as the server in C++ does.
-/

namespace CLabs.Thrift

open CLabs.Lib

/-! ### The servers -/

/-- What the runtime makes of what a handler does; `ρ` is what a client can get. -/
structure Runtime (ρ : Type) where
  response : Response → ρ
  /-- For a handler that throws. -/
  thrown : ρ
  /-- For one that returns `null`. -/
  null : ρ
  response_injective : Function.Injective response
  thrown_ne : ∀ r, thrown ≠ response r
  null_ne : ∀ r, null ≠ response r

/-- What sets one server apart from another. -/
structure Port (ρ : Type) where
  runtime : Runtime ρ
  /-- The value of an operation, or what the client gets instead. -/
  compute : Work → Except ρ ℤ
  /-- What the client gets for a value. -/
  value : ℤ → ρ
  /-- What it gets for a `logid` without an entry. -/
  unknown : ρ

section

variable {ρ : Type}

/-- `CalculatorHandler`. -/
def Port.serve (p : Port ρ) (log : Log) : Request → Log × ρ
  | .ping => (log, p.runtime.response .done)
  | .add num1 num2 => (log, p.value (num1.val + num2.val))
  | .calculate logid work =>
      match p.compute work with
      | .error reply => (log, reply)
      | .ok val => (log.insert logid ⟨logid, printed val⟩, p.value val)
  | .getStruct logid =>
      (log, match log.find? logid with
        | some ss => p.runtime.response (.struct ss)
        | none => p.unknown)
  | .zip => (log, p.runtime.response .done)

def Port.serveNext (p : Port ρ) (s : Log × List ρ) (request : Request) : Log × List ρ :=
  ((p.serve s.1 request).1, s.2 ++ [(p.serve s.1 request).2])

/-- Requests one after the other: the log at the end, and what the client got. -/
def Port.serveAll (p : Port ρ) (requests : List Request) : Log × List ρ :=
  requests.foldl p.serveNext (∅, [])

/-- The choice of the operation, with the division of the language and what it does for an operation
that there is not. -/
def arithmetic (rt : Runtime ρ) (quotient : ℤ → ℤ → ℤ) (invalid : ρ) (work : Work) : Except ρ ℤ :=
  if work.op.val = 1 then .ok (work.num1.val + work.num2.val)
  else if work.op.val = 2 then .ok (work.num1.val - work.num2.val)
  else if work.op.val = 3 then .ok (work.num1.val * work.num2.val)
  else if work.op.val = 4 then
    if work.num2.val = 0 then .error (rt.response (.error ⟨work.op, ascii "Cannot divide by 0"⟩))
    else .ok (quotient work.num1.val work.num2.val)
  else .error invalid

/-- The Python server. -/
def python (rt : Runtime ρ) : Port ρ where
  runtime := rt
  compute work :=
    arithmetic rt Int.fdiv (rt.response (.error ⟨work.op, ascii "Invalid operation"⟩)) work
  value z := ((checked z).map fun val => rt.response (.value val)).getD rt.thrown
  unknown := rt.thrown

theorem bmod_bounds (z : ℤ) : -2 ^ 31 ≤ z.bmod (2 ^ 32) ∧ z.bmod (2 ^ 32) < 2 ^ 31 :=
  ⟨@Int.le_bmod z (2 ^ 32) (by decide), @Int.bmod_lt z (2 ^ 32) (by decide)⟩

/-- An `int` of Java. -/
def wrap (z : ℤ) : I32 := ⟨z.bmod (2 ^ 32), bmod_bounds z⟩

/-- The Java server. -/
def java (rt : Runtime ρ) : Port ρ where
  runtime := rt
  compute work := (arithmetic rt Int.tdiv rt.thrown work).map fun z => (wrap z).val
  value z := rt.response (.value (wrap z))
  unknown := rt.null

/-! ### Values -/

theorem wrap_val (val : I32) : wrap val.val = val := by
  have hbounds := val.property
  exact Subtype.ext (Int.bmod_eq_of_le (by omega) (by omega))

theorem python_value (rt : Runtime ρ) (val : I32) :
    (python rt).value val.val = rt.response (.value val) := by
  simp only [python, checked_val]
  rfl

theorem eq_of_python_value {rt : Runtime ρ} {z : ℤ} {val : I32}
    (h : (python rt).value z = rt.response (.value val)) : z = val.val := by
  simp only [python] at h
  cases hchecked : checked z with
  | none =>
      rw [hchecked] at h
      exact absurd h (rt.thrown_ne _)
  | some val' =>
      rw [hchecked, Option.map_some, Option.getD_some] at h
      rw [checked_eq_some_iff.mp hchecked, Response.value.inj (rt.response_injective h)]

theorem java_value (rt : Runtime ρ) (val : I32) :
    (java rt).value val.val = rt.response (.value val) := by
  simp only [java, wrap_val]

/-- When rounding down and cutting off give the same. -/
theorem fdiv_eq_tdiv_iff (a b : ℤ) : a.fdiv b = a.tdiv b ↔ b ∣ a ∨ 0 ≤ a * b := by
  rw [Int.fdiv_eq_tdiv]
  by_cases hdvd : b ∣ a
  · simp [hdvd]
  rw [if_neg hdvd]
  have ha : a ≠ 0 := fun h => hdvd (h ▸ dvd_zero b)
  rcases lt_trichotomy b 0 with hb | rfl | hb
  · rw [Int.sign_eq_neg_one_of_neg hb, if_neg hb.not_ge, if_neg hb.not_ge]
    rcases lt_or_gt_of_ne ha with ha | ha
    · refine iff_of_true ?_ (.inr (mul_pos_of_neg_of_neg ha hb).le)
      rw [if_neg ha.not_ge]
      omega
    · refine iff_of_false ?_ (not_or.mpr ⟨hdvd, (mul_neg_of_pos_of_neg ha hb).not_ge⟩)
      rw [if_pos ha.le]
      omega
  · simp
  · rw [Int.sign_eq_one_of_pos hb, if_pos hb.le, if_pos hb.le]
    rcases lt_or_gt_of_ne ha with ha | ha
    · refine iff_of_false ?_ (not_or.mpr ⟨hdvd, (mul_neg_of_neg_of_pos ha hb).not_ge⟩)
      rw [if_neg ha.not_ge]
      omega
    · refine iff_of_true ?_ (.inr (mul_pos ha hb).le)
      rw [if_pos ha.le]
      omega

/-! ### Operations

`compute` is the C++ server's. -/

/-- One of the four. -/
def Work.Known (work : Work) : Prop := 1 ≤ work.op.val ∧ work.op.val ≤ 4

/-- A division that is the same in Python and in C++. -/
def Work.SameQuotient (work : Work) : Prop :=
  work.op.val = 4 → work.num2.val ∣ work.num1.val ∨ 0 ≤ work.num1.val * work.num2.val

section

variable (rt : Runtime ρ)

/-- An operation that has a value in C++, with the division of C++. -/
theorem arithmetic_of_ok {work : Work} {val : I32} (h : compute work = some (.ok val))
    (invalid : ρ) : work.Known ∧ arithmetic rt Int.tdiv invalid work = .ok val.val := by
  unfold compute at h
  unfold arithmetic Work.Known
  split_ifs at h with h1 h2 h3 h4 h5
  · rw [if_pos h1, checked_ok_iff.mp h, h1]
    simp
  · rw [if_neg h1, if_pos h2, checked_ok_iff.mp h, h2]
    simp
  · rw [if_neg h1, if_neg h2, if_pos h3, checked_ok_iff.mp h, h3]
    simp
  · exact absurd h (by simp)
  · rw [if_neg h1, if_neg h2, if_neg h3, if_pos h4, if_neg h5, checked_ok_iff.mp h, h4]
    simp
  · exact absurd h (by simp)

/-- One that has none: the divisor is 0, or there is no such operation. -/
theorem arithmetic_of_error {work : Work} {io : InvalidOperation}
    (h : compute work = some (.error io)) (quotient : ℤ → ℤ → ℤ) (invalid : ρ) :
    (work.Known ∧ work.SameQuotient ∧
        arithmetic rt quotient invalid work = .error (rt.response (.error io))) ∨
      (¬ work.Known ∧ io = ⟨work.op, ascii "Invalid Operation"⟩ ∧
        arithmetic rt quotient invalid work = .error invalid) := by
  unfold arithmetic
  obtain ⟨hop, hzero, rfl⟩ | ⟨hop, rfl⟩ := compute_error_iff.mp h
  · refine .inl ⟨⟨by omega, by omega⟩, fun _ => .inr (by rw [hzero, mul_zero]), ?_⟩
    rw [if_neg (by omega), if_neg (by omega), if_neg (by omega), if_pos hop, if_pos hzero]
  · refine .inr ⟨fun hknown => ?_, rfl, ?_⟩
    · unfold Work.Known at hknown
      omega
    · rw [if_neg (by omega), if_neg (by omega), if_neg (by omega), if_neg (by omega)]

/-- The division of Python gives what that of C++ gives if it need not round a negative number. -/
theorem arithmetic_fdiv {work : Work} {z : ℤ} {invalid : ρ}
    (h : arithmetic rt Int.tdiv invalid work = .ok z) (invalid' : ρ) :
    ∃ z', arithmetic rt Int.fdiv invalid' work = .ok z' ∧ (z' = z ↔ work.SameQuotient) := by
  unfold arithmetic at h ⊢
  split_ifs at h with h1 h2 h3 h4 h5
  · exact ⟨z, by rw [if_pos h1, h], iff_of_true rfl fun h4 => absurd h4 (by omega)⟩
  · exact ⟨z, by rw [if_neg h1, if_pos h2, h], iff_of_true rfl fun h4 => absurd h4 (by omega)⟩
  · exact ⟨z, by rw [if_neg h1, if_neg h2, if_pos h3, h],
      iff_of_true rfl fun h4 => absurd h4 (by omega)⟩
  · obtain rfl := Except.ok.inj h
    refine ⟨_, by rw [if_neg h1, if_neg h2, if_neg h3, if_pos h4, if_neg h5], ?_⟩
    rw [fdiv_eq_tdiv_iff]
    exact ⟨fun hquotient _ => hquotient, fun hquotient => hquotient h4⟩

end

/-! ### Requests -/

/-- The log has an entry for each `logid` with a result, and no other. -/
def Tracks (log : Log) (results : Results) : Prop :=
  ∀ logid, log.find? logid = (results logid).map fun val => ⟨logid, printed val.val⟩

theorem Tracks.store {log : Log} {results : Results} (h : Tracks log results) (logid val : I32) :
    Tracks (log.insert logid ⟨logid, printed val.val⟩)
      (Function.update results logid (some val)) := by
  intro k
  by_cases hk : k = logid
  · subst hk
    rw [OrdMap.find?_insert_self, Function.update_self]
    rfl
  · rw [OrdMap.find?_insert_of_ne _ _ hk, Function.update_of_ne hk]
    exact h k

/-- A request to which a server answers as the one in C++ does, if `allowed` holds of an operation. -/
def Portable (allowed : Work → Prop) (results : Results) : Request → Prop
  | .ping => True
  | .add _ _ => True
  | .calculate _ work => allowed work
  | .getStruct logid => results logid ≠ none
  | .zip => True

/-- What has to be shown of a server. -/
structure Port.Agrees (p : Port ρ) (allowed : Work → Prop) : Prop where
  value : ∀ val : I32, p.value val.val = p.runtime.response (.value val)
  unknown : ∀ response, p.unknown ≠ p.runtime.response response
  ok : ∀ work val, Thrift.compute work = some (.ok val) →
    ∃ z, p.compute work = .ok z ∧ (allowed work → z = val.val) ∧
      (¬ allowed work → p.value z ≠ p.runtime.response (.value val))
  error : ∀ work io, Thrift.compute work = some (.error io) →
    ∃ reply, p.compute work = .error reply ∧
      (reply = p.runtime.response (.error io) ↔ allowed work)

/-- One request. -/
theorem Port.Agrees.serve {p : Port ρ} {allowed : Work → Prop} (h : p.Agrees allowed) {log : Log}
    {results results' : Results} (htracks : Tracks log results) {request : Request}
    {response : Response} (hanswer : answer results request = some (results', response)) :
    ((p.serve log request).2 = p.runtime.response response ↔ Portable allowed results request) ∧
      (Portable allowed results request → Tracks (p.serve log request).1 results') := by
  cases request with
  | ping =>
      obtain ⟨rfl, rfl⟩ := Prod.mk.inj (Option.some.inj hanswer)
      exact ⟨iff_of_true rfl trivial, fun _ => htracks⟩
  | zip =>
      obtain ⟨rfl, rfl⟩ := Prod.mk.inj (Option.some.inj hanswer)
      exact ⟨iff_of_true rfl trivial, fun _ => htracks⟩
  | add num1 num2 =>
      obtain ⟨val, hval, heq⟩ := Option.map_eq_some_iff.mp hanswer
      obtain ⟨rfl, rfl⟩ := Prod.mk.inj heq
      refine ⟨iff_of_true ?_ trivial, fun _ => htracks⟩
      rw [Port.serve, checked_eq_some_iff.mp hval]
      exact h.value val
  | calculate logid work =>
      rw [Port.serve]
      obtain ⟨val, hcompute, rfl, rfl⟩ | ⟨io, hcompute, rfl, rfl⟩ := answer_calculate_cases hanswer
      · obtain ⟨z, hz, hsame, hother⟩ := h.ok work val hcompute
        rw [hz]
        dsimp only
        by_cases hallowed : allowed work
        · rw [hsame hallowed]
          exact ⟨iff_of_true (h.value val) hallowed, fun _ => htracks.store logid val⟩
        · exact ⟨iff_of_false (hother hallowed) hallowed, fun hport => absurd hport hallowed⟩
      · obtain ⟨reply, hreply, hiff⟩ := h.error work io hcompute
        rw [hreply]
        exact ⟨hiff, fun _ => htracks⟩
  | getStruct logid =>
      obtain ⟨rfl, rfl⟩ := Prod.mk.inj (Option.some.inj hanswer)
      refine ⟨?_, fun _ => htracks⟩
      rw [Port.serve, htracks logid, Portable]
      cases results logid with
      | none => exact iff_of_false (h.unknown _) (not_not.mpr rfl)
      | some val => exact iff_of_true rfl (Option.some_ne_none val)

/-! ### Runs -/

/-- Each request is portable when it comes. -/
def AllPortable (allowed : Work → Prop) (requests : List Request) : Prop :=
  ∀ past request rest, requests = past ++ request :: rest →
    ∀ results responses, answerAll past = some (results, responses) →
      Portable allowed results request

theorem Port.serveAll_snoc (p : Port ρ) (requests : List Request) (request : Request) :
    p.serveAll (requests ++ [request]) = p.serveNext (p.serveAll requests) request :=
  List.foldl_concat _ _ _ _

theorem Port.Agrees.run {p : Port ρ} {allowed : Work → Prop} (h : p.Agrees allowed)
    {requests : List Request} {results : Results} {responses : List Response}
    (hanswers : answerAll requests = some (results, responses)) :
    ((p.serveAll requests).2 = responses.map p.runtime.response ↔ AllPortable allowed requests) ∧
      (AllPortable allowed requests → Tracks (p.serveAll requests).1 results) := by
  induction requests using List.reverseRecOn generalizing results responses with
  | nil =>
      obtain ⟨rfl, rfl⟩ := Prod.mk.inj (Option.some.inj hanswers)
      exact ⟨iff_of_true rfl fun past request rest hsplit => absurd hsplit (by simp),
        fun _ _ => rfl⟩
  | append_singleton requests request ih =>
      rw [answerAll_snoc] at hanswers
      obtain ⟨⟨results₁, responses₁⟩, hbefore, hnext⟩ := Option.bind_eq_some_iff.mp hanswers
      obtain ⟨⟨results₂, response⟩, hanswer, heq⟩ := Option.map_eq_some_iff.mp hnext
      obtain ⟨rfl, rfl⟩ := Prod.mk.inj heq
      obtain ⟨hiff, htracks⟩ := ih hbefore
      -- the last request comes with the results of those before it
      have hsplit : AllPortable allowed (requests ++ [request]) ↔
          AllPortable allowed requests ∧ Portable allowed results₁ request := by
        refine forall_split_snoc.trans (and_congr_right fun _ => ?_)
        rw [hbefore]
        simp
      rw [p.serveAll_snoc, hsplit, List.map_append, Port.serveNext]
      dsimp only
      rw [List.map_singleton, List.append_singleton_inj, hiff]
      constructor
      · exact and_congr_right fun hall => (h.serve (htracks hall) hanswer).1
      · exact fun ⟨hall, hport⟩ => (h.serve (htracks hall) hanswer).2 hport

/-! ### The two servers -/

theorem python_agrees (rt : Runtime ρ) :
    (python rt).Agrees fun work => work.Known ∧ work.SameQuotient where
  value := python_value rt
  unknown := rt.thrown_ne
  ok work val hcompute := by
    obtain ⟨hknown, htdiv⟩ := arithmetic_of_ok rt hcompute rt.thrown
    obtain ⟨z, hz, hiff⟩ := arithmetic_fdiv rt htdiv
      (rt.response (.error ⟨work.op, ascii "Invalid operation"⟩))
    refine ⟨z, hz, fun hallowed => hiff.mpr hallowed.2, fun hnot hvalue => ?_⟩
    exact hnot ⟨hknown, hiff.mp (eq_of_python_value hvalue)⟩
  error work io hcompute := by
    rcases arithmetic_of_error rt hcompute Int.fdiv
      (rt.response (.error ⟨work.op, ascii "Invalid operation"⟩)) with
      ⟨hknown, hquotient, hsame⟩ | ⟨hunknown, rfl, hinvalid⟩
    · exact ⟨_, hsame, iff_of_true rfl ⟨hknown, hquotient⟩⟩
    · refine ⟨_, hinvalid, iff_of_false (fun heq => ?_) fun hallowed => hunknown hallowed.1⟩
      have hwhy : ascii "Invalid operation" = ascii "Invalid Operation" :=
        congrArg InvalidOperation.why (Response.error.inj (rt.response_injective heq))
      exact absurd hwhy (by decide)

theorem java_agrees (rt : Runtime ρ) : (java rt).Agrees Work.Known where
  value := java_value rt
  unknown := rt.null_ne
  ok work val hcompute := by
    obtain ⟨hknown, htdiv⟩ := arithmetic_of_ok rt hcompute rt.thrown
    refine ⟨val.val, ?_, fun _ => rfl, fun hnot => absurd hknown hnot⟩
    show (arithmetic rt Int.tdiv rt.thrown work).map _ = _
    rw [htdiv, Except.map, wrap_val]
  error work io hcompute := by
    rcases arithmetic_of_error rt hcompute Int.tdiv rt.thrown with
      ⟨hknown, -, hsame⟩ | ⟨hunknown, -, hinvalid⟩
    · refine ⟨rt.response (.error io), ?_, iff_of_true rfl hknown⟩
      show (arithmetic rt Int.tdiv rt.thrown work).map _ = _
      rw [hsame]
      rfl
    · refine ⟨rt.thrown, ?_, iff_of_false (rt.thrown_ne _) hunknown⟩
      show (arithmetic rt Int.tdiv rt.thrown work).map _ = _
      rw [hinvalid]
      rfl

end

/-- **Where the servers agree.** For requests that the C++ server answers without an overflow, the
clients of the Python server get the same answers exactly if every operation is one of the four, no
division has to round a negative number, and `getStruct` is only called for a `logid` that has a
result; the clients of the Java server get them exactly if the same holds but for the divisions.
This holds for any runtimes of the two servers. -/
theorem ports_agree_iff {ρ ρ' : Type} (py : Runtime ρ) (jv : Runtime ρ') {garbage : List UInt8}
    {requests : List Request} {log : Log} {responses : List Response}
    (h : serveAll garbage requests = some (log, responses)) :
    (((python py).serveAll requests).2 = responses.map py.response ↔
        AllPortable (fun work => work.Known ∧ work.SameQuotient) requests) ∧
      (((java jv).serveAll requests).2 = responses.map jv.response ↔
        AllPortable Work.Known requests) := by
  have hagree := agree_run garbage requests
  rw [h] at hagree
  cases hanswered : answerAll requests with
  | none =>
      rw [hanswered] at hagree
      exact hagree.elim
  | some t =>
      rw [hanswered] at hagree
      obtain ⟨-, rfl⟩ := hagree
      exact ⟨((python_agrees py).run hanswered).1, ((java_agrees jv).run hanswered).1⟩

/-- 7 divided by -2. -/
def sampleDivision : Request :=
  .calculate ⟨1, by decide⟩ ⟨⟨7, by decide⟩, ⟨-2, by decide⟩, ⟨4, by decide⟩⟩

/-- A runtime that closes the connection when a handler throws, and sends a reply without a result
for `null`. -/
def sampleRuntime : Runtime (Option (Option Response)) where
  response r := some (some r)
  thrown := none
  null := some none
  response_injective _ _ h := Option.some.inj (Option.some.inj h)
  thrown_ne := by simp
  null_ne := by simp

theorem ports_agree_iff_division :
    ((java sampleRuntime).serveAll [sampleDivision]).2 = [some (some (.value ⟨-3, by decide⟩))] ∧
      ((python sampleRuntime).serveAll [sampleDivision]).2 ≠
        [some (some (.value ⟨-3, by decide⟩))] := by
  have hagree := @ports_agree_iff _ _ sampleRuntime sampleRuntime [] [sampleDivision] _
    [.value ⟨-3, by decide⟩] rfl
  refine ⟨hagree.2.mpr fun past request rest hsplit _ _ _ => ?_, fun heq => ?_⟩
  · have hmem : request ∈ [sampleDivision] := hsplit ▸ by simp
    obtain rfl := List.mem_singleton.mp hmem
    exact show _ ∧ _ by decide
  · have hallowed := hagree.1.mp heq [] sampleDivision [] rfl _ _ rfl
    exact absurd (hallowed.2 rfl) (by decide)

end CLabs.Thrift
