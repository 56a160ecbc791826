import CLabs.Lib.CString
import CLabs.Lib.MachineInt
import CLabs.Lib.OrdMap
import CLabs.Lib.Run
import CLabs.Sniffer.Ids

/-!
# CLabs.Thrift.Calculator

`CalculatorHandler` of the C++ server in `thrift-minimal`: it calculates, and keeps the last result
for each `logid` as text.

* An `i32` carries its bounds. A result outside of them is undefined in C++, and so is the quotient
  of the least number and -1; a request that leads to one has no answer in the model.
* `work.op` comes from the client and can be any number.
* `log[logid]` puts a default value into the map if there is none.
* The threads of the pool use the map without a lock. Requests are taken one after the other here.

`responses_iff` says what the responses are, over the requests that came before and without a log:
`Work.Gives` and `Answers` use nothing of the handler. In between is a calculator that keeps numbers
and no texts, and that a look at the log does not change (`answer`).
-/

namespace CLabs.Thrift

open CLabs.Lib CLabs.Sniffer

/-! ### Data -/

/-- `InvalidOperation`. -/
structure InvalidOperation where
  what : I32
  why : List UInt8
  deriving DecidableEq

/-- `SharedStruct`. -/
structure SharedStruct where
  key : I32
  value : List UInt8
  deriving DecidableEq

/-- `Work`, without the comment. -/
structure Work where
  num1 : I32
  num2 : I32
  op : I32
  deriving DecidableEq

/-- A default constructed `SharedStruct`. -/
def SharedStruct.new : SharedStruct := ⟨I32.zero, []⟩

/-- The methods of the service, with their arguments. -/
inductive Request
  | ping
  | add (num1 num2 : I32)
  | calculate (logid : I32) (work : Work)
  | getStruct (logid : I32)
  | zip

/-- What a method gives back. -/
inductive Response
  | done
  | value (val : I32)
  | struct (ret : SharedStruct)
  | error (io : InvalidOperation)
  deriving DecidableEq

/-! ### The handler -/

/-- The `switch` of `calculate`. -/
def compute (work : Work) : Option (Except InvalidOperation I32) :=
  if work.op.val = 1 then (checked (work.num1.val + work.num2.val)).map .ok
  else if work.op.val = 2 then (checked (work.num1.val - work.num2.val)).map .ok
  else if work.op.val = 3 then (checked (work.num1.val * work.num2.val)).map .ok
  else if work.op.val = 4 then
    if work.num2.val = 0 then some (.error ⟨work.op, ascii "Cannot divide by 0"⟩)
    else (checked (work.num1.val.tdiv work.num2.val)).map .ok
  else some (.error ⟨work.op, ascii "Invalid Operation"⟩)

/-- What `"%d"` prints. -/
def printed (val : ℤ) : List UInt8 :=
  if val < 0 then 45 :: decimal val.natAbs else decimal val.natAbs

/-- `ss.value`, for a `buffer` that holds `garbage` at first. -/
def rendered (garbage : List UInt8) (val : I32) : List UInt8 :=
  cstr (vsnprintf garbage 12 (printed val.val)).1

/-- The member `log`. -/
abbrev Log : Type := OrdMap I32 SharedStruct

/-- `CalculatorHandler`: the log after a request, and the response. -/
def serve (garbage : List UInt8) (log : Log) : Request → Option (Log × Response)
  | .ping => some (log, .done)
  | .add num1 num2 => (checked (num1.val + num2.val)).map fun val => (log, .value val)
  | .calculate logid work =>
      match compute work with
      | none => none
      | some (.error io) => some (log, .error io)
      | some (.ok val) => some (log.insert logid ⟨logid, rendered garbage val⟩, .value val)
  | .getStruct logid =>
      -- `log[logid]`
      let log := if logid ∈ log then log else log.insert logid .new
      some (log, .struct ((log.find? logid).getD .new))
  | .zip => some (log, .done)

/-- A request after others, with the responses to these. -/
def serveNext (garbage : List UInt8) (s : Log × List Response) (request : Request) :
    Option (Log × List Response) :=
  (serve garbage s.1 request).map fun r => (r.1, s.2 ++ [r.2])

/-- Requests one after the other: the log at the end, and the responses. -/
def serveAll (garbage : List UInt8) (requests : List Request) : Option (Log × List Response) :=
  requests.foldlM (serveNext garbage) (∅, [])

/-! ### A calculator that keeps its results -/

/-- The last result for each `logid`. -/
abbrev Results : Type := I32 → Option I32

/-- The struct that stands for a result. -/
def structOf (logid : I32) : Option I32 → SharedStruct
  | none => .new
  | some val => ⟨logid, printed val.val⟩

/-- A request to a calculator that keeps its results. -/
def answer (results : Results) : Request → Option (Results × Response)
  | .ping => some (results, .done)
  | .add num1 num2 => (checked (num1.val + num2.val)).map fun val => (results, .value val)
  | .calculate logid work =>
      match compute work with
      | none => none
      | some (.error io) => some (results, .error io)
      | some (.ok val) => some (Function.update results logid (some val), .value val)
  | .getStruct logid => some (results, .struct (structOf logid (results logid)))
  | .zip => some (results, .done)

def answerNext (s : Results × List Response) (request : Request) :
    Option (Results × List Response) :=
  (answer s.1 request).map fun r => (r.1, s.2 ++ [r.2])

def answerAll (requests : List Request) : Option (Results × List Response) :=
  requests.foldlM answerNext (fun _ => none, [])

/-! ### The text of a result -/

/-- The longest number is as long as the buffer allows. -/
theorem length_printed_le (val : I32) : (printed val.val).length ≤ 11 := by
  have hbounds := val.property
  have hdigits : (decimal val.val.natAbs).length ≤ 10 := by
    rw [decimal, List.length_map]
    exact Nat.toDigits_length 10 _ 10 (by decide) (by omega)
  rw [printed]
  split_ifs
  · rw [List.length_cons]
    omega
  · omega

theorem zero_notMem_printed (z : ℤ) : 0 ∉ printed z := by
  have hdigits : 0 ∉ decimal z.natAbs := fun hmem =>
    absurd (isDigit_of_mem_decimal hmem) (by decide)
  rw [printed]
  split_ifs
  · simpa using hdigits
  · exact hdigits

/-- The buffer holds the whole number. -/
theorem rendered_eq (garbage : List UInt8) (val : I32) : rendered garbage val = printed val.val := by
  rw [rendered, cstr_vsnprintf (zero_notMem_printed _) _ (by decide)]
  exact List.take_of_length_le (length_printed_le val)

/-! ### The log stands for the results -/

/-- For each `logid` the log has the struct of the result. Without a result it has none, or the
default that a look at it has left. -/
def Holds (log : Log) (results : Results) : Prop :=
  ∀ logid, (log.find? logid).getD .new = structOf logid (results logid)

theorem Holds.store {log : Log} {results : Results} (h : Holds log results) (logid val : I32) :
    Holds (log.insert logid ⟨logid, printed val.val⟩) (Function.update results logid (some val)) := by
  intro k
  by_cases hk : k = logid
  · subst hk
    rw [OrdMap.find?_insert, if_pos rfl, Function.update_self]
    rfl
  · rw [OrdMap.find?_insert_of_ne _ _ hk, Function.update_of_ne hk]
    exact h k

/-- A look at the log changes nothing that can be seen. -/
theorem Holds.look {log : Log} {results : Results} (h : Holds log results) (logid : I32) :
    Holds (if logid ∈ log then log else log.insert logid .new) results := by
  split_ifs with hmem
  · exact h
  · have hnone : log.find? logid = none := by
      rw [OrdMap.mem_iff] at hmem
      simpa using hmem
    intro k
    by_cases hk : k = logid
    · subst hk
      rw [OrdMap.find?_insert, if_pos rfl, ← h k, hnone]
      rfl
    · rw [OrdMap.find?_insert_of_ne _ _ hk]
      exact h k

/-- One request: both give no answer, or the same one. -/
theorem Holds.serve {log : Log} {results : Results} (h : Holds log results)
    (garbage : List UInt8) (request : Request) :
    (serve garbage log request = none ∧ answer results request = none) ∨
      ∃ log' results' response, serve garbage log request = some (log', response) ∧
        answer results request = some (results', response) ∧ Holds log' results' := by
  cases request with
  | ping => exact .inr ⟨_, _, _, rfl, rfl, h⟩
  | zip => exact .inr ⟨_, _, _, rfl, rfl, h⟩
  | add num1 num2 =>
      rw [Thrift.serve, answer]
      cases checked (num1.val + num2.val) with
      | none => exact .inl ⟨rfl, rfl⟩
      | some val => exact .inr ⟨_, _, _, rfl, rfl, h⟩
  | calculate logid work =>
      rw [Thrift.serve, answer]
      cases compute work with
      | none => exact .inl ⟨rfl, rfl⟩
      | some result =>
          cases result with
          | error io => exact .inr ⟨_, _, _, rfl, rfl, h⟩
          | ok val =>
              refine .inr ⟨_, _, _, rfl, rfl, ?_⟩
              rw [rendered_eq]
              exact h.store logid val
  | getStruct logid =>
      have hlook := h.look logid
      refine .inr ⟨_, results, .struct (structOf logid (results logid)), ?_, rfl, hlook⟩
      rw [Thrift.serve, ← hlook logid]

/-- Both have no answer to one of the requests, or they have given the same answers. -/
def Agree : Option (Log × List Response) → Option (Results × List Response) → Prop
  | none, none => True
  | some s, some t => Holds s.1 t.1 ∧ s.2 = t.2
  | none, some _ => False
  | some _, none => False

theorem Agree.next (garbage : List UInt8) {served : Option (Log × List Response)}
    {answered : Option (Results × List Response)} (h : Agree served answered) (request : Request) :
    Agree (served.bind fun s => serveNext garbage s request)
      (answered.bind fun t => answerNext t request) := by
  cases served with
  | none =>
      cases answered with
      | none => trivial
      | some t => exact h.elim
  | some s =>
      cases answered with
      | none => exact h.elim
      | some t =>
          obtain ⟨hholds, hsame⟩ := h
          rw [Option.bind_some, Option.bind_some, serveNext, answerNext]
          obtain ⟨hserve, hanswer⟩ | ⟨log', results', response, hserve, hanswer, hholds'⟩ :=
            hholds.serve garbage request
          · rw [hserve, hanswer]
            trivial
          · rw [hserve, hanswer, hsame]
            exact ⟨hholds', rfl⟩

theorem agree_run (garbage : List UInt8) (requests : List Request) :
    Agree (serveAll garbage requests) (answerAll requests) := by
  induction requests using List.reverseRecOn with
  | nil => exact ⟨fun _ => rfl, rfl⟩
  | append_singleton requests request ih =>
      rw [serveAll, answerAll, foldlM_snoc, foldlM_snoc]
      exact ih.next garbage request

theorem answerAll_snoc (requests : List Request) (request : Request) :
    answerAll (requests ++ [request]) =
      (answerAll requests).bind fun s => answerNext s request :=
  foldlM_snoc _ _ _ _

/-! ### What is to be answered -/

/-- The value of an operation. A quotient is cut off towards zero: the rest is smaller than the
divisor and has the sign of the dividend. -/
inductive Work.Gives (work : Work) (val : ℤ) : Prop
  | add (hop : work.op.val = 1) (hval : val = work.num1.val + work.num2.val)
  | subtract (hop : work.op.val = 2) (hval : val + work.num2.val = work.num1.val)
  | multiply (hop : work.op.val = 3) (hval : val = work.num1.val * work.num2.val)
  | divide (hop : work.op.val = 4) (rest : ℤ)
      (hval : work.num1.val = work.num2.val * val + rest) (hlt : |rest| < |work.num2.val|)
      (hsign : 0 ≤ rest * work.num1.val)

/-- The last result that the requests have given for a `logid`. -/
def LastResult (past : List Request) (logid val : I32) : Prop :=
  ∃ before work after, past = before ++ .calculate logid work :: after ∧ work.Gives val.val ∧
    ∀ work', .calculate logid work' ∈ after → ∀ val' : I32, ¬ work'.Gives val'.val

/-- The response to a request that comes after others. -/
inductive Answers (past : List Request) : Request → Response → Prop
  | ping : Answers past .ping .done
  | add {num1 num2 val : I32} (hval : val.val = num1.val + num2.val) :
      Answers past (.add num1 num2) (.value val)
  | value {logid val : I32} {work : Work} (hgives : work.Gives val.val) :
      Answers past (.calculate logid work) (.value val)
  | zeroDivisor {logid : I32} {work : Work} (hop : work.op.val = 4) (hzero : work.num2.val = 0) :
      Answers past (.calculate logid work) (.error ⟨work.op, ascii "Cannot divide by 0"⟩)
  | noOperation {logid : I32} {work : Work} (hop : work.op.val < 1 ∨ 4 < work.op.val) :
      Answers past (.calculate logid work) (.error ⟨work.op, ascii "Invalid Operation"⟩)
  | stored {logid val : I32} (hlast : LastResult past logid val) :
      Answers past (.getStruct logid) (.struct ⟨logid, ascii (toString val.val)⟩)
  | unknown {logid : I32} (hnone : ∀ val, ¬ LastResult past logid val) :
      Answers past (.getStruct logid) (.struct .new)
  | zip : Answers past .zip .done

/-- The responses to a sequence of requests. -/
inductive AnsweredBy : List Request → List Response → Prop
  | nil : AnsweredBy [] []
  | snoc {past : List Request} {responses : List Response} {request : Request}
      {response : Response} (h : AnsweredBy past responses) (hlast : Answers past request response) :
      AnsweredBy (past ++ [request]) (responses ++ [response])

/-! ### The operations -/

/-- The division of C++. -/
theorem tdiv_eq_iff {a b q : ℤ} (hb : b ≠ 0) :
    a.tdiv b = q ↔ ∃ rest, a = b * q + rest ∧ |rest| < |b| ∧ 0 ≤ rest * a := by
  have hlt : |a.tmod b| < |b| := by
    have hmod := Nat.mod_lt a.natAbs (Int.natAbs_pos.mpr hb)
    rw [Int.abs_eq_natAbs, Int.abs_eq_natAbs, Int.natAbs_tmod]
    omega
  have hsign : 0 ≤ a.tmod b * a := by
    rcases le_total 0 a with ha | ha
    · exact mul_nonneg (Int.tmod_nonneg b ha) ha
    · refine mul_nonneg_of_nonpos_of_nonpos ?_ ha
      have hneg := Int.tmod_nonneg b (neg_nonneg.mpr ha)
      rw [Int.neg_tmod] at hneg
      omega
  have hsplit : a = b * a.tdiv b + a.tmod b := (Int.mul_tdiv_add_tmod a b).symm
  constructor
  · rintro rfl
    exact ⟨a.tmod b, hsplit, hlt, hsign⟩
  · rintro ⟨rest, hrest, hlt', hsign'⟩
    have hdiff : rest - a.tmod b = b * (a.tdiv b - q) := by linarith [mul_sub b (a.tdiv b) q]
    -- both rests have the sign of the dividend, so they differ by less than the divisor
    have hclose : |rest - a.tmod b| < |b| := by
      rcases lt_trichotomy a 0 with ha | rfl | ha
      · rw [abs_of_nonpos (by nlinarith)] at hlt hlt'
        rw [abs_lt]
        constructor <;> linarith [show rest ≤ 0 by nlinarith, show a.tmod b ≤ 0 by nlinarith]
      · simpa using hlt'
      · rw [abs_of_nonneg (by nlinarith)] at hlt hlt'
        rw [abs_lt]
        constructor <;> linarith [show 0 ≤ rest by nlinarith, show 0 ≤ a.tmod b by nlinarith]
    rw [hdiff, abs_mul] at hclose
    have hone : |a.tdiv b - q| < 1 := by nlinarith [abs_pos.mpr hb]
    exact sub_eq_zero.mp (Int.abs_lt_one_iff.mp hone)

theorem checked_ok_iff {z : ℤ} {val : I32} :
    (checked z).map Except.ok = some (Except.ok val : Except InvalidOperation I32) ↔
      z = val.val := by
  rw [Option.map_eq_some_iff]
  constructor
  · rintro ⟨val', hval, hok⟩
    obtain rfl := Except.ok.inj hok
    exact checked_eq_some_iff.mp hval
  · exact fun h => ⟨val, checked_eq_some_iff.mpr h, rfl⟩

theorem compute_ok_iff {work : Work} {val : I32} :
    compute work = some (.ok val) ↔ work.Gives val.val := by
  unfold compute
  constructor
  · intro h
    split_ifs at h with h1 h2 h3 h4 h5
    · exact .add h1 (checked_ok_iff.mp h).symm
    · exact .subtract h2 (by have := checked_ok_iff.mp h; omega)
    · exact .multiply h3 (checked_ok_iff.mp h).symm
    · exact absurd h (by simp)
    · obtain ⟨rest, hrest, hlt, hsign⟩ := (tdiv_eq_iff h5).mp (checked_ok_iff.mp h)
      exact .divide h4 rest hrest hlt hsign
    · exact absurd h (by simp)
  · intro h
    cases h with
    | add hop hval => rw [if_pos hop, checked_ok_iff, hval]
    | subtract hop hval =>
        rw [if_neg (by omega), if_pos hop, checked_ok_iff]
        omega
    | multiply hop hval => rw [if_neg (by omega), if_neg (by omega), if_pos hop, checked_ok_iff, hval]
    | divide hop rest hval hlt hsign =>
        have hzero : work.num2.val ≠ 0 := abs_pos.mp (lt_of_le_of_lt (abs_nonneg rest) hlt)
        rw [if_neg (by omega), if_neg (by omega), if_neg (by omega), if_pos hop, if_neg hzero,
          checked_ok_iff]
        exact (tdiv_eq_iff hzero).mpr ⟨rest, hval, hlt, hsign⟩

theorem compute_error_iff {work : Work} {io : InvalidOperation} :
    compute work = some (.error io) ↔
      (work.op.val = 4 ∧ work.num2.val = 0 ∧ io = ⟨work.op, ascii "Cannot divide by 0"⟩) ∨
        ((work.op.val < 1 ∨ 4 < work.op.val) ∧ io = ⟨work.op, ascii "Invalid Operation"⟩) := by
  unfold compute
  constructor
  · intro h
    split_ifs at h with h1 h2 h3 h4 h5
    · exact absurd h (by simp)
    · exact absurd h (by simp)
    · exact absurd h (by simp)
    · exact .inl ⟨h4, h5, (Except.error.inj (Option.some.inj h)).symm⟩
    · exact absurd h (by simp)
    · exact .inr ⟨by omega, (Except.error.inj (Option.some.inj h)).symm⟩
  · rintro (⟨hop, hzero, rfl⟩ | ⟨hop, rfl⟩)
    · rw [if_neg (by omega), if_neg (by omega), if_neg (by omega), if_pos hop, if_pos hzero]
    · rw [if_neg (by omega), if_neg (by omega), if_neg (by omega), if_neg (by omega)]

theorem printed_eq (z : ℤ) : printed z = ascii (toString z) := by
  have hdigits : ∀ n : ℕ, decimal n = ascii (Nat.repr n) := by
    intro n
    rw [decimal, ascii, Nat.repr]
    simp
  cases z with
  | ofNat n =>
      rw [printed, if_neg (by simp), hdigits]
      rfl
  | negSucc n =>
      rw [printed, if_pos (by simp), hdigits]
      show _ = ascii ("-" ++ Nat.repr (n + 1))
      rw [ascii, ascii, String.toList_append, List.map_append]
      rfl

/-! ### The results are the last ones -/

/-- One request more. -/
theorem lastResult_snoc {past : List Request} {request : Request} {logid val : I32} :
    LastResult (past ++ [request]) logid val ↔
      (∃ work, request = .calculate logid work ∧ work.Gives val.val) ∨
        (∀ work, request = .calculate logid work → ∀ val' : I32, ¬ work.Gives val'.val) ∧
          LastResult past logid val := by
  constructor
  · rintro ⟨before, work, after, hsplit, hgives, hlater⟩
    rcases List.eq_nil_or_concat' after with rfl | ⟨after, last, rfl⟩
    · obtain ⟨-, rfl⟩ := List.append_singleton_inj.mp hsplit
      exact .inl ⟨work, rfl, hgives⟩
    · rw [← List.cons_append, ← List.append_assoc] at hsplit
      obtain ⟨rfl, rfl⟩ := List.append_singleton_inj.mp hsplit
      refine .inr ⟨?_, before, work, after, rfl, hgives, fun work' hmem => ?_⟩
      · rintro work' rfl
        exact hlater work' (by simp)
      · exact hlater work' (List.mem_append_left _ hmem)
  · rintro (⟨work, rfl, hgives⟩ | ⟨hrequest, before, work, after, rfl, hgives, hlater⟩)
    · exact ⟨past, work, [], rfl, hgives, by simp⟩
    · refine ⟨before, work, after ++ [request], by simp, hgives, fun work' hmem => ?_⟩
      rcases List.mem_append.mp hmem with hmem | hmem
      · exact hlater work' hmem
      · exact hrequest work' (List.mem_singleton.mp hmem).symm

/-- The calculator has kept the last results of the requests. -/
def Recorded (results : Results) (past : List Request) : Prop :=
  ∀ logid val, results logid = some val ↔ LastResult past logid val

section

variable {results results' : Results} {past : List Request} {request : Request}
  {response : Response}

/-- A request that gives no result is not seen. -/
theorem Recorded.skip (h : Recorded results past)
    (hrequest : ∀ logid work, request = .calculate logid work → ∀ val : I32, ¬ work.Gives val.val) :
    Recorded results (past ++ [request]) := by
  intro logid val
  rw [h, lastResult_snoc]
  constructor
  · exact fun hlast => .inr ⟨hrequest logid, hlast⟩
  · rintro (⟨work, heq, hgives⟩ | ⟨-, hlast⟩)
    · exact absurd hgives (hrequest logid work heq val)
    · exact hlast

/-- One that gives a result is the last one for its `logid`. -/
theorem Recorded.store (h : Recorded results past) {logid val : I32} {work : Work}
    (hcompute : compute work = some (.ok val)) :
    Recorded (Function.update results logid (some val)) (past ++ [.calculate logid work]) := by
  have hgives := compute_ok_iff.mp hcompute
  intro k v
  rw [lastResult_snoc]
  by_cases hk : k = logid
  · subst hk
    rw [Function.update_self, Option.some_inj]
    constructor
    · rintro rfl
      exact .inl ⟨work, rfl, hgives⟩
    · rintro (⟨work', heq, hgives'⟩ | ⟨hnone, -⟩)
      · obtain ⟨-, rfl⟩ := Request.calculate.inj heq
        have hsame := hcompute.symm.trans (compute_ok_iff.mpr hgives')
        exact Except.ok.inj (Option.some.inj hsame)
      · exact absurd hgives (hnone work rfl val)
  · rw [Function.update_of_ne hk, h]
    constructor
    · exact fun hlast => .inr ⟨fun work' heq => absurd (Request.calculate.inj heq).1 (Ne.symm hk), hlast⟩
    · rintro (⟨work', heq, -⟩ | ⟨-, hlast⟩)
      · exact absurd (Request.calculate.inj heq).1 (Ne.symm hk)
      · exact hlast

/-- `calculate` keeps its result, or throws and changes nothing. -/
theorem answer_calculate_cases {logid : I32} {work : Work}
    (h : answer results (.calculate logid work) = some (results', response)) :
    (∃ val, compute work = some (.ok val) ∧
      results' = Function.update results logid (some val) ∧ response = .value val) ∨
    ∃ io, compute work = some (.error io) ∧ results' = results ∧ response = .error io := by
  rw [answer] at h
  cases hcompute : compute work with
  | none =>
      rw [hcompute] at h
      exact absurd h (by simp)
  | some result =>
      rw [hcompute] at h
      cases result with
      | ok val =>
          obtain ⟨rfl, rfl⟩ := Prod.mk.inj (Option.some.inj h)
          exact .inl ⟨val, rfl, rfl, rfl⟩
      | error io =>
          obtain ⟨rfl, rfl⟩ := Prod.mk.inj (Option.some.inj h)
          exact .inr ⟨io, rfl, rfl, rfl⟩

/-- What is to be answered to `calculate` is what the `switch` gives. -/
theorem answers_calculate_iff {logid : I32} {work : Work} :
    Answers past (.calculate logid work) response ↔
      (∃ val, compute work = some (.ok val) ∧ response = .value val) ∨
      ∃ io, compute work = some (.error io) ∧ response = .error io := by
  constructor
  · intro hanswers
    cases hanswers with
    | value hgives => exact .inl ⟨_, compute_ok_iff.mpr hgives, rfl⟩
    | zeroDivisor hop hzero => exact .inr ⟨_, compute_error_iff.mpr (.inl ⟨hop, hzero, rfl⟩), rfl⟩
    | noOperation hop => exact .inr ⟨_, compute_error_iff.mpr (.inr ⟨hop, rfl⟩), rfl⟩
  · rintro (⟨val, hcompute, rfl⟩ | ⟨io, hcompute, rfl⟩)
    · exact .value (compute_ok_iff.mp hcompute)
    · obtain ⟨hop, hzero, rfl⟩ | ⟨hop, rfl⟩ := compute_error_iff.mp hcompute
      · exact .zeroDivisor hop hzero
      · exact .noOperation hop

/-- What is to be answered to `getStruct` is what was recorded. -/
theorem Recorded.answers_getStruct_iff (h : Recorded results past) {logid : I32} :
    Answers past (.getStruct logid) response ↔
      response = .struct (structOf logid (results logid)) := by
  constructor
  · intro hanswers
    cases hanswers with
    | stored hlast => rw [(h logid _).mpr hlast, structOf, printed_eq]
    | unknown hnone =>
        have hresult : results logid = none := by
          rw [Option.eq_none_iff_forall_ne_some]
          exact fun val hval => hnone val ((h logid val).mp hval)
        rw [hresult, structOf]
  · rintro rfl
    cases hresult : results logid with
    | none =>
        refine .unknown fun val hlast => ?_
        rw [(h logid val).mpr hlast] at hresult
        exact absurd hresult (by simp)
    | some val =>
        rw [structOf, printed_eq]
        exact .stored ((h logid val).mp hresult)

/-- **One request**: what the calculator answers is what is to be answered. -/
theorem Recorded.answer_iff (h : Recorded results past) :
    (∃ results', answer results request = some (results', response)) ↔
      Answers past request response := by
  cases request with
  | ping =>
      constructor
      · rintro ⟨results', heq⟩
        obtain ⟨-, rfl⟩ := Prod.mk.inj (Option.some.inj heq)
        exact .ping
      · rintro ⟨⟩
        exact ⟨results, rfl⟩
  | zip =>
      constructor
      · rintro ⟨results', heq⟩
        obtain ⟨-, rfl⟩ := Prod.mk.inj (Option.some.inj heq)
        exact .zip
      · rintro ⟨⟩
        exact ⟨results, rfl⟩
  | add num1 num2 =>
      constructor
      · rintro ⟨results', heq⟩
        obtain ⟨val, hval, heq⟩ := Option.map_eq_some_iff.mp heq
        obtain ⟨-, rfl⟩ := Prod.mk.inj heq
        exact .add (checked_eq_some_iff.mp hval).symm
      · intro hanswers
        cases hanswers with
        | add hval =>
            refine ⟨results, ?_⟩
            rw [answer, checked_eq_some_iff.mpr hval.symm]
            rfl
  | calculate logid work =>
      rw [answers_calculate_iff]
      constructor
      · rintro ⟨results', heq⟩
        obtain ⟨val, hcompute, -, hresponse⟩ | ⟨io, hcompute, -, hresponse⟩ :=
          answer_calculate_cases heq
        · exact .inl ⟨val, hcompute, hresponse⟩
        · exact .inr ⟨io, hcompute, hresponse⟩
      · rintro (⟨val, hcompute, rfl⟩ | ⟨io, hcompute, rfl⟩)
        · rw [answer, hcompute]
          exact ⟨_, rfl⟩
        · rw [answer, hcompute]
          exact ⟨_, rfl⟩
  | getStruct logid =>
      rw [h.answers_getStruct_iff]
      constructor
      · rintro ⟨results', heq⟩
        exact (Prod.mk.inj (Option.some.inj heq)).2.symm
      · rintro rfl
        exact ⟨results, rfl⟩

theorem Recorded.next (h : Recorded results past)
    (hanswer : answer results request = some (results', response)) :
    Recorded results' (past ++ [request]) := by
  cases request with
  | calculate logid work =>
      obtain ⟨val, hcompute, rfl, -⟩ | ⟨io, hcompute, rfl, -⟩ := answer_calculate_cases hanswer
      · exact h.store hcompute
      · refine h.skip fun logid' work' heq val hgives => ?_
        obtain ⟨-, rfl⟩ := Request.calculate.inj heq
        rw [compute_ok_iff.mpr hgives] at hcompute
        exact absurd hcompute (by simp)
  | add num1 num2 =>
      obtain ⟨val, -, heq⟩ := Option.map_eq_some_iff.mp hanswer
      obtain ⟨rfl, -⟩ := Prod.mk.inj heq
      exact h.skip (by simp)
  | ping | zip | getStruct logid =>
      obtain ⟨rfl, -⟩ := Prod.mk.inj (Option.some.inj hanswer)
      exact h.skip (by simp)

end

theorem answerAll_recorded {requests : List Request} {results : Results} {responses : List Response}
    (h : answerAll requests = some (results, responses)) :
    Recorded results requests ∧ AnsweredBy requests responses := by
  induction requests using List.reverseRecOn generalizing results responses with
  | nil =>
      obtain ⟨rfl, rfl⟩ := Prod.mk.inj (Option.some.inj h)
      refine ⟨fun logid val => iff_of_false (by simp) ?_, .nil⟩
      rintro ⟨before, work, after, hsplit, -⟩
      exact absurd hsplit (by simp)
  | append_singleton requests request ih =>
      rw [answerAll_snoc] at h
      obtain ⟨⟨results₁, responses₁⟩, hbefore, hnext⟩ := Option.bind_eq_some_iff.mp h
      obtain ⟨⟨results₂, response⟩, hanswer, heq⟩ := Option.map_eq_some_iff.mp hnext
      obtain ⟨rfl, rfl⟩ := Prod.mk.inj heq
      obtain ⟨hrecorded, hpast⟩ := ih hbefore
      exact ⟨hrecorded.next hanswer, .snoc hpast (hrecorded.answer_iff.mp ⟨_, hanswer⟩)⟩

theorem answerAll_of_answeredBy {requests : List Request} {responses : List Response}
    (h : AnsweredBy requests responses) :
    ∃ results, answerAll requests = some (results, responses) := by
  induction h with
  | nil => exact ⟨_, rfl⟩
  | snoc _ hlast ih =>
      obtain ⟨results, hbefore⟩ := ih
      obtain ⟨results', hanswer⟩ := (answerAll_recorded hbefore).1.answer_iff.mpr hlast
      refine ⟨results', ?_⟩
      rw [answerAll_snoc, hbefore, Option.bind_some, answerNext, hanswer]
      rfl

/-- **The responses of the handler.** It gives these responses to a sequence of requests exactly if
they are the ones to be given: sums, differences, products and quotients that are `i32`s, the two
errors, and for `getStruct` the decimal text of the last result that was calculated for the `logid`,
or the default struct if there is none. -/
theorem responses_iff (garbage : List UInt8) (requests : List Request) (responses : List Response) :
    (serveAll garbage requests).map Prod.snd = some responses ↔ AnsweredBy requests responses := by
  have hsame : (serveAll garbage requests).map Prod.snd = (answerAll requests).map Prod.snd := by
    have hagree := agree_run garbage requests
    cases hserved : serveAll garbage requests with
    | none =>
        cases hanswered : answerAll requests with
        | none => rfl
        | some t =>
            rw [hserved, hanswered] at hagree
            exact hagree.elim
    | some s =>
        cases hanswered : answerAll requests with
        | none =>
            rw [hserved, hanswered] at hagree
            exact hagree.elim
        | some t =>
            rw [hserved, hanswered] at hagree
            rw [Option.map_some, Option.map_some, hagree.2]
  rw [hsame, Option.map_eq_some_iff]
  constructor
  · rintro ⟨⟨results, responses'⟩, hanswers, rfl⟩
    exact (answerAll_recorded hanswers).2
  · intro h
    obtain ⟨results, hanswers⟩ := answerAll_of_answeredBy h
    exact ⟨_, hanswers, rfl⟩

end CLabs.Thrift
