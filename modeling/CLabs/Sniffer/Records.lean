import CLabs.Sniffer.Segmentation

/-!
# CLabs.Sniffer.Records

**What a record is made of.** `http_inspect` looks for a mark and for a blank line after it, and
makes a record of the text from the mark on. Two things go wrong in this:

* The marks are looked for one after the other, each in the whole payload. A mark that is tried
  earlier and occurs anywhere before a blank line is taken for the method, whatever the payload
  starts with (`method_recorded_iff`).
* The position of the blank line is used as a length. If the mark is not at the start of the payload,
  the text goes on behind the blank line (`record_of_header_iff`).
-/

namespace CLabs.Sniffer

open CLabs.Lib CLabs.Tcp

/-- The end of the header. -/
def blankLine : StdString := lit "\r\n\r\n"

/-! ### The method -/

/-- The mark occurs in the payload, and a blank line at the same place or later. -/
def Marks (payload mark : StdString) : Prop :=
  ∃ found limit, found ≤ limit ∧ mark <+: payload.drop found ∧ blankLine <+: payload.drop limit

theorem header_isSome_iff {payload mark : StdString} (hmark : mark ≠ []) :
    (header payload mark).isSome ↔ Marks payload mark := by
  unfold header
  cases hfound : find payload mark 0 with
  | none =>
      refine iff_of_false (by simp) fun ⟨found, limit, _, hoccurs, _⟩ => ?_
      exact (find_eq_none_iff hmark).mp hfound found (Nat.zero_le _) hoccurs
  | some first =>
      obtain ⟨-, hfirst, hbefore⟩ := find_eq_some_iff.mp hfound
      dsimp only
      cases hlimit : find payload (lit "\r\n\r\n") first with
      | none =>
          refine iff_of_false (by simp) fun ⟨found, limit, hle, hoccurs, hblank⟩ => ?_
          have hfirst_le : first ≤ found := by
            by_contra hlt
            exact hbefore found (Nat.zero_le _) (not_le.mp hlt) hoccurs
          exact (find_eq_none_iff (by decide)).mp hlimit limit (hfirst_le.trans hle) hblank
      | some limit =>
          obtain ⟨⟨hle, -⟩, hblank, -⟩ := find_eq_some_iff.mp hlimit
          exact iff_of_true rfl ⟨first, limit, hle, hfirst, hblank⟩

theorem ne_nil_of_mem_methods {mark : StdString} (h : mark ∈ methods) : mark ≠ [] := by
  rintro rfl
  exact absurd h (by decide)

/-- The marks stand for different methods. -/
theorem eq_of_trim_eq {mark mark' : StdString} (h : mark ∈ methods) (h' : mark' ∈ methods)
    (htrim : trim mark = trim mark') : mark = mark' := by
  have hnodup : (methods.map trim).Nodup := by decide
  exact List.inj_on_of_nodup_map hnodup h h' htrim

/-- What a call records for a session that is not recognised yet, when the client's payload has a
request. -/
theorem httpCap_recognised (env : Env) {s : Globals} {tcp : TCPCapStream}
    (hunknown : ∀ st, s.sessions.find? (getId tcp.info) = some st → st.state = .UNKNOWN)
    {data : StdString} (h : recognise env tcp.client.payload = some data) :
    ∃ record, (httpCap env s tcp).stats = s.stats ++ [record] ∧ record.data = data := by
  obtain ⟨i, hstats, hstate, hcap⟩ := httpCap_stats env s tcp
  have hstate' : i.st.state = .UNKNOWN := by
    rw [hstate]
    cases hfind : s.sessions.find? (getId tcp.info) with
    | none => rfl
    | some st => exact hunknown st hfind
  have hpayload : tcp.client.payload ≠ [] := by
    intro hnil
    rw [hnil] at h
    exact absurd h (by simp [recognise, methods, header, find, findFrom, lit])
  refine ⟨{ i.st with data := data, state := .CLIENT }, ?_, rfl⟩
  unfold recognise at h
  rw [hcap, inspectBoth, inspectMethods_eq env hstate' hpayload, h, ← hstats]
  rfl

/-- The first mark that is found is the one recorded. -/
theorem recognise_eq_some_iff {env : Env} {payload data : StdString} :
    recognise env payload = some data ↔
      ∃ before mark after text, methods = before ++ mark :: after ∧
        (∀ mark' ∈ before, ¬ Marks payload mark') ∧ header payload mark = some text ∧
        clientRecord env mark text = data := by
  rw [recognise, List.findSome?_eq_some_iff]
  constructor
  · rintro ⟨before, mark, after, hsplit, hmark, hbefore⟩
    obtain ⟨text, htext, hrecord⟩ := Option.map_eq_some_iff.mp hmark
    refine ⟨before, mark, after, text, hsplit, fun mark' hmem hmarks => ?_, htext, hrecord⟩
    have hmethod : mark' ∈ methods := by simp [hsplit, hmem]
    rw [← header_isSome_iff (ne_nil_of_mem_methods hmethod)] at hmarks
    rw [Option.map_eq_none_iff.mp (hbefore mark' hmem)] at hmarks
    exact absurd hmarks (by simp)
  · rintro ⟨before, mark, after, text, hsplit, hbefore, htext, hrecord⟩
    refine ⟨before, mark, after, hsplit, by simp [htext, hrecord], fun mark' hmem => ?_⟩
    have hmethod : mark' ∈ methods := by simp [hsplit, hmem]
    have hnone := hbefore mark' hmem
    rw [← header_isSome_iff (ne_nil_of_mem_methods hmethod), Option.not_isSome_iff_eq_none] at hnone
    simp [hnone]

theorem takeWhile_ne_of_notMem {before after : List StdString} {mark : StdString}
    (h : mark ∉ before) : (before ++ mark :: after).takeWhile (· ≠ mark) = before := by
  rw [List.takeWhile_append_of_pos]
  · simp
  · intro mark' hmem
    exact decide_eq_true fun heq => h (heq ▸ hmem)

theorem marks_of_start {payload mark : StdString} (hstart : mark <+: payload)
    (hblank : blankLine <:+: payload) : Marks payload mark := by
  obtain ⟨front, back, rfl⟩ := hblank
  refine ⟨0, front.length, Nat.zero_le _, hstart, ?_⟩
  rw [List.append_assoc, List.drop_left]
  exact List.prefix_append _ _

/-- One of the marks is the first that is found. -/
theorem exists_first_mark {payload mark : StdString} (hmark : mark ∈ methods)
    (hmarks : Marks payload mark) :
    ∃ before first after text, methods = before ++ first :: after ∧
      (∀ mark' ∈ before, ¬ Marks payload mark') ∧ header payload first = some text := by
  cases hrecognise : recognise sampleEnv payload with
  | some data =>
      obtain ⟨before, first, after, text, hsplit, hbefore, htext, -⟩ :=
        recognise_eq_some_iff.mp hrecognise
      exact ⟨before, first, after, text, hsplit, hbefore, htext⟩
  | none =>
      have hnone := List.findSome?_eq_none_iff.mp hrecognise mark hmark
      rw [← header_isSome_iff (ne_nil_of_mem_methods hmark), Option.map_eq_none_iff.mp hnone] at hmarks
      exact absurd hmarks (by simp)

/-- **The method recorded.** A client payload starts with a mark and has a blank line. Then the
record, however it is written, has the method of that mark, iff none of the marks that are tried
before occurs in front of a blank line. -/
theorem method_recorded_iff (env : Env) {s : Globals} {tcp : TCPCapStream} {mark : StdString}
    (hunknown : ∀ st, s.sessions.find? (getId tcp.info) = some st → st.state = .UNKNOWN)
    (hmark : mark ∈ methods) (hstart : mark <+: tcp.client.payload)
    (hblank : blankLine <:+: tcp.client.payload) :
    (∀ writeJson, ∃ record uri host,
      (httpCap { env with writeJson := writeJson } s tcp).stats = s.stats ++ [record] ∧
        record.data = writeJson (lit "json")
          [(lit "method", trim mark), (lit "uri", uri), (lit "host", host)]) ↔
      ∀ mark' ∈ methods.takeWhile (· ≠ mark), ¬ Marks tcp.client.payload mark' := by
  have hmarks := marks_of_start hstart hblank
  constructor
  · intro hrecorded
    obtain ⟨before, first, after, text, hsplit, hbefore, htext⟩ := exists_first_mark hmark hmarks
    -- a writer that writes the method only
    obtain ⟨record, uri, host, hstats, hdata⟩ := hrecorded fun _ leaves =>
      (leaves.map Prod.snd).headD []
    obtain ⟨record', hstats', hdata'⟩ := httpCap_recognised _ hunknown
      (recognise_eq_some_iff.mpr ⟨before, first, after, text, hsplit, hbefore, htext, rfl⟩)
    rw [hstats] at hstats'
    obtain rfl := List.singleton_inj.mp (List.append_cancel_left hstats')
    have htrim : trim mark = trim first := hdata.symm.trans hdata'
    obtain rfl := eq_of_trim_eq hmark (by simp [hsplit]) htrim
    rwa [hsplit, takeWhile_ne_of_notMem fun hmem => hbefore mark hmem hmarks]
  · intro hearlier writeJson
    obtain ⟨before, after, hsplit, hfresh⟩ := List.eq_append_cons_of_mem hmark
    rw [hsplit, takeWhile_ne_of_notMem hfresh] at hearlier
    obtain ⟨text, htext⟩ := Option.isSome_iff_exists.mp
      ((header_isSome_iff (ne_nil_of_mem_methods hmark)).mpr hmarks)
    obtain ⟨record, hstats, hdata⟩ := httpCap_recognised { env with writeJson := writeJson } hunknown
      (recognise_eq_some_iff.mpr ⟨before, mark, after, text, hsplit, hearlier, htext, rfl⟩)
    exact ⟨record, _, _, hstats, hdata⟩

/-- The hypotheses can be met: no mark is tried before that of `GET`. -/
theorem method_recorded_iff_get :
    ∃ record uri host, (httpCap sampleEnv .init (shown 5000 (lit "GET /POST \r\n\r\n"))).stats =
        [record] ∧
      record.data = sampleEnv.writeJson (lit "json")
        [(lit "method", trim (lit "GET ")), (lit "uri", uri), (lit "host", host)] :=
  (@method_recorded_iff sampleEnv .init (shown 5000 (lit "GET /POST \r\n\r\n")) (lit "GET ")
    (fun st hst => absurd hst (by simp [Globals.init])) (by decide) (by decide) (by decide)).mpr
    (fun mark' hmem => absurd hmem (by simp [methods])) sampleEnv.writeJson

/-- **A `POST` is recorded as a `GET`**, because its URI ends in that mark. -/
theorem post_recorded_as_get :
    lit "POST " <+: lit "POST /GET \r\n\r\n" ∧
      (httpCap sampleEnv .init (shown 5000 (lit "POST /GET \r\n\r\n"))).stats.map Stream.data =
        [sampleEnv.writeJson (lit "json")
          [(lit "method", lit "GET"), (lit "uri", []), (lit "host", [])]] := by
  decide

/-! ### The text of a record -/

/-- The text that a record is made of, cut at the end of the blank line. -/
theorem substr_eq {payload : StdString} {found limit : Nat} (hle : found ≤ limit)
    (hlen : limit + 4 ≤ payload.length) :
    substr payload found limit =
      ((payload.take (limit + 4)).drop found).take limit ++
        (payload.drop (limit + 4)).take (found - 4) := by
  have hsplit : payload.drop found =
      (payload.take (limit + 4)).drop found ++ payload.drop (limit + 4) := by
    rw [← List.drop_append_of_le_length (by simp; omega), List.take_append_drop]
  rw [substr, hsplit, List.take_append, List.length_drop, List.length_take]
  congr 2
  omega

theorem header_eq {payload mark : StdString} {found limit : Nat}
    (hfound : find payload mark 0 = some found)
    (hlimit : find payload blankLine found = some limit) :
    found ≤ limit ∧ limit + 4 ≤ payload.length ∧
      header payload mark = some (substr payload found limit) := by
  obtain ⟨⟨hle, -⟩, hblank, -⟩ := find_eq_some_iff.mp hlimit
  have hlen := hblank.length_le
  rw [List.length_drop, show blankLine.length = 4 from rfl] at hlen
  refine ⟨hle, by omega, ?_⟩
  rw [header, hfound]
  dsimp only
  rw [show lit "\r\n\r\n" = blankLine from rfl, hlimit]

/-- The text of a record of a flow. -/
def flowRecord (env : Env) (flow : Flow) (mark text : StdString) : StdString :=
  match flow with
  | .CLIENT => clientRecord env mark text
  | .SERVER => serverRecord env mark text
  | .UNKNOWN => []

/-- What `http_inspect` appends for a header. -/
theorem httpInspect_header (env : Env) {i : Inspection} (hunknown : i.st.state = .UNKNOWN)
    (flow : Flow) {payload mark text : StdString} (hpayload : 0 < payload.length)
    (htext : header payload mark = some text) :
    (httpInspect env i flow payload mark).2 =
      if flow = .UNKNOWN then i else i.stat env flow (flowRecord env flow mark text) := by
  unfold httpInspect
  rw [if_pos hpayload, hunknown, htext]
  cases flow with
  | UNKNOWN => rfl
  | CLIENT => rfl
  | SERVER => rfl

/-- An environment in which a record is the text that it is made of. -/
def echoEnv : Env :=
  ⟨fun _ => ⟨0, 0⟩, fun _ data => some data, fun _ leaves => (leaves.map Prod.snd).getLastD []⟩

theorem flowRecord_echoEnv {flow : Flow} (hflow : flow ≠ .UNKNOWN) (mark text : StdString) :
    flowRecord echoEnv flow mark text = text := by
  cases flow with
  | UNKNOWN => exact absurd rfl hflow
  | CLIENT => rfl
  | SERVER => rfl

/-- **What a record depends on.** Two payloads have the mark and the blank line after it at the same
positions, and agree up to the end of the blank line. Then `http_inspect` appends the same,
whatever the regular expressions and the writer make of their texts, iff the flow is not one that
is recorded, or as many bytes behind the blank line agree as the mark is beyond position 4. -/
theorem record_of_header_iff {payload payload' mark : StdString} {found limit : Nat} (flow : Flow)
    (hfound : find payload mark 0 = some found) (hfound' : find payload' mark 0 = some found)
    (hlimit : find payload blankLine found = some limit)
    (hlimit' : find payload' blankLine found = some limit)
    (hsame : payload.take (limit + 4) = payload'.take (limit + 4)) :
    (∀ env i, i.st.state = .UNKNOWN →
      (httpInspect env i flow payload mark).2.stats =
        (httpInspect env i flow payload' mark).2.stats) ↔
      flow = .UNKNOWN ∨
        (payload.drop (limit + 4)).take (found - 4) =
          (payload'.drop (limit + 4)).take (found - 4) := by
  obtain ⟨hle, hlen, htext⟩ := header_eq hfound hlimit
  obtain ⟨-, hlen', htext'⟩ := header_eq hfound' hlimit'
  have hcut : substr payload found limit = substr payload' found limit ↔
      (payload.drop (limit + 4)).take (found - 4) =
        (payload'.drop (limit + 4)).take (found - 4) := by
    rw [substr_eq hle hlen, substr_eq hle hlen', hsame, List.append_cancel_left_eq]
  rw [← hcut]
  constructor
  · intro hall
    by_cases hflow : flow = .UNKNOWN
    · exact .inl hflow
    · have hstats := hall echoEnv ⟨newStream echoEnv 0, [], 0⟩ rfl
      rw [httpInspect_header echoEnv rfl flow (by omega) htext, if_neg hflow,
        httpInspect_header echoEnv rfl flow (by omega) htext', if_neg hflow] at hstats
      have hdata := congrArg Stream.data (List.singleton_inj.mp (List.append_cancel_left hstats))
      simp only [flowRecord_echoEnv hflow] at hdata
      exact .inr hdata
  · rintro hcases env i hunknown
    rw [httpInspect_header env hunknown flow (by omega) htext,
      httpInspect_header env hunknown flow (by omega) htext']
    rcases hcases with hflow | htexts
    · rw [if_pos hflow, if_pos hflow]
    · rw [htexts]

/-- The hypotheses can be met: a mark at the start of the payload, and two bodies. -/
theorem record_of_header_iff_start :
    find (lit "GET /\r\n\r\nabc") (lit "GET ") 0 = some 0 ∧
      ∀ env i, i.st.state = .UNKNOWN →
        (httpInspect env i .CLIENT (lit "GET /\r\n\r\nabc") (lit "GET ")).2.stats =
          (httpInspect env i .CLIENT (lit "GET /\r\n\r\nxyz") (lit "GET ")).2.stats :=
  ⟨by decide, (@record_of_header_iff (lit "GET /\r\n\r\nabc") (lit "GET /\r\n\r\nxyz") (lit "GET ") 0 5
    .CLIENT (by decide) (by decide) (by decide) (by decide) (by decide)).mpr (.inr (by decide))⟩

/-- **A line of the body is recorded.** The mark is at position 10, so the text has six bytes from
behind the blank line, and these look like a header. -/
theorem body_recorded :
    find (lit "0123456789GET /\r\n\r\nHost:a") (lit "GET ") 0 = some 10 ∧
      find (lit "0123456789GET /\r\n\r\nHost:a") blankLine 10 = some 15 ∧
      find (lit "0123456789GET /\r\n\r\nHost:b") (lit "GET ") 0 = some 10 ∧
      find (lit "0123456789GET /\r\n\r\nHost:b") blankLine 10 = some 15 ∧
      (httpInspect echoEnv ⟨newStream echoEnv 0, [], 0⟩ .CLIENT
        (lit "0123456789GET /\r\n\r\nHost:a") (lit "GET ")).2.stats.map Stream.data =
          [lit "GET /\r\n\r\nHost:a"] ∧
      (httpInspect echoEnv ⟨newStream echoEnv 0, [], 0⟩ .CLIENT
        (lit "0123456789GET /\r\n\r\nHost:b") (lit "GET ")).2.stats.map Stream.data =
          [lit "GET /\r\n\r\nHost:b"] := by
  decide

end CLabs.Sniffer
