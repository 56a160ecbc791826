import CLabs.Sniffer.Records

/-!
# CLabs.Sniffer.Cuts

**When the records do not depend on the way a stream is cut.** A request of a stream is a mark
and the text from it up to the next blank line, wherever the segments end (`leading`,
`firstRequest`). The sniffer sees single segments, and three things tie what it records to the cut:

* a request is found only if its blank line comes in the same segment;
* the position of the blank line is used as a length, so the text of a request is right only if the
  request begins its segment, and of several marks in a segment the one that is tried first is taken
  and not the one that comes first;
* the session that the first call of a connection stores has not been recognised, whatever the call
  has recorded.

`WellCut` excludes the first two. Then the first record is the first request of the stream, whatever
the cut, and two cuts give the same records iff the last does not tell them apart
(`requests_of_cuts`).
-/

namespace CLabs.Sniffer

open CLabs.Lib CLabs.Tcp

/-! ### The requests of a stream -/

/-- A mark and the text from it up to a blank line. -/
structure Request where
  mark : StdString
  text : StdString
  deriving DecidableEq

/-- The request that a text begins with. -/
def leading (text : StdString) : Option Request :=
  match methods.find? (·.isPrefixOf text) with
  | none => none
  | some mark => (find text blankLine 0).map fun limit => ⟨mark, text.take limit⟩

/-- The first request of a stream. -/
def firstRequest : StdString → Option Request
  | [] => none
  | c :: text => (leading (c :: text)).or (firstRequest text)

/-- What is recorded of a request. -/
def Request.record (env : Env) (r : Request) : StdString := clientRecord env r.mark r.text

/-- No mark begins with another one. -/
theorem eq_of_prefixes {mark mark' text : StdString} (hmark : mark ∈ methods)
    (hmark' : mark' ∈ methods) (h : mark <+: text) (h' : mark' <+: text) : mark = mark' := by
  have hdistinct : ∀ a ∈ methods, ∀ b ∈ methods, a <+: b → a = b := by decide
  rcases List.prefix_or_prefix_of_prefix h h' with hle | hle
  · exact hdistinct mark hmark mark' hmark' hle
  · exact (hdistinct mark' hmark' mark hmark hle).symm

theorem leading_eq_some_iff {text : StdString} {r : Request} :
    leading text = some r ↔ r.mark ∈ methods ∧ r.mark <+: text ∧
      ∃ limit, find text blankLine 0 = some limit ∧ r.text = text.take limit := by
  unfold leading
  constructor
  · intro h
    cases hfind : methods.find? (·.isPrefixOf text) with
    | none => simp [hfind] at h
    | some mark =>
        rw [hfind] at h
        obtain ⟨limit, hlimit, rfl⟩ := Option.map_eq_some_iff.mp h
        have hstarts := List.find?_some (p := fun mark : StdString => mark.isPrefixOf text) hfind
        exact ⟨List.mem_of_find?_eq_some hfind, List.isPrefixOf_iff_prefix.mp hstarts, limit,
          hlimit, rfl⟩
  · rintro ⟨hmark, hstarts, limit, hlimit, htext⟩
    cases hfind : methods.find? (·.isPrefixOf text) with
    | none =>
        exact absurd (List.isPrefixOf_iff_prefix.mpr hstarts)
          (List.find?_eq_none.mp hfind r.mark hmark)
    | some mark =>
        have hstarts' := List.find?_some (p := fun mark : StdString => mark.isPrefixOf text) hfind
        have hsame := eq_of_prefixes (List.mem_of_find?_eq_some hfind) hmark
          (List.isPrefixOf_iff_prefix.mp hstarts') hstarts
        dsimp only
        rw [hlimit, hsame, Option.map_some, ← htext]

/-- A mark that is followed by a blank line begins a request. -/
theorem exists_leading {text mark : StdString} (hmark : mark ∈ methods) (hstarts : mark <+: text)
    {limit : Nat} (hblank : blankLine <+: text.drop limit) :
    ∃ r, leading text = some r ∧ r.mark = mark := by
  cases hfind : find text blankLine 0 with
  | none => exact absurd hblank ((find_eq_none_iff (by decide)).mp hfind limit (Nat.zero_le _))
  | some first =>
      exact ⟨⟨mark, text.take first⟩,
        leading_eq_some_iff.mpr ⟨hmark, hstarts, first, hfind, rfl⟩, rfl⟩

theorem firstRequest_of_leading {text : StdString} {r : Request} (h : leading text = some r) :
    firstRequest text = some r := by
  cases text with
  | nil => exact absurd h (by simp [show leading [] = none by decide])
  | cons c text => rw [firstRequest, h, Option.some_or]

/-- Texts in which no request begins can be skipped. -/
theorem firstRequest_drop {text : StdString} {n : Nat}
    (h : ∀ k < n, leading (text.drop k) = none) : firstRequest text = firstRequest (text.drop n) := by
  induction n generalizing text with
  | zero => rfl
  | succ n ih =>
      cases text with
      | nil => rw [List.drop_nil]
      | cons c text =>
          rw [firstRequest, show leading (c :: text) = none from h 0 n.succ_pos, Option.none_or]
          exact ih fun k hk => h (k + 1) (Nat.succ_lt_succ hk)

/-! ### One segment -/

/-- The first `n` bytes of a text come in one segment: if a request begins in it, then the segment
begins with one that is whole, and whose mark is tried no later than that of any other. -/
def Aligned (text : StdString) (n : Nat) : Prop :=
  ∀ k < n, ∀ r ∈ leading (text.drop k), ∃ first ∈ leading text,
    first.text.length + blankLine.length ≤ n ∧ methods.idxOf first.mark ≤ methods.idxOf r.mark

instance (text : StdString) (n : Nat) : Decidable (Aligned text n) :=
  inferInstanceAs (Decidable (∀ k < n, ∀ r ∈ leading (text.drop k), ∃ first ∈ leading text,
    first.text.length + blankLine.length ≤ n ∧ methods.idxOf first.mark ≤ methods.idxOf r.mark))

section

variable {text : StdString} {n : Nat} {mark : StdString}

/-- What the sniffer takes for a request in a segment is one of the stream. -/
theorem leading_of_marks (hmark : mark ∈ methods) (h : Marks (text.take n) mark) :
    ∃ k < n, ∃ r, leading (text.drop k) = some r ∧ r.mark = mark := by
  obtain ⟨found, limit, hle, hoccurs, hblank⟩ := h
  have hfound : found < n := by
    have hlen := hoccurs.length_le
    have hpos := List.length_pos_of_ne_nil (ne_nil_of_mem_methods hmark)
    rw [List.length_drop, List.length_take] at hlen
    omega
  have hpart : ∀ m, (text.take n).drop m <+: text.drop m := fun m => by
    rw [List.drop_take]
    exact List.take_prefix _ _
  have hlimit : blankLine <+: (text.drop found).drop (limit - found) := by
    rw [List.drop_drop, Nat.add_sub_cancel' hle]
    exact hblank.trans (hpart limit)
  exact ⟨found, hfound, exists_leading hmark (hoccurs.trans (hpart found)) hlimit⟩

/-- A segment in which no request begins. -/
theorem recognise_eq_none (env : Env) (h : ∀ k < n, leading (text.drop k) = none) :
    recognise env (text.take n) = none := by
  rw [Option.eq_none_iff_forall_ne_some]
  intro data hdata
  obtain ⟨before, mark, after, header, hsplit, -, hheader, -⟩ := recognise_eq_some_iff.mp hdata
  have hmark : mark ∈ methods := by simp [hsplit]
  have hmarks := (header_isSome_iff (ne_nil_of_mem_methods hmark)).mp (by rw [hheader]; rfl)
  obtain ⟨k, hk, r, hr, -⟩ := leading_of_marks hmark hmarks
  rw [h k hk] at hr
  exact absurd hr (by simp)

/-- There is no blank line in a mark. -/
theorem length_le_of_blank {limit : Nat} (hmark : mark ∈ methods) (hstarts : mark <+: text)
    (hblank : blankLine <+: text.drop limit) : mark.length ≤ limit := by
  have hfree : ∀ mark ∈ methods, (13 : UInt8) ∉ mark := by decide
  by_contra hlt
  obtain ⟨c, rest, hrest⟩ := List.exists_cons_of_ne_nil
    (show mark.drop limit ≠ [] by rw [ne_eq, List.drop_eq_nil_iff]; omega)
  have hmem : c ∈ mark := List.mem_of_mem_drop (hrest ▸ List.mem_cons_self)
  have hdrop := hstarts.drop limit
  rw [hrest] at hdrop
  -- both begin the text from `limit` on
  have hhead : c = 13 := by
    rcases List.prefix_or_prefix_of_prefix hdrop hblank with hle | hle
    · exact (List.cons_prefix_cons.mp hle).1
    · exact (List.cons_prefix_cons.mp hle).1.symm
  exact hfree mark hmark (hhead ▸ hmem)

/-- The text of a request that begins its segment and is whole. -/
theorem header_of_leading {r : Request} (h : leading text = some r)
    (hwhole : r.text.length + blankLine.length ≤ n) : header (text.take n) r.mark = some r.text := by
  obtain ⟨hmethod, hstarts, limit, hlimit, htext⟩ := leading_eq_some_iff.mp h
  obtain ⟨⟨-, hle⟩, hblank, hbefore⟩ := find_eq_some_iff.mp hlimit
  have hlen : r.text.length = limit := by rw [htext, List.length_take, Nat.min_eq_left hle]
  rw [hlen, show blankLine.length = 4 from rfl] at hwhole
  have hfits := hblank.length_le
  rw [List.length_drop, show blankLine.length = 4 from rfl] at hfits
  have hmark : r.mark <+: text.take n := by
    have hshort := length_le_of_blank hmethod hstarts hblank
    exact List.prefix_take_iff.mpr ⟨hstarts, by omega⟩
  have hzero : find (text.take n) r.mark 0 = some 0 :=
    find_eq_some_iff.mpr ⟨⟨le_rfl, Nat.zero_le _⟩, hmark, fun q _ hq => absurd hq (Nat.not_lt_zero q)⟩
  have hend : find (text.take n) blankLine 0 = some limit := by
    refine find_eq_some_iff.mpr ⟨⟨Nat.zero_le _, ?_⟩, ?_, fun q _ hq hoccurs => ?_⟩
    · rw [List.length_take]
      omega
    · rw [List.drop_take, List.prefix_take_iff]
      exact ⟨hblank, by rw [show blankLine.length = 4 from rfl]; omega⟩
    · rw [List.drop_take] at hoccurs
      exact hbefore q (Nat.zero_le _) hq (hoccurs.trans (List.take_prefix _ _))
  rw [(header_eq hzero hend).2.2, htext, substr, List.drop_zero, List.take_take,
    Nat.min_eq_left (by omega)]

/-- **An aligned segment** is recognised as the request that it begins with. -/
theorem recognise_of_aligned (env : Env) (h : Aligned text n) (hn : 0 < n) :
    recognise env (text.take n) = (leading text).map (Request.record env) := by
  cases hlead : leading text with
  | none =>
      refine recognise_eq_none env fun k hk => ?_
      rw [Option.eq_none_iff_forall_ne_some]
      intro r hr
      obtain ⟨first, hfirst, -⟩ := h k hk r hr
      rw [hlead] at hfirst
      exact absurd hfirst (by simp)
  | some first =>
      have hfirst : ∀ k < n, ∀ r, leading (text.drop k) = some r →
          first.text.length + blankLine.length ≤ n ∧
            methods.idxOf first.mark ≤ methods.idxOf r.mark := by
        intro k hk r hr
        obtain ⟨first', hlead', hfirst'⟩ := h k hk r hr
        obtain rfl := Option.some.inj (hlead.symm.trans hlead')
        exact hfirst'
      have hmark := (leading_eq_some_iff.mp hlead).1
      have hwhole := (hfirst 0 hn first hlead).1
      obtain ⟨before, after, hsplit, hfresh⟩ := List.eq_append_cons_of_mem hmark
      refine recognise_eq_some_iff.mpr ⟨before, first.mark, after, first.text, hsplit,
        fun mark' hmem hmarks => ?_, header_of_leading hlead hwhole, rfl⟩
      -- a mark that is tried before would begin a request of the segment
      obtain ⟨k, hk, r, hr, rfl⟩ := leading_of_marks (by simp [hsplit, hmem]) hmarks
      have hle := (hfirst k hk r hr).2
      rw [hsplit, List.idxOf_append_of_notMem hfresh, List.idxOf_append_of_mem hmem,
        List.idxOf_cons_self] at hle
      exact absurd (List.idxOf_lt_length_of_mem hmem) (by omega)

/-- What comes before the rest of the stream has its first request, or none. -/
theorem firstRequest_of_aligned (h : Aligned text n) :
    firstRequest text = (leading text).or (firstRequest (text.drop n)) := by
  cases hlead : leading text with
  | some first => rw [firstRequest_of_leading hlead, Option.some_or]
  | none =>
      rw [Option.none_or]
      refine firstRequest_drop fun k hk => ?_
      rw [Option.eq_none_iff_forall_ne_some]
      intro r hr
      obtain ⟨first, hfirst, -⟩ := h k hk r hr
      rw [hlead] at hfirst
      exact absurd hfirst (by simp)

end

/-! ### Whole cuts -/

/-- Every segment is aligned in the stream that goes on with it. -/
def WellCut (cut : List StdString) : Prop :=
  ∀ before segment after, cut = before ++ segment :: after →
    Aligned (segment ++ after.flatten) segment.length

theorem wellCut_cons {segment : StdString} {cut : List StdString} :
    WellCut (segment :: cut) ↔ Aligned (segment ++ cut.flatten) segment.length ∧ WellCut cut :=
  forall_split_cons (P := fun _ segment after =>
    Aligned (segment ++ after.flatten) segment.length)

/-- **The first request that is recognised** in a well-cut stream is its first request. -/
theorem findSome?_recognise (env : Env) {cut : List StdString} (hcut : WellCut cut)
    (hne : ∀ segment ∈ cut, segment ≠ []) :
    cut.findSome? (recognise env) = (firstRequest cut.flatten).map (Request.record env) := by
  induction cut with
  | nil => rfl
  | cons segment cut ih =>
      obtain ⟨haligned, hcut⟩ := wellCut_cons.mp hcut
      have hpos := List.length_pos_of_ne_nil (hne segment List.mem_cons_self)
      have hsegment := recognise_of_aligned env haligned hpos
      have hfirst := firstRequest_of_aligned haligned
      rw [List.take_left] at hsegment
      rw [List.drop_left] at hfirst
      rw [List.findSome?_cons, hsegment, List.flatten_cons, hfirst]
      cases leading (segment ++ cut.flatten) with
      | none => exact ih hcut fun segment' hmem => hne segment' (List.mem_cons_of_mem _ hmem)
      | some first => rfl

/-- The segments of packets in order are not empty. -/
theorem InOrder.ne_nil {info : StreamInfo} {cut : List StdString} :
    ∀ {pdus : List PDU} {seq : UInt32}, InOrder info seq pdus cut → ∀ segment ∈ cut, segment ≠ [] := by
  induction cut with
  | nil => simp
  | cons bytes cut ih =>
      intro pdus seq hpdus segment hmem
      obtain ⟨pdu, rest, rfl, hsends, hrest⟩ := inOrder_cons_iff.mp hpdus
      rcases List.mem_cons.mp hmem with rfl | hmem
      · exact hsends.ne_nil
      · exact ih hrest segment hmem

section

variable {info : StreamInfo} {seq : UInt32} {s : System} {pdus pdus' : List PDU}
  {cut cut' : List StdString}

/-- What is recorded of a well-cut stream: the request that it begins with, and the first one after
the first segment. -/
theorem requests_of_wellCut {env : Env} (hclock : NoExpiry env)
    (hexpects : s.follower.Expects info seq)
    (hnew : s.globals.sessions.find? (getId info) = none) (hpdus : InOrder info seq pdus cut)
    (hcut : WellCut cut) :
    requests (getId info) (s.capturing env pdus).globals.stats =
      requests (getId info) s.globals.stats ++
        ((leading cut.flatten).toList ++ (firstRequest cut.tail.flatten).toList).map
          (Request.record env) := by
  have hne := InOrder.ne_nil hpdus
  rw [requests_capturing hclock hexpects hnew hpdus]
  congr 1
  cases cut with
  | nil => rfl
  | cons segment cut =>
      obtain ⟨haligned, hcut⟩ := wellCut_cons.mp hcut
      have hsegment := recognise_of_aligned env haligned
        (List.length_pos_of_ne_nil (hne segment List.mem_cons_self))
      rw [List.take_left] at hsegment
      have hrest := findSome?_recognise env hcut fun segment' hmem =>
        hne segment' (List.mem_cons_of_mem _ hmem)
      show (recognise env segment).toList ++ (cut.findSome? (recognise env)).toList = _
      rw [hsegment, hrest, List.map_append, List.flatten_cons, List.tail_cons]
      cases leading (segment ++ cut.flatten) <;> cases firstRequest cut.flatten <;> rfl

/-- The first request of the stream is the one that it begins with, or the first one after the first
segment. -/
theorem firstRequest_eq_or (hcut : WellCut cut) :
    firstRequest cut.flatten = (leading cut.flatten).or (firstRequest cut.tail.flatten) := by
  cases cut with
  | nil => rfl
  | cons segment cut =>
      have hfirst := firstRequest_of_aligned (wellCut_cons.mp hcut).1
      rwa [List.drop_left] at hfirst

/-! ### Telling requests apart -/

/-- An environment in which a record is the method of the request. -/
def methodEnv : Env :=
  ⟨fun _ => ⟨0, 0⟩, fun _ _ => none, fun _ leaves => (leaves.map Prod.snd).headD []⟩

theorem noExpiry_of_standing {env : Env} (h : ∀ n, env.clock n = ⟨0, 0⟩) : NoExpiry env := by
  intro m n
  rw [h, h]
  decide

/-- Requests of a stream that are recorded alike in every environment are the same. -/
theorem record_inj {r r' : Request} (hr : r.mark ∈ methods) (hr' : r'.mark ∈ methods)
    (hecho : r.record echoEnv = r'.record echoEnv)
    (hmethod : r.record methodEnv = r'.record methodEnv) : r = r' := by
  have hmark : r.mark = r'.mark := eq_of_trim_eq hr hr' hmethod
  have htext : r.text = r'.text := hecho
  cases r
  cases r'
  simp_all

theorem mark_mem_of_firstRequest {text : StdString} {r : Request} (h : firstRequest text = some r) :
    r.mark ∈ methods := by
  induction text with
  | nil => exact absurd h (by simp [firstRequest])
  | cons c text ih =>
      rw [firstRequest, Option.or_eq_some_iff] at h
      rcases h with h | ⟨-, h⟩
      · exact (leading_eq_some_iff.mp h).1
      · exact ih h

theorem firstRequest_inj {text text' : StdString}
    (hecho : (firstRequest text).map (Request.record echoEnv) =
      (firstRequest text').map (Request.record echoEnv))
    (hmethod : (firstRequest text).map (Request.record methodEnv) =
      (firstRequest text').map (Request.record methodEnv)) :
    firstRequest text = firstRequest text' := by
  cases h : firstRequest text with
  | none =>
      rw [h, Option.map_none, eq_comm, Option.map_eq_none_iff] at hecho
      exact hecho.symm
  | some r =>
      cases h' : firstRequest text' with
      | none => simp [h, h'] at hecho
      | some r' =>
          rw [h, h', Option.map_some, Option.map_some, Option.some_inj] at hecho hmethod
          rw [record_inj (mark_mem_of_firstRequest h) (mark_mem_of_firstRequest h') hecho hmethod]

/-- **Requests and segmentation.** Two cuts of one stream, sent in order on a new connection, in each
of which the segments in which requests begin start with a whole one that is tried first. Then the
first record is the first request of the stream for both. All records are the same, whatever the
regular expressions and the writer make of the requests, iff the stream does not begin with a request
or the first request after the first segment is the same. -/
theorem requests_of_cuts (hexpects : s.follower.Expects info seq)
    (hnew : s.globals.sessions.find? (getId info) = none)
    (hpdus : InOrder info seq pdus cut) (hpdus' : InOrder info seq pdus' cut')
    (hstream : cut.flatten = cut'.flatten) (hcut : WellCut cut) (hcut' : WellCut cut') :
    (∀ env, NoExpiry env → ∃ new new',
      requests (getId info) (s.capturing env pdus).globals.stats =
        requests (getId info) s.globals.stats ++ new ∧
      requests (getId info) (s.capturing env pdus').globals.stats =
        requests (getId info) s.globals.stats ++ new' ∧
      new.head? = (firstRequest cut.flatten).map (Request.record env) ∧
      new'.head? = (firstRequest cut.flatten).map (Request.record env)) ∧
    ((∀ env, NoExpiry env →
      requests (getId info) (s.capturing env pdus).globals.stats =
        requests (getId info) (s.capturing env pdus').globals.stats) ↔
      leading cut.flatten = none ∨
        firstRequest cut.tail.flatten = firstRequest cut'.tail.flatten) := by
  have hfirst := firstRequest_eq_or hcut
  have hfirst' := firstRequest_eq_or hcut'
  rw [← hstream] at hfirst'
  have hrecords : ∀ env, NoExpiry env → _ := fun env hclock =>
    requests_of_wellCut hclock hexpects hnew hpdus hcut
  have hrecords' : ∀ env, NoExpiry env → _ := fun env hclock =>
    requests_of_wellCut hclock hexpects hnew hpdus' hcut'
  rw [← hstream] at hrecords'
  have hhead : ∀ (env : Env) (a b : Option Request),
      ((a.toList ++ b.toList).map (Request.record env)).head? = (a.or b).map (Request.record env) := by
    intro env a b
    cases a <;> cases b <;> rfl
  refine ⟨fun env hclock => ⟨_, _, hrecords env hclock, hrecords' env hclock, ?_, ?_⟩, ?_⟩
  · rw [hhead, ← hfirst]
  · rw [hhead, ← hfirst']
  · cases hlead : leading cut.flatten with
    | none =>
        refine iff_of_true (fun env hclock => ?_) (Or.inl rfl)
        rw [hlead, Option.none_or] at hfirst hfirst'
        rw [hrecords env hclock, hrecords' env hclock, ← hfirst, ← hfirst']
    | some first =>
        have hlater : ∀ env, NoExpiry env →
            (requests (getId info) (s.capturing env pdus).globals.stats =
                requests (getId info) (s.capturing env pdus').globals.stats ↔
              (firstRequest cut.tail.flatten).map (Request.record env) =
                (firstRequest cut'.tail.flatten).map (Request.record env)) := by
          intro env hclock
          rw [hrecords env hclock, hrecords' env hclock, List.append_cancel_left_eq,
            List.map_append, List.map_append, List.append_cancel_left_eq]
          cases firstRequest cut.tail.flatten <;> cases firstRequest cut'.tail.flatten <;> simp
        constructor
        · intro hall
          have hecho := (hlater echoEnv (noExpiry_of_standing fun _ => rfl)).mp
            (hall echoEnv (noExpiry_of_standing fun _ => rfl))
          have hmethod := (hlater methodEnv (noExpiry_of_standing fun _ => rfl)).mp
            (hall methodEnv (noExpiry_of_standing fun _ => rfl))
          exact Or.inr (firstRequest_inj hecho hmethod)
        · rintro (hnone | hsame) env hclock
          · exact absurd hnone (by simp)
          · exact (hlater env hclock).mpr (by rw [hsame])

/-- Two bytes, a `GET` and a `POST`: the requests come in one segment or in two. -/
theorem requests_of_cuts_after :
    requests (getId ⟨1, 2, 5000, 80⟩) (sampleSystem.capturing sampleEnv
        [samplePdu 100 (lit "ab"), samplePdu 102 (lit "GET \r\n\r\nPOST \r\n\r\n")]).globals.stats =
      requests (getId ⟨1, 2, 5000, 80⟩) (sampleSystem.capturing sampleEnv
        [samplePdu 100 (lit "ab"), samplePdu 102 (lit "GET \r\n\r\n"),
          samplePdu 110 (lit "POST \r\n\r\n")]).globals.stats := by
  have htwo : InOrder ⟨1, 2, 5000, 80⟩ 100
      [samplePdu 100 (lit "ab"), samplePdu 102 (lit "GET \r\n\r\nPOST \r\n\r\n")]
      [lit "ab", lit "GET \r\n\r\nPOST \r\n\r\n"] :=
    ⟨samplePdu_sends (by decide) (by decide), samplePdu_sends (by decide) (by decide), trivial⟩
  have hthree : InOrder ⟨1, 2, 5000, 80⟩ 100
      [samplePdu 100 (lit "ab"), samplePdu 102 (lit "GET \r\n\r\n"),
        samplePdu 110 (lit "POST \r\n\r\n")]
      [lit "ab", lit "GET \r\n\r\n", lit "POST \r\n\r\n"] :=
    ⟨samplePdu_sends (by decide) (by decide), samplePdu_sends (by decide) (by decide),
      samplePdu_sends (by decide) (by decide), trivial⟩
  have hcut : WellCut [lit "ab", lit "GET \r\n\r\nPOST \r\n\r\n"] := by
    rw [wellCut_cons, wellCut_cons]
    exact ⟨by decide, by decide, by simp [WellCut]⟩
  have hcut' : WellCut [lit "ab", lit "GET \r\n\r\n", lit "POST \r\n\r\n"] := by
    rw [wellCut_cons, wellCut_cons, wellCut_cons]
    exact ⟨by decide, by decide, by decide, by simp [WellCut]⟩
  exact (requests_of_cuts sampleSystem_expects (by decide) htwo hthree (by decide) hcut hcut').2.mpr
    (Or.inl (by decide)) sampleEnv sampleEnv_noExpiry

end

end CLabs.Sniffer
