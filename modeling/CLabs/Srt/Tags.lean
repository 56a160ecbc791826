import CLabs.Lib.CString
import CLabs.Lib.TextEdit

/-!
# CLabs.Srt.Tags

The removal of tags in `main` of `srt.cc`, `regex_replace(content, "<[^>]+>", "")`, and what
it does to the timing lines of a subtitle file.

A match may go over the ends of lines, and the arrow of every timing line ends in `>`. So a
`<` that is not closed before a timing line takes the beginning of that line with it
(`stripTags_of_open`), and all that matters to a line is whether there is one
(`stripTags_append`). The lines may end with LF or with CR LF.
-/

namespace CLabs.Srt

open CLabs.Lib

/-! ### The pattern -/

/-- `<`. -/
def tagOpen : UInt8 := 60

/-- `>`. -/
def tagClose : UInt8 := 62

/-- The end of a line. -/
def newline : UInt8 := 10

/-- How many characters `<[^>]+>` matches at the start of a text. -/
def tagLength : List UInt8 → Nat
  | c :: d :: s =>
      if c = tagOpen ∧ d ≠ tagClose ∧ s.contains tagClose then s.idxOf tagClose + 3 else 0
  | _ => 0

/-- The content without tags. -/
def stripTags (content : List UInt8) : List UInt8 := removeMatches tagLength content

theorem tagLength_of_ne {c : UInt8} (h : c ≠ tagOpen) (s : List UInt8) :
    tagLength (c :: s) = 0 := by
  cases s with
  | nil => rfl
  | cons d s => rw [tagLength, if_neg fun hand => h hand.1]

/-- There is no match of a tag that is not closed. -/
theorem tagLength_of_notMem {c : UInt8} {s : List UInt8} (h : tagClose ∉ s) :
    tagLength (c :: s) = 0 := by
  cases s with
  | nil => rfl
  | cons d s =>
      have hs : ¬ s.contains tagClose := fun hmem =>
        h (List.mem_cons_of_mem d (List.contains_iff_mem.mp hmem))
      rw [tagLength, if_neg fun hand => hs hand.2.2]

/-- There is no match of a tag without text. -/
theorem tagLength_empty {c : UInt8} (s : List UInt8) : tagLength (c :: tagClose :: s) = 0 := by
  rw [tagLength, if_neg fun hand => hand.2.1 rfl]

theorem tagLength_tag {d : UInt8} {body : List UInt8} (hd : d ≠ tagClose) (hbody : tagClose ∉ body)
    (s : List UInt8) : tagLength (tagOpen :: d :: (body ++ tagClose :: s)) = body.length + 3 := by
  have hmem : (body ++ tagClose :: s).contains tagClose := by simp
  rw [tagLength, if_pos ⟨rfl, hd, hmem⟩, List.idxOf_append_of_notMem hbody, List.idxOf_cons_self,
    Nat.add_zero]

/-! ### What is removed -/

theorem stripTags_cons {c : UInt8} {s : List UInt8} (h : tagLength (c :: s) = 0) :
    stripTags (c :: s) = c :: stripTags s :=
  removeMatches_cons h

/-- A tag with text in it is removed. -/
theorem stripTags_tag {body : List UInt8} (hne : body ≠ []) (hbody : tagClose ∉ body)
    (s : List UInt8) : stripTags (tagOpen :: (body ++ tagClose :: s)) = stripTags s := by
  obtain ⟨d, body, rfl⟩ := List.exists_cons_of_ne_nil hne
  have hd : d ≠ tagClose := fun hd => hbody (hd ▸ List.mem_cons_self)
  have htag := tagLength_tag hd (fun hmem => hbody (List.mem_cons_of_mem d hmem)) s
  have hsplit : tagOpen :: (d :: body ++ tagClose :: s) =
      (tagOpen :: d :: (body ++ [tagClose])) ++ s := by simp
  rw [hsplit]
  refine removeMatches_append (by simp) ?_
  rw [← hsplit]
  exact htag.trans (by simp)

/-- A text without `>` is kept as it is. -/
theorem stripTags_of_notMem {s : List UInt8} (h : tagClose ∉ s) : stripTags s = s := by
  induction s with
  | nil => rfl
  | cons c s ih =>
      have hs : tagClose ∉ s := fun hmem => h (List.mem_cons_of_mem c hmem)
      rw [stripTags_cons (tagLength_of_notMem hs), ih hs]

/-- A character that starts no tag starts none when the tags after it are gone. -/
theorem tagLength_cons_stripTags {c : UInt8} {s : List UInt8} (h : tagLength (c :: s) = 0) :
    tagLength (c :: stripTags s) = 0 := by
  by_cases hc : c = tagOpen
  · subst hc
    cases s with
    | nil => rfl
    | cons d s =>
        by_cases hd : d = tagClose
        · rw [hd, stripTags_cons (tagLength_of_ne (by decide) s)]
          exact tagLength_empty _
        · -- nothing closes the tag, and nothing is taken out after it
          have hnot : tagClose ∉ d :: s := by
            intro hmem
            have hs : tagClose ∈ s := (List.mem_cons.mp hmem).resolve_left (Ne.symm hd)
            rw [tagLength, if_pos ⟨rfl, hd, List.contains_iff_mem.mpr hs⟩] at h
            exact absurd h (Nat.succ_ne_zero _)
          rw [stripTags_of_notMem hnot]
          exact h
  · exact tagLength_of_ne hc _

/-- **No tags are left.** -/
theorem stripTags_stripTags (s : List UInt8) : stripTags (stripTags s) = stripTags s :=
  removeMatches_idem (fun _ _ => tagLength_cons_stripTags) s

/-- Every `<` of the text is followed by a `>`. -/
def Closed (s : List UInt8) : Prop := ∀ a b, s = a ++ tagOpen :: b → tagClose ∈ b

theorem not_closed_iff {s : List UInt8} :
    ¬ Closed s ↔ ∃ a b, s = a ++ tagOpen :: b ∧ tagClose ∉ b := by
  simp [Closed]

theorem Closed.of_append {a b : List UInt8} (h : Closed (a ++ b)) : Closed b := by
  intro a' b' hsplit
  exact h (a ++ a') b' (by rw [hsplit, List.append_assoc])

theorem closed_of_notMem {s : List UInt8} (h : tagOpen ∉ s) : Closed s := by
  intro a b hsplit
  exact absurd (hsplit ▸ by simp) h

/-- **Tags that are closed do not reach into what follows.** -/
theorem stripTags_append {s : List UInt8} (h : Closed s) (t : List UInt8) :
    stripTags (s ++ t) = stripTags s ++ stripTags t := by
  -- over the length: a tag is removed at once
  induction hn : s.length using Nat.strong_induction_on generalizing s with
  | _ n ih =>
      cases s with
      | nil => rfl
      | cons c s =>
          have hs : Closed s := Closed.of_append (a := [c]) h
          have hkeep : ∀ (_ : tagLength (c :: (s ++ t)) = 0) (_ : tagLength (c :: s) = 0),
              stripTags (c :: s ++ t) = stripTags (c :: s) ++ stripTags t := by
            intro hlong hshort
            rw [List.cons_append, stripTags_cons hlong, stripTags_cons hshort,
              ih s.length (by rw [← hn]; simp) hs rfl]
            rfl
          by_cases hc : c = tagOpen
          · subst hc
            obtain ⟨body, rest, rfl, hbody⟩ := List.eq_append_cons_of_mem (h [] s rfl)
            cases body with
            | nil => exact hkeep (tagLength_empty _) (tagLength_empty _)
            | cons d body =>
                have hsplit : tagOpen :: (d :: body ++ tagClose :: rest) ++ t =
                    tagOpen :: (d :: body ++ tagClose :: (rest ++ t)) := by simp
                rw [hsplit, stripTags_tag (by simp) hbody, stripTags_tag (by simp) hbody]
                refine ih rest.length ?_ (Closed.of_append (a := d :: body ++ [tagClose]) ?_) rfl
                · rw [← hn]
                  simp
                  omega
                · simpa using hs
          · exact hkeep (tagLength_of_ne hc _) (tagLength_of_ne hc _)

/-- The first `<` that is not closed. -/
theorem exists_open {s : List UInt8} (h : ¬ Closed s) :
    ∃ a b, s = a ++ tagOpen :: b ∧ tagClose ∉ b ∧ Closed a := by
  obtain ⟨a, b, rfl, hb⟩ := not_closed_iff.mp h
  clear h
  induction hn : a.length using Nat.strong_induction_on generalizing a b with
  | _ n ih =>
      by_cases ha : Closed a
      · exact ⟨a, b, rfl, hb, ha⟩
      · obtain ⟨a', b', rfl, hb'⟩ := not_closed_iff.mp ha
        have hopen : tagClose ∉ b' ++ tagOpen :: b := by
          have hne : tagClose ≠ tagOpen := by decide
          simp [hb', hb, hne]
        have hfirst := ih a'.length (by rw [← hn]; simp) a' (b' ++ tagOpen :: b) hopen rfl
        simpa using hfirst

/-- **A tag that is not closed ends with the next `>`.** -/
theorem stripTags_of_open {s t : List UInt8} (h : ¬ Closed s) {u : List UInt8} (hu : tagClose ∉ u)
    (hne : u ≠ []) :
    ∃ a b, s = a ++ tagOpen :: b ∧ stripTags s = stripTags a ++ tagOpen :: b ∧
      stripTags (s ++ (u ++ tagClose :: t)) = stripTags a ++ stripTags t := by
  obtain ⟨a, b, rfl, hb, ha⟩ := exists_open h
  have hopen : tagClose ∉ tagOpen :: b := by
    have hne : tagClose ≠ tagOpen := by decide
    simp [hb, hne]
  have hbody : tagClose ∉ b ++ u := by simp [hb, hu]
  refine ⟨a, b, rfl, ?_, ?_⟩
  · rw [stripTags_append ha, stripTags_of_notMem hopen]
  · have hsplit : a ++ tagOpen :: b ++ (u ++ tagClose :: t) =
        a ++ tagOpen :: (b ++ u ++ tagClose :: t) := by simp
    rw [hsplit, stripTags_append ha, stripTags_tag (by simp [hne]) hbody]

/-! ### Timing lines -/

/-- A character at a place of the form: any digit for a `0`, otherwise the character itself. -/
def Fits (place c : UInt8) : Prop := if place = 48 then 48 ≤ c ∧ c ≤ 57 else c = place

instance instDecidableFits (place c : UInt8) : Decidable (Fits place c) :=
  inferInstanceAs (Decidable (if place = 48 then 48 ≤ c ∧ c ≤ 57 else c = place))

/-- `HH:MM:SS,mmm`. -/
def IsTime (t : List UInt8) : Prop := List.Forall₂ Fits (ascii "00:00:00,000") t

/-- The carriage return of a line that ends with CR LF, as those of `test.srt` do. -/
def carriageReturn : UInt8 := 13

/-- What stands between the text of a line and its newline. -/
def LineEnd (cr : List UInt8) : Prop := cr = [] ∨ cr = [carriageReturn]

/-- `HH:MM:SS,mmm --> HH:MM:SS,mmm`, in a file with either kind of line ends. -/
def TimingLine (l : List UInt8) : Prop :=
  ∃ start stop cr, IsTime start ∧ IsTime stop ∧ LineEnd cr ∧
    l = start ++ ascii " --> " ++ stop ++ cr

example : TimingLine (ascii "00:00:08,301 --> 00:00:12,071\r") :=
  ⟨ascii "00:00:08,301", ascii "00:00:12,071", [carriageReturn], by unfold IsTime; decide,
    by unfold IsTime; decide, Or.inr rfl, by decide⟩

/-- Neither a bracket nor the end of a line. -/
def Plain (c : UInt8) : Prop := c ≠ tagOpen ∧ c ≠ tagClose ∧ c ≠ newline

instance instDecidablePlain (c : UInt8) : Decidable (Plain c) :=
  inferInstanceAs (Decidable (_ ∧ _ ∧ _))

/-- Texts of such characters have no bracket. -/
theorem closed_of_plain {s : List UInt8} (h : ∀ c ∈ s, Plain c) : Closed s :=
  closed_of_notMem fun hmem => (h _ hmem).1 rfl

theorem tagClose_notMem_of_plain {s : List UInt8} (h : ∀ c ∈ s, Plain c) : tagClose ∉ s :=
  fun hmem => (h _ hmem).2.1 rfl

theorem stripTags_of_plain {s : List UInt8} (h : ∀ c ∈ s, Plain c) : stripTags s = s :=
  stripTags_of_notMem (tagClose_notMem_of_plain h)

theorem plain_of_fits {place c : UInt8} (hplace : Plain place) (h : Fits place c) : Plain c := by
  unfold Fits at h
  split_ifs at h
  · refine ⟨?_, ?_, ?_⟩
    · rintro rfl
      exact absurd h.2 (by decide)
    · rintro rfl
      exact absurd h.2 (by decide)
    · rintro rfl
      exact absurd h.1 (by decide)
  · exact h ▸ hplace

theorem plain_of_forall₂ {form t : List UInt8} (hform : ∀ place ∈ form, Plain place)
    (h : List.Forall₂ Fits form t) : ∀ c ∈ t, Plain c := by
  induction h with
  | nil => intro c hc; exact absurd hc List.not_mem_nil
  | cons hfits _ ih =>
      intro c hc
      rcases List.mem_cons.mp hc with rfl | hc
      · exact plain_of_fits (hform _ List.mem_cons_self) hfits
      · exact ih (fun place hplace => hform place (List.mem_cons_of_mem _ hplace)) c hc

theorem IsTime.plain {t : List UInt8} (h : IsTime t) : ∀ c ∈ t, Plain c :=
  plain_of_forall₂ (by simp [ascii, Plain, tagOpen, tagClose, newline]) h

theorem LineEnd.plain {cr : List UInt8} (h : LineEnd cr) : ∀ c ∈ cr, Plain c := by
  rcases h with rfl | rfl
  · simp
  · simp [carriageReturn, Plain, tagOpen, tagClose, newline]

/-- The one bracket of a timing line is the end of its arrow. -/
theorem TimingLine.split {l : List UInt8} (h : TimingLine l) :
    ∃ u t, l = u ++ tagClose :: t ∧ u ≠ [] ∧ (∀ c ∈ u, Plain c) ∧ ∀ c ∈ t, Plain c := by
  obtain ⟨start, stop, cr, hstart, hstop, hcr, rfl⟩ := h
  have harrow : (∀ c ∈ ascii " --", Plain c) ∧ ∀ c ∈ ascii " ", Plain c := by
    simp [ascii, Plain, tagOpen, tagClose, newline]
  refine ⟨start ++ ascii " --", ascii " " ++ (stop ++ cr), ?_, by simp [ascii], ?_, ?_⟩
  · rw [List.append_assoc, List.append_assoc, List.append_assoc]
    rfl
  · exact List.forall_mem_append.mpr ⟨hstart.plain, harrow.1⟩
  · exact List.forall_mem_append.mpr
      ⟨harrow.2, List.forall_mem_append.mpr ⟨hstop.plain, hcr.plain⟩⟩

theorem TimingLine.closed {l : List UInt8} (h : TimingLine l) : Closed l := by
  obtain ⟨u, t, rfl, -, hu, ht⟩ := h.split
  refine closed_of_notMem fun hmem => ?_
  rcases List.mem_append.mp hmem with hmem | hmem
  · exact (hu _ hmem).1 rfl
  · rcases List.mem_cons.mp hmem with heq | hmem
    · exact absurd heq (by decide)
    · exact (ht _ hmem).1 rfl

/-- A timing line is no tag and is kept. -/
theorem TimingLine.stripTags_eq {l : List UInt8} (h : TimingLine l) : stripTags l = l := by
  obtain ⟨u, t, rfl, -, hu, ht⟩ := h.split
  rw [stripTags_append (closed_of_plain hu), stripTags_of_plain hu,
    stripTags_cons (tagLength_of_ne (by decide) t), stripTags_of_plain ht]

theorem Closed.of_append_newline {s : List UInt8} (h : Closed (s ++ [newline])) : Closed s := by
  intro a b hsplit
  have hmem := h a (b ++ [newline]) (by rw [hsplit]; simp)
  rcases List.mem_append.mp hmem with hmem | hmem
  · exact hmem
  · exact absurd (List.mem_singleton.mp hmem) (by decide)

theorem stripTags_newline (s : List UInt8) :
    stripTags (newline :: s) = newline :: stripTags s :=
  stripTags_cons (tagLength_of_ne (by decide) s)

/-- A timing line before which all tags are closed stays where it is. -/
theorem lineAt_stripTags {s before l after : List UInt8} (hline : LineAt newline s before l after)
    (htiming : TimingLine l) (hclosed : Closed before) :
    LineAt newline (stripTags s) (stripTags before) l (stripTags after) where
  text := by
    rw [hline.text, stripTags_append hclosed, stripTags_append htiming.closed,
      htiming.stripTags_eq]
  starts := by
    rcases hline.starts with rfl | ⟨t, rfl⟩
    · exact Or.inl rfl
    · refine Or.inr ⟨stripTags t, ?_⟩
      rw [stripTags_append hclosed.of_append_newline]
      rfl
  ends := by
    rcases hline.ends with rfl | ⟨t, rfl⟩
    · exact Or.inl rfl
    · exact Or.inr ⟨stripTags t, stripTags_newline t⟩
  single := hline.single

/-- One before which a tag is open is not there any more. -/
theorem not_lineAt_stripTags {s before l after : List UInt8}
    (hline : LineAt newline s before l after) (htiming : TimingLine l) (hopen : ¬ Closed before) :
    ¬ LineAt newline (stripTags s) (stripTags before) l (stripTags after) := by
  intro hkept
  obtain ⟨u, t, rfl, hne, hu, ht⟩ := htiming.split
  obtain ⟨a, b, rfl, hbefore, hstrip⟩ :=
    stripTags_of_open (t := t ++ after) hopen (tagClose_notMem_of_plain hu) hne
  have ht' : stripTags (t ++ after) = t ++ stripTags after := by
    rw [stripTags_append (closed_of_plain ht), stripTags_of_plain ht]
  -- the text has lost more than it may have
  have hlen := congrArg List.length hkept.text
  rw [hline.text, hbefore, List.append_assoc u, List.cons_append, hstrip, ht'] at hlen
  simp only [List.length_append, List.length_cons] at hlen
  omega

/-- **Which timing lines are kept.** All of them stay where they are exactly if no tag is
open before any of them; and then each is still a line of the content. -/
theorem timing_lines_kept_iff (s : List UInt8) :
    ((∀ before l after, LineAt newline s before l after → TimingLine l →
        LineAt newline (stripTags s) (stripTags before) l (stripTags after)) ↔
      ∀ before l after, LineAt newline s before l after → TimingLine l → Closed before) ∧
    ((∀ before l after, LineAt newline s before l after → TimingLine l → Closed before) →
      ∀ l, IsLine newline s l → TimingLine l → IsLine newline (stripTags s) l) := by
  refine ⟨⟨?_, ?_⟩, ?_⟩
  · intro h before l after hline htiming
    by_contra hopen
    exact not_lineAt_stripTags hline htiming hopen (h before l after hline htiming)
  · intro h before l after hline htiming
    exact lineAt_stripTags hline htiming (h before l after hline htiming)
  · rintro h l ⟨before, after, hline⟩ htiming
    exact ⟨_, _, lineAt_stripTags hline htiming (h before l after hline htiming)⟩

/-- The second cue of a file in which the first says `I <3 you`. -/
def secondCue : List UInt8 := ascii "00:00:36,929 --> 00:00:38,261"

/-- The file. -/
def heartFile : List UInt8 :=
  ascii "1\n00:00:08,301 --> 00:00:12,071\nI <3 you\n\n2" ++ [newline] ++
    (secondCue ++ ascii "\nPeter...")

theorem stripTags_heartFile :
    stripTags heartFile =
      ascii "1\n00:00:08,301 --> 00:00:12,071\nI  00:00:38,261\nPeter..." := by
  decide

/-- It loses its second timing line. -/
theorem heartFile_loses_cue :
    TimingLine secondCue ∧ IsLine newline heartFile secondCue ∧
      ¬ IsLine newline (stripTags heartFile) secondCue := by
  have htiming : TimingLine secondCue :=
    ⟨ascii "00:00:36,929", ascii "00:00:38,261", [], by unfold IsTime; decide,
      by unfold IsTime; decide, Or.inl rfl, by decide⟩
  refine ⟨htiming, ⟨_, _, rfl, Or.inr ⟨_, rfl⟩, Or.inr ⟨_, rfl⟩, by decide⟩, fun hline => ?_⟩
  rw [stripTags_heartFile] at hline
  exact absurd hline.isInfix (by decide)

end CLabs.Srt
