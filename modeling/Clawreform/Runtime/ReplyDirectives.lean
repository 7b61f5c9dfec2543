import Clawreform.Lib.Find
import Clawreform.Runtime.VisibleText

namespace Clawreform.Runtime.ReplyDirectives

open Clawreform.Lib.Text Clawreform.Lib.Find

section Chunks

/-- Consume the chunks as they come and take the final flush. -/
def feed (acc : StreamingDirectiveAccumulator) :
    List Str → Str → Str × StreamingDirectiveAccumulator
  | [], last => acc.consume last true
  | chunk :: chunks, last =>
    let p := acc.consume chunk false
    let q := feed p.2 chunks last
    (p.1 ++ q.1, q.2)

def Agrees (chunks : List Str) (last : Str) : Prop :=
  let p := feed ⟨[], .none⟩ chunks last
  let q := StreamingDirectiveAccumulator.consume ⟨[], .none⟩ (chunks.flatten ++ last) true
  p.1 = q.1 ∧ p.2.directives = q.2.directives

instance (chunks : List Str) (last : Str) : Decidable (Agrees chunks last) :=
  inferInstanceAs (Decidable (_ ∧ _))

/-- A cut of the text into `before` and `after` does no harm. The first argument counts the
characters the tag in front still takes away. A tag that the cut goes through has both its
opening brackets before the cut, and fewer than `maxPartialLen` bytes. -/
def cleanCut : Nat → Str → Str → Bool
  | skip, [], after => skip = 0 ∨ after = []
  | skip + 1, _ :: before, after => cleanCut skip before after
  | 0, c :: before, after =>
    match tagAt (c :: before ++ after) with
    | none => cleanCut 0 before after
    | some content =>
      if (tagAt (c :: before)).isSome then cleanCut (2 + byteLen content + 1) before after
      else before ≠ [] ∧ byteLen (c :: before) < maxPartialLen

/-- Every boundary between two chunks is a clean cut of the text behind `before`. -/
def cleanCuts (before : Str) : List Str → Str → Bool
  | [], _ => true
  | chunk :: chunks, last =>
    cleanCut 0 (before ++ chunk) (chunks.flatten ++ last) &&
      cleanCuts (before ++ chunk) chunks last

/-- The tags of a text take away as many characters as they are long. -/
def PlainTags (s : Str) : Prop :=
  ∀ t, t <:+ s → ∀ content, tagAt t = some content → byteLen content = content.length

end Chunks

section Tags

variable {s r content : Str} {n : Nat}

theorem tagAt_eq_some : tagAt s = some content ↔
    ∃ t n, s = '[' :: '[' :: t ∧ find "]]".toList t = some n ∧ t.take n = content := by
  simp only [tagAt, stripPrefix, Option.bind_eq_some_iff, Option.map_eq_some_iff]
  constructor
  · rintro ⟨t, ht, n, hn, hcontent⟩
    split at ht
    · rename_i hpre
      obtain ⟨t', rfl⟩ := hpre
      cases ht
      exact ⟨t', n, rfl, hn, hcontent⟩
    · cases ht
  · rintro ⟨t, n, rfl, hn, hcontent⟩
    have hpre : "[[".toList <+: '[' :: '[' :: t := ⟨t, rfl⟩
    exact ⟨t, by rw [if_pos hpre]; rfl, n, hn, hcontent⟩

theorem tagAt_append (h : tagAt s = some content) : tagAt (s ++ r) = some content := by
  obtain ⟨t, n, rfl, hn, rfl⟩ := tagAt_eq_some.mp h
  have hle := find_le hn
  apply tagAt_eq_some.mpr
  refine ⟨t ++ r, n, rfl, find_append hn, ?_⟩
  exact List.take_append_of_le_length (by omega)

theorem tagAt_of_append (h : tagAt (s ++ r) = some content) (hlen : content.length + 4 ≤ s.length) :
    tagAt s = some content := by
  obtain ⟨t, n, ht, hn, rfl⟩ := tagAt_eq_some.mp h
  have hle := find_le hn
  have htake : (t.take n).length = n := List.length_take_of_le (by omega)
  rw [htake] at hlen
  cases s with
  | nil => simp at hlen
  | cons b s =>
    cases s with
    | nil => simp at hlen
    | cons c s =>
      rw [List.cons_append, List.cons_append] at ht
      injection ht with hb ht
      injection ht with hc ht
      subst hb hc ht
      have htwo : "]]".toList.length = 2 := rfl
      simp only [List.length_cons] at hlen
      have hlonger := find_of_append hn (by omega)
      rw [tagAt_eq_some.mpr ⟨s, n, rfl, hlonger, rfl⟩, List.take_append_of_le_length (by omega)]

/-- A tag closes where the text behind its brackets closes first. -/
theorem find_of_tagAt (h : tagAt s = some content) :
    find "]]".toList s = some (content.length + 2) := by
  obtain ⟨t, n, rfl, hn, rfl⟩ := tagAt_eq_some.mp h
  have hle := find_le hn
  have hlen : (t.take n).length = n := List.length_take_of_le (by omega)
  rw [find_cons_of_not (by simp), find_cons_of_not (by simp), hn, hlen]
  rfl

end Tags

section Scan

variable {isFinal : Bool} {k : Nat} {d : DirectiveSet} {c : Char} {s r t content : Str}

def Held (s : Str) : Prop := "[[".toList <+: s ∧ byteLen s < maxPartialLen

@[simp] theorem scan_nil : scan isFinal k d [] = ([], ⟨[], d⟩) := by cases k <;> rfl

@[simp] theorem scan_succ : scan isFinal (k + 1) d (c :: s) = scan isFinal k d s := rfl

theorem scan_cons : scan isFinal 0 d (c :: s) =
    match tagAt (c :: s) with
    | some content => scan isFinal (2 + byteLen content + 1) (parseTag d content) s
    | none =>
      if "[[".toList <+: c :: s ∧ isFinal = false ∧ byteLen (c :: s) < maxPartialLen then
        ([], ⟨c :: s, d⟩)
      else (c :: (scan isFinal 0 d s).1, (scan isFinal 0 d s).2) := rfl

theorem scan_of_tag (h : tagAt (c :: s) = some content) :
    scan isFinal 0 d (c :: s) =
      scan isFinal (2 + byteLen content + 1) (parseTag d content) s := by
  rw [scan_cons, h]

theorem scan_of_held (h : tagAt (c :: s) = none) (hheld : Held (c :: s)) :
    scan false 0 d (c :: s) = ([], ⟨c :: s, d⟩) := by
  rw [scan_cons, h]
  exact if_pos ⟨hheld.1, rfl, hheld.2⟩

theorem scan_of_char (h : tagAt (c :: s) = none) (hnot : isFinal = false → ¬ Held (c :: s)) :
    scan isFinal 0 d (c :: s) = (c :: (scan isFinal 0 d s).1, (scan isFinal 0 d s).2) := by
  rw [scan_cons, h]
  exact if_neg fun hheld => hnot hheld.2.1 ⟨hheld.1, hheld.2.2⟩

theorem scan_skip : scan isFinal k d s = scan isFinal 0 d (s.drop k) := by
  induction s generalizing k with
  | nil => simp
  | cons c s ih =>
    cases k with
    | zero => rfl
    | succ k => rw [scan_succ, List.drop_succ_cons, ih]

/-- The directives so far do not change what is shown and what is kept back. -/
theorem scan_congr (d d' : DirectiveSet) :
    (scan isFinal k d s).1 = (scan isFinal k d' s).1 ∧
      (scan isFinal k d s).2.partialText = (scan isFinal k d' s).2.partialText := by
  induction s generalizing k d d' with
  | nil => simp
  | cons c s ih =>
    cases k with
    | succ k => exact ih d d'
    | zero =>
      rw [scan_cons, scan_cons]
      split
      · exact ih _ _
      · split
        · exact ⟨rfl, rfl⟩
        · exact ⟨congrArg (c :: ·) (ih d d').1, (ih d d').2⟩

theorem partialText_suffix : (scan isFinal k d s).2.partialText <:+ s := by
  induction s generalizing k d with
  | nil => simp
  | cons c s ih =>
    cases k with
    | succ k => exact ih.trans (List.suffix_cons c s)
    | zero =>
      rw [scan_cons]
      split
      · exact ih.trans (List.suffix_cons c s)
      · split
        · exact List.suffix_rfl
        · exact ih.trans (List.suffix_cons c s)

/-- What comes out when the final flush follows a chunk. -/
def resume (p : Str × StreamingDirectiveAccumulator) (r : Str) :
    Str × StreamingDirectiveAccumulator :=
  (p.1 ++ (p.2.consume r true).1, (p.2.consume r true).2)

@[simp] theorem resume_held : resume ([], ⟨s, d⟩) r = scan true 0 d (s ++ r) := rfl

theorem resume_char {p : Str × StreamingDirectiveAccumulator} :
    resume (c :: p.1, p.2) r = (c :: (resume p r).1, (resume p r).2) := rfl

end Scan

section Cut

variable {k : Nat} {d : DirectiveSet} {c : Char} {s r t content : Str}

theorem cleanCut_cons : cleanCut 0 (c :: s) r =
    match tagAt (c :: s ++ r) with
    | none => cleanCut 0 s r
    | some content =>
      if (tagAt (c :: s)).isSome then cleanCut (2 + byteLen content + 1) s r
      else s ≠ [] ∧ byteLen (c :: s) < maxPartialLen := rfl

@[simp] theorem cleanCut_nil : cleanCut k [] r ↔ k = 0 ∨ r = [] := by
  change decide (k = 0 ∨ r = []) = true ↔ _
  exact decide_eq_true_iff

theorem cleanCut_of_none (h : tagAt (c :: s ++ r) = none) :
    cleanCut 0 (c :: s) r = cleanCut 0 s r := by
  rw [cleanCut_cons, h]

theorem cleanCut_of_tag (h : tagAt (c :: s) = some content) :
    cleanCut 0 (c :: s) r = cleanCut (2 + byteLen content + 1) s r := by
  rw [cleanCut_cons, tagAt_append h]
  simp [h]

theorem cleanCut_of_split (hwhole : tagAt (c :: s ++ r) = some content)
    (h : tagAt (c :: s) = none) : cleanCut 0 (c :: s) r ↔ Held (c :: s) := by
  obtain ⟨u, n, hu, -, -⟩ := tagAt_eq_some.mp hwhole
  rw [cleanCut_cons, hwhole]
  simp only [h, Option.isSome_none, Bool.false_eq_true, ↓reduceIte, decide_eq_true_eq]
  refine and_congr_left fun _ => ?_
  cases s with
  | nil =>
    simp
  | cons b s =>
    rw [List.cons_append, List.cons_append] at hu
    injection hu with hc hu
    injection hu with hb hu
    subst hc hb
    simp

theorem cleanCut_of_unclosed (h : find "]]".toList (s ++ r) = none) : cleanCut 0 s r := by
  induction s with
  | nil => simp
  | cons c s ih =>
    have htail : find "]]".toList (s ++ r) = none := by
      rw [List.cons_append, find] at h
      split at h
      · cases h
      · exact Option.map_eq_none_iff.mp h
    cases hwhole : tagAt (c :: s ++ r) with
    | none => rw [cleanCut_of_none hwhole]; exact ih htail
    | some content => rw [find_of_tagAt hwhole] at h; cases h

theorem cleanCut_of_held (h : tagAt (c :: s) = none) (hheld : Held (c :: s)) :
    cleanCut 0 (c :: s) r := by
  cases hwhole : tagAt (c :: s ++ r) with
  | some content => exact (cleanCut_of_split hwhole h).mpr hheld
  | none =>
    obtain ⟨u, hu⟩ := hheld.1
    apply cleanCut_of_unclosed
    have hopen : c :: s ++ r = '[' :: '[' :: (u ++ r) := by rw [← hu]; rfl
    rw [hopen] at hwhole ⊢
    rw [find_cons_of_not (by simp), find_cons_of_not (by simp)]
    cases hn : find "]]".toList (u ++ r) with
    | none => rfl
    | some n => rw [tagAt_eq_some.mpr ⟨u ++ r, n, rfl, hn, rfl⟩] at hwhole; cases hwhole

/-- Behind a clean cut the final flush gives what it gives without the cut. -/
theorem scan_cut (h : cleanCut k s r) : scan true k d (s ++ r) = resume (scan false k d s) r := by
  induction s generalizing k d with
  | nil =>
    rw [cleanCut_nil] at h
    rw [scan_nil, resume_held]
    obtain rfl | rfl := h
    · rfl
    · simp
  | cons c s ih =>
    cases k with
    | succ k => exact ih h
    | zero =>
      cases htag : tagAt (c :: s) with
      | some content =>
        rw [cleanCut_of_tag htag] at h
        have hwhole : tagAt (c :: (s ++ r)) = some content := tagAt_append htag
        rw [List.cons_append, scan_of_tag hwhole, scan_of_tag htag, ih h]
      | none =>
        by_cases hheld : Held (c :: s)
        · rw [scan_of_held htag hheld, resume_held]
        · have hwhole : tagAt (c :: (s ++ r)) = none := by
            cases hsplit : tagAt (c :: (s ++ r)) with
            | none => rfl
            | some content => exact absurd ((cleanCut_of_split hsplit htag).mp h) hheld
          rw [cleanCut_of_none hwhole] at h
          rw [List.cons_append, scan_of_char hwhole (by simp), scan_of_char htag fun _ => hheld,
            resume_char, ih h]

/-- A later cut is clean in the text if it is in what is left of the text behind a clean
cut, and the other way round. -/
theorem cleanCut_resume (h : cleanCut k s (r ++ t)) :
    cleanCut k (s ++ r) t = cleanCut 0 ((scan false k d s).2.partialText ++ r) t := by
  induction s generalizing k d with
  | nil =>
    rw [cleanCut_nil] at h
    rw [scan_nil]
    obtain rfl | hnil := h
    · rfl
    · obtain ⟨rfl, rfl⟩ := List.append_eq_nil_iff.mp hnil
      simp [cleanCut]
  | cons c s ih =>
    cases k with
    | succ k => exact ih h
    | zero =>
      cases htag : tagAt (c :: s) with
      | some content =>
        rw [cleanCut_of_tag htag] at h
        have hlonger : tagAt (c :: (s ++ r)) = some content := tagAt_append htag
        rw [List.cons_append, cleanCut_of_tag hlonger, scan_of_tag htag, ih h]
      | none =>
        by_cases hheld : Held (c :: s)
        · rw [scan_of_held htag hheld]
        · have hwhole : tagAt (c :: s ++ (r ++ t)) = none := by
            cases hsplit : tagAt (c :: s ++ (r ++ t)) with
            | none => rfl
            | some content => exact absurd ((cleanCut_of_split hsplit htag).mp h) hheld
          rw [cleanCut_of_none hwhole] at h
          have hlonger : tagAt (c :: (s ++ r) ++ t) = none := by
            rw [← hwhole, List.cons_append, List.append_assoc, List.cons_append]
          rw [List.cons_append, cleanCut_of_none hlonger, scan_of_char htag fun _ => hheld, ih h]

theorem cleanCuts_resume {chunks : List Str} {last : Str}
    (h : cleanCut 0 s (r ++ (chunks.flatten ++ last))) :
    cleanCuts (s ++ r) chunks last =
      cleanCuts ((scan false 0 d s).2.partialText ++ r) chunks last := by
  induction chunks generalizing r with
  | nil => rfl
  | cons chunk chunks ih =>
    rw [List.flatten_cons, List.append_assoc, ← List.append_assoc] at h
    rw [cleanCuts, cleanCuts, List.append_assoc, List.append_assoc,
      cleanCut_resume (d := d) h, ih h]

/-- Consuming chunk by chunk comes to consuming all at once when every boundary is a clean
cut. -/
theorem feed_of_clean {acc : StreamingDirectiveAccumulator} {chunks : List Str} {last : Str}
    (h : cleanCuts acc.partialText chunks last) :
    feed acc chunks last = acc.consume (chunks.flatten ++ last) true := by
  induction chunks generalizing acc with
  | nil => rfl
  | cons chunk chunks ih =>
    rw [cleanCuts, Bool.and_eq_true] at h
    obtain ⟨hcut, hcuts⟩ := h
    have hrest := cleanCuts_resume (r := []) (d := acc.directives) hcut
    rw [List.append_nil, List.append_nil] at hrest
    have hfeed := @ih (acc.consume chunk false).2 (hrest ▸ hcuts)
    have hwhole := scan_cut (d := acc.directives) hcut
    rw [List.append_assoc, ← List.append_assoc chunk] at hwhole
    rw [feed, hfeed, List.flatten_cons]
    exact hwhole.symm

end Cut

section Length

variable {k n : Nat} {d : DirectiveSet} {c : Char} {s r t content : Str}

theorem PlainTags.suffix (h : PlainTags s) (ht : t <:+ s) : PlainTags t :=
  fun u hu => h u (hu.trans ht)

theorem PlainTags.scan_of_tag (hplain : PlainTags (c :: s)) (h : tagAt (c :: s) = some content) :
    scan true 0 d (c :: s) = scan true 0 (parseTag d content) (s.drop (content.length + 3)) := by
  rw [ReplyDirectives.scan_of_tag h, scan_skip, hplain _ List.suffix_rfl _ h]
  congr 2
  omega

theorem scan_close : (scan true 0 d (']' :: s)).1 = ']' :: (scan true 0 d s).1 := by
  have hnone : tagAt (']' :: s) = none := by
    cases h : tagAt (']' :: s) with
    | none => rfl
    | some content =>
      obtain ⟨t, n, ht, -, -⟩ := tagAt_eq_some.mp h
      cases ht
  rw [scan_of_char hnone (by simp)]

/-- Starting in the middle of a tag shows at least what starting behind it shows. -/
theorem length_behind_close (h : find "]]".toList s = some n) (hplain : PlainTags s) :
    (scan true 0 d (s.drop (n + 2))).1.length ≤ (scan true 0 d s).1.length := by
  induction n generalizing s d with
  | zero =>
    obtain ⟨t, rfl⟩ := prefix_of_find_zero h
    change (scan true 0 d t).1.length ≤ (scan true 0 d (']' :: ']' :: t)).1.length
    rw [scan_close, scan_close]
    simp only [List.length_cons]
    omega
  | succ n ih =>
    cases s with
    | nil =>
      have hle := find_le h
      simp at hle
    | cons c s =>
      cases htag : tagAt (c :: s) with
      | some content =>
        have hn : n + 1 = content.length + 2 := by
          rw [find_of_tagAt htag] at h
          exact (Option.some.inj h).symm
        have hdrop : (c :: s).drop (n + 1 + 2) = s.drop (content.length + 3) := by
          rw [hn, List.drop_succ_cons]
        rw [hplain.scan_of_tag htag, hdrop, (scan_congr d (parseTag d content)).1]
      | none =>
        have hle := ih (d := d) (find_cons_succ h) (hplain.suffix (List.suffix_cons c s))
        rw [scan_of_char htag (by simp), List.length_cons]
        exact hle.trans (Nat.le_succ _)

theorem tagAt_none_of_close (h : find "]]".toList (s ++ r) = some n) (hlen : s.length < n + 2) :
    tagAt s = none := by
  cases htag : tagAt s with
  | none => rfl
  | some content =>
    have hfound := find_append (t := r) (find_of_tagAt htag)
    have hle := find_le (find_of_tagAt htag)
    rw [h] at hfound
    cases hfound
    have htwo : "]]".toList.length = 2 := rfl
    omega

/-- A cut in the middle of a tag that was given up as text shows at least what comes
behind the tag. -/
theorem length_inside (h : find "]]".toList (s ++ r) = some n) (hlen : s.length < n + 2)
    (hplain : PlainTags (s ++ r)) :
    (scan true 0 d ((s ++ r).drop (n + 2))).1.length ≤
      (resume (scan false 0 d s) r).1.length := by
  induction s generalizing n d with
  | nil =>
    rw [scan_nil, resume_held]
    exact length_behind_close h hplain
  | cons c s ih =>
    have htag := tagAt_none_of_close h hlen
    by_cases hheld : Held (c :: s)
    · rw [scan_of_held htag hheld, resume_held]
      exact length_behind_close h hplain
    · rw [scan_of_char htag fun _ => hheld, resume_char, List.length_cons]
      cases n with
      | succ n =>
        have hle := ih (d := d) (find_cons_succ h) (by simpa using hlen)
          (hplain.suffix (List.suffix_cons c _))
        exact hle.trans (Nat.le_succ _)
      | zero =>
        obtain rfl : s = [] := List.eq_nil_of_length_eq_zero (by
          rw [List.length_cons] at hlen
          omega)
        obtain ⟨t, ht⟩ := prefix_of_find_zero h
        obtain ⟨rfl, rfl⟩ : ']' = c ∧ ']' :: t = r := by simpa using ht
        rw [scan_nil, resume_held]
        change (scan true 0 d t).1.length ≤ (scan true 0 d (']' :: t)).1.length + 1
        rw [scan_close, List.length_cons]
        omega

/-- A cut never makes the text shorter, and one that is not clean makes it longer. -/
theorem length_cut (hk : k ≤ s.length) (hplain : PlainTags (s ++ r)) :
    (scan true k d (s ++ r)).1.length ≤ (resume (scan false k d s) r).1.length ∧
      (cleanCut k s r = false →
        (scan true k d (s ++ r)).1.length < (resume (scan false k d s) r).1.length) := by
  induction s generalizing k d with
  | nil =>
    obtain rfl : k = 0 := by simpa using hk
    simp [cleanCut]
  | cons c s ih =>
    have htail : PlainTags (s ++ r) := hplain.suffix (List.suffix_cons c _)
    cases k with
    | succ k => exact ih (by simpa using hk) htail
    | zero =>
      cases htag : tagAt (c :: s) with
      | some content =>
        have hwhole : tagAt (c :: (s ++ r)) = some content := tagAt_append htag
        have hbytes := hplain _ List.suffix_rfl _ hwhole
        have hle := find_le (find_of_tagAt htag)
        have htwo : "]]".toList.length = 2 := rfl
        rw [List.cons_append, scan_of_tag hwhole, scan_of_tag htag, cleanCut_of_tag htag]
        apply ih _ htail
        rw [List.length_cons] at hle
        omega
      | none =>
        by_cases hheld : Held (c :: s)
        · rw [scan_of_held htag hheld, resume_held, cleanCut_of_held htag hheld]
          simp
        · rw [scan_of_char htag fun _ => hheld, resume_char, List.length_cons]
          cases hwhole : tagAt (c :: (s ++ r)) with
          | none =>
            have hrest := ih (k := 0) (d := d) (Nat.zero_le _) htail
            rw [List.cons_append, scan_of_char hwhole (by simp), List.length_cons,
              cleanCut_of_none hwhole]
            exact ⟨Nat.succ_le_succ hrest.1, fun h => Nat.succ_lt_succ (hrest.2 h)⟩
          | some content =>
            have hclose : find "]]".toList (s ++ r) = some (content.length + 1) :=
              find_cons_succ (find_of_tagAt hwhole)
            have hlen : s.length < content.length + 1 + 2 := by
              by_contra hge
              rw [tagAt_of_append (r := r) hwhole (by rw [List.length_cons]; omega)] at htag
              cases htag
            have hle := length_inside (d := d) hclose hlen htail
            have hlt := Nat.lt_succ_of_le hle
            have hplain' : PlainTags (c :: (s ++ r)) := hplain
            rw [List.cons_append, hplain'.scan_of_tag hwhole, (scan_congr _ d).1]
            exact ⟨hlt.le, fun _ => hlt⟩

theorem feed_length {acc : StreamingDirectiveAccumulator} {chunks : List Str} {last : Str}
    (hplain : PlainTags (acc.partialText ++ (chunks.flatten ++ last))) :
    (acc.consume (chunks.flatten ++ last) true).1.length ≤ (feed acc chunks last).1.length ∧
      (cleanCuts acc.partialText chunks last = false →
        (acc.consume (chunks.flatten ++ last) true).1.length <
          (feed acc chunks last).1.length) := by
  induction chunks generalizing acc with
  | nil => exact ⟨le_rfl, fun h => by cases h⟩
  | cons chunk chunks ih =>
    have htext : acc.partialText ++ ((chunk :: chunks).flatten ++ last) =
        acc.partialText ++ chunk ++ (chunks.flatten ++ last) := by
      simp
    rw [htext] at hplain
    have hkept : (acc.consume chunk false).2.partialText <:+ acc.partialText ++ chunk :=
      partialText_suffix
    obtain ⟨u, hu⟩ := hkept
    have hrest := @ih (acc.consume chunk false).2
      (hplain.suffix ⟨u, by rw [← List.append_assoc, hu]⟩)
    have hcut := length_cut (d := acc.directives) (Nat.zero_le _) hplain
    have hfeed : (feed acc (chunk :: chunks) last).1.length =
        (acc.consume chunk false).1.length +
          (feed (acc.consume chunk false).2 chunks last).1.length := List.length_append
    have hwhole : acc.consume ((chunk :: chunks).flatten ++ last) true =
        scan true 0 acc.directives (acc.partialText ++ chunk ++ (chunks.flatten ++ last)) := by
      rw [StreamingDirectiveAccumulator.consume, htext]
    have hresume : (resume (scan false 0 acc.directives (acc.partialText ++ chunk))
        (chunks.flatten ++ last)).1.length = (acc.consume chunk false).1.length +
          ((acc.consume chunk false).2.consume (chunks.flatten ++ last) true).1.length :=
      List.length_append
    rw [hresume] at hcut
    rw [hwhole, hfeed]
    refine ⟨by omega, fun h => ?_⟩
    rw [cleanCuts] at h
    cases hclean : cleanCut 0 (acc.partialText ++ chunk) (chunks.flatten ++ last) with
    | false =>
      have hlt := hcut.2 hclean
      omega
    | true =>
      rw [hclean, Bool.true_and] at h
      have hcuts := cleanCuts_resume (r := []) (d := acc.directives) hclean
      rw [List.append_nil, List.append_nil] at hcuts
      have hlt := hrest.2 (hcuts.symm.trans h)
      omega

end Length

/-- Clean cuts are enough whatever the tags hold. They are needed as well in a text whose
tags are no longer in bytes than in characters. -/
theorem chunking_independent_iff (chunks : List Str) (last : Str) :
    (cleanCuts [] chunks last → Agrees chunks last) ∧
      (PlainTags (chunks.flatten ++ last) → Agrees chunks last → cleanCuts [] chunks last) := by
  constructor
  · intro hclean
    have hfeed := @feed_of_clean ⟨[], .none⟩ chunks last hclean
    rw [Agrees, hfeed]
    exact ⟨rfl, rfl⟩
  · intro hplain hagrees
    by_contra hclean
    rw [Bool.not_eq_true] at hclean
    have hlt := (@feed_length ⟨[], .none⟩ chunks last hplain).2 hclean
    exact absurd (congrArg List.length hagrees.1) hlt.ne'

/-- A tag cut between its opening brackets is shown to the user. -/
theorem silent_tag_shown : ¬ ∀ chunks last, Agrees chunks last := by
  intro h
  exact absurd (h ["[".toList] "[silent]]".toList) (by decide)

/-- Tags that take away more than themselves can make up for each other. -/
example : Agrees ["[[é]]".toList, "[[x]][[éééé]]".toList] "[x]]".toList ∧
    cleanCuts [] ["[[é]]".toList, "[[x]][[éééé]]".toList] "[x]]".toList = false := by
  decide

end Clawreform.Runtime.ReplyDirectives
