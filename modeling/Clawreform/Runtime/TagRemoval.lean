import Clawreform.Runtime.ReplyDirectives

namespace Clawreform.Runtime.TagRemoval

open Clawreform.Lib.Text Clawreform.Lib.Find Clawreform.Runtime.ReplyDirectives

section Spec

/-- The text begins with a tag around `content`, closed by the first closing brackets, and
goes on with `rest`. -/
def ClosedTag (content rest s : Str) : Prop :=
  s = "[[".toList ++ (content ++ "]]".toList ++ rest) ∧
    ¬ "]]".toList <:+: content ++ "]".toList

/-- What a text shows when the closed tags that satisfy `tag` are cut out of it, from the
left to the right, and every other character is kept. -/
inductive Removes (tag : Str → Prop) : Str → List Str → Str → Prop
  | nil : Removes tag [] [] []
  | cut {s content rest shown : Str} {contents : List Str} (hclosed : ClosedTag content rest s)
      (htag : tag content) (hrest : Removes tag rest contents shown) :
      Removes tag s (content :: contents) shown
  | keep {c : Char} {s shown : Str} {contents : List Str}
      (hnot : ∀ content rest, ClosedTag content rest (c :: s) → ¬ tag content)
      (hrest : Removes tag s contents shown) : Removes tag (c :: s) contents (c :: shown)

/-- The tags that stand for a directive. -/
def Recognised (content : Str) : Prop :=
  "reply:".toList <+: trim content ∨ trim content = "@current".toList ∨
    trim content = "silent".toList

instance (content : Str) : Decidable (Recognised content) :=
  inferInstanceAs (Decidable (_ ∨ _ ∨ _))

end Spec

section Reading

variable {tag : Str → Prop} {c : Char} {s rest rest' content content' shown shown' : Str}
  {contents contents' : List Str}

theorem tagAt_eq_some_iff :
    tagAt s = some content ↔ ∃ rest, ClosedTag content rest s := by
  have hne : "]]".toList ≠ [] := by decide
  rw [tagAt_eq_some]
  constructor
  · rintro ⟨t, n, rfl, hn, rfl⟩
    obtain ⟨a, b, rfl, rfl, hfirst⟩ := exists_of_find hne hn
    have htake : (a ++ "]]".toList ++ b).take a.length = a := by
      rw [List.append_assoc, List.take_left]
    rw [htake]
    exact ⟨b, rfl, hfirst⟩
  · rintro ⟨rest, rfl, hfirst⟩
    refine ⟨content ++ "]]".toList ++ rest, content.length, rfl, ?_, ?_⟩
    · exact (find_append_iff hne).mpr hfirst
    · rw [List.append_assoc, List.take_left]

/-- A text begins with one closed tag at most. -/
theorem ClosedTag.unique (h : ClosedTag content rest s) (h' : ClosedTag content' rest' s) :
    content = content' ∧ rest = rest' := by
  have hcontent := tagAt_eq_some_iff.mpr ⟨rest, h⟩
  rw [tagAt_eq_some_iff.mpr ⟨rest', h'⟩] at hcontent
  cases hcontent
  have htexts := h.1.symm.trans h'.1
  rw [List.append_cancel_left_eq, List.append_cancel_left_eq] at htexts
  exact ⟨rfl, htexts⟩

theorem ClosedTag.eq_cons (h : ClosedTag content rest s) :
    s = '[' :: (('[' :: (content ++ "]]".toList)) ++ rest) := h.1

theorem ClosedTag.length_lt (h : ClosedTag content rest s) : rest.length < s.length := by
  rw [h.1]
  simp only [List.length_append, String.length_toList]
  have htwo : "[[".length = 2 := rfl
  omega

theorem ClosedTag.ne_nil (h : ClosedTag content rest s) : s ≠ [] := by
  intro hnil
  have hlt := h.length_lt
  rw [hnil] at hlt
  exact Nat.not_lt_zero _ hlt

/-- Every text can be read so. -/
theorem exists_removes (tag : Str → Prop) (s : Str) :
    ∃ contents shown, Removes tag s contents shown := by
  induction hn : s.length using Nat.strong_induction_on generalizing s with
  | _ n ih =>
    subst hn
    by_cases htag : ∃ content rest, ClosedTag content rest s ∧ tag content
    · obtain ⟨content, rest, hclosed, htag⟩ := htag
      obtain ⟨contents, shown, hrest⟩ := ih _ hclosed.length_lt rest rfl
      exact ⟨content :: contents, shown, .cut hclosed htag hrest⟩
    · cases s with
      | nil => exact ⟨[], [], .nil⟩
      | cons c s =>
        obtain ⟨contents, shown, hrest⟩ := ih _ (by simp) s rfl
        refine ⟨contents, c :: shown, .keep ?_ hrest⟩
        intro content rest hclosed hcontent
        exact htag ⟨content, rest, hclosed, hcontent⟩

/-- It can be read in one way only. -/
theorem Removes.unique (h : Removes tag s contents shown) (h' : Removes tag s contents' shown') :
    contents = contents' ∧ shown = shown' := by
  induction h generalizing contents' shown' with
  | nil =>
    cases h' with
    | nil => exact ⟨rfl, rfl⟩
    | cut hclosed => exact absurd rfl hclosed.ne_nil
  | cut hclosed htag hrest ih =>
    cases h' with
    | nil => exact absurd rfl hclosed.ne_nil
    | cut hclosed' htag' hrest' =>
      obtain ⟨rfl, rfl⟩ := hclosed.unique hclosed'
      obtain ⟨rfl, rfl⟩ := ih hrest'
      exact ⟨rfl, rfl⟩
    | keep hnot hrest' => exact absurd htag (hnot _ _ hclosed)
  | keep hnot hrest ih =>
    cases h' with
    | cut hclosed' htag' hrest' => exact absurd htag' (hnot _ _ hclosed')
    | keep hnot' hrest' =>
      obtain ⟨rfl, rfl⟩ := ih hrest'
      exact ⟨rfl, rfl⟩

theorem Removes.keep_of_none (h : tagAt (c :: s) = none) (hrest : Removes tag s contents shown) :
    Removes tag (c :: s) contents (c :: shown) := by
  refine .keep ?_ hrest
  intro content rest hclosed
  rw [tagAt_eq_some_iff.mpr ⟨rest, hclosed⟩] at h
  cases h

end Reading

section Scan

variable {d : DirectiveSet} {s shown : Str} {contents : List Str}

/-- The scan takes out the closed tags of a text whose tags are as long in bytes as in
characters. -/
theorem scan_removes (h : Removes (fun _ => True) s contents shown)
    (hplain : ∀ content ∈ contents, byteLen content = content.length) :
    (scan true 0 d s).1 = shown := by
  induction h generalizing d with
  | nil => rfl
  | @cut s content rest shown contents hclosed _ _ ih =>
    obtain ⟨hcontent, hcontents⟩ := List.forall_mem_cons.mp hplain
    have htag : tagAt s = some content := tagAt_eq_some_iff.mpr ⟨rest, hclosed⟩
    rw [hclosed.eq_cons] at htag ⊢
    have hlen : 2 + content.length + 1 = ('[' :: (content ++ "]]".toList)).length := by
      rw [List.length_cons, List.length_append]
      change 2 + content.length + 1 = content.length + 2 + 1
      omega
    rw [scan_of_tag htag, scan_skip, hcontent, hlen, List.drop_left]
    exact ih hcontents
  | @keep c s shown contents hnot _ ih =>
    have htag : tagAt (c :: s) = none := by
      cases htag : tagAt (c :: s) with
      | none => rfl
      | some content =>
        obtain ⟨rest, hclosed⟩ := tagAt_eq_some_iff.mp htag
        exact absurd trivial (hnot content rest hclosed)
    rw [scan_of_char htag (by simp), ih hplain]

/-- The end of a text is a clean cut of it. -/
theorem cleanCut_end (k : Nat) (s : Str) : cleanCut k s [] := by
  induction s generalizing k with
  | nil => simp
  | cons c s ih =>
    cases k with
    | succ k => exact ih k
    | zero =>
      cases htag : tagAt (c :: s) with
      | some content =>
        rw [cleanCut_of_tag htag]
        exact ih _
      | none =>
        rw [cleanCut_of_none (by rw [List.append_nil, htag])]
        exact ih 0

/-- A text that is consumed and then flushed shows what it shows as the final chunk. -/
theorem feed_single (s : Str) :
    feed ⟨[], .none⟩ [s] [] = StreamingDirectiveAccumulator.consume ⟨[], .none⟩ s true := by
  have hclean : cleanCuts [] [s] [] := by
    rw [cleanCuts, cleanCuts, Bool.and_true]
    exact cleanCut_end 0 s
  rw [feed_of_clean hclean, List.flatten_singleton, List.append_nil]

end Scan

/-- A text is shown with its closed tags cut out, the unknown ones too, and everything else
kept, when the tags cut out are as long in bytes as in characters. -/
theorem visible_removes (text : Str)
    (hplain : ∀ contents shown, Removes (fun _ => True) text contents shown →
      ∀ content ∈ contents, byteLen content = content.length) :
    ∃ contents, Removes (fun _ => True) text contents (feed ⟨[], .none⟩ [text] []).1 := by
  obtain ⟨contents, shown, hremoves⟩ := exists_removes (fun _ => True) text
  have hshown := scan_removes (d := .none) hremoves (hplain contents shown hremoves)
  refine ⟨contents, ?_⟩
  rw [feed_single, StreamingDirectiveAccumulator.consume, List.nil_append, hshown]
  exact hremoves

theorem visible_removes_note :
    ∃ contents, Removes (fun _ => True) "é [[x]] [[y".toList contents
      (feed ⟨[], .none⟩ ["é [[x]] [[y".toList] []).1 := by
  apply visible_removes
  intro contents shown hremoves
  have hread : Removes (fun _ => True) "é [[x]] [[y".toList ["x".toList] "é  [[y".toList := by
    have hopen : Removes (fun _ => True) " [[y".toList [] " [[y".toList :=
      .keep_of_none (by decide) (.keep_of_none (by decide) (.keep_of_none (by decide)
        (.keep_of_none (by decide) .nil)))
    have htag : ClosedTag "x".toList " [[y".toList "[[x]] [[y".toList := ⟨rfl, by decide⟩
    exact .keep_of_none (by decide) (.keep_of_none (by decide) (.cut htag trivial hopen))
  obtain ⟨rfl, rfl⟩ := hremoves.unique hread
  decide

/-- A tag that is longer in bytes takes along what stands behind it. -/
example : (feed ⟨[], .none⟩ ["[[é]]ab".toList] []).1 = "b".toList := by decide

/-- A closed tag that stands for no directive is cut out as well. -/
theorem unknown_tag_removed :
    ¬ ∀ text, ∃ contents, Removes Recognised text contents (feed ⟨[], .none⟩ [text] []).1 := by
  intro h
  obtain ⟨contents, hremoves⟩ := h "[[unknown_thing]]".toList
  have hshown : (feed ⟨[], .none⟩ ["[[unknown_thing]]".toList] []).1 = [] := by decide
  rw [hshown] at hremoves
  have htag : ClosedTag "unknown_thing".toList [] "[[unknown_thing]]".toList :=
    ⟨rfl, by decide⟩
  cases hremoves with
  | cut hclosed hrecognised hrest =>
    obtain ⟨rfl, -⟩ := hclosed.unique htag
    exact absurd hrecognised (by decide)

end Clawreform.Runtime.TagRemoval
