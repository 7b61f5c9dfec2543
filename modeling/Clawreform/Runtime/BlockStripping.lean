import Clawreform.Runtime.BlankLines
import Clawreform.Runtime.HiddenBlocks

namespace Clawreform.Runtime.BlockStripping

open Clawreform.Lib.Text Clawreform.Lib.Find Clawreform.Lib.Tags Clawreform.Lib.Trimming
open Clawreform.Runtime.HiddenBlocks

theorem lawful : Lawful tags Tag.spelling '<' where
  all := by
    rintro ⟨kind, closing⟩
    cases kind <;> cases closing <;> decide
  starts := by
    rintro ⟨kind, closing⟩
    cases kind <;> cases closing <;> exact ⟨_, rfl, by decide⟩
  prefixFree := by
    apply prefixFree_of_spellings
    rintro ⟨kind, closing⟩ ⟨kind', closing'⟩
    cases kind <;> cases closing <;> cases kind' <;> cases closing' <;> decide

section Characters

variable {p q : List (Token Tag × Bool)} {a b : List (Char × Bool)}

/-- The text of marked tokens. -/
def textOf (p : List (Token Tag × Bool)) : Str := spell Tag.spelling (p.map Prod.fst)

theorem textOf_append : textOf (p ++ q) = textOf p ++ textOf q := by
  rw [textOf, List.map_append, spell_append]
  rfl

theorem characters_append : characters (p ++ q) = characters p ++ characters q :=
  List.flatMap_append ..

theorem map_fst_characters : (characters p).map Prod.fst = textOf p := by
  induction p with
  | nil => rfl
  | cons x p ih =>
    have htail : characters (x :: p) =
        ((x.1.text Tag.spelling).map fun c => (c, x.2)) ++ characters p := List.flatMap_cons ..
    have hhead : ((x.1.text Tag.spelling).map fun c => (c, x.2)).map Prod.fst =
        x.1.text Tag.spelling := by
      rw [List.map_map]
      exact List.map_id _
    rw [htail, List.map_append, hhead, ih, textOf, textOf, List.map_cons, spell_cons]

theorem length_characters : (characters p).length = (textOf p).length := by
  rw [← map_fst_characters, List.length_map]

theorem map_fst_stripMarked (openTag closeTag : Str) (fuel : Nat)
    (out remaining : List (Char × Bool)) :
    (stripMarked openTag closeTag fuel out remaining).map Prod.fst =
      stripBlocks openTag closeTag fuel (out.map Prod.fst) (remaining.map Prod.fst) := by
  induction fuel generalizing out remaining with
  | zero => exact List.map_append
  | succ fuel ih =>
    rw [stripMarked, stripBlocks]
    cases hstart : find openTag (remaining.map Prod.fst) with
    | none => exact List.map_append
    | some start =>
      dsimp only
      rw [List.map_drop]
      cases hstop : find closeTag ((remaining.map Prod.fst).drop (start + openTag.length)) with
      | none =>
        dsimp only
        rw [List.map_append, List.map_append, List.map_take]
      | some stop =>
        dsimp only
        rw [ih, List.map_append, List.map_take, List.map_drop, List.map_drop]
        congr 1
        split
        · rw [List.map_tail, List.map_drop, List.map_drop]
        · rw [List.map_drop, List.map_drop]

theorem map_fst_stripKind (k : Kind) :
    (stripKind k a).map Prod.fst = stripTaggedBlock (a.map Prod.fst) k.name := by
  rw [stripKind, map_fst_stripMarked, stripTaggedBlock, List.length_map]
  rfl

theorem map_fst_marked (block : Option (Kind × Nat)) (xs : List (Token Tag)) :
    (marked block xs).map Prod.fst = xs := by
  induction xs generalizing block with
  | nil => rfl
  | cons x xs ih => rw [marked, List.map_cons, ih]

end Characters

section Pass

variable {k k' : Kind} {out rem pre mid rest next res : List (Token Tag × Bool)}
  {x : Token Tag} {m m' : Bool}

/-- A pass over tokens that takes out the blocks of a kind, one after the other, where
nothing goes wrong with what is put together. -/
inductive Pass (k : Kind) : List (Token Tag × Bool) → List (Token Tag × Bool) →
    List (Token Tag × Bool) → Prop
  | done {out rem : List (Token Tag × Bool)} (hopen : opening k ∉ rem.map Prod.fst) :
      Pass k out rem (out ++ rem)
  | copy {out pre rest : List (Token Tag × Bool)} {m : Bool}
      (hopen : opening k ∉ pre.map Prod.fst) (hclose : closing k ∉ rest.map Prod.fst)
      (hjoint : ¬ Crosses tags Tag.spelling (textOf (out ++ pre)) (textOf pre))
      (hfirst : k = .think → OpensFirst (textOf pre)) :
      Pass k out (pre ++ (opening k, m) :: rest) (out ++ pre ++ pre)
  | cut {out pre mid rest next res : List (Token Tag × Bool)} {m m' : Bool}
      (hopen : opening k ∉ pre.map Prod.fst) (hclose : closing k ∉ mid.map Prod.fst)
      (hnext : next = rest ∨ ∃ m, rest = (.char '\n', m) :: next)
      (hjoint : ¬ Crosses tags Tag.spelling (textOf (out ++ pre)) (textOf next))
      (hpass : Pass k (out ++ pre) next res) :
      Pass k out (pre ++ (opening k, m) :: (mid ++ (closing k, m') :: rest)) res

theorem Pass.not_opening (h : Pass k out rem res) (hout : opening k ∉ out.map Prod.fst) :
    opening k ∉ res.map Prod.fst := by
  induction h with
  | done hopen =>
    rw [List.map_append, List.mem_append, not_or]
    exact ⟨hout, hopen⟩
  | copy hopen hclose hjoint hfirst =>
    rw [List.map_append, List.map_append, List.mem_append, List.mem_append, not_or, not_or]
    exact ⟨⟨hout, hopen⟩, hopen⟩
  | cut hopen hclose hnext hjoint hpass ih =>
    apply ih
    rw [List.map_append, List.mem_append, not_or]
    exact ⟨hout, hopen⟩

/-- A pass leaves nothing that was not there. -/
theorem Pass.subset (h : Pass k out rem res) : res ⊆ out ++ rem := by
  induction h with
  | done hopen => exact List.Subset.refl _
  | copy hopen hclose hjoint hfirst =>
    intro x hx
    simp only [List.mem_append, List.mem_cons] at hx ⊢
    tauto
  | @cut out pre mid rest next res m m' hopen hclose hnext hjoint hpass ih =>
    intro x hx
    have hnextrest : x ∈ next → x ∈ rest := by
      intro hmem
      obtain rfl | ⟨m, rfl⟩ := hnext
      · exact hmem
      · exact List.mem_cons_of_mem _ hmem
    have hmem := ih hx
    simp only [List.mem_append, List.mem_cons] at hmem ⊢
    tauto

theorem Pass.canonical (h : Pass k out rem res)
    (hall : Canonical tags Tag.spelling ((out ++ rem).map Prod.fst)) :
    Canonical tags Tag.spelling (res.map Prod.fst) := by
  induction h with
  | done hopen => exact hall
  | @copy out pre rest m hopen hclose hjoint hfirst =>
    rw [← List.append_assoc, List.map_append] at hall
    have hpre : Canonical tags Tag.spelling (pre.map Prod.fst) := by
      have hleft := lawful.canonical_left hall
      rw [List.map_append] at hleft
      exact lawful.canonical_right hleft
    rw [List.map_append]
    exact lawful.canonical_append (lawful.canonical_left hall) hpre hjoint
  | @cut out pre mid rest next res m m' hopen hclose hnext hjoint hpass ih =>
    apply ih
    rw [← List.append_assoc, List.map_append] at hall
    have hrest : Canonical tags Tag.spelling (rest.map Prod.fst) := by
      have hright := lawful.canonical_right hall
      rw [List.map_cons, lawful.canonical_tag_iff, List.map_append] at hright
      have hbehind := lawful.canonical_right hright
      rwa [List.map_cons, lawful.canonical_tag_iff] at hbehind
    have hnext' : Canonical tags Tag.spelling (next.map Prod.fst) := by
      obtain rfl | ⟨m, rfl⟩ := hnext
      · exact hrest
      · exact (canonical_char_iff.mp hrest).2
    rw [List.map_append]
    exact lawful.canonical_append (lawful.canonical_left hall) hnext' hjoint

theorem exists_split_of_mem (h : x ∈ rem.map Prod.fst) :
    ∃ pre m rest, rem = pre ++ (x, m) :: rest ∧ x ∉ pre.map Prod.fst := by
  induction rem with
  | nil => cases h
  | cons p rem ih =>
    by_cases hx : p.1 = x
    · exact ⟨[], p.2, rem, by rw [← hx]; rfl, List.not_mem_nil⟩
    · have hrem : x ∈ rem.map Prod.fst := by simpa [Ne.symm hx] using h
      obtain ⟨pre, m, rest, rfl, hpre⟩ := ih hrem
      refine ⟨p :: pre, m, rest, rfl, ?_⟩
      rw [List.map_cons, List.mem_cons, not_or]
      exact ⟨Ne.symm hx, hpre⟩

theorem textOf_tag (t : Tag) : textOf ((.tag t, m) :: rest) = t.spelling ++ textOf rest :=
  spell_cons _

theorem characters_tag (t : Tag) : characters ((.tag t, m) :: rest) =
    (t.spelling.map fun c => (c, m)) ++ characters rest := List.flatMap_cons ..

/-- What starts with a line break starts with it as a token. -/
theorem exists_newline (h : (textOf rest).head? = some '\n') :
    ∃ m next, rest = (.char '\n', m) :: next := by
  cases rest with
  | nil => cases h
  | cons p rest =>
    obtain ⟨x, m⟩ := p
    cases x with
    | char c =>
      obtain rfl : c = '\n' := Option.some.inj h
      exact ⟨m, rest, rfl⟩
    | tag t =>
      obtain ⟨body, hbody, -⟩ := lawful.starts t
      rw [textOf_tag, hbody] at h
      exact absurd (Option.some.inj h) (by decide)

theorem take_characters : (characters (pre ++ rest)).take (textOf pre).length = characters pre := by
  rw [characters_append, ← length_characters, List.take_left]

theorem take_textOf : (textOf (pre ++ rest)).take (textOf pre).length = textOf pre := by
  rw [textOf_append, List.take_left]

theorem drop_characters (t : Tag) : (characters (pre ++ (.tag t, m) :: rest)).drop
    ((textOf pre).length + t.spelling.length) = characters rest := by
  have hlen : (textOf pre).length + t.spelling.length =
      (characters pre ++ t.spelling.map fun c => (c, m)).length := by
    rw [List.length_append, length_characters, List.length_map]
  rw [hlen, characters_append, characters_tag, ← List.append_assoc, List.drop_left]

theorem drop_textOf (t : Tag) : (textOf (pre ++ (.tag t, m) :: rest)).drop
    ((textOf pre).length + t.spelling.length) = textOf rest := by
  rw [← List.length_append, textOf_append, textOf_tag, ← List.append_assoc, List.drop_left]

theorem find_textOf {t : Tag}
    (h : Canonical tags Tag.spelling ((pre ++ (.tag t, m) :: rest).map Prod.fst))
    (hfirst : .tag t ∉ pre.map Prod.fst) :
    find t.spelling (textOf (pre ++ (.tag t, m) :: rest)) = some (textOf pre).length := by
  rw [List.map_append, List.map_cons] at h
  rw [textOf, List.map_append, List.map_cons]
  exact lawful.find_tag h hfirst

theorem find_textOf_none {t : Tag} (h : Canonical tags Tag.spelling (rem.map Prod.fst))
    (hnot : .tag t ∉ rem.map Prod.fst) : find t.spelling (textOf rem) = none :=
  lawful.find_none h hnot

/-- A pass over characters is a pass over the tokens they spell. -/
theorem stripMarked_pass (fuel : Nat) (out : List (Token Tag × Bool))
    (hfuel : (textOf rem).length ≤ fuel)
    (hrem : Canonical tags Tag.spelling (rem.map Prod.fst))
    (hjoints : ∀ j ∈ joints (Tag.spelling ⟨k, false⟩) (Tag.spelling ⟨k, true⟩) fuel (textOf out)
      (textOf rem), ¬ Crosses tags Tag.spelling j.before j.behind ∧
        (j.copied = true → k = .think → OpensFirst j.behind)) :
    ∃ res, Pass k out rem res ∧ stripMarked (Tag.spelling ⟨k, false⟩) (Tag.spelling ⟨k, true⟩) fuel
      (characters out) (characters rem) = characters res := by
  induction fuel generalizing out rem with
  | zero =>
    have hopen : opening k ∉ rem.map Prod.fst := by
      intro hmem
      obtain ⟨pre, m, rest, rfl, -⟩ := exists_split_of_mem hmem
      have hpos := List.length_pos_of_ne_nil (lawful.ne_nil ⟨k, false⟩)
      rw [textOf_append, textOf_tag, List.length_append, List.length_append] at hfuel
      omega
    exact ⟨out ++ rem, .done hopen, characters_append.symm⟩
  | succ fuel ih =>
    rw [stripMarked, map_fst_characters]
    rw [joints] at hjoints
    by_cases hmem : opening k ∈ rem.map Prod.fst
    · obtain ⟨pre, m, rest, rfl, hopen⟩ := exists_split_of_mem hmem
      rw [find_textOf hrem hopen] at hjoints ⊢
      dsimp only at hjoints ⊢
      rw [take_textOf, drop_textOf, ← textOf_append] at hjoints
      rw [take_characters, drop_characters, ← characters_append, map_fst_characters,
        map_fst_characters]
      have hrest : Canonical tags Tag.spelling (rest.map Prod.fst) := by
        rw [List.map_append] at hrem
        exact lawful.canonical_tag_iff.mp (lawful.canonical_right hrem)
      have hshort : (textOf rest).length ≤ fuel := by
        have hpos := List.length_pos_of_ne_nil (lawful.ne_nil ⟨k, false⟩)
        rw [textOf_append, textOf_tag, List.length_append, List.length_append] at hfuel
        omega
      by_cases hclosed : closing k ∈ rest.map Prod.fst
      · obtain ⟨mid, m', behind, rfl, hclose⟩ := exists_split_of_mem hclosed
        rw [find_textOf hrest hclose] at hjoints ⊢
        dsimp only at hjoints ⊢
        rw [drop_textOf] at hjoints
        rw [drop_characters, map_fst_characters]
        obtain ⟨next, hnext, htext, hchars⟩ : ∃ next,
            (next = behind ∨ ∃ m, behind = (.char '\n', m) :: next) ∧
            textOf next = (if (textOf (out ++ pre)).getLast? = some '\n' ∧
              (textOf behind).head? = some '\n' then (textOf behind).tail else textOf behind) ∧
            characters next = (if (textOf (out ++ pre)).getLast? = some '\n' ∧
              (textOf behind).head? = some '\n' then (characters behind).tail
              else characters behind) := by
          split
          · rename_i hbreak
            obtain ⟨m, next, rfl⟩ := exists_newline hbreak.2
            exact ⟨next, .inr ⟨m, rfl⟩, rfl, rfl⟩
          · exact ⟨behind, .inl rfl, rfl, rfl⟩
        rw [← htext] at hjoints
        rw [← hchars]
        obtain ⟨hjoint, hjoints⟩ := List.forall_mem_cons.mp hjoints
        have hbehind : Canonical tags Tag.spelling (behind.map Prod.fst) := by
          rw [List.map_append] at hrest
          exact lawful.canonical_tag_iff.mp (lawful.canonical_right hrest)
        have hnext' : Canonical tags Tag.spelling (next.map Prod.fst) ∧
            (textOf next).length ≤ fuel := by
          rw [textOf_append, textOf_tag, List.length_append, List.length_append] at hshort
          obtain rfl | ⟨m, rfl⟩ := hnext
          · exact ⟨hbehind, by omega⟩
          · have hlen : (textOf ((.char '\n', m) :: next)).length = (textOf next).length + 1 := by
              rfl
            exact ⟨(canonical_char_iff.mp hbehind).2, by omega⟩
        obtain ⟨res, hpass, hres⟩ := ih _ hnext'.2 hnext'.1 hjoints
        exact ⟨res, .cut hopen hclose hnext hjoint.1 hpass, hres⟩
      · rw [find_textOf_none hrest hclosed] at hjoints ⊢
        dsimp only at hjoints ⊢
        obtain ⟨hjoint, hfirst⟩ := List.forall_mem_singleton.mp hjoints
        exact ⟨out ++ pre ++ pre, .copy hopen hclosed hjoint (hfirst rfl), characters_append.symm⟩
    · rw [find_textOf_none hrem hmem]
      exact ⟨out ++ rem, .done hmem, characters_append.symm⟩

end Pass

section Cover

variable {block : Option (Kind × Nat)} {covered : Bool} {x : Token Tag} {m : Bool} {k : Kind}
  {xs ys zs : List (Token Tag)} {p q : List (Token Tag × Bool)}

/-- Whether a pass that takes out thinking blocks is in one behind the token. -/
def cover : Bool → Token Tag → Bool
  | _, .tag ⟨.thinking, false⟩ => true
  | _, .tag ⟨.thinking, true⟩ => false
  | covered, _ => covered

/-- What stands inside a block is covered. -/
def Safe : Bool → List (Token Tag × Bool) → Prop
  | _, [] => True
  | covered, (x, m) :: p => (m = true → covered = true) ∧ Safe (cover covered x) p

/-- What is known where the pass over think blocks looks for the next one: no think block is
open, and a thinking block is covered. -/
structure Ready (block : Option (Kind × Nat)) (covered : Bool) (xs : List (Token Tag)) : Prop where
  outside : ∀ n, block ≠ some (.think, n)
  within : ∀ n, block = some (.thinking, n) → covered = true
  deeper : ∀ k n, block = some (k, n + 1) → closing k ∉ xs
  flat : flat block xs = true

/-- What is known in a block that the pass takes out. -/
structure Inside (block : Option (Kind × Nat)) (covered : Bool) (xs : List (Token Tag)) : Prop where
  shallow : ∀ n, block = some (.think, n) → n = 0
  covered : block ≠ some (.think, 0) → covered = true
  deeper : ∀ k n, block = some (k, n + 1) → closing k ∉ xs
  flat : flat block xs = true

theorem marked_append : marked block (xs ++ ys) =
    marked block xs ++ marked (xs.foldl enter block) ys := by
  induction xs generalizing block with
  | nil => rfl
  | cons x xs ih => rw [List.cons_append, marked, marked, ih, List.foldl_cons, List.cons_append]

theorem safe_append : Safe covered (p ++ q) ↔
    Safe covered p ∧ Safe ((p.map Prod.fst).foldl cover covered) q := by
  induction p generalizing covered with
  | nil => simp [Safe]
  | cons y p ih => rw [List.cons_append, Safe, Safe, ih, and_assoc, List.map_cons, List.foldl_cons]

/-- Under cover everything is safe as long as no thinking block is closed. -/
theorem safe_of_covered (h : closing .thinking ∉ p.map Prod.fst) : Safe true p := by
  induction p with
  | nil => trivial
  | cons y p ih =>
    obtain ⟨x, m⟩ := y
    rw [List.map_cons, List.mem_cons, not_or] at h
    refine ⟨fun _ => rfl, ?_⟩
    have hcover : cover true x = true := by
      unfold cover
      split
      · rfl
      · exact absurd rfl h.1
      · rfl
    rw [hcover]
    exact ih h.2

/-- Where nothing is covered nothing is marked. -/
theorem Safe.unmarked (h : Safe false p) (hopen : opening .thinking ∉ p.map Prod.fst) :
    ∀ y ∈ p, y.2 = false := by
  induction p with
  | nil => exact fun _ hy => absurd hy List.not_mem_nil
  | cons y p ih =>
    obtain ⟨x, m⟩ := y
    rw [List.map_cons, List.mem_cons, not_or] at hopen
    have hcover : cover false x = false := by
      unfold cover
      split
      · exact absurd rfl hopen.1
      · rfl
      · rfl
    obtain ⟨hx, hp⟩ := h
    rw [hcover] at hp
    refine List.forall_mem_cons.mpr ⟨?_, ih hp hopen.2⟩
    exact Bool.eq_false_iff.mpr fun hm => Bool.false_ne_true (hx hm)

theorem flat_cons : flat block (x :: xs) = true ↔
    (∀ k n, block = some (k, n) → x = opening k → closing k ∉ xs) ∧
      flat (enter block x) xs = true := by
  rw [flat, Bool.and_eq_true, decide_eq_true_iff]
  refine and_congr_left fun _ => ?_
  cases block with
  | none => simp
  | some b =>
    obtain ⟨k, n⟩ := b
    simp

/-- What a token does to the block it stands in. -/
inductive Entered : Option (Kind × Nat) → Token Tag → Option (Kind × Nat) → Prop
  | enter (k : Kind) : Entered none (opening k) (some (k, 0))
  | deeper (k : Kind) (n : Nat) : Entered (some (k, n)) (opening k) (some (k, n + 1))
  | leave (k : Kind) : Entered (some (k, 0)) (closing k) none
  | back (k : Kind) (n : Nat) : Entered (some (k, n + 1)) (closing k) (some (k, n))
  | stay {block : Option (Kind × Nat)} {x : Token Tag}
      (hopen : ∀ k, x = opening k → ∃ k' n, block = some (k', n) ∧ k' ≠ k)
      (hclose : ∀ k n, x = closing k → block ≠ some (k, n)) : Entered block x block

theorem entered (block : Option (Kind × Nat)) (x : Token Tag) :
    Entered block x (enter block x) := by
  unfold enter
  split
  · exact .enter _
  · rename_i k n k'
    split
    · rename_i heq
      subst heq
      exact .deeper k' n
    · rename_i hne
      refine .stay ?_ ?_
      · rintro k'' ⟨⟩
        exact ⟨k, n, rfl, Ne.symm hne⟩
      · rintro k'' n' ⟨⟩
  · rename_i k k'
    split
    · rename_i heq
      subst heq
      exact .leave k'
    · rename_i hne
      refine .stay ?_ ?_
      · rintro k'' ⟨⟩
      · rintro k'' n' ⟨⟩ ⟨⟩
        exact hne rfl
  · rename_i k n k'
    split
    · rename_i heq
      subst heq
      exact .back k' n
    · rename_i hne
      refine .stay ?_ ?_
      · rintro k'' ⟨⟩
      · rintro k'' n' ⟨⟩ ⟨⟩
        exact hne rfl
  · rename_i hnone hopen hclose hdeep
    refine .stay ?_ ?_
    · rintro k rfl
      cases hblock : block with
      | none => exact absurd rfl (hnone k hblock)
      | some b => exact absurd rfl (hopen b.1 b.2 k hblock)
    · rintro k n rfl rfl
      cases n with
      | zero => exact hclose k k rfl rfl
      | succ n => exact hdeep k n k rfl rfl

theorem deeper_cons (hdeeper : ∀ k n, block = some (k, n + 1) → closing k ∉ x :: xs)
    (hflat : flat block (x :: xs) = true) (k : Kind) (n : Nat)
    (hk : enter block x = some (k, n + 1)) : closing k ∉ xs := by
  have hx := entered block x
  rw [hk] at hx
  cases hx with
  | deeper => exact (flat_cons.mp hflat).1 k n rfl rfl
  | back => exact absurd List.mem_cons_self (hdeeper k (n + 1) rfl)
  | stay => exact fun hmem => hdeeper k n rfl (List.mem_cons_of_mem _ hmem)

theorem cover_of_covered (hx : x ≠ closing .thinking) : cover true x = true := by
  unfold cover
  split
  · rfl
  · exact absurd rfl hx
  · rfl

theorem Ready.step (h : Ready block covered (x :: xs)) (hx : x ≠ opening .think) :
    Ready (enter block x) (cover covered x) xs := by
  have hdeeper := deeper_cons h.deeper h.flat
  have hflat := (flat_cons.mp h.flat).2
  have henter := entered block x
  generalize enter block x = next at hdeeper hflat henter ⊢
  cases henter with
  | enter k =>
    cases k with
    | think => exact absurd rfl hx
    | thinking => exact ⟨by rintro n ⟨⟩, fun _ _ => rfl, hdeeper, hflat⟩
  | deeper k n =>
    cases k with
    | think => exact absurd rfl hx
    | thinking => exact ⟨by rintro n ⟨⟩, fun _ _ => rfl, hdeeper, hflat⟩
  | leave k => exact ⟨by rintro n ⟨⟩, by rintro n ⟨⟩, hdeeper, hflat⟩
  | back k n => exact absurd List.mem_cons_self (h.deeper k n rfl)
  | stay hopen hclose =>
    refine ⟨h.outside, fun n hn => ?_, hdeeper, hflat⟩
    rw [h.within n hn]
    exact cover_of_covered fun heq => hclose .thinking n heq hn

/-- Inside a block that is taken out and that is not over yet. -/
theorem Inside.step (h : Inside block covered (x :: xs)) (hx : x ≠ closing .think)
    (hlater : closing .think ∈ xs) : Inside (enter block x) covered xs := by
  have hdeeper := deeper_cons h.deeper h.flat
  obtain ⟨hnest, hflat⟩ := flat_cons.mp h.flat
  have henter := entered block x
  generalize enter block x = next at hdeeper hflat henter ⊢
  cases henter with
  | enter k =>
    refine ⟨?_, fun _ => h.covered (by rintro ⟨⟩), hdeeper, hflat⟩
    rintro n ⟨⟩
    rfl
  | deeper k n =>
    cases k with
    | think => exact absurd hlater (hnest .think n rfl rfl)
    | thinking =>
      exact ⟨by rintro n ⟨⟩, fun _ => h.covered (by rintro ⟨⟩), hdeeper, hflat⟩
  | leave k =>
    cases k with
    | think => exact absurd rfl hx
    | thinking => exact ⟨by rintro n ⟨⟩, fun _ => h.covered (by rintro ⟨⟩), hdeeper, hflat⟩
  | back k n => exact absurd List.mem_cons_self (h.deeper k n rfl)
  | stay hopen hclose => exact ⟨h.shallow, h.covered, hdeeper, hflat⟩

theorem Inside.leave (h : Inside block covered (closing .think :: xs)) :
    Ready (enter block (closing .think)) covered xs := by
  have hdeeper := deeper_cons h.deeper h.flat
  have hflat := (flat_cons.mp h.flat).2
  have henter := entered block (closing .think)
  generalize enter block (closing .think) = next at hdeeper hflat henter ⊢
  cases henter with
  | leave => exact ⟨by rintro n ⟨⟩, by rintro n ⟨⟩, hdeeper, hflat⟩
  | back => exact absurd List.mem_cons_self (h.deeper _ _ rfl)
  | stay hopen hclose =>
    have hother : ∀ n, block ≠ some (.think, n) := fun n => hclose .think n rfl
    exact ⟨hother, fun _ _ => h.covered (hother 0), hdeeper, hflat⟩

theorem Ready.opened (h : Ready block covered (opening .think :: xs)) :
    Inside (enter block (opening .think)) covered xs := by
  have hdeeper := deeper_cons h.deeper h.flat
  have hflat := (flat_cons.mp h.flat).2
  have henter := entered block (opening .think)
  generalize enter block (opening .think) = next at hdeeper hflat henter ⊢
  cases henter with
  | enter => exact ⟨fun n hn => by cases hn; rfl, fun hne => absurd rfl hne, hdeeper, hflat⟩
  | deeper => exact absurd rfl (h.outside _)
  | stay hopen hclose =>
    obtain ⟨k, n, rfl, hk⟩ := hopen .think rfl
    cases k with
    | think => exact absurd rfl hk
    | thinking => exact ⟨by rintro n ⟨⟩, fun _ => h.within n rfl, hdeeper, hflat⟩

theorem Ready.isSome_covered (h : Ready block covered xs) (hblock : block.isSome = true) :
    covered = true := by
  obtain ⟨⟨k, n⟩, rfl⟩ := Option.isSome_iff_exists.mp hblock
  cases k with
  | think => exact absurd rfl (h.outside n)
  | thinking => exact h.within n rfl

/-- What stands in front of the next think block. -/
theorem Ready.piece (h : Ready block covered (xs ++ ys)) (hopen : opening .think ∉ xs) :
    Safe covered (marked block xs) ∧
      Ready (xs.foldl enter block) (xs.foldl cover covered) ys := by
  induction xs generalizing block covered with
  | nil => exact ⟨trivial, h⟩
  | cons x xs ih =>
    rw [List.mem_cons, not_or] at hopen
    obtain ⟨hsafe, hready⟩ := ih (h.step (Ne.symm hopen.1)) hopen.2
    refine ⟨⟨fun hm => ?_, hsafe⟩, hready⟩
    exact h.isSome_covered (Bool.and_eq_true_iff.mp hm).1

theorem Inside.piece (h : Inside block covered (xs ++ closing .think :: ys))
    (hclose : closing .think ∉ xs) :
    Ready ((xs ++ [closing .think]).foldl enter block) covered ys := by
  induction xs generalizing block with
  | nil => exact h.leave
  | cons x xs ih =>
    rw [List.mem_cons, not_or] at hclose
    exact ih (h.step (Ne.symm hclose.1) (List.mem_append_right _ List.mem_cons_self)) hclose.2

/-- Without a tag that opens a block nothing stands inside one. -/
theorem unmarked (covered : Bool) (h : ∀ k, opening k ∉ xs) :
    Safe covered (marked none xs) ∧ xs.foldl enter none = none := by
  induction xs generalizing covered with
  | nil => exact ⟨trivial, rfl⟩
  | cons x xs ih =>
    have hxs : ∀ k, opening k ∉ xs := fun k hmem => h k (List.mem_cons_of_mem _ hmem)
    have hx : enter none x = none := by
      have henter := entered none x
      generalize enter none x = next at henter ⊢
      cases henter with
      | enter k => exact absurd List.mem_cons_self (h k)
      | stay => rfl
    rw [List.foldl_cons, marked, hx]
    obtain ⟨hsafe, hfold⟩ := ih (cover covered x) hxs
    exact ⟨⟨by rintro ⟨⟩, hsafe⟩, hfold⟩

theorem foldl_enter {n : Nat} (hopen : opening k ∉ xs) (hclose : closing k ∉ xs) :
    xs.foldl enter (some (k, n)) = some (k, n) := by
  induction xs with
  | nil => rfl
  | cons x xs ih =>
    rw [List.mem_cons, not_or] at hopen hclose
    have hx : enter (some (k, n)) x = some (k, n) := by
      have henter := entered (some (k, n)) x
      generalize enter (some (k, n)) x = next at henter ⊢
      cases henter with
      | deeper => exact absurd rfl hopen.1
      | leave => exact absurd rfl hclose.1
      | back => exact absurd rfl hclose.1
      | stay => rfl
    rw [List.foldl_cons, hx, ih hopen.2 hclose.2]

theorem foldl_cover (h : closing .thinking ∉ xs) :
    xs.foldl cover covered = (covered || decide (opening .thinking ∈ xs)) := by
  induction xs generalizing covered with
  | nil => simp
  | cons x xs ih =>
    rw [List.mem_cons, not_or] at h
    rw [List.foldl_cons, ih h.2]
    by_cases hx : x = opening .thinking
    · subst hx
      simp [cover]
    · have hcover : cover covered x = covered := by
        unfold cover
        split
        · exact absurd rfl hx
        · exact absurd rfl h.1
        · rfl
      simp [hcover, Ne.symm hx]

/-- A copy of the piece is as safe as the piece, when it does not begin inside a thinking
block that ends in it. -/
theorem Ready.copy (h : Ready block covered (xs ++ ys)) (hopen : opening .think ∉ xs)
    (hfirst : closing .thinking ∈ xs → ∃ as bs, xs = as ++ opening .thinking :: bs ∧
      closing .thinking ∉ as ∧ opening .thinking ∉ as) :
    Safe (xs.foldl cover covered) (marked block xs) := by
  have hsafe := (h.piece hopen).1
  by_cases hclose : closing .thinking ∈ xs
  · obtain ⟨as, bs, rfl, hclosing, hopening⟩ := hfirst hclose
    have hend : closing .thinking ∈ bs ++ ys := by
      simp only [List.mem_append, List.mem_cons] at hclose ⊢
      tauto
    have hthink : opening .think ∉ as := fun hmem => hopen (List.mem_append_left _ hmem)
    rw [List.append_assoc] at h
    have hready := (h.piece hthink).2
    have hnone : block = none := by
      cases hblock : block with
      | none => rfl
      | some b =>
        obtain ⟨k, n⟩ := b
        cases k with
        | think => exact absurd hblock (h.outside n)
        | thinking =>
          rw [hblock, foldl_enter hopening hclosing] at hready
          exact absurd hend ((flat_cons.mp hready.flat).1 .thinking n rfl rfl)
    subst hnone
    have hopenings : ∀ k, opening k ∉ as := by
      intro k
      cases k with
      | think => exact hthink
      | thinking => exact hopening
    rw [marked_append, safe_append] at hsafe ⊢
    rw [map_fst_marked] at hsafe ⊢
    refine ⟨(unmarked _ hopenings).1, ?_⟩
    rw [(unmarked covered hopenings).2] at hsafe ⊢
    exact ⟨by rintro ⟨⟩, hsafe.2.2⟩
  · cases hcover : xs.foldl cover covered with
    | true =>
      apply safe_of_covered
      rwa [map_fst_marked]
    | false =>
      rw [foldl_cover hclose, Bool.or_eq_false_iff] at hcover
      rw [hcover.1] at hsafe
      exact hsafe

theorem marked_eq_append (h : marked block xs = p ++ q) : ∃ as bs, xs = as ++ bs ∧
    p = marked block as ∧ q = marked (as.foldl enter block) bs := by
  induction p generalizing block xs with
  | nil => exact ⟨[], xs, rfl, rfl, h.symm⟩
  | cons y p ih =>
    cases xs with
    | nil => cases h
    | cons x xs =>
      rw [marked, List.cons_append] at h
      injection h with hy hrest
      obtain ⟨as, bs, rfl, rfl, rfl⟩ := ih hrest
      exact ⟨x :: as, bs, rfl, by rw [marked, hy], rfl⟩

theorem marked_eq_cons (h : marked block xs = (x, m) :: q) : ∃ ys, xs = x :: ys ∧
    q = marked (enter block x) ys := by
  cases xs with
  | nil => cases h
  | cons y xs =>
    injection h with hy hrest
    cases hy
    exact ⟨xs, rfl, hrest.symm⟩

/-- The tokens of a piece that opens a thinking block before it closes one. -/
theorem exists_opening (hp : Canonical tags Tag.spelling xs)
    (hfirst : OpensFirst (spell Tag.spelling xs)) (hclose : closing .thinking ∈ xs) :
    ∃ as bs, xs = as ++ opening .thinking :: bs ∧ closing .thinking ∉ as ∧
      opening .thinking ∉ as := by
  have hopen : opening .thinking ∈ xs := by
    by_contra hnot
    obtain ⟨cs, ds, rfl, hcs⟩ := List.eq_append_cons_of_mem hclose
    obtain ⟨m, hm, -⟩ := hfirst _ (lawful.find_tag hp hcs)
    rw [lawful.find_none hp hnot] at hm
    cases hm
  obtain ⟨as, bs, rfl, has⟩ := List.eq_append_cons_of_mem hopen
  refine ⟨as, bs, rfl, fun hmem => ?_, has⟩
  obtain ⟨cs, ds, rfl, hcs⟩ := List.eq_append_cons_of_mem hmem
  have hlen : (spell Tag.spelling cs).length ≤
      (spell Tag.spelling (cs ++ closing .thinking :: ds)).length := by
    rw [spell_append, List.length_append]
    exact Nat.le_add_right ..
  have hfindOpen := lawful.find_tag hp has
  have hfindClose : find (Tag.spelling ⟨.thinking, true⟩)
      (spell Tag.spelling (cs ++ closing .thinking :: ds ++ opening .thinking :: bs)) =
        some (spell Tag.spelling cs).length := by
    rw [List.append_assoc, List.cons_append] at hp ⊢
    exact lawful.find_tag hp hcs
  obtain ⟨m, hm, hlt⟩ := hfirst _ hfindClose
  rw [hfindOpen] at hm
  cases hm
  omega

end Cover

section Safety

variable {out rem res : List (Token Tag × Bool)} {block : Option (Kind × Nat)}
  {xs : List (Token Tag)}

/-- What the pass over think blocks leaves of marked tokens is safe for the next pass. -/
theorem Pass.safe (h : Pass .think out rem res) (hout : Safe false out)
    (hrem : rem = marked block xs) (hxs : Canonical tags Tag.spelling xs)
    (hready : Ready block ((out.map Prod.fst).foldl cover false) xs) : Safe false res := by
  induction h generalizing block xs with
  | done hopen =>
    subst hrem
    rw [map_fst_marked] at hopen
    rw [safe_append]
    rw [← List.append_nil xs] at hready
    exact ⟨hout, (hready.piece hopen).1⟩
  | @copy out pre rest m hopen hclose hjoint hfirst =>
    obtain ⟨as, bs, rfl, rfl, -⟩ := marked_eq_append hrem.symm
    rw [map_fst_marked] at hopen
    have hpiece := hready.piece hopen
    have hleft := lawful.canonical_left hxs
    have hopens := hfirst rfl
    rw [textOf, map_fst_marked] at hopens
    rw [safe_append, safe_append, List.map_append, List.foldl_append, map_fst_marked]
    exact ⟨⟨hout, hpiece.1⟩, hready.copy hopen (exists_opening hleft hopens)⟩
  | @cut out pre mid rest next res m m' hopen hclose hnext hjoint hpass ih =>
    obtain ⟨as, behind, rfl, rfl, hbehind⟩ := marked_eq_append hrem.symm
    obtain ⟨inner, rfl, hinner⟩ := marked_eq_cons hbehind.symm
    obtain ⟨mids, tail, rfl, rfl, htail⟩ := marked_eq_append hinner.symm
    obtain ⟨bs, rfl, rfl⟩ := marked_eq_cons htail.symm
    rw [map_fst_marked] at hopen hclose
    have hpiece := hready.piece hopen
    have hbehind := hpiece.2.opened.piece hclose
    rw [List.foldl_append, List.foldl_cons, List.foldl_nil] at hbehind
    have hcanonical : Canonical tags Tag.spelling bs := by
      have hright := lawful.canonical_tag_iff.mp (lawful.canonical_right hxs)
      exact lawful.canonical_tag_iff.mp (lawful.canonical_right hright)
    have hout' : Safe false (out ++ marked block as) := safe_append.mpr ⟨hout, hpiece.1⟩
    have hcover : ((out ++ marked block as).map Prod.fst).foldl cover false =
        as.foldl cover ((out.map Prod.fst).foldl cover false) := by
      rw [List.map_append, List.foldl_append, map_fst_marked]
    obtain rfl | ⟨m, hbreak⟩ := hnext
    · refine ih hout' rfl hcanonical ?_
      rw [hcover]
      exact hbehind
    · obtain ⟨bs, rfl, rfl⟩ := marked_eq_cons hbreak
      refine ih hout' rfl (canonical_char_iff.mp hcanonical).2 ?_
      rw [hcover]
      exact hbehind.step (by rintro ⟨⟩)

/-- The pass over thinking blocks leaves nothing marked of what is safe. -/
theorem Pass.unmarked (h : Pass .thinking out rem res) (hout : ∀ p ∈ out, p.2 = false)
    (hrem : Safe false rem) : ∀ p ∈ res, p.2 = false := by
  induction h with
  | done hopen => exact List.forall_mem_append.mpr ⟨hout, hrem.unmarked hopen⟩
  | copy hopen hclose hjoint hfirst =>
    have hpre := (safe_append.mp hrem).1.unmarked hopen
    exact List.forall_mem_append.mpr ⟨List.forall_mem_append.mpr ⟨hout, hpre⟩, hpre⟩
  | @cut out pre mid rest next res m m' hopen hclose hnext hjoint hpass ih =>
    obtain ⟨hpre, hbehind⟩ := safe_append.mp hrem
    obtain ⟨-, hbehind⟩ := hbehind
    obtain ⟨-, hbehind⟩ := safe_append.mp hbehind
    have hrest : Safe false rest := hbehind.2
    refine ih (List.forall_mem_append.mpr ⟨hout, hpre.unmarked hopen⟩) ?_
    obtain rfl | ⟨m, rfl⟩ := hnext
    · exact hrest
    · exact hrest.2

end Safety

section Result

variable {s w : Str}

/-- The tokens of a text, each with whether it stands inside a block. -/
def markedTokens (s : Str) : List (Token Tag × Bool) := marked none (lex tags Tag.spelling 0 s)

theorem textOf_markedTokens (s : Str) : textOf (markedTokens s) = s := by
  rw [textOf, markedTokens, map_fst_marked, lawful.spell_lex]

theorem map_fst_stripped (s : Str) :
    (stripKind .thinking (stripKind .think (characters (markedTokens s)))).map Prod.fst =
      stripTaggedBlock (stripTaggedBlock s "think".toList) "thinking".toList := by
  rw [map_fst_stripKind, map_fst_stripKind, map_fst_characters, textOf_markedTokens]
  rfl

/-- The characters shown are the ones that are returned, blanks apart. -/
theorem map_fst_shown (s : Str) :
    (shown s).map Prod.fst = (sanitizeVisibleResponse s).filter (! isWhitespace ·) := by
  rw [sanitizeVisibleResponse, BlankLines.filter_collapseBlankLines, filter_trim,
    ← map_fst_stripped, List.filter_map]
  rfl

/-- Without an opening tag there is nothing to strip. -/
theorem stripTaggedBlock_eq_self (k : Kind) (h : ¬ Tag.spelling ⟨k, false⟩ <:+: s) :
    stripTaggedBlock s k.name = s := by
  have hfind : find (Tag.spelling ⟨k, false⟩) s = none := find_eq_none_iff.mpr h
  have hone (fuel : Nat) :
      stripBlocks (Tag.spelling ⟨k, false⟩) (Tag.spelling ⟨k, true⟩) fuel [] s = s := by
    cases fuel with
    | zero => rfl
    | succ fuel =>
      rw [stripBlocks, hfind]
      rfl
  exact hone s.length

theorem word_sanitized (hne : w ≠ []) (hw : '\n' ∉ w) (h : w <:+: sanitizeVisibleResponse s) :
    w <:+: stripTaggedBlock (stripTaggedBlock s "think".toList) "thinking".toList :=
  (BlankLines.word_collapseBlankLines hne hw h).trans (trim_isInfix _)

/-- What is returned without an opening tag is returned for itself. -/
theorem sanitized_stable (h : ∀ k, ¬ Tag.spelling ⟨k, false⟩ <:+: sanitizeVisibleResponse s) :
    sanitizeVisibleResponse (sanitizeVisibleResponse s) = sanitizeVisibleResponse s := by
  have hthink := stripTaggedBlock_eq_self .think (h .think)
  have hthinking := stripTaggedBlock_eq_self .thinking (h .thinking)
  have hstable := BlankLines.collapseBlankLines_stable (trim_trim
    (stripTaggedBlock (stripTaggedBlock s "think".toList) "thinking".toList))
  have hagain (t : Str) (ht : stripTaggedBlock t Kind.think.name = t)
      (ht' : stripTaggedBlock t Kind.thinking.name = t) :
      sanitizeVisibleResponse t = collapseBlankLines (trim t) := by
    change collapseBlankLines (trim (stripTaggedBlock (stripTaggedBlock t Kind.think.name)
      Kind.thinking.name)) = collapseBlankLines (trim t)
    rw [ht, ht']
  rw [hagain _ hthink hthinking]
  change collapseBlankLines (trim (collapseBlankLines _)) = collapseBlankLines _
  rw [hstable.1, hstable.2]

/-- The two passes over a text that is not entangled. -/
theorem untangled_passes (h : Untangled s) : ∃ res res', Pass .think [] (markedTokens s) res ∧
    Pass .thinking [] res res' ∧ Canonical tags Tag.spelling (res'.map Prod.fst) ∧
    stripKind .thinking (stripKind .think (characters (markedTokens s))) = characters res' := by
  have hcanonical : Canonical tags Tag.spelling ((markedTokens s).map Prod.fst) := by
    rw [markedTokens, map_fst_marked]
    exact lawful.canonical_lex s
  have hlen : (characters (markedTokens s)).length = s.length := by
    rw [length_characters, textOf_markedTokens]
  obtain ⟨res, hpass, hres⟩ := stripMarked_pass (k := .think) s.length []
    (by rw [textOf_markedTokens]) hcanonical (by
      rw [textOf_markedTokens]
      exact fun j hj => ⟨h.think j hj, fun hcopied _ => h.copies j hj hcopied⟩)
  have hstrip : stripKind .think (characters (markedTokens s)) = characters res := by
    rw [stripKind, hlen]
    exact hres
  have hres' : Canonical tags Tag.spelling (res.map Prod.fst) := hpass.canonical hcanonical
  have htext : textOf res = stripTaggedBlock s Kind.think.name := by
    rw [← map_fst_characters, ← hstrip, map_fst_stripKind, map_fst_characters,
      textOf_markedTokens]
  obtain ⟨res', hpass', hstrip'⟩ := stripMarked_pass (k := .thinking)
    (textOf res).length [] le_rfl hres' (by
      rw [htext]
      exact fun j hj => ⟨h.thinking j hj, by rintro - ⟨⟩⟩)
  refine ⟨res, res', hpass, hpass', hpass'.canonical hres', ?_⟩
  rw [hstrip, stripKind, length_characters]
  exact hstrip'

theorem untangled_tagless (h : Untangled s) (k : Kind) :
    ¬ Tag.spelling ⟨k, false⟩ <:+: sanitizeVisibleResponse s := by
  intro hinfix
  obtain ⟨res, res', hpass, hpass', hcanonical, hstrip⟩ := untangled_passes h
  have hnewline : '\n' ∉ Tag.spelling ⟨k, false⟩ := by cases k <;> decide
  have hword := word_sanitized (lawful.ne_nil _) hnewline hinfix
  rw [← map_fst_stripped, hstrip, map_fst_characters] at hword
  have hmem := lawful.mem_lex hword
  rw [textOf, hcanonical] at hmem
  cases k with
  | thinking => exact hpass'.not_opening List.not_mem_nil hmem
  | think =>
    obtain ⟨y, hy, hopen⟩ := List.mem_map.mp hmem
    exact hpass.not_opening List.not_mem_nil (List.mem_map.mpr ⟨y, hpass'.subset hy, hopen⟩)

theorem untangled_outside (h : Untangled s) : ∀ p ∈ shown s, p.2 = false := by
  obtain ⟨res, res', hpass, hpass', -, hstrip⟩ := untangled_passes h
  have hready : Ready none false (lex tags Tag.spelling 0 s) :=
    ⟨by rintro n ⟨⟩, by rintro n ⟨⟩, by rintro k n ⟨⟩, h.blocks⟩
  have hsafe := hpass.safe trivial rfl (lawful.canonical_lex s) hready
  have hclear := hpass'.unmarked (fun _ hp => absurd hp List.not_mem_nil) hsafe
  intro p hp
  have hmem := List.mem_of_mem_filter hp
  rw [← markedTokens, hstrip] at hmem
  obtain ⟨y, hy, hchar⟩ := List.mem_flatMap.mp hmem
  obtain ⟨c, -, rfl⟩ := List.mem_map.mp hchar
  exact hclear y hy

/-- A text that is not entangled is sanitized: no opening tag and nothing that stood inside a
block is returned, and what is returned stays as it is. -/
theorem sanitizeVisibleResponse_sanitizes (s : Str) (h : Untangled s) : Sanitized s where
  tagless := untangled_tagless h
  outside := untangled_outside h
  stable := sanitized_stable (untangled_tagless h)

theorem sanitizeVisibleResponse_sanitizes_reply :
    Sanitized "<thinking>a</thinking>\nb <think>c</think> d <think>e".toList :=
  sanitizeVisibleResponse_sanitizes _
    ⟨by decide +kernel, by decide +kernel, by decide +kernel, by decide +kernel⟩

/-- The end of a block with a block in it is shown. -/
theorem sanitizeVisibleResponse_nested : ¬ ∀ s, Sanitized s := by
  intro h
  have hshown := (h "<think>a<think>b</think>c</think>d".toList).outside ('c', true)
    (by decide +kernel)
  cases hshown

/-- A piece that is copied can show the end of a block that began in front of it. -/
example : ('a', true) ∈ shown
    "<thinking>q<think>z</think>a</thinking>b<think>u".toList := by decide +kernel

/-- A block between the halves of a tag brings them together. -/
example : sanitizeVisibleResponse "<thi<think>x</think>nk>secret".toList =
    "<think>secret".toList := by decide +kernel

end Result

end Clawreform.Runtime.BlockStripping
