import Clawreform.Lib.Lowercase

namespace Clawreform.Lib.Html

open Clawreform.Lib.Text Clawreform.Lib.Find Clawreform.Lib.Lowercase

section Pages

/-- A page: characters of text, tags that stand alone, and elements with what they hold. -/
inductive Page where
  | nil
  | char (c : Char) (rest : Page)
  | tag (body : Str) (rest : Page)
  | element (name attrs close : Str) (children rest : Page)

def render : Page → Str
  | .nil => []
  | .char c rest => c :: render rest
  | .tag body rest => '<' :: (body ++ '>' :: render rest)
  | .element name attrs close children rest =>
    '<' :: (name ++ attrs ++ '>' :: (render children ++
      '<' :: '/' :: (close ++ '>' :: render rest)))

def append : Page → Page → Page
  | .nil, page => page
  | .char c rest, page => .char c (append rest page)
  | .tag body rest, page => .tag body (append rest page)
  | .element name attrs close children rest, page =>
    .element name attrs close children (append rest page)

/-- Text in front of a page. -/
def text (s : Str) (page : Page) : Page := s.foldr .char page

/-- A property of the parts of a page. -/
structure Local where
  char : Char → Prop
  tag : Str → Prop
  element : Str → Str → Str → Page → Prop

/-- Every part of a page has a property. -/
def Everywhere (P : Local) : Page → Prop
  | .nil => True
  | .char c rest => P.char c ∧ Everywhere P rest
  | .tag body rest => P.tag body ∧ Everywhere P rest
  | .element name attrs close children rest =>
    P.element name attrs close children ∧ Everywhere P children ∧ Everywhere P rest

/-- The text has no tags, no tag holds another one, a name begins with a letter, has no space, and
ends where the attributes begin, and an element is closed by its own name. -/
def WellFormed : Local where
  char c := c ≠ '<'
  tag body := '<' ∉ body ∧ '>' ∉ body
  element name attrs close _ := (∃ c s, name = c :: s ∧ c.isAlpha) ∧ ' ' ∉ name ∧
    ('<' ∉ name ++ attrs ∧ '>' ∉ name ++ attrs) ∧ (∀ c ∈ attrs.head?, c.isAlphanum = false) ∧
    lower close = lower name

/-- No element of the name, and no tag that closes one. -/
def Free (name : Str) : Local where
  char _ := True
  tag body := lower body ≠ '/' :: name
  element name' _ _ _ := lower name' ≠ name

/-- The elements that are met become something else, their contents included. -/
def transform (hit : Str → Str → Bool) (conv : Str → Page → Page) : Page → Page
  | .nil => .nil
  | .char c rest => .char c (transform hit conv rest)
  | .tag body rest => .tag body (transform hit conv rest)
  | .element name attrs close children rest =>
    if hit name attrs then append (conv attrs children) (transform hit conv rest)
    else .element name attrs close (transform hit conv children) (transform hit conv rest)

/-- A tag that stands alone becomes text. -/
def replaceTag (body new : Str) : Page → Page
  | .nil => .nil
  | .char c rest => .char c (replaceTag body new rest)
  | .tag body' rest =>
    if body' = body then text new (replaceTag body new rest)
    else .tag body' (replaceTag body new rest)
  | .element name attrs close children rest =>
    .element name attrs close (replaceTag body new children) (replaceTag body new rest)

/-- No tag of an element is the one that stands alone. -/
def Apart (body : Str) : Local where
  char _ := True
  tag _ := True
  element name attrs close _ := name ++ attrs ≠ body ∧ '/' :: close ≠ body

end Pages

section Decisions

variable {P : Local}

instance decidableEverywhere [∀ c, Decidable (P.char c)] [∀ b, Decidable (P.tag b)]
    [∀ n a c ch, Decidable (P.element n a c ch)] : (page : Page) → Decidable (Everywhere P page)
  | .nil => .isTrue trivial
  | .char c rest =>
    have := decidableEverywhere rest
    inferInstanceAs (Decidable (P.char c ∧ Everywhere P rest))
  | .tag b rest =>
    have := decidableEverywhere rest
    inferInstanceAs (Decidable (P.tag b ∧ Everywhere P rest))
  | .element n a c ch rest =>
    have := decidableEverywhere ch
    have := decidableEverywhere rest
    inferInstanceAs (Decidable (P.element n a c ch ∧ Everywhere P ch ∧ Everywhere P rest))

instance (c : Char) : Decidable (WellFormed.char c) := inferInstanceAs (Decidable (c ≠ '<'))

instance (b : Str) : Decidable (WellFormed.tag b) :=
  inferInstanceAs (Decidable ('<' ∉ b ∧ '>' ∉ b))

def decidableBegins (p : Char → Bool) : (name : Str) → Decidable (∃ c s, name = c :: s ∧ p c)
  | [] => .isFalse (by simp)
  | c :: s => decidable_of_iff (p c) (by simp)

def decidableEnds (p : Char → Bool) : (attrs : Str) → Decidable (∀ c ∈ attrs.head?, p c = false)
  | [] => .isTrue (by simp)
  | c :: s => decidable_of_iff (p c = false) (by simp)

instance (n a c : Str) (ch : Page) : Decidable (WellFormed.element n a c ch) :=
  have := decidableBegins Char.isAlpha n
  have := decidableEnds Char.isAlphanum a
  inferInstanceAs (Decidable ((∃ d s, n = d :: s ∧ d.isAlpha) ∧ ' ' ∉ n ∧
    ('<' ∉ n ++ a ∧ '>' ∉ n ++ a) ∧ (∀ d ∈ a.head?, d.isAlphanum = false) ∧ lower c = lower n))

variable {name : Str}

instance (c : Char) : Decidable ((Free name).char c) := inferInstanceAs (Decidable True)

instance (b : Str) : Decidable ((Free name).tag b) :=
  inferInstanceAs (Decidable (lower b ≠ '/' :: name))

instance (n a c : Str) (ch : Page) : Decidable ((Free name).element n a c ch) :=
  inferInstanceAs (Decidable (lower n ≠ name))

end Decisions

section Rendering

variable {p q page : Page} {s : Str} {P Q : Local} {hit : Str → Str → Bool}
  {conv : Str → Page → Page}

@[simp] theorem render_append : render (append p q) = render p ++ render q := by
  induction p with
  | nil => rfl
  | char c rest ih => simp [append, render, ih]
  | tag body rest ih => simp [append, render, ih]
  | element name attrs close children rest _ ih => simp [append, render, ih]

@[simp] theorem render_text : render (text s page) = s ++ render page := by
  induction s with
  | nil => rfl
  | cons c s ih => exact congrArg (c :: ·) ih

theorem everywhere_append : Everywhere P (append p q) ↔ Everywhere P p ∧ Everywhere P q := by
  induction p with
  | nil => exact ⟨fun h => ⟨trivial, h⟩, fun h => h.2⟩
  | char c rest ih => exact (and_congr_right' ih).trans and_assoc.symm
  | tag body rest ih => exact (and_congr_right' ih).trans and_assoc.symm
  | element name attrs close children rest _ ih =>
    show _ ∧ _ ∧ _ ↔ (_ ∧ _ ∧ _) ∧ _
    rw [ih, and_assoc, and_assoc]

theorem everywhere_text (hs : ∀ c ∈ s, P.char c) (h : Everywhere P page) :
    Everywhere P (text s page) := by
  induction s with
  | nil => exact h
  | cons c s ih =>
    obtain ⟨hc, hs⟩ := List.forall_mem_cons.mp hs
    exact ⟨hc, ih hs⟩

/-- A property of the parts follows from another one, of the contents too. -/
theorem everywhere_imp (hchar : ∀ c, P.char c → Q.char c) (htag : ∀ b, P.tag b → Q.tag b)
    (helement : ∀ n a c ch, Everywhere P ch → P.element n a c ch → Q.element n a c ch)
    (h : Everywhere P page) : Everywhere Q page := by
  induction page with
  | nil => trivial
  | char c rest ih => exact ⟨hchar c h.1, ih h.2⟩
  | tag body rest ih => exact ⟨htag body h.1, ih h.2⟩
  | element n a c ch rest ihc ihr =>
    exact ⟨helement n a c ch h.2.1 h.1, ihc h.2.1, ihr h.2.2⟩

def Local.and (P Q : Local) : Local where
  char c := P.char c ∧ Q.char c
  tag b := P.tag b ∧ Q.tag b
  element n a c ch := P.element n a c ch ∧ Q.element n a c ch

theorem everywhere_and (hP : Everywhere P page) (hQ : Everywhere Q page) :
    Everywhere (P.and Q) page := by
  induction page with
  | nil => trivial
  | char c rest ih => exact ⟨⟨hP.1, hQ.1⟩, ih hP.2 hQ.2⟩
  | tag body rest ih => exact ⟨⟨hP.1, hQ.1⟩, ih hP.2 hQ.2⟩
  | element n a c ch rest ihc ihr =>
    exact ⟨⟨hP.1, hQ.1⟩, ihc hP.2.1 hQ.2.1, ihr hP.2.2 hQ.2.2⟩

/-- What a transformation keeps. -/
theorem everywhere_transform
    (hhit : ∀ n a c ch, hit n a = true → P.element n a c ch → Everywhere P ch →
      Everywhere P (conv a ch))
    (helement : ∀ n a c ch, Everywhere P ch → P.element n a c ch →
      P.element n a c (transform hit conv ch))
    (h : Everywhere P page) : Everywhere P (transform hit conv page) := by
  induction page with
  | nil => trivial
  | char c rest ih => exact ⟨h.1, ih h.2⟩
  | tag body rest ih => exact ⟨h.1, ih h.2⟩
  | element n a c ch rest ihc ihr =>
    obtain ⟨he, hch, hrest⟩ := h
    rw [transform]
    split
    · rename_i hn
      exact everywhere_append.mpr ⟨hhit n a c ch hn he hch, ihr hrest⟩
    · exact ⟨helement n a c ch hch he, ihc hch, ihr hrest⟩

end Rendering

section Skipping

variable {pat name s t k : Str} {c d : Char}

/-- A pattern does not begin in a text, whatever follows. -/
def Skips (pat s : Str) : Prop := ∀ k, find pat (lower s ++ k) = (find pat k).map (· + s.length)

theorem skips_nil : Skips pat [] := by
  intro k
  simp [lower]

theorem Skips.append (hs : Skips pat s) (ht : Skips pat t) : Skips pat (s ++ t) := by
  intro k
  rw [lower_append, List.append_assoc, hs, ht, Option.map_map, List.length_append]
  congr 1
  funext n
  simp only [Function.comp_apply]
  omega

theorem skips_cons (hnot : ∀ k, ¬ pat <+: c.toLower :: (lower s ++ k)) (hs : Skips pat s) :
    Skips pat (c :: s) := by
  intro k
  show find pat (c.toLower :: (lower s ++ k)) = _
  rw [find_cons_of_not (hnot k), hs, Option.map_map, List.length_cons]
  congr 1

/-- A tag does not begin where no bracket stands. -/
theorem skips_of_notMem (h : '<' ∉ s) : Skips ('<' :: pat) s := by
  induction s with
  | nil => exact skips_nil
  | cons c s ih =>
    rw [List.mem_cons, not_or] at h
    refine skips_cons ?_ (ih h.2)
    intro k hp
    have hc : c.toLower = '<' := (List.cons_prefix_cons.mp hp).1.symm
    have hself : c.toLower = c := toLower_eq_self (hc ▸ by decide)
    exact h.1 (hc.symm.trans hself)

/-- A tag that is another one. -/
theorem skips_tag (hs : '<' ∉ s) (hnot : ∀ k, ¬ pat <+: lower s ++ k) :
    Skips ('<' :: pat) ('<' :: s) := by
  refine skips_cons ?_ (skips_of_notMem hs)
  intro k hp
  exact hnot k (List.cons_prefix_cons.mp hp).2

/-- A prefix without a character ends in front of it. -/
theorem prefix_of_notMem (hd : d ∉ pat) (h : pat <+: s ++ d :: k) : pat <+: s := by
  obtain ⟨r, hr⟩ := h
  rw [List.append_eq_append_iff] at hr
  obtain ⟨w, rfl, -⟩ | ⟨w, rfl, hw⟩ := hr
  · exact List.prefix_append pat w
  · cases w with
    | nil => simp
    | cons e w =>
      obtain ⟨rfl, -⟩ := List.cons_eq_cons.mp hw
      simp at hd

/-- A prefix that ends with a character that neither has before is all that stands before it. -/
theorem eq_of_prefix_stop (hp : d ∉ pat) (hs : d ∉ s) (h : pat ++ [d] <+: s ++ d :: k) :
    pat = s := by
  obtain ⟨r, hr⟩ := h
  rw [List.append_assoc, List.append_eq_append_iff] at hr
  obtain ⟨w, rfl, hw⟩ | ⟨w, rfl, hw⟩ := hr
  · cases w with
    | nil => simp
    | cons e w =>
      obtain ⟨rfl, -⟩ := List.cons_eq_cons.mp hw
      simp at hs
  · cases w with
    | nil => simp
    | cons e w =>
      obtain ⟨rfl, -⟩ := List.cons_eq_cons.mp hw
      simp at hp

end Skipping

section Tags

variable {name body attrs close : Str} {page : Page} {c : Char}

/-- What a tag can be named: letters and digits. -/
def Named (name : Str) : Prop := name ≠ [] ∧ ∀ c ∈ name, c.isAlphanum

theorem Named.notMem (h : Named name) (hc : c.isAlphanum = false) : c ∉ name := by
  intro hmem
  have := h.2 c hmem
  rw [hc] at this
  cases this

theorem skips_open_tag (hname : Named name) (hlt : '<' ∉ body) (h : ¬ name <+: lower body) :
    Skips ('<' :: name) ('<' :: (body ++ ['>'])) := by
  refine skips_tag (by simpa using hlt) ?_
  intro k hp
  rw [lower_append, List.append_assoc] at hp
  exact h (prefix_of_notMem (hname.notMem (by decide : ('>'.toLower).isAlphanum = false)) hp)

theorem skips_open_element {n : Str} (hname : Named name) (hlt : '<' ∉ n ++ attrs)
    (hattrs : ∀ c ∈ attrs.head?, c.isAlphanum = false) (h : ¬ name <+: lower n) :
    Skips ('<' :: name) ('<' :: (n ++ attrs ++ ['>'])) := by
  refine skips_tag (by simpa using hlt) ?_
  intro k hp
  rw [List.append_assoc, lower_append, List.append_assoc] at hp
  obtain ⟨d, r, hr, hd⟩ : ∃ d r, lower (attrs ++ ['>']) ++ k = d :: r ∧ d.isAlphanum = false := by
    cases attrs with
    | nil => exact ⟨'>', k, rfl, by decide⟩
    | cons d r =>
      have hd := hattrs d rfl
      refine ⟨d.toLower, lower (r ++ ['>']) ++ k, rfl, ?_⟩
      rwa [toLower_of_isAlpha (Bool.or_eq_false_iff.mp hd).1]
  rw [hr] at hp
  exact h (prefix_of_notMem (hname.notMem hd) hp)

theorem skips_open_close (hname : Named name) (hlt : '<' ∉ close) :
    Skips ('<' :: name) ('<' :: '/' :: (close ++ ['>'])) := by
  refine skips_tag (by simpa using hlt) ?_
  intro k hp
  obtain ⟨c, s, rfl⟩ := List.exists_cons_of_ne_nil hname.1
  have hc : c = '/' := (List.cons_prefix_cons.mp hp).1
  exact absurd (hname.2 c List.mem_cons_self) (by rw [hc]; decide)

/-- A tag that closes another element. -/
theorem skips_close_tag (hname : Named name) (hlt : '<' ∉ body) (hgt : '>' ∉ body)
    (h : lower body ≠ '/' :: name) :
    Skips ('<' :: '/' :: (name ++ ['>'])) ('<' :: (body ++ ['>'])) := by
  refine skips_tag (by simpa using hlt) ?_
  intro k hp
  rw [lower_append, List.append_assoc] at hp
  have hnot : '>' ∉ '/' :: name := by
    simpa using hname.notMem (by decide : '>'.isAlphanum = false)
  exact h (eq_of_prefix_stop hnot (by rwa [mem_lower_iff (by decide)]) hp).symm

theorem skips_close_element {n : Str} (hlt : '<' ∉ n ++ attrs)
    (hn : ∃ c s, n = c :: s ∧ c.isAlpha) :
    Skips ('<' :: '/' :: (name ++ ['>'])) ('<' :: (n ++ attrs ++ ['>'])) := by
  refine skips_tag (by simpa using hlt) ?_
  intro k hp
  obtain ⟨c, s, rfl, hc⟩ := hn
  have hslash : c.toLower = '/' := (List.cons_prefix_cons.mp hp).1.symm
  rw [← toLower_eq_self (hslash ▸ by decide : c.toLower.isAlpha = false), hslash] at hc
  cases hc

theorem notMem_close {n : Str} {m : Char} (hclose : lower close = lower n)
    (hm : m.isAlpha = false) (h : m ∉ n ++ attrs) : m ∉ close := by
  rw [← mem_lower_iff hm, hclose, mem_lower_iff hm]
  exact fun hin => h (List.mem_append_left _ hin)

theorem skips_close (hname : Named name) (h : Everywhere WellFormed page)
    (hfree : Everywhere (Free name) page) :
    Skips ('<' :: '/' :: (name ++ ['>'])) (render page) := by
  induction page with
  | nil => exact skips_nil
  | char c rest ih =>
    have hne : c ≠ '<' := h.1
    exact (skips_of_notMem (s := [c]) (by simpa using hne.symm)).append (ih h.2 hfree.2)
  | tag body rest ih =>
    have htag := skips_close_tag hname h.1.1 h.1.2 hfree.1
    simpa [render] using htag.append (ih h.2 hfree.2)
  | element n attrs close children rest ihc ihr =>
    obtain ⟨⟨hn, -, ⟨hlt, hgt⟩, -, hclose⟩, hchildren, hrest⟩ := h
    obtain ⟨hne, hfc, hfr⟩ := hfree
    have hlt' := notMem_close hclose (by decide) hlt
    have hgt' := notMem_close hclose (by decide) hgt
    have hopen := @skips_close_element name attrs n hlt hn
    have hend : Skips ('<' :: '/' :: (name ++ ['>'])) ('<' :: ('/' :: close ++ ['>'])) := by
      refine skips_close_tag hname (by simpa using hlt') (by simpa using hgt') ?_
      intro heq
      exact hne (hclose.symm.trans (List.cons_eq_cons.mp heq).2)
    have hall := ((hopen.append (ihc hchildren hfc)).append hend).append (ihr hrest hfr)
    simpa [render] using hall

end Tags

section Replacing

variable {body new s k : Str} {c : Char} {page : Page} {P : Local}

theorem replaceText_of_notMem {pat : Str} (h : c ∉ s) (k : Str) :
    replaceText (s ++ k) (c :: pat) new = s ++ replaceText k (c :: pat) new := by
  induction s with
  | nil => rfl
  | cons d s ih =>
    rw [List.mem_cons, not_or] at h
    have hnot : ¬ c :: pat <+: d :: (s ++ k) := fun hp => h.1 (List.cons_prefix_cons.mp hp).1
    rw [List.cons_append, replaceText_of_not hnot, ih h.2, List.cons_append]

/-- A tag is replaced as a whole or not at all. -/
theorem replaceText_tag (hbody : '>' ∉ body) (hs : '<' ∉ s ∧ '>' ∉ s) (k : Str) :
    replaceText ('<' :: (s ++ '>' :: k)) ('<' :: (body ++ ['>'])) new =
      (if s = body then new else '<' :: (s ++ ['>'])) ++
        replaceText k ('<' :: (body ++ ['>'])) new := by
  split
  · rename_i heq
    subst heq
    have hwhole := @replaceText_of_start (s ++ ['>']) new k '<'
    simpa using hwhole
  · rename_i hne
    have hnot : ¬ '<' :: (body ++ ['>']) <+: '<' :: (s ++ '>' :: k) := fun hp =>
      hne (eq_of_prefix_stop hbody hs.2 (List.cons_prefix_cons.mp hp).2).symm
    have hinside : '<' ∉ s ++ ['>'] := by simpa using hs.1
    rw [replaceText_of_not hnot]
    have hskip := @replaceText_of_notMem new (s ++ ['>']) '<' (body ++ ['>']) hinside k
    simpa using congrArg ('<' :: ·) hskip

theorem replaceText_render (hbody : '>' ∉ body) (hpage : Everywhere WellFormed page)
    (hapart : Everywhere (Apart body) page) (k : Str) :
    replaceText (render page ++ k) ('<' :: (body ++ ['>'])) new =
      render (replaceTag body new page) ++ replaceText k ('<' :: (body ++ ['>'])) new := by
  induction page generalizing k with
  | nil => rfl
  | char c rest ih =>
    have hne : c ≠ '<' := hpage.1
    have hskip := @replaceText_of_notMem new [c] '<' (body ++ ['>']) (by simpa using hne.symm)
      (render rest ++ k)
    exact hskip.trans (congrArg (c :: ·) (ih hpage.2 hapart.2 k))
  | tag b rest ih =>
    have hassoc : render (.tag b rest) ++ k = '<' :: (b ++ '>' :: (render rest ++ k)) := by
      simp [render]
    rw [hassoc, replaceText_tag hbody hpage.1, ih hpage.2 hapart.2, replaceTag]
    split
    · rw [render_text, List.append_assoc]
    · simp [render]
  | element n a c ch rest ihc ihr =>
    obtain ⟨⟨-, -, hopen, -, hclose⟩, hch, hrest⟩ := hpage
    obtain ⟨⟨hne, hne'⟩, hach, harest⟩ := hapart
    have hlt := notMem_close hclose (by decide) hopen.1
    have hgt := notMem_close hclose (by decide) hopen.2
    have hassoc : render (.element n a c ch rest) ++ k = '<' :: (n ++ a ++ '>' ::
        (render ch ++ '<' :: ('/' :: c ++ '>' :: (render rest ++ k)))) := by
      simp [render]
    rw [hassoc, replaceText_tag hbody hopen, if_neg hne, ihc hch hach,
      replaceText_tag hbody (by simpa using ⟨hlt, hgt⟩), if_neg hne', ihr hrest harest]
    simp [replaceTag, render]

theorem everywhere_replaceTag (hnew : ∀ c ∈ new, P.char c)
    (helement : ∀ n a c ch, P.element n a c ch → P.element n a c (replaceTag body new ch))
    (h : Everywhere P page) : Everywhere P (replaceTag body new page) := by
  induction page with
  | nil => trivial
  | char c rest ih => exact ⟨h.1, ih h.2⟩
  | tag b rest ih =>
    rw [replaceTag]
    split
    · exact everywhere_text hnew (ih h.2)
    · exact ⟨h.1, ih h.2⟩
  | element n a c ch rest ihc ihr => exact ⟨helement n a c ch h.1, ihc h.2.1, ihr h.2.2⟩

end Replacing

end Clawreform.Lib.Html
